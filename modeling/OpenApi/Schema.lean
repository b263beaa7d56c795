import OpenApi.Reference

/-!
# Schemas

A schema of an OpenAPI document, read apart into the cases that type systems tell apart.
-/

namespace OpenApi

/-- What every schema may state besides its case. -/
structure Traits where
  description : Option String := none
  nullable : Bool := false
deriving DecidableEq, Inhabited, Repr

/-- How the branches of a composed schema are joined. -/
inductive Composition where
  | allOf
  | oneOf
  | anyOf
deriving DecidableEq, Inhabited, Repr

def Composition.keyword : Composition → String
  | allOf => "allOf"
  | oneOf => "oneOf"
  | anyOf => "anyOf"

/-- The types of values without parts. -/
inductive Primitive where
  | string
  | integer
  | number
  | boolean
deriving DecidableEq, Inhabited, Repr

def Primitive.typeName : Primitive → String
  | string => "string"
  | integer => "integer"
  | number => "number"
  | boolean => "boolean"

/-- What an object states about properties that it does not name: nothing, that they are allowed or
forbidden, or what their values are. -/
inductive Additional (α : Type) where
  | unstated
  | allowed (permitted : Bool)
  | values (content : α)
deriving DecidableEq, Inhabited, Repr

/-- A schema.  The `properties` of an object are present if they are declared, be it as an empty map:
an object with declared properties is a record, one without is a free-form map. -/
inductive Schema where
  /-- A pointer, which may or may not lead to a schema of the document. -/
  | reference (traits : Traits) (pointer : String)
  | enumeration (traits : Traits) (values : List Value)
  | composition (traits : Traits) (kind : Composition) (branches : List Schema)
  | primitive (traits : Traits) (kind : Primitive)
  | array (traits : Traits) (items : Option Schema)
  | object (traits : Traits) (properties : Option (List (Scalar × Schema)))
      (required : List Scalar) (additional : Additional Schema)
  /-- A schema without usable type information. -/
  | unknown (traits : Traits)
deriving Inhabited, Repr

namespace Schema

/-- What the schema states besides its case. -/
def traits : Schema → Traits
  | reference traits _ | enumeration traits _ | composition traits _ _ | primitive traits _
  | array traits _ | object traits _ _ _ | unknown traits => traits

/-- The description of a schema, if it has one. -/
def description (schema : Schema) : Option String := schema.traits.description

/-- Whether null is a value of the schema besides its others. -/
def nullable (schema : Schema) : Bool := schema.traits.nullable

/-- Whether the schema is emitted as an object definition and not as an alias: an object with
declared properties, or an `allOf` of several branches or of one such branch. -/
def isRecord : Schema → Bool
  | object _ properties _ _ => properties.isSome
  | composition _ .allOf [branch] => branch.isRecord
  | composition _ .allOf branches => 1 < branches.length
  | _ => false

/-- The schema below compositions of a single branch. -/
def unwrapped : Schema → Schema
  | composition _ _ [branch] => branch.unwrapped
  | schema => schema

mutual

/-- The number of schemas in the tree, the schema itself included. -/
def size : Schema → Nat
  | composition _ _ branches => sizeBranches branches + 1
  | array _ (some items) => items.size + 1
  | object _ (some properties) _ (.values content) => sizeProperties properties + content.size + 1
  | object _ (some properties) _ _ => sizeProperties properties + 1
  | object _ none _ (.values content) => content.size + 1
  | _ => 1

/-- The number of schemas in the branches. -/
def sizeBranches : List Schema → Nat
  | [] => 0
  | branch :: rest => branch.size + sizeBranches rest

/-- The number of schemas in the properties. -/
def sizeProperties : List (Scalar × Schema) → Nat
  | [] => 0
  | (_, property) :: rest => property.size + sizeProperties rest

end

end Schema

end OpenApi
