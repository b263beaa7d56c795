import OpenApi.NameSet

/-!
# Compiled types

What compiling a schema yields: a type expression in the syntax of the target, the schemas that it
mentions, the names that it needs imported, and for records the fields and bases from which a module
is written.  Records that cannot stand inside of an expression come along as definitions of their own.
-/

namespace OpenApi

/-- Whether a definition is a record with fields or a name for another type. -/
inductive DefinitionKind where
  | object
  | typeAlias
deriving DecidableEq, Inhabited, Repr

def DefinitionKind.name : DefinitionKind → String
  | object => "object"
  | typeAlias => "alias"

/-- A property of a record. -/
structure Field where
  name : String
  expression : String
  required : Bool
  description : Option String := none
deriving DecidableEq, Inhabited, Repr

/-- A type in the syntax of the target.  `references` are the schemas that it mentions, `imports` the
library names that it needs.  The fields and bases of a record let a module choose between an
expression and inheritance. -/
structure TypeExpr where
  expression : String
  references : NameSet := ∅
  imports : NameSet := ∅
  kind : DefinitionKind := .typeAlias
  fields : List Field := []
  bases : List String := []
deriving DecidableEq, Inhabited

/-- A type under a name.  `synthesized` tells that no schema of the document has this name. -/
structure Definition where
  name : String
  type : TypeExpr
  description : Option String := none
  synthesized : Bool := false
deriving DecidableEq, Inhabited

/-- A compiled type with the definitions that it brings along, each after those it mentions. -/
structure Compiled where
  type : TypeExpr
  auxiliary : List Definition := []
deriving DecidableEq, Inhabited

namespace Compiled

def expression (compiled : Compiled) : String := compiled.type.expression

/-- The names of the definitions that a compiled type brings along. -/
def auxiliaryNames (compiled : Compiled) : List String := compiled.auxiliary.map (·.name)

/-- The schemas that any of the parts mentions. -/
def referencesOf (parts : List Compiled) : NameSet :=
  parts.foldl (fun names part => names ∪ part.type.references) ∅

/-- The library names that any of the parts needs. -/
def importsOf (parts : List Compiled) : NameSet :=
  parts.foldl (fun names part => names ∪ part.type.imports) ∅

/-- The definitions that the parts bring along, in order. -/
def auxiliaryOf (parts : List Compiled) : List Definition := parts.flatMap (·.auxiliary)

end Compiled

end OpenApi
