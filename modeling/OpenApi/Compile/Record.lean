import OpenApi.Compile.Scope
import OpenApi.Graph.Reach
import OpenApi.Schema.Reader
import OpenApi.Traced

/-!
# Flat records

A record may be composed of other records.  Flattening it collects, from left to right, the schemas it
builds on, its properties, and the parts that are not objects.  Where bases are inherited, a base must
be an object schema, found through aliases if need be, and one that is emitted later is not inherited
but has its fields copied.  Copying remembers the schemas under way, so it ends on every document.
-/

namespace OpenApi

/-- A record without nested compositions. -/
structure FlatRecord where
  bases : List String := []
  properties : List (Scalar × Schema) := []
  required : List Scalar := []
  additional : Additional Schema := .unstated
  extras : List Schema := []
deriving Inhabited

namespace FlatRecord

/-- The record of a plain object. -/
def ofObject (properties : Option (List (Scalar × Schema))) (required : List Scalar)
    (additional : Additional Schema) : FlatRecord where
  properties := properties.getD []
  required
  additional

/-- Build on one more schema, once. -/
def withBase (flat : FlatRecord) (base : String) : FlatRecord :=
  if base ∈ flat.bases then flat else { flat with bases := flat.bases ++ [base] }

/-- Add a part that is not an object. -/
def withExtra (flat : FlatRecord) (extra : Schema) : FlatRecord :=
  { flat with extras := flat.extras ++ [extra] }

/-- Put two required lists together, each name once. -/
def mergeRequired (first second : List Scalar) : List Scalar :=
  second.foldl
    (fun names name => if names.any (Scalar.same name) then names else names ++ [name]) first

/-- Take another record in after what is already there.  A later property replaces an earlier one of
the same key at its position, required names accumulate, and what is said last about further
properties holds. -/
def absorb (flat inner : FlatRecord) : FlatRecord where
  bases := (inner.bases.foldl withBase flat).bases
  properties := Keyed.putAll Scalar.same inner.properties flat.properties
  required := mergeRequired flat.required inner.required
  additional :=
    match inner.additional with
    | .unstated => flat.additional
    | stated => stated
  extras := flat.extras ++ inner.extras

end FlatRecord

/-- The schema that a schema is another name for: a pointer, perhaps below compositions of a single
branch. -/
def Schema.aliasOf? (schema : Schema) : Option String :=
  match schema.unwrapped with
  | .reference _ pointer => Reference.schemaName? pointer
  | _ => none

/-- The first record among a schema and those it is another name for.  There is none if the chain
leaves the document, ends at something else, or comes back to a schema that it has passed. -/
def recordBehind? (schemas : Mapping) (passed : List String) (name : String) :
    Except Fault (Option String) :=
  match _held : schemas.find? name with
  | none => .ok none
  | some raw =>
    if _fresh : name ∈ passed then .ok none
    else do
      let schema ← Schema.ofValue raw
      if schema.isRecord then return some name
      else
        match schema.aliasOf? with
        | some next => recordBehind? schemas (name :: passed) next
        | none => return none
termination_by Graph.unseen schemas.names passed
decreasing_by exact Graph.unseen_cons_lt (Mapping.mem_names_of_find? _held) _fresh

namespace Scope

variable (scope : Scope)

/-- The schema to build on for a pointer in an `allOf`.  Without inheritance that is the schema
itself, and so it is for one that is not in the document; otherwise it is the first record behind
the name, and it is reported if there is none. -/
def base? (nominal : Bool) (name : String) : Traced (Option String) :=
  if nominal && scope.schemas.has name then
    match recordBehind? scope.schemas [] name with
    | .ok (some record) => .answer (some record)
    | .ok none => ⟨[.baseNotRecord name], .ok none⟩
    | .error fault => .fail fault
  else .answer (some name)

/-- Whether a base would be inherited before it is defined. -/
def emittedLater (nominal : Bool) (base : String) : Bool :=
  nominal && scope.schemas.has base &&
    match scope.defined with
    | some defined => decide (base ∉ defined)
    | none => false

end Scope

mutual

/-- Flatten a record.  `copying` are the schemas whose fields are being copied. -/
def flatten (scope : Scope) (nominal : Bool) (copying : List String) (schema : Schema) :
    Traced FlatRecord :=
  match schema with
  | .object _ properties required additional =>
    .answer (.ofObject properties required additional)
  | .composition _ _ branches => flattenBranches scope nominal copying {} branches
  | other => .answer { extras := [other] }
termination_by (Graph.unseen scope.schemas.names copying, sizeOf schema, 0)

/-- Take the branches of a composition into a record, from left to right. -/
def flattenBranches (scope : Scope) (nominal : Bool) (copying : List String) (flat : FlatRecord)
    (branches : List Schema) : Traced FlatRecord :=
  match branches with
  | [] => .answer flat
  | branch :: rest =>
    (flattenBranch scope nominal copying flat branch).andThen fun flat =>
      flattenBranches scope nominal copying flat rest
termination_by (Graph.unseen scope.schemas.names copying, sizeOf branches, 0)

/-- Take a branch of a composition into a record. -/
def flattenBranch (scope : Scope) (nominal : Bool) (copying : List String) (flat : FlatRecord)
    (branch : Schema) : Traced FlatRecord :=
  match branch with
  | .reference traits pointer =>
    match Reference.schemaName? pointer with
    | none => .answer (flat.withExtra (.reference traits pointer))
    | some name =>
      (scope.base? nominal name).andThen fun found =>
        match found with
        | none => .answer (flat.withExtra (.reference traits pointer))
        | some base =>
          if scope.emittedLater nominal base then
            match _held : scope.schemas.find? base with
            | none => .answer flat
            | some raw =>
              if _fresh : base ∈ copying then .answer flat
              else
                (Traced.ofExcept (Schema.ofValue raw)).andThen fun schema =>
                  (flatten scope nominal (base :: copying) schema).andThen fun inner =>
                    .answer (flat.absorb inner)
          else .answer (flat.withBase base)
  | .object traits properties required additional =>
    (flatten scope nominal copying (.object traits properties required additional)).andThen
      fun inner => .answer (flat.absorb inner)
  | .composition traits .allOf inner =>
    (flatten scope nominal copying (.composition traits .allOf inner)).andThen
      fun inner => .answer (flat.absorb inner)
  | other => .answer (flat.withExtra other)
termination_by (Graph.unseen scope.schemas.names copying, sizeOf branch, 1)
decreasing_by
  · exact Prod.Lex.left _ _ (Graph.unseen_cons_lt (Mapping.mem_names_of_find? _held) _fresh)
  all_goals
    apply Prod.Lex.right
    apply Prod.Lex.right
    decide

end

end OpenApi
