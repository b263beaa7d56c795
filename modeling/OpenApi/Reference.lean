import OpenApi.NameSet
import OpenApi.Value

/-!
# References

A pointer of the form `#/components/schemas/<Name>` refers to a schema of its own document.  The
references of a value are the names that such pointers under the key `$ref` give, at any depth.
-/

namespace OpenApi.Reference

/-- What stands before the name in a pointer to a schema of the same document. -/
def schemaRoot : String := "#/components/schemas/"

/-- The rest of a text after a beginning that it has. -/
def after? : List Char → List Char → Option (List Char)
  | [], rest => some rest
  | _ :: _, [] => none
  | first :: beginning, c :: rest => if first = c then after? beginning rest else none

/-- The schema that a pointer names: a name that is not empty and holds no slash. -/
def schemaName? (pointer : String) : Option String :=
  match after? schemaRoot.toList pointer.toList with
  | none | some [] => none
  | some name => if '/' ∈ name then none else some (String.ofList name)

mutual

/-- The schema names that a value refers to, in order and with repetitions.  A text under `$ref` is
a pointer; anything else is searched in turn. -/
def ofValue : Value → List String
  | .scalar _ => []
  | .list items => ofItems items
  | .map entries => ofEntries entries

/-- The schema names that the items of a list refer to. -/
def ofItems : List Value → List String
  | [] => []
  | item :: rest => ofValue item ++ ofItems rest

/-- The schema names that the entries of a mapping refer to. -/
def ofEntries : Mapping → List String
  | [] => []
  | (key, item) :: rest =>
    match key, item with
    | .text "$ref", .scalar (.text pointer) => (schemaName? pointer).toList ++ ofEntries rest
    | _, _ => ofValue item ++ ofEntries rest

end

/-- The schema names found so far, and those that a value refers to. -/
def scan (found : NameSet) (value : Value) : NameSet := found.insertAll (ofValue value)

/-- A beginning is found exactly where it stands. -/
theorem after?_eq_some_iff {beginning cs rest : List Char} :
    after? beginning cs = some rest ↔ cs = beginning ++ rest := by
  induction beginning generalizing cs with
  | nil => simp [after?, eq_comm]
  | cons first beginning ih =>
    cases cs with
    | nil => simp [after?]
    | cons c cs =>
      simp only [after?]
      split
      · next same => simp [ih, same]
      · next other => simp [Ne.symm other]

end OpenApi.Reference
