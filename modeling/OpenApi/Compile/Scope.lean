import OpenApi.NameSet
import OpenApi.Value

/-!
# Scopes

What is known around a schema while it is compiled, and never changed by it.
-/

namespace OpenApi

/-- The surroundings of a compilation: the names that synthesized definitions must avoid, the schemas
of the document, those already emitted (or nothing, if all count as emitted), and the names under
which schemas are emitted where these differ. -/
structure Scope where
  taken : NameSet
  schemas : Mapping := []
  defined : Option NameSet := none
  names : List (String × String) := []

namespace Scope

variable (scope : Scope)

/-- The name under which a schema is emitted. -/
def emittedName (name : String) : String := (scope.names.lookup name).getD name

/-- The scope in which more names are taken, if there are any. -/
def widened? (names : List String) : Option Scope :=
  if names.isEmpty then none else some { scope with taken := scope.taken.insertAll names }

/-- The scope in which more names are taken. -/
def taking (names : List String) : Scope := (scope.widened? names).getD scope

/-- A name is taken afterwards if it was before or is one of the new ones. -/
@[simp]
theorem mem_taken_taking {names : List String} {name : String} :
    name ∈ (scope.taking names).taken ↔ name ∈ scope.taken ∨ name ∈ names := by
  unfold taking widened?
  split
  · simp_all
  · simp

/-- Widening a scope takes names and changes nothing else. -/
theorem schemas_taking (names : List String) : (scope.taking names).schemas = scope.schemas := by
  unfold taking widened?
  split <;> rfl

/-- A scope around a definition: its own name, all schema names and all emitted names are taken. -/
def around (name : String) (schemas : Mapping) (reserved : List String) (defined : Option NameSet)
    (names : List (String × String)) : Scope where
  taken :=
    (NameSet.ofList schemas.names).insertAll (names.map (·.2)) |>.insertAll reserved |>.insert name
  schemas
  defined
  names

end Scope

end OpenApi
