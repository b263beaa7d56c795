/-!
# Document values

The loosely typed tree that an OpenAPI document, a schema or an enum member is read into.  A mapping
keeps its entries in the order in which their keys first appeared, and its keys are scalars: text in
most documents, but a status code or a truth value may also stand before a colon.
-/

namespace OpenApi

/-- A value without parts.  Only such a value may be the key of a mapping. -/
inductive Scalar where
  | null
  | bool (truth : Bool)
  | int (number : Int)
  | float (number : Float)
  | text (content : String)
deriving DecidableEq, Inhabited, Repr

/-- A document value: a scalar, a list, or a mapping with its entries in order. -/
inductive Value where
  | scalar (content : Scalar)
  | list (items : List Value)
  | map (entries : List (Scalar × Value))
deriving Inhabited, Repr

/-- The entries of a mapping value, in order. -/
abbrev Mapping := List (Scalar × Value)

namespace Value

/-- The absent value. -/
@[match_pattern] abbrev null : Value := scalar .null

/-- A truth value. -/
@[match_pattern] abbrev bool (truth : Bool) : Value := scalar (.bool truth)

/-- A whole number of any size. -/
@[match_pattern] abbrev int (number : Int) : Value := scalar (.int number)

/-- A binary floating-point number. -/
@[match_pattern] abbrev float (number : Float) : Value := scalar (.float number)

/-- A text. -/
@[match_pattern] abbrev text (content : String) : Value := scalar (.text content)

/-- Whether the value is a mapping. -/
def isMap : Value → Bool
  | map _ => true
  | _ => false

def isList : Value → Bool
  | list _ => true
  | _ => false

/-- The entries of a mapping; any other value has none to give. -/
def entries? : Value → Option Mapping
  | map entries => some entries
  | _ => none

/-- The content of a text value. -/
def text? : Value → Option String
  | text content => some content
  | _ => none

mutual

/-- The number of values in the tree, the value itself included. -/
def size : Value → Nat
  | scalar _ => 1
  | list items => sizeItems items + 1
  | map entries => sizeEntries entries + 1

/-- The number of values in a list of trees. -/
def sizeItems : List Value → Nat
  | [] => 0
  | item :: rest => item.size + sizeItems rest

/-- The number of values under the keys of a mapping. -/
def sizeEntries : Mapping → Nat
  | [] => 0
  | (_, item) :: rest => item.size + sizeEntries rest

end

end Value

namespace Mapping

def find? (entries : Mapping) (key : String) : Option Value :=
  entries.lookup (.text key)

/-- Whether a text key is present. -/
def has (entries : Mapping) (key : String) : Bool :=
  (find? entries key).isSome

/-- The text keys, in order. -/
def names : Mapping → List String
  | [] => []
  | (.text key, _) :: rest => key :: names rest
  | _ :: rest => names rest

/-- A key under which something is found is among the text keys. -/
theorem mem_names_of_find? {entries : Mapping} {key : String} {value : Value}
    (h : entries.find? key = some value) : key ∈ entries.names := by
  induction entries with
  | nil => simp [find?] at h
  | cons entry rest ih =>
    obtain ⟨held, first⟩ := entry
    simp only [find?, List.lookup_cons] at h
    split at h
    · next same =>
      obtain rfl := (beq_iff_eq.mp same)
      simp [names]
    · have later := ih h
      cases held <;> simp [names, later]

end Mapping

/-- The value under a text key of a mapping value; other values have no members. -/
def Value.member? (value : Value) (key : String) : Option Value :=
  match value with
  | .map entries => Mapping.find? entries key
  | _ => none

end OpenApi
