import OpenApi.Fault
import OpenApi.Schema
import OpenApi.Value.Key

/-!
# Reading schemas

Which case a raw schema is.  The first that applies decides, in this order: a pointer under `$ref`, a
list under `enum`, a list of branches under `allOf`, `oneOf` or `anyOf`, a primitive type, an array,
an object, and a schema about which nothing is known.  Properties next to branches apply on top of
every branch.
-/

namespace OpenApi

namespace Value

/-- Every value counts itself. -/
theorem size_pos (value : Value) : 0 < value.size := by
  cases value <;> simp [size]

/-- A value under a key is no larger than the entries together. -/
theorem size_le_of_find? {entries : Mapping} {key : String} {value : Value}
    (h : entries.find? key = some value) : value.size ≤ sizeEntries entries := by
  induction entries with
  | nil => simp [Mapping.find?] at h
  | cons entry rest ih =>
    obtain ⟨held, first⟩ := entry
    simp only [Mapping.find?, List.lookup_cons] at h
    simp only [sizeEntries]
    split at h
    · cases h
      omega
    · exact Nat.le_trans (ih h) (Nat.le_add_left _ _)

end Value

namespace Schema

/-- The keywords that make a schema an object whatever its type. -/
def objectKeywords : List String := ["properties", "required", "additionalProperties"]

/-- Whether one of the object keywords is present. -/
def hasObjectKeyword (entries : Mapping) : Bool := objectKeywords.any (Mapping.has entries)

/-- The primitive type of a name. -/
def primitive? : String → Option Primitive
  | "string" => some .string
  | "integer" => some .integer
  | "number" => some .number
  | "boolean" => some .boolean
  | _ => none

/-- The description that entries state, if it is a text. -/
def statedDescription (entries : Mapping) : Option String :=
  (Mapping.find? entries "description").bind (·.text?)

/-- The type that entries state: a name, or a list with exactly one member besides `null`. -/
def statedType (entries : Mapping) : Option String :=
  match Mapping.find? entries "type" with
  | some (.text name) => some name
  | some (.list kinds) =>
    match kinds.filter fun kind => kind.text? ≠ some "null" with
    | [.text name] => some name
    | _ => none
  | _ => none

/-- Whether entries make null a value: by `nullable`, or by `null` in a list of types. -/
def statedNullable (entries : Mapping) : Bool :=
  let flag :=
    match Mapping.find? entries "nullable" with
    | some (.bool true) => true
    | _ => false
  let listed :=
    match Mapping.find? entries "type" with
    | some (.list kinds) => kinds.any fun kind => kind.text? = some "null"
    | _ => false
  flag || listed

def isNull : Value → Bool
  | .null => true
  | _ => false

/-- The members of a list that are to be names of required properties, each once. -/
def requiredNames : List Value → Except Fault (List Scalar)
  | members => do
    let names ← members.mapM fun member =>
      match member with
      | .scalar name => .ok name
      | _ => .error .requiredNotScalar
    return (Keyed.ofEntries Scalar.same (names.map fun name => (name, ()))).map (·.1)

/-- The required names that entries state. -/
def statedRequired (entries : Mapping) : Except Fault (List Scalar) :=
  match Mapping.find? entries "required" with
  | some (.list members) => requiredNames members
  | _ => .ok []

/-- The branches that entries join, and how: the first of `allOf`, `oneOf` and `anyOf` with a
list. -/
def composed? (entries : Mapping) : Option (Composition × List Value) :=
  [Composition.allOf, .oneOf, .anyOf].findSome? fun kind =>
    match Mapping.find? entries kind.keyword with
    | some (.list branches) => some (kind, branches)
    | _ => none

/-- The branches are smaller than the entries. -/
theorem sizeItems_lt_of_composed? {entries : Mapping} {kind : Composition} {branches : List Value}
    (h : composed? entries = some (kind, branches)) :
    Value.sizeItems branches < Value.sizeEntries entries := by
  obtain ⟨other, _, found⟩ := List.exists_of_findSome?_eq_some h
  split at found
  · next held =>
    cases found
    have bound := Value.size_le_of_find? held
    simp only [Value.size] at bound
    omega
  · simp at found

/-- Branches with an object next to them, which applies on top of every branch. -/
def withOwn (traits : Traits) (kind : Composition) (branches : List Schema) (own : Schema) :
    Schema :=
  match kind with
  | .allOf => .composition traits .allOf (branches ++ [own])
  | other => .composition traits .allOf [.composition {} other branches, own]

mutual

/-- Read a raw schema. -/
def ofValue (value : Value) : Except Fault Schema :=
  match value with
  | .map entries =>
    let description := statedDescription entries
    match Mapping.find? entries "$ref" with
    | some (.text pointer) => .ok (.reference ⟨description, false⟩ pointer)
    | _ =>
      let traits : Traits := ⟨description, statedNullable entries⟩
      match Mapping.find? entries "enum" with
      | some (.list values) =>
        .ok (.enumeration ⟨description, traits.nullable || values.any isNull⟩
          (values.filter fun value => !isNull value))
      | _ =>
        match _branches : composed? entries with
        | some (kind, branches) => do
          let branches ← ofItems branches
          if hasObjectKeyword entries then
            let own ← ofObject {} entries
            return withOwn traits kind branches own
          else return .composition traits kind branches
        | none =>
          let type := statedType entries
          match type.bind primitive? with
          | some kind => .ok (.primitive traits kind)
          | none =>
            if type = some "array" then
              match _items : Mapping.find? entries "items" with
              | some (.map inner) => do
                let items ← ofValue (.map inner)
                return .array traits (some items)
              | _ => .ok (.array traits none)
            else if type = some "object" ∨ hasObjectKeyword entries then ofObject traits entries
            else .ok (.unknown traits)
  | _ => .ok (.unknown {})
termination_by 3 * value.size
decreasing_by
  · have bound := sizeItems_lt_of_composed? _branches
    simp only [Value.size]
    omega
  · simp only [Value.size]
    omega
  · have bound := Value.size_le_of_find? _items
    simp only [Value.size] at bound ⊢
    omega
  · simp only [Value.size]
    omega

/-- Read the object that entries describe. -/
def ofObject (traits : Traits) (entries : Mapping) : Except Fault Schema := do
  let additional ← ofAdditional entries
  let properties ← ofProperties entries
  let required ← statedRequired entries
  return .object traits properties required additional
termination_by 3 * Value.sizeEntries entries + 2

/-- Read what entries state about further properties. -/
def ofAdditional (entries : Mapping) : Except Fault (Additional Schema) :=
  match _more : Mapping.find? entries "additionalProperties" with
  | some (.map inner) => do
    let content ← ofValue (.map inner)
    return .values content
  | some (.bool permitted) => .ok (.allowed permitted)
  | _ => .ok .unstated
termination_by 3 * Value.sizeEntries entries + 1
decreasing_by
  have bound := Value.size_le_of_find? _more
  omega

/-- Read the properties that entries declare, if they declare any. -/
def ofProperties (entries : Mapping) : Except Fault (Option (List (Scalar × Schema))) :=
  match _named : Mapping.find? entries "properties" with
  | some (.map inner) => do
    let properties ← ofEntries inner
    return some properties
  | some other => if other.isSomething then .error .propertiesNotMapping else .ok none
  | none => .ok none
termination_by 3 * Value.sizeEntries entries + 1
decreasing_by
  have bound := Value.size_le_of_find? _named
  simp only [Value.size] at bound
  omega

/-- Read a list of raw schemas. -/
def ofItems (items : List Value) : Except Fault (List Schema) :=
  match items with
  | [] => .ok []
  | item :: rest => do
    let item ← ofValue item
    let rest ← ofItems rest
    return item :: rest
termination_by 3 * Value.sizeItems items + 1
decreasing_by
  all_goals
    simp only [Value.sizeItems]
    have := Value.size_pos item
    omega

/-- Read the raw schemas under the keys of a mapping. -/
def ofEntries (entries : Mapping) : Except Fault (List (Scalar × Schema)) :=
  match entries with
  | [] => .ok []
  | (key, item) :: rest => do
    let item ← ofValue item
    let rest ← ofEntries rest
    return (key, item) :: rest
termination_by 3 * Value.sizeEntries entries + 1
decreasing_by
  all_goals
    simp only [Value.sizeEntries]
    have := Value.size_pos item
    omega

end

end Schema

end OpenApi
