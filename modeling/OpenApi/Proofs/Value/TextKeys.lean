import OpenApi.Proofs.Schema.Sources

/-!
# Values with text keys

A document in JSON has no other keys than texts, at any depth.  So have all mappings in it where
schemas are looked for, and the property keys of the schemas that are read from them.
-/

namespace OpenApi

namespace Value

mutual

/-- Whether all keys of all mappings in a value are texts. -/
def hasTextKeys : Value → Bool
  | scalar _ => true
  | list items => itemsHaveTextKeys items
  | map entries => entriesHaveTextKeys entries

/-- Whether the keys in all items of a list are texts. -/
def itemsHaveTextKeys : List Value → Bool
  | [] => true
  | item :: rest => item.hasTextKeys && itemsHaveTextKeys rest

/-- Whether the keys of a mapping, and those in its values, are texts. -/
def entriesHaveTextKeys : Mapping → Bool
  | [] => true
  | (.text _, item) :: rest => item.hasTextKeys && entriesHaveTextKeys rest
  | _ :: _ => false

end

theorem hasTextKeys_list_iff {items : List Value} :
    (list items).hasTextKeys ↔ ∀ item ∈ items, item.hasTextKeys := by
  rw [hasTextKeys]
  induction items with
  | nil => simp [itemsHaveTextKeys]
  | cons item rest ih => simp [itemsHaveTextKeys, ih]

theorem hasTextKeys_map_iff {entries : Mapping} :
    (map entries).hasTextKeys ↔
      ∀ entry ∈ entries, (∃ name, entry.1 = .text name) ∧ entry.2.hasTextKeys := by
  rw [hasTextKeys]
  induction entries with
  | nil => simp [entriesHaveTextKeys]
  | cons entry rest ih =>
      obtain ⟨key, item⟩ := entry
      cases key <;> simp [entriesHaveTextKeys, ih]

/-- What is found in a mapping with text keys has text keys. -/
theorem hasTextKeys_of_find? {entries : Mapping} {key : String} {value : Value}
    (keyed : (map entries).hasTextKeys) (found : Mapping.find? entries key = some value) :
    value.hasTextKeys :=
  (hasTextKeys_map_iff.mp keyed _ (Mapping.mem_of_lookup found)).2

theorem hasTextKeys_of_member? {value member : Value} {key : String} (keyed : value.hasTextKeys)
    (found : value.member? key = some member) : member.hasTextKeys := by
  cases value with
  | map entries => exact hasTextKeys_of_find? keyed found
  | scalar | list => cases found

/-- Mappings where schemas are looked for have text keys like the value around them. -/
theorem HasSchema.hasTextKeys {value : Value} {entries : Mapping} (has : value.HasSchema entries)
    (keyed : value.hasTextKeys) : (map entries).hasTextKeys := by
  induction has with
  | self => exact keyed
  | branch found member below ih =>
      exact ih (hasTextKeys_list_iff.mp (hasTextKeys_of_find? keyed found) _ member)
  | items found below ih => exact ih (hasTextKeys_of_find? keyed found)
  | property found member below ih =>
      exact ih (hasTextKeys_map_iff.mp (hasTextKeys_of_find? keyed found) _ member).2
  | content found below ih => exact ih (hasTextKeys_of_find? keyed found)

end Value

end OpenApi
