import OpenApi.Proofs.Schema.Sources

/-!
# References of a read schema

Reading a raw schema invents no reference: every pointer that stands somewhere in the schema read is
found when the raw value is searched.
-/

namespace OpenApi

namespace Reference

/-- What is found in the value under a key is found in the mapping, unless the value is a pointer.
-/
theorem mem_ofEntries_of_find? {entries : Mapping} {key name : String} {item : Value}
    (found : entries.find? key = some item) (other : key ≠ "$ref") (refers : name ∈ ofValue item) :
    name ∈ ofEntries entries := by
  induction entries with
  | nil => simp [Mapping.find?] at found
  | cons entry rest ih =>
      obtain ⟨held, first⟩ := entry
      by_cases same : Scalar.text key = held
      · subst same
        obtain rfl : first = item := by simpa [Mapping.find?] using found
        unfold ofEntries
        split
        · next keyed => exact absurd (Scalar.text.inj keyed) other
        · exact List.mem_append_left _ refers
      · have later := ih ((Mapping.lookup_cons_of_ne same).symm.trans found)
        unfold ofEntries
        split <;> exact List.mem_append_right _ later

/-- A pointer under `$ref` is found. -/
theorem mem_ofEntries_of_pointer {entries : Mapping} {pointer name : String}
    (found : entries.find? "$ref" = some (.text pointer))
    (named : schemaName? pointer = some name) :
    name ∈ ofEntries entries := by
  induction entries with
  | nil => simp [Mapping.find?] at found
  | cons entry rest ih =>
      obtain ⟨held, first⟩ := entry
      by_cases same : Scalar.text "$ref" = held
      · subst same
        obtain rfl : first = .text pointer := by simpa [Mapping.find?] using found
        simp [ofEntries, named]
      · have later := ih ((Mapping.lookup_cons_of_ne same).symm.trans found)
        unfold ofEntries
        split <;> exact List.mem_append_right _ later

theorem mem_ofItems_of_mem {items : List Value} {item : Value} {name : String}
    (member : item ∈ items) (refers : name ∈ ofValue item) : name ∈ ofItems items := by
  induction items with
  | nil => cases member
  | cons first rest ih =>
      rw [ofItems, List.mem_append]
      rcases List.mem_cons.mp member with rfl | later
      · exact .inl refers
      · exact .inr (ih later)

theorem mem_ofEntries_of_mem {entries : Mapping} {entry : Scalar × Value} {name : String}
    (member : entry ∈ entries) (refers : name ∈ ofValue entry.2) : name ∈ ofEntries entries := by
  induction entries with
  | nil => cases member
  | cons first rest ih =>
      obtain ⟨key, item⟩ := first
      unfold ofEntries
      split
      · next pointer =>
          rcases List.mem_cons.mp member with rfl | later
          · simp [ofValue] at refers
          · exact List.mem_append_right _ (ih later)
      · rcases List.mem_cons.mp member with rfl | later
        · exact List.mem_append_left _ refers
        · exact List.mem_append_right _ (ih later)

/-- What a mapping refers to that is looked at as a schema, the value around it refers to. -/
theorem ofEntries_subset_of_hasSchema {entries : Mapping} {value : Value}
    (has : value.HasSchema entries) : ofEntries entries ⊆ ofValue value := by
  induction has with
  | self => exact fun name refers => refers
  | @branch around kind branches branch found member below ih =>
      refine fun name refers => mem_ofEntries_of_find? found ?_ (mem_ofItems_of_mem member (ih refers))
      cases kind <;> simp [Composition.keyword]
  | items found below ih =>
      exact fun name refers => mem_ofEntries_of_find? found (by simp) (ih refers)
  | property found member below ih =>
      refine fun name refers => mem_ofEntries_of_find? found (by simp) ?_
      exact mem_ofEntries_of_mem member (ih refers)
  | content found below ih =>
      exact fun name refers => mem_ofEntries_of_find? found (by simp) (ih refers)

end Reference

namespace Schema

/-- All that pointers in the schema name is found. -/
def PointersIn (found : List String) (schema : Schema) : Prop :=
  ∀ traits pointer name, Within (.reference traits pointer) schema →
    Reference.schemaName? pointer = some name → name ∈ found

theorem PointersIn.mono {found more : List String} {schema : Schema} (grows : found ⊆ more)
    (pointers : schema.PointersIn found) : schema.PointersIn more :=
  fun traits pointer name within named => grows (pointers traits pointer name within named)

/-- Reading the value invents no reference. -/
def ReadsFaithfully (value : Value) : Prop :=
  ∀ schema, ofValue value = .ok schema → schema.PointersIn (Reference.ofValue value)

/-- Every pointer that stands in a schema read from a value is found when the value is searched. -/
theorem readsFaithfully (value : Value) : ReadsFaithfully value := by
  intro schema read traits pointer name within named
  rcases (readsInto value).of_ok read _ within with bare | ⟨entries, has, shown⟩
  · cases bare
  · exact Reference.ofEntries_subset_of_hasSchema has
      (Reference.mem_ofEntries_of_pointer shown named)

end Schema

end OpenApi
