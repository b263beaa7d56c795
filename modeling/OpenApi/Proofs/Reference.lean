import OpenApi.Reference

/-!
# Where pointers stand

A pointer occurs in a value if a mapping of the value, at any depth, has it under `$ref`.  The
references of a value are the names in the pointers that occur in it, where a name is whatever is
not empty, holds no slash and stands after the beginning that all pointers to schemas share.
Scanning a value adds them to the names found before, and nothing else.
-/

namespace OpenApi.Reference

/-- A text stands under `$ref` in a mapping of the value, at any depth. -/
inductive Occurs (pointer : String) : Value → Prop
  | here {entries : Mapping} (member : (.text "$ref", .text pointer) ∈ entries) :
      Occurs pointer (.map entries)
  | entry {entries : Mapping} {entry : Scalar × Value} (member : entry ∈ entries)
      (below : Occurs pointer entry.2) : Occurs pointer (.map entries)
  | item {items : List Value} {item : Value} (member : item ∈ items)
      (below : Occurs pointer item) : Occurs pointer (.list items)

/-- A pointer names what stands after the common beginning, if that can be a name. -/
theorem schemaName?_eq_some_iff {pointer name : String} :
    schemaName? pointer = some name ↔
      pointer = schemaRoot ++ name ∧ name ≠ "" ∧ '/' ∉ name.toList := by
  have stands : pointer = schemaRoot ++ name ↔
      after? schemaRoot.toList pointer.toList = some name.toList := by
    rw [after?_eq_some_iff, ← String.toList_inj, String.toList_append]
  rw [stands]
  unfold schemaName?
  split
  · next missing => simp [missing]
  · next nothing =>
      rw [nothing, Option.some.injEq]
      refine iff_of_false nofun fun ⟨same, something, _⟩ => something ?_
      exact String.toList_eq_nil_iff.mp same.symm
  · next cs something found =>
      have spelled : String.ofList cs = name ↔ cs = name.toList := by
        rw [← String.toList_inj, String.toList_ofList]
      rw [found, Option.some.injEq]
      split
      · next slash => exact iff_of_false nofun fun ⟨same, _, noSlash⟩ => noSlash (same ▸ slash)
      · next noSlash =>
          rw [Option.some.injEq, spelled]
          refine ⟨?_, fun named => named.1⟩
          rintro rfl
          exact ⟨rfl, fun empty => something (String.toList_eq_nil_iff.mpr empty), noSlash⟩

theorem mem_ofItems_iff {items : List Value} {name : String} :
    name ∈ ofItems items ↔ ∃ item ∈ items, name ∈ ofValue item := by
  induction items with
  | nil => simp [ofItems]
  | cons item rest ih => simp [ofItems, ih]

/-- The names in a mapping are those in its pointers and those in its values. -/
theorem mem_ofEntries_iff {entries : Mapping} {name : String} :
    name ∈ ofEntries entries ↔
      (∃ pointer, (.text "$ref", .text pointer) ∈ entries ∧ schemaName? pointer = some name) ∨
        ∃ entry ∈ entries, name ∈ ofValue entry.2 := by
  induction entries with
  | nil => simp [ofEntries]
  | cons entry rest ih =>
      obtain ⟨key, item⟩ := entry
      unfold ofEntries
      split
      · next pointer =>
          rw [List.mem_append, ih, Option.mem_toList]
          simp [ofValue, or_and_right, exists_or, or_assoc]
      · next other =>
          rw [List.mem_append, ih]
          have apart (pointer : String) :
              (Scalar.text "$ref", Value.text pointer) ≠ (key, item) := by
            rintro ⟨⟩
            exact other pointer rfl rfl
          simp [apart, or_left_comm]

/-- The references of a value are the names in the pointers that occur in it. -/
theorem mem_ofValue_iff {value : Value} {name : String} :
    name ∈ ofValue value ↔ ∃ pointer, Occurs pointer value ∧ schemaName? pointer = some name := by
  constructor
  · intro found
    induction sized : sizeOf value using Nat.strongRecOn generalizing value with
    | ind size ih =>
        cases value with
        | scalar content => exact absurd found (by simp [ofValue])
        | list items =>
            rw [ofValue] at found
            obtain ⟨item, member, below⟩ := mem_ofItems_iff.mp found
            have smaller := List.sizeOf_lt_of_mem member
            rw [Value.list.sizeOf_spec] at sized
            obtain ⟨pointer, occurs, named⟩ := ih (sizeOf item) (by omega) below rfl
            exact ⟨pointer, .item member occurs, named⟩
        | map entries =>
            rw [ofValue] at found
            rcases mem_ofEntries_iff.mp found with ⟨pointer, member, named⟩ | ⟨entry, member, below⟩
            · exact ⟨pointer, .here member, named⟩
            · obtain ⟨key, item⟩ := entry
              have smaller := List.sizeOf_lt_of_mem member
              rw [Prod.mk.sizeOf_spec] at smaller
              rw [Value.map.sizeOf_spec] at sized
              obtain ⟨pointer, occurs, named⟩ := ih (sizeOf item) (by omega) below rfl
              exact ⟨pointer, .entry member occurs, named⟩
  · rintro ⟨pointer, occurs, named⟩
    induction occurs with
    | here member =>
        rw [ofValue]
        exact mem_ofEntries_iff.mpr (.inl ⟨pointer, member, named⟩)
    | entry member below ih =>
        rw [ofValue]
        exact mem_ofEntries_iff.mpr (.inr ⟨_, member, ih⟩)
    | item member below ih =>
        rw [ofValue]
        exact mem_ofItems_iff.mpr ⟨_, member, ih⟩

/-! ## Scanning -/

/-- Scanning finds the references of a value besides the names found before. -/
theorem mem_scan {found : NameSet} {value : Value} {name : String} :
    name ∈ scan found value ↔ name ∈ found ∨ name ∈ ofValue value :=
  NameSet.mem_insertAll

theorem occurs_map_iff {pointer : String} {entries : Mapping} :
    Occurs pointer (.map entries) ↔
      (.text "$ref", .text pointer) ∈ entries ∨ ∃ entry ∈ entries, Occurs pointer entry.2 := by
  constructor
  · intro occurs
    cases occurs with
    | here member => exact .inl member
    | entry member below => exact .inr ⟨_, member, below⟩
  · rintro (member | ⟨entry, member, below⟩)
    · exact .here member
    · exact .entry member below

/-- A value under `$ref` matters as a pointer or by what stands inside of it. -/
theorem occurs_insert_iff {pointer : String} {before after : Mapping} {item : Value} :
    Occurs pointer (.map (before ++ (.text "$ref", item) :: after)) ↔
      Occurs pointer (.map (before ++ after)) ∨ Occurs pointer item ∨ item = .text pointer := by
  simp only [occurs_map_iff, List.mem_append, List.mem_cons, or_and_right, exists_or,
    exists_eq_left, Prod.mk.injEq, true_and, eq_comm (a := item)]
  grind

/-- **What a scan finds.** Scanning a value adds to the names found before exactly the names that
are not empty, hold no slash and stand behind the beginning of a pointer to a schema, where the
pointer stands under `$ref` in a mapping at any depth.  Any other value under `$ref` gives nothing
by itself: the mapping could do without it, but for what is found inside of it.  Inside of a value
without parts nothing is found. -/
theorem scan_finds_pointers (found : NameSet) :
    (∀ value name, name ∈ scan found value ↔
      name ∈ found ∨
        name ≠ "" ∧ '/' ∉ name.toList ∧ Occurs ("#/components/schemas/" ++ name) value) ∧
    (∀ before after item,
      (∀ name, item = .text ("#/components/schemas/" ++ name) → name = "" ∨ '/' ∈ name.toList) →
      ∀ name, name ∈ scan found (.map (before ++ (.text "$ref", item) :: after)) ↔
        name ∈ scan found (.map (before ++ after)) ∨ name ∈ scan ∅ item) ∧
    ∀ content, scan found (.scalar content) = found := by
  have finds (found : NameSet) (value : Value) (name : String) : name ∈ scan found value ↔
      name ∈ found ∨
        name ≠ "" ∧ '/' ∉ name.toList ∧ Occurs ("#/components/schemas/" ++ name) value := by
    rw [mem_scan, mem_ofValue_iff]
    refine or_congr_right ⟨?_, ?_⟩
    · rintro ⟨pointer, occurs, named⟩
      obtain ⟨rfl, something, noSlash⟩ := schemaName?_eq_some_iff.mp named
      exact ⟨something, noSlash, occurs⟩
    · rintro ⟨something, noSlash, occurs⟩
      exact ⟨_, occurs, schemaName?_eq_some_iff.mpr ⟨rfl, something, noSlash⟩⟩
  refine ⟨finds found, fun before after item other name => ?_, fun content => rfl⟩
  have apart (something : name ≠ "") (noSlash : '/' ∉ name.toList) :
      item ≠ .text ("#/components/schemas/" ++ name) :=
    fun same => (other name same).elim something noSlash
  rw [finds, finds, finds, occurs_insert_iff]
  have nothing := NameSet.not_mem_empty name
  grind

end OpenApi.Reference
