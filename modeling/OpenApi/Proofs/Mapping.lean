import OpenApi.Value

/-!
# Looking up entries

Which keys a mapping has, and what looking up a key gives after entries were dropped by their keys
or their values were replaced one by one.
-/

namespace OpenApi.Mapping

variable {κ ν μ : Type} [BEq κ] [LawfulBEq κ]

/-- An entry of another key does not matter. -/
theorem lookup_cons_of_ne {held key : κ} {value : ν} {rest : List (κ × ν)} (other : key ≠ held) :
    ((held, value) :: rest).lookup key = rest.lookup key := by
  rw [List.lookup_cons, beq_false_of_ne other]

/-- Something is found under exactly the keys of a keyed list. -/
theorem lookup_isSome_iff {entries : List (κ × ν)} {key : κ} :
    (entries.lookup key).isSome ↔ key ∈ entries.map Prod.fst := by
  induction entries with
  | nil => simp
  | cons entry rest ih =>
      obtain ⟨held, value⟩ := entry
      rw [List.map_cons, List.mem_cons, ← ih]
      by_cases same : key = held
      · simp [same]
      · simp [same, lookup_cons_of_ne same]

/-- What is found under a key stands in an entry of that key. -/
theorem mem_of_lookup {entries : List (κ × ν)} {key : κ} {value : ν}
    (found : entries.lookup key = some value) : (key, value) ∈ entries := by
  induction entries with
  | nil => simp at found
  | cons entry rest ih =>
      rw [List.lookup_cons] at found
      split at found
      · next same =>
          obtain rfl := beq_iff_eq.mp same
          obtain rfl := Option.some.inj found
          exact List.mem_cons_self
      · exact List.mem_cons_of_mem _ (ih found)

/-- A key that is kept is found as before, and one that is dropped is not found. -/
theorem lookup_filter_key (keep : κ → Bool) (entries : List (κ × ν)) (key : κ) :
    (entries.filter fun entry => keep entry.1).lookup key =
      if keep key then entries.lookup key else none := by
  induction entries with
  | nil => simp
  | cons entry rest ih =>
      obtain ⟨held, value⟩ := entry
      rw [List.filter_cons]
      by_cases same : key = held
      · subst same
        by_cases kept : keep key
        · simp [kept]
        · simp [kept, ih]
      · rw [lookup_cons_of_ne same, ← ih]
        split
        · rw [lookup_cons_of_ne same]
        · rfl

/-- Replacing each value by one computed from its entry does so to what is found. -/
theorem lookup_map_entry (change : κ → ν → μ) (entries : List (κ × ν)) (key : κ) :
    (entries.map fun entry => (entry.1, change entry.1 entry.2)).lookup key =
      (entries.lookup key).map (change key) := by
  induction entries with
  | nil => rfl
  | cons entry rest ih =>
      obtain ⟨held, value⟩ := entry
      rw [List.map_cons]
      by_cases same : key = held
      · simp [same]
      · rw [lookup_cons_of_ne same, lookup_cons_of_ne same, ih]

/-- The text keys are the keys that are texts. -/
theorem mem_names_iff {entries : Mapping} {key : String} :
    key ∈ entries.names ↔ Scalar.text key ∈ entries.map Prod.fst := by
  induction entries with
  | nil => simp [names]
  | cons entry rest ih =>
      obtain ⟨held, value⟩ := entry
      cases held <;> simp [names, ih]

/-- A text key is present exactly if it is among the text keys. -/
theorem has_iff_mem_names {entries : Mapping} {key : String} :
    entries.has key ↔ key ∈ entries.names := by
  rw [has, find?, lookup_isSome_iff, mem_names_iff]

/-- A text key is present exactly if something is found under it. -/
theorem has_iff_exists_find? {entries : Mapping} {key : String} :
    entries.has key ↔ ∃ value, entries.find? key = some value := by
  rw [has, Option.isSome_iff_exists]

@[simp]
theorem find?_nil {key : String} : find? [] key = none :=
  rfl

@[simp]
theorem find?_cons {held key : String} {value : Value} {rest : Mapping} :
    find? ((.text held, value) :: rest) key =
      if key = held then some value else find? rest key := by
  unfold find?
  by_cases same : key = held
  · simp [same]
  · rw [if_neg same, lookup_cons_of_ne (by simpa using same)]

/-! ## Entries left out -/

/-- A mapping without the entries of some text keys. -/
def without (entries : Mapping) : List String → Mapping
  | [] => entries
  | key :: keys => (without entries keys).filter fun entry => entry.1 != .text key

section Without

variable {entries : Mapping} {key : String} {keys : List String}

/-- Other keys are found as before. -/
theorem find?_without (fresh : key ∉ keys) :
    (without entries keys).find? key = entries.find? key := by
  induction keys with
  | nil => rfl
  | cons left rest ih =>
      rw [List.mem_cons, not_or] at fresh
      have kept := lookup_filter_key (fun held => held != .text left) (without entries rest)
        (Scalar.text key)
      rw [without, find?, kept, if_pos (by simpa using fresh.1)]
      exact ih fresh.2

theorem sizeEntries_filter_le (keep : Scalar × Value → Bool) (entries : Mapping) :
    Value.sizeEntries (entries.filter keep) ≤ Value.sizeEntries entries := by
  induction entries with
  | nil => exact Nat.le_refl _
  | cons entry rest ih =>
      rw [List.filter_cons]
      split
      · exact Nat.add_le_add_left ih _
      · exact Nat.le_trans ih (Nat.le_add_left _ _)

/-- A value that is found counts no longer once its key is left out. -/
theorem size_add_sizeEntries_without {value : Value} (found : entries.find? key = some value)
    (fresh : key ∉ keys) :
    value.size + Value.sizeEntries (without entries (key :: keys)) ≤
      Value.sizeEntries (without entries keys) := by
  rw [← find?_without fresh] at found
  rw [without]
  generalize without entries keys = left at found
  induction left with
  | nil => cases found
  | cons entry rest ih =>
      obtain ⟨held, first⟩ := entry
      by_cases same : .text key = held
      · subst same
        obtain rfl : first = value := by simpa using found
        have := sizeEntries_filter_le (fun entry => entry.1 != .text key) rest
        rw [List.filter_cons_of_neg (by simp), Value.sizeEntries]
        omega
      · have := ih ((lookup_cons_of_ne same).symm.trans found)
        rw [List.filter_cons_of_pos (by simpa using Ne.symm same), Value.sizeEntries,
          Value.sizeEntries]
        omega

/-- The size of the value under a key, if there is one. -/
def sizeAt (entries : Mapping) (key : String) : Nat := ((entries.find? key).map Value.size).getD 0

/-- The sizes of the values under some keys, together. -/
def sizesAt (entries : Mapping) : List String → Nat
  | [] => 0
  | key :: rest => sizeAt entries key + sizesAt entries rest

/-- The values under different keys are no larger than all entries together. -/
theorem sizesAt_le (entries : Mapping) (nodup : keys.Nodup) :
    sizesAt entries keys ≤ Value.sizeEntries entries := by
  have left : sizesAt entries keys + Value.sizeEntries (without entries keys) ≤
      Value.sizeEntries entries := by
    induction keys with
    | nil => simp [sizesAt, without]
    | cons key rest ih =>
        obtain ⟨fresh, nodup⟩ := List.nodup_cons.mp nodup
        have others := ih nodup
        rw [sizesAt]
        cases found : entries.find? key with
        | none =>
            have := sizeEntries_filter_le (fun entry => entry.1 != .text key)
              (without entries rest)
            rw [sizeAt, found, without]
            simp only [Option.map_none, Option.getD_none]
            omega
        | some value =>
            have := size_add_sizeEntries_without found fresh
            rw [sizeAt, found]
            simp only [Option.map_some, Option.getD_some]
            omega
  omega

end Without

end OpenApi.Mapping
