import OpenApi.Proofs.Mapping
import OpenApi.Value.Key

/-!
# Keys of keyed lists

Which keys a keyed list has after entries were set.  Keys are compared by a relation that may take
different scalars for one key; an entry whose key is already there changes no key.  Setting text
keys of a mapping replaces their values in place and leaves the other entries as they are.
-/

namespace OpenApi

/-- The value by which a scalar is compared as a key: its number, or itself if it counts as none. -/
def Scalar.keyClass (scalar : Scalar) : KeyNumber ⊕ Scalar :=
  match scalar.keyNumber? with
  | some number => .inl number
  | none => .inr scalar

/-- Two keys are the same when they are of one class: `1`, `1.0` and `true` are. -/
theorem Scalar.same_iff {first second : Scalar} :
    Scalar.same first second ↔ first.keyClass = second.keyClass := by
  unfold Scalar.same Scalar.keyClass
  cases first.keyNumber? <;> cases second.keyNumber? <;> simp

/-- A scalar that is the same key as a text is that text. -/
theorem Scalar.eq_text_of_same {scalar : Scalar} {content : String}
    (same : Scalar.same (.text content) scalar) : scalar = .text content := by
  rw [Scalar.same_iff] at same
  unfold Scalar.keyClass at same
  cases number : scalar.keyNumber? <;> simp_all [Scalar.keyNumber?]

/-- A text is the same key only as itself. -/
theorem Scalar.same_text_iff {scalar : Scalar} {content : String} :
    Scalar.same scalar (.text content) ↔ scalar = .text content := by
  constructor
  · intro same
    rw [Scalar.same_iff, eq_comm, ← Scalar.same_iff] at same
    exact Scalar.eq_text_of_same same
  · rintro rfl
    simp

namespace Keyed

variable {ν : Type}

/-- A keyed list has an entry with the same key. -/
def Holds (entries : List (Scalar × ν)) (key : Scalar) : Prop :=
  ∃ entry ∈ entries, Scalar.same entry.1 key

theorem holds_iff {entries : List (Scalar × ν)} {key : Scalar} :
    Holds entries key ↔ key.keyClass ∈ (entries.map Prod.fst).map Scalar.keyClass := by
  simp [Holds, Scalar.same_iff]

/-- Putting a value adds its key and loses none. -/
theorem holds_put {entries : List (Scalar × ν)} {key other : Scalar} {value : ν} :
    Holds (put Scalar.same key value entries) other ↔
      Holds entries other ∨ Scalar.same key other := by
  rw [holds_iff, holds_iff, map_fst_put, Scalar.same_iff]
  split
  · next present =>
      have held : key.keyClass ∈ (entries.map Prod.fst).map Scalar.keyClass := by
        obtain ⟨entry, member, same⟩ := List.any_eq_true.mp present
        exact holds_iff.mp ⟨entry, member, same⟩
      refine ⟨.inl, fun either => either.elim id fun same => same ▸ held⟩
  · rw [List.map_append, List.mem_append, List.map_singleton, List.mem_singleton,
      eq_comm (a := other.keyClass)]

/-- Setting entries adds their keys. -/
theorem holds_putAll {entries start : List (Scalar × ν)} {key : Scalar} :
    Holds (putAll Scalar.same entries start) key ↔ Holds start key ∨ Holds entries key := by
  induction entries generalizing start with
  | nil => simp [putAll, Holds]
  | cons entry rest ih =>
      have step : putAll Scalar.same (entry :: rest) start =
          putAll Scalar.same rest (put Scalar.same entry.1 entry.2 start) := rfl
      rw [step, ih, holds_put, or_assoc]
      simp [Holds]

theorem mem_keys_put {entries : List (Scalar × ν)} {key other : Scalar} {value : ν}
    (member : other ∈ (put Scalar.same key value entries).map Prod.fst) :
    other ∈ entries.map Prod.fst ∨ other = key := by
  rw [map_fst_put] at member
  split at member
  · exact .inl member
  · simpa using member

/-- The keys after setting entries are keys from before or keys of the entries. -/
theorem mem_keys_putAll {entries start : List (Scalar × ν)} {key : Scalar}
    (member : key ∈ (putAll Scalar.same entries start).map Prod.fst) :
    key ∈ start.map Prod.fst ∨ key ∈ entries.map Prod.fst := by
  induction entries generalizing start with
  | nil => exact .inl member
  | cons entry rest ih =>
      have later : key ∈ (putAll Scalar.same rest
          (put Scalar.same entry.1 entry.2 start)).map Prod.fst := member
      rcases ih later with early | late
      · rcases mem_keys_put early with before | rfl
        · exact .inl before
        · exact .inr List.mem_cons_self
      · exact .inr (List.mem_cons_of_mem _ late)

/-- The values after setting an entry are values from before and the new one. -/
theorem exists_mem_of_mem_put {entries : List (Scalar × ν)} {key : Scalar} {value : ν}
    {entry : Scalar × ν} (member : entry ∈ put Scalar.same key value entries) :
    entry ∈ entries ∨ entry.2 = value := by
  induction entries with
  | nil =>
      obtain rfl := List.mem_singleton.mp member
      exact .inr rfl
  | cons first rest ih =>
      obtain ⟨held, old⟩ := first
      rw [put] at member
      split at member
      · rcases List.mem_cons.mp member with rfl | later
        · exact .inr rfl
        · exact .inl (List.mem_cons_of_mem _ later)
      · rcases List.mem_cons.mp member with rfl | later
        · exact .inl List.mem_cons_self
        · exact (ih later).imp_left (List.mem_cons_of_mem _)

/-- The values after setting entries are values from before or values of the entries. -/
theorem exists_mem_of_mem_putAll {entries start : List (Scalar × ν)} {entry : Scalar × ν}
    (member : entry ∈ putAll Scalar.same entries start) :
    ∃ source, (source ∈ start ∨ source ∈ entries) ∧ source.2 = entry.2 := by
  induction entries generalizing start with
  | nil => exact ⟨entry, .inl member, rfl⟩
  | cons first rest ih =>
      have later : entry ∈ putAll Scalar.same rest (put Scalar.same first.1 first.2 start) := member
      obtain ⟨source, early | late, same⟩ := ih later
      · rcases exists_mem_of_mem_put early with before | new
        · exact ⟨source, .inl before, same⟩
        · exact ⟨first, .inr List.mem_cons_self, new.symm.trans same⟩
      · exact ⟨source, .inr (List.mem_cons_of_mem _ late), same⟩

end Keyed

/-! ## Setting text keys of a mapping -/

namespace Mapping

variable {entries : Mapping} {key : String} {value : Value}

theorem put_cons {held : Scalar} {old : Value} {rest : Mapping} :
    put (.text key) value ((held, old) :: rest) =
      if held = .text key then (held, value) :: rest
      else (held, old) :: put (.text key) value rest := by
  simp only [put, Keyed.put, Scalar.same_text_iff]

/-- Setting a key leaves the keys in place; a new one goes to the end. -/
theorem keys_put :
    (put (.text key) value entries).map Prod.fst =
      entries.map Prod.fst ++ if .text key ∈ entries.map Prod.fst then [] else [.text key] := by
  induction entries with
  | nil => simp [put]
  | cons entry rest ih =>
      obtain ⟨held, old⟩ := entry
      rw [put_cons]
      by_cases same : held = .text key
      · simp [same]
      · rw [if_neg same, List.map_cons, ih, List.map_cons, List.cons_append]
        simp only [List.mem_cons, Ne.symm same, false_or]

/-- Setting a key that is new repeats no key. -/
theorem nodup_keys_put (fresh : .text key ∉ entries.map Prod.fst)
    (nodup : (entries.map Prod.fst).Nodup) :
    ((put (.text key) value entries).map Prod.fst).Nodup := by
  rw [keys_put, if_neg fresh]
  refine List.nodup_append.mpr ⟨nodup, by simp, ?_⟩
  rintro held member _ last rfl
  rw [List.mem_singleton.mp last] at member
  exact fresh member

/-- The key that was set has the new value. -/
theorem lookup_put : (put (.text key) value entries).lookup (.text key) = some value := by
  induction entries with
  | nil => simp [put]
  | cons entry rest ih =>
      obtain ⟨held, old⟩ := entry
      rw [put_cons]
      by_cases same : held = .text key
      · simp [same]
      · rw [if_neg same, lookup_cons_of_ne (Ne.symm same), ih]

/-- The entries of other keys stay as they are. -/
theorem filter_put {keep : Scalar → Bool} (dropped : keep (.text key) = false) :
    (put (.text key) value entries).filter (fun entry => keep entry.1) =
      entries.filter fun entry => keep entry.1 := by
  induction entries with
  | nil => simp [put, dropped]
  | cons entry rest ih =>
      obtain ⟨held, old⟩ := entry
      rw [put_cons]
      by_cases same : held = .text key
      · simp [same, dropped]
      · rw [if_neg same, List.filter_cons, List.filter_cons, ih]

/-- Another key is found as before. -/
theorem lookup_put_of_ne {other : Scalar} (apart : other ≠ .text key) :
    (put (.text key) value entries).lookup other = entries.lookup other := by
  let keep (held : Scalar) : Bool := held ≠ .text key
  have kept : keep other := by simpa [keep] using apart
  have before := lookup_filter_key keep entries other
  have after := lookup_filter_key keep (put (.text key) value entries) other
  rw [if_pos kept] at before after
  rw [← before, ← after, filter_put (by simp [keep])]

theorem mem_put {entry : Scalar × Value} (member : entry ∈ put (.text key) value entries) :
    entry ∈ entries ∨ entry = (.text key, value) := by
  induction entries with
  | nil => exact .inr (List.mem_singleton.mp member)
  | cons first rest ih =>
      obtain ⟨held, old⟩ := first
      rw [put_cons] at member
      split at member
      · next same =>
          rcases List.mem_cons.mp member with rfl | later
          · exact .inr (by rw [same])
          · exact .inl (List.mem_cons_of_mem _ later)
      · rcases List.mem_cons.mp member with rfl | later
        · exact .inl List.mem_cons_self
        · exact (ih later).imp_left (List.mem_cons_of_mem _)

/-- Of two values set for one key the last one stays. -/
theorem put_put {old : Value} :
    put (.text key) value (put (.text key) old entries) = put (.text key) value entries := by
  induction entries with
  | nil => simp [put, Keyed.put]
  | cons entry rest ih =>
      obtain ⟨held, before⟩ := entry
      rw [put_cons, put_cons]
      split
      · next same => rw [put_cons, if_pos same]
      · next apart => rw [put_cons, if_neg apart, ih]

/-- A key that is there already may be set before or after another one. -/
theorem put_comm {other : String} {further : Value} (apart : other ≠ key)
    (held : .text key ∈ entries.map Prod.fst) :
    put (.text key) value (put (.text other) further entries) =
      put (.text other) further (put (.text key) value entries) := by
  have differ : Scalar.text key ≠ .text other := fun same => apart (Scalar.text.inj same).symm
  induction entries with
  | nil => exact absurd held List.not_mem_nil
  | cons entry rest ih =>
      obtain ⟨first, old⟩ := entry
      by_cases own : first = .text key
      · subst own
        rw [put_cons, if_neg differ, put_cons, if_pos rfl, put_cons, if_pos rfl, put_cons,
          if_neg differ]
      · have later : .text key ∈ rest.map Prod.fst :=
          (List.mem_cons.mp held).resolve_left (Ne.symm own)
        have passed : put (.text key) value ((first, old) :: rest) =
            (first, old) :: put (.text key) value rest := by
          rw [put_cons, if_neg own]
        rw [passed]
        by_cases same : first = .text other
        · rw [put_cons, if_pos same, put_cons, if_neg own, put_cons, if_pos same]
        · rw [put_cons, if_neg same, put_cons, if_neg own, put_cons, if_neg same, ih later]

/-- A mapping is another one with some keys set: these have their new values, all other entries
stand as before, and keys that were not there come last. -/
structure Overwrites (changes before after : Mapping) : Prop where
  keys : after.map Prod.fst = before.map Prod.fst ++
    (changes.map Prod.fst).filter fun key => key ∉ before.map Prod.fst
  changed : ∀ change ∈ changes, after.lookup change.1 = some change.2
  unchanged : (after.filter fun entry => entry.1 ∉ changes.map Prod.fst) =
    before.filter fun entry => entry.1 ∉ changes.map Prod.fst

namespace Overwrites

variable {changes before after : Mapping}

theorem refl (entries : Mapping) : Overwrites [] entries entries where
  keys := by simp
  changed := by simp
  unchanged := rfl

theorem put (overwrites : Overwrites changes before after)
    (fresh : .text key ∉ changes.map Prod.fst) :
    Overwrites (changes ++ [(.text key, value)]) before (Mapping.put (.text key) value after) where
  keys := by
    have held : .text key ∈ after.map Prod.fst ↔ .text key ∈ before.map Prod.fst := by
      rw [overwrites.keys, List.mem_append, List.mem_filter]
      exact ⟨fun either => either.elim id fun new => absurd new.1 fresh, .inl⟩
    have last : [Scalar.text key].filter (fun held => held ∉ before.map Prod.fst) =
        if .text key ∈ after.map Prod.fst then [] else [.text key] := by
      simp only [List.filter_cons, List.filter_nil, held, decide_not]
      split <;> simp_all
    rw [keys_put, List.map_append, List.filter_append, ← List.append_assoc, ← overwrites.keys]
    exact congrArg _ last.symm
  changed change member := by
    rcases List.mem_append.mp member with earlier | last
    · have apart : change.1 ≠ .text key := fun same =>
        fresh (same ▸ List.mem_map_of_mem earlier)
      rw [lookup_put_of_ne apart, overwrites.changed change earlier]
    · obtain rfl := List.mem_singleton.mp last
      exact lookup_put
  unchanged := by
    let keep (held : Scalar) : Bool := held ∉ (changes ++ [(Scalar.text key, value)]).map Prod.fst
    have narrower (entries : Mapping) : entries.filter (fun entry => keep entry.1) =
        (entries.filter fun entry => entry.1 ∉ changes.map Prod.fst).filter
          fun entry => keep entry.1 := by
      rw [List.filter_filter]
      refine List.filter_congr fun entry _ => ?_
      simp +contextual [keep]
    exact (filter_put (by simp [keep])).trans
      ((narrower after).trans (overwrites.unchanged ▸ (narrower before).symm))

end Overwrites

end Mapping

end OpenApi
