import Mathlib.Data.List.Basic
import Mathlib.Data.List.Induction
import OpenApi.Proofs.Keyed

/-!
# Merged entries

What comes of entries that are set one after the other, said without setting them: every key stands
where it came first and has the value that came last (`lastValues`).  Since only first and last
occurrences matter, it is all one whether a list of entries is merged before it is set or not.
-/

namespace OpenApi

/-! ## First occurrences -/

section Distinct

variable {α : Type} {same : α → α → Bool} {items more : List α} {item : α}

/-- One more item is dropped if it is there already, and goes to the end otherwise. -/
theorem eraseDupsBy_concat :
    (items ++ [item]).eraseDupsBy same =
      if (items.eraseDupsBy same).any (same item) then items.eraseDupsBy same
      else items.eraseDupsBy same ++ [item] := by
  -- The loop holds what it has kept in reverse order.
  have loop (kept : List α) : List.eraseDupsBy.loop same (items ++ [item]) kept =
      if (List.eraseDupsBy.loop same items kept).any (same item) then
        List.eraseDupsBy.loop same items kept
      else List.eraseDupsBy.loop same items kept ++ [item] := by
    induction items generalizing kept with
    | nil =>
        rw [List.nil_append, List.eraseDupsBy.loop]
        simp only [List.eraseDupsBy.loop, List.any_reverse]
        cases kept.any (same item) <;> simp
    | cons first rest ih =>
        rw [List.cons_append, List.eraseDupsBy.loop, List.eraseDupsBy.loop]
        cases kept.any (same first) with
        | true => exact ih kept
        | false => exact ih (first :: kept)
  exact loop []

/-- Dropping repetitions adds nothing. -/
theorem mem_of_mem_eraseDupsBy (member : item ∈ items.eraseDupsBy same) : item ∈ items := by
  induction items using List.reverseRecOn with
  | nil => exact member
  | append_singleton before last ih =>
      rw [eraseDupsBy_concat] at member
      split at member
      · exact List.mem_append_left _ (ih member)
      · rcases List.mem_append.mp member with early | late
        · exact List.mem_append_left _ (ih early)
        · exact List.mem_append_right _ late

/-- Items that are taken once are all different. -/
theorem pairwise_eraseDupsBy :
    (items.eraseDupsBy same).Pairwise fun first second => same second first = false := by
  induction items using List.reverseRecOn with
  | nil => exact .nil
  | append_singleton before last ih =>
      rw [eraseDupsBy_concat]
      split
      · exact ih
      · next fresh =>
          simp only [List.any_eq_true, not_exists, not_and, Bool.not_eq_true] at fresh
          simpa [List.pairwise_append, ih] using fresh

variable (trans : ∀ first second third, same first second → same second third → same first third)

include trans

/-- Nor does it lose anything but repetitions. -/
theorem any_eraseDupsBy (item : α) :
    (items.eraseDupsBy same).any (same item) = items.any (same item) := by
  induction items using List.reverseRecOn with
  | nil => rfl
  | append_singleton before last ih =>
      rw [eraseDupsBy_concat, List.any_append, List.any_cons, List.any_nil, Bool.or_false]
      split
      · next dropped =>
          rw [ih]
          cases alike : same item last with
          | false => simp
          | true =>
              obtain ⟨held, member, lastAlike⟩ := List.any_eq_true.mp dropped
              have before := List.any_eq_true.mpr
                ⟨held, mem_of_mem_eraseDupsBy member, trans _ _ _ alike lastAlike⟩
              simp [before]
      · simp [ih]

/-- It does not matter whether the items of a later part were taken once before. -/
theorem eraseDupsBy_append_eraseDupsBy :
    (items ++ more.eraseDupsBy same).eraseDupsBy same = (items ++ more).eraseDupsBy same := by
  induction more using List.reverseRecOn with
  | nil => rfl
  | append_singleton before last ih =>
      rw [eraseDupsBy_concat, ← List.append_assoc, eraseDupsBy_concat]
      by_cases dropped : (before.eraseDupsBy same).any (same last)
      · have again : ((items ++ before).eraseDupsBy same).any (same last) := by
          rw [any_eraseDupsBy trans] at dropped ⊢
          simp [dropped]
        rw [if_pos dropped, if_pos again, ih]
      · rw [if_neg dropped, ← List.append_assoc, eraseDupsBy_concat, ih]

omit trans in
/-- Items that are all different are taken as they are. -/
theorem eraseDupsBy_of_pairwise
    (differ : items.Pairwise fun first second => same second first = false) :
    items.eraseDupsBy same = items := by
  induction items using List.reverseRecOn with
  | nil => rfl
  | append_singleton before last ih =>
      rw [List.pairwise_append] at differ
      obtain ⟨early, -, apart⟩ := differ
      rw [eraseDupsBy_concat, ih early, if_neg]
      simpa using apart

end Distinct

/-- It does not matter which of two keys comes first. -/
theorem Scalar.same_comm (first second : Scalar) :
    Scalar.same first second = Scalar.same second first := by
  rw [Bool.eq_iff_iff, Scalar.same_iff, Scalar.same_iff, eq_comm]

/-- Keys that count as a third one count as each other. -/
theorem Scalar.same_trans (first second third : Scalar) (one : Scalar.same first second)
    (two : Scalar.same second third) : Scalar.same first third :=
  Scalar.same_iff.mpr ((Scalar.same_iff.mp one).trans (Scalar.same_iff.mp two))

/-- Every key counts as itself. -/
theorem Scalar.same_self (key : Scalar) : Scalar.same key key :=
  Scalar.same_iff.mpr rfl

/-! ## Last values -/

namespace Keyed

variable {ν : Type} {entries more start : List (Scalar × ν)} {key other : Scalar} {value : ν}

/-- The value of the last entry with a key. -/
def last? (entries : List (Scalar × ν)) (key : Scalar) : Option ν :=
  (entries.reverse.find? fun entry => Scalar.same key entry.1).map Prod.snd

/-- Every key where it came first, with the value that came last. -/
def lastValues (entries : List (Scalar × ν)) : List (Scalar × ν) :=
  ((entries.map Prod.fst).eraseDupsBy Scalar.same).filterMap fun key =>
    (last? entries key).map fun value => (key, value)

/-- The value of the last entry is the last one under its key. -/
theorem last?_concat : last? (entries ++ [(other, value)]) key =
    if Scalar.same key other then some value else last? entries key := by
  unfold last?
  rw [List.reverse_append, List.reverse_singleton, List.singleton_append, List.find?_cons]
  split <;> simp_all

/-- Later entries come before earlier ones. -/
theorem last?_append : last? (entries ++ more) key = (last? more key).or (last? entries key) := by
  simp only [last?, List.reverse_append, List.find?_append, Option.map_or]

/-- Keys that count as each other have the same last value. -/
theorem last?_congr (alike : Scalar.same key other) : last? entries key = last? entries other := by
  have test (entry : Scalar × ν) : Scalar.same key entry.1 = Scalar.same other entry.1 := by
    rw [Bool.eq_iff_iff, Scalar.same_iff, Scalar.same_iff, Scalar.same_iff.mp alike]
  simp only [last?, test]

/-- A last value is found under exactly the keys of the entries. -/
theorem last?_isSome :
    (last? entries key).isSome = (entries.map Prod.fst).any (Scalar.same key) := by
  rw [Bool.eq_iff_iff]
  simp [last?]

/-- A key that occurs has a last value. -/
theorem isSome_last?_of_mem (member : key ∈ (entries.map Prod.fst).eraseDupsBy Scalar.same) :
    (last? entries key).isSome := by
  rw [last?_isSome, List.any_eq_true]
  exact ⟨key, mem_of_mem_eraseDupsBy member, Scalar.same_self key⟩

/-- The keys with their last values are the keys, once each. -/
theorem map_fst_lastValues :
    (lastValues entries).map Prod.fst = (entries.map Prod.fst).eraseDupsBy Scalar.same := by
  have each : ∀ key ∈ (entries.map Prod.fst).eraseDupsBy Scalar.same,
      ((last? entries key).map fun value => (key, value)).map Prod.fst = some key := by
    intro key member
    obtain ⟨value, found⟩ := Option.isSome_iff_exists.mp (isSome_last?_of_mem member)
    simp [found]
  rw [lastValues, List.map_filterMap, List.filterMap_congr each, List.filterMap_some]

/-! ## Setting entries -/

/-- Setting a key where all keys differ: the one that is the same takes the value, and the others
keep theirs. -/
theorem put_filterMap {keys : List Scalar} {found : Scalar → Option ν}
    (differ : keys.Pairwise fun first second => Scalar.same second first = false)
    (each : ∀ held ∈ keys, (found held).isSome) :
    put Scalar.same key value (keys.filterMap fun held => (found held).map fun old => (held, old)) =
      (if keys.any (Scalar.same key) then keys else keys ++ [key]).filterMap fun held =>
        (if Scalar.same held key then some value else found held).map fun new => (held, new) := by
  induction keys with
  | nil => simp [Scalar.same_self]
  | cons first rest ih =>
      obtain ⟨apart, differ⟩ := List.pairwise_cons.mp differ
      obtain ⟨old, isOld⟩ := Option.isSome_iff_exists.mp (each first List.mem_cons_self)
      have later := ih differ fun held member => each held (List.mem_cons_of_mem _ member)
      rw [List.filterMap_cons_some (by rw [isOld]; rfl), put, List.any_cons, Scalar.same_comm key]
      by_cases alike : Scalar.same first key
      · have unchanged : ∀ held ∈ rest,
            ((found held).map fun old => (held, old)) =
              (if Scalar.same held key then some value else found held).map
                fun new => (held, new) := by
          intro held member
          rw [if_neg]
          intro alsoAlike
          rw [Scalar.same_comm] at alike
          have same := Scalar.same_trans _ _ _ alsoAlike alike
          rw [apart held member] at same
          cases same
        simp [alike, List.filterMap_congr unchanged]
      · rw [Bool.not_eq_true] at alike
        rw [later, alike, Bool.false_or]
        cases rest.any (Scalar.same key) <;> simp [alike, isOld]

/-- One more entry is put after the others. -/
theorem ofEntries_concat :
    ofEntries Scalar.same (entries ++ [(key, value)]) =
      put Scalar.same key value (ofEntries Scalar.same entries) := by
  simp [ofEntries, putAll]

/-- Of entries that are set one after the other, every key keeps its first place and its last
value. -/
theorem ofEntries_eq_lastValues : ofEntries Scalar.same entries = lastValues entries := by
  induction entries using List.reverseRecOn with
  | nil => rfl
  | append_singleton before last ih =>
      obtain ⟨key, value⟩ := last
      rw [ofEntries_concat, ih, lastValues,
        put_filterMap pairwise_eraseDupsBy fun _ => isSome_last?_of_mem, ← eraseDupsBy_concat,
        lastValues, List.map_append, List.map_singleton]
      simp only [last?_concat]

/-- Putting entries one after the other leaves the last value under each key. -/
theorem putAll_lastValues :
    putAll Scalar.same more (lastValues entries) = lastValues (entries ++ more) := by
  rw [← ofEntries_eq_lastValues, ← ofEntries_eq_lastValues, ofEntries, ofEntries, putAll, putAll,
    putAll, List.foldl_append]

/-- Merging entries does not change what came last. -/
theorem last?_lastValues : last? (lastValues entries) key = last? entries key := by
  have values : ∀ entry ∈ lastValues entries, last? entries entry.1 = some entry.2 := by
    intro entry member
    obtain ⟨held, _, same⟩ := List.mem_filterMap.mp member
    obtain ⟨value, found, rfl⟩ := Option.map_eq_some_iff.mp same
    exact found
  cases merged : last? (lastValues entries) key with
  | none =>
      have nothing : (last? (lastValues entries) key).isSome = false := by simp [merged]
      rw [last?_isSome, map_fst_lastValues, any_eraseDupsBy Scalar.same_trans, ← last?_isSome]
        at nothing
      exact (Option.isSome_eq_false_iff.mp nothing |> Option.isNone_iff_eq_none.mp).symm
  | some value =>
      obtain ⟨entry, search, rfl⟩ := Option.map_eq_some_iff.mp merged
      have alike : Scalar.same key entry.1 := by
        simpa using List.find?_some search
      rw [last?_congr alike, values entry (List.mem_reverse.mp (List.mem_of_find?_eq_some search))]

/-- It does not matter whether later entries were merged before. -/
theorem lastValues_append_lastValues :
    lastValues (entries ++ lastValues more) = lastValues (entries ++ more) := by
  unfold lastValues
  rw [List.map_append, List.map_append]
  change List.filterMap _ ((_ ++ (lastValues more).map Prod.fst).eraseDupsBy _) = _
  rw [map_fst_lastValues, eraseDupsBy_append_eraseDupsBy Scalar.same_trans]
  change List.filterMap (fun key => (last? (entries ++ lastValues more) key).map _) _ = _
  simp only [last?_append, last?_lastValues]

/-- A key that is not there yet goes to the end. -/
theorem put_of_fresh (fresh : ∀ entry ∈ entries, Scalar.same entry.1 key = false) :
    put Scalar.same key value entries = entries ++ [(key, value)] := by
  induction entries with
  | nil => rfl
  | cons entry rest ih =>
      obtain ⟨held, old⟩ := entry
      have apart : Scalar.same held key = false := fresh (held, old) List.mem_cons_self
      have later := ih fun other member => fresh other (List.mem_cons_of_mem _ member)
      rw [put, apart, later]
      rfl

/-- Entries of different keys are merged as they are. -/
theorem ofEntries_of_pairwise
    (differ : entries.Pairwise fun first second => Scalar.same second.1 first.1 = false) :
    ofEntries Scalar.same entries = entries := by
  induction entries using List.reverseRecOn with
  | nil => rfl
  | append_singleton before last ih =>
      obtain ⟨key, value⟩ := last
      rw [List.pairwise_append] at differ
      obtain ⟨early, -, apart⟩ := differ
      rw [ofEntries_concat, ih early]
      have fresh : ∀ entry ∈ before, Scalar.same entry.1 key = false := by
        intro entry member
        rw [Scalar.same_comm]
        exact apart entry member _ List.mem_cons_self
      exact put_of_fresh fresh

end Keyed

end OpenApi
