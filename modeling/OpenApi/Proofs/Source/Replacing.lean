import OpenApi.Source.Comment

/-!
# Replaced patterns

What a text becomes when the occurrences of a pattern are replaced from left to right: wherever the
pattern is found it is passed over as a whole, and any other character stays (`Replaces`).  What
comes of it is then seen by induction on the places of the text.
-/

namespace OpenApi.Source

/-- A text becomes another when a pattern is replaced from left to right, without overlap. -/
inductive Replaces (pattern replacement : List Char) : List Char → List Char → Prop
  | done : Replaces pattern replacement [] []
  | found {rest result : List Char} (onward : Replaces pattern replacement rest result) :
      Replaces pattern replacement (pattern ++ rest) (replacement ++ result)
  | kept {c : Char} {rest result : List Char} (other : ¬ pattern <+: c :: rest)
      (onward : Replaces pattern replacement rest result) :
      Replaces pattern replacement (c :: rest) (c :: result)

variable {pattern : List Char} (something : pattern ≠ []) (replacement : List Char)

include something

/-- Looking at as many places as the text has is enough. -/
theorem replaces_go {cs : List Char} {fuel : Nat} (enough : cs.length ≤ fuel) :
    Replaces pattern replacement cs (replaceAll.go pattern replacement fuel cs) := by
  induction fuel generalizing cs with
  | zero =>
      obtain rfl := List.length_eq_zero_iff.mp (Nat.le_zero.mp enough)
      exact .done
  | succ fuel ih =>
      cases cs with
      | nil => exact .done
      | cons c rest =>
          rw [List.length_cons] at enough
          rw [replaceAll.go]
          split
          · next begins =>
              simp only [Bool.and_eq_true, List.isPrefixOf_iff_prefix] at begins
              obtain ⟨tail, same⟩ := begins.1
              have lengths := congrArg List.length same
              have positive := List.length_pos_iff.mpr something
              rw [List.length_append, List.length_cons] at lengths
              rw [← same, List.drop_left]
              exact .found (ih (by omega))
          · next apart =>
              have other : ¬ pattern <+: c :: rest := by
                simpa [List.isPrefixOf_iff_prefix, something] using apart
              exact .kept other (ih (by omega))

theorem replaces_replaceAll (cs : List Char) :
    Replaces pattern replacement cs (replaceAll pattern replacement cs) :=
  replaces_go something replacement (Nat.le_refl cs.length)

end OpenApi.Source
