import OpenApi.Text.Blank

/-!
# Texts cut at blanks

Stripping a text and cutting it into lines takes it apart next to blank characters only.  So what
holds of a text and, with it, of the parts on either side of each of its blanks (`CutsAtBlanks`)
holds of the stripped text and of each of its lines.
-/

namespace OpenApi.Text

theorem isBlank_of_isLineEnd {c : Char} (ends : isLineEnd c) : isBlank c := by
  obtain ⟨run, member, lower, upper⟩ := Ranges.exists_of_covers ends
  simp only [lineEnds, List.mem_cons, List.not_mem_nil, or_false] at member
  rcases member with rfl | rfl | rfl | rfl <;> simp only at lower upper <;>
    simp only [isBlank, blanks, Ranges.covers] <;> grind

/-- A character that is not blank stays at its place. -/
theorem stripRight_append_cons {c : Char} (solid : isBlank c = false) (cs rest : List Char) :
    stripRight (cs ++ c :: rest) = cs ++ c :: stripRight rest := by
  unfold stripRight
  rw [List.reverse_append, List.reverse_cons, List.append_assoc, List.dropWhile_append]
  split
  · next blank =>
      rw [List.isEmpty_iff] at blank
      simp [blank, solid]
  · simp

/-- Lines are written with a line feed behind each but the last. -/
theorem toList_intercalate_concat (lines : List String) (last : String) :
    ("\n".intercalate (lines ++ [last])).toList =
      lines.flatMap (fun line => line.toList ++ ['\n']) ++ last.toList := by
  induction lines with
  | nil => simp
  | cons line rest ih =>
      have apart : ∃ next others, rest ++ [last] = next :: others := by
        cases rest with
        | nil => exact ⟨last, [], rfl⟩
        | cons next others => exact ⟨next, others ++ [last], rfl⟩
      obtain ⟨next, others, same⟩ := apart
      rw [List.cons_append, same, String.intercalate_cons_cons, ← same, String.toList_append, ih]
      simp

/-- What passes from a text to the parts on either side of a blank. -/
structure CutsAtBlanks (holds : List Char → Prop) : Prop where
  before : ∀ ⦃cs rest c⦄, isBlank c → holds (cs ++ c :: rest) → holds cs
  behind : ∀ ⦃cs rest c⦄, isBlank c → holds (cs ++ c :: rest) → holds rest

namespace CutsAtBlanks

variable {holds : List Char → Prop} (cuts : CutsAtBlanks holds) {cs : List Char}

include cuts

theorem tail {c : Char} {rest : List Char} (blank : isBlank c) (whole : holds (c :: rest)) :
    holds rest :=
  cuts.behind blank (List.nil_append (c :: rest) ▸ whole)

theorem stripRight (whole : holds cs) : holds (stripRight cs) := by
  have parts : Text.stripRight cs ++ (cs.reverse.takeWhile isBlank).reverse = cs := by
    rw [Text.stripRight, ← List.reverse_append, List.takeWhile_append_dropWhile,
      List.reverse_reverse]
  cases left : (cs.reverse.takeWhile isBlank).reverse with
  | nil => rwa [← parts, left, List.append_nil] at whole
  | cons c rest =>
      have blank : isBlank c := by
        have member : c ∈ (cs.reverse.takeWhile isBlank).reverse := by simp [left]
        exact List.all_eq_true.mp List.all_takeWhile c (List.mem_reverse.mp member)
      rw [← parts, left] at whole
      exact cuts.before blank whole

theorem dropWhile (whole : holds cs) : holds (cs.dropWhile isBlank) := by
  induction cs with
  | nil => exact whole
  | cons c rest ih =>
      rw [List.dropWhile_cons]
      split
      · next blank => exact ih (cuts.tail blank whole)
      · exact whole

/-- Stripping keeps what every cut at a blank keeps. -/
theorem strip (whole : holds cs) : holds (strip cs) :=
  cuts.stripRight (cuts.dropWhile whole)

/-- So does cutting into lines, by induction on what is left of the text. -/
theorem linesAfter {begun : List Char} (whole : holds (begun.reverse ++ cs)) :
    ∀ line ∈ linesAfter begun cs, holds line := by
  fun_induction Text.linesAfter begun cs with
  | case1 begun nothing => exact fun _ member => absurd member List.not_mem_nil
  | case2 begun something => simpa using whole
  | case3 begun rest ih =>
      have carriage : isBlank '\r' := by decide
      have feed : isBlank '\n' := by decide
      refine List.forall_mem_cons.mpr ⟨cuts.before carriage whole, ih ?_⟩
      exact cuts.tail feed (cuts.behind carriage whole)
  | case4 begun c rest other ends ih =>
      have blank := isBlank_of_isLineEnd ends
      exact List.forall_mem_cons.mpr ⟨cuts.before blank whole, ih (cuts.behind blank whole)⟩
  | case5 begun c rest other within ih =>
      exact ih (by simpa using whole)

theorem lines (whole : holds cs) : ∀ line ∈ lines cs, holds line :=
  @linesAfter holds cuts cs [] whole

/-- Every line of a stripped text keeps what passes to the parts next to blanks. -/
theorem linesOf_stripped {s : String} (whole : holds s.toList) :
    ∀ line ∈ linesOf (stripped s), holds line.toList := by
  intro line member
  obtain ⟨cs, listed, rfl⟩ := List.mem_map.mp member
  rw [stripped, String.toList_ofList] at listed
  rw [String.toList_ofList]
  exact cuts.lines (cuts.strip whole) cs listed

end CutsAtBlanks

end OpenApi.Text
