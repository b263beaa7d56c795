import Mathlib.Data.List.TakeDrop
import Mathlib.Data.List.TakeWhile
import OpenApi.Json.Reader
import OpenApi.Proofs.Traced

/-!
# Where reading JSON stops

Every reader leaves a rest of the text that it was given.  If it stops instead, then with a
complaint about a rest of that text, or at a run of digits in it that is longer than a number may
be.  This holds of the parts of a text and, put together from them, of the whole.
-/

namespace OpenApi.Json

/-- Somewhere in a text stands a run of so many digits, more than a number may have. -/
def HasLongNumeral (cs : List Char) (digits : Nat) : Prop :=
  ∃ numeral, numeral <:+: cs ∧ (∀ c ∈ numeral, c.isDigit) ∧ numeral.length = digits ∧
    Decimal.maxDigits < digits

/-- A stop is about a text: a complaint about a rest of it, or a numeral in it that is too long. -/
def Stop.StandsIn (cs : List Char) : Stop → Prop
  | complaint _ rest => rest <:+ cs
  | numeralTooLong digits => HasLongNumeral cs digits

/-- What reading a text gives: a rest of the text, with what was read before it, or a stop in it. -/
def Reads {α : Type} (cs : List Char) : Except Stop (α × List Char) → Prop :=
  EndsAs (fun read => read.2 <:+ cs) (Stop.StandsIn cs)

variable {α β : Type} {cs start rest : List Char}

/-- A long numeral in a rest of a text is one in the text. -/
theorem HasLongNumeral.of_suffix {digits : Nat} (long : HasLongNumeral rest digits)
    (suffix : rest <:+ cs) : HasLongNumeral cs digits := by
  obtain ⟨numeral, inside, others⟩ := long
  exact ⟨numeral, inside.trans suffix.isInfix, others⟩

/-- A stop in a rest of a text is one in the text. -/
theorem Stop.StandsIn.of_suffix {stop : Stop} (stands : stop.StandsIn rest) (suffix : rest <:+ cs) :
    stop.StandsIn cs := by
  cases stop with
  | complaint cause place => exact List.IsSuffix.trans stands suffix
  | numeralTooLong digits => exact HasLongNumeral.of_suffix stands suffix

namespace Reads

theorem ok_iff {a : α} : Reads cs (.ok (a, rest)) ↔ rest <:+ cs :=
  Iff.rfl

/-- What reads a rest of a text reads the text. -/
theorem of_suffix {outcome : Except Stop (α × List Char)} (reads : Reads rest outcome)
    (suffix : rest <:+ cs) : Reads cs outcome :=
  EndsAs.imp reads (fun _ left => List.IsSuffix.trans left suffix)
    fun _ stands => stands.of_suffix suffix

/-- One reader goes on where another left off. -/
theorem bind {first : Except Stop (α × List Char)}
    {next : α × List Char → Except Stop (β × List Char)} (before : Reads cs first)
    (after : ∀ a rest, rest <:+ cs → Reads cs (next (a, rest))) : Reads cs (first >>= next) :=
  EndsAs.bind before fun _ _ left => after _ _ left

end Reads

/-- Skipping spaces leaves a rest. -/
theorem skipSpaces_suffix (cs : List Char) : skipSpaces cs <:+ cs :=
  List.dropWhile_suffix _

/-! ## Texts -/

/-- What follows the first so many characters of a rest is a rest. -/
theorem drop_suffix_of_suffix (suffix : start <:+ cs) (count : Nat) : start.drop count <:+ cs :=
  (List.drop_suffix count start).trans suffix

/-- An escaped unit is read, or the stop is about where its escape starts. -/
theorem readUnit_reads (suffix : cs <:+ start) : Reads start (readUnit start cs) := by
  unfold readUnit
  split
  · split
    · exact drop_suffix_of_suffix suffix 4
    · exact List.suffix_refl start
  · exact List.suffix_refl start

/-- So it is for the second half of a pair. -/
theorem readLowHalf_reads (cs : List Char) : Reads cs (readLowHalf cs) := by
  unfold readLowHalf
  split
  · split
    · split
      · exact Reads.ok_iff.mpr ⟨['\\', 'u', _, _, _, _], rfl⟩
      · exact List.suffix_refl _
    · exact List.suffix_cons _ _
  · exact List.suffix_refl cs

/-- So it is for an escaped character, with one half or two. -/
theorem readUnicode_reads (suffix : cs <:+ start) : Reads start (readUnicode start cs) := by
  unfold readUnicode
  refine (readUnit_reads suffix).bind fun unit rest left => ?_
  dsimp only
  split
  · refine ((readLowHalf_reads rest).of_suffix left).bind fun low rest left => ?_
    cases low with
    | some low => exact left
    | none => exact left
  · exact left

/-- So it is from any place within a text between quotes. -/
theorem readTextFrom_reads {fuel : Nat} (suffix : cs <:+ start) :
    Reads start (readTextFrom start fuel cs) := by
  fun_induction readTextFrom start fuel cs with
  | case1 | case2 | case4 => exact List.suffix_refl start
  | case3 fuel rest => exact drop_suffix_of_suffix suffix 1
  | case5 fuel rest ih =>
      have afterMark := drop_suffix_of_suffix suffix 1
      refine ((readUnicode_reads (List.suffix_cons _ _)).of_suffix afterMark).bind ?_
      intro c rest left
      refine (ih rest left).bind ?_
      exact fun _ _ left => left
  | case6 fuel letter rest _ c _ ih =>
      refine (ih (drop_suffix_of_suffix suffix 2)).bind ?_
      exact fun _ _ left => left
  | case7 | case8 => exact suffix
  | case9 fuel c rest _ _ _ _ _ ih =>
      refine (ih (drop_suffix_of_suffix suffix 1)).bind ?_
      exact fun _ _ left => left

/-- A text between quotes leaves a rest, or the stop is in it. -/
theorem readText_reads (fuel : Nat) (cs : List Char) :
    Reads ('"' :: cs) (readText fuel cs) := by
  refine (readTextFrom_reads (List.suffix_cons _ _)).bind ?_
  exact fun _ _ left => left

/-! ## Numbers -/

/-- The digits at the start of a text and what follows them make up the text. -/
theorem append_of_spanDigits {digits : List Char} (spans : spanDigits cs = (digits, rest)) :
    digits ++ rest = cs ∧ ∀ c ∈ digits, c.isDigit := by
  rw [spanDigits, List.span_eq_takeWhile_dropWhile, Prod.mk.injEq] at spans
  obtain ⟨rfl, rfl⟩ := spans
  exact ⟨List.takeWhile_append_dropWhile, fun c => List.mem_takeWhile_imp⟩

/-- Digits leave a rest. -/
theorem suffix_of_spanDigits {digits : List Char} (spans : spanDigits cs = (digits, rest)) :
    rest <:+ cs :=
  ⟨digits, (append_of_spanDigits spans).1⟩

/-- The digits behind a point leave a rest. -/
theorem spanFraction_suffix (cs : List Char) : (spanFraction cs).2 <:+ cs := by
  unfold spanFraction
  split
  · split
    · exact List.suffix_refl _
    · next spans => exact (suffix_of_spanDigits spans).trans (List.suffix_cons _ _)
  · exact List.suffix_refl cs

/-- An exponent leaves a rest. -/
theorem spanExponent_suffix (cs : List Char) : (spanExponent cs).2 <:+ cs := by
  unfold spanExponent
  split
  · exact List.suffix_refl _
  · next letter rest =>
      split
      · dsimp only
        split
        · exact List.suffix_refl _
        · next spans =>
            refine (suffix_of_spanDigits spans).trans (.trans ?_ (List.suffix_cons letter rest))
            split
            · exact List.suffix_cons _ _
            · exact List.suffix_cons _ _
            · exact List.suffix_refl _
      · exact List.suffix_refl _

/-- A number begins with the digits that are read before its fraction and its exponent. -/
theorem finishNumber_reads {negative : Bool} {whole : List Char} (suffix : whole ++ rest <:+ cs)
    (digits : ∀ c ∈ whole, c.isDigit) : Reads cs (finishNumber negative whole rest) := by
  have left : rest <:+ cs := (List.suffix_append whole rest).trans suffix
  unfold finishNumber
  dsimp only
  split
  · split
    · next long =>
        have inside := (List.infix_append_left ..).trans suffix.isInfix
        exact ⟨whole, inside, digits, rfl, long⟩
    · exact left
  · exact ((spanExponent_suffix _).trans (spanFraction_suffix _)).trans left

/-- A number leaves a rest, or its digits are too many. -/
theorem readNumber_reads (cs : List Char) : Reads cs (readNumber cs) := by
  unfold readNumber
  split
  next signed negative unsigned same =>
    have suffix : unsigned <:+ cs := by
      split at same
      · obtain ⟨-, rfl⟩ := Prod.mk.inj same
        exact List.suffix_cons _ _
      · obtain ⟨-, rfl⟩ := Prod.mk.inj same
        exact List.suffix_refl _
    split
    · exact finishNumber_reads suffix (by simp)
    · split
      · exact List.suffix_refl _
      · next spans =>
          obtain ⟨whole, digits⟩ := append_of_spanDigits spans
          exact finishNumber_reads (whole ▸ suffix) digits

/-! ## Values -/

/-- A reader may begin after spaces. -/
theorem Reads.of_skipSpaces {outcome : Except Stop (α × List Char)}
    (reads : Reads (skipSpaces rest) outcome) (suffix : rest <:+ cs) : Reads cs outcome :=
  reads.of_suffix ((skipSpaces_suffix rest).trans suffix)

/-- What follows the first character after spaces. -/
theorem suffix_of_skipSpaces {c : Char} (skips : skipSpaces cs = c :: rest) : rest <:+ cs :=
  (List.suffix_cons c rest).trans (skips ▸ skipSpaces_suffix cs)

section

variable {fuel : Nat}

/-- A value leaves a rest if the items and the members in it do. -/
theorem readValue_succ_reads (items : ∀ cs, Reads cs (readItems fuel cs))
    (members : ∀ cs, Reads cs (readMembers fuel cs)) (cs : List Char) :
    Reads cs (readValue (fuel + 1) cs) := by
  unfold readValue
  split
  · refine (readText_reads fuel _).bind ?_
    exact fun _ _ left => left
  · split
    · next skips => exact (suffix_of_skipSpaces skips).trans (List.suffix_cons _ _)
    · refine ((items _).of_skipSpaces (List.suffix_cons _ _)).bind ?_
      exact fun _ _ left => left
  · split
    · next skips => exact (suffix_of_skipSpaces skips).trans (List.suffix_cons _ _)
    · refine ((members _).of_skipSpaces (List.suffix_cons _ _)).bind ?_
      exact fun _ _ left => left
  -- The words, each of which is its own characters.
  · exact ⟨['n', 'u', 'l', 'l'], rfl⟩
  · exact ⟨['t', 'r', 'u', 'e'], rfl⟩
  · exact ⟨['f', 'a', 'l', 's', 'e'], rfl⟩
  · exact ⟨['N', 'a', 'N'], rfl⟩
  · exact ⟨['I', 'n', 'f', 'i', 'n', 'i', 't', 'y'], rfl⟩
  · exact ⟨['-', 'I', 'n', 'f', 'i', 'n', 'i', 't', 'y'], rfl⟩
  · exact readNumber_reads cs

/-- Items leave a rest if the values among them do. -/
theorem readItems_succ_reads (value : ∀ cs, Reads cs (readValue fuel cs))
    (items : ∀ cs, Reads cs (readItems fuel cs)) (cs : List Char) :
    Reads cs (readItems (fuel + 1) cs) := by
  rw [readItems]
  refine (value cs).bind fun item rest left => ?_
  dsimp only
  split
  · next skips => exact (suffix_of_skipSpaces skips).trans left
  · next skips =>
      refine ((items _).of_skipSpaces ((suffix_of_skipSpaces skips).trans left)).bind ?_
      exact fun _ _ left => left
  · exact (skipSpaces_suffix rest).trans left

/-- Members leave a rest if the values among them do. -/
theorem readMembers_succ_reads (value : ∀ cs, Reads cs (readValue fuel cs))
    (members : ∀ cs, Reads cs (readMembers fuel cs)) (cs : List Char) :
    Reads cs (readMembers (fuel + 1) cs) := by
  unfold readMembers
  split
  · refine (readText_reads fuel _).bind fun name rest left => ?_
    dsimp only
    split
    · next skips =>
        refine ((value _).of_skipSpaces ((suffix_of_skipSpaces skips).trans left)).bind ?_
        intro value rest left
        dsimp only
        split
        · next skips => exact (suffix_of_skipSpaces skips).trans left
        · next skips =>
            refine ((members _).of_skipSpaces ((suffix_of_skipSpaces skips).trans left)).bind ?_
            exact fun _ _ left => left
        · exact (skipSpaces_suffix rest).trans left
    · exact (skipSpaces_suffix rest).trans left
  · exact List.suffix_refl cs

/-- Values, items and members read each other, with less fuel every time. -/
theorem reads_values (fuel : Nat) :
    (∀ cs, Reads cs (readValue fuel cs)) ∧ (∀ cs, Reads cs (readItems fuel cs)) ∧
      ∀ cs, Reads cs (readMembers fuel cs) := by
  induction fuel with
  | zero =>
      refine ⟨fun cs => ?_, fun cs => ?_, fun cs => ?_⟩
      · rw [readValue]
        exact List.suffix_refl cs
      · rw [readItems]
        exact List.suffix_refl cs
      · rw [readMembers]
        exact List.suffix_refl cs
  | succ fuel ih =>
      obtain ⟨value, items, members⟩ := ih
      exact ⟨readValue_succ_reads items members, readItems_succ_reads value items,
        readMembers_succ_reads value members⟩

end

/-- A text is read, or reading it stops somewhere in it. -/
theorem endsAs_readAll (cs : List Char) :
    EndsAs (fun _ => True) (Stop.StandsIn cs) (readAll cs) := by
  unfold readAll
  split
  · exact List.suffix_refl cs
  · refine EndsAs.bind (((reads_values _).1 _).of_suffix (skipSpaces_suffix cs)) ?_
    intro read _ left
    dsimp only
    split
    · trivial
    · exact (skipSpaces_suffix _).trans left

/-- The only fault of a JSON text is a numeral in it that is too long. -/
theorem endsAs_read (content : String) :
    EndsAs (fun _ => True)
      (fun fault => ∃ digits, fault = .numeralTooLong digits ∧ HasLongNumeral content.toList digits)
      (read content) := by
  have ends := endsAs_readAll content.toList
  unfold read
  dsimp only
  split
  · trivial
  · trivial
  · next digits stops => exact ⟨digits, rfl, ends.of_error stops⟩

end OpenApi.Json
