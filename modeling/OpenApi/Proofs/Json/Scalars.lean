import Mathlib.Data.List.TakeDrop
import OpenApi.Json.Reader
import OpenApi.Text.Quoted

/-!
# Texts and whole numbers read back

A text that is written between quotes is read back as it was, whichever characters stand as they
are, as long as no control character does.  Every character is written as itself, as a backslash
with a letter, or as one or two code units of four digits, and each of these is read as that
character (`readTextFrom_escapeChar`); a text is read character by character.

A whole number is read back from its digits where no number goes on after them (`EndsNumber`), if
they are not too many.
-/

namespace OpenApi

namespace Text

/-- A hexadecimal digit has its value. -/
theorem hexValue?_hexDigit : ∀ n < 16, hexValue? (hexDigit n) = some n := by
  decide

/-- Four hexadecimal digits, one by one. -/
theorem hex_four (n : Nat) :
    hex 4 n = [hexDigit (n / 4096 % 16), hexDigit (n / 256 % 16), hexDigit (n / 16 % 16),
      hexDigit (n % 16)] := by
  simp [hex, Nat.div_div_eq_div_mul]

/-- Every character is written as at least one. -/
theorem escapeChar_ne_nil (plain : Char → Bool) (c : Char) : escapeChar plain c ≠ [] := by
  unfold escapeChar
  split
  · next found =>
      unfold shortEscape? at found
      split at found <;> cases found <;> exact List.cons_ne_nil _ _
  · split
    · exact List.cons_ne_nil _ _
    · unfold codeEscape unitEscape
      split <;> exact List.cons_ne_nil _ _

end Text

namespace Json

/-! ## Code units -/

/-- They have the value of the unit. -/
theorem hexUnit?_hex {unit : Nat} (fits : unit < 0x10000) :
    hexUnit? (Text.hexDigit (unit / 4096 % 16)) (Text.hexDigit (unit / 256 % 16))
      (Text.hexDigit (unit / 16 % 16)) (Text.hexDigit (unit % 16)) = some unit := by
  have digit (n : Nat) : Text.hexValue? (Text.hexDigit (n % 16)) = some (n % 16) :=
    Text.hexValue?_hexDigit _ (Nat.mod_lt _ (by decide))
  simp only [hexUnit?, digit, Option.bind_eq_bind, Option.bind_some, Option.pure_def,
    Option.some.injEq]
  omega

variable {start rest : List Char} {next : Char}

/-- A unit that is written in four digits is read. -/
theorem readUnit_hex {unit : Nat} (fits : unit < 0x10000) :
    readUnit start (Text.hex 4 unit ++ next :: rest) = .ok (unit, next :: rest) := by
  rw [Text.hex_four]
  simp only [List.cons_append, List.nil_append, readUnit, hexUnit?_hex fits]

/-- The escape of a second half is read as one. -/
theorem readLowHalf_unitEscape {unit : Nat} (fits : unit < 0x10000)
    (low : isLowSurrogate unit = true) :
    readLowHalf (Text.unitEscape unit ++ next :: rest) = .ok (some unit, next :: rest) := by
  rw [Text.unitEscape, Text.hex_four]
  simp only [List.cons_append, List.nil_append, readLowHalf, hexUnit?_hex fits, low, if_true]

/-- The first halves by their values. -/
theorem isHighSurrogate_iff {unit : Nat} :
    isHighSurrogate unit ↔ 0xd800 ≤ unit ∧ unit < 0xdc00 := by
  simp [isHighSurrogate]

/-- The second halves by their values. -/
theorem isLowSurrogate_iff {unit : Nat} : isLowSurrogate unit ↔ 0xdc00 ≤ unit ∧ unit < 0xe000 := by
  simp [isLowSurrogate]

/-- No character is a surrogate. -/
theorem not_surrogate (c : Char) : ¬isHighSurrogate c.toNat ∧ ¬isLowSurrogate c.toNat := by
  have valid : c.toNat < 0xd800 ∨ 0xdfff < c.toNat ∧ c.toNat < 0x110000 := c.valid
  rw [isHighSurrogate_iff, isLowSurrogate_iff]
  omega

/-- A character of the basic plane is read from its code unit. -/
theorem readUnicode_basic {c : Char} (basic : c.toNat < 0x10000) :
    readUnicode start (Text.hex 4 c.toNat ++ next :: rest) = .ok (c, next :: rest) := by
  obtain ⟨notHigh, notLow⟩ := not_surrogate c
  have same : unitChar c.toNat = c := by
    rw [unitChar, if_neg (by simp [notHigh, notLow])]
    exact Char.ofNat_toNat c
  rw [readUnicode, readUnit_hex basic]
  dsimp only [bind, Except.bind]
  rw [if_neg notHigh, same]
  rfl

/-- Two surrogates are read as one character. -/
theorem readUnicode_surrogates {high low : Nat} (isHigh : isHighSurrogate high)
    (isLow : isLowSurrogate low) :
    readUnicode start (Text.hex 4 high ++ (Text.unitEscape low ++ next :: rest)) =
      .ok (pairChar high low, next :: rest) := by
  obtain ⟨-, highFits⟩ := isHighSurrogate_iff.mp isHigh
  obtain ⟨-, lowFits⟩ := isLowSurrogate_iff.mp isLow
  have lowHalf : readLowHalf (Text.unitEscape low ++ next :: rest) =
      .ok (some low, next :: rest) :=
    readLowHalf_unitEscape (Nat.lt_of_lt_of_le lowFits (by decide)) isLow
  rw [Text.unitEscape, List.cons_append] at lowHalf ⊢
  rw [readUnicode, readUnit_hex (Nat.lt_of_lt_of_le highFits (by decide))]
  dsimp only [bind, Except.bind]
  rw [if_pos isHigh, lowHalf]
  rfl

/-- A character beyond the basic plane has two surrogates. -/
theorem surrogates_of_beyond {c : Char} (beyond : 0x10000 ≤ c.toNat) :
    isHighSurrogate (0xd800 + (c.toNat - 0x10000) / 0x400) ∧
      isLowSurrogate (0xdc00 + (c.toNat - 0x10000) % 0x400) ∧
      pairChar (0xd800 + (c.toNat - 0x10000) / 0x400) (0xdc00 + (c.toNat - 0x10000) % 0x400) =
        c := by
  have valid : c.toNat < 0xd800 ∨ 0xdfff < c.toNat ∧ c.toNat < 0x110000 := c.valid
  refine ⟨isHighSurrogate_iff.mpr (by omega), isLowSurrogate_iff.mpr (by omega), ?_⟩
  have code : 0x10000 + (0xd800 + (c.toNat - 0x10000) / 0x400 - 0xd800) * 0x400 +
      (0xdc00 + (c.toNat - 0x10000) % 0x400 - 0xdc00) = c.toNat := by
    omega
  rw [pairChar, code]
  exact Char.ofNat_toNat c

/-! ## Characters -/

section Characters

variable {plain : Char → Bool} {c : Char} {fuel : Nat} {cs left : List Char}
  (later : readTextFrom start fuel (next :: rest) = .ok (cs, left))

include later

/-- A character is read from its letter after a backslash. -/
theorem readTextFrom_shortEscape {escape : List Char} (found : Text.shortEscape? c = some escape) :
    readTextFrom start (fuel + 1) (escape ++ next :: rest) = .ok (c :: cs, left) := by
  unfold Text.shortEscape? at found
  split at found <;> cases found <;>
    simp [readTextFrom, escaped?, later, bind, Except.bind, pure, Except.pure]

/-- A character is read from its code. -/
theorem readTextFrom_codeEscape :
    readTextFrom start (fuel + 1) (Text.codeEscape c.toNat ++ next :: rest) =
      .ok (c :: cs, left) := by
  unfold Text.codeEscape
  split
  · next basic =>
      rw [Text.unitEscape, List.cons_append, List.cons_append, readTextFrom,
        readUnicode_basic basic]
      dsimp only [bind, Except.bind]
      rw [later]
      rfl
  · next beyond =>
      dsimp only
      obtain ⟨isHigh, isLow, same⟩ := surrogates_of_beyond (Nat.le_of_not_lt beyond)
      rw [Text.unitEscape, List.append_assoc, List.cons_append, List.cons_append, readTextFrom,
        readUnicode_surrogates isHigh isLow, same]
      dsimp only [bind, Except.bind]
      rw [later]
      rfl

/-- A character is read from what is written for it. -/
theorem readTextFrom_escapeChar (visible : plain c → 32 ≤ c.toNat) :
    readTextFrom start (fuel + 1) (Text.escapeChar plain c ++ next :: rest) =
      .ok (c :: cs, left) := by
  unfold Text.escapeChar
  split
  · next found => exact readTextFrom_shortEscape later found
  · next noShort =>
      split
      · next isPlain =>
          have noControl := Nat.not_lt.mpr (visible isPlain)
          have noQuote : c ≠ '"' := by
            rintro rfl
            cases noShort
          have noBackslash : c ≠ '\\' := by
            rintro rfl
            cases noShort
          rw [List.singleton_append, readTextFrom]
          · rw [if_neg noControl, later]
            rfl
          · exact noQuote
          all_goals simp [noBackslash]
      · exact readTextFrom_codeEscape later

end Characters

/-- What is written for a text is read back as that text. -/
theorem readTextFrom_flatMap {plain : Char → Bool} (visible : ∀ c, plain c → 32 ≤ c.toNat)
    {fuel : Nat} {cs : List Char} (enough : cs.length < fuel) :
    readTextFrom start fuel (cs.flatMap (Text.escapeChar plain) ++ '"' :: rest) =
      .ok (cs, rest) := by
  induction cs generalizing fuel with
  | nil =>
      cases fuel with
      | zero => cases enough
      | succ fuel => rfl
  | cons c cs ih =>
      cases fuel with
      | zero => cases enough
      | succ fuel =>
          have later := ih (Nat.lt_of_succ_lt_succ enough)
          rw [List.flatMap_cons, List.append_assoc]
          cases written : cs.flatMap (Text.escapeChar plain) ++ '"' :: rest with
          | nil => cases List.append_ne_nil_of_right_ne_nil _ (List.cons_ne_nil _ _) written
          | cons next more => exact readTextFrom_escapeChar (written ▸ later) (visible c)

/-- Escaping makes no text shorter. -/
theorem length_le_flatMap (plain : Char → Bool) (cs : List Char) :
    cs.length ≤ (cs.flatMap (Text.escapeChar plain)).length := by
  induction cs with
  | nil => exact Nat.le_refl 0
  | cons c cs ih =>
      have written := List.length_pos_iff.mpr (Text.escapeChar_ne_nil plain c)
      rw [List.flatMap_cons, List.length_append, List.length_cons]
      omega

/-- A text of any characters is read back. -/
theorem readText_flatMap {plain : Char → Bool} (visible : ∀ c, plain c → 32 ≤ c.toNat) {fuel : Nat}
    {content : String} (enough : content.toList.length < fuel) :
    readText fuel (content.toList.flatMap (Text.escapeChar plain) ++ '"' :: rest) =
      .ok (content, rest) := by
  rw [readText, readTextFrom_flatMap visible enough]
  exact congrArg (fun content => Except.ok (content, rest)) (String.ofList_toList)

/-! ## Whole numbers -/

/-- At the start of a text no number goes on: there is no digit, no point and no exponent. -/
def EndsNumber (rest : List Char) : Prop :=
  ∀ c ∈ rest.head?, c.isDigit = false ∧ c ≠ '.' ∧ c ≠ 'e' ∧ c ≠ 'E'

/-- Digits are spanned up to where a number ends. -/
theorem spanDigits_append {digits : List Char} (each : ∀ c ∈ digits, c.isDigit)
    (ends : EndsNumber rest) : spanDigits (digits ++ rest) = (digits, rest) := by
  rw [spanDigits, List.span_eq_takeWhile_dropWhile, List.takeWhile_append_of_pos each,
    List.dropWhile_append_of_pos each]
  cases rest with
  | nil => simp
  | cons c more => simp [(ends c rfl).1]

/-- Where a number ends there is no fraction. -/
theorem spanFraction_of_ends (ends : EndsNumber rest) : spanFraction rest = ([], rest) := by
  unfold spanFraction
  split
  · exact absurd rfl (ends '.' rfl).2.1
  · rfl

/-- Nor is there an exponent. -/
theorem spanExponent_of_ends (ends : EndsNumber rest) : spanExponent rest = (none, rest) := by
  cases rest with
  | nil => rfl
  | cons c more =>
      obtain ⟨-, -, notLower, notUpper⟩ := ends c rfl
      unfold spanExponent
      dsimp only
      rw [if_neg (not_or.mpr ⟨notLower, notUpper⟩)]

/-- Digits after which no number goes on are a whole number, if they are not too many. -/
theorem finishNumber_of_ends {negative : Bool} {whole : List Char} (ends : EndsNumber rest)
    (short : whole.length ≤ Decimal.maxDigits) :
    finishNumber negative whole rest =
      .ok (.int (if negative then -(digitsValue whole : Int) else digitsValue whole), rest) := by
  unfold finishNumber
  rw [spanFraction_of_ends ends]
  dsimp only
  rw [spanExponent_of_ends ends]
  simp [Nat.not_lt.mpr short]

/-- The digits of a number have its value. -/
theorem digitsValue_toDigits (n : Nat) : digitsValue (Nat.toDigits 10 n) = n := by
  rw [digitsValue, Decimal.valueOf, List.foldl_map]
  exact Nat.ofDigitChars_ten_toDigits

/-- The digits of a number other than zero begin with another digit than zero. -/
theorem toDigits_eq_cons {n : Nat} (positive : 0 < n) :
    ∃ first more, Nat.toDigits 10 n = first :: more ∧ first ≠ '0' := by
  induction n using Nat.strongRecOn with
  | ind n ih =>
      by_cases single : n < 10
      · rw [Nat.toDigits_of_lt_base single]
        refine ⟨_, [], rfl, ?_⟩
        have each : ∀ digit < 10, 0 < digit → Nat.digitChar digit ≠ '0' := by decide
        exact each n single positive
      · rw [Nat.toDigits_of_base_le (by decide) (Nat.le_of_not_lt single)]
        obtain ⟨first, more, same, other⟩ := ih (n / 10) (by omega) (by omega)
        exact ⟨first, more ++ [(n % 10).digitChar], by rw [same]; rfl, other⟩

/-- The sign in front of digits. -/
def signText (negative : Bool) : List Char := if negative then ['-'] else []

/-- The digits of a number are read with the sign in front of them. -/
theorem readNumber_toDigits {negative : Bool} {n : Nat} (ends : EndsNumber rest) :
    readNumber (signText negative ++ (Nat.toDigits 10 n ++ rest)) =
      finishNumber negative (Nat.toDigits 10 n) rest := by
  rcases Nat.eq_zero_or_pos n with rfl | positive
  · cases negative <;> rfl
  · obtain ⟨first, more, same, other⟩ := toDigits_eq_cons positive
    have digits : ∀ c ∈ Nat.toDigits 10 n, c.isDigit := fun c member =>
      Nat.isDigit_of_mem_toDigits (by decide) (by decide) member
    have spans := spanDigits_append digits ends
    rw [same] at digits spans ⊢
    have noSign : first ≠ '-' := by
      rintro rfl
      exact absurd (digits _ List.mem_cons_self) (by decide)
    rw [List.cons_append] at spans ⊢
    unfold readNumber
    -- The sign is told from the first digit, which is no minus.
    split
    next sign unsigned signed =>
      have parts : sign = negative ∧ unsigned = first :: (more ++ rest) := by
        cases negative with
        | true =>
            obtain ⟨rfl, rfl⟩ := Prod.mk.inj signed
            exact ⟨rfl, rfl⟩
        | false =>
            split at signed
            · next starts => exact absurd (List.cons.inj starts).1 noSign
            · obtain ⟨rfl, rfl⟩ := Prod.mk.inj signed
              exact ⟨rfl, rfl⟩
      obtain ⟨rfl, rfl⟩ := parts
      split
      · next starts => exact absurd (List.cons.inj starts).1 other
      · rw [spans]

/-- A whole number is written as its sign and its digits. -/
theorem toList_toString_int (number : Int) :
    (toString number).toList =
      signText (decide (number < 0)) ++ Nat.toDigits 10 number.natAbs := by
  rw [Int.toString_eq_repr, Int.repr_eq_if]
  split
  · next natural =>
      have same : number.toNat = number.natAbs := by omega
      rw [signText, if_neg (by simpa using natural), Nat.toList_repr, same]
      rfl
  · next negative =>
      have sign : decide (number < 0) = true := by simpa using negative
      have same : (-number).toNat = number.natAbs := by omega
      rw [signText, if_pos sign, String.toList_append, Nat.toList_repr, same]
      rfl

/-- A number fits in so many digits if its decimal form does. -/
theorem fitsIn_iff_length {width n : Nat} (positive : 0 < width) :
    Decimal.fitsIn width n ↔ (Nat.toDigits 10 n).length ≤ width := by
  rw [Nat.length_toDigits_le_iff (by decide) positive]
  cases width with
  | zero => cases positive
  | succ width => exact Decimal.fitsIn_succ_iff

/-- A whole number that can be written is read back. -/
theorem readNumber_int {number : Int} (writable : Decimal.isWritable number)
    (ends : EndsNumber rest) :
    readNumber ((toString number).toList ++ rest) = .ok (.int number, rest) := by
  have short : (Nat.toDigits 10 number.natAbs).length ≤ Decimal.maxDigits :=
    (fitsIn_iff_length (by decide)).mp writable
  rw [toList_toString_int, List.append_assoc, readNumber_toDigits ends,
    finishNumber_of_ends ends short, digitsValue_toDigits]
  have same : (if decide (number < 0) then -(number.natAbs : Int) else number.natAbs) = number := by
    simp only [decide_eq_true_iff]
    omega
  rw [same]

end Json

end OpenApi
