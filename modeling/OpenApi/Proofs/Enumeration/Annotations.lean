import OpenApi.Dialect.TypedDict
import OpenApi.Proofs.Enumeration.Schemas

/-!
# Listed values in annotations

The annotation of listed values holds a literal for each of them.  It is source text of class
modules, so it is read by the rules of their literals (`readListing`): a text is a sequence of
code points, and each escape in it stands for one code point of its own.  Texts are written with the
escapes of JSON, where a character beyond the basic plane is a pair of surrogates.  These stay two
code points in a class module, so a text with such a character is read as another one
(`Literal.spells_iff`).  All other texts, and truth values and whole numbers, are read back.
-/

namespace OpenApi.TypedDict

open Reference (after?)

/-! ## Reading literals -/

/-- A literal: a truth value, a whole number, or a text by its code points. -/
inductive Literal where
  | truth (truth : Bool)
  | number (number : Int)
  | text (codes : List Nat)
deriving DecidableEq, Repr

/-- The number that exactly so many digits of base sixteen are, after the digits before them. -/
def readHex : Nat → Nat → List Char → Option (Nat × List Char)
  | 0, before, rest => some (before, rest)
  | _ + 1, _, [] => none
  | width + 1, before, c :: rest =>
    match Text.hexValue? c with
    | some digit => readHex width (16 * before + digit) rest
    | none => none

/-- The number that up to so many digits of base eight are, after the digits before them. -/
def readOctal : Nat → Nat → List Char → Nat × List Char
  | width + 1, before, c :: rest =>
    if '0' ≤ c ∧ c ≤ '7' then readOctal width (8 * before + (c.toNat - 48)) rest
    else (before, c :: rest)
  | _, before, rest => (before, rest)

/-- The escapes of one letter, and of quotes and the backslash. -/
def letterCode? : Char → Option Nat
  | '\\' => some 92
  | '\'' => some 39
  | '"' => some 34
  | 'a' => some 7
  | 'b' => some 8
  | 'f' => some 12
  | 'n' => some 10
  | 'r' => some 13
  | 't' => some 9
  | 'v' => some 11
  | _ => none

/-- The code points of an escape, from what follows the backslash.  The end of a line is left out
with the backslash before it, and a backslash before any other character stands for itself.
Characters by name are not read. -/
def readEscape : List Char → Option (List Nat × List Char)
  | [] => none
  | '\n' :: rest => some ([], rest)
  | 'x' :: rest => (readHex 2 0 rest).map fun read => ([read.1], read.2)
  | 'u' :: rest => (readHex 4 0 rest).map fun read => ([read.1], read.2)
  | 'U' :: rest =>
    match readHex 8 0 rest with
    | some (code, rest) => if code < 0x110000 then some ([code], rest) else none
    | none => none
  | 'N' :: _ => none
  | c :: rest =>
    match letterCode? c with
    | some code => some ([code], rest)
    | none =>
      if '0' ≤ c ∧ c ≤ '7' then
        let read := readOctal 3 0 (c :: rest)
        some ([read.1], read.2)
      else some ([92, c.toNat], rest)

/-- The code points of a text up to the quote that closes it.  A line must not end before. -/
def readCodes : Nat → List Char → Option (List Nat × List Char)
  | 0, _ => none
  | _ + 1, [] => none
  | _ + 1, '"' :: rest => some ([], rest)
  | fuel + 1, '\\' :: rest =>
    match readEscape rest with
    | some (codes, rest) => (readCodes fuel rest).map fun read => (codes ++ read.1, read.2)
    | none => none
  | fuel + 1, c :: rest =>
    if c = '\n' ∨ c = '\r' ∨ c = '\x00' then none
    else (readCodes fuel rest).map fun read => (c.toNat :: read.1, read.2)

/-- Whether a minus comes first, and what follows it. -/
def splitSign : List Char → Bool × List Char
  | '-' :: rest => (true, rest)
  | cs => (false, cs)

/-- Digits of base ten make a whole number if there are some, but not too many, and no zero leads
another digit. -/
def areInteger (digits : List Char) : Bool :=
  !digits.isEmpty && decide (digits.length ≤ Decimal.maxDigits) &&
    !(digits.head? = some '0' && digits.any (· ≠ '0'))

/-- A whole number, perhaps after a minus. -/
def readInteger (cs : List Char) : Option (Int × List Char) :=
  let (negative, unsigned) := splitSign cs
  let (digits, rest) := Json.spanDigits unsigned
  if areInteger digits then
    let size : Int := Json.digitsValue digits
    some (if negative then -size else size, rest)
  else none

/-- A literal at the start of a text.  Texts between three quotes are not read. -/
def readLiteral (fuel : Nat) : List Char → Option (Literal × List Char)
  | '"' :: '"' :: '"' :: _ => none
  | '"' :: rest => (readCodes fuel rest).map fun read => (.text read.1, read.2)
  | cs =>
    match after? "True".toList cs with
    | some rest => some (.truth true, rest)
    | none =>
      match after? "False".toList cs with
      | some rest => some (.truth false, rest)
      | none => (readInteger cs).map fun read => (.number read.1, read.2)

/-- Literals between commas, up to the bracket that ends the annotation. -/
def readLiterals : Nat → List Char → Option (List Literal)
  | 0, _ => none
  | fuel + 1, cs =>
    match readLiteral fuel cs with
    | none => none
    | some (literal, rest) =>
      match Json.skipSpaces rest with
      | [']'] => some [literal]
      | ',' :: rest => (readLiterals fuel (Json.skipSpaces rest)).map (literal :: ·)
      | _ => none

/-- The literals of an annotation that lists values. -/
def readListing (source : String) : Option (List Literal) :=
  (after? "Literal[".toList source.toList).bind (readLiterals source.toList.length)

/-! ## What literals stand for -/

/-- A literal spells a value, its text character by character in the given code points. -/
inductive Literal.Spells (codesOf : Char → List Nat) : Literal → Value → Prop
  | truth (truth : Bool) : Spells codesOf (.truth truth) (.bool truth)
  | number (number : Int) : Spells codesOf (.number number) (.int number)
  | text (content : String) :
      Spells codesOf (.text (content.toList.flatMap codesOf)) (.text content)

/-- A literal denotes a value: a text has one code point for each of its characters. -/
abbrev Literal.Denotes : Literal → Value → Prop := Spells fun c => [c.toNat]

/-- The code units of a character: a pair of surrogates for one beyond the basic plane. -/
def codeUnits (c : Char) : List Nat :=
  if c.toNat < 0x10000 then [c.toNat]
  else [0xd800 + (c.toNat - 0x10000) / 0x400, 0xdc00 + (c.toNat - 0x10000) % 0x400]

/-- All characters of a value that is a text are in the basic plane. -/
def IsBasic (value : Value) : Prop :=
  ∀ content, value = .text content → ∀ c ∈ content.toList, c.toNat < 0x10000

/-- The code units of a character are its code point exactly if it is in the basic plane. -/
theorem codeUnits_eq_iff {c : Char} : codeUnits c = [c.toNat] ↔ c.toNat < 0x10000 := by
  unfold codeUnits
  split
  · next basic => exact iff_of_true rfl basic
  · next beyond => exact iff_of_false (by simp) beyond

/-- A text is its code units exactly if all its characters are in the basic plane. -/
theorem flatMap_codeUnits_eq_iff {cs : List Char} :
    cs.flatMap codeUnits = cs.flatMap (fun c => [c.toNat]) ↔ ∀ c ∈ cs, c.toNat < 0x10000 := by
  induction cs with
  | nil => simp
  | cons c cs ih =>
      rw [List.flatMap_cons, List.flatMap_cons, List.forall_mem_cons, ← ih]
      by_cases basic : c.toNat < 0x10000
      · rw [codeUnits_eq_iff.mpr basic]
        simp [basic]
      · -- The first surrogate is less than any code point beyond the basic plane.
        refine iff_of_false (fun same => ?_) fun both => basic both.1
        rw [codeUnits, if_neg basic] at same
        have first := (List.cons.inj same).1
        have valid : c.toNat < 0xd800 ∨ 0xdfff < c.toNat ∧ c.toNat < 0x110000 := c.valid
        omega

theorem Literal.spells_text_iff {codesOf : Char → List Nat} {codes : List Nat} {content : String} :
    (Literal.text codes).Spells codesOf (.text content) ↔
      codes = content.toList.flatMap codesOf := by
  constructor
  · intro spells
    cases spells
    rfl
  · rintro rfl
    exact .text content

/-- A literal that spells a value in code units denotes it exactly if the value is no text with a
character beyond the basic plane. -/
theorem Literal.Spells.denotes_iff {literal : Literal} {value : Value}
    (spells : literal.Spells codeUnits value) : literal.Denotes value ↔ IsBasic value := by
  cases spells with
  | truth truth => exact iff_of_true (.truth truth) nofun
  | number number => exact iff_of_true (.number number) nofun
  | text content =>
      have basic : IsBasic (.text content) ↔ ∀ c ∈ content.toList, c.toNat < 0x10000 := by
        simp [IsBasic]
      rw [basic, ← flatMap_codeUnits_eq_iff, Literal.Denotes, spells_text_iff]

/-! ## Texts -/

section Codes

variable {fuel : Nat} {rest : List Char}

theorem readHex_hex {unit : Nat} (fits : unit < 0x10000) :
    readHex 4 0 (Text.hex 4 unit ++ rest) = some (unit, rest) := by
  have digit (n : Nat) : Text.hexValue? (Text.hexDigit (n % 16)) = some (n % 16) :=
    Text.hexValue?_hexDigit _ (Nat.mod_lt _ (by decide))
  rw [Text.hex_four]
  simp only [List.cons_append, List.nil_append, readHex, digit, Option.some.injEq, Prod.mk.injEq,
    and_true]
  omega

/-- An escaped code unit is one code point, be it a surrogate or not. -/
theorem readCodes_unitEscape {unit : Nat} (fits : unit < 0x10000) :
    readCodes (fuel + 1) (Text.unitEscape unit ++ rest) =
      (readCodes fuel rest).map fun read => (unit :: read.1, read.2) := by
  have escape : readEscape ('u' :: (Text.hex 4 unit ++ rest)) = some ([unit], rest) := by
    rw [readEscape, readHex_hex fits]
    rfl
  rw [Text.unitEscape, List.cons_append, List.cons_append, readCodes, escape]
  rfl

/-- What is written for a character is read as its code units. -/
theorem readCodes_escapeChar (c : Char) :
    readCodes (fuel + (codeUnits c).length) (Text.escapeChar Text.isVisibleAscii c ++ rest) =
      (readCodes fuel rest).map fun read => (codeUnits c ++ read.1, read.2) := by
  unfold Text.escapeChar
  split
  · next escape found =>
      unfold Text.shortEscape? at found
      split at found <;> cases found <;> rfl
  · next noShort =>
      split
      · next visible =>
          simp only [Text.isVisibleAscii, Bool.and_eq_true, decide_eq_true_iff] at visible
          have basic : codeUnits c = [c.toNat] := codeUnits_eq_iff.mpr (by omega)
          have noEnd : ¬(c = '\n' ∨ c = '\r' ∨ c = '\x00') := by
            rintro (rfl | rfl | rfl) <;> exact absurd visible.1 (by decide)
          have noQuote : c ≠ '"' := by
            rintro rfl
            cases noShort
          have noBackslash : c ≠ '\\' := by
            rintro rfl
            cases noShort
          rw [basic, List.singleton_append, List.length_singleton, readCodes, if_neg noEnd]
          · rfl
          · exact noQuote
          all_goals simp [noBackslash]
      · unfold Text.codeEscape codeUnits
        split
        · next basic => exact readCodes_unitEscape basic
        · next beyond =>
            have valid : c.toNat < 0xd800 ∨ 0xdfff < c.toNat ∧ c.toNat < 0x110000 := c.valid
            dsimp only
            rw [List.append_assoc, List.length_cons, List.length_singleton, ← Nat.add_assoc,
              readCodes_unitEscape (by omega), readCodes_unitEscape (by omega), Option.map_map]
            rfl

/-- A text is read as its code units. -/
theorem readCodes_flatMap {cs : List Char} (enough : (cs.flatMap codeUnits).length < fuel) :
    readCodes fuel (cs.flatMap (Text.escapeChar Text.isVisibleAscii) ++ '"' :: rest) =
      some (cs.flatMap codeUnits, rest) := by
  induction cs generalizing fuel with
  | nil =>
      obtain ⟨fuel, rfl⟩ : ∃ less, fuel = less + 1 := ⟨fuel - 1, by omega⟩
      rfl
  | cons c cs ih =>
      rw [List.flatMap_cons, List.length_append] at enough
      obtain ⟨fuel, rfl⟩ : ∃ less, fuel = less + (codeUnits c).length :=
        ⟨fuel - (codeUnits c).length, by omega⟩
      rw [List.flatMap_cons, List.append_assoc, readCodes_escapeChar, ih (by omega)]
      rfl

/-- A character is written with at least as many characters as it has code units. -/
theorem length_codeUnits_le (c : Char) :
    (codeUnits c).length ≤ (Text.escapeChar Text.isVisibleAscii c).length := by
  have few : (codeUnits c).length ≤ 2 := by
    unfold codeUnits
    split <;> simp
  unfold Text.escapeChar
  split
  · next escape found =>
      unfold Text.shortEscape? at found
      split at found <;> cases found <;> exact few
  · split
    · next visible =>
        simp only [Text.isVisibleAscii, Bool.and_eq_true, decide_eq_true_iff] at visible
        rw [codeUnits_eq_iff.mpr (by omega)]
        exact Nat.le_refl 1
    · unfold Text.codeEscape
      split
      · exact few.trans (by simp [Text.unitEscape])
      · exact few.trans (by simp [Text.unitEscape])

/-- A text has no more units than characters when escaped, so reading them needs no more steps. -/
theorem length_flatMap_codeUnits_le (cs : List Char) :
    (cs.flatMap codeUnits).length ≤
      (cs.flatMap (Text.escapeChar Text.isVisibleAscii)).length := by
  induction cs with
  | nil => exact Nat.le_refl 0
  | cons c cs ih =>
      rw [List.flatMap_cons, List.flatMap_cons, List.length_append, List.length_append]
      exact Nat.add_le_add (length_codeUnits_le c) ih

end Codes

/-! ## Written literals -/

/-- A text writes a literal: in front of a comma or a bracket the literal is read, and nothing else
is.  It begins with the literal itself. -/
structure Writes (cs : List Char) (literal : Literal) : Prop where
  starts : ∃ first more, cs = first :: more ∧ Json.isSpace first = false
  reads : ∀ {fuel c rest}, c = ',' ∨ c = ']' → cs.length ≤ fuel →
    readLiteral fuel (cs ++ c :: rest) = some (literal, c :: rest)

theorem writes_truth (truth : Bool) : Writes (Scalar.bool truth).literal.toList (.truth truth) := by
  cases truth with
  | true => exact ⟨⟨'T', _, rfl, rfl⟩, fun _ _ => rfl⟩
  | false => exact ⟨⟨'F', _, rfl, rfl⟩, fun _ _ => rfl⟩

/-- Nothing that is written for a character begins with a quote. -/
theorem exists_escapeChar (c : Char) : ∃ first more,
    Text.escapeChar Text.isVisibleAscii c = first :: more ∧ first ≠ '"' := by
  unfold Text.escapeChar
  split
  · next escape found =>
      unfold Text.shortEscape? at found
      split at found <;> cases found <;> exact ⟨_, _, rfl, by decide⟩
  · next noShort =>
      split
      · refine ⟨c, [], rfl, ?_⟩
        rintro rfl
        cases noShort
      · unfold Text.codeEscape Text.unitEscape
        split <;> exact ⟨_, _, rfl, by decide⟩

/-- A text does not open with three quotes, so that it is read up to the one that closes it. -/
theorem readLiteral_quoted {fuel : Nat} {content : String} {c : Char} {rest : List Char}
    (noQuote : c ≠ '"') :
    readLiteral fuel ((Text.quoted content).toList ++ c :: rest) =
      (readCodes fuel (content.toList.flatMap (Text.escapeChar Text.isVisibleAscii) ++
        '"' :: c :: rest)).map fun read => (.text read.1, read.2) := by
  rw [Text.quoted, Json.toList_quotedBy, List.cons_append, List.append_assoc, List.singleton_append]
  cases content.toList with
  | nil =>
      rw [List.flatMap_nil, List.nil_append, readLiteral]
      simp [noQuote]
  | cons first more =>
      obtain ⟨lead, later, written, other⟩ := exists_escapeChar first
      rw [List.flatMap_cons, written, List.append_assoc, List.cons_append, readLiteral]
      simp [other]

theorem writes_text (content : String) :
    Writes (Text.quoted content).toList (.text (content.toList.flatMap codeUnits)) where
  starts := ⟨'"', _, Json.toList_quotedBy content, rfl⟩
  reads {fuel c rest} ends enough := by
    have noQuote : c ≠ '"' := by
      rintro rfl
      exact absurd ends (by decide)
    have units := length_flatMap_codeUnits_le content.toList
    rw [Text.quoted, Json.toList_quotedBy] at enough
    simp only [List.length_cons, List.length_append, List.length_nil] at enough
    rw [readLiteral_quoted noQuote, readCodes_flatMap (by omega)]
    rfl

/-- The sign in front of a digit is read back as it was written. -/
theorem splitSign_signText {negative : Bool} {c : Char} {rest : List Char} (digit : c.isDigit) :
    splitSign (Json.signText negative ++ c :: rest) = (negative, c :: rest) := by
  cases negative with
  | true => rfl
  | false =>
      have noSign : c ≠ '-' := Json.ne_of_isDigit digit rfl
      simp [Json.signText, splitSign, noSign]

theorem areInteger_toDigits {n : Nat} (short : (Nat.toDigits 10 n).length ≤ Decimal.maxDigits) :
    areInteger (Nat.toDigits 10 n) := by
  rcases Nat.eq_zero_or_pos n with rfl | positive
  · decide
  · obtain ⟨first, more, same, other⟩ := Json.toDigits_eq_cons positive
    rw [same] at short ⊢
    simpa [areInteger, other] using short

/-- A whole number is read from its digits and the sign in front of them. -/
theorem readInteger_int {number : Int} {rest : List Char} (writable : Decimal.isWritable number)
    (ends : Json.EndsNumber rest) :
    readInteger ((toString number).toList ++ rest) = some (number, rest) := by
  have short : (Nat.toDigits 10 number.natAbs).length ≤ Decimal.maxDigits :=
    (Json.fitsIn_iff_length (by decide)).mp writable
  have digits : ∀ c ∈ Nat.toDigits 10 number.natAbs, c.isDigit := fun c member =>
    Nat.isDigit_of_mem_toDigits (by decide) (by decide) member
  have signed : splitSign ((toString number).toList ++ rest) =
      (decide (number < 0), Nat.toDigits 10 number.natAbs ++ rest) := by
    rw [Json.toList_toString_int, List.append_assoc]
    cases written : Nat.toDigits 10 number.natAbs with
    | nil => exact absurd written Nat.toDigits_ne_nil
    | cons c more => exact splitSign_signText (digits c (written ▸ List.mem_cons_self))
  unfold readInteger
  rw [signed]
  dsimp only
  rw [Json.spanDigits_append digits ends]
  dsimp only
  rw [if_pos (areInteger_toDigits short), Json.digitsValue_toDigits]
  have same : (if decide (number < 0) then -(number.natAbs : Int) else number.natAbs) = number := by
    simp only [decide_eq_true_iff]
    omega
  rw [same]

/-- A literal is a number if it begins with a digit, perhaps after a sign. -/
theorem readLiteral_eq_readInteger {negative : Bool} {c : Char} {fuel : Nat} {rest : List Char}
    (digit : c.isDigit) :
    readLiteral fuel (Json.signText negative ++ c :: rest) =
      (readInteger (Json.signText negative ++ c :: rest)).map
        fun read => (.number read.1, read.2) := by
  cases negative with
  | true => rfl
  | false =>
      have noQuote : c ≠ '"' := Json.ne_of_isDigit digit rfl
      have noTrue : after? "True".toList (c :: rest) = none :=
        if_neg (Json.ne_of_isDigit digit rfl).symm
      have noFalse : after? "False".toList (c :: rest) = none :=
        if_neg (Json.ne_of_isDigit digit rfl).symm
      rw [Json.signText, if_neg Bool.false_ne_true, List.nil_append, readLiteral, noTrue]
      · dsimp only
        rw [noFalse]
      all_goals simp [noQuote]

theorem writes_number {number : Int} (writable : Decimal.isWritable number) :
    Writes (Scalar.int number).literal.toList (.number number) where
  starts := by
    obtain ⟨first, more, same, stops, -⟩ := (Json.writes_int writable).starts
    exact ⟨first, more, same, stops⟩
  reads {fuel c rest} ends enough := by
    have noNumber : Json.EndsNumber (c :: rest) := by
      rcases ends with rfl | rfl <;> exact Json.endsNumber_cons (by decide)
    have read := readInteger_int writable noNumber
    obtain ⟨digit, more, isDigit, written⟩ := Json.exists_digit number
    rw [Scalar.literal]
    rw [written, List.append_assoc, List.cons_append] at read ⊢
    rw [readLiteral_eq_readInteger isDigit, read]
    rfl

/-- Every value that an enumeration may list is written as a literal that the reader finds again. -/
theorem writes_listed {value : Value} (listed : value.IsListed) :
    ∃ literal, literal.Spells codeUnits value ∧
      Writes (TypedDict.literal value).toList literal := by
  cases listed with
  | text content => exact ⟨_, .text content, writes_text content⟩
  | bool truth => exact ⟨_, .truth truth, writes_truth truth⟩
  | int writable => exact ⟨_, .number _, writes_number writable⟩

/-! ## Annotations -/

/-- What is between the brackets is read literal after literal. -/
theorem readLiterals_intercalate {texts : List (List Char)} {literals : List Literal}
    (each : List.Forall₂ Writes texts literals) (nonempty : texts ≠ []) {fuel : Nat}
    (enough : ([',', ' '].intercalate texts).length < fuel) :
    readLiterals fuel ([',', ' '].intercalate texts ++ [']']) = some literals := by
  induction each generalizing fuel with
  | nil => exact absurd rfl nonempty
  | @cons text literal texts literals writes each ih =>
      obtain ⟨fuel, rfl⟩ : ∃ less, fuel = less + 1 := ⟨fuel - 1, by omega⟩
      cases each with
      | nil =>
          rw [List.intercalate_singleton] at enough ⊢
          rw [readLiterals, writes.reads (.inr rfl) (by omega)]
          rfl
      | @cons second next more others alsoWrites rest =>
          rw [List.intercalate_cons_cons] at enough ⊢
          simp only [List.length_append, List.length_cons] at enough
          have later := ih (List.cons_ne_nil _ _) (show _ < fuel by omega)
          obtain ⟨first, remaining, rfl, stops⟩ := alsoWrites.starts
          obtain ⟨tail, begins⟩ : ∃ tail,
              [',', ' '].intercalate ((first :: remaining) :: more) = first :: tail :=
            ⟨_, List.intercalate_cons_cons_left⟩
          have gap : Json.skipSpaces ([' '] ++ first :: (tail ++ [']'])) =
              first :: (tail ++ [']']) :=
            Json.skipSpaces_append (by simp [Json.isSpace]) stops
          rw [begins, List.cons_append] at later
          rw [begins, List.append_assoc, List.append_assoc, List.cons_append, readLiterals,
            writes.reads (.inl rfl) (by omega)]
          change (readLiterals fuel (Json.skipSpaces ([' '] ++ first :: (tail ++ [']'])))).map
            (literal :: ·) = _
          rw [gap, later]
          rfl

/-- Each value is written as a literal that spells it in code units. -/
theorem exists_literals {values : List Value} (listed : ∀ value ∈ values, value.IsListed) :
    ∃ literals, List.Forall₂ (Literal.Spells codeUnits) literals values ∧
      List.Forall₂ Writes ((values.map literal).map String.toList) literals := by
  induction values with
  | nil => exact ⟨[], .nil, .nil⟩
  | cons value rest ih =>
      rw [List.forall_mem_cons] at listed
      obtain ⟨first, spells, writes⟩ := writes_listed listed.1
      obtain ⟨others, spellsRest, writesRest⟩ := ih listed.2
      exact ⟨first :: others, .cons spells spellsRest, .cons writes writesRest⟩

/-- The annotation of listed values is read as literals that spell them in code units. -/
theorem exists_readListing {values : List Value} (nonempty : values ≠ [])
    (listed : ∀ value ∈ values, value.IsListed) :
    ∃ literals, readListing (enumeration values).text = some literals ∧
      List.Forall₂ (Literal.Spells codeUnits) literals values := by
  obtain ⟨literals, spells, writes⟩ := exists_literals listed
  refine ⟨literals, ?_, spells⟩
  have written : (enumeration values).text.toList = "Literal[".toList ++
      ([',', ' '].intercalate ((values.map literal).map String.toList) ++ [']']) := by
    unfold enumeration
    rw [if_neg (by simpa using nonempty)]
    simp [generic, String.toList_intercalate]
  have enough : ([',', ' '].intercalate ((values.map literal).map String.toList)).length <
      (enumeration values).text.toList.length := by
    rw [written, List.length_append, List.length_append, List.length_singleton]
    omega
  have read := readLiterals_intercalate writes (by simpa using nonempty) enough
  unfold readListing
  rw [written] at read ⊢
  rw [Reference.after?_eq_some_iff.mpr rfl]
  exact read

/-- Literals that spell values in code units denote them exactly if no text among the values has a
character beyond the basic plane. -/
theorem denote_iff {values : List Value} {literals : List Literal}
    (spells : List.Forall₂ (Literal.Spells codeUnits) literals values) :
    List.Forall₂ Literal.Denotes literals values ↔ ∀ value ∈ values, IsBasic value := by
  induction spells with
  | nil => simp
  | cons first rest ih => rw [List.forall₂_cons, List.forall_mem_cons, first.denotes_iff, ih]

/-- **Annotations list their values, but for texts beyond the basic plane.**  The annotation of
texts, truth values and whole numbers is read as one literal for each of them, in order, and each
literal spells its value in code units.  The literals denote the values exactly if every character
of every text is in the basic plane. -/
theorem listing_reads_back_basic (values : List Value) (nonempty : values ≠ [])
    (listed : ∀ value ∈ values, value.IsListed) :
    ∃ literals, readListing (enumeration values).text = some literals ∧
      List.Forall₂ (Literal.Spells codeUnits) literals values ∧
      (List.Forall₂ Literal.Denotes literals values ↔ ∀ value ∈ values, IsBasic value) := by
  obtain ⟨literals, read, spells⟩ := exists_readListing nonempty listed
  exact ⟨literals, read, spells, denote_iff spells⟩

/-- Values of every kind, one of them a text that holds what stands between values, in characters of
the basic plane. -/
def choices : List Value := [.text "a\", (é)]\n", .bool true, .int (-3)]

theorem listing_reads_back_basic_choices :
    choices ≠ [] ∧ (∀ value ∈ choices, value.IsListed) ∧
      ∃ literals, readListing (enumeration choices).text = some literals ∧
        List.Forall₂ Literal.Denotes literals choices := by
  have nonempty : choices ≠ [] := List.cons_ne_nil _ _
  have listed : ∀ value ∈ choices, value.IsListed := by
    simp only [choices, List.forall_mem_cons]
    exact ⟨.text _, .bool true, .int (by decide), by simp⟩
  have basic : ∀ value ∈ choices, IsBasic value := by
    simp [choices, IsBasic]
  obtain ⟨literals, read, -, denotes⟩ := listing_reads_back_basic choices nonempty listed
  exact ⟨nonempty, listed, literals, read, denotes.mpr basic⟩

/-- A text with a character beyond the basic plane is read as another text. -/
theorem not_always_denotes :
    ¬ ∀ values : List Value, values ≠ [] → (∀ value ∈ values, value.IsListed) →
      ∃ literals, readListing (enumeration values).text = some literals ∧
        List.Forall₂ Literal.Denotes literals values := by
  intro claimed
  have listed : ∀ value ∈ [Value.text "😀"], value.IsListed := by
    simpa using .text "😀"
  obtain ⟨literals, read, denotes⟩ := claimed [.text "😀"] (List.cons_ne_nil _ _) listed
  obtain ⟨others, alsoRead, spells⟩ := exists_readListing (List.cons_ne_nil _ _) listed
  obtain rfl := Option.some.inj (read.symm.trans alsoRead)
  have basic := (denote_iff spells).mp denotes (.text "😀") List.mem_cons_self "😀" rfl '😀'
  exact absurd (basic (by decide)) (by decide)

end OpenApi.TypedDict
