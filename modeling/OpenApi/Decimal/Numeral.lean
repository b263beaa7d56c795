import OpenApi.Text.Blank
import OpenApi.Text.Numeral
import OpenApi.Text.Quoted

/-!
# Numerals

Whole numbers are of any size, but their decimal form is bounded: one with too many digits is neither
read nor written.  Decimal numbers with a fraction or an exponent are read as the nearest double.

People write numbers in versions and settings with blanks around, a sign in front, decimal digits of
any script, and single underscores between digits.  Whole numbers may be written to other bases than
ten.
-/

namespace OpenApi.Decimal

/-! ## Bounds -/

/-- The most digits that the decimal form of a whole number may have. -/
def maxDigits : Nat := 4300

/-- Whether the decimal form of a number has at most so many digits. -/
def fitsIn : Nat → Nat → Bool
  | 0, _ => false
  | width + 1, n => n < 10 || fitsIn width (n / 10)

/-- Whether a whole number can be written in decimal. -/
def isWritable (n : Int) : Bool := fitsIn maxDigits n.natAbs

/-- The numbers of at most so many digits are those below that power of ten. -/
theorem fitsIn_succ_iff {width n : Nat} :
    fitsIn (width + 1) n = true ↔ n < Nat.pow 10 (width + 1) := by
  induction width generalizing n with
  | zero => simp [fitsIn]
  | succ width ih =>
    have power : Nat.pow 10 (width + 1 + 1) = Nat.pow 10 (width + 1) * 10 := rfl
    have positive : 0 < Nat.pow 10 width := Nat.pow_pos (by decide)
    have larger : Nat.pow 10 (width + 1) = Nat.pow 10 width * 10 := rfl
    rw [fitsIn, Bool.or_eq_true, ih, decide_eq_true_iff, power]
    omega

/-! ## Digits -/

/-- The double nearest to `digits * 10 ^ exponent`.  Exponents beyond the range of doubles are settled
by the position of the leading digit alone, so that a short text never asks for an enormous power of
ten. -/
def nearest (digits : Nat) (exponent : Int) : Float :=
  let leading := (Nat.toDigits 10 digits).length + exponent
  if digits = 0 then 0
  else if 310 < leading then 1 / 0
  else if leading < -330 then 0
  else if 0 ≤ exponent then Float.ofScientific digits false exponent.toNat
  else Float.ofScientific digits true (-exponent).toNat

/-- The value of a run of decimal digits. -/
def valueOf (digits : List Nat) : Nat :=
  digits.foldl (fun value digit => 10 * value + digit) 0

/-! ## Written numbers -/

/-- The blanks that may stand around a numeral: all but the information separators. -/
def isOuterBlank (c : Char) : Bool :=
  Text.isBlank c && !(0x1c ≤ c.toNat && c.toNat ≤ 0x1f)

/-- A character with its digits turned into ASCII ones. -/
def asciiDigit (c : Char) : Char :=
  match Text.decimalValue? c with
  | some value => Char.ofNat (48 + value)
  | none => c

/-- A numeral without the blanks around it and with ASCII digits. -/
def bare (cs : List Char) : List Char :=
  (((cs.dropWhile isOuterBlank).reverse.dropWhile isOuterBlank).reverse).map asciiDigit

/-- A numeral without its underscores, each of which must stand between two digits.  `afterDigit`
tells whether a digit comes before. -/
def ungrouped? (afterDigit : Bool) : List Char → Option (List Char)
  | [] => some []
  | '_' :: rest =>
    match rest with
    | next :: _ => if afterDigit && next.isDigit then ungrouped? false rest else none
    | [] => none
  | c :: rest => (ungrouped? c.isDigit rest).map (c :: ·)

/-- A sign and what it is in front of. -/
def signed : List Char → Bool × List Char
  | '-' :: rest => (true, rest)
  | '+' :: rest => (false, rest)
  | cs => (false, cs)

def valueIn (base : Nat) (digits : List Char) : Nat :=
  digits.foldl (fun value c => base * value + (Text.hexValue? c).getD 0) 0

/-- Whether a character is a digit of a base of at most sixteen. -/
def isDigitOf (base : Nat) (c : Char) : Bool := (Text.hexValue? c).any fun value => value < base

/-- The letter that marks a base after a zero. -/
def baseLetter? : Nat → Option Char
  | 2 => some 'b'
  | 8 => some 'o'
  | 16 => some 'x'
  | _ => none

/-- Digits without the mark of their base in front of them, if they have it. -/
def afterBaseMark (base : Nat) (cs : List Char) : List Char :=
  match cs with
  | '0' :: letter :: digits => if baseLetter? base = some letter.toLower then digits else cs
  | _ => cs

/-- The sign and the digits of the whole number that a text writes to a base. -/
def wholeDigits? (base : Nat) (cs : List Char) : Option (Bool × List Char) := do
  let (negative, unsigned) := signed (← ungrouped? false (bare cs))
  let digits := afterBaseMark base unsigned
  if digits.isEmpty || !digits.all (isDigitOf base) then none else some (negative, digits)

/-- The whole number of a sign and of digits to a base. -/
def wholeOf (base : Nat) (negative : Bool) (digits : List Char) : Int :=
  if negative then -(valueIn base digits : Int) else valueIn base digits

/-- The whole number that a text writes in decimal. -/
def integer? (cs : List Char) : Option Int := do
  let (negative, digits) ← wholeDigits? 10 cs
  if maxDigits < digits.length then none else some (wholeOf 10 negative digits)

/-- The names of numbers that have no digits. -/
def namedFloat? (cs : List Char) : Option Float :=
  match String.ofList (cs.map Char.toLower) with
  | "inf" | "infinity" => some (1 / 0)
  | "nan" => some (0 / 0)
  | _ => none

/-- The number that digits write, with an optional fraction and an optional exponent. -/
def digitsFloat? (cs : List Char) : Option Float := do
  let (whole, afterWhole) := cs.span Char.isDigit
  let (fraction, afterFraction) :=
    match afterWhole with
    | '.' :: rest => rest.span Char.isDigit
    | rest => ([], rest)
  if whole.isEmpty && fraction.isEmpty then none
  else
    let value (exponent : Int) : Float :=
      nearest (valueIn 10 (whole ++ fraction)) (exponent - fraction.length)
    match afterFraction with
    | [] => some (value 0)
    | letter :: rest =>
      let (negative, digits) := signed rest
      if letter.toLower ≠ 'e' || digits.isEmpty || !digits.all Char.isDigit then none
      else some (value (if negative then -(valueIn 10 digits : Int) else valueIn 10 digits))

/-- The floating-point number that a text writes. -/
def float? (cs : List Char) : Option Float := do
  let (negative, magnitude) := signed (← ungrouped? false (bare cs))
  let value ← (namedFloat? magnitude).or (digitsFloat? magnitude)
  return if negative then -value else value

end OpenApi.Decimal
