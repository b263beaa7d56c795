/-!
# Quoted text

Text between double quotes, with a backslash before what may not stand there as it is.  The escapes
are those of JSON; a character beyond the basic plane is escaped as a pair of surrogates.
-/

namespace OpenApi.Text

/-- A digit of base sixteen, letters in lower case. -/
def hexDigit (n : Nat) : Char :=
  if n < 10 then Char.ofNat (48 + n) else Char.ofNat (87 + n)

/-- The value of a digit of base sixteen. -/
def hexValue? (c : Char) : Option Nat :=
  let n := c.toNat
  if 48 ≤ n ∧ n ≤ 57 then some (n - 48)
  else if 97 ≤ n ∧ n ≤ 102 then some (n - 87)
  else if 65 ≤ n ∧ n ≤ 70 then some (n - 55)
  else none

/-- The lowest digits of a number in base sixteen, exactly as many as asked for. -/
def hex : Nat → Nat → List Char
  | 0, _ => []
  | width + 1, n => hex width (n / 16) ++ [hexDigit (n % 16)]

/-- The escape of a code unit of sixteen bits. -/
def unitEscape (unit : Nat) : List Char := '\\' :: 'u' :: hex 4 unit

/-- The escape of any code point: one unit in the basic plane, else a surrogate pair. -/
def codeEscape (code : Nat) : List Char :=
  if code < 0x10000 then unitEscape code
  else
    let offset := code - 0x10000
    unitEscape (0xd800 + offset / 0x400) ++ unitEscape (0xdc00 + offset % 0x400)

/-- The escapes that have a letter of their own, and those of the quote and the backslash. -/
def shortEscape? : Char → Option (List Char)
  | '"' => some ['\\', '"']
  | '\\' => some ['\\', '\\']
  | '\n' => some ['\\', 'n']
  | '\r' => some ['\\', 'r']
  | '\t' => some ['\\', 't']
  | '\x08' => some ['\\', 'b']
  | '\x0c' => some ['\\', 'f']
  | _ => none

/-- How a character stands between quotes.  `plain` tells which characters may stand as they are
when they have no short escape. -/
def escapeChar (plain : Char → Bool) (c : Char) : List Char :=
  match shortEscape? c with
  | some escape => escape
  | none => if plain c then [c] else codeEscape c.toNat

/-- The characters from the space to the tilde. -/
def isVisibleAscii (c : Char) : Bool := 32 ≤ c.toNat && c.toNat ≤ 126

/-- Everything but the control characters below the space. -/
def isNotControl (c : Char) : Bool := 32 ≤ c.toNat

/-- A text between quotes. -/
def quotedBy (plain : Char → Bool) (s : String) : String :=
  String.ofList ('"' :: (s.toList.flatMap (escapeChar plain) ++ ['"']))

/-- A text between quotes in which only visible ASCII characters stand. -/
def quoted (s : String) : String := quotedBy isVisibleAscii s

/-- A text between quotes in which every character but the controls may stand. -/
def quotedWide (s : String) : String := quotedBy isNotControl s

/-- As many digits as asked for. -/
@[simp]
theorem length_hex (width n : Nat) : (hex width n).length = width := by
  induction width generalizing n with
  | zero => rfl
  | succ width ih => simp [hex, ih]

end OpenApi.Text
