import OpenApi.Decimal.Numeral
import OpenApi.Fault
import OpenApi.Value.Key

/-!
# Reading JSON

A reader that keeps the order of members and tells where a text stops being JSON.  Every function
takes the rest of the text and gives back what it leaves; a complaint names the rest at which it
arises, from which its line and column follow.

Beyond the standard, `NaN`, `Infinity` and `-Infinity` are numbers, and of members with the same name
the last value stands at the first position.
-/

namespace OpenApi.Json

/-- What is wrong at a place of the text. -/
inductive Complaint where
  | byteOrderMark
  | valueExpected
  | nameExpected
  | colonExpected
  | commaExpected
  | textUnterminated
  | controlCharacter
  | unknownEscape
  | unicodeEscape
  | extraData
deriving DecidableEq, Inhabited, Repr

/-- The wording of a complaint. -/
def Complaint.message : Complaint → String
  | byteOrderMark => "Unexpected UTF-8 BOM (decode using utf-8-sig)"
  | valueExpected => "Expecting value"
  | nameExpected => "Expecting property name enclosed in double quotes"
  | colonExpected => "Expecting ':' delimiter"
  | commaExpected => "Expecting ',' delimiter"
  | textUnterminated => "Unterminated string starting at"
  | controlCharacter => "Invalid control character at"
  | unknownEscape => "Invalid \\escape"
  | unicodeEscape => "Invalid \\uXXXX escape"
  | extraData => "Extra data"

/-- Why reading stops: a complaint at a rest of the text, or a whole number of too many digits. -/
inductive Stop where
  | complaint (cause : Complaint) (rest : List Char)
  | numeralTooLong (digits : Nat)
deriving DecidableEq, Repr

def complain {α : Type} (cause : Complaint) (rest : List Char) : Except Stop α :=
  .error (.complaint cause rest)

/-- The characters that may stand between the parts of a JSON text. -/
def isSpace (c : Char) : Bool := c == ' ' || c == '\t' || c == '\n' || c == '\r'

/-- The text after its leading spaces. -/
def skipSpaces (cs : List Char) : List Char := cs.dropWhile isSpace

/-! ## Texts -/

/-- The code unit written by four digits of base sixteen. -/
def hexUnit? (a b c d : Char) : Option Nat := do
  let a ← Text.hexValue? a
  let b ← Text.hexValue? b
  let c ← Text.hexValue? c
  let d ← Text.hexValue? d
  return ((a * 16 + b) * 16 + c) * 16 + d

/-- Whether a code unit begins a surrogate pair. -/
def isHighSurrogate (unit : Nat) : Bool := 0xd800 ≤ unit && unit < 0xdc00

/-- Whether a code unit ends a surrogate pair. -/
def isLowSurrogate (unit : Nat) : Bool := 0xdc00 ≤ unit && unit < 0xe000

/-- The character of a code unit outside of a pair; a lone surrogate stands for no character and is
replaced. -/
def unitChar (unit : Nat) : Char :=
  if isHighSurrogate unit || isLowSurrogate unit then '\ufffd' else Char.ofNat unit

/-- The character of a surrogate pair. -/
def pairChar (high low : Nat) : Char :=
  Char.ofNat (0x10000 + (high - 0xd800) * 0x400 + (low - 0xdc00))

/-- The character that a letter stands for after a backslash. -/
def escaped? : Char → Option Char
  | '"' => some '"'
  | '\\' => some '\\'
  | '/' => some '/'
  | 'b' => some '\x08'
  | 'f' => some '\x0c'
  | 'n' => some '\n'
  | 'r' => some '\r'
  | 't' => some '\t'
  | _ => none

/-- Read the escape of a code unit from after its `u`; `start` is the rest from the `u` on.  At
least one character must follow the digits. -/
def readUnit (start : List Char) : List Char → Except Stop (Nat × List Char)
  | a :: b :: c :: d :: next :: rest =>
    match hexUnit? a b c d with
    | some unit => .ok (unit, next :: rest)
    | none => complain .unicodeEscape start
  | _ => complain .unicodeEscape start

/-- The low half that follows a high surrogate, if another escape does.  Its digits are examined
only if something follows them; an escape that is no low half is left for later. -/
def readLowHalf : List Char → Except Stop (Option Nat × List Char)
  | '\\' :: 'u' :: a :: b :: c :: d :: next :: rest =>
    match hexUnit? a b c d with
    | some unit =>
      if isLowSurrogate unit then .ok (some unit, next :: rest)
      else .ok (none, '\\' :: 'u' :: a :: b :: c :: d :: next :: rest)
    | none => complain .unicodeEscape ('u' :: a :: b :: c :: d :: next :: rest)
  | cs => .ok (none, cs)

/-- Read a character that is written as an escape, from after the `u`. -/
def readUnicode (start cs : List Char) : Except Stop (Char × List Char) := do
  let (unit, rest) ← readUnit start cs
  if isHighSurrogate unit then
    match ← readLowHalf rest with
    | (some low, rest) => return (pairChar unit low, rest)
    | (none, rest) => return (unitChar unit, rest)
  else return (unitChar unit, rest)

/-- Read the rest of a text up to and including its closing quote.  `start` is the rest from the
opening quote on.  The fuel bounds the number of characters. -/
def readTextFrom (start : List Char) :
    Nat → List Char → Except Stop (List Char × List Char)
  | 0, _ => complain .textUnterminated start
  | _, [] => complain .textUnterminated start
  | _, '"' :: rest => .ok ([], rest)
  | _, ['\\'] => complain .textUnterminated start
  | fuel + 1, '\\' :: 'u' :: rest => do
    let (c, rest) ← readUnicode ('u' :: rest) rest
    let (cs, rest) ← readTextFrom start fuel rest
    return (c :: cs, rest)
  | fuel + 1, '\\' :: letter :: rest =>
    match escaped? letter with
    | some c => do
      let (cs, rest) ← readTextFrom start fuel rest
      return (c :: cs, rest)
    | none => complain .unknownEscape ('\\' :: letter :: rest)
  | fuel + 1, c :: rest =>
    if c.toNat < 32 then complain .controlCharacter (c :: rest)
    else do
      let (cs, rest) ← readTextFrom start fuel rest
      return (c :: cs, rest)

/-- Read a text from after its opening quote.  The fuel bounds the number of characters. -/
def readText (fuel : Nat) (cs : List Char) : Except Stop (String × List Char) := do
  let (content, rest) ← readTextFrom ('"' :: cs) fuel cs
  return (String.ofList content, rest)

/-! ## Numbers -/

/-- The digits at the start of a text, and the rest. -/
def spanDigits (cs : List Char) : List Char × List Char := cs.span Char.isDigit

/-- The value of a run of digits. -/
def digitsValue (digits : List Char) : Nat :=
  Decimal.valueOf (digits.map fun c => c.toNat - 48)

/-- The fraction at the start of a text: a point with at least one digit after it. -/
def spanFraction : List Char → List Char × List Char
  | '.' :: rest =>
    match spanDigits rest with
    | ([], _) => ([], '.' :: rest)
    | (digits, rest) => (digits, rest)
  | cs => ([], cs)

/-- The exponent at the start of a text: a letter, perhaps a sign, and at least one digit. -/
def spanExponent (cs : List Char) : Option Int × List Char :=
  match cs with
  | [] => (none, cs)
  | letter :: rest =>
    if letter = 'e' ∨ letter = 'E' then
      let (negative, unsigned) :=
        match rest with
        | '-' :: rest => (true, rest)
        | '+' :: rest => (false, rest)
        | rest => (false, rest)
      match spanDigits unsigned with
      | ([], _) => (none, cs)
      | (digits, rest) =>
        (some (if negative then -(digitsValue digits : Int) else digitsValue digits), rest)
    else (none, cs)

/-- The number with the given sign and whole digits, followed by what may be a fraction and an
exponent. -/
def finishNumber (negative : Bool) (whole rest : List Char) : Except Stop (Value × List Char) :=
  let (fraction, afterFraction) := spanFraction rest
  let (exponent, afterExponent) := spanExponent afterFraction
  if fraction.isEmpty && exponent.isNone then
    if Decimal.maxDigits < whole.length then .error (.numeralTooLong whole.length)
    else
      let value : Int := digitsValue whole
      .ok (.int (if negative then -value else value), rest)
  else
    let value :=
      Decimal.nearest (digitsValue (whole ++ fraction)) (exponent.getD 0 - fraction.length)
    .ok (.float (if negative then -value else value), afterExponent)

/-- Read a number.  Leading zeros are not part of one. -/
def readNumber (cs : List Char) : Except Stop (Value × List Char) :=
  let (negative, unsigned) :=
    match cs with
    | '-' :: rest => (true, rest)
    | _ => (false, cs)
  match unsigned with
  | '0' :: rest => finishNumber negative ['0'] rest
  | _ =>
    match spanDigits unsigned with
    | ([], _) => complain .valueExpected cs
    | (digits, rest) => finishNumber negative digits rest

/-! ## Values -/

mutual

/-- Read a value that begins at the first character. -/
def readValue : Nat → List Char → Except Stop (Value × List Char)
  | 0, cs => complain .valueExpected cs
  | fuel + 1, cs =>
    match cs with
    | '"' :: rest => do
      let (content, rest) ← readText fuel rest
      return (.text content, rest)
    | '[' :: rest =>
      match skipSpaces rest with
      | ']' :: rest => .ok (.list [], rest)
      | rest => do
        let (items, rest) ← readItems fuel rest
        return (.list items, rest)
    | '\x7b' :: rest =>
      match skipSpaces rest with
      | '\x7d' :: rest => .ok (.map [], rest)
      | rest => do
        let (entries, rest) ← readMembers fuel rest
        return (.map (Mapping.ofEntries entries), rest)
    | 'n' :: 'u' :: 'l' :: 'l' :: rest => .ok (.null, rest)
    | 't' :: 'r' :: 'u' :: 'e' :: rest => .ok (.bool true, rest)
    | 'f' :: 'a' :: 'l' :: 's' :: 'e' :: rest => .ok (.bool false, rest)
    | 'N' :: 'a' :: 'N' :: rest => .ok (.float (0 / 0), rest)
    | 'I' :: 'n' :: 'f' :: 'i' :: 'n' :: 'i' :: 't' :: 'y' :: rest => .ok (.float (1 / 0), rest)
    | '-' :: 'I' :: 'n' :: 'f' :: 'i' :: 'n' :: 'i' :: 't' :: 'y' :: rest =>
      .ok (.float (-1 / 0), rest)
    | cs => readNumber cs

/-- Read the items of a list that is not empty, and its closing bracket. -/
def readItems : Nat → List Char → Except Stop (List Value × List Char)
  | 0, cs => complain .valueExpected cs
  | fuel + 1, cs => do
    let (item, rest) ← readValue fuel cs
    match skipSpaces rest with
    | ']' :: rest => return ([item], rest)
    | ',' :: rest => do
      let (items, rest) ← readItems fuel (skipSpaces rest)
      return (item :: items, rest)
    | rest => complain .commaExpected rest

/-- Read the members of a mapping that is not empty, and its closing brace. -/
def readMembers : Nat → List Char → Except Stop (Mapping × List Char)
  | 0, cs => complain .nameExpected cs
  | fuel + 1, cs =>
    match cs with
    | '"' :: rest => do
      let (name, rest) ← readText fuel rest
      match skipSpaces rest with
      | ':' :: rest => do
        let (value, rest) ← readValue fuel (skipSpaces rest)
        match skipSpaces rest with
        | '\x7d' :: rest => return ([(.text name, value)], rest)
        | ',' :: rest => do
          let (entries, rest) ← readMembers fuel (skipSpaces rest)
          return ((.text name, value) :: entries, rest)
        | rest => complain .commaExpected rest
      | rest => complain .colonExpected rest
    | cs => complain .nameExpected cs

end

/-- Read a whole text, with spaces around its value.  Every call of the readers consumes a
character or follows one that does, and a text costs as much as it has characters, so fuel for
two calls a character and two more is enough. -/
def readAll (cs : List Char) : Except Stop Value := do
  if cs.head? = some '\ufeff' then complain .byteOrderMark cs
  else
    let (value, rest) ← readValue (2 * cs.length + 2) (skipSpaces cs)
    match skipSpaces rest with
    | [] => return value
    | rest => complain .extraData rest

/-! ## Places -/

/-- A place of a text: line and column count from one, the offset from zero. -/
structure Place where
  line : Nat
  column : Nat
  offset : Nat
deriving DecidableEq, Inhabited, Repr

def Place.after (before : List Char) : Place where
  line := before.count '\n' + 1
  column := (before.reverse.takeWhile (· ≠ '\n')).length + 1
  offset := before.length

/-- Why a text is not JSON, and where. -/
structure Malformed where
  cause : Complaint
  place : Place
deriving DecidableEq, Inhabited, Repr

/-- The wording of the finding. -/
def Malformed.message (finding : Malformed) : String :=
  let place := finding.place
  let message := finding.cause.message
  s!"{message}: line {place.line} column {place.column} (char {place.offset})"

/-- Read a JSON text: a value, or the first thing that is wrong with it.  The only fault is a whole
number of too many digits. -/
def read (content : String) : Except Fault (Except Malformed Value) :=
  let cs := content.toList
  match readAll cs with
  | .ok value => .ok (.ok value)
  | .error (.complaint cause rest) =>
    .ok (.error ⟨cause, .after (cs.take (cs.length - rest.length))⟩)
  | .error (.numeralTooLong digits) => .error (.numeralTooLong digits)

end OpenApi.Json
