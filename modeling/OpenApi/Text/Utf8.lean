import OpenApi.Text.Quoted

/-!
# Text from bytes

Bytes read as UTF-8.  Bytes that are no text are refused with the place of the first flaw: the bytes
that belong to the character begun there, and what is wrong with them.
-/

namespace OpenApi.Text.Utf8

/-- What is wrong with the bytes of a character. -/
inductive FlawCause where
  /-- No character begins with the byte. -/
  | start
  /-- The next byte does not continue the character. -/
  | continuation
  /-- The bytes end inside of the character. -/
  | ended
deriving DecidableEq, Inhabited, Repr

/-- Bytes that are no character, the position of the first of them, and what is wrong. -/
structure Flaw where
  position : Nat
  bytes : List UInt8
  cause : FlawCause
deriving DecidableEq, Inhabited, Repr

/-- The wording of a cause. -/
def FlawCause.message : FlawCause → String
  | start => "invalid start byte"
  | continuation => "invalid continuation byte"
  | ended => "unexpected end of data"

/-- The wording of a flaw.  A single byte is shown, several are told by their positions. -/
def Flaw.message (flaw : Flaw) : String :=
  let place :=
    match flaw.bytes with
    | [byte] =>
      let shown := String.ofList (hex 2 byte.toNat)
      s!"byte 0x{shown} in position {flaw.position}"
    | bytes =>
      let last := flaw.position + bytes.length - 1
      s!"bytes in position {flaw.position}-{last}"
  s!"'utf-8' codec can't decode {place}: {flaw.cause.message}"

/-- A character of which some bytes are still to come. -/
structure Begun where
  /-- The bytes so far. -/
  bytes : List UInt8
  /-- The code point so far. -/
  code : Nat
  /-- How many bytes follow the next one. -/
  afterNext : Nat
  /-- The least and the greatest value that the next byte may have. -/
  least : Nat := 0x80
  greatest : Nat := 0xbf
deriving DecidableEq, Repr

/-- The character that a byte begins.  The bounds of the second byte rule out code points that have a
shorter form, surrogates, and numbers beyond the last code point. -/
def begun? (byte : UInt8) : Option Begun :=
  let n := byte.toNat
  if 0xc2 ≤ n ∧ n ≤ 0xdf then some { bytes := [byte], code := n - 0xc0, afterNext := 0 }
  else if n = 0xe0 then some { bytes := [byte], code := 0, afterNext := 1, least := 0xa0 }
  else if n = 0xed then some { bytes := [byte], code := 0xd, afterNext := 1, greatest := 0x9f }
  else if 0xe1 ≤ n ∧ n ≤ 0xef then some { bytes := [byte], code := n - 0xe0, afterNext := 1 }
  else if n = 0xf0 then some { bytes := [byte], code := 0, afterNext := 2, least := 0x90 }
  else if 0xf1 ≤ n ∧ n ≤ 0xf3 then some { bytes := [byte], code := n - 0xf0, afterNext := 2 }
  else if n = 0xf4 then some { bytes := [byte], code := 4, afterNext := 2, greatest := 0x8f }
  else none

/-- What follows a byte that continues a character. -/
inductive Step where
  | complete (c : Char)
  | more (begun : Begun)
deriving DecidableEq, Repr

/-- Continue a character by a byte, if the byte may follow. -/
def Begun.next? (begun : Begun) (byte : UInt8) : Option Step :=
  let n := byte.toNat
  if begun.least ≤ n ∧ n ≤ begun.greatest then
    let code := begun.code * 64 + (n - 0x80)
    match begun.afterNext with
    | 0 => some (.complete (Char.ofNat code))
    | left + 1 => some (.more { bytes := begun.bytes ++ [byte], code, afterNext := left })
  else none

/-- Read bytes from a position on.  `begun` is the character that the bytes before have begun; it
counts from its first byte. -/
def decodeFrom (position : Nat) (begun : Option Begun) :
    List UInt8 → Except Flaw (List Char)
  | [] =>
    match begun with
    | none => .ok []
    | some begun => .error ⟨position - begun.bytes.length, begun.bytes, .ended⟩
  | byte :: rest =>
    match begun with
    | none =>
      if byte.toNat < 0x80 then
        (decodeFrom (position + 1) none rest).map (Char.ofNat byte.toNat :: ·)
      else
        match begun? byte with
        | some begun => decodeFrom (position + 1) (some begun) rest
        | none => .error ⟨position, [byte], .start⟩
    | some begun =>
      match begun.next? byte with
      | some (.complete c) => (decodeFrom (position + 1) none rest).map (c :: ·)
      | some (.more begun) => decodeFrom (position + 1) (some begun) rest
      | none => .error ⟨position - begun.bytes.length, begun.bytes, .continuation⟩

/-- The text that bytes write. -/
def decode (bytes : List UInt8) : Except Flaw String :=
  (decodeFrom 0 none bytes).map String.ofList

/-- The bytes that write a text. -/
def encode (s : String) : List UInt8 := s.toUTF8.toList

end OpenApi.Text.Utf8
