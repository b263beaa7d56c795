import OpenApi.Decimal.Shortest

/-!
# Layout of numbers

Where the digits of a floating-point number go in a text: which numbers are written positionally,
how an exponent looks, and what stands for the values that are no numbers.  Each text format has one
record of these decisions.
-/

namespace OpenApi.Decimal

/-- The decisions of a text format about floating-point numbers. -/
structure Layout where
  /-- The least exponent of the leading digit that is written positionally. -/
  positionalFrom : Int
  /-- The least exponent of the leading digit that is no longer written positionally. -/
  positionalBelow : Int
  /-- Whether a point stands in every number with an exponent, even after a single digit. -/
  pointBeforeExponent : Bool
  /-- The least number of digits of an exponent. -/
  exponentWidth : Nat
  /-- What stands for infinity. -/
  infinity : String
  /-- What stands for a value that is not a number. -/
  notANumber : String
deriving DecidableEq, Repr

namespace Layout

variable (layout : Layout)

/-- Digits with the point after the leading one and a signed exponent. -/
def scientific (digits : String) (exponent : Int) : String :=
  let head := digits.take 1
  let tail := digits.drop 1
  let fraction :=
    if tail.isEmpty then (if layout.pointBeforeExponent then ".0" else "") else s!".{tail}"
  let sign := if exponent < 0 then "-" else "+"
  let power := toString exponent.natAbs
  let padding := String.ofList (List.replicate (layout.exponentWidth - power.length) '0')
  s!"{head}{fraction}e{sign}{padding}{power}"

/-- Digits with the point at its place and at least one digit on either side of it. -/
def positional (digits : String) (exponent : Int) : String :=
  let zeros (count : Int) : String := String.ofList (List.replicate count.toNat '0')
  if exponent < 0 then s!"0.{zeros (-exponent - 1)}{digits}"
  else
    let whole := digits.take (exponent.toNat + 1)
    let rest := digits.drop (exponent.toNat + 1)
    let filled := zeros (exponent + 1 - digits.length)
    if rest.isEmpty then s!"{whole}{filled}.0" else s!"{whole}.{rest}"

/-- The text of a decimal number. -/
def decimal (d : Scaled) : String :=
  let digits := toString d.digits
  let exponent := d.exponent + digits.length - 1
  if layout.positionalFrom ≤ exponent ∧ exponent < layout.positionalBelow then
    positional digits exponent
  else layout.scientific digits exponent

/-- The text of a double: the fewest digits that identify it, laid out by the record. -/
def render (x : Float) : String :=
  match Binary.ofFloat x with
  | .notANumber => layout.notANumber
  | .infinite negative => if negative then s!"-{layout.infinity}" else layout.infinity
  | .finite negative mantissa exponent narrow =>
    let text := layout.decimal (Magnitude.shortest ⟨mantissa, exponent, narrow⟩)
    if negative then s!"-{text}" else text

end Layout

end OpenApi.Decimal
