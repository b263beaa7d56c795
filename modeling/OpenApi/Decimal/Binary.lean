/-!
# Binary floating-point numbers

A double is read apart into its sign, mantissa and exponent, so that everything else about it is
exact arithmetic on whole numbers.
-/

namespace OpenApi.Decimal

/-- What a double stands for.  The magnitude of a finite one is `mantissa * 2 ^ exponent`; `narrow`
tells that its lower neighbour is only half as far away as its upper one. -/
inductive Binary where
  | notANumber
  | infinite (negative : Bool)
  | finite (negative : Bool) (mantissa : Nat) (exponent : Int) (narrow : Bool)
deriving DecidableEq, Repr

namespace Binary

/-- Read a bit pattern apart: one bit of sign, eleven of exponent, fifty-two of fraction. -/
def ofBits (bits : UInt64) : Binary :=
  let negative := bits >>> 63 == 1
  let biased := ((bits >>> 52) &&& 0x7ff).toNat
  let fraction := (bits &&& 0xfffffffffffff).toNat
  if biased = 0x7ff then
    if fraction = 0 then infinite negative else notANumber
  else if biased = 0 then finite negative fraction (-1074) false
  else finite negative (fraction + Nat.pow 2 52) ((biased : Int) - 1075) (fraction = 0 ∧ 1 < biased)

/-- Read a double apart. -/
def ofFloat (x : Float) : Binary := ofBits x.toBits

/-- The whole number that a double is, if it is one. -/
def toInt? : Binary → Option Int
  | finite negative mantissa exponent _ =>
    let signed (n : Nat) : Int := if negative then -(n : Int) else n
    if 0 ≤ exponent then some (signed (mantissa * Nat.pow 2 exponent.toNat))
    else
      let unit := Nat.pow 2 (-exponent).toNat
      if mantissa % unit = 0 then some (signed (mantissa / unit)) else none
  | _ => none

end Binary

end OpenApi.Decimal
