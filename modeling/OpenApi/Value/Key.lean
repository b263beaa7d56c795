import OpenApi.Decimal.Binary
import OpenApi.Keyed
import OpenApi.Value

/-!
# Keys

When two scalars are the same key.  Numbers are compared by value, whatever their form: a whole
number equals the floating-point number of the same value, and the truth values count as one and
zero.  Not-a-number is the same key as itself.
-/

namespace OpenApi

/-- The value by which a number-like key is compared. -/
inductive KeyNumber where
  | whole (number : Int)
  | broken (number : Float)
deriving DecidableEq

/-- The number that a scalar counts as. -/
def Scalar.keyNumber? : Scalar → Option KeyNumber
  | .bool truth => some (.whole (if truth then 1 else 0))
  | .int number => some (.whole number)
  | .float number =>
    match (Decimal.Binary.ofFloat number).toInt? with
    | some whole => some (.whole whole)
    | none => some (.broken number)
  | .null | .text _ => none

/-- Whether two scalars are the same key. -/
def Scalar.same (first second : Scalar) : Bool :=
  match first.keyNumber?, second.keyNumber? with
  | some left, some right => left == right
  | none, none => first == second
  | _, _ => false

/-- A text is the same key as itself and as no other scalar. -/
@[simp]
theorem Scalar.same_text (first second : String) :
    Scalar.same (.text first) (.text second) = (first == second) := by
  rw [Bool.eq_iff_iff]
  simp [Scalar.same, Scalar.keyNumber?]

namespace Mapping

/-- Set a key: a key already present keeps its position and its form. -/
def put (key : Scalar) (value : Value) (entries : Mapping) : Mapping :=
  Keyed.put Scalar.same key value entries

/-- The mapping that remains when later entries overwrite earlier ones of the same key. -/
def ofEntries (entries : Mapping) : Mapping := Keyed.ofEntries Scalar.same entries

end Mapping

/-- Whether the value counts as something: not null, false, zero, or empty. -/
def Value.isSomething : Value → Bool
  | .null => false
  | .bool truth => truth
  | .int number => number != 0
  | .float number => number != 0
  | .text content => content != ""
  | .list items => !items.isEmpty
  | .map entries => !entries.isEmpty

end OpenApi
