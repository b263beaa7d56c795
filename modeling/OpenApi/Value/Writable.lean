import OpenApi.Decimal.Numeral
import OpenApi.Value

/-!
# Writable values

A value can be written in any format if each of its whole numbers has a decimal form that is not too
long.
-/

namespace OpenApi

/-- Whether a scalar can be written. -/
def Scalar.isWritable : Scalar → Bool
  | .int number => Decimal.isWritable number
  | .null | .bool _ | .float _ | .text _ => true

namespace Value

mutual

/-- Whether a value can be written. -/
def isWritable : Value → Bool
  | scalar content => content.isWritable
  | list items => areWritable items
  | map entries => entriesWritable entries

/-- Whether all items of a list can be written. -/
def areWritable : List Value → Bool
  | [] => true
  | item :: rest => item.isWritable && areWritable rest

/-- Whether all keys and values of a mapping can be written. -/
def entriesWritable : Mapping → Bool
  | [] => true
  | (key, item) :: rest => key.isWritable && item.isWritable && entriesWritable rest

end

end Value

end OpenApi
