import OpenApi.Decimal.Layout
import OpenApi.Fault
import OpenApi.Value

/-!
# Literals

The literal form of a value in messages and in generated classes: `None`, `True`, numbers, texts
between single quotes, lists between brackets and mappings between braces.
-/

namespace OpenApi

/-- Floating-point numbers in literals: positional from 0.0001 to below 10^16, otherwise with a
signed exponent of at least two digits. -/
def literalNumbers : Decimal.Layout where
  positionalFrom := -4
  positionalBelow := 16
  pointBeforeExponent := false
  exponentWidth := 2
  infinity := "inf"
  notANumber := "nan"

def Scalar.literal : Scalar → String
  | .null => "None"
  | .bool true => "True"
  | .bool false => "False"
  | .int number => toString number
  | .float number => literalNumbers.render number
  | .text content => Text.shown content

/-- The scalar within a sentence: a text stands as it is, anything else as its literal. -/
def Scalar.plain : Scalar → String
  | .text content => content
  | other => other.literal

/-- What kind of scalar this is, in the words of messages. -/
def Scalar.kindName : Scalar → String
  | .null => "NoneType"
  | .bool _ => "bool"
  | .int _ => "int"
  | .float _ => "float"
  | .text _ => "str"

namespace Value

mutual

def literal : Value → String
  | scalar content => content.literal
  | list items => "[" ++ ", ".intercalate (literalItems items) ++ "]"
  | map entries => "\x7b" ++ ", ".intercalate (literalEntries entries) ++ "\x7d"

def literalItems : List Value → List String
  | [] => []
  | item :: rest => item.literal :: literalItems rest

def literalEntries : Mapping → List String
  | [] => []
  | (key, item) :: rest => (key.literal ++ ": " ++ item.literal) :: literalEntries rest

end

end Value

end OpenApi
