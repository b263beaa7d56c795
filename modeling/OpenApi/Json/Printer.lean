import OpenApi.Decimal.Layout
import OpenApi.Text.Quoted
import OpenApi.Value

/-!
# Writing JSON

Two forms of a JSON text: in one line with visible ASCII characters only, for values inside of
generated code, and spread over lines with an indent of two, for documents.  Keys that are no texts
are written as the text of the scalar.
-/

namespace OpenApi.Json

/-- Floating-point numbers in JSON texts. -/
def numbers : Decimal.Layout where
  positionalFrom := -4
  positionalBelow := 16
  pointBeforeExponent := false
  exponentWidth := 2
  infinity := "Infinity"
  notANumber := "NaN"

def scalarText (quote : String → String) : Scalar → String
  | .null => "null"
  | .bool true => "true"
  | .bool false => "false"
  | .int number => toString number
  | .float number => numbers.render number
  | .text content => quote content

/-- A key as a JSON text: always quoted. -/
def keyText (quote : String → String) : Scalar → String
  | .text content => quote content
  | other => quote (scalarText quote other)

mutual

/-- A value in one line. -/
def compact : Value → String
  | .scalar content => scalarText Text.quoted content
  | .list items => "[" ++ ", ".intercalate (compactItems items) ++ "]"
  | .map entries => "\x7b" ++ ", ".intercalate (compactEntries entries) ++ "\x7d"

/-- The items of a list, each in one line. -/
def compactItems : List Value → List String
  | [] => []
  | item :: rest => compact item :: compactItems rest

/-- The entries of a mapping, each in one line. -/
def compactEntries : Mapping → List String
  | [] => []
  | (key, item) :: rest =>
    (keyText Text.quoted key ++ ": " ++ compact item) :: compactEntries rest

end

/-- The start of a line at a depth. -/
def newLine (depth : Nat) : String := String.ofList ('\n' :: List.replicate (2 * depth) ' ')

mutual

/-- A value spread over lines, its first line beginning at the given depth. -/
def spread (depth : Nat) : Value → String
  | .scalar content => scalarText Text.quotedWide content
  | .list [] => "[]"
  | .list items =>
    "[" ++ newLine (depth + 1) ++
      ("," ++ newLine (depth + 1)).intercalate (spreadItems (depth + 1) items) ++
      newLine depth ++ "]"
  | .map [] => "\x7b\x7d"
  | .map entries =>
    "\x7b" ++ newLine (depth + 1) ++
      ("," ++ newLine (depth + 1)).intercalate (spreadEntries (depth + 1) entries) ++
      newLine depth ++ "\x7d"

/-- The items of a list, each spread over lines. -/
def spreadItems (depth : Nat) : List Value → List String
  | [] => []
  | item :: rest => spread depth item :: spreadItems depth rest

/-- The entries of a mapping, each spread over lines. -/
def spreadEntries (depth : Nat) : Mapping → List String
  | [] => []
  | (key, item) :: rest =>
    (keyText Text.quotedWide key ++ ": " ++ spread depth item) :: spreadEntries depth rest

end

/-- A document as a JSON text of several lines with a line feed at its end. -/
def document (value : Value) : String := spread 0 value ++ "\n"

end OpenApi.Json
