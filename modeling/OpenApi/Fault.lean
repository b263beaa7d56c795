import OpenApi.Text.Printable
import OpenApi.Text.Quoted

/-!
# Faults

Why an operation ends without an answer.  These are conditions that the operations do not guard
against or cannot mend, one case per cause.
-/

namespace OpenApi

/-- The cause for which an operation ends without an answer. -/
inductive Fault where
  /-- A schema name or property key is no text and cannot become an identifier. -/
  | nameNotText
  /-- A path name is no text and has no beginning to compare. -/
  | pathNotText
  /-- The `properties` of a schema are neither a mapping nor empty. -/
  | propertiesNotMapping
  /-- A member of `required` is a list or a mapping. -/
  | requiredNotScalar
  /-- Copying the fields of a base would go on without end. -/
  | endlessCopy
  /-- There is no target of this name. -/
  | unknownTarget (name : String)
  /-- A setting that must be a number is none. -/
  | notANumber (text : String)
  /-- A whole number has more digits than are accepted. -/
  | numeralTooLong (digits : Nat)
  /-- A whole number has more digits than are written. -/
  | numberUnwritable
  /-- An address cannot be asked for. -/
  | addressRejected (reason : String)
  /-- A file name holds the character zero. -/
  | zeroInFileName
  /-- It cannot be told whether anything is at a path. -/
  | lookUpFailed (cause : String)
  /-- What is not part of this library failed in a way of its own: the kind of failure, and its
  wording if it has one. -/
  | foreign (kind : String) (wording : Option String)
deriving DecidableEq, Inhabited, Repr

namespace Text

/-- The character between single quotes that shows in messages: printable characters as they are,
others by their code point. -/
def shownChar (quote : Char) (c : Char) : List Char :=
  if c = quote ∨ c = '\\' then ['\\', c]
  else if c = '\n' then ['\\', 'n']
  else if c = '\r' then ['\\', 'r']
  else if c = '\t' then ['\\', 't']
  else if isPrintable c then [c]
  else if c.toNat < 0x100 then '\\' :: 'x' :: hex 2 c.toNat
  else if c.toNat < 0x10000 then '\\' :: 'u' :: hex 4 c.toNat
  else '\\' :: 'U' :: hex 8 c.toNat

/-- A text as messages show it: between single quotes, or between double quotes if it holds single
quotes and no double ones. -/
def shown (s : String) : String :=
  let quote := if s.toList.contains '\'' && !s.toList.contains '"' then '"' else '\''
  String.ofList (quote :: (s.toList.flatMap (shownChar quote) ++ [quote]))

end Text

namespace Fault

/-- The wording of a fault, for those that have one. -/
def message : Fault → Option String
  | unknownTarget name => some s!"Unknown target '{name}', expected one of zod, typed-dict"
  | notANumber text =>
    let value := Text.shown text
    some s!"could not convert string to float: {value}"
  | numeralTooLong digits =>
    some (s!"Exceeds the limit (4300 digits) for integer string conversion: value has {digits} " ++
      "digits; use sys.set_int_max_str_digits() to increase the limit")
  | numberUnwritable =>
    some ("Exceeds the limit (4300 digits) for integer string conversion; " ++
      "use sys.set_int_max_str_digits() to increase the limit")
  | addressRejected reason => some reason
  | zeroInFileName => some "embedded null byte"
  | lookUpFailed cause => some cause
  | foreign _ wording => wording
  | nameNotText | pathNotText | propertiesNotMapping | requiredNotScalar | endlessCopy => none

end Fault

end OpenApi
