import OpenApi.Dialect
import OpenApi.Identifier
import OpenApi.Text.Quoted
import OpenApi.Value.Literal

/-!
# TypedDict classes

The spellings of Python's TypedDict: every record is a class, nested ones included, bases are
inherited, and other types are annotations that need names from the typing library.
-/

namespace OpenApi.TypedDict

/-- The annotation of a primitive type. -/
def primitive : Primitive → String
  | .string => "str"
  | .integer => "int"
  | .number => "float"
  | .boolean => "bool"

/-- A listed value: truth values and numbers as their literals, texts between double quotes, and
anything else as the quoted text of its literal. -/
def literal : Value → String
  | .bool truth => (Scalar.bool truth).literal
  | .int number => (Scalar.int number).literal
  | .float number => (Scalar.float number).literal
  | .text content => Text.quoted content
  | other => Text.quoted other.literal

def generic (name : String) (arguments : List String) : String :=
  name ++ "[" ++ ", ".intercalate arguments ++ "]"

/-- The annotation of listed values. -/
def enumeration (values : List Value) : Spelling :=
  if values.isEmpty then ⟨"Never", ["Never"]⟩
  else ⟨generic "Literal" (values.map literal), ["Literal"]⟩

/-- The annotation of several types, each taken once; a single one stands for itself. -/
def union (branches : List String) : Spelling :=
  match branches.eraseDups with
  | [member] => ⟨member, []⟩
  | members => ⟨generic "Union" members, ["Union"]⟩

/-- The use of a class, quoted so that classes may refer to later ones. -/
def reference (name : String) : String := "\"" ++ Identifier.ofName name ++ "\""

/-- The helper class that holds the fields of a class whose keys are no identifiers. -/
def fieldsName (name : String) : String := "_" ++ Identifier.ofName name ++ "Fields"

def dialect : Dialect where
  target := "typed-dict"
  namesNested := true
  nominalBases := true
  fieldsOnly := true
  identifiers name := [Identifier.ofName name, fieldsName name]
  unknown := ⟨"Any", ["Any"]⟩
  primitive kind := ⟨primitive kind, []⟩
  reference name := ⟨reference name, []⟩
  enumeration := enumeration
  array items := ⟨generic "list" [items], []⟩
  stringMap values := ⟨generic "dict" ["str", values], []⟩
  union := union
  nullable inner := ⟨generic "Optional" [inner], ["Optional"]⟩
  optional inner := ⟨generic "NotRequired" [inner], ["NotRequired"]⟩
  described := none
  record parts := ⟨Identifier.ofName parts.name, ["TypedDict"]⟩

end OpenApi.TypedDict
