import OpenApi.Dialect
import OpenApi.Identifier
import OpenApi.Json.Printer
import OpenApi.Text.Blank

/-!
# Zod schemas

The spellings of Zod: every type is an expression that builds a schema, nested records stay where they
are, and several bases or parts are intersected.
-/

namespace OpenApi.Zod

/-- The constant that holds the schema of a definition. -/
def schemaName (name suffix : String) : String :=
  Identifier.ofName (Identifier.camelCase name ++ suffix)

/-- The schema of a primitive type. -/
def primitive : Primitive → String
  | .string => "z.string()"
  | .integer => "z.number().int()"
  | .number => "z.number()"
  | .boolean => "z.boolean()"

def call (function : String) (arguments : List String) : String :=
  function ++ "(" ++ ", ".intercalate arguments ++ ")"

/-- Texts between brackets. -/
def bracketed (items : List String) : String := "[" ++ ", ".intercalate items ++ "]"

/-- The schema of listed values: of texts an enumeration, of one other value a literal, of mixed
values a union of literals. -/
def enumeration (values : List Value) : String :=
  let literals := values.map Json.compact
  if values.isEmpty then "z.never()"
  else if values.all fun value => value.text?.isSome then call "z.enum" [bracketed literals]
  else
    match literals with
    | [literal] => call "z.literal" [literal]
    | literals => call "z.union" [bracketed (literals.map fun literal => call "z.literal" [literal])]

/-- The use of a definition, deferred so that definitions may refer to later ones. -/
def reference (suffix name : String) : String := "z.lazy(() => " ++ schemaName name suffix ++ ")"

/-- The object with the own fields of a record and what it states about further properties.  Further
properties are only forbidden where nothing else adds to the object. -/
def body (parts : RecordParts) : String :=
  let members := parts.fields.map fun field => Text.quoted field.name ++ ": " ++ field.expression
  let object :=
    if members.isEmpty then "z.object(\x7b\x7d)"
    else "z.object(\x7b " ++ ", ".intercalate members ++ " \x7d)"
  match parts.additional with
  | .values content => object ++ ".catchall(" ++ content ++ ")"
  | .allowed false =>
    if parts.bases.isEmpty && parts.extras.isEmpty then object ++ ".strict()" else object
  | _ => object

/-- Whether the record states something itself, or has nothing to build on. -/
def hasBody (parts : RecordParts) : Bool :=
  let stated :=
    match parts.additional with
    | .values _ => true
    | _ => false
  !parts.fields.isEmpty || parts.bases.isEmpty || stated

/-- Schemas intersected from left to right. -/
def intersection : List String → String
  | [] => ""
  | first :: rest => first ++ String.join (rest.map fun part => ".and(" ++ part ++ ")")

/-- A record: its bases, its own object and its other parts, intersected. -/
def record (suffix : String) (parts : RecordParts) : String :=
  let own := if hasBody parts then [body parts] else []
  intersection (parts.bases.map (reference suffix) ++ own ++ parts.extras)

/-- The Zod dialect, with constants that end in the given suffix. -/
def dialect (suffix : String) : Dialect where
  target := "zod"
  namesNested := false
  nominalBases := false
  fieldsOnly := false
  identifiers name := [schemaName name suffix, Identifier.ofName name]
  unknown := ⟨"z.unknown()", []⟩
  primitive kind := ⟨primitive kind, []⟩
  reference name := ⟨reference suffix name, []⟩
  enumeration values := ⟨enumeration values, []⟩
  array items := ⟨call "z.array" [items], []⟩
  stringMap values := ⟨call "z.record" ["z.string()", values], []⟩
  union branches := ⟨call "z.union" [bracketed branches], []⟩
  nullable inner := ⟨inner ++ ".nullable()", []⟩
  optional inner := ⟨inner ++ ".optional()", []⟩
  described :=
    some fun inner description =>
      ⟨inner ++ ".describe(" ++ Text.quoted (Text.singleLine description) ++ ")", []⟩
  record parts := ⟨record suffix parts, []⟩

end OpenApi.Zod
