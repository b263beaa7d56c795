import OpenApi.Dialect.TypedDict
import OpenApi.Source.Comment

/-!
# TypedDict modules

A module of TypedDict classes and type aliases in dependency order.  A record is written as a class if
its keys are identifiers.  Otherwise it takes the functional form, and if it inherits as well, the
functional form gives a helper class that the record class inherits besides its bases.
-/

namespace OpenApi.Source.TypedDict

/-- The first line of a module. -/
def header : String :=
  "\"\"\"Generated by openapi-tools from an OpenAPI document. Do not edit.\"\"\""

/-- The description of a definition, if it has one that is not empty. -/
def described (description : Option String) : Option String := description.filter (· ≠ "")

/-- The comment before an alias or a functional definition. -/
def comment (definition : Definition) : List String :=
  match described definition.description with
  | some description => lineComment description
  | none => []

/-- The fields with their descriptions, where they have one. -/
def attributes (type : TypeExpr) : List (String × String) :=
  type.fields.filterMap fun field =>
    (described field.description).map fun description => (field.name, description)

def recordDocumentation (definition : Definition) : List String :=
  documentation (described definition.description) (attributes definition.type) classIndent

/-- The first line of a class. -/
def classHeader (name : String) (bases : List String) : String :=
  "class " ++ name ++ "(" ++ ", ".intercalate bases ++ "):"

/-- A record in class form. -/
def classLines (name : String) (bases : List String) (definition : Definition) : List String :=
  let documented := recordDocumentation definition
  let fields := definition.type.fields
  [classHeader name (if bases.isEmpty then ["TypedDict"] else bases)] ++ documented ++
    (if !documented.isEmpty && !fields.isEmpty then [""] else []) ++
    fields.map (fun field => classIndent ++ field.name ++ ": " ++ field.expression) ++
    (if documented.isEmpty && fields.isEmpty then [classIndent ++ "pass"] else [])

/-- A functional definition of the fields of a record. -/
def functional (name : String) (type : TypeExpr) : String :=
  let members := type.fields.map fun field => Text.quoted field.name ++ ": " ++ field.expression
  name ++ " = TypedDict(\"" ++ name ++ "\", \x7b" ++ ", ".intercalate members ++ "\x7d)"

def recordLines (definition : Definition) : List String :=
  let name := Identifier.ofName definition.name
  let bases := definition.type.bases.map Identifier.ofName
  if definition.type.fields.all fun field => Identifier.isIdentifier field.name then
    classLines name bases definition
  else if bases.isEmpty then comment definition ++ [functional name definition.type]
  else
    let fields := OpenApi.TypedDict.fieldsName definition.name
    let documented := recordDocumentation definition
    [functional fields definition.type, "", "", classHeader name (bases ++ [fields])] ++
      if documented.isEmpty then [classIndent ++ "pass"] else documented

def definitionLines (definition : Definition) : List String :=
  match definition.type.kind with
  | .object => recordLines definition
  | .typeAlias =>
    comment definition ++
      [Identifier.ofName definition.name ++ ": TypeAlias = " ++ definition.type.expression]

/-- The library names that a definition needs. -/
def importsOf (definition : Definition) : NameSet :=
  match definition.type.kind with
  | .object => definition.type.imports
  | .typeAlias => definition.type.imports.insert "TypeAlias"

/-- The library names that a module needs. -/
def imports (definitions : List Definition) : NameSet :=
  definitions.foldl (fun names definition => names ∪ importsOf definition) ∅

def moduleText (definitions : List Definition) : String :=
  let names := imports definitions
  let importLine :=
    if names.isEmpty then [] else ["from typing import " ++ ", ".intercalate names.sorted]
  "\n".intercalate
    ([header, ""] ++ importLine ++
      (definitions.flatMap fun definition => ["", ""] ++ definitionLines definition) ++ [""])

end OpenApi.Source.TypedDict
