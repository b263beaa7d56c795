import OpenApi.Dialect.Zod
import OpenApi.Source.Comment

/-!
# Zod modules

A module of Zod schemas: for every definition a constant that holds its schema and a type inferred
from it.
-/

namespace OpenApi.Source.Zod

/-- The lines before the definitions. -/
def header : List String :=
  ["// Generated by openapi-tools from an OpenAPI document. Do not edit.",
   "import \x7b z \x7d from \"zod\";", ""]

/-- The comment of a definition, if it has a description. -/
def comment (definition : Definition) : List String :=
  match definition.description with
  | some description => if description = "" then [] else blockComment description ""
  | none => []

def definitionLines (suffix : String) (definition : Definition) : List String :=
  let constant := OpenApi.Zod.schemaName definition.name suffix
  comment definition ++
    ["export const " ++ constant ++ " = " ++ definition.type.expression ++ ";",
     "export type " ++ Identifier.ofName definition.name ++ " = z.infer<typeof " ++ constant ++
       ">;"]

def moduleText (suffix : String) (definitions : List Definition) : String :=
  "\n".intercalate
    (header ++ definitions.flatMap fun definition => definitionLines suffix definition ++ [""])

end OpenApi.Source.Zod
