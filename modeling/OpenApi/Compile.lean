import OpenApi.Compile.Record
import OpenApi.Dialect
import OpenApi.Identifier
import OpenApi.Value.Writable

/-!
# Compiling schemas

A schema becomes a type of a dialect.  Compiling a part gives its type together with the definitions
it brings along, and the whole gathers them; names given on the way are passed on, so that no two
definitions get the same.

Everything here but the last step is written against a given way of compiling the parts of a schema.
Tying the knot needs care, since copied fields may hold the record that copies them: such a schema has
no finite type, and compiling it ends in a fault.
-/

namespace OpenApi

/-- A way of compiling a schema, given a name for the case that it becomes a definition. -/
abbrev Compiling := Schema → String → Scope → Traced Compiled

namespace Dialect

variable (dialect : Dialect)

/-- The type of all values. -/
def anything : Compiled := dialect.unknown.combine []

/-- Put a description into a type, where the dialect has a place for it and there is one to put. -/
def describe (schema : Schema) (compiled : Compiled) : Compiled :=
  match dialect.described, schema.description with
  | some described, some description =>
    if description = "" then compiled
    else (described compiled.expression description).combine [compiled]
  | _, _ => compiled

/-- Compile a part of a schema, with its description. -/
def compilePart (compile : Compiling) (schema : Schema) (hint : String) (scope : Scope) :
    Traced Compiled :=
  (compile schema hint scope).andThen fun compiled => .answer (dialect.describe schema compiled)

/-- Compile parts from left to right; the names of the definitions that one brings along are taken
for the next. -/
def compileParts (compile : Compiling) :
    List (Schema × String) → Scope → Traced (List Compiled)
  | [], _ => .answer []
  | (schema, hint) :: rest, scope =>
    (dialect.compilePart compile schema hint scope).andThen fun compiled =>
      (compileParts compile rest (scope.taking compiled.auxiliaryNames)).andThen fun others =>
        .answer (compiled :: others)

/-- The scope after some parts were compiled. -/
def scopeAfter (scope : Scope) (compiled : List Compiled) : Scope :=
  compiled.foldl (fun scope part => scope.taking part.auxiliaryNames) scope

/-- The use of a schema. -/
def compileReference (pointer : String) (scope : Scope) : Compiled :=
  match Reference.schemaName? pointer with
  | none => dialect.anything
  | some name =>
    let spelled := (dialect.reference (scope.emittedName name)).combine []
    { spelled with type := { spelled.type with references := .singleton name } }

/-- The properties of a record under their names.  A key that is no text is no name. -/
def namedProperties : List (Scalar × Schema) → Except Fault (List (String × Schema))
  | [] => .ok []
  | (.text key, property) :: rest => do
    let rest ← namedProperties rest
    return (key, property) :: rest
  | _ :: _ => .error .nameNotText

/-- A compiled property and the field that it becomes. -/
def field (required : List Scalar) (property : String × Schema) (compiled : Compiled) :
    Field × Compiled :=
  let needed := required.any (Scalar.same (.text property.1))
  let compiled :=
    if needed then compiled else (dialect.optional compiled.expression).combine [compiled]
  (⟨property.1, compiled.expression, needed, property.2.description⟩, compiled)

/-- Build a record from its compiled fields and parts and the emitted names of its bases. -/
def assemble (name : String) (fields : List (Field × Compiled)) (bases : List String)
    (extras : List Compiled) (additional : Additional Compiled) : Traced Compiled :=
  let stated : Additional String :=
    match additional with
    | .values content => .values content.expression
    | .allowed permitted => .allowed permitted
    | .unstated => .unstated
  let spelled :=
    dialect.record ⟨name, fields.map (·.1), bases, extras.map (·.expression), stated⟩
  let further :=
    match additional with
    | .values content => [content]
    | _ => []
  let parts := fields.map (·.2) ++ if dialect.fieldsOnly then [] else extras ++ further
  let combined := spelled.combine parts
  let record : Compiled :=
    { combined with
      type :=
        { combined.type with
          references := (NameSet.ofList bases) ∪ combined.type.references
          kind := .object
          fields := fields.map (·.1)
          bases } }
  if dialect.fieldsOnly && !extras.isEmpty then ⟨[.partsLeftOut extras.length name], .ok record⟩
  else .answer record

def compileRecord (compile : Compiling) (schema : Schema) (name : String) (scope : Scope) :
    Traced Compiled :=
  (flatten scope dialect.nominalBases [] schema).andThen fun flat =>
  (Traced.ofExcept (namedProperties flat.properties)).andThen fun properties =>
  let hinted := properties.map fun property =>
    (property.2, name ++ Identifier.pascalCase property.1)
  (dialect.compileParts compile hinted scope).andThen fun compiled =>
  let scope := scopeAfter scope compiled
  let fields := List.zipWith (dialect.field flat.required) properties compiled
  let parts := flat.extras.zipIdx.map fun extra => (extra.1, s!"{name}Part{extra.2 + 1}")
  (dialect.compileParts compile parts scope).andThen fun extras =>
  let scope := scopeAfter scope extras
  let bases := flat.bases.map scope.emittedName
  match flat.additional with
  | .values content =>
    (dialect.compilePart compile content (name ++ "Value") scope).andThen fun values =>
      dialect.assemble name fields bases extras (.values values)
  | .allowed permitted => dialect.assemble name fields bases extras (.allowed permitted)
  | .unstated => dialect.assemble name fields bases extras .unstated

/-- Compile a record that stands inside of another type: in its place if the dialect allows, else as
a definition of its own under a name that is still free. -/
def compileNested (compile : Compiling) (schema : Schema) (hint : String) (scope : Scope) :
    Traced Compiled :=
  if dialect.namesNested then
    let name := Identifier.unique hint scope.taken
    let notices := if name = hint then [] else [Notice.nestedRenamed hint name]
    (⟨notices, .ok ()⟩ : Traced Unit).andThen fun _ =>
    (dialect.compileRecord compile schema name (scope.taking [name])).andThen fun record =>
    let spelled := dialect.reference name
    .answer
      { type :=
          { expression := spelled.text
            references := record.type.references
            imports := record.type.imports.insertAll spelled.imports }
        auxiliary :=
          record.auxiliary ++ [⟨name, record.type, schema.description, true⟩] }
  else dialect.compileRecord compile schema hint scope

/-- Compile a composition: of no branches, of one, of objects, or of alternatives. -/
def compileComposition (compile : Compiling) (schema : Schema) (kind : Composition)
    (branches : List Schema) (hint : String) (scope : Scope) : Traced Compiled :=
  match branches with
  | [] => .answer dialect.anything
  | [branch] => dialect.compilePart compile branch hint scope
  | branches =>
    if kind = .allOf then dialect.compileNested compile schema hint scope
    else
      let hinted := branches.zipIdx.map fun branch => (branch.1, s!"{hint}Option{branch.2 + 1}")
      (dialect.compileParts compile hinted scope).andThen fun compiled =>
        .answer ((dialect.union (compiled.map (·.expression))).combine compiled)

/-- A map from texts to values of a compiled type. -/
def mapOf (values : Compiled) : Compiled :=
  (dialect.stringMap values.expression).combine [values]

/-- Compile a schema, null left aside, given how to compile its parts. -/
def compileCase (compile : Compiling) (schema : Schema) (hint : String) (scope : Scope) :
    Traced Compiled :=
  let listOf (items : Compiled) : Compiled := (dialect.array items.expression).combine [items]
  match schema with
  | .reference _ pointer => .answer (dialect.compileReference pointer scope)
  | .enumeration _ values =>
    if values.all (·.isWritable) then .answer ((dialect.enumeration values).combine [])
    else .fail .numberUnwritable
  | .composition _ kind branches =>
    dialect.compileComposition compile schema kind branches hint scope
  | .primitive _ kind => .answer ((dialect.primitive kind).combine [])
  | .array _ none => .answer (listOf dialect.anything)
  | .array _ (some items) =>
    (dialect.compilePart compile items (hint ++ "Item") scope).andThen fun items =>
      .answer (listOf items)
  | .object _ (some _) _ _ => dialect.compileNested compile schema hint scope
  | .object _ none _ (.values content) =>
    (dialect.compilePart compile content (hint ++ "Value") scope).andThen fun values =>
      .answer (dialect.mapOf values)
  | .object _ none _ _ => .answer (dialect.mapOf dialect.anything)
  | .unknown _ => .answer dialect.anything

/-- Add null to a type if the schema has it among its values. -/
def withNull (schema : Schema) (compiled : Compiled) : Compiled :=
  if schema.nullable then (dialect.nullable compiled.expression).combine [compiled] else compiled

/-- Compile a schema whose parts are nested at most so deep. -/
def compileWithin : Nat → Compiling
  | 0, _, _, _ => .fail .endlessCopy
  | depth + 1, schema, hint, scope =>
    (dialect.compileCase (compileWithin depth) schema hint scope).andThen fun compiled =>
      .answer (dialect.withNull schema compiled)

/-- A bound on the number of schemas in the scope.  A raw schema is read as a schema, and at most two
more if its branches stand next to properties. -/
def schemaBound (scope : Scope) : Nat := 3 * Value.sizeEntries scope.schemas

/-- Compile the schema of a definition.  No part can be nested deeper than there are schemas, unless
one comes up inside of itself and compiling would never end. -/
def compile (name : String) (schema : Schema) (scope : Scope) : Traced Compiled :=
  let parts := dialect.compileWithin (schema.size + schemaBound scope + 1)
  if schema.isRecord then dialect.compileRecord parts schema name scope
  else parts schema name scope

end Dialect

end OpenApi
