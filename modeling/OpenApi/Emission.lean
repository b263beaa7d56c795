import OpenApi.Compile
import OpenApi.Document.Selection
import OpenApi.Target

/-!
# Emission

From a document to the text of a module: schemas are selected, named, compiled in dependency order and
written.  Each definition sees the definitions before it, and the names of the records that it brings
along are taken for all later ones.
-/

namespace OpenApi.Emission

/-! ## Names -/

/-- Whether a name declares an identifier that is in use. -/
def clashes (dialect : Dialect) (used : NameSet) (name : String) : Bool :=
  (dialect.identifiers name).any fun identifier => identifier ∈ used

/-- The name under which a schema is emitted: its own if that declares no identifier in use, else the
first numbered one.  Each identifier in use stands in the way of at most as many numbers as a name
declares identifiers, so one more number is enough. -/
def emittedName (dialect : Dialect) (used : NameSet) (name : String) : String :=
  if clashes dialect used name then
    let tries := (dialect.identifiers name).length * used.toList.length + 1
    (Identifier.firstNumbered? (fun other => !clashes dialect used other) name tries).getD name
  else name

/-- Give every schema the name under which it is emitted, so that all identifiers differ.  `used` are
the identifiers declared so far. -/
def assignNames (dialect : Dialect) (used : NameSet) :
    List Scalar → Traced (List (String × String))
  | [] => .answer []
  | .text name :: rest =>
    let emitted := emittedName dialect used name
    let notices := if emitted = name then [] else [Notice.schemaRenamed name emitted]
    (⟨notices, .ok ()⟩ : Traced Unit).andThen fun _ =>
    (assignNames dialect (used.insertAll (dialect.identifiers emitted)) rest).andThen fun names =>
      .answer ((name, emitted) :: names)
  | _ :: _ => .fail .nameNotText

/-! ## Definitions -/

/-- How far the emission of definitions has come: the names taken, the schemas emitted, and the
definitions so far. -/
structure Progress where
  reserved : NameSet
  emitted : NameSet := ∅
  definitions : List Definition := []

/-- Compile a schema under its emitted name, and put the definitions that it brings along before its
own. -/
def emitSchema (dialect : Dialect) (schemas : Mapping) (names : List (String × String))
    (progress : Progress) (name : String) : Traced Progress :=
  let emitted := (names.lookup name).getD name
  (Traced.ofExcept (Schema.ofValue ((schemas.find? name).getD .null))).andThen fun schema =>
  let scope :=
    Scope.around emitted schemas progress.reserved.toList (some progress.emitted) names
  (dialect.compile emitted schema scope).andThen fun compiled =>
    .answer
      { reserved := progress.reserved.insertAll compiled.auxiliaryNames
        emitted := progress.emitted.insert name
        definitions :=
          progress.definitions ++ compiled.auxiliary ++
            [⟨emitted, compiled.type, schema.description, false⟩] }

/-- Compile schemas one after the other. -/
def emitSchemas (dialect : Dialect) (schemas : Mapping) (names : List (String × String)) :
    Progress → List String → Traced Progress
  | progress, [] => .answer progress
  | progress, name :: rest =>
    (emitSchema dialect schemas names progress name).andThen fun progress =>
      emitSchemas dialect schemas names progress rest

/-- The text among the given scalars. -/
def textNames (names : List Scalar) : List String :=
  names.filterMap fun name =>
    match name with
    | .text name => some name
    | _ => none

/-- The definitions of all schemas, dependencies first. -/
def definitions (dialect : Dialect) (schemas : Mapping) : Traced (List Definition) :=
  (assignNames dialect ∅ (schemas.map (·.1))).andThen fun names =>
  let reserved := (NameSet.ofList schemas.names).insertAll (names.map (·.2))
  let order := textNames (Document.order schemas)
  (emitSchemas dialect schemas names { reserved } order).andThen fun progress =>
    .answer progress.definitions

/-- The module of the schemas that the paths with one of the beginnings need, or of all schemas if
there are no beginnings.  Without schemas there is no module. -/
def emit (target : Target) (doc : Value) (beginnings : List String) : Traced (Option String) :=
  (Traced.ofExcept (Document.schemasFor doc beginnings)).andThen fun schemas =>
  if schemas.isEmpty then ⟨[.nothingToGenerate], .ok none⟩
  else
    (definitions target.dialect schemas).andThen fun definitions =>
    let synthesized := definitions.countP (·.synthesized)
    ⟨[.compiled schemas.length target.dialect.target synthesized],
      .ok (some (target.moduleText definitions))⟩

end OpenApi.Emission
