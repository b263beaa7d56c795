import OpenApi.Fault
import OpenApi.Value.Literal
import OpenApi.Value.Writable
import OpenApi.Version

/-!
# Validation

Whether a value is a usable OpenAPI document.  Structural checks come first; only a document that
passes them is checked against the meta-schema of its version, so that nothing is reported twice.  The
meta-schema check itself is a parameter.
-/

namespace OpenApi

/-- Which checks are made. -/
structure ValidationRules where
  minVersion : String := "3.0.0"
  requireInfo : Bool := true
  requirePathsOrComponents : Bool := true
  checkMetaSchema : Bool := true
deriving DecidableEq, Inhabited, Repr

/-- The meta-schemas of OpenAPI. -/
inductive MetaSchema where
  | v30
  | v31
deriving DecidableEq, Inhabited, Repr

/-- A part of the path to a place in a document. -/
inductive PathPart where
  | key (name : String)
  | index (position : Int)
deriving DecidableEq, Inhabited, Repr

def PathPart.text : PathPart → String
  | key name => name
  | index position => toString position

/-- What a meta-schema check finds at a place of the document. -/
structure Violation where
  message : String
  path : List PathPart := []
deriving DecidableEq, Inhabited, Repr

/-- The result of a meta-schema check: what it found, or why it broke off. -/
inductive MetaReport where
  | complete (violations : List Violation)
  | brokenOff (cause : String)
deriving DecidableEq, Inhabited, Repr

/-- A way of checking documents against the meta-schemas. -/
abbrev MetaCheck := MetaSchema → Value → MetaReport

/-- Something that makes a value unusable as a document. -/
inductive Finding where
  | absent
  | notMapping
  | versionMissing
  | versionNotText
  | versionTooLow (version minimum : String)
  | infoMissing
  | infoNotMapping
  | infoLacks (field : String)
  | noPathsOrComponents
  | pathsNotMapping
  | pathNotText (kind : String)
  | pathWithoutSlash (path : String)
  | itemNotMapping (path : String)
  | componentsNotMapping
  | schemasNotMapping
  | schemaNotMapping (name : Scalar)
  | violated (violation : Violation)
  | checkBrokenOff (cause : String)
deriving DecidableEq, Inhabited, Repr

namespace Finding

/-- The wording of a finding. -/
def message : Finding → String
  | absent => "Specification data is None"
  | notMapping => "Specification data must be a dictionary"
  | versionMissing => "Missing required 'openapi' field"
  | versionNotText => "OpenAPI version must be a string"
  | versionTooLow version minimum =>
    s!"OpenAPI version {version} is below minimum required version {minimum}"
  | infoMissing => "Missing required 'info' section"
  | infoNotMapping => "Info section must be an object"
  | infoLacks field => s!"Info section missing required '{field}' field"
  | noPathsOrComponents => "Specification must have either 'paths' or 'components' section"
  | pathsNotMapping => "Paths section must be an object"
  | pathNotText kind => s!"Path key must be a string, got {kind}"
  | pathWithoutSlash path => s!"Path '{path}' must start with '/'"
  | itemNotMapping path => s!"Path item for '{path}' must be an object"
  | componentsNotMapping => "Components section must be an object"
  | schemasNotMapping => "Component type 'schemas' must be an object"
  | schemaNotMapping name =>
    let shown := name.plain
    s!"Schema '{shown}' must be an object"
  | violated violation =>
    let place := "/".intercalate (violation.path.map (·.text))
    if place = "" then violation.message else s!"{place}: {violation.message}"
  | checkBrokenOff cause => s!"Meta-schema validation failed: {cause}"

/-- Whether a finding can be worded: the name in it must be one that can be written. -/
def isWritable : Finding → Bool
  | schemaNotMapping name => name.isWritable
  | _ => true

end Finding

namespace Validation

/-- What is wrong with the version. -/
def versionFindings (rules : ValidationRules) (entries : Mapping) : List Finding :=
  match entries.find? "openapi" with
  | none => [.versionMissing]
  | some (.text version) =>
    if Version.supported version rules.minVersion then []
    else [.versionTooLow version rules.minVersion]
  | some _ => [.versionNotText]

/-- What is wrong with the info section. -/
def infoFindings (entries : Mapping) : List Finding :=
  match entries.find? "info" with
  | none => [.infoMissing]
  | some (.map info) =>
    (["title", "version"].filter fun field => !Mapping.has info field).map .infoLacks
  | some _ => [.infoNotMapping]

/-- What is wrong with a path and its item. -/
def pathFindings (entry : Scalar × Value) : List Finding :=
  match entry.1 with
  | .text path =>
    (if path.toList.head? = some '/' then [] else [.pathWithoutSlash path]) ++
      if entry.2.isMap then [] else [.itemNotMapping path]
  | key => [.pathNotText key.kindName]

/-- What is wrong with the paths section. -/
def pathsFindings : Value → List Finding
  | .map paths => paths.flatMap pathFindings
  | _ => [.pathsNotMapping]

/-- Whether a value may be a schema: a mapping or a truth value. -/
def maySchema : Value → Bool
  | .map _ | .bool _ => true
  | _ => false

/-- What is wrong with the components section. -/
def componentsFindings : Value → List Finding
  | .map components =>
    match Mapping.find? components "schemas" with
    | none | some .null => []
    | some (.map schemas) =>
      (schemas.filter fun entry => !maySchema entry.2).map fun entry =>
        .schemaNotMapping entry.1
    | some _ => [.schemasNotMapping]
  | _ => [.componentsNotMapping]

/-- What the structural checks find in a mapping. -/
def structuralFindings (rules : ValidationRules) (entries : Mapping) : List Finding :=
  versionFindings rules entries ++
  (if rules.requireInfo then infoFindings entries else []) ++
  (if rules.requirePathsOrComponents && !entries.has "paths" && !entries.has "components" then
    [.noPathsOrComponents]
  else []) ++
  ((entries.find? "paths").map pathsFindings).getD [] ++
  ((entries.find? "components").map componentsFindings).getD []

/-- The meta-schema for a version: that of 3.1 if the version starts so, else that of 3.0. -/
def metaSchemaFor (entries : Mapping) : MetaSchema :=
  match (entries.find? "openapi").bind (·.text?) with
  | some version => if "3.1".toList.isPrefixOf version.toList then .v31 else .v30
  | none => .v30

/-- What the meta-schema check finds; what was found before it broke off does not count. -/
def metaFindings (check : MetaCheck) (entries : Mapping) : List Finding :=
  match check (metaSchemaFor entries) (.map entries) with
  | .complete violations => violations.map .violated
  | .brokenOff cause => [.checkBrokenOff cause]

/-- What makes a value unusable as a document; nothing is found in a valid one. -/
def findings (rules : ValidationRules) (check : MetaCheck) (doc : Value) : List Finding :=
  match doc with
  | .null => [.absent]
  | .map entries =>
    match structuralFindings rules entries with
    | [] => if rules.checkMetaSchema then metaFindings check entries else []
    | found => found
  | _ => [.notMapping]

/-- Whether a value is a valid document. -/
def isValid (rules : ValidationRules) (check : MetaCheck) (doc : Value) : Bool :=
  (findings rules check doc).isEmpty

/-- The findings, if all of them can be worded. -/
def report (rules : ValidationRules) (check : MetaCheck) (doc : Value) :
    Except Fault (List Finding) :=
  let found := findings rules check doc
  if found.all (·.isWritable) then .ok found else .error .numberUnwritable

end Validation

end OpenApi
