/-!
# Notices

What the library reports while it works, one case per occasion.  A notice is data; its severity and
its wording are functions of it, so that statements about what is reported do not hang on a text.
-/

namespace OpenApi

/-- How urgent a notice is. -/
inductive Severity where
  | info
  | warning
  | error
deriving DecidableEq, Inhabited, Repr

/-- Something worth telling the user. -/
inductive Notice where
  /-- A requested path is missing from the document or has nothing under it. -/
  | pathNotFound (path : String)
  /-- None of the requested paths was found, so the document stays as it is. -/
  | noPathMatched
  /-- A document was narrowed to so many paths and schemas. -/
  | narrowed (paths schemas : Nat)
  /-- A schema gets another name because its own would declare a taken identifier. -/
  | schemaRenamed (schema emitted : String)
  /-- A nested record gets another name because the one of its position is taken. -/
  | nestedRenamed (wanted given : String)
  /-- A referenced schema cannot be inherited from. -/
  | baseNotRecord (schema : String)
  /-- A class leaves out so many parts of its schema that are not objects. -/
  | partsLeftOut (count : Nat) (name : String)
  /-- No schema was selected. -/
  | nothingToGenerate
  /-- So many schemas were compiled for a target, with so many extra definitions. -/
  | compiled (schemas : Nat) (target : String) (synthesized : Nat)
  /-- A document could not be loaded. -/
  | loadFailed (source cause : String)
  /-- Validation was switched off. -/
  | validationSkipped
  /-- A document failed validation; the findings follow. -/
  | documentInvalid (source : String)
  /-- One finding of a failed validation. -/
  | finding (text : String)
  /-- A document was loaded and found valid. -/
  | documentLoaded (source : String)
  /-- So many paths start with one of the given beginnings. -/
  | pathsMatched (count : Nat) (beginnings : List String)
  /-- The result could not be written. -/
  | writeFailed (target cause : String)
deriving DecidableEq, Inhabited, Repr

namespace Notice

/-- Problems that end the work are errors, results that may surprise are warnings, and progress is
information. -/
def severity : Notice → Severity
  | pathNotFound _ | noPathMatched | schemaRenamed .. | nestedRenamed .. | baseNotRecord _
  | partsLeftOut .. | nothingToGenerate => .warning
  | narrowed .. | compiled .. | validationSkipped | documentLoaded _ | pathsMatched .. => .info
  | loadFailed .. | documentInvalid _ | finding _ | writeFailed .. => .error

/-- The wording of a notice. -/
def message : Notice → String
  | pathNotFound path => s!"⚠️ Path '{path}' not found in the OpenAPI document"
  | noPathMatched =>
    "⚠️ No paths matched the filter criteria, returning the original OpenAPI document"
  | narrowed paths schemas => s!"Kept {paths} paths and {schemas} schemas"
  | schemaRenamed schema emitted =>
    s!"⚠️ Schema '{schema}' clashes with an earlier schema's identifier, emitting it as " ++
      s!"'{emitted}'"
  | nestedRenamed wanted given =>
    s!"⚠️ Synthesized name '{wanted}' is already taken, using '{given}' instead"
  | baseNotRecord schema =>
    s!"⚠️ allOf base '{schema}' is not an object schema and cannot be inherited"
  | partsLeftOut count name =>
    s!"⚠️ {count} allOf part(s) of {name} are not objects and were left out of the TypedDict"
  | nothingToGenerate => "⚠️ No schemas matched, nothing to generate"
  | compiled schemas target synthesized =>
    s!"Compiled {schemas} schemas for {target} ({synthesized} synthesized definitions)"
  | loadFailed source cause => s!"❌ Failed to load {source}: {cause}"
  | validationSkipped => "⏭️ Skipping OpenAPI validation"
  | documentInvalid source => s!"❌ {source} is not a valid OpenAPI document:"
  | finding text => s!"  - {text}"
  | documentLoaded source => s!"✅ Loaded and validated {source}"
  | pathsMatched count beginnings =>
    let listed := String.intercalate ", " beginnings
    s!"🔎 {count} paths match prefixes {listed}"
  | writeFailed target cause => s!"❌ Failed to write {target}: {cause}"

end Notice

end OpenApi
