import OpenApi.CommandLine.Usage
import OpenApi.Emission
import OpenApi.Loading
import OpenApi.Settings

/-!
# Runs

What the program does with a command line.  The world around it is a value: the disk, the variables of
the environment, what addresses answer, how documents are checked against the meta-schemas, and what
becomes of printed text.  A run ends with a status or a fault and leaves a disk, on which at most the
output file has changed.
-/

namespace OpenApi.CommandLine

/-- The world around a run. -/
structure Surroundings extends Sources where
  environment : Environment := []
  /-- What loads variables from files. -/
  loadVariables : VariableLoader
  /-- The program's own file of variables. -/
  ownVariables : FilePath
  metaCheck : MetaCheck
  /-- What is in the way of printing a text, if anything is: the text may hold characters that the
  standard output cannot take, or the output may be closed. -/
  console : String → Option Fault

/-- An address that was asked for, how long an answer was waited for, and whether the answer could be
behind another address. -/
structure Call where
  url : String
  timeoutSeconds : Float
  followsRedirects : Bool := true
deriving Inhabited, Repr

/-- What a run comes to: its exit status or the fault that ended it, what it printed and reported, which
addresses it asked for, and the disk as it leaves it. -/
structure Outcome where
  ending : Except Fault Nat
  printed : String := ""
  complaint : Option UsageError := none
  notices : List Notice := []
  calls : List Call := []
  disk : Disk

/-- The settings of a run that is told of a file of variables, or of none. -/
def Surroundings.settings (surroundings : Surroundings) (given : Option String) :
    Except Fault Settings :=
  Settings.read surroundings.disk surroundings.loadVariables surroundings.ownVariables
    surroundings.environment given

/-- Print a text as the last thing in a run.  What is in the way of that ends the run. -/
def Surroundings.print (surroundings : Surroundings) (outcome : Outcome) (text : String) : Outcome :=
  match surroundings.console text with
  | none => { outcome with printed := text }
  | some fault => { outcome with ending := .error fault }

/-- Print what the program tells about itself.  What is in the way of that is passed over. -/
def Surroundings.tell (surroundings : Surroundings) (outcome : Outcome) (text : String) : Outcome :=
  if (surroundings.console text).isNone then { outcome with printed := text } else outcome

namespace Job

/-! ## The document -/

/-- The loaded document once it passed validation, or nothing. -/
def validated (job : Job) (surroundings : Surroundings) (settings : Settings) (doc : Value) :
    Traced (Option Value) :=
  if job.skipValidation then ⟨[.validationSkipped], .ok (some doc)⟩
  else
    let report := Validation.report settings.validation surroundings.metaCheck doc
    (Traced.ofExcept report).andThen fun findings =>
    if findings.isEmpty then ⟨[.documentLoaded job.input], .ok (some doc)⟩
    else
      ⟨.documentInvalid job.input :: findings.map fun finding => .finding finding.message, .ok none⟩

/-- The document of a job, or nothing if it cannot be loaded or is not valid. -/
def document (job : Job) (surroundings : Surroundings) (settings : Settings) :
    Traced (Option Value) :=
  let loaded := Loading.load surroundings.toSources (.ofText job.input)
  (Traced.ofExcept loaded).andThen fun loaded =>
  match loaded.outcome with
  | .ok doc => job.validated surroundings settings doc
  | .error error => ⟨[.loadFailed job.input error.message], .ok none⟩

/-- The addresses asked for when the document of a job is loaded. -/
def calls (job : Job) (settings : Settings) : List Call :=
  match Location.ofText job.input with
  | .file _ => []
  | .address url => [{ url, timeoutSeconds := settings.timeoutSeconds }]

/-! ## The result -/

/-- The paths that a selection names; without beginnings it names none. -/
def selectedPaths (doc : Value) : Selection → Traced (List String)
  | .named names => .answer names
  | .beginning [] => .answer []
  | .beginning beginnings =>
    (Traced.ofExcept (Document.pathsStarting doc beginnings)).andThen fun names =>
      ⟨[.pathsMatched names.length beginnings], .ok (Emission.textNames names)⟩

/-- The text that a job makes of its document; there is none if there is nothing to generate. -/
def product (job : Job) (yaml : Yaml) (settings : Settings) (doc : Value) :
    Traced (Option String) :=
  match job.task with
  | .filter selection =>
    (selectedPaths doc selection).andThen fun names =>
    (Document.narrow doc names).andThen fun narrowed =>
    let content := Document.writtenFor yaml (.ofText job.output) (narrowed.getD doc)
    (Traced.ofExcept content).andThen fun content => .answer (some content)
  | .generateZod beginnings => Emission.emit (.zod settings.constantSuffix) doc beginnings
  | .generateTypedDict beginnings => Emission.emit .typedDict doc beginnings

/-- What is printed once the result is written. -/
def doneText (job : Job) : String :=
  match job.task with
  | .filter _ => s!"Filtered OpenAPI spec written to {job.output}\n"
  | .generateZod _ => s!"Generated zod definitions written to {job.output}\n"
  | .generateTypedDict _ => s!"Generated typed-dict definitions written to {job.output}\n"

/-! ## The run -/

/-- Write the result of a job, and print that it is written. -/
def deliver (job : Job) (surroundings : Surroundings) (outcome : Outcome) (content : String) :
    Outcome :=
  match outcome.disk.save (.ofText job.output) (Text.Utf8.encode content) with
  | (disk, none) => surroundings.print { outcome with disk } job.doneText
  | (disk, some ⟨.zero, _⟩) => { outcome with disk, ending := .error .zeroInFileName }
  | (disk, some error) =>
    { outcome with
      disk
      ending := .ok 1
      notices := outcome.notices ++ [.writeFailed job.output error.message] }

/-- Make the result of a job from its document and write it. -/
def finish (job : Job) (surroundings : Surroundings) (settings : Settings) (outcome : Outcome)
    (doc : Value) : Outcome :=
  let product := job.product surroundings.yaml settings doc
  let outcome := { outcome with notices := outcome.notices ++ product.notices }
  match product.outcome with
  | .ok (some content) => job.deliver surroundings outcome content
  | .ok none => outcome
  | .error fault => { outcome with ending := .error fault }

/-- Do a job with the given settings. -/
def runWith (job : Job) (surroundings : Surroundings) (settings : Settings) : Outcome :=
  let document := job.document surroundings settings
  let outcome : Outcome :=
    { ending := .ok 0
      notices := document.notices
      calls := job.calls settings
      disk := surroundings.disk }
  match document.outcome with
  | .ok (some doc) => job.finish surroundings settings outcome doc
  | .ok none => { outcome with ending := .ok 1 }
  | .error fault => { outcome with ending := .error fault }

/-- Whether a notice is shown: information is shown only on request. -/
def shows (job : Job) (notice : Notice) : Bool := job.verbose || notice.severity != .info

/-- Do a job. -/
def run (job : Job) (surroundings : Surroundings) : Outcome :=
  match surroundings.settings job.config with
  | .error fault => { ending := .error fault, disk := surroundings.disk }
  | .ok settings =>
    let outcome := job.runWith surroundings settings
    { outcome with notices := outcome.notices.filter job.shows }

end Job

/-- Do what a command line asks for.  A line that cannot be understood ends with status 2. -/
def run (surroundings : Surroundings) (line : List String) : Outcome :=
  let outcome : Outcome := { ending := .ok 0, disk := surroundings.disk }
  match Request.ofLine line with
  | .error complaint => { outcome with ending := .ok 2, complaint := some complaint }
  | .ok (.usage command) => surroundings.tell outcome (usageText command)
  | .ok .version => surroundings.tell outcome versionText
  | .ok (.job job) => job.run surroundings

end OpenApi.CommandLine
