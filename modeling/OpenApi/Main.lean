import OpenApi.CommandLine.Run

/-!
# The program

Gathers what a run needs to know of the world, runs, and carries out what came of it.  Addresses cannot
be asked for from here, nothing is at hand that knows YAML or files of variables, and there are no
meta-schemas, so that documents get the structural checks only.
-/

namespace OpenApi.CommandLine.Program

/-- What stands at a place of the world, if anything does. -/
def lookUp (place : Place) : IO (Option Content) := do
  try
    let bytes ← IO.FS.readBinFile ("/" ++ "/".intercalate place)
    return some (.file bytes.toList)
  catch
    | .noFileOrDirectory .. => return none
    | _ => return some .folder

/-- Note what stands at the places along the names that lead on from a place. -/
def noteFrom (disk : Disk) (place : Place) : List String → IO Disk
  | [] => return disk
  | name :: rest => do
    let next := if name = ".." then place.dropLast else place ++ [name]
    match ← lookUp next with
    | some content => noteFrom (disk.set next content) next rest
    | none => return disk

/-- Note what stands along a path. -/
def note (disk : Disk) (path : FilePath) : IO Disk :=
  noteFrom disk (if path.start = .here then disk.here else []) path.names

/-- The program's own file of variables, beside the program. -/
def ownVariables : IO FilePath := do
  let folder := FilePath.ofText (← IO.appDir).toString
  return { folder with names := folder.names ++ [".env"] }

/-- The disk as far as a job looks at it. -/
def diskFor (job : Job) : IO Disk := do
  let current := (← IO.currentDir).toString
  let start : Disk := { entries := [], here := (FilePath.ofText current).names }
  let paths := ([job.input, job.output] ++ job.config.toList).map FilePath.ofText
  (paths ++ [← ownVariables]).foldlM note start

/-- The names of the variables that settings are read from. -/
def variableNames : List String :=
  ["HTTP_TIMEOUT_SECONDS", "VALIDATE_META_SCHEMA", "MIN_OPENAPI_VERSION",
    "REQUIRE_INFO_SECTION", "REQUIRE_PATHS_OR_COMPONENTS", "ZOD_SCHEMA_SUFFIX"]

/-- The variables of the environment that settings are read from. -/
def environment : IO Environment := do
  let found ← variableNames.mapM fun name => do
    return (← IO.getEnv name).map fun value => (name, value)
  return found.filterMap id

/-- The world around a line. -/
def surroundings (line : List String) : IO Surroundings := do
  let disk ←
    match Request.ofLine line with
    | .ok (.job job) => diskFor job
    | _ => pure { entries := [] }
  return {
    disk
    environment := ← environment
    fetch := fun _ => .unanswered "no network"
    yaml := .unknown
    loadVariables := fun _ _ environment => .ok environment
    ownVariables := ← ownVariables
    metaCheck := fun _ _ => .complete []
    console := fun _ => none }

/-- Make the folders and write the files that a run has added or changed. -/
def carryOut (before after : Disk) : IO Unit := do
  for (place, content) in after.entries do
    if before.entries.lookup place != some content then
      let path := "/" ++ "/".intercalate place
      match content with
      | .folder => IO.FS.createDirAll path
      | .file bytes => IO.FS.writeBinFile path ⟨bytes.toArray⟩

/-- Print what a run has to say, and answer its status. -/
def tell (outcome : Outcome) : IO UInt32 := do
  for notice in outcome.notices do
    IO.eprintln notice.message
  if let some complaint := outcome.complaint then
    IO.eprintln s!"{programName}: error: {complaint.message}"
  IO.print outcome.printed
  match outcome.ending with
  | .ok status => return status.toUInt32
  | .error fault =>
    IO.eprintln (fault.message.getD "the document cannot be processed")
    return 1

end OpenApi.CommandLine.Program

/-- Do what the command line asks for. -/
def main (line : List String) : IO UInt32 := do
  let surroundings ← OpenApi.CommandLine.Program.surroundings line
  let outcome := OpenApi.CommandLine.run surroundings line
  OpenApi.CommandLine.Program.carryOut surroundings.disk outcome.disk
  OpenApi.CommandLine.Program.tell outcome
