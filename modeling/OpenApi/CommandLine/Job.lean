import OpenApi.CommandLine.Word
import OpenApi.Text.Blank

/-!
# Jobs

What a command line asks for: a job to do, or something to be told.
-/

namespace OpenApi.CommandLine

inductive Command where
  | filter
  | generateZod
  | generateTypedDict
deriving DecidableEq, Inhabited, Repr

def Command.named? : String → Option Command
  | "filter" => some .filter
  | "generate-zod" => some .generateZod
  | "generate-python-dict" => some .generateTypedDict
  | _ => none

/-- The paths of a document to work on: those of the given names, or those with a given beginning. -/
inductive Selection where
  | named (names : List String)
  | beginning (beginnings : List String)
deriving DecidableEq, Inhabited, Repr

/-- The work of a job. -/
inductive Task where
  | filter (selection : Selection)
  | generateZod (beginnings : List String)
  | generateTypedDict (beginnings : List String)
deriving DecidableEq, Inhabited, Repr

/-- A job: where the document comes from, where the result goes, and what to do in between. -/
structure Job where
  task : Task
  input : String
  output : String
  config : Option String := none
  skipValidation : Bool := false
  verbose : Bool := false
deriving DecidableEq, Inhabited, Repr

/-- What a command line asks for. -/
inductive Request where
  /-- To be told how a command, or the program, is used. -/
  | usage (command : Option Command)
  /-- To be told the version of the program. -/
  | version
  | job (job : Job)
deriving DecidableEq, Inhabited, Repr

namespace Request

/-! ## Options -/

/-- The options before a command. -/
def mainFlags : FlagTable := [("-h", .help), ("--help", .help), ("--version", .version)]

/-- The options of every command. -/
def commonFlags : FlagTable :=
  [("-h", .help), ("--help", .help), ("--input", .input), ("--output", .output),
    ("--config", .config), ("--skip-validation", .skipValidation), ("-v", .verbose),
    ("--verbose", .verbose)]

/-- The options of a command. -/
def flagsOf : Command → FlagTable
  | .filter => commonFlags ++ [("--filter", .filter), ("--prefix", .beginnings)]
  | .generateZod | .generateTypedDict => commonFlags ++ [("--prefix", .beginnings)]

/-- What the options of a command have set so far, and the words that fit nowhere. -/
structure Choices where
  input : Option String := none
  output : Option String := none
  config : Option String := none
  skipValidation : Bool := false
  verbose : Bool := false
  filter : Option (List String) := none
  beginnings : Option (List String) := none
  strays : List String := []
deriving DecidableEq, Inhabited, Repr

/-- Take the value of an option. -/
def takeValue (choices : Choices) (form : String) (meaning : Flag) (value : String) :
    Except UsageError Choices :=
  match meaning with
  | .input => .ok { choices with input := some value }
  | .output => .ok { choices with output := some value }
  | .config => .ok { choices with config := some value }
  | .filter =>
    if choices.beginnings.isSome then .error (.notTogether form "--prefix")
    else .ok { choices with filter := some (Text.commaList value) }
  | .beginnings =>
    if choices.filter.isSome then .error (.notTogether form "--filter")
    else .ok { choices with beginnings := some (Text.commaList value) }
  | .help | .version | .skipValidation | .verbose => .ok choices

/-- Take an option without a value; help and version end the reading of the line. -/
def takeFlag (command : Command) (choices : Choices) : Flag → Except Request Choices
  | .help => .error (.usage (some command))
  | .version => .error .version
  | .skipValidation => .ok { choices with skipValidation := true }
  | .verbose => .ok { choices with verbose := true }
  | .input | .output | .config | .filter | .beginnings => .ok choices

/-- Take options without values from left to right. -/
def takeFlags (command : Command) (choices : Choices) : List Flag → Except Request Choices
  | [] => .ok choices
  | meaning :: rest => do takeFlags command (← takeFlag command choices meaning) rest

/-! ## Words of a command -/

/-- Read the words of a command: what they set, or what they ask to be told instead. -/
def choose (command : Command) (choices : Choices) :
    List Word → Except UsageError (Except Request Choices)
  | [] => .ok (.ok choices)
  | word :: rest =>
    match word.valued?, rest with
    | some (form, meaning, some value), rest => do
      choose command (← takeValue choices form meaning value) rest
    | some (form, meaning, none), .value value :: rest => do
      choose command (← takeValue choices form meaning value) rest
    | some (form, _, none), _ => .error (.valueMissing form)
    | none, rest => do
      let parts ← word.parts (flagsOf command)
      match takeFlags command choices parts.meanings with
      | .ok choices =>
        choose command { choices with strays := choices.strays ++ parts.stray.toList } rest
      | .error request => return .error request

def taskOf (command : Command) (choices : Choices) : Except UsageError Task :=
  match command with
  | .filter =>
    match choices.filter, choices.beginnings with
    | some names, _ => .ok (.filter (.named names))
    | none, some beginnings => .ok (.filter (.beginning beginnings))
    | none, none => .error (.required ["--filter", "--prefix"])
  | .generateZod => .ok (.generateZod (choices.beginnings.getD []))
  | .generateTypedDict => .ok (.generateTypedDict (choices.beginnings.getD []))

/-- The job that choices make up.  `strays` are the words before the command that fit nowhere. -/
def jobOf (command : Command) (strays : List String) (choices : Choices) :
    Except UsageError Job := do
  match choices.input, choices.output with
  | some input, some output =>
    let task ← taskOf command choices
    match choices.strays ++ strays with
    | [] =>
      return {
        task, input, output
        config := choices.config
        skipValidation := choices.skipValidation
        verbose := choices.verbose }
    | words => .error (.unknownWords words)
  | some _, none => .error (.required ["--output"])
  | none, some _ => .error (.required ["--input"])
  | none, none => .error (.required ["--input", "--output"])

/-- What a command asks for with the words after it. -/
def ofCommand (command : Command) (strays words : List String) : Except UsageError Request := do
  match ← choose command {} (← Word.ofTexts (flagsOf command) words) with
  | .ok choices => return .job (← jobOf command strays choices)
  | .error request => return request

/-! ## Whole lines -/

/-- What the options before a command ask for, if anything. -/
def asked : List Flag → Option Request
  | [] => none
  | .help :: _ => some (.usage none)
  | .version :: _ => some .version
  | _ :: rest => asked rest

/-- Read a line up to its command, and from there the words of the command.  `words` says of the line
`line` what each of its words is. -/
def ofWords (strays : List String) : List Word → List String → Except UsageError Request
  | .value name :: _, _ :: rest =>
    match Command.named? name with
    | some command => ofCommand command strays rest
    | none => .error (.unknownCommand name)
  | .mark :: _, _ => .error (.unknownCommand "--")
  | word :: words, _ :: rest => do
    let parts ← word.parts mainFlags
    match asked parts.meanings with
    | some request => return request
    | none => ofWords (strays ++ parts.stray.toList) words rest
  | _, _ => if strays.isEmpty then .ok (.usage none) else .error (.unknownWords strays)

/-- What a command line asks for. -/
def ofLine (line : List String) : Except UsageError Request := do
  ofWords [] (← Word.ofTexts mainFlags line) line

end Request

end OpenApi.CommandLine
