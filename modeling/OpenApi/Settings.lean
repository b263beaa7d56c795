import OpenApi.Decimal.Numeral
import OpenApi.Disk
import OpenApi.Validation

/-!
# Settings

What can be set from outside a run, by variables of the environment.  More variables may come from a
file: the one that a run is told of, or else the one that belongs to the program, if it is there.  What
loads variables from a file into an environment is not part of this library and stands here as a
function about which nothing is assumed.
-/

namespace OpenApi

/-- The variables of an environment, with their values. -/
abbrev Environment := List (String × String)

/-- What loads the variables of a file into an environment: given the disk and the text of a path, it
makes one environment of another. -/
abbrev VariableLoader := Disk → String → Environment → Except Fault Environment

/-- How long to wait for an answer, which checks to make, and how generated constants end. -/
structure Settings where
  timeoutSeconds : Float := 30
  validation : ValidationRules := {}
  constantSuffix : String := "Schema"

namespace Settings

/-- Whether a variable says yes: it does so by the word `true`, in letters of either case. -/
def flag (lookup : String → Option String) (name : String) : Bool :=
  match lookup name with
  | some value => value.toList.map Char.toLower == "true".toList
  | none => true

/-- The number of seconds that a text writes. -/
def seconds (content : String) : Except Fault Float :=
  match Decimal.float? content.toList with
  | some value => .ok value
  | none => .error (.notANumber content)

/-- The settings that variables give; what is not set keeps its default. -/
def ofVariables (lookup : String → Option String) : Except Fault Settings := do
  let timeoutSeconds ← seconds ((lookup "HTTP_TIMEOUT_SECONDS").getD "30")
  return {
    timeoutSeconds
    validation :=
      { minVersion := (lookup "MIN_OPENAPI_VERSION").getD "3.0.0"
        requireInfo := flag lookup "REQUIRE_INFO_SECTION"
        requirePathsOrComponents := flag lookup "REQUIRE_PATHS_OR_COMPONENTS"
        checkMetaSchema := flag lookup "VALIDATE_META_SCHEMA" }
    constantSuffix := (lookup "ZOD_SCHEMA_SUFFIX").getD "Schema" }

/-- The file to load variables from: the one given, unless its path is empty, and else the program's own
one if it is there. -/
def variableFile? (disk : Disk) (own : FilePath) (given : Option String) :
    Except Fault (Option String) := do
  match given.filter (· ≠ "") with
  | some path => return some path
  | none => return if ← disk.holds own then some own.text else none

/-- The settings of an environment once the variables of a file were loaded into it. -/
def read (disk : Disk) (load : VariableLoader) (own : FilePath) (environment : Environment)
    (given : Option String) : Except Fault Settings := do
  let environment ←
    match ← variableFile? disk own given with
    | some path => load disk path environment
    | none => .ok environment
  ofVariables fun name => environment.lookup name

end Settings

end OpenApi
