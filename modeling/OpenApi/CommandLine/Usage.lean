import OpenApi.CommandLine.Job

/-!
# Usage

What the program tells about itself.
-/

namespace OpenApi.CommandLine

def programName : String := "openapi-tools"

def programVersion : String := "0.1.0"

/-- The line that tells the version. -/
def versionText : String := s!"{programName} {programVersion}\n"

def Command.name : Command → String
  | .filter => "filter"
  | .generateZod => "generate-zod"
  | .generateTypedDict => "generate-python-dict"

/-- What a command does. -/
def Command.summary : Command → String
  | .filter => "Filter an OpenAPI document by path names or path prefixes"
  | .generateZod => "Generate Zod schemas from components.schemas"
  | .generateTypedDict => "Generate Python TypedDicts from components.schemas"

/-- The lines on the options of every command. -/
def commonUsage : List String :=
  ["  -h, --help            show this help message and exit",
   "  --input INPUT         Input OpenAPI document (YAML/JSON path or http(s) URL)",
   "  --output OUTPUT       Output file",
   "  --config CONFIG       Path to .env configuration file",
   "  --skip-validation     Do not validate the input against the OpenAPI meta-schema",
   "  -v, --verbose         Show detailed processing information"]

/-- The lines on the options by which a command selects paths. -/
def Command.selectionUsage : Command → List String
  | .filter =>
    ["  --filter FILTER       Comma-separated list of path names",
     "  --prefix PREFIX       Comma-separated list of path prefixes"]
  | .generateZod | .generateTypedDict =>
    ["  --prefix PREFIX       Only generate schemas used by paths starting with these prefixes"]

/-- How a command, or the program, is used. -/
def usageText : Option Command → String
  | some command =>
    let usage := s!"usage: {programName} {command.name} [options] --input INPUT --output OUTPUT"
    "\n".intercalate
      ([usage, "", command.summary, "", "options:"] ++ commonUsage ++ command.selectionUsage) ++
      "\n"
  | none =>
    let line (command : Command) : String := s!"  {command.name}: {command.summary}"
    "\n".intercalate
      [s!"usage: {programName} [-h] [--version] command ...", "", "OpenAPI Tools CLI", "",
        "commands:", line .filter, line .generateZod, line .generateTypedDict, "", "options:",
        "  -h, --help            show this help message and exit",
        "  --version             show the version and exit"] ++ "\n"

end OpenApi.CommandLine
