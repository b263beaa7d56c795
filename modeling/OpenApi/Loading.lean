import OpenApi.Disk
import OpenApi.Json.Printer
import OpenApi.Json.Reader
import OpenApi.Location
import OpenApi.Text.Utf8
import OpenApi.Value.Writable

/-!
# Loading

From a location to a document, and from a document to the text of a file.  A document is a mapping;
whatever else is found at the location, or if nothing is found, loading tells why there is no document.

JSON is read and written here.  What answers at an address, and what reads and writes YAML, is not part
of this library: it stands in `Sources` and in `Yaml` as functions about which nothing is assumed.
-/

namespace OpenApi

/-- What comes back when an address is asked for. -/
inductive Response where
  /-- An answer with its status and its text. -/
  | answered (status : Int) (body : String)
  /-- There was no answer. -/
  | unanswered (reason : String)
  /-- Asking failed in another way, such as for an address that cannot be asked for. -/
  | failed (fault : Fault)
deriving DecidableEq, Inhabited, Repr

/-- What comes of reading a YAML text. -/
inductive YamlReading where
  | value (value : Value)
  /-- The text is malformed. -/
  | malformed (reason : String)
  /-- Reading failed in another way, such as for a date that there is not. -/
  | failed (fault : Fault)
deriving Inhabited

/-- What reads YAML texts and writes values as such. -/
structure Yaml where
  read : String → YamlReading
  write : Value → Except Fault String

/-- What there is where nothing knows YAML. -/
def Yaml.unknown : Yaml where
  read := fun _ => .malformed "YAML cannot be read"
  write := fun _ => .error (.foreign "unsupported" (some "YAML cannot be written"))

/-- What there is to load from: the disk, what addresses answer, and what makes values of YAML texts. -/
structure Sources where
  disk : Disk
  fetch : String → Response
  yaml : Yaml

/-- Why there is no document. -/
inductive LoadError where
  | fileNotFound (path : FilePath)
  | notFile (path : FilePath)
  | notUtf8 (flaw : Text.Utf8.Flaw)
  | unreadable (cause : String)
  | refused (url : String) (status : Int)
  | unanswered (url reason : String)
  | malformedJson (malformed : Json.Malformed)
  | malformedYaml (reason : String)
  | notMapping
deriving Repr

/-- The wording of an error. -/
def LoadError.message : LoadError → String
  | fileNotFound path => s!"File not found: {path.text}"
  | notFile path => s!"Path is not a file: {path.text}"
  | notUtf8 flaw => s!"Unable to read file as UTF-8: {flaw.message}"
  | unreadable cause => s!"Error reading file: {cause}"
  | refused url status => s!"Failed to fetch {url}: HTTP {status}"
  | unanswered url reason => s!"Failed to fetch {url}: {reason}"
  | malformedJson malformed => s!"Invalid JSON format: {malformed.message}"
  | malformedYaml reason => s!"Invalid YAML format: {reason}"
  | notMapping => "OpenAPI document must be a mapping at the top level"

/-- The result of loading: the location, the format once a text was there to be read, and the document
or why there is none. -/
structure Loaded where
  location : Location
  format : Option Format := none
  outcome : Except LoadError Value

namespace Loading

/-- The value that a text of a format writes. -/
def valueOf (yaml : Yaml) (format : Format) (content : String) :
    Except Fault (Except LoadError Value) := do
  match format with
  | .json =>
    match ← Json.read content with
    | .ok value => return .ok value
    | .error malformed => return .error (.malformedJson malformed)
  | .yaml =>
    match yaml.read content with
    | .value value => return .ok value
    | .malformed reason => return .error (.malformedYaml reason)
    | .failed fault => .error fault

/-- Only a mapping is a document. -/
def documentOf (value : Value) : Except LoadError Value :=
  if value.isMap then .ok value else .error .notMapping

/-- The document that a text of a format writes. -/
def parse (yaml : Yaml) (format : Format) (content : String) :
    Except Fault (Except LoadError Value) := do
  return (← valueOf yaml format content) >>= documentOf

/-- The result of reading the text found at a location. -/
def ofText (yaml : Yaml) (location : Location) (content : String) : Except Fault Loaded := do
  let format := location.format
  return { location, format, outcome := ← parse yaml format content }

/-- The result of reading the bytes found at a location. -/
def ofBytes (yaml : Yaml) (location : Location) (bytes : List UInt8) : Except Fault Loaded :=
  match Text.Utf8.decode bytes with
  | .ok content => ofText yaml location (Text.withLineFeeds content)
  | .error flaw => .ok { location, outcome := .error (.notUtf8 flaw) }

/-- Load from a file.  Whether anything is at the path has to be told first. -/
def fromFile (sources : Sources) (path : FilePath) : Except Fault Loaded := do
  let told (why : LoadError) : Loaded := { location := .file path, outcome := .error why }
  if !(← sources.disk.holds path) then return told (.fileNotFound path)
  else if sources.disk.find path matches .ok .folder then return told (.notFile path)
  else
    match sources.disk.readFile path with
    | .ok bytes => ofBytes sources.yaml (.file path) bytes
    | .error cause => return told (.unreadable cause)

/-- Whether a status says that the answer is what was asked for. -/
def isSuccess (status : Int) : Bool := 200 ≤ status && status ≤ 299

/-- Load from what came back from an address. -/
def fromResponse (yaml : Yaml) (url : String) : Response → Except Fault Loaded
  | .answered status body =>
    if isSuccess status then ofText yaml (.address url) body
    else .ok { location := .address url, outcome := .error (.refused url status) }
  | .unanswered reason =>
    .ok { location := .address url, outcome := .error (.unanswered url reason) }
  | .failed fault => .error fault

/-- Load from a location. -/
def load (sources : Sources) : Location → Except Fault Loaded
  | .file path => fromFile sources path
  | .address url => fromResponse sources.yaml url (sources.fetch url)

end Loading

/-- A document as the text of a file, in the format that the name of the file asks for, if it can be
written. -/
def Document.writtenFor (yaml : Yaml) (path : FilePath) (doc : Value) : Except Fault String :=
  match path.format with
  | .json => if doc.isWritable then .ok (Json.document doc) else .error .numberUnwritable
  | .yaml => yaml.write doc

end OpenApi
