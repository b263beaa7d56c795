import OpenApi.Text.Blank

/-!
# File paths

A path names a place among files and folders: where it starts, and the names to follow from there.  A
path is read from text with repeated slashes, the names `.` and a slash at the end left out, so that
paths that lead along the same names are equal.  The ending of the last name tells the format of a
file.
-/

namespace OpenApi

/-- The forms of text that documents are written in. -/
inductive Format where
  | json
  | yaml
deriving DecidableEq, Inhabited, Repr

def Format.name : Format → String
  | json => "json"
  | yaml => "yaml"

inductive PathStart where
  /-- At the current folder. -/
  | here
  /-- At the root of all folders. -/
  | root
  /-- At the root, written with two slashes, which a system may give a meaning of its own. -/
  | doubleRoot
deriving DecidableEq, Inhabited, Repr

/-- A start and the names to follow from it. -/
structure FilePath where
  start : PathStart := .here
  names : List String
deriving DecidableEq, Inhabited, Repr

namespace FilePath

/-- Where a text of a path starts. -/
def startOf : List Char → PathStart
  | '/' :: '/' :: '/' :: _ => .root
  | '/' :: '/' :: _ => .doubleRoot
  | '/' :: _ => .root
  | _ => .here

/-- The path that a text writes. -/
def ofText (s : String) : FilePath :=
  let names := (Text.pieces '/' s.toList).map String.ofList
  { start := startOf s.toList, names := names.filter fun name => name ≠ "" ∧ name ≠ "." }

def startText : PathStart → String
  | .here => ""
  | .root => "/"
  | .doubleRoot => "//"

/-- The text of a path; that of the current folder is a point. -/
def text (path : FilePath) : String :=
  let written := startText path.start ++ "/".intercalate path.names
  if written = "" then "." else written

/-- The path to the folder that holds the last name; a start stays what it is. -/
def parent (path : FilePath) : FilePath := { path with names := path.names.dropLast }

/-- The last name. -/
def name (path : FilePath) : String := path.names.getLast?.getD ""

/-- The ending of a name, from its last point on.  A point at the beginning or at the end of the name
begins no ending. -/
def endingOf (name : List Char) : List Char :=
  let (afterPoint, rest) := name.reverse.span (· ≠ '.')
  match rest with
  | '.' :: _ :: _ => if afterPoint.isEmpty then [] else '.' :: afterPoint.reverse
  | _ => []

/-- The format of a file: JSON if its name ends in `.json`, in letters of either case, else YAML. -/
def format (path : FilePath) : Format :=
  if (endingOf path.name.toList).map Char.toLower == ['.', 'j', 's', 'o', 'n'] then .json
  else .yaml

end FilePath

end OpenApi
