import OpenApi.FilePath

/-!
# Locations

Where a document is: in a file, or behind an address of the web.  The form of its text is told from
the location alone.
-/

namespace OpenApi

/-- A file, or an address to fetch from. -/
inductive Location where
  | file (path : FilePath)
  | address (url : String)
deriving DecidableEq, Inhabited, Repr

namespace Location

def isAddress (s : String) : Bool :=
  "http://".toList.isPrefixOf s.toList || "https://".toList.isPrefixOf s.toList

/-- The location that a text names. -/
def ofText (s : String) : Location :=
  if isAddress s then .address s else .file (.ofText s)

def text : Location → String
  | file path => path.text
  | address url => url

/-- The format of what is at a location.  A question mark ends the part of an address that names a
file. -/
def format (location : Location) : Format :=
  (FilePath.ofText (String.ofList (location.text.toList.takeWhile (· ≠ '?')))).format

end Location

end OpenApi
