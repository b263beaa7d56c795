import OpenApi.Text.Blank

/-!
# Comments

Descriptions as comments of generated modules: block comments before Zod constants, line comments
before aliases, and documentation strings inside of classes.  In each a description is first made
harmless, so that it cannot end the comment that holds it.
-/

namespace OpenApi.Source

open Text

/-- Replace the occurrences of a pattern from left to right, without overlap. -/
def replaceAll (pattern replacement : List Char) (cs : List Char) : List Char :=
  go cs.length cs
where
  /-- Look at no more than so many places. -/
  go : Nat → List Char → List Char
    | 0, cs => cs
    | _ + 1, [] => []
    | fuel + 1, c :: rest =>
      if pattern.isPrefixOf (c :: rest) && !pattern.isEmpty then
        replacement ++ go fuel ((c :: rest).drop pattern.length)
      else c :: go fuel rest

/-- Replace the occurrences of a pattern in a text. -/
def replaced (pattern replacement s : String) : String :=
  String.ofList (replaceAll pattern.toList replacement.toList s.toList)

/-- A description as a block comment: on one line if it has one, else with a margin of stars.  The
end mark of a comment is broken up. -/
def blockComment (description : String) (indent : String) : List String :=
  match linesOf (stripped (replaced "*/" "*\\/" description)) with
  | [line] => [indent ++ "/** " ++ line ++ " */"]
  | lines =>
    [indent ++ "/**"] ++ lines.map (fun line => strippedRight (indent ++ " * " ++ line)) ++
      [indent ++ " */"]

def lineComment (description : String) : List String :=
  (linesOf (stripped description)).map fun line => strippedRight ("# " ++ line)

/-- The indent of a class body. -/
def classIndent : String := "    "

/-- A description without the marks that could end a documentation string: backslashes are doubled
and three quotes in a row are escaped. -/
def harmless (description : String) : String :=
  replaced "\"\"\"" "\\\"\\\"\\\"" (replaced "\\" "\\\\" description)

def attributeLines (name description : String) : List String :=
  match linesOf (stripped (harmless description)) with
  | [] => [classIndent ++ name ++ ": "]
  | first :: rest =>
    (classIndent ++ name ++ ": " ++ first) ::
      rest.map fun line => classIndent ++ classIndent ++ stripped line

/-- The lines within a documentation string: the description, then the attributes. -/
def documentationLines (description : Option String) (attributes : List (String × String)) :
    List String :=
  let text :=
    match description with
    | some description => linesOf (stripped (harmless description))
    | none => []
  if attributes.isEmpty then text
  else
    (if text.isEmpty then [] else text ++ [""]) ++ ["Attributes:"] ++
      attributes.flatMap fun entry => attributeLines entry.1 entry.2

def endsWithQuote (line : String) : Bool := line.toList.getLast? = some '"'

/-- A documentation string: on one line if it has one that does not end with a quote. -/
def documentation (description : Option String) (attributes : List (String × String))
    (indent : String) : List String :=
  match documentationLines description attributes with
  | [] => []
  | first :: rest =>
    if rest.isEmpty && !endsWithQuote first then [indent ++ "\"\"\"" ++ first ++ "\"\"\""]
    else
      [indent ++ "\"\"\"" ++ first] ++
        rest.map (fun line => if line = "" then "" else strippedRight (indent ++ line)) ++
        [indent ++ "\"\"\""]

end OpenApi.Source
