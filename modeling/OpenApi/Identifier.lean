import OpenApi.NameSet
import OpenApi.Text.Word

/-!
# Identifiers

How names of a document become identifiers of generated code: joined words for constants and nested
records, replaced characters for classes and types, and a number at the end where a name is taken.
-/

namespace OpenApi.Identifier

/-! ## Joined words -/

/-- The characters that words consist of when they are joined: ASCII letters and digits. -/
def isJoinable (c : Char) : Bool := c.isAlphanum

/-- The words of a text joined, the first letter of each in upper case.  `fresh` tells whether the
text begins a word. -/
def joined (fresh : Bool) : List Char → List Char
  | [] => []
  | c :: rest =>
    if isJoinable c then (if fresh then c.toUpper else c) :: joined false rest
    else joined true rest

/-- The words of a name joined, each beginning in upper case. -/
def pascalCase (name : String) : String := String.ofList (joined true name.toList)

/-- A text with its first letter in lower case. -/
def lowerFirst : List Char → List Char
  | [] => []
  | c :: rest => c.toLower :: rest

/-- The words of a name joined, each but the first beginning in upper case. -/
def camelCase (name : String) : String := String.ofList (lowerFirst (joined true name.toList))

/-! ## Replaced characters -/

/-- The words that have a meaning of their own in class modules. -/
def reservedWords : List String :=
  ["False", "None", "True", "and", "as", "assert", "async", "await", "break", "class", "continue",
   "def", "del", "elif", "else", "except", "finally", "for", "from", "global", "if", "import", "in",
   "is", "lambda", "nonlocal", "not", "or", "pass", "raise", "return", "try", "while", "with",
   "yield"]

/-- Whether a text may name something in a class module. -/
def isIdentifier (name : String) : Bool :=
  match name.toList with
  | [] => false
  | first :: rest =>
    Text.isIdentifierStart first && rest.all Text.isIdentifierContinue && name ∉ reservedWords

/-- A text with an underscore for every character that is no word character. -/
def worded (cs : List Char) : List Char := cs.map fun c => if Text.isWord c then c else '_'

/-- A text with an underscore before it if it is empty or begins with a digit. -/
def unnumbered (cs : List Char) : List Char :=
  match cs with
  | [] => ['_']
  | c :: _ => if Text.isDigit c then '_' :: cs else cs

/-- The identifier of a name: word characters only, no digit in front, no reserved word. -/
def ofName (name : String) : String :=
  let identifier := String.ofList (unnumbered (worded name.toList))
  if identifier ∈ reservedWords then identifier ++ "_" else identifier

/-! ## Free names -/

/-- A name with a number at its end. -/
def numbered (name : String) (number : Nat) : String := name ++ toString number

/-- The first of the numbered names, counting from two, that passes a test.  As many numbers are
tried as told. -/
def firstNumbered? (free : String → Bool) (name : String) (tries : Nat) : Option String :=
  ((List.range' 2 tries).map (numbered name)).find? free

/-- The name itself if it is free, else the name with the first number from two that makes it free.
One more number than there are taken names is enough. -/
def unique (name : String) (taken : NameSet) : String :=
  if name ∉ taken then name
  else (firstNumbered? (fun other => other ∉ taken) name (taken.toList.length + 1)).getD name

end OpenApi.Identifier
