import OpenApi.Text.Numeral

/-!
# Words of a command line

Each word of a command line is an option, a value, or the mark after which all words are values.  A
long option may be cut short as long as no other option begins the same, and may have its value after
an equals sign; short options may be written together behind one dash.
-/

namespace OpenApi.CommandLine

/-- The options of all commands. -/
inductive Flag where
  | help
  | version
  | input
  | output
  | config
  | skipValidation
  | verbose
  | filter
  | beginnings
deriving DecidableEq, Inhabited, Repr

/-- Whether an option is followed by a value. -/
def Flag.takesValue : Flag → Bool
  | input | output | config | filter | beginnings => true
  | help | version | skipValidation | verbose => false

/-- The written forms of the options that may stand at a place, with what they mean. -/
abbrev FlagTable := List (String × Flag)

inductive Word where
  /-- A value. -/
  | value (content : String)
  /-- An option in its full form, perhaps with a value after an equals sign. -/
  | flag (form : String) (meaning : Flag) (attached : Option String)
  /-- A short option with letters right behind it. -/
  | joined (form : String) (meaning : Flag) (letters : String)
  /-- Something that looks like an option but is none. -/
  | unknown (content : String)
  /-- Two dashes: all words that follow are values. -/
  | mark
deriving DecidableEq, Inhabited, Repr

/-- Why a command line cannot be understood. -/
inductive UsageError where
  | ambiguous (word : String) (forms : List String)
  | valueMissing (form : String)
  | valueUnexpected (form value : String)
  | notTogether (form other : String)
  | unknownCommand (name : String)
  | unknownWords (words : List String)
  | required (forms : List String)
deriving DecidableEq, Inhabited, Repr

def UsageError.message : UsageError → String
  | ambiguous word forms =>
    let listed := ", ".intercalate forms
    s!"ambiguous option: {word} could match {listed}"
  | valueMissing form => s!"argument {form}: expected one argument"
  | valueUnexpected form value => s!"argument {form}: ignored explicit argument '{value}'"
  | notTogether form other => s!"argument {form}: not allowed with argument {other}"
  | unknownCommand name => s!"argument command: invalid choice: '{name}'"
  | unknownWords words =>
    let listed := " ".intercalate words
    s!"unrecognized arguments: {listed}"
  | required forms =>
    let listed := ", ".intercalate forms
    s!"the following arguments are required: {listed}"

namespace Word

/-- Whether a text begins with another. -/
def begins (beginning s : List Char) : Bool := beginning.isPrefixOf s

/-- A text cut at its first equals sign, if it has one. -/
def cutAtEquals (s : List Char) : List Char × Option String :=
  match s.span (· ≠ '=') with
  | (left, _ :: right) => (left, some (String.ofList right))
  | (left, []) => (left, none)

/-- The long options that begin as a word does. -/
def longMatches (table : FlagTable) (s : List Char) : List Word :=
  let (beginning, attached) := cutAtEquals s
  (table.filter fun entry => begins beginning entry.1.toList).map fun entry =>
    .flag entry.1 entry.2 attached

/-- The options that a word with a single dash may mean: the short option of its first letter, with the
rest attached, or an option that begins as the word does. -/
def shortMatches (table : FlagTable) (s : List Char) : List Word :=
  table.filterMap fun entry =>
    if entry.1.toList = s.take 2 then
      some (.joined entry.1 entry.2 (String.ofList (s.drop 2)))
    else if begins s entry.1.toList then some (.flag entry.1 entry.2 none)
    else none

/-- The options that a word may mean without being the full form of one. -/
def cutShortMatches (table : FlagTable) (s : List Char) : List Word :=
  if begins ['-', '-'] s then longMatches table s else shortMatches table s

/-- Whether a text is a number below zero, with an optional fraction. -/
def isNegativeNumber (s : List Char) : Bool :=
  let isDigit (c : Char) : Bool := (Text.decimalValue? c).isSome
  match (if s.getLast? = some '\n' then s.dropLast else s) with
  | '-' :: number =>
    match number.span isDigit with
    | (digits, []) => !digits.isEmpty
    | (_, '.' :: fraction) => !fraction.isEmpty && fraction.all isDigit
    | _ => false
  | _ => false

/-- A word that is no form of an option.  Numbers below zero and texts with spaces are values. -/
def other (s : String) : Word :=
  if isNegativeNumber s.toList || s.contains ' ' then .value s else .unknown s

/-- The option with its full form before an equals sign. -/
def attachedFlag? (table : FlagTable) (s : String) : Option Word :=
  match cutAtEquals s.toList with
  | (_, none) => none
  | (left, some right) =>
    let form := String.ofList left
    (table.lookup form).map fun meaning => .flag form meaning (some right)

/-- What a word is that begins with a dash and is no full form of an option. -/
def ofDashed (table : FlagTable) (s : String) : Except UsageError Word :=
  match attachedFlag? table s with
  | some word => .ok word
  | none =>
    match cutShortMatches table s.toList with
    | [] => .ok (other s)
    | [word] => .ok word
    | words =>
      .error (.ambiguous s (words.filterMap fun word =>
        match word with
        | .flag form _ _ | .joined form _ _ => some form
        | _ => none))

def ofText (table : FlagTable) (s : String) : Except UsageError Word :=
  match table.lookup s with
  | some meaning => .ok (.flag s meaning none)
  | none =>
    match s.toList with
    | '-' :: _ :: _ => ofDashed table s
    | _ => .ok (.value s)

def ofTexts (table : FlagTable) : List String → Except UsageError (List Word)
  | [] => .ok []
  | s :: rest =>
    if s = "--" then .ok (.mark :: rest.map .value)
    else do
      let word ← ofText table s
      return word :: (← ofTexts table rest)

/-- The form and the meaning of an option that takes a value, and the value if it is attached. -/
def valued? : Word → Option (String × Flag × Option String)
  | flag form meaning attached => if meaning.takesValue then some (form, meaning, attached) else none
  | joined form meaning letters =>
    if meaning.takesValue then some (form, meaning, some letters) else none
  | _ => none

/-- Options that a word sets, and what is left of it that is none. -/
structure Parts where
  meanings : List Flag := []
  stray : Option String := none
deriving DecidableEq, Inhabited, Repr

/-- The options that are written together behind the dash of a short one, up to a letter that is no
option.  No second dash and no equals sign may stand among them. -/
def together (table : FlagTable) (form letters : String) : List Char → Except UsageError Parts
  | [] => .ok {}
  | letter :: rest =>
    if letter = '-' || letter = '=' then .error (.valueUnexpected form letters)
    else
      match table.lookup (String.ofList ['-', letter]) with
      | some meaning => do
        let parts ← together table form letters rest
        return { parts with meanings := meaning :: parts.meanings }
      | none => .ok { stray := some (String.ofList ('-' :: letter :: rest)) }

/-- What a word sets that is an option without a value.  Nothing may be attached to it but, behind a
single dash, other such options. -/
def parts (table : FlagTable) : Word → Except UsageError Parts
  | flag _ meaning none => .ok { meanings := [meaning] }
  | flag form _ (some attached) => .error (.valueUnexpected form attached)
  | joined form meaning letters => do
    let parts ← together table form letters letters.toList
    return { parts with meanings := meaning :: parts.meanings }
  | value content | unknown content => .ok { stray := some content }
  | mark => .ok { stray := some "--" }

end Word

end OpenApi.CommandLine
