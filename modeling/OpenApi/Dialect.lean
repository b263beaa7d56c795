import OpenApi.Schema
import OpenApi.TypeExpr

/-!
# Dialects

How the types of a schema are spelled in one target.  A dialect says nothing about which types there
are or what they mention; it only gives the text of each form of type from the texts of its parts.
-/

namespace OpenApi

/-- A text of the target with the library names that it needs. -/
structure Spelling where
  text : String
  imports : List String := []
deriving DecidableEq, Inhabited, Repr

/-- The parts of a record: its fields, the definitions it builds on, its parts that are not objects,
and what it states about further properties. -/
structure RecordParts where
  name : String
  fields : List Field
  bases : List String
  extras : List String
  additional : Additional String
deriving DecidableEq, Inhabited, Repr

/-- The spellings of a target. -/
structure Dialect where
  /-- What the target is called. -/
  target : String
  /-- Whether nested records must be definitions of their own. -/
  namesNested : Bool
  /-- Whether the bases of a record are inherited, so that each must be an object schema that is
  defined before. -/
  nominalBases : Bool
  /-- Whether a record leaves out its parts that are not objects and its further properties. -/
  fieldsOnly : Bool
  /-- The identifiers that the definition of a name declares. -/
  identifiers : String → List String
  /-- The type of all values. -/
  unknown : Spelling
  /-- A type of values without parts. -/
  primitive : Primitive → Spelling
  /-- The use of a definition. -/
  reference : String → Spelling
  /-- The type of the listed values. -/
  enumeration : List Value → Spelling
  /-- The lists of an item type. -/
  array : String → Spelling
  /-- The maps from texts to a value type. -/
  stringMap : String → Spelling
  /-- The values of any of several types. -/
  union : List String → Spelling
  /-- A type with null added. -/
  nullable : String → Spelling
  /-- A property that may be absent. -/
  optional : String → Spelling
  /-- A type with its description, if descriptions stand in expressions. -/
  described : Option (String → String → Spelling)
  /-- An object with its parts. -/
  record : RecordParts → Spelling

/-- A compiled type from its text and the types it was built from. -/
def Spelling.combine (spelling : Spelling) (parts : List Compiled) : Compiled where
  type :=
    { expression := spelling.text
      references := Compiled.referencesOf parts
      imports := (NameSet.ofList spelling.imports) ∪ Compiled.importsOf parts }
  auxiliary := Compiled.auxiliaryOf parts

end OpenApi
