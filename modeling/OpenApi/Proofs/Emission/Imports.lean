import OpenApi.Proofs.Compile.ClosedText
import OpenApi.Proofs.Emission.Run
import OpenApi.Proofs.Identifier.Continued
import OpenApi.Proofs.Schema.Reading
import OpenApi.Proofs.Text.Words

/-!
# Imports of class modules

A module of classes uses names of the typing library: in the annotations of its fields and aliases,
and where a class or an alias is declared.  The names are gathered while types are put together.
Nothing is lost on the way, so each name that a definition uses is among those that the module
imports.
-/

namespace OpenApi

/-- A type that is put together imports what its own spelling and its parts import. -/
theorem Spelling.mem_imports_combine {spelling : Spelling} {parts : List Compiled} {name : String} :
    name ∈ (spelling.combine parts).type.imports ↔
      name ∈ spelling.imports ∨ ∃ part ∈ parts, name ∈ part.type.imports := by
  unfold Spelling.combine Compiled.importsOf
  rw [NameSet.mem_union, NameSet.mem_ofList, NameSet.mem_foldl_union]
  simp

namespace TypedDict

open Text (Closed words)

/-- The names of the typing library that class modules know. -/
def typingNames : List String :=
  ["Any", "Literal", "Never", "NotRequired", "Optional", "TypeAlias", "TypedDict", "Union"]

/-! ## Words of annotations -/

/-- The words of a type with arguments are its own and those of the arguments. -/
theorem words_generic {name : String} {arguments : List String} (closed : Closed name)
    (each : ∀ argument ∈ arguments, Closed argument) :
    words (generic name arguments) = words name ++ arguments.flatMap words := by
  have opens : Text.Leads (name ++ "[") [] [']'] := Text.Leads.append closed rfl
  have opened : Text.Leads (name ++ "[" ++ ", ".intercalate arguments) [] [']'] :=
    opens.append ((Closed.intercalate (by decide) each).leads [']'])
  rw [generic, Text.words_append_gap (by decide) opened, Text.words_append (by decide) closed,
    Text.words_intercalate (by decide) each]

/-- A reference stands between quotes and holds no word. -/
theorem words_reference (name : String) : words (reference name) = [] :=
  (Text.isPlain_ofName name).enclosed.words_between_quotes

/-- Each name of the library has a capital letter. -/
theorem any_isUpper_of_typing : ∀ name ∈ typingNames, name.toList.any Char.isUpper := by
  decide

/-- There is no capital letter in a number. -/
theorem not_isUpper_of_isNumeric {c : Char} (numeric : Text.isNumeric c) : ¬c.isUpper := by
  intro upper
  rw [OpenApi.Identifier.isUpper_iff] at upper
  unfold Text.isNumeric at numeric
  rw [Bool.or_eq_true, Identifier.isDigit_iff] at numeric
  rcases numeric with digit | sign
  · omega
  · simp only [List.mem_cons, List.not_mem_nil, or_false, decide_eq_true_eq] at sign
    rcases sign with rfl | rfl | rfl | rfl <;> revert upper <;> decide

/-- A text without capital letters has no name of the library among its words. -/
theorem not_mem_words_of_lower {text name : String} (typing : name ∈ typingNames)
    (lower : ∀ c ∈ text.toList, ¬c.isUpper) : name ∉ words text := by
  intro listed
  obtain ⟨c, member, upper⟩ := List.any_eq_true.mp (any_isUpper_of_typing name typing)
  rcases Text.mem_of_mem_words listed member with within | rfl
  · exact lower c within upper
  · cases upper

/-- Listed values use no name of the library: texts stand between quotes, and numbers have no
capital letters. -/
theorem not_mem_words_literal {name : String} (typing : name ∈ typingNames) (value : Value) :
    name ∉ words (literal value) := by
  unfold literal
  split
  · next truth =>
      revert name
      cases truth <;> decide
  · exact not_mem_words_of_lower typing fun c member =>
      not_isUpper_of_isNumeric (Text.isNumeric_int _ c member)
  · refine not_mem_words_of_lower typing fun c member => ?_
    rcases Text.mem_render member with numeric | infinite | noNumber
    · exact not_isUpper_of_isNumeric numeric
    · exact List.any_eq_false.mp (show "inf".toList.any Char.isUpper = false by decide) c infinite
    · exact List.any_eq_false.mp (show "nan".toList.any Char.isUpper = false by decide) c noNumber
  · rw [Text.words_quoted]
    exact List.not_mem_nil
  · rw [Text.words_quoted]
    exact List.not_mem_nil

/-! ## Types with their imports -/

/-- The names of the library among the words of an expression are in a set. -/
def Supplies (imports : NameSet) (expression : String) : Prop :=
  ∀ name ∈ typingNames, name ∈ words expression → name ∈ imports

/-- A type that stands in annotations: it needs names of the library only, and among them all that
it uses. -/
structure IsInline (type : TypeExpr) : Prop where
  kind : type.kind = .typeAlias
  closed : Closed type.expression
  known : ∀ name ∈ type.imports, name ∈ typingNames
  supplied : Supplies type.imports type.expression

/-- A type that becomes a class: it needs the base of all classes, and what its fields use. -/
structure IsClass (type : TypeExpr) : Prop where
  kind : type.kind = .object
  base : "TypedDict" ∈ type.imports
  known : ∀ name ∈ type.imports, name ∈ typingNames
  supplied : ∀ field ∈ type.fields, Supplies type.imports field.expression

/-- An annotation that is put together uses what its parts use, and its own spelling accounts for
the rest. -/
theorem IsInline.combine {spelling : Spelling} {parts : List Compiled}
    (closed : Closed spelling.text) (known : ∀ name ∈ spelling.imports, name ∈ typingNames)
    (each : ∀ part ∈ parts, IsInline part.type)
    (accounts : ∀ name ∈ typingNames, name ∈ words spelling.text →
      name ∈ spelling.imports ∨ ∃ part ∈ parts, name ∈ words part.expression) :
    IsInline (spelling.combine parts).type where
  kind := rfl
  closed := closed
  known name member := by
    rcases Spelling.mem_imports_combine.mp member with own | ⟨part, held, needed⟩
    · exact known name own
    · exact (each part held).known name needed
  supplied name typing used := by
    rw [Spelling.mem_imports_combine]
    refine (accounts name typing used).imp_right ?_
    rintro ⟨part, held, within⟩
    exact ⟨part, held, (each part held).supplied name typing within⟩

/-- A form of type that is applied to others uses its own name and what they use. -/
theorem IsInline.generic {name : String} {imports : List String} {parts : List Compiled}
    {arguments : List String} (closed : Closed name)
    (known : ∀ needed ∈ imports, needed ∈ typingNames)
    (own : ∀ needed ∈ typingNames, needed ∈ words name → needed ∈ imports)
    (each : ∀ part ∈ parts, IsInline part.type)
    (ofParts : ∀ argument ∈ arguments, Closed argument ∧
      ∀ needed ∈ typingNames, needed ∈ words argument →
        ∃ part ∈ parts, needed ∈ words part.expression) :
    IsInline
      ((⟨TypedDict.generic name arguments, imports⟩ : Spelling).combine parts).type := by
  have closedEach : ∀ argument ∈ arguments, Closed argument :=
    fun argument member => (ofParts argument member).1
  refine .combine (closed_generic closed closedEach) known each fun needed typing used => ?_
  rw [words_generic closed closedEach, List.mem_append] at used
  rcases used with ofName | ofArguments
  · exact .inl (own needed typing ofName)
  · obtain ⟨argument, member, within⟩ := List.mem_flatMap.mp ofArguments
    exact .inr ((ofParts argument member).2 needed typing within)

/-- A type around another one is an annotation if what it adds is imported. -/
theorem IsInline.around {name : String} {imports : List String} {part : Compiled}
    (closed : Closed name) (known : ∀ needed ∈ imports, needed ∈ typingNames)
    (own : ∀ needed ∈ typingNames, needed ∈ words name → needed ∈ imports)
    (inner : IsInline part.type) :
    IsInline
      ((⟨TypedDict.generic name [part.expression], imports⟩ : Spelling).combine [part]).type := by
  refine .generic closed known own (fun other member => List.mem_singleton.mp member ▸ inner) ?_
  intro argument member
  obtain rfl := List.mem_singleton.mp member
  exact ⟨inner.closed, fun needed _ within => ⟨part, List.mem_cons_self, within⟩⟩

/-- An enumeration is an annotation. -/
theorem isInline_enumeration (values : List Value) :
    IsInline ((enumeration values).combine []).type := by
  have none : ∀ part ∈ ([] : List Compiled), IsInline part.type :=
    fun _ member => absurd member List.not_mem_nil
  unfold enumeration
  split
  · exact .combine (by decide) (by decide) none fun name typing used => .inl (by
      revert name
      decide)
  · refine .generic (by decide) (by decide) (by decide) none fun argument member => ?_
    obtain ⟨value, _, rfl⟩ := List.mem_map.mp member
    exact ⟨closed_literal value, fun needed typing used =>
      absurd used (not_mem_words_literal typing value)⟩

/-- A union of annotations is an annotation. -/
theorem isInline_union {branches : List Compiled}
    (each : ∀ branch ∈ branches, IsInline branch.type) :
    IsInline ((union (branches.map (·.expression))).combine branches).type := by
  have kept : ∀ expression ∈ (branches.map (·.expression)).eraseDups,
      ∃ branch ∈ branches, branch.expression = expression :=
    fun expression member => List.mem_map.mp (List.mem_eraseDups.mp member)
  unfold union
  split
  · next expression single =>
      obtain ⟨branch, held, rfl⟩ := kept expression (single ▸ List.mem_cons_self)
      exact .combine (each branch held).closed (fun _ none => absurd none List.not_mem_nil) each
        fun name _ used => .inr ⟨branch, held, used⟩
  · refine .generic (by decide) (by decide) (by decide) each fun expression member => ?_
    obtain ⟨branch, held, rfl⟩ := kept expression member
    exact ⟨(each branch held).closed, fun needed _ used => ⟨branch, held, used⟩⟩

/-- A record whose fields have annotations is a class. -/
theorem isClass_record {spelled : RecordParts} {fields : List (Field × Compiled)}
    {bases : List String} (ofFields : ∀ field ∈ fields,
      field.1.expression = field.2.expression ∧ IsInline field.2.type) :
    IsClass (Dialect.recordOf (dialect.record spelled) (fields.map Prod.fst) bases
      (fields.map Prod.snd)).type where
  kind := rfl
  base := Spelling.mem_imports_combine.mpr (.inl List.mem_cons_self)
  known name member := by
    rcases Spelling.mem_imports_combine.mp member with own | ⟨part, held, needed⟩
    · obtain rfl := List.mem_singleton.mp own
      decide
    · obtain ⟨field, among, rfl⟩ := List.mem_map.mp held
      exact (ofFields field among).2.known name needed
  supplied field member name typing used := by
    obtain ⟨pair, held, rfl⟩ := List.mem_map.mp member
    obtain ⟨same, isInline⟩ := ofFields pair held
    rw [same] at used
    exact Spelling.mem_imports_combine.mpr (.inr ⟨pair.2, List.mem_map_of_mem held,
      isInline.supplied name typing used⟩)

/-- Annotations and classes have the imports that they need, in whatever way they are built. -/
theorem keeps_imports : dialect.Keeps IsInline IsClass where
  unknown := .combine (by decide) (by decide) (fun _ none => absurd none List.not_mem_nil)
    fun name typing used => .inl (by revert name; decide)
  primitive kind := .combine (keepsClosed_dialect.primitive kind) (by cases kind <;> decide)
    (fun _ none => absurd none List.not_mem_nil) fun name typing used => .inl (by
      revert name
      cases kind <;> decide)
  enumeration := isInline_enumeration
  reference name references :=
    { kind := rfl
      closed := keepsClosed_dialect.reference name
      known := fun _ none => absurd none (NameSet.not_mem_empty _)
      supplied := fun _ _ used => absurd (words_reference name ▸ used) List.not_mem_nil }
  array items inner := .around (by decide) (by decide) (by decide) inner
  stringMap values inner := by
    refine .generic (by decide) (by decide) (by decide)
      (fun other member => List.mem_singleton.mp member ▸ inner) fun argument member => ?_
    rcases List.mem_cons.mp member with rfl | last
    · exact ⟨by decide, fun needed typing used => absurd used (by revert needed; decide)⟩
    · obtain rfl := List.mem_singleton.mp last
      exact ⟨inner.closed, fun needed _ within => ⟨values, List.mem_cons_self, within⟩⟩
  union _ each := isInline_union each
  nullable content inner := .around (by decide) (by decide) (by decide) inner
  optional content inner := .around (by decide) (by decide) (by decide) inner
  described spelling none := nomatch none
  record name fields bases extras additional ofFields _ _ := by
    rw [if_pos (show dialect.fieldsOnly = true from rfl), List.append_nil]
    exact isClass_record ofFields
  mention _ name type isClass :=
    { kind := rfl
      closed := keepsClosed_dialect.reference name
      known := isClass.known
      supplied := fun _ _ used => absurd (words_reference name ▸ used) List.not_mem_nil }
  inPlace different := nomatch different

end TypedDict

/-! ## Pieces of a definition -/

namespace Source.TypedDict

open Text (words)
open OpenApi.TypedDict (fieldsName)

/-- A piece of the text of a definition: its own words and comments, a name of the typing library,
or the annotation of a field or an alias. -/
inductive Piece where
  | own (text : String)
  | library (name : String)
  | expression (text : String)
deriving DecidableEq

namespace Piece

def text : Piece → String
  | own text => text
  | library name => name
  | expression text => text

/-- A piece uses a name: it is the name, or an annotation with the name among its words. -/
def Uses : Piece → String → Prop
  | own _, _ => False
  | library used, name => name = used
  | expression text, name => name ∈ words text

instance : (piece : Piece) → (name : String) → Decidable (piece.Uses name)
  | own _, _ => inferInstanceAs (Decidable False)
  | library used, name => inferInstanceAs (Decidable (name = used))
  | expression text, name => inferInstanceAs (Decidable (name ∈ words text))

end Piece

/-- The text of a line that is written piece by piece. -/
def lineOf (pieces : List Piece) : String := String.join (pieces.map Piece.text)

/-- Lines that use no name of the library. -/
def ownLines (lines : List String) : List (List Piece) := lines.map fun line => [.own line]

def classPieces (name : String) (bases : List String) : List Piece :=
  [.own ("class " ++ name ++ "("),
    if bases.isEmpty then .library "TypedDict" else .own (", ".intercalate bases), .own "):"]

/-- A field after the text that introduces it. -/
def fieldPieces (before : String) (field : Field) : List Piece :=
  [.own (before ++ ": "), .expression field.expression]

def functionalPieces (name : String) (type : TypeExpr) : List Piece :=
  [.own (name ++ " = "), .library "TypedDict", .own ("(\"" ++ name ++ "\", \x7b")] ++
    List.intercalate [.own ", "]
      (type.fields.map fun field => fieldPieces (Text.quoted field.name) field) ++
    [.own "\x7d)"]

def recordPieces (definition : Definition) : List (List Piece) :=
  let name := Identifier.ofName definition.name
  let bases := definition.type.bases.map Identifier.ofName
  let documented := recordDocumentation definition
  let fields := definition.type.fields
  if fields.all fun field => Identifier.isIdentifier field.name then
    [classPieces name bases] ++ ownLines documented ++
      ownLines (if !documented.isEmpty && !fields.isEmpty then [""] else []) ++
      fields.map (fun field => fieldPieces (classIndent ++ field.name) field) ++
      ownLines (if documented.isEmpty && fields.isEmpty then [classIndent ++ "pass"] else [])
  else if bases.isEmpty then
    ownLines (comment definition) ++ [functionalPieces name definition.type]
  else
    let helper := fieldsName definition.name
    [functionalPieces helper definition.type] ++ ownLines ["", ""] ++
      [classPieces name (bases ++ [helper])] ++
      ownLines (if documented.isEmpty then [classIndent ++ "pass"] else documented)

/-- The lines of a definition, piece by piece. -/
def pieces (definition : Definition) : List (List Piece) :=
  match definition.type.kind with
  | .object => recordPieces definition
  | .typeAlias =>
    ownLines (comment definition) ++
      [[.own (Identifier.ofName definition.name ++ ": "), .library "TypeAlias", .own " = ",
        .expression definition.type.expression]]

/-- A definition uses a name: one of the pieces in its lines does. -/
def Uses (definition : Definition) (name : String) : Prop :=
  ∃ line ∈ pieces definition, ∃ piece ∈ line, piece.Uses name

instance (definition : Definition) (name : String) : Decidable (Uses definition name) :=
  inferInstanceAs (Decidable (∃ line ∈ pieces definition, ∃ piece ∈ line, piece.Uses name))

/-! ### The pieces make up the text -/

/-- Pieces put together make up the texts put together. -/
theorem lineOf_append (first second : List Piece) :
    lineOf (first ++ second) = lineOf first ++ lineOf second := by
  apply String.toList_inj.mp
  simp [lineOf]

theorem lineOf_own (text : String) : lineOf [.own text] = text := by
  apply String.toList_inj.mp
  simp [lineOf, Piece.text]

theorem map_lineOf_ownLines (lines : List String) : (ownLines lines).map lineOf = lines := by
  rw [ownLines, List.map_map]
  exact List.map_id'' lineOf_own lines

/-- The pieces of a class header make up the header. -/
theorem lineOf_classPieces (name : String) (bases : List String) :
    lineOf (classPieces name bases) =
      classHeader name (if bases.isEmpty then ["TypedDict"] else bases) := by
  apply String.toList_inj.mp
  unfold classPieces classHeader
  split <;> simp [lineOf, Piece.text]

/-- The pieces of a field make up its line, whatever stands before the annotation. -/
theorem lineOf_fieldPieces (before : String) (field : Field) :
    lineOf (fieldPieces before field) = before ++ ": " ++ field.expression := by
  apply String.toList_inj.mp
  simp [lineOf, fieldPieces, Piece.text]

/-- The pieces of the fields make up their lines. -/
theorem map_lineOf_fieldPieces (before : Field → String) (fields : List Field) :
    (fields.map fun field => fieldPieces (before field) field).map lineOf =
      fields.map fun field => before field ++ ": " ++ field.expression := by
  rw [List.map_map]
  apply List.map_congr_left
  intro field _
  exact lineOf_fieldPieces (before field) field

/-- Pieces with a text between them make up the texts with that text between them. -/
theorem lineOf_intercalate (separator : String) (items : List (List Piece)) :
    lineOf (List.intercalate [.own separator] items) = separator.intercalate (items.map lineOf) := by
  induction items with
  | nil => rfl
  | cons first rest ih =>
      cases rest with
      | nil => simp
      | cons second others =>
          rw [List.intercalate_cons_cons, lineOf_append, lineOf_append, lineOf_own, ih]
          exact String.intercalate_cons_cons.symm

/-- The pieces of a call make up the call. -/
theorem lineOf_functionalPieces (name : String) (type : TypeExpr) :
    lineOf (functionalPieces name type) = functional name type := by
  unfold functionalPieces functional
  rw [lineOf_append, lineOf_append, lineOf_intercalate,
    map_lineOf_fieldPieces fun field => Text.quoted field.name]
  apply String.toList_inj.mp
  simp [lineOf, Piece.text]

/-- The pieces of a record make up its lines. -/
theorem lines_recordPieces (definition : Definition) :
    (recordPieces definition).map lineOf = recordLines definition := by
  unfold recordPieces recordLines classLines
  dsimp only
  split
  · simp only [List.map_append, List.map_cons, List.map_nil, lineOf_classPieces,
      map_lineOf_ownLines, map_lineOf_fieldPieces fun field => classIndent ++ field.name]
  · split
    · simp only [List.map_append, List.map_cons, List.map_nil, map_lineOf_ownLines,
        lineOf_functionalPieces]
    · simp [lineOf_classPieces, map_lineOf_ownLines, lineOf_functionalPieces]

/-- Piece by piece, a definition is written as it stands in the module. -/
theorem lines_pieces (definition : Definition) :
    (pieces definition).map lineOf = definitionLines definition := by
  have written : lineOf [.own (Identifier.ofName definition.name ++ ": "), .library "TypeAlias",
      .own " = ", .expression definition.type.expression] =
        Identifier.ofName definition.name ++ ": TypeAlias = " ++ definition.type.expression := by
    apply String.toList_inj.mp
    simp [lineOf, Piece.text]
  unfold pieces definitionLines
  cases definition.type.kind with
  | object => exact lines_recordPieces definition
  | typeAlias =>
      dsimp only
      rw [List.map_append, map_lineOf_ownLines, List.map_singleton, written]

/-! ### Uses -/

/-- A piece of a record uses nothing but the base of all classes and what the fields use. -/
def Piece.IsOf (type : TypeExpr) (piece : Piece) : Prop :=
  ∀ name, piece.Uses name →
    name = "TypedDict" ∨ ∃ field ∈ type.fields, name ∈ words field.expression

variable {type : TypeExpr} {piece : Piece} {line : List Piece}

/-- A text of the module is a piece of any type. -/
theorem isOf_own (text : String) : (Piece.own text).IsOf type := nofun

/-- So are lines of such texts. -/
theorem isOf_ownLines {lines : List String} (listed : line ∈ ownLines lines)
    (member : piece ∈ line) : piece.IsOf type := by
  obtain ⟨text, _, rfl⟩ := List.mem_map.mp listed
  exact List.mem_singleton.mp member ▸ isOf_own text

/-- The pieces of a class header belong to a class of any type. -/
theorem isOf_classPieces {name : String} {bases : List String}
    (member : piece ∈ classPieces name bases) : piece.IsOf type := by
  intro used uses
  unfold classPieces at member
  simp only [List.mem_cons, List.not_mem_nil, or_false] at member
  rcases member with rfl | rfl | rfl
  · cases uses
  · split at uses
    · exact .inl uses
    · cases uses
  · cases uses

/-- The pieces of a field belong to the type that has the field. -/
theorem isOf_fieldPieces {before : String} {field : Field} (held : field ∈ type.fields)
    (member : piece ∈ fieldPieces before field) : piece.IsOf type := by
  intro used uses
  unfold fieldPieces at member
  simp only [List.mem_cons, List.not_mem_nil, or_false] at member
  rcases member with rfl | rfl
  · cases uses
  · exact .inr ⟨field, held, uses⟩

/-- What is in a list with others between its parts is in one of those or in a part. -/
theorem mem_intercalate {α : Type} {separator : List α} {items : List (List α)} {a : α}
    (member : a ∈ List.intercalate separator items) :
    a ∈ separator ∨ ∃ item ∈ items, a ∈ item := by
  induction items with
  | nil => cases member
  | cons first rest ih =>
      cases rest with
      | nil => exact .inr ⟨first, List.mem_cons_self, by simpa using member⟩
      | cons second others =>
          rw [List.intercalate_cons_cons] at member
          rcases List.mem_append.mp member with early | later
          · rcases List.mem_append.mp early with own | between
            · exact .inr ⟨first, List.mem_cons_self, own⟩
            · exact .inl between
          · refine (ih later).imp_right ?_
            rintro ⟨item, held, within⟩
            exact ⟨item, List.mem_cons_of_mem _ held, within⟩

/-- The pieces of a call belong to the type that it makes. -/
theorem isOf_functionalPieces {name : String} (member : piece ∈ functionalPieces name type) :
    piece.IsOf type := by
  unfold functionalPieces at member
  rcases List.mem_append.mp member with early | closing
  · rcases List.mem_append.mp early with opening | fields
    · intro used uses
      simp only [List.mem_cons, List.not_mem_nil, or_false] at opening
      rcases opening with rfl | rfl | rfl
      · cases uses
      · exact .inl uses
      · cases uses
    · rcases mem_intercalate fields with separator | ⟨item, listed, within⟩
      · exact List.mem_singleton.mp separator ▸ isOf_own _
      · obtain ⟨field, held, rfl⟩ := List.mem_map.mp listed
        exact isOf_fieldPieces held within
  · exact List.mem_singleton.mp closing ▸ isOf_own _

/-- The pieces of a record belong to its type. -/
theorem isOf_recordPieces {definition : Definition} (listed : line ∈ recordPieces definition)
    (member : piece ∈ line) : piece.IsOf definition.type := by
  unfold recordPieces at listed
  dsimp only at listed
  split at listed
  · simp only [List.mem_append, List.mem_singleton] at listed
    rcases listed with (((header | documented) | blank) | fields) | body
    · exact isOf_classPieces (header ▸ member)
    · exact isOf_ownLines documented member
    · exact isOf_ownLines blank member
    · obtain ⟨field, held, rfl⟩ := List.mem_map.mp fields
      exact isOf_fieldPieces held member
    · exact isOf_ownLines body member
  · split at listed
    · simp only [List.mem_append, List.mem_singleton] at listed
      rcases listed with comment | functional
      · exact isOf_ownLines comment member
      · exact isOf_functionalPieces (functional ▸ member)
    · simp only [List.mem_append, List.mem_singleton] at listed
      rcases listed with ((functional | blank) | header) | body
      · exact isOf_functionalPieces (functional ▸ member)
      · exact isOf_ownLines blank member
      · exact isOf_classPieces (header ▸ member)
      · exact isOf_ownLines body member

open OpenApi.TypedDict (IsClass IsInline typingNames)

/-- A definition whose type has the imports that it needs has those that its text needs. -/
theorem mem_importsOf_of_uses {definition : Definition} {name : String}
    (fits : IsClass definition.type ∨ IsInline definition.type)
    (typing : name ∈ typingNames) (uses : Uses definition name) : name ∈ importsOf definition := by
  obtain ⟨line, listed, piece, member, used⟩ := uses
  unfold pieces at listed
  unfold importsOf
  rcases fits with isClass | isInline
  · rw [isClass.kind] at listed ⊢
    rcases isOf_recordPieces listed member name used with rfl | ⟨field, held, within⟩
    · exact isClass.base
    · exact isClass.supplied field held name typing within
  · rw [isInline.kind] at listed ⊢
    rw [NameSet.mem_insert]
    rcases List.mem_append.mp listed with comment | declaration
    · obtain ⟨text, _, rfl⟩ := List.mem_map.mp comment
      obtain rfl := List.mem_singleton.mp member
      cases used
    · rw [List.mem_singleton.mp declaration] at member
      simp only [List.mem_cons, List.not_mem_nil, or_false] at member
      rcases member with rfl | rfl | rfl | rfl
      · cases used
      · exact .inr used
      · cases used
      · exact .inl (isInline.supplied name typing used)

/-- A module imports what its definitions import. -/
theorem mem_imports_iff {built : List Definition} {name : String} :
    name ∈ imports built ↔ ∃ definition ∈ built, name ∈ importsOf definition := by
  rw [imports, NameSet.mem_foldl_union]
  simp

end Source.TypedDict

/-! ## Emitted modules -/

namespace Emission

open Source.TypedDict (Uses pieces lineOf definitionLines moduleText header importsOf)
open TypedDict (IsClass IsInline typingNames)

/-- What every way of building a type keeps holds of the definitions of a run. -/
theorem Emits.keeps {dialect : Dialect} {schemas : Mapping} {names : List (String × String)}
    {done : List String} {progress : Progress} {inner whole : TypeExpr → Prop}
    (emits : Emits dialect schemas names done progress) (keeps : dialect.Keeps inner whole) :
    ∀ definition ∈ progress.definitions, whole definition.type ∨ inner definition.type := by
  induction emits with
  | start => exact fun _ none => absurd none List.not_mem_nil
  | @next done progress name emitted schema compiled before named assigned compiles ih =>
      have has := keeps.compile compiles
      intro definition listed
      rcases List.mem_append.mp listed with early | own
      · rcases List.mem_append.mp early with earlier | brought
        · exact ih definition earlier
        · exact .inl (has.auxiliary definition brought)
      · obtain rfl := List.mem_singleton.mp own
        have own := has.type
        split at own
        · exact .inl own
        · exact .inr own

/-- Every definition of a class module is a class or an annotation. -/
theorem fits_of_definitions {schemas : Mapping} {built : List Definition}
    (builds : (definitions TypedDict.dialect schemas).Yields built) :
    ∀ definition ∈ built, IsClass definition.type ∨ IsInline definition.type := by
  obtain ⟨names, final, _, run, rfl⟩ := emits_of_definitions TypedDict.tellsNumbersApart builds
  exact run.keeps TypedDict.keeps_imports

/-- **Every name is imported.** The text of each definition is written piece by piece, and whatever
name of the typing library one of its pieces uses, be it the base of a class, the mark of an alias
or a word of an annotation, the one import line of the module has it. -/
theorem uses_are_imported (schemas : Mapping) (built : List Definition)
    (builds : (definitions TypedDict.dialect schemas).Yields built) :
    ∀ definition ∈ built, (pieces definition).map lineOf = definitionLines definition ∧
      ∀ name ∈ typingNames, Uses definition name →
        ∃ names, name ∈ names ∧ moduleText built = "\n".intercalate
          ([header, "", "from typing import " ++ ", ".intercalate names] ++
            (built.flatMap fun other => ["", ""] ++ definitionLines other) ++ [""]) := by
  intro definition listed
  refine ⟨Source.TypedDict.lines_pieces definition, fun name typing uses => ?_⟩
  have fits := fits_of_definitions builds definition listed
  have imported : name ∈ Source.TypedDict.imports built :=
    Source.TypedDict.mem_imports_iff.mpr
      ⟨definition, listed, Source.TypedDict.mem_importsOf_of_uses fits typing uses⟩
  have some : (Source.TypedDict.imports built).isEmpty = false :=
    List.isEmpty_eq_false_iff_exists_mem.mpr ⟨name, imported⟩
  refine ⟨(Source.TypedDict.imports built).sorted, NameSet.mem_sorted.mpr imported, ?_⟩
  unfold moduleText
  dsimp only
  rw [some, if_neg Bool.false_ne_true]
  rfl

/-! ## A record with parts of several kinds -/

/-- A record with a nested record and with a number or a text, neither of them required. -/
def noteRaw : Value :=
  .map [(.text "properties", .map
    [(.text "tag", .map [(.text "properties", .map [(.text "kind", .map [])])]),
      (.text "body", .map [(.text "anyOf", .list
        [.map [(.text "type", .text "integer")], .map [(.text "type", .text "string")]])])])]

/-- What it is read as. -/
def noteSchema : Schema :=
  .object {} (some
    [(.text "tag", .object {} (some [(.text "kind", .unknown {})]) [] .unstated),
      (.text "body", .composition {} .anyOf [.primitive {} .integer, .primitive {} .string])])
    [] .unstated

/-- The class of the nested record. -/
def noteTag : Definition where
  name := "NoteTag"
  type :=
    { expression := "NoteTag"
      imports := .ofList ["TypedDict", "NotRequired", "Any"]
      kind := .object
      fields := [⟨"kind", "NotRequired[Any]", false, none⟩] }
  synthesized := true

/-- The class of the whole. -/
def note : Definition where
  name := "Note"
  type :=
    { expression := "Note"
      imports := .ofList ["TypedDict", "NotRequired", "Any", "Union"]
      kind := .object
      fields := [⟨"tag", "NotRequired[\"NoteTag\"]", false, none⟩,
        ⟨"body", "NotRequired[Union[int, str]]", false, none⟩] }

/-- The record is read with both its properties. -/
theorem ofValue_noteRaw : Schema.ofValue noteRaw = .ok noteSchema := by
  have integer : Schema.ofValue (.map [(.text "type", .text "integer")]) =
      .ok (.primitive {} .integer) := by cbv
  have string : Schema.ofValue (.map [(.text "type", .text "string")]) =
      .ok (.primitive {} .string) := by cbv
  have branches : Schema.ofItems
      [.map [(.text "type", .text "integer")], .map [(.text "type", .text "string")]] =
      .ok [.primitive {} .integer, .primitive {} .string] := by
    simp [Schema.ofItems, integer, string, bind, Except.bind, pure, Except.pure]
  have union : Schema.ofValue (.map [(.text "anyOf", .list
        [.map [(.text "type", .text "integer")], .map [(.text "type", .text "string")]])]) =
      .ok (.composition {} .anyOf [.primitive {} .integer, .primitive {} .string]) :=
    Schema.ofValue_of_branches (by simp) (by simp) (by rfl) (by rfl) branches
  apply Schema.ofValue_of_properties
  simp [Schema.ofEntries, union, Schema.ofValue_of_property, bind, Except.bind, pure, Except.pure]

/-- Its module has the class of the nested record, and then its own. -/
theorem yields_note : (definitions TypedDict.dialect [(.text "Note", noteRaw)]).Yields
    [noteTag, note] := by
  have compiles : (TypedDict.dialect.compile "Note" noteSchema
      (surroundings [(.text "Note", noteRaw)] [("Note", "Note")]
        { reserved := (NameSet.ofList ["Note"]).insertAll ["Note"] } "Note")).Yields
      ⟨note.type, [noteTag]⟩ := by
    unfold Traced.Yields
    cbv
  exact yields_single ofValue_noteRaw compiles

theorem uses_are_imported_note :
    (definitions TypedDict.dialect [(.text "Note", noteRaw)]).Yields [noteTag, note] ∧
      ∀ name ∈ ["Any", "NotRequired", "TypedDict", "Union"], ∃ definition ∈ [noteTag, note],
        (pieces definition).map lineOf = definitionLines definition ∧ Uses definition name ∧
        ∃ names, name ∈ names ∧ moduleText [noteTag, note] =
          "\n".intercalate ([header, "", "from typing import " ++ ", ".intercalate names] ++
            ["", "", "class NoteTag(TypedDict):", "    kind: NotRequired[Any]", "", "",
              "class Note(TypedDict):", "    tag: NotRequired[\"NoteTag\"]",
              "    body: NotRequired[Union[int, str]]"] ++ [""]) := by
  refine ⟨yields_note, fun name member => ?_⟩
  have typing : name ∈ typingNames := by
    revert name
    decide
  obtain ⟨definition, listed, uses⟩ : ∃ definition ∈ [noteTag, note], Uses definition name := by
    revert name
    decide
  have written : [noteTag, note].flatMap (fun other => ["", ""] ++ definitionLines other) =
      ["", "", "class NoteTag(TypedDict):", "    kind: NotRequired[Any]", "", "",
        "class Note(TypedDict):", "    tag: NotRequired[\"NoteTag\"]",
        "    body: NotRequired[Union[int, str]]"] := by decide
  obtain ⟨lines, imported⟩ := uses_are_imported _ _ yields_note definition listed
  obtain ⟨names, included, module⟩ := imported name typing uses
  rw [written] at module
  exact ⟨definition, listed, lines, uses, names, included, module⟩

end Emission

end OpenApi
