import OpenApi.Proofs.Source.Documentation
import OpenApi.Proofs.Text.Nesting
import OpenApi.Source.TypedDict

/-!
# The text of classes

A record is written as a class: a header, a documentation string if anything is described, and a
line for each field, or `pass` where nothing else would follow the header.  Descriptions stand in
the documentation string only.  Where the keys of a record are identifiers they stand in it as the
names of attributes and cannot end it.  Other keys can, as they are written without being made
harmless: a class that inherits such fields is closed exactly if no key that has a description ends
a string in which it stands.
-/

namespace OpenApi.Source.TypedDict

open Text (Closed IsPlain Leads)

/-! ## Headers -/

/-- The header of a class is one line in which brackets match. -/
theorem closed_classHeader {name : String} {bases : List String} (plain : IsPlain name)
    (each : ∀ base ∈ bases, IsPlain base) : Closed (classHeader name bases) := by
  have keyword : Closed "class " := by decide
  have opening : Leads "(" [] [')'] := rfl
  have ending : Leads "):" [')'] [] := rfl
  have inside : Closed (", ".intercalate bases) :=
    .intercalate (by decide) fun base member => (each base member).closed
  exact .within (Leads.append (keyword.append plain.closed) opening) inside ending

theorem isPlain_fieldsName (name : String) : IsPlain (OpenApi.TypedDict.fieldsName name) := by
  have before : IsPlain "_" := by decide
  have behind : IsPlain "Fields" := by decide
  exact (before.append (Text.isPlain_ofName name)).append behind

theorem isPlain_of_mem_map_ofName {names : List String} :
    ∀ base ∈ names.map Identifier.ofName, IsPlain base := by
  intro base member
  obtain ⟨name, _, rfl⟩ := List.mem_map.mp member
  exact Text.isPlain_ofName name

/-! ## Bodies -/

/-- What follows the header of a class with some documentation and with fields of some names and
types: the documentation, a gap if fields follow it, and the fields; or `pass`. -/
def bodyLines (documentation : List String) (fields : List (String × String)) : List String :=
  match documentation, fields with
  | [], [] => [classIndent ++ "pass"]
  | documentation, [] => documentation
  | [], fields => fields.map fun field => classIndent ++ field.1 ++ ": " ++ field.2
  | documentation, fields =>
    documentation ++ "" :: fields.map fun field => classIndent ++ field.1 ++ ": " ++ field.2

/-- A class is a header, which shows no description, and a body. -/
theorem classLines_eq (name : String) (bases : List String) (definition : Definition) :
    classLines name bases definition =
      classHeader name (if bases.isEmpty then ["TypedDict"] else bases) ::
        bodyLines (recordDocumentation definition)
          (definition.type.fields.map fun field => (field.name, field.expression)) := by
  unfold classLines bodyLines
  cases recordDocumentation definition <;> cases definition.type.fields <;> simp

theorem bodyLines_nil (documentation : List String) :
    bodyLines documentation [] =
      if documentation.isEmpty then [classIndent ++ "pass"] else documentation := by
  cases documentation <;> rfl

theorem mem_attributes_iff {type : TypeExpr} {entry : String × String} :
    entry ∈ attributes type ↔
      ∃ field ∈ type.fields, field.name = entry.1 ∧ described field.description = some entry.2 := by
  obtain ⟨name, description⟩ := entry
  unfold attributes
  simp only [List.mem_filterMap, Option.map_eq_some_iff, Prod.mk.injEq]
  constructor
  · rintro ⟨field, held, _, stated, rfl, rfl⟩
    exact ⟨field, held, rfl, stated⟩
  · rintro ⟨field, held, rfl, stated⟩
    exact ⟨field, held, description, stated, rfl, rfl⟩

/-- A record has no documentation, or it is one string, exactly if no key with a description ends a
string in which it stands. -/
theorem recordDocumentation_iff (definition : Definition) :
    recordDocumentation definition = [] ∨ IsDocumentation (recordDocumentation definition) ↔
      ∀ field ∈ definition.type.fields, (described field.description).isSome →
        KeepsOpen field.name.toList := by
  unfold recordDocumentation
  rw [documented_iff]
  constructor
  · intro each field held stated
    obtain ⟨description, stated⟩ := Option.isSome_iff_exists.mp stated
    exact each (field.name, description) (mem_attributes_iff.mpr ⟨field, held, rfl, stated⟩)
  · intro each entry member
    obtain ⟨field, held, same, stated⟩ := mem_attributes_iff.mp member
    exact same ▸ each field held (Option.isSome_iff_exists.mpr ⟨_, stated⟩)

/-! ## Classes whose keys are identifiers -/

/-- An identifier ends no string in which it stands. -/
theorem keepsOpen_of_isIdentifier {name : String} (named : Identifier.isIdentifier name) :
    KeepsOpen name.toList := by
  have plain {c : Char} (continues : Text.isIdentifierContinue c) : c ≠ '"' ∧ c ≠ '\\' := by
    constructor <;>
    · rintro rfl
      exact absurd continues (by decide)
  have starting {c : Char} (starts : Text.isIdentifierStart c) : c ≠ '"' ∧ c ≠ '\\' := by
    constructor <;>
    · rintro rfl
      exact absurd starts (by decide)
  refine (Harmless.of_plain ?_).keepsOpen
  unfold Identifier.isIdentifier at named
  split at named
  · cases named
  · next first rest spelled =>
      simp only [Bool.and_eq_true, List.all_eq_true] at named
      rw [spelled]
      exact List.forall_mem_cons.mpr
        ⟨starting named.1.1, fun c member => plain (named.1.2 c member)⟩

/-- **Classes are closed.** A record whose keys are identifiers is written as one header, then
either nothing or one string between three quotes, then the fields or `pass`.  Headers and fields
are made of names and types alone, so that all that is described stands in the string. -/
theorem class_documentation_is_one_string {definition : Definition}
    (record : definition.type.kind = .object)
    (named : ∀ field ∈ definition.type.fields, Identifier.isIdentifier field.name) :
    ∃ header documentation,
      definitionLines definition = header :: bodyLines documentation
        (definition.type.fields.map fun field => (field.name, field.expression)) ∧
      header = classHeader (Identifier.ofName definition.name)
        (if definition.type.bases.isEmpty then ["TypedDict"]
          else definition.type.bases.map Identifier.ofName) ∧
      Closed header ∧
      (documentation = [] ∨ IsDocumentation documentation) := by
  have isClass : definition.type.fields.all fun field => Identifier.isIdentifier field.name :=
    List.all_eq_true.mpr named
  refine ⟨_, recordDocumentation definition, ?_, rfl, ?_, ?_⟩
  · rw [definitionLines, record]
    dsimp only
    rw [recordLines, if_pos isClass, classLines_eq, List.isEmpty_map]
  · refine closed_classHeader (Text.isPlain_ofName _) fun base member => ?_
    split at member
    · rw [List.mem_singleton.mp member]
      decide
    · exact isPlain_of_mem_map_ofName base member
  · exact (recordDocumentation_iff definition).mpr fun field held _ =>
      keepsOpen_of_isIdentifier (named field held)

/-- A text with three quotes in a row, a backslash and a quote at its end. -/
def quotedText : String := "say \"\"\"hi\"\"\" \\\""

theorem class_documentation_is_one_string_quotedText :
    let definition : Definition :=
      { name := "Pet"
        type :=
          { expression := "Pet"
            kind := .object
            fields := [⟨"tag", "str", true, some quotedText⟩] }
        description := some quotedText }
    ∃ header documentation,
      definitionLines definition = header :: bodyLines documentation [("tag", "str")] ∧
      header = classHeader "Pet" ["TypedDict"] ∧
      Closed header ∧
      (documentation = [] ∨ IsDocumentation documentation) :=
  class_documentation_is_one_string rfl (by decide)

/-! ## Classes that inherit their fields -/

/-- Documentation opens with quotes, so that it is not taken for the word of an empty class. -/
theorem documentation_ne_pass (description : Option String) (attributes : List (String × String)) :
    documentation description attributes classIndent ≠ [classIndent ++ "pass"] := by
  unfold documentation
  split
  · exact nofun
  · next first rest cut =>
      split
      · intro same
        have shape := congrArg String.toList (List.cons.inj same).1
        simp [classIndent] at shape
      · intro same
        have lengths := congrArg List.length same
        simp at lengths

theorem bodyLines_nil_iff (definition : Definition) :
    (bodyLines (recordDocumentation definition) [] = [classIndent ++ "pass"] ∨
        IsDocumentation (bodyLines (recordDocumentation definition) [])) ↔
      recordDocumentation definition = [] ∨ IsDocumentation (recordDocumentation definition) := by
  rw [bodyLines_nil]
  cases documented : recordDocumentation definition with
  | nil => exact iff_of_true (.inl rfl) (.inl rfl)
  | cons first rest =>
      have noWord : first :: rest ≠ [classIndent ++ "pass"] :=
        documented ▸ documentation_ne_pass _ _
      rw [List.isEmpty_cons, if_neg Bool.false_ne_true, or_iff_right noWord,
        or_iff_right (List.cons_ne_nil _ _)]

section Inheriting

variable {definition : Definition} (record : definition.type.kind = .object)
  (inherits : definition.type.bases ≠ [])
  (unnamed : ∃ field ∈ definition.type.fields, Identifier.isIdentifier field.name = false)

include record inherits unnamed

/-- A record with bases is written as a functional definition of its own fields, and a class over
the bases and that definition. -/
theorem inheriting_lines :
    definitionLines definition =
      [functional (OpenApi.TypedDict.fieldsName definition.name) definition.type, "", "",
        classHeader (Identifier.ofName definition.name)
          (definition.type.bases.map Identifier.ofName ++
            [OpenApi.TypedDict.fieldsName definition.name])] ++
        bodyLines (recordDocumentation definition) [] := by
  obtain ⟨field, held, noName⟩ := unnamed
  have noClass :
      ¬ (definition.type.fields.all fun field => Identifier.isIdentifier field.name) := by
    intro all
    have named := List.all_eq_true.mp all field held
    rw [noName] at named
    cases named
  have based : (definition.type.bases.map Identifier.ofName).isEmpty = false := by
    simpa using inherits
  rw [definitionLines, record]
  dsimp only
  rw [recordLines, if_neg noClass, based, bodyLines_nil]
  rfl

/-- **Classes that inherit their fields.** A record with bases of which a key is no identifier is
written as a helper that has the fields, and a class that inherits it.  The header of the class is
followed by `pass` or by one string between three quotes exactly if no key with a description ends a
string in which it stands. -/
theorem inheriting_documentation_is_one_string_iff :
    ∃ header body,
      definitionLines definition =
        [functional (OpenApi.TypedDict.fieldsName definition.name) definition.type, "", "",
          header] ++ body ∧
      header = classHeader (Identifier.ofName definition.name)
        (definition.type.bases.map Identifier.ofName ++
          [OpenApi.TypedDict.fieldsName definition.name]) ∧
      Closed header ∧
      ((body = [classIndent ++ "pass"] ∨ IsDocumentation body) ↔
        ∀ field ∈ definition.type.fields, (described field.description).isSome →
          KeepsOpen field.name.toList) := by
  refine ⟨_, _, inheriting_lines record inherits unnamed, rfl, ?_, ?_⟩
  · refine closed_classHeader (Text.isPlain_ofName _) fun base member => ?_
    rcases List.mem_append.mp member with own | helper
    · exact isPlain_of_mem_map_ofName base own
    · rw [List.mem_singleton.mp helper]
      exact isPlain_fieldsName _
  · rw [bodyLines_nil_iff, recordDocumentation_iff]

end Inheriting

/-- A record with a base and with two keys that are no identifiers. -/
def tagged (key : String) : Definition where
  name := "Tagged"
  type :=
    { expression := "Tagged"
      kind := .object
      fields := [⟨"x-tag", "str", true, some quotedText⟩, ⟨key, "str", true, some quotedText⟩]
      bases := ["Base"] }
  description := some quotedText

/-- The quotes of a key stay within the string if a backslash stands before them. -/
theorem inheriting_documentation_is_one_string_iff_tagged :
    (∃ header body,
      definitionLines (tagged "\\\"\"\"") =
        [functional "_TaggedFields" (tagged "\\\"\"\"").type, "", "", header] ++ body ∧
      header = classHeader "Tagged" ["Base", "_TaggedFields"] ∧
      Closed header ∧
      ((body = [classIndent ++ "pass"] ∨ IsDocumentation body) ↔
        ∀ field ∈ (tagged "\\\"\"\"").type.fields, (described field.description).isSome →
          KeepsOpen field.name.toList)) ∧
    ∀ field ∈ (tagged "\\\"\"\"").type.fields, (described field.description).isSome →
      KeepsOpen field.name.toList :=
  ⟨inheriting_documentation_is_one_string_iff rfl (List.cons_ne_nil _ _)
    ⟨_, List.mem_cons_self, by decide⟩, by decide⟩

/-- Three quotes in a key end the string. -/
theorem not_inheriting_documentation_always_one_string :
    ¬ ∀ definition : Definition,
        definition.type.kind = .object → definition.type.bases ≠ [] →
        (∃ field ∈ definition.type.fields, Identifier.isIdentifier field.name = false) →
        ∃ header body,
          definitionLines definition =
            [functional (OpenApi.TypedDict.fieldsName definition.name) definition.type, "", "",
              header] ++ body ∧
          (body = [classIndent ++ "pass"] ∨ IsDocumentation body) := by
  intro always
  have unnamed : ∃ field ∈ (tagged "\"\"\"").type.fields,
      Identifier.isIdentifier field.name = false :=
    ⟨_, List.mem_cons_self, by decide⟩
  have inherits : (tagged "\"\"\"").type.bases ≠ [] := List.cons_ne_nil _ _
  obtain ⟨header, body, written, closed⟩ := always _ rfl inherits unnamed
  have shape := written.symm.trans (inheriting_lines rfl inherits unnamed)
  obtain ⟨_, rfl⟩ := List.append_inj shape rfl
  have each := (recordDocumentation_iff _).mp ((bodyLines_nil_iff _).mp closed)
  exact absurd (each _ (List.mem_cons_of_mem _ List.mem_cons_self)) (by decide)

end OpenApi.Source.TypedDict
