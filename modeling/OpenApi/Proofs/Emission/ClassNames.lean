import OpenApi.Proofs.Compile.Annotations
import OpenApi.Proofs.Emission.Closed
import OpenApi.Proofs.Emission.Identifiers
import OpenApi.Proofs.Emission.Imports
import OpenApi.Proofs.Identifier.Legal
import OpenApi.Proofs.Source.Classes

/-!
# Names in class modules

A module of classes names things in four places: where a class or an alias is declared, where the
helper of a class is, in the bases of classes, and in forward references.  All of these are written
as identifiers of names that are put together from names of the document, by a number or by words of
ASCII letters and digits (`IsWritten`).  So whether one is legal depends on the name of the document
alone, and some are not: superscript digits, for instance, are kept, and no identifier has them.
-/

namespace OpenApi

open Identifier

namespace TypedDict

/-- The name of a helper begins with an underscore, so that nothing may be wrong with it but a
character of the name that may stand in no identifier. -/
theorem isIdentifier_fieldsName_iff (name : String) :
    isIdentifier (fieldsName name) ↔ Continuable name := by
  have free : fieldsName name ∉ reservedWords := by
    intro reserved
    have noMark : reservedWords.all fun word => word.toList.head? != some '_' := by decide
    have begins := List.all_eq_true.mp noMark _ reserved
    simp [fieldsName] at begins
  have spelled : (fieldsName name).toList = '_' :: ((ofName name).toList ++ "Fields".toList) := by
    simp [fieldsName]
  have underscore : Text.isIdentifierStart '_' := by decide
  have joinable : "Fields".toList.all isJoinable := by decide
  have behind : ∀ c ∈ "Fields".toList, Text.isIdentifierContinue c := fun c member =>
    isIdentifierContinue_of_isJoinable (List.all_eq_true.mp joinable c member)
  rw [isIdentifier_iff, and_iff_left free, spelled, legal_cons_iff, and_iff_right underscore,
    List.forall_mem_append, and_iff_left behind, continues_ofName_iff]

end TypedDict

/-! ## The text of definitions -/

namespace Source.TypedDict

open OpenApi.TypedDict (Annotates IsExpression IsRecord fieldsName)

/-- The lines of a definition, in which all identifiers but the keys of fields belong to known
names: a class, a functional definition, a helper with the class that inherits it, or an alias. -/
inductive IsWritten (known : String → Prop) (definition : Definition) : List String → Prop
  | inClassForm {name : String} {bases : List String} {fields : List (String × String)}
      (isKnown : known name) (builds : ∀ base ∈ bases, known base)
      (annotated : ∀ field ∈ fields, Annotates known field.2) :
      IsWritten known definition
        (classHeader (ofName name) (if bases.isEmpty then ["TypedDict"] else bases.map ofName) ::
          bodyLines (recordDocumentation definition) fields)
  | inFunctionalForm {name : String} {type : TypeExpr} (isKnown : known name)
      (annotated : ∀ field ∈ type.fields, Annotates known field.expression) :
      IsWritten known definition (comment definition ++ [functional (ofName name) type])
  | withHelper {name : String} {bases : List String} {type : TypeExpr} (isKnown : known name)
      (builds : ∀ base ∈ bases, known base)
      (annotated : ∀ field ∈ type.fields, Annotates known field.expression) :
      IsWritten known definition
        ([functional (fieldsName name) type, "", "",
          classHeader (ofName name) (bases.map ofName ++ [fieldsName name])] ++
            bodyLines (recordDocumentation definition) [])
  | asAlias {name annotation : String} (isKnown : known name)
      (annotated : Annotates known annotation) :
      IsWritten known definition
        (comment definition ++ [ofName name ++ ": TypeAlias = " ++ annotation])

variable {known : String → Prop} {definition : Definition}

/-- The lines of a record hold its name and known names only, both as a class and as a call. -/
theorem isWritten_of_isRecord (isKnown : known definition.name)
    (isRecord : IsRecord known definition.type) :
    IsWritten known definition (definitionLines definition) := by
  rw [definitionLines, isRecord.kind]
  dsimp only
  unfold recordLines
  dsimp only
  split
  · rw [classLines_eq, List.isEmpty_map]
    refine .inClassForm isKnown isRecord.bases fun field member => ?_
    obtain ⟨own, held, rfl⟩ := List.mem_map.mp member
    exact isRecord.annotated own held
  · split
    · exact .inFunctionalForm isKnown isRecord.annotated
    · rw [← bodyLines_nil]
      exact .withHelper isKnown isRecord.bases isRecord.annotated

theorem isWritten_of_isExpression (isKnown : known definition.name)
    (isExpression : IsExpression known definition.type) :
    IsWritten known definition (definitionLines definition) := by
  rw [definitionLines, isExpression.kind]
  exact .asAlias isKnown isExpression.annotates

end Source.TypedDict

/-! ## Emitted modules -/

namespace Emission

open TypedDict (IsExpression IsRecord Knows fieldsName)
open Source.TypedDict (IsWritten definitionLines)

/-- A name of a document: a schema has it, or a pointer to a schema of that name occurs in one. -/
inductive Origin (schemas : Mapping) (name : String) : Prop
  | schema (held : name ∈ schemas.names)
  | pointer {entry : Scalar × Value} (member : entry ∈ schemas)
      (occurs : Reference.Occurs (Reference.schemaRoot ++ name) entry.2)

/-- A name continues another one, and what is written for it is legal exactly if the other one
permits. -/
structure Follows (origin name : String) : Prop where
  continues : Continues name origin
  legal : isIdentifier (ofName name) ↔ Nameable origin
  legalHelper : isIdentifier (fieldsName name) ↔ Continuable origin

/-- A name that follows from a name of the document. -/
def Derived (schemas : Mapping) (name : String) : Prop :=
  ∃ origin, Origin schemas origin ∧ Follows origin name

theorem Follows.of_continues {origin name : String} (continues : Continues name origin) :
    Follows origin name where
  continues
  legal := (isIdentifier_ofName_iff name).trans (nameable_iff_of_continues continues)
  legalHelper := (TypedDict.isIdentifier_fieldsName_iff name).trans
    (continuable_iff_of_continues continues)

/-- A name that continues a derived name is derived from the same schema. -/
theorem Derived.of_continues {schemas : Mapping} {name longer : String}
    (derived : Derived schemas name) (continues : Continues longer name) :
    Derived schemas longer := by
  obtain ⟨origin, isOrigin, follows⟩ := derived
  exact ⟨origin, isOrigin, .of_continues (continues.trans follows.continues)⟩

variable {schemas : Mapping} {names : List (String × String)} {done : List String}
  {progress : Progress}

/-- The name that a schema is emitted under is derived from its own. -/
theorem derived_of_assigned {used : NameSet} {name emitted : String}
    (assigns : (assignNames TypedDict.dialect used (schemas.map (·.1))).Yields names)
    (assigned : names.lookup name = some emitted) : Derived schemas emitted := by
  obtain ⟨key, continues⟩ := assignNames_continues assigns _ (Mapping.mem_of_lookup assigned)
  exact ⟨name, .schema (Mapping.mem_names_iff.mpr key), .of_continues continues⟩

/-- All that is pointed to is emitted under the name in the pointer, or under a name that continues
the name of the schema. -/
theorem knows_surroundings {used : NameSet} {name : String} {schema : Schema} (emitted : String)
    (assigns : (assignNames TypedDict.dialect used (schemas.map (·.1))).Yields names)
    (named : Named schemas name schema) :
    Knows (Derived schemas) schema (surroundings schemas names progress emitted) where
  continued := Derived.of_continues
  emitted target cited := by
    change Derived schemas ((names.lookup target).getD target)
    cases assigned : names.lookup target with
    | some other => exact derived_of_assigned assigns assigned
    | none =>
        refine ⟨target, ?_, .of_continues (.refl target)⟩
        obtain ⟨raw, held, read⟩ := named
        cases cited.shown with
        | compiled within occurs => exact .pointer (Mapping.mem_of_lookup held) (occurs raw read)
        | given member occurs => exact .pointer member occurs

theorem Contributes.isWritten {used : NameSet} {name : String} {block : List Definition}
    (assigns : (assignNames TypedDict.dialect used (schemas.map (·.1))).Yields names)
    (contributes : Contributes TypedDict.dialect schemas names name block) :
    ∀ definition ∈ block, IsWritten (Derived schemas) definition (definitionLines definition) := by
  obtain ⟨_, _, emitted, schema, compiled, _, named, assigned, compiles, _, rfl⟩ := contributes
  have isDerived := derived_of_assigned assigns assigned
  obtain ⟨own, each⟩ :=
    TypedDict.annotated_of_compile (knows_surroundings emitted assigns named) isDerived compiles
  intro definition member
  rcases List.mem_append.mp member with brought | last
  · obtain ⟨named, isRecord⟩ := each definition brought
    exact Source.TypedDict.isWritten_of_isRecord named isRecord
  · obtain rfl := List.mem_singleton.mp last
    rcases own with isRecord | isExpression
    · exact Source.TypedDict.isWritten_of_isRecord isDerived isRecord
    · exact Source.TypedDict.isWritten_of_isExpression isDerived isExpression

/-- **Names in class modules.** The identifier of a name is its own identifier, and it is legal
exactly if no word character of the name stands where identifiers may not have it.  Whatever class,
alias, helper, base or forward reference is written in a module, it belongs to a name that follows
from one of the document, and it is legal exactly if that one permits. -/
theorem written_names_are_identifiers_iff (schemas : Mapping) (built : List Definition)
    (builds : (definitions TypedDict.dialect schemas).Yields built) :
    (∀ name, ofName (ofName name) = ofName name ∧
      (isIdentifier (ofName name) ↔ Nameable name)) ∧
      ∀ definition ∈ built, IsWritten (fun name => ∃ origin, Origin schemas origin ∧
        Follows origin name) definition (definitionLines definition) := by
  refine ⟨fun name => ⟨ofName_ofName name, isIdentifier_ofName_iff name⟩, ?_⟩
  obtain ⟨names, final, assigns, run, rfl⟩ := emits_of_definitions TypedDict.tellsNumbersApart builds
  intro definition listed
  obtain ⟨_, _, block, contributes, within⟩ := run.exists_contributes definition listed
  exact contributes.isWritten assigns definition within

/-- A schema that is another name for one that is called after a unit. -/
def measuring : Mapping := [(.text "Area", Document.pointerTo "m²")]

theorem yields_measuring : ∃ built, (definitions TypedDict.dialect measuring).Yields built ∧
    built.map definitionLines = [["Area: TypeAlias = \"m²\""]] := by
  have assigns : (assignNames TypedDict.dialect ∅ (measuring.map (·.1))).Yields
      [("Area", "Area")] := by
    simp [assignNames, emittedName, clashes, measuring]
  have read : Schema.ofValue (Document.pointerTo "m²") =
      .ok (.reference {} (Reference.schemaRoot ++ "m²")) := Schema.ofValue_of_pointer (by simp)
  have named : Named measuring "Area" (.reference {} (Reference.schemaRoot ++ "m²")) :=
    ⟨_, by simp [measuring], read⟩
  have texts : textNames (Document.order measuring) = [] ++ ["Area"] := by
    rw [measuring, order_single]
    rfl
  have assigned : [("Area", "Area")].lookup "Area" = some "Area" := rfl
  have run := Emits.start.next named assigned (compile_pointer TypedDict.dialect _ _ _)
  rw [← texts] at run
  refine ⟨_, run.yields_definitions assigns, ?_⟩
  have pointed : Reference.schemaName? (Reference.schemaRoot ++ "m²") = some "m²" := by cbv
  simp only [Progress.after, Dialect.compileReference, pointed]
  decide

/-- The alias is legal, and the class that it refers to is not. -/
theorem written_names_are_identifiers_iff_measuring :
    ∃ built, (definitions TypedDict.dialect measuring).Yields built ∧
      built.map definitionLines = [["Area: TypeAlias = \"m²\""]] ∧
      (isIdentifier (ofName "Area") ∧ Nameable "Area") ∧
      (¬isIdentifier (ofName "m²") ∧ ¬Nameable "m²") ∧
      ∀ definition ∈ built, IsWritten (fun name => ∃ origin, Origin measuring origin ∧
        Follows origin name) definition (definitionLines definition) := by
  obtain ⟨built, builds, lines⟩ := yields_measuring
  obtain ⟨each, written⟩ := written_names_are_identifiers_iff measuring built builds
  have area : isIdentifier (ofName "Area") := by decide
  have metre : ¬isIdentifier (ofName "m²") := by decide
  exact ⟨built, builds, lines, ⟨area, (each "Area").2.mp area⟩,
    ⟨metre, mt (each "m²").2.mpr metre⟩, written⟩

/-- So not every name becomes an identifier. -/
theorem not_always_isIdentifier : ¬ ∀ name, isIdentifier (ofName name) := by
  intro claimed
  exact absurd (claimed "m²") (by decide)

end Emission

end OpenApi
