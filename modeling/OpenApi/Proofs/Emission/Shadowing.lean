import OpenApi.Proofs.Emission.Identifiers
import OpenApi.Proofs.Emission.Imports

/-!
# Shadowed names

A module uses names that it does not declare: what it imports, and built-in types.  Schemas are
renamed where their identifiers clash with each other, but not where they clash with such a name.
All names in use consist of letters, so no replaced character and no number leads to one: a
definition shadows a name only if a schema is called so, or if the name of a nested record is put
together to it.
-/

namespace OpenApi

namespace Identifier

/-- A name without underscores and digits. -/
def isUnmarked (name : String) : Bool := name.toList.all fun c => c != '_' && !c.isDigit

theorem underscore_notMem {name : String} (unmarked : isUnmarked name) : '_' ∉ name.toList := by
  intro member
  have clean := List.all_eq_true.mp unmarked '_' member
  cases clean

/-- A number can be read off a name that it was put after. -/
theorem not_isUnmarked_numbered (name rest : String) (number : Nat) :
    ¬isUnmarked (numbered name number ++ rest) := by
  intro unmarked
  obtain ⟨digit, member⟩ := List.exists_mem_of_ne_nil (Nat.toDigits 10 number) (by simp)
  have within : digit ∈ (numbered name number ++ rest).toList := by
    rw [String.toList_append, toList_numbered]
    exact List.mem_append_left _ (List.mem_append_right _ member)
  have clean := List.all_eq_true.mp unmarked digit within
  rw [isDigit_of_mem_digits member, Bool.not_true, Bool.and_false] at clean
  cases clean

theorem not_isUnmarked_of_continues {name longer : String} {number : Nat}
    (continues : Continues longer (numbered name number)) : ¬isUnmarked longer := by
  obtain ⟨tail, spelled, _⟩ := continues
  have same : longer = numbered name number ++ String.ofList tail := by
    apply String.toList_inj.mp
    rw [spelled, String.toList_append, String.toList_ofList]
  rw [same]
  exact not_isUnmarked_numbered _ _ _

/-- Where an identifier has no underscore, nothing was replaced or added to get it. -/
theorem eq_of_ofName {name identifier : String} (same : ofName name = identifier)
    (unmarked : isUnmarked identifier) : name = identifier := by
  have noMark := underscore_notMem unmarked
  have spelled : String.ofList (unnumbered (worded name.toList)) = identifier := by
    unfold ofName at same
    dsimp only at same
    split at same
    · rw [← same, String.toList_append] at noMark
      exact absurd (List.mem_append_right _ (List.mem_singleton.mpr rfl)) noMark
    · exact same
  rw [← spelled, String.toList_ofList] at noMark
  have whole : unnumbered (worded name.toList) = worded name.toList := by
    unfold unnumbered at noMark ⊢
    split at noMark
    · exact absurd List.mem_cons_self noMark
    · split at noMark
      · exact absurd List.mem_cons_self noMark
      · next letter => exact if_neg letter
  rw [whole] at spelled noMark
  have kept : worded name.toList = name.toList := by
    refine (List.map_congr_left fun c member => ?_).trans (List.map_id _)
    by_cases word : Text.isWord c
    · exact if_pos word
    · have replaced : '_' ∈ worded name.toList :=
        List.mem_map.mpr ⟨c, member, if_neg word⟩
      exact absurd replaced noMark
  rw [← spelled, kept, String.ofList_toList]

end Identifier

open Identifier

namespace TypedDict

/-- The built-in types that annotations of classes use. -/
def builtinNames : List String := ["str", "int", "float", "bool", "list", "dict"]

/-- What declares a name of letters is called just so. -/
theorem eq_of_mem_identifiers {name used : String} (unmarked : isUnmarked used)
    (declared : used ∈ dialect.identifiers name) : name = used := by
  simp only [dialect, List.mem_cons, List.not_mem_nil, or_false] at declared
  rcases declared with own | helper
  · exact eq_of_ofName own.symm unmarked
  · have noMark := underscore_notMem unmarked
    rw [helper, fieldsName, String.toList_append, String.toList_append] at noMark
    exact absurd (List.mem_append_left _ (List.mem_append_left _ List.mem_cons_self)) noMark

/-- Built-in types have small letters only, so none is a longer name put together from another. -/
theorem not_continues_builtin {used outer : String} (builtin : used ∈ builtinNames)
    (differ : outer ≠ used) : ¬Continues used outer := by
  rintro ⟨tail, spelled, isTail⟩
  cases tail with
  | nil => exact differ (String.toList_inj.mp (by rw [spelled, List.append_nil]))
  | cons c rest =>
      have small : ∀ name ∈ builtinNames, name.toList.all Char.isLower := by decide
      have lower := List.all_eq_true.mp (small used builtin) c (by simp [spelled])
      rw [isTail.begins c rfl] at lower
      cases lower

end TypedDict

namespace Zod

/-- A constant or a type that is spelled with letters only is that of a name without a number. -/
theorem eq_of_mem_identifiers {suffix name used : String} (unmarked : isUnmarked used)
    (declared : used ∈ (dialect suffix).identifiers name) :
    name = used ∨ camelCase name ++ suffix = used := by
  simp only [dialect, List.mem_cons, List.not_mem_nil, or_false] at declared
  rcases declared with constant | type
  · exact .inr (eq_of_ofName constant.symm unmarked)
  · exact .inl (eq_of_ofName type.symm unmarked)

end Zod

/-- A name is spelled like another one in a module: it is the other one, or its constant is. -/
def Target.Spells : Target → String → String → Prop
  | .zod suffix, name, used => name = used ∨ camelCase name ++ suffix = used
  | .typedDict, name, used => name = used

theorem Target.spells_of_mem_identifiers {target : Target} {name used : String}
    (unmarked : isUnmarked used) (declared : used ∈ target.dialect.identifiers name) :
    target.Spells name used := by
  cases target with
  | zod suffix => exact Zod.eq_of_mem_identifiers unmarked declared
  | typedDict => exact TypedDict.eq_of_mem_identifiers unmarked declared

/-- No numbered name is spelled with letters only. -/
theorem Target.not_spells_numbered (target : Target) {name used : String} {number : Nat}
    (unmarked : isUnmarked used) : ¬target.Spells (numbered name number) used := by
  have noNumber := not_isUnmarked_numbered name "" number
  rw [String.append_empty] at noNumber
  intro spells
  cases target with
  | zod suffix =>
      rcases spells with rfl | constant
      · exact noNumber unmarked
      · rw [camelCase_numbered] at constant
        exact not_isUnmarked_numbered (camelCase name) suffix number (constant ▸ unmarked)
  | typedDict =>
      obtain rfl := spells
      exact noNumber unmarked

namespace Emission

open TypedDict (typingNames builtinNames IsClass IsInline)

/-- The names that a module uses and does not declare: those that it imports and, in annotations of
classes, the built-in types. -/
def usedNames : Target → List Definition → List String
  | .zod _, _ => ["z"]
  | .typedDict, built => (Source.TypedDict.imports built).toList ++ builtinNames

/-- Class modules import names of the typing library only. -/
theorem typing_of_mem_imports {schemas : Mapping} {built : List Definition}
    (builds : (definitions TypedDict.dialect schemas).Yields built) {name : String}
    (imported : name ∈ Source.TypedDict.imports built) : name ∈ typingNames := by
  obtain ⟨definition, listed, needed⟩ := Source.TypedDict.mem_imports_iff.mp imported
  unfold Source.TypedDict.importsOf at needed
  rcases fits_of_definitions builds definition listed with isClass | isInline
  · rw [isClass.kind] at needed
    exact isClass.known name needed
  · rw [isInline.kind] at needed
    rcases NameSet.mem_insert.mp needed with within | rfl
    · exact isInline.known name within
    · decide

theorem isUnmarked_of_mem_usedNames {target : Target} {schemas : Mapping} {built : List Definition}
    (builds : (definitions target.dialect schemas).Yields built) {used : String}
    (member : used ∈ usedNames target built) : isUnmarked used := by
  have clean : ∀ name ∈ typingNames ++ builtinNames, isUnmarked name := by decide
  cases target with
  | zod suffix =>
      obtain rfl := List.mem_singleton.mp member
      decide
  | typedDict =>
      rcases List.mem_append.mp member with imported | builtin
      · exact clean used (List.mem_append_left _ (typing_of_mem_imports builds imported))
      · exact clean used (List.mem_append_right _ builtin)

/-- **Shadowed names.** A definition of a module declares a name that the module imports, or a
built-in type that annotations use, only in two cases.  It is the definition of a schema that is
called so in the document, a class just like the name, or a constant with the suffix at its end.
Or it was synthesized for a class module, and its name was put together to that of an import from
the name of a schema; built-in types are never met in this way. -/
theorem shadows_only_by_name (target : Target) (schemas : Mapping) (built : List Definition)
    (builds : (definitions target.dialect schemas).Yields built) :
    ∀ definition ∈ built, ∀ used ∈ usedNames target built,
      used ∈ target.dialect.identifiers definition.name →
        definition.synthesized = false ∧ definition.name ∈ schemas.names ∧
            target.Spells definition.name used ∨
          definition.synthesized ∧ target = .typedDict ∧ definition.name = used ∧
            used ∈ typingNames ∧ ∃ outer ∈ schemas.names, outer ≠ used ∧ Continues used outer := by
  intro definition listed used member declared
  have unmarked := isUnmarked_of_mem_usedNames builds member
  have spells := target.spells_of_mem_identifiers unmarked declared
  obtain ⟨names, final, assigns, run, rfl⟩ := emits_of_definitions target.tellsNumbersApart builds
  obtain ⟨source, _, block, contributes, within⟩ := run.exists_contributes definition listed
  obtain ⟨emitted, assigned, each⟩ := contributes.continues
  obtain ⟨continues, own, nested⟩ := each definition within
  have pair := Mapping.mem_of_lookup assigned
  obtain ⟨key, renamed⟩ := mem_keys_of_assigned assigns _ pair
  dsimp only at renamed
  have isKey : source ∈ schemas.names := Mapping.mem_names_iff.mpr key
  cases synthesized : definition.synthesized with
  | false =>
      left
      have name := own synthesized
      rcases renamed with same | ⟨number, isNumbered⟩
      · exact ⟨rfl, name.trans same ▸ isKey, spells⟩
      · rw [name, isNumbered] at spells
        exact absurd spells (target.not_spells_numbered unmarked)
  | true =>
      right
      obtain ⟨_, notAssigned⟩ := contributes.free definition within synthesized
      cases target with
      | zod suffix => cases nested synthesized
      | typedDict =>
          obtain rfl : definition.name = used := spells
          -- The name of the record goes on from an emitted name, which has no number in it.
          have ownName : emitted = source := by
            refine renamed.resolve_right ?_
            rintro ⟨number, isNumbered⟩
            rw [isNumbered] at continues
            exact not_isUnmarked_of_continues continues unmarked
          have differ : source ≠ definition.name := by
            rintro rfl
            exact notAssigned (List.mem_map.mpr ⟨_, pair, ownName⟩)
          rw [ownName] at continues
          refine ⟨rfl, rfl, rfl, ?_, source, isKey, differ, continues⟩
          rcases List.mem_append.mp member with imported | builtin
          · exact typing_of_mem_imports builds imported
          · exact absurd continues (TypedDict.not_continues_builtin builtin differ)

/-- A map with one schema that allows everything. -/
def permitting (name : String) : Mapping := [(.text name, .map [])]

theorem yields_permitting (name : String) :
    (definitions TypedDict.dialect (permitting name)).Yields
      [⟨name, TypedDict.dialect.anything.type, none, false⟩] :=
  yields_single Schema.ofValue_nil rfl

/-- A schema may have the name of the type that stands for everything, and its alias is then one for
itself. -/
theorem shadows_only_by_name_any :
    ∃ definition, (definitions (Target.dialect .typedDict) (permitting "Any")).Yields [definition] ∧
      Source.TypedDict.definitionLines definition = ["Any: TypeAlias = Any"] ∧
      "Any" ∈ usedNames .typedDict [definition] ∧
      "Any" ∈ TypedDict.dialect.identifiers definition.name ∧
      (definition.synthesized = false ∧ definition.name ∈ (permitting "Any").names ∧
          Target.Spells .typedDict definition.name "Any" ∨
        definition.synthesized ∧ Target.typedDict = .typedDict ∧ definition.name = "Any" ∧
          "Any" ∈ typingNames ∧
          ∃ outer ∈ (permitting "Any").names, outer ≠ "Any" ∧ Continues "Any" outer) := by
  have builds := yields_permitting "Any"
  have used : "Any" ∈ usedNames .typedDict
      [⟨"Any", TypedDict.dialect.anything.type, none, false⟩] := by decide
  have declared : "Any" ∈ TypedDict.dialect.identifiers "Any" := by decide
  exact ⟨_, builds, by decide, used, declared,
    shadows_only_by_name .typedDict (permitting "Any") _ builds _ List.mem_cons_self "Any" used
      declared⟩

/-- The class or alias of a schema can take a name that the module imports. -/
theorem not_free_of_shadows :
    ¬ ∀ (target : Target) (schemas : Mapping) (built : List Definition),
      (definitions target.dialect schemas).Yields built → ∀ definition ∈ built,
        ∀ identifier ∈ target.dialect.identifiers definition.name,
          identifier ∉ usedNames target built := by
  intro free
  have absent := free .typedDict (permitting "Any") _ (yields_permitting "Any") _
    List.mem_cons_self "Any" (by decide)
  exact absent (by decide)

end Emission

end OpenApi
