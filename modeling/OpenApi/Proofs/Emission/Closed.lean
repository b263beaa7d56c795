import OpenApi.Proofs.Compile.Respelling
import OpenApi.Proofs.Document.Selection
import OpenApi.Proofs.Emission.Blocks

/-!
# Closed modules

A module mentions a name if a definition builds on it, or if the definitions change when the use of
the name is spelled differently.  Whatever a module mentions is defined in it, or it is a name that
no schema of the document has: selecting schemas by paths keeps all that the selected ones refer to.
-/

namespace OpenApi

/-- Classes leave out all but their fields, and Zod records leave out nothing. -/
theorem Target.leavesOut : ∀ target : Target, target.dialect.LeavesOut
  | zod _ => nofun
  | typedDict => fun _ _ _ _ => rfl

theorem Dialect.Respells.refl (dialect : Dialect) (name : String) :
    dialect.Respells name dialect.reference dialect.record :=
  ⟨fun _ _ => rfl, fun _ _ => rfl⟩

namespace Document

/-- A reference of a schema is found when the raw value is searched; so every schema that may be
used is in the map, or a schema of the map refers to it. -/
theorem has_or_refers_of_usable {schemas : Mapping} {name target : String} {schema : Schema}
    (named : Named schemas name schema) (usable : Usable schemas schema target) :
    schemas.has target ∨ ∃ source raw, schemas.find? source = some raw ∧
      target ∈ Reference.ofValue raw := by
  have found {source : String} {whole : Schema} {traits : Traits} {pointer : String}
      (named : Named schemas source whole)
      (within : (Schema.reference traits pointer).Within whole)
      (pointed : Reference.schemaName? pointer = some target) :
      ∃ source raw, schemas.find? source = some raw ∧ target ∈ Reference.ofValue raw := by
    obtain ⟨raw, held, read⟩ := named
    exact ⟨source, raw, held,
      Schema.readsFaithfully raw whole read traits pointer target within pointed⟩
  rcases usable with held | ⟨traits, pointer, direct | ⟨source, whole, alsoNamed, within⟩, pointed⟩
  · exact .inl held
  · exact .inr (found named direct pointed)
  · exact .inr (found alsoNamed within pointed)

/-- The schemas selected for some paths are those of the document to which they refer. -/
theorem has_of_schemasFor {doc : Value} {beginnings : List String} {schemas : Mapping}
    (selects : schemasFor doc beginnings = .ok schemas) {source target : String} {raw : Value}
    (held : schemas.find? source = some raw) (refers : target ∈ Reference.ofValue raw)
    (present : (Document.schemas doc).has target) : schemas.has target := by
  unfold schemasFor at selects
  split at selects
  · exact Except.ok.inj selects ▸ present
  · obtain ⟨selected, _, same⟩ := except_bind_eq_ok_iff.mp selects
    obtain rfl := Except.ok.inj same
    exact has_resolve_of_refers held refers present

end Document

namespace Emission

open Document (petStore pointerTo references resolve pathsStarting schemasFor)

/-- A module mentions a name: a definition builds on it, or the definitions are others when the name
is spelled differently where it is used. -/
def Mentions (dialect : Dialect) (schemas : Mapping) (built : List Definition) (name : String) :
    Prop :=
  (∃ definition ∈ built, name ∈ definition.type.bases) ∨
    ∃ reference record, dialect.Respells name reference record ∧
      ¬ (definitions (dialect.respelled reference record) schemas).Yields built

variable {dialect : Dialect} {schemas : Mapping} {names : List (String × String)}
  {done : List String} {progress : Progress} {name : String} {reference : String → Spelling}
  {record : RecordParts → Spelling}

/-- Names are assigned by their identifiers, however the use of a name is spelled. -/
theorem assignNames_respelled {used : NameSet} {keys : List Scalar} :
    assignNames (dialect.respelled reference record) used keys =
      assignNames dialect used keys := by
  induction keys generalizing used with
  | nil => rfl
  | cons key rest ih =>
      cases key with
      | text name =>
          rw [assignNames, assignNames, ih]
          rfl
      | null | bool | int | float => rfl

/-- A schema in use is emitted under the name of a definition, or it is not in the map and a schema
of the map refers to it. -/
theorem Emits.mem_namesOf (emits : Emits dialect schemas names done progress)
    {source emitted : String} (member : source ∈ done)
    (assigned : names.lookup source = some emitted) :
    emitted ∈ namesOf progress.definitions := by
  induction emits with
  | start => exact absurd member List.not_mem_nil
  | @next done progress last lastEmitted schema compiled before named lastAssigned compiles ih =>
      rw [mem_namesOf_after]
      rcases List.mem_append.mp member with earlier | isLast
      · exact .inl (.inl (ih earlier))
      · obtain rfl := List.mem_singleton.mp isLast
        exact .inr (Option.some.inj (assigned.symm.trans lastAssigned))

/-- Nothing that a run uses is emitted under the name. -/
def Avoids (schemas : Mapping) (names : List (String × String)) (name : String) : Prop :=
  ∀ target, (schemas.has target ∨ ∃ source raw, schemas.find? source = some raw ∧
    target ∈ Reference.ofValue raw) → (names.lookup target).getD target ≠ name

/-- A schema that avoids a name avoids it in every turn of the run. -/
theorem Avoids.surroundings (avoids : Avoids schemas names name) {source emitted : String}
    {schema : Schema} (named : Named schemas source schema) :
    (surroundings schemas names progress emitted).Avoids schema name :=
  fun target usable => avoids target (Document.has_or_refers_of_usable named usable)

/-- A run stays the same under other spellings of a name that it does not use. -/
theorem Emits.respelled (emits : Emits dialect schemas names done progress)
    (respells : dialect.Respells name reference record) (leaves : dialect.LeavesOut)
    (avoids : Avoids schemas names name) (absent : name ∉ namesOf progress.definitions) :
    Emits (dialect.respelled reference record) schemas names done progress := by
  induction emits with
  | start => exact .start
  | @next done progress source emitted schema compiled before named assigned compiles ih =>
      rw [mem_namesOf_after, not_or, not_or] at absent
      obtain ⟨other, runOther, alike⟩ :=
        Dialect.tracks_compile respells leaves (avoids.surroundings named) compiles
      obtain rfl := alike.same absent.1.2
      exact .next (ih absent.1.1) named assigned runOther

/-- A name that all schemas avoid is no base of any definition. -/
theorem Emits.not_mem_bases (emits : Emits dialect schemas names done progress)
    (leaves : dialect.LeavesOut) (avoids : Avoids schemas names name) :
    ∀ definition ∈ progress.definitions, name ∉ definition.type.bases := by
  induction emits with
  | start => exact fun definition none => absurd none List.not_mem_nil
  | @next done progress source emitted schema compiled before named assigned compiles ih =>
      obtain ⟨_, _, alike⟩ := Dialect.tracks_compile (.refl dialect name) leaves
        (avoids.surroundings named) compiles
      intro definition listed
      rcases List.mem_append.mp listed with earlier | own
      · exact (List.mem_append.mp earlier).elim (ih definition) (alike.brought definition)
      · exact List.mem_singleton.mp own ▸ alike.own

/-- What a run uses is emitted under the name of one of its definitions, except for names that are
not in the map but to which a schema of the map refers. -/
theorem Emits.avoids (emits : Emits dialect schemas names (textNames (Document.order schemas))
      progress) (numbers : dialect.TellsNumbersApart)
    (assigns : (assignNames dialect ∅ (schemas.map (·.1))).Yields names)
    (undefined : name ∉ namesOf progress.definitions)
    (bound : ∀ source raw, schemas.find? source = some raw → name ∈ Reference.ofValue raw →
      schemas.has name) : Avoids schemas names name := by
  have ofHeld {target : String} (held : schemas.has target) :
      (names.lookup target).getD target ≠ name := by
    have key := Mapping.mem_names_iff.mp (Mapping.has_iff_mem_names.mp held)
    obtain ⟨emitted, assigned⟩ := exists_lookup_assigned numbers assigns key
    rw [assigned, Option.getD_some]
    rintro rfl
    exact undefined (emits.mem_namesOf (mem_textNames_iff.mpr (Document.mem_order_iff.mpr key))
      assigned)
  rintro target (held | ⟨source, raw, stands, refers⟩) same
  · exact ofHeld held same
  · by_cases held : schemas.has target
    · exact ofHeld held same
    · -- No schema has the name, so none is assigned to it, and its use is spelled as it stands.
      obtain ⟨keys, _⟩ := assignNames_apart numbers assigns
      have unassigned : names.lookup target = none := by
        rw [← Option.not_isSome_iff_eq_none, Mapping.lookup_isSome_iff]
        intro member
        obtain ⟨pair, listed, rfl⟩ := List.mem_map.mp member
        refine held (Mapping.has_iff_mem_names.mpr (Mapping.mem_names_iff.mpr ?_))
        rw [keys]
        exact List.mem_map.mpr ⟨pair, listed, rfl⟩
      rw [unassigned, Option.getD_none] at same
      subst same
      exact held (bound source raw stands refers)

/-- **Modules are closed.** Whatever a module mentions, for all schemas of a document or for those
that some paths need, is the name of one of its definitions, or else no schema of the document has
this name and one of the selected schemas refers to it. -/
theorem mentions_are_defined (target : Target) (doc : Value) (beginnings : List String)
    (text : String) (emits : (emit target doc beginnings).Yields (some text)) :
    ∃ schemas built, Document.schemasFor doc beginnings = .ok schemas ∧
      (definitions target.dialect schemas).Yields built ∧ text = target.moduleText built ∧
      ∀ name, Mentions target.dialect schemas built name →
        name ∈ built.map (·.name) ∨ ¬ (Document.schemas doc).has name ∧
          ∃ source raw, schemas.find? source = some raw ∧ name ∈ Reference.ofValue raw := by
  unfold emit at emits
  obtain ⟨schemas, selects, emits⟩ := Traced.yields_andThen.mp emits
  split at emits
  · cases emits
  · obtain ⟨built, builds, same⟩ := Traced.yields_andThen.mp emits
    have written : text = target.moduleText built := by
      rw [Traced.yields_mk, Except.ok.injEq, Option.some.injEq] at same
      exact same.symm
    refine ⟨schemas, built, selects, builds, written, fun name mentions => ?_⟩
    have numbers := target.tellsNumbersApart
    obtain ⟨names, final, assigns, run, rfl⟩ := emits_of_definitions numbers builds
    by_contra unclosed
    obtain ⟨undefined, notDangling⟩ := not_or.mp unclosed
    have avoids := run.avoids numbers assigns undefined fun source raw held refers => by
      by_contra missing
      have absent : ¬ (Document.schemas doc).has name := fun present =>
        missing (Document.has_of_schemasFor selects held refers present)
      exact notDangling ⟨absent, source, raw, held, refers⟩
    rcases mentions with ⟨definition, listed, builds⟩ | ⟨reference, record, respells, differs⟩
    · exact run.not_mem_bases target.leavesOut avoids definition listed builds
    · have respelled := run.respelled respells target.leavesOut avoids undefined
      refine differs (respelled.yields_definitions ?_)
      rwa [assignNames_respelled]

/-! ## A selected alias -/

/-- The schemas that are selected for the path that the document offers. -/
def selected : Mapping := [(.text "Pet", .map []), (.text "Animal", pointerTo "Pet")]

theorem schemasFor_petStore : schemasFor petStore ["/pets"] = .ok selected := by
  have paths : pathsStarting petStore ["/pets"] = .ok [.text "/pets"] := rfl
  unfold schemasFor
  rw [paths]
  change Except.ok (resolve (Document.schemas petStore) ["Animal"]) = _
  rw [Document.resolve_petStore]
  rfl

theorem compile_pointer (dialect : Dialect) (name pointer : String) (scope : Scope) :
    (dialect.compile name (.reference {} pointer) scope).Yields
      (dialect.compileReference pointer scope) := rfl

theorem named_selected : Named selected "Pet" (.unknown {}) ∧
    Named selected "Animal" (.reference {} (Reference.schemaRoot ++ "Pet")) := by
  have pointer : Schema.ofValue (pointerTo "Pet") =
      .ok (.reference {} (Reference.schemaRoot ++ "Pet")) := Schema.ofValue_of_pointer (by simp)
  exact ⟨⟨_, by simp [selected], Schema.ofValue_nil⟩, ⟨_, by simp [selected], pointer⟩⟩

/-- The text of a definition under its name. -/
def spelled (definition : Definition) : String × String :=
  (definition.name, definition.type.expression)

/-- Its definitions, however the use of a name is spelled. -/
theorem yields_selected (reference : String → Spelling) (record : RecordParts → Spelling) :
    ∃ built, (definitions (TypedDict.dialect.respelled reference record) selected).Yields built ∧
      built.map spelled = [("Pet", "Any"), ("Animal", (reference "Pet").text)] := by
  let dialect := TypedDict.dialect.respelled reference record
  let names := [("Pet", "Pet"), ("Animal", "Animal")]
  have assigns : (assignNames dialect ∅ (selected.map (·.1))).Yields names := by
    have pet : TypedDict.dialect.identifiers "Pet" = ["Pet", "_PetFields"] := by decide
    have animal : TypedDict.dialect.identifiers "Animal" = ["Animal", "_AnimalFields"] := by decide
    rw [assignNames_respelled]
    simp [assignNames, emittedName, clashes, selected, pet, animal, names]
  have order : textNames (Document.order selected) = [] ++ ["Pet"] ++ ["Animal"] := by
    have arranged : Document.order selected = [.text "Pet", .text "Animal"] := by cbv
    rw [arranged]
    rfl
  obtain ⟨namedPet, namedAnimal⟩ := named_selected
  have assignedPet : names.lookup "Pet" = some "Pet" := rfl
  have assignedAnimal : names.lookup "Animal" = some "Animal" := rfl
  have compilesPet (scope : Scope) :
      (dialect.compile "Pet" (.unknown {}) scope).Yields dialect.anything := rfl
  have run := (Emits.start.next namedPet assignedPet (compilesPet _)).next namedAnimal
    assignedAnimal (compile_pointer dialect _ _ _)
  rw [← order] at run
  refine ⟨_, run.yields_definitions assigns, ?_⟩
  have pointed : Reference.schemaName? (Reference.schemaRoot ++ "Pet") = some "Pet" := by cbv
  simp only [Progress.after, Dialect.compileReference, pointed]
  rfl

/-- The alias mentions the schema that it is another name for. -/
theorem mentions_selected {built : List Definition}
    (builds : (definitions TypedDict.dialect selected).Yields built) :
    Mentions TypedDict.dialect selected built "Pet" := by
  let reference (name : String) : Spelling :=
    if name = "Pet" then ⟨"", []⟩ else TypedDict.dialect.reference name
  refine .inr ⟨reference, TypedDict.dialect.record,
    ⟨fun other apart => if_neg apart, fun _ _ => rfl⟩, fun same => ?_⟩
  obtain ⟨_, own, shown⟩ :=
    yields_selected TypedDict.dialect.reference TypedDict.dialect.record
  obtain ⟨_, others, shownOthers⟩ := yields_selected reference TypedDict.dialect.record
  obtain rfl := builds.unique own
  obtain rfl := same.unique others
  rw [shown] at shownOthers
  revert shownOthers
  decide

/-- The module for the path defines what its alias mentions. -/
theorem mentions_are_defined_petStore :
    ∃ text schemas built, (emit .typedDict petStore ["/pets"]).Yields (some text) ∧
      schemas.names = ["Pet", "Animal"] ∧ Mentions TypedDict.dialect schemas built "Pet" ∧
      schemasFor petStore ["/pets"] = .ok schemas ∧
      (definitions TypedDict.dialect schemas).Yields built ∧
      text = Target.moduleText .typedDict built ∧
      ∀ name, Mentions TypedDict.dialect schemas built name →
        name ∈ built.map (·.name) ∨ ¬ (Document.schemas petStore).has name ∧
          ∃ source raw, schemas.find? source = some raw ∧ name ∈ Reference.ofValue raw := by
  obtain ⟨built, builds, _⟩ := yields_selected TypedDict.dialect.reference TypedDict.dialect.record
  have emits : (emit .typedDict petStore ["/pets"]).Yields
      (some (Target.moduleText .typedDict built)) :=
    Traced.yields_andThen.mpr ⟨selected, schemasFor_petStore,
      Traced.yields_andThen.mpr ⟨built, builds, rfl⟩⟩
  obtain ⟨schemas, others, selects, buildsOthers, written, closed⟩ :=
    mentions_are_defined .typedDict petStore ["/pets"] _ emits
  obtain rfl := Except.ok.inj (schemasFor_petStore.symm.trans selects)
  exact ⟨_, selected, others, emits, rfl, mentions_selected buildsOthers, selects, buildsOthers,
    written, closed⟩

end Emission

end OpenApi
