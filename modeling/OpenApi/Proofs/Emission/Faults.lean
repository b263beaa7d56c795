import OpenApi.Proofs.Compile.Faults
import OpenApi.Proofs.Emission.Copying
import OpenApi.Proofs.Emission.Routes
import OpenApi.Proofs.Value.TextKeys

/-!
# When no module is made

Of a document whose keys are texts a module is made unless it has one of few flaws.  The
`properties` of a schema are neither a mapping nor empty, a list or a mapping stands among the
`required` names, a listed number has more digits than are written, or a schema that is not emitted
yet contains itself where its fields are copied.
-/

namespace OpenApi

open Relation Document

namespace Emission

/-- Why a schema of the map cannot be emitted: somewhere in it a schema cannot be read, or lists a
number that is too long. -/
inductive Flaw (schemas : Mapping) : Fault → Prop
  | unreadable {name : String} {raw : Value} {fault : Fault}
      (held : schemas.find? name = some raw) (flaw : raw.HasFlaw fault) : Flaw schemas fault
  | unwritable {name : String} {raw value : Value} {entries : Mapping} {listed : List Value}
      (held : schemas.find? name = some raw) (has : raw.HasSchema entries)
      (found : entries.find? "enum" = some (.list listed)) (member : value ∈ listed)
      (long : value.isWritable = false) : Flaw schemas .numberUnwritable

/-- While some schemas are emitted, a schema copies the fields of another: a record anywhere in it
has a branch behind which that other record stands, and that is not emitted yet. -/
def CopiesFrom (schemas : Mapping) (done : List String) (source base : String) : Prop :=
  base ∉ done ∧ ∃ whole part traits pointer name, Named schemas source whole ∧ part.Within whole ∧
    (Schema.reference traits pointer).BranchOf part ∧
    Reference.schemaName? pointer = some name ∧
    recordBehind? schemas [] name = .ok (some base)

/-- At some point of the emission a schema copies its own fields, directly or through others. -/
def CopiesItself (schemas : Mapping) : Prop :=
  ∃ done base, done <+: textNames (order schemas) ∧ TransGen (CopiesFrom schemas done) base base

variable {dialect : Dialect} {schemas : Mapping} {names : List (String × String)}
  {done : List String} {progress : Progress} {fault : Fault}

/-! ## Emitting one schema after the other -/

/-- What can be wrong when a schema has its turn. -/
def HindersTurn (dialect : Dialect) (schemas : Mapping) (names : List (String × String))
    (order : List String) (fault : Fault) : Prop :=
  schemas.HasUnread fault ∨ ∃ before name after progress emitted schema,
    order = before ++ name :: after ∧ Emits dialect schemas names before progress ∧
    Named schemas name schema ∧
    (surroundings schemas names progress emitted).Hinders dialect.nominalBases schema fault

/-- The turns end in a fault only when one of them is hindered, by induction on the names still to
come. -/
theorem endsAs_emitSchemas {rest : List String} (held : ∀ name ∈ rest, schemas.has name)
    (assigned : ∀ name ∈ rest, ∃ emitted, names.lookup name = some emitted)
    (before : Emits dialect schemas names done progress) :
    EndsAs (fun _ => True) (HindersTurn dialect schemas names (done ++ rest))
      (emitSchemas dialect schemas names progress rest).outcome := by
  induction rest generalizing done progress with
  | nil => trivial
  | cons name rest ih =>
      obtain ⟨emitted, found⟩ := assigned name List.mem_cons_self
      obtain ⟨raw, stands⟩ := Mapping.has_iff_exists_find?.mp (held name List.mem_cons_self)
      have step : EndsAs (fun between => Emits dialect schemas names (done ++ [name]) between)
          (HindersTurn dialect schemas names (done ++ name :: rest))
          (emitSchema dialect schemas names progress name).outcome := by
        unfold emitSchema
        rw [found, stands, Option.getD_some, Option.getD_some]
        cases read : Schema.ofValue raw with
        | error cause => exact .inl ⟨name, raw, stands, read⟩
        | ok schema =>
            have named : Named schemas name schema := ⟨raw, stands, read⟩
            rw [Traced.ofExcept_ok, Traced.answer_andThen]
            refine Traced.endsAs_andThen
              ((dialect.endsAs_compile ..).imp (fun _ ends => ends) ?_) ?_
            · intro cause hinders
              exact .inr ⟨done, name, rest, progress, emitted, schema, rfl, before, named, hinders⟩
            · intro compiled compiles _
              exact before.next named found compiles
      rw [emitSchemas]
      refine Traced.endsAs_andThen step fun between _ stepped => ?_
      have remaining := ih (fun other member => held other (List.mem_cons_of_mem _ member))
        (fun other member => assigned other (List.mem_cons_of_mem _ member)) stepped
      rwa [List.append_assoc, List.singleton_append] at remaining

/-! ## What is wrong with the map -/

/-- A part of a schema, however it is reached, stands within a schema of the map. -/
theorem exists_named_of_partOf {name : String} {root part : Schema}
    (named : Named schemas name root) (partOf : part.PartOf schemas root) :
    ∃ holder whole, Named schemas holder whole ∧ part.Within whole := by
  rcases partOf with direct | known
  · exact ⟨name, root, named, direct⟩
  · exact known

/-- Objects within a schema of a map with text keys have texts for keys. -/
theorem exists_text_of_declares {name : String} {whole : Schema} {key : Scalar}
    (keyed : (Value.map schemas).hasTextKeys) (named : Named schemas name whole)
    (declares : whole.DeclaresKey key) : ∃ content, key = .text content := by
  obtain ⟨traits, properties, required, additional, within, member⟩ := declares
  obtain ⟨raw, held, read⟩ := named
  rcases (Schema.readsInto raw).of_ok read _ within with bare | ⟨entries, has, inner, found, keys⟩
  · cases bare
  · have keyedInner := Value.hasTextKeys_of_find?
      (has.hasTextKeys (Value.hasTextKeys_of_find? keyed held)) found
    rw [keys] at member
    obtain ⟨entry, listed, rfl⟩ := List.mem_map.mp member
    exact (Value.hasTextKeys_map_iff.mp keyedInner entry listed).1

/-- A listed number that is too long is listed in the map. -/
theorem flaw_of_unwritable {name : String} {whole : Schema} {traits : Traits} {values : List Value}
    (named : Named schemas name whole) (within : (Schema.enumeration traits values).Within whole)
    (long : values.all (·.isWritable) = false) : Flaw schemas .numberUnwritable := by
  obtain ⟨raw, held, read⟩ := named
  rcases (Schema.readsInto raw).of_ok read _ within with bare | ⟨entries, has, listed, found, all⟩
  · cases bare
  · obtain ⟨value, member, unwritable⟩ := List.all_eq_false.mp long
    exact .unwritable held has found (all member) (Bool.eq_false_iff.mpr unwritable)

/-- A schema that cannot be read is a flaw of the map. -/
theorem flaw_of_hasUnread (unread : schemas.HasUnread fault) : Flaw schemas fault := by
  obtain ⟨name, raw, held, failed⟩ := unread
  exact .unreadable held ((Schema.readsInto raw).of_error failed)

/-- What is copied at the turn of a schema is not emitted yet. -/
theorem Emits.copiesFrom (emits : Emits dialect schemas names done progress)
    {emitted source base : String}
    (copies : (surroundings schemas names progress emitted).Copies true source base) :
    CopiesFrom schemas done source base := by
  obtain ⟨whole, part, named, within, branch, branchOf, points, later⟩ := copies
  obtain ⟨traits, pointer, name, rfl, pointed, found⟩ :=
    points.found (Scope.has_of_emittedLater later)
  refine ⟨?_, whole, part, traits, pointer, name, named, within, branchOf, pointed, found⟩
  intro isDone
  rw [emits.defined_of_mem isDone] at later
  cases later

/-- Without inheritance nothing is copied. -/
theorem nominal_of_copiesItself {scope : Scope} {nominal : Bool}
    (copies : scope.CopiesItself nominal) : nominal = true := by
  obtain ⟨base, chain⟩ := copies
  cases nominal with
  | true => rfl
  | false =>
      obtain ⟨next, ⟨_, _, _, _, _, _, _, later⟩, _⟩ := TransGen.head'_iff.mp chain
      cases later

/-- What hinders the turn of a schema is a flaw of the map, or a schema copies itself. -/
theorem flaw_of_hinders (keyed : (Value.map schemas).hasTextKeys)
    (emits : Emits dialect schemas names done progress) {emitted name : String} {schema : Schema}
    (named : Named schemas name schema) {nominal : Bool}
    (hinders : (surroundings schemas names progress emitted).Hinders nominal schema fault) :
    Flaw schemas fault ∨ fault = .endlessCopy ∧ nominal = true ∧
      ∃ base, TransGen (CopiesFrom schemas done) base base := by
  cases hinders with
  | name knows noText =>
      obtain ⟨holder, partOf, declares⟩ := knows
      obtain ⟨_, whole, namedWhole, within⟩ := exists_named_of_partOf named partOf
      obtain ⟨content, same⟩ := exists_text_of_declares keyed namedWhole (declares.within within)
      exact absurd same (noText content)
  | number part long =>
      obtain ⟨_, whole, namedWhole, within⟩ := exists_named_of_partOf named part
      exact .inl (flaw_of_unwritable namedWhole within long)
  | endless copies =>
      obtain rfl := nominal_of_copiesItself copies
      obtain ⟨base, chain⟩ := copies
      exact .inr ⟨rfl, rfl, base, chain.lift id fun _ _ copies => emits.copiesFrom copies⟩
  | unread cause => exact .inl (flaw_of_hasUnread cause)

/-- The definitions of a map are built unless it has a flaw or a schema copies itself. -/
theorem endsAs_definitions (numbers : dialect.TellsNumbersApart)
    (keyed : (Value.map schemas).hasTextKeys) :
    EndsAs (fun _ => True)
      (fun fault => Flaw schemas fault ∨
        fault = .endlessCopy ∧ dialect.nominalBases = true ∧ CopiesItself schemas)
      (definitions dialect schemas).outcome := by
  have texts : ∀ key ∈ schemas.map Prod.fst, ∃ name, key = .text name := by
    intro key member
    obtain ⟨entry, held, rfl⟩ := List.mem_map.mp member
    exact (Value.hasTextKeys_map_iff.mp keyed entry held).1
  obtain ⟨names, assigns⟩ : ∃ names, (assignNames dialect ∅ (schemas.map (·.1))).Yields names :=
    exists_assignNames texts
  have isKey {name : String} (member : name ∈ textNames (order schemas)) :
      .text name ∈ schemas.map Prod.fst :=
    mem_order_iff.mp (mem_textNames_iff.mp member)
  have run := endsAs_emitSchemas
    (fun name member => Mapping.has_iff_mem_names.mpr (Mapping.mem_names_iff.mpr (isKey member)))
    (fun name member => exists_lookup_assigned numbers assigns (isKey member))
    (.start : Emits dialect schemas names [] _)
  unfold definitions
  rw [assigns.outcome_andThen]
  refine Traced.endsAs_andThen (run.imp (fun _ ends => ends) ?_) fun _ _ _ => trivial
  intro fault hinders
  rcases hinders with unread | ⟨before, name, after, progress, emitted, schema, same, emits, named,
    hinders⟩
  · exact .inl (flaw_of_hasUnread unread)
  · refine (flaw_of_hinders keyed emits named hinders).imp_right ?_
    rintro ⟨isEndless, nominal, base, chain⟩
    exact ⟨isEndless, nominal, before, base, ⟨name :: after, same.symm⟩, chain⟩

/-! ## Documents -/

theorem hasTextKeys_schemas {doc : Value} (keyed : doc.hasTextKeys) :
    (Value.map (Document.schemas doc)).hasTextKeys := by
  unfold Document.schemas
  cases found : (doc.member? "components").bind (·.member? "schemas") with
  | none => rfl
  | some held =>
      obtain ⟨components, outer, inner⟩ := Option.bind_eq_some_iff.mp found
      have keyedOuter := Value.hasTextKeys_of_member? keyed outer
      have keyedHeld := Value.hasTextKeys_of_member? keyedOuter inner
      cases held with
      | map entries => exact keyedHeld
      | scalar | list => rfl

theorem hasTextKeys_paths {doc : Value} (keyed : doc.hasTextKeys) :
    (Value.map (paths doc)).hasTextKeys := by
  unfold paths
  cases found : doc.member? "paths" with
  | none => rfl
  | some held =>
      have keyedHeld := Value.hasTextKeys_of_member? keyed found
      cases held with
      | map entries => exact keyedHeld
      | scalar | list => rfl

/-- If all keys are texts then schemas are selected, by some beginnings or without. -/
theorem exists_schemasFor {doc : Value} (keyed : doc.hasTextKeys) (beginnings : List String) :
    ∃ selected, schemasFor doc beginnings = .ok selected ∧ (Value.map selected).hasTextKeys := by
  have all := hasTextKeys_schemas keyed
  by_cases nonempty : beginnings = []
  · subst nonempty
    exact ⟨Document.schemas doc, rfl, all⟩
  · have texts : ∀ key ∈ (paths doc).map Prod.fst, ∃ name, key = .text name := by
      intro key member
      obtain ⟨entry, held, rfl⟩ := List.mem_map.mp member
      exact (Value.hasTextKeys_map_iff.mp (hasTextKeys_paths keyed) entry held).1
    refine ⟨_, schemasFor_of_texts nonempty texts, Value.hasTextKeys_map_iff.mpr ?_⟩
    intro entry member
    exact Value.hasTextKeys_map_iff.mp all entry (List.mem_of_mem_filter member)

/-- The module of selected schemas is made unless they have a flaw or one of them copies itself. -/
theorem endsAs_emit (target : Target) {doc : Value} {beginnings : List String} {selected : Mapping}
    (selects : schemasFor doc beginnings = .ok selected)
    (keyed : (Value.map selected).hasTextKeys) :
    EndsAs (fun _ => True)
      (fun fault => Flaw selected fault ∨
        fault = .endlessCopy ∧ target = .typedDict ∧ CopiesItself selected)
      (emit target doc beginnings).outcome := by
  unfold emit
  rw [selects, Traced.ofExcept_ok, Traced.answer_andThen]
  split
  · trivial
  · refine Traced.endsAs_andThen ((endsAs_definitions target.tellsNumbersApart keyed).imp
      (fun _ ends => ends) ?_) fun _ _ _ => trivial
    intro fault
    refine Or.imp_right ?_
    rintro ⟨isEndless, nominal, copies⟩
    cases target with
    | zod => cases nominal
    | typedDict => exact ⟨isEndless, rfl, copies⟩

/-- A narrowed document is a mapping. -/
theorem isMap_of_narrow? {doc narrowed : Value} {names : List String}
    (narrows : narrow? doc names = some narrowed) : narrowed.isMap := by
  unfold narrow? at narrows
  split at narrows
  · cases narrows
  · obtain rfl := Option.some.inj narrows
    rfl

/-- **Modules of all documents but flawed ones.** For a document whose keys are texts, narrowing it
to any paths answers, schemas are selected by any beginnings, and a module of them is made or there
is nothing to make one of.  The exceptions are selected schemas with a flaw and, where classes
inherit, those that copy their own fields while they are not emitted yet. -/
theorem emit_answers_unless_flawed (target : Target) (doc : Value) (keyed : doc.hasTextKeys)
    (beginnings : List String) :
    (∀ names, ∃ kept, (narrow doc names).Yields kept ∧ ∀ narrowed ∈ kept, narrowed.isMap) ∧
    ∃ selected, schemasFor doc beginnings = .ok selected ∧
      ((∃ module, (emit target doc beginnings).Yields module) ∨
        ∃ fault, (emit target doc beginnings).outcome = .error fault ∧
          (Flaw selected fault ∨
            fault = .endlessCopy ∧ target = .typedDict ∧ CopiesItself selected)) := by
  refine ⟨fun names => ⟨narrow? doc names, rfl, fun narrowed => isMap_of_narrow?⟩, ?_⟩
  obtain ⟨selected, selects, keyedSelected⟩ := exists_schemasFor keyed beginnings
  have ends := endsAs_emit target selects keyedSelected
  refine ⟨selected, selects, ?_⟩
  cases outcome : (emit target doc beginnings).outcome with
  | ok module => exact .inl ⟨module, outcome⟩
  | error fault => exact .inr ⟨fault, rfl, ends.of_error outcome⟩

/-! ## Properties that are no mapping -/

/-- A document whose only schema declares its properties in a list. -/
def listedProperties : Value :=
  .map [(.text "components", .map [(.text "schemas", .map [(.text "A",
    .map [(.text "properties", .list [.int 1])])])])]

/-- A single schema that cannot be read has no definitions. -/
theorem outcome_definitions_of_unread (dialect : Dialect) (name : String) {raw : Value}
    (failed : Schema.ofValue raw = .error fault) :
    (definitions dialect [(.text name, raw)]).outcome = .error fault := by
  have assigns : (assignNames dialect ∅ [.text name]).Yields [(name, name)] := by
    simp [assignNames, emittedName, clashes]
  have texts : textNames (order [(.text name, raw)]) = [name] := by
    rw [order_single]
    rfl
  unfold definitions
  rw [List.map_singleton, assigns.outcome_andThen]
  simp [texts, emitSchemas, emitSchema, failed, Traced.andThen, Traced.ofExcept]

theorem outcome_emit_listedProperties (target : Target) :
    (emit target listedProperties []).outcome = .error .propertiesNotMapping := by
  have read : Schema.ofValue (.map [(.text "properties", .list [.int 1])]) =
      .error .propertiesNotMapping := by
    rw [Schema.ofValue_of_keyword (by simp) (by simp)
      (by simp [Schema.composed?, Composition.keyword]) (by simp [Schema.statedType])
      (by simp [Schema.hasObjectKeyword, Schema.objectKeywords, Mapping.has])]
    have found : Mapping.find? [(.text "properties", .list [.int 1])] "properties" =
        some (.list [.int 1]) := by simp
    exact Schema.ofObject_of_other found rfl rfl (by simp)
  have failed := outcome_definitions_of_unread target.dialect "A" read
  have selects : schemasFor listedProperties [] =
      .ok [(.text "A", .map [(.text "properties", .list [.int 1])])] := by cbv
  unfold emit
  rw [selects, Traced.ofExcept_ok, Traced.answer_andThen, if_neg (by simp)]
  unfold Traced.andThen
  rw [failed]

theorem emit_answers_unless_flawed_listedProperties :
    listedProperties.hasTextKeys ∧
      ∃ selected fault, schemasFor listedProperties [] = .ok selected ∧
        (emit .typedDict listedProperties []).outcome = .error fault ∧ Flaw selected fault := by
  have keyed : listedProperties.hasTextKeys := by decide
  obtain ⟨_, selected, selects, ends⟩ :=
    emit_answers_unless_flawed .typedDict listedProperties keyed []
  have failed := outcome_emit_listedProperties .typedDict
  rcases ends with ⟨module, yields⟩ | ⟨fault, alsoFailed, why⟩
  · cases failed.symm.trans yields
  · obtain rfl := Except.error.inj (failed.symm.trans alsoFailed)
    rcases why with flaw | ⟨other, _⟩
    · exact ⟨keyed, selected, _, selects, failed, flaw⟩
    · cases other

/-- Not every document has a module, even without schemas that copy themselves. -/
theorem not_always_answered :
    ¬ ∀ (target : Target) (doc : Value) (beginnings : List String), doc.hasTextKeys →
      (emit target doc beginnings).outcome ≠ .error .endlessCopy →
      ∃ module, (emit target doc beginnings).Yields module := by
  intro claimed
  have failed := outcome_emit_listedProperties (.zod "Schema")
  obtain ⟨module, yields⟩ := claimed (.zod "Schema") listedProperties [] (by decide) (by
    rw [failed]
    decide)
  cases failed.symm.trans yields

end Emission

end OpenApi
