import OpenApi.Proofs.Emission.Inheritance

/-!
# Keys of classes

A class has the keys of its own fields and of the classes that it builds on.  Whether a base is
inherited or its fields are copied depends on the order of emission; either way the class has the
keys that its schema declares, and no others.
-/

namespace OpenApi

variable {dialect : Dialect} {scope : Scope}

namespace Dialect.Records

variable {schema : Schema} {flat : FlatRecord} {type : TypeExpr}

/-- The fields of a record are named by the keys of the flattened schema. -/
theorem exists_field_iff (records : dialect.Records scope schema flat type) {text : String} :
    (∃ field ∈ type.fields, field.name = text) ↔ .text text ∈ flat.properties.map Prod.fst := by
  obtain ⟨properties, named, names⟩ := records.fields
  rw [namedProperties_eq_ok_iff.mp named, List.map_map, ← List.mem_map, names]
  simp

/-- All keys of the flattened schema are texts. -/
theorem exists_text_of_holds (records : dialect.Records scope schema flat type) {key : Scalar}
    (holds : Keyed.Holds flat.properties key) :
    ∃ text, key = .text text ∧ .text text ∈ flat.properties.map Prod.fst := by
  obtain ⟨properties, named, _⟩ := records.fields
  obtain ⟨entry, member, same⟩ := holds
  have listed := List.mem_map_of_mem (f := Prod.fst) member
  rw [namedProperties_eq_ok_iff.mp named] at member
  obtain ⟨property, _, rfl⟩ := List.mem_map.mp member
  exact ⟨property.1, Scalar.eq_text_of_same same, listed⟩

/-- A declared key is that of a field, or a base declares it. -/
theorem covers (records : dialect.Records scope schema flat type) (nominal : dialect.nominalBases)
    (isRecord : schema.isRecord) {key : Scalar} (declares : Declares scope.schemas schema key) :
    flat.Covers scope.schemas key := by
  have flattened := records.flattened
  rw [nominal] at flattened
  obtain ⟨traits, properties, required, additional, composes, member⟩ := declares
  obtain ⟨count, counted⟩ := composes_iff_exists_count.mp composes
  exact (flattens_of_yields flattened).covers (Schema.isJoined_of_isRecord isRecord) member counted
    fun _ none => absurd none List.not_mem_nil

/-- Only declared keys are those of fields. -/
theorem declares (records : dialect.Records scope schema flat type) (nominal : dialect.nominalBases)
    (isRecord : schema.isRecord) {field : Field} (held : field ∈ type.fields) :
    Declares scope.schemas schema (.text field.name) := by
  have flattened := records.flattened
  rw [nominal] at flattened
  have composed := (flattens_of_yields flattened).composedOf (Schema.isJoined_of_isRecord isRecord)
  exact composed.keys _ (records.exists_field_iff.mp ⟨field, held, rfl⟩)

end Dialect.Records

namespace Emission

variable {schemas : Mapping} {names : List (String × String)} {done : List String}
  {progress : Progress}

/-- A key of a definition: that of one of its fields, or a key of a definition that it builds on. -/
inductive HasKey (definitions : List Definition) : String → String → Prop
  | own {definition : Definition} {field : Field} (listed : definition ∈ definitions)
      (held : field ∈ definition.type.fields) : HasKey definitions definition.name field.name
  | inherited {definition : Definition} {base key : String} (listed : definition ∈ definitions)
      (builds : base ∈ definition.type.bases) (below : HasKey definitions base key) :
      HasKey definitions definition.name key

theorem HasKey.mono {definitions more : List Definition} {name key : String}
    (has : HasKey definitions name key) (grows : definitions ⊆ more) : HasKey more name key := by
  induction has with
  | own listed held => exact .own (grows listed) held
  | inherited listed builds below ih => exact .inherited (grows listed) builds ih

/-- The class of a schema has every key that the schema declares.  The induction is on the run: a
base that is inherited was emitted before, so its class has its keys already. -/
theorem Emits.hasKey_of_declares (emits : Emits dialect schemas names done progress)
    (nominal : dialect.nominalBases) (resolves : Resolves schemas) {name emitted : String}
    {schema : Schema} {key : Scalar} (member : name ∈ done) (named : Named schemas name schema)
    (assigned : names.lookup name = some emitted) (isRecord : schema.isRecord)
    (declares : Declares schemas schema key) :
    ∃ text, key = .text text ∧ HasKey progress.definitions emitted text := by
  induction emits generalizing name emitted schema with
  | start => exact absurd member List.not_mem_nil
  | @next done progress last lastEmitted lastSchema compiled before lastNamed lastAssigned compiles
      ih =>
      have grows : progress.definitions ⊆
          (progress.after last lastEmitted lastSchema compiled).definitions := by
        intro definition listed
        exact List.mem_append_left _ (List.mem_append_left _ listed)
      rcases List.mem_append.mp member with earlier | isLast
      · obtain ⟨text, rfl, has⟩ := ih earlier named assigned isRecord declares
        exact ⟨text, rfl, has.mono grows⟩
      · obtain rfl := List.mem_singleton.mp isLast
        obtain rfl := named.unique lastNamed
        obtain rfl := Option.some.inj (assigned.symm.trans lastAssigned)
        obtain ⟨flat, records⟩ := (Dialect.compile_yields compiles).2.1 isRecord
        have listed : ⟨emitted, compiled.type, schema.description, false⟩ ∈
            (progress.after name emitted schema compiled).definitions :=
          List.mem_append_right _ List.mem_cons_self
        rcases records.covers nominal isRecord declares with holds | ⟨base, held, record, others⟩
        · obtain ⟨text, rfl, among⟩ := records.exists_text_of_holds holds
          obtain ⟨field, heldField, rfl⟩ := records.exists_field_iff.mpr among
          exact ⟨field.name, rfl, .own listed heldField⟩
        · obtain ⟨namedBase, declaresBase⟩ := others
          obtain ⟨found, namedFound, isBase, _, defined⟩ := records.exists_base nominal isRecord
            (.inl (.self schema)) resolves (resolves name schema named) held
          obtain rfl := namedBase.unique namedFound
          -- The base is inherited, so it was emitted before and its class has the key already.
          have isDone := before.mem_of_defined namedBase defined
          obtain ⟨definition, _, defines⟩ := before.exists_defines isDone namedBase
          obtain ⟨text, rfl, has⟩ := ih isDone namedBase defines.assigned isBase declaresBase
          refine ⟨text, rfl, .inherited listed ?_ (has.mono grows)⟩
          rw [records.bases, ← emittedName_surroundings defines.assigned]
          exact List.mem_map_of_mem held

/-- The class of a schema has no key that the schema does not declare.  The induction is on the way
to the key along the bases. -/
theorem Emits.declares_of_hasKey (emits : Emits dialect schemas names done progress)
    (nominal : dialect.nominalBases) (resolves : Resolves schemas)
    (distinct : progress.Distinct names done)
    (complete : ∀ name schema, Named schemas name schema → name ∈ done) {emitted text : String}
    (has : HasKey progress.definitions emitted text) {name : String} {schema : Schema}
    (named : Named schemas name schema) (assigned : names.lookup name = some emitted)
    (isRecord : schema.isRecord) : Declares schemas schema (.text text) := by
  induction has generalizing name schema with
  | own listed held =>
      have defines :=
        emits.defines_of_listed distinct (complete name schema named) named listed assigned
      obtain ⟨scope, flat, rfl, _, records⟩ := defines.record isRecord
      exact records.declares nominal isRecord held
  | inherited listed builds below ih =>
      have defines :=
        emits.defines_of_listed distinct (complete name schema named) named listed assigned
      obtain ⟨scope, flat, rfl, rfl, records⟩ := defines.record isRecord
      rw [records.bases] at builds
      obtain ⟨base, held, rfl⟩ := List.mem_map.mp builds
      obtain ⟨record, namedBase, isBase, composes, _⟩ := records.exists_base nominal isRecord
        (.inl (.self schema)) resolves (resolves name schema named) held
      obtain ⟨definition, _, defines⟩ :=
        emits.exists_defines (complete base record namedBase) namedBase
      refine (ih namedBase ?_ isBase).of_composes composes
      rw [Scope.emittedName, defines.assigned, Option.getD_some]

/-- **The keys of a class.** Where all references within the map resolve, the class of a schema has
just the keys of the objects that the schema is composed of, over nested `allOf` branches and over
pointers to records, to any depth and around cycles; whether a base was inherited or copied does
not matter. -/
theorem keys_of_class (schemas : Mapping) (resolves : Resolves schemas)
    (names : List (String × String)) (built : List Definition)
    (assigns : (assignNames TypedDict.dialect ∅ (schemas.map (·.1))).Yields names)
    (emits : (definitions TypedDict.dialect schemas).Yields built)
    (name : String) (schema : Schema) (named : Named schemas name schema)
    (definition : Definition) (listed : definition ∈ built)
    (assigned : names.lookup name = some definition.name)
    (isClass : definition.type.kind = .object) (key : Scalar) :
    (∃ text, key = .text text ∧ HasKey built definition.name text) ↔
      Declares schemas schema key := by
  obtain ⟨others, final, alsoAssigns, run, rfl⟩ :=
    emits_of_definitions TypedDict.tellsNumbersApart emits
  obtain rfl := assigns.unique alsoAssigns
  have nodup := nodup_textNames (Document.nodup_order schemas)
  have distinct := run.distinct nodup fun first second emitted =>
    eq_of_lookup_assigned TypedDict.tellsNumbersApart assigns
  have complete (name : String) (schema : Schema) (named : Named schemas name schema) :
      name ∈ textNames (Document.order schemas) := by
    obtain ⟨raw, held, _⟩ := named
    have present := Mapping.has_iff_exists_find?.mpr ⟨raw, held⟩
    rw [mem_textNames_iff, Document.mem_order_iff, ← Mapping.mem_names_iff]
    exact Mapping.has_iff_mem_names.mp present
  have isRecord : schema.isRecord := by
    have defines :=
      run.defines_of_listed distinct (complete name schema named) named listed assigned
    by_contra other
    have plain := defines.plain (Bool.eq_false_iff.mpr other) rfl
    cases isClass.symm.trans plain
  constructor
  · rintro ⟨text, rfl, has⟩
    exact run.declares_of_hasKey rfl resolves distinct complete has named assigned isRecord
  · intro declares
    exact run.hasKey_of_declares rfl resolves (complete name schema named) named assigned isRecord
      declares

/-- Of two records that extend each other, the one that inherits has its own key and the other's. -/
theorem keys_of_class_mutualBases :
    ∃ built, (definitions TypedDict.dialect mutualBases).Yields built ∧
      built.map outline = [("B", .object, [], ["b", "a"]), ("A", .object, ["B"], ["a"])] ∧
      ∀ key, (∃ text, key = .text text ∧ HasKey built "A" text) ↔
        Declares mutualBases (extended "B" "a") key := by
  obtain ⟨built, emits, outlined⟩ := yields_mutualBases
  have member : ("A", .object, ["B"], ["a"]) ∈ built.map outline := by simp [outlined]
  obtain ⟨definition, listed, same⟩ := List.mem_map.mp member
  have isA : definition.name = "A" := congrArg Prod.fst same
  have isClass : definition.type.kind = .object := congrArg (·.2.1) same
  refine ⟨built, emits, outlined, fun key => ?_⟩
  rw [← isA]
  exact keys_of_class mutualBases resolves_mutualBases _ built assigns_mutualBases emits "A" _
    named_mutualBases.1 definition listed (by rw [isA]; rfl) isClass key

end Emission

end OpenApi
