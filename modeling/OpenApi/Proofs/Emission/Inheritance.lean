import OpenApi.Dialect.TypedDict
import OpenApi.Proofs.Emission.Run
import OpenApi.Proofs.Schema.Reading

/-!
# Inheritance among definitions

Where bases are inherited, a record builds on records that are emitted before it, and it leaves no
key out: what it does not inherit it has copied.  Following the bases of a class from definition to
definition therefore gives the keys of all objects that its schema is composed of, and a module can
be read from top to bottom.
-/

namespace OpenApi

variable {dialect : Dialect} {scope : Scope} {root : Schema}

/-- What a record is left to build on is a record of the map that it is composed of, and emitted
before. -/
theorem Dialect.Records.exists_base {schema : Schema} {flat : FlatRecord} {type : TypeExpr}
    (records : dialect.Records scope schema flat type) (nominal : dialect.nominalBases)
    (isRecord : schema.isRecord) (part : schema.PartOf scope.schemas root)
    (resolves : Resolves scope.schemas) (pointers : root.PointersIn scope.schemas.names)
    {base : String} (member : base ∈ flat.bases) :
    ∃ record, Named scope.schemas base record ∧ record.isRecord ∧
      Composes scope.schemas schema record ∧ scope.emittedLater true base = false := by
  have flattened := records.flattened
  rw [nominal] at flattened
  have composed := (flattens_of_yields flattened).composedOf (Schema.isJoined_of_isRecord isRecord)
  obtain ⟨traits, pointer, composes, points, defined⟩ := composed.bases base member
  obtain ⟨_, _, name, same, pointed, search⟩ := points
  cases same
  have held := resolves.has pointers (part.of_composes composes) pointed
  have found := (yields_base?_iff held).mp search
  obtain ⟨record, named, recordIs⟩ := named_of_recordBehind? found
  exact ⟨record, named, recordIs, composes.trans (.base pointed found named (.self record)),
    defined⟩

/-- A name is the emitted name of a record of the map that is emitted before. -/
def Scope.Inheritable (scope : Scope) (emitted : String) : Prop :=
  ∃ base record, Named scope.schemas base record ∧ record.isRecord ∧
    scope.emittedLater true base = false ∧ scope.emittedName base = emitted

/-- Taking names changes nothing about what may be inherited. -/
theorem Scope.inheritable_taking {names : List String} {emitted : String} :
    (scope.taking names).Inheritable emitted ↔ scope.Inheritable emitted := by
  rw [Scope.taking_eq]
  rfl

/-- What a record builds on may be inherited. -/
theorem Dialect.Records.inheritable {schema : Schema} {flat : FlatRecord} {type : TypeExpr}
    (records : dialect.Records scope schema flat type) (nominal : dialect.nominalBases)
    (isRecord : schema.isRecord) (part : schema.PartOf scope.schemas root)
    (resolves : Resolves scope.schemas) (pointers : root.PointersIn scope.schemas.names) :
    ∀ base ∈ type.bases, scope.Inheritable base := by
  intro emitted member
  rw [records.bases] at member
  obtain ⟨base, held, rfl⟩ := List.mem_map.mp member
  obtain ⟨record, named, recordIs, _, defined⟩ :=
    records.exists_base nominal isRecord part resolves pointers held
  exact ⟨base, record, named, recordIs, defined, rfl⟩

/-- Definitions that are brought along inherit from records emitted before. -/
theorem Dialect.Brings.inheritable {definitions : List Definition}
    (brings : dialect.Brings root scope definitions) (nominal : dialect.nominalBases)
    (resolves : Resolves scope.schemas) (pointers : root.PointersIn scope.schemas.names) :
    ∀ definition ∈ definitions, ∀ base ∈ definition.type.bases, scope.Inheritable base := by
  induction brings with
  | nothing => exact fun definition none => absurd none List.not_mem_nil
  | append before after ih ihAfter =>
      intro definition member base builds
      rcases List.mem_append.mp member with early | late
      · exact ih resolves pointers definition early base builds
      · rw [← Scope.inheritable_taking]
        exact ihAfter (by rwa [Scope.schemas_taking]) (by rwa [Scope.schemas_taking]) definition
          late base builds
  | record part isRecord within records ih =>
      intro definition member base builds
      rw [← Scope.inheritable_taking]
      rcases List.mem_append.mp member with inner | last
      · exact ih (by rwa [Scope.schemas_taking]) (by rwa [Scope.schemas_taking]) definition inner
          base builds
      · obtain rfl := List.mem_singleton.mp last
        exact records.inheritable nominal isRecord (by rwa [Scope.schemas_taking])
          (by rwa [Scope.schemas_taking]) (by rwa [Scope.schemas_taking]) base builds

/-- A compiled schema inherits from records emitted before. -/
theorem Dialect.inheritable_of_compile {name : String} {schema : Schema} {compiled : Compiled}
    (run : (dialect.compile name schema scope).Yields compiled) (namesNested : dialect.namesNested)
    (nominal : dialect.nominalBases) (resolves : Resolves scope.schemas)
    (pointers : schema.PointersIn scope.schemas.names) :
    ∀ base ∈ compiled.type.bases, scope.Inheritable base := by
  obtain ⟨_, record, plain⟩ := compile_yields run
  cases isRecord : schema.isRecord with
  | true =>
      obtain ⟨flat, records⟩ := record isRecord
      exact records.inheritable nominal isRecord (.inl (.self schema)) resolves pointers
  | false =>
      rw [(plain isRecord namesNested).2]
      exact fun base none => absurd none List.not_mem_nil

namespace Emission

variable {schemas : Mapping} {names : List (String × String)} {done : List String}
  {progress : Progress}

/-! ## Bases stand before -/

/-- Every base of a definition is the name of a record that stands before it. -/
def Importable (definitions : List Definition) : Prop :=
  ∀ before definition after, definitions = before ++ definition :: after →
    ∀ base ∈ definition.type.bases, ∃ earlier ∈ before,
      earlier.name = base ∧ earlier.type.kind = .object

/-- Definitions may be added that build on classes before them. -/
theorem Importable.append {first second : List Definition} (importable : Importable first)
    (onFirst : ∀ definition ∈ second, ∀ base ∈ definition.type.bases, ∃ earlier ∈ first,
      earlier.name = base ∧ earlier.type.kind = .object) : Importable (first ++ second) := by
  intro before definition after same base builds
  rcases List.append_eq_append_iff.mp same with ⟨more, rfl, tail⟩ | ⟨rest, rfl, tail⟩
  · obtain ⟨earlier, listed, facts⟩ :=
      onFirst definition (tail ▸ List.mem_append_right _ List.mem_cons_self) base builds
    exact ⟨earlier, List.mem_append_left _ listed, facts⟩
  · cases rest with
    | nil =>
        rw [List.nil_append] at tail
        rw [List.append_nil] at onFirst
        exact onFirst definition (tail ▸ List.mem_cons_self) base builds
    | cons head rest =>
        obtain ⟨rfl, _⟩ := List.cons.inj tail
        exact importable before definition rest rfl base builds

/-- A schema that counts as emitted was emitted. -/
theorem Emits.mem_of_defined (emits : Emits dialect schemas names done progress)
    {emitted name : String} {schema : Schema} (named : Named schemas name schema)
    (defined : (surroundings schemas names progress emitted).emittedLater true name = false) :
    name ∈ done := by
  rw [← emits.mem_emitted_iff]
  simpa [Scope.emittedLater, surroundings, Scope.around, named.has] using defined

/-- A schema has the name assigned to it. -/
theorem emittedName_surroundings {emitted name other : String}
    (assigned : names.lookup name = some other) :
    (surroundings schemas names progress emitted).emittedName name = other := by
  change (names.lookup name).getD name = other
  rw [assigned, Option.getD_some]

/-- A base that is emitted before has a definition so far, and it is a record. -/
theorem Emits.exists_of_inheritable (emits : Emits dialect schemas names done progress)
    {emitted base : String}
    (inheritable : (surroundings schemas names progress emitted).Inheritable base) :
    ∃ earlier ∈ progress.definitions, earlier.name = base ∧ earlier.type.kind = .object := by
  obtain ⟨source, record, named, isRecord, defined, rfl⟩ := inheritable
  obtain ⟨definition, listed, defines⟩ :=
    emits.exists_defines (emits.mem_of_defined named defined) named
  obtain ⟨_, _, _, _, records⟩ := defines.record isRecord
  exact ⟨definition, listed, (emittedName_surroundings defines.assigned).symm, records.kind⟩

/-- At every step, each class builds on classes before it. -/
theorem Emits.importable (emits : Emits dialect schemas names done progress)
    (namesNested : dialect.namesNested) (nominal : dialect.nominalBases)
    (resolves : Resolves schemas) : Importable progress.definitions := by
  induction emits with
  | start =>
      intro before definition after same
      cases before <;> cases same
  | @next done progress name emitted schema compiled before named assigned compiles ih =>
      have pointers := resolves name schema named
      have brings := (Dialect.compile_yields compiles).1
      rw [Progress.after, List.append_assoc]
      refine ih.append fun definition member base builds => ?_
      suffices (surroundings schemas names progress emitted).Inheritable base from
        before.exists_of_inheritable this
      rcases List.mem_append.mp member with brought | last
      · exact brings.inheritable nominal resolves pointers definition brought base builds
      · obtain rfl := List.mem_singleton.mp last
        exact Dialect.inheritable_of_compile compiles namesNested nominal resolves pointers base
          builds

/-! ## Two records that extend each other -/

/-- A raw schema that extends another by one property. -/
def extending (base key : String) : Value :=
  .map [(.text "allOf", .list
    [.map [(.text "$ref", .text (Reference.schemaRoot ++ base))],
      .map [(.text "properties", .map [(.text key, .map [])])]])]

/-- What it is read as. -/
def extended (base key : String) : Schema :=
  .composition {} .allOf
    [.reference {} (Reference.schemaRoot ++ base),
      .object {} (some [(.text key, .unknown {})]) [] .unstated]

/-- A record that extends another one is read as such. -/
theorem ofValue_extending (base key : String) :
    Schema.ofValue (extending base key) = .ok (extended base key) := by
  have pointer : Schema.ofValue (.map [(.text "$ref", .text (Reference.schemaRoot ++ base))]) =
      .ok (.reference {} (Reference.schemaRoot ++ base)) :=
    Schema.ofValue_of_pointer (by simp)
  have branches : Schema.ofItems [.map [(.text "$ref", .text (Reference.schemaRoot ++ base))],
      .map [(.text "properties", .map [(.text key, .map [])])]] =
        .ok [.reference {} (Reference.schemaRoot ++ base),
          .object {} (some [(.text key, .unknown {})]) [] .unstated] := by
    simp [Schema.ofItems, pointer, Schema.ofValue_of_property, bind, Except.bind, pure, Except.pure]
  exact Schema.ofValue_of_branches (by simp) (by simp)
    (by simp [Schema.composed?, Composition.keyword])
    (by simp [Schema.hasObjectKeyword, Schema.objectKeywords, Mapping.has]) branches

/-- Two schemas each of which extends the other. -/
def mutualBases : Mapping :=
  [(.text "A", extending "B" "a"), (.text "B", extending "A" "b")]

/-- Both pointers lead to schemas of the map. -/
theorem resolves_mutualBases : Resolves mutualBases :=
  resolves_of_references (by decide)

/-- What the two names are read as. -/
theorem named_mutualBases : Named mutualBases "A" (extended "B" "a") ∧
    Named mutualBases "B" (extended "A" "b") :=
  ⟨⟨_, by simp [mutualBases], ofValue_extending "B" "a"⟩,
    ⟨_, by simp [mutualBases], ofValue_extending "A" "b"⟩⟩

/-- Each of the two points to the other as a base. -/
theorem points_mutualBases {scope : Scope} (schemas : scope.schemas = mutualBases) :
    scope.Points true (.reference {} (Reference.schemaRoot ++ "A")) "A" ∧
      scope.Points true (.reference {} (Reference.schemaRoot ++ "B")) "B" := by
  obtain ⟨namedA, namedB⟩ := named_mutualBases
  rw [← schemas] at namedA namedB
  have foundA : recordBehind? scope.schemas [] "A" = .ok (some "A") :=
    recordBehind?_of_record namedA rfl List.not_mem_nil
  have foundB : recordBehind? scope.schemas [] "B" = .ok (some "B") :=
    recordBehind?_of_record namedB rfl List.not_mem_nil
  exact ⟨.of_found (by cbv) foundA, .of_found (by cbv) foundB⟩

/-- Before anything is emitted, `B` copies the field of `A`. -/
theorem compile_copying (scope : Scope) (schemas : scope.schemas = mutualBases)
    (defined : scope.defined = some ∅) :
    ∃ compiled, (TypedDict.dialect.compile "B" (extended "A" "b") scope).Yields compiled ∧
      compiled.auxiliary = [] ∧ compiled.type.kind = .object ∧ compiled.type.bases = [] ∧
      compiled.type.fields.map Field.name = ["b", "a"] := by
  obtain ⟨pointsA, pointsB⟩ := points_mutualBases schemas
  have heldA : scope.schemas.find? "A" = some (extending "B" "a") := by simp [schemas, mutualBases]
  have heldB : scope.schemas.find? "B" = some (extending "A" "b") := by simp [schemas, mutualBases]
  have later {name : String} {raw : Value} (held : scope.schemas.find? name = some raw) :
      scope.emittedLater true name := by
    simp [Scope.emittedLater, defined, Mapping.has, held]
  have start (copying : List String) :
      Flattens scope true copying (.composition {} .allOf []) {} := .start
  have own (copying : List String) (key : String) :
      Flattens scope true copying (.object {} (some [(.text key, .unknown {})]) [] .unstated)
        { properties := [(.text key, .unknown {})] } := .object
  have again := ((start ["B", "A"]).skip pointsA (later heldA) (by simp)).join rfl (own _ "b")
  have copied := ((start ["A"]).copy pointsB (later heldB) (by simp) heldB
    (ofValue_extending "A" "b") again).join rfl (own _ "a")
  have whole := ((start []).copy pointsA (later heldA) (by simp) heldA
    (ofValue_extending "B" "a") copied).join rfl (own _ "b")
  exact ⟨_, Traced.yields_andThen.mpr ⟨_, whole.yields, rfl⟩, rfl, rfl, rfl, rfl⟩

/-- Then `A` inherits from `B`. -/
theorem compile_inheriting (scope : Scope) (schemas : scope.schemas = mutualBases)
    (defined : scope.defined = some ((∅ : NameSet).insert "B")) :
    ∃ compiled, (TypedDict.dialect.compile "A" (extended "B" "a") scope).Yields compiled ∧
      compiled.auxiliary = [] ∧ compiled.type.kind = .object ∧
      compiled.type.bases = [scope.emittedName "B"] ∧
      compiled.type.fields.map Field.name = ["a"] := by
  obtain ⟨_, pointsB⟩ := points_mutualBases schemas
  have before : scope.emittedLater true "B" = false := by simp [Scope.emittedLater, defined]
  have start : Flattens scope true [] (.composition {} .allOf []) {} := .start
  have whole : Flattens scope true [] (extended "B" "a")
      { bases := ["B"], properties := [(.text "a", .unknown {})] } :=
    (start.inherit pointsB before).join rfl .object
  exact ⟨_, Traced.yields_andThen.mpr ⟨_, whole.yields, rfl⟩, rfl, rfl, rfl, rfl⟩

/-- Both keep their names. -/
theorem assigns_mutualBases : (assignNames TypedDict.dialect ∅ (mutualBases.map (·.1))).Yields
    [("A", "A"), ("B", "B")] := by
  have ofNameA : Identifier.ofName "A" = "A" := by decide
  have ofNameB : Identifier.ofName "B" = "B" := by decide
  simp [assignNames, emittedName, clashes, mutualBases, TypedDict.dialect, TypedDict.fieldsName,
    ofNameA, ofNameB]

/-- The name, kind, bases and keys of a definition. -/
def outline (definition : Definition) : String × DefinitionKind × List String × List String :=
  (definition.name, definition.type.kind, definition.type.bases,
    definition.type.fields.map Field.name)

/-- The second one is emitted with the fields of both, and the first one builds on it. -/
theorem yields_mutualBases : ∃ built, (definitions TypedDict.dialect mutualBases).Yields built ∧
    built.map outline = [("B", .object, [], ["b", "a"]), ("A", .object, ["B"], ["a"])] := by
  have order : textNames (Document.order mutualBases) = ["B", "A"] := by
    have arranged : Document.order mutualBases = [.text "B", .text "A"] := by cbv
    rw [arranged]
    rfl
  let names := [("A", "A"), ("B", "B")]
  let start : Progress := { reserved := (NameSet.ofList mutualBases.names).insertAll ["A", "B"] }
  obtain ⟨namedA, namedB⟩ := named_mutualBases
  obtain ⟨first, compilesB, aloneB, kindB, basesB, fieldsB⟩ :=
    compile_copying (surroundings mutualBases names start "B") rfl rfl
  let between := start.after "B" "B" (extended "A" "b") first
  obtain ⟨second, compilesA, aloneA, kindA, basesA, fieldsA⟩ :=
    compile_inheriting (surroundings mutualBases names between "A") rfl rfl
  have run : (emitSchemas TypedDict.dialect mutualBases names start ["B", "A"]).Yields
      (between.after "A" "A" (extended "B" "a") second) :=
    Traced.yields_andThen.mpr ⟨between, yields_emitSchema namedB rfl compilesB,
      Traced.yields_andThen.mpr ⟨_, yields_emitSchema namedA rfl compilesA, rfl⟩⟩
  rw [← order] at run
  refine ⟨_, Traced.yields_andThen.mpr ⟨names, assigns_mutualBases,
    Traced.yields_andThen.mpr ⟨_, run, rfl⟩⟩, ?_⟩
  rw [emittedName_surroundings rfl] at basesA
  simp [outline, between, start, Progress.after, aloneA, aloneB, kindA, kindB, basesA, basesB,
    fieldsA, fieldsB]

/-! ## Modules are importable -/

/-- **Classes are importable.** Where all references within the map resolve, every base of a
definition, be it of a schema or brought along, is the name of a record that stands before it. -/
theorem bases_stand_before (schemas : Mapping) (resolves : Resolves schemas)
    (built : List Definition) (emits : (definitions TypedDict.dialect schemas).Yields built) :
    ∀ before definition after, built = before ++ definition :: after →
      ∀ base ∈ definition.type.bases, ∃ earlier ∈ before,
        earlier.name = base ∧ earlier.type.kind = .object := by
  obtain ⟨names, final, _, run, rfl⟩ := emits_of_definitions TypedDict.tellsNumbersApart emits
  exact run.importable rfl rfl resolves

/-- One of two records that extend each other inherits from the other. -/
theorem bases_stand_before_mutualBases :
    ∃ built, (definitions TypedDict.dialect mutualBases).Yields built ∧
      built.map outline = [("B", .object, [], ["b", "a"]), ("A", .object, ["B"], ["a"])] ∧
      ∀ before definition after, built = before ++ definition :: after →
        ∀ base ∈ definition.type.bases, ∃ earlier ∈ before,
          earlier.name = base ∧ earlier.type.kind = .object := by
  obtain ⟨built, emits, outlined⟩ := yields_mutualBases
  exact ⟨built, emits, outlined, bases_stand_before mutualBases resolves_mutualBases built emits⟩

end Emission

end OpenApi
