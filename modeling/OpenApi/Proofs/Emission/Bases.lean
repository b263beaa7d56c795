import OpenApi.Proofs.Compile.Reported
import OpenApi.Proofs.Emission.Copying

/-!
# Bases that are no records

Where classes inherit, a pointer in an `allOf` is followed to the record behind it.  If it points to
a schema of the map that no record stands behind, that is reported, and the pointer is left out of
the class.  So it is for a schema that is no object, for an alias of one, for aliases in a circle,
and for an alias of a schema that is not in the map.  A pointer that itself names no schema of the
map is not looked into, and the class inherits from the name as it stands.
-/

namespace OpenApi

variable {schemas : Mapping} {scope : Scope}

/-- A schema of the map that no record stands behind. -/
structure Recordless (schemas : Mapping) (target : String) : Prop where
  has : schemas.has target
  nothing : ∀ base, ¬ Behind schemas base target

/-- A notice is among those given, and it is a warning. -/
structure Warned (told : List Notice) (notice : Notice) : Prop where
  given : notice ∈ told
  severity : notice.severity = .warning

/-- The base of a pointer is the record behind it, unless the pointer names no schema of the map. -/
theorem Scope.Points.named_or_missing {traits : Traits} {pointer base : String}
    (points : scope.Points true (.reference traits pointer) base) :
    (∃ record, Named scope.schemas base record ∧ record.isRecord) ∨
      scope.schemas.has base = false ∧ Reference.schemaName? pointer = some base := by
  obtain ⟨_, _, name, ⟨⟩, pointed, search⟩ := points
  cases held : scope.schemas.has name with
  | true => exact .inl (named_of_recordBehind? ((yields_base?_iff held).mp search))
  | false =>
      obtain rfl := Option.some.inj ((yields_base?_of_missing held).mp search)
      exact .inr ⟨held, pointed⟩

/-- If no record stands behind a name, no base is found for it, and that is reported. -/
theorem Recordless.base? {target : String} (recordless : Recordless scope.schemas target)
    {found : Option String} (search : (scope.base? true target).Yields found) :
    found = none ∧ .baseNotRecord target ∈ (scope.base? true target).notices := by
  have behind := (yields_base?_iff recordless.has).mp search
  cases found with
  | some base => exact absurd (behind_of_recordBehind? behind) (recordless.nothing base)
  | none =>
      unfold Scope.base?
      rw [recordless.has, Bool.and_self, if_pos rfl, behind]
      exact ⟨rfl, List.mem_cons_self⟩

/-- A pointer that a record is composed of is a branch of the record itself or of another one. -/
theorem Composes.branchOf {schema : Schema} {traits : Traits} {pointer : String}
    (composes : Composes schemas schema (.reference traits pointer)) :
    schema = .reference traits pointer ∨ (Schema.reference traits pointer).BranchOf schema ∨
      ∃ name record, Named schemas name record ∧ record.isRecord ∧
        (Schema.reference traits pointer).BranchOf record := by
  generalize target : Schema.reference traits pointer = part at composes
  induction composes with
  | self => exact .inl rfl
  | branch member below ih =>
      rcases ih target with rfl | inner | elsewhere
      · exact .inr (.inl (.direct member))
      · exact .inr (.inl (.nested member inner))
      · exact .inr (.inr elsewhere)
  | base pointed found named below ih =>
      obtain ⟨record, alsoNamed, isRecord⟩ := named_of_recordBehind? found
      obtain rfl := named.unique alsoNamed
      rcases ih target with same | inner | elsewhere
      · rw [same, ← target] at isRecord
        cases isRecord
      · exact .inr (.inr ⟨_, _, named, isRecord, inner⟩)
      · exact .inr (.inr elsewhere)

namespace Emission

open Document

variable {dialect : Dialect} {names : List (String × String)} {done : List String}
  {progress : Progress}

/-! ## Turns -/

/-- A schema has its turn in a run: it is compiled when the schemas before it are emitted. -/
structure Turn (dialect : Dialect) (schemas : Mapping) (names : List (String × String))
    (done : List String) (earlier : Progress) (name emitted : String) (schema : Schema)
    (compiled : Compiled) : Prop where
  position : ∃ before after, done = before ++ name :: after ∧
    Emits dialect schemas names before earlier
  named : Named schemas name schema
  assigned : names.lookup name = some emitted
  compiles : (dialect.compile emitted schema
    (surroundings schemas names earlier emitted)).Yields compiled

variable {earlier : Progress} {name emitted : String} {schema : Schema} {compiled : Compiled}

/-- A turn stays a turn of every longer run. -/
theorem Turn.extend (turn : Turn dialect schemas names done earlier name emitted schema compiled)
    (later : String) :
    Turn dialect schemas names (done ++ [later]) earlier name emitted schema compiled := by
  obtain ⟨before, after, same, run⟩ := turn.position
  refine ⟨⟨before, after ++ [later], ?_, run⟩, turn.named, turn.assigned, turn.compiles⟩
  rw [same, List.append_assoc, List.cons_append]

/-- Every definition of a run comes from the turn of a schema: it is the definition of the schema,
or it is brought along. -/
theorem Emits.exists_source (emits : Emits dialect schemas names done progress) :
    ∀ definition ∈ progress.definitions, ∃ earlier name emitted schema compiled,
      Turn dialect schemas names done earlier name emitted schema compiled ∧
        (definition ∈ compiled.auxiliary ∨
          definition = ⟨emitted, compiled.type, schema.description, false⟩) := by
  induction emits with
  | start => exact fun definition none => absurd none List.not_mem_nil
  | @next done progress name emitted schema compiled before named assigned compiles ih =>
      intro definition listed
      have last : Turn dialect schemas names (done ++ [name]) progress name emitted schema
          compiled := ⟨⟨done, [], rfl, before⟩, named, assigned, compiles⟩
      rcases List.mem_append.mp listed with among | isOwn
      · rcases List.mem_append.mp among with already | brought
        · obtain ⟨earlier, other, given, otherSchema, result, turn, origin⟩ := ih definition already
          exact ⟨earlier, other, given, otherSchema, result, turn.extend name, origin⟩
        · exact ⟨progress, name, emitted, schema, compiled, last, .inl brought⟩
      · exact ⟨progress, name, emitted, schema, compiled, last, .inr (List.mem_singleton.mp isOwn)⟩

/-- Every schema of the map among the names that are done was compiled at a turn of the run. -/
theorem Emits.exists_turn_of_named (emits : Emits dialect schemas names done progress)
    (member : name ∈ done) (named : Named schemas name schema) :
    ∃ earlier emitted compiled, Turn dialect schemas names done earlier name emitted schema
      compiled := by
  obtain ⟨before, after, earlier, emitted, compiled, same, run, assigned, compiles, _⟩ :=
    emits.exists_turn member named
  exact ⟨earlier, emitted, compiled, ⟨before, after, same, run⟩, named, assigned, compiles⟩

/-- What is reported when a schema has its turn is reported about the map. -/
theorem Turn.notices_subset
    (turn : Turn dialect schemas names (textNames (Document.order schemas)) earlier name emitted
      schema compiled)
    (assigns : (assignNames dialect ∅ (schemas.map (·.1))).Yields names) :
    (dialect.compile emitted schema (surroundings schemas names earlier emitted)).notices ⊆
      (definitions dialect schemas).notices := by
  obtain ⟨before, after, same, run⟩ := turn.position
  obtain ⟨raw, held, read⟩ := turn.named
  intro notice reported
  unfold definitions
  apply assigns.notices_subset_andThen
  apply Traced.notices_subset_andThen
  rw [same, emitSchemas_append]
  apply run.yields_emitSchemas.notices_subset_andThen
  rw [emitSchemas]
  apply Traced.notices_subset_andThen
  unfold emitSchema
  rw [turn.assigned, held]
  have reads : (Traced.ofExcept (Schema.ofValue raw)).Yields schema := read
  exact reads.notices_subset_andThen _ (Traced.notices_subset_andThen _ _ reported)

/-! ## Classes -/

/-- A definition is the class of a schema: compiling the schema as a record under the name of the
definition gives its type, and what is reported on the way is among the notices. -/
def ClassOf (dialect : Dialect) (schemas : Mapping) (names : List (String × String))
    (told : List Notice) (schema : Schema) (definition : Definition) : Prop :=
  ∃ depth scope record, scope.schemas = schemas ∧ scope.names = names ∧
    (dialect.compileRecord (dialect.compileWithin depth) schema definition.name scope).Yields
      record ∧
    (dialect.compileRecord (dialect.compileWithin depth) schema definition.name scope).notices ⊆
      told ∧
    record.type = definition.type

variable {told : List Notice} {definition : Definition}

/-- The schema of a class is flattened, its class builds on the bases of the flattened record, and
the parts that are no objects are counted if they are left out. -/
theorem ClassOf.exists_flat (classOf : ClassOf dialect schemas names told schema definition)
    (nominal : dialect.nominalBases) (fieldsOnly : dialect.fieldsOnly) :
    ∃ scope flat, scope.schemas = schemas ∧ Flattens scope true [] schema flat ∧
      (flatten scope true [] schema).notices ⊆ told ∧
      definition.type.bases = flat.bases.map (fun source => (names.lookup source).getD source) ∧
      (flat.extras ≠ [] → .partsLeftOut flat.extras.length definition.name ∈ told) := by
  obtain ⟨depth, scope, record, sameSchemas, sameNames, compiles, reported, sameType⟩ := classOf
  obtain ⟨flat, properties, fields, extras, further, steps⟩ := Dialect.exists_recordRun compiles
  have flattened := steps.flattened
  rw [steps.notices] at reported
  rw [nominal] at flattened reported
  refine ⟨scope, flat, sameSchemas, flattens_of_yields flattened,
    fun notice given => reported (List.mem_append_left _ given), ?_, fun several => ?_⟩
  · rw [← sameType, steps.bases, ← sameNames]
    rfl
  · apply reported
    have counted : flat.extras.isEmpty = false := by simpa using several
    rw [fieldsOnly, counted]
    simp

/-- A branch of a class that points to a schema without a record behind it is reported. -/
theorem ClassOf.reports (classOf : ClassOf dialect schemas names told schema definition)
    (nominal : dialect.nominalBases) (fieldsOnly : dialect.fieldsOnly) {traits : Traits}
    {pointer target : String} (branchOf : (Schema.reference traits pointer).BranchOf schema)
    (pointed : Reference.schemaName? pointer = some target)
    (recordless : Recordless schemas target) : .baseNotRecord target ∈ told := by
  obtain ⟨scope, flat, rfl, flattens, reported, _, _⟩ := classOf.exists_flat nominal fieldsOnly
  obtain ⟨found, search, among⟩ := flattens.exists_base?_of_branchOf branchOf pointed
  exact reported (among (recordless.base? search).2)

/-- Parts of a class are left out if one of its branches leads to no record. -/
theorem ClassOf.leavesOut (classOf : ClassOf dialect schemas names told schema definition)
    (nominal : dialect.nominalBases) (fieldsOnly : dialect.fieldsOnly) {traits : Traits}
    {pointer : String} (branchOf : (Schema.reference traits pointer).BranchOf schema)
    (recordless : ∀ target, Reference.schemaName? pointer = some target →
      Recordless schemas target) :
    ∃ count, 0 < count ∧ .partsLeftOut count definition.name ∈ told := by
  obtain ⟨scope, flat, rfl, flattens, _, _, counted⟩ := classOf.exists_flat nominal fieldsOnly
  have apart : scope.Apart true (.reference traits pointer) := by
    refine ⟨rfl, ?_⟩
    rintro _ _ target ⟨⟩ pointed
    obtain ⟨found, search, _⟩ := flattens.exists_base?_of_branchOf branchOf pointed
    obtain ⟨rfl, _⟩ := (recordless target pointed).base? search
    exact search
  have left := flattens.mem_extras_of_branchOf branchOf apart
  exact ⟨flat.extras.length, List.length_pos_of_mem left, counted (List.ne_nil_of_mem left)⟩

/-- The definition of a record is its class. -/
theorem Turn.classOf
    (turn : Turn dialect schemas names (textNames (Document.order schemas)) earlier name emitted
      schema compiled)
    (assigns : (assignNames dialect ∅ (schemas.map (·.1))).Yields names)
    (isRecord : schema.isRecord) :
    ClassOf dialect schemas names (definitions dialect schemas).notices schema
      ⟨emitted, compiled.type, schema.description, false⟩ := by
  have compiles := turn.compiles
  have reported := turn.notices_subset assigns
  unfold Dialect.compile at compiles reported
  dsimp only at compiles reported
  rw [if_pos isRecord] at compiles reported
  exact ⟨_, _, compiled, rfl, rfl, compiles, reported, rfl⟩

/-- A definition that is brought along is the class of a record that stands in the map. -/
theorem Turn.exists_classOf_of_brought
    (turn : Turn dialect schemas names (textNames (Document.order schemas)) earlier name emitted
      schema compiled)
    (assigns : (assignNames dialect ∅ (schemas.map (·.1))).Yields names)
    (brought : definition ∈ compiled.auxiliary) :
    definition.synthesized ∧ ∃ part, (∃ name whole, Named schemas name whole ∧ part.Within whole) ∧
      part.isRecord ∧
        ClassOf dialect schemas names (definitions dialect schemas).notices part definition := by
  have reported := turn.notices_subset assigns
  cases dialect.accounts_compile _ _ _ compiled turn.compiles definition brought with
  | @record depth part own taken record partOf isRecord compiles told =>
      refine ⟨rfl, part, ?_, isRecord, depth, _, record, Scope.schemas_taking _ taken,
        by rw [Scope.taking_eq]; rfl, compiles, List.Subset.trans told reported, rfl⟩
      rcases partOf with direct | ⟨other, whole, named, inner⟩
      · exact ⟨name, schema, turn.named, direct⟩
      · exact ⟨other, whole, named, inner⟩

/-- Every record of the map has a class. -/
theorem Emits.exists_classOf_of_named
    (emits : Emits dialect schemas names (textNames (Document.order schemas)) progress)
    (assigns : (assignNames dialect ∅ (schemas.map (·.1))).Yields names)
    (named : Named schemas name schema) (isRecord : schema.isRecord) :
    ∃ definition,
      ClassOf dialect schemas names (definitions dialect schemas).notices schema definition := by
  obtain ⟨earlier, emitted, compiled, turn⟩ :=
    emits.exists_turn_of_named (mem_textNames_order_of_named named) named
  exact ⟨_, turn.classOf assigns isRecord⟩

/-! ## Classes that build on others -/

/-- How a class is built on others: its schema is a record that stands in the map, and its bases are
the emitted names of its sources. -/
structure BuildsOn (schemas : Mapping) (names : List (String × String)) (told : List Notice)
    (definition : Definition) (schema : Schema) (sources : List String) : Prop where
  part : ∃ name whole, Named schemas name whole ∧ schema.Within whole
  own : definition.synthesized = false →
    ∃ name, Named schemas name schema ∧ names.lookup name = some definition.name
  isRecord : schema.isRecord
  classOf : ClassOf TypedDict.dialect schemas names told schema definition
  bases : definition.type.bases = sources.map fun source => (names.lookup source).getD source
  /-- A source in the map is a record, and it is inherited under its emitted name. -/
  records : ∀ source ∈ sources, schemas.has source → ∃ record emitted,
    Named schemas source record ∧ record.isRecord ∧ names.lookup source = some emitted
  /-- Any other source is named by a pointer, and it is inherited under that name. -/
  missing : ∀ source ∈ sources, schemas.has source = false → names.lookup source = none ∧
    ∃ traits pointer, Composes schemas schema (.reference traits pointer) ∧
      Reference.schemaName? pointer = some source
  /-- A schema that no record stands behind is no source, and a warning says so. -/
  reported : ∀ traits pointer target, Composes schemas schema (.reference traits pointer) →
    Reference.schemaName? pointer = some target → Recordless schemas target →
      target ∉ sources ∧ Warned told (.baseNotRecord target)
  /-- A branch that leads to no record is left out of the class, and a warning says so. -/
  leftOut : ∀ traits pointer, (Schema.reference traits pointer).BranchOf schema →
    (∀ target, Reference.schemaName? pointer = some target → Recordless schemas target) →
      ∃ count, 0 < count ∧ Warned told (.partsLeftOut count definition.name)

/-- Names are assigned to the schemas of the map and to nothing else. -/
theorem lookup_assigned_isSome_iff (numbers : dialect.TellsNumbersApart) {used : NameSet}
    (assigns : (assignNames dialect used (schemas.map (·.1))).Yields names) :
    (names.lookup name).isSome ↔ schemas.has name := by
  have keys := (assignNames_apart numbers assigns).1
  rw [Mapping.lookup_isSome_iff, Mapping.has_iff_mem_names, Mapping.mem_names_iff, keys]
  simp

/-- Where all records of the map have classes, every class is built so. -/
theorem ClassOf.exists_buildsOn
    (classOf : ClassOf TypedDict.dialect schemas names told schema definition)
    (assigns : (assignNames TypedDict.dialect ∅ (schemas.map (·.1))).Yields names)
    (everyRecord : ∀ name record, Named schemas name record → record.isRecord →
      ∃ definition, ClassOf TypedDict.dialect schemas names told record definition)
    (part : ∃ name whole, Named schemas name whole ∧ schema.Within whole)
    (own : definition.synthesized = false →
      ∃ name, Named schemas name schema ∧ names.lookup name = some definition.name)
    (isRecord : schema.isRecord) :
    ∃ sources, BuildsOn schemas names told definition schema sources := by
  have assigned {source : String} :
      (names.lookup source).isSome ↔ schemas.has source :=
    lookup_assigned_isSome_iff TypedDict.tellsNumbersApart assigns
  obtain ⟨scope, flat, rfl, flattens, _, bases, _⟩ := classOf.exists_flat rfl rfl
  have composed := flattens.composedOf (Schema.isJoined_of_isRecord isRecord)
  have inherited : ∀ source ∈ flat.bases, scope.schemas.has source →
      ∃ record, Named scope.schemas source record ∧ record.isRecord := by
    intro source member present
    obtain ⟨traits, pointer, _, points, _⟩ := composed.bases source member
    rcases points.named_or_missing with record | ⟨missing, _⟩
    · exact record
    · cases present.symm.trans missing
  refine ⟨flat.bases, part, own, isRecord, classOf, bases, ?_, ?_, ?_, ?_⟩
  · intro source member present
    obtain ⟨record, named, recordIs⟩ := inherited source member present
    obtain ⟨emitted, found⟩ := Option.isSome_iff_exists.mp (assigned.mpr present)
    exact ⟨record, emitted, named, recordIs, found⟩
  · intro source member missing
    have unassigned : names.lookup source = none := by
      rw [← Option.not_isSome_iff_eq_none, assigned, missing]
      exact Bool.false_ne_true
    obtain ⟨traits, pointer, composes, points, _⟩ := composed.bases source member
    rcases points.named_or_missing with ⟨record, named, _⟩ | ⟨_, pointed⟩
    · cases named.has.symm.trans missing
    · exact ⟨unassigned, traits, pointer, composes, pointed⟩
  · intro traits pointer target composes pointed recordless
    refine ⟨fun member => ?_, ?_, rfl⟩
    · obtain ⟨record, named, recordIs⟩ := inherited target member recordless.has
      exact recordless.nothing target (.record named recordIs)
    · -- The pointer is a branch of this class or of the class of a record of the map.
      rcases composes.branchOf with rfl | branchOf | ⟨name, record, named, recordIs, branchOf⟩
      · cases isRecord
      · exact classOf.reports rfl rfl branchOf pointed recordless
      · obtain ⟨other, otherClass⟩ := everyRecord name record named recordIs
        exact otherClass.reports rfl rfl branchOf pointed recordless
  · intro traits pointer branchOf recordless
    obtain ⟨count, positive, counted⟩ := classOf.leavesOut rfl rfl branchOf recordless
    exact ⟨count, positive, counted, rfl⟩

/-! ## A schema that is no object -/

/-- A schema for texts, and a record that extends it. -/
def painted : Mapping :=
  [(.text "Color", .map [(.text "type", .text "string")]),
    (.text "Paint", extending "Color" "gloss")]

theorem named_painted : Named painted "Color" (.primitive {} .string) ∧
    Named painted "Paint" (extended "Color" "gloss") := by
  have text : Schema.ofValue (.map [(.text "type", .text "string")]) =
      .ok (.primitive {} .string) := by cbv
  exact ⟨⟨_, by simp [painted], text⟩, ⟨_, by simp [painted], ofValue_extending "Color" "gloss"⟩⟩

theorem recordless_painted : Recordless painted "Color" where
  has := named_painted.1.has
  nothing base behind := by
    cases behind with
    | record named isRecord =>
        rw [named.unique named_painted.1] at isRecord
        cases isRecord
    | along named isAlias behind =>
        rw [named.unique named_painted.1] at isAlias
        cases isAlias

theorem compile_paint (scope : Scope) (schemas : scope.schemas = painted) :
    ∃ compiled, (TypedDict.dialect.compile "Paint" (extended "Color" "gloss") scope).Yields
      compiled := by
  have apart : scope.Apart true (.reference {} (Reference.schemaRoot ++ "Color")) := by
    refine ⟨rfl, ?_⟩
    rintro _ _ name ⟨⟩ pointed
    have named : Reference.schemaName? (Reference.schemaRoot ++ "Color") = some "Color" := by cbv
    obtain rfl := Option.some.inj (named.symm.trans pointed)
    rw [yields_base?_iff (schemas ▸ recordless_painted.has)]
    have behind : recordBehind? painted [] "Color" = .ok none := by cbv
    exact schemas ▸ behind
  have start : Flattens scope true [] (.composition {} .allOf []) {} := .start
  have own : Flattens scope true [] (.object {} (some [(.text "gloss", .unknown {})]) [] .unstated)
      { properties := [(.text "gloss", .unknown {})] } := .object
  have whole := (start.extra apart).join rfl own
  exact ⟨_, Traced.yields_andThen.mpr ⟨_, whole.yields, rfl⟩⟩

theorem assigns_painted : (assignNames TypedDict.dialect ∅ (painted.map (·.1))).Yields
    [("Color", "Color"), ("Paint", "Paint")] := by
  have ofColor : Identifier.ofName "Color" = "Color" := by decide
  have ofPaint : Identifier.ofName "Paint" = "Paint" := by decide
  simp [assignNames, emittedName, clashes, painted, TypedDict.dialect, TypedDict.fieldsName,
    ofColor, ofPaint]

theorem yields_painted : ∃ built definition,
    (definitions TypedDict.dialect painted).Yields built ∧ definition ∈ built ∧
      definition.name = "Paint" ∧ definition.synthesized = false ∧
      definition.type.kind = .object := by
  let names := [("Color", "Color"), ("Paint", "Paint")]
  obtain ⟨namedColor, namedPaint⟩ := named_painted
  have before : Emits TypedDict.dialect painted names [] _ := .start
  have first := before.next namedColor rfl rfl
  obtain ⟨paint, compiles⟩ := compile_paint (surroundings painted names _ "Paint") rfl
  have run := first.next namedPaint rfl compiles
  have order : textNames (order painted) = [] ++ ["Color"] ++ ["Paint"] := by
    have arranged : order painted = [.text "Color", .text "Paint"] := by cbv
    rw [arranged]
    rfl
  rw [← order] at run
  obtain ⟨flat, records⟩ := (Dialect.compile_yields compiles).2.1 rfl
  exact ⟨_, _, run.yields_definitions assigns_painted,
    List.mem_append_right _ List.mem_cons_self, rfl, rfl, records.kind⟩

/-! ## A schema that is not in the map -/

/-- A record that extends a schema which is not in the map. -/
def dangling : Mapping := [(.text "A", extending "Missing" "a")]

theorem compile_dangling (scope : Scope) (schemas : scope.schemas = dangling) :
    ∃ compiled, TypedDict.dialect.compile "A" (extended "Missing" "a") scope = .answer compiled ∧
      compiled.auxiliary = [] ∧ compiled.type.bases = [scope.emittedName "Missing"] := by
  have pointed : Reference.schemaName? (Reference.schemaRoot ++ "Missing") = some "Missing" := by
    cbv
  have missing : scope.schemas.has "Missing" = false := by simp [schemas, dangling, Mapping.has]
  have flattened : flatten scope true [] (extended "Missing" "a") =
      .answer { bases := ["Missing"], properties := [(.text "a", .unknown {})] } := by
    simp [extended, flatten, flattenBranches, flattenBranch, pointed, Scope.base?, missing,
      Scope.emittedLater, FlatRecord.withBase, FlatRecord.ofObject, FlatRecord.absorb,
      FlatRecord.mergeRequired, Keyed.putAll]
  have isRecord : (extended "Missing" "a").isRecord := rfl
  unfold Dialect.compile Dialect.compileRecord
  rw [if_pos isRecord]
  change ∃ compiled, (flatten scope true [] (extended "Missing" "a")).andThen _ = _ ∧ _
  rw [flattened, Traced.answer_andThen]
  exact ⟨_, rfl, rfl, rfl⟩

theorem assigns_dangling :
    assignNames TypedDict.dialect ∅ (dangling.map (·.1)) = .answer [("A", "A")] := by
  have ofA : Identifier.ofName "A" = "A" := by decide
  simp [assignNames, emittedName, clashes, dangling, TypedDict.dialect, TypedDict.fieldsName, ofA]
  rfl

/-- The record is emitted with the missing schema for its base, and nothing is reported. -/
theorem definitions_dangling : ∃ definition,
    definitions TypedDict.dialect dangling = .answer [definition] ∧
      definition.type.bases = ["Missing"] := by
  let start : Progress := { reserved := (NameSet.ofList dangling.names).insertAll ["A"] }
  have order : textNames (order dangling) = ["A"] := by
    have arranged : order dangling = [.text "A"] := by cbv
    rw [arranged]
    rfl
  have read : (dangling.find? "A").getD .null = extending "Missing" "a" := by simp [dangling]
  obtain ⟨compiled, compiles, alone, bases⟩ :=
    compile_dangling (surroundings dangling [("A", "A")] start "A") rfl
  have emitted : emitSchema TypedDict.dialect dangling [("A", "A")] start "A" =
      .answer (start.after "A" "A" (extended "Missing" "a") compiled) := by
    unfold emitSchema
    rw [read, ofValue_extending, Traced.ofExcept_ok, Traced.answer_andThen]
    exact congrArg (Traced.andThen · _) compiles
  refine ⟨⟨"A", compiled.type, none, false⟩, ?_, bases⟩
  unfold definitions
  rw [assigns_dangling, Traced.answer_andThen, order]
  change (emitSchemas TypedDict.dialect dangling [("A", "A")] start ["A"]).andThen _ = _
  rw [emitSchemas, emitted, Traced.answer_andThen, emitSchemas, Traced.answer_andThen]
  rw [Progress.after, alone]
  rfl

/-! ## Only records are inherited -/

/-- **Only records are inherited from the map.** Every definition is an alias without bases, or a
class that builds on records of the map and on names that are not in the map.  Every other schema
that a class points to is reported with a warning and left out. -/
theorem classes_build_on_records (schemas : Mapping) (names : List (String × String))
    (built : List Definition)
    (assigns : (assignNames TypedDict.dialect ∅ (schemas.map (·.1))).Yields names)
    (emits : (definitions TypedDict.dialect schemas).Yields built) :
    ∀ definition ∈ built, (definition.type.kind = .typeAlias ∧ definition.type.bases = []) ∨
      ∃ schema sources, BuildsOn schemas names (definitions TypedDict.dialect schemas).notices
        definition schema sources := by
  obtain ⟨others, final, alsoAssigns, run, rfl⟩ :=
    emits_of_definitions TypedDict.tellsNumbersApart emits
  obtain rfl := assigns.unique alsoAssigns
  have everyRecord := fun name record (named : Named schemas name record) isRecord =>
    run.exists_classOf_of_named assigns named isRecord
  intro definition listed
  obtain ⟨earlier, name, emitted, schema, compiled, turn, origin⟩ :=
    run.exists_source definition listed
  rcases origin with brought | rfl
  · obtain ⟨synthesized, part, within, isRecord, classOf⟩ :=
      turn.exists_classOf_of_brought assigns brought
    exact .inr ⟨part, classOf.exists_buildsOn assigns everyRecord within
      (fun own => by cases synthesized.symm.trans own) isRecord⟩
  · cases isRecord : schema.isRecord with
    | false => exact .inl ((Dialect.compile_yields turn.compiles).2.2 isRecord rfl)
    | true =>
        exact .inr ⟨schema, (turn.classOf assigns isRecord).exists_buildsOn assigns everyRecord
          ⟨name, schema, turn.named, .self schema⟩ (fun _ => ⟨name, turn.named, turn.assigned⟩)
          isRecord⟩

/-- The paint does not inherit from the color, and a warning says so. -/
theorem classes_build_on_records_painted :
    ∃ names built definition sources,
      (assignNames TypedDict.dialect ∅ (painted.map (·.1))).Yields names ∧
      (definitions TypedDict.dialect painted).Yields built ∧ definition ∈ built ∧
      definition.name = "Paint" ∧
      BuildsOn painted names (definitions TypedDict.dialect painted).notices definition
        (extended "Color" "gloss") sources ∧
      "Color" ∉ sources ∧
      .baseNotRecord "Color" ∈ (definitions TypedDict.dialect painted).notices := by
  obtain ⟨built, definition, emits, listed, isPaint, own, isClass⟩ := yields_painted
  have pointed : Reference.schemaName? (Reference.schemaRoot ++ "Color") = some "Color" := by cbv
  rcases classes_build_on_records painted _ built assigns_painted emits definition listed with
    ⟨isAlias, _⟩ | ⟨schema, sources, buildsOn⟩
  · cases isAlias.symm.trans isClass
  · obtain ⟨name, named, assigned⟩ := buildsOn.own own
    have isName : name = "Paint" := by
      rw [isPaint] at assigned
      exact eq_of_lookup_assigned TypedDict.tellsNumbersApart assigns_painted assigned rfl
    obtain rfl := named.unique (isName ▸ named_painted.2)
    obtain ⟨absent, warned⟩ := buildsOn.reported {} _ "Color"
      (.branch List.mem_cons_self (.self _)) pointed recordless_painted
    exact ⟨_, built, definition, sources, assigns_painted, emits, listed, isPaint, buildsOn, absent,
      warned.given⟩

/-- A class may inherit from a schema that is not in the map, and no warning says so. -/
theorem inherits_missing_dangling :
    ∃ names definition, (assignNames TypedDict.dialect ∅ (dangling.map (·.1))).Yields names ∧
      definitions TypedDict.dialect dangling = .answer [definition] ∧
      definition.type.bases = ["Missing"] ∧
      ¬ ∃ source record, Named dangling source record ∧ record.isRecord ∧
        names.lookup source = some "Missing" := by
  obtain ⟨definition, emits, bases⟩ := definitions_dangling
  have assigns : (assignNames TypedDict.dialect ∅ (dangling.map (·.1))).Yields [("A", "A")] :=
    congrArg Traced.outcome assigns_dangling
  refine ⟨_, definition, assigns, emits, bases, ?_⟩
  rintro ⟨source, record, named, _, found⟩
  have pair := Mapping.mem_of_lookup found
  simp at pair

end Emission

end OpenApi
