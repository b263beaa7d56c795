import OpenApi.Proofs.Compile.Synthesis
import OpenApi.Proofs.Document.Order
import OpenApi.Proofs.Emission.Naming

/-!
# Runs of the emission

Schemas are emitted one after the other, each compiled in the surroundings that the schemas before
it have left (`Emits`).  Every schema that was emitted has a definition under its name (`Defines`),
and all definitions have different names.
-/

namespace OpenApi.Emission

/-- The surroundings in which the next schema is compiled. -/
def surroundings (schemas : Mapping) (names : List (String × String)) (progress : Progress)
    (emitted : String) : Scope :=
  .around emitted schemas progress.reserved.toList (some progress.emitted) names

/-- The progress after one more schema was compiled. -/
def Progress.after (progress : Progress) (name emitted : String) (schema : Schema)
    (compiled : Compiled) : Progress where
  reserved := progress.reserved.insertAll compiled.auxiliaryNames
  emitted := progress.emitted.insert name
  definitions := progress.definitions ++ compiled.auxiliary ++
    [⟨emitted, compiled.type, schema.description, false⟩]

/-- How emission comes so far. -/
inductive Emits (dialect : Dialect) (schemas : Mapping) (names : List (String × String)) :
    List String → Progress → Prop
  | start : Emits dialect schemas names []
      { reserved := (NameSet.ofList schemas.names).insertAll (names.map (·.2)) }
  | next {done : List String} {progress : Progress} {name emitted : String} {schema : Schema}
      {compiled : Compiled} (before : Emits dialect schemas names done progress)
      (named : Named schemas name schema) (assigned : names.lookup name = some emitted)
      (compiles : (dialect.compile emitted schema
        (surroundings schemas names progress emitted)).Yields compiled) :
      Emits dialect schemas names (done ++ [name]) (progress.after name emitted schema compiled)

variable {dialect : Dialect} {schemas : Mapping} {names : List (String × String)}
  {done : List String} {progress : Progress}

/-- A turn succeeds as soon as its schema compiles under the names in scope there. -/
theorem yields_emitSchema {name emitted : String} {schema : Schema} {compiled : Compiled}
    (named : Named schemas name schema) (assigned : names.lookup name = some emitted)
    (compiles : (dialect.compile emitted schema
      (surroundings schemas names progress emitted)).Yields compiled) :
    (emitSchema dialect schemas names progress name).Yields
      (progress.after name emitted schema compiled) := by
  obtain ⟨raw, held, read⟩ := named
  unfold emitSchema
  rw [assigned, held]
  exact Traced.yields_andThen.mpr
    ⟨schema, read, Traced.yields_andThen.mpr ⟨compiled, compiles, rfl⟩⟩

/-- Emitting further schemas goes on from where emission has come. -/
theorem emits_of_emitSchemas {rest : List String} {final : Progress}
    (held : ∀ name ∈ rest, schemas.has name)
    (assigned : ∀ name ∈ rest, ∃ emitted, names.lookup name = some emitted)
    (before : Emits dialect schemas names done progress)
    (run : (emitSchemas dialect schemas names progress rest).Yields final) :
    Emits dialect schemas names (done ++ rest) final := by
  induction rest generalizing done progress with
  | nil =>
      rw [emitSchemas, Traced.yields_answer] at run
      rw [List.append_nil]
      exact run ▸ before
  | cons name rest ih =>
      rw [emitSchemas] at run
      obtain ⟨between, step, remaining⟩ := Traced.yields_andThen.mp run
      obtain ⟨emitted, found⟩ := assigned name List.mem_cons_self
      obtain ⟨raw, stands⟩ := Mapping.has_iff_exists_find?.mp (held name List.mem_cons_self)
      unfold emitSchema at step
      rw [found, stands, Option.getD_some, Option.getD_some] at step
      obtain ⟨schema, read, step⟩ := Traced.yields_andThen.mp step
      obtain ⟨compiled, compiles, rfl⟩ := Traced.yields_andThen_answer.mp step
      have stepped := Emits.next before ⟨raw, stands, read⟩ found compiles
      have regrouped := ih (fun other member => held other (List.mem_cons_of_mem _ member))
        (fun other member => assigned other (List.mem_cons_of_mem _ member)) stepped remaining
      rwa [List.append_assoc, List.singleton_append] at regrouped

theorem mem_textNames_iff {keys : List Scalar} {name : String} :
    name ∈ textNames keys ↔ .text name ∈ keys := by
  unfold textNames
  rw [List.mem_filterMap]
  constructor
  · rintro ⟨key, member, same⟩
    split at same
    · cases same
      exact member
    · cases same
  · intro member
    exact ⟨.text name, member, rfl⟩

theorem nodup_textNames {keys : List Scalar} (nodup : keys.Nodup) : (textNames keys).Nodup := by
  refine List.Nodup.filterMap ?_ nodup
  intro first second name one two
  split at one <;> split at two <;> simp_all

/-- The definitions of a map come out of a run over its schemas in their order. -/
theorem emits_of_definitions (numbers : dialect.TellsNumbersApart) {built : List Definition}
    (run : (definitions dialect schemas).Yields built) :
    ∃ names final, (assignNames dialect ∅ (schemas.map (·.1))).Yields names ∧
      Emits dialect schemas names (textNames (Document.order schemas)) final ∧
      final.definitions = built := by
  unfold definitions at run
  obtain ⟨names, assigns, run⟩ := Traced.yields_andThen.mp run
  obtain ⟨final, emits, same⟩ := Traced.yields_andThen.mp run
  rw [Traced.yields_answer] at same
  have isKey {name : String} (member : name ∈ textNames (Document.order schemas)) :
      .text name ∈ schemas.map Prod.fst :=
    Document.mem_order_iff.mp (mem_textNames_iff.mp member)
  refine ⟨names, final, assigns, ?_, same⟩
  refine emits_of_emitSchemas (fun name member => ?_) (fun name member => ?_) .start emits
  · exact Mapping.has_iff_mem_names.mpr (Mapping.mem_names_iff.mpr (isKey member))
  · exact exists_lookup_assigned numbers assigns (isKey member)

/-- Further schemas are emitted from where the schemas before them have come. -/
theorem emitSchemas_append {first second : List String} :
    emitSchemas dialect schemas names progress (first ++ second) =
      (emitSchemas dialect schemas names progress first).andThen fun between =>
        emitSchemas dialect schemas names between second := by
  induction first generalizing progress with
  | nil => rw [List.nil_append, emitSchemas, Traced.answer_andThen]
  | cons name rest ih =>
      rw [List.cons_append, emitSchemas, emitSchemas, Traced.andThen_assoc]
      simp only [ih]

/-- The run over a list is the run up to its last name, and then the turn of that name. -/
theorem yields_emitSchemas_concat {rest : List String} {name : String} {final : Progress} :
    (emitSchemas dialect schemas names progress (rest ++ [name])).Yields final ↔
      ∃ between, (emitSchemas dialect schemas names progress rest).Yields between ∧
        (emitSchema dialect schemas names between name).Yields final := by
  rw [emitSchemas_append, Traced.yields_andThen]
  simp [emitSchemas]

/-- What the turns come to, one after the other, the loop over their names comes to. -/
theorem Emits.yields_emitSchemas (emits : Emits dialect schemas names done progress) :
    (emitSchemas dialect schemas names
      { reserved := (NameSet.ofList schemas.names).insertAll (names.map (·.2)) } done).Yields
        progress := by
  induction emits with
  | start => rfl
  | next before named assigned compiles ih =>
      exact yields_emitSchemas_concat.mpr ⟨_, ih, yields_emitSchema named assigned compiles⟩

/-- Every run over the schemas of a map in their order gives its definitions. -/
theorem Emits.yields_definitions
    (emits : Emits dialect schemas names (textNames (Document.order schemas)) progress)
    (assigns : (assignNames dialect ∅ (schemas.map (·.1))).Yields names) :
    (definitions dialect schemas).Yields progress.definitions :=
  Traced.yields_andThen.mpr
    ⟨names, assigns, Traced.yields_andThen.mpr ⟨progress, emits.yields_emitSchemas, rfl⟩⟩

/-- The schemas that count as emitted are those of the run. -/
theorem Emits.mem_emitted_iff (emits : Emits dialect schemas names done progress) {name : String} :
    name ∈ progress.emitted ↔ name ∈ done := by
  induction emits with
  | start => simp
  | next before named assigned compiles ih =>
      rw [Progress.after, NameSet.mem_insert, ih, List.mem_append, List.mem_singleton]

/-- Every schema of a run has its turn: it is compiled when the schemas before it are emitted, and
its definition stays. -/
theorem Emits.exists_turn (emits : Emits dialect schemas names done progress) {name : String}
    {schema : Schema} (member : name ∈ done) (named : Named schemas name schema) :
    ∃ before after earlier emitted compiled, done = before ++ name :: after ∧
      Emits dialect schemas names before earlier ∧ names.lookup name = some emitted ∧
      (dialect.compile emitted schema
        (surroundings schemas names earlier emitted)).Yields compiled ∧
      ⟨emitted, compiled.type, schema.description, false⟩ ∈ progress.definitions := by
  induction emits with
  | start => exact absurd member List.not_mem_nil
  | @next done progress last lastEmitted other compiled before alsoNamed assigned compiles ih =>
      rcases List.mem_append.mp member with early | isLast
      · obtain ⟨first, after, earlier, emitted, own, same, run, assigned, compiles, listed⟩ :=
          ih early
        refine ⟨first, after ++ [last], earlier, emitted, own, ?_, run, assigned, compiles,
          List.mem_append_left _ (List.mem_append_left _ listed)⟩
        rw [same, List.append_assoc, List.cons_append]
      · obtain rfl := List.mem_singleton.mp isLast
        obtain rfl := named.unique alsoNamed
        exact ⟨done, [], progress, lastEmitted, compiled, rfl, before, assigned, compiles,
          List.mem_append_right _ List.mem_cons_self⟩

/-! ## A single schema -/

theorem order_single (name : String) (raw : Value) :
    Document.order [(.text name, raw)] = [.text name] := by
  refine List.perm_singleton.mp ((List.perm_ext_iff_of_nodup (Document.nodup_order _)
    (List.nodup_singleton _)).mpr fun key => ?_)
  rw [Document.mem_order_iff]
  rfl

/-- A schema that stands alone is emitted under its own name. -/
theorem yields_single {name : String} {raw : Value} {schema : Schema} {compiled : Compiled}
    (read : Schema.ofValue raw = .ok schema)
    (compiles : (dialect.compile name schema (surroundings [(.text name, raw)] [(name, name)]
      { reserved := (NameSet.ofList [name]).insertAll [name] } name)).Yields compiled) :
    (definitions dialect [(.text name, raw)]).Yields
      (compiled.auxiliary ++ [⟨name, compiled.type, schema.description, false⟩]) := by
  have assigns : (assignNames dialect ∅ [.text name]).Yields [(name, name)] := by
    simp [assignNames, emittedName, clashes]
  have named : Named [(.text name, raw)] name schema := ⟨raw, by simp, read⟩
  have found : [(name, name)].lookup name = some name := List.lookup_cons_self
  have run := Emits.start.next named found compiles
  have texts : textNames (Document.order [(.text name, raw)]) = [] ++ [name] := by
    rw [order_single]
    rfl
  rw [← texts] at run
  exact run.yields_definitions assigns

/-! ## Definitions of schemas -/

/-- A definition is that of a schema: it has the name assigned to the schema, and it is a record if
the schema is. -/
structure Defines (dialect : Dialect) (schemas : Mapping) (names : List (String × String))
    (name : String) (schema : Schema) (definition : Definition) : Prop where
  assigned : names.lookup name = some definition.name
  record : schema.isRecord → ∃ scope flat, scope.schemas = schemas ∧ scope.names = names ∧
    dialect.Records scope schema flat definition.type
  plain : schema.isRecord = false → dialect.namesNested → definition.type.kind = .typeAlias

/-- Every schema of a run has its definition. -/
theorem Emits.exists_defines (emits : Emits dialect schemas names done progress) {name : String}
    {schema : Schema} (member : name ∈ done) (named : Named schemas name schema) :
    ∃ definition ∈ progress.definitions, Defines dialect schemas names name schema definition := by
  obtain ⟨_, _, _, _, compiled, _, _, assigned, compiles, listed⟩ := emits.exists_turn member named
  obtain ⟨_, record, plain⟩ := Dialect.compile_yields compiles
  refine ⟨_, listed, assigned, ?_, ?_⟩
  · intro isRecord
    obtain ⟨flat, records⟩ := record isRecord
    exact ⟨_, flat, rfl, rfl, records⟩
  · intro other namesNested
    exact (plain other namesNested).1

/-! ## Names of definitions -/

/-- While a schema is compiled, the taken names are those of all schemas, all that were assigned,
all that were emitted before, and its own. -/
theorem mem_surroundings_taken {emitted name : String} :
    name ∈ (surroundings schemas names progress emitted).taken ↔
      ((name ∈ schemas.names ∨ name ∈ names.map Prod.snd) ∨ name ∈ progress.reserved) ∨
        name = emitted := by
  simp [surroundings, Scope.around]

/-- The definitions of a run have different names, all of them reserved, and those that were
assigned to schemas were assigned to schemas of the run. -/
structure Progress.Distinct (names : List (String × String)) (done : List String)
    (progress : Progress) : Prop where
  nodup : (namesOf progress.definitions).Nodup
  assigned : ∀ name ∈ names.map Prod.snd, name ∈ progress.reserved
  reserved : ∀ name ∈ namesOf progress.definitions, name ∈ progress.reserved
  origin : ∀ name ∈ namesOf progress.definitions, name ∈ names.map Prod.snd →
    ∃ source ∈ done, names.lookup source = some name

theorem namesOf_after {name emitted : String} {schema : Schema} {compiled : Compiled} :
    namesOf (progress.after name emitted schema compiled).definitions =
      namesOf progress.definitions ++ namesOf compiled.auxiliary ++ [emitted] := by
  simp [Progress.after, namesOf]

/-- A turn adds the names of what came along with the schema, and its own name. -/
theorem mem_namesOf_after {name emitted other : String} {schema : Schema} {compiled : Compiled} :
    other ∈ namesOf (progress.after name emitted schema compiled).definitions ↔
      (other ∈ namesOf progress.definitions ∨ other ∈ namesOf compiled.auxiliary) ∨
        other = emitted := by
  rw [namesOf_after, List.mem_append, List.mem_append, List.mem_singleton]

/-- One more schema keeps the names different: what is brought along avoids all names taken, and
the name of the schema itself was assigned to no schema before. -/
theorem Progress.Distinct.after {name emitted : String} {schema : Schema} {compiled : Compiled}
    (distinct : progress.Distinct names done)
    (assigned : names.lookup name = some emitted)
    (unclaimed : ∀ source ∈ done, names.lookup source ≠ some emitted)
    (nodup : (namesOf compiled.auxiliary).Nodup)
    (free : ∀ other ∈ namesOf compiled.auxiliary,
      other ∉ (surroundings schemas names progress emitted).taken) :
    (progress.after name emitted schema compiled).Distinct names (done ++ [name]) := by
  simp only [mem_surroundings_taken, not_or] at free
  have isAssigned : emitted ∈ names.map Prod.snd :=
    List.mem_map_of_mem (Mapping.mem_of_lookup assigned)
  have notDefined : emitted ∉ namesOf progress.definitions := by
    intro defined
    obtain ⟨source, isDone, found⟩ := distinct.origin emitted defined isAssigned
    exact unclaimed source isDone found
  refine ⟨?_, ?_, ?_, ?_⟩
  · rw [namesOf_after, List.nodup_append, List.nodup_append]
    refine ⟨⟨distinct.nodup, nodup, ?_⟩, List.nodup_singleton _, ?_⟩
    · rintro early earlier late brought rfl
      exact (free early brought).1.2 (distinct.reserved early earlier)
    · rintro early earlier late last rfl
      obtain rfl := List.mem_singleton.mp last
      rcases List.mem_append.mp earlier with defined | brought
      · exact notDefined defined
      · exact (free early brought).2 rfl
  · intro other member
    exact NameSet.mem_insertAll.mpr (.inl (distinct.assigned other member))
  · intro other member
    rcases mem_namesOf_after.mp member with (defined | brought) | rfl
    · exact NameSet.mem_insertAll.mpr (.inl (distinct.reserved other defined))
    · exact NameSet.mem_insertAll.mpr (.inr brought)
    · exact NameSet.mem_insertAll.mpr (.inl (distinct.assigned other isAssigned))
  · intro other member among
    rcases mem_namesOf_after.mp member with (defined | brought) | rfl
    · obtain ⟨source, isDone, found⟩ := distinct.origin other defined among
      exact ⟨source, List.mem_append_left _ isDone, found⟩
    · exact absurd among (free other brought).1.1.2
    · exact ⟨name, List.mem_append_right _ List.mem_cons_self, assigned⟩

/-- No two definitions of a run have one name, provided that the assignment of names is injective.
-/
theorem Emits.distinct (emits : Emits dialect schemas names done progress) (nodup : done.Nodup)
    (injective : ∀ first second emitted, names.lookup first = some emitted →
      names.lookup second = some emitted → first = second) :
    progress.Distinct names done := by
  induction emits with
  | start =>
      refine ⟨.nil, fun name member => ?_, by simp [namesOf], by simp [namesOf]⟩
      exact NameSet.mem_insertAll.mpr (.inr member)
  | @next done progress name emitted schema compiled before named assigned compiles ih =>
      obtain ⟨nodupDone, _, fresh⟩ := List.nodup_append.mp nodup
      obtain ⟨auxiliaryNodup, free⟩ := (Dialect.compile_yields compiles).1.fresh
      refine (ih nodupDone).after assigned (fun source isDone found => ?_) auxiliaryNodup free
      obtain rfl := injective source name emitted found assigned
      exact fresh source isDone source List.mem_cons_self rfl

/-- A definition under the name of a schema is the definition of the schema. -/
theorem Emits.defines_of_listed (emits : Emits dialect schemas names done progress)
    (distinct : progress.Distinct names done) {name : String} {schema : Schema}
    {definition : Definition} (member : name ∈ done) (named : Named schemas name schema)
    (listed : definition ∈ progress.definitions)
    (assigned : names.lookup name = some definition.name) :
    Defines dialect schemas names name schema definition := by
  obtain ⟨other, alsoListed, defines⟩ := emits.exists_defines member named
  have sameName := Option.some.inj (defines.assigned.symm.trans assigned)
  obtain rfl := List.inj_on_of_nodup_map distinct.nodup alsoListed listed sameName
  exact defines

end OpenApi.Emission
