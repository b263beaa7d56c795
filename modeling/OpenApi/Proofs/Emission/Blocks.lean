import Mathlib.Data.List.Forall2
import OpenApi.Proofs.Emission.Inheritance

/-!
# Blocks of definitions

The definitions of a map come in blocks, one for each schema in the order of emission: what the
schema brings along, and then its own definition.  All names differ, and what is brought along
takes neither the name of a schema nor a name under which a schema is emitted.
-/

namespace OpenApi

namespace Emission

variable {dialect : Dialect} {schemas : Mapping} {names : List (String × String)}
  {done : List String} {progress : Progress}

/-- What a schema adds to the definitions, once the schemas before it are emitted: the definitions
that compiling it brings along, all of them synthesized, and its own under its emitted name. -/
def Contributes (dialect : Dialect) (schemas : Mapping) (names : List (String × String))
    (name : String) (block : List Definition) : Prop :=
  ∃ before progress emitted schema compiled, Emits dialect schemas names before progress ∧
    Named schemas name schema ∧ names.lookup name = some emitted ∧
    (dialect.compile emitted schema
      (surroundings schemas names progress emitted)).Yields compiled ∧
    (∀ definition ∈ compiled.auxiliary, definition.synthesized) ∧
    block = compiled.auxiliary ++ [⟨emitted, compiled.type, schema.description, false⟩]

/-- What a schema brings along takes neither the name of a schema nor an emitted name. -/
theorem Contributes.free {name : String} {block : List Definition}
    (contributes : Contributes dialect schemas names name block) :
    ∀ definition ∈ block, definition.synthesized →
      definition.name ∉ schemas.names ∧ definition.name ∉ names.map Prod.snd := by
  obtain ⟨_, _, _, _, compiled, _, _, _, compiles, _, rfl⟩ := contributes
  intro definition member synthesized
  rcases List.mem_append.mp member with brought | own
  · have free := (Dialect.compile_yields compiles).1.fresh.2 definition.name
      (List.mem_map_of_mem brought)
    simp only [mem_surroundings_taken, not_or] at free
    exact free.1.1
  · rw [List.mem_singleton.mp own] at synthesized
    cases synthesized

/-- A run adds one block after the other. -/
theorem Emits.exists_blocks (emits : Emits dialect schemas names done progress) :
    ∃ blocks, List.Forall₂ (Contributes dialect schemas names) done blocks ∧
      progress.definitions = blocks.flatten := by
  induction emits with
  | start => exact ⟨[], .nil, rfl⟩
  | @next done progress name emitted schema compiled before named assigned compiles ih =>
      obtain ⟨blocks, contributed, same⟩ := ih
      have brings := (Dialect.compile_yields compiles).1
      have contributes : Contributes dialect schemas names name
          (compiled.auxiliary ++ [⟨emitted, compiled.type, schema.description, false⟩]) :=
        ⟨done, progress, emitted, schema, compiled, before, named, assigned, compiles,
          brings.synthesized, rfl⟩
      refine ⟨blocks ++ [_], List.rel_append contributed (.cons contributes .nil), ?_⟩
      rw [Progress.after, same, List.flatten_append, List.flatten_singleton, List.append_assoc]

/-- Every definition of a run is in the block of a schema. -/
theorem Emits.exists_contributes (emits : Emits dialect schemas names done progress) :
    ∀ definition ∈ progress.definitions, ∃ name ∈ done, ∃ block,
      Contributes dialect schemas names name block ∧ definition ∈ block := by
  obtain ⟨blocks, contributed, same⟩ := emits.exists_blocks
  intro definition listed
  rw [same] at listed
  obtain ⟨block, member, within⟩ := List.mem_flatten.mp listed
  obtain ⟨place, bound, rfl⟩ := List.getElem_of_mem member
  have boundDone : place < done.length := contributed.length_eq ▸ bound
  exact ⟨done[place], List.getElem_mem boundDone, _,
    (List.forall₂_iff_get.mp contributed).2 place boundDone bound, within⟩

theorem map_text_textNames {keys : List Scalar} (texts : ∀ key ∈ keys, ∃ name, key = .text name) :
    (textNames keys).map Scalar.text = keys := by
  induction keys with
  | nil => rfl
  | cons key rest ih =>
      obtain ⟨name, rfl⟩ := texts key List.mem_cons_self
      exact congrArg (Scalar.text name :: ·)
        (ih fun other member => texts other (List.mem_cons_of_mem _ member))

/-- Schemas that all have a name to be emitted under have texts for names. -/
theorem map_text_textNames_order {used : NameSet}
    (numbers : dialect.TellsNumbersApart)
    (assigns : (assignNames dialect used (schemas.map (·.1))).Yields names) :
    (textNames (Document.order schemas)).map Scalar.text = Document.order schemas := by
  obtain ⟨keys, _⟩ := assignNames_apart numbers assigns
  refine map_text_textNames fun key member => ?_
  obtain ⟨pair, _, same⟩ := List.mem_map.mp (keys ▸ Document.mem_order_iff.mp member)
  exact ⟨pair.1, same.symm⟩

/-- **Blocks of definitions.** The definitions of a map are put together from one block for each
schema, dependencies first: the definitions that the schema brings along, and then the one under
its emitted name.  No two definitions have the same name, and what is brought along has neither the
name of any schema nor any emitted name.  A definition holds a type and nothing that is brought
along, so all that is brought along stands in the list. -/
theorem definitions_in_blocks (target : Target) (schemas : Mapping) (built : List Definition)
    (emits : (definitions target.dialect schemas).Yields built) :
    ∃ names order blocks,
      (assignNames target.dialect ∅ (schemas.map (·.1))).Yields names ∧
      Document.order schemas = order.map .text ∧
      List.Forall₂ (Contributes target.dialect schemas names) order blocks ∧
      built = blocks.flatten ∧ (built.map (·.name)).Nodup ∧
      ∀ definition ∈ built, definition.synthesized →
        definition.name ∉ schemas.names ∧ definition.name ∉ names.map Prod.snd := by
  have numbers := target.tellsNumbersApart
  obtain ⟨names, final, assigns, run, rfl⟩ := emits_of_definitions numbers emits
  obtain ⟨blocks, contributed, same⟩ := run.exists_blocks
  have distinct := run.distinct (nodup_textNames (Document.nodup_order schemas))
    fun first second emitted => eq_of_lookup_assigned numbers assigns
  refine ⟨names, _, blocks, assigns, (map_text_textNames_order numbers assigns).symm, contributed,
    same, distinct.nodup, ?_⟩
  intro definition listed
  obtain ⟨_, _, _, contributes, within⟩ := run.exists_contributes definition listed
  exact contributes.free definition within

/-! ## A nested record next to another schema -/

/-- The name of a definition, with a mark if it is synthesized. -/
def marked (definition : Definition) : String × Bool := (definition.name, definition.synthesized)

/-- A schema with a nested record under `baz`, and another schema. -/
def nestingBeside (first second : String) : Mapping :=
  [(.text first, .map [(.text "properties", .map
      [(.text "baz", .map [(.text "properties", .map [])])])]),
    (.text second, .map [])]

/-- What the first of them is read as. -/
def nesting : Schema :=
  .object {} (some [(.text "baz", .object {} (some []) [] .unstated)]) [] .unstated

theorem named_nestingBeside {first second : String} (differ : first ≠ second) :
    Named (nestingBeside first second) first nesting ∧
      Named (nestingBeside first second) second (.unknown {}) := by
  have empty : Schema.ofValue (.map [(.text "properties", .map [])]) =
      .ok (.object {} (some []) [] .unstated) :=
    Schema.ofValue_of_properties (by simp [Schema.ofEntries])
  have property : Schema.ofEntries [(.text "baz", .map [(.text "properties", .map [])])] =
      .ok [(.text "baz", .object {} (some []) [] .unstated)] := by
    simp [Schema.ofEntries, empty, bind, Except.bind, pure, Except.pure]
  exact ⟨⟨_, by simp [nestingBeside], Schema.ofValue_of_properties property⟩,
    ⟨_, by simp [nestingBeside, differ.symm], Schema.ofValue_nil⟩⟩

/-- The nested record becomes a definition of its own. -/
theorem compile_nesting {name : String} {scope : Scope} (free : name ++ "Baz" ∉ scope.taken) :
    ∃ compiled, (TypedDict.dialect.compile name nesting scope).Yields compiled ∧
      compiled.auxiliary.map marked = [(name ++ "Baz", true)] := by
  let depth := nesting.size + Dialect.schemaBound scope
  let properties : List (String × Schema) := [("baz", .object {} (some []) [] .unstated)]
  have word : Identifier.pascalCase "baz" = "Baz" := by decide
  have noParts : (TypedDict.dialect.compileParts (TypedDict.dialect.compileWithin depth) []
      (scope.taking [name ++ "Baz"])).Yields [] := rfl
  obtain ⟨inner, compilesInner, alone⟩ :=
    Dialect.exists_compileRecord_of_object (name ++ "Baz") {} [] noParts
  obtain ⟨nested, compilesNested, brought⟩ :=
    Dialect.exists_compileNested_of_free rfl free compilesInner
  have parts : (TypedDict.dialect.compileParts (TypedDict.dialect.compileWithin (depth + 1))
      (properties.map fun property => (property.2, name ++ Identifier.pascalCase property.1))
        scope).Yields [nested] := by
    simp only [properties, List.map_cons, List.map_nil, word]
    have below := Traced.yields_andThen.mpr ⟨nested, compilesNested, Traced.yields_answer.mpr rfl⟩
    exact Traced.yields_andThen.mpr ⟨nested, Traced.yields_andThen.mpr ⟨nested, below, rfl⟩,
      Traced.yields_andThen.mpr ⟨[], rfl, rfl⟩⟩
  obtain ⟨outer, compilesOuter, auxiliary⟩ :=
    Dialect.exists_compileRecord_of_object name {} properties parts
  refine ⟨outer, compilesOuter, ?_⟩
  rw [auxiliary rfl]
  simp [brought, alone, marked]

/-- The definitions of the map, where both schemas keep their names. -/
theorem yields_nestingBeside {first second : String} (differ : first ≠ second)
    (order : Document.order (nestingBeside first second) = [.text first, .text second])
    (assigns : (assignNames TypedDict.dialect ∅ ((nestingBeside first second).map (·.1))).Yields
      [(first, first), (second, second)])
    (free : first ++ "Baz" ≠ first ∧ first ++ "Baz" ≠ second) :
    ∃ built, (definitions TypedDict.dialect (nestingBeside first second)).Yields built ∧
      built.map marked = [(first ++ "Baz", true), (first, false), (second, false)] := by
  let schemas := nestingBeside first second
  let names := [(first, first), (second, second)]
  let progress : Progress :=
    { reserved := (NameSet.ofList schemas.names).insertAll (names.map (·.2)) }
  obtain ⟨namedFirst, namedSecond⟩ := named_nestingBeside differ
  have notTaken : first ++ "Baz" ∉ (surroundings schemas names progress first).taken := by
    simp [mem_surroundings_taken, names, progress, schemas, nestingBeside, Mapping.names, free]
  obtain ⟨own, compilesFirst, brought⟩ := compile_nesting notTaken
  let between := progress.after first first nesting own
  have compilesSecond : (TypedDict.dialect.compile second (.unknown {})
      (surroundings schemas names between second)).Yields TypedDict.dialect.anything := rfl
  have foundSecond : names.lookup second = some second :=
    (Mapping.lookup_cons_of_ne differ.symm).trans List.lookup_cons_self
  have before : Emits TypedDict.dialect schemas names [] progress := .start
  have run := (before.next namedFirst List.lookup_cons_self compilesFirst).next namedSecond
    foundSecond compilesSecond
  have texts : textNames (Document.order schemas) = [] ++ [first] ++ [second] := by
    rw [order]
    rfl
  rw [← texts] at run
  refine ⟨_, run.yields_definitions assigns, ?_⟩
  simp [progress, Progress.after, brought, marked, Dialect.anything, Compiled.auxiliary_combine]

/-- A nested record next to a schema whose class is spelled like the one of the nested record. -/
def clashing : Mapping := nestingBeside "foo-bar" "foo_barBaz"

theorem yields_clashing : ∃ built, (definitions TypedDict.dialect clashing).Yields built ∧
    built.map marked = [("foo-barBaz", true), ("foo-bar", false), ("foo_barBaz", false)] := by
  have first : TypedDict.dialect.identifiers "foo-bar" = ["foo_bar", "_foo_barFields"] := by decide
  have second : TypedDict.dialect.identifiers "foo_barBaz" =
      ["foo_barBaz", "_foo_barBazFields"] := by decide
  exact yields_nestingBeside (by decide) (by cbv)
    (by simp [assignNames, emittedName, clashes, nestingBeside, first, second]) (by decide)

/-- The nested record comes in the block of the schema around it. -/
theorem definitions_in_blocks_clashing :
    ∃ built, (definitions (Target.dialect .typedDict) clashing).Yields built ∧
      built.map marked = [("foo-barBaz", true), ("foo-bar", false), ("foo_barBaz", false)] ∧
      ∃ names order blocks,
        (assignNames TypedDict.dialect ∅ (clashing.map (·.1))).Yields names ∧
        Document.order clashing = order.map .text ∧
        List.Forall₂ (Contributes TypedDict.dialect clashing names) order blocks ∧
        built = blocks.flatten ∧ (built.map (·.name)).Nodup ∧
        ∀ definition ∈ built, definition.synthesized →
          definition.name ∉ clashing.names ∧ definition.name ∉ names.map Prod.snd := by
  obtain ⟨built, emits, shown⟩ := yields_clashing
  exact ⟨built, emits, shown, definitions_in_blocks .typedDict clashing built emits⟩

end Emission

end OpenApi
