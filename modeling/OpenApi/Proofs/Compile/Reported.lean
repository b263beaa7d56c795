import OpenApi.Proofs.Compile.Branches
import OpenApi.Proofs.Compile.Synthesis

/-!
# What is reported about records

Compiling a record reports what flattening it does, what its parts do, and, where records have
fields only, how many parts are left out (`RecordRun.notices`).  Every definition that is brought
along is the record of a part of the schema, and all that is reported about the record is reported
about the whole (`Stems`).
-/

namespace OpenApi.Dialect

variable {dialect : Dialect} {root : Schema} {scope : Scope}

/-! ## Records -/

/-- Putting a record together reports nothing but parts that its target cannot express. -/
theorem notices_assemble {name : String} {fields : List (Field × Compiled)} {bases : List String}
    {extras : List Compiled} {additional : Additional Compiled} :
    (dialect.assemble name fields bases extras additional).notices =
      if dialect.fieldsOnly && !extras.isEmpty then [.partsLeftOut extras.length name] else [] := by
  unfold assemble
  dsimp only
  split <;> rfl

/-- The parts of a record report one after the other. -/
theorem RecordRun.notices {compile : Compiling} {schema : Schema} {name : String}
    {record : Compiled} {flat : FlatRecord} {properties : List (String × Schema)}
    {compiled extras further : List Compiled}
    (steps : dialect.RecordRun compile schema name scope record flat properties compiled extras
      further) :
    (dialect.compileRecord compile schema name scope).notices =
      (flatten scope dialect.nominalBases [] schema).notices ++
        ((dialect.compileParts compile (properties.map fun property =>
            (property.2, name ++ Identifier.pascalCase property.1)) scope).notices ++
          ((dialect.compileParts compile (flat.extras.zipIdx.map fun extra =>
              (extra.1, s!"{name}Part{extra.2 + 1}"))
                (scope.taking (namesOf (Compiled.auxiliaryOf compiled)))).notices ++
            ((dialect.compileParts compile (furtherParts name flat.additional)
                ((scope.taking (namesOf (Compiled.auxiliaryOf compiled))).taking
                  (namesOf (Compiled.auxiliaryOf extras)))).notices ++
              if dialect.fieldsOnly && !flat.extras.isEmpty then
                [.partsLeftOut flat.extras.length name]
              else []))) := by
  have named : (Traced.ofExcept (namedProperties flat.properties)).Yields properties := steps.named
  have unreported : (Traced.ofExcept (namedProperties flat.properties)).notices = [] := rfl
  have length := length_of_compileParts steps.compilesExtras
  rw [List.length_map, List.length_zipIdx] at length
  have sameEmpty : flat.extras.isEmpty = extras.isEmpty := by
    rw [Bool.eq_iff_iff, List.isEmpty_iff_length_eq_zero, List.isEmpty_iff_length_eq_zero, length]
  rw [sameEmpty, ← length]
  unfold compileRecord
  rw [steps.flattened.notices_andThen, named.notices_andThen, unreported, List.nil_append,
    steps.compiles.notices_andThen, scopeAfter_eq, steps.compilesExtras.notices_andThen,
    scopeAfter_eq]
  have compilesFurther := steps.compilesFurther
  dsimp only
  split
  · next content stated =>
      rw [stated] at compilesFurther ⊢
      obtain ⟨values, compilesContent, _⟩ := Traced.yields_andThen.mp compilesFurther
      rw [compilesContent.notices_andThen, notices_assemble, furtherParts, compileParts,
        compilesContent.notices_andThen, compileParts, Traced.answer_andThen]
      have unreported : (Traced.answer [values]).notices = [] := rfl
      rw [unreported, List.append_nil]
  · next stated =>
      rw [stated, notices_assemble]
      rfl
  · next stated =>
      rw [stated, notices_assemble]
      rfl

/-! ## Definitions that are brought along -/

/-- A definition is the record of a part of a schema, compiled around the given scope, and what is
reported about the record is among the given notices. -/
inductive Stems (dialect : Dialect) (root : Schema) (scope : Scope) (told : List Notice) :
    Definition → Prop
  | record {depth : Nat} {schema : Schema} {name : String} {taken : List String}
      {record : Compiled} (part : schema.PartOf scope.schemas root) (isRecord : schema.isRecord)
      (compiles : (dialect.compileRecord (dialect.compileWithin depth) schema name
        (scope.taking taken)).Yields record)
      (reports : (dialect.compileRecord (dialect.compileWithin depth) schema name
        (scope.taking taken)).notices ⊆ told) :
      Stems dialect root scope told ⟨name, record.type, schema.description, true⟩

namespace Stems

variable {told : List Notice} {definition : Definition}

/-- More notices around a run take no definition away from it. -/
theorem mono (stems : dialect.Stems root scope told definition) {more : List Notice}
    (subset : told ⊆ more) : dialect.Stems root scope more definition := by
  cases stems with
  | record part isRecord compiles reports =>
      exact .record part isRecord compiles (List.Subset.trans reports subset)

/-- Names that are only taken play no part in where a definition stems from. -/
theorem of_taking {names : List String}
    (stems : dialect.Stems root (scope.taking names) told definition) :
    dialect.Stems root scope told definition := by
  cases stems with
  | record part isRecord compiles reports =>
      rw [Scope.schemas_taking] at part
      rw [← Scope.taking_append] at compiles reports
      exact .record part isRecord compiles reports

end Stems

/-- All definitions that come along with the answer of a run are accounted for in its notices. -/
def Accounts (dialect : Dialect) (root : Schema) (scope : Scope) (run : Traced Compiled) : Prop :=
  ∀ compiled, run.Yields compiled → ∀ definition ∈ compiled.auxiliary,
    dialect.Stems root scope run.notices definition

/-- So they are for every part of a schema. -/
def AccountsWithin (dialect : Dialect) (root : Schema) (depth : Nat) : Prop :=
  ∀ ⦃schema : Schema⦄ ⦃hint : String⦄ ⦃scope : Scope⦄, schema.PartOf scope.schemas root →
    dialect.Accounts root scope (dialect.compileWithin depth schema hint scope)

namespace AccountsWithin

variable {depth : Nat}

/-- One part accounts for its definitions: with its own notices, and whatever the names taken. -/
theorem compilePart (accounts : dialect.AccountsWithin root depth) {schema : Schema}
    {hint : String} (part : schema.PartOf scope.schemas root) :
    dialect.Accounts root scope
      (dialect.compilePart (dialect.compileWithin depth) schema hint scope) := by
  intro compiled run definition member
  obtain ⟨inner, compiles, rfl⟩ := Traced.yields_andThen_answer.mp run
  rw [auxiliary_describe] at member
  exact (accounts part inner compiles definition member).mono (Traced.notices_subset_andThen _ _)

/-- All parts account for their definitions, by induction on the parts. -/
theorem compileParts (accounts : dialect.AccountsWithin root depth)
    {parts : List (Schema × String)} {compiled : List Compiled}
    (each : ∀ part ∈ parts, part.1.PartOf scope.schemas root)
    (run : (dialect.compileParts (dialect.compileWithin depth) parts scope).Yields compiled) :
    ∀ definition ∈ Compiled.auxiliaryOf compiled, dialect.Stems root scope
      (dialect.compileParts (dialect.compileWithin depth) parts scope).notices definition := by
  induction parts generalizing scope compiled with
  | nil =>
      rw [Dialect.compileParts, Traced.yields_answer] at run
      exact run ▸ fun definition none => absurd none List.not_mem_nil
  | cons part rest ih =>
      obtain ⟨schema, hint⟩ := part
      rw [Dialect.compileParts] at run ⊢
      obtain ⟨first, compiles, run⟩ := Traced.yields_andThen.mp run
      obtain ⟨others, compilesRest, rfl⟩ := Traced.yields_andThen_answer.mp run
      intro definition member
      rw [Compiled.auxiliaryOf_cons] at member
      rcases List.mem_append.mp member with early | late
      · exact (accounts.compilePart (each _ List.mem_cons_self) first compiles definition
          early).mono (Traced.notices_subset_andThen _ _)
      · have eachLater : ∀ part ∈ rest,
            part.1.PartOf (scope.taking first.auxiliaryNames).schemas root := by
          intro part among
          rw [Scope.schemas_taking]
          exact each part (List.mem_cons_of_mem _ among)
        refine ((ih eachLater compilesRest definition late).mono ?_).of_taking
        intro notice reported
        exact compiles.notices_subset_andThen _ (Traced.notices_subset_andThen _ _ reported)

theorem compileRecord (accounts : dialect.AccountsWithin root depth) {schema : Schema}
    {name : String} (part : schema.PartOf scope.schemas root) :
    dialect.Accounts root scope
      (dialect.compileRecord (dialect.compileWithin depth) schema name scope) := by
  intro record run definition member
  obtain ⟨flat, properties, compiled, extras, further, steps⟩ := exists_recordRun run
  have parts := (flattens_of_yields steps.flattened).partsOf part.operands
  have ofFields := accounts.compileParts (partOf_of_property parts steps.named) steps.compiles
  have ofExtras := accounts.compileParts
    (by simpa only [Scope.schemas_taking] using partOf_of_numbered parts.extras)
    steps.compilesExtras
  have ofFurther := accounts.compileParts
    (by simpa only [Scope.schemas_taking] using partOf_of_further parts) steps.compilesFurther
  have origin : definition ∈ Compiled.auxiliaryOf compiled ∨
      definition ∈ Compiled.auxiliaryOf extras ∨ definition ∈ Compiled.auxiliaryOf further := by
    rw [steps.brought, Compiled.auxiliaryOf_append] at member
    split at member
    · exact .inl (by simpa using member)
    · simpa using member
  rw [steps.notices]
  rcases origin with ofField | ofExtra | ofContent
  · refine (ofFields definition ofField).mono fun notice reported => ?_
    exact List.mem_append_right _ (List.mem_append_left _ reported)
  · refine ((ofExtras definition ofExtra).mono fun notice reported => ?_).of_taking
    exact List.mem_append_right _ (List.mem_append_right _ (List.mem_append_left _ reported))
  · refine ((ofFurther definition ofContent).mono fun notice reported => ?_).of_taking.of_taking
    exact List.mem_append_right _ (List.mem_append_right _ (List.mem_append_right _
      (List.mem_append_left _ reported)))

theorem compileNested (accounts : dialect.AccountsWithin root depth) {schema : Schema}
    {hint : String} (part : schema.PartOf scope.schemas root) (isRecord : schema.isRecord) :
    dialect.Accounts root scope
      (dialect.compileNested (dialect.compileWithin depth) schema hint scope) := by
  unfold Dialect.compileNested
  split
  · intro compiled run definition member
    obtain ⟨_, renamed, run⟩ := Traced.yields_andThen.mp run
    obtain ⟨record, compiles, rfl⟩ := Traced.yields_andThen_answer.mp run
    suffices around : dialect.Stems root scope (dialect.compileRecord (dialect.compileWithin depth)
        schema (Identifier.unique hint scope.taken)
          (scope.taking [Identifier.unique hint scope.taken])).notices definition from
      around.mono fun notice reported => renamed.notices_subset_andThen _
        (Traced.notices_subset_andThen _ _ reported)
    rcases List.mem_append.mp member with inner | last
    · exact (accounts.compileRecord (by rwa [Scope.schemas_taking]) record compiles definition
        inner).of_taking
    · rw [List.mem_singleton.mp last]
      exact .record part isRecord compiles (List.Subset.refl _)
  · exact accounts.compileRecord part

theorem compileComposition (accounts : dialect.AccountsWithin root depth) {traits : Traits}
    {kind : Composition} {branches : List Schema} {hint : String}
    (part : (Schema.composition traits kind branches).PartOf scope.schemas root) :
    dialect.Accounts root scope (dialect.compileComposition (dialect.compileWithin depth)
      (.composition traits kind branches) kind branches hint scope) := by
  unfold Dialect.compileComposition
  split
  · exact fun compiled run definition member => by
      rw [Traced.yields_answer] at run
      exact absurd (run ▸ member) List.not_mem_nil
  · exact accounts.compilePart (part.operands _ List.mem_cons_self)
  · next several single =>
      split
      · next joined =>
          subst joined
          exact accounts.compileNested part (Schema.isRecord_of_several several single)
      · intro compiled run definition member
        obtain ⟨parts, compiles, rfl⟩ := Traced.yields_andThen_answer.mp run
        exact (accounts.compileParts (partOf_of_numbered part.operands) compiles definition
          member).mono (Traced.notices_subset_andThen _ _)

theorem compileCase (accounts : dialect.AccountsWithin root depth) {schema : Schema}
    {hint : String} (part : schema.PartOf scope.schemas root) :
    dialect.Accounts root scope
      (dialect.compileCase (dialect.compileWithin depth) schema hint scope) := by
  have alone {result : Compiled} (brought : result.auxiliary = []) :
      dialect.Accounts root scope (.answer result) := by
    intro compiled run definition member
    rw [Traced.yields_answer] at run
    rw [← run, brought] at member
    exact absurd member List.not_mem_nil
  have around {inner : Schema} {hint : String} {spelling : Compiled → Spelling}
      (below : inner.PartOf scope.schemas root) :
      dialect.Accounts root scope
        ((dialect.compilePart (dialect.compileWithin depth) inner hint scope).andThen fun inner =>
          .answer ((spelling inner).combine [inner])) := by
    intro compiled run definition member
    obtain ⟨inner, compiles, rfl⟩ := Traced.yields_andThen_answer.mp run
    refine (accounts.compilePart below inner compiles definition ?_).mono
      (Traced.notices_subset_andThen _ _)
    simpa using member
  cases schema with
  | reference traits pointer =>
      refine alone ?_
      unfold compileReference
      split <;> rfl
  | enumeration traits values =>
      unfold Dialect.compileCase
      dsimp only
      split
      · exact alone rfl
      · exact fun compiled run => (Traced.yields_fail.mp run).elim
  | composition traits kind branches => exact accounts.compileComposition part
  | primitive traits kind => exact alone rfl
  | array traits items =>
      cases items with
      | none => exact alone rfl
      | some items => exact around (part.within (.items (.self items)))
  | object traits properties required additional =>
      cases properties with
      | some properties => exact accounts.compileNested part rfl
      | none =>
          cases additional with
          | values content => exact around (part.within (.content (.self content)))
          | unstated | allowed => exact alone rfl
  | unknown traits => exact alone rfl

end AccountsWithin

/-- Every definition that comes along stems from a record in the schema, by induction on the depth
of the call. -/
theorem accountsWithin (dialect : Dialect) (root : Schema) (depth : Nat) :
    dialect.AccountsWithin root depth := by
  induction depth with
  | zero => exact fun schema hint scope part compiled run => (Traced.yields_fail.mp run).elim
  | succ depth ih =>
      intro schema hint scope part compiled run definition member
      obtain ⟨inner, compiles, rfl⟩ := Traced.yields_andThen_answer.mp run
      rw [auxiliary_withNull] at member
      exact (ih.compileCase part inner compiles definition member).mono
        (Traced.notices_subset_andThen _ _)

/-- The definitions that a schema brings along are records of its parts and of parts of the map. -/
theorem accounts_compile (dialect : Dialect) (name : String) (schema : Schema) (scope : Scope) :
    dialect.Accounts schema scope (dialect.compile name schema scope) := by
  have accounts := accountsWithin dialect schema (schema.size + schemaBound scope + 1)
  have whole : schema.PartOf scope.schemas schema := .inl (.self schema)
  unfold compile
  dsimp only
  split
  · exact accounts.compileRecord whole
  · exact accounts whole

end OpenApi.Dialect
