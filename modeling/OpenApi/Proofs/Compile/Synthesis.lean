import OpenApi.Proofs.Compile.Cases
import OpenApi.Proofs.Compile.Parts
import OpenApi.Proofs.Identifier

/-!
# Definitions that are brought along

Compiling a schema brings along a definition for every record that has to stand by itself.  The
definitions come in order, each record after those inside of it, and each takes a name that is free
among those taken so far (`Brings`).  The type of a record has the properties of the flattened
schema for its fields and the emitted names of what is left to build on for its bases
(`Dialect.Records`).
-/

namespace OpenApi

/-! ## Scopes in which names are taken -/

namespace Scope

variable {scope : Scope} {names : List String}

/-- Taking names changes the taken ones and nothing else. -/
theorem taking_eq :
    scope.taking names = { scope with taken := scope.taken.insertAll names } := by
  cases names <;> rfl

/-- Names may be taken in two turns. -/
theorem taking_append {more : List String} :
    scope.taking (names ++ more) = (scope.taking names).taking more := by
  simp only [taking_eq, NameSet.insertAll, List.foldl_append]

/-- Schemas are emitted under the same names in a wider scope. -/
@[simp]
theorem emittedName_taking : (scope.taking names).emittedName = scope.emittedName := by
  rw [taking_eq]
  rfl

end Scope

/-! ## Auxiliary definitions of compiled types -/

/-- The names of definitions. -/
def namesOf (definitions : List Definition) : List String := definitions.map (·.name)

namespace Compiled

@[simp]
theorem auxiliaryOf_nil : auxiliaryOf [] = [] :=
  rfl

/-- The definitions of several parts are those of the first and then those of the others. -/
@[simp]
theorem auxiliaryOf_cons {part : Compiled} {parts : List Compiled} :
    auxiliaryOf (part :: parts) = part.auxiliary ++ auxiliaryOf parts := by
  simp [auxiliaryOf]

/-- The definitions of two lists of parts are those of the one and then those of the other. -/
@[simp]
theorem auxiliaryOf_append {first second : List Compiled} :
    auxiliaryOf (first ++ second) = auxiliaryOf first ++ auxiliaryOf second := by
  simp [auxiliaryOf]

/-- A compiled type is the type of an alias. -/
def IsPlain (compiled : Compiled) : Prop :=
  compiled.type.kind = .typeAlias ∧ compiled.type.bases = []

/-- A type that is put together is no class. -/
theorem isPlain_combine {spelling : Spelling} {parts : List Compiled} :
    (spelling.combine parts).IsPlain :=
  ⟨rfl, rfl⟩

/-- A type that is put together brings the definitions of its parts, in their order. -/
@[simp]
theorem auxiliary_combine {spelling : Spelling} {parts : List Compiled} :
    (spelling.combine parts).auxiliary = auxiliaryOf parts :=
  rfl

end Compiled

namespace Dialect

variable {dialect : Dialect}

/-- A description adds no definition. -/
@[simp]
theorem auxiliary_describe {schema : Schema} {compiled : Compiled} :
    (dialect.describe schema compiled).auxiliary = compiled.auxiliary := by
  unfold describe
  split
  · split <;> simp
  · rfl

/-- A description makes no class of a type. -/
theorem isPlain_describe {schema : Schema} {compiled : Compiled} (plain : compiled.IsPlain) :
    (dialect.describe schema compiled).IsPlain := by
  unfold describe
  split
  · split
    · exact plain
    · exact Compiled.isPlain_combine
  · exact plain

/-- Allowing null makes no class of a type. -/
theorem isPlain_withNull {schema : Schema} {compiled : Compiled} (plain : compiled.IsPlain) :
    (dialect.withNull schema compiled).IsPlain := by
  unfold withNull
  split
  · exact Compiled.isPlain_combine
  · exact plain

/-- Allowing null adds no definition. -/
@[simp]
theorem auxiliary_withNull {schema : Schema} {compiled : Compiled} :
    (dialect.withNull schema compiled).auxiliary = compiled.auxiliary := by
  unfold withNull
  split <;> simp

/-- After some parts, the names of their definitions are taken. -/
theorem scopeAfter_eq {scope : Scope} {compiled : List Compiled} :
    scopeAfter scope compiled = scope.taking (namesOf (Compiled.auxiliaryOf compiled)) := by
  induction compiled generalizing scope with
  | nil => rfl
  | cons part rest ih =>
      have step : scopeAfter scope (part :: rest) =
          scopeAfter (scope.taking part.auxiliaryNames) rest := rfl
      rw [step, ih, Compiled.auxiliaryOf_cons, namesOf, namesOf, List.map_append,
        Scope.taking_append]
      rfl

/-- Properties have names exactly if all their keys are texts. -/
theorem namedProperties_eq_ok_iff {entries : List (Scalar × Schema)}
    {properties : List (String × Schema)} :
    namedProperties entries = .ok properties ↔
      entries = properties.map fun property => (.text property.1, property.2) := by
  induction entries generalizing properties with
  | nil => cases properties <;> simp [namedProperties]
  | cons entry rest ih =>
      obtain ⟨key, schema⟩ := entry
      cases key with
      | text name =>
          rw [namedProperties, except_bind_eq_ok_iff]
          constructor
          · rintro ⟨others, named, same⟩
            cases same
            rw [ih.mp named, List.map_cons]
          · intro same
            cases properties with
            | nil => cases same
            | cons property others =>
                obtain ⟨⟨⟨⟩, rfl⟩, tail⟩ := List.cons.inj same
                exact ⟨others, ih.mpr tail, rfl⟩
      | null | bool | int | float =>
          rw [namedProperties]
          · cases properties <;> simp
          all_goals simp

/-! ## Compiled records -/

/-- A type is the record type of a schema: it has the properties of the flattened schema for its
fields, and it builds on what is left to build on under its emitted names. -/
structure Records (dialect : Dialect) (scope : Scope) (schema : Schema) (flat : FlatRecord)
    (type : TypeExpr) : Prop where
  flattened : (flatten scope dialect.nominalBases [] schema).Yields flat
  kind : type.kind = .object
  fields : ∃ properties, namedProperties flat.properties = .ok properties ∧
    type.fields.map Field.name = properties.map Prod.fst
  bases : type.bases = flat.bases.map scope.emittedName

/-- How definitions are brought along when a part of a schema is compiled. -/
inductive Brings (dialect : Dialect) (root : Schema) : Scope → List Definition → Prop
  | nothing {scope : Scope} : Brings dialect root scope []
  | append {scope : Scope} {first second : List Definition}
      (before : Brings dialect root scope first)
      (after : Brings dialect root (scope.taking (namesOf first)) second) :
      Brings dialect root scope (first ++ second)
  | record {scope : Scope} {hint : String} {schema : Schema} {flat : FlatRecord} {type : TypeExpr}
      {inner : List Definition} (part : schema.PartOf scope.schemas root)
      (isRecord : schema.isRecord)
      (within : Brings dialect root (scope.taking [Identifier.unique hint scope.taken]) inner)
      (records :
        dialect.Records (scope.taking [Identifier.unique hint scope.taken]) schema flat type) :
      Brings dialect root scope
        (inner ++ [⟨Identifier.unique hint scope.taken, type, schema.description, true⟩])

/-- The definitions that are brought along have different names, none of which was taken. -/
theorem Brings.fresh {root : Schema} {scope : Scope} {definitions : List Definition}
    (brings : Brings dialect root scope definitions) :
    (namesOf definitions).Nodup ∧ ∀ name ∈ namesOf definitions, name ∉ scope.taken := by
  induction brings with
  | nothing => simp [namesOf]
  | append before after ih ihAfter =>
      obtain ⟨nodup, free⟩ := ih
      obtain ⟨nodupAfter, freeAfter⟩ := ihAfter
      simp only [Scope.mem_taken_taking, not_or] at freeAfter
      rw [namesOf, List.map_append, List.nodup_append]
      refine ⟨⟨nodup, nodupAfter, ?_⟩, ?_⟩
      · rintro name early other late rfl
        exact (freeAfter name late).2 early
      · intro name member
        rcases List.mem_append.mp member with early | late
        · exact free name early
        · exact (freeAfter name late).1
  | @record scope hint schema flat type inner part isRecord within records ih =>
      obtain ⟨nodup, free⟩ := ih
      simp only [Scope.mem_taken_taking, not_or, List.mem_singleton] at free
      rw [namesOf, List.map_append, List.nodup_append]
      refine ⟨⟨nodup, List.nodup_singleton _, ?_⟩, ?_⟩
      · rintro name early other late rfl
        exact (free name early).2 (List.mem_singleton.mp late)
      · intro name member
        rcases List.mem_append.mp member with early | late
        · exact (free name early).1
        · rw [List.mem_singleton.mp late]
          exact Identifier.unique_not_mem hint scope.taken

/-- All that is brought along is marked as synthesized. -/
theorem Brings.synthesized {root : Schema} {scope : Scope} {definitions : List Definition}
    (brings : Brings dialect root scope definitions) :
    ∀ definition ∈ definitions, definition.synthesized := by
  induction brings with
  | nothing => exact fun definition none => absurd none List.not_mem_nil
  | append before after ih ihAfter =>
      intro definition member
      exact (List.mem_append.mp member).elim (ih definition) (ihAfter definition)
  | record part isRecord within records ih =>
      intro definition member
      rcases List.mem_append.mp member with inner | last
      · exact ih definition inner
      · rw [List.mem_singleton.mp last]

/-! ## Compiling brings them along -/

/-- Every part has a compiled type. -/
theorem length_of_compileParts {compile : Compiling} {parts : List (Schema × String)}
    {scope : Scope} {compiled : List Compiled}
    (run : (dialect.compileParts compile parts scope).Yields compiled) :
    compiled.length = parts.length := by
  induction parts generalizing scope compiled with
  | nil =>
      rw [compileParts, Traced.yields_answer] at run
      exact run ▸ rfl
  | cons part rest ih =>
      rw [compileParts] at run
      obtain ⟨first, _, run⟩ := Traced.yields_andThen.mp run
      obtain ⟨others, compiles, run⟩ := Traced.yields_andThen.mp run
      rw [Traced.yields_answer] at run
      exact run ▸ congrArg Nat.succ (ih compiles)

/-- Every compiled type comes from one of the parts, compiled with more names taken. -/
theorem exists_part_of_compileParts {compile : Compiling} {parts : List (Schema × String)}
    {scope : Scope} {all : List Compiled}
    (run : (dialect.compileParts compile parts scope).Yields all) :
    ∀ compiled ∈ all, ∃ part ∈ parts, ∃ names,
      (dialect.compilePart compile part.1 part.2 (scope.taking names)).Yields compiled := by
  induction parts generalizing scope all with
  | nil =>
      rw [compileParts, Traced.yields_answer] at run
      subst run
      exact fun _ none => absurd none List.not_mem_nil
  | cons part rest ih =>
      rw [compileParts] at run
      obtain ⟨first, compiles, run⟩ := Traced.yields_andThen.mp run
      obtain ⟨others, compilesRest, rfl⟩ := Traced.yields_andThen_answer.mp run
      rw [List.forall_mem_cons]
      refine ⟨⟨part, List.mem_cons_self, [], compiles⟩, fun compiled member => ?_⟩
      obtain ⟨other, later, names, step⟩ := ih compilesRest compiled member
      rw [← Scope.taking_append] at step
      exact ⟨other, List.mem_cons_of_mem _ later, _, step⟩

/-- A part is compiled to a type that brings definitions along in this way; where nested records
must be definitions of their own, it is no record itself. -/
structure Delivers (dialect : Dialect) (root : Schema) (scope : Scope) (compiled : Compiled) :
    Prop where
  brings : dialect.Brings root scope compiled.auxiliary
  plain : dialect.namesNested → compiled.IsPlain

/-- A way of compiling compiles all parts so. -/
def Faithful (dialect : Dialect) (root : Schema) (compile : Compiling) : Prop :=
  ∀ ⦃schema : Schema⦄ ⦃hint : String⦄ ⦃scope : Scope⦄ ⦃compiled : Compiled⦄,
    schema.PartOf scope.schemas root → (compile schema hint scope).Yields compiled →
      dialect.Delivers root scope compiled

namespace Faithful

variable {root : Schema} {compile : Compiling} {scope : Scope}

/-- A part delivers what its own compiling delivers. -/
theorem compilePart (faithful : dialect.Faithful root compile) {schema : Schema} {hint : String}
    {compiled : Compiled} (part : schema.PartOf scope.schemas root)
    (run : (dialect.compilePart compile schema hint scope).Yields compiled) :
    dialect.Delivers root scope compiled := by
  obtain ⟨inner, compiles, rfl⟩ := Traced.yields_andThen_answer.mp run
  obtain ⟨brings, plain⟩ := faithful part compiles
  exact ⟨by rwa [auxiliary_describe], fun named => isPlain_describe (plain named)⟩

/-- Parts bring their definitions one after the other, each in the scope that the ones before leave.
-/
theorem compileParts (faithful : dialect.Faithful root compile) {parts : List (Schema × String)}
    {compiled : List Compiled} (each : ∀ part ∈ parts, part.1.PartOf scope.schemas root)
    (run : (dialect.compileParts compile parts scope).Yields compiled) :
    dialect.Brings root scope (Compiled.auxiliaryOf compiled) := by
  induction parts generalizing scope compiled with
  | nil =>
      rw [Dialect.compileParts, Traced.yields_answer] at run
      exact run ▸ .nothing
  | cons part rest ih =>
      obtain ⟨schema, hint⟩ := part
      rw [Dialect.compileParts] at run
      obtain ⟨first, compiles, run⟩ := Traced.yields_andThen.mp run
      obtain ⟨others, compilesRest, rfl⟩ := Traced.yields_andThen_answer.mp run
      have before := (faithful.compilePart (each _ List.mem_cons_self) compiles).brings
      have after := ih (fun other member => by
        rw [Scope.schemas_taking]
        exact each other (List.mem_cons_of_mem _ member)) compilesRest
      rw [Compiled.auxiliaryOf_cons]
      exact before.append after

end Faithful

/-- A field brings the definitions of its type. -/
theorem auxiliary_field {required : List Scalar} {property : String × Schema}
    {compiled : Compiled} :
    (dialect.field required property compiled).2.auxiliary = compiled.auxiliary := by
  unfold field
  dsimp only
  split <;> simp

/-- Properties and their compiled types make fields of the same names. -/
theorem fields_zipWith (dialect : Dialect) (required : List Scalar)
    {properties : List (String × Schema)} {compiled : List Compiled}
    (length : compiled.length = properties.length) :
    ((List.zipWith (dialect.field required) properties compiled).map Prod.fst).map Field.name =
        properties.map Prod.fst ∧
      Compiled.auxiliaryOf
          ((List.zipWith (dialect.field required) properties compiled).map Prod.snd) =
        Compiled.auxiliaryOf compiled := by
  induction properties generalizing compiled with
  | nil =>
      obtain rfl := List.length_eq_zero_iff.mp length
      exact ⟨rfl, rfl⟩
  | cons property rest ih =>
      cases compiled with
      | nil => cases length
      | cons first others =>
          obtain ⟨names, auxiliary⟩ := ih (Nat.succ.inj length)
          simp only [List.zipWith_cons_cons, List.map_cons, Compiled.auxiliaryOf_cons, names,
            auxiliary, auxiliary_field, and_true]
          rfl

/-- The content of further properties, if there is any. -/
def furtherOf : Additional Compiled → List Compiled
  | .values content => [content]
  | _ => []

/-- An assembled record has the given fields and bases, and brings along the definitions of its
fields and, unless they are left out, of its other parts. -/
theorem assemble_yields {name : String} {fields : List (Field × Compiled)} {bases : List String}
    {extras : List Compiled} {additional : Additional Compiled} {record : Compiled}
    (run : (dialect.assemble name fields bases extras additional).Yields record) :
    record.type.kind = .object ∧ record.type.fields = fields.map Prod.fst ∧
      record.type.bases = bases ∧
      record.auxiliary = Compiled.auxiliaryOf (fields.map Prod.snd ++
        if dialect.fieldsOnly then [] else extras ++ furtherOf additional) := by
  unfold assemble at run
  dsimp only at run
  split at run
  · cases run
    exact ⟨rfl, rfl, rfl, rfl⟩
  · cases run
    exact ⟨rfl, rfl, rfl, rfl⟩

/-- A record that is assembled of its properties brings along what these do and, unless they are
left out, what its other parts do. -/
theorem auxiliary_of_assemble {name : String} {required : List Scalar}
    {properties : List (String × Schema)} {compiled extras : List Compiled} {bases : List String}
    {additional : Additional Compiled} {record : Compiled}
    (length : compiled.length = properties.length)
    (run : (dialect.assemble name (List.zipWith (dialect.field required) properties compiled) bases
      extras additional).Yields record) :
    record.auxiliary = Compiled.auxiliaryOf (compiled ++
      if dialect.fieldsOnly then [] else extras ++ furtherOf additional) := by
  rw [(assemble_yields run).2.2.2, Compiled.auxiliaryOf_append,
    (fields_zipWith dialect required length).2, Compiled.auxiliaryOf_append]

section Hinted

variable {schemas : Mapping} {root : Schema} {flat : FlatRecord}
  {properties : List (String × Schema)} {several : List Schema}

/-- The parts that properties are compiled from are the properties. -/
theorem mem_of_hinted {hint : String × Schema → String}
    (named : namedProperties flat.properties = .ok properties) :
    ∀ part ∈ properties.map fun property => (property.2, hint property),
      part.1 ∈ flat.properties.map Prod.snd := by
  intro part member
  obtain ⟨property, held, rfl⟩ := List.mem_map.mp member
  rw [namedProperties_eq_ok_iff.mp named, List.map_map]
  exact List.mem_map_of_mem held

/-- Numbering schemas adds none. -/
theorem mem_of_numbered {hint : Schema × Nat → String} :
    ∀ part ∈ several.zipIdx.map fun one => (one.1, hint one), part.1 ∈ several := by
  intro part member
  obtain ⟨one, held, rfl⟩ := List.mem_map.mp member
  exact List.fst_mem_of_mem_zipIdx held

/-- The properties of a record that is made of parts are parts. -/
theorem partOf_of_property {hint : String × Schema → String}
    (parts : flat.PartsOf schemas root) (named : namedProperties flat.properties = .ok properties) :
    ∀ part ∈ properties.map fun property => (property.2, hint property),
      part.1.PartOf schemas root := by
  intro part member
  obtain ⟨property, held, same⟩ := List.mem_map.mp (mem_of_hinted named part member)
  exact same ▸ parts.properties property held

/-- Parts stay parts when they are numbered. -/
theorem partOf_of_numbered {hint : Schema × Nat → String}
    (each : ∀ schema ∈ several, schema.PartOf schemas root) :
    ∀ part ∈ several.zipIdx.map fun one => (one.1, hint one), part.1.PartOf schemas root :=
  fun part member => each part.1 (mem_of_numbered part member)

end Hinted

/-- The further properties of a record, as a part to compile. -/
def furtherParts (name : String) : Additional Schema → List (Schema × String)
  | .values content => [(content, name ++ "Value")]
  | _ => []

/-- What further properties may hold is a part of a record, if it is said. -/
theorem mem_furtherParts_iff {name : String} {additional : Additional Schema}
    {part : Schema × String} :
    part ∈ furtherParts name additional ↔
      ∃ content, additional = .values content ∧ part = (content, name ++ "Value") := by
  cases additional <;> simp [furtherParts]

/-- How a schema is compiled as a record: it is flattened, its properties, its other parts and the
content of further properties are compiled one after the other, and the record is put together. -/
structure RecordRun (dialect : Dialect) (compile : Compiling) (schema : Schema) (name : String)
    (scope : Scope) (record : Compiled) (flat : FlatRecord) (properties : List (String × Schema))
    (compiled extras further : List Compiled) : Prop where
  flattened : (flatten scope dialect.nominalBases [] schema).Yields flat
  named : namedProperties flat.properties = .ok properties
  compiles : (dialect.compileParts compile (properties.map fun property =>
    (property.2, name ++ Identifier.pascalCase property.1)) scope).Yields compiled
  compilesExtras : (dialect.compileParts compile (flat.extras.zipIdx.map fun extra =>
    (extra.1, s!"{name}Part{extra.2 + 1}"))
      (scope.taking (namesOf (Compiled.auxiliaryOf compiled)))).Yields extras
  compilesFurther : (dialect.compileParts compile (furtherParts name flat.additional)
    ((scope.taking (namesOf (Compiled.auxiliaryOf compiled))).taking
      (namesOf (Compiled.auxiliaryOf extras)))).Yields further
  kind : record.type.kind = .object
  keys : record.type.fields.map Field.name = properties.map Prod.fst
  bases : record.type.bases = flat.bases.map scope.emittedName
  brought : record.auxiliary = Compiled.auxiliaryOf (compiled ++
    if dialect.fieldsOnly then [] else extras ++ further)

/-- Every compiled record is compiled so, and put together of what its parts became. -/
theorem exists_assembled {compile : Compiling} {schema : Schema} {name : String} {scope : Scope}
    {record : Compiled} (run : (dialect.compileRecord compile schema name scope).Yields record) :
    ∃ flat properties compiled extras content,
      dialect.RecordRun compile schema name scope record flat properties compiled extras
          (furtherOf content) ∧
        (dialect.assemble name (List.zipWith (dialect.field flat.required) properties compiled)
          (flat.bases.map scope.emittedName) extras content).Yields record := by
  unfold compileRecord at run
  obtain ⟨flat, flattened, run⟩ := Traced.yields_andThen.mp run
  obtain ⟨properties, named, run⟩ := Traced.yields_andThen.mp run
  obtain ⟨compiled, compiles, run⟩ := Traced.yields_andThen.mp run
  obtain ⟨extras, compilesExtras, run⟩ := Traced.yields_andThen.mp run
  have length := length_of_compileParts compiles
  rw [List.length_map] at length
  rw [scopeAfter_eq] at compilesExtras run
  rw [scopeAfter_eq] at run
  simp only [Scope.emittedName_taking] at run
  suffices ∃ content, (dialect.compileParts compile (furtherParts name flat.additional)
      ((scope.taking (namesOf (Compiled.auxiliaryOf compiled))).taking
        (namesOf (Compiled.auxiliaryOf extras)))).Yields (furtherOf content) ∧
      (dialect.assemble name (List.zipWith (dialect.field flat.required) properties compiled)
        (flat.bases.map scope.emittedName) extras content).Yields record by
    obtain ⟨content, compilesFurther, built⟩ := this
    obtain ⟨kind, fields, bases, _⟩ := assemble_yields built
    exact ⟨flat, properties, compiled, extras, content, ⟨flattened, named, compiles,
      compilesExtras, compilesFurther, kind,
      fields ▸ (fields_zipWith dialect flat.required length).1, bases,
      auxiliary_of_assemble length built⟩, built⟩
  split at run
  · next content stated =>
      obtain ⟨values, compilesValues, run⟩ := Traced.yields_andThen.mp run
      refine ⟨.values values, ?_, run⟩
      rw [stated]
      exact Traced.yields_andThen.mpr ⟨values, compilesValues, rfl⟩
  · next permitted stated => exact ⟨.allowed permitted, by rw [stated]; rfl, run⟩
  · next stated => exact ⟨.unstated, by rw [stated]; rfl, run⟩

/-- The run of a record is that of its parts, one after the other. -/
theorem exists_recordRun {compile : Compiling} {schema : Schema} {name : String} {scope : Scope}
    {record : Compiled} (run : (dialect.compileRecord compile schema name scope).Yields record) :
    ∃ flat properties compiled extras further,
      dialect.RecordRun compile schema name scope record flat properties compiled extras
        further := by
  obtain ⟨flat, properties, compiled, extras, content, steps, _⟩ := exists_assembled run
  exact ⟨flat, properties, compiled, extras, furtherOf content, steps⟩

/-- The content of further properties is a part of the whole like the other parts. -/
theorem partOf_of_further {schemas : Mapping} {root : Schema} {flat : FlatRecord} {name : String}
    (parts : flat.PartsOf schemas root) :
    ∀ part ∈ furtherParts name flat.additional, part.1.PartOf schemas root := by
  intro part member
  obtain ⟨content, stated, rfl⟩ := mem_furtherParts_iff.mp member
  exact parts.additional content stated

namespace Faithful

variable {root : Schema} {compile : Compiling} {scope : Scope}

/-- A compiled record has the record type of its schema. -/
theorem compileRecord (faithful : dialect.Faithful root compile) {schema : Schema} {name : String}
    {record : Compiled} (part : schema.PartOf scope.schemas root)
    (run : (dialect.compileRecord compile schema name scope).Yields record) :
    (∃ flat, dialect.Records scope schema flat record.type) ∧
      dialect.Brings root scope record.auxiliary := by
  obtain ⟨flat, properties, compiled, extras, further, steps⟩ := exists_recordRun run
  have parts := (flattens_of_yields steps.flattened).partsOf part.operands
  refine ⟨⟨flat, steps.flattened, steps.kind, ⟨properties, steps.named, steps.keys⟩, steps.bases⟩,
    ?_⟩
  have bringsFields :=
    faithful.compileParts (partOf_of_property parts steps.named) steps.compiles
  have bringsExtras := faithful.compileParts
    (by simpa only [Scope.schemas_taking] using partOf_of_numbered parts.extras)
    steps.compilesExtras
  have bringsFurther := faithful.compileParts
    (by simpa only [Scope.schemas_taking] using partOf_of_further parts) steps.compilesFurther
  rw [steps.brought, Compiled.auxiliaryOf_append]
  split
  · exact bringsFields.append .nothing
  · rw [Compiled.auxiliaryOf_append]
    exact bringsFields.append (bringsExtras.append bringsFurther)

/-- A nested record delivers the definition of its class. -/
theorem compileNested (faithful : dialect.Faithful root compile) {schema : Schema} {hint : String}
    {compiled : Compiled} (part : schema.PartOf scope.schemas root) (isRecord : schema.isRecord)
    (run : (dialect.compileNested compile schema hint scope).Yields compiled) :
    dialect.Delivers root scope compiled := by
  unfold Dialect.compileNested at run
  split at run
  · obtain ⟨_, _, run⟩ := Traced.yields_andThen.mp run
    obtain ⟨record, compiles, rfl⟩ := Traced.yields_andThen_answer.mp run
    obtain ⟨⟨flat, records⟩, within⟩ :=
      faithful.compileRecord (by rwa [Scope.schemas_taking]) compiles
    exact ⟨.record part isRecord within records, fun _ => ⟨rfl, rfl⟩⟩
  · next inPlace =>
      exact ⟨(faithful.compileRecord part run).2, fun named => absurd named inPlace⟩

/-- Every kind of schema delivers what its parts bring. -/
theorem compileCase (faithful : dialect.Faithful root compile) {schema : Schema} {hint : String}
    {compiled : Compiled} (part : schema.PartOf scope.schemas root)
    (run : (dialect.compileCase compile schema hint scope).Yields compiled) :
    dialect.Delivers root scope compiled := by
  have around {inner : Compiled} {spelling : Spelling}
      (delivers : dialect.Delivers root scope inner) :
      dialect.Delivers root scope (spelling.combine [inner]) := by
    refine ⟨?_, fun _ => Compiled.isPlain_combine⟩
    simpa using delivers.brings
  have anything : dialect.Delivers root scope dialect.anything :=
    ⟨.nothing, fun _ => Compiled.isPlain_combine⟩
  cases caseRun_of_yields run with
  | reference =>
      unfold compileReference
      split
      · exact anything
      · exact ⟨.nothing, fun _ => ⟨rfl, rfl⟩⟩
  | enumeration | primitive => exact ⟨.nothing, fun _ => Compiled.isPlain_combine⟩
  | anything => exact anything
  | list | map => exact around anything
  | listOf compiles =>
      exact around (faithful.compilePart (part.within (.items (.self _))) compiles)
  | mapOf compiles =>
      exact around (faithful.compilePart (part.within (.content (.self _))) compiles)
  | single compiles => exact faithful.compilePart (part.operands _ List.mem_cons_self) compiles
  | union compiles =>
      exact ⟨faithful.compileParts (partOf_of_numbered part.operands) compiles,
        fun _ => Compiled.isPlain_combine⟩
  | record isRecord compiles => exact faithful.compileNested part isRecord compiles

end Faithful

/-- Compiling within any depth brings definitions along in this way. -/
theorem faithful_compileWithin (dialect : Dialect) (root : Schema) (depth : Nat) :
    dialect.Faithful root (dialect.compileWithin depth) := by
  induction depth with
  | zero =>
      intro schema hint scope compiled part run
      exact (Traced.yields_fail.mp run).elim
  | succ depth ih =>
      intro schema hint scope compiled part run
      obtain ⟨inner, compiles, rfl⟩ := Traced.yields_andThen_answer.mp run
      obtain ⟨brings, plain⟩ := Faithful.compileCase ih part compiles
      exact ⟨by rwa [auxiliary_withNull], fun named => isPlain_withNull (plain named)⟩

section Definitions

variable {name : String} {schema : Schema} {scope : Scope}

/-- At the top, a record is compiled under the name of its definition. -/
theorem compile_of_isRecord (isRecord : schema.isRecord) :
    dialect.compile name schema scope = dialect.compileRecord
      (dialect.compileWithin (schema.size + schemaBound scope + 1)) schema name scope := by
  unfold compile
  rw [isRecord]
  rfl

/-- At the top, every other schema is compiled like a part. -/
theorem compile_of_not_isRecord (other : schema.isRecord = false) :
    dialect.compile name schema scope =
      dialect.compileWithin (schema.size + schemaBound scope + 1) schema name scope := by
  unfold compile
  rw [other]
  rfl

end Definitions

/-- The definition of a schema: a record has its record type, and where nested records must be
definitions of their own, anything else is an alias. -/
theorem compile_yields {name : String} {schema : Schema} {scope : Scope} {compiled : Compiled}
    (run : (dialect.compile name schema scope).Yields compiled) :
    dialect.Brings schema scope compiled.auxiliary ∧
      (schema.isRecord → ∃ flat, dialect.Records scope schema flat compiled.type) ∧
      (schema.isRecord = false → dialect.namesNested → compiled.IsPlain) := by
  have faithful := faithful_compileWithin dialect schema (schema.size + schemaBound scope + 1)
  have whole : schema.PartOf scope.schemas schema := .inl (.self schema)
  unfold compile at run
  dsimp only at run
  split at run
  · next record =>
      obtain ⟨records, brings⟩ := faithful.compileRecord whole run
      exact ⟨brings, fun _ => records, fun other => absurd record (Bool.eq_false_iff.mp other)⟩
  · next other =>
      obtain ⟨brings, plain⟩ := faithful whole run
      exact ⟨brings, fun record => absurd record other, fun _ => plain⟩

/-! ## Plain objects -/

section Objects

variable {compile : Compiling} {scope : Scope}

/-- A plain object is compiled from its compiled properties. -/
theorem exists_compileRecord_of_object (name : String) (traits : Traits)
    (properties : List (String × Schema)) {compiled : List Compiled}
    (compiles : (dialect.compileParts compile (properties.map fun property =>
      (property.2, name ++ Identifier.pascalCase property.1)) scope).Yields compiled) :
    ∃ record, (dialect.compileRecord compile (.object traits
        (some (properties.map fun property => (.text property.1, property.2))) [] .unstated) name
        scope).Yields record ∧
      (compiled.length = properties.length → record.auxiliary = Compiled.auxiliaryOf compiled) := by
  let fields := List.zipWith (dialect.field []) properties compiled
  let record := dialect.assemble name fields [] [] .unstated
  have assembled : ∃ answer, record.Yields answer := by
    simp only [record, assemble, List.isEmpty_nil, Bool.not_true, Bool.and_false]
    exact ⟨_, rfl⟩
  obtain ⟨answer, assembles⟩ := assembled
  refine ⟨answer, ?_, fun length => ?_⟩
  · exact Traced.yields_andThen.mpr ⟨_, Flattens.object.yields, Traced.yields_andThen.mpr
      ⟨properties, namedProperties_eq_ok_iff.mpr rfl, Traced.yields_andThen.mpr
        ⟨compiled, compiles, Traced.yields_andThen.mpr ⟨[], rfl, assembles⟩⟩⟩⟩
  · rw [auxiliary_of_assemble length assembles, Compiled.auxiliaryOf_append]
    simp [furtherOf]

/-- A nested record under a free name comes along as the last definition. -/
theorem exists_compileNested_of_free {schema : Schema} {hint : String} {record : Compiled}
    (named : dialect.namesNested) (free : hint ∉ scope.taken)
    (compiles :
      (dialect.compileRecord compile schema hint (scope.taking [hint])).Yields record) :
    ∃ compiled, (dialect.compileNested compile schema hint scope).Yields compiled ∧
      compiled.auxiliary =
        record.auxiliary ++ [⟨hint, record.type, schema.description, true⟩] := by
  have unique : Identifier.unique hint scope.taken = hint := if_pos free
  unfold compileNested
  rw [if_pos named, unique]
  exact ⟨_, Traced.yields_andThen.mpr ⟨(), rfl, Traced.yields_andThen.mpr ⟨record, compiles, rfl⟩⟩,
    rfl⟩

end Objects

end Dialect

end OpenApi
