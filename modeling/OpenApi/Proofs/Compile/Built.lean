import OpenApi.Proofs.Compile.Respelling

/-!
# Types and what they are built of

Compiling puts every type together from the types of parts, in one of a few ways.  A property that
each of these ways keeps holds of whatever compiling yields.  Records are told apart from the types
inside of other types: where nested records are definitions of their own, a type mentions such a
record but is none.
-/

namespace OpenApi

/-- Each way of putting types together keeps two properties: `inner` of types inside of other types,
and `whole` of records. -/
structure Dialect.Keeps (dialect : Dialect) (inner whole : TypeExpr → Prop) : Prop where
  unknown : inner (dialect.unknown.combine []).type
  primitive : ∀ kind, inner ((dialect.primitive kind).combine []).type
  enumeration : ∀ values, inner ((dialect.enumeration values).combine []).type
  reference : ∀ name references,
    inner { ((dialect.reference name).combine []).type with references := references }
  array : ∀ items : Compiled, inner items.type →
    inner ((dialect.array items.expression).combine [items]).type
  stringMap : ∀ values : Compiled, inner values.type →
    inner ((dialect.stringMap values.expression).combine [values]).type
  union : ∀ branches : List Compiled, (∀ branch ∈ branches, inner branch.type) →
    inner ((dialect.union (branches.map (·.expression))).combine branches).type
  nullable : ∀ content : Compiled, inner content.type →
    inner ((dialect.nullable content.expression).combine [content]).type
  optional : ∀ content : Compiled, inner content.type →
    inner ((dialect.optional content.expression).combine [content]).type
  described : ∀ spelling, dialect.described = some spelling →
    ∀ (content : Compiled) (description : String), inner content.type →
      inner ((spelling content.expression description).combine [content]).type
  record : ∀ (name : String) (fields : List (Field × Compiled)) (bases : List String)
    (extras : List Compiled) (additional : Additional Compiled),
    (∀ field ∈ fields, field.1.expression = field.2.expression ∧ inner field.2.type) →
    (∀ extra ∈ extras, inner extra.type) →
    (∀ content, additional = .values content → inner content.type) →
    whole (Dialect.recordOf
      (dialect.record ⟨name, fields.map Prod.fst, bases, extras.map (·.expression),
        Dialect.statedOf additional⟩)
      (fields.map Prod.fst) bases
      (fields.map Prod.snd ++
        if dialect.fieldsOnly then [] else extras ++ Dialect.furtherOf additional)).type
  mention : dialect.namesNested → ∀ name type, whole type →
    inner
      { expression := (dialect.reference name).text
        references := type.references
        imports := type.imports.insertAll (dialect.reference name).imports }
  inPlace : dialect.namesNested = false → ∀ type, whole type → inner type

/-- Each way of putting types together keeps three properties: `inner` of types inside of other
types, `absent` of the types of properties that may be absent, and `whole` of records. -/
structure Dialect.KeepsFields (dialect : Dialect) (inner absent whole : TypeExpr → Prop) :
    Prop where
  unknown : inner (dialect.unknown.combine []).type
  primitive : ∀ kind, inner ((dialect.primitive kind).combine []).type
  enumeration : ∀ values, inner ((dialect.enumeration values).combine []).type
  reference : ∀ name references,
    inner { ((dialect.reference name).combine []).type with references := references }
  array : ∀ items : Compiled, inner items.type →
    inner ((dialect.array items.expression).combine [items]).type
  stringMap : ∀ values : Compiled, inner values.type →
    inner ((dialect.stringMap values.expression).combine [values]).type
  union : ∀ branches : List Compiled, (∀ branch ∈ branches, inner branch.type) →
    inner ((dialect.union (branches.map (·.expression))).combine branches).type
  nullable : ∀ content : Compiled, inner content.type →
    inner ((dialect.nullable content.expression).combine [content]).type
  optional : ∀ content : Compiled, inner content.type →
    absent ((dialect.optional content.expression).combine [content]).type
  described : ∀ spelling, dialect.described = some spelling →
    ∀ (content : Compiled) (description : String), inner content.type →
      inner ((spelling content.expression description).combine [content]).type
  record : ∀ (name : String) (fields : List (Field × Compiled)) (bases : List String)
    (extras : List Compiled) (additional : Additional Compiled),
    (∀ field ∈ fields, field.1.expression = field.2.expression ∧
      (if field.1.required then inner else absent) field.2.type) →
    (∀ extra ∈ extras, inner extra.type) →
    (∀ content, additional = .values content → inner content.type) →
    whole (Dialect.recordOf
      (dialect.record ⟨name, fields.map Prod.fst, bases, extras.map (·.expression),
        Dialect.statedOf additional⟩)
      (fields.map Prod.fst) bases
      (fields.map Prod.snd ++
        if dialect.fieldsOnly then [] else extras ++ Dialect.furtherOf additional)).type
  mention : dialect.namesNested → ∀ name type, whole type →
    inner
      { expression := (dialect.reference name).text
        references := type.references
        imports := type.imports.insertAll (dialect.reference name).imports }
  inPlace : dialect.namesNested = false → ∀ type, whole type → inner type

/-- What is kept alike of all types is kept of fields that may be absent, too. -/
theorem Dialect.Keeps.fields {dialect : Dialect} {inner whole : TypeExpr → Prop}
    (keeps : dialect.Keeps inner whole) : dialect.KeepsFields inner inner whole where
  unknown := keeps.unknown
  primitive := keeps.primitive
  enumeration := keeps.enumeration
  reference := keeps.reference
  array := keeps.array
  stringMap := keeps.stringMap
  union := keeps.union
  nullable := keeps.nullable
  optional := keeps.optional
  described := keeps.described
  record name fields bases extras additional ofFields :=
    keeps.record name fields bases extras additional fun field member => by
      simpa only [ite_self] using ofFields field member
  mention := keeps.mention
  inPlace := keeps.inPlace

/-- A compiled type has a property, and the definitions that come along are records with theirs. -/
structure Compiled.Has (own whole : TypeExpr → Prop) (compiled : Compiled) : Prop where
  type : own compiled.type
  auxiliary : ∀ definition ∈ compiled.auxiliary, whole definition.type

/-- A way of compiling yields types with a property. -/
def Compiling.Gives (compile : Compiling) (inner whole : TypeExpr → Prop) : Prop :=
  ∀ ⦃schema : Schema⦄ ⦃hint : String⦄ ⦃scope : Scope⦄ ⦃compiled : Compiled⦄,
    (compile schema hint scope).Yields compiled → compiled.Has inner whole

namespace Compiled.Has

variable {dialect : Dialect} {inner absent whole : TypeExpr → Prop}

/-- What holds of the definitions of each part holds of those of all parts. -/
theorem auxiliaryOf {parts : List Compiled}
    (each : ∀ part ∈ parts, ∀ definition ∈ part.auxiliary, whole definition.type) :
    ∀ definition ∈ Compiled.auxiliaryOf parts, whole definition.type := by
  intro definition member
  obtain ⟨part, held, within⟩ := List.mem_flatMap.mp member
  exact each part held definition within

/-- A type that is put together has what its parts have, if it has it itself. -/
theorem combine {spelling : Spelling} {parts : List Compiled}
    (own : inner (spelling.combine parts).type) (each : ∀ part ∈ parts, part.Has inner whole) :
    (spelling.combine parts).Has inner whole :=
  ⟨own, auxiliaryOf fun part member => (each part member).auxiliary⟩

/-- A type without parts need only have it itself. -/
theorem alone {spelling : Spelling} (own : inner (spelling.combine []).type) :
    (spelling.combine []).Has inner whole :=
  combine own fun _ none => absurd none List.not_mem_nil

variable {compiled : Compiled}

/-- A type around another one need only have it itself. -/
theorem around {spelling : Spelling} (own : absent (spelling.combine [compiled]).type)
    (has : compiled.Has inner whole) : (spelling.combine [compiled]).Has absent whole :=
  ⟨own, auxiliaryOf fun _ member => List.mem_singleton.mp member ▸ has.auxiliary⟩

/-- A description takes nothing away. -/
theorem describe (keeps : dialect.KeepsFields inner absent whole) (schema : Schema)
    (has : compiled.Has inner whole) : (dialect.describe schema compiled).Has inner whole := by
  unfold Dialect.describe
  split
  · next described description spelled _ =>
      split
      · exact has
      · exact has.around (keeps.described described spelled compiled description has.type)
  · exact has

/-- Allowing null takes nothing away. -/
theorem withNull (keeps : dialect.KeepsFields inner absent whole) (schema : Schema)
    (has : compiled.Has inner whole) : (dialect.withNull schema compiled).Has inner whole := by
  unfold Dialect.withNull
  split
  · exact has.around (keeps.nullable compiled has.type)
  · exact has

/-- A field shows the expression of its type, which may be absent or not. -/
theorem field (keeps : dialect.KeepsFields inner absent whole) (required : List Scalar)
    (property : String × Schema) (has : compiled.Has inner whole) :
    (dialect.field required property compiled).1.expression =
        (dialect.field required property compiled).2.expression ∧
      (dialect.field required property compiled).2.Has
        (if (dialect.field required property compiled).1.required then inner else absent) whole := by
  unfold Dialect.field
  refine ⟨rfl, ?_⟩
  dsimp only
  split
  · exact has
  · exact has.around (keeps.optional compiled has.type)

end Compiled.Has

namespace Compiling.Gives

open Dialect

variable {dialect : Dialect} {inner absent whole : TypeExpr → Prop} {compile : Compiling}
  {scope : Scope} {name : String} {schema : Schema} {compiled : Compiled}

/-- A part has what its own compiling gives. -/
theorem compilePart (gives : Gives compile inner whole)
    (keeps : dialect.KeepsFields inner absent whole)
    (run : (dialect.compilePart compile schema name scope).Yields compiled) :
    compiled.Has inner whole := by
  obtain ⟨content, compiles, rfl⟩ := Traced.yields_andThen_answer.mp run
  exact (gives compiles).describe keeps schema

/-- Each of several parts has it. -/
theorem compileParts (gives : Gives compile inner whole)
    (keeps : dialect.KeepsFields inner absent whole)
    {parts : List (Schema × String)} {all : List Compiled}
    (run : (dialect.compileParts compile parts scope).Yields all) :
    ∀ compiled ∈ all, compiled.Has inner whole := by
  intro compiled member
  obtain ⟨part, _, names, compiles⟩ := exists_part_of_compileParts run compiled member
  exact gives.compilePart keeps compiles

/-- A record has its property if its fields and its other parts have theirs. -/
theorem assemble (keeps : dialect.KeepsFields inner absent whole) {fields : List (Field × Compiled)}
    {bases : List String} {extras : List Compiled} {additional : Additional Compiled}
    (ofFields : ∀ field ∈ fields, field.1.expression = field.2.expression ∧
      field.2.Has (if field.1.required then inner else absent) whole)
    (ofExtras : ∀ extra ∈ extras, extra.Has inner whole)
    (ofFurther : ∀ content, additional = .values content → content.Has inner whole)
    (run : (dialect.assemble name fields bases extras additional).Yields compiled) :
    compiled.Has whole whole := by
  rw [Traced.Yields, outcome_assemble] at run
  obtain rfl := Except.ok.inj run
  have parts : ∀ part ∈ fields.map Prod.snd ++
      (if dialect.fieldsOnly then [] else extras ++ furtherOf additional),
      ∀ definition ∈ part.auxiliary, whole definition.type := by
    intro part member
    rcases List.mem_append.mp member with field | other
    · obtain ⟨pair, held, rfl⟩ := List.mem_map.mp field
      exact (ofFields pair held).2.auxiliary
    · split at other
      · cases other
      · rcases List.mem_append.mp other with extra | further
        · exact (ofExtras part extra).auxiliary
        · cases additional with
          | values values => exact List.mem_singleton.mp further ▸ (ofFurther values rfl).auxiliary
          | allowed | unstated => cases further
  exact ⟨keeps.record name fields bases extras additional
    (fun field member => ⟨(ofFields field member).1, (ofFields field member).2.type⟩)
    (fun extra member => (ofExtras extra member).type)
    (fun content stated => (ofFurther content stated).type), Compiled.Has.auxiliaryOf parts⟩

/-- A record has what is asked of a whole, and so have the definitions of its parts. -/
theorem compileRecord (gives : Gives compile inner whole)
    (keeps : dialect.KeepsFields inner absent whole)
    (run : (dialect.compileRecord compile schema name scope).Yields compiled) :
    compiled.Has whole whole := by
  obtain ⟨flat, properties, own, extras, content, steps, assembled⟩ := exists_assembled run
  have ofFields : ∀ field ∈ List.zipWith (dialect.field flat.required) properties own,
      field.1.expression = field.2.expression ∧
        field.2.Has (if field.1.required then inner else absent) whole := by
    intro field member
    obtain ⟨place, bound, rfl⟩ := List.getElem_of_mem member
    rw [List.getElem_zipWith]
    exact (gives.compileParts keeps steps.compiles _ (List.getElem_mem _)).field keeps _ _
  have ofExtras := gives.compileParts keeps steps.compilesExtras
  refine assemble keeps ofFields ofExtras ?_ assembled
  rintro values rfl
  exact gives.compileParts keeps steps.compilesFurther values (List.mem_singleton_self values)

/-- A nested record leaves a name in its place, and its class among the definitions. -/
theorem compileNested (gives : Gives compile inner whole)
    (keeps : dialect.KeepsFields inner absent whole)
    (run : (dialect.compileNested compile schema name scope).Yields compiled) :
    compiled.Has inner whole := by
  unfold Dialect.compileNested at run
  split at run
  · next namesNested =>
      obtain ⟨_, _, run⟩ := Traced.yields_andThen.mp run
      obtain ⟨nested, compiles, rfl⟩ := Traced.yields_andThen_answer.mp run
      have has := gives.compileRecord keeps compiles
      refine ⟨keeps.mention namesNested _ _ has.type, ?_⟩
      intro definition member
      rcases List.mem_append.mp member with early | last
      · exact has.auxiliary definition early
      · exact List.mem_singleton.mp last ▸ has.type
  · next inPlace =>
      have has := gives.compileRecord keeps run
      exact ⟨keeps.inPlace (Bool.eq_false_iff.mpr inPlace) _ has.type, has.auxiliary⟩

/-- Every kind of schema has what its parts are given. -/
theorem compileCase (gives : Gives compile inner whole)
    (keeps : dialect.KeepsFields inner absent whole)
    (run : (dialect.compileCase compile schema name scope).Yields compiled) :
    compiled.Has inner whole := by
  have anything : dialect.anything.Has inner whole := .alone keeps.unknown
  have listOf {items : Compiled} (has : items.Has inner whole) :
      ((dialect.array items.expression).combine [items]).Has inner whole :=
    has.around (keeps.array items has.type)
  have mapOf {values : Compiled} (has : values.Has inner whole) :
      (dialect.mapOf values).Has inner whole :=
    has.around (keeps.stringMap values has.type)
  cases caseRun_of_yields run with
  | reference =>
      unfold Dialect.compileReference
      split
      · exact anything
      · exact ⟨keeps.reference _ _, fun _ none => absurd none List.not_mem_nil⟩
  | enumeration => exact .alone (keeps.enumeration _)
  | primitive => exact .alone (keeps.primitive _)
  | anything => exact anything
  | list => exact listOf anything
  | map => exact mapOf anything
  | listOf compiles => exact listOf (gives.compilePart keeps compiles)
  | mapOf compiles => exact mapOf (gives.compilePart keeps compiles)
  | single compiles => exact gives.compilePart keeps compiles
  | @union _ _ _ all compiles =>
      have each := gives.compileParts keeps compiles
      exact .combine (keeps.union all fun branch member => (each branch member).type) each
  | record isRecord compiles => exact gives.compileNested keeps compiles

end Compiling.Gives

/-! ## Compiled schemas -/

namespace Dialect.KeepsFields

variable {dialect : Dialect} {inner absent whole : TypeExpr → Prop}

/-- At every depth, the result has what the dialect keeps. -/
theorem compileWithin (keeps : dialect.KeepsFields inner absent whole) (depth : Nat) :
    (dialect.compileWithin depth).Gives inner whole := by
  induction depth with
  | zero =>
      intro _ _ _ _ run
      cases run
  | succ depth ih =>
      intro schema hint scope compiled run
      rw [Dialect.compileWithin] at run
      obtain ⟨content, compiles, rfl⟩ := Traced.yields_andThen_answer.mp run
      exact (ih.compileCase keeps compiles).withNull keeps schema

/-- A compiled schema has the property of a record or that of an inner type, and all that comes
along are records. -/
theorem compile (keeps : dialect.KeepsFields inner absent whole) {name : String} {schema : Schema}
    {scope : Scope} {compiled : Compiled}
    (run : (dialect.compile name schema scope).Yields compiled) :
    compiled.Has (if schema.isRecord then whole else inner) whole := by
  have gives := keeps.compileWithin (schema.size + schemaBound scope + 1)
  unfold Dialect.compile at run
  dsimp only at run
  split at run
  · next isRecord =>
      rw [if_pos isRecord]
      exact gives.compileRecord keeps run
  · next other =>
      rw [if_neg other]
      exact gives run

end Dialect.KeepsFields

/-- What a dialect keeps holds of every type that it compiles. -/
theorem Dialect.Keeps.compile {dialect : Dialect} {inner whole : TypeExpr → Prop}
    (keeps : dialect.Keeps inner whole) {name : String} {schema : Schema} {scope : Scope}
    {compiled : Compiled} (run : (dialect.compile name schema scope).Yields compiled) :
    compiled.Has (if schema.isRecord then whole else inner) whole :=
  keeps.fields.compile run

end OpenApi
