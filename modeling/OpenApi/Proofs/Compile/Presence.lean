import OpenApi.Proofs.Compile.Independence
import OpenApi.Proofs.Compile.Marks
import OpenApi.Proofs.Compile.Spliced
import OpenApi.Proofs.Schema.Reading

/-!
# The fields of a record in all targets

The fields of a compiled record are those of its flattened schema, and as long as no base counts as
emitted later, a record is flattened to the same fields whether bases are inherited or not.  A target
that writes every type in its place answers whenever another target does (`Compiling.Follows`), so
all targets show the same fields, required in the same cases.
-/

namespace OpenApi

/-! ## Answers in place -/

/-- A schema was compiled somewhere, where all schemas count as emitted. -/
def Compiling.Answered (compile : Compiling) (schema : Schema) : Prop :=
  ∃ hint scope compiled, scope.defined = none ∧ (compile schema hint scope).Yields compiled

/-- A schema is compiled under every name and in every scope. -/
def Compiling.AnswersAlways (compile : Compiling) (schema : Schema) : Prop :=
  ∀ hint scope, ∃ compiled, (compile schema hint scope).Yields compiled

/-- One way of compiling answers everywhere once another has answered somewhere. -/
def Compiling.Follows (first second : Compiling) : Prop :=
  ∀ ⦃schema : Schema⦄, first.Answered schema → second.AnswersAlways schema

namespace Compiling

open Dialect

variable {source target : Dialect} {first second compile : Compiling} {schema : Schema}
  {name hint : String} {scope : Scope}

/-- A part that was compiled has an answer somewhere. -/
theorem answered_of_compilePart {compiled : Compiled} (all : scope.defined = none)
    (run : (source.compilePart compile schema hint scope).Yields compiled) :
    compile.Answered schema := by
  obtain ⟨inner, compiles, -⟩ := Traced.yields_andThen_answer.mp run
  exact ⟨hint, scope, inner, all, compiles⟩

/-- Taking names changes nothing about which schemas are defined. -/
theorem defined_taking {names : List String} : (scope.taking names).defined = scope.defined := by
  rw [Scope.taking_eq]

/-- Each of several parts was compiled. -/
theorem answered_of_compileParts {α : Type} {items : List α} {schemaOf : α → Schema}
    {hintOf : α → String} {compiled : List Compiled} (all : scope.defined = none)
    (run : (source.compileParts compile (items.map fun item => (schemaOf item, hintOf item))
      scope).Yields compiled) :
    ∀ item ∈ items, compile.Answered (schemaOf item) := by
  induction items generalizing scope compiled with
  | nil => exact fun item none => absurd none List.not_mem_nil
  | cons item rest ih =>
      rw [List.map_cons, Dialect.compileParts] at run
      obtain ⟨first, compiles, run⟩ := Traced.yields_andThen.mp run
      obtain ⟨others, compilesRest, -⟩ := Traced.yields_andThen_answer.mp run
      rw [List.forall_mem_cons]
      exact ⟨answered_of_compilePart all compiles, ih (defined_taking.trans all) compilesRest⟩

/-- A part that always has an answer has one in every dialect and scope. -/
theorem exists_compilePart (answers : compile.AnswersAlways schema) (dialect : Dialect) (hint : String)
    (scope : Scope) : ∃ compiled, (dialect.compilePart compile schema hint scope).Yields compiled := by
  obtain ⟨inner, compiles⟩ := answers hint scope
  exact ⟨_, Traced.yields_andThen_answer.mpr ⟨inner, compiles, rfl⟩⟩

/-- So it is for several parts. -/
theorem exists_compileParts {α : Type} {items : List α} {schemaOf : α → Schema}
    (each : ∀ item ∈ items, compile.AnswersAlways (schemaOf item)) (dialect : Dialect)
    (hintOf : α → String) (scope : Scope) :
    ∃ compiled, (dialect.compileParts compile (items.map fun item => (schemaOf item, hintOf item))
      scope).Yields compiled := by
  induction items generalizing scope with
  | nil => exact ⟨[], rfl⟩
  | cons item rest ih =>
      rw [List.forall_mem_cons] at each
      obtain ⟨first, compiles⟩ := exists_compilePart each.1 dialect (hintOf item) scope
      obtain ⟨others, compilesRest⟩ := ih each.2 (scope.taking first.auxiliaryNames)
      exact ⟨first :: others, Traced.yields_andThen.mpr ⟨first, compiles,
        Traced.yields_andThen_answer.mpr ⟨others, compilesRest, rfl⟩⟩⟩

namespace Follows

/-- Where one dialect makes a record, one that writes records in place does so, too. -/
theorem compileRecord (follows : Follows first second) (inPlace : target.InPlace)
    (joined : schema.isJoined) (all : scope.defined = none) {record : Compiled}
    (run : (source.compileRecord first schema name scope).Yields record) (other : String)
    (around : Scope) :
    ∃ answer, (target.compileRecord second schema other around).Yields answer := by
  obtain ⟨flat, properties, compiled, extras, further, steps⟩ := exists_recordRun run
  obtain ⟨structural, resolves, flattens⟩ := exists_flatten_structural all joined steps.flattened
  have named : namedProperties structural.properties = .ok properties :=
    resolves.properties ▸ steps.named
  have ofProperties : ∀ property ∈ properties, second.AnswersAlways property.2 := fun property member =>
    follows (answered_of_compileParts all steps.compiles property member)
  have ofExtras : ∀ extra ∈ structural.extras.zipIdx, second.AnswersAlways extra.1 := by
    intro extra member
    have held := resolves.extras.subset (List.fst_mem_of_mem_zipIdx member)
    rw [← List.zipIdx_map_fst 0 flat.extras] at held
    obtain ⟨numbered, stands, same⟩ := List.mem_map.mp held
    exact same ▸ follows
      (answered_of_compileParts (defined_taking.trans all) steps.compilesExtras numbered stands)
  have ofFurther (content : Schema) (stated : structural.additional = .values content) :
      second.AnswersAlways content := by
    have compilesFurther := steps.compilesFurther
    rw [← resolves.additional, stated] at compilesFurther
    obtain ⟨values, compiles, -⟩ := Traced.yields_andThen.mp compilesFurther
    exact follows (answered_of_compilePart
      (defined_taking.trans (defined_taking.trans all)) compiles)
  have assembled (fields : List (Field × Compiled)) (bases : List String) (extras : List Compiled)
      (additional : Additional Compiled) :
      ∃ answer, (target.assemble other fields bases extras additional).Yields answer := by
    obtain ⟨answer, same⟩ := inPlace.exists_assemble other fields bases extras additional
    exact ⟨answer, same ▸ rfl⟩
  unfold Dialect.compileRecord
  rw [inPlace.structural, flattens, Traced.answer_andThen, named, Traced.ofExcept_ok,
    Traced.answer_andThen]
  refine Traced.exists_yields_andThen (exists_compileParts ofProperties target _ around)
    fun own => ?_
  refine Traced.exists_yields_andThen (exists_compileParts ofExtras target _ _) fun extras => ?_
  split
  · next content stated =>
      exact Traced.exists_yields_andThen (exists_compilePart (ofFurther content stated) target _ _)
        fun values => assembled _ _ _ _
  · exact assembled _ _ _ _
  · exact assembled _ _ _ _

/-- Nested records follow in the same way. -/
theorem compileNested (follows : Follows first second) (inPlace : target.InPlace)
    (joined : schema.isJoined) (all : scope.defined = none) {compiled : Compiled}
    (run : (source.compileNested first schema hint scope).Yields compiled) (other : String)
    (around : Scope) :
    ∃ answer, (target.compileNested second schema other around).Yields answer := by
  have inner : ∃ name names record,
      (source.compileRecord first schema name (scope.taking names)).Yields record := by
    unfold Dialect.compileNested at run
    split at run
    · obtain ⟨_, _, run⟩ := Traced.yields_andThen.mp run
      obtain ⟨record, compiles, -⟩ := Traced.yields_andThen_answer.mp run
      exact ⟨_, _, record, compiles⟩
    · exact ⟨hint, [], compiled, run⟩
  obtain ⟨name, names, record, compiles⟩ := inner
  unfold Dialect.compileNested
  rw [inPlace.nested, if_neg Bool.false_ne_true]
  exact follows.compileRecord inPlace joined (defined_taking.trans all) compiles other around

/-- Compositions follow in the same way. -/
theorem compileComposition (follows : Follows first second) (inPlace : target.InPlace)
    {traits : Traits} {kind : Composition} {branches : List Schema} (all : scope.defined = none)
    {compiled : Compiled}
    (run : (source.compileComposition first (.composition traits kind branches) kind branches hint
      scope).Yields compiled) (other : String) (around : Scope) :
    ∃ answer, (target.compileComposition second (.composition traits kind branches) kind branches
      other around).Yields answer := by
  unfold Dialect.compileComposition at run ⊢
  split at run
  · exact ⟨_, rfl⟩
  · exact exists_compilePart (follows (answered_of_compilePart all run)) target other around
  · split at run
    · next joined =>
        rw [if_pos joined]
        exact follows.compileNested inPlace (joined ▸ rfl) all run other around
    · next apart =>
        rw [if_neg apart]
        obtain ⟨parts, compiles, -⟩ := Traced.yields_andThen_answer.mp run
        have answers : ∀ branch ∈ branches.zipIdx, second.AnswersAlways branch.1 :=
          fun branch member => follows (answered_of_compileParts all compiles branch member)
        exact Traced.exists_yields_andThen (exists_compileParts answers target _ around)
          fun _ => ⟨_, rfl⟩

/-- Every kind of schema follows in the same way. -/
theorem compileCase (follows : Follows first second) (inPlace : target.InPlace)
    (all : scope.defined = none) {compiled : Compiled}
    (run : (source.compileCase first schema hint scope).Yields compiled) (other : String)
    (around : Scope) : ∃ answer, (target.compileCase second schema other around).Yields answer := by
  cases schema with
  | reference | primitive | unknown => exact ⟨_, rfl⟩
  | enumeration traits values =>
      rw [Dialect.compileCase] at run ⊢
      split at run
      · next writable =>
          rw [if_pos writable]
          exact ⟨_, rfl⟩
      · cases run
  | composition traits kind branches => exact follows.compileComposition inPlace all run other around
  | array traits items =>
      cases items with
      | none => exact ⟨_, rfl⟩
      | some items =>
          obtain ⟨inner, compiles, -⟩ := Traced.yields_andThen_answer.mp run
          have answers := follows (answered_of_compilePart all compiles)
          exact Traced.exists_yields_andThen (exists_compilePart answers target _ around)
            fun _ => ⟨_, rfl⟩
  | object traits properties required additional =>
      cases properties with
      | some properties => exact follows.compileNested inPlace rfl all run other around
      | none =>
          cases additional with
          | values content =>
              obtain ⟨inner, compiles, -⟩ := Traced.yields_andThen_answer.mp run
              have answers := follows (answered_of_compilePart all compiles)
              exact Traced.exists_yields_andThen (exists_compilePart answers target _ around)
                fun _ => ⟨_, rfl⟩
          | unstated | allowed => exact ⟨_, rfl⟩

end Follows

end Compiling

namespace Dialect

variable {source target : Dialect}

/-- Within the same depth a target that writes types in place answers whenever another one does. -/
theorem InPlace.follows_compileWithin (inPlace : target.InPlace) (depth : Nat) :
    Compiling.Follows (source.compileWithin depth) (target.compileWithin depth) := by
  induction depth with
  | zero =>
      rintro schema ⟨_, _, _, _, run⟩
      cases run
  | succ depth ih =>
      rintro schema ⟨hint, scope, compiled, all, run⟩ other around
      rw [compileWithin] at run ⊢
      obtain ⟨inner, compiles, -⟩ := Traced.yields_andThen_answer.mp run
      exact Traced.exists_yields_andThen (ih.compileCase inPlace all compiles other around)
        fun _ => ⟨_, rfl⟩

/-- A target that writes types in place compiles every schema that another one compiles. -/
theorem InPlace.exists_compile_of_yields (inPlace : target.InPlace) {name : String}
    {schema : Schema} {scope : Scope} {compiled : Compiled} (all : scope.defined = none)
    (run : (source.compile name schema scope).Yields compiled) :
    ∃ answer, (target.compile name schema scope).Yields answer := by
  have follows : Compiling.Follows
      (source.compileWithin (schema.size + schemaBound scope + 1))
      (target.compileWithin (schema.size + schemaBound scope + 1)) :=
    inPlace.follows_compileWithin _
  by_cases isRecord : schema.isRecord
  · rw [compile_of_isRecord isRecord] at run ⊢
    exact follows.compileRecord inPlace (Schema.isJoined_of_isRecord isRecord) all run name scope
  · rw [compile_of_not_isRecord (Bool.eq_false_iff.mpr isRecord)] at run ⊢
    exact follows ⟨name, scope, compiled, all, run⟩ name scope

end Dialect

/-! ## Fields of flattened records -/

/-- The names that an object requires. -/
def Schema.requiredKeys : Schema → List Scalar
  | object _ _ required _ => required
  | _ => []

/-- One of the objects that a record is put together from requires a name. -/
def Schema.Requires (schema : Schema) (name : String) : Prop :=
  ∃ branch ∈ schema.spliced, .text name ∈ branch.requiredKeys

/-- A text is among names that count as the same only if it is one of them. -/
theorem any_same_text_iff {names : List Scalar} {name : String} :
    names.any (Scalar.same (.text name)) ↔ .text name ∈ names := by
  rw [List.any_eq_true]
  constructor
  · rintro ⟨key, member, same⟩
    rw [Scalar.same_comm] at same
    exact Scalar.same_text_iff.mp same ▸ member
  · intro member
    exact ⟨.text name, member, Scalar.same_text_iff.mpr rfl⟩

/-- The leaf of a branch requires the keys that the branch does. -/
theorem Schema.required_leaf (branch : Schema) : branch.leaf.required = branch.requiredKeys := by
  cases branch with
  | reference traits pointer =>
      unfold leaf
      dsimp only
      split <;> rfl
  | object | enumeration | composition | primitive | array | unknown => rfl

section Flattened

variable {scope : Scope} {nominal : Bool} {copying : List String} {schema : Schema}
  {flat : FlatRecord}

/-- A flattened record requires what one of its objects requires. -/
theorem requires_iff_of_flatten (all : scope.defined = none) (joined : schema.isJoined)
    (flattens : (flatten scope nominal copying schema).Yields flat) (name : String) :
    flat.required.any (Scalar.same (.text name)) ↔ schema.Requires name := by
  obtain ⟨structural, resolves, same⟩ := exists_flatten_structural all joined flattens
  rw [← resolves.required]
  have structurally := same scope copying
  cases schema with
  | object traits properties required additional =>
      rw [flatten] at structurally
      cases structurally
      rw [any_same_text_iff]
      simp [Schema.Requires, Schema.spliced, Schema.requiredKeys, FlatRecord.ofObject]
  | composition traits kind branches =>
      rw [flatten_composition_structural] at structurally
      cases structurally
      cases kind with
      | oneOf | anyOf => cases joined
      | allOf =>
          simp only [FlatRecord.ofLeaves]
          rw [any_eraseDupsBy Scalar.same_trans, any_same_text_iff, List.mem_flatMap]
          simp only [List.mem_map, Schema.Requires, Schema.spliced]
          constructor
          · rintro ⟨_, ⟨branch, member, rfl⟩, requires⟩
            exact ⟨branch, member, branch.required_leaf ▸ requires⟩
          · rintro ⟨branch, member, requires⟩
            exact ⟨_, ⟨branch, member, rfl⟩, branch.required_leaf ▸ requires⟩
  | reference | enumeration | primitive | array | unknown => cases joined

/-- The properties of a flattened record have different keys. -/
theorem pairwise_of_flatten (keyed : schema.IsKeyed) (joined : schema.isJoined)
    (flattens : (flatten scope nominal copying schema).Yields flat) :
    (flat.properties.map Prod.fst).Pairwise fun first second =>
      Scalar.same second first = false := by
  cases schema with
  | object traits properties required additional =>
      rw [flatten, Traced.yields_answer] at flattens
      subst flattens
      exact List.pairwise_map.mpr keyed.1
  | composition traits kind branches =>
      rw [flatten_composition] at flattens
      obtain ⟨listed, _, rfl⟩ := Traced.yields_andThen_answer.mp flattens
      simp only [FlatRecord.ofLeaves]
      rw [Keyed.map_fst_lastValues]
      exact pairwise_eraseDupsBy
  | reference | enumeration | primitive | array | unknown => cases joined

end Flattened

/-! ## Fields of compiled records -/

/-- What a record says of a field besides its type. -/
def Field.presence (field : Field) : String × Bool × Option String :=
  (field.name, field.required, field.description)

namespace Dialect

variable {dialect : Dialect} {compile : Compiling} {schema : Schema} {name : String}
  {scope : Scope} {record : Compiled}

/-- What a compiled property says of itself besides its type. -/
theorem presence_zipWith (dialect : Dialect) (required : List Scalar)
    {properties : List (String × Schema)} {compiled : List Compiled}
    (length : compiled.length = properties.length) :
    ((List.zipWith (dialect.field required) properties compiled).map Prod.fst).map
        Field.presence =
      properties.map fun property => (property.1, required.any (Scalar.same (.text property.1)),
        property.2.description) := by
  induction properties generalizing compiled with
  | nil => rfl
  | cons property rest ih =>
      cases compiled with
      | nil => cases length
      | cons first others =>
          rw [List.zipWith_cons_cons, List.map_cons, List.map_cons, List.map_cons,
            ih (Nat.succ.inj length)]
          rfl

/-- A compiled record has the properties of the flattened schema for its fields. -/
theorem exists_presence_of_compileRecord
    (run : (dialect.compileRecord compile schema name scope).Yields record) :
    ∃ flat properties, (flatten scope dialect.nominalBases [] schema).Yields flat ∧
      namedProperties flat.properties = .ok properties ∧ record.type.kind = .object ∧
      record.type.fields.map Field.presence = properties.map fun property =>
        (property.1, flat.required.any (Scalar.same (.text property.1)),
          property.2.description) := by
  unfold compileRecord at run
  obtain ⟨flat, flattened, run⟩ := Traced.yields_andThen.mp run
  obtain ⟨properties, named, run⟩ := Traced.yields_andThen.mp run
  obtain ⟨compiled, compiles, run⟩ := Traced.yields_andThen.mp run
  obtain ⟨extras, _, run⟩ := Traced.yields_andThen.mp run
  have length := length_of_compileParts compiles
  rw [List.length_map] at length
  have assembled : ∃ bases additional, (dialect.assemble name
      (List.zipWith (dialect.field flat.required) properties compiled) bases extras
        additional).Yields record := by
    split at run
    · obtain ⟨values, _, run⟩ := Traced.yields_andThen.mp run
      exact ⟨_, _, run⟩
    · exact ⟨_, _, run⟩
    · exact ⟨_, _, run⟩
  obtain ⟨bases, additional, built⟩ := assembled
  obtain ⟨kind, fields, -⟩ := assemble_yields built
  exact ⟨flat, properties, flattened, named, kind,
    fields ▸ presence_zipWith dialect flat.required length⟩

/-- A type shows a record: its fields have different names, a field is required exactly if one of the
objects of the record requires it, and marked exactly if it is not required. -/
structure Presents (dialect : Dialect) (schema : Schema) (type : TypeExpr) : Prop where
  kind : type.kind = .object
  names : (type.fields.map Field.name).Nodup
  required : ∀ field ∈ type.fields, field.required ↔ schema.Requires field.name
  marked : ∀ field ∈ type.fields, field.required = false ↔ dialect.Marks field.expression

/-- Every target that tells marked fields apart shows a record so. -/
theorem presents_of_compile {form : String → Prop} (forms : dialect.Forms form)
    (closed : dialect.KeepsClosed) (isRecord : schema.isRecord) (keyed : schema.IsKeyed)
    (all : scope.defined = none) (run : (dialect.compile name schema scope).Yields record) :
    dialect.Presents schema record.type := by
  have joined := Schema.isJoined_of_isRecord isRecord
  have shows := ((forms.keepsFields closed).compile run).type
  rw [if_pos isRecord] at shows
  rw [compile_of_isRecord isRecord] at run
  obtain ⟨flat, properties, flattened, named, kind, presence⟩ :=
    exists_presence_of_compileRecord run
  refine ⟨kind, ?_, ?_, shows.fields⟩
  · have names : record.type.fields.map Field.name = properties.map Prod.fst := by
      have firsts := congrArg (List.map Prod.fst) presence
      rw [List.map_map, List.map_map] at firsts
      exact firsts
    have differ := pairwise_of_flatten keyed joined flattened
    rw [namedProperties_eq_ok_iff.mp named, List.map_map] at differ
    rw [names, List.Nodup, List.pairwise_map]
    refine (List.pairwise_map.mp differ).imp fun apart same => ?_
    rw [Function.comp_apply, Function.comp_apply, same] at apart
    exact absurd (Scalar.same_text_iff.mpr rfl) (Bool.eq_false_iff.mp apart)
  · intro field member
    have stated : field.presence ∈ record.type.fields.map Field.presence :=
      List.mem_map_of_mem member
    rw [presence] at stated
    obtain ⟨property, _, same⟩ := List.mem_map.mp stated
    obtain ⟨sameName, sameRequired, -⟩ :
        property.1 = field.name ∧ _ = field.required ∧ _ = field.description := by
      simpa [Field.presence] using same
    rw [← sameRequired, ← sameName]
    exact requires_iff_of_flatten all joined flattened property.1

/-- With inheritance and without a record has the same fields. -/
theorem InPlace.presence_eq_of_compile {source target : Dialect} (inPlace : target.InPlace)
    {object : Compiled} (isRecord : schema.isRecord) (all : scope.defined = none)
    (run : (source.compile name schema scope).Yields record)
    (runInPlace : (target.compile name schema scope).Yields object) :
    object.type.fields.map Field.presence = record.type.fields.map Field.presence := by
  rw [compile_of_isRecord isRecord] at run runInPlace
  obtain ⟨flat, properties, flattened, named, -, presence⟩ := exists_presence_of_compileRecord run
  obtain ⟨flatInPlace, others, flattenedInPlace, namedInPlace, -, presenceInPlace⟩ :=
    exists_presence_of_compileRecord runInPlace
  obtain ⟨structural, resolves, flattens⟩ :=
    exists_flatten_structural all (Schema.isJoined_of_isRecord isRecord) flattened
  rw [inPlace.structural, flattens, Traced.yields_answer] at flattenedInPlace
  subst flattenedInPlace
  rw [resolves.properties, named] at namedInPlace
  cases namedInPlace
  rw [presence, presenceInPlace, resolves.required]

end Dialect

/-- The properties that a raw schema declares have different keys. -/
def Value.DeclaresOnce (raw : Value) : Prop :=
  ∀ entries declared : Mapping, raw = Value.map entries →
    entries.find? "properties" = some (.map declared) →
    declared.Pairwise fun first second => Scalar.same second.1 first.1 = false

/-- What is read from a value without repeated keys says nothing twice. -/
theorem Schema.isKeyed_of_declaresOnce {raw : Value} {schema : Schema} (once : raw.DeclaresOnce)
    (read : Schema.ofValue raw = .ok schema) : schema.IsKeyed := by
  cases raw with
  | map entries =>
      exact isKeyed_of_ofValue (fun declared found => once entries declared rfl found) read
  | scalar | list =>
      rw [Schema.ofValue] at read
      · cases read
        trivial
      all_goals simp

/-- **All targets show the same fields of a record.** Take a raw schema that is read as a record, and
let all schemas count as emitted.  Whenever it is compiled to a TypedDict class, under any name and
in any document, it is compiled to a Zod object under the same name, too.  Both have the same fields
in the same order, required in the same cases and with the same descriptions.  In both the names of
the fields differ, a field is required exactly if one of the objects that the record is put together
from requires it, and its expression is marked as that of a property that may be absent exactly if it
is not required. -/
theorem targets_agree_on_fields (suffix name : String) (raw : Value) (schema : Schema)
    (schemas : Mapping) (reserved : List String) (names : List (String × String)) (record : Compiled)
    (once : raw.DeclaresOnce) (read : Schema.ofValue raw = .ok schema) (isRecord : schema.isRecord)
    (run : (TypedDict.dialect.compile name schema
      (Scope.around name schemas reserved none names)).Yields record) :
    ∃ object, ((Zod.dialect suffix).compile name schema
        (Scope.around name schemas reserved none names)).Yields object ∧
      object.type.fields.map Field.presence = record.type.fields.map Field.presence ∧
      TypedDict.dialect.Presents schema record.type ∧
      (Zod.dialect suffix).Presents schema object.type := by
  have keyed := Schema.isKeyed_of_declaresOnce once read
  have inPlace := Zod.inPlace_dialect suffix
  obtain ⟨object, compiles⟩ := inPlace.exists_compile_of_yields rfl run
  exact ⟨object, compiles, inPlace.presence_eq_of_compile isRecord rfl run compiles,
    Dialect.presents_of_compile TypedDict.forms_dialect TypedDict.keepsClosed_dialect isRecord keyed
      rfl run,
    Dialect.presents_of_compile (Zod.forms_dialect suffix) (Zod.keepsClosed_dialect suffix) isRecord
      keyed rfl compiles⟩

/-- A raw object that declares two properties. -/
def declaring : Value :=
  .map [(.text "properties", .map [(.text "name", .map [(.text "type", .text "string")]),
    (.text "tag", .map [])])]

/-- A raw object that requires one of them. -/
def requiring : Value := .map [(.text "required", .list [.text "name"])]

/-- What the two are read as, composed. -/
def labelled : Schema :=
  .composition {} .allOf [
    .object {} (some [(.text "name", .primitive {} .string), (.text "tag", .unknown {})]) []
      .unstated,
    .object {} none [.text "name"] .unstated]

/-- The composition is read with both its branches. -/
theorem ofValue_labelled :
    Schema.ofValue (.map [(.text "allOf", .list [declaring, requiring])]) = .ok labelled := by
  have text : Schema.ofValue (.map [(.text "type", .text "string")]) =
      .ok (.primitive {} .string) := by cbv
  have declares : Schema.ofValue declaring = .ok (.object {} (some
      [(.text "name", .primitive {} .string), (.text "tag", .unknown {})]) [] .unstated) := by
    apply Schema.ofValue_of_properties
    simp [Schema.ofEntries, text, Schema.ofValue_nil, bind, Except.bind, pure, Except.pure]
  have requires : Schema.ofValue requiring = .ok (.object {} none [.text "name"] .unstated) := by
    rw [requiring, Schema.ofValue_of_keyword (by simp) (by simp)
      (by simp [Schema.composed?, Composition.keyword]) (by simp [Schema.statedType])
      (by simp [Schema.hasObjectKeyword, Schema.objectKeywords, Mapping.has])]
    exact Schema.ofObject_of_required (by simp) (by simp) (by cbv)
  have branches : Schema.ofItems [declaring, requiring] = .ok
      [.object {} (some [(.text "name", .primitive {} .string), (.text "tag", .unknown {})]) []
        .unstated, .object {} none [.text "name"] .unstated] := by
    rw [Schema.ofItems, declares, Schema.ofItems, requires, Schema.ofItems]
    rfl
  exact Schema.ofValue_of_branches (by simp) (by simp)
    (by simp [Schema.composed?, Composition.keyword])
    (by simp [Schema.hasObjectKeyword, Schema.objectKeywords, Mapping.has]) branches

theorem targets_agree_on_fields_labelled :
    (Value.map [(.text "allOf", .list [declaring, requiring])]).DeclaresOnce ∧
      labelled.isRecord ∧ ∃ record object,
        (TypedDict.dialect.compile "Labelled" labelled
          (Scope.around "Labelled" [] [] none [])).Yields record ∧
        ((Zod.dialect "Schema").compile "Labelled" labelled
          (Scope.around "Labelled" [] [] none [])).Yields object ∧
        record.type.fields.map Field.expression = ["str", "NotRequired[Any]"] ∧
        object.type.fields.map Field.presence = record.type.fields.map Field.presence ∧
        TypedDict.dialect.Presents labelled record.type ∧
        (Zod.dialect "Schema").Presents labelled object.type := by
  have once : (Value.map [(.text "allOf", .list [declaring, requiring])]).DeclaresOnce := by
    rintro entries declared ⟨⟩ found
    cases found
  have isRecord : labelled.isRecord := by simp [labelled, Schema.isRecord]
  have built : (TypedDict.dialect.compile "Labelled" labelled
      (Scope.around "Labelled" [] [] none [])).outcome.toOption.map
        (fun record => record.type.fields.map Field.expression) =
          some ["str", "NotRequired[Any]"] := by cbv
  cases held : (TypedDict.dialect.compile "Labelled" labelled
      (Scope.around "Labelled" [] [] none [])).outcome with
  | error fault => simp [held, Except.toOption] at built
  | ok record =>
      rw [held] at built
      obtain ⟨object, compiles, agree⟩ := targets_agree_on_fields "Schema" "Labelled" _ labelled []
        [] [] record once ofValue_labelled isRecord held
      exact ⟨once, isRecord, record, object, held, compiles, Option.some.inj built, agree⟩

end OpenApi
