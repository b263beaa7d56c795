import OpenApi.Proofs.Compile.Hints
import OpenApi.Proofs.Compile.Referring

/-!
# Names in annotations

An annotation mentions classes by forward references, which are quoted identifiers of names
(`Annotates`).  A type is compiled from known names: the one it is given, the names under which
schemas are emitted that are pointed to, and what continues these.  Its forward references and its
bases are then identifiers of known names, and so are those of all classes that come along
(`annotated_of_compile`).
-/

namespace OpenApi.TypedDict

open Identifier (Continues)

/-! ## Annotations -/

/-- The types of the language and of the typing library that are applied to annotations. -/
def forms : List String := ["list", "dict", "Union", "Optional", "NotRequired"]

/-- An annotation whose forward references are quoted identifiers of known names. -/
inductive Annotates (known : String → Prop) : String → Prop
  | anything : Annotates known "Any"
  | primitive (kind : Primitive) : Annotates known (primitive kind)
  | listed (values : List Value) : Annotates known (enumeration values).text
  | forward {name : String} (isKnown : known name) : Annotates known (reference name)
  | applied {form : String} {arguments : List String} (isForm : form ∈ forms)
      (each : ∀ argument ∈ arguments, Annotates known argument) :
      Annotates known (generic form arguments)

/-- A type that stands in annotations. -/
structure IsExpression (known : String → Prop) (type : TypeExpr) : Prop where
  kind : type.kind = .typeAlias
  annotates : Annotates known type.expression

/-- A type that becomes a class: its fields are annotated, and it builds on known names. -/
structure IsRecord (known : String → Prop) (type : TypeExpr) : Prop where
  kind : type.kind = .object
  annotated : ∀ field ∈ type.fields, Annotates known field.expression
  bases : ∀ base ∈ type.bases, known base

/-- A type in an annotation, and the classes that come along with it. -/
abbrev Annotated (known : String → Prop) (compiled : Compiled) : Prop :=
  compiled.Has (IsExpression known) (IsRecord known)

variable {known : String → Prop} {compiled : Compiled}

namespace Annotated

/-- A type around an annotation is one. -/
theorem applied {form : String} {imports : List String} (isForm : form ∈ forms)
    (annotated : Annotated known compiled) :
    Annotated known ((⟨generic form [compiled.expression], imports⟩ : Spelling).combine [compiled]) := by
  refine annotated.around ⟨rfl, .applied isForm fun argument member => ?_⟩
  exact List.mem_singleton.mp member ▸ annotated.type.annotates

/-- A mapping to annotated values is one. -/
theorem mapOf (annotated : Annotated known compiled) :
    Annotated known (dialect.mapOf compiled) := by
  refine annotated.around ⟨rfl, .applied (by decide) ?_⟩
  rw [List.forall_mem_cons]
  exact ⟨.primitive .string, fun argument member =>
    List.mem_singleton.mp member ▸ annotated.type.annotates⟩

/-- So is the type that allows everything. -/
theorem anything : Annotated known dialect.anything :=
  .alone ⟨rfl, .anything⟩

/-- Null may be allowed besides. -/
theorem withNull (annotated : Annotated known compiled) (schema : Schema) :
    Annotated known (dialect.withNull schema compiled) := by
  unfold Dialect.withNull
  split
  · exact annotated.applied (by decide)
  · exact annotated

/-- The type of a field is an annotation, whether the field is required or not. -/
theorem field (annotated : Annotated known compiled) (required : List Scalar)
    (property : String × Schema) :
    (dialect.field required property compiled).1.expression =
        (dialect.field required property compiled).2.expression ∧
      Annotated known (dialect.field required property compiled).2 := by
  unfold Dialect.field
  refine ⟨rfl, ?_⟩
  dsimp only
  split
  · exact annotated
  · exact annotated.applied (by decide)

/-- A union of annotations is one. -/
theorem union {branches : List Compiled} (each : ∀ branch ∈ branches, Annotated known branch) :
    Annotated known ((dialect.union (branches.map (·.expression))).combine branches) := by
  refine .combine ⟨rfl, ?_⟩ each
  have kept : ∀ expression ∈ (branches.map (·.expression)).eraseDups,
      Annotates known expression := by
    intro expression member
    obtain ⟨branch, held, rfl⟩ := List.mem_map.mp (List.mem_eraseDups.mp member)
    exact (each branch held).type.annotates
  change Annotates known (TypedDict.union _).text
  unfold TypedDict.union
  split
  · next expression single => exact kept expression (single ▸ List.mem_cons_self)
  · exact .applied (by decide) kept

end Annotated

/-! ## Known names -/

/-- What is known around a part that is compiled: whatever continues a known name is known, and so
is the name under which a schema is emitted that is pointed to. -/
structure Knows (known : String → Prop) (root : Schema) (scope : Scope) : Prop where
  continued : ∀ {name longer : String}, known name → Continues longer name → known longer
  emitted : ∀ name, Cited scope.schemas root name → known (scope.emittedName name)

/-- Taking more names makes nothing unknown. -/
theorem Knows.taking {root : Schema} {scope : Scope} (knows : Knows known root scope)
    (names : List String) : Knows known root (scope.taking names) where
  continued := knows.continued
  emitted name cited := by
    rw [Scope.schemas_taking] at cited
    rw [Scope.emittedName_taking]
    exact knows.emitted name cited

/-- A way of compiling yields annotations of known names. -/
def Annotating (known : String → Prop) (root : Schema) (compile : Compiling) : Prop :=
  ∀ ⦃schema : Schema⦄ ⦃hint : String⦄ ⦃scope : Scope⦄ ⦃compiled : Compiled⦄,
    Knows known root scope → schema.PartOf scope.schemas root → known hint →
      (compile schema hint scope).Yields compiled → Annotated known compiled

namespace Annotating

open Dialect

variable {root schema : Schema} {compile : Compiling} {scope : Scope} {name : String}

/-- A part is annotated. -/
theorem compilePart (annotating : Annotating known root compile) (knows : Knows known root scope)
    (part : schema.PartOf scope.schemas root) (isKnown : known name)
    (run : (dialect.compilePart compile schema name scope).Yields compiled) :
    Annotated known compiled := by
  obtain ⟨inner, compiles, rfl⟩ := Traced.yields_andThen_answer.mp run
  exact annotating knows part isKnown compiles

/-- Each of several parts is annotated. -/
theorem compileParts (annotating : Annotating known root compile) (knows : Knows known root scope)
    {parts : List (Schema × String)} {all : List Compiled}
    (each : ∀ part ∈ parts, part.1.PartOf scope.schemas root) (hinted : ∀ part ∈ parts, known part.2)
    (run : (dialect.compileParts compile parts scope).Yields all) :
    ∀ compiled ∈ all, Annotated known compiled := by
  intro compiled member
  obtain ⟨part, listed, names, compiles⟩ := exists_part_of_compileParts run compiled member
  refine annotating.compilePart (knows.taking names) ?_ (hinted part listed) compiles
  rw [Scope.schemas_taking]
  exact each part listed

/-- A record is a class if its fields are annotated and its bases known; it has no other parts. -/
theorem assemble {fields : List (Field × Compiled)} {bases : List String} {extras : List Compiled}
    {additional : Additional Compiled} (ofFields : ∀ field ∈ fields,
      field.1.expression = field.2.expression ∧ Annotated known field.2)
    (ofBases : ∀ base ∈ bases, known base)
    (run : (dialect.assemble name fields bases extras additional).Yields compiled) :
    compiled.Has (IsRecord known) (IsRecord known) := by
  rw [Traced.Yields, outcome_assemble] at run
  obtain rfl := Except.ok.inj run
  rw [if_pos (show dialect.fieldsOnly = true from rfl), List.append_nil]
  refine ⟨⟨rfl, fun field member => ?_, ofBases⟩, Compiled.Has.auxiliaryOf fun part member => ?_⟩
  · obtain ⟨pair, held, rfl⟩ := List.mem_map.mp member
    exact (ofFields pair held).1 ▸ (ofFields pair held).2.type.annotates
  · obtain ⟨pair, held, rfl⟩ := List.mem_map.mp member
    exact (ofFields pair held).2.auxiliary

/-- A record has annotated fields, and so have the records below it. -/
theorem compileRecord (annotating : Annotating known root compile) (knows : Knows known root scope)
    (part : schema.PartOf scope.schemas root) (isKnown : known name) (isRecord : schema.isRecord)
    (run : (dialect.compileRecord compile schema name scope).Yields compiled) :
    compiled.Has (IsRecord known) (IsRecord known) := by
  obtain ⟨flat, properties, own, extras, content, steps, assembled⟩ := exists_assembled run
  have flattens := flattens_of_yields steps.flattened
  have parts := flattens.partsOf part.operands
  have ofFields : ∀ field ∈ List.zipWith (dialect.field flat.required) properties own,
      field.1.expression = field.2.expression ∧ Annotated known field.2 := by
    intro field member
    obtain ⟨place, bound, rfl⟩ := List.getElem_of_mem member
    rw [List.getElem_zipWith]
    refine Annotated.field ?_ _ _
    refine annotating.compileParts knows (partOf_of_property parts steps.named)
      (fun hinted listed => ?_) steps.compiles _ (List.getElem_mem _)
    obtain ⟨property, _, rfl⟩ := List.mem_map.mp listed
    exact knows.continued isKnown (.pascalCase name property.1)
  have ofBases : ∀ emitted ∈ flat.bases.map scope.emittedName, known emitted := by
    intro emitted member
    obtain ⟨base, held, rfl⟩ := List.mem_map.mp member
    have builds : dialect.BuildsOn scope root base := ⟨schema, flat, part, isRecord, flattens, held⟩
    exact knows.emitted base builds.cited
  exact assemble ofFields ofBases assembled

/-- A nested record is mentioned by the name that it is given, which continues the hint. -/
theorem compileNested (annotating : Annotating known root compile) (knows : Knows known root scope)
    (part : schema.PartOf scope.schemas root) (isKnown : known name) (isRecord : schema.isRecord)
    (run : (dialect.compileNested compile schema name scope).Yields compiled) :
    Annotated known compiled := by
  rw [Dialect.compileNested, if_pos (show dialect.namesNested = true from rfl)] at run
  obtain ⟨_, _, run⟩ := Traced.yields_andThen.mp run
  obtain ⟨record, compiles, rfl⟩ := Traced.yields_andThen_answer.mp run
  have isUnique := knows.continued isKnown (.unique name scope.taken)
  have has := annotating.compileRecord (knows.taking _) (by rwa [Scope.schemas_taking]) isUnique
    isRecord compiles
  refine ⟨⟨rfl, .forward isUnique⟩, fun definition member => ?_⟩
  rcases List.mem_append.mp member with early | last
  · exact has.auxiliary definition early
  · exact List.mem_singleton.mp last ▸ has.type

/-- A reference names what is known. -/
theorem compileReference (knows : Knows known root scope) {traits : Traits} {pointer : String}
    (part : (Schema.reference traits pointer).PartOf scope.schemas root) :
    Annotated known (dialect.compileReference pointer scope) := by
  unfold Dialect.compileReference
  split
  · exact .anything
  · next name pointed =>
      refine ⟨⟨rfl, .forward (knows.emitted name ⟨traits, pointer, part, pointed⟩)⟩, ?_⟩
      exact fun _ none => absurd none List.not_mem_nil

/-- Every kind of schema is annotated. -/
theorem compileCase (annotating : Annotating known root compile) (knows : Knows known root scope)
    (part : schema.PartOf scope.schemas root) (isKnown : known name)
    (run : (dialect.compileCase compile schema name scope).Yields compiled) :
    Annotated known compiled := by
  have hinted {word : String} (isTail : Identifier.IsTail word.toList) : known (name ++ word) :=
    knows.continued isKnown (.append isTail)
  cases caseRun_of_yields run with
  | reference => exact compileReference knows part
  | @enumeration _ values => exact .alone ⟨rfl, .listed values⟩
  | @primitive _ kind => exact .alone ⟨rfl, .primitive kind⟩
  | anything => exact .anything
  | list => exact Annotated.anything.applied (by decide)
  | map => exact Annotated.anything.mapOf
  | listOf compiles =>
      exact (annotating.compilePart knows (part.within (.items (.self _))) (hinted (by decide))
        compiles).applied (by decide)
  | mapOf compiles =>
      exact (annotating.compilePart knows (part.within (.content (.self _))) (hinted (by decide))
        compiles).mapOf
  | single compiles =>
      exact annotating.compilePart knows (part.operands _ List.mem_cons_self) isKnown compiles
  | union compiles =>
      refine .union (annotating.compileParts knows (partOf_of_numbered part.operands)
        (fun option listed => ?_) compiles)
      obtain ⟨branch, _, rfl⟩ := List.mem_map.mp listed
      exact knows.continued isKnown
        ((Continues.numbered (name ++ "Option") (branch.2 + 1)).trans (.append (by decide)))
  | record isRecord compiles => exact annotating.compileNested knows part isKnown isRecord compiles

end Annotating

/-- At every depth, the result is annotated. -/
theorem annotating_compileWithin (root : Schema) (depth : Nat) :
    Annotating known root (dialect.compileWithin depth) := by
  induction depth with
  | zero => exact fun schema hint scope compiled knows part isKnown run =>
      (Traced.yields_fail.mp run).elim
  | succ depth ih =>
      intro schema hint scope compiled knows part isKnown run
      obtain ⟨inner, compiles, rfl⟩ := Traced.yields_andThen_answer.mp run
      exact (ih.compileCase knows part isKnown compiles).withNull schema

/-- **Names in annotations.** A schema that is compiled under a known name becomes a class or an
annotation of known names, and what comes along are such classes, under known names. -/
theorem annotated_of_compile {name : String} {schema : Schema} {scope : Scope}
    (knows : Knows known schema scope) (isKnown : known name)
    (run : (dialect.compile name schema scope).Yields compiled) :
    (IsRecord known compiled.type ∨ IsExpression known compiled.type) ∧
      ∀ definition ∈ compiled.auxiliary, known definition.name ∧ IsRecord known definition.type := by
  have annotating : Annotating known schema
      (dialect.compileWithin (schema.size + Dialect.schemaBound scope + 1)) :=
    annotating_compileWithin schema _
  have whole : schema.PartOf scope.schemas schema := .inl (.self schema)
  have named : ∀ definition ∈ compiled.auxiliary, known definition.name := fun definition member =>
    knows.continued isKnown (Dialect.namesAfter_of_compile run definition member).2
  unfold Dialect.compile at run
  dsimp only at run
  split at run
  · next isRecord =>
      have has := annotating.compileRecord knows whole isKnown isRecord run
      exact ⟨.inl has.type, fun definition member =>
        ⟨named definition member, has.auxiliary definition member⟩⟩
  · have has := annotating knows whole isKnown run
    exact ⟨.inr has.type, fun definition member =>
      ⟨named definition member, has.auxiliary definition member⟩⟩

end OpenApi.TypedDict
