import OpenApi.Proofs.Compile.Aliases
import OpenApi.Proofs.Compile.Built
import OpenApi.Proofs.Emission.Inheritance
import OpenApi.Proofs.Reference
import OpenApi.Target

/-!
# What types refer to

The references of a compiled type are to be names of schemas, whatever the schemas are emitted as.
They are names in pointers of the schema and of the map, wherever a pointer is compiled itself, and
where a record is left to build on a schema that keeps its name.  The bases that a record is built
on stand in its references by the names under which they are emitted, so that a base that is renamed
is referred to by a name that no schema may have (`Dialect.Refers`).
-/

namespace OpenApi

/-! ## Schemas that are pointed to -/

/-- A pointer to the name stands in a schema, or in a schema of the map. -/
def Cited (schemas : Mapping) (root : Schema) (name : String) : Prop :=
  ∃ traits pointer, (Schema.reference traits pointer).PartOf schemas root ∧
    Reference.schemaName? pointer = some name

variable {root : Schema}

/-- The record behind a name is pointed to if the name is, by the last alias on the way. -/
theorem Cited.of_behind {schemas : Mapping} {name base : String} (behind : Behind schemas base name)
    (cited : Cited schemas root name) : Cited schemas root base := by
  induction behind with
  | record => exact cited
  | along named isAlias behind ih =>
      obtain ⟨traits, pointer, wrapped, pointed⟩ := Schema.aliasOf?_eq_some_iff.mp isAlias
      exact ih ⟨traits, pointer, (Schema.PartOf.of_named named).within wrapped.within, pointed⟩

/-- A base is cited by the branch that points to it. -/
theorem Scope.Points.cited {scope : Scope} {nominal : Bool} {branch : Schema} {base : String}
    (points : scope.Points nominal branch base) (part : branch.PartOf scope.schemas root) :
    Cited scope.schemas root base := by
  obtain ⟨traits, pointer, name, rfl, pointed, behind | rfl⟩ := points.behind_or_eq
  · exact .of_behind behind ⟨traits, pointer, part, pointed⟩
  · exact ⟨traits, pointer, part, pointed⟩

/-- It does not matter for a flattened record which names are taken. -/
theorem Flattens.retake {scope : Scope} {nominal : Bool} {copying : List String} {schema : Schema}
    {flat : FlatRecord} (taken : NameSet) (flattens : Flattens scope nominal copying schema flat) :
    Flattens { scope with taken } nominal copying schema flat := by
  induction flattens with
  | object => exact .object
  | lone plain apart => exact .lone plain apart
  | start => exact .start
  | extra before apart ih => exact ih.extra apart
  | inherit before points defined ih => exact ih.inherit points defined
  | skip before points later underway ih => exact ih.skip points later underway
  | copy before points later fresh held read copied ih ihCopied =>
      exact ih.copy points later fresh held read ihCopied
  | join before joined below ih ihBelow => exact ih.join joined ihBelow

/-! ## Types that refer to given names only -/

/-- A type refers to some of the given names, and to nothing else. -/
def TypeExpr.RefersOnly (allowed : String → Prop) (type : TypeExpr) : Prop :=
  ∀ name ∈ type.references, allowed name

/-- A type that is put together refers to what its parts refer to. -/
theorem Spelling.mem_references_combine {spelling : Spelling} {parts : List Compiled}
    {name : String} : name ∈ (spelling.combine parts).type.references ↔
      ∃ part ∈ parts, name ∈ part.type.references := by
  unfold Spelling.combine Compiled.referencesOf
  rw [NameSet.mem_foldl_union]
  simp

/-- A compiled type and those that come along refer to some of the given names only. -/
abbrev Compiled.RefersOnly (allowed : String → Prop) (compiled : Compiled) : Prop :=
  compiled.Has (TypeExpr.RefersOnly allowed) (TypeExpr.RefersOnly allowed)

namespace Compiled.RefersOnly

variable {allowed : String → Prop} {dialect : Dialect} {compiled : Compiled}

/-- So it refers only to what its parts may refer to. -/
theorem combine {spelling : Spelling} {parts : List Compiled}
    (each : ∀ part ∈ parts, part.RefersOnly allowed) :
    (spelling.combine parts).RefersOnly allowed := by
  refine Has.combine (fun name member => ?_) each
  obtain ⟨part, held, within⟩ := Spelling.mem_references_combine.mp member
  exact (each part held).type name within

/-- A type without parts refers to nothing. -/
theorem alone {spelling : Spelling} : (spelling.combine []).RefersOnly allowed :=
  combine fun _ none => absurd none List.not_mem_nil

/-- A type around another one refers to what that one refers to. -/
theorem around {spelling : Spelling} (refers : compiled.RefersOnly allowed) :
    (spelling.combine [compiled]).RefersOnly allowed :=
  combine fun _ member => List.mem_singleton.mp member ▸ refers

/-- A description refers to nothing. -/
theorem describe (refers : compiled.RefersOnly allowed) (schema : Schema) :
    (dialect.describe schema compiled).RefersOnly allowed := by
  unfold Dialect.describe
  split
  · split
    · exact refers
    · exact refers.around
  · exact refers

/-- Allowing null refers to nothing. -/
theorem withNull (refers : compiled.RefersOnly allowed) (schema : Schema) :
    (dialect.withNull schema compiled).RefersOnly allowed := by
  unfold Dialect.withNull
  split
  · exact refers.around
  · exact refers

/-- A field refers to what its type refers to. -/
theorem field (refers : compiled.RefersOnly allowed) (required : List Scalar)
    (property : String × Schema) :
    (dialect.field required property compiled).2.RefersOnly allowed := by
  unfold Dialect.field
  dsimp only
  split
  · exact refers
  · exact refers.around

/-- A record refers to its bases besides what its fields and its other parts refer to. -/
theorem recordOf {spelled : Spelling} {fields : List Field} {bases : List String}
    {parts : List Compiled} (ofBases : ∀ base ∈ bases, allowed base)
    (each : ∀ part ∈ parts, part.RefersOnly allowed) :
    (Dialect.recordOf spelled fields bases parts).RefersOnly allowed := by
  have combined : (spelled.combine parts).RefersOnly allowed := combine each
  refine ⟨fun name member => ?_, combined.auxiliary⟩
  rcases NameSet.mem_union.mp member with base | part
  · exact ofBases name (NameSet.mem_ofList.mp base)
  · exact combined.type name part

end Compiled.RefersOnly

/-! ## The references of compiled types -/

namespace Dialect

/-- One of the records that are compiled along with the root is left to build on the base. -/
def BuildsOn (dialect : Dialect) (scope : Scope) (root : Schema) (base : String) : Prop :=
  ∃ record flat, record.PartOf scope.schemas root ∧ record.isRecord ∧
    Flattens scope dialect.nominalBases [] record flat ∧ base ∈ flat.bases

/-- What may stand in the references: names that are pointed to, and the names under which the bases
of records are emitted. -/
def Refers (dialect : Dialect) (scope : Scope) (root : Schema) (name : String) : Prop :=
  Cited scope.schemas root name ∨
    ∃ base, dialect.BuildsOn scope root base ∧ scope.emittedName base = name

variable {dialect : Dialect} {scope : Scope}

/-- What a record builds on is cited. -/
theorem BuildsOn.cited {base : String} (builds : dialect.BuildsOn scope root base) :
    Cited scope.schemas root base := by
  obtain ⟨record, flat, part, _, flattens, member⟩ := builds
  have all := flattens.all (fun _ within _ points => points.cited within) part.operands
  exact all.bases base member

/-- What may be referred to does not depend on the names that are taken. -/
theorem refers_of_taking {names : List String} {name : String}
    (refers : dialect.Refers (scope.taking names) root name) : dialect.Refers scope root name := by
  rw [Scope.taking_eq] at refers
  rcases refers with cited | ⟨base, ⟨record, flat, part, isRecord, flattens, member⟩, emitted⟩
  · exact .inl cited
  · exact .inr ⟨base, ⟨record, flat, part, isRecord, flattens.retake scope.taken, member⟩, emitted⟩

/-- The references of all parts are accounted for. -/
def RefersWithin (dialect : Dialect) (root : Schema) (compile : Compiling) : Prop :=
  ∀ ⦃schema : Schema⦄ ⦃hint : String⦄ ⦃scope : Scope⦄ ⦃compiled : Compiled⦄,
    schema.PartOf scope.schemas root → (compile schema hint scope).Yields compiled →
      compiled.RefersOnly (dialect.Refers scope root)

namespace RefersWithin

variable {compile : Compiling} {schema : Schema} {hint : String} {compiled : Compiled}

/-- What refers only to allowed names in a wider scope does so in the narrower one. -/
theorem of_taking {names : List String}
    (refers : compiled.RefersOnly (dialect.Refers (scope.taking names) root)) :
    compiled.RefersOnly (dialect.Refers scope root) where
  type name member := refers_of_taking (refers.type name member)
  auxiliary definition held name member :=
    refers_of_taking (refers.auxiliary definition held name member)

/-- A part refers only to what the schema cites. -/
theorem compilePart (within : dialect.RefersWithin root compile)
    (part : schema.PartOf scope.schemas root)
    (run : (dialect.compilePart compile schema hint scope).Yields compiled) :
    compiled.RefersOnly (dialect.Refers scope root) := by
  obtain ⟨inner, compiles, rfl⟩ := Traced.yields_andThen_answer.mp run
  exact (within part compiles).describe schema

/-- Each of several parts refers only to what the schema cites. -/
theorem compileParts (within : dialect.RefersWithin root compile) {parts : List (Schema × String)}
    {all : List Compiled} (each : ∀ part ∈ parts, part.1.PartOf scope.schemas root)
    (run : (dialect.compileParts compile parts scope).Yields all) :
    ∀ compiled ∈ all, compiled.RefersOnly (dialect.Refers scope root) := by
  intro compiled member
  obtain ⟨part, listed, names, compiles⟩ := exists_part_of_compileParts run compiled member
  refine of_taking (within.compilePart ?_ compiles)
  rw [Scope.schemas_taking]
  exact each part listed

/-- A record refers only to what its fields, bases and other parts may refer to. -/
theorem assemble {name : String} {fields : List (Field × Compiled)} {bases : List String}
    {extras : List Compiled} {additional : Additional Compiled} {allowed : String → Prop}
    (ofFields : ∀ field ∈ fields, field.2.RefersOnly allowed)
    (ofBases : ∀ base ∈ bases, allowed base) (ofExtras : ∀ extra ∈ extras, extra.RefersOnly allowed)
    (ofFurther : ∀ further ∈ furtherOf additional, further.RefersOnly allowed)
    (run : (dialect.assemble name fields bases extras additional).Yields compiled) :
    compiled.RefersOnly allowed := by
  rw [Traced.Yields, outcome_assemble] at run
  obtain rfl := Except.ok.inj run
  refine .recordOf ofBases fun part member => ?_
  rcases List.mem_append.mp member with field | other
  · obtain ⟨pair, held, rfl⟩ := List.mem_map.mp field
    exact ofFields pair held
  · split at other
    · cases other
    · exact (List.mem_append.mp other).elim (ofExtras part) (ofFurther part)

/-- A record refers to its bases and to what its parts refer to. -/
theorem compileRecord (within : dialect.RefersWithin root compile) {name : String}
    (part : schema.PartOf scope.schemas root) (isRecord : schema.isRecord)
    (run : (dialect.compileRecord compile schema name scope).Yields compiled) :
    compiled.RefersOnly (dialect.Refers scope root) := by
  obtain ⟨flat, properties, own, extras, content, steps, assembled⟩ := exists_assembled run
  have flattens := flattens_of_yields steps.flattened
  have parts := flattens.partsOf part.operands
  have ofFields : ∀ field ∈ List.zipWith (dialect.field flat.required) properties own,
      field.2.RefersOnly (dialect.Refers scope root) := by
    intro field member
    obtain ⟨place, bound, rfl⟩ := List.getElem_of_mem member
    rw [List.getElem_zipWith]
    refine Compiled.RefersOnly.field ?_ _ _
    exact within.compileParts (partOf_of_property parts steps.named) steps.compiles _
      (List.getElem_mem _)
  have ofBases : ∀ emitted ∈ flat.bases.map scope.emittedName,
      dialect.Refers scope root emitted := by
    intro emitted member
    obtain ⟨base, held, rfl⟩ := List.mem_map.mp member
    exact .inr ⟨base, ⟨schema, flat, part, isRecord, flattens, held⟩, rfl⟩
  have ofExtras : ∀ extra ∈ extras, extra.RefersOnly (dialect.Refers scope root) :=
    fun extra member => of_taking (within.compileParts
      (by simpa only [Scope.schemas_taking] using partOf_of_numbered parts.extras)
      steps.compilesExtras extra member)
  have ofFurther : ∀ further ∈ furtherOf content, further.RefersOnly (dialect.Refers scope root) :=
    fun further member => of_taking (of_taking (within.compileParts
      (by simpa only [Scope.schemas_taking] using partOf_of_further parts)
      steps.compilesFurther further member))
  exact assemble ofFields ofBases ofExtras ofFurther assembled

/-- A nested record refers to nothing but what its class refers to. -/
theorem compileNested (within : dialect.RefersWithin root compile)
    (part : schema.PartOf scope.schemas root) (isRecord : schema.isRecord)
    (run : (dialect.compileNested compile schema hint scope).Yields compiled) :
    compiled.RefersOnly (dialect.Refers scope root) := by
  unfold Dialect.compileNested at run
  split at run
  · obtain ⟨_, _, run⟩ := Traced.yields_andThen.mp run
    obtain ⟨record, compiles, rfl⟩ := Traced.yields_andThen_answer.mp run
    have refers := of_taking
      (within.compileRecord (by rwa [Scope.schemas_taking]) isRecord compiles)
    refine ⟨refers.type, fun definition member => ?_⟩
    rcases List.mem_append.mp member with inner | last
    · exact refers.auxiliary definition inner
    · exact List.mem_singleton.mp last ▸ refers.type
  · exact within.compileRecord part isRecord run

/-- A pointer is referred to by the name in it, whatever the schema is emitted as. -/
theorem compileReference {traits : Traits} {pointer : String}
    (part : (Schema.reference traits pointer).PartOf scope.schemas root) :
    (dialect.compileReference pointer scope).RefersOnly (dialect.Refers scope root) := by
  unfold Dialect.compileReference
  split
  · exact .alone
  · next name pointed =>
      refine ⟨fun other member => ?_, fun _ none => absurd none List.not_mem_nil⟩
      obtain rfl := List.mem_singleton.mp (NameSet.mem_ofList.mp member)
      exact .inl ⟨traits, pointer, part, pointed⟩

/-- Every kind of schema refers only to what it cites. -/
theorem compileCase (within : dialect.RefersWithin root compile)
    (part : schema.PartOf scope.schemas root)
    (run : (dialect.compileCase compile schema hint scope).Yields compiled) :
    compiled.RefersOnly (dialect.Refers scope root) := by
  cases caseRun_of_yields run with
  | reference => exact compileReference part
  | enumeration | primitive | anything => exact .alone
  | list | map => exact .around .alone
  | listOf compiles => exact .around (within.compilePart (part.within (.items (.self _))) compiles)
  | mapOf compiles => exact .around (within.compilePart (part.within (.content (.self _))) compiles)
  | single compiles => exact within.compilePart (part.operands _ List.mem_cons_self) compiles
  | union compiles =>
      exact .combine (within.compileParts (partOf_of_numbered part.operands) compiles)
  | record isRecord compiles => exact within.compileNested part isRecord compiles

end RefersWithin

/-- At every depth, types refer only to what the schema cites. -/
theorem refersWithin (dialect : Dialect) (root : Schema) (depth : Nat) :
    dialect.RefersWithin root (dialect.compileWithin depth) := by
  induction depth with
  | zero => exact fun schema hint scope compiled part run => (Traced.yields_fail.mp run).elim
  | succ depth ih =>
      intro schema hint scope compiled part run
      obtain ⟨inner, compiles, rfl⟩ := Traced.yields_andThen_answer.mp run
      exact (ih.compileCase part compiles).withNull schema

/-- A compiled schema refers only to what it cites. -/
theorem refersOnly_compile {name : String} {schema : Schema} {compiled : Compiled}
    (run : (dialect.compile name schema scope).Yields compiled) :
    compiled.RefersOnly (dialect.Refers scope schema) := by
  have within := dialect.refersWithin schema (schema.size + schemaBound scope + 1)
  have whole : schema.PartOf scope.schemas schema := .inl (.self schema)
  unfold compile at run
  dsimp only at run
  split at run
  · next isRecord => exact within.compileRecord whole isRecord run
  · exact within whole run

end Dialect

/-! ## Names that are shown -/

/-- A pointer to the schema of the name stands in a compiled schema, and in all that this is read
from, or it stands in the map. -/
inductive Shown (schemas : Mapping) (schema : Schema) (name : String) : Prop
  | compiled {traits : Traits}
      (within : (Schema.reference traits (Reference.schemaRoot ++ name)).Within schema)
      (occurs : ∀ raw, Schema.ofValue raw = .ok schema →
        Reference.Occurs (Reference.schemaRoot ++ name) raw) : Shown schemas schema name
  | given {entry : Scalar × Value} (member : entry ∈ schemas)
      (occurs : Reference.Occurs (Reference.schemaRoot ++ name) entry.2) :
      Shown schemas schema name

/-- What is cited is shown by a pointer. -/
theorem Cited.shown {schemas : Mapping} {name : String} (cited : Cited schemas root name) :
    Shown schemas root name := by
  obtain ⟨traits, pointer, part, pointed⟩ := cited
  obtain ⟨rfl, -⟩ := Reference.schemaName?_eq_some_iff.mp pointed
  have occurs {whole : Schema} (raw : Value) (read : Schema.ofValue raw = .ok whole)
      (within : (Schema.reference traits (Reference.schemaRoot ++ name)).Within whole) :
      Reference.Occurs (Reference.schemaRoot ++ name) raw := by
    have found := Schema.readsFaithfully raw whole read _ _ name within pointed
    obtain ⟨pointer, stands, named⟩ := Reference.mem_ofValue_iff.mp found
    exact (Reference.schemaName?_eq_some_iff.mp named).1 ▸ stands
  rcases part with own | ⟨holder, schema, ⟨raw, held, read⟩, within⟩
  · exact .compiled own fun raw read => occurs raw read own
  · exact .given (Mapping.mem_of_lookup held) (occurs raw read within)

/-- **References are names of schemas, but for renamed bases.**  Every name that a compiled type, or
a definition that comes along with it, refers to is in a pointer of the schema or of the map, or it
is the other name under which a schema is emitted that one of the records is built on.  The name of
that schema itself is in such a pointer. -/
theorem references_are_shown (target : Target) (name : String) (schema : Schema) (scope : Scope)
    (compiled : Compiled) (run : (target.dialect.compile name schema scope).Yields compiled) :
    ∀ type ∈ compiled.type :: compiled.auxiliary.map (·.type), ∀ reference ∈ type.references,
      Shown scope.schemas schema reference ∨
        ∃ base, target.dialect.BuildsOn scope schema base ∧ Shown scope.schemas schema base ∧
          scope.emittedName base = reference ∧ base ≠ reference := by
  have refers := Dialect.refersOnly_compile run
  intro type origin reference member
  have allowed : target.dialect.Refers scope schema reference := by
    rcases List.mem_cons.mp origin with rfl | brought
    · exact refers.type reference member
    · obtain ⟨definition, held, rfl⟩ := List.mem_map.mp brought
      exact refers.auxiliary definition held reference member
  rcases allowed with cited | ⟨base, builds, emitted⟩
  · exact .inl cited.shown
  · by_cases same : base = reference
    · exact .inl (same ▸ builds.cited.shown)
    · exact .inr ⟨base, builds, builds.cited.shown, emitted, same⟩

open Emission (extending extended ofValue_extending)

/-- A scope in which a schema is emitted under a number, and a record is built on it. -/
def garage : Scope :=
  .around "Car" [(.text "Vehicle", .map [(.text "properties", .map [(.text "wheels", .map [])])])]
    [] none [("Vehicle", "Vehicle2")]

/-- The record builds on the vehicle and has one property of its own. -/
theorem flattens_extended : Flattens garage true [] (extended "Vehicle" "doors")
    ((({} : FlatRecord).withBase "Vehicle").absorb
      (.ofObject (some [(.text "doors", .unknown {})]) [] .unstated)) := by
  have vehicle : Named garage.schemas "Vehicle"
      (.object {} (some [(.text "wheels", .unknown {})]) [] .unstated) :=
    ⟨_, by simp [garage, Scope.around], Schema.ofValue_of_property "wheels"⟩
  have pointed : Reference.schemaName? (Reference.schemaRoot ++ "Vehicle") = some "Vehicle" := by
    cbv
  have points : garage.Points true (.reference {} (Reference.schemaRoot ++ "Vehicle")) "Vehicle" :=
    .of_found pointed (recordBehind?_of_record vehicle rfl List.not_mem_nil)
  have start : Flattens garage true [] (.composition {} .allOf []) {} := .start
  exact (start.inherit points (by simp [Scope.emittedLater, garage, Scope.around])).join rfl .object

/-- Building on a schema that is emitted under another name, a class refers to that name. -/
theorem exists_compile_extended :
    ∃ compiled,
      (Target.typedDict.dialect.compile "Car" (extended "Vehicle" "doors") garage).Yields compiled ∧
        compiled.type.references = NameSet.singleton "Vehicle2" := by
  refine ⟨_, Traced.yields_andThen.mpr ⟨_, flattens_extended.yields, rfl⟩, ?_⟩
  rfl

/-- It shows no pointer to a schema with a number behind its name. -/
theorem not_shown_number : ¬Shown garage.schemas (extended "Vehicle" "doors") "Vehicle2" := by
  have named : Reference.schemaName? (Reference.schemaRoot ++ "Vehicle2") = some "Vehicle2" := by
    cbv
  have inCar : Reference.ofValue (extending "Vehicle" "doors") = ["Vehicle"] := by cbv
  have inVehicle : Reference.ofValue
      (.map [(.text "properties", .map [(.text "wheels", .map [])])]) = [] := by cbv
  rintro (⟨within, occurs⟩ | ⟨member, occurs⟩)
  · have found := Reference.mem_ofValue_iff.mpr
      ⟨_, occurs _ (ofValue_extending "Vehicle" "doors"), named⟩
    rw [inCar] at found
    exact absurd found (by decide)
  · obtain rfl := List.mem_singleton.mp member
    have found := Reference.mem_ofValue_iff.mpr ⟨_, occurs, named⟩
    rw [inVehicle] at found
    exact absurd found List.not_mem_nil

/-- The car is built on the vehicle, to which it points, and refers to it by its number. -/
theorem references_are_shown_extended :
    ∃ compiled,
      (Target.typedDict.dialect.compile "Car" (extended "Vehicle" "doors") garage).Yields compiled ∧
        "Vehicle2" ∈ compiled.type.references ∧
        ∃ base, Target.typedDict.dialect.BuildsOn garage (extended "Vehicle" "doors") base ∧
          Shown garage.schemas (extended "Vehicle" "doors") base ∧
            garage.emittedName base = "Vehicle2" ∧ base ≠ "Vehicle2" := by
  obtain ⟨compiled, run, same⟩ := exists_compile_extended
  have refers : "Vehicle2" ∈ compiled.type.references := by simp [same, NameSet.singleton]
  refine ⟨compiled, run, refers, ?_⟩
  exact (references_are_shown .typedDict "Car" (extended "Vehicle" "doors") garage compiled run
    compiled.type List.mem_cons_self "Vehicle2" refers).resolve_left not_shown_number

/-- So not all references are names of schemas. -/
theorem not_always_shown :
    ¬ ∀ (target : Target) (name : String) (schema : Schema) (scope : Scope) (compiled : Compiled),
      (target.dialect.compile name schema scope).Yields compiled →
      ∀ reference ∈ compiled.type.references, Shown scope.schemas schema reference := by
  intro claimed
  obtain ⟨compiled, run, same⟩ := exists_compile_extended
  exact not_shown_number (claimed .typedDict "Car" (extended "Vehicle" "doors") garage compiled run
    "Vehicle2" (by simp [same, NameSet.singleton]))

end OpenApi
