import OpenApi.Dialect.Zod
import OpenApi.Proofs.Compile.Hints
import OpenApi.Proofs.Schema.Size

/-!
# Types that depend on their schema alone

Where nested records stay in their place and bases are not inherited, compiling a schema asks the
scope for one thing only: the names under which the schemas that it points to are emitted.  Whatever
else is known around it, and the name that it is given, make no difference.  Nothing is copied, so
every part that is compiled is smaller than the schema that it is a part of, and compiling ends.
-/

namespace OpenApi

namespace Schema

/-! ## What a schema says -/

/-- A pointer to the schema of a name stands somewhere in a schema. -/
def PointsTo (schema : Schema) (name : String) : Prop :=
  ∃ traits pointer, (Schema.reference traits pointer).Within schema ∧
    Reference.schemaName? pointer = some name

/-- An object somewhere in a schema declares a property under a key. -/
def DeclaresKey (schema : Schema) (key : Scalar) : Prop :=
  ∃ traits properties required additional,
    (Schema.object traits (some properties) required additional).Within schema ∧
      key ∈ properties.map Prod.fst

/-- The keys of a schema are texts, and its listed values can be written. -/
structure Spellable (schema : Schema) : Prop where
  keys : ∀ key, schema.DeclaresKey key → ∃ content, key = .text content
  values : ∀ traits values, (Schema.enumeration traits values).Within schema →
    values.all (·.isWritable)

/-- All schemas that a schema points to are emitted under the same names in two scopes. -/
def SpelledAlike (schema : Schema) (scope around : Scope) : Prop :=
  ∀ name, schema.PointsTo name → scope.emittedName name = around.emittedName name

variable {part whole : Schema}

/-- What a part points to, the whole points to. -/
theorem PointsTo.within {name : String} (within : part.Within whole) (points : part.PointsTo name) :
    whole.PointsTo name := by
  obtain ⟨traits, pointer, inner, named⟩ := points
  exact ⟨traits, pointer, inner.trans within, named⟩

/-- What a part declares, the whole declares. -/
theorem DeclaresKey.within {key : Scalar} (within : part.Within whole)
    (has : part.DeclaresKey key) : whole.DeclaresKey key := by
  obtain ⟨traits, properties, required, additional, inner, member⟩ := has
  exact ⟨traits, properties, required, additional, inner.trans within, member⟩

/-- The parts of a schema that can be spelled can be spelled. -/
theorem Spellable.within (within : part.Within whole) (spellable : whole.Spellable) :
    part.Spellable where
  keys key has := spellable.keys key (has.within within)
  values traits values inner := spellable.values traits values (inner.trans within)

namespace SpelledAlike

variable {scope around : Scope}

/-- Scopes that spell a schema alike spell its parts alike. -/
theorem within (within : part.Within whole) (alike : whole.SpelledAlike scope around) :
    part.SpelledAlike scope around :=
  fun name points => alike name (points.within within)

/-- They still do once the same names are taken in both. -/
theorem taking (alike : whole.SpelledAlike scope around) (names : List String) :
    whole.SpelledAlike (scope.taking names) (around.taking names) := by
  intro name points
  rw [Scope.emittedName_taking, Scope.emittedName_taking]
  exact alike name points

end SpelledAlike

end Schema

/-! ## Flat records without inheritance -/

/-- All that a flattened record consists of was found inside of a schema. -/
abbrev FlatRecord.Inside (flat : FlatRecord) (whole : Schema) : Prop :=
  flat.All whole.PointsTo whole.DeclaresKey (·.Below whole)

namespace FlatRecord.Inside

variable {flat : FlatRecord} {part whole : Schema}

/-- The record of an object is inside of it. -/
theorem of_object (traits : Traits) (properties : Option (List (Scalar × Schema)))
    (required : List Scalar) (additional : Additional Schema) :
    (FlatRecord.ofObject properties required additional).Inside
      (.object traits properties required additional) := by
  refine .ofObject required ?_ ?_
  · rintro declared rfl property member
    exact ⟨⟨_, _, _, _, .self _, List.mem_map_of_mem member⟩, Schema.below_property member⟩
  · rintro content rfl
    exact Schema.below_content

/-- A record inside of a part is inside of the whole. -/
theorem below (inside : flat.Inside part) (below : part.Below whole) : flat.Inside whole :=
  inside.imp (fun _ points => points.within below.within)
    (fun _ declares => declares.within below.within) fun _ inner => inner.trans below

end FlatRecord.Inside

section Flatten

variable {whole : Schema} {flat : FlatRecord}

/-- Without inheritance a branch is taken in whatever the scope is. -/
private theorem exists_flattenBranch {branch : Schema} (below : branch.Below whole)
    (inside : flat.Inside whole)
    (deeper : branch.isJoined → ∃ inner : FlatRecord, inner.Inside branch ∧
      ∀ scope copying, flatten scope false copying branch = .answer inner) :
    ∃ result : FlatRecord, result.Inside whole ∧
      ∀ scope copying, flattenBranch scope false copying flat branch = .answer result := by
  cases branch with
  | reference traits pointer =>
      cases named : Reference.schemaName? pointer with
      | none =>
          refine ⟨_, inside.withExtra below, fun scope copying => ?_⟩
          rw [flattenBranch, named]
      | some name =>
          refine ⟨_, inside.withBase ⟨traits, pointer, below.within, named⟩,
            fun scope copying => ?_⟩
          rw [flattenBranch, named]
          simp [Scope.base?, Scope.emittedLater]
  | object traits properties required additional =>
      obtain ⟨inner, within, flattens⟩ := deeper rfl
      refine ⟨_, inside.absorb (within.below below), fun scope copying => ?_⟩
      rw [flattenBranch, flattens, Traced.answer_andThen]
  | composition traits kind branches =>
      cases kind with
      | allOf =>
          obtain ⟨inner, within, flattens⟩ := deeper rfl
          refine ⟨_, inside.absorb (within.below below), fun scope copying => ?_⟩
          rw [flattenBranch, flattens, Traced.answer_andThen]
      | oneOf | anyOf =>
          exact ⟨_, inside.withExtra below, fun scope copying => by simp [flattenBranch]⟩
  | enumeration | primitive | array | unknown =>
      exact ⟨_, inside.withExtra below, fun scope copying => by simp [flattenBranch]⟩

/-- Without inheritance, branches come to the same record in every scope. -/
private theorem exists_flattenBranches {branches : List Schema}
    (below : ∀ branch ∈ branches, branch.Below whole) (inside : flat.Inside whole)
    (deeper : ∀ branch ∈ branches, branch.isJoined → ∃ inner : FlatRecord, inner.Inside branch ∧
      ∀ scope copying, flatten scope false copying branch = .answer inner) :
    ∃ result : FlatRecord, result.Inside whole ∧
      ∀ scope copying, flattenBranches scope false copying flat branches = .answer result := by
  induction branches generalizing flat with
  | nil => exact ⟨flat, inside, fun scope copying => by rw [flattenBranches]⟩
  | cons branch rest ih =>
      obtain ⟨between, inside, step⟩ := exists_flattenBranch (below _ List.mem_cons_self) inside
        (deeper _ List.mem_cons_self)
      obtain ⟨result, inside, steps⟩ := ih (fun _ member => below _ (List.mem_cons_of_mem _ member))
        inside fun _ member => deeper _ (List.mem_cons_of_mem _ member)
      refine ⟨result, inside, fun scope copying => ?_⟩
      rw [flattenBranches, step, Traced.answer_andThen, steps]

/-- Without inheritance a record is flattened from what stands inside of it, without a notice and
in the same way in every scope. -/
theorem exists_flatten {schema : Schema} (joined : schema.isJoined) :
    ∃ flat : FlatRecord, flat.Inside schema ∧
      ∀ scope copying, flatten scope false copying schema = .answer flat := by
  induction sized : schema.size using Nat.strongRecOn generalizing schema with
  | ind size ih =>
      cases schema with
      | object traits properties required additional =>
          exact ⟨_, .of_object traits properties required additional,
            fun scope copying => by rw [flatten]⟩
      | composition traits kind branches =>
          have below (branch) (member : branch ∈ branches) :
              branch.Below (.composition traits kind branches) := Schema.below_branch member
          obtain ⟨flat, inside, flattens⟩ := exists_flattenBranches below .empty
            fun branch member joined =>
              ih branch.size (sized ▸ (below branch member).smaller) joined rfl
          exact ⟨flat, inside, fun scope copying => by rw [flatten, flattens]⟩
      | reference | enumeration | primitive | array | unknown => cases joined

end Flatten

/-! ## Runs in two scopes -/

/-- Two ways of compiling agree on schemas up to a size, whatever the name, in scopes where the
schemas that are pointed to are emitted under the same names. -/
def Compiling.Agree (bound : Nat) (first second : Compiling) : Prop :=
  ∀ ⦃schema : Schema⦄ ⦃hint other : String⦄ ⦃scope around : Scope⦄, schema.size ≤ bound →
    schema.SpelledAlike scope around → first schema hint scope = second schema other around

namespace Dialect

/-- A dialect writes every type where it is used: nested records get no names, nothing is
inherited, nothing is left out, and the name of a record does not show in it. -/
structure InPlace (dialect : Dialect) : Prop where
  nested : dialect.namesNested = false
  structural : dialect.nominalBases = false
  complete : dialect.fieldsOnly = false
  unnamed : ∀ parts name, dialect.record { parts with name } = dialect.record parts

variable {dialect : Dialect}

/-- A record that is written in place does not depend on its name. -/
theorem InPlace.assemble_eq (inPlace : dialect.InPlace) (name other : String)
    (fields : List (Field × Compiled)) (bases : List String) (extras : List Compiled)
    (additional : Additional Compiled) :
    dialect.assemble name fields bases extras additional =
      dialect.assemble other fields bases extras additional := by
  have spelled (stated : Additional String) :
      dialect.record ⟨name, fields.map (·.1), bases, extras.map (·.expression), stated⟩ =
        dialect.record ⟨other, fields.map (·.1), bases, extras.map (·.expression), stated⟩ :=
    inPlace.unnamed ⟨other, _, _, _, _⟩ name
  unfold assemble
  simp only [spelled, inPlace.complete, Bool.false_and, Bool.false_eq_true, if_false]

end Dialect

namespace Compiling.Agree

open Dialect

variable {dialect : Dialect} {bound : Nat} {first second : Compiling} {scope around : Scope}
  {schema : Schema}

/-- A part is compiled alike in scopes that spell it alike. -/
theorem compilePart (agree : Agree bound first second) {hint other : String}
    (small : schema.size ≤ bound) (alike : schema.SpelledAlike scope around) :
    dialect.compilePart first schema hint scope =
      dialect.compilePart second schema other around := by
  unfold Dialect.compilePart
  rw [agree small alike]

/-- Parts are compiled alike in turn; what comes along with one is taken in both scopes. -/
theorem compileParts (agree : Agree bound first second) {α : Type} {items : List α}
    {schemaOf : α → Schema} {hint other : α → String}
    (small : ∀ item ∈ items, (schemaOf item).size ≤ bound)
    (alike : ∀ item ∈ items, (schemaOf item).SpelledAlike scope around) :
    dialect.compileParts first (items.map fun item => (schemaOf item, hint item)) scope =
      dialect.compileParts second (items.map fun item => (schemaOf item, other item)) around := by
  induction items generalizing scope around with
  | nil => rfl
  | cons item rest ih =>
      rw [List.map_cons, List.map_cons, Dialect.compileParts, Dialect.compileParts,
        agree.compilePart (small _ List.mem_cons_self) (alike _ List.mem_cons_self)]
      refine Traced.andThen_congr rfl fun compiled _ => ?_
      rw [ih (fun _ member => small _ (List.mem_cons_of_mem _ member))
        fun _ member => (alike _ (List.mem_cons_of_mem _ member)).taking _]

/-- A record is compiled from parts that are smaller. -/
theorem compileRecord (agree : Agree bound first second) (inPlace : dialect.InPlace)
    {name other : String} (joined : schema.isJoined) (small : schema.size ≤ bound + 1)
    (alike : schema.SpelledAlike scope around) :
    dialect.compileRecord first schema name scope =
      dialect.compileRecord second schema other around := by
  obtain ⟨flat, inside, flattens⟩ := exists_flatten joined
  have fits {part : Schema} (below : part.Below schema) : part.size ≤ bound :=
    Nat.le_of_lt_succ (below.smaller.trans_le small)
  have spelled {part : Schema} (below : part.Below schema) (names : List String) :
      part.SpelledAlike (scope.taking names) (around.taking names) :=
    (alike.within below.within).taking names
  have bases (names : List String) : flat.bases.map (scope.taking names).emittedName =
      flat.bases.map (around.taking names).emittedName :=
    List.map_congr_left fun base member => alike.taking names base (inside.bases base member)
  have extras (extra : Schema × Nat) (member : extra ∈ flat.extras.zipIdx) : extra.1.Below schema :=
    inside.extras extra.1 (List.fst_mem_of_mem_zipIdx member)
  unfold Dialect.compileRecord
  rw [inPlace.structural, flattens, flattens, Traced.answer_andThen, Traced.answer_andThen]
  refine Traced.andThen_congr rfl fun properties named => ?_
  have below (property) (member : property ∈ properties) : property.2.Below schema := by
    refine inside.properties (.text property.1, property.2) ?_
    rw [namedProperties_eq_ok_iff.mp named]
    exact List.mem_map_of_mem member
  refine Traced.andThen_congr (agree.compileParts (fun property member => fits (below _ member))
    fun property member => alike.within (below _ member).within) fun compiled _ => ?_
  rw [scopeAfter_eq, scopeAfter_eq]
  refine Traced.andThen_congr (agree.compileParts (fun extra member => fits (extras _ member))
    fun extra member => spelled (extras _ member) _) fun compiledExtras _ => ?_
  simp only [scopeAfter_eq, ← Scope.taking_append, bases]
  split
  · next content stated =>
      have content := inside.additional content stated
      exact Traced.andThen_congr (agree.compilePart (fits content) (spelled content _))
        fun values _ => inPlace.assemble_eq ..
  · exact inPlace.assemble_eq ..
  · exact inPlace.assemble_eq ..

/-- A composition is compiled from its branches, or as a record. -/
theorem compileComposition (agree : Agree bound first second) (inPlace : dialect.InPlace)
    {traits : Traits} {kind : Composition} {branches : List Schema} {hint other : String}
    (small : (Schema.composition traits kind branches).size ≤ bound + 1)
    (alike : (Schema.composition traits kind branches).SpelledAlike scope around) :
    dialect.compileComposition first (.composition traits kind branches) kind branches hint scope =
      dialect.compileComposition second (.composition traits kind branches) kind branches other
        around := by
  have below (branch) (member : branch ∈ branches) :
      branch.Below (.composition traits kind branches) := Schema.below_branch member
  have fits (branch) (member : branch ∈ branches) : branch.size ≤ bound :=
    Nat.le_of_lt_succ ((below branch member).smaller.trans_le small)
  have spelled (branch) (member : branch ∈ branches) : branch.SpelledAlike scope around :=
    alike.within (below branch member).within
  unfold Dialect.compileComposition
  split
  · rfl
  · next branch =>
      exact agree.compilePart (fits _ List.mem_cons_self) (spelled _ List.mem_cons_self)
  · split
    · next all =>
        subst all
        unfold Dialect.compileNested
        simp only [inPlace.nested, Bool.false_eq_true, if_false]
        exact agree.compileRecord inPlace rfl small alike
    · refine Traced.andThen_congr ?_ fun compiled _ => rfl
      exact agree.compileParts (fun branch member => fits _ (List.fst_mem_of_mem_zipIdx member))
        fun branch member => spelled _ (List.fst_mem_of_mem_zipIdx member)

/-- A schema is compiled from parts that are smaller. -/
theorem compileCase (agree : Agree bound first second) (inPlace : dialect.InPlace)
    {hint other : String} (small : schema.size ≤ bound + 1)
    (alike : schema.SpelledAlike scope around) :
    dialect.compileCase first schema hint scope =
      dialect.compileCase second schema other around := by
  have part {part : Schema} (below : part.Below schema) {hint other : String} :
      dialect.compilePart first part hint scope = dialect.compilePart second part other around :=
    agree.compilePart (Nat.le_of_lt_succ (below.smaller.trans_le small))
      (alike.within below.within)
  cases schema with
  | reference traits pointer =>
      have same : dialect.compileReference pointer scope =
          dialect.compileReference pointer around := by
        unfold Dialect.compileReference
        split
        · rfl
        · next name named => rw [alike name ⟨traits, pointer, .self _, named⟩]
      rw [Dialect.compileCase, Dialect.compileCase, same]
  | enumeration | primitive | unknown => rfl
  | composition traits kind branches => exact agree.compileComposition inPlace small alike
  | array traits items =>
      cases items with
      | none => rfl
      | some items => exact Traced.andThen_congr (part Schema.below_items) fun _ _ => rfl
  | object traits properties required additional =>
      cases properties with
      | some properties =>
          rw [Dialect.compileCase, Dialect.compileCase, Dialect.compileNested,
            Dialect.compileNested]
          simp only [inPlace.nested, Bool.false_eq_true, if_false]
          exact agree.compileRecord inPlace rfl small alike
      | none =>
          cases additional with
          | values content =>
              exact Traced.andThen_congr (part Schema.below_content) fun _ _ => rfl
          | unstated | allowed => rfl

end Compiling.Agree

namespace Dialect

variable {dialect : Dialect}

/-- Once compiling may go as deep as a schema is large, going deeper makes no difference. -/
theorem InPlace.agree_compileWithin (inPlace : dialect.InPlace) {bound depth further : Nat}
    (enough : bound ≤ depth) (alsoEnough : bound ≤ further) :
    Compiling.Agree bound (dialect.compileWithin depth) (dialect.compileWithin further) := by
  induction bound generalizing depth further with
  | zero =>
      intro schema hint other scope around small
      have := schema.size_pos
      omega
  | succ bound ih =>
      intro schema hint other scope around small alike
      obtain ⟨depth, rfl⟩ : ∃ less, depth = less + 1 := ⟨depth - 1, by omega⟩
      obtain ⟨further, rfl⟩ : ∃ less, further = less + 1 := ⟨further - 1, by omega⟩
      rw [compileWithin, compileWithin]
      exact Traced.andThen_congr ((ih (by omega) (by omega)).compileCase inPlace small alike)
        fun _ _ => rfl

/-- Compiling looks at nothing but the schema and the emitted names of those that it points to. -/
theorem InPlace.compile_eq (inPlace : dialect.InPlace) {schema : Schema} {scope around : Scope}
    (alike : schema.SpelledAlike scope around) (name other : String) :
    dialect.compile name schema scope = dialect.compile other schema around := by
  have agree : Compiling.Agree schema.size
      (dialect.compileWithin (schema.size + schemaBound scope + 1))
      (dialect.compileWithin (schema.size + schemaBound around + 1)) :=
    inPlace.agree_compileWithin (by omega) (by omega)
  unfold compile
  dsimp only
  split
  · next record =>
      exact agree.compileRecord inPlace (Schema.isJoined_of_isRecord record) (by omega) alike
  · exact agree (le_refl _) alike

end Dialect

/-! ## Schemas that are always compiled -/

/-- A way of compiling gives an answer, without a notice, for every spellable schema up to a size.
-/
def Compiling.Answers (bound : Nat) (compile : Compiling) : Prop :=
  ∀ ⦃schema : Schema⦄ (hint : String) (scope : Scope), schema.size ≤ bound → schema.Spellable →
    ∃ compiled, compile schema hint scope = .answer compiled

namespace Dialect

variable {dialect : Dialect}

/-- Properties whose keys are texts have names. -/
theorem exists_namedProperties {entries : List (Scalar × Schema)}
    (texts : ∀ key ∈ entries.map Prod.fst, ∃ content, key = .text content) :
    ∃ properties, namedProperties entries = .ok properties := by
  induction entries with
  | nil => exact ⟨[], rfl⟩
  | cons entry rest ih =>
      obtain ⟨key, property⟩ := entry
      obtain ⟨content, rfl⟩ := texts key List.mem_cons_self
      obtain ⟨properties, named⟩ := ih fun key member => texts key (List.mem_cons_of_mem _ member)
      exact ⟨(content, property) :: properties, by rw [namedProperties, named]; rfl⟩

/-- A record that is written in place can always be put together. -/
theorem InPlace.exists_assemble (inPlace : dialect.InPlace) (name : String)
    (fields : List (Field × Compiled)) (bases : List String) (extras : List Compiled)
    (additional : Additional Compiled) :
    ∃ record, dialect.assemble name fields bases extras additional = .answer record := by
  unfold assemble
  simp only [inPlace.complete, Bool.false_and, Bool.false_eq_true, if_false]
  exact ⟨_, rfl⟩

end Dialect

namespace Compiling.Answers

open Dialect

variable {dialect : Dialect} {bound : Nat} {compile : Compiling} {schema : Schema}

/-- A part that can be spelled has a result. -/
theorem compilePart (answers : Answers bound compile) (dialect : Dialect) (hint : String)
    (scope : Scope) (small : schema.size ≤ bound) (spellable : schema.Spellable) :
    ∃ compiled, dialect.compilePart compile schema hint scope = .answer compiled := by
  obtain ⟨compiled, answered⟩ := answers hint scope small spellable
  exact ⟨_, by rw [Dialect.compilePart, answered, Traced.answer_andThen]⟩

/-- Parts that can be spelled have results. -/
theorem compileParts (answers : Answers bound compile) (dialect : Dialect) {α : Type}
    {items : List α} {schemaOf : α → Schema} (hint : α → String) (scope : Scope)
    (small : ∀ item ∈ items, (schemaOf item).size ≤ bound)
    (spellable : ∀ item ∈ items, (schemaOf item).Spellable) :
    ∃ compiled, dialect.compileParts compile (items.map fun item => (schemaOf item, hint item))
      scope = .answer compiled := by
  induction items generalizing scope with
  | nil => exact ⟨[], rfl⟩
  | cons item rest ih =>
      obtain ⟨first, answered⟩ := answers.compilePart dialect (hint item) scope
        (small _ List.mem_cons_self) (spellable _ List.mem_cons_self)
      obtain ⟨others, answeredRest⟩ := ih (scope.taking first.auxiliaryNames)
        (fun _ member => small _ (List.mem_cons_of_mem _ member))
        fun _ member => spellable _ (List.mem_cons_of_mem _ member)
      refine ⟨first :: others, ?_⟩
      rw [List.map_cons, Dialect.compileParts, answered, Traced.answer_andThen, answeredRest,
        Traced.answer_andThen]

/-- A record that can be spelled has a result. -/
theorem compileRecord (answers : Answers bound compile) (inPlace : dialect.InPlace) (name : String)
    (scope : Scope) (joined : schema.isJoined) (small : schema.size ≤ bound + 1)
    (spellable : schema.Spellable) :
    ∃ record, dialect.compileRecord compile schema name scope = .answer record := by
  obtain ⟨flat, inside, flattens⟩ := exists_flatten joined
  obtain ⟨properties, named⟩ := exists_namedProperties fun key member =>
    spellable.keys key (inside.keys key member)
  have fits {part : Schema} (below : part.Below schema) : part.size ≤ bound :=
    Nat.le_of_lt_succ (below.smaller.trans_le small)
  have spelled {part : Schema} (below : part.Below schema) : part.Spellable :=
    spellable.within below.within
  have below (property) (member : property ∈ properties) : property.2.Below schema := by
    refine inside.properties (.text property.1, property.2) ?_
    rw [namedProperties_eq_ok_iff.mp named]
    exact List.mem_map_of_mem member
  have belowExtra (extra : Schema × Nat) (member : extra ∈ flat.extras.zipIdx) :
      extra.1.Below schema :=
    inside.extras extra.1 (List.fst_mem_of_mem_zipIdx member)
  obtain ⟨compiled, compiles⟩ := answers.compileParts dialect
    (fun property => name ++ Identifier.pascalCase property.1) scope
    (fun property member => fits (below property member))
    fun property member => spelled (below property member)
  obtain ⟨extras, compilesExtras⟩ := answers.compileParts dialect
    (fun extra => s!"{name}Part{extra.2 + 1}") (scopeAfter scope compiled)
    (fun extra member => fits (belowExtra extra member))
    fun extra member => spelled (belowExtra extra member)
  unfold Dialect.compileRecord
  rw [inPlace.structural, flattens, Traced.answer_andThen, named, Traced.ofExcept_ok,
    Traced.answer_andThen]
  dsimp only
  rw [compiles, Traced.answer_andThen, compilesExtras, Traced.answer_andThen]
  split
  · next content stated =>
      have content := inside.additional content stated
      obtain ⟨values, compilesValues⟩ := answers.compilePart dialect
        (name ++ "Value") (scopeAfter (scopeAfter scope compiled) extras) (fits content)
        (spelled content)
      rw [compilesValues, Traced.answer_andThen]
      exact inPlace.exists_assemble ..
  · exact inPlace.exists_assemble ..
  · exact inPlace.exists_assemble ..

/-- A composition that can be spelled has a result. -/
theorem compileComposition (answers : Answers bound compile) (inPlace : dialect.InPlace)
    {traits : Traits} {kind : Composition} {branches : List Schema} (hint : String)
    (scope : Scope) (small : (Schema.composition traits kind branches).size ≤ bound + 1)
    (spellable : (Schema.composition traits kind branches).Spellable) :
    ∃ compiled, dialect.compileComposition compile (.composition traits kind branches) kind
      branches hint scope = .answer compiled := by
  have below (branch) (member : branch ∈ branches) :
      branch.Below (.composition traits kind branches) := Schema.below_branch member
  have fits (branch) (member : branch ∈ branches) : branch.size ≤ bound :=
    Nat.le_of_lt_succ ((below branch member).smaller.trans_le small)
  have spelled (branch) (member : branch ∈ branches) : branch.Spellable :=
    spellable.within (below branch member).within
  unfold Dialect.compileComposition
  split
  · exact ⟨_, rfl⟩
  · next branch =>
      exact answers.compilePart dialect hint scope (fits _ List.mem_cons_self)
        (spelled _ List.mem_cons_self)
  · split
    · next all =>
        subst all
        unfold Dialect.compileNested
        simp only [inPlace.nested, Bool.false_eq_true, if_false]
        exact answers.compileRecord inPlace hint scope rfl small spellable
    · obtain ⟨compiled, compiles⟩ := answers.compileParts dialect
        (fun branch => s!"{hint}Option{branch.2 + 1}") scope
        (fun branch member => fits _ (List.fst_mem_of_mem_zipIdx member))
        fun branch member => spelled _ (List.fst_mem_of_mem_zipIdx member)
      dsimp only
      rw [compiles, Traced.answer_andThen]
      exact ⟨_, rfl⟩

/-- A schema of any kind that can be spelled has a result. -/
theorem compileCase (answers : Answers bound compile) (inPlace : dialect.InPlace) (hint : String)
    (scope : Scope) (small : schema.size ≤ bound + 1) (spellable : schema.Spellable) :
    ∃ compiled, dialect.compileCase compile schema hint scope = .answer compiled := by
  have part {part : Schema} (below : part.Below schema) (hint : String) :
      ∃ compiled, dialect.compilePart compile part hint scope = .answer compiled :=
    answers.compilePart dialect hint scope (Nat.le_of_lt_succ (below.smaller.trans_le small))
      (spellable.within below.within)
  cases schema with
  | reference | primitive | unknown => exact ⟨_, rfl⟩
  | enumeration traits values =>
      have writable := spellable.values traits values (.self _)
      exact ⟨_, by rw [Dialect.compileCase, if_pos writable]⟩
  | composition traits kind branches =>
      exact answers.compileComposition inPlace hint scope small spellable
  | array traits items =>
      cases items with
      | none => exact ⟨_, rfl⟩
      | some items =>
          obtain ⟨compiled, compiles⟩ := part Schema.below_items (hint ++ "Item")
          exact ⟨_, by rw [Dialect.compileCase, compiles, Traced.answer_andThen]⟩
  | object traits properties required additional =>
      cases properties with
      | some properties =>
          rw [Dialect.compileCase, Dialect.compileNested]
          simp only [inPlace.nested, Bool.false_eq_true, if_false]
          exact answers.compileRecord inPlace hint scope rfl small spellable
      | none =>
          cases additional with
          | values content =>
              obtain ⟨compiled, compiles⟩ := part Schema.below_content (hint ++ "Value")
              exact ⟨_, by rw [Dialect.compileCase, compiles, Traced.answer_andThen]⟩
          | unstated | allowed => exact ⟨_, rfl⟩

end Compiling.Answers

namespace Dialect

variable {dialect : Dialect}

/-- With enough depth, every schema that can be spelled has a result. -/
theorem InPlace.answers_compileWithin (inPlace : dialect.InPlace) {bound depth : Nat}
    (enough : bound ≤ depth) : Compiling.Answers bound (dialect.compileWithin depth) := by
  induction bound generalizing depth with
  | zero =>
      intro schema hint scope small
      have := schema.size_pos
      omega
  | succ bound ih =>
      intro schema hint scope small spellable
      obtain ⟨depth, rfl⟩ : ∃ less, depth = less + 1 := ⟨depth - 1, by omega⟩
      obtain ⟨compiled, compiles⟩ :=
        (ih (Nat.le_of_succ_le_succ enough)).compileCase inPlace hint scope small spellable
      exact ⟨_, by rw [compileWithin, compiles, Traced.answer_andThen]⟩

/-- Every schema whose keys are texts and whose values can be written is compiled, without a
notice. -/
theorem InPlace.exists_compile (inPlace : dialect.InPlace) {schema : Schema}
    (spellable : schema.Spellable) (name : String) (scope : Scope) :
    ∃ compiled, dialect.compile name schema scope = .answer compiled := by
  have answers : Compiling.Answers schema.size
      (dialect.compileWithin (schema.size + schemaBound scope + 1)) :=
    inPlace.answers_compileWithin (by omega)
  unfold compile
  dsimp only
  split
  · next record =>
      exact answers.compileRecord inPlace name scope (Schema.isJoined_of_isRecord record)
        (by omega) spellable
  · exact answers name scope (le_refl _) spellable

end Dialect

namespace Zod

/-- Zod writes records in place. -/
theorem inPlace_dialect (suffix : String) : (Zod.dialect suffix).InPlace :=
  ⟨rfl, rfl, rfl, fun _ _ => rfl⟩

/-- **A Zod schema depends on its schema alone.** Compiling gives one result under every name and in
all scopes that give the schemas it points to the same emitted names; other schemas, names that are
taken and definitions that were emitted do not matter.  Nothing comes along, and there is a result
whenever the keys are texts and the listed values can be written. -/
theorem compile_eq_of_spelledAlike (suffix : String) {schema : Schema} {scope around : Scope}
    (alike : schema.SpelledAlike scope around) (name other : String) :
    (dialect suffix).compile name schema scope = (dialect suffix).compile other schema around ∧
      (∀ compiled, ((dialect suffix).compile name schema scope).Yields compiled →
        compiled.auxiliary = []) ∧
      (schema.Spellable →
        ∃ compiled, (dialect suffix).compile name schema scope = .answer compiled) := by
  have inPlace := inPlace_dialect suffix
  refine ⟨inPlace.compile_eq alike name other, fun compiled run => ?_,
    fun spellable => inPlace.exists_compile spellable name scope⟩
  refine List.eq_nil_iff_forall_not_mem.mpr fun definition member => ?_
  exact Bool.false_ne_true (Dialect.namesAfter_of_compile run definition member).1

/-- A record that points to `Pet` and has a record inside of it. -/
def shelf : Schema :=
  .object {} (some [(.text "pet", .reference {} (Reference.schemaRoot ++ "Pet")),
    (.text "size", .object {} (some [(.text "width", .primitive {} .integer)]) [] .unstated)])
    [] .unstated

/-- A scope in which little is known. -/
def quietScope : Scope := { taken := ∅, names := [("Pet", "Pet2")] }

/-- A scope with other schemas, in which `Pet` is emitted under the same name. -/
def crowdedScope : Scope :=
  { taken := NameSet.ofList ["ShelfSize"]
    schemas := [(.text "Pet", .map []), (.text "Shelf", .map [])]
    defined := some ∅
    names := [("Shelf", "Shelf3"), ("Pet", "Pet2")] }

/-- The parts of the shelf, one by one. -/
theorem within_shelf {part : Schema} (within : part.Within shelf) :
    part = shelf ∨ part = .reference {} (Reference.schemaRoot ++ "Pet") ∨
      part = .object {} (some [(.text "width", .primitive {} .integer)]) [] .unstated ∨
      part = .primitive {} .integer := by
  cases within with
  | self => exact .inl rfl
  | property held within =>
      simp only [List.mem_cons, Prod.mk.injEq, List.not_mem_nil, or_false] at held
      obtain ⟨rfl, rfl⟩ | ⟨rfl, rfl⟩ := held
      · cases within
        exact .inr (.inl rfl)
      · cases within with
        | self => exact .inr (.inr (.inl rfl))
        | property inner within =>
            obtain ⟨⟩ := List.mem_singleton.mp inner
            cases within
            exact .inr (.inr (.inr rfl))

/-- All its keys are texts, and so it can be spelled. -/
theorem spellable_shelf : shelf.Spellable where
  keys := by
    rintro key ⟨traits, properties, required, additional, within, member⟩
    obtain ⟨⟨⟩⟩ | ⟨⟨⟩⟩ | ⟨⟨⟩⟩ | ⟨⟨⟩⟩ := within_shelf within <;>
      simp only [List.map_cons, List.map_nil, List.mem_cons, List.not_mem_nil, or_false] at member
    · exact member.elim (⟨_, ·⟩) (⟨_, ·⟩)
    · exact ⟨_, member⟩
  values traits values within := by
    obtain ⟨⟨⟩⟩ | ⟨⟨⟩⟩ | ⟨⟨⟩⟩ | ⟨⟨⟩⟩ := within_shelf within

/-- Both scopes emit the pet to which it points under the same name. -/
theorem spelledAlike_shelf : shelf.SpelledAlike quietScope crowdedScope := by
  rintro name ⟨traits, pointer, within, named⟩
  obtain ⟨⟨⟩⟩ | ⟨⟨⟩⟩ | ⟨⟨⟩⟩ | ⟨⟨⟩⟩ := within_shelf within
  have isPet : Reference.schemaName? (Reference.schemaRoot ++ "Pet") = some "Pet" := by cbv
  obtain rfl := Option.some.inj (isPet.symm.trans named)
  decide

theorem compile_eq_of_spelledAlike_shelf :
    shelf.SpelledAlike quietScope crowdedScope ∧ shelf.Spellable ∧
      ∃ compiled, (dialect "Schema").compile "Shelf" shelf quietScope = .answer compiled ∧
        (dialect "Schema").compile "Rack" shelf crowdedScope = .answer compiled ∧
        compiled.auxiliary = [] := by
  obtain ⟨same, alone, exists_answer⟩ :=
    compile_eq_of_spelledAlike "Schema" spelledAlike_shelf "Shelf" "Rack"
  obtain ⟨compiled, compiles⟩ := exists_answer spellable_shelf
  exact ⟨spelledAlike_shelf, spellable_shelf, compiled, compiles, same ▸ compiles,
    alone compiled (compiles ▸ rfl)⟩

end Zod

end OpenApi
