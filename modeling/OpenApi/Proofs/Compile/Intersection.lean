import Mathlib
import OpenApi.Proofs.Compile.Independence
import OpenApi.Proofs.Compile.Respelling
import OpenApi.Proofs.Compile.Spliced

/-!
# Intersections without an object

A record whose branches are no objects is the intersection of the definitions it builds on and of its
other parts, each compiled as it would be by itself (`Zod.partText`).  Nothing else is intersected
with them as long as there is a definition to build on; without one an empty object comes first.
-/

namespace OpenApi

/-! ## Leaves without an object -/

def Leaf.isObject : Leaf → Bool
  | object .. => true
  | base _ | extra _ => false

/-- A record without objects among its leaves has no properties and says nothing about them. -/
theorem FlatRecord.fieldless_of_objectless {leaves : List Leaf}
    (objectless : ∀ leaf ∈ leaves, leaf.isObject = false) :
    (ofLeaves leaves).properties = [] ∧ (ofLeaves leaves).additional = .unstated := by
  have properties : leaves.flatMap Leaf.properties = [] := by
    refine List.flatMap_eq_nil_iff.mpr fun leaf member => ?_
    have apart := objectless leaf member
    cases leaf <;> first | rfl | cases apart
  have stated : leaves.filterMap Leaf.stated? = [] := by
    refine List.filterMap_eq_nil_iff.mpr fun leaf member => ?_
    have apart := objectless leaf member
    cases leaf <;> first | rfl | cases apart
  unfold ofLeaves
  rw [properties, stated]
  exact ⟨rfl, rfl⟩

/-- A part of a record that is neither an object nor a base is no record. -/
theorem Schema.isRecord_of_extra {branches : List Schema} {extra : Schema}
    (member : extra ∈ ((Schema.splicedBranches branches).map Schema.leaf).filterMap Leaf.extra?) :
    extra.isRecord = false := by
  obtain ⟨leaf, held, found⟩ := List.mem_filterMap.mp member
  obtain ⟨branch, spliced, rfl⟩ := List.mem_map.mp held
  have apart := Schema.not_allOf_of_mem_splicedBranches branch spliced
  cases branch with
  | object => cases found
  | reference traits pointer =>
      unfold Schema.leaf at found
      dsimp only at found
      split at found
      · cases found
      · cases found
        rfl
  | composition traits kind inner =>
      cases kind with
      | allOf => exact absurd rfl (apart traits inner)
      | oneOf | anyOf =>
          cases found
          simp [isRecord]
  | enumeration | primitive | array | unknown =>
      cases found
      rfl

/-! ## Parts that are compiled by themselves -/

namespace Dialect

variable {dialect : Dialect} {scope around : Scope}

/-- The text of a part that is compiled by itself, with its description. -/
def partText (dialect : Dialect) (name : String) (scope : Scope) (part : Schema) :
    Except Fault String :=
  (dialect.compilePart (fun schema hint scope => dialect.compile hint schema scope) part name
    scope).outcome.map (·.expression)

/-- A part that is no record is compiled as it is by itself, whatever it is called. -/
theorem InPlace.outcome_compilePart (inPlace : dialect.InPlace) {part : Schema} {depth : Nat}
    {hint name : String} (fits : part.size ≤ depth) (other : part.isRecord = false)
    (alike : part.SpelledAlike around scope) :
    (dialect.compilePart (dialect.compileWithin depth) part hint around).outcome.map
      (·.expression) = dialect.partText name scope part := by
  have agree : dialect.compileWithin depth part hint around =
      dialect.compileWithin (part.size + schemaBound scope + 1) part name scope :=
    inPlace.agree_compileWithin fits (by omega) (le_refl _) alike
  unfold partText compilePart
  dsimp only
  rw [compile_of_not_isRecord other, agree]

/-- Parts that are no records are compiled one after the other as they are by themselves. -/
theorem InPlace.outcome_compileParts (inPlace : dialect.InPlace) {parts : List (Schema × String)}
    {depth : Nat} {name : String} (fits : ∀ part ∈ parts, part.1.size ≤ depth)
    (others : ∀ part ∈ parts, part.1.isRecord = false)
    (alike : ∀ target, around.emittedName target = scope.emittedName target) :
    (dialect.compileParts (dialect.compileWithin depth) parts around).outcome.map
        (List.map (·.expression)) =
      (parts.map Prod.fst).mapM (dialect.partText name scope) := by
  induction parts generalizing around with
  | nil => rfl
  | cons part rest ih =>
      obtain ⟨schema, hint⟩ := part
      have first : (dialect.compilePart (dialect.compileWithin depth) schema hint around).outcome.map
          (·.expression) = dialect.partText name scope schema :=
        inPlace.outcome_compilePart (fits _ List.mem_cons_self) (others _ List.mem_cons_self)
          fun target _ => alike target
      have later (names : List String) :
          (dialect.compileParts (dialect.compileWithin depth) rest
            (around.taking names)).outcome.map (List.map (·.expression)) =
              (rest.map Prod.fst).mapM (dialect.partText name scope) := by
        refine ih (fun part member => fits part (List.mem_cons_of_mem _ member))
          (fun part member => others part (List.mem_cons_of_mem _ member)) fun target => ?_
        rw [Scope.emittedName_taking, alike]
      rw [compileParts, List.map_cons, List.mapM_cons, ← first]
      simp only [Traced.outcome_andThen]
      cases (dialect.compilePart (dialect.compileWithin depth) schema hint around).outcome with
      | error fault => rfl
      | ok compiled =>
          rw [← later compiled.auxiliaryNames]
          simp only [bind, Except.bind, Except.map]
          cases (dialect.compileParts (dialect.compileWithin depth) rest
            (around.taking compiled.auxiliaryNames)).outcome with
          | error fault => rfl
          | ok compiledRest => rfl

/-- A record without properties is put together from its bases and other parts. -/
theorem outcome_compileRecord_of_fieldless {compile : Compiling} {schema : Schema} {name : String}
    {flat : FlatRecord} (flattens : flatten scope dialect.nominalBases [] schema = .answer flat)
    (fieldless : flat.properties = []) (unstated : flat.additional = .unstated) :
    (dialect.compileRecord compile schema name scope).outcome =
      (dialect.compileParts compile (flat.extras.zipIdx.map fun extra =>
        (extra.1, s!"{name}Part{extra.2 + 1}")) scope).outcome >>= fun extras =>
          (dialect.assemble name [] (flat.bases.map scope.emittedName) extras .unstated).outcome := by
  unfold compileRecord
  rw [flattens, Traced.answer_andThen, fieldless, unstated]
  simp only [namedProperties, Traced.ofExcept_ok, Traced.answer_andThen, List.map_nil,
    compileParts, List.zipWith_nil_left, scopeAfter_eq, Scope.emittedName_taking]
  exact Traced.outcome_andThen _ _

end Dialect

/-! ## Intersections of bases and other parts -/

namespace Zod

variable {suffix name : String} {scope : Scope}

/-- The object that is put in front where there is nothing to build on. -/
def ownObject (bases : List String) : List String :=
  if bases.isEmpty then ["z.object(\x7b\x7d)"] else []

/-- The bases of a record, parts of its own, and its other parts in order, intersected. -/
def joined (suffix name : String) (scope : Scope) (own : List String) (flat : FlatRecord) :
    Except Fault String :=
  (flat.extras.mapM ((dialect suffix).partText name scope)).map fun parts =>
    intersection (flat.bases.map (fun base => reference suffix (scope.emittedName base)) ++ own ++
      parts)

/-- A record without fields is the intersection of its bases and its other parts. -/
theorem expression_of_fieldless (bases : List String) (extras : List Compiled) :
    ((dialect suffix).assemble name [] (bases.map scope.emittedName) extras .unstated).outcome.map
        (·.expression) =
      .ok (intersection (bases.map (fun base => reference suffix (scope.emittedName base)) ++
        ownObject bases ++ extras.map (·.expression))) := by
  have references : (bases.map scope.emittedName).map (reference suffix) =
      bases.map fun base => reference suffix (scope.emittedName base) := List.map_map
  rw [Dialect.outcome_assemble, ← references]
  cases bases <;> rfl

theorem expression_withNull {schema : Schema} {compiled : Compiled} :
    ((dialect suffix).withNull schema compiled).expression =
      if schema.nullable then compiled.expression ++ ".nullable()" else compiled.expression := by
  unfold Dialect.withNull
  split <;> rfl

section Objectless

variable {traits : Traits} {branches : List Schema} {leaves : List Leaf}
  (listed : (Schema.splicedBranches branches).map Schema.leaf = leaves)
  (objectless : ∀ leaf ∈ leaves, leaf.isObject = false)

include listed

/-- The other parts of a record are smaller than the record, and are no records. -/
theorem extras_of_leaves (traits : Traits) (part : Schema × String) (hint : Schema × Nat → String)
    (member : part ∈ (FlatRecord.ofLeaves leaves).extras.zipIdx.map fun extra =>
      (extra.1, hint extra)) :
    part.1.size < (Schema.composition traits .allOf branches).size ∧ part.1.isRecord = false := by
  have extra : part.1 ∈ (FlatRecord.ofLeaves leaves).extras :=
    Dialect.mem_of_numbered part member
  have joined : (Schema.composition traits .allOf branches).isJoined := rfl
  obtain ⟨flat, inside, flattens⟩ := exists_flatten joined
  have same := (flattens { taken := ∅ } []).symm.trans
    (flatten_composition_structural traits .allOf branches)
  have listedFlat : FlatRecord.ofLeaves leaves = flat := by
    rw [← listed]
    exact (Except.ok.inj (congrArg Traced.outcome same)).symm
  exact ⟨(inside.extras part.1 (listedFlat ▸ extra)).smaller,
    Schema.isRecord_of_extra (listed ▸ extra)⟩

include objectless

/-- A record without objects among its leaves is the intersection of its bases and other parts. -/
theorem outcome_compileRecord_of_objectless {depth : Nat}
    (deep : (Schema.composition traits .allOf branches).size ≤ depth) :
    ((dialect suffix).compileRecord ((dialect suffix).compileWithin depth)
        (.composition traits .allOf branches) name scope).outcome.map (·.expression) =
      joined suffix name scope (ownObject (FlatRecord.ofLeaves leaves).bases) (.ofLeaves leaves) := by
  obtain ⟨fieldless, unstated⟩ := FlatRecord.fieldless_of_objectless objectless
  have flattens : flatten scope (dialect suffix).nominalBases []
      (.composition traits .allOf branches) = .answer (.ofLeaves leaves) :=
    listed ▸ flatten_composition_structural traits .allOf branches
  have extras := extras_of_leaves listed traits
  rw [Dialect.outcome_compileRecord_of_fieldless flattens fieldless unstated]
  generalize parts : (FlatRecord.ofLeaves leaves).extras.zipIdx.map _ = numbered
  have texts : ((dialect suffix).compileParts ((dialect suffix).compileWithin depth) numbered
        scope).outcome.map (List.map (·.expression)) =
      (FlatRecord.ofLeaves leaves).extras.mapM ((dialect suffix).partText name scope) := by
    subst parts
    rw [(inPlace_dialect suffix).outcome_compileParts
      (fun part member => (extras part _ member).1.le.trans deep)
      (fun part member => (extras part _ member).2) fun _ => rfl]
    · rw [List.map_map]
      congr 1
      exact List.zipIdx_map_fst _ _
  unfold joined
  rw [← texts]
  cases ((dialect suffix).compileParts ((dialect suffix).compileWithin depth) numbered
    scope).outcome with
  | error fault => rfl
  | ok compiled => exact expression_of_fieldless _ compiled

end Objectless

/-- An `allOf` of one branch that is no record is compiled as this branch, and null is added. -/
theorem outcome_compile_single {traits : Traits} {branch : Schema} (other : branch.isRecord = false) :
    ((dialect suffix).compile name (.composition traits .allOf [branch]) scope).outcome.map
        (·.expression) =
      ((dialect suffix).partText name scope branch).map fun text =>
        if traits.nullable then text ++ ".nullable()" else text := by
  let node := Schema.composition traits .allOf [branch]
  have notRecord : node.isRecord = false := other
  have smaller : branch.size < node.size := (Schema.below_branch List.mem_cons_self).smaller
  have text : ((dialect suffix).compilePart ((dialect suffix).compileWithin
      (node.size + Dialect.schemaBound scope)) branch name scope).outcome.map (·.expression) =
        (dialect suffix).partText name scope branch :=
    (inPlace_dialect suffix).outcome_compilePart (by omega) other fun target _ => rfl
  rw [Dialect.compile_of_not_isRecord notRecord, Dialect.compileWithin, Dialect.compileCase,
    Dialect.compileComposition, Traced.outcome_andThen, ← text]
  cases ((dialect suffix).compilePart ((dialect suffix).compileWithin
    (node.size + Dialect.schemaBound scope)) branch name scope).outcome with
  | error fault => rfl
  | ok compiled => exact congrArg Except.ok expression_withNull

/-- **A record without objects is the intersection of what it builds on.** An `allOf` with no object
among its branches, at any depth of `allOf`s inside of it, flattens to its bases and its other parts.
If it is a record, it is compiled in every scope to the references of the bases and the other parts,
in this order, and nothing else, as long as it has a base; without one an empty object stands in
front.  If it has a single branch that is no record, it is compiled as this branch, and its own null
is added. -/
theorem intersection_of_objectless (suffix name : String) (traits : Traits) (branches : List Schema)
    (scope : Scope)
    (objectless : ∀ leaf ∈ (Schema.splicedBranches branches).map Schema.leaf,
      leaf.isObject = false) :
    let node := Schema.composition traits .allOf branches
    let flat := FlatRecord.ofLeaves ((Schema.splicedBranches branches).map Schema.leaf)
    let text := ((dialect suffix).compile name node scope).outcome.map (·.expression)
    flatten scope (dialect suffix).nominalBases [] node = .answer flat ∧
      (node.isRecord → text = joined suffix name scope
        (if flat.bases.isEmpty then ["z.object(\x7b\x7d)"] else []) flat) ∧
      ∀ branch, branches = [branch] → branch.isRecord = false →
        text = ((dialect suffix).partText name scope branch).map fun inner =>
          if traits.nullable then inner ++ ".nullable()" else inner := by
  intro node flat text
  refine ⟨flatten_composition_structural traits .allOf branches, fun isRecord => ?_, ?_⟩
  · have deep : node.size ≤ node.size + Dialect.schemaBound scope + 1 := by omega
    simp only [text]
    rw [Dialect.compile_of_isRecord isRecord]
    exact outcome_compileRecord_of_objectless rfl objectless deep
  · rintro branch rfl other
    exact outcome_compile_single other

/-- Branches of a record that builds on another schema and asks for a text. -/
def tameBranches : List Schema :=
  [.reference {} "#/components/schemas/Pet", .primitive {} .string]

theorem leaves_tameBranches : (Schema.splicedBranches tameBranches).map Schema.leaf =
    [.base "Pet", .extra (.primitive {} .string)] := by
  have pointed : Reference.schemaName? "#/components/schemas/Pet" = some "Pet" := by decide
  simp [tameBranches, Schema.splicedBranches, Schema.spliced, Schema.leaf, pointed]

theorem intersection_of_objectless_tame :
    (∀ leaf ∈ (Schema.splicedBranches tameBranches).map Schema.leaf, leaf.isObject = false) ∧
      (Schema.composition {} .allOf tameBranches).isRecord ∧
      ((dialect "Schema").compile "Tame" (.composition {} .allOf tameBranches)
        { taken := ∅ }).outcome.map (·.expression) =
          .ok "z.lazy(() => petSchema).and(z.string())" := by
  have objectless : ∀ leaf ∈ (Schema.splicedBranches tameBranches).map Schema.leaf,
      leaf.isObject = false := by
    simp [leaves_tameBranches, Leaf.isObject]
  have isRecord : (Schema.composition {} .allOf tameBranches).isRecord := by
    simp [tameBranches, Schema.isRecord]
  refine ⟨objectless, isRecord, ?_⟩
  rw [(intersection_of_objectless "Schema" "Tame" {} tameBranches { taken := ∅ } objectless).2.1
    isRecord, leaves_tameBranches]
  cbv

/-- Branches without a schema to build on. -/
def baselessBranches : List Schema := [.primitive {} .string, .enumeration {} [.text "a", .text "b"]]

/-- Without a base an empty object is intersected with the other parts. -/
theorem not_always_intersection :
    ¬ ∀ (suffix name : String) (traits : Traits) (branches : List Schema) (scope : Scope),
      let leaves := (Schema.splicedBranches branches).map Schema.leaf
      (∀ leaf ∈ leaves, leaf.isObject = false) → leaves ≠ [] →
        ((dialect suffix).compile name (.composition traits .allOf branches) scope).outcome.map
          (·.expression) = joined suffix name scope [] (.ofLeaves leaves) := by
  intro always
  have leaves : (Schema.splicedBranches baselessBranches).map Schema.leaf =
      baselessBranches.map .extra := by
    simp [baselessBranches, Schema.splicedBranches, Schema.spliced, Schema.leaf]
  have objectless : ∀ leaf ∈ (Schema.splicedBranches baselessBranches).map Schema.leaf,
      leaf.isObject = false := by
    rw [leaves]
    simp [baselessBranches, Leaf.isObject]
  have joins := always "Schema" "Text" {} baselessBranches { taken := ∅ } objectless
    (leaves ▸ List.cons_ne_nil _ _)
  have compiles : ((dialect "Schema").compile "Text" (.composition {} .allOf baselessBranches)
      { taken := ∅ }).outcome.map (·.expression) =
        .ok "z.object(\x7b\x7d).and(z.string()).and(z.enum([\"a\", \"b\"]))" := by
    cbv
  rw [compiles, leaves] at joins
  have joined : joined "Schema" "Text" { taken := ∅ } [] (.ofLeaves (baselessBranches.map .extra)) =
      .ok "z.string().and(z.enum([\"a\", \"b\"]))" := by
    cbv
  exact absurd (Except.ok.inj (joins.trans joined)) (by decide)

end Zod

end OpenApi
