import Mathlib.Logic.Relation
import OpenApi.Proofs.Compile.Branches
import OpenApi.Proofs.Compile.Independence

/-!
# What a record draws on

A record draws on a schema if one of its branches points to it and it is emitted later, so that its
fields are copied; and a schema whose fields are copied may copy from others in turn.  The parts of
a flattened record stand below the record itself or below a schema that is reached in this way
(`Scope.Drawn`), and nothing else comes of flattening it, except that a schema of the map cannot be
read (`endsAs_flatten`).
-/

namespace OpenApi

open Relation

theorem Schema.BranchOf.isBelow {branch whole : Schema} (branchOf : branch.BranchOf whole) :
    branch.Below whole := by
  induction branchOf with
  | direct member => exact below_branch member
  | nested member below ih => exact ih.trans (below_branch member)

theorem Schema.BranchOf.trans {inner branch whole : Schema} (inside : inner.BranchOf branch)
    (branchOf : branch.BranchOf whole) : inner.BranchOf whole := by
  induction branchOf with
  | direct member => exact .nested member inside
  | nested member below ih => exact .nested member ih

/-- Why a schema of the map cannot be read. -/
def Mapping.HasUnread (schemas : Mapping) (fault : Fault) : Prop :=
  ∃ name raw, Mapping.find? schemas name = some raw ∧ Schema.ofValue raw = .error fault

namespace Scope

variable (scope : Scope) (nominal : Bool)

/-- A record copies the fields of a schema: a branch of the record points to the schema, which is
emitted later. -/
def Draws (whole : Schema) (base : String) : Prop :=
  ∃ branch : Schema, branch.BranchOf whole ∧ scope.Points nominal branch base ∧
    scope.emittedLater nominal base

/-- Anywhere in a schema of the map stands a record that copies the fields of another schema. -/
def Copies (source base : String) : Prop :=
  ∃ whole part, Named scope.schemas source whole ∧ part.Within whole ∧
    scope.Draws nominal part base

/-- A schema is a part of a record: it stands below the record, or below a schema whose fields the
record copies, directly or because a schema that it copies from does. -/
def Drawn (whole part : Schema) : Prop :=
  part.Below whole ∨ ∃ first base schema, scope.Draws nominal whole first ∧
    ReflTransGen (scope.Copies nominal) first base ∧ Named scope.schemas base schema ∧
    part.Below schema

/-- A key is declared in a schema or in a schema of the map. -/
def Knows (root : Schema) (key : Scalar) : Prop :=
  ∃ holder : Schema, holder.PartOf scope.schemas root ∧ holder.DeclaresKey key

end Scope

/-- All that a flattened record consists of is drawn from a schema. -/
abbrev FlatRecord.DrawnFrom (scope : Scope) (nominal : Bool) (whole : Schema) (flat : FlatRecord) :
    Prop :=
  flat.All (fun _ => True) (scope.Knows whole) (scope.Drawn nominal whole)

section Drawn

variable {scope : Scope} {nominal : Bool} {branch part schema whole root : Schema} {base : String}
  {flat : FlatRecord}

/-- What a branch draws on, the whole draws on. -/
theorem Scope.Draws.of_branch (draws : scope.Draws nominal branch base)
    (branchOf : branch.BranchOf whole) : scope.Draws nominal whole base := by
  obtain ⟨pointer, within, points, later⟩ := draws
  exact ⟨pointer, within.trans branchOf, points, later⟩

theorem Scope.Drawn.of_branch (drawn : scope.Drawn nominal branch part)
    (branchOf : branch.BranchOf whole) : scope.Drawn nominal whole part := by
  rcases drawn with below | ⟨first, base, schema, draws, chain, named, below⟩
  · exact .inl (below.trans branchOf.isBelow)
  · exact .inr ⟨first, base, schema, draws.of_branch branchOf, chain, named, below⟩

/-- What is drawn from a schema is drawn from a record that copies its fields. -/
theorem Scope.Drawn.of_draws (drawn : scope.Drawn nominal schema part)
    (draws : scope.Draws nominal whole base) (named : Named scope.schemas base schema) :
    scope.Drawn nominal whole part := by
  rcases drawn with below | ⟨first, last, other, further, chain, alsoNamed, below⟩
  · exact .inr ⟨base, base, schema, draws, .refl, named, below⟩
  · exact .inr ⟨base, last, other, draws, .head ⟨schema, schema, named, .self _, further⟩ chain,
      alsoNamed, below⟩

/-- What is drawn from a schema is a part of whatever the schema is a part of. -/
theorem Scope.Drawn.partOf (drawn : scope.Drawn nominal whole part)
    (outer : whole.PartOf scope.schemas root) : part.PartOf scope.schemas root := by
  rcases drawn with below | ⟨first, base, schema, draws, chain, named, below⟩
  · exact outer.within below.within
  · exact (Schema.PartOf.of_named named).within below.within

theorem Scope.Knows.partOf {key : Scalar} (knows : scope.Knows part key)
    (outer : part.PartOf scope.schemas root) : scope.Knows root key := by
  obtain ⟨holder, partOf, declares⟩ := knows
  rcases partOf with direct | known
  · exact ⟨holder, outer.within direct, declares⟩
  · exact ⟨holder, .inr known, declares⟩

/-- A record drawn from a branch is drawn from the whole. -/
theorem FlatRecord.All.of_branch (drawn : flat.DrawnFrom scope nominal branch)
    (branchOf : branch.BranchOf whole) : flat.DrawnFrom scope nominal whole :=
  drawn.imp (fun _ _ => trivial) (fun _ knows => knows.partOf (.inl branchOf.within))
    fun _ part => part.of_branch branchOf

/-- A record drawn from a base is drawn from every schema that draws on the base. -/
theorem FlatRecord.All.of_draws (drawn : flat.DrawnFrom scope nominal schema)
    (draws : scope.Draws nominal whole base) (named : Named scope.schemas base schema) :
    flat.DrawnFrom scope nominal whole :=
  drawn.imp (fun _ _ => trivial) (fun _ knows => knows.partOf (.of_named named))
    fun _ part => part.of_draws draws named

end Drawn

/-! ## What comes of flattening -/

/-- A search for a record fails if a schema on its way cannot be read. -/
theorem hasUnread_of_recordBehind? {schemas : Mapping} {passed : List String} {name : String}
    {fault : Fault} (failed : recordBehind? schemas passed name = .error fault) :
    schemas.HasUnread fault := by
  induction passed, name using recordBehind?.induct schemas with
  | case1 passed name missing =>
      unfold recordBehind? at failed
      split at failed
      · cases failed
      · next raw held => rw [missing] at held; cases held
  | case2 passed name raw held member =>
      unfold recordBehind? at failed
      split at failed
      · cases failed
      · simp [member] at failed
  | case3 passed name raw held fresh ih =>
      unfold recordBehind? at failed
      split at failed
      · cases failed
      · next other alsoHeld =>
          rw [dif_neg fresh] at failed
          cases read : Schema.ofValue other with
          | error cause =>
              rw [read] at failed
              cases failed
              exact ⟨name, other, alsoHeld, read⟩
          | ok schema =>
              rw [read] at failed
              dsimp only [bind, Except.bind] at failed
              split at failed
              · cases failed
              · split at failed
                · next next isAlias => exact ih next failed
                · cases failed

variable {scope : Scope} {nominal : Bool}

/-- The base of a pointer is looked for, and this fails if a schema cannot be read. -/
theorem endsAs_base? (traits : Traits) {pointer name : String}
    (pointed : Reference.schemaName? pointer = some name) :
    EndsAs (fun found => ∀ base, found = some base →
        scope.Points nominal (.reference traits pointer) base)
      scope.schemas.HasUnread (scope.base? nominal name).outcome := by
  cases search : (scope.base? nominal name).outcome with
  | ok found =>
      rintro base rfl
      exact ⟨traits, pointer, name, rfl, pointed, search⟩
  | error fault =>
      unfold Scope.base? at search
      split at search
      · split at search
        · cases search
        · cases search
        · next failed =>
            obtain rfl := Except.error.inj search
            exact hasUnread_of_recordBehind? failed
      · cases search

/-- A schema whose fields are copied is a record. -/
theorem Scope.Points.isRecord {branch schema : Schema} {base : String}
    (points : scope.Points nominal branch base) (later : scope.emittedLater nominal base)
    (named : Named scope.schemas base schema) : schema.isRecord := by
  cases nominal with
  | false => cases later
  | true =>
      obtain ⟨_, _, _, _, _, found⟩ := points.found named.has
      obtain ⟨record, alsoNamed, isRecord⟩ := named_of_recordBehind? found
      exact named.unique alsoNamed ▸ isRecord

variable (scope nominal)

/-- Flattening a schema yields a record that is drawn from it. -/
abbrev FlattensDrawn (copying : List String) (schema : Schema) : Prop :=
  schema.isJoined → EndsAs (·.DrawnFrom scope nominal schema) scope.schemas.HasUnread
    (flatten scope nominal copying schema).outcome

/-- Taking branches into a record that is drawn from a schema yields another one. -/
abbrev TakesBranches (copying : List String) (flat : FlatRecord) (branches : List Schema) : Prop :=
  ∀ whole : Schema, (∀ branch ∈ branches, branch.BranchOf whole) →
    flat.DrawnFrom scope nominal whole →
    EndsAs (·.DrawnFrom scope nominal whole) scope.schemas.HasUnread
      (flattenBranches scope nominal copying flat branches).outcome

/-- Taking a branch into a record that is drawn from a schema yields another one. -/
abbrev TakesBranch (copying : List String) (flat : FlatRecord) (branch : Schema) : Prop :=
  ∀ whole : Schema, branch.BranchOf whole → flat.DrawnFrom scope nominal whole →
    EndsAs (·.DrawnFrom scope nominal whole) scope.schemas.HasUnread
      (flattenBranch scope nominal copying flat branch).outcome

variable {scope nominal}

theorem drawnFrom_ofObject {traits : Traits} {properties : Option (List (Scalar × Schema))}
    {required : List Scalar} {additional : Additional Schema} :
    (FlatRecord.ofObject properties required additional).DrawnFrom scope nominal
      (.object traits properties required additional) := by
  refine .ofObject required ?_ ?_
  · rintro declared rfl property member
    exact ⟨⟨_, .inl (.self _), _, _, _, _, .self _, List.mem_map_of_mem member⟩,
      .inl (Schema.below_property member)⟩
  · rintro content rfl
    exact .inl Schema.below_content

/-- A branch that is flattened itself is taken in. -/
theorem endsAs_absorb {copying : List String} {flat : FlatRecord} {branch whole : Schema}
    (inner : FlattensDrawn scope nominal copying branch) (joined : branch.isJoined)
    (branchOf : branch.BranchOf whole) (drawn : flat.DrawnFrom scope nominal whole) :
    EndsAs (·.DrawnFrom scope nominal whole) scope.schemas.HasUnread
      ((flatten scope nominal copying branch).andThen
        fun inner => .answer (flat.absorb inner)).outcome :=
  Traced.endsAs_andThen (inner joined) fun _ _ more => drawn.absorb (more.of_branch branchOf)

/-- A pointer gives a part that is no object, a base, or the fields of a schema. -/
theorem takesBranch_pointer {copying : List String} {flat : FlatRecord} {traits : Traits}
    {pointer name : String} (pointed : Reference.schemaName? pointer = some name)
    (deeper : ∀ base raw, scope.schemas.find? base = some raw → base ∉ copying →
      ∀ schema, FlattensDrawn scope nominal (base :: copying) schema) :
    TakesBranch scope nominal copying flat (.reference traits pointer) := by
  intro whole branchOf drawn
  rw [flattenBranch, pointed]
  refine Traced.endsAs_andThen (endsAs_base? traits pointed) fun found _ points => ?_
  cases found with
  | none => exact drawn.withExtra (.inl branchOf.isBelow)
  | some base =>
      have points := points base rfl
      dsimp only
      split
      · next later =>
          split
          · exact drawn
          · next raw held =>
              split
              · exact drawn
              · next fresh =>
                  have reading : EndsAs (fun _ => True) scope.schemas.HasUnread
                      (Schema.ofValue raw) := by
                    cases read : Schema.ofValue raw with
                    | ok schema => trivial
                    | error fault => exact ⟨base, raw, held, read⟩
                  refine Traced.endsAs_andThen reading fun schema read _ => ?_
                  have named : Named scope.schemas base schema := ⟨raw, held, read⟩
                  have joined := Schema.isJoined_of_isRecord (points.isRecord later named)
                  refine Traced.endsAs_andThen (deeper base raw held fresh schema joined) ?_
                  intro inner _ more
                  exact drawn.absorb (more.of_draws ⟨_, branchOf, points, later⟩ named)
      · exact drawn.withBase trivial

/-- Flattening takes the branches of a record in turn, and whatever it takes in is drawn from the
record. -/
theorem flattens_drawn :
    (∀ copying schema, FlattensDrawn scope nominal copying schema) ∧
      (∀ copying flat branches, TakesBranches scope nominal copying flat branches) ∧
      ∀ copying flat branch, TakesBranch scope nominal copying flat branch := by
  apply flatten.mutual_induct scope (FlattensDrawn scope nominal) (TakesBranches scope nominal)
    (TakesBranch scope nominal)
  case case1 => -- an object
    intro copying traits properties required additional joined
    rw [flatten]
    exact drawnFrom_ofObject
  case case2 => -- a composition
    intro copying traits kind branches taken joined
    obtain rfl := Schema.isJoined_composition_iff.mp joined
    rw [flatten]
    exact taken _ (fun branch member => .direct member) .empty
  case case3 => -- any other schema is no record
    intro copying other notObject notComposition joined
    cases other with
    | object => exact absurd rfl (notObject _ _ _ _)
    | composition => exact absurd rfl (notComposition _ _ _)
    | reference | enumeration | primitive | array | unknown => cases joined
  case case4 => -- no branch is left
    intro copying flat whole branches drawn
    rw [flattenBranches]
    exact drawn
  case case5 => -- a branch and those after it
    intro copying flat branch rest first later whole branches drawn
    rw [flattenBranches]
    refine Traced.endsAs_andThen (first whole (branches _ List.mem_cons_self) drawn) ?_
    intro between _ drawn
    exact later between whole (fun other member => branches other (List.mem_cons_of_mem _ member))
      drawn
  case case6 => -- a pointer out of the document
    intro copying flat traits pointer unnamed whole branchOf drawn
    rw [flattenBranch, unnamed]
    exact drawn.withExtra (.inl branchOf.isBelow)
  case case7 => -- a pointer to a name
    intro copying flat traits pointer name pointed deeper
    exact takesBranch_pointer pointed deeper
  case case8 => -- an object as a branch
    intro copying flat traits properties required additional inner whole branchOf drawn
    rw [flattenBranch]
    exact endsAs_absorb inner rfl branchOf drawn
  case case9 => -- an `allOf` as a branch
    intro copying flat traits branches inner whole branchOf drawn
    rw [flattenBranch]
    exact endsAs_absorb inner rfl branchOf drawn
  case case10 => -- any other branch
    intro copying flat other notReference notObject notAllOf whole branchOf drawn
    rw [flattenBranch]
    · exact drawn.withExtra (.inl branchOf.isBelow)
    · exact notReference
    · exact notObject
    · exact notAllOf

/-- Flattening a record ends with a flat record that is drawn from it, or a schema of the map cannot
be read. -/
theorem endsAs_flatten {schema : Schema} (joined : schema.isJoined) :
    EndsAs (·.DrawnFrom scope nominal schema) scope.schemas.HasUnread
      (flatten scope nominal [] schema).outcome :=
  flattens_drawn.1 [] schema joined

end OpenApi
