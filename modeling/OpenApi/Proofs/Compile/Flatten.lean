import Mathlib.Tactic.ByContra
import OpenApi.Compile.Record
import OpenApi.Proofs.Keyed
import OpenApi.Proofs.Mapping
import OpenApi.Proofs.Traced

/-!
# How records are flattened

Flattening goes through the branches of a composition from left to right, and each branch does one
of a few things to the record collected so far: it adds a base or a part that is not an object,
takes another record in, or is left out because its fields are already being copied
(`Flattens`).  Flattening takes just these steps (`flattens_of_yields`, `Flattens.yields`), so
whatever holds of flattened records is proved by induction on them.
-/

namespace OpenApi

/-- Whether a branch is taken apart when a record is flattened: an object or an `allOf`. -/
def Schema.isJoined : Schema → Bool
  | object .. => true
  | composition _ .allOf _ => true
  | _ => false

/-- A branch is no object, and no record stands behind it. -/
def Scope.Apart (scope : Scope) (nominal : Bool) (branch : Schema) : Prop :=
  branch.isJoined = false ∧ ∀ traits pointer name, branch = .reference traits pointer →
    Reference.schemaName? pointer = some name → (scope.base? nominal name).Yields none

/-- A branch is a pointer to a schema, and this is the base found behind it. -/
def Scope.Points (scope : Scope) (nominal : Bool) (branch : Schema) (base : String) : Prop :=
  ∃ traits pointer name, branch = .reference traits pointer ∧
    Reference.schemaName? pointer = some name ∧ (scope.base? nominal name).Yields (some base)

/-- How a record is flattened while the fields of some schemas are being copied, branch after
branch. -/
inductive Flattens (scope : Scope) (nominal : Bool) : List String → Schema → FlatRecord → Prop
  | object {copying : List String} {traits : Traits}
      {properties : Option (List (Scalar × Schema))} {required : List Scalar}
      {additional : Additional Schema} :
      Flattens scope nominal copying (.object traits properties required additional)
        (.ofObject properties required additional)
  | lone {copying : List String} {schema : Schema}
      (plain : ∀ traits kind branches, schema ≠ .composition traits kind branches)
      (apart : schema.isJoined = false) :
      Flattens scope nominal copying schema { extras := [schema] }
  | start {copying : List String} {traits : Traits} {kind : Composition} :
      Flattens scope nominal copying (.composition traits kind []) {}
  | extra {copying : List String} {traits : Traits} {kind : Composition} {branches : List Schema}
      {flat : FlatRecord} {branch : Schema}
      (before : Flattens scope nominal copying (.composition traits kind branches) flat)
      (apart : scope.Apart nominal branch) :
      Flattens scope nominal copying (.composition traits kind (branches ++ [branch]))
        (flat.withExtra branch)
  | inherit {copying : List String} {traits : Traits} {kind : Composition} {branches : List Schema}
      {flat : FlatRecord} {branch : Schema} {base : String}
      (before : Flattens scope nominal copying (.composition traits kind branches) flat)
      (points : scope.Points nominal branch base)
      (defined : scope.emittedLater nominal base = false) :
      Flattens scope nominal copying (.composition traits kind (branches ++ [branch]))
        (flat.withBase base)
  | skip {copying : List String} {traits : Traits} {kind : Composition} {branches : List Schema}
      {flat : FlatRecord} {branch : Schema} {base : String}
      (before : Flattens scope nominal copying (.composition traits kind branches) flat)
      (points : scope.Points nominal branch base) (later : scope.emittedLater nominal base = true)
      (underway : base ∈ copying) :
      Flattens scope nominal copying (.composition traits kind (branches ++ [branch])) flat
  | copy {copying : List String} {traits : Traits} {kind : Composition} {branches : List Schema}
      {flat inner : FlatRecord} {branch : Schema} {base : String} {raw : Value} {schema : Schema}
      (before : Flattens scope nominal copying (.composition traits kind branches) flat)
      (points : scope.Points nominal branch base) (later : scope.emittedLater nominal base = true)
      (fresh : base ∉ copying) (held : scope.schemas.find? base = some raw)
      (read : Schema.ofValue raw = .ok schema)
      (copied : Flattens scope nominal (base :: copying) schema inner) :
      Flattens scope nominal copying (.composition traits kind (branches ++ [branch]))
        (flat.absorb inner)
  | join {copying : List String} {traits : Traits} {kind : Composition} {branches : List Schema}
      {flat inner : FlatRecord} {branch : Schema}
      (before : Flattens scope nominal copying (.composition traits kind branches) flat)
      (joined : branch.isJoined) (below : Flattens scope nominal copying branch inner) :
      Flattens scope nominal copying (.composition traits kind (branches ++ [branch]))
        (flat.absorb inner)

variable {scope : Scope} {nominal : Bool} {copying : List String}

theorem Scope.has_of_emittedLater {base : String} (later : scope.emittedLater nominal base = true) :
    scope.schemas.has base := by
  unfold emittedLater at later
  simp only [Bool.and_eq_true] at later
  exact later.1.2

section Runs

variable {traits : Traits} {kind : Composition} {passed : List Schema} {flat result : FlatRecord}
  (deeper : ∀ base ∉ copying, scope.schemas.has base → ∀ schema flat,
    (flatten scope nominal (base :: copying) schema).Yields flat →
      Flattens scope nominal (base :: copying) schema flat)

include deeper

/-- A pointer takes one of the steps. -/
private theorem flattens_pointer {target : Traits} {pointer : String}
    (before : Flattens scope nominal copying (.composition traits kind passed) flat)
    (run : (flattenBranch scope nominal copying flat (.reference target pointer)).Yields result) :
    Flattens scope nominal copying
      (.composition traits kind (passed ++ [.reference target pointer])) result := by
  rw [flattenBranch] at run
  split at run
  · next unnamed =>
      rw [Traced.yields_answer] at run
      refine run ▸ before.extra ⟨rfl, ?_⟩
      rintro _ _ name ⟨⟩ named
      rw [unnamed] at named
      cases named
  · next name named =>
      obtain ⟨found, search, run⟩ := Traced.yields_andThen.mp run
      split at run
      · rw [Traced.yields_answer] at run
        refine run ▸ before.extra ⟨rfl, ?_⟩
        rintro _ _ other ⟨⟩ alsoNamed
        rw [named] at alsoNamed
        cases alsoNamed
        exact search
      · next base =>
          have points : scope.Points nominal (.reference target pointer) base :=
            ⟨target, pointer, name, rfl, named, search⟩
          split at run
          · next later =>
              have present := Scope.has_of_emittedLater later
              split at run
              · next missing =>
                  rw [Mapping.has, missing] at present
                  cases present
              · next raw held =>
                  split at run
                  · next underway =>
                      rw [Traced.yields_answer] at run
                      exact run ▸ before.skip points later underway
                  · next fresh =>
                      obtain ⟨schema, read, run⟩ := Traced.yields_andThen.mp run
                      obtain ⟨inner, copied, run⟩ := Traced.yields_andThen.mp run
                      rw [Traced.yields_answer] at run
                      refine run ▸ before.copy points later fresh held read ?_
                      exact deeper base fresh present schema inner copied
          · next defined =>
              rw [Traced.yields_answer] at run
              exact run ▸ before.inherit points (Bool.eq_false_iff.mpr defined)

/-- A branch takes one of the steps. -/
private theorem flattens_branch {branch : Schema}
    (below : ∀ flat, (flatten scope nominal copying branch).Yields flat →
      Flattens scope nominal copying branch flat)
    (before : Flattens scope nominal copying (.composition traits kind passed) flat)
    (run : (flattenBranch scope nominal copying flat branch).Yields result) :
    Flattens scope nominal copying (.composition traits kind (passed ++ [branch])) result := by
  have joins (joined : branch.isJoined) (taken : ((flatten scope nominal copying branch).andThen
      fun inner => .answer (flat.absorb inner)).Yields result) :
      Flattens scope nominal copying (.composition traits kind (passed ++ [branch])) result := by
    obtain ⟨inner, flattened, same⟩ := Traced.yields_andThen.mp taken
    rw [Traced.yields_answer] at same
    exact same ▸ before.join joined (below inner flattened)
  have apart (other : branch.isJoined = false)
      (notReference : ∀ traits pointer, branch ≠ .reference traits pointer)
      (added : (Traced.answer (flat.withExtra branch)).Yields result) :
      Flattens scope nominal copying (.composition traits kind (passed ++ [branch])) result := by
    rw [Traced.yields_answer] at added
    refine added ▸ before.extra ⟨other, ?_⟩
    intro traits pointer name same
    exact absurd same (notReference traits pointer)
  cases branch with
  | reference target pointer => exact flattens_pointer deeper before run
  | object target properties required additional =>
      rw [flattenBranch] at run
      exact joins rfl run
  | composition target joint inner =>
      cases joint with
      | allOf =>
          rw [flattenBranch] at run
          exact joins rfl run
      | oneOf | anyOf => exact apart rfl (by simp) (by simpa [flattenBranch] using run)
  | enumeration | primitive | array | unknown =>
      exact apart rfl (by simp) (by simpa [flattenBranch] using run)

/-- Every branch of a composition takes one of the steps. -/
private theorem flattens_branches {rest : List Schema}
    (below : ∀ branch ∈ rest, ∀ flat, (flatten scope nominal copying branch).Yields flat →
      Flattens scope nominal copying branch flat)
    (before : Flattens scope nominal copying (.composition traits kind passed) flat)
    (run : (flattenBranches scope nominal copying flat rest).Yields result) :
    Flattens scope nominal copying (.composition traits kind (passed ++ rest)) result := by
  induction rest generalizing passed flat with
  | nil =>
      rw [flattenBranches, Traced.yields_answer] at run
      rw [List.append_nil]
      exact run ▸ before
  | cons branch rest ih =>
      rw [flattenBranches] at run
      obtain ⟨between, step, remaining⟩ := Traced.yields_andThen.mp run
      have stepped := flattens_branch deeper (below branch List.mem_cons_self) before step
      have regrouped := ih (fun other member => below other (List.mem_cons_of_mem _ member))
        stepped remaining
      rwa [List.append_assoc, List.singleton_append] at regrouped

/-- Flattening takes these steps, if it does where one more schema is being copied. -/
private theorem flattens_of_deeper {schema : Schema}
    (run : (flatten scope nominal copying schema).Yields flat) :
    Flattens scope nominal copying schema flat := by
  induction sized : sizeOf schema using Nat.strongRecOn generalizing schema flat with
  | ind size ih =>
      cases schema with
      | object traits properties required additional =>
          rw [flatten, Traced.yields_answer] at run
          exact run ▸ .object
      | composition traits kind branches =>
          rw [flatten] at run
          have started : Flattens scope nominal copying (.composition traits kind []) {} := .start
          refine flattens_branches deeper (fun branch member inner flattened => ?_) started run
          refine ih (sizeOf branch) ?_ flattened rfl
          have smaller := List.sizeOf_lt_of_mem member
          rw [← sized, Schema.composition.sizeOf_spec]
          omega
      | reference | enumeration | primitive | array | unknown =>
          rw [flatten, Traced.yields_answer] at run
          · exact run ▸ .lone (by simp) rfl
          all_goals simp

end Runs

/-- Flattening a record takes these steps. -/
theorem flattens_of_yields {schema : Schema} {flat : FlatRecord}
    (run : (flatten scope nominal copying schema).Yields flat) :
    Flattens scope nominal copying schema flat := by
  induction left : Graph.unseen scope.schemas.names copying using Nat.strongRecOn
      generalizing copying schema flat with
  | ind count ih =>
      refine flattens_of_deeper (fun base fresh present other inner flattened => ?_) run
      have fewer := Graph.unseen_cons_lt (Mapping.has_iff_mem_names.mp present) fresh
      exact ih _ (left ▸ fewer) flattened rfl

/-! ## Every such way is taken -/

/-- The last branch is taken into what the branches before it come to. -/
theorem flattenBranches_concat {flat : FlatRecord} {passed : List Schema} {branch : Schema} :
    flattenBranches scope nominal copying flat (passed ++ [branch]) =
      (flattenBranches scope nominal copying flat passed).andThen fun between =>
        flattenBranch scope nominal copying between branch := by
  induction passed generalizing flat with
  | nil =>
      have nothing (flat : FlatRecord) :
          flattenBranches scope nominal copying flat [] = .answer flat := by rw [flattenBranches]
      rw [List.nil_append, nothing, Traced.answer_andThen, flattenBranches, funext nothing]
      exact Traced.andThen_answer _
  | cons first rest ih =>
      rw [List.cons_append, flattenBranches, flattenBranches, Traced.andThen_assoc]
      simp only [ih]

theorem yields_flattenBranches_concat {flat result : FlatRecord} {passed : List Schema}
    {branch : Schema} :
    (flattenBranches scope nominal copying flat (passed ++ [branch])).Yields result ↔
      ∃ between, (flattenBranches scope nominal copying flat passed).Yields between ∧
        (flattenBranch scope nominal copying between branch).Yields result := by
  rw [flattenBranches_concat, Traced.yields_andThen]

/-- A pointer with a base takes the step of its base. -/
theorem yields_flattenBranch_of_points {branch : Schema} {base : String} {flat result : FlatRecord}
    (points : scope.Points nominal branch base)
    (step : (if scope.emittedLater nominal base then
        match scope.schemas.find? base with
        | none => .answer flat
        | some raw =>
          if base ∈ copying then .answer flat
          else
            (Traced.ofExcept (Schema.ofValue raw)).andThen fun schema =>
              (flatten scope nominal (base :: copying) schema).andThen fun inner =>
                .answer (flat.absorb inner)
      else .answer (flat.withBase base) : Traced FlatRecord).Yields result) :
    (flattenBranch scope nominal copying flat branch).Yields result := by
  obtain ⟨traits, pointer, name, rfl, pointed, search⟩ := points
  rw [flattenBranch, pointed]
  refine Traced.yields_andThen.mpr ⟨some base, search, ?_⟩
  dsimp only
  split at step
  · next later =>
      rw [if_pos later]
      split
      · next missing => rwa [missing] at step
      · next raw held =>
          rw [held] at step
          dsimp only at step
          split at step
          · next underway => rwa [dif_pos underway]
          · next fresh => rwa [dif_neg fresh]
  · next defined => rwa [if_neg defined]

theorem yields_flattenBranch_of_apart {branch : Schema} {flat : FlatRecord}
    (apart : scope.Apart nominal branch) :
    (flattenBranch scope nominal copying flat branch).Yields (flat.withExtra branch) := by
  obtain ⟨other, baseless⟩ := apart
  cases branch with
  | reference traits pointer =>
      rw [flattenBranch]
      cases named : Reference.schemaName? pointer with
      | none => exact Traced.yields_answer.mpr rfl
      | some name =>
          refine Traced.yields_andThen.mpr ⟨none, baseless traits pointer name rfl named, ?_⟩
          exact Traced.yields_answer.mpr rfl
  | object => cases other
  | composition traits kind branches =>
      cases kind with
      | allOf => cases other
      | oneOf | anyOf => simp [flattenBranch]
  | enumeration | primitive | array | unknown => simp [flattenBranch]

theorem yields_flattenBranch_of_joined {branch : Schema} {flat inner : FlatRecord}
    (joined : branch.isJoined) (below : (flatten scope nominal copying branch).Yields inner) :
    (flattenBranch scope nominal copying flat branch).Yields (flat.absorb inner) := by
  have absorbed : ((flatten scope nominal copying branch).andThen
      fun inner => .answer (flat.absorb inner)).Yields (flat.absorb inner) :=
    Traced.yields_andThen.mpr ⟨inner, below, Traced.yields_answer.mpr rfl⟩
  cases branch with
  | object =>
      rw [flattenBranch]
      exact absorbed
  | composition traits kind branches =>
      cases kind with
      | allOf =>
          rw [flattenBranch]
          exact absorbed
      | oneOf | anyOf => cases joined
  | reference | enumeration | primitive | array | unknown => cases joined

/-- A record that is flattened by these steps is what flattening yields. -/
theorem Flattens.yields {schema : Schema} {flat : FlatRecord}
    (flattens : Flattens scope nominal copying schema flat) :
    (flatten scope nominal copying schema).Yields flat := by
  induction flattens with
  | object =>
      rw [flatten]
      exact Traced.yields_answer.mpr rfl
  | @lone _ schema plain apart =>
      cases schema with
      | composition traits kind branches => exact absurd rfl (plain traits kind branches)
      | object => cases apart
      | reference | enumeration | primitive | array | unknown => simp [flatten]
  | start =>
      rw [flatten, flattenBranches]
      exact Traced.yields_answer.mpr rfl
  | extra before apart ih =>
      rw [flatten] at ih ⊢
      exact yields_flattenBranches_concat.mpr ⟨_, ih, yields_flattenBranch_of_apart apart⟩
  | inherit before points defined ih =>
      rw [flatten] at ih ⊢
      refine yields_flattenBranches_concat.mpr ⟨_, ih, yields_flattenBranch_of_points points ?_⟩
      simp [defined]
  | skip before points later underway ih =>
      rw [flatten] at ih ⊢
      refine yields_flattenBranches_concat.mpr ⟨_, ih, yields_flattenBranch_of_points points ?_⟩
      rw [if_pos later]
      split
      · exact Traced.yields_answer.mpr rfl
      · rw [if_pos underway]
        exact Traced.yields_answer.mpr rfl
  | copy before points later fresh held read copied ih ihCopied =>
      rw [flatten] at ih ⊢
      refine yields_flattenBranches_concat.mpr ⟨_, ih, yields_flattenBranch_of_points points ?_⟩
      rw [if_pos later, held]
      dsimp only
      rw [if_neg fresh, read]
      exact Traced.yields_andThen.mpr ⟨_, Traced.yields_ofExcept.mpr rfl,
        Traced.yields_andThen.mpr ⟨_, ihCopied, Traced.yields_answer.mpr rfl⟩⟩
  | join before joined below ih ihBelow =>
      rw [flatten] at ih ⊢
      exact yields_flattenBranches_concat.mpr ⟨_, ih, yields_flattenBranch_of_joined joined ihBelow⟩

end OpenApi
