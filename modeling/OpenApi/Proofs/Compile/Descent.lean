import Mathlib.Data.Prod.Lex
import Mathlib.Logic.Function.Iterate
import OpenApi.Compile
import OpenApi.Proofs.Compile.Aliases
import OpenApi.Proofs.Schema.Size

/-!
# Why copying fields ends

Flattening a record calls itself for two reasons.  A branch that is an object or an `allOf` is
flattened on its own, and it is smaller.  A base that is emitted later is flattened in its place,
and that schema may be of any size; but its name joins the names under way, which it was not among
before, so fewer schemas are left to copy.  Hence the pair of the number of schemas that are not
under way and of the size of the schema goes down at every call, in the lexicographic order
(`FlattenCall.Calls.rank_lt`), and cycles of bases, of aliases or of both cannot go on for ever.

To say this of a function, its body is written down with the calls left open.  The function then
settles if it is what its body makes of it, asks for nothing but the calls, and each of them is of
lower rank (`Recursion.Settles`).
-/

namespace OpenApi

/-! ## Functions that call themselves -/

/-- A function comes to an end on every argument.  `body` is what it does with an argument, given
its answers to the calls. -/
structure Recursion.Settles {α β ρ : Type} [LT ρ] [WellFoundedLT ρ] (body : (α → β) → α → β)
    (Calls : α → α → Prop) (rank : α → ρ) (depth : α → Nat) (run : α → β) : Prop where
  /-- The function is its body with the function itself for the calls. -/
  unfolds (whole : α) : run whole = body run whole
  /-- The body looks at no answers but those to the calls. -/
  confined {whole : α} {answers others : α → β}
    (same : ∀ part, Calls whole part → answers part = others part) :
    body answers whole = body others whole
  /-- Each call is of lower rank. -/
  descends {whole part : α} (calls : Calls whole part) : rank part < rank whole
  /-- Where the body is put into itself more often than the depth, no call is left open: whatever
  would be answered to the innermost ones, it is not asked for. -/
  settles (whole : α) (answers : α → β) (count : Nat) (deep : depth whole < count) :
    body^[count] answers whole = run whole

namespace Recursion

variable {α β : Type} {body : (α → β) → α → β} {Calls : α → α → Prop} {depth : α → Nat}
  {run : α → β}

/-- A body that asks for less deep calls only has answered them all at some point. -/
theorem iterate_eq (unfolds : ∀ whole, run whole = body run whole)
    (confined : ∀ {whole : α} {answers others : α → β},
      (∀ part, Calls whole part → answers part = others part) →
        body answers whole = body others whole)
    (shrinks : ∀ {whole part : α}, Calls whole part → depth part < depth whole)
    (whole : α) (answers : α → β) (count : Nat) (deep : depth whole < count) :
    body^[count] answers whole = run whole := by
  induction count generalizing whole with
  | zero => exact absurd deep (Nat.not_lt_zero _)
  | succ count ih =>
      rw [Function.iterate_succ_apply', unfolds]
      apply confined
      intro part calls
      have shallower := shrinks calls
      exact ih part (by omega)

end Recursion

/-! ## The search behind aliases -/

/-- A name to search behind, and the names that the search has passed. -/
structure SearchCall where
  passed : List String
  name : String

namespace SearchCall

/-- The search from a name, with the search from the next one left open. -/
def body (schemas : Mapping) (search : SearchCall → Except Fault (Option String)) :
    SearchCall → Except Fault (Option String)
  | ⟨passed, name⟩ =>
    match schemas.find? name with
    | none => .ok none
    | some raw =>
      if name ∈ passed then .ok none
      else do
        let schema ← Schema.ofValue raw
        if schema.isRecord then return some name
        else
          match schema.aliasOf? with
          | some next => search ⟨name :: passed, next⟩
          | none => return none

/-- The search goes on from a name that it has not passed. -/
inductive Calls (schemas : Mapping) : SearchCall → SearchCall → Prop
  | next {passed : List String} {name next : String} (fresh : name ∉ passed)
      (leads : Forwards schemas name next) : Calls schemas ⟨passed, name⟩ ⟨name :: passed, next⟩

/-- How many names are not passed yet. -/
def rank (schemas : Mapping) (call : SearchCall) : Nat := Graph.unseen schemas.names call.passed

variable {schemas : Mapping} {whole part : SearchCall}

/-- The search is its body, applied to the search itself. -/
theorem recordBehind?_eq_body (whole : SearchCall) :
    recordBehind? schemas whole.passed whole.name =
      body schemas (fun part => recordBehind? schemas part.passed part.name) whole := by
  obtain ⟨passed, name⟩ := whole
  rw [recordBehind?, body]
  split
  · next missing => simp only [missing]
  · next raw held =>
      by_cases member : name ∈ passed
      · simp only [held, dif_pos member, if_pos member]
      · refine (dif_neg member).trans ?_
        rw [held]
        exact (if_neg member).symm

/-- The body looks at nothing but the calls that it makes. -/
theorem body_congr {search other : SearchCall → Except Fault (Option String)}
    (same : ∀ part, Calls schemas whole part → search part = other part) :
    body schemas search whole = body schemas other whole := by
  obtain ⟨passed, name⟩ := whole
  rw [body, body]
  split
  · rfl
  · next raw held =>
      split
      · rfl
      · next fresh =>
          cases read : Schema.ofValue raw with
          | error fault => rfl
          | ok schema =>
              simp only [bind, Except.bind]
              split
              · rfl
              · next noRecord =>
                  split
                  · next next isAlias =>
                      refine same _ (.next fresh ⟨schema, ⟨raw, held, read⟩, ?_, ?_⟩)
                      · exact Bool.eq_false_iff.mpr noRecord
                      · exact Schema.aliasOf?_eq_some_iff.mp isAlias
                  · rfl

/-- A call of the search ranks below the one that makes it. -/
theorem Calls.rank_lt (calls : Calls schemas whole part) : part.rank schemas < whole.rank schemas := by
  cases calls with
  | next fresh leads =>
      obtain ⟨schema, ⟨raw, held, read⟩, -⟩ := leads
      exact Graph.unseen_cons_lt (Mapping.mem_names_of_find? held) fresh

end SearchCall

/-! ## Flattening -/

/-- A schema to flatten, and the schemas whose fields are being copied. -/
structure FlattenCall where
  copying : List String
  schema : Schema

namespace FlattenCall

section Body

variable (scope : Scope) (nominal : Bool) (flatten : FlattenCall → Traced FlatRecord)
  (copying : List String)

/-- Build a record on a base, with the flattening of other schemas left open. -/
def takeBase (flat : FlatRecord) (base : String) : Traced FlatRecord :=
  if scope.emittedLater nominal base then
    match scope.schemas.find? base with
    | none => .answer flat
    | some raw =>
      if base ∈ copying then .answer flat
      else
        (Traced.ofExcept (Schema.ofValue raw)).andThen fun schema =>
          (flatten ⟨base :: copying, schema⟩).andThen fun inner => .answer (flat.absorb inner)
  else .answer (flat.withBase base)

/-- Take a branch into a record, with the flattening of other schemas left open. -/
def takeBranch (flat : FlatRecord) (branch : Schema) : Traced FlatRecord :=
  match branch with
  | .reference traits pointer =>
    match Reference.schemaName? pointer with
    | none => .answer (flat.withExtra (.reference traits pointer))
    | some name =>
      (scope.base? nominal name).andThen fun found =>
        match found with
        | none => .answer (flat.withExtra (.reference traits pointer))
        | some base => takeBase scope nominal flatten copying flat base
  | other =>
    if other.isJoined then
      (flatten ⟨copying, other⟩).andThen fun inner => .answer (flat.absorb inner)
    else .answer (flat.withExtra other)

/-- Take branches into a record, from left to right. -/
def takeBranches (flat : FlatRecord) : List Schema → Traced FlatRecord
  | [] => .answer flat
  | branch :: rest =>
    (takeBranch scope nominal flatten copying flat branch).andThen fun flat =>
      takeBranches flat rest

/-- Flatten a schema, with the flattening of other schemas left open. -/
def body : FlattenCall → Traced FlatRecord
  | ⟨_, .object _ properties required additional⟩ =>
    .answer (.ofObject properties required additional)
  | ⟨copying, .composition _ _ branches⟩ =>
    takeBranches scope nominal flatten copying {} branches
  | ⟨_, other⟩ => .answer { extras := [other] }

end Body

/-- The schemas that are flattened on the way to a flat record: branches that are taken apart, and
bases that are emitted later and whose fields are not being copied already. -/
inductive Calls (scope : Scope) (nominal : Bool) : FlattenCall → FlattenCall → Prop
  | join {copying : List String} {traits : Traits} {kind : Composition} {branches : List Schema}
      {branch : Schema} (member : branch ∈ branches) (joined : branch.isJoined) :
      Calls scope nominal ⟨copying, .composition traits kind branches⟩ ⟨copying, branch⟩
  | copy {copying : List String} {traits : Traits} {kind : Composition} {branches : List Schema}
      {branch schema : Schema} {base : String} (member : branch ∈ branches)
      (points : scope.Points nominal branch base) (later : scope.emittedLater nominal base)
      (fresh : base ∉ copying) (named : Named scope.schemas base schema) :
      Calls scope nominal ⟨copying, .composition traits kind branches⟩ ⟨base :: copying, schema⟩

variable {scope : Scope} {nominal : Bool}

/-- The schemas that may still be copied, and the size of the schema. -/
def rank (scope : Scope) (call : FlattenCall) : Nat ×ₗ Nat :=
  toLex (Graph.unseen scope.schemas.names call.copying, call.schema.size)

/-- A bound on the calls in one another: each schema that may still be copied is as large as a
schema of the map can be. -/
def depth (scope : Scope) (call : FlattenCall) : Nat :=
  Graph.unseen scope.schemas.names call.copying * Dialect.schemaBound scope + call.schema.size

/-! ### The body is what flattening does -/

section Unfolding

variable {copying : List String} {flat : FlatRecord} {branch : Schema}

/-- Taking a branch in calls flattening for what is below it. -/
theorem flattenBranch_eq_takeBranch :
    flattenBranch scope nominal copying flat branch =
      takeBranch scope nominal (fun part => flatten scope nominal part.copying part.schema) copying
        flat branch := by
  cases branch with
  | reference traits pointer =>
      rw [flattenBranch, takeBranch]
      cases Reference.schemaName? pointer with
      | none => rfl
      | some name =>
          refine Traced.andThen_congr rfl fun found _ => ?_
          cases found with
          | none => rfl
          | some base =>
              simp only [takeBase]
              split
              · split
                · next missing => simp only [missing]
                · next raw held => simp only [held, dite_eq_ite]
              · rfl
  | object => simp [flattenBranch, takeBranch, Schema.isJoined]
  | composition traits kind branches =>
      cases kind <;> simp [flattenBranch, takeBranch, Schema.isJoined]
  | _ => simp [flattenBranch, takeBranch, Schema.isJoined]

/-- So does taking branches in. -/
theorem flattenBranches_eq_takeBranches (flat : FlatRecord) (branches : List Schema) :
    flattenBranches scope nominal copying flat branches =
      takeBranches scope nominal (fun part => flatten scope nominal part.copying part.schema) copying
        flat branches := by
  induction branches generalizing flat with
  | nil => rw [flattenBranches, takeBranches]
  | cons branch rest ih =>
      rw [flattenBranches, takeBranches, flattenBranch_eq_takeBranch]
      exact Traced.andThen_congr rfl fun flat _ => ih flat

/-- Flattening is its body, applied to flattening itself. -/
theorem flatten_eq_body (whole : FlattenCall) :
    flatten scope nominal whole.copying whole.schema =
      body scope nominal (fun part => flatten scope nominal part.copying part.schema) whole := by
  obtain ⟨copying, schema⟩ := whole
  cases schema with
  | object => rw [flatten, body]
  | composition => rw [flatten, body, flattenBranches_eq_takeBranches]
  | _ => rw [flatten, body] <;> simp

end Unfolding

/-! ### The body asks for the calls only -/

section Congruence

variable {copying : List String} {kind : Composition} {traits : Traits} {whole : FlattenCall}
  {answers others : FlattenCall → Traced FlatRecord}

/-- A base needs only the call for the schema of that base. -/
theorem takeBase_congr {base : String}
    (same : scope.emittedLater nominal base → base ∉ copying →
      ∀ schema, Named scope.schemas base schema →
        answers ⟨base :: copying, schema⟩ = others ⟨base :: copying, schema⟩) (flat : FlatRecord) :
    takeBase scope nominal answers copying flat base =
      takeBase scope nominal others copying flat base := by
  unfold takeBase
  split
  · next later =>
      split
      · rfl
      · next raw held =>
          split
          · rfl
          · next fresh =>
              refine Traced.andThen_congr rfl fun schema read => ?_
              have calls := same later fresh schema ⟨raw, held, read⟩
              exact Traced.andThen_congr calls fun inner _ => rfl
  · rfl

/-- A branch needs only the calls that its composition makes. -/
theorem takeBranch_congr {branches : List Schema} {branch : Schema}
    (same : ∀ part, Calls scope nominal ⟨copying, .composition traits kind branches⟩ part →
      answers part = others part) (member : branch ∈ branches) (flat : FlatRecord) :
    takeBranch scope nominal answers copying flat branch =
      takeBranch scope nominal others copying flat branch := by
  unfold takeBranch
  split
  · next target pointer =>
      split
      · rfl
      · next name named =>
          refine Traced.andThen_congr rfl fun found search => ?_
          cases found with
          | none => rfl
          | some base =>
              have points : scope.Points nominal (.reference target pointer) base :=
                ⟨target, pointer, name, rfl, named, search⟩
              refine takeBase_congr (fun later fresh schema held => ?_) flat
              exact same _ (.copy member points later fresh held)
  · split
    · next joined =>
        exact Traced.andThen_congr (same _ (.join member joined)) fun inner _ => rfl
    · rfl

/-- So do several branches. -/
theorem takeBranches_congr {branches : List Schema}
    (same : ∀ part, Calls scope nominal ⟨copying, .composition traits kind branches⟩ part →
      answers part = others part) (flat : FlatRecord) {rest : List Schema} (among : rest ⊆ branches) :
    takeBranches scope nominal answers copying flat rest =
      takeBranches scope nominal others copying flat rest := by
  induction rest generalizing flat with
  | nil => rfl
  | cons branch rest ih =>
      rw [takeBranches, takeBranches]
      refine Traced.andThen_congr (takeBranch_congr same (among List.mem_cons_self) flat) ?_
      exact fun flat _ => ih flat fun other later => among (List.mem_cons_of_mem _ later)

/-- The body of flattening looks at nothing but the calls that it makes. -/
theorem body_congr (same : ∀ part, Calls scope nominal whole part → answers part = others part) :
    body scope nominal answers whole = body scope nominal others whole := by
  obtain ⟨copying, schema⟩ := whole
  cases schema with
  | composition traits kind branches => exact takeBranches_congr same {} (List.Subset.refl _)
  | _ => rfl

end Congruence

/-! ### The calls go down -/

variable {whole part : FlattenCall}

/-- The schema that is copied was held under its name, and is read as one of bounded size. -/
theorem size_lt_of_named {base : String} {schema : Schema}
    (named : Named scope.schemas base schema) : schema.size < Dialect.schemaBound scope := by
  obtain ⟨raw, held, read⟩ := named
  have small := Schema.readsSmall raw schema read
  have within := Value.size_le_of_find? held
  rw [Dialect.schemaBound]
  omega

/-- A call of flattening ranks below the one that makes it. -/
theorem Calls.rank_lt (calls : Calls scope nominal whole part) :
    part.rank scope < whole.rank scope := by
  rw [rank, rank, Prod.Lex.toLex_lt_toLex]
  cases calls with
  | @join _ traits kind _ branch member =>
      have below : branch.Below (.composition traits kind _) := Schema.below_branch member
      exact .inr ⟨rfl, below.smaller⟩
  | copy member points later fresh named =>
      obtain ⟨raw, held, -⟩ := named
      exact .inl (Graph.unseen_cons_lt (Mapping.mem_names_of_find? held) fresh)

/-- It is less deep, too. -/
theorem Calls.depth_lt (calls : Calls scope nominal whole part) :
    part.depth scope < whole.depth scope := by
  rw [depth, depth]
  cases calls with
  | join member joined => exact Nat.add_lt_add_left (Schema.below_branch member).smaller _
  | @copy copying _ _ branches _ schema base _ _ _ fresh named =>
      have small := size_lt_of_named named
      obtain ⟨raw, held, -⟩ := named
      have fewer := Graph.unseen_cons_lt (Mapping.mem_names_of_find? held) fresh
      -- The size of the copied schema is paid for by the name that can be copied no more.
      calc
        Graph.unseen scope.schemas.names (base :: copying) * Dialect.schemaBound scope + schema.size
            < (Graph.unseen scope.schemas.names (base :: copying) + 1) *
                Dialect.schemaBound scope := by
          rw [Nat.succ_mul]
          omega
        _ ≤ Graph.unseen scope.schemas.names copying * Dialect.schemaBound scope :=
          Nat.mul_le_mul_right _ fewer
        _ ≤ _ := Nat.le_add_right _ _

end FlattenCall

/-- **Copying fields ends.** In every scope, whatever schemas are being copied already, flattening a
schema settles, and so does the search for the record behind a name that it makes at every pointer:
each call of the search passes one more name of the map, and each call of flattening leaves fewer
schemas to copy, or as many and a smaller schema. -/
theorem field_copying_settles (scope : Scope) (nominal : Bool) :
    Recursion.Settles (FlattenCall.body scope nominal) (FlattenCall.Calls scope nominal)
        (FlattenCall.rank scope) (FlattenCall.depth scope)
        (fun call => flatten scope nominal call.copying call.schema) ∧
      Recursion.Settles (SearchCall.body scope.schemas) (SearchCall.Calls scope.schemas)
        (SearchCall.rank scope.schemas) (SearchCall.rank scope.schemas)
        (fun call => recordBehind? scope.schemas call.passed call.name) where
  left := {
    unfolds := FlattenCall.flatten_eq_body
    confined := FlattenCall.body_congr
    descends := FlattenCall.Calls.rank_lt
    settles := Recursion.iterate_eq FlattenCall.flatten_eq_body FlattenCall.body_congr
      FlattenCall.Calls.depth_lt }
  right := {
    unfolds := SearchCall.recordBehind?_eq_body
    confined := SearchCall.body_congr
    descends := SearchCall.Calls.rank_lt
    settles := Recursion.iterate_eq SearchCall.recordBehind?_eq_body SearchCall.body_congr
      SearchCall.Calls.rank_lt }

end OpenApi
