import Mathlib.Data.List.Forall2
import OpenApi.Proofs.Compile.Flatten
import OpenApi.Proofs.Compile.Leaves

/-!
# Leaves that stand in the branches

As long as no base counts as emitted later, no fields are copied, and the leaves of a record are its
own branches, taken out of the compositions among them.  Where bases are not inherited, every pointer
to a name is a base (`Schema.leaf`).  Where they are, it may lead to another base or be a part of its
own (`Leaf.Resolves`), but the objects are the same.
-/

namespace OpenApi

/-- What a branch comes to where bases are not inherited. -/
def Schema.leaf : Schema → Leaf
  | object _ properties required additional => .object (properties.getD []) required additional
  | reference traits pointer =>
    match Reference.schemaName? pointer with
    | some name => .base name
    | none => .extra (reference traits pointer)
  | other => .extra other

/-- No `allOf` is left among the branches that are spliced together. -/
theorem Schema.not_allOf_of_mem_splicedBranches {branches : List Schema} :
    ∀ branch ∈ Schema.splicedBranches branches, ∀ traits inner,
      branch ≠ .composition traits .allOf inner := by
  refine (Schema.spliced.mutual_induct
    (fun branch => ∀ part ∈ branch.spliced, ∀ traits inner,
      part ≠ .composition traits .allOf inner)
    (fun branches => ∀ part ∈ Schema.splicedBranches branches, ∀ traits inner,
      part ≠ .composition traits .allOf inner) ?_ ?_ ?_ ?_).2 branches
  · -- an `allOf`
    intro traits branches apart
    rwa [Schema.spliced]
  · -- any other branch
    intro branch notAllOf
    rw [Schema.spliced]
    · simpa using notAllOf
    · exact notAllOf
  · -- no branch is left
    simp [Schema.splicedBranches]
  · -- a branch and those after it
    intro branch rest first later part member
    rw [Schema.splicedBranches, List.mem_append] at member
    exact member.elim (first part) (later part)

/-! ## Without inheritance -/

section Structural

variable {scope : Scope} {copying : List String}

theorem leavesOfBranch_of_not_allOf {branch : Schema}
    (apart : ∀ traits branches, branch ≠ .composition traits .allOf branches) :
    leavesOfBranch scope false copying branch = .answer [branch.leaf] := by
  cases branch with
  | reference traits pointer =>
      cases named : Reference.schemaName? pointer with
      | none => simp [leavesOfBranch, Schema.leaf, named]
      | some name =>
          simp [leavesOfBranch, Schema.leaf, named, Scope.base?, Scope.emittedLater]
  | composition traits kind branches =>
      cases kind with
      | allOf => exact absurd rfl (apart traits branches)
      | oneOf | anyOf => simp [leavesOfBranch, Schema.leaf]
  | enumeration | primitive | array | object | unknown => simp [leavesOfBranch, Schema.leaf]

/-- Without inheritance the leaves of branches are read off from the branches alone. -/
theorem leavesOfBranches_eq_map_leaf (branches : List Schema) :
    leavesOfBranches scope false copying branches =
      .answer ((Schema.splicedBranches branches).map Schema.leaf) := by
  refine (Schema.spliced.mutual_induct
    (fun branch => leavesOfBranch scope false copying branch =
      .answer (branch.spliced.map Schema.leaf))
    (fun branches => leavesOfBranches scope false copying branches =
      .answer ((Schema.splicedBranches branches).map Schema.leaf)) ?_ ?_ ?_ ?_).2 branches
  · -- an `allOf`
    intro traits branches listed
    rw [leavesOfBranch, listed, Schema.spliced]
  · -- any other branch
    intro branch notAllOf
    rw [leavesOfBranch_of_not_allOf notAllOf, Schema.spliced, List.map_singleton]
    exact notAllOf
  · -- no branch is left
    rw [leavesOfBranches, Schema.splicedBranches, List.map_nil]
  · -- a branch and those after it
    intro branch rest first later
    rw [leavesOfBranches, first, Traced.answer_andThen, later, Traced.answer_andThen,
      Schema.splicedBranches, List.map_append]

/-- Without inheritance a composition comes to the record of its branches, in every scope. -/
theorem flatten_composition_structural (traits : Traits) (kind : Composition)
    (branches : List Schema) :
    flatten scope false copying (.composition traits kind branches) =
      .answer (.ofLeaves ((Schema.splicedBranches branches).map Schema.leaf)) := by
  rw [flatten_composition, leavesOfBranches_eq_map_leaf, Traced.answer_andThen]

end Structural

/-! ## With inheritance -/

/-- What a leaf comes to where bases are inherited: a pointer leads to the record behind it or, if
there is none, is a part of its own. -/
inductive Leaf.Resolves : Leaf → Leaf → Prop
  | object (properties : List (Scalar × Schema)) (required : List Scalar)
      (additional : Additional Schema) :
      Resolves (.object properties required additional) (.object properties required additional)
  | extra (schema : Schema) : Resolves (.extra schema) (.extra schema)
  | base (name record : String) : Resolves (.base name) (.base record)
  | recordless (name : String) (pointer : Schema) : Resolves (.base name) (.extra pointer)

section Nominal

variable {scope : Scope} {nominal : Bool} {copying : List String}

theorem Scope.emittedLater_of_defined_none (all : scope.defined = none) (base : String) :
    scope.emittedLater nominal base = false := by
  simp [emittedLater, all]

theorem resolves_of_not_allOf (all : scope.defined = none) {branch : Schema} {listed : List Leaf}
    (apart : ∀ traits branches, branch ≠ .composition traits .allOf branches)
    (lists : (leavesOfBranch scope nominal copying branch).Yields listed) :
    List.Forall₂ Leaf.Resolves [branch.leaf] listed := by
  have single {found : Leaf} (resolves : branch.leaf.Resolves found) (same : [found] = listed) :
      List.Forall₂ Leaf.Resolves [branch.leaf] listed :=
    same ▸ .cons resolves .nil
  cases branch with
  | reference traits pointer =>
      rw [leavesOfBranch] at lists
      cases named : Reference.schemaName? pointer with
      | none =>
          rw [named] at lists
          refine single ?_ (Traced.yields_answer.mp lists)
          simp only [Schema.leaf, named]
          exact .extra _
      | some name =>
          rw [named] at lists
          have leaf : (Schema.reference traits pointer).leaf = .base name := by
            simp only [Schema.leaf, named]
          obtain ⟨found, _, lists⟩ := Traced.yields_andThen.mp lists
          cases found with
          | none => exact single (leaf ▸ .recordless _ _) (Traced.yields_answer.mp lists)
          | some record =>
              dsimp only at lists
              rw [if_neg (by simp [scope.emittedLater_of_defined_none all])] at lists
              exact single (leaf ▸ .base _ _) (Traced.yields_answer.mp lists)
  | composition traits kind branches =>
      cases kind with
      | allOf => exact absurd rfl (apart traits branches)
      | oneOf | anyOf =>
          rw [leavesOfBranch] at lists
          · exact single (.extra _) (Traced.yields_answer.mp lists)
          all_goals simp
  | object =>
      rw [leavesOfBranch] at lists
      exact single (.object _ _ _) (Traced.yields_answer.mp lists)
  | enumeration | primitive | array | unknown =>
      rw [leavesOfBranch] at lists
      · exact single (.extra _) (Traced.yields_answer.mp lists)
      all_goals simp

/-- As long as all bases count as emitted, the leaves are those of the branches, and each pointer to
a name resolves in one way or the other. -/
theorem resolves_of_leavesOfBranches (all : scope.defined = none) (branches : List Schema) :
    ∀ listed, (leavesOfBranches scope nominal copying branches).Yields listed →
      List.Forall₂ Leaf.Resolves ((Schema.splicedBranches branches).map Schema.leaf) listed := by
  refine (Schema.spliced.mutual_induct
    (fun branch => ∀ listed, (leavesOfBranch scope nominal copying branch).Yields listed →
      List.Forall₂ Leaf.Resolves (branch.spliced.map Schema.leaf) listed)
    (fun branches => ∀ listed, (leavesOfBranches scope nominal copying branches).Yields listed →
      List.Forall₂ Leaf.Resolves ((Schema.splicedBranches branches).map Schema.leaf) listed)
    ?_ ?_ ?_ ?_).2 branches
  · -- an `allOf`
    intro traits branches resolves listed lists
    rw [leavesOfBranch] at lists
    rw [Schema.spliced]
    exact resolves listed lists
  · -- any other branch
    intro branch notAllOf listed lists
    rw [Schema.spliced, List.map_singleton]
    · exact resolves_of_not_allOf all notAllOf lists
    · exact notAllOf
  · -- no branch is left
    intro listed lists
    rw [leavesOfBranches, Traced.yields_answer] at lists
    rw [Schema.splicedBranches, List.map_nil]
    exact lists ▸ .nil
  · -- a branch and those after it
    intro branch rest first later listed lists
    rw [leavesOfBranches] at lists
    obtain ⟨own, listsOwn, lists⟩ := Traced.yields_andThen.mp lists
    obtain ⟨others, listsOthers, rfl⟩ := Traced.yields_andThen_answer.mp lists
    rw [Schema.splicedBranches, List.map_append]
    exact List.rel_append (first own listsOwn) (later others listsOthers)

end Nominal

/-! ## Records with inheritance and without -/

/-- What a record comes to where bases are inherited: it says the same of its properties, and keeps
its parts that are no objects among others. -/
structure FlatRecord.Resolves (structural resolved : FlatRecord) : Prop where
  properties : structural.properties = resolved.properties
  required : structural.required = resolved.required
  additional : structural.additional = resolved.additional
  extras : structural.extras.Sublist resolved.extras

theorem FlatRecord.Resolves.refl (flat : FlatRecord) : flat.Resolves flat :=
  ⟨rfl, rfl, rfl, List.Sublist.refl _⟩

/-- What is read off from the objects among the leaves is the same. -/
theorem flatMap_eq_of_resolves {structural listed : List Leaf} {α : Type} {part : Leaf → List α}
    (resolves : List.Forall₂ Leaf.Resolves structural listed)
    (same : ∀ first second, first.Resolves second → part first = part second) :
    structural.flatMap part = listed.flatMap part := by
  induction resolves with
  | nil => rfl
  | cons head tail ih => rw [List.flatMap_cons, List.flatMap_cons, same _ _ head, ih]

/-- Parts that are no objects stay what they are, and more may be added to them. -/
theorem extras_sublist_of_resolves {structural listed : List Leaf}
    (resolves : List.Forall₂ Leaf.Resolves structural listed) :
    (structural.filterMap Leaf.extra?).Sublist (listed.filterMap Leaf.extra?) := by
  induction resolves with
  | nil => exact .slnil
  | cons head tail ih =>
      cases head with
      | object | base => exact ih
      | extra schema => exact ih.cons_cons schema
      | recordless name pointer => exact ih.cons pointer

theorem FlatRecord.resolves_ofLeaves {structural listed : List Leaf}
    (resolves : List.Forall₂ Leaf.Resolves structural listed) :
    (FlatRecord.ofLeaves structural).Resolves (.ofLeaves listed) where
  properties := congrArg Keyed.lastValues
    (flatMap_eq_of_resolves resolves fun _ _ one => by cases one <;> rfl)
  required := congrArg (List.eraseDupsBy Scalar.same)
    (flatMap_eq_of_resolves resolves fun _ _ one => by cases one <;> rfl)
  additional := by
    have stated : structural.flatMap (fun leaf => leaf.stated?.toList) =
        listed.flatMap fun leaf => leaf.stated?.toList :=
      flatMap_eq_of_resolves resolves fun _ _ one => by cases one <;> rfl
    rw [← List.filterMap_eq_flatMap_toList, ← List.filterMap_eq_flatMap_toList] at stated
    simp only [ofLeaves, stated]
  extras := extras_sublist_of_resolves resolves

/-- A record that is flattened with inheritance is flattened without it in every scope. -/
theorem exists_flatten_structural {scope : Scope} {nominal : Bool} {copying : List String}
    {schema : Schema} {flat : FlatRecord} (all : scope.defined = none) (joined : schema.isJoined)
    (flattens : (flatten scope nominal copying schema).Yields flat) :
    ∃ structural : FlatRecord, structural.Resolves flat ∧
      ∀ around passed, flatten around false passed schema = .answer structural := by
  cases schema with
  | object traits properties required additional =>
      rw [flatten, Traced.yields_answer] at flattens
      exact ⟨flat, .refl flat, fun around passed => by rw [flatten, flattens]⟩
  | composition traits kind branches =>
      rw [flatten_composition] at flattens
      obtain ⟨listed, lists, rfl⟩ := Traced.yields_andThen_answer.mp flattens
      exact ⟨_, FlatRecord.resolves_ofLeaves (resolves_of_leavesOfBranches all branches _ lists),
        fun around passed => flatten_composition_structural traits kind branches⟩
  | reference | enumeration | primitive | array | unknown => cases joined

end OpenApi
