import OpenApi.Proofs.Compile.Composition

/-!
# Branches that are met

Flattening meets every branch of an `allOf`, however deep the `allOf` that it stands in is nested
(`Flattens.meets`).  So a pointer to a record that is emitted before gives a base, a pointer to
anything else stays a part that is no object, and what the search for the base of a pointer reports
is reported.
-/

namespace OpenApi

/-- A schema is among the branches of an `allOf`, or among those of one that is nested there. -/
inductive Schema.BranchOf (branch : Schema) : Schema → Prop
  | direct {traits : Traits} {branches : List Schema} (member : branch ∈ branches) :
      BranchOf branch (.composition traits .allOf branches)
  | nested {traits : Traits} {branches : List Schema} {inner : Schema} (member : inner ∈ branches)
      (below : BranchOf branch inner) : BranchOf branch (.composition traits .allOf branches)

namespace Schema.BranchOf

variable {branch schema : Schema}

/-- A branch is within its schema. -/
theorem within (branchOf : branch.BranchOf schema) : branch.Within schema := by
  induction branchOf with
  | direct member => exact .branch member (.self branch)
  | nested member below ih => exact .branch member ih

/-- Only schemas whose branches are taken together have branches in this sense. -/
theorem isJoined (branchOf : branch.BranchOf schema) : schema.isJoined := by
  cases branchOf <;> rfl

/-- A branch of a longer composition is one of the shorter one, the last one, or below that. -/
theorem of_concat {traits : Traits} {kind : Composition} {branches : List Schema} {last : Schema}
    (branchOf : branch.BranchOf (.composition traits kind (branches ++ [last]))) :
    branch.BranchOf (.composition traits kind branches) ∨ branch = last ∨ branch.BranchOf last := by
  cases branchOf with
  | direct member =>
      rcases List.mem_append.mp member with early | isLast
      · exact .inl (.direct early)
      · exact .inr (.inl (List.mem_singleton.mp isLast))
  | nested member below =>
      rcases List.mem_append.mp member with early | isLast
      · exact .inl (.nested early below)
      · exact .inr (.inr (List.mem_singleton.mp isLast ▸ below))

end Schema.BranchOf

/-! ## Records that grow -/

/-- What one record builds on and leaves over is still there in another. -/
structure FlatRecord.KeptIn (flat more : FlatRecord) : Prop where
  bases : flat.bases ⊆ more.bases
  extras : flat.extras ⊆ more.extras

namespace FlatRecord

variable {flat inner more : FlatRecord}

/-- A record keeps itself. -/
theorem KeptIn.refl (flat : FlatRecord) : flat.KeptIn flat :=
  ⟨List.Subset.refl _, List.Subset.refl _⟩

/-- What is kept in what is kept is kept. -/
theorem KeptIn.trans (first : flat.KeptIn inner) (second : inner.KeptIn more) : flat.KeptIn more :=
  ⟨List.Subset.trans first.bases second.bases, List.Subset.trans first.extras second.extras⟩

/-- A base adds no part. -/
theorem extras_withBase {base : String} : (flat.withBase base).extras = flat.extras := by
  unfold withBase
  split <;> rfl

/-- Adding a base keeps the rest. -/
theorem keptIn_withBase {base : String} : flat.KeptIn (flat.withBase base) where
  bases _ member := mem_bases_withBase.mpr (.inl member)
  extras _ member := by rwa [extras_withBase]

/-- Adding a part keeps the rest. -/
theorem keptIn_withExtra {extra : Schema} : flat.KeptIn (flat.withExtra extra) where
  bases := List.Subset.refl _
  extras := List.subset_append_left _ _

/-- Taking a record in keeps what was there. -/
theorem keptIn_absorb_left : flat.KeptIn (flat.absorb inner) where
  bases _ member := mem_bases_absorb.mpr (.inl member)
  extras := List.subset_append_left _ _

/-- It keeps what is taken in, too. -/
theorem keptIn_absorb_right : inner.KeptIn (flat.absorb inner) where
  bases _ member := mem_bases_absorb.mpr (.inr member)
  extras := List.subset_append_right _ _

end FlatRecord

/-! ## Every branch is met -/

variable {scope : Scope} {nominal : Bool} {copying : List String}

section Steps

variable {traits : Traits} {kind : Composition} {branches : List Schema} {last : Schema}
  {flat result : FlatRecord}

/-- The last branch is taken into the record of the branches before it. -/
theorem Flattens.yields_last
    (before : Flattens scope nominal copying (.composition traits kind branches) flat)
    (whole :
      Flattens scope nominal copying (.composition traits kind (branches ++ [last])) result) :
    (flattenBranch scope nominal copying flat last).Yields result := by
  have early := before.yields
  have run := whole.yields
  rw [flatten] at early run
  obtain ⟨between, also, step⟩ := yields_flattenBranches_concat.mp run
  exact early.unique also ▸ step

/-- Flattening reports what it does for the branches before the last, and then for the last. -/
theorem Flattens.notices_concat
    (before : Flattens scope nominal copying (.composition traits kind branches) flat) :
    (flatten scope nominal copying (.composition traits kind (branches ++ [last]))).notices =
      (flatten scope nominal copying (.composition traits kind branches)).notices ++
        (flattenBranch scope nominal copying flat last).notices := by
  have yields := before.yields
  rw [flatten] at yields
  rw [flatten, flatten, flattenBranches_concat, yields.notices_andThen]

/-- What is reported of a branch is reported where the branch is taken in. -/
theorem notices_flatten_subset_flattenBranch (joined : last.isJoined) :
    (flatten scope nominal copying last).notices ⊆
      (flattenBranch scope nominal copying flat last).notices := by
  unfold Schema.isJoined at joined
  split at joined
  · rw [flattenBranch]
    exact Traced.notices_subset_andThen _ _
  · rw [flattenBranch]
    exact Traced.notices_subset_andThen _ _
  · cases joined

end Steps

/-- A branch is met on the way to a flattened record: it is taken in at some point, what it adds
stays, and what is reported about it then is among the notices. -/
def Meets (scope : Scope) (nominal : Bool) (copying : List String) (branch : Schema)
    (flat : FlatRecord) (told : List Notice) : Prop :=
  ∃ early late, (flattenBranch scope nominal copying early branch).Yields late ∧
    late.KeptIn flat ∧ (flattenBranch scope nominal copying early branch).notices ⊆ told

variable {branch schema : Schema} {flat : FlatRecord}

/-- A branch stays met when the record grows and more is reported. -/
theorem Meets.mono {more : FlatRecord} {told further : List Notice}
    (meets : Meets scope nominal copying branch flat told) (kept : flat.KeptIn more)
    (subset : told ⊆ further) : Meets scope nominal copying branch more further := by
  obtain ⟨early, late, step, stays, reported⟩ := meets
  exact ⟨early, late, step, stays.trans kept, List.Subset.trans reported subset⟩

/-- A branch is met among the branches before the last, as the last, or within the last. -/
private theorem meets_concat {traits : Traits} {kind : Composition} {branches : List Schema}
    {last : Schema} {result : FlatRecord}
    (before : Flattens scope nominal copying (.composition traits kind branches) flat)
    (whole : Flattens scope nominal copying (.composition traits kind (branches ++ [last])) result)
    (kept : flat.KeptIn result)
    (branchOf : branch.BranchOf (.composition traits kind (branches ++ [last])))
    (early : branch.BranchOf (.composition traits kind branches) →
      Meets scope nominal copying branch flat
        (flatten scope nominal copying (.composition traits kind branches)).notices)
    (inside : branch.BranchOf last → Meets scope nominal copying branch result
      (flattenBranch scope nominal copying flat last).notices) :
    Meets scope nominal copying branch result
      (flatten scope nominal copying (.composition traits kind (branches ++ [last]))).notices := by
  rw [before.notices_concat]
  rcases branchOf.of_concat with isEarly | rfl | isInside
  · exact (early isEarly).mono kept (List.subset_append_left _ _)
  · exact ⟨flat, result, before.yields_last whole, .refl result, List.subset_append_right _ _⟩
  · exact (inside isInside).mono (.refl result) (List.subset_append_right _ _)

/-- Flattening meets every branch. -/
theorem Flattens.meets (flattens : Flattens scope nominal copying schema flat)
    (branchOf : branch.BranchOf schema) :
    Meets scope nominal copying branch flat (flatten scope nominal copying schema).notices := by
  have nowhere {last : Schema} {base : String} (points : scope.Points nominal last base) :
      ¬ branch.BranchOf last := by
    obtain ⟨traits, pointer, name, rfl, _⟩ := points
    rintro ⟨⟩
  induction flattens with
  | object => cases branchOf
  | lone plain apart => cases branchOf <;> exact absurd rfl (plain _ _ _)
  | start =>
      cases branchOf with
      | direct member => exact absurd member List.not_mem_nil
      | nested member below => exact absurd member List.not_mem_nil
  | extra before apart ih =>
      refine meets_concat before (before.extra apart) FlatRecord.keptIn_withExtra branchOf ih ?_
      exact fun inside => absurd inside.isJoined (Bool.eq_false_iff.mp apart.1)
  | inherit before points defined ih =>
      refine meets_concat before (before.inherit points defined) FlatRecord.keptIn_withBase branchOf
        ih ?_
      exact fun inside => absurd inside (nowhere points)
  | skip before points later underway ih =>
      refine meets_concat before (before.skip points later underway) (.refl _) branchOf ih ?_
      exact fun inside => absurd inside (nowhere points)
  | copy before points later fresh held read copied ih ihCopied =>
      refine meets_concat before (before.copy points later fresh held read copied)
        FlatRecord.keptIn_absorb_left branchOf ih ?_
      exact fun inside => absurd inside (nowhere points)
  | join before joined below ih ihBelow =>
      refine meets_concat before (before.join joined below) FlatRecord.keptIn_absorb_left branchOf
        ih ?_
      exact fun inside => (ihBelow inside).mono FlatRecord.keptIn_absorb_right
        (notices_flatten_subset_flattenBranch joined)

/-! ## What comes of a pointer -/

/-- A base that is emitted before is inherited, wherever in the `allOf` a branch points to it. -/
theorem Flattens.mem_bases_of_branchOf {base : String}
    (flattens : Flattens scope nominal copying schema flat) (branchOf : branch.BranchOf schema)
    (points : scope.Points nominal branch base)
    (defined : scope.emittedLater nominal base = false) : base ∈ flat.bases := by
  obtain ⟨early, late, step, kept, _⟩ := flattens.meets branchOf
  have inherits : (flattenBranch scope nominal copying early branch).Yields
      (early.withBase base) := yields_flattenBranch_of_points points (by simp [defined])
  obtain rfl := step.unique inherits
  exact kept.bases (FlatRecord.mem_bases_withBase.mpr (.inr rfl))

/-- A branch that is no object and has no record behind it is left as a part that is no object. -/
theorem Flattens.mem_extras_of_branchOf (flattens : Flattens scope nominal copying schema flat)
    (branchOf : branch.BranchOf schema) (apart : scope.Apart nominal branch) :
    branch ∈ flat.extras := by
  obtain ⟨early, late, step, kept, _⟩ := flattens.meets branchOf
  obtain rfl := step.unique (yields_flattenBranch_of_apart apart)
  exact kept.extras (List.mem_append_right _ List.mem_cons_self)

/-- The search for the base of a pointer comes to an end, and what it reports is reported. -/
theorem Flattens.exists_base?_of_branchOf {traits : Traits} {pointer name : String}
    (flattens : Flattens scope nominal copying schema flat)
    (branchOf : (Schema.reference traits pointer).BranchOf schema)
    (pointed : Reference.schemaName? pointer = some name) :
    ∃ found, (scope.base? nominal name).Yields found ∧
      (scope.base? nominal name).notices ⊆ (flatten scope nominal copying schema).notices := by
  obtain ⟨early, late, step, _, reported⟩ := flattens.meets branchOf
  rw [flattenBranch, pointed] at step reported
  obtain ⟨found, search, _⟩ := Traced.yields_andThen.mp step
  exact ⟨found, search, List.Subset.trans (Traced.notices_subset_andThen _ _) reported⟩

end OpenApi
