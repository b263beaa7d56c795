import OpenApi.Proofs.Compile.Composition
import OpenApi.Proofs.Keyed.Merging
import OpenApi.Proofs.Schema.Reading
import OpenApi.Proofs.Schema.Sources

/-!
# Records as lists of leaves

What a flattened record is, said without collecting it piece by piece.  The branches of a record,
and those of the compositions and copied schemas among them, are written down from left to right as
one list of leaves (`leaves`), and the record is read off from that list (`FlatRecord.ofLeaves`).
Since taking one record into another is appending the leaves of the one to those of the other
(`absorb_ofLeaves`), it does not matter how the branches are grouped.
-/

namespace OpenApi

/-- What a branch of a record comes to: a schema to build on, an object, or a part that is
neither. -/
inductive Leaf where
  | base (name : String)
  | object (properties : List (Scalar × Schema)) (required : List Scalar)
      (additional : Additional Schema)
  | extra (schema : Schema)

namespace Leaf

def base? : Leaf → Option String
  | base name => some name
  | _ => none

def properties : Leaf → List (Scalar × Schema)
  | object properties _ _ => properties
  | _ => []

def required : Leaf → List Scalar
  | object _ required _ => required
  | _ => []

/-- What a leaf says about further properties, if it says anything. -/
def stated? : Leaf → Option (Additional Schema)
  | object _ _ .unstated => none
  | object _ _ stated => some stated
  | _ => none

def extra? : Leaf → Option Schema
  | extra schema => some schema
  | _ => none

end Leaf

/-- The record of a list of leaves: every base once, every property where it came first with the
schema that came last, all required names, what was said last about further properties, and the
parts that are no objects. -/
def FlatRecord.ofLeaves (leaves : List Leaf) : FlatRecord where
  bases := (leaves.filterMap Leaf.base?).eraseDups
  properties := Keyed.lastValues (leaves.flatMap Leaf.properties)
  required := (leaves.flatMap Leaf.required).eraseDupsBy Scalar.same
  additional := (leaves.filterMap Leaf.stated?).getLast?.getD .unstated
  extras := leaves.filterMap Leaf.extra?

/-! ## The leaves of a record -/

mutual

/-- The leaves of a record.  `copying` are the schemas whose fields are being copied. -/
def leaves (scope : Scope) (nominal : Bool) (copying : List String) (schema : Schema) :
    Traced (List Leaf) :=
  match schema with
  | .object _ properties required additional =>
    .answer [.object (properties.getD []) required additional]
  | .composition _ _ branches => leavesOfBranches scope nominal copying branches
  | other => .answer [.extra other]
termination_by (Graph.unseen scope.schemas.names copying, sizeOf schema, 0)

/-- The leaves of branches, from left to right. -/
def leavesOfBranches (scope : Scope) (nominal : Bool) (copying : List String)
    (branches : List Schema) : Traced (List Leaf) :=
  match branches with
  | [] => .answer []
  | branch :: rest =>
    (leavesOfBranch scope nominal copying branch).andThen fun first =>
      (leavesOfBranches scope nominal copying rest).andThen fun later => .answer (first ++ later)
termination_by (Graph.unseen scope.schemas.names copying, sizeOf branches, 0)

/-- The leaves of a branch.  An `allOf` is replaced by its branches.  A pointer is a base, or the
leaves of a base that is emitted later, unless these are being listed already; it is a part of its
own if there is no base. -/
def leavesOfBranch (scope : Scope) (nominal : Bool) (copying : List String) (branch : Schema) :
    Traced (List Leaf) :=
  match branch with
  | .reference traits pointer =>
    match Reference.schemaName? pointer with
    | none => .answer [.extra (.reference traits pointer)]
    | some name =>
      (scope.base? nominal name).andThen fun found =>
        match found with
        | none => .answer [.extra (.reference traits pointer)]
        | some base =>
          if scope.emittedLater nominal base then
            match _held : scope.schemas.find? base with
            | none => .answer []
            | some raw =>
              if _fresh : base ∈ copying then .answer []
              else
                (Traced.ofExcept (Schema.ofValue raw)).andThen fun schema =>
                  leaves scope nominal (base :: copying) schema
          else .answer [.base base]
  | .object _ properties required additional =>
    .answer [.object (properties.getD []) required additional]
  | .composition _ .allOf branches => leavesOfBranches scope nominal copying branches
  | other => .answer [.extra other]
termination_by (Graph.unseen scope.schemas.names copying, sizeOf branch, 1)
decreasing_by
  · exact Prod.Lex.left _ _ (Graph.unseen_cons_lt (Mapping.mem_names_of_find? _held) _fresh)
  · apply Prod.Lex.right
    apply Prod.Lex.left
    simp

end

/-! ## Merging leaves -/

section Merging

variable {done inner : List Leaf} {properties : Option (List (Scalar × Schema))}
  {required : List Scalar} {additional : Additional Schema}

/-- Adding items that are not there yet, one after the other, takes every item once. -/
theorem foldl_eraseDupsBy {α : Type} {same : α → α → Bool} {start items : List α} :
    items.foldl (fun held item => if held.any (same item) then held else held ++ [item])
      (start.eraseDupsBy same) = (start ++ items).eraseDupsBy same := by
  induction items using List.reverseRecOn with
  | nil => simp
  | append_singleton before last ih =>
      rw [List.foldl_append, ih, ← List.append_assoc, eraseDupsBy_concat]
      rfl

/-- Building on several schemas takes each of them once. -/
theorem bases_foldl_withBase {names : List String} {flat : FlatRecord} :
    (names.foldl FlatRecord.withBase flat).bases =
      names.foldl (fun held name => if held.any (name == ·) then held else held ++ [name])
        flat.bases := by
  induction names generalizing flat with
  | nil => rfl
  | cons name rest ih =>
      rw [List.foldl_cons, List.foldl_cons, ih]
      congr 1
      unfold FlatRecord.withBase
      split <;> simp_all

/-- Required names that are merged are taken once each. -/
theorem mergeRequired_eraseDupsBy {first second : List Scalar} :
    FlatRecord.mergeRequired (first.eraseDupsBy Scalar.same) second =
      (first ++ second).eraseDupsBy Scalar.same :=
  foldl_eraseDupsBy

/-- A leaf that says something does not say nothing. -/
theorem Leaf.ne_unstated {leaf : Leaf} (stated : leaf.stated? = some additional) :
    additional ≠ .unstated := by
  cases leaf with
  | base | extra => cases stated
  | object _ _ own =>
      rintro rfl
      cases own <;> cases stated

/-- What is said last among all leaves is said last among the later ones, if these say anything. -/
theorem additional_absorb_ofLeaves :
    ((FlatRecord.ofLeaves done).absorb (.ofLeaves inner)).additional =
      (FlatRecord.ofLeaves (done ++ inner)).additional := by
  simp only [FlatRecord.absorb, FlatRecord.ofLeaves, List.filterMap_append]
  rcases List.eq_nil_or_concat' (inner.filterMap Leaf.stated?) with nothing | ⟨before, last, more⟩
  · simp [nothing]
  · have member : last ∈ inner.filterMap Leaf.stated? := by simp [more]
    obtain ⟨leaf, -, stated⟩ := List.mem_filterMap.mp member
    have something := Leaf.ne_unstated stated
    rw [more, ← List.append_assoc, List.getLast?_concat, List.getLast?_concat]
    cases last with
    | unstated => exact absurd rfl something
    | allowed | values => rfl

attribute [ext] FlatRecord

/-- Taking the record of some leaves in is appending these leaves. -/
theorem absorb_ofLeaves :
    (FlatRecord.ofLeaves done).absorb (.ofLeaves inner) = .ofLeaves (done ++ inner) := by
  apply FlatRecord.ext
  case bases =>
    rw [FlatRecord.absorb, bases_foldl_withBase]
    simp only [FlatRecord.ofLeaves, List.filterMap_append]
    exact foldl_eraseDupsBy.trans (eraseDupsBy_append_eraseDupsBy (by simp +contextual))
  case properties =>
    simp only [FlatRecord.absorb, FlatRecord.ofLeaves, List.flatMap_append]
    rw [Keyed.putAll_lastValues, Keyed.lastValues_append_lastValues]
  case required =>
    simp only [FlatRecord.absorb, FlatRecord.ofLeaves, List.flatMap_append]
    rw [mergeRequired_eraseDupsBy, eraseDupsBy_append_eraseDupsBy Scalar.same_trans]
  case additional => exact additional_absorb_ofLeaves
  case extras => exact List.filterMap_append.symm

/-- Taking an object in, it does not matter what the object says twice. -/
theorem absorb_ofObject :
    (FlatRecord.ofLeaves done).absorb (.ofObject properties required additional) =
      .ofLeaves (done ++ [.object (properties.getD []) required additional]) := by
  rw [← absorb_ofLeaves]
  apply FlatRecord.ext
  case bases => rfl
  case properties =>
    simp only [FlatRecord.absorb, FlatRecord.ofObject, FlatRecord.ofLeaves]
    rw [Keyed.putAll_lastValues, Keyed.putAll_lastValues, Keyed.lastValues_append_lastValues]
    simp [Leaf.properties]
  case required =>
    simp only [FlatRecord.absorb, FlatRecord.ofObject, FlatRecord.ofLeaves]
    rw [mergeRequired_eraseDupsBy, mergeRequired_eraseDupsBy,
      eraseDupsBy_append_eraseDupsBy Scalar.same_trans]
    simp [Leaf.required]
  case additional => cases additional <;> rfl
  case extras => rfl

/-- Building on one more schema is one more leaf. -/
theorem withBase_ofLeaves {base : String} :
    (FlatRecord.ofLeaves done).withBase base = .ofLeaves (done ++ [.base base]) := by
  have step : (FlatRecord.ofLeaves done).absorb (.ofLeaves [.base base]) =
      { FlatRecord.ofLeaves done with bases := ((FlatRecord.ofLeaves done).withBase base).bases } :=
    FlatRecord.ext rfl rfl rfl rfl (List.append_nil _)
  rw [← absorb_ofLeaves, step]
  unfold FlatRecord.withBase
  split <;> rfl

/-- A part that is no object is one more leaf. -/
theorem withExtra_ofLeaves {extra : Schema} :
    (FlatRecord.ofLeaves done).withExtra extra = .ofLeaves (done ++ [.extra extra]) := by
  rw [← absorb_ofLeaves]
  rfl

end Merging

/-! ## Flattening lists leaves -/

section Flattening

variable (scope : Scope) (nominal : Bool)

/-- Taking a flattened schema in is appending its leaves. -/
abbrev FlattensToLeaves (copying : List String) (schema : Schema) : Prop :=
  ∀ done, ((flatten scope nominal copying schema).andThen fun inner =>
      .answer ((FlatRecord.ofLeaves done).absorb inner)) =
    (leaves scope nominal copying schema).andThen fun listed => .answer (.ofLeaves (done ++ listed))

/-- Taking branches in is appending their leaves. -/
abbrev TakesLeavesOfBranches (copying : List String) (flat : FlatRecord) (branches : List Schema) :
    Prop :=
  ∀ done, flat = .ofLeaves done → flattenBranches scope nominal copying flat branches =
    (leavesOfBranches scope nominal copying branches).andThen fun listed =>
      .answer (.ofLeaves (done ++ listed))

/-- Taking a branch in is appending its leaves. -/
abbrev TakesLeavesOfBranch (copying : List String) (flat : FlatRecord) (branch : Schema) : Prop :=
  ∀ done, flat = .ofLeaves done → flattenBranch scope nominal copying flat branch =
    (leavesOfBranch scope nominal copying branch).andThen fun listed =>
      .answer (.ofLeaves (done ++ listed))

variable {scope nominal}

/-- A composition comes to the record of the leaves of its branches. -/
theorem flattensToLeaves_composition {copying : List String} {traits : Traits}
    {kind : Composition} {branches : List Schema}
    (taken : TakesLeavesOfBranches scope nominal copying {} branches) :
    FlattensToLeaves scope nominal copying (.composition traits kind branches) := by
  intro done
  rw [flatten, leaves, taken [] rfl, Traced.andThen_assoc]
  simp only [Traced.answer_andThen, List.nil_append, absorb_ofLeaves]

/-- A pointer as a branch is a leaf or stands for the leaves behind it. -/
theorem takesLeavesOfBranch_pointer {copying : List String} {flat : FlatRecord} {traits : Traits}
    {pointer name : String} (pointed : Reference.schemaName? pointer = some name)
    (deeper : ∀ base raw, scope.schemas.find? base = some raw → base ∉ copying →
      ∀ schema, FlattensToLeaves scope nominal (base :: copying) schema) :
    TakesLeavesOfBranch scope nominal copying flat (.reference traits pointer) := by
  rintro done rfl
  rw [flattenBranch, leavesOfBranch, pointed]
  dsimp only
  rw [Traced.andThen_assoc]
  refine Traced.andThen_congr rfl fun found _ => ?_
  cases found with
  | none => rw [Traced.answer_andThen, withExtra_ofLeaves]
  | some base =>
      dsimp only
      by_cases later : scope.emittedLater nominal base
      · rw [if_pos later, if_pos later]
        -- Both look the schema up and go by what they find.
        generalize held : scope.schemas.find? base = found
        cases found with
        | none =>
            dsimp only
            rw [Traced.answer_andThen, List.append_nil]
        | some raw =>
            dsimp only
            by_cases underway : base ∈ copying
            · rw [dif_pos underway, dif_pos underway, Traced.answer_andThen, List.append_nil]
            · rw [dif_neg underway, dif_neg underway, Traced.andThen_assoc]
              refine Traced.andThen_congr rfl fun schema _ => ?_
              exact deeper base raw held underway schema done
      · rw [if_neg later, if_neg later, Traced.answer_andThen, withBase_ofLeaves]

/-- Flattening lists the leaves of the branches in turn. -/
theorem flattens_to_leaves :
    (∀ copying schema, FlattensToLeaves scope nominal copying schema) ∧
      (∀ copying flat branches, TakesLeavesOfBranches scope nominal copying flat branches) ∧
      ∀ copying flat branch, TakesLeavesOfBranch scope nominal copying flat branch := by
  apply flatten.mutual_induct scope (FlattensToLeaves scope nominal)
    (TakesLeavesOfBranches scope nominal) (TakesLeavesOfBranch scope nominal)
  case case1 => -- an object
    intro copying traits properties required additional done
    rw [flatten, leaves, Traced.answer_andThen, Traced.answer_andThen, absorb_ofObject]
  case case2 => -- a composition
    intro copying traits kind branches taken
    exact flattensToLeaves_composition taken
  case case3 => -- any other schema is a part of its own
    intro copying other notObject notComposition done
    rw [flatten, leaves]
    · rw [Traced.answer_andThen, Traced.answer_andThen, ← absorb_ofLeaves]
      rfl
    all_goals assumption
  case case4 => -- no branch is left
    rintro copying _ done rfl
    rw [flattenBranches, leavesOfBranches, Traced.answer_andThen, List.append_nil]
  case case5 => -- a branch and those after it
    rintro copying _ branch rest first later done rfl
    rw [flattenBranches, leavesOfBranches, first done rfl]
    simp only [Traced.andThen_assoc, Traced.answer_andThen]
    refine Traced.andThen_congr rfl fun listed _ => ?_
    rw [later _ _ rfl]
    simp only [List.append_assoc]
  case case6 => -- a pointer out of the document
    rintro copying _ traits pointer unnamed done rfl
    rw [flattenBranch, leavesOfBranch, unnamed]
    dsimp only
    rw [Traced.answer_andThen, withExtra_ofLeaves]
  case case7 => -- a pointer to a name
    intro copying flat traits pointer name pointed deeper
    exact takesLeavesOfBranch_pointer pointed deeper
  case case8 => -- an object as a branch
    rintro copying _ traits properties required additional inner done rfl
    rw [flattenBranch, inner done, leaves, leavesOfBranch]
  case case9 => -- an `allOf` as a branch
    rintro copying _ traits branches inner done rfl
    rw [flattenBranch, inner done, leaves, leavesOfBranch]
  case case10 => -- any other branch
    rintro copying _ other notReference notObject notAllOf done rfl
    rw [flattenBranch, leavesOfBranch]
    · rw [Traced.answer_andThen, withExtra_ofLeaves]
    all_goals assumption

/-- A composition comes to the record of the leaves of its branches. -/
theorem flatten_composition (copying : List String) (traits : Traits) (kind : Composition)
    (branches : List Schema) :
    flatten scope nominal copying (.composition traits kind branches) =
      (leavesOfBranches scope nominal copying branches).andThen fun listed =>
        .answer (.ofLeaves listed) := by
  rw [flatten, flattens_to_leaves.2.1 copying {} branches [] rfl]
  rfl

/-! ## Objects without repetitions -/

/-- An object says nothing twice: the properties that it declares have different keys, and it
requires no name twice. -/
def Schema.IsKeyed : Schema → Prop
  | .object _ properties required _ =>
    ((properties.getD []).Pairwise fun first second => Scalar.same second.1 first.1 = false) ∧
      required.Pairwise fun first second => Scalar.same second first = false
  | _ => True

/-- An object that says nothing twice is the record of its leaf. -/
theorem ofLeaves_object {traits : Traits} {properties : Option (List (Scalar × Schema))}
    {required : List Scalar} {additional : Additional Schema}
    (keyed : (Schema.object traits properties required additional).IsKeyed) :
    FlatRecord.ofLeaves [.object (properties.getD []) required additional] =
      .ofObject properties required additional := by
  obtain ⟨declared, names⟩ := keyed
  apply FlatRecord.ext
  case bases => rfl
  case properties =>
    simp only [FlatRecord.ofLeaves, List.flatMap_singleton, Leaf.properties]
    rw [← Keyed.ofEntries_eq_lastValues, Keyed.ofEntries_of_pairwise declared]
    rfl
  case required =>
    simp only [FlatRecord.ofLeaves, List.flatMap_singleton, Leaf.required]
    exact eraseDupsBy_of_pairwise names
  case additional => cases additional <;> rfl
  case extras => rfl

/-- Required names are read once each. -/
theorem pairwise_of_statedRequired {entries : Mapping} {required : List Scalar}
    (read : Schema.statedRequired entries = .ok required) :
    required.Pairwise fun first second => Scalar.same second first = false := by
  unfold Schema.statedRequired at read
  split at read
  · obtain ⟨names, -, same⟩ := except_bind_eq_ok_iff.mp read
    cases same
    rw [Keyed.ofEntries_eq_lastValues, Keyed.map_fst_lastValues]
    exact pairwise_eraseDupsBy
  · cases read
    exact .nil

section Reading

variable {entries : Mapping}
  (once : ∀ inner, entries.find? "properties" = some (.map inner) →
    inner.Pairwise fun first second => Scalar.same second.1 first.1 = false)

include once

/-- Properties that are read from different keys have different keys. -/
theorem pairwise_of_ofProperties {properties : List (Scalar × Schema)}
    (read : Schema.ofProperties entries = .ok (some properties)) :
    properties.Pairwise fun first second => Scalar.same second.1 first.1 = false := by
  unfold Schema.ofProperties at read
  split at read
  · next inner found =>
      obtain ⟨own, readOwn, same⟩ := except_bind_eq_ok_iff.mp read
      cases same
      have anyhow (value : Value) :
          EndsAs (fun _ => True) (fun _ => True) (Schema.ofValue value) := by
        cases Schema.ofValue value <;> trivial
      have keys : properties.map Prod.fst = inner.map Prod.fst :=
        ((Schema.endsAs_ofEntries fun entry _ => anyhow entry.2).of_ok readOwn).1
      have differ := once inner found
      rw [← List.pairwise_map (f := Prod.fst)
        (R := fun first second => Scalar.same second first = false)] at differ ⊢
      rwa [keys]
  · split at read <;> cases read
  · cases read

/-- An object that is read from different keys says nothing twice. -/
theorem isKeyed_of_ofObject {traits : Traits} {schema : Schema}
    (read : Schema.ofObject traits entries = .ok schema) : schema.IsKeyed := by
  rw [Schema.ofObject] at read
  obtain ⟨additional, readAdditional, read⟩ := except_bind_eq_ok_iff.mp read
  obtain ⟨properties, readProperties, read⟩ := except_bind_eq_ok_iff.mp read
  obtain ⟨required, readRequired, read⟩ := except_bind_eq_ok_iff.mp read
  cases read
  refine ⟨?_, pairwise_of_statedRequired readRequired⟩
  cases properties with
  | none => exact .nil
  | some declared => exact pairwise_of_ofProperties once readProperties

/-- Objects that are read from mappings without repeated property keys say nothing twice. -/
theorem isKeyed_of_ofValue {schema : Schema} (read : Schema.ofValue (.map entries) = .ok schema) :
    schema.IsKeyed := by
  rw [Schema.ofValue] at read
  split at read
  · cases read
    trivial
  · split at read
    · cases read
      trivial
    · split at read
      · obtain ⟨branches, -, read⟩ := except_bind_eq_ok_iff.mp read
        split at read
        · obtain ⟨own, -, read⟩ := except_bind_eq_ok_iff.mp read
          cases read
          unfold Schema.withOwn
          split <;> trivial
        · cases read
          trivial
      · dsimp only at read
        split at read
        · cases read
          trivial
        · split at read
          · split at read
            · obtain ⟨items, -, read⟩ := except_bind_eq_ok_iff.mp read
              cases read
              trivial
            · cases read
              trivial
          · split at read
            · exact isKeyed_of_ofObject once read
            · cases read
              trivial

end Reading

/-! ## Grouping of branches -/

mutual

/-- A branch, or the branches that it stands for if it is an `allOf`. -/
def Schema.spliced : Schema → List Schema
  | composition _ .allOf branches => Schema.splicedBranches branches
  | other => [other]

/-- Branches with every `allOf` among them replaced by its own branches, at any depth. -/
def Schema.splicedBranches : List Schema → List Schema
  | [] => []
  | branch :: rest => branch.spliced ++ Schema.splicedBranches rest

end

/-- The leaves of branches put together are those of the one and then those of the other. -/
theorem leavesOfBranches_append {copying : List String} {first second : List Schema} :
    leavesOfBranches scope nominal copying (first ++ second) =
      (leavesOfBranches scope nominal copying first).andThen fun listed =>
        (leavesOfBranches scope nominal copying second).andThen fun later =>
          .answer (listed ++ later) := by
  induction first with
  | nil => simp [leavesOfBranches]
  | cons branch rest ih =>
      rw [List.cons_append, leavesOfBranches, leavesOfBranches, ih]
      simp only [Traced.andThen_assoc, Traced.answer_andThen, List.append_assoc]

/-- Grouping does not change the leaves. -/
theorem leavesOfBranches_spliced {copying : List String} :
    (∀ branch : Schema, leavesOfBranches scope nominal copying branch.spliced =
      leavesOfBranch scope nominal copying branch) ∧
    ∀ branches, leavesOfBranches scope nominal copying (Schema.splicedBranches branches) =
      leavesOfBranches scope nominal copying branches := by
  apply Schema.spliced.mutual_induct
  case case1 => -- an `allOf`
    intro traits branches same
    rw [Schema.spliced, leavesOfBranch, same]
  case case2 => -- any other branch
    intro other notAllOf
    rw [Schema.spliced, leavesOfBranches, leavesOfBranches]
    · simp
    · exact notAllOf
  case case3 => -- no branch is left
    rw [Schema.splicedBranches]
  case case4 => -- a branch and those after it
    intro branch rest first later
    rw [Schema.splicedBranches, leavesOfBranches_append, first, later, leavesOfBranches]

variable (scope nominal)

/-- **Flattening reads a record off its leaves.** Flattening any schema gives the record of the list
of its leaves, so that branches may be grouped in any way: compositions whose branches are the same
once every `allOf` among them is replaced by its own branches come to the same record. -/
theorem flatten_eq_ofLeaves (copying : List String) :
    (∀ schema : Schema, schema.IsKeyed → flatten scope nominal copying schema =
      (leaves scope nominal copying schema).andThen fun listed => .answer (.ofLeaves listed)) ∧
    ∀ (traits own : Traits) (kind joint : Composition) (branches others : List Schema),
      Schema.splicedBranches branches = Schema.splicedBranches others →
        flatten scope nominal copying (.composition traits kind branches) =
          flatten scope nominal copying (.composition own joint others) := by
  constructor
  · intro schema keyed
    cases schema with
    | object traits properties required additional =>
        rw [flatten, leaves, Traced.answer_andThen, ofLeaves_object keyed]
    | composition traits kind branches => rw [flatten_composition, leaves]
    | reference | enumeration | primitive | array | unknown =>
        rw [flatten, leaves]
        · rw [Traced.answer_andThen]
          rfl
        all_goals simp
  · intro traits own kind joint branches others same
    rw [flatten_composition, flatten_composition, ← leavesOfBranches_spliced.2, same,
      leavesOfBranches_spliced.2]

end Flattening

/-! ## The leaves of a pointer -/

section Pointers

variable {scope : Scope} {nominal : Bool} {copying : List String} {traits : Traits}
  {pointer name base : String} {notices : List Notice}
  (pointed : Reference.schemaName? pointer = some name)
  (found : scope.base? nominal name = ⟨notices, .ok (some base)⟩)

include pointed found

/-- A base that is emitted earlier is a leaf of its own. -/
theorem leavesOfBranch_inherited (earlier : scope.emittedLater nominal base = false) :
    leavesOfBranch scope nominal copying (.reference traits pointer) =
      ⟨notices, .ok [.base base]⟩ := by
  rw [leavesOfBranch, pointed]
  dsimp only
  rw [found]
  simp [Traced.andThen, Traced.answer, earlier]

/-- A base that is emitted later has no leaves while its own are being listed. -/
theorem leavesOfBranch_skipped (later : scope.emittedLater nominal base)
    (underway : base ∈ copying) :
    leavesOfBranch scope nominal copying (.reference traits pointer) = ⟨notices, .ok []⟩ := by
  rw [leavesOfBranch, pointed]
  dsimp only
  rw [found]
  simp only [Traced.andThen, later, if_true]
  split
  · simp [Traced.answer]
  · simp [Traced.answer, underway]

/-- Else a base that is emitted later stands for its own leaves. -/
theorem leavesOfBranch_copied {raw : Value} {schema : Schema}
    (later : scope.emittedLater nominal base) (held : scope.schemas.find? base = some raw)
    (fresh : base ∉ copying) (reads : Schema.ofValue raw = .ok schema) :
    leavesOfBranch scope nominal copying (.reference traits pointer) =
      (⟨notices, .ok schema⟩ : Traced Schema).andThen fun schema =>
        leaves scope nominal (base :: copying) schema := by
  rw [leavesOfBranch, pointed]
  dsimp only
  rw [found]
  simp only [Traced.andThen, later, if_true]
  split
  · next absent => simp [held] at absent
  · next other found =>
      obtain rfl : raw = other := Option.some.inj (held.symm.trans found)
      simp [fresh, reads, Traced.ofExcept]

end Pointers

/-! ## A record of each kind of leaf -/

/-- An object with one property about which nothing is said. -/
def objectWith (key : String) : Value := .map [(.text "properties", .map [(.text key, .map [])])]

/-- A scope with a record that is emitted, and with two that are emitted later. -/
def catScope : Scope where
  taken := ∅
  schemas := [(.text "Pet", objectWith "id"), (.text "Toy", objectWith "tag"),
    (.text "Cat", objectWith "purrs")]
  defined := some (.ofList ["Pet"])

/-- An object that says nothing twice. -/
def catObject : Schema :=
  .object {} (some [(.text "name", .primitive {} .string), (.text "id", .primitive {} .string)])
    [.text "name", .text "id"] (.allowed false)

/-- The branches of a cat: compositions among them, pointers to all three records, and two objects that
declare the same property. -/
def catBranches : List Schema :=
  [.composition {} .allOf
      [.object {} (some [(.text "id", .primitive {} .integer)]) [.text "id"] .unstated,
        .reference {} "#/components/schemas/Pet"],
    .reference {} "#/components/schemas/Cat",
    .composition {} .allOf [.reference {} "#/components/schemas/Toy"],
    catObject]

/-- Each of the three records is one to build on. -/
theorem base?_catScope (name key : String)
    (held : catScope.schemas.find? name = some (objectWith key)) :
    catScope.base? true name = .answer (some name) := by
  have behind : recordBehind? catScope.schemas [] name = .ok (some name) :=
    recordBehind?_of_record ⟨_, held, Schema.ofValue_of_property key⟩ rfl List.not_mem_nil
  have there : catScope.schemas.has name := by simp [Mapping.has, held]
  rw [Scope.base?, there, behind]
  rfl

/-- The pet is inherited, the cat is under way, and the toy is copied. -/
theorem leavesOfBranches_cat : leavesOfBranches catScope true ["Cat"] catBranches =
    .answer [.object [(.text "id", .primitive {} .integer)] [.text "id"] .unstated, .base "Pet",
      .object [(.text "tag", .unknown {})] [] .unstated,
      .object [(.text "name", .primitive {} .string), (.text "id", .primitive {} .string)]
        [.text "name", .text "id"] (.allowed false)] := by
  have pet : leavesOfBranch catScope true ["Cat"] (.reference {} "#/components/schemas/Pet") =
      .answer [.base "Pet"] :=
    leavesOfBranch_inherited (by decide) (base?_catScope "Pet" "id" rfl) (by decide)
  have cat : leavesOfBranch catScope true ["Cat"] (.reference {} "#/components/schemas/Cat") =
      .answer [] :=
    leavesOfBranch_skipped (by decide) (base?_catScope "Cat" "purrs" rfl) (by decide) (by simp)
  have toy : leavesOfBranch catScope true ["Cat"] (.reference {} "#/components/schemas/Toy") =
      .answer [.object [(.text "tag", .unknown {})] [] .unstated] := by
    rw [leavesOfBranch_copied (by decide) (base?_catScope "Toy" "tag" rfl) (by decide) rfl
      (by simp) (Schema.ofValue_of_property "tag")]
    simp [Traced.andThen, Traced.answer, leaves]
  simp [catBranches, catObject, leavesOfBranches, leavesOfBranch, pet, cat, toy]

theorem flatten_eq_ofLeaves_grouped :
    (catObject.IsKeyed ∧ flatten catScope true [] catObject = .answer (.ofLeaves
      [.object [(.text "name", .primitive {} .string), (.text "id", .primitive {} .string)]
        [.text "name", .text "id"] (.allowed false)])) ∧
    ((Schema.composition {} .allOf catBranches).IsKeyed ∧
      flatten catScope true ["Cat"] (.composition {} .allOf catBranches) = .answer {
        bases := ["Pet"]
        properties := [(.text "id", .primitive {} .string), (.text "tag", .unknown {}),
          (.text "name", .primitive {} .string)]
        required := [.text "id", .text "name"]
        additional := .allowed false }) ∧
    flatten catScope true ["Cat"] (.composition {} .allOf (Schema.splicedBranches catBranches)) =
      flatten catScope true ["Cat"] (.composition {} .allOf catBranches) := by
  have keyed : catObject.IsKeyed := ⟨by decide, by decide⟩
  refine ⟨⟨keyed, ?_⟩, ⟨trivial, ?_⟩, ?_⟩
  · rw [(flatten_eq_ofLeaves catScope true []).1 catObject keyed, catObject, leaves,
      Traced.answer_andThen]
    rfl
  · rw [(flatten_eq_ofLeaves catScope true ["Cat"]).1 (.composition {} .allOf catBranches) trivial,
      leaves, leavesOfBranches_cat, Traced.answer_andThen]
    rfl
  · exact (flatten_eq_ofLeaves catScope true ["Cat"]).2 _ _ _ _ _ _ (by rfl)

end OpenApi
