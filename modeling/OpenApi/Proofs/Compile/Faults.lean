import OpenApi.Proofs.Compile.Drawn
import OpenApi.Proofs.Schema.Size

/-!
# Why compiling fails

A part of a schema is compiled one level deeper than the schema, and compiling may go only so deep.
The bound is large enough for every schema that does not copy its own fields: a part that stands
below a schema is smaller, and one that is copied from another schema stands below that, which has
not been copied from on the way (`Scope.Affords`).  So compiling fails for few reasons, each of
which shows in a schema (`Scope.Hinders`).
-/

namespace OpenApi

open Relation

namespace Scope

variable (scope : Scope) (nominal : Bool)

/-- A schema copies its own fields, directly or through others. -/
def CopiesItself : Prop := ∃ base, TransGen (scope.Copies nominal) base base

/-- Why a schema cannot be compiled. -/
inductive Hinders (root : Schema) : Fault → Prop
  | name {key : Scalar} (knows : scope.Knows root key) (noText : ∀ content, key ≠ .text content) :
      Hinders root .nameNotText
  | number {traits : Traits} {values : List Value}
      (part : (Schema.enumeration traits values).PartOf scope.schemas root)
      (long : values.all (·.isWritable) = false) : Hinders root .numberUnwritable
  | endless (copies : scope.CopiesItself nominal) : Hinders root .endlessCopy
  | unread {fault : Fault} (cause : scope.schemas.HasUnread fault) : Hinders root fault

/-- All that a part copies was reached from the schemas whose fields were copied before. -/
def Follows (passed : List String) (part : Schema) : Prop :=
  ∀ source ∈ passed, ∀ inner base, inner.Within part → scope.Draws nominal inner base →
    TransGen (scope.Copies nominal) source base

/-- Compiling a part may go deep enough: unless a schema copies itself, the depth exceeds the size
of the part together with the schemas from which nothing was copied yet. -/
def Affords (depth : Nat) (part : Schema) : Prop :=
  scope.CopiesItself nominal ∨ ∃ passed, scope.Follows nominal passed part ∧
    part.size + 3 * Value.sizeEntries (Mapping.without scope.schemas passed) < depth

variable {scope nominal} {depth : Nat} {whole part root : Schema}

/-- The depth that compiling starts with. -/
theorem Affords.of_bound (deep : part.size + Dialect.schemaBound scope < depth) :
    scope.Affords nominal depth part := by
  refine .inr ⟨[], fun source none => absurd none List.not_mem_nil, ?_⟩
  rw [Mapping.without]
  exact deep

/-- Where no depth is left, a schema copies itself. -/
theorem Affords.copiesItself (affords : scope.Affords nominal 0 part) :
    scope.CopiesItself nominal := by
  rcases affords with copies | ⟨passed, follows, deep⟩
  · exact copies
  · exact absurd deep (Nat.not_lt_zero _)

/-- Whoever affords a schema affords each part of it, one step less deep. -/
theorem Affords.below (affords : scope.Affords nominal (depth + 1) whole)
    (below : part.Below whole) : scope.Affords nominal depth part := by
  rcases affords with copies | ⟨passed, follows, deep⟩
  · exact .inl copies
  · refine .inr ⟨passed, ?_, ?_⟩
    · exact fun source member inner base within =>
        follows source member inner base (within.trans below.within)
    · have := below.smaller
      omega

/-- One level deeper there is still room for a part that is drawn from a record. -/
theorem Affords.drawn (affords : scope.Affords nominal (depth + 1) whole)
    (drawn : scope.Drawn nominal whole part) : scope.Affords nominal depth part := by
  rcases drawn with below | ⟨first, base, schema, draws, chain, named, below⟩
  · exact affords.below below
  rcases affords with copies | ⟨passed, follows, deep⟩
  · exact .inl copies
  have reaches : ∀ source ∈ passed, TransGen (scope.Copies nominal) source base :=
    fun source member => (follows source member whole first (.self whole) draws).trans_left chain
  by_cases again : base ∈ passed
  · exact .inl ⟨base, reaches base again⟩
  · refine .inr ⟨base :: passed, ?_, ?_⟩
    · intro source member inner next within further
      have copies : scope.Copies nominal base next :=
        ⟨schema, inner, named, within.trans below.within, further⟩
      rcases List.mem_cons.mp member with rfl | earlier
      · exact .single copies
      · exact (reaches source earlier).tail copies
    · obtain ⟨raw, held, read⟩ := named
      have := Mapping.size_add_sizeEntries_without held again
      have := Schema.readsSmall raw schema read
      have := below.smaller
      have := whole.size_pos
      omega

/-! ### Widened scopes -/

variable {names : List String} {key : Scalar} {fault : Fault}

@[simp]
theorem affords_taking :
    (scope.taking names).Affords nominal depth part ↔ scope.Affords nominal depth part := by
  rw [taking_eq]
  rfl

/-- It does not matter which names are taken. -/
theorem Hinders.retake (taken : NameSet) (hinders : scope.Hinders nominal root fault) :
    { scope with taken }.Hinders nominal root fault := by
  cases hinders with
  | name knows noText => exact .name knows noText
  | number part long => exact .number part long
  | endless copies => exact .endless copies
  | unread cause => exact .unread cause

/-- Names that are taken hinder nothing. -/
@[simp]
theorem hinders_taking :
    (scope.taking names).Hinders nominal root fault ↔ scope.Hinders nominal root fault := by
  rw [taking_eq]
  exact ⟨fun hinders => hinders.retake scope.taken, fun hinders => hinders.retake _⟩

end Scope

/-! ## Compiling parts -/

/-- A way of compiling fails only for what hinders, given that it may go deep enough. -/
def Compiling.Explains (compile : Compiling) (nominal : Bool) (depth : Nat) : Prop :=
  ∀ ⦃part root : Schema⦄ ⦃scope : Scope⦄ (hint : String), scope.Affords nominal depth part →
    part.PartOf scope.schemas root →
    EndsAs (fun _ => True) (scope.Hinders nominal root) (compile part hint scope).outcome

namespace Compiling.Explains

open Dialect

variable {dialect : Dialect} {compile : Compiling} {depth : Nat} {part root schema : Schema}
  {scope : Scope}

/-- An answer that is given right away needs no explanation. -/
theorem endsAs_answer {α : Type} {faults : Fault → Prop} (a : α) :
    EndsAs (fun _ => True) faults (Traced.answer a).outcome :=
  trivial

theorem endsAs_taking {α : Type} {names : List String} {nominal : Bool}
    {outcome : Except Fault α}
    (ends : EndsAs (fun _ => True) ((scope.taking names).Hinders nominal root) outcome) :
    EndsAs (fun _ => True) (scope.Hinders nominal root) outcome :=
  ends.imp (fun _ _ => trivial) fun _ hinders => Scope.hinders_taking.mp hinders

theorem compilePart (explains : compile.Explains dialect.nominalBases depth) (hint : String)
    (affords : scope.Affords dialect.nominalBases depth part)
    (partOf : part.PartOf scope.schemas root) :
    EndsAs (fun _ => True) (scope.Hinders dialect.nominalBases root)
      (dialect.compilePart compile part hint scope).outcome :=
  Traced.endsAs_andThen (explains hint affords partOf) fun _ _ _ => endsAs_answer _

/-- Parts are compiled in turn, and the names taken on the way do not matter. -/
theorem compileParts (explains : compile.Explains dialect.nominalBases depth)
    {parts : List (Schema × String)}
    (each : ∀ part ∈ parts, scope.Affords dialect.nominalBases depth part.1 ∧
      part.1.PartOf scope.schemas root) :
    EndsAs (fun _ => True) (scope.Hinders dialect.nominalBases root)
      (dialect.compileParts compile parts scope).outcome := by
  induction parts generalizing scope with
  | nil => exact endsAs_answer _
  | cons part rest ih =>
      obtain ⟨part, hint⟩ := part
      obtain ⟨⟨affords, partOf⟩, others⟩ := List.forall_mem_cons.mp each
      rw [Dialect.compileParts]
      refine Traced.endsAs_andThen (explains.compilePart hint affords partOf) fun first _ _ => ?_
      refine Traced.endsAs_andThen (endsAs_taking (ih ?_)) fun _ _ _ => endsAs_answer _
      simpa [Scope.schemas_taking] using others

theorem endsAs_assemble {faults : Fault → Prop} (name : String) (fields : List (Field × Compiled))
    (bases : List String) (extras : List Compiled) (additional : Additional Compiled) :
    EndsAs (fun _ => True) faults
      (dialect.assemble name fields bases extras additional).outcome := by
  unfold Dialect.assemble
  dsimp only
  split <;> trivial

/-- Properties are named if their keys are texts. -/
theorem endsAs_namedProperties {entries : List (Scalar × Schema)}
    (knows : ∀ key ∈ entries.map Prod.fst, scope.Knows root key) (nominal : Bool) :
    EndsAs (fun _ => True) (scope.Hinders nominal root) (namedProperties entries) := by
  fun_induction namedProperties entries with
  | case1 => trivial
  | case2 content property rest ih =>
      refine (ih fun key member => knows key (List.mem_cons_of_mem _ member)).bind ?_
      exact fun _ _ _ => trivial
  | case3 entry rest noText =>
      refine .name (knows entry.1 List.mem_cons_self) ?_
      intro content same
      exact noText content entry.2 (congrArg (·, entry.2) same)

/-- A record is compiled from parts that are drawn from it. -/
theorem compileRecord (explains : compile.Explains dialect.nominalBases depth) (name : String)
    (joined : schema.isJoined) (affords : scope.Affords dialect.nominalBases (depth + 1) schema)
    (partOf : schema.PartOf scope.schemas root) :
    EndsAs (fun _ => True) (scope.Hinders dialect.nominalBases root)
      (dialect.compileRecord compile schema name scope).outcome := by
  unfold Dialect.compileRecord
  have room {part : Schema} (drawn : scope.Drawn dialect.nominalBases schema part) :
      scope.Affords dialect.nominalBases depth part ∧ part.PartOf scope.schemas root :=
    ⟨affords.drawn drawn, drawn.partOf partOf⟩
  refine Traced.endsAs_andThen ((endsAs_flatten joined).imp (fun _ drawn => drawn)
    fun _ cause => .unread cause) fun flat _ drawn => ?_
  have keys := endsAs_namedProperties (fun key member => (drawn.keys key member).partOf partOf)
    dialect.nominalBases
  refine Traced.endsAs_andThen keys fun properties named _ => ?_
  simp only [scopeAfter_eq, ← Scope.taking_append]
  refine Traced.endsAs_andThen (explains.compileParts ?_) fun compiled _ _ => ?_
  · intro part member
    obtain ⟨property, held, same⟩ := List.mem_map.mp (mem_of_hinted named part member)
    exact same ▸ room (drawn.properties property held)
  refine Traced.endsAs_andThen (endsAs_taking (explains.compileParts ?_)) fun extras _ _ => ?_
  · intro part member
    simpa [Scope.schemas_taking] using room (drawn.extras part.1 (mem_of_numbered part member))
  split
  · next content stated =>
      obtain ⟨deep, within⟩ := room (drawn.additional content stated)
      refine Traced.endsAs_andThen (endsAs_taking (explains.compilePart (name ++ "Value") ?_ ?_))
        fun values _ _ => endsAs_assemble ..
      · exact Scope.affords_taking.mpr deep
      · rwa [Scope.schemas_taking]
  · exact endsAs_assemble ..
  · exact endsAs_assemble ..

/-- A nested record is compiled as a record. -/
theorem compileNested (explains : compile.Explains dialect.nominalBases depth) (hint : String)
    (joined : schema.isJoined) (affords : scope.Affords dialect.nominalBases (depth + 1) schema)
    (partOf : schema.PartOf scope.schemas root) :
    EndsAs (fun _ => True) (scope.Hinders dialect.nominalBases root)
      (dialect.compileNested compile schema hint scope).outcome := by
  unfold Dialect.compileNested
  split
  · have told (notices : List Notice) : EndsAs (fun _ => True)
        (scope.Hinders dialect.nominalBases root) (⟨notices, .ok ()⟩ : Traced Unit).outcome :=
      trivial
    refine Traced.endsAs_andThen (told _) fun _ _ _ => ?_
    refine Traced.endsAs_andThen (endsAs_taking (explains.compileRecord _ joined ?_ ?_))
      fun _ _ _ => endsAs_answer _
    · exact Scope.affords_taking.mpr affords
    · rwa [Scope.schemas_taking]
  · exact explains.compileRecord hint joined affords partOf

theorem compileComposition (explains : compile.Explains dialect.nominalBases depth)
    {traits : Traits} {kind : Composition} {branches : List Schema} (hint : String)
    (affords : scope.Affords dialect.nominalBases (depth + 1) (.composition traits kind branches))
    (partOf : (Schema.composition traits kind branches).PartOf scope.schemas root) :
    EndsAs (fun _ => True) (scope.Hinders dialect.nominalBases root)
      (dialect.compileComposition compile (.composition traits kind branches) kind branches hint
        scope).outcome := by
  have room (branch) (member : branch ∈ branches) :
      scope.Affords dialect.nominalBases depth branch ∧ branch.PartOf scope.schemas root :=
    ⟨affords.below (Schema.below_branch member), partOf.within (.branch member (.self branch))⟩
  unfold Dialect.compileComposition
  split
  · exact endsAs_answer _
  · next branch =>
      obtain ⟨deep, within⟩ := room branch List.mem_cons_self
      exact explains.compilePart hint deep within
  · split
    · next all => exact explains.compileNested hint (all ▸ rfl) affords partOf
    · refine Traced.endsAs_andThen (explains.compileParts fun part member => ?_)
        fun _ _ _ => endsAs_answer _
      exact room part.1 (mem_of_numbered part member)

/-- A schema is compiled from parts for which compiling may go one level less deep. -/
theorem compileCase (explains : compile.Explains dialect.nominalBases depth) (hint : String)
    (affords : scope.Affords dialect.nominalBases (depth + 1) schema)
    (partOf : schema.PartOf scope.schemas root) :
    EndsAs (fun _ => True) (scope.Hinders dialect.nominalBases root)
      (dialect.compileCase compile schema hint scope).outcome := by
  have alone {part : Schema} (below : part.Below schema) (hint : String) :
      EndsAs (fun _ => True) (scope.Hinders dialect.nominalBases root)
        (dialect.compilePart compile part hint scope).outcome :=
    explains.compilePart hint (affords.below below) (partOf.within below.within)
  cases schema with
  | reference | primitive | unknown => exact endsAs_answer _
  | enumeration traits values =>
      rw [Dialect.compileCase]
      split
      · exact endsAs_answer _
      · next long => exact .number partOf (Bool.eq_false_iff.mpr long)
  | composition traits kind branches => exact explains.compileComposition hint affords partOf
  | array traits items =>
      cases items with
      | none => exact endsAs_answer _
      | some items =>
          exact Traced.endsAs_andThen (alone Schema.below_items _) fun _ _ _ => endsAs_answer _
  | object traits properties required additional =>
      cases properties with
      | some properties => exact explains.compileNested hint rfl affords partOf
      | none =>
          cases additional with
          | values content =>
              exact Traced.endsAs_andThen (alone Schema.below_content _)
                fun _ _ _ => endsAs_answer _
          | unstated | allowed => exact endsAs_answer _

end Compiling.Explains

/-! ## Compiling schemas -/

namespace Dialect

variable {dialect : Dialect}

/-- Whatever fault compiling ends in, something hinders it there, by induction on the depth of the
call. -/
theorem explains_compileWithin (dialect : Dialect) (depth : Nat) :
    (dialect.compileWithin depth).Explains dialect.nominalBases depth := by
  induction depth with
  | zero => exact fun part root scope hint affords partOf => .endless affords.copiesItself
  | succ depth ih =>
      intro part root scope hint affords partOf
      rw [compileWithin]
      exact Traced.endsAs_andThen (ih.compileCase hint affords partOf)
        fun _ _ _ => Compiling.Explains.endsAs_answer _

/-- Compiling a schema fails only if a key is no text, a listed number is too long, a schema that is
needed cannot be read, or a schema copies its own fields. -/
theorem endsAs_compile (name : String) (schema : Schema) (scope : Scope) :
    EndsAs (fun _ => True) (scope.Hinders dialect.nominalBases schema)
      (dialect.compile name schema scope).outcome := by
  have explains := dialect.explains_compileWithin (schema.size + schemaBound scope + 1)
  unfold compile
  dsimp only
  split
  · next isRecord =>
      exact explains.compileRecord name (Schema.isJoined_of_isRecord isRecord)
        (.of_bound (by omega)) (.inl (.self schema))
  · exact explains name (.of_bound (by omega)) (.inl (.self schema))

end Dialect

end OpenApi
