import OpenApi.Traced

/-!
# Answers of traced computations

When a computation ends with an answer, whatever notices it gives on the way.  A computation in
steps ends with an answer exactly if each of its steps does, and its notices are those of its steps
one after the other.  Two computations are compared step by
step, by relating the answers of their steps (`Traced.Tracks`).

What is known of the answers and of the faults of a computation is put together from its steps in
the same way (`EndsAs`).
-/

namespace OpenApi

/-- A reading in steps succeeds exactly if each of its steps does. -/
theorem except_bind_eq_ok_iff {ε α β : Type} {first : Except ε α} {next : α → Except ε β} {b : β} :
    first >>= next = .ok b ↔ ∃ a, first = .ok a ∧ next a = .ok b := by
  cases first with
  | error fault => simp [bind, Except.bind]
  | ok a => simp [bind, Except.bind]

/-! ## Outcomes -/

/-- An outcome is an answer of one kind or a fault of another. -/
def EndsAs {ε α : Type} (answers : α → Prop) (faults : ε → Prop) : Except ε α → Prop
  | .ok a => answers a
  | .error fault => faults fault

namespace EndsAs

variable {ε α β : Type} {answers between : α → Prop} {later : β → Prop} {faults others : ε → Prop}

/-- The answer of an outcome is of its kind. -/
theorem of_ok {outcome : Except ε α} {a : α} (ends : EndsAs answers faults outcome)
    (answered : outcome = .ok a) : answers a := by
  subst answered
  exact ends

/-- The fault of an outcome is of its kind. -/
theorem of_error {outcome : Except ε α} {fault : ε} (ends : EndsAs answers faults outcome)
    (failed : outcome = .error fault) : faults fault := by
  subst failed
  exact ends

/-- What is known of an outcome may be weakened on both sides. -/
theorem imp {outcome : Except ε α} (ends : EndsAs between faults outcome)
    (answered : ∀ a, between a → answers a) (failed : ∀ fault, faults fault → others fault) :
    EndsAs answers others outcome := by
  cases outcome with
  | ok a => exact answered a ends
  | error fault => exact failed fault ends

/-- A reading in steps ends as its last step does, or with a fault of an earlier one. -/
theorem bind {first : Except ε α} {next : α → Except ε β}
    (before : EndsAs between faults first)
    (after : ∀ a, first = .ok a → between a → EndsAs later faults (next a)) :
    EndsAs later faults (first >>= next) := by
  cases first with
  | ok a => exact after a rfl before
  | error fault => exact before

/-- Reading a list fails with a fault of one of its items. -/
theorem mapM {items : List α} {read : α → Except ε β}
    (each : ∀ item ∈ items, EndsAs (fun _ => True) faults (read item)) :
    EndsAs (fun _ => True) faults (items.mapM read) := by
  induction items with
  | nil => trivial
  | cons item rest ih =>
      rw [List.mapM_cons]
      refine (each item List.mem_cons_self).bind fun _ _ _ => ?_
      refine (ih fun other member => each other (List.mem_cons_of_mem _ member)).bind ?_
      exact fun _ _ _ => trivial

end EndsAs

namespace Traced

variable {α β : Type}

/-- A computation ends with an answer. -/
def Yields (computation : Traced α) (a : α) : Prop := computation.outcome = .ok a

@[simp]
theorem yields_mk {notices : List Notice} {outcome : Except Fault α} {a : α} :
    (⟨notices, outcome⟩ : Traced α).Yields a ↔ outcome = .ok a :=
  Iff.rfl

/-- An answer yields itself and nothing else. -/
@[simp]
theorem yields_answer {a b : α} : (answer a).Yields b ↔ a = b := by
  simp [answer]

/-- A fault yields nothing. -/
@[simp]
theorem yields_fail {fault : Fault} {a : α} : (fail fault : Traced α).Yields a ↔ False := by
  simp [fail]

/-- An outcome yields its answer. -/
@[simp]
theorem yields_ofExcept {outcome : Except Fault α} {a : α} :
    (ofExcept outcome).Yields a ↔ outcome = .ok a :=
  Iff.rfl

/-- Steps yield what the last one does, if all before it yield something. -/
@[simp]
theorem yields_andThen {first : Traced α} {next : α → Traced β} {b : β} :
    (first.andThen next).Yields b ↔ ∃ a, first.Yields a ∧ (next a).Yields b := by
  obtain ⟨notices, outcome⟩ := first
  cases outcome with
  | error fault => simp [andThen]
  | ok a => simp [andThen, Yields]

/-- So it is if the last step is sure to answer. -/
theorem yields_andThen_answer {first : Traced α} {finish : α → β} {b : β} :
    (first.andThen fun a => answer (finish a)).Yields b ↔ ∃ a, first.Yields a ∧ finish a = b := by
  simp

/-- A computation ends with an answer if its first step does and the rest does whatever it is. -/
theorem exists_yields_andThen {first : Traced α} {next : α → Traced β}
    (before : ∃ a, first.Yields a) (after : ∀ a, ∃ b, (next a).Yields b) :
    ∃ b, (first.andThen next).Yields b := by
  obtain ⟨a, yields⟩ := before
  obtain ⟨b, yieldsLater⟩ := after a
  exact ⟨b, yields_andThen.mpr ⟨a, yields, yieldsLater⟩⟩

/-- A good outcome is an answer. -/
theorem ofExcept_ok (a : α) : ofExcept (.ok a) = answer a :=
  rfl

/-- Steps that are the same make computations that are. -/
theorem andThen_congr {first second : Traced α} {next other : α → Traced β}
    (same : first = second) (after : ∀ a, second.Yields a → next a = other a) :
    first.andThen next = second.andThen other := by
  subst same
  cases held : first.outcome with
  | error fault => simp [andThen, held]
  | ok a => simp [andThen, held, after a held]

/-- What the first step reports comes before what the next one does. -/
theorem Yields.notices_andThen {first : Traced α} {a : α} (yields : first.Yields a)
    (next : α → Traced β) : (first.andThen next).notices = first.notices ++ (next a).notices := by
  simp only [andThen, show first.outcome = .ok a from yields]

/-- What was reported stays reported. -/
theorem notices_subset_andThen (first : Traced α) (next : α → Traced β) :
    first.notices ⊆ (first.andThen next).notices := by
  unfold andThen
  split
  · exact List.subset_append_left _ _
  · exact List.Subset.refl _

/-- What a later step reports is reported by the whole. -/
theorem Yields.notices_subset_andThen {first : Traced α} {a : α} (yields : first.Yields a)
    (next : α → Traced β) : (next a).notices ⊆ (first.andThen next).notices := by
  rw [yields.notices_andThen]
  exact List.subset_append_right _ _

/-- A computation ends with one answer at most. -/
theorem Yields.unique {computation : Traced α} {a b : α} (first : computation.Yields a)
    (second : computation.Yields b) : a = b :=
  Except.ok.inj (first.symm.trans second)

/-- A computation in steps ends as its last step does, or with a fault of an earlier one. -/
theorem endsAs_andThen {first : Traced α} {next : α → Traced β} {between : α → Prop}
    {answers : β → Prop} {faults : Fault → Prop} (before : EndsAs between faults first.outcome)
    (after : ∀ a, first.Yields a → between a → EndsAs answers faults (next a).outcome) :
    EndsAs answers faults (first.andThen next).outcome := by
  obtain ⟨notices, outcome⟩ := first
  cases outcome with
  | ok a => exact after a rfl before
  | error fault => exact before

/-- The outcome of a computation in steps does not depend on the notices of the steps. -/
theorem outcome_andThen (first : Traced α) (next : α → Traced β) :
    (first.andThen next).outcome = first.outcome >>= fun a => (next a).outcome := by
  unfold andThen
  split
  · next a answered => rw [answered]; rfl
  · next fault failed => rw [failed]; rfl

/-- After a step with an answer a computation ends as the rest does. -/
theorem Yields.outcome_andThen {first : Traced α} {a : α} (yields : first.Yields a)
    (next : α → Traced β) : (first.andThen next).outcome = (next a).outcome := by
  simp only [andThen, show first.outcome = .ok a from yields]

/-- Whenever one computation ends with an answer, so does another, and the answers are related. -/
def Tracks {γ : Type} (related : α → γ → Prop) (first : Traced α) (second : Traced γ) : Prop :=
  ∀ ⦃a⦄, first.Yields a → ∃ c, second.Yields c ∧ related a c

namespace Tracks

variable {γ δ : Type} {related : α → γ → Prop} {relatedLater : β → δ → Prop}

/-- Related answers track each other. -/
theorem answer {a : α} {c : γ} (holds : related a c) :
    (Traced.answer a).Tracks related (Traced.answer c) := by
  intro other same
  rw [yields_answer] at same
  exact ⟨c, yields_answer.mpr rfl, same ▸ holds⟩

/-- A computation tracks itself. -/
theorem refl (computation : Traced α) : computation.Tracks Eq computation :=
  fun a yields => ⟨a, yields, rfl⟩

/-- Steps that track each other make computations that do. -/
theorem andThen {first : Traced α} {second : Traced γ} {next : α → Traced β}
    {nextSecond : γ → Traced δ} (before : first.Tracks related second)
    (after : ∀ a c, first.Yields a → related a c →
      (next a).Tracks relatedLater (nextSecond c)) :
    (first.andThen next).Tracks relatedLater (second.andThen nextSecond) := by
  intro b run
  obtain ⟨a, yields, run⟩ := yields_andThen.mp run
  obtain ⟨c, yieldsSecond, holds⟩ := before yields
  obtain ⟨d, yieldsLast, holdsLast⟩ := after a c yields holds run
  exact ⟨d, yields_andThen.mpr ⟨c, yieldsSecond, yieldsLast⟩, holdsLast⟩

end Tracks

end Traced

end OpenApi
