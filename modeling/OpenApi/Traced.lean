import OpenApi.Fault
import OpenApi.Notice

/-!
# Traced computations

A result or a fault, together with the notices given on the way to it.  The notices given before a
fault are kept.
-/

namespace OpenApi

/-- The outcome of a computation and the notices that it gave, in order. -/
structure Traced (α : Type) where
  notices : List Notice
  outcome : Except Fault α

namespace Traced

variable {α β : Type}

/-- An answer without notices. -/
def answer (a : α) : Traced α := ⟨[], .ok a⟩

/-- A fault without notices. -/
def fail (fault : Fault) : Traced α := ⟨[], .error fault⟩

/-- A result that is known to come without notices. -/
def ofExcept (outcome : Except Fault α) : Traced α := ⟨[], outcome⟩

/-- Go on with the answer of a computation; a fault ends it. -/
def andThen (first : Traced α) (next : α → Traced β) : Traced β :=
  match first.outcome with
  | .ok a => ⟨first.notices ++ (next a).notices, (next a).outcome⟩
  | .error fault => ⟨first.notices, .error fault⟩

instance : Monad Traced where
  pure := answer
  bind := andThen

@[simp]
theorem answer_andThen (a : α) (next : α → Traced β) : (answer a).andThen next = next a := by
  simp [answer, andThen]

@[simp]
theorem andThen_answer (first : Traced α) : first.andThen answer = first := by
  obtain ⟨notices, outcome⟩ := first
  cases outcome <;> simp [andThen, answer]

/-- Steps may be grouped in either way. -/
theorem andThen_assoc {γ : Type} (first : Traced α) (next : α → Traced β) (last : β → Traced γ) :
    (first.andThen next).andThen last = first.andThen fun a => (next a).andThen last := by
  obtain ⟨notices, outcome⟩ := first
  cases outcome with
  | error fault => rfl
  | ok a =>
    simp only [andThen]
    split <;> simp [List.append_assoc]

end Traced

end OpenApi
