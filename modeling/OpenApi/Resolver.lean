import OpenApi.Graph.Reach
import OpenApi.NameSet
import OpenApi.Value.Key

/-!
# Following names

The work list that leads from some names of a map of schemas to all schemas that are needed with them.
Names wait in a queue, and the one that was put in last is looked at first.  A schema that is found puts
the names that it refers to into the queue, unless they were looked at or are known to wait.

A name that waits twice, because it was given twice, is no longer known to wait once it was taken out
once, so it may be put in again.  What keeps the work finite is that a name is looked at only once.
-/

namespace OpenApi

/-- How far the work has come. -/
structure Resolver where
  /-- The names that wait, the one put in last first. -/
  queue : List String
  /-- The names that are known to wait. -/
  queued : NameSet
  /-- The names that were looked at. -/
  processed : NameSet := ∅
  /-- The schemas that were found, in the order in which they were found. -/
  resolved : Mapping := []

namespace Resolver

/-- Before anything was looked at, the seeds wait. -/
def start (seeds : List String) : Resolver := { queue := seeds.reverse, queued := .ofList seeds }

/-- Let a name wait, unless it was looked at or is known to wait. -/
def push (state : Resolver) (name : String) : Resolver :=
  if name ∉ state.processed ∧ name ∉ state.queued then
    { state with queue := name :: state.queue, queued := state.queued.insert name }
  else state

/-- Look at a name.  If it is the name of a schema, the schema is found and the names wait that it
refers to; else the name is dropped. -/
def process (scan : Value → List String) (schemas : Mapping) (state : Resolver) (name : String) :
    Resolver :=
  let state := { state with processed := state.processed.insert name }
  match schemas.find? name with
  | none => state
  | some schema =>
    let found := { state with resolved := state.resolved.put (.text name) schema }
    (scan schema).foldl push found

/-- Take the name out of the queue that was put in last, and look at it unless that was done. -/
def turn (scan : Value → List String) (schemas : Mapping) (state : Resolver) (name : String)
    (rest : List String) : Resolver :=
  let taken := { state with queue := rest, queued := state.queued.erase name }
  if name ∈ state.processed then taken else process scan schemas taken name

/-- Letting names wait changes neither what was looked at nor what was found. -/
theorem foldl_push_fields (names : List String) (state : Resolver) :
    (names.foldl push state).processed = state.processed ∧
      (names.foldl push state).resolved = state.resolved := by
  induction names generalizing state with
  | nil => exact ⟨rfl, rfl⟩
  | cons name rest ih =>
    obtain ⟨processed, resolved⟩ := ih (state.push name)
    have kept : (state.push name).processed = state.processed ∧
        (state.push name).resolved = state.resolved := by
      unfold push
      split <;> exact ⟨rfl, rfl⟩
    exact ⟨processed.trans kept.1, resolved.trans kept.2⟩

/-- How many schemas were not looked at yet, and how many names wait. -/
def work (schemas : Mapping) (state : Resolver) : Nat × Nat :=
  (Graph.unseen schemas.names state.processed.toList, state.queue.length)

/-- Looking at a name that was not looked at leaves less work than taking it out of the queue. -/
theorem work_process_lt (scan : Value → List String) (schemas : Mapping) (state : Resolver)
    {name : String} (fresh : name ∉ state.processed) {waiting : Nat}
    (shorter : state.queue.length < waiting) :
    Prod.Lex (· < ·) (· < ·) (work schemas (process scan schemas state name))
      (Graph.unseen schemas.names state.processed.toList, waiting) := by
  have grows : state.processed.toList ⊆ (state.processed.insert name).toList :=
    fun _ member => NameSet.mem_insert.mpr (.inl member)
  unfold process work
  cases found : schemas.find? name with
  | none =>
    rcases Nat.lt_or_eq_of_le (Graph.unseen_le_of_subset schemas.names grows) with fewer | same
    · exact Prod.Lex.left _ _ fewer
    · rw [Prod.lex_def]
      exact .inr ⟨same, shorter⟩
  | some schema =>
    refine Prod.Lex.left _ _ ?_
    rw [(foldl_push_fields _ _).1]
    exact Graph.unseen_lt grows (Mapping.mem_names_of_find? found) fresh
      (NameSet.mem_insert.mpr (.inr rfl))

/-- A turn leaves less work: a schema is looked at for the first time, or one name less waits. -/
theorem work_turn_lt (scan : Value → List String) (schemas : Mapping) {state : Resolver}
    {name : String} {rest : List String} (waiting : state.queue = name :: rest) :
    Prod.Lex (· < ·) (· < ·) (work schemas (state.turn scan schemas name rest))
      (work schemas state) := by
  have shorter : rest.length < state.queue.length := by simp [waiting]
  let taken := { state with queue := rest, queued := state.queued.erase name }
  unfold turn
  split
  · exact Prod.Lex.right _ shorter
  · next fresh => exact work_process_lt scan schemas taken fresh shorter

/-- Look at names until none waits. -/
def run (scan : Value → List String) (schemas : Mapping) (state : Resolver) : Resolver :=
  match _waiting : state.queue with
  | [] => state
  | name :: rest => run scan schemas (state.turn scan schemas name rest)
termination_by state.work schemas
decreasing_by exact work_turn_lt scan schemas _waiting

end Resolver

end OpenApi
