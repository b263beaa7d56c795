import Mathlib.Logic.Relation
import OpenApi.Proofs.Keyed
import OpenApi.Resolver

/-!
# What following names finds

Following names through a map of schemas ends with no name waiting, and then exactly those names were
looked at that are called for: the seeds, and what the schemas refer to whose names are called for.

A name is *met* if it was looked at or waits.  The work may put a name in that waits already, and it
may forget that a name waits, but a name that was met stays met, and whatever a schema refers to that
was found is met.  Once no name waits, everything met was looked at.
-/

namespace OpenApi.Resolver

variable {scan : Value → List String} {schemas : Mapping} {seeds : List String} {state : Resolver}
  {name : String} {schema : Value}

/-- A name that was looked at or waits. -/
def Met (state : Resolver) (name : String) : Prop :=
  name ∈ state.processed ∨ name ∈ state.queue

/-- A name that is called for: it is a seed, or a schema refers to it whose name is called for. -/
inductive Called (scan : Value → List String) (schemas : Mapping) (seeds : List String) :
    String → Prop
  | seed {name : String} (given : name ∈ seeds) : Called scan schemas seeds name
  | referred {source name : String} {schema : Value} (called : Called scan schemas seeds source)
      (found : schemas.find? source = some schema) (refers : name ∈ scan schema) :
      Called scan schemas seeds name

/-- What holds of the work from its start to its end. -/
structure Keeps (scan : Value → List String) (schemas : Mapping) (seeds : List String)
    (state : Resolver) : Prop where
  /-- What is known to wait does wait. -/
  waits : ∀ name ∈ state.queued, name ∈ state.queue
  /-- Only what is called for is met. -/
  called : ∀ name, state.Met name → Called scan schemas seeds name
  /-- The seeds are met. -/
  seeded : ∀ name ∈ seeds, state.Met name
  /-- What a schema refers to that was looked at is met. -/
  followed : ∀ source ∈ state.processed, ∀ schema, schemas.find? source = some schema →
    ∀ name ∈ scan schema, state.Met name
  /-- A schema that was looked at is found. -/
  found : ∀ name ∈ state.processed, ∀ schema, schemas.find? name = some schema →
    state.resolved.find? name = some schema
  /-- What is found is a schema of the map that was looked at. -/
  held : ∀ entry ∈ state.resolved, ∃ name ∈ state.processed,
    entry.1 = .text name ∧ schemas.find? name = some entry.2
  /-- No schema is found twice. -/
  once : (state.resolved.map Prod.fst).Nodup

/-! ## Letting names wait -/

/-- A name that is let wait is met, and what was met stays met. -/
theorem met_push_iff (waits : ∀ name ∈ state.queued, name ∈ state.queue) {other : String} :
    (state.push name).Met other ↔ state.Met other ∨ other = name := by
  unfold push
  split
  · simp only [Met, List.mem_cons]
    rw [or_comm (a := other = name), or_assoc]
  · next known =>
      refine ⟨.inl, fun either => either.elim id ?_⟩
      rintro rfl
      rcases Decidable.not_and_iff_not_or_not.mp known with old | waiting
      · exact .inl (Decidable.not_not.mp old)
      · exact .inr (waits _ (Decidable.not_not.mp waiting))

/-- What is known to wait does wait after another name was let wait. -/
theorem waits_push (name : String) (waits : ∀ name ∈ state.queued, name ∈ state.queue) :
    ∀ other ∈ (state.push name).queued, other ∈ (state.push name).queue := by
  unfold push
  split
  · intro other known
    rcases NameSet.mem_insert.mp known with before | rfl
    · exact List.mem_cons_of_mem _ (waits other before)
    · exact List.mem_cons_self
  · exact waits

/-- Letting names wait meets these names and keeps what is known to wait waiting. -/
theorem foldl_push (names : List String) (waits : ∀ name ∈ state.queued, name ∈ state.queue) :
    (∀ name ∈ (names.foldl push state).queued, name ∈ (names.foldl push state).queue) ∧
      ∀ name, (names.foldl push state).Met name ↔ state.Met name ∨ name ∈ names := by
  induction names generalizing state with
  | nil => simpa using waits
  | cons first rest ih =>
      obtain ⟨waitsAfter, met⟩ := ih (waits_push first waits)
      refine ⟨waitsAfter, fun name => ?_⟩
      rw [List.foldl_cons, met, met_push_iff waits, List.mem_cons, or_assoc]

/-! ## One turn -/

/-- At the start exactly the seeds are met, and they are known to wait. -/
theorem keeps_start (scan : Value → List String) (schemas : Mapping) (seeds : List String) :
    Keeps scan schemas seeds (start seeds) where
  waits := by simp [start]
  called := by simpa [start, Met] using fun name => Called.seed
  seeded := by simp [start, Met]
  followed := by simp [start]
  found := by simp [start]
  held := by simp [start]
  once := by simp [start]

/-- Nothing was found under a name that was not looked at. -/
theorem Keeps.not_mem_keys (keeps : Keeps scan schemas seeds state)
    (fresh : name ∉ state.processed) : Scalar.text name ∉ state.resolved.map Prod.fst := by
  intro present
  obtain ⟨entry, member, key⟩ := List.mem_map.mp present
  obtain ⟨source, looked, same, -⟩ := keeps.held entry member
  obtain rfl : source = name := Scalar.text.inj (same.symm.trans key)
  exact fresh looked

section Turn

variable {rest : List String} (keeps : Keeps scan schemas seeds state)
  (waiting : state.queue = name :: rest)

include waiting in
/-- A name that is taken out of the queue and counts as looked at is still met, and so is all else
that was met. -/
theorem met_taken_iff {other : String} :
    other ∈ state.processed.insert name ∨ other ∈ rest ↔ state.Met other := by
  rw [NameSet.mem_insert, Met, waiting, List.mem_cons, or_assoc]

include keeps waiting

/-- Of the names that are known to wait only the one that is taken out leaves the queue. -/
theorem Keeps.waits_taken : ∀ other ∈ state.queued.erase name, other ∈ rest := by
  intro other known
  obtain ⟨apart, before⟩ := NameSet.mem_erase.mp known
  have either := keeps.waits other before
  rw [waiting] at either
  exact (List.mem_cons.mp either).resolve_left apart

/-- Taking out a name keeps what holds of the work if there is nothing to find under the name that
was not found and followed already. -/
theorem Keeps.skip (known : ∀ schema, schemas.find? name = some schema →
    state.resolved.find? name = some schema ∧ ∀ other ∈ scan schema, state.Met other) :
    Keeps scan schemas seeds { state with
      queue := rest, queued := state.queued.erase name, processed := state.processed.insert name }
    where
  waits := keeps.waits_taken waiting
  called := fun other met => keeps.called other ((met_taken_iff waiting).mp met)
  seeded := fun seed given => (met_taken_iff waiting).mpr (keeps.seeded seed given)
  followed := by
    intro source processed schema found other refers
    refine (met_taken_iff waiting).mpr ?_
    rcases NameSet.mem_insert.mp processed with before | rfl
    · exact keeps.followed source before schema found other refers
    · exact (known schema found).2 other refers
  found := by
    intro source processed schema found
    rcases NameSet.mem_insert.mp processed with before | rfl
    · exact keeps.found source before schema found
    · exact (known schema found).1
  held := by
    intro entry member
    obtain ⟨source, processed, key, found⟩ := keeps.held entry member
    exact ⟨source, NameSet.mem_insert.mpr (.inl processed), key, found⟩
  once := keeps.once

/-- Finding a schema and letting the names wait that it refers to keeps what holds of the work. -/
theorem Keeps.follow (fresh : name ∉ state.processed) (found : schemas.find? name = some schema) :
    Keeps scan schemas seeds ((scan schema).foldl push
      { queue := rest
        queued := state.queued.erase name
        processed := state.processed.insert name
        resolved := state.resolved.put (.text name) schema }) := by
  generalize start : Resolver.mk _ _ _ _ = taken
  have takenWaits : ∀ other ∈ taken.queued, other ∈ taken.queue := by
    rw [← start]
    exact keeps.waits_taken waiting
  have takenMet (other : String) : taken.Met other ↔ state.Met other := by
    rw [← start]
    exact met_taken_iff waiting
  obtain ⟨waits, met⟩ := foldl_push (scan schema) takenWaits
  obtain ⟨processed, resolved⟩ := foldl_push_fields (scan schema) taken
  have isProcessed (other : String) : other ∈ ((scan schema).foldl push taken).processed ↔
      other ∈ state.processed ∨ other = name := by
    rw [processed, ← start]
    exact NameSet.mem_insert
  have isResolved : ((scan schema).foldl push taken).resolved =
      state.resolved.put (.text name) schema := by
    rw [resolved, ← start]
  have nameCalled : Called scan schemas seeds name :=
    keeps.called name (.inr (waiting ▸ List.mem_cons_self))
  refine ⟨waits, ?called, ?seeded, ?followed, ?found, ?held, ?once⟩
  case called =>
    intro other isMet
    rcases (met other).mp isMet with before | refers
    · exact keeps.called other ((takenMet other).mp before)
    · exact .referred nameCalled found refers
  case seeded =>
    exact fun seed given => (met seed).mpr (.inl ((takenMet seed).mpr (keeps.seeded seed given)))
  case followed =>
    intro source looked raw held other refers
    rw [met, takenMet]
    rcases (isProcessed source).mp looked with before | rfl
    · exact .inl (keeps.followed source before raw held other refers)
    · obtain rfl := Option.some.inj (found.symm.trans held)
      exact .inr refers
  case found =>
    intro source looked raw held
    rw [isResolved, Mapping.find?]
    by_cases same : source = name
    · subst same
      rw [Mapping.lookup_put, ← held, found]
    · rw [Mapping.lookup_put_of_ne (by simpa using same)]
      exact keeps.found source (((isProcessed source).mp looked).resolve_right same) raw held
  case held =>
    intro entry member
    rw [isResolved] at member
    rcases Mapping.mem_put member with before | rfl
    · obtain ⟨source, looked, key, held⟩ := keeps.held entry before
      exact ⟨source, (isProcessed source).mpr (.inl looked), key, held⟩
    · exact ⟨name, (isProcessed name).mpr (.inr rfl), rfl, found⟩
  case once =>
    rw [isResolved]
    exact Mapping.nodup_keys_put (keeps.not_mem_keys fresh) keeps.once

/-- A turn keeps what holds of the work. -/
theorem Keeps.turn : Keeps scan schemas seeds (state.turn scan schemas name rest) := by
  unfold Resolver.turn
  by_cases old : name ∈ state.processed
  · rw [if_pos old]
    have same : state.processed.insert name = state.processed := by
      rw [NameSet.insert, dif_pos (NameSet.mem_toList.mpr old)]
    simpa only [same] using keeps.skip waiting fun schema found =>
      ⟨keeps.found name old schema found, keeps.followed name old schema found⟩
  · rw [if_neg old, process]
    cases found : schemas.find? name with
    | none => exact keeps.skip waiting fun schema other => by simp [found] at other
    | some schema => exact keeps.follow waiting old found

end Turn

/-! ## The whole run -/

/-- The work goes on by a turn: a name waits, and it is taken out of the queue. -/
def Turns (scan : Value → List String) (schemas : Mapping) (before after : Resolver) : Prop :=
  ∃ name rest, before.queue = name :: rest ∧ after = before.turn scan schemas name rest

/-- The work goes on by turns for a finite time only, from wherever it starts. -/
theorem wellFounded_turns (scan : Value → List String) (schemas : Mapping) :
    WellFounded fun after before => Turns scan schemas before after := by
  have lexicographic : WellFounded (Prod.Lex (α := Nat) (β := Nat) (· < ·) (· < ·)) :=
    (Prod.lex (Nat.lt_wfRel) (Nat.lt_wfRel)).wf
  refine Subrelation.wf ?_ (InvImage.wf (work schemas) lexicographic)
  rintro _ before ⟨name, rest, waiting, rfl⟩
  exact work_turn_lt scan schemas waiting

/-- A run is a sequence of turns. -/
theorem turns_run (scan : Value → List String) (schemas : Mapping) (state : Resolver) :
    Relation.ReflTransGen (Turns scan schemas) state (state.run scan schemas) := by
  fun_induction Resolver.run scan schemas state with
  | case1 => exact .refl
  | case2 state name rest waiting ih => exact .head ⟨name, rest, waiting, rfl⟩ ih

/-- What holds of the work holds of it at its end. -/
theorem Keeps.run (keeps : Keeps scan schemas seeds state) :
    Keeps scan schemas seeds (state.run scan schemas) := by
  fun_induction Resolver.run scan schemas state with
  | case1 => exact keeps
  | case2 state name rest waiting ih => exact ih (keeps.turn waiting)

/-- At the end no name waits. -/
theorem queue_run (state : Resolver) : (state.run scan schemas).queue = [] := by
  fun_induction Resolver.run scan schemas state with
  | case1 state none => exact none
  | case2 state name rest waiting ih => exact ih

/-- In the end exactly the names were looked at that are called for. -/
theorem mem_processed_run_iff :
    name ∈ ((start seeds).run scan schemas).processed ↔ Called scan schemas seeds name := by
  have keeps := (keeps_start scan schemas seeds).run
  have metOnly {other : String} : ((start seeds).run scan schemas).Met other →
      other ∈ ((start seeds).run scan schemas).processed := by
    intro met
    rw [Met, queue_run] at met
    exact met.resolve_right List.not_mem_nil
  constructor
  · exact fun looked => keeps.called name (.inl looked)
  · intro called
    induction called with
    | seed given => exact metOnly (keeps.seeded _ given)
    | referred _ found refers ih => exact metOnly (keeps.followed _ ih _ found _ refers)

/-- What is found are the schemas of the names that are called for. -/
theorem find?_run_eq_some_iff : ((start seeds).run scan schemas).resolved.find? name = some schema ↔
    Called scan schemas seeds name ∧ schemas.find? name = some schema := by
  have keeps := (keeps_start scan schemas seeds).run
  constructor
  · intro found
    obtain ⟨source, looked, key, held⟩ := keeps.held _ (Mapping.mem_of_lookup found)
    obtain rfl := Scalar.text.inj key
    exact ⟨mem_processed_run_iff.mp looked, held⟩
  · rintro ⟨called, held⟩
    exact keeps.found name (mem_processed_run_iff.mpr called) schema held

end OpenApi.Resolver
