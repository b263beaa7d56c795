import Mathlib.Logic.Relation
import Mathlib.Tactic.ByContra
import OpenApi.Graph.Reach

/-!
# What a search reaches

A search over a finite graph ends with the nodes that a chain of arrows leads to from a seed, and
with no others.  While it runs, every node that an arrow leads to from a seen node is itself seen
or still pending; once nothing is pending, the seen nodes are closed under the arrows.
-/

namespace OpenApi.Graph

open Relation

variable {α : Type}

/-- An arrow between two nodes of a graph. -/
def Arrow (nodes : List α) (next : α → List α) (source target : α) : Prop :=
  source ∈ nodes ∧ target ∈ nodes ∧ target ∈ next source

variable [DecidableEq α] {nodes : List α} {next : α → List α}

/-- What was seen stays seen. -/
theorem subset_follow (pending seen : List α) : seen ⊆ follow nodes next pending seen := by
  fun_induction follow nodes next pending seen with
  | case1 => exact fun _ member => member
  | case2 seen node rest fresh ih => exact fun _ member => ih (List.mem_cons_of_mem node member)
  | case3 seen node rest stale ih => exact ih

/-- A node of the graph that is pending is seen in the end. -/
theorem mem_follow_of_pending {pending seen : List α} {node : α} (waiting : node ∈ pending)
    (held : node ∈ nodes) : node ∈ follow nodes next pending seen := by
  fun_induction follow nodes next pending seen with
  | case1 => exact absurd waiting List.not_mem_nil
  | case2 seen first rest fresh ih =>
      rcases List.mem_cons.mp waiting with rfl | later
      · exact subset_follow _ _ List.mem_cons_self
      · exact ih (List.mem_append_right _ later)
  | case3 seen first rest stale ih =>
      rcases List.mem_cons.mp waiting with rfl | later
      · have old : node ∈ seen := by
          by_contra missing
          exact stale ⟨held, missing⟩
        exact subset_follow _ _ old
      · exact ih later

/-- If every arrow from a seen node leads to a node that is seen or pending, then in the end every
arrow from a seen node leads to a seen one. -/
theorem follow_closed {pending seen : List α}
    (covered : ∀ source ∈ seen, ∀ target, Arrow nodes next source target →
      target ∈ seen ∨ target ∈ pending)
    {source target : α} (reached : source ∈ follow nodes next pending seen)
    (arrow : Arrow nodes next source target) : target ∈ follow nodes next pending seen := by
  fun_induction follow nodes next pending seen with
  | case1 seen =>
      exact (covered source reached target arrow).elim id fun none => absurd none List.not_mem_nil
  | case2 seen first rest fresh ih =>
      refine ih (fun old member other leads => ?_) reached
      rcases List.mem_cons.mp member with rfl | before
      · exact .inr (List.mem_append_left _ leads.2.2)
      · rcases covered old before other leads with seenAlready | waiting
        · exact .inl (List.mem_cons_of_mem _ seenAlready)
        · rcases List.mem_cons.mp waiting with rfl | later
          · exact .inl List.mem_cons_self
          · exact .inr (List.mem_append_right _ later)
  | case3 seen first rest stale ih =>
      refine ih (fun old member other leads => ?_) reached
      rcases covered old member other leads with seenAlready | waiting
      · exact .inl seenAlready
      · rcases List.mem_cons.mp waiting with rfl | later
        · have known : other ∈ seen := by
            by_contra missing
            exact stale ⟨leads.2.1, missing⟩
          exact .inl known
        · exact .inr later

/-- Whatever is seen in the end was seen before or is at the end of a chain from a pending node. -/
theorem chain_of_mem_follow {pending seen : List α} {node : α}
    (reached : node ∈ follow nodes next pending seen) :
    node ∈ seen ∨
      ∃ start ∈ pending, start ∈ nodes ∧ ReflTransGen (Arrow nodes next) start node := by
  fun_induction follow nodes next pending seen with
  | case1 => exact .inl reached
  | case2 seen first rest fresh ih =>
      rcases ih reached with known | ⟨start, waiting, held, chain⟩
      · rcases List.mem_cons.mp known with rfl | before
        · exact .inr ⟨node, List.mem_cons_self, fresh.1, .refl⟩
        · exact .inl before
      · rcases List.mem_append.mp waiting with follows | later
        · exact .inr ⟨first, List.mem_cons_self, fresh.1, .head ⟨fresh.1, held, follows⟩ chain⟩
        · exact .inr ⟨start, List.mem_cons_of_mem _ later, held, chain⟩
  | case3 seen first rest stale ih =>
      rcases ih reached with known | ⟨start, waiting, held, chain⟩
      · exact .inl known
      · exact .inr ⟨start, List.mem_cons_of_mem _ waiting, held, chain⟩

/-- A search reaches the nodes at the ends of chains of arrows from seeds of the graph. -/
theorem mem_reached_iff {seeds : List α} {node : α} :
    node ∈ reached nodes next seeds ↔
      ∃ seed ∈ seeds, seed ∈ nodes ∧ ReflTransGen (Arrow nodes next) seed node := by
  constructor
  · intro found
    exact (chain_of_mem_follow found).resolve_left List.not_mem_nil
  · rintro ⟨seed, given, held, chain⟩
    induction chain with
    | refl => exact mem_follow_of_pending given held
    | tail _ arrow ih =>
        exact follow_closed (fun _ none => absurd none List.not_mem_nil) ih arrow

end OpenApi.Graph
