/-!
# Reachability

The nodes of a finite graph that can be reached from given ones.  The search keeps the nodes still to
be looked at; each step either drops one that was seen or is no node of the graph, or sees a new one,
so it ends on every graph.
-/

namespace OpenApi.Graph

variable {α : Type} [DecidableEq α]

/-- How many nodes were not seen yet. -/
def unseen (nodes seen : List α) : Nat := (nodes.filter (· ∉ seen)).length

/-- Seeing more nodes leaves no more of them unseen. -/
theorem unseen_le_of_subset (nodes : List α) {seen more : List α} (grows : seen ⊆ more) :
    unseen nodes more ≤ unseen nodes seen := by
  unfold unseen
  rw [← List.countP_eq_length_filter, ← List.countP_eq_length_filter]
  refine List.countP_mono_left fun node _ fresh => ?_
  simp only [decide_eq_true_eq] at fresh ⊢
  exact fun old => fresh (grows old)

/-- Seeing a node for the first time leaves fewer unseen ones. -/
theorem unseen_lt {nodes seen more : List α} {node : α} (grows : seen ⊆ more) (held : node ∈ nodes)
    (fresh : node ∉ seen) (now : node ∈ more) : unseen nodes more < unseen nodes seen := by
  obtain ⟨before, after, rfl⟩ := List.append_of_mem held
  have left := unseen_le_of_subset before grows
  have right := unseen_le_of_subset after grows
  unfold unseen at left right ⊢
  rw [List.filter_append, List.filter_append, List.filter_cons_of_neg (by simpa using now),
    List.filter_cons_of_pos (by simpa using fresh), List.length_append, List.length_append,
    List.length_cons]
  omega

theorem unseen_cons_lt {nodes seen : List α} {node : α} (held : node ∈ nodes)
    (fresh : node ∉ seen) : unseen nodes (node :: seen) < unseen nodes seen :=
  unseen_lt (List.subset_cons_self node seen) held fresh List.mem_cons_self

/-- The nodes seen once everything pending has been followed. -/
def follow (nodes : List α) (next : α → List α) (pending seen : List α) : List α :=
  match pending with
  | [] => seen
  | node :: rest =>
    if _fresh : node ∈ nodes ∧ node ∉ seen then follow nodes next (next node ++ rest) (node :: seen)
    else follow nodes next rest seen
termination_by (unseen nodes seen, pending.length)
decreasing_by
  · exact Prod.Lex.left _ _ (unseen_cons_lt _fresh.1 _fresh.2)
  · exact Prod.Lex.right _ (by simp)

/-- The nodes of a graph that can be reached from the seeds by passing over its nodes only. -/
def reached (nodes : List α) (next : α → List α) (seeds : List α) : List α :=
  follow nodes next seeds []

end OpenApi.Graph
