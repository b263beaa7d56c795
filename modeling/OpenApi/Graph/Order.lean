/-!
# Dependency order

The nodes of a graph arranged so that what a node depends on stands before it.  The arrangement comes
from a depth-first walk that places a node after everything reached from it; a node under way is not
entered again, so on a cycle the node entered first is placed last.
-/

namespace OpenApi.Graph

variable {α : Type} [DecidableEq α]

/-- How far a walk has come: the nodes it entered, and those it placed, in order. -/
structure Walk (α : Type) where
  entered : List α
  placed : List α

/-- Enter a node unless that was done before, walk over what it depends on, and place it.  The fuel
bounds the depth. -/
def Walk.visit (next : α → List α) : Nat → Walk α → α → Walk α
  | 0, walk, _ => walk
  | fuel + 1, walk, node =>
    if node ∈ walk.entered then walk
    else
      let inner := (next node).foldl (visit next fuel) ⟨node :: walk.entered, walk.placed⟩
      ⟨inner.entered, inner.placed ++ [node]⟩

/-- The nodes in dependency order.  Every step down enters another node, so the number of nodes
bounds the depth. -/
def arranged (nodes : List α) (next : α → List α) : List α :=
  (nodes.foldl (Walk.visit next (nodes.length + 1)) ⟨[], []⟩).placed

end OpenApi.Graph
