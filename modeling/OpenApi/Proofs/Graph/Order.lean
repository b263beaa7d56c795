import OpenApi.Graph.Order
import OpenApi.Proofs.Graph.Reach

/-!
# What an arrangement guarantees

A depth-first walk places every node of a finite graph once.  It cuts the arrows that lead to a
node under way, so on a cycle no order can be promised.  What does hold rests on one fact about the
moment a node is placed: whatever the nodes placed so far lead to is placed or under way, and what
is under way leads to the node placed (`Settled`).  Hence the nodes beyond an arrow that does not
lead back stand before its source (`sublist_of_settled`), and a node beyond a cycle stands before
some node of the cycle (`exists_sublist_of_settled`).
-/

namespace OpenApi.Graph

open Relation

variable {α : Type}

/-- A chain of arrows, perhaps of none. -/
def Leads (next : α → List α) : α → α → Prop :=
  ReflTransGen fun source target => target ∈ next source

/-- The nodes placed before a node, and the node itself, have no arrows but to nodes placed before
it and to nodes that lead to it. -/
def Settled (next : α → List α) (placed : List α) : Prop :=
  ∀ before node after, placed = before ++ node :: after →
    ∀ source ∈ before ++ [node], ∀ target ∈ next source, target ∈ before ∨ Leads next target node

/-- A walk that places one more node stays settled if everything its placed nodes have arrows to is
placed or leads to that node. -/
theorem Settled.concat {next : α → List α} {placed : List α} {node : α}
    (settled : Settled next placed)
    (covered : ∀ source ∈ placed ++ [node], ∀ target ∈ next source,
      target ∈ placed ∨ Leads next target node) : Settled next (placed ++ [node]) := by
  intro before last after split
  rcases List.eq_nil_or_concat after with rfl | ⟨earlier, final, rfl⟩
  · obtain ⟨rfl, rfl⟩ : placed = before ∧ node = last := by simpa using List.append_inj' split rfl
    exact covered
  · have regrouped : placed ++ [node] = (before ++ last :: earlier) ++ [final] := by
      simpa using split
    exact settled before last earlier (List.append_inj' regrouped rfl).1

/-- Beyond an arrow that does not lead back, everything stands before the source of the arrow. -/
theorem sublist_of_settled {next : α → List α} {placed : List α} {source first target : α}
    (settled : Settled next placed) (member : source ∈ placed) (arrow : first ∈ next source)
    (chain : Leads next first target) (onward : ¬ Leads next first source) :
    [target, source].Sublist placed := by
  obtain ⟨before, after, rfl⟩ := List.append_of_mem member
  have stands := settled before source after rfl
  have ahead : target ∈ before := by
    induction chain with
    | refl => exact (stands source (by simp) first arrow).resolve_right onward
    | @tail middle last earlier step ih =>
        refine (stands middle (List.mem_append_left _ ih) last step).resolve_right fun back => ?_
        exact onward ((earlier.tail step).trans back)
  exact (List.singleton_sublist.mpr ahead).append (List.singleton_sublist.mpr List.mem_cons_self)

/-- A node that does not lead back stands before some node on a cycle with the source of the chain,
or before the source itself. -/
theorem exists_sublist_of_settled {next : α → List α} {placed : List α} {source target : α}
    (settled : Settled next placed) (member : ∀ node, ∀ other ∈ next node, node ∈ placed)
    (chain : Leads next source target) (onward : ¬ Leads next target source) :
    ∃ last, Leads next source last ∧ Leads next last source ∧ [target, last].Sublist placed := by
  induction chain using ReflTransGen.head_induction_on with
  | refl => exact absurd ReflTransGen.refl onward
  | @head source first arrow rest ih =>
      by_cases back : Leads next first source
      · obtain ⟨last, there, home, stands⟩ := ih fun returns => onward (returns.trans back)
        exact ⟨last, there.head arrow, home.trans back, stands⟩
      · have held := member source first arrow
        exact ⟨source, .refl, .refl, sublist_of_settled settled held arrow rest back⟩

/-- A walk between two steps: the nodes entered are those placed and those under way, which differ;
whatever the placed nodes have arrows to was entered; and the placed nodes are settled. -/
structure Walk.Sound (nodes : List α) (next : α → List α) (underway : List α) (walk : Walk α) :
    Prop where
  inside : ∀ node ∈ walk.entered, node ∈ nodes
  entered_iff : ∀ node, node ∈ walk.entered ↔ node ∈ walk.placed ∨ node ∈ underway
  apart : ∀ node ∈ underway, node ∉ walk.placed
  nodup : walk.placed.Nodup
  closed : ∀ source ∈ walk.placed, ∀ target ∈ next source, target ∈ walk.entered
  settled : Settled next walk.placed

namespace Walk

variable {nodes : List α} {next : α → List α} {underway : List α} {walk : Walk α} {node : α}

/-- A node entered for the first time is under way. -/
theorem Sound.enter (sound : walk.Sound nodes next underway) (held : node ∈ nodes)
    (fresh : node ∉ walk.entered) :
    Sound nodes next (node :: underway) ⟨node :: walk.entered, walk.placed⟩ where
  inside := by
    intro other member
    rcases List.mem_cons.mp member with rfl | before
    · exact held
    · exact sound.inside other before
  entered_iff other := by
    rw [List.mem_cons, List.mem_cons, sound.entered_iff other]
    exact or_left_comm
  apart := by
    intro other member
    rcases List.mem_cons.mp member with rfl | before
    · exact fun placed => fresh ((sound.entered_iff other).mpr (.inl placed))
    · exact sound.apart other before
  nodup := sound.nodup
  closed source placed target arrow :=
    List.mem_cons_of_mem _ (sound.closed source placed target arrow)
  settled := sound.settled

/-- A node under way is placed once everything it has an arrow to was entered.  What is then still
under way leads to it. -/
theorem Sound.place (sound : walk.Sound nodes next (node :: underway)) (apart : node ∉ underway)
    (leading : ∀ other ∈ underway, Leads next other node)
    (followed : ∀ target ∈ next node, target ∈ walk.entered) :
    Sound nodes next underway ⟨walk.entered, walk.placed ++ [node]⟩ where
  inside := sound.inside
  entered_iff other := by
    rw [sound.entered_iff other, List.mem_append, List.mem_singleton, List.mem_cons, or_assoc]
  apart := by
    intro other member placed
    rcases List.mem_append.mp placed with before | last
    · exact sound.apart other (List.mem_cons_of_mem _ member) before
    · exact apart (List.mem_singleton.mp last ▸ member)
  nodup := by
    refine List.nodup_append.mpr ⟨sound.nodup, by simp, ?_⟩
    rintro other placed last member rfl
    obtain rfl := List.mem_singleton.mp member
    exact sound.apart other List.mem_cons_self placed
  closed := by
    intro source placed target arrow
    rcases List.mem_append.mp placed with before | last
    · exact sound.closed source before target arrow
    · exact followed target (List.mem_singleton.mp last ▸ arrow)
  settled := by
    refine sound.settled.concat fun source placed target arrow => ?_
    have entered : target ∈ walk.entered := by
      rcases List.mem_append.mp placed with before | last
      · exact sound.closed source before target arrow
      · exact followed target (List.mem_singleton.mp last ▸ arrow)
    rcases (sound.entered_iff target).mp entered with already | way
    · exact .inl already
    · rcases List.mem_cons.mp way with rfl | later
      · exact .inr .refl
      · exact .inr (leading target later)

/-- What a part of a walk achieves: it stays sound, has entered the wanted nodes, and forgets none.
-/
structure Reaches (nodes : List α) (next : α → List α) (underway wanted : List α)
    (before after : Walk α) : Prop where
  sound : after.Sound nodes next underway
  entered : ∀ node ∈ wanted, node ∈ after.entered
  grows : before.entered ⊆ after.entered

/-- Visiting nodes one after the other enters all of them, if visiting one does. -/
theorem reaches_foldl (visit : Walk α → α → Walk α) (wanted : List α)
    (each : ∀ between : Walk α, between.Sound nodes next underway → walk.entered ⊆ between.entered →
      ∀ target ∈ wanted, Reaches nodes next underway [target] between (visit between target))
    (sound : walk.Sound nodes next underway) :
    Reaches nodes next underway wanted walk (wanted.foldl visit walk) := by
  suffices general : ∀ (rest : List α) (between : Walk α), rest ⊆ wanted →
      between.Sound nodes next underway → walk.entered ⊆ between.entered →
      Reaches nodes next underway rest between (rest.foldl visit between) from
    general wanted walk (fun _ member => member) sound fun _ member => member
  intro rest
  induction rest with
  | nil => exact fun between _ sound _ => ⟨sound, by simp, fun _ member => member⟩
  | cons target rest ih =>
      intro between within soundBetween kept
      have one := each between soundBetween kept target (within List.mem_cons_self)
      have others := ih (visit between target)
        (fun _ member => within (List.mem_cons_of_mem _ member)) one.sound fun _ member => one.grows (kept member)
      refine ⟨others.sound, ?_, fun _ member => others.grows (one.grows member)⟩
      intro node member
      rcases List.mem_cons.mp member with rfl | later
      · exact others.grows (one.entered node List.mem_cons_self)
      · exact others.entered node later

variable [DecidableEq α]

/-- Visiting a node enters it, if all that is under way leads to it.  The fuel suffices as long as
it exceeds the number of nodes not yet entered, since every step down enters another one. -/
theorem visit_reaches (inside : ∀ source ∈ nodes, ∀ target ∈ next source, target ∈ nodes)
    {fuel : Nat} (enough : unseen nodes walk.entered < fuel)
    (sound : walk.Sound nodes next underway) (held : node ∈ nodes)
    (leading : ∀ other ∈ underway, Leads next other node) :
    Reaches nodes next underway [node] walk (visit next fuel walk node) := by
  induction fuel generalizing walk node underway with
  | zero => exact absurd enough (Nat.not_lt_zero _)
  | succ fuel ih =>
      unfold visit
      by_cases old : node ∈ walk.entered
      · rw [if_pos old]
        exact ⟨sound, by simpa using old, fun _ member => member⟩
      · rw [if_neg old]
        have started := sound.enter held old
        have apart : node ∉ underway := fun way => old ((sound.entered_iff node).mpr (.inr way))
        have inner := reaches_foldl (visit next fuel) (next node)
          (fun between soundBetween kept target arrow => by
            have fewer : unseen nodes between.entered < fuel :=
              calc unseen nodes between.entered
                  ≤ unseen nodes (node :: walk.entered) := unseen_le_of_subset _ kept
                _ < unseen nodes walk.entered := unseen_cons_lt held old
                _ ≤ fuel := Nat.lt_succ_iff.mp enough
            refine ih fewer soundBetween (inside node held target arrow) fun other way => ?_
            rcases List.mem_cons.mp way with rfl | before
            · exact .single arrow
            · exact (leading other before).tail arrow)
          started
        refine ⟨inner.sound.place apart leading inner.entered, ?_, ?_⟩
        · intro other member
          exact List.mem_singleton.mp member ▸ inner.grows List.mem_cons_self
        · exact fun _ member => inner.grows (List.mem_cons_of_mem _ member)

end Walk

variable [DecidableEq α] {nodes : List α} {next : α → List α}

/-- The walk over all nodes ends with nothing under way and every node entered. -/
private theorem reaches_all (inside : ∀ source ∈ nodes, ∀ target ∈ next source, target ∈ nodes) :
    Walk.Reaches nodes next [] nodes ⟨[], []⟩
      (nodes.foldl (Walk.visit next (nodes.length + 1)) ⟨[], []⟩) := by
  have start : Walk.Sound nodes next [] (⟨[], []⟩ : Walk α) :=
    ⟨by simp, by simp, by simp, List.nodup_nil, by simp, by
      intro before node after split
      simp at split⟩
  refine Walk.reaches_foldl _ nodes (fun between sound _ target member => ?_) start
  have bound : unseen nodes between.entered < nodes.length + 1 :=
    Nat.lt_succ_iff.mpr (List.length_filter_le _ _)
  exact Walk.visit_reaches inside bound sound member fun other none => absurd none List.not_mem_nil

/-- No node is placed twice. -/
theorem nodup_arranged (inside : ∀ source ∈ nodes, ∀ target ∈ next source, target ∈ nodes) :
    (arranged nodes next).Nodup :=
  (reaches_all inside).sound.nodup

/-- All nodes are placed and nothing else. -/
theorem mem_arranged_iff (inside : ∀ source ∈ nodes, ∀ target ∈ next source, target ∈ nodes)
    {node : α} : node ∈ arranged nodes next ↔ node ∈ nodes := by
  have walked := reaches_all inside
  constructor
  · intro placed
    exact walked.sound.inside node ((walked.sound.entered_iff node).mpr (.inl placed))
  · intro member
    exact ((walked.sound.entered_iff node).mp (walked.entered node member)).resolve_right
      List.not_mem_nil

/-- An arrangement is settled. -/
theorem settled_arranged (inside : ∀ source ∈ nodes, ∀ target ∈ next source, target ∈ nodes) :
    Settled next (arranged nodes next) :=
  (reaches_all inside).sound.settled

end OpenApi.Graph
