import Mathlib
import OpenApi.Document
import OpenApi.Proofs.Graph.Order
import OpenApi.Proofs.Mapping

/-!
# The order of schemas

The schemas of a map are arranged along their references to each other.  Every schema is arranged
once. Where a reference does not lead back, all that lies beyond it stands before the schema that
refers; a schema beyond a cycle is only sure to stand before some schema of the cycle.
-/

namespace OpenApi.Document

open Relation

/-- A schema of the map refers to another schema of the map. -/
def DependsOn (schemas : Mapping) (source target : Scalar) : Prop :=
  ∃ schema name, schemas.lookup source = some schema ∧ name ∈ Reference.ofValue schema ∧
    schemas.has name ∧ target = .text name ∧ target ≠ source

variable {schemas : Mapping}

/-- The other schemas of the map that a schema refers to, by code point. -/
private def successors (schemas : Mapping) (source : Scalar) : List Scalar :=
  (((dependencies schemas).lookup source).map fun names => names.sorted.map Scalar.text).getD []

/-- The arrows that the walk follows are the references to other schemas of the map. -/
private theorem mem_successors_iff {source target : Scalar} :
    target ∈ successors schemas source ↔ DependsOn schemas source target := by
  have found : (dependencies schemas).lookup source =
      (schemas.lookup source).map (dependenciesOf schemas source) :=
    Mapping.lookup_map_entry (dependenciesOf schemas) schemas source
  unfold successors DependsOn
  rw [found]
  cases schemas.lookup source with
  | none => simp
  | some schema =>
      simp only [Option.map_some, Option.getD_some, List.mem_map, NameSet.mem_sorted,
        dependenciesOf, NameSet.mem_ofList, List.mem_filter, Bool.and_eq_true, bne_iff_ne]
      constructor
      · rintro ⟨name, ⟨refers, held, other⟩, rfl⟩
        exact ⟨schema, name, rfl, refers, held, rfl, other⟩
      · rintro ⟨_, name, ⟨⟩, refers, held, rfl, other⟩
        exact ⟨name, ⟨refers, held, other⟩, rfl⟩

private theorem leads_successors :
    Graph.Leads (successors schemas) = ReflTransGen (DependsOn schemas) := by
  unfold Graph.Leads
  congr 1
  funext source target
  exact propext mem_successors_iff

private theorem successors_inside (source : Scalar) (_ : source ∈ schemas.map Prod.fst)
    (target : Scalar) (arrow : target ∈ successors schemas source) :
    target ∈ schemas.map Prod.fst := by
  obtain ⟨schema, name, found, refers, held, rfl, other⟩ := mem_successors_iff.mp arrow
  exact Mapping.mem_names_iff.mp (Mapping.has_iff_mem_names.mp held)

/-- No schema is arranged twice. -/
theorem nodup_order (schemas : Mapping) : (order schemas).Nodup :=
  Graph.nodup_arranged successors_inside

/-- All keys of the map are arranged and nothing else. -/
theorem mem_order_iff {key : Scalar} : key ∈ order schemas ↔ key ∈ schemas.map Prod.fst :=
  Graph.mem_arranged_iff successors_inside

/-- The arrangement is settled under the references between schemas. -/
private theorem settled_order : Graph.Settled (successors schemas) (order schemas) :=
  Graph.settled_arranged successors_inside

/-- A schema with a dependency is a schema of the map. -/
theorem DependsOn.mem_keys {source target : Scalar} (depends : DependsOn schemas source target) :
    source ∈ schemas.map Prod.fst := by
  obtain ⟨schema, name, found, rest⟩ := depends
  exact Mapping.lookup_isSome_iff.mp (Option.isSome_iff_exists.mpr ⟨schema, found⟩)

/-- A dependency that does not lead back, and all that it leads to, stands before the schema. -/
theorem sublist_order_of_dependsOn {source first target : Scalar}
    (depends : DependsOn schemas source first)
    (chain : ReflTransGen (DependsOn schemas) first target)
    (onward : ¬ ReflTransGen (DependsOn schemas) first source) :
    [target, source].Sublist (order schemas) := by
  rw [← leads_successors] at chain onward
  exact Graph.sublist_of_settled settled_order (mem_order_iff.mpr depends.mem_keys)
    (mem_successors_iff.mpr depends) chain onward

/-- **The order of schemas.** Every key of the map is arranged once.  Whatever a dependency of a
schema leads to stands before the schema, unless that dependency leads back to it.  In general,
what a schema leads to without being led back to stands before the schema or before one that lies
on a common cycle with it. -/
theorem order_respects_dependencies (schemas : Mapping) :
    (order schemas).Nodup ∧
    (∀ key, key ∈ order schemas ↔ key ∈ schemas.map Prod.fst) ∧
    (∀ source first target, DependsOn schemas source first →
      ReflTransGen (DependsOn schemas) first target →
      ¬ ReflTransGen (DependsOn schemas) first source →
      [target, source].Sublist (order schemas)) ∧
    (∀ source target, ReflTransGen (DependsOn schemas) source target →
      ¬ ReflTransGen (DependsOn schemas) target source →
      ∃ last, ReflTransGen (DependsOn schemas) source last ∧
        ReflTransGen (DependsOn schemas) last source ∧
        [target, last].Sublist (order schemas)) := by
  refine ⟨nodup_order schemas, fun key => mem_order_iff, ?_, ?_⟩
  · intro source first target depends chain onward
    exact sublist_order_of_dependsOn depends chain onward
  · intro source target chain onward
    rw [← leads_successors] at chain onward ⊢
    refine Graph.exists_sublist_of_settled settled_order (fun node other arrow => ?_) chain onward
    exact mem_order_iff.mpr (mem_successors_iff.mp arrow).mem_keys

/-- A schema that may be any of the named ones. -/
def anyOf (names : List String) : Value :=
  .map [(.text "anyOf", .list (names.map fun name =>
    .map [(.text "$ref", .text (Reference.schemaRoot ++ name))]))]

/-- Two schemas on a cycle, of which the first also refers to a third one beyond the cycle. -/
def beyondCycle : Mapping :=
  [(.text "C", anyOf ["A", "B"]), (.text "A", anyOf ["C"]), (.text "B", .map [])]

/-- What lies beyond a cycle need not stand before every schema of the cycle: `A` leads to `B` over
`C`, and `B` leads nowhere, but the walk enters `A` from `C` and places it before it comes to `B`.
-/
theorem order_beyondCycle :
    ¬ ∀ source target, ReflTransGen (DependsOn beyondCycle) source target →
      ¬ ReflTransGen (DependsOn beyondCycle) target source →
      [target, source].Sublist (order beyondCycle) := by
  intro claimed
  have intoCycle : DependsOn beyondCycle (.text "A") (.text "C") :=
    ⟨anyOf ["C"], "C", by cbv, by decide, by cbv, rfl, by simp⟩
  have outOfCycle : DependsOn beyondCycle (.text "C") (.text "B") :=
    ⟨anyOf ["A", "B"], "B", by cbv, by decide, by cbv, rfl, by simp⟩
  have onward : ¬ ReflTransGen (DependsOn beyondCycle) (.text "B") (.text "A") := by
    intro chain
    rcases chain.cases_head with same | ⟨next, ⟨schema, name, found, refers, rest⟩, _⟩
    · simp at same
    · obtain rfl : Value.map [] = schema := by
        have empty : beyondCycle.lookup (.text "B") = some (.map []) := by cbv
        exact Option.some.inj (empty.symm.trans found)
      exact absurd refers List.not_mem_nil
  have arranged : order beyondCycle = [.text "A", .text "B", .text "C"] := by cbv
  have stands := claimed _ _ (.head intoCycle (.single outOfCycle)) onward
  rw [arranged] at stands
  exact absurd stands (by decide)

end OpenApi.Document
