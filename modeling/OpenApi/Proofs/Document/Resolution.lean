import Mathlib
import OpenApi.Document
import OpenApi.Proofs.Graph.Reach
import OpenApi.Proofs.Reference
import OpenApi.Proofs.Resolver

/-!
# What a resolution keeps

Resolving names in a map of schemas keeps the schemas at the ends of chains of references that
start at one of the names and pass over schemas of the map only.  Which schemas these are depends
on the names as a set, and resolving the names of what was kept keeps the same again.
-/

namespace OpenApi.Document

open Relation

/-- The names that a schema of the map refers to. -/
def references (schemas : Mapping) (name : String) : List String :=
  ((schemas.find? name).map Reference.ofValue).getD []

/-- A schema of the map refers to a schema of the map. -/
def Refers (schemas : Mapping) (source target : String) : Prop :=
  ∃ schema, schemas.find? source = some schema ∧ target ∈ Reference.ofValue schema ∧
    schemas.has target

/-- A chain of references over schemas of the map leads from one of the seeds to the name. -/
def Reachable (schemas : Mapping) (seeds : List String) (name : String) : Prop :=
  ∃ seed ∈ seeds, schemas.has seed ∧ ReflTransGen (Refers schemas) seed name

variable {schemas : Mapping} {seeds : List String}

/-- What a seed reaches is reached from any seeds that reach the seed. -/
theorem Reachable.trans {later : List String} {name : String}
    (reached : Reachable schemas later name)
    (seeded : ∀ seed ∈ later, schemas.has seed → Reachable schemas seeds seed) :
    Reachable schemas seeds name := by
  obtain ⟨seed, given, held, chain⟩ := reached
  obtain ⟨first, firstGiven, firstHeld, before⟩ := seeded seed given held
  exact ⟨first, firstGiven, firstHeld, before.trans chain⟩

/-- The arrows that the search follows are the references between schemas of the map. -/
theorem arrow_iff_refers {source target : String} :
    Graph.Arrow schemas.names (references schemas) source target ↔
      Refers schemas source target := by
  unfold Graph.Arrow Refers references
  rw [← Mapping.has_iff_mem_names, ← Mapping.has_iff_mem_names, Mapping.has_iff_exists_find?]
  constructor
  · rintro ⟨⟨schema, found⟩, held, follows⟩
    rw [found] at follows
    exact ⟨schema, found, follows, held⟩
  · rintro ⟨schema, found, follows, held⟩
    rw [found]
    exact ⟨⟨schema, rfl⟩, held, follows⟩

/-- The search over the schemas reaches the names that are reachable. -/
theorem mem_reached_iff_reachable {name : String} :
    name ∈ Graph.reached schemas.names (references schemas) seeds ↔
      Reachable schemas seeds name := by
  have arrows : Graph.Arrow schemas.names (references schemas) = Refers schemas := by
    funext source target
    exact propext arrow_iff_refers
  simp only [Graph.mem_reached_iff, arrows, ← Mapping.has_iff_mem_names, Reachable]

/-! ## What the work list finds -/

/-- A listing of what schemas refer to: exactly the names that a scan finds, in any order and with any
repetition. -/
def Lists (scan : Value → List String) : Prop :=
  ∀ schema name, name ∈ scan schema ↔ name ∈ Reference.scan ∅ schema

theorem lists_scan : Lists fun schema => (Reference.scan ∅ schema).toList :=
  fun _ _ => Iff.rfl

section Listed

variable {scan : Value → List String} (lists : Lists scan) {name : String}

include lists

theorem Lists.mem_iff {schema : Value} : name ∈ scan schema ↔ name ∈ Reference.ofValue schema := by
  rw [lists, Reference.mem_scan]
  simp

/-- The reachable names are the names of schemas that are called for. -/
theorem reachable_iff_called : Reachable schemas seeds name ↔
    Resolver.Called scan schemas seeds name ∧ schemas.has name := by
  constructor
  · rintro ⟨seed, given, held, chain⟩
    induction chain with
    | refl => exact ⟨.seed given, held⟩
    | tail _ last ih =>
        obtain ⟨schema, found, refers, present⟩ := last
        exact ⟨.referred ih.1 found (lists.mem_iff.mpr refers), present⟩
  · rintro ⟨called, held⟩
    induction called with
    | seed given => exact ⟨_, given, held, .refl⟩
    | @referred source name schema _ found refers ih =>
        obtain ⟨seed, given, start, chain⟩ := ih (Mapping.has_iff_exists_find?.mpr ⟨schema, found⟩)
        exact ⟨seed, given, start, chain.tail ⟨schema, found, lists.mem_iff.mp refers, held⟩⟩

/-- Under a reachable name the work list finds the schema of the map, and under others none. -/
theorem find?_resolved_eq_some_iff {schema : Value} :
    (resolved scan schemas seeds).find? name = some schema ↔
      Reachable schemas seeds name ∧ schemas.find? name = some schema := by
  rw [resolved, Resolver.find?_run_eq_some_iff, reachable_iff_called lists, and_assoc]
  refine and_congr_right fun _ => (and_iff_right_of_imp fun found => ?_).symm
  exact Mapping.has_iff_exists_find?.mpr ⟨schema, found⟩

/-- The entries that the work list finds are those of the reachable names. -/
theorem mem_resolved_iff {entry : Scalar × Value} : entry ∈ resolved scan schemas seeds ↔
    ∃ name, entry.1 = .text name ∧ Reachable schemas seeds name ∧
      schemas.find? name = some entry.2 := by
  have keeps := (Resolver.keeps_start scan schemas seeds).run
  constructor
  · intro member
    obtain ⟨name, looked, key, held⟩ := keeps.held entry member
    have called := Resolver.mem_processed_run_iff.mp looked
    have present := Mapping.has_iff_exists_find?.mpr ⟨_, held⟩
    exact ⟨name, key, (reachable_iff_called lists).mpr ⟨called, present⟩, held⟩
  · obtain ⟨key, schema⟩ := entry
    rintro ⟨name, rfl, reached, held⟩
    exact Mapping.mem_of_lookup ((find?_resolved_eq_some_iff lists).mpr ⟨reached, held⟩)

/-- The work list finds something under the keys that are reachable names. -/
theorem lookup_resolved_isSome_iff {key : Scalar} :
    ((resolved scan schemas seeds).lookup key).isSome ↔
      ∃ name, key = .text name ∧ Reachable schemas seeds name := by
  rw [Mapping.lookup_isSome_iff, List.mem_map]
  constructor
  · rintro ⟨entry, member, rfl⟩
    obtain ⟨name, key, reached, -⟩ := (mem_resolved_iff lists).mp member
    exact ⟨name, key, reached⟩
  · rintro ⟨name, rfl, reached⟩
    have held := ((reachable_iff_called lists).mp reached).2
    obtain ⟨schema, found⟩ := Mapping.has_iff_exists_find?.mp held
    exact ⟨(.text name, schema), (mem_resolved_iff lists).mpr ⟨name, rfl, reached, found⟩, rfl⟩

end Listed

open Classical in
/-- A resolution keeps the entries whose keys are reachable names. -/
theorem resolve_eq_filter (schemas : Mapping) (seeds : List String) :
    resolve schemas seeds = schemas.filter fun entry =>
      ∃ name, entry.1 = .text name ∧ Reachable schemas seeds name := by
  refine List.filter_congr fun entry _ => ?_
  rw [Bool.eq_iff_iff, decide_eq_true_eq]
  exact lookup_resolved_isSome_iff lists_scan

/-- A resolution keeps the entries whose keys a search over the graph of references reaches. -/
theorem resolve_eq_reached (schemas : Mapping) (seeds : List String) :
    resolve schemas seeds = schemas.filter fun entry =>
      match entry.1 with
      | .text name => name ∈ Graph.reached schemas.names (references schemas) seeds
      | _ => false := by
  rw [resolve_eq_filter]
  refine List.filter_congr fun entry _ => ?_
  obtain ⟨key, value⟩ := entry
  cases key <;> simp [mem_reached_iff_reachable]

theorem mem_resolve_iff {entry : Scalar × Value} :
    entry ∈ resolve schemas seeds ↔
      entry ∈ schemas ∧ ∃ name, entry.1 = .text name ∧ Reachable schemas seeds name := by
  classical
  rw [resolve_eq_filter, List.mem_filter, decide_eq_true_eq]

/-- Under a reachable name a resolution holds the schema of the map, and under others none. -/
theorem find?_resolve (name : String) [Decidable (Reachable schemas seeds name)] :
    (resolve schemas seeds).find? name =
      if Reachable schemas seeds name then schemas.find? name else none := by
  classical
  rw [resolve_eq_filter]
  refine (Mapping.lookup_filter_key (fun key =>
    decide (∃ name, key = .text name ∧ Reachable schemas seeds name)) schemas (.text name)).trans ?_
  simp [Mapping.find?]

/-- A reachable name is the name of a schema of the map. -/
theorem Reachable.has {name : String} (reached : Reachable schemas seeds name) :
    schemas.has name := by
  obtain ⟨seed, given, held, chain⟩ := reached
  cases chain with
  | refl => exact held
  | tail before last =>
      obtain ⟨schema, found, follows, present⟩ := last
      exact present

/-- The names of a resolution are the reachable ones. -/
theorem has_resolve_iff {name : String} :
    (resolve schemas seeds).has name ↔ Reachable schemas seeds name := by
  classical
  rw [Mapping.has_iff_exists_find?, find?_resolve]
  by_cases reached : Reachable schemas seeds name
  · simp only [reached, if_true, iff_true]
    exact Mapping.has_iff_exists_find?.mp reached.has
  · simp [reached]

/-- A schema of the map to which a kept schema refers is kept. -/
theorem has_resolve_of_refers {source name : String} {raw : Value}
    (found : (resolve schemas seeds).find? source = some raw) (refers : name ∈ Reference.ofValue raw)
    (present : schemas.has name) : (resolve schemas seeds).has name := by
  classical
  rw [find?_resolve] at found
  split at found
  · next reached =>
      obtain ⟨seed, given, held, chain⟩ := reached
      exact has_resolve_iff.mpr ⟨seed, given, held, chain.tail ⟨raw, found, refers, present⟩⟩
  · cases found

/-- Seeds that reach the same names give the same resolution. -/
theorem resolve_congr {others : List String}
    (same : ∀ name, Reachable schemas others name ↔ Reachable schemas seeds name) :
    resolve schemas others = resolve schemas seeds := by
  have equal : Reachable schemas others = Reachable schemas seeds :=
    funext fun name => propext (same name)
  rw [resolve_eq_filter, resolve_eq_filter, equal]

/-- The schemas of a resolution refer to each other as they do in the map. -/
theorem refers_resolve_iff {source target : String} :
    Refers (resolve schemas seeds) source target ↔
      Reachable schemas seeds source ∧ Refers schemas source target := by
  classical
  unfold Refers
  rw [find?_resolve]
  constructor
  · rintro ⟨schema, found, follows, present⟩
    split at found
    · next reached => exact ⟨reached, schema, found, follows, (has_resolve_iff.mp present).has⟩
    · cases found
  · rintro ⟨reached, schema, found, follows, present⟩
    obtain ⟨seed, given, held, chain⟩ := reached
    have further : Reachable schemas seeds target :=
      ⟨seed, given, held, chain.tail ⟨schema, found, follows, present⟩⟩
    exact ⟨schema, by rwa [if_pos ⟨seed, given, held, chain⟩], follows, has_resolve_iff.mpr further⟩

/-- From seeds that a resolution was made for, the same is reachable in it as in the map. -/
theorem reachable_resolve_iff {later : List String} {name : String} (within : later ⊆ seeds) :
    Reachable (resolve schemas seeds) later name ↔ Reachable schemas later name := by
  constructor
  · rintro ⟨seed, given, held, chain⟩
    have below : Refers (resolve schemas seeds) ≤ Refers schemas :=
      fun _ _ refers => (refers_resolve_iff.mp refers).2
    exact ⟨seed, given, (has_resolve_iff.mp held).has, ReflTransGen.mono below _ _ chain⟩
  · rintro ⟨seed, given, held, chain⟩
    refine ⟨seed, given, has_resolve_iff.mpr ⟨seed, within given, held, .refl⟩, ?_⟩
    induction chain with
    | refl => exact .refl
    | tail before last ih =>
        exact ih.tail (refers_resolve_iff.mpr ⟨⟨seed, within given, held, before⟩, last⟩)

/-- Resolving twice, the second time for some of the seeds, is resolving once for these. -/
theorem resolve_resolve {later : List String} (within : later ⊆ seeds) :
    resolve (resolve schemas seeds) later = resolve schemas later := by
  classical
  let keep (wanted : List String) (entry : Scalar × Value) : Bool :=
    ∃ name, entry.1 = .text name ∧ Reachable schemas wanted name
  have narrower (entry : Scalar × Value) : keep later entry → keep seeds entry := by
    simp only [keep, decide_eq_true_eq]
    rintro ⟨name, key, seed, given, rest⟩
    exact ⟨name, key, seed, within given, rest⟩
  calc resolve (resolve schemas seeds) later
      = (resolve schemas seeds).filter (keep later) := by
        rw [resolve_eq_filter]
        refine List.filter_congr fun entry _ => decide_eq_decide.mpr ?_
        simp only [reachable_resolve_iff within]
    _ = (schemas.filter (keep seeds)).filter (keep later) := by rw [resolve_eq_filter schemas]
    _ = schemas.filter (keep later) := by
        rw [List.filter_filter]
        refine List.filter_congr fun entry _ => ?_
        rw [Bool.and_eq_left_iff_imp]
        exact narrower entry
    _ = resolve schemas later := (resolve_eq_filter schemas later).symm

/-- A map keeps of other schemas those that can be reached from seeds: its names are those to which a
chain of references over schemas leads from a seed, each with the schema that it had. -/
structure KeepsReachable (schemas : Mapping) (seeds : List String) (kept : Mapping) : Prop where
  has_iff : ∀ name, kept.has name ↔
    ∃ seed ∈ seeds, schemas.has seed ∧ ReflTransGen (Refers schemas) seed name
  unchanged : ∀ name, kept.has name → kept.find? name = schemas.find? name
  named : ∀ entry ∈ kept, entry ∈ schemas ∧ ∃ name, entry.1 = .text name ∧ kept.has name

/-- What the work list finds is what can be reached. -/
theorem keepsReachable_resolved {scan : Value → List String} (lists : Lists scan)
    (schemas : Mapping) (seeds : List String) :
    KeepsReachable schemas seeds (resolved scan schemas seeds) where
  has_iff := by
    intro name
    rw [Mapping.has, Mapping.find?, lookup_resolved_isSome_iff lists]
    simp only [Scalar.text.injEq, exists_eq_left', Reachable]
  unchanged := by
    intro name kept
    obtain ⟨schema, found⟩ := Mapping.has_iff_exists_find?.mp kept
    rw [found, ((find?_resolved_eq_some_iff lists).mp found).2]
  named := by
    intro entry member
    obtain ⟨name, key, reached, held⟩ := (mem_resolved_iff lists).mp member
    refine ⟨?_, name, key, ?_⟩
    · rw [← Prod.eta entry, key]
      exact Mapping.mem_of_lookup held
    · exact Mapping.has_iff_exists_find?.mpr
        ⟨_, (find?_resolved_eq_some_iff lists).mpr ⟨reached, held⟩⟩

/-- A resolution keeps what can be reached. -/
theorem keepsReachable_resolve (schemas : Mapping) (seeds : List String) :
    KeepsReachable schemas seeds (resolve schemas seeds) where
  has_iff := fun name => has_resolve_iff
  unchanged := by
    classical
    intro name kept
    rw [find?_resolve, if_pos (has_resolve_iff.mp kept)]
  named := by
    intro entry kept
    obtain ⟨member, name, key, reached⟩ := mem_resolve_iff.mp kept
    exact ⟨member, name, key, has_resolve_iff.mpr reached⟩

/-- The work list finds nothing twice. -/
theorem nodup_resolved (scan : Value → List String) (schemas : Mapping) (seeds : List String) :
    ((resolved scan schemas seeds).map Prod.fst).Nodup :=
  (Resolver.keeps_start scan schemas seeds).run.once

/-- Seeds that reach the same names find the same, however what schemas refer to is listed. -/
theorem perm_resolved {scan other : Value → List String} (lists : Lists scan)
    (otherLists : Lists other) {others : List String}
    (same : ∀ name, Reachable schemas others name ↔ Reachable schemas seeds name) :
    (resolved other schemas others).Perm (resolved scan schemas seeds) := by
  refine (List.perm_ext_iff_of_nodup (List.Nodup.of_map _ (nodup_resolved other schemas others))
    (List.Nodup.of_map _ (nodup_resolved scan schemas seeds))).mpr fun entry => ?_
  simp only [mem_resolved_iff lists, mem_resolved_iff otherLists, same]

/-- The names of what was found reach what was found, and no more. -/
theorem reachable_names_iff {kept : Mapping} (keeps : KeepsReachable schemas seeds kept)
    {name : String} : Reachable schemas kept.names name ↔ Reachable schemas seeds name := by
  constructor
  · exact fun reached => reached.trans fun seed given _ =>
      (keeps.has_iff seed).mp (Mapping.has_iff_mem_names.mpr given)
  · intro reached
    have kept := Mapping.has_iff_mem_names.mp ((keeps.has_iff name).mpr reached)
    exact ⟨name, kept, reached.has, .refl⟩

/-- **What following references finds.** However a scan lists the names that a schema refers to, the
work list ends for every map and all seeds, after finitely many turns, with no name waiting.  What it
has found are the schemas to which a chain of references over schemas of the map leads from a seed,
each once and unchanged.  Neither the order of the seeds and of the listing nor repetitions matter, but
for the order in which the schemas are found, and following the names of what was found finds the same
again.  A resolution is what was found, in the order of the map. -/
theorem resolve_keeps_reachable {scan : Value → List String} (lists : Lists scan)
    (schemas : Mapping) (seeds : List String) :
    (WellFounded fun after before => Resolver.Turns scan schemas before after) ∧
    (∃ last, ReflTransGen (Resolver.Turns scan schemas) (Resolver.start seeds) last ∧
      last.queue = [] ∧ last.resolved = resolved scan schemas seeds) ∧
    KeepsReachable schemas seeds (resolved scan schemas seeds) ∧
    ((resolved scan schemas seeds).map Prod.fst).Nodup ∧
    (∀ other others, Lists other → (∀ seed, seed ∈ others ↔ seed ∈ seeds) →
      (resolved other schemas others).Perm (resolved scan schemas seeds)) ∧
    (∀ other, Lists other → (resolved other schemas (resolved scan schemas seeds).names).Perm
      (resolved scan schemas seeds)) ∧
    KeepsReachable schemas seeds (resolve schemas seeds) ∧
    resolve schemas seeds = schemas.filter fun entry =>
      ((resolved scan schemas seeds).lookup entry.1).isSome := by
  refine ⟨Resolver.wellFounded_turns scan schemas,
    ⟨_, Resolver.turns_run scan schemas _, Resolver.queue_run _, rfl⟩,
    keepsReachable_resolved lists schemas seeds, nodup_resolved scan schemas seeds,
    fun other others otherLists same => perm_resolved lists otherLists fun name => ?_,
    fun other otherLists => perm_resolved lists otherLists fun name =>
      reachable_names_iff (keepsReachable_resolved lists schemas seeds),
    keepsReachable_resolve schemas seeds, ?_⟩
  · simp only [Reachable, same]
  · refine List.filter_congr fun entry _ => ?_
    rw [Bool.eq_iff_iff, lookup_resolved_isSome_iff lists]
    exact lookup_resolved_isSome_iff lists_scan

/-- Two schemas that refer to each other, one of them also to nothing, and one that stands apart. -/
def circle : Mapping :=
  let pointer (name : String) : Value := .map [(.text "$ref", .text ("#/components/schemas/" ++ name))]
  [(.text "A", pointer "B"), (.text "B", .list [pointer "A", pointer "Nowhere", pointer "A"]),
    (.text "C", pointer "A")]

theorem resolve_keeps_reachable_circle :
    Lists (fun schema => (Reference.ofValue schema).reverse) ∧
      KeepsReachable circle ["B", "Nowhere", "B"]
        (resolved (fun schema => (Reference.ofValue schema).reverse) circle ["B", "Nowhere", "B"]) ∧
      (resolved (fun schema => (Reference.ofValue schema).reverse) circle
        ["B", "Nowhere", "B"]).names = ["B", "A"] := by
  have lists : Lists fun schema => (Reference.ofValue schema).reverse := by
    intro schema name
    simp [Reference.mem_scan]
  exact ⟨lists, (resolve_keeps_reachable lists circle _).2.2.1, by cbv⟩

end OpenApi.Document
