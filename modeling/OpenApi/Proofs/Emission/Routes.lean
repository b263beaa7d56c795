import OpenApi.Emission
import OpenApi.Proofs.Document.Narrowed

/-!
# Two routes to a module

There are two ways to a module for the paths with some beginnings: the schemas that these paths need
are emitted, or the document is narrowed to these paths and all schemas that are left are emitted.
Both ways lead to the same module, because an empty path, which narrowing leaves out, needs nothing.
-/

namespace OpenApi

namespace Document

variable {doc : Value} {beginnings : List String}

/-! ## Paths with a beginning -/

/-- The names of the paths that start with one of the beginnings. -/
def starting (doc : Value) (beginnings : List String) : List String :=
  (paths doc).names.filter fun name => beginnings.any (startsWith name)

theorem mem_starting_iff {name : String} :
    name ∈ starting doc beginnings ↔
      .text name ∈ (paths doc).map Prod.fst ∧ beginnings.any (startsWith name) := by
  rw [starting, List.mem_filter, Mapping.mem_names_iff]

theorem pathsStarting_go_of_texts {entries : Mapping}
    (texts : ∀ key ∈ entries.map Prod.fst, ∃ name, key = .text name) :
    pathsStarting.go beginnings (entries.map Prod.fst) =
      .ok ((entries.names.filter fun name => beginnings.any (startsWith name)).map .text) := by
  induction entries with
  | nil => rfl
  | cons entry rest ih =>
      obtain ⟨key, item⟩ := entry
      obtain ⟨name, rfl⟩ := texts key List.mem_cons_self
      have later := ih fun key member => texts key (List.mem_cons_of_mem _ member)
      rw [List.map_cons, pathsStarting.go, later, Mapping.names, List.filter_cons]
      by_cases starts : beginnings.any (startsWith name)
      · simp [starts, bind, Except.bind, pure, Except.pure]
      · simp [starts, bind, Except.bind, pure, Except.pure]

/-- If all paths are texts, those with a beginning are found. -/
theorem pathsStarting_of_texts (nonempty : beginnings ≠ [])
    (texts : ∀ key ∈ (paths doc).map Prod.fst, ∃ name, key = .text name) :
    pathsStarting doc beginnings = .ok ((starting doc beginnings).map .text) := by
  unfold pathsStarting
  rw [if_neg (by simpa using nonempty)]
  exact pathsStarting_go_of_texts texts

/-! ## The schemas that they need -/

theorem isSomething_of_mem_itemReferences {item : Value} {seed : String}
    (refers : seed ∈ itemReferences item) : item.isSomething := by
  obtain ⟨entries, operation, rfl, held, _⟩ := mem_itemReferences_iff.mp refers
  cases entries with
  | nil => exact absurd held List.not_mem_nil
  | cons entry rest => rfl

/-- The items found under some names refer to what the requested paths of these names refer to:
those that are empty refer to nothing. -/
theorem mem_itemReferences_found_iff {names : List String} {seed : String} :
    seed ∈ ((names.map Scalar.text).filterMap fun name => (paths doc).lookup name).flatMap
        itemReferences ↔
      seed ∈ (requested doc names).flatMap fun entry => itemReferences entry.2 := by
  simp only [List.mem_flatMap, List.mem_filterMap, List.mem_map]
  constructor
  · intro found
    obtain ⟨item, ⟨_, ⟨name, wanted, rfl⟩, found⟩, refers⟩ := found
    have offers : Offers doc name item := ⟨found, isSomething_of_mem_itemReferences refers⟩
    exact ⟨(.text name, item), mem_requested_iff.mpr ⟨name, wanted, rfl, offers⟩, refers⟩
  · intro asked
    obtain ⟨entry, held, refers⟩ := asked
    obtain ⟨name, wanted, same, offers⟩ := mem_requested_iff.mp held
    exact ⟨entry.2, ⟨_, ⟨name, wanted, rfl⟩, offers.1⟩, refers⟩

/-- The schemas for the paths with a beginning are those that these need when they are requested. -/
theorem schemasFor_of_texts (nonempty : beginnings ≠ [])
    (texts : ∀ key ∈ (paths doc).map Prod.fst, ∃ name, key = .text name) :
    schemasFor doc beginnings = .ok (neededBy doc (requested doc (starting doc beginnings))) := by
  unfold schemasFor
  rw [if_neg (by simpa using nonempty), pathsStarting_of_texts nonempty texts]
  apply congrArg Except.ok
  apply resolve_congr
  intro name
  simp only [Reachable, mem_itemReferences_found_iff]

theorem Offers.mem_starting {path : String} {item : Value} (offers : Offers doc path item)
    (starts : beginnings.any (startsWith path)) : path ∈ starting doc beginnings := by
  apply mem_starting_iff.mpr
  refine ⟨Mapping.lookup_isSome_iff.mp ?_, starts⟩
  exact Option.isSome_iff_exists.mpr ⟨item, offers.1⟩

end Document

namespace Emission

open Document

/-- What is emitted depends on the schemas that are selected, and on nothing else. -/
theorem emit_congr {target : Target} {doc other : Value} {beginnings others : List String}
    (same : schemasFor doc beginnings = schemasFor other others) :
    emit target doc beginnings = emit target other others := by
  unfold emit
  rw [same]

/-- **Two routes agree.** If all paths of a document are texts, and it offers one that starts with
one of the beginnings, then narrowing it to the paths with these beginnings leaves the schemas that
are selected by the beginnings, and the same is emitted of what is left as by the beginnings. -/
theorem emit_narrowed (doc : Value) (beginnings : List String)
    (texts : ∀ key ∈ (paths doc).map Prod.fst, ∃ name, key = .text name)
    (path : String) (item : Value) (offers : Offers doc path item)
    (starts : beginnings.any (startsWith path)) :
    ∃ selected narrowed kept,
      pathsStarting doc beginnings = .ok (selected.map .text) ∧
      (narrow doc selected).Yields (some narrowed) ∧
      (narrowed.member? "components").bind (·.member? "schemas") = some (.map kept) ∧
      schemasFor doc beginnings = .ok kept ∧
      ∀ target, emit target doc beginnings = emit target narrowed [] := by
  have nonempty : beginnings ≠ [] := by
    rintro rfl
    cases starts
  obtain ⟨entries, rfl, narrows⟩ := narrow?_of_offers (offers.mem_starting starts) offers
  have selects := schemasFor_of_texts nonempty texts
  refine ⟨_, _, _, pathsStarting_of_texts nonempty texts, congrArg Except.ok narrows, ?_, selects,
    fun target => ?_⟩
  · rw [components_keeping]
    exact Mapping.lookup_put
  · apply emit_congr
    rw [selects]
    exact congrArg Except.ok schemas_keeping.symm

/-- Both paths of the document are selected, and the empty one makes no difference. -/
theorem emit_narrowed_petStore :
    (∀ key ∈ (paths petStore).map Prod.fst, ∃ name, key = .text name) ∧
    Offers petStore "/pets" (.map [(.text "get", pointerTo "Animal")]) ∧
    (["/v", "/p"].any (startsWith "/pets")) ∧
    pathsStarting petStore ["/v", "/p"] = .ok [.text "/pets", .text "/void"] ∧
    ∃ selected narrowed kept,
      pathsStarting petStore ["/v", "/p"] = .ok (selected.map .text) ∧
      (narrow petStore selected).Yields (some narrowed) ∧
      (narrowed.member? "components").bind (·.member? "schemas") = some (.map kept) ∧
      schemasFor petStore ["/v", "/p"] = .ok kept ∧
      ∀ target, emit target petStore ["/v", "/p"] = emit target narrowed [] := by
  have keys : (paths petStore).map Prod.fst = [.text "/pets", .text "/void"] := by cbv
  have texts : ∀ key ∈ (paths petStore).map Prod.fst, ∃ name, key = .text name := by
    rw [keys]
    simp
  have offers : Offers petStore "/pets" (.map [(.text "get", pointerTo "Animal")]) :=
    ⟨by cbv, by cbv⟩
  have starts : ["/v", "/p"].any (startsWith "/pets") := by cbv
  refine ⟨texts, offers, starts, by cbv, ?_⟩
  exact emit_narrowed petStore ["/v", "/p"] texts "/pets" _ offers starts

end Emission

end OpenApi
