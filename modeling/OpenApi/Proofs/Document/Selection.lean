import Mathlib
import OpenApi.Document.Selection
import OpenApi.Proofs.Document.Resolution
import OpenApi.Proofs.Keyed
import OpenApi.Proofs.Traced

/-!
# What narrowing keeps

Narrowing a document to requested paths replaces its paths and its schemas and leaves everything
else as it stands: the other entries of the document and of its components keep their places and
their values.  The paths that are kept are the requested ones that the document offers, and the
schemas that are kept are those that the kept paths need.
-/

namespace OpenApi.Document

open Relation

variable {doc : Value} {names : List String}

/-- The document has an item under the path, and the item is not empty. -/
def Offers (doc : Value) (path : String) (item : Value) : Prop :=
  (paths doc).find? path = some item ∧ item.isSomething

theorem item?_eq_some_iff {path : String} {item : Value} :
    item? doc path = some item ↔ Offers doc path item := by
  rw [item?, Option.filter_eq_some_iff, Offers]

/-- A schema is needed for path items: a chain of references over schemas of the document leads to
it from a mapping or a list in one of the items. -/
def NeededFor (doc : Value) (items : Mapping) (name : String) : Prop :=
  ∃ path entries operation seed, (path, .map entries) ∈ items ∧
    operation ∈ entries.map Prod.snd ∧ (operation.isMap ∨ operation.isList) ∧
    seed ∈ Reference.ofValue operation ∧ (schemas doc).has seed ∧
    ReflTransGen (Refers (schemas doc)) seed name

theorem mem_itemReferences_iff {item : Value} {seed : String} :
    seed ∈ itemReferences item ↔ ∃ entries operation, item = .map entries ∧
      operation ∈ entries.map Prod.snd ∧ (operation.isMap ∨ operation.isList) ∧
      seed ∈ Reference.ofValue operation := by
  constructor
  · intro member
    unfold itemReferences at member
    split at member
    · next entries =>
        obtain ⟨entry, held, found⟩ := List.mem_flatMap.mp member
        refine ⟨entries, entry.2, rfl, List.mem_map_of_mem held, ?_, found⟩
        cases operation : entry.2 with
        | scalar content =>
            rw [operation, Reference.ofValue] at found
            exact absurd found List.not_mem_nil
        | list items => exact .inr rfl
        | map inner => exact .inl rfl
    · exact absurd member List.not_mem_nil
  · rintro ⟨entries, operation, rfl, held, _, found⟩
    obtain ⟨entry, member, rfl⟩ := List.mem_map.mp held
    exact List.mem_flatMap.mpr ⟨entry, member, found⟩

open Classical in
/-- The schemas for the kept paths are those of the document that these need, in its order. -/
theorem neededBy_eq_filter (kept : Mapping) :
    neededBy doc kept = (schemas doc).filter fun entry =>
      ∃ name, entry.1 = .text name ∧ NeededFor doc kept name := by
  rw [neededBy, resolve_eq_filter]
  refine List.filter_congr fun entry _ => ?_
  refine decide_eq_decide.mpr (exists_congr fun name => and_congr_right fun _ => ?_)
  simp only [Reachable, List.mem_flatMap, mem_itemReferences_iff]
  constructor
  · rintro ⟨seed, ⟨⟨path, item⟩, member, entries, operation, rfl, held, shape, found⟩, rest⟩
    exact ⟨path, entries, operation, seed, member, held, shape, found, rest⟩
  · rintro ⟨path, entries, operation, seed, member, held, shape, found, rest⟩
    exact ⟨seed, ⟨_, member, entries, operation, rfl, held, shape, found⟩, rest⟩

/-! ## Requested paths -/

theorem requested_concat {last : String} :
    requested doc (names ++ [last]) =
      ((item? doc last).map fun item =>
        Mapping.put (.text last) item (requested doc names)).getD (requested doc names) := by
  simp only [requested, Mapping.ofEntries, Keyed.ofEntries, Keyed.putAll, List.filterMap_append,
    List.foldl_append]
  cases offered : item? doc last with
  | none => simp [offered]
  | some item => simp [offered, Mapping.put]

/-- Every requested path that is offered is kept once, at the place of its first request. -/
theorem keys_requested :
    (requested doc names).map Prod.fst =
      ((names.filter fun name => (item? doc name).isSome).eraseDups).map .text := by
  induction names using List.reverseRecOn with
  | nil => rfl
  | append_singleton names last ih =>
      rw [requested_concat, List.filter_append, List.eraseDups_append, List.map_append, ← ih]
      cases offered : item? doc last with
      | none => simp [offered, List.removeAll]
      | some item =>
          rw [Option.map_some, Option.getD_some, Mapping.keys_put, ih]
          congr 1
          by_cases earlier : last ∈ names
          · simp [offered, earlier, List.removeAll]
          · simp [offered, earlier, List.removeAll, List.eraseDups_cons]

/-- Under a requested path the item of the document is kept, and nothing else is kept. -/
theorem lookup_requested {key : Scalar} {item : Value} :
    (requested doc names).lookup key = some item ↔
      ∃ name ∈ names, key = .text name ∧ Offers doc name item := by
  induction names using List.reverseRecOn with
  | nil => simp [requested, Mapping.ofEntries, Keyed.ofEntries, Keyed.putAll]
  | append_singleton names last ih =>
      have split : (∃ name ∈ names ++ [last], key = .text name ∧ Offers doc name item) ↔
          (∃ name ∈ names, key = .text name ∧ Offers doc name item) ∨
            (key = .text last ∧ Offers doc last item) := by
        simp [or_and_right, exists_or]
      rw [requested_concat, split, ← ih, ← item?_eq_some_iff]
      cases offered : item? doc last with
      | none => simp
      | some found =>
          rw [Option.map_some, Option.getD_some]
          by_cases same : key = .text last
          · subst same
            rw [Mapping.lookup_put]
            refine ⟨fun here => .inr ⟨rfl, here⟩, ?_⟩
            rintro (earlier | ⟨_, here⟩)
            · obtain ⟨name, _, same, offers⟩ := ih.mp earlier
              obtain rfl := Scalar.text.inj same
              exact offered.symm.trans (item?_eq_some_iff.mpr offers)
            · exact here
          · simp [Mapping.lookup_put_of_ne same, same]

theorem requested_eq_nil_iff :
    requested doc names = [] ↔ ∀ name ∈ names, ∀ item, ¬ Offers doc name item := by
  constructor
  · intro none name wanted item offers
    have found := lookup_requested.mpr ⟨name, wanted, rfl, offers⟩
    rw [none, List.lookup_nil] at found
    cases found
  · intro missing
    rw [List.eq_nil_iff_forall_not_mem]
    intro entry member
    have held := Mapping.lookup_isSome_iff.mpr (List.mem_map_of_mem (f := Prod.fst) member)
    obtain ⟨item, found⟩ := Option.isSome_iff_exists.mp held
    obtain ⟨name, wanted, _, offers⟩ := lookup_requested.mp found
    exact missing name wanted item offers

/-- A document that offers a path is a mapping with paths. -/
theorem Offers.exists_entries {path : String} {item : Value} (offers : Offers doc path item) :
    ∃ entries, doc = .map entries ∧ .text "paths" ∈ entries.map Prod.fst := by
  have found := offers.1
  unfold paths at found
  cases doc with
  | scalar | list => cases found
  | map entries =>
      refine ⟨entries, rfl, Mapping.lookup_isSome_iff.mp ?_⟩
      rw [Option.isSome_iff_ne_none]
      intro missing
      have absent : Value.member? (.map entries) "paths" = none := missing
      rw [absent] at found
      cases found

/-- What narrowing answers if something is kept. -/
theorem narrow?_of_requested {entries : Mapping}
    (something : requested (.map entries) names ≠ []) :
    let kept := requested (.map entries) names
    narrow? (.map entries) names = some (.map
      (Mapping.put (.text "components")
        (componentsWith (.map entries) (neededBy (.map entries) kept))
        (Mapping.put (.text "paths") (.map kept) entries))) := by
  dsimp only
  unfold narrow?
  split
  · next nothing => exact absurd nothing something
  · rfl

/-! ## Narrowed documents -/

open Classical in
/-- A mapping is a document narrowed to requested paths: the kept paths are the requested ones that
the document offers, the schemas are those needed for them, and all else is as before. -/
structure Narrows (doc : Value) (names : List String)
    (entries kept needed components narrowed : Mapping) : Prop where
  document : doc = .map entries
  requested : kept.map Prod.fst =
    ((names.filter fun name => ∃ item, Offers doc name item).eraseDups).map .text
  offered : ∀ name item, kept.find? name = some item ↔ name ∈ names ∧ Offers doc name item
  reached : needed = (schemas doc).filter fun entry =>
    ∃ name, entry.1 = .text name ∧ NeededFor doc kept name
  schemas : Mapping.Overwrites [(.text "schemas", .map needed)]
    (((doc.member? "components").bind (·.entries?)).getD []) components
  overwrites : Mapping.Overwrites
    [(.text "paths", .map kept), (.text "components", .map components)] entries narrowed

open Classical in
/-- **What narrowing keeps.** If the document offers none of the requested paths, it stays as it is.
Otherwise the kept paths are the requested ones that it offers, in the order of their first
requests, the kept schemas are those needed for them, in the order of the document, and all other
entries of the document and of its components keep their places and values.  Every request that is
not met is reported, in order. -/
theorem narrow_keeps_requested (doc : Value) (names : List String) :
    ((∀ name ∈ names, ∀ item, ¬ Offers doc name item) →
      narrow doc names = ⟨names.map .pathNotFound ++ [.noPathMatched], .ok none⟩) ∧
    (∀ name ∈ names, ∀ item, Offers doc name item →
      ∃ entries kept needed components narrowed,
        Narrows doc names entries kept needed components narrowed ∧
        narrow doc names =
          ⟨(names.filter fun name => ¬ ∃ item, Offers doc name item).map .pathNotFound ++
            [.narrowed kept.length needed.length], .ok (some (.map narrowed))⟩) := by
  have offered (name : String) : (item? doc name).isSome ↔ ∃ item, Offers doc name item := by
    simp only [Option.isSome_iff_exists, item?_eq_some_iff]
  have unmet : (names.filter fun name => (item? doc name).isNone) =
      names.filter fun name => ¬ ∃ item, Offers doc name item := by
    refine List.filter_congr fun name _ => ?_
    rw [Bool.eq_iff_iff, decide_eq_true_iff, ← offered, Option.isNone_iff_eq_none,
      Option.not_isSome_iff_eq_none]
  constructor
  · intro missing
    have nothing := requested_eq_nil_iff.mpr missing
    have all : (names.filter fun name => ¬ ∃ item, Offers doc name item) = names := by
      rw [List.filter_eq_self]
      intro name wanted
      simpa using missing name wanted
    rw [narrow, narrowNotices, narrow?, unmet, all, nothing]
    rfl
  · intro name wanted item offers
    obtain ⟨entries, rfl, held⟩ := offers.exists_entries
    have something : requested (.map entries) names ≠ [] := fun nothing =>
      requested_eq_nil_iff.mp nothing name wanted item offers
    let kept := requested (.map entries) names
    let needed := neededBy (.map entries) kept
    let old : Mapping := (((Value.map entries).member? "components").bind (·.entries?)).getD []
    let components := Mapping.put (.text "schemas") (.map needed) old
    refine ⟨entries, kept, needed, components,
      Mapping.put (.text "components") (.map components)
        (Mapping.put (.text "paths") (.map kept) entries),
      ⟨rfl, ?_, ?_, neededBy_eq_filter kept, ?_, ?_⟩, ?_⟩
    · simp only [kept, keys_requested, ← offered, Bool.decide_eq_true]
    · intro other found
      simp only [kept, Mapping.find?, lookup_requested, Scalar.text.injEq]
      constructor
      · rintro ⟨_, among, rfl, offered⟩
        exact ⟨among, offered⟩
      · rintro ⟨among, offered⟩
        exact ⟨other, among, rfl, offered⟩
    · exact (Mapping.Overwrites.refl old).put List.not_mem_nil
    · exact ((Mapping.Overwrites.refl entries).put List.not_mem_nil).put (by simp)
    · rw [narrow, narrowNotices, narrow?_of_requested something, unmet]
      have shown : (requested (.map entries) names).isEmpty = false := by
        simpa using something
      rw [shown]
      rfl

/-- A raw schema, or what holds one, that points to a schema. -/
def pointerTo (name : String) : Value :=
  .map [(.text "$ref", .text (Reference.schemaRoot ++ name))]

/-- A document with a path for which two of three schemas are needed, and an empty path. -/
def petStore : Value :=
  .map
    [(.text "components", .map
        [(.text "schemas", .map
            [(.text "Pet", .map []), (.text "Owner", pointerTo "Pet"),
              (.text "Animal", pointerTo "Pet")]),
          (.text "responses", .map [])]),
      (.text "paths", .map
        [(.text "/pets", .map [(.text "get", pointerTo "Animal")]), (.text "/void", .map [])])]

/-- The schemas of the document that its path needs. -/
theorem resolve_petStore : resolve (schemas petStore) ["Animal"] =
    [(.text "Pet", .map []), (.text "Animal", pointerTo "Pet")] := by
  have reached : Graph.reached (schemas petStore).names (references (schemas petStore)) ["Animal"] =
      ["Pet", "Animal"] := by cbv
  rw [resolve_eq_reached, reached]
  cbv

open Classical in
/-- Of a path that is offered, an empty one and one requested twice, the first is kept. -/
theorem narrow_keeps_requested_petStore :
    Offers petStore "/pets" (.map [(.text "get", pointerTo "Animal")]) ∧
    ∃ entries kept needed components narrowed,
      Narrows petStore ["/void", "/pets", "/pets"] entries kept needed components narrowed ∧
      (narrow petStore ["/void", "/pets", "/pets"]).notices =
        [.pathNotFound "/void", .narrowed 1 2] ∧
      (narrow petStore ["/void", "/pets", "/pets"]).Yields (some (.map narrowed)) := by
  have offers : Offers petStore "/pets" (.map [(.text "get", pointerTo "Animal")]) :=
    ⟨by cbv, by cbv⟩
  refine ⟨offers, ?_⟩
  obtain ⟨entries, kept, needed, components, narrowed, narrows, answers⟩ :=
    (narrow_keeps_requested petStore ["/void", "/pets", "/pets"]).2 "/pets" (by simp) _ offers
  have items : requested petStore ["/void", "/pets", "/pets"] =
      [(.text "/pets", .map [(.text "get", pointerTo "Animal")])] := by cbv
  have schemasOf : neededBy petStore [(.text "/pets", .map [(.text "get", pointerTo "Animal")])] =
      resolve (schemas petStore) ["Animal"] := by rfl
  have reported : narrowNotices petStore ["/void", "/pets", "/pets"] =
      [.pathNotFound "/void", .narrowed 1 2] := by
    rw [narrowNotices, items, schemasOf, resolve_petStore]
    cbv
  exact ⟨entries, kept, needed, components, narrowed, narrows, reported,
    congrArg Traced.outcome answers⟩

end OpenApi.Document
