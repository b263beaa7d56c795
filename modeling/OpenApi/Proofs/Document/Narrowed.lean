import OpenApi.Proofs.Document.Selection
import OpenApi.Proofs.Reference

/-!
# Narrowed documents

What is found in a document that was narrowed: the kept paths, and the schemas that they need.  The
pointers in kept operations and in kept schemas lead to schemas that are kept, if they lead to
schemas of the document at all.  Other parts of the components stay as they are, whatever they
point to.  Narrowing in two steps, the second time to fewer paths, is narrowing at once.
-/

namespace OpenApi.Document

variable {doc : Value} {names later : List String} {entries kept : Mapping}

/-! ## Reading a narrowed document -/

/-- A document with these paths kept and the schemas that they need. -/
def keeping (entries kept : Mapping) : Mapping :=
  Mapping.put (.text "components") (componentsWith (.map entries) (neededBy (.map entries) kept))
    (Mapping.put (.text "paths") (.map kept) entries)

/-- A document that offers a requested path is narrowed to the requested paths. -/
theorem narrow?_of_offers {path : String} {item : Value} (wanted : path ∈ names)
    (offers : Offers doc path item) :
    ∃ entries, doc = .map entries ∧
      narrow? doc names = some (.map (keeping entries (requested doc names))) := by
  obtain ⟨entries, rfl, _⟩ := offers.exists_entries
  refine ⟨entries, rfl, narrow?_of_requested fun nothing => ?_⟩
  exact requested_eq_nil_iff.mp nothing path wanted item offers

/-- The narrowed document has the requested paths as its paths. -/
theorem member?_paths_keeping :
    (Value.map (keeping entries kept)).member? "paths" = some (.map kept) :=
  (Mapping.lookup_put_of_ne (by simp)).trans Mapping.lookup_put

/-- They are what its paths are read as. -/
@[simp]
theorem paths_keeping : paths (.map (keeping entries kept)) = kept := by
  rw [paths, member?_paths_keeping]
  rfl

/-- It has the components with the needed schemas. -/
theorem components_keeping : (Value.map (keeping entries kept)).member? "components" =
    some (componentsWith (.map entries) (neededBy (.map entries) kept)) :=
  Mapping.lookup_put

/-- These are what its schemas are read as. -/
@[simp]
theorem schemas_keeping :
    schemas (.map (keeping entries kept)) = neededBy (.map entries) kept := by
  have found {doc : Value} {needed : Mapping} :
      (componentsWith doc needed).member? "schemas" = some (.map needed) := Mapping.lookup_put
  rw [schemas, components_keeping, Option.bind_some, found]
  rfl

/-- Its other components are those that were there. -/
theorem componentsWith_keeping {needed : Mapping} :
    componentsWith (.map (keeping entries kept)) needed = componentsWith (.map entries) needed := by
  unfold componentsWith
  rw [components_keeping]
  exact congrArg Value.map Mapping.put_put

/-- What is kept are the requested paths that are offered. -/
theorem mem_requested_iff {entry : Scalar × Value} :
    entry ∈ requested doc names ↔
      ∃ name ∈ names, entry.1 = .text name ∧ Offers doc name entry.2 := by
  constructor
  · intro member
    induction names using List.reverseRecOn with
    | nil => exact absurd member List.not_mem_nil
    | append_singleton names last ih =>
        have earlier (before : entry ∈ requested doc names) :
            ∃ name ∈ names ++ [last], entry.1 = .text name ∧ Offers doc name entry.2 := by
          obtain ⟨name, wanted, rest⟩ := ih before
          exact ⟨name, List.mem_append_left _ wanted, rest⟩
        rw [requested_concat] at member
        cases offered : item? doc last with
        | none =>
            rw [offered] at member
            exact earlier member
        | some item =>
            rw [offered] at member
            rcases Mapping.mem_put member with before | rfl
            · exact earlier before
            · exact ⟨last, List.mem_append_right _ List.mem_cons_self, rfl,
                item?_eq_some_iff.mp offered⟩
  · rintro ⟨name, wanted, key, offers⟩
    exact Mapping.mem_of_lookup (lookup_requested.mpr ⟨name, wanted, key, offers⟩)

/-! ## Pointers that are followed -/

/-- A pointer stands where it is followed when a document is narrowed: in a value of a kept path
item, or in a kept schema. -/
inductive Followed (narrowed : Value) (pointer : String) : Prop
  | operation {path : Scalar} {item : Mapping} {entry : Scalar × Value}
      (kept : (path, .map item) ∈ paths narrowed) (member : entry ∈ item)
      (occurs : Reference.Occurs pointer entry.2)
  | schema {source : String} {raw : Value} (kept : (schemas narrowed).find? source = some raw)
      (occurs : Reference.Occurs pointer raw)

/-- What its pointers lead to is kept if it was there. -/
theorem has_of_followed {pointer name : String}
    (followed : Followed (.map (keeping entries kept)) pointer)
    (named : Reference.schemaName? pointer = some name)
    (present : (schemas (.map entries)).has name) :
    (schemas (.map (keeping entries kept))).has name := by
  cases followed with
  | operation isKept member occurs =>
      rw [paths_keeping] at isKept
      rw [schemas_keeping, neededBy, has_resolve_iff]
      refine ⟨name, List.mem_flatMap.mpr ⟨_, isKept, ?_⟩, present, .refl⟩
      exact List.mem_flatMap.mpr
        ⟨_, member, Reference.mem_ofValue_iff.mpr ⟨pointer, occurs, named⟩⟩
  | schema isKept occurs =>
      rw [schemas_keeping, neededBy] at isKept ⊢
      exact has_resolve_of_refers isKept
        (Reference.mem_ofValue_iff.mpr ⟨pointer, occurs, named⟩) present

/-- **Followed pointers do not dangle.** In a narrowed document, every pointer in a value of a kept
path item or in a kept schema leads to a schema that is kept, if the document has a schema of the
name at all. -/
theorem narrow_keeps_references (doc : Value) (names : List String) (path : String) (item : Value)
    (wanted : path ∈ names) (offers : Offers doc path item) :
    ∃ narrowed, (narrow doc names).Yields (some narrowed) ∧
      ∀ name, name ≠ "" → '/' ∉ name.toList → (schemas doc).has name →
        Followed narrowed (Reference.schemaRoot ++ name) → (schemas narrowed).has name := by
  obtain ⟨entries, rfl, narrows⟩ := narrow?_of_offers wanted offers
  refine ⟨_, congrArg Except.ok narrows, ?_⟩
  intro name something noSlash present followed
  apply has_of_followed followed
  · exact Reference.schemaName?_eq_some_iff.mpr ⟨rfl, something, noSlash⟩
  · exact present

/-- A pointer occurs in itself. -/
theorem occurs_pointerTo {name : String} :
    Reference.Occurs (Reference.schemaRoot ++ name) (pointerTo name) :=
  .here List.mem_cons_self

/-- The animal that an operation points to is kept, and so is the pet that the animal points to. -/
theorem narrow_keeps_references_petStore :
    Offers petStore "/pets" (.map [(.text "get", pointerTo "Animal")]) ∧
    ∃ narrowed, (narrow petStore ["/pets"]).Yields (some narrowed) ∧
      Followed narrowed (Reference.schemaRoot ++ "Animal") ∧ (schemas narrowed).has "Animal" ∧
      Followed narrowed (Reference.schemaRoot ++ "Pet") ∧ (schemas narrowed).has "Pet" := by
  have offers : Offers petStore "/pets" (.map [(.text "get", pointerTo "Animal")]) :=
    ⟨by cbv, by cbv⟩
  refine ⟨offers, ?_⟩
  have wanted : "/pets" ∈ ["/pets"] := List.mem_cons_self
  obtain ⟨entries, same, narrows⟩ := narrow?_of_offers wanted offers
  obtain ⟨narrowed, yields, keeps⟩ :=
    narrow_keeps_references petStore ["/pets"] "/pets" _ wanted offers
  obtain rfl : narrowed = .map (keeping entries (requested petStore ["/pets"])) :=
    Option.some.inj (Except.ok.inj (yields.symm.trans (congrArg Except.ok narrows)))
  have items : requested petStore ["/pets"] =
      [(.text "/pets", .map [(.text "get", pointerTo "Animal")])] := by cbv
  have schemasOf : neededBy petStore [(.text "/pets", .map [(.text "get", pointerTo "Animal")])] =
      resolve (schemas petStore) ["Animal"] := by rfl
  have animalHeld : (neededBy (.map entries) (requested petStore ["/pets"])).find? "Animal" =
      some (pointerTo "Pet") := by
    rw [← same, items, schemasOf, resolve_petStore]
    cbv
  have animal : Followed (.map (keeping entries (requested petStore ["/pets"])))
      (Reference.schemaRoot ++ "Animal") := by
    apply Followed.operation
    · rw [paths_keeping, items]
      exact List.mem_cons_self
    · exact List.mem_cons_self
    · exact occurs_pointerTo
  have pet : Followed (.map (keeping entries (requested petStore ["/pets"])))
      (Reference.schemaRoot ++ "Pet") := by
    rw [← schemas_keeping] at animalHeld
    exact .schema animalHeld occurs_pointerTo
  refine ⟨_, yields, animal, ?_, pet, ?_⟩
  · exact keeps "Animal" (by decide) (by decide) (by cbv) animal
  · exact keeps "Pet" (by decide) (by decide) (by cbv) pet

/-- A document in which pointers stand where they are not followed: under a response of the
components, directly in a path item, in a path item that is no mapping, and with a name that is
empty or holds a slash. -/
def strayPointers : Value :=
  .map
    [(.text "components", .map
        [(.text "schemas", .map
            [(.text "Error", .map []), (.text "Item", .map []), (.text "Entry", .map []),
              (.text "a/b", .map []), (.text "", .map [])]),
          (.text "responses", .map [(.text "Failure", pointerTo "Error")])]),
      (.text "paths", .map
        [(.text "/items", .map
            [(.text "$ref", .text (Reference.schemaRoot ++ "Item")),
              (.text "get", .map
                [(.text "400", .map [(.text "$ref", .text "#/components/responses/Failure")]),
                  (.text "401", pointerTo "a/b"), (.text "402", pointerTo "")])]),
          (.text "/entries", .list [pointerTo "Entry"])])]

/-- Pointers that are not followed lead nowhere in the narrowed document: it keeps them, and of the
schemas of the document it keeps none. -/
theorem narrow_leaves_strayPointers :
    ∃ narrowed, (narrow strayPointers ["/items", "/entries"]).Yields (some narrowed) ∧
      ∀ name ∈ ["Error", "Item", "Entry", "a/b", ""], (schemas strayPointers).has name ∧
        (∃ part ∈ ["paths", "components"], ∃ value, narrowed.member? part = some value ∧
          Reference.Occurs (Reference.schemaRoot ++ name) value) ∧
        ¬ (schemas narrowed).has name := by
  have offers : Offers strayPointers "/entries" (.list [pointerTo "Entry"]) := ⟨by cbv, by cbv⟩
  have wanted : "/entries" ∈ ["/items", "/entries"] := by simp
  obtain ⟨entries, same, narrows⟩ := narrow?_of_offers wanted offers
  have items : requested strayPointers ["/items", "/entries"] = paths strayPointers := by cbv
  have nothing : neededBy (.map entries) (paths strayPointers) = [] := by
    rw [← same]
    cbv
  have responses : componentsWith (.map entries) [] = .map
      [(.text "schemas", .map []),
        (.text "responses", .map [(.text "Failure", pointerTo "Error")])] := by
    rw [← same]
    cbv
  rw [items] at narrows
  refine ⟨_, congrArg Except.ok narrows, ?_⟩
  intro name listed
  rw [schemas_keeping, nothing]
  refine ⟨?_, ?_, Bool.false_ne_true⟩
  · fin_cases listed <;> cbv
  · simp only [List.mem_cons, List.not_mem_nil, or_false] at listed
    rcases listed with rfl | rfl | rfl | rfl | rfl
    · refine ⟨"components", by simp, _, components_keeping, ?_⟩
      rw [nothing, responses]
      exact .entry (.tail _ (.head _)) (.entry (.head _) occurs_pointerTo)
    all_goals refine ⟨"paths", by simp, _, member?_paths_keeping, ?_⟩
    · exact .entry (.head _) (.here (.head _))
    · exact .entry (.tail _ (.head _)) (.item (.head _) occurs_pointerTo)
    · exact .entry (.head _) (.entry (.tail _ (.head _))
        (.entry (.tail _ (.head _)) occurs_pointerTo))
    · exact .entry (.head _) (.entry (.tail _ (.head _))
        (.entry (.tail _ (.tail _ (.head _))) occurs_pointerTo))

/-! ## Narrowing in steps -/

/-- The document that narrowing leaves: if no requested path is there, the document as it is. -/
def narrowed (doc : Value) (names : List String) : Value := (narrow? doc names).getD doc

/-- The narrowed document of one that offers a requested path. -/
theorem narrowed_of_offers {path : String} {item : Value} (wanted : path ∈ names)
    (offers : Offers doc path item) :
    ∃ entries, doc = .map entries ∧
      narrowed doc names = .map (keeping entries (requested doc names)) := by
  obtain ⟨entries, same, narrows⟩ := narrow?_of_offers wanted offers
  exact ⟨entries, same, by rw [narrowed, narrows, Option.getD_some]⟩

/-- Requested paths have the items that they had. -/
theorem item?_keeping {path : String} (wanted : path ∈ names) :
    item? (.map (keeping entries (requested doc names))) path = item? doc path := by
  ext item
  rw [item?_eq_some_iff, item?_eq_some_iff, Offers, paths_keeping, Mapping.find?,
    lookup_requested]
  constructor
  · rintro ⟨⟨name, _, same, offers⟩, _⟩
    exact Scalar.text.inj same ▸ offers
  · intro offers
    exact ⟨⟨path, wanted, rfl, offers⟩, offers.2⟩

/-- Narrowing further requests the same paths. -/
theorem requested_keeping (within : later ⊆ names) :
    requested (.map (keeping entries (requested doc names))) later = requested doc later := by
  unfold requested
  apply congrArg Mapping.ofEntries
  apply List.filterMap_congr
  intro path wanted
  exact congrArg _ (item?_keeping (within wanted))

/-- It needs the same schemas. -/
theorem neededBy_keeping (within : later ⊆ names) :
    neededBy (.map (keeping entries (requested (.map entries) names)))
        (requested (.map entries) later) =
      neededBy (.map entries) (requested (.map entries) later) := by
  rw [neededBy, schemas_keeping, neededBy]
  apply resolve_resolve
  intro seed member
  obtain ⟨entry, held, refers⟩ := List.mem_flatMap.mp member
  obtain ⟨name, wanted, offered⟩ := mem_requested_iff.mp held
  exact List.mem_flatMap.mpr ⟨entry, mem_requested_iff.mpr ⟨name, within wanted, offered⟩, refers⟩

/-- Paths and schemas that are set again replace those set before. -/
theorem keeping_keeping {more : Mapping}
    (same : neededBy (.map (keeping entries kept)) more = neededBy (.map entries) more) :
    keeping (keeping entries kept) more = keeping entries more := by
  have present : Scalar.text "paths" ∈
      (Mapping.put (.text "paths") (.map kept) entries).map Prod.fst :=
    Mapping.lookup_isSome_iff.mp (by rw [Mapping.lookup_put]; rfl)
  rw [keeping, componentsWith_keeping, same, keeping, Mapping.put_comm (by decide) present,
    Mapping.put_put, Mapping.put_put, keeping]

/-- Narrowing twice is narrowing once to the later request. -/
theorem narrowed_in_steps (within : later ⊆ names) {path : String} {item : Value}
    (wanted : path ∈ later) (offers : Offers doc path item) :
    narrowed (narrowed doc names) later = narrowed doc later := by
  obtain ⟨entries, rfl, left⟩ := narrowed_of_offers (within wanted) offers
  have still : Offers (.map (keeping entries (requested (.map entries) names))) path item := by
    rw [← item?_eq_some_iff, item?_keeping (within wanted), item?_eq_some_iff]
    exact offers
  obtain ⟨_, ⟨⟩, leftLater⟩ := narrowed_of_offers wanted still
  obtain ⟨_, ⟨⟩, leftAtOnce⟩ := narrowed_of_offers wanted offers
  rw [left, leftLater, leftAtOnce, requested_keeping within,
    keeping_keeping (neededBy_keeping within)]

/-- A document that offers none of the paths stays as it is. -/
theorem narrowed_of_missing (missing : ∀ path ∈ names, ∀ item, ¬ Offers doc path item) :
    narrowed doc names = doc := by
  rw [narrowed, narrow?, requested_eq_nil_iff.mpr missing, Option.getD_none]

/-- **Narrowing in steps.** Narrowing a narrowed document to some of the same paths, of which the
document offers one, leaves what narrowing to these at once leaves.  Narrowing to the same paths
again changes nothing, even if the document offers none of them. -/
theorem narrowed_narrowed (doc : Value) (first second : List String) :
    (second ⊆ first → ∀ path ∈ second, ∀ item, Offers doc path item →
      narrowed (narrowed doc first) second = narrowed doc second) ∧
    narrowed (narrowed doc first) first = narrowed doc first := by
  constructor
  · intro within path wanted item offers
    exact narrowed_in_steps within wanted offers
  · by_cases something : ∃ path ∈ first, ∃ item, Offers doc path item
    · obtain ⟨path, wanted, item, offers⟩ := something
      exact narrowed_in_steps (List.Subset.refl first) wanted offers
    · push Not at something
      rw [narrowed_of_missing something, narrowed_of_missing something]

/-- The second step leaves out a path that the first one kept. -/
theorem narrowed_narrowed_strayPointers :
    ["/items"] ⊆ ["/entries", "/items"] ∧
    (∃ item, Offers strayPointers "/items" item) ∧
    narrowed (narrowed strayPointers ["/entries", "/items"]) ["/items"] =
      narrowed strayPointers ["/items"] := by
  have within : ["/items"] ⊆ ["/entries", "/items"] := by simp
  have offers : ∃ item, Offers strayPointers "/items" item := ⟨_, by cbv, by cbv⟩
  refine ⟨within, offers, ?_⟩
  obtain ⟨item, offered⟩ := offers
  apply (narrowed_narrowed strayPointers ["/entries", "/items"] ["/items"]).1 within
  · exact List.mem_cons_self
  · exact offered

end OpenApi.Document
