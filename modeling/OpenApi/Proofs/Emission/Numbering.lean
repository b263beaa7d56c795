import OpenApi.Proofs.Emission.Naming

/-!
# Numbered schemas

Under which name each schema of a map is emitted.  A schema keeps its name unless that declares an
identifier of an emitted name before it; then the name gets the smallest number that avoids them all.
-/

namespace OpenApi.Emission

open Identifier

variable {dialect : Dialect} {used : NameSet} {earlier : List String} {name emitted : String}

/-- A name declares no identifier that one of the earlier names declares. -/
def IsFree (dialect : Dialect) (earlier : List String) (name : String) : Prop :=
  ∀ other ∈ earlier, Apart dialect other name

/-- The name under which a schema is emitted after others: its own if that is free, and else the name
followed by the smallest number from two upwards that makes it free. -/
inductive NamedAfter (dialect : Dialect) (earlier : List String) (name : String) : String → Prop
  | own (free : IsFree dialect earlier name) : NamedAfter dialect earlier name name
  | renamed {number : Nat} (clash : ¬IsFree dialect earlier name) (two_le : 2 ≤ number)
      (free : IsFree dialect earlier (numbered name number))
      (least : ∀ smaller, 2 ≤ smaller → smaller < number →
        ¬IsFree dialect earlier (numbered name smaller)) :
      NamedAfter dialect earlier name (numbered name number)

instance (first second : String) : Decidable (Apart dialect first second) :=
  List.decidableBAll _ _

instance (earlier : List String) (name : String) : Decidable (IsFree dialect earlier name) :=
  List.decidableBAll _ _

/-- The names before a schema determine its own. -/
theorem NamedAfter.unique {other : String} (first : NamedAfter dialect earlier name emitted)
    (second : NamedAfter dialect earlier name other) : emitted = other := by
  cases first with
  | own free =>
      cases second with
      | own _ => rfl
      | renamed clash => exact absurd free clash
  | @renamed number clash two_le free least =>
      cases second with
      | own free => exact absurd free clash
      | @renamed otherNumber _ other_two_le otherFree otherLeast =>
          rcases Nat.lt_trichotomy number otherNumber with below | rfl | above
          · exact absurd free (otherLeast number two_le below)
          · rfl
          · exact absurd otherFree (least otherNumber other_two_le above)

/-- The identifiers in use are those of the earlier names. -/
def Declared (dialect : Dialect) (earlier : List String) (used : NameSet) : Prop :=
  ∀ identifier, identifier ∈ used ↔ ∃ other ∈ earlier, identifier ∈ dialect.identifiers other

theorem Declared.nil : Declared dialect [] ∅ := by
  simp [Declared]

theorem Declared.concat (declared : Declared dialect earlier used) (last : String) :
    Declared dialect (earlier ++ [last]) (used.insertAll (dialect.identifiers last)) := by
  intro identifier
  rw [NameSet.mem_insertAll, declared identifier]
  simp [or_and_right, exists_or]

theorem Declared.isFree_iff (declared : Declared dialect earlier used) :
    IsFree dialect earlier name ↔ clashes dialect used name = false := by
  rw [clashes_eq_false_iff]
  constructor
  · intro free identifier own inUse
    obtain ⟨other, before, also⟩ := (declared identifier).mp inUse
    exact free other before identifier also own
  · intro unused other before identifier also own
    exact unused identifier own ((declared identifier).mpr ⟨other, before, also⟩)

theorem Declared.namedAfter_emittedName (numbers : dialect.TellsNumbersApart)
    (declared : Declared dialect earlier used) (name : String) :
    NamedAfter dialect earlier name (emittedName dialect used name) := by
  unfold emittedName
  split
  · next clash =>
      have taken : ¬IsFree dialect earlier name := by simp [declared.isFree_iff, clash]
      obtain ⟨found, search, -⟩ := exists_unclashing numbers used name
      obtain ⟨number, two_le, rfl, free, least⟩ := least_of_firstNumbered? search
      dsimp only
      rw [search, Option.getD_some]
      refine .renamed taken two_le (declared.isFree_iff.mpr (by simpa using free)) ?_
      intro smaller from2 below isFree
      have blocked := least smaller from2 below
      rw [declared.isFree_iff.mp isFree] at blocked
      cases blocked
  · next free => exact .own (declared.isFree_iff.mpr (Bool.eq_false_iff.mpr free))

/-- Schemas are named one after the other, each after all before it. -/
theorem Declared.namedAfter_of_assigned (numbers : dialect.TellsNumbersApart)
    (declared : Declared dialect earlier used) {keys : List Scalar} {names : List (String × String)}
    (run : (assignNames dialect used keys).Yields names) {before after : List (String × String)}
    (stands : names = before ++ (name, emitted) :: after) :
    NamedAfter dialect (earlier ++ before.map Prod.snd) name emitted := by
  induction keys generalizing earlier used names before with
  | nil =>
      rw [assignNames, Traced.yields_answer] at run
      simp [← run] at stands
  | cons key rest ih =>
      cases key with
      | text first =>
          rw [assignNames] at run
          obtain ⟨_, _, run⟩ := Traced.yields_andThen.mp run
          obtain ⟨others, assigned, rfl⟩ := Traced.yields_andThen_answer.mp run
          cases before with
          | nil =>
              obtain ⟨same, _⟩ := List.cons_eq_cons.mp stands
              obtain ⟨rfl, rfl⟩ := Prod.mk.inj same
              simpa using declared.namedAfter_emittedName numbers first
          | cons pair passed =>
              obtain ⟨rfl, later⟩ := List.cons_eq_cons.mp stands
              have regrouped := ih (declared.concat _) assigned later
              rwa [List.append_assoc, List.singleton_append] at regrouped
      | null | bool | int | float =>
          rw [assignNames, Traced.yields_fail] at run
          · exact run.elim
          all_goals simp

/-- **Emitted names.** The schemas of a map with text keys all get names to be emitted under.  The
names declare no identifier in common, and each is the schema's own name or, only where that clashes
with an emitted name before it, the name with the smallest number from two upwards that clashes with
none of them. -/
theorem schemas_named_in_turn (target : Target) (schemas : Mapping)
    (texts : ∀ key ∈ schemas.map Prod.fst, ∃ name, key = .text name) :
    ∃ names, (assignNames target.dialect ∅ (schemas.map Prod.fst)).Yields names ∧
      names.map (fun pair => .text pair.1) = schemas.map Prod.fst ∧
      (names.Pairwise fun first second => Apart target.dialect first.2 second.2) ∧
      ∀ before name emitted after, names = before ++ (name, emitted) :: after →
        NamedAfter target.dialect (before.map Prod.snd) name emitted := by
  obtain ⟨names, run⟩ : ∃ names,
      (assignNames target.dialect ∅ (schemas.map Prod.fst)).Yields names :=
    exists_assignNames texts
  obtain ⟨keys, _, apart⟩ := assignNames_apart target.tellsNumbersApart run
  refine ⟨names, run, keys.symm, apart, fun before name emitted after stands => ?_⟩
  exact Declared.nil.namedAfter_of_assigned target.tellsNumbersApart run stands

/-- Schemas whose constants are spelled alike, and one with a number in its name. -/
def spelledAlike : Mapping :=
  [(.text "pet", .null), (.text "pet2", .null), (.text "Pet", .null)]

/-- The number that another schema has in its name is passed over. -/
theorem schemas_named_in_turn_spelledAlike :
    (∀ key ∈ spelledAlike.map Prod.fst, ∃ name, key = .text name) ∧
      (assignNames (Zod.dialect "Schema") ∅ (spelledAlike.map Prod.fst)).Yields
        [("pet", "pet"), ("pet2", "pet2"), ("Pet", "Pet3")] := by
  have texts : ∀ key ∈ spelledAlike.map Prod.fst, ∃ name, key = .text name := by
    simp [spelledAlike]
  obtain ⟨names, run, keys, _, named⟩ := schemas_named_in_turn (.zod "Schema") spelledAlike texts
  obtain ⟨first, second, third, rfl⟩ :
      ∃ first second third, names = [("pet", first), ("pet2", second), ("Pet", third)] := by
    match names, keys with
    | [(_, first), (_, second), (_, third)], rfl => exact ⟨first, second, third, rfl⟩
  have pet := named [] "pet" first _ rfl
  obtain rfl := pet.unique (.own (by decide))
  have pet2 := named [("pet", "pet")] "pet2" second _ rfl
  obtain rfl := pet2.unique (.own (by decide))
  have other := named [("pet", "pet"), ("pet2", "pet2")] "Pet" third _ rfl
  have third : NamedAfter (Zod.dialect "Schema") ["pet", "pet2"] "Pet" (numbered "Pet" 3) := by
    refine .renamed (by decide) (by decide) (by decide) fun smaller two_le below => ?_
    obtain rfl : smaller = 2 := by omega
    decide
  obtain rfl := other.unique third
  exact ⟨texts, run⟩

end OpenApi.Emission
