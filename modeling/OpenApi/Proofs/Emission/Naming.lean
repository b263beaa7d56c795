import OpenApi.Emission
import OpenApi.Proofs.Identifier
import OpenApi.Proofs.Mapping
import OpenApi.Proofs.Traced

/-!
# Emitted names

Schemas are emitted under names that declare different identifiers.  A name whose identifiers are
in use gets a number, and the search for the number succeeds, because at each of its places an
identifier in use stands in the way of one number only.
-/

namespace OpenApi

open Identifier

/-- Different numbers after a name declare different identifiers, place by place. -/
structure Dialect.TellsNumbersApart (dialect : Dialect) : Prop where
  declares : ∀ name, dialect.identifiers name ≠ []
  length_numbered : ∀ name number,
    (dialect.identifiers (numbered name number)).length = (dialect.identifiers name).length
  apart : ∀ (name : String) (place : Nat) (identifier : String) (first second : Nat),
    (dialect.identifiers (numbered name first))[place]? = some identifier →
      (dialect.identifiers (numbered name second))[place]? = some identifier → first = second

/-- A class and its helper have the number of the name in their own. -/
theorem TypedDict.tellsNumbersApart : TypedDict.dialect.TellsNumbersApart where
  declares name := by simp [TypedDict.dialect]
  length_numbered name number := by simp [TypedDict.dialect]
  apart name place identifier first second one two := by
    have same : (TypedDict.dialect.identifiers (numbered name first))[place]? =
        (TypedDict.dialect.identifiers (numbered name second))[place]? := one.trans two.symm
    simp only [TypedDict.dialect, TypedDict.fieldsName, ofName_numbered] at same one
    match place with
    | 0 => exact numbered_injective _ (Option.some.inj same)
    | 1 =>
        refine numbered_injective (String.ofList (unnumbered (worded name.toList))) ?_
        have fields := congrArg String.toList (Option.some.inj same)
        simpa [String.toList_append, String.toList_inj] using fields
    | place + 2 => simp at one

/-- A constant has the number of the name before its suffix, and a type at its end. -/
theorem Zod.tellsNumbersApart (suffix : String) : (Zod.dialect suffix).TellsNumbersApart where
  declares name := by simp [Zod.dialect]
  length_numbered name number := by simp [Zod.dialect]
  apart name place identifier first second one two := by
    have declared (number : Nat) : (Zod.dialect suffix).identifiers (numbered name number) =
        [numbered (String.ofList (unnumbered (worded (camelCase name).toList))) number ++
            String.ofList (worded suffix.toList),
          numbered (String.ofList (unnumbered (worded name.toList))) number] := by
      simp only [Zod.dialect, Zod.schemaName, camelCase_numbered, ofName_numbered_append,
        ofName_numbered]
    rw [declared] at one two
    rcases place with _ | _ | place
    · simp only [List.getElem?_cons_zero, Option.some.injEq] at one two
      have constants := congrArg String.toList (one.trans two.symm)
      rw [String.toList_append, String.toList_append] at constants
      exact numbered_injective _ (String.toList_inj.mp (List.append_cancel_right constants))
    · simp only [List.getElem?_cons_succ, List.getElem?_cons_zero, Option.some.injEq] at one two
      exact numbered_injective _ (one.trans two.symm)
    · simp at one

/-- Every target tells numbers apart. -/
theorem Target.tellsNumbersApart : ∀ target : Target, target.dialect.TellsNumbersApart
  | zod suffix => Zod.tellsNumbersApart suffix
  | typedDict => TypedDict.tellsNumbersApart

namespace Emission

variable {dialect : Dialect}

/-- Among the numbers that are tried, one makes a name that declares no identifier in use. -/
theorem exists_unclashing (numbers : dialect.TellsNumbersApart) (used : NameSet) (name : String) :
    ∃ found, firstNumbered? (fun other => !clashes dialect used other) name
      ((dialect.identifiers name).length * used.toList.length + 1) = some found ∧
        clashes dialect used found = false := by
  -- A place among the identifiers and an identifier in use there block one number at most.
  have search : ∃ found, firstNumbered? (fun other => !clashes dialect used other) name
      ((dialect.identifiers name).length * used.toList.length + 1) = some found ∧
        (!clashes dialect used found) := by
    refine exists_firstNumbered?
      (Finset.range (dialect.identifiers name).length ×ˢ used.toList.toFinset) ?_
      (fun number blocker =>
        (dialect.identifiers (numbered name number))[blocker.1]? = some blocker.2) ?_ ?_
    · rw [Finset.card_product, Finset.card_range]
      exact Nat.lt_succ_of_le (Nat.mul_le_mul_left _ (List.toFinset_card_le _))
    · intro number blocked
      have clash : clashes dialect used (numbered name number) := by simpa using blocked
      obtain ⟨identifier, declared, isUsed⟩ := List.any_eq_true.mp clash
      obtain ⟨place, within, same⟩ := List.getElem_of_mem declared
      refine ⟨(place, identifier), Finset.mem_product.mpr ⟨?_, ?_⟩, ?_⟩
      · rw [numbers.length_numbered] at within
        exact Finset.mem_range.mpr within
      · simpa using isUsed
      · exact List.getElem?_eq_some_iff.mpr ⟨within, same⟩
    · rintro first second ⟨place, identifier⟩ one two
      exact numbers.apart name place identifier first second one two
  obtain ⟨found, search, free⟩ := search
  exact ⟨found, search, by simpa using free⟩

/-- The name under which a schema is emitted declares no identifier in use. -/
theorem clashes_emittedName (numbers : dialect.TellsNumbersApart) (used : NameSet) (name : String) :
    clashes dialect used (emittedName dialect used name) = false := by
  unfold emittedName
  split
  · obtain ⟨found, search, free⟩ := exists_unclashing numbers used name
    dsimp only
    rw [search, Option.getD_some]
    exact free
  · next free => exact Bool.eq_false_iff.mpr free

theorem clashes_eq_false_iff {used : NameSet} {name : String} :
    clashes dialect used name = false ↔
      ∀ identifier ∈ dialect.identifiers name, identifier ∉ used := by
  simp [clashes]

/-- Two names declare no identifier in common. -/
def Apart (dialect : Dialect) (first second : String) : Prop :=
  ∀ identifier ∈ dialect.identifiers first, identifier ∉ dialect.identifiers second

/-- Every schema gets a name, and the identifiers of the names differ from those in use and from
each other. -/
theorem assignNames_apart (numbers : dialect.TellsNumbersApart) {used : NameSet}
    {keys : List Scalar} {names : List (String × String)}
    (run : (assignNames dialect used keys).Yields names) :
    keys = names.map (fun pair => .text pair.1) ∧
      (∀ pair ∈ names, clashes dialect used pair.2 = false) ∧
      names.Pairwise fun first second => Apart dialect first.2 second.2 := by
  induction keys generalizing used names with
  | nil =>
      rw [assignNames, Traced.yields_answer] at run
      subst run
      simp
  | cons key rest ih =>
      cases key with
      | text name =>
          rw [assignNames] at run
          obtain ⟨_, _, run⟩ := Traced.yields_andThen.mp run
          obtain ⟨others, assigned, rfl⟩ := Traced.yields_andThen_answer.mp run
          obtain ⟨keysOf, free, apart⟩ := ih assigned
          -- The later names avoid what was in use and the identifiers of this name as well.
          have later : ∀ pair ∈ others, clashes dialect used pair.2 = false ∧
              Apart dialect (emittedName dialect used name) pair.2 := by
            intro pair member
            have unused := clashes_eq_false_iff.mp (free pair member)
            simp only [NameSet.mem_insertAll, not_or] at unused
            refine ⟨clashes_eq_false_iff.mpr fun identifier held => (unused identifier held).1, ?_⟩
            intro identifier declared held
            exact (unused identifier held).2 declared
          refine ⟨by rw [keysOf, List.map_cons], ?_, ?_⟩
          · intro pair member
            rcases List.mem_cons.mp member with rfl | among
            · exact clashes_emittedName numbers used name
            · exact (later pair among).1
          · exact List.pairwise_cons.mpr ⟨fun pair member => (later pair member).2, apart⟩
      | null | bool | int | float =>
          rw [assignNames, Traced.yields_fail] at run
          · exact run.elim
          all_goals simp

/-- Schemas whose names are texts get their names to be emitted under. -/
theorem exists_assignNames {used : NameSet} {keys : List Scalar}
    (texts : ∀ key ∈ keys, ∃ name, key = .text name) :
    ∃ names, (assignNames dialect used keys).Yields names := by
  induction keys generalizing used with
  | nil => exact ⟨[], rfl⟩
  | cons key rest ih =>
      obtain ⟨name, rfl⟩ := texts key List.mem_cons_self
      obtain ⟨others, assigned⟩ := ih fun other member => texts other (List.mem_cons_of_mem _ member)
      rw [assignNames]
      exact ⟨_, Traced.yields_andThen.mpr ⟨(), rfl, Traced.yields_andThen_answer.mpr
        ⟨others, assigned, rfl⟩⟩⟩

section Assigned

variable {used : NameSet} {keys : List Scalar} {names : List (String × String)}

/-- No two schemas are emitted under one name. -/
theorem nodup_assigned (numbers : dialect.TellsNumbersApart)
    (run : (assignNames dialect used keys).Yields names) : (names.map Prod.snd).Nodup := by
  obtain ⟨_, _, apart⟩ := assignNames_apart numbers run
  rw [List.Nodup, List.pairwise_map]
  refine apart.imp fun {first second} differ same => ?_
  obtain ⟨identifier, declared⟩ := List.exists_mem_of_ne_nil _ (numbers.declares first.2)
  exact differ identifier declared (same ▸ declared)

/-- The name of a schema tells which schema it is. -/
theorem eq_of_lookup_assigned (numbers : dialect.TellsNumbersApart)
    (run : (assignNames dialect used keys).Yields names) {first second emitted : String}
    (one : names.lookup first = some emitted) (two : names.lookup second = some emitted) :
    first = second := by
  have injective := List.inj_on_of_nodup_map (nodup_assigned numbers run)
  have same := injective (Mapping.mem_of_lookup one) (Mapping.mem_of_lookup two) rfl
  exact congrArg Prod.fst same

/-- Every schema with a text for its name has a name to be emitted under. -/
theorem exists_lookup_assigned (numbers : dialect.TellsNumbersApart)
    (run : (assignNames dialect used keys).Yields names) {name : String}
    (key : .text name ∈ keys) : ∃ emitted, names.lookup name = some emitted := by
  obtain ⟨rfl, _⟩ := assignNames_apart numbers run
  rw [← Option.isSome_iff_exists, Mapping.lookup_isSome_iff]
  obtain ⟨pair, member, same⟩ := List.mem_map.mp key
  exact List.mem_map.mpr ⟨pair, member, Scalar.text.inj same⟩

end Assigned

end Emission

end OpenApi
