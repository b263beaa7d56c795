import Mathlib.Order.Bounds.Basic
import OpenApi.Proofs.Identifier

/-!
# Counting up to a free name

A name that is taken is numbered from two upwards until the numbered name is free.  Said as a loop
(`SetsApart`), this has no bound of its own.  Each turn passes a number whose name is taken, so that
the numbers that would do stay the same (`freeFrom_succ`); the loop therefore stops at the least of
them.  There is one, because finitely many names are taken and each of them stands in the way of one
number only.  Where more names are taken, fewer numbers would do, and their least is no smaller.
-/

namespace OpenApi.Identifier

variable {name : String} {taken larger : NameSet} {first last number : Nat}

/-- A number makes another name of a name. -/
theorem numbered_ne (name : String) (number : Nat) : numbered name number ≠ name := by
  intro same
  have digits := congrArg String.toList same
  rw [toList_numbered, List.append_right_eq_self] at digits
  exact Nat.toDigits_ne_nil digits

/-! ## The loop -/

/-- Counting up from a first number stops at a last one: while the numbered name is taken, the next
number is tried. -/
inductive CountsTo (name : String) (taken : NameSet) : Nat → Nat → Prop
  | stop {number : Nat} (free : numbered name number ∉ taken) : CountsTo name taken number number
  | next {number last : Nat} (held : numbered name number ∈ taken)
      (later : CountsTo name taken (number + 1) last) : CountsTo name taken number last

/-- A name is made one that is not taken: it is left as it is if it is free, and else it is numbered
with the number to which counting from two leads. -/
inductive SetsApart (name : String) (taken : NameSet) : String → Prop
  | own (free : name ∉ taken) : SetsApart name taken name
  | counted {number : Nat} (held : name ∈ taken) (counts : CountsTo name taken 2 number) :
      SetsApart name taken (numbered name number)

/-! ## The numbers that would do -/

/-- The numbers from a first one upwards that make a name free. -/
def freeFrom (name : String) (taken : NameSet) (first : Nat) : Set Nat :=
  {number | first ≤ number ∧ numbered name number ∉ taken}

/-- A number whose name is taken may be passed. -/
theorem freeFrom_succ (held : numbered name first ∈ taken) :
    freeFrom name taken (first + 1) = freeFrom name taken first := by
  ext number
  constructor
  · rintro ⟨above, free⟩
    exact ⟨by omega, free⟩
  · rintro ⟨above, free⟩
    have apart : number ≠ first := by
      rintro rfl
      exact free held
    exact ⟨by omega, free⟩

/-- Where more names are taken, fewer numbers would do. -/
theorem freeFrom_subset (more : ∀ other ∈ taken, other ∈ larger) :
    freeFrom name larger first ⊆ freeFrom name taken first := by
  rintro number ⟨above, free⟩
  exact ⟨above, fun held => free (more _ held)⟩

/-- Counting stops at the least number that would do. -/
theorem CountsTo.isLeast (counts : CountsTo name taken first last) :
    IsLeast (freeFrom name taken first) last := by
  induction counts with
  | stop free => exact ⟨⟨le_rfl, free⟩, fun number would => would.1⟩
  | next held later ih => rwa [freeFrom_succ held] at ih

/-- Counting comes to the least number that would do. -/
theorem countsTo_of_isLeast (least : IsLeast (freeFrom name taken first) last) :
    CountsTo name taken first last := by
  obtain ⟨⟨above, free⟩, below⟩ := least
  -- Backwards from the last number: each one before it is held, or it would be the least.
  induction above using Nat.decreasingInduction with
  | self => exact .stop free
  | of_succ number before ih =>
      have held : numbered name number ∈ taken := by
        by_contra unused
        have := below ⟨le_rfl, unused⟩
        omega
      refine .next held (ih ?_)
      rwa [freeFrom_succ held]

theorem countsTo_iff : CountsTo name taken first last ↔ IsLeast (freeFrom name taken first) last :=
  ⟨CountsTo.isLeast, countsTo_of_isLeast⟩

/-! ## The name that is made -/

theorem unique_of_free (free : name ∉ taken) : unique name taken = name := if_pos free

/-- A name that is taken gets the least number that makes it free. -/
theorem exists_unique_eq_numbered (held : name ∈ taken) :
    ∃ number, unique name taken = numbered name number ∧
      IsLeast (freeFrom name taken 2) number := by
  obtain ⟨found, search, free⟩ := exists_unused name taken
  obtain ⟨number, two_le, rfl, -, least⟩ := least_of_firstNumbered? search
  refine ⟨number, ?_, ⟨two_le, free⟩, ?_⟩
  · rw [unique, if_neg (not_not_intro held), search, Option.getD_some]
  · rintro other ⟨other_two_le, otherFree⟩
    by_contra below
    have blocked := least other other_two_le (not_le.mp below)
    exact of_decide_eq_false blocked otherFree

/-- The loop makes one name, the unique one. -/
theorem setsApart_iff {made : String} :
    SetsApart name taken made ↔ made = unique name taken := by
  by_cases held : name ∈ taken
  · obtain ⟨number, numberedSo, least⟩ := exists_unique_eq_numbered held
    rw [numberedSo]
    constructor
    · intro apart
      cases apart with
      | own free => exact absurd held free
      | counted _ counts => rw [counts.isLeast.unique least]
    · rintro rfl
      exact .counted held (countsTo_of_isLeast least)
  · rw [unique_of_free held]
    constructor
    · intro apart
      cases apart with
      | own => rfl
      | counted taken => exact absurd taken held
    · rintro rfl
      exact .own held

/-- Where more names are taken, the number is no smaller. -/
theorem exists_unique_eq_numbered_of_larger (more : ∀ other ∈ taken, other ∈ larger)
    (numberedSo : unique name taken = numbered name number) :
    ∃ other, number ≤ other ∧ unique name larger = numbered name other := by
  have held : name ∈ taken := by
    by_contra free
    rw [unique_of_free free] at numberedSo
    exact numbered_ne name number numberedSo.symm
  obtain ⟨least, same, isLeast⟩ := exists_unique_eq_numbered held
  obtain rfl := numbered_injective name (numberedSo.symm.trans same)
  obtain ⟨other, otherNumbered, otherLeast⟩ := exists_unique_eq_numbered (more name held)
  exact ⟨other, otherLeast.mono isLeast (freeFrom_subset more), otherNumbered⟩

/-- **Free names.** Setting a name apart from taken names comes to an end, whatever finitely many
they are, and makes one name only.  That name is not taken.  It is the name itself if that is free,
and else the name with the smallest number from two upwards that makes it free.  Where more names
are taken, a name that got a number gets one again, and it is no smaller. -/
theorem unique_is_first_free (name : String) (taken : NameSet) :
    (∀ made, SetsApart name taken made ↔ made = unique name taken) ∧
      unique name taken ∉ taken ∧
      (name ∉ taken → unique name taken = name) ∧
      (name ∈ taken → ∃ number, unique name taken = numbered name number ∧
        IsLeast (freeFrom name taken 2) number) ∧
      ∀ larger : NameSet, (∀ other ∈ taken, other ∈ larger) → ∀ number,
        unique name taken = numbered name number →
          ∃ more, number ≤ more ∧ unique name larger = numbered name more :=
  ⟨fun _ => setsApart_iff, unique_not_mem name taken, unique_of_free, exists_unique_eq_numbered,
    fun _ more _ => exists_unique_eq_numbered_of_larger more⟩

/-- Names among which the third pet is missing. -/
def pets : NameSet := .ofList ["Pet", "Pet2", "Pet4"]

/-- The missing pet is found, and when it has come the next one is the fifth. -/
theorem unique_is_first_free_pets :
    "Pet" ∈ pets ∧ (∀ other ∈ pets, other ∈ pets.insert "Pet3") ∧
      unique "Pet" pets = numbered "Pet" 3 ∧
      ∃ more, 3 ≤ more ∧ unique "Pet" (pets.insert "Pet3") = numbered "Pet" more := by
  have held : "Pet" ∈ pets := by simp [pets]
  have more : ∀ other ∈ pets, other ∈ pets.insert "Pet3" := by
    intro other member
    exact NameSet.mem_insert.mpr (.inl member)
  obtain ⟨-, -, -, counted, grows⟩ := unique_is_first_free "Pet" pets
  obtain ⟨number, numberedSo, least⟩ := counted held
  have third : IsLeast (freeFrom "Pet" pets 2) 3 := by
    refine countsTo_iff.mp (.next ?_ (.stop ?_)) <;> decide
  obtain rfl := least.unique third
  exact ⟨held, more, numberedSo, grows _ more 3 numberedSo⟩

end OpenApi.Identifier
