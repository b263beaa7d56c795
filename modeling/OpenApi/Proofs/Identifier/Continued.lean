import OpenApi.Proofs.Identifier

/-!
# Continued names

Nested records are named after what they stand in: a word or a number is put after the name of the
whole.  A name that is an identifier as it stands remains one when it is continued so.
-/

namespace OpenApi.Identifier

/-! ## Letters and digits -/

/-- The capital letters by their code points. -/
theorem isUpper_iff {c : Char} : c.isUpper ↔ 65 ≤ c.toNat ∧ c.toNat ≤ 90 :=
  decide_eq_true_iff

/-- The small letters by their code points. -/
theorem isLower_iff {c : Char} : c.isLower ↔ 97 ≤ c.toNat ∧ c.toNat ≤ 122 := by
  change (decide (97 ≤ c.val) && decide (c.val ≤ 122)) = true ↔ _
  rw [Bool.and_eq_true, decide_eq_true_iff, decide_eq_true_iff]
  rfl

/-- The digits by their code points. -/
theorem isDigit_iff {c : Char} : c.isDigit ↔ 48 ≤ c.toNat ∧ c.toNat ≤ 57 :=
  Char.isDigit_iff_toNat

/-- Letters and digits are what words are joined of. -/
theorem isJoinable_iff {c : Char} : isJoinable c ↔
    48 ≤ c.toNat ∧ c.toNat ≤ 57 ∨ 65 ≤ c.toNat ∧ c.toNat ≤ 90 ∨
      97 ≤ c.toNat ∧ c.toNat ≤ 122 := by
  change ((c.isUpper || c.isLower) || c.isDigit) = true ↔ _
  rw [Bool.or_eq_true, Bool.or_eq_true, isUpper_iff, isLower_iff, isDigit_iff]
  omega

/-- No small letter is a character before or behind these. -/
theorem isLower_eq_false_iff {c : Char} : c.isLower = false ↔ c.toNat < 97 ∨ 122 < c.toNat := by
  rw [← Bool.not_eq_true, isLower_iff]
  omega

/-- A small letter is moved to the capital one, and no other character is moved. -/
theorem toNat_toUpper (c : Char) :
    c.toUpper.toNat = if 97 ≤ c.toNat ∧ c.toNat ≤ 122 then c.toNat - 32 else c.toNat := by
  unfold Char.toUpper
  simp only [UInt32.le_iff_toNat_le]
  split
  · next small =>
      change 97 ≤ c.toNat ∧ c.toNat ≤ 122 at small
      rw [if_pos small, Char.toNat_mk, UInt32.toNat_add]
      change (c.toNat + 4294967264) % 4294967296 = c.toNat - 32
      omega
  · next other => exact (if_neg other).symm

/-- Digits may stand in a joined word. -/
theorem isJoinable_of_isDigit {c : Char} (digit : c.isDigit) : isJoinable c := by
  simp [isJoinable, Char.isAlphanum, digit]

/-! ## Texts after a name -/

/-- A text that may be put after a name: ASCII letters and digits, no small letter in front. -/
structure IsTail (cs : List Char) : Prop where
  joinable : ∀ c ∈ cs, isJoinable c
  begins : ∀ c ∈ cs.head?, c.isLower = false

/-- A text is a tail if the test for it says so. -/
theorem isTail_iff {cs : List Char} :
    (cs.all isJoinable && cs.head?.all fun c => !c.isLower) ↔ IsTail cs := by
  simp only [Bool.and_eq_true, List.all_eq_true, Option.all_eq_true, Bool.not_eq_true']
  exact ⟨fun both => ⟨both.1, both.2⟩, fun isTail => ⟨isTail.joinable, isTail.begins⟩⟩

instance (cs : List Char) : Decidable (IsTail cs) :=
  decidable_of_iff _ isTail_iff

/-- Tails put together are a tail. -/
theorem IsTail.append {first second : List Char} (before : IsTail first) (after : IsTail second) :
    IsTail (first ++ second) where
  joinable c member :=
    (List.mem_append.mp member).elim (before.joinable c) (after.joinable c)
  begins := by
    cases first with
    | nil => exact after.begins
    | cons c rest => exact before.begins

/-- A number is a tail. -/
theorem isTail_digits (number : Nat) : IsTail (Nat.toDigits 10 number) where
  joinable c member := isJoinable_of_isDigit (isDigit_of_mem_digits member)
  begins c member := by
    have digit := isDigit_of_mem_digits (List.mem_of_mem_head? member)
    have bounds := isDigit_iff.mp digit
    exact isLower_eq_false_iff.mpr (.inl (by omega))

/-- A word with a capital at its front is a tail. -/
theorem isTail_joined (cs : List Char) : IsTail (joined true cs) where
  joinable := by
    suffices each : ∀ fresh, ∀ c ∈ joined fresh cs, isJoinable c from each true
    induction cs with
    | nil => exact fun fresh c none => absurd none List.not_mem_nil
    | cons first rest ih =>
        intro fresh c member
        rw [joined] at member
        split at member
        · next joinable =>
            rcases List.mem_cons.mp member with rfl | later
            · split
              · rw [isJoinable_iff, toNat_toUpper]
                have bounds := isJoinable_iff.mp joinable
                split <;> omega
              · exact joinable
            · exact ih false c later
        · exact ih true c member
  begins := by
    induction cs with
    | nil =>
        rintro c ⟨⟩
    | cons first rest ih =>
        rw [joined]
        split
        · rintro c ⟨⟩
          rw [if_pos rfl, isLower_eq_false_iff, toNat_toUpper]
          split <;> omega
        · exact ih

/-- A name is another one with such a text after it. -/
def Continues (longer name : String) : Prop :=
  ∃ tail, longer.toList = name.toList ++ tail ∧ IsTail tail

namespace Continues

variable {name longer longest : String}

/-- A name goes on from itself. -/
theorem refl (name : String) : Continues name name :=
  ⟨[], (List.append_nil _).symm,
    fun _ none => absurd none List.not_mem_nil, fun _ none => nomatch none⟩

/-- Going on twice is going on. -/
theorem trans (after : Continues longest longer) (before : Continues longer name) :
    Continues longest name := by
  obtain ⟨more, spelled, isTail⟩ := after
  obtain ⟨tail, same, isTailBefore⟩ := before
  exact ⟨tail ++ more, by rw [spelled, same, List.append_assoc], isTailBefore.append isTail⟩

/-- A name goes on when a tail is added to it. -/
theorem append {word : String} (isTail : IsTail word.toList) : Continues (name ++ word) name :=
  ⟨word.toList, String.toList_append, isTail⟩

/-- A numbered name goes on from the name. -/
theorem numbered (name : String) (number : Nat) :
    Continues (Identifier.numbered name number) name :=
  ⟨_, toList_numbered name number, isTail_digits number⟩

/-- A nested name goes on from the name around it. -/
theorem pascalCase (name key : String) : Continues (name ++ Identifier.pascalCase key) name :=
  append (by rw [Identifier.pascalCase, String.toList_ofList]; exact isTail_joined key.toList)

/-- A search among numbered names finds one, or nothing is found and the name itself is taken. -/
theorem firstNumbered (free : String → Bool) (name : String) (tries : Nat) :
    Continues ((firstNumbered? free name tries).getD name) name := by
  cases found : firstNumbered? free name tries with
  | none => exact refl name
  | some other =>
      obtain ⟨number, _, rfl⟩ := List.mem_map.mp (List.mem_of_find?_eq_some found)
      exact numbered name number

/-- A name that is made unique goes on from the name. -/
theorem unique (name : String) (taken : NameSet) :
    Continues (Identifier.unique name taken) name := by
  unfold Identifier.unique
  split
  · exact refl name
  · exact firstNumbered _ name _

end Continues

/-! ## Plain names -/

/-- A name is an identifier as it stands: it has word characters only, begins with neither an
underscore nor a digit, and is no reserved word. -/
structure Plain (name : String) : Prop where
  begins : ∃ first ∈ name.toList.head?, first ≠ '_' ∧ Text.isDigit first = false
  words : ∀ c ∈ name.toList, Text.isWord c
  free : name ∉ reservedWords

/-- The letters of the alphabet are among the letters. -/
theorem covers_of_letter {c : Char}
    (letter : 65 ≤ c.toNat ∧ c.toNat ≤ 90 ∨ 97 ≤ c.toNat ∧ c.toNat ≤ 122) :
    Text.letters.covers c.toNat := by
  unfold Text.letters Text.Ranges.covers Text.Ranges.covers
  split_ifs <;> first | rfl | omega

/-- What words are joined of stands in words. -/
theorem isWord_of_isJoinable {c : Char} (joinable : isJoinable c) : Text.isWord c := by
  rcases isJoinable_iff.mp joinable with digit | letter
  · have covered := covers_of_isDigit (isDigit_iff.mpr digit)
    simp [Text.isWord, Text.isNumeral, covered]
  · simp [Text.isWord, Text.isLetter, covers_of_letter letter]

namespace Plain

variable {name longer : String}

/-- A plain name is its own identifier. -/
theorem ofName_eq (plain : Plain name) : ofName name = name := by
  have kept := worded_of_words plain.words
  have same : unnumbered name.toList = name.toList := by
    obtain ⟨first, head, _, letter⟩ := plain.begins
    obtain ⟨rest, spelled⟩ := List.head?_eq_some_iff.mp head
    rw [spelled, unnumbered, if_neg (by simp [letter])]
  rw [ofName, kept, same, String.ofList_toList, if_neg plain.free]

/-- What continues a plain name is plain: reserved words have small letters after their first
character, and what continues a name does not begin with one. -/
theorem of_continues (plain : Plain name) (continues : Continues longer name) : Plain longer := by
  obtain ⟨tail, spelled, isTail⟩ := continues
  obtain ⟨first, head, begins⟩ := plain.begins
  obtain ⟨rest, same⟩ := List.head?_eq_some_iff.mp head
  refine ⟨⟨first, ?_, begins⟩, ?_, ?_⟩
  · rw [spelled, same]
    rfl
  · intro c member
    rw [spelled] at member
    rcases List.mem_append.mp member with before | after
    · exact plain.words c before
    · exact isWord_of_isJoinable (isTail.joinable c after)
  · intro reserved
    cases tail with
    | nil =>
        rw [List.append_nil, String.toList_inj] at spelled
        exact plain.free (spelled ▸ reserved)
    | cons c more =>
        have small : reservedWords.all fun word => word.toList.tail.all Char.isLower := by decide
        simp only [List.all_eq_true] at small
        have lower := small longer reserved c (by simp [spelled, same])
        rw [isTail.begins c rfl] at lower
        cases lower

end Plain

end OpenApi.Identifier
