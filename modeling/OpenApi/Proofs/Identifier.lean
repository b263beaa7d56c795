import Mathlib.Order.Interval.Finset.Nat
import Std.Data.String.ToNat
import OpenApi.Identifier

/-!
# Free names

Different numbers make different names, so among more numbers than there are names in the way one is
free.  The search for a numbered name therefore comes to an end, and the name that it gives is free.
A number at the end of a name is kept when the name becomes an identifier.
-/

namespace OpenApi.Identifier

theorem toList_numbered (name : String) (number : Nat) :
    (numbered name number).toList = name.toList ++ Nat.toDigits 10 number := by
  rw [numbered, String.toList_append]
  exact congrArg (name.toList ++ ·) Nat.toList_repr

/-- Different numbers make different names. -/
theorem numbered_injective (name : String) : Function.Injective (numbered name) := by
  intro first second same
  have digits := congrArg String.toList same
  rw [toList_numbered, toList_numbered] at digits
  apply Nat.repr_injective
  rw [← String.toList_inj, Nat.toList_repr, Nat.toList_repr]
  exact List.append_cancel_left digits

/-- Where each number that is not free is blocked by something of its own, and there are more
numbers to try than blockers, a free name is found. -/
theorem exists_firstNumbered? {κ : Type} {free : String → Bool} {name : String} {tries : Nat}
    (blockers : Finset κ) (few : blockers.card < tries) (blocks : Nat → κ → Prop)
    (blocked : ∀ number, free (numbered name number) = false →
      ∃ blocker ∈ blockers, blocks number blocker)
    (apart : ∀ first second blocker, blocks first blocker → blocks second blocker →
      first = second) :
    ∃ found, firstNumbered? free name tries = some found ∧ free found := by
  suffices some : (firstNumbered? free name tries).isSome by
    obtain ⟨found, search⟩ := Option.isSome_iff_exists.mp some
    exact ⟨found, search, List.find?_some search⟩
  by_contra nothing
  have stuck (number : Nat) (tried : number ∈ Finset.Ico 2 (2 + tries)) :
      ∃ blocker ∈ blockers, blocks number blocker := by
    refine blocked number (Bool.eq_false_iff.mpr fun isFree => nothing ?_)
    rw [firstNumbered?, List.find?_isSome]
    refine ⟨numbered name number, List.mem_map_of_mem (List.mem_range'_1.mpr ?_), isFree⟩
    exact Finset.mem_Ico.mp tried
  have : Nonempty κ := by
    obtain ⟨blocker, rest⟩ := stuck 2 (Finset.mem_Ico.mpr (by omega))
    exact ⟨blocker⟩
  choose! blocker held stands using stuck
  have more : blockers.card < (Finset.Ico 2 (2 + tries)).card := by simpa using few
  obtain ⟨first, firstTried, second, secondTried, differ, same⟩ :=
    Finset.exists_ne_map_eq_of_card_lt_of_maps_to more held
  exact differ (apart first second _ (stands first firstTried)
    (same ▸ stands second secondTried))

/-- The search for a numbered name finds the least number that makes the name free. -/
theorem least_of_firstNumbered? {free : String → Bool} {name found : String} {tries : Nat}
    (search : firstNumbered? free name tries = some found) :
    ∃ number, 2 ≤ number ∧ found = numbered name number ∧ free found ∧
      ∀ smaller, 2 ≤ smaller → smaller < number → free (numbered name smaller) = false := by
  rw [firstNumbered?, List.find?_map, Option.map_eq_some_iff] at search
  obtain ⟨number, first, rfl⟩ := search
  obtain ⟨isFree, within, before⟩ := List.find?_range'_eq_some.mp first
  refine ⟨number, (List.mem_range'_1.mp within).1, rfl, isFree, fun smaller from2 below => ?_⟩
  simpa using before smaller from2 below

/-- Among one more number than there are taken names, one makes the name free. -/
theorem exists_unused (name : String) (taken : NameSet) :
    ∃ found, firstNumbered? (fun other => other ∉ taken) name (taken.toList.length + 1) =
      some found ∧ found ∉ taken := by
  have search : ∃ found, firstNumbered? (fun other => other ∉ taken) name
      (taken.toList.length + 1) = some found ∧ decide (found ∉ taken) := by
    refine exists_firstNumbered? taken.toList.toFinset
      (Nat.lt_succ_of_le (List.toFinset_card_le _))
      (fun number other => other = numbered name number) ?_ ?_
    · intro number blocked
      exact ⟨numbered name number, by simpa using blocked, rfl⟩
    · intro first second other one two
      exact numbered_injective name (one.symm.trans two)
  obtain ⟨found, search, free⟩ := search
  exact ⟨found, search, of_decide_eq_true free⟩

/-- A name that was made unique is not taken. -/
theorem unique_not_mem (name : String) (taken : NameSet) : unique name taken ∉ taken := by
  unfold unique
  split
  · next free => exact free
  · obtain ⟨found, search, free⟩ := exists_unused name taken
    rw [search, Option.getD_some]
    exact free

/-! ## Numbered identifiers -/

theorem isDigit_of_mem_digits {number : Nat} {c : Char} (member : c ∈ Nat.toDigits 10 number) :
    c.isDigit :=
  Nat.isDigit_of_mem_toDigits (by decide) (by decide) member

theorem covers_of_isDigit {c : Char} (digit : c.isDigit) : Text.decimalDigits.covers c.toNat := by
  have bounds : 48 ≤ c.toNat ∧ c.toNat ≤ 57 := by
    simpa [Char.isDigit, UInt32.le_iff_toNat_le] using digit
  unfold Text.decimalDigits Text.Ranges.covers
  rw [if_neg (by omega), if_pos bounds.2]

/-- Word characters are not replaced. -/
theorem worded_of_words {cs : List Char} (words : ∀ c ∈ cs, Text.isWord c) : worded cs = cs :=
  (List.map_congr_left fun c member => if_pos (words c member)).trans (List.map_id _)

theorem worded_digits (number : Nat) :
    worded (Nat.toDigits 10 number) = Nat.toDigits 10 number := by
  refine worded_of_words fun c member => ?_
  have covered := covers_of_isDigit (isDigit_of_mem_digits member)
  simp [Text.isWord, Text.isNumeral, covered]

/-- Digits at the end do not change what is put in front: a text of digits alone gets an underscore,
as an empty text does. -/
theorem unnumbered_append_digits (cs : List Char) (number : Nat) :
    unnumbered (cs ++ Nat.toDigits 10 number) = unnumbered cs ++ Nat.toDigits 10 number := by
  cases cs with
  | cons c rest =>
      simp only [List.cons_append, unnumbered]
      split <;> rfl
  | nil =>
      have digits := @isDigit_of_mem_digits number
      cases written : Nat.toDigits 10 number with
      | nil => simp at written
      | cons digit rest =>
          have covered := covers_of_isDigit (digits (written ▸ List.mem_cons_self))
          simp [unnumbered, Text.isDigit, covered]

theorem unnumbered_append_of_ne_nil {cs : List Char} (something : cs ≠ []) (rest : List Char) :
    unnumbered (cs ++ rest) = unnumbered cs ++ rest := by
  cases cs with
  | nil => exact absurd rfl something
  | cons c cs =>
      simp only [List.cons_append, unnumbered]
      split <;> rfl

/-- No reserved word has a digit. -/
theorem not_reserved_of_digit {identifier : String} {digit : Char}
    (member : digit ∈ identifier.toList) (isDigit : digit.isDigit) :
    identifier ∉ reservedWords := by
  intro reserved
  have lettersOnly : reservedWords.all fun word => word.toList.all fun c => !c.isDigit := by decide
  simp only [List.all_eq_true, Bool.not_eq_true'] at lettersOnly
  have letter := lettersOnly _ reserved digit member
  rw [isDigit] at letter
  cases letter

/-- The identifier of a numbered name with something after it is numbered at the same place. -/
theorem ofName_numbered_append (name suffix : String) (number : Nat) :
    ofName (numbered name number ++ suffix) =
      numbered (String.ofList (unnumbered (worded name.toList))) number ++
        String.ofList (worded suffix.toList) := by
  have spelled : String.ofList (unnumbered (worded (numbered name number ++ suffix).toList)) =
      numbered (String.ofList (unnumbered (worded name.toList))) number ++
        String.ofList (worded suffix.toList) := by
    have digits : worded name.toList ++ Nat.toDigits 10 number ≠ [] := by simp
    rw [← String.toList_inj, String.toList_append, toList_numbered, String.toList_append,
      toList_numbered, String.toList_ofList, String.toList_ofList, String.toList_ofList, worded,
      List.map_append, List.map_append, ← worded, ← worded, ← worded, worded_digits,
      unnumbered_append_of_ne_nil digits, unnumbered_append_digits]
  obtain ⟨digit, member⟩ := List.exists_mem_of_ne_nil (Nat.toDigits 10 number) (by simp)
  rw [ofName, spelled, if_neg (not_reserved_of_digit ?_ (isDigit_of_mem_digits member))]
  rw [String.toList_append, toList_numbered]
  exact List.mem_append_left _ (List.mem_append_right _ member)

/-- The identifier of a numbered name is numbered likewise. -/
theorem ofName_numbered (name : String) (number : Nat) :
    ofName (numbered name number) =
      numbered (String.ofList (unnumbered (worded name.toList))) number := by
  simpa [worded] using ofName_numbered_append name "" number

/-! ## Numbered words -/

theorem toUpper_of_isDigit {c : Char} (digit : c.isDigit) : c.toUpper = c := by
  have bound : c.val.toNat ≤ 57 := by
    simp only [Char.isDigit, ge_iff_le, Bool.and_eq_true, decide_eq_true_eq] at digit
    exact UInt32.le_iff_toNat_le.mp digit.2
  unfold Char.toUpper
  split
  · next small =>
      have above : 97 ≤ c.val.toNat := UInt32.le_iff_toNat_le.mp small.1
      omega
  · rfl

theorem toLower_of_isDigit {c : Char} (digit : c.isDigit) : c.toLower = c := by
  have bound : c.val.toNat ≤ 57 := by
    simp only [Char.isDigit, ge_iff_le, Bool.and_eq_true, decide_eq_true_eq] at digit
    exact UInt32.le_iff_toNat_le.mp digit.2
  unfold Char.toLower
  split
  · next capital =>
      have above : 65 ≤ c.val.toNat := UInt32.le_iff_toNat_le.mp capital.1
      omega
  · rfl

/-- Digits after a text stay as they are when its words are joined. -/
theorem joined_append_digits {digits : List Char} (each : ∀ c ∈ digits, c.isDigit) (fresh : Bool)
    (cs : List Char) : joined fresh (cs ++ digits) = joined fresh cs ++ digits := by
  induction cs generalizing fresh with
  | nil =>
      induction digits generalizing fresh with
      | nil => rfl
      | cons digit rest ih =>
          have isDigit := each digit List.mem_cons_self
          have later := ih (fun c member => each c (List.mem_cons_of_mem _ member)) false
          rw [List.nil_append] at later ⊢
          simp only [joined, isJoinable, Char.isAlphanum, isDigit, Bool.or_true, if_true,
            toUpper_of_isDigit isDigit, ite_self, later, List.nil_append]
  | cons c rest ih =>
      rw [List.cons_append, joined, joined]
      split
      · rw [ih, List.cons_append]
      · exact ih true

/-- Digits behind a name stay when its first letter is made small. -/
theorem lowerFirst_append_digits {digits : List Char} (each : ∀ c ∈ digits, c.isDigit)
    (cs : List Char) : lowerFirst (cs ++ digits) = lowerFirst cs ++ digits := by
  cases cs with
  | cons c rest => rfl
  | nil =>
      cases digits with
      | nil => rfl
      | cons digit rest =>
          exact congrArg (· :: rest) (toLower_of_isDigit (each digit List.mem_cons_self))

/-- The joined words of a numbered name are numbered likewise. -/
theorem camelCase_numbered (name : String) (number : Nat) :
    camelCase (numbered name number) = numbered (camelCase name) number := by
  have digits := @isDigit_of_mem_digits number
  rw [← String.toList_inj, toList_numbered, camelCase, camelCase, String.toList_ofList,
    String.toList_ofList, toList_numbered, joined_append_digits (fun _ => digits),
    lowerFirst_append_digits (fun _ => digits)]

end OpenApi.Identifier
