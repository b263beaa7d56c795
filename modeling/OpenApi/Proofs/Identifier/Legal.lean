import OpenApi.Proofs.Identifier.Continued

/-!
# Identifiers of names

Three classes of characters meet when a name becomes an identifier: what is no word character is
replaced, a digit in front is preceded, and a text is legal if it begins and goes on as identifiers
do.  The identifier of a name is a fixed text (`ofName_ofName`): it has word characters only, no
digit in front, and is no reserved word.  But not every word character may stand in an identifier,
and not every letter may begin one.  So the identifier is legal exactly if the name has no such
character where it would matter (`isIdentifier_ofName_iff`).
-/

namespace OpenApi.Identifier

/-- Every word character of a name may stand in an identifier after its beginning. -/
def Continuable (name : String) : Prop :=
  ∀ c ∈ name.toList, Text.isWord c → Text.isIdentifierContinue c

/-- The word characters of a name may stand in an identifier, where they stand in it.  What is no
word character is replaced, and a digit in front is preceded by an underscore, so that the name may
have both. -/
structure Nameable (name : String) : Prop where
  continuable : Continuable name
  begins : ∀ c ∈ name.toList.head?, Text.isWord c → Text.isDigit c = false → Text.isIdentifierStart c

/-- The characters of a legal identifier, be it a reserved word or not. -/
structure Legal (cs : List Char) : Prop where
  begins : ∃ c ∈ cs.head?, Text.isIdentifierStart c
  continues : ∀ c ∈ cs, Text.isIdentifierContinue c

/-- What may start an identifier may go on in one. -/
theorem isIdentifierContinue_of_start {c : Char} (starts : Text.isIdentifierStart c) :
    Text.isIdentifierContinue c := by
  rw [Text.isIdentifierContinue, starts, Bool.true_or]

/-- A text is legal if its first character may start an identifier and the others go on in one. -/
theorem legal_cons_iff {first : Char} {rest : List Char} :
    Legal (first :: rest) ↔
      Text.isIdentifierStart first ∧ ∀ c ∈ rest, Text.isIdentifierContinue c := by
  constructor
  · intro legal
    obtain ⟨c, ⟨⟩, starts⟩ := legal.begins
    exact ⟨starts, fun c later => legal.continues c (List.mem_cons_of_mem _ later)⟩
  · rintro ⟨starts, continues⟩
    exact ⟨⟨first, rfl, starts⟩,
      List.forall_mem_cons.mpr ⟨isIdentifierContinue_of_start starts, continues⟩⟩

/-- A name is an identifier if it is legal and not reserved. -/
theorem isIdentifier_iff {name : String} :
    isIdentifier name ↔ Legal name.toList ∧ name ∉ reservedWords := by
  unfold isIdentifier
  split
  · next empty =>
      refine iff_of_false Bool.false_ne_true fun both => ?_
      obtain ⟨c, head, _⟩ := both.1.begins
      rw [empty] at head
      cases head
  · next first rest spelled =>
      rw [Bool.and_eq_true, Bool.and_eq_true, List.all_eq_true, decide_eq_true_iff, spelled,
        legal_cons_iff]

/-! ## Replaced characters -/

/-- The characters of a name after the first two steps: word characters, at least one, and no digit
in front. -/
structure Settled (cs : List Char) : Prop where
  words : ∀ c ∈ cs, Text.isWord c
  begins : ∃ c ∈ cs.head?, Text.isDigit c = false

/-- What is left of a text once it is worded are words. -/
theorem isWord_of_mem_worded {cs : List Char} {c : Char} (member : c ∈ worded cs) :
    Text.isWord c := by
  obtain ⟨original, _, rfl⟩ := List.mem_map.mp member
  split
  · assumption
  · decide

/-- A worded text with its digits guarded is settled. -/
theorem settled_unnumbered_worded (cs : List Char) : Settled (unnumbered (worded cs)) := by
  have words : ∀ c ∈ worded cs, Text.isWord c := fun c => isWord_of_mem_worded
  have underscore : Text.isWord '_' := by decide
  revert words
  cases worded cs with
  | nil =>
      exact fun words => ⟨List.forall_mem_cons.mpr ⟨underscore, words⟩, '_', rfl, by decide⟩
  | cons first rest =>
      intro words
      rw [unnumbered]
      split
      · exact ⟨List.forall_mem_cons.mpr ⟨underscore, words⟩, '_', rfl, by decide⟩
      · next letter => exact ⟨words, first, rfl, Bool.eq_false_iff.mpr letter⟩

/-- What is settled is not changed any more. -/
theorem Settled.unnumbered_worded {cs : List Char} (settled : Settled cs) :
    unnumbered (worded cs) = cs := by
  obtain ⟨first, head, letter⟩ := settled.begins
  obtain ⟨rest, rfl⟩ := List.head?_eq_some_iff.mp head
  rw [worded_of_words settled.words, unnumbered, if_neg (by simp [letter])]

/-- An underscore at the end keeps a text settled. -/
theorem Settled.append_underscore {cs : List Char} (settled : Settled cs) :
    Settled (cs ++ ['_']) where
  words c member := by
    rcases List.mem_append.mp member with before | last
    · exact settled.words c before
    · exact List.mem_singleton.mp last ▸ by decide
  begins := by
    obtain ⟨first, head, letter⟩ := settled.begins
    obtain ⟨rest, rfl⟩ := List.head?_eq_some_iff.mp head
    exact ⟨first, rfl, letter⟩

/-! ## Reserved words -/

/-- No reserved word ends in an underscore. -/
theorem append_underscore_not_reserved {identifier : String} (reserved : identifier ∈ reservedWords) :
    identifier ++ "_" ∉ reservedWords := by
  revert identifier
  decide

/-- No identifier of a name is reserved. -/
theorem ofName_not_reserved (name : String) : ofName name ∉ reservedWords := by
  unfold ofName
  dsimp only
  split
  · next reserved => exact append_underscore_not_reserved reserved
  · assumption

/-- An identifier has the settled characters of the name, perhaps with an underscore after them. -/
theorem toList_ofName (name : String) :
    (ofName name).toList = unnumbered (worded name.toList) ∨
      (ofName name).toList = unnumbered (worded name.toList) ++ ['_'] := by
  unfold ofName
  dsimp only
  split
  · right
    rw [String.toList_append, String.toList_ofList]
    rfl
  · left
    rw [String.toList_ofList]

/-- The identifier of a name is settled. -/
theorem settled_ofName (name : String) : Settled (ofName name).toList := by
  have settled := settled_unnumbered_worded name.toList
  rcases toList_ofName name with same | longer
  · exact same ▸ settled
  · exact longer ▸ settled.append_underscore

/-- The identifier of an identifier is the same one. -/
theorem ofName_ofName (name : String) : ofName (ofName name) = ofName name := by
  rw [ofName, (settled_ofName name).unnumbered_worded, String.ofList_toList]
  exact if_neg (ofName_not_reserved name)

/-! ## Legal identifiers -/

/-- An underscore at the end makes nothing legal or illegal. -/
theorem legal_append_underscore_iff {cs : List Char} (something : cs ≠ []) :
    Legal (cs ++ ['_']) ↔ Legal cs := by
  obtain ⟨first, rest, rfl⟩ := List.exists_cons_of_ne_nil something
  constructor
  · intro legal
    exact ⟨legal.begins, fun c member => legal.continues c (List.mem_append_left _ member)⟩
  · intro legal
    refine ⟨legal.begins, fun c member => ?_⟩
    rcases List.mem_append.mp member with before | last
    · exact legal.continues c before
    · exact List.mem_singleton.mp last ▸ by decide

/-- Replaced characters may stand anywhere after the beginning. -/
theorem continues_worded_iff {name : String} :
    (∀ c ∈ worded name.toList, Text.isIdentifierContinue c) ↔ Continuable name := by
  rw [worded, List.forall_mem_map]
  refine forall₂_congr fun c _ => ?_
  split
  · next word => exact ⟨fun continues _ => continues, fun continues => continues word⟩
  · next other => exact iff_of_true (by decide) fun word => absurd word other

/-- They may stand in front, too. -/
theorem nameable_iff_worded {name : String} :
    Nameable name ↔ (∀ c ∈ worded name.toList, Text.isIdentifierContinue c) ∧
      ∀ c ∈ (worded name.toList).head?, Text.isDigit c = false → Text.isIdentifierStart c := by
  have front : (∀ c ∈ (worded name.toList).head?, Text.isDigit c = false →
      Text.isIdentifierStart c) ↔ ∀ c ∈ name.toList.head?, Text.isWord c →
        Text.isDigit c = false → Text.isIdentifierStart c := by
    rw [worded, List.head?_map, Option.forall_mem_map]
    refine forall₂_congr fun c _ => ?_
    split
    · next word => exact ⟨fun begins _ => begins, fun begins => begins word⟩
    · next other => exact iff_of_true (by decide) fun word => absurd word other
  rw [continues_worded_iff, front]
  exact ⟨fun nameable => ⟨nameable.1, nameable.2⟩, fun both => ⟨both.1, both.2⟩⟩

/-- Word characters are legal behind the underscore if need be exactly if each may go on, and the
first may begin unless it is a digit. -/
theorem legal_unnumbered_iff {cs : List Char} :
    Legal (unnumbered cs) ↔ (∀ c ∈ cs, Text.isIdentifierContinue c) ∧
      ∀ c ∈ cs.head?, Text.isDigit c = false → Text.isIdentifierStart c := by
  have underscore : Text.isIdentifierStart '_' := by decide
  cases cs with
  | nil =>
      have nothing : ∀ c ∈ ([] : List Char), Text.isIdentifierContinue c :=
        fun c none => absurd none List.not_mem_nil
      refine iff_of_true (legal_cons_iff.mpr ⟨underscore, nothing⟩) ⟨nothing, ?_⟩
      rintro c ⟨⟩
  | cons first rest =>
      rw [unnumbered]
      split
      · next digit =>
          rw [legal_cons_iff, and_iff_right underscore, iff_self_and]
          rintro continues c ⟨⟩ letter
          exact absurd digit (Bool.eq_false_iff.mp letter)
      · next letter =>
          rw [legal_cons_iff]
          constructor
          · rintro ⟨starts, continues⟩
            refine ⟨List.forall_mem_cons.mpr ⟨isIdentifierContinue_of_start starts, continues⟩, ?_⟩
            rintro c ⟨⟩ _
            exact starts
          · rintro ⟨continues, begins⟩
            exact ⟨begins first rfl (Bool.eq_false_iff.mpr letter),
              fun c later => continues c (List.mem_cons_of_mem _ later)⟩

/-- The identifier of a name is legal exactly if the name has no word character where identifiers
may not have it. -/
theorem isIdentifier_ofName_iff (name : String) : isIdentifier (ofName name) ↔ Nameable name := by
  have something : unnumbered (worded name.toList) ≠ [] := by
    obtain ⟨c, head, _⟩ := (settled_unnumbered_worded name.toList).begins
    exact fun empty => by simp [empty] at head
  rw [isIdentifier_iff, and_iff_left (ofName_not_reserved name), nameable_iff_worded,
    ← legal_unnumbered_iff]
  rcases toList_ofName name with same | longer
  · rw [same]
  · rw [longer, legal_append_underscore_iff something]

/-- Behind an underscore only the word characters of the name matter, not the first of them. -/
theorem continues_ofName_iff {name : String} :
    (∀ c ∈ (ofName name).toList, Text.isIdentifierContinue c) ↔ Continuable name := by
  have underscore : Text.isIdentifierContinue '_' := by decide
  have settled : (∀ c ∈ unnumbered (worded name.toList), Text.isIdentifierContinue c) ↔
      Continuable name := by
    rw [← continues_worded_iff]
    unfold unnumbered
    split
    · next empty => exact iff_of_true (by simpa using underscore) (by rw [empty]; simp)
    · split
      · rw [List.forall_mem_cons, and_iff_right underscore]
      · rfl
  rcases toList_ofName name with same | longer
  · rw [same, settled]
  · rw [longer, List.forall_mem_append, settled]
    exact and_iff_left (by simpa using underscore)

/-! ## Continued names -/

/-- The letters of the alphabet may start an identifier. -/
theorem isIdentifierStart_of_letter {c : Char}
    (letter : 65 ≤ c.toNat ∧ c.toNat ≤ 90 ∨ 97 ≤ c.toNat ∧ c.toNat ≤ 122) :
    Text.isIdentifierStart c := by
  have covered := covers_of_letter letter
  have begins : Text.lettersNotStarting.covers c.toNat = false := by
    unfold Text.lettersNotStarting Text.Ranges.covers
    rw [if_pos (by omega)]
  simp [Text.isIdentifierStart, Text.isLetter, covered, begins]

/-- Digits may go on in one. -/
theorem isIdentifierContinue_of_isDigit {c : Char} (digit : 48 ≤ c.toNat ∧ c.toNat ≤ 57) :
    Text.isIdentifierContinue c := by
  have covered : Text.continuing.covers c.toNat := by
    unfold Text.continuing Text.Ranges.covers
    rw [if_neg (by omega), if_pos digit.2]
  simp [Text.isIdentifierContinue, covered]

/-- What words are joined of may go on in one. -/
theorem isIdentifierContinue_of_isJoinable {c : Char} (joinable : isJoinable c) :
    Text.isIdentifierContinue c := by
  rcases isJoinable_iff.mp joinable with digit | letter
  · exact isIdentifierContinue_of_isDigit digit
  · exact isIdentifierContinue_of_start (isIdentifierStart_of_letter letter)

/-- A name that goes on from another one can be continued exactly if that one can. -/
theorem continuable_iff_of_continues {longer name : String} (continued : Continues longer name) :
    Continuable longer ↔ Continuable name := by
  obtain ⟨tail, spelled, isTail⟩ := continued
  rw [Continuable, spelled, List.forall_mem_append]
  exact and_iff_left fun c after _ => isIdentifierContinue_of_isJoinable (isTail.joinable c after)

/-- What continues a name may be named exactly if the name may. -/
theorem nameable_iff_of_continues {longer name : String} (continued : Continues longer name) :
    Nameable longer ↔ Nameable name := by
  have continuable := continuable_iff_of_continues continued
  obtain ⟨tail, spelled, isTail⟩ := continued
  constructor
  · intro nameable
    refine ⟨continuable.mp nameable.continuable, fun c head => ?_⟩
    obtain ⟨rest, same⟩ := List.head?_eq_some_iff.mp head
    exact nameable.begins c (by rw [spelled, same]; rfl)
  · intro nameable
    refine ⟨continuable.mpr nameable.continuable, fun c head word letter => ?_⟩
    rw [spelled] at head
    cases same : name.toList with
    | cons first rest =>
        rw [same] at head
        exact nameable.begins c (by rw [same]; exact head) word letter
    | nil =>
        -- A name without characters begins as its tail does, with an ASCII letter or a digit.
        rw [same] at head
        have joinable := isTail.joinable c (List.mem_of_mem_head? head)
        rcases isJoinable_iff.mp joinable with digit | asciiLetter
        · rw [Text.isDigit, covers_of_isDigit (isDigit_iff.mpr digit)] at letter
          cases letter
        · exact isIdentifierStart_of_letter asciiLetter

end OpenApi.Identifier
