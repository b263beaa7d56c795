import Mathlib.Data.List.Forall2
import Mathlib.Data.List.TakeWhile
import OpenApi.Loading
import OpenApi.Proofs.Json.Scalars
import OpenApi.Proofs.Keyed.Merging

/-!
# Written values read back

A value whose mappings have different texts as keys, and whose scalars are texts, truth values,
null, and whole numbers that are not too long, is read back from its JSON text.  What a text writes
is said for any place where it may stand (`Json.Writes`): whatever follows, unless a number would go
on, the value is read and nothing else is.  With this the texts of lists and mappings are put
together from those of their parts, whichever spaces stand between them.
-/

namespace OpenApi

/-- The values that a JSON text keeps: their keys are texts and differ within each mapping, and
their whole numbers can be written. -/
inductive Value.IsJson : Value → Prop
  | null : IsJson .null
  | bool (truth : Bool) : IsJson (.bool truth)
  | int {number : Int} (writable : Decimal.isWritable number) : IsJson (.int number)
  | text (content : String) : IsJson (.text content)
  | list {items : List Value} (each : ∀ item ∈ items, IsJson item) : IsJson (.list items)
  | map {entries : Mapping} (named : ∀ entry ∈ entries, ∃ name, entry.1 = .text name)
      (once : (entries.map Prod.fst).Nodup) (each : ∀ entry ∈ entries, IsJson entry.2) :
      IsJson (.map entries)

namespace Json

/-- A text writes a value: wherever it stands, unless a number would go on after it, the value is
read from it and nothing else is.  It begins with the value itself. -/
structure Writes (cs : List Char) (value : Value) : Prop where
  starts : ∃ first more, cs = first :: more ∧ isSpace first = false ∧ first ≠ ']' ∧
    first ≠ '\ufeff'
  reads : ∀ {fuel rest}, cs.length ≤ fuel → EndsNumber rest →
    readValue fuel (cs ++ rest) = .ok (value, rest)

variable {cs gap close rest : List Char} {value : Value} {plain : Char → Bool}

/-- A number ends before what can be no part of one. -/
theorem endsNumber_cons {c : Char}
    (ends : c.isDigit = false ∧ c ≠ '.' ∧ c ≠ 'e' ∧ c ≠ 'E') : EndsNumber (c :: rest) := by
  rintro _ ⟨⟩
  exact ends

/-- No number goes on in spaces. -/
theorem endsNumber_append (spaces : ∀ c ∈ gap, isSpace c) (ends : EndsNumber rest) :
    EndsNumber (gap ++ rest) := by
  cases gap with
  | nil => exact ends
  | cons c more =>
      have space := spaces c List.mem_cons_self
      apply endsNumber_cons
      simp only [isSpace, Bool.or_eq_true, beq_iff_eq] at space
      rcases space with ((rfl | rfl) | rfl) | rfl <;> decide

/-- Spaces are skipped up to what is none. -/
theorem skipSpaces_append {c : Char} (spaces : ∀ c ∈ gap, isSpace c) (stops : isSpace c = false) :
    skipSpaces (gap ++ c :: rest) = c :: rest := by
  rw [skipSpaces, List.dropWhile_append_of_pos spaces, List.dropWhile_cons, stops]
  rfl

/-! ## Scalars -/

/-- A digit is no other character. -/
theorem ne_of_isDigit {c other : Char} (digit : c.isDigit) (noDigit : other.isDigit = false) :
    c ≠ other := by
  rintro rfl
  rw [noDigit] at digit
  cases digit

/-- A value is read as a number if it begins with a digit, perhaps after a sign. -/
theorem readValue_eq_readNumber {negative : Bool} {c : Char} {fuel : Nat} (digit : c.isDigit) :
    readValue (fuel + 1) (signText negative ++ c :: rest) =
      readNumber (signText negative ++ c :: rest) := by
  cases negative with
  | true =>
      have notInfinity : c ≠ 'I' := ne_of_isDigit digit rfl
      rw [signText, if_pos rfl, List.singleton_append, readValue]
      all_goals simp [notInfinity]
  | false =>
      -- What is tried before a number begins with no digit.
      rw [signText, if_neg Bool.false_ne_true, List.nil_append, readValue]
      all_goals exact fun _ same => ne_of_isDigit digit (by decide) (List.cons.inj same).1

/-- A whole number is written as digits, perhaps after a sign. -/
theorem exists_digit (number : Int) : ∃ c more, c.isDigit ∧
    (toString number).toList = signText (decide (number < 0)) ++ c :: more := by
  have digits : ∀ c ∈ Nat.toDigits 10 number.natAbs, c.isDigit := fun c member =>
    Nat.isDigit_of_mem_toDigits (by decide) (by decide) member
  rw [toList_toString_int]
  cases written : Nat.toDigits 10 number.natAbs with
  | nil => exact absurd written Nat.toDigits_ne_nil
  | cons c more => exact ⟨c, more, digits c (written ▸ List.mem_cons_self), rfl⟩

/-- A whole number writes itself, unless it has too many digits. -/
theorem writes_int {number : Int} (writable : Decimal.isWritable number) :
    Writes (toString number).toList (.int number) where
  starts := by
    obtain ⟨c, more, digit, written⟩ := exists_digit number
    rw [written, signText]
    split
    · exact ⟨'-', c :: more, rfl, by decide⟩
    · refine ⟨c, more, rfl, ?_, ne_of_isDigit digit rfl, ne_of_isDigit digit rfl⟩
      have stops : c ≠ ' ' ∧ c ≠ '\t' ∧ c ≠ '\n' ∧ c ≠ '\r' :=
        ⟨ne_of_isDigit digit rfl, ne_of_isDigit digit rfl, ne_of_isDigit digit rfl,
          ne_of_isDigit digit rfl⟩
      simp [isSpace, stops]
  reads {fuel rest} enough ends := by
    obtain ⟨c, more, digit, written⟩ := exists_digit number
    rw [← readNumber_int writable ends]
    rw [written] at enough ⊢
    cases fuel with
    | zero => simp at enough
    | succ fuel =>
        rw [List.append_assoc, List.cons_append]
        exact readValue_eq_readNumber digit

/-- The characters of a quoted text. -/
theorem toList_quotedBy (content : String) : (Text.quotedBy plain content).toList =
    '"' :: (content.toList.flatMap (Text.escapeChar plain) ++ ['"']) := by
  rw [Text.quotedBy, String.toList_ofList]

/-- A quoted text writes the text, if control characters are escaped. -/
theorem writes_text (visible : ∀ c, plain c → 32 ≤ c.toNat) (content : String) :
    Writes (Text.quotedBy plain content).toList (.text content) where
  starts := ⟨'"', _, toList_quotedBy content, rfl, by decide⟩
  reads {fuel rest} enough ends := by
    have written := length_le_flatMap plain content.toList
    rw [toList_quotedBy] at enough ⊢
    simp only [List.length_cons, List.length_append, List.length_nil] at enough
    obtain ⟨fuel, rfl⟩ : ∃ less, fuel = less + 1 := ⟨fuel - 1, by omega⟩
    rw [List.cons_append, List.append_assoc, List.singleton_append, readValue,
      readText_flatMap visible (by omega)]
    rfl

/-- A word is read wherever it stands. -/
theorem writes_word {first : Char} {more : List Char} (word : cs = first :: more)
    (stops : isSpace first = false ∧ first ≠ ']' ∧ first ≠ '\ufeff')
    (reads : ∀ fuel rest, readValue (fuel + 1) (first :: more ++ rest) = .ok (value, rest)) :
    Writes cs value where
  starts := ⟨first, more, word, stops⟩
  reads {fuel rest} enough _ := by
    subst word
    cases fuel with
    | zero => cases enough
    | succ fuel => exact reads fuel rest

/-- A scalar writes itself. -/
theorem writes_scalar (visible : ∀ c, plain c → 32 ≤ c.toNat) {content : Scalar}
    (json : (Value.scalar content).IsJson) :
    Writes (scalarText (Text.quotedBy plain) content).toList (.scalar content) := by
  cases json with
  | null =>
      have word : "null".toList = ['n', 'u', 'l', 'l'] := rfl
      exact writes_word word (by decide) fun _ _ => rfl
  | bool truth =>
      cases truth with
      | true =>
          have word : "true".toList = ['t', 'r', 'u', 'e'] := rfl
          exact writes_word word (by decide) fun _ _ => rfl
      | false =>
          have word : "false".toList = ['f', 'a', 'l', 's', 'e'] := rfl
          exact writes_word word (by decide) fun _ _ => rfl
  | int writable => exact writes_int writable
  | text content => exact writes_text visible content

/-! ## Parts between commas -/

/-- A reader of parts that stand between commas.  What a part writes is read from it, and then either
the closing character follows, or a comma after which the reader goes on. -/
structure ReadsParts {α : Type} (closing : Char) (part : List Char → α → Prop)
    (reader : Nat → List Char → Except Stop (List α × List Char)) : Prop where
  ends : isSpace closing = false ∧ ∀ {rest}, EndsNumber (closing :: rest)
  starts : ∀ {cs a}, part cs a →
    ∃ first more, cs = first :: more ∧ isSpace first = false ∧ first ≠ closing
  last : ∀ {fuel cs a left rest}, part cs a → cs.length ≤ fuel → EndsNumber left →
    skipSpaces left = closing :: rest → reader (fuel + 1) (cs ++ left) = .ok ([a], rest)
  next : ∀ {fuel cs a left more later rest}, part cs a → cs.length ≤ fuel → EndsNumber left →
    skipSpaces left = ',' :: more → reader fuel (skipSpaces more) = .ok (later, rest) →
      reader (fuel + 1) (cs ++ left) = .ok (a :: later, rest)

section Parts

variable {α : Type} {closing : Char} {part : List Char → α → Prop}
  {reader : Nat → List Char → Except Stop (List α × List Char)} {texts : List (List Char)}
  {items : List α}

/-- Parts begin as the first of them does. -/
theorem ReadsParts.intercalate_starts (reads : ReadsParts closing part reader)
    (each : List.Forall₂ part texts items) (some : texts ≠ []) (gap : List Char) :
    ∃ first more, (',' :: gap).intercalate texts = first :: more ∧ isSpace first = false ∧
      first ≠ closing := by
  cases each with
  | nil => exact absurd rfl some
  | cons isPart each =>
      obtain ⟨first, more, rfl, stops, other⟩ := reads.starts isPart
      exact ⟨first, _, List.intercalate_cons_cons_left, stops, other⟩

/-- Parts are read one after the other, up to the character that closes them. -/
theorem ReadsParts.intercalate (reads : ReadsParts closing part reader)
    (spaces : ∀ c ∈ gap, isSpace c) (spacesClose : ∀ c ∈ close, isSpace c)
    (each : List.Forall₂ part texts items) (some : texts ≠ []) {fuel : Nat}
    (enough : ((',' :: gap).intercalate texts).length + close.length < fuel) (rest : List Char) :
    reader fuel ((',' :: gap).intercalate texts ++ (close ++ closing :: rest)) =
      .ok (items, rest) := by
  induction each generalizing fuel with
  | nil => exact absurd rfl some
  | @cons text item texts items isPart each ih =>
      obtain ⟨fuel, rfl⟩ : ∃ less, fuel = less + 1 := ⟨fuel - 1, by omega⟩
      -- After the last part comes what closes them, after any other one a comma.
      cases texts with
      | nil =>
          cases each
          rw [List.intercalate_singleton] at enough ⊢
          exact reads.last isPart (by omega) (endsNumber_append spacesClose reads.ends.2)
            (skipSpaces_append spacesClose reads.ends.1)
      | cons second texts =>
          rw [List.intercalate_cons_cons] at enough ⊢
          simp only [List.length_append, List.length_cons] at enough
          have later := ih (List.cons_ne_nil _ _) (show _ < fuel by omega)
          obtain ⟨first, more, begins, stops, -⟩ :=
            reads.intercalate_starts each (List.cons_ne_nil _ _) gap
          rw [List.append_assoc, List.append_assoc, List.cons_append]
          refine reads.next isPart (by omega) (endsNumber_cons (by decide)) rfl ?_
          rw [begins, List.cons_append] at later ⊢
          rw [skipSpaces_append spaces stops, later]

end Parts

/-! ## Lists and mappings -/

/-- The items of a list are read with what stands between them. -/
theorem readsParts_readItems : ReadsParts ']' Writes readItems where
  ends := ⟨rfl, endsNumber_cons (by decide)⟩
  starts writes := by
    obtain ⟨first, more, same, stops, noBracket, -⟩ := writes.starts
    exact ⟨first, more, same, stops, noBracket⟩
  last {fuel cs value left rest} writes enough ends closes := by
    rw [readItems, writes.reads enough ends]
    dsimp only [bind, Except.bind]
    rw [closes]
    rfl
  next {fuel cs value left more later rest} writes enough ends goesOn read := by
    have step : readItems (fuel + 1) (cs ++ left) =
        (readItems fuel (skipSpaces more)).bind fun read => .ok (value :: read.1, read.2) := by
      rw [readItems, writes.reads enough ends]
      dsimp only [bind, Except.bind]
      rw [goesOn]
      rfl
    rw [step, read]
    rfl

/-- A text writes an entry of a mapping: its key between quotes, a colon and a space, and a text
that writes its value. -/
def WritesEntry (plain : Char → Bool) (cs : List Char) (entry : Scalar × Value) : Prop :=
  ∃ name text, entry.1 = .text name ∧ Writes text entry.2 ∧
    cs = '"' :: (name.toList.flatMap (Text.escapeChar plain) ++ '"' :: ':' :: ' ' :: text)

/-- After an entry either the mapping ends or a comma and another entry follow. -/
theorem readMembers_entry (visible : ∀ c, plain c → 32 ≤ c.toNat) {entry : Scalar × Value}
    (writes : WritesEntry plain cs entry) {fuel : Nat} (enough : cs.length ≤ fuel)
    (ends : EndsNumber rest) :
    readMembers (fuel + 1) (cs ++ rest) =
      match skipSpaces rest with
      | '\x7d' :: rest => .ok ([entry], rest)
      | ',' :: rest =>
        (readMembers fuel (skipSpaces rest)).bind fun read => .ok (entry :: read.1, read.2)
      | rest => complain .commaExpected rest := by
  obtain ⟨key, value⟩ := entry
  obtain ⟨name, text, rfl, writes, rfl⟩ := writes
  have written := length_le_flatMap plain name.toList
  simp only [List.length_cons, List.length_append] at enough
  obtain ⟨first, more, begins, stops, -⟩ := writes.starts
  have read := writes.reads (show text.length ≤ fuel by omega) ends
  have colon (rest : List Char) : skipSpaces (':' :: rest) = ':' :: rest := rfl
  have blank : skipSpaces ([' '] ++ (text ++ rest)) = text ++ rest := by
    rw [begins]
    exact skipSpaces_append (by simp [isSpace]) stops
  rw [List.singleton_append] at blank
  simp only [List.cons_append, List.append_assoc]
  rw [readMembers, readText_flatMap visible (by omega)]
  dsimp only [bind, Except.bind]
  rw [colon]
  split
  · next after same =>
      obtain rfl := (List.cons.inj same).2
      rw [blank, read]
      rfl
  · next other => exact absurd rfl (other _)

/-- The members of a mapping are read with what stands between them. -/
theorem readsParts_readMembers (visible : ∀ c, plain c → 32 ≤ c.toNat) :
    ReadsParts '\x7d' (WritesEntry plain) readMembers where
  ends := ⟨rfl, endsNumber_cons (by decide)⟩
  starts := by
    rintro cs entry ⟨name, text, -, -, rfl⟩
    exact ⟨'"', _, rfl, by decide⟩
  last writes enough ends closes := by
    rw [readMembers_entry visible writes enough ends, closes]
    rfl
  next {fuel cs entry left more later rest} writes enough ends goesOn read := by
    have step : readMembers (fuel + 1) (cs ++ left) =
        (readMembers fuel (skipSpaces more)).bind fun read => .ok (entry :: read.1, read.2) := by
      rw [readMembers_entry visible writes enough ends, goesOn]
      rfl
    rw [step, read]
    rfl

section Brackets

variable {lead : List Char} {texts : List (List Char)} (spacesLead : ∀ c ∈ lead, isSpace c)
  (spaces : ∀ c ∈ gap, isSpace c) (spacesClose : ∀ c ∈ close, isSpace c)

include spacesLead spaces spacesClose

/-- A list is read from its items between brackets. -/
theorem writes_list {values : List Value} (each : List.Forall₂ Writes texts values)
    (some : texts ≠ []) :
    Writes ('[' :: (lead ++ ((',' :: gap).intercalate texts ++ (close ++ [']']))))
      (.list values) where
  starts := ⟨'[', _, rfl, by decide⟩
  reads {fuel rest} enough ends := by
    simp only [List.length_cons, List.length_append] at enough
    obtain ⟨fuel, rfl⟩ : ∃ less, fuel = less + 1 := ⟨fuel - 1, by omega⟩
    have items := readsParts_readItems.intercalate spaces spacesClose each some
      (show _ < fuel by omega) rest
    obtain ⟨first, more, begins, stops, noBracket⟩ :=
      readsParts_readItems.intercalate_starts each some gap
    simp only [List.cons_append, List.append_assoc, List.nil_append]
    rw [begins, List.cons_append] at items ⊢
    rw [readValue, skipSpaces_append spacesLead stops]
    split
    · next closes => exact absurd (List.cons.inj closes).1 noBracket
    · rw [items]
      rfl

/-- A mapping is read from its entries between braces. -/
theorem writes_map (visible : ∀ c, plain c → 32 ≤ c.toNat) {entries : Mapping}
    (each : List.Forall₂ (WritesEntry plain) texts entries) (some : texts ≠ [])
    (once : Mapping.ofEntries entries = entries) :
    Writes ('\x7b' :: (lead ++ ((',' :: gap).intercalate texts ++ (close ++ ['\x7d']))))
      (.map entries) where
  starts := ⟨'\x7b', _, rfl, by decide⟩
  reads {fuel rest} enough ends := by
    simp only [List.length_cons, List.length_append] at enough
    obtain ⟨fuel, rfl⟩ : ∃ less, fuel = less + 1 := ⟨fuel - 1, by omega⟩
    have reads := readsParts_readMembers visible
    have members := reads.intercalate spaces spacesClose each some (show _ < fuel by omega) rest
    obtain ⟨first, more, begins, stops, noBrace⟩ := reads.intercalate_starts each some gap
    simp only [List.cons_append, List.append_assoc, List.nil_append]
    rw [begins, List.cons_append] at members ⊢
    rw [readValue, skipSpaces_append spacesLead stops]
    split
    · next closes => exact absurd (List.cons.inj closes).1 noBrace
    · rw [members]
      dsimp only [bind, Except.bind]
      rw [once]
      rfl

end Brackets

/-! ## Values over several lines -/

/-- Entries whose keys are different texts are merged as they are. -/
theorem ofEntries_of_nodup {entries : Mapping}
    (named : ∀ entry ∈ entries, ∃ name, entry.1 = .text name)
    (once : (entries.map Prod.fst).Nodup) : Mapping.ofEntries entries = entries := by
  refine Keyed.ofEntries_of_pairwise ?_
  rw [List.Nodup, List.pairwise_map] at once
  refine once.imp_of_mem fun {first second} member _ apart => ?_
  obtain ⟨name, same⟩ := named first member
  rw [same, ← Bool.not_eq_true, Scalar.same_text_iff]
  exact fun alike => apart (same.trans alike.symm)

/-- A new line and its indent are spaces. -/
theorem spaces_newLine (depth : Nat) : ∀ c ∈ (newLine depth).toList, isSpace c := by
  intro c member
  rw [newLine, String.toList_ofList] at member
  rcases List.mem_cons.mp member with rfl | later
  · rfl
  · rw [List.eq_of_mem_replicate later]
    rfl

/-- The items of a list are spread one by one. -/
theorem spreadItems_eq_map (depth : Nat) (items : List Value) :
    spreadItems depth items = items.map (spread depth) := by
  induction items with
  | nil => rfl
  | cons item rest ih => rw [spreadItems, ih, List.map_cons]

/-- The entries of a mapping are spread one by one, each behind its key. -/
theorem spreadEntries_eq_map (depth : Nat) (entries : Mapping) :
    spreadEntries depth entries = entries.map fun entry =>
      keyText Text.quotedWide entry.1 ++ ": " ++ spread depth entry.2 := by
  induction entries with
  | nil => rfl
  | cons entry rest ih => rw [spreadEntries, ih, List.map_cons]

/-- A value that is spread over lines is written at every depth. -/
theorem writes_spread (json : value.IsJson) (depth : Nat) :
    Writes (spread depth value).toList value := by
  have visible (c : Char) (notControl : Text.isNotControl c) : 32 ≤ c.toNat := by
    simpa [Text.isNotControl] using notControl
  induction json generalizing depth with
  | null => exact writes_scalar visible .null
  | bool truth => exact writes_scalar visible (.bool truth)
  | int writable => exact writes_scalar visible (.int writable)
  | text content => exact writes_scalar visible (.text content)
  | @list items each ih =>
      cases items with
      | nil =>
          have word : (spread depth (.list [])).toList = ['[', ']'] := by
            rw [spread]
            rfl
          exact writes_word word (by decide) fun _ _ => rfl
      | cons first rest =>
          have parts : List.Forall₂ Writes
              ((spreadItems (depth + 1) (first :: rest)).map String.toList) (first :: rest) := by
            rw [spreadItems_eq_map, List.map_map, List.forall₂_map_left_iff, List.forall₂_same]
            exact fun item member => ih item member (depth + 1)
          have list := writes_list (spaces_newLine (depth + 1)) (spaces_newLine (depth + 1))
            (spaces_newLine depth) parts (by simp [spreadItems])
          rw [spread]
          · simpa [String.toList_intercalate] using list
          · simp
  | @map entries named once each ih =>
      cases entries with
      | nil =>
          have word : (spread depth (.map [])).toList = ['\x7b', '\x7d'] := by
            rw [spread]
            rfl
          exact writes_word word (by decide) fun _ _ => rfl
      | cons first rest =>
          have parts : List.Forall₂ (WritesEntry Text.isNotControl)
              ((spreadEntries (depth + 1) (first :: rest)).map String.toList) (first :: rest) := by
            rw [spreadEntries_eq_map, List.map_map, List.forall₂_map_left_iff, List.forall₂_same]
            intro entry member
            obtain ⟨name, same⟩ := named entry member
            refine ⟨name, _, same, ih entry member (depth + 1), ?_⟩
            simp [same, keyText, Text.quotedWide, toList_quotedBy]
          have map := writes_map (spaces_newLine (depth + 1)) (spaces_newLine (depth + 1))
            (spaces_newLine depth) visible parts (by simp [spreadEntries])
            (ofEntries_of_nodup named once)
          rw [spread]
          · simpa [String.toList_intercalate] using map
          · simp

/-- A text that writes a value is read as that value, whatever spaces come after it. -/
theorem readAll_of_writes (writes : Writes cs value) (spaces : ∀ c ∈ gap, isSpace c) :
    readAll (cs ++ gap) = .ok value := by
  have enough : cs.length ≤ 2 * (cs ++ gap).length + 2 := by
    rw [List.length_append]
    omega
  have ends : EndsNumber gap := by
    rw [← List.append_nil gap]
    exact endsNumber_append spaces (by rintro _ ⟨⟩)
  have nothing : skipSpaces gap = [] := List.dropWhile_eq_nil_iff.mpr spaces
  have read := writes.reads enough ends
  obtain ⟨first, more, rfl, stops, -, noMark⟩ := writes.starts
  have begins : skipSpaces ([] ++ first :: (more ++ gap)) = first :: (more ++ gap) :=
    skipSpaces_append (by simp) stops
  rw [List.nil_append, ← List.cons_append] at begins
  rw [readAll, if_neg (by simpa using noMark), begins, read]
  dsimp only [bind, Except.bind]
  rw [nothing]
  rfl

/-- A text that writes a value is read as that value, also with spaces at its end. -/
theorem read_of_writes {content gap : String} (writes : Writes content.toList value)
    (spaces : ∀ c ∈ gap.toList, isSpace c) : read (content ++ gap) = .ok (.ok value) := by
  have whole : readAll (content ++ gap).toList = .ok value := by
    rw [String.toList_append]
    exact readAll_of_writes writes spaces
  simp only [read, whole]

/-- A document is read from its text. -/
theorem read_document (json : value.IsJson) : read (document value) = .ok (.ok value) :=
  read_of_writes (writes_spread json 0) (by simp [isSpace])

end Json

namespace Value

/-- A list can be written if all its items can. -/
theorem areWritable_iff {items : List Value} :
    areWritable items ↔ ∀ item ∈ items, item.isWritable := by
  induction items with
  | nil => simp [areWritable]
  | cons item rest ih => simp [areWritable, ih]

/-- A mapping can be written if all its keys and values can. -/
theorem entriesWritable_iff {entries : Mapping} :
    entriesWritable entries ↔ ∀ entry ∈ entries, entry.1.isWritable ∧ entry.2.isWritable := by
  induction entries with
  | nil => simp [entriesWritable]
  | cons entry rest ih =>
      obtain ⟨key, item⟩ := entry
      simp [entriesWritable, ih, and_assoc]

/-- What JSON can keep can be written. -/
theorem IsJson.isWritable {value : Value} (json : value.IsJson) : value.isWritable := by
  induction json with
  | null | bool | text => rfl
  | int writable => exact writable
  | list each ih => exact areWritable_iff.mpr ih
  | map named once each ih =>
      refine entriesWritable_iff.mpr fun entry member => ⟨?_, ih entry member⟩
      obtain ⟨name, same⟩ := named entry member
      rw [same]
      rfl

end Value

namespace Document

/-- **Written JSON is read back.** A mapping that JSON can keep is written to every file whose name
ends in `.json`, in letters of either case, and what is written is read as the same mapping, its
keys in the same order at every depth. -/
theorem written_reads_back {yaml : Yaml} {output : String} {entries : Mapping}
    (ending : (FilePath.endingOf (FilePath.ofText output).name.toList).map Char.toLower =
      ".json".toList) (json : (Value.map entries).IsJson) :
    ∃ content, writtenFor yaml (.ofText output) (.map entries) = .ok content ∧
      Loading.parse yaml .json content = .ok (.ok (.map entries)) := by
  have format : (FilePath.ofText output).format = .json := if_pos (beq_iff_eq.mpr ending)
  refine ⟨Json.document (.map entries), ?_, ?_⟩
  · rw [writtenFor, format]
    exact if_pos json.isWritable
  · rw [Loading.parse, Loading.valueOf]
    dsimp only [bind, Except.bind]
    rw [Json.read_document json]
    rfl

/-- A mapping with a nested one, with a list of every other kind of value, and with a text that does
not stand as it is. -/
def nestedEntries : Mapping :=
  [(.text "openapi", .text "3.0.3"),
    (.text "x-values", .list [.null, .bool true, .int (-50), .list [], .map []]),
    (.text "info", .map [(.text "title", .text "A \"quoted\"\ttitle\n😀")])]

theorem written_reads_back_nested :
    (Value.map nestedEntries).IsJson ∧
      ∃ content,
        writtenFor .unknown (.ofText "build/pets.JSON") (.map nestedEntries) = .ok content ∧
        Loading.parse .unknown .json content = .ok (.ok (.map nestedEntries)) := by
  have values : ∀ item ∈ [Value.null, .bool true, .int (-50), .list [], .map []], item.IsJson := by
    simp only [List.forall_mem_cons]
    exact ⟨.null, .bool true, .int (by decide), .list (by simp), .map (by simp) .nil (by simp),
      by simp⟩
  have info : (Value.map [(.text "title", .text "A \"quoted\"\ttitle\n😀")]).IsJson :=
    .map (by simp) (by decide) (by simpa using .text _)
  have json : (Value.map nestedEntries).IsJson := by
    refine .map (by simp [nestedEntries]) (by decide) ?_
    simp only [nestedEntries, List.forall_mem_cons]
    exact ⟨.text _, .list values, info, by simp⟩
  exact ⟨json, written_reads_back (by decide) json⟩

end Document

end OpenApi
