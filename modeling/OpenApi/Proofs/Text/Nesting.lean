import Mathlib.Tactic.ByContra
import OpenApi.Identifier
import OpenApi.Json.Printer
import OpenApi.Text.Quoted
import OpenApi.Value.Literal

/-!
# Closed texts

An expression is read from left to right, text between double quotes as one piece in which a
backslash escapes what follows.  It is closed if it stays on one line and, outside of quoted pieces,
every bracket is closed by its partner.  Nothing that follows a closed text is read differently
because of it, so closed texts can be put next to each other and between brackets.
-/

namespace OpenApi.Text

/-! ## Reading an expression -/

/-- Where a reader is: outside of quotes, inside of them, or behind a backslash inside of them. -/
inductive Position where
  | outside
  | inside
  | escaped
deriving DecidableEq

/-- What a reader knows: the closing brackets that it waits for, the next one first, and where it
is. -/
structure Reader where
  awaited : List Char
  position : Position
deriving DecidableEq

/-- The partner of an opening bracket. -/
def closing? : Char → Option Char
  | '(' => some ')'
  | '[' => some ']'
  | '\x7b' => some '\x7d'
  | _ => none

def isClosing (c : Char) : Bool := c == ')' || c == ']' || c == '\x7d'

/-- The brackets that are waited for after a character outside of quotes.  A closing bracket has to
be the one that comes next. -/
def awaitedAfter (awaited : List Char) (c : Char) : Option (List Char) :=
  match closing? c with
  | some partner => some (partner :: awaited)
  | none =>
    if isClosing c then
      match awaited with
      | [] => none
      | next :: rest => if c = next then some rest else none
    else some awaited

/-- Read a character.  The end of the line may not come anywhere. -/
def Reader.read (reader : Reader) (c : Char) : Option Reader :=
  if c = '\n' ∨ c = '\r' then none
  else
    match reader.position with
    | .outside =>
      if c = '"' then some ⟨reader.awaited, .inside⟩
      else (awaitedAfter reader.awaited c).map fun awaited => ⟨awaited, .outside⟩
    | .inside =>
      some ⟨reader.awaited, if c = '"' then .outside else if c = '\\' then .escaped else .inside⟩
    | .escaped => some ⟨reader.awaited, .inside⟩

/-- Reading characters leads from one state of the reader to another. -/
def Reads (cs : List Char) (before after : Reader) : Prop :=
  cs.foldlM Reader.read before = some after

/-- A text starts and ends outside of quotes; before it some brackets are waited for, and after it
others. -/
def Leads (s : String) (before after : List Char) : Prop :=
  Reads s.toList ⟨before, .outside⟩ ⟨after, .outside⟩

/-- A text is complete in itself: it stays on one line, no quotes and no brackets are open at its
end, and none were closed that it did not open. -/
def Closed (s : String) : Prop := Leads s [] []

instance (s : String) : Decidable (Closed s) := inferInstanceAs (Decidable (_ = _))

/-- The end of a line stands in no closed text. -/
theorem Reads.unbroken {cs : List Char} {before after : Reader} (reads : Reads cs before after) :
    '\n' ∉ cs ∧ '\r' ∉ cs := by
  induction cs generalizing before with
  | nil => simp
  | cons c rest ih =>
      rw [Reads, List.foldlM_cons, Option.bind_eq_bind, Option.bind_eq_some_iff] at reads
      obtain ⟨between, step, reads⟩ := reads
      obtain ⟨noFeed, noReturn⟩ := ih reads
      have other : ¬(c = '\n' ∨ c = '\r') := by
        intro ends
        rw [Reader.read, if_pos ends] at step
        cases step
      rw [not_or] at other
      simp only [List.mem_cons, not_or]
      exact ⟨⟨Ne.symm other.1, noFeed⟩, Ne.symm other.2, noReturn⟩

/-! ## Putting texts together -/

/-- Reading goes on where it left off. -/
theorem Reads.append {first second : List Char} {before between after : Reader}
    (reads : Reads first before between) (onward : Reads second between after) :
    Reads (first ++ second) before after := by
  rw [Reads, List.foldlM_append, reads]
  exact onward

/-- Reading a text is reading its first character and then the others. -/
theorem Reads.cons {c : Char} {cs : List Char} {before between after : Reader}
    (step : before.read c = some between) (onward : Reads cs between after) :
    Reads (c :: cs) before after := by
  rw [Reads, List.foldlM_cons, step]
  exact onward

/-- Brackets that were open before do not matter to a character that does not close them. -/
theorem awaitedAfter_below {awaited after : List Char} {c : Char} (below : List Char)
    (step : awaitedAfter awaited c = some after) :
    awaitedAfter (awaited ++ below) c = some (after ++ below) := by
  unfold awaitedAfter at step ⊢
  cases opens : closing? c with
  | some partner =>
      rw [opens] at step
      cases step
      rfl
  | none =>
      rw [opens] at step
      dsimp only at step ⊢
      split at step
      · next closes =>
          rw [if_pos closes]
          cases awaited with
          | nil => cases step
          | cons next rest =>
              dsimp only [List.cons_append] at step ⊢
              split at step
              · next fits =>
                  cases step
                  exact if_pos fits
              · cases step
      · next closesNot =>
          cases step
          exact if_neg closesNot

/-- A step does not look at what is awaited below. -/
theorem Reader.read_below {awaited after : List Char} {position finish : Position} {c : Char}
    (below : List Char) (step : (⟨awaited, position⟩ : Reader).read c = some ⟨after, finish⟩) :
    (⟨awaited ++ below, position⟩ : Reader).read c = some ⟨after ++ below, finish⟩ := by
  unfold read at step ⊢
  split at step
  · cases step
  · next sameLine =>
      rw [if_neg sameLine]
      cases position with
      | inside | escaped =>
          cases step
          rfl
      | outside =>
          dsimp only at step ⊢
          split at step
          · next quote =>
              cases step
              exact if_pos quote
          · next noQuote =>
              obtain ⟨between, reads, same⟩ := Option.map_eq_some_iff.mp step
              cases same
              rw [if_neg noQuote, awaitedAfter_below below reads]
              rfl

/-- So a text that is read on its own is read the same way inside of anything else. -/
theorem Reads.below {cs : List Char} {awaited after : List Char} {position finish : Position}
    (below : List Char) (reads : Reads cs ⟨awaited, position⟩ ⟨after, finish⟩) :
    Reads cs ⟨awaited ++ below, position⟩ ⟨after ++ below, finish⟩ := by
  induction cs generalizing awaited position with
  | nil =>
      cases reads
      rfl
  | cons c rest ih =>
      rw [Reads, List.foldlM_cons, Option.bind_eq_bind, Option.bind_eq_some_iff] at reads
      obtain ⟨⟨between, place⟩, step, reads⟩ := reads
      exact .cons (Reader.read_below below step) (ih reads)

/-- Two texts lead on, one after the other. -/
theorem Leads.append {first second : String} {before between after : List Char}
    (leads : Leads first before between) (onward : Leads second between after) :
    Leads (first ++ second) before after := by
  rw [Leads, String.toList_append]
  exact Reads.append leads onward

namespace Closed

variable {s t : String}

/-- A closed text may stand anywhere. -/
theorem leads (closed : Closed s) (awaited : List Char) : Leads s awaited awaited :=
  Reads.below awaited closed

theorem unbroken (closed : Closed s) : '\n' ∉ s.toList ∧ '\r' ∉ s.toList :=
  Reads.unbroken closed

/-- Closed texts put together are closed. -/
theorem append (first : Closed s) (second : Closed t) : Closed (s ++ t) :=
  Leads.append first second

/-- Texts on either side fit together around a closed text. -/
theorem within {opening ending : String} {awaited : List Char} (opens : Leads opening [] awaited)
    (closed : Closed s) (ends : Leads ending awaited []) : Closed (opening ++ s ++ ending) :=
  (opens.append (closed.leads awaited)).append ends

theorem only (closed : Closed s) : ∀ item ∈ [s], Closed item :=
  fun _ member => List.mem_singleton.mp member ▸ closed

/-- Closed texts with a closed text between them are closed. -/
theorem intercalate {separator : String} {items : List String} (between : Closed separator)
    (each : ∀ item ∈ items, Closed item) : Closed (separator.intercalate items) := by
  induction items with
  | nil => exact rfl
  | cons first rest ih =>
      have own := each first List.mem_cons_self
      cases rest with
      | nil => simpa using own
      | cons second others =>
          rw [String.intercalate_cons_cons]
          exact (own.append between).append
            (ih fun item member => each item (List.mem_cons_of_mem _ member))

/-- Closed texts one after the other are closed. -/
theorem join {items : List String} (each : ∀ item ∈ items, Closed item) :
    Closed (String.join items) := by
  rw [Closed, Leads, String.toList_join]
  induction items with
  | nil => exact rfl
  | cons first rest ih =>
      rw [List.flatMap_cons]
      exact Reads.append (each first List.mem_cons_self)
        (ih fun item member => each item (List.mem_cons_of_mem _ member))

end Closed

/-! ## Plain characters -/

/-- A character that is no quote, no backslash, no bracket and not the end of a line. -/
def isPlain (c : Char) : Bool :=
  c ∉ ['"', '\\', '(', ')', '[', ']', '\x7b', '\x7d', '\n', '\r']

/-- All characters of a text are plain. -/
def IsPlain (s : String) : Prop := ∀ c ∈ s.toList, isPlain c

instance (s : String) : Decidable (IsPlain s) := List.decidableBAll _ s.toList

/-- A plain character opens nothing and closes nothing. -/
theorem read_of_isPlain {c : Char} (plain : isPlain c) (awaited : List Char) :
    (⟨awaited, .outside⟩ : Reader).read c = some ⟨awaited, .outside⟩ := by
  simp only [isPlain, List.mem_cons, List.not_mem_nil, or_false, not_or, decide_eq_true_eq] at plain
  simp [Reader.read, awaitedAfter, closing?, isClosing, plain]

/-- Nor does any number of plain characters. -/
theorem Reads.of_isPlain {cs : List Char} (plain : ∀ c ∈ cs, isPlain c) (awaited : List Char) :
    Reads cs ⟨awaited, .outside⟩ ⟨awaited, .outside⟩ := by
  induction cs with
  | nil => exact rfl
  | cons c rest ih =>
      exact .cons (read_of_isPlain (plain c List.mem_cons_self) awaited)
        (ih fun other member => plain other (List.mem_cons_of_mem _ member))

namespace IsPlain

variable {s t : String}

/-- A text of plain characters is closed. -/
theorem closed (plain : IsPlain s) : Closed s :=
  Reads.of_isPlain plain []

/-- What stays within quotes does so when it is put together. -/
theorem append (first : IsPlain s) (second : IsPlain t) : IsPlain (s ++ t) := by
  intro c member
  rw [String.toList_append] at member
  exact (List.mem_append.mp member).elim (first c) (second c)

end IsPlain

/-! ## Names -/

/-- The characters of words are plain. -/
theorem isPlain_of_isWord {c : Char} (word : isWord c) : isPlain c := by
  by_contra notPlain
  simp only [isPlain, List.mem_cons, List.not_mem_nil, or_false, decide_eq_true_eq, not_not]
    at notPlain
  rcases notPlain with rfl | rfl | rfl | rfl | rfl | rfl | rfl | rfl | rfl | rfl <;>
    exact absurd word (by decide)

/-- Identifiers are plain. -/
theorem isPlain_ofName (name : String) : IsPlain (Identifier.ofName name) := by
  have worded : ∀ c ∈ Identifier.worded name.toList, isPlain c := by
    intro c member
    obtain ⟨original, _, rfl⟩ := List.mem_map.mp member
    split
    · next word => exact isPlain_of_isWord word
    · decide
  have unnumbered :
      IsPlain (String.ofList (Identifier.unnumbered (Identifier.worded name.toList))) := by
    intro c member
    rw [String.toList_ofList] at member
    unfold Identifier.unnumbered at member
    split at member
    · rw [List.mem_singleton.mp member]
      decide
    · split at member
      · rcases List.mem_cons.mp member with rfl | later
        · decide
        · exact worded c later
      · exact worded c member
  unfold Identifier.ofName
  dsimp only
  split
  · exact unnumbered.append (by decide)
  · exact unnumbered

/-! ## Quoted texts -/

/-- A character that leaves a reader inside of quotes where it is. -/
def isQuiet (c : Char) : Bool := c ∉ ['"', '\\', '\n', '\r']

/-- Within quotes, a quiet character changes nothing. -/
theorem read_of_isQuiet {c : Char} (quiet : isQuiet c) (awaited : List Char) :
    (⟨awaited, .inside⟩ : Reader).read c = some ⟨awaited, .inside⟩ := by
  simp only [isQuiet, List.mem_cons, List.not_mem_nil, or_false, not_or, decide_eq_true_eq] at quiet
  simp [Reader.read, quiet]

/-- Characters that may stand between quotes: quiet ones, and pairs of a backslash and a character
that does not end the line. -/
inductive Enclosed : List Char → Prop where
  | nil : Enclosed []
  | quiet {c : Char} {rest : List Char} : isQuiet c → Enclosed rest → Enclosed (c :: rest)
  | escape {c : Char} {rest : List Char} : c ≠ '\n' → c ≠ '\r' → Enclosed rest →
      Enclosed ('\\' :: c :: rest)

namespace Enclosed

variable {first second : List Char}

theorem append (before : Enclosed first) (after : Enclosed second) : Enclosed (first ++ second) := by
  induction before with
  | nil => exact after
  | quiet isQuiet _ ih => exact .quiet isQuiet ih
  | escape noFeed noReturn _ ih => exact .escape noFeed noReturn ih

/-- Quiet characters stay within quotes. -/
theorem of_isQuiet (quiet : ∀ c ∈ first, isQuiet c) : Enclosed first := by
  induction first with
  | nil => exact .nil
  | cons c rest ih =>
      exact .quiet (quiet c List.mem_cons_self)
        (ih fun other member => quiet other (List.mem_cons_of_mem _ member))

/-- A reader inside of quotes stays inside. -/
theorem reads (enclosed : Enclosed first) (awaited : List Char) :
    Reads first ⟨awaited, .inside⟩ ⟨awaited, .inside⟩ := by
  induction enclosed with
  | nil => exact rfl
  | quiet isQuiet _ ih => exact .cons (read_of_isQuiet isQuiet awaited) ih
  | escape noFeed noReturn _ ih =>
      exact .cons rfl (.cons (if_neg (not_or.mpr ⟨noFeed, noReturn⟩)) ih)

end Enclosed

/-- Hexadecimal digits are quiet. -/
theorem isQuiet_of_mem_hex {width n : Nat} {c : Char} (member : c ∈ hex width n) : isQuiet c := by
  induction width generalizing n with
  | zero => cases member
  | succ width ih =>
      rcases List.mem_append.mp member with before | last
      · exact ih before
      · have digits : ∀ digit : Fin 16, isQuiet (hexDigit digit) := by decide
        rw [List.mem_singleton.mp last]
        exact digits ⟨n % 16, Nat.mod_lt n (by decide)⟩

/-- The escape of a unit stays within quotes. -/
theorem enclosed_unitEscape (unit : Nat) : Enclosed (unitEscape unit) :=
  .escape (by decide) (by decide) (.of_isQuiet fun _ => isQuiet_of_mem_hex)

/-- The escape of a code point stays within quotes. -/
theorem enclosed_codeEscape (code : Nat) : Enclosed (codeEscape code) := by
  unfold codeEscape
  split
  · exact enclosed_unitEscape code
  · exact (enclosed_unitEscape _).append (enclosed_unitEscape _)

/-- However a character is escaped, it may stand between quotes. -/
theorem enclosed_escapeChar (plain : Char → Bool) (c : Char) : Enclosed (escapeChar plain c) := by
  unfold escapeChar
  split
  · next escape short =>
      unfold shortEscape? at short
      split at short <;> cases short <;> exact .escape (by decide) (by decide) .nil
  · next long =>
      split
      · refine .of_isQuiet fun other member => ?_
        rw [List.mem_singleton.mp member]
        by_contra loud
        simp only [isQuiet, List.mem_cons, List.not_mem_nil, or_false, decide_eq_true_eq, not_not]
          at loud
        rcases loud with rfl | rfl | rfl | rfl <;> cases long
      · exact enclosed_codeEscape _

/-- An escaped text stays within quotes, whichever characters are left as they are. -/
theorem enclosed_escaped (plain : Char → Bool) (cs : List Char) :
    Enclosed (cs.flatMap (escapeChar plain)) := by
  induction cs with
  | nil => exact .nil
  | cons c rest ih =>
      rw [List.flatMap_cons]
      exact (enclosed_escapeChar plain c).append ih

/-- A plain text stays within quotes. -/
theorem IsPlain.enclosed {s : String} (plain : IsPlain s) : Enclosed s.toList := by
  refine .of_isQuiet fun c member => ?_
  have isPlain := plain c member
  simp only [Text.isPlain, List.mem_cons, List.not_mem_nil, or_false, not_or, decide_eq_true_eq]
    at isPlain
  simp [isQuiet, isPlain]

/-- Quotes around a text that stays within them close it. -/
theorem Enclosed.closed_between_quotes {s : String} (enclosed : Enclosed s.toList) :
    Closed ("\"" ++ s ++ "\"") := by
  rw [Closed, Leads, String.toList_append, String.toList_append]
  exact ((show Reads "\"".toList ⟨[], .outside⟩ ⟨[], .inside⟩ from rfl).append
    (enclosed.reads [])).append rfl

theorem quotedBy_eq (plain : Char → Bool) (s : String) :
    quotedBy plain s = "\"" ++ String.ofList (s.toList.flatMap (escapeChar plain)) ++ "\"" := by
  apply String.toList_inj.mp
  simp [quotedBy]

/-- A quoted text is closed, whichever characters are left as they are. -/
theorem closed_quotedBy (plain : Char → Bool) (s : String) : Closed (quotedBy plain s) := by
  rw [quotedBy_eq]
  exact Enclosed.closed_between_quotes (String.toList_ofList ▸ enclosed_escaped plain s.toList)

/-- A quoted text is closed, as the programming languages quote it. -/
theorem closed_quoted (s : String) : Closed (quoted s) :=
  closed_quotedBy isVisibleAscii s

example : Closed (quoted "\")") ∧ ¬Closed ("\"" ++ "\")" ++ "\"") := by decide

/-! ## Numbers -/

/-- The characters of which numbers consist. -/
def isNumeric (c : Char) : Bool := c.isDigit || c ∈ ['+', '-', '.', 'e']

/-- All characters of a text are those of numbers. -/
def IsNumeric (s : String) : Prop := ∀ c ∈ s.toList, isNumeric c

instance (s : String) : Decidable (IsNumeric s) := List.decidableBAll _ s.toList

/-- The characters of numbers are plain. -/
theorem isPlain_of_isNumeric {c : Char} (numeric : isNumeric c) : isPlain c := by
  by_contra notPlain
  simp only [isPlain, List.mem_cons, List.not_mem_nil, or_false, decide_eq_true_eq, not_not]
    at notPlain
  rcases notPlain with rfl | rfl | rfl | rfl | rfl | rfl | rfl | rfl | rfl | rfl <;>
    exact absurd numeric (by decide)

/-- A number is plain. -/
theorem IsNumeric.isPlain {s : String} (numeric : IsNumeric s) : IsPlain s :=
  fun c member => isPlain_of_isNumeric (numeric c member)

theorem IsNumeric.append {s t : String} (first : IsNumeric s) (second : IsNumeric t) :
    IsNumeric (s ++ t) := by
  intro c member
  rw [String.toList_append] at member
  exact (List.mem_append.mp member).elim (first c) (second c)

/-- A natural number is written as a number. -/
theorem isNumeric_nat (n : Nat) : IsNumeric (toString n) := by
  intro c member
  have digit : c ∈ Nat.toDigits 10 n := by simpa using member
  simp [isNumeric, Nat.isDigit_of_mem_toDigits (by decide) (by decide) digit]

/-- A whole number is written as a number, with its sign. -/
theorem isNumeric_int (n : Int) : IsNumeric (toString n) := by
  cases n with
  | ofNat n => exact isNumeric_nat n
  | negSucc n => exact (show IsNumeric "-" by decide).append (isNumeric_nat (n + 1))

section Layouts

open Decimal (Layout Scaled)

variable {layout : Layout} {digits : String}

theorem isNumeric_zeros (count : Nat) : IsNumeric (String.ofList (List.replicate count '0')) := by
  intro c member
  rw [String.toList_ofList] at member
  rw [List.eq_of_mem_replicate member]
  decide

theorem IsNumeric.take (numeric : IsNumeric digits) (count : Nat) :
    IsNumeric (toString (digits.take count)) := by
  intro c member
  have within : c ∈ digits.toList.take count := String.toList_copy_take ▸ member
  exact numeric c (List.mem_of_mem_take within)

theorem IsNumeric.drop (numeric : IsNumeric digits) (count : Nat) :
    IsNumeric (toString (digits.drop count)) := by
  intro c member
  have within : c ∈ digits.toList.drop count := String.toList_copy_drop ▸ member
  exact numeric c (List.mem_of_mem_drop within)

/-- A number is written as such with an exponent. -/
theorem isNumeric_scientific (numeric : IsNumeric digits) (exponent : Int) :
    IsNumeric (layout.scientific digits exponent) := by
  unfold Layout.scientific
  dsimp only
  refine (((((numeric.take 1).append ?_).append (by decide)).append ?_).append
    (isNumeric_zeros _)).append (isNumeric_nat _)
  · split
    · split <;> decide
    · exact (show IsNumeric "." by decide).append (numeric.drop 1)
  · split <;> decide

/-- A number is written as such without an exponent. -/
theorem isNumeric_positional (numeric : IsNumeric digits) (exponent : Int) :
    IsNumeric (Layout.positional digits exponent) := by
  unfold Layout.positional
  dsimp only
  split
  · exact ((show IsNumeric "0." by decide).append (isNumeric_zeros _)).append numeric
  · split
    · exact ((numeric.take _).append (isNumeric_zeros _)).append (by decide)
    · exact ((numeric.take _).append (by decide)).append (numeric.drop _)

/-- A number is written as such in either of these ways. -/
theorem isNumeric_decimal (d : Scaled) : IsNumeric (layout.decimal d) := by
  unfold Layout.decimal
  dsimp only
  split
  · exact isNumeric_positional (isNumeric_nat _) _
  · exact isNumeric_scientific (isNumeric_nat _) _

/-- A number is written with the characters of numbers, or as what stands for infinity or for no
number. -/
theorem mem_render {x : Float} {c : Char} (member : c ∈ (layout.render x).toList) :
    isNumeric c ∨ c ∈ layout.infinity.toList ∨ c ∈ layout.notANumber.toList := by
  have minus {text : String} (member : c ∈ ("-" ++ text).toList) :
      isNumeric c ∨ c ∈ text.toList := by
    rw [String.toList_append] at member
    exact (List.mem_append.mp member).imp_left ((show IsNumeric "-" by decide) c)
  unfold Layout.render at member
  split at member
  · exact .inr (.inr member)
  · split at member
    · exact (minus member).imp_right .inl
    · exact .inr (.inl member)
  · dsimp only at member
    split at member
    · exact .inl ((minus member).elim id (isNumeric_decimal _ c))
    · exact .inl (isNumeric_decimal _ c member)

/-- What a float is written as is plain if the words for what is no number are. -/
theorem isPlain_render (infinity : IsPlain layout.infinity)
    (notANumber : IsPlain layout.notANumber) (x : Float) : IsPlain (layout.render x) := by
  intro c member
  rcases mem_render member with numeric | infinite | noNumber
  · exact isPlain_of_isNumeric numeric
  · exact infinity c infinite
  · exact notANumber c noNumber

end Layouts

/-! ## Values -/

/-- A scalar is written as a closed text. -/
theorem closed_scalarText (content : Scalar) : Closed (Json.scalarText quoted content) := by
  cases content with
  | null => decide
  | bool truth => cases truth <;> decide
  | int number => exact (isNumeric_int number).isPlain.closed
  | float number => exact (isPlain_render (by decide) (by decide) number).closed
  | text content => exact closed_quoted content

/-- A key is written as a closed text. -/
theorem closed_keyText (key : Scalar) : Closed (Json.keyText quoted key) := by
  cases key <;> exact closed_quoted _

mutual

/-- A JSON text in one line is closed. -/
theorem closed_compact : (value : Value) → Closed (Json.compact value)
  | .scalar content => closed_scalarText content
  | .list items => by
    rw [Json.compact]
    exact .within rfl (.intercalate (by decide) (closed_compactItems items)) rfl
  | .map entries => by
    rw [Json.compact]
    exact .within rfl (.intercalate (by decide) (closed_compactEntries entries)) rfl

/-- The items of a list are written as closed texts. -/
theorem closed_compactItems : (items : List Value) → ∀ item ∈ Json.compactItems items, Closed item
  | [] => by simp [Json.compactItems]
  | item :: rest => by
    rw [Json.compactItems, List.forall_mem_cons]
    exact ⟨closed_compact item, closed_compactItems rest⟩

/-- The entries of a mapping are written as closed texts. -/
theorem closed_compactEntries :
    (entries : Mapping) → ∀ entry ∈ Json.compactEntries entries, Closed entry
  | [] => by simp [Json.compactEntries]
  | (key, item) :: rest => by
    rw [Json.compactEntries, List.forall_mem_cons]
    exact ⟨((closed_keyText key).append (by decide)).append (closed_compact item),
      closed_compactEntries rest⟩

end

end OpenApi.Text
