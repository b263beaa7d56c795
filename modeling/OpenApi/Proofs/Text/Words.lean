import OpenApi.Proofs.Text.Nesting

/-!
# Words of an expression

The words of an expression are its longest runs of word characters outside of quotes.  They are what
an expression uses by name, whereas nothing between quotes is used.  Where expressions are put
together with other characters between them, the words of the whole are those of the parts.
-/

namespace OpenApi.Text

/-! ## Text outside of quotes -/

/-- Where a reader is after a character. -/
def Position.after (position : Position) (c : Char) : Position :=
  match position with
  | .outside => if c = '"' then .inside else .outside
  | .inside => if c = '"' then .outside else if c = '\\' then .escaped else .inside
  | .escaped => .inside

/-- The characters outside of quotes, with a blank in place of every other one. -/
def unquoted (position : Position) : List Char → List Char
  | [] => []
  | c :: rest =>
    (if position = .outside ∧ c ≠ '"' then c else ' ') :: unquoted (position.after c) rest

/-- A reader keeps track of quotes. -/
theorem position_of_read {before after : Reader} {c : Char} (step : before.read c = some after) :
    after.position = before.position.after c := by
  obtain ⟨awaited, position⟩ := before
  unfold Reader.read at step
  split at step
  · cases step
  · cases position with
    | inside | escaped =>
        cases step
        rfl
    | outside =>
        dsimp only [Position.after] at step ⊢
        split at step
        · next quote =>
            cases step
            exact (if_pos quote).symm
        · next noQuote =>
            obtain ⟨_, _, rfl⟩ := Option.map_eq_some_iff.mp step
            exact (if_neg noQuote).symm

/-- What follows a text is quoted or not by where a reader has come in it. -/
theorem unquoted_append {first second : List Char} {before after : Reader}
    (reads : Reads first before after) :
    unquoted before.position (first ++ second) =
      unquoted before.position first ++ unquoted after.position second := by
  induction first generalizing before with
  | nil =>
      cases reads
      rfl
  | cons c rest ih =>
      rw [Reads, List.foldlM_cons, Option.bind_eq_bind, Option.bind_eq_some_iff] at reads
      obtain ⟨between, step, reads⟩ := reads
      rw [List.cons_append, unquoted, unquoted, ← position_of_read step, ih reads]
      rfl

/-- Blanking out what is quoted adds nothing but blanks. -/
theorem mem_of_mem_unquoted {position : Position} {cs : List Char} {c : Char}
    (member : c ∈ unquoted position cs) : c ∈ cs ∨ c = ' ' := by
  induction cs generalizing position with
  | nil => cases member
  | cons first rest ih =>
      rcases List.mem_cons.mp member with same | later
      · split at same
        · exact .inl (same ▸ List.mem_cons_self)
        · exact .inr same
      · exact (ih later).imp_left (List.mem_cons_of_mem _)

/-- Of a text that stays within quotes only blanks are left. -/
theorem Enclosed.unquoted {cs : List Char} (enclosed : Enclosed cs) :
    ∀ c ∈ Text.unquoted .inside cs, c = ' ' := by
  induction enclosed with
  | nil => exact fun _ none => absurd none List.not_mem_nil
  | @quiet c rest isQuiet _ ih =>
      have stays : Position.inside.after c = .inside :=
        (position_of_read (read_of_isQuiet isQuiet [])).symm
      rw [Text.unquoted, stays, List.forall_mem_cons]
      exact ⟨rfl, ih⟩
  | escape _ _ _ ih =>
      rw [Text.unquoted, List.forall_mem_cons]
      refine ⟨rfl, ?_⟩
      rw [Text.unquoted, List.forall_mem_cons]
      exact ⟨rfl, ih⟩

/-! ## Runs of word characters -/

/-- The longest runs of word characters, from left to right. -/
def runs (cs : List Char) : List (List Char) :=
  (cs.splitOnP fun c => !isWord c).filter fun run => !run.isEmpty

theorem runs_nil : runs [] = [] := by
  rw [runs, List.splitOnP_nil]
  rfl

/-- A character that is no part of a word separates the words before it and after it. -/
theorem runs_append_cons {first second : List Char} {c : Char} (gap : isWord c = false) :
    runs (first ++ c :: second) = runs first ++ runs second := by
  rw [runs, List.splitOnP_append_cons first second (by rw [gap]; rfl), List.filter_append]
  rfl

/-- A gap in front adds no word. -/
theorem runs_append_of_gap {gap second : List Char} (blank : ∀ c ∈ gap, isWord c = false) :
    runs (gap ++ second) = runs second := by
  induction gap with
  | nil => rfl
  | cons c rest ih =>
      rw [List.forall_mem_cons] at blank
      rw [List.cons_append, ← List.nil_append (c :: _), runs_append_cons blank.1, runs_nil,
        List.nil_append, ih blank.2]

/-- There is no word in a gap. -/
theorem runs_of_gap {gap : List Char} (blank : ∀ c ∈ gap, isWord c = false) : runs gap = [] := by
  rw [← List.append_nil gap, runs_append_of_gap blank, runs_nil]

/-- What is in a piece of a list is in the list. -/
theorem mem_of_mem_splitOnP {α : Type} {p : α → Bool} {a : α} {as piece : List α}
    (listed : piece ∈ as.splitOnP p) (member : a ∈ piece) : a ∈ as := by
  induction as generalizing piece with
  | nil =>
      rw [List.splitOnP_nil, List.mem_singleton] at listed
      exact listed ▸ member
  | cons first rest ih =>
      rw [List.splitOnP_cons_eq_if_modifyHead] at listed
      split at listed
      · rcases List.mem_cons.mp listed with rfl | later
        · cases member
        · exact List.mem_cons_of_mem _ (ih later member)
      · obtain ⟨head, tail, pieces⟩ := List.exists_cons_of_ne_nil (List.splitOnP_ne_nil p rest)
        rw [pieces, List.modifyHead_cons] at listed
        rcases List.mem_cons.mp listed with rfl | later
        · rcases List.mem_cons.mp member with rfl | inHead
          · exact List.mem_cons_self
          · exact List.mem_cons_of_mem _ (ih (pieces ▸ List.mem_cons_self) inHead)
        · exact List.mem_cons_of_mem _ (ih (pieces ▸ List.mem_cons_of_mem _ later) member)

/-! ## Words -/

/-- The words of an expression, from left to right. -/
def words (s : String) : List String := (runs (unquoted .outside s.toList)).map String.ofList

example : words "Optional[dict[str, \"Any of 'em\"]]" = ["Optional", "dict", "str"] := by decide

/-- A text of which words may stand on either side without becoming one. -/
def IsGap (s : String) : Prop := s.toList ≠ [] ∧ ∀ c ∈ s.toList, c ≠ '"' ∧ isWord c = false

-- Along the characters of the text; there are too many characters to go through all of them.
instance (s : String) : Decidable (IsGap s) :=
  @instDecidableAnd _ _ inferInstance (List.decidableBAll _ _)

/-- A gap is not quoted. -/
theorem IsGap.unquoted_append {gap : String} (isGap : IsGap gap) (cs : List Char) :
    unquoted .outside (gap.toList ++ cs) = gap.toList ++ unquoted .outside cs := by
  have each := isGap.2
  generalize gap.toList = between at each
  induction between with
  | nil => rfl
  | cons c rest ih =>
      rw [List.forall_mem_cons] at each
      rw [List.cons_append, unquoted, if_pos ⟨rfl, each.1.1⟩, Position.after, if_neg each.1.1,
        ih each.2]
      rfl

/-- The words on either side of a gap. -/
theorem words_append {first gap second : String} {before after : List Char} (isGap : IsGap gap)
    (leads : Leads first before after) :
    words (first ++ gap ++ second) = words first ++ words second := by
  obtain ⟨c, rest, split⟩ := List.exists_cons_of_ne_nil isGap.1
  have blank := fun c member => (isGap.2 c member).2
  rw [split, List.forall_mem_cons] at blank
  unfold words
  rw [String.toList_append, String.toList_append, List.append_assoc, Text.unquoted_append leads,
    isGap.unquoted_append, split, List.cons_append, runs_append_cons blank.1,
    runs_append_of_gap blank.2, List.map_append]

theorem words_empty : words "" = [] := by
  rw [words, String.toList_empty, unquoted, runs_nil, List.map_nil]

/-- A gap at the end adds no word. -/
theorem words_append_gap {first gap : String} {before after : List Char} (isGap : IsGap gap)
    (leads : Leads first before after) : words (first ++ gap) = words first := by
  rw [← String.append_empty (s := first ++ gap), words_append isGap leads, words_empty,
    List.append_nil]

/-- The words of a list of expressions. -/
theorem words_intercalate {separator : String} {items : List String} (isGap : IsGap separator)
    (each : ∀ item ∈ items, Closed item) :
    words (separator.intercalate items) = items.flatMap words := by
  induction items with
  | nil => exact words_empty
  | cons first rest ih =>
      rw [List.forall_mem_cons] at each
      cases rest with
      | nil => simp
      | cons second others =>
          rw [String.intercalate_cons_cons, words_append isGap each.1, ih each.2]
          rfl

/-- Nothing between quotes is a word. -/
theorem Enclosed.words_between_quotes {s : String} (enclosed : Enclosed s.toList) :
    words ("\"" ++ s ++ "\"") = [] := by
  have opens : Reads "\"".toList ⟨[], .outside⟩ ⟨[], .inside⟩ := rfl
  have blank : ∀ c ∈ Text.unquoted .outside ("\"" ++ s ++ "\"").toList, c = ' ' := by
    rw [String.toList_append, String.toList_append, List.append_assoc, unquoted_append opens,
      unquoted_append (enclosed.reads [])]
    intro c member
    rcases List.mem_append.mp member with first | member
    · exact List.mem_singleton.mp first
    · rcases List.mem_append.mp member with between | last
      · exact enclosed.unquoted c between
      · exact List.mem_singleton.mp last
  rw [words, runs_of_gap fun c member => (blank c member).symm ▸ by decide, List.map_nil]

/-- A quoted text holds no word. -/
theorem words_quoted (s : String) : words (quoted s) = [] := by
  rw [quoted, quotedBy_eq]
  exact Enclosed.words_between_quotes (String.toList_ofList ▸ enclosed_escaped _ _)

/-- A word has its characters from the text that it stands in. -/
theorem mem_of_mem_words {s word : String} {c : Char} (listed : word ∈ words s)
    (member : c ∈ word.toList) : c ∈ s.toList ∨ c = ' ' := by
  obtain ⟨run, isRun, rfl⟩ := List.mem_map.mp listed
  rw [String.toList_ofList] at member
  exact mem_of_mem_unquoted (mem_of_mem_splitOnP (List.mem_filter.mp isRun).1 member)

end OpenApi.Text
