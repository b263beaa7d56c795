import OpenApi.Proofs.Source.Replacing
import OpenApi.Proofs.Text.Lines
import OpenApi.Source.Zod

/-!
# Block comments

A block comment ends with the first end mark behind its opening (`behindEnd?`).  Before a description
is stripped, cut into lines and set behind a margin, each end mark in it is broken up, and breaking
one up makes no other (`Replaces.unended`).  Cutting makes none either, and at every seam of the
comment there is a blank or a line feed, which belongs to no end mark.  Hence the first end mark is
the one that the comment itself writes, and no part of the description stands behind it.
-/

namespace OpenApi.Source

open Text

/-! ## Reading a comment -/

/-- The mark that ends a block comment. -/
def endMark : List Char := ['*', '/']

/-- What stands behind the first end mark, if there is one. -/
def behindEnd? : List Char → Option (List Char)
  | [] => none
  | c :: rest => if endMark <+: c :: rest then some (rest.drop 1) else behindEnd? rest

/-- A text is one block comment: it is opened, and behind the opening the first end mark is at the
end of the text. -/
def IsBlockComment (cs : List Char) : Prop :=
  cs.take 3 = ['/', '*', '*'] ∧ behindEnd? (cs.drop 3) = some []

/-- Lines are one block comment behind an indent. -/
def AreBlockComment (indent : String) (lines : List String) : Prop :=
  ∃ text : String, "\n".intercalate lines = indent ++ text ∧ IsBlockComment text.toList

variable {cs rest body : List Char} {c : Char} {indent : String} {lines : List String}

/-- A mark behind a text without marks is the first one. -/
theorem behindEnd?_append (unended : ¬endMark <:+: cs) (rest : List Char) :
    behindEnd? (cs ++ endMark ++ rest) = some rest := by
  induction cs with
  | nil => simp [behindEnd?, endMark]
  | cons c cs ih =>
      rw [List.infix_cons_iff, not_or] at unended
      have later : ¬endMark <+: c :: (cs ++ endMark ++ rest) := by
        intro starts
        apply unended.1
        cases cs with
        | nil => simp [endMark] at starts
        | cons next others => simpa [endMark] using starts
      rw [List.cons_append, List.cons_append, behindEnd?, if_neg later]
      exact ih unended.2

/-- Lines that go on behind an indent and an opening are one comment, if they have no mark before
that at their end. -/
theorem areBlockComment_of_unended (unended : ¬endMark <:+: body)
    (written : ("\n".intercalate lines).toList =
      indent.toList ++ (['/', '*', '*'] ++ (body ++ endMark))) : AreBlockComment indent lines := by
  refine ⟨String.ofList (['/', '*', '*'] ++ (body ++ endMark)), String.toList_inj.mp ?_, ?_⟩
  · rw [written, String.toList_append, String.toList_ofList]
  · rw [String.toList_ofList]
    exact ⟨rfl, by simpa using behindEnd?_append unended []⟩

/-! ## Texts without end marks -/

/-- A mark has a slash. -/
theorem unended_of_notMem (noSlash : '/' ∉ cs) : ¬endMark <:+: cs := fun found =>
  noSlash (found.subset (by simp [endMark]))

/-- No mark lies across a character that is neither a star nor a slash. -/
theorem unended_append_cons (noStar : c ≠ '*') (noSlash : c ≠ '/') (before : ¬endMark <:+: cs)
    (behind : ¬endMark <:+: rest) : ¬endMark <:+: cs ++ c :: rest := by
  induction cs with
  | nil => simpa [List.infix_cons_iff, endMark, noStar.symm] using behind
  | cons first others ih =>
      rw [List.infix_cons_iff, not_or] at before
      rw [List.cons_append, List.infix_cons_iff, not_or]
      refine ⟨fun starts => before.1 ?_, ih before.2⟩
      cases others with
      | nil => simp [endMark, noSlash.symm] at starts
      | cons next _ => simpa [endMark] using starts

theorem cutsAtBlanks_unended : CutsAtBlanks (fun cs => ¬endMark <:+: cs) where
  before cs rest c _ unended found := unended (found.trans (List.infix_append' [] cs (c :: rest)))
  behind cs rest c _ unended found :=
    unended (found.trans (by simpa using List.infix_append' (cs ++ [c]) rest []))

/-- Breaking up the marks of a text leaves none, and a slash comes in front of the result only if it
was in front of the text. -/
theorem Replaces.unended {result : List Char} (replaces : Replaces endMark ['*', '\\', '/'] cs result) :
    ¬endMark <:+: result ∧ (result.head? = some '/' → cs.head? = some '/') := by
  induction replaces with
  | done => simp [endMark]
  | found onward ih => simpa [List.infix_cons_iff, endMark] using ih.1
  | @kept c rest result other onward ih =>
      refine ⟨?_, id⟩
      rw [List.infix_cons_iff, not_or]
      refine ⟨fun starts => other ?_, ih.1⟩
      -- A star is kept where no slash follows it, and then none follows it in the result.
      obtain ⟨behind, same⟩ := starts
      obtain ⟨rfl, rfl⟩ := List.cons.inj same
      obtain ⟨others, rfl⟩ := List.head?_eq_some_iff.mp (ih.2 rfl)
      exact List.prefix_append endMark others

/-- No line of a description has an end mark once these are broken up. -/
theorem unended_of_mem_linesOf {description line : String}
    (member : line ∈ linesOf (stripped (replaced "*/" "*\\/" description))) :
    ¬endMark <:+: line.toList := by
  refine cutsAtBlanks_unended.linesOf_stripped ?_ line member
  rw [replaced, String.toList_ofList]
  exact (replaces_replaceAll (List.cons_ne_nil '*' ['/']) ['*', '\\', '/'] _).unended.1

/-! ## Block comments -/

/-- A line behind the margin. -/
theorem unended_margin {line : String} (plain : '/' ∉ indent.toList)
    (unended : ¬endMark <:+: line.toList) :
    ¬endMark <:+: (strippedRight (indent ++ " * " ++ line)).toList := by
  rw [strippedRight, String.toList_ofList]
  apply cutsAtBlanks_unended.stripRight
  have margin : ¬endMark <:+: indent.toList ++ [' ', '*'] :=
    unended_of_notMem (by simpa using plain)
  have whole := unended_append_cons (c := ' ') (by decide) (by decide) margin unended
  simpa using whole

/-- Lines without marks have none when they are joined, nor with what follows them. -/
theorem unended_lines (each : ∀ line ∈ lines, ¬endMark <:+: line.toList)
    (behind : ¬endMark <:+: rest) :
    ¬endMark <:+: lines.flatMap (fun line => line.toList ++ ['\n']) ++ rest := by
  induction lines with
  | nil => exact behind
  | cons line others ih =>
      rw [List.forall_mem_cons] at each
      have whole := unended_append_cons (c := '\n') (by decide) (by decide) each.1 (ih each.2)
      simpa using whole

/-- A description behind an indent without slashes is one block comment. -/
theorem areBlockComment_blockComment (description : String) (plain : '/' ∉ indent.toList) :
    AreBlockComment indent (blockComment description indent) := by
  have each := @unended_of_mem_linesOf description
  have nothing : ¬endMark <:+: [] := by simp [endMark]
  unfold blockComment
  split
  · next line cut =>
      have only : ¬endMark <:+: line.toList := each (by simp [cut])
      have ending : ¬endMark <:+: line.toList ++ [' '] :=
        unended_append_cons (by decide) (by decide) only nothing
      have body : ¬endMark <:+: [] ++ ' ' :: (line.toList ++ [' ']) :=
        unended_append_cons (by decide) (by decide) nothing ending
      exact areBlockComment_of_unended body (by simp [endMark])
  · have margins : ∀ margin ∈ (linesOf (stripped (replaced "*/" "*\\/" description))).map
        (fun line => strippedRight (indent ++ " * " ++ line)), ¬endMark <:+: margin.toList := by
      intro margin member
      obtain ⟨line, listed, rfl⟩ := List.mem_map.mp member
      exact unended_margin plain (each listed)
    have ending : ¬endMark <:+: indent.toList ++ [' '] :=
      unended_of_notMem (by simpa using plain)
    have body := unended_append_cons (c := '\n') (by decide) (by decide) nothing
      (unended_lines margins ending)
    refine areBlockComment_of_unended body ?_
    rw [toList_intercalate_concat]
    simp [endMark]

/-- **Block comments.** Behind an indent of spaces the lines of a description are one block comment:
the first end mark behind its opening is at its end.  Before the constant of a definition nothing is
written for its description but these lines. -/
theorem comments_stay_closed :
    (∀ description indent : String, (∀ c ∈ indent.toList, c = ' ') →
      AreBlockComment indent (blockComment description indent)) ∧
    ∀ (suffix description : String) (definition : Definition),
      definition.description = some description → description ≠ "" →
        Zod.definitionLines suffix definition =
          blockComment description "" ++
            Zod.definitionLines suffix { definition with description := none } := by
  constructor
  · intro description indent spaces
    refine areBlockComment_blockComment description fun slash => ?_
    exact absurd (spaces '/' slash) (by decide)
  · intro suffix description definition described something
    simp [Zod.definitionLines, Zod.comment, described, something]

/-- A description with end marks that touch each other and its lines. -/
theorem comments_stay_closed_touching :
    AreBlockComment "  " (blockComment "/**/*/\n/ *" "  ") ∧
      blockComment "/**/*/\n/ *" "  " = ["  /**", "   * /**\\/*\\/", "   * / *", "   */"] ∧
      ∀ type, Zod.definitionLines "Schema" ⟨"Pet", type, some "*/", false⟩ =
        ["/** *\\/ */"] ++ Zod.definitionLines "Schema" ⟨"Pet", type, none, false⟩ := by
  obtain ⟨closed, apart⟩ := comments_stay_closed
  have spaces : ∀ c ∈ "  ".toList, c = ' ' := by simp
  refine ⟨closed _ "  " spaces, by decide, fun type => ?_⟩
  have written : blockComment "*/" "" = ["/** *\\/ */"] := by decide
  rw [← written]
  exact apart "Schema" "*/" ⟨"Pet", type, some "*/", false⟩ rfl (by decide)

end OpenApi.Source
