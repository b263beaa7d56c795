import OpenApi.Proofs.Source.Replacing
import OpenApi.Proofs.Text.Lines

/-!
# Documentation strings

A string between three double quotes ends with the first three quotes in a row behind them, where a
character behind a backslash does not count (`behind?`).  A description is made harmless before it
is stripped, cut into lines and indented: no three quotes in a row are left in it, and its
backslashes come in pairs or before quotes, so that cutting at blanks separates none from what it
escapes.  Hence a documentation string ends where it is to end, unless the name of an attribute,
which is written as it is, ends it before.
-/

namespace OpenApi.Source

open Text

/-! ## Reading a string between three quotes -/

/-- What a reader of a string has to remember: how many quotes in a row it has just read, or that it
has read a backslash. -/
inductive Pending where
  | quotes (count : Nat)
  | escape
deriving DecidableEq

/-- Read a character.  The third quote in a row ends the string. -/
def Pending.read : Pending → Char → Option Pending
  | .escape, _ => some (.quotes 0)
  | .quotes count, c =>
    if c = '"' then if count = 2 then none else some (.quotes (count + 1))
    else some (if c = '\\' then .escape else .quotes 0)

/-- What stands behind the end of a string, if the string ends. -/
def behind? (pending : Pending) : List Char → Option (List Char)
  | [] => none
  | c :: rest =>
    match pending.read c with
    | some next => behind? next rest
    | none => some rest

def tripleQuote : List Char := ['"', '"', '"']

/-- A text is one string between three quotes: behind the opening quotes the string ends for the
first time at the end of the text. -/
def IsString (cs : List Char) : Prop :=
  cs.take 3 = tripleQuote ∧ behind? (.quotes 0) (cs.drop 3) = some []

/-- Lines are one string between three quotes, behind the indent of a class body. -/
def IsDocumentation (lines : List String) : Prop :=
  ∃ text : String, "\n".intercalate lines = classIndent ++ text ∧ IsString text.toList

/-- A text does not end a string in which it stands. -/
def KeepsOpen (cs : List Char) : Prop := behind? (.quotes 0) cs = none

instance (cs : List Char) : Decidable (KeepsOpen cs) := inferInstanceAs (Decidable (_ = _))

/-- Reading characters within a string leads from one state of the reader to another. -/
def Passes (cs : List Char) (before after : Pending) : Prop :=
  cs.foldlM Pending.read before = some after

/-- Passing a text is passing its first character and then the others. -/
theorem Passes.cons {c : Char} {cs : List Char} {before between after : Pending}
    (step : before.read c = some between) (onward : Passes cs between after) :
    Passes (c :: cs) before after := by
  rw [Passes, List.foldlM_cons, step]
  exact onward

/-- What is passed does not close the string, so what closes it stands behind. -/
theorem Passes.behind?_append {first : List Char} {before after : Pending}
    (passes : Passes first before after) (second : List Char) :
    behind? before (first ++ second) = behind? after second := by
  induction first generalizing before with
  | nil =>
      cases passes
      rfl
  | cons c rest ih =>
      rw [Passes, List.foldlM_cons, Option.bind_eq_bind, Option.bind_eq_some_iff] at passes
      obtain ⟨between, step, passes⟩ := passes
      rw [List.cons_append, behind?, step]
      exact ih passes

/-- A string that does not end within a text is read on behind it. -/
theorem exists_passes_of_behind?_eq_none {pending : Pending} {cs : List Char}
    (unended : behind? pending cs = none) : ∃ after, Passes cs pending after := by
  induction cs generalizing pending with
  | nil => exact ⟨pending, rfl⟩
  | cons c rest ih =>
      rw [behind?] at unended
      split at unended
      · next step =>
          obtain ⟨after, passes⟩ := ih unended
          exact ⟨after, .cons step passes⟩
      · cases unended

/-- A text that is passed has nothing behind it. -/
theorem Passes.behind?_eq_none {cs : List Char} {before after : Pending}
    (passes : Passes cs before after) : behind? before cs = none := by
  simpa [behind?] using passes.behind?_append []

/-- A string that ends within a text leaves all that follows behind it. -/
theorem behind?_append_of_eq_some {pending : Pending} {first left : List Char}
    (ends : behind? pending first = some left) (second : List Char) :
    behind? pending (first ++ second) = some (left ++ second) := by
  induction first generalizing pending with
  | nil => cases ends
  | cons c rest ih =>
      rw [behind?] at ends
      rw [List.cons_append, behind?]
      split at ends
      · exact ih ends
      · cases ends
        rfl

/-- Any state of the reader is over with a character that is neither a quote nor a backslash. -/
theorem Pending.read_of_plain {c : Char} (noQuote : c ≠ '"') (noBackslash : c ≠ '\\')
    (pending : Pending) : pending.read c = some (.quotes 0) := by
  cases pending <;> simp [read, noQuote, noBackslash]

/-- A text without quotes and backslashes is passed. -/
theorem Passes.of_plain {cs : List Char} (plain : ∀ c ∈ cs, c ≠ '"' ∧ c ≠ '\\') :
    Passes cs (.quotes 0) (.quotes 0) := by
  induction cs with
  | nil => exact rfl
  | cons c rest ih =>
      obtain ⟨own, others⟩ := List.forall_mem_cons.mp plain
      exact .cons (Pending.read_of_plain own.1 own.2 _) (ih others)

/-- What stands between a text without quotes and backslashes and a character that is neither
decides whether all of it ends a string. -/
theorem keepsOpen_between_iff {opening middle rest : List Char} {c : Char}
    (plain : ∀ c ∈ opening, c ≠ '"' ∧ c ≠ '\\') (noQuote : c ≠ '"') (noBackslash : c ≠ '\\')
    (closing : KeepsOpen rest) : KeepsOpen (opening ++ middle ++ c :: rest) ↔ KeepsOpen middle := by
  unfold KeepsOpen
  rw [List.append_assoc, (Passes.of_plain plain).behind?_append]
  cases ends : behind? (.quotes 0) middle with
  | none =>
      obtain ⟨after, passes⟩ := exists_passes_of_behind?_eq_none ends
      rw [passes.behind?_append, behind?, Pending.read_of_plain noQuote noBackslash]
      exact iff_of_true closing rfl
  | some left =>
      rw [behind?_append_of_eq_some ends]
      exact iff_of_false nofun nofun

/-! ## Lines within a string -/

/-- A string that is closed behind its last line ends there exactly if no line ends it before. -/
theorem behind?_lines_iff {lines : List String} {ending : List Char}
    (ends : behind? (.quotes 0) ending = some []) :
    behind? (.quotes 0) (lines.flatMap (fun line => line.toList ++ ['\n']) ++ ending) = some [] ↔
      ∀ line ∈ lines, KeepsOpen line.toList := by
  induction lines with
  | nil => simpa using ends
  | cons line rest ih =>
      rw [List.flatMap_cons, List.append_assoc, List.append_assoc, List.forall_mem_cons, ← ih]
      cases early : behind? (.quotes 0) line.toList with
      | none =>
          obtain ⟨after, passes⟩ := exists_passes_of_behind?_eq_none early
          rw [passes.behind?_append, List.singleton_append, behind?,
            Pending.read_of_plain (by decide) (by decide)]
          exact (and_iff_right early).symm
      | some left =>
          rw [behind?_append_of_eq_some early]
          refine iff_of_false (by simp) fun both => ?_
          cases early.symm.trans both.1

/-- Lines that go on behind an indent and opening quotes are one string exactly if the string ends
where they do. -/
theorem isDocumentation_iff {lines : List String} {body : List Char}
    (written : ("\n".intercalate lines).toList = classIndent.toList ++ (tripleQuote ++ body)) :
    IsDocumentation lines ↔ behind? (.quotes 0) body = some [] := by
  constructor
  · rintro ⟨text, same, opened, ended⟩
    have shape := written.symm.trans ((congrArg String.toList same).trans String.toList_append)
    rw [← List.append_cancel_left shape] at ended
    exact ended
  · intro ended
    refine ⟨String.ofList (tripleQuote ++ body), String.toList_inj.mp ?_, ?_⟩
    · rw [written, String.toList_append, String.toList_ofList]
    · rw [String.toList_ofList]
      exact ⟨rfl, ended⟩

/-- Lines between opening and closing quotes are one string exactly if no line ends it before. -/
theorem isDocumentation_lines_iff {first : String} {rest : List String} :
    IsDocumentation
        ([classIndent ++ "\"\"\"" ++ first] ++ rest ++ [classIndent ++ "\"\"\""]) ↔
      ∀ line ∈ first :: rest, KeepsOpen line.toList := by
  have closes : behind? (.quotes 0) (classIndent ++ "\"\"\"").toList = some [] := by decide
  rw [← behind?_lines_iff closes]
  apply isDocumentation_iff
  rw [toList_intercalate_concat]
  simp [tripleQuote]

/-! ## Harmless texts -/

/-- A text that can stand in a string and be cut at its blanks: three quotes in a row come nowhere,
and a backslash comes before a character that is not blank. -/
inductive Harmless : Pending → List Char → Prop
  | done (count : Nat) : Harmless (.quotes count) []
  | plain {c : Char} {rest : List Char} {count : Nat} (noQuote : c ≠ '"') (noBackslash : c ≠ '\\')
      (onward : Harmless (.quotes 0) rest) : Harmless (.quotes count) (c :: rest)
  | quote {rest : List Char} {count : Nat} (few : count < 2)
      (onward : Harmless (.quotes (count + 1)) rest) : Harmless (.quotes count) ('"' :: rest)
  | backslash {rest : List Char} {count : Nat} (onward : Harmless .escape rest) :
      Harmless (.quotes count) ('\\' :: rest)
  | escaped {c : Char} {rest : List Char} (solid : isBlank c = false)
      (onward : Harmless (.quotes 0) rest) : Harmless .escape (c :: rest)

namespace Harmless

variable {pending : Pending} {cs rest : List Char} {c : Char}

/-- Reading a harmless text ends behind some quotes, and only behind quotes that it ends with. -/
theorem exists_passes (harmless : Harmless pending cs) :
    ∃ count, Passes cs pending (.quotes count) ∧
      (count = 0 ∨ cs = [] ∨ cs.getLast? = some '"') := by
  have later {c : Char} {rest : List Char} {count : Nat}
      (fromQuote : rest = [] → count = 0 ∨ c = '"')
      (others : count = 0 ∨ rest = [] ∨ rest.getLast? = some '"') :
      count = 0 ∨ c :: rest = [] ∨ (c :: rest).getLast? = some '"' := by
    cases rest with
    | nil => exact (fromQuote rfl).imp id fun same => .inr (by simp [same])
    | cons next rest => simpa [List.getLast?_cons_cons] using others
  induction harmless with
  | done count => exact ⟨count, rfl, .inr (.inl rfl)⟩
  | plain noQuote noBackslash onward ih =>
      obtain ⟨count, passes, last⟩ := ih
      refine ⟨count, .cons (Pending.read_of_plain noQuote noBackslash _) passes, later ?_ last⟩
      rintro rfl
      cases passes
      exact .inl rfl
  | quote few onward ih =>
      obtain ⟨count, passes, last⟩ := ih
      refine ⟨count, .cons ?_ passes, later (fun _ => .inr rfl) last⟩
      rw [Pending.read, if_pos rfl, if_neg (by omega)]
  | backslash onward ih =>
      obtain ⟨count, passes, last⟩ := ih
      refine ⟨count, .cons rfl passes, later ?_ last⟩
      rintro rfl
      cases passes
  | escaped solid onward ih =>
      obtain ⟨count, passes, last⟩ := ih
      refine ⟨count, .cons rfl passes, later ?_ last⟩
      rintro rfl
      cases passes
      exact .inl rfl

/-- A harmless text keeps the string open. -/
theorem keepsOpen (harmless : Harmless (.quotes 0) cs) : KeepsOpen cs := by
  obtain ⟨count, passes, _⟩ := harmless.exists_passes
  exact passes.behind?_eq_none

/-- A harmless text stays harmless behind a plain one. -/
theorem append_of_plain {opening : List Char} (plain : ∀ c ∈ opening, c ≠ '"' ∧ c ≠ '\\')
    (harmless : Harmless (.quotes 0) cs) : Harmless (.quotes 0) (opening ++ cs) := by
  induction opening with
  | nil => exact harmless
  | cons c rest ih =>
      obtain ⟨own, others⟩ := List.forall_mem_cons.mp plain
      exact .plain own.1 own.2 (ih others)

/-- A text without quotes and backslashes is harmless. -/
theorem of_plain (plain : ∀ c ∈ cs, c ≠ '"' ∧ c ≠ '\\') : Harmless (.quotes 0) cs := by
  simpa using append_of_plain plain (.done 0)

/-- What stands before a blank in a harmless text is harmless. -/
theorem before (blank : isBlank c) (harmless : Harmless pending (cs ++ c :: rest)) :
    Harmless pending cs := by
  induction cs generalizing pending with
  | nil =>
      cases harmless with
      | escaped solid => exact absurd blank (by simp [solid])
      | plain | quote | backslash => exact .done _
  | cons first others ih =>
      cases harmless with
      | plain noQuote noBackslash onward => exact .plain noQuote noBackslash (ih onward)
      | quote few onward => exact .quote few (ih onward)
      | backslash onward => exact .backslash (ih onward)
      | escaped solid onward => exact .escaped solid (ih onward)

/-- So is what stands behind it. -/
theorem behind (blank : isBlank c) (harmless : Harmless pending (cs ++ c :: rest)) :
    Harmless (.quotes 0) rest := by
  induction cs generalizing pending with
  | nil =>
      cases harmless with
      | plain noQuote noBackslash onward => exact onward
      | escaped solid => exact absurd blank (by simp [solid])
      | quote | backslash => exact absurd blank (by decide)
  | cons first others ih =>
      cases harmless with
      | plain noQuote noBackslash onward | quote few onward | backslash onward
      | escaped solid onward => exact ih onward

end Harmless

/-- A harmless text may be cut at its blanks. -/
theorem cutsAtBlanks_harmless : CutsAtBlanks (Harmless (.quotes 0)) :=
  ⟨fun _ _ _ => Harmless.before, fun _ _ _ => Harmless.behind⟩

/-! ## Descriptions -/

/-- A text in which backslashes come in pairs. -/
inductive Paired : List Char → Prop
  | done : Paired []
  | plain {c : Char} {rest : List Char} (noBackslash : c ≠ '\\') (onward : Paired rest) :
      Paired (c :: rest)
  | pair {rest : List Char} (onward : Paired rest) : Paired ('\\' :: '\\' :: rest)

/-- Doubling the backslashes of a text pairs them. -/
theorem Replaces.paired {cs result : List Char}
    (replaces : Replaces ['\\'] ['\\', '\\'] cs result) : Paired result := by
  induction replaces with
  | done => exact .done
  | found onward ih => exact .pair ih
  | kept other onward ih =>
      refine .plain ?_ ih
      rintro rfl
      exact other (List.prefix_append ['\\'] _)

/-- What a text with paired backslashes is from the point that a reader of the result has come to:
the second of two backslashes, or so few quotes behind which the rest does not make up three. -/
def Awaited : Pending → List Char → Prop
  | .escape, cs => ∃ rest, cs = '\\' :: rest ∧ Paired rest
  | .quotes count, cs =>
    Paired cs ∧ count ≤ 2 ∧ (count = 0 ∨ ¬ tripleQuote <+: List.replicate count '"' ++ cs)

/-- Escaping three quotes in a row makes a text with paired backslashes harmless. -/
theorem Replaces.harmless {cs result : List Char} {pending : Pending}
    (replaces : Replaces tripleQuote ['\\', '"', '\\', '"', '\\', '"'] cs result)
    (awaited : Awaited pending cs) : Harmless pending result := by
  -- The induction follows the text; `Awaited` is what the reader of the result remembers of it.
  induction replaces generalizing pending with
  | done =>
      cases pending with
      | escape => obtain ⟨rest, ⟨⟩, _⟩ := awaited
      | quotes count => exact .done count
  | @found rest result onward ih =>
      cases pending with
      | escape => obtain ⟨rest, ⟨⟩, _⟩ := awaited
      | quotes count =>
          obtain ⟨paired, _⟩ := awaited
          have left : Paired rest := by
            cases paired with
            | plain _ paired =>
                cases paired with
                | plain _ paired =>
                    cases paired with
                    | plain _ paired => exact paired
          have quoted {cs : List Char} {count : Nat} (onward : Harmless (.quotes 0) cs) :
              Harmless (.quotes count) ('\\' :: '"' :: cs) :=
            .backslash (.escaped (by decide) onward)
          exact quoted (quoted (quoted (ih ⟨left, Nat.zero_le 2, .inl rfl⟩)))
  | @kept c rest result other onward ih =>
      cases pending with
      | escape =>
          obtain ⟨rest, ⟨⟩, paired⟩ := awaited
          exact .escaped (by decide) (ih ⟨paired, Nat.zero_le 2, .inl rfl⟩)
      | quotes count =>
          obtain ⟨paired, bound, apart⟩ := awaited
          cases paired with
          | pair paired => exact .backslash (ih ⟨_, rfl, paired⟩)
          | plain noBackslash paired =>
              by_cases quote : c = '"'
              · subst quote
                obtain rfl | rfl | rfl : count = 0 ∨ count = 1 ∨ count = 2 := by omega
                · exact .quote (by decide) (ih ⟨paired, by decide, .inr other⟩)
                · exact .quote (by decide)
                    (ih ⟨paired, by decide, .inr (apart.resolve_left (by decide))⟩)
                · -- A third quote in a row: the pattern would have been found two places before.
                  exact absurd ⟨rest, rfl⟩ (apart.resolve_left (by decide))
              · exact .plain quote noBackslash (ih ⟨paired, Nat.zero_le 2, .inl rfl⟩)

/-- The text that is made harmless is harmless. -/
theorem harmless_harmless (description : String) :
    Harmless (.quotes 0) (harmless description).toList := by
  unfold harmless replaced
  simp only [String.toList_ofList]
  have doubled := (replaces_replaceAll (List.cons_ne_nil '\\' []) ['\\', '\\']
    description.toList).paired
  exact (replaces_replaceAll (List.cons_ne_nil '"' ['"', '"']) _ _).harmless
    ⟨doubled, Nat.zero_le 2, .inl rfl⟩

/-- The lines of a description are harmless. -/
theorem harmless_of_mem_linesOf {description line : String}
    (member : line ∈ linesOf (stripped (harmless description))) :
    Harmless (.quotes 0) line.toList :=
  cutsAtBlanks_harmless.linesOf_stripped (harmless_harmless description) line member

/-! ## Documentation strings -/

/-- How a line stands in a documentation string, unless it is the first. -/
def laidOut (line : String) : String :=
  if line = "" then "" else strippedRight (classIndent ++ line)

/-- An indent has no quotes. -/
theorem plain_of_mem_classIndent : ∀ c ∈ classIndent.toList, c ≠ '"' ∧ c ≠ '\\' := by
  simp [classIndent]

/-- Nor has a double one. -/
theorem plain_of_mem_indents : ∀ c ∈ (classIndent ++ classIndent).toList, c ≠ '"' ∧ c ≠ '\\' := by
  simp [classIndent]

/-- A harmless line stays so when it is laid out. -/
theorem Harmless.laidOut {line : String} (harmless : Harmless (.quotes 0) line.toList) :
    Harmless (.quotes 0) (laidOut line).toList := by
  unfold Source.laidOut
  split
  · exact .done 0
  · rw [strippedRight, String.toList_ofList, String.toList_append]
    exact cutsAtBlanks_harmless.stripRight (append_of_plain plain_of_mem_classIndent harmless)

/-- The line that names an attribute ends a string exactly if the name does. -/
theorem keepsOpen_heading_iff {name first : String} (harmless : Harmless (.quotes 0) first.toList) :
    KeepsOpen (laidOut (classIndent ++ name ++ ": " ++ first)).toList ↔ KeepsOpen name.toList := by
  have something : classIndent ++ name ++ ": " ++ first ≠ "" := by
    intro empty
    have lengths := congrArg String.length empty
    simp only [String.length_append, classIndent] at lengths
    exact absurd lengths (by simp)
  have shape : (laidOut (classIndent ++ name ++ ": " ++ first)).toList =
      (classIndent ++ classIndent).toList ++ name.toList ++
        ':' :: stripRight (' ' :: first.toList) := by
    rw [laidOut, if_neg something, strippedRight, String.toList_ofList,
      ← stripRight_append_cons (by decide)]
    simp
  rw [shape]
  have rest : Harmless (.quotes 0) (' ' :: first.toList) := .plain (by decide) (by decide) harmless
  exact keepsOpen_between_iff plain_of_mem_indents (by decide) (by decide)
    (cutsAtBlanks_harmless.stripRight rest).keepsOpen

/-- An attribute has at least one line. -/
theorem attributeLines_ne_nil (name description : String) :
    attributeLines name description ≠ [] := by
  unfold attributeLines
  split <;> exact List.cons_ne_nil _ _

/-- The lines of an attribute end a string exactly if its name does. -/
theorem keepsOpen_attributeLines_iff {name description : String} :
    (∀ line ∈ attributeLines name description, KeepsOpen (laidOut line).toList) ↔
      KeepsOpen name.toList := by
  unfold attributeLines
  split
  · rw [List.forall_mem_singleton, ← String.append_empty (s := classIndent ++ name ++ ": ")]
    exact keepsOpen_heading_iff (.done 0)
  · next first rest cut =>
      have each {line : String} (member : line ∈ first :: rest) :
          Harmless (.quotes 0) line.toList :=
        harmless_of_mem_linesOf (cut ▸ member)
      rw [List.forall_mem_cons, keepsOpen_heading_iff (each List.mem_cons_self)]
      refine and_iff_left fun line member => ?_
      obtain ⟨own, held, rfl⟩ := List.mem_map.mp member
      refine (Harmless.laidOut ?_).keepsOpen
      rw [String.toList_append, stripped, String.toList_ofList]
      exact .append_of_plain plain_of_mem_indents
        (cutsAtBlanks_harmless.strip (each (List.mem_cons_of_mem _ held)))

/-- The lines of a description, if there is one. -/
def textLines (description : Option String) : List String :=
  match description with
  | some description => linesOf (stripped (harmless description))
  | none => []

/-- The lines of a description are harmless. -/
theorem harmless_of_mem_textLines {description : Option String} {line : String}
    (member : line ∈ textLines description) : Harmless (.quotes 0) line.toList := by
  unfold textLines at member
  split at member
  · exact harmless_of_mem_linesOf member
  · cases member

/-- The lines before those of the attributes, of which there is one at least. -/
theorem exists_documentationLines_eq (description : Option String)
    {attributes : List (String × String)} (described : attributes ≠ []) :
    ∃ first others, (∀ line ∈ first :: others, Harmless (.quotes 0) line.toList) ∧
      documentationLines description attributes =
        first :: (others ++ attributes.flatMap fun entry => attributeLines entry.1 entry.2) := by
  have title : Harmless (.quotes 0) "Attributes:".toList := .of_plain (by simp)
  have gap : Harmless (.quotes 0) "".toList := .done 0
  have cut : documentationLines description attributes =
      (if (textLines description).isEmpty then [] else textLines description ++ [""]) ++
        ["Attributes:"] ++ attributes.flatMap fun entry => attributeLines entry.1 entry.2 := by
    unfold documentationLines
    rw [if_neg (by simpa using described)]
    rfl
  rw [cut]
  cases text : textLines description with
  | nil => exact ⟨"Attributes:", [], by simpa using title, rfl⟩
  | cons first others =>
      refine ⟨first, others ++ ["", "Attributes:"], ?_, by simp⟩
      intro line member
      have member : line ∈ textLines description ∨ line = "" ∨ line = "Attributes:" := by
        simpa [text, or_assoc] using member
      rcases member with own | rfl | rfl
      · exact harmless_of_mem_textLines own
      · exact gap
      · exact title

/-- The lines within a documentation string end it exactly if the name of an attribute does, and a
single line is not that of an attribute. -/
theorem keepsOpen_documentationLines {description : Option String}
    {attributes : List (String × String)} {first : String} {rest : List String}
    (cut : documentationLines description attributes = first :: rest) :
    Harmless (.quotes 0) first.toList ∧
      ((∀ line ∈ rest, KeepsOpen (laidOut line).toList) ↔
        ∀ entry ∈ attributes, KeepsOpen entry.1.toList) ∧
      (rest = [] → attributes = []) := by
  by_cases bare : attributes = []
  · subst bare
    have text : textLines description = first :: rest := cut
    have each {line : String} (member : line ∈ first :: rest) : Harmless (.quotes 0) line.toList :=
      harmless_of_mem_textLines (text ▸ member)
    refine ⟨each List.mem_cons_self, iff_of_true (fun line member => ?_) (by simp), fun _ => rfl⟩
    exact (each (List.mem_cons_of_mem _ member)).laidOut.keepsOpen
  · obtain ⟨_, others, each, same⟩ := exists_documentationLines_eq description bare
    obtain ⟨rfl, rfl⟩ := List.cons.inj (cut.symm.trans same)
    rw [List.forall_mem_cons] at each
    refine ⟨each.1, ?_, fun empty => ?_⟩
    · rw [List.forall_mem_append, List.forall_mem_flatMap]
      simp only [keepsOpen_attributeLines_iff]
      exact and_iff_right fun line member => (each.2 line member).laidOut.keepsOpen
    · obtain ⟨entry, held⟩ := List.exists_mem_of_ne_nil attributes bare
      have nothing := List.flatMap_eq_nil_iff.mp (List.append_eq_nil_iff.mp empty).2 entry held
      exact absurd nothing (attributeLines_ne_nil _ _)

/-- **Documentation strings.** There are no lines to document a class, or they are one string
between three quotes, exactly if no name of an attribute ends a string in which it stands. -/
theorem documented_iff {description : Option String} {attributes : List (String × String)} :
    documentation description attributes classIndent = [] ∨
        IsDocumentation (documentation description attributes classIndent) ↔
      ∀ entry ∈ attributes, KeepsOpen entry.1.toList := by
  unfold documentation
  cases cut : documentationLines description attributes with
  | nil =>
      have empty : attributes = [] := by
        cases attributes with
        | nil => rfl
        | cons entry rest =>
            obtain ⟨first, others, _, same⟩ :=
              exists_documentationLines_eq description (List.cons_ne_nil entry rest)
            cases cut.symm.trans same
      rw [empty]
      exact iff_of_true (.inl rfl) fun entry member => absurd member List.not_mem_nil
  | cons first rest =>
      obtain ⟨begins, others, single⟩ := keepsOpen_documentationLines cut
      dsimp only
      split
      · next alone =>
          simp only [Bool.and_eq_true, List.isEmpty_iff, Bool.not_eq_true'] at alone
          obtain ⟨rfl, noQuote⟩ := alone
          obtain ⟨count, passes, last⟩ := begins.exists_passes
          -- The closing quotes follow a line that ends with none, so that just they are counted.
          have start : Passes first.toList (.quotes 0) (.quotes 0) := by
            rcases last with rfl | empty | quote
            · exact passes
            · rw [empty]
              rfl
            · rw [endsWithQuote, quote] at noQuote
              cases noQuote
          have written : ("\n".intercalate [classIndent ++ "\"\"\"" ++ first ++ "\"\"\""]).toList =
              classIndent.toList ++ (tripleQuote ++ (first.toList ++ tripleQuote)) := by
            simp [tripleQuote]
          rw [single rfl]
          exact iff_of_true
            (.inr ((isDocumentation_iff written).mpr (start.behind?_append tripleQuote)))
            fun entry member => absurd member List.not_mem_nil
      · rw [isDocumentation_lines_iff, List.forall_mem_cons, and_iff_right begins.keepsOpen,
          List.forall_mem_map, ← others]
        exact or_iff_right (List.cons_ne_nil _ _)

end OpenApi.Source
