import OpenApi.Proofs.Compile.ClosedText

/-!
# Marks of properties that may be absent

The expression of a field is marked if the property may be absent (`Dialect.Marks`).  The marks can be
told from everything else that a dialect writes: a Zod expression ends in a call of a function of the
library other than the mark, and an annotation starts with another name than the mark.  So fields are
marked exactly if they are not required (`Dialect.Forms.keepsFields`).
-/

namespace OpenApi

open Text (Closed)

/-- A text is marked as that of a property that may be absent. -/
def Dialect.Marks (dialect : Dialect) (text : String) : Prop :=
  ∃ inner, text = (dialect.optional inner).text

/-- All types but those of properties that may be absent are spelled by texts of a form, and no text
of this form is marked. -/
structure Dialect.Forms (dialect : Dialect) (form : String → Prop) : Prop where
  unknown : form dialect.unknown.text
  primitive : ∀ kind, form (dialect.primitive kind).text
  reference : ∀ name, form (dialect.reference name).text
  enumeration : ∀ values, form (dialect.enumeration values).text
  array : ∀ items, Closed items → form (dialect.array items).text
  stringMap : ∀ values, Closed values → form (dialect.stringMap values).text
  union : ∀ branches, (∀ branch ∈ branches, Closed branch ∧ form branch) →
    form (dialect.union branches).text
  nullable : ∀ inner, Closed inner → form (dialect.nullable inner).text
  described : ∀ spelling, dialect.described = some spelling → ∀ inner description, Closed inner →
    form (spelling inner description).text
  record : ∀ parts : RecordParts, (∀ field ∈ parts.fields, Closed field.expression) →
    (∀ extra ∈ parts.extras, Closed extra ∧ form extra) →
    (∀ content, parts.additional = .values content → Closed content) →
    form (dialect.record parts).text
  unmarked : ∀ text, form text → ¬dialect.Marks text

/-! ## Calls -/

namespace Zod

/-- The functions of which a Zod expression ends in a call, unless the property may be absent. -/
def functions : List String :=
  ["z.unknown", "z.string", ".int", "z.number", "z.boolean", "z.never", "z.enum", "z.literal",
    "z.union", "z.lazy", "z.array", "z.record", "z.object", ".catchall", ".strict", ".and",
    ".nullable", ".describe"]

/-- A text ends in a call of one of these functions. -/
def EndsInCall (text : String) : Prop :=
  ∃ before argument, ∃ function ∈ functions,
    text = before ++ function ++ "(" ++ argument ++ ")" ∧ Closed argument

/-- A call ends in a call. -/
theorem EndsInCall.of_call {function : String} {arguments : List String}
    (known : function ∈ functions) (closed : ∀ argument ∈ arguments, Closed argument) :
    EndsInCall (call function arguments) :=
  ⟨"", ", ".intercalate arguments, function, known, by simp [call],
    .intercalate (by decide) closed⟩

/-- No closed text ends with an opening bracket. -/
theorem not_closed_of_open {cs : List Char} : ¬Text.Reads (cs ++ ['(']) ⟨[], .outside⟩
    ⟨[], .outside⟩ := by
  intro closed
  rw [Text.Reads, List.foldlM_append, Option.bind_eq_bind, Option.bind_eq_some_iff] at closed
  obtain ⟨⟨awaited, position⟩, -, last⟩ := closed
  cases position <;> simp [Text.Reader.read, Text.awaitedAfter, Text.closing?] at last

/-- The mark is a call of another function. -/
theorem not_suffix_optional : ∀ function ∈ functions,
    ¬function.toList <:+ ".optional".toList ∧ ¬".optional".toList <:+ function.toList := by
  decide

/-- What ends in another call carries no mark. -/
theorem EndsInCall.not_marks {suffix text : String} (ends : EndsInCall text) :
    ¬(dialect suffix).Marks text := by
  rintro ⟨inner, marked⟩
  obtain ⟨before, argument, function, known, rfl, closed⟩ := ends
  have same : before.toList ++ function.toList ++ ['('] ++ argument.toList =
      inner.toList ++ ".optional".toList ++ ['('] := by
    have whole : before.toList ++ function.toList ++ ['('] ++ argument.toList ++ [')'] =
        inner.toList ++ ".optional".toList ++ ['('] ++ [')'] := by
      simpa [dialect] using congrArg String.toList marked
    exact List.append_cancel_right whole
  rcases List.eq_nil_or_concat' argument.toList with nothing | ⟨others, last, some⟩
  · -- Without an argument the two functions end in the same place.
    rw [nothing, List.append_nil] at same
    have ends := List.append_cancel_right same
    obtain ⟨shorter, longer⟩ := not_suffix_optional function known
    rcases List.suffix_or_suffix_of_suffix (List.suffix_append before.toList function.toList)
      (ends ▸ List.suffix_append inner.toList ".optional".toList) with short | long
    · exact shorter short
    · exact longer long
  · -- The last character of an argument is no opening bracket.
    rw [some, ← List.append_assoc] at same
    obtain ⟨-, rfl⟩ := List.append_singleton_inj.mp same
    rw [Closed, Text.Leads, some] at closed
    exact not_closed_of_open closed

/-- An enumeration ends in a call. -/
theorem endsInCall_enumeration (values : List Value) : EndsInCall (enumeration values) := by
  have literals := closed_literals values
  unfold enumeration
  dsimp only
  split
  · exact ⟨"", "", "z.never", by decide, rfl, by decide⟩
  · split
    · exact .of_call (by decide) (closed_bracketed literals).only
    · split
      · next literal single =>
          exact .of_call (by decide) (literals literal (single ▸ List.mem_cons_self)).only
      · refine .of_call (by decide) (closed_bracketed fun item member => ?_).only
        obtain ⟨literal, held, rfl⟩ := List.mem_map.mp member
        exact closed_call (by decide) (literals literal held).only

/-- A reference ends in a call. -/
theorem endsInCall_reference (suffix name : String) : EndsInCall (reference suffix name) := by
  have closed : Closed ("() => " ++ schemaName name suffix) :=
    Closed.append (by decide) (Text.isPlain_ofName _).closed
  exact ⟨"", "() => " ++ schemaName name suffix, "z.lazy", by decide,
    String.toList_inj.mp (by simp [reference]), closed⟩

/-- The body of an object ends in a call. -/
theorem endsInCall_body {parts : RecordParts}
    (fields : ∀ field ∈ parts.fields, Closed field.expression)
    (additional : ∀ content, parts.additional = .values content → Closed content) :
    EndsInCall (body parts) := by
  have members := closed_members fields
  unfold body
  dsimp only
  generalize listed : (if (parts.fields.map fun field =>
    Text.quoted field.name ++ ": " ++ field.expression).isEmpty then _ else _) = object
  have ends : EndsInCall object := by
    rw [← listed]
    split
    · exact ⟨"", "\x7b\x7d", "z.object", by decide, rfl, by decide⟩
    · refine ⟨"", "\x7b " ++ ", ".intercalate (parts.fields.map fun field =>
        Text.quoted field.name ++ ": " ++ field.expression) ++ " \x7d", "z.object", by decide,
          String.toList_inj.mp (by simp), ?_⟩
      exact .within rfl (.intercalate (by decide) members) rfl
  split
  · next content stated =>
      exact ⟨object, content, ".catchall", by decide, by simp [String.append_assoc],
        additional content stated⟩
  · split
    · exact ⟨object, "", ".strict", by decide, by simp [String.append_assoc], by decide⟩
    · exact ends
  · exact ends

/-- An intersection ends in a call if all its parts do. -/
theorem endsInCall_intersection {parts : List String} (some : parts ≠ [])
    (each : ∀ part ∈ parts, Closed part ∧ EndsInCall part) : EndsInCall (intersection parts) := by
  cases parts with
  | nil => exact absurd rfl some
  | cons first rest =>
      rcases List.eq_nil_or_concat' rest with rfl | ⟨others, last, rfl⟩
      · simpa [intersection, String.join] using (each first List.mem_cons_self).2
      · -- The last part is the argument of the last call.
        have closed := (each last (by simp)).1
        refine ⟨first ++ String.join (others.map fun part => ".and(" ++ part ++ ")"), last, ".and",
          by decide, String.toList_inj.mp ?_, closed⟩
        simp [intersection]

/-- A record has a body or builds on something. -/
theorem parts_ne_nil (suffix : String) (parts : RecordParts) :
    parts.bases.map (reference suffix) ++ (if hasBody parts then [body parts] else []) ++
      parts.extras ≠ [] := by
  by_cases own : hasBody parts
  · simp [own]
  · have bases : parts.bases ≠ [] := by
      rintro none
      simp [hasBody, none] at own
    simp [bases]

/-- Every type of a Zod module ends in a call. -/
theorem forms_dialect (suffix : String) : (dialect suffix).Forms EndsInCall where
  unknown := ⟨"", "", "z.unknown", by decide, rfl, by decide⟩
  primitive kind := by
    cases kind with
    | string => exact ⟨"", "", "z.string", by decide, rfl, by decide⟩
    | integer => exact ⟨"z.number()", "", ".int", by decide, rfl, by decide⟩
    | number => exact ⟨"", "", "z.number", by decide, rfl, by decide⟩
    | boolean => exact ⟨"", "", "z.boolean", by decide, rfl, by decide⟩
  reference := endsInCall_reference suffix
  enumeration := endsInCall_enumeration
  array items closed := .of_call (by decide) closed.only
  stringMap values closed := .of_call (by decide) fun argument member => by
    rcases List.mem_cons.mp member with rfl | last
    · decide
    · exact closed.only argument last
  union branches each := .of_call (by decide)
    (closed_bracketed fun branch member => (each branch member).1).only
  nullable inner closed :=
    ⟨inner, "", ".nullable", by decide, by simp [dialect, String.append_assoc], by decide⟩
  described := by
    rintro spelling ⟨⟩ inner description closed
    exact ⟨inner, Text.quoted (Text.singleLine description), ".describe", by decide,
      by simp [String.append_assoc], Text.closed_quoted _⟩
  record parts fields extras additional := by
    refine endsInCall_intersection (parts_ne_nil suffix parts) fun part member => ?_
    rcases List.mem_append.mp member with early | extra
    · rcases List.mem_append.mp early with base | own
      · obtain ⟨name, _, rfl⟩ := List.mem_map.mp base
        exact ⟨closed_reference suffix name, endsInCall_reference suffix name⟩
      · split at own
        · exact List.mem_singleton.mp own ▸
            ⟨closed_body fields additional, endsInCall_body fields additional⟩
        · cases own
    · exact extras part extra
  unmarked text ends := ends.not_marks

end Zod

/-! ## Annotations -/

namespace TypedDict

/-- A text does not start as the annotation of a property that may be absent. -/
def StartsOtherwise (text : String) : Prop := ¬"NotRequired[".toList <+: text.toList

/-- A type with arguments starts otherwise if its name does. -/
theorem startsOtherwise_generic {name : String} {arguments : List String}
    (apart : ¬"NotRequired[".toList <+: (name ++ "[").toList ∧
      ¬(name ++ "[").toList <+: "NotRequired[".toList) :
    StartsOtherwise (generic name arguments) := by
  intro starts
  have own : (name ++ "[").toList <+: (generic name arguments).toList := by
    simp only [generic, String.toList_append, List.append_assoc]
    exact List.prefix_append_right_inj _ |>.mpr (List.prefix_append _ _)
  rcases List.prefix_or_prefix_of_prefix starts own with short | long
  · exact apart.1 short
  · exact apart.2 long

/-- A plain type starts otherwise, as it has no bracket. -/
theorem startsOtherwise_of_isPlain {text : String} (plain : Text.IsPlain text) :
    StartsOtherwise text := by
  intro starts
  have bracket : '[' ∈ text.toList := starts.subset (by decide)
  exact absurd (plain '[' bracket) (by decide)

/-- An enumeration starts otherwise. -/
theorem startsOtherwise_enumeration (values : List Value) :
    StartsOtherwise (enumeration values).text := by
  unfold enumeration
  split
  · exact startsOtherwise_of_isPlain (by decide)
  · exact startsOtherwise_generic (by decide)

/-- A union starts otherwise if its branches do. -/
theorem startsOtherwise_union {branches : List String}
    (each : ∀ branch ∈ branches, StartsOtherwise branch) :
    StartsOtherwise (union branches).text := by
  unfold union
  split
  · next member single =>
      exact each member (List.mem_eraseDups.mp (single ▸ List.mem_cons_self))
  · exact startsOtherwise_generic (by decide)

/-- Every annotation of a class module starts otherwise. -/
theorem forms_dialect : dialect.Forms StartsOtherwise where
  unknown := startsOtherwise_of_isPlain (by decide)
  primitive kind := startsOtherwise_of_isPlain (by cases kind <;> decide)
  reference name := by
    rintro ⟨rest, starts⟩
    simp [dialect, reference] at starts
  enumeration := startsOtherwise_enumeration
  array items _ := startsOtherwise_generic (by decide)
  stringMap values _ := startsOtherwise_generic (by decide)
  union branches each := startsOtherwise_union fun branch member => (each branch member).2
  nullable inner _ := startsOtherwise_generic (by decide)
  described spelling none := nomatch none
  record parts _ _ _ := startsOtherwise_of_isPlain (Text.isPlain_ofName parts.name)
  unmarked text otherwise := by
    rintro ⟨inner, rfl⟩
    refine otherwise ⟨(inner ++ "]").toList, ?_⟩
    simp [dialect, generic]

end TypedDict

/-! ## Fields of compiled records -/

/-- A text is closed and of a form. -/
def TypeExpr.Shows (form : String → Prop) (type : TypeExpr) : Prop :=
  Closed type.expression ∧ form type.expression

/-- The fields of a type are marked exactly if they are not required. -/
structure TypeExpr.ShowsMarks (dialect : Dialect) (form : String → Prop) (type : TypeExpr) :
    Prop where
  shows : type.Shows form
  fields : ∀ field ∈ type.fields, field.required = false ↔ dialect.Marks field.expression

/-- A dialect whose types have a form marks the fields that are not required, and no others. -/
theorem Dialect.Forms.keepsFields {dialect : Dialect} {form : String → Prop}
    (forms : dialect.Forms form) (closed : dialect.KeepsClosed) :
    dialect.KeepsFields (TypeExpr.Shows form) (TypeExpr.Shows dialect.Marks)
      (TypeExpr.ShowsMarks dialect form) where
  unknown := ⟨closed.unknown, forms.unknown⟩
  primitive kind := ⟨closed.primitive kind, forms.primitive kind⟩
  enumeration values := ⟨closed.enumeration values, forms.enumeration values⟩
  reference name _ := ⟨closed.reference name, forms.reference name⟩
  array items shows := ⟨closed.array _ shows.1, forms.array _ shows.1⟩
  stringMap values shows := ⟨closed.stringMap _ shows.1, forms.stringMap _ shows.1⟩
  union branches shows := by
    have each : ∀ text ∈ branches.map (·.expression), Closed text ∧ form text := by
      intro text member
      obtain ⟨branch, held, rfl⟩ := List.mem_map.mp member
      exact shows branch held
    exact ⟨closed.union _ fun text member => (each text member).1, forms.union _ each⟩
  nullable content shows := ⟨closed.nullable _ shows.1, forms.nullable _ shows.1⟩
  optional content shows := ⟨closed.optional _ shows.1, content.expression, rfl⟩
  described spelling described content description shows :=
    ⟨closed.described spelling described _ description shows.1,
      forms.described spelling described _ description shows.1⟩
  record name fields bases extras additional ofFields ofExtras ofFurther := by
    have closedFields : ∀ field ∈ fields.map Prod.fst, Closed field.expression := by
      intro field member
      obtain ⟨pair, held, rfl⟩ := List.mem_map.mp member
      obtain ⟨same, shows⟩ := ofFields pair held
      rw [same]
      split at shows
      · exact shows.1
      · exact shows.1
    have shownExtras : ∀ extra ∈ extras.map (·.expression), Closed extra ∧ form extra := by
      intro extra member
      obtain ⟨part, held, rfl⟩ := List.mem_map.mp member
      exact ofExtras part held
    have closedFurther : ∀ content, Dialect.statedOf additional = .values content →
        Closed content := by
      intro content stated
      cases additional with
      | values values =>
          cases stated
          exact (ofFurther values rfl).1
      | allowed | unstated => cases stated
    refine ⟨⟨?_, ?_⟩, ?_⟩
    · exact closed.record _ closedFields (fun extra member => (shownExtras extra member).1)
        closedFurther
    · exact forms.record _ closedFields shownExtras closedFurther
    · intro field member
      obtain ⟨pair, held, rfl⟩ := List.mem_map.mp member
      obtain ⟨same, shows⟩ := ofFields pair held
      rw [same]
      by_cases required : pair.1.required
      · rw [if_pos required] at shows
        exact ⟨fun absent => absurd required (by simp [absent]),
          fun marked => absurd marked (forms.unmarked _ shows.2)⟩
      · rw [if_neg required] at shows
        exact ⟨fun _ => shows.2, fun _ => Bool.eq_false_iff.mpr required⟩
  mention _ name type _ := ⟨closed.reference name, forms.reference name⟩
  inPlace _ _ shows := shows.shows

end OpenApi
