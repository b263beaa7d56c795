import Mathlib
import OpenApi.Proofs.Compile.Built
import OpenApi.Proofs.Text.Nesting
import OpenApi.Target

/-!
# Expressions that stay closed

Property keys, listed values, descriptions and names of a document end up inside of expressions.
Each dialect quotes them or turns them into identifiers, so an expression that is built of closed
texts is closed, and no text of a document can end it early.
-/

namespace OpenApi

open Text (Closed)

/-! ## Spellings that keep texts closed -/

/-- Every form of type of a dialect is spelled by a closed text if its parts are. -/
structure Dialect.KeepsClosed (dialect : Dialect) : Prop where
  unknown : Closed dialect.unknown.text
  primitive : ∀ kind, Closed (dialect.primitive kind).text
  reference : ∀ name, Closed (dialect.reference name).text
  enumeration : ∀ values, Closed (dialect.enumeration values).text
  array : ∀ items, Closed items → Closed (dialect.array items).text
  stringMap : ∀ values, Closed values → Closed (dialect.stringMap values).text
  union : ∀ branches, (∀ branch ∈ branches, Closed branch) → Closed (dialect.union branches).text
  nullable : ∀ inner, Closed inner → Closed (dialect.nullable inner).text
  optional : ∀ inner, Closed inner → Closed (dialect.optional inner).text
  described : ∀ spelling, dialect.described = some spelling → ∀ inner description, Closed inner →
    Closed (spelling inner description).text
  record : ∀ parts : RecordParts, (∀ field ∈ parts.fields, Closed field.expression) →
    (∀ extra ∈ parts.extras, Closed extra) →
    (∀ content, parts.additional = .values content → Closed content) →
    Closed (dialect.record parts).text

namespace TypedDict

/-- A type with closed arguments is closed. -/
theorem closed_generic {name : String} {arguments : List String} (closed : Closed name)
    (each : ∀ argument ∈ arguments, Closed argument) : Closed (generic name arguments) :=
  .within (Text.Leads.append closed rfl) (.intercalate (by decide) each) rfl

/-- A literal is closed, whatever it writes. -/
theorem closed_literal (value : Value) : Closed (literal value) := by
  unfold literal
  split
  · next truth => cases truth <;> decide
  · exact (Text.isNumeric_int _).isPlain.closed
  · exact (Text.isPlain_render (by decide) (by decide) _).closed
  · exact Text.closed_quoted _
  · exact Text.closed_quoted _

/-- An enumeration is closed. -/
theorem closed_enumeration (values : List Value) : Closed (enumeration values).text := by
  unfold enumeration
  split
  · decide
  · exact closed_generic (by decide) fun argument member => by
      obtain ⟨value, _, rfl⟩ := List.mem_map.mp member
      exact closed_literal value

/-- A union of closed types is closed. -/
theorem closed_union {branches : List String} (each : ∀ branch ∈ branches, Closed branch) :
    Closed (union branches).text := by
  have kept : ∀ branch ∈ branches.eraseDups, Closed branch :=
    fun branch member => each branch (List.mem_eraseDups.mp member)
  unfold union
  split
  · next member single => exact kept member (single ▸ List.mem_cons_self)
  · exact closed_generic (by decide) kept

/-- Class modules keep types closed. -/
theorem keepsClosed_dialect : dialect.KeepsClosed where
  unknown := by decide
  primitive kind := by cases kind <;> decide
  reference name := (Text.isPlain_ofName name).enclosed.closed_between_quotes
  enumeration := closed_enumeration
  array items closed := closed_generic (by decide) closed.only
  stringMap values closed := closed_generic (by decide) fun argument member => by
    rcases List.mem_cons.mp member with rfl | last
    · decide
    · exact closed.only argument last
  union branches each := closed_union each
  nullable inner closed := closed_generic (by decide) closed.only
  optional inner closed := closed_generic (by decide) closed.only
  described spelling none := nomatch none
  record parts _ _ _ := (Text.isPlain_ofName parts.name).closed

end TypedDict

namespace Zod

/-- A call with closed arguments is closed. -/
theorem closed_call {function : String} {arguments : List String} (closed : Closed function)
    (each : ∀ argument ∈ arguments, Closed argument) : Closed (call function arguments) :=
  .within (Text.Leads.append closed rfl) (.intercalate (by decide) each) rfl

/-- A list of closed items in brackets is closed. -/
theorem closed_bracketed {items : List String} (each : ∀ item ∈ items, Closed item) :
    Closed (bracketed items) :=
  .within rfl (.intercalate (by decide) each) rfl

/-- Values are written as closed literals. -/
theorem closed_literals (values : List Value) :
    ∀ literal ∈ values.map Json.compact, Closed literal := by
  intro literal member
  obtain ⟨value, _, rfl⟩ := List.mem_map.mp member
  exact Text.closed_compact value

/-- An enumeration is closed in a Zod module, too. -/
theorem closed_enumeration (values : List Value) : Closed (enumeration values) := by
  have literals := closed_literals values
  unfold enumeration
  dsimp only
  split
  · decide
  · split
    · exact closed_call (by decide) (closed_bracketed literals).only
    · split
      · next literal single =>
          exact closed_call (by decide) (literals literal (single ▸ List.mem_cons_self)).only
      · refine closed_call (by decide) (closed_bracketed fun item member => ?_).only
        obtain ⟨literal, held, rfl⟩ := List.mem_map.mp member
        exact closed_call (by decide) (literals literal held).only

/-- The types of single values are closed. -/
theorem closed_primitive (kind : Primitive) : Closed (primitive kind) := by
  cases kind <;> decide

/-- A reference is closed, whatever name it is to. -/
theorem closed_reference (suffix name : String) : Closed (reference suffix name) :=
  .within rfl (Text.isPlain_ofName _).closed rfl

/-- A member of an object is closed if its type is. -/
theorem closed_members {parts : RecordParts}
    (fields : ∀ field ∈ parts.fields, Closed field.expression) :
    ∀ member ∈ parts.fields.map fun field => Text.quoted field.name ++ ": " ++ field.expression,
      Closed member := by
  intro member listed
  obtain ⟨field, held, rfl⟩ := List.mem_map.mp listed
  exact ((Text.closed_quoted field.name).append (by decide)).append (fields field held)

/-- The body of an object is closed if its fields are and what further properties may hold is. -/
theorem closed_body {parts : RecordParts} (fields : ∀ field ∈ parts.fields, Closed field.expression)
    (additional : ∀ content, parts.additional = .values content → Closed content) :
    Closed (body parts) := by
  have members := closed_members fields
  unfold body
  dsimp only
  generalize listed : (if (parts.fields.map fun field =>
    Text.quoted field.name ++ ": " ++ field.expression).isEmpty then _ else _) = object
  have closed : Closed object := by
    rw [← listed]
    split
    · decide
    · exact .within rfl (.intercalate (by decide) members) rfl
  split
  · next content stated =>
      exact .within (Text.Leads.append closed rfl) (additional content stated) rfl
  · split
    · exact closed.append (by decide)
    · exact closed
  · exact closed

/-- An intersection of closed types is closed. -/
theorem closed_intersection {parts : List String} (each : ∀ part ∈ parts, Closed part) :
    Closed (intersection parts) := by
  cases parts with
  | nil => decide
  | cons first rest =>
      refine (each first List.mem_cons_self).append (.join fun item member => ?_)
      obtain ⟨part, held, rfl⟩ := List.mem_map.mp member
      exact .within rfl (each part (List.mem_cons_of_mem _ held)) rfl

/-- Zod modules keep types closed. -/
theorem keepsClosed_dialect (suffix : String) : (dialect suffix).KeepsClosed where
  unknown := show Closed "z.unknown()" by decide
  primitive := closed_primitive
  reference := closed_reference suffix
  enumeration := closed_enumeration
  array items closed := closed_call (by decide) closed.only
  stringMap values closed := closed_call (by decide) fun argument member => by
    rcases List.mem_cons.mp member with rfl | last
    · decide
    · exact closed.only argument last
  union branches each := closed_call (by decide) (closed_bracketed each).only
  nullable inner closed := closed.append (by decide)
  optional inner closed := closed.append (by decide)
  described := by
    rintro spelling ⟨⟩ inner description closed
    exact .within (Text.Leads.append closed rfl) (Text.closed_quoted _) rfl
  record parts fields extras additional := by
    refine closed_intersection fun part member => ?_
    rcases List.mem_append.mp member with early | extra
    · rcases List.mem_append.mp early with base | own
      · obtain ⟨name, _, rfl⟩ := List.mem_map.mp base
        exact closed_reference suffix name
      · split at own
        · exact List.mem_singleton.mp own ▸ closed_body fields additional
        · cases own
    · exact extras part extra

end Zod

/-- Both targets keep types closed. -/
theorem Target.keepsClosed_dialect (target : Target) : target.dialect.KeepsClosed := by
  cases target with
  | zod suffix => exact Zod.keepsClosed_dialect suffix
  | typedDict => exact TypedDict.keepsClosed_dialect

/-! ## Types whose texts are closed -/

/-- The expression of a type and those of its fields are closed. -/
structure TypeExpr.IsClosed (type : TypeExpr) : Prop where
  expression : Closed type.expression
  fields : ∀ field ∈ type.fields, Closed field.expression

namespace TypeExpr.IsClosed

/-- What is put together of parts has no fields, so its text alone has to be closed. -/
theorem combine {spelling : Spelling} {parts : List Compiled} (text : Closed spelling.text) :
    (spelling.combine parts).type.IsClosed :=
  ⟨text, fun _ none => absurd none List.not_mem_nil⟩

end TypeExpr.IsClosed

namespace Dialect.KeepsClosed

variable {dialect : Dialect}

/-- A dialect that keeps spellings closed keeps types closed. -/
theorem keeps (keeps : dialect.KeepsClosed) :
    dialect.Keeps TypeExpr.IsClosed TypeExpr.IsClosed where
  unknown := .combine keeps.unknown
  primitive kind := .combine (keeps.primitive kind)
  enumeration values := .combine (keeps.enumeration values)
  reference name _ := ⟨keeps.reference name, fun _ none => absurd none List.not_mem_nil⟩
  array items closed := .combine (keeps.array _ closed.expression)
  stringMap values closed := .combine (keeps.stringMap _ closed.expression)
  union branches closed := .combine (keeps.union _ fun text member => by
    obtain ⟨branch, held, rfl⟩ := List.mem_map.mp member
    exact (closed branch held).expression)
  nullable content closed := .combine (keeps.nullable _ closed.expression)
  optional content closed := .combine (keeps.optional _ closed.expression)
  described spelling described content description closed :=
    .combine (keeps.described spelling described _ description closed.expression)
  record name fields bases extras additional ofFields ofExtras ofFurther := by
    have own : ∀ field ∈ fields.map Prod.fst, Closed field.expression := by
      intro field member
      obtain ⟨pair, held, rfl⟩ := List.mem_map.mp member
      obtain ⟨same, closed⟩ := ofFields pair held
      exact same ▸ closed.expression
    refine ⟨keeps.record _ own ?_ ?_, own⟩
    · intro extra member
      obtain ⟨part, held, rfl⟩ := List.mem_map.mp member
      exact (ofExtras part held).expression
    · intro content stated
      cases additional with
      | values values => cases stated; exact (ofFurther values rfl).expression
      | allowed | unstated => cases stated
  mention _ name type _ := ⟨keeps.reference name, fun _ none => absurd none List.not_mem_nil⟩
  inPlace _ _ closed := closed

/-- A compiled schema is closed, and so are the definitions that it brings. -/
theorem compile (keeps : dialect.KeepsClosed) {name : String} {schema : Schema} {scope : Scope}
    {compiled : Compiled} (run : (dialect.compile name schema scope).Yields compiled) :
    compiled.Has TypeExpr.IsClosed TypeExpr.IsClosed := by
  have has := keeps.keeps.compile run
  rwa [ite_self] at has

end Dialect.KeepsClosed

/-! ## Compiled schemas -/

/-- **Texts of a document stay inside of their quotes.** Whatever a schema says, and whatever it and
the schemas around it are called, every expression that compiling it yields is closed: its own,
those of its fields, and those of the definitions that come along and of their fields.  Each of them
stays on one line, ends outside of quotes, and has all its brackets closed by their partners. -/
theorem closed_of_compile (target : Target) (name : String) (schema : Schema) (scope : Scope)
    (compiled : Compiled) (run : (target.dialect.compile name schema scope).Yields compiled) :
    (Closed compiled.expression ∧ ∀ field ∈ compiled.type.fields, Closed field.expression) ∧
      ∀ definition ∈ compiled.auxiliary, Closed definition.type.expression ∧
        ∀ field ∈ definition.type.fields, Closed field.expression := by
  obtain ⟨own, auxiliary⟩ := target.keepsClosed_dialect.compile run
  exact ⟨⟨own.expression, own.fields⟩, fun definition member =>
    ⟨(auxiliary definition member).expression, (auxiliary definition member).fields⟩⟩

/-- A record with quotes, backslashes, brackets and line feeds wherever a document may have them. -/
def trap : Schema :=
  .object {} (some [(.text "a\"]\n", .object { description := some "\"" }
    (some [(.text ")", .enumeration {} [.text "\\\""])]) [] .unstated)]) [] .unstated

theorem closed_of_compile_trap :
    ∃ compiled, (Target.typedDict.dialect.compile "Trap (" trap { taken := ∅ }).Yields compiled ∧
      compiled.auxiliary.map (·.type.fields.map Field.expression) =
        [["NotRequired[Literal[\"\\\\\\\"\"]]"]] ∧
      ((Closed compiled.expression ∧ ∀ field ∈ compiled.type.fields, Closed field.expression) ∧
        ∀ definition ∈ compiled.auxiliary, Closed definition.type.expression ∧
          ∀ field ∈ definition.type.fields, Closed field.expression) := by
  have built : (Target.typedDict.dialect.compile "Trap (" trap { taken := ∅ }).outcome.toOption.map
      (fun compiled => compiled.auxiliary.map (·.type.fields.map Field.expression)) =
        some [["NotRequired[Literal[\"\\\\\\\"\"]]"]] := by cbv
  cases held : (Target.typedDict.dialect.compile "Trap (" trap { taken := ∅ }).outcome with
  | error fault => simp [held, Except.toOption] at built
  | ok compiled =>
      rw [held] at built
      exact ⟨compiled, held, Option.some.inj built,
        closed_of_compile .typedDict "Trap (" trap { taken := ∅ } compiled held⟩

end OpenApi
