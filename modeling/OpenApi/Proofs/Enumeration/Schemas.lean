import OpenApi.Dialect.Zod
import OpenApi.Proofs.Json.Written
import OpenApi.Reference

/-!
# Listed values in schemas

A schema of listed values is an enumeration if all of them are texts, a literal of the one value if
there is only one, and else a union of literals.  Each value is written by the rules of JSON, so the
list or the literals are read back as the values.  The values are found again in the whole
expression, too: a quoted text goes on to its own closing quote whatever stands in it, so that a
bracket or a comma of a text is never taken for one that stands between values
(`readEnumeration`).
-/

namespace OpenApi

/-- The values that keep their type in a list of values: texts, truth values, and whole numbers that
can be written. -/
inductive Value.IsListed : Value → Prop
  | text (content : String) : IsListed (.text content)
  | bool (truth : Bool) : IsListed (.bool truth)
  | int {number : Int} (writable : Decimal.isWritable number) : IsListed (.int number)

namespace Value.IsListed

variable {value : Value}

/-- Values that may be listed are kept by JSON. -/
theorem isJson (listed : value.IsListed) : value.IsJson := by
  cases listed with
  | text content => exact .text content
  | bool truth => exact .bool truth
  | int writable => exact .int writable

/-- A listed value is written in one line of visible characters. -/
theorem writes_compact (listed : value.IsListed) :
    Json.Writes (Json.compact value).toList value := by
  have visible (c : Char) (shown : Text.isVisibleAscii c) : 32 ≤ c.toNat := by
    simp only [Text.isVisibleAscii, Bool.and_eq_true, decide_eq_true_iff] at shown
    exact shown.1
  have json := listed.isJson
  cases listed <;> exact Json.writes_scalar visible json

end Value.IsListed

namespace Zod

open Reference (after?)

/-! ## The three forms -/

/-- The literal of a written value. -/
def literal (written : String) : String := call "z.literal" [written]

variable {values : List Value}

/-- Texts are listed as such. -/
theorem enumeration_of_texts (some : values ≠ []) (texts : ∀ value ∈ values, value.text?.isSome) :
    enumeration values = call "z.enum" [bracketed (values.map Json.compact)] := by
  unfold enumeration
  rw [if_neg (by simpa using some), if_pos (by simpa using texts)]

/-- A single other value is a literal. -/
theorem enumeration_of_single {value : Value} (other : value.text? = none) :
    enumeration [value] = literal (Json.compact value) := by
  simp [enumeration, other, literal]

/-- Several values, not all of them texts, are a union of literals. -/
theorem enumeration_of_several (mixed : ∃ value ∈ values, value.text? = none)
    (several : values.length ≠ 1) :
    enumeration values =
      call "z.union" [bracketed ((values.map Json.compact).map literal)] := by
  obtain ⟨value, member, other⟩ := mixed
  unfold enumeration
  rw [if_neg, if_neg]
  · split
    · next single =>
        have length := congrArg List.length single
        rw [List.length_map] at length
        exact absurd length several
    · rfl
  · rw [List.all_eq_true]
    intro texts
    simpa [other] using texts value member
  · simp [List.ne_nil_of_mem member]

/-! ## Reading an expression -/

/-- Literals between commas, up to the brackets that close the union. -/
def readLiterals : Nat → List Char → Option (List Value)
  | 0, _ => none
  | fuel + 1, cs =>
    match after? "z.literal(".toList cs with
    | none => none
    | some cs =>
      match Json.readValue fuel cs with
      | .ok (value, ')' :: rest) =>
        match rest with
        | [']', ')'] => some [value]
        | ',' :: ' ' :: rest => (readLiterals fuel rest).map (value :: ·)
        | _ => none
      | _ => none

/-- The values that a schema lists, from its expression. -/
def readEnumeration (expression : String) : Option (List Value) :=
  let cs := expression.toList
  match after? "z.enum(".toList cs with
  | some list =>
    match Json.readValue cs.length list with
    | .ok (.list values, [')']) => some values
    | _ => none
  | none =>
    match after? "z.literal(".toList cs with
    | some written =>
      match Json.readValue cs.length written with
      | .ok (value, [')']) => some [value]
      | _ => none
    | none => (after? "z.union([".toList cs).bind (readLiterals cs.length)

/-- Behind a beginning stands the rest. -/
theorem after?_append (beginning rest : List Char) :
    after? beginning (beginning ++ rest) = some rest :=
  Reference.after?_eq_some_iff.mpr rfl

/-- A literal is the value between parentheses. -/
theorem literal_eq (written : String) : literal written = "z.literal(" ++ written ++ ")" := by
  simp [literal, call]

theorem toList_literal (written : String) :
    (literal written).toList = "z.literal(".toList ++ (written.toList ++ [')']) := by
  simp [literal_eq]

/-- The characters of a list in brackets. -/
theorem toList_bracketed (items : List String) :
    (bracketed items).toList =
      '[' :: ([',', ' '].intercalate (items.map String.toList) ++ [']']) := by
  simp [bracketed, String.toList_intercalate]

/-- The values stand between brackets as a list. -/
theorem writes_bracketed (some : values ≠ []) (listed : ∀ value ∈ values, value.IsListed) :
    Json.Writes (bracketed (values.map Json.compact)).toList (.list values) := by
  have each : List.Forall₂ Json.Writes ((values.map Json.compact).map String.toList) values := by
    rw [List.map_map, List.forall₂_map_left_iff, List.forall₂_same]
    exact fun value member => (listed value member).writes_compact
  have nothing : ∀ c ∈ ([] : List Char), Json.isSpace c := by simp
  have blank : ∀ c ∈ [' '], Json.isSpace c := by simp [Json.isSpace]
  have list := Json.writes_list nothing blank nothing each (by simpa using some)
  rw [toList_bracketed]
  simpa using list

/-- A literal is read, and what comes behind its parenthesis decides whether another one follows. -/
theorem readLiterals_literal {value : Value} (listed : value.IsListed) {fuel : Nat}
    {rest : List Char} (enough : (Json.compact value).toList.length ≤ fuel) :
    readLiterals (fuel + 1) ((literal (Json.compact value)).toList ++ rest) =
      match rest with
      | [']', ')'] => some [value]
      | ',' :: ' ' :: rest => (readLiterals fuel rest).map (value :: ·)
      | _ => none := by
  have ends : Json.EndsNumber (')' :: rest) := Json.endsNumber_cons (by decide)
  have read := listed.writes_compact.reads enough ends
  rw [toList_literal, List.append_assoc, List.append_assoc, List.singleton_append, readLiterals,
    after?_append]
  dsimp only
  rw [read]
  rfl

/-- Literals are read one after the other, up to the last one. -/
theorem readLiterals_intercalate (nonempty : values ≠ [])
    (listed : ∀ value ∈ values, value.IsListed) {fuel : Nat}
    (enough : ([',', ' '].intercalate (values.map fun value =>
      (literal (Json.compact value)).toList)).length ≤ fuel) :
    readLiterals fuel ([',', ' '].intercalate (values.map fun value =>
      (literal (Json.compact value)).toList) ++ [']', ')']) = some values := by
  induction values generalizing fuel with
  | nil => exact absurd rfl nonempty
  | cons value rest ih =>
      rw [List.forall_mem_cons] at listed
      have shorter : (Json.compact value).toList.length <
          (literal (Json.compact value)).toList.length := by
        simp [toList_literal]
        omega
      cases rest with
      | nil =>
          rw [List.map_singleton, List.intercalate_singleton] at enough ⊢
          obtain ⟨fuel, rfl⟩ : ∃ less, fuel = less + 1 := ⟨fuel - 1, by omega⟩
          exact readLiterals_literal listed.1 (by omega)
      | cons second rest =>
          rw [List.map_cons, List.map_cons, List.intercalate_cons_cons] at enough ⊢
          simp only [List.length_append, List.length_cons] at enough
          obtain ⟨fuel, rfl⟩ : ∃ less, fuel = less + 1 := ⟨fuel - 1, by omega⟩
          have later := ih (List.cons_ne_nil _ _) listed.2 (show _ ≤ fuel by
            rw [List.map_cons]
            omega)
          rw [List.append_assoc, List.append_assoc, readLiterals_literal listed.1 (by omega)]
          exact congrArg (Option.map (value :: ·)) later

/-- The characters of a call. -/
theorem toList_call (function argument : String) :
    (call function [argument]).toList = (function ++ "(").toList ++ (argument.toList ++ [')']) := by
  simp [call]

theorem endsNumber_parenthesis : Json.EndsNumber [')'] :=
  Json.endsNumber_cons (by decide)

/-- A list of texts is read back. -/
theorem readEnumeration_bracketed (nonempty : values ≠ [])
    (listed : ∀ value ∈ values, value.IsListed) :
    readEnumeration (call "z.enum" [bracketed (values.map Json.compact)]) = some values := by
  have written : (call "z.enum" [bracketed (values.map Json.compact)]).toList =
      "z.enum(".toList ++ ((bracketed (values.map Json.compact)).toList ++ [')']) :=
    toList_call "z.enum" _
  have enough : (bracketed (values.map Json.compact)).toList.length ≤
      (call "z.enum" [bracketed (values.map Json.compact)]).toList.length := by
    rw [written, List.length_append, List.length_append]
    omega
  have read := (writes_bracketed nonempty listed).reads enough endsNumber_parenthesis
  unfold readEnumeration
  dsimp only
  rw [written] at read ⊢
  rw [after?_append]
  dsimp only
  rw [read]
  rfl

/-- A literal is read back. -/
theorem readEnumeration_literal {value : Value} (listed : value.IsListed) :
    readEnumeration (literal (Json.compact value)) = some [value] := by
  have written := toList_literal (Json.compact value)
  have enough : (Json.compact value).toList.length ≤
      (literal (Json.compact value)).toList.length := by
    rw [written, List.length_append, List.length_append]
    omega
  have read := listed.writes_compact.reads enough endsNumber_parenthesis
  have noTexts (rest : List Char) : after? "z.enum(".toList ("z.literal(".toList ++ rest) = none :=
    rfl
  unfold readEnumeration
  dsimp only
  rw [written] at read ⊢
  rw [noTexts, after?_append]
  dsimp only
  rw [read]
  rfl

/-- A union of literals is read back. -/
theorem readEnumeration_union (nonempty : values ≠ [])
    (listed : ∀ value ∈ values, value.IsListed) :
    readEnumeration (call "z.union" [bracketed ((values.map Json.compact).map literal)]) =
      some values := by
  have written : (call "z.union" [bracketed ((values.map Json.compact).map literal)]).toList =
      "z.union([".toList ++ ([',', ' '].intercalate (values.map fun value =>
        (literal (Json.compact value)).toList) ++ [']', ')']) := by
    rw [toList_call, toList_bracketed, List.map_map, List.map_map]
    simp only [Function.comp_def]
    simp
  have enough : ([',', ' '].intercalate (values.map fun value =>
      (literal (Json.compact value)).toList)).length ≤
        (call "z.union" [bracketed ((values.map Json.compact).map literal)]).toList.length := by
    rw [written, List.length_append, List.length_append]
    omega
  have read := readLiterals_intercalate nonempty listed enough
  have noTexts (rest : List Char) : after? "z.enum(".toList ("z.union([".toList ++ rest) = none :=
    rfl
  have noLiteral (rest : List Char) :
      after? "z.literal(".toList ("z.union([".toList ++ rest) = none :=
    rfl
  unfold readEnumeration
  dsimp only
  rw [written] at read ⊢
  rw [noTexts, noLiteral, after?_append]
  exact read

/-! ## Listed values -/

/-- A text that writes a value is read as that value. -/
theorem read_of_writes {content : String} {value : Value}
    (writes : Json.Writes content.toList value) : Json.read content = .ok (.ok value) := by
  have nothing : ∀ c ∈ "".toList, Json.isSpace c := fun c none => absurd none List.not_mem_nil
  have read := Json.read_of_writes writes nothing
  rwa [String.append_empty] at read

/-- **Listed values are read back.**  The expression for listed values is an enumeration of a
bracketed list if all values are texts, a literal if there is one value that is no text, and else a
union of literals.  The list and the literals are JSON texts of the values, and the values are read
back, in order, from the expression as it stands. -/
theorem enumeration_reads_back (values : List Value) (nonempty : values ≠ [])
    (listed : ∀ value ∈ values, value.IsListed) :
    ∃ members : List String,
      List.Forall₂ (fun member value => Json.read member = .ok (.ok value)) members values ∧
      ((∀ value ∈ values, value.text?.isSome) →
        enumeration values = "z.enum(" ++ bracketed members ++ ")" ∧
          Json.read (bracketed members) = .ok (.ok (.list values))) ∧
      ((∃ value ∈ values, value.text? = none) →
        (∀ member, members = [member] → enumeration values = "z.literal(" ++ member ++ ")") ∧
        (members.length ≠ 1 → enumeration values = "z.union(" ++
          bracketed (members.map fun member => "z.literal(" ++ member ++ ")") ++ ")")) ∧
      readEnumeration (enumeration values) = some values := by
  refine ⟨values.map Json.compact, ?_, fun texts => ⟨?_, ?_⟩, fun mixed => ⟨?_, fun several => ?_⟩,
    ?_⟩
  · rw [List.forall₂_map_left_iff, List.forall₂_same]
    exact fun value member => read_of_writes (listed value member).writes_compact
  · rw [enumeration_of_texts nonempty texts]
    simp [call]
  · exact read_of_writes (writes_bracketed nonempty listed)
  · intro member single
    obtain ⟨value, rfl, rfl⟩ := List.map_eq_singleton_iff.mp single
    obtain ⟨_, among, other⟩ := mixed
    obtain rfl := List.mem_singleton.mp among
    rw [enumeration_of_single other, literal_eq]
  · rw [List.length_map] at several
    have literals : literal = fun member => "z.literal(" ++ member ++ ")" := funext literal_eq
    rw [enumeration_of_several mixed several, literals]
    simp [call]
  · by_cases texts : ∀ value ∈ values, value.text?.isSome
    · rw [enumeration_of_texts nonempty texts]
      exact readEnumeration_bracketed nonempty listed
    · have mixed : ∃ value ∈ values, value.text? = none := by simpa using texts
      by_cases single : values.length = 1
      · obtain ⟨value, rfl⟩ := List.length_eq_one_iff.mp single
        obtain ⟨_, among, other⟩ := mixed
        obtain rfl := List.mem_singleton.mp among
        rw [enumeration_of_single other]
        exact readEnumeration_literal (listed _ List.mem_cons_self)
      · rw [enumeration_of_several mixed single]
        exact readEnumeration_union nonempty listed

/-- Values of every kind, one of them a text that holds what stands between values. -/
def choices : List Value := [.text "a\", (😀)]", .bool true, .int (-3)]

theorem enumeration_reads_back_choices :
    choices ≠ [] ∧ (∀ value ∈ choices, value.IsListed) ∧
      readEnumeration (enumeration choices) = some choices := by
  have nonempty : choices ≠ [] := List.cons_ne_nil _ _
  have listed : ∀ value ∈ choices, value.IsListed := by
    simp only [choices, List.forall_mem_cons]
    exact ⟨.text _, .bool true, .int (by decide), by simp⟩
  obtain ⟨_, _, _, _, read⟩ := enumeration_reads_back choices nonempty listed
  exact ⟨nonempty, listed, read⟩

end Zod

end OpenApi
