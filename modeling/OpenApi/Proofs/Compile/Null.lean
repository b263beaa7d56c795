import OpenApi.Proofs.Compile.Independence

/-!
# Null among the values

Whether null is among the values of a schema matters in one place only: once the schema is compiled
as a part of another one, null is added to its type (`compileWithin_withNullable`).  A definition is
compiled in the same way unless it is a record.  The definition of a record is put together from its
flattened properties, and null is not added to it.
-/

namespace OpenApi

/-- The same schema with null among its values, or without. -/
def Schema.withNullable (nullable : Bool) : Schema → Schema
  | reference traits pointer => reference { traits with nullable } pointer
  | enumeration traits values => enumeration { traits with nullable } values
  | composition traits kind branches => composition { traits with nullable } kind branches
  | primitive traits kind => primitive { traits with nullable } kind
  | array traits items => array { traits with nullable } items
  | object traits properties required additional =>
    object { traits with nullable } properties required additional
  | unknown traits => unknown { traits with nullable }

namespace Schema

variable {nullable : Bool} {schema : Schema}

@[simp]
theorem nullable_withNullable : (schema.withNullable nullable).nullable = nullable := by
  cases schema <;> rfl

@[simp]
theorem description_withNullable :
    (schema.withNullable nullable).description = schema.description := by
  cases schema <;> rfl

@[simp]
theorem size_withNullable : (schema.withNullable nullable).size = schema.size := by
  cases schema with
  | array traits items => cases items <;> simp [withNullable, size]
  | object traits properties required additional =>
      cases properties <;> cases additional <;> simp [withNullable, size]
  | reference | enumeration | composition | primitive | unknown => simp [withNullable, size]

@[simp]
theorem isRecord_withNullable : (schema.withNullable nullable).isRecord = schema.isRecord := by
  cases schema with
  | composition traits kind branches =>
      cases kind with
      | allOf =>
          match branches with
          | [] | [_] | _ :: _ :: _ => simp [withNullable, isRecord]
      | oneOf | anyOf => simp [withNullable, isRecord]
  | object => rfl
  | reference | enumeration | primitive | array | unknown => simp [withNullable, isRecord]

end Schema

/-- A record is flattened to the same properties and parts with null and without. -/
theorem flatten_withNullable {scope : Scope} {nominal nullable : Bool} {copying : List String}
    {schema : Schema} (joined : schema.isJoined) :
    flatten scope nominal copying (schema.withNullable nullable) =
      flatten scope nominal copying schema := by
  cases schema with
  | object | composition => simp only [Schema.withNullable, flatten]
  | reference | enumeration | primitive | array | unknown => cases joined

namespace Dialect

variable {dialect : Dialect} {compile : Compiling} {nullable : Bool} {schema : Schema}
  {hint : String} {scope : Scope}

/-! ## Parts -/

theorem describe_withNullable {compiled : Compiled} :
    dialect.describe (schema.withNullable nullable) compiled = dialect.describe schema compiled := by
  unfold describe
  rw [Schema.description_withNullable]

/-- A record is compiled without a look at whether it may be null. -/
theorem compileRecord_withNullable (joined : schema.isJoined) :
    dialect.compileRecord compile (schema.withNullable nullable) hint scope =
      dialect.compileRecord compile schema hint scope := by
  unfold compileRecord
  rw [flatten_withNullable joined]

theorem compileNested_withNullable (joined : schema.isJoined) :
    dialect.compileNested compile (schema.withNullable nullable) hint scope =
      dialect.compileNested compile schema hint scope := by
  unfold compileNested
  simp only [compileRecord_withNullable joined, Schema.description_withNullable]

/-- A schema, null left aside, is compiled in the same way with null and without. -/
theorem compileCase_withNullable :
    dialect.compileCase compile (schema.withNullable nullable) hint scope =
      dialect.compileCase compile schema hint scope := by
  cases schema with
  | reference | enumeration | primitive | unknown => rfl
  | array traits items => cases items <;> rfl
  | composition traits kind branches =>
      change dialect.compileComposition _ (Schema.withNullable nullable _) _ _ _ _ =
        dialect.compileComposition ..
      unfold compileComposition
      split
      · rfl
      · rfl
      · split
        · next all => exact compileNested_withNullable (all ▸ rfl)
        · rfl
  | object traits properties required additional =>
      cases properties with
      | some properties =>
          have joined : (Schema.object traits (some properties) required additional).isJoined := rfl
          exact compileNested_withNullable joined
      | none => cases additional <;> rfl

/-- A type with null added. -/
def nulled (dialect : Dialect) (compiled : Compiled) : Compiled :=
  (dialect.nullable compiled.expression).combine [compiled]

/-- A part is compiled with null left aside, and null is added at the end. -/
theorem compileWithin_withNullable {depth : Nat} :
    dialect.compileWithin (depth + 1) (schema.withNullable nullable) hint scope =
      (dialect.compileCase (dialect.compileWithin depth) schema hint scope).andThen fun compiled =>
        .answer (if nullable then dialect.nulled compiled else compiled) := by
  rw [compileWithin, compileCase_withNullable]
  refine Traced.andThen_congr rfl fun compiled _ => ?_
  rw [withNull, Schema.nullable_withNullable]
  rfl

/-! ## Definitions and items -/

/-- Null is added to the definition of a schema that is no record. -/
theorem compile_withNullable (other : schema.isRecord = false) (name : String) (scope : Scope) :
    dialect.compile name (schema.withNullable true) scope =
      (dialect.compile name (schema.withNullable false) scope).andThen fun compiled =>
        .answer (dialect.nulled compiled) := by
  unfold compile
  simp only [Schema.isRecord_withNullable, Schema.size_withNullable, other, Bool.false_eq_true,
    ↓reduceIte, compileWithin_withNullable, Traced.andThen_assoc, Traced.answer_andThen]

/-- The definition of a record is the same with null and without. -/
theorem compile_withNullable_of_isRecord (isRecord : schema.isRecord) (name : String)
    (scope : Scope) :
    dialect.compile name (schema.withNullable true) scope =
      dialect.compile name (schema.withNullable false) scope := by
  have joined := Schema.isJoined_of_isRecord isRecord
  unfold compile
  simp only [Schema.isRecord_withNullable, Schema.size_withNullable, isRecord, ↓reduceIte,
    compileRecord_withNullable joined]

/-- The items of a list are compiled with null left aside; then null is added, and then the
description. -/
theorem exists_compile_array_withNullable (name : String) (schema : Schema) (scope : Scope) :
    ∃ part : Traced Compiled, ∀ (traits : Traits) (nullable : Bool),
      dialect.compile name (.array traits (some (schema.withNullable nullable))) scope =
        part.andThen fun inner =>
          let items := dialect.describe schema (if nullable then dialect.nulled inner else inner)
          .answer (dialect.withNull (.array traits none)
            ((dialect.array items.expression).combine [items])) := by
  refine ⟨dialect.compileCase (dialect.compileWithin (schema.size + schemaBound scope)) schema
    (name ++ "Item") scope, fun traits nullable => ?_⟩
  have depth : schema.size + 1 + schemaBound scope = schema.size + schemaBound scope + 1 := by omega
  change dialect.compileWithin ((schema.withNullable nullable).size + 1 + schemaBound scope + 1) _
    name scope = _
  rw [Schema.size_withNullable, depth, compileWithin, compileCase, compilePart,
    compileWithin_withNullable]
  simp only [Traced.andThen_assoc, Traced.answer_andThen, describe_withNullable]
  rfl

end Dialect

namespace Zod

/-- **Null is added to every schema but the definition of a record.** With null among its values a
schema is compiled, in all scopes and under every name, as it is without, and `.nullable()` is put
behind its expression: as a definition unless it is a record, and always as the items of a list,
where a description is put behind it in turn.  The definition of a record is the same with null and
without. -/
theorem null_is_added_unless_record (suffix name : String) (schema : Schema) (scope : Scope) :
    let zod := dialect suffix
    let nulled (compiled : Compiled) : Compiled :=
      Spelling.combine ⟨compiled.expression ++ ".nullable()", []⟩ [compiled]
    (zod.compile name (schema.withNullable true) scope =
      if schema.isRecord then zod.compile name (schema.withNullable false) scope
      else (zod.compile name (schema.withNullable false) scope).andThen fun compiled =>
        .answer (nulled compiled)) ∧
    ∃ part : Traced Compiled, ∀ (traits : Traits) (nullable : Bool),
      zod.compile name (.array traits (some (schema.withNullable nullable))) scope =
        part.andThen fun inner =>
          let items := zod.describe schema (if nullable then nulled inner else inner)
          .answer (zod.withNull (.array traits none)
            (Spelling.combine ⟨"z.array(" ++ items.expression ++ ")", []⟩ [items])) := by
  intro zod nulled
  constructor
  · split
    · next isRecord => exact Dialect.compile_withNullable_of_isRecord isRecord name scope
    · next other => exact Dialect.compile_withNullable (Bool.eq_false_iff.mpr other) name scope
  · obtain ⟨part, compiles⟩ := Dialect.exists_compile_array_withNullable name schema scope
    exact ⟨part, compiles⟩

/-- A record without properties. -/
def emptyRecord : Schema := .object {} (some []) [] .unstated

/-- Null is not added to the definition of a record. -/
theorem not_null_always_added :
    ¬ ∀ (suffix name : String) (schema : Schema) (scope : Scope) (without compiled : Compiled),
      ((dialect suffix).compile name (schema.withNullable false) scope).Yields without →
      ((dialect suffix).compile name (schema.withNullable true) scope).Yields compiled →
      compiled.expression = without.expression ++ ".nullable()" := by
  intro always
  -- The record is the same with null and without, so nothing is added.
  have compiles : ∃ compiled, ((dialect "Schema").compile "Pet" (emptyRecord.withNullable false)
      { taken := ∅ }).Yields compiled := by
    obtain ⟨compiled, compiles, -⟩ := Dialect.exists_compileRecord_of_object "Pet" {} []
      (Traced.yields_answer.mpr rfl)
    exact ⟨compiled, compiles⟩
  obtain ⟨compiled, without⟩ := compiles
  have withNull : ((dialect "Schema").compile "Pet" (emptyRecord.withNullable true)
      { taken := ∅ }).Yields compiled := by
    rw [Dialect.compile_withNullable_of_isRecord rfl]
    exact without
  have longer := congrArg String.length (always _ _ _ _ _ _ without withNull)
  rw [String.length_append] at longer
  exact absurd longer (by simp)

end Zod

end OpenApi
