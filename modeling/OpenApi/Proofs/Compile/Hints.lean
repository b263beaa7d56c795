import OpenApi.Proofs.Compile.Synthesis
import OpenApi.Proofs.Identifier.Continued

/-!
# Names of nested records

A record that has to stand by itself is named after the place where it was found.  Whatever comes
along when a schema is compiled under a name therefore continues that name, and nothing comes along
where nested records stay in their place.
-/

namespace OpenApi.Dialect

open Identifier

variable {dialect : Dialect}

/-- Definitions come along with names that continue the given one, and only where nested records are
named. -/
def NamesAfter (dialect : Dialect) (name : String) (definitions : List Definition) : Prop :=
  ∀ definition ∈ definitions, dialect.namesNested ∧ Continues definition.name name

namespace NamesAfter

variable {name : String} {first second : List Definition}

theorem nil : dialect.NamesAfter name [] :=
  fun _ none => absurd none List.not_mem_nil

theorem append (before : dialect.NamesAfter name first) (after : dialect.NamesAfter name second) :
    dialect.NamesAfter name (first ++ second) :=
  fun definition member =>
    (List.mem_append.mp member).elim (before definition) (after definition)

/-- Names after a hint are names after whatever the hint continues. -/
theorem of_continues {hint : String} (continues : Continues hint name)
    (after : dialect.NamesAfter hint first) : dialect.NamesAfter name first :=
  fun definition member =>
    ⟨(after definition member).1, (after definition member).2.trans continues⟩

end NamesAfter

/-- A way of compiling names what comes along after the hint that it is given. -/
def FollowsHints (dialect : Dialect) (compile : Compiling) : Prop :=
  ∀ ⦃schema : Schema⦄ ⦃hint : String⦄ ⦃scope : Scope⦄ ⦃compiled : Compiled⦄,
    (compile schema hint scope).Yields compiled → dialect.NamesAfter hint compiled.auxiliary

namespace FollowsHints

variable {compile : Compiling} {scope : Scope} {name : String}

theorem compilePart (follows : dialect.FollowsHints compile) {schema : Schema} {hint : String}
    {compiled : Compiled} (run : (dialect.compilePart compile schema hint scope).Yields compiled) :
    dialect.NamesAfter hint compiled.auxiliary := by
  obtain ⟨inner, compiles, rfl⟩ := Traced.yields_andThen_answer.mp run
  rw [auxiliary_describe]
  exact follows compiles

theorem compileParts (follows : dialect.FollowsHints compile) {parts : List (Schema × String)}
    {compiled : List Compiled} (each : ∀ part ∈ parts, Continues part.2 name)
    (run : (dialect.compileParts compile parts scope).Yields compiled) :
    dialect.NamesAfter name (Compiled.auxiliaryOf compiled) := by
  intro definition member
  obtain ⟨first, held, brought⟩ := List.mem_flatMap.mp member
  obtain ⟨part, listed, names, compiles⟩ := exists_part_of_compileParts run first held
  exact (follows.compilePart compiles).of_continues (each part listed) definition brought

/-- The parts of a record are named after it. -/
theorem compileRecord (follows : dialect.FollowsHints compile) {schema : Schema}
    {record : Compiled} (run : (dialect.compileRecord compile schema name scope).Yields record) :
    dialect.NamesAfter name record.auxiliary := by
  obtain ⟨flat, properties, compiled, extras, further, steps⟩ := exists_recordRun run
  have ofFields : dialect.NamesAfter name (Compiled.auxiliaryOf compiled) :=
    follows.compileParts (fun hinted member => by
      obtain ⟨property, _, rfl⟩ := List.mem_map.mp member
      exact .pascalCase name property.1) steps.compiles
  have ofExtras : dialect.NamesAfter name (Compiled.auxiliaryOf extras) :=
    follows.compileParts (fun hinted member => by
      obtain ⟨extra, _, rfl⟩ := List.mem_map.mp member
      exact (Continues.numbered (name ++ "Part") (extra.2 + 1)).trans (.append (by decide)))
      steps.compilesExtras
  have ofFurther : dialect.NamesAfter name (Compiled.auxiliaryOf further) :=
    follows.compileParts (fun hinted member => by
      obtain ⟨content, _, rfl⟩ := mem_furtherParts_iff.mp member
      exact .append (by decide)) steps.compilesFurther
  rw [steps.brought, Compiled.auxiliaryOf_append]
  apply ofFields.append
  split
  · exact .nil
  · rw [Compiled.auxiliaryOf_append]
    exact ofExtras.append ofFurther

/-- A nested record continues its hint, with a number if need be. -/
theorem compileNested (follows : dialect.FollowsHints compile) {schema : Schema}
    {compiled : Compiled}
    (run : (dialect.compileNested compile schema name scope).Yields compiled) :
    dialect.NamesAfter name compiled.auxiliary := by
  unfold Dialect.compileNested at run
  split at run
  · next named =>
      obtain ⟨_, _, run⟩ := Traced.yields_andThen.mp run
      obtain ⟨record, compiles, rfl⟩ := Traced.yields_andThen_answer.mp run
      have continues := Continues.unique name scope.taken
      refine ((follows.compileRecord compiles).of_continues continues).append ?_
      intro definition member
      rw [List.mem_singleton.mp member]
      exact ⟨named, continues⟩
  · exact follows.compileRecord run

/-- Every case of a schema names what comes along after its hint. -/
theorem compileCase (follows : dialect.FollowsHints compile) {schema : Schema}
    {compiled : Compiled}
    (run : (dialect.compileCase compile schema name scope).Yields compiled) :
    dialect.NamesAfter name compiled.auxiliary := by
  have around {inner : Compiled} {word : String} {spelling : Spelling} (isTail : IsTail word.toList)
      (names : dialect.NamesAfter (name ++ word) inner.auxiliary) :
      dialect.NamesAfter name (spelling.combine [inner]).auxiliary := by
    simpa using names.of_continues (.append isTail)
  cases caseRun_of_yields run with
  | reference =>
      unfold compileReference
      split
      · exact .nil
      · exact .nil
  | enumeration | primitive | anything | list | map => exact .nil
  | listOf compiles => exact around (by decide) (follows.compilePart compiles)
  | mapOf compiles => exact around (by decide) (follows.compilePart compiles)
  | single compiles => exact follows.compilePart compiles
  | union compiles =>
      refine follows.compileParts (fun hinted member => ?_) compiles
      obtain ⟨branch, _, rfl⟩ := List.mem_map.mp member
      exact (Continues.numbered (name ++ "Option") (branch.2 + 1)).trans (.append (by decide))
  | record isRecord compiles => exact follows.compileNested compiles

end FollowsHints

/-- Compiling within any depth names what comes along so. -/
theorem followsHints_compileWithin (dialect : Dialect) (depth : Nat) :
    dialect.FollowsHints (dialect.compileWithin depth) := by
  induction depth with
  | zero => exact fun schema hint scope compiled run => (Traced.yields_fail.mp run).elim
  | succ depth ih =>
      intro schema hint scope compiled run
      obtain ⟨inner, compiles, rfl⟩ := Traced.yields_andThen_answer.mp run
      rw [auxiliary_withNull]
      exact FollowsHints.compileCase ih compiles

/-- What comes along with the definition of a schema is named after the definition. -/
theorem namesAfter_of_compile {name : String} {schema : Schema} {scope : Scope}
    {compiled : Compiled} (run : (dialect.compile name schema scope).Yields compiled) :
    dialect.NamesAfter name compiled.auxiliary := by
  have follows := followsHints_compileWithin dialect (schema.size + schemaBound scope + 1)
  unfold compile at run
  dsimp only at run
  split at run
  · exact follows.compileRecord run
  · exact follows run

end OpenApi.Dialect
