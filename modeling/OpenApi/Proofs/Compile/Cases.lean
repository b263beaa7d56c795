import OpenApi.Compile
import OpenApi.Proofs.Traced

/-!
# Compiling by cases

What compiling a schema may come to, null left aside: one rule for each way to answer
(`Dialect.CaseRun`).  Named properties and an `allOf` of several schemas make nested records, by one
rule for both; how the branches of a composition are counted does not matter beyond that.  What is
shown of all compiled types is shown rule by rule.
-/

namespace OpenApi

/-- A composition of several schemas in an `allOf` is a record. -/
theorem Schema.isRecord_of_several {traits : Traits} {branches : List Schema}
    (several : branches ≠ []) (single : ∀ branch, branches ≠ [branch]) :
    (composition traits .allOf branches).isRecord := by
  match branches, several, single with
  | [], several, _ => exact absurd rfl several
  | [branch], _, single => exact absurd rfl (single branch)
  | first :: second :: rest, _, _ => simp [isRecord]

namespace Dialect

/-- How a schema is compiled to a type, null left aside. -/
inductive CaseRun (dialect : Dialect) (compile : Compiling) (hint : String) (scope : Scope) :
    Schema → Compiled → Prop
  | reference {traits : Traits} {pointer : String} :
      CaseRun dialect compile hint scope (.reference traits pointer)
        (dialect.compileReference pointer scope)
  | enumeration {traits : Traits} {values : List Value} :
      CaseRun dialect compile hint scope (.enumeration traits values)
        ((dialect.enumeration values).combine [])
  | primitive {traits : Traits} {kind : Primitive} :
      CaseRun dialect compile hint scope (.primitive traits kind)
        ((dialect.primitive kind).combine [])
  /-- Nothing is known of the values. -/
  | anything {schema : Schema} : CaseRun dialect compile hint scope schema dialect.anything
  | list {traits : Traits} :
      CaseRun dialect compile hint scope (.array traits none)
        ((dialect.array dialect.anything.expression).combine [dialect.anything])
  | listOf {traits : Traits} {content : Schema} {items : Compiled}
      (run : (dialect.compilePart compile content (hint ++ "Item") scope).Yields items) :
      CaseRun dialect compile hint scope (.array traits (some content))
        ((dialect.array items.expression).combine [items])
  | map {traits : Traits} {required : List Scalar} {additional : Additional Schema} :
      CaseRun dialect compile hint scope (.object traits none required additional)
        (dialect.mapOf dialect.anything)
  | mapOf {traits : Traits} {required : List Scalar} {content : Schema} {values : Compiled}
      (run : (dialect.compilePart compile content (hint ++ "Value") scope).Yields values) :
      CaseRun dialect compile hint scope (.object traits none required (.values content))
        (dialect.mapOf values)
  /-- The only branch of a composition stands for the whole. -/
  | single {traits : Traits} {kind : Composition} {branch : Schema} {compiled : Compiled}
      (run : (dialect.compilePart compile branch hint scope).Yields compiled) :
      CaseRun dialect compile hint scope (.composition traits kind [branch]) compiled
  | union {traits : Traits} {kind : Composition} {branches : List Schema} {all : List Compiled}
      (run : (dialect.compileParts compile (branches.zipIdx.map fun branch =>
        (branch.1, s!"{hint}Option{branch.2 + 1}")) scope).Yields all) :
      CaseRun dialect compile hint scope (.composition traits kind branches)
        ((dialect.union (all.map (·.expression))).combine all)
  | record {schema : Schema} {compiled : Compiled} (isRecord : schema.isRecord)
      (run : (dialect.compileNested compile schema hint scope).Yields compiled) :
      CaseRun dialect compile hint scope schema compiled

variable {dialect : Dialect} {compile : Compiling} {schema : Schema} {hint : String}
  {scope : Scope} {compiled : Compiled}

theorem CaseRun.of_answer {result : Compiled}
    (rule : dialect.CaseRun compile hint scope schema result)
    (run : (Traced.answer result).Yields compiled) :
    dialect.CaseRun compile hint scope schema compiled := by
  rw [Traced.yields_answer] at run
  exact run ▸ rule

theorem CaseRun.of_composition {traits : Traits} {kind : Composition} {branches : List Schema}
    (run : (dialect.compileComposition compile (.composition traits kind branches) kind branches
      hint scope).Yields compiled) :
    dialect.CaseRun compile hint scope (.composition traits kind branches) compiled := by
  unfold compileComposition at run
  split at run
  · exact .of_answer .anything run
  · exact .single run
  · next several single =>
      split at run
      · next joined =>
          subst joined
          exact .record (Schema.isRecord_of_several several single) run
      · obtain ⟨all, compiles, rfl⟩ := Traced.yields_andThen_answer.mp run
        exact .union compiles

/-- Every compiled type comes about by one of the rules. -/
theorem caseRun_of_yields (run : (dialect.compileCase compile schema hint scope).Yields compiled) :
    dialect.CaseRun compile hint scope schema compiled := by
  cases schema with
  | reference traits pointer => exact .of_answer .reference run
  | enumeration traits values =>
      unfold compileCase at run
      dsimp only at run
      split at run
      · exact .of_answer .enumeration run
      · exact (Traced.yields_fail.mp run).elim
  | composition traits kind branches => exact .of_composition run
  | primitive traits kind => exact .of_answer .primitive run
  | array traits items =>
      cases items with
      | none => exact .of_answer .list run
      | some content =>
          obtain ⟨items, compiles, rfl⟩ := Traced.yields_andThen_answer.mp run
          exact .listOf compiles
  | object traits properties required additional =>
      cases properties with
      | some properties => exact .record rfl run
      | none =>
          cases additional with
          | values content =>
              obtain ⟨values, compiles, rfl⟩ := Traced.yields_andThen_answer.mp run
              exact .mapOf compiles
          | unstated | allowed => exact .of_answer .map run
  | unknown traits => exact .of_answer .anything run

end Dialect

end OpenApi
