import OpenApi.Proofs.Compile.Hints
import OpenApi.Proofs.Emission.Blocks

/-!
# Declared identifiers

The schemas of a map are emitted under names that declare different identifiers.  What comes along
with them is only kept apart by name, and different names can be spelled as one identifier where
characters are replaced.  As long as the schemas are named by identifiers nothing is replaced, and
all definitions of a module declare different identifiers.
-/

namespace OpenApi

open Identifier

namespace Emission

variable {dialect : Dialect} {schemas : Mapping} {names : List (String × String)}
  {done : List String} {progress : Progress}

instance : Std.Symm (Apart dialect) :=
  ⟨fun _ _ apart identifier declared also => apart identifier also declared⟩

/-- A schema is emitted under its own name, or with a number after it. -/
theorem emittedName_eq_or_numbered (dialect : Dialect) (used : NameSet) (name : String) :
    emittedName dialect used name = name ∨
      ∃ number, emittedName dialect used name = numbered name number := by
  unfold emittedName
  split
  · dsimp only
    cases found : firstNumbered? (fun other => !clashes dialect used other) name _ with
    | none => exact .inl rfl
    | some other =>
        obtain ⟨number, _, rfl⟩ := List.mem_map.mp (List.mem_of_find?_eq_some found)
        exact .inr ⟨number, rfl⟩
  · exact .inl rfl

theorem mem_keys_of_assigned {used : NameSet} {keys : List Scalar}
    (run : (assignNames dialect used keys).Yields names) :
    ∀ pair ∈ names, .text pair.1 ∈ keys ∧
      (pair.2 = pair.1 ∨ ∃ number, pair.2 = numbered pair.1 number) := by
  induction keys generalizing used names with
  | nil =>
      rw [assignNames, Traced.yields_answer] at run
      subst run
      exact fun pair none => absurd none List.not_mem_nil
  | cons key rest ih =>
      cases key with
      | text name =>
          rw [assignNames] at run
          obtain ⟨_, _, run⟩ := Traced.yields_andThen.mp run
          obtain ⟨others, assigned, rfl⟩ := Traced.yields_andThen_answer.mp run
          intro pair member
          rcases List.mem_cons.mp member with rfl | later
          · exact ⟨List.mem_cons_self, emittedName_eq_or_numbered dialect used name⟩
          · exact (ih assigned pair later).imp_left (List.mem_cons_of_mem _)
      | null | bool | int | float =>
          rw [assignNames, Traced.yields_fail] at run
          · exact run.elim
          all_goals simp

theorem assignNames_continues {used : NameSet} {keys : List Scalar}
    (run : (assignNames dialect used keys).Yields names) :
    ∀ pair ∈ names, .text pair.1 ∈ keys ∧ Continues pair.2 pair.1 := by
  intro pair member
  obtain ⟨key, own | ⟨number, renamed⟩⟩ := mem_keys_of_assigned run pair member
  · exact ⟨key, own ▸ .refl pair.2⟩
  · exact ⟨key, renamed ▸ .numbered pair.1 number⟩

/-- Every definition of a block continues the emitted name of the schema; the own definition has
just this name, and others are there only where nested records are named. -/
theorem Contributes.continues {name : String} {block : List Definition}
    (contributes : Contributes dialect schemas names name block) :
    ∃ emitted, names.lookup name = some emitted ∧ ∀ definition ∈ block,
      Continues definition.name emitted ∧
        (definition.synthesized = false → definition.name = emitted) ∧
        (definition.synthesized → dialect.namesNested) := by
  obtain ⟨_, _, emitted, _, compiled, _, _, assigned, compiles, marked, rfl⟩ := contributes
  refine ⟨emitted, assigned, fun definition member => ?_⟩
  rcases List.mem_append.mp member with brought | own
  · obtain ⟨named, continues⟩ := Dialect.namesAfter_of_compile compiles definition brought
    refine ⟨continues, fun own => ?_, fun _ => named⟩
    rw [marked definition brought] at own
    cases own
  · rw [List.mem_singleton.mp own]
    exact ⟨.refl emitted, fun _ => rfl, fun none => nomatch none⟩

/-- Plain names that differ declare different identifiers of classes: a helper begins with an
underscore, and a plain name does not. -/
theorem apart_of_plain {first second : String} (differ : first ≠ second) (plain : Plain first)
    (alsoPlain : Plain second) : Apart TypedDict.dialect first second := by
  have noHelper {name other : String} (plain : Plain name) : name ≠ "_" ++ other ++ "Fields" := by
    rintro rfl
    obtain ⟨c, head, notUnderscore, _⟩ := plain.begins
    rw [String.toList_append, String.toList_append] at head
    exact notUnderscore (Option.some.inj head).symm
  intro identifier declared also
  simp only [TypedDict.dialect, TypedDict.fieldsName, plain.ofName_eq, alsoPlain.ofName_eq,
    List.mem_cons, List.not_mem_nil, or_false] at declared also
  rcases declared with rfl | rfl <;> rcases also with same | same
  · exact differ same
  · exact noHelper plain same
  · exact noHelper alsoPlain same.symm
  · have spelled := congrArg String.toList same
    simp only [String.toList_append] at spelled
    exact differ (String.toList_inj.mp (List.append_cancel_left (List.append_cancel_right spelled)))

/-- **Declared identifiers.** Two definitions of a module declare no identifier in common, unless
the target is that of classes, one of the two was synthesized, and some schema has a name that is
not its own identifier. -/
theorem identifiers_apart (target : Target) (schemas : Mapping) (built : List Definition)
    (emits : (definitions target.dialect schemas).Yields built) :
    built.Pairwise fun first second =>
      Apart target.dialect first.name second.name ∨
        (first.synthesized ∨ second.synthesized) ∧ target = .typedDict ∧
          ∃ name ∈ schemas.names, ¬ Plain name := by
  have numbers := target.tellsNumbersApart
  obtain ⟨names, final, assigns, run, rfl⟩ := emits_of_definitions numbers emits
  have distinct := run.distinct (nodup_textNames (Document.nodup_order schemas))
    fun first second emitted => eq_of_lookup_assigned numbers assigns
  have assignedApart : (names.map Prod.snd).Pairwise (Apart target.dialect) :=
    List.pairwise_map.mpr (assignNames_apart numbers assigns).2.2
  have origin (definition : Definition) (listed : definition ∈ final.definitions) :
      (∃ source ∈ schemas.names, Continues definition.name source) ∧
        (definition.synthesized = false → definition.name ∈ names.map Prod.snd) ∧
        (definition.synthesized → target.dialect.namesNested) := by
    obtain ⟨name, _, block, contributes, within⟩ := run.exists_contributes definition listed
    obtain ⟨emitted, assigned, each⟩ := contributes.continues
    obtain ⟨continues, own, nested⟩ := each definition within
    have pair := Mapping.mem_of_lookup assigned
    obtain ⟨key, renamed⟩ := assignNames_continues assigns _ pair
    exact ⟨⟨name, Mapping.mem_names_iff.mpr key, continues.trans renamed⟩,
      fun isOwn => own isOwn ▸ List.mem_map_of_mem pair, nested⟩
  refine distinct.nodup.of_map.pairwise_of_forall_ne fun first listed second alsoListed differ => ?_
  have namesDiffer : first.name ≠ second.name := fun same =>
    differ (List.inj_on_of_nodup_map distinct.nodup listed alsoListed same)
  obtain ⟨⟨source, isKey, continues⟩, own, nested⟩ := origin first listed
  obtain ⟨⟨other, isOtherKey, continuesOther⟩, ownOther, nestedOther⟩ := origin second alsoListed
  by_cases synthesized : first.synthesized ∨ second.synthesized
  · have named : target.dialect.namesNested := synthesized.elim nested nestedOther
    cases target with
    | zod suffix => cases named
    | typedDict =>
        -- Both names continue names of schemas, and what continues a plain name is plain.
        by_cases plain : ∀ name ∈ schemas.names, Plain name
        · exact .inl (apart_of_plain namesDiffer ((plain source isKey).of_continues continues)
            ((plain other isOtherKey).of_continues continuesOther))
        · push Not at plain
          exact .inr ⟨synthesized, rfl, plain⟩
  · simp only [not_or, Bool.not_eq_true] at synthesized
    exact .inl (assignedApart.forall (own synthesized.1) (ownOther synthesized.2) namesDiffer)

/-- Where the schemas have plain names, the class of a nested record is apart from all others. -/
theorem identifiers_apart_nesting :
    ∃ built, (definitions (Target.dialect .typedDict) (nestingBeside "foo" "bar")).Yields built ∧
      built.map marked = [("fooBaz", true), ("foo", false), ("bar", false)] ∧
      built.Pairwise fun first second => Apart TypedDict.dialect first.name second.name := by
  have first : TypedDict.dialect.identifiers "foo" = ["foo", "_fooFields"] := by decide
  have second : TypedDict.dialect.identifiers "bar" = ["bar", "_barFields"] := by decide
  have assigns : (assignNames TypedDict.dialect ∅
      ((nestingBeside "foo" "bar").map (·.1))).Yields [("foo", "foo"), ("bar", "bar")] := by
    simp [assignNames, emittedName, clashes, nestingBeside, first, second]
  obtain ⟨built, emits, shown⟩ := yields_nestingBeside (by decide) (by cbv) assigns (by decide)
  have fooWords : "foo".toList.all isJoinable := by decide
  have barWords : "bar".toList.all isJoinable := by decide
  have foo : Plain "foo" := ⟨⟨'f', rfl, by decide, by cbv⟩,
    fun c member => isWord_of_isJoinable (List.all_eq_true.mp fooWords c member), by decide⟩
  have bar : Plain "bar" := ⟨⟨'b', rfl, by decide, by cbv⟩,
    fun c member => isWord_of_isJoinable (List.all_eq_true.mp barWords c member), by decide⟩
  have plain : ∀ name ∈ (nestingBeside "foo" "bar").names, Plain name := by
    simp [nestingBeside, Mapping.names, foo, bar]
  refine ⟨built, emits, shown, ?_⟩
  refine (identifiers_apart .typedDict _ built emits).imp fun either => either.elim id ?_
  rintro ⟨_, _, name, isKey, other⟩
  exact absurd (plain name isKey) other

/-- The class of a nested record is spelled like the one of another schema. -/
theorem not_identifiers_apart_clashing :
    ∃ built, (definitions TypedDict.dialect clashing).Yields built ∧
      ¬ built.Pairwise fun first second => Apart TypedDict.dialect first.name second.name := by
  obtain ⟨built, emits, shown⟩ := yields_clashing
  refine ⟨built, emits, fun apart => ?_⟩
  have names : (built.map marked).map Prod.fst = ["foo-barBaz", "foo-bar", "foo_barBaz"] := by
    rw [shown]
    rfl
  rw [List.map_map] at names
  have pairwise : (built.map (Prod.fst ∘ marked)).Pairwise (Apart TypedDict.dialect) :=
    List.pairwise_map.mpr apart
  rw [names, List.pairwise_cons] at pairwise
  exact pairwise.1 "foo_barBaz" (by decide) "foo_barBaz" (by decide) (by decide)

end Emission

end OpenApi
