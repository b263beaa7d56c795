import Mathlib
import OpenApi.Dialect.TypedDict
import OpenApi.Proofs.Compile.Respelling

/-!
# Uses of nested records

Where nested records are definitions of their own, the type around such a record shows a use of its
name, and the use may be spelled in any way (`Dialect.compileUsing`).  What is mentioned shows when
one use is spelled differently (`Dialect.Mentions`).  A different spelling of one name changes nothing
before the definition of this name, and nothing at all if there is none (`Compiled.AlikeUntil`).  So
every record whose use is left in the result comes along, before all that mention it.
-/

namespace OpenApi

/-! ## Spelling the uses of nested records -/

/-- A schema stands for a record wherever it is: an object with properties or an `allOf` of several
branches. -/
def Schema.isNestedRecord : Schema → Bool
  | object _ (some _) _ _ => true
  | composition _ .allOf (_ :: _ :: _) => true
  | _ => false

namespace Dialect

variable (dialect : Dialect) (use : String → Spelling)

/-- Compile a schema, null left aside, with the uses of nested records spelled as given. -/
def compileCaseUsing (compile : Compiling) (schema : Schema) (hint : String) (scope : Scope) :
    Traced Compiled :=
  if schema.isNestedRecord then
    (dialect.respelled use dialect.record).compileNested compile schema hint scope
  else dialect.compileCase compile schema hint scope

/-- Compile a schema whose parts are nested at most so deep, with the uses of nested records spelled
as given. -/
def compileWithinUsing : Nat → Compiling
  | 0, _, _, _ => .fail .endlessCopy
  | depth + 1, schema, hint, scope =>
    (dialect.compileCaseUsing use (compileWithinUsing depth) schema hint scope).andThen
      fun compiled => .answer (dialect.withNull schema compiled)

/-- Compile the schema of a definition with the uses of nested records spelled as given. -/
def compileUsing (name : String) (schema : Schema) (scope : Scope) : Traced Compiled :=
  let parts := dialect.compileWithinUsing use (schema.size + schemaBound scope + 1)
  if schema.isRecord then dialect.compileRecord parts schema name scope
  else parts schema name scope

/-- A part of a compiled schema mentions the nested record of a name: it is another one when the use
of this name alone is spelled differently.  Pointers and literals of the same text do not change, so
they are no mentions. -/
def Mentions {α : Type} (name : String) (schema : Schema) (scope : Scope) (part : Compiled → α)
    (mentioned : String) : Prop :=
  ∃ use, (∀ other, other ≠ mentioned → use other = dialect.reference other) ∧
    (dialect.compileUsing use name schema scope).outcome.map part ≠
      (dialect.compile name schema scope).outcome.map part

variable {dialect use}

/-- A nested record is compiled as one, whatever kind of schema it is written as. -/
theorem compileCase_of_isNestedRecord {compile : Compiling} {schema : Schema} {hint : String}
    {scope : Scope} (nested : schema.isNestedRecord) :
    dialect.compileCase compile schema hint scope =
      dialect.compileNested compile schema hint scope := by
  unfold Schema.isNestedRecord at nested
  split at nested
  · rfl
  · rfl
  · cases nested

/-- Spelled as the dialect does, uses are compiled as they are. -/
theorem compileWithinUsing_reference (depth : Nat) :
    dialect.compileWithinUsing dialect.reference depth = dialect.compileWithin depth := by
  induction depth with
  | zero => rfl
  | succ depth ih =>
      funext schema hint scope
      rw [compileWithinUsing, compileWithin, ih]
      refine Traced.andThen_congr ?_ fun _ _ => rfl
      unfold compileCaseUsing
      split
      · next nested => exact (compileCase_of_isNestedRecord nested).symm
      · rfl

/-- Compiling with the spelling that the dialect has is compiling. -/
theorem compileUsing_reference : dialect.compileUsing dialect.reference = dialect.compile := by
  funext name schema scope
  unfold compileUsing compile
  rw [compileWithinUsing_reference]

/-- The use of a name does not show in the record itself. -/
theorem compileRecord_respelled {compile : Compiling} {schema : Schema} {name : String}
    {scope : Scope} :
    (dialect.respelled use dialect.record).compileRecord compile schema name scope =
      dialect.compileRecord compile schema name scope := by
  unfold compileRecord
  simp only [compileParts_respelled]
  rfl

end Dialect

/-! ## Definitions that agree until a name -/

/-- Two lists have definitions of the same names, and the same definitions as long as none before
has the given name. -/
structure AgreeUntil (name : String) (first second : List Definition) : Prop where
  names : namesOf second = namesOf first
  same : ∀ place, name ∉ namesOf (first.take place) → second[place]? = first[place]?

namespace AgreeUntil

variable {name : String} {first second others more : List Definition}

/-- Definitions agree with themselves. -/
theorem refl (name : String) (definitions : List Definition) :
    AgreeUntil name definitions definitions :=
  ⟨rfl, fun _ _ => rfl⟩

/-- Definitions that agree are as many. -/
theorem length_eq (agree : AgreeUntil name first second) : second.length = first.length := by
  simpa [namesOf] using congrArg List.length agree.names

/-- They are the same if the name is not among them. -/
theorem eq_of_absent (agree : AgreeUntil name first second) (absent : name ∉ namesOf first) :
    second = first := by
  refine List.ext_getElem? fun place => agree.same place fun member => absent ?_
  exact List.map_subset _ (List.take_subset place first) member

/-- What follows has to agree only if the name has not come before. -/
theorem append (before : AgreeUntil name first second) (names : namesOf more = namesOf others)
    (after : name ∉ namesOf first → AgreeUntil name others more) :
    AgreeUntil name (first ++ others) (second ++ more) where
  names := by rw [Compiled.namesOf_append, Compiled.namesOf_append, before.names, names]
  same place absent := by
    rw [List.take_append, Compiled.namesOf_append, List.mem_append, not_or] at absent
    rcases Nat.lt_or_ge place first.length with early | late
    · rw [List.getElem?_append_left early, List.getElem?_append_left (before.length_eq ▸ early)]
      exact before.same place absent.1
    · rw [List.take_of_length_le late] at absent
      rw [List.getElem?_append_right late, List.getElem?_append_right (before.length_eq ▸ late),
        before.length_eq]
      exact (after absent.1).same _ absent.2

end AgreeUntil

/-! ## Compiled types that are alike until a name -/

namespace Compiled

/-- Definitions that agree until a name come along with two types, and the types are the same unless
the name is among these. -/
structure AlikeUntil (name : String) (first second : Compiled) : Prop where
  brought : AgreeUntil name first.auxiliary second.auxiliary
  type : name ∉ namesOf first.auxiliary → second.type = first.type

namespace AlikeUntil

variable {name : String} {first second : List Compiled} {one other : Compiled}

/-- A type is like itself. -/
theorem refl (name : String) (compiled : Compiled) : compiled.AlikeUntil name compiled :=
  ⟨.refl name _, fun _ => rfl⟩

/-- Types that are alike are the same if the name is not among their definitions. -/
theorem eq_of_absent (alike : one.AlikeUntil name other) (absent : name ∉ namesOf one.auxiliary) :
    other = one := by
  have types := alike.type absent
  have brought := alike.brought.eq_of_absent absent
  cases one
  cases other
  cases types
  cases brought
  rfl

/-- The definitions of types that are alike agree. -/
theorem agree_auxiliaryOf (alike : List.Forall₂ (AlikeUntil name) first second) :
    AgreeUntil name (auxiliaryOf first) (auxiliaryOf second) := by
  induction alike with
  | nil => exact .refl name _
  | cons head tail ih =>
      rw [auxiliaryOf_cons, auxiliaryOf_cons]
      exact head.brought.append ih.names fun _ => ih

/-- The types are the same if the name is not among these. -/
theorem all_eq_of_absent (alike : List.Forall₂ (AlikeUntil name) first second)
    (absent : name ∉ namesOf (auxiliaryOf first)) : second = first := by
  induction alike with
  | nil => rfl
  | cons head tail ih =>
      rw [auxiliaryOf_cons, namesOf_append, List.mem_append, not_or] at absent
      rw [head.eq_of_absent absent.1, ih absent.2]

/-- What is put together of parts that are alike is alike. -/
theorem combines (name : String) : Combines (AlikeUntil name) := fun _ _ _ alike =>
  { brought := agree_auxiliaryOf alike
    type := fun absent => by rw [all_eq_of_absent alike absent] }

end AlikeUntil

end Compiled

/-! ## Runs that are alike until a name -/

/-- One way of compiling tracks another until a name. -/
def Compiling.TracksUntil (name : String) (first second : Compiling) : Prop :=
  ∀ ⦃schema : Schema⦄ ⦃hint : String⦄ ⦃scope : Scope⦄,
    (first schema hint scope).Tracks (Compiled.AlikeUntil name) (second schema hint scope)

namespace Compiling.TracksUntil

variable {dialect : Dialect} {name hint : String} {use other : String → Spelling}
  {first second : Compiling} {schema : Schema} {scope : Scope}

/-- A part comes to types that are alike. -/
theorem compilePart (tracks : TracksUntil name first second) :
    (dialect.compilePart first schema hint scope).Tracks (Compiled.AlikeUntil name)
      (dialect.compilePart second schema hint scope) :=
  tracks.andThen fun _ _ _ alike =>
    .answer ((Compiled.AlikeUntil.combines name).describe dialect schema alike)

/-- Parts come to types that are alike, one by one. -/
theorem compileParts (tracks : TracksUntil name first second) {parts : List (Schema × String)} :
    (dialect.compileParts first parts scope).Tracks (List.Forall₂ (Compiled.AlikeUntil name))
      (dialect.compileParts second parts scope) :=
  Dialect.tracks_compileParts (fun _ _ alike => alike.brought.names) fun _ _ _ =>
    tracks.compilePart

/-- A record whose parts are alike is put together to records that are alike. -/
theorem assemble (leaves : dialect.LeavesOut) {required : List Scalar}
    {properties : List (String × Schema)} {bases : List String}
    {compiled others extras othersExtras : List Compiled} {additional further : Additional Compiled}
    (length : compiled.length = properties.length)
    (alike : List.Forall₂ (Compiled.AlikeUntil name) compiled others)
    (alikeExtras : List.Forall₂ (Compiled.AlikeUntil name) extras othersExtras)
    (alikeFurther : List.Forall₂ (Compiled.AlikeUntil name) (Dialect.furtherOf additional)
      (Dialect.furtherOf further))
    (determined : Dialect.furtherOf further = Dialect.furtherOf additional →
      further = additional) :
    (dialect.assemble hint (List.zipWith (dialect.field required) properties compiled) bases extras
        additional).Tracks (Compiled.AlikeUntil name)
      (dialect.assemble hint (List.zipWith (dialect.field required) properties others) bases
        othersExtras further) := by
  intro whole run
  obtain ⟨another, parts, otherParts, runOther, alikeParts, brought, broughtOther, same⟩ :=
    Dialect.exists_assemble_related length alike alikeExtras alikeFurther determined
      (Dialect.assemble_of_leavesOut leaves) run
  refine ⟨another, runOther, ?_, fun absent => ?_⟩
  · rw [brought, broughtOther]
    exact Compiled.AlikeUntil.agree_auxiliaryOf alikeParts
  · rw [brought] at absent
    rw [same (Compiled.AlikeUntil.all_eq_of_absent alikeParts absent)]

/-- A record comes to types that are alike. -/
theorem compileRecord (tracks : TracksUntil name first second) (leaves : dialect.LeavesOut) :
    (dialect.compileRecord first schema hint scope).Tracks (Compiled.AlikeUntil name)
      (dialect.compileRecord second schema hint scope) := by
  unfold Dialect.compileRecord
  refine (Traced.Tracks.refl _).andThen fun flat _ _ same => ?_
  subst same
  refine (Traced.Tracks.refl _).andThen fun properties _ _ same => ?_
  subst same
  refine tracks.compileParts.andThen fun compiled others compiles alike => ?_
  have length := Dialect.length_of_compileParts compiles
  rw [List.length_map] at length
  dsimp only
  rw [Dialect.scopeAfter_eq, Dialect.scopeAfter_eq,
    (Compiled.AlikeUntil.agree_auxiliaryOf alike).names]
  refine tracks.compileParts.andThen fun extras othersExtras _ alikeExtras => ?_
  rw [Dialect.scopeAfter_eq, Dialect.scopeAfter_eq,
    (Compiled.AlikeUntil.agree_auxiliaryOf alikeExtras).names]
  split
  · next content stated =>
      refine tracks.compilePart.andThen fun values othersValues _ alikeValues => ?_
      exact assemble leaves length alike alikeExtras (.cons alikeValues .nil) fun same => by
        rw [List.singleton_inj.mp same]
  · exact assemble leaves length alike alikeExtras .nil fun _ => rfl
  · exact assemble leaves length alike alikeExtras .nil fun _ => rfl

/-- The use of a nested record may be another one only where its definition comes along. -/
theorem compileNested (tracks : TracksUntil name first second) (leaves : dialect.LeavesOut)
    (agree : ∀ apart, apart ≠ name → other apart = use apart) :
    ((dialect.respelled use dialect.record).compileNested first schema hint scope).Tracks
        (Compiled.AlikeUntil name)
      ((dialect.respelled other dialect.record).compileNested second schema hint scope) := by
  unfold Dialect.compileNested
  simp only [Dialect.compileRecord_respelled]
  change Traced.Tracks _ (if dialect.namesNested then _ else _)
    (if dialect.namesNested then _ else _)
  split
  · refine (Traced.Tracks.refl _).andThen fun _ _ _ _ => ?_
    refine (tracks.compileRecord leaves).andThen fun record others _ alike =>
      .answer ⟨?_, fun absent => ?_⟩
    · refine alike.brought.append rfl fun absent => ?_
      rw [alike.eq_of_absent absent]
      exact .refl name _
    · simp only [Compiled.namesOf_append, List.mem_append, not_or] at absent
      have apart : Identifier.unique hint scope.taken ≠ name := fun same =>
        absent.2 (List.mem_singleton.mpr same.symm)
      have spelled : (dialect.respelled other dialect.record).reference
          (Identifier.unique hint scope.taken) =
            (dialect.respelled use dialect.record).reference
              (Identifier.unique hint scope.taken) := agree _ apart
      rw [alike.eq_of_absent absent.1, spelled]
  · exact tracks.compileRecord leaves

/-- A composition that is no nested record comes to types that are alike. -/
theorem compileComposition (tracks : TracksUntil name first second) {traits : Traits}
    {kind : Composition} {branches : List Schema}
    (apart : (Schema.composition traits kind branches).isNestedRecord = false) :
    (dialect.compileComposition first (.composition traits kind branches) kind branches hint
        scope).Tracks (Compiled.AlikeUntil name)
      (dialect.compileComposition second (.composition traits kind branches) kind branches hint
        scope) := by
  unfold Dialect.compileComposition
  split
  · exact .answer (.refl name _)
  · exact tracks.compilePart
  · split
    · next several kind =>
        subst kind
        match branches, several with
        | [branch], several => exact absurd rfl (several branch)
        | _ :: _ :: _, _ => cases apart
    · exact tracks.compileParts.andThen fun _ _ _ alike =>
        .answer (Compiled.AlikeUntil.combines name
          (fun parts => dialect.union (parts.map (·.expression))) alike)

/-- So does every schema that is no nested record. -/
theorem compileCase (tracks : TracksUntil name first second)
    (apart : schema.isNestedRecord = false) :
    (dialect.compileCase first schema hint scope).Tracks (Compiled.AlikeUntil name)
      (dialect.compileCase second schema hint scope) := by
  have around {inner : Schema} {hint : String} {spelling : Compiled → Spelling} :
      ((dialect.compilePart first inner hint scope).andThen fun inner =>
        .answer ((spelling inner).combine [inner])).Tracks (Compiled.AlikeUntil name)
      ((dialect.compilePart second inner hint scope).andThen fun inner =>
        .answer ((spelling inner).combine [inner])) :=
    tracks.compilePart.andThen fun _ _ _ alike =>
      .answer ((Compiled.AlikeUntil.combines name).around spelling alike)
  have same {run : Traced Compiled} : run.Tracks (Compiled.AlikeUntil name) run :=
    fun _ yields => ⟨_, yields, .refl name _⟩
  cases schema with
  | reference | enumeration | primitive | unknown => exact same
  | composition => exact tracks.compileComposition apart
  | array traits items =>
      cases items with
      | none => exact same
      | some items => exact around
  | object traits properties required additional =>
      cases properties with
      | some properties => cases apart
      | none =>
          cases additional with
          | values content => exact around
          | unstated | allowed => exact same

end Compiling.TracksUntil

namespace Dialect

variable {dialect : Dialect} {name : String} {use other : String → Spelling}

/-- Compiling within any depth is tracked until a name when the use of this name is spelled
differently. -/
theorem tracksUntil_compileWithinUsing (leaves : dialect.LeavesOut)
    (agree : ∀ apart, apart ≠ name → other apart = use apart) (depth : Nat) :
    Compiling.TracksUntil name (dialect.compileWithinUsing use depth)
      (dialect.compileWithinUsing other depth) := by
  induction depth with
  | zero => exact fun schema hint scope compiled run => (Traced.yields_fail.mp run).elim
  | succ depth ih =>
      intro schema hint scope
      have tracked : (dialect.compileCaseUsing use (dialect.compileWithinUsing use depth) schema hint
            scope).Tracks (Compiled.AlikeUntil name)
          (dialect.compileCaseUsing other (dialect.compileWithinUsing other depth) schema hint
            scope) := by
        unfold compileCaseUsing
        split
        · exact ih.compileNested leaves agree
        · next apart => exact ih.compileCase (Bool.eq_false_iff.mpr apart)
      exact tracked.andThen fun _ _ _ alike =>
        .answer ((Compiled.AlikeUntil.combines name).withNull dialect schema alike)

/-- **Another spelling of one use.** Where the use of one name is spelled differently, a schema
compiles to the same up to the definition of this name. -/
theorem tracksUntil_compileUsing (leaves : dialect.LeavesOut)
    (agree : ∀ apart, apart ≠ name → other apart = use apart) {hint : String} {schema : Schema}
    {scope : Scope} :
    (dialect.compileUsing use hint schema scope).Tracks (Compiled.AlikeUntil name)
      (dialect.compileUsing other hint schema scope) := by
  have tracks := tracksUntil_compileWithinUsing leaves agree (schema.size + schemaBound scope + 1)
  unfold compileUsing
  dsimp only
  split
  · exact tracks.compileRecord leaves
  · exact fun _ run => tracks run

section Mentions

variable {schema : Schema} {scope : Scope} {compiled : Compiled} {mentioned : String}

/-- A part that mentions a name is another one in a result that is alike until the name. -/
theorem Mentions.exists_alike {α : Type} {part : Compiled → α}
    (mentions : dialect.Mentions name schema scope part mentioned) (leaves : dialect.LeavesOut)
    (run : (dialect.compile name schema scope).Yields compiled) :
    ∃ other, compiled.AlikeUntil mentioned other ∧ part other ≠ part compiled := by
  obtain ⟨use, agree, differs⟩ := mentions
  have runUsing : (dialect.compileUsing dialect.reference name schema scope).Yields compiled := by
    rwa [compileUsing_reference]
  obtain ⟨other, runOther, alike⟩ := tracksUntil_compileUsing leaves agree runUsing
  refine ⟨other, alike, fun same => differs ?_⟩
  rw [runOther, run]
  exact congrArg Except.ok same

/-- A part mentions a name if what shows of it is another one under another spelling. -/
theorem Mentions.of_shown {α β : Type} {part : Compiled → α} (use : String → Spelling)
    (shown : α → β) (usual unusual : β)
    (agree : ∀ other, other ≠ mentioned → use other = dialect.reference other)
    (shows : (dialect.compileUsing use name schema scope).outcome.toOption.map
      (fun compiled => shown (part compiled)) = some unusual)
    (showsUsually : (dialect.compile name schema scope).outcome.toOption.map
      (fun compiled => shown (part compiled)) = some usual) (differ : unusual ≠ usual) :
    dialect.Mentions name schema scope part mentioned := by
  refine ⟨use, agree, fun same => differ ?_⟩
  have mapped (run : Except Fault Compiled) :
      (run.map part).toOption.map shown =
        run.toOption.map fun compiled => shown (part compiled) := by
    cases run <;> rfl
  have same := congrArg (fun run => run.toOption.map shown) same
  simp only [mapped, shows, showsUsually] at same
  exact Option.some.inj same

/-- What the type mentions comes along. -/
theorem Mentions.brought
    (mentions : dialect.Mentions name schema scope Compiled.type mentioned)
    (leaves : dialect.LeavesOut) (run : (dialect.compile name schema scope).Yields compiled) :
    mentioned ∈ namesOf compiled.auxiliary := by
  obtain ⟨other, alike, differs⟩ := mentions.exists_alike leaves run
  exact Decidable.byContradiction fun absent => differs (alike.type absent)

/-- What a definition that comes along mentions stands before it. -/
theorem Mentions.brought_before {place : Nat}
    (mentions : dialect.Mentions name schema scope (·.auxiliary[place]?) mentioned)
    (leaves : dialect.LeavesOut) (run : (dialect.compile name schema scope).Yields compiled) :
    mentioned ∈ namesOf (compiled.auxiliary.take place) := by
  obtain ⟨other, alike, differs⟩ := mentions.exists_alike leaves run
  exact Decidable.byContradiction fun absent => differs (alike.brought.same place absent)

end Mentions

end Dialect

/-! ## Classes -/

namespace TypedDict

open Dialect

/-- Classes leave out all but their fields. -/
theorem leavesOut : dialect.LeavesOut := fun _ _ _ _ => rfl

/-- **Nested records stand before their uses.** Whatever schema is compiled to a class or to an
alias, the definitions that come along are marked as synthesized and have different names, none of
which is that of a schema, one under which a schema is emitted, reserved, or the compiled name.
Definitions hold a type alone, so nothing comes along with them.  Whatever name the type, one of its
fields or one of the definitions still uses for a nested record is the name of exactly one
definition, and this one stands before every definition that uses it. -/
theorem nested_records_stand_before_uses (name : String) (schema : Schema) (schemas : Mapping)
    (reserved : List String) (defined : Option NameSet) (names : List (String × String))
    (compiled : Compiled)
    (run : (dialect.compile name schema
      (.around name schemas reserved defined names)).Yields compiled) :
    (∀ definition ∈ compiled.auxiliary, definition.synthesized) ∧
      (namesOf compiled.auxiliary).Nodup ∧
      (∀ given ∈ namesOf compiled.auxiliary, given ∉ schemas.names ∧
        given ∉ names.map Prod.snd ∧ given ∉ reserved ∧ given ≠ name) ∧
      ∀ mentioned,
        dialect.Mentions name schema (.around name schemas reserved defined names)
              Compiled.type mentioned ∨
            (∃ user : Nat, dialect.Mentions name schema
              (.around name schemas reserved defined names) (·.auxiliary[user]?) mentioned) →
          ∃! place, (namesOf compiled.auxiliary)[place]? = some mentioned ∧
            ∀ user : Nat, dialect.Mentions name schema
              (.around name schemas reserved defined names) (·.auxiliary[user]?) mentioned →
                place < user := by
  obtain ⟨brings, _, _⟩ := compile_yields run
  obtain ⟨nodup, free⟩ := brings.fresh
  refine ⟨brings.synthesized, nodup, fun given member => ?_, fun mentioned mentions => ?_⟩
  · have untaken := free given member
    simp only [Scope.around, NameSet.mem_insert, NameSet.mem_insertAll, NameSet.mem_ofList,
      not_or] at untaken
    obtain ⟨⟨⟨schema, emitted⟩, reserved⟩, own⟩ := untaken
    exact ⟨schema, emitted, reserved, own⟩
  · have brought : mentioned ∈ namesOf compiled.auxiliary := by
      rcases mentions with inType | ⟨user, inDefinition⟩
      · exact inType.brought leavesOut run
      · exact List.map_subset _ (List.take_subset user _)
          (inDefinition.brought_before leavesOut run)
    obtain ⟨place, below, here⟩ := List.getElem_of_mem brought
    have held : (namesOf compiled.auxiliary)[place]? = some mentioned :=
      List.getElem?_eq_some_iff.mpr ⟨below, here⟩
    -- All definitions have different names, so there is one place only to stand before the user.
    have only {other : Nat} (same : (namesOf compiled.auxiliary)[other]? = some mentioned) :
        other = place := by
      obtain ⟨belowOther, there⟩ := List.getElem?_eq_some_iff.mp same
      exact nodup.getElem_inj_iff.mp (there.trans here.symm)
    refine ⟨place, ⟨held, fun user inDefinition => ?_⟩, fun other standing => only standing.1⟩
    have before := inDefinition.brought_before leavesOut run
    rw [namesOf, List.map_take, List.mem_take_iff_getElem] at before
    obtain ⟨earlier, bound, same⟩ := before
    rw [← only (List.getElem?_eq_some_iff.mpr ⟨_, same⟩)]
    exact (Nat.lt_min.mp bound).1

/-- A record in a record in a record. -/
def boxes : Schema :=
  let inner (key : String) (content : Schema) : Schema :=
    .object {} (some [(.text key, content)]) [] .unstated
  inner "a" (inner "b" (inner "c" (.primitive {} .string)))

/-- The usual uses, but for one name. -/
def usesBut (name : String) (other : String) : Spelling :=
  if other = name then ⟨"...", []⟩ else dialect.reference other

/-- The types of the fields. -/
def annotations (type : TypeExpr) : List String := type.fields.map (·.expression)

/-- The outermost box uses the one inside of it, and this one the innermost. -/
theorem mentions_boxes :
    dialect.Mentions "A" boxes (.around "A" [] [] none []) Compiled.type "AA" ∧
      dialect.Mentions "A" boxes (.around "A" [] [] none []) (·.auxiliary[1]?) "AAB" := by
  constructor
  · refine .of_shown (usesBut "AA") annotations ["NotRequired[\"AA\"]"] ["NotRequired[...]"]
      (fun _ apart => if_neg apart) ?_ ?_ (by decide)
    · cbv
    · cbv
  · refine .of_shown (usesBut "AAB") (Option.map fun definition => annotations definition.type)
      (some ["NotRequired[\"AAB\"]"]) (some ["NotRequired[...]"])
      (fun _ apart => if_neg apart) ?_ ?_ (by decide)
    · cbv
    · cbv

/-- The definition of the innermost box stands before the one that uses it. -/
theorem nested_records_stand_before_uses_boxes :
    ∃ compiled,
      (dialect.compile "A" boxes (.around "A" [] [] none [])).Yields compiled ∧
      namesOf compiled.auxiliary = ["AAB", "AA"] ∧
      (∀ definition ∈ compiled.auxiliary, definition.synthesized) ∧
      (namesOf compiled.auxiliary).Nodup ∧
      dialect.Mentions "A" boxes (.around "A" [] [] none []) Compiled.type "AA" ∧
      (∃! place, (namesOf compiled.auxiliary)[place]? = some "AA" ∧
        ∀ user : Nat, dialect.Mentions "A" boxes (.around "A" [] [] none [])
          (·.auxiliary[user]?) "AA" → place < user) ∧
      dialect.Mentions "A" boxes (.around "A" [] [] none []) (·.auxiliary[1]?) "AAB" ∧
      ∃! place, (namesOf compiled.auxiliary)[place]? = some "AAB" ∧
        ∀ user : Nat, dialect.Mentions "A" boxes (.around "A" [] [] none [])
          (·.auxiliary[user]?) "AAB" → place < user := by
  have built : (dialect.compile "A" boxes (.around "A" [] [] none [])).outcome.toOption.map
      (fun compiled => namesOf compiled.auxiliary) = some ["AAB", "AA"] := by cbv
  obtain ⟨outer, inner⟩ := mentions_boxes
  cases held : (dialect.compile "A" boxes (.around "A" [] [] none [])).outcome with
  | error fault => simp [held, Except.toOption] at built
  | ok compiled =>
      rw [held] at built
      obtain ⟨synthesized, nodup, _, placed⟩ :=
        nested_records_stand_before_uses "A" boxes [] [] none [] compiled held
      exact ⟨compiled, held, Option.some.inj built, synthesized, nodup, outer,
        placed "AA" (.inl outer), inner, placed "AAB" (.inr ⟨1, inner⟩)⟩

end TypedDict

end OpenApi
