import Mathlib.Logic.Relation
import OpenApi.Dialect.TypedDict
import OpenApi.Proofs.Compile.Composition
import OpenApi.Proofs.Document.Selection
import OpenApi.Proofs.Schema.Reading

/-!
# Chains of aliases

A schema that is no record may be another name for a schema: a pointer to it, perhaps inside of
compositions of a single branch.  From every name at most one step leads on to another
(`Forwards.rightUnique`), so the names make chains, and each chain comes to one end
(`Ends.unique`): a record, a name that is not in the map, a schema that is neither a record nor an
alias, one that cannot be read, or a name that the chain has passed before.  The search for the
record behind a name finds this end whatever it is, also where the chain goes in a circle
(`ends_recordBehind?`).
-/

namespace OpenApi

open Relation

namespace Schema

/-- A schema stands inside of compositions of a single branch, of whatever kind. -/
inductive WrappedIn (inner : Schema) : Schema → Prop
  | self : WrappedIn inner inner
  | around {traits : Traits} {kind : Composition} {branch : Schema}
      (below : WrappedIn inner branch) : WrappedIn inner (.composition traits kind [branch])

/-- A schema is another name for a schema of the document: all that it wraps is a pointer to it. -/
def StandsFor (schema : Schema) (name : String) : Prop :=
  ∃ traits pointer, (Schema.reference traits pointer).WrappedIn schema ∧
    Reference.schemaName? pointer = some name

/-- A pointer is left of a schema exactly if it stands below single branches. -/
theorem unwrapped_eq_reference_iff {schema : Schema} {traits : Traits} {pointer : String} :
    schema.unwrapped = .reference traits pointer ↔
      (Schema.reference traits pointer).WrappedIn schema := by
  constructor
  · intro same
    fun_induction unwrapped schema with
    | case1 traits kind branch ih => exact .around (ih same)
    | case2 schema => exact same ▸ .self
  · intro wrapped
    induction wrapped with
    | self => rfl
    | around below ih => exact ih

/-- What is wrapped in a schema is within it. -/
theorem WrappedIn.within {inner schema : Schema} (wrapped : inner.WrappedIn schema) :
    inner.Within schema := by
  induction wrapped with
  | self => exact .self _
  | around below ih => exact .branch List.mem_cons_self ih

/-- A schema is another name for the one that it stands for. -/
theorem aliasOf?_eq_some_iff {schema : Schema} {name : String} :
    schema.aliasOf? = some name ↔ schema.StandsFor name := by
  unfold aliasOf?
  constructor
  · intro named
    split at named
    · next traits pointer same =>
        exact ⟨traits, pointer, unwrapped_eq_reference_iff.mp same, named⟩
    · cases named
  · rintro ⟨traits, pointer, wrapped, named⟩
    rw [unwrapped_eq_reference_iff.mpr wrapped]
    exact named

end Schema

/-! ## Steps from name to name -/

/-- One name leads on to another: the schema under it is no record, but another name for what stands
under the other. -/
def Forwards (schemas : Mapping) (name next : String) : Prop :=
  ∃ schema, Named schemas name schema ∧ schema.isRecord = false ∧ schema.StandsFor next

/-- What is found at a name from which no step leads on. -/
inductive Stops (schemas : Mapping) (last : String) : Except Fault (Option String) → Prop
  | record {schema : Schema} (named : Named schemas last schema) (isRecord : schema.isRecord) :
      Stops schemas last (.ok (some last))
  | missing (absent : schemas.has last = false) : Stops schemas last (.ok none)
  | plain {schema : Schema} (named : Named schemas last schema) (other : schema.isRecord = false)
      (noAlias : ∀ next, ¬schema.StandsFor next) : Stops schemas last (.ok none)
  | unread {raw : Value} {fault : Fault} (held : schemas.find? last = some raw)
      (flaw : Schema.ofValue raw = .error fault) : Stops schemas last (.error fault)

/-- What is found at the end of the chain that begins at a name: what stands at its last name, or
nothing if it comes back to a name that it has passed. -/
inductive Ends (schemas : Mapping) (name : String) : Except Fault (Option String) → Prop
  | stops {last : String} {outcome : Except Fault (Option String)}
      (chain : ReflTransGen (Forwards schemas) name last) (found : Stops schemas last outcome) :
      Ends schemas name outcome
  | circles {again : String} (chain : ReflTransGen (Forwards schemas) name again)
      (back : TransGen (Forwards schemas) again again) : Ends schemas name (.ok none)

variable {schemas : Mapping} {name next last : String}
  {outcome other : Except Fault (Option String)}

/-- A name leads on to one name at most. -/
theorem Forwards.rightUnique (schemas : Mapping) : Relator.RightUnique (Forwards schemas) := by
  rintro name next second ⟨schema, named, -, stands⟩ ⟨_, alsoNamed, -, alsoStands⟩
  obtain rfl := named.unique alsoNamed
  rw [← Schema.aliasOf?_eq_some_iff] at stands alsoStands
  exact Option.some.inj (stands.symm.trans alsoStands)

namespace Stops

/-- Where the search stops, no name leads on. -/
theorem not_forwards (stops : Stops schemas last outcome) : ¬Forwards schemas last next := by
  rintro ⟨schema, named, noRecord, stands⟩
  cases stops with
  | record alsoNamed isRecord =>
      obtain rfl := named.unique alsoNamed
      exact Bool.false_ne_true (noRecord.symm.trans isRecord)
  | missing absent => exact Bool.false_ne_true (absent.symm.trans named.has)
  | plain alsoNamed _ noAlias =>
      obtain rfl := named.unique alsoNamed
      exact noAlias next stands
  | unread held flaw =>
      obtain ⟨raw, alsoHeld, read⟩ := named
      obtain rfl := Option.some.inj (held.symm.trans alsoHeld)
      cases flaw.symm.trans read

/-- The search ends at such a name, unless it has passed it. -/
theorem recordBehind?_eq {passed : List String} (stops : Stops schemas last outcome)
    (fresh : last ∉ passed) : recordBehind? schemas passed last = outcome := by
  cases stops with
  | record named isRecord => exact recordBehind?_of_record named isRecord fresh
  | missing absent =>
      rw [recordBehind?]
      split
      · rfl
      · next raw held =>
          have present := Mapping.has_iff_exists_find?.mpr ⟨raw, held⟩
          exact absurd (absent.symm.trans present) Bool.false_ne_true
  | @plain schema named noRecord noAlias =>
      obtain ⟨raw, held, read⟩ := named
      have noName : schema.aliasOf? = none :=
        Option.eq_none_iff_forall_ne_some.mpr fun next isAlias =>
          noAlias next (Schema.aliasOf?_eq_some_iff.mp isAlias)
      rw [recordBehind?]
      split
      · rfl
      · next found stands =>
          obtain rfl := Option.some.inj (held.symm.trans stands)
          rw [dif_neg fresh, read]
          simp [noRecord, noName, bind, Except.bind, pure, Except.pure]
  | unread held flaw =>
      rw [recordBehind?]
      split
      · next missing => cases missing.symm.trans held
      · next found stands =>
          obtain rfl := Option.some.inj (held.symm.trans stands)
          rw [dif_neg fresh, flaw]
          rfl

/-- There is one outcome where it stops. -/
theorem unique (one : Stops schemas last outcome) (two : Stops schemas last other) :
    outcome = other :=
  (one.recordBehind?_eq List.not_mem_nil).symm.trans (two.recordBehind?_eq List.not_mem_nil)

/-- A chain goes no further than to where it stops. -/
theorem eq_of_chain (stops : Stops schemas last outcome)
    (chain : ReflTransGen (Forwards schemas) last next) : next = last := by
  rcases chain.cases_head with same | ⟨between, step, -⟩
  · exact same.symm
  · exact absurd step stops.not_forwards

end Stops

/-- A chain does not leave a circle. -/
theorem circles_of_chain (back : TransGen (Forwards schemas) name name)
    (chain : ReflTransGen (Forwards schemas) name last) :
    TransGen (Forwards schemas) last last := by
  induction chain with
  | refl => exact back
  | @tail between last before step ih =>
      obtain ⟨after, first, rest⟩ := TransGen.head'_iff.mp ih
      obtain rfl := Forwards.rightUnique schemas step first
      exact TransGen.tail' rest step

namespace Ends

/-- A name that leads on ends as the next one does. -/
theorem of_forwards (step : Forwards schemas name next) (ends : Ends schemas next outcome) :
    Ends schemas name outcome := by
  cases ends with
  | stops chain found => exact .stops (.head step chain) found
  | circles chain back => exact .circles (.head step chain) back

/-- A chain that stops goes in no circle. -/
theorem not_circles {again : String} (chain : ReflTransGen (Forwards schemas) name last)
    (found : Stops schemas last outcome) (around : ReflTransGen (Forwards schemas) name again) :
    ¬TransGen (Forwards schemas) again again := by
  intro back
  have circle : TransGen (Forwards schemas) last last := by
    rcases around.total_of_right_unique (Forwards.rightUnique schemas) chain with later | earlier
    · exact circles_of_chain back later
    · exact found.eq_of_chain earlier ▸ back
  obtain ⟨after, step, -⟩ := TransGen.head'_iff.mp circle
  exact found.not_forwards step

/-- A chain has one end. -/
theorem unique (one : Ends schemas name outcome) (two : Ends schemas name other) :
    outcome = other := by
  cases one with
  | @stops last outcome chain found =>
      cases two with
      | @stops alsoLast other alsoChain alsoFound =>
          have same : last = alsoLast := by
            rcases chain.total_of_right_unique (Forwards.rightUnique schemas) alsoChain with
              later | earlier
            · exact (found.eq_of_chain later).symm
            · exact alsoFound.eq_of_chain earlier
          subst same
          exact found.unique alsoFound
      | circles around back => exact absurd back (not_circles chain found around)
  | circles around back =>
      cases two with
      | stops chain found => exact absurd back (not_circles chain found around)
      | circles => rfl

end Ends

/-! ## The search for a record -/

/-- The search finds the end of the chain, if the names that were passed lead to where it is. -/
theorem ends_recordBehind? {passed : List String}
    (led : ∀ before ∈ passed, TransGen (Forwards schemas) before name) :
    Ends schemas name (recordBehind? schemas passed name) := by
  induction passed, name using recordBehind?.induct schemas with
  | case1 passed name missing =>
      have absent : schemas.has name = false := by
        rw [Mapping.has, missing]
        rfl
      have found : recordBehind? schemas passed name = .ok none := by
        rw [recordBehind?]
        split
        · rfl
        · next raw held => cases missing.symm.trans held
      exact found ▸ .stops .refl (.missing absent)
  | case2 passed name raw held member =>
      rw [recordBehind?]
      split
      · next missing => cases missing.symm.trans held
      · rw [dif_pos member]
        exact .circles .refl (led name member)
  | case3 passed name raw held fresh ih =>
      have stopped {outcome : Except Fault (Option String)} (stops : Stops schemas name outcome) :
          Ends schemas name (recordBehind? schemas passed name) := by
        rw [stops.recordBehind?_eq fresh]
        exact .stops .refl stops
      cases read : Schema.ofValue raw with
      | error fault => exact stopped (.unread held read)
      | ok schema =>
          have named : Named schemas name schema := ⟨raw, held, read⟩
          cases isRecord : schema.isRecord with
          | true => exact stopped (.record named isRecord)
          | false =>
              cases isAlias : schema.aliasOf? with
              | none =>
                  refine stopped (.plain named isRecord fun next stands => ?_)
                  cases isAlias.symm.trans (Schema.aliasOf?_eq_some_iff.mpr stands)
              | some next =>
                  have step : Forwards schemas name next :=
                    ⟨schema, named, isRecord, Schema.aliasOf?_eq_some_iff.mp isAlias⟩
                  rw [recordBehind?_of_alias named isRecord isAlias fresh]
                  refine .of_forwards step (ih next fun before member => ?_)
                  rcases List.mem_cons.mp member with rfl | earlier
                  · exact .single step
                  · exact (led before earlier).tail step

/-- The search finds an end exactly if the chain that begins at the name has that end. -/
theorem recordBehind?_eq_iff :
    recordBehind? schemas [] name = outcome ↔ Ends schemas name outcome := by
  have found : Ends schemas name (recordBehind? schemas [] name) :=
    ends_recordBehind? fun before member => absurd member List.not_mem_nil
  constructor
  · rintro rfl
    exact found
  · exact found.unique

namespace Ends

/-- The search ends with a base if the name leads to a record of that name. -/
theorem some_iff {base : String} :
    Ends schemas name (.ok (some base)) ↔
      ReflTransGen (Forwards schemas) name base ∧
        ∃ schema, Named schemas base schema ∧ schema.isRecord := by
  constructor
  · intro ends
    cases ends with
    | stops chain found =>
        cases found with
        | record named isRecord => exact ⟨chain, _, named, isRecord⟩
  · rintro ⟨chain, schema, named, isRecord⟩
    exact .stops chain (.record named isRecord)

/-- It ends without one if the name leads out of the map, to something else, or in a circle. -/
theorem none_iff :
    Ends schemas name (.ok none) ↔
      ∃ last, ReflTransGen (Forwards schemas) name last ∧
        (schemas.has last = false ∨
          (∃ schema, Named schemas last schema ∧ schema.isRecord = false ∧
            ∀ next, ¬schema.StandsFor next) ∨
          TransGen (Forwards schemas) last last) := by
  constructor
  · intro ends
    cases ends with
    | stops chain found =>
        cases found with
        | missing absent => exact ⟨_, chain, .inl absent⟩
        | plain named other noAlias => exact ⟨_, chain, .inr (.inl ⟨_, named, other, noAlias⟩)⟩
    | circles chain back => exact ⟨_, chain, .inr (.inr back)⟩
  · rintro ⟨last, chain, absent | ⟨schema, named, other, noAlias⟩ | back⟩
    · exact .stops chain (.missing absent)
    · exact .stops chain (.plain named other noAlias)
    · exact .circles chain back

/-- It ends with a fault if the name leads to a schema that cannot be read. -/
theorem error_iff {fault : Fault} :
    Ends schemas name (.error fault) ↔
      ∃ last raw, ReflTransGen (Forwards schemas) name last ∧ schemas.find? last = some raw ∧
        Schema.ofValue raw = .error fault := by
  constructor
  · intro ends
    cases ends with
    | stops chain found =>
        cases found with
        | unread held flaw => exact ⟨_, _, chain, held, flaw⟩
  · rintro ⟨last, raw, chain, held, flaw⟩
    exact .stops chain (.unread held flaw)

end Ends

/-! ## The base of a class -/

/-- What a class is to inherit for a name of the map: the record that is found behind it, or, with a
notice, nothing. -/
theorem base?_eq_of_has {scope : Scope} (held : scope.schemas.has name) :
    scope.base? true name =
      match recordBehind? scope.schemas [] name with
      | .ok (some base) => .answer (some base)
      | .ok none => ⟨[.baseNotRecord name], .ok none⟩
      | .error fault => .fail fault := by
  have nominal : (true && scope.schemas.has name) = true := by rw [held, Bool.and_self]
  exact if_pos nominal

/-- For a name of the map, a class inherits the first record on the chain of aliases that begins at
the name.  It inherits nothing, and one warning is given, exactly if the chain leaves the map, comes
to a schema that is neither a record nor an alias, or comes to a name that it has passed.  Otherwise
it comes to a schema that cannot be read, and the fault of that schema is the result. -/
theorem base_follows_aliases (scope : Scope) (name : String) (held : scope.schemas.has name) :
    (∀ base, scope.base? TypedDict.dialect.nominalBases name = .answer (some base) ↔
      ReflTransGen (Forwards scope.schemas) name base ∧
        ∃ schema, Named scope.schemas base schema ∧ schema.isRecord) ∧
    (scope.base? TypedDict.dialect.nominalBases name = ⟨[.baseNotRecord name], .ok none⟩ ↔
      ∃ last, ReflTransGen (Forwards scope.schemas) name last ∧
        (scope.schemas.has last = false ∨
          (∃ schema, Named scope.schemas last schema ∧ schema.isRecord = false ∧
            ∀ next, ¬schema.StandsFor next) ∨
          TransGen (Forwards scope.schemas) last last)) ∧
    (∀ fault, scope.base? TypedDict.dialect.nominalBases name = .fail fault ↔
      ∃ last raw, ReflTransGen (Forwards scope.schemas) name last ∧
        scope.schemas.find? last = some raw ∧ Schema.ofValue raw = .error fault) ∧
    ((∃ base, scope.base? TypedDict.dialect.nominalBases name = .answer (some base)) ∨
      scope.base? TypedDict.dialect.nominalBases name = ⟨[.baseNotRecord name], .ok none⟩ ∨
      ∃ fault, scope.base? TypedDict.dialect.nominalBases name = .fail fault) ∧
    (Notice.baseNotRecord name).severity = .warning := by
  have search := base?_eq_of_has held
  simp only [← Ends.some_iff, ← Ends.none_iff, ← Ends.error_iff, ← recordBehind?_eq_iff]
  rw [show TypedDict.dialect.nominalBases = true from rfl, search]
  cases recordBehind? scope.schemas [] name with
  | error fault => simp [Traced.answer, Traced.fail, Notice.severity]
  | ok found =>
      cases found with
      | none => simp [Traced.answer, Traced.fail, Notice.severity]
      | some base => simp [Traced.answer, Traced.fail, Notice.severity]

open Document (pointerTo)

/-- An alias of a record, as the only branch of a composition, and two aliases of each other. -/
def pets : Mapping :=
  [(.text "Pet", .map [(.text "anyOf", .list [pointerTo "Animal"])]),
    (.text "Animal", .map [(.text "properties", .map [])]),
    (.text "Ring", pointerTo "Round"), (.text "Round", pointerTo "Ring")]

/-- A pointer is read as one. -/
theorem ofValue_pointerTo (name : String) :
    Schema.ofValue (pointerTo name) = .ok (.reference {} (Reference.schemaRoot ++ name)) :=
  Schema.ofValue_of_pointer (by simp)

/-- What the names of the pets are read as. -/
theorem named_pets :
    Named pets "Pet" (.composition {} .anyOf [.reference {} (Reference.schemaRoot ++ "Animal")]) ∧
    Named pets "Animal" (.object {} (some []) [] .unstated) ∧
    Named pets "Ring" (.reference {} (Reference.schemaRoot ++ "Round")) ∧
    Named pets "Round" (.reference {} (Reference.schemaRoot ++ "Ring")) := by
  have branch : Schema.ofItems [pointerTo "Animal"] =
      .ok [.reference {} (Reference.schemaRoot ++ "Animal")] := by
    simp [Schema.ofItems, ofValue_pointerTo, bind, Except.bind, pure, Except.pure]
  have wrapped : Schema.ofValue (.map [(.text "anyOf", .list [pointerTo "Animal"])]) =
      .ok (.composition {} .anyOf [.reference {} (Reference.schemaRoot ++ "Animal")]) :=
    Schema.ofValue_of_branches (by simp) (by simp)
      (by simp [Schema.composed?, Composition.keyword])
      (by simp [Schema.hasObjectKeyword, Schema.objectKeywords, Mapping.has]) branch
  have plain : Schema.ofValue (.map [(.text "properties", .map [])]) =
      .ok (.object {} (some []) [] .unstated) :=
    Schema.ofValue_of_properties (by simp [Schema.ofEntries])
  exact ⟨⟨_, by simp [pets], wrapped⟩, ⟨_, by simp [pets], plain⟩,
    ⟨_, by simp [pets], ofValue_pointerTo "Round"⟩, ⟨_, by simp [pets], ofValue_pointerTo "Ring"⟩⟩

theorem base_follows_aliases_pets :
    ({ taken := ∅, schemas := pets } : Scope).base? TypedDict.dialect.nominalBases "Pet" =
      .answer (some "Animal") ∧
    ({ taken := ∅, schemas := pets } : Scope).base? TypedDict.dialect.nominalBases "Ring" =
      ⟨[.baseNotRecord "Ring"], .ok none⟩ := by
  obtain ⟨pet, animal, ring, round⟩ := named_pets
  have toAnimal : Forwards pets "Pet" "Animal" := ⟨_, pet, rfl, {}, _, .around .self, by cbv⟩
  have toRound : Forwards pets "Ring" "Round" := ⟨_, ring, rfl, {}, _, .self, by cbv⟩
  have toRing : Forwards pets "Round" "Ring" := ⟨_, round, rfl, {}, _, .self, by cbv⟩
  exact
    ⟨((base_follows_aliases { taken := ∅, schemas := pets } "Pet" pet.has).1 "Animal").mpr
        ⟨.single toAnimal, _, animal, rfl⟩,
      (base_follows_aliases { taken := ∅, schemas := pets } "Ring" ring.has).2.1.mpr
        ⟨"Ring", .refl, .inr (.inr (.tail (.single toRound) toRing))⟩⟩

end OpenApi
