import Mathlib.Data.Nat.Find
import OpenApi.Proofs.Compile.Flatten
import OpenApi.Proofs.Schema.References

/-!
# What a record is composed of

A record is composed of the objects that are reached from it by taking nested `allOf` branches
apart and by following pointers to the records behind them, to any depth and around any cycle
(`Composes`); the keys of these objects are the keys it declares (`Declares`).

A flattened record holds declared keys only, and it loses none: a declared key is its own, or is
declared by one of its bases (`Flattens.covers`).  Copying a schema whose fields are being copied
already is cut short, so the proof follows a shortest way to the object with the key.  Such a way
never comes back to a schema that it has passed, hence never runs into a cut.
-/

namespace OpenApi

/-- The schema under a name. -/
def Named (schemas : Mapping) (name : String) (schema : Schema) : Prop :=
  ∃ raw, schemas.find? name = some raw ∧ Schema.ofValue raw = .ok schema

/-- There is one schema under a name. -/
theorem Named.unique {schemas : Mapping} {name : String} {first second : Schema}
    (one : Named schemas name first) (two : Named schemas name second) : first = second := by
  obtain ⟨raw, held, read⟩ := one
  obtain ⟨other, alsoHeld, alsoRead⟩ := two
  obtain rfl := Option.some.inj (held.symm.trans alsoHeld)
  exact Except.ok.inj (read.symm.trans alsoRead)

/-- A part is reached from a schema by taking `allOf` branches apart and following pointers to the
records behind them. -/
inductive Composes (schemas : Mapping) : Schema → Schema → Prop
  | self (schema : Schema) : Composes schemas schema schema
  | branch {traits : Traits} {branches : List Schema} {branch part : Schema}
      (member : branch ∈ branches) (below : Composes schemas branch part) :
      Composes schemas (.composition traits .allOf branches) part
  | base {traits : Traits} {pointer name base : String} {schema part : Schema}
      (pointed : Reference.schemaName? pointer = some name)
      (found : recordBehind? schemas [] name = .ok (some base))
      (named : Named schemas base schema) (below : Composes schemas schema part) :
      Composes schemas (.reference traits pointer) part

/-- A key is a property key of an object that a schema is composed of. -/
def Declares (schemas : Mapping) (schema : Schema) (key : Scalar) : Prop :=
  ∃ traits properties required additional,
    Composes schemas schema (.object traits (some properties) required additional) ∧
      key ∈ properties.map Prod.fst

/-- A part is reached over so many pointers. -/
inductive ComposesIn (schemas : Mapping) : Nat → Schema → Schema → Prop
  | self (schema : Schema) : ComposesIn schemas 0 schema schema
  | branch {count : Nat} {traits : Traits} {branches : List Schema} {branch part : Schema}
      (member : branch ∈ branches) (below : ComposesIn schemas count branch part) :
      ComposesIn schemas count (.composition traits .allOf branches) part
  | base {count : Nat} {traits : Traits} {pointer name base : String} {schema part : Schema}
      (pointed : Reference.schemaName? pointer = some name)
      (found : recordBehind? schemas [] name = .ok (some base))
      (named : Named schemas base schema) (below : ComposesIn schemas count schema part) :
      ComposesIn schemas (count + 1) (.reference traits pointer) part

variable {schemas : Mapping}

/-- A schema composes a part exactly if it does so in some number of steps. -/
theorem composes_iff_exists_count {schema part : Schema} :
    Composes schemas schema part ↔ ∃ count, ComposesIn schemas count schema part := by
  constructor
  · intro composes
    induction composes with
    | self schema => exact ⟨0, .self schema⟩
    | branch member below ih =>
        obtain ⟨count, counted⟩ := ih
        exact ⟨count, .branch member counted⟩
    | base pointed found named below ih =>
        obtain ⟨count, counted⟩ := ih
        exact ⟨count + 1, .base pointed found named counted⟩
  · rintro ⟨count, counted⟩
    induction counted with
    | self schema => exact .self schema
    | branch member below ih => exact .branch member ih
    | base pointed found named below ih => exact .base pointed found named ih

/-- A part of a part is a part. -/
theorem Composes.trans {whole middle part : Schema} (first : Composes schemas whole middle)
    (second : Composes schemas middle part) : Composes schemas whole part := by
  induction first with
  | self => exact second
  | branch member below ih => exact .branch member (ih second)
  | base pointed found named below ih => exact .base pointed found named (ih second)

/-- A schema declares what its parts declare. -/
theorem Declares.of_composes {whole part : Schema} {key : Scalar}
    (composes : Composes schemas whole part) (declares : Declares schemas part key) :
    Declares schemas whole key := by
  obtain ⟨traits, properties, required, additional, below, member⟩ := declares
  exact ⟨traits, properties, required, additional, composes.trans below, member⟩

/-! ## Records behind names -/

/-- A record stands behind a name: under the name itself, or behind the name that the schema under
it is another name for. -/
inductive Behind (schemas : Mapping) (base : String) : String → Prop
  | record {schema : Schema} (named : Named schemas base schema) (isRecord : schema.isRecord) :
      Behind schemas base base
  | along {name next : String} {schema : Schema} (named : Named schemas name schema)
      (isAlias : schema.aliasOf? = some next) (behind : Behind schemas base next) :
      Behind schemas base name

/-- The record that is found behind a name stands behind it. -/
theorem behind_of_recordBehind? {passed : List String} {name base : String}
    (found : recordBehind? schemas passed name = .ok (some base)) : Behind schemas base name := by
  induction passed, name using recordBehind?.induct schemas with
  | case1 passed name missing =>
      rw [recordBehind?] at found
      split at found
      · cases found
      · next raw held => rw [missing] at held; cases held
  | case2 passed name raw held member =>
      unfold recordBehind? at found
      split at found
      · cases found
      · simp [member] at found
  | case3 passed name raw held fresh ih =>
      unfold recordBehind? at found
      split at found
      · cases found
      · next other alsoHeld =>
          rw [dif_neg fresh] at found
          obtain ⟨schema, read, found⟩ := except_bind_eq_ok_iff.mp found
          split at found
          · next isRecord =>
              cases found
              exact .record ⟨other, alsoHeld, read⟩ isRecord
          · split at found
            · next next isAlias => exact .along ⟨other, alsoHeld, read⟩ isAlias (ih next found)
            · cases found

/-- What stands behind a name is a record. -/
theorem Behind.exists_record {name base : String} (behind : Behind schemas base name) :
    ∃ schema, Named schemas base schema ∧ schema.isRecord := by
  induction behind with
  | record named isRecord => exact ⟨_, named, isRecord⟩
  | along named isAlias behind ih => exact ih

/-- A schema under a name is one of the map. -/
theorem Named.has {name : String} {schema : Schema} (named : Named schemas name schema) :
    schemas.has name := by
  obtain ⟨raw, held, read⟩ := named
  exact Mapping.has_iff_exists_find?.mpr ⟨raw, held⟩

/-- A name with something behind it is one of the map. -/
theorem Behind.has {name base : String} (behind : Behind schemas base name) :
    schemas.has name := by
  cases behind with
  | record named isRecord => exact named.has
  | along named isAlias behind => exact named.has

/-- Behind a name stands a record of the map. -/
theorem named_of_recordBehind? {passed : List String} {name base : String}
    (found : recordBehind? schemas passed name = .ok (some base)) :
    ∃ schema, Named schemas base schema ∧ schema.isRecord :=
  (behind_of_recordBehind? found).exists_record

/-- A name behind which a record is found is one of the map. -/
theorem has_of_recordBehind? {passed : List String} {name base : String}
    (found : recordBehind? schemas passed name = .ok (some base)) : schemas.has name :=
  (behind_of_recordBehind? found).has

/-- Behind the name of a record stands that record. -/
theorem recordBehind?_of_record {passed : List String} {name : String} {schema : Schema}
    (named : Named schemas name schema) (isRecord : schema.isRecord) (fresh : name ∉ passed) :
    recordBehind? schemas passed name = .ok (some name) := by
  obtain ⟨raw, held, read⟩ := named
  rw [recordBehind?]
  split
  · next missing => cases held.symm.trans missing
  · next other stands =>
      obtain rfl := Option.some.inj (held.symm.trans stands)
      rw [dif_neg fresh, read]
      simp [isRecord, bind, Except.bind, pure, Except.pure]

/-- Behind another name for a schema stands what stands behind that schema's name. -/
theorem recordBehind?_of_alias {passed : List String} {name next : String} {schema : Schema}
    (named : Named schemas name schema) (other : schema.isRecord = false)
    (isAlias : schema.aliasOf? = some next) (fresh : name ∉ passed) :
    recordBehind? schemas passed name = recordBehind? schemas (name :: passed) next := by
  obtain ⟨raw, held, read⟩ := named
  rw [recordBehind?]
  split
  · next missing => cases held.symm.trans missing
  · next found stands =>
      obtain rfl := Option.some.inj (held.symm.trans stands)
      rw [dif_neg fresh, read]
      simp [other, isAlias, bind, Except.bind]

theorem Schema.isJoined_composition_iff {traits : Traits} {kind : Composition}
    {branches : List Schema} : (composition traits kind branches).isJoined ↔ kind = .allOf := by
  cases kind <;> simp [isJoined]

/-- Records are taken together with what they are composed of. -/
theorem Schema.isJoined_of_isRecord {schema : Schema} (record : schema.isRecord) :
    schema.isJoined := by
  unfold Schema.isRecord at record
  unfold Schema.isJoined
  split at record <;> first | rfl | cases record

/-! ## Bases of pointers -/

variable {scope : Scope}

/-- Behind a pointer into the map stands the base, if any, that is found for it. -/
theorem yields_base?_iff {name : String} {found : Option String} (held : scope.schemas.has name) :
    (scope.base? true name).Yields found ↔ recordBehind? scope.schemas [] name = .ok found := by
  unfold Scope.base?
  rw [held, Bool.and_self, if_pos rfl]
  split
  · next record same => simp [same]
  · next same => simp [same]
  · next fault same => simp [same]

/-- A pointer out of the map has the name itself for its base. -/
theorem yields_base?_of_missing {name : String} {found : Option String}
    (missing : scope.schemas.has name = false) :
    (scope.base? true name).Yields found ↔ some name = found := by
  unfold Scope.base?
  rw [missing, Bool.and_false, if_neg Bool.false_ne_true, Traced.yields_answer]

/-- The base of a pointer is what it names or the record behind that. -/
theorem Scope.Points.behind_or_eq {nominal : Bool} {branch : Schema} {base : String}
    (points : scope.Points nominal branch base) :
    ∃ traits pointer name, branch = .reference traits pointer ∧
      Reference.schemaName? pointer = some name ∧
      (Behind scope.schemas base name ∨ base = name) := by
  obtain ⟨traits, pointer, name, rfl, pointed, search⟩ := points
  refine ⟨traits, pointer, name, rfl, pointed, ?_⟩
  unfold Scope.base? at search
  split at search
  · split at search
    · next record found =>
        obtain rfl := Option.some.inj (Traced.yields_answer.mp search)
        exact .inl (behind_of_recordBehind? found)
    · cases search
    · cases search
  · exact .inr (Option.some.inj (Traced.yields_answer.mp search)).symm

/-- A pointer to a name points to the record behind it. -/
theorem Scope.Points.of_found {traits : Traits} {pointer name base : String}
    (pointed : Reference.schemaName? pointer = some name)
    (found : recordBehind? scope.schemas [] name = .ok (some base)) :
    scope.Points true (.reference traits pointer) base :=
  ⟨traits, pointer, name, rfl, pointed, (yields_base?_iff (has_of_recordBehind? found)).mpr found⟩

/-- A base that is in the map is the record behind the pointer. -/
theorem Scope.Points.found {branch : Schema} {base : String}
    (points : scope.Points true branch base) (held : scope.schemas.has base) :
    ∃ traits pointer name, branch = .reference traits pointer ∧
      Reference.schemaName? pointer = some name ∧
      recordBehind? scope.schemas [] name = .ok (some base) := by
  obtain ⟨traits, pointer, name, rfl, pointed, search⟩ := points
  refine ⟨traits, pointer, name, rfl, pointed, ?_⟩
  by_cases present : scope.schemas.has name
  · exact (yields_base?_iff present).mp search
  · rw [yields_base?_of_missing (Bool.eq_false_iff.mpr present)] at search
    exact absurd (Option.some.inj search ▸ held) present

/-- A pointer leads to all that the record behind it is composed of. -/
theorem Scope.Points.composes {branch part schema : Schema} {base : String}
    (points : scope.Points true branch base) (named : Named scope.schemas base schema)
    (below : Composes scope.schemas schema part) : Composes scope.schemas branch part := by
  obtain ⟨traits, pointer, name, rfl, pointed, found⟩ := points.found named.has
  exact .base pointed found named below

/-- Where a pointer leads over to a record, that record is its base. -/
theorem Scope.Points.eq_of_found {traits : Traits} {pointer name base other : String}
    (points : scope.Points true (.reference traits pointer) base)
    (pointed : Reference.schemaName? pointer = some name)
    (found : recordBehind? scope.schemas [] name = .ok (some other)) : base = other := by
  obtain ⟨_, _, again, ⟨⟩, alsoPointed, search⟩ := points
  obtain rfl := Option.some.inj (pointed.symm.trans alsoPointed)
  have alsoFound := (yields_base?_iff (has_of_recordBehind? found)).mp search
  exact Option.some.inj (Except.ok.inj (alsoFound.symm.trans found))

/-! ## What a record takes in -/

namespace FlatRecord

/-- Building on one more schema adds that one to the bases. -/
theorem mem_bases_withBase {flat : FlatRecord} {base other : String} :
    other ∈ (flat.withBase base).bases ↔ other ∈ flat.bases ∨ other = base := by
  unfold withBase
  split
  · next held => exact ⟨.inl, fun either => either.elim id fun same => same ▸ held⟩
  · simp

/-- A record that takes in another one has the bases of both. -/
theorem mem_bases_absorb {flat inner : FlatRecord} {base : String} :
    base ∈ (flat.absorb inner).bases ↔ base ∈ flat.bases ∨ base ∈ inner.bases := by
  change base ∈ (inner.bases.foldl withBase flat).bases ↔ _
  induction inner.bases generalizing flat with
  | nil => simp
  | cons first rest ih =>
      rw [List.foldl_cons, ih, mem_bases_withBase, List.mem_cons, or_assoc]

/-- Building on one more schema adds no property. -/
theorem properties_withBase {flat : FlatRecord} {base : String} :
    (flat.withBase base).properties = flat.properties := by
  unfold withBase
  split <;> rfl

/-- A record that takes in another one holds the keys of both. -/
theorem holds_absorb {flat inner : FlatRecord} {key : Scalar} :
    Keyed.Holds (flat.absorb inner).properties key ↔
      Keyed.Holds flat.properties key ∨ Keyed.Holds inner.properties key :=
  Keyed.holds_putAll

/-- No other key is added by this. -/
theorem mem_keys_absorb {flat inner : FlatRecord} {key : Scalar}
    (member : key ∈ (flat.absorb inner).properties.map Prod.fst) :
    key ∈ flat.properties.map Prod.fst ∨ key ∈ inner.properties.map Prod.fst :=
  Keyed.mem_keys_putAll member

end FlatRecord

/-! ## Flattening keeps the declared keys -/

/-- A key is in a flattened record, or one of its bases declares it. -/
def FlatRecord.Covers (schemas : Mapping) (flat : FlatRecord) (key : Scalar) : Prop :=
  Keyed.Holds flat.properties key ∨
    ∃ base ∈ flat.bases, ∃ schema, Named schemas base schema ∧ Declares schemas schema key

/-- What a record covers is covered by one that holds more. -/
theorem FlatRecord.Covers.of_holds {flat more : FlatRecord} {key : Scalar}
    (covers : flat.Covers schemas key)
    (properties : Keyed.Holds flat.properties key → Keyed.Holds more.properties key)
    (bases : ∀ base ∈ flat.bases, base ∈ more.bases) : more.Covers schemas key := by
  rcases covers with holds | ⟨base, member, rest⟩
  · exact .inl (properties holds)
  · exact .inr ⟨base, bases base member, rest⟩

/-- Taking in a record, nothing that was covered is lost. -/
theorem FlatRecord.Covers.absorb_left {flat inner : FlatRecord} {key : Scalar}
    (covers : flat.Covers schemas key) : (flat.absorb inner).Covers schemas key :=
  covers.of_holds (fun holds => holds_absorb.mpr (.inl holds)) fun _ member =>
    mem_bases_absorb.mpr (.inl member)

/-- Nor is anything that the record covered which is taken in. -/
theorem FlatRecord.Covers.absorb_right {flat inner : FlatRecord} {key : Scalar}
    (covers : inner.Covers schemas key) : (flat.absorb inner).Covers schemas key :=
  covers.of_holds (fun holds => holds_absorb.mpr (.inr holds)) fun _ member =>
    mem_bases_absorb.mpr (.inr member)

/-- A part that is reached at all is reached by a shortest way. -/
theorem ComposesIn.exists_least {count : Nat} {schema part : Schema}
    (composes : ComposesIn schemas count schema part) :
    ∃ least ≤ count, ComposesIn schemas least schema part ∧
      ∀ shorter < least, ¬ ComposesIn schemas shorter schema part := by
  classical
  have reached : ∃ least, ComposesIn schemas least schema part := ⟨count, composes⟩
  exact ⟨Nat.find reached, Nat.find_min' reached composes, Nat.find_spec reached,
    fun shorter less => Nat.find_min reached less⟩

/-- The part is not reached over fewer pointers from any of the schemas being copied. -/
def Ahead (schemas : Mapping) (copying : List String) (count : Nat) (part : Schema) : Prop :=
  ∀ base ∈ copying, ∀ schema, Named schemas base schema →
    ∀ fewer < count, ¬ ComposesIn schemas fewer schema part

/-- A way through a composition to an object goes through one of the branches. -/
theorem ComposesIn.of_concat {count : Nat} {traits own : Traits} {kind : Composition}
    {branches : List Schema} {branch : Schema} {properties : Option (List (Scalar × Schema))}
    {required : List Scalar} {additional : Additional Schema}
    (composes : ComposesIn schemas count (.composition traits kind (branches ++ [branch]))
      (.object own properties required additional)) :
    ComposesIn schemas count (.composition traits kind branches)
        (.object own properties required additional) ∨
      ComposesIn schemas count branch (.object own properties required additional) := by
  cases composes with
  | branch member below =>
      rcases List.mem_append.mp member with early | last
      · exact .inl (.branch early below)
      · exact .inr (List.mem_singleton.mp last ▸ below)

/-- A way from a pointer to an object goes on from the record behind the pointer. -/
theorem ComposesIn.of_points {count : Nat} {branch : Schema} {base : String} {own : Traits}
    {properties : Option (List (Scalar × Schema))} {required : List Scalar}
    {additional : Additional Schema} (points : scope.Points true branch base)
    (composes :
      ComposesIn scope.schemas count branch (.object own properties required additional)) :
    ∃ fewer schema, count = fewer + 1 ∧ Named scope.schemas base schema ∧ schema.isRecord ∧
      ComposesIn scope.schemas fewer schema (.object own properties required additional) := by
  obtain ⟨traits, pointer, name, rfl, pointed, search⟩ := points
  cases composes with
  | @base fewer _ _ _ other schema _ alsoPointed found named below =>
      have same := Scope.Points.eq_of_found ⟨traits, pointer, name, rfl, pointed, search⟩
        alsoPointed found
      obtain ⟨record, alsoNamed, isRecord⟩ := named_of_recordBehind? found
      exact ⟨fewer, schema, rfl, same ▸ named, named.unique alsoNamed ▸ isRecord, below⟩

/-- Nothing is reached through a branch that is no object and has no record behind it. -/
theorem Scope.Apart.not_composesIn {count : Nat} {branch : Schema} {own : Traits}
    {properties : Option (List (Scalar × Schema))} {required : List Scalar}
    {additional : Additional Schema} (apart : scope.Apart true branch) :
    ¬ ComposesIn scope.schemas count branch (.object own properties required additional) := by
  intro composes
  cases composes with
  | self => cases apart.1
  | branch member below => cases apart.1
  | base pointed found named below =>
      have search := apart.2 _ _ _ rfl pointed
      rw [yields_base?_iff (has_of_recordBehind? found), found] at search
      cases search

/-- No declared key is lost when a record is flattened.  The induction is on the steps of
flattening; a record that is copied is entered on a shortest way, along which the schemas being
copied are not met again. -/
theorem Flattens.covers {copying : List String} {schema : Schema} {flat : FlatRecord}
    (flattens : Flattens scope true copying schema flat) (joined : schema.isJoined)
    {count : Nat} {own : Traits} {properties : List (Scalar × Schema)} {required : List Scalar}
    {additional : Additional Schema} {key : Scalar} (member : key ∈ properties.map Prod.fst)
    (composes :
      ComposesIn scope.schemas count schema (.object own (some properties) required additional))
    (ahead :
      Ahead scope.schemas copying count (.object own (some properties) required additional)) :
    flat.Covers scope.schemas key := by
  have kept {traits : Traits} {kind : Composition} {branches more : List Schema}
      (joined : (Schema.composition traits kind more).isJoined) :
      (Schema.composition traits kind branches).isJoined :=
    Schema.isJoined_composition_iff.mpr (Schema.isJoined_composition_iff.mp joined)
  induction flattens generalizing count with
  | object =>
      cases composes with
      | self =>
          obtain ⟨entry, held, rfl⟩ := List.mem_map.mp member
          exact .inl ⟨entry, held, Scalar.same_iff.mpr rfl⟩
  | lone plain apart => exact absurd joined (by simp [apart])
  | start => cases composes with
    | branch member below => exact absurd member List.not_mem_nil
  | extra before apart ih =>
      rcases composes.of_concat with early | last
      · exact (ih (kept joined) early ahead).of_holds id fun _ => id
      · exact absurd last apart.not_composesIn
  | inherit before points defined ih =>
      rcases composes.of_concat with early | last
      · exact (ih (kept joined) early ahead).of_holds
          (fun holds => by rwa [FlatRecord.properties_withBase])
          fun _ held => FlatRecord.mem_bases_withBase.mpr (.inl held)
      · obtain ⟨fewer, schema, rfl, named, record, below⟩ := last.of_points points
        refine .inr ⟨_, FlatRecord.mem_bases_withBase.mpr (.inr rfl), schema, named, ?_⟩
        exact ⟨own, properties, required, additional,
          composes_iff_exists_count.mpr ⟨fewer, below⟩, member⟩
  | skip before points later underway ih =>
      rcases composes.of_concat with early | last
      · exact ih (kept joined) early ahead
      · obtain ⟨fewer, schema, rfl, named, record, below⟩ := last.of_points points
        exact absurd below (ahead _ underway schema named fewer (Nat.lt_succ_self fewer))
  | @copy copying _ _ _ flat inner branch base raw schema before points later fresh held read
      copied ih ihCopied =>
      rcases composes.of_concat with early | last
      · exact (ih (kept joined) early ahead).absorb_left
      · obtain ⟨fewer, other, rfl, named, record, below⟩ := last.of_points points
        obtain rfl := named.unique ⟨raw, held, read⟩
        -- A shortest way does not come back to the copied schema, so nothing on it is skipped.
        obtain ⟨least, bound, shortest, none⟩ := below.exists_least
        refine (ihCopied (Schema.isJoined_of_isRecord record) shortest ?_).absorb_right
        intro passed isPassed schema alsoNamed shorter less
        rcases List.mem_cons.mp isPassed with rfl | earlier
        · obtain rfl := named.unique alsoNamed
          exact none shorter less
        · exact ahead passed earlier schema alsoNamed shorter (by omega)
  | join before isJoined below ih ihBelow =>
      rcases composes.of_concat with early | last
      · exact (ih (kept joined) early ahead).absorb_left
      · exact (ihBelow isJoined last ahead).absorb_right

/-! ## Flattening takes in nothing else -/

/-- A composition keeps its parts when a branch is added. -/
theorem Composes.concat {traits own : Traits} {branches : List Schema} {branch part : Schema}
    (composes : Composes schemas (.composition traits .allOf branches) part)
    (below : part ≠ .composition traits .allOf branches) :
    Composes schemas (.composition own .allOf (branches ++ [branch])) part := by
  cases composes with
  | self => exact absurd rfl below
  | branch member inner => exact .branch (List.mem_append_left _ member) inner

/-- A flattened record holds nothing but what a schema is composed of: declared keys, and records
behind pointers that are defined before. -/
structure FlatRecord.ComposedOf (scope : Scope) (schema : Schema) (flat : FlatRecord) : Prop where
  keys : ∀ key ∈ flat.properties.map Prod.fst, Declares scope.schemas schema key
  bases : ∀ base ∈ flat.bases, ∃ traits pointer,
    Composes scope.schemas schema (.reference traits pointer) ∧
      scope.Points true (.reference traits pointer) base ∧ scope.emittedLater true base = false

namespace FlatRecord.ComposedOf

variable {schema part : Schema} {flat inner : FlatRecord}

/-- A record composed of a part is composed of the whole. -/
theorem of_composes (composed : flat.ComposedOf scope part)
    (composes : Composes scope.schemas schema part) : flat.ComposedOf scope schema where
  keys key member := (composed.keys key member).of_composes composes
  bases base member := by
    obtain ⟨traits, pointer, below, rest⟩ := composed.bases base member
    exact ⟨traits, pointer, composes.trans below, rest⟩

/-- A record composed of some branches is composed of these and one more. -/
theorem concat {traits : Traits} {branches : List Schema} {branch : Schema}
    (composed : flat.ComposedOf scope (.composition traits .allOf branches)) :
    flat.ComposedOf scope (.composition traits .allOf (branches ++ [branch])) where
  keys key member := by
    obtain ⟨own, properties, required, additional, below, held⟩ := composed.keys key member
    exact ⟨own, properties, required, additional, below.concat (by simp), held⟩
  bases base member := by
    obtain ⟨target, pointer, below, rest⟩ := composed.bases base member
    exact ⟨target, pointer, below.concat (by simp), rest⟩

/-- Records composed of the same schema are so together. -/
theorem absorb (composed : flat.ComposedOf scope schema) (more : inner.ComposedOf scope schema) :
    (flat.absorb inner).ComposedOf scope schema where
  keys key member := (mem_keys_absorb member).elim (composed.keys key) (more.keys key)
  bases base member := (mem_bases_absorb.mp member).elim (composed.bases base) (more.bases base)

/-- A record stays composed of a schema when it builds on a base that a part points to. -/
theorem withBase {traits : Traits} {pointer base : String}
    (composed : flat.ComposedOf scope schema)
    (composes : Composes scope.schemas schema (.reference traits pointer))
    (points : scope.Points true (.reference traits pointer) base)
    (defined : scope.emittedLater true base = false) :
    (flat.withBase base).ComposedOf scope schema where
  keys key member := composed.keys key (by rwa [properties_withBase] at member)
  bases other member := by
    rcases mem_bases_withBase.mp member with before | rfl
    · exact composed.bases other before
    · exact ⟨traits, pointer, composes, points, defined⟩

end FlatRecord.ComposedOf

/-- Flattening a record takes in nothing but what the record is composed of. -/
theorem Flattens.composedOf {copying : List String} {schema : Schema} {flat : FlatRecord}
    (flattens : Flattens scope true copying schema flat) (joined : schema.isJoined) :
    flat.ComposedOf scope schema := by
  have last {traits : Traits} {branches : List Schema} {branch : Schema} :
      Composes scope.schemas (.composition traits .allOf (branches ++ [branch])) branch :=
    .branch (List.mem_append_right _ List.mem_cons_self) (.self branch)
  induction flattens with
  | @object _ traits properties required additional =>
      refine ⟨fun key member => ?_, fun base none => absurd none List.not_mem_nil⟩
      cases properties with
      | none => exact absurd member List.not_mem_nil
      | some properties => exact ⟨traits, properties, required, additional, .self _, member⟩
  | lone plain apart => exact absurd joined (by simp [apart])
  | start =>
      exact ⟨fun key none => absurd none List.not_mem_nil,
        fun base none => absurd none List.not_mem_nil⟩
  | extra before apart ih =>
      obtain rfl := Schema.isJoined_composition_iff.mp joined
      obtain ⟨keys, bases⟩ := (ih joined).concat
      exact ⟨keys, bases⟩
  | inherit before points defined ih =>
      obtain rfl := Schema.isJoined_composition_iff.mp joined
      obtain ⟨traits, pointer, name, rfl, rest⟩ := points
      exact (ih joined).concat.withBase last ⟨traits, pointer, name, rfl, rest⟩ defined
  | skip before points later underway ih =>
      obtain rfl := Schema.isJoined_composition_iff.mp joined
      exact (ih joined).concat
  | copy before points later fresh held read copied ih ihCopied =>
      obtain rfl := Schema.isJoined_composition_iff.mp joined
      obtain ⟨traits, pointer, name, rfl, pointed, found⟩ :=
        points.found (Scope.has_of_emittedLater later)
      obtain ⟨schema, named, record⟩ := named_of_recordBehind? found
      obtain rfl := named.unique ⟨_, held, read⟩
      have copiedFrom := ihCopied (Schema.isJoined_of_isRecord record)
      have composes := points.composes named (.self schema)
      exact (ih joined).concat.absorb (copiedFrom.of_composes (last.trans composes))
  | join before isJoined below ih ihBelow =>
      obtain rfl := Schema.isJoined_composition_iff.mp joined
      exact (ih joined).concat.absorb ((ihBelow isJoined).of_composes last)

end OpenApi
