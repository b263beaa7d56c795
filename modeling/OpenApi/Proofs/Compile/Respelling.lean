import Mathlib.Data.List.Forall2
import OpenApi.Proofs.Compile.Synthesis

/-!
# Other spellings of a name

Whether a definition is mentioned shows when the use of its name is spelled differently.  Compiling
under another spelling of one name yields the same type, unless one of the schemas that are used is
emitted under the name or the name is one of those that come along.  Names that come along with
parts that are left out again make no difference.
-/

namespace OpenApi

/-! ## Schemas that are used -/

/-- A schema that compiling the root may use: one of the map, or one that a part points to. -/
def Usable (schemas : Mapping) (root : Schema) (target : String) : Prop :=
  schemas.has target ∨ ∃ traits pointer,
    (Schema.reference traits pointer).PartOf schemas root ∧
      Reference.schemaName? pointer = some target

/-- None of the schemas that may be used is emitted under the name. -/
def Scope.Avoids (scope : Scope) (root : Schema) (name : String) : Prop :=
  ∀ target, Usable scope.schemas root target → scope.emittedName target ≠ name

/-- A scope that avoids a name still does so when more names are taken. -/
theorem Scope.Avoids.taking {scope : Scope} {root : Schema} {name : String}
    (avoids : scope.Avoids root name) (names : List String) :
    (scope.taking names).Avoids root name := by
  intro target usable
  rw [Scope.schemas_taking] at usable
  rw [Scope.emittedName_taking]
  exact avoids target usable

/-- The base found behind a pointer may be used. -/
theorem Scope.Points.usable {scope : Scope} {nominal : Bool} {branch root : Schema} {base : String}
    (points : scope.Points nominal branch base) (part : branch.PartOf scope.schemas root) :
    Usable scope.schemas root base := by
  obtain ⟨traits, pointer, name, rfl, pointed, behind | rfl⟩ := points.behind_or_eq
  · obtain ⟨_, named, _⟩ := behind.exists_record
    exact .inl named.has
  · exact .inr ⟨traits, pointer, part, pointed⟩

/-- What a flattened record is left to build on may be used. -/
theorem Flattens.usable {scope : Scope} {nominal : Bool} {copying : List String}
    {schema root : Schema} {flat : FlatRecord}
    (flattens : Flattens scope nominal copying schema flat)
    (parts : ∀ operand ∈ schema.operands, operand.PartOf scope.schemas root) :
    ∀ base ∈ flat.bases, Usable scope.schemas root base :=
  (flattens.all (fun _ part _ points => points.usable part) parts).bases

/-! ## Related runs -/

/-- Whatever is put together of related types is related. -/
def Compiled.Combines (related : Compiled → Compiled → Prop) : Prop :=
  ∀ (spelling : List Compiled → Spelling) ⦃first second : List Compiled⦄,
    List.Forall₂ related first second →
      related ((spelling first).combine first) ((spelling second).combine second)

namespace Compiled.Combines

variable {related : Compiled → Compiled → Prop} {one other : Compiled}

/-- What holds of two types holds of what is put around them in the same way. -/
theorem around (combines : Combines related) (spelling : Compiled → Spelling)
    (holds : related one other) :
    related ((spelling one).combine [one]) ((spelling other).combine [other]) :=
  combines (fun parts => spelling (parts.headD one)) (.cons holds .nil)

/-- What holds of two types holds of them with a description. -/
theorem describe (combines : Combines related) (dialect : Dialect) (schema : Schema)
    (holds : related one other) :
    related (dialect.describe schema one) (dialect.describe schema other) := by
  unfold Dialect.describe
  split
  · next described description _ _ =>
      split
      · exact holds
      · exact combines.around (fun part => described part.expression description) holds
  · exact holds

/-- What holds of two types holds of them where null is allowed. -/
theorem withNull (combines : Combines related) (dialect : Dialect) (schema : Schema)
    (holds : related one other) :
    related (dialect.withNull schema one) (dialect.withNull schema other) := by
  unfold Dialect.withNull
  split
  · exact combines.around (fun part => dialect.nullable part.expression) holds
  · exact holds

end Compiled.Combines

/-- Parts are tracked one by one where related types bring the same names along. -/
theorem Dialect.tracks_compileParts {dialect : Dialect} {related : Compiled → Compiled → Prop}
    {first second : Compiling} {parts : List (Schema × String)} {scope : Scope}
    (names : ∀ one other, related one other → other.auxiliaryNames = one.auxiliaryNames)
    (each : ∀ part ∈ parts, ∀ taken,
      (dialect.compilePart first part.1 part.2 (scope.taking taken)).Tracks related
        (dialect.compilePart second part.1 part.2 (scope.taking taken))) :
    (dialect.compileParts first parts scope).Tracks (List.Forall₂ related)
      (dialect.compileParts second parts scope) := by
  induction parts generalizing scope with
  | nil => exact .answer .nil
  | cons part rest ih =>
      rw [List.forall_mem_cons] at each
      refine (each.1 []).andThen fun one other _ holds => ?_
      -- The names that come along are the same, so both go on in one scope.
      rw [names one other holds]
      have eachLater : ∀ part ∈ rest, ∀ taken,
          (dialect.compilePart first part.1 part.2
              ((scope.taking one.auxiliaryNames).taking taken)).Tracks related
            (dialect.compilePart second part.1 part.2
              ((scope.taking one.auxiliaryNames).taking taken)) := by
        intro part member taken
        rw [← Scope.taking_append]
        exact each.2 part member _
      exact (ih eachLater).andThen fun _ _ _ others => .answer (.cons holds others)

/-! ## Compiled types that are alike -/

namespace Compiled

/-- Definitions of the same names come along with two types, and the types are the same, unless the
given name is among these.  In any case the first type builds on the name nowhere. -/
structure Alike (name : String) (first second : Compiled) : Prop where
  names : namesOf second.auxiliary = namesOf first.auxiliary
  same : name ∉ namesOf first.auxiliary → second = first
  own : name ∉ first.type.bases
  brought : ∀ definition ∈ first.auxiliary, name ∉ definition.type.bases

variable {name : String} {first second : List Compiled}

/-- A type without bases and definitions is like itself. -/
theorem Alike.of_alone {compiled : Compiled} (bases : compiled.type.bases = [])
    (alone : compiled.auxiliary = []) : compiled.Alike name compiled where
  names := rfl
  same _ := rfl
  own := by simp [bases]
  brought := by simp [alone]

/-- The names of two lists of definitions are those of the one and then those of the other. -/
theorem namesOf_append {first second : List Definition} :
    namesOf (first ++ second) = namesOf first ++ namesOf second :=
  List.map_append

/-- Types that are alike bring definitions of the same names. -/
theorem namesOf_of_alike (alike : List.Forall₂ (Alike name) first second) :
    namesOf (auxiliaryOf second) = namesOf (auxiliaryOf first) := by
  induction alike with
  | nil => rfl
  | cons head tail ih =>
      rw [auxiliaryOf_cons, auxiliaryOf_cons, namesOf_append, namesOf_append, head.names, ih]

/-- They are the same if none of the names is respelled. -/
theorem eq_of_alike (alike : List.Forall₂ (Alike name) first second)
    (absent : name ∉ namesOf (auxiliaryOf first)) : second = first := by
  induction alike with
  | nil => rfl
  | cons head tail ih =>
      rw [auxiliaryOf_cons, namesOf_append, List.mem_append, not_or] at absent
      rw [head.same absent.1, ih absent.2]

/-- No definition that they bring builds on the respelled name. -/
theorem not_mem_bases_of_alike (alike : List.Forall₂ (Alike name) first second) :
    ∀ definition ∈ auxiliaryOf first, name ∉ definition.type.bases := by
  induction alike with
  | nil => exact fun definition none => absurd none List.not_mem_nil
  | cons head tail ih =>
      intro definition member
      rw [auxiliaryOf_cons] at member
      exact (List.mem_append.mp member).elim (head.brought definition) (ih definition)

/-- What is put together of parts that are alike is alike. -/
theorem Alike.combines (name : String) : Combines (Alike name) := fun _ _ _ alike =>
  { names := namesOf_of_alike alike
    same := fun absent => by rw [eq_of_alike alike absent]
    own := List.not_mem_nil
    brought := not_mem_bases_of_alike alike }

end Compiled

namespace Dialect

/-! ## Assembled records -/

/-- What a record states about further properties, as text. -/
def statedOf : Additional Compiled → Additional String
  | .values content => .values content.expression
  | .allowed permitted => .allowed permitted
  | .unstated => .unstated

/-- The record of a spelling, its fields and bases, and the parts that come with it. -/
def recordOf (spelled : Spelling) (fields : List Field) (bases : List String)
    (parts : List Compiled) : Compiled where
  type :=
    { (spelled.combine parts).type with
      references := NameSet.ofList bases ∪ (spelled.combine parts).type.references
      kind := .object
      fields
      bases }
  auxiliary := Compiled.auxiliaryOf parts

/-- What a record is put together to, said at once. -/
theorem outcome_assemble (dialect : Dialect) (hint : String) (fields : List (Field × Compiled))
    (bases : List String) (extras : List Compiled) (additional : Additional Compiled) :
    (dialect.assemble hint fields bases extras additional).outcome =
      .ok (recordOf
        (dialect.record ⟨hint, fields.map Prod.fst, bases, extras.map (·.expression),
          statedOf additional⟩)
        (fields.map Prod.fst) bases
        (fields.map Prod.snd ++
          if dialect.fieldsOnly then [] else extras ++ furtherOf additional)) := by
  unfold assemble
  dsimp only
  split <;> cases additional <;> rfl

/-! ## Dialects with other spellings -/

/-- The dialect with other spellings for the use of a definition and for records. -/
def respelled (dialect : Dialect) (reference : String → Spelling)
    (record : RecordParts → Spelling) : Dialect :=
  { dialect with reference, record }

/-- Other spellings differ for one name only: for its use, and for records that build on it. -/
structure Respells (dialect : Dialect) (name : String) (reference : String → Spelling)
    (record : RecordParts → Spelling) : Prop where
  reference : ∀ other, other ≠ name → reference other = dialect.reference other
  record : ∀ parts, name ∉ parts.bases → record parts = dialect.record parts

/-- Where records have fields only, whatever else they are built of does not show. -/
def LeavesOut (dialect : Dialect) : Prop :=
  dialect.fieldsOnly → ∀ parts extras additional,
    dialect.record { parts with extras, additional } = dialect.record parts

section Runs

variable {dialect : Dialect} {root : Schema} {name : String} {reference : String → Spelling}
  {record : RecordParts → Spelling} {first second : Compiling} {scope : Scope}

/-- Neither the use of a definition nor a record shows in a description or in the order of parts. -/
theorem compileParts_respelled {compile : Compiling} {parts : List (Schema × String)} :
    (dialect.respelled reference record).compileParts compile parts scope =
      dialect.compileParts compile parts scope := by
  induction parts generalizing scope with
  | nil => rfl
  | cons part rest ih =>
      refine Traced.andThen_congr rfl fun compiled _ => ?_
      rw [ih]

/-- A pointer to another schema is spelled as before. -/
theorem compileReference_respelled (respells : dialect.Respells name reference record)
    {traits : Traits} {pointer : String}
    (part : (Schema.reference traits pointer).PartOf scope.schemas root)
    (avoids : scope.Avoids root name) :
    (dialect.respelled reference record).compileReference pointer scope =
      dialect.compileReference pointer scope := by
  unfold compileReference
  split
  · rfl
  · next target pointed =>
      have apart := avoids target (.inr ⟨traits, pointer, part, pointed⟩)
      have spelled : (dialect.respelled reference record).reference (scope.emittedName target) =
          dialect.reference (scope.emittedName target) := respells.reference _ apart
      rw [spelled]

/-- The parts of a record that are kept tell its fields apart from the others. -/
theorem eq_of_kept_eq {compiled others extras othersExtras : List Compiled}
    {additional further : Additional Compiled} (length : compiled.length = others.length)
    (lengthExtras : extras.length = othersExtras.length)
    (determined : furtherOf further = furtherOf additional → further = additional)
    (same : (others ++ if dialect.fieldsOnly then [] else othersExtras ++ furtherOf further) =
      compiled ++ if dialect.fieldsOnly then [] else extras ++ furtherOf additional) :
    others = compiled ∧
      (dialect.fieldsOnly = false → othersExtras = extras ∧ further = additional) := by
  obtain ⟨sameFields, sameRest⟩ := List.append_inj same length.symm
  refine ⟨sameFields, fun keeps => ?_⟩
  rw [keeps, if_neg Bool.false_ne_true, if_neg Bool.false_ne_true] at sameRest
  obtain ⟨sameExtras, sameFurther⟩ := List.append_inj sameRest lengthExtras.symm
  exact ⟨sameExtras, determined sameFurther⟩

/-- Where records have fields only, their other parts do not matter. -/
theorem assemble_of_leavesOut (leaves : dialect.LeavesOut) {hint : String}
    {fields : List (Field × Compiled)} {bases : List String} {extras others : List Compiled}
    {additional further : Additional Compiled}
    (kept : dialect.fieldsOnly = false → others = extras ∧ further = additional) :
    (dialect.assemble hint fields bases others further).outcome =
      (dialect.assemble hint fields bases extras additional).outcome := by
  cases only : dialect.fieldsOnly with
  | false =>
      obtain ⟨rfl, rfl⟩ := kept only
      rfl
  | true =>
      let parts (extras : List Compiled) (additional : Additional Compiled) : RecordParts :=
        ⟨hint, fields.map Prod.fst, bases, extras.map (·.expression), statedOf additional⟩
      have spelled : dialect.record (parts others further) =
          dialect.record (parts extras additional) := leaves only (parts extras additional) _ _
      rw [outcome_assemble, outcome_assemble, only, if_pos rfl, if_pos rfl]
      exact congrArg (fun spelling => Except.ok (recordOf spelling (fields.map Prod.fst) bases
        (fields.map Prod.snd ++ []))) spelled

/-- A record that does not build on the name is spelled as before; where records have fields only,
the other parts do not matter. -/
theorem assemble_respelled (respells : dialect.Respells name reference record)
    (leaves : dialect.LeavesOut) {hint : String} {fields : List (Field × Compiled)}
    {bases : List String} {extras others : List Compiled}
    {additional further : Additional Compiled} (apart : name ∉ bases)
    (kept : dialect.fieldsOnly = false → others = extras ∧ further = additional) :
    ((dialect.respelled reference record).assemble hint fields bases others further).outcome =
      (dialect.assemble hint fields bases extras additional).outcome := by
  refine Eq.trans ?_ (assemble_of_leavesOut leaves kept)
  rw [outcome_assemble, outcome_assemble]
  exact congrArg (fun spelling => Except.ok (recordOf spelling (fields.map Prod.fst) bases
    (fields.map Prod.snd ++ if dialect.fieldsOnly then [] else others ++ furtherOf further)))
      (respells.record _ apart)

/-- Related parts make another record, and the same one if all parts that are kept are the same. -/
theorem exists_assemble_related {related : Compiled → Compiled → Prop} {hint : String}
    {required : List Scalar} {properties : List (String × Schema)} {bases : List String}
    {compiled others extras othersExtras : List Compiled} {additional further : Additional Compiled}
    {whole : Compiled} (length : compiled.length = properties.length)
    (holds : List.Forall₂ related compiled others)
    (holdsExtras : List.Forall₂ related extras othersExtras)
    (holdsFurther : List.Forall₂ related (furtherOf additional) (furtherOf further))
    (determined : furtherOf further = furtherOf additional → further = additional)
    (spelled : (dialect.fieldsOnly = false → othersExtras = extras ∧ further = additional) →
      ((dialect.respelled reference record).assemble hint
        (List.zipWith (dialect.field required) properties compiled) bases othersExtras
          further).outcome =
        (dialect.assemble hint (List.zipWith (dialect.field required) properties compiled) bases
          extras additional).outcome)
    (run : (dialect.assemble hint (List.zipWith (dialect.field required) properties compiled) bases
      extras additional).Yields whole) :
    ∃ other parts otherParts,
      ((dialect.respelled reference record).assemble hint
        (List.zipWith (dialect.field required) properties others) bases othersExtras
          further).Yields other ∧
      List.Forall₂ related parts otherParts ∧ whole.auxiliary = Compiled.auxiliaryOf parts ∧
      other.auxiliary = Compiled.auxiliaryOf otherParts ∧ (otherParts = parts → other = whole) := by
  have lengthOthers : others.length = properties.length := holds.length_eq ▸ length
  have runOther := outcome_assemble (dialect.respelled reference record) hint
    (List.zipWith (dialect.field required) properties others) bases othersExtras further
  have holdsRest : List.Forall₂ related
      (if dialect.fieldsOnly then [] else extras ++ furtherOf additional)
      (if dialect.fieldsOnly then [] else othersExtras ++ furtherOf further) := by
    split
    · exact .nil
    · exact List.rel_append holdsExtras holdsFurther
  have brought := auxiliary_of_assemble length run
  have broughtOther := auxiliary_of_assemble lengthOthers runOther
  refine ⟨_, _, _, runOther, List.rel_append holds holdsRest, brought, broughtOther,
    fun same => ?_⟩
  -- Only where more than fields is kept do the other parts have to be the same.
  obtain ⟨rfl, kept⟩ := eq_of_kept_eq holds.length_eq holdsExtras.length_eq determined same
  exact Except.ok.inj (runOther.symm.trans ((spelled kept).trans run))

end Runs

end Dialect

/-! ## Runs under other spellings -/

/-- One way of compiling tracks another where no schema that may be used is emitted under the name:
it yields types that are alike. -/
def Compiling.Tracks (root : Schema) (name : String) (first second : Compiling) : Prop :=
  ∀ ⦃schema : Schema⦄ ⦃hint : String⦄ ⦃scope : Scope⦄, schema.PartOf scope.schemas root →
    scope.Avoids root name →
      (first schema hint scope).Tracks (Compiled.Alike name) (second schema hint scope)

namespace Compiling.Tracks

variable {dialect : Dialect} {root : Schema} {name : String} {reference : String → Spelling}
  {record : RecordParts → Spelling} {first second : Compiling} {scope : Scope}

/-- A part comes to types that are alike. -/
theorem compilePart (tracks : Tracks root name first second) {schema : Schema} {hint : String}
    (part : schema.PartOf scope.schemas root) (avoids : scope.Avoids root name) :
    (dialect.compilePart first schema hint scope).Tracks (Compiled.Alike name)
      (dialect.compilePart second schema hint scope) :=
  (tracks part avoids).andThen fun _ _ _ alike =>
    .answer ((Compiled.Alike.combines name).describe dialect schema alike)

/-- Parts come to types that are alike, one by one. -/
theorem compileParts (tracks : Tracks root name first second) {parts : List (Schema × String)}
    (each : ∀ part ∈ parts, part.1.PartOf scope.schemas root) (avoids : scope.Avoids root name) :
    (dialect.compileParts first parts scope).Tracks (List.Forall₂ (Compiled.Alike name))
      ((dialect.respelled reference record).compileParts second parts scope) := by
  rw [Dialect.compileParts_respelled]
  refine Dialect.tracks_compileParts (fun _ _ alike => alike.names) fun part member taken => ?_
  have held : part.1.PartOf (scope.taking taken).schemas root := by
    rw [Scope.schemas_taking]
    exact each part member
  exact tracks.compilePart held (avoids.taking taken)

/-- A record whose parts are alike is put together to records that are alike. -/
theorem assemble (respells : dialect.Respells name reference record) (leaves : dialect.LeavesOut)
    {hint : String} {required : List Scalar} {properties : List (String × Schema)}
    {bases : List String} {compiled others extras othersExtras : List Compiled}
    {additional further : Additional Compiled} (apart : name ∉ bases)
    (length : compiled.length = properties.length)
    (alike : List.Forall₂ (Compiled.Alike name) compiled others)
    (alikeExtras : List.Forall₂ (Compiled.Alike name) extras othersExtras)
    (alikeFurther : List.Forall₂ (Compiled.Alike name) (Dialect.furtherOf additional)
      (Dialect.furtherOf further))
    (determined : Dialect.furtherOf further = Dialect.furtherOf additional →
      further = additional) :
    (dialect.assemble hint (List.zipWith (dialect.field required) properties compiled) bases extras
        additional).Tracks (Compiled.Alike name)
      ((dialect.respelled reference record).assemble hint
        (List.zipWith (dialect.field required) properties others) bases othersExtras further) := by
  intro whole run
  obtain ⟨other, parts, otherParts, runOther, alikeParts, brought, broughtOther, same⟩ :=
    Dialect.exists_assemble_related length alike alikeExtras alikeFurther determined
      (Dialect.assemble_respelled respells leaves apart) run
  refine ⟨other, runOther, ?_, fun absent => ?_, ?_, ?_⟩
  · rw [brought, broughtOther]
    exact Compiled.namesOf_of_alike alikeParts
  · rw [brought] at absent
    exact same (Compiled.eq_of_alike alikeParts absent)
  · rwa [(Dialect.assemble_yields run).2.2.1]
  · rw [brought]
    exact Compiled.not_mem_bases_of_alike alikeParts

/-- A record comes to types that are alike. -/
theorem compileRecord (tracks : Tracks root name first second)
    (respells : dialect.Respells name reference record) (leaves : dialect.LeavesOut)
    {schema : Schema} {hint : String} (part : schema.PartOf scope.schemas root)
    (avoids : scope.Avoids root name) :
    (dialect.compileRecord first schema hint scope).Tracks (Compiled.Alike name)
      ((dialect.respelled reference record).compileRecord second schema hint scope) := by
  unfold Dialect.compileRecord
  refine (Traced.Tracks.refl _).andThen fun flat _ flattened same => ?_
  subst same
  have flattens := flattens_of_yields flattened
  have parts := flattens.partsOf part.operands
  have apart : name ∉ flat.bases.map scope.emittedName := by
    intro member
    obtain ⟨base, held, same⟩ := List.mem_map.mp member
    exact avoids base (flattens.usable part.operands base held) same
  refine (Traced.Tracks.refl _).andThen fun properties _ named same => ?_
  subst same
  refine (tracks.compileParts (Dialect.partOf_of_property parts named) avoids).andThen
    fun compiled others compiles alike => ?_
  have length := Dialect.length_of_compileParts compiles
  rw [List.length_map] at length
  dsimp only
  rw [Dialect.scopeAfter_eq, Dialect.scopeAfter_eq, Compiled.namesOf_of_alike alike]
  refine (tracks.compileParts
    (by simpa only [Scope.schemas_taking] using Dialect.partOf_of_numbered parts.extras)
    (avoids.taking _)).andThen fun extras othersExtras _ alikeExtras => ?_
  rw [Dialect.scopeAfter_eq, Dialect.scopeAfter_eq, Compiled.namesOf_of_alike alikeExtras]
  simp only [Scope.emittedName_taking]
  have assembled {additional further : Additional Compiled}
      (alikeFurther : List.Forall₂ (Compiled.Alike name) (Dialect.furtherOf additional)
        (Dialect.furtherOf further))
      (determined : Dialect.furtherOf further = Dialect.furtherOf additional →
        further = additional) :
      (dialect.assemble hint (List.zipWith (dialect.field flat.required) properties compiled)
          (flat.bases.map scope.emittedName) extras additional).Tracks (Compiled.Alike name)
        ((dialect.respelled reference record).assemble hint
          (List.zipWith (dialect.field flat.required) properties others)
          (flat.bases.map scope.emittedName) othersExtras further) :=
    assemble respells leaves apart length alike alikeExtras alikeFurther determined
  split
  · next content stated =>
      have held := parts.additional content stated
      refine (tracks.compilePart (by simpa only [Scope.schemas_taking] using held)
        ((avoids.taking _).taking _)).andThen fun values othersValues _ alikeValues => ?_
      exact assembled (.cons alikeValues .nil) fun same => by
        rw [List.singleton_inj.mp same]
  · exact assembled .nil fun _ => rfl
  · exact assembled .nil fun _ => rfl

/-- A nested record comes to types that are alike. -/
theorem compileNested (tracks : Tracks root name first second)
    (respells : dialect.Respells name reference record) (leaves : dialect.LeavesOut)
    {schema : Schema} {hint : String} (part : schema.PartOf scope.schemas root)
    (avoids : scope.Avoids root name) :
    (dialect.compileNested first schema hint scope).Tracks (Compiled.Alike name)
      ((dialect.respelled reference record).compileNested second schema hint scope) := by
  have records (hint : String) (scope : Scope) (part : schema.PartOf scope.schemas root)
      (avoids : scope.Avoids root name) :
      (dialect.compileRecord first schema hint scope).Tracks (Compiled.Alike name)
        ((dialect.respelled reference record).compileRecord second schema hint scope) :=
    tracks.compileRecord respells leaves part avoids
  unfold Dialect.compileNested
  change Traced.Tracks _ _ (if dialect.namesNested then _ else _)
  split
  · refine (Traced.Tracks.refl _).andThen fun _ _ _ _ => ?_
    refine (records _ _ (by rwa [Scope.schemas_taking]) (avoids.taking _)).andThen
      fun one other _ alike => .answer ⟨?_, fun absent => ?_, List.not_mem_nil, ?_⟩
    · simp only [Compiled.namesOf_append, alike.names]
      rfl
    · simp only [Compiled.namesOf_append, List.mem_append, not_or] at absent
      have apart : Identifier.unique hint scope.taken ≠ name := fun same =>
        absent.2 (List.mem_singleton.mpr same.symm)
      have spelled : (dialect.respelled reference record).reference
          (Identifier.unique hint scope.taken) =
            dialect.reference (Identifier.unique hint scope.taken) := respells.reference _ apart
      rw [alike.same absent.1, spelled]
    · intro definition member
      rcases List.mem_append.mp member with inner | last
      · exact alike.brought definition inner
      · exact List.mem_singleton.mp last ▸ alike.own
  · exact records hint scope part avoids

/-- A composition comes to types that are alike. -/
theorem compileComposition (tracks : Tracks root name first second)
    (respells : dialect.Respells name reference record) (leaves : dialect.LeavesOut)
    {traits : Traits} {kind : Composition} {branches : List Schema} {hint : String}
    (part : (Schema.composition traits kind branches).PartOf scope.schemas root)
    (avoids : scope.Avoids root name) :
    (dialect.compileComposition first (.composition traits kind branches) kind branches hint
        scope).Tracks (Compiled.Alike name)
      ((dialect.respelled reference record).compileComposition second
        (.composition traits kind branches) kind branches hint scope) := by
  unfold Dialect.compileComposition
  split
  · exact .answer (.of_alone rfl rfl)
  · next branch =>
      exact tracks.compilePart (part.operands branch List.mem_cons_self) avoids
  · split
    · exact tracks.compileNested respells leaves part avoids
    · refine (tracks.compileParts (Dialect.partOf_of_numbered part.operands) avoids).andThen
        fun _ _ _ alike => .answer ?_
      exact Compiled.Alike.combines name
        (fun parts => dialect.union (parts.map (·.expression))) alike

/-- A schema of any kind comes to types that are alike. -/
theorem compileCase (tracks : Tracks root name first second)
    (respells : dialect.Respells name reference record) (leaves : dialect.LeavesOut)
    {schema : Schema} {hint : String} (part : schema.PartOf scope.schemas root)
    (avoids : scope.Avoids root name) :
    (dialect.compileCase first schema hint scope).Tracks (Compiled.Alike name)
      ((dialect.respelled reference record).compileCase second schema hint scope) := by
  have around {inner : Schema} {hint : String} {spelling : Compiled → Spelling}
      (below : inner.PartOf scope.schemas root) :
      ((dialect.compilePart first inner hint scope).andThen fun inner =>
        .answer ((spelling inner).combine [inner])).Tracks (Compiled.Alike name)
      (((dialect.respelled reference record).compilePart second inner hint scope).andThen
        fun inner => .answer ((spelling inner).combine [inner])) :=
    (tracks.compilePart below avoids).andThen fun _ _ _ alike =>
      .answer ((Compiled.Alike.combines name).around spelling alike)
  cases schema with
  | reference traits pointer =>
      refine .answer ?_
      rw [Dialect.compileReference_respelled respells part avoids]
      unfold Dialect.compileReference
      split <;> exact .of_alone rfl rfl
  | enumeration traits values =>
      change Traced.Tracks _ (if _ then _ else _) (if _ then _ else _)
      split
      · exact .answer (.of_alone rfl rfl)
      · exact fun _ run => (Traced.yields_fail.mp run).elim
  | composition traits kind branches => exact tracks.compileComposition respells leaves part avoids
  | primitive traits kind => exact .answer (.of_alone rfl rfl)
  | array traits items =>
      cases items with
      | none => exact .answer (.of_alone rfl rfl)
      | some items => exact around (part.within (.items (.self items)))
  | object traits properties required additional =>
      cases properties with
      | some properties => exact tracks.compileNested respells leaves part avoids
      | none =>
          cases additional with
          | values content => exact around (part.within (.content (.self content)))
          | unstated | allowed => exact .answer (.of_alone rfl rfl)
  | unknown traits => exact .answer (.of_alone rfl rfl)

end Compiling.Tracks

namespace Dialect

variable {dialect : Dialect} {name : String} {reference : String → Spelling}
  {record : RecordParts → Spelling}

/-- Compiling within any depth is tracked under other spellings. -/
theorem tracks_compileWithin (respells : dialect.Respells name reference record)
    (leaves : dialect.LeavesOut) (root : Schema) (depth : Nat) :
    Compiling.Tracks root name (dialect.compileWithin depth)
      ((dialect.respelled reference record).compileWithin depth) := by
  induction depth with
  | zero => exact fun schema hint scope part avoids compiled run => (Traced.yields_fail.mp run).elim
  | succ depth ih =>
      intro schema hint scope part avoids
      exact (ih.compileCase respells leaves part avoids).andThen fun _ _ _ alike =>
        .answer ((Compiled.Alike.combines name).withNull dialect schema alike)

/-- **Other spellings of a name.** Under other spellings of a name that no schema in use is emitted
under, a schema compiles to a type that is alike. -/
theorem tracks_compile (respells : dialect.Respells name reference record)
    (leaves : dialect.LeavesOut) {hint : String} {schema : Schema} {scope : Scope}
    (avoids : scope.Avoids schema name) :
    (dialect.compile hint schema scope).Tracks (Compiled.Alike name)
      ((dialect.respelled reference record).compile hint schema scope) := by
  have tracks := tracks_compileWithin respells leaves schema
    (schema.size + schemaBound scope + 1)
  have whole : schema.PartOf scope.schemas schema := .inl (.self schema)
  unfold compile
  dsimp only
  split
  · exact tracks.compileRecord respells leaves whole avoids
  · exact tracks whole avoids

end Dialect

end OpenApi
