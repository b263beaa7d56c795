import OpenApi.Proofs.Mapping
import OpenApi.Validation

/-!
# Accepted documents

Which values are valid documents.  Every check finds nothing exactly in sections of the right form, so
a value is accepted exactly if all sections that the rules ask for have that form (`Acceptable`).  The
meta-schema is consulted only where the structural checks find nothing, so findings of the two kinds
never stand beside each other.
-/

namespace OpenApi

/-- Whether a finding comes from the meta-schema and not from a structural check. -/
def Finding.isOfMetaSchema : Finding → Bool
  | violated _ | checkBrokenOff _ => true
  | _ => false

namespace Validation

variable {rules : ValidationRules} {check : MetaCheck} {entries : Mapping}

/-! ## Forms of sections -/

/-- An info section is a mapping that states a title and a version. -/
def IsInfo (value : Value) : Prop :=
  ∃ info, value = .map info ∧ Mapping.has info "title" ∧ Mapping.has info "version"

/-- A paths section leads from texts that begin with a slash to mappings. -/
def ArePaths (value : Value) : Prop :=
  ∃ paths, value = .map paths ∧ ∀ entry ∈ paths,
    (∃ path, entry.1 = .text path ∧ path.toList.head? = some '/') ∧ entry.2.isMap

/-- A section of schemas is null, or leads to mappings and truth values only. -/
def AreSchemas (value : Value) : Prop :=
  value = .null ∨ ∃ schemas, value = .map schemas ∧ ∀ entry ∈ schemas,
    entry.2.isMap ∨ ∃ truth, entry.2 = .bool truth

/-- A components section is a mapping whose schemas, if it has any, are a section of schemas. -/
def AreComponents (value : Value) : Prop :=
  ∃ components, value = .map components ∧
    ∀ schemas, Mapping.find? components "schemas" = some schemas → AreSchemas schemas

/-- What the rules ask of a mapping, apart from what the meta-schema does. -/
structure WellFormed (rules : ValidationRules) (entries : Mapping) : Prop where
  version : ∃ version, entries.find? "openapi" = some (.text version) ∧
    Version.supported version rules.minVersion
  info : rules.requireInfo → ∃ info, entries.find? "info" = some info ∧ IsInfo info
  sections : rules.requirePathsOrComponents → entries.has "paths" ∨ entries.has "components"
  paths : ∀ paths, entries.find? "paths" = some paths → ArePaths paths
  components : ∀ components, entries.find? "components" = some components →
    AreComponents components

/-- What a mapping must be to be accepted: well formed and, if that is to be checked, without
violations of the meta-schema of its version. -/
structure Acceptable (rules : ValidationRules) (check : MetaCheck) (entries : Mapping) : Prop
    extends WellFormed rules entries where
  metaSchema : rules.checkMetaSchema → ∀ version, entries.find? "openapi" = some (.text version) →
    check (if "3.1".toList <+: version.toList then .v31 else .v30) (.map entries) = .complete []

/-! ## What the checks find -/

/-- Nothing is wrong with a version that is stated as a text and high enough. -/
theorem versionFindings_eq_nil_iff :
    versionFindings rules entries = [] ↔
      ∃ version, entries.find? "openapi" = some (.text version) ∧
        Version.supported version rules.minVersion := by
  unfold versionFindings
  split
  · next missing => simp [missing]
  · next version stated =>
      rw [stated]
      split
      · next supported => exact ⟨fun _ => ⟨version, rfl, supported⟩, fun _ => rfl⟩
      · next tooLow => simp [tooLow]
  · next value other stated =>
      rw [stated]
      refine ⟨nofun, ?_⟩
      rintro ⟨version, same, _⟩
      exact absurd (Option.some.inj same) (other version)

/-- Nothing is wrong with an info section that has its fields. -/
theorem infoFindings_eq_nil_iff :
    infoFindings entries = [] ↔ ∃ info, entries.find? "info" = some info ∧ IsInfo info := by
  unfold infoFindings IsInfo
  split
  · next missing => simp [missing]
  · next info stated => simp [stated]
  · next value other stated =>
      rw [stated]
      refine ⟨nofun, ?_⟩
      rintro ⟨_, same, info, rfl, _⟩
      exact absurd (Option.some.inj same) (other info)

/-- Nothing is wrong with a path that begins with a slash and has a mapping as its item. -/
theorem pathFindings_eq_nil_iff {entry : Scalar × Value} :
    pathFindings entry = [] ↔
      (∃ path, entry.1 = .text path ∧ path.toList.head? = some '/') ∧ entry.2.isMap := by
  unfold pathFindings
  split
  · next path named => simp [named]
  · next key other =>
      refine ⟨nofun, ?_⟩
      rintro ⟨⟨path, named, _⟩, _⟩
      exact absurd named (other path)

/-- Nothing is wrong with a paths section of such paths. -/
theorem pathsFindings_eq_nil_iff {value : Value} :
    pathsFindings value = [] ↔ ArePaths value := by
  unfold ArePaths
  cases value with
  | map paths => simp [pathsFindings, List.flatMap_eq_nil_iff, pathFindings_eq_nil_iff]
  | scalar | list => simp [pathsFindings]

/-- A mapping or a truth value may be a schema, and nothing else may. -/
theorem maySchema_iff {value : Value} :
    maySchema value ↔ value.isMap ∨ ∃ truth, value = .bool truth := by
  cases value with
  | map => simp [maySchema, Value.isMap]
  | list => simp [maySchema, Value.isMap]
  | scalar content => cases content <;> simp [maySchema, Value.isMap]

/-- Nothing is wrong with components whose schemas may be schemas. -/
theorem componentsFindings_eq_nil_iff {value : Value} :
    componentsFindings value = [] ↔ AreComponents value := by
  unfold AreComponents AreSchemas
  cases value with
  | scalar | list => simp [componentsFindings]
  | map components =>
      simp only [componentsFindings]
      split
      · next missing => simp [missing]
      · next absent => simp [absent]
      · next schemas stated => simp [stated, maySchema_iff]
      · next value notNull notMapping stated =>
          constructor
          · intro nothing
            cases nothing
          · rintro ⟨_, ⟨⟩, each⟩
            rcases each value stated with null | ⟨schemas, mapping, _⟩
            · exact absurd null notNull
            · exact absurd mapping (notMapping schemas)

/-- The structural checks find nothing exactly in a well-formed mapping. -/
theorem structuralFindings_eq_nil_iff :
    structuralFindings rules entries = [] ↔ WellFormed rules entries := by
  have sections : (if rules.requirePathsOrComponents && !entries.has "paths" &&
      !entries.has "components" then [Finding.noPathsOrComponents] else []) = [] ↔
        (rules.requirePathsOrComponents → entries.has "paths" ∨ entries.has "components") := by
    cases rules.requirePathsOrComponents <;> cases entries.has "paths" <;>
      cases entries.has "components" <;> decide
  have info : (if rules.requireInfo then infoFindings entries else []) = [] ↔
      (rules.requireInfo → ∃ info, entries.find? "info" = some info ∧ IsInfo info) := by
    rw [← infoFindings_eq_nil_iff]
    cases rules.requireInfo <;> simp
  have optional (key : String) (findings : Value → List Finding) :
      ((entries.find? key).map findings).getD [] = [] ↔
        ∀ value, entries.find? key = some value → findings value = [] := by
    cases entries.find? key <;> simp
  unfold structuralFindings
  simp only [List.append_eq_nil_iff, versionFindings_eq_nil_iff, info, sections, optional,
    pathsFindings_eq_nil_iff, componentsFindings_eq_nil_iff, and_assoc]
  constructor
  · rintro ⟨version, info, sections, paths, components⟩
    exact ⟨version, info, sections, paths, components⟩
  · rintro ⟨version, info, sections, paths, components⟩
    exact ⟨version, info, sections, paths, components⟩

/-- The version that is stated decides on the meta-schema. -/
theorem metaSchemaFor_of_version {version : String}
    (stated : entries.find? "openapi" = some (.text version)) :
    metaSchemaFor entries = if "3.1".toList <+: version.toList then .v31 else .v30 := by
  simp [metaSchemaFor, stated, Value.text?]

/-- The meta-schema check finds nothing if it comes to its end without a violation. -/
theorem metaFindings_eq_nil_iff :
    metaFindings check entries = [] ↔
      check (metaSchemaFor entries) (.map entries) = .complete [] := by
  unfold metaFindings
  split
  · next violations report => simp [report]
  · next cause report => simp [report]

/-! ## Kinds of findings -/

/-- None of the findings comes from the meta-schema. -/
def AreStructural (found : List Finding) : Prop :=
  ∀ finding ∈ found, finding.isOfMetaSchema = false

theorem areStructural_nil : AreStructural [] :=
  nofun

theorem areStructural_singleton {finding : Finding} (structural : finding.isOfMetaSchema = false) :
    AreStructural [finding] :=
  fun _ member => List.mem_singleton.mp member ▸ structural

/-- Structural findings stay so when others are added to them. -/
theorem AreStructural.append {first second : List Finding} (before : AreStructural first)
    (after : AreStructural second) : AreStructural (first ++ second) :=
  List.forall_mem_append.mpr ⟨before, after⟩

/-- What is wrong with the version is structural. -/
theorem areStructural_versionFindings : AreStructural (versionFindings rules entries) := by
  unfold versionFindings
  split
  · exact areStructural_singleton rfl
  · split
    · exact areStructural_nil
    · exact areStructural_singleton rfl
  · exact areStructural_singleton rfl

/-- What is wrong with the info section is structural. -/
theorem areStructural_infoFindings : AreStructural (infoFindings entries) := by
  unfold infoFindings
  split
  · exact areStructural_singleton rfl
  · intro finding member
    obtain ⟨field, _, rfl⟩ := List.mem_map.mp member
    rfl
  · exact areStructural_singleton rfl

/-- What is wrong with a path is structural. -/
theorem areStructural_pathFindings (entry : Scalar × Value) :
    AreStructural (pathFindings entry) := by
  unfold pathFindings
  split
  · apply AreStructural.append
    · split
      · exact areStructural_nil
      · exact areStructural_singleton rfl
    · split
      · exact areStructural_nil
      · exact areStructural_singleton rfl
  · exact areStructural_singleton rfl

/-- What is wrong with the paths section is structural. -/
theorem areStructural_pathsFindings (value : Value) : AreStructural (pathsFindings value) := by
  unfold pathsFindings
  split
  · intro finding member
    obtain ⟨entry, _, within⟩ := List.mem_flatMap.mp member
    exact areStructural_pathFindings entry finding within
  · exact areStructural_singleton rfl

/-- What is wrong with the components section is structural. -/
theorem areStructural_componentsFindings (value : Value) :
    AreStructural (componentsFindings value) := by
  unfold componentsFindings
  split
  · split
    · exact areStructural_nil
    · exact areStructural_nil
    · intro finding member
      obtain ⟨entry, _, rfl⟩ := List.mem_map.mp member
      rfl
    · exact areStructural_singleton rfl
  · exact areStructural_singleton rfl

/-- No structural check speaks for the meta-schema. -/
theorem areStructural_structuralFindings : AreStructural (structuralFindings rules entries) := by
  have optional (key : String) {findings : Value → List Finding}
      (each : ∀ value, AreStructural (findings value)) :
      AreStructural ((entries.find? key).map findings |>.getD []) := by
    cases entries.find? key with
    | none => exact areStructural_nil
    | some value => exact each value
  refine (((areStructural_versionFindings.append ?_).append ?_).append
    (optional "paths" areStructural_pathsFindings)).append
      (optional "components" areStructural_componentsFindings)
  · split
    · exact areStructural_infoFindings
    · exact areStructural_nil
  · split
    · exact areStructural_singleton rfl
    · exact areStructural_nil

/-- What the meta-schema check finds is marked as such. -/
theorem isOfMetaSchema_of_mem_metaFindings {finding : Finding}
    (member : finding ∈ metaFindings check entries) : finding.isOfMetaSchema := by
  unfold metaFindings at member
  split at member
  · obtain ⟨violation, _, rfl⟩ := List.mem_map.mp member
    rfl
  · obtain rfl := List.mem_singleton.mp member
    rfl

/-! ## Accepted values -/

/-- Nothing is found in a mapping exactly if it is acceptable. -/
theorem findings_map_eq_nil_iff :
    findings rules check (.map entries) = [] ↔ Acceptable rules check entries := by
  have structural : structuralFindings rules entries = [] ↔ WellFormed rules entries :=
    structuralFindings_eq_nil_iff
  unfold findings
  dsimp only
  constructor
  · intro nothing
    split at nothing
    · next clean =>
        have wellFormed := structural.mp clean
        refine ⟨wellFormed, fun checks version stated => ?_⟩
        rw [if_pos checks, metaFindings_eq_nil_iff, metaSchemaFor_of_version stated] at nothing
        exact nothing
    · next unclean => exact absurd nothing unclean
  · intro acceptable
    rw [structural.mpr acceptable.toWellFormed]
    dsimp only
    split
    · next checks =>
        obtain ⟨version, stated, _⟩ := acceptable.version
        rw [metaFindings_eq_nil_iff, metaSchemaFor_of_version stated]
        exact acceptable.metaSchema checks version stated
    · rfl

/-- An empty report says that nothing was found. -/
theorem report_eq_nil_iff {doc : Value} :
    report rules check doc = .ok [] ↔ findings rules check doc = [] := by
  unfold report
  dsimp only
  split
  · simp
  · next unwritable =>
      refine ⟨nofun, fun nothing => ?_⟩
      rw [nothing] at unwritable
      exact absurd rfl unwritable

/-- The findings in a value are all structural, or all from the meta-schema. -/
theorem areStructural_or_areOfMetaSchema (rules : ValidationRules) (check : MetaCheck)
    (doc : Value) : AreStructural (findings rules check doc) ∨
      ∀ finding ∈ findings rules check doc, finding.isOfMetaSchema := by
  unfold findings
  split
  · exact .inl (areStructural_singleton rfl)
  · split
    · split
      · exact .inr fun _ => isOfMetaSchema_of_mem_metaFindings
      · exact .inl areStructural_nil
    · exact .inl areStructural_structuralFindings
  · exact .inl (areStructural_singleton rfl)

/-- **Accepted documents.** Validation reports nothing about a value exactly if the value is a mapping
whose sections all have the form that the rules ask for and that satisfies the meta-schema of its
version.  No report puts a structural finding beside one of the meta-schema. -/
theorem accepted_exactly (rules : ValidationRules) (check : MetaCheck) (doc : Value) :
    (report rules check doc = .ok [] ↔
      ∃ entries, doc = .map entries ∧ Acceptable rules check entries) ∧
    ¬((∃ finding ∈ findings rules check doc, finding.isOfMetaSchema = false) ∧
      ∃ finding ∈ findings rules check doc, finding.isOfMetaSchema) := by
  constructor
  · rw [report_eq_nil_iff]
    constructor
    · intro nothing
      cases doc with
      | map entries => exact ⟨entries, rfl, findings_map_eq_nil_iff.mp nothing⟩
      | scalar content => cases content <;> cases nothing
      | list items => cases nothing
    · rintro ⟨entries, rfl, acceptable⟩
      exact findings_map_eq_nil_iff.mpr acceptable
  · rintro ⟨⟨structural, member, isStructural⟩, other, otherMember, isOther⟩
    rcases areStructural_or_areOfMetaSchema rules check doc with all | all
    · rw [all other otherMember] at isOther
      cases isOther
    · rw [all structural member] at isStructural
      cases isStructural

end Validation

end OpenApi
