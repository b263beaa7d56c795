import OpenApi.Proofs.Schema.Sources

/-!
# How large schemas are

What stands below a schema is smaller.  A schema that is read has at most three times as many parts
as the raw value has; it is only larger at all because branches that stand next to properties are
read as two more schemas.
-/

namespace OpenApi.Schema

/-! ## Smaller parts -/

/-- A schema stands within another and is smaller. -/
structure Below (part whole : Schema) : Prop where
  within : part.Within whole
  smaller : part.size < whole.size

/-- No branch is larger than all branches together. -/
theorem size_le_sizeBranches {branch : Schema} {branches : List Schema}
    (member : branch ∈ branches) : branch.size ≤ sizeBranches branches := by
  induction branches with
  | nil => cases member
  | cons first rest ih =>
      rw [sizeBranches]
      rcases List.mem_cons.mp member with rfl | later
      · omega
      · have := ih later
        omega

/-- No property is larger than all properties together. -/
theorem size_le_sizeProperties {key : Scalar} {property : Schema}
    {properties : List (Scalar × Schema)} (member : (key, property) ∈ properties) :
    property.size ≤ sizeProperties properties := by
  induction properties with
  | nil => cases member
  | cons first rest ih =>
      obtain ⟨held, first⟩ := first
      rw [sizeProperties]
      rcases List.mem_cons.mp member with same | later
      · cases same
        omega
      · have := ih later
        omega

/-- There is something to every schema. -/
theorem size_pos (schema : Schema) : 0 < schema.size := by
  unfold size
  split <;> omega

section Below

variable {part middle whole : Schema} {traits : Traits}

/-- What is below something that is below the whole is below the whole. -/
theorem Below.trans (inner : part.Below middle) (outer : middle.Below whole) :
    part.Below whole :=
  ⟨inner.within.trans outer.within, Nat.lt_trans inner.smaller outer.smaller⟩

/-- A branch is below its composition. -/
theorem below_branch {kind : Composition} {branches : List Schema} (member : part ∈ branches) :
    part.Below (.composition traits kind branches) where
  within := .branch member (.self part)
  smaller := by
    have := size_le_sizeBranches member
    rw [size]
    omega

/-- The items are below their list. -/
theorem below_items : part.Below (.array traits (some part)) where
  within := .items (.self part)
  smaller := by
    rw [size]
    omega

/-- A property is below its object. -/
theorem below_property {key : Scalar} {properties : List (Scalar × Schema)}
    {required : List Scalar} {additional : Additional Schema}
    (member : (key, part) ∈ properties) :
    part.Below (.object traits (some properties) required additional) where
  within := .property member (.self part)
  smaller := by
    have := size_le_sizeProperties member
    cases additional with
    | values content =>
        rw [size]
        omega
    | unstated | allowed =>
        rw [size]
        · omega
        · intro _ values
          cases values

/-- What further properties may hold is below its object. -/
theorem below_content {properties : Option (List (Scalar × Schema))} {required : List Scalar} :
    part.Below (.object traits properties required (.values part)) where
  within := .content (.self part)
  smaller := by
    cases properties <;>
    · rw [size]
      omega

end Below

/-! ## Schemas that are read -/

/-- Reading a value makes it three times as large at most. -/
def ReadsSmall (value : Value) : Prop :=
  ∀ schema, ofValue value = .ok schema → schema.size + 2 ≤ 3 * value.size

/-- Branches put together are as large as both. -/
theorem sizeBranches_append (first second : List Schema) :
    sizeBranches (first ++ second) = sizeBranches first + sizeBranches second := by
  induction first with
  | nil => simp [sizeBranches]
  | cons branch rest ih => rw [List.cons_append, sizeBranches, sizeBranches, ih, Nat.add_assoc]

/-- An object beside branches adds no more than its own size and a little. -/
theorem size_withOwn_le (traits : Traits) (kind : Composition) (branches : List Schema)
    (own : Schema) :
    (withOwn traits kind branches own).size ≤ sizeBranches branches + own.size + 2 := by
  cases kind <;> simp only [withOwn, size, sizeBranches, sizeBranches_append] <;> omega

/-- An object is as large as its properties and what further ones may hold. -/
theorem size_object_le {traits : Traits} {properties : Option (List (Scalar × Schema))}
    {required : List Scalar} {additional : Additional Schema} {own further : Nat}
    (declared : ∀ list, properties = some list → sizeProperties list ≤ own)
    (stated : ∀ content, additional = .values content → content.size ≤ further) :
    (object traits properties required additional).size ≤ own + further + 1 := by
  cases properties with
  | none =>
      cases additional with
      | values content =>
          have := stated content rfl
          rw [size]
          omega
      | unstated | allowed =>
          rw [size] <;> simp
  | some list =>
      have := declared list rfl
      cases additional with
      | values content =>
          have := stated content rfl
          rw [size]
          omega
      | unstated | allowed =>
          rw [size]
          · omega
          · simp

/-- Branches that are read from items are no larger than three times the items. -/
theorem sizeBranches_le_of_ofItems {items : List Value} {schemas : List Schema}
    (each : ∀ item ∈ items, ReadsSmall item) (read : ofItems items = .ok schemas) :
    sizeBranches schemas ≤ 3 * Value.sizeItems items := by
  induction items generalizing schemas with
  | nil =>
      rw [ofItems] at read
      cases read
      simp [sizeBranches]
  | cons item rest ih =>
      rw [ofItems] at read
      obtain ⟨first, readFirst, read⟩ := except_bind_eq_ok_iff.mp read
      obtain ⟨others, readOthers, read⟩ := except_bind_eq_ok_iff.mp read
      cases read
      have := each item List.mem_cons_self first readFirst
      have := ih (fun other held => each other (List.mem_cons_of_mem _ held)) readOthers
      rw [sizeBranches, Value.sizeItems]
      omega

/-- Properties that are read from entries are no larger than three times the entries. -/
theorem sizeProperties_le_of_ofEntries {entries : Mapping} {properties : List (Scalar × Schema)}
    (each : ∀ entry ∈ entries, ReadsSmall entry.2) (read : ofEntries entries = .ok properties) :
    sizeProperties properties ≤ 3 * Value.sizeEntries entries := by
  induction entries generalizing properties with
  | nil =>
      rw [ofEntries] at read
      cases read
      simp [sizeProperties]
  | cons entry rest ih =>
      obtain ⟨key, item⟩ := entry
      rw [ofEntries] at read
      obtain ⟨first, readFirst, read⟩ := except_bind_eq_ok_iff.mp read
      obtain ⟨others, readOthers, read⟩ := except_bind_eq_ok_iff.mp read
      cases read
      have : first.size + 2 ≤ 3 * item.size := each _ List.mem_cons_self first readFirst
      have := ih (fun other held => each other (List.mem_cons_of_mem _ held)) readOthers
      rw [sizeProperties, Value.sizeEntries]
      omega

section Mappings

variable {entries : Mapping} {schema : Schema}
  (smaller : ∀ value, value.size ≤ Value.sizeEntries entries → ReadsSmall value)

include smaller

/-- So it is for the properties under their keyword. -/
theorem sizeProperties_le_of_ofProperties {properties : List (Scalar × Schema)}
    (read : ofProperties entries = .ok (some properties)) :
    sizeProperties properties ≤ 3 * Mapping.sizeAt entries "properties" := by
  unfold ofProperties at read
  split at read
  · next inner found =>
      obtain ⟨own, readOwn, same⟩ := except_bind_eq_ok_iff.mp read
      cases same
      have bound := Value.size_le_of_find? found
      rw [Value.size] at bound
      have each : ∀ entry ∈ inner, ReadsSmall entry.2 := by
        intro entry held
        have within := size_le_of_mem_entries held
        exact smaller _ (by omega)
      have := sizeProperties_le_of_ofEntries each readOwn
      simp only [Mapping.sizeAt, found, Option.map_some, Option.getD_some, Value.size]
      omega
  · split at read <;> cases read
  · cases read

/-- So it is for what further properties may hold. -/
theorem size_le_of_ofAdditional {content : Schema}
    (read : ofAdditional entries = .ok (.values content)) :
    content.size ≤ 3 * Mapping.sizeAt entries "additionalProperties" := by
  unfold ofAdditional at read
  split at read
  · next inner found =>
      obtain ⟨own, readOwn, same⟩ := except_bind_eq_ok_iff.mp read
      cases same
      have := smaller _ (Value.size_le_of_find? found) _ readOwn
      simp only [Mapping.sizeAt, found, Option.map_some, Option.getD_some]
      omega
  · cases read
  · cases read

/-- An object is bounded by what stands under the keywords that it is read from. -/
theorem size_le_of_ofObject {traits : Traits} (read : ofObject traits entries = .ok schema) :
    schema.size ≤ 3 * Mapping.sizeAt entries "properties" +
      3 * Mapping.sizeAt entries "additionalProperties" + 1 := by
  rw [ofObject] at read
  obtain ⟨additional, readAdditional, read⟩ := except_bind_eq_ok_iff.mp read
  obtain ⟨properties, readProperties, read⟩ := except_bind_eq_ok_iff.mp read
  obtain ⟨required, readRequired, read⟩ := except_bind_eq_ok_iff.mp read
  cases read
  apply size_object_le
  · rintro list rfl
    exact sizeProperties_le_of_ofProperties smaller readProperties
  · rintro content rfl
    exact size_le_of_ofAdditional smaller readAdditional

/-- Properties and further properties stand under different keys. -/
theorem size_lt_of_ofObject {traits : Traits} (read : ofObject traits entries = .ok schema) :
    schema.size + 2 ≤ 3 * (Value.map entries).size := by
  have differ : ["properties", "additionalProperties"].Nodup := by decide
  have apart := Mapping.sizesAt_le entries differ
  have parts := size_le_of_ofObject smaller read
  simp only [Mapping.sizesAt] at apart
  rw [Value.size]
  omega

section Composed

variable {kind : Composition} {items : List Value} {branches : List Schema}
  (composed : composed? entries = some (kind, items))
  (readBranches : ofItems items = .ok branches)

include composed readBranches

/-- Branches under a keyword are bounded by the items that stand there. -/
theorem sizeBranches_le_of_composed : sizeBranches branches ≤ 3 * Value.sizeItems items := by
  have fits := sizeItems_lt_of_composed? composed
  refine sizeBranches_le_of_ofItems (fun item member => smaller item ?_) readBranches
  have bound := size_le_of_mem member
  omega

/-- Branches, properties and further properties stand under different keys. -/
theorem size_withOwn_le_of_composed {traits : Traits} {own : Schema}
    (readOwn : ofObject {} entries = .ok own) :
    (withOwn traits kind branches own).size + 2 ≤ 3 * (Value.map entries).size := by
  have differ : [kind.keyword, "properties", "additionalProperties"].Nodup := by
    cases kind <;> decide
  have apart := Mapping.sizesAt_le entries differ
  have few := sizeBranches_le_of_composed smaller composed readBranches
  have parts := size_le_of_ofObject smaller readOwn
  have whole := size_withOwn_le traits kind branches own
  have found := find?_of_composed? composed
  simp only [Mapping.sizesAt] at apart
  rw [Mapping.sizeAt, found, Option.map_some, Option.getD_some, Value.size] at apart
  rw [Value.size]
  omega

end Composed

/-- What is read from a mapping is as small as its parts are. -/
theorem readsSmall_map : ReadsSmall (.map entries) := by
  intro schema read
  have single {part : Schema} (alone : part.size = 1) :
      part.size + 2 ≤ 3 * (Value.map entries).size := by
    rw [alone, Value.size]
    omega
  rw [ofValue] at read
  split at read
  · cases read
    exact single (by simp [size])
  · split at read
    · cases read
      exact single (by simp [size])
    · split at read
      · next composed =>
          obtain ⟨branches, readBranches, read⟩ := except_bind_eq_ok_iff.mp read
          split at read
          · obtain ⟨own, readOwn, read⟩ := except_bind_eq_ok_iff.mp read
            cases read
            exact size_withOwn_le_of_composed smaller composed readBranches readOwn
          · cases read
            have few := sizeBranches_le_of_composed smaller composed readBranches
            have fits := sizeItems_lt_of_composed? composed
            rw [size, Value.size]
            omega
      · dsimp only at read
        split at read
        · cases read
          exact single (by simp [size])
        · split at read
          · split at read
            · next inner found =>
                obtain ⟨items, readItems, read⟩ := except_bind_eq_ok_iff.mp read
                cases read
                have bound := Value.size_le_of_find? found
                have few := smaller _ bound _ readItems
                rw [size, Value.size]
                omega
            · cases read
              exact single (by simp [size])
          · split at read
            · exact size_lt_of_ofObject smaller read
            · cases read
              exact single (by simp [size])

end Mappings

/-- A schema that is read from a value is at most three times as large. -/
theorem readsSmall (value : Value) : ReadsSmall value := by
  induction sized : value.size using Nat.strongRecOn generalizing value with
  | ind size ih =>
      have nothing (other : ∀ entries, value ≠ .map entries) : ReadsSmall value := by
        intro schema read
        rw [ofValue] at read
        · cases read
          have alone : (unknown {}).size = 1 := by simp [Schema.size]
          have := value.size_pos
          omega
        · exact other
      cases value with
      | map entries =>
          refine readsSmall_map fun other fits => ih other.size ?_ other rfl
          rw [← sized, Value.size]
          exact Nat.lt_succ_of_le fits
      | scalar | list =>
          refine nothing fun entries same => ?_
          cases same

end OpenApi.Schema
