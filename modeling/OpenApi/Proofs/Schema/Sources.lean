import OpenApi.Proofs.Mapping
import OpenApi.Proofs.Traced
import OpenApi.Schema.Reader

/-!
# Where the parts of a schema come from

Reading goes down a raw value along the keywords under which schemas stand, and it reads a mapping
wherever it comes to one (`Value.HasSchema`).  Whatever comes of it was found in such a mapping: the
pointers, listed values and property keys of the schema that is read (`Schema.StandsIn`), and the
flaw for which nothing can be read (`Value.HasFlaw`).
-/

namespace OpenApi

/-- A schema stands somewhere within another. -/
inductive Schema.Within : Schema → Schema → Prop
  | self (schema : Schema) : Within schema schema
  | branch {part branch : Schema} {branches : List Schema} {traits : Traits} {kind : Composition}
      (member : branch ∈ branches) (within : Within part branch) :
      Within part (.composition traits kind branches)
  | items {part items : Schema} {traits : Traits} (within : Within part items) :
      Within part (.array traits (some items))
  | property {part property : Schema} {key : Scalar} {properties : List (Scalar × Schema)}
      {traits : Traits} {required : List Scalar} {additional : Additional Schema}
      (member : (key, property) ∈ properties) (within : Within part property) :
      Within part (.object traits (some properties) required additional)
  | content {part content : Schema} {traits : Traits}
      {properties : Option (List (Scalar × Schema))} {required : List Scalar}
      (within : Within part content) :
      Within part (.object traits properties required (.values content))

/-- A mapping stands in a value where a schema is looked for: at the top, or below it under the
keywords for branches, items, properties and further properties. -/
inductive Value.HasSchema (entries : Mapping) : Value → Prop
  | self : HasSchema entries (.map entries)
  | branch {around : Mapping} {kind : Composition} {branches : List Value} {branch : Value}
      (found : around.find? kind.keyword = some (.list branches)) (member : branch ∈ branches)
      (below : HasSchema entries branch) : HasSchema entries (.map around)
  | items {around inner : Mapping} (found : around.find? "items" = some (.map inner))
      (below : HasSchema entries (.map inner)) : HasSchema entries (.map around)
  | property {around inner : Mapping} {property : Scalar × Value}
      (found : around.find? "properties" = some (.map inner)) (member : property ∈ inner)
      (below : HasSchema entries property.2) : HasSchema entries (.map around)
  | content {around inner : Mapping}
      (found : around.find? "additionalProperties" = some (.map inner))
      (below : HasSchema entries (.map inner)) : HasSchema entries (.map around)

/-- Why a mapping cannot be read as a schema. -/
inductive Mapping.Unreadable (entries : Mapping) : Fault → Prop
  | properties {value : Value} (found : entries.find? "properties" = some value)
      (other : value.isMap = false) (something : value.isSomething) :
      Unreadable entries .propertiesNotMapping
  | required {members : List Value} {member : Value}
      (found : entries.find? "required" = some (.list members)) (held : member ∈ members)
      (other : ∀ name, member ≠ .scalar name) : Unreadable entries .requiredNotScalar

/-- A mapping that cannot be read stands in a value where a schema is looked for. -/
def Value.HasFlaw (value : Value) (fault : Fault) : Prop :=
  ∃ entries, value.HasSchema entries ∧ entries.Unreadable fault

namespace Schema

/-- A part within a part is within the whole. -/
theorem Within.trans {part middle whole : Schema} (inner : part.Within middle)
    (outer : middle.Within whole) : part.Within whole := by
  induction outer with
  | self => exact inner
  | branch member within ih => exact .branch member ih
  | items within ih => exact .items ih
  | property member within ih => exact .property member ih
  | content within ih => exact .content ih

/-- No item is larger than all items together. -/
theorem size_le_of_mem {items : List Value} {item : Value} (member : item ∈ items) :
    item.size ≤ Value.sizeItems items := by
  induction items with
  | nil => exact absurd member List.not_mem_nil
  | cons first rest ih =>
      rw [Value.sizeItems]
      rcases List.mem_cons.mp member with rfl | later
      · exact Nat.le_add_right _ _
      · exact Nat.le_trans (ih later) (Nat.le_add_left _ _)

/-- No value is larger than all entries together. -/
theorem size_le_of_mem_entries {entries : Mapping} {entry : Scalar × Value}
    (member : entry ∈ entries) : entry.2.size ≤ Value.sizeEntries entries := by
  induction entries with
  | nil => exact absurd member List.not_mem_nil
  | cons first rest ih =>
      rw [Value.sizeEntries]
      rcases List.mem_cons.mp member with rfl | later
      · exact Nat.le_add_right _ _
      · exact Nat.le_trans (ih later) (Nat.le_add_left _ _)

/-! ## What a schema shows -/

/-- The pointer, the listed values or the property keys of a schema, its parts left aside, are those
of a mapping. -/
def ShownBy (entries : Mapping) : Schema → Prop
  | .reference _ pointer => entries.find? "$ref" = some (.text pointer)
  | .enumeration _ values =>
    ∃ listed, entries.find? "enum" = some (.list listed) ∧ values ⊆ listed
  | .object _ (some properties) _ _ =>
    ∃ inner, entries.find? "properties" = some (.map inner) ∧
      properties.map Prod.fst = inner.map Prod.fst
  | _ => True

/-- Every part of a schema is shown by a mapping that stands in a value where a schema is looked
for, unless nothing is known about the part. -/
def StandsIn (schema : Schema) (value : Value) : Prop :=
  ∀ part : Schema, part.Within schema →
    part = .unknown {} ∨ ∃ entries, value.HasSchema entries ∧ part.ShownBy entries

namespace StandsIn

variable {schema : Schema} {value around : Value} {entries : Mapping} {traits : Traits}

/-- What stands in a value stands in one that has its schemas. -/
theorem mono (stands : schema.StandsIn value)
    (grows : ∀ entries, value.HasSchema entries → around.HasSchema entries) :
    schema.StandsIn around := by
  intro part within
  rcases stands part within with bare | ⟨entries, has, shown⟩
  · exact .inl bare
  · exact .inr ⟨entries, grows entries has, shown⟩

/-- A schema that has no parts stands where it is shown. -/
theorem of_shown (alone : ∀ part : Schema, part.Within schema → part = schema)
    (shown : schema.ShownBy entries) : schema.StandsIn (.map entries) := by
  intro part within
  rw [alone part within]
  exact .inr ⟨entries, .self, shown⟩

/-- A composition stands where its branches do. -/
theorem composition {kind : Composition} {branches : List Schema}
    (each : ∀ branch ∈ branches, branch.StandsIn (.map entries)) :
    (Schema.composition traits kind branches).StandsIn (.map entries) := by
  intro part within
  cases within with
  | self => exact .inr ⟨entries, .self, trivial⟩
  | branch member below => exact each _ member part below

/-- A list stands where its items do. -/
theorem array {items : Schema} (inner : items.StandsIn (.map entries)) :
    (Schema.array traits (some items)).StandsIn (.map entries) := by
  intro part within
  cases within with
  | self => exact .inr ⟨entries, .self, trivial⟩
  | items below => exact inner part below

/-- An object stands where its properties do and what further ones may hold. -/
theorem object {properties : Option (List (Scalar × Schema))} {required : List Scalar}
    {additional : Additional Schema}
    (shown : (Schema.object traits properties required additional).ShownBy entries)
    (each : ∀ declared, properties = some declared →
      ∀ property ∈ declared, property.2.StandsIn (.map entries))
    (further : ∀ content, additional = .values content → content.StandsIn (.map entries)) :
    (Schema.object traits properties required additional).StandsIn (.map entries) := by
  intro part within
  cases within with
  | self => exact .inr ⟨entries, .self, shown⟩
  | property member below => exact each _ rfl _ member part below
  | content below => exact further _ rfl part below

/-- A composition with an object beside its branches stands where all of these do. -/
theorem withOwn {kind : Composition} {branches : List Schema} {own : Schema}
    (each : ∀ branch ∈ branches, branch.StandsIn (.map entries))
    (apart : own.StandsIn (.map entries)) :
    (withOwn traits kind branches own).StandsIn (.map entries) := by
  have joined (other : Composition) : ∀ branch ∈ [Schema.composition {} other branches, own],
      branch.StandsIn (.map entries) := by
    intro branch member
    rcases List.mem_cons.mp member with rfl | last
    · exact composition each
    · exact List.mem_singleton.mp last ▸ apart
  cases kind with
  | allOf =>
      refine composition fun branch member => ?_
      rcases List.mem_append.mp member with before | last
      · exact each branch before
      · exact List.mem_singleton.mp last ▸ apart
  | oneOf => exact composition (joined .oneOf)
  | anyOf => exact composition (joined .anyOf)

end StandsIn

/-! ## What comes of reading -/

section Lists

variable {holds : Schema → Prop} {faults : Fault → Prop}

/-- Items are read one after the other. -/
theorem endsAs_ofItems {items : List Value}
    (each : ∀ item ∈ items, EndsAs holds faults (ofValue item)) :
    EndsAs (fun schemas => ∀ schema ∈ schemas, holds schema) faults (ofItems items) := by
  induction items with
  | nil =>
      rw [ofItems]
      exact fun schema none => absurd none List.not_mem_nil
  | cons item rest ih =>
      rw [ofItems]
      refine (each item List.mem_cons_self).bind fun schema _ first => ?_
      refine (ih fun other member => each other (List.mem_cons_of_mem _ member)).bind ?_
      exact fun schemas _ others => List.forall_mem_cons.mpr ⟨first, others⟩

/-- The values of entries are read one after the other and keep their keys. -/
theorem endsAs_ofEntries {entries : Mapping}
    (each : ∀ entry ∈ entries, EndsAs holds faults (ofValue entry.2)) :
    EndsAs (fun properties => properties.map Prod.fst = entries.map Prod.fst ∧
      ∀ property ∈ properties, holds property.2) faults (ofEntries entries) := by
  induction entries with
  | nil =>
      rw [ofEntries]
      exact ⟨rfl, fun property none => absurd none List.not_mem_nil⟩
  | cons entry rest ih =>
      obtain ⟨key, item⟩ := entry
      rw [ofEntries]
      refine (each _ List.mem_cons_self).bind fun schema _ first => ?_
      refine (ih fun other member => each other (List.mem_cons_of_mem _ member)).bind ?_
      rintro properties _ ⟨keys, others⟩
      exact ⟨congrArg (key :: ·) keys, List.forall_mem_cons.mpr ⟨first, others⟩⟩

end Lists

/-- Branches that are composed stand under the keyword of their composition. -/
theorem find?_of_composed? {entries : Mapping} {kind : Composition} {branches : List Value}
    (composed : composed? entries = some (kind, branches)) :
    entries.find? kind.keyword = some (.list branches) := by
  obtain ⟨other, _, found⟩ := List.exists_of_findSome?_eq_some composed
  split at found
  · next held =>
      cases found
      exact held
  · cases found

/-- The required names are read, or one of them is a flaw. -/
theorem endsAs_statedRequired (entries : Mapping) :
    EndsAs (fun _ => True) (Value.map entries).HasFlaw (statedRequired entries) := by
  unfold statedRequired
  split
  · next members found =>
      refine EndsAs.bind (EndsAs.mapM fun member held => ?_) fun _ _ _ => trivial
      split
      · trivial
      · next other => exact ⟨entries, .self, .required found held other⟩
  · trivial

/-- Reading a value ends with a schema that stands in some value, or with a flaw of it. -/
def ReadsInto (around value : Value) : Prop :=
  EndsAs (·.StandsIn around) around.HasFlaw (ofValue value)

/-- What is read into a value is read into one that has its schemas. -/
theorem ReadsInto.mono {value middle around : Value} (reads : ReadsInto middle value)
    (grows : ∀ entries, middle.HasSchema entries → around.HasSchema entries) :
    ReadsInto around value := by
  refine EndsAs.imp reads (fun _ stands => stands.mono grows) fun fault flaw => ?_
  obtain ⟨entries, has, shown⟩ := flaw
  exact ⟨entries, grows entries has, shown⟩

section Mappings

variable {entries : Mapping}
  (smaller : ∀ value, value.size ≤ Value.sizeEntries entries → ReadsInto value value)

include smaller

/-- The properties are read with their keys, each from what stands under it, or there is a flaw. -/
theorem endsAs_ofProperties :
    EndsAs (fun properties => ∀ declared, properties = some declared →
        (∃ inner, entries.find? "properties" = some (.map inner) ∧
          declared.map Prod.fst = inner.map Prod.fst) ∧
        ∀ property ∈ declared, property.2.StandsIn (.map entries))
      (Value.map entries).HasFlaw (ofProperties entries) := by
  unfold ofProperties
  split
  · next inner found =>
      have each : ∀ entry ∈ inner, ReadsInto (.map entries) entry.2 := by
        intro entry member
        have bound := Value.size_le_of_find? found
        rw [Value.size] at bound
        have within := size_le_of_mem_entries member
        exact (smaller entry.2 (by omega)).mono fun _ => .property found member
      refine (endsAs_ofEntries each).bind ?_
      rintro properties _ ⟨keys, stand⟩ declared ⟨⟩
      exact ⟨⟨inner, found, keys⟩, stand⟩
  · next value other found =>
      split
      · next something =>
          refine ⟨entries, .self, .properties found ?_ something⟩
          cases value with
          | map inner => exact absurd rfl (other inner)
          | scalar | list => rfl
      · intro _ none
        cases none
  · intro _ none
    cases none

/-- What further properties may hold is read from what stands there, or there is a flaw. -/
theorem endsAs_ofAdditional :
    EndsAs (fun additional => ∀ content, additional = .values content →
      content.StandsIn (.map entries)) (Value.map entries).HasFlaw (ofAdditional entries) := by
  unfold ofAdditional
  split
  · next inner found =>
      have reads : ReadsInto (.map entries) (.map inner) :=
        (smaller _ (Value.size_le_of_find? found)).mono fun _ => .content found
      refine reads.bind fun schema _ stands => ?_
      rintro _ ⟨⟩
      exact stands
  · intro _ none
    cases none
  · intro _ none
    cases none

/-- An object is read from the mapping, or there is a flaw in that. -/
theorem endsAs_ofObject (traits : Traits) :
    EndsAs (·.StandsIn (.map entries)) (Value.map entries).HasFlaw (ofObject traits entries) := by
  rw [ofObject]
  refine (endsAs_ofAdditional smaller).bind fun additional _ further => ?_
  refine (endsAs_ofProperties smaller).bind fun properties _ declared => ?_
  refine (endsAs_statedRequired entries).bind fun required _ _ => ?_
  refine StandsIn.object ?_ (fun own same => (declared own same).2) further
  cases properties with
  | none => trivial
  | some own => exact (declared own rfl).1

/-- A mapping is read from smaller values, and what it shows itself stands under its keywords. -/
theorem readsInto_map : ReadsInto (.map entries) (.map entries) := by
  unfold ReadsInto
  rw [ofValue]
  split
  · next pointer found => exact .of_shown (by rintro part ⟨⟩; rfl) found
  · split
    · next listed found =>
        refine .of_shown (by rintro part ⟨⟩; rfl) ⟨listed, found, ?_⟩
        exact fun value kept => (List.mem_filter.mp kept).1
    · split
      · next kind branches composed =>
          have found := find?_of_composed? composed
          have fits := sizeItems_lt_of_composed? composed
          have each : ∀ branch ∈ branches, ReadsInto (.map entries) branch := by
            intro branch member
            have bound := size_le_of_mem member
            exact (smaller branch (by omega)).mono fun _ => .branch found member
          refine (endsAs_ofItems each).bind fun parts _ stand => ?_
          split
          · refine (endsAs_ofObject smaller {}).bind fun own _ apart => ?_
            exact .withOwn stand apart
          · exact .composition stand
      · dsimp only
        split
        · exact .of_shown (by rintro part ⟨⟩; rfl) trivial
        · split
          · split
            · next inner found =>
                have reads : ReadsInto (.map entries) (.map inner) :=
                  (smaller _ (Value.size_le_of_find? found)).mono fun _ => .items found
                exact reads.bind fun items _ stands => .array stands
            · exact .of_shown (by rintro part ⟨⟩; rfl) trivial
          · split
            · exact endsAs_ofObject smaller _
            · exact .of_shown (by rintro part ⟨⟩; rfl) trivial

end Mappings

/-- **Reading goes by the value.** A value is read as a schema whose pointers, listed values and
property keys all stand in mappings of the value where schemas are looked for; and if it is not
read, one of these mappings cannot be. -/
theorem readsInto (value : Value) : ReadsInto value value := by
  induction sized : value.size using Nat.strongRecOn generalizing value with
  | ind size ih =>
      have nothing (other : ∀ entries, value ≠ .map entries) : ReadsInto value value := by
        unfold ReadsInto
        rw [ofValue]
        · rintro part ⟨⟩
          exact .inl rfl
        · exact other
      cases value with
      | map entries =>
          refine readsInto_map fun other fits => ih other.size ?_ other rfl
          rw [← sized, Value.size]
          exact Nat.lt_succ_of_le fits
      | scalar | list =>
          refine nothing fun entries same => ?_
          cases same

end Schema

end OpenApi
