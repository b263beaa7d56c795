import OpenApi.Proofs.Mapping
import OpenApi.Proofs.Traced
import OpenApi.Schema.Reader

/-!
# Reading by cases

What a raw schema is read as in the cases of a pointer, of branches and of an object, from what is
found under the keywords.
-/

namespace OpenApi.Schema

variable {entries : Mapping}

/-- A text under `$ref` makes a schema a pointer. -/
theorem ofValue_of_pointer {pointer : String}
    (found : entries.find? "$ref" = some (.text pointer)) :
    ofValue (.map entries) = .ok (.reference ⟨statedDescription entries, false⟩ pointer) := by
  rw [ofValue, found]

/-- Branches without an object next to them make a schema a composition. -/
theorem ofValue_of_branches {kind : Composition} {items : List Value} {branches : List Schema}
    (noPointer : entries.find? "$ref" = none) (noValues : entries.find? "enum" = none)
    (composed : composed? entries = some (kind, items)) (alone : hasObjectKeyword entries = false)
    (read : ofItems items = .ok branches) :
    ofValue (.map entries) =
      .ok (.composition ⟨statedDescription entries, statedNullable entries⟩ kind branches) := by
  rw [ofValue, noPointer, noValues]
  dsimp only
  split
  · next other found same =>
      obtain ⟨rfl, rfl⟩ := Prod.mk.inj (Option.some.inj (composed.symm.trans same))
      rw [read, alone]
      rfl
  · next same => cases composed.symm.trans same

/-- Branches with an object next to them make a schema a composition on top of which the object
applies. -/
theorem ofValue_of_siblings {kind : Composition} {items : List Value} {branches : List Schema}
    {own : Schema} (noPointer : entries.find? "$ref" = none)
    (noValues : entries.find? "enum" = none) (composed : composed? entries = some (kind, items))
    (beside : hasObjectKeyword entries) (read : ofItems items = .ok branches)
    (readOwn : ofObject {} entries = .ok own) :
    ofValue (.map entries) =
      .ok (withOwn ⟨statedDescription entries, statedNullable entries⟩ kind branches own) := by
  rw [ofValue, noPointer, noValues]
  dsimp only
  split
  · next other found same =>
      obtain ⟨rfl, rfl⟩ := Prod.mk.inj (Option.some.inj (composed.symm.trans same))
      rw [read, beside, readOwn]
      rfl
  · next same => cases composed.symm.trans same

/-- An object keyword makes a schema an object if nothing else decides. -/
theorem ofValue_of_keyword (noPointer : entries.find? "$ref" = none)
    (noValues : entries.find? "enum" = none) (noBranches : composed? entries = none)
    (noType : statedType entries = none) (keyword : hasObjectKeyword entries) :
    ofValue (.map entries) =
      ofObject ⟨statedDescription entries, statedNullable entries⟩ entries := by
  rw [ofValue, noPointer, noValues]
  dsimp only
  split
  · next same => cases noBranches.symm.trans same
  · simp [noType, keyword]

theorem ofAdditional_of_unstated (noContent : entries.find? "additionalProperties" = none) :
    ofAdditional entries = .ok .unstated := by
  unfold ofAdditional
  rw [noContent]

theorem ofProperties_of_undeclared (noProperties : entries.find? "properties" = none) :
    ofProperties entries = .ok none := by
  unfold ofProperties
  split
  · next same => cases noProperties.symm.trans same
  · next same => cases noProperties.symm.trans same
  · rfl

/-- An object with nothing but properties. -/
theorem ofObject_of_properties {traits : Traits} {inner : Mapping}
    {properties : List (Scalar × Schema)} (found : entries.find? "properties" = some (.map inner))
    (noContent : entries.find? "additionalProperties" = none)
    (noRequired : entries.find? "required" = none) (read : ofEntries inner = .ok properties) :
    ofObject traits entries = .ok (.object traits (some properties) [] .unstated) := by
  have declared : ofProperties entries = .ok (some properties) := by
    unfold ofProperties
    split
    · next other same =>
        obtain rfl := Value.map.inj (Option.some.inj (found.symm.trans same))
        rw [read]
        rfl
    · next other same => exact absurd (Option.some.inj (found.symm.trans same)).symm (by simp_all)
    · next same => cases found.symm.trans same
  rw [ofObject, ofAdditional_of_unstated noContent, declared, statedRequired, noRequired]
  rfl

/-- An object with nothing but required names. -/
theorem ofObject_of_required {traits : Traits} {required : List Scalar}
    (noProperties : entries.find? "properties" = none)
    (noContent : entries.find? "additionalProperties" = none)
    (read : statedRequired entries = .ok required) :
    ofObject traits entries = .ok (.object traits none required .unstated) := by
  rw [ofObject, ofAdditional_of_unstated noContent, ofProperties_of_undeclared noProperties, read]
  rfl

/-- Without further properties an object is as readable as its properties. -/
theorem ofObject_of_other {traits : Traits} {value : Value}
    (found : entries.find? "properties" = some value) (other : value.isMap = false)
    (something : value.isSomething) (noContent : entries.find? "additionalProperties" = none) :
    ofObject traits entries = .error .propertiesNotMapping := by
  have declared : ofProperties entries = .error .propertiesNotMapping := by
    unfold ofProperties
    split
    · next inner same =>
        obtain rfl := Option.some.inj (found.symm.trans same)
        cases other
    · next same =>
        obtain rfl := Option.some.inj (found.symm.trans same)
        rw [if_pos something]
    · next same => cases found.symm.trans same
  rw [ofObject, ofAdditional_of_unstated noContent, declared]
  rfl

/-- A schema with nothing but properties is an object. -/
theorem ofValue_of_properties {inner : Mapping} {properties : List (Scalar × Schema)}
    (read : ofEntries inner = .ok properties) :
    ofValue (.map [(.text "properties", .map inner)]) =
      .ok (.object {} (some properties) [] .unstated) := by
  rw [ofValue_of_keyword (by simp) (by simp) (by simp [composed?, Composition.keyword])
    (by simp [statedType]) (by simp [hasObjectKeyword, objectKeywords, Mapping.has])]
  exact ofObject_of_properties (by simp) (by simp) (by simp) read

/-- A mapping without entries says nothing. -/
theorem ofValue_nil : ofValue (.map []) = .ok (.unknown {}) := by
  rw [ofValue]
  simp [composed?, List.findSome?, statedType, statedDescription, statedNullable,
    hasObjectKeyword, Mapping.has]

/-- A property about which nothing is said makes a schema an object with that property. -/
theorem ofValue_of_property (key : String) :
    ofValue (.map [(.text "properties", .map [(.text key, .map [])])]) =
      .ok (.object {} (some [(.text key, .unknown {})]) [] .unstated) := by
  apply ofValue_of_properties
  simp [ofEntries, ofValue_nil, bind, Except.bind, pure, Except.pure]

end OpenApi.Schema
