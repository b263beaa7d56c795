import OpenApi.Proofs.Compile.Composition

/-!
# Parts of compiled schemas

The schemas that are compiled along with a schema are parts of it or, where fields were copied,
parts of schemas of the map.
-/

namespace OpenApi

namespace Schema

/-- A schema stands within a given one or within a schema of the map. -/
def PartOf (part : Schema) (schemas : Mapping) (root : Schema) : Prop :=
  part.Within root ∨ ∃ name schema, Named schemas name schema ∧ part.Within schema

variable {schemas : Mapping} {root part whole : Schema}

/-- What is within a part is a part. -/
theorem PartOf.within (outer : whole.PartOf schemas root) (inner : part.Within whole) :
    part.PartOf schemas root := by
  rcases outer with direct | ⟨name, schema, named, held⟩
  · exact .inl (inner.trans direct)
  · exact .inr ⟨name, schema, named, inner.trans held⟩

/-- A schema under a name is a part. -/
theorem PartOf.of_named {name : String} (named : Named schemas name whole) :
    whole.PartOf schemas root :=
  .inr ⟨name, whole, named, .self whole⟩

/-- The branches of a composition; any other schema counts as its only branch. -/
def operands : Schema → List Schema
  | composition _ _ branches => branches
  | other => [other]

/-- What a part is made of are parts. -/
theorem PartOf.operands (outer : whole.PartOf schemas root) :
    ∀ operand ∈ whole.operands, operand.PartOf schemas root := by
  intro operand member
  cases whole with
  | composition traits kind branches => exact outer.within (.branch member (.self operand))
  | reference | enumeration | primitive | array | object | unknown =>
      exact List.mem_singleton.mp member ▸ outer

/-- What a part is composed of are parts. -/
theorem PartOf.of_composes (outer : whole.PartOf schemas root)
    (composes : Composes schemas whole part) : part.PartOf schemas root := by
  induction composes with
  | self => exact outer
  | branch member below ih => exact ih (outer.within (.branch member (.self _)))
  | base pointed found named below ih => exact ih (.of_named named)

end Schema

/-- Every pointer in a schema of the map leads to a schema of the map. -/
def Resolves (schemas : Mapping) : Prop :=
  ∀ name schema, Named schemas name schema → schema.PointersIn schemas.names

/-- A map resolves if all references that are found in its values do. -/
theorem resolves_of_references {schemas : Mapping}
    (closed : ∀ entry ∈ schemas, Reference.ofValue entry.2 ⊆ schemas.names) : Resolves schemas := by
  rintro name schema ⟨raw, held, read⟩
  exact (Schema.readsFaithfully raw schema read).mono (closed _ (Mapping.mem_of_lookup held))

/-- The pointers of parts lead to schemas of the map. -/
theorem Resolves.has {schemas : Mapping} {root : Schema} {traits : Traits} {pointer name : String}
    (resolves : Resolves schemas) (pointers : root.PointersIn schemas.names)
    (part : (Schema.reference traits pointer).PartOf schemas root)
    (pointed : Reference.schemaName? pointer = some name) : schemas.has name := by
  rw [Mapping.has_iff_mem_names]
  rcases part with direct | ⟨holder, schema, named, within⟩
  · exact pointers traits pointer name direct pointed
  · exact resolves holder schema named traits pointer name within pointed

/-! ## What holds of flattened records -/

/-- What holds of the bases, of the keys and of the schemas that a flattened record consists of. -/
structure FlatRecord.All (base : String → Prop) (key : Scalar → Prop) (part : Schema → Prop)
    (flat : FlatRecord) : Prop where
  bases : ∀ name ∈ flat.bases, base name
  keys : ∀ held ∈ flat.properties.map Prod.fst, key held
  properties : ∀ property ∈ flat.properties, part property.2
  extras : ∀ extra ∈ flat.extras, part extra
  additional : ∀ content, flat.additional = .values content → part content

namespace FlatRecord.All

variable {flat inner : FlatRecord} {base base' : String → Prop} {key key' : Scalar → Prop}
  {part part' : Schema → Prop}

/-- Everything holds of an empty record. -/
theorem empty : FlatRecord.All base key part {} where
  bases _ none := absurd none List.not_mem_nil
  keys _ none := absurd none List.not_mem_nil
  properties _ none := absurd none List.not_mem_nil
  extras _ none := absurd none List.not_mem_nil
  additional _ none := nomatch none

/-- What holds of properties and of what further ones may hold, holds of the record of an object. -/
theorem ofObject {properties : Option (List (Scalar × Schema))} (required : List Scalar)
    {additional : Additional Schema}
    (each : ∀ declared, properties = some declared →
      ∀ property ∈ declared, key property.1 ∧ part property.2)
    (further : ∀ content, additional = .values content → part content) :
    (FlatRecord.ofObject properties required additional).All base key part where
  bases _ none := absurd none List.not_mem_nil
  keys held member := by
    cases properties with
    | none => cases member
    | some declared =>
        obtain ⟨property, within, rfl⟩ := List.mem_map.mp member
        exact (each declared rfl property within).1
  properties property member := by
    cases properties with
    | none => cases member
    | some declared => exact (each declared rfl property member).2
  extras _ none := absurd none List.not_mem_nil
  additional := further

/-- What holds of a record may be weakened. -/
theorem imp (all : flat.All base key part) (bases : ∀ name, base name → base' name)
    (keys : ∀ held, key held → key' held) (parts : ∀ schema, part schema → part' schema) :
    flat.All base' key' part' where
  bases name member := bases name (all.bases name member)
  keys held member := keys held (all.keys held member)
  properties property member := parts _ (all.properties property member)
  extras extra member := parts extra (all.extras extra member)
  additional content stated := parts content (all.additional content stated)

/-- A base may be added of which it holds. -/
theorem withBase {name : String} (all : flat.All base key part) (holds : base name) :
    (flat.withBase name).All base key part where
  bases other member := by
    rcases mem_bases_withBase.mp member with before | rfl
    · exact all.bases other before
    · exact holds
  keys := by rw [properties_withBase]; exact all.keys
  properties := by rw [properties_withBase]; exact all.properties
  extras := by
    unfold FlatRecord.withBase
    split <;> exact all.extras
  additional := by
    unfold FlatRecord.withBase
    split <;> exact all.additional

/-- A part may be added of which it holds. -/
theorem withExtra {extra : Schema} (all : flat.All base key part) (holds : part extra) :
    (flat.withExtra extra).All base key part where
  bases := all.bases
  keys := all.keys
  properties := all.properties
  extras other member := by
    rcases List.mem_append.mp member with before | last
    · exact all.extras other before
    · exact List.mem_singleton.mp last ▸ holds
  additional := all.additional

/-- A record may be taken in of which it holds. -/
theorem absorb (all : flat.All base key part) (more : inner.All base key part) :
    (flat.absorb inner).All base key part where
  bases name member := (mem_bases_absorb.mp member).elim (all.bases name) (more.bases name)
  keys held member := (Keyed.mem_keys_putAll member).elim (all.keys held) (more.keys held)
  properties property member := by
    obtain ⟨source, either, same⟩ := Keyed.exists_mem_of_mem_putAll member
    exact same ▸ either.elim (all.properties source) (more.properties source)
  extras extra member := (List.mem_append.mp member).elim (all.extras extra) (more.extras extra)
  additional content stated := by
    unfold FlatRecord.absorb at stated
    dsimp only at stated
    split at stated
    · exact all.additional content stated
    · exact more.additional content stated

end FlatRecord.All

/-- All schemas of a flattened record are parts of a given schema or of the map. -/
abbrev FlatRecord.PartsOf (schemas : Mapping) (root : Schema) (flat : FlatRecord) : Prop :=
  flat.All (fun _ => True) (fun _ => True) (·.PartOf schemas root)

variable {scope : Scope} {root : Schema}

/-- Flattening takes the schemas that it collects from the schema and from the map, and the bases
that are left are found behind pointers among these. -/
theorem Flattens.all {nominal : Bool} {copying : List String} {schema : Schema}
    {flat : FlatRecord} {base : String → Prop}
    (pointed : ∀ branch, branch.PartOf scope.schemas root →
      ∀ name, scope.Points nominal branch name → base name)
    (flattens : Flattens scope nominal copying schema flat)
    (parts : ∀ operand ∈ schema.operands, operand.PartOf scope.schemas root) :
    flat.All base (fun _ => True) (·.PartOf scope.schemas root) := by
  induction flattens with
  | @object _ traits properties required additional =>
      have whole := parts _ (List.mem_singleton.mpr rfl)
      refine .ofObject required ?_ ?_
      · rintro declared rfl property member
        exact ⟨trivial, whole.within (.property member (.self _))⟩
      · rintro content rfl
        exact whole.within (.content (.self content))
  | @lone _ schema plain apart =>
      refine FlatRecord.All.empty.withExtra ?_
      cases schema with
      | composition traits kind branches => exact absurd rfl (plain traits kind branches)
      | reference | enumeration | primitive | array | object | unknown =>
          exact parts _ (List.mem_singleton.mpr rfl)
  | start => exact .empty
  | extra before apart ih =>
      exact (ih fun operand member => parts operand (List.mem_append_left _ member)).withExtra
        (parts _ (List.mem_append_right _ List.mem_cons_self))
  | inherit before points defined ih =>
      exact (ih fun operand member => parts operand (List.mem_append_left _ member)).withBase
        (pointed _ (parts _ (List.mem_append_right _ List.mem_cons_self)) _ points)
  | skip before points later underway ih =>
      exact ih fun operand member => parts operand (List.mem_append_left _ member)
  | copy before points later fresh held read copied ih ihCopied =>
      have copiedParts := ihCopied (Schema.PartOf.of_named ⟨_, held, read⟩).operands
      exact (ih fun operand member => parts operand (List.mem_append_left _ member)).absorb
        copiedParts
  | join before joined below ih ihBelow =>
      have last := parts _ (List.mem_append_right _ List.mem_cons_self)
      exact (ih fun operand member => parts operand (List.mem_append_left _ member)).absorb
        (ihBelow last.operands)

/-- A flattened record is made of parts. -/
theorem Flattens.partsOf {nominal : Bool} {copying : List String} {schema : Schema}
    {flat : FlatRecord} (flattens : Flattens scope nominal copying schema flat)
    (parts : ∀ operand ∈ schema.operands, operand.PartOf scope.schemas root) :
    flat.PartsOf scope.schemas root :=
  flattens.all (fun _ _ _ _ => trivial) parts

end OpenApi
