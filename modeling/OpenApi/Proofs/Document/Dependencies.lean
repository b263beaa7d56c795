import OpenApi.Proofs.Compile.Referring
import OpenApi.Proofs.Document.Order
import OpenApi.Proofs.Document.Resolution
import OpenApi.Proofs.Reference

/-!
# Nothing that is read is missed

Selecting and ordering schemas goes by what is found when raw values are scanned, and compiling goes
by what the values are read as.  Scanning finds every pointer of the schema that is read, so that it
is an arrow of the graphs along which schemas are selected and ordered, and a compiled type refers
to nothing that scanning its schema, or the schemas around it, would not find.
-/

namespace OpenApi.Document

/-- A pointer of a schema that is read is found by a scan. -/
theorem mem_scan_of_within {value : Value} {schema : Schema} {traits : Traits}
    {pointer name : String} (read : Schema.ofValue value = .ok schema)
    (within : (Schema.reference traits pointer).Within schema)
    (pointed : Reference.schemaName? pointer = some name) : name ∈ Reference.scan ∅ value :=
  Reference.mem_scan.mpr
    (.inr (Schema.readsFaithfully value schema read traits pointer name within pointed))

/-- A scan of a schema finds the arrows that lead from it to schemas of the map. -/
theorem refers_of_mem_scan {schemas : Mapping} {key name : String} {value : Value}
    (held : schemas.find? key = some value) (present : schemas.has name)
    (found : name ∈ Reference.scan ∅ value) :
    Refers schemas key name ∧ (name ≠ key → DependsOn schemas (.text key) (.text name)) := by
  have refers : name ∈ Reference.ofValue value :=
    (Reference.mem_scan.mp found).resolve_left (NameSet.not_mem_empty name)
  refine ⟨⟨value, held, refers, present⟩, fun other => ?_⟩
  exact ⟨value, name, held, refers, present, rfl, fun same => other (Scalar.text.inj same)⟩

/-- What is pointed to around a schema is found by scanning its value or a value of the map. -/
theorem exists_mem_scan_of_cited {schemas : Mapping} {value : Value} {schema : Schema}
    {name : String}
    (read : Schema.ofValue value = .ok schema) (cited : Cited schemas schema name) :
    ∃ source ∈ value :: schemas.map (·.2), name ∈ Reference.scan ∅ source := by
  obtain ⟨traits, pointer, own | ⟨holder, whole, ⟨raw, held, readRaw⟩, within⟩, pointed⟩ := cited
  · exact ⟨value, List.mem_cons_self, mem_scan_of_within read own pointed⟩
  · have listed : raw ∈ schemas.map (·.2) := List.mem_map_of_mem (Mapping.mem_of_lookup held)
    exact ⟨raw, List.mem_cons_of_mem _ listed, mem_scan_of_within readRaw within pointed⟩

/-- **Scanning covers reading.** Every name in a pointer that stands anywhere in a schema is found
by scanning the value that the schema was read from.  If the value and the name belong to a map of
schemas, there is an arrow between them along which schemas are selected and, unless it leads back
to the same schema, ordered.  Every name that a compiled type, or a definition that comes along with
it, refers to is found by scanning the value or a value of the map, or a schema is emitted under it
whose own name is found so. -/
theorem scan_covers_reading {value : Value} {schema : Schema}
    (read : Schema.ofValue value = .ok schema) :
    (∀ traits pointer name, (Schema.reference traits pointer).Within schema →
      Reference.schemaName? pointer = some name →
        name ∈ Reference.scan ∅ value ∧
          ∀ schemas key, Mapping.find? schemas key = some value → schemas.has name →
            Refers schemas key name ∧
              (name ≠ key → DependsOn schemas (.text key) (.text name))) ∧
    ∀ (target : Target) name scope compiled,
      (target.dialect.compile name schema scope).Yields compiled →
        ∀ type ∈ compiled.type :: compiled.auxiliary.map (·.type), ∀ reference ∈ type.references,
          ∃ mentioned, (mentioned = reference ∨ scope.emittedName mentioned = reference) ∧
            ∃ source ∈ value :: scope.schemas.map (·.2), mentioned ∈ Reference.scan ∅ source := by
  constructor
  · intro traits pointer name within pointed
    have found := mem_scan_of_within read within pointed
    exact ⟨found, fun schemas key held present => refers_of_mem_scan held present found⟩
  · intro target name scope compiled run type origin reference member
    have refers := Dialect.refersOnly_compile run
    have allowed : target.dialect.Refers scope schema reference := by
      rcases List.mem_cons.mp origin with rfl | brought
      · exact refers.type reference member
      · obtain ⟨definition, held, rfl⟩ := List.mem_map.mp brought
        exact refers.auxiliary definition held reference member
    rcases allowed with cited | ⟨base, builds, emitted⟩
    · exact ⟨reference, .inl rfl, exists_mem_scan_of_cited read cited⟩
    · exact ⟨base, .inr emitted, exists_mem_scan_of_cited read builds.cited⟩

/-- Either of two schemas, with a property next to them that is called like the keyword of
pointers. -/
def withSibling : Value :=
  .map [(.text "oneOf", .list [pointerTo "Cat", pointerTo "Dog"]),
    (.text "properties", .map [(.text "$ref", pointerTo "Owner")])]

/-- What it is read as: the property applies on top of either schema. -/
def siblingRead : Schema :=
  .composition {} .allOf
    [.composition {} .oneOf
      [.reference {} (Reference.schemaRoot ++ "Cat"),
        .reference {} (Reference.schemaRoot ++ "Dog")],
      .object {} (some [(.text "$ref", .reference {} (Reference.schemaRoot ++ "Owner"))]) []
        .unstated]

theorem ofValue_withSibling : Schema.ofValue withSibling = .ok siblingRead := by
  have pointer (name : String) :
      Schema.ofValue (pointerTo name) = .ok (.reference {} (Reference.schemaRoot ++ name)) :=
    Schema.ofValue_of_pointer (by simp)
  have branches : Schema.ofItems [pointerTo "Cat", pointerTo "Dog"] =
      .ok [.reference {} (Reference.schemaRoot ++ "Cat"),
        .reference {} (Reference.schemaRoot ++ "Dog")] := by
    simp [Schema.ofItems, pointer, bind, Except.bind, pure, Except.pure]
  have properties : Schema.ofEntries [(.text "$ref", pointerTo "Owner")] =
      .ok [(.text "$ref", .reference {} (Reference.schemaRoot ++ "Owner"))] := by
    simp [Schema.ofEntries, pointer, bind, Except.bind, pure, Except.pure]
  have joined : Schema.ofValue withSibling = .ok (Schema.withOwn {} .oneOf _ _) :=
    Schema.ofValue_of_siblings (by simp) (by simp)
      (by simp [Schema.composed?, Composition.keyword])
      (by simp [Schema.hasObjectKeyword, Schema.objectKeywords, Mapping.has]) branches
      (Schema.ofObject_of_properties (by simp) (by simp) (by simp) properties)
  exact joined

/-- A map that holds the schema and one of those that it points to. -/
def siblings : Mapping := [(.text "Pet", withSibling), (.text "Owner", .map [])]

/-- The pointer within the property is found, and the schema depends on what it names. -/
theorem scan_covers_reading_withSibling :
    Schema.ofValue withSibling = .ok siblingRead ∧
      (Schema.reference {} (Reference.schemaRoot ++ "Owner")).Within siblingRead ∧
      "Owner" ∈ Reference.scan ∅ withSibling ∧ Refers siblings "Pet" "Owner" ∧
      DependsOn siblings (.text "Pet") (.text "Owner") := by
  have within : (Schema.reference {} (Reference.schemaRoot ++ "Owner")).Within siblingRead :=
    .branch (List.mem_cons_of_mem _ List.mem_cons_self)
      (.property List.mem_cons_self (.self _))
  obtain ⟨found, arrows⟩ := (scan_covers_reading ofValue_withSibling).1 _ _ "Owner" within (by cbv)
  obtain ⟨refers, depends⟩ :=
    arrows siblings "Pet" (by simp [siblings]) (by simp [siblings, Mapping.has])
  exact ⟨ofValue_withSibling, within, found, refers, depends (by decide)⟩

end OpenApi.Document
