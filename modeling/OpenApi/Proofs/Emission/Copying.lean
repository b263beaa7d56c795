import OpenApi.Proofs.Compile.Aliases
import OpenApi.Proofs.Compile.Branches
import OpenApi.Proofs.Document.Selection
import OpenApi.Proofs.Emission.Inheritance

/-!
# When fields are copied

A record that is composed of another one inherits from it, or copies its fields if it is emitted
later.  Dependencies are emitted first, so nothing is copied from beyond the cycles of a schema: if
a pointer of a record does not lead back to it, the record behind the pointer is inherited.  What
counts is where the pointer leads and not where the record behind it does, because the walk that
orders the schemas may come to an alias on a cycle before it comes to the record behind the alias.
-/

namespace OpenApi

open Relation

/-! ## Where references lead -/

namespace Document

variable {schemas : Mapping}

/-- A pointer anywhere in a schema of the map refers to the schema that it names. -/
theorem refers_of_within {name target pointer : String} {schema : Schema} {traits : Traits}
    (named : Named schemas name schema) (within : (Schema.reference traits pointer).Within schema)
    (pointed : Reference.schemaName? pointer = some target) (present : schemas.has target) :
    Refers schemas name target := by
  obtain ⟨raw, held, read⟩ := named
  exact ⟨raw, held, Schema.readsFaithfully raw schema read traits pointer target within pointed,
    present⟩

/-- An alias leads to the record behind it. -/
theorem leads_of_behind {name base : String} (behind : Behind schemas base name) :
    ReflTransGen (Refers schemas) name base := by
  induction behind with
  | record named isRecord => exact .refl
  | @along name next schema named isAlias behind ih =>
      obtain ⟨traits, pointer, wrapped, pointed⟩ := Schema.aliasOf?_eq_some_iff.mp isAlias
      exact .head (refers_of_within named wrapped.within pointed behind.has) ih

/-- Texts depend on each other as the schemas under them refer to each other. -/
theorem dependsOn_iff_refers {source target : String} :
    DependsOn schemas (.text source) (.text target) ↔
      Refers schemas source target ∧ target ≠ source := by
  constructor
  · rintro ⟨raw, name, held, refers, present, ⟨⟩, differ⟩
    exact ⟨⟨raw, held, refers, present⟩, fun same => differ (congrArg Scalar.text same)⟩
  · rintro ⟨⟨raw, held, refers, present⟩, differ⟩
    exact ⟨raw, target, held, refers, present, rfl, fun same => differ (Scalar.text.inj same)⟩

/-- What a name leads to are names. -/
theorem exists_text_of_leads {source : String} {key : Scalar}
    (chain : ReflTransGen (DependsOn schemas) (.text source) key) :
    ∃ name, key = .text name ∧ ReflTransGen (Refers schemas) source name := by
  induction chain with
  | refl => exact ⟨source, rfl, .refl⟩
  | tail before last ih =>
      obtain ⟨name, rfl, leads⟩ := ih
      have ⟨_, next, _, _, _, same, _⟩ := last
      subst same
      exact ⟨next, rfl, leads.tail (dependsOn_iff_refers.mp last).1⟩

/-- Names lead to each other by what is kept in order exactly if they do so by pointers. -/
theorem leads_dependsOn_iff {source target : String} :
    ReflTransGen (DependsOn schemas) (.text source) (.text target) ↔
      ReflTransGen (Refers schemas) source target := by
  constructor
  · intro chain
    obtain ⟨name, same, leads⟩ := exists_text_of_leads chain
    exact Scalar.text.inj same ▸ leads
  · intro chain
    induction chain with
    | refl => exact .refl
    | @tail middle last before refers ih =>
        by_cases same : last = middle
        · exact same ▸ ih
        · exact ih.tail (dependsOn_iff_refers.mpr ⟨refers, same⟩)

end Document

namespace Emission

variable {dialect : Dialect} {schemas : Mapping} {names : List (String × String)}
  {done : List String} {progress : Progress}

open Document

/-! ## What stands before -/

/-- What stands before another item in a list without repetitions is among the items before it. -/
theorem mem_before_of_sublist {α : Type} {first second : α} {before after : List α}
    (nodup : (before ++ second :: after).Nodup)
    (stands : [first, second].Sublist (before ++ second :: after)) : first ∈ before := by
  obtain ⟨front, back, same, member, rest⟩ := List.cons_sublist_iff.mp stands
  have later : second ∈ back := List.singleton_sublist.mp rest
  rcases List.append_eq_append_iff.mp same with ⟨more, rfl, tail⟩ | ⟨more, rfl, tail⟩
  · cases more with
    | nil => simpa using member
    | cons head more =>
        obtain ⟨rfl, rfl⟩ := List.cons.inj tail
        have once := (List.nodup_cons.mp (List.nodup_append.mp nodup).2.1).1
        exact absurd (List.mem_append_right _ later) once
  · exact List.mem_append_left _ member

/-- Where a reference does not lead back, all that it leads to is emitted before the schema. -/
theorem sublist_textNames_order {source first target : String}
    (refers : Refers schemas source first) (chain : ReflTransGen (Refers schemas) first target)
    (onward : ¬ ReflTransGen (Refers schemas) first source) :
    [target, source].Sublist (textNames (order schemas)) := by
  have differ : first ≠ source := by
    rintro rfl
    exact onward .refl
  have stands : [.text target, .text source].Sublist (order schemas) := by
    apply sublist_order_of_dependsOn (dependsOn_iff_refers.mpr ⟨refers, differ⟩)
    · exact leads_dependsOn_iff.mpr chain
    · exact fun back => onward (leads_dependsOn_iff.mp back)
  have texts : textNames [.text target, .text source] = [target, source] := rfl
  rw [← texts]
  exact stands.filterMap _

/-- Every schema of the map is in the order. -/
theorem mem_textNames_order_of_named {name : String} {schema : Schema}
    (named : Named schemas name schema) : name ∈ textNames (order schemas) := by
  rw [mem_textNames_iff, mem_order_iff, ← Mapping.mem_names_iff]
  exact Mapping.has_iff_mem_names.mp named.has

/-- A schema that was emitted counts as emitted. -/
theorem Emits.defined_of_mem (emits : Emits dialect schemas names done progress)
    {emitted name : String} (member : name ∈ done) :
    (surroundings schemas names progress emitted).emittedLater true name = false := by
  have counts := emits.mem_emitted_iff.mpr member
  simp [Scope.emittedLater, surroundings, Scope.around, counts]

/-- A schema that was not emitted is emitted later. -/
theorem Emits.later_of_not_mem (emits : Emits dialect schemas names done progress)
    {emitted name : String} {schema : Schema} (named : Named schemas name schema)
    (missing : name ∉ done) :
    (surroundings schemas names progress emitted).emittedLater true name = true := by
  by_contra defined
  exact missing (emits.mem_of_defined named (Bool.eq_false_iff.mpr defined))

/-- At its turn, a record inherits from the records behind its branches that were emitted before. -/
theorem Emits.exists_base_of_mem (emits : Emits dialect schemas names done progress)
    (nominal : dialect.nominalBases) {emitted target base pointer : String} {schema : Schema}
    {compiled : Compiled} {traits : Traits}
    (compiles : (dialect.compile emitted schema
      (surroundings schemas names progress emitted)).Yields compiled)
    (isRecord : schema.isRecord) (branchOf : (Schema.reference traits pointer).BranchOf schema)
    (pointed : Reference.schemaName? pointer = some target)
    (found : recordBehind? schemas [] target = .ok (some base)) (member : base ∈ done) :
    ∃ other, names.lookup base = some other ∧ other ∈ compiled.type.bases := by
  obtain ⟨flat, records⟩ := (Dialect.compile_yields compiles).2.1 isRecord
  have flattened := records.flattened
  rw [nominal] at flattened
  have points : (surroundings schemas names progress emitted).Points true
      (.reference traits pointer) base := .of_found pointed found
  have inherited : base ∈ flat.bases :=
    (flattens_of_yields flattened).mem_bases_of_branchOf branchOf points
      (emits.defined_of_mem member)
  obtain ⟨record, namedBase, _⟩ := named_of_recordBehind? found
  obtain ⟨definition, _, defines⟩ := emits.exists_defines member namedBase
  refine ⟨definition.name, defines.assigned, ?_⟩
  rw [records.bases, ← emittedName_surroundings defines.assigned]
  exact List.mem_map_of_mem inherited

/-! ## Another name for a record -/

/-- A record, another name for it, and a record that extends it under that name. -/
def transports (transport : Value) : Mapping :=
  [(.text "Transport", transport), (.text "Car", extending "Transport" "doors"),
    (.text "Vehicle", .map [(.text "properties", .map [(.text "wheels", .map [])])])]

/-- A pointer to the record, next to which another one leads back. -/
def circling : Value :=
  .map [(.text "$ref", .text (Reference.schemaRoot ++ "Vehicle")),
    (.text "properties", .map [(.text "latest", pointerTo "Car")])]

/-- The fields of the record that has another name. -/
def wheeled : Schema := .object {} (some [(.text "wheels", .unknown {})]) [] .unstated

/-- The vehicle refers to nothing. -/
theorem not_refers_vehicle {transport : Value} (name : String) :
    ¬ Refers (transports transport) "Vehicle" name := by
  rintro ⟨raw, held, refers, _⟩
  obtain rfl : Value.map [(.text "properties", .map [(.text "wheels", .map [])])] = raw := by
    simpa [transports] using held
  exact absurd refers List.not_mem_nil

/-- The three schemas are emitted under their own names. -/
theorem assigns_transports {transport : Value} :
    (assignNames TypedDict.dialect ∅ ((transports transport).map (·.1))).Yields
      [("Transport", "Transport"), ("Car", "Car"), ("Vehicle", "Vehicle")] := by
  have ofTransport : Identifier.ofName "Transport" = "Transport" := by decide
  have ofCar : Identifier.ofName "Car" = "Car" := by decide
  have ofVehicle : Identifier.ofName "Vehicle" = "Vehicle" := by decide
  simp [assignNames, emittedName, clashes, transports, TypedDict.dialect, TypedDict.fieldsName,
    ofTransport, ofCar, ofVehicle]

/-- The vehicle has a class in every scope. -/
theorem exists_compile_wheeled (scope : Scope) :
    ∃ compiled, (TypedDict.dialect.compile "Vehicle" wheeled scope).Yields compiled := by
  have whole : Flattens scope true [] wheeled
      { properties := [(.text "wheels", .unknown {})] } := .object
  exact ⟨_, Traced.yields_andThen.mpr ⟨_, whole.yields, rfl⟩⟩

section Transports

variable {transport : Value}
  (read : Schema.ofValue transport = .ok (.reference {} (Reference.schemaRoot ++ "Vehicle")))

include read

/-- What the three names are read as. -/
theorem named_transports :
    Named (transports transport) "Transport" (.reference {} (Reference.schemaRoot ++ "Vehicle")) ∧
      Named (transports transport) "Car" (extended "Transport" "doors") ∧
      Named (transports transport) "Vehicle" wheeled :=
  ⟨⟨_, by simp [transports], read⟩,
    ⟨_, by simp [transports], ofValue_extending "Transport" "doors"⟩,
    ⟨_, by simp [transports], Schema.ofValue_of_property "wheels"⟩⟩

/-- Behind the transport stands the vehicle. -/
theorem recordBehind?_transports :
    recordBehind? (transports transport) [] "Transport" = .ok (some "Vehicle") := by
  obtain ⟨namedTransport, _, namedVehicle⟩ := named_transports read
  have pointed : Reference.schemaName? (Reference.schemaRoot ++ "Vehicle") = some "Vehicle" := by
    cbv
  rw [recordBehind?_of_alias namedTransport rfl pointed List.not_mem_nil]
  exact recordBehind?_of_record namedVehicle rfl (by simp)

/-- The car inherits from the vehicle if that is emitted before, and else copies its field. -/
theorem compile_car (scope : Scope) (schemas : scope.schemas = transports transport) :
    ∃ compiled, (TypedDict.dialect.compile "Car" (extended "Transport" "doors") scope).Yields
        compiled ∧ compiled.type.kind = .object ∧
      compiled.type.bases =
        (if scope.emittedLater true "Vehicle" then [] else [scope.emittedName "Vehicle"]) ∧
      compiled.type.fields.map Field.name =
        (if scope.emittedLater true "Vehicle" then ["wheels", "doors"] else ["doors"]) := by
  have pointed :
      Reference.schemaName? (Reference.schemaRoot ++ "Transport") = some "Transport" := by cbv
  have found := recordBehind?_transports read
  rw [← schemas] at found
  have points : scope.Points true (.reference {} (Reference.schemaRoot ++ "Transport")) "Vehicle" :=
    .of_found pointed found
  have start : Flattens scope true [] (.composition {} .allOf []) {} := .start
  have doors : Flattens scope true []
      (.object {} (some [(.text "doors", .unknown {})]) [] .unstated)
      { properties := [(.text "doors", .unknown {})] } := .object
  by_cases later : scope.emittedLater true "Vehicle"
  · obtain ⟨_, _, raw, held, readVehicle⟩ := named_transports read
    rw [← schemas] at held
    have whole := (start.copy points later List.not_mem_nil held readVehicle .object).join rfl doors
    rw [if_pos later, if_pos later]
    exact ⟨_, Traced.yields_andThen.mpr ⟨_, whole.yields, rfl⟩, rfl, rfl, rfl⟩
  · have whole := (start.inherit points (Bool.eq_false_iff.mpr later)).join rfl doors
    rw [if_neg later, if_neg later]
    exact ⟨_, Traced.yields_andThen.mpr ⟨_, whole.yields, rfl⟩, rfl, rfl, rfl⟩

end Transports

/-- A transport that leads back is read as a pointer. -/
theorem ofValue_circling :
    Schema.ofValue circling = .ok (.reference {} (Reference.schemaRoot ++ "Vehicle")) :=
  Schema.ofValue_of_pointer (by simp)

/-- The walk enters the alias first and comes to the car before it comes to the vehicle, so the car
copies the field of the vehicle. -/
theorem yields_circling :
    ∃ built, (definitions TypedDict.dialect (transports circling)).Yields built ∧
      ("Car", .object, [], ["wheels", "doors"]) ∈ built.map outline := by
  let names := [("Transport", "Transport"), ("Car", "Car"), ("Vehicle", "Vehicle")]
  obtain ⟨namedTransport, namedCar, namedVehicle⟩ := named_transports ofValue_circling
  have before : Emits TypedDict.dialect (transports circling) names [] _ := .start
  obtain ⟨car, compilesCar, kind, bases, fields⟩ :=
    compile_car ofValue_circling (surroundings (transports circling) names _ "Car") rfl
  have first := before.next namedCar rfl compilesCar
  obtain ⟨vehicle, compilesVehicle⟩ := exists_compile_wheeled _
  have second := first.next namedVehicle rfl compilesVehicle
  have run := second.next namedTransport rfl rfl
  have order : textNames (order (transports circling)) =
      [] ++ ["Car"] ++ ["Vehicle"] ++ ["Transport"] := by
    have arranged : order (transports circling) =
        [.text "Car", .text "Vehicle", .text "Transport"] := by cbv
    rw [arranged]
    rfl
  rw [← order] at run
  refine ⟨_, run.yields_definitions assigns_transports, ?_⟩
  rw [before.later_of_not_mem namedVehicle List.not_mem_nil] at bases fields
  simp [Progress.after, outline, kind, bases, fields]

/-- Where the alias does not lead back, the vehicle comes first, and the car inherits from it. -/
theorem yields_straight :
    ∃ built, (definitions TypedDict.dialect (transports (pointerTo "Vehicle"))).Yields built ∧
      ("Car", .object, ["Vehicle"], ["doors"]) ∈ built.map outline := by
  let names := [("Transport", "Transport"), ("Car", "Car"), ("Vehicle", "Vehicle")]
  have read := (ofValue_pointerTo "Vehicle")
  obtain ⟨namedTransport, namedCar, namedVehicle⟩ := named_transports read
  have before : Emits TypedDict.dialect (transports (pointerTo "Vehicle")) names [] _ := .start
  obtain ⟨vehicle, compilesVehicle⟩ := exists_compile_wheeled _
  have first := before.next namedVehicle rfl compilesVehicle
  have second := first.next namedTransport rfl rfl
  obtain ⟨car, compilesCar, kind, bases, fields⟩ :=
    compile_car read (surroundings (transports (pointerTo "Vehicle")) names _ "Car") rfl
  have run := second.next namedCar rfl compilesCar
  have order : textNames (order (transports (pointerTo "Vehicle"))) =
      [] ++ ["Vehicle"] ++ ["Transport"] ++ ["Car"] := by
    have arranged : order (transports (pointerTo "Vehicle")) =
        [.text "Vehicle", .text "Transport", .text "Car"] := by cbv
    rw [arranged]
    rfl
  rw [← order] at run
  refine ⟨_, run.yields_definitions assigns_transports, ?_⟩
  rw [second.defined_of_mem (by simp)] at bases fields
  rw [emittedName_surroundings rfl] at bases
  simp [Progress.after, outline, kind, bases, fields]

/-! ## Nothing is copied from beyond cycles -/

/-- **Fields are copied on cycles only.** If a branch in the `allOf` of a class points to a schema
that does not lead back to the class, then the class inherits from the record behind the pointer. -/
theorem inherits_beyond_cycles (schemas : Mapping) (names : List (String × String))
    (built : List Definition)
    (assigns : (assignNames TypedDict.dialect ∅ (schemas.map (·.1))).Yields names)
    (emits : (definitions TypedDict.dialect schemas).Yields built)
    (name : String) (schema : Schema) (named : Named schemas name schema)
    (definition : Definition) (listed : definition ∈ built)
    (assigned : names.lookup name = some definition.name)
    (isClass : definition.type.kind = .object)
    (traits : Traits) (pointer target base : String)
    (branchOf : (Schema.reference traits pointer).BranchOf schema)
    (pointed : Reference.schemaName? pointer = some target)
    (found : recordBehind? schemas [] target = .ok (some base))
    (onward : ¬ ReflTransGen (Refers schemas) target name) :
    ∃ emitted, names.lookup base = some emitted ∧ emitted ∈ definition.type.bases := by
  obtain ⟨others, final, alsoAssigns, run, rfl⟩ :=
    emits_of_definitions TypedDict.tellsNumbersApart emits
  obtain rfl := assigns.unique alsoAssigns
  have nodup := nodup_textNames (nodup_order schemas)
  have distinct := run.distinct nodup fun first second emitted =>
    eq_of_lookup_assigned TypedDict.tellsNumbersApart assigns
  obtain ⟨before, after, earlier, emitted, compiled, same, runBefore, alsoAssigned, compiles,
    own⟩ := run.exists_turn (mem_textNames_order_of_named named) named
  obtain rfl : _ = definition := List.inj_on_of_nodup_map distinct.nodup own listed
    (Option.some.inj (alsoAssigned.symm.trans assigned))
  have isRecord : schema.isRecord := by
    by_contra other
    have plain := (Dialect.compile_yields compiles).2.2 (Bool.eq_false_iff.mpr other) rfl
    cases isClass.symm.trans plain.1
  have behind := behind_of_recordBehind? found
  have refers := refers_of_within named branchOf.within pointed behind.has
  have stands := sublist_textNames_order refers (leads_of_behind behind) onward
  rw [same] at nodup stands
  exact runBefore.exists_base_of_mem rfl compiles isRecord branchOf pointed found
    (mem_before_of_sublist nodup stands)

/-- The car inherits from the vehicle, to which it points by another name. -/
theorem inherits_beyond_cycles_transports :
    ∃ built definition, (definitions TypedDict.dialect (transports (pointerTo "Vehicle"))).Yields
        built ∧ definition ∈ built ∧ outline definition = ("Car", .object, ["Vehicle"], ["doors"]) ∧
      recordBehind? (transports (pointerTo "Vehicle")) [] "Transport" = .ok (some "Vehicle") ∧
      ¬ ReflTransGen (Refers (transports (pointerTo "Vehicle"))) "Transport" "Car" ∧
      ∃ emitted, [("Transport", "Transport"), ("Car", "Car"), ("Vehicle", "Vehicle")].lookup
        "Vehicle" = some emitted ∧ emitted ∈ definition.type.bases := by
  obtain ⟨built, emits, outlined⟩ := yields_straight
  obtain ⟨definition, listed, same⟩ := List.mem_map.mp outlined
  have isCar : definition.name = "Car" := congrArg Prod.fst same
  have isClass : definition.type.kind = .object := congrArg (·.2.1) same
  have found := recordBehind?_transports (ofValue_pointerTo "Vehicle")
  obtain ⟨_, namedCar, _⟩ := named_transports (ofValue_pointerTo "Vehicle")
  have onward : ¬ ReflTransGen (Refers (transports (pointerTo "Vehicle"))) "Transport" "Car" := by
    intro chain
    rcases chain.cases_head with same | ⟨next, ⟨raw, held, refers, _⟩, further⟩
    · exact absurd same (by decide)
    · obtain rfl : pointerTo "Vehicle" = raw := by simpa [transports] using held
      have ofPointer : Reference.ofValue (pointerTo "Vehicle") = ["Vehicle"] := by cbv
      rw [ofPointer, List.mem_singleton] at refers
      subst refers
      rcases further.cases_head with same | ⟨other, refers, _⟩
      · exact absurd same (by decide)
      · exact not_refers_vehicle other refers
  refine ⟨built, definition, emits, listed, same, found, onward, ?_⟩
  exact inherits_beyond_cycles _ _ built assigns_transports emits "Car" _ namedCar definition listed
    (by rw [isCar]; rfl) isClass {} _ "Transport" "Vehicle" (.direct List.mem_cons_self) (by cbv)
    found onward

/-- It does not count where the record behind the pointer leads: the vehicle leads nowhere, but the
alias leads back to the car, and so the car does not inherit from the vehicle. -/
theorem copies_behind_circling :
    ¬ ∀ (schemas : Mapping) (names : List (String × String)) (built : List Definition),
      (assignNames TypedDict.dialect ∅ (schemas.map (·.1))).Yields names →
      (definitions TypedDict.dialect schemas).Yields built →
      ∀ name schema, Named schemas name schema → ∀ definition ∈ built,
        names.lookup name = some definition.name → definition.type.kind = .object →
        ∀ traits pointer target base, (Schema.reference traits pointer).BranchOf schema →
          Reference.schemaName? pointer = some target →
          recordBehind? schemas [] target = .ok (some base) → base ≠ name →
          ¬ ReflTransGen (Refers schemas) base name →
          ∃ emitted, names.lookup base = some emitted ∧ emitted ∈ definition.type.bases := by
  intro claimed
  obtain ⟨built, emits, outlined⟩ := yields_circling
  obtain ⟨definition, listed, same⟩ := List.mem_map.mp outlined
  have isCar : definition.name = "Car" := congrArg Prod.fst same
  have isClass : definition.type.kind = .object := congrArg (·.2.1) same
  have noBases : definition.type.bases = [] := congrArg (·.2.2.1) same
  have found := recordBehind?_transports ofValue_circling
  obtain ⟨_, namedCar, _⟩ := named_transports ofValue_circling
  have onward : ¬ ReflTransGen (Refers (transports circling)) "Vehicle" "Car" := by
    intro chain
    rcases chain.cases_head with same | ⟨next, refers, _⟩
    · exact absurd same (by decide)
    · exact not_refers_vehicle next refers
  obtain ⟨emitted, _, inherited⟩ := claimed _ _ built assigns_transports emits "Car" _ namedCar
    definition listed (by rw [isCar]; rfl) isClass {} _ "Transport" "Vehicle"
    (.direct List.mem_cons_self) (by cbv) found (by decide) onward
  rw [noBases] at inherited
  exact absurd inherited List.not_mem_nil

end Emission

end OpenApi
