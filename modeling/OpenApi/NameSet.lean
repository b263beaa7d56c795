/-!
# Sets of names

A finite set of names, kept in the order in which they were first put in.  No name is held twice.
-/

namespace OpenApi

/-- A finite set of names. -/
structure NameSet where
  toList : List String
  nodup : toList.Nodup := by simp
deriving DecidableEq

namespace NameSet

instance : Membership String NameSet := ⟨fun set name => name ∈ set.toList⟩

instance (name : String) (set : NameSet) : Decidable (name ∈ set) :=
  inferInstanceAs (Decidable (name ∈ set.toList))

instance : EmptyCollection NameSet := ⟨⟨[], .nil⟩⟩

instance : Inhabited NameSet := ⟨∅⟩

/-- The set with one more name. -/
def insert (set : NameSet) (name : String) : NameSet :=
  if h : name ∈ set.toList then set
  else ⟨set.toList ++ [name], by
    rw [List.nodup_append]
    exact ⟨set.nodup, by simp, by rintro a ha b hb rfl; simp at hb; exact h (hb ▸ ha)⟩⟩

/-- The set without a name. -/
def erase (set : NameSet) (name : String) : NameSet := ⟨set.toList.erase name, set.nodup.erase name⟩

/-- The set with more names. -/
def insertAll (set : NameSet) (names : List String) : NameSet := names.foldl insert set

def ofList (names : List String) : NameSet := insertAll ∅ names

def singleton (name : String) : NameSet := ofList [name]

/-- The names of either set. -/
def union (first second : NameSet) : NameSet := insertAll first second.toList

instance : Union NameSet := ⟨union⟩

/-- Whether there is no name. -/
def isEmpty (set : NameSet) : Bool := set.toList.isEmpty

/-- The names in the order of their code points. -/
def sorted (set : NameSet) : List String :=
  set.toList.mergeSort fun first second => !decide (second < first)

@[simp]
theorem mem_toList {set : NameSet} {name : String} : name ∈ set.toList ↔ name ∈ set :=
  Iff.rfl

@[simp]
theorem not_mem_empty (name : String) : name ∉ (∅ : NameSet) :=
  List.not_mem_nil

@[simp]
theorem mem_insert {set : NameSet} {name new : String} :
    name ∈ set.insert new ↔ name ∈ set ∨ name = new := by
  unfold insert
  split
  · next held => exact ⟨Or.inl, fun h => h.elim id fun same => same ▸ held⟩
  · rw [← mem_toList]
    simp

@[simp]
theorem mem_erase {set : NameSet} {name gone : String} :
    name ∈ set.erase gone ↔ name ≠ gone ∧ name ∈ set :=
  set.nodup.mem_erase_iff

/-- Inserting a list of names adds these, in whatever order. -/
@[simp]
theorem mem_insertAll {set : NameSet} {name : String} {names : List String} :
    name ∈ set.insertAll names ↔ name ∈ set ∨ name ∈ names := by
  induction names generalizing set with
  | nil => simp [insertAll]
  | cons new rest ih =>
    have step : set.insertAll (new :: rest) = (set.insert new).insertAll rest := rfl
    rw [step, ih, mem_insert, List.mem_cons, or_assoc]

@[simp]
theorem mem_ofList {name : String} {names : List String} : name ∈ ofList names ↔ name ∈ names := by
  simp [ofList]

@[simp]
theorem mem_union {first second : NameSet} {name : String} :
    name ∈ first ∪ second ↔ name ∈ first ∨ name ∈ second := by
  change name ∈ first.insertAll second.toList ↔ _
  simp

/-- Uniting the names of all items adds those of each of them. -/
theorem mem_foldl_union {α : Type} {namesOf : α → NameSet} {start : NameSet} {items : List α}
    {name : String} : name ∈ items.foldl (fun names item => names ∪ namesOf item) start ↔
      name ∈ start ∨ ∃ item ∈ items, name ∈ namesOf item := by
  induction items generalizing start with
  | nil => simp
  | cons first rest ih =>
      simp [ih, or_assoc]

@[simp]
theorem mem_sorted {set : NameSet} {name : String} : name ∈ set.sorted ↔ name ∈ set := by
  simp [sorted]

end NameSet

end OpenApi
