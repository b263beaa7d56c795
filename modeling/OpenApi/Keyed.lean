/-!
# Keyed lists

Lists of keys with their values, in the order in which the keys first appeared.  Which keys count as
one is a parameter, because number-like keys of a document are compared by their numeric value.
-/

namespace OpenApi.Keyed

variable {κ : Type} {ν : Type}

/-- Set a key: an entry with the same key keeps its key and position and takes the new value,
and a new key goes to the end. -/
def put (same : κ → κ → Bool) (key : κ) (value : ν) : List (κ × ν) → List (κ × ν)
  | [] => [(key, value)]
  | (held, old) :: rest =>
    if same held key then (held, value) :: rest else (held, old) :: put same key value rest

/-- Set the keys of a list of entries from left to right. -/
def putAll (same : κ → κ → Bool) (entries : List (κ × ν)) (start : List (κ × ν)) :
    List (κ × ν) :=
  entries.foldl (fun held entry => put same entry.1 entry.2 held) start

/-- The keyed list that remains when later entries overwrite earlier ones of the same key. -/
def ofEntries (same : κ → κ → Bool) (entries : List (κ × ν)) : List (κ × ν) :=
  putAll same entries []

@[simp]
theorem put_nil (same : κ → κ → Bool) (key : κ) (value : ν) :
    put same key value [] = [(key, value)] :=
  rfl

/-- Setting a key changes no key that is already there and adds at most that one. -/
theorem map_fst_put (same : κ → κ → Bool) (key : κ) (value : ν) (entries : List (κ × ν)) :
    (put same key value entries).map Prod.fst =
      if entries.any (fun entry => same entry.1 key) then entries.map Prod.fst
      else entries.map Prod.fst ++ [key] := by
  induction entries with
  | nil => rfl
  | cons entry rest ih =>
    obtain ⟨held, old⟩ := entry
    by_cases hit : same held key
    · simp [put, hit]
    · cases later : rest.any fun entry => same entry.1 key <;>
        simp [put, hit, ih, later]

end OpenApi.Keyed
