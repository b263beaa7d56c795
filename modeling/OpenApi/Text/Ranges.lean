/-!
# Ranges of code points

A character class given by the ascending, disjoint ranges of its code points.
-/

namespace OpenApi.Text

/-- The first and last code points of consecutive runs, ascending and disjoint. -/
abbrev Ranges := List (Nat × Nat)

namespace Ranges

/-- Whether a code point lies in one of the runs; the search ends at the first run beyond it. -/
def covers : Ranges → Nat → Bool
  | [], _ => false
  | (first, last) :: rest, code =>
    if code < first then false
    else if code ≤ last then true
    else covers rest code

/-- The run that holds a code point. -/
def run? : Ranges → Nat → Option (Nat × Nat)
  | [], _ => none
  | (first, last) :: rest, code =>
    if code < first then none
    else if code ≤ last then some (first, last)
    else run? rest code

/-- Whether the runs ascend and leave a gap between neighbours. -/
def ordered : Ranges → Bool
  | [] => true
  | [(first, last)] => first ≤ last
  | (first, last) :: (next, end_) :: rest =>
    first ≤ last && last + 1 < next && ordered ((next, end_) :: rest)

/-- A covered code point lies within one of the runs. -/
theorem exists_of_covers {runs : Ranges} {code : Nat} (h : runs.covers code = true) :
    ∃ run ∈ runs, run.1 ≤ code ∧ code ≤ run.2 := by
  induction runs with
  | nil => simp [covers] at h
  | cons run rest ih =>
    obtain ⟨first, last⟩ := run
    simp only [covers] at h
    split at h
    · simp at h
    · split at h
      · exact ⟨(first, last), by simp, by omega, by omega⟩
      · obtain ⟨run, member, bounds⟩ := ih h
        exact ⟨run, by simp [member], bounds⟩

end Ranges

end OpenApi.Text
