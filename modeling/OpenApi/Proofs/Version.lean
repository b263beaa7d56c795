import Mathlib
import OpenApi.Version

/-!
# The order of versions

Zeros behind the parts of a version do not count, so a version stands for the sequence of its parts
with zeros behind them without end (`endless`).  Two versions are compared as these sequences are, by
the leftmost place at which they differ: however many zeros are filled in to make two versions equally
long, the sequences stay the same.  Reaching a minimum is therefore a total order of the versions, up
to zeros at their ends.
-/

namespace OpenApi

/-- A mark cuts a text: its pieces are those before the mark and those behind it. -/
theorem Text.pieces_append_cons (mark : Char) (cs rest : List Char) :
    pieces mark (cs ++ mark :: rest) = pieces mark cs ++ pieces mark rest := by
  induction cs with
  | nil => simp [pieces]
  | cons c cs ih =>
      rw [List.cons_append, pieces, pieces, ih]
      by_cases cut : c = mark
      · rw [if_pos cut, if_pos cut, List.cons_append]
      · obtain ⟨piece, others, some⟩ := List.exists_cons_of_ne_nil (pieces_ne_nil mark cs)
        rw [if_neg cut, if_neg cut, some, List.cons_append, List.cons_append]

namespace Version

/-- The parts of a version, with zeros behind them without end. -/
def endless (parts : List Int) : Nat → Int := fun place => parts.getD place 0

variable {first other : Int} {parts least rest others : List Int} {width : Nat}

/-- Filling up with zeros changes nothing. -/
theorem endless_filled (width : Nat) (parts : List Int) :
    endless (filled width parts) = endless parts := by
  funext place
  unfold endless filled
  by_cases within : place < parts.length
  · rw [List.getD_append _ _ _ _ within]
  · have beyond : parts.length ≤ place := Nat.le_of_not_lt within
    rw [List.getD_append_right _ _ _ _ beyond, List.getD_eq_default _ _ beyond,
      List.getD_eq_getElem?_getD, List.getElem?_getD_replicate_default_eq]

/-- A sequence is below another if it is at the leftmost part, or the leftmost parts are the same
and what is behind them is below. -/
theorem endless_cons_lt_iff :
    toLex (endless (first :: rest)) < toLex (endless (other :: others)) ↔
      first < other ∨ first = other ∧ toLex (endless rest) < toLex (endless others) := by
  constructor
  · rintro ⟨place, same, below⟩
    cases place with
    | zero => exact .inl below
    | succ place =>
        exact .inr ⟨same 0 place.succ_pos,
          place, fun earlier before => same (earlier + 1) (Nat.succ_lt_succ before), below⟩
  · rintro (below | ⟨rfl, place, same, below⟩)
    · exact ⟨0, fun earlier before => absurd before earlier.not_lt_zero, below⟩
    · refine ⟨place + 1, fun earlier before => ?_, below⟩
      cases earlier with
      | zero => rfl
      | succ earlier => exact same earlier (Nat.lt_of_succ_lt_succ before)

/-- Lists of equal length are compared as the sequences that they begin. -/
theorem notBefore_iff (lengths : parts.length = least.length) :
    notBefore parts least ↔ toLex (endless least) ≤ toLex (endless parts) := by
  induction parts generalizing least with
  | nil =>
      obtain rfl := List.length_eq_zero_iff.mp lengths.symm
      exact iff_of_true rfl le_rfl
  | cons first rest ih =>
      cases least with
      | nil => cases lengths
      | cons other others =>
          rw [notBefore]
          by_cases same : first = other
          · have below : toLex (endless (first :: rest)) < toLex (endless (other :: others)) ↔
                toLex (endless rest) < toLex (endless others) := by
              simp [endless_cons_lt_iff, same]
            rw [if_pos same, ih (Nat.succ.inj lengths)]
            exact not_lt.symm.trans ((not_congr below).symm.trans not_lt)
          · have below : toLex (endless (first :: rest)) < toLex (endless (other :: others)) ↔
                first < other := by
              simp [endless_cons_lt_iff, same]
            have above : other < first ↔ ¬first < other := by omega
            rw [if_neg same, decide_eq_true_iff, above]
            exact (not_congr below).symm.trans not_lt

theorem length_filled (enough : parts.length ≤ width) : (filled width parts).length = width := by
  rw [filled, List.length_append, List.length_replicate, Nat.add_sub_cancel' enough]

/-- Parts reach a minimum if their sequence is not below that of the minimum. -/
theorem reaches_iff :
    reaches parts least ↔ toLex (endless least) ≤ toLex (endless parts) := by
  have lengths : (filled (max parts.length least.length) parts).length =
      (filled (max parts.length least.length) least).length := by
    rw [length_filled (le_max_left _ _), length_filled (le_max_right _ _)]
  unfold reaches
  rw [notBefore_iff lengths, endless_filled, endless_filled]

/-- One more part of zero changes nothing. -/
theorem endless_append_zero (parts : List Int) : endless (parts ++ [0]) = endless parts := by
  have written : filled (parts.length + 1) parts = parts ++ [0] := by
    rw [filled, Nat.add_sub_cancel_left, List.replicate_one]
  rw [← written, endless_filled]

/-- A zero that is written behind a version is one more part. -/
theorem parts?_append_zero (version : String) :
    parts? (version ++ ".0") = (parts? version).map (· ++ [0]) := by
  have zero : List.mapM Decimal.integer? (Text.pieces '.' ['0']) = some [0] := by decide
  rw [parts?, parts?, String.toList_append, show ".0".toList = ['.', '0'] from rfl,
    Text.pieces_append_cons, List.mapM_append, zero]
  cases List.mapM Decimal.integer? (Text.pieces '.' version.toList) <;> rfl

theorem supported_iff {version minimum : String} :
    supported version minimum ↔ ∃ parts least, parts? version = some parts ∧
      parts? minimum = some least ∧ toLex (endless least) ≤ toLex (endless parts) := by
  unfold supported
  cases parts? version <;> cases parts? minimum <;> simp [reaches_iff]

/-- **The order of versions.** A version is supported exactly if it and the minimum are versions and
its parts, with zeros behind them without end, are lexicographically at least those of the minimum.
So support is reflexive, transitive and total among versions, a further zero behind either of the two
changes nothing, and nothing is supported where one of the two is no version. -/
theorem supported_orders_versions :
    (∀ version minimum parts least, parts? version = some parts → parts? minimum = some least →
      (supported version minimum ↔ toLex (endless least) ≤ toLex (endless parts))) ∧
    (∀ version, (parts? version).isSome → supported version version) ∧
    (∀ first second third, supported first second → supported second third →
      supported first third) ∧
    (∀ version minimum, (parts? version).isSome → (parts? minimum).isSome →
      supported version minimum ∨ supported minimum version) ∧
    (∀ version minimum, supported (version ++ ".0") minimum = supported version minimum ∧
      supported version (minimum ++ ".0") = supported version minimum) ∧
    (∀ version minimum, parts? version = none ∨ parts? minimum = none →
      supported version minimum = false) := by
  refine ⟨?compared, ?reflexive, ?transitive, ?total, ?zeros, ?others⟩
  case compared =>
    intro version minimum parts least read readMinimum
    rw [supported_iff]
    simp [read, readMinimum]
  case reflexive =>
    intro version isVersion
    obtain ⟨parts, read⟩ := Option.isSome_iff_exists.mp isVersion
    exact supported_iff.mpr ⟨parts, parts, read, read, le_rfl⟩
  case transitive =>
    intro first second third upper lower
    obtain ⟨parts, between, read, readBetween, above⟩ := supported_iff.mp upper
    obtain ⟨_, least, alsoRead, readLeast, below⟩ := supported_iff.mp lower
    obtain rfl := Option.some.inj (readBetween.symm.trans alsoRead)
    exact supported_iff.mpr ⟨parts, least, read, readLeast, below.trans above⟩
  case total =>
    intro version minimum isVersion alsoVersion
    obtain ⟨parts, read⟩ := Option.isSome_iff_exists.mp isVersion
    obtain ⟨least, readLeast⟩ := Option.isSome_iff_exists.mp alsoVersion
    rcases le_total (toLex (endless least)) (toLex (endless parts)) with above | below
    · exact .inl (supported_iff.mpr ⟨parts, least, read, readLeast, above⟩)
    · exact .inr (supported_iff.mpr ⟨least, parts, readLeast, read, below⟩)
  case zeros =>
    intro version minimum
    constructor <;>
      rw [Bool.eq_iff_iff, supported_iff, supported_iff, parts?_append_zero] <;>
      simp [endless_append_zero]
  case others =>
    rintro version minimum (noVersion | noMinimum)
    · simp [supported, noVersion]
    · simp [supported, noMinimum]

/-- Parts are compared as numbers, and those that a version does not have count as zero. -/
theorem supported_orders_versions_releases :
    parts? "3.10" = some [3, 10] ∧ parts? "3.9.1" = some [3, 9, 1] ∧
      toLex (endless [3, 9, 1]) ≤ toLex (endless [3, 10]) ∧ supported "3.9.1" "3.9.1" ∧
      supported "3.10" "3.9" ∧ (supported "3.9.1" "3.10" ∨ supported "3.10" "3.9.1") ∧
      supported "three" "3.9" = false := by
  obtain ⟨compared, reflexive, transitive, total, -, others⟩ := supported_orders_versions
  have later : parts? "3.10" = some [3, 10] := by decide
  have patch : parts? "3.9.1" = some [3, 9, 1] := by decide
  have above : supported "3.10" "3.9.1" := by decide
  have isLater : (parts? "3.10").isSome := by rw [later]; rfl
  have isPatch : (parts? "3.9.1").isSome := by rw [patch]; rfl
  exact ⟨later, patch, (compared _ _ _ _ later patch).mp above, reflexive _ isPatch,
    transitive _ _ _ above (by decide), total _ _ isPatch isLater, others _ _ (.inl (by decide))⟩

end Version

end OpenApi
