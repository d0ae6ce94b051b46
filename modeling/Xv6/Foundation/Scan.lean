import Mathlib.Data.List.Basic

/-!
# Linear scans

The first index of a range at which a test succeeds, as a loop that stops
there finds it.
-/

namespace Scan

/-- The first index among `count` indices from `start` on that passes the
test. -/
def scan (test : Nat → Bool) : (count start : Nat) → Option Nat
  | 0, _ => none
  | count + 1, start =>
    if test start then some start else scan test count (start + 1)

/-- A scan that finds an index stopped at the first one that passes. -/
theorem scan_eq_some_iff :
    scan test count start = some index ↔ start ≤ index ∧ index < start + count ∧ test index = true ∧
        ∀ earlier, start ≤ earlier → earlier < index → test earlier = false := by
  induction count generalizing start with
  | zero =>
    constructor
    · intro found
      simp [scan] at found
    · rintro ⟨lower, upper, _⟩
      omega
  | succ count ih =>
    by_cases here : test start = true
    · simp only [scan, if_pos here, Option.some.injEq]
      constructor
      · rintro rfl
        exact ⟨by omega, by omega, here, fun earlier _ _ => by omega⟩
      · rintro ⟨lower, _, _, first⟩
        by_contra different
        have absent := first start (by omega) (by omega)
        simp [here] at absent
    · have notHere : test start = false := by simpa using here
      simp only [scan, if_neg here, ih]
      constructor
      · rintro ⟨lower, upper, passes, first⟩
        refine ⟨by omega, by omega, passes, ?_⟩
        intro earlier earlierLower earlierUpper
        by_cases same : earlier = start
        · rw [same, notHere]
        · exact first earlier (by omega) earlierUpper
      · rintro ⟨lower, upper, passes, first⟩
        have different : start ≠ index := by
          rintro rfl
          simp [notHere] at passes
        exact ⟨by omega, by omega, passes, fun earlier earlierLower earlierUpper =>
            first earlier (by omega) earlierUpper⟩

/-- A scan finds nothing exactly when no index passes. -/
theorem scan_eq_none_iff :
    scan test count start = none ↔
      ∀ index, start ≤ index → index < start + count → test index = false := by
  induction count generalizing start with
  | zero =>
    refine ⟨fun _ index lower upper => by omega, fun _ => rfl⟩
  | succ count ih =>
    by_cases here : test start = true
    · simp only [scan, if_pos here]
      constructor
      · simp
      · intro fails
        have absent := fails start (by omega) (by omega)
        simp [here] at absent
    · have notHere : test start = false := by simpa using here
      simp only [scan, if_neg here, ih]
      constructor
      · intro fails index lower upper
        by_cases same : index = start
        · rw [same, notHere]
        · exact fails index (by omega) (by omega)
      · intro fails index lower upper
        exact fails index (by omega) (by omega)

end Scan
