import Mathlib.Data.List.Basic
import Mathlib.Data.Nat.ModEq

/-!
# Searching a ring of positions from a starting point

`cyclicFind? n start p` looks through the positions `start, start + 1, …,
n - 1, 0, …, start - 1` of a ring of `n` positions and returns the first one
that satisfies `p`.  This is the scan of every linear-probing table.

`ringDistance n start i` is how many positions the scan passes before it stands
at `i`.  `cyclicFind?_eq_some_iff` characterises the scan by it — the position
found satisfies `p` and no position that does is nearer — and nothing below
needs the two half-loops again.
-/

namespace CyclicSearch

/-- The first position satisfying `p` in the order `start, …, n - 1, 0, …,
start - 1`. -/
def cyclicFind? (n start : ℕ) (p : ℕ → Bool) : Option ℕ :=
  ((List.range' start (n - start)).find? p).or ((List.range start).find? p)

/-- How far position `i` is from `start` along the ring of `n` positions. -/
def ringDistance (n start i : ℕ) : ℕ :=
  if start ≤ i then i - start else n - start + i

/-- Distinct positions of the ring are at distinct distances. -/
theorem ringDistance_inj {n start i j : ℕ} (hstart : start < n) (hi : i < n)
    (hj : j < n) (h : ringDistance n start i = ringDistance n start j) : i = j := by
  unfold ringDistance at h
  split at h <;> split at h <;> omega

/-- **The scan, by distance.**  The position found satisfies `p`, and every
position that satisfies `p` is at least as far from `start`. -/
theorem cyclicFind?_eq_some_iff {n start i : ℕ} {p : ℕ → Bool} (hstart : start < n) :
    cyclicFind? n start p = some i ↔
      i < n ∧ p i = true ∧
        ∀ j < n, p j = true → ringDistance n start i ≤ ringDistance n start j := by
  unfold cyclicFind?
  cases hupper : (List.range' start (n - start)).find? p with
  | some k =>
      obtain ⟨hpk, hmem, hfirst⟩ := List.find?_range'_eq_some.mp hupper
      rw [List.mem_range'_1] at hmem
      have hnearest : ∀ j < n, p j = true →
          ringDistance n start k ≤ ringDistance n start j := by
        intro j hj hpj
        unfold ringDistance
        by_cases hlow : start ≤ j
        · have : k ≤ j := by
            by_contra hlt
            have := hfirst j hlow (by omega)
            simp [hpj] at this
          rw [if_pos hmem.1, if_pos hlow]
          omega
        · rw [if_pos hmem.1, if_neg hlow]
          omega
      rw [Option.some_or]
      constructor
      · intro h
        cases h
        exact ⟨by omega, hpk, hnearest⟩
      · rintro ⟨hi, hpi, hmin⟩
        have hle := hmin k (by omega) hpk
        have hge := hnearest i hi hpi
        rw [ringDistance_inj hstart (by omega) hi (le_antisymm hge hle)]
  | none =>
      rw [Option.none_or]
      have hnone : ∀ j < n, start ≤ j → p j = false := by
        intro j hj hlow
        have := List.find?_eq_none.mp hupper j
          (by rw [List.mem_range'_1]; omega)
        simpa using this
      constructor
      · intro h
        obtain ⟨hpi, hmem, hfirst⟩ := List.find?_range_eq_some.mp h
        rw [List.mem_range] at hmem
        refine ⟨by omega, hpi, fun j hj hpj => ?_⟩
        have hjlow : ¬ start ≤ j := fun hlow => by
          simp [hnone j hj hlow] at hpj
        have : i ≤ j := by
          by_contra hlt
          have := hfirst j (by omega)
          simp [hpj] at this
        unfold ringDistance
        rw [if_neg (by omega), if_neg hjlow]
        omega
      · rintro ⟨hi, hpi, hmin⟩
        have hilow : ¬ start ≤ i := fun hlow => by
          simp [hnone i hi hlow] at hpi
        refine List.find?_range_eq_some.mpr ⟨hpi, by rw [List.mem_range]; omega, ?_⟩
        intro j hj
        by_contra hpj
        have hle := hmin j (by omega) (by simpa using hpj)
        unfold ringDistance at hle
        rw [if_neg hilow, if_neg (by omega)] at hle
        omega

/-- The scan comes back empty-handed exactly when no position satisfies `p`. -/
theorem cyclicFind?_eq_none_iff {n start : ℕ} {p : ℕ → Bool} (hstart : start < n) :
    cyclicFind? n start p = none ↔ ∀ i < n, p i = false := by
  unfold cyclicFind?
  rw [Option.or_eq_none_iff, List.find?_eq_none, List.find?_eq_none]
  constructor
  · rintro ⟨hupper, hlower⟩ i hi
    by_cases hlow : start ≤ i
    · simpa using hupper i (by rw [List.mem_range'_1]; omega)
    · simpa using hlower i (by rw [List.mem_range]; omega)
  · intro h
    refine ⟨fun i hi => ?_, fun i hi => ?_⟩
    · rw [List.mem_range'_1] at hi
      simp [h i (by omega)]
    · rw [List.mem_range] at hi
      simp [h i (by omega)]

/-- The scan finds something as soon as some position satisfies `p`. -/
theorem exists_cyclicFind? {n start i : ℕ} {p : ℕ → Bool} (hstart : start < n)
    (hi : i < n) (hp : p i = true) : ∃ j, cyclicFind? n start p = some j := by
  rw [← Option.isSome_iff_exists, Option.isSome_iff_ne_none]
  intro hnone
  rw [cyclicFind?_eq_none_iff hstart] at hnone
  simp [hnone i hi] at hp

end CyclicSearch
