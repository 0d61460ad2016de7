import BekOS.Libwindow.Gfx

/-!
# Rectangles as sets of pixels

What `intersection`, `overlaps` and `is_within` say of the pixels of two rectangles.
-/

namespace BekOS.Libwindow

namespace Rect

/-- `overlaps` -/
def overlaps (r other : Rect) : Bool :=
  let i := r.intersection other
  i.size.x != 0 || i.size.y != 0

/-- There are pixels of the rectangle in the column. -/
def HasColumn (r : Rect) (x : ℤ) : Prop :=
  r.origin.x.toInt ≤ x ∧ x < r.origin.x.toInt + r.size.x.toInt

/-- And in the row. -/
def HasRow (r : Rect) (y : ℤ) : Prop :=
  r.origin.y.toInt ≤ y ∧ y < r.origin.y.toInt + r.size.y.toInt

/-- The pixel is in the rectangle. -/
def Contains (r : Rect) (x y : ℤ) : Prop := r.HasColumn x ∧ r.HasRow y

/-- No size is negative, and an `int` has room for all corners. -/
structure Proper (r : Rect) : Prop where
  width : 0 ≤ r.size.x.toInt
  height : 0 ≤ r.size.y.toInt
  right : r.origin.x.toInt + r.size.x.toInt < 2 ^ 31
  bottom : r.origin.y.toInt + r.size.y.toInt < 2 ^ 31

/-- Of two that meet in a column or a row, both are so. -/
def MeetAlike (r other : Rect) : Prop :=
  (∃ x, r.HasColumn x ∧ other.HasColumn x) ↔ ∃ y, r.HasRow y ∧ other.HasRow y

theorem toInt_common {start size start' size' : I32} (hsize : 0 ≤ size.toInt)
    (hsize' : 0 ≤ size'.toInt) (hend : start.toInt + size.toInt < 2 ^ 31)
    (hend' : start'.toInt + size'.toInt < 2 ^ 31) :
    (maxInt start start').toInt = max start.toInt start'.toInt ∧
      (maxInt (minInt (start + size) (start' + size')) (maxInt start start') -
          maxInt start start').toInt =
        max 0 (min (start.toInt + size.toInt) (start'.toInt + size'.toInt) -
          max start.toInt start'.toInt) := by
  have hstart := toInt_bounds start
  have hstart' := toInt_bounds start'
  have hlast := (toInt_bounds size).2
  have hmax : (maxInt (minInt (start + size) (start' + size')) (maxInt start start')).toInt =
      max (min (start.toInt + size.toInt) (start'.toInt + size'.toInt))
        (max start.toInt start'.toInt) := by
    rw [toInt_maxInt, toInt_minInt, toInt_maxInt, toInt_add_of_lt (by omega) hend,
      toInt_add_of_lt (by omega) hend']
  refine ⟨toInt_maxInt .., ?_⟩
  rw [toInt_sub_of_lt, hmax, toInt_maxInt]
  · omega
  · rw [hmax, toInt_maxInt]
    omega
  · rw [hmax, toInt_maxInt]
    omega

section Pair

variable {r other : Rect}

theorem hasColumn_intersection (hr : r.Proper) (hother : other.Proper) {x : ℤ} :
    (r.intersection other).HasColumn x ↔ r.HasColumn x ∧ other.HasColumn x := by
  obtain ⟨hpos, hsize⟩ := toInt_common hr.width hother.width hr.right hother.right
  unfold HasColumn intersection right Vec.add Vec.sub
  dsimp only
  rw [hsize, hpos]
  omega

theorem hasRow_intersection (hr : r.Proper) (hother : other.Proper) {y : ℤ} :
    (r.intersection other).HasRow y ↔ r.HasRow y ∧ other.HasRow y := by
  obtain ⟨hpos, hsize⟩ := toInt_common hr.height hother.height hr.bottom hother.bottom
  unfold HasRow intersection bottom Vec.add Vec.sub
  dsimp only
  rw [hsize, hpos]
  omega

theorem contains_intersection (hr : r.Proper) (hother : other.Proper) {x y : ℤ} :
    (r.intersection other).Contains x y ↔ r.Contains x y ∧ other.Contains x y := by
  unfold Contains
  rw [hasColumn_intersection hr hother, hasRow_intersection hr hother]
  exact and_and_and_comm

theorem size_x_ne_zero_iff (hr : 0 ≤ r.size.x.toInt) : r.size.x ≠ 0 ↔ ∃ x, r.HasColumn x := by
  rw [Ne, ← BitVec.toInt_inj]
  have hzero : (0 : I32).toInt = 0 := rfl
  rw [hzero]
  unfold HasColumn
  exact ⟨fun hne => ⟨_, le_refl _, by omega⟩, fun ⟨x, hlow, hhigh⟩ => by omega⟩

theorem size_y_ne_zero_iff (hr : 0 ≤ r.size.y.toInt) : r.size.y ≠ 0 ↔ ∃ y, r.HasRow y := by
  rw [Ne, ← BitVec.toInt_inj]
  have hzero : (0 : I32).toInt = 0 := rfl
  rw [hzero]
  unfold HasRow
  exact ⟨fun hne => ⟨_, le_refl _, by omega⟩, fun ⟨y, hlow, hhigh⟩ => by omega⟩

theorem overlaps_iff (hr : r.Proper) (hother : other.Proper) :
    r.overlaps other = true ↔
      (∃ x, r.HasColumn x ∧ other.HasColumn x) ∨ ∃ y, r.HasRow y ∧ other.HasRow y := by
  have hwidth : 0 ≤ (r.intersection other).size.x.toInt := by
    have hsize := (toInt_common hr.width hother.width hr.right hother.right).2
    unfold intersection right Vec.add Vec.sub
    dsimp only
    rw [hsize]
    exact le_max_left ..
  have hheight : 0 ≤ (r.intersection other).size.y.toInt := by
    have hsize := (toInt_common hr.height hother.height hr.bottom hother.bottom).2
    unfold intersection bottom Vec.add Vec.sub
    dsimp only
    rw [hsize]
    exact le_max_left ..
  unfold overlaps
  dsimp only
  rw [Bool.or_eq_true, bne_iff_ne, bne_iff_ne, size_x_ne_zero_iff hwidth,
    size_y_ne_zero_iff hheight]
  simp only [hasColumn_intersection hr hother, hasRow_intersection hr hother]

theorem exists_contains_iff : (∃ x y, r.Contains x y ∧ other.Contains x y) ↔
    (∃ x, r.HasColumn x ∧ other.HasColumn x) ∧ ∃ y, r.HasRow y ∧ other.HasRow y := by
  constructor
  · rintro ⟨x, y, ⟨hcolumn, hrow⟩, hcolumn', hrow'⟩
    exact ⟨⟨x, hcolumn, hcolumn'⟩, y, hrow, hrow'⟩
  · rintro ⟨⟨x, hcolumn, hcolumn'⟩, y, hrow, hrow'⟩
    exact ⟨x, y, ⟨hcolumn, hrow⟩, hcolumn', hrow'⟩

theorem common_eq_iff {start size start' size' : I32} (hsize : 0 < size.toInt)
    (hsize' : 0 ≤ size'.toInt) (hend : start.toInt + size.toInt < 2 ^ 31)
    (hend' : start'.toInt + size'.toInt < 2 ^ 31) :
    (maxInt start start' = start ∧
        maxInt (minInt (start + size) (start' + size')) (maxInt start start') -
          maxInt start start' = size) ↔
      start'.toInt ≤ start.toInt ∧
        start.toInt + size.toInt ≤ start'.toInt + size'.toInt := by
  obtain ⟨hpos, hcommon⟩ := toInt_common hsize.le hsize' hend hend'
  rw [← BitVec.toInt_inj, ← BitVec.toInt_inj (y := size), hpos, hcommon]
  omega

theorem isWithin_iff_contains (hr : r.Proper) (hother : other.Proper) (hwidth : r.size.x ≠ 0)
    (hheight : r.size.y ≠ 0) :
    r.isWithin other = true ↔ ∀ x y, r.Contains x y → other.Contains x y := by
  have hzero : (0 : I32).toInt = 0 := rfl
  have hx : 0 < r.size.x.toInt := by
    rw [Ne, ← BitVec.toInt_inj, hzero] at hwidth
    exact lt_of_le_of_ne hr.width (Ne.symm hwidth)
  have hy : 0 < r.size.y.toInt := by
    rw [Ne, ← BitVec.toInt_inj, hzero] at hheight
    exact lt_of_le_of_ne hr.height (Ne.symm hheight)
  have hsplit : r.isWithin other = true ↔
      (r.origin.x.toInt ≥ other.origin.x.toInt ∧
        r.origin.x.toInt + r.size.x.toInt ≤ other.origin.x.toInt + other.size.x.toInt) ∧
      (r.origin.y.toInt ≥ other.origin.y.toInt ∧
        r.origin.y.toInt + r.size.y.toInt ≤ other.origin.y.toInt + other.size.y.toInt) := by
    rw [ge_iff_le, ge_iff_le, ← common_eq_iff hx hother.width hr.right hother.right,
      ← common_eq_iff hy hother.height hr.bottom hother.bottom, isWithin, decide_eq_true_iff,
      Rect.ext_iff, Vec.ext_iff, Vec.ext_iff]
    exact and_and_and_comm
  rw [hsplit]
  unfold Contains HasColumn HasRow
  constructor
  · intro h x y hin
    omega
  · intro h
    have hfirst := h r.origin.x.toInt r.origin.y.toInt (by omega)
    have hlast := h (r.origin.x.toInt + r.size.x.toInt - 1) (r.origin.y.toInt + r.size.y.toInt - 1)
      (by omega)
    omega

/-- **The set semantics** of rectangles: `intersection` has the pixels of both and `is_within` says
which rectangles have all pixels of others; `overlaps` says which have one in common exactly if the
two meet in a row where they meet in a column, and the other way around. -/
theorem setSemantics_iff (hr : r.Proper) (hother : other.Proper) :
    ((∀ x y, (r.intersection other).Contains x y ↔ r.Contains x y ∧ other.Contains x y) ∧
        (r.overlaps other = true ↔ ∃ x y, r.Contains x y ∧ other.Contains x y) ∧
        (r.size.x ≠ 0 → r.size.y ≠ 0 →
          (r.isWithin other = true ↔ ∀ x y, r.Contains x y → other.Contains x y))) ↔
      r.MeetAlike other := by
  have hwithin := isWithin_iff_contains hr hother
  rw [and_iff_right fun x y => contains_intersection hr hother, and_iff_left hwithin,
    overlaps_iff hr hother, exists_contains_iff, MeetAlike]
  by_cases hcolumn : ∃ x, r.HasColumn x ∧ other.HasColumn x
  · rw [iff_true_intro hcolumn, true_or, true_and, true_iff]
  · rw [iff_false_intro hcolumn, false_or, false_and, iff_false, false_iff]

/-- The set semantics of two that are apart in both directions. -/
theorem setSemantics_iff_apart :
    (Proper ⟨⟨0, 0⟩, ⟨2, 2⟩⟩ ∧ Proper ⟨⟨5, 5⟩, ⟨2, 2⟩⟩) ∧
    ((∀ x y, (intersection ⟨⟨0, 0⟩, ⟨2, 2⟩⟩ ⟨⟨5, 5⟩, ⟨2, 2⟩⟩).Contains x y ↔
          Contains ⟨⟨0, 0⟩, ⟨2, 2⟩⟩ x y ∧ Contains ⟨⟨5, 5⟩, ⟨2, 2⟩⟩ x y) ∧
        (overlaps ⟨⟨0, 0⟩, ⟨2, 2⟩⟩ ⟨⟨5, 5⟩, ⟨2, 2⟩⟩ = true ↔
          ∃ x y, Contains ⟨⟨0, 0⟩, ⟨2, 2⟩⟩ x y ∧ Contains ⟨⟨5, 5⟩, ⟨2, 2⟩⟩ x y) ∧
        ((2 : I32) ≠ 0 → (2 : I32) ≠ 0 →
          (isWithin ⟨⟨0, 0⟩, ⟨2, 2⟩⟩ ⟨⟨5, 5⟩, ⟨2, 2⟩⟩ = true ↔
            ∀ x y, Contains ⟨⟨0, 0⟩, ⟨2, 2⟩⟩ x y → Contains ⟨⟨5, 5⟩, ⟨2, 2⟩⟩ x y))) := by
  have hr : Proper ⟨⟨0, 0⟩, ⟨2, 2⟩⟩ := ⟨by decide, by decide, by decide, by decide⟩
  have hother : Proper ⟨⟨5, 5⟩, ⟨2, 2⟩⟩ := ⟨by decide, by decide, by decide, by decide⟩
  refine ⟨⟨hr, hother⟩, (setSemantics_iff hr hother).mpr ?_⟩
  have hleft : (0 : I32).toInt = 0 := rfl
  have hsize : (2 : I32).toInt = 2 := rfl
  have hright : (5 : I32).toInt = 5 := rfl
  unfold MeetAlike HasColumn HasRow
  dsimp only
  rw [hleft, hsize, hright]

/-- Two that are side by side in the same rows. -/
theorem overlaps_fails : ¬ ∀ r other : Rect, r.Proper → other.Proper →
    ((∀ x y, (r.intersection other).Contains x y ↔ r.Contains x y ∧ other.Contains x y) ∧
      (r.overlaps other = true ↔ ∃ x y, r.Contains x y ∧ other.Contains x y) ∧
      (r.size.x ≠ 0 → r.size.y ≠ 0 →
        (r.isWithin other = true ↔ ∀ x y, r.Contains x y → other.Contains x y))) := by
  intro h
  have hoverlaps := (h ⟨⟨0, 0⟩, ⟨2, 2⟩⟩ ⟨⟨5, 0⟩, ⟨2, 2⟩⟩
    ⟨by decide, by decide, by decide, by decide⟩ ⟨by decide, by decide, by decide, by decide⟩).2.1
  obtain ⟨x, y, ⟨⟨-, hleft⟩, -⟩, ⟨hright, -⟩, -⟩ := hoverlaps.mp (by decide)
  have hzero : (0 : I32).toInt = 0 := rfl
  have hsize : (2 : I32).toInt = 2 := rfl
  have hfive : (5 : I32).toInt = 5 := rfl
  dsimp only at hleft hright
  omega

end Pair

end Rect

end BekOS.Libwindow
