import Mathlib.Logic.Function.Basic
import Mathlib.Tactic.SplitIfs
import Mathlib.Algebra.Group.Nat.Defs

/-!
# Copying a range

A memory is a total function from positions to bytes, so that a copy carries no
bounds of its own: `memcpy`, a transfer from a disk and a write to it are all
`copyRange`, and what each of them may reach is said where it is used.
-/

namespace BekOS

universe u

/-- A memory, a buffer or a disk, by position. -/
abbrev Memory (α : Type u) := ℕ → α

variable {α : Type u}

/-- The `len` places of `dst` from `dstOff` on, overwritten with those of `src`
from `srcOff` on. -/
def copyRange (dst : Memory α) (dstOff : ℕ) (src : Memory α) (srcOff len : ℕ) : Memory α :=
  fun i => if dstOff ≤ i ∧ i < dstOff + len then src (srcOff + (i - dstOff)) else dst i

section CopyRange

variable {dst src : Memory α} {dstOff srcOff len i : ℕ}

theorem copyRange_of_mem (hlow : dstOff ≤ i) (hhigh : i < dstOff + len) :
    copyRange dst dstOff src srcOff len i = src (srcOff + (i - dstOff)) :=
  if_pos ⟨hlow, hhigh⟩

theorem copyRange_of_not_mem (h : ¬ (dstOff ≤ i ∧ i < dstOff + len)) :
    copyRange dst dstOff src srcOff len i = dst i :=
  if_neg h

@[simp] theorem copyRange_zero (dst : Memory α) (dstOff : ℕ) (src : Memory α) (srcOff : ℕ) :
    copyRange dst dstOff src srcOff 0 = dst := by
  funext i
  exact copyRange_of_not_mem (by omega)

/-- Two copies, one after the other, are one copy. -/
theorem copyRange_append (dst : Memory α) (dstOff : ℕ) (src : Memory α) (srcOff m n : ℕ) :
    copyRange (copyRange dst dstOff src srcOff m) (dstOff + m) src (srcOff + m) n =
      copyRange dst dstOff src srcOff (m + n) := by
  funext i
  by_cases hwhole : dstOff ≤ i ∧ i < dstOff + (m + n)
  · rw [copyRange_of_mem hwhole.1 hwhole.2]
    by_cases hsecond : dstOff + m ≤ i ∧ i < dstOff + m + n
    · rw [copyRange_of_mem hsecond.1 hsecond.2]
      congr 1
      omega
    · rw [copyRange_of_not_mem hsecond, copyRange_of_mem hwhole.1 (by omega)]
  · rw [copyRange_of_not_mem (by omega), copyRange_of_not_mem (by omega),
      copyRange_of_not_mem hwhole]

/-- Only the places that are copied matter, however they are numbered. -/
theorem copyRange_congr {src' : Memory α} {srcOff' : ℕ}
    (h : ∀ j < len, src (srcOff + j) = src' (srcOff' + j)) :
    copyRange dst dstOff src srcOff len = copyRange dst dstOff src' srcOff' len := by
  funext i
  unfold copyRange
  split_ifs with hmem
  · exact h (i - dstOff) (by omega)
  · rfl

end CopyRange

/-! ## Slices -/

/-- The `len` values from `off` on. -/
def slice (mem : Memory α) (off len : ℕ) : List α := (List.range len).map fun j => mem (off + j)

section Slice

variable {mem mem' src : Memory α} {off off' len len' : ℕ}

@[simp] theorem length_slice (mem : Memory α) (off len : ℕ) : (slice mem off len).length = len := by
  rw [slice, List.length_map, List.length_range]

theorem getElem_slice (mem : Memory α) (off len : ℕ) {i : ℕ} (h : i < (slice mem off len).length) :
    (slice mem off len)[i] = mem (off + i) := by
  simp only [slice, List.getElem_map, List.getElem_range]

theorem slice_add (mem : Memory α) (off m n : ℕ) :
    slice mem off (m + n) = slice mem off m ++ slice mem (off + m) n := by
  rw [slice, List.range_add, List.map_append, List.map_map]
  refine congrArg (slice mem off m ++ ·) (List.map_congr_left fun j _ => ?_)
  show mem (off + (m + j)) = mem (off + m + j)
  rw [Nat.add_assoc]

/-- Only the places of the slice matter, however they are numbered. -/
theorem slice_congr (h : ∀ j < len, mem (off + j) = mem' (off' + j)) :
    slice mem off len = slice mem' off' len :=
  List.map_congr_left fun j hj => h j (List.mem_range.mp hj)

theorem slice_getD (values : List α) (filler : α) {n : ℕ} (h : n ≤ values.length) :
    slice (fun i => values.getD i filler) 0 n = values.take n := by
  refine List.ext_getElem (by rw [length_slice, List.length_take_of_le h]) fun i hi _ => ?_
  rw [length_slice] at hi
  rw [getElem_slice, Nat.zero_add, List.getElem_take, List.getD_eq_getElem?_getD,
    List.getElem?_eq_getElem (Nat.lt_of_lt_of_le hi h), Option.getD_some]

/-- What was copied is read back. -/
theorem slice_copyRange_self (mem src : Memory α) (off off' len : ℕ) :
    slice (copyRange mem off src off' len) off len = slice src off' len :=
  slice_congr fun j hj => by
    rw [copyRange_of_mem (Nat.le_add_right off j) (by omega), Nat.add_sub_cancel_left]

theorem slice_copyRange_of_disjoint {srcOff : ℕ} (h : off' + len' ≤ off ∨ off + len ≤ off') :
    slice (copyRange mem off src srcOff len) off' len' = slice mem off' len' :=
  slice_congr fun j hj => copyRange_of_not_mem (by omega)

end Slice

end BekOS
