import BekOS.Lib.CopyRange
import Mathlib.Data.BitVec

/-!
# Bitmaps in a byte memory

Bit `index` of the bitmap at `base` is bit `index % 8` of the byte at
`base + index / 8`.  A bitmap has no length here: which bits belong to it, and
that two bitmaps do not overlap, is the business of whoever lays them out.
-/

namespace BekOS

open Function

/-- One byte. -/
abbrev Byte := BitVec 8

/-- The mask of bit `index` within its byte. -/
def bitMask (index : ℕ) : Byte := 1#8 <<< (index % 8)

/-- Bit `index` of the bitmap at `base`. -/
def testBit (mem : Memory Byte) (base index : ℕ) : Bool :=
  mem (base + index / 8) &&& bitMask index != 0#8

/-- Set or clear bit `index` of the bitmap at `base`. -/
def setBit (mem : Memory Byte) (base index : ℕ) (val : Bool) : Memory Byte :=
  update mem (base + index / 8)
    (if val then mem (base + index / 8) ||| bitMask index
      else mem (base + index / 8) &&& ~~~ bitMask index)

section Bitmap

variable {mem : Memory Byte} {base index : ℕ} {val : Bool}

theorem getLsbD_bitMask (index bit : ℕ) :
    (bitMask index).getLsbD bit = decide (bit = index % 8) := by
  have hlt : index % 8 < 8 := Nat.mod_lt _ (by decide)
  unfold bitMask
  rw [BitVec.getLsbD_shiftLeft, BitVec.getLsbD_one]
  by_cases hbit : bit = index % 8
  · subst hbit
    simp [hlt]
  · simp only [hbit, decide_false]
    by_cases hbelow : bit < index % 8
    · simp [hbelow]
    · have : bit - index % 8 ≠ 0 := by omega
      simp [this]

theorem testBit_eq_getLsbD :
    testBit mem base index = (mem (base + index / 8)).getLsbD (index % 8) := by
  have hlt : index % 8 < 8 := Nat.mod_lt _ (by decide)
  unfold testBit
  rw [Bool.eq_iff_iff, bne_iff_ne]
  constructor
  · intro hne
    by_contra hbit
    apply hne
    apply BitVec.eq_of_getLsbD_eq
    intro i hi
    rw [BitVec.getLsbD_and, getLsbD_bitMask]
    by_cases heq : i = index % 8
    · subst heq
      rw [Bool.eq_false_iff.mpr hbit, Bool.false_and, BitVec.getLsbD_zero]
    · rw [decide_eq_false heq, Bool.and_false, BitVec.getLsbD_zero]
  · intro hbit heq
    have := congrArg (fun byte : Byte => byte.getLsbD (index % 8)) heq
    simp [BitVec.getLsbD_and, getLsbD_bitMask, hbit] at this

/-- Only the byte the bit lies in matters. -/
theorem testBit_congr {mem' : Memory Byte}
    (h : mem' (base + index / 8) = mem (base + index / 8)) :
    testBit mem' base index = testBit mem base index := by
  unfold testBit
  rw [h]

theorem setBit_of_ne {i : ℕ} (h : i ≠ base + index / 8) : setBit mem base index val i = mem i :=
  update_of_ne h _ _

@[simp] theorem testBit_setBit_self : testBit (setBit mem base index val) base index = val := by
  have hlt : index % 8 < 8 := Nat.mod_lt _ (by decide)
  rw [testBit_eq_getLsbD]
  unfold setBit
  rw [update_self]
  cases val <;> simp [getLsbD_bitMask, hlt]

/-- The other bits of the bitmap stay. -/
theorem testBit_setBit_ne {other : ℕ} (h : other ≠ index) :
    testBit (setBit mem base index val) base other = testBit mem base other := by
  by_cases hbyte : other / 8 = index / 8
  · have hbit : other % 8 ≠ index % 8 := by omega
    have hlt : other % 8 < 8 := Nat.mod_lt _ (by decide)
    rw [testBit_eq_getLsbD, testBit_eq_getLsbD, hbyte]
    unfold setBit
    rw [update_self]
    cases val with
    | false =>
        rw [if_neg Bool.false_ne_true, BitVec.getLsbD_and, BitVec.getLsbD_not, getLsbD_bitMask,
          decide_eq_false hbit]
        simp [hlt]
    | true =>
        rw [if_pos rfl, BitVec.getLsbD_or, getLsbD_bitMask, decide_eq_false hbit,
          Bool.or_false]
  · exact testBit_congr (setBit_of_ne (by omega))

/-- A bitmap that does not share the byte stays as it is. -/
theorem testBit_setBit_apart {base' other : ℕ} (h : base' + other / 8 ≠ base + index / 8) :
    testBit (setBit mem base index val) base' other = testBit mem base' other :=
  testBit_congr (setBit_of_ne h)

end Bitmap

end BekOS
