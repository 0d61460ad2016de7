import BekOS.Lib.Bitmap

/-!
# Little-endian numbers in a memory

`leRead` is the number that `width` bytes of a memory spell, the lowest byte
first, and `leWrite` puts a number there.  Two numbers at places that do not
meet know nothing of each other.
-/

namespace BekOS

open Function

/-- The number in the `width` bytes from `off` on. -/
def leRead (bytes : Memory Byte) (off : ℕ) : ℕ → ℕ
  | 0 => 0
  | width + 1 => (bytes off).toNat + 256 * leRead bytes (off + 1) width

/-- The memory with a number in the `width` bytes from `off` on. -/
def leWrite (bytes : Memory Byte) (off : ℕ) (value : ℕ) : ℕ → Memory Byte
  | 0 => bytes
  | width + 1 => leWrite (update bytes off (BitVec.ofNat 8 value)) (off + 1)
      (value / 256) width

example (bytes : Memory Byte) : leRead (leWrite bytes 0 0x1234 2) 0 2 = 0x1234 := by
  simp [leRead, leWrite]

section LittleEndian

variable {bytes bytes' : Memory Byte} {off : ℕ}

theorem leRead_lt (bytes : Memory Byte) (off width : ℕ) : leRead bytes off width < 256 ^ width := by
  induction width generalizing off with
  | zero => exact Nat.one_pos
  | succ width ih =>
      have hbyte := (bytes off).isLt
      have hrest := ih (off + 1)
      rw [leRead, pow_succ]
      omega

/-- Only the bytes of the number matter. -/
theorem leRead_congr {off' width : ℕ} (h : ∀ i < width, bytes (off + i) = bytes' (off' + i)) :
    leRead bytes off width = leRead bytes' off' width := by
  induction width generalizing off off' with
  | zero => rfl
  | succ width ih =>
      have hfirst : bytes off = bytes' off' := h 0 (Nat.succ_pos width)
      have hrest : leRead bytes (off + 1) width = leRead bytes' (off' + 1) width :=
        ih fun i hi => by
          have := h (i + 1) (by omega)
          rwa [show off + (i + 1) = off + 1 + i by omega,
            show off' + (i + 1) = off' + 1 + i by omega] at this
      rw [leRead, leRead, hfirst, hrest]

theorem leWrite_of_not_mem {i value width : ℕ} (h : ¬ (off ≤ i ∧ i < off + width)) :
    leWrite bytes off value width i = bytes i := by
  induction width generalizing bytes off value with
  | zero => rfl
  | succ width ih =>
      rw [leWrite, ih (by omega), update_of_ne (by omega)]

/-- What was written is read back, as far as the bytes hold it. -/
theorem leRead_leWrite (bytes : Memory Byte) (off value width : ℕ) :
    leRead (leWrite bytes off value width) off width = value % 256 ^ width := by
  induction width generalizing bytes off value with
  | zero => exact (Nat.mod_one value).symm
  | succ width ih =>
      have hlow : (leWrite bytes off value (width + 1) off).toNat = value % 256 := by
        rw [leWrite, leWrite_of_not_mem (by omega), update_self]
        exact BitVec.toNat_ofNat value 8
      rw [leRead, hlow, leWrite, ih, pow_succ', Nat.mod_mul]

theorem leRead_leWrite_of_disjoint {off' value width width' : ℕ}
    (h : off' + width' ≤ off ∨ off + width ≤ off') :
    leRead (leWrite bytes off value width) off' width' = leRead bytes off' width' :=
  leRead_congr fun i hi => leWrite_of_not_mem (by omega)

end LittleEndian

end BekOS
