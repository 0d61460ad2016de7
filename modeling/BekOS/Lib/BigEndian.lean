import BekOS.Lib.Bitmap

/-!
# Big-endian numbers

`beNat` is the number that a list of bytes spells, the highest byte first, and `beBytes` spells a
number in so many bytes.
-/

namespace BekOS

/-- The number that the bytes spell. -/
def beNat : List Byte → ℕ
  | [] => 0
  | byte :: rest => byte.toNat * 256 ^ rest.length + beNat rest

/-- The bytes that spell a number. -/
def beBytes : ℕ → ℕ → List Byte
  | 0, _ => []
  | width + 1, value => BitVec.ofNat 8 (value / 256 ^ width) :: beBytes width value

@[simp] theorem length_beBytes (width value : ℕ) : (beBytes width value).length = width := by
  induction width with
  | zero => rfl
  | succ width ih => rw [beBytes, List.length_cons, ih]

/-- What is spelled is read back, as far as the bytes hold it. -/
theorem beNat_beBytes (width value : ℕ) : beNat (beBytes width value) = value % 256 ^ width := by
  induction width with
  | zero => exact (Nat.mod_one value).symm
  | succ width ih =>
      have hsplit : value % 256 ^ (width + 1) =
          value % 256 ^ width + 256 ^ width * (value / 256 ^ width % 256) := by
        rw [pow_succ, Nat.mod_mul]
      rw [beBytes, beNat, length_beBytes, ih, BitVec.toNat_ofNat, hsplit, Nat.mul_comm,
        Nat.add_comm]

end BekOS
