import BekOS.Arch.TranslationTables
import Mathlib.Tactic.IntervalCases

/-!
# What the descriptors carry

The codes, addresses and attributes of the three descriptors `map_region` writes,
read back by the walk.  The address field of a block descriptor starts at bit 21
for both block sizes; the walk of a 1 GiB block reads it from bit 30.
-/

namespace BekOS

open BitField

/-! ## Indices, sizes and alignment -/

theorem tableIndex_eq (height : ℕ) (virt : U64) :
    tableIndex height virt = virt.toNat / 2 ^ shifts height % 512 := by
  unfold tableIndex ptIndexMask
  rw [BitVec.toNat_and, BitVec.toNat_ushiftRight, Nat.shiftRight_eq_div_pow]
  exact Nat.and_two_pow_sub_one_eq_mod _ 9

theorem tableIndex_lt (height : ℕ) (virt : U64) : tableIndex height virt < 512 := by
  rw [tableIndex_eq]
  exact Nat.mod_lt _ (by omega)

theorem sizes_eq_ofNat {height : ℕ} (h : height ≤ 3) :
    sizes height = BitVec.ofNat 64 (2 ^ shifts height) := by
  interval_cases height <;> rfl

theorem isAligned_iff {height : ℕ} (h : height ≤ 3) (address : U64) :
    isAligned height address = true ↔ address.toNat % 2 ^ shifts height = 0 := by
  have hmask : (sizes height - 1).toNat = 2 ^ shifts height - 1 := by
    interval_cases height <;> rfl
  unfold isAligned
  rw [beq_iff_eq, ← BitVec.toNat_inj, BitVec.toNat_and, hmask,
    Nat.and_two_pow_sub_one_eq_mod]
  rfl

/-! ## Codes -/

@[simp] theorem descriptorCode_createL3Entry (physAddr flags : U64) :
    descriptorCode (createL3Entry physAddr flags) = ptLowerBlockDescriptor :=
  getField_setField_same _ 0 ptLowerBlockDescriptor (by omega)

@[simp] theorem descriptorCode_createTableEntry (nextTable : Page) :
    descriptorCode (createTableEntry nextTable) = ptUpperTableDescriptor := by
  unfold descriptorCode createTableEntry
  rw [getField_setField_disjoint _ 12 nextTable (by omega) (by omega)]
  exact getField_setField_same _ 0 ptUpperTableDescriptor (by omega)

@[simp] theorem descriptorCode_createBlockEntry (rawPtr flags : U64) :
    descriptorCode (createBlockEntry rawPtr flags) = ptUpperBlockDescriptor := by
  unfold descriptorCode createBlockEntry
  rw [getField_setField_disjoint _ 21 _ (by omega) (by omega)]
  exact getField_setField_same _ 0 ptUpperBlockDescriptor (by omega)

@[simp] theorem descriptorCode_createNull :
    descriptorCode createNull = ptInvalidDescriptor := by decide

@[simp] theorem tablePage_createTableEntry (nextTable : Page) :
    tablePage (createTableEntry nextTable) = nextTable :=
  getField_setField_same _ 12 nextTable (by omega)

/-! ## Addresses -/

theorem getField_createL3Entry (physAddr flags : U64) :
    getField (createL3Entry physAddr flags) 12 36 = getField physAddr 12 36 := by
  unfold createL3Entry
  rw [getField_setField_disjoint _ 0 _ (by omega) (by omega),
    getField_setField_same _ 12 _ (by omega)]
  refine BitVec.eq_of_getLsbD_eq fun i hi => ?_
  rw [getLsbD_getField, BitVec.getLsbD_setWidth, BitVec.getLsbD_ushiftRight]
  rfl

/-- The high bits of a block descriptor's address are those of the block, for
every block size. -/
theorem getField_createBlockEntry (rawPtr flags : U64) {start : ℕ} (hlow : 21 ≤ start)
    (hhigh : start ≤ 48) :
    getField (createBlockEntry rawPtr flags) start (48 - start) =
      getField rawPtr start (48 - start) := by
  refine BitVec.eq_of_getLsbD_eq fun i hi => ?_
  have hbit : start + i - 21 < 27 := by omega
  have hsum : shifts 1 + (start + i - 21) = start + i := by unfold shifts; omega
  rw [createBlockEntry, getLsbD_getField, getLsbD_getField,
    getLsbD_setField _ 21 _ (by omega), if_pos (by omega)]
  simp [hbit, hsum]

theorem toNat_getField_of_lt {y : ℕ} (hy : y < 2 ^ 48) {start : ℕ} (hstart : start ≤ 48) :
    (getField (BitVec.ofNat 64 y) start (48 - start)).toNat = y / 2 ^ start := by
  have hlt : y < 2 ^ 64 := lt_trans hy (by decide)
  rw [getField, BitVec.extractLsb'_toNat, BitVec.toNat_ofNat, Nat.mod_eq_of_lt hlt,
    Nat.shiftRight_eq_div_pow, Nat.mod_eq_of_lt]
  refine Nat.div_lt_of_lt_mul ?_
  rwa [← Nat.pow_add, Nat.add_sub_cancel' hstart]

/-! ## Attributes -/

theorem getLsbD_attributeMask {i : ℕ} (h : attributeMask.getLsbD i = true) :
    (2 ≤ i ∧ i < 12) ∨ 50 ≤ i := by
  by_contra hout
  have hbits : ∀ i < 50, attributeMask.getLsbD i = true → 2 ≤ i ∧ i < 12 := by decide
  have := hbits i (by omega) h
  omega

theorem and_attributeMask_congr {entry flags : U64}
    (h : ∀ i, (2 ≤ i ∧ i < 12) ∨ 50 ≤ i → entry.getLsbD i = flags.getLsbD i) :
    entry &&& attributeMask = flags &&& attributeMask := by
  refine BitVec.eq_of_getLsbD_eq fun i hi => ?_
  rw [BitVec.getLsbD_and, BitVec.getLsbD_and]
  cases hmask : attributeMask.getLsbD i with
  | false => simp
  | true => rw [h i (getLsbD_attributeMask hmask)]

theorem attributes_createL3Entry (physAddr flags : U64) :
    createL3Entry physAddr flags &&& attributeMask = flags &&& attributeMask := by
  refine and_attributeMask_congr fun i hi => ?_
  rw [createL3Entry, getLsbD_setField _ 0 _ (by omega), if_neg (by omega),
    getLsbD_setField _ 12 _ (by omega), if_neg (by omega)]

theorem attributes_createBlockEntry (rawPtr flags : U64) :
    createBlockEntry rawPtr flags &&& attributeMask = flags &&& attributeMask := by
  refine and_attributeMask_congr fun i hi => ?_
  rw [createBlockEntry, getLsbD_setField _ 21 _ (by omega), if_neg (by omega),
    getLsbD_setField _ 0 _ (by omega), if_neg (by omega)]

/-! ## Outputs -/

theorem output_createL3Entry {y : ℕ} (hy : y < 2 ^ 48) (haligned : y % 2 ^ shifts 0 = 0)
    (flags virt : U64) :
    output 0 (createL3Entry (BitVec.ofNat 64 y) flags) virt =
      { address := y + virt.toNat % 2 ^ shifts 0, attributes := flags &&& attributeMask } := by
  have hfield := getField_createL3Entry (BitVec.ofNat 64 y) flags
  have hvalue := toNat_getField_of_lt hy (show 12 ≤ 48 by omega)
  simp only [output, attributes_createL3Entry]
  congr 2
  change (getField _ 12 36).toNat * _ = y
  rw [hfield, hvalue]
  exact Nat.div_mul_cancel (Nat.dvd_of_mod_eq_zero haligned)

theorem output_createBlockEntry {y height : ℕ} (hheight : height = 2 ∨ height = 1)
    (hy : y < 2 ^ 48) (haligned : y % 2 ^ shifts height = 0) (flags virt : U64) :
    output height (createBlockEntry (BitVec.ofNat 64 y) flags) virt =
      { address := y + virt.toNat % 2 ^ shifts height
        attributes := flags &&& attributeMask } := by
  have hlow : 21 ≤ shifts height := by unfold shifts; omega
  have hhigh : shifts height ≤ 48 := by unfold shifts; omega
  simp only [output, attributes_createBlockEntry]
  rw [getField_createBlockEntry _ _ hlow hhigh, toNat_getField_of_lt hy hhigh,
    Nat.div_mul_cancel (Nat.dvd_of_mod_eq_zero haligned)]

/-! ## One step of the walk -/

section Walk

variable {mem : TableMemory} {table : Page} {virt entry : U64} {height : ℕ}

theorem walkFrom_congr_entry {mem' : TableMemory}
    (h : mem' table (tableIndex 0 virt) = mem table (tableIndex 0 virt)) :
    walkFrom mem' 0 table virt = walkFrom mem 0 table virt := by
  simp only [walkFrom, h]

theorem walkFrom_of_page (h : mem table (tableIndex 0 virt) = entry)
    (hcode : descriptorCode entry = ptLowerBlockDescriptor) :
    walkFrom mem 0 table virt = some (0, entry) := by
  simp only [walkFrom, h, if_pos hcode]

theorem walkFrom_of_block (h : mem table (tableIndex (height + 1) virt) = entry)
    (hcode : descriptorCode entry = ptUpperBlockDescriptor) (hheight : height + 1 < 3) :
    walkFrom mem (height + 1) table virt = some (height + 1, entry) := by
  have hnot : ¬ descriptorCode entry = ptUpperTableDescriptor := by
    rw [hcode]
    decide
  simp only [walkFrom, h, if_neg hnot, if_pos (And.intro hcode hheight)]

theorem walkFrom_of_invalid (h : mem table (tableIndex height virt) = entry)
    (hcode : descriptorCode entry = ptInvalidDescriptor) :
    walkFrom mem height table virt = none := by
  cases height with
  | zero =>
      have hnot : ¬ descriptorCode entry = ptLowerBlockDescriptor := by
        rw [hcode]
        decide
      simp only [walkFrom, h, if_neg hnot]
  | succ height =>
      have htable : ¬ descriptorCode entry = ptUpperTableDescriptor := by
        rw [hcode]
        decide
      have hblock : ¬ (descriptorCode entry = ptUpperBlockDescriptor ∧ height + 1 < 3) := by
        rw [hcode]
        exact fun h => absurd h.1 (by decide)
      simp only [walkFrom, h, if_neg htable, if_neg hblock]

end Walk

end BekOS
