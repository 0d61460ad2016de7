import BekOS.Filesystem.FatContents

/-!
# The codes of the entries of a FAT

`extract_fat_value` makes FAT32 values of the codes of FAT16, and `set_fat_value` puts them back.
The codes from `0xFFF0` to `0xFFF6` are reserved, but are taken for numbers of clusters.
-/

namespace BekOS.FATInfo

/-- What a code of a FAT16 says. -/
def fat16Type (code : ℕ) : ClusterType :=
  if code = 0 then .Free
  else if 2 ≤ code ∧ code ≤ 0xFFEF then .NextPointer
  else if code ≥ 0xFFF8 then .EndOfChain
  else if code = 0xFFF7 then .Corrupt
  else .Reserved

/-- The number is that of a cluster, in a FAT so wide. -/
def IsClusterNumber (info : FATInfo) (value : ℕ) : Prop :=
  2 ≤ value ∧ value ≤ if info.fatType = .FAT16 then 0xFFEF else 0xFFFFFEF

/-- The value can be put into the FAT: that of a free cluster, the number of one, or the end. -/
def IsEntryValue (info : FATInfo) (value : ℕ) : Prop :=
  value = 0 ∨ info.IsClusterNumber value ∨ value = clusterEoc

/-- What is put into an entry is read back, and nothing else changes. -/
structure Stores (info : FATInfo) (offset : ℕ) (sector : Memory Byte) (value : ℕ) : Prop where
  sameType : getClusterType (info.extractFatValue offset (info.setFatValue offset sector value)) =
    getClusterType value
  sameValue : value = 0 ∨ info.IsClusterNumber value →
    info.extractFatValue offset (info.setFatValue offset sector value) = value
  reserved : info.fatType = .FAT32 →
    leRead (info.setFatValue offset sector value) offset 4 / 2 ^ 28 =
      leRead sector offset 4 / 2 ^ 28
  others : ∀ i, (i < offset ∨ offset + info.entryWidth ≤ i) →
    info.setFatValue offset sector value i = sector i

/-- The code of an entry of a FAT16 is read as what it says. -/
def Widens (info : FATInfo) (offset : ℕ) (sector : Memory Byte) : Prop :=
  info.fatType = .FAT16 →
    getClusterType (info.extractFatValue offset sector) = fat16Type (leRead sector offset 2)

variable {info : FATInfo} {offset : ℕ} {sector : Memory Byte} {value : ℕ}

theorem getClusterType_eq (h : value < 2 ^ 28) :
    getClusterType value =
      if value ≤ 0xFFFFFEF ∧ value > 1 then .NextPointer
      else if value = 0 then .Free
      else if value ≥ 0xFFFFFF8 then .EndOfChain
      else if value = 0xFFFFFF7 then .Corrupt
      else .Reserved := by
  have hmask : value &&& 0x0FFFFFFF = value :=
    (Nat.and_two_pow_sub_one_eq_mod value 28).trans (Nat.mod_eq_of_lt h)
  unfold getClusterType
  dsimp only
  rw [hmask]

theorem or_wide {code : ℕ} (h : code < 0x10000) : code ||| 0x0FFF0000 = 0x0FFF0000 + code := by
  have hor := Nat.two_pow_add_eq_or_of_lt (i := 16) h 0xFFF
  rw [Nat.lor_comm]
  exact hor.symm

/-- A code of a FAT16 is widened to one of the same type, unless it is one of the seven that are
reserved. -/
theorem widens_iff : info.Widens offset sector ↔
    ¬ (info.fatType = .FAT16 ∧ 0xFFF0 ≤ leRead sector offset 2 ∧
      leRead sector offset 2 ≤ 0xFFF6) := by
  unfold Widens
  by_cases h16 : info.fatType = .FAT16
  · have hlt : leRead sector offset 2 < 0x10000 := leRead_lt sector offset 2
    rw [imp_iff_right h16, and_iff_right h16, extractFatValue, if_pos h16]
    dsimp only
    generalize leRead sector offset 2 = code at *
    by_cases hsmall : code < 0xFFF7
    · rw [if_pos hsmall, getClusterType_eq (by omega), fat16Type]
      split_ifs <;> first | (exact iff_of_true rfl (by omega)) | (exfalso; omega) | skip
      all_goals exact iff_of_false (by decide) (by omega)
    · rw [if_neg hsmall, or_wide hlt, getClusterType_eq (by omega), fat16Type]
      split_ifs <;> first | (exact iff_of_true rfl (by omega)) | (exfalso; omega)
  · exact iff_of_true (fun h => absurd h h16) fun h => h16 h.1

theorem IsEntryValue.lt (h : info.IsEntryValue value) : value < 2 ^ 28 := by
  rcases h with rfl | ⟨-, hle⟩ | rfl
  · decide
  · split_ifs at hle <;> omega
  · decide

theorem IsEntryValue.storedValue (h : info.IsEntryValue value) :
    info.storedValue value = value := by
  have hlt := h.lt
  unfold FATInfo.storedValue
  by_cases h16 : info.fatType = .FAT16
  · rw [if_pos h16]
    rcases h with rfl | ⟨-, hle⟩ | rfl
    · rfl
    · rw [if_pos h16] at hle
      rw [Nat.mod_eq_of_lt (by omega), if_pos (by omega)]
    · rfl
  · rw [if_neg h16, clusterIndex_eq_mod]
    exact Nat.mod_eq_of_lt hlt

theorem setFatValue_reserved (h : info.fatType = .FAT32) :
    leRead (info.setFatValue offset sector value) offset 4 / 2 ^ 28 =
      leRead sector offset 4 / 2 ^ 28 := by
  have hold : leRead sector offset 4 < 2 ^ 32 := leRead_lt sector offset 4
  have hupper :
      (leRead sector offset 4 &&& 0xF0000000) >>> 28 = leRead sector offset 4 / 2 ^ 28 := by
    rw [Nat.shiftRight_and_distrib, Nat.shiftRight_eq_div_pow]
    refine (Nat.and_two_pow_sub_one_eq_mod _ 4).trans (Nat.mod_eq_of_lt ?_)
    omega
  have hlower : (value &&& 0x0FFFFFFF) >>> 28 = 0 := by
    rw [Nat.shiftRight_and_distrib]
    exact Nat.and_zero _
  have hfits : (leRead sector offset 4 &&& 0xF0000000) ||| (value &&& 0x0FFFFFFF) < 256 ^ 4 :=
    Nat.or_lt_two_pow (n := 32) (Nat.and_lt_two_pow _ (by decide))
      (Nat.and_lt_two_pow _ (by decide))
  rw [setFatValue, if_neg (by rw [h]; decide), leRead_leWrite, Nat.mod_eq_of_lt hfits,
    ← Nat.shiftRight_eq_div_pow, Nat.shiftRight_or_distrib, hupper, hlower, Nat.or_zero]

/-- **A value that is put into a FAT** is read back, and nothing else of the sector changes. -/
theorem stores_of_isEntryValue (h : info.IsEntryValue value) : info.Stores offset sector value where
  sameType := by rw [extractFatValue_setFatValue, h.storedValue]
  sameValue _ := by rw [extractFatValue_setFatValue, h.storedValue]
  reserved := setFatValue_reserved
  others i hi := by
    unfold entryWidth at hi
    unfold setFatValue
    split_ifs at hi ⊢
    · exact leWrite_of_not_mem (by omega)
    · exact leWrite_of_not_mem (by omega)

/-- **The entries of a FAT** hold what is put into them and are read as what they say, unless they
are of 16 bits and hold one of the reserved codes from `0xFFF0` to `0xFFF6`. -/
theorem stores_and_widens_iff (h : info.IsEntryValue value) :
    (info.Stores offset sector value ∧ info.Widens offset sector) ↔
      ¬ (info.fatType = .FAT16 ∧ 0xFFF0 ≤ leRead sector offset 2 ∧
        leRead sector offset 2 ≤ 0xFFF6) := by
  rw [and_iff_right (stores_of_isEntryValue h), widens_iff]

/-- The end of a chain, in the first entry of an empty FAT. -/
theorem stores_and_widens_iff_end :
    IsEntryValue ⟨.FAT16, 512, 4, 1, 32, 0, 65, 512, 97⟩ clusterEoc ∧
      ((Stores ⟨.FAT16, 512, 4, 1, 32, 0, 65, 512, 97⟩ 0 (fun _ => 0) clusterEoc ∧
          Widens ⟨.FAT16, 512, 4, 1, 32, 0, 65, 512, 97⟩ 0 (fun _ => 0)) ↔
        ¬ (FatType.FAT16 = .FAT16 ∧ 0xFFF0 ≤ leRead (fun _ => 0) 0 2 ∧
          leRead (fun _ => 0) 0 2 ≤ 0xFFF6)) :=
  ⟨Or.inr (Or.inr rfl), stores_and_widens_iff (Or.inr (Or.inr rfl))⟩

/-- A reserved code is read as the number of a cluster. -/
theorem widens_fails : ¬ ∀ (info : FATInfo) (offset : ℕ) (sector : Memory Byte) (value : ℕ),
    info.fatType = .FAT16 ∨ info.fatType = .FAT32 → info.IsEntryValue value →
      info.Stores offset sector value ∧ info.Widens offset sector := by
  intro h
  have hwidens := (h ⟨.FAT16, 512, 4, 1, 32, 0, 65, 512, 97⟩ 0
    (fun i => if i = 0 then 0xF0 else 0xFF) 0 (Or.inl rfl) (Or.inl rfl)).2
  exact widens_iff.mp hwidens (by decide)

end BekOS.FATInfo
