import BekOS.Filesystem.FatInfo

/-!
# Reading a boot sector

What the FAT specification says of a volume by the fields of its boot sector, and
when `fromBootSector` reads the volume as it says.  The specification counts the
clusters of the data area.  The code divides the number of all sectors, by a field
it does not look at before.
-/

namespace BekOS

namespace BootSector

/-! ## The fields -/

section Fields

variable (buffer : Memory Byte)

/-- The bytes of a sector. -/
def sectorSize : ℕ := leRead buffer 11 2

/-- The sectors of a cluster. -/
def sectorsPerCluster : ℕ := leRead buffer 13 1

/-- The sectors of the volume. -/
def totalSectors : ℕ :=
  if leRead buffer 19 2 = 0 then leRead buffer 32 4 else leRead buffer 19 2

/-- The sectors of a FAT. -/
def sectorsPerFat : ℕ :=
  if leRead buffer 22 2 = 0 then leRead buffer 36 4 else leRead buffer 22 2

/-- The sector behind the reserved ones and the FATs. -/
def rootStart : ℕ := leRead buffer 14 2 + leRead buffer 0x10 1 * sectorsPerFat buffer

/-- The sectors of a root directory that is not in clusters. -/
def rootDirSectors : ℕ := (leRead buffer 17 2 * 32 + sectorSize buffer - 1) / sectorSize buffer

/-- The first sector of cluster 2. -/
def dataBegin : ℕ := rootStart buffer + rootDirSectors buffer

/-- The number of clusters in the data area. -/
def dataClusters : ℕ := (totalSectors buffer - dataBegin buffer) / sectorsPerCluster buffer

/-- The boot sector of a volume, as far as `fromBootSector` looks before it computes. -/
def Recognised : Prop :=
  leRead buffer 0x1FE 2 = 0xAA55 ∧ sectorSize buffer &&& (sectorSize buffer - 1) = 0 ∧
    512 ≤ sectorSize buffer ∧ sectorSize buffer ≤ 4096

end Fields

/-- The type of a volume of so many clusters. -/
def typeOf (clusters : ℕ) : FatType :=
  if clusters < 4085 then .FAT12 else if clusters < 65525 then .FAT16 else .FAT32

/-! ## What is computed -/

variable {buffer : Memory Byte}

theorem fromBootSector_eq (h : Recognised buffer) :
    fromBootSector buffer =
      (let fatType := typeOf (totalSectors buffer / sectorsPerCluster buffer)
      if fatType = .FAT12 then none
      else
        some {
          fatType := fatType
          sectorSize := sectorSize buffer
          sectorsPerCluster := sectorsPerCluster buffer
          fatBeginSector := leRead buffer 14 2
          fatSectors := sectorsPerFat buffer
          rootDirCluster := if fatType = .FAT32 then leRead buffer 44 4 else 0
          rootStartSector := if fatType = .FAT32 then 0 else u32 (rootStart buffer) % 0x10000
          rootEntryCount := if fatType = .FAT32 then 0 else leRead buffer 17 2
          dataBeginSector := u32 (u32 (rootStart buffer) + rootDirSectors buffer) }) := by
  obtain ⟨hsignature, hpower, hlow, hhigh⟩ := h
  unfold fromBootSector
  rw [if_neg (not_not_intro hsignature)]
  dsimp only
  rw [if_neg (by unfold sectorSize at *; omega)]
  rfl

theorem fromBootSector_of_not_recognised (h : ¬ Recognised buffer) :
    fromBootSector buffer = none := by
  unfold fromBootSector
  by_cases hsignature : leRead buffer 0x1FE 2 = 0xAA55
  · rw [if_neg (not_not_intro hsignature)]
    refine if_pos ?_
    by_contra hrest
    push Not at hrest
    exact h ⟨hsignature, hrest⟩
  · exact if_pos hsignature

theorem of_fromBootSector {info : FATInfo} (h : fromBootSector buffer = some info) :
    Recognised buffer ∧
      info.fatType = typeOf (totalSectors buffer / sectorsPerCluster buffer) ∧
      info.sectorSize = sectorSize buffer := by
  by_cases recognised : Recognised buffer
  · rw [fromBootSector_eq recognised] at h
    by_cases htype : typeOf (totalSectors buffer / sectorsPerCluster buffer) = .FAT12
    · rw [htype, if_pos rfl] at h
      cases h
    · have h := (if_neg htype).symm.trans h
      cases h
      exact ⟨recognised, rfl, rfl⟩
  · rw [fromBootSector_of_not_recognised recognised] at h
    cases h

/-! ## The specification -/

/-- **The volume is read as the specification says**: no division is by zero, the type is
that of the number of clusters, and what is returned has the numbers that the fields
say. -/
structure ReadsRight (buffer : Memory Byte) : Prop where
  divides : Recognised buffer → sectorsPerCluster buffer ≠ 0
  fatType : Recognised buffer → (fromBootSector buffer).map FATInfo.fatType =
    if typeOf (dataClusters buffer) = .FAT12 then none else some (typeOf (dataClusters buffer))
  cluster : ∀ info, fromBootSector buffer = some info → ∃ n, info.sectorsPerCluster = 2 ^ n
  dataBegin : ∀ info, fromBootSector buffer = some info →
    info.dataBeginSector = BootSector.dataBegin buffer
  rootStart : ∀ info, fromBootSector buffer = some info → info.fatType ≠ .FAT32 →
    info.rootStartSector = BootSector.rootStart buffer

/-- No limit of the types lies above the number of clusters in the data area and not
above the number of clusters there would be without the sectors before it. -/
def LimitsClear (buffer : Memory Byte) : Prop :=
  ∀ limit : ℕ, limit = 4085 ∨ limit = 65525 → dataClusters buffer < limit →
    totalSectors buffer / sectorsPerCluster buffer < limit

/-- What is asked of the fields of a boot sector. -/
def Sound (buffer : Memory Byte) : Prop :=
  Recognised buffer → sectorsPerCluster buffer ≠ 0 ∧ LimitsClear buffer ∧
    (4085 ≤ dataClusters buffer → (∃ n, sectorsPerCluster buffer = 2 ^ n) ∧
      dataBegin buffer < 0x100000000 ∧
      (dataClusters buffer < 65525 → rootStart buffer < 0x10000))

theorem dataClusters_le : dataClusters buffer ≤ totalSectors buffer / sectorsPerCluster buffer :=
  Nat.div_le_div_right (Nat.sub_le _ _)

theorem typeOf_eq_iff {clusters clusters' : ℕ} (h : clusters ≤ clusters') :
    typeOf clusters' = typeOf clusters ↔
      ∀ limit : ℕ, limit = 4085 ∨ limit = 65525 → clusters < limit → clusters' < limit := by
  constructor
  · rintro heq limit (rfl | rfl) hlt
    · by_contra hge
      rw [typeOf, typeOf, if_neg hge, if_pos hlt] at heq
      split_ifs at heq
    · by_contra hge
      rw [typeOf, typeOf, if_neg (by omega), if_neg hge] at heq
      split_ifs at heq
  · intro hlimits
    have hlow := hlimits 4085 (Or.inl rfl)
    have hhigh := hlimits 65525 (Or.inr rfl)
    unfold typeOf
    split_ifs <;> first | rfl | omega

theorem typeOf_eq_fat12_iff {clusters : ℕ} : typeOf clusters = .FAT12 ↔ clusters < 4085 := by
  unfold typeOf
  split_ifs with hlow hhigh
  · exact iff_of_true rfl hlow
  · exact iff_of_false nofun hlow
  · exact iff_of_false nofun hlow

theorem typeOf_eq_fat32_iff {clusters : ℕ} : typeOf clusters = .FAT32 ↔ 65525 ≤ clusters := by
  unfold typeOf
  split_ifs with hlow hhigh
  · exact iff_of_false nofun (by omega)
  · exact iff_of_false nofun (by omega)
  · exact iff_of_true rfl (by omega)

theorem fatType_fromBootSector (h : Recognised buffer) :
    (fromBootSector buffer).map FATInfo.fatType =
      if typeOf (totalSectors buffer / sectorsPerCluster buffer) = .FAT12 then none
      else some (typeOf (totalSectors buffer / sectorsPerCluster buffer)) := by
  rw [fromBootSector_eq h]
  dsimp only
  split_ifs <;> rfl

theorem fatType_eq_iff (h : Recognised buffer) :
    (fromBootSector buffer).map FATInfo.fatType =
        (if typeOf (dataClusters buffer) = .FAT12 then none
          else some (typeOf (dataClusters buffer))) ↔ LimitsClear buffer := by
  unfold LimitsClear
  rw [fatType_fromBootSector h, ← typeOf_eq_iff dataClusters_le]
  constructor
  · intro heq
    split_ifs at heq with hcode hspec
    · rw [hcode, hspec]
    · exact Option.some_inj.mp heq
  · intro heq
    rw [heq]

theorem fields_fromBootSector (h : Recognised buffer)
    (htype : typeOf (totalSectors buffer / sectorsPerCluster buffer) ≠ .FAT12) :
    ∃ info, fromBootSector buffer = some info ∧
      info.fatType = typeOf (totalSectors buffer / sectorsPerCluster buffer) ∧
      info.sectorsPerCluster = sectorsPerCluster buffer ∧
      info.dataBeginSector = dataBegin buffer % 0x100000000 ∧
      (info.fatType ≠ .FAT32 → info.rootStartSector = rootStart buffer % 0x10000) := by
  refine ⟨_, (fromBootSector_eq h).trans (if_neg htype), rfl, rfl, ?_, fun hroot => ?_⟩
  · exact Nat.mod_add_mod _ _ _
  · dsimp only at hroot ⊢
    rw [if_neg hroot]
    exact Nat.mod_mod_of_dvd _ (by decide)

/-- **When a boot sector is read as the specification says.** -/
theorem readsRight_iff (buffer : Memory Byte) : ReadsRight buffer ↔ Sound buffer := by
  constructor
  · intro right h
    have hlimits := (fatType_eq_iff h).mp (right.fatType h)
    refine ⟨right.divides h, hlimits, fun hclusters => ?_⟩
    have htype := (typeOf_eq_iff dataClusters_le).mpr hlimits
    have hnot12 : typeOf (totalSectors buffer / sectorsPerCluster buffer) ≠ .FAT12 := by
      rw [htype, ne_eq, typeOf_eq_fat12_iff]
      omega
    obtain ⟨info, hinfo, hfound, hcluster, hbegin, hroot⟩ := fields_fromBootSector h hnot12
    refine ⟨hcluster ▸ right.cluster info hinfo, ?_, fun hfew => ?_⟩
    · rw [← right.dataBegin info hinfo, hbegin]
      exact Nat.mod_lt _ (by decide)
    · have hnot32 : info.fatType ≠ .FAT32 := fun h32 => by
        rw [hfound, htype, typeOf_eq_fat32_iff] at h32
        omega
      rw [← right.rootStart info hinfo hnot32, hroot hnot32]
      exact Nat.mod_lt _ (by decide)
  · intro sound
    -- What is returned, the fields of a sound boot sector bound.
    have hreturned : ∀ info, fromBootSector buffer = some info →
        (∃ n, info.sectorsPerCluster = 2 ^ n) ∧
          info.dataBeginSector = BootSector.dataBegin buffer ∧
          (info.fatType ≠ .FAT32 → info.rootStartSector = BootSector.rootStart buffer) := by
      intro info hinfo
      by_cases h : Recognised buffer
      · obtain ⟨-, hlimits, hlarge⟩ := sound h
        have htype := (typeOf_eq_iff dataClusters_le).mpr hlimits
        have hnot12 : typeOf (totalSectors buffer / sectorsPerCluster buffer) ≠ .FAT12 := by
          intro h12
          have hnone := (fromBootSector_eq h).trans (if_pos h12)
          rw [hinfo] at hnone
          cases hnone
        obtain ⟨info', hinfo', hfound, hcluster, hbegin, hroot⟩ := fields_fromBootSector h hnot12
        have hsame : info' = info := Option.some_inj.mp (hinfo'.symm.trans hinfo)
        subst hsame
        rw [htype, ne_eq, typeOf_eq_fat12_iff, not_lt] at hnot12
        obtain ⟨hpower, hsum, hstart⟩ := hlarge hnot12
        refine ⟨hcluster ▸ hpower, hbegin.trans (Nat.mod_eq_of_lt hsum), fun hnot32 => ?_⟩
        rw [hroot hnot32]
        rw [hfound, htype, ne_eq, typeOf_eq_fat32_iff, not_le] at hnot32
        exact Nat.mod_eq_of_lt (hstart hnot32)
      · rw [fromBootSector_of_not_recognised h] at hinfo
        cases hinfo
    exact
      { divides := fun h => (sound h).1
        fatType := fun h => (fatType_eq_iff h).mpr (sound h).2.1
        cluster := fun info hinfo => (hreturned info hinfo).1
        dataBegin := fun info hinfo => (hreturned info hinfo).2.1
        rootStart := fun info hinfo => (hreturned info hinfo).2.2 }

/-- A boot sector with these fields: sectors of 512 bytes, of a volume that has more than
0xFFFF. -/
def sample (sectorsPerCluster reserved fats rootEntries total sectorsPerFat : ℕ) : Memory Byte :=
  let shape := leWrite (leWrite (leWrite (fun _ => 0) 0x1FE 0xAA55 2) 11 512 2) 13
    sectorsPerCluster 1
  let areas := leWrite (leWrite (leWrite shape 14 reserved 2) 0x10 fats 1) 17 rootEntries 2
  leWrite (leWrite areas 32 total 4) 22 sectorsPerFat 2

/-- A cluster of no sectors; a volume of 65524 clusters that is taken for FAT32, since
the sectors before them are counted; clusters of three sectors; and a root directory
that does not begin below sector 65536. -/
theorem readsRight_fails :
    ¬ ReadsRight (sample 0 1 2 512 100000 100) ∧
      ¬ ReadsRight (sample 1 1 2 512 (65524 + 1 + 2 * 256 + 32) 256) ∧
      ¬ ReadsRight (sample 3 1 2 512 100000 100) ∧
      ¬ ReadsRight (sample 4 1 255 512 200000 300) := by
  refine ⟨fun right => ?_, fun right => ?_, fun right => ?_, fun right => ?_⟩
  · exact right.divides (by unfold Recognised; decide +kernel) (by decide +kernel)
  · exact absurd (right.fatType (by unfold Recognised; decide +kernel)) (by decide +kernel)
  · have hthree : (fromBootSector (sample 3 1 2 512 100000 100)).map FATInfo.sectorsPerCluster =
        some 3 := by decide +kernel
    obtain ⟨info, hinfo, hcluster⟩ := Option.map_eq_some_iff.mp hthree
    obtain ⟨n, hn⟩ := right.cluster info hinfo
    rw [hcluster] at hn
    cases n with
    | zero => omega
    | succ n =>
        rw [pow_succ] at hn
        omega
  · have hwrapped : (fromBootSector (sample 4 1 255 512 200000 300)).map
        (fun info => (info.fatType, info.rootStartSector)) = some (.FAT16, 10965) := by
      decide +kernel
    obtain ⟨info, hinfo, hfields⟩ := Option.map_eq_some_iff.mp hwrapped
    obtain ⟨htype, hstart⟩ := Prod.mk.injEq _ _ _ _ ▸ hfields
    have hroot := right.rootStart info hinfo (by rw [htype]; decide)
    rw [hstart] at hroot
    exact absurd hroot (by decide +kernel)

end BootSector

end BekOS
