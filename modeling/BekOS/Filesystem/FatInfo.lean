import BekOS.Lib.LittleEndian
import Mathlib.Data.Nat.Bitwise

/-!
# The layout of a FAT volume

What `filesystem/fat.cpp` computes from a `FATInfo`: where the entry of a cluster
stands in the FAT, what it says, and where sectors and clusters begin on the
device; and the `FATInfo` that `fromBootSector` makes of a boot sector.  The
fields are `u32` and narrower, and `u32` marks the places where the source
computes in 32 bits.
-/

namespace BekOS

/-- What 32 bits hold of a number. -/
def u32 (n : ℕ) : ℕ := n % 0x100000000

/-- `FatType` -/
inductive FatType where
  | FAT12
  | FAT16
  | FAT32
  | ExFAT
  deriving DecidableEq

/-- `FATInfo`.  The root directory is a cluster on FAT32, and a range of sectors on
FAT16. -/
structure FATInfo where
  fatType : FatType
  sectorSize : ℕ
  sectorsPerCluster : ℕ
  fatBeginSector : ℕ
  fatSectors : ℕ
  rootDirCluster : ℕ
  rootStartSector : ℕ
  rootEntryCount : ℕ
  dataBeginSector : ℕ
  deriving DecidableEq

/-- `ClusterType` -/
inductive ClusterType where
  | NextPointer
  | EndOfChain
  | Free
  | Corrupt
  | Reserved
  deriving DecidableEq

/-- `CLUSTER_EOC` -/
def clusterEoc : ℕ := 0x0FFFFFFF

/-- `cluster_index` -/
def clusterIndex (cluster : ℕ) : ℕ := cluster &&& 0x0FFFFFFF

/-- `get_cluster_type` -/
def getClusterType (cluster : ℕ) : ClusterType :=
  let n := cluster &&& 0x0FFFFFFF
  if n ≤ 0xFFFFFEF ∧ n > 1 then .NextPointer
  else if n = 0 then .Free
  else if n ≥ 0xFFFFFF8 then .EndOfChain
  else if n = 0xFFFFFF7 then .Corrupt
  else .Reserved

namespace FATInfo

/-- The bytes of an entry of the FAT. -/
def entryWidth (info : FATInfo) : ℕ := if info.fatType = .FAT16 then 2 else 4

/-- `fat_sector_index_and_offset_for` -/
def fatSectorIndexAndOffsetFor (info : FATInfo) (cluster : ℕ) : ℕ × ℕ :=
  (u32 (cluster * info.entryWidth) / info.sectorSize,
    u32 (cluster * info.entryWidth) % info.sectorSize)

/-- `extract_fat_value`, which makes a FAT32 value of a FAT16 one. -/
def extractFatValue (info : FATInfo) (byteOffset : ℕ) (sector : Memory Byte) : ℕ :=
  if info.fatType = .FAT16 then
    let x := leRead sector byteOffset 2
    if x < 0xFFF7 then x else x ||| 0x0FFF0000
  else clusterIndex (leRead sector byteOffset 4)

/-- `set_fat_value` -/
def setFatValue (info : FATInfo) (byteOffset : ℕ) (sector : Memory Byte) (value : ℕ) :
    Memory Byte :=
  if info.fatType = .FAT16 then leWrite sector byteOffset value 2
  else
    leWrite sector byteOffset
      ((leRead sector byteOffset 4 &&& 0xF0000000) ||| (value &&& 0x0FFFFFFF)) 4

/-- `get_fat_entry_count` -/
def getFatEntryCount (info : FATInfo) : ℕ :=
  u32 (info.fatSectors * info.sectorSize) / info.entryWidth

/-- `cluster_size` -/
def clusterSize (info : FATInfo) : ℕ := info.sectorsPerCluster * info.sectorSize

/-- `cluster_byte_addr`; `none` when its assertion fails. -/
def clusterByteAddr (info : FATInfo) (cluster : ℕ) : Option ℕ :=
  if 2 ≤ cluster then
    some (u32 (info.dataBeginSector + info.sectorsPerCluster * (cluster - 2)) * info.sectorSize)
  else none

/-- `fat_sector_byte_addr`, where a sector is written to. -/
def fatSectorByteAddr (info : FATInfo) (sector : ℕ) : ℕ :=
  (info.fatBeginSector + sector) * info.sectorSize

/-- Where `fetch_fat_sector` reads a sector from, which it computes in 32 bits. -/
def fatSectorReadAddr (info : FATInfo) (sector : ℕ) : ℕ :=
  u32 ((info.fatBeginSector + sector) * info.sectorSize)

end FATInfo

/-- `fromBootSector`, once the sector has been read. -/
def fromBootSector (buffer : Memory Byte) : Option FATInfo :=
  if leRead buffer 0x1FE 2 ≠ 0xAA55 then none
  else
    let sectorSize := leRead buffer 11 2
    if sectorSize &&& (sectorSize - 1) ≠ 0 ∨ sectorSize < 512 ∨ sectorSize > 4096 then none
    else
      let sectorsPerCluster := leRead buffer 13 1
      let reservedSectors := leRead buffer 14 2
      let fatCount := leRead buffer 0x10 1
      let rootEntries16 := leRead buffer 17 2
      let totalSectors16 := leRead buffer 19 2
      let sectorsPerFat16 := leRead buffer 22 2
      let totalSectors32 := leRead buffer 32 4
      let sectorsPerFat32 := leRead buffer 36 4
      let rootBeginCluster32 := leRead buffer 44 4
      let totalSectors := if totalSectors16 = 0 then totalSectors32 else totalSectors16
      let sectorsPerFat := if sectorsPerFat16 = 0 then sectorsPerFat32 else sectorsPerFat16
      let rootDirSectors := (rootEntries16 * 32 + sectorSize - 1) / sectorSize
      let rootStart := u32 (reservedSectors + fatCount * sectorsPerFat)
      -- A division by zero gives zero on this processor, too.
      let totalClusters := totalSectors / sectorsPerCluster
      let fatType : FatType :=
        if totalClusters < 4085 then .FAT12 else if totalClusters < 65525 then .FAT16 else .FAT32
      if fatType = .FAT12 then none
      else
        some {
          fatType := fatType
          sectorSize := sectorSize
          sectorsPerCluster := sectorsPerCluster
          fatBeginSector := reservedSectors
          fatSectors := sectorsPerFat
          rootDirCluster := if fatType = .FAT32 then rootBeginCluster32 else 0
          rootStartSector := if fatType = .FAT32 then 0 else rootStart % 0x10000
          rootEntryCount := if fatType = .FAT32 then 0 else rootEntries16
          dataBeginSector := u32 (rootStart + rootDirSectors) }

end BekOS
