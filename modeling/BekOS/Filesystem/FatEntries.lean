import BekOS.Lib.LittleEndian
import BekOS.Library.KernelError
import BekOS.Library.Time

/-!
# Directory slots

The 32-byte slots of a FAT directory as `filesystem/fat.cpp` reads them.  A slot
is an item or a piece of a long name, and which fields it has follows from that;
an entry of the directory is an item with the pieces collected before it, packed
into one `PackedFATEntry`.
-/

namespace BekOS

/-- `EntryType` -/
inductive EntryType where
  | Normal
  | EndOfDirectory
  | Deleted
  | LongFileName
  deriving DecidableEq

/-- A slot. -/
structure RawFATEntry where
  data : Vector Byte 32
  deriving DecidableEq

namespace RawFATEntry

/-- The bytes, by position. -/
def byte (e : RawFATEntry) : Memory Byte := fun i => e.data[i]?.getD 0

/-- `type` -/
def type (e : RawFATEntry) : EntryType :=
  if e.byte 0 = 0 then .EndOfDirectory
  else if e.byte 0 = 0xE5 then .Deleted
  else if e.byte 11 &&& 0x0F = 0x0F then .LongFileName
  else .Normal

/-! ### The fields of an item -/

/-- `fatname` -/
def fatname (e : RawFATEntry) : List Byte := (List.range 11).map e.byte

/-- `attrib` -/
def attrib (e : RawFATEntry) : Byte := e.byte 11

/-- `create_time` -/
def createTime (e : RawFATEntry) : ℕ := leRead e.byte 14 2

/-- `create_date` -/
def createDate (e : RawFATEntry) : ℕ := leRead e.byte 16 2

/-- `access_date` -/
def accessDate (e : RawFATEntry) : ℕ := leRead e.byte 18 2

/-- `cluster_high` -/
def clusterHigh (e : RawFATEntry) : ℕ := leRead e.byte 20 2

/-- `modify_time` -/
def modifyTime (e : RawFATEntry) : ℕ := leRead e.byte 22 2

/-- `modify_date` -/
def modifyDate (e : RawFATEntry) : ℕ := leRead e.byte 24 2

/-- `cluster_low` -/
def clusterLow (e : RawFATEntry) : ℕ := leRead e.byte 26 2

/-- `size` -/
def size (e : RawFATEntry) : ℕ := leRead e.byte 28 4

/-! ### The fields of a piece of a long name -/

/-- `order` -/
def order (e : RawFATEntry) : Byte := e.byte 0

/-- `checksum` -/
def checksum (e : RawFATEntry) : Byte := e.byte 13

/-- The units of `first_chars`, `next_chars` and `final_chars`. -/
def chars (e : RawFATEntry) : List ℕ :=
  (List.range 5).map (fun i => leRead e.byte (1 + 2 * i) 2) ++
    (List.range 6).map (fun i => leRead e.byte (14 + 2 * i) 2) ++
    (List.range 2).map (fun i => leRead e.byte (28 + 2 * i) 2)

end RawFATEntry

/-! ## Names -/

/-- What a C string keeps of its characters. -/
def cString (chars : List Byte) : List Byte := chars.takeWhile (· ≠ 0)

/-- `checksum_shortname`: each round rotates the checksum and adds a character. -/
def checksumShortname (name : List Byte) : Byte :=
  name.foldl (fun checksum i =>
    (if checksum &&& 1 ≠ 0 then 0x80#8 else 0) + (checksum >>> 1) + i) 0

/-- The space that pads a short name. -/
def space : Byte := 0x20

/-- `short_name_to_string`.  The form with a dot goes through `format`, which ends
in a C string. -/
def shortNameToString (name : List Byte) : List Byte :=
  let main := (name.take 8).takeWhile (· ≠ space)
  let ext := (name.drop 8).takeWhile (· ≠ space)
  if ext = [] then main else cString (main ++ 0x2E :: ext)

/-! ## Entries -/

/-- `BasicFATEntry` -/
structure BasicFATEntry where
  name : List Byte
  creationTimestamp : ℕ
  accessedTimestamp : ℕ
  modifiedTimestamp : ℕ
  size : ℕ
  dataCluster : ℕ
  rawAttributes : Byte
  deriving DecidableEq

/-- `FATEntryLocation` -/
structure FATEntryLocation where
  directoryStartCluster : ℕ
  indexInDirectory : ℕ
  deriving DecidableEq

/-- `LocatedFATEntry` -/
structure LocatedFATEntry where
  entry : BasicFATEntry
  location : FATEntryLocation
  deriving DecidableEq

/-- `BasicFATEntry::is_directory` -/
def BasicFATEntry.isDirectory (entry : BasicFATEntry) : Prop := entry.rawAttributes &&& 0x10 ≠ 0
deriving Decidable

/-- The bytes of a slot, from those of a memory. -/
def RawFATEntry.ofMemory (bytes : Memory Byte) (offset : ℕ) : RawFATEntry where
  data := Vector.ofFn fun i => bytes (offset + i)

/-- `RawFATItemEntry::from`: the item with a short name that is given.  The date of
the last access becomes that of the last change. -/
def RawFATEntry.fromBasic (fatname : List Byte) (entry : BasicFATEntry) : RawFATEntry :=
  let creation := UnixTimestamp.decompose entry.creationTimestamp
  let modified := UnixTimestamp.decompose entry.modifiedTimestamp
  let named : Memory Byte := fun i => if i = 11 then entry.rawAttributes else fatname.getD i 0
  let created := leWrite (leWrite named 14 (dosTimeFrom creation) 2) 16 (dosDateFrom creation) 2
  let accessed := leWrite created 18 (dosDateFrom modified) 2
  let placed := leWrite accessed 20 (entry.dataCluster / 0x10000) 2
  let changed := leWrite (leWrite placed 22 (dosTimeFrom modified) 2) 24 (dosDateFrom modified) 2
  .ofMemory (leWrite (leWrite changed 26 entry.dataCluster 2) 28 entry.size 4) 0

/-- `PackedFATEntry`: the pieces collected, and the item that ends them. -/
structure PackedFATEntry where
  lfnEntries : List RawFATEntry
  entry : RawFATEntry
  deriving DecidableEq

namespace PackedFATEntry

/-- The loop of `extract_long_name` from piece `i` of `n` on.  It ends with the
first unit that is zero, whatever is behind it. -/
def writePieces (n : Byte) (checksum : Byte) :
    ℕ → List RawFATEntry → List Byte → Except ErrorCode (List Byte)
  | _, [], builder => .ok (cString builder)
  | i, e :: rest, builder =>
      if (e.order &&& 0x3F).toNat ≠ n.toNat - i then .error .EINVAL
      else if e.checksum ≠ checksum then .error .EINVAL
      else
        -- `write` takes a `char`, so a unit loses its high byte.
        let written := builder ++ (e.chars.takeWhile (· ≠ 0)).map (BitVec.ofNat 8)
        if 0 ∈ e.chars then .ok (cString written) else writePieces n checksum (i + 1) rest written

/-- `extract_long_name` -/
def extractLongName (packed : PackedFATEntry) : Except ErrorCode (List Byte) :=
  match packed.lfnEntries with
  | [] => .error .EINVAL
  | first :: _ =>
      if first.order &&& 0x40 = 0 then .error .EINVAL
      else if (first.order &&& 0x3F).toNat ≠ packed.lfnEntries.length then .error .EINVAL
      else
        writePieces (first.order &&& 0x3F) (checksumShortname packed.entry.fatname) 0
          packed.lfnEntries []

/-- `extract_name` -/
def extractName (packed : PackedFATEntry) : List Byte :=
  match packed.extractLongName with
  | .ok name => name
  | .error _ => shortNameToString packed.entry.fatname

/-- `to_basic` -/
def toBasic (packed : PackedFATEntry) : BasicFATEntry :=
  let e := packed.entry
  { name := packed.extractName
    creationTimestamp := UnixTimestamp.fromDecomposed (datetimeFromDos e.createDate e.createTime)
    accessedTimestamp := UnixTimestamp.fromDecomposed (datetimeFromDos e.accessDate 0)
    modifiedTimestamp := UnixTimestamp.fromDecomposed (datetimeFromDos e.modifyDate e.modifyTime)
    size := e.size
    dataCluster := e.clusterLow + e.clusterHigh * 0x10000
    rawAttributes := e.attrib }

end PackedFATEntry

end BekOS
