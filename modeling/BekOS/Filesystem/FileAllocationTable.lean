import BekOS.Filesystem.BlockCache
import BekOS.Filesystem.DirectoryList
import BekOS.Filesystem.FatInfo

/-!
# `FileAllocationTable`

The operations of `filesystem/fat.cpp` over the two block caches.  Each is a
function of the whole state; `none` is where an assertion fails on the way, or
where the operation does not return.
-/

namespace BekOS

/-- `FileAllocationTable` -/
structure FileAllocationTable where
  clusterCache : BlockCache
  fatCache : BlockCache
  info : FATInfo
  device : BlockDevice
  freeClusterHint : ℕ

namespace FATInfo

/-- How clusters move. -/
def clusterMoves (info : FATInfo) : BlockMoves where
  size := info.clusterSize
  readAddr := info.clusterByteAddr
  writeAddr := info.clusterByteAddr
  whole := false

/-- How sectors of the FAT move. -/
def fatMoves (info : FATInfo) : BlockMoves where
  size := info.sectorSize
  readAddr sector := some (info.fatSectorReadAddr sector)
  writeAddr sector := some (info.fatSectorByteAddr sector)
  whole := true

end FATInfo

namespace FileAllocationTable

/-- `CLUSTER_CACHE_MAX` -/
def clusterCacheMax : ℕ := 10

/-- `FAT_SECTOR_CACHE_MAX` -/
def fatSectorCacheMax : ℕ := 10

/-- The constructor. -/
def mount (info : FATInfo) (device : BlockDevice) (scratch : ℕ → Memory Byte) :
    FileAllocationTable where
  clusterCache := .new clusterCacheMax scratch
  fatCache := .new fatSectorCacheMax scratch
  info := info
  device := device
  freeClusterHint := 0

/-- Change a sector of the FAT that is in memory, and mark it. -/
def writeSector (fat : FileAllocationTable) (id : ℕ) (f : Memory Byte → Memory Byte) :
    FileAllocationTable :=
  { fat with
    fatCache := fat.fatCache.modify id fun sector =>
      (sector.withData (f sector.data)).setWholeDirty }

variable (hash : ℕ → ℕ)

/-- `fetch_fat_sector`, given the sectors the caller has. -/
def fetchFatSector (fat : FileAllocationTable) (pointers : List ℕ) (sector : ℕ) :
    Option (FileAllocationTable × ℕ) :=
  if sector < fat.info.fatSectors then
    (BlockCache.fetch hash fat.info.fatMoves pointers fat.fatCache fat.device sector true).map
      fun fetched => ({ fat with fatCache := fetched.1.1, device := fetched.1.2 }, fetched.2)
  else none

/-- `fetch_cluster` -/
def fetchCluster (fat : FileAllocationTable) (cluster : ℕ) (needsContent : Bool) :
    Option (FileAllocationTable × ℕ) :=
  (BlockCache.fetch hash fat.info.clusterMoves [] fat.clusterCache fat.device cluster
      needsContent).map
    fun fetched => ({ fat with clusterCache := fetched.1.1, device := fetched.1.2 }, fetched.2)

/-! ## The FAT -/

/-- `getNextCluster` -/
def getNextCluster (fat : FileAllocationTable) (currentCluster : ℕ) :
    Option (FileAllocationTable × ℕ) :=
  let place := fat.info.fatSectorIndexAndOffsetFor currentCluster
  (fat.fetchFatSector hash [] place.1).map fun fetched =>
    (fetched.1, fat.info.extractFatValue place.2 (fetched.1.fatCache.blocks fetched.2).data)

/-- `allocateNextCluster` where it has found a free cluster, with its sector in memory. -/
def linkCluster (fat : FileAllocationTable) (currentCluster candidate sector : ℕ) :
    Option (FileAllocationTable × ℕ) :=
  let info := fat.info
  let ended := fat.writeSector sector fun data =>
    info.setFatValue (info.fatSectorIndexAndOffsetFor candidate).2 data clusterEoc
  let hinted := { ended with
    freeClusterHint := if candidate + 1 ≥ info.getFatEntryCount then 2 else candidate + 1 }
  let place := info.fatSectorIndexAndOffsetFor currentCluster
  (fetchFatSector hash hinted [sector] place.1).map fun fetched =>
    (fetched.1.writeSector fetched.2 fun data => info.setFatValue place.2 data candidate,
      candidate)

/-- The loop of `allocateNextCluster` over the clusters from `candidate` on, with the
sector of the one before in memory. -/
def allocateFrom (currentCluster : ℕ) :
    ℕ → FileAllocationTable → ℕ → ℕ → ℕ → Option (FileAllocationTable × ℕ)
  | 0, fat, _, _, _ => some (fat, 0)
  | remaining + 1, fat, candidate, sectorIndex, sector =>
      let place := fat.info.fatSectorIndexAndOffsetFor candidate
      (if place.1 ≠ sectorIndex then fat.fetchFatSector hash [sector] place.1
        else some (fat, sector)).bind fun fetched =>
          let value := fat.info.extractFatValue place.2
            (fetched.1.fatCache.blocks fetched.2).data
          if getClusterType value ≠ .Free then
            allocateFrom currentCluster remaining fetched.1 (candidate + 1) place.1 fetched.2
          else fetched.1.linkCluster hash currentCluster candidate fetched.2

/-- `allocateNextCluster`: 0 if it finds no free cluster. -/
def allocateNextCluster (fat : FileAllocationTable) (currentCluster : ℕ) :
    Option (FileAllocationTable × ℕ) :=
  let first := max 2 fat.freeClusterHint
  let sectorIndex := (fat.info.fatSectorIndexAndOffsetFor first).1
  (fat.fetchFatSector hash [] sectorIndex).bind fun fetched =>
    allocateFrom hash currentCluster (fat.info.getFatEntryCount - first) fetched.1 first
      sectorIndex fetched.2

/-- The loop of `extendFile`.  A round adds a cluster's bytes to `currentSize`. -/
def extendFrom (size : ℕ) :
    ℕ → FileAllocationTable → ℕ → ℕ → Option (FileAllocationTable × Bool)
  | 0, _, _, _ => none
  | fuel + 1, fat, currentCluster, currentSize =>
      if currentSize < size then
        let nextSize := (currentSize + u32 fat.info.clusterSize) % 0x10000000000000000
        (fat.getNextCluster hash currentCluster).bind fun next =>
          if getClusterType next.2 ≠ .NextPointer then
            (next.1.allocateNextCluster hash currentCluster).bind fun allocated =>
              if allocated.2 = 0 then some (allocated.1, false)
              else extendFrom size fuel allocated.1 allocated.2 nextSize
          else extendFrom size fuel next.1 next.2 nextSize
      else some (fat, true)

/-- `extendFile` -/
def extendFile (fat : FileAllocationTable) (startCluster size : ℕ) :
    Option (FileAllocationTable × Bool) :=
  extendFrom hash size (size + 1) fat startCluster (u32 fat.info.clusterSize)

/-! ## The contents of files -/

/-- The loop of `doDataInterchange` that goes over the clusters before the offset. -/
def skipClusters : ℕ → FileAllocationTable → ℕ → Option (FileAllocationTable × Option ℕ)
  | 0, fat, cluster => some (fat, some cluster)
  | count + 1, fat, cluster =>
      (fat.getNextCluster hash cluster).bind fun next =>
        if getClusterType next.2 ≠ .NextPointer then some (next.1, none)
        else skipClusters count next.1 next.2

/-- One round of the loop that transfers: into the cluster, or out of it into the
buffer. -/
def transferPart (fat : FileAllocationTable) (buffer : Memory Byte)
    (cluster byteOffset length completed : ℕ) (write : Bool) :
    Option (FileAllocationTable × Memory Byte) :=
  let needsContent := !write || (byteOffset = 0 && length = fat.info.clusterSize)
  (fat.fetchCluster hash cluster needsContent).bind fun fetched =>
    let block := fetched.1.clusterCache.blocks fetched.2
    if write then
      ((block.withData (copyRange block.data byteOffset buffer completed length)).addDirtyRegion
        byteOffset (byteOffset + length)).map fun written =>
          ({ fetched.1 with
            clusterCache := fetched.1.clusterCache.modify fetched.2 fun _ => written }, buffer)
    else some (fetched.1, copyRange buffer completed block.data byteOffset length)

/-- The loop of `doDataInterchange` that transfers. -/
def transferFrom (size withinClusterOffset : ℕ) (write : Bool) :
    ℕ → FileAllocationTable → Memory Byte → ℕ → ℕ →
      Option (FileAllocationTable × Memory Byte × Bool)
  | 0, _, _, _, _ => none
  | fuel + 1, fat, buffer, cluster, completed =>
      if completed < size then
        let byteOffset := if completed = 0 then withinClusterOffset else 0
        let length := min (size - completed) (fat.info.clusterSize - byteOffset)
        (fat.transferPart hash buffer cluster byteOffset length completed write).bind fun done =>
          if completed + length = size then some (done.1, done.2, true)
          else
            (done.1.getNextCluster hash cluster).bind fun next =>
              if getClusterType next.2 ≠ .NextPointer then some (next.1, done.2, false)
              else
                transferFrom size withinClusterOffset write fuel next.1 done.2 next.2
                  (completed + length)
      else some (fat, buffer, true)

/-- `doDataInterchange`, with the buffer afterwards. -/
def doDataInterchange (fat : FileAllocationTable) (buffer : Memory Byte)
    (startCluster offset size : ℕ) (write : Bool) :
    Option (FileAllocationTable × Memory Byte × Bool) :=
  (skipClusters hash (offset / fat.info.clusterSize) fat startCluster).bind fun skipped =>
    match skipped.2 with
    | none => some (skipped.1, buffer, false)
    | some cluster =>
        transferFrom hash size (offset % fat.info.clusterSize) write (size + 1) skipped.1 buffer
          cluster 0

/-! ## Directories -/

/-- `FATRawEntryList::get_entry` -/
def readEntry (clusterChain : List ℕ) : SlotReader FileAllocationTable :=
  fun fat chainIndex entryIndex =>
    (clusterChain[chainIndex]?).bind fun cluster =>
      (fat.doDataInterchange hash (fun _ => 0) cluster (32 * entryIndex) 32 false).map
        fun done => (done.1, .ofMemory done.2.1 0)

/-- The loop of `FATRawEntryList::create` behind a cluster.  A chain that has not ended
after as many clusters as there are numbers for does not end. -/
def chainFrom : ℕ → FileAllocationTable → ℕ → Option (FileAllocationTable × List ℕ)
  | 0, _, _ => none
  | fuel + 1, fat, cluster =>
      (fat.getNextCluster hash cluster).bind fun next =>
        if getClusterType next.2 = .NextPointer then
          (chainFrom fuel next.1 next.2).map fun rest => (rest.1, next.2 :: rest.2)
        else some (next.1, [])

/-- `FATRawEntryList::create`; a cluster is a whole number of slots. -/
def createList (fat : FileAllocationTable) (startCluster startIndex : ℕ) :
    Option (FileAllocationTable × FATRawEntryList) :=
  (chainFrom hash 0x10000001 fat startCluster).bind fun chain =>
    let clusters := startCluster :: chain.2
    if h : startIndex < clusters.length * (fat.info.clusterSize / 32) then
      some (chain.1, ⟨clusters, fat.info.clusterSize / 32, startIndex, h⟩)
    else none

/-- `get_entries` -/
def getEntries (fat : FileAllocationTable) (startCluster : ℕ) :
    Option (FileAllocationTable × List LocatedFATEntry) :=
  (fat.createList hash startCluster 0).bind fun created =>
    created.2.getEntries startCluster (readEntry hash created.2.clusterChain) created.1

/-- `get_entry` -/
def getEntry (fat : FileAllocationTable) (location : FATEntryLocation) :
    Option (FileAllocationTable × Except ErrorCode BasicFATEntry) :=
  (fat.createList hash location.directoryStartCluster location.indexInDirectory).bind
    fun created => created.2.getEntry (readEntry hash created.2.clusterChain) created.1

/-- The body of the loop of `get_root_entries`, with the index it counts itself.  The
`continue` of the source skips the increment. -/
def scanRootSlot (state : EntryScan × ℕ) (e : RawFATEntry) : EntryScan × ℕ :=
  if e.type = .LongFileName ∧ state.1.workingEntry = [] ∧ e.order &&& 0x40 = 0 then state
  else (state.1.scanSlot 0 (e, state.2), state.2 + 1)

/-- `get_root_entries`.  On FAT16 the directory is a range of sectors, and its loop
stops at the first end marker; whether it could be read is not asked. -/
def getRootEntries (fat : FileAllocationTable) :
    Option (FileAllocationTable × List LocatedFATEntry) :=
  if fat.info.fatType = .FAT16 ∨ fat.info.fatType = .FAT12 then
    let read := fat.device.blockingRead (fat.info.rootStartSector * fat.info.sectorSize)
      (fun _ => 0) (32 * fat.info.rootEntryCount)
    let slots := (List.range fat.info.rootEntryCount).map fun i =>
      RawFATEntry.ofMemory read.2 (32 * i)
    let scanned := (slots.takeWhile (·.type ≠ .EndOfDirectory)).foldl scanRootSlot
      (EntryScan.empty, 0)
    some ({ fat with device := read.1 }, scanned.1.entries)
  else fat.getEntries hash fat.info.rootDirCluster

/-- `set_entry`, which is told the place in 32 bits. -/
def setEntry (fat : FileAllocationTable) (list : FATRawEntryList) (directoryIndex : ℕ)
    (entry : RawFATEntry) : Option FileAllocationTable :=
  (list.clusterChain[u32 directoryIndex / list.entriesPerCluster]?).bind fun cluster =>
    (fat.doDataInterchange hash entry.byte cluster
      (32 * (u32 directoryIndex % list.entriesPerCluster)) 32 true).map Prod.fst

/-- `update_entry`, which leaves the name alone. -/
def updateEntry (fat : FileAllocationTable) (location : FATEntryLocation)
    (entry : BasicFATEntry) :
    Option (FileAllocationTable × Except ErrorCode FATEntryLocation) :=
  (fat.createList hash location.directoryStartCluster location.indexInDirectory).bind
    fun created =>
      (created.2.forEach (readEntry hash created.2.clusterChain)
        (fun _ slot => if slot.1.type = .Normal then .error slot else .ok ()) created.1 ()).bind
        fun done =>
          match done.2 with
          | .ok _ => some (done.1, .error ErrorCode.EIO)
          | .error slot =>
              (done.1.setEntry hash created.2 slot.2
                (.fromBasic slot.1.fatname entry)).map fun fat => (fat, .ok location)

end FileAllocationTable

end BekOS
