import BekOS.Filesystem.FatContents

/-!
# What a volume holds

The FAT and the clusters, as the two caches and the device have them together.  The
sectors of the FAT and the clusters stand apart, so that a block of the one that is
fetched or written back changes nothing of the other.
-/

namespace BekOS

namespace FATInfo

variable {info : FATInfo}

/-- The sectors of a cluster have numbers of 32 bits. -/
def HasCluster (info : FATInfo) (cluster : ℕ) : Prop :=
  2 ≤ cluster ∧ info.dataBeginSector + info.sectorsPerCluster * (cluster - 2) < 0x100000000
deriving Decidable

/-- The clusters stand behind the FAT, and are whole numbers of slots. -/
structure Laid (info : FATInfo) : Prop where
  placed : info.Placed
  behind : info.fatBeginSector + info.fatSectors ≤ info.dataBeginSector
  perCluster : 0 < info.sectorsPerCluster
  slots : 512 ∣ info.sectorSize

theorem clusterMoves_home {cluster : ℕ} (h : info.HasCluster cluster) :
    info.clusterByteAddr cluster = some (info.clusterMoves.home cluster) ∧
      info.clusterMoves.home cluster =
        (info.dataBeginSector + info.sectorsPerCluster * (cluster - 2)) * info.sectorSize := by
  have haddr : info.clusterByteAddr cluster = some
      ((info.dataBeginSector + info.sectorsPerCluster * (cluster - 2)) * info.sectorSize) := by
    rw [clusterByteAddr, if_pos h.1, u32, Nat.mod_eq_of_lt h.2]
  have hhome : info.clusterMoves.home cluster = (info.clusterByteAddr cluster).getD 0 := rfl
  rw [hhome, haddr]
  exact ⟨rfl, rfl⟩

theorem clusters_apart (info : FATInfo) : info.clusterMoves.Apart info.HasCluster := by
  refine ⟨fun c hc => (clusterMoves_home hc).1, fun c hc => (clusterMoves_home hc).1,
    fun c c' hc hc' hne => ?_⟩
  rw [(clusterMoves_home hc).2, (clusterMoves_home hc').2]
  have hnext : ∀ {a b}, 2 ≤ a → a < b →
      (info.dataBeginSector + info.sectorsPerCluster * (a - 2)) * info.sectorSize +
        info.clusterMoves.size ≤
      (info.dataBeginSector + info.sectorsPerCluster * (b - 2)) * info.sectorSize := by
    intro a b ha hab
    have hmul : info.sectorsPerCluster * (a - 2 + 1) ≤ info.sectorsPerCluster * (b - 2) :=
      Nat.mul_le_mul_left _ (by omega)
    show _ + info.sectorsPerCluster * info.sectorSize ≤ _
    rw [← Nat.add_mul]
    refine Nat.mul_le_mul_right _ ?_
    rw [Nat.mul_succ] at hmul
    omega
  rcases Nat.lt_or_gt_of_ne hne with hlt | hlt
  · exact Or.inl (hnext hc.1 hlt)
  · exact Or.inr (hnext hc'.1 hlt)

theorem Laid.disjoint (laid : info.Laid) {sector cluster : ℕ} (hsector : sector < info.fatSectors)
    (h : info.HasCluster cluster) :
    info.fatMoves.home sector + info.fatMoves.size ≤ info.clusterMoves.home cluster := by
  rw [(clusterMoves_home h).2]
  show (info.fatBeginSector + sector) * info.sectorSize + info.sectorSize ≤ _
  rw [← Nat.succ_mul]
  have := laid.behind
  exact Nat.mul_le_mul_right _ (by omega)

theorem Laid.large (laid : info.Laid) : 32 < info.clusterSize := by
  have hsector := Nat.le_of_dvd laid.placed.nonempty laid.slots
  have hcluster := Nat.le_mul_of_pos_left info.sectorSize laid.perCluster
  have hsize : info.clusterSize = info.sectorsPerCluster * info.sectorSize := rfl
  omega

end FATInfo

namespace BlockCache

variable {hash : ℕ → ℕ} {moves : BlockMoves}  {cache : BlockCache}
  {device device' : BlockDevice} {key id : ℕ}  {valid : ℕ → Prop}

/-! ## A cache beside what changes -/

/-- The blocks of the device are as they were. -/
def SameBlocks (moves : BlockMoves) (valid : ℕ → Prop) (device device' : BlockDevice) : Prop :=
  ∀ key, valid key → ∀ i < moves.size,
    device'.bytes (moves.home key + i) = device.bytes (moves.home key + i)

theorem Backed.of_same (backed : cache.Backed hash moves valid device)
    (same : SameBlocks moves valid device device') : cache.Backed hash moves valid device' :=
  ⟨backed.valid, fun key id held i hi hclean => by
    rw [same key (backed.valid key id held) i hi]
    exact backed.clean key id held i hi hclean⟩

theorem contents_of_same (same : SameBlocks moves valid device device') {key : ℕ}
    (hvalid : valid key) {i : ℕ} (hi : i < moves.size) :
    cache.contents hash moves device' key i = cache.contents hash moves device key i := by
  cases held : cache.heldBlocks hash key with
  | none =>
      rw [contents_of_absent held, contents_of_absent held]
      exact same key hvalid i hi
  | some id => rw [contents_of_held held, contents_of_held held]

theorem Stands.of_device (stands : cache.Stands hash moves device)
    (capacity : device'.capacity = device.capacity) (writes : device'.Writes)
    (succeed : device'.WritesSucceed) : cache.Stands hash moves device' :=
  ⟨by rw [capacity]; exact stands.room, writes, succeed⟩

end BlockCache

namespace FileAllocationTable

variable {hash : ℕ → ℕ} {fat fat' fat'' : FileAllocationTable} {pointers : List ℕ} {id : ℕ}

/-! ## Clusters -/

/-- The bytes of a cluster. -/
def clusterData (hash : ℕ → ℕ) (fat : FileAllocationTable) (cluster : ℕ) : Memory Byte :=
  fat.clusterCache.contents hash fat.info.clusterMoves fat.device cluster

/-- The FAT and the clusters are in their places, and in memory or on the device. -/
structure VolumeSound (hash : ℕ → ℕ) (fat : FileAllocationTable) : Prop where
  laid : fat.info.Laid
  table : fat.FatSound hash
  backed : fat.clusterCache.Backed hash fat.info.clusterMoves fat.info.HasCluster fat.device
  stands : fat.clusterCache.Stands hash fat.info.clusterMoves fat.device

/-- Nothing has happened to a volume but that it has been read. -/
structure VolumeRead (hash : ℕ → ℕ) (fat fat' : FileAllocationTable) : Prop where
  sound : fat'.VolumeSound hash
  table : FatRead hash fat fat'
  clusters : ∀ cluster, fat.info.HasCluster cluster → ∀ i < fat.info.clusterSize,
    fat'.clusterData hash cluster i = fat.clusterData hash cluster i

theorem VolumeSound.refl (sound : fat.VolumeSound hash) : VolumeRead hash fat fat :=
  ⟨sound, sound.table.refl, fun _ _ _ _ => rfl⟩

theorem VolumeRead.trans (read : VolumeRead hash fat fat') (read' : VolumeRead hash fat' fat'') :
    VolumeRead hash fat fat'' := by
  refine ⟨read'.sound, read.table.trans read'.table, fun cluster hcluster i hi => ?_⟩
  rw [← read.clusters cluster hcluster i hi]
  have hinfo := read.table.info
  exact read'.clusters cluster (by rwa [hinfo]) i (by rwa [hinfo])

theorem VolumeSound.mounted {info : FATInfo} (laid : info.Laid) (bytes : Memory Byte)
    (capacity : ℕ) {answers : ℕ → Bool → TransferResult} (writes : ∀ n, answers n true = .Success)
    (scratch : ℕ → Memory Byte) :
    (FileAllocationTable.mounted info bytes capacity answers scratch).VolumeSound hash := by
  have hnone : ∀ key, (FileAllocationTable.mounted info bytes capacity answers
      scratch).clusterCache.heldBlocks hash key = none :=
    LruCache.held_new (hashRespects_nat hash) (by decide : 1 ≤ clusterCacheMax)
  refine ⟨laid, .mounted laid.placed bytes capacity writes scratch,
    ⟨fun key id h => ?_, fun key id h => ?_⟩,
    ⟨fun key id h => ?_, writes, fun _ hmem => nomatch hmem⟩⟩
  all_goals
    rw [hnone] at h
    cases h

/-- **Fetching a sector** of the FAT reads the volume. -/
theorem VolumeSound.fetchSector (sound : fat.VolumeSound hash) {sector : ℕ}
    (h : fat.fetchFatSector hash pointers sector = some (fat', id)) :
    VolumeRead hash fat fat' ∧ fat'.fatCache.heldBlocks hash sector = some id ∧
      (fat'.fatCache.blocks id).data = fat'.fatSector hash sector ∧
      fat'.clusterCache = fat.clusterCache := by
  obtain ⟨read, held, hdata⟩ := sound.table.fetch h
  obtain ⟨cache, device, rfl, hsector, hfetched, -⟩ := sound.table.ok.fetchFatSector h
  obtain ⟨-, -, hbeyond⟩ := hfetched.contents sound.table.ok.sectors sound.table.backed
    sound.table.placed.apart hsector read.sound.stands.succeed
  have same : BlockCache.SameBlocks fat.info.clusterMoves fat.info.HasCluster fat.device
      device := by
    intro cluster hcluster i hi
    refine hbeyond _ fun s hs hmem => ?_
    have := sound.laid.disjoint hs hcluster
    omega
  exact ⟨⟨⟨sound.laid, read.sound, sound.backed.of_same same,
      sound.stands.of_device (hfetched.keepsDevice sound.table.ok.sectors sound.table.backed
        sound.table.placed.apart sound.table.stands).1 read.sound.stands.writes
        read.sound.stands.succeed⟩, read,
    fun cluster hcluster i hi => BlockCache.contents_of_same same hcluster hi⟩, held, hdata, rfl⟩

/-- **Fetching a cluster** reads the volume. -/
theorem VolumeSound.fetchCluster (sound : fat.VolumeSound hash) {cluster : ℕ}
    (hcluster : fat.info.HasCluster cluster)
    (h : fat.fetchCluster hash cluster true = some (fat', id)) :
    VolumeRead hash fat fat' ∧ fat'.clusterCache.heldBlocks hash cluster = some id ∧
      (fat'.clusterCache.blocks id).data = fat'.clusterData hash cluster := by
  obtain ⟨cache, device, rfl, hfetched, ok'⟩ := sound.table.ok.fetchCluster h
  have apart := fat.info.clusters_apart
  have stands' := hfetched.stands sound.table.ok.clusters sound.backed apart hcluster sound.stands
  obtain ⟨backed', hsame, hbeyond⟩ := hfetched.contents sound.table.ok.clusters sound.backed apart
    hcluster stands'.succeed
  have same : BlockCache.SameBlocks fat.info.fatMoves (· < fat.info.fatSectors) fat.device
      device := by
    intro sector hsector i hi
    refine hbeyond _ fun c hc hmem => ?_
    have := sound.laid.disjoint hsector hc
    omega
  have table' : FatSound hash { fat with clusterCache := cache, device := device } :=
    ⟨sound.table.placed, ok', sound.table.backed.of_same same,
      sound.table.stands.of_device (hfetched.keepsDevice sound.table.ok.clusters sound.backed apart
        sound.stands).1 stands'.writes stands'.succeed⟩
  exact ⟨⟨⟨sound.laid, table', backed', stands'⟩,
    ⟨table', rfl, rfl, fun sector hsector i hi => BlockCache.contents_of_same same hsector hi⟩,
    hsame⟩, hfetched.present, (BlockCache.contents_of_held hfetched.present).symm⟩

theorem getNextCluster_sector {cluster next : ℕ}
    (h : fat.getNextCluster hash cluster = some (fat', next)) :
    (fat.info.fatSectorIndexAndOffsetFor cluster).1 < fat.info.fatSectors := by
  obtain ⟨fetched, hfetch, -⟩ := Option.map_eq_some_iff.mp h
  unfold fetchFatSector at hfetch
  split_ifs at hfetch with hsector
  exact hsector

/-- **The next cluster** of a chain is what the FAT says. -/
theorem VolumeSound.getNextCluster (sound : fat.VolumeSound hash) {cluster next : ℕ}
    (h : fat.getNextCluster hash cluster = some (fat', next)) :
    VolumeRead hash fat fat' ∧ next = fat.fatValue hash cluster ∧
      fat'.clusterCache = fat.clusterCache := by
  have hsector := getNextCluster_sector h
  obtain ⟨⟨fat₁, id⟩, hfetch, h⟩ := Option.map_eq_some_iff.mp h
  cases h
  obtain ⟨read, -, hdata, hcache⟩ := sound.fetchSector hfetch
  refine ⟨read, ?_, hcache⟩
  rw [← read.table.fatValue_eq hsector, fatValue, read.table.info]
  exact congrArg _ hdata

/-- **Fetching a cluster without its content**: it is the block that is there, or else
memory as it was found. -/
theorem VolumeSound.fetchBlind (sound : fat.VolumeSound hash) {cluster : ℕ}
    (hcluster : fat.info.HasCluster cluster)
    (h : fat.fetchCluster hash cluster false = some (fat', id)) :
    fat'.info = fat.info ∧ fat'.Ok hash ∧ SameFat hash fat fat' ∧
      fat'.clusterCache.heldBlocks hash cluster = some id ∧
      (∀ c, fat.info.HasCluster c → c ≠ cluster → ∀ i < fat.info.clusterSize,
        fat'.clusterData hash c i = fat.clusterData hash c i) ∧
      (fat'.clusterCache.blocks id).data =
        if (fat.clusterCache.heldBlocks hash cluster).isSome then fat.clusterData hash cluster
        else fat.clusterCache.scratch fat.clusterCache.created := by
  obtain ⟨cache, device, rfl, hfetched, ok'⟩ := sound.table.ok.fetchCluster h
  have apart := fat.info.clusters_apart
  obtain ⟨-, -, succeed⟩ := hfetched.keepsDevice sound.table.ok.clusters sound.backed apart
    sound.stands
  obtain ⟨spares, hblock⟩ := hfetched.spares sound.table.ok.clusters sound.backed apart hcluster
    succeed
  have same : BlockCache.SameBlocks fat.info.fatMoves (· < fat.info.fatSectors) fat.device
      device := by
    intro sector hsector i hi
    refine spares.beyond _ fun c hc hmem => ?_
    have := sound.laid.disjoint hsector hc
    omega
  refine ⟨rfl, ok', fun sector hsector i hi => BlockCache.contents_of_same same hsector hi,
    hfetched.present, spares.others, ?_⟩
  rcases hblock with ⟨held, hblocks, -⟩ | ⟨absent, device₁, data, load, hfresh, -⟩
  · rw [held, Option.isSome_some, if_pos rfl, clusterData, BlockCache.contents_of_held held]
    exact congrArg BlockCacheItem.data (congrFun hblocks id)
  · rw [absent, Option.isSome_none, if_neg Bool.false_ne_true]
    rw [BlockMoves.load, if_neg Bool.false_ne_true] at load
    cases load
    exact congrArg BlockCacheItem.data hfresh

/-! ## Slots of a volume -/

/-- Slot `k` of the directory in a chain of clusters. -/
def dirSlot (hash : ℕ → ℕ) (fat : FileAllocationTable) (chain : List ℕ) (k : ℕ) : RawFATEntry :=
  .ofMemory (fat.clusterData hash (chain.getD (k / (fat.info.clusterSize / 32)) 0))
    (32 * (k % (fat.info.clusterSize / 32)))

theorem ofMemory_congr {bytes bytes' : Memory Byte} {off off' : ℕ}
    (h : ∀ i < 32, bytes (off + i) = bytes' (off' + i)) :
    RawFATEntry.ofMemory bytes off = RawFATEntry.ofMemory bytes' off' :=
  congrArg RawFATEntry.mk (Vector.ext fun i hi => by
    rw [Vector.getElem_ofFn, Vector.getElem_ofFn, h i hi])

theorem slot_inside {j : ℕ} (hj : j < fat.info.clusterSize / 32) :
    32 * j + 32 ≤ fat.info.clusterSize := by
  have := Nat.div_mul_le_self fat.info.clusterSize 32
  omega

theorem doDataInterchange_inside {buffer : Memory Byte} {offset size : ℕ} {write : Bool}
    (hpos : 0 < size) (hinside : offset + size ≤ fat.info.clusterSize) :
    fat.doDataInterchange hash buffer cluster offset size write =
      (fat.transferPart hash buffer cluster offset size 0 write).map fun done =>
        (done.1, done.2, true) := by
  have hskip : offset / fat.info.clusterSize = 0 := Nat.div_eq_of_lt (by omega)
  have hoffset : offset % fat.info.clusterSize = offset := Nat.mod_eq_of_lt (by omega)
  rw [doDataInterchange, hskip, skipClusters, Option.bind_some]
  dsimp only
  rw [hoffset, transferFrom, if_pos hpos]
  dsimp only
  rw [if_pos rfl, Nat.sub_zero, Nat.min_eq_left (by omega), Option.map_eq_bind]
  refine congrArg _ (funext fun done => ?_)
  rw [if_pos (Nat.zero_add size)]
  rfl

theorem readEntry_eq {i j : ℕ} (hi : chain[i]? = some cluster)
    (hj : j < fat.info.clusterSize / 32) :
    readEntry hash chain fat i j =
      (fat.fetchCluster hash cluster true).map fun fetched =>
        (fetched.1, .ofMemory (fetched.1.clusterCache.blocks fetched.2).data (32 * j)) := by
  have hslot : ∀ data : Memory Byte, RawFATEntry.ofMemory (copyRange (fun _ => 0) 0 data
      (32 * j) 32) 0 = .ofMemory data (32 * j) := fun data =>
    ofMemory_congr fun i hi => by
      rw [copyRange_of_mem (by omega) (by omega)]
      congr 1
      omega
  rw [readEntry, hi, Option.bind_some, doDataInterchange_inside (by decide) (slot_inside hj),
    transferPart, Option.map_map]
  dsimp only
  rw [Bool.not_false, Bool.true_or, Option.map_eq_bind, Option.map_eq_bind, Option.bind_assoc]
  refine congrArg _ (funext fun fetched => ?_)
  rw [if_neg Bool.false_ne_true, Option.bind_some]
  exact congrArg (fun entry => some (fetched.1, entry)) (hslot _)

theorem setEntry_eq {list : FATRawEntryList} {own : ℕ} {entry : RawFATEntry}
    (hnumber : own < 0x100000000)
    (hown : list.clusterChain[own / list.entriesPerCluster]? = some cluster)
    (hslots : list.entriesPerCluster = fat.info.clusterSize / 32)
    (hlarge : 32 < fat.info.clusterSize) :
    fat.setEntry hash list own entry =
      (fat.fetchCluster hash cluster false).bind fun fetched =>
        (((fetched.1.clusterCache.blocks fetched.2).withData
            (copyRange (fetched.1.clusterCache.blocks fetched.2).data
              (32 * (own % list.entriesPerCluster)) entry.byte 0 32)).addDirtyRegion
          (32 * (own % list.entriesPerCluster)) (32 * (own % list.entriesPerCluster) + 32)).map
            fun written => { fetched.1 with
              clusterCache := fetched.1.clusterCache.modify fetched.2 fun _ => written } := by
  have hj : own % list.entriesPerCluster < fat.info.clusterSize / 32 := by
    rw [← hslots]
    exact Nat.mod_lt _ list.entriesPerCluster_pos
  have hpart : (!true || (decide (32 * (own % list.entriesPerCluster) = 0) &&
      decide (32 = fat.info.clusterSize))) = false := by
    rw [decide_eq_false hlarge.ne, Bool.and_false]
    rfl
  have hbits : u32 own = own := Nat.mod_eq_of_lt hnumber
  rw [setEntry, hbits, hown, Option.bind_some, doDataInterchange_inside (by decide) (slot_inside hj),
    transferPart, Option.map_map]
  dsimp only
  rw [hpart, Option.map_eq_bind, Option.bind_assoc]
  refine congrArg _ (funext fun fetched => ?_)
  rw [if_pos rfl, Option.map_eq_bind, Option.map_eq_bind, Option.bind_assoc]
  rfl

/-- The contents of a volume are as they were, but for 32 bytes of a cluster. -/
structure SlotWritten (hash : ℕ → ℕ) (fat : FileAllocationTable) (cluster offset : ℕ)
    (entry : RawFATEntry) (fat' : FileAllocationTable) : Prop where
  table : SameFat hash fat fat'
  clusters : ∀ c, fat.info.HasCluster c → ∀ i < fat.info.clusterSize,
    fat'.clusterData hash c i =
      if c = cluster ∧ offset ≤ i ∧ i < offset + 32 then entry.byte (i - offset)
      else fat.clusterData hash c i

theorem clusterData_modify (ok : fat.Ok hash)
    (held : fat.clusterCache.heldBlocks hash cluster = some id) (written : BlockCacheItem) (c : ℕ) :
    ({ fat with clusterCache := fat.clusterCache.modify id fun _ => written } :
        FileAllocationTable).clusterData hash c =
      if c = cluster then written.data else fat.clusterData hash c := by
  have hblock : ∀ id', (fat.clusterCache.modify id fun _ => written).blocks id' =
      if id' = id then written else fat.clusterCache.blocks id' :=
    fun id' => Function.update_apply _ _ _ _
  unfold clusterData
  cases hother : fat.clusterCache.heldBlocks hash c with
  | none =>
      have hne : c ≠ cluster := fun heq => by
        rw [heq, held] at hother
        cases hother
      have hother' : (fat.clusterCache.modify id fun _ => written).heldBlocks hash c = none :=
        hother
      rw [if_neg hne]
      funext i
      rw [BlockCache.contents_of_absent hother', BlockCache.contents_of_absent hother]
  | some id' =>
      have hother' : (fat.clusterCache.modify id fun _ => written).heldBlocks hash c = some id' :=
        hother
      rw [BlockCache.contents_of_held hother', BlockCache.contents_of_held hother, hblock]
      by_cases hc : c = cluster
      · rw [hc, held, Option.some_inj] at hother
        rw [if_pos hother.symm, if_pos hc]
      · have hid : id' ≠ id := fun heq => hc (ok.clusters.inj _ _ _ hother (heq ▸ held))
        rw [if_neg hid, if_neg hc]

/-- **`set_entry`** writes the slot and nothing else exactly when the cluster is in memory, or
the memory that is taken for it holds what the cluster does. -/
theorem VolumeSound.setEntry (sound : fat.VolumeSound hash) {list : FATRawEntryList} {own : ℕ}
    (hnumber : own < 0x100000000)
    (hown : list.clusterChain[own / list.entriesPerCluster]? = some cluster)
    (hslots : list.entriesPerCluster = fat.info.clusterSize / 32)
    (hcluster : fat.info.HasCluster cluster)
    (hfetch : (fat.fetchCluster hash cluster false).isSome) (entry : RawFATEntry) :
    ∃ fat', fat.setEntry hash list own entry = some fat' ∧
      (SlotWritten hash fat cluster (32 * (own % list.entriesPerCluster)) entry fat' ↔
        (fat.clusterCache.heldBlocks hash cluster).isSome ∨ ∀ i < fat.info.clusterSize,
          ¬ (32 * (own % list.entriesPerCluster) ≤ i ∧
            i < 32 * (own % list.entriesPerCluster) + 32) →
          fat.clusterCache.scratch fat.clusterCache.created i = fat.clusterData hash cluster i) := by
  obtain ⟨⟨fat₁, id⟩, hfetch⟩ := Option.isSome_iff_exists.mp hfetch
  obtain ⟨hinfo, ok₁, hfat, held, hothers, hdata⟩ := sound.fetchBlind hcluster hfetch
  have hj : own % list.entriesPerCluster < fat.info.clusterSize / 32 := by
    rw [← hslots]
    exact Nat.mod_lt _ list.entriesPerCluster_pos
  have hinside := slot_inside hj
  have hlarge : 32 < fat.info.clusterSize := sound.laid.large
  rw [setEntry_eq hnumber hown hslots hlarge, hfetch, Option.bind_some]
  dsimp only
  generalize 32 * (own % list.entriesPerCluster) = off at hinside ⊢
  have hsize : (fat₁.clusterCache.blocks id).size = fat.info.clusterSize := by
    rw [← hinfo]
    exact (ok₁.clusters.ranges id (ok₁.clusters.known _ _ held)).1
  obtain ⟨written, hwritten, hbytes⟩ : ∃ written,
      ((fat₁.clusterCache.blocks id).withData (copyRange (fat₁.clusterCache.blocks id).data off
        entry.byte 0 32)).addDirtyRegion off (off + 32) = some written ∧
      written.data = copyRange (fat₁.clusterCache.blocks id).data off entry.byte 0 32 := by
    have hbounds : off ≤ off + 32 ∧ off + 32 ≤ ((fat₁.clusterCache.blocks id).withData (copyRange
        (fat₁.clusterCache.blocks id).data off entry.byte 0 32)).size := ⟨by omega, by
      show off + 32 ≤ (fat₁.clusterCache.blocks id).size
      omega⟩
    unfold BlockCacheItem.addDirtyRegion
    rw [if_pos hbounds]
    split_ifs
    · exact ⟨_, rfl, rfl⟩
    · exact ⟨_, rfl, rfl⟩
  refine ⟨_, by rw [hwritten, Option.map_some], ?_⟩
  set changed : FileAllocationTable :=
    { fat₁ with clusterCache := fat₁.clusterCache.modify id fun _ => written } with hchanged
  have hclusters : ∀ c i, changed.clusterData hash c i =
      if c = cluster then (if off ≤ i ∧ i < off + 32 then entry.byte (i - off) else
        (fat₁.clusterCache.blocks id).data i) else fat₁.clusterData hash c i := by
    intro c i
    rw [hchanged, clusterData_modify ok₁ held, ite_apply, hbytes, copyRange, Nat.zero_add]
  -- What of the cluster is not the slot, the block has as it was fetched.
  have hiff : SlotWritten hash fat cluster off entry changed ↔
      ∀ i < fat.info.clusterSize, ¬ (off ≤ i ∧ i < off + 32) →
        (fat₁.clusterCache.blocks id).data i = fat.clusterData hash cluster i := by
    constructor
    · intro h i hi hout
      have hrest := h.clusters cluster hcluster i hi
      rwa [hclusters, if_pos rfl, if_neg hout, if_neg fun hslot => hout hslot.2] at hrest
    · intro h
      refine ⟨hfat, fun c hc i hi => ?_⟩
      rw [hclusters]
      by_cases hsame : c = cluster
      · rw [if_pos hsame]
        by_cases hslot : off ≤ i ∧ i < off + 32
        · rw [if_pos hslot, if_pos ⟨hsame, hslot⟩]
        · rw [if_neg hslot, if_neg fun hboth => hslot hboth.2, hsame]
          exact h i hi hslot
      · rw [if_neg hsame, if_neg fun hboth => hsame hboth.1]
        exact hothers c hc hsame i hi
  rw [hiff, hdata]
  by_cases hheld : (fat.clusterCache.heldBlocks hash cluster).isSome
  · rw [if_pos hheld]
    exact iff_of_true (fun _ _ _ => rfl) (Or.inl hheld)
  · rw [if_neg hheld, or_iff_right hheld]

end FileAllocationTable

end BekOS
