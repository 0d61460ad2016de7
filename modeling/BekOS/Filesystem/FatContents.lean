import BekOS.Filesystem.WriteBack

/-!
# What the FAT says

The FAT as its cache and the device have it together, entry by entry.  Reading it
changes nothing of it, and a value that is put into a sector changes the entries
that stand there.
-/

namespace BekOS

/-! ## Entries of a sector -/

theorem getClusterType_eq_free_iff {value : ℕ} :
    getClusterType value = .Free ↔ clusterIndex value = 0 := by
  show (if value &&& 0x0FFFFFFF ≤ 0xFFFFFEF ∧ value &&& 0x0FFFFFFF > 1 then _ else _) = _ ↔
    value &&& 0x0FFFFFFF = 0
  split_ifs <;> simp <;> omega

theorem clusterIndex_eq_mod (value : ℕ) : clusterIndex value = value % 0x10000000 :=
  Nat.and_two_pow_sub_one_eq_mod value 28

namespace FATInfo

variable {info : FATInfo} {sector sector' : Memory Byte} {offset offset' : ℕ}

/-- What is read of a value that has been stored. -/
def storedValue (info : FATInfo) (value : ℕ) : ℕ :=
  if info.fatType = .FAT16 then
    if value % 0x10000 < 0xFFF7 then value % 0x10000 else value % 0x10000 ||| 0x0FFF0000
  else clusterIndex value

theorem entryWidth_dvd (info : FATInfo) : info.entryWidth ∣ 4 := by
  unfold entryWidth
  split_ifs
  · exact ⟨2, rfl⟩
  · exact dvd_rfl

theorem entryWidth_pos (info : FATInfo) : 0 < info.entryWidth :=
  Nat.pos_of_dvd_of_pos info.entryWidth_dvd (by decide)

theorem extractFatValue_congr
    (h : ∀ i < info.entryWidth, sector (offset + i) = sector' (offset' + i)) :
    info.extractFatValue offset sector = info.extractFatValue offset' sector' := by
  unfold extractFatValue
  unfold entryWidth at h
  by_cases h16 : info.fatType = .FAT16
  · rw [if_pos h16] at h
    rw [if_pos h16, if_pos h16, leRead_congr h]
  · rw [if_neg h16] at h
    rw [if_neg h16, if_neg h16, leRead_congr h]

theorem extractFatValue_setFatValue (value : ℕ) :
    info.extractFatValue offset (info.setFatValue offset sector value) =
      info.storedValue value := by
  unfold extractFatValue setFatValue storedValue
  by_cases h16 : info.fatType = .FAT16
  · rw [if_pos h16, if_pos h16, if_pos h16, leRead_leWrite]
    rfl
  · rw [if_neg h16, if_neg h16, if_neg h16, leRead_leWrite, clusterIndex_eq_mod, clusterIndex_eq_mod,
      Nat.mod_mod_of_dvd _ (by decide : 0x10000000 ∣ 256 ^ 4)]
    have hlow : (leRead sector offset 4 &&& 0xF0000000) % 2 ^ 28 = 0 := by
      rw [Nat.and_mod_two_pow]
      exact Nat.and_zero _
    have hvalue : (value &&& 0x0FFFFFFF) % 2 ^ 28 = value % 2 ^ 28 := by
      rw [Nat.and_mod_two_pow]
      exact (Nat.and_two_pow_sub_one_eq_mod _ 28).trans (Nat.mod_mod _ _)
    calc ((leRead sector offset 4 &&& 0xF0000000) ||| (value &&& 0x0FFFFFFF)) % 2 ^ 28
        = 0 ||| value % 2 ^ 28 := by rw [Nat.or_mod_two_pow, hlow, hvalue]
      _ = value % 2 ^ 28 := Nat.zero_or _

theorem extractFatValue_setFatValue_of_disjoint {value : ℕ}
    (h : offset' + info.entryWidth ≤ offset ∨ offset + info.entryWidth ≤ offset') :
    info.extractFatValue offset' (info.setFatValue offset sector value) =
      info.extractFatValue offset' sector := by
  refine extractFatValue_congr fun i hi => ?_
  unfold entryWidth at h hi
  unfold setFatValue
  split_ifs at h hi ⊢
  · exact leWrite_of_not_mem (by omega)
  · exact leWrite_of_not_mem (by omega)

theorem storedValue_not_free {value : ℕ} (h16 : info.fatType = .FAT16 → value % 0x10000 ≠ 0)
    (h32 : info.fatType ≠ .FAT16 → value % 0x10000000 ≠ 0) :
    getClusterType (info.storedValue value) ≠ .Free := by
  rw [ne_eq, getClusterType_eq_free_iff, clusterIndex_eq_mod]
  unfold storedValue
  split_ifs with htype hsmall
  · have := h16 htype
    omega
  · rw [show (0x10000000 : ℕ) = 2 ^ 28 from rfl, Nat.or_mod_two_pow]
    exact fun h => absurd (Nat.or_eq_zero_iff.mp h).2 (by decide)
  · rw [clusterIndex_eq_mod, Nat.mod_mod]
    exact h32 htype

/-! ## Where the entries stand -/

/-- A FAT of whole entries in whole sectors, that ends where 32 bits can say. -/
structure Placed (info : FATInfo) : Prop where
  entries : 4 ∣ info.sectorSize
  nonempty : 0 < info.sectorSize
  below : (info.fatBeginSector + info.fatSectors) * info.sectorSize < 0x100000000

theorem Placed.apart (placed : info.Placed) : info.fatMoves.Apart (· < info.fatSectors) := by
  refine ⟨fun key hkey => ?_, fun _ _ => rfl, fun key key' _ _ hne => ?_⟩
  · have hmul : (info.fatBeginSector + key) * info.sectorSize ≤
        (info.fatBeginSector + info.fatSectors) * info.sectorSize :=
      Nat.mul_le_mul_right _ (by omega)
    exact congrArg some (Nat.mod_eq_of_lt (hmul.trans_lt placed.below))
  · show (info.fatBeginSector + key) * info.sectorSize + info.sectorSize ≤
        (info.fatBeginSector + key') * info.sectorSize ∨
      (info.fatBeginSector + key') * info.sectorSize + info.sectorSize ≤
        (info.fatBeginSector + key) * info.sectorSize
    rw [← Nat.succ_mul, ← Nat.succ_mul]
    rcases Nat.lt_or_gt_of_ne hne with hlt | hlt
    · exact Or.inl (Nat.mul_le_mul_right _ (by omega))
    · exact Or.inr (Nat.mul_le_mul_right _ (by omega))

theorem Placed.place (placed : info.Placed) (cluster : ℕ) :
    info.entryWidth ∣ (info.fatSectorIndexAndOffsetFor cluster).2 ∧
      (info.fatSectorIndexAndOffsetFor cluster).2 + info.entryWidth ≤ info.sectorSize := by
  have hsize : info.entryWidth ∣ info.sectorSize := info.entryWidth_dvd.trans placed.entries
  have hbits : info.entryWidth ∣ u32 (cluster * info.entryWidth) :=
    (Nat.dvd_mod_iff (info.entryWidth_dvd.trans (by decide))).mpr (Nat.dvd_mul_left _ _)
  have hoffset : info.entryWidth ∣ u32 (cluster * info.entryWidth) % info.sectorSize :=
    (Nat.dvd_mod_iff hsize).mpr hbits
  refine ⟨hoffset, ?_⟩
  obtain ⟨n, hn⟩ := hoffset
  obtain ⟨m, hm⟩ := hsize
  have hlt := Nat.mod_lt (u32 (cluster * info.entryWidth)) placed.nonempty
  show u32 (cluster * info.entryWidth) % info.sectorSize + info.entryWidth ≤ info.sectorSize
  rw [hn, hm] at hlt
  rw [hn, hm, ← Nat.mul_succ]
  exact Nat.mul_le_mul_left _ (Nat.lt_of_mul_lt_mul_left hlt)

theorem Placed.disjoint (placed : info.Placed) {cluster cluster' : ℕ}
    (h : (info.fatSectorIndexAndOffsetFor cluster).2 ≠
      (info.fatSectorIndexAndOffsetFor cluster').2) :
    (info.fatSectorIndexAndOffsetFor cluster').2 + info.entryWidth ≤
        (info.fatSectorIndexAndOffsetFor cluster).2 ∨
      (info.fatSectorIndexAndOffsetFor cluster).2 + info.entryWidth ≤
        (info.fatSectorIndexAndOffsetFor cluster').2 := by
  obtain ⟨n, hn⟩ := (placed.place cluster).1
  obtain ⟨m, hm⟩ := (placed.place cluster').1
  rw [hn, hm] at h ⊢
  rw [← Nat.mul_succ, ← Nat.mul_succ]
  rcases Nat.lt_or_gt_of_ne (fun heq => h (congrArg _ heq) : n ≠ m) with hlt | hlt
  · exact Or.inr (Nat.mul_le_mul_left _ hlt)
  · exact Or.inl (Nat.mul_le_mul_left _ hlt)

/-- The entries that are counted stand in the sectors of the FAT, each at a place of its
own. -/
theorem mul_entryWidth_lt {cluster : ℕ} (h : cluster < info.getFatEntryCount) :
    cluster * info.entryWidth < u32 (info.fatSectors * info.sectorSize) :=
  Nat.lt_of_lt_of_le
    (Nat.mul_lt_mul_of_pos_right h info.entryWidth_pos) (Nat.div_mul_le_self _ _)

theorem sectorIndex_lt {cluster : ℕ} (h : cluster < info.getFatEntryCount) :
    (info.fatSectorIndexAndOffsetFor cluster).1 < info.fatSectors := by
  have hlt : u32 (cluster * info.entryWidth) < info.fatSectors * info.sectorSize :=
    (Nat.mod_le _ _).trans_lt ((mul_entryWidth_lt h).trans_le (Nat.mod_le _ _))
  exact Nat.div_lt_of_lt_mul (by rwa [Nat.mul_comm info.fatSectors] at hlt)

end FATInfo

namespace BlockDevice

variable {device : BlockDevice} {write : Bool} {byteOffset length : ℕ}

/-- The device does what it is asked to write. -/
def Writes (device : BlockDevice) : Prop := ∀ n, device.answers n true = .Success

theorem le_capacity_of_result (h : device.result write byteOffset length = .Success) :
    byteOffset + length ≤ device.capacity := by
  unfold result at h
  split_ifs at h
  omega

theorem Writes.result (writes : device.Writes) (h : byteOffset + length ≤ device.capacity) :
    device.result true byteOffset length = .Success := by
  unfold BlockDevice.result
  rw [if_neg (Nat.not_lt.mpr h)]
  exact writes _

end BlockDevice

namespace BlockCache

variable {hash : ℕ → ℕ} {moves : BlockMoves} {pointers : List ℕ} {cache cache' : BlockCache}
  {device device' : BlockDevice} {key id : ℕ} {needsContent : Bool} {valid : ℕ → Prop}

/-- The blocks of a cache stand on a device that writes all of them. -/
structure Stands (hash : ℕ → ℕ) (moves : BlockMoves) (cache : BlockCache) (device : BlockDevice) :
    Prop where
  room : ∀ key id, cache.heldBlocks hash key = some id →
    moves.home key + moves.size ≤ device.capacity
  writes : device.Writes
  succeed : device.WritesSucceed

theorem load_device {memory data : Memory Byte} {needsContent : Bool} (writes : device.Writes)
    (succeed : device.WritesSucceed)
    (h : moves.load device memory key needsContent = some (device', data)) :
    device'.capacity = device.capacity ∧ device'.Writes ∧ device'.WritesSucceed := by
  obtain ⟨made, htransfers, hreads⟩ := BlockMoves.load_transfers h
  have succeed' := BlockDevice.writesSucceed_of_reads htransfers hreads succeed
  unfold BlockMoves.load at h
  split_ifs at h
  · obtain ⟨addr, -, h⟩ := Option.bind_eq_some_iff.mp h
    split_ifs at h
    cases h
    exact ⟨rfl, writes, succeed'⟩
  · cases h
    exact ⟨rfl, writes, succeed'⟩

theorem load_room {memory data : Memory Byte} (apart : moves.Apart valid) (hvalid : valid key)
    (h : moves.load device memory key true = some (device', data)) :
    moves.home key + moves.size ≤ device.capacity := by
  rw [BlockMoves.load, if_pos rfl, apart.read_eq key hvalid, Option.bind_some] at h
  split_ifs at h with hsuccess
  exact BlockDevice.le_capacity_of_result hsuccess

theorem purge_device {victim : ℕ} {item item' : BlockCacheItem} (apart : moves.Apart valid)
    (hvalid : valid victim) (range : RangeOk moves item)
    (room : moves.home victim + moves.size ≤ device.capacity) (writes : device.Writes)
    (succeed : device.WritesSucceed)
    (h : moves.purge device victim item = some (device', item')) :
    device'.capacity = device.capacity ∧ device'.Writes ∧ device'.WritesSucceed := by
  rcases purge_cases h with ⟨-, rfl, -⟩ | ⟨addr, -, haddr, -, rfl⟩
  · exact ⟨rfl, writes, succeed⟩
  · rw [apart.write_eq victim hvalid, Option.some_inj] at haddr
    subst haddr
    refine ⟨rfl, writes, fun transfer hmem hwrite => ?_⟩
    rcases List.mem_cons.mp hmem with rfl | hold
    · have hrange : (moves.dirtyRange item).1 ≤ (moves.dirtyRange item).2 ∧
          (moves.dirtyRange item).2 ≤ moves.size := by
        unfold BlockMoves.dirtyRange
        split_ifs
        · exact ⟨Nat.zero_le _, Nat.le_refl _⟩
        · exact range.2
      exact writes.result (by omega)
    · exact succeed transfer hold hwrite

/-- **Fetching** fails no write where the blocks of the cache stand on the device. -/
theorem Fetched.keepsDevice (ok : cache.Ok hash moves) (backed : cache.Backed hash moves valid device)
    (apart : moves.Apart valid) (stands : cache.Stands hash moves device)
    (h : Fetched hash moves pointers cache device key needsContent cache' device' id) :
    device'.capacity = device.capacity ∧ device'.Writes ∧ device'.WritesSucceed := by
  cases h with
  | found present same blocks created => exact ⟨rfl, stands.writes, stands.succeed⟩
  | loaded absent load same blocks created => exact load_device stands.writes stands.succeed load
  | @replaced _ _ _ victim id₁ _ absent load other present free purge same blocks created =>
      obtain ⟨hcapacity, writes, succeed⟩ := load_device stands.writes stands.succeed load
      rw [← hcapacity]
      exact purge_device apart (backed.valid victim id₁ present)
        (ok.ranges id₁ (ok.known victim id₁ present))
        (by rw [hcapacity]; exact stands.room victim id₁ present) writes succeed purge

theorem Fetched.stands (ok : cache.Ok hash moves) (backed : cache.Backed hash moves valid device)
    (apart : moves.Apart valid) (hvalid : valid key) (stands : cache.Stands hash moves device)
    (h : Fetched hash moves pointers cache device key true cache' device' id) :
    cache'.Stands hash moves device' := by
  obtain ⟨hcapacity, writes, succeed⟩ := h.keepsDevice ok backed apart stands
  refine ⟨fun key' id' held => ?_, writes, succeed⟩
  rw [hcapacity]
  cases h with
  | found present same blocks created =>
      rw [same] at held
      exact stands.room key' id' held
  | loaded absent load same blocks created =>
      rw [same, update_eq] at held
      split_ifs at held with hkey
      · exact hkey ▸ load_room apart hvalid load
      · exact stands.room key' id' held
  | replaced absent load other present free purge same blocks created =>
      rw [same, update_eq, update_eq] at held
      split_ifs at held with hvictim hkey
      · exact hkey ▸ load_room apart hvalid load
      · exact stands.room key' id' held

end BlockCache

namespace FileAllocationTable

variable {hash : ℕ → ℕ} {fat fat' fat'' : FileAllocationTable} {pointers : List ℕ} {id : ℕ}

/-! ## The FAT -/

/-- The sectors of the FAT. -/
def fatSector (hash : ℕ → ℕ) (fat : FileAllocationTable) (sector : ℕ) : Memory Byte :=
  fat.fatCache.contents hash fat.info.fatMoves fat.device sector

/-- What the FAT says of a cluster. -/
def fatValue (hash : ℕ → ℕ) (fat : FileAllocationTable) (cluster : ℕ) : ℕ :=
  let place := fat.info.fatSectorIndexAndOffsetFor cluster
  fat.info.extractFatValue place.2 (fat.fatSector hash place.1)

/-- The FAT says of a cluster that it is free. -/
def IsFree (hash : ℕ → ℕ) (fat : FileAllocationTable) (cluster : ℕ) : Prop :=
  getClusterType (fat.fatValue hash cluster) = .Free

/-- The FAT is the same. -/
def SameFat (hash : ℕ → ℕ) (fat fat' : FileAllocationTable) : Prop :=
  ∀ sector < fat.info.fatSectors, ∀ i < fat.info.sectorSize,
    fat'.fatSector hash sector i = fat.fatSector hash sector i

/-- The FAT is in its place, and its sectors are in memory or on a device that writes
them. -/
structure FatSound (hash : ℕ → ℕ) (fat : FileAllocationTable) : Prop where
  placed : fat.info.Placed
  ok : fat.Ok hash
  backed : fat.fatCache.Backed hash fat.info.fatMoves (· < fat.info.fatSectors) fat.device
  stands : fat.fatCache.Stands hash fat.info.fatMoves fat.device

/-- Nothing has happened to the FAT but that it has been read. -/
structure FatRead (hash : ℕ → ℕ) (fat fat' : FileAllocationTable) : Prop where
  sound : fat'.FatSound hash
  info : fat'.info = fat.info
  hint : fat'.freeClusterHint = fat.freeClusterHint
  same : SameFat hash fat fat'

theorem FatSound.refl (sound : fat.FatSound hash) : FatRead hash fat fat :=
  ⟨sound, rfl, rfl, fun _ _ _ _ => rfl⟩

theorem FatRead.trans (read : FatRead hash fat fat') (read' : FatRead hash fat' fat'') :
    FatRead hash fat fat'' := by
  refine ⟨read'.sound, read'.info.trans read.info, read'.hint.trans read.hint,
    fun sector hsector i hi => ?_⟩
  rw [← read.same sector hsector i hi]
  exact read'.same sector (by rwa [read.info]) i (by rwa [read.info])

theorem FatRead.fatValue_eq (read : FatRead hash fat fat') {cluster : ℕ}
    (hsector : (fat.info.fatSectorIndexAndOffsetFor cluster).1 < fat.info.fatSectors) :
    fat'.fatValue hash cluster = fat.fatValue hash cluster := by
  have hplace := (FatSound.placed read.sound).place cluster
  rw [read.info] at hplace
  unfold fatValue
  rw [read.info]
  exact FATInfo.extractFatValue_congr fun i hi => read.same _ hsector _ (by omega)

theorem FatRead.isFree_iff (read : FatRead hash fat fat') {cluster : ℕ}
    (h : cluster < fat.info.getFatEntryCount) :
    fat'.IsFree hash cluster ↔ fat.IsFree hash cluster := by
  unfold IsFree
  rw [read.fatValue_eq (FATInfo.sectorIndex_lt h)]

theorem FatSound.mounted {info : FATInfo} (placed : info.Placed) (bytes : Memory Byte)
    (capacity : ℕ) {answers : ℕ → Bool → TransferResult} (writes : ∀ n, answers n true = .Success)
    (scratch : ℕ → Memory Byte) :
    (FileAllocationTable.mounted info bytes capacity answers scratch).FatSound hash := by
  have hnone : ∀ key, (FileAllocationTable.mounted info bytes capacity answers
      scratch).fatCache.heldBlocks hash key = none :=
    LruCache.held_new (hashRespects_nat hash) (by decide : 1 ≤ fatSectorCacheMax)
  refine ⟨placed, .mount _ _ _, ⟨fun key id h => ?_, fun key id h => ?_⟩,
    ⟨fun key id h => ?_, writes, fun _ hmem => nomatch hmem⟩⟩
  all_goals
    rw [hnone] at h
    cases h

/-- **Fetching a sector** reads the FAT. -/
theorem FatSound.fetch (sound : fat.FatSound hash) {sector : ℕ}
    (h : fat.fetchFatSector hash pointers sector = some (fat', id)) :
    FatRead hash fat fat' ∧ fat'.fatCache.heldBlocks hash sector = some id ∧
      (fat'.fatCache.blocks id).data = fat'.fatSector hash sector := by
  obtain ⟨cache, device, rfl, hsector, hfetched, ok'⟩ := sound.ok.fetchFatSector h
  have stands' := hfetched.stands sound.ok.sectors sound.backed sound.placed.apart hsector
    sound.stands
  obtain ⟨backed', hsame, -⟩ := hfetched.contents sound.ok.sectors sound.backed
    sound.placed.apart hsector stands'.succeed
  exact ⟨⟨⟨sound.placed, ok', backed', stands'⟩, rfl, rfl, hsame⟩, hfetched.present,
    (BlockCache.contents_of_held hfetched.present).symm⟩

/-- **Changing a sector** that is in memory changes that sector. -/
theorem FatSound.writeSector (sound : fat.FatSound hash) {sector : ℕ}
    (held : fat.fatCache.heldBlocks hash sector = some id) (f : Memory Byte → Memory Byte) :
    (fat.writeSector id f).FatSound hash ∧
      ∀ other, (fat.writeSector id f).fatSector hash other =
        if other = sector then f (fat.fatSector hash other) else fat.fatSector hash other := by
  have hblock : ∀ id', (fat.writeSector id f).fatCache.blocks id' =
      if id' = id then ((fat.fatCache.blocks id).withData
        (f (fat.fatCache.blocks id).data)).setWholeDirty else fat.fatCache.blocks id' := by
    intro id'
    exact Function.update_apply _ _ _ _
  refine ⟨⟨sound.placed, sound.ok.writeSector f, ⟨sound.backed.valid, ?_⟩,
    ⟨sound.stands.room, sound.stands.writes, sound.stands.succeed⟩⟩, fun other => ?_⟩
  · intro key id' held' i hi hclean
    rw [hblock] at hclean ⊢
    split_ifs at hclean ⊢ with hid
    · have hsize := (sound.ok.sectors.ranges id (sound.ok.sectors.known _ _ held)).1
      have hpos : fat.info.fatMoves.size ≠ 0 := sound.placed.nonempty.ne'
      exact absurd ⟨fun h => hpos (hsize.symm.trans h), Nat.zero_le i, hi⟩ hclean
    · exact sound.backed.clean key id' held' i hi hclean
  · unfold fatSector
    cases hother : fat.fatCache.heldBlocks hash other with
    | none =>
        have hne : other ≠ sector := fun heq => by
          rw [heq, held] at hother
          cases hother
        have hother' : (fat.writeSector id f).fatCache.heldBlocks hash other = none := hother
        rw [if_neg hne]
        funext i
        rw [BlockCache.contents_of_absent hother', BlockCache.contents_of_absent hother]
        rfl
    | some id' =>
        have hother' : (fat.writeSector id f).fatCache.heldBlocks hash other = some id' := hother
        rw [BlockCache.contents_of_held hother', BlockCache.contents_of_held hother, hblock]
        by_cases hsector : other = sector
        · rw [hsector, held, Option.some_inj] at hother
          rw [if_pos hother.symm, if_pos hsector, hother]
          rfl
        · have hid : id' ≠ id := fun heq =>
            hsector (sound.ok.sectors.inj _ _ _ hother (heq ▸ held))
          rw [if_neg hid, if_neg hsector]

/-- **Putting a value** into the entry of a cluster, whose sector is in memory. -/
theorem FatSound.setValue (sound : fat.FatSound hash) {cluster : ℕ}
    (held : fat.fatCache.heldBlocks hash (fat.info.fatSectorIndexAndOffsetFor cluster).1 = some id)
    (value : ℕ) :
    (fat.writeSector id fun data => fat.info.setFatValue
        (fat.info.fatSectorIndexAndOffsetFor cluster).2 data value).FatSound hash ∧
      ∀ c, (fat.writeSector id fun data => fat.info.setFatValue
          (fat.info.fatSectorIndexAndOffsetFor cluster).2 data value).fatValue hash c =
        if fat.info.fatSectorIndexAndOffsetFor c = fat.info.fatSectorIndexAndOffsetFor cluster then
          fat.info.storedValue value
        else fat.fatValue hash c := by
  obtain ⟨sound', hsector⟩ := sound.writeSector held fun data => fat.info.setFatValue
    (fat.info.fatSectorIndexAndOffsetFor cluster).2 data value
  refine ⟨sound', fun c => ?_⟩
  unfold fatValue
  dsimp only
  rw [writeSector_info, hsector]
  by_cases hindex : (fat.info.fatSectorIndexAndOffsetFor c).1 =
      (fat.info.fatSectorIndexAndOffsetFor cluster).1
  · rw [if_pos hindex]
    by_cases hoffset : (fat.info.fatSectorIndexAndOffsetFor c).2 =
        (fat.info.fatSectorIndexAndOffsetFor cluster).2
    · rw [if_pos (Prod.ext hindex hoffset), hoffset, FATInfo.extractFatValue_setFatValue]
    · rw [if_neg fun heq => hoffset (congrArg Prod.snd heq),
        FATInfo.extractFatValue_setFatValue_of_disjoint
          (sound.placed.disjoint (Ne.symm hoffset))]
  · rw [if_neg hindex, if_neg fun heq => hindex (congrArg Prod.fst heq)]

end FileAllocationTable

end BekOS
