import BekOS.Filesystem.BootSector
import BekOS.Filesystem.FatContents

/-!
# Allocating clusters

`allocateNextCluster` looks for a free entry of the FAT from a hint on.  It takes the
first one there is, as long as no cluster is freed behind its back, since nothing below
the hint is free then.  It looks as far as the sectors of the FAT go, and these have
entries behind that of the last cluster of the volume.
-/

namespace BekOS.FileAllocationTable

open PartialRun

variable {hash : ℕ → ℕ} {fat fat' fat'' : FileAllocationTable} {clusters : ℕ}

/-! ## Linking a cluster -/

/-- One cluster has been linked in behind another. -/
structure Linked (hash : ℕ → ℕ) (fat : FileAllocationTable) (current candidate : ℕ)
    (fat' : FileAllocationTable) : Prop where
  sound : fat'.FatSound hash
  info : fat'.info = fat.info
  hint : fat'.freeClusterHint =
    if candidate + 1 ≥ fat.info.getFatEntryCount then 2 else candidate + 1
  value : ∀ c, (fat.info.fatSectorIndexAndOffsetFor c).1 < fat.info.fatSectors →
    fat'.fatValue hash c =
      if fat.info.fatSectorIndexAndOffsetFor c = fat.info.fatSectorIndexAndOffsetFor current then
        fat.info.storedValue candidate
      else if fat.info.fatSectorIndexAndOffsetFor c =
          fat.info.fatSectorIndexAndOffsetFor candidate then fat.info.storedValue clusterEoc
      else fat.fatValue hash c

theorem FatSound.linkCluster (sound : fat.FatSound hash) {current candidate sector found : ℕ}
    (held : fat.fatCache.heldBlocks hash (fat.info.fatSectorIndexAndOffsetFor candidate).1 =
      some sector)
    (h : fat.linkCluster hash current candidate sector = some (fat', found)) :
    found = candidate ∧ Linked hash fat current candidate fat' := by
  obtain ⟨⟨fat₁, original⟩, hfetch, h⟩ := Option.map_eq_some_iff.mp h
  cases h
  obtain ⟨ended, hended⟩ := sound.setValue held clusterEoc
  have hinted : FatSound hash { fat.writeSector sector fun data => fat.info.setFatValue
      (fat.info.fatSectorIndexAndOffsetFor candidate).2 data clusterEoc with
      freeClusterHint :=
        if candidate + 1 ≥ fat.info.getFatEntryCount then 2 else candidate + 1 } :=
    ⟨ended.placed, ended.ok.withHint _, ended.backed, ended.stands⟩
  obtain ⟨read, held₁, -⟩ := hinted.fetch hfetch
  have hinfo : fat₁.info = fat.info := read.info
  have sound₁ : fat₁.FatSound hash := read.sound
  rw [← hinfo] at held₁
  obtain ⟨linked, hlinked⟩ := sound₁.setValue held₁ candidate
  rw [hinfo] at linked hlinked
  refine ⟨rfl, linked, hinfo, read.hint, fun c hc => ?_⟩
  rw [hlinked, read.fatValue_eq hc]
  refine if_congr Iff.rfl rfl ?_
  exact hended c

/-! ## Looking for a free cluster -/

/-- What `allocateNextCluster` does, from the cluster on that it looks at first. -/
inductive Allocates (hash : ℕ → ℕ) (fat : FileAllocationTable) (current first : ℕ)
    (fat' : FileAllocationTable) : ℕ → Prop
  | full (read : FatRead hash fat fat')
      (taken : ∀ c, first ≤ c → c < fat.info.getFatEntryCount → ¬ fat.IsFree hash c) :
      Allocates hash fat current first fat' 0
  | found {candidate : ℕ} (low : first ≤ candidate) (high : candidate < fat.info.getFatEntryCount)
      (skipped : ∀ c, first ≤ c → c < candidate → ¬ fat.IsFree hash c)
      (free : fat.IsFree hash candidate) (linked : Linked hash fat current candidate fat') :
      Allocates hash fat current first fat' candidate

theorem FatRead.linked (read : FatRead hash fat fat') {current candidate : ℕ}
    (linked : Linked hash fat' current candidate fat'') :
    Linked hash fat current candidate fat'' := by
  obtain ⟨sound, hinfo, hhint, hvalue⟩ := linked
  rw [read.info] at hinfo hhint hvalue
  refine ⟨sound, hinfo, hhint, fun c hc => ?_⟩
  rw [hvalue c hc, read.fatValue_eq hc]

theorem FatRead.allocates (read : FatRead hash fat fat') {current first found : ℕ}
    (h : Allocates hash fat' current first fat'' found) :
    Allocates hash fat current first fat'' found := by
  have htaken : ∀ c < fat.info.getFatEntryCount, ¬ fat'.IsFree hash c → ¬ fat.IsFree hash c :=
    fun c hc => mt (read.isFree_iff hc).mpr
  cases h with
  | full read' taken =>
      rw [read.info] at taken
      exact .full (read.trans read') fun c hfirst hc => htaken c hc (taken c hfirst hc)
  | found low high skipped free linked =>
      rw [read.info] at high
      exact .found low high (fun c hfirst hc => htaken c (hc.trans high) (skipped c hfirst hc))
        ((read.isFree_iff high).mp free) (read.linked linked)

theorem Allocates.step {current first found : ℕ} (taken : ¬ fat.IsFree hash first)
    (h : Allocates hash fat current (first + 1) fat' found) :
    Allocates hash fat current first fat' found := by
  have hcases : ∀ {c}, first ≤ c → c = first ∨ first + 1 ≤ c := by omega
  cases h with
  | full read later =>
      refine .full read fun c hfirst hc => ?_
      rcases hcases hfirst with rfl | hlater
      · exact taken
      · exact later c hlater hc
  | found low high skipped free linked =>
      refine .found (by omega) high (fun c hfirst hc => ?_) free linked
      rcases hcases hfirst with rfl | hlater
      · exact taken
      · exact skipped c hlater hc

/-- The loop, with the last sector in memory. -/
theorem FatSound.allocateFrom {current : ℕ} :
    ∀ (remaining : ℕ) {fat fat' : FileAllocationTable} {candidate index id found : ℕ},
      fat.FatSound hash → fat.fatCache.heldBlocks hash index = some id →
      remaining = fat.info.getFatEntryCount - candidate →
      FileAllocationTable.allocateFrom hash current remaining fat candidate index id =
        some (fat', found) →
      Allocates hash fat current candidate fat' found := by
  intro remaining
  induction remaining with
  | zero =>
      intro fat fat' candidate index id found sound _ hremaining h
      cases h
      exact .full sound.refl fun c hfirst hc => by omega
  | succ remaining ih =>
      intro fat fat' candidate index id found sound held hremaining h
      obtain ⟨⟨fat₁, id₁⟩, hsector, h⟩ := Option.bind_eq_some_iff.mp h
      obtain ⟨read, held₁⟩ : FatRead hash fat fat₁ ∧
          fat₁.fatCache.heldBlocks hash (fat.info.fatSectorIndexAndOffsetFor candidate).1 =
            some id₁ := by
        split_ifs at hsector with hsame
        · obtain ⟨read, held₁, -⟩ := sound.fetch hsector
          exact ⟨read, held₁⟩
        · cases hsector
          rw [not_not.mp hsame]
          exact ⟨sound.refl, held⟩
      have hvalue : fat.info.extractFatValue (fat.info.fatSectorIndexAndOffsetFor candidate).2
          (fat₁.fatCache.blocks id₁).data = fat₁.fatValue hash candidate := by
        unfold fatValue fatSector
        dsimp only
        rw [read.info, BlockCache.contents_of_held held₁]
      dsimp only at h
      rw [hvalue] at h
      rw [← read.info] at h held₁ hremaining
      refine read.allocates ?_
      split_ifs at h with htype
      · exact (ih read.sound held₁ (by omega) h).step htype
      · obtain ⟨rfl, linked⟩ := read.sound.linkCluster held₁ h
        exact .found le_rfl (by omega) (fun c hfirst hc => by omega) (not_not.mp htype) linked

/-- **`allocateNextCluster`** links in the first free cluster from the hint on, or finds that
there is none. -/
theorem FatSound.allocateNextCluster (sound : fat.FatSound hash) {current found : ℕ}
    (h : fat.allocateNextCluster hash current = some (fat', found)) :
    Allocates hash fat current (max 2 fat.freeClusterHint) fat' found := by
  obtain ⟨⟨fat₁, id⟩, hfetch, h⟩ := Option.bind_eq_some_iff.mp h
  obtain ⟨read, held, -⟩ := sound.fetch hfetch
  refine read.allocates ?_
  rw [← read.info] at h
  exact FatSound.allocateFrom _ read.sound (by rwa [read.info]) rfl h

/-! ## Calls one after the other -/

/-- No cluster has been freed. -/
structure Undisturbed (hash : ℕ → ℕ) (fat fat' : FileAllocationTable) : Prop where
  sound : fat'.FatSound hash
  info : fat'.info = fat.info
  hint : fat'.freeClusterHint = fat.freeClusterHint
  freed : ∀ c < fat.info.getFatEntryCount, fat'.IsFree hash c → fat.IsFree hash c

/-- What may happen between two calls: anything that frees no cluster. -/
structure OtherWork (hash : ℕ → ℕ) where
  run : FileAllocationTable → Option FileAllocationTable
  undisturbed : ∀ {fat fat'}, fat.FatSound hash → run fat = some fat' → Undisturbed hash fat fat'

/-- A call of `allocateNextCluster`, or other work. -/
inductive ClusterCall (hash : ℕ → ℕ) where
  | allocateNextCluster (currentCluster : ℕ)
  | other (work : OtherWork hash)

/-- One call, and the cluster that `allocateNextCluster` returns. -/
def callStep (hash : ℕ → ℕ) (fat : FileAllocationTable) :
    ClusterCall hash → Option (FileAllocationTable × Option ℕ)
  | .allocateNextCluster currentCluster =>
      (fat.allocateNextCluster hash currentCluster).map (Prod.map id some)
  | .other work => (work.run fat).map fun fat' => (fat', none)

/-- A call returns a cluster of the data area that was free; or 0, with the FAT unchanged,
where no cluster of the data area is. -/
def AllocatesData (hash : ℕ → ℕ) (clusters : ℕ) (fat : FileAllocationTable) :
    ClusterCall hash → Prop
  | .allocateNextCluster currentCluster =>
      ∀ done, fat.allocateNextCluster hash currentCluster = some done →
        (done.2 ≠ 0 → fat.IsFree hash done.2 ∧ 2 ≤ done.2 ∧ done.2 < clusters + 2) ∧
          (done.2 = 0 → SameFat hash fat done.1 ∧ ∀ c, 2 ≤ c → c < clusters + 2 →
            c < fat.info.getFatEntryCount → ¬ fat.IsFree hash c)
  | .other _ => True

/-- The call finds a cluster of the data area free, or no entry of the FAT at all. -/
def DataLeft (hash : ℕ → ℕ) (clusters : ℕ) (fat : FileAllocationTable) :
    ClusterCall hash → Prop
  | .allocateNextCluster currentCluster =>
      (fat.allocateNextCluster hash currentCluster).isSome →
        (∃ c, 2 ≤ c ∧ c < clusters + 2 ∧ c < fat.info.getFatEntryCount ∧ fat.IsFree hash c) ∨
          ∀ c, 2 ≤ c → c < fat.info.getFatEntryCount → ¬ fat.IsFree hash c
  | .other _ => True

/-- The numbers of so many clusters fit into the entries of the FAT. -/
structure FATInfo.Numbers (info : FATInfo) (clusters : ℕ) : Prop where
  fat16 : info.fatType = .FAT16 → clusters + 2 ≤ 0x10000
  fat32 : clusters + 2 ≤ 0x10000000

/-- **Nothing is free below the hint.** -/
structure Searched (hash : ℕ → ℕ) (info : FATInfo) (fat : FileAllocationTable) : Prop where
  sound : fat.FatSound hash
  geometry : fat.info = info
  taken : ∀ c, 2 ≤ c → c < fat.freeClusterHint → c < info.getFatEntryCount → ¬ fat.IsFree hash c

/-- **One call** is right exactly when data is left, or nothing. -/
theorem Searched.allocatesData_iff {info : FATInfo} (searched : Searched hash info fat)
    (call : ClusterCall hash) :
    AllocatesData hash clusters fat call ↔ DataLeft hash clusters fat call := by
  cases call with
  | other work => exact Iff.rfl
  | allocateNextCluster current =>
      obtain ⟨sound, rfl, hbelow⟩ := searched
      unfold AllocatesData DataLeft
      dsimp only
      cases hdone : fat.allocateNextCluster hash current with
      | none => exact iff_of_true nofun nofun
      | some done =>
          obtain ⟨fat', found⟩ := done
          have hallocates := sound.allocateNextCluster hdone
          simp only [Option.some.injEq, forall_eq', Option.isSome_some, forall_const]
          cases hallocates with
          | full read taken =>
              have hnone : ∀ c, 2 ≤ c → c < fat.info.getFatEntryCount → ¬ fat.IsFree hash c := by
                intro c hlow hc
                by_cases hhint : c < fat.freeClusterHint
                · exact hbelow c hlow hhint hc
                · exact taken c (by omega) hc
              exact iff_of_true ⟨fun h => absurd rfl h, fun _ =>
                ⟨read.same, fun c hlow _ hc => hnone c hlow hc⟩⟩ (Or.inr hnone)
          | found low high skipped free linked =>
              have hfirst : ∀ c, 2 ≤ c → c < found → ¬ fat.IsFree hash c := by
                intro c hlow hc
                by_cases hhint : c < fat.freeClusterHint
                · exact hbelow c hlow hhint (hc.trans high)
                · exact skipped c (by omega) hc
              constructor
              · intro h
                obtain ⟨-, hlow, hdata⟩ := h.1 (by omega)
                exact Or.inl ⟨found, hlow, hdata, high, free⟩
              · rintro (⟨c, hlow, hdata, hc, hfree⟩ | hnone)
                · have hle : found ≤ c := by
                    by_contra hlt
                    exact hfirst c hlow (Nat.lt_of_not_le hlt) hfree
                  exact ⟨fun _ => ⟨free, by omega, by omega⟩, fun h => by omega⟩
                · exact absurd free (hnone found (by omega) high)

/-- A call that is right leaves nothing free below the hint. -/
theorem Searched.callStep {info : FATInfo} (numbers : FATInfo.Numbers info clusters)
    (searched : Searched hash info fat) {call : ClusterCall hash}
    (left : DataLeft hash clusters fat call) {moved : FileAllocationTable × Option ℕ}
    (h : FileAllocationTable.callStep hash fat call = some moved) :
    Searched hash info moved.1 := by
  have hdata := (searched.allocatesData_iff call).mpr left
  obtain ⟨sound, rfl, hbelow⟩ := searched
  cases call with
  | other work =>
      obtain ⟨next, hnext, rfl⟩ := Option.map_eq_some_iff.mp h
      have undisturbed := work.undisturbed sound hnext
      refine ⟨undisturbed.sound, undisturbed.info, fun c hlow hhint hc hfree => ?_⟩
      rw [undisturbed.hint] at hhint
      exact hbelow c hlow hhint hc (undisturbed.freed c hc hfree)
  | allocateNextCluster current =>
      obtain ⟨⟨fat', found⟩, hdone, rfl⟩ := Option.map_eq_some_iff.mp h
      have hfound := (hdata _ hdone).1
      have hallocates := sound.allocateNextCluster hdone
      cases hallocates with
      | full read taken =>
          refine ⟨read.sound, read.info, fun c hlow hhint hc hfree => ?_⟩
          have hsame : fat'.freeClusterHint = fat.freeClusterHint := read.hint
          exact hbelow c hlow (hsame ▸ hhint) hc ((read.isFree_iff hc).mp hfree)
      | found low high skipped free linked =>
          obtain ⟨-, htwo, hlast⟩ := hfound (by omega)
          refine ⟨linked.sound, linked.info, fun c hlow hhint hc hfree => ?_⟩
          have hle : c ≤ found := by
            have hnext : c < if found + 1 ≥ fat.info.getFatEntryCount then 2 else found + 1 :=
              linked.hint ▸ hhint
            split_ifs at hnext <;> omega
          have hlink : getClusterType (fat.info.storedValue found) ≠ .Free := by
            refine FATInfo.storedValue_not_free (fun h16 => ?_) fun _ => ?_
            · have := numbers.fat16 h16
              omega
            · have := numbers.fat32
              omega
          have hend : getClusterType (fat.info.storedValue clusterEoc) ≠ .Free :=
            FATInfo.storedValue_not_free (fun _ => by decide) fun _ => by decide
          have hfree : getClusterType (fat'.fatValue hash c) = .Free := hfree
          rw [linked.value c (FATInfo.sectorIndex_lt hc)] at hfree
          split_ifs at hfree with hcurrent hcandidate
          · exact hlink hfree
          · exact hend hfree
          · have hlt : c < found := by
              refine lt_of_le_of_ne hle fun heq => hcandidate ?_
              rw [heq]
            by_cases hhint' : c < fat.freeClusterHint
            · exact hbelow c hlow hhint' hc hfree
            · exact skipped c (by omega) hlt hfree

/-! ## Volumes -/

theorem placed_of_fromBootSector {buffer : Memory Byte} {info : FATInfo}
    (h : fromBootSector buffer = some info)
    (below : (info.fatBeginSector + info.fatSectors) * info.sectorSize < 0x100000000) :
    info.Placed := by
  obtain ⟨recognised, -, hsize⟩ := BootSector.of_fromBootSector h
  obtain ⟨-, hpower, hlow, -⟩ := recognised
  have hpos : 0 < BootSector.sectorSize buffer := by omega
  obtain ⟨k, hk⟩ := (Nat.and_sub_one_eq_zero_iff_isPowerOfTwo hpos.ne').mp hpower
  have htwo : 2 ≤ k := by
    by_contra hsmall
    have hle : 2 ^ k ≤ 2 ^ 1 := Nat.pow_le_pow_right (by decide) (by omega)
    omega
  refine ⟨?_, hsize ▸ hpos, below⟩
  rw [hsize, hk]
  exact pow_dvd_pow 2 htwo

theorem numbers_of_fromBootSector {buffer : Memory Byte} {info : FATInfo}
    (h : fromBootSector buffer = some info)
    (below : BootSector.dataClusters buffer + 2 ≤ 0x10000000) :
    FATInfo.Numbers info (BootSector.dataClusters buffer) := by
  refine ⟨fun h16 => ?_, below⟩
  have hle : BootSector.dataClusters buffer ≤
      BootSector.totalSectors buffer / BootSector.sectorsPerCluster buffer :=
    BootSector.dataClusters_le
  rw [(BootSector.of_fromBootSector h).2.1] at h16
  unfold BootSector.typeOf at h16
  split_ifs at h16
  omega

/-- **Allocation.** -/
theorem run_allocatesData_iff (hash : ℕ → ℕ) {buffer : Memory Byte} {info : FATInfo}
    (h : fromBootSector buffer = some info)
    (below : (info.fatBeginSector + info.fatSectors) * info.sectorSize < 0x100000000)
    (numbers : BootSector.dataClusters buffer + 2 ≤ 0x10000000) (bytes : Memory Byte)
    (capacity : ℕ) {answers : ℕ → Bool → TransferResult} (writes : ∀ n, answers n true = .Success)
    (scratch : ℕ → Memory Byte) (calls : List (ClusterCall hash)) :
    StepsMeet (callStep hash) (AllocatesData hash (BootSector.dataClusters buffer))
        (mounted info bytes capacity answers scratch) calls ↔
      StepsMeet (callStep hash) (DataLeft hash (BootSector.dataClusters buffer))
        (mounted info bytes capacity answers scratch) calls := by
  refine stepsMeet_iff (fun state call searched => searched.allocatesData_iff call)
    (fun state call moved searched left hstep =>
      searched.callStep (numbers_of_fromBootSector h numbers) left hstep)
    (⟨.mounted (placed_of_fromBootSector h below) bytes capacity writes scratch, rfl,
      fun c hlow hhint => absurd hhint (Nat.not_lt_zero c)⟩ :
      Searched hash info (mounted info bytes capacity answers scratch))

/-! ## A full volume -/

/-- The boot sector of a volume of 4085 clusters, and its FAT, which has 4096 entries: the
clusters are taken, and the entries behind theirs are zero. -/
def fullDisk : Memory Byte := fun a =>
  if 4096 ≤ a ∧ a < 4096 + 2 * 4087 then 0xFF
  else leWrite (BootSector.sample 1 1 1 512 4092 2) 11 4096 2 a

/-- What `fromBootSector` makes of it. -/
def fullVolume : FATInfo where
  fatType := .FAT16
  sectorSize := 4096
  sectorsPerCluster := 1
  fatBeginSector := 1
  fatSectors := 2
  rootDirCluster := 0
  rootStartSector := 3
  rootEntryCount := 512
  dataBeginSector := 7

/-- The volume, as it is mounted. -/
def fullMounted : FileAllocationTable :=
  mounted fullVolume fullDisk 0x2000000 (fun _ _ => .Success) fun _ _ => 0

theorem fullVolume_eq : fromBootSector fullDisk = some fullVolume := by decide +kernel

theorem fullVolume_place (c : ℕ) (h : c < 4096) :
    fullVolume.fatSectorIndexAndOffsetFor c = (c * 2 / 4096, c * 2 % 4096) :=
  congrArg (fun n => (n / 4096, n % 4096)) (Nat.mod_eq_of_lt (by omega) : u32 (c * 2) = c * 2)

theorem fullMounted_sound : fullMounted.FatSound id :=
  .mounted ⟨⟨1024, rfl⟩, by decide, by decide⟩ _ _ (fun _ => rfl) _

theorem fullMounted_taken {c : ℕ} (h : c < 4087) : ¬ fullMounted.IsFree id c := by
  have hsector : ∀ sector i, fullMounted.fatSector id sector i =
      fullDisk ((1 + sector) * 4096 + i) := fun sector i => by
    have hnone : fullMounted.fatCache.heldBlocks id sector = none :=
      LruCache.held_new (hashRespects_nat id) (by decide : 1 ≤ fatSectorCacheMax) sector
    exact BlockCache.contents_of_absent hnone i
  have hbyte : ∀ i < fullVolume.entryWidth, fullMounted.fatSector id (c * 2 / 4096) (c * 2 % 4096 + i) = 0xFF := by
    intro i (hi : i < 2)
    rw [hsector]
    exact if_pos (by omega)
  unfold IsFree fatValue
  show getClusterType (fullVolume.extractFatValue (fullVolume.fatSectorIndexAndOffsetFor c).2
    (fullMounted.fatSector id (fullVolume.fatSectorIndexAndOffsetFor c).1)) ≠ .Free
  rw [fullVolume_place c (by omega)]
  have hread : fullVolume.extractFatValue (c * 2 % 4096)
      (fullMounted.fatSector id (c * 2 / 4096)) = fullVolume.extractFatValue 0 fun _ => 0xFF :=
    FATInfo.extractFatValue_congr hbyte
  rw [hread]
  decide

theorem allocateFrom_skip {hash : ℕ → ℕ} {fat : FileAllocationTable} {current index id : ℕ}
    (remaining : ℕ) :
    ∀ (n : ℕ) {candidate : ℕ},
      (∀ c, candidate ≤ c → c < candidate + n →
        (fat.info.fatSectorIndexAndOffsetFor c).1 = index ∧
          getClusterType (fat.info.extractFatValue (fat.info.fatSectorIndexAndOffsetFor c).2
            (fat.fatCache.blocks id).data) ≠ .Free) →
      allocateFrom hash current (n + remaining) fat candidate index id =
        allocateFrom hash current remaining fat (candidate + n) index id := by
  intro n
  induction n with
  | zero =>
      intro candidate _
      rw [Nat.zero_add, Nat.add_zero]
  | succ n ih =>
      intro candidate h
      obtain ⟨hindex, htaken⟩ := h candidate le_rfl (by omega)
      rw [Nat.succ_add, allocateFrom]
      dsimp only
      rw [if_neg (not_not_intro hindex), Option.bind_some, if_pos htaken, hindex,
        ih fun c hlow hhigh => h c (by omega) (by omega), Nat.succ_add, Nat.add_succ]

theorem fetched_taken {fat : FileAllocationTable} {sector id' : ℕ}
    (read : FatRead id fullMounted fat) (held : fat.fatCache.heldBlocks id sector = some id')
    {c : ℕ} (h : c < 4087) (hsector : c * 2 / 4096 = sector) :
    (fat.info.fatSectorIndexAndOffsetFor c).1 = sector ∧
      getClusterType (fat.info.extractFatValue (fat.info.fatSectorIndexAndOffsetFor c).2
        (fat.fatCache.blocks id').data) ≠ .Free := by
  have hplace : fat.info.fatSectorIndexAndOffsetFor c = (c * 2 / 4096, c * 2 % 4096) := by
    rw [read.info]
    exact fullVolume_place c (by omega)
  have hcount : c < fullMounted.info.getFatEntryCount := h.trans (by decide)
  have htaken : ¬ fat.IsFree id c := mt (read.isFree_iff hcount).mp (fullMounted_taken h)
  unfold IsFree fatValue fatSector at htaken
  dsimp only at htaken
  rw [hplace] at htaken ⊢
  refine ⟨hsector, ?_⟩
  rwa [hsector, BlockCache.contents_of_held held] at htaken

/-- The volume is full, and the entry behind its last cluster is returned. -/
theorem allocateNextCluster_beyond :
    ∃ final, fullMounted.allocateNextCluster id 3 = some (final, 4087) := by
  -- The two sectors are fetched, and a cluster of the second one is linked in.
  have hruns : (((fullMounted.fetchFatSector id [] 0).bind fun first =>
      (first.1.fetchFatSector id [first.2] 1).bind fun second =>
        if getClusterType (fullVolume.extractFatValue 4078
            (second.1.fatCache.blocks second.2).data) = .Free then
          second.1.linkCluster id 3 4087 second.2 else none).map Prod.snd) = some 4087 := by
    decide +kernel
  obtain ⟨⟨final, found⟩, hruns, rfl⟩ := Option.map_eq_some_iff.mp hruns
  obtain ⟨⟨fat₀, id₀⟩, hfirst, hruns⟩ := Option.bind_eq_some_iff.mp hruns
  obtain ⟨⟨fat₁, id₁⟩, hsecond, hruns⟩ := Option.bind_eq_some_iff.mp hruns
  obtain ⟨read₀, held₀, -⟩ := fullMounted_sound.fetch hfirst
  obtain ⟨read₁, held₁, -⟩ := read₀.sound.fetch hsecond
  have read := read₀.trans read₁
  have hinfo₀ : fat₀.info = fullVolume := read₀.info
  have hinfo₁ : fat₁.info = fullVolume := read.info
  obtain ⟨hfree, hlinked⟩ := Option.ite_none_right_eq_some.mp hruns
  refine ⟨final, ?_⟩
  calc fullMounted.allocateNextCluster id 3
      = (fullMounted.fetchFatSector id [] 0).bind fun first =>
          allocateFrom id 3 (2046 + 2048) first.1 2 0 first.2 := rfl
    _ = allocateFrom id 3 (2047 + 1) fat₀ 2048 0 id₀ := by
        rw [hfirst, Option.bind_some, allocateFrom_skip 2048 2046 fun c _ hc =>
          fetched_taken read₀ held₀ (by omega) (by omega)]
    _ = allocateFrom id 3 (2038 + 9) fat₁ 2049 1 id₁ := by
        have htaken := fetched_taken read held₁ (by decide : 2048 < 4087) (by decide)
        rw [allocateFrom, hinfo₀, fullVolume_place 2048 (by decide)]
        rw [hinfo₁, fullVolume_place 2048 (by decide)] at htaken
        dsimp only
        rw [if_pos (by decide), hsecond, Option.bind_some]
        exact if_pos htaken.2
    _ = allocateFrom id 3 (8 + 1) fat₁ 4087 1 id₁ := by
        rw [allocateFrom_skip 9 2038 fun c _ hc =>
          fetched_taken read held₁ (by omega) (by omega)]
    _ = fat₁.linkCluster id 3 4087 id₁ := by
        rw [allocateFrom, hinfo₁, fullVolume_place 4087 (by decide)]
        dsimp only
        rw [if_neg (by decide), Option.bind_some]
        exact if_neg (not_not_intro hfree)
    _ = some (final, 4087) := hlinked

/-- The volume is full, and the call returns a cluster behind its last one. -/
theorem run_allocatesData_fails :
    ¬ StepsMeet (callStep id) (AllocatesData id (BootSector.dataClusters fullDisk)) fullMounted
      [.allocateNextCluster 3] := by
  intro h
  obtain ⟨final, hdone⟩ := allocateNextCluster_beyond
  obtain ⟨-, -, hdata⟩ := (h.1 _ hdone).1 (show 4087 ≠ 0 by decide)
  have hlast : 4087 < BootSector.dataClusters fullDisk + 2 := hdata
  exact absurd hlast (by decide +kernel)

theorem run_allocatesData_full :
    StepsMeet (callStep id) (AllocatesData id (BootSector.dataClusters fullDisk)) fullMounted
        [.allocateNextCluster 3] ↔
      StepsMeet (callStep id) (DataLeft id (BootSector.dataClusters fullDisk)) fullMounted
        [.allocateNextCluster 3] :=
  run_allocatesData_iff id fullVolume_eq (by decide) (by decide +kernel) fullDisk 0x2000000
    (fun _ => rfl) (fun _ _ => 0) [.allocateNextCluster 3]

end BekOS.FileAllocationTable
