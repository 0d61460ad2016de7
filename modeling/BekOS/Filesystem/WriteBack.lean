import BekOS.Filesystem.FatRuns

/-!
# Whether a modification can be lost

A dirty block leaves its cache only when another takes its place, and is written back
then.  `purge_cluster` and `purge_fat_sector` do not look at what the write returns and
have nothing to return themselves, so that the modification is lost when it fails.
-/

namespace BekOS

open Function

/-! ## What is told of a write -/

/-- The device, if it were to answer otherwise. -/
def BlockDevice.answering (device : BlockDevice) (answers : ℕ → Bool → TransferResult) :
    BlockDevice :=
  { device with answers := answers }

namespace BlockMoves

variable {moves : BlockMoves} {device : BlockDevice} {answers : ℕ → Bool → TransferResult}

theorem purge_untold (device other : BlockDevice) (key : ℕ) (item : BlockCacheItem) :
    (moves.purge device key item).map Prod.snd = (moves.purge other key item).map Prod.snd := by
  unfold purge
  split_ifs with hdirty
  · rw [Option.map_map, Option.map_map]
    rfl
  · rfl

theorem load_answering (hreads : ∀ n, answers n false = device.answers n false)
    (memory : Memory Byte) (key : ℕ) (needsContent : Bool) :
    moves.load (device.answering answers) memory key needsContent =
      (moves.load device memory key needsContent).map fun loaded =>
        (loaded.1.answering answers, loaded.2) := by
  have hresult : ∀ offset length, (device.answering answers).result false offset length =
      device.result false offset length := by
    intro offset length
    unfold BlockDevice.result
    rw [← hreads]
    rfl
  unfold load
  cases needsContent with
  | false => rfl
  | true =>
      rw [if_pos rfl, if_pos rfl, Option.map_bind]
      refine congrArg _ (funext fun addr => ?_)
      rw [comp_apply, hresult]
      by_cases hsuccess : device.result false addr moves.size = .Success
      · rw [if_pos hsuccess, if_pos hsuccess, Option.map_some]
        unfold BlockDevice.blockingRead BlockDevice.record
        rw [hresult]
        rfl
      · rw [if_neg hsuccess, if_neg hsuccess]
        rfl

end BlockMoves

namespace BlockCache

variable {hash : ℕ → ℕ} {moves : BlockMoves} {pointers : List ℕ} {cache cache' : BlockCache}
  {device device' : BlockDevice} {key id : ℕ} {needsContent : Bool}

theorem writeBack_untold (device other : BlockDevice) (purged : Option (ℕ × ℕ)) :
    (writeBack moves cache device purged).map Prod.fst =
      (writeBack moves cache other purged).map Prod.fst := by
  cases purged with
  | none => rfl
  | some item =>
      have hpurge := congrArg (Option.map fun block => cache.modify item.2 fun _ => block)
        (moves.purge_untold device other item.1 (cache.blocks item.2))
      rw [Option.map_map, Option.map_map] at hpurge
      unfold writeBack
      rw [Option.map_map, Option.map_map]
      exact hpurge

theorem store_untold {fresh : ℕ}
    (h : store hash moves pointers cache device key fresh = some ((cache', device'), id))
    (other : BlockDevice) :
    ∃ other', store hash moves pointers cache other key fresh = some ((cache', other'), id) := by
  unfold store at h ⊢
  obtain ⟨stored, hset, h⟩ := Option.bind_eq_some_iff.mp h
  obtain ⟨⟨cache₁, device₁⟩, hback, h⟩ := Option.bind_eq_some_iff.mp h
  have hsame : (writeBack moves { cache with items := stored.1 } other stored.2.2).map Prod.fst =
      some cache₁ := by
    rw [writeBack_untold other device, hback, Option.map_some]
  obtain ⟨⟨_, other'⟩, hback', rfl⟩ := Option.map_eq_some_iff.mp hsame
  rw [hset, Option.bind_some, hback', Option.bind_some]
  dsimp only at h ⊢
  split_ifs at h ⊢ with hstored
  · cases h
    exact ⟨other', rfl⟩
  · obtain ⟨again, hagain, h⟩ := Option.bind_eq_some_iff.mp h
    obtain ⟨found, hfound, h⟩ := Option.map_eq_some_iff.mp h
    cases h
    exact ⟨other', by rw [hagain, Option.bind_some, hfound, Option.map_some]⟩

/-- **`fetch`** gives its caller the same whatever becomes of the write. -/
theorem fetch_untold {answers : ℕ → Bool → TransferResult}
    (hreads : ∀ n, answers n false = device.answers n false)
    (h : fetch hash moves pointers cache device key needsContent = some ((cache', device'), id)) :
    ∃ other, fetch hash moves pointers cache (device.answering answers) key needsContent =
      some ((cache', other), id) := by
  unfold fetch at h ⊢
  obtain ⟨⟨items, found⟩, hfind, h⟩ := Option.bind_eq_some_iff.mp h
  rw [hfind, Option.bind_some]
  cases found with
  | some id' =>
      cases h
      exact ⟨_, rfl⟩
  | none =>
      obtain ⟨loaded, hload, h⟩ := Option.bind_eq_some_iff.mp h
      dsimp only
      rw [BlockMoves.load_answering hreads, hload, Option.map_some, Option.bind_some]
      exact store_untold h _

end BlockCache

/-! ## Losing nothing -/

/-- A write that succeeded, of all that is dirty in a block, is among the new transfers. -/
def BlockMoves.Written (moves : BlockMoves) (device device' : BlockDevice) (key : ℕ)
    (item : BlockCacheItem) : Prop :=
  ∃ made, device'.transfers = made ++ device.transfers ∧ ∃ transfer ∈ made,
    transfer.write = true ∧ transfer.result = .Success ∧ ∃ addr, moves.writeAddr key = some addr ∧
      transfer.byteOffset ≤ addr + item.dirtyStart ∧
      addr + item.dirtyEnd ≤ transfer.byteOffset + transfer.length

/-- The dirty range of one block covers that of the other. -/
def BlockCacheItem.Covers (item item' : BlockCacheItem) : Prop :=
  item.IsDirty ∧ item.dirtyStart ≤ item'.dirtyStart ∧ item'.dirtyEnd ≤ item.dirtyEnd

/-- Each dirty block of a cache is as dirty afterwards, or has been written. -/
def BlockCache.Keeps (hash : ℕ → ℕ) (moves : BlockMoves) (cache cache' : BlockCache)
    (device device' : BlockDevice) : Prop :=
  ∀ key id, cache.heldBlocks hash key = some id → (cache.blocks id).IsDirty →
    (cache'.heldBlocks hash key = some id ∧ (cache'.blocks id).Covers (cache.blocks id)) ∨
      moves.Written device device' key (cache.blocks id)

/-! ## What fetching does to the dirty blocks -/

theorem BlockCacheItem.covers_self {item : BlockCacheItem} (dirty : item.IsDirty) :
    item.Covers item :=
  ⟨dirty, Nat.le_refl _, Nat.le_refl _⟩

theorem BlockMoves.load_transfers {moves : BlockMoves} {device device' : BlockDevice}
    {memory data : Memory Byte} {key : ℕ} {needsContent : Bool}
    (h : moves.load device memory key needsContent = some (device', data)) :
    ∃ made, device'.transfers = made ++ device.transfers ∧ ∀ transfer ∈ made,
      transfer.write = false := by
  unfold load at h
  split_ifs at h
  · obtain ⟨addr, -, h⟩ := Option.bind_eq_some_iff.mp h
    split_ifs at h
    cases h
    refine ⟨[_], rfl, fun transfer hmem => ?_⟩
    rw [List.mem_singleton.mp hmem]
  · cases h
    exact ⟨[], rfl, nofun⟩

theorem BlockDevice.writesSucceed_of_reads {device device' : BlockDevice} {made : List Transfer}
    (htransfers : device'.transfers = made ++ device.transfers)
    (hreads : ∀ transfer ∈ made, transfer.write = false) (succeed : device.WritesSucceed) :
    device'.WritesSucceed := by
  intro transfer hmem hwrite
  rw [htransfers] at hmem
  rcases List.mem_append.mp hmem with hmade | hold
  · rw [hreads transfer hmade] at hwrite
    cases hwrite
  · exact succeed transfer hold hwrite

namespace BlockCache

variable {hash : ℕ → ℕ} {moves : BlockMoves} {pointers : List ℕ} {cache cache' : BlockCache}
  {device device' : BlockDevice} {key id : ℕ} {needsContent : Bool}

theorem keeps_of_covers
    (h : ∀ key id, cache.heldBlocks hash key = some id → (cache.blocks id).IsDirty →
      cache'.heldBlocks hash key = some id ∧ (cache'.blocks id).Covers (cache.blocks id)) :
    cache.Keeps hash moves cache' device device' :=
  fun key id held dirty => Or.inl (h key id held dirty)

theorem keeps_self : cache.Keeps hash moves cache device device' :=
  keeps_of_covers fun _ _ held dirty => ⟨held, BlockCacheItem.covers_self dirty⟩

/-- The victim of a purge, and what becomes of its modification. -/
theorem written_iff {device₁ : BlockDevice} {victim : ℕ} {item : BlockCacheItem} {addr : ℕ}
    {made : List Transfer} (haddr : moves.writeAddr victim = some addr)
    (range : RangeOk moves item) (htransfers : device₁.transfers = made ++ device.transfers)
    (hreads : ∀ transfer ∈ made, transfer.write = false)
    (hdevice : device' = device₁.blockingWrite (addr + (moves.dirtyRange item).1) item.data
      (moves.dirtyRange item).1 ((moves.dirtyRange item).2 - (moves.dirtyRange item).1))
    (succeed : device.WritesSucceed) :
    moves.Written device device' victim item ↔ device'.WritesSucceed := by
  have hnew : ∃ transfer, device'.transfers = (transfer :: made) ++ device.transfers ∧
      transfer.write = true ∧ transfer.byteOffset ≤ addr + item.dirtyStart ∧
      addr + item.dirtyEnd ≤ transfer.byteOffset + transfer.length := by
    have hrange : (moves.dirtyRange item).1 ≤ item.dirtyStart ∧
        item.dirtyEnd ≤ (moves.dirtyRange item).2 := by
      unfold BlockMoves.dirtyRange
      split_ifs
      · exact ⟨Nat.zero_le _, range.2.2⟩
      · exact ⟨Nat.le_refl _, Nat.le_refl _⟩
    have hle := range.2.1
    refine ⟨_, by rw [hdevice, List.cons_append, ← htransfers]; rfl, rfl, ?_, ?_⟩
    · show addr + (moves.dirtyRange item).1 ≤ addr + item.dirtyStart
      omega
    · show addr + item.dirtyEnd ≤ addr + (moves.dirtyRange item).1 +
        ((moves.dirtyRange item).2 - (moves.dirtyRange item).1)
      omega
  obtain ⟨write, hnew, hwrite, hstart, hend⟩ := hnew
  constructor
  · rintro ⟨made', htransfers', transfer, hmem, hwrite', hsuccess, -⟩
    have hmade : made' = write :: made := List.append_cancel_right (htransfers'.symm.trans hnew)
    rw [hmade] at hmem
    have htransfer : transfer = write := by
      rcases List.mem_cons.mp hmem with heq | hread
      · exact heq
      · rw [hreads transfer hread] at hwrite'
        cases hwrite'
    intro other hother hotherWrite
    rw [hnew, List.cons_append] at hother
    rcases List.mem_cons.mp hother with heq | hold
    · rw [heq, ← htransfer, hsuccess]
    · exact BlockDevice.writesSucceed_of_reads htransfers hreads succeed other
        (htransfers ▸ hold) hotherWrite
  · intro succeed'
    refine ⟨_, hnew, write, List.mem_cons_self, hwrite, ?_, addr, haddr, hstart, hend⟩
    exact succeed' write (by rw [hnew]; exact List.mem_cons_self) hwrite

/-- **Fetching** loses no modification exactly when no write of it fails. -/
theorem Fetched.keeps_iff (ok : cache.Ok hash moves)
    (h : Fetched hash moves pointers cache device key needsContent cache' device' id)
    (succeed : device.WritesSucceed) :
    cache.Keeps hash moves cache' device device' ↔ device'.WritesSucceed := by
  cases h with
  | found present same blocks created =>
      have hkeeps : cache.Keeps hash moves cache' device device := by
        refine keeps_of_covers fun key' id' held dirty => ?_
        rw [same, blocks]
        exact ⟨held, BlockCacheItem.covers_self dirty⟩
      exact iff_of_true hkeeps succeed
  | loaded absent load same blocks created =>
      obtain ⟨made, htransfers, hreads⟩ := BlockMoves.load_transfers load
      refine iff_of_true (keeps_of_covers fun key' id' held dirty => ?_)
        (BlockDevice.writesSucceed_of_reads htransfers hreads succeed)
      have hkey : key' ≠ key := fun heq => by
        rw [heq, absent] at held
        cases held
      have hid := ok.known key' id' held
      rw [same, update_eq, if_neg hkey, blocks, update_of_ne (by omega)]
      exact ⟨held, BlockCacheItem.covers_self dirty⟩
  | @replaced _ device₁ _ victim id₁ item absent load other present free purge same blocks
      created =>
      obtain ⟨made, htransfers, hreads⟩ := BlockMoves.load_transfers load
      have hothers : ∀ key' id', cache.heldBlocks hash key' = some id' → key' ≠ victim →
          (cache.blocks id').IsDirty → cache'.heldBlocks hash key' = some id' ∧
            (cache'.blocks id').Covers (cache.blocks id') := by
        intro key' id' held hvictim dirty
        have hkey : key' ≠ key := fun heq => by
          rw [heq, absent] at held
          cases held
        have hid := ok.known key' id' held
        have hother : id' ≠ id₁ := fun heq => hvictim (ok.inj _ _ _ held (heq ▸ present))
        rw [same, update_eq, if_neg hvictim, update_eq, if_neg hkey, blocks,
          update_of_ne hother, update_of_ne (by omega)]
        exact ⟨held, BlockCacheItem.covers_self dirty⟩
      rcases purge_cases purge with ⟨hclean, rfl, -⟩ | ⟨addr, hdirty, haddr, -, hdevice⟩
      · refine iff_of_true (keeps_of_covers fun key' id' held dirty => ?_)
          (BlockDevice.writesSucceed_of_reads htransfers hreads succeed)
        refine hothers key' id' held (fun heq => hclean ?_) dirty
        rw [heq, present, Option.some_inj] at held
        rwa [held]
      · have hwritten := written_iff haddr (ok.ranges id₁ (ok.known victim id₁ present))
          htransfers hreads hdevice succeed
        constructor
        · intro keeps
          rcases keeps victim id₁ present hdirty with ⟨held, -⟩ | hmade
          · rw [same, update_eq, if_pos rfl] at held
            cases held
          · exact hwritten.mp hmade
        · intro succeed' key' id' held dirty
          by_cases hvictim : key' = victim
          · rw [hvictim, present, Option.some_inj] at held
            rw [hvictim, ← held]
            exact Or.inr (hwritten.mpr succeed')
          · exact Or.inl (hothers key' id' held hvictim dirty)

theorem Fetched.transfers
    (h : Fetched hash moves pointers cache device key needsContent cache' device' id) :
    device.transfers <:+ device'.transfers := by
  cases h with
  | found => exact List.suffix_refl _
  | loaded absent load =>
      obtain ⟨made, htransfers, -⟩ := BlockMoves.load_transfers load
      exact ⟨made, htransfers.symm⟩
  | replaced absent load other present free purge =>
      obtain ⟨made, htransfers, -⟩ := BlockMoves.load_transfers load
      have hload : device.transfers <:+ _ := ⟨made, htransfers.symm⟩
      rcases purge_cases purge with ⟨-, rfl, -⟩ | ⟨addr, -, -, -, rfl⟩
      · exact hload
      · exact hload.trans (List.suffix_cons _ _)

theorem keeps_modify {f : BlockCacheItem → BlockCacheItem}
    (h : (cache.blocks id).IsDirty → (f (cache.blocks id)).Covers (cache.blocks id)) :
    cache.Keeps hash moves (cache.modify id f) device device' := by
  refine keeps_of_covers fun key' id' held dirty => ⟨held, ?_⟩
  show (update cache.blocks id (f (cache.blocks id)) id').Covers _
  rw [update_apply]
  split_ifs with heq
  · rw [heq] at dirty ⊢
    exact h dirty
  · exact BlockCacheItem.covers_self dirty

theorem RangeOk.covers_setWholeDirty {item : BlockCacheItem} (range : RangeOk moves item)
    (dirty : item.IsDirty) (data : Memory Byte) :
    ((item.withData data).setWholeDirty).Covers item := by
  obtain ⟨hsize, hle, hend⟩ := range
  have hne : item.dirtyEnd ≠ item.dirtyStart := dirty
  refine ⟨?_, Nat.zero_le _, ?_⟩
  · show item.size ≠ 0
    omega
  · show item.dirtyEnd ≤ item.size
    omega

theorem RangeOk.covers_addDirtyRegion {item item' : BlockCacheItem} {data : Memory Byte}
    {start stop : ℕ} (range : RangeOk moves item) (dirty : item.IsDirty)
    (h : (item.withData data).addDirtyRegion start stop = some item') : item'.Covers item := by
  have hle := range.2.1
  have hne : item.dirtyEnd ≠ item.dirtyStart := dirty
  unfold BlockCacheItem.addDirtyRegion at h
  split_ifs at h with hbounds hdirty
  · cases h
    refine ⟨?_, Nat.min_le_right _ _, Nat.le_max_right _ _⟩
    show max stop item.dirtyEnd ≠ min start item.dirtyStart
    omega
  · exact absurd dirty hdirty

end BlockCache

namespace FileAllocationTable

/-- With other answers to its writes, the device would have made the step another one for
the caches, and so for who took it. -/
def Reported (hash : ℕ → ℕ) (fat fat' : FileAllocationTable) : Prop :=
  ∃ answers : ℕ → Bool → TransferResult, (∀ n, answers n false = fat.device.answers n false) ∧
    ∀ device, ¬ BlockStep hash { fat with device := fat.device.answering answers }
      { fat' with device := device }

/-- The step loses no modification without telling. -/
def LosesNothing (hash : ℕ → ℕ) (fat fat' : FileAllocationTable) : Prop :=
  (fat.clusterCache.Keeps hash fat.info.clusterMoves fat'.clusterCache fat.device fat'.device ∧
    fat.fatCache.Keeps hash fat.info.fatMoves fat'.fatCache fat.device fat'.device) ∨
  Reported hash fat fat'

/-! ## One step -/

variable {hash : ℕ → ℕ} {fat fat' start final : FileAllocationTable}

theorem BlockStep.not_reported (step : BlockStep hash fat fat') : ¬ Reported hash fat fat' := by
  rintro ⟨answers, hreads, hnone⟩
  cases step with
  | @sector pointers sector _ _ fetched =>
      unfold fetchFatSector at fetched
      split_ifs at fetched with hsector
      obtain ⟨⟨⟨cache, device⟩, id⟩, hfetch, h⟩ := Option.map_eq_some_iff.mp fetched
      cases h
      obtain ⟨other, hother⟩ := BlockCache.fetch_untold hreads hfetch
      have hagain : fetchFatSector hash { fat with device := fat.device.answering answers }
          pointers sector = some ({ fat with fatCache := cache, device := other }, id) := by
        unfold fetchFatSector
        rw [if_pos hsector, hother]
        rfl
      exact hnone other (.sector hagain)
  | @cluster cluster needsContent _ _ fetched =>
      obtain ⟨⟨⟨cache, device⟩, id⟩, hfetch, h⟩ := Option.map_eq_some_iff.mp fetched
      cases h
      obtain ⟨other, hother⟩ := BlockCache.fetch_untold hreads hfetch
      have hagain : fetchCluster hash { fat with device := fat.device.answering answers }
          cluster needsContent = some ({ fat with clusterCache := cache, device := other }, id) := by
        unfold fetchCluster
        rw [hother]
        rfl
      exact hnone other (.cluster hagain)
  | markSector held f =>
      exact hnone _ (@BlockStep.markSector hash
        { fat with device := fat.device.answering answers } _ _ held f)
  | markCluster held marked => exact hnone (fat.device.answering answers) (.markCluster held marked)
  | hint n => exact hnone _ (.hint n)
  | readPast offset length => exact hnone _ (.readPast offset length)

/-- **One step** loses nothing exactly when its write does not fail. -/
theorem BlockStep.losesNothing_iff (step : BlockStep hash fat fat') (ok : fat.Ok hash)
    (succeed : fat.device.WritesSucceed) :
    LosesNothing hash fat fat' ↔ fat'.device.WritesSucceed := by
  rw [LosesNothing, or_iff_left step.not_reported]
  cases step with
  | sector fetched =>
      obtain ⟨cache, device, rfl, -, hfetched, -⟩ := ok.fetchFatSector fetched
      rw [and_iff_right BlockCache.keeps_self]
      exact hfetched.keeps_iff ok.sectors succeed
  | cluster fetched =>
      obtain ⟨cache, device, rfl, hfetched, -⟩ := ok.fetchCluster fetched
      rw [and_iff_left BlockCache.keeps_self]
      exact hfetched.keeps_iff ok.clusters succeed
  | markSector held f =>
      have range := ok.sectors.ranges _ (ok.sectors.known _ _ held)
      exact iff_of_true ⟨BlockCache.keeps_self, BlockCache.keeps_modify fun dirty =>
        range.covers_setWholeDirty dirty _⟩ succeed
  | markCluster held marked =>
      have range := ok.clusters.ranges _ (ok.clusters.known _ _ held)
      exact iff_of_true ⟨BlockCache.keeps_modify fun dirty =>
        range.covers_addDirtyRegion dirty marked, BlockCache.keeps_self⟩ succeed
  | hint n => exact iff_of_true ⟨BlockCache.keeps_self, BlockCache.keeps_self⟩ succeed
  | readPast offset length =>
      refine iff_of_true ⟨BlockCache.keeps_self, BlockCache.keeps_self⟩
        fun transfer hmem hwrite => ?_
      rcases List.mem_cons.mp hmem with rfl | hold
      · cases hwrite
      · exact succeed transfer hold hwrite

/-! ## Runs -/

theorem BlockStep.transfers (step : BlockStep hash fat fat') (ok : fat.Ok hash) :
    fat.device.transfers <:+ fat'.device.transfers := by
  cases step with
  | sector fetched =>
      obtain ⟨cache, device, rfl, -, hfetched, -⟩ := ok.fetchFatSector fetched
      exact hfetched.transfers
  | cluster fetched =>
      obtain ⟨cache, device, rfl, hfetched, -⟩ := ok.fetchCluster fetched
      exact hfetched.transfers
  | markSector held f => exact List.suffix_refl _
  | markCluster held marked => exact List.suffix_refl _
  | hint n => exact List.suffix_refl _
  | readPast offset length => exact List.suffix_cons _ _

theorem Steps.transfers (steps : Steps hash fat fat') (ok : fat.Ok hash) :
    fat.device.transfers <:+ fat'.device.transfers := by
  induction steps with
  | refl => exact List.suffix_refl _
  | tail steps step ih => exact ih.trans (step.transfers (Steps.ok steps ok).1)

theorem Steps.writesSucceed (steps : Steps hash fat fat') (ok : fat.Ok hash)
    (succeed : fat'.device.WritesSucceed) : fat.device.WritesSucceed :=
  fun transfer hmem => succeed transfer ((Steps.transfers steps ok).subset hmem)

/-- No step from one state to the other loses a modification. -/
def Lossless (hash : ℕ → ℕ) (start final : FileAllocationTable) : Prop :=
  ∀ fat fat', Steps hash start fat → BlockStep hash fat fat' → Steps hash fat' final →
    LosesNothing hash fat fat'

/-- **A sequence of steps** loses nothing exactly when no write fails. -/
theorem lossless_iff (ok : start.Ok hash) (succeed : start.device.WritesSucceed)
    (steps : Steps hash start final) :
    Lossless hash start final ↔ final.device.WritesSucceed := by
  constructor
  · intro lossless
    have hreach : ∀ {fat}, Steps hash start fat → Steps hash fat final →
        fat.device.WritesSucceed := by
      intro fat hstart hfinal
      induction hstart with
      | refl => exact succeed
      | tail hbefore step ih =>
          have hok := (Steps.ok hbefore ok).1
          exact (step.losesNothing_iff hok (ih (.head step hfinal))).mp
            (lossless _ _ hbefore step hfinal)
    exact hreach steps .refl
  · intro succeed' fat fat' hbefore step hafter
    have hok := (Steps.ok hbefore ok).1
    have hafter' := Steps.writesSucceed hafter (step.ok hok).1 succeed'
    exact (step.losesNothing_iff hok
      (Steps.writesSucceed (.single step) hok hafter')).mpr hafter'

open PartialRun

/-- The file system as it is mounted on a device nothing has been transferred to or from. -/
def mounted (info : FATInfo) (bytes : Memory Byte) (capacity : ℕ)
    (answers : ℕ → Bool → TransferResult) (scratch : ℕ → Memory Byte) : FileAllocationTable :=
  mount info ⟨bytes, capacity, answers, []⟩ scratch

section Runs

variable (hash : ℕ → ℕ) (info : FATInfo) (bytes : Memory Byte) (capacity : ℕ)
  (answers : ℕ → Bool → TransferResult) (scratch : ℕ → Memory Byte)

/-- **A run of operations** loses no modification exactly when no write-back fails. -/
theorem run_lossless_iff {ops : List FatOp} {final : FileAllocationTable}
    {results : List FatResult}
    (h : runSteps (fatStep hash) (mounted info bytes capacity answers scratch) ops =
      some (final, results)) :
    Steps hash (mounted info bytes capacity answers scratch) final ∧
      (Lossless hash (mounted info bytes capacity answers scratch) final ↔
        final.device.WritesSucceed) := by
  have ok : (mounted info bytes capacity answers scratch).Ok hash := .mount _ _ _
  have hsteps := runSteps_steps ok h
  exact ⟨hsteps, lossless_iff ok (fun _ hmem => nomatch hmem) hsteps⟩

end Runs

/-- A small FAT16 volume. -/
def smallVolume : FATInfo where
  fatType := .FAT16
  sectorSize := 512
  sectorsPerCluster := 1
  fatBeginSector := 1
  fatSectors := 16
  rootDirCluster := 0
  rootStartSector := 17
  rootEntryCount := 16
  dataBeginSector := 18

/-- Its contents, with a file that is cluster 3. -/
def smallContents : Memory Byte := fun a =>
  if 512 ≤ a ∧ a < 516 ∨ a = 518 ∨ a = 519 then 0xFF else 0

/-- The file gets another cluster, and the other sectors of the FAT are read. -/
def extendThenRead : List FatOp :=
  [.allocateNextCluster 3, .getNextCluster 0x100, .getNextCluster 0x200, .getNextCluster 0x300,
    .getNextCluster 0x400, .getNextCluster 0x500, .getNextCluster 0x600, .getNextCluster 0x700,
    .getNextCluster 0x800, .getNextCluster 0x900, .getNextCluster 0xA00]

/-- The volume, on a device that fails all writes, or none. -/
def smallMounted (written : TransferResult) : FileAllocationTable :=
  mounted smallVolume smallContents 0x200000 (fun _ write => if write then written else .Success)
    fun _ _ => 0

theorem run_lossless_written :
    ∃ final results,
      runSteps (fatStep id) (smallMounted .Success) extendThenRead = some (final, results) ∧
      (Steps id (smallMounted .Success) final ∧
        (Lossless id (smallMounted .Success) final ↔ final.device.WritesSucceed)) := by
  have hrun : (runSteps (fatStep id) (smallMounted .Success) extendThenRead).isSome = true := by
    decide
  obtain ⟨⟨final, results⟩, hfinal⟩ := Option.isSome_iff_exists.mp hrun
  exact ⟨final, results, hfinal, run_lossless_iff id smallVolume smallContents 0x200000
    (fun _ write => if write then .Success else .Success) (fun _ _ => 0) hfinal⟩

/-- The sector of the FAT is purged, and its write fails. -/
theorem run_loses :
    ∃ final results,
      runSteps (fatStep id) (smallMounted .Failure) extendThenRead = some (final, results) ∧
      ¬ Lossless id (smallMounted .Failure) final := by
  have hrun : (runSteps (fatStep id) (smallMounted .Failure) extendThenRead).map
      (fun final => final.1.device.transfers.any fun transfer =>
        transfer.write && decide (transfer.result = .Failure)) = some true := by
    decide
  obtain ⟨⟨final, results⟩, hfinal, hany⟩ := Option.map_eq_some_iff.mp hrun
  refine ⟨final, results, hfinal, fun lossless => ?_⟩
  have ok : (smallMounted .Failure).Ok id := .mount _ _ _
  have succeed := (lossless_iff ok (fun _ hmem => nomatch hmem) (runSteps_steps ok hfinal)).mp
    lossless
  obtain ⟨transfer, hmem, hfailed⟩ := List.any_eq_true.mp hany
  obtain ⟨hwrite, hresult⟩ := (Bool.and_eq_true _ _).mp hfailed
  have hsuccess := succeed transfer hmem hwrite
  rw [of_decide_eq_true hresult] at hsuccess
  cases hsuccess

end FileAllocationTable

end BekOS
