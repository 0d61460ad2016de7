import BekOS.Filesystem.EntryLocations
import BekOS.Filesystem.RootEntries

/-!
# Entries found again

Every entry that `get_root_entries` or `get_entries` has returned, looked for at its
place on a volume that nothing but reads has happened to.  The root directory of a FAT16
volume is in no cluster: its entries say that they are in cluster 0, which has no
address, so that they are never found.
-/

namespace BekOS.FileAllocationTable

open Relation

section Places

variable {hash : ℕ → ℕ} {base fat fat' : FileAllocationTable} {chain : List ℕ}
  {start cluster id k : ℕ} {list : FATRawEntryList}

/-! ## Places in no cluster -/

/-- No cluster below 2 is in memory. -/
structure NoneBelow (hash : ℕ → ℕ) (fat : FileAllocationTable) : Prop where
  ok : fat.Ok hash
  absent : ∀ cluster < 2, fat.clusterCache.heldBlocks hash cluster = none

theorem VolumeSound.noneBelow (sound : fat.VolumeSound hash) : NoneBelow hash fat := by
  refine ⟨sound.table.ok, fun cluster hlow => ?_⟩
  cases held : fat.clusterCache.heldBlocks hash cluster with
  | none => rfl
  | some id =>
      have := (sound.backed.valid cluster id held).1
      omega

/-- Nor does one get there: its address is asked for. -/
theorem NoneBelow.fetchCluster (none : NoneBelow hash fat)
    (h : fat.fetchCluster hash cluster true = some (fat', id)) :
    2 ≤ cluster ∧ NoneBelow hash fat' := by
  obtain ⟨cache, device, rfl, hfetched, ok'⟩ := none.ok.fetchCluster h
  have hload : ∀ {memory data : Memory Byte} {device₁ : BlockDevice},
      fat.info.clusterMoves.load fat.device memory cluster true = some (device₁, data) →
      2 ≤ cluster := by
    intro memory data device₁ hload
    obtain ⟨addr, haddr, -⟩ := Option.bind_eq_some_iff.mp hload
    by_contra hlow
    exact absurd (haddr.symm.trans (if_neg hlow)) (Option.some_ne_none addr)
  have hupdate : ∀ {key : ℕ}, key < 2 → 2 ≤ cluster →
      (fat.clusterCache.heldBlocks hash).update cluster
        (some fat.clusterCache.created) key = Option.none := by
    intro key hkey hcluster
    rw [update_eq, if_neg (by omega)]
    exact none.absent key hkey
  cases hfetched with
  | found present same blocks created =>
      refine ⟨?_, ok', fun key hkey => ?_⟩
      · by_contra hlow
        rw [none.absent cluster (by omega)] at present
        cases present
      · show cache.heldBlocks hash key = Option.none
        rw [same]
        exact none.absent key hkey
  | loaded absent load same blocks created =>
      refine ⟨hload load, ok', fun key hkey => ?_⟩
      show cache.heldBlocks hash key = Option.none
      rw [same]
      exact hupdate hkey (hload load)
  | replaced absent load other present free purge same blocks created =>
      refine ⟨hload load, ok', fun key hkey => ?_⟩
      show cache.heldBlocks hash key = Option.none
      rw [same, update_eq]
      split_ifs
      · rfl
      · exact hupdate hkey (hload load)

/-- **A directory below cluster 2** is not gone over. -/
theorem VolumeSound.forEach_below (sound : fat.VolumeSound hash) (hlow : start < 2)
    (hcreate : fat.createList hash start k = some (fat', list)) {α ρ : Type}
    (body : α → RawFATEntry × ℕ → Except ρ α) (acc : α) :
    list.forEach (readEntry hash list.clusterChain) body fat' acc = none := by
  cases hloop : list.forEach (readEntry hash list.clusterChain) body fat' acc with
  | none => rfl
  | some done =>
      exfalso
      obtain ⟨lists, -, read⟩ := lists_of_createList sound.refl hcreate
      obtain ⟨rest, hchain, -⟩ := lists.chain
      obtain ⟨⟨fat₂, it⟩, hfirst, hrest⟩ := Option.bind_eq_some_iff.mp hloop
      obtain ⟨⟨fat₃, ended⟩, hended, -⟩ := Option.bind_eq_some_iff.mp hrest
      obtain ⟨⟨fat₂', e⟩, hread, hit⟩ := Option.map_eq_some_iff.mp hfirst
      cases hit
      have hpos := list.entriesPerCluster_pos
      have hfetches : ∀ {s s' : FileAllocationTable} {i j : ℕ} {e : RawFATEntry},
          s.info = fat.info → j < list.entriesPerCluster →
          readEntry hash list.clusterChain s i j = some (s', e) →
          ∃ cluster id, list.clusterChain[i]? = some cluster ∧
            s.fetchCluster hash cluster true = some (s', id) := by
        intro s s' i j e hinfo hj hslot
        obtain ⟨cluster, hi, -⟩ := Option.bind_eq_some_iff.mp hslot
        rw [readEntry_eq hi (by rwa [hinfo, ← lists.slots])] at hslot
        obtain ⟨⟨s₁, id⟩, hfetch, hslot⟩ := Option.map_eq_some_iff.mp hslot
        cases hslot
        exact ⟨cluster, id, hi, hfetch⟩
      obtain ⟨cluster, id, -, hfetch⟩ := hfetches read.table.info
        (Nat.mod_lt list.startIndex hpos) hread
      obtain ⟨-, none₂⟩ := read.sound.noneBelow.fetchCluster hfetch
      have hinfo₂ : fat₂'.info = fat.info := by
        obtain ⟨_, _, rfl, -⟩ := read.sound.table.ok.fetchCluster hfetch
        exact read.table.info
      obtain ⟨cluster', id', hi, hfetch'⟩ := hfetches hinfo₂ hpos hended
      obtain ⟨hhigh, -⟩ := none₂.fetchCluster hfetch'
      rw [hchain] at hi
      have hstart : start = cluster' := Option.some_inj.mp hi
      omega

theorem VolumeSound.getEntry_below (sound : fat.VolumeSound hash) (hlow : start < 2) (k : ℕ) :
    fat.getEntry hash ⟨start, k⟩ = none := by
  rw [FileAllocationTable.getEntry, Option.bind_eq_none_iff]
  rintro ⟨fat₁, list⟩ hcreate
  dsimp only
  rw [FATRawEntryList.getEntry, sound.forEach_below hlow hcreate, Option.map_none]

theorem VolumeSound.getEntries_below (sound : fat.VolumeSound hash) (hlow : start < 2) :
    fat.getEntries hash start = none := by
  rw [FileAllocationTable.getEntries, Option.bind_eq_none_iff]
  rintro ⟨fat₁, list⟩ hcreate
  dsimp only
  rw [FATRawEntryList.getEntries, sound.forEach_below hlow hcreate, Option.map_none]

/-! ## Entries with their places -/

/-- The entry is made of the item in slot `own` and of slots before it. -/
def MadeOf (hash : ℕ → ℕ) (base : FileAllocationTable) (list : FATRawEntryList) (start : ℕ)
    (located : LocatedFATEntry) (own : ℕ) : Prop :=
  ∃ before item after, slotsOf hash base list 0 = before ++ item :: after ∧
    before.length = own ∧ item.type = .Normal ∧ located = scannedEntry start before item

theorem normal_first_iff (hk : k < list.slotCount) {pieces after : List RawFATEntry}
    {item : RawFATEntry} (hitem : item.type = .Normal)
    (hslots : slotsOf hash base list k = pieces ++ item :: after)
    (hpieces : ∀ e ∈ pieces, e.type ≠ .Normal) :
    (dirSlot hash base list.clusterChain k).type = .Normal ↔ pieces = [] := by
  rw [slotsOf, FATRawEntryList.slotsFrom_cons hk, visitedSlots] at hslots
  cases pieces with
  | nil =>
      obtain ⟨hfirst, -⟩ := List.cons.inj hslots
      exact iff_of_true (hfirst ▸ hitem) rfl
  | cons first rest =>
      obtain ⟨hfirst, -⟩ := List.cons.inj hslots
      rw [hfirst]
      exact iff_of_false (hpieces first List.mem_cons_self) (List.cons_ne_nil _ _)

theorem MadeOf.place {located : LocatedFATEntry} {own : ℕ}
    (made : MadeOf hash base list start located own) (hcount : list.slotCount ≤ 0x100000000) :
    ∃ k pieces item after, slotsOf hash base list k = pieces ++ item :: after ∧
      item.type = .Normal ∧ (∀ e ∈ pieces, e.type ≠ .Normal) ∧
      (∀ first ∈ pieces.head?, first.StartsLongName) ∧
      located = ⟨PackedFATEntry.toBasic ⟨pieces.filter (·.type = .LongFileName), item⟩,
        ⟨start, k⟩⟩ ∧
      k + pieces.length = own ∧ own < list.slotCount ∧
      dirSlot hash base list.clusterChain own = item ∧
      ((dirSlot hash base list.clusterChain k).type = .Normal ↔ pieces = []) := by
  obtain ⟨before, item, after, hslots, rfl, hitem, rfl⟩ := made
  obtain ⟨hown, hslot⟩ := slotsOf_item hslots
  obtain ⟨hpieces, hstarts⟩ := @startedSlots_pieces before
  have hle : (startedSlots before).length ≤ before.length := startedSlots_suffix.length_le
  have hplace := slotsOf_place hslots
  have hmod : (before.length - (startedSlots before).length) % 0x100000000 =
      before.length - (startedSlots before).length := Nat.mod_eq_of_lt (by omega)
  refine ⟨before.length - (startedSlots before).length, startedSlots before, item, after, hplace,
    hitem, hpieces, hstarts, ?_, by omega, hown, hslot,
    normal_first_iff (by omega) hitem hplace hpieces⟩
  rw [scannedEntry, hmod, withName_extractName, collected]

/-- A directory: the root directory, or the one that begins at a cluster. -/
inductive Directory where
  | root
  | cluster (startCluster : ℕ)

/-- Its entries. -/
def listing (hash : ℕ → ℕ) (fat : FileAllocationTable) :
    Directory → Option (FileAllocationTable × List LocatedFATEntry)
  | .root => fat.getRootEntries hash
  | .cluster startCluster => fat.getEntries hash startCluster

/-- Where it starts: the root directory of a FAT16 volume is in no cluster. -/
def Directory.startCluster (info : FATInfo) : Directory → ℕ
  | .root => if info.fatType = .FAT16 ∨ info.fatType = .FAT12 then 0 else info.rootDirCluster
  | .cluster startCluster => startCluster

/-- **An entry is found at its place**: `get_entry` returns it, and `update_entry` rewrites the
slot of its item and no other byte of the volume. -/
structure FoundAt (hash : ℕ → ℕ) (base fat : FileAllocationTable) (located : LocatedFATEntry) :
    Prop where
  entry : ∃ fat', fat.getEntry hash located.location = some (fat', .ok located.entry)
  update : ∀ made list own, base.createList hash located.location.directoryStartCluster 0 =
      some (made, list) →
    MadeOf hash base list located.location.directoryStartCluster located own →
    ∀ entry : BasicFATEntry, ∃ fat',
      fat.updateEntry hash located.location entry = some (fat', .ok located.location) ∧
        SlotWritten hash base (clusterOf list own) (32 * (own % list.entriesPerCluster))
          (.fromBasic (dirSlot hash base list.clusterChain own).fatname entry) fat'

/-- The place is in a cluster; and where it is the slot of an item, the cluster of that is kept
while the first one of the directory is fetched. -/
structure PlaceHolds (hash : ℕ → ℕ) (base fat : FileAllocationTable)
    (location : FATEntryLocation) : Prop where
  inCluster : 2 ≤ location.directoryStartCluster
  kept : ∀ made list, base.createList hash location.directoryStartCluster 0 = some (made, list) →
    (dirSlot hash base list.clusterChain location.indexInDirectory).type = .Normal →
      KeptBehindFirst hash base list location.directoryStartCluster location.indexInDirectory fat

/-- The clusters of a directory are on the volume and can be read, and its slots have numbers
of 32 bits. -/
structure Whole (hash : ℕ → ℕ) (base fat : FileAllocationTable) (start : ℕ) : Prop where
  there : ∀ made list, base.createList hash start 0 = some (made, list) →
    ∀ cluster ∈ list.clusterChain, base.info.HasCluster cluster
  numbered : ∀ made list, base.createList hash start 0 = some (made, list) →
    list.slotCount ≤ 0x100000000
  always : ∀ made list, base.createList hash start 0 = some (made, list) →
    AlwaysRead hash list.clusterChain base ∧ AlwaysRead hash list.clusterChain fat

/-- The entries of a directory in clusters. -/
theorem found_of_getEntries (sound : base.VolumeSound hash) {made : FileAllocationTable}
    {entries : List LocatedFATEntry} (listed : base.getEntries hash start = some (made, entries))
    {located : LocatedFATEntry} (mem : located ∈ entries) (unchanged : VolumeRead hash base fat)
    (whole : Whole hash base fat start) (hstart : 2 ≤ start) :
    FoundAt hash base fat located ↔ PlaceHolds hash base fat located.location := by
  obtain ⟨⟨fat₁, list⟩, hcreate, -⟩ := Option.bind_eq_some_iff.mp listed
  obtain ⟨lists, -, -⟩ := lists_of_createList sound.refl hcreate
  obtain ⟨alwaysBase, always⟩ := whole.always _ _ hcreate
  have there := whole.there _ _ hcreate
  have hcount := whole.numbered _ _ hcreate
  have unchanged' : Unchanged hash base list.clusterChain fat := ⟨unchanged, there, always⟩
  obtain ⟨made', hentries⟩ := lists.getEntries ⟨sound.refl, there, alwaysBase⟩
  obtain ⟨rfl, rfl⟩ := Prod.mk.inj (Option.some_inj.mp (listed.symm.trans hentries))
  obtain ⟨before, item, after, hslots, hitem, rfl⟩ := mem_perItem _ [] mem
  have hmade : MadeOf hash base list start (scannedEntry start before item) before.length :=
    ⟨before, item, after, hslots, rfl, hitem, rfl⟩
  rw [List.nil_append]
  have hlist : ∀ {made' list'}, base.createList hash start 0 = some (made', list') →
      list' = list := fun h =>
    (congrArg Prod.snd (Option.some_inj.mp (hcreate.symm.trans h))).symm
  constructor
  · intro found
    obtain ⟨k, pieces, item', after', hplace, hitem', hpieces, -, hlocated, hown, hlt, hslot,
      hsingle⟩ := hmade.place hcount
    rw [hlocated] at found hmade ⊢
    refine ⟨hstart, fun made' list' hcreate' hnormal => ?_⟩
    obtain rfl := hlist hcreate'
    obtain ⟨fat₂, hupdate, hwritten⟩ := found.update _ _ _ hcreate' hmade
      (PackedFATEntry.toBasic ⟨[], item⟩)
    obtain ⟨fat₃, hupdate', hiff⟩ := lists.updateEntry unchanged' (by omega) hitem' hplace hpieces
      (by omega) (by omega) (PackedFATEntry.toBasic ⟨[], item⟩)
    obtain ⟨rfl, -⟩ := Prod.mk.inj (Option.some_inj.mp (hupdate.symm.trans hupdate'))
    rw [hown] at hiff
    rw [hslot] at hwritten
    exact hiff.mp hwritten (hsingle.mp hnormal)
  · intro holds
    constructor
    · obtain ⟨k, pieces, item', after', hplace, hitem', hpieces, hstarts, hlocated, hown, hlt, -, -⟩ :=
        hmade.place hcount
      rw [hlocated]
      exact lists.getEntry unchanged' (by omega) hitem' hplace hpieces hstarts
    · intro made' list' own hcreate' hmade' entry
      obtain rfl := hlist hcreate'
      obtain ⟨k, pieces, item', after', hplace, hitem', hpieces, -, hlocated, hown, hlt, hslot,
        hsingle⟩ := hmade'.place hcount
      rw [hlocated] at holds ⊢
      obtain ⟨fat₂, hupdate, hiff⟩ := lists.updateEntry unchanged' (by omega) hitem' hplace hpieces
        (by omega) (by omega) entry
      rw [hown] at hiff
      refine ⟨fat₂, hupdate, ?_⟩
      rw [hslot]
      exact hiff.mpr fun hnone => holds.kept _ _ hcreate' (hsingle.mpr hnone)

/-- **Where entries are found**: every entry that is returned, of every directory of a volume. -/
theorem located_found_iff (sound : base.VolumeSound hash) {dir : Directory}
    {made : FileAllocationTable} {entries : List LocatedFATEntry}
    (listed : listing hash base dir = some (made, entries)) {located : LocatedFATEntry}
    (mem : located ∈ entries) (unchanged : VolumeRead hash base fat)
    (whole : 2 ≤ dir.startCluster base.info → Whole hash base fat (dir.startCluster base.info)) :
    FoundAt hash base fat located ↔ PlaceHolds hash base fat located.location := by
  have hclusters : ∀ start, base.getEntries hash start = some (made, entries) →
      (2 ≤ start → Whole hash base fat start) →
      (FoundAt hash base fat located ↔ PlaceHolds hash base fat located.location) := by
    intro start hentries whole
    by_cases hlow : start < 2
    · exact absurd (hentries.symm.trans (sound.getEntries_below hlow)) (Option.some_ne_none _)
    · exact found_of_getEntries sound hentries mem unchanged (whole (by omega)) (by omega)
  cases dir with
  | cluster start => exact hclusters start listed whole
  | root =>
      rw [listing] at listed
      rw [Directory.startCluster] at whole
      by_cases htype : base.info.fatType = .FAT16 ∨ base.info.fatType = .FAT12
      · -- Its entries say that they are in cluster 0.
        have hentries := @getRootEntries_eq hash base htype
        rw [listed, Option.map_some, Option.some_inj] at hentries
        dsimp only at hentries
        rw [hentries] at mem
        obtain ⟨before, item, after, -, -, rfl⟩ := mem_perItem _ [] mem
        refine iff_of_false (fun found => ?_) fun holds => ?_
        · obtain ⟨fat', hentry⟩ := found.entry
          exact absurd (hentry.symm.trans (unchanged.sound.getEntry_below (by decide : 0 < 2) _))
            (Option.some_ne_none _)
        · have hlow : 2 ≤ 0 := holds.inCluster
          omega
      · rw [if_neg htype] at whole
        rw [FileAllocationTable.getRootEntries, if_neg htype] at listed
        exact hclusters _ listed whole

/-! ## A directory in memory -/

/-- The sectors and the clusters of a chain are in memory. -/
structure InMemory (hash : ℕ → ℕ) (chain : List ℕ) (fat : FileAllocationTable) : Prop where
  ok : fat.Ok hash
  sectors : ∀ cluster ∈ chain, (fat.info.fatSectorIndexAndOffsetFor cluster).1 < fat.info.fatSectors
  table : ∀ cluster ∈ chain,
    (fat.fatCache.heldBlocks hash (fat.info.fatSectorIndexAndOffsetFor cluster).1).isSome
  clusters : ∀ cluster ∈ chain, (fat.clusterCache.heldBlocks hash cluster).isSome

theorem InMemory.fetchFatSector (inMemory : InMemory hash chain fat) (mem : cluster ∈ chain)
    (pointers : List ℕ) :
    ∃ fat' id, fat.fetchFatSector hash pointers (fat.info.fatSectorIndexAndOffsetFor cluster).1 =
      some (fat', id) ∧ InMemory hash chain fat' := by
  obtain ⟨cache, id, hfetch, hsame⟩ := BlockCache.exists_fetch inMemory.ok.sectors
    (inMemory.table cluster mem) pointers fat.device true
  have h : fat.fetchFatSector hash pointers (fat.info.fatSectorIndexAndOffsetFor cluster).1 =
      some ({ fat with fatCache := cache, device := fat.device }, id) := by
    rw [FileAllocationTable.fetchFatSector, if_pos (inMemory.sectors cluster mem), hfetch,
      Option.map_some]
  obtain ⟨_, _, -, -, -, ok'⟩ := inMemory.ok.fetchFatSector h
  exact ⟨_, id, h, ok', inMemory.sectors, fun c hc => by
    rw [hsame]
    exact inMemory.table c hc, inMemory.clusters⟩

theorem InMemory.fetchCluster (inMemory : InMemory hash chain fat) (mem : cluster ∈ chain)
    (needsContent : Bool) :
    ∃ fat' id, fat.fetchCluster hash cluster needsContent = some (fat', id) ∧
      InMemory hash chain fat' := by
  obtain ⟨cache, id, hfetch, hsame⟩ := BlockCache.exists_fetch inMemory.ok.clusters
    (inMemory.clusters cluster mem) [] fat.device needsContent
  have h : fat.fetchCluster hash cluster needsContent =
      some ({ fat with clusterCache := cache, device := fat.device }, id) := by
    rw [FileAllocationTable.fetchCluster, hfetch, Option.map_some]
  obtain ⟨_, _, -, -, ok'⟩ := inMemory.ok.fetchCluster h
  exact ⟨_, id, h, ok', inMemory.sectors, inMemory.table, fun c hc => by
    rw [hsame]
    exact inMemory.clusters c hc⟩

/-- **A chain that is in memory** is there however often it is read. -/
theorem InMemory.alwaysRead (inMemory : InMemory hash chain fat) : AlwaysRead hash chain fat := by
  intro fat' steps
  have inMemory' : InMemory hash chain fat' := by
    induction steps with
    | refl => exact inMemory
    | tail _ step ih =>
        cases step with
        | next mem h =>
            obtain ⟨fat₁, id, hfetch, inMemory₁⟩ := ih.fetchFatSector mem []
            rw [FileAllocationTable.getNextCluster, hfetch, Option.map_some] at h
            cases h
            exact inMemory₁
        | cluster mem h =>
            obtain ⟨fat₁, id, hfetch, inMemory₁⟩ := ih.fetchCluster mem true
            rw [hfetch] at h
            cases h
            exact inMemory₁
  intro cluster mem
  constructor
  · obtain ⟨fat₁, id, hfetch, -⟩ := inMemory'.fetchFatSector mem []
    rw [FileAllocationTable.getNextCluster, hfetch]
    rfl
  · intro needsContent
    obtain ⟨fat₁, id, hfetch, -⟩ := inMemory'.fetchCluster mem needsContent
    rw [hfetch]
    rfl

end Places

/-! ## The directory of one file -/

/-- A FAT16 volume whose root directory is empty, with a directory in cluster 2. -/
def oneDirectory : FATInfo where
  fatType := .FAT16
  sectorSize := 512
  sectorsPerCluster := 1
  fatBeginSector := 1
  fatSectors := 16
  rootDirCluster := 0
  rootStartSector := 17
  rootEntryCount := 16
  dataBeginSector := 18

/-- The bytes of the device, with these slots in cluster 2. -/
def directoryBytes (slots : List RawFATEntry) : Memory Byte := fun a =>
  if a < 17 * 512 then 0xFF else (slots.getD ((a - 18 * 512) / 32) (.ofBytes [])).byte (a % 32)

/-- The volume, of which nothing has been read. -/
def directoryVolume (slots : List RawFATEntry) : FileAllocationTable :=
  .mounted oneDirectory (directoryBytes slots) 0x200000 (fun _ _ => .Success) fun _ _ => 0

theorem directoryVolume_sound (slots : List RawFATEntry) :
    (directoryVolume slots).VolumeSound id :=
  .mounted ⟨⟨by decide, by decide, by decide⟩, by decide, by decide, by decide⟩ _ _
    (fun _ => rfl) _

/-- Its directory is read. -/
def readDirectory : Option (FileAllocationTable × ℕ) :=
  ((directoryVolume [pieceA, itemA]).getNextCluster id 2).bind fun next =>
    next.1.fetchCluster id 2 true

/-- The entry of its file. -/
def entryA : LocatedFATEntry := scannedEntry 2 [pieceA] itemA

theorem readDirectory_eq :
    (readDirectory.bind fun read => (read.1.getEntries id 2).bind fun listed =>
      (read.1.createList id 2 0).map fun created =>
        ((listed.2, created.2.clusterChain, created.2.slotCount),
          (dirSlot id read.1 created.2.clusterChain 0).type,
          (read.1.fatCache.heldBlocks id 0).isSome, (read.1.clusterCache.heldBlocks id 2).isSome)) =
      some (([entryA], [2], 16), .LongFileName, true, true) := by
  decide +kernel

/-- The file of the directory is found, and its entry can be written back. -/
theorem located_found_named : ∃ read id', readDirectory = some (read, id') ∧
    FoundAt id read read entryA := by
  obtain ⟨⟨read, id'⟩, hread, hrest⟩ := Option.bind_eq_some_iff.mp readDirectory_eq
  obtain ⟨⟨made, entries⟩, hlisted, hrest⟩ := Option.bind_eq_some_iff.mp hrest
  obtain ⟨⟨created, list⟩, hcreate, hfacts⟩ := Option.map_eq_some_iff.mp hrest
  simp only [Prod.mk.injEq] at hfacts
  obtain ⟨⟨rfl, hchain, hcount⟩, hslot, htable, hcluster⟩ := hfacts
  -- The two reads.
  obtain ⟨⟨fat₁, next⟩, hnext, hfetch⟩ := Option.bind_eq_some_iff.mp hread
  obtain ⟨read₁, -, -⟩ := (directoryVolume_sound [pieceA, itemA]).getNextCluster hnext
  have hinfo₁ : fat₁.info = oneDirectory := read₁.table.info
  have hvalid : fat₁.info.HasCluster 2 := by
    rw [hinfo₁]
    decide
  obtain ⟨read₂, -, -⟩ := read₁.sound.fetchCluster hvalid hfetch
  have hinfo : read.info = oneDirectory := read₂.table.info.trans hinfo₁
  have hlist : ∀ {made' list'}, read.createList id 2 0 = some (made', list') → list' = list :=
    fun h => (congrArg Prod.snd (Option.some_inj.mp (hcreate.symm.trans h))).symm
  have inMemory : InMemory id list.clusterChain read := by
    rw [hchain]
    refine ⟨read₂.sound.table.ok, ?_, ?_, ?_⟩
    all_goals
      intro cluster hmem
      rw [List.mem_singleton.mp hmem]
    · rw [hinfo]
      decide
    · rw [hinfo]
      exact htable
    · exact hcluster
  refine ⟨read, id', hread, (@located_found_iff id read read read₂.sound (.cluster 2) made
    [entryA] hlisted entryA (List.mem_singleton_self _) read₂.sound.refl fun _ =>
      ⟨?_, ?_, ?_⟩).mpr ⟨by decide +kernel, ?_⟩⟩
  · intro made' list' hcreate' cluster hmem
    obtain rfl := hlist hcreate'
    rw [hchain] at hmem
    rw [List.mem_singleton.mp hmem, hinfo]
    decide
  · intro made' list' hcreate'
    obtain rfl := hlist hcreate'
    rw [hcount]
    decide
  · intro made' list' hcreate'
    obtain rfl := hlist hcreate'
    exact ⟨inMemory.alwaysRead, inMemory.alwaysRead⟩
  · intro made' list' hcreate' hnormal
    obtain rfl := hlist hcreate'
    have hindex : entryA.location.indexInDirectory = 0 := by decide +kernel
    rw [hindex, hslot] at hnormal
    cases hnormal

/-- In the root directory of a FAT16 volume it is not found. -/
theorem located_found_fails :
    ((listing id (rootVolume [pieceA, itemA]) .root).map Prod.snd =
        some [scannedEntry 0 [pieceA] itemA]) ∧
      ¬ FoundAt id (rootVolume [pieceA, itemA]) (rootVolume [pieceA, itemA])
        (scannedEntry 0 [pieceA] itemA) := by
  refine ⟨by decide +kernel, fun found => ?_⟩
  obtain ⟨fat', hentry⟩ := found.entry
  have hnone : (rootVolume [pieceA, itemA]).getEntry id ⟨0, 0⟩ = none :=
    VolumeSound.getEntry_below (.mounted ⟨⟨by decide, by decide, by decide⟩, by decide, by decide,
      by decide⟩ _ _ (fun _ => rfl) _) (by decide) 0
  exact absurd (hentry.symm.trans hnone) (Option.some_ne_none _)

end BekOS.FileAllocationTable
