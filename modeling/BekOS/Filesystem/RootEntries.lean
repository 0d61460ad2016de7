import BekOS.Filesystem.DirectoryParse
import BekOS.Filesystem.FileAllocationTable

/-!
# The root directory and the others

`get_root_entries` goes over the sectors of a FAT16 root directory with an index of
its own, and `get_entries` over the clusters of any other directory.  The index of
the first is not counted up for a stray piece of a long name, so that the directory
is read as if that slot were not there.
-/

namespace BekOS

/-! ## Strays -/

/-- The slot is a piece of a long name that was not begun. -/
def IsStray (before : List RawFATEntry) (e : RawFATEntry) : Prop :=
  e.type = .LongFileName ∧ e.order &&& 0x40 = 0 ∧ startedSlots before = []
deriving Decidable

/-- Slots, behind those before, without the strays. -/
def withoutStrays : List RawFATEntry → List RawFATEntry → List RawFATEntry
  | _, [] => []
  | before, e :: rest =>
      (if IsStray before e then [] else [e]) ++ withoutStrays (before ++ [e]) rest

section Strays

variable {before rest : List RawFATEntry} {e : RawFATEntry}

example (h : IsStray before e) : withoutStrays before [e] = [] := by simp [withoutStrays, h]

theorem withoutStrays_append (rest : List RawFATEntry) :
    ∀ before, withoutStrays before (rest ++ [e]) =
      withoutStrays before rest ++ if IsStray (before ++ rest) e then [] else [e] := by
  induction rest with
  | nil =>
      intro before
      rw [List.nil_append, List.append_nil, withoutStrays, withoutStrays, withoutStrays,
        List.append_nil, List.nil_append]
  | cons first rest ih =>
      intro before
      rw [List.cons_append, withoutStrays, ih, withoutStrays, List.append_assoc,
        List.append_assoc, List.singleton_append]

theorem length_withoutStrays_le (rest : List RawFATEntry) :
    ∀ before, (withoutStrays before rest).length ≤ rest.length := by
  induction rest with
  | nil => exact fun before => Nat.le_refl 0
  | cons e rest ih =>
      intro before
      have := ih (before ++ [e])
      rw [withoutStrays, List.length_append, List.length_cons]
      split_ifs
      · rw [List.length_nil]
        omega
      · rw [List.length_singleton]
        omega

theorem length_withoutStrays_iff (rest : List RawFATEntry) :
    ∀ before, (withoutStrays before rest).length = rest.length ↔
      ∀ seen e after, rest = seen ++ e :: after → ¬ IsStray (before ++ seen) e := by
  induction rest with
  | nil =>
      intro before
      refine iff_of_true rfl fun seen e after h => ?_
      exact absurd h.symm (List.append_ne_nil_of_right_ne_nil _ (List.cons_ne_nil _ _))
  | cons e rest ih =>
      intro before
      have hle := length_withoutStrays_le rest (before ++ [e])
      rw [withoutStrays, List.length_append, List.length_cons]
      constructor
      · intro hlength seen stray after h
        have hfirst : ¬ IsStray before e := fun hstray => by
          rw [if_pos hstray, List.length_nil] at hlength
          omega
        rw [if_neg hfirst, List.length_singleton] at hlength
        cases seen with
        | nil =>
            obtain ⟨rfl, -⟩ := List.cons.inj h
            rwa [List.append_nil]
        | cons first seen =>
            obtain ⟨rfl, htail⟩ := List.cons.inj h
            have hrest := (ih (before ++ [e])).mp (by omega) seen stray after htail
            rwa [List.append_assoc, List.singleton_append] at hrest
      · intro hnone
        have hfirst := hnone [] e rest rfl
        rw [List.append_nil] at hfirst
        have hrest := (ih (before ++ [e])).mpr fun seen stray after h => by
          rw [List.append_assoc, List.singleton_append]
          exact hnone (e :: seen) stray after (by rw [h]; rfl)
        rw [if_neg hfirst, List.length_singleton, hrest]
        omega

theorem startedSlots_withoutStrays (before : List RawFATEntry) :
    startedSlots (withoutStrays [] before) = startedSlots before := by
  induction before using List.reverseRecOn with
  | nil => rfl
  | append_singleton before e ih =>
      rw [withoutStrays_append, List.nil_append]
      by_cases hstray : IsStray before e
      · obtain ⟨htype, hclear, hnone⟩ := hstray
        rw [if_pos ⟨htype, hclear, hnone⟩, List.append_nil, ih, hnone,
          startedSlots_append (by rw [htype]; decide), if_pos hnone,
          if_neg fun hstarts => hstarts.2 hclear]
      · rw [if_neg hstray]
        by_cases hitem : e.type = .Normal
        · rw [startedSlots_append_item hitem, startedSlots_append_item hitem]
        · rw [startedSlots_append hitem, startedSlots_append hitem, ih]

theorem collected_withoutStrays (before : List RawFATEntry) :
    collected (withoutStrays [] before) = collected before := by
  rw [collected, startedSlots_withoutStrays, collected]

theorem perItem_withoutStrays {entryOf : List RawFATEntry → RawFATEntry → LocatedFATEntry}
    (rest : List RawFATEntry) :
    ∀ before, perItem entryOf (withoutStrays [] before) (withoutStrays before rest) =
      perItem (fun before => entryOf (withoutStrays [] before)) before rest := by
  induction rest with
  | nil => exact fun before => rfl
  | cons e rest ih =>
      intro before
      have hrest := ih (before ++ [e])
      rw [withoutStrays_append, List.nil_append] at hrest
      rw [withoutStrays, perItem]
      by_cases hstray : IsStray before e
      · rw [if_pos hstray, List.append_nil] at hrest
        rw [if_pos hstray, List.nil_append, hrest, if_neg (by rw [hstray.1]; decide),
          List.nil_append]
      · rw [if_neg hstray] at hrest
        rw [if_neg hstray, List.singleton_append, perItem, hrest]

end Strays

/-! ## The scan of the root directory -/

/-- The slots of the root directory of a FAT16 volume, as they are read. -/
def FileAllocationTable.rootSlots (fat : FileAllocationTable) : List RawFATEntry :=
  let read := fat.device.blockingRead (fat.info.rootStartSector * fat.info.sectorSize)
    (fun _ => 0) (32 * fat.info.rootEntryCount)
  (List.range fat.info.rootEntryCount).map fun i => RawFATEntry.ofMemory read.2 (32 * i)

theorem foldl_scanRootSlot (rest : List RawFATEntry) :
    ∀ (scan : EntryScan) (before : List RawFATEntry),
      scan.Describes (withoutStrays [] before) →
      (rest.foldl FileAllocationTable.scanRootSlot
          (scan, (withoutStrays [] before).length)).1 =
        ((withoutStrays before rest).zipIdx (withoutStrays [] before).length).foldl
          (fun scan slot => scan.scanSlot 0 slot) scan := by
  induction rest with
  | nil => exact fun scan before h => rfl
  | cons e rest ih =>
      intro scan before h
      have hkept : withoutStrays [] (before ++ [e]) =
          withoutStrays [] before ++ if IsStray before e then [] else [e] := by
        rw [withoutStrays_append, List.nil_append]
      have hempty : scan.workingEntry = [] ↔ startedSlots before = [] := by
        rw [h.1, collected_eq_nil_iff, startedSlots_withoutStrays]
      rw [List.foldl_cons, withoutStrays, FileAllocationTable.scanRootSlot]
      by_cases hstray : IsStray before e
      · rw [if_pos hstray, List.append_nil] at hkept
        rw [if_pos ⟨hstray.1, hempty.mpr hstray.2.2, hstray.2.1⟩, if_pos hstray,
          List.nil_append, ← hkept]
        exact ih scan (before ++ [e]) (hkept ▸ h)
      · rw [if_neg hstray] at hkept
        have hnext := h.scanSlot (e := e) 0
        rw [← hkept] at hnext
        have hlength : (withoutStrays [] (before ++ [e])).length =
            (withoutStrays [] before).length + 1 := by
          rw [hkept, List.length_append, List.length_singleton]
        rw [if_neg fun hskip => hstray ⟨hskip.1, hskip.2.2, hempty.mp hskip.2.1⟩,
          if_neg hstray, List.singleton_append, List.zipIdx_cons, List.foldl_cons, ← hlength]
        exact ih _ (before ++ [e]) hnext

/-- The entry of an item as `get_root_entries` makes it. -/
def rootScannedEntry (before : List RawFATEntry) : RawFATEntry → LocatedFATEntry :=
  scannedEntry 0 (withoutStrays [] before)

variable {hash : ℕ → ℕ} {fat : FileAllocationTable}

theorem FileAllocationTable.getRootEntries_eq
    (htype : fat.info.fatType = .FAT16 ∨ fat.info.fatType = .FAT12) :
    (fat.getRootEntries hash).map Prod.snd =
      some (perItem rootScannedEntry [] (liveSlots fat.rootSlots)) := by
  have hempty : EntryScan.empty.Describes [] := ⟨rfl, fun hsome => absurd rfl hsome⟩
  have hfold := foldl_scanRootSlot (liveSlots fat.rootSlots) EntryScan.empty [] hempty
  have hscan := scan_entries 0 (withoutStrays [] (liveSlots fat.rootSlots)) EntryScan.empty []
    hempty
  have hitems := @perItem_withoutStrays (scannedEntry 0) (liveSlots fat.rootSlots) []
  rw [FileAllocationTable.getRootEntries, if_pos htype, Option.map_some, Option.some_inj]
  exact (congrArg EntryScan.entries hfold).trans (hscan.trans hitems)

/-! ## Both scans -/

/-- What an entry says, and the index of its first slot. -/
def LocatedFATEntry.summary (located : LocatedFATEntry) : List Byte × Byte × ℕ × ℕ × ℕ :=
  (located.entry.name, located.entry.rawAttributes, located.entry.size, located.entry.dataCluster,
    located.location.indexInDirectory)

/-- No item is behind an end marker in the first slot, or behind a stray. -/
def ScansAgree (slots : List RawFATEntry) : Prop :=
  ∀ before item after, visitedSlots slots = before ++ item :: after → item.type = .Normal →
    slots.head?.map RawFATEntry.type ≠ some .EndOfDirectory ∧
      ∀ seen e rest, before = seen ++ e :: rest → ¬ IsStray seen e

section Summaries

variable {before : List RawFATEntry} {item : RawFATEntry}

theorem summary_rootScannedEntry_iff (hlength : before.length < 0x100000000) (startCluster : ℕ) :
    (rootScannedEntry before item).summary = (scannedEntry startCluster before item).summary ↔
      (withoutStrays [] before).length = before.length := by
  have hle := length_withoutStrays_le before []
  have hstarted : (startedSlots before).length ≤ (withoutStrays [] before).length := by
    rw [← startedSlots_withoutStrays]
    exact startedSlots_suffix.length_le
  have hplaces : (rootScannedEntry before item).summary =
        (scannedEntry startCluster before item).summary ↔
      ((withoutStrays [] before).length - (startedSlots before).length) % 0x100000000 =
        (before.length - (startedSlots before).length) % 0x100000000 := by
    simp [rootScannedEntry, scannedEntry, LocatedFATEntry.summary, RawFATEntry.withName,
      collected_withoutStrays, startedSlots_withoutStrays]
  rw [hplaces, Nat.mod_eq_of_lt (by omega), Nat.mod_eq_of_lt (by omega)]
  omega

end Summaries

variable {list : FATRawEntryList} {slot : ℕ → RawFATEntry}

theorem FileAllocationTable.length_rootSlots : fat.rootSlots.length = fat.info.rootEntryCount := by
  unfold FileAllocationTable.rootSlots
  rw [List.length_map, List.length_range]

theorem getRootEntries_summaries (hash : ℕ → ℕ)
    (htype : fat.info.fatType = .FAT16 ∨ fat.info.fatType = .FAT12) :
    (fat.getRootEntries hash).map (fun done => done.2.map LocatedFATEntry.summary) =
      some ((perItem rootScannedEntry [] (liveSlots fat.rootSlots)).map
        LocatedFATEntry.summary) := by
  have hroot := congrArg (Option.map (List.map LocatedFATEntry.summary))
    (@FileAllocationTable.getRootEntries_eq hash fat htype)
  rwa [Option.map_map, Option.map_some] at hroot

theorem getEntries_summaries (list : FATRawEntryList) (slot : ℕ → RawFATEntry)
    (startCluster : ℕ) :
    (list.fromStart.getEntries startCluster (readSlot list slot) ()).map
        (fun done => done.2.map LocatedFATEntry.summary) =
      some ((perItem (scannedEntry startCluster) [] (visitedSlots (list.slotsFrom slot 0))).map
        LocatedFATEntry.summary) := by
  have hchain := congrArg (Option.map (List.map LocatedFATEntry.summary))
    (@getEntries_eq list slot startCluster)
  rwa [Option.map_map, Option.map_some] at hchain

/-- **When the root directory reads as any other**: for every sequence of slots, and
every chain of clusters that holds it. -/
theorem getRootEntries_eq_getEntries_iff (hash : ℕ → ℕ) (fat : FileAllocationTable)
    (list : FATRawEntryList) (slot : ℕ → RawFATEntry) (startCluster : ℕ)
    (htype : fat.info.fatType = .FAT16 ∨ fat.info.fatType = .FAT12)
    (hcount : fat.info.rootEntryCount < 0x10000)
    (hslots : list.slotsFrom slot 0 = fat.rootSlots) :
    (fat.getRootEntries hash).map (fun done => done.2.map LocatedFATEntry.summary) =
        (list.fromStart.getEntries startCluster (readSlot list slot) ()).map
          (fun done => done.2.map LocatedFATEntry.summary) ↔
      ScansAgree fat.rootSlots := by
  rw [getRootEntries_summaries hash htype, getEntries_summaries, hslots, Option.some_inj]
  unfold ScansAgree
  obtain ⟨hlive, hmarked⟩ := @visitedSlots_eq fat.rootSlots
  by_cases hfirst : fat.rootSlots.head?.map RawFATEntry.type = some .EndOfDirectory
  · -- Only `get_entries` gets past the end marker.
    rw [hmarked hfirst, eq_comm]
    refine (List.map_eq_nil_iff.trans (perItem_eq_nil_iff _ [])).trans ?_
    constructor
    · intro hnone before item after h hitem
      exact absurd hitem (hnone item (h ▸ List.mem_append_right _ List.mem_cons_self))
    · intro hall e he hitem
      obtain ⟨before, after, h⟩ := List.mem_iff_append.mp he
      exact (hall before e after h hitem).1 hfirst
  · rw [hlive hfirst, perItem_map_eq_iff]
    refine forall_congr' fun before => forall_congr' fun item => forall_congr' fun after =>
      forall_congr' fun h => forall_congr' fun _ => ?_
    have hlength : before.length < 0x100000000 := by
      have hsplit := congrArg List.length h
      have hlive := (List.takeWhile_prefix
        (fun e : RawFATEntry => decide (e.type ≠ .EndOfDirectory)) (l := fat.rootSlots)).length_le
      rw [FileAllocationTable.length_rootSlots] at hlive
      rw [List.length_append, List.length_cons] at hsplit
      unfold liveSlots at hsplit
      omega
    rw [List.nil_append, summary_rootScannedEntry_iff hlength, length_withoutStrays_iff]
    exact (and_iff_right hfirst).symm

/-- A FAT16 volume with these slots, and empty ones behind them, in a root directory of
one sector. -/
def rootVolume (slots : List RawFATEntry) : FileAllocationTable :=
  .mount { fatType := .FAT16
           sectorSize := 512
           sectorsPerCluster := 1
           fatBeginSector := 1
           fatSectors := 16
           rootDirCluster := 0
           rootStartSector := 17
           rootEntryCount := 16
           dataBeginSector := 18 }
    { bytes := fun a => (slots.getD ((a - 17 * 512) / 32) (.ofBytes [])).byte (a % 32)
      capacity := 0x200000
      answers := fun _ _ => .Success
      transfers := [] } fun _ _ => 0

theorem rootSlots_rootVolume (slots : List RawFATEntry) :
    (rootVolume slots).rootSlots =
      oneCluster.slotsFrom (fun i => slots.getD i (.ofBytes [])) 0 := by
  have hslots : (rootVolume slots).rootSlots =
      (List.range 16).map fun i => slots.getD i (.ofBytes []) := by
    refine List.map_congr_left fun i hi => ?_
    have hlt : i < 16 := List.mem_range.mp hi
    rw [RawFATEntry.mk.injEq]
    refine Vector.ext fun j hj => ?_
    have hbyte : ∀ (bytes : Memory Byte) (offset : ℕ),
        (RawFATEntry.ofMemory bytes offset).data[j] = bytes (offset + j) := fun bytes offset => by
      simp only [RawFATEntry.ofMemory, Vector.getElem_ofFn]
    rw [hbyte]
    have hcapacity : (rootVolume slots).device.capacity = 0x200000 := rfl
    have hresult : (rootVolume slots).device.result false (17 * 512) 512 = .Success :=
      if_neg (by rw [hcapacity]; decide)
    have hbytes : (rootVolume slots).device.bytes = fun a =>
        (slots.getD ((a - 17 * 512) / 32) (.ofBytes [])).byte (a % 32) := rfl
    show ((rootVolume slots).device.blockingRead (17 * 512) (fun _ => 0) 512).2 _ = _
    rw [BlockDevice.blockingRead, if_pos hresult, hbytes]
    dsimp only
    rw [copyRange_of_mem (Nat.zero_le _) (by omega), Nat.sub_zero,
      show (17 * 512 + (32 * i + j) - 17 * 512) / 32 = i by omega,
      show (17 * 512 + (32 * i + j)) % 32 = j by omega, RawFATEntry.byte,
      Vector.getElem?_eq_getElem hj, Option.getD_some]
  rw [hslots]
  rfl

/-- The directory of the file `A`, with a long name. -/
theorem getRootEntries_agrees_named : ScansAgree (rootVolume [pieceA, itemA]).rootSlots := by
  refine (getRootEntries_eq_getEntries_iff id (rootVolume [pieceA, itemA]) oneCluster
    (fun i => [pieceA, itemA].getD i (.ofBytes [])) 2 (by decide) (by decide)
    (rootSlots_rootVolume _).symm).mp ?_
  rw [getRootEntries_summaries id (by decide), getEntries_summaries, rootSlots_rootVolume]
  decide +kernel

/-- A piece of a long name that was not begun. -/
def strayPiece : RawFATEntry := .ofBytes [1, 0, 0, 0, 0, 0, 0, 0, 0, 0, 0, 0x0F]

/-- An item behind a stray has another index in the root directory; and an item behind
an end marker in the first slot is found in another directory only. -/
theorem getRootEntries_agrees_fails :
    (oneCluster.slotsFrom (fun i => [strayPiece, itemA].getD i (.ofBytes [])) 0 =
        (rootVolume [strayPiece, itemA]).rootSlots ∧
      ((rootVolume [strayPiece, itemA]).getRootEntries id).map
          (fun done => done.2.map LocatedFATEntry.summary) ≠
        (oneCluster.fromStart.getEntries 2 (readSlot oneCluster fun i =>
            [strayPiece, itemA].getD i (.ofBytes [])) ()).map
          (fun done => done.2.map LocatedFATEntry.summary)) ∧
      (oneCluster.slotsFrom (fun i => [.ofBytes [], itemA].getD i (.ofBytes [])) 0 =
          (rootVolume [.ofBytes [], itemA]).rootSlots ∧
        ((rootVolume [.ofBytes [], itemA]).getRootEntries id).map
            (fun done => done.2.map LocatedFATEntry.summary) ≠
          (oneCluster.fromStart.getEntries 2 (readSlot oneCluster fun i =>
              [.ofBytes [], itemA].getD i (.ofBytes [])) ()).map
            (fun done => done.2.map LocatedFATEntry.summary)) := by
  have hroot : ∀ slots, ((rootVolume slots).getRootEntries id).map
        (fun done => done.2.map LocatedFATEntry.summary) =
      some ((perItem rootScannedEntry []
        (liveSlots (oneCluster.slotsFrom (fun i => slots.getD i (.ofBytes [])) 0))).map
          LocatedFATEntry.summary) := by
    intro slots
    rw [getRootEntries_summaries id (Or.inl rfl), rootSlots_rootVolume]
  rw [hroot, hroot, getEntries_summaries, getEntries_summaries]
  exact ⟨⟨(rootSlots_rootVolume _).symm, by decide +kernel⟩, (rootSlots_rootVolume _).symm,
    by decide +kernel⟩

end BekOS
