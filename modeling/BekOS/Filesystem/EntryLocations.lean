import BekOS.Filesystem.DirectoryParse
import BekOS.Filesystem.VolumeContents

/-!
# The places of entries

`get_entries` returns with each entry a place, the start cluster of the directory and
the index of a slot, and `get_entry` and `update_entry` look for the entry from there.
They begin with the slots that were collected for it, so that they find the same; but
`set_entry` fetches the cluster of a slot without its content, and writes back what is
not of the directory where the cluster is in memory no longer.
-/

namespace BekOS

/-! ## Looking again -/

theorem visitedSlots_drop {slots : List RawFATEntry} {k : ℕ}
    (hk : k < (visitedSlots slots).length) :
    visitedSlots (slots.drop k) = (visitedSlots slots).drop k := by
  cases slots with
  | nil => exact absurd hk (Nat.not_lt_zero k)
  | cons first rest =>
      cases k with
      | zero => rfl
      | succ k =>
          rw [visitedSlots, List.length_cons, Nat.succ_lt_succ_iff] at hk
          rw [visitedSlots, List.drop_succ_cons, List.drop_succ_cons]
          induction rest generalizing k with
          | nil => exact absurd hk (Nat.not_lt_zero k)
          | cons e rest ih =>
              by_cases hmarker : e.type = .EndOfDirectory
              · rw [List.takeWhile_cons_of_neg (by simp [hmarker])] at hk
                exact absurd hk (Nat.not_lt_zero k)
              · rw [List.takeWhile_cons_of_pos (by simp [hmarker])] at hk ⊢
                cases k with
                | zero => rfl
                | succ k =>
                    rw [List.drop_succ_cons, List.drop_succ_cons]
                    exact ih k (Nat.lt_of_succ_lt_succ hk)

/-- `get_entry` collects what `get_entries` has. -/
theorem foldlM_findEntry {item : RawFATEntry} (hitem : item.type = .Normal)
    (after : List RawFATEntry) :
    ∀ (slots working : List RawFATEntry) (k : ℕ), (∀ e ∈ slots, e.type ≠ .Normal) →
      (working = [] → ∀ first ∈ slots.head?, first.StartsLongName) →
      ((slots ++ item :: after).zipIdx k).foldlM findEntry working =
        .error (.ok (PackedFATEntry.toBasic
          ⟨working ++ slots.filter (·.type = .LongFileName), item⟩)) := by
  intro slots
  induction slots with
  | nil =>
      intro working k _ _
      rw [List.nil_append, List.zipIdx_cons, List.foldlM_cons, findEntry, hitem, List.filter_nil,
        List.append_nil]
      rfl
  | cons e slots ih =>
      intro working k hslots hstarts
      have hrest := fun e he => hslots e (List.mem_cons_of_mem _ he)
      rw [List.cons_append, List.zipIdx_cons, List.foldlM_cons, findEntry]
      cases htype : e.type with
      | Normal => exact absurd htype (hslots e List.mem_cons_self)
      | LongFileName =>
          have hpiece : ¬ (working = [] ∧ e.order &&& 0x40 = 0) := fun h =>
            (hstarts h.1 e rfl).2 h.2
          dsimp only
          rw [if_neg hpiece, List.filter_cons_of_pos (by simp [htype])]
          refine (ih (working ++ [e]) (k + 1) hrest fun h => ?_).trans ?_
          · exact absurd h (List.append_ne_nil_of_right_ne_nil _ (List.cons_ne_nil _ _))
          · rw [List.append_assoc, List.singleton_append]
      | Deleted =>
          have hstarted : working ≠ [] := fun h => by
            have hfirst := (hstarts h e rfl).1
            rw [htype] at hfirst
            cases hfirst
          rw [List.filter_cons_of_neg (by simp [htype])]
          exact ih working (k + 1) hrest fun h => absurd h hstarted
      | EndOfDirectory =>
          have hstarted : working ≠ [] := fun h => by
            have hfirst := (hstarts h e rfl).1
            rw [htype] at hfirst
            cases hfirst
          rw [List.filter_cons_of_neg (by simp [htype])]
          exact ih working (k + 1) hrest fun h => absurd h hstarted

/-- The body of the loop of `update_entry`. -/
def findItem (_ : Unit) (slot : RawFATEntry × ℕ) : Except (RawFATEntry × ℕ) Unit :=
  if slot.1.type = .Normal then .error slot else .ok ()

theorem foldlM_findItem {item : RawFATEntry} (hitem : item.type = .Normal)
    (after : List RawFATEntry) :
    ∀ (slots : List RawFATEntry) (k : ℕ), (∀ e ∈ slots, e.type ≠ .Normal) →
      ((slots ++ item :: after).zipIdx k).foldlM findItem () = .error (item, k + slots.length) := by
  intro slots
  induction slots with
  | nil =>
      intro k _
      rw [List.nil_append, List.zipIdx_cons, List.foldlM_cons, findItem, if_pos hitem]
      rfl
  | cons e slots ih =>
      intro k hslots
      have hrest := ih (k + 1) fun e he => hslots e (List.mem_cons_of_mem _ he)
      rw [List.cons_append, List.zipIdx_cons, List.foldlM_cons, findItem,
        if_neg (hslots e List.mem_cons_self), List.length_cons]
      refine hrest.trans ?_
      rw [Nat.add_right_comm, Nat.add_assoc]

theorem startedSlots_pieces {before : List RawFATEntry} :
    (∀ e ∈ startedSlots before, e.type ≠ .Normal) ∧
      ∀ first ∈ (startedSlots before).head?, first.StartsLongName := by
  constructor
  · intro e he
    have hsince := List.mem_reverse.mp ((List.dropWhile_sublist _).subset he)
    simpa using List.mem_takeWhile_imp hsince
  · intro first hfirst
    obtain ⟨rest, hstarted⟩ := List.head?_eq_some_iff.mp hfirst
    exact startedSlots_starts hstarted

/-- The list that begins at another slot. -/
def FATRawEntryList.startingAt (list : FATRawEntryList) (k : ℕ)
    (hk : k < list.slotCount) : FATRawEntryList :=
  { list with startIndex := k, startIndex_lt := hk }

namespace FileAllocationTable

open Relation

variable {hash : ℕ → ℕ} {base fat fat' : FileAllocationTable} {chain rest : List ℕ}
  {start cluster id k : ℕ} {list : FATRawEntryList}

/-! ## Chains -/

/-- The clusters behind one. -/
def chainOf (value : ℕ → ℕ) : ℕ → ℕ → Option (List ℕ)
  | 0, _ => none
  | fuel + 1, cluster =>
      if getClusterType (value cluster) = .NextPointer then
        (chainOf value fuel (value cluster)).map (value cluster :: ·)
      else some []

theorem VolumeRead.chainFrom :
    ∀ (fuel : ℕ) {fat fat' : FileAllocationTable} {cluster : ℕ} {rest : List ℕ},
      VolumeRead hash base fat →
      FileAllocationTable.chainFrom hash fuel fat cluster = some (fat', rest) →
      VolumeRead hash base fat' ∧ chainOf (base.fatValue hash) fuel cluster = some rest := by
  intro fuel
  induction fuel with
  | zero => exact fun _ h => nomatch h
  | succ fuel ih =>
      intro fat fat' cluster rest read h
      obtain ⟨⟨fat₁, next⟩, hnext, h⟩ := Option.bind_eq_some_iff.mp h
      obtain ⟨read₁, hvalue, -⟩ := read.sound.getNextCluster hnext
      have hbase : next = base.fatValue hash cluster :=
        hvalue.trans (read.table.fatValue_eq (read.table.info ▸ getNextCluster_sector hnext))
      subst hbase
      dsimp only at h
      rw [chainOf]
      by_cases htype : getClusterType (base.fatValue hash cluster) = .NextPointer
      · rw [if_pos htype] at h ⊢
        obtain ⟨⟨fat₂, later⟩, hlater, h⟩ := Option.map_eq_some_iff.mp h
        cases h
        obtain ⟨read₂, hchain⟩ := ih (read.trans read₁) hlater
        exact ⟨read₂, by rw [hchain, Option.map_some]⟩
      · rw [if_neg htype] at h ⊢
        cases h
        exact ⟨read.trans read₁, rfl⟩

/-! ## Reading again and again -/

/-- One of the reads that a chain is gone through with. -/
inductive ChainRead (hash : ℕ → ℕ) (chain : List ℕ) (fat : FileAllocationTable) :
    FileAllocationTable → Prop
  | next {cluster next : ℕ} {fat' : FileAllocationTable} (mem : cluster ∈ chain)
      (h : fat.getNextCluster hash cluster = some (fat', next)) : ChainRead hash chain fat fat'
  | cluster {cluster id : ℕ} {fat' : FileAllocationTable} (mem : cluster ∈ chain)
      (h : fat.fetchCluster hash cluster true = some (fat', id)) : ChainRead hash chain fat fat'

/-- However often the chain is read, its sectors of the FAT and its clusters are there. -/
def AlwaysRead (hash : ℕ → ℕ) (chain : List ℕ) (fat : FileAllocationTable) : Prop :=
  ∀ fat', ReflTransGen (ChainRead hash chain) fat fat' → ∀ cluster ∈ chain,
    (fat'.getNextCluster hash cluster).isSome ∧
      ∀ needsContent, (fat'.fetchCluster hash cluster needsContent).isSome

/-- The volume is as it was, and the chain can be read. -/
structure Unchanged (hash : ℕ → ℕ) (base : FileAllocationTable) (chain : List ℕ)
    (fat : FileAllocationTable) : Prop where
  read : VolumeRead hash base fat
  there : ∀ cluster ∈ chain, base.info.HasCluster cluster
  always : AlwaysRead hash chain fat

theorem Unchanged.chainRead (unchanged : Unchanged hash base chain fat)
    (step : ChainRead hash chain fat fat') : Unchanged hash base chain fat' := by
  refine ⟨?_, unchanged.there, fun fat'' steps => unchanged.always fat'' (.head step steps)⟩
  have read := unchanged.read
  cases step with
  | next mem h => exact read.trans (read.sound.getNextCluster h).1
  | cluster mem h =>
      have hcluster := unchanged.there _ mem
      rw [← read.table.info] at hcluster
      exact read.trans (read.sound.fetchCluster hcluster h).1

theorem Unchanged.getNextCluster (unchanged : Unchanged hash base chain fat)
    (mem : cluster ∈ chain) :
    ∃ fat', fat.getNextCluster hash cluster = some (fat', base.fatValue hash cluster) ∧
      Unchanged hash base chain fat' := by
  obtain ⟨⟨fat', next⟩, h⟩ := Option.isSome_iff_exists.mp (unchanged.always fat .refl cluster mem).1
  have read := unchanged.read
  have hbase : next = base.fatValue hash cluster :=
    (read.sound.getNextCluster h).2.1.trans
      (read.table.fatValue_eq (read.table.info ▸ getNextCluster_sector h))
  subst hbase
  exact ⟨fat', h, unchanged.chainRead (.next mem h)⟩

theorem Unchanged.fetchCluster (unchanged : Unchanged hash base chain fat)
    (mem : cluster ∈ chain) :
    ∃ fat' id, fat.fetchCluster hash cluster true = some (fat', id) ∧
      Unchanged hash base chain fat' ∧ fat'.clusterCache.heldBlocks hash cluster = some id ∧
      ∀ i < base.info.clusterSize,
        (fat'.clusterCache.blocks id).data i = base.clusterData hash cluster i := by
  obtain ⟨⟨fat', id⟩, h⟩ :=
    Option.isSome_iff_exists.mp ((unchanged.always fat .refl cluster mem).2 true)
  have unchanged' := unchanged.chainRead (.cluster mem h)
  have hcluster := unchanged.there _ mem
  obtain ⟨-, held, hdata⟩ := unchanged.read.sound.fetchCluster
    (unchanged.read.table.info ▸ hcluster) h
  exact ⟨fat', id, h, unchanged', held, fun i hi => by
    rw [hdata]
    exact unchanged'.read.clusters cluster hcluster i hi⟩

theorem Unchanged.chainFrom :
    ∀ (fuel : ℕ) {fat : FileAllocationTable} {cluster : ℕ} {rest : List ℕ},
      Unchanged hash base chain fat → cluster ∈ chain → (∀ c ∈ rest, c ∈ chain) →
      chainOf (base.fatValue hash) fuel cluster = some rest →
      ∃ fat', FileAllocationTable.chainFrom hash fuel fat cluster = some (fat', rest) ∧
        Unchanged hash base chain fat' := by
  intro fuel
  induction fuel with
  | zero => exact fun _ _ _ h => nomatch h
  | succ fuel ih =>
      intro fat cluster rest unchanged mem hrest h
      obtain ⟨fat₁, hnext, unchanged₁⟩ := unchanged.getNextCluster mem
      rw [FileAllocationTable.chainFrom, hnext, Option.bind_some]
      rw [chainOf] at h
      dsimp only
      by_cases htype : getClusterType (base.fatValue hash cluster) = .NextPointer
      · rw [if_pos htype] at h ⊢
        obtain ⟨later, hlater, rfl⟩ := Option.map_eq_some_iff.mp h
        obtain ⟨fat₂, hchain, unchanged₂⟩ := ih unchanged₁ (hrest _ List.mem_cons_self)
          (fun c hc => hrest c (List.mem_cons_of_mem _ hc)) hlater
        exact ⟨fat₂, by rw [hchain, Option.map_some], unchanged₂⟩
      · rw [if_neg htype] at h ⊢
        cases h
        exact ⟨fat₁, rfl, unchanged₁⟩

/-! ## Directories -/

/-- The list of the slots of a directory. -/
structure Lists (hash : ℕ → ℕ) (base : FileAllocationTable) (start : ℕ)
    (list : FATRawEntryList) : Prop where
  chain : ∃ rest, list.clusterChain = start :: rest ∧
    chainOf (base.fatValue hash) 0x10000001 start = some rest
  slots : list.entriesPerCluster = base.info.clusterSize / 32

theorem lists_of_createList (read : VolumeRead hash base fat)
    (h : fat.createList hash start k = some (fat', list)) :
    Lists hash base start list ∧ list.startIndex = k ∧ VolumeRead hash base fat' := by
  obtain ⟨⟨fat₁, rest⟩, hchain, h⟩ := Option.bind_eq_some_iff.mp h
  dsimp only at h
  split_ifs at h with hindex
  cases h
  obtain ⟨read', hrest⟩ := read.chainFrom _ hchain
  exact ⟨⟨⟨rest, rfl, hrest⟩, congrArg (fun info : FATInfo => info.clusterSize / 32) read.table.info⟩,
    rfl, read'⟩

theorem Lists.createList (lists : Lists hash base start list)
    (unchanged : Unchanged hash base list.clusterChain fat) (hk : k < list.slotCount) :
    ∃ fat', fat.createList hash start k = some (fat', list.startingAt k hk) ∧
      Unchanged hash base list.clusterChain fat' := by
  obtain ⟨rest, hchain, hrest⟩ := lists.chain
  obtain ⟨fat', h, unchanged'⟩ := unchanged.chainFrom 0x10000001
    (by rw [hchain]; exact List.mem_cons_self)
    (fun c hc => by rw [hchain]; exact List.mem_cons_of_mem _ hc) hrest
  have hslots : list.entriesPerCluster = fat.info.clusterSize / 32 := by
    rw [unchanged.read.table.info, lists.slots]
  refine ⟨fat', ?_, unchanged'⟩
  have hindex : k < (start :: rest).length * (fat.info.clusterSize / 32) := by
    rw [← hslots, ← hchain]
    exact hk
  rw [FileAllocationTable.createList, h, Option.bind_some]
  dsimp only
  rw [dif_pos hindex]
  simp only [FATRawEntryList.startingAt, hchain, hslots]

theorem Lists.readable (lists : Lists hash base start list) (hk : k < list.slotCount) :
    list.Readable (readEntry hash list.clusterChain)
      (Unchanged hash base list.clusterChain) (dirSlot hash base list.clusterChain) k := by
  intro fat unchanged
  have hinside := list.div_lt_clusterCount hk
  have hcluster : list.clusterChain[k / list.entriesPerCluster]? =
      some (list.clusterChain.getD (k / list.entriesPerCluster) 0) := by
    rw [List.getD_eq_getElem?_getD, List.getElem?_eq_getElem hinside]
    rfl
  have hmod : k % list.entriesPerCluster < fat.info.clusterSize / 32 := by
    rw [unchanged.read.table.info, ← lists.slots]
    exact Nat.mod_lt _ list.entriesPerCluster_pos
  obtain ⟨fat', id, hfetch, unchanged', -, hdata⟩ :=
    unchanged.fetchCluster (List.mem_of_getElem? hcluster)
  refine ⟨fat', ?_, unchanged'⟩
  have hslot := slot_inside hmod
  rw [unchanged.read.table.info] at hslot
  rw [readEntry_eq hcluster hmod, hfetch, Option.map_some, dirSlot, ← lists.slots]
  exact congrArg (fun e => some (fat', e)) (ofMemory_congr fun i hi => hdata _ (by omega))

/-! ## Entries and their places -/

/-- The slots of a directory, from one on. -/
abbrev slotsOf (hash : ℕ → ℕ) (base : FileAllocationTable) (list : FATRawEntryList) (k : ℕ) :
    List RawFATEntry :=
  visitedSlots (list.slotsFrom (dirSlot hash base list.clusterChain) k)

theorem Lists.getEntries (lists : Lists hash base start list)
    (unchanged : Unchanged hash base list.clusterChain fat) :
    ∃ fat', fat.getEntries hash start = some (fat',
      perItem (scannedEntry start) [] (slotsOf hash base list 0)) := by
  have hpos : 0 < list.slotCount := Nat.zero_lt_of_lt list.startIndex_lt
  obtain ⟨fat₁, hcreate, unchanged₁⟩ := lists.createList unchanged hpos
  have lists₁ : Lists hash base start (list.startingAt 0 hpos) := ⟨lists.chain, lists.slots⟩
  obtain ⟨fat₂, hentries, -⟩ := getEntries_of_readable
    (rfl : (list.startingAt 0 hpos).startIndex = 0)
    (fun k hk => lists₁.readable hk) unchanged₁ start
  refine ⟨fat₂, ?_⟩
  rw [FileAllocationTable.getEntries, hcreate, Option.bind_some]
  exact hentries

theorem visitedSlots_prefix (slots : List RawFATEntry) : visitedSlots slots <+: slots := by
  cases slots with
  | nil => exact List.prefix_refl _
  | cons first rest => exact List.prefix_cons_inj first |>.mpr (List.takeWhile_prefix _)

theorem slotsOf_item {before after : List RawFATEntry} {item : RawFATEntry}
    (h : slotsOf hash base list 0 = before ++ item :: after) :
    before.length < list.slotCount ∧ dirSlot hash base list.clusterChain before.length = item := by
  obtain ⟨behind, hbehind⟩ : slotsOf hash base list 0 <+:
      list.slotsFrom (dirSlot hash base list.clusterChain) 0 := visitedSlots_prefix _
  rw [h, List.append_assoc, List.cons_append, FATRawEntryList.slotsFrom] at hbehind
  have hlt : before.length < list.slotCount := by
    have hlength := congrArg List.length hbehind
    rw [List.length_append, List.length_cons, List.length_map, List.length_range',
      Nat.sub_zero] at hlength
    omega
  refine ⟨hlt, ?_⟩
  have hslot := congrArg (·[before.length]?) hbehind
  rw [List.getElem?_append_right le_rfl, Nat.sub_self, List.getElem?_cons_zero, List.getElem?_map,
    List.getElem?_range' (by omega), Option.map_some, Nat.zero_add, Nat.one_mul] at hslot
  exact (Option.some_inj.mp hslot).symm

/-- An item, behind the slots that `get_entries` has collected for it, is found again where
these begin. -/
theorem slotsOf_place {before after : List RawFATEntry} {item : RawFATEntry}
    (h : slotsOf hash base list 0 = before ++ item :: after) :
    slotsOf hash base list (before.length - (startedSlots before).length) =
      startedSlots before ++ item :: after := by
  rw [slotsOf, FATRawEntryList.slotsFrom_drop, visitedSlots_drop (by
    rw [← slotsOf, h, List.length_append, List.length_cons]; omega), ← slotsOf, h,
    List.drop_append_of_le_length (by omega), length_drop_started]

/-- **`get_entry`** finds the entry of the first item from a slot on. -/
theorem Lists.getEntry (lists : Lists hash base start list)
    (unchanged : Unchanged hash base list.clusterChain fat) (hk : k < list.slotCount)
    {pieces after : List RawFATEntry} {item : RawFATEntry} (hitem : item.type = .Normal)
    (hslots : slotsOf hash base list k = pieces ++ item :: after)
    (hpieces : ∀ e ∈ pieces, e.type ≠ .Normal)
    (hstarts : ∀ first ∈ pieces.head?, first.StartsLongName) :
    ∃ fat', fat.getEntry hash ⟨start, k⟩ = some (fat', .ok (PackedFATEntry.toBasic
      ⟨pieces.filter (·.type = .LongFileName), item⟩)) := by
  obtain ⟨fat₁, hcreate, unchanged₁⟩ := lists.createList unchanged hk
  have lists₁ : Lists hash base start (list.startingAt k hk) := ⟨lists.chain, lists.slots⟩
  obtain ⟨fat₂, hloop, -⟩ := (list.startingAt k hk).forEach_eq findEntry
    (lists₁.readable (Nat.zero_lt_of_lt hk)) (fun k' _ _ hk' => lists₁.readable hk') unchanged₁ []
  refine ⟨fat₂, ?_⟩
  have hfold := foldlM_findEntry hitem after pieces [] k hpieces fun _ => hstarts
  rw [← hslots, List.nil_append] at hfold
  rw [FileAllocationTable.getEntry, hcreate, Option.bind_some]
  dsimp only
  rw [FATRawEntryList.getEntry, hloop, Option.map_some]
  have hresult : ((visitedSlots ((list.startingAt k hk).slotsFrom
      (dirSlot hash base (list.startingAt k hk).clusterChain)
      (list.startingAt k hk).startIndex)).zipIdx (list.startingAt k hk).startIndex).foldlM
      findEntry [] = .error (.ok (PackedFATEntry.toBasic
        ⟨pieces.filter (·.type = .LongFileName), item⟩)) := hfold
  rw [hresult]

/-! ## Writing an entry back -/

/-- The cluster of a slot. -/
def clusterOf (list : FATRawEntryList) (own : ℕ) : ℕ :=
  list.clusterChain.getD (own / list.entriesPerCluster) 0

theorem getElem?_clusterOf {own : ℕ} (hown : own < list.slotCount) :
    list.clusterChain[own / list.entriesPerCluster]? = some (clusterOf list own) := by
  have hinside := list.div_lt_clusterCount hown
  rw [clusterOf, List.getD_eq_getElem?_getD, List.getElem?_eq_getElem hinside]
  rfl

theorem VolumeRead.slotWritten_iff (read : VolumeRead hash base fat) {offset : ℕ}
    {entry : RawFATEntry} :
    SlotWritten hash fat cluster offset entry fat' ↔
      SlotWritten hash base cluster offset entry fat' := by
  have hinfo := read.table.info
  constructor
  · rintro ⟨table, clusters⟩
    refine ⟨fun sector hsector i hi => ?_, fun c hc i hi => ?_⟩
    · rw [← read.table.same sector hsector i hi]
      exact table sector (by rwa [hinfo]) i (by rwa [hinfo])
    · rw [← read.clusters c hc i hi]
      exact clusters c (by rwa [hinfo]) i (by rwa [hinfo])
  · rintro ⟨table, clusters⟩
    refine ⟨fun sector hsector i hi => ?_, fun c hc i hi => ?_⟩
    · rw [hinfo] at hsector hi
      rw [read.table.same sector hsector i hi]
      exact table sector hsector i hi
    · rw [hinfo] at hc hi
      rw [read.clusters c hc i hi]
      exact clusters c hc i hi

/-- The cluster of slot `own` is in memory, or the memory that is taken for it holds what
it does beside the slot. -/
def Kept (hash : ℕ → ℕ) (base : FileAllocationTable) (list : FATRawEntryList) (own : ℕ)
    (fat : FileAllocationTable) : Prop :=
  (fat.clusterCache.heldBlocks hash (clusterOf list own)).isSome ∨
    ∀ i < base.info.clusterSize, ¬ (32 * (own % list.entriesPerCluster) ≤ i ∧
      i < 32 * (own % list.entriesPerCluster) + 32) →
      fat.clusterCache.scratch fat.clusterCache.created i =
        base.clusterData hash (clusterOf list own) i

/-- Where an entry is one slot, the cluster of that is fetched, and then the first one of the
directory: the cluster is kept. -/
def KeptBehindFirst (hash : ℕ → ℕ) (base : FileAllocationTable) (list : FATRawEntryList)
    (start own : ℕ) (fat : FileAllocationTable) : Prop :=
  ∀ fat₁ fat₂ fat₃ id₂ id₃ created, fat.createList hash start own = some (fat₁, created) →
    fat₁.fetchCluster hash (clusterOf list own) true = some (fat₂, id₂) →
    fat₂.fetchCluster hash start true = some (fat₃, id₃) → Kept hash base list own fat₃

theorem Lists.readEntry_cases (lists : Lists hash base start list)
    (unchanged : Unchanged hash base list.clusterChain fat) {i j : ℕ} {e : RawFATEntry}
    (hj : j < list.entriesPerCluster)
    (h : readEntry hash list.clusterChain fat i j = some (fat', e)) :
    ∃ id, fat.fetchCluster hash (clusterOf list (list.entriesPerCluster * i + j)) true =
        some (fat', id) ∧
      Unchanged hash base list.clusterChain fat' ∧
      (fat'.clusterCache.heldBlocks hash
        (clusterOf list (list.entriesPerCluster * i + j))).isSome := by
  have hplace : (list.entriesPerCluster * i + j) / list.entriesPerCluster = i := by
    rw [Nat.mul_add_div list.entriesPerCluster_pos, Nat.div_eq_of_lt hj, Nat.add_zero]
  have hi : ∃ cluster, list.clusterChain[i]? = some cluster := by
    obtain ⟨cluster, hcluster, -⟩ := Option.bind_eq_some_iff.mp h
    exact ⟨cluster, hcluster⟩
  obtain ⟨cluster, hi⟩ := hi
  have hcluster : clusterOf list (list.entriesPerCluster * i + j) = cluster := by
    rw [clusterOf, hplace, List.getD_eq_getElem?_getD, hi, Option.getD_some]
  have hslots : j < fat.info.clusterSize / 32 := by
    rwa [unchanged.read.table.info, ← lists.slots]
  rw [readEntry_eq hi hslots] at h
  obtain ⟨⟨fat₁, id⟩, hfetch, h⟩ := Option.map_eq_some_iff.mp h
  cases h
  obtain ⟨fat₂, id₂, hfetch₂, unchanged', held, -⟩ :=
    unchanged.fetchCluster (List.mem_of_getElem? hi)
  obtain ⟨rfl, rfl⟩ := Prod.mk.inj (Option.some_inj.mp (hfetch.symm.trans hfetch₂))
  rw [hcluster]
  exact ⟨id, hfetch, unchanged', by rw [held]; rfl⟩

/-- The loop of `update_entry` stops at the first item, whose cluster is in memory if it is
not the first slot. -/
theorem Lists.findItem (lists : Lists hash base start list)
    (unchanged : Unchanged hash base list.clusterChain fat) (hstart : list.startIndex = k)
    {pieces after : List RawFATEntry} {item : RawFATEntry} (hitem : item.type = .Normal)
    (hslots : slotsOf hash base list k = pieces ++ item :: after)
    (hpieces : ∀ e ∈ pieces, e.type ≠ .Normal) :
    ∃ fat', list.forEach (readEntry hash list.clusterChain) BekOS.findItem fat () =
        some (fat', .error (item, k + pieces.length)) ∧
      Unchanged hash base list.clusterChain fat' ∧
      (pieces ≠ [] →
        (fat'.clusterCache.heldBlocks hash (clusterOf list (k + pieces.length))).isSome) ∧
      (pieces = [] → ∃ fat₂ id₂ id₃,
        fat.fetchCluster hash (clusterOf list k) true = some (fat₂, id₂) ∧
        fat₂.fetchCluster hash start true = some (fat', id₃)) := by
  obtain ⟨fat', hloop, unchanged'⟩ := list.forEach_eq BekOS.findItem
    (lists.readable (Nat.zero_lt_of_lt list.startIndex_lt))
    (fun k' _ _ hk' => lists.readable hk') unchanged ()
  have hfold := foldlM_findItem hitem after pieces k hpieces
  rw [← hslots] at hfold
  rw [hstart, hfold] at hloop
  refine ⟨fat', hloop, unchanged', ?_⟩
  have hpos := list.entriesPerCluster_pos
  -- The two slots that are read before the loop.
  obtain ⟨⟨fat₂, it⟩, hfirst, hrest⟩ := Option.bind_eq_some_iff.mp hloop
  obtain ⟨⟨fat₃, ended⟩, hended, hrest⟩ := Option.bind_eq_some_iff.mp hrest
  obtain ⟨⟨fat₂', e⟩, hread, hit⟩ := Option.map_eq_some_iff.mp hfirst
  cases hit
  rw [hstart] at hread hrest
  obtain ⟨id₂, hfetch₂, unchanged₂, -⟩ := lists.readEntry_cases unchanged (Nat.mod_lt k hpos) hread
  obtain ⟨id₃, hfetch₃, unchanged₃, -⟩ := lists.readEntry_cases unchanged₂ hpos hended
  rw [Nat.div_add_mod] at hfetch₂
  have hhead : clusterOf list (list.entriesPerCluster * 0 + 0) = start := by
    obtain ⟨rest, hchain, -⟩ := lists.chain
    rw [clusterOf, hchain, Nat.mul_zero, Nat.add_zero, Nat.zero_div]
    rfl
  rw [hhead] at hfetch₃
  have hfound : ∀ {acc : Unit} {slot result : RawFATEntry × ℕ},
      BekOS.findItem acc slot = .error result → slot = result := by
    intro acc slot result h
    unfold BekOS.findItem at h
    split_ifs at h
    exact Except.error.inj h
  constructor
  · intro hsome
    have hkeeps : ∀ state i j state' entry, Unchanged hash base list.clusterChain state →
        j < list.entriesPerCluster →
        readEntry hash list.clusterChain state i j = some (state', entry) →
        Unchanged hash base list.clusterChain state' := by
      intro state i j state' entry unchanged hj h
      obtain ⟨-, -, unchanged', -⟩ := lists.readEntry_cases unchanged hj h
      exact unchanged'
    rcases list.forFrom_error hkeeps _ hrest (Nat.mod_lt k hpos) unchanged₃ with
      ⟨-, hbody⟩ | ⟨state, i, j, e', acc, unchanged₄, hslot, hj, hbody⟩
    · rw [list.value_place] at hbody
      have hplace : k = k + pieces.length := congrArg Prod.snd (hfound hbody)
      have hlength := List.length_pos_iff.mpr hsome
      omega
    · obtain ⟨-, -, -, hheld⟩ := lists.readEntry_cases unchanged₄ hj hslot
      have hplace : list.entriesPerCluster * i + j = k + pieces.length :=
        congrArg Prod.snd (hfound hbody)
      rwa [hplace] at hheld
  · rintro rfl
    have hk : k < list.slotCount := hstart ▸ list.startIndex_lt
    -- The slot at the start is the item.
    obtain ⟨state, hagain, -⟩ := lists.readable hk fat unchanged
    have he : e = item := by
      rw [slotsOf, FATRawEntryList.slotsFrom_cons hk, visitedSlots] at hslots
      obtain ⟨hitem', -⟩ := List.cons.inj hslots
      rw [← hitem']
      exact congrArg Prod.snd (Option.some_inj.mp (hread.symm.trans hagain))
    refine ⟨_, id₂, id₃, hfetch₂, ?_⟩
    rw [FATRawEntryList.forFrom] at hrest
    have hgoes : ¬ list.AtEnd ⟨k / list.entriesPerCluster, k % list.entriesPerCluster, e⟩ :=
      fun hend => (list.div_lt_clusterCount hk).ne hend.1
    rw [if_neg hgoes, list.value_place, BekOS.findItem, he, if_pos hitem] at hrest
    cases hrest
    exact hfetch₃

/-- **`update_entry`** writes the first item from a slot on, and whether it writes anything else
is a matter of its cluster being kept. -/
theorem Lists.updateEntry (lists : Lists hash base start list)
    (unchanged : Unchanged hash base list.clusterChain fat) (hk : k < list.slotCount)
    {pieces after : List RawFATEntry} {item : RawFATEntry} (hitem : item.type = .Normal)
    (hslots : slotsOf hash base list k = pieces ++ item :: after)
    (hpieces : ∀ e ∈ pieces, e.type ≠ .Normal) (hown : k + pieces.length < list.slotCount)
    (hnumber : k + pieces.length < 0x100000000) (entry : BasicFATEntry) :
    ∃ fat', fat.updateEntry hash ⟨start, k⟩ entry = some (fat', .ok ⟨start, k⟩) ∧
      (SlotWritten hash base (clusterOf list (k + pieces.length))
          (32 * ((k + pieces.length) % list.entriesPerCluster))
          (.fromBasic item.fatname entry) fat' ↔
        (pieces = [] → KeptBehindFirst hash base list start k fat)) := by
  obtain ⟨fat₁, hcreate, unchanged₁⟩ := lists.createList unchanged hk
  have lists₁ : Lists hash base start (list.startingAt k hk) := ⟨lists.chain, lists.slots⟩
  obtain ⟨fat₂, hloop, unchanged₂, hlater, hfirst⟩ :=
    lists₁.findItem unchanged₁ rfl hitem hslots hpieces
  have hcluster := getElem?_clusterOf hown
  have hmem := List.mem_of_getElem? hcluster
  have hinfo := unchanged₂.read.table.info
  obtain ⟨fat₃, hset, hwritten⟩ := unchanged₂.read.sound.setEntry hnumber hcluster
    (by rw [hinfo, lists.slots]) (by rw [hinfo]; exact unchanged.there _ hmem)
    ((unchanged₂.always fat₂ .refl _ hmem).2 false) (.fromBasic item.fatname entry)
  refine ⟨fat₃, ?_, ?_⟩
  · rw [FileAllocationTable.updateEntry, hcreate, Option.bind_some]
    dsimp only
    rw [show (list.startingAt k hk).forEach
        (readEntry hash (list.startingAt k hk).clusterChain) (fun _ slot =>
          if slot.1.type = .Normal then .error slot else .ok ()) fat₁ () =
        some (fat₂, .error (item, k + pieces.length)) from hloop, Option.bind_some]
    have hset' : fat₂.setEntry hash (list.startingAt k hk) (k + pieces.length)
        (.fromBasic item.fatname entry) = some fat₃ := hset
    dsimp only
    rw [hset', Option.map_some]
  · rw [← unchanged₂.read.slotWritten_iff, hwritten]
    have hkept : ((fat₂.clusterCache.heldBlocks hash
          (clusterOf list (k + pieces.length))).isSome ∨ ∀ i < fat₂.info.clusterSize,
          ¬ (32 * ((k + pieces.length) % list.entriesPerCluster) ≤ i ∧
            i < 32 * ((k + pieces.length) % list.entriesPerCluster) + 32) →
          fat₂.clusterCache.scratch fat₂.clusterCache.created i =
            fat₂.clusterData hash (clusterOf list (k + pieces.length)) i) ↔
        Kept hash base list (k + pieces.length) fat₂ := by
      unfold Kept
      refine or_congr Iff.rfl (forall_congr' fun i => ?_)
      rw [hinfo]
      refine forall_congr' fun hi => ?_
      rw [unchanged₂.read.clusters _ (unchanged.there _ hmem) i hi]
    rw [hkept]
    cases pieces with
    | nil =>
        obtain ⟨fat₄, id₂, id₃, hfetch₂, hfetch₃⟩ := hfirst rfl
        constructor
        · rintro kept - fat₁' fat₄' fat₂' id₂' id₃' created hcreate' hfetch₂' hfetch₃'
          obtain ⟨rfl, rfl⟩ := Prod.mk.inj (Option.some_inj.mp (hcreate.symm.trans hcreate'))
          obtain ⟨rfl, rfl⟩ := Prod.mk.inj (Option.some_inj.mp (hfetch₂.symm.trans hfetch₂'))
          obtain ⟨rfl, rfl⟩ := Prod.mk.inj (Option.some_inj.mp (hfetch₃.symm.trans hfetch₃'))
          exact kept
        · intro h
          exact h rfl _ _ _ _ _ _ hcreate hfetch₂ hfetch₃
    | cons e pieces =>
        exact iff_of_true (Or.inl (hlater (List.cons_ne_nil _ _)))
          fun hnone => absurd hnone (List.cons_ne_nil _ _)

end FileAllocationTable

end BekOS
