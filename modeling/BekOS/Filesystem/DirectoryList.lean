import BekOS.Filesystem.FatEntries

/-!
# Enumerating a directory

`FATRawEntryList` and the loops over it in `filesystem/fat.cpp`.  How a slot is
read is left open here, as a `SlotReader`: the reader goes through the block cache
and changes it, or fails where an assertion fails on the way.  A loop is a
range-`for` whose body may return from the function.
-/

namespace BekOS

universe u v w

/-- How `get_entry` reads the slot at a place of a cluster of the chain. -/
abbrev SlotReader (σ : Type u) := σ → ℕ → ℕ → Option (σ × RawFATEntry)

/-- `FATRawEntryList`, with what `create` has checked of the start. -/
structure FATRawEntryList where
  clusterChain : List ℕ
  entriesPerCluster : ℕ
  startIndex : ℕ
  startIndex_lt : startIndex < clusterChain.length * entriesPerCluster

/-- `FATEntryIterator` -/
structure FATEntryIterator where
  chainIndex : ℕ
  inClusterIndex : ℕ
  currentEntry : RawFATEntry

namespace FATRawEntryList

/-- `cluster_count` -/
def clusterCount (list : FATRawEntryList) : ℕ := list.clusterChain.length

variable {σ : Type u} {β : Type v} {ρ : Type w}

/-- `begin` -/
def start (list : FATRawEntryList) (read : SlotReader σ) (state : σ) :
    Option (σ × FATEntryIterator) :=
  let chainIndex := list.startIndex / list.entriesPerCluster
  let inClusterIndex := list.startIndex % list.entriesPerCluster
  (read state chainIndex inClusterIndex).map fun entry =>
    (entry.1, ⟨chainIndex, inClusterIndex, entry.2⟩)

/-- The iterator is equal to `end()`. -/
def AtEnd (list : FATRawEntryList) (it : FATEntryIterator) : Prop :=
  it.chainIndex = list.clusterCount ∧ it.inClusterIndex = 0
deriving Decidable

/-- What the iterator is compared by once it has a new value. -/
def settle (list : FATRawEntryList) (it : FATEntryIterator) : FATEntryIterator :=
  if it.currentEntry.type = .EndOfDirectory then
    { it with chainIndex := list.clusterCount, inClusterIndex := 0 }
  else it

/-- `operator++` -/
def next (list : FATRawEntryList) (read : SlotReader σ) (state : σ) (it : FATEntryIterator) :
    Option (σ × FATEntryIterator) :=
  if it.chainIndex < list.clusterCount then
    let moved :=
      if it.inClusterIndex + 1 = list.entriesPerCluster then (it.chainIndex + 1, 0)
      else (it.chainIndex, it.inClusterIndex + 1)
    if moved.1 ≠ list.clusterCount then
      (read state moved.1 moved.2).map fun entry =>
        (entry.1, list.settle ⟨moved.1, moved.2, entry.2⟩)
    else some (state, list.settle ⟨moved.1, moved.2, it.currentEntry⟩)
  else none

/-- `operator*`: the slot and its place in the directory. -/
def value (list : FATRawEntryList) (it : FATEntryIterator) : RawFATEntry × ℕ :=
  (it.currentEntry, list.entriesPerCluster * it.chainIndex + it.inClusterIndex)

/-- A range-`for` from the iterator on.  The body goes on, or returns a result. -/
def forFrom (list : FATRawEntryList) (read : SlotReader σ)
    (body : β → RawFATEntry × ℕ → Except ρ β) :
    ℕ → σ → FATEntryIterator → β → Option (σ × Except ρ β)
  | 0, _, _, _ => none
  | fuel + 1, state, it, acc =>
      if list.AtEnd it then some (state, .ok acc)
      else
        match body acc (list.value it) with
        | .error result => some (state, .error result)
        | .ok acc =>
            (list.next read state it).bind fun moved =>
              forFrom list read body fuel moved.1 moved.2 acc

/-- A range-`for` over the list.  `end()` reads a slot, too. -/
def forEach (list : FATRawEntryList) (read : SlotReader σ)
    (body : β → RawFATEntry × ℕ → Except ρ β) (state : σ) (acc : β) :
    Option (σ × Except ρ β) :=
  (list.start read state).bind fun started =>
    (read started.1 0 0).bind fun ended =>
      list.forFrom read body (list.clusterCount * list.entriesPerCluster + 1) ended.1 started.2 acc

end FATRawEntryList

/-! ## The bodies of the loops -/

/-- What `get_entries` has collected: the slots of an entry that is not complete
yet, where they began, and the entries found. -/
structure EntryScan where
  workingEntry : List RawFATEntry
  indexInDirectory : ℕ
  entries : List LocatedFATEntry

namespace EntryScan

/-- Before the first slot. -/
def empty : EntryScan where
  workingEntry := []
  indexInDirectory := 0
  entries := []

/-- `working_location.index_in_directory` once slot `i` has been collected. -/
def located (scan : EntryScan) (i : ℕ) : ℕ :=
  if scan.workingEntry = [] then i % 0x100000000 else scan.indexInDirectory

/-- The body of the loop of `get_entries`.  The vector is moved from when an entry
is complete, which leaves it empty. -/
def scanSlot (startCluster : ℕ) (scan : EntryScan) (slot : RawFATEntry × ℕ) : EntryScan :=
  match slot.1.type with
  | .LongFileName =>
      if scan.workingEntry = [] ∧ slot.1.order &&& 0x40 = 0 then scan
      else
        { scan with
          workingEntry := scan.workingEntry ++ [slot.1]
          indexInDirectory := scan.located slot.2 }
  | .Normal =>
      { workingEntry := []
        indexInDirectory := scan.located slot.2
        entries := scan.entries ++
          [⟨PackedFATEntry.toBasic ⟨scan.workingEntry, slot.1⟩,
            ⟨startCluster, scan.located slot.2⟩⟩] }
  | .Deleted | .EndOfDirectory => scan

end EntryScan

/-- `get_entries`, once the list has been created. -/
def FATRawEntryList.getEntries {σ : Type u} (list : FATRawEntryList) (startCluster : ℕ)
    (read : SlotReader σ) (state : σ) : Option (σ × List LocatedFATEntry) :=
  (list.forEach (ρ := Empty) read (fun scan slot => .ok (scan.scanSlot startCluster slot)) state
    EntryScan.empty).map fun done =>
      match done.2 with
      | .ok scan => (done.1, scan.entries)

/-- The body of the loop of `get_entry`. -/
def findEntry (workingEntry : List RawFATEntry) (slot : RawFATEntry × ℕ) :
    Except (Except ErrorCode BasicFATEntry) (List RawFATEntry) :=
  match slot.1.type with
  | .LongFileName =>
      if workingEntry = [] ∧ slot.1.order &&& 0x40 = 0 then .error (.error .EINVAL)
      else .ok (workingEntry ++ [slot.1])
  | .Normal => .error (.ok (PackedFATEntry.toBasic ⟨workingEntry, slot.1⟩))
  | .Deleted | .EndOfDirectory => .ok workingEntry

/-- `get_entry`, once the list has been created. -/
def FATRawEntryList.getEntry {σ : Type u} (list : FATRawEntryList) (read : SlotReader σ)
    (state : σ) : Option (σ × Except ErrorCode BasicFATEntry) :=
  (list.forEach read findEntry state []).map fun done =>
    match done.2 with
    | .error result => (done.1, result)
    | .ok _ => (done.1, .error .EINVAL)

end BekOS
