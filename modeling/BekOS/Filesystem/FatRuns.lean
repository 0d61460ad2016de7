import BekOS.Filesystem.FatSteps

/-!
# Runs of FAT operations

What callers of `FileAllocationTable` can do, one operation after the other.
-/

namespace BekOS.FileAllocationTable

open Relation PartialRun

/-- The operations of `FileAllocationTable`. -/
inductive FatOp where
  | getNextCluster (currentCluster : ℕ)
  | allocateNextCluster (currentCluster : ℕ)
  | doDataInterchange (buffer : Memory Byte) (startCluster offset size : ℕ) (write : Bool)
  | extendFile (startCluster size : ℕ)
  | getEntries (startCluster : ℕ)
  | getRootEntries
  | getEntry (location : FATEntryLocation)
  | updateEntry (location : FATEntryLocation) (entry : BasicFATEntry)

/-- What they return. -/
inductive FatResult where
  | cluster (cluster : ℕ)
  | data (buffer : Memory Byte) (success : Bool)
  | extended (success : Bool)
  | entries (entries : List LocatedFATEntry)
  | entry (result : Except ErrorCode BasicFATEntry)
  | location (result : Except ErrorCode FATEntryLocation)

variable (hash : ℕ → ℕ)

/-- One operation. -/
def fatStep (fat : FileAllocationTable) : FatOp → Option (FileAllocationTable × FatResult)
  | .getNextCluster currentCluster =>
      (fat.getNextCluster hash currentCluster).map (Prod.map id .cluster)
  | .allocateNextCluster currentCluster =>
      (fat.allocateNextCluster hash currentCluster).map (Prod.map id .cluster)
  | .doDataInterchange buffer startCluster offset size write =>
      (fat.doDataInterchange hash buffer startCluster offset size write).map
        (Prod.map id fun done => .data done.1 done.2)
  | .extendFile startCluster size =>
      (fat.extendFile hash startCluster size).map (Prod.map id .extended)
  | .getEntries startCluster => (fat.getEntries hash startCluster).map (Prod.map id .entries)
  | .getRootEntries => (fat.getRootEntries hash).map (Prod.map id .entries)
  | .getEntry location => (fat.getEntry hash location).map (Prod.map id .entry)
  | .updateEntry location entry =>
      (fat.updateEntry hash location entry).map (Prod.map id .location)

variable {hash} {fat final : FileAllocationTable} {ops : List FatOp}

/-- **An operation** is a sequence of block steps. -/
theorem fatStep_steps (ok : fat.Ok hash) {op : FatOp} {moved : FileAllocationTable × FatResult}
    (h : fatStep hash fat op = some moved) : Steps hash fat moved.1 := by
  cases op with
  | getNextCluster cluster =>
      obtain ⟨done, hdone, rfl⟩ := Option.map_eq_some_iff.mp h
      exact getNextCluster_steps hdone
  | allocateNextCluster cluster =>
      obtain ⟨done, hdone, rfl⟩ := Option.map_eq_some_iff.mp h
      exact allocateNextCluster_steps ok hdone
  | doDataInterchange buffer cluster offset size write =>
      obtain ⟨done, hdone, rfl⟩ := Option.map_eq_some_iff.mp h
      exact doDataInterchange_steps ok hdone
  | extendFile cluster size =>
      obtain ⟨done, hdone, rfl⟩ := Option.map_eq_some_iff.mp h
      exact extendFile_steps ok hdone
  | getEntries cluster =>
      obtain ⟨done, hdone, rfl⟩ := Option.map_eq_some_iff.mp h
      exact getEntries_steps ok hdone
  | getRootEntries =>
      obtain ⟨done, hdone, rfl⟩ := Option.map_eq_some_iff.mp h
      exact getRootEntries_steps ok hdone
  | getEntry location =>
      obtain ⟨done, hdone, rfl⟩ := Option.map_eq_some_iff.mp h
      exact getEntry_steps ok hdone
  | updateEntry location entry =>
      obtain ⟨done, hdone, rfl⟩ := Option.map_eq_some_iff.mp h
      exact updateEntry_steps ok hdone

/-- **A run of operations** is one, too. -/
theorem runSteps_steps (ok : fat.Ok hash) {results : List FatResult}
    (h : runSteps (fatStep hash) fat ops = some (final, results)) : Steps hash fat final := by
  induction ops generalizing fat results with
  | nil =>
      cases h
      exact .refl
  | cons op rest ih =>
      obtain ⟨moved, tail, hstep, hrest, heq⟩ := runSteps_cons_eq_some h
      cases heq
      have hsteps := fatStep_steps ok hstep
      exact hsteps.trans (ih (Steps.ok hsteps ok).1 hrest)

end BekOS.FileAllocationTable
