import BekOS.Filesystem.PathLookup
import BekOS.Process.Interlink

/-!
# `sys_open`

Opening a file by its path, from the working directory or from a directory that is open.  Where the
lookup fails at the last segment and the flags ask for it, a child of that name is to be added to
the directory that the lookup has come to.  The name is taken from behind the last segment.
-/

namespace BekOS

open Function

/-! ## The functions -/

/-- `OpenFlags` -/
abbrev OpenBits := BitVec 32

namespace OpenBits

/-- `CreateIfMissing` -/
def createIfMissing : OpenBits := 0x04

/-- `CreateOnly` -/
def createOnly : OpenBits := 0x08

/-- `DIRECTORY` -/
def directory : OpenBits := 0x10

/-- The flags ask for a missing file to be made. -/
def Creates (flags : OpenBits) : Prop := flags &&& (createIfMissing ||| createOnly) ≠ 0
deriving Decidable

/-- The file is to be made, not opened. -/
def Exclusive (flags : OpenBits) : Prop := flags &&& createOnly = createOnly
deriving Decidable

end OpenBits

/-- `INVALID_ENTITY_ID` -/
def invalidEntityId : ℤ := 0x7FFFFFFF

/-- What a process has open, with the entries of those of its handles that are `FileHandle`s. -/
structure OpenFiles where
  cwd : Option FATEntry
  openEntities : List LocalEntityHandle
  fileEntry : ℕ → Option FATEntry
  nextHandle : ℕ

/-- A call of `add_child`: the directory, the name, and whether a directory is to be made. -/
structure AddChild where
  parent : FATEntry
  name : List Byte
  isDirectory : Bool

/-- What `sys_open` has done: the child it has asked for, the entry it has opened, and what it
returns. -/
structure OpenReply where
  added : Option AddChild
  opened : Option FATEntry
  result : Except ErrorCode ℕ

/-- `Entry::add_child`.  Neither entries of a FAT filesystem have one of their own. -/
def FATEntry.addChild (_ : AddChild) : Except ErrorCode FATEntry := .error .ENOTSUP

namespace OpenFiles

/-- The entry that a relative path starts at. -/
def base (files : OpenFiles) (parent : ℤ) : Except ErrorCode (Option FATEntry) :=
  if parent ≠ invalidEntityId then
    match getOpenEntity files.openEntities parent with
    | .error error => .error error
    | .ok handle =>
        match files.fileEntry handle with
        | some entry => .ok (some entry)
        | none => .error .ENOTDIR
  else .ok files.cwd

/-- The lookup, and the child that is made where it fails; `none` when the name lies behind the
segments. -/
def findOrCreate (registry : FilesystemRegistry) (root : Option FATEntry) (path : Path)
    (flags : OpenBits) : Option (Option AddChild × Except ErrorCode FATEntry) :=
  let looked := registry.fullPathLookup root path true
  match looked.result, looked.outParent.getD none with
  | .error error, some parent =>
      if flags.Creates then
        path.segments[path.segments.length]?.map fun name =>
          let call := ⟨parent, name,
            decide (flags &&& OpenBits.directory = OpenBits.directory)⟩
          (some call, FATEntry.addChild call)
      else some (none, .error error)
  | .error error, none => some (none, .error error)
  | .ok entry, _ => some (none, if flags.Exclusive then .error .EEXIST else .ok entry)

/-- The entry, with its handle, in a slot of the process. -/
def openEntry (files : OpenFiles) (entry : FATEntry) : OpenFiles × ℕ :=
  ({ files with
      openEntities := files.openEntities ++ [⟨some files.nextHandle, 0⟩]
      fileEntry := update files.fileEntry files.nextHandle (some entry)
      nextHandle := files.nextHandle + 1 }, files.openEntities.length)

/-- What `sys_open` does once an entry is found or made: the `Stat` structure is written, with what
comes of that, and the entry is opened. -/
def finishOpen (files : OpenFiles) (stat : Except ErrorCode Unit)
    (found : Option AddChild × Except ErrorCode FATEntry) : OpenFiles × OpenReply :=
  match found.2, stat with
  | .error error, _ => (files, ⟨found.1, none, .error error⟩)
  | .ok _, .error error => (files, ⟨found.1, none, .error error⟩)
  | .ok entry, .ok () =>
      let opened := files.openEntry entry
      (opened.1, ⟨found.1, some entry, .ok opened.2⟩)

/-- `sys_open`, of the path string that is read from the process, with what comes of writing the
`Stat` structure; `none` when an assertion fails. -/
def sysOpen (registry : FilesystemRegistry) (files : OpenFiles)
    (pathString : Except ErrorCode (List Byte)) (flags : OpenBits) (parent : ℤ)
    (stat : Except ErrorCode Unit) : Option (OpenFiles × OpenReply) :=
  match pathString.bind Path.parsePath with
  | .error error => some (files, ⟨none, none, .error error⟩)
  | .ok path =>
      match files.base parent with
      | .error error => some (files, ⟨none, none, .error error⟩)
      | .ok root =>
          (findOrCreate registry root path flags).map (files.finishOpen stat)

/-! ## What an open finds -/

open FilesystemRegistry FATVolume FATEntry

variable {registry : FilesystemRegistry} {path : Path} {flags : OpenBits}

theorem segments_behind (path : Path) : path.segments[path.segments.length]? = none :=
  List.getElem?_eq_none le_rfl

/-- The lookup goes as the walk that stays at each `..` does, and no child can be made. -/
theorem findOrCreate_spec (base : Option (Node registry)) (path : Path) (flags : OpenBits) :
    match registry.startNode base path with
    | none => ∃ error,
        findOrCreate registry (base.map Node.entry) path flags = some (none, .error error)
    | some node =>
        match (registry.volume node.filesystem).walk node.place (staying path.segments) with
        | .reached place => findOrCreate registry (base.map Node.entry) path flags =
            some (none, if flags.Exclusive then .error .EEXIST
              else .ok (ofPlace node.filesystem place))
        | .lacking _ => findOrCreate registry (base.map Node.entry) path flags =
            if flags.Creates then none else some (none, .error .ENOENT)
        | .failed => ∃ error,
            findOrCreate registry (base.map Node.entry) path flags = some (none, .error error) := by
  have hlookup := fullPathLookup_eq base path true
  unfold findOrCreate
  cases hstart : registry.startNode base path with
  | none =>
      rw [hstart] at hlookup
      obtain ⟨error, hlooked⟩ := hlookup
      rw [hlooked]
      exact ⟨error, rfl⟩
  | some node =>
      rw [hstart] at hlookup
      dsimp only at hlookup ⊢
      have hreplies : Replies node.filesystem true _ _ :=
        @lookupSegments_replies registry node.filesystem node.place true path.segments
      rw [← Node.entry, ← hlookup] at hreplies
      cases hstays : (registry.volume node.filesystem).walk node.place (staying path.segments) with
      | reached place =>
          rw [hstays] at hreplies
          rw [hreplies]
      | lacking directory =>
          rw [hstays] at hreplies
          rw [hreplies]
          dsimp only
          rw [if_pos rfl, Option.getD_some]
          dsimp only
          rw [segments_behind, Option.map_none]
      | failed =>
          rw [hstays] at hreplies
          obtain ⟨error, hlooked⟩ := hreplies
          rw [hlooked]
          exact ⟨error, rfl⟩

end OpenFiles

/-! ## Files in a tree -/

open FilesystemRegistry FATVolume FATEntry

/-- What a process has open, by the places of the entries in the trees of the volumes. -/
structure PlacedFiles (registry : FilesystemRegistry) where
  cwd : Option (Node registry)
  openEntities : List LocalEntityHandle
  fileNode : ℕ → Option (Node registry)
  nextHandle : ℕ

namespace PlacedFiles

variable {registry : FilesystemRegistry} (placed : PlacedFiles registry)

/-- The objects of the entries. -/
def files : OpenFiles where
  cwd := placed.cwd.map Node.entry
  openEntities := placed.openEntities
  fileEntry handle := (placed.fileNode handle).map Node.entry
  nextHandle := placed.nextHandle

/-- Where a relative path starts. -/
def base (parent : ℤ) : Except ErrorCode (Option (Node registry)) :=
  if parent ≠ invalidEntityId then
    match getOpenEntity placed.openEntities parent with
    | .error error => .error error
    | .ok handle =>
        match placed.fileNode handle with
        | some node => .ok (some node)
        | none => .error .ENOTDIR
  else .ok placed.cwd

/-- Where the path starts, and the path; nothing where there is no place to start at. -/
def start (pathString : Except ErrorCode (List Byte)) (parent : ℤ) :
    Option (Node registry × Path) :=
  match pathString.bind Path.parsePath, placed.base parent with
  | .ok path, .ok base => (registry.startNode base path).map (·, path)
  | _, _ => none

/-- **What an open is to do.**  No assertion fails.  Where only the last segment is missing and the
flags ask for it, a child of that name is added to the directory it is missing from.  Otherwise none
is, and if an entry is opened it is the one that the path leads to, and not one that was to be
made. -/
def OpensRight (pathString : Except ErrorCode (List Byte)) (flags : OpenBits) (parent : ℤ)
    (stat : Except ErrorCode Unit) : Prop :=
  ∃ done, placed.files.sysOpen registry pathString flags parent stat = some done ∧
    match placed.start pathString parent with
    | none => done.2.added = none ∧ done.2.opened = none
    | some (node, path) =>
        match (registry.volume node.filesystem).walk node.place path.segments with
        | .lacking directory =>
            if flags.Creates then
              done.2.added = path.segments.getLast?.map fun name =>
                ⟨ofPlace node.filesystem directory, name,
                  decide (flags &&& OpenBits.directory = OpenBits.directory)⟩
            else done.2.added = none ∧ done.2.opened = none
        | .reached place => done.2.added = none ∧ ∀ entry, done.2.opened = some entry →
            entry = ofPlace node.filesystem place ∧ ¬ flags.Exclusive
        | .failed => done.2.added = none ∧ done.2.opened = none

/-- The flags do not ask for a file to be made where the last segment is missing, neither from the
directory that the path leads to nor from the one that it leads to with each `..` taken for `.`; and
where an entry is opened, the path leads to the same with each `..` taken for `.`. -/
def Findable (pathString : Except ErrorCode (List Byte)) (flags : OpenBits) (parent : ℤ)
    (stat : Except ErrorCode Unit) : Prop :=
  ∀ node path, placed.start pathString parent = some (node, path) →
    let tree := registry.volume node.filesystem
    let ends := tree.walk node.place path.segments
    let stays := tree.walk node.place (staying path.segments)
    (flags.Creates → ∀ directory, ends ≠ .lacking directory ∧ stays ≠ .lacking directory) ∧
      (¬ flags.Exclusive → stat = .ok () → ∀ place, stays = .reached place → ends = .reached place)

theorem files_base (parent : ℤ) :
    placed.files.base parent = (placed.base parent).map (Option.map Node.entry) := by
  unfold OpenFiles.base base
  split_ifs
  · rw [files]
    dsimp only
    cases getOpenEntity placed.openEntities parent with
    | error error => rfl
    | ok handle =>
        dsimp only
        cases placed.fileNode handle with
        | none => rfl
        | some node => rfl
  · rfl

theorem getLast_of_lacking {volume : FATVolume} {place directory : Place}
    {segments : List (List Byte)} (h : volume.walk place segments = .lacking directory) :
    ∃ name, segments.getLast? = some name := by
  cases segments with
  | nil => cases h
  | cons segment rest => exact ⟨_, List.getLast?_eq_getLast_of_ne_nil (List.cons_ne_nil _ _)⟩

variable {placed} {pathString : Except ErrorCode (List Byte)} {flags : OpenBits} {parent : ℤ}
  {stat : Except ErrorCode Unit}

theorem opensRight_error_iff {done : OpenFiles × OpenReply} {error : ErrorCode}
    (h : placed.files.sysOpen registry pathString flags parent stat = some done)
    (hreply : done.2 = ⟨none, none, .error error⟩) :
    placed.OpensRight pathString flags parent stat ↔
      ∀ node path, placed.start pathString parent = some (node, path) → flags.Creates →
        ∀ directory,
          (registry.volume node.filesystem).walk node.place path.segments ≠ .lacking directory := by
  unfold OpensRight
  rw [h]
  simp only [Option.some.injEq, exists_eq_left', hreply]
  cases hstart : placed.start pathString parent with
  | none => simp
  | some begin =>
      obtain ⟨node, path⟩ := begin
      simp only [Option.some.injEq, Prod.mk.injEq, and_imp]
      cases hends : (registry.volume node.filesystem).walk node.place path.segments with
      | reached place =>
          refine iff_of_true ⟨trivial, fun entry hentry => by cases hentry⟩ ?_
          rintro _ _ rfl rfl _ directory hlacking
          rw [hends] at hlacking
          cases hlacking
      | failed =>
          refine iff_of_true ⟨trivial, trivial⟩ ?_
          rintro _ _ rfl rfl _ directory hlacking
          rw [hends] at hlacking
          cases hlacking
      | lacking directory =>
          dsimp only
          obtain ⟨name, hname⟩ := getLast_of_lacking hends
          split_ifs with hcreates
          · refine iff_of_false (fun hadded => ?_) fun hnot => hnot _ _ rfl rfl hcreates directory hends
            rw [hname, Option.map_some] at hadded
            cases hadded
          · exact iff_of_true ⟨trivial, trivial⟩ fun _ _ _ _ hcreates' => absurd hcreates' hcreates

theorem opensRight_opened_iff {done : OpenFiles × OpenReply} {node : Node registry} {path : Path}
    {place : Place} {slot : ℕ}
    (h : placed.files.sysOpen registry pathString flags parent stat = some done)
    (hreply : done.2 = ⟨none, some (ofPlace node.filesystem place), .ok slot⟩)
    (hstart : placed.start pathString parent = some (node, path)) (hopens : ¬ flags.Exclusive)
    (hplace : (registry.volume node.filesystem).HasPlace place) :
    placed.OpensRight pathString flags parent stat ↔
      (registry.volume node.filesystem).walk node.place path.segments = .reached place := by
  unfold OpensRight
  rw [h]
  simp only [Option.some.injEq, exists_eq_left', hreply, hstart]
  cases hends : (registry.volume node.filesystem).walk node.place path.segments with
  | reached reached =>
      have hreached := node.hasPlace.walk (.inl hends)
      simp only [true_and, WalkEnd.reached.injEq, hopens, not_false_eq_true,
        and_true, forall_eq']
      exact ⟨fun hsame => ofPlace_injective hreached hplace hsame.symm,
        fun hsame => congrArg (ofPlace node.filesystem) hsame.symm⟩
  | failed =>
      refine iff_of_false ?_ nofun
      rintro ⟨-, hnone⟩
      cases hnone
  | lacking directory =>
      obtain ⟨name, hname⟩ := getLast_of_lacking hends
      refine iff_of_false (fun hright => ?_) nofun
      dsimp only at hright
      split_ifs at hright with hcreates
      · rw [hname, Option.map_some] at hright
        cases hright
      · cases hright.2

/-- `sys_open` of a path that starts in a tree. -/
theorem opensRight_start_iff {node : Node registry} {path : Path}
    {found : Option (Option AddChild × Except ErrorCode FATEntry)}
    (hstart : placed.start pathString parent = some (node, path))
    (hopen : placed.files.sysOpen registry pathString flags parent stat =
      found.map (placed.files.finishOpen stat))
    (hfound : match (registry.volume node.filesystem).walk node.place (staying path.segments) with
      | .reached place => found = some (none, if flags.Exclusive then .error .EEXIST
          else .ok (ofPlace node.filesystem place))
      | .lacking _ => found = if flags.Creates then none else some (none, .error .ENOENT)
      | .failed => ∃ error, found = some (none, .error error)) :
    placed.OpensRight pathString flags parent stat ↔
      placed.Findable pathString flags parent stat := by
  unfold Findable
  rw [hstart]
  cases hstays : (registry.volume node.filesystem).walk node.place (staying path.segments) with
  | reached place =>
      rw [hstays] at hfound
      subst hfound
      by_cases hexclusive : flags.Exclusive
      · rw [if_pos hexclusive, Option.map_some] at hopen
        rw [opensRight_error_iff hopen rfl, hstart]
        simp [hstays, hexclusive]
      · rw [if_neg hexclusive, Option.map_some] at hopen
        cases hstat : stat with
        | error error =>
            rw [hstat] at hopen
            rw [opensRight_error_iff hopen rfl, hstart]
            simp [hstays]
        | ok _ =>
            rw [hstat] at hopen
            rw [opensRight_opened_iff hopen rfl hstart hexclusive (node.hasPlace.walk (.inl hstays))]
            simp +contextual [hstays, hexclusive]
  | lacking directory =>
      rw [hstays] at hfound
      subst hfound
      by_cases hcreates : flags.Creates
      · rw [if_pos hcreates, Option.map_none] at hopen
        refine iff_of_false ?_ fun hfindable => ?_
        · rintro ⟨done, hdone, -⟩
          rw [hopen] at hdone
          cases hdone
        · exact ((hfindable node path rfl).1 hcreates directory).2 hstays
      · rw [if_neg hcreates, Option.map_some] at hopen
        rw [opensRight_error_iff hopen rfl, hstart]
        simp [hstays, hcreates]
  | failed =>
      rw [hstays] at hfound
      obtain ⟨error, rfl⟩ := hfound
      rw [Option.map_some] at hopen
      rw [opensRight_error_iff hopen rfl, hstart]
      simp [hstays]

theorem sysOpen_eq {path : Path} {base : Option (Node registry)}
    (hparse : pathString.bind Path.parsePath = .ok path) (hbase : placed.base parent = .ok base) :
    placed.start pathString parent = (registry.startNode base path).map (·, path) ∧
      placed.files.sysOpen registry pathString flags parent stat =
        (OpenFiles.findOrCreate registry (base.map Node.entry) path flags).map fun found =>
          placed.files.finishOpen stat found := by
  constructor
  · rw [start, hparse, hbase]
  · rw [OpenFiles.sysOpen, hparse, files_base, hbase]
    rfl

/-- **`sys_open`** does what it is to do exactly where nothing is to be made and no `..` matters. -/
theorem opensRight_iff (placed : PlacedFiles registry)
    (pathString : Except ErrorCode (List Byte)) (flags : OpenBits) (parent : ℤ)
    (stat : Except ErrorCode Unit) :
    placed.OpensRight pathString flags parent stat ↔
      placed.Findable pathString flags parent stat := by
  cases hparse : pathString.bind Path.parsePath with
  | error error =>
      have hopen : placed.files.sysOpen registry pathString flags parent stat =
          some (placed.files, ⟨none, none, .error error⟩) := by
        rw [OpenFiles.sysOpen, hparse]
      have hstart : placed.start pathString parent = none := by
        rw [start, hparse]
      rw [opensRight_error_iff hopen rfl, Findable, hstart]
      simp
  | ok path =>
      cases hbase : placed.base parent with
      | error error =>
          have hopen : placed.files.sysOpen registry pathString flags parent stat =
              some (placed.files, ⟨none, none, .error error⟩) := by
            rw [OpenFiles.sysOpen, hparse, files_base, hbase]
            rfl
          have hstart : placed.start pathString parent = none := by
            rw [start, hparse, hbase]
          rw [opensRight_error_iff hopen rfl, Findable, hstart]
          simp
      | ok base =>
          obtain ⟨hstart, hopen⟩ := @sysOpen_eq _ placed pathString flags parent stat _ _ hparse hbase
          have hfound := OpenFiles.findOrCreate_spec base path flags
          cases hnode : registry.startNode base path with
          | none =>
              rw [hnode] at hfound hstart
              obtain ⟨error, hfound⟩ := hfound
              rw [hfound, Option.map_some] at hopen
              rw [opensRight_error_iff hopen rfl, Findable, hstart]
              simp
          | some node =>
              rw [hnode] at hfound hstart
              exact opensRight_start_iff hstart hopen hfound

theorem findOrCreate_node {base : Option (Node registry)} {path : Path}
    {found : Option AddChild × Except ErrorCode FATEntry} {entry : FATEntry}
    (h : OpenFiles.findOrCreate registry (base.map Node.entry) path flags = some found)
    (hentry : found.2 = .ok entry) : ∃ node : Node registry, entry = node.entry := by
  obtain ⟨added, result⟩ := found
  have hspec := OpenFiles.findOrCreate_spec base path flags
  rw [h] at hspec
  cases hnode : registry.startNode base path with
  | none =>
      rw [hnode] at hspec
      obtain ⟨error, hfound⟩ := hspec
      cases hfound
      cases hentry
  | some node =>
      rw [hnode] at hspec
      dsimp only at hspec
      cases hstays : (registry.volume node.filesystem).walk node.place (staying path.segments) with
      | reached place =>
          rw [hstays] at hspec
          cases hspec
          split_ifs at hentry
          cases hentry
          exact ⟨⟨node.filesystem, place, node.hasPlace.walk (.inl hstays)⟩, rfl⟩
      | lacking directory =>
          rw [hstays] at hspec
          dsimp only at hspec
          split_ifs at hspec
          cases hspec
          cases hentry
      | failed =>
          rw [hstays] at hspec
          obtain ⟨error, hfound⟩ := hspec
          cases hfound
          cases hentry

theorem openEntry_files (placed : PlacedFiles registry) (node : Node registry) :
    (placed.files.openEntry node.entry).1 = files
      { placed with
        openEntities := placed.openEntities ++ [⟨some placed.nextHandle, 0⟩]
        fileNode := update placed.fileNode placed.nextHandle (some node)
        nextHandle := placed.nextHandle + 1 } := by
  have hentries : update (fun handle => (placed.fileNode handle).map Node.entry)
      placed.nextHandle (some node.entry) = fun handle =>
        (update placed.fileNode placed.nextHandle (some node) handle).map Node.entry := by
    funext handle
    rw [update_apply, update_apply]
    split_ifs with hsame
    · rfl
    · rfl
  exact congrArg (fun entries => OpenFiles.mk (placed.cwd.map Node.entry)
    (placed.openEntities ++ [⟨some placed.nextHandle, 0⟩]) entries (placed.nextHandle + 1)) hentries

theorem sysOpen_placed {done : OpenFiles × OpenReply}
    (h : placed.files.sysOpen registry pathString flags parent stat = some done) :
    ∃ placed' : PlacedFiles registry, done.1 = placed'.files := by
  cases hparse : pathString.bind Path.parsePath with
  | error error =>
      rw [OpenFiles.sysOpen, hparse] at h
      cases h
      exact ⟨placed, rfl⟩
  | ok path =>
      cases hbase : placed.base parent with
      | error error =>
          rw [OpenFiles.sysOpen, hparse, files_base, hbase] at h
          cases h
          exact ⟨placed, rfl⟩
      | ok base =>
          rw [(sysOpen_eq hparse hbase).2] at h
          obtain ⟨⟨added, result⟩, hfound, rfl⟩ := Option.map_eq_some_iff.mp h
          cases result with
          | error error => exact ⟨placed, rfl⟩
          | ok entry =>
              obtain ⟨node, rfl⟩ := findOrCreate_node hfound rfl
              cases stat with
              | error error => exact ⟨placed, rfl⟩
              | ok _ => exact ⟨_, openEntry_files placed node⟩

/-- A process with nothing open, in the volume that has only `a`. -/
def placedA : PlacedFiles registryA := ⟨none, [], fun _ => none, 0⟩

/-- `/b` is to be made where there is only `a`: its name is looked for behind the segments. -/
theorem opensRight_fails : ¬ placedA.OpensRight (.ok [0x2F, 0x62]) OpenBits.createIfMissing
    invalidEntityId (.ok ()) := by
  rintro ⟨done, hdone, -⟩
  have hnone : (placedA.files.sysOpen registryA (.ok [0x2F, 0x62]) OpenBits.createIfMissing
      invalidEntityId (.ok ())).isNone = true := by decide +kernel
  rw [hdone] at hnone
  cases hnone

end PlacedFiles
end BekOS
