import BekOS.Filesystem.PathWalk

/-!
# Looking a path up

`fs::fullPathLookup` of `filesystem/filesystem.cpp` over the entries of
`filesystem/fatfs.cpp`.  An entry object is made for each segment, from the
directory entry that has its name, and the walk goes up through the parent that
the object has.

The constructor of `FATEntry` does not set that parent.  So no object has one, a
segment `..` stays where it is, and `out_parent` is null after each lookup that
succeeds: `fullPathLookup_agrees_iff` says when that makes no difference to the
walk through the tree.
-/

namespace BekOS

/-! ## Entries -/

/-- `FATEntryKind` -/
inductive FATEntryKind where
  | Root
  | RootMember
  | Normal
  deriving DecidableEq

/-- `EntryTimestamps` -/
structure EntryTimestamps where
  created : Option ℕ
  modified : Option ℕ
  accessed : Option ℕ
  deriving DecidableEq

/-- `FATEntry`.  The filesystem is the one of that number. -/
structure FATEntry where
  isDirectory : Bool
  name : List Byte
  timestamps : EntryTimestamps
  size : ℕ
  filesystem : ℕ
  parent : Option FATEntry
  rootCluster : ℕ
  kind : FATEntryKind
  entryLocation : FATEntryLocation

namespace FATEntry

/-- `FATEntry::FATEntry`.  There is no initialiser for `m_parent`. -/
def construct (isDirectory : Bool) (name : List Byte) (timestamps : EntryTimestamps) (size : ℕ)
    (parent : Option FATEntry) (rootCluster : ℕ) (entryLocation : FATEntryLocation)
    (filesystem : ℕ) : FATEntry where
  isDirectory := isDirectory
  name := name
  timestamps := timestamps
  size := size
  filesystem := filesystem
  parent := none
  rootCluster := rootCluster
  kind :=
    match parent with
    | some parent => if parent.parent.isSome then .Normal else .RootMember
    | none => .Root
  entryLocation := entryLocation

/-- `make_ref` -/
def makeRef (entry : LocatedFATEntry) (parent : FATEntry) : FATEntry :=
  let e := entry.entry
  construct (decide e.isDirectory) e.name
    ⟨some e.creationTimestamp, some e.modifiedTimestamp, some e.accessedTimestamp⟩ e.size
    (some parent) e.dataCluster entry.location parent.filesystem

/-- The root directory that `FATFilesystem::FATFilesystem` makes. -/
def rootDirectory (filesystem : ℕ) : FATEntry :=
  construct true [0x72, 0x6F, 0x6F, 0x74] ⟨none, none, none⟩ 0 none 0 ⟨0, 0⟩ filesystem

end FATEntry

/-! ## Filesystems -/

/-- `FilesystemRegistry` -/
structure FilesystemRegistry where
  rootFilesystem : ℕ
  find : List Byte → Option ℕ
  volume : ℕ → DirectoryTree

namespace FilesystemRegistry

/-- `FATDirectoryEntry::lookup` -/
def lookup (registry : FilesystemRegistry) (directory : FATEntry) (name : List Byte) :
    Except ErrorCode FATEntry :=
  let volume := registry.volume directory.filesystem
  let entries :=
    if directory.kind = .Root then volume.rootEntries else volume.entries directory.rootCluster
  match FATVolume.findName name entries with
  | some e => .ok (FATEntry.makeRef e directory)
  | none => .error .ENOENT

/-- `lookup_root` -/
def lookupRoot (registry : FilesystemRegistry) (path : Path) : Except ErrorCode FATEntry :=
  if ¬ path.isAbsolute then .error .EINVAL
  else
    match path.diskSpecifier with
    | some disk =>
        match registry.find disk with
        | some filesystem => .ok (FATEntry.rootDirectory filesystem)
        | none => .error .ENOENT
    | none => .ok (FATEntry.rootDirectory registry.rootFilesystem)

/-- What a lookup returns, and what it has written to `*out_parent`. -/
structure LookupReply where
  result : Except ErrorCode FATEntry
  outParent : Option (Option FATEntry)

/-- The loop of `fullPathLookup`, and what is behind it. -/
def lookupSegments (registry : FilesystemRegistry) (wantsParent : Bool) :
    FATEntry → List (List Byte) → LookupReply
  | root, [] => ⟨.ok root, if wantsParent then some root.parent else none⟩
  | root, segment :: rest =>
      if ¬ root.isDirectory then ⟨.error .ENOTDIR, none⟩
      else if segment = dot then lookupSegments registry wantsParent root rest
      else if segment = dotDot then
        lookupSegments registry wantsParent (root.parent.getD root) rest
      else
        match registry.lookup root segment with
        | .error error =>
            ⟨.error error, if wantsParent ∧ rest = [] then some (some root) else none⟩
        | .ok found => lookupSegments registry wantsParent found rest

/-- `fullPathLookup` -/
def fullPathLookup (registry : FilesystemRegistry) (root : Option FATEntry) (s : Path)
    (wantsParent : Bool) : LookupReply :=
  match (if s.isAbsolute then none else root) with
  | none =>
      match registry.lookupRoot s with
      | .error error => ⟨.error error, none⟩
      | .ok root => registry.lookupSegments wantsParent root s.segments
  | some root => registry.lookupSegments wantsParent root s.segments

end FilesystemRegistry

/-! ## The objects of a volume -/

namespace FATEntry

open FATVolume

/-- The object that the lookups make on the way to a place. -/
def ofPlace (filesystem : ℕ) : Place → FATEntry
  | [] => rootDirectory filesystem
  | e :: place => makeRef e (ofPlace filesystem place)

variable {filesystem : ℕ} {place : Place}

@[simp] theorem ofPlace_filesystem : (ofPlace filesystem place).filesystem = filesystem := by
  induction place with
  | nil => rfl
  | cons e place ih => exact ih

@[simp] theorem ofPlace_parent : (ofPlace filesystem place).parent = none := by
  cases place <;> rfl

theorem ofPlace_isDirectory : (ofPlace filesystem place).isDirectory ↔ IsDirectory place := by
  cases place with
  | nil => exact iff_of_true rfl trivial
  | cons e place => exact decide_eq_true_iff

theorem ofPlace_kind (e : LocatedFATEntry) :
    (ofPlace filesystem (e :: place)).kind = .RootMember := by
  change (if (ofPlace filesystem place).parent.isSome then FATEntryKind.Normal else .RootMember) = _
  rw [ofPlace_parent]
  rfl

theorem ofPlace_injective {tree : DirectoryTree} {place' : Place} (h : tree.HasPlace place)
    (h' : tree.HasPlace place') (heq : ofPlace filesystem place = ofPlace filesystem place') :
    place = place' := by
  have hkind := congrArg FATEntry.kind heq
  match place, place' with
  | [], [] => rfl
  | [], e' :: place' =>
      rw [ofPlace_kind] at hkind
      cases hkind
  | e :: place, [] =>
      rw [ofPlace_kind] at hkind
      cases hkind
  | e :: place, e' :: place' => exact tree.isTree h h' (congrArg FATEntry.entryLocation heq)

end FATEntry

namespace FilesystemRegistry

open FATVolume FATEntry

variable {registry : FilesystemRegistry} {filesystem : ℕ} {place : Place} {wantsParent : Bool}

theorem lookup_ofPlace (name : List Byte) :
    registry.lookup (ofPlace filesystem place) name =
      match (registry.volume filesystem).child place name with
      | some e => .ok (ofPlace filesystem (e :: place))
      | none => .error .ENOENT := by
  unfold lookup
  rw [ofPlace_filesystem]
  cases place with
  | nil => rfl
  | cons e place =>
      dsimp only
      rw [if_neg (by rw [ofPlace_kind]; decide)]
      rfl

/-- What is to be returned and written where a walk ends. -/
def Reports (filesystem : ℕ) (wantsParent : Bool) (reply : LookupReply) : WalkEnd → Prop
  | .reached place =>
      reply.result = .ok (ofPlace filesystem place) ∧
        (wantsParent → reply.outParent =
          some (if place = [] then none else some (ofPlace filesystem place.tail)))
  | .lacking directory =>
      (∃ error, reply.result = .error error) ∧
        (wantsParent → reply.outParent = some (some (ofPlace filesystem directory)))
  | .failed => ∃ error, reply.result = .error error

/-- What is returned and written where the walk that stays at each `..` ends. -/
def Replies (filesystem : ℕ) (wantsParent : Bool) (reply : LookupReply) : WalkEnd → Prop
  | .reached place =>
      reply = ⟨.ok (ofPlace filesystem place), if wantsParent then some none else none⟩
  | .lacking directory =>
      reply = ⟨.error .ENOENT,
        if wantsParent then some (some (ofPlace filesystem directory)) else none⟩
  | .failed => ∃ error, reply = ⟨.error error, none⟩

/-- The loop stays at each `..`. -/
theorem lookupSegments_replies (segments : List (List Byte)) :
    Replies filesystem wantsParent
      (registry.lookupSegments wantsParent (ofPlace filesystem place) segments)
      ((registry.volume filesystem).walk place (staying segments)) := by
  induction segments generalizing place with
  | nil =>
      rw [lookupSegments, ofPlace_parent]
      rfl
  | cons segment rest ih =>
      rw [lookupSegments]
      by_cases hdirectory : IsDirectory place
      · rw [if_neg (not_not.2 (ofPlace_isDirectory.2 hdirectory))]
        by_cases hdot : segment = dot
        · subst hdot
          rw [if_pos rfl, staying_cons (by decide), walk_dot hdirectory]
          exact ih
        rw [if_neg hdot]
        by_cases hdotDot : segment = dotDot
        · subst hdotDot
          rw [if_pos rfl, staying_dotDot, walk_dot hdirectory, ofPlace_parent]
          exact ih
        rw [if_neg hdotDot, staying_cons hdotDot, lookup_ofPlace]
        cases hchild : (registry.volume filesystem).child place segment with
        | some e =>
            rw [walk_child hdirectory hdot hdotDot hchild]
            exact ih
        | none =>
            rw [walk_noChild hdirectory hdot hdotDot hchild]
            by_cases hlast : rest = []
            · subst hlast
              rw [if_pos staying_nil]
              simp [Replies]
            · rw [if_neg (mt staying_eq_nil_iff.1 hlast)]
              exact ⟨.ENOENT, by simp [hlast]⟩
      · rw [if_pos (mt ofPlace_isDirectory.1 hdirectory), staying, List.map_cons,
          walk_file hdirectory]
        exact ⟨.ENOTDIR, rfl⟩

/-- Where a lookup starts: a directory or file of one of the filesystems. -/
structure Node (registry : FilesystemRegistry) where
  filesystem : ℕ
  place : Place
  hasPlace : (registry.volume filesystem).HasPlace place

/-- The object of a node. -/
def Node.entry (node : Node registry) : FATEntry := ofPlace node.filesystem node.place

/-- The root of a filesystem. -/
def rootNode (registry : FilesystemRegistry) (filesystem : ℕ) : Node registry :=
  ⟨filesystem, [], .root⟩

/-- Where the walk of a path starts: at the root of the disk it names, or in the
working directory. -/
def startNode (registry : FilesystemRegistry) (cwd : Option (Node registry)) (s : Path) :
    Option (Node registry) :=
  if s.isAbsolute then
    match s.diskSpecifier with
    | some disk => (registry.find disk).map registry.rootNode
    | none => some (registry.rootNode registry.rootFilesystem)
  else cwd

/-- The lookup does what the walk through the tree does. -/
def Agrees (registry : FilesystemRegistry) (cwd : Option (Node registry)) (s : Path)
    (wantsParent : Bool) : Prop :=
  let reply := registry.fullPathLookup (cwd.map Node.entry) s wantsParent
  match registry.startNode cwd s with
  | some node =>
      Reports node.filesystem wantsParent reply
        ((registry.volume node.filesystem).walk node.place s.segments)
  | none => ∃ error, reply.result = .error error

/-- The parents of the entries make no difference: either the walk takes no `..`
below the root, and no parent is asked for unless it ends at the root or fails; or
it leads nowhere, as it does without those `..`, and no parent is to be reported. -/
def NeedsNoParent (registry : FilesystemRegistry) (cwd : Option (Node registry)) (s : Path)
    (wantsParent : Bool) : Prop :=
  ∀ node ∈ registry.startNode cwd s,
    let tree := registry.volume node.filesystem
    let ends := tree.walk node.place s.segments
    (¬ tree.Climbs node.place s.segments ∧
        (wantsParent → ∀ place, ends = .reached place → place = [])) ∨
      (tree.Climbs node.place s.segments ∧ (∀ place, ends ≠ .reached place) ∧
        (∀ place, tree.walk node.place (staying s.segments) ≠ .reached place) ∧
        (wantsParent → ends = .failed))

/-! ## When the parents make no difference -/

variable {reply : LookupReply} {segments : List (List Byte)}

/-- What is replied at the end of a walk is what is to be reported there, but for the
containing directory of what was found. -/
theorem Replies.reports_iff {ends : WalkEnd} (h : Replies filesystem wantsParent reply ends) :
    Reports filesystem wantsParent reply ends ↔
      (wantsParent → ∀ place, ends = .reached place → place = []) := by
  cases ends with
  | reached place =>
      rw [Replies] at h
      subst h
      by_cases hroot : place = []
      · subst hroot
        simp +contextual [Reports]
      · simp +contextual [Reports, hroot]
  | lacking directory =>
      rw [Replies] at h
      subst h
      simp +contextual [Reports]
  | failed =>
      obtain ⟨error, rfl⟩ := h
      simp [Reports]

/-- Where the walk climbs, the loop ends deeper in the tree: they agree only where
neither finds anything. -/
theorem reports_of_climbs_iff (hplace : (registry.volume filesystem).HasPlace place)
    (hclimbs : (registry.volume filesystem).Climbs place segments)
    (hreply : Replies filesystem wantsParent reply
      ((registry.volume filesystem).walk place (staying segments))) :
    Reports filesystem wantsParent reply ((registry.volume filesystem).walk place segments) ↔
      (∀ reached, (registry.volume filesystem).walk place segments ≠ .reached reached) ∧
        (∀ reached,
          (registry.volume filesystem).walk place (staying segments) ≠ .reached reached) ∧
        (wantsParent → (registry.volume filesystem).walk place segments = .failed) := by
  have hdeeper : ∀ {n m : ℕ},
      ((registry.volume filesystem).walk place segments).depth = some n →
      ((registry.volume filesystem).walk place (staying segments)).depth = some m → n < m := by
    intro n m hn hm
    rw [depth_walk_staying hm]
    exact (depth_walk hn).2 hclimbs
  cases hends : (registry.volume filesystem).walk place segments with
  | reached q =>
      refine iff_of_false (fun hreports => ?_) fun h => h.1 q rfl
      obtain ⟨hresult, -⟩ := hreports
      cases hstays : (registry.volume filesystem).walk place (staying segments) with
      | reached q' =>
          rw [hstays] at hreply
          rw [hreply] at hresult
          have hsame : q' = q := ofPlace_injective (hplace.walk (.inl hstays))
            (hplace.walk (.inl hends)) (Except.ok.inj hresult)
          rw [hends, hstays, hsame] at hdeeper
          exact lt_irrefl _ (hdeeper rfl rfl)
      | lacking directory =>
          rw [hstays] at hreply
          rw [hreply] at hresult
          cases hresult
      | failed =>
          rw [hstays] at hreply
          obtain ⟨error, rfl⟩ := hreply
          cases hresult
  | lacking d =>
      cases hstays : (registry.volume filesystem).walk place (staying segments) with
      | reached q' =>
          rw [hstays] at hreply
          refine iff_of_false (fun hreports => ?_) fun h => h.2.1 q' rfl
          obtain ⟨⟨error, hresult⟩, -⟩ := hreports
          rw [hreply] at hresult
          cases hresult
      | lacking d' =>
          rw [hstays, Replies] at hreply
          subst hreply
          have hne : d' ≠ d := by
            rintro rfl
            rw [hends, hstays] at hdeeper
            exact lt_irrefl _ (hdeeper rfl rfl)
          have hobjects : ofPlace filesystem d' ≠ ofPlace filesystem d := fun h =>
            hne (ofPlace_injective (hplace.walk (.inr hstays)) (hplace.walk (.inr hends)) h)
          cases wantsParent <;> simp [Reports, hobjects]
      | failed =>
          rw [hstays] at hreply
          obtain ⟨error, rfl⟩ := hreply
          cases wantsParent <;> simp [Reports]
  | failed =>
      cases hstays : (registry.volume filesystem).walk place (staying segments) with
      | reached q' =>
          rw [hstays, Replies] at hreply
          subst hreply
          simp [Reports]
      | lacking d' =>
          rw [hstays, Replies] at hreply
          subst hreply
          simp [Reports]
      | failed =>
          rw [hstays] at hreply
          obtain ⟨error, rfl⟩ := hreply
          simp [Reports]

theorem reports_iff (hplace : (registry.volume filesystem).HasPlace place) :
    Reports filesystem wantsParent
        (registry.lookupSegments wantsParent (ofPlace filesystem place) segments)
        ((registry.volume filesystem).walk place segments) ↔
      (¬ (registry.volume filesystem).Climbs place segments ∧
          (wantsParent → ∀ reached,
            (registry.volume filesystem).walk place segments = .reached reached →
              reached = [])) ∨
        ((registry.volume filesystem).Climbs place segments ∧
          (∀ reached, (registry.volume filesystem).walk place segments ≠ .reached reached) ∧
          (∀ reached,
            (registry.volume filesystem).walk place (staying segments) ≠ .reached reached) ∧
          (wantsParent → (registry.volume filesystem).walk place segments = .failed)) := by
  have hreplies : Replies filesystem wantsParent
      (registry.lookupSegments wantsParent (ofPlace filesystem place) segments)
      ((registry.volume filesystem).walk place (staying segments)) :=
    lookupSegments_replies segments
  by_cases hclimbs : (registry.volume filesystem).Climbs place segments
  · rw [reports_of_climbs_iff hplace hclimbs hreplies]
    simp only [hclimbs, not_true_eq_false, false_and, false_or, true_and]
  · rw [walk_staying hclimbs] at hreplies
    rw [hreplies.reports_iff]
    simp only [hclimbs, not_false_eq_true, true_and, false_and, or_false]

/-- Where there is a place to start at, the loop starts there, and there is none
exactly where the root is not found. -/
theorem fullPathLookup_eq (cwd : Option (Node registry)) (s : Path) (wantsParent : Bool) :
    match registry.startNode cwd s with
    | some node =>
        registry.fullPathLookup (cwd.map Node.entry) s wantsParent =
          registry.lookupSegments wantsParent node.entry s.segments
    | none =>
        ∃ error, registry.fullPathLookup (cwd.map Node.entry) s wantsParent =
          ⟨.error error, none⟩ := by
  unfold startNode fullPathLookup lookupRoot
  by_cases habsolute : s.isAbsolute
  · simp only [if_pos habsolute, if_neg (not_not.2 habsolute)]
    cases s.diskSpecifier with
    | some disk =>
        dsimp only
        cases registry.find disk with
        | some filesystem => rfl
        | none => exact ⟨.ENOENT, rfl⟩
    | none => rfl
  · simp only [if_neg habsolute]
    cases cwd with
    | some node => rfl
    | none => exact ⟨.EINVAL, by simp [habsolute]⟩

/-- A lookup agrees with the walk through the tree exactly where the parents of the
entries make no difference. -/
theorem fullPathLookup_agrees_iff (registry : FilesystemRegistry) (cwd : Option (Node registry))
    (s : Path) (wantsParent : Bool) :
    registry.Agrees cwd s wantsParent ↔ registry.NeedsNoParent cwd s wantsParent := by
  have hlookup := fullPathLookup_eq cwd s wantsParent
  unfold Agrees NeedsNoParent
  cases hstart : registry.startNode cwd s with
  | some node =>
      rw [hstart] at hlookup
      dsimp only at hlookup ⊢
      rw [hlookup, Node.entry, reports_iff node.hasPlace]
      simp
  | none =>
      rw [hstart] at hlookup
      obtain ⟨error, herror⟩ := hlookup
      rw [herror]
      exact iff_of_true ⟨error, rfl⟩ nofun

/-! ### A directory in the root -/

/-- A directory `a`, of cluster 2. -/
def directoryA : LocatedFATEntry where
  entry := ⟨[0x61], 0, 0, 0, 0, 2, 0x10⟩
  location := ⟨0, 0⟩

/-- The volume with `a` and nothing else. -/
def volumeA : FATVolume where
  rootEntries := [directoryA]
  entries := fun _ => []

theorem volumeA_place {e : LocatedFATEntry} (h : volumeA.HasPlace (e :: place)) :
    e :: place = [directoryA] := by
  cases h with
  | child hplace hdirectory hdot hdotDot hchild =>
      cases place with
      | nil =>
          have hmem : e ∈ [directoryA] := mem_contents_of_child hchild
          rw [List.mem_singleton.1 hmem]
      | cons => exact absurd (mem_contents_of_child hchild) List.not_mem_nil

/-- A registry whose disks are all such volumes. -/
def registryA : FilesystemRegistry where
  rootFilesystem := 0
  find := fun _ => none
  volume := fun _ =>
    { volumeA with
      isTree := fun _ _ _ _ h h' _ => (volumeA_place h).trans (volumeA_place h').symm }

/-- `/a/..` leads to `a`, and `/a` to no parent. -/
theorem fullPathLookup_agrees_fails :
    (∃ s, Path.parsePath [0x2F, 0x61, 0x2F, 0x2E, 0x2E] = .ok s ∧
      ¬ registryA.Agrees none s false) ∧
    (∃ s, Path.parsePath [0x2F, 0x61] = .ok s ∧ ¬ registryA.Agrees none s true) := by
  refine ⟨⟨_, rfl, ?_⟩, ⟨_, rfl, ?_⟩⟩
  · rintro ⟨hresult, -⟩
    have hkind := congrArg FATEntry.kind (Except.ok.inj hresult)
    exact absurd hkind (by decide)
  · rintro ⟨-, hparent⟩
    cases Option.some.inj (hparent rfl)

end FilesystemRegistry

end BekOS
