import BekOS.Filesystem.FatEntries
import BekOS.Filesystem.Path

/-!
# Walks through a volume

The tree that the directories of a volume make, and the walk through it that a
path describes.  A directory or file has a place in the tree: the entries on the
way to it.
-/

namespace BekOS

/-- `"."` -/
def dot : List Byte := [0x2E]

/-- `".."` -/
def dotDot : List Byte := [0x2E, 0x2E]

/-! ## The tree -/

/-- The directories of a volume, as `get_root_entries` and `get_entries` read them. -/
structure FATVolume where
  rootEntries : List LocatedFATEntry
  entries : ℕ → List LocatedFATEntry

namespace FATVolume

/-- The entry of a name among those of a directory. -/
def findName (name : List Byte) (entries : List LocatedFATEntry) : Option LocatedFATEntry :=
  entries.find? fun e => e.entry.name = name

/-- A directory or file of a volume, by the entries on the way from the root to it,
its own entry first. -/
abbrev Place := List LocatedFATEntry

/-- The place is that of a directory. -/
def IsDirectory : Place → Prop
  | [] => True
  | e :: _ => e.entry.isDirectory

instance (place : Place) : Decidable (IsDirectory place) :=
  match place with
  | [] => inferInstanceAs (Decidable True)
  | e :: _ => inferInstanceAs (Decidable e.entry.isDirectory)

/-- What a directory contains. -/
def contents (volume : FATVolume) : Place → List LocatedFATEntry
  | [] => volume.rootEntries
  | e :: _ => volume.entries e.entry.dataCluster

/-- The child of a directory that has a name. -/
def child (volume : FATVolume) (place : Place) (name : List Byte) : Option LocatedFATEntry :=
  findName name (volume.contents place)

theorem mem_contents_of_child {volume : FATVolume} {place : Place} {name : List Byte}
    {e : LocatedFATEntry} (h : volume.child place name = some e) : e ∈ volume.contents place := by
  unfold child findName at h
  exact List.mem_of_find?_eq_some h

/-- The places of the volume. -/
inductive HasPlace (volume : FATVolume) : Place → Prop
  | root : HasPlace volume []
  | child {place : Place} {name : List Byte} {e : LocatedFATEntry} (hplace : HasPlace volume place)
      (hdirectory : IsDirectory place) (hdot : name ≠ dot) (hdotDot : name ≠ dotDot)
      (hchild : volume.child place name = some e) : HasPlace volume (e :: place)

/-- The volume is a tree: what one slot of the disk describes has one place. -/
def IsTree (volume : FATVolume) : Prop :=
  ∀ ⦃e e' : LocatedFATEntry⦄ ⦃place place' : Place⦄, volume.HasPlace (e :: place) →
    volume.HasPlace (e' :: place') → e.location = e'.location → e :: place = e' :: place'

end FATVolume

/-- A volume whose directories make a tree. -/
structure DirectoryTree extends FATVolume where
  isTree : toFATVolume.IsTree

/-! ## The walk through the tree -/

/-- How a walk ends. -/
inductive WalkEnd where
  /-- At a file or directory. -/
  | reached (place : FATVolume.Place)
  /-- In a directory that has no entry of the last name. -/
  | lacking (directory : FATVolume.Place)
  /-- On the way. -/
  | failed
  deriving DecidableEq

namespace FATVolume

variable (volume : FATVolume)

/-- The walk: `.` stays, `..` goes to the containing directory, and from the root
to the root, and a name goes to the child that has it.  A file has no segments
behind it. -/
def walk : Place → List (List Byte) → WalkEnd
  | place, [] => .reached place
  | place, segment :: rest =>
      if ¬ IsDirectory place then .failed
      else if segment = dot then walk place rest
      else if segment = dotDot then walk place.tail rest
      else
        match volume.child place segment with
        | some e => walk (e :: place) rest
        | none => if rest = [] then .lacking place else .failed

/-- The walk takes a `..` below the root. -/
def Climbs : Place → List (List Byte) → Prop
  | _, [] => False
  | place, segment :: rest =>
      IsDirectory place ∧
        if segment = dot then Climbs place rest
        else if segment = dotDot then place ≠ [] ∨ Climbs place.tail rest
        else
          match volume.child place segment with
          | some e => Climbs (e :: place) rest
          | none => False

example : volume.walk [] [dotDot] = .reached [] := by simp [walk, IsDirectory, dot, dotDot]

example : ¬ volume.Climbs [] [dotDot] := by simp [Climbs, dot, dotDot]

end FATVolume

/-- The segments, with each `..` taken for `.`. -/
def staying (segments : List (List Byte)) : List (List Byte) :=
  segments.map fun segment => if segment = dotDot then dot else segment

/-- How many segments are names. -/
def nameCount (segments : List (List Byte)) : ℕ :=
  segments.countP fun segment => segment ≠ dot ∧ segment ≠ dotDot

namespace WalkEnd

/-- The depth of the node that the walk ends at, or would have ended at. -/
def depth : WalkEnd → Option ℕ
  | .reached place => some place.length
  | .lacking directory => some (directory.length + 1)
  | .failed => none

end WalkEnd

/-! ## What the walk does -/

section Segments

variable {segment : List Byte} {rest : List (List Byte)}

@[simp] theorem nameCount_dot : nameCount (dot :: rest) = nameCount rest := by
  simp [nameCount]

@[simp] theorem nameCount_dotDot : nameCount (dotDot :: rest) = nameCount rest := by
  simp [nameCount]

theorem nameCount_name (hdot : segment ≠ dot) (hdotDot : segment ≠ dotDot) :
    nameCount (segment :: rest) = nameCount rest + 1 := by
  simp [nameCount, hdot, hdotDot]

@[simp] theorem staying_nil : staying [] = [] := rfl

@[simp] theorem staying_dotDot : staying (dotDot :: rest) = dot :: staying rest := by
  simp [staying]

theorem staying_cons (hdotDot : segment ≠ dotDot) :
    staying (segment :: rest) = segment :: staying rest := by
  simp [staying, hdotDot]

theorem staying_eq_nil_iff {segments : List (List Byte)} : staying segments = [] ↔ segments = [] :=
  List.map_eq_nil_iff

end Segments

namespace FATVolume

variable {volume : FATVolume} {place place' : Place} {segment : List Byte}
  {rest segments : List (List Byte)} {e : LocatedFATEntry} {n : ℕ}

theorem walk_file (h : ¬ IsDirectory place) : volume.walk place (segment :: rest) = .failed := by
  rw [walk, if_pos h]

theorem walk_dot (h : IsDirectory place) :
    volume.walk place (dot :: rest) = volume.walk place rest := by
  rw [walk, if_neg (not_not.2 h), if_pos rfl]

theorem walk_child (h : IsDirectory place) (hdot : segment ≠ dot) (hdotDot : segment ≠ dotDot)
    (hchild : volume.child place segment = some e) :
    volume.walk place (segment :: rest) = volume.walk (e :: place) rest := by
  rw [walk, if_neg (not_not.2 h), if_neg hdot, if_neg hdotDot, hchild]

theorem walk_noChild (h : IsDirectory place) (hdot : segment ≠ dot) (hdotDot : segment ≠ dotDot)
    (hchild : volume.child place segment = none) :
    volume.walk place (segment :: rest) = if rest = [] then .lacking place else .failed := by
  rw [walk, if_neg (not_not.2 h), if_neg hdot, if_neg hdotDot, hchild]

theorem climbs_dot : volume.Climbs place (dot :: rest) ↔
    IsDirectory place ∧ volume.Climbs place rest := by
  rw [Climbs, if_pos rfl]

theorem climbs_dotDot : volume.Climbs place (dotDot :: rest) ↔
    IsDirectory place ∧ (place ≠ [] ∨ volume.Climbs place.tail rest) := by
  rw [Climbs, if_neg (by decide), if_pos rfl]

theorem climbs_child (hdot : segment ≠ dot) (hdotDot : segment ≠ dotDot)
    (hchild : volume.child place segment = some e) :
    volume.Climbs place (segment :: rest) ↔
      IsDirectory place ∧ volume.Climbs (e :: place) rest := by
  rw [Climbs, if_neg hdot, if_neg hdotDot, hchild]

theorem HasPlace.tail (h : volume.HasPlace place) : volume.HasPlace place.tail := by
  cases h with
  | root => exact .root
  | child hplace => exact hplace

theorem HasPlace.walk (h : volume.HasPlace place) :
    volume.walk place segments = .reached place' ∨ volume.walk place segments = .lacking place' →
      volume.HasPlace place' := by
  fun_induction volume.walk place segments with
  | case1 place =>
      rintro (hends | hends) <;> cases hends
      exact h
  | case2 => simp
  | case3 place rest hdirectory ih => exact ih h
  | case4 place rest hdirectory hdot ih => exact ih h.tail
  | case5 place segment rest hdirectory hdot hdotDot e hchild ih =>
      exact ih (.child h (not_not.1 hdirectory) hdot hdotDot hchild)
  | case6 place segment hdirectory hdot hdotDot hchild =>
      rintro (hends | hends) <;> cases hends
      exact h
  | case7 => simp

theorem depth_walk (h : (volume.walk place segments).depth = some n) :
    n ≤ place.length + nameCount segments ∧
      (volume.Climbs place segments → n < place.length + nameCount segments) := by
  fun_induction volume.walk place segments with
  | case1 place =>
      cases h
      exact ⟨le_rfl, False.elim⟩
  | case2 => cases h
  | case3 place rest hdirectory ih =>
      rw [climbs_dot, nameCount_dot]
      exact ⟨(ih h).1, fun hclimbs => (ih h).2 hclimbs.2⟩
  | case4 place rest hdirectory hdot ih =>
      rw [climbs_dotDot, nameCount_dotDot]
      have htail : place.tail.length = place.length - 1 := List.length_tail
      refine ⟨by have := (ih h).1; omega, ?_⟩
      rintro ⟨-, hbelow | hclimbs⟩
      · have hpos : 0 < place.length := List.length_pos_iff.2 hbelow
        have := (ih h).1
        omega
      · have := (ih h).2 hclimbs
        omega
  | case5 place segment rest hdirectory hdot hdotDot e hchild ih =>
      rw [climbs_child hdot hdotDot hchild, nameCount_name hdot hdotDot]
      rw [List.length_cons] at ih
      refine ⟨by have := (ih h).1; omega, fun hclimbs => ?_⟩
      have := (ih h).2 hclimbs.2
      omega
  | case6 place segment hdirectory hdot hdotDot hchild =>
      cases h
      rw [nameCount_name hdot hdotDot]
      refine ⟨le_rfl, fun hclimbs => ?_⟩
      rw [Climbs, if_neg hdot, if_neg hdotDot, hchild] at hclimbs
      exact hclimbs.2.elim
  | case7 => cases h

theorem depth_walk_staying (h : (volume.walk place (staying segments)).depth = some n) :
    n = place.length + nameCount segments := by
  induction segments generalizing place with
  | nil =>
      cases h
      rfl
  | cons segment rest ih =>
      by_cases hdirectory : IsDirectory place
      · by_cases hdotDot : segment = dotDot
        · subst hdotDot
          rw [staying_dotDot, walk_dot hdirectory] at h
          rw [nameCount_dotDot]
          exact ih h
        rw [staying_cons hdotDot] at h
        by_cases hdot : segment = dot
        · subst hdot
          rw [walk_dot hdirectory] at h
          rw [nameCount_dot]
          exact ih h
        rw [nameCount_name hdot hdotDot]
        cases hchild : volume.child place segment with
        | none =>
            rw [walk_noChild hdirectory hdot hdotDot hchild] at h
            split_ifs at h with hlast
            · cases h
              rw [staying_eq_nil_iff.1 hlast]
              rfl
            · cases h
        | some e =>
            rw [walk_child hdirectory hdot hdotDot hchild] at h
            rw [ih h, List.length_cons]
            omega
      · rw [staying, List.map_cons, walk_file hdirectory] at h
        cases h

theorem walk_staying (h : ¬ volume.Climbs place segments) :
    volume.walk place (staying segments) = volume.walk place segments := by
  fun_induction volume.walk place segments with
  | case1 => rfl
  | case2 place segment rest hdirectory =>
      rw [staying, List.map_cons, walk_file hdirectory]
  | case3 place rest hdirectory ih =>
      rw [not_not] at hdirectory
      rw [climbs_dot, not_and] at h
      rw [staying_cons (by decide), walk_dot hdirectory, ih (h hdirectory)]
  | case4 place rest hdirectory hdot ih =>
      rw [not_not] at hdirectory
      rw [climbs_dotDot, not_and, not_or, not_not] at h
      obtain ⟨rfl, hrest⟩ := h hdirectory
      rw [staying_dotDot, walk_dot hdirectory]
      exact ih hrest
  | case5 place segment rest hdirectory hdot hdotDot e hchild ih =>
      rw [not_not] at hdirectory
      rw [climbs_child hdot hdotDot hchild, not_and] at h
      rw [staying_cons hdotDot, walk_child hdirectory hdot hdotDot hchild, ih (h hdirectory)]
  | case6 place segment hdirectory hdot hdotDot hchild =>
      rw [staying_cons hdotDot, walk_noChild (not_not.1 hdirectory) hdot hdotDot hchild]
      rfl
  | case7 place segment rest hdirectory hdot hdotDot hchild hlast =>
      rw [staying_cons hdotDot, walk_noChild (not_not.1 hdirectory) hdot hdotDot hchild,
        if_neg (mt staying_eq_nil_iff.1 hlast)]

end FATVolume

end BekOS
