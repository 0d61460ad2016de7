import BekOS.Lib.LittleEndian
import BekOS.Library.KernelError

/-!
# Paths

`fs::path` of `filesystem/path.h`: a path string, split at its slashes, with the
disk it names in front.
-/

namespace BekOS

/-- `/` -/
def slash : Byte := 0x2F

/-- `(` -/
def openBracket : Byte := 0x28

/-- `)` -/
def closeBracket : Byte := 0x29

/-- A segment is not empty and has no slash. -/
def IsSegment (segment : List Byte) : Prop := segment ≠ [] ∧ slash ∉ segment

/-- `path` -/
structure Path where
  pathString : List Byte
  segments : List (List Byte)
  diskSpecifier : Option (List Byte)
  segments_isSegment : ∀ segment ∈ segments, IsSegment segment

namespace Path

/-- The loop of `parse_path`, with what of a segment is behind the cursor. -/
def splitSegments : List Byte → List Byte → List (List Byte)
  | behind, [] => if behind = [] then [] else [behind]
  | behind, c :: cursor =>
      if c = slash then
        if behind = [] then splitSegments [] cursor else behind :: splitSegments [] cursor
      else splitSegments (behind ++ [c]) cursor

theorem isSegment_of_mem_splitSegments {behind cursor : List Byte} (hbehind : slash ∉ behind) :
    ∀ segment ∈ splitSegments behind cursor, IsSegment segment := by
  induction cursor generalizing behind with
  | nil =>
      intro segment hsegment
      rw [splitSegments] at hsegment
      split_ifs at hsegment with hempty
      · exact absurd hsegment List.not_mem_nil
      · rw [List.mem_singleton.1 hsegment]
        exact ⟨hempty, hbehind⟩
  | cons c cursor ih =>
      intro segment hsegment
      rw [splitSegments] at hsegment
      split_ifs at hsegment with hslash hempty
      · exact ih List.not_mem_nil segment hsegment
      · rcases List.mem_cons.1 hsegment with rfl | hrest
        · exact ⟨hempty, hbehind⟩
        · exact ih List.not_mem_nil segment hrest
      · refine ih ?_ segment hsegment
        rw [List.mem_append, List.mem_singleton, not_or]
        exact ⟨hbehind, fun h => hslash h.symm⟩

/-- The path of a string, once the cursor is behind the disk. -/
def ofCursor (pathString : List Byte) (diskSpecifier : Option (List Byte)) (cursor : List Byte) :
    Path where
  pathString := pathString
  segments := splitSegments [] cursor
  diskSpecifier := diskSpecifier
  segments_isSegment := isSegment_of_mem_splitSegments List.not_mem_nil

/-- `parse_path`.  Behind the last character is the zero that ends the string. -/
def parsePath (pathString : List Byte) : Except ErrorCode Path :=
  match pathString with
  | [] => .ok (ofCursor pathString none [])
  | first :: cursor =>
      if first ≠ slash then .ok (ofCursor pathString none pathString)
      else if cursor.head? ≠ some openBracket then .ok (ofCursor pathString none cursor)
      else
        let disk := cursor.tail.takeWhile (· ≠ closeBracket)
        match cursor.tail.dropWhile (· ≠ closeBracket) with
        | _ :: c :: rest =>
            if c = slash then .ok (ofCursor pathString (some disk) rest) else .error .EINVAL
        | _ => .error .EINVAL

/-- `is_absolute` -/
def isAbsolute (path : Path) : Prop := path.pathString.head? = some slash
deriving Decidable

end Path

end BekOS
