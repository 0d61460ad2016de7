import BekOS.Filesystem.Path
import BekOS.Lib.Between
import Mathlib.Data.List.TakeWhile

/-!
# How a path is read

`parse_path` with its cursor: each character that it looks at is one of the string or the zero
behind it, and what it comes to is what `Path.parsePath` makes of the characters.
-/

namespace BekOS

/-- `path`, of views into a string. -/
structure PathViews where
  pathString : List Byte
  segments : List (List Byte)
  diskSpecifier : Option (List Byte)
  deriving DecidableEq

namespace Path

/-- The views of a path. -/
def views (path : Path) : PathViews := ⟨path.pathString, path.segments, path.diskSpecifier⟩

section Cursor

variable (s : List Byte)

/-- `*cursor` -/
def readChar (cursor : ℕ) : Except Fault Byte :=
  match s.drop cursor with
  | c :: _ => .ok c
  | [] => if cursor = s.length then .ok 0 else .error .outOfBounds

/-- The loop over the disk, with so many characters in front of the end. -/
def scanDisk : ℕ → ℕ → Except Fault ℕ
  | 0, cursor => if cursor = s.length then .ok cursor else .error .outOfBounds
  | left + 1, cursor =>
      if cursor = s.length then .ok cursor
      else do
        let c ← readChar s cursor
        if c ≠ closeBracket then scanDisk left (cursor + 1) else return cursor

/-- The loop over the segments, with what comes behind it. -/
def scanSegments : ℕ → ℕ → ℕ → List (List Byte) → Except Fault (List (List Byte))
  | left, cursor, segmentStart, segments =>
      if cursor = s.length then
        .ok (if cursor > segmentStart then segments ++ [between s segmentStart cursor]
          else segments)
      else
        match left with
        | 0 => .error .outOfBounds
        | left + 1 => do
            let c ← readChar s cursor
            if c = slash then
              let segments := if cursor > segmentStart then
                segments ++ [between s segmentStart cursor] else segments
              scanSegments left (cursor + 1) (cursor + 1) segments
            else scanSegments left (cursor + 1) segmentStart segments

/-- The end of `parse_path`. -/
def scanRest (cursor : ℕ) (diskSpecifier : Option (List Byte)) :
    Except Fault (Except ErrorCode PathViews) := do
  let segments ← scanSegments s (s.length - cursor) cursor cursor []
  return .ok ⟨s, segments, diskSpecifier⟩

/-- `parse_path`, cursor by cursor. -/
def scanPath : Except Fault (Except ErrorCode PathViews) :=
  if s.length = 0 then scanRest s 0 none
  else do
    let first ← readChar s 0
    if first ≠ slash then scanRest s 0 none
    else if 1 = s.length then scanRest s 1 none
    else do
      let second ← readChar s 1
      if second ≠ openBracket then scanRest s 1 none
      else do
        let cursor ← scanDisk s (s.length - 2) 2
        let disk := between s 2 cursor
        let c ← readChar s cursor
        if c ≠ closeBracket then return .error .EINVAL
        else do
          let c ← readChar s (cursor + 1)
          if c ≠ slash then return .error .EINVAL
          else scanRest s (cursor + 2) (some disk)

/-- `is_absolute`, of the first character of the string. -/
def absoluteFlag : Except Fault Bool := do
  let c ← readChar s 0
  return c == slash

end Cursor

section Scan

variable {s rest : List Byte} {c : Byte} {cursor segmentStart left : ℕ}

theorem readChar_cons (h : s.drop cursor = c :: rest) : readChar s cursor = .ok c := by
  rw [readChar, h]

theorem readChar_length : readChar s s.length = .ok 0 := by
  rw [readChar, List.drop_length]
  exact if_pos rfl

theorem scanDisk_eq (h : s.drop cursor = rest) (hle : cursor ≤ s.length)
    (hleft : rest.length ≤ left) :
    scanDisk s left cursor = .ok (cursor + (rest.takeWhile (· ≠ closeBracket)).length) := by
  induction rest generalizing cursor left with
  | nil =>
      have hend : cursor = s.length := (length_of_drop h hle).symm
      cases left with
      | zero => exact if_pos hend
      | succ left => exact if_pos hend
  | cons c rest ih =>
      have hlength := length_of_drop h hle
      rw [List.length_cons] at hlength hleft
      cases left with
      | zero => exact absurd hleft (Nat.not_succ_le_zero _)
      | succ left =>
          rw [scanDisk, if_neg (by omega), readChar_cons h, ok_bind]
          by_cases hc : c = closeBracket
          · rw [if_neg (not_not.mpr hc), List.takeWhile_cons_of_neg (by simpa using hc)]
            rfl
          · rw [if_pos hc, ih (drop_succ_of_cons h) (by omega) (by omega),
              List.takeWhile_cons_of_pos (by simpa using hc), List.length_cons]
            exact congrArg _ (by omega)

theorem scanSegments_eq {segments : List (List Byte)} (h : s.drop cursor = rest)
    (hle : cursor ≤ s.length) (hstart : segmentStart ≤ cursor) (hleft : rest.length ≤ left) :
    scanSegments s left cursor segmentStart segments =
      .ok (segments ++ splitSegments (between s segmentStart cursor) rest) := by
  have hempty := between_eq_nil_iff hstart hle
  induction rest generalizing cursor segmentStart segments left with
  | nil =>
      have hend : cursor = s.length := (length_of_drop h hle).symm
      unfold scanSegments
      rw [if_pos hend, splitSegments]
      by_cases hsegment : cursor > segmentStart
      · rw [if_pos hsegment, if_neg fun hnil => hempty.mp hnil hsegment]
      · rw [if_neg hsegment, if_pos (hempty.mpr hsegment), List.append_nil]
  | cons c rest ih =>
      have hlength := length_of_drop h hle
      rw [List.length_cons] at hlength hleft
      cases left with
      | zero => exact absurd hleft (Nat.not_succ_le_zero _)
      | succ left =>
          have hnext := drop_succ_of_cons h
          unfold scanSegments
          rw [if_neg (by omega)]
          dsimp only
          rw [readChar_cons h, ok_bind, splitSegments]
          by_cases hc : c = slash
          · rw [if_pos hc, if_pos hc, ih hnext (by omega) (Nat.le_refl _) (by omega)
              (between_eq_nil_iff (Nat.le_refl _) (by omega)), between_self]
            by_cases hsegment : cursor > segmentStart
            · rw [if_pos hsegment, if_neg fun hnil => hempty.mp hnil hsegment, List.append_assoc]
              rfl
            · rw [if_neg hsegment, if_pos (hempty.mpr hsegment)]
          · rw [if_neg hc, if_neg hc, ih hnext (by omega) (by omega) (by omega)
              (between_eq_nil_iff (by omega) (by omega)), between_succ h hstart]

theorem scanRest_eq {diskSpecifier : Option (List Byte)} (h : s.drop cursor = rest)
    (hle : cursor ≤ s.length) :
    scanRest s cursor diskSpecifier = .ok (.ok (ofCursor s diskSpecifier rest).views) := by
  have hleft : rest.length ≤ s.length - cursor := by
    have := length_of_drop h hle
    omega
  rw [scanRest, scanSegments_eq h hle (Nat.le_refl _) hleft, ok_bind, between_self]
  rfl

theorem parsePath_closed {text rest : List Byte}
    (h : text.dropWhile (· ≠ closeBracket) = c :: slash :: rest) :
    parsePath (slash :: openBracket :: text) =
      .ok (ofCursor (slash :: openBracket :: text) (some (text.takeWhile (· ≠ closeBracket)))
        rest) := by
  rw [parsePath, if_neg (not_not.mpr rfl), if_neg fun h => h rfl]
  dsimp only [List.tail_cons]
  rw [h]
  rfl

theorem parsePath_unclosed {text : List Byte}
    (h : ∀ c rest, text.dropWhile (· ≠ closeBracket) ≠ c :: slash :: rest) :
    parsePath (slash :: openBracket :: text) = .error .EINVAL := by
  rw [parsePath, if_neg (not_not.mpr rfl), if_neg fun h => h rfl]
  dsimp only [List.tail_cons]
  split
  · rename_i c c' rest hbehind
    refine if_neg fun hc => h c rest ?_
    rw [← hc]
    exact hbehind
  · rfl

/-- What is read of a string that begins with a bracket behind its slash. -/
theorem scanPath_disk (text : List Byte) :
    scanPath (slash :: openBracket :: text) =
      .ok ((parsePath (slash :: openBracket :: text)).map views) := by
  obtain ⟨s, hs⟩ : ∃ s, s = slash :: openBracket :: text := ⟨_, rfl⟩
  have hfirst : s.drop 0 = slash :: openBracket :: text := hs
  have hsecond : s.drop 1 = openBracket :: text := by rw [hs]; rfl
  have htext : s.drop 2 = text := by rw [hs]; rfl
  have hlength : s.length = text.length + 2 := by rw [hs]; rfl
  have hclosed := fun c => @parsePath_closed c text
  have hunclosed := @parsePath_unclosed text
  obtain ⟨disk, hdisk⟩ : ∃ disk, text.takeWhile (· ≠ closeBracket) = disk := ⟨_, rfl⟩
  obtain ⟨behind, hbehind⟩ : ∃ behind, text.dropWhile (· ≠ closeBracket) = behind := ⟨_, rfl⟩
  have hsplit : text = disk ++ behind := by
    rw [← hdisk, ← hbehind, List.takeWhile_append_dropWhile]
  have hview : between s 2 (2 + disk.length) = disk := between_of_append (htext.trans hsplit)
  have hdrop : s.drop (2 + disk.length) = behind := by
    rw [← List.drop_drop, htext, hsplit, List.drop_left]
  have hle : 2 + disk.length ≤ s.length := by
    rw [hlength, hsplit, List.length_append]
    omega
  have hscan : scanDisk s (s.length - 2) 2 = .ok (2 + disk.length) := by
    rw [scanDisk_eq htext (by omega) (by omega), hdisk]
  rw [hdisk] at hclosed
  rw [hbehind] at hclosed hunclosed
  rw [← hs] at hclosed hunclosed ⊢
  rw [scanPath, if_neg (by omega), readChar_cons hfirst, ok_bind, if_neg (not_not.mpr rfl),
    if_neg (by omega), readChar_cons hsecond, ok_bind, if_neg (not_not.mpr rfl), hscan, ok_bind]
  dsimp only
  rw [hview]
  cases behind with
  | nil =>
      have hend : 2 + disk.length = s.length := (length_of_drop hdrop hle).symm
      rw [hend, readChar_length, ok_bind, if_pos (by decide), hunclosed fun _ _ h => by cases h]
      rfl
  | cons c tail =>
      have hclose : c = closeBracket := by
        have hhead := List.head?_dropWhile_not (fun b : Byte => b ≠ closeBracket) text
        rw [hbehind] at hhead
        simpa using hhead
      rw [readChar_cons hdrop, ok_bind, if_neg (not_not.mpr hclose)]
      have hnext := drop_succ_of_cons hdrop
      cases tail with
      | nil =>
          have hend : 2 + disk.length + 1 = s.length := by
            rw [length_of_drop hdrop hle]
            rfl
          rw [hend, readChar_length, ok_bind, if_pos (by decide), hunclosed fun _ _ h => by cases h]
          rfl
      | cons c' rest =>
          rw [readChar_cons hnext, ok_bind]
          by_cases hc : c' = slash
          · have hlast := length_of_drop hdrop hle
            rw [List.length_cons, List.length_cons] at hlast
            rw [if_neg (not_not.mpr hc), scanRest_eq (drop_succ_of_cons hnext) (by omega),
              hclosed c (by rw [hc])]
            rfl
          · rw [if_pos hc, hunclosed fun _ _ h => hc (List.cons.inj (List.cons.inj h).2).1]
            rfl

/-- **`parse_path`** reads only the string and the zero behind it, and comes to the views of what
`parsePath` makes of the characters. -/
theorem scanPath_eq (s : List Byte) : scanPath s = .ok ((parsePath s).map views) := by
  cases s with
  | nil => exact scanRest_eq rfl (Nat.le_refl _)
  | cons first cursor =>
      have hread : readChar (first :: cursor) 0 = .ok first := rfl
      have hlength : (first :: cursor).length ≠ 0 := Nat.succ_ne_zero _
      by_cases hfirst : first = slash
      · subst hfirst
        cases cursor with
        | nil => rfl
        | cons second text =>
            by_cases hsecond : second = openBracket
            · subst hsecond
              exact scanPath_disk text
            · have hread' : readChar (slash :: second :: text) 1 = .ok second := rfl
              have hparse : parsePath (slash :: second :: text) =
                  .ok (ofCursor (slash :: second :: text) none (second :: text)) := by
                rw [parsePath, if_neg (not_not.mpr rfl)]
                exact if_pos fun h => hsecond (Option.some.inj h)
              rw [scanPath, if_neg hlength, hread, ok_bind, if_neg (not_not.mpr rfl),
                if_neg (by simp), hread', ok_bind, if_pos hsecond, hparse]
              exact scanRest_eq rfl (by simp)
      · have hparse : parsePath (first :: cursor) =
            .ok (ofCursor (first :: cursor) none (first :: cursor)) := if_pos hfirst
        rw [scanPath, if_neg hlength, hread, ok_bind, if_pos hfirst, hparse]
        exact scanRest_eq rfl (Nat.zero_le _)

end Scan

/-! ## What a path is -/

/-- The text is these segments in order, each as long as it can be, with slashes around them. -/
inductive Runs : List Byte → List (List Byte) → Prop
  | nil {slashes} (hslashes : ∀ c ∈ slashes, c = slash) : Runs slashes []
  | cons {slashes segment rest segments} (hslashes : ∀ c ∈ slashes, c = slash)
      (hsegment : IsSegment segment) (hrest : ∀ c ∈ rest.head?, c = slash)
      (hruns : Runs rest segments) : Runs (slashes ++ (segment ++ rest)) (segment :: segments)

/-- What of a string names its disk, and what comes behind it. -/
inductive Behind : List Byte → Option (List Byte) → List Byte → Prop
  | relative {s} (h : s.head? ≠ some slash) : Behind s none s
  | absolute {rest} (h : rest.head? ≠ some openBracket) : Behind (slash :: rest) none rest
  | disk {disk rest} (h : closeBracket ∉ disk) :
      Behind (slash :: openBracket :: (disk ++ closeBracket :: slash :: rest)) (some disk) rest

/-- The string begins as a disk does, but the disk is not closed with a slash behind it. -/
def BadDisk (s : List Byte) : Prop :=
  ∃ text, s = slash :: openBracket :: text ∧
    ∀ disk rest, closeBracket ∉ disk → text ≠ disk ++ closeBracket :: slash :: rest

section Runs

variable {s text behind : List Byte} {segments : List (List Byte)}

theorem Runs.slash_cons (h : Runs text segments) : Runs (slash :: text) segments := by
  cases h with
  | nil hslashes => exact .nil (List.forall_mem_cons.mpr ⟨rfl, hslashes⟩)
  | @cons slashes _ _ _ hslashes hsegment hrest hruns =>
      exact @Runs.cons (slash :: slashes) _ _ _ (List.forall_mem_cons.mpr ⟨rfl, hslashes⟩) hsegment
        hrest hruns

theorem Runs.segment (hbehind : IsSegment behind) (hrest : ∀ c ∈ text.head?, c = slash)
    (h : Runs text segments) : Runs (behind ++ text) (behind :: segments) :=
  @Runs.cons [] _ _ _ (List.forall_mem_nil _) hbehind hrest h

theorem runs_splitSegments (hbehind : slash ∉ behind) :
    Runs (behind ++ text) (splitSegments behind text) := by
  induction text generalizing behind with
  | nil =>
      rw [splitSegments]
      split_ifs with hempty
      · subst hempty
        exact .nil (List.forall_mem_nil _)
      · exact Runs.segment ⟨hempty, hbehind⟩ (fun c hc => by cases hc)
          (.nil (List.forall_mem_nil _))
  | cons c text ih =>
      rw [splitSegments]
      have hrest : Runs text (splitSegments [] text) := ih List.not_mem_nil
      split_ifs with hc hempty
      · subst hc hempty
        exact hrest.slash_cons
      · subst hc
        refine Runs.segment ⟨hempty, hbehind⟩ (fun c hc => ?_) hrest.slash_cons
        exact (Option.some.inj hc).symm
      · have hnext := @ih (behind ++ [c]) (by
          rw [List.mem_append, List.mem_singleton, not_or]
          exact ⟨hbehind, fun h => hc h.symm⟩)
        rwa [List.append_assoc, List.singleton_append] at hnext

theorem closeBracket_not_mem_takeWhile : closeBracket ∉ text.takeWhile (· ≠ closeBracket) :=
  fun h => by simpa using List.mem_takeWhile_imp h

theorem forall_ne_of_not_mem {disk : List Byte} (h : closeBracket ∉ disk) :
    ∀ c ∈ disk, decide (c ≠ closeBracket) = true :=
  fun _ hc => decide_eq_true fun heq => h (heq ▸ hc)

theorem dropWhile_closed {disk rest : List Byte} (h : closeBracket ∉ disk) :
    (disk ++ closeBracket :: rest).dropWhile (· ≠ closeBracket) = closeBracket :: rest := by
  rw [List.dropWhile_append_of_pos (forall_ne_of_not_mem h), List.dropWhile_cons_of_neg (by simp)]

theorem parsePath_badDisk (h : BadDisk s) : parsePath s = .error .EINVAL := by
  obtain ⟨text, rfl, hunclosed⟩ := h
  refine parsePath_unclosed fun c rest hbehind => ?_
  have hclose : c = closeBracket := by
    have hhead := List.head?_dropWhile_not (fun b : Byte => b ≠ closeBracket) text
    rw [hbehind] at hhead
    simpa using hhead
  refine hunclosed (text.takeWhile (· ≠ closeBracket)) rest closeBracket_not_mem_takeWhile ?_
  rw [hclose] at hbehind
  rw [← hbehind, List.takeWhile_append_dropWhile]

theorem parsePath_behind (h : ¬ BadDisk s) : ∃ disk rest, Behind s disk rest ∧
    parsePath s = .ok (ofCursor s disk rest) := by
  cases s with
  | nil => exact ⟨none, [], .relative (by simp), rfl⟩
  | cons first cursor =>
      by_cases hfirst : first = slash
      · subst hfirst
        by_cases hsecond : cursor.head? = some openBracket
        · obtain ⟨text, rfl⟩ : ∃ text, cursor = openBracket :: text :=
            ⟨cursor.tail, (List.cons_head?_tail hsecond).symm⟩
          have hclosed : ∃ disk rest, closeBracket ∉ disk ∧
              text = disk ++ closeBracket :: slash :: rest := by
            by_contra hnone
            exact h ⟨text, rfl, fun disk rest hdisk htext => hnone ⟨disk, rest, hdisk, htext⟩⟩
          obtain ⟨disk, rest, hdisk, rfl⟩ := hclosed
          have hparse := parsePath_closed (@dropWhile_closed disk (slash :: rest) hdisk)
          have htake : (disk ++ closeBracket :: slash :: rest).takeWhile (· ≠ closeBracket) =
              disk := by
            rw [List.takeWhile_append_of_pos (forall_ne_of_not_mem hdisk),
              List.takeWhile_cons_of_neg (by simp), List.append_nil]
          rw [htake] at hparse
          exact ⟨some disk, rest, .disk hdisk, hparse⟩
        · refine ⟨none, cursor, .absolute hsecond, ?_⟩
          rw [parsePath, if_neg (not_not.mpr rfl)]
          exact if_pos hsecond
      · exact ⟨none, first :: cursor, .relative fun hhead => hfirst (Option.some.inj hhead),
          if_pos hfirst⟩

theorem absoluteFlag_eq (s : List Byte) :
    absoluteFlag s = .ok (decide (s.head? = some slash)) := by
  cases s with
  | nil => rfl
  | cons c s =>
      refine congrArg Except.ok (Bool.eq_iff_iff.mpr ?_)
      rw [beq_iff_eq, decide_eq_true_iff, List.head?_cons, Option.some_inj]

/-- **`parse_path`** returns an error for a bad disk, and otherwise the disk and the segments of the
rest; it reads nothing but the string and the zero behind it. -/
theorem scanPath_spec (s : List Byte) :
    (BadDisk s → scanPath s = .ok (.error .EINVAL)) ∧
      (¬ BadDisk s → ∃ path rest, scanPath s = .ok (.ok path) ∧ path.pathString = s ∧
        absoluteFlag path.pathString = .ok (decide (s.head? = some slash)) ∧
        Behind s path.diskSpecifier rest ∧ Runs rest path.segments) := by
  constructor
  · intro h
    rw [scanPath_eq, parsePath_badDisk h]
    rfl
  · intro h
    obtain ⟨disk, rest, hbehind, hparse⟩ := parsePath_behind h
    refine ⟨(ofCursor s disk rest).views, rest, ?_, rfl, absoluteFlag_eq s, hbehind, ?_⟩
    · rw [scanPath_eq, hparse]
      rfl
    · exact @runs_splitSegments rest [] List.not_mem_nil

end Runs

end Path

end BekOS
