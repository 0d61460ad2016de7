import BekOS.Libcore.DirectoryStream
import Mathlib.Data.List.GetD

/-!
# What a listing of a directory yields

Each item is read back where it was put, and the walk of the stream through its buffers follows the
loops that filled them.  A program gets exactly the children unless there are none (it gets an entry
with no name), or an item does not go where its name would, or a name is not one that is read back.
-/

namespace BekOS

open FileListItem Function

/-- The entry that a child is to be listed as. -/
def Child.entry (child : Child) : DirectoryEntry := ⟨child.name, child.kind.toByte, child.size⟩

/-! ## Names -/

section Strlen

example : strlen (fun i => if i = 2 then 0 else 0x61) 0 8 = 2 := by simp [strlen]

variable {bytes bytes' : Memory Byte} {off : ℕ}

theorem strlen_le (bytes : Memory Byte) (off maxLen : ℕ) : strlen bytes off maxLen ≤ maxLen := by
  induction maxLen generalizing off with
  | zero => exact Nat.le_refl 0
  | succ maxLen ih =>
      rw [strlen]
      split_ifs
      · exact Nat.zero_le _
      · exact Nat.succ_le_succ (ih (off + 1))

variable {maxLen : ℕ}

theorem strlen_congr (h : ∀ i < maxLen, bytes (off + i) = bytes' (off + i)) :
    strlen bytes off maxLen = strlen bytes' off maxLen := by
  induction maxLen generalizing off with
  | zero => rfl
  | succ maxLen ih =>
      have hfirst : bytes off = bytes' off := h 0 (Nat.succ_pos maxLen)
      have hrest : strlen bytes (off + 1) maxLen = strlen bytes' (off + 1) maxLen := by
        refine ih fun i hi => ?_
        have hnext := h (i + 1) (Nat.succ_lt_succ hi)
        rwa [← Nat.add_assoc, Nat.add_right_comm] at hnext
      rw [strlen, strlen, hfirst, hrest]

theorem strlen_le_of_zero (maxLen : ℕ) {j : ℕ} (h : bytes (off + j) = 0) :
    strlen bytes off maxLen ≤ j := by
  induction maxLen generalizing off j with
  | zero => exact Nat.zero_le j
  | succ maxLen ih =>
      rw [strlen]
      split_ifs with hzero
      · exact Nat.zero_le j
      · cases j with
        | zero => exact absurd h hzero
        | succ j =>
            refine Nat.succ_le_succ (ih ?_)
            rwa [Nat.add_assoc, Nat.add_comm 1 j]

theorem le_strlen {n : ℕ} (hn : n ≤ maxLen) (h : ∀ i < n, bytes (off + i) ≠ 0) :
    n ≤ strlen bytes off maxLen := by
  induction maxLen generalizing off n with
  | zero => exact hn
  | succ maxLen ih =>
      cases n with
      | zero => exact Nat.zero_le _
      | succ n =>
          have hfirst : bytes off ≠ 0 := h 0 (Nat.succ_pos n)
          rw [strlen, if_neg hfirst]
          refine Nat.succ_le_succ (ih (Nat.le_of_succ_le_succ hn) fun i hi => ?_)
          have hnext := h (i + 1) (Nat.succ_lt_succ hi)
          rwa [← Nat.add_assoc, Nat.add_right_comm] at hnext

/-- A name with a zero behind it is read back when it has none in it and is not longer than the
maximum. -/
theorem slice_strlen_iff {name : List Byte}
    (hname : ∀ i < name.length, bytes (off + i) = name.getD i 0)
    (hend : bytes (off + name.length) = 0) :
    slice bytes off (strlen bytes off maxLen) = name ↔ 0 ∉ name ∧ name.length ≤ maxLen := by
  constructor
  · intro heq
    have hlen : strlen bytes off maxLen = name.length := by
      rw [← length_slice bytes off (strlen bytes off maxLen), heq]
    refine ⟨fun hzero => ?_, hlen ▸ strlen_le bytes off maxLen⟩
    obtain ⟨j, hj, hget⟩ := List.getElem_of_mem hzero
    have hbyte : bytes (off + j) = 0 := by
      rw [hname j hj, List.getD_eq_getElem _ _ hj, hget]
    have := strlen_le_of_zero maxLen hbyte
    omega
  · rintro ⟨hzero, hle⟩
    have hlen : strlen bytes off maxLen = name.length := by
      refine Nat.le_antisymm (strlen_le_of_zero maxLen hend) (le_strlen hle fun i hi hbyte => ?_)
      rw [hname i hi, List.getD_eq_getElem _ _ hi] at hbyte
      exact hzero (hbyte ▸ List.getElem_mem hi)
    rw [hlen]
    refine List.ext_getElem (length_slice _ _ _) fun i hi hi' => ?_
    rw [getElem_slice, hname i hi', List.getD_eq_getElem _ _ hi']

end Strlen

/-! ## Items -/

section Items

variable {bytes bytes' : Memory Byte} {bufferSize current : ℕ} {child : Child} 

/-- An item with its name. -/
def putItem (bytes : Memory Byte) (current next : ℕ) (child : Child) : Memory Byte :=
  putName (put bytes current next child.size child.kind) current child.name

theorem wholeSize_eq (nameLen : ℕ) : wholeSize nameLen = nameLen + 18 := by
  show 24 - 7 + nameLen + 1 = _
  omega

theorem wholeSize_le_alignedSize (nameLen : ℕ) :
    wholeSize nameLen ≤ alignedSize nameLen ∧ 24 ≤ alignedSize nameLen := by
  unfold alignedSize
  rw [wholeSize_eq]
  omega

variable {next : ℕ}

theorem putItem_of_not_mem (bytes : Memory Byte) {i : ℕ}
    (h : i < current ∨ current + alignedSize child.name.length ≤ i) :
    putItem bytes current next child i = bytes i := by
  have hsize := wholeSize_le_alignedSize child.name.length
  rw [wholeSize_eq] at hsize
  unfold putItem putName put offsetOfName
  dsimp only
  rw [copyRange_of_not_mem (by omega), copyRange_of_not_mem (by omega),
    update_of_ne (by omega), leWrite_of_not_mem (by omega), leWrite_of_not_mem (by omega)]

/-- The memory is cleared from an offset on. -/
def Cleared (bufferSize current : ℕ) (bytes : Memory Byte) : Prop :=
  ∀ i, current ≤ i → i < bufferSize → bytes i = 0

theorem nextOffset_putItem (bytes : Memory Byte) (hnext : next < 2 ^ 64) :
    nextOffset (putItem bytes current next child) current = next := by
  have hread : leRead (putItem bytes current next child) current 8 =
      leRead (leWrite bytes current next 8) current 8 := by
    refine leRead_congr fun i hi => ?_
    unfold putItem putName put offsetOfName
    dsimp only
    rw [copyRange_of_not_mem (by omega), copyRange_of_not_mem (by omega),
      update_of_ne (by omega), leWrite_of_not_mem (by omega)]
  rw [nextOffset, hread, leRead_leWrite]
  exact Nat.mod_eq_of_lt hnext

/-- **An item is read back**, if its name is. -/
theorem readEntry_putItem_iff (cleared : Cleared bufferSize current bytes) (hnext : next < 2 ^ 64)
    (hfits : current + wholeSize child.name.length ≤ bufferSize) :
    readEntry (putItem bytes current next child) current = child.entry ↔
      0 ∉ child.name ∧ child.name.length ≤ nameLimit next := by
  rw [wholeSize_eq] at hfits
  have hkind : putItem bytes current next child (current + 16) = child.kind.toByte := by
    unfold putItem putName put offsetOfName
    dsimp only
    rw [copyRange_of_not_mem (by omega), copyRange_of_not_mem (by omega), update_self]
  have hsize : leRead (putItem bytes current next child) (current + 8) 8 = child.size.toNat := by
    have hread : leRead (putItem bytes current next child) (current + 8) 8 =
        leRead (leWrite (leWrite bytes current next 8) (current + 8) child.size.toNat 8)
          (current + 8) 8 := by
      refine leRead_congr fun i hi => ?_
      unfold putItem putName put offsetOfName
      dsimp only
      rw [copyRange_of_not_mem (by omega), copyRange_of_not_mem (by omega),
        update_of_ne (by omega)]
    rw [hread, leRead_leWrite]
    exact Nat.mod_eq_of_lt child.size.isLt
  have hname : ∀ i < child.name.length,
      putItem bytes current next child (current + offsetOfName + i) = child.name.getD i 0 := by
    intro i hi
    unfold putItem putName
    rw [copyRange_of_mem (Nat.le_add_right _ _) (Nat.add_lt_add_left hi _),
      Nat.add_sub_cancel_left, Nat.zero_add]
  have hend : putItem bytes current next child
      (current + offsetOfName + child.name.length) = 0 := by
    unfold putItem putName
    rw [copyRange_of_not_mem (by omega)]
    unfold put offsetOfName
    by_cases hshort : child.name.length < 7
    · rw [copyRange_of_mem (by omega) (by omega)]
    · rw [copyRange_of_not_mem (by omega), update_of_ne (by omega),
        leWrite_of_not_mem (by omega), leWrite_of_not_mem (by omega)]
      exact cleared _ (by omega) (by omega)
  rw [readEntry, Child.entry, nextOffset_putItem bytes hnext, DirectoryEntry.mk.injEq, hkind, hsize,
    BitVec.ofNat_toNat, BitVec.setWidth_eq]
  refine Iff.trans ⟨And.left, fun h => ⟨h, rfl, rfl⟩⟩ (slice_strlen_iff hname hend)

theorem readEntry_congr (hnext : nextOffset bytes current = next) (hpos : 24 ≤ next)
    (h : ∀ i < current + next, bytes i = bytes' i) :
    readEntry bytes current = readEntry bytes' current := by
  have hsame : nextOffset bytes current = nextOffset bytes' current :=
    leRead_congr fun i hi => h _ (by omega)
  have hlimit : nameLimit next = next - offsetOfName := if_pos (by omega)
  have hstrlen : strlen bytes (current + offsetOfName) (nameLimit next) =
      strlen bytes' (current + offsetOfName) (nameLimit next) := by
    refine strlen_congr fun i hi => h _ ?_
    rw [hlimit] at hi
    omega
  have hsize : leRead bytes (current + 8) 8 = leRead bytes' (current + 8) 8 :=
    leRead_congr fun i hi => h _ (by omega)
  have hname : slice bytes (current + offsetOfName)
      (strlen bytes' (current + offsetOfName) (nameLimit next)) =
        slice bytes' (current + offsetOfName)
          (strlen bytes' (current + offsetOfName) (nameLimit next)) := by
    refine slice_congr fun i hi => h _ ?_
    have hle := strlen_le bytes' (current + offsetOfName) (nameLimit next)
    rw [hlimit] at hle hi
    omega
  rw [readEntry, readEntry, ← hsame, hnext, hstrlen, hname, hsize, h (current + 16) (by omega)]

end Items

/-! ## Filling a buffer -/

section Filling

variable {bufferSize current offset : ℕ} {child : Child} {rest : List Child}
  {bytes bytes' : Memory Byte} 

/-- Where the next child goes: behind this one, or first in the next buffer. -/
def nextPlace (bufferSize current : ℕ) (child : Child) : List Child → ℕ
  | [] => 0
  | next :: _ =>
      if current + alignedSize child.name.length + wholeSize next.name.length > bufferSize then 0
      else current + alignedSize child.name.length

/-- Wherever a child goes, there is room for a whole `FileListItem`. -/
def Roomy (bufferSize : ℕ) : ℕ → List Child → Prop
  | _, [] => True
  | current, child :: rest =>
      current + FileListItem.size ≤ bufferSize ∧
        Roomy bufferSize (nextPlace bufferSize current child rest) rest

/-- The children can be listed: no name has a zero in it, the last is not longer than
`name_view` looks, and there is room for each item. -/
structure Listable (bufferSize current : ℕ) (children : List Child) : Prop where
  names : ∀ child ∈ children, 0 ∉ child.name
  last : ∀ child, children.getLast? = some child → child.name.length ≤ 1024
  roomy : Roomy bufferSize current children

theorem listable_single :
    Listable bufferSize current [child] ↔
      (0 ∉ child.name ∧ child.name.length ≤ 1024) ∧ current + FileListItem.size ≤ bufferSize := by
  constructor
  · rintro ⟨names, last, roomy⟩
    exact ⟨⟨names child (List.mem_singleton_self _), last child rfl⟩, roomy.1⟩
  · rintro ⟨⟨hname, hlast⟩, hroom⟩
    refine ⟨fun other hother => ?_, fun other hother => ?_, hroom, trivial⟩
    · rwa [List.mem_singleton.mp hother]
    · cases hother
      exact hlast

theorem listable_cons {next : Child} :
    Listable bufferSize current (child :: next :: rest) ↔
      (0 ∉ child.name ∧ current + FileListItem.size ≤ bufferSize) ∧
        Listable bufferSize (nextPlace bufferSize current child (next :: rest)) (next :: rest) := by
  constructor
  · rintro ⟨names, last, roomy⟩
    obtain ⟨hname, hnames⟩ := List.forall_mem_cons.mp names
    exact ⟨⟨hname, roomy.1⟩, hnames, last, roomy.2⟩
  · rintro ⟨⟨hname, hroom⟩, names, last, roomy⟩
    exact ⟨List.forall_mem_cons.mpr ⟨hname, names⟩, last, hroom, roomy⟩

theorem fillEntries_full (h : bufferSize < current + wholeSize child.name.length) :
    fillEntries bufferSize (child :: rest) offset current bytes = (bytes, .ok offset) :=
  if_pos h

theorem fillEntries_cons (hfits : current + wholeSize child.name.length ≤ bufferSize)
    (hroom : current + FileListItem.size ≤ bufferSize) :
    fillEntries bufferSize (child :: rest) offset current bytes =
      fillEntries bufferSize rest (offset + 1)
        (current + offsetToNext bufferSize current child rest)
        (putItem bytes current (offsetToNext bufferSize current child rest) child) := by
  rw [fillEntries, if_neg (Nat.not_lt.mpr hfits), if_neg (Nat.not_lt.mpr hroom)]
  rfl

theorem roomy_of_fillEntries (hfits : current + wholeSize child.name.length ≤ bufferSize)
    {offset' : ℕ}
    (h : fillEntries bufferSize (child :: rest) offset current bytes = (bytes', .ok offset')) :
    current + FileListItem.size ≤ bufferSize := by
  rw [fillEntries, if_neg (Nat.not_lt.mpr hfits)] at h
  by_contra hroom
  rw [if_pos (Nat.lt_of_not_le hroom)] at h
  cases h

theorem fillEntries_of_lt (rest : List Child) :
    ∀ {offset current : ℕ} {bytes : Memory Byte} {i : ℕ}, i < current →
      (fillEntries bufferSize rest offset current bytes).1 i = bytes i := by
  induction rest with
  | nil => exact fun _ => rfl
  | cons child rest ih =>
      intro offset current bytes i hi
      rw [fillEntries]
      split_ifs
      · rfl
      · rfl
      · exact (ih (Nat.lt_add_right _ hi)).trans (putItem_of_not_mem bytes (Or.inl hi))

theorem not_roomy_of_error (rest : List Child) :
    ∀ {offset current : ℕ} {bytes bytes' : Memory Byte} {code : ErrorCode},
      fillEntries bufferSize rest offset current bytes = (bytes', .error code) →
        ¬ Roomy bufferSize current rest := by
  induction rest with
  | nil =>
      intro offset current bytes bytes' code h
      cases h
  | cons child rest ih =>
      rintro offset current bytes bytes' code h ⟨hroom, hrest⟩
      by_cases hfits : current + wholeSize child.name.length ≤ bufferSize
      · rw [fillEntries_cons hfits hroom] at h
        cases rest with
        | nil => cases h
        | cons next rest =>
            rw [nextPlace] at hrest
            rw [offsetToNext] at h
            split_ifs at h hrest with hfull
            · rw [fillEntries_full (by rw [wholeSize_eq] at hfull ⊢; omega)] at h
              cases h
            · exact ih h hrest
      · rw [fillEntries_full (Nat.lt_of_not_le hfits)] at h
        cases h

end Filling

/-! ## Following the items -/

namespace DirectoryStream

section Advance

variable {children : List Child}  {stream : DirectoryStream}
  {bufferSize offset' : ℕ} 

theorem getAt_eq {item : ℕ} (h : item + FileListItem.size ≤ stream.bufferSize) :
    stream.getAt item = .ok item := if_pos h

theorem advance_last
    (hroom : stream.offsetInBuffer + FileListItem.size ≤ stream.bufferSize)
    (h : nextOffset stream.buffer stream.offsetInBuffer = 0) :
    stream.advance children = .ok (stream, none) := by
  rw [advance, getAt_eq hroom, ok_bind]
  dsimp only
  rw [if_pos h]
  rfl

theorem advance_within {next : ℕ}
    (hroom : stream.offsetInBuffer + FileListItem.size ≤ stream.bufferSize)
    (h : nextOffset stream.buffer stream.offsetInBuffer = next) (hnext : next ≠ 0)
    (hroom' : stream.offsetInBuffer + next + FileListItem.size ≤ stream.bufferSize) :
    stream.advance children =
      .ok ({ stream with offsetInBuffer := stream.offsetInBuffer + next },
        some (readEntry stream.buffer (stream.offsetInBuffer + next))) := by
  have hwithin : ¬ stream.offsetInBuffer + next ≥ stream.bufferSize := by
    have : FileListItem.size = 24 := rfl
    omega
  obtain ⟨moved, hmoved⟩ : ∃ moved : DirectoryStream,
      moved = { stream with offsetInBuffer := stream.offsetInBuffer + next } := ⟨_, rfl⟩
  have hitem : moved.getAt (stream.offsetInBuffer + next) = .ok (stream.offsetInBuffer + next) :=
    getAt_eq (by rwa [hmoved])
  rw [advance, getAt_eq hroom, ok_bind]
  dsimp only
  rw [h, if_neg hnext, if_neg hwithin, ← hmoved, hitem, ok_bind]
  rfl

theorem advance_refused {next : ℕ} {buffer : Memory Byte} {code : ErrorCode}
    (hroom : stream.offsetInBuffer + FileListItem.size ≤ stream.bufferSize)
    (h : nextOffset stream.buffer stream.offsetInBuffer = next) (hnext : next ≠ 0)
    (hend : stream.bufferSize ≤ stream.offsetInBuffer + next)
    (hget : getDirectoryEntries children stream.bufferSize stream.nextOsOffset stream.buffer =
      (buffer, .error code)) :
    stream.advance children = .ok ({ stream with buffer, error := code }, none) := by
  rw [advance, getAt_eq hroom, ok_bind]
  dsimp only
  rw [h, if_neg hnext, if_pos hend, hget]
  rfl

theorem advance_refilled {next : ℕ} {buffer : Memory Byte}
    (hroom : stream.offsetInBuffer + FileListItem.size ≤ stream.bufferSize)
    (h : nextOffset stream.buffer stream.offsetInBuffer = next) (hnext : next ≠ 0)
    (hend : stream.bufferSize ≤ stream.offsetInBuffer + next)
    (hget : getDirectoryEntries children stream.bufferSize stream.nextOsOffset stream.buffer =
      (buffer, .ok offset')) :
    stream.advance children =
      .ok ({ stream with buffer, nextOsOffset := offset', offsetInBuffer := 0 },
        some (readEntry buffer 0)) := by
  obtain ⟨refilled, hrefilled⟩ : ∃ refilled : DirectoryStream,
      refilled = { stream with buffer, nextOsOffset := offset', offsetInBuffer := 0 } := ⟨_, rfl⟩
  have hitem : refilled.getAt 0 = .ok 0 := by
    refine getAt_eq ?_
    rw [hrefilled, Nat.zero_add]
    exact Nat.le_trans (Nat.le_add_left _ _) hroom
  rw [advance, getAt_eq hroom, ok_bind]
  dsimp only
  rw [h, if_neg hnext, if_pos hend, hget]
  dsimp only
  rw [← hrefilled, hitem, ok_bind]
  rfl

theorem entriesFrom_last {fuel : ℕ} {entry : DirectoryEntry} {stopped : DirectoryStream}
    (h : stream.advance children = .ok (stopped, none)) :
    entriesFrom children (fuel + 1) stream entry = .ok ([entry], stopped.error) := by
  rw [entriesFrom, h, ok_bind]
  rfl

theorem entriesFrom_more {fuel : ℕ} {entry next : DirectoryEntry} {moved : DirectoryStream}
    {later : List DirectoryEntry × ErrorCode}
    (h : stream.advance children = .ok (moved, some next))
    (hlater : entriesFrom children fuel moved next = .ok later) :
    entriesFrom children (fuel + 1) stream entry = .ok (entry :: later.1, later.2) := by
  rw [entriesFrom, h, ok_bind]
  dsimp only
  rw [hlater, ok_bind]
  rfl

end Advance

/-- The entries from a stream on are those of the children, if these can be listed, and not if
not. -/
def Yields (children : List Child) (fuel : ℕ) (stream : DirectoryStream) (listed : List Child) :
    Prop :=
  ∃ all code, entriesFrom children fuel stream (readEntry stream.buffer stream.offsetInBuffer) =
      .ok (all, code) ∧
    ((all = listed.map Child.entry ∧ code = .ESUCCESS) ↔
      Listable stream.bufferSize stream.offsetInBuffer listed)

section Yields

variable {children rest : List Child} {child next : Child} {fuel bufferSize current offset : ℕ}
  {bytes : Memory Byte}

theorem yields_cons {stream moved : DirectoryStream} {advance : stream.advance children =
      .ok (moved, some (readEntry moved.buffer moved.offsetInBuffer))}
    (hsize : moved.bufferSize = stream.bufferSize)
    (hplace : nextPlace stream.bufferSize stream.offsetInBuffer child (next :: rest) =
      moved.offsetInBuffer)
    (hroom : stream.offsetInBuffer + FileListItem.size ≤ stream.bufferSize)
    (hread : readEntry stream.buffer stream.offsetInBuffer = child.entry ↔ 0 ∉ child.name)
    (later : Yields children fuel moved (next :: rest)) :
    Yields children (fuel + 1) stream (child :: next :: rest) := by
  obtain ⟨all, code, hrun, hiff⟩ := later
  refine ⟨_, _, entriesFrom_more advance hrun, ?_⟩
  rw [listable_cons, hplace, ← hsize, ← hiff, List.map_cons, List.cons.injEq, hread, hsize]
  exact ⟨fun h => ⟨⟨h.1.1, hroom⟩, h.1.2, h.2⟩, fun h => ⟨⟨h.1.1, h.2.1⟩, h.2.2⟩⟩

theorem yields_last (hcleared : Cleared bufferSize current bytes)
    (hfits : current + wholeSize child.name.length ≤ bufferSize)
    (hroom : current + FileListItem.size ≤ bufferSize) :
    Yields children (fuel + 1)
      ⟨putItem bytes current 0 child, bufferSize, current, offset, .ESUCCESS⟩ [child] := by
  have hnext : nextOffset (putItem bytes current 0 child) current = 0 :=
    nextOffset_putItem bytes (Nat.two_pow_pos 64)
  have hread := readEntry_putItem_iff hcleared (Nat.two_pow_pos 64) hfits
  obtain ⟨stream, hstream⟩ : ∃ stream : DirectoryStream, stream =
      ⟨putItem bytes current 0 child, bufferSize, current, offset, .ESUCCESS⟩ := ⟨_, rfl⟩
  have hlast : stream.advance children = .ok (stream, none) :=
    advance_last (hstream ▸ hroom) (hstream ▸ hnext)
  rw [← hstream]
  refine ⟨_, _, entriesFrom_last hlast, ?_⟩
  rw [hstream, listable_single, List.map_singleton, List.cons.injEq]
  exact ⟨fun h => ⟨hread.mp h.1.1, hroom⟩, fun h => ⟨⟨hread.mpr h.1, rfl⟩, rfl⟩⟩

/-- The next child does not go in, and the item points behind the buffer. -/
theorem yields_refilled (hsize : bufferSize < 2 ^ 64) (hcleared : Cleared bufferSize current bytes)
    (hfits : current + wholeSize child.name.length ≤ bufferSize)
    (hroom : current + FileListItem.size ≤ bufferSize)
    (hfull : bufferSize < current + alignedSize child.name.length + wholeSize next.name.length)
    (hdrop : children.drop offset = next :: rest)
    (later : ∀ cleared buffer offset', Cleared bufferSize 0 cleared →
      fillEntries bufferSize (next :: rest) offset 0 cleared = (buffer, .ok offset') →
        Yields children fuel ⟨buffer, bufferSize, 0, offset', .ESUCCESS⟩ (next :: rest)) :
    Yields children (fuel + 1) ⟨putItem bytes current (bufferSize - current) child, bufferSize,
      current, offset, .ESUCCESS⟩ (child :: next :: rest) := by
  have hwhole := wholeSize_eq child.name.length
  have hto : bufferSize - current < 2 ^ 64 := by omega
  have hnext : nextOffset (putItem bytes current (bufferSize - current) child) current =
      bufferSize - current := nextOffset_putItem bytes hto
  have hlimit : child.name.length ≤ nameLimit (bufferSize - current) := by
    unfold nameLimit offsetOfName
    rw [if_pos (by omega)]
    omega
  have hread := (readEntry_putItem_iff hcleared hto hfits).trans (and_iff_left hlimit)
  have hplace : nextPlace bufferSize current child (next :: rest) = 0 := if_pos hfull
  obtain ⟨stream, hstream⟩ : ∃ stream : DirectoryStream, stream =
      ⟨putItem bytes current (bufferSize - current) child, bufferSize, current, offset,
        .ESUCCESS⟩ := ⟨_, rfl⟩
  have hroomAt : stream.offsetInBuffer + FileListItem.size ≤ stream.bufferSize := hstream ▸ hroom
  have hnextAt : nextOffset stream.buffer stream.offsetInBuffer = bufferSize - current :=
    hstream ▸ hnext
  have hendAt : stream.bufferSize ≤ stream.offsetInBuffer + (bufferSize - current) := by
    rw [hstream]
    show bufferSize ≤ current + (bufferSize - current)
    omega
  have hgetAt : getDirectoryEntries children stream.bufferSize stream.nextOsOffset
      stream.buffer = fillEntries bufferSize (next :: rest) offset 0
        (fun i => if i < bufferSize then 0 else stream.buffer i) := by
    rw [getDirectoryEntries, hstream, hdrop]
  rw [← hstream]
  cases hrefill : fillEntries bufferSize (next :: rest) offset 0
      (fun i => if i < bufferSize then 0 else stream.buffer i) with
  | mk buffer result =>
      rw [hrefill] at hgetAt
      cases result with
      | error code =>
          have hstop := advance_refused hroomAt hnextAt (by omega) hendAt hgetAt
          have hnot : ¬ Listable bufferSize current (child :: next :: rest) := by
            rw [listable_cons, hplace]
            exact fun h => not_roomy_of_error _ hrefill h.2.roomy
          refine ⟨_, _, entriesFrom_last hstop, iff_of_false ?_ (hstream ▸ hnot)⟩
          rintro ⟨hall, -⟩
          have hlen := congrArg List.length hall
          rw [List.length_singleton, List.length_map, List.length_cons, List.length_cons] at hlen
          omega
      | ok offset' =>
          have hmove := advance_refilled hroomAt hnextAt (by omega) hendAt hgetAt
          have hclear : Cleared bufferSize 0
              (fun i => if i < bufferSize then 0 else stream.buffer i) := fun i _ hi => if_pos hi
          have hlater := later _ buffer offset' hclear hrefill
          have hmoved : ({ stream with
              buffer, nextOsOffset := offset', offsetInBuffer := 0 } : DirectoryStream) =
                ⟨buffer, bufferSize, 0, offset', .ESUCCESS⟩ := by
            rw [hstream]
          rw [hmoved] at hmove
          refine @yields_cons _ _ _ _ _ stream _ hmove ?_ ?_ hroomAt ?_ hlater
          · rw [hstream]
          · rw [hstream]
            exact hplace
          · rw [hstream]
            exact hread

/-- The next child goes behind this one. -/
theorem yields_within {offset' : ℕ} {bytes' : Memory Byte} (hsize : bufferSize < 2 ^ 64)
    (hcleared : Cleared bufferSize current bytes)
    (hfits : current + wholeSize child.name.length ≤ bufferSize)
    (hroom : current + FileListItem.size ≤ bufferSize)
    (hfits' : current + alignedSize child.name.length + wholeSize next.name.length ≤ bufferSize)
    (hfill : fillEntries bufferSize (next :: rest) offset
      (current + alignedSize child.name.length)
      (putItem bytes current (alignedSize child.name.length) child) = (bytes', .ok offset'))
    (later : Yields children fuel ⟨bytes', bufferSize,
      current + alignedSize child.name.length, offset', .ESUCCESS⟩ (next :: rest)) :
    Yields children (fuel + 1) ⟨bytes', bufferSize, current, offset', .ESUCCESS⟩
      (child :: next :: rest) := by
  have hwhole := wholeSize_eq child.name.length
  have haligned := wholeSize_le_alignedSize child.name.length
  have hroom' := roomy_of_fillEntries hfits' hfill
  have hto : alignedSize child.name.length < 2 ^ 64 := by omega
  have hsame : ∀ i < current + alignedSize child.name.length, bytes' i =
      putItem bytes current (alignedSize child.name.length) child i := by
    intro i hi
    have hkept := @fillEntries_of_lt bufferSize (next :: rest) offset _
      (putItem bytes current (alignedSize child.name.length) child) i hi
    rwa [hfill] at hkept
  have hput : nextOffset (putItem bytes current (alignedSize child.name.length) child) current =
      alignedSize child.name.length := nextOffset_putItem bytes hto
  have hnext : nextOffset bytes' current = alignedSize child.name.length :=
    (leRead_congr fun i hi => hsame _ (by omega)).trans hput
  have hlimit : child.name.length ≤ nameLimit (alignedSize child.name.length) := by
    unfold nameLimit offsetOfName
    rw [if_pos (by omega)]
    omega
  have hread := (readEntry_putItem_iff hcleared hto hfits).trans (and_iff_left hlimit)
  rw [← readEntry_congr hnext haligned.2 hsame] at hread
  have hplace : nextPlace bufferSize current child (next :: rest) =
    current + alignedSize child.name.length := if_neg (Nat.not_lt.mpr hfits')
  have hmove := @advance_within children ⟨bytes', bufferSize, current, offset', .ESUCCESS⟩ _ hroom
    hnext (by omega) hroom'
  exact @yields_cons _ _ _ _ _ _ _ hmove rfl hplace hroom hread later

end Yields

variable {children : List Child} {bufferSize : ℕ}

/-- **A stream at an item** yields the child there and those behind it, if they can be listed, and
something else if not. -/
theorem yields_of_fillEntries (hsize : bufferSize < 2 ^ 64)
    (hwhole : ∀ child ∈ children, wholeSize child.name.length ≤ bufferSize) (rest : List Child) :
    ∀ {child : Child} {offset offset' current fuel : ℕ} {bytes bytes' : Memory Byte},
      children.drop offset = child :: rest → Cleared bufferSize current bytes →
      current + wholeSize child.name.length ≤ bufferSize →
      fillEntries bufferSize (child :: rest) offset current bytes = (bytes', .ok offset') →
      rest.length < fuel →
      Yields children fuel ⟨bytes', bufferSize, current, offset', .ESUCCESS⟩ (child :: rest) := by
  induction rest with
  | nil =>
      intro child offset offset' current fuel bytes bytes' hdrop hcleared hfits hfill hfuel
      obtain ⟨fuel, rfl⟩ := Nat.exists_eq_succ_of_ne_zero (Nat.pos_iff_ne_zero.mp hfuel)
      have hroom := roomy_of_fillEntries hfits hfill
      rw [fillEntries_cons hfits hroom] at hfill
      cases hfill
      exact yields_last hcleared hfits hroom
  | cons next rest ih =>
      intro child offset offset' current fuel bytes bytes' hdrop hcleared hfits hfill hfuel
      obtain ⟨fuel, rfl⟩ := Nat.exists_eq_succ_of_ne_zero (Nat.ne_of_gt (Nat.zero_lt_of_lt hfuel))
      have hroom := roomy_of_fillEntries hfits hfill
      have hdrop' : children.drop (offset + 1) = next :: rest := by
        rw [← List.drop_drop, hdrop, List.drop_one, List.tail_cons]
      have hfuel' : rest.length < fuel := Nat.lt_of_succ_lt_succ hfuel
      rw [fillEntries_cons hfits hroom] at hfill
      by_cases hfull : bufferSize <
          current + alignedSize child.name.length + wholeSize next.name.length
      · have hto : offsetToNext bufferSize current child (next :: rest) = bufferSize - current :=
          if_pos hfull
        have hend : bufferSize < current + (bufferSize - current) + wholeSize next.name.length := by
          rw [wholeSize_eq]
          omega
        rw [hto, fillEntries_full hend] at hfill
        cases hfill
        have hwhole' : wholeSize next.name.length ≤ bufferSize := by
          refine hwhole next (@List.mem_of_mem_drop _ _ (offset + 1) _ ?_)
          rw [hdrop']
          exact List.mem_cons_self
        refine yields_refilled hsize hcleared hfits hroom hfull hdrop' ?_
        intro cleared buffer offset'' hclear hrefill
        exact ih hdrop' hclear (by omega) hrefill hfuel'
      · have hto : offsetToNext bufferSize current child (next :: rest) =
          alignedSize child.name.length := if_neg hfull
        rw [hto] at hfill
        have hclear : Cleared bufferSize (current + alignedSize child.name.length)
            (putItem bytes current (alignedSize child.name.length) child) := by
          intro i hi hi'
          rw [putItem_of_not_mem bytes (Or.inr hi)]
          exact hcleared i (Nat.le_trans (Nat.le_add_right _ _) hi) hi'
        have hfits' := Nat.not_lt.mp hfull
        exact yields_within hsize hcleared hfits hroom hfits' hfill
          (ih hdrop' hclear hfits' hfill hfuel')

/-! ## A whole listing -/

theorem listDirectory_of_create {bytes : Memory Byte} {stream : DirectoryStream}
    (hcreate : create children bufferSize bytes = .ok stream) (hstart : stream.offsetInBuffer = 0)
    (hroom : 0 + FileListItem.size ≤ stream.bufferSize) :
    listDirectory children bufferSize bytes =
      (entriesFrom children (children.length + 1) stream
        (readEntry stream.buffer stream.offsetInBuffer)).map .ok := by
  have hfirst : stream.first = .ok (readEntry stream.buffer stream.offsetInBuffer) := by
    rw [first, verify, if_pos hstart, getAt_eq hroom, hstart]
    rfl
  rw [listDirectory, hcreate]
  dsimp only
  rw [hfirst, ok_bind]
  cases entriesFrom children (children.length + 1) stream
    (readEntry stream.buffer stream.offsetInBuffer) <;> rfl

theorem ne_nil_of_entriesFrom {fuel : ℕ} {stream : DirectoryStream} {entry : DirectoryEntry}
    {all : List DirectoryEntry × ErrorCode} (h : entriesFrom children fuel stream entry = .ok all) :
    all.1 ≠ [] := by
  cases fuel with
  | zero => cases h
  | succ fuel =>
      rw [entriesFrom] at h
      cases hadvance : stream.advance children with
      | error halt =>
          rw [hadvance] at h
          cases h
      | ok advanced =>
          rw [hadvance, ok_bind] at h
          cases hnext : advanced.2 with
          | none =>
              rw [hnext] at h
              cases h
              exact List.cons_ne_nil _ _
          | some next =>
              rw [hnext] at h
              dsimp only at h
              cases hlater : entriesFrom children fuel advanced.1 next with
              | error halt =>
                  rw [hlater] at h
                  cases h
              | ok later =>
                  rw [hlater, ok_bind] at h
                  cases h
                  exact List.cons_ne_nil _ _

theorem listDirectory_ne_nil {bytes : Memory Byte} {code : ErrorCode} :
    listDirectory children bufferSize bytes ≠ .ok (.ok ([], code)) := by
  intro h
  rw [listDirectory] at h
  cases hcreate : create children bufferSize bytes with
  | error code =>
      rw [hcreate] at h
      cases h
  | ok stream =>
      rw [hcreate] at h
      dsimp only at h
      cases hfirst : stream.first with
      | error halt =>
          rw [hfirst] at h
          cases h
      | ok entry =>
          rw [hfirst, ok_bind] at h
          cases hall : entriesFrom children (children.length + 1) stream entry with
          | error halt =>
              rw [hall] at h
              cases h
          | ok all =>
              rw [hall, ok_bind] at h
              cases h
              exact ne_nil_of_entriesFrom hall rfl

/-- **A program that lists a directory** gets every child once and in order exactly when there is
one, and all of them can be listed. -/
theorem listDirectory_iff {children : List Child} {bufferSize : ℕ} (hsize : bufferSize < 2 ^ 64)
    (hwhole : ∀ child ∈ children, wholeSize child.name.length ≤ bufferSize)
    (bytes : Memory Byte) :
    listDirectory children bufferSize bytes = .ok (.ok (children.map Child.entry, .ESUCCESS)) ↔
      children ≠ [] ∧ Listable bufferSize 0 children := by
  cases children with
  | nil => exact iff_of_false listDirectory_ne_nil fun h => h.1 rfl
  | cons child rest =>
      rw [and_iff_right (List.cons_ne_nil child rest)]
      have hget : getDirectoryEntries (child :: rest) bufferSize 0 bytes =
        fillEntries bufferSize (child :: rest) 0 0
          (fun i => if i < bufferSize then 0 else bytes i) := rfl
      cases hfill : fillEntries bufferSize (child :: rest) 0 0
          (fun i => if i < bufferSize then 0 else bytes i) with
      | mk buffer result =>
          rw [hfill] at hget
          cases result with
          | error code =>
              have hrun : listDirectory (child :: rest) bufferSize bytes = .ok (.error code) := by
                rw [listDirectory, create, hget]
              rw [hrun]
              refine iff_of_false ?_ fun h => not_roomy_of_error _ hfill h.roomy
              intro h
              cases h
          | ok offset =>
              have hfits : 0 + wholeSize child.name.length ≤ bufferSize := by
                rw [Nat.zero_add]
                exact hwhole child List.mem_cons_self
              have hroom := roomy_of_fillEntries hfits hfill
              have hclear : Cleared bufferSize 0
                  (fun i => if i < bufferSize then 0 else bytes i) := fun i _ hi => if_pos hi
              have hfuel : rest.length < (child :: rest).length + 1 := by
                rw [List.length_cons]
                omega
              have hcreate : create (child :: rest) bufferSize bytes =
                  .ok ⟨buffer, bufferSize, 0, offset, .ESUCCESS⟩ := by
                rw [create, hget]
              obtain ⟨all, code, hrun, hiff⟩ := yields_of_fillEntries hsize hwhole rest
                List.drop_zero hclear hfits hfill hfuel
              rw [listDirectory_of_create hcreate rfl hroom, hrun, ← hiff]
              constructor
              · intro h
                cases h
                exact ⟨rfl, rfl⟩
              · rintro ⟨rfl, rfl⟩
                rfl

/-- Two files of which one goes into a buffer at a time. -/
theorem listDirectory_iff_refilled :
    listDirectory [⟨[97], 5, false⟩, ⟨[98, 99], 0, true⟩] 40 (fun _ => 0) =
      .ok (.ok ([⟨[97], 0, 5⟩, ⟨[98, 99], 1, 0⟩], .ESUCCESS)) := by
  have hwhole : ∀ child ∈ ([⟨[97], 5, false⟩, ⟨[98, 99], 0, true⟩] : List Child),
      wholeSize child.name.length ≤ 40 := by decide
  refine (listDirectory_iff (by decide) hwhole _).mpr ⟨List.cons_ne_nil _ _, ?_, ?_, ?_⟩
  · decide
  · intro child h
    cases h
    decide
  · exact ⟨by decide, by decide, trivial⟩

/-- A directory with no children is listed with one that has no name. -/
theorem listDirectory_iff_fails :
    listDirectory [] 1024 (fun _ => 0) = .ok (.ok ([⟨[], 0, 0⟩], .ESUCCESS)) ∧
      listDirectory [] 1024 (fun _ => 0) ≠ .ok (.ok ([].map Child.entry, .ESUCCESS)) :=
  ⟨by decide, listDirectory_ne_nil⟩

end DirectoryStream

end BekOS
