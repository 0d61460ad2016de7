import BekOS.Process.Elf

/-!
# The range of a program

`parse_file` keeps the start and the size of what the segments so far take up.  A segment that
begins below them all brings the start down, and with it the end, since the size stays; only the
end of that segment can bring it up again.  So the range is that of all segments exactly when one
that ends last comes at or behind one that starts first.
-/

namespace BekOS

/-! ## Ranges -/

/-- The other range is part of this one. -/
def UserRegion.Includes (region other : UserRegion) : Prop :=
  region.start.toNat ≤ other.start.toNat ∧ other.limit ≤ region.limit

/-- The smallest range that all segments are part of. -/
structure IsHull (range : UserRegion) (segments : List UserRegion) : Prop where
  includes : ∀ segment ∈ segments, range.Includes segment
  least : ∀ other : UserRegion, (∀ segment ∈ segments, other.Includes segment) →
    other.Includes range

/-- A segment that starts first comes before one that ends last, or is that one. -/
def StartsBeforeEnd (segments : List UserRegion) : Prop :=
  ∃ (i j : ℕ) (first last : UserRegion), i ≤ j ∧ segments[i]? = some first ∧ segments[j]? = some last ∧
    (∀ segment ∈ segments, first.start.toNat ≤ segment.start.toNat) ∧
    ∀ segment ∈ segments, segment.limit ≤ last.limit

/-- The range that `parse_file` makes of the segments. -/
def rangeOf (segments : List UserRegion) : Option UserRegion :=
  segments.foldl (fun range segment => some (widenRange range segment)) none

theorem rangeOf_concat (segments : List UserRegion) (segment : UserRegion) :
    rangeOf (segments ++ [segment]) = some (widenRange (rangeOf segments) segment) := by
  rw [rangeOf, List.foldl_concat]
  rfl

theorem widenRange_of_le {range segment : UserRegion} (low : range.Low) (low' : segment.Low)
    (h : range.start.toNat ≤ segment.start.toNat) :
    (widenRange (some range) segment).start = range.start ∧
      (widenRange (some range) segment).limit = max range.limit segment.limit := by
  have hstart : ¬ range.start > segment.start := BitVec.not_lt.mpr h
  unfold UserRegion.Low UserRegion.limit at low low'
  unfold widenRange UserRegion.limit UserRegion.endPtr
  dsimp only
  rw [if_neg hstart]
  split_ifs with hend
  · refine ⟨rfl, ?_⟩
    rw [Nat.max_eq_right (by bv_omega)]
    bv_omega
  · refine ⟨rfl, ?_⟩
    rw [Nat.max_eq_left (by bv_omega)]

theorem widenRange_of_lt {range segment : UserRegion} (low : range.Low) (low' : segment.Low)
    (h : segment.start.toNat < range.start.toNat) :
    (widenRange (some range) segment).start = segment.start ∧
      (widenRange (some range) segment).limit =
        max (segment.start.toNat + range.size.toNat) segment.limit := by
  have hstart : range.start > segment.start := h
  unfold UserRegion.Low UserRegion.limit at low low'
  unfold widenRange UserRegion.limit UserRegion.endPtr
  dsimp only
  rw [if_pos hstart]
  split_ifs with hend
  · refine ⟨rfl, ?_⟩
    dsimp only at hend ⊢
    rw [Nat.max_eq_right (by bv_omega)]
    bv_omega
  · refine ⟨rfl, ?_⟩
    dsimp only at hend ⊢
    rw [Nat.max_eq_left (by bv_omega)]

/-- What the loop keeps of the range: it begins where the first segment does and ends no later
than the last one, and there exactly when the segments come in the right order. -/
structure RangeKept (segments : List UserRegion) (range : UserRegion) : Prop where
  low : range.Low
  start_le : ∀ segment ∈ segments, range.start.toNat ≤ segment.start.toNat
  start_mem : ∃ segment ∈ segments, segment.start = range.start
  limit_le : ∃ segment ∈ segments, range.limit ≤ segment.limit
  covers_iff : (∀ segment ∈ segments, segment.limit ≤ range.limit) ↔ StartsBeforeEnd segments

theorem RangeKept.single {segment : UserRegion} (low : segment.Low) :
    RangeKept [segment] segment := by
  have hself : ∀ other ∈ [segment], other = segment := fun other h => List.mem_singleton.mp h
  refine ⟨low, fun other h => hself other h ▸ le_rfl, ⟨segment, List.mem_singleton_self _, rfl⟩,
    ⟨segment, List.mem_singleton_self _, le_rfl⟩,
    iff_of_true (fun other h => hself other h ▸ le_rfl) ?_⟩
  exact ⟨0, 0, segment, segment, le_rfl, rfl, rfl, fun other h => hself other h ▸ le_rfl,
    fun other h => hself other h ▸ le_rfl⟩

section Widen

variable {segments : List UserRegion} {range segment : UserRegion}

theorem mem_concat_iff {α : Type*} {l : List α} {a b : α} : b ∈ l ++ [a] ↔ b ∈ l ∨ b = a := by
  rw [List.mem_append, List.mem_singleton]

theorem startsBeforeEnd_of_last (hend : ∀ other ∈ segments, other.limit ≤ segment.limit)
    {first : UserRegion} (hfirst : first ∈ segments ++ [segment])
    (hleast : ∀ other ∈ segments ++ [segment], first.start.toNat ≤ other.start.toNat) :
    StartsBeforeEnd (segments ++ [segment]) := by
  obtain ⟨i, hi⟩ := List.mem_iff_getElem?.mp hfirst
  have hlt : i < (segments ++ [segment]).length := (List.getElem?_eq_some_iff.mp hi).1
  rw [List.length_append, List.length_singleton] at hlt
  refine ⟨i, segments.length, first, segment, Nat.le_of_lt_succ hlt, hi,
    List.getElem?_concat_length, hleast, fun other hother => ?_⟩
  rcases mem_concat_iff.mp hother with hold | rfl
  · exact hend other hold
  · exact le_rfl

/-- **A segment that starts below the range** is the first, so that it has to be the last. -/
theorem RangeKept.widen_of_lt (kept : RangeKept segments range) (low : segment.Low)
    (hlt : segment.start.toNat < range.start.toNat) :
    RangeKept (segments ++ [segment]) (widenRange (some range) segment) := by
  obtain ⟨last, hlast, hlimit⟩ := kept.limit_le
  obtain ⟨hstart', hlimit'⟩ := widenRange_of_lt kept.low low hlt
  have hend : range.limit = range.start.toNat + range.size.toNat := rfl
  have hnew : segment ∈ segments ++ [segment] := mem_concat_iff.mpr (Or.inr rfl)
  have hleast : ∀ other ∈ segments ++ [segment], segment.start.toNat ≤ other.start.toNat := by
    intro other hother
    rcases mem_concat_iff.mp hother with hold | rfl
    · exact hlt.le.trans (kept.start_le other hold)
    · exact le_rfl
  refine ⟨widenRange_low (fun _ h => Option.some.inj h ▸ kept.low) low, hstart' ▸ hleast,
    ⟨segment, hnew, hstart'.symm⟩, ?_, ?_⟩
  · rw [hlimit']
    rcases Nat.le_total (segment.start.toNat + range.size.toNat) segment.limit with h | h
    · exact ⟨segment, hnew, (max_eq_right h).le⟩
    · exact ⟨last, mem_concat_iff.mpr (Or.inl hlast), (max_eq_left h).le.trans (by omega)⟩
  · rw [hlimit']
    constructor
    · intro hall
      have hlast' := hall last (mem_concat_iff.mpr (Or.inl hlast))
      refine startsBeforeEnd_of_last (fun other hother => ?_) hnew hleast
      have hother' := hall other (mem_concat_iff.mpr (Or.inl hother))
      omega
    · rintro ⟨i, j, first, last', hij, hi, hj, hfirst, hends⟩ other hother
      have hsame : i = segments.length := by
        by_contra hne
        have hlen : i < (segments ++ [segment]).length := (List.getElem?_eq_some_iff.mp hi).1
        rw [List.length_append, List.length_singleton] at hlen
        rw [List.getElem?_append_left (by omega)] at hi
        have hold := kept.start_le first (List.mem_of_getElem? hi)
        have hbelow := hfirst segment hnew
        omega
      have hlen : j < (segments ++ [segment]).length := (List.getElem?_eq_some_iff.mp hj).1
      rw [List.length_append, List.length_singleton] at hlen
      obtain rfl : j = segments.length := by omega
      rw [List.getElem?_concat_length] at hj
      cases hj
      exact (hends other hother).trans (le_max_right _ _)

/-- **A segment that does not** brings the end up, where it ends later. -/
theorem RangeKept.widen_of_le (kept : RangeKept segments range) (low : segment.Low)
    (hle : range.start.toNat ≤ segment.start.toNat) :
    RangeKept (segments ++ [segment]) (widenRange (some range) segment) := by
  obtain ⟨first, hfirst, hstart⟩ := kept.start_mem
  obtain ⟨last, hlast, hlimit⟩ := kept.limit_le
  obtain ⟨hstart', hlimit'⟩ := widenRange_of_le kept.low low hle
  have hnew : segment ∈ segments ++ [segment] := mem_concat_iff.mpr (Or.inr rfl)
  have hleast : ∀ other ∈ segments ++ [segment], range.start.toNat ≤ other.start.toNat := by
    intro other hother
    rcases mem_concat_iff.mp hother with hold | rfl
    · exact kept.start_le other hold
    · exact hle
  have hfirst' : first ∈ segments ++ [segment] := mem_concat_iff.mpr (Or.inl hfirst)
  refine ⟨widenRange_low (fun _ h => Option.some.inj h ▸ kept.low) low, hstart' ▸ hleast,
    ⟨first, hfirst', hstart.trans hstart'.symm⟩, ?_, ?_⟩
  · rw [hlimit']
    rcases Nat.le_total range.limit segment.limit with h | h
    · exact ⟨segment, hnew, (max_eq_right h).le⟩
    · exact ⟨last, mem_concat_iff.mpr (Or.inl hlast), (max_eq_left h).le.trans hlimit⟩
  · rw [hlimit']
    constructor
    · intro hall
      rcases Nat.le_total range.limit segment.limit with h | h
      · refine startsBeforeEnd_of_last (fun other hother => ?_) hfirst' (hstart ▸ hleast)
        have hother' := hall other (mem_concat_iff.mpr (Or.inl hother))
        omega
      · obtain ⟨i, j, first', last', hij, hi, hj, hfirst'', hends⟩ :=
          kept.covers_iff.mp fun other hother =>
            (hall other (mem_concat_iff.mpr (Or.inl hother))).trans (max_eq_left h).le
        have hleast' := hfirst'' first hfirst
        refine ⟨i, j, first', last', hij, List.getElem?_append_left
            (List.getElem?_eq_some_iff.mp hi).1 ▸ hi, List.getElem?_append_left
            (List.getElem?_eq_some_iff.mp hj).1 ▸ hj, fun other hother => ?_, fun other hother => ?_⟩
        · rw [hstart] at hleast'
          exact hleast'.trans (hleast other hother)
        · rcases mem_concat_iff.mp hother with hold | rfl
          · exact hends other hold
          · exact (h.trans hlimit).trans (hends last hlast)
    · rintro ⟨i, j, first', last', hij, hi, hj, hfirst'', hends⟩ other hother
      by_cases hlt : j < segments.length
      · rw [List.getElem?_append_left hlt] at hj
        rw [List.getElem?_append_left (by omega)] at hi
        have hcovers := kept.covers_iff.mpr ⟨i, j, first', last', hij, hi, hj,
          fun x hx => hfirst'' x (mem_concat_iff.mpr (Or.inl hx)),
          fun x hx => hends x (mem_concat_iff.mpr (Or.inl hx))⟩
        rcases mem_concat_iff.mp hother with hold | rfl
        · exact (hcovers other hold).trans (le_max_left _ _)
        · exact le_max_right _ _
      · have hlen : j < (segments ++ [segment]).length := (List.getElem?_eq_some_iff.mp hj).1
        rw [List.length_append, List.length_singleton] at hlen
        obtain rfl : j = segments.length := by omega
        rw [List.getElem?_concat_length] at hj
        cases hj
        exact (hends other hother).trans (le_max_right _ _)

theorem rangeOf_kept (low : ∀ segment ∈ segments, segment.Low) (hne : segments ≠ []) :
    ∃ range, rangeOf segments = some range ∧ RangeKept segments range := by
  induction segments using List.reverseRecOn with
  | nil => exact absurd rfl hne
  | append_singleton rest segment ih =>
      have hsegment : segment.Low := low segment (mem_concat_iff.mpr (Or.inr rfl))
      rw [rangeOf_concat]
      refine ⟨_, rfl, ?_⟩
      by_cases hrest : rest = []
      · subst hrest
        exact .single hsegment
      · obtain ⟨range, hrange, kept⟩ :=
          ih (fun other hother => low other (mem_concat_iff.mpr (Or.inl hother))) hrest
        rw [hrange]
        rcases Nat.lt_or_ge segment.start.toNat range.start.toNat with hlt | hle
        · exact kept.widen_of_lt hsegment hlt
        · exact kept.widen_of_le hsegment hle

/-- **The range is that of all segments** exactly when they come in the right order. -/
theorem RangeKept.isHull_iff (kept : RangeKept segments range) :
    IsHull range segments ↔ StartsBeforeEnd segments := by
  rw [← kept.covers_iff]
  constructor
  · exact fun hull segment hsegment => (hull.includes segment hsegment).2
  · intro hcovers
    refine ⟨fun segment hsegment => ⟨kept.start_le segment hsegment, hcovers segment hsegment⟩,
      fun other hother => ?_⟩
    obtain ⟨first, hfirst, hstart⟩ := kept.start_mem
    obtain ⟨last, hlast, hlimit⟩ := kept.limit_le
    exact ⟨hstart ▸ (hother first hfirst).1, hlimit.trans (hother last hlast).2⟩

end Widen

/-! ## The headers -/

/-- Where a segment is to be. -/
def ElfProgramHeader.segment (hdr : ElfProgramHeader) : UserRegion where
  start := hdr.virtualAddress
  size := hdr.memorySize

/-- The segments that are to be loaded. -/
def loadSegments (headers : List ElfProgramHeader) : List UserRegion :=
  (headers.filter fun hdr => hdr.type = ptLoad).map ElfProgramHeader.segment

theorem mem_loadSegments {headers : List ElfProgramHeader} {segment : UserRegion} :
    segment ∈ loadSegments headers ↔
      ∃ hdr ∈ headers, hdr.type = ptLoad ∧ hdr.segment = segment := by
  simp [loadSegments, and_assoc]

theorem checkProgramHeaders_range {size : U64} {headers : List ElfProgramHeader} :
    ∀ {range out : Option UserRegion}, checkProgramHeaders size headers range = .ok out →
      out = (loadSegments headers).foldl
        (fun range segment => some (widenRange range segment)) range := by
  induction headers with
  | nil =>
      intro range out h
      cases h
      rfl
  | cons hdr rest ih =>
      intro range out h
      rw [checkProgramHeaders] at h
      split_ifs at h with hload hbounds hoffset hfile hinterp
      · rw [ih h, loadSegments, loadSegments, List.filter_cons_of_pos (by simpa using hload)]
        rfl
      · rw [ih h, loadSegments, loadSegments, List.filter_cons_of_neg (by simpa using hload)]

/-! ## The stack -/

theorem UserRegion.Low.toNat_alignToPage {region : UserRegion} (low : region.Low) :
    region.alignToPage.start.toNat = region.start.toNat / 4096 * 4096 ∧
      region.alignToPage.limit = (region.limit + 4095) / 4096 * 4096 := by
  have hfits : region.Fits := Nat.lt_trans low (by decide)
  have hend : region.endPtr.toNat = region.limit := hfits.toNat_endPtr
  have hup := toNat_alignUp (a := region.endPtr) (by rw [hend]; exact low.le)
  have hdown := toNat_alignDown region.start
  have hlimit : region.limit = region.start.toNat + region.size.toNat := rfl
  refine ⟨hdown, ?_⟩
  show (alignDown region.start pageSize).toNat +
    (alignUp region.endPtr pageSize - alignDown region.start pageSize).toNat = _
  rw [BitVec.toNat_sub_of_le (BitVec.le_def.mpr (by omega)), hup, hdown, hend]
  omega

theorem UserRegion.Includes.alignToPage {region other : UserRegion}
    (h : region.Includes other) (low : region.Low) (low' : other.Low) :
    region.alignToPage.Includes other.alignToPage := by
  obtain ⟨hstart, hlimit⟩ := low.toNat_alignToPage
  obtain ⟨hstart', hlimit'⟩ := low'.toNat_alignToPage
  obtain ⟨hle, hle'⟩ := h
  unfold Includes
  rw [hstart, hlimit, hstart', hlimit']
  omega

/-- A size for a stack: of whole pages, and not as large as to wrap around. -/
def StackSize (maximumSize : U64) : Prop :=
  maximumSize.toNat % 4096 = 0 ∧ maximumSize.toNat < 2 ^ 63

theorem stackSize_maxUserStack : StackSize maxUserStack := by
  unfold StackSize
  decide

/-- **The stack** is of whole pages, with two pages between it and those of the range. -/
theorem ElfFile.getSensibleStackRegion_apart {elf : ElfFile} (low : elf.programRange.Low)
    {maximumSize : U64} (hsize : StackSize maximumSize) :
    (elf.getSensibleStackRegion maximumSize).pageAligned = true ∧
      ((elf.getSensibleStackRegion maximumSize).limit + 8192 ≤
          elf.programRange.alignToPage.start.toNat ∨
        elf.programRange.alignToPage.limit + 8192 ≤
          (elf.getSensibleStackRegion maximumSize).start.toNat) := by
  obtain ⟨hpages, hsmall⟩ := hsize
  obtain ⟨hstart, hlimit⟩ := low.toNat_alignToPage
  have hle := low.alignToPage
  have hfits : elf.programRange.alignToPage.Fits := Nat.lt_of_le_of_lt hle (by decide)
  have hend := hfits.toNat_endPtr
  have hfirst : (16 * pageSize).toNat = 65536 := rfl
  have htop : (16 * pageSize + maximumSize).toNat = 65536 + maximumSize.toNat := by
    rw [BitVec.toNat_add, hfirst, Nat.mod_eq_of_lt (by omega)]
  have hgap : (2 * pageSize).toNat = 8192 := rfl
  rw [UserRegion.pageAligned_iff]
  by_cases hbelow : 16 * pageSize + maximumSize + 2 * pageSize ≤
      elf.programRange.alignToPage.start
  · rw [ElfFile.getSensibleStackRegion_of_le hbelow]
    have hbelow' : (16 * pageSize + maximumSize + 2 * pageSize).toNat =
        65536 + maximumSize.toNat + 8192 := by
      rw [BitVec.toNat_add, htop, hgap, Nat.mod_eq_of_lt (by omega)]
    rw [BitVec.le_def, hbelow'] at hbelow
    have haligned : (16 * pageSize).toNat % 4096 = 0 := by rw [hfirst]
    refine ⟨⟨haligned, hpages⟩, Or.inl ?_⟩
    show (16 * pageSize).toNat + maximumSize.toNat + 8192 ≤ _
    rw [hfirst]
    exact hbelow
  · rw [ElfFile.getSensibleStackRegion_of_not_le hbelow]
    have hfrom : (elf.programRange.alignToPage.endPtr + 2 * pageSize).toNat =
        elf.programRange.alignToPage.limit + 8192 := by
      rw [BitVec.toNat_add, hend, hgap, Nat.mod_eq_of_lt (by omega)]
    refine ⟨⟨?_, hpages⟩, Or.inr hfrom.ge⟩
    dsimp only
    rw [hfrom]
    omega

/-! ## What the range and the stack are to be -/

/-- The range is that of all segments, and a stack is of whole pages that are none of theirs. -/
structure ElfFile.LaidOut (elf : ElfFile) : Prop where
  hull : IsHull elf.programRange (loadSegments elf.programHeaders)
  aligned : ∀ maximumSize, StackSize maximumSize →
    (elf.getSensibleStackRegion maximumSize).pageAligned = true
  apart : ∀ maximumSize, StackSize maximumSize → ∀ hdr ∈ elf.programHeaders,
    hdr.type = ptLoad → ∀ address, hdr.segment.alignToPage.Covers address →
      ¬ (elf.getSensibleStackRegion maximumSize).Covers address

/-- **When range and stack are right**, for the headers of a file that is accepted. -/
theorem ElfFile.laidOut_iff {file : ExecutableFile} {elf : ElfFile}
    (h : ElfFile.parseFile file = .ok elf) :
    elf.LaidOut ↔ StartsBeforeEnd (loadSegments elf.programHeaders) := by
  obtain ⟨hheaders, hrange⟩ := ElfFile.parseFile_low h
  obtain ⟨-, hcheck⟩ := ElfFile.parseFile_checks h
  have hlow : ∀ segment ∈ loadSegments elf.programHeaders, segment.Low := by
    intro segment hsegment
    obtain ⟨hdr, hmem, hload, rfl⟩ := mem_loadSegments.mp hsegment
    exact hheaders hdr hmem hload
  have hfold : rangeOf (loadSegments elf.programHeaders) = some elf.programRange :=
    (checkProgramHeaders_range hcheck).symm
  have hne : loadSegments elf.programHeaders ≠ [] := by
    intro hnil
    rw [hnil] at hfold
    cases hfold
  obtain ⟨range, hsame, kept⟩ := rangeOf_kept hlow hne
  obtain rfl : range = elf.programRange := Option.some.inj (hsame.symm.trans hfold)
  rw [← kept.isHull_iff]
  refine ⟨fun laid => laid.hull, fun hull => ⟨hull, fun maximumSize hsize => ?_, ?_⟩⟩
  · exact (ElfFile.getSensibleStackRegion_apart hrange hsize).1
  · intro maximumSize hsize hdr hmem hload address hcovers hstack
    have hsegment : hdr.segment ∈ loadSegments elf.programHeaders :=
      mem_loadSegments.mpr ⟨hdr, hmem, hload, rfl⟩
    obtain ⟨hstart, hlimit⟩ :=
      (hull.includes _ hsegment).alignToPage hrange (hlow _ hsegment)
    obtain ⟨-, hapart⟩ := ElfFile.getSensibleStackRegion_apart hrange hsize
    unfold UserRegion.Covers at hcovers hstack
    omega

/-- A file with two segments of a page, from these multiples of 64 KiB on. -/
def twoSegments (first second : Byte) : ExecutableFile where
  name := "init"
  size := 0x1000
  readBytes offset n := .ok (fun i => (List.lookup (offset + i)
    [(0, 0x7F), (1, 0x45), (2, 0x4C), (3, 0x46), (4, 2), (5, 1), (16, 2), (18, 0xB7), (26, 0x40),
      (32, 64), (54, 56), (56, 2), (64, 1), (68, 5), (82, first), (105, 0x10), (120, 1), (124, 5),
      (138, second), (161, 0x10)]).getD 0, n)

/-- In the order of their addresses. -/
theorem laidOut_ascending : ∃ elf, ElfFile.parseFile (twoSegments 0x40 0x70) = .ok elf ∧
    elf.LaidOut := by
  have hvalue : (ElfFile.parseFile (twoSegments 0x40 0x70)).toOption.map
      (fun elf => loadSegments elf.programHeaders) =
        some [⟨0x400000, 0x1000⟩, ⟨0x700000, 0x1000⟩] := by decide +kernel
  obtain ⟨elf, helf, hsegments⟩ := Option.map_eq_some_iff.mp hvalue
  have hparse := toOption_eq_some.mp helf
  refine ⟨elf, hparse, (ElfFile.laidOut_iff hparse).mpr ?_⟩
  rw [hsegments]
  exact ⟨0, 1, _, _, by decide, rfl, rfl, by decide, by decide⟩

/-- The other way round, the stack is where the segment is that comes first. -/
theorem laidOut_fails : ∃ elf, ElfFile.parseFile (twoSegments 0x70 0x40) = .ok elf ∧
    loadSegments elf.programHeaders = [⟨0x700000, 0x1000⟩, ⟨0x400000, 0x1000⟩] ∧
    elf.programRange = ⟨0x400000, 0x1000⟩ ∧
    (elf.getSensibleStackRegion maxUserStack).Covers 0x700000 ∧ ¬ elf.LaidOut := by
  have hvalue : (ElfFile.parseFile (twoSegments 0x70 0x40)).toOption.map
      (fun elf => (loadSegments elf.programHeaders, elf.programRange)) =
        some ([⟨0x700000, 0x1000⟩, ⟨0x400000, 0x1000⟩], ⟨0x400000, 0x1000⟩) := by decide +kernel
  obtain ⟨elf, helf, heq⟩ := Option.map_eq_some_iff.mp hvalue
  obtain ⟨hsegments, hrange⟩ := Prod.mk.inj heq
  have hcovers : (elf.getSensibleStackRegion maxUserStack).Covers 0x700000 := by
    unfold ElfFile.getSensibleStackRegion
    rw [hrange]
    decide
  refine ⟨elf, toOption_eq_some.mp helf, hsegments, hrange, hcovers, fun laid => ?_⟩
  obtain ⟨hdr, hmem, hload, hsegment⟩ := mem_loadSegments.mp
    (hsegments ▸ List.mem_cons_self : (⟨0x700000, 0x1000⟩ : UserRegion) ∈ _)
  refine laid.apart maxUserStack stackSize_maxUserStack hdr hmem hload 0x700000 ?_ hcovers
  rw [hsegment]
  decide

end BekOS
