import BekOS.Peripherals.RegionMapping

/-!
# The addresses of devices

The `dma-ranges` of a node say where its own addresses are in those of its parent, and the `ranges`
of each bus above where these are in the next.  `get_dma_to_phys_ranges` composes them: each range
so far is cut with each range of the next level.

An array of ranges is gone through by views of what is left of it, which come to their end only if
the bytes are whole entries.
-/

namespace BekOS.DeviceTree

/-! ## Going through an array -/

/-- The loop over an array from an iterator on, for so many steps. -/
def RangeArray.collect (array : RangeArray) :
    ℕ → List Byte → Option (Except Fault (List Range))
  | 0, remainingRange => if remainingRange.length = 0 then some (.ok []) else none
  | steps + 1, remainingRange =>
      if remainingRange.length = 0 then some (.ok [])
      else
        match array.dereference remainingRange with
        | .error fault => some (.error fault)
        | .ok range =>
            if array.stride ≤ remainingRange.length then
              (array.collect steps (remainingRange.drop array.stride)).map (·.map (range :: ·))
            else some (.error .panic)

/-- The loop takes as many steps as the array has entries, and fails at none. -/
def RangeArray.Iterates (array : RangeArray) : Prop :=
  ∃ ranges, ranges.length = array.size ∧ ∀ steps,
    array.collect steps array.wholeRange =
      if array.size ≤ steps then some (.ok ranges) else none

/-- The entries; each step takes bytes, so that there are enough steps. -/
def RangeArray.entries (array : RangeArray) : Except Fault (List Range) :=
  (array.collect array.wholeRange.length array.wholeRange).getD (.error .outOfBounds)

section Iterate

variable {cells : Cells} {bytes : List Byte} {node : Node} {parent : Option Node}

theorem stride_arrayOf (cells : Cells) (whole : List Byte) :
    (arrayOf cells whole).stride = cells.stride := by
  unfold RangeArray.stride Cells.stride arrayOf
  dsimp only
  omega

theorem length_decodeRanges (cells : Cells) (count : ℕ) (bytes : List Byte) :
    (decodeRanges cells count bytes).length = count := by
  induction count generalizing bytes with
  | zero => rfl
  | succ count ih => rw [decodeRanges, List.length_cons, ih]

/-- **Whole entries** are gone through one after the other. -/
theorem collect_eq (hsmall : cells.Small) (hpos : 0 < cells.stride) (whole : List Byte) {count : ℕ}
    (hlength : bytes.length = count * cells.stride) (steps : ℕ) :
    (arrayOf cells whole).collect steps bytes =
      if count ≤ steps then some (.ok (decodeRanges cells count bytes)) else none := by
  induction count generalizing bytes steps with
  | zero =>
      rw [Nat.zero_mul] at hlength
      rw [if_pos (Nat.zero_le steps)]
      cases steps <;> exact if_pos hlength
  | succ count ih =>
      rw [Nat.succ_mul] at hlength
      cases steps with
      | zero =>
          rw [RangeArray.collect, if_neg (by omega), if_neg (Nat.not_succ_le_zero count)]
      | succ steps =>
          have hrest : (bytes.drop cells.stride).length = count * cells.stride := by
            rw [List.length_drop]
            omega
          rw [RangeArray.collect, if_neg (by omega), dereference_eq hsmall whole (by omega)]
          dsimp only
          rw [stride_arrayOf, if_pos (by omega), ih hrest]
          by_cases hsteps : count ≤ steps
          · rw [if_pos hsteps, if_pos (Nat.succ_le_succ hsteps)]
            rfl
          · rw [if_neg hsteps, if_neg fun h => hsteps (Nat.le_of_succ_le_succ h)]
            rfl

/-- **The loop comes to its end** only through whole entries. -/
theorem length_of_collect {array : RangeArray} {steps : ℕ} {ranges : List Range}
    (h : array.collect steps bytes = some (.ok ranges)) :
    bytes.length = ranges.length * array.stride := by
  induction steps generalizing bytes ranges with
  | zero =>
      rw [RangeArray.collect] at h
      split_ifs at h with hnil
      cases h
      rw [hnil, List.length_nil, Nat.zero_mul]
  | succ steps ih =>
      rw [RangeArray.collect] at h
      split_ifs at h with hnil
      · cases h
        rw [hnil, List.length_nil, Nat.zero_mul]
      · split at h
        · cases h
        · rename_i range hrange
          obtain ⟨result, hcollect, hresult⟩ := Option.map_eq_some_iff.mp h
          obtain ⟨rest, hrest, rfl⟩ := map_eq_ok.mp hresult
          subst hrest
          have hlength := ih hcollect
          rw [List.length_drop] at hlength
          rw [List.length_cons, Nat.succ_mul]
          omega
      · split at h <;> cases h

theorem getPropertyU32_eq_ok {name : List Byte} {out : Option ℕ}
    (h : getPropertyU32 node name = .ok out) : out = (node.getProperty name).map beNat := by
  unfold getPropertyU32 at h
  cases hproperty : node.getProperty name with
  | none =>
      rw [hproperty] at h
      cases h
      rfl
  | some data =>
      rw [hproperty] at h
      dsimp only at h
      split_ifs at h with hlength
      rw [getAtBe_of_le (by omega), List.drop_zero, List.take_of_length_le hlength.le] at h
      cases h
      rfl

theorem cells_of_getPropertyU32 {name : List Byte} {default count : ℕ}
    (h : (getPropertyU32 node name).map (·.getD default) = .ok count) :
    count = cellsOf node name default := by
  obtain ⟨out, hout, rfl⟩ := map_eq_ok.mp h
  rw [getPropertyU32_eq_ok hout]
  rfl

theorem cells_of_parentAddrCells {count : ℕ} (h : parentAddrCells parent = .ok count) :
    count = (rangeCells node parent).parent := by
  cases parent with
  | none =>
      cases h
      rfl
  | some above => exact cells_of_getPropertyU32 h

/-- The name of a property of ranges. -/
def rangesName (dmaRanges : Bool) : List Byte :=
  bytesOf (if dmaRanges then "dma-ranges" else "ranges")

/-- What `get_ranges` returns, if it returns: the bytes of the property, and the cells of the tree,
which are not all of no size. -/
theorem getRanges_eq_ok {dmaRanges : Bool} {result : Option RangeArray}
    (h : getRanges node parent dmaRanges = .ok result) :
    result = (node.getProperty (rangesName dmaRanges)).map (arrayOf (rangeCells node parent)) ∧
      (result ≠ none → 0 < (rangeCells node parent).stride) := by
  unfold getRanges at h
  unfold rangesName
  cases hproperty : node.getProperty (bytesOf (if dmaRanges then "dma-ranges" else "ranges")) with
  | none =>
      rw [hproperty] at h
      cases h
      exact ⟨rfl, fun h => absurd rfl h⟩
  | some buffer =>
      rw [hproperty] at h
      dsimp only at h
      obtain ⟨child, hchild, h⟩ := bind_eq_ok.mp h
      obtain ⟨size, hsize, h⟩ := bind_eq_ok.mp h
      obtain ⟨above, habove, h⟩ := bind_eq_ok.mp h
      rw [cells_of_getPropertyU32 hchild, cells_of_getPropertyU32 hsize,
        @cells_of_parentAddrCells node _ _ habove] at h
      split_ifs at h with hzero hmod
      cases h
      refine ⟨rfl, fun _ => Nat.pos_of_ne_zero fun hstride => hzero ?_⟩
      have hsum : (rangeCells node parent).parent + (rangeCells node parent).child +
          (rangeCells node parent).size = 0 := by
        unfold Cells.stride at hstride
        omega
      exact congrArg (· % 2 ^ 32) hsum

theorem small_iff (cells : Cells) (whole : List Byte) :
    (arrayOf cells whole).canDereferenceIterator = true ↔ cells.Small := by
  unfold RangeArray.canDereferenceIterator arrayOf Cells.Small
  rw [decide_eq_true_iff]
  tauto

/-- **Going through an array** that `get_ranges` returns takes as many steps as it has entries if
its bytes are whole entries: it is the count of the cells that `get_ranges` makes sure of. -/
theorem iterates_iff {dmaRanges : Bool} {array : RangeArray}
    (h : getRanges node parent dmaRanges = .ok (some array))
    (hsmall : array.canDereferenceIterator = true) :
    array.Iterates ↔ 4 * (array.parentCells + array.childCells + array.sizeCells) ∣
      array.wholeRange.length := by
  obtain ⟨harray, hpos⟩ := getRanges_eq_ok h
  replace hpos := hpos (Option.some_ne_none array)
  obtain ⟨buffer, -, rfl⟩ := Option.map_eq_some_iff.mp harray.symm
  have hstride : 4 * ((arrayOf (rangeCells node parent) buffer).parentCells +
      (arrayOf (rangeCells node parent) buffer).childCells +
      (arrayOf (rangeCells node parent) buffer).sizeCells) =
        (arrayOf (rangeCells node parent) buffer).stride := Nat.mul_comm _ _
  rw [hstride]
  constructor
  · rintro ⟨ranges, -, hsteps⟩
    have hend := hsteps (arrayOf (rangeCells node parent) buffer).size
    rw [if_pos le_rfl] at hend
    exact Dvd.intro_left _ (length_of_collect hend).symm
  · rintro ⟨count, hcount⟩
    rw [stride_arrayOf] at hcount
    have hlength : buffer.length = count * (rangeCells node parent).stride :=
      hcount.trans (Nat.mul_comm _ _)
    have hsize : (arrayOf (rangeCells node parent) buffer).size = count := by
      unfold RangeArray.size
      rw [stride_arrayOf]
      exact Nat.div_eq_of_eq_mul_left hpos hlength
    refine ⟨decodeRanges (rangeCells node parent) count buffer, ?_, fun steps => ?_⟩
    · rw [length_decodeRanges, hsize]
    · rw [hsize]
      exact collect_eq ((small_iff _ _).mp hsmall) hpos buffer hlength steps

end Iterate

theorem iterates_socBus : ∃ array, getRanges socBus (some boardRoot) false = .ok (some array) ∧
    array.canDereferenceIterator = true ∧ array.Iterates := by
  have harray : getRanges socBus (some boardRoot) false = .ok (some (arrayOf ⟨1, 1, 1⟩
      (beBytes 4 0x7E000000 ++ beBytes 4 0x3F000000 ++ beBytes 4 0x1000000))) := by
    decide +kernel
  exact ⟨_, harray, by decide, (iterates_iff harray (by decide)).mpr (by decide +kernel)⟩

/-- The cells of an entry are four, and so are the bytes of its `ranges`. -/
def truncatedBus : Node where
  name := bytesOf "soc"
  properties := [⟨addressCellsTag, beBytes 4 2⟩, ⟨sizeCellsTag, beBytes 4 1⟩,
    ⟨bytesOf "ranges", beBytes 4 0x7E000000⟩]

theorem iterates_fails : ∃ array,
    getRanges truncatedBus (some boardRoot) false = .ok (some array) ∧
      array.canDereferenceIterator = true ∧
      array.collect 1 array.wholeRange = some (.error .panic) ∧ ¬ array.Iterates := by
  have harray : getRanges truncatedBus (some boardRoot) false =
      .ok (some (arrayOf ⟨2, 1, 1⟩ (beBytes 4 0x7E000000))) := by
    decide +kernel
  have hcollect : (arrayOf ⟨2, 1, 1⟩ (beBytes 4 0x7E000000)).collect 1 (beBytes 4 0x7E000000) =
      some (.error .panic) := by
    decide +kernel
  refine ⟨_, harray, by decide, hcollect, ?_⟩
  rintro ⟨ranges, -, hsteps⟩
  have hone := hsteps 1
  rw [show (arrayOf ⟨2, 1, 1⟩ (beBytes 4 0x7E000000)).wholeRange = beBytes 4 0x7E000000 from rfl,
    hcollect] at hone
  split_ifs at hone
  cases hone

/-! ## Composing the levels -/

/-- `IDENTITY_MAPPING`; the last byte is not in it. -/
def identityMapping : Range := ⟨0, 0, 2 ^ 64 - 1⟩

/-- `apply_range` -/
def applyRange (lower upper : Range) : Range :=
  let midStart := max lower.parentAddress upper.childAddress
  let midEnd := min ((lower.parentAddress + lower.size) % 2 ^ 64)
    ((upper.childAddress + upper.size) % 2 ^ 64)
  if midEnd ≤ midStart then ⟨0, 0, 0⟩
  else
    ⟨(lower.childAddress + (midStart - lower.parentAddress)) % 2 ^ 64,
      (upper.parentAddress + (midStart - upper.childAddress)) % 2 ^ 64, midEnd - midStart⟩

/-- The loops over the ranges so far and over those of the next level. -/
def applyLevel (nextRangeArr : RangeArray) : List Range → Except Fault (List Range)
  | [] => .ok []
  | range :: rest => do
      let nextRanges ← nextRangeArr.entries
      let newRanges ← applyLevel nextRangeArr rest
      return (nextRanges.map (applyRange range)).filter (·.size ≠ 0) ++ newRanges

/-- The loop in `get_dma_to_phys_ranges` over the ancestors. -/
def mapUp : List Node → List Range → Except Fault (List Range)
  | [], currentRanges => .ok currentRanges
  | [_], currentRanges => .ok currentRanges
  | ancestor :: next :: rest, currentRanges => do
      match ← getRanges ancestor (some next) false with
      | none => return []
      | some nextRangeArr =>
          if !nextRangeArr.canDereferenceIterator then return []
          else if nextRangeArr.size = 0 then mapUp (next :: rest) currentRanges
          else
            let newRanges ← applyLevel nextRangeArr currentRanges
            if newRanges = [] then return [] else mapUp (next :: rest) newRanges

/-- `get_dma_to_phys_ranges` -/
def getDmaToPhysRanges (node : Node) (ancestors : List Node) : Except Fault (List Range) :=
  if ancestors = [] then .ok [identityMapping]
  else do
    match ← getRanges node ancestors.head? true with
    | none => mapUp ancestors [identityMapping]
    | some rangeArr =>
        if !rangeArr.canDereferenceIterator then return []
        else if rangeArr.size = 0 then mapUp ancestors [identityMapping]
        else
          let currentRanges ← rangeArr.entries
          mapUp ancestors currentRanges

/-! ## What the ranges are to be -/

/-- An address is taken to another by a range. -/
def Range.Maps (range : Range) (child parent : ℕ) : Prop :=
  range.childAddress ≤ child ∧ child < range.childAddress + range.size ∧
    parent = range.parentAddress + (child - range.childAddress)

/-- An address is taken to another by one of some ranges. -/
def RangesMap (ranges : List Range) (child parent : ℕ) : Prop :=
  ∃ range ∈ ranges, range.Maps child parent

/-- The entries of the `dma-ranges` of a node. -/
def dmaRangesOf (node : Node) (parent : Option Node) : List Range :=
  ((node.getProperty (rangesName true)).map fun bytes => decodeRanges (rangeCells node parent)
    (bytes.length / (rangeCells node parent).stride) bytes).getD []

/-- The `dma-ranges` of a node; all addresses but the last are their own if there are none. -/
def DmaMaps (node : Node) (parent : Option Node) (child above : ℕ) : Prop :=
  if dmaRangesOf node parent = [] then child < 2 ^ 64 - 1 ∧ above = child
  else RangesMap (dmaRangesOf node parent) child above

/-- The `ranges` of a bus: nothing if it has none that can be used, and the identity if they are
empty. -/
def BusMaps (node : Node) (parent : Option Node) (child above : ℕ) : Prop :=
  match usableRanges node parent with
  | none => False
  | some ranges => if ranges = [] then above = child else RangesMap ranges child above

/-- The `ranges` of all ancestors below the root, one after the other. -/
def MapsToRoot : List Node → ℕ → ℕ → Prop
  | ancestor :: next :: rest => Relation.Comp (BusMaps ancestor (some next)) (MapsToRoot (next :: rest))
  | _ => Eq

/-- **The addresses** that a device has for the memory. -/
def DmaToPhys (node : Node) (ancestors : List Node) : ℕ → ℕ → Prop :=
  Relation.Comp (DmaMaps node ancestors.head?) (MapsToRoot ancestors)

/-- No range of the ancestors below the root wraps. -/
def NoWraps : List Node → Prop
  | ancestor :: next :: rest =>
      (∀ ranges ∈ usableRanges ancestor (some next), ∀ range ∈ ranges, range.NoWrap) ∧
        NoWraps (next :: rest)
  | _ => True

/-- All ancestors below the root have ranges that can be used. -/
def AllUsable : List Node → Prop
  | ancestor :: next :: rest =>
      (usableRanges ancestor (some next)).isSome = true ∧ AllUsable (next :: rest)
  | _ => True

/-! ## Exactness -/

section Compose

variable {lower upper : Range} {child parent : ℕ}

/-- **One range after another** is the range that `apply_range` returns. -/
theorem applyRange_spec (hlower : lower.NoWrap) (hupper : upper.NoWrap) :
    (applyRange lower upper).NoWrap ∧
      ((applyRange lower upper).Maps child parent ↔
        ∃ middle, lower.Maps child middle ∧ upper.Maps middle parent) := by
  obtain ⟨hlowerChild, hlowerParent⟩ := hlower
  obtain ⟨hupperChild, hupperParent⟩ := hupper
  unfold applyRange
  rw [Nat.mod_eq_of_lt hlowerParent, Nat.mod_eq_of_lt hupperChild]
  have hstart := le_max_left lower.parentAddress upper.childAddress
  have hstart' := le_max_right lower.parentAddress upper.childAddress
  have hend := min_le_left (lower.parentAddress + lower.size) (upper.childAddress + upper.size)
  have hend' := min_le_right (lower.parentAddress + lower.size) (upper.childAddress + upper.size)
  have hbetween : ∀ middle, lower.parentAddress ≤ middle → upper.childAddress ≤ middle →
      middle < lower.parentAddress + lower.size → middle < upper.childAddress + upper.size →
        max lower.parentAddress upper.childAddress ≤ middle ∧
          middle < min (lower.parentAddress + lower.size) (upper.childAddress + upper.size) :=
    fun middle h h' hlt hlt' => ⟨max_le h h', lt_min hlt hlt'⟩
  dsimp only
  generalize max lower.parentAddress upper.childAddress = midStart at *
  generalize min (lower.parentAddress + lower.size) (upper.childAddress + upper.size) = midEnd at *
  split_ifs with hnone
  · refine ⟨⟨by decide, by decide⟩, iff_of_false (fun h => absurd h.2.1 (by dsimp only; omega)) ?_⟩
    rintro ⟨middle, ⟨hchild, hlt, rfl⟩, hmiddle, hlt', -⟩
    have := hbetween _ (Nat.le_add_right _ _) hmiddle (by omega) hlt'
    omega
  · rw [Nat.mod_eq_of_lt (by omega), Nat.mod_eq_of_lt (by omega)]
    refine ⟨⟨by dsimp only; omega, by dsimp only; omega⟩, ?_⟩
    unfold Range.Maps
    dsimp only
    constructor
    · rintro ⟨hchild, hlt, rfl⟩
      refine ⟨lower.parentAddress + (child - lower.childAddress), ⟨?_, ?_, rfl⟩, ?_, ?_, ?_⟩
      all_goals omega
    · rintro ⟨middle, ⟨hchild, hlt, rfl⟩, hmiddle, hlt', rfl⟩
      have := hbetween _ (Nat.le_add_right _ _) hmiddle (by omega) hlt'
      omega

theorem not_maps_of_size {range : Range} (h : range.size = 0) : ¬ range.Maps child parent := by
  rintro ⟨hle, hlt, -⟩
  omega

/-- The ranges so far, each cut with each of the next level. -/
theorem applyLevel_spec {array : RangeArray} {next current new : List Range}
    (hentries : array.entries = .ok next) (hnext : ∀ range ∈ next, range.NoWrap)
    (hcurrent : ∀ range ∈ current, range.NoWrap) (h : applyLevel array current = .ok new) :
    (∀ range ∈ new, range.NoWrap) ∧
      (RangesMap new child parent ↔
        ∃ middle, RangesMap current child middle ∧ RangesMap next middle parent) := by
  induction current generalizing new with
  | nil =>
      cases h
      exact ⟨List.forall_mem_nil _, iff_of_false (fun ⟨_, h, _⟩ => by cases h)
        fun ⟨_, ⟨_, h, _⟩, _⟩ => by cases h⟩
  | cons range rest ih =>
      obtain ⟨hrange, hrest⟩ := List.forall_mem_cons.mp hcurrent
      rw [applyLevel, hentries] at h
      obtain ⟨others, hothers, h⟩ := bind_eq_ok.mp (show (applyLevel array rest >>= _) = _ from h)
      cases h
      obtain ⟨hnoWrap, hmaps⟩ := ih hrest hothers
      constructor
      · intro new hnew
        rcases List.mem_append.mp hnew with hhere | hthere
        · obtain ⟨upper, hupper, rfl⟩ := List.mem_map.mp (List.mem_filter.mp hhere).1
          exact (@applyRange_spec _ _ 0 0 hrange (hnext upper hupper)).1
        · exact hnoWrap new hthere
      · constructor
        · rintro ⟨new, hnew, hmap⟩
          rcases List.mem_append.mp hnew with hhere | hthere
          · obtain ⟨upper, hupper, rfl⟩ := List.mem_map.mp (List.mem_filter.mp hhere).1
            obtain ⟨middle, hlower, hupperMap⟩ :=
              (applyRange_spec hrange (hnext upper hupper)).2.mp hmap
            exact ⟨middle, ⟨range, List.mem_cons_self, hlower⟩, upper, hupper, hupperMap⟩
          · obtain ⟨middle, ⟨lower, hlower, hlowerMap⟩, hupper⟩ := hmaps.mp ⟨new, hthere, hmap⟩
            exact ⟨middle, ⟨lower, List.mem_cons_of_mem _ hlower, hlowerMap⟩, hupper⟩
        · rintro ⟨middle, ⟨lower, hlower, hlowerMap⟩, upper, hupper, hupperMap⟩
          rcases List.mem_cons.mp hlower with rfl | hlower'
          · have hmap := (applyRange_spec hrange (hnext upper hupper)).2.mpr
              ⟨middle, hlowerMap, hupperMap⟩
            refine ⟨applyRange lower upper, List.mem_append_left _ (List.mem_filter.mpr
              ⟨List.mem_map_of_mem hupper, ?_⟩), hmap⟩
            exact decide_eq_true fun hsize => not_maps_of_size hsize hmap
          · obtain ⟨new, hnew, hmap⟩ := hmaps.mpr
              ⟨middle, ⟨lower, hlower', hlowerMap⟩, upper, hupper, hupperMap⟩
            exact ⟨new, List.mem_append_right _ hnew, hmap⟩

/-! ## The whole composition -/

variable {cells : Cells} {bytes : List Byte} {node : Node} {ancestors : List Node}
  {ranges current : List Range}

theorem entries_eq_ok (hsmall : cells.Small) (hpos : 0 < cells.stride)
    (h : (arrayOf cells bytes).entries = .ok ranges) :
    ranges = decodeRanges cells (bytes.length / cells.stride) bytes := by
  unfold RangeArray.entries at h
  cases hcollect : (arrayOf cells bytes).collect bytes.length bytes with
  | none =>
      rw [show (arrayOf cells bytes).wholeRange = bytes from rfl, hcollect] at h
      cases h
  | some result =>
      rw [show (arrayOf cells bytes).wholeRange = bytes from rfl, hcollect] at h
      cases h
      have hlength := length_of_collect hcollect
      rw [stride_arrayOf] at hlength
      have hranges := collect_eq hsmall hpos bytes hlength bytes.length
      rw [hcollect] at hranges
      split_ifs at hranges
      rw [hlength, Nat.mul_div_cancel _ hpos]
      exact Except.ok.inj (Option.some.inj hranges)

theorem decodeRanges_eq_nil_iff {count : ℕ} : decodeRanges cells count bytes = [] ↔ count = 0 := by
  rw [← List.length_eq_zero_iff, length_decodeRanges]

theorem rangesMap_identity :
    RangesMap [identityMapping] child parent ↔ child < 2 ^ 64 - 1 ∧ parent = child := by
  unfold RangesMap Range.Maps identityMapping
  constructor
  · rintro ⟨range, hrange, -, hlt, heq⟩
    cases List.mem_singleton.mp hrange
    exact ⟨by simpa using hlt, by simpa using heq⟩
  · rintro ⟨hlt, rfl⟩
    exact ⟨_, List.mem_singleton_self _, Nat.zero_le _, by simpa using hlt, by simp⟩

theorem not_rangesMap_nil : ¬ RangesMap [] child parent := fun ⟨_, h, _⟩ => by cases h

theorem getRanges_level {dmaRanges : Bool} {above : Option Node} {result : Option RangeArray}
    (h : getRanges node above dmaRanges = .ok result) :
    (node.getProperty (rangesName dmaRanges) = none ∧ result = none) ∨
    (∃ bytes array, node.getProperty (rangesName dmaRanges) = some bytes ∧ result = some array ∧
      (array.canDereferenceIterator = true ↔ (rangeCells node above).Small) ∧
      (array.size = 0 ↔ decodeRanges (rangeCells node above)
        (bytes.length / (rangeCells node above).stride) bytes = []) ∧
      ((rangeCells node above).Small → ∀ entries, array.entries = .ok entries →
        entries = decodeRanges (rangeCells node above)
          (bytes.length / (rangeCells node above).stride) bytes)) := by
  obtain ⟨rfl, hpos⟩ := getRanges_eq_ok h
  cases hproperty : node.getProperty (rangesName dmaRanges) with
  | none => exact Or.inl ⟨rfl, rfl⟩
  | some bytes =>
      rw [hproperty] at hpos
      refine Or.inr ⟨bytes, _, rfl, rfl, small_iff _ _, ?_, fun hsmall entries hentries => ?_⟩
      · rw [decodeRanges_eq_nil_iff, RangeArray.size, stride_arrayOf]
        rfl
      · exact entries_eq_ok hsmall (hpos (Option.some_ne_none _)) hentries

theorem usableRanges_eq {bus : Node} {above : Option Node} :
    usableRanges bus above = (bus.getProperty (rangesName false)).bind fun bytes =>
      if (rangeCells bus above).Small then
        some (decodeRanges (rangeCells bus above)
          (bytes.length / (rangeCells bus above).stride) bytes)
      else none :=
  rfl

theorem applyLevel_maps {array : RangeArray} {next new : List Range}
    (hentries : ∀ entries, array.entries = .ok entries → entries = next)
    (hnext : ∀ range ∈ next, range.NoWrap) (hcurrent : ∀ range ∈ current, range.NoWrap)
    (h : applyLevel array current = .ok new) :
    (∀ range ∈ new, range.NoWrap) ∧ ∀ child parent, RangesMap new child parent ↔
      ∃ middle, RangesMap current child middle ∧ RangesMap next middle parent := by
  cases current with
  | nil =>
      cases h
      exact ⟨List.forall_mem_nil _, fun _ _ => iff_of_false not_rangesMap_nil
        fun ⟨_, h, _⟩ => not_rangesMap_nil h⟩
  | cons range rest =>
      obtain ⟨entries, hok, -⟩ := bind_eq_ok.mp (show (array.entries >>= _) = .ok new from h)
      rw [hentries entries hok] at hok
      exact ⟨(@applyLevel_spec 0 0 _ _ _ _ hok hnext hcurrent h).1,
        fun _ _ => (applyLevel_spec hok hnext hcurrent h).2⟩

/-- **All levels** are applied one after the other. -/
theorem mapUp_spec (hancestors : NoWraps ancestors) (hcurrent : ∀ range ∈ current, range.NoWrap)
    (h : mapUp ancestors current = .ok ranges) :
    (RangesMap ranges child parent ↔
        ∃ middle, RangesMap current child middle ∧ MapsToRoot ancestors middle parent) ∧
      (¬ AllUsable ancestors → ranges = []) := by
  have hroot : ∀ {current}, (.ok current : Except Fault (List Range)) = .ok ranges →
      (RangesMap ranges child parent ↔
        ∃ middle, RangesMap current child middle ∧ middle = parent) := by
    rintro current ⟨⟩
    exact ⟨fun h => ⟨parent, h, rfl⟩, fun ⟨_, h, heq⟩ => heq ▸ h⟩
  induction ancestors generalizing current with
  | nil => exact ⟨hroot h, fun h => absurd trivial h⟩
  | cons ancestor above ih =>
      cases above with
      | nil => exact ⟨hroot h, fun h => absurd trivial h⟩
      | cons next rest =>
          obtain ⟨hhere, hrest⟩ := hancestors
          obtain ⟨result, hresult, h⟩ := bind_eq_ok.mp (show (getRanges ancestor (some next) false
            >>= _) = .ok ranges from h)
          -- Nothing is mapped where the level has no ranges that can be used.
          have hunusable : usableRanges ancestor (some next) = none → ranges = [] →
              (RangesMap ranges child parent ↔ ∃ middle, RangesMap current child middle ∧
                MapsToRoot (ancestor :: next :: rest) middle parent) ∧
              (¬ AllUsable (ancestor :: next :: rest) → ranges = []) := by
            rintro hnone rfl
            refine ⟨iff_of_false not_rangesMap_nil ?_, fun _ => rfl⟩
            rintro ⟨middle, -, other, hbus, -⟩
            unfold BusMaps at hbus
            rw [hnone] at hbus
            exact hbus
          have husable := @usableRanges_eq ancestor (some next)
          rcases getRanges_level hresult with ⟨hproperty, rfl⟩ |
            ⟨bytes, array, hproperty, rfl, hcan, hsize, hentries⟩
          · cases h
            rw [hproperty] at husable
            exact hunusable husable rfl
          · rw [hproperty, Option.bind_some] at husable
            dsimp only at h
            by_cases hsmall : (rangeCells ancestor (some next)).Small
            · rw [if_pos hsmall] at husable
              rw [hcan.mpr hsmall, if_neg (by decide)] at h
              replace hentries := hentries hsmall
              generalize decodeRanges (rangeCells ancestor (some next))
                (bytes.length / (rangeCells ancestor (some next)).stride) bytes = next' at *
              have hbus : ∀ middle other, BusMaps ancestor (some next) middle other ↔
                  if next' = [] then other = middle else RangesMap next' middle other := by
                intro middle other
                unfold BusMaps
                rw [husable]
              have hall : AllUsable (next :: rest) → AllUsable (ancestor :: next :: rest) :=
                fun hall => ⟨husable ▸ rfl, hall⟩
              by_cases hempty : next' = []
              · rw [if_pos (hsize.mpr hempty)] at h
                obtain ⟨hmaps, hunusableRest⟩ := ih hrest hcurrent h
                refine ⟨hmaps.trans (exists_congr fun middle => and_congr_right fun _ => ?_),
                  fun hnot => hunusableRest fun h => hnot (hall h)⟩
                show _ ↔ ∃ other, BusMaps ancestor (some next) middle other ∧ _
                simp only [hbus, if_pos hempty, exists_eq_left]
              · rw [if_neg fun h => hempty (hsize.mp h)] at h
                obtain ⟨new, hnew, h⟩ := bind_eq_ok.mp h
                obtain ⟨hnoWrap, hlevel⟩ :=
                  applyLevel_maps hentries (hhere next' husable) hcurrent hnew
                have hcomp : (∃ middle, RangesMap current child middle ∧
                    MapsToRoot (ancestor :: next :: rest) middle parent) ↔
                      ∃ above, RangesMap new child above ∧
                        MapsToRoot (next :: rest) above parent := by
                  show (∃ middle, _ ∧ ∃ above, BusMaps ancestor (some next) middle above ∧ _) ↔ _
                  simp only [hbus, if_neg hempty, hlevel]
                  constructor
                  · rintro ⟨middle, hmiddle, above, habove, hroot⟩
                    exact ⟨above, ⟨middle, hmiddle, habove⟩, hroot⟩
                  · rintro ⟨above, ⟨middle, hmiddle, habove⟩, hroot⟩
                    exact ⟨middle, hmiddle, above, habove, hroot⟩
                rw [hcomp]
                split_ifs at h with hnil
                · cases h
                  rw [hnil]
                  exact ⟨iff_of_false not_rangesMap_nil fun ⟨_, h, _⟩ => not_rangesMap_nil h,
                    fun _ => rfl⟩
                · obtain ⟨hmaps, hunusableRest⟩ := ih hrest hnoWrap h
                  exact ⟨hmaps, fun hnot => hunusableRest fun h => hnot (hall h)⟩
            · rw [if_neg hsmall] at husable
              rw [Bool.eq_false_iff.mpr fun h => hsmall (hcan.mp h)] at h
              cases h
              exact hunusable husable rfl

theorem dmaMaps_iff {above : Option Node} :
    DmaMaps node above child parent ↔
      RangesMap (if dmaRangesOf node above = [] then [identityMapping] else dmaRangesOf node above)
        child parent := by
  unfold DmaMaps
  split_ifs with hnil
  · exact rangesMap_identity.symm
  · exact Iff.rfl

theorem noWrap_identity : identityMapping.NoWrap := ⟨by decide, by decide⟩

/-- **The addresses of a device** are what the list that is returned says: those of its own
`dma-ranges`, taken through the `ranges` of all buses above it. -/
theorem getDmaToPhysRanges_exact (hne : ancestors ≠ [])
    (hsmall : (rangeCells node ancestors.head?).Small)
    (hdma : ∀ range ∈ dmaRangesOf node ancestors.head?, range.NoWrap)
    (hancestors : NoWraps ancestors)
    (h : getDmaToPhysRanges node ancestors = .ok ranges) :
    (∀ dma phys, RangesMap ranges dma phys ↔ DmaToPhys node ancestors dma phys) ∧
      (¬ AllUsable ancestors → ranges = []) := by
  have hnoWrap : ∀ range ∈ (if dmaRangesOf node ancestors.head? = [] then [identityMapping]
      else dmaRangesOf node ancestors.head?), range.NoWrap := by
    split_ifs with hnil
    · exact fun range hrange => List.mem_singleton.mp hrange ▸ noWrap_identity
    · exact hdma
  -- In every case it is the entries, or the identity, that are taken up.
  suffices hup : mapUp ancestors (if dmaRangesOf node ancestors.head? = [] then [identityMapping]
      else dmaRangesOf node ancestors.head?) = .ok ranges by
    refine ⟨fun dma phys => (mapUp_spec hancestors hnoWrap hup).1.trans ?_,
      (@mapUp_spec 0 0 _ _ _ hancestors hnoWrap hup).2⟩
    exact exists_congr fun middle => and_congr_left fun _ => dmaMaps_iff.symm
  rw [getDmaToPhysRanges, if_neg hne] at h
  obtain ⟨result, hresult, h⟩ := bind_eq_ok.mp h
  rcases getRanges_level hresult with ⟨hproperty, rfl⟩ |
    ⟨bytes, array, hproperty, rfl, hcan, hsize, hentries⟩
  · have hnil : dmaRangesOf node ancestors.head? = [] := by
      unfold dmaRangesOf
      rw [hproperty]
      rfl
    rw [if_pos hnil]
    exact h
  · have hdecode : dmaRangesOf node ancestors.head? =
        decodeRanges (rangeCells node ancestors.head?)
          (bytes.length / (rangeCells node ancestors.head?).stride) bytes := by
      unfold dmaRangesOf
      rw [hproperty]
      rfl
    replace hentries := hentries hsmall
    rw [← hdecode] at hsize hentries
    dsimp only at h
    rw [hcan.mpr hsmall, if_neg (by decide)] at h
    by_cases hempty : dmaRangesOf node ancestors.head? = []
    · rw [if_pos hempty]
      rwa [if_pos (hsize.mpr hempty)] at h
    · rw [if_neg hempty]
      rw [if_neg fun h => hempty (hsize.mp h)] at h
      obtain ⟨current, hcurrent, h⟩ := bind_eq_ok.mp h
      rwa [hentries current hcurrent] at h

/-! ## Trees that are well formed -/

/-- The `ranges` of all ancestors below the root are well formed. -/
def WellFormedLevels : List Node → Prop
  | ancestor :: next :: rest =>
      (∀ bytes ∈ ancestor.getProperty (rangesName false), WellFormed ancestor (some next) bytes) ∧
        WellFormedLevels (next :: rest)
  | _ => True

theorem entries_of_wellFormed {above : Option Node} (wellFormed : WellFormed node above bytes)
    (hcan : (arrayOf (rangeCells node above) bytes).canDereferenceIterator = true) :
    ∃ entries, (arrayOf (rangeCells node above) bytes).entries = .ok entries := by
  obtain ⟨count, hcount⟩ := wellFormed.whole
  have hlength : bytes.length = count * (rangeCells node above).stride :=
    hcount.trans (Nat.mul_comm _ _)
  have hcollect := collect_eq ((small_iff _ _).mp hcan) wellFormed.cells bytes hlength bytes.length
  rw [if_pos (by rw [hlength]; exact Nat.le_mul_of_pos_right _ wellFormed.cells)] at hcollect
  exact ⟨_, congrArg (Option.getD · _) hcollect⟩

theorem applyLevel_returns {array : RangeArray} {entries : List Range}
    (hentries : array.entries = .ok entries) (current : List Range) :
    ∃ new, applyLevel array current = .ok new := by
  induction current with
  | nil => exact ⟨[], rfl⟩
  | cons range rest ih =>
      obtain ⟨new, hnew⟩ := ih
      refine ⟨(entries.map (applyRange range)).filter (·.size ≠ 0) ++ new, ?_⟩
      rw [applyLevel, hentries, hnew]
      rfl

theorem mapUp_returns (wellFormed : WellFormedLevels ancestors) (current : List Range) :
    ∃ ranges, mapUp ancestors current = .ok ranges := by
  induction ancestors generalizing current with
  | nil => exact ⟨current, rfl⟩
  | cons ancestor above ih =>
      cases above with
      | nil => exact ⟨current, rfl⟩
      | cons next rest =>
          obtain ⟨hhere, hrest⟩ := wellFormed
          have hresult : getRanges ancestor (some next) false =
              .ok ((ancestor.getProperty (rangesName false)).map
                (arrayOf (rangeCells ancestor (some next)))) :=
            getRanges_of_wellFormed false hhere
          rw [mapUp, hresult, ok_bind]
          cases hproperty : ancestor.getProperty (rangesName false) with
          | none => exact ⟨[], rfl⟩
          | some bytes =>
              dsimp only [Option.map_some]
              by_cases hcan : (arrayOf (rangeCells ancestor (some next))
                  bytes).canDereferenceIterator = true
              · rw [hcan, if_neg (by decide)]
                split_ifs with hsize
                · exact ih hrest current
                · obtain ⟨entries, hentries⟩ :=
                    entries_of_wellFormed (hhere bytes hproperty) hcan
                  obtain ⟨new, hnew⟩ := applyLevel_returns hentries current
                  rw [hnew, ok_bind]
                  split_ifs with hnil
                  · exact ⟨[], rfl⟩
                  · exact ih hrest new
              · rw [Bool.eq_false_iff.mpr hcan]
                exact ⟨[], rfl⟩

theorem getDmaToPhysRanges_returns
    (hdma : ∀ bytes ∈ node.getProperty (rangesName true), WellFormed node ancestors.head? bytes)
    (hancestors : WellFormedLevels ancestors) :
    ∃ ranges, getDmaToPhysRanges node ancestors = .ok ranges := by
  unfold getDmaToPhysRanges
  split_ifs with hne
  · exact ⟨_, rfl⟩
  · have hresult : getRanges node ancestors.head? true =
        .ok ((node.getProperty (rangesName true)).map
          (arrayOf (rangeCells node ancestors.head?))) :=
      getRanges_of_wellFormed true hdma
    rw [hresult, ok_bind]
    cases hproperty : node.getProperty (rangesName true) with
    | none => exact mapUp_returns hancestors _
    | some bytes =>
        dsimp only [Option.map_some]
        by_cases hcan : (arrayOf (rangeCells node ancestors.head?)
            bytes).canDereferenceIterator = true
        · rw [hcan, if_neg (by decide)]
          split_ifs with hsize
          · exact mapUp_returns hancestors _
          · obtain ⟨entries, hentries⟩ := entries_of_wellFormed (hdma bytes hproperty) hcan
            rw [hentries, ok_bind]
            exact mapUp_returns hancestors entries
        · rw [Bool.eq_false_iff.mpr hcan]
          exact ⟨[], rfl⟩

end Compose

/-- A device on the bus of a board, whose addresses for the memory start at 0xC0000000. -/
def dmaDevice : Node where
  name := bytesOf "dma"
  properties := [⟨addressCellsTag, beBytes 4 1⟩, ⟨sizeCellsTag, beBytes 4 1⟩,
    ⟨bytesOf "dma-ranges", beBytes 4 0xC0000000 ++ beBytes 4 0x7E000000 ++ beBytes 4 0x40000000⟩]

theorem getDmaToPhysRanges_exact_board :
    (∀ dma phys, RangesMap [⟨0xC0000000, 0x3F000000, 0x1000000⟩] dma phys ↔
        DmaToPhys dmaDevice [socBus, boardRoot] dma phys) ∧
      (¬ AllUsable [socBus, boardRoot] → [⟨0xC0000000, 0x3F000000, 0x1000000⟩] = ([] : List Range)) := by
  refine getDmaToPhysRanges_exact (List.cons_ne_nil _ _) (by decide +kernel) ?_ ⟨?_, trivial⟩
    (by decide +kernel)
  · have hdecode : dmaRangesOf dmaDevice (some socBus) = [⟨0xC0000000, 0x7E000000, 0x40000000⟩] := by
      decide +kernel
    intro range hrange
    cases List.mem_singleton.mp (hdecode ▸ hrange)
    exact ⟨by decide, by decide⟩
  · have husable : usableRanges socBus (some boardRoot) =
        some [⟨0x7E000000, 0x3F000000, 0x1000000⟩] := by
      decide +kernel
    intro ranges hranges range hrange
    rw [husable] at hranges
    cases hranges
    cases List.mem_singleton.mp hrange
    exact ⟨by decide, by decide⟩

theorem getDmaToPhysRanges_returns_board :
    ∃ ranges, getDmaToPhysRanges dmaDevice [socBus, boardRoot] = .ok ranges := by
  have hdma : ∀ bytes ∈ dmaDevice.getProperty (rangesName true),
      (rangeCells dmaDevice (some socBus)).stride ∣ bytes.length := by decide +kernel
  have hbus : ∀ bytes ∈ socBus.getProperty (rangesName false),
      (rangeCells socBus (some boardRoot)).stride ∣ bytes.length := by decide +kernel
  refine getDmaToPhysRanges_returns (fun bytes hbytes => ?_) ⟨fun bytes hbytes => ?_, trivial⟩
  · refine ⟨?_, ?_, ?_, ?_, ?_, hdma bytes hbytes⟩ <;> decide +kernel
  · refine ⟨?_, ?_, ?_, ?_, ?_, hbus bytes hbytes⟩ <;> decide +kernel

end BekOS.DeviceTree
