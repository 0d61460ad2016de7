import BekOS.Peripherals.DeviceTree

/-!
# `map_region_to_root`

The registers of a device are regions in the address space of its parent, and the `ranges` of each
bus on the way to the root say where its address space is in the one above.  `imageToRoot` follows
the ranges of the ancestors.  `mapRegionToRoot` goes up as many levels, but looks at the `ranges`
of the node that it started from at each of them.
-/

namespace BekOS.DeviceTree

/-- `range_t` -/
structure Range where
  childAddress : ℕ
  parentAddress : ℕ
  size : ℕ
deriving DecidableEq, Repr

/-- `PhysicalRegion` -/
structure PhysicalRegion where
  start : ℕ
  size : ℕ
deriving DecidableEq, Repr

namespace PhysicalRegion

/-- `end` -/
def stop (region : PhysicalRegion) : ℕ := (region.start + region.size) % 2 ^ 64

/-- `contains` -/
def contains (region other : PhysicalRegion) : Bool :=
  decide (region.start ≤ other.start ∧ other.stop ≤ region.stop)

end PhysicalRegion

/-- `RangeArray` -/
structure RangeArray where
  wholeRange : List Byte
  parentCells : ℕ
  childCells : ℕ
  sizeCells : ℕ
deriving DecidableEq, Repr

namespace RangeArray

/-- The bytes of one entry. -/
def stride (array : RangeArray) : ℕ :=
  (array.parentCells + array.childCells + array.sizeCells) * 4

/-- `size` -/
def size (array : RangeArray) : ℕ := array.wholeRange.length / array.stride

/-- `can_dereference_iterator` -/
def canDereferenceIterator (array : RangeArray) : Bool :=
  decide (array.parentCells ≤ 2 ∧ array.childCells ≤ 2 ∧ array.sizeCells ≤ 2)

/-- `Iterator::operator*`, of the iterator with these bytes left. -/
def dereference (array : RangeArray) (remainingRange : List Byte) : Except Fault Range := do
  let childAddress ← readFromBuffer remainingRange 0 array.childCells
  let parentAddress ← readFromBuffer remainingRange childAddress.2 array.parentCells
  let size ← readFromBuffer remainingRange parentAddress.2 array.sizeCells
  return ⟨childAddress.1, parentAddress.1, size.1⟩

/-- The loop of `map_region_to_root` over the entries: where the region is in the parent's address
space, or `none` if no entry contains it. -/
def findMapping (array : RangeArray) (region : PhysicalRegion) :
    ℕ → List Byte → Except Fault (Option PhysicalRegion)
  | 0, _ => .ok none
  | fuel + 1, remainingRange =>
      if remainingRange.length = 0 then .ok none
      else do
        let range ← array.dereference remainingRange
        if (PhysicalRegion.mk range.childAddress range.size).contains region then
          return some ⟨(range.parentAddress + (region.start + 2 ^ 64 - range.childAddress)) % 2 ^ 64,
            region.size⟩
        else if array.stride ≤ remainingRange.length then
          array.findMapping region fuel (remainingRange.drop array.stride)
        else .error .panic

end RangeArray

/-- The count of cells in an address of the parent; the root has none. -/
def parentAddrCells (parent : Option Node) : Except Fault ℕ :=
  match parent with
  | none => .ok 2
  | some parent => (getPropertyU32 parent addressCellsTag).map (·.getD 2)

/-- `get_ranges`, of a node with this parent. -/
def getRanges (node : Node) (parent : Option Node) (dmaRanges : Bool) :
    Except Fault (Option RangeArray) :=
  match node.getProperty (bytesOf (if dmaRanges then "dma-ranges" else "ranges")) with
  | none => .ok none
  | some buffer => do
      let thisAddrCells ← (getPropertyU32 node addressCellsTag).map (·.getD 2)
      let sizeCells ← (getPropertyU32 node sizeCellsTag).map (·.getD 1)
      let parentAddrCells ← parentAddrCells parent
      let cells := (parentAddrCells + thisAddrCells + sizeCells) % 2 ^ 32
      if cells = 0 then .error .outOfBounds
      else if buffer.length % cells = 0 then
        .ok (some ⟨buffer, parentAddrCells, thisAddrCells, sizeCells⟩)
      else .error .panic

/-- One iteration of the loop in `map_region_to_root`. -/
def mapRegion (node : Node) (parent : Option Node) (region : PhysicalRegion) :
    Except Fault (Option PhysicalRegion) := do
  match ← getRanges node parent false with
  | none => return none
  | some rangeArr =>
      if !rangeArr.canDereferenceIterator then return none
      else if rangeArr.size = 0 then return some region
      else rangeArr.findMapping region rangeArr.wholeRange.length rangeArr.wholeRange

/-- The loop in `map_region_to_root`, from an ancestor on. -/
def mapLoop (node : Node) (parent : Option Node) :
    List Node → PhysicalRegion → Except Fault (Option PhysicalRegion)
  | [], region => .ok (some region)
  | [_], region => .ok (some region)
  | _ :: next :: rest, region => do
      match ← mapRegion node parent region with
      | none => return none
      | some region => mapLoop node parent (next :: rest) region

/-- `map_region_to_root` -/
def mapRegionToRoot (node : Node) (ancestors : List Node) (region : PhysicalRegion) :
    Except Fault (Option PhysicalRegion) :=
  mapLoop node ancestors.head? ancestors region

/-! ## The image under the ranges of the ancestors -/

namespace Range

/-- A region is in the range. -/
def Contains (range : Range) (region : PhysicalRegion) : Prop :=
  range.childAddress ≤ region.start ∧
    region.start + region.size ≤ range.childAddress + range.size
deriving Decidable

/-- Where a region of the range is in the parent's address space. -/
def translate (range : Range) (region : PhysicalRegion) : PhysicalRegion :=
  ⟨range.parentAddress + (region.start - range.childAddress), region.size⟩

/-- No address in the range wraps. -/
def NoWrap (range : Range) : Prop :=
  range.childAddress + range.size < 2 ^ 64 ∧ range.parentAddress + range.size < 2 ^ 64

end Range

/-- A count of cells, or what it is where there is none. -/
def cellsOf (node : Node) (name : List Byte) (default : ℕ) : ℕ :=
  ((node.getProperty name).map beNat).getD default

/-- The cells of an entry in the `ranges` of a node: its own address, its parent's, and the size. -/
structure Cells where
  child : ℕ
  parent : ℕ
  size : ℕ
deriving DecidableEq, Repr

/-- The bytes of one entry. -/
def Cells.stride (cells : Cells) : ℕ := 4 * (cells.child + cells.parent + cells.size)

/-- No number has more cells than there is room for. -/
def Cells.Small (cells : Cells) : Prop := cells.child ≤ 2 ∧ cells.parent ≤ 2 ∧ cells.size ≤ 2
deriving Decidable

/-- The cells of the entries of a node with this parent. -/
def rangeCells (node : Node) (parent : Option Node) : Cells where
  child := cellsOf node addressCellsTag 2
  parent := (parent.map fun parent => cellsOf parent addressCellsTag 2).getD 2
  size := cellsOf node sizeCellsTag 1

/-- The entries that the bytes of a `ranges` property have in them. -/
def decodeRanges (cells : Cells) : ℕ → List Byte → List Range
  | 0, _ => []
  | count + 1, bytes =>
      ⟨beNat (bytes.take (4 * cells.child)),
        beNat ((bytes.drop (4 * cells.child)).take (4 * cells.parent)),
        beNat ((bytes.drop (4 * cells.child + 4 * cells.parent)).take (4 * cells.size))⟩ ::
      decodeRanges cells count (bytes.drop cells.stride)

/-- The ranges of a node, if it has any that can be used. -/
def usableRanges (node : Node) (parent : Option Node) : Option (List Range) :=
  let cells := rangeCells node parent
  (node.getProperty (bytesOf "ranges")).bind fun bytes =>
    if cells.Small then some (decodeRanges cells (bytes.length / cells.stride) bytes) else none

/-- The image of a region under the ranges of a node; no ranges are the identity. -/
def image (node : Node) (parent : Option Node) (region : PhysicalRegion) : Option PhysicalRegion :=
  (usableRanges node parent).bind fun ranges =>
    if ranges = [] then some region
    else (ranges.find? fun range => range.Contains region).map fun range => range.translate region

/-- The image of a region under the ranges of all ancestors below the root. -/
def imageToRoot : List Node → PhysicalRegion → Option PhysicalRegion
  | [], region => some region
  | [_], region => some region
  | ancestor :: next :: rest, region =>
      (image ancestor (some next) region).bind fun region => imageToRoot (next :: rest) region

/-- The properties that go with the `ranges` of a node, these bytes, have the lengths that they are
to have: a count of cells is one cell, and the ranges are whole entries. -/
structure WellFormed (node : Node) (parent : Option Node) (ranges : List Byte) : Prop where
  address : ∀ bytes ∈ node.getProperty addressCellsTag, bytes.length = 4
  size : ∀ bytes ∈ node.getProperty sizeCellsTag, bytes.length = 4
  parentAddress : ∀ above ∈ parent, ∀ bytes ∈ above.getProperty addressCellsTag, bytes.length = 4
  cells : 0 < (rangeCells node parent).stride
  fits : (rangeCells node parent).stride < 4 * 2 ^ 32
  whole : (rangeCells node parent).stride ∣ ranges.length

/-- At each ancestor below the root, the node's own ranges take the region that has come so far
where the ranges of the ancestor take it. -/
def Agrees (node : Node) (parent : Option Node) : List Node → PhysicalRegion → Prop
  | ancestor :: next :: rest, region =>
      image node parent region = image ancestor (some next) region ∧
        ∀ moved ∈ image node parent region, Agrees node parent (next :: rest) moved
  | _, _ => True

/-! ## One level -/

section Level

variable {node : Node} {parent : Option Node} {region : PhysicalRegion}

theorem getAtBe_of_le {bytes : List Byte} {offset width : ℕ}
    (h : offset + width ≤ bytes.length) :
    getAtBe bytes offset width = .ok (beNat ((bytes.drop offset).take width)) := if_pos h

theorem readFromBuffer_eq {bytes : List Byte} {offset cells : ℕ} (hcells : cells ≤ 2)
    (h : offset + 4 * cells ≤ bytes.length) :
    readFromBuffer bytes offset cells =
      .ok (beNat ((bytes.drop offset).take (4 * cells)), offset + 4 * cells) := by
  have hcases : cells = 0 ∨ cells = 1 ∨ cells = 2 := by omega
  rcases hcases with rfl | rfl | rfl
  · rfl
  · rw [readFromBuffer, getAtBe_of_le h]
    rfl
  · rw [readFromBuffer, getAtBe_of_le h]
    rfl

theorem getPropertyU32_eq {name : List Byte}
    (h : ∀ bytes ∈ node.getProperty name, bytes.length = 4) :
    getPropertyU32 node name = .ok ((node.getProperty name).map beNat) := by
  unfold getPropertyU32
  cases hproperty : node.getProperty name with
  | none => rfl
  | some bytes =>
      have hlength := h bytes hproperty
      dsimp only
      rw [if_pos hlength, getAtBe_of_le (by omega), List.drop_zero, List.take_of_length_le hlength.le]
      rfl

theorem getPropertyU32_getD {name : List Byte} (default : ℕ)
    (h : ∀ bytes ∈ node.getProperty name, bytes.length = 4) :
    (getPropertyU32 node name).map (·.getD default) = .ok (cellsOf node name default) := by
  rw [getPropertyU32_eq h]
  rfl

/-- The array of these bytes, with cells as they are to be. -/
def arrayOf (cells : Cells) (bytes : List Byte) : RangeArray :=
  ⟨bytes, cells.parent, cells.child, cells.size⟩

variable {cells : Cells} {bytes : List Byte} {count : ℕ}

theorem dereference_eq (hsmall : cells.Small) (whole : List Byte)
    (hlength : cells.stride ≤ bytes.length) :
    (arrayOf cells whole).dereference bytes =
      .ok ⟨beNat (bytes.take (4 * cells.child)),
        beNat ((bytes.drop (4 * cells.child)).take (4 * cells.parent)),
        beNat ((bytes.drop (4 * cells.child + 4 * cells.parent)).take (4 * cells.size))⟩ := by
  obtain ⟨hchild, hparent, hsize⟩ := hsmall
  unfold Cells.stride at hlength
  unfold RangeArray.dereference arrayOf
  rw [readFromBuffer_eq hchild (by omega)]
  show (readFromBuffer bytes (0 + 4 * cells.child) cells.parent).bind _ = _
  rw [readFromBuffer_eq hparent (by omega)]
  show (readFromBuffer bytes (0 + 4 * cells.child + 4 * cells.parent) cells.size).bind _ = _
  rw [readFromBuffer_eq hsize (by omega), Nat.zero_add]
  rfl

theorem contains_iff {range : Range} (hrange : range.NoWrap)
    (hregion : region.start + region.size < 2 ^ 64) :
    (PhysicalRegion.mk range.childAddress range.size).contains region = true ↔
      range.Contains region := by
  unfold PhysicalRegion.contains PhysicalRegion.stop Range.Contains
  rw [decide_eq_true_iff, Nat.mod_eq_of_lt hregion, Nat.mod_eq_of_lt hrange.1]

theorem translate_eq {range : Range} (hrange : range.NoWrap) (h : range.Contains region) :
    (⟨(range.parentAddress + (region.start + 2 ^ 64 - range.childAddress)) % 2 ^ 64,
      region.size⟩ : PhysicalRegion) = range.translate region := by
  obtain ⟨hstart, hstop⟩ := h
  obtain ⟨-, hparent⟩ := hrange
  have hsum : range.parentAddress + (region.start + 2 ^ 64 - range.childAddress) =
      range.parentAddress + (region.start - range.childAddress) + 2 ^ 64 := by omega
  rw [hsum, Nat.add_mod_right, Nat.mod_eq_of_lt (by omega)]
  rfl

/-- **The search** finds the first entry that contains the region. -/
theorem findMapping_eq (hsmall : cells.Small) (hpos : 0 < cells.stride) (whole : List Byte)
    (hregion : region.start + region.size < 2 ^ 64) {fuel : ℕ} (hfuel : count ≤ fuel)
    (hlength : bytes.length = count * cells.stride)
    (hranges : ∀ range ∈ decodeRanges cells count bytes, range.NoWrap) :
    (arrayOf cells whole).findMapping region fuel bytes =
      .ok (((decodeRanges cells count bytes).find? fun range => range.Contains region).map
        fun range => range.translate region) := by
  have hstride : (arrayOf cells whole).stride = cells.stride := by
    unfold RangeArray.stride Cells.stride arrayOf
    dsimp only
    omega
  induction count generalizing fuel bytes with
  | zero =>
      rw [Nat.zero_mul] at hlength
      cases fuel with
      | zero => rfl
      | succ fuel =>
          rw [RangeArray.findMapping, if_pos hlength]
          rfl
  | succ count ih =>
      obtain ⟨fuel, rfl⟩ : ∃ less, fuel = less + 1 := ⟨fuel - 1, by omega⟩
      rw [Nat.succ_mul] at hlength
      obtain ⟨range, hrange⟩ : ∃ range : Range, range =
        ⟨beNat (bytes.take (4 * cells.child)),
          beNat ((bytes.drop (4 * cells.child)).take (4 * cells.parent)),
          beNat ((bytes.drop (4 * cells.child + 4 * cells.parent)).take (4 * cells.size))⟩ :=
        ⟨_, rfl⟩
      have hdecode : decodeRanges cells (count + 1) bytes =
          range :: decodeRanges cells count (bytes.drop cells.stride) := by
        rw [hrange]
        rfl
      rw [hdecode] at hranges ⊢
      have hnowrap := hranges range List.mem_cons_self
      rw [RangeArray.findMapping, if_neg (by omega), dereference_eq hsmall whole (by omega),
        ← hrange]
      show (if _ then _ else _) = _
      by_cases hin : range.Contains region
      · rw [if_pos ((contains_iff hnowrap hregion).mpr hin),
          List.find?_cons_of_pos (by simpa using hin), translate_eq hnowrap hin]
        rfl
      · rw [if_neg fun h => hin ((contains_iff hnowrap hregion).mp h),
          List.find?_cons_of_neg (by simpa using hin), if_pos (by rw [hstride]; omega), hstride]
        refine ih (by omega) ?_ fun other hother => hranges other (List.mem_cons_of_mem _ hother)
        rw [List.length_drop]
        omega

theorem parentAddrCells_eq (wellFormed : WellFormed node parent bytes) :
    parentAddrCells parent = .ok (rangeCells node parent).parent := by
  cases hparent : parent with
  | none => rfl
  | some above =>
      exact getPropertyU32_getD 2 (wellFormed.parentAddress above hparent)

/-- The array that `get_ranges` returns. -/
theorem getRanges_of_wellFormed (dmaRanges : Bool)
    (wellFormed : ∀ ranges ∈ node.getProperty (bytesOf (if dmaRanges then "dma-ranges"
      else "ranges")), WellFormed node parent ranges) :
    getRanges node parent dmaRanges =
      .ok ((node.getProperty (bytesOf (if dmaRanges then "dma-ranges" else "ranges"))).map
        (arrayOf (rangeCells node parent))) := by
  unfold getRanges
  cases hproperty : node.getProperty (bytesOf (if dmaRanges then "dma-ranges" else "ranges")) with
  | none => rfl
  | some buffer =>
      have wellFormed := wellFormed buffer hproperty
      have hcells := wellFormed.cells
      have hfits := wellFormed.fits
      have hsmall : (rangeCells node parent).parent + (rangeCells node parent).child +
          (rangeCells node parent).size < 2 ^ 32 := by
        unfold Cells.stride at hfits
        omega
      obtain ⟨count, hcount⟩ := wellFormed.whole
      have hmod : buffer.length % ((rangeCells node parent).parent +
          (rangeCells node parent).child + (rangeCells node parent).size) = 0 := by
        have hstride : (rangeCells node parent).stride = ((rangeCells node parent).parent +
            (rangeCells node parent).child + (rangeCells node parent).size) * 4 := by
          unfold Cells.stride
          omega
        rw [hcount, hstride, Nat.mul_assoc, Nat.mul_mod_right]
      have hne : (rangeCells node parent).parent + (rangeCells node parent).child +
          (rangeCells node parent).size ≠ 0 := by
        unfold Cells.stride at hcells
        omega
      dsimp only
      rw [getPropertyU32_getD 2 wellFormed.address, getPropertyU32_getD 1 wellFormed.size,
        parentAddrCells_eq wellFormed]
      show (if ((rangeCells node parent).parent + (rangeCells node parent).child +
        (rangeCells node parent).size) % 2 ^ 32 = 0 then _ else
          if buffer.length % (((rangeCells node parent).parent + (rangeCells node parent).child +
            (rangeCells node parent).size) % 2 ^ 32) = 0 then _ else _) = _
      rw [Nat.mod_eq_of_lt hsmall, if_neg hne, if_pos hmod]
      rfl

theorem getRanges_eq
    (wellFormed : ∀ ranges ∈ node.getProperty (bytesOf "ranges"), WellFormed node parent ranges) :
    getRanges node parent false =
      .ok ((node.getProperty (bytesOf "ranges")).map (arrayOf (rangeCells node parent))) :=
  getRanges_of_wellFormed false wellFormed

/-- **One level** of the walk takes the region where the node's own ranges take it. -/
theorem mapRegion_eq
    (wellFormed : ∀ ranges ∈ node.getProperty (bytesOf "ranges"), WellFormed node parent ranges)
    (hnowrap : ∀ ranges ∈ usableRanges node parent, ∀ range ∈ ranges, range.NoWrap)
    (hregion : region.start + region.size < 2 ^ 64) :
    mapRegion node parent region = .ok (image node parent region) := by
  unfold mapRegion image
  rw [getRanges_eq wellFormed]
  cases hproperty : node.getProperty (bytesOf "ranges") with
  | none =>
      rw [usableRanges, hproperty]
      rfl
  | some bytes =>
      obtain ⟨cells, hcells⟩ : ∃ cells, cells = rangeCells node parent := ⟨_, rfl⟩
      have hpos := (wellFormed bytes hproperty).cells
      obtain ⟨count, hcount⟩ := (wellFormed bytes hproperty).whole
      rw [← hcells] at hpos hcount ⊢
      have hdiv : bytes.length / cells.stride = count := by
        rw [hcount, Nat.mul_div_cancel_left _ hpos]
      have husable : usableRanges node parent =
          if cells.Small then some (decodeRanges cells count bytes) else none := by
        rw [usableRanges, hproperty, ← hdiv, hcells]
        rfl
      rw [husable] at hnowrap ⊢
      have hderef : (arrayOf cells bytes).canDereferenceIterator = decide cells.Small := by
        unfold RangeArray.canDereferenceIterator arrayOf Cells.Small
        exact decide_eq_decide.mpr and_left_comm
      have hsize : (arrayOf cells bytes).size = count := by
        have hstride : (arrayOf cells bytes).stride = cells.stride := by
          unfold RangeArray.stride Cells.stride arrayOf
          dsimp only
          omega
        rw [RangeArray.size, hstride]
        exact hdiv
      show (if !(arrayOf cells bytes).canDereferenceIterator then .ok none
        else if (arrayOf cells bytes).size = 0 then .ok (some region)
        else (arrayOf cells bytes).findMapping region bytes.length bytes) = _
      rw [hderef, hsize]
      by_cases hsmall : cells.Small
      · rw [if_pos hsmall] at hnowrap ⊢
        rw [decide_eq_true hsmall, Option.bind_some]
        have hranges := hnowrap _ rfl
        have hle : count ≤ bytes.length := by
          rw [hcount]
          exact Nat.le_mul_of_pos_left count hpos
        rw [findMapping_eq hsmall hpos bytes hregion hle (hcount.trans (Nat.mul_comm _ _)) hranges]
        cases count with
        | zero => rfl
        | succ count => rfl
      · rw [if_neg hsmall, decide_eq_false hsmall]
        rfl

theorem image_noWrap
    (hnowrap : ∀ ranges ∈ usableRanges node parent, ∀ range ∈ ranges, range.NoWrap)
    (hregion : region.start + region.size < 2 ^ 64) {moved : PhysicalRegion}
    (h : image node parent region = some moved) : moved.start + moved.size < 2 ^ 64 := by
  obtain ⟨ranges, hranges, hmoved⟩ := Option.bind_eq_some_iff.mp h
  split_ifs at hmoved
  · cases hmoved
    exact hregion
  · obtain ⟨range, hfind, rfl⟩ := Option.map_eq_some_iff.mp hmoved
    obtain ⟨-, hparent⟩ := hnowrap ranges hranges range (List.mem_of_find?_eq_some hfind)
    have hin := List.find?_some hfind
    obtain ⟨hstart, hstop⟩ : range.Contains region := of_decide_eq_true hin
    show range.parentAddress + (region.start - range.childAddress) + region.size < 2 ^ 64
    omega

end Level

/-! ## The walk -/

section Walk

variable {node : Node} {parent : Option Node}
  (wellFormed : ∀ ranges ∈ node.getProperty (bytesOf "ranges"), WellFormed node parent ranges)
  (hnowrap : ∀ ranges ∈ usableRanges node parent, ∀ range ∈ ranges, range.NoWrap)
include wellFormed hnowrap

theorem mapLoop_eq {ancestors : List Node} {region : PhysicalRegion}
    (hregion : region.start + region.size < 2 ^ 64) (agrees : Agrees node parent ancestors region) :
    mapLoop node parent ancestors region = .ok (imageToRoot ancestors region) := by
  induction ancestors generalizing region with
  | nil => rfl
  | cons ancestor above ih =>
      cases above with
      | nil => rfl
      | cons next rest =>
          obtain ⟨hsame, hrest⟩ := agrees
          rw [mapLoop, mapRegion_eq wellFormed hnowrap hregion, imageToRoot, ← hsame]
          cases himage : image node parent region with
          | none => rfl
          | some moved =>
              exact ih (image_noWrap hnowrap hregion himage) (hrest moved himage)

/-- Where the walks to each ancestor agree, so do the ranges. -/
theorem agrees_of_mapLoop {ancestors : List Node} {region : PhysicalRegion}
    (hregion : region.start + region.size < 2 ^ 64)
    (h : ∀ depth, mapLoop node parent (ancestors.take depth) region =
      .ok (imageToRoot (ancestors.take depth) region)) : Agrees node parent ancestors region := by
  induction ancestors generalizing region with
  | nil => trivial
  | cons ancestor above ih =>
      cases above with
      | nil => trivial
      | cons next rest =>
          have hstep := mapRegion_eq wellFormed hnowrap hregion
          have hsame : image node parent region = image ancestor (some next) region := by
            have hfirst := h 2
            rw [List.take_succ_cons, List.take_succ_cons, List.take_zero, mapLoop, imageToRoot,
              hstep] at hfirst
            cases hown : image node parent region with
            | none =>
                rw [hown] at hfirst
                cases himage : image ancestor (some next) region with
                | none => rfl
                | some moved =>
                    rw [himage] at hfirst
                    cases hfirst
            | some moved =>
                rw [hown] at hfirst
                cases himage : image ancestor (some next) region with
                | none =>
                    rw [himage] at hfirst
                    cases hfirst
                | some other =>
                    rw [himage] at hfirst
                    cases hfirst
                    rfl
          refine ⟨hsame, fun moved hmoved => ih (image_noWrap hnowrap hregion hmoved) fun depth => ?_⟩
          cases depth with
          | zero => rfl
          | succ depth =>
              have hnext := h (depth + 2)
              rw [List.take_succ_cons, List.take_succ_cons, mapLoop, imageToRoot, hstep, ← hsame,
                hmoved] at hnext
              exact hnext

end Walk

/-- **The region is mapped to the root** as the ranges of the ancestors say where the node's own
ranges agree with these; and where it is mapped so whichever of the ancestors is the root, they
agree. -/
theorem mapRegionToRoot_iff {node : Node} {ancestors : List Node} {region : PhysicalRegion}
    (wellFormed : ∀ ranges ∈ node.getProperty (bytesOf "ranges"),
      WellFormed node ancestors.head? ranges)
    (hnowrap : ∀ ranges ∈ usableRanges node ancestors.head?, ∀ range ∈ ranges, range.NoWrap)
    (hregion : region.start + region.size < 2 ^ 64) :
    (Agrees node ancestors.head? ancestors region →
        mapRegionToRoot node ancestors region = .ok (imageToRoot ancestors region)) ∧
      ((∀ depth, mapRegionToRoot node (ancestors.take depth) region =
          .ok (imageToRoot (ancestors.take depth) region)) →
        Agrees node ancestors.head? ancestors region) := by
  refine ⟨mapLoop_eq wellFormed hnowrap hregion, fun h => ?_⟩
  refine agrees_of_mapLoop wellFormed hnowrap hregion fun depth => ?_
  cases depth with
  | zero => rfl
  | succ depth =>
      have hdepth := h (depth + 1)
      cases ancestors with
      | nil => rfl
      | cons ancestor above => exact hdepth

/-- A bus that has its children's addresses 1 MiB further up. -/
def shiftedBus : Node where
  name := bytesOf "bus"
  properties := [⟨addressCellsTag, beBytes 4 1⟩, ⟨sizeCellsTag, beBytes 4 1⟩,
    ⟨bytesOf "ranges", beBytes 4 0 ++ beBytes 4 0x100000 ++ beBytes 4 0x80000000⟩]

/-- Three of them, one in the other. -/
def nestedBuses : List Node := [shiftedBus, shiftedBus, shiftedBus]

theorem mapRegionToRoot_iff_buses :
    (Agrees shiftedBus nestedBuses.head? nestedBuses ⟨0x40, 16⟩ →
        mapRegionToRoot shiftedBus nestedBuses ⟨0x40, 16⟩ =
          .ok (imageToRoot nestedBuses ⟨0x40, 16⟩)) ∧
      ((∀ depth, mapRegionToRoot shiftedBus (nestedBuses.take depth) ⟨0x40, 16⟩ =
          .ok (imageToRoot (nestedBuses.take depth) ⟨0x40, 16⟩)) →
        Agrees shiftedBus nestedBuses.head? nestedBuses ⟨0x40, 16⟩) := by
  refine mapRegionToRoot_iff ?_ ?_ ?_
  · intro ranges hranges
    have hbytes : ranges = beBytes 4 0 ++ beBytes 4 0x100000 ++ beBytes 4 0x80000000 :=
      (Option.some.inj (hranges : some _ = some ranges)).symm
    rw [hbytes]
    exact ⟨by decide +kernel, by decide +kernel, by decide +kernel, by decide +kernel,
      by decide +kernel, by decide +kernel⟩
  · intro ranges hranges range hrange
    have hdecode : usableRanges shiftedBus nestedBuses.head? =
        some [⟨0, 0x100000, 0x80000000⟩] := by decide +kernel
    rw [hdecode] at hranges
    cases hranges
    rw [List.mem_singleton.mp hrange]
    exact ⟨by decide, by decide⟩
  · decide

/-- The bus of a board, as in its device tree. -/
def socBus : Node where
  name := bytesOf "soc"
  properties := [⟨addressCellsTag, beBytes 4 1⟩, ⟨sizeCellsTag, beBytes 4 1⟩,
    ⟨bytesOf "ranges", beBytes 4 0x7E000000 ++ beBytes 4 0x3F000000 ++ beBytes 4 0x1000000⟩]

/-- The root of it. -/
def boardRoot : Node where
  name := []
  properties := [⟨addressCellsTag, beBytes 4 1⟩, ⟨sizeCellsTag, beBytes 4 1⟩]

/-- **A device on the bus** has no `ranges` of its own, and is not mapped at all. -/
theorem mapRegionToRoot_fails :
    mapRegionToRoot ⟨bytesOf "serial", []⟩ [socBus, boardRoot] ⟨0x7E201000, 0x200⟩ = .ok none ∧
      imageToRoot [socBus, boardRoot] ⟨0x7E201000, 0x200⟩ = some ⟨0x3F201000, 0x200⟩ := by
  decide +kernel

end BekOS.DeviceTree
