import BekOS.Mm.ForkIsolation
import BekOS.Process.ElfRange

/-!
# What a program is loaded with

`load_into` with the bytes that it writes: zeros up to the first byte of the segment, what it reads
from the file, and zeros behind that to the end of the allocation.  The bytes are those of the
allocations, by physical address.
-/

namespace BekOS

/-! ## The functions -/

/-- `memset` -/
def memset (bytes : Memory Byte) (start : ℕ) (value : Byte) (n : ℕ) : Memory Byte :=
  copyRange bytes start (fun _ => value) 0 n

/-- The pages of a segment. -/
def ElfProgramHeader.pages (hdr : ElfProgramHeader) : UserRegion := hdr.segment.alignToPage

/-- Where the segment begins in its pages. -/
def ElfProgramHeader.regionStartOffset (hdr : ElfProgramHeader) : U64 :=
  hdr.virtualAddress - hdr.pages.start

/-- What is in front of the segment is cleared. -/
def ElfProgramHeader.clearHead (hdr : ElfProgramHeader) (allocation : BackingRegion)
    (bytes : Memory Byte) : Memory Byte :=
  if hdr.regionStartOffset ≠ 0 then
    memset bytes allocation.physicalPtr.toNat 0 hdr.regionStartOffset.toNat
  else bytes

/-- So is what is behind the bytes of the file. -/
def ElfProgramHeader.clearTail (hdr : ElfProgramHeader) (allocation : BackingRegion)
    (bytes : Memory Byte) : Memory Byte :=
  let filled := hdr.regionStartOffset + hdr.fileSize
  if filled < allocation.size then
    memset bytes (allocation.physicalPtr.toNat + filled.toNat) 0 (allocation.size - filled).toNat
  else bytes

/-- How `load_into` populates the allocation of a segment; `leftover` is what a read that fails has
put into the buffer. -/
def ElfFile.populate (elf : ElfFile) (leftover : Memory Byte) (hdr : ElfProgramHeader)
    (allocation : BackingRegion) (bytes : Memory Byte) : Memory Byte × Except ErrorCode Unit :=
  let bytes := hdr.clearHead allocation bytes
  let buffer := allocation.physicalPtr.toNat + hdr.regionStartOffset.toNat
  match elf.file.readBytes hdr.offset.toNat hdr.fileSize.toNat with
  | .error code => (copyRange bytes buffer leftover 0 hdr.fileSize.toNat, .error code)
  | .ok read =>
      let bytes := copyRange bytes buffer read.1 0 (min read.2 hdr.fileSize.toNat)
      if read.2 < hdr.fileSize.toNat then (bytes, .error ErrorCode.EIO)
      else (hdr.clearTail allocation bytes, .ok ())

section Load

variable {σ : Type} (source : TableSource σ)

/-- `load_into`, with the bytes. -/
def ElfFile.loadIntoBytes (elf : ElfFile) (leftover : ElfProgramHeader → Memory Byte) :
    List ElfProgramHeader → SpaceManager σ → Memory Byte → ℕ →
      Except Fault ((SpaceManager σ × Memory Byte) × Except ErrorCode Unit)
  | [], space, bytes, _ => .ok ((space, bytes), .ok ())
  | hdr :: rest, space, bytes, object =>
      if hdr.type ≠ ptLoad ∨ hdr.memorySize = 0 then
        elf.loadIntoBytes leftover rest space bytes object
      else do
        let (space, region) ← allocatePlacedRegion source space hdr.pages hdr.operations
          (createRegionName elf.file.name hdr.operations) object
        match region with
        | .error code => .ok ((space, bytes), .error code)
        | .ok allocation =>
            let populated := elf.populate (leftover hdr) hdr allocation bytes
            match populated.2 with
            | .error code => .ok ((space, populated.1), .error code)
            | .ok _ => elf.loadIntoBytes leftover rest space populated.1 (object + 1)

end Load

theorem ElfFile.populate_result (elf : ElfFile) (leftover : Memory Byte) (hdr : ElfProgramHeader)
    (allocation : BackingRegion) (bytes : Memory Byte) :
    (elf.populate leftover hdr allocation bytes).2 =
      match elf.file.readBytes hdr.offset.toNat hdr.fileSize.toNat with
      | .error code => .error code
      | .ok read => if read.2 < hdr.fileSize.toNat then .error ErrorCode.EIO else .ok () := by
  unfold populate
  dsimp only
  cases elf.file.readBytes hdr.offset.toNat hdr.fileSize.toNat with
  | error code => rfl
  | ok read =>
      dsimp only
      split_ifs
      · rfl
      · rfl

theorem ElfFile.loadIntoBytes_space {σ : Type} {source : TableSource σ} (elf : ElfFile)
    (leftover : ElfProgramHeader → Memory Byte) (headers : List ElfProgramHeader)
    (space : SpaceManager σ) (bytes : Memory Byte) (object : ℕ) :
    (elf.loadIntoBytes source leftover headers space bytes object).map
        (fun out => (out.1.1, out.2)) = elf.loadInto source headers space object := by
  induction headers generalizing space bytes object with
  | nil => rfl
  | cons hdr rest ih =>
      rw [loadIntoBytes, loadInto]
      split_ifs with hskip
      · exact ih _ _ _
      · show Except.map _ (Except.bind (allocatePlacedRegion source space hdr.pages hdr.operations
          (createRegionName elf.file.name hdr.operations) object) _) =
            Except.bind (allocatePlacedRegion source space hdr.pages hdr.operations
              (createRegionName elf.file.name hdr.operations) object) _
        cases allocatePlacedRegion source space hdr.pages hdr.operations
            (createRegionName elf.file.name hdr.operations) object with
        | error fault => rfl
        | ok placed =>
            obtain ⟨placed, answer⟩ := placed
            cases answer with
            | error code => rfl
            | ok allocation =>
                simp only [Except.bind, elf.populate_result]
                cases elf.file.readBytes hdr.offset.toNat hdr.fileSize.toNat with
                | error code => rfl
                | ok read =>
                    dsimp only
                    split_ifs
                    · rfl
                    · exact ih _ _ _

/-! ## A segment -/

/-- What `parse_file` has checked of a segment. -/
structure ElfProgramHeader.Checked (hdr : ElfProgramHeader) (size : U64) : Prop where
  virtualAddress : hdr.virtualAddress < userAddrMax
  memorySize : hdr.memorySize < userAddrMax
  sum : hdr.virtualAddress + hdr.memorySize < userAddrMax
  file : hdr.offset + hdr.fileSize ≤ size
  fileSize : hdr.fileSize ≤ hdr.memorySize

/-- **The loop of `parse_file`** checks each segment. -/
theorem checkProgramHeaders_checked {size : U64} {headers : List ElfProgramHeader} :
    ∀ {range out : Option UserRegion}, checkProgramHeaders size headers range = .ok out →
      ∀ hdr ∈ headers, hdr.type = ptLoad → hdr.Checked size := by
  induction headers with
  | nil => exact fun _ hdr hmem => absurd hmem List.not_mem_nil
  | cons first rest ih =>
      intro range out h
      rw [checkProgramHeaders] at h
      split_ifs at h with hload hbounds hoffset hfile hinterp
      · refine List.forall_mem_cons.mpr ⟨fun _ => ?_, ih h⟩
        obtain ⟨hva, hbounds⟩ := not_or.mp hbounds
        obtain ⟨hms, hsum⟩ := not_or.mp hbounds
        exact ⟨BitVec.not_le.mp hva, BitVec.not_le.mp hms, BitVec.not_le.mp hsum,
          BitVec.not_lt.mp hoffset, BitVec.not_lt.mp hfile⟩
      · exact List.forall_mem_cons.mpr ⟨fun hsame => absurd hsame hload, ih h⟩

section Segment

variable {hdr : ElfProgramHeader} {size : U64}

theorem ElfProgramHeader.Checked.limit_lt (checked : hdr.Checked size) :
    hdr.virtualAddress.toNat + hdr.memorySize.toNat < userAddrMax.toNat := by
  have hva := BitVec.lt_def.mp checked.virtualAddress
  have hms := BitVec.lt_def.mp checked.memorySize
  have hsum := BitVec.lt_def.mp checked.sum
  have hmax : userAddrMax.toNat = 2 ^ 48 - 1 := rfl
  rw [BitVec.toNat_add, Nat.mod_eq_of_lt (by omega)] at hsum
  exact hsum

theorem ElfProgramHeader.Checked.low (checked : hdr.Checked size) : hdr.segment.Low := by
  have hlimit := checked.limit_lt
  have hmax : userAddrMax.toNat = 2 ^ 48 - 1 := rfl
  show hdr.virtualAddress.toNat + hdr.memorySize.toNat < 2 ^ 48
  omega

theorem ElfProgramHeader.Checked.pages (checked : hdr.Checked size) :
    hdr.pages.start.toNat = hdr.virtualAddress.toNat / 4096 * 4096 ∧
      hdr.pages.size.toNat = (hdr.virtualAddress.toNat % 4096 + hdr.memorySize.toNat + 4095) /
        4096 * 4096 ∧
      hdr.regionStartOffset.toNat = hdr.virtualAddress.toNat % 4096 ∧
      (hdr.regionStartOffset + hdr.fileSize).toNat =
        hdr.virtualAddress.toNat % 4096 + hdr.fileSize.toNat := by
  have hlow := checked.low
  obtain ⟨hstart, hlimit⟩ := hlow.toNat_alignToPage
  have hfile := BitVec.le_def.mp checked.fileSize
  have hsegment : hdr.segment.limit = hdr.virtualAddress.toNat + hdr.memorySize.toNat := rfl
  have hpages : hdr.pages.limit = hdr.pages.start.toNat + hdr.pages.size.toNat := rfl
  have hva : hdr.segment.start = hdr.virtualAddress := rfl
  unfold UserRegion.Low at hlow
  rw [hva] at hstart
  have hoffset : hdr.regionStartOffset.toNat = hdr.virtualAddress.toNat % 4096 := by
    have hle : hdr.pages.start ≤ hdr.virtualAddress := by
      rw [BitVec.le_def, ElfProgramHeader.pages, hstart]
      omega
    rw [regionStartOffset, BitVec.toNat_sub_of_le hle, ElfProgramHeader.pages, hstart]
    omega
  refine ⟨hstart, ?_, hoffset, ?_⟩
  · rw [ElfProgramHeader.pages] at hpages ⊢
    omega
  · rw [BitVec.toNat_add, hoffset, Nat.mod_eq_of_lt (by omega)]

theorem ElfProgramHeader.Checked.pageAligned (checked : hdr.Checked size) :
    hdr.pages.pageAligned = true := by
  obtain ⟨hstart, hsize, -⟩ := checked.pages
  rw [UserRegion.pageAligned_iff]
  omega

variable {elf : ElfFile} {leftover bytes : Memory Byte} {allocation : BackingRegion}

theorem BackingRegion.copyRange_outside {start n : ℕ} {src : Memory Byte} {address : ℕ}
    (hlow : allocation.physicalPtr.toNat ≤ start)
    (hhigh : start + n ≤ allocation.physicalPtr.toNat + allocation.size.toNat)
    (h : ¬ allocation.Holds address) : copyRange bytes start src 0 n address = bytes address := by
  unfold Holds at h
  exact copyRange_of_not_mem (by omega)

/-- **Only the allocation is written to**, whatever the read does. -/
theorem ElfFile.populate_outside (checked : hdr.Checked size)
    (hsize : allocation.size = hdr.pages.size) {address : ℕ} (h : ¬ allocation.Holds address) :
    (elf.populate leftover hdr allocation bytes).1 address = bytes address := by
  obtain ⟨-, hpages, hoffset, hfilled⟩ := checked.pages
  have hfile := BitVec.le_def.mp checked.fileSize
  rw [← hsize] at hpages
  have hhead : hdr.clearHead allocation bytes address = bytes address := by
    unfold ElfProgramHeader.clearHead
    split_ifs
    · exact BackingRegion.copyRange_outside le_rfl (by omega) h
    · rfl
  have hread : ∀ {src : Memory Byte} {n : ℕ}, n ≤ hdr.fileSize.toNat →
      copyRange (hdr.clearHead allocation bytes)
        (allocation.physicalPtr.toNat + hdr.regionStartOffset.toNat) src 0 n address =
          bytes address := by
    intro src n hn
    exact (BackingRegion.copyRange_outside (Nat.le_add_right _ _) (by omega) h).trans hhead
  unfold populate
  dsimp only
  cases elf.file.readBytes hdr.offset.toNat hdr.fileSize.toNat with
  | error code => exact hread le_rfl
  | ok read =>
      dsimp only
      split_ifs with hshort
      · exact hread (min_le_right _ _)
      · show hdr.clearTail allocation _ address = _
        unfold ElfProgramHeader.clearTail
        split_ifs with htail
        · have hle := BitVec.le_of_lt htail
          refine (BackingRegion.copyRange_outside (Nat.le_add_right _ _) ?_ h).trans
            (hread (min_le_right _ _))
          rw [BitVec.toNat_sub_of_le hle]
          have := BitVec.le_def.mp hle
          omega
        · exact hread (min_le_right _ _)

theorem ElfProgramHeader.clearHead_apply (j : ℕ) :
    hdr.clearHead allocation bytes (allocation.physicalPtr.toNat + j) =
      if j < hdr.regionStartOffset.toNat then 0 else bytes (allocation.physicalPtr.toNat + j) := by
  unfold clearHead memset
  by_cases hzero : hdr.regionStartOffset = 0
  · rw [if_neg (not_not.mpr hzero), hzero]
    exact (if_neg (Nat.not_lt_zero _)).symm
  · rw [if_pos hzero]
    split_ifs with hlt
    · exact copyRange_of_mem (Nat.le_add_right _ _) (by omega)
    · exact copyRange_of_not_mem (by omega)

theorem ElfProgramHeader.clearTail_apply {j : ℕ} (hj : j < allocation.size.toNat) :
    hdr.clearTail allocation bytes (allocation.physicalPtr.toNat + j) =
      if j < (hdr.regionStartOffset + hdr.fileSize).toNat then
        bytes (allocation.physicalPtr.toNat + j)
      else 0 := by
  unfold clearTail memset
  by_cases hless : hdr.regionStartOffset + hdr.fileSize < allocation.size
  · rw [if_pos hless, BitVec.toNat_sub_of_le (BitVec.le_of_lt hless)]
    have hless' := BitVec.lt_def.mp hless
    split_ifs with hlt
    · exact copyRange_of_not_mem (by omega)
    · exact copyRange_of_mem (by omega) (by omega)
  · have hle := BitVec.le_def.mp (BitVec.not_lt.mp hless)
    rw [if_neg hless, if_pos (by omega)]

/-- **What the allocation holds**: the bytes of the file where the segment is, and zeros. -/
theorem ElfFile.populate_image (checked : hdr.Checked size) {read : Memory Byte × ℕ}
    (hread : elf.file.readBytes hdr.offset.toNat hdr.fileSize.toNat = .ok read)
    (hlength : hdr.fileSize.toNat ≤ read.2) {j : ℕ} (hj : j < allocation.size.toNat) :
    (elf.populate leftover hdr allocation bytes).1 (allocation.physicalPtr.toNat + j) =
      if hdr.regionStartOffset.toNat ≤ j ∧ j < hdr.regionStartOffset.toNat + hdr.fileSize.toNat then
        read.1 (j - hdr.regionStartOffset.toNat)
      else 0 := by
  obtain ⟨-, -, hoffset, hfilled⟩ := checked.pages
  rw [← hoffset] at hfilled
  unfold populate
  dsimp only
  rw [hread]
  dsimp only
  rw [if_neg (not_lt.mpr hlength), min_eq_right hlength]
  show hdr.clearTail allocation _ _ = _
  rw [ElfProgramHeader.clearTail_apply hj, hfilled]
  by_cases htail : j < hdr.regionStartOffset.toNat + hdr.fileSize.toNat
  · rw [if_pos htail]
    by_cases hhead : hdr.regionStartOffset.toNat ≤ j
    · rw [if_pos ⟨hhead, htail⟩, copyRange_of_mem (by omega) (by omega), Nat.zero_add,
        Nat.add_sub_add_left]
    · rw [if_neg fun h => hhead h.1, copyRange_of_not_mem (by omega),
        ElfProgramHeader.clearHead_apply, if_pos (not_le.mp hhead)]
  · rw [if_neg htail, if_neg fun h => htail h.2]

end Segment

/-! ## The segments of a file -/

theorem allocatePlacedRegion_placed {σ : Type} {source : TableSource σ}
    {space out : SpaceManager σ} {region : UserRegion} {operations : MemoryOperation}
    {name : String} {object : ℕ} {allocation : BackingRegion}
    (haligned : region.pageAligned = true)
    (h : allocatePlacedRegion source space region operations name object =
      .ok (out, .ok allocation)) :
    allocation.size = region.size ∧ allocation.object = object ∧
      ∃ idx ≤ space.regions.length,
        out.regions = space.regions.insertIdx idx ⟨region, allocation, name, operations⟩ := by
  rcases allocatePlacedRegion_cases h with ⟨-, hnone⟩ |
    ⟨page, pageAllocator, backing, placed, answer, -, -, hsize, hobject, hplace, hout⟩
  · cases hnone
  rcases hout with ⟨code, -, hnone, -⟩ | ⟨placedAt, rfl, heq, rfl⟩
  · cases hnone
  cases heq
  refine ⟨hsize, hobject, ?_⟩
  rcases (placeRegion_inserts hplace).2 with ⟨⟨code, hnone⟩, -⟩ | ⟨idx, hidx, hregions⟩
  · cases hnone
  refine ⟨idx, hidx, ?_⟩
  have hceil : ceilDiv region.size pageSize * pageSize = region.size := by
    have hpages := ((UserRegion.pageAligned_iff _).mp haligned).2
    have hlt := region.size.isLt
    rw [← BitVec.toNat_inj, BitVec.toNat_mul, toNat_ceilDiv_pageSize (by omega), toNat_pageSize]
    omega
  rw [hregions, placedRegion, desiredRegion, hsize, hceil]
  rfl

theorem allocatePlacedRegion_subset {σ : Type} {source : TableSource σ}
    {space out : SpaceManager σ} {region : UserRegion} {operations : MemoryOperation}
    {name : String} {object : ℕ} {result : Except ErrorCode BackingRegion}
    (h : allocatePlacedRegion source space region operations name object = .ok (out, result)) :
    space.regions ⊆ out.regions := by
  rcases allocatePlacedRegion_cases h with ⟨rfl, -⟩ |
    ⟨page, pageAllocator, backing, placed, answer, -, -, -, -, hplace, hout⟩
  · exact List.Subset.refl _
  have hsubset : space.regions ⊆ placed.regions := by
    rcases (placeRegion_inserts hplace).2 with ⟨-, hsame⟩ | ⟨idx, hidx, hregions⟩
    · rw [hsame]
      exact List.Subset.refl _
    · rw [hregions]
      exact fun region hregion => (List.mem_insertIdx hidx).mpr (Or.inr hregion)
  rcases hout with ⟨code, -, -, rfl⟩ | ⟨placedAt, -, -, rfl⟩
  · exact hsubset
  · exact hsubset

/-- What is to hold of a segment's header, and of what is written for it. -/
structure ElfFile.Bounded (elf : ElfFile) : Prop where
  file : ∀ hdr ∈ elf.programHeaders, hdr.type = ptLoad →
    hdr.offset.toNat + hdr.fileSize.toNat ≤ elf.file.size.toNat
  memory : ∀ hdr ∈ elf.programHeaders, hdr.type = ptLoad →
    hdr.fileSize.toNat ≤ hdr.memorySize.toNat ∧
      hdr.virtualAddress.toNat + hdr.memorySize.toNat < userAddrMax.toNat
  populates : ∀ hdr ∈ elf.programHeaders, hdr.type = ptLoad → ∀ leftover allocation bytes address,
    allocation.size = hdr.pages.size → ¬ allocation.Holds address →
      (elf.populate leftover hdr allocation bytes).1 address = bytes address
  writes : ∀ {σ : Type} (source : TableSource σ) leftover space bytes object out bytes' result,
    elf.loadIntoBytes source leftover elf.programHeaders space bytes object =
        .ok ((out, bytes'), result) →
      ∀ address, bytes' address ≠ bytes address →
        ∃ hdr ∈ elf.programHeaders, hdr.type = ptLoad ∧ ∃ region ∈ out.regions,
          region.userRegion = hdr.pages ∧ object ≤ region.backing.object ∧
            region.backing.Holds address

section Writes

variable {σ : Type} {source : TableSource σ} {elf : ElfFile} {size : U64}
  {leftover : ElfProgramHeader → Memory Byte} {space out : SpaceManager σ}
  {bytes bytes' : Memory Byte} {object : ℕ} {result : Except ErrorCode Unit}

theorem ElfFile.loadIntoBytes_subset {headers : List ElfProgramHeader}
    (h : elf.loadIntoBytes source leftover headers space bytes object =
      .ok ((out, bytes'), result)) : space.regions ⊆ out.regions := by
  induction headers generalizing space bytes object with
  | nil =>
      cases h
      exact List.Subset.refl _
  | cons hdr rest ih =>
      rw [loadIntoBytes] at h
      split_ifs at h with hskip
      · exact ih h
      obtain ⟨⟨placed, answer⟩, hplace, h⟩ := bind_eq_ok.mp h
      have hplaced := allocatePlacedRegion_subset hplace
      cases answer with
      | error code =>
          cases h
          exact hplaced
      | ok allocation =>
          dsimp only at h
          split at h
          · cases h
            exact hplaced
          · exact List.Subset.trans hplaced (ih h)

/-- **The loop of the loader** writes only where it has placed a region. -/
theorem ElfFile.loadIntoBytes_writes {headers : List ElfProgramHeader}
    (checked : ∀ hdr ∈ headers, hdr.type = ptLoad → hdr.Checked size)
    (h : elf.loadIntoBytes source leftover headers space bytes object =
      .ok ((out, bytes'), result)) {address : ℕ} (hne : bytes' address ≠ bytes address) :
    ∃ hdr ∈ headers, hdr.type = ptLoad ∧ ∃ region ∈ out.regions,
      region.userRegion = hdr.pages ∧ object ≤ region.backing.object ∧
        region.backing.Holds address := by
  induction headers generalizing space bytes object with
  | nil =>
      cases h
      exact absurd rfl hne
  | cons hdr rest ih =>
      obtain ⟨hchecked, hrest⟩ := List.forall_mem_cons.mp checked
      rw [loadIntoBytes] at h
      split_ifs at h with hskip
      · obtain ⟨other, hother, hwritten⟩ := ih hrest h hne
        exact ⟨other, List.mem_cons_of_mem _ hother, hwritten⟩
      have hload : hdr.type = ptLoad := not_not.mp fun hnot => hskip (Or.inl hnot)
      obtain ⟨⟨placed, answer⟩, hplace, h⟩ := bind_eq_ok.mp h
      cases answer with
      | error code =>
          cases h
          exact absurd rfl hne
      | ok allocation =>
          obtain ⟨hsize, hobject, idx, hidx, hregions⟩ :=
            allocatePlacedRegion_placed (hchecked hload).pageAligned hplace
          have hlisted : (⟨hdr.pages, allocation, createRegionName elf.file.name hdr.operations,
              hdr.operations⟩ : UserspaceRegion) ∈ placed.regions := by
            rw [hregions]
            exact (List.mem_insertIdx hidx).mpr (Or.inl rfl)
          -- Either this segment wrote there, or one of the others did.
          by_cases hholds : allocation.Holds address
          · suffices hout : (⟨hdr.pages, allocation, createRegionName elf.file.name hdr.operations,
                hdr.operations⟩ : UserspaceRegion) ∈ out.regions from
              ⟨hdr, List.mem_cons_self, hload, _, hout, rfl, hobject.ge, hholds⟩
            dsimp only at h
            split at h
            · cases h
              exact hlisted
            · exact loadIntoBytes_subset h hlisted
          · have hsame : (elf.populate (leftover hdr) hdr allocation bytes).1 address =
                bytes address := ElfFile.populate_outside (hchecked hload) hsize hholds
            dsimp only at h
            split at h
            · cases h
              exact absurd hsame hne
            · obtain ⟨other, hother, hload', region, hregion, hpages, hle, hwritten⟩ :=
                ih hrest h (by rwa [hsame])
              exact ⟨other, List.mem_cons_of_mem _ hother, hload', region, hregion, hpages,
                (Nat.le_succ _).trans hle, hwritten⟩

end Writes

/-- **When a file is loaded within its bounds**: no segment's place in the file wraps around. -/
theorem ElfFile.bounded_iff {file : ExecutableFile} {elf : ElfFile}
    (h : ElfFile.parseFile file = .ok elf) :
    elf.Bounded ↔ ∀ hdr ∈ elf.programHeaders, hdr.type = ptLoad →
      hdr.offset.toNat + hdr.fileSize.toNat < 2 ^ 64 := by
  obtain ⟨rfl, hcheck⟩ := ElfFile.parseFile_checks h
  have checked := checkProgramHeaders_checked hcheck
  constructor
  · intro bounded hdr hmem hload
    exact (bounded.file hdr hmem hload).trans_lt elf.file.size.isLt
  · intro hsums
    refine ⟨fun hdr hmem hload => ?_, fun hdr hmem hload => ?_, ?_, ?_⟩
    · have hfile := BitVec.le_def.mp (checked hdr hmem hload).file
      rwa [BitVec.toNat_add, Nat.mod_eq_of_lt (hsums hdr hmem hload)] at hfile
    · exact ⟨BitVec.le_def.mp (checked hdr hmem hload).fileSize, (checked hdr hmem hload).limit_lt⟩
    · intro hdr hmem hload leftover allocation bytes address hsize
      exact ElfFile.populate_outside (checked hdr hmem hload) hsize
    · intro σ source leftover space bytes object out bytes' result hload address hne
      exact ElfFile.loadIntoBytes_writes checked hload hne

theorem ElfFile.bounded_twoSegments :
    ∃ elf, ElfFile.parseFile (twoSegments 0x40 0x70) = .ok elf ∧ elf.Bounded := by
  have hvalue : (ElfFile.parseFile (twoSegments 0x40 0x70)).toOption.map
      (fun elf => elf.programHeaders.all fun hdr =>
        hdr.offset.toNat + hdr.fileSize.toNat < 2 ^ 64) = some true := by decide +kernel
  obtain ⟨elf, helf, hsums⟩ := Option.map_eq_some_iff.mp hvalue
  have hparse := toOption_eq_some.mp helf
  refine ⟨elf, hparse, (ElfFile.bounded_iff hparse).mpr fun hdr hmem _ => ?_⟩
  exact of_decide_eq_true (List.all_eq_true.mp hsums hdr hmem)

/-- A file whose segment begins a page below the end of the address space. -/
def wrappingSegment : ExecutableFile where
  name := "init"
  size := 0x1000
  readBytes offset n := .ok (fun i => (List.lookup (offset + i)
    [(0, 0x7F), (1, 0x45), (2, 0x4C), (3, 0x46), (4, 2), (5, 1), (16, 2), (18, 0xB7), (26, 0x40),
      (32, 64), (54, 56), (56, 1), (64, 1), (68, 5), (73, 0xF0), (74, 0xFF), (75, 0xFF),
      (76, 0xFF), (77, 0xFF), (78, 0xFF), (79, 0xFF), (82, 0x40), (97, 0x10), (105, 0x10)]).getD 0,
    n)

/-- It is accepted, and its bytes are not in the file. -/
theorem ElfFile.bounded_fails : ∃ elf, ElfFile.parseFile wrappingSegment = .ok elf ∧
    (∃ hdr ∈ elf.programHeaders, hdr.type = ptLoad ∧ hdr.offset = 0xFFFFFFFFFFFFF000 ∧
      hdr.fileSize = 0x1000 ∧ elf.file.size = 0x1000) ∧ ¬ elf.Bounded := by
  have hvalue : (ElfFile.parseFile wrappingSegment).toOption.map
      (fun elf => (elf.programHeaders.map fun hdr => (hdr.type, hdr.offset, hdr.fileSize),
        elf.file.size)) = some ([(ptLoad, 0xFFFFFFFFFFFFF000, 0x1000)], 0x1000) := by
    decide +kernel
  obtain ⟨elf, helf, heq⟩ := Option.map_eq_some_iff.mp hvalue
  obtain ⟨hheaders, hsize⟩ := Prod.mk.inj heq
  have hfirst : (ptLoad, 0xFFFFFFFFFFFFF000, 0x1000) ∈
      elf.programHeaders.map fun hdr => (hdr.type, hdr.offset, hdr.fileSize) := by
    rw [hheaders]
    exact List.mem_cons_self
  obtain ⟨hdr, hmem, hhdr⟩ := List.mem_map.mp hfirst
  obtain ⟨hload, hsegment⟩ := Prod.mk.inj hhdr
  obtain ⟨hoffset, hfileSize⟩ := Prod.mk.inj hsegment
  refine ⟨elf, toOption_eq_some.mp helf, ⟨hdr, hmem, hload, hoffset, hfileSize, hsize⟩,
    fun bounded => ?_⟩
  have hfile := bounded.file hdr hmem hload
  rw [hoffset, hfileSize, hsize] at hfile
  exact absurd hfile (by decide)

end BekOS
