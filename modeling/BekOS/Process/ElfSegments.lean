import BekOS.Process.ElfLoading

/-!
# What the pages of a program hold

A program whose segments are loaded finds the bytes of the file at their addresses, and zeros at
all others of the same pages, whatever the pages held before.  No page has addresses of two
segments.
-/

namespace BekOS

open Function

/-! ## What the program is to find -/

/-- A user program may read: `EL0Access` is set. -/
def Translation.userReadable (translation : Translation) : Bool :=
  translation.attributes &&& el0Access != 0

/-- A user program may execute: `UnprivilegedExecuteNever` is clear. -/
def Translation.userExecutable (translation : Translation) : Bool :=
  translation.attributes &&& unprivilegedExecuteNever == 0

/-- `read_bytes` reads the bytes of the file. -/
def ExecutableFile.Reads (file : ExecutableFile) (contents : Memory Byte) : Prop :=
  ∀ offset n, offset + n ≤ file.size.toNat →
    ∃ read, file.readBytes offset n = .ok (read, n) ∧ ∀ i < n, read i = contents (offset + i)

/-- The segment is loaded, and is not empty. -/
def ElfProgramHeader.Loads (hdr : ElfProgramHeader) : Prop :=
  hdr.type = ptLoad ∧ hdr.memorySize ≠ 0

/-- The address is in a page with an address of the segment. -/
def ElfProgramHeader.InPages (hdr : ElfProgramHeader) (address : ℕ) : Prop :=
  ∃ covered, hdr.segment.Covers covered ∧ covered / 4096 = address / 4096

/-- What is to be at an address. -/
def ElfProgramHeader.image (hdr : ElfProgramHeader) (contents : Memory Byte) (address : ℕ) : Byte :=
  if hdr.virtualAddress.toNat ≤ address ∧
      address < hdr.virtualAddress.toNat + hdr.fileSize.toNat then
    contents (hdr.offset.toNat + (address - hdr.virtualAddress.toNat))
  else 0

/-- The flags of the segment, as permissions. -/
structure ElfProgramHeader.Permits (hdr : ElfProgramHeader) (read write execute : Prop) : Prop where
  read : read ↔ hdr.flags &&& 4 ≠ 0
  write : write ↔ hdr.flags &&& 2 ≠ 0
  execute : execute ↔ hdr.flags &&& 1 ≠ 0

/-- How a segment is to be found. -/
structure ElfProgramHeader.Found {σ : Type} (hdr : ElfProgramHeader) (contents : Memory Byte)
    (space : SpaceManager σ) (bytes : Memory Byte) : Prop where
  /-- The pages are a region, with the permissions of the flags. -/
  region : ∃ region ∈ space.regions,
    (∀ address, region.userRegion.Covers address ↔ hdr.InPages address) ∧
      hdr.Permits (region.permissions &&& .read ≠ .none) (region.permissions &&& .write ≠ .none)
        (region.permissions &&& .execute ≠ .none)
  /-- The program reads the bytes of the file and zeros. -/
  image : ∀ virt, hdr.InPages virt.toNat →
    (userView space.tables.mem space.root).load bytes virt = some (hdr.image contents virt.toNat)
  /-- What may be read or written is readable. -/
  readable : ∀ virt target, hdr.InPages virt.toNat →
    walk space.tables.mem .lower space.root virt = some target →
      (target.userReadable = true ↔ hdr.flags &&& 4 ≠ 0 ∨ hdr.flags &&& 2 ≠ 0)
  writable : ∀ virt target, hdr.InPages virt.toNat →
    walk space.tables.mem .lower space.root virt = some target →
      (target.userWritable = true ↔ hdr.flags &&& 2 ≠ 0)
  executable : ∀ virt target, hdr.InPages virt.toNat →
    walk space.tables.mem .lower space.root virt = some target →
      (target.userExecutable = true ↔ hdr.flags &&& 1 ≠ 0)

/-! ## Pages and permissions -/

section Segment

variable {hdr : ElfProgramHeader} {size : U64}

theorem ElfProgramHeader.Checked.covers_pages (checked : hdr.Checked size)
    (hne : hdr.memorySize ≠ 0) (address : ℕ) :
    hdr.pages.Covers address ↔ hdr.InPages address := by
  obtain ⟨hstart, hsize, -⟩ := checked.pages
  have hpos : 0 < hdr.memorySize.toNat := Nat.pos_of_ne_zero fun h => hne (BitVec.eq_of_toNat_eq h)
  have hcovers : ∀ covered, hdr.segment.Covers covered ↔
      hdr.virtualAddress.toNat ≤ covered ∧
        covered < hdr.virtualAddress.toNat + hdr.memorySize.toNat := fun _ => Iff.rfl
  have hpages : hdr.pages.Covers address ↔ hdr.pages.start.toNat ≤ address ∧
      address < hdr.pages.start.toNat + hdr.pages.size.toNat := Iff.rfl
  rw [hpages, hstart, hsize]
  constructor
  · intro hin
    -- The first address of the segment is in the page, or the first of the page in the segment.
    by_cases hfirst : address / 4096 = hdr.virtualAddress.toNat / 4096
    · exact ⟨_, (hcovers _).mpr ⟨le_rfl, by omega⟩, hfirst.symm⟩
    · exact ⟨address / 4096 * 4096, (hcovers _).mpr (by omega), by omega⟩
  · rintro ⟨covered, hcovered, hsame⟩
    have := (hcovers covered).mp hcovered
    omega

theorem ElfProgramHeader.permits_operations (hdr : ElfProgramHeader) :
    hdr.Permits (hdr.operations &&& .read ≠ .none) (hdr.operations &&& .write ≠ .none)
      (hdr.operations &&& .execute ≠ .none) := by
  have hbits : ∀ read write execute : Prop, [Decidable read] → [Decidable write] →
      [Decidable execute] →
      (((if read then MemoryOperation.read else .none) ||| (if write then .write else .none) |||
        (if execute then .execute else .none)) &&& .read ≠ .none ↔ read) ∧
      (((if read then MemoryOperation.read else .none) ||| (if write then .write else .none) |||
        (if execute then .execute else .none)) &&& .write ≠ .none ↔ write) ∧
      (((if read then MemoryOperation.read else .none) ||| (if write then .write else .none) |||
        (if execute then .execute else .none)) &&& .execute ≠ .none ↔ execute) := by
    intro read write execute _ _ _
    by_cases hread : read <;> by_cases hwrite : write <;> by_cases hexecute : execute <;>
      simp only [hread, hwrite, hexecute, if_true, if_false] <;> decide
  obtain ⟨hread, hwrite, hexecute⟩ :=
    hbits (hdr.flags &&& 4 ≠ 0) (hdr.flags &&& 2 ≠ 0) (hdr.flags &&& 1 ≠ 0)
  exact ⟨hread, hwrite, hexecute⟩

end Segment

theorem UserspaceRegion.user_translation (region : UserspaceRegion) (virt : U64) :
    ((region.translation virt).userReadable = true ↔
      region.permissions &&& .read ≠ .none ∨ region.permissions &&& .write ≠ .none) ∧
    ((region.translation virt).userExecutable = true ↔
      region.permissions &&& .execute ≠ .none) := by
  have hattributes : ∀ readable writable executable : Bool, ∀ kind : BackingKind,
      let translation := Translation.mk 0 ((attributesForUser readable writable executable |||
        kind.attrIdx.toU64 <<< 2) &&& attributeMask)
      translation.userReadable = (readable || writable) ∧
        translation.userExecutable = executable := by
    intro readable writable executable kind
    cases readable <;> cases writable <;> cases executable <;> cases kind <;> decide
  obtain ⟨hreadable, hexecutable⟩ := hattributes (region.permissions &&& .read != .none)
    (region.permissions &&& .write != .none) (region.permissions &&& .execute != .none)
    region.backing.kind
  rw [show (region.translation virt).userReadable = _ from hreadable,
    show (region.translation virt).userExecutable = _ from hexecutable, Bool.or_eq_true, bne_iff_ne,
    bne_iff_ne, bne_iff_ne]
  exact ⟨Iff.rfl, Iff.rfl⟩

/-! ## The loop -/

/-- A region is the pages of a segment, and its backing holds the bytes. -/
structure ElfProgramHeader.PlacedIn (hdr : ElfProgramHeader) (contents : Memory Byte)
    (region : UserspaceRegion) (bytes : Memory Byte) : Prop where
  userRegion : region.userRegion = hdr.pages
  permissions : region.permissions = hdr.operations
  size : region.backing.size = hdr.pages.size
  image : ∀ j < hdr.pages.size.toNat, bytes (region.backing.physicalPtr.toNat + j) =
    hdr.image contents (hdr.pages.start.toNat + j)

/-- What the loop has done with some headers. -/
structure SegmentsPlaced (headers : List ElfProgramHeader) (contents : Memory Byte)
    (before after : List UserspaceRegion) (bytes : Memory Byte) : Prop where
  placed : ∀ hdr ∈ headers, hdr.Loads → ∃ region ∈ after, hdr.PlacedIn contents region bytes
  apart : ∀ hdr ∈ headers, hdr.Loads → ∀ region ∈ before, ∀ address,
    hdr.pages.Covers address → ¬ region.userRegion.Covers address
  pairwise : headers.Pairwise fun first second => first.Loads → second.Loads → ∀ address,
    first.pages.Covers address → ¬ second.pages.Covers address

theorem RegionsOrdered.apart_insertIdx {regions : List UserspaceRegion} {region : UserspaceRegion}
    {idx : ℕ} (hidx : idx ≤ regions.length)
    (ordered : RegionsOrdered (regions.insertIdx idx region)) :
    ∀ other ∈ regions, ∀ address, region.userRegion.Covers address →
      ¬ other.userRegion.Covers address := by
  have happart : (regions.insertIdx idx region).Pairwise fun first second => ∀ address,
      first.userRegion.Covers address → ¬ second.userRegion.Covers address := by
    refine ordered.ordered.imp fun {first second} hle address hfirst hsecond => ?_
    exact absurd (hfirst.2.trans_le hle) (not_lt.mpr hsecond.1)
  have hcons := ((List.perm_insertIdx region regions hidx).pairwise_iff
    fun {first second} h address hsecond hfirst => h address hfirst hsecond).mp happart
  exact (List.pairwise_cons.mp hcons).1

section Load

variable {σ ι : Type} [DecidableEq ι] {source : TableSource σ} {elf : ElfFile} {size : U64}
  {contents bytes bytes' leftover : Memory Byte} {hdr : ElfProgramHeader}
  {allocation : BackingRegion} {space out : SpaceManager σ}

theorem ElfProgramHeader.PlacedIn.kept {region : UserspaceRegion}
    (placed : hdr.PlacedIn contents region bytes)
    (h : ∀ address, region.backing.Holds address → bytes' address = bytes address) :
    hdr.PlacedIn contents region bytes' where
  userRegion := placed.userRegion
  permissions := placed.permissions
  size := placed.size
  image j hj := (h _ (BackingRegion.holds_add (placed.size ▸ hj))).trans (placed.image j hj)

/-- **One segment**: its allocation holds the bytes. -/
theorem ElfFile.populate_placed (checked : hdr.Checked elf.file.size)
    (hsum : hdr.offset.toNat + hdr.fileSize.toNat < 2 ^ 64) (reads : elf.file.Reads contents)
    (hsize : allocation.size = hdr.pages.size) {j : ℕ} (hj : j < hdr.pages.size.toNat) :
    (elf.populate leftover hdr allocation bytes).1 (allocation.physicalPtr.toNat + j) =
      hdr.image contents (hdr.pages.start.toNat + j) := by
  obtain ⟨hstart, -, hoffset, -⟩ := checked.pages
  have hfile := BitVec.le_def.mp checked.file
  rw [BitVec.toNat_add, Nat.mod_eq_of_lt hsum] at hfile
  obtain ⟨read, hread, hcontents⟩ := reads _ _ hfile
  rw [ElfFile.populate_image checked hread le_rfl (hsize ▸ hj), ElfProgramHeader.image, hstart,
    hoffset]
  have hin : hdr.virtualAddress.toNat % 4096 ≤ j ∧
      j < hdr.virtualAddress.toNat % 4096 + hdr.fileSize.toNat ↔
      hdr.virtualAddress.toNat ≤ hdr.virtualAddress.toNat / 4096 * 4096 + j ∧
        hdr.virtualAddress.toNat / 4096 * 4096 + j <
          hdr.virtualAddress.toNat + hdr.fileSize.toNat := by omega
  rw [if_congr hin rfl rfl]
  refine ite_congr rfl (fun h => ?_) fun _ => rfl
  refine (hcontents _ (by omega)).trans (congrArg contents ?_)
  omega

variable {spaces : ι → Option AddressSpace} {i : ι} {live : Set BackingRegion} {object : ℕ}
  {leftovers : ElfProgramHeader → Memory Byte}

/-- **The loop of the loader** leaves each segment in a region of its own. -/
theorem ElfFile.loadIntoBytes_placed {headers : List ElfProgramHeader}
    (checked : ∀ hdr ∈ headers, hdr.type = ptLoad → hdr.Checked elf.file.size)
    (hsums : ∀ hdr ∈ headers, hdr.type = ptLoad →
      hdr.offset.toNat + hdr.fileSize.toNat < 2 ^ 64)
    (reads : elf.file.Reads contents)
    (ok : MemoryOk source space.tables
      (update spaces i (some ⟨space.regions, space.root⟩)) live object)
    (h : elf.loadIntoBytes source leftovers headers space bytes object =
      .ok ((out, bytes'), .ok ())) :
    (∃ live' later, MemoryOk source out.tables
      (update spaces i (some ⟨out.regions, out.root⟩)) live' later) ∧
      (∀ backing ∈ live, ∀ address, backing.Holds address → bytes' address = bytes address) ∧
      SegmentsPlaced headers contents space.regions out.regions bytes' := by
  induction headers generalizing space bytes live object with
  | nil =>
      cases h
      exact ⟨⟨live, object, ok⟩, fun _ _ _ _ => rfl, ⟨fun _ hmem => absurd hmem List.not_mem_nil,
        fun _ hmem => absurd hmem List.not_mem_nil, List.Pairwise.nil⟩⟩
  | cons hdr rest ih =>
      obtain ⟨hchecked, hrest⟩ := List.forall_mem_cons.mp checked
      obtain ⟨hsum, hsumsRest⟩ := List.forall_mem_cons.mp hsums
      rw [loadIntoBytes] at h
      split_ifs at h with hskip
      · have hnot : ¬ hdr.Loads := fun loads => hskip.elim (absurd loads.1) loads.2
        obtain ⟨okOut, hkept, done⟩ := ih hrest hsumsRest ok h
        exact ⟨okOut, hkept,
          ⟨List.forall_mem_cons.mpr ⟨fun loads => absurd loads hnot, done.placed⟩,
            List.forall_mem_cons.mpr ⟨fun loads => absurd loads hnot, done.apart⟩,
            done.pairwise.cons fun _ _ loads => absurd loads hnot⟩⟩
      obtain ⟨hload, hne⟩ := not_or.mp hskip
      have hload := not_not.mp hload
      have hchecked := hchecked hload
      obtain ⟨⟨placed, answer⟩, hplace, h⟩ := bind_eq_ok.mp h
      cases answer with
      | error code => cases h
      | ok allocation =>
          obtain ⟨hsize, hobject, idx, hidx, hregions⟩ :=
            allocatePlacedRegion_placed hchecked.pageAligned hplace
          dsimp only at h
          split at h
          · cases h
          have hnoWrap : NoWrap (some hdr.pages.start) hdr.pages.size := by
            obtain ⟨hstart, hpages, -⟩ := hchecked.pages
            have hlimit := hchecked.limit_lt
            have hmax : userAddrMax.toNat = 2 ^ 48 - 1 := rfl
            show hdr.pages.start.toNat + hdr.pages.size.toNat < 2 ^ 64
            omega
          obtain ⟨hsubset, live', makes, hbacked, okPlaced⟩ :=
            allocatePlacedRegion_builds ok hplace hnoWrap
          have hself : update spaces i (some ⟨placed.regions, placed.root⟩) i =
              some ⟨placed.regions, placed.root⟩ := update_self _ _ _
          have hlisted : (⟨hdr.pages, allocation, createRegionName elf.file.name hdr.operations,
              hdr.operations⟩ : UserspaceRegion) ∈ placed.regions := by
            rw [hregions]
            exact (List.mem_insertIdx hidx).mpr (Or.inl rfl)
          have hallocation : allocation ∈ live' := hbacked _ hlisted
          have hfresh : allocation ∉ live := fun hlive =>
            (ok.numbered allocation hlive).ne hobject
          obtain ⟨okOut, hkept, done⟩ := ih hrest hsumsRest okPlaced h
          have hothers := RegionsOrdered.apart_insertIdx hidx
            (hregions ▸ (okPlaced.spaceOk i _ hself).ordered)
          refine ⟨okOut, fun backing hlive address hholds => ?_, ⟨?_, ?_, ?_⟩⟩
          · -- The allocation has no byte of those there were before.
            have hnotHeld : ¬ allocation.Holds address :=
              okPlaced.not_holds (makes.subset hlive) hallocation
                (fun heq => hfresh (heq ▸ hlive)) hholds
            exact (hkept backing (makes.subset hlive) address hholds).trans
              (ElfFile.populate_outside hchecked hsize hnotHeld)
          · refine List.forall_mem_cons.mpr ⟨fun _ => ?_, done.placed⟩
            refine ⟨_, ElfFile.loadIntoBytes_subset h hlisted, ?_⟩
            exact ElfProgramHeader.PlacedIn.kept
              ⟨rfl, rfl, hsize, fun j hj => ElfFile.populate_placed hchecked (hsum hload) reads hsize hj⟩
              (hkept allocation hallocation)
          · refine List.forall_mem_cons.mpr ⟨fun _ => hothers, fun other hother loads region hregion => ?_⟩
            exact done.apart other hother loads region (hsubset hregion)
          · refine done.pairwise.cons fun other hother _ loads address hcovers hcovers' => ?_
            exact done.apart other hother loads _ hlisted address hcovers' hcovers

theorem ElfProgramHeader.PlacedIn.found {region : UserspaceRegion}
    (placed : hdr.PlacedIn contents region bytes) (hregion : region ∈ out.regions)
    (checked : hdr.Checked size) (loads : hdr.Loads)
    (describes : Describes out.regions out.tables.mem out.root) : hdr.Found contents out bytes := by
  have hcovers : ∀ address, region.userRegion.Covers address ↔ hdr.InPages address := by
    rw [placed.userRegion]
    exact checked.covers_pages loads.2
  have hinside : ∀ virt : U64, hdr.InPages virt.toNat →
      walk out.tables.mem .lower out.root virt = some (region.translation virt) :=
    fun virt hin => describes.inside region hregion virt ((hcovers _).mpr hin)
  obtain ⟨hread, hwrite, hexecute⟩ := placed.permissions ▸ hdr.permits_operations
  refine ⟨⟨region, hregion, hcovers, ⟨hread, hwrite, hexecute⟩⟩, fun virt hin => ?_, ?_, ?_, ?_⟩
  · have hcell : (userView out.tables.mem out.root).cell virt =
        some (region.translation virt).address := by
      show (walk out.tables.mem .lower out.root virt).map _ = _
      rw [hinside virt hin]
      rfl
    obtain ⟨hlow, hhigh⟩ := (hcovers _).mpr hin
    rw [placed.userRegion] at hlow hhigh
    have hlimit : hdr.pages.limit = hdr.pages.start.toNat + hdr.pages.size.toNat := rfl
    rw [View.load_of_cell hcell, Option.some_inj]
    show bytes (region.backing.physicalPtr.toNat +
      (virt.toNat - region.userRegion.start.toNat)) = _
    rw [placed.userRegion, placed.image _ (by omega), Nat.add_sub_cancel' hlow]
  · intro virt target hin htarget
    obtain rfl := Option.some.inj ((hinside virt hin).symm.trans htarget)
    rw [(region.user_translation virt).1, hread, hwrite]
  · intro virt target hin htarget
    obtain rfl := Option.some.inj ((hinside virt hin).symm.trans htarget)
    exact (region.userWritable_translation virt).trans hwrite
  · intro virt target hin htarget
    obtain rfl := Option.some.inj ((hinside virt hin).symm.trans htarget)
    exact (region.user_translation virt).2.trans hexecute

/-- **What a loaded program finds**, in an address space that had no regions. -/
theorem ElfFile.loadIntoBytes_found {file : ExecutableFile}
    (hparse : ElfFile.parseFile file = .ok elf)
    (hsums : ∀ hdr ∈ elf.programHeaders, hdr.type = ptLoad →
      hdr.offset.toNat + hdr.fileSize.toNat < 2 ^ 64)
    (reads : file.Reads contents)
    (ok : MemoryOk source space.tables
      (update spaces i (some ⟨[], space.root⟩)) live object)
    (hempty : space.regions = [])
    (h : elf.loadIntoBytes source leftovers elf.programHeaders space bytes object =
      .ok ((out, bytes'), .ok ())) :
    (∀ hdr ∈ elf.programHeaders, hdr.Loads → hdr.Found contents out bytes') ∧
      elf.programHeaders.Pairwise fun first second => first.Loads → second.Loads →
        ∀ address, first.InPages address → ¬ second.InPages address := by
  obtain ⟨rfl, hcheck⟩ := ElfFile.parseFile_checks hparse
  have checked := checkProgramHeaders_checked hcheck
  rw [← hempty] at ok
  obtain ⟨⟨live', later, okOut⟩, -, done⟩ :=
    ElfFile.loadIntoBytes_placed checked hsums reads ok h
  have describes := (okOut.spaceOk i _ (update_self _ _ _)).describes
  refine ⟨fun hdr hmem loads => ?_, ?_⟩
  · obtain ⟨region, hregion, placed⟩ := done.placed hdr hmem loads
    exact placed.found hregion (checked hdr hmem loads.1) loads describes
  · refine done.pairwise.imp_of_mem fun {first second} hfirst hsecond hapart loads loads' address => ?_
    rw [← (checked first hfirst loads.1).covers_pages loads.2,
      ← (checked second hsecond loads'.1).covers_pages loads'.2]
    exact hapart loads loads' address

end Load

/-! ## A program with one segment -/

/-- The first sixteen bytes are to be at `0x400000`. -/
def oneSegmentBytes (flags : Byte) : Memory Byte := fun i => (List.lookup i
  [(0, 0x7F), (1, 0x45), (2, 0x4C), (3, 0x46), (4, 2), (5, 1), (16, 2), (18, 0xB7), (26, 0x40),
    (32, 64), (54, 56), (56, 1), (64, 1), (68, flags), (82, 0x40), (96, 0x10), (105, 0x10)]).getD 0

def oneSegment (flags : Byte) : ExecutableFile where
  name := "init"
  size := 0x1000
  readBytes offset n := .ok (fun i => oneSegmentBytes flags (offset + i), n)

theorem oneSegment_reads (flags : Byte) : (oneSegment flags).Reads (oneSegmentBytes flags) :=
  fun _ _ _ => ⟨_, rfl, fun _ _ => rfl⟩

theorem oneSegment_loaded (flags : Byte) (hflags : flags ∈ ([2, 5] : List Byte)) :
    ∃ elf space out bytes' hdr target, ElfFile.parseFile (oneSegment flags) = .ok elf ∧
      SpaceManager.create TableSource.pool (.empty forkPool) = .ok space ∧
      elf.loadIntoBytes TableSource.pool (fun _ _ => 0) elf.programHeaders space (fun _ => 7) 0 =
        .ok ((out, bytes'), .ok ()) ∧
      elf.programHeaders = [hdr] ∧ (hdr.offset = 0 ∧ hdr.fileSize = 16) ∧
      (hdr.Loads ∧ hdr.flags = flags.setWidth 32 ∧ hdr.InPages 0x400000) ∧
      walk out.tables.mem .lower out.root 0x400000 = some target ∧ target.userReadable = true := by
  have hvalue : ∀ flags ∈ ([2, 5] : List Byte), (do
      let elf ← (ElfFile.parseFile (oneSegment flags)).toOption
      let space ← (SpaceManager.create TableSource.pool (.empty forkPool)).toOption
      let out ← (elf.loadIntoBytes TableSource.pool (fun _ _ => 0) elf.programHeaders space
        (fun _ => 7) 0).toOption
      return (elf.programHeaders.map fun hdr => decide ((hdr.offset = 0 ∧ hdr.fileSize = 16) ∧
          hdr.type = ptLoad ∧ hdr.flags = flags.setWidth 32 ∧ hdr.segment = ⟨0x400000, 0x1000⟩),
        out.2.toOption.isSome &&
          (walk out.1.1.tables.mem .lower out.1.1.root 0x400000).any Translation.userReadable)) =
      some ([true], true) := by
    decide +kernel
  obtain ⟨elf, hparse, h⟩ := Option.bind_eq_some_iff.mp (hvalue flags hflags)
  obtain ⟨space, hcreate, h⟩ := Option.bind_eq_some_iff.mp h
  obtain ⟨⟨⟨out, bytes'⟩, result⟩, hload, h⟩ := Option.bind_eq_some_iff.mp h
  obtain ⟨hheaders, h⟩ := Prod.mk.inj (Option.some.inj h)
  obtain ⟨hresult, hwalk⟩ := (Bool.and_eq_true _ _).mp h
  obtain ⟨_, hresult⟩ := Option.isSome_iff_exists.mp hresult
  obtain ⟨target, htarget, hreadable⟩ := (Option.any_eq_true _ _).mp hwalk
  obtain ⟨hdr, hhdr, heq⟩ := List.map_eq_singleton_iff.mp hheaders
  obtain ⟨hfile, htype, hflagsEq, hsegment⟩ := of_decide_eq_true heq
  obtain rfl := toOption_eq_some.mp hresult
  have hsize : hdr.memorySize = 0x1000 := congrArg UserRegion.size hsegment
  refine ⟨elf, space, out, bytes', hdr, target, toOption_eq_some.mp hparse,
    toOption_eq_some.mp hcreate, toOption_eq_some.mp hload, hhdr, hfile,
    ⟨⟨htype, by rw [hsize]; decide⟩, hflagsEq, 0x400000, ?_, rfl⟩, htarget, hreadable⟩
  rw [hsegment]
  decide

/-- Sixteen bytes of the file are there, and zeros. -/
theorem ElfFile.loadIntoBytes_found_oneSegment :
    ∃ elf space out bytes' hdr, ElfFile.parseFile (oneSegment 5) = .ok elf ∧
      elf.loadIntoBytes TableSource.pool (fun _ _ => 0) elf.programHeaders space (fun _ => 7) 0 =
        .ok ((out, bytes'), .ok ()) ∧
      elf.programHeaders = [hdr] ∧ hdr.Loads ∧ hdr.Found (oneSegmentBytes 5) out bytes' := by
  obtain ⟨elf, space, out, bytes', hdr, target, hparse, hcreate, hload, hheaders,
    ⟨hoffset, hfileSize⟩, ⟨loads, -⟩, -⟩ := oneSegment_loaded 5 (by decide)
  refine ⟨elf, space, out, bytes', hdr, hparse, hload, hheaders, loads, ?_⟩
  unfold SpaceManager.create at hcreate
  split at hcreate
  · cases hcreate
  rename_i root pageAllocator halloc
  cases hcreate
  have okEmpty := (@MemoryOk.nothing _ TableSource.pool Unit forkPool).create (i := ()) halloc
    (blank_of_zero fun _ => rfl)
  refine (ElfFile.loadIntoBytes_found hparse (fun other hother _ => ?_) (oneSegment_reads 5)
    okEmpty rfl hload).1 hdr (hheaders ▸ List.mem_singleton_self _) loads
  rw [hheaders] at hother
  rw [List.mem_singleton.mp hother, hoffset, hfileSize]
  decide

/-- A segment that may only be written can be read: the tables have no way to say otherwise. -/
theorem ElfFile.loadIntoBytes_found_fails :
    ∃ elf space out bytes' hdr target, ElfFile.parseFile (oneSegment 2) = .ok elf ∧
      SpaceManager.create TableSource.pool (.empty forkPool) = .ok space ∧
      elf.loadIntoBytes TableSource.pool (fun _ _ => 0) elf.programHeaders space (fun _ => 7) 0 =
        .ok ((out, bytes'), .ok ()) ∧
      elf.programHeaders = [hdr] ∧ (hdr.Loads ∧ hdr.InPages 0x400000) ∧
      walk out.tables.mem .lower out.root 0x400000 = some target ∧
      ¬ (target.userReadable = true ↔ hdr.flags &&& 4 ≠ 0) := by
  obtain ⟨elf, space, out, bytes', hdr, target, hparse, hcreate, hload, hheaders, -,
    ⟨loads, hflags, hin⟩, htarget, hreadable⟩ := oneSegment_loaded 2 (by decide)
  refine ⟨elf, space, out, bytes', hdr, target, hparse, hcreate, hload, hheaders, ⟨loads, hin⟩,
    htarget, fun hiff => ?_⟩
  exact hiff.mp hreadable (by rw [hflags]; decide)

end BekOS
