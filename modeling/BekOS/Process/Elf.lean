import BekOS.Lib.LittleEndian
import BekOS.Mm.SpaceManager

/-!
# Loading executables

`process/elf.cpp`, and the part of `Process::execute_executable` that builds a new address
space: parse the headers of the file, place a region for each segment, and one for the
stack, which takes the arguments and the environment.  What the regions are filled with is
left out.
-/

namespace BekOS

/-! ## The headers of a file -/

/-- `elf_file_header` -/
structure ElfFileHeader where
  magicNumber : ℕ
  wordWidth : ℕ
  endianness : ℕ
  objType : ℕ
  machine : ℕ
  entryPoint : U64
  programHeaderOffset : ℕ
  programHeaderEntrySize : ℕ
  programHeaderEntryCount : ℕ

/-- `sizeof(elf_file_header)` -/
def elfFileHeaderSize : ℕ := 64

/-- The header in the first bytes of a memory. -/
def ElfFileHeader.ofMemory (bytes : Memory Byte) : ElfFileHeader where
  magicNumber := leRead bytes 0 4
  wordWidth := leRead bytes 4 1
  endianness := leRead bytes 5 1
  objType := leRead bytes 16 2
  machine := leRead bytes 18 2
  entryPoint := BitVec.ofNat 64 (leRead bytes 24 8)
  programHeaderOffset := leRead bytes 32 8
  programHeaderEntrySize := leRead bytes 54 2
  programHeaderEntryCount := leRead bytes 56 2

/-- `ELF_MAGIC` -/
def elfMagic : ℕ := 0x464C457F

/-- `W64BIT` -/
def w64Bit : ℕ := 2

/-- `LITTLE_ENDIAN` -/
def littleEndian : ℕ := 1

/-- `ET_EXEC` -/
def etExec : ℕ := 2

/-- `ELF_MACHINE_AARCH64` -/
def elfMachineAarch64 : ℕ := 0xB7

/-- `elf_program_header` -/
structure ElfProgramHeader where
  type : ℕ
  flags : BitVec 32
  offset : U64
  virtualAddress : U64
  fileSize : U64
  memorySize : U64

/-- `sizeof(elf_program_header)` -/
def elfProgramHeaderSize : ℕ := 56

/-- The program header in the first bytes of a memory. -/
def ElfProgramHeader.ofMemory (bytes : Memory Byte) : ElfProgramHeader where
  type := leRead bytes 0 4
  flags := BitVec.ofNat 32 (leRead bytes 4 4)
  offset := BitVec.ofNat 64 (leRead bytes 8 8)
  virtualAddress := BitVec.ofNat 64 (leRead bytes 16 8)
  fileSize := BitVec.ofNat 64 (leRead bytes 32 8)
  memorySize := BitVec.ofNat 64 (leRead bytes 40 8)

/-- `PT_LOAD` -/
def ptLoad : ℕ := 1

/-- `PT_INTERP` -/
def ptInterp : ℕ := 3

/-- What the loader asks of a file: its name, its size, and what `read_bytes` reads at an
offset, with the number of bytes that it reads. -/
structure ExecutableFile where
  name : String
  size : U64
  readBytes : ℕ → ℕ → Except ErrorCode (Memory Byte × ℕ)

/-- `ElfFile` -/
structure ElfFile where
  file : ExecutableFile
  programHeaders : List ElfProgramHeader
  entryPoint : U64
  programRange : UserRegion

/-- How `parse_file` widens the range of the program by a segment. -/
def widenRange (maximalRegion : Option UserRegion) (region : UserRegion) : UserRegion :=
  match maximalRegion with
  | none => region
  | some maximal =>
      let maximal := if maximal.start > region.start then { maximal with start := region.start }
        else maximal
      if maximal.endPtr < region.endPtr then
        { maximal with size := region.endPtr - maximal.start }
      else maximal

/-- The loop of `parse_file`: the range of the segments, in a file of the given size. -/
def checkProgramHeaders (size : U64) :
    List ElfProgramHeader → Option UserRegion → Except ErrorCode (Option UserRegion)
  | [], maximalRegion => .ok maximalRegion
  | hdr :: rest, maximalRegion =>
      if hdr.type = ptLoad then
        if hdr.virtualAddress ≥ userAddrMax ∨ hdr.memorySize ≥ userAddrMax ∨
            hdr.virtualAddress + hdr.memorySize ≥ userAddrMax then .error .ENOTSUP
        else if hdr.offset + hdr.fileSize > size then .error .ENOEXEC
        else if hdr.memorySize < hdr.fileSize then .error .ENOEXEC
        else
          checkProgramHeaders size rest
            (some (widenRange maximalRegion ⟨hdr.virtualAddress, hdr.memorySize⟩))
      else if hdr.type = ptInterp then .error .ENOTSUP
      else checkProgramHeaders size rest maximalRegion

/-- `ElfFile::parse_file` -/
def ElfFile.parseFile (file : ExecutableFile) : Except ErrorCode ElfFile := do
  let read ← file.readBytes 0 elfFileHeaderSize
  let header := ElfFileHeader.ofMemory read.1
  if read.2 < elfFileHeaderSize then .error .ENOEXEC
  else if header.magicNumber ≠ elfMagic then .error .ENOEXEC
  else if header.endianness ≠ littleEndian ∨ header.wordWidth ≠ w64Bit then .error .ENOTSUP
  else if header.machine ≠ elfMachineAarch64 then .error .ENOTSUP
  else if header.objType ≠ etExec then .error .ENOEXEC
  else if header.programHeaderEntrySize ≠ elfProgramHeaderSize then .error .ENOTSUP
  else do
    let size := header.programHeaderEntryCount * elfProgramHeaderSize
    let read ← file.readBytes header.programHeaderOffset size
    if read.2 < size then .error .ENOEXEC
    else do
      let programHeaders := (List.range header.programHeaderEntryCount).map fun i =>
        ElfProgramHeader.ofMemory fun j => read.1 (i * elfProgramHeaderSize + j)
      match ← checkProgramHeaders file.size programHeaders none with
      | none => .error .ENOEXEC
      | some programRange =>
          if header.entryPoint ≥ userAddrMax then .error .ENOTSUP
          else .ok { file, programHeaders, entryPoint := header.entryPoint, programRange }

/-! ## Loading -/

/-- `bek::align_down` -/
def alignDown (a alignment : U64) : U64 := a / alignment * alignment

/-- `align_to_page` -/
def UserRegion.alignToPage (region : UserRegion) : UserRegion where
  start := alignDown region.start pageSize
  size := alignUp region.endPtr pageSize - alignDown region.start pageSize

/-- The operations that the flags of a segment allow. -/
def ElfProgramHeader.operations (hdr : ElfProgramHeader) : MemoryOperation :=
  (if hdr.flags &&& 4 ≠ 0 then .read else .none) |||
    (if hdr.flags &&& 2 ≠ 0 then .write else .none) |||
      (if hdr.flags &&& 1 ≠ 0 then .execute else .none)

/-- `create_region_name` -/
def createRegionName (fname : String) (operations : MemoryOperation) : String :=
  "[" ++ fname ++ "](" ++ (if operations &&& .read ≠ .none then "r" else "-") ++
    (if operations &&& .write ≠ .none then "w" else "-") ++
      (if operations &&& .execute ≠ .none then "x" else "-") ++ ")"

/-- `DEFAULT_USER_STACK` -/
def defaultUserStack : U64 := 4 * pageSize

/-- `MAX_USER_STACK` -/
def maxUserStack : U64 := 1024 * pageSize

/-- `get_sensible_stack_region` -/
def ElfFile.getSensibleStackRegion (elf : ElfFile) (maximumSize : U64) : UserRegion :=
  let aligned := elf.programRange.alignToPage
  let top := 16 * pageSize + maximumSize
  if top + 2 * pageSize ≤ aligned.start then { start := top - maximumSize, size := maximumSize }
  else { start := aligned.endPtr + 2 * pageSize, size := maximumSize }

/-- The region of the stack. -/
def ElfFile.stackRegion (elf : ElfFile) : UserRegion where
  start := (elf.getSensibleStackRegion maxUserStack).endPtr - defaultUserStack
  size := defaultUserStack

/-- `put_string_on_stack`, of strings of the given sizes, each with its last zero. -/
def putStringsOnStack : List ℕ → ℕ → Option ℕ
  | [], stackOffset => some stackOffset
  | size :: rest, stackOffset =>
      if stackOffset < size + 1 then none
      else putStringsOnStack rest (stackOffset - (size + 1))

/-- The strings and the pointers to them have room on the stack. -/
def fitsOnStack (arguments environ : List ℕ) : Bool :=
  match putStringsOnStack (arguments ++ environ) defaultUserStack.toNat with
  | none => false
  | some stackOffset => (arguments.length + environ.length + 2) * 8 + stackOffset % 16 ≤ stackOffset

section Load

variable {σ : Type} (source : TableSource σ)

/-- `ElfFile::load_into`; its allocations are numbered from `object` on. -/
def ElfFile.loadInto (elf : ElfFile) :
    List ElfProgramHeader → SpaceManager σ → ℕ →
      Except Fault (SpaceManager σ × Except ErrorCode Unit)
  | [], space, _ => .ok (space, .ok ())
  | hdr :: rest, space, object =>
      if hdr.type ≠ ptLoad ∨ hdr.memorySize = 0 then elf.loadInto rest space object
      else do
        let target : UserRegion := { start := hdr.virtualAddress, size := hdr.memorySize }
        let (space, region) ← allocatePlacedRegion source space target.alignToPage hdr.operations
          (createRegionName elf.file.name hdr.operations) object
        match region with
        | .error code => .ok (space, .error code)
        | .ok _ =>
            match elf.file.readBytes hdr.offset.toNat hdr.fileSize.toNat with
            | .error code => .ok (space, .error code)
            | .ok read =>
                if read.2 < hdr.fileSize.toNat then .ok (space, .error ErrorCode.EIO)
                else elf.loadInto rest space (object + 1)

/-- `execute_executable`, from the empty address space to the one with its stack set up. -/
def ElfFile.setUpSpace (elf : ElfFile) (space : SpaceManager σ) (arguments environ : List ℕ)
    (object : ℕ) : Except Fault (SpaceManager σ × Except ErrorCode Unit) := do
  let (space, loaded) ← elf.loadInto source elf.programHeaders space object
  match loaded with
  | .error code => .ok (space, .error code)
  | .ok _ => do
      let (space, stack) ← allocatePlacedRegion source space elf.stackRegion (.read ||| .write)
        "stack" (object + elf.programHeaders.length)
      match stack with
      | .error code => .ok (space, .error code)
      | .ok _ => .ok (space, if fitsOnStack arguments environ then .ok () else .error .ENOMEM)

end Load

/-! ## What parsing checks -/

/-- The range ends in user space. -/
def UserRegion.Low (region : UserRegion) : Prop := region.limit < 2 ^ 48

theorem widenRange_low {maximalRegion : Option UserRegion} {region : UserRegion}
    (hmaximal : ∀ maximal, maximalRegion = some maximal → maximal.Low) (hregion : region.Low) :
    (widenRange maximalRegion region).Low := by
  cases maximalRegion with
  | none => exact hregion
  | some maximal =>
      have hlow := hmaximal maximal rfl
      unfold UserRegion.Low UserRegion.limit at hlow hregion
      unfold widenRange UserRegion.Low UserRegion.limit UserRegion.endPtr
      dsimp only
      -- The end is the old one or that of the new range, and the start may come down.
      split_ifs <;> bv_omega

/-- **A file that is parsed** has its segments, and the range of them all, in user space. -/
theorem checkProgramHeaders_low {size : U64} {headers : List ElfProgramHeader} :
    ∀ {maximalRegion out : Option UserRegion},
      (∀ maximal, maximalRegion = some maximal → maximal.Low) →
      checkProgramHeaders size headers maximalRegion = .ok out →
      (∀ hdr ∈ headers, hdr.type = ptLoad →
          (⟨hdr.virtualAddress, hdr.memorySize⟩ : UserRegion).Low) ∧
        ∀ maximal, out = some maximal → maximal.Low := by
  induction headers with
  | nil =>
      intro maximalRegion out hmaximal h
      cases h
      exact ⟨List.forall_mem_nil _, hmaximal⟩
  | cons hdr rest ih =>
      intro maximalRegion out hmaximal h
      rw [checkProgramHeaders] at h
      split_ifs at h with hload hbounds hoffset hfile hinterp
      · have hlow : (⟨hdr.virtualAddress, hdr.memorySize⟩ : UserRegion).Low := by
          unfold userAddrMax at hbounds
          unfold UserRegion.Low UserRegion.limit
          dsimp only
          bv_omega
        obtain ⟨hrest, hout⟩ := ih (fun maximal heq => by
          cases heq
          exact widenRange_low hmaximal hlow) h
        exact ⟨List.forall_mem_cons.mpr ⟨fun _ => hlow, hrest⟩, hout⟩
      · obtain ⟨hrest, hout⟩ := ih hmaximal h
        exact ⟨List.forall_mem_cons.mpr ⟨fun h => absurd h hload, hrest⟩, hout⟩

theorem toNat_alignUp {a : U64} (h : a.toNat ≤ 2 ^ 48) :
    (alignUp a pageSize).toNat = (a.toNat + 4095) / 4096 * 4096 := by
  rw [alignUp, BitVec.toNat_mul, toNat_ceilDiv_pageSize (by omega), toNat_pageSize]
  omega

theorem toNat_alignDown (a : U64) : (alignDown a pageSize).toNat = a.toNat / 4096 * 4096 := by
  have := a.isLt
  rw [alignDown, BitVec.toNat_mul, BitVec.toNat_udiv, toNat_pageSize]
  omega

theorem UserRegion.Low.alignToPage {region : UserRegion} (h : region.Low) :
    region.alignToPage.limit ≤ 2 ^ 48 := by
  have hfits : region.Fits := Nat.lt_trans h (by decide)
  have hend : region.endPtr.toNat = region.limit := hfits.toNat_endPtr
  have hup := toNat_alignUp (a := region.endPtr) (by rw [hend]; exact h.le)
  have hdown := toNat_alignDown region.start
  have hlimit : region.limit = region.start.toNat + region.size.toNat := rfl
  unfold UserRegion.Low at h
  show (alignDown region.start pageSize).toNat +
    (alignUp region.endPtr pageSize - alignDown region.start pageSize).toNat ≤ 2 ^ 48
  rw [BitVec.toNat_sub_of_le (BitVec.le_def.mpr (by omega)), hup, hdown]
  omega

theorem ElfFile.getSensibleStackRegion_eq (elf : ElfFile) (maximumSize : U64) :
    elf.getSensibleStackRegion maximumSize =
      if 16 * pageSize + maximumSize + 2 * pageSize ≤ elf.programRange.alignToPage.start then
        { start := 16 * pageSize + maximumSize - maximumSize, size := maximumSize }
      else
        { start := elf.programRange.alignToPage.endPtr + 2 * pageSize, size := maximumSize } :=
  rfl

theorem ElfFile.getSensibleStackRegion_of_le {elf : ElfFile} {maximumSize : U64}
    (h : 16 * pageSize + maximumSize + 2 * pageSize ≤ elf.programRange.alignToPage.start) :
    elf.getSensibleStackRegion maximumSize = ⟨16 * pageSize, maximumSize⟩ := by
  rw [getSensibleStackRegion_eq, if_pos h, BitVec.add_sub_cancel]

theorem ElfFile.getSensibleStackRegion_of_not_le {elf : ElfFile} {maximumSize : U64}
    (h : ¬ 16 * pageSize + maximumSize + 2 * pageSize ≤ elf.programRange.alignToPage.start) :
    elf.getSensibleStackRegion maximumSize =
      ⟨elf.programRange.alignToPage.endPtr + 2 * pageSize, maximumSize⟩ := by
  rw [getSensibleStackRegion_eq, if_neg h]

theorem ElfFile.stackRegion_limit {elf : ElfFile} (h : elf.programRange.Low) :
    elf.stackRegion.limit < 2 ^ 64 := by
  have hpages := h.alignToPage
  have hfits : elf.programRange.alignToPage.Fits := Nat.lt_of_le_of_lt hpages (by decide)
  have hgap : (2 * pageSize).toNat = 8192 := rfl
  have hmax : maxUserStack.toNat = 4194304 := rfl
  have hdefault : defaultUserStack.toNat = 16384 := rfl
  obtain ⟨start, hregion, hstart⟩ : ∃ start : U64,
      elf.getSensibleStackRegion maxUserStack = ⟨start, maxUserStack⟩ ∧
        start.toNat ≤ 2 ^ 48 + 8192 := by
    by_cases hbelow : 16 * pageSize + maxUserStack + 2 * pageSize ≤
        elf.programRange.alignToPage.start
    · exact ⟨_, getSensibleStackRegion_of_le hbelow, by decide⟩
    · refine ⟨_, getSensibleStackRegion_of_not_le hbelow, ?_⟩
      rw [BitVec.toNat_add, hfits.toNat_endPtr, hgap, Nat.mod_eq_of_lt (by omega)]
      omega
  have hend : (start + maxUserStack).toNat = start.toNat + 4194304 := by
    rw [BitVec.toNat_add, hmax, Nat.mod_eq_of_lt (by omega)]
  have hlimit : elf.stackRegion.limit =
      ((elf.getSensibleStackRegion maxUserStack).endPtr - defaultUserStack).toNat +
        defaultUserStack.toNat := rfl
  rw [hlimit, hregion]
  show (start + maxUserStack - defaultUserStack).toNat + defaultUserStack.toNat < 2 ^ 64
  rw [BitVec.toNat_sub_of_le (BitVec.le_def.mpr (by omega)), hend, hdefault]
  omega

/-- **A file that is accepted** has its headers checked, from no range on. -/
theorem ElfFile.parseFile_checks {file : ExecutableFile} {elf : ElfFile}
    (h : ElfFile.parseFile file = .ok elf) :
    elf.file = file ∧
      checkProgramHeaders file.size elf.programHeaders none = .ok (some elf.programRange) := by
  unfold parseFile at h
  obtain ⟨read, -, h⟩ := bind_eq_ok.mp h
  dsimp only at h
  -- The checks of the file header.
  iterate 6
    split at h
    · cases h
  obtain ⟨read', -, h⟩ := bind_eq_ok.mp h
  split at h
  · cases h
  obtain ⟨out, hcheck, h⟩ := bind_eq_ok.mp h
  cases out with
  | none => cases h
  | some programRange =>
      dsimp only at h
      split at h
      · cases h
      cases h
      exact ⟨rfl, hcheck⟩

/-- **The regions that the loader asks for** do not wrap around. -/
theorem ElfFile.parseFile_low {file : ExecutableFile} {elf : ElfFile}
    (h : ElfFile.parseFile file = .ok elf) :
    (∀ hdr ∈ elf.programHeaders, hdr.type = ptLoad →
        (⟨hdr.virtualAddress, hdr.memorySize⟩ : UserRegion).Low) ∧
      elf.programRange.Low := by
  obtain ⟨hheaders, hrange⟩ := checkProgramHeaders_low
    (fun _ h => absurd h.symm (Option.some_ne_none _)) (ElfFile.parseFile_checks h).2
  exact ⟨hheaders, hrange elf.programRange rfl⟩

/-! ## What loading keeps -/

/-- The loader asks for this region. -/
def ElfFile.Asks (elf : ElfFile) (region : UserRegion) : Prop :=
  (∃ hdr ∈ elf.programHeaders, hdr.type = ptLoad ∧
    region = (⟨hdr.virtualAddress, hdr.memorySize⟩ : UserRegion).alignToPage) ∨
  region = elf.stackRegion

theorem ElfFile.Asks.limit_lt {file : ExecutableFile} {elf : ElfFile} {region : UserRegion}
    (asks : elf.Asks region) (h : ElfFile.parseFile file = .ok elf) : region.limit < 2 ^ 64 := by
  obtain ⟨hheaders, hrange⟩ := ElfFile.parseFile_low h
  rcases asks with ⟨hdr, hmem, hload, rfl⟩ | rfl
  · exact lt_of_le_of_lt (hheaders hdr hmem hload).alignToPage (by decide)
  · exact ElfFile.stackRegion_limit hrange

section Keeps

variable {σ : Type} {source : TableSource σ} {elf : ElfFile} {space out : SpaceManager σ}
  {object : ℕ} {inv : SpaceManager σ → ℕ → Prop}

/-- **The loop of the loader** keeps what holds, with the next number, behind each allocation. -/
theorem ElfFile.loadInto_keeps (headers : List ElfProgramHeader)
    (hheaders : headers ⊆ elf.programHeaders)
    (later : ∀ {space object}, inv space object → inv space (object + 1))
    (keeps : ∀ {space out region operations name object result}, elf.Asks region →
      inv space object →
      allocatePlacedRegion source space region operations name object = .ok (out, result) →
        inv out (object + 1))
    {result : Except ErrorCode Unit} (holds : inv space object)
    (h : elf.loadInto source headers space object = .ok (out, result)) :
    inv out (object + headers.length) := by
  have laters : ∀ {space object} (n : ℕ), inv space object → inv space (object + n) := by
    intro space object n hinv
    induction n with
    | zero => exact hinv
    | succ n ih => exact later ih
  induction headers generalizing space object with
  | nil =>
      cases h
      exact holds
  | cons hdr rest ih =>
      obtain ⟨hhdr, hrest⟩ := List.cons_subset.mp hheaders
      have hlength : object + (hdr :: rest).length = object + 1 + rest.length := by
        rw [List.length_cons]
        omega
      rw [ElfFile.loadInto] at h
      rw [hlength]
      split_ifs at h with hskip
      · rw [Nat.add_right_comm]
        exact later (ih hrest holds h)
      · obtain ⟨⟨placed, answer⟩, hplace, h⟩ := bind_eq_ok.mp h
        have hplaced := keeps (Or.inl ⟨hdr, hhdr, not_not.mp fun hne => hskip (Or.inl hne), rfl⟩) holds hplace
        cases answer with
        | error code =>
            cases h
            exact laters _ hplaced
        | ok allocation =>
            dsimp only at h
            split at h
            · cases h
              exact laters _ hplaced
            · split_ifs at h with hshort
              · cases h
                exact laters _ hplaced
              · exact ih hrest hplaced h

/-- **Setting up an address space** keeps it, too. -/
theorem ElfFile.setUpSpace_keeps
    (later : ∀ {space object}, inv space object → inv space (object + 1))
    (keeps : ∀ {space out region operations name object result}, elf.Asks region →
      inv space object →
      allocatePlacedRegion source space region operations name object = .ok (out, result) →
        inv out (object + 1))
    {arguments environ : List ℕ} {result : Except ErrorCode Unit} (holds : inv space object)
    (h : elf.setUpSpace source space arguments environ object = .ok (out, result)) :
    inv out (object + elf.programHeaders.length + 1) := by
  obtain ⟨⟨loaded, answer⟩, hload, h⟩ := bind_eq_ok.mp h
  have hloaded : inv loaded (object + elf.programHeaders.length) :=
    ElfFile.loadInto_keeps _ (List.Subset.refl _) later keeps holds hload
  cases answer with
  | error code =>
      cases h
      exact later hloaded
  | ok _ =>
      obtain ⟨⟨placed, stack⟩, hplace, h⟩ := bind_eq_ok.mp h
      have hplaced := keeps (Or.inr rfl) hloaded hplace
      cases stack with
      | error code =>
          cases h
          exact hplaced
      | ok allocation =>
          cases h
          exact hplaced

end Keeps

end BekOS
