import BekOS.Library.KernelError
import Mathlib.Data.BitVec
import Mathlib.Data.List.Pairwise

/-!
# The base address registers of a PCIe function

The host has ranges of PCIe addresses, which it has mapped to memory.  A function is given a window
of one for each of its base address registers: the register says of what kind and size the window
has to be, and keeps the bits of the address that are not below the size.
-/

namespace BekOS.Pcie

open Function

/-! ## The configuration space -/

/-- A register: of what is written to it, some bits are kept, and the others stay as they are. -/
structure ConfigRegister where
  value : BitVec 32
  writable : BitVec 32
deriving DecidableEq, Repr

/-- The register after a write. -/
def ConfigRegister.write (register : ConfigRegister) (value : BitVec 32) : ConfigRegister :=
  { register with
    value := (register.value &&& ~~~register.writable) ||| (value &&& register.writable) }

/-- `configuration_space` of a function, by the offset of the register. -/
abbrev ConfigSpace := ℕ → ConfigRegister

/-- `configuration_space.read<u32>` -/
def ConfigSpace.read (space : ConfigSpace) (offset : ℕ) : BitVec 32 :=
  (space offset).value

/-- `configuration_space.write<u32>` -/
def ConfigSpace.write (space : ConfigSpace) (offset : ℕ) (value : BitVec 32) : ConfigSpace :=
  update space offset ((space offset).write value)

/-- `AddressSpaceKind` -/
inductive AddressSpaceKind
  | Configuration
  | Io
  | Mem32Bit
  | Mem64Bit
deriving DecidableEq, Repr

/-- `get_bar_kind` -/
def getBarKind (barValue : BitVec 32) : Except Fault AddressSpaceKind :=
  if barValue &&& 1 ≠ 0 then .ok .Io
  else if (barValue >>> 1) &&& 3 = 0 then .ok .Mem32Bit
  else if (barValue >>> 1) &&& 3 = 2 then .ok .Mem64Bit
  else .error .panic

/-- The offset of a base address register. -/
def barOffset (n : ℕ) : ℕ := 0x10 + 4 * n

/-- The bits of a register of the kind that are of the address. -/
def addressMask (kind : AddressSpaceKind) : BitVec 64 :=
  if kind = .Io then 0xFFFFFFFFFFFFFFFC#64 else 0xFFFFFFFFFFFFFFF0#64

/-- `bar_val` -/
def barValue (space : ConfigSpace) (n : ℕ) (kind : AddressSpaceKind) : BitVec 64 :=
  if kind = .Mem64Bit then
    (space.read (barOffset n)).setWidth 64 |||
      (space.read (barOffset n + 4)).setWidth 64 <<< 32
  else (space.read (barOffset n)).setWidth 64

/-- `BaseAddressRegister` -/
structure BaseAddressRegister where
  address : ℕ
  size : ℕ
  kind : AddressSpaceKind
  prefetchable : Bool
deriving DecidableEq, Repr

/-- `Function::bar`: the size is what the register does not keep of a write of ones. -/
def bar (space : ConfigSpace) (n : ℕ) : Except Fault (BaseAddressRegister × ConfigSpace) := do
  let kind ← getBarKind (space.read (barOffset n))
  verify (kind = .Mem64Bit → n < 5)
  let asked := space.write (barOffset n) 0xFFFFFFFF#32
  let sizeBarVal := asked.read (barOffset n)
  let after := asked.write (barOffset n) (space.read (barOffset n))
  let size := ~~~(sizeBarVal &&& (addressMask kind).setWidth 32) + 1
  return (⟨(barValue space n kind &&& addressMask kind).toNat, size.toNat, kind, true⟩, after)

/-- `Function::write_bar` -/
def writeBar (space : ConfigSpace) (n : ℕ) (kind : AddressSpaceKind) (address : BitVec 64) :
    Except Fault ConfigSpace := do
  let mask : BitVec 32 := if kind = .Io then 0xFFFFFFFC#32 else 0xFFFFFFF0#32
  if kind = .Io ∨ kind = .Mem32Bit then
    verify (address >>> 32 = 0)
    return space.write (barOffset n) (address.setWidth 32 &&& mask)
  else
    let above := space.write (barOffset n + 4) ((address >>> 32).setWidth 32)
    return above.write (barOffset n) (address.setWidth 32 &&& mask)

/-! ## The controller -/

/-- `Address` -/
structure Address where
  address : ℕ
  flags : BitVec 32
deriving DecidableEq, Repr

/-- `Address::space_code` -/
def Address.spaceCode (address : Address) : AddressSpaceKind :=
  match ((address.flags >>> 24) &&& 3).toNat with
  | 0 => .Configuration
  | 1 => .Io
  | 2 => .Mem32Bit
  | _ => .Mem64Bit

/-- `AllocatedRange` -/
structure AllocatedRange where
  pcieAddress : Address
  globalAddress : ℕ
  size : ℕ
  mappedPtr : ℕ
  usage : ℕ
deriving DecidableEq, Repr

/-- `DeviceArea` -/
structure DeviceArea where
  physicalStart : ℕ
  virtualStart : ℕ
  size : ℕ
deriving DecidableEq, Repr

/-- `bek::align_up` of a usage. -/
def alignUsage (usage size : ℕ) : ℕ :=
  (usage + size - 1) % 2 ^ 64 / size * size

/-- The range has room for a window of the size. -/
def AllocatedRange.hasRoom (range : AllocatedRange) (kind : AddressSpaceKind) (size : ℕ) : Prop :=
  range.pcieAddress.spaceCode = kind ∧
    (alignUsage range.usage size + size) % 2 ^ 64 ≤ range.size
deriving Decidable

/-- The loop of `initialise_bar`: the first range with room. -/
def allocateBar (space : ConfigSpace) (n : ℕ) (kind : AddressSpaceKind) (size : ℕ) :
    List AllocatedRange → Except Fault (DeviceArea × ConfigSpace × List AllocatedRange)
  | [] => .error .panic
  | range :: ranges =>
      if range.hasRoom kind size then do
        let offset := alignUsage range.usage size
        let after ← writeBar space n kind (BitVec.ofNat 64 (range.pcieAddress.address + offset))
        let area : DeviceArea :=
          ⟨range.globalAddress, (range.mappedPtr + offset) % 2 ^ 64, size⟩
        return (area, after, { range with usage := (offset + size) % 2 ^ 64 } :: ranges)
      else do
        let (area, after, others) ← allocateBar space n kind size ranges
        return (area, after, range :: others)

/-- `Controller::initialise_bar` -/
def initialiseBar (ranges : List AllocatedRange) (space : ConfigSpace) (n : ℕ) :
    Except Fault (DeviceArea × ConfigSpace × List AllocatedRange) := do
  let (bar, space) ← bar space n
  verify (bar.size > 0)
  verify (bar.address = 0)
  allocateBar space n bar.kind bar.size ranges

/-! ## The registers of a device -/

/-- What the low bits of a register say of its kind. -/
def kindBits : AddressSpaceKind → List (BitVec 32)
  | .Configuration => []
  | .Io => [0b0001#32]
  | .Mem32Bit => [0b0000#32, 0b1000#32]
  | .Mem64Bit => [0b0100#32, 0b1100#32]

/-- The bits of an address that are kept in a register for a window of `2 ^ exponent` bytes. -/
def keptBits (exponent : ℕ) : BitVec 64 :=
  BitVec.allOnes 64 <<< exponent

/-- A register for a window of a kind, and of `2 ^ exponent` bytes, to which no address has been
given yet. -/
structure Unassigned (space : ConfigSpace) (n : ℕ) (kind : AddressSpaceKind) (exponent : ℕ) :
    Prop where
  kindBits : space.read (barOffset n) ∈ kindBits kind
  least : (if kind = .Io then 2 else 4) ≤ exponent
  most : exponent < if kind = .Mem64Bit then 64 else 32
  kept : (space (barOffset n)).writable = (keptBits exponent).setWidth 32
  above : kind = .Mem64Bit →
    space (barOffset n + 4) = ⟨0, (keptBits exponent >>> 32).setWidth 32⟩

section Register

variable {space after : ConfigSpace} {n exponent : ℕ} {kind : AddressSpaceKind}

theorem ConfigRegister.write_write (register : ConfigRegister) (value : BitVec 32) :
    (register.write value).write register.value = register := by
  obtain ⟨old, writable⟩ := register
  refine congrArg (ConfigRegister.mk · writable) (BitVec.eq_of_getLsbD_eq fun i hi => ?_)
  simp only [ConfigRegister.write, BitVec.getLsbD_or, BitVec.getLsbD_and, BitVec.getLsbD_not, hi]
  cases old.getLsbD i <;> cases writable.getLsbD i <;> simp

theorem ConfigSpace.write_write (space : ConfigSpace) (offset : ℕ) (value : BitVec 32) :
    (space.write offset value).write offset (space.read offset) = space := by
  unfold ConfigSpace.write
  rw [update_idem, update_self]
  exact (congrArg _ ((space offset).write_write value)).trans (update_eq_self ..)

theorem getBarKind_of_mem {value : BitVec 32} (hmem : value ∈ kindBits kind) :
    getBarKind value = .ok kind := by
  cases kind with
  | Configuration => cases hmem
  | Io => rw [List.mem_singleton.mp hmem]; rfl
  | Mem32Bit | Mem64Bit =>
      rcases List.mem_pair.mp hmem with rfl | rfl <;> rfl

theorem kindBits_and_addressMask {value : BitVec 32} (hmem : value ∈ kindBits kind) :
    value &&& (addressMask kind).setWidth 32 = 0 := by
  cases kind with
  | Configuration => cases hmem
  | Io => rw [List.mem_singleton.mp hmem]; rfl
  | Mem32Bit | Mem64Bit =>
      rcases List.mem_pair.mp hmem with rfl | rfl <;> rfl

theorem keptBits_and_addressMask (hleast : (if kind = .Io then 2 else 4) ≤ exponent)
    (hmost : exponent < 64) : keptBits exponent &&& addressMask kind = keptBits exponent := by
  have hall : ∀ exponent : Fin 64,
      (2 ≤ exponent.val → keptBits exponent &&& 0xFFFFFFFFFFFFFFFC#64 = keptBits exponent) ∧
      (4 ≤ exponent.val → keptBits exponent &&& 0xFFFFFFFFFFFFFFF0#64 = keptBits exponent) := by
    decide +kernel
  unfold addressMask
  split_ifs at hleast ⊢
  · exact (hall ⟨exponent, hmost⟩).1 hleast
  · exact (hall ⟨exponent, hmost⟩).2 hleast

theorem not_keptBits_add_one (hmost : exponent < 64) :
    (~~~((keptBits exponent).setWidth 32) + 1 : BitVec 32).toNat =
      if exponent < 32 then 2 ^ exponent else 0 := by
  have hall : ∀ exponent : Fin 64,
      (~~~((keptBits exponent).setWidth 32) + 1 : BitVec 32).toNat =
        if exponent.val < 32 then 2 ^ exponent.val else 0 := by
    decide +kernel
  exact hall ⟨exponent, hmost⟩

theorem and_keptBits_toNat (address : BitVec 64) (exponent : ℕ) :
    (address &&& keptBits exponent).toNat = address.toNat / 2 ^ exponent * 2 ^ exponent := by
  have hshift : address &&& keptBits exponent = (address >>> exponent) <<< exponent := by
    refine BitVec.eq_of_getLsbD_eq fun i hi => ?_
    simp only [keptBits, BitVec.getLsbD_and, BitVec.getLsbD_shiftLeft, BitVec.getLsbD_ushiftRight,
      BitVec.getLsbD_allOnes, hi]
    by_cases hbelow : i < exponent
    · simp [hbelow]
    · have hsub : i - exponent < 64 := by omega
      have hadd : exponent + (i - exponent) = i := by omega
      simp [hbelow, hsub, hadd]
  rw [hshift, BitVec.toNat_shiftLeft, BitVec.toNat_ushiftRight, Nat.shiftLeft_eq,
    Nat.shiftRight_eq_div_pow]
  exact Nat.mod_eq_of_lt ((Nat.div_mul_le_self _ _).trans_lt address.isLt)

theorem merged_and_mask {old writable value mask : BitVec 32} (hold : old &&& mask = 0)
    (hwritable : writable &&& mask = writable) :
    ((old &&& ~~~writable) ||| (value &&& writable)) &&& mask = value &&& writable := by
  refine BitVec.eq_of_getLsbD_eq fun i hi => ?_
  have hold' := congrArg (BitVec.getLsbD · i) hold
  have hwritable' := congrArg (BitVec.getLsbD · i) hwritable
  simp only [BitVec.getLsbD_or, BitVec.getLsbD_and, BitVec.getLsbD_not, hi]
    at hold' hwritable' ⊢
  revert hold' hwritable'
  cases old.getLsbD i <;> cases writable.getLsbD i <;> cases mask.getLsbD i <;> simp

theorem setWidth_and_mask (value : BitVec 32) (mask : BitVec 64) :
    value.setWidth 64 &&& mask = (value &&& mask.setWidth 32).setWidth 64 := by
  refine BitVec.eq_of_getLsbD_eq fun i hi => ?_
  simp only [BitVec.getLsbD_and, BitVec.getLsbD_setWidth, hi, decide_true, Bool.true_and]
  by_cases hlow : i < 32
  · simp [hlow]
  · simp [BitVec.getLsbD_of_ge value i (by omega)]

theorem halves_eq (address : BitVec 64) :
    (address.setWidth 32).setWidth 64 ||| ((address >>> 32).setWidth 32).setWidth 64 <<< 32 =
      address := by
  refine BitVec.eq_of_getLsbD_eq fun i hi => ?_
  simp only [BitVec.getLsbD_or, BitVec.getLsbD_setWidth, BitVec.getLsbD_shiftLeft,
    BitVec.getLsbD_ushiftRight, hi, decide_true, Bool.true_and]
  by_cases hlow : i < 32
  · simp [hlow]
  · have hsub : i - 32 < 32 := by omega
    have hsub' : i - 32 < 64 := by omega
    have hadd : 32 + (i - 32) = i := by omega
    simp [hlow, hsub, hsub', hadd]

theorem shiftLeft_and_addressMask (value : BitVec 64) (kind : AddressSpaceKind) :
    value <<< 32 &&& addressMask kind = value <<< 32 := by
  have hones : BitVec.allOnes 64 <<< 32 &&& addressMask kind = BitVec.allOnes 64 <<< 32 := by
    unfold addressMask
    split_ifs <;> rfl
  rw [← BitVec.allOnes_shiftLeft_and_shiftLeft, BitVec.and_comm (BitVec.allOnes 64 <<< 32),
    BitVec.and_assoc, hones]

theorem Unassigned.exponent_lt (unassigned : Unassigned space n kind exponent) : exponent < 64 := by
  have hmost := unassigned.most
  split_ifs at hmost <;> omega

theorem Unassigned.kept_and_mask (unassigned : Unassigned space n kind exponent) :
    (space (barOffset n)).writable &&& (addressMask kind).setWidth 32 =
      (space (barOffset n)).writable := by
  rw [unassigned.kept, ← BitVec.setWidth_and,
    keptBits_and_addressMask unassigned.least unassigned.exponent_lt]

/-- **What is written** to a register, as far as it is of the address. -/
theorem Unassigned.write_and_mask (unassigned : Unassigned space n kind exponent)
    (value : BitVec 32) :
    ((space (barOffset n)).write value).value &&& (addressMask kind).setWidth 32 =
      value &&& (keptBits exponent).setWidth 32 := by
  rw [← unassigned.kept]
  exact merged_and_mask (kindBits_and_addressMask unassigned.kindBits) unassigned.kept_and_mask

theorem Unassigned.barValue_and (unassigned : Unassigned space n kind exponent) :
    barValue space n kind &&& addressMask kind = 0 := by
  have hlow : (space.read (barOffset n)).setWidth 64 &&& addressMask kind = 0 := by
    rw [setWidth_and_mask, kindBits_and_addressMask unassigned.kindBits]
    rfl
  unfold barValue
  split_ifs with h64
  · have habove : space.read (barOffset n + 4) = 0 :=
      congrArg ConfigRegister.value (unassigned.above h64)
    rw [habove]
    simpa using hlow
  · exact hlow

/-- **What is read** of a register: its kind, and its size, if it is of 32 bits. -/
theorem Unassigned.bar_eq_ok (unassigned : Unassigned space n kind exponent)
    {found : BaseAddressRegister} (hbar : bar space n = .ok (found, after)) :
    after = space ∧ found =
      ⟨0, if exponent < 32 then 2 ^ exponent else 0, kind, true⟩ := by
  unfold bar at hbar
  rw [getBarKind_of_mem unassigned.kindBits, ok_bind] at hbar
  obtain ⟨_, -, hbar⟩ := bind_eq_ok.mp hbar
  obtain ⟨hfound, hafter⟩ := Prod.mk.inj (Except.ok.inj hbar)
  refine ⟨hafter.symm.trans (space.write_write _ _), hfound.symm.trans ?_⟩
  have hsize : (space.write (barOffset n) 0xFFFFFFFF#32).read (barOffset n) &&&
      (addressMask kind).setWidth 32 = (keptBits exponent).setWidth 32 := by
    unfold ConfigSpace.write ConfigSpace.read
    rw [update_self, unassigned.write_and_mask]
    exact BitVec.allOnes_and
  rw [hsize, not_keptBits_add_one unassigned.exponent_lt, unassigned.barValue_and]
  rfl

/-- **What is kept** of an address that is written: its bits from the exponent on. -/
theorem Unassigned.writeBar_eq_ok (unassigned : Unassigned space n kind exponent)
    {address : BitVec 64} (hwrite : writeBar space n kind address = .ok after) :
    barValue after n kind &&& addressMask kind = address &&& keptBits exponent := by
  have hmask : (if kind = .Io then 0xFFFFFFFC#32 else 0xFFFFFFF0#32) =
      (addressMask kind).setWidth 32 := by
    unfold addressMask
    split_ifs <;> rfl
  have hlow : ((space (barOffset n)).write (address.setWidth 32 &&&
      (addressMask kind).setWidth 32)).value.setWidth 64 &&& addressMask kind =
        ((address &&& keptBits exponent).setWidth 32).setWidth 64 := by
    rw [setWidth_and_mask, unassigned.write_and_mask, ← BitVec.setWidth_and, ← BitVec.setWidth_and,
      BitVec.and_assoc, BitVec.and_comm (addressMask kind),
      keptBits_and_addressMask unassigned.least unassigned.exponent_lt]
  have hhalves := halves_eq (address &&& keptBits exponent)
  unfold writeBar at hwrite
  rw [hmask] at hwrite
  dsimp only at hwrite
  split_ifs at hwrite with hnarrow
  · obtain ⟨_, hhigh, hwrite⟩ := bind_eq_ok.mp hwrite
    have hhigh := verify_eq_ok.mp hhigh
    cases hwrite
    have hne : kind ≠ .Mem64Bit := by
      rintro rfl
      rcases hnarrow with h | h <;> cases h
    have hzero : (address &&& keptBits exponent) >>> 32 = 0 := by
      rw [BitVec.ushiftRight_and_distrib, hhigh]
      exact BitVec.zero_and
    rw [barValue, if_neg hne, ConfigSpace.read, ConfigSpace.write, update_self, hlow,
      ← hhalves, hzero]
    simp
  · cases hwrite
    have h64 : kind = .Mem64Bit := by
      obtain ⟨hio, h32⟩ := not_or.mp hnarrow
      have hbits := unassigned.kindBits
      cases kind with
      | Configuration => cases hbits
      | Io => exact absurd rfl hio
      | Mem32Bit => exact absurd rfl h32
      | Mem64Bit => rfl
    have hne : barOffset n + 4 ≠ barOffset n := (Nat.lt_add_of_pos_right (by decide)).ne'
    have habove : ((space (barOffset n + 4)).write ((address >>> 32).setWidth 32)).value =
        ((address &&& keptBits exponent) >>> 32).setWidth 32 := by
      rw [unassigned.above h64, BitVec.ushiftRight_and_distrib, BitVec.setWidth_and]
      exact (congrArg (· ||| _) BitVec.zero_and).trans BitVec.zero_or
    rw [barValue, if_pos h64, ConfigSpace.read, ConfigSpace.read, ConfigSpace.write,
      ConfigSpace.write, update_self, update_of_ne hne, update_self,
      update_of_ne hne.symm, habove]
    refine Eq.trans ?_ hhalves
    rw [BitVec.and_or_distrib_right, hlow, shiftLeft_and_addressMask]

end Register

/-! ## Assigned windows -/

/-- A call of `initialise_bar`: the registers of the function, and the number of one to which no
address has been given. -/
structure BarCall where
  space : ConfigSpace
  n : ℕ
  kind : AddressSpaceKind
  exponent : ℕ
  unassigned : Unassigned space n kind exponent

/-- `bar.size` -/
def BarCall.size (call : BarCall) : ℕ := 2 ^ call.exponent

/-- What a call has given: the window that the register has, and the area that is returned. -/
structure Assigned where
  kind : AddressSpaceKind
  start : ℕ
  size : ℕ
  area : DeviceArea
deriving DecidableEq, Repr

/-- The calls one after the other, until the kernel stops. -/
def assign (ranges : List AllocatedRange) : List BarCall → List Assigned
  | [] => []
  | call :: calls =>
      match initialiseBar ranges call.space call.n with
      | .error _ => []
      | .ok (area, after, ranges) =>
          { kind := call.kind
            start := (barValue after call.n call.kind &&& addressMask call.kind).toNat
            size := call.size
            area := area } :: assign ranges calls

/-- Addresses of the bus, and where the host has them. -/
structure HostRange where
  kind : AddressSpaceKind
  address : ℕ
  size : ℕ
  physical : ℕ
  virtual : ℕ
deriving DecidableEq, Repr

/-- What a range of the controller is a range of. -/
def AllocatedRange.host (range : AllocatedRange) : HostRange where
  kind := range.pcieAddress.spaceCode
  address := range.pcieAddress.address
  size := range.size
  physical := range.globalAddress
  virtual := range.mappedPtr

/-- The bus has these addresses apart from the others. -/
inductive BusSpace
  | configuration
  | io
  | memory
deriving DecidableEq, Repr

/-- Memory is one space, whatever the width of its addresses. -/
def AddressSpaceKind.space : AddressSpaceKind → BusSpace
  | .Configuration => .configuration
  | .Io => .io
  | .Mem32Bit | .Mem64Bit => .memory

/-- The addresses of two ranges are apart. -/
def HostRange.Apart (range other : HostRange) : Prop :=
  range.kind.space = other.kind.space →
    range.address + range.size ≤ other.address ∨ other.address + other.size ≤ range.address

/-- Ranges of addresses of 64 bits, of which no two have an address of the bus in common. -/
structure HostRanges (hosts : List HostRange) : Prop where
  fits : ∀ range ∈ hosts, range.address + range.size ≤ 2 ^ 64 ∧
    range.physical + range.size ≤ 2 ^ 64 ∧ range.virtual + range.size ≤ 2 ^ 64
  apart : hosts.Pairwise HostRange.Apart

/-- The window is in the range, and the area is where the host has it. -/
structure Assigned.HeldBy (window : Assigned) (range : HostRange) : Prop where
  kind : range.kind = window.kind
  first : range.address ≤ window.start
  last : window.start + window.size ≤ range.address + range.size
  area : window.area = ⟨range.physical + (window.start - range.address),
    range.virtual + (window.start - range.address), window.size⟩

/-- Two windows are apart. -/
def Assigned.Apart (window other : Assigned) : Prop :=
  window.kind.space = other.kind.space →
    window.start + window.size ≤ other.start ∨ other.start + other.size ≤ window.start

/-- The windows are right. -/
structure AssignedRight (hosts : List HostRange) (windows : List Assigned) : Prop where
  held : ∀ window ∈ windows, ∃ range ∈ hosts, window.HeldBy range
  aligned : ∀ window ∈ windows, window.size ∣ window.start
  apart : windows.Pairwise Assigned.Apart

/-- The range that a call takes its window from has not been used, and begins at a multiple of the
size of the window. -/
def StepFresh (ranges : List AllocatedRange) (call : BarCall) : Prop :=
  ∀ range, ranges.find? (fun range => range.hasRoom call.kind call.size) = some range →
    range.usage = 0 ∧ call.size ∣ range.pcieAddress.address

/-- So it is with each call that returns. -/
def RunFresh (ranges : List AllocatedRange) : List BarCall → Prop
  | [] => True
  | call :: calls =>
      match initialiseBar ranges call.space call.n with
      | .error _ => True
      | .ok (_, _, after) => StepFresh ranges call ∧ RunFresh after calls

/-! ## One call -/

section Call

variable {ranges : List AllocatedRange} {space : ConfigSpace} {n : ℕ} {kind : AddressSpaceKind}
  {size : ℕ}

/-- What `initialise_bar` does when it finds room: in which range, and what it makes of it. -/
structure Given (ranges : List AllocatedRange) (space : ConfigSpace) (n : ℕ)
    (kind : AddressSpaceKind) (size : ℕ) (area : DeviceArea) (after : ConfigSpace)
    (rangesAfter : List AllocatedRange) (range : AllocatedRange)
    (before rest : List AllocatedRange) : Prop where
  parts : ranges = before ++ range :: rest
  found : ranges.find? (fun range => range.hasRoom kind size) = some range
  written : writeBar space n kind (BitVec.ofNat 64
    (range.pcieAddress.address + alignUsage range.usage size)) = .ok after
  area : area =
    ⟨range.globalAddress, (range.mappedPtr + alignUsage range.usage size) % 2 ^ 64, size⟩
  rangesAfter : rangesAfter = before ++
    { range with usage := (alignUsage range.usage size + size) % 2 ^ 64 } :: rest

theorem allocateBar_eq_ok {area : DeviceArea} {after : ConfigSpace}
    {rangesAfter : List AllocatedRange}
    (halloc : allocateBar space n kind size ranges = .ok (area, after, rangesAfter)) :
    ∃ range before rest,
      Given ranges space n kind size area after rangesAfter range before rest := by
  induction ranges generalizing rangesAfter with
  | nil => cases halloc
  | cons range ranges ih =>
      unfold allocateBar at halloc
      split_ifs at halloc with hroom
      · obtain ⟨written, hwritten, halloc⟩ := bind_eq_ok.mp halloc
        cases halloc
        exact ⟨range, [], ranges, rfl, List.find?_cons_of_pos (decide_eq_true hroom), hwritten,
          rfl, rfl⟩
      · obtain ⟨⟨_, _, others⟩, hothers, halloc⟩ := bind_eq_ok.mp halloc
        cases halloc
        obtain ⟨found, before, rest, given⟩ := ih hothers
        refine ⟨found, range :: before, rest, ?_, ?_, given.written, given.area, ?_⟩
        · rw [given.parts, List.cons_append]
        · rw [List.find?_cons_of_neg (by rwa [decide_eq_true_eq])]
          exact given.found
        · rw [given.rangesAfter, List.cons_append]

/-- **A call that returns** has asked for a window of 32 bits. -/
theorem BarCall.initialiseBar_eq_ok (call : BarCall) {area : DeviceArea} {after : ConfigSpace}
    {rangesAfter : List AllocatedRange}
    (hcall : initialiseBar ranges call.space call.n = .ok (area, after, rangesAfter)) :
    call.exponent < 32 ∧ ∃ range before rest,
      Given ranges call.space call.n call.kind call.size area after rangesAfter range before
        rest := by
  obtain ⟨⟨found, space'⟩, hbar, hcall⟩ := bind_eq_ok.mp hcall
  obtain ⟨rfl, rfl⟩ := call.unassigned.bar_eq_ok hbar
  obtain ⟨_, hpos, hcall⟩ := bind_eq_ok.mp hcall
  obtain ⟨_, -, hcall⟩ := bind_eq_ok.mp hcall
  have hpos := verify_eq_ok.mp hpos
  dsimp only at hpos hcall
  split_ifs at hpos hcall with hlt
  · exact ⟨hlt, allocateBar_eq_ok hcall⟩
  · exact absurd hpos (lt_irrefl 0)

theorem alignUsage_spec {usage : ℕ} (husage : usage ≤ 2 ^ 32) (hpos : 0 < size)
    (hsize : size ≤ 2 ^ 32) : size ∣ alignUsage usage size ∧ usage ≤ alignUsage usage size ∧
      alignUsage usage size < usage + size := by
  have hwrap : (usage + size - 1) % 2 ^ 64 = usage + size - 1 := Nat.mod_eq_of_lt (by omega)
  have hdiv := Nat.div_add_mod (usage + size - 1) size
  have hmod := Nat.mod_lt (usage + size - 1) hpos
  unfold alignUsage
  rw [hwrap, Nat.mul_comm]
  exact ⟨Nat.dvd_mul_right _ _, by omega, by omega⟩

/-- The window of a call, and where it is from. -/
structure CallGiven (ranges : List AllocatedRange) (call : BarCall) (window : Assigned)
    (rangesAfter : List AllocatedRange) (range : AllocatedRange)
    (before rest : List AllocatedRange) : Prop where
  parts : ranges = before ++ range :: rest
  found : ranges.find? (fun range => range.hasRoom call.kind call.size) = some range
  narrow : call.exponent < 32
  kind : window.kind = call.kind
  start : window.start = (range.pcieAddress.address + alignUsage range.usage call.size) %
    2 ^ 64 / call.size * call.size
  size : window.size = call.size
  area : window.area = ⟨range.globalAddress,
    (range.mappedPtr + alignUsage range.usage call.size) % 2 ^ 64, call.size⟩
  rangesAfter : rangesAfter = before ++
    { range with usage := (alignUsage range.usage call.size + call.size) % 2 ^ 64 } :: rest

theorem alignUsage_zero (hpos : 0 < size) (hsize : size ≤ 2 ^ 32) : alignUsage 0 size = 0 := by
  obtain ⟨hdvd, -, hless⟩ := alignUsage_spec (Nat.zero_le _) hpos hsize
  rw [Nat.zero_add] at hless
  exact Nat.eq_zero_of_dvd_of_lt hdvd hless

/-- **The calls one after the other**: the first stops the kernel, or it gives a window. -/
theorem assign_cons (ranges : List AllocatedRange) (call : BarCall) (calls : List BarCall) :
    (assign ranges (call :: calls) = [] ∧ RunFresh ranges (call :: calls)) ∨
    ∃ window rangesAfter range before rest,
      CallGiven ranges call window rangesAfter range before rest ∧
      assign ranges (call :: calls) = window :: assign rangesAfter calls ∧
      (RunFresh ranges (call :: calls) ↔ StepFresh ranges call ∧ RunFresh rangesAfter calls) := by
  rw [assign, RunFresh]
  cases hcall : initialiseBar ranges call.space call.n with
  | error fault => exact Or.inl ⟨rfl, trivial⟩
  | ok out =>
      obtain ⟨area, after, rangesAfter⟩ := out
      obtain ⟨hlt, range, before, rest, given⟩ := call.initialiseBar_eq_ok hcall
      refine Or.inr ⟨_, rangesAfter, range, before, rest, ⟨given.parts, given.found, hlt, rfl, ?_,
        rfl, given.area, given.rangesAfter⟩, rfl, Iff.rfl⟩
      rw [call.unassigned.writeBar_eq_ok given.written, and_keptBits_toNat, BitVec.toNat_ofNat]
      rfl

end Call

/-! ## Runs -/

section Runs

variable {ranges rangesAfter before rest : List AllocatedRange} {range : AllocatedRange}
  {call : BarCall} {calls : List BarCall} {window other : Assigned}

theorem CallGiven.mem (given : CallGiven ranges call window rangesAfter range before rest) :
    range ∈ ranges :=
  List.mem_of_find?_eq_some given.found

theorem CallGiven.hasRoom (given : CallGiven ranges call window rangesAfter range before rest) :
    range.hasRoom call.kind call.size := by
  have hroom := List.find?_some given.found
  rwa [decide_eq_true_eq] at hroom

theorem CallGiven.host_eq (given : CallGiven ranges call window rangesAfter range before rest) :
    rangesAfter.map AllocatedRange.host = ranges.map AllocatedRange.host := by
  rw [given.rangesAfter, given.parts, List.map_append, List.map_append]
  rfl

theorem CallGiven.size_bounds
    (given : CallGiven ranges call window rangesAfter range before rest) :
    0 < call.size ∧ call.size < 2 ^ 32 :=
  ⟨Nat.two_pow_pos _, Nat.pow_lt_pow_right (by decide) given.narrow⟩

/-- **A window from a range that has not been used**, if the range begins at a multiple of its
size. -/
theorem CallGiven.heldBy (given : CallGiven ranges call window rangesAfter range before rest)
    (hosts : HostRanges (ranges.map AllocatedRange.host)) (hunused : range.usage = 0)
    (haligned : call.size ∣ range.pcieAddress.address) :
    window.HeldBy range.host ∧ window.size ∣ window.start := by
  obtain ⟨hpos, hlt⟩ := given.size_bounds
  obtain ⟨haddress, -, hvirtual⟩ := hosts.fits _ (List.mem_map_of_mem given.mem)
  obtain ⟨hkind, hroom⟩ := given.hasRoom
  have hoffset : alignUsage range.usage call.size = 0 := by
    rw [hunused, alignUsage_zero hpos hlt.le]
  rw [hoffset, Nat.zero_add, Nat.mod_eq_of_lt (by omega)] at hroom
  dsimp only [AllocatedRange.host] at haddress hvirtual
  have hstart : window.start = range.pcieAddress.address := by
    rw [given.start, hoffset, Nat.add_zero, Nat.mod_eq_of_lt (by omega), Nat.div_mul_cancel haligned]
  refine ⟨⟨hkind.trans given.kind.symm, hstart.ge, ?_, ?_⟩, ?_⟩
  · rw [hstart, given.size]
    exact Nat.add_le_add_left hroom _
  · rw [given.area, hoffset, hstart, given.size, Nat.add_zero, Nat.mod_eq_of_lt (by omega)]
    dsimp only [AllocatedRange.host]
    rw [Nat.sub_self, Nat.add_zero, Nat.add_zero]
  · rw [given.size, hstart]
    exact haligned

theorem HostRange.Apart.windows {host host' : HostRange} (apart : host.Apart host')
    (held : window.HeldBy host) (held' : other.HeldBy host') : window.Apart other := by
  intro hspace
  rw [← held.kind, ← held'.kind] at hspace
  have := held.first
  have := held.last
  have := held'.first
  have := held'.last
  rcases apart hspace with hbefore | hbefore
  · exact Or.inl (by omega)
  · exact Or.inr (by omega)

theorem HostRange.Apart.symm {host host' : HostRange} (apart : host.Apart host') :
    host'.Apart host := fun hspace => (apart hspace.symm).symm

instance : Std.Symm HostRange.Apart :=
  ⟨fun _ _ => HostRange.Apart.symm⟩

theorem CallGiven.apart (given : CallGiven ranges call window rangesAfter range before rest)
    (hosts : HostRanges (ranges.map AllocatedRange.host)) {other : AllocatedRange}
    (hother : other ∈ before ∨ other ∈ rest) : range.host.Apart other.host := by
  have hpairwise := hosts.apart
  rw [given.parts, List.map_append, List.map_cons, List.pairwise_append, List.pairwise_cons]
    at hpairwise
  obtain ⟨-, ⟨hrest, -⟩, hbefore⟩ := hpairwise
  rcases hother with hother | hother
  · exact (hbefore _ (List.mem_map_of_mem hother) _ List.mem_cons_self).symm
  · exact hrest _ (List.mem_map_of_mem hother)

theorem CallGiven.of_unused (given : CallGiven ranges call window rangesAfter range before rest)
    (husage : range.usage ≤ 2 ^ 32) {other : AllocatedRange} (hmem : other ∈ rangesAfter)
    (hunused : other.usage = 0) : other ∈ before ∨ other ∈ rest := by
  obtain ⟨hpos, hlt⟩ := given.size_bounds
  obtain ⟨-, -, hless⟩ := alignUsage_spec husage hpos hlt.le
  rw [given.rangesAfter, List.mem_append, List.mem_cons] at hmem
  rcases hmem with hbefore | rfl | hrest
  · exact Or.inl hbefore
  · dsimp only at hunused
    omega
  · exact Or.inr hrest

theorem AssignedRight.nil (hosts : List HostRange) : AssignedRight hosts [] where
  held := List.forall_mem_nil _
  aligned := List.forall_mem_nil _
  apart := List.Pairwise.nil

/-- **Fresh runs are right**: each window is of a range that no window before it is of. -/
theorem assignedRight_of_fresh (hosts : HostRanges (ranges.map AllocatedRange.host))
    (fresh : RunFresh ranges calls) :
    AssignedRight (ranges.map AllocatedRange.host) (assign ranges calls) ∧
      ∀ window ∈ assign ranges calls, ∃ range ∈ ranges, range.usage = 0 ∧
        window.HeldBy range.host := by
  induction calls generalizing ranges with
  | nil => exact ⟨.nil _, List.forall_mem_nil _⟩
  | cons call calls ih =>
      rcases assign_cons ranges call calls with ⟨hnil, -⟩ |
        ⟨window, rangesAfter, range, before, rest, given, hassign, hfresh⟩
      · rw [hnil]
        exact ⟨.nil _, List.forall_mem_nil _⟩
      · obtain ⟨hstep, hrun⟩ := hfresh.mp fresh
        obtain ⟨hunused, haligned⟩ := hstep range given.found
        obtain ⟨held, haligned⟩ := given.heldBy hosts hunused haligned
        obtain ⟨right, hlater⟩ := ih (given.host_eq ▸ hosts) hrun
        rw [given.host_eq] at right
        -- a later window is of a range that was unused then, and so it is not of this one
        have hothers : ∀ later ∈ assign rangesAfter calls, ∃ other ∈ ranges,
            other.usage = 0 ∧ later.HeldBy other.host ∧ range.host.Apart other.host := by
          intro later hmem
          obtain ⟨other, hother, hzero, heldLater⟩ := hlater later hmem
          have hside := given.of_unused (hunused ▸ Nat.zero_le _) hother hzero
          refine ⟨other, ?_, hzero, heldLater, given.apart hosts hside⟩
          rw [given.parts, List.mem_append, List.mem_cons]
          exact hside.imp id Or.inr
        rw [hassign]
        refine ⟨⟨List.forall_mem_cons.mpr ⟨⟨_, List.mem_map_of_mem given.mem, held⟩, right.held⟩,
          List.forall_mem_cons.mpr ⟨haligned, right.aligned⟩,
          List.pairwise_cons.mpr ⟨fun later hmem => ?_, right.apart⟩⟩,
          List.forall_mem_cons.mpr ⟨⟨range, given.mem, hunused, held⟩, fun later hmem => ?_⟩⟩
        · obtain ⟨other, -, -, heldLater, apart⟩ := hothers later hmem
          exact apart.windows held heldLater
        · obtain ⟨other, hother, hzero, heldLater, -⟩ := hothers later hmem
          exact ⟨other, hother, hzero, heldLater⟩

/-- **A window that is right** is of a range that has not been used: the physical address is that of
the start of the range, wherever the window is. -/
theorem CallGiven.fresh_of_right
    (given : CallGiven ranges call window rangesAfter range before rest)
    (hosts : HostRanges (ranges.map AllocatedRange.host)) (husage : range.usage ≤ 2 ^ 32)
    {host : HostRange} (hmem : host ∈ ranges.map AllocatedRange.host)
    (held : window.HeldBy host) (haligned : window.size ∣ window.start) :
    range.usage = 0 ∧ call.size ∣ range.pcieAddress.address := by
  obtain ⟨hpos, hlt⟩ := given.size_bounds
  obtain ⟨haddress, -, -⟩ := hosts.fits _ (List.mem_map_of_mem given.mem)
  obtain ⟨hkind, hroom⟩ := given.hasRoom
  obtain ⟨hdvd, hle, hless⟩ := alignUsage_spec husage hpos hlt.le
  have hstart := given.start
  rw [Nat.mod_eq_of_lt (by omega)] at hroom
  rw [Nat.mod_eq_of_lt (by dsimp only [AllocatedRange.host] at haddress; omega)] at hstart
  have hdiv := Nat.div_add_mod (range.pcieAddress.address + alignUsage range.usage call.size)
    call.size
  have hmod := Nat.mod_lt (range.pcieAddress.address + alignUsage range.usage call.size) hpos
  rw [Nat.mul_comm, ← hstart] at hdiv
  have hfirst := held.first
  have hlast := held.last
  rw [given.size] at hlast haligned
  -- the window and the range have an address in common
  have hhost : host = range.host := by
    by_contra hne
    have hspace : host.kind.space = range.host.kind.space :=
      congrArg _ (held.kind.trans (given.kind.trans hkind.symm))
    rcases hosts.apart.forall hmem
      (List.mem_map_of_mem given.mem) hne hspace with hbefore | hbefore
    · dsimp only [AllocatedRange.host] at hbefore
      omega
    · dsimp only [AllocatedRange.host] at hbefore
      omega
  subst hhost
  have hphysical := congrArg DeviceArea.physicalStart (given.area.symm.trans held.area)
  dsimp only [AllocatedRange.host] at hphysical hfirst
  have hat : window.start = range.pcieAddress.address := by omega
  rw [hat] at haligned
  have hmodzero := Nat.mod_eq_zero_of_dvd (Nat.dvd_add haligned hdvd)
  exact ⟨by omega, haligned⟩

/-- **And right runs are fresh.** -/
theorem fresh_of_assignedRight (hosts : HostRanges (ranges.map AllocatedRange.host))
    (husage : ∀ range ∈ ranges, range.usage ≤ 2 ^ 32)
    (right : AssignedRight (ranges.map AllocatedRange.host) (assign ranges calls)) :
    RunFresh ranges calls := by
  induction calls generalizing ranges with
  | nil => trivial
  | cons call calls ih =>
      rcases assign_cons ranges call calls with ⟨-, hfresh⟩ |
        ⟨window, rangesAfter, range, before, rest, given, hassign, hfresh⟩
      · exact hfresh
      · rw [hassign] at right
        obtain ⟨⟨host, hmem, held⟩, heldLater⟩ := List.forall_mem_cons.mp right.held
        obtain ⟨haligned, alignedLater⟩ := List.forall_mem_cons.mp right.aligned
        obtain ⟨-, apartLater⟩ := List.pairwise_cons.mp right.apart
        have hfirst := given.fresh_of_right hosts (husage _ given.mem) hmem held haligned
        refine hfresh.mpr ⟨fun found hfound => ?_, ih (given.host_eq ▸ hosts) ?_ ?_⟩
        · cases hfound.symm.trans given.found
          exact hfirst
        · obtain ⟨hpos, hlt⟩ := given.size_bounds
          intro other hother
          rw [given.rangesAfter, List.mem_append, List.mem_cons] at hother
          rcases hother with hbefore | rfl | hrest
          · exact husage other (given.parts ▸ List.mem_append_left _ hbefore)
          · dsimp only
            rw [hfirst.1, alignUsage_zero hpos hlt.le]
            omega
          · exact husage other (given.parts ▸ List.mem_append_right _ (List.mem_cons_of_mem _ hrest))
        · rw [given.host_eq]
          exact ⟨heldLater, alignedLater, apartLater⟩

end Runs

/-- **The windows are right**, whatever calls are made, if and only if each is the first of its
range, and the range begins at a multiple of its size. -/
theorem assignedRight_iff {ranges : List AllocatedRange}
    (hosts : HostRanges (ranges.map AllocatedRange.host)) (hunused : ∀ range ∈ ranges, range.usage = 0)
    (calls : List BarCall) :
    AssignedRight (ranges.map AllocatedRange.host) (assign ranges calls) ↔
      RunFresh ranges calls :=
  ⟨fresh_of_assignedRight hosts fun range hmem => (hunused range hmem).trans_le (Nat.zero_le _),
    fun fresh => (assignedRight_of_fresh hosts fresh).1⟩

/-- The ranges of a board: 752 MiB of memory with addresses of 32 bits, and 512 GiB of memory. -/
def boardRanges : List AllocatedRange :=
  [⟨⟨0x10000000, 0x02000000⟩, 0x10000000, 0x2EFF0000, 0xFFFF000010000000, 0⟩,
    ⟨⟨0x8000000000, 0x03000000⟩, 0x8000000000, 0x8000000000, 0xFFFF008000000000, 0⟩]

theorem boardRanges_hosts : HostRanges (boardRanges.map AllocatedRange.host) where
  fits := by decide
  apart := List.pairwise_pair.mpr fun _ => Or.inl (by decide)

/-- The register of a controller, at which it wants 4 KiB. -/
def memoryBar : BarCall where
  space := fun offset => if offset = 0x10 then ⟨0, (keptBits 12).setWidth 32⟩ else ⟨0, 0⟩
  n := 0
  kind := .Mem32Bit
  exponent := 12
  unassigned :=
    { kindBits := List.mem_cons_self
      least := by decide
      most := by decide
      kept := rfl
      above := fun h => by cases h }

theorem assignedRight_memoryBar :
    AssignedRight (boardRanges.map AllocatedRange.host) (assign boardRanges [memoryBar]) := by
  refine (assignedRight_iff boardRanges_hosts (by decide) [memoryBar]).mpr ?_
  rw [RunFresh]
  split
  · trivial
  · refine ⟨fun range hfound => ?_, trivial⟩
    cases hfound
    exact ⟨rfl, by decide⟩

/-- The second of two registers is given the physical address of the first. -/
theorem assignedRight_fails :
    assign boardRanges [memoryBar, memoryBar] =
      [⟨.Mem32Bit, 0x10000000, 0x1000, ⟨0x10000000, 0xFFFF000010000000, 0x1000⟩⟩,
        ⟨.Mem32Bit, 0x10001000, 0x1000, ⟨0x10000000, 0xFFFF000010001000, 0x1000⟩⟩] ∧
    ¬ AssignedRight (boardRanges.map AllocatedRange.host)
        (assign boardRanges [memoryBar, memoryBar]) := by
  have hassign : assign boardRanges [memoryBar, memoryBar] =
      [⟨.Mem32Bit, 0x10000000, 0x1000, ⟨0x10000000, 0xFFFF000010000000, 0x1000⟩⟩,
        ⟨.Mem32Bit, 0x10001000, 0x1000, ⟨0x10000000, 0xFFFF000010001000, 0x1000⟩⟩] := by
    decide +kernel
  refine ⟨hassign, fun right => ?_⟩
  rw [hassign] at right
  obtain ⟨host, hhost, held⟩ := right.held _ (List.mem_cons_of_mem _ List.mem_cons_self)
  rcases List.mem_pair.mp hhost with rfl | rfl
  · exact absurd held.area (by decide)
  · exact absurd held.kind (by decide)

end BekOS.Pcie
