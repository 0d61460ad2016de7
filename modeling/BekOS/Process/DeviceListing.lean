import BekOS.Libcore.Allocator
import BekOS.Libcore.DirectoryListing

/-!
# Listing the devices

`sys_list_devices` puts the devices that have a protocol for user programs into a buffer, each
behind a `DeviceListItem` that says how far it is to the next one; the last says that it is zero.
For a buffer of no bytes it tells how many are needed.  `get_devices` asks with more and more bytes
until all devices go in, and follows the items.  Sizes are far from 64 bits.
-/

namespace BekOS

/-- `DeviceProtocol`, by value: casts make values without a name. -/
abbrev DeviceProtocol := BitVec 32

/-- `NoProtocol` -/
def noProtocol : DeviceProtocol := 0

/-- A device of the registry, with its name and its `userspace_protocol`. -/
structure RegisteredDevice where
  name : List Byte
  userspaceProtocol : Option DeviceProtocol

/-- `core::Device` -/
structure DeviceInfo where
  name : List Byte
  protocol : DeviceProtocol
  deriving DecidableEq

namespace DeviceListItem

/-- `sizeof(DeviceListItem)` -/
def size : ℕ := 16

/-- `offset_of_name` -/
def offsetOfName : ℕ := 12

/-- `whole_size` -/
def wholeSize (nameLen : ℕ) : ℕ := size - 4 + nameLen + 1

/-- `align_up`, to `alignof(DeviceListItem)` -/
def align (n : ℕ) : ℕ := (n + 7) / 8 * 8

/-- A `DeviceListItem` with an empty name. -/
def bytes (nextOffset : ℕ) (protocol : DeviceProtocol) : Memory Byte :=
  leWrite (leWrite (fun _ => 0) 0 nextOffset 8) 8 protocol.toNat 4

end DeviceListItem

open DeviceListItem

/-! ## `sys_list_devices` -/

/-- The filter that a number stands for. -/
def protoFilter (protocolFilter : BitVec 64) : Option DeviceProtocol :=
  if protocolFilter ≠ 0 then some (protocolFilter.setWidth 32) else none

/-- What is listed of a device, if it is not passed over. -/
def RegisteredDevice.listed (filter : Option DeviceProtocol) (device : RegisteredDevice) :
    Option DeviceInfo :=
  match device.userspaceProtocol with
  | none => none
  | some protocol =>
      if filter.any (· ≠ protocol) then none else some ⟨device.name, protocol⟩

/-- The bytes required, so far. -/
def addSize (filter : Option DeviceProtocol) (total : ℕ) (device : RegisteredDevice) : ℕ :=
  match device.listed filter with
  | none => total
  | some info => align total + wholeSize info.name.length

/-- `write_from`, into a buffer of that size. -/
def writeFrom (bufferSize : ℕ) (buffer data : Memory Byte) (length offset : ℕ) :
    Except Fault (Except ErrorCode (Memory Byte)) :=
  if length + offset > bufferSize then .ok (.error .EINVAL)
  else do
    verify (length = 0 ∨ length ≤ maxMemcopy)
    return .ok (copyRange buffer offset data 0 length)

/-- The loop that lists the devices. -/
def listLoop (filter : Option DeviceProtocol) (bufferSize : ℕ) :
    List RegisteredDevice → ℕ → ℕ → Memory Byte → Except Fault ((ℕ × Memory Byte) × ErrorCode)
  | [], current, _, buffer => .ok ((current, buffer), .ESUCCESS)
  | device :: rest, current, toNext, buffer =>
      match device.listed filter with
      | none => listLoop filter bufferSize rest current toNext buffer
      | some info =>
          let next := current + toNext
          let entrySize := wholeSize info.name.length
          if next + entrySize > bufferSize then .ok ((current, buffer), .EOVERFLOW)
          else do
            match ← writeFrom bufferSize buffer (bytes (align entrySize) info.protocol) size next with
            | .error code => return ((next, buffer), code)
            | .ok buffer =>
                match ← writeFrom bufferSize buffer (fun i => info.name.getD i 0) info.name.length
                    (next + offsetOfName) with
                | .error code => return ((next, buffer), code)
                | .ok buffer => listLoop filter bufferSize rest next (align entrySize) buffer

/-- `write_object`, of a number with 64 bits. -/
def writeNumber (bufferSize : ℕ) (buffer : Memory Byte) (value offset : ℕ) :
    Except Fault (Except ErrorCode (Memory Byte)) :=
  writeFrom bufferSize buffer (leWrite (fun _ => 0) 0 value 8) 8 offset

/-- `clear` -/
def clearBuffer (bufferSize : ℕ) (buffer : Memory Byte) : Memory Byte :=
  fun i => if i < bufferSize then 0 else buffer i

/-- `sys_list_devices` -/
def listDevices (devices : List RegisteredDevice) (protocolFilter : BitVec 64) (bufferSize : ℕ)
    (buffer : Memory Byte) : Except Fault (Memory Byte × Except ErrorCode ℕ) :=
  let filter := protoFilter protocolFilter
  if bufferSize = 0 then .ok (buffer, .ok (devices.foldl (addSize filter) 0))
  else do
    let ((current, buffer), status) ←
      listLoop filter bufferSize devices 0 0 (clearBuffer bufferSize buffer)
    if status = .ESUCCESS then
      match ← writeNumber bufferSize buffer 0 current with
      | .error code => return (buffer, .error code)
      | .ok buffer => return (buffer, .ok 0)
    else if status = .EOVERFLOW then
      match ← writeNumber bufferSize buffer (bufferSize - current) current with
      | .error code => return (buffer, .error code)
      | .ok buffer => return (buffer, .error status)
    else return (buffer, .error status)

/-! ## `get_devices` -/

/-- A string that ends with a zero; `none` if the buffer ends before. -/
def readName (bufferSize : ℕ) (buffer : Memory Byte) (start : ℕ) : Option (List Byte) :=
  let length := strlen buffer start (bufferSize - start)
  if start + length < bufferSize then some (slice buffer start length) else none

/-- The device of an item, unless it has no protocol. -/
def readDevice (bufferSize : ℕ) (buffer : Memory Byte) (offset : ℕ) : Option (List DeviceInfo) :=
  let protocol : DeviceProtocol := BitVec.ofNat 32 (leRead buffer (offset + 8) 4)
  if protocol ≠ noProtocol then
    (readName bufferSize buffer (offset + offsetOfName)).map fun name => [⟨name, protocol⟩]
  else some []

/-- The loop over the items; `none` if it leaves the buffer. -/
def parseDevices (bufferSize : ℕ) (buffer : Memory Byte) : ℕ → ℕ → Option (List DeviceInfo)
  | 0, _ => none
  | fuel + 1, offset =>
      if bufferSize ≤ offset then some []
      else if bufferSize < offset + offsetOfName then none
      else do
        let first ← readDevice bufferSize buffer offset
        let next := leRead buffer offset 8
        if next = 0 then return first
        else do
          let rest ← parseDevices bufferSize buffer fuel (offset + next)
          return first ++ rest

/-- Each item is behind the one before. -/
def parseBuffer (bufferSize : ℕ) (buffer : Memory Byte) : Option (List DeviceInfo) :=
  parseDevices bufferSize buffer (bufferSize + 1) 0

section Get

variable (devices : List RegisteredDevice) (protocolFilter : BitVec 64)

/-- The loop that asks again, with twice the bytes. -/
def growBuffer : ℕ → ℕ → Option (List DeviceInfo)
  | 0, _ => none
  | fuel + 1, bufferSize =>
      match listDevices devices protocolFilter bufferSize fun _ => 0 with
      | .error _ => none
      | .ok (_, .error .EOVERFLOW) => growBuffer fuel (bufferSize * 2)
      | .ok (buffer, _) => parseBuffer bufferSize buffer

/-- `get_devices`, asking again at most so many times. -/
def getDevices (fuel : ℕ) : Option (List DeviceInfo) :=
  match listDevices devices protocolFilter 1000 fun _ => 0 with
  | .error _ => none
  | .ok (buffer, .ok _) => parseBuffer 1000 buffer
  | .ok (_, .error code) =>
      if code ≠ .EOVERFLOW then some [] else growBuffer devices protocolFilter fuel (1000 * 2)

end Get

/-! ## Items in a buffer -/

/-- What can be listed and read back. -/
structure DeviceInfo.Readable (info : DeviceInfo) : Prop where
  long : 3 ≤ info.name.length
  short : info.name.length ≤ maxMemcopy
  noZero : 0 ∉ info.name
  protocol : info.protocol ≠ noProtocol

/-- The device is at an offset, and the next one so far behind it. -/
structure HasItem (bufferSize : ℕ) (buffer : Memory Byte) (offset next : ℕ) (info : DeviceInfo) :
    Prop where
  next : leRead buffer offset 8 = next
  protocol : leRead buffer (offset + 8) 4 = info.protocol.toNat
  name : ∀ i < info.name.length, buffer (offset + offsetOfName + i) = info.name.getD i 0
  ended : buffer (offset + offsetOfName + info.name.length) = 0
  fits : offset + wholeSize info.name.length ≤ bufferSize

/-- An item with its name. -/
def putDevice (buffer : Memory Byte) (offset : ℕ) (info : DeviceInfo) : Memory Byte :=
  copyRange
    (copyRange buffer offset (bytes (align (wholeSize info.name.length)) info.protocol) 0 size)
    (offset + offsetOfName) (fun i => info.name.getD i 0) 0 info.name.length

/-- The last item says so. -/
def endItems (buffer : Memory Byte) (offset : ℕ) : Memory Byte :=
  copyRange buffer offset (leWrite (fun _ => 0) 0 0 8) 0 8

namespace DeviceListItem

theorem wholeSize_eq_add (nameLen : ℕ) : wholeSize nameLen = nameLen + 13 := by
  show 16 - 4 + nameLen + 1 = _
  omega

theorem le_align (n : ℕ) : n ≤ align n := by
  unfold align
  omega

theorem align_add {offset : ℕ} (h : 8 ∣ offset) (n : ℕ) : align (offset + n) = offset + align n := by
  unfold align
  omega

theorem dvd_align (n : ℕ) : 8 ∣ align n := Nat.dvd_mul_left _ _

end DeviceListItem

section Items

variable {bufferSize offset next : ℕ} {buffer buffer' : Memory Byte} {info : DeviceInfo}

theorem HasItem.congr (buffer' : Memory Byte) (item : HasItem bufferSize buffer offset next info)
    (h : ∀ i, offset ≤ i → i < offset + wholeSize info.name.length → buffer' i = buffer i) :
    HasItem bufferSize buffer' offset next info := by
  have hsize := wholeSize_eq_add info.name.length
  have hname : offsetOfName = 12 := rfl
  refine ⟨?_, ?_, fun i hi => ?_, ?_, item.fits⟩
  · exact (leRead_congr fun i hi => h _ (by omega) (by omega)).trans item.next
  · exact (leRead_congr fun i hi => h _ (by omega) (by omega)).trans item.protocol
  · exact (h _ (by omega) (by omega)).trans (item.name i hi)
  · exact (h _ (by omega) (by omega)).trans item.ended

theorem HasItem.end (item : HasItem bufferSize buffer offset next info) :
    HasItem bufferSize (endItems buffer offset) offset 0 info := by
  have hname : offsetOfName = 12 := rfl
  unfold endItems
  refine ⟨?_, ?_, fun i hi => ?_, ?_, item.fits⟩
  · have hread : leRead (copyRange buffer offset (leWrite (fun _ => 0) 0 0 8) 0 8) offset 8 =
        leRead (leWrite (fun _ => 0) 0 0 8) 0 8 := by
      refine leRead_congr fun i hi => ?_
      rw [copyRange_of_mem (by omega) (by omega), Nat.add_sub_cancel_left]
    exact hread.trans (leRead_leWrite _ 0 0 8)
  · exact (leRead_congr fun i hi => copyRange_of_not_mem (by omega)).trans item.protocol
  · exact (copyRange_of_not_mem (by omega)).trans (item.name i hi)
  · exact (copyRange_of_not_mem (by omega)).trans item.ended

/-- **An item is read back.** -/
theorem HasItem.readDevice (item : HasItem bufferSize buffer offset next info)
    (readable : info.Readable) : readDevice bufferSize buffer offset = some [info] := by
  have hsize := wholeSize_eq_add info.name.length
  have hname : offsetOfName = 12 := rfl
  have hfits := item.fits
  have hprotocol : (BitVec.ofNat 32 (leRead buffer (offset + 8) 4) : DeviceProtocol) =
      info.protocol := by
    rw [item.protocol, BitVec.ofNat_toNat, BitVec.setWidth_eq]
  have hread : readName bufferSize buffer (offset + offsetOfName) = some info.name := by
    have hslice : slice buffer (offset + offsetOfName) (strlen buffer (offset + offsetOfName)
        (bufferSize - (offset + offsetOfName))) = info.name :=
      (slice_strlen_iff item.name item.ended).mpr ⟨readable.noZero, by omega⟩
    have hlength := congrArg List.length hslice
    rw [length_slice] at hlength
    unfold readName
    dsimp only
    rw [hslice, hlength, if_pos (by omega)]
  unfold BekOS.readDevice
  dsimp only
  rw [hprotocol, if_pos readable.protocol, hread]
  rfl

theorem HasItem.parse (item : HasItem bufferSize buffer offset next info)
    (readable : info.Readable) (fuel : ℕ) :
    parseDevices bufferSize buffer (fuel + 1) offset =
      if next = 0 then some [info]
      else (parseDevices bufferSize buffer fuel (offset + next)).map (info :: ·) := by
  have hsize := wholeSize_eq_add info.name.length
  have hname : offsetOfName = 12 := rfl
  have hfits := item.fits
  rw [parseDevices, if_neg (by omega), if_neg (by omega), item.readDevice readable, item.next]
  show (if next = 0 then some [info] else
    (parseDevices bufferSize buffer fuel (offset + next)).bind fun rest => some (info :: rest)) = _
  rw [Option.map_eq_bind]
  rfl

theorem putDevice_of_not_mem (hlong : 3 ≤ info.name.length) {i : ℕ}
    (h : ¬ (offset ≤ i ∧ i < offset + wholeSize info.name.length)) :
    putDevice buffer offset info i = buffer i := by
  have hsize := wholeSize_eq_add info.name.length
  have hname : offsetOfName = 12 := rfl
  have hitem : size = 16 := rfl
  unfold putDevice
  rw [copyRange_of_not_mem (by omega), copyRange_of_not_mem (by omega)]

/-- **An item is put into cleared memory.** -/
theorem hasItem_putDevice (hlong : 3 ≤ info.name.length) (hshort : info.name.length ≤ maxMemcopy)
    (cleared : Cleared bufferSize offset buffer)
    (fits : offset + wholeSize info.name.length ≤ bufferSize) :
    HasItem bufferSize (putDevice buffer offset info) offset
      (align (wholeSize info.name.length)) info := by
  have hsize := wholeSize_eq_add info.name.length
  have hname : offsetOfName = 12 := rfl
  have hitem : size = 16 := rfl
  have hmax : maxMemcopy = 2097152 := rfl
  have hbyte : ∀ i < 12, putDevice buffer offset info (offset + i) =
      bytes (align (wholeSize info.name.length)) info.protocol i := by
    intro i hi
    unfold putDevice
    rw [copyRange_of_not_mem (by omega), copyRange_of_mem (by omega) (by omega), Nat.zero_add,
      Nat.add_sub_cancel_left]
  refine ⟨?_, ?_, fun i hi => ?_, ?_, fits⟩
  · have hread : leRead (putDevice buffer offset info) offset 8 =
        leRead (bytes (align (wholeSize info.name.length)) info.protocol) 0 8 :=
      leRead_congr fun i hi => by rw [hbyte i (by omega), Nat.zero_add]
    rw [hread, bytes, leRead_leWrite_of_disjoint (by omega), leRead_leWrite]
    refine Nat.mod_eq_of_lt ?_
    unfold align
    omega
  · have hread : leRead (putDevice buffer offset info) (offset + 8) 4 =
        leRead (bytes (align (wholeSize info.name.length)) info.protocol) 8 4 :=
      leRead_congr fun i hi => by rw [Nat.add_assoc, hbyte _ (by omega)]
    rw [hread, bytes, leRead_leWrite]
    exact Nat.mod_eq_of_lt info.protocol.isLt
  · unfold putDevice
    rw [copyRange_of_mem (by omega) (by omega), Nat.zero_add, Nat.add_sub_cancel_left]
  · unfold putDevice
    rw [copyRange_of_not_mem (by omega)]
    by_cases hinside : info.name.length < 4
    · -- The name ends in the item.
      rw [copyRange_of_mem (by omega) (by omega), bytes, leWrite_of_not_mem (by omega),
        leWrite_of_not_mem (by omega)]
    · rw [copyRange_of_not_mem (by omega)]
      exact cleared _ (by omega) (by omega)

end Items

/-! ## The loop of the system call -/

/-- The loop, over the devices that are not passed over. -/
def listItems (bufferSize : ℕ) :
    List DeviceInfo → ℕ → ℕ → Memory Byte → Except Fault ((ℕ × Memory Byte) × ErrorCode)
  | [], current, _, buffer => .ok ((current, buffer), .ESUCCESS)
  | info :: rest, current, toNext, buffer =>
      if current + toNext + wholeSize info.name.length > bufferSize then
        .ok ((current, buffer), .EOVERFLOW)
      else
        listItems bufferSize rest (current + toNext) (align (wholeSize info.name.length))
          (putDevice buffer (current + toNext) info)

/-- Where the last of some items ends. -/
def endOf : List DeviceInfo → ℕ → DeviceInfo → ℕ
  | [], offset, info => offset + wholeSize info.name.length
  | next :: rest, offset, info => endOf rest (offset + align (wholeSize info.name.length)) next

section Listing

variable {bufferSize current toNext : ℕ} {buffer : Memory Byte} {info : DeviceInfo}
  {rest : List DeviceInfo}

theorem writeFrom_ok {data : Memory Byte} {length offset : ℕ} (hfits : length + offset ≤ bufferSize)
    (hshort : length ≤ maxMemcopy) :
    writeFrom bufferSize buffer data length offset =
      .ok (.ok (copyRange buffer offset data 0 length)) := by
  have hverify : verify (length = 0 ∨ length ≤ maxMemcopy) = .ok () :=
    verify_eq_ok.mpr (Or.inr hshort)
  rw [writeFrom, if_neg (Nat.not_lt.mpr hfits), hverify]
  rfl

theorem listLoop_eq_listItems (filter : Option DeviceProtocol) (devices : List RegisteredDevice)
    (readable : ∀ info ∈ devices.filterMap (RegisteredDevice.listed filter), info.Readable) :
    listLoop filter bufferSize devices current toNext buffer =
      listItems bufferSize (devices.filterMap (RegisteredDevice.listed filter)) current toNext
        buffer := by
  induction devices generalizing current toNext buffer with
  | nil => rfl
  | cons device devices ih =>
      rw [listLoop]
      cases hlisted : device.listed filter with
      | none =>
          rw [List.filterMap_cons_none hlisted] at readable ⊢
          exact ih readable
      | some info =>
          rw [List.filterMap_cons_some hlisted] at readable ⊢
          obtain ⟨hinfo, hrest⟩ := List.forall_mem_cons.mp readable
          dsimp only
          rw [listItems]
          split_ifs with hfull
          · rfl
          · have hsize := wholeSize_eq_add info.name.length
            have hname : offsetOfName = 12 := rfl
            have hitem : size = 16 := rfl
            have hmax : maxMemcopy = 2097152 := rfl
            have hlong := hinfo.long
            rw [writeFrom_ok (by omega) (by omega)]
            show Except.bind (writeFrom _ _ _ _ _) _ = _
            rw [writeFrom_ok (by omega) hinfo.short]
            exact ih hrest

theorem foldl_endOf {offset : ℕ} (h : 8 ∣ offset) :
    rest.foldl (fun total info => align total + wholeSize info.name.length)
      (offset + wholeSize info.name.length) = endOf rest offset info := by
  induction rest generalizing offset info with
  | nil => rfl
  | cons next rest ih =>
      rw [List.foldl_cons, align_add h, endOf]
      exact ih (Nat.dvd_add h (dvd_align _))

theorem le_endOf (rest : List DeviceInfo) (offset : ℕ) (info : DeviceInfo) :
    offset + wholeSize info.name.length + rest.length ≤ endOf rest offset info := by
  induction rest generalizing offset info with
  | nil => exact le_rfl
  | cons next rest ih =>
      have hnext := ih (offset + align (wholeSize info.name.length)) next
      have hsize := wholeSize_eq_add next.name.length
      have halign := le_align (wholeSize info.name.length)
      rw [List.length_cons, endOf]
      omega

/-- **All items go in**, and are read back once the last is ended. -/
theorem listItems_fits (current toNext : ℕ) (readable : ∀ item ∈ info :: rest, item.Readable)
    (fits : endOf rest (current + toNext) info ≤ bufferSize)
    (cleared : Cleared bufferSize (current + toNext) buffer) :
    ∃ last buffer', listItems bufferSize (info :: rest) current toNext buffer =
        .ok ((last, buffer'), .ESUCCESS) ∧
      current + toNext ≤ last ∧ last + 8 ≤ bufferSize ∧
      (∀ i < current + toNext, buffer' i = buffer i) ∧
      ∀ fuel, rest.length < fuel →
        parseDevices bufferSize (endItems buffer' last) fuel (current + toNext) =
          some (info :: rest) := by
  induction rest generalizing info current toNext buffer with
  | nil =>
      obtain ⟨hinfo, -⟩ := List.forall_mem_cons.mp readable
      have hsize := wholeSize_eq_add info.name.length
      have hfits : current + toNext + wholeSize info.name.length ≤ bufferSize := fits
      have item := hasItem_putDevice hinfo.long hinfo.short cleared hfits
      refine ⟨current + toNext, putDevice buffer (current + toNext) info, ?_, le_rfl, by omega,
        fun i hi => putDevice_of_not_mem hinfo.long (by omega), fun fuel hfuel => ?_⟩
      · rw [listItems, if_neg (Nat.not_lt.mpr hfits)]
        rfl
      · obtain ⟨fuel, rfl⟩ := Nat.exists_eq_add_one_of_ne_zero (Nat.ne_of_gt hfuel)
        rw [item.end.parse hinfo, if_pos rfl]
  | cons next rest ih =>
      obtain ⟨hinfo, hrest⟩ := List.forall_mem_cons.mp readable
      have hsize := wholeSize_eq_add info.name.length
      have halign := le_align (wholeSize info.name.length)
      have hle := le_endOf (next :: rest) (current + toNext) info
      have hfits : current + toNext + wholeSize info.name.length ≤ bufferSize := by omega
      have item := hasItem_putDevice hinfo.long hinfo.short cleared hfits
      obtain ⟨last, buffer', hlist, hlast, hroom, hsame, hparse⟩ :=
        @ih (putDevice buffer (current + toNext) info) next (current + toNext)
          (align (wholeSize info.name.length)) hrest fits fun i hlow hhigh =>
            (putDevice_of_not_mem hinfo.long (by omega)).trans (cleared i (by omega) hhigh)
      refine ⟨last, buffer', ?_, by omega, hroom, fun i hi => ?_, fun fuel hfuel => ?_⟩
      · rw [listItems, if_neg (Nat.not_lt.mpr hfits)]
        exact hlist
      · exact (hsame i (by omega)).trans (putDevice_of_not_mem hinfo.long (by omega))
      · -- The others are put behind the item, and so is the end.
        obtain ⟨fuel, rfl⟩ := Nat.exists_eq_add_one_of_ne_zero (Nat.ne_of_gt (Nat.zero_lt_of_lt hfuel))
        have kept := item.congr (endItems buffer' last) fun i hlow hhigh =>
          (copyRange_of_not_mem (by omega)).trans (hsame i (by omega))
        rw [kept.parse hinfo, if_neg (by omega), hparse fuel (Nat.lt_of_succ_lt_succ hfuel)]
        rfl

/-- **Not all go in**: the loop ends there. -/
theorem listItems_overflow (current toNext : ℕ) (buffer : Memory Byte)
    (readable : ∀ item ∈ info :: rest, item.Readable)
    (hfull : bufferSize < endOf rest (current + toNext) info)
    (hroom : current + 8 ≤ bufferSize) :
    ∃ last buffer', listItems bufferSize (info :: rest) current toNext buffer =
      .ok ((last, buffer'), .EOVERFLOW) ∧ last + 8 ≤ bufferSize := by
  induction rest generalizing info current toNext buffer with
  | nil =>
      have hover : current + toNext + wholeSize info.name.length > bufferSize := hfull
      refine ⟨current, buffer, ?_, hroom⟩
      rw [listItems, if_pos hover]
  | cons next rest ih =>
      obtain ⟨hinfo, hrest⟩ := List.forall_mem_cons.mp readable
      have hsize := wholeSize_eq_add info.name.length
      rw [listItems]
      split_ifs with hover
      · exact ⟨current, buffer, rfl, hroom⟩
      · exact ih _ _ _ hrest hfull (by omega)

end Listing

/-! ## The call and its user -/

/-- What can be listed and read back of the registry. -/
structure RegisteredDevice.Readable (device : RegisteredDevice) : Prop where
  long : 3 ≤ device.name.length
  short : device.name.length ≤ maxMemcopy
  noZero : 0 ∉ device.name
  protocol : device.userspaceProtocol ≠ some noProtocol

/-- The devices with a protocol, of that one if a filter is given. -/
def listedDevices (devices : List RegisteredDevice) (protocolFilter : BitVec 64) :
    List DeviceInfo :=
  devices.filterMap (RegisteredDevice.listed (protoFilter protocolFilter))

/-- What is to hold of the call, for some bytes required. -/
structure ListsDevices (devices : List RegisteredDevice) (protocolFilter : BitVec 64)
    (required : ℕ) : Prop where
  query : ∀ buffer, listDevices devices protocolFilter 0 buffer = .ok (buffer, .ok required)
  lists : ∀ n ≥ 16, required ≤ n → ∀ buffer, ∃ buffer',
    listDevices devices protocolFilter n buffer = .ok (buffer', .ok 0) ∧
      parseBuffer n buffer' = some (listedDevices devices protocolFilter)
  overflows : ∀ n ≥ 16, n < required → ∀ buffer, ∃ buffer',
    listDevices devices protocolFilter n buffer = .ok (buffer', .error .EOVERFLOW)
  complete : ∃ rounds, ∀ fuel ≥ rounds,
    getDevices devices protocolFilter fuel = some (listedDevices devices protocolFilter)

section Call

variable {devices : List RegisteredDevice} {protocolFilter : BitVec 64} {n required : ℕ}

theorem RegisteredDevice.listed_readable {filter : Option DeviceProtocol} {device : RegisteredDevice}
    (readable : device.Readable) {info : DeviceInfo} (h : device.listed filter = some info) :
    info.Readable := by
  unfold listed at h
  split at h
  · cases h
  · rename_i protocol hprotocol
    split_ifs at h
    cases h
    exact ⟨readable.long, readable.short, readable.noZero,
      fun hnone => readable.protocol (hprotocol.trans (congrArg some hnone))⟩

theorem listedDevices_readable (protocolFilter : BitVec 64)
    (readable : ∀ device ∈ devices, device.Readable) :
    ∀ info ∈ listedDevices devices protocolFilter, info.Readable := by
  intro info hinfo
  obtain ⟨device, hdevice, hlisted⟩ := List.mem_filterMap.mp hinfo
  exact RegisteredDevice.listed_readable (readable device hdevice) hlisted

/-- The bytes required for some items. -/
def listingSize : List DeviceInfo → ℕ
  | [] => 0
  | info :: rest => endOf rest 0 info

theorem foldl_addSize (devices : List RegisteredDevice) (protocolFilter : BitVec 64) :
    devices.foldl (addSize (protoFilter protocolFilter)) 0 =
      listingSize (listedDevices devices protocolFilter) := by
  have hfold : devices.foldl (addSize (protoFilter protocolFilter)) 0 =
      (listedDevices devices protocolFilter).foldl
        (fun total info => align total + wholeSize info.name.length) 0 := by
    rw [listedDevices, List.foldl_filterMap]
    refine List.foldl_ext _ _ _ fun total device _ => ?_
    unfold addSize
    cases device.listed (protoFilter protocolFilter) with
    | none => rfl
    | some info => rfl
  rw [hfold]
  cases listedDevices devices protocolFilter with
  | nil => rfl
  | cons info rest => exact foldl_endOf (Nat.dvd_zero 8)

theorem listDevices_zero (buffer : Memory Byte) :
    listDevices devices protocolFilter 0 buffer =
      .ok (buffer, .ok (listingSize (listedDevices devices protocolFilter))) := by
  rw [listDevices, if_pos rfl, foldl_addSize]

theorem writeNumber_ok {buffer : Memory Byte} {value offset : ℕ} (h : offset + 8 ≤ n) :
    writeNumber n buffer value offset =
      .ok (.ok (copyRange buffer offset (leWrite (fun _ => 0) 0 value 8) 0 8)) :=
  writeFrom_ok (by omega) (by decide)

theorem listDevices_of_listItems (readable : ∀ device ∈ devices, device.Readable) (hn : n ≠ 0)
    {buffer buffer' : Memory Byte} {last : ℕ} {status : ErrorCode}
    (hloop : listItems n (listedDevices devices protocolFilter) 0 0 (clearBuffer n buffer) =
      .ok ((last, buffer'), status))
    (hroom : last + 8 ≤ n) :
    (status = .ESUCCESS →
      listDevices devices protocolFilter n buffer = .ok (endItems buffer' last, .ok 0)) ∧
    (status = .EOVERFLOW → ∃ buffer'',
      listDevices devices protocolFilter n buffer = .ok (buffer'', .error .EOVERFLOW)) := by
  have hlist := (listLoop_eq_listItems (protoFilter protocolFilter) devices
    (listedDevices_readable protocolFilter readable)).trans hloop
  rw [listDevices, if_neg hn, hlist]
  constructor
  · rintro rfl
    show Except.bind (writeNumber n buffer' 0 last) _ = _
    rw [writeNumber_ok hroom]
    rfl
  · rintro rfl
    refine ⟨copyRange buffer' last (leWrite (fun _ => 0) 0 (n - last) 8) 0 8, ?_⟩
    show Except.bind (writeNumber n buffer' (n - last) last) _ = _
    rw [writeNumber_ok hroom]
    rfl

theorem cleared_clearBuffer (n : ℕ) (buffer : Memory Byte) : Cleared n 0 (clearBuffer n buffer) :=
  fun _ _ hi => if_pos hi

theorem parseBuffer_cleared (hn : 16 ≤ n) (buffer : Memory Byte) :
    parseBuffer n (endItems (clearBuffer n buffer) 0) = some [] := by
  have hzero : ∀ i < 16, endItems (clearBuffer n buffer) 0 i = 0 := by
    intro i hi
    unfold endItems
    by_cases hlow : i < 8
    · rw [copyRange_of_mem (Nat.zero_le i) (by omega), Nat.zero_add, Nat.sub_zero]
      have hbytes : ∀ j < 8, leWrite (fun _ => 0) 0 0 8 j = 0 := by decide
      exact hbytes i hlow
    · rw [copyRange_of_not_mem (by omega)]
      exact if_pos (by omega)
  have hread : ∀ offset width, offset + width ≤ 16 →
      leRead (endItems (clearBuffer n buffer) 0) offset width =
        leRead (fun _ => 0) offset width :=
    fun offset width h => leRead_congr fun i hi => hzero _ (by omega)
  rw [parseBuffer, parseDevices, if_neg (by omega), if_neg (by unfold offsetOfName; omega),
    readDevice, hread _ _ (by decide), hread _ _ (by decide)]
  rfl

theorem listDevices_fits (readable : ∀ device ∈ devices, device.Readable) (hn : 16 ≤ n)
    (hfits : listingSize (listedDevices devices protocolFilter) ≤ n) (buffer : Memory Byte) :
    ∃ buffer', listDevices devices protocolFilter n buffer = .ok (buffer', .ok 0) ∧
      parseBuffer n buffer' = some (listedDevices devices protocolFilter) := by
  have hitems := listedDevices_readable protocolFilter readable
  cases hlisted : listedDevices devices protocolFilter with
  | nil =>
      have hloop : listItems n (listedDevices devices protocolFilter) 0 0 (clearBuffer n buffer) =
          .ok ((0, clearBuffer n buffer), .ESUCCESS) := by
        rw [hlisted]
        rfl
      exact ⟨_, (listDevices_of_listItems readable (by omega) hloop (by omega)).1 rfl,
        parseBuffer_cleared hn buffer⟩
  | cons info rest =>
      rw [hlisted] at hitems hfits
      have hfits' : endOf rest 0 info ≤ n := hfits
      obtain ⟨last, buffer', hloop, -, hroom, -, hparse⟩ := listItems_fits 0 0
        hitems hfits (cleared_clearBuffer n buffer)
      rw [← hlisted] at hloop
      refine ⟨_, (listDevices_of_listItems readable (by omega) hloop hroom).1 rfl,
        hparse (n + 1) ?_⟩
      have hle := le_endOf rest 0 info
      omega

theorem listDevices_overflows (readable : ∀ device ∈ devices, device.Readable) (hn : 16 ≤ n)
    (hfull : n < listingSize (listedDevices devices protocolFilter)) (buffer : Memory Byte) :
    ∃ buffer', listDevices devices protocolFilter n buffer = .ok (buffer', .error .EOVERFLOW) := by
  have hitems := listedDevices_readable protocolFilter readable
  cases hlisted : listedDevices devices protocolFilter with
  | nil =>
      rw [hlisted] at hfull
      exact absurd hfull (Nat.not_lt_zero n)
  | cons info rest =>
      rw [hlisted] at hitems hfull
      obtain ⟨last, buffer', hloop, hroom⟩ := listItems_overflow 0 0
        (clearBuffer n buffer) hitems hfull (by omega)
      rw [← hlisted] at hloop
      exact (listDevices_of_listItems readable (by omega) hloop hroom).2 rfl

theorem growBuffer_eq (readable : ∀ device ∈ devices, device.Readable) {rounds : ℕ} :
    ∀ {n fuel : ℕ}, 16 ≤ n → rounds < fuel →
      listingSize (listedDevices devices protocolFilter) ≤ n * 2 ^ rounds →
      growBuffer devices protocolFilter fuel n = some (listedDevices devices protocolFilter) := by
  induction rounds with
  | zero =>
      intro n fuel hn hfuel hfits
      obtain ⟨fuel, rfl⟩ := Nat.exists_eq_add_one_of_ne_zero (Nat.ne_of_gt hfuel)
      obtain ⟨buffer', hlist, hparse⟩ := listDevices_fits readable hn
        (by rwa [pow_zero, Nat.mul_one] at hfits) fun _ => 0
      rw [growBuffer, hlist]
      exact hparse
  | succ rounds ih =>
      intro n fuel hn hfuel hfits
      obtain ⟨fuel, rfl⟩ := Nat.exists_eq_add_one_of_ne_zero (Nat.ne_of_gt (Nat.zero_lt_of_lt hfuel))
      rw [growBuffer]
      by_cases henough : listingSize (listedDevices devices protocolFilter) ≤ n
      · obtain ⟨buffer', hlist, hparse⟩ := listDevices_fits readable hn henough fun _ => 0
        rw [hlist]
        exact hparse
      · obtain ⟨buffer', hlist⟩ := listDevices_overflows readable hn (Nat.lt_of_not_le henough)
          fun _ => 0
        rw [hlist]
        refine ih (by omega) (Nat.lt_of_succ_lt_succ hfuel) ?_
        rwa [Nat.mul_assoc, ← Nat.pow_succ']

/-- **The devices are listed**, each once and in order. -/
theorem listsDevices (readable : ∀ device ∈ devices, device.Readable) :
    ∃ required, ListsDevices devices protocolFilter required := by
  refine ⟨listingSize (listedDevices devices protocolFilter), listDevices_zero,
    fun n hn hfits => listDevices_fits readable hn hfits,
    fun n hn hfull => listDevices_overflows readable hn hfull, ?_⟩
  refine ⟨listingSize (listedDevices devices protocolFilter) + 1, fun fuel hfuel => ?_⟩
  unfold getDevices
  by_cases henough : listingSize (listedDevices devices protocolFilter) ≤ 1000
  · obtain ⟨buffer', hlist, hparse⟩ := listDevices_fits readable (by decide) henough fun _ => 0
    rw [hlist]
    exact hparse
  · obtain ⟨buffer', hlist⟩ := listDevices_overflows readable (by decide)
      (Nat.lt_of_not_le henough) fun _ => 0
    rw [hlist]
    refine growBuffer_eq readable (by decide) hfuel ?_
    exact (Nat.lt_two_pow_self.le).trans (Nat.le_mul_of_pos_left _ (by decide))

end Call

/-- A mouse and a framebuffer; a timer is not listed. -/
theorem listsDevices_three : ∃ required, ListsDevices
    [⟨[0x6D, 0x73, 0x65, 0x30], some 0x100⟩, ⟨[0x74, 0x6D, 0x72], none⟩,
      ⟨[0x66, 0x62, 0x30], some 0x300⟩] 0 required := by
  refine listsDevices fun device hdevice => ?_
  simp only [List.mem_cons, List.not_mem_nil, or_false] at hdevice
  rcases hdevice with rfl | rfl | rfl
  · exact ⟨by decide, by decide, by decide, by decide⟩
  · exact ⟨by decide, by decide, by decide, by decide⟩
  · exact ⟨by decide, by decide, by decide, by decide⟩

theorem listDevices_long {name : List Byte} {protocol : DeviceProtocol} {n : ℕ}
    (hlong : maxMemcopy < name.length) (hfits : wholeSize name.length ≤ n)
    (buffer : Memory Byte) :
    listDevices [⟨name, some protocol⟩] 0 n buffer = .error .panic := by
  have hsize := wholeSize_eq_add name.length
  have hmax : maxMemcopy = 2097152 := rfl
  have hname : offsetOfName = 12 := rfl
  have hitem : size = 16 := rfl
  have hverify : verify (name.length = 0 ∨ name.length ≤ maxMemcopy) = .error .panic :=
    if_neg (by omega)
  have hrefused : ∀ buffer : Memory Byte, writeFrom n buffer (fun i => name.getD i 0) name.length
      (0 + 0 + offsetOfName) = .error .panic := by
    intro buffer
    rw [writeFrom, if_neg (by omega), hverify]
    rfl
  have hloop : listLoop (protoFilter 0) n [⟨name, some protocol⟩] 0 0 (clearBuffer n buffer) =
      .error .panic := by
    rw [listLoop]
    show (if 0 + 0 + wholeSize name.length > n then _ else _) = _
    rw [if_neg (by omega), writeFrom_ok (by omega) (by omega)]
    show Except.bind (writeFrom n _ _ _ _) _ = _
    rw [hrefused]
    rfl
  rw [listDevices, if_neg (by omega), hloop]
  rfl

/-- A name with a zero in it is not read back; nor is a device of `NoProtocol`; and a name of more
than two MiB is not copied. -/
theorem listsDevices_fails :
    (∃ buffer', listDevices [⟨[0x61, 0x62, 0, 0x63], some 0x100⟩] 0 20 (fun _ => 0) =
        .ok (buffer', .ok 0) ∧
      parseBuffer 20 buffer' = some [⟨[0x61, 0x62], 0x100⟩]) ∧
    (∃ buffer', listDevices [⟨[0x61, 0x62, 0x63], some noProtocol⟩] 0 20 (fun _ => 0) =
        .ok (buffer', .ok 0) ∧
      listedDevices [⟨[0x61, 0x62, 0x63], some noProtocol⟩] 0 = [⟨[0x61, 0x62, 0x63], noProtocol⟩] ∧
      parseBuffer 20 buffer' = some []) ∧
    listDevices [⟨List.replicate (maxMemcopy + 1) 0x61, some 0x100⟩] 0 (maxMemcopy + 14)
      (fun _ => 0) = .error .panic := by
  refine ⟨?_, ?_, ?_⟩
  · have hvalue : (listDevices [⟨[0x61, 0x62, 0, 0x63], some 0x100⟩] 0 20
        (fun _ => 0)).toOption.map (fun out => (out.2.toOption, parseBuffer 20 out.1)) =
          some (some 0, some [⟨[0x61, 0x62], 0x100⟩]) := by decide +kernel
    obtain ⟨⟨buffer', result⟩, hlist, heq⟩ := Option.map_eq_some_iff.mp hvalue
    obtain ⟨hresult, hparse⟩ := Prod.mk.inj heq
    obtain rfl := toOption_eq_some.mp hresult
    exact ⟨buffer', toOption_eq_some.mp hlist, hparse⟩
  · have hvalue : (listDevices [⟨[0x61, 0x62, 0x63], some noProtocol⟩] 0 20
        (fun _ => 0)).toOption.map (fun out => (out.2.toOption, parseBuffer 20 out.1)) =
          some (some 0, some []) := by decide +kernel
    obtain ⟨⟨buffer', result⟩, hlist, heq⟩ := Option.map_eq_some_iff.mp hvalue
    obtain ⟨hresult, hparse⟩ := Prod.mk.inj heq
    obtain rfl := toOption_eq_some.mp hresult
    exact ⟨buffer', toOption_eq_some.mp hlist, rfl, hparse⟩
  · refine listDevices_long ?_ ?_ _
    · rw [List.length_replicate]
      exact Nat.lt_succ_self _
    · rw [List.length_replicate, wholeSize_eq_add]

end BekOS
