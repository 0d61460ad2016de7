import BekOS.Library.VectorMemory
import BekOS.Process.Interlink

/-!
# `ipc::Message`

How a user process builds a message, lays it out in a buffer, and takes it apart again.
The library is compiled into the process, so that what it does outside an array is not
noticed; here it is a `Fault`.
-/

namespace BekOS

namespace Ipc

/-! ## `bek::vector<u8>` -/

/-- A vector of bytes: the array behind it, as far as it is known what it holds. -/
structure ByteVector where
  array : Memory Byte
  size : ℕ
  capacity : ℕ

namespace ByteVector

/-- Without storage. -/
def empty : ByteVector := ⟨fun _ => 0, 0, 0⟩

/-- The loop that doubles the capacity. -/
def growCapacity (needed : ℕ) : ℕ → ℕ → ℕ
  | 0, capacity => capacity
  | fuel + 1, capacity =>
      if capacity < needed then growCapacity needed fuel (2 * capacity) else capacity

/-- `ensure_capacity`; `fresh` is what newly allocated memory holds. -/
def ensureCapacity (v : ByteVector) (needed : ℕ) (fresh : Memory Byte) : ByteVector :=
  let capacity := growCapacity needed needed (if v.capacity = 0 then 1 else v.capacity)
  if capacity ≠ v.capacity then
    { v with array := copyRange fresh 0 v.array 0 v.size, capacity }
  else v

/-- `expand`: the new elements are not initialised. -/
def expand (v : ByteVector) (n : ℕ) (fresh : Memory Byte) : ByteVector :=
  { v.ensureCapacity (n + v.size) fresh with size := n + v.size }

/-- `memcopy` to the place `offset` of the array. -/
def copyTo (v : ByteVector) (offset : ℕ) (bytes : List Byte) : Except Fault ByteVector :=
  if maxMemcopy < bytes.length then .error .panic
  else if bytes.length ≠ 0 ∧ v.capacity < offset + bytes.length then .error .outOfBounds
  else
    .ok { v with
      array := copyRange v.array offset (fun i => bytes.getD i 0) 0 bytes.length }

/-- The elements. -/
def toList (v : ByteVector) : List Byte := slice v.array 0 v.size

end ByteVector

/-! ## `MessageBuffer` -/

/-- `calculate_size_for_message` -/
def calculateSizeForMessage (dataSize fdCount memoryCount : ℕ) : ℕ :=
  u64 (headerSize + payloadItemSize * (fdCount + memoryCount + 1) + dataSize)

/-- `calculate_data_offset` -/
def calculateDataOffset (nPayloadItems : ℕ) : ℕ :=
  u64 (headerSize + payloadItemSize * nPayloadItems)

/-- `MessageBuffer` -/
structure MessageBuffer where
  bytes : Memory Byte
  size : ℕ

namespace MessageBuffer

/-- Write payload items, from item `i` on. -/
def writeItems (bytes : Memory Byte) : ℕ → List PayloadItem → Memory Byte
  | _, [] => bytes
  | i, item :: rest =>
      writeItems (copyRange bytes (payloadItemOffset i) item.toMemory 0 payloadItemSize) (i + 1)
        rest

/-- The constructor from the parts of a message. -/
def create (messageId : ℕ) (data : List Byte) (fds : List ℤ) (memoryRegions : List (U64 × U64)) :
    MessageBuffer :=
  let size := calculateSizeForMessage data.length fds.length memoryRegions.length
  let nPayloadItems := (fds.length + memoryRegions.length + 1) % 0x100000000
  let dataOffset := calculateDataOffset nPayloadItems
  let header : MessageHeader :=
    { totalSize := size, payloadItemCount := nPayloadItems, messageId }
  let items : List PayloadItem :=
    .data dataOffset data.length :: fds.map .fd ++
      memoryRegions.map fun region => .memory region.1 region.2 true true
  let bytes := writeItems (copyRange (fun _ => 0) 0 header.toMemory 0 headerSize) 0 items
  { bytes := copyRange bytes dataOffset (fun i => data.getD i 0) 0 data.length, size }

/-- `header` -/
def header (buffer : MessageBuffer) : MessageHeader := .ofMemory buffer.bytes

/-- Item `i` of `payload_items`. -/
def payloadItem (buffer : MessageBuffer) (i : ℕ) : PayloadItem :=
  .ofMemory fun j => buffer.bytes (payloadItemOffset i + j)

/-- `payload_items` -/
def payloadItems (buffer : MessageBuffer) : List PayloadItem :=
  (List.range buffer.header.payloadItemCount).map buffer.payloadItem

/-- `verify` -/
def verify (buffer : MessageBuffer) : Bool :=
  if buffer.size < headerSize then false
  else if buffer.header.totalSize ≥ buffer.size then false
  else if calculateDataOffset buffer.header.payloadItemCount > buffer.header.totalSize then false
  else true

end MessageBuffer

/-! ## `Message` -/

/-- `Message` -/
structure Message where
  buffer : ByteVector
  fds : List ℤ
  memoryRegions : List (U64 × U64)
  curBufferPosition : ℕ
  curFdI : ℕ
  curRegionI : ℕ
  messageId : ℕ

namespace Message

/-- A message to encode into. -/
def new (messageId : ℕ) : Message := ⟨.empty, [], [], 0, 0, 0, messageId⟩

/-- `encode_bytes`: the bytes are copied to the end that the vector has after it was
expanded. -/
def encodeBytes (message : Message) (bytes : List Byte) (fresh : Memory Byte) :
    Except Fault Message :=
  let buffer := message.buffer.expand bytes.length fresh
  (buffer.copyTo buffer.size bytes).map fun buffer => { message with buffer }

/-- `encode_fd` -/
def encodeFd (message : Message) (fd : ℤ) : Message :=
  { message with fds := message.fds ++ [fd] }

/-- `encode_memory_region` -/
def encodeMemoryRegion (message : Message) (ptr size : U64) : Message :=
  { message with memoryRegions := message.memoryRegions ++ [(ptr, size)] }

/-- `to_buffer` -/
def toBuffer (message : Message) : MessageBuffer :=
  .create message.messageId message.buffer.toList message.fds message.memoryRegions

/-- What `from_buffer` has found in the items. -/
structure Parts where
  data : Option (ℕ × ℕ)
  fds : List ℤ
  memoryRegions : List (U64 × U64)

/-- The loop of `from_buffer` over the items. -/
def collectItems : List PayloadItem → Parts → Except ErrorCode Parts
  | [], parts => .ok parts
  | .data offset len :: rest, parts =>
      if parts.data.isSome then .error .EINVAL
      else collectItems rest { parts with data := some (offset, len) }
  | .fd fd :: rest, parts => collectItems rest { parts with fds := parts.fds ++ [fd] }
  | .memory ptr size _ _ :: rest, parts =>
      collectItems rest { parts with memoryRegions := parts.memoryRegions ++ [(ptr, size)] }
  | .unknown _ :: _, _ => .error .EINVAL

/-- The copy of the data; whether it is in the buffer has not been checked. -/
def copyData (buffer : MessageBuffer) (fresh : Memory Byte) :
    Option (ℕ × ℕ) → Except Fault ByteVector
  | none => .ok .empty
  | some (offset, len) =>
      if maxMemcopy < len then .error .panic
      else if len ≠ 0 ∧ buffer.size < offset + len then .error .outOfBounds
      else (ByteVector.empty.expand len fresh).copyTo 0 (slice buffer.bytes offset len)

/-- `from_buffer` -/
def fromBuffer (buffer : MessageBuffer) (fresh : Memory Byte) :
    Except Fault (Except ErrorCode Message) :=
  if buffer.verify = false then .ok (.error .EINVAL)
  else
    match collectItems buffer.payloadItems ⟨none, [], []⟩ with
    | .error code => .ok (.error code)
    | .ok parts =>
        (copyData buffer fresh parts.data).map fun data =>
          .ok ⟨data, parts.fds, parts.memoryRegions, 0, 0, 0, buffer.header.messageId⟩

/-- `start_decoding` -/
def startDecoding (message : Message) : Message :=
  { message with curBufferPosition := 0, curFdI := 0, curRegionI := 0 }

/-- `decode_bytes` -/
def decodeBytes (message : Message) (length : ℕ) : Message × Except ErrorCode (List Byte) :=
  if u64 (length + message.curBufferPosition) < message.buffer.size then
    ({ message with curBufferPosition := u64 (message.curBufferPosition + length) },
      .ok (slice message.buffer.array message.curBufferPosition length))
  else (message, .error .EOVERFLOW)

/-- `decode_fd` -/
def decodeFd (message : Message) : Message × Except ErrorCode ℤ :=
  match message.fds[message.curFdI]? with
  | some fd => ({ message with curFdI := message.curFdI + 1 }, .ok fd)
  | none => (message, .error .EOVERFLOW)

/-- `decode_memory_region` -/
def decodeMemoryRegion (message : Message) : Message × Except ErrorCode (U64 × U64) :=
  match message.memoryRegions[message.curRegionI]? with
  | some region => ({ message with curRegionI := message.curRegionI + 1 }, .ok region)
  | none => (message, .error .EOVERFLOW)

end Message

/-! ## There and back -/

/-- A value that is encoded. -/
inductive Value where
  | bytes (bytes : List Byte)
  | fd (fd : ℤ)
  | memoryRegion (ptr size : U64)
  deriving DecidableEq

namespace Message

/-- Encode a value. -/
def encode (message : Message) (fresh : Memory Byte) : Value → Except Fault Message
  | .bytes bytes => message.encodeBytes bytes fresh
  | .fd fd => .ok (message.encodeFd fd)
  | .memoryRegion ptr size => .ok (message.encodeMemoryRegion ptr size)

/-- Decode a value of the kind and the length of one that was encoded. -/
def decode (message : Message) : Value → Message × Except ErrorCode Value
  | .bytes bytes =>
      let decoded := message.decodeBytes bytes.length
      (decoded.1, decoded.2.map .bytes)
  | .fd _ =>
      let decoded := message.decodeFd
      (decoded.1, decoded.2.map .fd)
  | .memoryRegion _ _ =>
      let decoded := message.decodeMemoryRegion
      (decoded.1, decoded.2.map fun region => .memoryRegion region.1 region.2)

/-- Decode the values of a sequence that was encoded. -/
def decodeAll : Message → List Value → Except ErrorCode (List Value)
  | _, [] => .ok []
  | message, value :: rest =>
      let decoded := message.decode value
      decoded.2.bind fun value => (decoded.1.decodeAll rest).map (value :: ·)

/-- Encode some values; what the `i`-th of them allocates holds `fresh i`. -/
def encodeAll (fresh : ℕ → Memory Byte) (message : Message) (values : List Value) :
    Except Fault Message :=
  values.zipIdx.foldlM (fun message value => message.encode (fresh value.2) value.1) message

/-- Encode some values, lay the message out, parse it and decode it. -/
def roundTrip (fresh : ℕ → Memory Byte) (messageId : ℕ) (values : List Value) :
    Except Fault (Except ErrorCode (ℕ × List Value)) := do
  let message ← encodeAll fresh (new messageId) values
  let received ← fromBuffer message.toBuffer (fresh values.length)
  return received.bind fun received =>
    (received.startDecoding.decodeAll values).map fun decoded => (received.messageId, decoded)

end Message

/-! ## The header of a buffer -/

section Header

variable {messageId : ℕ} {data : List Byte} {fds : List ℤ} {memoryRegions : List (U64 × U64)}

theorem writeItems_of_lt {items : List PayloadItem} {bytes : Memory Byte} {i p : ℕ}
    (h : p < payloadItemOffset i) : MessageBuffer.writeItems bytes i items p = bytes p := by
  induction items generalizing bytes i with
  | nil => rfl
  | cons item items ih =>
      have hnext : payloadItemOffset i ≤ payloadItemOffset (i + 1) :=
        Nat.add_le_add_left (Nat.mul_le_mul_right _ (Nat.le_succ i)) _
      rw [MessageBuffer.writeItems, ih (by omega), copyRange_of_not_mem (by omega)]

theorem totalSize_create :
    (MessageBuffer.create messageId data fds memoryRegions).header.totalSize =
      (MessageBuffer.create messageId data fds memoryRegions).size := by
  have hcount : (fds.length + memoryRegions.length + 1) % 0x100000000 < 0x100000000 :=
    Nat.mod_lt _ (by decide)
  have hoffset : headerSize ≤
      calculateDataOffset ((fds.length + memoryRegions.length + 1) % 0x100000000) := by
    unfold calculateDataOffset headerSize payloadItemSize
    rw [u64_of_lt (by omega)]
    exact Nat.le_add_right _ _
  have hsize : calculateSizeForMessage data.length fds.length memoryRegions.length < 256 ^ 8 :=
    u64_lt _
  unfold MessageBuffer.header MessageHeader.ofMemory MessageBuffer.create
  dsimp only
  rw [@leRead_congr _ (MessageHeader.toMemory ⟨calculateSizeForMessage data.length fds.length
    memoryRegions.length, (fds.length + memoryRegions.length + 1) % 0x100000000, messageId⟩) _ 0]
  · unfold MessageHeader.toMemory
    rw [leRead_leWrite_of_disjoint (Or.inl (by decide)),
      leRead_leWrite_of_disjoint (Or.inl (by decide)), leRead_leWrite]
    exact Nat.mod_eq_of_lt hsize
  · intro i hi
    have hheader : i < headerSize := hi.trans_le (by decide)
    rw [Nat.zero_add, copyRange_of_not_mem (by omega),
      writeItems_of_lt (hheader.trans_le (Nat.le_add_right _ _)),
      copyRange_of_mem (Nat.zero_le i) (by omega), Nat.zero_add, Nat.sub_zero]

theorem verify_create : (MessageBuffer.create messageId data fds memoryRegions).verify = false := by
  unfold MessageBuffer.verify
  rw [totalSize_create]
  by_cases hsmall : (MessageBuffer.create messageId data fds memoryRegions).size < headerSize
  · rw [if_pos hsmall]
  · rw [if_neg hsmall, if_pos (Nat.le_refl _)]

end Header

/-- **No message comes back** from the buffer that was made for it. -/
theorem roundTrip_fails (fresh : ℕ → Memory Byte) (messageId : ℕ) (values : List Value) :
    Message.roundTrip fresh messageId values ≠ .ok (.ok (messageId, values)) := by
  unfold Message.roundTrip
  cases Message.encodeAll fresh (.new messageId) values with
  | error fault => exact nofun
  | ok message =>
      have hrejected : Message.fromBuffer message.toBuffer (fresh values.length) =
          .ok (.error .EINVAL) := if_pos verify_create
      show Except.bind (Message.fromBuffer message.toBuffer (fresh values.length)) _ ≠ _
      rw [hrejected]
      exact nofun

/-- One handle, and nothing that is copied. -/
theorem roundTrip_fd : Message.roundTrip (fun _ _ => 0) 1 [.fd 3] = .ok (.error .EINVAL) := rfl

/-! ## What is received -/

/-- A call of one of the decoders. -/
inductive DecodeCall where
  | bytes (length : ℕ)
  | fd
  | memoryRegion
  deriving DecidableEq

namespace Message

/-- The message after a call. -/
def call (message : Message) : DecodeCall → Message
  | .bytes length => (message.decodeBytes length).1
  | .fd => message.decodeFd.1
  | .memoryRegion => message.decodeMemoryRegion.1

/-- What a call hands out is in the message. -/
def HandsOut (message : Message) : DecodeCall → Prop
  | .bytes length => ∀ bytes, (message.decodeBytes length).2 = .ok bytes →
      message.curBufferPosition + length ≤ message.buffer.size
  | .fd => ∀ fd, message.decodeFd.2 = .ok fd → fd ∈ message.fds
  | .memoryRegion => ∀ region, message.decodeMemoryRegion.2 = .ok region →
      region ∈ message.memoryRegions

/-- So it is with some calls, one after the other. -/
def StaysInside : Message → List DecodeCall → Prop
  | _, [] => True
  | message, call :: calls => message.HandsOut call ∧ (message.call call).StaysInside calls

end Message

/-- The places and the lengths of the data items. -/
def dataItems (items : List PayloadItem) : List (ℕ × ℕ) :=
  items.filterMap fun
    | .data offset len => some (offset, len)
    | _ => none

/-- The data of the message is that of the buffer which its data item says, if it has one. -/
def Message.ReadFrom (message : Message) (buffer : MessageBuffer) : Prop :=
  (dataItems buffer.payloadItems = [] ∧ message.buffer.toList = []) ∨
    ∃ offset len, dataItems buffer.payloadItems = [(offset, len)] ∧
      (len = 0 ∨ offset + len ≤ buffer.size) ∧
      message.buffer.toList = slice buffer.bytes offset len

/-- `from_buffer` looks at items in the buffer only, and refuses it or gives a message from it,
which the decoders stay in. -/
structure ReceivesRight (buffer : MessageBuffer) (fresh : Memory Byte) (calls : List DecodeCall) :
    Prop where
  items : buffer.verify = true →
    ∀ i < buffer.header.payloadItemCount, payloadItemOffset (i + 1) ≤ buffer.size
  message : Message.fromBuffer buffer fresh = .ok (.error .EINVAL) ∨
    ∃ message, Message.fromBuffer buffer fresh = .ok (.ok message) ∧ message.ReadFrom buffer ∧
      message.StaysInside calls

/-- The buffer passes its check, and its items are of the kinds that there are, with at most one of
data. -/
structure WellFormed (buffer : MessageBuffer) : Prop where
  verified : buffer.verify = true
  known : ∀ kind, .unknown kind ∉ buffer.payloadItems
  single : (dataItems buffer.payloadItems).length ≤ 1

/-- The data is in the buffer, and not too long for `memcopy`. -/
def DataInside (buffer : MessageBuffer) : Prop :=
  ∀ item ∈ dataItems buffer.payloadItems,
    item.2 = 0 ∨ (item.1 + item.2 ≤ buffer.size ∧ item.2 ≤ maxMemcopy)

/-- The length of the data. -/
def dataLength (buffer : MessageBuffer) : ℕ :=
  ((dataItems buffer.payloadItems).head?.map Prod.snd).getD 0

/-- Where `decode_bytes` compares a sum with the length of the data and finds it less, the sum has
not wrapped around. -/
def NoWrap (length : ℕ) : ℕ → List DecodeCall → Prop
  | _, [] => True
  | position, .bytes wanted :: calls =>
      if u64 (wanted + position) < length then
        position + wanted < 0x10000000000000000 ∧ NoWrap length (position + wanted) calls
      else NoWrap length position calls
  | position, .fd :: calls => NoWrap length position calls
  | position, .memoryRegion :: calls => NoWrap length position calls

section Received

variable {buffer : MessageBuffer} {fresh : Memory Byte} {calls : List DecodeCall}
  {items : List PayloadItem} {parts : Message.Parts} {message : Message}

theorem items_inside (hverify : buffer.verify = true) {i : ℕ}
    (hi : i < buffer.header.payloadItemCount) : payloadItemOffset (i + 1) ≤ buffer.size := by
  have hcount : buffer.header.payloadItemCount < 256 ^ 4 := leRead_lt ..
  unfold MessageBuffer.verify at hverify
  split_ifs at hverify with _ htotal hoffset
  unfold calculateDataOffset payloadItemSize headerSize at hoffset
  rw [u64_of_lt (by omega)] at hoffset
  unfold payloadItemOffset payloadItemSize headerSize
  omega

/-- **Items of known kinds**, one of data at most, are taken. -/
theorem collectItems_eq_ok (hknown : ∀ kind, .unknown kind ∉ items)
    (hsingle : (parts.data.toList ++ dataItems items).length ≤ 1) :
    ∃ out, Message.collectItems items parts = .ok out ∧
      out.data = (parts.data.toList ++ dataItems items).head? := by
  induction items generalizing parts with
  | nil =>
      refine ⟨parts, rfl, ?_⟩
      cases parts.data <;> rfl
  | cons item items ih =>
      have hrest : ∀ kind, .unknown kind ∉ items := fun kind h =>
        hknown kind (List.mem_cons_of_mem _ h)
      cases item with
      | data offset len =>
          have hnone : parts.data = none := by
            cases hdata : parts.data with
            | none => rfl
            | some item =>
                rw [hdata] at hsingle
                simp [dataItems] at hsingle
          rw [Message.collectItems, hnone, if_neg (by decide)]
          rw [hnone] at hsingle
          exact ih hrest hsingle
      | fd fd => exact ih hrest hsingle
      | memory ptr size canRead canWrite => exact ih hrest hsingle
      | unknown kind => exact absurd List.mem_cons_self (hknown kind)

/-- **Others** are not. -/
theorem collectItems_eq_error
    (hnot : ¬ ((∀ kind, .unknown kind ∉ items) ∧
      (parts.data.toList ++ dataItems items).length ≤ 1)) :
    Message.collectItems items parts = .error .EINVAL := by
  induction items generalizing parts with
  | nil =>
      refine absurd ⟨fun kind => List.not_mem_nil, ?_⟩ hnot
      rw [dataItems, List.filterMap_nil, List.append_nil]
      exact Option.length_toList_le
  | cons item items ih =>
      have hknown (hitem : ∀ kind, item ≠ .unknown kind)
          (h : ∀ kind, .unknown kind ∉ items) : ∀ kind, .unknown kind ∉ item :: items :=
        fun kind => List.not_mem_cons_of_ne_of_not_mem (hitem kind).symm (h kind)
      cases item with
      | data offset len =>
          rw [Message.collectItems]
          cases hdata : parts.data with
          | some item => rw [if_pos (by rfl)]
          | none =>
              rw [if_neg (by decide)]
              refine ih fun h => hnot ⟨hknown (fun _ h => by cases h) h.1, ?_⟩
              rw [hdata]
              exact h.2
      | fd fd =>
          exact ih fun h => hnot ⟨hknown (fun _ h => by cases h) h.1, h.2⟩
      | memory ptr size canRead canWrite =>
          exact ih fun h => hnot ⟨hknown (fun _ h => by cases h) h.1, h.2⟩
      | unknown kind => rfl

theorem ByteVector.le_growCapacity {needed fuel capacity : ℕ}
    (h : needed ≤ capacity * 2 ^ fuel) :
    needed ≤ ByteVector.growCapacity needed fuel capacity := by
  induction fuel generalizing capacity with
  | zero => simpa [ByteVector.growCapacity] using h
  | succ fuel ih =>
      rw [ByteVector.growCapacity]
      split_ifs with hless
      · refine ih (h.trans_eq ?_)
        rw [Nat.pow_succ', ← Nat.mul_assoc, Nat.mul_comm capacity]
      · exact Nat.le_of_not_lt hless

theorem ByteVector.capacity_expand_empty (len : ℕ) :
    len ≤ (ByteVector.empty.expand len fresh).capacity := by
  have hgrown : len ≤ growCapacity len len 1 :=
    le_growCapacity (by rw [Nat.one_mul]; exact Nat.lt_two_pow_self.le)
  have hnonzero : growCapacity len len 1 ≠ 0 := by
    intro hzero
    cases len with
    | zero => cases hzero
    | succ len => omega
  show len ≤ (ite (growCapacity len len 1 ≠ 0) _ ByteVector.empty).capacity
  rw [if_pos hnonzero]
  exact hgrown

theorem copyData_some {offset len : ℕ}
    (hinside : len = 0 ∨ (offset + len ≤ buffer.size ∧ len ≤ maxMemcopy)) :
    ∃ data, Message.copyData buffer fresh (some (offset, len)) = .ok data ∧ data.size = len ∧
      data.toList = slice buffer.bytes offset len := by
  have hlength : (slice buffer.bytes offset len).length = len := length_slice ..
  have hroom := @ByteVector.capacity_expand_empty fresh len
  refine ⟨{ ByteVector.empty.expand len fresh with
    array := copyRange (ByteVector.empty.expand len fresh).array 0
      (fun i => (slice buffer.bytes offset len).getD i 0) 0 len }, ?_, rfl, ?_⟩
  · rw [Message.copyData, if_neg (by omega), if_neg (by omega), ByteVector.copyTo, hlength,
      if_neg (by omega), if_neg (by omega)]
  · unfold ByteVector.toList
    dsimp only [ByteVector.expand, ByteVector.empty, Nat.add_zero]
    rw [slice_copyRange_self]
    refine List.ext_getElem (by rw [length_slice, hlength]) fun i _ hi => ?_
    rw [getElem_slice, Nat.zero_add]
    exact List.getD_eq_getElem _ _ hi

theorem handsOut_fd : message.HandsOut .fd := by
  show ∀ fd, message.decodeFd.2 = .ok fd → fd ∈ message.fds
  intro fd hfd
  unfold Message.decodeFd at hfd
  cases hget : message.fds[message.curFdI]? with
  | none =>
      rw [hget] at hfd
      cases hfd
  | some found =>
      rw [hget] at hfd
      cases hfd
      exact List.mem_of_getElem? hget

theorem handsOut_memoryRegion : message.HandsOut .memoryRegion := by
  show ∀ region, message.decodeMemoryRegion.2 = .ok region → region ∈ message.memoryRegions
  intro region hregion
  unfold Message.decodeMemoryRegion at hregion
  cases hget : message.memoryRegions[message.curRegionI]? with
  | none =>
      rw [hget] at hregion
      cases hregion
  | some found =>
      rw [hget] at hregion
      cases hregion
      exact List.mem_of_getElem? hget

/-- The decoders stay in the data if their sums do not wrap around. -/
theorem staysInside_iff (hsize : message.buffer.size < 0x10000000000000000) :
    message.StaysInside calls ↔
      NoWrap message.buffer.size message.curBufferPosition calls := by
  induction calls generalizing message with
  | nil => exact Iff.rfl
  | cons call calls ih =>
      cases call with
      | bytes length =>
          rw [Message.StaysInside, NoWrap]
          show (∀ bytes, (message.decodeBytes length).2 = .ok bytes →
            message.curBufferPosition + length ≤ message.buffer.size) ∧
              (message.decodeBytes length).1.StaysInside calls ↔ _
          unfold Message.decodeBytes
          by_cases hless : u64 (length + message.curBufferPosition) < message.buffer.size
          · have hnext := @ih
              { message with curBufferPosition := message.curBufferPosition + length } hsize
            rw [if_pos hless, if_pos hless]
            constructor
            · rintro ⟨hout, hrest⟩
              have hend := hout _ rfl
              rw [u64_of_lt (by omega)] at hrest
              exact ⟨by omega, hnext.mp hrest⟩
            · rintro ⟨hwrap, hrest⟩
              rw [u64_of_lt (by omega)] at hless
              rw [u64_of_lt hwrap]
              exact ⟨fun _ _ => by omega, hnext.mpr hrest⟩
          · rw [if_neg hless, if_neg hless, ih hsize]
            exact and_iff_right fun bytes h => by cases h
      | fd =>
          have hcall : (message.call .fd).buffer = message.buffer ∧
              (message.call .fd).curBufferPosition = message.curBufferPosition := by
            show message.decodeFd.1.buffer = _ ∧ message.decodeFd.1.curBufferPosition = _
            unfold Message.decodeFd
            cases message.fds[message.curFdI]? <;> exact ⟨rfl, rfl⟩
          rw [Message.StaysInside, NoWrap, and_iff_right handsOut_fd, ih (hcall.1 ▸ hsize), hcall.1,
            hcall.2]
      | memoryRegion =>
          have hcall : (message.call .memoryRegion).buffer = message.buffer ∧
              (message.call .memoryRegion).curBufferPosition = message.curBufferPosition := by
            show message.decodeMemoryRegion.1.buffer = _ ∧
              message.decodeMemoryRegion.1.curBufferPosition = _
            unfold Message.decodeMemoryRegion
            cases message.memoryRegions[message.curRegionI]? <;> exact ⟨rfl, rfl⟩
          rw [Message.StaysInside, NoWrap, and_iff_right handsOut_memoryRegion,
            ih (hcall.1 ▸ hsize), hcall.1, hcall.2]

theorem fromBuffer_eq_error (hnot : ¬ WellFormed buffer) :
    Message.fromBuffer buffer fresh = .ok (.error .EINVAL) := by
  unfold Message.fromBuffer
  by_cases hverify : buffer.verify = false
  · exact if_pos hverify
  · have hitems := @collectItems_eq_error buffer.payloadItems ⟨none, [], []⟩ fun h =>
      hnot ⟨Bool.not_eq_false _ ▸ hverify, h.1, h.2⟩
    rw [if_neg hverify, hitems]

theorem fromBuffer_eq_copyData (hformed : WellFormed buffer) :
    ∃ fds memoryRegions, Message.fromBuffer buffer fresh =
      (Message.copyData buffer fresh (dataItems buffer.payloadItems).head?).map fun data =>
        .ok ⟨data, fds, memoryRegions, 0, 0, 0, buffer.header.messageId⟩ := by
  obtain ⟨parts, hparts, hdata⟩ := @collectItems_eq_ok buffer.payloadItems ⟨none, [], []⟩
    hformed.known hformed.single
  refine ⟨parts.fds, parts.memoryRegions, ?_⟩
  unfold Message.fromBuffer
  rw [if_neg (by rw [hformed.verified]; decide), hparts]
  dsimp only
  rw [hdata]
  rfl

theorem copyData_inside {offset len : ℕ} {data : ByteVector}
    (h : Message.copyData buffer fresh (some (offset, len)) = .ok data) :
    len = 0 ∨ (offset + len ≤ buffer.size ∧ len ≤ maxMemcopy) := by
  unfold Message.copyData at h
  dsimp only at h
  split_ifs at h with htoo hout
  omega

theorem ofMemory_eq_data {bytes : Memory Byte} {offset len : ℕ}
    (h : PayloadItem.ofMemory bytes = .data offset len) : len < 0x10000000000000000 := by
  unfold PayloadItem.ofMemory at h
  split at h <;> cases h
  exact leRead_lt bytes 16 8

theorem len_lt_of_mem_dataItems {item : ℕ × ℕ} (h : item ∈ dataItems buffer.payloadItems) :
    item.2 < 0x10000000000000000 := by
  obtain ⟨payload, hpayload, hitem⟩ := List.mem_filterMap.mp h
  obtain ⟨i, -, rfl⟩ := List.mem_map.mp hpayload
  cases hkind : buffer.payloadItem i with
  | data offset len =>
      rw [hkind] at hitem
      cases hitem
      exact ofMemory_eq_data hkind
  | fd fd => rw [hkind] at hitem; cases hitem
  | memory ptr size canRead canWrite => rw [hkind] at hitem; cases hitem
  | unknown kind => rw [hkind] at hitem; cases hitem

theorem dataItems_cases (hformed : WellFormed buffer) :
    dataItems buffer.payloadItems = [] ∨
      ∃ offset len, dataItems buffer.payloadItems = [(offset, len)] := by
  have hsingle := hformed.single
  cases hitems : dataItems buffer.payloadItems with
  | nil => exact .inl rfl
  | cons item rest =>
      rw [hitems] at hsingle
      cases rest with
      | nil => exact .inr ⟨_, _, rfl⟩
      | cons _ _ => exact absurd hsingle (by simp)

/-- **A buffer is received** as it should be if it is refused, or its data is inside and the
decoders are not asked for so much that a sum wraps around. -/
theorem receivesRight_iff (buffer : MessageBuffer) (fresh : Memory Byte)
    (calls : List DecodeCall) :
    ReceivesRight buffer fresh calls ↔
      (WellFormed buffer → DataInside buffer ∧ NoWrap (dataLength buffer) 0 calls) := by
  by_cases hformed : WellFormed buffer
  swap
  · exact ⟨fun _ h => absurd h hformed,
      fun _ => ⟨fun hverify i hi => items_inside hverify hi, .inl (fromBuffer_eq_error hformed)⟩⟩
  rw [forall_prop_of_true hformed]
  obtain ⟨fds, memoryRegions, hfrom⟩ := @fromBuffer_eq_copyData buffer fresh hformed
  have hitems : buffer.verify = true →
      ∀ i < buffer.header.payloadItemCount, payloadItemOffset (i + 1) ≤ buffer.size :=
    fun hverify i hi => items_inside hverify hi
  obtain hnone | ⟨offset, len, hsome⟩ := dataItems_cases hformed
  · rw [hnone] at hfrom
    have hinside : DataInside buffer := by
      rw [DataInside, hnone]
      exact List.forall_mem_nil _
    have hlength : dataLength buffer = 0 := by
      rw [dataLength, hnone]
      rfl
    have hstays := @staysInside_iff calls ⟨.empty, fds, memoryRegions, 0, 0, 0,
      buffer.header.messageId⟩ (Nat.two_pow_pos 64)
    rw [hlength, and_iff_right hinside]
    constructor
    · rintro ⟨-, hrefused | ⟨message, hmessage, -, hcalls⟩⟩
      · cases hfrom.symm.trans hrefused
      · cases hfrom.symm.trans hmessage
        exact hstays.mp hcalls
    · exact fun hwrap => ⟨hitems, .inr ⟨_, hfrom, .inl ⟨hnone, rfl⟩, hstays.mpr hwrap⟩⟩
  · rw [hsome] at hfrom
    have hlength : dataLength buffer = len := by
      rw [dataLength, hsome]
      rfl
    have hinside : DataInside buffer ↔
        len = 0 ∨ (offset + len ≤ buffer.size ∧ len ≤ maxMemcopy) := by
      rw [DataInside, hsome, List.forall_mem_singleton]
    rw [hlength, hinside]
    have hlen : len < 0x10000000000000000 :=
      @len_lt_of_mem_dataItems buffer _ (hsome ▸ List.mem_singleton_self _)
    have hstays (data : ByteVector) (hsize : data.size = len) :
        Message.StaysInside ⟨data, fds, memoryRegions, 0, 0, 0, buffer.header.messageId⟩ calls ↔
          NoWrap len 0 calls := by
      rw [staysInside_iff (hsize ▸ hlen)]
      show NoWrap data.size 0 calls ↔ _
      rw [hsize]
    constructor
    · rintro ⟨-, right⟩
      cases hcopy : Message.copyData buffer fresh (some (offset, len)) with
      | error fault =>
          rw [List.head?_cons, hcopy] at hfrom
          rcases right with hrefused | ⟨message, hmessage, -⟩
          · cases hfrom.symm.trans hrefused
          · cases hfrom.symm.trans hmessage
      | ok data =>
          have hdata := copyData_inside hcopy
          obtain ⟨copied, hcopied, hsize, -⟩ := @copyData_some buffer fresh offset len hdata
          cases hcopy.symm.trans hcopied
          rw [List.head?_cons, hcopy] at hfrom
          rcases right with hrefused | ⟨message, hmessage, -, hcalls⟩
          · cases hfrom.symm.trans hrefused
          · cases hfrom.symm.trans hmessage
            exact ⟨hdata, (hstays data hsize).mp hcalls⟩
    · rintro ⟨hdata, hwrap⟩
      obtain ⟨data, hcopy, hsize, hbytes⟩ := @copyData_some buffer fresh offset len hdata
      rw [List.head?_cons, hcopy] at hfrom
      exact ⟨hitems, .inr ⟨_, hfrom, .inr ⟨offset, len, hsome, hdata.imp id And.left, hbytes⟩,
        (hstays data hsize).mpr hwrap⟩⟩

/-- A header, and one item of data: 8 bytes at 0x1000 of the 64 that were received. -/
def outsideBuffer : MessageBuffer where
  bytes := copyRange (copyRange (fun _ => 0) 0 (MessageHeader.toMemory ⟨48, 1, 7⟩) 0 headerSize)
    headerSize (PayloadItem.toMemory (.data 0x1000 8)) 0 payloadItemSize
  size := 64

/-- The data is read from outside, and nothing refuses it. -/
theorem receivesRight_fails : outsideBuffer.verify = true ∧
    Message.fromBuffer outsideBuffer (fun _ => 0) = .error .outOfBounds ∧
    ¬ ReceivesRight outsideBuffer (fun _ => 0) [] := by
  have hfrom : Message.fromBuffer outsideBuffer (fun _ => 0) = .error .outOfBounds := rfl
  refine ⟨rfl, hfrom, fun right => ?_⟩
  rcases right.message with hrefused | ⟨message, hmessage, -⟩
  · cases hfrom.symm.trans hrefused
  · cases hfrom.symm.trans hmessage

end Received

end Ipc

end BekOS
