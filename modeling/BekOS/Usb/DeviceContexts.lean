import BekOS.Lib.BitField
import BekOS.Usb.Descriptors
import Mathlib.Tactic.IntervalCases

/-!
# The contexts of a device

The driver tells the controller of the endpoints of a device by an input context: flags for the
contexts that are added, the slot context, and the endpoint contexts, each at one more than its
device context index, which is one more than the index that the driver itself uses.
-/

namespace BekOS.Usb

open BitField Function

/-! ## Contexts -/

/-- `RawContext` -/
abbrev RawContext := ℕ → BitVec 32

/-- `InputControlContext::set_add_flag` -/
def RawContext.setAddFlag (data : RawContext) (n : ℕ) (b : Bool) : RawContext :=
  update data 1 ((data 1 &&& ~~~(1#32 <<< n)) ||| (if b then 1#32 <<< n else 0))

/-- `InputControlContext::get_add_flag` -/
def RawContext.getAddFlag (data : RawContext) (n : ℕ) : Bool := (data 1).getLsbD n

/-- `SlotContext::set_context_entries` -/
def RawContext.setContextEntries (data : RawContext) (n : Byte) : RawContext :=
  update data 0 ((data 0 &&& 0x07FFFFFF#32) ||| ((n &&& 0b11111#8).setWidth 32 <<< 27))

/-- `SlotContext::get_context_entries` -/
def RawContext.getContextEntries (data : RawContext) : Byte :=
  ((data 0 >>> 27) &&& 0b11111#32).setWidth 8

/-- `EndpointContext::set_interval` -/
def RawContext.setInterval (data : RawContext) (i : Byte) : RawContext :=
  update data 0 ((data 0 &&& 0xFF00FFFF#32) ||| (i.setWidth 32 <<< 16))

/-- `EndpointContext::set_error_count` -/
def RawContext.setErrorCount (data : RawContext) (c : Byte) : RawContext :=
  update data 1 ((data 1 &&& ~~~0b110#32) ||| ((c &&& 0b11#8).setWidth 32 <<< 1))

/-- `EndpointContext::set_endpoint_type` -/
def RawContext.setEndpointType (data : RawContext) (t : BitVec 3) : RawContext :=
  update data 1 ((data 1 &&& ~~~0b111000#32) ||| (t.setWidth 32 <<< 3))

/-- `EndpointContext::get_endpoint_type` -/
def RawContext.getEndpointType (data : RawContext) : BitVec 3 :=
  ((data 1 >>> 3) &&& 0b111#32).setWidth 3

/-- `EndpointContext::set_max_packet_size` -/
def RawContext.setMaxPacketSize (data : RawContext) (s : BitVec 16) : RawContext :=
  update data 1 ((data 1 &&& 0xFFFF#32) ||| (s.setWidth 32 <<< 16))

/-- `EndpointContext::get_max_packet_size` -/
def RawContext.getMaxPacketSize (data : RawContext) : BitVec 16 := (data 1 >>> 16).setWidth 16

/-- `EndpointContext::set_dequeue_ptr` -/
def RawContext.setDequeuePtr (data : RawContext) (ptr : BitVec 64) (cycle : Bool) : RawContext :=
  update (update data 3 ((ptr >>> 32).setWidth 32)) 2
    (ptr.setWidth 32 ||| (if cycle then 1 else 0))

/-- `EndpointContext::set_avg_trb_length` -/
def RawContext.setAvgTrbLength (data : RawContext) (l : BitVec 16) : RawContext :=
  update data 4 ((data 4 &&& 0xFFFF0000#32) ||| l.setWidth 32)

/-- `ep_type_from` -/
def epTypeFrom (ttype : TransferType) (dir : Direction) : BitVec 3 :=
  match ttype, dir with
  | .Control, _ => 4
  | .Isochronous, .In => 5
  | .Isochronous, .Out => 1
  | .Bulk, .In => 6
  | .Bulk, .Out => 2
  | .Interrupt, .In => 7
  | .Interrupt, .Out => 3

/-- `ContextArray`; large contexts take the room of two. -/
structure ContextArray (nContexts : ℕ) where
  large : Bool
  array : ℕ → RawContext

namespace ContextArray

variable {nContexts : ℕ}

/-- The constructor. -/
def new (nContexts : ℕ) (large : Bool) : ContextArray nContexts where
  large := large
  array := fun _ _ => 0

/-- Where a context is in the array. -/
def place (contexts : ContextArray nContexts) (idx : ℕ) : ℕ :=
  idx * if contexts.large then 2 else 1

/-- `get_as` -/
def getAs (contexts : ContextArray nContexts) (idx : ℕ) : Except Fault RawContext := do
  verify (contexts.place idx < contexts.place nContexts)
  return contexts.array (contexts.place idx)

/-- `get_as`, and what is done to the context. -/
def modifyAs (contexts : ContextArray nContexts) (idx : ℕ) (f : RawContext → RawContext) :
    Except Fault (ContextArray nContexts) := do
  let context ← contexts.getAs idx
  return { contexts with array := update contexts.array (contexts.place idx) (f context) }

end ContextArray

/-- `control_ici` -/
def controlIci : ℕ := 0

/-- `slot_ici` -/
def slotIci : ℕ := 1

/-- `ep_ici` -/
def epIci (endpointIdx : ℕ) : ℕ := endpointIdx + 2

/-- `ep_dci` -/
def epDci (endpointIdx : ℕ) : ℕ := endpointIdx + 1

/-- `input_context_size` -/
def inputContextSize : ℕ := 34

/-- `device_context_size` -/
def deviceContextSize : ℕ := 32

/-! ## The device -/

/-- `DeviceSpeed` -/
inductive DeviceSpeed
  | Low | Full | High | Super
deriving DecidableEq, Repr

/-- `endpoint_index` -/
def endpointIndex (endpointNumber : Byte) (ttype : TransferType) (dir : Direction) :
    Except Fault ℕ := do
  verify (0 < endpointNumber.toNat ∨ ttype = .Control)
  return if ttype = .Control then 2 * endpointNumber.toNat
    else 2 * endpointNumber.toNat - if dir = .Out then 1 else 0

/-- `xhci::Device`: what `enable_configuration` uses of it. -/
structure XhciDevice where
  ctxArray : ContextArray deviceContextSize
  /-- `m_transfer_rings`: where the rings are, for the controller. -/
  transferRings : ℕ → Option (BitVec 64)
  speed : DeviceSpeed

/-- The length of `m_transfer_rings`. -/
def transferRingCount : ℕ := 31

/-- The interval of an endpoint context. -/
def setIntervalFor (speed : DeviceSpeed) (ep : Endpoint) (context : RawContext) :
    Except Fault RawContext :=
  let interval := ep.bInterval.toNat
  if ep.ttype = .Interrupt ∧ (speed = .Full ∨ speed = .Low) then do
    verify (1 ≤ interval ∧ interval ≤ 255)
    return context.setInterval (BitVec.ofNat 8 (Nat.log2 (8 * interval)))
  else if speed = .Full ∧ ep.ttype = .Isochronous then do
    verify (1 ≤ interval ∧ interval ≤ 16)
    return context.setInterval (ep.bInterval + 2)
  else if speed ≠ .Low ∧ (ep.ttype = .Interrupt ∨ ep.ttype = .Isochronous) then do
    verify (1 ≤ interval ∧ interval ≤ 16)
    return context.setInterval (ep.bInterval - 1)
  else return context

/-- The fields that do not depend on the speed. -/
def setEndpointFields (ep : Endpoint) (ring : BitVec 64) (context : RawContext) : RawContext :=
  (((context.setErrorCount (if ep.ttype = .Isochronous then 0 else 3)).setEndpointType
    (epTypeFrom ep.ttype ep.direction)).setDequeuePtr ring true).setAvgTrbLength 8

/-- `setup_endpoint_data`, with the ring that is made for the endpoint. -/
def setupEndpointData (ring : BitVec 64) (ep : Endpoint)
    (inputCtx : ContextArray inputContextSize) (device : XhciDevice) :
    Except Fault (ContextArray inputContextSize × XhciDevice) := do
  let epIdx ← endpointIndex ep.number ep.ttype ep.direction
  let inputCtx ← inputCtx.modifyAs controlIci (·.setAddFlag (epDci epIdx) true)
  if transferRingCount ≤ epIdx then .error .outOfBounds
  else
    let device := { device with
      transferRings := update device.transferRings epIdx (some ring) }
    let epCtx ← inputCtx.getAs (epIci epIdx)
    let epCtx ← setIntervalFor device.speed ep (epCtx.setMaxPacketSize ep.maxPacketSize)
    let inputCtx ← inputCtx.modifyAs (epIci epIdx) fun _ => setEndpointFields ep ring epCtx
    return (inputCtx, device)

/-- The loop over the endpoints, with the rings that are made. -/
def setupEndpoints (rings : ℕ → BitVec 64) : ℕ → List Endpoint →
    ContextArray inputContextSize → XhciDevice →
      Except Fault (ContextArray inputContextSize × XhciDevice)
  | _, [], inputCtx, device => .ok (inputCtx, device)
  | made, ep :: rest, inputCtx, device => do
      let (inputCtx, device) ← setupEndpointData (rings made) ep inputCtx device
      setupEndpoints rings (made + 1) rest inputCtx device

/-- `max_ctx_entries`, a `u8`. -/
def maxCtxEntries : List Endpoint → ℕ → Except Fault ℕ
  | [], entries => .ok entries
  | ep :: rest, entries => do
      let epIdx ← endpointIndex ep.number ep.ttype ep.direction
      maxCtxEntries rest (max entries (epIci epIdx % 2 ^ 8))

/-- `enable_configuration`, up to the command: the input context, and the device. -/
def enableConfiguration (rings : ℕ → BitVec 64) (endpoints : List Endpoint) (device : XhciDevice) :
    Except Fault (ContextArray inputContextSize × XhciDevice) := do
  let entries ← maxCtxEntries endpoints 0
  let inputCtx ← (ContextArray.new inputContextSize device.ctxArray.large).modifyAs controlIci
    (·.setAddFlag 0 true)
  let slotCtx ← device.ctxArray.getAs 0
  let inputCtx ← inputCtx.modifyAs slotIci fun _ => slotCtx.setContextEntries (BitVec.ofNat 8 entries)
  setupEndpoints rings 0 endpoints inputCtx device

/-! ## What is submitted -/

/-- The device context index of an endpoint. -/
def Endpoint.index (ep : Endpoint) : ℕ :=
  2 * ep.number.toNat + if ep.ttype = .Control ∨ ep.direction = .In then 1 else 0

/-- The number of an endpoint that is not the default control endpoint. -/
def Endpoint.Numbered (ep : Endpoint) : Prop := 1 ≤ ep.number.toNat ∧ ep.number.toNat ≤ 15

/-- The intervals that there are for a type of transfer. -/
def intervalLimit (speed : DeviceSpeed) (ttype : TransferType) : Option ℕ :=
  if ttype = .Interrupt ∧ (speed = .Full ∨ speed = .Low) then some 255
  else if speed = .Full ∧ ttype = .Isochronous then some 16
  else if speed ≠ .Low ∧ (ttype = .Interrupt ∨ ttype = .Isochronous) then some 16
  else none

/-- The interval of an endpoint is one that there is. -/
def Endpoint.IntervalChecked (speed : DeviceSpeed) (ep : Endpoint) : Prop :=
  ∀ limit, intervalLimit speed ep.ttype = some limit →
    1 ≤ ep.bInterval.toNat ∧ ep.bInterval.toNat ≤ limit

/-- An endpoint and its ring have been stored for an index. -/
structure StoredAt (inputCtx : ContextArray inputContextSize) (device : XhciDevice)
    (ep : Endpoint) (ring : BitVec 64) : Prop where
  endpointType : (inputCtx.array (inputCtx.place (ep.index + 1))).getEndpointType =
    epTypeFrom ep.ttype ep.direction
  maxPacketSize : (inputCtx.array (inputCtx.place (ep.index + 1))).getMaxPacketSize =
    ep.maxPacketSize
  dequeuePtr : inputCtx.array (inputCtx.place (ep.index + 1)) 2 = (ring.setWidth 32 ||| 1) ∧
    inputCtx.array (inputCtx.place (ep.index + 1)) 3 = (ring >>> 32).setWidth 32
  ring : device.transferRings (ep.index - 1) = some ring

/-- The largest index in use. -/
def largestIndex (endpoints : List Endpoint) : ℕ := (endpoints.map Endpoint.index).foldr max 0

/-- The flags and the contexts of an input context; of two endpoints with the same index, the later
one has it. -/
structure EndpointsStored (rings : ℕ → BitVec 64) (endpoints : List Endpoint)
    (inputCtx : ContextArray inputContextSize) (device : XhciDevice) : Prop where
  flags : ∀ n < 32, (inputCtx.array (inputCtx.place controlIci)).getAddFlag n = true ↔
    n = 0 ∨ ∃ ep ∈ endpoints, ep.index = n
  stored : ∀ i (hi : i < endpoints.length),
    (∀ j (hj : j < endpoints.length), i < j → endpoints[j].index ≠ endpoints[i].index) →
      StoredAt inputCtx device endpoints[i] (rings i)

/-- The input context is right. -/
structure InputRight (rings : ℕ → BitVec 64) (endpoints : List Endpoint)
    (inputCtx : ContextArray inputContextSize) (device : XhciDevice) : Prop where
  stored : EndpointsStored rings endpoints inputCtx device
  entries : (inputCtx.array (inputCtx.place slotIci)).getContextEntries.toNat =
    largestIndex endpoints

/-! ## Fields -/

section Fields

variable {data : RawContext}

theorem word_setContextEntries (data : RawContext) (n : Byte) :
    data.setContextEntries n 0 = setField (data 0) 27 (n.setWidth 5) := by
  have hmask : ~~~((BitVec.allOnes 5).setWidth 32 <<< 27) = 0x07FFFFFF#32 := by decide
  have hvalue : (n &&& 0b11111#8).setWidth 32 = (n.setWidth 5).setWidth 32 := by
    refine BitVec.eq_of_toNat_eq ?_
    rw [BitVec.toNat_setWidth, BitVec.toNat_setWidth, BitVec.toNat_setWidth, BitVec.toNat_and]
    exact congrArg (· % 2 ^ 32) (Nat.and_two_pow_sub_one_eq_mod n.toNat 5)
  unfold RawContext.setContextEntries setField
  rw [update_self, hmask, hvalue]

theorem getContextEntries_eq (data : RawContext) :
    data.getContextEntries = (getField (data 0) 27 5).setWidth 8 := by
  unfold RawContext.getContextEntries
  refine BitVec.eq_of_getLsbD_eq fun i hi => ?_
  interval_cases i <;> simp [getField]

theorem getContextEntries_setContextEntries (data : RawContext) (n : Byte) :
    ((data.setContextEntries n).getContextEntries).toNat = n.toNat % 32 := by
  rw [getContextEntries_eq, word_setContextEntries, getField_setField_same _ 27 _ (by decide),
    BitVec.toNat_setWidth, BitVec.toNat_setWidth]
  exact Nat.mod_eq_of_lt (Nat.lt_trans (Nat.mod_lt _ (by decide)) (by decide))

theorem getAddFlag_setAddFlag (data : RawContext) {n m : ℕ} (hn : n < 32) :
    (data.setAddFlag n true).getAddFlag m = true ↔ m = n ∨ data.getAddFlag m = true := by
  unfold RawContext.getAddFlag RawContext.setAddFlag
  rw [update_self]
  by_cases h : m = n
  · subst h
    simp [hn]
  · have hbit : ((data 1 &&& ~~~(1#32 <<< n)) ||| 1#32 <<< n).getLsbD m = (data 1).getLsbD m := by
      rw [BitVec.getLsbD_or, BitVec.getLsbD_and, BitVec.getLsbD_not, BitVec.getLsbD_shiftLeft,
        BitVec.getLsbD_one]
      rcases Nat.lt_or_ge m 32 with hlt | hge
      · have hdifferent : ¬ m < n → m - n ≠ 0 := by omega
        by_cases hbefore : m < n
        · simp [hlt, hbefore]
        · simp [hlt, hbefore, hdifferent hbefore]
      · rw [BitVec.getLsbD_of_ge _ _ hge]
        simp [Nat.not_lt.mpr hge]
    rw [if_pos rfl, hbit]
    exact (or_iff_right h).symm

theorem word_setEndpointType (data : RawContext) (t : BitVec 3) :
    data.setEndpointType t 1 = setField (data 1) 3 t := by
  have hmask : ~~~((BitVec.allOnes 3).setWidth 32 <<< 3) = ~~~0b111000#32 := by decide
  unfold RawContext.setEndpointType setField
  rw [update_self, hmask]

theorem getEndpointType_eq (data : RawContext) :
    data.getEndpointType = getField (data 1) 3 3 := by
  unfold RawContext.getEndpointType
  refine BitVec.eq_of_getLsbD_eq fun i hi => ?_
  interval_cases i <;> simp [getField]

theorem getMaxPacketSize_eq (data : RawContext) :
    data.getMaxPacketSize = getField (data 1) 16 16 := by
  unfold RawContext.getMaxPacketSize
  refine BitVec.eq_of_getLsbD_eq fun i hi => ?_
  simp [getField, hi]

theorem word_setMaxPacketSize (data : RawContext) (s : BitVec 16) :
    data.setMaxPacketSize s 1 = setField (data 1) 16 s := by
  have hmask : ~~~((BitVec.allOnes 16).setWidth 32 <<< 16) = 0xFFFF#32 := by decide
  unfold RawContext.setMaxPacketSize setField
  rw [update_self, hmask]

theorem word_setErrorCount (data : RawContext) (c : Byte) :
    data.setErrorCount c 1 = setField (data 1) 1 (c.setWidth 2) := by
  have hmask : ~~~((BitVec.allOnes 2).setWidth 32 <<< 1) = ~~~0b110#32 := by decide
  have hvalue : (c &&& 0b11#8).setWidth 32 = (c.setWidth 2).setWidth 32 := by
    refine BitVec.eq_of_toNat_eq ?_
    rw [BitVec.toNat_setWidth, BitVec.toNat_setWidth, BitVec.toNat_setWidth, BitVec.toNat_and]
    exact congrArg (· % 2 ^ 32) (Nat.and_two_pow_sub_one_eq_mod c.toNat 2)
  unfold RawContext.setErrorCount setField
  rw [update_self, hmask, hvalue]

theorem setEndpointFields_one (ep : Endpoint) (ring : BitVec 64) (context : RawContext) :
    setEndpointFields ep ring context 1 =
      setField (setField (context 1) 1 ((if ep.ttype = .Isochronous then 0 else 3 : Byte).setWidth 2))
        3 (epTypeFrom ep.ttype ep.direction) := by
  unfold setEndpointFields
  rw [RawContext.setAvgTrbLength, update_of_ne (by decide), RawContext.setDequeuePtr,
    update_of_ne (by decide), update_of_ne (by decide), word_setEndpointType,
    word_setErrorCount]

theorem getEndpointType_setEndpointFields (ep : Endpoint) (ring : BitVec 64)
    (context : RawContext) :
    (setEndpointFields ep ring context).getEndpointType = epTypeFrom ep.ttype ep.direction := by
  rw [getEndpointType_eq, setEndpointFields_one, getField_setField_same _ 3 _ (by decide)]

theorem getMaxPacketSize_setEndpointFields (ep : Endpoint) (ring : BitVec 64)
    (context : RawContext) :
    (setEndpointFields ep ring context).getMaxPacketSize = context.getMaxPacketSize := by
  rw [getMaxPacketSize_eq, setEndpointFields_one,
    getField_setField_disjoint _ 3 _ (by decide) (Or.inr (by decide)),
    getField_setField_disjoint _ 1 _ (by decide) (Or.inr (by decide)), getMaxPacketSize_eq]

theorem setEndpointFields_dequeuePtr (ep : Endpoint) (ring : BitVec 64) (context : RawContext) :
    setEndpointFields ep ring context 2 = (ring.setWidth 32 ||| 1) ∧
      setEndpointFields ep ring context 3 = (ring >>> 32).setWidth 32 := by
  unfold setEndpointFields
  constructor
  · rw [RawContext.setAvgTrbLength, update_of_ne (by decide), RawContext.setDequeuePtr,
      update_self, if_pos rfl]
  · rw [RawContext.setAvgTrbLength, update_of_ne (by decide), RawContext.setDequeuePtr,
      update_of_ne (by decide), update_self]

end Fields

/-! ## Places -/

section Places

variable {nContexts : ℕ} {contexts : ContextArray nContexts} {idx other : ℕ}

theorem ContextArray.place_lt_iff : contexts.place idx < contexts.place other ↔ idx < other := by
  unfold place
  split_ifs <;> omega

theorem ContextArray.place_inj : contexts.place idx = contexts.place other ↔ idx = other := by
  unfold place
  split_ifs <;> omega

theorem ContextArray.getAs_eq (h : idx < nContexts) :
    contexts.getAs idx = .ok (contexts.array (contexts.place idx)) := by
  unfold getAs
  rw [verify_of (place_lt_iff.mpr h)]
  rfl

/-- The contexts with one of them changed. -/
def ContextArray.withContext (contexts : ContextArray nContexts) (idx : ℕ) (context : RawContext) :
    ContextArray nContexts :=
  { contexts with array := update contexts.array (contexts.place idx) context }

theorem ContextArray.modifyAs_eq (h : idx < nContexts) (f : RawContext → RawContext) :
    contexts.modifyAs idx f =
      .ok (contexts.withContext idx (f (contexts.array (contexts.place idx)))) := by
  unfold modifyAs
  rw [getAs_eq h]
  rfl

/-- A context, by its index. -/
def ContextArray.at (contexts : ContextArray nContexts) (idx : ℕ) : RawContext :=
  contexts.array (contexts.place idx)

theorem ContextArray.at_withContext (context : RawContext) :
    (contexts.withContext idx context).at other = if other = idx then context else contexts.at other := by
  show update contexts.array (contexts.place idx) context (contexts.place other) = _
  by_cases h : other = idx
  · rw [if_pos h, h, update_self]
  · rw [if_neg h, update_of_ne fun heq => h (place_inj.mp heq)]
    rfl

end Places

/-! ## One endpoint -/

section Endpoints

variable {ep : Endpoint} {endpoints : List Endpoint} {inputCtx out : ContextArray inputContextSize}
  {device after : XhciDevice} {ring : BitVec 64} {rings : ℕ → BitVec 64}

theorem Endpoint.Numbered.index_bounds (h : ep.Numbered) : 2 ≤ ep.index ∧ ep.index ≤ 31 := by
  obtain ⟨hlow, hhigh⟩ := h
  unfold Endpoint.index
  split_ifs <;> omega

theorem Endpoint.Numbered.endpointIndex_eq (h : ep.Numbered) :
    endpointIndex ep.number ep.ttype ep.direction = .ok (ep.index - 1) := by
  obtain ⟨hlow, -⟩ := h
  have hindex : (if ep.ttype = .Control then 2 * ep.number.toNat
      else 2 * ep.number.toNat - if ep.direction = .Out then 1 else 0) = ep.index - 1 := by
    unfold Endpoint.index
    cases hdirection : ep.direction <;> by_cases hcontrol : ep.ttype = .Control <;>
      simp [hcontrol]
  unfold endpointIndex
  rw [verify_of (Or.inl (Nat.pos_of_ne_zero (Nat.ne_of_gt hlow))), hindex]
  rfl

theorem setIntervalFor_cases (speed : DeviceSpeed) (ep : Endpoint) (context : RawContext) :
    (ep.IntervalChecked speed → ∃ context', setIntervalFor speed ep context = .ok context' ∧
      ∀ i ≠ 0, context' i = context i) ∧
    (¬ ep.IntervalChecked speed → setIntervalFor speed ep context = .error .panic) := by
  have hset : ∀ interval, ∀ i ≠ 0, context.setInterval interval i = context i :=
    fun interval i hi => update_of_ne hi _ _
  unfold setIntervalFor Endpoint.IntervalChecked intervalLimit
  dsimp only
  split_ifs
  · refine ⟨fun h => ⟨_, bind_eq_ok.mpr ⟨(), verify_of (h 255 rfl), rfl⟩, hset _⟩, fun h => ?_⟩
    rw [verify_of_not fun hchecked => h fun limit hlimit => Option.some.inj hlimit ▸ hchecked]
    rfl
  · refine ⟨fun h => ⟨_, bind_eq_ok.mpr ⟨(), verify_of (h 16 rfl), rfl⟩, hset _⟩, fun h => ?_⟩
    rw [verify_of_not fun hchecked => h fun limit hlimit => Option.some.inj hlimit ▸ hchecked]
    rfl
  · refine ⟨fun h => ⟨_, bind_eq_ok.mpr ⟨(), verify_of (h 16 rfl), rfl⟩, hset _⟩, fun h => ?_⟩
    rw [verify_of_not fun hchecked => h fun limit hlimit => Option.some.inj hlimit ▸ hchecked]
    rfl
  · exact ⟨fun _ => ⟨context, rfl, fun _ _ => rfl⟩, fun h => absurd (fun limit h => by cases h) h⟩

/-- The part that an endpoint has in the input context. -/
structure StepsTo (inputCtx : ContextArray inputContextSize) (device : XhciDevice) (ep : Endpoint)
    (ring : BitVec 64) (out : ContextArray inputContextSize) (after : XhciDevice) : Prop where
  speed : after.speed = device.speed
  flags : ∀ n, (out.at controlIci).getAddFlag n = true ↔
    n = ep.index ∨ (inputCtx.at controlIci).getAddFlag n = true
  others : ∀ idx, idx ≠ controlIci → idx ≠ ep.index + 1 → out.at idx = inputCtx.at idx
  otherRings : ∀ idx, idx ≠ ep.index - 1 → after.transferRings idx = device.transferRings idx
  stored : StoredAt out after ep ring

/-- **One endpoint** is stored for its index, if its interval is one that there is. -/
theorem setupEndpointData_cases (h : ep.Numbered) (ring : BitVec 64)
    (inputCtx : ContextArray inputContextSize) (device : XhciDevice) :
    (ep.IntervalChecked device.speed → ∃ out after,
      setupEndpointData ring ep inputCtx device = .ok (out, after) ∧
        StepsTo inputCtx device ep ring out after) ∧
    (¬ ep.IntervalChecked device.speed →
      setupEndpointData ring ep inputCtx device = .error .panic) := by
  obtain ⟨hlow, hhigh⟩ := h.index_bounds
  have hdci : epDci (ep.index - 1) = ep.index := Nat.sub_add_cancel (Nat.le_of_succ_le hlow)
  have hici : epIci (ep.index - 1) = ep.index + 1 := by
    unfold epIci
    omega
  have hcontrol : controlIci < inputContextSize := by decide
  have hplace : ep.index + 1 < inputContextSize := by
    unfold inputContextSize
    omega
  have hrings : ¬ transferRingCount ≤ ep.index - 1 := by
    unfold transferRingCount
    omega
  obtain ⟨hok, herror⟩ := setIntervalFor_cases device.speed ep
    (((inputCtx.withContext controlIci ((inputCtx.at controlIci).setAddFlag ep.index true)).at
      (ep.index + 1)).setMaxPacketSize ep.maxPacketSize)
  have hsetup : setupEndpointData ring ep inputCtx device =
      (setIntervalFor device.speed ep (((inputCtx.withContext controlIci
        ((inputCtx.at controlIci).setAddFlag ep.index true)).at
          (ep.index + 1)).setMaxPacketSize ep.maxPacketSize)).map fun epCtx =>
        ((inputCtx.withContext controlIci ((inputCtx.at controlIci).setAddFlag ep.index
          true)).withContext (ep.index + 1) (setEndpointFields ep ring epCtx),
          { device with
            transferRings := update device.transferRings (ep.index - 1) (some ring) }) := by
    unfold setupEndpointData
    rw [h.endpointIndex_eq, ok_bind, ContextArray.modifyAs_eq hcontrol, ok_bind, if_neg hrings,
      hdci, hici, ContextArray.getAs_eq hplace, ok_bind]
    show (setIntervalFor device.speed ep (((inputCtx.withContext controlIci
      ((inputCtx.at controlIci).setAddFlag ep.index true)).at
        (ep.index + 1)).setMaxPacketSize ep.maxPacketSize) >>= _) = _
    generalize setIntervalFor device.speed ep _ = interval
    cases interval with
    | error fault => rfl
    | ok epCtx =>
        rw [ok_bind, ContextArray.modifyAs_eq hplace]
        rfl
  rw [hsetup]
  constructor
  · intro hchecked
    obtain ⟨epCtx, hinterval, hkept⟩ := hok hchecked
    rw [hinterval]
    refine ⟨_, _, rfl, rfl, fun n => ?_, fun idx hne hne' => ?_, fun idx hne => ?_, ?_⟩
    · rw [ContextArray.at_withContext, if_neg (by unfold controlIci; omega),
        ContextArray.at_withContext, if_pos rfl]
      exact getAddFlag_setAddFlag _ (by omega)
    · rw [ContextArray.at_withContext, if_neg hne', ContextArray.at_withContext, if_neg hne]
    · exact update_of_ne hne _ _
    · have hat : ((inputCtx.withContext controlIci ((inputCtx.at controlIci).setAddFlag ep.index
          true)).withContext (ep.index + 1) (setEndpointFields ep ring epCtx)).at (ep.index + 1) =
            setEndpointFields ep ring epCtx := by
        rw [ContextArray.at_withContext, if_pos rfl]
      have hpacket : epCtx.getMaxPacketSize = ep.maxPacketSize := by
        rw [getMaxPacketSize_eq, hkept 1 (by decide), word_setMaxPacketSize,
          getField_setField_same _ 16 _ (by decide)]
      refine ⟨?_, ?_, ?_, update_self _ _ _⟩
      · exact (congrArg RawContext.getEndpointType hat).trans
          (getEndpointType_setEndpointFields ep ring epCtx)
      · exact (congrArg RawContext.getMaxPacketSize hat).trans
          ((getMaxPacketSize_setEndpointFields ep ring epCtx).trans hpacket)
      · have hwords := setEndpointFields_dequeuePtr ep ring epCtx
        rwa [← hat] at hwords
  · intro hnot
    rw [herror hnot]
    rfl

/-! ## All endpoints -/

theorem StoredAt.kept {out' : ContextArray inputContextSize} {after' : XhciDevice}
    (stored : StoredAt out after ep ring) (hcontext : out'.at (ep.index + 1) = out.at (ep.index + 1))
    (hring : after'.transferRings (ep.index - 1) = after.transferRings (ep.index - 1)) :
    StoredAt out' after' ep ring where
  endpointType := (congrArg RawContext.getEndpointType hcontext).trans stored.endpointType
  maxPacketSize := (congrArg RawContext.getMaxPacketSize hcontext).trans stored.maxPacketSize
  dequeuePtr := ⟨(congrFun hcontext 2).trans stored.dequeuePtr.1,
    (congrFun hcontext 3).trans stored.dequeuePtr.2⟩
  ring := hring.trans stored.ring

/-- What the loop leaves, from a ring on. -/
structure LoopStores (inputCtx : ContextArray inputContextSize) (device : XhciDevice)
    (rings : ℕ → BitVec 64) (made : ℕ) (endpoints : List Endpoint)
    (out : ContextArray inputContextSize) (after : XhciDevice) : Prop where
  flags : ∀ n, (out.at controlIci).getAddFlag n = true ↔
    (∃ ep ∈ endpoints, ep.index = n) ∨ (inputCtx.at controlIci).getAddFlag n = true
  others : ∀ idx, idx ≠ controlIci → (∀ ep ∈ endpoints, idx ≠ ep.index + 1) →
    out.at idx = inputCtx.at idx
  otherRings : ∀ idx, (∀ ep ∈ endpoints, idx ≠ ep.index - 1) →
    after.transferRings idx = device.transferRings idx
  stored : ∀ i (hi : i < endpoints.length),
    (∀ j (hj : j < endpoints.length), i < j → endpoints[j].index ≠ endpoints[i].index) →
      StoredAt out after endpoints[i] (rings (made + i))

/-- **The endpoints** are stored one after the other, if their intervals are some that there are. -/
theorem setupEndpoints_cases (hnumbered : ∀ ep ∈ endpoints, ep.Numbered) (rings : ℕ → BitVec 64)
    (made : ℕ) (inputCtx : ContextArray inputContextSize) (device : XhciDevice) :
    ((∀ ep ∈ endpoints, ep.IntervalChecked device.speed) → ∃ out after,
      setupEndpoints rings made endpoints inputCtx device = .ok (out, after) ∧
        LoopStores inputCtx device rings made endpoints out after) ∧
    ((∃ ep ∈ endpoints, ¬ ep.IntervalChecked device.speed) →
      setupEndpoints rings made endpoints inputCtx device = .error .panic) := by
  induction endpoints generalizing made inputCtx device with
  | nil =>
      refine ⟨fun _ => ⟨inputCtx, device, rfl, fun n => ?_, fun _ _ _ => rfl, fun _ _ => rfl,
        fun i hi => absurd hi (Nat.not_lt_zero i)⟩, fun ⟨_, h, _⟩ => by cases h⟩
      exact (or_iff_right fun ⟨_, h, _⟩ => by cases h).symm
  | cons ep rest ih =>
      obtain ⟨hep, hrest⟩ := List.forall_mem_cons.mp hnumbered
      obtain ⟨hok, herror⟩ := setupEndpointData_cases hep (rings made) inputCtx device
      by_cases hchecked : ep.IntervalChecked device.speed
      · obtain ⟨middle, between, hsetup, steps⟩ := hok hchecked
        have hloop : setupEndpoints rings made (ep :: rest) inputCtx device =
            setupEndpoints rings (made + 1) rest middle between := by
          rw [setupEndpoints, hsetup]
          rfl
        obtain ⟨hrestOk, hrestError⟩ := ih hrest (made + 1) middle between
        rw [steps.speed] at hrestOk hrestError
        rw [hloop]
        refine ⟨fun hall => ?_, fun ⟨other, hother, hnot⟩ => hrestError ?_⟩
        · obtain ⟨out, after, hout, loop⟩ := hrestOk (List.forall_mem_cons.mp hall).2
          refine ⟨out, after, hout, fun n => ?_, fun idx hne hothers => ?_, fun idx hothers => ?_,
            fun i hi hlast => ?_⟩
          · rw [loop.flags, steps.flags, List.exists_mem_cons_iff, eq_comm (a := n)]
            exact or_left_comm.trans or_assoc.symm
          · obtain ⟨hhere, hthere⟩ := List.forall_mem_cons.mp hothers
            rw [loop.others idx hne hthere, steps.others idx hne hhere]
          · obtain ⟨hhere, hthere⟩ := List.forall_mem_cons.mp hothers
            rw [loop.otherRings idx hthere, steps.otherRings idx hhere]
          · cases i with
            | zero =>
                -- None of the others has the same index, so that it is left as it is.
                have hbounds := hep.index_bounds
                have hnone : ∀ other ∈ rest, ep.index ≠ other.index := by
                  intro other hother heq
                  obtain ⟨j, hj, rfl⟩ := List.mem_iff_getElem.mp hother
                  exact hlast (j + 1) (Nat.succ_lt_succ hj) (Nat.succ_pos j) heq.symm
                refine steps.stored.kept (loop.others _ ?_ fun other hother heq => ?_)
                  (loop.otherRings _ fun other hother heq => ?_)
                · unfold controlIci
                  omega
                · exact hnone other hother (Nat.succ.inj heq)
                · have hother' := (hrest other hother).index_bounds
                  exact hnone other hother (by omega)
            | succ i =>
                have hstored := loop.stored i (Nat.lt_of_succ_lt_succ hi) fun j hj hlt =>
                  hlast (j + 1) (Nat.succ_lt_succ hj) (Nat.succ_lt_succ hlt)
                rwa [Nat.add_assoc, Nat.add_comm 1 i] at hstored
        · rcases List.mem_cons.mp hother with rfl | hother'
          · exact absurd hchecked hnot
          · exact ⟨other, hother', hnot⟩
      · refine ⟨fun hall => absurd (hall ep List.mem_cons_self) hchecked, fun _ => ?_⟩
        rw [setupEndpoints, herror hchecked]
        rfl

theorem largestIndex_cons (ep : Endpoint) (endpoints : List Endpoint) :
    largestIndex (ep :: endpoints) = max ep.index (largestIndex endpoints) := rfl

theorem largestIndex_le (hnumbered : ∀ ep ∈ endpoints, ep.Numbered) :
    largestIndex endpoints ≤ 31 := by
  induction endpoints with
  | nil => exact Nat.zero_le _
  | cons ep rest ih =>
      obtain ⟨hep, hrest⟩ := List.forall_mem_cons.mp hnumbered
      rw [largestIndex_cons]
      exact max_le hep.index_bounds.2 (ih hrest)

theorem maxCtxEntries_eq (hnumbered : ∀ ep ∈ endpoints, ep.Numbered) (entries : ℕ) :
    maxCtxEntries endpoints entries =
      .ok (if endpoints = [] then entries else max entries (largestIndex endpoints + 1)) := by
  induction endpoints generalizing entries with
  | nil => rfl
  | cons ep rest ih =>
      obtain ⟨hep, hrest⟩ := List.forall_mem_cons.mp hnumbered
      obtain ⟨hlow, hhigh⟩ := hep.index_bounds
      have hici : epIci (ep.index - 1) % 2 ^ 8 = ep.index + 1 := by
        unfold epIci
        omega
      rw [maxCtxEntries, hep.endpointIndex_eq, ok_bind, hici, ih hrest,
        if_neg (List.cons_ne_nil ep rest), largestIndex_cons]
      split_ifs with hnil
      · rw [hnil]
        show Except.ok (max entries (ep.index + 1)) = Except.ok (max entries (max ep.index 0 + 1))
        rw [Nat.max_eq_left (Nat.zero_le _)]
      · congr 1
        omega

/-- **The input context** that is submitted: all of it is right but the count of its contexts, which
is one too large, in five bits. -/
theorem enableConfiguration_cases (hnumbered : ∀ ep ∈ endpoints, ep.Numbered)
    (rings : ℕ → BitVec 64) (device : XhciDevice) :
    ((∀ ep ∈ endpoints, ep.IntervalChecked device.speed) → ∃ out after,
      enableConfiguration rings endpoints device = .ok (out, after) ∧
        EndpointsStored rings endpoints out after ∧
        (out.at slotIci).getContextEntries.toNat =
          if endpoints = [] then 0 else (largestIndex endpoints + 1) % 32) ∧
    ((∃ ep ∈ endpoints, ¬ ep.IntervalChecked device.speed) →
      enableConfiguration rings endpoints device = .error .panic) := by
  have hmax := maxCtxEntries_eq hnumbered 0
  have hlargest := largestIndex_le hnumbered
  have hstart : enableConfiguration rings endpoints device =
      setupEndpoints rings 0 endpoints
        (((ContextArray.new inputContextSize device.ctxArray.large).withContext controlIci
          (RawContext.setAddFlag (fun _ => 0) 0 true)).withContext slotIci
            ((device.ctxArray.at 0).setContextEntries (BitVec.ofNat 8
              (if endpoints = [] then 0 else max 0 (largestIndex endpoints + 1))))) device := by
    unfold enableConfiguration
    rw [hmax, ok_bind, ContextArray.modifyAs_eq (by decide), ok_bind,
      ContextArray.getAs_eq (by decide), ok_bind, ContextArray.modifyAs_eq (by decide)]
    rfl
  obtain ⟨hok, herror⟩ := setupEndpoints_cases hnumbered rings 0
    (((ContextArray.new inputContextSize device.ctxArray.large).withContext controlIci
      (RawContext.setAddFlag (fun _ => 0) 0 true)).withContext slotIci
        ((device.ctxArray.at 0).setContextEntries (BitVec.ofNat 8
          (if endpoints = [] then 0 else max 0 (largestIndex endpoints + 1))))) device
  rw [hstart]
  refine ⟨fun hall => ?_, herror⟩
  obtain ⟨out, after, hout, loop⟩ := hok hall
  refine ⟨out, after, hout, ⟨fun n hn => ?_, fun i hi hlast => ?_⟩, ?_⟩
  · refine (loop.flags n).trans ?_
    rw [ContextArray.at_withContext, if_neg (by decide), ContextArray.at_withContext, if_pos rfl,
      getAddFlag_setAddFlag _ (by decide)]
    have hclear : RawContext.getAddFlag (fun _ => 0) n = false := BitVec.getLsbD_zero
    rw [hclear]
    simp [or_comm]
  · have hstored := loop.stored i hi hlast
    rwa [Nat.zero_add] at hstored
  · rw [loop.others slotIci (by decide) fun ep hep heq => ?_, ContextArray.at_withContext,
      if_pos rfl, getContextEntries_setContextEntries, BitVec.toNat_ofNat]
    · split_ifs with hnil
      · rfl
      · rw [Nat.zero_max]
        exact congrArg (· % 32) (Nat.mod_eq_of_lt (by omega))
    · have hbounds := (hnumbered ep hep).index_bounds
      unfold slotIci at heq
      omega

/-- **The input context** that is submitted is right if there are no endpoints: with any, the count
is not the largest index in use. -/
theorem inputRight_iff (hnumbered : ∀ ep ∈ endpoints, ep.Numbered) (rings : ℕ → BitVec 64)
    (device : XhciDevice) :
    (∀ out after, enableConfiguration rings endpoints device = .ok (out, after) →
      InputRight rings endpoints out after) ↔
    endpoints = [] ∨ ∃ ep ∈ endpoints, ¬ ep.IntervalChecked device.speed := by
  obtain ⟨hok, herror⟩ := enableConfiguration_cases hnumbered rings device
  have hlargest := largestIndex_le hnumbered
  constructor
  · intro hright
    by_contra hnot
    obtain ⟨hne, hall⟩ := not_or.mp hnot
    obtain ⟨out, after, hout, -, hentries⟩ := hok fun ep hep =>
      by_contra fun h => hall ⟨ep, hep, h⟩
    have hentries' := (hright out after hout).entries
    rw [if_neg hne] at hentries
    have heq : (largestIndex endpoints + 1) % 32 = largestIndex endpoints :=
      hentries.symm.trans hentries'
    omega
  · rintro (rfl | hunchecked) out after hout
    · obtain ⟨out', after', hout', stored, hentries⟩ := hok fun ep h => by cases h
      cases hout.symm.trans hout'
      exact ⟨stored, hentries⟩
    · rw [herror hunchecked] at hout
      cases hout

end Endpoints

/-- A device before its configuration. -/
def addressedDevice (speed : DeviceSpeed) : XhciDevice where
  ctxArray := .new deviceContextSize false
  transferRings := fun _ => none
  speed := speed

/-- The endpoint of a mouse. -/
def mouseEndpoint : Endpoint := ⟨1, .In, .Interrupt, 4, 10, false⟩

/-- A configuration without endpoints. -/
theorem inputRight_none : ∃ out after,
    enableConfiguration (fun _ => 0x1000) [] (addressedDevice .Low) = .ok (out, after) ∧
      InputRight (fun _ => 0x1000) [] out after :=
  ⟨_, _, rfl, (inputRight_iff (fun _ h => absurd h List.not_mem_nil) (fun _ => 0x1000)
    (addressedDevice .Low)).mpr (Or.inl rfl) _ _ rfl⟩

/-- With the endpoint of a mouse, whose index is 3, the count is 4. -/
theorem inputRight_fails : mouseEndpoint.index = 3 ∧ ∃ out after,
    enableConfiguration (fun _ => 0x1000) [mouseEndpoint] (addressedDevice .Low) =
        .ok (out, after) ∧
      (out.at slotIci).getContextEntries = 4 ∧
      ¬ InputRight (fun _ => 0x1000) [mouseEndpoint] out after := by
  have hnumbered : ∀ ep ∈ [mouseEndpoint], ep.Numbered := by
    intro ep hep
    cases List.mem_singleton.mp hep
    exact ⟨by decide, by decide⟩
  obtain ⟨out, after, hout, -, hentries⟩ :=
    (enableConfiguration_cases hnumbered (fun _ => 0x1000) (addressedDevice .Low)).1 (by
      intro ep hep
      cases List.mem_singleton.mp hep
      rintro limit ⟨⟩
      decide)
  refine ⟨by decide, out, after, hout, BitVec.eq_of_toNat_eq hentries, fun right => ?_⟩
  exact absurd (hentries.symm.trans right.entries) (by decide)

end BekOS.Usb
