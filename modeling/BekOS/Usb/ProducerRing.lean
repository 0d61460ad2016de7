import BekOS.Usb.EventRing

/-!
# `ProducerRing`

The ring in which the driver gives commands and transfers to the controller.  Its last entry is a
link to the first.  The driver knows where the controller has got to from the completion events
alone, and nothing in `push_command` looks at them.

Entries are numbered in the order in which they are written, links included.  As long as no more
than the ring holds are outstanding, the controller gets every block once and in order, and every
callback is called once, with the event of its block.
-/

namespace BekOS.Usb

open CycleRing PartialRun Function

universe u

variable {κ : Type u}

/-- `ProducerRing` -/
structure ProducerRing (κ : Type u) where
  /-- `m_ring_array.dma_ptr()` -/
  base : BitVec 64
  ringArray : ℕ → TRB
  enqueueIndex : ℕ
  currentPcs : Bool
  completions : ℕ → Option κ

/-- The link back to the first entry. -/
def linkTrb (base : BitVec 64) (pcs : Bool) : TRB where
  data0 := base.setWidth 32
  data1 := (base >>> 32).setWidth 32
  data2 := 0
  data3 := TRBType.Link.code.setWidth 32 <<< 10 ||| 1#32 <<< 1 ||| if pcs then 1#32 else 0#32

/-- `SetupPacket` -/
structure SetupPacket where
  requestType : BitVec 8
  request : BitVec 8
  value : BitVec 16
  index : BitVec 16
  dataLength : BitVec 16
deriving DecidableEq, Repr

/-- `get_direction() == Direction::In` -/
def SetupPacket.isIn (packet : SetupPacket) : Bool := packet.requestType &&& 1#8 <<< 7 != 0

/-- `dma_buffer`, as far as a transfer goes. -/
structure DmaBuffer where
  dmaPtr : BitVec 64
  size : ℕ
deriving DecidableEq, Repr

/-- `b ? 1u << bit : 0` -/
def flag (b : Bool) (bit : ℕ) : BitVec 32 := if b then 1#32 <<< bit else 0

/-- `make_setup` -/
def makeSetup (packet : SetupPacket) (dataStage dataIn : Bool) : TRB :=
  .create .Setup
    (packet.requestType.setWidth 32 ||| packet.request.setWidth 32 <<< 8 |||
      packet.value.setWidth 32 <<< 16)
    (packet.index.setWidth 32 ||| packet.dataLength.setWidth 32 <<< 16) 8
    (1#32 <<< 6 ||| (if dataStage then if dataIn then 3#32 else 2#32 else 0#32) <<< 16)

/-- `make_data_stage` -/
def makeDataStage (dataDmaPtr : BitVec 64) (transferLength : ℕ) (chain dataIn : Bool) :
    Option TRB :=
  if transferLength ≤ 64 * 1024 then
    some (.create64 .Data dataDmaPtr (BitVec.ofNat 32 transferLength &&& 0x1FFFF)
      (flag chain 4 ||| flag dataIn 16))
  else none

/-- `make_status` -/
def makeStatus (statusIn ioc : Bool) : TRB :=
  .create .Status 0 0 0 (flag statusIn 16 ||| flag ioc 5)

namespace ProducerRing

/-- The constructor. -/
def new (base : BitVec 64) : ProducerRing κ where
  base := base
  ringArray := fun _ => .zero
  enqueueIndex := 0
  currentPcs := true
  completions := fun _ => none

/-- `push_command` -/
def pushCommand (ring : ProducerRing κ) (rawTrb : TRB) (callback : Option κ) :
    Option (ProducerRing κ) :=
  let completions := update ring.completions ring.enqueueIndex callback
  if (ring.ringArray ring.enqueueIndex).cycle ≠ ring.currentPcs then
    let ringArray :=
      update ring.ringArray ring.enqueueIndex (rawTrb.setCycle ring.currentPcs)
    if ring.enqueueIndex + 1 = ringSize - 1 then
      some { ring with
        completions
        ringArray := update ringArray (ringSize - 1) (linkTrb ring.base ring.currentPcs)
        enqueueIndex := 0
        currentPcs := !ring.currentPcs }
    else some { ring with completions, ringArray, enqueueIndex := ring.enqueueIndex + 1 }
  else none

/-- `process_completion`: the callback that is called, if there is one. -/
def processCompletion (ring : ProducerRing κ) (trb : EventTRB) :
    Option (Option κ × ProducerRing κ) :=
  if trb.kind = .CommandCompletion ∨ trb.kind = .TransferEvent then
    let index := ((trb.trbPtr - ring.base) / 16).toNat
    if index < ringSize then
      some (ring.completions index,
        { ring with completions := update ring.completions index none })
    else none
  else none

/-- `push_control_transfer` -/
def pushControlTransfer (ring : ProducerRing κ) (packet : SetupPacket) (dataRef : DmaBuffer)
    (callback : Option κ) : Option (ProducerRing κ) :=
  let dataStage := decide (dataRef.size ≠ 0)
  let dataIn := packet.isIn
  let statusIn := decide (dataRef.size = 0) || !packet.isIn
  if dataRef.size ≤ 64 * 1024 ∧ dataRef.size = packet.dataLength.toNat then
    (ring.pushCommand (makeSetup packet dataStage dataIn) none).bind fun ring =>
      (if dataStage then
        (makeDataStage dataRef.dmaPtr dataRef.size false dataIn).bind fun trb =>
          ring.pushCommand trb none
      else some ring).bind fun ring =>
        ring.pushCommand (makeStatus statusIn callback.isSome) callback
  else none

end ProducerRing

/-- The blocks of a control transfer. -/
def controlBlocks (packet : SetupPacket) (dataRef : DmaBuffer) (callback : Option κ) :
    List (TRB × Option κ) :=
  let dataStage := decide (dataRef.size ≠ 0)
  let data : TRB := .create64 .Data dataRef.dmaPtr
    (BitVec.ofNat 32 dataRef.size &&& 0x1FFFF) (flag false 4 ||| flag packet.isIn 16)
  (makeSetup packet dataStage packet.isIn, none) ::
    (if dataStage then [(data, none)] else []) ++
      [(makeStatus (decide (dataRef.size = 0) || !packet.isIn) callback.isSome, callback)]

namespace ProducerRing

/-- One `push_command` after another. -/
def pushAll (ring : ProducerRing κ) (blocks : List (TRB × Option κ)) : Option (ProducerRing κ) :=
  blocks.foldlM (fun ring block => ring.pushCommand block.1 block.2) ring

@[simp] theorem pushAll_nil (ring : ProducerRing κ) : ring.pushAll [] = some ring := rfl

theorem pushAll_cons (ring : ProducerRing κ) (block : TRB × Option κ)
    (rest : List (TRB × Option κ)) : ring.pushAll (block :: rest) =
      (ring.pushCommand block.1 block.2).bind fun ring => ring.pushAll rest := rfl

@[simp] theorem pushAll_singleton (ring : ProducerRing κ) (trb : TRB) (callback : Option κ) :
    ring.pushAll [(trb, callback)] = ring.pushCommand trb callback := by
  rw [pushAll_cons]
  exact Option.bind_fun_some _

/-- **A control transfer** pushes its two or three blocks one after another. -/
theorem pushControlTransfer_eq (ring : ProducerRing κ) {packet : SetupPacket}
    {dataRef : DmaBuffer} (callback : Option κ)
    (hsize : dataRef.size = packet.dataLength.toNat) :
    ring.pushControlTransfer packet dataRef callback =
      ring.pushAll (controlBlocks packet dataRef callback) := by
  have hle : dataRef.size ≤ 64 * 1024 := by
    have hlt := packet.dataLength.isLt
    omega
  unfold pushControlTransfer controlBlocks makeDataStage
  rw [if_pos ⟨hle, hsize⟩, if_pos hle]
  by_cases hdata : dataRef.size = 0
  · simp [hdata, pushAll_cons]
  · simp [hdata, pushAll_cons]

end ProducerRing

/-! ## The controller -/

/-- The commands. -/
def TRBType.isCommand : TRBType → Bool
  | .EnableSlot | .DisableSlot | .AddressDevice | .ConfigEndpoint | .EvaluateContext
  | .ResetEndpoint | .StopEndpoint | .SetTRDequeuePtr | .ResetDevice | .NegBandwidth
  | .GetPortBandwidth | .ForceHeader | .NoOpCommand => true
  | _ => false

/-- Whether the controller reports the completion of a block: it does so for every command, and
for a transfer if the interrupt-on-completion bit is set. -/
def TRB.completes (trb : TRB) : Bool := trb.trbType.isCommand || trb.data3 >>> 5 &&& 1 != 0

/-- A completion event, the address of whose block is yet to be filled in. -/
abbrev Completion := { event : EventTRB // event.kind = .CommandCompletion ∨
  event.kind = .TransferEvent }

/-- The ring between the driver and a controller. -/
structure ProducerSession (κ : Type u) where
  ring : ProducerRing κ
  /-- Where the controller reads the next entry, and with which cycle bit. -/
  dequeueIndex : ℕ
  cycleState : Bool
  /-- The completion events that are yet to be processed, with the number of the entry. -/
  events : List (ℕ × EventTRB)
  /-- How many entries the driver has written, and how many the controller has consumed. -/
  written : ℕ
  consumed : ℕ

/-- What happens to the ring. -/
inductive ProducerOp (κ : Type u)
  /-- The driver pushes a command, or a transfer of one block. -/
  | push (trb : TRB) (callback : Option κ)
  | pushControlTransfer (packet : SetupPacket) (dataRef : DmaBuffer) (callback : Option κ)
  /-- The controller goes on to the next entry, if there is one. -/
  | consume (completion : Completion)
  /-- The driver processes the next completion event, if there is one. -/
  | process

/-- What comes of it. -/
inductive ProducerReply (κ : Type u)
  | pushed (blocks : List (TRB × Option κ))
  | consumed (trb : TRB) (event : Option EventTRB)
  | fired (callback : κ) (event : EventTRB)
  | nothing

namespace ProducerReply

/-- The blocks that were pushed. -/
def blocks : ProducerReply κ → List (TRB × Option κ)
  | .pushed blocks => blocks
  | _ => []

/-- The block that was consumed. -/
def trb : ProducerReply κ → Option TRB
  | .consumed trb _ => some trb
  | _ => none

/-- The event that was posted. -/
def posted : ProducerReply κ → Option EventTRB
  | .consumed _ event => event
  | _ => none

/-- The callback that was called, and the event that it got. -/
def called : ProducerReply κ → Option (κ × EventTRB)
  | .fired callback event => some (callback, event)
  | _ => none

end ProducerReply

/-- The blocks that a call pushes. -/
def ProducerOp.blocks : ProducerOp κ → List (TRB × Option κ)
  | .push trb callback => [(trb, callback)]
  | .pushControlTransfer packet dataRef callback => controlBlocks packet dataRef callback
  | _ => []

namespace ProducerSession

/-- An empty ring, on both sides. -/
def start (base : BitVec 64) : ProducerSession κ where
  ring := .new base
  dequeueIndex := 0
  cycleState := true
  events := []
  written := 0
  consumed := 0

/-- How many entries are written when so many blocks are pushed from an index on. -/
def entryCount (enqueueIndex count : ℕ) : ℕ :=
  count + (enqueueIndex + count) / (ringSize - 1)

/-- One step of the driver or the controller. -/
def step (session : ProducerSession κ) :
    ProducerOp κ → Option (ProducerSession κ × ProducerReply κ)
  | .push trb callback =>
      (session.ring.pushCommand trb callback).map fun ring =>
        ({ session with
            ring
            written := session.written + entryCount session.ring.enqueueIndex 1 },
          .pushed [(trb, callback)])
  | .pushControlTransfer packet dataRef callback =>
      (session.ring.pushControlTransfer packet dataRef callback).map fun ring =>
        ({ session with
            ring
            written := session.written + entryCount session.ring.enqueueIndex
              (controlBlocks packet dataRef callback).length },
          .pushed (controlBlocks packet dataRef callback))
  | .consume completion =>
      let trb := session.ring.ringArray session.dequeueIndex
      if trb.cycle = session.cycleState then
        if trb.trbType = .Link then
          some ({ session with
              dequeueIndex := ((trb.parameter - session.ring.base) / 16).toNat
              cycleState := session.cycleState ^^ (trb.data3 >>> 1 &&& 1 != 0)
              consumed := session.consumed + 1 },
            .nothing)
        else
          let event := { completion.val with
            trbPtr := entryAddress session.ring.base session.dequeueIndex }
          some ({ session with
              dequeueIndex := session.dequeueIndex + 1
              events := if trb.completes then session.events ++ [(session.consumed, event)]
                else session.events
              consumed := session.consumed + 1 },
            .consumed trb (if trb.completes then some event else none))
      else some (session, .nothing)
  | .process =>
      match session.events with
      | [] => some (session, .nothing)
      | (_, event) :: rest =>
          (session.ring.processCompletion event).map fun moved =>
            ({ session with ring := moved.2, events := rest },
              match moved.1 with
              | some callback => .fired callback event
              | none => .nothing)

/-- The oldest entry that is outstanding: it was not consumed, or its callback was not called. -/
def oldest (session : ProducerSession κ) : ℕ :=
  match session.events with
  | [] => session.consumed
  | (number, _) :: _ => number

/-- The outstanding entries and those that a call pushes fit in the ring. -/
def Fits (session : ProducerSession κ) (op : ProducerOp κ) : Prop :=
  0 < op.blocks.length →
    session.written + entryCount session.ring.enqueueIndex op.blocks.length ≤
      session.oldest + ringSize
deriving Decidable

/-- The calls are those of a driver: no block is a link, the controller reports the completion of a
block exactly if there is a callback for it, and a transfer is of the length that it says. -/
def Proper (op : ProducerOp κ) : Prop :=
  match op with
  | .push trb callback => trb.trbType ≠ .Link ∧ trb.completes = callback.isSome
  | .pushControlTransfer packet dataRef _ => dataRef.size = packet.dataLength.toNat
  | _ => True

instance (op : ProducerOp κ) : Decidable (Proper op) := by
  cases op <;> unfold Proper <;> infer_instance

/-- Every block is consumed once and in order, every callback is called once and with the event of
its block, the link is there when the controller comes to it, and the controller finds an entry
exactly when there is one. -/
structure Kept (base : BitVec 64) (final : ProducerSession κ × List (ProducerReply κ)) : Prop where
  consumed : (final.2.filterMap ProducerReply.trb).map (·.setCycle false) =
    ((final.2.flatMap ProducerReply.blocks).take
      (final.2.filterMap ProducerReply.trb).length).map fun block => block.1.setCycle false
  called : final.2.filterMap ProducerReply.called =
    ((((final.2.flatMap ProducerReply.blocks).take
      (final.2.filterMap ProducerReply.trb).length).filterMap Prod.snd).zip
        (final.2.filterMap ProducerReply.posted)).take
      (final.2.filterMap ProducerReply.called).length
  posted : (((final.2.flatMap ProducerReply.blocks).take
      (final.2.filterMap ProducerReply.trb).length).filterMap Prod.snd).length =
    (final.2.filterMap ProducerReply.posted).length
  waiting : (final.2.filterMap ProducerReply.posted).length =
    (final.2.filterMap ProducerReply.called).length + final.1.events.length
  link : final.1.dequeueIndex = ringSize - 1 →
    final.1.ring.ringArray (ringSize - 1) = linkTrb base final.1.cycleState
  next : final.1.dequeueIndex ≠ ringSize - 1 →
    ((final.1.ring.ringArray final.1.dequeueIndex).cycle = final.1.cycleState ↔
      (final.2.filterMap ProducerReply.trb).length <
        (final.2.flatMap ProducerReply.blocks).length)

end ProducerSession

/-! ## The blocks -/

@[simp] theorem cycle_linkTrb (base : BitVec 64) (pcs : Bool) : (linkTrb base pcs).cycle = pcs := by
  simp only [TRB.cycle, linkTrb]
  cases pcs <;> decide

@[simp] theorem trbType_linkTrb (base : BitVec 64) (pcs : Bool) :
    (linkTrb base pcs).trbType = .Link := by
  simp only [TRB.trbType, linkTrb]
  cases pcs <;> decide

@[simp] theorem toggle_linkTrb (base : BitVec 64) (pcs : Bool) :
    ((linkTrb base pcs).data3 >>> 1 &&& 1 != 0) = true := by
  simp only [linkTrb]
  cases pcs <;> decide

@[simp] theorem parameter_linkTrb (base : BitVec 64) (pcs : Bool) :
    (linkTrb base pcs).parameter = base := by
  refine BitVec.eq_of_getLsbD_eq fun i hi => ?_
  rcases Nat.lt_or_ge i 32 with hlt | hge
  · simp [linkTrb, TRB.parameter, hlt, hi]
  · have hnot : ¬ i < 32 := by omega
    have hlow : i - 32 < 32 := by omega
    have hsum : 32 + (i - 32) = i := by omega
    simp [linkTrb, TRB.parameter, hnot, hlow, hsum, hi]

@[simp] theorem TRB.completes_setCycle (trb : TRB) (c : Bool) :
    (trb.setCycle c).completes = trb.completes := by
  rw [completes, completes, trbType_setCycle, data3_setCycle trb c (by decide)]

theorem index_entryAddress (base : BitVec 64) {index : ℕ} (h : index < ringSize) :
    ((entryAddress base index - base) / 16).toNat = index := by
  have hlt : 16 * index < 2 ^ 64 := by
    simp only [ringSize] at h
    omega
  rw [entryAddress, BitVec.add_comm, BitVec.add_sub_cancel, BitVec.toNat_udiv, BitVec.toNat_ofNat,
    Nat.mod_eq_of_lt hlt]
  show 16 * index / 16 = index
  omega

theorem makeSetup_proper (packet : SetupPacket) (dataStage dataIn : Bool) :
    (makeSetup packet dataStage dataIn).trbType ≠ .Link ∧
      (makeSetup packet dataStage dataIn).completes = false := by
  simp only [TRB.completes, TRB.trbType, makeSetup, TRB.create]
  cases dataStage <;> cases dataIn <;> decide

theorem makeStatus_proper (statusIn ioc : Bool) :
    (makeStatus statusIn ioc).trbType ≠ .Link ∧ (makeStatus statusIn ioc).completes = ioc := by
  cases statusIn <;> cases ioc <;> decide

theorem dataStage_proper (parameter : BitVec 64) (status : BitVec 32) (dataIn : Bool) :
    (TRB.create64 .Data parameter status (flag false 4 ||| flag dataIn 16)).trbType ≠ .Link ∧
      (TRB.create64 .Data parameter status (flag false 4 ||| flag dataIn 16)).completes =
        false := by
  simp only [TRB.completes, TRB.trbType, TRB.create64, TRB.create]
  cases dataIn <;> decide

/-- The blocks of a control transfer are no links, and the controller reports the last one exactly
if there is a callback. -/
theorem controlBlocks_proper (packet : SetupPacket) (dataRef : DmaBuffer) (callback : Option κ) :
    ∀ block ∈ controlBlocks packet dataRef callback,
      block.1.trbType ≠ .Link ∧ block.1.completes = block.2.isSome := by
  intro block hblock
  rw [controlBlocks, List.mem_append, List.mem_cons, List.mem_singleton] at hblock
  rcases hblock with (rfl | hdata) | rfl
  · exact makeSetup_proper _ _ _
  · split_ifs at hdata with hstage
    · rw [List.mem_singleton.mp hdata]
      exact dataStage_proper _ _ _
    · exact absurd hdata List.not_mem_nil
  · exact makeStatus_proper _ _

end BekOS.Usb
