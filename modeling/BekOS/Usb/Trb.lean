import Mathlib.Data.BitVec

/-!
# Transfer request blocks

The driver and an xHCI controller talk to each other in blocks of four words.  The last word has
the kind of the block and, in its lowest bit, the cycle bit.
-/

namespace BekOS.Usb

/-- `TRBType` -/
inductive TRBType
  | Normal | Setup | Data | Status | Isoch | Link | Event | NoOp | EnableSlot | DisableSlot
  | AddressDevice | ConfigEndpoint | EvaluateContext | ResetEndpoint | StopEndpoint
  | SetTRDequeuePtr | ResetDevice | NegBandwidth | GetPortBandwidth | ForceHeader | NoOpCommand
  | TransferEvent | CommandCompletion | PortStatusChange | BandwidthRequest | HostControllerEvent
  | DeviceNotification | MFINDEXWrap
  /-- A value of the underlying type that has no name. -/
  | other (code : BitVec 6)
deriving DecidableEq, Repr

/-- The number of a kind. -/
def TRBType.code : TRBType → BitVec 6
  | .Normal => 1
  | .Setup => 2
  | .Data => 3
  | .Status => 4
  | .Isoch => 5
  | .Link => 6
  | .Event => 7
  | .NoOp => 8
  | .EnableSlot => 9
  | .DisableSlot => 10
  | .AddressDevice => 11
  | .ConfigEndpoint => 12
  | .EvaluateContext => 13
  | .ResetEndpoint => 14
  | .StopEndpoint => 15
  | .SetTRDequeuePtr => 16
  | .ResetDevice => 17
  | .NegBandwidth => 19
  | .GetPortBandwidth => 21
  | .ForceHeader => 22
  | .NoOpCommand => 23
  | .TransferEvent => 32
  | .CommandCompletion => 33
  | .PortStatusChange => 34
  | .BandwidthRequest => 35
  | .HostControllerEvent => 37
  | .DeviceNotification => 38
  | .MFINDEXWrap => 39
  | .other code => code

/-- The kind that has a number. -/
def TRBType.ofCode (code : BitVec 6) : TRBType :=
  match code.toNat with
  | 1 => .Normal
  | 2 => .Setup
  | 3 => .Data
  | 4 => .Status
  | 5 => .Isoch
  | 6 => .Link
  | 7 => .Event
  | 8 => .NoOp
  | 9 => .EnableSlot
  | 10 => .DisableSlot
  | 11 => .AddressDevice
  | 12 => .ConfigEndpoint
  | 13 => .EvaluateContext
  | 14 => .ResetEndpoint
  | 15 => .StopEndpoint
  | 16 => .SetTRDequeuePtr
  | 17 => .ResetDevice
  | 19 => .NegBandwidth
  | 21 => .GetPortBandwidth
  | 22 => .ForceHeader
  | 23 => .NoOpCommand
  | 32 => .TransferEvent
  | 33 => .CommandCompletion
  | 34 => .PortStatusChange
  | 35 => .BandwidthRequest
  | 37 => .HostControllerEvent
  | 38 => .DeviceNotification
  | 39 => .MFINDEXWrap
  | _ => .other code

/-- `TRB` -/
structure TRB where
  data0 : BitVec 32
  data1 : BitVec 32
  data2 : BitVec 32
  data3 : BitVec 32
deriving DecidableEq, Repr

namespace TRB

/-- `{0, 0, 0, 0}` -/
def zero : TRB := ⟨0, 0, 0, 0⟩

/-- `parameter` -/
def parameter (trb : TRB) : BitVec 64 :=
  trb.data0.setWidth 64 ||| trb.data1.setWidth 64 <<< 32

/-- `status` -/
def status (trb : TRB) : BitVec 32 := trb.data2

/-- `trb_type` -/
def trbType (trb : TRB) : TRBType := .ofCode ((trb.data3 >>> 10 &&& 0x3F).setWidth 6)

/-- `cycle` -/
def cycle (trb : TRB) : Bool := trb.data3 &&& 1 != 0

/-- `cycle`, with an argument. -/
def setCycle (trb : TRB) (c : Bool) : TRB :=
  { trb with data3 := trb.data3 &&& ~~~1 ||| if c then 1 else 0 }

/-- `create` -/
def create (kind : TRBType) (parameter0 parameter1 status control : BitVec 32) : TRB where
  data0 := parameter0
  data1 := parameter1
  data2 := status
  data3 := control &&& ~~~((0x3F : BitVec 32) <<< 10) ||| (kind.code.setWidth 32 &&& 0x3F) <<< 10

/-- `create`, with the parameter as one number. -/
def create64 (kind : TRBType) (parameter : BitVec 64) (status control : BitVec 32) : TRB :=
  create kind (parameter.setWidth 32) ((parameter >>> 32).setWidth 32) status control

theorem cycle_eq (trb : TRB) : trb.cycle = trb.data3.getLsbD 0 := by
  have hbit : trb.data3 &&& 1 = (BitVec.ofBool (trb.data3.getLsbD 0)).setWidth 32 := by
    refine BitVec.eq_of_getLsbD_eq fun i hi => ?_
    rcases Nat.eq_zero_or_pos i with rfl | hpos
    · simp
    · simp [hpos.ne']
  rw [cycle, hbit]
  cases trb.data3.getLsbD 0 <;> rfl

@[simp] theorem cycle_zero : zero.cycle = false := rfl

@[simp] theorem cycle_setCycle (trb : TRB) (c : Bool) : (trb.setCycle c).cycle = c := by
  rw [cycle_eq]
  cases c <;> simp [setCycle]

theorem data3_setCycle (trb : TRB) (c : Bool) {k : ℕ} (hk : 0 < k) :
    (trb.setCycle c).data3 >>> k = trb.data3 >>> k := by
  refine BitVec.eq_of_getLsbD_eq fun i hi => ?_
  have hlow : (1 : BitVec 32).getLsbD (k + i) = false := by
    have hne : k + i ≠ 0 := by omega
    rw [show (1 : BitVec 32) = 1#32 from rfl, BitVec.getLsbD_one, decide_eq_false hne,
      Bool.and_false]
  have hflag : (if c = true then (1 : BitVec 32) else 0).getLsbD (k + i) = false := by
    cases c
    · exact BitVec.getLsbD_zero
    · exact hlow
  rw [BitVec.getLsbD_ushiftRight, BitVec.getLsbD_ushiftRight, setCycle, BitVec.getLsbD_or,
    BitVec.getLsbD_and, BitVec.getLsbD_not, hlow, hflag, Bool.or_false]
  rcases Nat.lt_or_ge (k + i) 32 with hlt | hge
  · simp [hlt]
  · simp [BitVec.getLsbD_of_ge _ _ hge]

@[simp] theorem trbType_setCycle (trb : TRB) (c : Bool) :
    (trb.setCycle c).trbType = trb.trbType := by
  rw [trbType, trbType, data3_setCycle trb c (by decide)]

@[simp] theorem parameter_setCycle (trb : TRB) (c : Bool) :
    (trb.setCycle c).parameter = trb.parameter := rfl

@[simp] theorem setCycle_setCycle (trb : TRB) (c d : Bool) :
    (trb.setCycle c).setCycle d = trb.setCycle d := by
  have hbits : (trb.setCycle c).data3 &&& ~~~1 = trb.data3 &&& ~~~1 := by
    refine BitVec.eq_of_getLsbD_eq fun i hi => ?_
    cases c <;> cases hbit : (1 : BitVec 32).getLsbD i <;> simp_all [setCycle]
  rw [setCycle, hbits]
  rfl

end TRB

/-! ## Events -/

/-- `EventTRB`; the members of a union are one field. -/
structure EventTRB where
  /-- Or `notification_data`. -/
  trbPtr : BitVec 64 := 0
  /-- Or `completion_parameter`. -/
  transferLength : BitVec 32 := 0
  kind : TRBType
  completionCode : BitVec 8
  slotId : BitVec 8 := 0
  /-- Or `port_id`, `vf_id`, `notification_type`. -/
  endpointId : BitVec 8 := 0
  edFlag : Bool := false
deriving DecidableEq, Repr

/-- `EventTRB::fromTRB` -/
def EventTRB.fromTRB (trb : TRB) : Option EventTRB :=
  let completionCode : BitVec 8 := (trb.status >>> 24 &&& 0xFF).setWidth 8
  let lowerStatus : BitVec 32 := trb.status &&& 0x00FFFFFF
  let upperControl : BitVec 8 := (trb.data3 >>> 24 &&& 0xFF).setWidth 8
  let midControl : BitVec 8 := (trb.data3 >>> 16 &&& 0xFF).setWidth 8
  let event : EventTRB := { kind := trb.trbType, completionCode }
  match trb.trbType with
  | .TransferEvent => some
      { event with
        trbPtr := trb.parameter
        transferLength := lowerStatus
        slotId := upperControl
        endpointId := midControl &&& 0x1F
        edFlag := trb.data3 >>> 2 &&& 1 != 0 }
  | .CommandCompletion => some
      { event with
        trbPtr := trb.parameter
        transferLength := lowerStatus
        slotId := upperControl
        endpointId := midControl }
  | .PortStatusChange => some
      { event with endpointId := (trb.data0 >>> 24 &&& 0xFF).setWidth 8 }
  | .BandwidthRequest => some { event with slotId := upperControl }
  | .HostControllerEvent => some event
  | .DeviceNotification => some
      { event with
        trbPtr := trb.parameter &&& ~~~0xFF
        endpointId := (trb.parameter >>> 4 &&& 0xF).setWidth 8
        slotId := upperControl }
  | .MFINDEXWrap => some event
  | _ => none

/-- The kinds of events that `TRBType` has names for. -/
def TRBType.isEvent : TRBType → Bool
  | .TransferEvent | .CommandCompletion | .PortStatusChange | .BandwidthRequest
  | .HostControllerEvent | .DeviceNotification | .MFINDEXWrap => true
  | _ => false

theorem EventTRB.fromTRB_isSome (trb : TRB) :
    (EventTRB.fromTRB trb).isSome = trb.trbType.isEvent := by
  unfold EventTRB.fromTRB
  cases trb.trbType <;> rfl

@[simp] theorem EventTRB.fromTRB_setCycle (trb : TRB) (c : Bool) :
    EventTRB.fromTRB (trb.setCycle c) = EventTRB.fromTRB trb := by
  unfold EventTRB.fromTRB
  simp only [TRB.trbType_setCycle, TRB.parameter_setCycle, trb.data3_setCycle c (k := 24) (by decide),
    trb.data3_setCycle c (k := 16) (by decide), trb.data3_setCycle c (k := 2) (by decide)]
  rfl

end BekOS.Usb
