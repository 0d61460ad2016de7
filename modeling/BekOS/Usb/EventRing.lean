import BekOS.Lib.CycleRing
import BekOS.Lib.PartialRun
import BekOS.Usb.Trb

/-!
# `EventRing`

The ring in which the controller reports events.  The driver goes through it with an index and the
value of the cycle bit that tells new entries from old ones, and reports to the controller how far
it has got.
-/

namespace BekOS.Usb

open CycleRing PartialRun

/-- `RING_SIZE`, of both kinds of rings. -/
def ringSize : ℕ := 128

/-- The address of an entry of a ring. -/
def entryAddress (base : BitVec 64) (index : ℕ) : BitVec 64 := base + BitVec.ofNat 64 (16 * index)

/-- The next place in a ring, and the cycle bit there. -/
def advance (index : ℕ) (cycle : Bool) : ℕ × Bool :=
  if index + 1 = ringSize then (0, !cycle) else (index + 1, cycle)

theorem advance_phase (n : ℕ) :
    advance (n % ringSize) (phase ringSize n) = ((n + 1) % ringSize, phase ringSize (n + 1)) := by
  rw [advance, succ_mod (by decide), phase_succ (by decide)]
  split_ifs <;> rfl

/-- `EventRing` -/
structure EventRing where
  /-- `m_ring_array.dma_ptr()` -/
  base : BitVec 64
  ringArray : ℕ → TRB
  dequeueIndex : ℕ
  currentCcs : Bool

namespace EventRing

/-- The constructor. -/
def new (base : BitVec 64) : EventRing where
  base := base
  ringArray := fun _ => .zero
  dequeueIndex := 0
  currentCcs := true

/-- `process`; `none` if the event is of a kind that `fromTRB` does not know. -/
def process (ring : EventRing) : Option (Option EventTRB × EventRing) :=
  let trb := ring.ringArray ring.dequeueIndex
  if trb.cycle = ring.currentCcs then
    let next := advance ring.dequeueIndex ring.currentCcs
    (EventTRB.fromTRB trb).map fun event =>
      (some event, { ring with dequeueIndex := next.1, currentCcs := next.2 })
  else some (none, ring)

/-- `current_ring_dma_ptr` -/
def currentRingDmaPtr (ring : EventRing) : BitVec 64 := entryAddress ring.base ring.dequeueIndex

end EventRing

/-! ## The controller -/

/-- The ring between the driver and a controller. -/
structure EventSession where
  ring : EventRing
  /-- Where the controller puts the next event, and with which cycle bit. -/
  enqueueIndex : ℕ
  cycleState : Bool
  /-- How far the controller is ahead of the dequeue pointer that was reported to it. -/
  ahead : ℕ
  /-- How many events were processed since the dequeue pointer was reported. -/
  unreported : ℕ

/-- What happens to the ring. -/
inductive EventOp
  /-- The controller puts an event in the ring. -/
  | produce (trb : TRB)
  /-- The driver calls `process`. -/
  | process
  /-- The driver writes `current_ring_dma_ptr()` to the controller's register. -/
  | report
deriving DecidableEq, Repr

/-- What comes of it. -/
inductive EventReply
  | produced (trb : TRB)
  | processed (event : Option EventTRB)
  | reported (dequeuePtr : BitVec 64)
deriving DecidableEq, Repr

namespace EventReply

/-- The event that was put in the ring. -/
def trb : EventReply → Option TRB
  | .produced trb => some trb
  | _ => none

/-- The event that `process` returned. -/
def event : EventReply → Option EventTRB
  | .processed event => event
  | _ => none

end EventReply

namespace EventSession

/-- An empty ring, on both sides. -/
def start (base : BitVec 64) : EventSession where
  ring := .new base
  enqueueIndex := 0
  cycleState := true
  ahead := 0
  unreported := 0

/-- One step of the controller or the driver. -/
def step (session : EventSession) : EventOp → Option (EventSession × EventReply)
  | .produce trb =>
      let ringArray :=
        Function.update session.ring.ringArray session.enqueueIndex
          (trb.setCycle session.cycleState)
      let next := advance session.enqueueIndex session.cycleState
      some ({ session with
          ring := { session.ring with ringArray }
          enqueueIndex := next.1
          cycleState := next.2
          ahead := session.ahead + 1 },
        .produced trb)
  | .process =>
      session.ring.process.map fun moved =>
        ({ session with
            ring := moved.2
            unreported := session.unreported + moved.1.toList.length },
          .processed moved.1)
  | .report =>
      some ({ session with ahead := session.ahead - session.unreported, unreported := 0 },
        .reported session.ring.currentRingDmaPtr)

/-- A conforming controller does not go past the dequeue pointer that was reported to it, and
reports events. -/
def Conforming (session : EventSession) : EventOp → Prop
  | .produce trb => session.ahead < ringSize ∧ trb.trbType.isEvent
  | .process => True
  | .report => True

instance (session : EventSession) (op : EventOp) : Decidable (session.Conforming op) := by
  cases op <;> unfold Conforming <;> infer_instance

/-! ## Exactness -/

/-- The entries of a stream of events, with their cycle bits. -/
def entries (produced : List TRB) : List TRB :=
  produced.mapIdx fun n trb => trb.setCycle (phase ringSize n)

@[simp] theorem length_entries (produced : List TRB) :
    (entries produced).length = produced.length := List.length_mapIdx

@[simp] theorem entries_append (produced : List TRB) (trb : TRB) :
    entries (produced ++ [trb]) =
      entries produced ++ [trb.setCycle (phase ringSize produced.length)] :=
  List.mapIdx_concat

/-- Where the two sides are after these events were put in the ring and those were read. -/
structure Exact (base : BitVec 64) (produced : List TRB) (events : List EventTRB)
    (session : EventSession) : Prop where
  base_eq : session.ring.base = base
  written : Written TRB.cycle ringSize session.ring.ringArray (entries produced)
  known : ∀ trb ∈ produced, trb.trbType.isEvent
  enqueue : session.enqueueIndex = produced.length % ringSize
  cycleState : session.cycleState = phase ringSize produced.length
  dequeue : session.ring.dequeueIndex = events.length % ringSize
  currentCcs : session.ring.currentCcs = phase ringSize events.length
  read : events.length ≤ produced.length
  ahead : produced.length + session.unreported = events.length + session.ahead
  room : session.ahead ≤ ringSize
  same : events.map some = (produced.take events.length).map EventTRB.fromTRB

namespace Exact

variable {base : BitVec 64} {produced : List TRB} {events : List EventTRB}
  {session : EventSession}

theorem start_exact : Exact base [] [] (start base) where
  base_eq := rfl
  written := Written.nil fun _ _ => TRB.cycle_zero
  known := List.forall_mem_nil _
  enqueue := rfl
  cycleState := rfl
  dequeue := rfl
  currentCcs := rfl
  read := le_rfl
  ahead := rfl
  room := Nat.zero_le _
  same := rfl

variable (exact : Exact base produced events session)
include exact

theorem lap : (entries produced).length ≤ events.length + ringSize := by
  have hahead := exact.ahead
  have hroom := exact.room
  rw [length_entries]
  omega

theorem cycle_eq_iff :
    (session.ring.ringArray session.ring.dequeueIndex).cycle = session.ring.currentCcs ↔
      events.length < produced.length := by
  have hread : events.length ≤ (entries produced).length := by
    rw [length_entries]
    exact exact.read
  rw [exact.dequeue, exact.currentCcs,
    exact.written.cycle_eq_iff hread exact.lap (by decide), length_entries]

theorem fromTRB_next (h : events.length < produced.length) :
    EventTRB.fromTRB (session.ring.ringArray session.ring.dequeueIndex) =
      EventTRB.fromTRB produced[events.length] := by
  rw [exact.dequeue, exact.written.read (by rwa [length_entries]) exact.lap]
  unfold entries
  rw [List.getElem_mapIdx, EventTRB.fromTRB_setCycle]

theorem produce {trb : TRB} (conforming : session.Conforming (.produce trb)) :
    ∃ moved, session.step (.produce trb) = some (moved, .produced trb) ∧
      Exact base (produced ++ [trb]) events moved := by
  obtain ⟨hroom, hknown⟩ := conforming
  have hahead := exact.ahead
  have hread := exact.read
  have hlength : (produced ++ [trb]).length = produced.length + 1 := by simp
  have hwritten : Written TRB.cycle ringSize
      (Function.update session.ring.ringArray session.enqueueIndex
        (trb.setCycle session.cycleState)) (entries (produced ++ [trb])) := by
    rw [entries_append, exact.enqueue, exact.cycleState, ← length_entries produced]
    exact exact.written.append (by decide) (TRB.cycle_setCycle _ _)
  have hall : ∀ other ∈ produced ++ [trb], other.trbType.isEvent = true := by
    intro other hother
    rcases List.mem_append.mp hother with h | h
    · exact exact.known other h
    · rw [List.mem_singleton.mp h]
      exact hknown
  have hsame : events.map some =
      ((produced ++ [trb]).take events.length).map EventTRB.fromTRB := by
    rw [List.take_append_of_le_length hread]
    exact exact.same
  refine ⟨_, rfl, exact.base_eq, hwritten, hall, ?_, ?_, exact.dequeue, exact.currentCcs, ?_, ?_,
    hroom, hsame⟩
  · rw [hlength, exact.enqueue, exact.cycleState, advance_phase]
  · rw [hlength, exact.enqueue, exact.cycleState, advance_phase]
  · omega
  · rw [hlength]
    show produced.length + 1 + session.unreported = events.length + (session.ahead + 1)
    omega

theorem process_none (h : events.length = produced.length) :
    session.ring.process = some (none, session.ring) := by
  rw [EventRing.process, if_neg (fun heq => (exact.cycle_eq_iff.mp heq).ne h)]

theorem process_some (h : events.length < produced.length) :
    ∃ event ring, session.ring.process = some (some event, ring) ∧
      Exact base produced (events ++ [event])
        { session with ring, unreported := session.unreported + 1 } := by
  have hcycle := exact.cycle_eq_iff.mpr h
  have hahead := exact.ahead
  have hsome : (EventTRB.fromTRB produced[events.length]).isSome = true := by
    rw [EventTRB.fromTRB_isSome]
    exact exact.known _ (List.getElem_mem h)
  obtain ⟨event, hevent⟩ := Option.isSome_iff_exists.mp hsome
  have hlength : (events ++ [event]).length = events.length + 1 := by simp
  have hsame : (events ++ [event]).map some =
      (produced.take (events ++ [event]).length).map EventTRB.fromTRB := by
    rw [hlength, ← List.take_append_getElem h, List.map_append, List.map_append,
      exact.same, List.map_singleton, List.map_singleton, hevent]
  have hnext : advance session.ring.dequeueIndex session.ring.currentCcs =
      ((events.length + 1) % ringSize, phase ringSize (events.length + 1)) := by
    rw [exact.dequeue, exact.currentCcs, advance_phase]
  refine ⟨event, { session.ring with
      dequeueIndex := (events.length + 1) % ringSize
      currentCcs := phase ringSize (events.length + 1) }, ?_, exact.base_eq, exact.written,
    exact.known, exact.enqueue, exact.cycleState, ?_, ?_, ?_, ?_, exact.room, hsame⟩
  · rw [EventRing.process, if_pos hcycle, exact.fromTRB_next h, hevent, Option.map_some, hnext]
  · rw [hlength]
  · rw [hlength]
  · rw [hlength]
    exact h
  · rw [hlength]
    show produced.length + (session.unreported + 1) = events.length + 1 + session.ahead
    omega

theorem report : Exact base produced events
    { session with ahead := session.ahead - session.unreported, unreported := 0 } := by
  have hahead := exact.ahead
  have hread := exact.read
  have hroom := exact.room
  refine { exact with ahead := ?_, room := ?_ }
  · show produced.length + 0 = events.length + (session.ahead - session.unreported)
    omega
  · show session.ahead - session.unreported ≤ ringSize
    omega

theorem process_none_iff :
    (∃ ring, session.ring.process = some (none, ring)) ↔ events.length = produced.length := by
  refine ⟨fun ⟨ring, hring⟩ => ?_, fun h => ⟨_, exact.process_none h⟩⟩
  by_contra hne
  obtain ⟨event, ring', hprocess, -⟩ := exact.process_some (lt_of_le_of_ne exact.read hne)
  rw [hprocess] at hring
  cases hring

theorem dequeuePtr : session.ring.currentRingDmaPtr =
    entryAddress base (events.length % ringSize) := by
  rw [EventRing.currentRingDmaPtr, exact.base_eq, exact.dequeue]

end Exact

/-- Each step keeps the two sides together. -/
theorem step_exact (base : BitVec 64) (outs : List EventReply) (session : EventSession)
    (op : EventOp)
    (exact : Exact base (outs.filterMap EventReply.trb) (outs.filterMap EventReply.event) session)
    (conforming : session.Conforming op) :
    ∃ moved, session.step op = some moved ∧
      Exact base ((outs ++ [moved.2]).filterMap EventReply.trb)
        ((outs ++ [moved.2]).filterMap EventReply.event) moved.1 := by
  cases op with
  | produce trb =>
      obtain ⟨moved, hstep, hmoved⟩ := exact.produce conforming
      refine ⟨_, hstep, ?_⟩
      rw [List.filterMap_append, List.filterMap_append]
      show Exact base (outs.filterMap EventReply.trb ++ [trb])
        (outs.filterMap EventReply.event ++ []) moved
      rwa [List.append_nil]
  | process =>
      rcases exact.read.lt_or_eq with hlt | heq
      · obtain ⟨event, ring, hprocess, hmoved⟩ := exact.process_some hlt
        refine ⟨_, by rw [step, hprocess, Option.map_some], ?_⟩
        rw [List.filterMap_append, List.filterMap_append]
        show Exact base (outs.filterMap EventReply.trb ++ [])
          (outs.filterMap EventReply.event ++ [event])
          { session with ring, unreported := session.unreported + 1 }
        rwa [List.append_nil]
      · refine ⟨_, by rw [step, exact.process_none heq, Option.map_some], ?_⟩
        rw [List.filterMap_append, List.filterMap_append]
        show Exact base (outs.filterMap EventReply.trb ++ [])
          (outs.filterMap EventReply.event ++ []) session
        rwa [List.append_nil, List.append_nil]
  | report =>
      refine ⟨_, rfl, ?_⟩
      rw [List.filterMap_append, List.filterMap_append]
      show Exact base (outs.filterMap EventReply.trb ++ [])
        (outs.filterMap EventReply.event ++ [])
        { session with ahead := session.ahead - session.unreported, unreported := 0 }
      rw [List.append_nil, List.append_nil]
      exact exact.report

/-- **In every run against a conforming controller**, the events that `process` returned are the
first ones that were put in the ring, each once and in order; it returns nothing exactly when these
are all; and the address that is reported is the one where the next event is or will be. -/
theorem run_exact (base : BitVec 64) {ops : List EventOp}
    (conforming : StepsMeet step Conforming (start base) ops) :
    ∃ final, runSteps step (start base) ops = some final ∧
      (final.2.filterMap EventReply.event).length ≤ (final.2.filterMap EventReply.trb).length ∧
      (final.2.filterMap EventReply.event).map some =
        ((final.2.filterMap EventReply.trb).take
          (final.2.filterMap EventReply.event).length).map EventTRB.fromTRB ∧
      ((∃ ring, final.1.ring.process = some (none, ring)) ↔
        (final.2.filterMap EventReply.event).length =
          (final.2.filterMap EventReply.trb).length) ∧
      final.1.ring.currentRingDmaPtr =
        entryAddress base ((final.2.filterMap EventReply.event).length % ringSize) := by
  have hstart : Exact base (([] : List EventReply).filterMap EventReply.trb)
      (([] : List EventReply).filterMap EventReply.event) (start base) := Exact.start_exact
  obtain ⟨final, hrun, hexact⟩ := runSteps_traces (step_exact base) hstart conforming
  rw [List.nil_append] at hexact
  exact ⟨final, hrun, hexact.read, hexact.same, hexact.process_none_iff, hexact.dequeuePtr⟩

/-- A port status change of port 1. -/
def portEvent : TRB := .create .PortStatusChange 0x01000000 0 0x01000000 0

/-- The ring is filled, read a third, and filled again. -/
def refilled : List EventOp :=
  List.replicate 128 (.produce portEvent) ++ List.replicate 40 .process ++ [.report] ++
    List.replicate 40 (.produce portEvent)

theorem run_exact_refilled :
    ∃ final, runSteps step (start 0x80000) refilled = some final ∧
      (final.2.filterMap EventReply.event).length ≤ (final.2.filterMap EventReply.trb).length ∧
      (final.2.filterMap EventReply.event).map some =
        ((final.2.filterMap EventReply.trb).take
          (final.2.filterMap EventReply.event).length).map EventTRB.fromTRB ∧
      ((∃ ring, final.1.ring.process = some (none, ring)) ↔
        (final.2.filterMap EventReply.event).length =
          (final.2.filterMap EventReply.trb).length) ∧
      final.1.ring.currentRingDmaPtr =
        entryAddress 0x80000 ((final.2.filterMap EventReply.event).length % ringSize) :=
  run_exact 0x80000 (by decide +kernel)

end EventSession

end BekOS.Usb
