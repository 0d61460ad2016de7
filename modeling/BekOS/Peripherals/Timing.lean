import BekOS.Lib.PartialRun
import BekOS.Library.KernelError
import Mathlib.Data.BitVec

/-!
# `TimingManager`

The timers that are pending are in one list, sorted by when they are next due, and the device is
armed for the first of them.  It is armed from two places: when a timer is queued in front of all
others, and when the device has triggered and all timers that were due have run.  What an action
does runs between these: it may schedule timers itself, and asks whether to be queued again.

The counter is any sequence of readings that never decreases, and it may move between any two.
Both places tell the device for how many ticks it is to wait, worked out from one reading, and the
device adds these to a later one: the timer is late by what passed between the two, and by no more.
-/

namespace BekOS

open PartialRun
open scoped List

/-- `operation_ns_estimate` -/
def operationNsEstimate : ℕ := 10

/-- `nanoseconds_per_s` -/
def nanosecondsPerS : ℕ := 1000000000

/-- The value of a `long` that has the bits of a `u64`. -/
def toLong (x : ℕ) : ℤ := (BitVec.ofNat 64 x).toInt

/-- `TimingNode`; what its action does is up to the steps that follow. -/
structure TimingNode where
  /-- The address. -/
  id : ℕ
  /-- The number of ticks between triggering. -/
  period : ℕ
  /-- The value of ticks at next trigger. -/
  nextTrigger : ℕ
deriving DecidableEq, Repr

/-- Where `on_trigger` has got to. -/
inductive TriggerPhase
  /-- Outside of it. -/
  | idle
  /-- In its loop, with a value of `current_ticks`. -/
  | looping (currentTicks : ℕ)
  /-- In the action of a timer. -/
  | acting (node : TimingNode)
deriving DecidableEq, Repr

/-- `TimingManager`, and the timer device. -/
structure TimingManager where
  frequency : ℕ
  pendingTimers : List TimingNode
  phase : TriggerPhase
  /-- When the device is to trigger, if it is enabled. -/
  armed : Option ℕ
  /-- The reading from which the last instruction to the device was worked out. -/
  instructed : ℕ
  /-- By how much the counter had moved when the device got it. -/
  late : ℕ
  /-- How many times the counter was read. -/
  reads : ℕ
  /-- The address of the next node. -/
  nextId : ℕ
deriving DecidableEq, Repr

namespace TimingManager

/-- The constructor. -/
def new (frequency : ℕ) : TimingManager where
  frequency := frequency
  pendingTimers := []
  phase := .idle
  armed := none
  instructed := 0
  late := 0
  reads := 0
  nextId := 0

/-- A number of nanoseconds in ticks: `ns * m_device->get_frequency() / nanoseconds_per_s` -/
def ticksOf (manager : TimingManager) (ns : ℕ) : ℕ :=
  ns * manager.frequency % 2 ^ 64 / nanosecondsPerS

/-- `m_operation_ticks_estimate` -/
def operationTicksEstimate (manager : TimingManager) : ℕ := manager.ticksOf operationNsEstimate

/-- A timer goes before the first one that is due later. -/
abbrev Sooner (node other : TimingNode) : Prop := node.nextTrigger < other.nextTrigger

variable (counter : ℕ → ℕ)

/-- The device is told to wait for some ticks, which were worked out from a reading. -/
def arm (manager : TimingManager) (reading ticks : ℕ) : TimingManager :=
  { manager with
    armed := some ((ticks + counter manager.reads) % 2 ^ 64)
    instructed := reading
    late := counter manager.reads - reading
    reads := manager.reads + 1 }

/-- `queue_node`: the manager, and the node with the time that it is due. -/
def queueNode (manager : TimingManager) (node : TimingNode) : TimingManager × TimingNode :=
  let currentTicks := counter manager.reads
  let node := { node with nextTrigger := (currentTicks + node.period) % 2 ^ 64 }
  let queued := { manager with
    pendingTimers := manager.pendingTimers.orderedInsert Sooner node
    reads := manager.reads + 1 }
  if queued.pendingTimers.head?.map TimingNode.id = some node.id then
    (queued.arm counter currentTicks node.period, node)
  else (queued, node)

end TimingManager

/-- What happens to the manager. -/
inductive TimingOp
  /-- `schedule_callback`, by an action or by others; the node can be allocated or not. -/
  | scheduleCallback (periodNs : ℤ) (allocated : Bool)
  /-- The device triggers. -/
  | trigger
  /-- The loop goes round: the first timer's action is called, or the loop ends. -/
  | iterate
  /-- The action returns. -/
  | finish (period : ℤ)
deriving DecidableEq, Repr

/-- What comes of it. -/
inductive TimingReply
  | scheduled (node : TimingNode)
  | failed (code : ErrorCode)
  | triggered
  | called (node : TimingNode) (currentTicks : ℕ)
  | rescheduled (node : TimingNode) (period : ℤ)
  | deleted (node : TimingNode) (period : ℤ)
  /-- The action that the device is given, a number of ticks or `Cancel`. -/
  | returned (period : ℤ)
deriving DecidableEq, Repr

namespace TimingManager

variable (counter : ℕ → ℕ)

/-- `schedule_callback`; it stops at the `VERIFY`. -/
def scheduleCallback (manager : TimingManager) (periodNs : ℤ) (allocated : Bool) :
    Option (TimingManager × TimingReply) :=
  if 0 ≤ periodNs then
    if allocated then
      let period := max (manager.ticksOf periodNs.toNat) manager.operationTicksEstimate
      let queued := { manager with nextId := manager.nextId + 1 }.queueNode counter
        ⟨manager.nextId, period, 0⟩
      some (queued.1, .scheduled queued.2)
    else some (manager, .failed .ENOMEM)
  else none

/-- The condition of the loop in `on_trigger`, and what is done on either side of it. -/
def iterate (manager : TimingManager) (currentTicks : ℕ) : TimingManager × TimingReply :=
  match manager.pendingTimers with
  | [] => ({ manager with phase := .idle, armed := none }, .returned (-1))
  | front :: rest =>
      if front.nextTrigger < currentTicks then
        ({ manager with pendingTimers := rest, phase := .acting front },
          .called front currentTicks)
      else
        let period := max (toLong (front.nextTrigger - currentTicks))
          (toLong manager.operationTicksEstimate)
        if 0 ≤ period then
          ({ manager with phase := .idle }.arm counter currentTicks period.toNat,
            .returned period)
        else ({ manager with phase := .idle, armed := none }, .returned period)

/-- The rest of the loop's body, after the action. -/
def finish (manager : TimingManager) (node : TimingNode) (period : ℤ) :
    TimingManager × TimingReply :=
  let finished :=
    if 0 ≤ period then
      let queued := manager.queueNode counter
        { node with period := manager.ticksOf period.toNat }
      (queued.1, TimingReply.rescheduled queued.2 period)
    else (manager, .deleted node period)
  ({ finished.1 with
      phase := .looping (counter finished.1.reads)
      reads := finished.1.reads + 1 },
    finished.2)

/-- One step; none is possible where it is not the turn of what is to happen. -/
def step (manager : TimingManager) : TimingOp → Option (TimingManager × TimingReply)
  | .scheduleCallback periodNs allocated =>
      match manager.phase with
      | .looping _ => none
      | _ => manager.scheduleCallback counter periodNs allocated
  | .trigger =>
      match manager.phase with
      | .idle =>
          some ({ manager with
              phase := .looping (counter manager.reads)
              reads := manager.reads + 1 },
            .triggered)
      | _ => none
  | .iterate =>
      match manager.phase with
      | .looping currentTicks => some (manager.iterate counter currentTicks)
      | _ => none
  | .finish period =>
      match manager.phase with
      | .acting node => some (manager.finish counter node period)
      | _ => none

end TimingManager

namespace TimingReply

/-- The timer that was put in the list. -/
def queued : TimingReply → Option TimingNode
  | .scheduled node => some node
  | .rescheduled node _ => some node
  | _ => none

/-- The timer whose action was called. -/
def ran : TimingReply → Option TimingNode
  | .called node _ => some node
  | _ => none

/-- The timer whose action returned. -/
def finished : TimingReply → Option ℕ
  | .rescheduled node _ => some node.id
  | .deleted node _ => some node.id
  | _ => none

/-- An action is called after its time; it is queued again exactly if it asks for it. -/
def Fair : TimingReply → Prop
  | .called node currentTicks => node.nextTrigger < currentTicks
  | .rescheduled _ period => 0 ≤ period
  | .deleted _ period => period < 0
  | _ => True

end TimingReply

namespace TimingManager

/-- The timer whose action is running. -/
def acting (manager : TimingManager) : Option TimingNode :=
  match manager.phase with
  | .acting node => some node
  | _ => none

/-- The device is armed for the first timer, or for as soon as it may be, except for what passed
until it got to know. -/
def ArmedInTime (manager : TimingManager) : Prop :=
  ∀ front ∈ manager.pendingTimers.head?, ∃ armed, manager.armed = some armed ∧
    armed ≤ max front.nextTrigger (manager.instructed + manager.operationTicksEstimate) +
      manager.late

/-- The largest number of ticks that a number of nanoseconds can be. -/
def maxTicks : ℕ := 2 ^ 64 / nanosecondsPerS

/-- The readings never decrease, and there is room for a wait after each. -/
structure Steady (counter : ℕ → ℕ) : Prop where
  mono : Monotone counter
  room : ∀ n, counter n + maxTicks < 2 ^ 64

/-! ## The invariant -/

theorem ticksOf_le (manager : TimingManager) (ns : ℕ) : manager.ticksOf ns ≤ maxTicks :=
  Nat.div_le_div_right (Nat.mod_lt _ (by decide)).le

theorem toLong_of_le {x : ℕ} (h : x ≤ maxTicks) : toLong x = x := by
  have hmax : maxTicks < 2 ^ 63 := by decide
  have hx : (BitVec.ofNat 64 x).toNat = x := by
    rw [BitVec.toNat_ofNat, Nat.mod_eq_of_lt (by omega)]
  rw [toLong, BitVec.toInt_eq_toNat_of_lt (by omega), hx]

theorem pairwise_orderedInsert {timers : List TimingNode} (node : TimingNode)
    (h : timers.Pairwise (·.nextTrigger ≤ ·.nextTrigger)) :
    (timers.orderedInsert Sooner node).Pairwise (·.nextTrigger ≤ ·.nextTrigger) := by
  induction timers with
  | nil => exact List.pairwise_singleton _ _
  | cons other rest ih =>
      obtain ⟨hother, hrest⟩ := List.pairwise_cons.mp h
      rw [List.orderedInsert_cons]
      split_ifs with hsooner
      · refine List.pairwise_cons.mpr ⟨fun later hlater => ?_, h⟩
        rcases List.mem_cons.mp hlater with rfl | hlater
        · exact hsooner.le
        · exact hsooner.le.trans (hother later hlater)
      · refine List.pairwise_cons.mpr ⟨fun later hlater => ?_, ih hrest⟩
        rcases (List.mem_orderedInsert _).mp hlater with rfl | hlater
        · exact not_lt.mp hsooner
        · exact hother later hlater

theorem head?_orderedInsert (timers : List TimingNode) (node : TimingNode) :
    (timers.orderedInsert Sooner node).head? = some node ∨
      (timers.orderedInsert Sooner node).head? = timers.head? := by
  cases timers with
  | nil => exact Or.inl rfl
  | cons other rest =>
      rw [List.orderedInsert_cons]
      split_ifs
      · exact Or.inl rfl
      · exact Or.inr rfl

variable {counter : ℕ → ℕ} {manager : TimingManager}

/-- What holds between the steps. -/
structure Ok (counter : ℕ → ℕ) (manager : TimingManager) : Prop where
  sorted : manager.pendingTimers.Pairwise (·.nextTrigger ≤ ·.nextTrigger)
  soon : ∀ node ∈ manager.pendingTimers, node.nextTrigger ≤ counter manager.reads + maxTicks
  ids : ∀ node ∈ manager.pendingTimers, node.id < manager.nextId
  acting_id : ∀ node ∈ manager.acting, node.id < manager.nextId ∧
    node.id ∉ manager.pendingTimers.map TimingNode.id
  nodup : (manager.pendingTimers.map TimingNode.id).Nodup
  looping : ∀ currentTicks, manager.phase = .looping currentTicks →
    currentTicks ≤ counter manager.reads ∧
      ∀ node ∈ manager.pendingTimers, node.nextTrigger ≤ currentTicks + maxTicks
  armed : manager.ArmedInTime

theorem new_ok (frequency : ℕ) : Ok counter (new frequency) where
  sorted := List.Pairwise.nil
  soon := List.forall_mem_nil _
  ids := List.forall_mem_nil _
  acting_id node h := by cases h
  nodup := List.nodup_nil
  looping _ h := by cases h
  armed front h := by cases h

/-- **What `queue_node` does**: one timer more is pending, due after its period, and the device is
armed in time. -/
theorem queueNode_spec (steady : Steady counter) (armed : manager.ArmedInTime)
    {node : TimingNode} (hperiod : node.period ≤ maxTicks)
    (hid : node.id ∉ manager.pendingTimers.map TimingNode.id) :
    (manager.queueNode counter node).2 =
        { node with nextTrigger := counter manager.reads + node.period } ∧
      (manager.queueNode counter node).1.pendingTimers =
        manager.pendingTimers.orderedInsert Sooner (manager.queueNode counter node).2 ∧
      (manager.queueNode counter node).1.phase = manager.phase ∧
      (manager.queueNode counter node).1.nextId = manager.nextId ∧
      (manager.queueNode counter node).1.frequency = manager.frequency ∧
      manager.reads < (manager.queueNode counter node).1.reads ∧
      (manager.queueNode counter node).1.ArmedInTime := by
  have hroom := steady.room manager.reads
  have hroom' := steady.room (manager.reads + 1)
  have hmono := steady.mono (Nat.le_succ manager.reads)
  have hdue : (counter manager.reads + node.period) % 2 ^ 64 =
      counter manager.reads + node.period := Nat.mod_eq_of_lt (by omega)
  obtain ⟨queued, hqueued⟩ : ∃ queued, queued =
    { node with nextTrigger := counter manager.reads + node.period } := ⟨_, rfl⟩
  unfold queueNode
  simp only [hdue, ← hqueued]
  have hhead := head?_orderedInsert manager.pendingTimers queued
  split_ifs with hfront
  · refine ⟨rfl, rfl, rfl, rfl, rfl, Nat.lt_succ_of_lt (Nat.lt_succ_self _), ?_⟩
    intro front hmem
    have hmem' : (manager.pendingTimers.orderedInsert Sooner queued).head? = some front := hmem
    rcases hhead with hnew | hold
    · rw [hnew] at hmem'
      cases hmem'
      refine ⟨_, rfl, ?_⟩
      have hsum : (node.period + counter (manager.reads + 1)) % 2 ^ 64 =
          node.period + counter (manager.reads + 1) := Nat.mod_eq_of_lt (by omega)
      have hnext : queued.nextTrigger = counter manager.reads + node.period := by rw [hqueued]
      show (node.period + counter (manager.reads + 1)) % 2 ^ 64 ≤
        max queued.nextTrigger _ + (counter (manager.reads + 1) - counter manager.reads)
      have hle := le_max_left queued.nextTrigger
        (counter manager.reads + manager.operationTicksEstimate)
      rw [hsum]
      refine le_trans ?_ (Nat.add_le_add_right hle _)
      omega
    · rw [hmem'] at hfront
      rw [hmem'] at hold
      have hid' := Option.some.inj hfront
      exact absurd (List.mem_map.mpr ⟨front, List.mem_of_mem_head? hold.symm, hid'⟩) hid
  · refine ⟨rfl, rfl, rfl, rfl, rfl, Nat.lt_succ_self _, ?_⟩
    intro front hmem
    have hmem' : (manager.pendingTimers.orderedInsert Sooner queued).head? = some front := hmem
    rcases hhead with hnew | hold
    · rw [hnew] at hfront
      exact absurd (by rw [hqueued]; rfl) hfront
    · rw [hmem'] at hold
      exact armed front hold.symm

/-- Queuing a node that is not in the list keeps the invariant. -/
theorem Ok.queueNode (steady : Steady counter) (ok : Ok counter manager) {node : TimingNode}
    (hperiod : node.period ≤ maxTicks) (hlt : node.id < manager.nextId)
    (hid : node.id ∉ manager.pendingTimers.map TimingNode.id)
    (hphase : ∀ currentTicks, manager.phase ≠ .looping currentTicks)
    (hacting : ∀ other ∈ manager.acting, other.id ≠ node.id) :
    Ok counter (manager.queueNode counter node).1 := by
  obtain ⟨hnode, hpending, hphase', hnext, hfrequency, hreads, harmed⟩ :=
    queueNode_spec steady ok.armed hperiod hid
  have hmono := steady.mono hreads.le
  have hperm : (manager.queueNode counter node).1.pendingTimers.Perm
      ((manager.queueNode counter node).2 :: manager.pendingTimers) := by
    rw [hpending]
    exact List.perm_orderedInsert _ _ _
  have hids : ((manager.queueNode counter node).1.pendingTimers.map TimingNode.id).Perm
      (node.id :: manager.pendingTimers.map TimingNode.id) := by
    have h := hperm.map TimingNode.id
    rwa [List.map_cons, hnode] at h
  refine ⟨?_, fun other hother => ?_, fun other hother => ?_, fun other hother => ?_, ?_,
    fun currentTicks h => ?_, harmed⟩
  · rw [hpending]
    exact pairwise_orderedInsert _ ok.sorted
  · rcases List.mem_cons.mp (hperm.mem_iff.mp hother) with rfl | hold
    · rw [hnode]
      show counter manager.reads + node.period ≤ _
      omega
    · have h := ok.soon other hold
      omega
  · rw [hnext]
    rcases List.mem_cons.mp (hperm.mem_iff.mp hother) with rfl | hold
    · rw [hnode]
      exact hlt
    · exact ok.ids other hold
  · have hother' : other ∈ manager.acting := by
      unfold acting at hother ⊢
      rwa [hphase'] at hother
    obtain ⟨hlt', hnot⟩ := ok.acting_id other hother'
    refine ⟨by rw [hnext]; exact hlt', fun hin => ?_⟩
    rcases List.mem_cons.mp (hids.mem_iff.mp hin) with h | h
    · exact hacting other hother' h
    · exact hnot h
  · exact hids.nodup_iff.mpr (List.nodup_cons.mpr ⟨hid, ok.nodup⟩)
  · rw [hphase'] at h
    exact absurd h (hphase currentTicks)

theorem queueNode_phase (manager : TimingManager) (node : TimingNode) (phase : TriggerPhase) :
    { manager with phase }.queueNode counter node =
      ({ (manager.queueNode counter node).1 with phase }, (manager.queueNode counter node).2) := by
  unfold queueNode
  simp only
  split_ifs <;> rfl

/-- What one step does to the timers: none is lost, and only a timer that is due has its turn. -/
structure StepOk (counter : ℕ → ℕ) (manager : TimingManager)
    (moved : TimingManager × TimingReply) : Prop where
  ok : Ok counter moved.1
  fair : moved.2.Fair
  kept : (moved.2.queued.toList ++ manager.pendingTimers).Perm
    (moved.2.ran.toList ++ moved.1.pendingTimers)
  turns : (manager.acting.toList ++ moved.2.ran.toList).map TimingNode.id =
    moved.2.finished.toList ++ moved.1.acting.toList.map TimingNode.id

/-- **`schedule_callback`** -/
theorem scheduleCallback_ok (steady : Steady counter) (ok : Ok counter manager)
    (hphase : ∀ currentTicks, manager.phase ≠ .looping currentTicks) {periodNs : ℤ}
    {allocated : Bool} {moved : TimingManager × TimingReply}
    (h : manager.scheduleCallback counter periodNs allocated = some moved) :
    StepOk counter manager moved := by
  unfold scheduleCallback at h
  split_ifs at h
  · obtain ⟨node, hnode⟩ : ∃ node : TimingNode, node = ⟨manager.nextId,
      max (manager.ticksOf periodNs.toNat) manager.operationTicksEstimate, 0⟩ := ⟨_, rfl⟩
    obtain ⟨next, hnext⟩ : ∃ next : TimingManager,
      next = { manager with nextId := manager.nextId + 1 } := ⟨_, rfl⟩
    dsimp only at h
    rw [← hnode, ← hnext] at h
    cases h
    have hperiod : node.period ≤ maxTicks := by
      rw [hnode]
      exact max_le (ticksOf_le _ _) (ticksOf_le _ _)
    have okNext : Ok counter next := by
      rw [hnext]
      exact { ok with
        ids := fun other hother => (ok.ids other hother).trans (Nat.lt_succ_self _)
        acting_id := fun other hother => (ok.acting_id other hother).imp_left
          fun hlt => hlt.trans (Nat.lt_succ_self _) }
    have hid : node.id ∉ next.pendingTimers.map TimingNode.id := by
      rw [hnode, hnext]
      intro hin
      obtain ⟨other, hother, heq⟩ := List.mem_map.mp hin
      exact (ok.ids other hother).ne heq
    have hlt : node.id < next.nextId := by
      rw [hnode, hnext]
      exact Nat.lt_succ_self _
    have hacting : ∀ other ∈ next.acting, other.id ≠ node.id := by
      rw [hnode, hnext]
      exact fun other hother => (ok.acting_id other hother).1.ne
    obtain ⟨-, hpending, hphase', -⟩ := queueNode_spec steady okNext.armed hperiod hid
    refine ⟨okNext.queueNode steady hperiod hlt hid ?_ hacting, trivial, ?_, ?_⟩
    · rw [hnext]
      exact hphase
    · rw [hpending, hnext]
      exact (List.perm_orderedInsert _ _ _).symm
    · unfold acting
      rw [hphase', hnext]
      exact congrArg _ (List.append_nil _)
  · cases h
    exact ⟨ok, trivial, List.Perm.refl _, congrArg _ (List.append_nil _)⟩

theorem Ok.loop (steady : Steady counter) (ok : Ok counter manager) :
    Ok counter { manager with
      phase := .looping (counter manager.reads)
      reads := manager.reads + 1 } := by
  have hmono : counter manager.reads ≤ counter (manager.reads + 1) :=
    steady.mono (Nat.le_succ _)
  refine { ok with soon := ?_, acting_id := ?_, looping := ?_ }
  · intro node hnode
    have h := ok.soon node hnode
    show node.nextTrigger ≤ counter (manager.reads + 1) + maxTicks
    omega
  · intro node hnode
    cases hnode
  · intro currentTicks h
    cases h
    exact ⟨hmono, ok.soon⟩

/-- **The loop goes round.** -/
theorem iterate_ok (steady : Steady counter) (ok : Ok counter manager) {currentTicks : ℕ}
    (hphase : manager.phase = .looping currentTicks) :
    StepOk counter manager (manager.iterate counter currentTicks) := by
  have hacting : manager.acting = none := by
    unfold acting
    rw [hphase]
  obtain ⟨hcurrent, hwithin⟩ := ok.looping currentTicks hphase
  unfold iterate
  split
  next hnil =>
    refine ⟨{ ok with acting_id := ?_, looping := ?_, armed := ?_ }, trivial, ?_, ?_⟩
    · intro node hnode
      cases hnode
    · intro other h
      cases h
    · intro front hfront
      have hfront' : front ∈ manager.pendingTimers.head? := hfront
      rw [hnil] at hfront'
      cases hfront'
    · exact List.Perm.refl _
    · rw [hacting]
      rfl
  next front rest hcons =>
    obtain ⟨hsorted, hsoon, hids, hnodup⟩ : _ ∧ _ ∧ _ ∧ _ :=
      ⟨ok.sorted, ok.soon, ok.ids, ok.nodup⟩
    rw [hcons] at hsorted hsoon hids hnodup hwithin
    obtain ⟨armed, harmed, hle⟩ := ok.armed front (by rw [hcons]; rfl)
    by_cases hdue : front.nextTrigger < currentTicks
    · rw [if_pos hdue]
      refine ⟨⟨hsorted.of_cons, fun node hnode => hsoon node (List.mem_cons_of_mem _ hnode),
        fun node hnode => hids node (List.mem_cons_of_mem _ hnode), ?_,
        (List.nodup_cons.mp hnodup).2, ?_, ?_⟩, hdue, ?_, ?_⟩
      · intro node hnode
        cases hnode
        exact ⟨hids front List.mem_cons_self, (List.nodup_cons.mp hnodup).1⟩
      · intro other h
        cases h
      · intro next hnext
        have hlater : front.nextTrigger ≤ next.nextTrigger :=
          List.rel_of_pairwise_cons hsorted (List.mem_of_mem_head? hnext)
        exact ⟨armed, harmed, hle.trans (Nat.add_le_add_right (max_le_max hlater le_rfl) _)⟩
      · rw [hcons]
        exact List.Perm.refl _
      · rw [hacting]
        rfl
    · have hwait : front.nextTrigger - currentTicks ≤ maxTicks := by
        have h := hwithin front List.mem_cons_self
        omega
      have hestimate : manager.operationTicksEstimate ≤ maxTicks := ticksOf_le _ _
      obtain ⟨ticks, hticks⟩ : ∃ ticks, ticks =
        max (front.nextTrigger - currentTicks) manager.operationTicksEstimate := ⟨_, rfl⟩
      have hperiod : max (toLong (front.nextTrigger - currentTicks))
          (toLong manager.operationTicksEstimate) = (ticks : ℤ) := by
        rw [toLong_of_le hwait, toLong_of_le hestimate, hticks]
        omega
      have hroom := steady.room manager.reads
      have hsum : (ticks + counter manager.reads) % 2 ^ 64 = ticks + counter manager.reads := by
        have hle : ticks ≤ maxTicks := hticks.trans_le (max_le hwait hestimate)
        exact Nat.mod_eq_of_lt (by omega)
      have hmono : counter manager.reads ≤ counter (manager.reads + 1) :=
        steady.mono (Nat.le_succ _)
      rw [if_neg hdue]
      dsimp only
      rw [hperiod, if_pos (Int.natCast_nonneg _), Int.toNat_natCast]
      refine ⟨{ ok with soon := ?_, acting_id := ?_, looping := ?_, armed := ?_ }, trivial,
        List.Perm.refl _, ?_⟩
      · intro node hnode
        have h := ok.soon node hnode
        show node.nextTrigger ≤ counter (manager.reads + 1) + maxTicks
        omega
      · intro node hnode
        cases hnode
      · intro other h
        cases h
      · intro next hnext
        have hnext' : next ∈ manager.pendingTimers.head? := hnext
        rw [hcons] at hnext'
        cases hnext'
        refine ⟨_, rfl, ?_⟩
        show (ticks + counter manager.reads) % 2 ^ 64 ≤
          max front.nextTrigger (currentTicks + manager.operationTicksEstimate) +
            (counter manager.reads - currentTicks)
        rw [hsum, hticks]
        omega
      · rw [hacting]
        rfl

/-- **The action returns.** -/
theorem finish_ok (steady : Steady counter) (ok : Ok counter manager) {node : TimingNode}
    (hphase : manager.phase = .acting node) (period : ℤ) :
    StepOk counter manager (manager.finish counter node period) := by
  have hacting : manager.acting = some node := by
    unfold acting
    rw [hphase]
  obtain ⟨hlt, hid⟩ := ok.acting_id node hacting
  have okIdle : Ok counter { manager with phase := .idle } :=
    { ok with
      acting_id := fun other hother => by cases hother
      looping := fun currentTicks h => by cases h }
  unfold finish
  split_ifs with hask
  · have hperiod : { node with period := manager.ticksOf period.toNat }.period ≤ maxTicks :=
      ticksOf_le _ _
    obtain ⟨hnode, hpending, -⟩ := queueNode_spec steady ok.armed hperiod hid
    have okQueued := (okIdle.queueNode steady hperiod hlt hid (fun _ h => by cases h)
      (fun _ h => by cases h)).loop steady
    rw [queueNode_phase] at okQueued
    refine ⟨okQueued, hask, ?_, ?_⟩
    · show ([_] ++ manager.pendingTimers).Perm _
      simp only
      rw [hpending]
      exact (List.perm_orderedInsert _ _ _).symm
    · rw [hacting]
      simp only
      rw [hnode]
      rfl
  · have okLoop := okIdle.loop steady
    refine ⟨okLoop, not_le.mp hask, List.Perm.refl _, ?_⟩
    rw [hacting]
    rfl

/-- Every step keeps the invariant. -/
theorem step_ok (steady : Steady counter) (ok : Ok counter manager) {op : TimingOp}
    {moved : TimingManager × TimingReply} (h : manager.step counter op = some moved) :
    StepOk counter manager moved := by
  have hacting : ∀ {phase}, manager.phase = phase →
      manager.acting = match phase with | .acting node => some node | _ => none :=
    fun hphase => hphase ▸ rfl
  cases op with
  | scheduleCallback periodNs allocated =>
      unfold step at h
      cases hphase : manager.phase with
      | looping currentTicks =>
          rw [hphase] at h
          cases h
      | idle =>
          rw [hphase] at h
          exact scheduleCallback_ok steady ok (by rw [hphase]; intro _ h; cases h) h
      | acting node =>
          rw [hphase] at h
          exact scheduleCallback_ok steady ok (by rw [hphase]; intro _ h; cases h) h
  | trigger =>
      unfold step at h
      cases hphase : manager.phase with
      | looping currentTicks =>
          rw [hphase] at h
          cases h
      | acting node =>
          rw [hphase] at h
          cases h
      | idle =>
          rw [hphase] at h
          cases h
          refine ⟨ok.loop steady, trivial, List.Perm.refl _, ?_⟩
          rw [hacting hphase]
          rfl
  | iterate =>
      unfold step at h
      cases hphase : manager.phase with
      | idle =>
          rw [hphase] at h
          cases h
      | acting node =>
          rw [hphase] at h
          cases h
      | looping currentTicks =>
          rw [hphase] at h
          cases h
          exact iterate_ok steady ok hphase
  | finish period =>
      unfold step at h
      cases hphase : manager.phase with
      | idle =>
          rw [hphase] at h
          cases h
      | looping currentTicks =>
          rw [hphase] at h
          cases h
      | acting node =>
          rw [hphase] at h
          cases h
          exact finish_ok steady ok hphase period

/-! ## Runs -/

/-- What was given out so far, and where that leaves the manager. -/
structure Timed (counter : ℕ → ℕ) (outs : List TimingReply) (manager : TimingManager) : Prop where
  ok : Ok counter manager
  fair : ∀ out ∈ outs, out.Fair
  kept : (outs.filterMap TimingReply.queued).Perm
    (outs.filterMap TimingReply.ran ++ manager.pendingTimers)
  turns : (outs.filterMap TimingReply.ran).map TimingNode.id =
    outs.filterMap TimingReply.finished ++ manager.acting.toList.map TimingNode.id

theorem filterMap_concat {α : Type} (f : TimingReply → Option α) (outs : List TimingReply)
    (out : TimingReply) : (outs ++ [out]).filterMap f = outs.filterMap f ++ (f out).toList := by
  rw [List.filterMap_append, filterMap_cons_toList, List.filterMap_nil, List.append_nil]

theorem Timed.step {outs : List TimingReply} (steady : Steady counter)
    (timed : Timed counter outs manager) {op : TimingOp} {moved : TimingManager × TimingReply}
    (h : manager.step counter op = some moved) : Timed counter (outs ++ [moved.2]) moved.1 := by
  have stepOk := step_ok steady timed.ok h
  refine ⟨stepOk.ok, fun out hout => ?_, ?_, ?_⟩
  · rcases List.mem_append.mp hout with hold | hnew
    · exact timed.fair out hold
    · rw [List.mem_singleton.mp hnew]
      exact stepOk.fair
  · rw [filterMap_concat, filterMap_concat, List.append_assoc]
    calc outs.filterMap TimingReply.queued ++ moved.2.queued.toList
      _ ~ outs.filterMap TimingReply.ran ++ manager.pendingTimers ++ moved.2.queued.toList :=
          timed.kept.append_right _
      _ ~ outs.filterMap TimingReply.ran ++ (moved.2.queued.toList ++ manager.pendingTimers) := by
          rw [List.append_assoc]
          exact List.perm_append_comm.append_left _
      _ ~ outs.filterMap TimingReply.ran ++ (moved.2.ran.toList ++ moved.1.pendingTimers) :=
          stepOk.kept.append_left _
  · rw [filterMap_concat, filterMap_concat, List.map_append, timed.turns, List.append_assoc,
      ← List.map_append, stepOk.turns, List.append_assoc]

/-- **In every run**, of calls and triggers in any order and with any actions, the list is sorted;
no action is called before its time; the timers that were queued are those that were called and
those that are pending; every action that returns is queued again once if it asks for it, and
dropped if not; and the device is armed in time. -/
theorem run_timed (steady : Steady counter) (frequency : ℕ) {ops : List TimingOp}
    {final : TimingManager × List TimingReply}
    (hrun : runSteps (step counter) (new frequency) ops = some final) :
    final.1.pendingTimers.Pairwise (·.nextTrigger ≤ ·.nextTrigger) ∧
      (∀ out ∈ final.2, out.Fair) ∧
      (final.2.filterMap TimingReply.queued).Perm
        (final.2.filterMap TimingReply.ran ++ final.1.pendingTimers) ∧
      (final.2.filterMap TimingReply.ran).map TimingNode.id =
        final.2.filterMap TimingReply.finished ++ final.1.acting.toList.map TimingNode.id ∧
      final.1.ArmedInTime := by
  have hstart : Timed counter [] (new frequency) :=
    ⟨new_ok frequency, List.forall_mem_nil _, List.Perm.nil, rfl⟩
  have keeps : ∀ outs manager op moved, Timed counter outs manager → True →
      step counter manager op = some moved → Timed counter (outs ++ [moved.2]) moved.1 :=
    fun _ _ _ _ timed _ hstep => timed.step steady hstep
  have timed := runSteps_history keeps hstart (fun _ _ => trivial) hrun
  rw [List.nil_append] at timed
  exact ⟨timed.ok.sorted, timed.fair, timed.kept, timed.turns, timed.ok.armed⟩

/-- A counter that moves by 40 with every reading, for some time. -/
def walking (n : ℕ) : ℕ := 40 * min n 1000

theorem walking_steady : Steady walking where
  mono m n h := by
    unfold walking
    omega
  room n := by
    have hmax : maxTicks < 2 ^ 40 := by decide
    unfold walking
    omega

/-- Two timers; the action of the first one schedules another and asks to be called again, and that
of the second one does not. -/
def nested : List TimingOp :=
  [.scheduleCallback 100 true, .scheduleCallback 30 true, .trigger, .iterate,
    .scheduleCallback 20 true, .finish 500, .iterate, .finish (-1), .iterate, .finish 70, .iterate]

theorem run_timed_nested :
    ∃ final, runSteps (step walking) (new 1000000000) nested = some final ∧
      final.1.pendingTimers.Pairwise (·.nextTrigger ≤ ·.nextTrigger) ∧
      (∀ out ∈ final.2, out.Fair) ∧
      (final.2.filterMap TimingReply.queued).Perm
        (final.2.filterMap TimingReply.ran ++ final.1.pendingTimers) ∧
      (final.2.filterMap TimingReply.ran).map TimingNode.id =
        final.2.filterMap TimingReply.finished ++ final.1.acting.toList.map TimingNode.id ∧
      final.1.ArmedInTime := by
  have hcompletes : (runSteps (step walking) (new 1000000000) nested).isSome = true := by
    decide +kernel
  obtain ⟨final, hrun⟩ := Option.isSome_iff_exists.mp hcompletes
  exact ⟨final, hrun, run_timed walking_steady 1000000000 hrun⟩

/-- **The device is armed late** if the counter moves on before it gets to know: by its own reading,
by all that the manager has made, and with the operation estimate. -/
theorem run_timed_late :
    ∃ final front armed,
      runSteps (step walking) (new 1000000000) [.scheduleCallback 1000 true] = some final ∧
      final.1.pendingTimers.head? = some front ∧ final.1.armed = some armed ∧
      ∀ n ≤ final.1.reads,
        ¬ armed ≤ max front.nextTrigger (walking n + final.1.operationTicksEstimate) := by
  refine ⟨(⟨1000000000, [⟨0, 1000, 1000⟩], .idle, some 1040, 0, 40, 2, 1⟩,
    [.scheduled ⟨0, 1000, 1000⟩]), ⟨0, 1000, 1000⟩, 1040, by decide +kernel, rfl, rfl, ?_⟩
  decide +kernel

/-! ## The time since the start -/

/-- `nanoseconds_since_start`, at a reading of the counter. -/
def nanosecondsSinceStart (manager : TimingManager) (ticks : ℕ) : ℕ :=
  ticks * nanosecondsPerS % 2 ^ 64 / manager.frequency

/-- `GetTicks`: the program has the bits of the `long` as a `u64`. -/
def getTicks (manager : TimingManager) (ticks : ℕ) : ℕ :=
  (BitVec.ofInt 64 (toLong (manager.nanosecondsSinceStart ticks))).toNat

/-- The time is right at every reading up to this one. -/
structure TimeRight (manager : TimingManager) (ticks : ℕ) : Prop where
  exact : ∀ reading ≤ ticks,
    manager.nanosecondsSinceStart reading = reading * nanosecondsPerS / manager.frequency
  forward : ∀ reading later, reading ≤ later → later ≤ ticks →
    manager.getTicks reading ≤ manager.getTicks later

theorem nanosecondsSinceStart_lt (manager : TimingManager) (ticks : ℕ) :
    manager.nanosecondsSinceStart ticks < 2 ^ 64 :=
  (Nat.div_le_self _ _).trans_lt (Nat.mod_lt _ (by decide))

theorem getTicks_eq (manager : TimingManager) (ticks : ℕ) :
    manager.getTicks ticks = manager.nanosecondsSinceStart ticks := by
  unfold getTicks toLong
  rw [BitVec.ofInt_toInt, BitVec.toNat_ofNat]
  exact Nat.mod_eq_of_lt (manager.nanosecondsSinceStart_lt ticks)

/-- **The quotient is right** if the product has not wrapped around: whatever wraps is more than the
frequency. -/
theorem nanosecondsSinceStart_eq_iff {manager : TimingManager} (hpos : 0 < manager.frequency)
    (hmax : manager.frequency ≤ 2 ^ 64) (ticks : ℕ) :
    manager.nanosecondsSinceStart ticks = ticks * nanosecondsPerS / manager.frequency ↔
      ticks * nanosecondsPerS < 2 ^ 64 := by
  unfold nanosecondsSinceStart
  constructor
  · intro heq
    by_contra hwraps
    have hsplit := Nat.mod_add_div (ticks * nanosecondsPerS) (2 ^ 64)
    have hquotient : 1 ≤ ticks * nanosecondsPerS / 2 ^ 64 :=
      Nat.div_pos (Nat.le_of_not_lt hwraps) (by decide)
    have hmore : ticks * nanosecondsPerS % 2 ^ 64 + manager.frequency ≤
        ticks * nanosecondsPerS := by
      have := Nat.mul_le_mul_left (2 ^ 64) hquotient
      omega
    have hle := Nat.div_le_div_right (c := manager.frequency) hmore
    rw [Nat.add_div_right _ hpos, ← heq] at hle
    exact absurd hle (Nat.not_succ_le_self _)
  · intro hfits
    rw [Nat.mod_eq_of_lt hfits]

/-- **The time since the start** is right, and does not go back, as long as the product that it is
the quotient of has not wrapped around. -/
theorem timeRight_iff {manager : TimingManager} (hpos : 1 ≤ manager.frequency)
    (hmax : manager.frequency ≤ 10000000000) (ticks : ℕ) :
    manager.TimeRight ticks ↔ ticks * nanosecondsPerS < 2 ^ 64 := by
  have heq := nanosecondsSinceStart_eq_iff hpos (hmax.trans (by decide))
  constructor
  · exact fun right => (heq ticks).mp (right.exact ticks le_rfl)
  · intro hproduct
    have hbefore : ∀ reading ≤ ticks, manager.nanosecondsSinceStart reading =
        reading * nanosecondsPerS / manager.frequency := fun reading hle =>
      (heq reading).mpr ((Nat.mul_le_mul_right _ hle).trans_lt hproduct)
    refine ⟨hbefore, fun reading later hle hlater => ?_⟩
    rw [getTicks_eq, getTicks_eq, hbefore reading (hle.trans hlater), hbefore later hlater]
    exact Nat.div_le_div_right (Nat.mul_le_mul_right _ hle)

/-- Two minutes after the start, with a frequency of 62.5 MHz. -/
theorem timeRight_twoMinutes : (new 62500000).TimeRight 7500000000 :=
  (timeRight_iff (by decide) (by decide) _).mpr (by decide)

/-- After five minutes, four nanoseconds have passed. -/
theorem timeRight_fails : (new 62500000).nanosecondsSinceStart 18446744074 = 4 ∧
    18446744074 * nanosecondsPerS / 62500000 = 295147905184 ∧
    ¬ (new 62500000).TimeRight 18446744074 := by
  refine ⟨by decide, by decide, fun right => ?_⟩
  exact absurd (right.exact 18446744074 le_rfl) (by decide)

end TimingManager

end BekOS
