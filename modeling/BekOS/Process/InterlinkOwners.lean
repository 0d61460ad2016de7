import BekOS.Process.InterlinkErrors
import BekOS.Process.InterlinkRuns

/-!
# Who holds what is passed

A handle or a piece of memory that is passed is held by its record until a receive takes
it.  The destructor of a record accepts data only, so that a record of anything else can be
queued and moved, but neither received nor torn down.
-/

namespace BekOS

open PartialRun

/-- What a record can hold. -/
inductive Reference where
  | entity (entityHandle : ℕ)
  | memory (region : BackingRegion)
  deriving DecidableEq

/-- What a record holds. -/
def QueuedContent.reference : QueuedContent → Option Reference
  | .data _ => none
  | .entity entityHandle => some (.entity entityHandle)
  | .memory region _ => some (.memory region)

/-- What the records of a queue hold. -/
def references (items : List QueuedMessage) : List Reference :=
  items.filterMap fun item => item.content.reference

/-- What an item passes. -/
def ItemFate.reference : ItemFate → Option Reference
  | .queued content => content.reference
  | .skipped | .refused _ | .halted _ => none

/-- What a call passes, in order. -/
def QueueOp.passes {σ : Type} (queue : MessageQueue) : QueueOp σ → List Reference
  | .send sender buffer =>
      match firstPass false ⟨buffer, queue⟩ with
      | (after, .ok (header, _)) =>
          (secondPass sender false header after queue.binaryQueue).filterMap
            fun round => round.2.reference
      | (_, .error _) => []
  | .receive _ _ => []

/-- Where the call is a receive with room for the message, that message is data. -/
def QueueOp.TakesData {σ : Type} (queue : MessageQueue) : QueueOp σ → Prop
  | .send _ _ => True
  | .receive _ buffer => requiredSize queue.messageQueue.items ≤ buffer.size →
      ∀ record ∈ takenRecords queue.messageQueue.items, record.isData = true

section Owners

variable {σ : Type} {source : TableSource σ} {queue : MessageQueue} {count messageId : ℕ}

theorem references_append (items later : List QueuedMessage) :
    references (items ++ later) = references items ++ references later :=
  List.filterMap_append

theorem references_data {items : List QueuedMessage}
    (h : ∀ record ∈ items, record.isData = true) : references items = [] := by
  refine List.filterMap_eq_nil_iff.mpr fun record hrecord => ?_
  have hdata := h record hrecord
  unfold QueuedMessage.isData at hdata
  cases hcontent : record.content with
  | data size => rfl
  | entity handle =>
      rw [hcontent] at hdata
      cases hdata
  | memory region permissions =>
      rw [hcontent] at hdata
      cases hdata

theorem StopsLast.references_records {done : List Round} (h : StopsLast done) {i : ℕ} :
    references (ItemFate.records count messageId i done) =
      done.filterMap fun round => round.2.reference := by
  induction h generalizing i with
  | nil => rfl
  | @queued item content later rest ih =>
      rw [ItemFate.records, filterMap_cons_toList, ← ih (i := i + 1)]
      exact filterMap_cons_toList _ _ _
  | skipped _ ih => exact ih
  | refused => rfl
  | halted => rfl

theorem writeToQueue_ne_notData {sender : UserspaceState σ} {blocking : Bool} {sending : Sending}
    (ok : sending.queue.Ok) : writeToQueue sender blocking sending ≠ .error .notData := by
  intro h
  have hsends := writeToQueue_sends sender blocking ok.ring
  rw [h] at hsends
  cases hsends with
  | halted first second =>
      obtain ⟨item, hround⟩ := (rounds_stopsLast _ _ _ _).ending_eq_error.mp second
      obtain ⟨ring', hfate⟩ := fate_of_mem_rounds _ hround
      rcases itemFate_eq_halted hfate.symm with hspin | hbounds
      · cases hspin
      · cases hfate.trans (itemFate_of_not_inBounds hbounds)

theorem send_references {sender : UserspaceState σ} {buffer : UserBuffer}
    {moved : MessageQueue × QueueReply σ} (ok : queue.Ok)
    (h : queueCall source queue (.send sender buffer) = .ok moved) :
    references moved.1.messageQueue.items =
      references queue.messageQueue.items ++ (QueueOp.send sender buffer).passes queue := by
  obtain ⟨⟨sending', result⟩, hout, rfl⟩ := map_eq_ok.mp h
  have hsends := @writeToQueue_sends _ ⟨buffer, queue⟩ sender false ok.ring
  have hqueued : ∀ {after header totalDataSize},
      firstPass false ⟨buffer, queue⟩ = (after, .ok (header, totalDataSize)) →
      sending'.queue.messageQueue.items = queue.messageQueue.items ++
        header.records (secondPass sender false header after queue.binaryQueue) →
      references sending'.queue.messageQueue.items =
        references queue.messageQueue.items ++ (QueueOp.send sender buffer).passes queue := by
    intro after header totalDataSize first hitems
    have hpasses : (QueueOp.send sender buffer).passes queue =
        (secondPass sender false header after queue.binaryQueue).filterMap
          fun round => round.2.reference := by
      unfold QueueOp.passes
      dsimp only
      rw [first]
    rw [hitems, references_append, hpasses]
    exact congrArg (_ ++ ·) (rounds_stopsLast _ _ _ _).references_records
  rw [hout] at hsends
  cases hsends with
  | @rejected after code first =>
      have hpasses : (QueueOp.send sender buffer).passes queue = [] := by
        unfold QueueOp.passes
        dsimp only
        rw [first]
      rw [hpasses, List.append_nil]
  | refused first second queued => exact hqueued first queued.items_eq
  | sent first second queued => exact hqueued first queued.items_eq

theorem receive_references {receiver : UserspaceState σ} {buffer : UserBuffer}
    {receiving : Receiving σ} {result : Except ErrorCode ℕ} (ok : queue.Ok)
    (takesData : (QueueOp.receive receiver buffer).TakesData queue)
    (h : readFromQueue source false buffer queue receiver = .ok (receiving, result)) :
    references receiving.queue.messageQueue.items = references queue.messageQueue.items ∧
      receiving.receiver = receiver := by
  have hreceives := readFromQueue_receives source false buffer receiver ok
  rw [h] at hreceives
  cases hreceives with
  | empty none hblocking => exact ⟨rfl, rfl⟩
  | small some room => exact ⟨rfl, rfl⟩
  | delivered some room data contents all =>
      refine ⟨?_, all.receiver_eq⟩
      rw [all.items_eq]
      conv_rhs => rw [← takenRecords_append queue.messageQueue.items]
      rw [references_append, references_data (takesData room), List.nil_append]

theorem receive_ne_notData {receiver : UserspaceState σ} {buffer : UserBuffer} (ok : queue.Ok)
    (takesData : (QueueOp.receive receiver buffer).TakesData queue) :
    readFromQueue source false buffer queue receiver ≠ .error .notData := by
  intro h
  have hreceives := readFromQueue_receives source false buffer receiver ok
  rw [h] at hreceives
  cases hreceives with
  | stopped some room stops =>
      obtain ⟨record, hrecord, hdata⟩ := stops
      cases hdata.symm.trans (takesData room record hrecord)

/-! ## Runs -/

/-- A call that returns, with what it passes. -/
def ownerStep (source : TableSource σ) (queue : MessageQueue) (op : QueueOp σ) :
    Option (MessageQueue × List Reference) :=
  (queueStep source queue op).map fun moved => (moved.1, op.passes queue)

theorem runOwners_references {ops : List (QueueOp σ)} :
    ∀ {queue : MessageQueue} {final : MessageQueue × List (List Reference)}, queue.Ok →
      StepsMeet (ownerStep source) (fun queue op => op.TakesData queue) queue ops →
      runSteps (ownerStep source) queue ops = some final →
      final.1.Ok ∧ references final.1.messageQueue.items =
        references queue.messageQueue.items ++ final.2.flatten := by
  induction ops with
  | nil =>
      intro queue final ok _ hrun
      cases hrun
      exact ⟨ok, (List.append_nil _).symm⟩
  | cons op ops ih =>
      intro queue final ok hmeets hrun
      obtain ⟨moved, tail, hstep, hrest, rfl⟩ := runSteps_cons_eq_some hrun
      obtain ⟨takesData, hmeets⟩ := hmeets
      have hmeets' := hmeets moved hstep
      obtain ⟨out, hout, rfl⟩ := Option.map_eq_some_iff.mp hstep
      obtain ⟨ok', hreferences⟩ := ih (queueStep_ok ok hout) hmeets' hrest
      refine ⟨ok', hreferences.trans ?_⟩
      rw [List.flatten_cons, ← List.append_assoc]
      refine congrArg (· ++ _) ?_
      have hcall := toOption_eq_some.mp hout
      cases op with
      | send sender buffer => exact send_references ok hcall
      | receive receiver buffer =>
          obtain ⟨⟨receiving, result⟩, hread, rfl⟩ := map_eq_ok.mp hcall
          exact (receive_references ok takesData hread).1.trans (List.append_nil _).symm

/-- **Records are destroyed as data**, and what is passed is held once, in every run in which
no receive takes a message with anything but data: what has been passed is what the queue
holds, neither more nor less, and the receivers hold none of it; no call destroys a record
that is not data, and the queue can be torn down when all its records are. -/
theorem runOwners_hold (source : TableSource σ) {ops : List (QueueOp σ)}
    (takesData : StepsMeet (ownerStep source) (fun queue op => op.TakesData queue) .new ops)
    (n : ℕ) {final : MessageQueue × List (List Reference)}
    (hrun : runSteps (ownerStep source) .new (ops.take n) = some final) :
    references final.1.messageQueue.items = final.2.flatten ∧
      (∀ op, ops[n]? = some op → queueCall source final.1 op ≠ .error .notData) ∧
      (∀ receiver buffer receiving result, ops[n]? = some (.receive receiver buffer) →
        readFromQueue source false buffer final.1 receiver = .ok (receiving, result) →
        receiving.receiver = receiver) ∧
      (final.1.messageQueue.destroy = .ok () ↔
        ∀ record ∈ final.1.messageQueue.items, record.isData = true) := by
  obtain ⟨ok, hreferences⟩ := runOwners_references MessageQueue.new_ok (takesData.take n) hrun
  refine ⟨hreferences, fun op hop h => ?_, fun receiver buffer receiving result hop hread => ?_,
    MessageVector.destroyAll_eq_ok⟩
  · have htakes := takesData.at hrun hop
    cases op with
    | send sender buffer => exact writeToQueue_ne_notData ok (map_eq_error.mp h)
    | receive receiver buffer => exact receive_ne_notData ok htakes (map_eq_error.mp h)
  · exact (receive_references ok (takesData.at hrun hop) hread).2

end Owners

/-- A byte and a handle are sent. -/
def sendHandle : List (QueueOp (List (Page × ℕ) × List (Page × ℕ))) :=
  [.send (.withHandles [⟨some 4, 0⟩]) (twoItems (.data 0 1) (.fd 0) fun _ bytes => bytes)]

/-- The handle is held by its record. -/
theorem runOwners_hold_sendHandle :
    ∃ final, runSteps (ownerStep TableSource.pool) .new sendHandle = some final ∧
      references final.1.messageQueue.items = [.entity 4] := by
  have hruns : (runSteps (ownerStep TableSource.pool) .new sendHandle).map
      (fun final => final.2.flatten) = some [.entity 4] := rfl
  obtain ⟨final, hrun, hpassed⟩ := Option.map_eq_some_iff.mp hruns
  have takesData : StepsMeet (ownerStep TableSource.pool) (fun queue op => op.TakesData queue) .new
      sendHandle := ⟨trivial, fun _ _ => trivial⟩
  exact ⟨final, hrun, (runOwners_hold TableSource.pool takesData 1 hrun).1.trans hpassed⟩

/-- The handle can neither be received nor be torn down. -/
theorem runOwners_fails :
    ∃ final, runSteps (ownerStep TableSource.pool) .new sendHandle = some final ∧
      queueCall TableSource.pool final.1
          (.receive (.withHandles []) ⟨200, by decide, fun _ => 0, fun _ bytes => bytes, 0⟩) =
        .error .notData ∧
      final.1.messageQueue.destroy = .error .notData :=
  ⟨_, rfl, rfl, rfl⟩

end BekOS
