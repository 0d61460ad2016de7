import BekOS.Lib.PartialRun
import BekOS.Process.InterlinkReceive

/-!
# Runs of sends and receives

One direction of a connection, under any sends and receives of any processes.  None of
them is made to wait, as the system calls make them.
-/

namespace BekOS

open PartialRun

/-- A send or a receive: who makes it, as it is then, and with which buffer. -/
inductive QueueOp (σ : Type) where
  | send (sender : UserspaceState σ) (buffer : UserBuffer)
  | receive (receiver : UserspaceState σ) (buffer : UserBuffer)

/-- What it returns: of a send, the buffer as it was passed; of a receive, all that it has
changed. -/
inductive QueueReply (σ : Type) where
  | sent (buffer : UserBuffer) (result : Except ErrorCode ℕ)
  | received (receiving : Receiving σ) (result : Except ErrorCode ℕ)

section Calls

variable {σ : Type} (source : TableSource σ)

/-- A call on a queue. -/
def queueCall (queue : MessageQueue) : QueueOp σ → Except Halt (MessageQueue × QueueReply σ)
  | .send sender buffer =>
      (writeToQueue sender false ⟨buffer, queue⟩).map fun out =>
        (out.1.queue, .sent buffer out.2)
  | .receive receiver buffer =>
      (readFromQueue source false buffer queue receiver).map fun out =>
        (out.1.queue, .received out.1 out.2)

/-- A call that returns. -/
def queueStep (queue : MessageQueue) (op : QueueOp σ) : Option (MessageQueue × QueueReply σ) :=
  (queueCall source queue op).toOption

variable {source} {queue : MessageQueue}

theorem firstMessage_eq_taken {items : List QueuedMessage}
    (h : (firstMessage items).length < 0x100000000) : takenRecords items = firstMessage items := by
  unfold takenRecords
  rw [Nat.mod_eq_of_lt h, List.take_length]

/-- **A receive keeps the queue in order**, whatever it returns. -/
theorem readFromQueue_ok {blocking : Bool} {buffer : UserBuffer} {receiver : UserspaceState σ}
    {receiving : Receiving σ} {result : Except ErrorCode ℕ} (ok : queue.Ok)
    (h : readFromQueue source blocking buffer queue receiver = .ok (receiving, result)) :
    receiving.queue.Ok := by
  have hreceives := readFromQueue_receives source blocking buffer receiver ok
  rw [h] at hreceives
  cases hreceives with
  | empty none hblocking => exact ok
  | small some room => exact ok
  | delivered some room data contents all =>
      refine ⟨all.ok, all.size_eq.trans ok.size_eq, ?_⟩
      have hlength := congrArg List.length contents
      have hsplit := congrArg (fun records => (records.map QueuedMessage.dataSize).sum)
        (takenRecords_append queue.messageQueue.items)
      rw [List.map_append, List.sum_append] at hsplit
      rw [List.length_append, RingBuffer.length_contents, length_flatten_of_data data] at hlength
      have hpending := ok.pendingBytes_eq
      rw [← RingBuffer.length_contents, all.contents_eq, all.items_eq]
      omega

theorem queueStep_ok {op : QueueOp σ} {moved : MessageQueue × QueueReply σ} (ok : queue.Ok)
    (h : queueStep source queue op = some moved) : moved.1.Ok := by
  have hcall := toOption_eq_some.mp h
  cases op with
  | send sender buffer =>
      obtain ⟨out, hout, rfl⟩ := map_eq_ok.mp hcall
      exact writeToQueue_ok ok hout
  | receive receiver buffer =>
      obtain ⟨out, hout, rfl⟩ := map_eq_ok.mp hcall
      exact readFromQueue_ok ok hout

/-- **Every state of a connection** is in order. -/
theorem runQueue_ok {ops : List (QueueOp σ)} {final : MessageQueue × List (QueueReply σ)}
    (hrun : runSteps (queueStep source) .new ops = some final) : final.1.Ok :=
  runSteps_keeps (fun _ _ _ => queueStep_ok) MessageQueue.new_ok hrun

/-! ## Receives that fail -/

/-- **A receive that fails** has changed nothing, in any state of a connection. -/
theorem readFromQueue_error_unchanged {ops : List (QueueOp σ)}
    {final : MessageQueue × List (QueueReply σ)}
    (hrun : runSteps (queueStep source) .new ops = some final) {blocking : Bool}
    {buffer : UserBuffer} {receiver : UserspaceState σ} {receiving : Receiving σ}
    {code : ErrorCode}
    (h : readFromQueue source blocking buffer final.1 receiver = .ok (receiving, .error code)) :
    receiving.queue = final.1 ∧ receiving.receiver = receiver := by
  have hreceives := readFromQueue_receives source blocking buffer receiver (runQueue_ok hrun)
  rw [h] at hreceives
  cases hreceives with
  | empty none hblocking => exact ⟨rfl, rfl⟩
  | small some room => exact ⟨rfl, rfl⟩

end Calls

/-- A process without memory. -/
def UserspaceState.withHandles (openEntities : List LocalEntityHandle) :
    UserspaceState (List (Page × ℕ) × List (Page × ℕ)) :=
  ⟨openEntities, ⟨[], 1, .empty ([], [])⟩⟩

/-- A byte and a handle need 81 bytes of room, and there are 80. -/
theorem readFromQueue_error_unchanged_small : ∃ final receiving,
    runSteps (queueStep TableSource.pool) .new
        [.send (.withHandles [⟨some 4, 0⟩])
          (twoItems (.data 0 1) (.fd 0) fun _ bytes => bytes)] = some final ∧
      readFromQueue TableSource.pool false
          ⟨80, by decide, fun _ => 0, fun _ bytes => bytes, 0⟩ final.1
          (.withHandles []) = .ok (receiving, .error .EOVERFLOW) ∧
      receiving.queue = final.1 := by
  have hruns : (runSteps (queueStep TableSource.pool) .new
      [.send (.withHandles [⟨some 4, 0⟩])
        (twoItems (.data 0 1) (.fd 0) fun _ bytes => bytes)]).bind (fun final =>
      (readFromQueue TableSource.pool false
          ⟨80, by decide, fun _ => 0, fun _ bytes => bytes, 0⟩ final.1
          (.withHandles [])).toOption.map Prod.snd) =
      some (.error .EOVERFLOW) := rfl
  obtain ⟨final, hrun, hread⟩ := Option.bind_eq_some_iff.mp hruns
  obtain ⟨⟨receiving, result⟩, hout, hresult⟩ := Option.map_eq_some_iff.mp hread
  have hreads := toOption_eq_some.mp hout
  cases hresult
  exact ⟨final, receiving, hrun, hreads, (readFromQueue_error_unchanged hrun hreads).1⟩

end BekOS
