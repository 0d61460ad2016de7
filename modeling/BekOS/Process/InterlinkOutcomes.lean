import BekOS.Process.InterlinkSend

/-!
# How a send ends

The first pass over a message only reads: a send that it rejects changes nothing.  A send
that it accepts ends as the rounds of the second pass do, and those read the items again.
-/

namespace BekOS

/-! ## The first pass -/

/-- What `write_to_queue` does before it queues anything: the buffer after the reads, and
either an error or the header and the size of the data. -/
def firstPass (blocking : Bool) (sending : Sending) :
    UserBuffer × Except ErrorCode (MessageHeader × ℕ) :=
  let read := sending.buffer.readHeader
  match read.2 with
  | .error code => (read.1, .error code)
  | .ok header =>
      if header.totalSize > read.1.size then (read.1, .error .EINVAL)
      else if header.payloadItemCount * payloadItemSize > read.1.size then
        (read.1, .error .EINVAL)
      else
        let checked := checkItems header.payloadItemCount 0 0 read.1
        match checked.2 with
        | .error code => (checked.1, .error code)
        | .ok totalDataSize =>
            if sending.queue.binaryQueue.capacity < totalDataSize then
              (checked.1, .error .EOVERFLOW)
            else if sending.queue.binaryQueue.freeBytes < totalDataSize ∧ blocking = false then
              (checked.1, .error .EAGAIN)
            else (checked.1, .ok (header, totalDataSize))

/-- The rounds of the second pass over the items that a header announces. -/
def secondPass {σ : Type} (sender : UserspaceState σ) (blocking : Bool) (header : MessageHeader)
    (buffer : UserBuffer) (ring : RingBuffer) : List Round :=
  rounds sender blocking header.payloadItemCount 0 buffer ring

/-- The records of those rounds. -/
def MessageHeader.records (header : MessageHeader) (done : List Round) : List QueuedMessage :=
  ItemFate.records header.payloadItemCount header.messageId 0 done

section FirstPass

variable {σ : Type} {sender : UserspaceState σ} {blocking : Bool} {sending : Sending}
  {buffer buffer' : UserBuffer} {header : MessageHeader} {totalDataSize : ℕ}

theorem readHeader_eq_ok (h : buffer.readHeader = (buffer', .ok header)) :
    headerSize ≤ buffer.size ∧ buffer' = buffer.accessed ∧ header = .ofMemory
      (copyRange (fun _ => 0) 0 buffer.accessed.bytes 0 headerSize) := by
  unfold UserBuffer.readHeader UserBuffer.readTo at h
  by_cases hroom : u64 (headerSize + 0) > buffer.size
  · rw [if_pos hroom] at h
    cases h
  · rw [if_neg hroom] at h
    cases h
    exact ⟨Nat.not_lt.mp hroom, rfl, rfl⟩

/-- An item that passes the checks of the first pass. -/
def PayloadItem.Checked (size : ℕ) : PayloadItem → Prop
  | .data offset len => offset < size ∧ u64 (len + offset) ≤ size
  | .fd _ | .memory _ _ _ _ | .unknown _ => True

/-- The data of an item, as the first pass adds it up. -/
def PayloadItem.dataLen : PayloadItem → ℕ
  | .data _ len => len
  | .fd _ | .memory _ _ _ _ | .unknown _ => 0

theorem checkItems_succ_ok {remaining i total : ℕ} (htotal : total < 0x10000000000000000)
    (h : checkItems (remaining + 1) i total buffer = (buffer', .ok totalDataSize)) :
    buffer.HasItem i ∧ (buffer.accessed.item i).Checked buffer.size ∧
      checkItems remaining (i + 1) (u64 (total + (buffer.accessed.item i).dataLen))
        buffer.accessed = (buffer', .ok totalDataSize) := by
  rw [checkItems] at h
  by_cases hitem : buffer.HasItem i
  · rw [UserBuffer.readItem_eq hitem] at h
    refine ⟨hitem, ?_⟩
    have hnone : u64 (total + 0) = total := u64_of_lt htotal
    revert h
    dsimp only
    cases buffer.accessed.item i with
    | data offset len =>
        dsimp only
        by_cases hout : offset ≥ buffer.size ∨ u64 (len + offset) > buffer.size
        · rw [if_pos hout]
          exact nofun
        · rw [if_neg hout]
          rw [not_or, ge_iff_le, not_le, gt_iff_lt, not_lt] at hout
          exact fun h => ⟨hout, h⟩
    | fd fd => exact fun h => ⟨trivial, by rwa [← hnone] at h⟩
    | memory ptr size canRead canWrite => exact fun h => ⟨trivial, by rwa [← hnone] at h⟩
    | unknown kind => exact fun h => ⟨trivial, by rwa [← hnone] at h⟩
  · rw [UserBuffer.readItem_of_not hitem] at h
    cases h

/-- What the first pass has found out about the items when it accepts them. -/
structure ItemsChecked (i remaining total : ℕ) (buffer buffer' : UserBuffer)
    (totalDataSize : ℕ) : Prop where
  buffer_eq : buffer' = UserBuffer.accessed^[remaining] buffer
  hasItem : ∀ j < remaining, buffer.HasItem (i + j)
  checked : buffer.Private → ∀ j < remaining, (buffer.item (i + j)).Checked buffer.size
  total_eq : buffer.Private → totalDataSize =
    u64 (total + ((List.range' i remaining).map fun j => (buffer.item j).dataLen).sum)

theorem item_accessed (h : buffer.Private) (i : ℕ) : buffer.accessed.item i = buffer.item i := by
  unfold UserBuffer.item
  rw [h.accessed_bytes]

/-- **The loop of the first pass** checks every item. -/
theorem checkItems_ok {remaining : ℕ} :
    ∀ {i total : ℕ} {buffer : UserBuffer}, total < 0x10000000000000000 →
      checkItems remaining i total buffer = (buffer', .ok totalDataSize) →
      ItemsChecked i remaining total buffer buffer' totalDataSize := by
  induction remaining with
  | zero =>
      intro i total buffer htotal h
      rw [checkItems] at h
      cases h
      exact ⟨rfl, nofun, fun _ => nofun, fun _ => (u64_of_lt htotal).symm⟩
  | succ remaining ih =>
      intro i total buffer htotal h
      obtain ⟨hitem, hchecked, hrest⟩ := checkItems_succ_ok htotal h
      obtain ⟨hbuffer, hitems, hcheckeds, hsum⟩ := ih (u64_lt _) hrest
      refine ⟨hbuffer, fun j hj => ?_, fun hprivate j hj => ?_, fun hprivate => ?_⟩
      · cases j with
        | zero => exact hitem
        | succ j => exact (by omega : i + 1 + j = i + (j + 1)) ▸ hitems j (by omega)
      · cases j with
        | zero => exact item_accessed hprivate i ▸ hchecked
        | succ j =>
            have := hcheckeds (fun n => hprivate n) j (by omega)
            rw [item_accessed hprivate, show i + 1 + j = i + (j + 1) by omega] at this
            exact this
      · rw [hsum fun n => hprivate n, List.range'_succ, List.map_cons, List.sum_cons,
          item_accessed hprivate]
        have hsame : (fun j => (buffer.accessed.item j).dataLen) =
            fun j => (buffer.item j).dataLen :=
          funext fun j => congrArg PayloadItem.dataLen (item_accessed hprivate j)
        rw [hsame]
        unfold u64
        omega

/-- What the first pass has found out when it accepts a message. -/
structure Accepted (blocking : Bool) (sending : Sending) (buffer : UserBuffer)
    (header : MessageHeader) (totalDataSize : ℕ) : Prop where
  header_eq : header =
    .ofMemory (copyRange (fun _ => 0) 0 sending.buffer.accessed.bytes 0 headerSize)
  items : ItemsChecked 0 header.payloadItemCount 0 sending.buffer.accessed buffer totalDataSize
  capacity : totalDataSize ≤ sending.queue.binaryQueue.capacity
  fits : blocking = false → totalDataSize ≤ sending.queue.binaryQueue.freeBytes

theorem firstPass_ok (h : firstPass blocking sending = (buffer, .ok (header, totalDataSize))) :
    Accepted blocking sending buffer header totalDataSize := by
  unfold firstPass at h
  cases hread : sending.buffer.readHeader with
  | mk after result =>
    cases result with
    | error code =>
        rw [hread] at h
        cases h
    | ok read =>
        obtain ⟨-, rfl, hheader⟩ := readHeader_eq_ok hread
        rw [hread] at h
        dsimp only at h
        split_ifs at h
        · cases h
        · cases h
        · cases hchecked : checkItems read.payloadItemCount 0 0 sending.buffer.accessed with
          | mk checked result =>
            rw [hchecked] at h
            cases result with
            | error code => cases h
            | ok total =>
                dsimp only at h
                split_ifs at h with hcapacity hfull
                · cases h
                · cases h
                · cases h
                  exact ⟨hheader, checkItems_ok (by decide) hchecked, Nat.not_lt.mp hcapacity,
                    fun hblocking => Nat.not_lt.mp fun hlt => hfull ⟨hlt, hblocking⟩⟩

theorem writeToQueue_eq (sender : UserspaceState σ) (blocking : Bool) (sending : Sending) :
    writeToQueue sender blocking sending =
      expectedTry ({ sending with buffer := (firstPass blocking sending).1 },
          (firstPass blocking sending).2) fun sending passed =>
        enqueueItems sender blocking passed.1.payloadItemCount passed.1.messageId
            passed.1.payloadItemCount 0 sending >>= fun queued =>
          expectedTry queued fun sending _ => .ok (sending, .ok passed.2) := by
  unfold writeToQueue firstPass expectedTry
  cases hread : sending.buffer.readHeader with
  | mk after result =>
    cases result with
    | error code => rfl
    | ok header =>
        obtain ⟨-, rfl, -⟩ := readHeader_eq_ok hread
        dsimp only
        by_cases hsize : header.totalSize > sending.buffer.accessed.size
        · rw [if_pos hsize, if_pos hsize]
        rw [if_neg hsize, if_neg hsize]
        by_cases hitems : header.payloadItemCount * payloadItemSize > sending.buffer.accessed.size
        · rw [if_pos hitems, if_pos hitems]
        rw [if_neg hitems, if_neg hitems]
        cases hchecked : checkItems header.payloadItemCount 0 0 sending.buffer.accessed with
        | mk checked result =>
          cases result with
          | error code => rfl
          | ok total =>
              dsimp only
              by_cases hcapacity : sending.queue.binaryQueue.capacity < total
              · rw [if_pos hcapacity, if_pos hcapacity]
              rw [if_neg hcapacity, if_neg hcapacity]
              by_cases hfull : sending.queue.binaryQueue.freeBytes < total ∧ blocking = false
              · rw [if_pos hfull, if_pos hfull]
              · rw [if_neg hfull, if_neg hfull]

end FirstPass

/-! ## Both passes -/

/-- How a send can end. -/
inductive Sends {σ : Type} (sender : UserspaceState σ) (blocking : Bool) (sending : Sending) :
    Except Halt (Sending × Except ErrorCode ℕ) → Prop
  | rejected {buffer : UserBuffer} {code : ErrorCode}
      (first : firstPass blocking sending = (buffer, .error code)) :
      Sends sender blocking sending (.ok ({ sending with buffer := buffer }, .error code))
  | halted {buffer : UserBuffer} {header : MessageHeader} {totalDataSize : ℕ} {halt : Halt}
      (first : firstPass blocking sending = (buffer, .ok (header, totalDataSize)))
      (second : ItemFate.ending
        (secondPass sender blocking header buffer sending.queue.binaryQueue) = .error halt) :
      Sends sender blocking sending (.error halt)
  | refused {buffer : UserBuffer} {header : MessageHeader} {totalDataSize : ℕ}
      {code : ErrorCode} {sending' : Sending}
      (first : firstPass blocking sending = (buffer, .ok (header, totalDataSize)))
      (second : ItemFate.ending
        (secondPass sender blocking header buffer sending.queue.binaryQueue) = .ok (.error code))
      (queued : QueuedAll { sending with buffer := buffer }
        (secondPass sender blocking header buffer sending.queue.binaryQueue)
        (header.records (secondPass sender blocking header buffer sending.queue.binaryQueue))
        sending') :
      Sends sender blocking sending (.ok (sending', .error code))
  | sent {buffer : UserBuffer} {header : MessageHeader} {totalDataSize : ℕ} {sending' : Sending}
      (first : firstPass blocking sending = (buffer, .ok (header, totalDataSize)))
      (second : ItemFate.ending
        (secondPass sender blocking header buffer sending.queue.binaryQueue) = .ok (.ok ()))
      (queued : QueuedAll { sending with buffer := buffer }
        (secondPass sender blocking header buffer sending.queue.binaryQueue)
        (header.records (secondPass sender blocking header buffer sending.queue.binaryQueue))
        sending') :
      Sends sender blocking sending (.ok (sending', .ok totalDataSize))

section Sends

variable {σ : Type} {sender : UserspaceState σ} {blocking : Bool} {sending : Sending}

theorem UserBuffer.HasItem.iterate {buffer : UserBuffer} {i : ℕ} (h : buffer.HasItem i) (n : ℕ) :
    (accessed^[n] buffer).HasItem i := by
  unfold HasItem
  rwa [size_iterate_accessed]

/-- **A send** ends in one of these ways. -/
theorem writeToQueue_sends (sender : UserspaceState σ) (blocking : Bool)
    (ok : sending.queue.binaryQueue.Ok) :
    Sends sender blocking sending (writeToQueue sender blocking sending) := by
  rw [writeToQueue_eq]
  cases hfirst : firstPass blocking sending with
  | mk buffer result =>
    cases result with
    | error code => exact Sends.rejected hfirst
    | ok passed =>
        obtain ⟨header, totalDataSize⟩ := passed
        have haccepted := firstPass_ok hfirst
        have hspec := @enqueueItems_spec _ sender blocking header.payloadItemCount
          header.messageId header.payloadItemCount 0 { sending with buffer := buffer } ok fun j hj => by
            rw [haccepted.items.buffer_eq]
            exact (haccepted.items.hasItem j hj).iterate _
        unfold expectedTry
        dsimp only
        unfold EndsAs at hspec
        cases hending : ItemFate.ending
            (secondPass sender blocking header buffer sending.queue.binaryQueue) with
        | error halt =>
            rw [show ItemFate.ending (rounds _ _ _ _ _ _) = _ from hending] at hspec
            dsimp only at hspec
            rw [hspec]
            exact Sends.halted hfirst hending
        | ok result =>
            rw [show ItemFate.ending (rounds _ _ _ _ _ _) = _ from hending] at hspec
            obtain ⟨sending', hout, hqueued⟩ := hspec
            rw [hout]
            cases result with
            | error code => exact Sends.refused hfirst hending hqueued
            | ok done => exact Sends.sent hfirst hending hqueued

end Sends

/-! ## What holds of a queue -/

namespace MessageQueue

/-- The data in the ring is that of the records. -/
structure Ok (queue : MessageQueue) : Prop where
  ring : queue.binaryQueue.Ok
  size_eq : queue.binaryQueue.size = interlinkDefaultRingbufferSize
  pendingBytes_eq : queue.binaryQueue.pendingBytes =
    (queue.messageQueue.items.map QueuedMessage.dataSize).sum

theorem new_ok : new.Ok := ⟨RingBuffer.new_ok (by decide), rfl, rfl⟩

end MessageQueue

theorem QueuedAll.queue_ok {sending sending' : Sending} {done : List Round}
    {records : List QueuedMessage} (h : QueuedAll sending done records sending')
    (ok : sending.queue.Ok) : sending'.queue.Ok := by
  obtain ⟨bytes, hlength, hcontents, -⟩ := h.contents_eq
  refine ⟨h.ok, h.size_eq.trans ok.size_eq, ?_⟩
  rw [← RingBuffer.length_contents, hcontents, List.length_append, RingBuffer.length_contents,
    ok.pendingBytes_eq, hlength, h.items_eq, List.map_append, List.sum_append]

/-- **A send keeps the queue in order**, whatever it returns. -/
theorem writeToQueue_ok {σ : Type} {sender : UserspaceState σ} {blocking : Bool}
    {sending sending' : Sending} {result : Except ErrorCode ℕ} (ok : sending.queue.Ok)
    (h : writeToQueue sender blocking sending = .ok (sending', result)) : sending'.queue.Ok := by
  have hsends := writeToQueue_sends sender blocking ok.ring
  rw [h] at hsends
  cases hsends with
  | rejected first => exact ok
  | refused first second queued => exact queued.queue_ok ok
  | sent first second queued => exact queued.queue_ok ok

/-! ## A sample message -/

/-- The bytes of a message with no more than its header and its items. -/
def messageMemory (header : MessageHeader) (items : List PayloadItem) : Memory Byte := fun i =>
  if i < headerSize then header.toMemory i
  else
    match items[(i - headerSize) / payloadItemSize]? with
    | some item => item.toMemory ((i - headerSize) % payloadItemSize)
    | none => 0

/-- A buffer of 80 bytes, which is room for two items. -/
def twoItems (first second : PayloadItem) (others : ℕ → Memory Byte → Memory Byte) :
    UserBuffer where
  size := 80
  size_lt := by decide
  bytes := messageMemory ⟨80, 2, 7⟩ [first, second]
  others := others
  accesses := 0

/-- A process without handles or memory. -/
def UserspaceState.bare : UserspaceState Unit := ⟨[], ⟨[], 1, .empty ()⟩⟩

end BekOS
