import BekOS.Process.InterlinkRuns

/-!
# Messages of data, first in first out

One direction of a connection, used for messages that are all data, is a queue of
messages: what a receive delivers is what was sent, in the same order.  The records and
the ring wrap around apart from each other, and `Represents` is what keeps them together.
-/

namespace BekOS

open PartialRun

/-- A message of data. -/
structure Message where
  messageId : ℕ
  items : List (List Byte)
  deriving DecidableEq

/-- The message in a buffer, where its items are all data in the buffer. -/
def UserBuffer.message (buffer : UserBuffer) : Option Message :=
  (buffer.dataItems buffer.header.payloadItemCount 0).map fun items =>
    ⟨buffer.header.messageId, items⟩

/-- The records of some data. -/
def dataRecords (count messageId : ℕ) : ℕ → List (List Byte) → List QueuedMessage
  | _, [] => []
  | i, bytes :: rest =>
      ⟨.data bytes.length, i + 1 == count, messageId⟩ :: dataRecords count messageId (i + 1) rest

/-- The records of a message. -/
def Message.records (message : Message) : List QueuedMessage :=
  dataRecords message.items.length message.messageId 0 message.items

/-! ## Sending data -/

section Send

variable {σ : Type} {sender : UserspaceState σ} {blocking : Bool} {count messageId : ℕ}
  {buffer buffer' : UserBuffer} {i : ℕ} {items : List (List Byte)}

theorem dataItem_congr (hbytes : buffer'.bytes = buffer.bytes) (hsize : buffer'.size = buffer.size)
    (i : ℕ) : buffer'.dataItem i = buffer.dataItem i := by
  unfold UserBuffer.dataItem UserBuffer.item
  rw [hbytes, hsize]

theorem dataItems_congr (hbytes : buffer'.bytes = buffer.bytes)
    (hsize : buffer'.size = buffer.size) (remaining : ℕ) :
    ∀ i, buffer'.dataItems remaining i = buffer.dataItems remaining i := by
  induction remaining with
  | zero => exact fun _ => rfl
  | succ remaining ih =>
      intro i
      rw [UserBuffer.dataItems, UserBuffer.dataItems, dataItem_congr hbytes hsize, ih]

theorem dataItem_eq_some {bytes : List Byte} (h : buffer.dataItem i = some bytes) :
    ∃ offset len, buffer.item i = .data offset len ∧ offset + len ≤ buffer.size ∧
      bytes = slice buffer.bytes offset len := by
  unfold UserBuffer.dataItem at h
  cases hitem : buffer.item i with
  | data offset len =>
      rw [hitem] at h
      dsimp only at h
      split_ifs at h with hend
      cases h
      exact ⟨offset, len, rfl, hend, rfl⟩
  | fd fd =>
      rw [hitem] at h
      cases h
  | memory ptr size canRead canWrite =>
      rw [hitem] at h
      cases h
  | unknown kind =>
      rw [hitem] at h
      cases h

theorem sum_dataLen {remaining : ℕ} :
    ∀ {i : ℕ} {items : List (List Byte)}, buffer.dataItems remaining i = some items →
      ((List.range' i remaining).map fun j => (buffer.item j).dataLen).sum =
        items.flatten.length := by
  induction remaining with
  | zero =>
      intro i items h
      cases h
      rfl
  | succ remaining ih =>
      intro i items h
      obtain ⟨first, rest, hfirst, hrest, rfl⟩ := UserBuffer.dataItems_succ_eq_some.mp h
      obtain ⟨offset, len, hitem, -, rfl⟩ := dataItem_eq_some hfirst
      rw [List.range'_succ, List.map_cons, List.sum_cons, ih hrest, hitem, List.flatten_cons,
        List.length_append, length_slice]
      rfl

theorem itemFate_data {size offset len : ℕ} {ring : RingBuffer}
    (hsize : size < 0x10000000000000000) (hend : offset + len ≤ size)
    (hfits : len ≤ ring.freeBytes) :
    itemFate sender blocking size ring (.data offset len) = .queued (.data len) := by
  have hfirst : ring.firstPiece len ≤ len := min_le_right _ _
  unfold itemFate
  dsimp only
  rw [if_neg (not_not_intro ⟨by omega, by rw [u64_of_lt (by omega)]; exact hend⟩),
    if_neg (Nat.not_lt.mpr hfits), if_neg]
  rw [u64_of_lt (by omega)]
  omega

/-- **The rounds of a send of data** for which there is room. -/
theorem rounds_data (remaining : ℕ) :
    ∀ {i : ℕ} {buffer : UserBuffer} {ring : RingBuffer} {items : List (List Byte)},
      buffer.Private → ring.Ok → buffer.dataItems remaining i = some items →
      items.flatten.length ≤ ring.freeBytes →
      ItemFate.ending (rounds sender blocking remaining i buffer ring) = .ok (.ok ()) ∧
        ItemFate.records count messageId i (rounds sender blocking remaining i buffer ring) =
          dataRecords count messageId i items ∧
        ItemFate.queuedBytes buffer.bytes (rounds sender blocking remaining i buffer ring) =
          items.flatten ∧
        ∀ round ∈ rounds sender blocking remaining i buffer ring, round.1.Within buffer.size := by
  induction remaining with
  | zero =>
      intro i buffer ring items _ _ h _
      cases h
      exact ⟨rfl, rfl, rfl, nofun⟩
  | succ remaining ih =>
      intro i buffer ring items hprivate ok h hfits
      obtain ⟨first, rest, hfirst, hrest, rfl⟩ := UserBuffer.dataItems_succ_eq_some.mp h
      obtain ⟨offset, len, hitem, hend, rfl⟩ := dataItem_eq_some hfirst
      rw [List.flatten_cons, List.length_append, length_slice] at hfits
      obtain ⟨ok', hfree'⟩ := ok.movedOn (n := len) (by omega)
      obtain ⟨hprivate', hbytes'⟩ := @private_bufferAfter (.data len) ring
        buffer.accessed fun n => hprivate n
      rw [hprivate.accessed_bytes] at hbytes'
      have hsize' : (QueuedContent.bufferAfter ring buffer.accessed (.data len)).size =
          buffer.size := size_bufferAfter _ _ _
      have hlater := @ih (i + 1)
        (QueuedContent.bufferAfter ring buffer.accessed (.data len)) (ring.movedOn len) rest
        hprivate' ok' ((dataItems_congr hbytes' hsize' remaining _).trans hrest) (by omega)
      rw [hbytes', hsize'] at hlater
      obtain ⟨hending, hrecords, hqueued, hwithin⟩ := hlater
      rw [rounds, item_accessed hprivate, hitem,
        itemFate_data buffer.size_lt hend (by omega)]
      refine ⟨hending, ?_, ?_, List.forall_mem_cons.mpr ⟨hend, hwithin⟩⟩
      · show _ :: ItemFate.records count messageId (i + 1) (rounds _ _ _ _ _ (ring.movedOn len)) = _
        rw [hrecords, dataRecords, length_slice]
      · show _ ++ ItemFate.queuedBytes buffer.bytes (rounds _ _ _ _ _ (ring.movedOn len)) = _
        rw [hqueued]
        rfl

end Send

/-! ## The queue of messages -/

/-- A message that can be sent: it has items, and its numbers fit their fields. -/
structure Message.Sendable (message : Message) : Prop where
  nonempty : message.items ≠ []
  count_lt : message.items.length < 0x100000000
  messageId_lt : message.messageId < 0x100000000

/-- The queue and the ring hold some messages. -/
structure Represents (queue : MessageQueue) (messages : List Message) : Prop where
  ok : queue.Ok
  items_eq : queue.messageQueue.items = (messages.map Message.records).flatten
  contents_eq : queue.binaryQueue.contents =
    (messages.map fun message => message.items.flatten).flatten
  sendable : ∀ message ∈ messages, message.Sendable

theorem represents_new : Represents .new [] := ⟨MessageQueue.new_ok, rfl, rfl, nofun⟩

section Records

variable {count messageId i : ℕ} {items : List (List Byte)}

theorem content_dataRecords :
    (dataRecords count messageId i items).map QueuedMessage.content =
      items.map fun bytes => .data bytes.length := by
  induction items generalizing i with
  | nil => rfl
  | cons bytes items ih => exact congrArg (_ :: ·) ih

theorem length_dataRecords : (dataRecords count messageId i items).length = items.length := by
  have hlength := congrArg List.length (@content_dataRecords count messageId i items)
  rwa [List.length_map, List.length_map] at hlength

theorem messageId_of_mem_dataRecords {record : QueuedMessage}
    (h : record ∈ dataRecords count messageId i items) : record.messageId = messageId := by
  induction items generalizing i with
  | nil => cases h
  | cons bytes items ih =>
      rcases List.mem_cons.mp h with rfl | hlater
      · rfl
      · exact ih hlater

theorem oneMessage_dataRecords (hne : items ≠ []) (hcount : i + items.length = count) :
    OneMessage (dataRecords count messageId i items) := by
  induction items generalizing i with
  | nil => exact absurd rfl hne
  | cons bytes items ih =>
      rcases items with _ | ⟨next, items⟩
      · exact ⟨[], _, rfl, nofun, beq_iff_eq.mpr hcount⟩
      · rw [List.length_cons, ← Nat.add_assoc, Nat.add_right_comm] at hcount
        obtain ⟨init, last, hrecords, hinit, hlast⟩ := ih nofun hcount
        have hfinal : (i + 1 == count) = false := by
          rw [beq_eq_false_iff_ne, ← hcount, List.length_cons]
          omega
        refine ⟨⟨.data bytes.length, i + 1 == count, messageId⟩ :: init, last, ?_,
          List.forall_mem_cons.mpr ⟨hfinal, hinit⟩, hlast⟩
        rw [dataRecords, hrecords]
        rfl

theorem Message.Sendable.oneMessage {message : Message} (h : message.Sendable) :
    OneMessage message.records :=
  oneMessage_dataRecords h.nonempty (Nat.zero_add _)

end Records

/-! ## One call -/

/-- A send of a message of data that the ring can hold, or a receive; nobody else writes to
the buffer. -/
def QueueOp.OfData {σ : Type} : QueueOp σ → Prop
  | .send _ buffer => buffer.Private ∧ ∃ message ∈ buffer.message,
      message.items ≠ [] ∧ message.items.flatten.length ≤ interlinkDefaultRingbufferSize
  | .receive _ buffer => buffer.Private

namespace QueueReply

variable {σ : Type}

/-- The buffer of a send that succeeded. -/
def sentBuffer : QueueReply σ → Option UserBuffer
  | .sent buffer (.ok _) => some buffer
  | .sent _ (.error _) | .received _ _ => none

/-- The buffer of a receive that succeeded. -/
def receivedBuffer : QueueReply σ → Option UserBuffer
  | .received receiving (.ok _) => some receiving.buffer
  | .received _ (.error _) | .sent _ _ => none

/-- The call failed. -/
def failed : QueueReply σ → Bool
  | .sent _ (.error _) | .received _ (.error _) => true
  | .sent _ (.ok _) | .received _ (.ok _) => false

end QueueReply

section Calls

variable {σ : Type} {source : TableSource σ} {queue : MessageQueue} {messages : List Message}

/-- The messages before and after a call: those sent go in behind, those received come out
in front, and a call that fails changes nothing. -/
structure Moves (queue : MessageQueue) (messages : List Message)
    (moved : MessageQueue × QueueReply σ) (messages' : List Message) : Prop where
  represents : Represents moved.1 messages'
  conserved : messages.map some ++ moved.2.sentBuffer.toList.map UserBuffer.message =
    moved.2.receivedBuffer.toList.map UserBuffer.message ++ messages'.map some
  unchanged : moved.2.failed = true → moved.1 = queue

theorem length_dataItems {buffer : UserBuffer} {remaining : ℕ} :
    ∀ {i : ℕ} {items : List (List Byte)}, buffer.dataItems remaining i = some items →
      items.length = remaining := by
  induction remaining with
  | zero =>
      intro i items h
      cases h
      rfl
  | succ remaining ih =>
      intro i items h
      obtain ⟨first, rest, -, hrest, rfl⟩ := UserBuffer.dataItems_succ_eq_some.mp h
      rw [List.length_cons, ih hrest]

/-- What a send that the first pass accepts has to queue. -/
structure SendsMessage (buffer : UserBuffer) (items : List (List Byte)) (header : MessageHeader)
    (after : UserBuffer) (done : List Round) : Prop where
  isPrivate : after.Private
  bytes_eq : after.bytes = buffer.bytes
  ending_eq : ItemFate.ending done = .ok (.ok ())
  records_eq : header.records done = (⟨buffer.header.messageId, items⟩ : Message).records
  queuedBytes_eq : ItemFate.queuedBytes after.bytes done = items.flatten
  within : ∀ round ∈ done, round.1.Within after.size

/-- **The two passes** over a message of data agree. -/
theorem firstPass_data {sender : UserspaceState σ} {buffer after : UserBuffer}
    {items : List (List Byte)} {header : MessageHeader} {totalDataSize : ℕ} (ok : queue.Ok)
    (hprivate : buffer.Private)
    (hitems : buffer.dataItems buffer.header.payloadItemCount 0 = some items)
    (hfits : items.flatten.length ≤ interlinkDefaultRingbufferSize)
    (first : firstPass false ⟨buffer, queue⟩ = (after, .ok (header, totalDataSize))) :
    SendsMessage buffer items header after
      (secondPass sender false header after queue.binaryQueue) := by
  have haccepted := firstPass_ok first
  have hheader : header = buffer.header := by
    rw [haccepted.header_eq]
    show MessageHeader.ofMemory (copyRange _ 0 buffer.accessed.bytes 0 headerSize) = _
    rw [hprivate.accessed_bytes]
    rfl
  subst hheader
  obtain ⟨hprivate', hbytes⟩ := @UserBuffer.Private.iterate_accessed
    buffer.accessed (fun n => hprivate n) buffer.header.payloadItemCount
  have hsize := UserBuffer.size_iterate_accessed buffer.accessed buffer.header.payloadItemCount
  rw [← haccepted.items.buffer_eq] at hprivate' hbytes hsize
  rw [hprivate.accessed_bytes] at hbytes
  have haccessed := (dataItems_congr hprivate.accessed_bytes rfl
    buffer.header.payloadItemCount 0).trans hitems
  have htotal := haccepted.items.total_eq fun n => hprivate n
  have hsmall : items.flatten.length < 0x10000000000000000 :=
    hfits.trans_lt (by decide)
  rw [sum_dataLen haccessed, Nat.zero_add, u64_of_lt hsmall] at htotal
  have hroom := haccepted.fits rfl
  rw [htotal] at hroom
  obtain ⟨hending, hrecords, hqueued, hwithin⟩ := @rounds_data _ sender false
    buffer.header.payloadItemCount buffer.header.messageId buffer.header.payloadItemCount 0
    _ _ _ hprivate' ok.ring ((dataItems_congr hbytes hsize _ _).trans hitems) hroom
  refine ⟨hprivate', hbytes, hending, ?_, hqueued, hwithin⟩
  unfold Message.records
  rw [length_dataItems hitems]
  exact hrecords

/-- **A send** puts its message behind those in the queue, or changes nothing. -/
theorem send_moves {sender : UserspaceState σ} {buffer : UserBuffer}
    (represents : Represents queue messages) (ofData : (QueueOp.send sender buffer).OfData) :
    ∃ moved messages', queueCall source queue (.send sender buffer) = .ok moved ∧
      Moves queue messages moved messages' := by
  obtain ⟨hprivate, message, hmessage, hne, hfits⟩ := ofData
  obtain ⟨items, hitems, rfl⟩ := Option.map_eq_some_iff.mp hmessage
  have hsends := @writeToQueue_sends _ ⟨buffer, queue⟩ sender false represents.ok.ring
  show ∃ moved messages', (writeToQueue sender false ⟨buffer, queue⟩).map _ = .ok moved ∧ _
  generalize writeToQueue sender false ⟨buffer, queue⟩ = out at hsends ⊢
  cases hsends with
  | @rejected after code first =>
      exact ⟨(queue, .sent buffer (.error code)), messages, rfl, represents, List.append_nil _,
        fun _ => rfl⟩
  | halted first second =>
      have hsend := @firstPass_data _ _ sender _ _ _ _ _ represents.ok hprivate hitems hfits first
      cases hsend.ending_eq.symm.trans second
  | refused first second queued =>
      have hsend := @firstPass_data _ _ sender _ _ _ _ _ represents.ok hprivate hitems hfits first
      cases hsend.ending_eq.symm.trans second
  | @sent after header totalDataSize sending' first second queued =>
      have hsend := @firstPass_data _ _ sender _ _ _ _ _ represents.ok hprivate hitems hfits first
      refine ⟨(sending'.queue, .sent buffer (.ok totalDataSize)),
        messages ++ [⟨buffer.header.messageId, items⟩], rfl, ⟨queued.queue_ok represents.ok, ?_, ?_,
          ?_⟩, ?_, nofun⟩
      · rw [queued.items_eq, hsend.records_eq, List.map_append, List.flatten_append]
        show queue.messageQueue.items ++ _ = _
        rw [represents.items_eq]
        simp
      · obtain ⟨bytes, -, hcontents, hbytes⟩ := queued.contents_eq
        rw [hcontents, hbytes hsend.isPrivate hsend.within]
        show queue.binaryQueue.contents ++ ItemFate.queuedBytes after.bytes _ = _
        rw [hsend.queuedBytes_eq, represents.contents_eq, List.map_append, List.flatten_append]
        simp
      · refine List.forall_mem_append.mpr ⟨represents.sendable, List.forall_mem_singleton.mpr
          ⟨hne, ?_, leRead_lt _ 12 4⟩⟩
        show items.length < _
        rw [length_dataItems hitems]
        exact leRead_lt _ 8 4
      · show _ ++ [buffer.message] = [] ++ List.map some (messages ++ [_])
        rw [hmessage, List.map_append]
        rfl

theorem flatten_append_inj {items items' : List (List Byte)} {pending pending' : List Byte}
    (hlengths : items.map List.length = items'.map List.length)
    (h : items.flatten ++ pending = items'.flatten ++ pending') :
    items = items' ∧ pending = pending' := by
  induction items generalizing items' with
  | nil =>
      rw [List.map_eq_nil_iff.mp hlengths.symm] at h ⊢
      exact ⟨rfl, h⟩
  | cons first items ih =>
      rcases items' with _ | ⟨first', items'⟩
      · cases hlengths
      · obtain ⟨hfirst, hrest⟩ := List.cons_eq_cons.mp hlengths
        rw [List.flatten_cons, List.flatten_cons, List.append_assoc, List.append_assoc] at h
        obtain ⟨rfl, hlater⟩ := List.append_inj h hfirst
        obtain ⟨rfl, rfl⟩ := ih hrest hlater
        exact ⟨rfl, rfl⟩

theorem header_of_bytes {buffer : UserBuffer} {header : MessageHeader}
    (h : ∀ j < headerSize, buffer.bytes j = header.toMemory j) :
    buffer.header =
      { totalSize := header.totalSize % 256 ^ 8
        payloadItemCount := header.payloadItemCount % 256 ^ 4
        messageId := header.messageId % 256 ^ 4 } := by
  have hread : ∀ off width, off + width ≤ headerSize →
      leRead (copyRange (fun _ => 0) 0 buffer.bytes 0 headerSize) off width =
        leRead header.toMemory off width := by
    intro off width hend
    refine leRead_congr fun j hj => ?_
    rw [copyRange_of_mem (Nat.zero_le _) (by omega), Nat.sub_zero, Nat.zero_add,
      h (off + j) (by omega)]
  unfold UserBuffer.header MessageHeader.ofMemory
  rw [hread 0 8 (by decide), hread 8 4 (by decide), hread 12 4 (by decide)]
  unfold MessageHeader.toMemory
  rw [leRead_leWrite, leRead_leWrite_of_disjoint (Or.inl (by decide)),
    leRead_leWrite_of_disjoint (Or.inl (by decide)), leRead_leWrite,
    leRead_leWrite_of_disjoint (Or.inl (by decide)), leRead_leWrite]

theorem Represents.takenRecords_eq {message : Message}
    (represents : Represents queue (message :: messages)) :
    takenRecords queue.messageQueue.items = message.records ∧
      (nextMessage queue.messageQueue.items).messageId = message.messageId ∧
      queue.messageQueue.items.drop message.records.length =
        (messages.map Message.records).flatten := by
  have hsendable := represents.sendable message (List.mem_cons_self ..)
  have hitems : queue.messageQueue.items =
      message.records ++ (messages.map Message.records).flatten := represents.items_eq
  have hfirst : firstMessage queue.messageQueue.items = message.records := by
    unfold firstMessage
    rw [hitems, messagesOf_oneMessage hsendable.oneMessage]
    rfl
  have hlength : message.records.length < 0x100000000 := by
    unfold Message.records
    rw [length_dataRecords]
    exact hsendable.count_lt
  refine ⟨?_, ?_, ?_⟩
  · rw [firstMessage_eq_taken (by rwa [hfirst]), hfirst]
  · rw [hitems]
    exact congrArg NextMessage.messageId (nextMessage_oneMessage hsendable.oneMessage hlength
      (fun _ => messageId_of_mem_dataRecords) _)
  · rw [hitems, List.drop_left]

/-- **A receive** takes the first message, or changes nothing. -/
theorem receive_moves {receiver : UserspaceState σ} {buffer : UserBuffer}
    (represents : Represents queue messages) (hprivate : buffer.Private) :
    ∃ moved messages', queueCall source queue (.receive receiver buffer) = .ok moved ∧
      Moves queue messages moved messages' := by
  have hreceives := readFromQueue_receives source false buffer receiver represents.ok
  have hkeeps : ∀ {receiving result}, readFromQueue source false buffer queue receiver =
      .ok (receiving, result) → receiving.queue.Ok := readFromQueue_ok represents.ok
  show ∃ moved messages', (readFromQueue source false buffer queue receiver).map _ = .ok moved ∧ _
  generalize readFromQueue source false buffer queue receiver = out at hreceives hkeeps ⊢
  cases hreceives with
  | empty none hblocking =>
      exact ⟨(queue, .received ⟨buffer, queue, receiver, 0⟩ (.error .EAGAIN)), messages, rfl,
        represents, List.append_nil _, fun _ => rfl⟩
  | waits none hblocking => cases hblocking
  | small some room =>
      exact ⟨(queue, .received ⟨buffer, queue, receiver, 0⟩ (.error .EOVERFLOW)), messages, rfl,
        represents, List.append_nil _, fun _ => rfl⟩
  | stopped some room stops =>
      rcases messages with _ | ⟨message, messages⟩
      · exact absurd represents.items_eq some
      · obtain ⟨record, hrecord, hdata⟩ := stops
        rw [represents.takenRecords_eq.1] at hrecord
        have hcontent : record.content ∈ message.records.map QueuedMessage.content :=
          List.mem_map_of_mem hrecord
        rw [Message.records, content_dataRecords] at hcontent
        obtain ⟨bytes, -, hbytes⟩ := List.mem_map.mp hcontent
        unfold QueuedMessage.isData at hdata
        rw [← hbytes] at hdata
        cases hdata
  | @delivered items pending receiving' some room data contents all =>
      rcases messages with _ | ⟨message, messages⟩
      · exact absurd represents.items_eq some
      obtain ⟨htaken, hmessageId, hdrop⟩ := represents.takenRecords_eq
      have hsendable := represents.sendable message (List.mem_cons_self ..)
      rw [htaken] at data
      have hsame := data.symm.trans content_dataRecords
      have hlengths : items.map List.length = message.items.map List.length := by
        have := congrArg (List.map fun content : QueuedContent =>
          (⟨content, false, 0⟩ : QueuedMessage).dataSize) hsame
        rwa [List.map_map, List.map_map] at this
      have hcontents := contents.symm.trans represents.contents_eq
      obtain ⟨rfl, hpending⟩ := flatten_append_inj hlengths hcontents
      have hheaderSize : headerSize ≤ buffer.size :=
        (Nat.le_add_right _ _).trans ((Nat.le_add_right _ _).trans room)
      have hstart : (startReceiving buffer queue receiver).buffer.Private ∧
          ∀ j < headerSize, (startReceiving buffer queue receiver).buffer.bytes j =
            MessageHeader.toMemory ⟨requiredSize queue.messageQueue.items,
              (takenRecords queue.messageQueue.items).length,
              (nextMessage queue.messageQueue.items).messageId⟩ j := by
        unfold startReceiving
        rw [writeHeader_eq hheaderSize]
        refine ⟨hprivate, fun j hj => ?_⟩
        exact (copyRange_of_mem (Nat.zero_le j) (by omega)).trans
          (congrArg _ ((Nat.zero_add _).trans (Nat.sub_zero j)))
      obtain ⟨-, hbytes, hitems⟩ := all.buffer_eq hstart.1
      have hheader := header_of_bytes fun j hj =>
        (hbytes j (Or.inl (hj.trans_le (Nat.le_add_right _ _)))).trans (hstart.2 j hj)
      have hcount : (takenRecords queue.messageQueue.items).length = message.items.length := by
        rw [htaken, Message.records, length_dataRecords]
      have hmessage : receiving'.buffer.message = Option.some message := by
        unfold UserBuffer.message
        rw [hheader]
        dsimp only
        rw [hcount, hmessageId, show 256 ^ 4 = 0x100000000 from rfl,
          Nat.mod_eq_of_lt hsendable.count_lt, Nat.mod_eq_of_lt hsendable.messageId_lt, hitems]
        rfl
      refine ⟨(receiving'.queue, .received receiving' (.ok receiving'.currentDataOffset)), messages,
        rfl, ⟨hkeeps rfl, ?_, ?_, fun later hlater =>
          represents.sendable later (List.mem_cons_of_mem _ hlater)⟩, ?_, nofun⟩
      · rw [all.items_eq, htaken, hdrop]
      · rw [all.contents_eq, hpending]
      · show _ ++ [] = [receiving'.buffer.message] ++ _
        rw [hmessage, List.append_nil]
        rfl

theorem queueStep_moves {op : QueueOp σ} (represents : Represents queue messages)
    (ofData : op.OfData) :
    ∃ moved messages', queueStep source queue op = some moved ∧
      Moves queue messages moved messages' := by
  have hcall : ∃ moved messages', queueCall source queue op = .ok moved ∧
      Moves queue messages moved messages' := by
    cases op with
    | send sender buffer => exact send_moves represents ofData
    | receive receiver buffer => exact receive_moves represents ofData
  obtain ⟨moved, messages', hcall, hmoves⟩ := hcall
  exact ⟨moved, messages', toOption_eq_some.mpr hcall, hmoves⟩

theorem Moves.exists_message {moved : MessageQueue × QueueReply σ} {messages' : List Message}
    (h : Moves queue messages moved messages') {buffer : UserBuffer}
    (hsent : moved.2.sentBuffer = some buffer) : ∃ message, buffer.message = some message := by
  have hnone : moved.2.receivedBuffer = none := by
    unfold QueueReply.sentBuffer at hsent
    unfold QueueReply.receivedBuffer
    obtain ⟨queue', _ | _⟩ := moved
    · rfl
    · cases hsent
  have hconserved := h.conserved
  rw [hsent, hnone] at hconserved
  have hmem : buffer.message ∈ messages'.map some := by
    have hback : messages'.map some = messages.map some ++ [buffer.message] := hconserved.symm
    rw [hback]
    exact List.mem_append_right _ (List.mem_singleton_self _)
  obtain ⟨message, -, hmessage⟩ := List.mem_map.mp hmem
  exact ⟨message, hmessage.symm⟩

/-! ## A run -/

/-- The buffers of the sends that succeeded, in order. -/
def sentBuffers (replies : List (QueueReply σ)) : List UserBuffer :=
  replies.filterMap QueueReply.sentBuffer

/-- The buffers of the receives that succeeded, in order. -/
def receivedBuffers (replies : List (QueueReply σ)) : List UserBuffer :=
  replies.filterMap QueueReply.receivedBuffer

/-- **A run conserves messages**: what was in the queue and what is sent is what is
received and what is left. -/
theorem runQueue_conserved {ops : List (QueueOp σ)} (ofData : ∀ op ∈ ops, op.OfData) :
    ∀ {queue : MessageQueue} {messages : List Message}, Represents queue messages →
      ∃ (final : MessageQueue × List (QueueReply σ)) (messages' : List Message),
        runSteps (queueStep source) queue ops = some final ∧
        (∀ sent ∈ sentBuffers final.2, ∃ message, sent.message = some message) ∧
        messages.map some ++ (sentBuffers final.2).map UserBuffer.message =
          (receivedBuffers final.2).map UserBuffer.message ++ messages'.map some := by
  induction ops with
  | nil =>
      intro queue messages _
      exact ⟨(queue, []), messages, rfl, nofun, List.append_nil _⟩
  | cons op ops ih =>
      intro queue messages represents
      obtain ⟨hop, hops⟩ := List.forall_mem_cons.mp ofData
      obtain ⟨moved, middle, hstep, hmoves⟩ := @queueStep_moves _ source _ _ _ represents hop
      obtain ⟨tail, messages', htail, hsent, hconserved⟩ := ih hops hmoves.represents
      refine ⟨(tail.1, moved.2 :: tail.2), messages', ?_, ?_, ?_⟩
      · rw [runSteps_cons, hstep, Option.bind_some, htail]
        rfl
      · unfold sentBuffers at hsent ⊢
        rw [filterMap_cons_toList]
        exact List.forall_mem_append.mpr
          ⟨fun buffer hbuffer => hmoves.exists_message (Option.mem_toList.mp hbuffer), hsent⟩
      · unfold sentBuffers receivedBuffers at hconserved ⊢
        rw [filterMap_cons_toList, filterMap_cons_toList, List.map_append, List.map_append,
          ← List.append_assoc, hmoves.conserved, List.append_assoc, hconserved, List.append_assoc]

/-- **First in, first out.**  In every run of sends of data and of receives, the receive
that is the `k`-th to succeed delivers the message of the send that was the `k`-th to
succeed: its number, and its items with their lengths and bytes. -/
theorem runQueue_fifo (source : TableSource σ) {ops : List (QueueOp σ)}
    (ofData : ∀ op ∈ ops, op.OfData) :
    ∃ final, runSteps (queueStep source) .new ops = some final ∧
      ∀ (k : ℕ) (received : UserBuffer), (receivedBuffers final.2)[k]? = some received →
        ∃ (sent : UserBuffer) (message : Message), (sentBuffers final.2)[k]? = some sent ∧
          sent.message = some message ∧ received.message = some message := by
  obtain ⟨final, messages', hrun, hsents, hconserved⟩ :=
    @runQueue_conserved _ source _ ofData _ _ represents_new
  refine ⟨final, hrun, fun k received hreceived => ?_⟩
  have hlt : k < ((receivedBuffers final.2).map UserBuffer.message).length := by
    rw [List.length_map]
    exact (List.getElem?_eq_some_iff.mp hreceived).1
  have hsame := congrArg (fun list => list[k]?) hconserved
  rw [List.map_nil, List.nil_append, List.getElem?_append_left hlt, List.getElem?_map,
    List.getElem?_map, hreceived, Option.map_some] at hsame
  obtain ⟨sent, hsent, hmessage⟩ := Option.map_eq_some_iff.mp hsame
  obtain ⟨message, hsome⟩ := hsents sent (List.mem_of_getElem? hsent)
  exact ⟨sent, message, hsent, hsome, hmessage.symm.trans hsome⟩

end Calls

/-- A send of two items, the second of no length, and a receive. -/
def sendAndReceive : List (QueueOp (List (Page × ℕ) × List (Page × ℕ))) :=
  [.send (.withHandles []) (twoItems (.data 0 1) (.data 40 0) fun _ bytes => bytes),
    .receive (.withHandles []) ⟨200, by decide, fun _ => 0, fun _ bytes => bytes, 0⟩]

theorem runQueue_fifo_sendAndReceive :
    ∃ final, runSteps (queueStep TableSource.pool) .new sendAndReceive = some final ∧
      ∀ (k : ℕ) (received : UserBuffer), (receivedBuffers final.2)[k]? = some received →
        ∃ (sent : UserBuffer) (message : Message), (sentBuffers final.2)[k]? = some sent ∧
          sent.message = some message ∧ received.message = some message := by
  apply runQueue_fifo TableSource.pool
  refine List.forall_mem_cons.mpr ⟨⟨fun _ _ => rfl, ⟨7, [[80], []]⟩, ?_, nofun, by decide⟩,
    List.forall_mem_singleton.mpr fun _ _ => rfl⟩
  exact rfl

end BekOS
