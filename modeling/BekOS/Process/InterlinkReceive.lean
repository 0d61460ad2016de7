import BekOS.Process.InterlinkFraming

/-!
# What a receive does

A receive takes the records of the first message one by one.  Data is copied from the ring
to the buffer behind the items; a record of anything else cannot be destroyed once what it
carries has been delivered, so that only messages of data come out.
-/

namespace BekOS

/-! ## Messages of data -/

namespace UserBuffer

/-- The bytes that item `i` names, where they are data in the buffer. -/
def dataItem (buffer : UserBuffer) (i : ℕ) : Option (List Byte) :=
  match buffer.item i with
  | .data offset len =>
      if offset + len ≤ buffer.size then some (slice buffer.bytes offset len) else none
  | .fd _ | .memory _ _ _ _ | .unknown _ => none

/-- The data of the items from item `i` on. -/
def dataItems (buffer : UserBuffer) : ℕ → ℕ → Option (List (List Byte))
  | 0, _ => some []
  | remaining + 1, i =>
      (buffer.dataItem i).bind fun first => (buffer.dataItems remaining (i + 1)).map (first :: ·)

variable {buffer : UserBuffer} {i offset len : ℕ}

theorem dataItems_succ_eq_some {remaining : ℕ} {items : List (List Byte)} :
    buffer.dataItems (remaining + 1) i = some items ↔
      ∃ first rest, buffer.dataItem i = some first ∧
        buffer.dataItems remaining (i + 1) = some rest ∧ items = first :: rest := by
  rw [dataItems, Option.bind_eq_some_iff]
  constructor
  · rintro ⟨first, hfirst, hrest⟩
    obtain ⟨rest, hlater, rfl⟩ := Option.map_eq_some_iff.mp hrest
    exact ⟨first, rest, hfirst, hlater, rfl⟩
  · rintro ⟨first, rest, hfirst, hrest, rfl⟩
    exact ⟨first, hfirst, Option.map_eq_some_iff.mpr ⟨rest, hrest, rfl⟩⟩

theorem item_of_bytes (hoffset : offset < 0x10000000000000000) (hlen : len < 0x10000000000000000)
    (h : ∀ j < payloadItemSize,
      buffer.bytes (payloadItemOffset i + j) = (PayloadItem.data offset len).toMemory j) :
    buffer.item i = .data offset len := by
  have hread : ∀ off width, off + width ≤ payloadItemSize →
      leRead (copyRange (fun _ => 0) 0 buffer.bytes (payloadItemOffset i) payloadItemSize) off
          width =
        leRead (PayloadItem.data offset len).toMemory off width := by
    intro off width hend
    refine leRead_congr fun j hj => ?_
    rw [copyRange_of_mem (Nat.zero_le _) (by omega), Nat.sub_zero, h (off + j) (by omega)]
  have hkind : leRead (PayloadItem.data offset len).toMemory 0 4 = 0 := by
    unfold PayloadItem.toMemory
    rw [leRead_leWrite_of_disjoint (Or.inl (by decide)),
      leRead_leWrite_of_disjoint (Or.inl (by decide))]
    rfl
  have hfirst : leRead (PayloadItem.data offset len).toMemory 8 8 = offset := by
    unfold PayloadItem.toMemory
    rw [leRead_leWrite_of_disjoint (Or.inl (by decide)), leRead_leWrite]
    exact Nat.mod_eq_of_lt hoffset
  have hsecond : leRead (PayloadItem.data offset len).toMemory 16 8 = len := by
    unfold PayloadItem.toMemory
    rw [leRead_leWrite]
    exact Nat.mod_eq_of_lt hlen
  unfold item PayloadItem.ofMemory
  rw [hread 0 4 (by decide), hread 8 8 (by decide), hread 16 8 (by decide), hkind, hfirst, hsecond]
  rfl

theorem dataItem_of_bytes (hoffset : offset < 0x10000000000000000)
    (hlen : len < 0x10000000000000000) (hend : offset + len ≤ buffer.size)
    (h : ∀ j < payloadItemSize,
      buffer.bytes (payloadItemOffset i + j) = (PayloadItem.data offset len).toMemory j) :
    buffer.dataItem i = some (slice buffer.bytes offset len) := by
  unfold dataItem
  rw [item_of_bytes hoffset hlen h]
  exact if_pos hend

end UserBuffer

section Receive

variable {σ : Type} {source : TableSource σ} {receiving receiving' : Receiving σ} {i size : ℕ}
  {rest : List QueuedMessage}

theorem writeItem_eq {buffer : UserBuffer} (h : buffer.HasItem i) (item : PayloadItem) :
    buffer.writeItem i item = ({ buffer.accessed with
      bytes := copyRange buffer.accessed.bytes (payloadItemOffset i) item.toMemory 0
        payloadItemSize }, .ok ()) := by
  unfold UserBuffer.writeItem UserBuffer.writeFrom
  rw [if_neg (Nat.not_lt.mpr h)]

theorem writeHeader_eq {buffer : UserBuffer} (h : headerSize ≤ buffer.size)
    (header : MessageHeader) :
    buffer.writeHeader header = ({ buffer.accessed with
      bytes := copyRange buffer.accessed.bytes 0 header.toMemory 0 headerSize }, .ok ()) := by
  have hlt := buffer.size_lt
  unfold UserBuffer.writeHeader UserBuffer.writeFrom
  rw [if_neg (Nat.not_lt.mpr (by rw [u64_of_lt (by omega)]; exact h))]

theorem payloadItemOffset_succ (i : ℕ) :
    payloadItemOffset (i + 1) = payloadItemOffset i + payloadItemSize := by
  unfold payloadItemOffset
  rw [Nat.succ_mul, Nat.add_assoc]

theorem payloadItemOffset_le {i j : ℕ} (h : i ≤ j) :
    payloadItemOffset i ≤ payloadItemOffset j :=
  Nat.add_le_add_left (Nat.mul_le_mul_right payloadItemSize h) headerSize

theorem hasItem_of_le {buffer : UserBuffer} (h : payloadItemOffset (i + 1) ≤ buffer.size) :
    buffer.HasItem i := by
  have hsize := buffer.size_lt
  rw [payloadItemOffset_succ] at h
  unfold UserBuffer.HasItem
  rw [u64_of_lt (by omega)]
  omega

/-! ## One round -/

/-- A round has delivered the next bytes of the ring. -/
structure Delivered (receiving : Receiving σ) (i size : ℕ) (rest : List QueuedMessage)
    (receiving' : Receiving σ) : Prop where
  ok : receiving'.queue.binaryQueue.Ok
  size_eq : receiving'.queue.binaryQueue.size = receiving.queue.binaryQueue.size
  items_eq : receiving'.queue.messageQueue.items = rest
  contents_eq : receiving.queue.binaryQueue.contents =
    slice receiving.queue.binaryQueue.pending 0 size ++ receiving'.queue.binaryQueue.contents
  receiver_eq : receiving'.receiver = receiving.receiver
  offset_eq : receiving'.currentDataOffset = receiving.currentDataOffset + size
  buffer_size : receiving'.buffer.size = receiving.buffer.size
  buffer_eq : receiving.buffer.Private → receiving'.buffer.Private ∧
    receiving'.buffer.bytes =
      copyRange (copyRange receiving.buffer.bytes receiving.currentDataOffset
          receiving.queue.binaryQueue.pending 0 size)
        (payloadItemOffset i) (PayloadItem.data receiving.currentDataOffset size).toMemory 0
        payloadItemSize

/-- Data that is in the ring, for which there is room in the buffer. -/
theorem deliverData_ok (ok : receiving.queue.binaryQueue.Ok)
    (hpending : size ≤ receiving.queue.binaryQueue.pendingBytes)
    (hend : receiving.currentDataOffset + size ≤ receiving.buffer.size)
    (hslot : payloadItemOffset (i + 1) ≤ receiving.currentDataOffset) :
    ∃ receiving', deliverData receiving i size = .ok (receiving', .ok ()) ∧
      Delivered receiving i size receiving.queue.messageQueue.items receiving' := by
  have hlt := receiving.buffer.size_lt
  have hsum : u64 (receiving.currentDataOffset + size) = receiving.currentDataOffset + size :=
    u64_of_lt (by omega)
  have hcreate : BufferSubset.create receiving.buffer receiving.currentDataOffset size =
      .ok ⟨receiving.buffer, receiving.currentDataOffset, size⟩ :=
    if_pos ⟨by omega, by rw [hsum]; exact hend⟩
  obtain ⟨ring', subset', hread, read⟩ := @RingBuffer.readTo_ok _
    ⟨receiving.buffer, receiving.currentDataOffset, size⟩ ok hpending hend
  have hsize : subset'.buffer.size = receiving.buffer.size := read.buffer_size
  have hitem : subset'.buffer.HasItem i := hasItem_of_le (by omega)
  refine ⟨{ receiving with
      buffer := { subset'.buffer.accessed with
        bytes := copyRange subset'.buffer.accessed.bytes (payloadItemOffset i)
          (PayloadItem.data receiving.currentDataOffset size).toMemory 0 payloadItemSize }
      queue := { receiving.queue with binaryQueue := ring' }
      currentDataOffset := u64 (receiving.currentDataOffset + size) }, ?_, read.ok, read.size_eq,
    rfl, read.contents_eq hpending, rfl, hsum, hsize, fun hprivate => ?_⟩
  · unfold deliverData
    rw [hcreate]
    show Except.bind (receiving.queue.binaryQueue.readTo _) _ = _
    rw [hread]
    dsimp only [Except.bind]
    rw [writeItem_eq hitem]
    rfl
  · have hprivate' : subset'.buffer.Private := by
      unfold UserBuffer.Private
      rw [read.others_eq]
      exact hprivate
    refine ⟨hprivate', ?_⟩
    show copyRange subset'.buffer.accessed.bytes _ _ _ _ = _
    rw [hprivate'.accessed_bytes, read.bytes_eq hprivate]

/-- **A round** that delivers data. -/
theorem deliverItems_data (source : TableSource σ) {isFinal : Bool} {messageId : ℕ}
    (ok : receiving.queue.binaryQueue.Ok)
    (hitems : receiving.queue.messageQueue.items = ⟨.data size, isFinal, messageId⟩ :: rest)
    (hpending : size ≤ receiving.queue.binaryQueue.pendingBytes)
    (hend : receiving.currentDataOffset + size ≤ receiving.buffer.size)
    (hslot : payloadItemOffset (i + 1) ≤ receiving.currentDataOffset) :
    ∃ receiving', (∀ remaining, deliverItems source (remaining + 1) i receiving =
        deliverItems source remaining (i + 1) receiving') ∧
      Delivered receiving i size rest receiving' := by
  obtain ⟨receiving', hout, delivered⟩ := @deliverData_ok σ
    { receiving with
      queue := { receiving.queue with
        messageQueue := { receiving.queue.messageQueue with items := rest } } } _ _
    ok hpending hend hslot
  refine ⟨receiving', fun remaining => ?_, delivered.ok, delivered.size_eq, delivered.items_eq,
    delivered.contents_eq, delivered.receiver_eq, delivered.offset_eq, delivered.buffer_size,
    delivered.buffer_eq⟩
  rw [deliverItems, MessageVector.pop_zero hitems]
  show Except.bind (deliverData _ i size) _ = _
  rw [hout]
  rfl

/-- **A round** that delivers anything else does not come to its end. -/
theorem deliverItems_not_data (source : TableSource σ) {record : QueuedMessage}
    (hitems : receiving.queue.messageQueue.items = record :: rest)
    (hdata : record.isData = false) (remaining : ℕ) :
    ∃ halt, deliverItems source (remaining + 1) i receiving = .error halt := by
  rw [deliverItems, MessageVector.pop_zero hitems]
  show ∃ halt, Except.bind (deliverItem source _ i record) _ = _
  cases deliverItem source { receiving with
      queue := { receiving.queue with
        messageQueue := { receiving.queue.messageQueue with items := rest } } } i record with
  | error halt => exact ⟨halt, rfl⟩
  | ok delivered =>
      refine ⟨.notData, ?_⟩
      show Except.bind record.destroy _ = _
      unfold QueuedMessage.destroy
      rw [hdata]
      rfl

/-! ## All rounds -/

/-- The rounds have delivered the next items. -/
structure DeliveredAll (receiving : Receiving σ) (i : ℕ) (items : List (List Byte))
    (rest : List QueuedMessage) (pending : List Byte) (receiving' : Receiving σ) : Prop where
  ok : receiving'.queue.binaryQueue.Ok
  size_eq : receiving'.queue.binaryQueue.size = receiving.queue.binaryQueue.size
  items_eq : receiving'.queue.messageQueue.items = rest
  contents_eq : receiving'.queue.binaryQueue.contents = pending
  receiver_eq : receiving'.receiver = receiving.receiver
  offset_eq : receiving'.currentDataOffset =
    receiving.currentDataOffset + items.flatten.length
  buffer_size : receiving'.buffer.size = receiving.buffer.size
  buffer_eq : receiving.buffer.Private → receiving'.buffer.Private ∧
    (∀ p, p < payloadItemOffset i ∨
        payloadItemOffset (i + items.length) ≤ p ∧ p < receiving.currentDataOffset →
      receiving'.buffer.bytes p = receiving.buffer.bytes p) ∧
    receiving'.buffer.dataItems items.length i = some items

/-- **The loop that delivers the items** delivers data that is in the ring. -/
theorem deliverItems_ok (source : TableSource σ) (items : List (List Byte)) :
    ∀ (i : ℕ) (records rest : List QueuedMessage) (pending : List Byte) (receiving : Receiving σ),
      receiving.queue.binaryQueue.Ok →
      receiving.queue.messageQueue.items = records ++ rest →
      records.map QueuedMessage.content = items.map (fun bytes => .data bytes.length) →
      receiving.queue.binaryQueue.contents = items.flatten ++ pending →
      receiving.currentDataOffset + items.flatten.length ≤ receiving.buffer.size →
      payloadItemOffset (i + items.length) ≤ receiving.currentDataOffset →
      ∃ receiving', deliverItems source items.length i receiving = .ok (receiving', .ok ()) ∧
        DeliveredAll receiving i items rest pending receiving' := by
  induction items with
  | nil =>
      intro i records rest pending receiving ok hitems hrecords hcontents _ _
      have hnone : records = [] := List.map_eq_nil_iff.mp hrecords
      subst hnone
      exact ⟨receiving, rfl, ok, rfl, hitems, hcontents, rfl, rfl, rfl,
        fun hprivate => ⟨hprivate, fun _ _ => rfl, rfl⟩⟩
  | cons bytes items ih =>
      intro i records rest pending receiving ok hitems hrecords hcontents hend hslots
      rcases records with _ | ⟨⟨content, isFinal, messageId⟩, records⟩
      · cases hrecords
      obtain ⟨hcontent, hlater⟩ := List.cons_eq_cons.mp hrecords
      dsimp only at hcontent
      subst hcontent
      rw [List.flatten_cons, List.append_assoc] at hcontents
      rw [List.flatten_cons, List.length_append] at hend
      rw [List.length_cons, ← Nat.add_assoc] at hslots
      have hpending : bytes.length ≤ receiving.queue.binaryQueue.pendingBytes := by
        rw [← RingBuffer.length_contents, hcontents, List.length_append]
        exact Nat.le_add_right _ _
      have hslot : payloadItemOffset (i + 1) ≤ receiving.currentDataOffset :=
        (payloadItemOffset_le (by omega)).trans hslots
      obtain ⟨middle, hround, first⟩ := deliverItems_data source ok hitems hpending (by omega) hslot
      have hsplit := first.contents_eq
      rw [hcontents] at hsplit
      obtain ⟨hbytes, hpending'⟩ := List.append_inj hsplit (length_slice _ _ _).symm
      obtain ⟨receiving', hout, all⟩ := ih (i + 1) records rest pending middle first.ok
        first.items_eq hlater hpending'.symm
        (by rw [first.offset_eq, first.buffer_size]; omega)
        (by rw [first.offset_eq, Nat.add_right_comm]; exact Nat.le_add_right_of_le hslots)
      refine ⟨receiving', (hround items.length).trans hout, all.ok,
        all.size_eq.trans first.size_eq, all.items_eq, all.contents_eq,
        all.receiver_eq.trans first.receiver_eq, ?_, all.buffer_size.trans first.buffer_size,
        fun hprivate => ?_⟩
      · rw [all.offset_eq, first.offset_eq, List.flatten_cons, List.length_append, Nat.add_assoc]
      · obtain ⟨hprivate₁, hbuffer₁⟩ := first.buffer_eq hprivate
        obtain ⟨hprivate', hsame, hitems'⟩ := all.buffer_eq hprivate₁
        rw [first.offset_eq, Nat.add_right_comm] at hsame
        have hsucc := payloadItemOffset_succ i
        have hroom := receiving.buffer.size_lt
        refine ⟨hprivate', fun p hp => ?_, UserBuffer.dataItems_succ_eq_some.mpr
          ⟨bytes, items, ?_, hitems', rfl⟩⟩
        · rw [List.length_cons, ← Nat.add_assoc] at hp
          have hnext : payloadItemOffset (i + 1) ≤ payloadItemOffset (i + items.length + 1) :=
            payloadItemOffset_le (by omega)
          rw [hsame p (by omega), hbuffer₁, copyRange_of_not_mem (by omega),
            copyRange_of_not_mem (by omega)]
        · have hdata : slice receiving'.buffer.bytes receiving.currentDataOffset bytes.length =
              bytes := by
            refine Eq.trans (slice_congr fun j hj => ?_) hbytes.symm
            rw [hsame _ (Or.inr (by omega)), hbuffer₁, copyRange_of_not_mem (by omega),
              copyRange_of_mem (Nat.le_add_right _ _) (by omega)]
            congr 1
            omega
          refine (UserBuffer.dataItem_of_bytes (by omega) (by omega) ?_ fun j hj => ?_).trans
            (congrArg some hdata)
          · rw [all.buffer_size, first.buffer_size]
            omega
          · rw [hsame _ (Or.inl (by omega)), hbuffer₁,
              copyRange_of_mem (Nat.le_add_right _ _) (by omega)]
            rw [Nat.zero_add, Nat.add_sub_cancel_left]

theorem exists_data {records : List QueuedMessage} {contents : List Byte}
    (hdata : ∀ record ∈ records, record.isData = true)
    (hsum : (records.map QueuedMessage.dataSize).sum ≤ contents.length) :
    ∃ (items : List (List Byte)) (pending : List Byte),
      records.map QueuedMessage.content = items.map (fun bytes => .data bytes.length) ∧
        contents = items.flatten ++ pending := by
  induction records generalizing contents with
  | nil => exact ⟨[], contents, rfl, rfl⟩
  | cons record records ih =>
      obtain ⟨hfirst, hrest⟩ := List.forall_mem_cons.mp hdata
      rw [List.map_cons, List.sum_cons] at hsum
      obtain ⟨items, pending, hrecords, hcontents⟩ := ih hrest
        (show _ ≤ (contents.drop record.dataSize).length by rw [List.length_drop]; omega)
      refine ⟨contents.take record.dataSize :: items, pending, ?_, ?_⟩
      · rw [List.map_cons, List.map_cons, hrecords, List.length_take, min_eq_left (by omega)]
        obtain ⟨_ | _ | _, isFinal, messageId⟩ := record
        · rfl
        · cases hfirst
        · cases hfirst
      · rw [List.flatten_cons, List.append_assoc, ← hcontents, List.take_append_drop]

theorem length_flatten_of_data {records : List QueuedMessage} {items : List (List Byte)}
    (h : records.map QueuedMessage.content = items.map (fun bytes => .data bytes.length)) :
    items.flatten.length = (records.map QueuedMessage.dataSize).sum := by
  induction records generalizing items with
  | nil =>
      rw [List.map_eq_nil_iff.mp h.symm]
      rfl
  | cons record records ih =>
      rcases items with _ | ⟨bytes, items⟩
      · cases h
      · obtain ⟨hfirst, hrest⟩ := List.cons_eq_cons.mp h
        have hsize : record.dataSize = bytes.length := by
          unfold QueuedMessage.dataSize
          rw [hfirst]
        rw [List.flatten_cons, List.length_append, ih hrest, List.map_cons, List.sum_cons, hsize]

/-- The loop does not get past a record that is not data. -/
theorem deliverItems_stops (source : TableSource σ) (records : List QueuedMessage) :
    ∀ (i : ℕ) (rest : List QueuedMessage) (receiving : Receiving σ),
      receiving.queue.binaryQueue.Ok →
      receiving.queue.messageQueue.items = records ++ rest →
      (records.map QueuedMessage.dataSize).sum ≤ receiving.queue.binaryQueue.pendingBytes →
      receiving.currentDataOffset + (records.map QueuedMessage.dataSize).sum ≤
        receiving.buffer.size →
      payloadItemOffset (i + records.length) ≤ receiving.currentDataOffset →
      (∃ record ∈ records, record.isData = false) →
      ∃ halt, deliverItems source records.length i receiving = .error halt := by
  induction records with
  | nil => exact fun _ _ _ _ _ _ _ _ ⟨_, hmem, _⟩ => nomatch hmem
  | cons record records ih =>
      intro i rest receiving ok hitems hpending hend hslots hstops
      rw [List.map_cons, List.sum_cons] at hpending hend
      rw [List.length_cons, ← Nat.add_assoc] at hslots
      by_cases hdata : record.isData = true
      · obtain ⟨size | _ | _, isFinal, messageId⟩ := record
        · have hsize : (⟨.data size, isFinal, messageId⟩ : QueuedMessage).dataSize = size := rfl
          rw [hsize] at hpending hend
          have hslot : payloadItemOffset (i + 1) ≤ receiving.currentDataOffset :=
            (payloadItemOffset_le (by omega)).trans hslots
          obtain ⟨middle, hround, first⟩ :=
            deliverItems_data source ok hitems (by omega) (by omega) hslot
          have hlength := congrArg List.length first.contents_eq
          rw [List.length_append, length_slice, RingBuffer.length_contents,
            RingBuffer.length_contents] at hlength
          obtain ⟨halt, hout⟩ := ih (i + 1) rest middle first.ok first.items_eq (by omega)
            (by rw [first.offset_eq, first.buffer_size]; omega)
            (by rw [first.offset_eq, Nat.add_right_comm]; exact Nat.le_add_right_of_le hslots)
            (by
              obtain ⟨stopping, hmem, hstopping⟩ := hstops
              rcases List.mem_cons.mp hmem with rfl | hmem
              · cases hstopping
              · exact ⟨stopping, hmem, hstopping⟩)
          exact ⟨halt, (hround records.length).trans hout⟩
        · cases hdata
        · cases hdata
      · exact deliverItems_not_data source hitems (Bool.eq_false_iff.mpr hdata) records.length

/-! ## A whole receive -/

/-- The records of the first message. -/
def firstMessage (items : List QueuedMessage) : List QueuedMessage :=
  (messagesOf items).headD []

theorem firstMessage_append (items : List QueuedMessage) :
    firstMessage items ++ (messagesOf items).tail.flatten = items := by
  have hflatten := flatten_messagesOf items
  unfold firstMessage
  revert hflatten
  cases messagesOf items with
  | nil => exact id
  | cons first others => exact id

/-- The records that a receive takes: as many as the first message has, in 32 bits. -/
def takenRecords (items : List QueuedMessage) : List QueuedMessage :=
  (firstMessage items).take ((firstMessage items).length % 0x100000000)

/-- The room that a receive needs. -/
def requiredSize (items : List QueuedMessage) : ℕ :=
  payloadItemOffset (takenRecords items).length +
    ((firstMessage items).map QueuedMessage.dataSize).sum

/-- The loop over the queue finds the first message. -/
theorem nextMessage_eq {queue : MessageQueue} (ok : queue.Ok)
    (hne : queue.messageQueue.items ≠ []) :
    (nextMessage queue.messageQueue.items).payloadItems =
        (takenRecords queue.messageQueue.items).length ∧
      (nextMessage queue.messageQueue.items).totalDataSize =
        ((firstMessage queue.messageQueue.items).map QueuedMessage.dataSize).sum ∧
      u64 (headerSize + (nextMessage queue.messageQueue.items).payloadItems * payloadItemSize +
          (nextMessage queue.messageQueue.items).totalDataSize) =
        requiredSize queue.messageQueue.items := by
  obtain ⟨first, others, hmessages⟩ :=
    List.exists_cons_of_ne_nil fun h => hne (messagesOf_eq_nil.mp h)
  have hfirst : firstMessage queue.messageQueue.items = first := by
    unfold firstMessage
    rw [hmessages]
    rfl
  obtain ⟨last, -, hscan⟩ := scanQueue_eq hmessages ⟨0, 0, 0⟩
  have hlt := ok.ring.pending_add_free
  have hsum : (first.map QueuedMessage.dataSize).sum ≤ queue.binaryQueue.pendingBytes := by
    rw [ok.pendingBytes_eq, ← firstMessage_append queue.messageQueue.items, hfirst,
      List.map_append, List.sum_append]
    exact Nat.le_add_right _ _
  have hsize : queue.binaryQueue.size = 1024 := ok.size_eq
  have htaken : (takenRecords queue.messageQueue.items).length = first.length % 0x100000000 := by
    unfold takenRecords
    rw [hfirst, List.length_take]
    exact min_eq_left (Nat.mod_le _ _)
  have hcount : first.length % 0x100000000 < 0x100000000 := Nat.mod_lt _ (by decide)
  have htotal : u64 (0 + (first.map QueuedMessage.dataSize).sum) =
      (first.map QueuedMessage.dataSize).sum := by
    rw [Nat.zero_add, u64_of_lt (by omega)]
  unfold nextMessage requiredSize
  rw [hscan, hfirst, htaken]
  dsimp only
  rw [Nat.zero_add, htotal]
  refine ⟨rfl, rfl, u64_of_lt ?_⟩
  unfold headerSize payloadItemSize
  omega

/-- The state in which a receive begins to deliver. -/
def startReceiving (buffer : UserBuffer) (queue : MessageQueue) (receiver : UserspaceState σ) :
    Receiving σ where
  buffer := (buffer.writeHeader
    { totalSize := requiredSize queue.messageQueue.items
      payloadItemCount := (takenRecords queue.messageQueue.items).length
      messageId := (nextMessage queue.messageQueue.items).messageId }).1
  queue := queue
  receiver := receiver
  currentDataOffset := payloadItemOffset (takenRecords queue.messageQueue.items).length

/-- How a receive can end. -/
inductive Receives (blocking : Bool) (buffer : UserBuffer) (queue : MessageQueue)
    (receiver : UserspaceState σ) : Except Halt (Receiving σ × Except ErrorCode ℕ) → Prop
  | empty (none : queue.messageQueue.items = []) (hblocking : blocking = false) :
      Receives blocking buffer queue receiver (.ok (⟨buffer, queue, receiver, 0⟩, .error .EAGAIN))
  | waits (none : queue.messageQueue.items = []) (hblocking : blocking = true) :
      Receives blocking buffer queue receiver (.error .spin)
  | small (some : queue.messageQueue.items ≠ [])
      (room : buffer.size < requiredSize queue.messageQueue.items) :
      Receives blocking buffer queue receiver
        (.ok (⟨buffer, queue, receiver, 0⟩, .error .EOVERFLOW))
  | stopped {halt : Halt} (some : queue.messageQueue.items ≠ [])
      (room : requiredSize queue.messageQueue.items ≤ buffer.size)
      (stops : ∃ record ∈ takenRecords queue.messageQueue.items, record.isData = false) :
      Receives blocking buffer queue receiver (.error halt)
  | delivered {items : List (List Byte)} {pending : List Byte} {receiving' : Receiving σ}
      (some : queue.messageQueue.items ≠ [])
      (room : requiredSize queue.messageQueue.items ≤ buffer.size)
      (data : (takenRecords queue.messageQueue.items).map QueuedMessage.content =
        items.map (fun bytes => .data bytes.length))
      (contents : queue.binaryQueue.contents = items.flatten ++ pending)
      (all : DeliveredAll (startReceiving buffer queue receiver) 0 items
        (queue.messageQueue.items.drop (takenRecords queue.messageQueue.items).length) pending
        receiving') :
      Receives blocking buffer queue receiver
        (.ok (receiving', .ok receiving'.currentDataOffset))

theorem sum_takenRecords_le (items : List QueuedMessage) :
    ((takenRecords items).map QueuedMessage.dataSize).sum ≤
      ((firstMessage items).map QueuedMessage.dataSize).sum := by
  have hsplit := congrArg (fun records => (records.map QueuedMessage.dataSize).sum)
    (List.take_append_drop ((firstMessage items).length % 0x100000000) (firstMessage items))
  rw [List.map_append, List.sum_append] at hsplit
  unfold takenRecords
  omega

theorem takenRecords_append (items : List QueuedMessage) :
    takenRecords items ++ items.drop (takenRecords items).length = items := by
  have hfirst : takenRecords items <+: items :=
    (List.take_prefix _ _).trans ⟨_, firstMessage_append items⟩
  exact (List.prefix_iff_eq_append.mp hfirst)

/-- **A receive** ends in one of these ways. -/
theorem readFromQueue_receives (source : TableSource σ) (blocking : Bool) (buffer : UserBuffer)
    {queue : MessageQueue} (receiver : UserspaceState σ) (ok : queue.Ok) :
    Receives blocking buffer queue receiver
      (readFromQueue source blocking buffer queue receiver) := by
  unfold readFromQueue
  by_cases hnone : queue.messageQueue.items = []
  · rw [if_pos hnone]
    cases blocking with
    | true => exact .waits hnone rfl
    | false => exact .empty hnone rfl
  rw [if_neg hnone]
  obtain ⟨hcount, htotal, hrequired⟩ := nextMessage_eq ok hnone
  dsimp only
  rw [hrequired]
  by_cases hsmall : buffer.size < requiredSize queue.messageQueue.items
  · rw [if_pos hsmall]
    exact .small hnone hsmall
  rw [if_neg hsmall, hcount]
  have hroom := Nat.not_lt.mp hsmall
  have hrequires : requiredSize queue.messageQueue.items =
    payloadItemOffset (takenRecords queue.messageQueue.items).length +
      ((firstMessage queue.messageQueue.items).map QueuedMessage.dataSize).sum := rfl
  have hheader : headerSize ≤ payloadItemOffset (takenRecords queue.messageQueue.items).length :=
    Nat.le_add_right _ _
  have htaken := sum_takenRecords_le queue.messageQueue.items
  have hsplit := takenRecords_append queue.messageQueue.items
  have hsum : ((takenRecords queue.messageQueue.items).map QueuedMessage.dataSize).sum ≤
      queue.binaryQueue.pendingBytes := by
    rw [ok.pendingBytes_eq]
    conv_rhs => rw [← hsplit]
    rw [List.map_append, List.sum_append]
    exact Nat.le_add_right _ _
  have hwritten := writeHeader_eq (show headerSize ≤ buffer.size by omega)
  have hsize : (startReceiving buffer queue receiver).buffer.size = buffer.size := by
    unfold startReceiving
    rw [hwritten]
    rfl
  rw [congrArg Prod.snd (hwritten _)]
  show Receives blocking buffer queue receiver
    (Except.bind (deliverItems source _ 0 (startReceiving buffer queue receiver)) _)
  by_cases hdata : ∀ record ∈ takenRecords queue.messageQueue.items, record.isData = true
  · obtain ⟨items, pending, hrecords, hcontents⟩ := @exists_data _
      queue.binaryQueue.contents hdata (by rwa [RingBuffer.length_contents])
    have hlength := congrArg List.length hrecords
    rw [List.length_map, List.length_map] at hlength
    have hflatten : items.flatten.length =
        ((takenRecords queue.messageQueue.items).map QueuedMessage.dataSize).sum :=
      length_flatten_of_data hrecords
    obtain ⟨receiving', hout, all⟩ := deliverItems_ok source items 0
      (takenRecords queue.messageQueue.items) _ pending (startReceiving buffer queue receiver)
      ok.ring hsplit.symm hrecords hcontents
      (show payloadItemOffset _ + _ ≤ _ by omega)
      (show payloadItemOffset _ ≤ payloadItemOffset _ by rw [Nat.zero_add, hlength])
    rw [hlength, hout]
    exact .delivered hnone hroom hrecords hcontents all
  · have hstops : ∃ record ∈ takenRecords queue.messageQueue.items, record.isData = false := by
      simpa using hdata
    obtain ⟨halt, hout⟩ := deliverItems_stops source (takenRecords queue.messageQueue.items) 0 _
      (startReceiving buffer queue receiver) ok.ring hsplit.symm hsum
      (show payloadItemOffset _ + _ ≤ _ by omega)
      (show payloadItemOffset _ ≤ payloadItemOffset _ by rw [Nat.zero_add]) hstops
    rw [hout]
    exact .stopped hnone hroom hstops

end Receive

end BekOS
