import BekOS.Process.Interlink

/-!
# What a send does

An item is queued, skipped, refused, or the end of everything, and which of these it is
can be told from the item, the sender and the indices of the ring: `itemFate`.  `Enqueues`
is the second pass over the items as a derivation, one step an item.
-/

namespace BekOS

/-- What the loop that queues the items does about one of them. -/
inductive ItemFate where
  | queued (content : QueuedContent)
  | skipped
  | refused (code : ErrorCode)
  | halted (halt : Halt)

/-- What becomes of an item, given the size of the buffer and the ring. -/
def itemFate {σ : Type} (sender : UserspaceState σ) (blocking : Bool) (size : ℕ)
    (ring : RingBuffer) : PayloadItem → ItemFate
  | .data offset len =>
      if ¬ (offset ≤ size ∧ u64 (offset + len) ≤ size) then .halted (.fault .panic)
      else if ring.freeBytes < len then
        if blocking then .halted .spin else .refused .EAGAIN
      else if size < u64 (ring.firstPiece len + offset) then .refused .EINVAL
      else .queued (.data len)
  | .fd fd =>
      match getOpenEntity sender.openEntities fd with
      | .error code => .refused code
      | .ok entity => .queued (.entity entity)
  | .memory ptr size canRead canWrite =>
      match shareableMemory sender.addressSpaceManager.regions ptr size
          (allowedOps canRead canWrite) with
      | .error code => .refused code
      | .ok region => .queued (.memory region (allowedOps canRead canWrite))
  | .unknown _ => .skipped

namespace QueuedContent

/-- The ring, as far as its indices go, once the content has been queued. -/
def ringAfter (ring : RingBuffer) : QueuedContent → RingBuffer
  | .data len => ring.movedOn len
  | .entity _ | .memory _ _ => ring

/-- The sender's buffer, once the content has been queued. -/
def bufferAfter (ring : RingBuffer) (buffer : UserBuffer) : QueuedContent → UserBuffer
  | .data len => UserBuffer.accessed^[ring.pieces len] buffer
  | .entity _ | .memory _ _ => buffer

end QueuedContent

namespace PayloadItem

/-- The bytes that an item names. -/
def bytes (memory : Memory Byte) : PayloadItem → List Byte
  | .data offset len => slice memory offset len
  | .fd _ | .memory _ _ _ _ | .unknown _ => []

/-- They are in a buffer of that size. -/
def Within (size : ℕ) : PayloadItem → Prop
  | .data offset len => offset + len ≤ size
  | .fd _ | .memory _ _ _ _ | .unknown _ => True

end PayloadItem

/-- A record has been queued, and what it stands for is in the ring. -/
structure Queued (sending : Sending) (item : PayloadItem) (message : QueuedMessage)
    (sending' : Sending) : Prop where
  ok : sending'.queue.binaryQueue.Ok
  ring_eq : sending'.queue.binaryQueue =
    { message.content.ringAfter sending.queue.binaryQueue with
      buffer := sending'.queue.binaryQueue.buffer }
  buffer_eq : sending'.buffer =
    message.content.bufferAfter sending.queue.binaryQueue sending.buffer
  items_eq : sending'.queue.messageQueue.items =
    sending.queue.messageQueue.items ++ [message]
  contents_eq : ∃ bytes, bytes.length = message.dataSize ∧
    sending'.queue.binaryQueue.contents = sending.queue.binaryQueue.contents ++ bytes ∧
    (sending.buffer.Private → item.Within sending.buffer.size →
      bytes = item.bytes sending.buffer.bytes)

section Item

variable {σ : Type} {sender : UserspaceState σ} {blocking isFinal : Bool} {messageId : ℕ}
  {sending : Sending} {item : PayloadItem}

theorem push_ok (sending : Sending) (message : QueuedMessage) :
    ∃ sending', sending.push message = .ok (sending', .ok ()) ∧
      sending'.buffer = sending.buffer ∧
      sending'.queue.binaryQueue = sending.queue.binaryQueue ∧
      sending'.queue.messageQueue.items = sending.queue.messageQueue.items ++ [message] := by
  obtain ⟨messages, hpush, hitems⟩ := sending.queue.messageQueue.pushBack_ok message
  refine ⟨{ sending with queue := { sending.queue with messageQueue := messages } }, ?_, rfl, rfl,
    hitems⟩
  unfold Sending.push
  rw [hpush]
  rfl

theorem queued_push (ok : sending.queue.binaryQueue.Ok) {content : QueuedContent}
    (hring : content.ringAfter sending.queue.binaryQueue = sending.queue.binaryQueue)
    (hbuffer : content.bufferAfter sending.queue.binaryQueue sending.buffer = sending.buffer)
    (hsize : (⟨content, isFinal, messageId⟩ : QueuedMessage).dataSize = 0)
    (hbytes : item.bytes sending.buffer.bytes = []) :
    ∃ sending', sending.push ⟨content, isFinal, messageId⟩ = .ok (sending', .ok ()) ∧
      Queued sending item ⟨content, isFinal, messageId⟩ sending' := by
  obtain ⟨sending', hpush, hbuffer', hring', hitems⟩ :=
    push_ok sending ⟨content, isFinal, messageId⟩
  refine ⟨sending', hpush, by rwa [hring'], by rw [hring, hring'], by rw [hbuffer', hbuffer],
    hitems, [], hsize.symm, ?_, fun _ _ => hbytes.symm⟩
  rw [hring', List.append_nil]

/-- What an outcome is for each fate. -/
def ItemFate.Describes (sending : Sending) (item : PayloadItem) (isFinal : Bool) (messageId : ℕ)
    (out : Except Halt (Sending × Except ErrorCode Unit)) : ItemFate → Prop
  | .halted halt => out = .error halt
  | .refused code => out = .ok (sending, .error code)
  | .skipped => out = .ok (sending, .ok ())
  | .queued content => ∃ sending', out = .ok (sending', .ok ()) ∧
      Queued sending item ⟨content, isFinal, messageId⟩ sending'

theorem enqueueData_eq {offset len : ℕ} {ring : RingBuffer} {subset : BufferSubset}
    {result : Except ErrorCode ℕ}
    (hbounds : offset ≤ sending.buffer.size ∧ u64 (offset + len) ≤ sending.buffer.size) :
    sending.queue.binaryQueue.writeTo ⟨sending.buffer, offset, len⟩ = .ok ((ring, subset), result) →
    enqueueData blocking isFinal messageId sending offset len =
      match result with
      | .error code =>
          if code = .EAGAIN ∧ blocking then .error .spin
          else .ok (⟨subset.buffer, { sending.queue with binaryQueue := ring }⟩, .error code)
      | .ok size =>
          Sending.push ⟨subset.buffer, { sending.queue with binaryQueue := ring }⟩
            ⟨.data size, isFinal, messageId⟩ := by
  intro hwrite
  have hcreate : BufferSubset.create sending.buffer offset len =
      .ok ⟨sending.buffer, offset, len⟩ := if_pos hbounds
  unfold enqueueData
  rw [hcreate]
  show Except.bind (sending.queue.binaryQueue.writeTo ⟨sending.buffer, offset, len⟩) _ = _
  rw [hwrite]
  cases result <;> rfl

theorem enqueueData_spec (ok : sending.queue.binaryQueue.Ok) {offset len : ℕ} :
    (itemFate sender blocking sending.buffer.size sending.queue.binaryQueue
        (.data offset len)).Describes sending (.data offset len) isFinal messageId
      (enqueueData blocking isFinal messageId sending offset len) := by
  unfold itemFate
  dsimp only
  by_cases hbounds : offset ≤ sending.buffer.size ∧ u64 (offset + len) ≤ sending.buffer.size
  · have hsize := sending.buffer.size_lt
    rw [if_neg (not_not_intro hbounds)]
    by_cases hfull : sending.queue.binaryQueue.freeBytes < len
    · rw [if_pos hfull, enqueueData_eq hbounds (RingBuffer.writeTo_full hfull)]
      cases blocking <;> rfl
    rw [if_neg hfull]
    by_cases hrefused : sending.buffer.size <
        u64 (sending.queue.binaryQueue.firstPiece len + offset)
    · have hlen : 0 < len := by
        rcases Nat.eq_zero_or_pos len with rfl | hpos
        · have hnone : sending.queue.binaryQueue.firstPiece 0 = 0 := Nat.min_zero _
          rw [hnone, Nat.zero_add, u64_of_lt (by omega)] at hrefused
          omega
        · exact hpos
      rw [if_pos hrefused, enqueueData_eq hbounds (RingBuffer.writeTo_refused
        (Nat.not_lt.mp hfull) hlen (show offset < _ by omega) hrefused)]
      rfl
    · rw [if_neg hrefused]
      obtain ⟨ring', subset', hwrite, wrote⟩ := @RingBuffer.writeTo_ok _
        ⟨sending.buffer, offset, len⟩ ok (Nat.not_lt.mp hfull)
        (show offset < _ by omega) hbounds.2 (Nat.not_lt.mp hrefused)
      rw [enqueueData_eq hbounds hwrite]
      obtain ⟨sending', hpush, hbuffer, hring, hitems⟩ := push_ok
        ⟨subset'.buffer, { sending.queue with binaryQueue := ring' }⟩
        ⟨.data len, isFinal, messageId⟩
      refine ⟨sending', hpush, by rw [hring]; exact wrote.ok, ?_, ?_, hitems, ?_⟩
      · rw [hring]
        exact wrote.ring_eq
      · rw [hbuffer]
        exact wrote.buffer_eq
      · rw [hring]
        exact wrote.contents_eq
  · have hcreate : BufferSubset.create sending.buffer offset len = .error (.fault .panic) :=
      if_neg hbounds
    rw [if_pos hbounds]
    unfold enqueueData
    rw [hcreate]
    rfl

/-- **Queuing an item** does what its fate says. -/
theorem enqueueItem_spec (ok : sending.queue.binaryQueue.Ok) :
    (itemFate sender blocking sending.buffer.size sending.queue.binaryQueue item).Describes
      sending item isFinal messageId
      (enqueueItem sender blocking isFinal messageId sending item) := by
  cases item with
  | data offset len => exact enqueueData_spec ok
  | fd fd =>
      unfold itemFate enqueueItem
      dsimp only
      cases getOpenEntity sender.openEntities fd with
      | error code => exact rfl
      | ok entity =>
          exact @queued_push _ _ _ (.fd fd) ok (.entity entity) rfl rfl rfl rfl
  | memory ptr size canRead canWrite =>
      unfold itemFate enqueueItem
      dsimp only
      cases shareableMemory sender.addressSpaceManager.regions ptr size
          (allowedOps canRead canWrite) with
      | error code => exact rfl
      | ok region =>
          exact @queued_push _ _ _ (.memory ptr size canRead canWrite) ok
            (.memory region (allowedOps canRead canWrite)) rfl rfl rfl rfl
  | unknown kind => exact rfl

end Item

/-! ## The second pass -/

namespace UserBuffer

/-- Item `i`, as the buffer is. -/
def item (buffer : UserBuffer) (i : ℕ) : PayloadItem :=
  .ofMemory (copyRange (fun _ => 0) 0 buffer.bytes (payloadItemOffset i) payloadItemSize)

/-- Item `i` is in the buffer, in 64 bits. -/
def HasItem (buffer : UserBuffer) (i : ℕ) : Prop :=
  u64 (payloadItemSize + payloadItemOffset i) ≤ buffer.size

theorem readItem_eq {buffer : UserBuffer} {i : ℕ} (h : buffer.HasItem i) :
    buffer.readItem i = (buffer.accessed, .ok (buffer.accessed.item i)) := by
  unfold readItem readTo
  rw [if_neg (Nat.not_lt.mpr h)]
  rfl

theorem readItem_of_not {buffer : UserBuffer} {i : ℕ} (h : ¬ buffer.HasItem i) :
    buffer.readItem i = (buffer, .error .EINVAL) := by
  unfold readItem readTo
  rw [if_pos (Nat.not_le.mp h)]
  rfl

end UserBuffer

/-- An item as the loop reads it, and what becomes of it. -/
abbrev Round : Type := PayloadItem × ItemFate

namespace ItemFate

/-- The records of the rounds from round `i` on. -/
def records (count messageId : ℕ) : ℕ → List Round → List QueuedMessage
  | _, [] => []
  | i, (_, .queued content) :: rest =>
      ⟨content, i + 1 == count, messageId⟩ :: records count messageId (i + 1) rest
  | i, (_, .skipped) :: rest => records count messageId (i + 1) rest
  | _, (_, .refused _) :: _ => []
  | _, (_, .halted _) :: _ => []

/-- How the rounds end. -/
def ending : List Round → Except Halt (Except ErrorCode Unit)
  | [] => .ok (.ok ())
  | (_, .halted halt) :: _ => .error halt
  | (_, .refused code) :: _ => .ok (.error code)
  | (_, .queued _) :: rest => ending rest
  | (_, .skipped) :: rest => ending rest

/-- The bytes that go to the ring. -/
def queuedBytes (memory : Memory Byte) : List Round → List Byte
  | [] => []
  | (item, .queued _) :: rest => item.bytes memory ++ queuedBytes memory rest
  | (_, .skipped) :: rest => queuedBytes memory rest
  | (_, .refused _) :: _ => []
  | (_, .halted _) :: _ => []

end ItemFate

section Rounds

variable {σ : Type} (sender : UserspaceState σ) (blocking : Bool)

/-- The rounds of the loop that queues the items, up to the one that ends it early. -/
def rounds : ℕ → ℕ → UserBuffer → RingBuffer → List Round
  | 0, _, _, _ => []
  | remaining + 1, i, buffer, ring =>
      let item := buffer.accessed.item i
      let fate := itemFate sender blocking buffer.size ring item
      (item, fate) ::
        match fate with
        | .queued content =>
            rounds remaining (i + 1) (content.bufferAfter ring buffer.accessed)
              (content.ringAfter ring)
        | .skipped => rounds remaining (i + 1) buffer.accessed ring
        | .refused _ | .halted _ => []

end Rounds

/-- The records of some rounds have been queued, and nothing else. -/
structure QueuedAll (sending : Sending) (done : List Round) (records : List QueuedMessage)
    (sending' : Sending) : Prop where
  ok : sending'.queue.binaryQueue.Ok
  size_eq : sending'.queue.binaryQueue.size = sending.queue.binaryQueue.size
  items_eq : sending'.queue.messageQueue.items = sending.queue.messageQueue.items ++ records
  unchanged : records = [] → sending'.queue = sending.queue
  contents_eq : ∃ bytes, bytes.length = (records.map QueuedMessage.dataSize).sum ∧
    sending'.queue.binaryQueue.contents = sending.queue.binaryQueue.contents ++ bytes ∧
    (sending.buffer.Private → (∀ round ∈ done, round.1.Within sending.buffer.size) →
      bytes = ItemFate.queuedBytes sending.buffer.bytes done)

/-- What an outcome is, given the rounds. -/
def EndsAs (sending : Sending) (done : List Round) (records : List QueuedMessage)
    (out : Except Halt (Sending × Except ErrorCode Unit)) : Prop :=
  match ItemFate.ending done with
  | .error halt => out = .error halt
  | .ok result => ∃ sending', out = .ok (sending', result) ∧ QueuedAll sending done records sending'

section SecondPass

variable {σ : Type} {sender : UserspaceState σ} {blocking : Bool} {count messageId : ℕ}

@[simp] theorem size_bufferAfter (content : QueuedContent) (ring : RingBuffer)
    (buffer : UserBuffer) : (content.bufferAfter ring buffer).size = buffer.size := by
  cases content with
  | data len => exact buffer.size_iterate_accessed (ring.pieces len)
  | entity handle => rfl
  | memory region permissions => rfl

theorem private_bufferAfter {content : QueuedContent} {ring : RingBuffer} {buffer : UserBuffer}
    (h : buffer.Private) : (content.bufferAfter ring buffer).Private ∧
      (content.bufferAfter ring buffer).bytes = buffer.bytes := by
  cases content with
  | data len => exact h.iterate_accessed (ring.pieces len)
  | entity handle => exact ⟨h, rfl⟩
  | memory region permissions => exact ⟨h, rfl⟩

theorem rounds_congr (bytes : Memory Byte) (remaining : ℕ) :
    ∀ (i : ℕ) (buffer : UserBuffer) (ring : RingBuffer),
      rounds sender blocking remaining i buffer { ring with buffer := bytes } =
        rounds sender blocking remaining i buffer ring := by
  induction remaining with
  | zero => exact fun _ _ _ => rfl
  | succ remaining ih =>
      intro i buffer ring
      have hfate : itemFate sender blocking buffer.size { ring with buffer := bytes }
          (buffer.accessed.item i) =
          itemFate sender blocking buffer.size ring (buffer.accessed.item i) := by
        cases buffer.accessed.item i <;> rfl
      rw [rounds, rounds, hfate]
      refine congrArg (_ :: ·) ?_
      cases itemFate sender blocking buffer.size ring (buffer.accessed.item i) with
      | halted halt => rfl
      | refused code => rfl
      | skipped => exact ih (i + 1) buffer.accessed ring
      | queued content =>
          cases content with
          | data len => exact ih (i + 1) _ (ring.movedOn len)
          | entity handle => exact ih (i + 1) _ ring
          | memory region permissions => exact ih (i + 1) _ ring

theorem QueuedAll.refl {sending : Sending} (ok : sending.queue.binaryQueue.Ok) {done : List Round}
    (hdone : ItemFate.queuedBytes sending.buffer.bytes done = []) (buffer : UserBuffer) :
    QueuedAll sending done [] { sending with buffer := buffer } :=
  ⟨ok, rfl, (List.append_nil _).symm, fun _ => rfl, [], rfl, (List.append_nil _).symm,
    fun _ _ => hdone.symm⟩

theorem QueuedAll.skip {sending sending' : Sending} {item : PayloadItem} {later : List Round}
    {records : List QueuedMessage}
    (h : QueuedAll { sending with buffer := sending.buffer.accessed } later records sending') :
    QueuedAll sending ((item, .skipped) :: later) records sending' := by
  obtain ⟨ok, hsize, hitems, hunchanged, bytes, hlength, hcontents, hbytes⟩ := h
  refine ⟨ok, hsize, hitems, hunchanged, bytes, hlength, hcontents, fun hprivate hwithin => ?_⟩
  have := hbytes (fun n => hprivate n) fun round hround =>
    hwithin round (List.mem_cons_of_mem _ hround)
  rw [this]
  show ItemFate.queuedBytes sending.buffer.accessed.bytes later = _
  rw [hprivate.accessed_bytes]
  rfl

theorem Queued.cons {sending middle sending' : Sending} {item : PayloadItem}
    {message : QueuedMessage} {later : List Round} {records : List QueuedMessage}
    (first : Queued { sending with buffer := sending.buffer.accessed } item message middle)
    (rest : QueuedAll middle later records sending') :
    QueuedAll sending ((item, .queued message.content) :: later) (message :: records)
      sending' := by
  obtain ⟨_, hring, hbuffer, hitems, bytes, hlength, hcontents, hbytes⟩ := first
  obtain ⟨ok', hsize', hitems', -, bytes', hlength', hcontents', hbytes'⟩ := rest
  refine ⟨ok', ?_, ?_, nofun, bytes ++ bytes', ?_, ?_, fun hprivate hwithin => ?_⟩
  · rw [hsize', hring]
    cases message.content <;> rfl
  · rw [hitems', hitems, List.append_assoc]
    rfl
  · rw [List.length_append, hlength, hlength']
    rfl
  · rw [hcontents', hcontents, List.append_assoc]
  · obtain ⟨hprivate', hsame⟩ := @private_bufferAfter message.content
      sending.queue.binaryQueue sending.buffer.accessed fun n => hprivate n
    rw [hbytes (fun n => hprivate n) (hwithin _ (List.mem_cons_self ..)),
      hbytes' (by rw [hbuffer]; exact hprivate') ?_, hbuffer]
    · show item.bytes sending.buffer.accessed.bytes ++ ItemFate.queuedBytes
        (message.content.bufferAfter sending.queue.binaryQueue sending.buffer.accessed).bytes
          later = _
      rw [hsame, hprivate.accessed_bytes]
      rfl
    · intro round hround
      rw [hbuffer, size_bufferAfter]
      exact hwithin round (List.mem_cons_of_mem _ hround)

/-- A round that neither halts nor is refused leaves the ending to the later ones. -/
theorem EndsAs.behind {sending middle : Sending} {round : Round} {later : List Round}
    {records all : List QueuedMessage} {out : Except Halt (Sending × Except ErrorCode Unit)}
    (hending : ItemFate.ending (round :: later) = ItemFate.ending later)
    (h : EndsAs middle later records out) (hqueued : ∀ {sending'},
      QueuedAll middle later records sending' → QueuedAll sending (round :: later) all sending') :
    EndsAs sending (round :: later) all out := by
  unfold EndsAs at h ⊢
  rw [hending]
  cases hlater : ItemFate.ending later with
  | error halt =>
      rw [hlater] at h
      exact h
  | ok result =>
      rw [hlater] at h
      obtain ⟨sending', hout, hrest⟩ := h
      exact ⟨sending', hout, hqueued hrest⟩

/-- **The loop that queues the items** ends as its rounds say. -/
theorem enqueueItems_spec (remaining : ℕ) :
    ∀ (i : ℕ) (sending : Sending), sending.queue.binaryQueue.Ok →
      (∀ j < remaining, sending.buffer.HasItem (i + j)) →
      EndsAs sending (rounds sender blocking remaining i sending.buffer sending.queue.binaryQueue)
        (ItemFate.records count messageId i
          (rounds sender blocking remaining i sending.buffer sending.queue.binaryQueue))
        (enqueueItems sender blocking count messageId remaining i sending) := by
  induction remaining with
  | zero =>
      intro i sending ok _
      exact ⟨sending, rfl, QueuedAll.refl ok rfl sending.buffer⟩
  | succ remaining ih =>
      intro i sending ok hitems
      have hread := UserBuffer.readItem_eq (hitems 0 (Nat.succ_pos remaining))
      have hspec := @enqueueItem_spec _ sender blocking (i + 1 == count) messageId
        { sending with buffer := sending.buffer.accessed } (sending.buffer.accessed.item i) ok
      have hlater : ∀ buffer : UserBuffer, buffer.size = sending.buffer.size →
          ∀ j < remaining, buffer.HasItem (i + 1 + j) := by
        intro buffer hsize j hj
        have := hitems (j + 1) (Nat.succ_lt_succ hj)
        rw [Nat.add_assoc, Nat.add_comm 1 j]
        unfold UserBuffer.HasItem
        rw [hsize]
        exact this
      rw [Nat.add_zero] at hread
      rw [enqueueItems, hread, rounds]
      unfold expectedTry
      dsimp only at hspec ⊢
      rw [UserBuffer.accessed_size] at hspec
      cases hfate : itemFate sender blocking sending.buffer.size sending.queue.binaryQueue
          (sending.buffer.accessed.item i) with
      | halted halt =>
          have hhalted := hfate ▸ hspec
          rw [show enqueueItem sender blocking (i + 1 == count) messageId _ _ = _ from hhalted]
          exact rfl
      | refused code =>
          have hrefused := hfate ▸ hspec
          rw [show enqueueItem sender blocking (i + 1 == count) messageId _ _ = _ from hrefused]
          exact ⟨{ sending with buffer := sending.buffer.accessed }, rfl, QueuedAll.refl ok rfl _⟩
      | skipped =>
          have hskipped := hfate ▸ hspec
          rw [show enqueueItem sender blocking (i + 1 == count) messageId _ _ = _ from hskipped]
          have hrest := ih (i + 1) { sending with buffer := sending.buffer.accessed } ok
            (hlater _ rfl)
          exact hrest.behind rfl QueuedAll.skip
      | queued content =>
          have hqueued := hfate ▸ hspec
          obtain ⟨middle, hout, hqueued⟩ := hqueued
          rw [hout]
          have hrest := ih (i + 1) middle hqueued.ok
            (hlater _ (by rw [hqueued.buffer_eq, size_bufferAfter]; rfl))
          rw [hqueued.ring_eq, rounds_congr, hqueued.buffer_eq] at hrest
          exact hrest.behind rfl hqueued.cons

theorem fate_of_mem_rounds {item : PayloadItem} {fate : ItemFate} (remaining : ℕ) :
    ∀ {i : ℕ} {buffer : UserBuffer} {ring : RingBuffer},
      (item, fate) ∈ rounds sender blocking remaining i buffer ring →
      ∃ ring', fate = itemFate sender blocking buffer.size ring' item := by
  induction remaining with
  | zero => exact fun h => nomatch h
  | succ remaining ih =>
      intro i buffer ring h
      rw [rounds] at h
      rcases List.mem_cons.mp h with hfirst | hlater
      · cases hfirst
        exact ⟨ring, rfl⟩
      · revert hlater
        cases itemFate sender blocking buffer.size ring (buffer.accessed.item i) with
        | queued content =>
            intro hlater
            obtain ⟨ring', hfate⟩ := ih hlater
            exact ⟨ring', by rwa [size_bufferAfter] at hfate⟩
        | skipped =>
            intro hlater
            obtain ⟨ring', hfate⟩ := ih hlater
            exact ⟨ring', hfate⟩
        | refused code => exact fun hlater => nomatch hlater
        | halted halt => exact fun hlater => nomatch hlater

/-- Only the last round ends the loop. -/
inductive StopsLast : List Round → Prop
  | nil : StopsLast []
  | queued {item : PayloadItem} {content : QueuedContent} {later : List Round}
      (rest : StopsLast later) : StopsLast ((item, .queued content) :: later)
  | skipped {item : PayloadItem} {later : List Round} (rest : StopsLast later) :
      StopsLast ((item, .skipped) :: later)
  | refused {item : PayloadItem} {code : ErrorCode} : StopsLast [(item, .refused code)]
  | halted {item : PayloadItem} {halt : Halt} : StopsLast [(item, .halted halt)]

theorem rounds_stopsLast (remaining : ℕ) :
    ∀ (i : ℕ) (buffer : UserBuffer) (ring : RingBuffer),
      StopsLast (rounds sender blocking remaining i buffer ring) := by
  induction remaining with
  | zero => exact fun _ _ _ => .nil
  | succ remaining ih =>
      intro i buffer ring
      rw [rounds]
      cases itemFate sender blocking buffer.size ring (buffer.accessed.item i) with
      | queued content => exact .queued (ih _ _ _)
      | skipped => exact .skipped (ih _ _ _)
      | refused code => exact .refused
      | halted halt => exact .halted

variable {done : List Round}

theorem StopsLast.ending_eq_error (h : StopsLast done) {halt : Halt} :
    ItemFate.ending done = .error halt ↔ ∃ item, (item, ItemFate.halted halt) ∈ done := by
  induction h with
  | nil => exact iff_of_false nofun fun ⟨_, h⟩ => nomatch h
  | queued _ ih => simpa [ItemFate.ending] using ih
  | skipped _ ih => simpa [ItemFate.ending] using ih
  | refused => simp [ItemFate.ending]
  | halted => simp [ItemFate.ending, eq_comm]

theorem StopsLast.ending_eq_refused (h : StopsLast done) {code : ErrorCode} :
    ItemFate.ending done = .ok (.error code) ↔ ∃ item, (item, ItemFate.refused code) ∈ done := by
  induction h with
  | nil => exact iff_of_false nofun fun ⟨_, h⟩ => nomatch h
  | queued _ ih => simpa [ItemFate.ending] using ih
  | skipped _ ih => simpa [ItemFate.ending] using ih
  | refused => simp [ItemFate.ending, eq_comm]
  | halted => simp [ItemFate.ending]

theorem StopsLast.records_eq_nil (h : StopsLast done) {i : ℕ} :
    ItemFate.records count messageId i done = [] ↔
      ¬ ∃ item content, (item, ItemFate.queued content) ∈ done := by
  induction h generalizing i with
  | nil => exact iff_of_true rfl fun ⟨_, _, h⟩ => nomatch h
  | queued _ _ => exact iff_of_false nofun fun h => h ⟨_, _, List.mem_cons_self ..⟩
  | skipped _ ih => simpa [ItemFate.records] using ih
  | refused => simp [ItemFate.records]
  | halted => simp [ItemFate.records]

end SecondPass

end BekOS
