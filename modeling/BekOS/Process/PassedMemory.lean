import BekOS.Process.ForkReturns

/-!
# Memory that is passed on

An item of memory names a range, and the permissions to pass on.  `write_to_queue` looks the range
up twice, once for the permissions and once for the backing region, and both come to the same region
of the sender.  So a record of memory in a queue is the memory of a region that its sender held,
for permissions that the region allowed.
-/

namespace BekOS

open PartialRun

variable {σ : Type} {source : TableSource σ}

/-! ## What a send may queue -/

/-- One of the items names a region, and the record has its memory, for permissions that it
allows. -/
def PassedOn (regions : List UserspaceRegion) (items : List PayloadItem) (backing : BackingRegion)
    (permissions : MemoryOperation) : Prop :=
  ∃ ptr size canRead canWrite, .memory ptr size canRead canWrite ∈ items ∧
    permissions = allowedOps canRead canWrite ∧
    ∃ held ∈ regions, held.userRegion = ⟨ptr, size⟩ ∧ held.backing = backing ∧
      permissions &&& held.permissions = permissions

/-- Both lookups find the same region, which is the range. -/
theorem shareableMemory_eq_ok {regions : List UserspaceRegion} {ptr size : U64}
    {ops : MemoryOperation} {backing : BackingRegion}
    (h : shareableMemory regions ptr size ops = .ok backing) :
    ∃ held ∈ regions, held.userRegion = ⟨ptr, size⟩ ∧ held.backing = backing ∧
      ops &&& held.permissions = ops := by
  unfold shareableMemory checkRegion getShareableRegion at h
  cases hfind : regions.find? fun region => region.userRegion.contains ⟨ptr, size⟩ with
  | none =>
      rw [hfind] at h
      cases h
  | some held =>
      rw [hfind] at h
      dsimp only at h
      split_ifs at h with hallowed hrange
      cases h
      obtain ⟨hstart, hsize⟩ := not_or.mp hrange
      refine ⟨held, List.mem_of_find?_eq_some hfind, ?_, rfl, ?_⟩
      · rw [← not_not.mp hstart, ← not_not.mp hsize]
      · rw [BitVec.and_comm]
        exact beq_iff_eq.mp hallowed

/-- A record comes from a round that queued its content. -/
theorem exists_round_of_mem_records {count messageId : ℕ} {record : QueuedMessage}
    (done : List Round) :
    ∀ {i : ℕ}, record ∈ ItemFate.records count messageId i done →
      ∃ item, (item, .queued record.content) ∈ done := by
  induction done with
  | nil => exact fun h => absurd h List.not_mem_nil
  | cons round rest ih =>
      intro i h
      obtain ⟨item, fate⟩ := round
      cases fate with
      | queued content =>
          rcases List.mem_cons.mp h with rfl | hrest
          · exact ⟨item, List.mem_cons_self⟩
          · obtain ⟨other, hother⟩ := ih hrest
            exact ⟨other, List.mem_cons_of_mem _ hother⟩
      | skipped =>
          obtain ⟨other, hother⟩ := ih h
          exact ⟨other, List.mem_cons_of_mem _ hother⟩
      | refused code => exact absurd h List.not_mem_nil
      | halted halt => exact absurd h List.not_mem_nil

/-- Only an item of memory becomes a record of memory. -/
theorem itemFate_memory {sender : UserspaceState σ} {blocking : Bool} {size : ℕ}
    {ring : RingBuffer} {item : PayloadItem} {backing : BackingRegion}
    {permissions : MemoryOperation}
    (h : itemFate sender blocking size ring item = .queued (.memory backing permissions)) :
    PassedOn sender.addressSpaceManager.regions [item] backing permissions := by
  cases item with
  | data offset len =>
      unfold itemFate at h
      dsimp only at h
      split_ifs at h
      cases h
  | fd fd =>
      unfold itemFate at h
      dsimp only at h
      split at h
      · cases h
      · cases h
  | memory ptr size canRead canWrite =>
      unfold itemFate at h
      dsimp only at h
      split at h
      · cases h
      · rename_i region hshare
        cases h
        exact ⟨ptr, size, canRead, canWrite, List.mem_singleton_self _, rfl,
          shareableMemory_eq_ok hshare⟩
  | unknown kind => cases h

/-- **A send** queues memory that its sender may pass on, whatever it returns. -/
theorem writeToQueue_passes {sender : UserspaceState σ} {blocking : Bool}
    {sending : Sending} (ok : sending.queue.binaryQueue.Ok)
    {out : Sending × Except ErrorCode ℕ} (h : writeToQueue sender blocking sending = .ok out) :
    out.1.queue.binaryQueue.Ok ∧ ∀ record ∈ out.1.queue.messageQueue.items,
      record ∈ sending.queue.messageQueue.items ∨
        ∀ backing permissions, record.content = .memory backing permissions →
          PassedOn sender.addressSpaceManager.regions (sentItems sender blocking sending) backing
            permissions := by
  have hqueued : ∀ {buffer : UserBuffer} {header : MessageHeader} {totalDataSize : ℕ}
      {sending' : Sending}, firstPass blocking sending = (buffer, .ok (header, totalDataSize)) →
      QueuedAll { sending with buffer := buffer }
        (secondPass sender blocking header buffer sending.queue.binaryQueue)
        (header.records (secondPass sender blocking header buffer sending.queue.binaryQueue))
        sending' →
      sending'.queue.binaryQueue.Ok ∧ ∀ record ∈ sending'.queue.messageQueue.items,
        record ∈ sending.queue.messageQueue.items ∨
          ∀ backing permissions, record.content = .memory backing permissions →
            PassedOn sender.addressSpaceManager.regions (sentItems sender blocking sending)
              backing permissions := by
    intro buffer header totalDataSize sending' first queued
    refine ⟨queued.ok, fun record hrecord => ?_⟩
    rw [queued.items_eq] at hrecord
    refine (List.mem_append.mp hrecord).imp_right fun hnew backing permissions hcontent => ?_
    obtain ⟨item, hround⟩ := exists_round_of_mem_records _ hnew
    rw [hcontent] at hround
    obtain ⟨ring, hfate⟩ := fate_of_mem_rounds _ hround
    obtain ⟨ptr, size, canRead, canWrite, hitem, hpasses⟩ := itemFate_memory hfate.symm
    refine ⟨ptr, size, canRead, canWrite, ?_, hpasses⟩
    have hitems : sentItems sender blocking sending =
        (secondPass sender blocking header buffer sending.queue.binaryQueue).map Prod.fst := by
      rw [sentItems, first]
    rw [hitems, List.mem_singleton.mp hitem]
    exact List.mem_map_of_mem hround
  have hsends := writeToQueue_sends sender blocking ok
  rw [h] at hsends
  cases hsends with
  | rejected first => exact ⟨ok, fun record hrecord => Or.inl hrecord⟩
  | refused first second queued => exact hqueued first queued
  | sent first second queued => exact hqueued first queued

/-! ## What a receive leaves -/

/-- Reading leaves the indices in the ring, wherever it stops. -/
theorem RingBuffer.Ok.readRounds (fuel : ℕ) :
    ∀ {ring : RingBuffer} {dst : BufferSubset} {done : ℕ}
      {out : (RingBuffer × BufferSubset) × Except ErrorCode ℕ},
      ring.Ok → RingBuffer.readRounds fuel ring dst done = .ok out → out.1.1.Ok := by
  induction fuel with
  | zero =>
      intro ring dst done out _ h
      cases h
  | succ fuel ih =>
      intro ring dst done out ok h
      rw [RingBuffer.readRounds] at h
      split_ifs at h with hmore
      · rcases expectedTry_cases h with ⟨code, -, rfl⟩ | ⟨value, -, h⟩
        · exact ok
        · exact ih (ok.takePiece (min_le_left _ _)).1 h
      · cases h
        exact ok

theorem RingBuffer.Ok.readTo {ring : RingBuffer} {dst : BufferSubset}
    {out : (RingBuffer × BufferSubset) × Except ErrorCode ℕ} (ok : ring.Ok)
    (h : ring.readTo dst = .ok out) : out.1.1.Ok := by
  unfold RingBuffer.readTo at h
  split_ifs at h
  · cases h
    exact ok
  · exact ok.readRounds _ h

/-- A record that is delivered leaves the other records alone. -/
theorem deliverItem_queue {receiving : Receiving σ} {i : ℕ} {item : QueuedMessage}
    {out : Receiving σ × Except ErrorCode Unit} (ok : receiving.queue.binaryQueue.Ok)
    (h : deliverItem source receiving i item = .ok out) :
    out.1.queue.binaryQueue.Ok ∧
      out.1.queue.messageQueue = receiving.queue.messageQueue := by
  unfold deliverItem at h
  split at h
  · obtain ⟨target, -, h⟩ := bind_eq_ok.mp h
    obtain ⟨read, hread, h⟩ := bind_eq_ok.mp h
    have okRead := ok.readTo hread
    rcases expectedTry_cases h with ⟨code, -, rfl⟩ | ⟨value, -, h⟩
    · exact ⟨okRead, rfl⟩
    · cases h
      exact ⟨okRead, rfl⟩
  · cases h
    exact ⟨ok, rfl⟩
  · obtain ⟨placed, -, h⟩ := bind_eq_ok.mp h
    rcases expectedTry_cases h with ⟨code, -, rfl⟩ | ⟨value, -, h⟩
    · exact ⟨ok, rfl⟩
    · cases h
      exact ⟨ok, rfl⟩

theorem eq_of_mem_diff_insertIdx {α : Type} [DecidableEq α] {l : List α} {i : ℕ} {item x : α}
    (hi : i ≤ l.length) (h : x ∈ (l.insertIdx i item).diff l) : x = item := by
  have hcount := List.count_pos_iff.mpr h
  rw [List.count_diff, (List.perm_insertIdx item l hi).count_eq, List.count_cons] at hcount
  by_contra hne
  rw [if_neg (by simpa using Ne.symm hne)] at hcount
  omega

/-- What comes into an address space by a record is its memory, with its permissions. -/
theorem deliverItem_places {receiving : Receiving σ} {i : ℕ} {item : QueuedMessage}
    {out : Receiving σ × Except ErrorCode Unit}
    (h : deliverItem source receiving i item = .ok out) :
    ∀ region ∈ out.1.receiver.addressSpaceManager.regions.diff
        receiving.receiver.addressSpaceManager.regions,
      item.content = .memory region.backing region.permissions := by
  have hnone : ∀ {regions : List UserspaceRegion} {region}, region ∈ regions.diff regions →
      False := by
    intro regions region hregion
    have hcount := List.count_pos_iff.mpr hregion
    rw [List.count_diff, Nat.sub_self] at hcount
    cases hcount
  intro region hregion
  unfold deliverItem at h
  split at h
  · rw [deliverData_receiver h] at hregion
    exact (hnone hregion).elim
  · cases h
    exact (hnone hregion).elim
  · rename_i backing permissions hcontent
    obtain ⟨result, hplace⟩ := deliverMemory_places h
    rcases (placeRegion_inserts hplace).2 with ⟨-, hsame⟩ | ⟨idx, hidx, hinserted⟩
    · rw [hsame] at hregion
      exact (hnone hregion).elim
    · rw [hinserted] at hregion
      obtain rfl := eq_of_mem_diff_insertIdx hidx hregion
      exact hcontent

namespace Sharing

variable {state state' : Sharing σ} {history : List SharingReply} {reply : SharingReply}
  {queue : ℕ} {backing : BackingRegion} {permissions : MemoryOperation}

/-! ## Runs -/

/-- A send so far has passed this memory on, through this queue. -/
def SentBefore (history : List SharingReply) (queue : ℕ) (backing : BackingRegion)
    (permissions : MemoryOperation) : Prop :=
  ∃ regions items, .sent queue regions items ∈ history ∧
    PassedOn regions items backing permissions

/-- A send before it has passed on each region that a receive placed. -/
def Attributed (history : List SharingReply) : Prop :=
  ∀ i queue placed, history[i]? = some (.received queue placed) → ∀ region ∈ placed,
    SentBefore (history.take i) queue region.backing region.permissions

theorem SentBefore.mono {later : List SharingReply}
    (sent : SentBefore history queue backing permissions) (h : history ⊆ later) :
    SentBefore later queue backing permissions := by
  obtain ⟨regions, items, hsent, hpasses⟩ := sent
  exact ⟨regions, items, h hsent, hpasses⟩

theorem Attributed.concat (attributed : Attributed history)
    (h : ∀ queue placed, reply = .received queue placed → ∀ region ∈ placed,
      SentBefore history queue region.backing region.permissions) :
    Attributed (history ++ [reply]) := by
  intro i queue placed hi region hregion
  rcases Nat.lt_trichotomy i history.length with hlt | rfl | hgt
  · rw [List.getElem?_append_left hlt] at hi
    rw [List.take_append_of_le_length hlt.le]
    exact attributed i queue placed hi region hregion
  · rw [List.getElem?_concat_length] at hi
    rw [List.take_left]
    exact h queue placed (Option.some.inj hi) region hregion
  · rw [List.getElem?_eq_none (by rw [List.length_append, List.length_singleton]; omega)] at hi
    cases hi

/-- What the queues hold has been sent, and what has been received was sent before. -/
structure Passes (history : List SharingReply) (state : Sharing σ) : Prop where
  ring : ∀ messages ∈ state.queues, messages.binaryQueue.Ok
  sent : ∀ queue messages, state.queues[queue]? = some messages →
    ∀ record ∈ messages.messageQueue.items, ∀ backing permissions,
      record.content = .memory backing permissions → SentBefore history queue backing permissions
  attributed : Attributed history

theorem Passes.quiet (passes : Passes history state) (hqueues : state'.queues = state.queues)
    (h : ∀ queue placed, reply ≠ .received queue placed) : Passes (history ++ [reply]) state' where
  ring := hqueues ▸ passes.ring
  sent queue messages hmessages record hrecord backing permissions hcontent :=
    (passes.sent queue messages (hqueues ▸ hmessages) record hrecord backing permissions
      hcontent).mono (List.subset_append_left _ _)
  attributed := passes.attributed.concat fun queue placed heq => absurd heq (h queue placed)

/-- A call that changes one queue. -/
theorem Passes.requeue (passes : Passes history state) {messages' : MessageQueue}
    (hqueues : state'.queues = state.queues.set queue messages') (ring : messages'.binaryQueue.Ok)
    (hrecords : ∀ record ∈ messages'.messageQueue.items, ∀ backing permissions,
      record.content = .memory backing permissions →
        SentBefore (history ++ [reply]) queue backing permissions)
    (h : ∀ queue placed, reply = .received queue placed → ∀ region ∈ placed,
      SentBefore history queue region.backing region.permissions) :
    Passes (history ++ [reply]) state' where
  ring := by
    rw [hqueues]
    intro other hother
    rcases List.mem_or_eq_of_mem_set hother with hold | rfl
    · exact passes.ring other hold
    · exact ring
  sent other found hfound record hrecord backing permissions hcontent := by
    rw [hqueues, List.getElem?_set] at hfound
    split_ifs at hfound with hsame hlt
    · cases hfound
      subst hsame
      exact hrecords record hrecord backing permissions hcontent
    · exact (passes.sent other found hfound record hrecord backing permissions hcontent).mono
        (List.subset_append_left _ _)
  attributed := passes.attributed.concat h

/-- **One call** queues only what its sender may pass on, and places only what was queued. -/
theorem Passes.step (passes : Passes history state) {op : SharingOp}
    (h : step source state op = some (state', reply)) : Passes (history ++ [reply]) state' := by
  cases step_cases h with
  | connect =>
      have hring : MessageQueue.new.binaryQueue.Ok := RingBuffer.new_ok (by decide)
      refine ⟨fun messages hmessages => ?_, fun queue messages hmessages record hrecord backing
        permissions hcontent => ?_, passes.attributed.concat fun _ _ heq => by cases heq⟩
      · rcases List.mem_append.mp hmessages with hold | hnew
        · exact passes.ring messages hold
        · exact List.mem_singleton.mp hnew ▸ hring
      · have hmessages' : (state.queues ++ [MessageQueue.new])[queue]? = some messages := hmessages
        rcases Nat.lt_or_ge queue state.queues.length with hlt | hge
        · rw [List.getElem?_append_left hlt] at hmessages'
          exact (passes.sent queue messages hmessages' record hrecord backing permissions
            hcontent).mono (List.subset_append_left _ _)
        · rw [List.getElem?_append_right hge] at hmessages'
          obtain rfl := List.mem_singleton.mp (List.mem_of_getElem? hmessages')
          cases hrecord
  | send hold hmessages hcall =>
      obtain ⟨ring, hpassed⟩ :=
        writeToQueue_passes (passes.ring _ (List.mem_of_getElem? hmessages)) hcall
      refine passes.requeue rfl ring (fun record hrecord backing permissions hcontent => ?_)
        fun _ _ heq => by cases heq
      rcases hpassed record hrecord with hold | hnew
      · exact (passes.sent _ _ hmessages record hold backing permissions
          hcontent).mono (List.subset_append_left _ _)
      · exact ⟨_, _, List.mem_append_right _ (List.mem_singleton_self _),
          hnew backing permissions hcontent⟩
  | receive hold hmessages hitems hcall =>
      have hring := passes.ring _ (List.mem_of_getElem? hmessages)
      obtain ⟨ring, hrest⟩ := @deliverItem_queue _ _ _ _ _ _ hring hcall
      refine passes.requeue rfl ring (fun record hrecord backing permissions hcontent => ?_)
        (fun other placed heq region hregion => ?_)
      · rw [hrest] at hrecord
        exact (passes.sent _ _ hmessages record (hitems ▸ List.mem_cons_of_mem _ hrecord) backing
          permissions hcontent).mono (List.subset_append_left _ _)
      · cases heq
        exact passes.sent _ _ hmessages _ (hitems ▸ List.mem_cons_self) _ _
          (deliverItem_places hcall region hregion)
  | _ => exact passes.quiet rfl fun _ _ heq => by cases heq

theorem Passes.start (tables : TableState σ) : Passes [] (start tables) where
  ring _ h := absurd h List.not_mem_nil
  sent _ _ h := by cases h
  attributed _ _ _ h := by cases h

/-- **In every run** a send before it has passed on each region that a receive placed: a region
that its sender listed then, of the range that the item named, for permissions it allowed. -/
theorem run_attributed {tables : TableState σ} {ops : List SharingOp}
    {final : Sharing σ × List SharingReply}
    (hrun : runSteps (step source) (Sharing.start tables) ops = some final) :
    Attributed final.2 :=
  (runSteps_history (fun _ _ _ _ passes (_ : True) hstep => passes.step hstep)
    (Passes.start tables) (fun _ _ => trivial) hrun).attributed

theorem receivedSize_lt : 80 < 0x10000000000000000 := by decide

/-- A process forks, and then passes memory on to its child. -/
def passingOps : List SharingOp :=
  allocatingOps 0x1000 ++ [.connect, .fork 0,
    .send 0 0 [] (twoItems (.memory 0x80000000 0x1000 true false) (.data 0 1) fun _ bytes => bytes)
      false,
    .receive 1 0 [] ⟨80, receivedSize_lt, fun _ => 0, fun _ bytes => bytes, 0⟩ 0 0]

/-- The child has it by the send. -/
theorem run_attributed_child : ∃ final,
    runSteps (step TableSource.pool) (start (.empty initPool)) passingOps = some final ∧
      final.2.getLast?.map (fun reply => reply.placements.length) = some 1 ∧
        Attributed final.2 := by
  have hvalue : (runSteps (step TableSource.pool) (start (.empty initPool)) passingOps).map
      (fun final => final.2.getLast?.map fun reply => reply.placements.length) = some (some 1) := by
    decide +kernel
  obtain ⟨final, hrun, hplaced⟩ := Option.map_eq_some_iff.mp hvalue
  exact ⟨final, hrun, hplaced, run_attributed hrun⟩

end Sharing

end BekOS
