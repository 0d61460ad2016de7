import BekOS.Mm.SpaceBuilding
import BekOS.Process.Elf
import BekOS.Process.InterlinkOutcomes

/-!
# Processes that share memory

Memory gets into an address space in four ways: `sys_allocate`, the loading of an
executable, `fork`, and an interlink message that passes it on.  `Sharing` is the state
these calls work on: the address spaces of all processes, with their tables in one memory;
the queues of the connections; and the allocations, which are objects of their own.

Two things differ from the source in when they happen, and allow more runs for it.  The
last reference to an allocation destroys it; here `reclaim` does, in any later step.  And
a receive takes one record at a time.  Its loop destroys the record at the end of each
round, which only a record of data survives; here the run goes on.
-/

namespace BekOS

/-- The processes, by their address spaces; the queues of the connections; the allocations
that have not been destroyed; and how many objects there have been. -/
structure Sharing (σ : Type) where
  tables : TableState σ
  spaces : List (Option AddressSpace)
  queues : List MessageQueue
  allocations : List BackingRegion
  objectCount : ℕ

/-- A call of one process. -/
inductive SharingOp where
  /-- A process without an address space comes up. -/
  | spawn
  /-- A connection comes up; here, one direction of it. -/
  | connect
  | allocate (pid : ℕ) (address size : U64)
  | execute (pid : ℕ) (file : ExecutableFile) (arguments environ : List ℕ)
  | fork (pid : ℕ)
  | send (pid queue : ℕ) (openEntities : List LocalEntityHandle) (buffer : UserBuffer)
      (blocking : Bool)
  | receive (pid queue : ℕ) (openEntities : List LocalEntityHandle) (buffer : UserBuffer)
      (i offset : ℕ)
  | reclaim (backing : BackingRegion)

/-- What a call has done: the regions that came into an address space; for a send, the
regions of its sender and the items it read to queue them. -/
inductive SharingReply where
  | placed (regions : List UserspaceRegion)
  | sent (queue : ℕ) (regions : List UserspaceRegion) (items : List PayloadItem)
  | received (queue : ℕ) (regions : List UserspaceRegion)
  | none

/-- The regions that came into an address space. -/
def SharingReply.placements : SharingReply → List UserspaceRegion
  | placed regions | received _ regions => regions
  | sent _ _ _ | none => []

/-- The memory that a record holds. -/
def QueuedMessage.backing? (message : QueuedMessage) : Option BackingRegion :=
  match message.content with
  | .memory region _ => some region
  | .data _ | .entity _ => none

/-- The items that a send reads to queue them. -/
def sentItems {σ : Type} (sender : UserspaceState σ) (blocking : Bool) (sending : Sending) :
    List PayloadItem :=
  match firstPass blocking sending with
  | (_, .error _) => []
  | (buffer, .ok (header, _)) =>
      (secondPass sender blocking header buffer sending.queue.binaryQueue).map Prod.fst

namespace Sharing

variable {σ : Type}

/-- No processes yet. -/
def start (tables : TableState σ) : Sharing σ where
  tables := tables
  spaces := []
  queues := []
  allocations := []
  objectCount := 0

/-- The address space of a process. -/
def space (state : Sharing σ) (pid : ℕ) : Option AddressSpace := state.spaces[pid]?.join

/-- What the address spaces and the records refer to. -/
def references (state : Sharing σ) : List BackingRegion :=
  (state.spaces.flatMap fun space =>
      (space.map AddressSpace.regions).getD [] |>.map UserspaceRegion.backing) ++
    state.queues.flatMap fun queue => queue.messageQueue.items.filterMap QueuedMessage.backing?

/-- The objects that a call made: those of the regions that are not numbered yet. -/
def created (state : Sharing σ) (regions : List UserspaceRegion) : List BackingRegion :=
  (regions.map UserspaceRegion.backing).filter fun backing => state.objectCount ≤ backing.object

/-- A call is over that made at most so many objects, for these regions. -/
def afterCall (state : Sharing σ) (space : SpaceManager σ) (objects : ℕ) : Sharing σ :=
  { state with
    tables := space.tables
    allocations := state.allocations ++ state.created space.regions
    objectCount := state.objectCount + objects }

/-- The process has this address space. -/
def install (state : Sharing σ) (pid : ℕ) (space : SpaceManager σ) : Sharing σ :=
  { state with spaces := state.spaces.set pid (some ⟨space.regions, space.root⟩) }

variable (source : TableSource σ)

/-- `sys_allocate` -/
def allocate (state : Sharing σ) (pid : ℕ) (old : AddressSpace) (address size : U64) :
    Except Fault (Sharing σ × SharingReply) := do
  let (space, _) ← sysAllocate source (old.manager state.tables) address size state.objectCount
  return ((state.afterCall space 1).install pid space, .placed (space.regions.diff old.regions))

/-- `execute_executable`; an address space that it could not set up is dropped. -/
def execute (state : Sharing σ) (pid : ℕ) (file : ExecutableFile) (arguments environ : List ℕ) :
    Except Fault (Sharing σ × SharingReply) :=
  match ElfFile.parseFile file with
  | .error _ => .ok (state, .none)
  | .ok elf => do
      let space ← SpaceManager.create source state.tables
      let (space, result) ← elf.setUpSpace source space arguments environ state.objectCount
      let after := state.afterCall space (elf.programHeaders.length + 1)
      match result with
      | .error _ => return (after, .none)
      | .ok _ => return (after.install pid space, .placed space.regions)

/-- `sys_fork`: the child is a new process. -/
def fork (state : Sharing σ) (old : AddressSpace) : Except Fault (Sharing σ × SharingReply) := do
  let (clone, code) ← cloneForFork source (old.manager state.tables) state.objectCount
  let after := state.afterCall clone old.regions.length
  if code ≠ .ESUCCESS then return (after, .none)
  else
    return ({ after with spaces := after.spaces ++ [some ⟨clone.regions, clone.root⟩] },
      .placed clone.regions)

/-- `write_to_queue`, of a message from one process. -/
def send (state : Sharing σ) (old : AddressSpace) (queue : ℕ) (messages : MessageQueue)
    (openEntities : List LocalEntityHandle) (buffer : UserBuffer) (blocking : Bool) :
    Except Halt (Sharing σ × SharingReply) :=
  let sender : UserspaceState σ := ⟨openEntities, old.manager state.tables⟩
  (writeToQueue sender blocking ⟨buffer, messages⟩).map fun sent =>
    ({ state with queues := state.queues.set queue sent.1.queue },
      .sent queue old.regions (sentItems sender blocking ⟨buffer, messages⟩))

/-- One round of the loop of `read_from_queue`, up to the destruction of the record. -/
def receive (state : Sharing σ) (pid : ℕ) (old : AddressSpace) (queue : ℕ)
    (messages : MessageQueue) (openEntities : List LocalEntityHandle) (buffer : UserBuffer)
    (i offset : ℕ) : Except Halt (Sharing σ × SharingReply) := do
  let (item, items) ← messages.messageQueue.pop 0
  let (receiving, _) ← deliverItem source
    { buffer
      queue := { messages with messageQueue := items }
      receiver := ⟨openEntities, old.manager state.tables⟩
      currentDataOffset := offset } i item
  let space := receiving.receiver.addressSpaceManager
  return ({ (state.afterCall space 0).install pid space with
      queues := state.queues.set queue receiving.queue },
    .received queue (space.regions.diff old.regions))

/-- `~UserOwnedAllocation`, of an allocation that nobody refers to. -/
def reclaim (state : Sharing σ) (backing : BackingRegion) : Option (Sharing σ) :=
  if backing ∈ state.allocations ∧ backing ∉ state.references then
    some { state with
      tables := freeAllocation source state.tables backing
      allocations := state.allocations.filter (· ≠ backing) }
  else none

/-- One call, for runs: they stop where the kernel does, and where there is no such process
or connection. -/
def step (state : Sharing σ) : SharingOp → Option (Sharing σ × SharingReply)
  | .spawn => some ({ state with spaces := state.spaces ++ [Option.none] }, .none)
  | .connect => some ({ state with queues := state.queues ++ [.new] }, .none)
  | .allocate pid address size =>
      (state.space pid).bind fun old => (state.allocate source pid old address size).toOption
  | .execute pid file arguments environ =>
      if pid < state.spaces.length then
        (state.execute source pid file arguments environ).toOption
      else Option.none
  | .fork pid => (state.space pid).bind fun old => (state.fork source old).toOption
  | .send pid queue openEntities buffer blocking =>
      (state.space pid).bind fun old => state.queues[queue]?.bind fun messages =>
        (state.send old queue messages openEntities buffer blocking).toOption
  | .receive pid queue openEntities buffer i offset =>
      (state.space pid).bind fun old => state.queues[queue]?.bind fun messages =>
        (state.receive source pid old queue messages openEntities buffer i offset).toOption
  | .reclaim backing => (state.reclaim source backing).map fun after => (after, .none)

end Sharing

/-! ## What one call does -/

/-- The record that is taken is the first, and the others stay. -/
theorem MessageVector.pop_cases {v rest : MessageVector} {message : QueuedMessage}
    (h : v.pop 0 = .ok (message, rest)) : v.items = message :: rest.items := by
  cases hitems : v.items with
  | nil =>
      rw [pop_zero_of_nil hitems] at h
      cases h
  | cons first others =>
      rw [pop_zero hitems] at h
      cases h
      rfl

namespace Sharing

/-- What a call does that does not stop the kernel. -/
inductive Stepped (source : TableSource σ) (state : Sharing σ) :
    SharingOp → Sharing σ → SharingReply → Prop
  | spawn : Stepped source state .spawn { state with spaces := state.spaces ++ [Option.none] } .none
  | connect : Stepped source state .connect { state with queues := state.queues ++ [.new] } .none
  | allocate {pid address size old space result} (hold : state.space pid = some old)
      (hcall : sysAllocate source (old.manager state.tables) address size state.objectCount =
        .ok (space, result)) :
      Stepped source state (.allocate pid address size)
        ((state.afterCall space 1).install pid space) (.placed (space.regions.diff old.regions))
  | unparsed {pid file arguments environ} :
      Stepped source state (.execute pid file arguments environ) state .none
  | notExecuted {pid file arguments environ elf created space code}
      (hparse : ElfFile.parseFile file = .ok elf)
      (hcreate : SpaceManager.create source state.tables = .ok created)
      (hcall : elf.setUpSpace source created arguments environ state.objectCount =
        .ok (space, .error code)) :
      Stepped source state (.execute pid file arguments environ)
        (state.afterCall space (elf.programHeaders.length + 1)) .none
  | executed {pid file arguments environ elf created space} (hpid : pid < state.spaces.length)
      (hparse : ElfFile.parseFile file = .ok elf)
      (hcreate : SpaceManager.create source state.tables = .ok created)
      (hcall : elf.setUpSpace source created arguments environ state.objectCount =
        .ok (space, .ok ())) :
      Stepped source state (.execute pid file arguments environ)
        ((state.afterCall space (elf.programHeaders.length + 1)).install pid space)
        (.placed space.regions)
  | notForked {pid old clone code} (hold : state.space pid = some old)
      (hcall : cloneForFork source (old.manager state.tables) state.objectCount = .ok (clone, code))
      (hcode : code ≠ .ESUCCESS) :
      Stepped source state (.fork pid) (state.afterCall clone old.regions.length) .none
  | forked {pid old clone} (hold : state.space pid = some old)
      (hcall : cloneForFork source (old.manager state.tables) state.objectCount =
        .ok (clone, .ESUCCESS)) :
      Stepped source state (.fork pid)
        { state.afterCall clone old.regions.length with
          spaces := state.spaces ++ [some ⟨clone.regions, clone.root⟩] } (.placed clone.regions)
  | send {pid queue openEntities buffer blocking old messages sent}
      (hold : state.space pid = some old) (hmessages : state.queues[queue]? = some messages)
      (hcall : writeToQueue ⟨openEntities, old.manager state.tables⟩ blocking ⟨buffer, messages⟩ =
        .ok sent) :
      Stepped source state (.send pid queue openEntities buffer blocking)
        { state with queues := state.queues.set queue sent.1.queue }
        (.sent queue old.regions
          (sentItems (⟨openEntities, old.manager state.tables⟩ : UserspaceState σ) blocking
            ⟨buffer, messages⟩))
  | receive {pid queue i offset openEntities buffer old messages item items receiving result}
      (hold : state.space pid = some old) (hmessages : state.queues[queue]? = some messages)
      (hitems : messages.messageQueue.items = item :: items.items)
      (hcall : deliverItem source
        { buffer, queue := { messages with messageQueue := items }
          receiver := ⟨openEntities, old.manager state.tables⟩
          currentDataOffset := offset } i item = .ok (receiving, result)) :
      Stepped source state (.receive pid queue openEntities buffer i offset)
        { (state.afterCall receiving.receiver.addressSpaceManager 0).install pid
            receiving.receiver.addressSpaceManager with
          queues := state.queues.set queue receiving.queue }
        (.received queue (receiving.receiver.addressSpaceManager.regions.diff old.regions))
  | reclaim {backing} (hmem : backing ∈ state.allocations) (hfree : backing ∉ state.references) :
      Stepped source state (.reclaim backing)
        { state with
          tables := freeAllocation source state.tables backing
          allocations := state.allocations.filter (· ≠ backing) } .none

variable {state state' : Sharing σ} {reply : SharingReply}

theorem step_cases {op : SharingOp} (h : step source state op = some (state', reply)) :
    Stepped source state op state' reply := by
  cases op with
  | spawn =>
      cases h
      exact .spawn
  | connect =>
      cases h
      exact .connect
  | allocate pid address size =>
      obtain ⟨old, hold, hcall⟩ := Option.bind_eq_some_iff.mp h
      obtain ⟨⟨space, result⟩, hallocate, heq⟩ := bind_eq_ok.mp (toOption_eq_some.mp hcall)
      cases heq
      exact .allocate hold hallocate
  | execute pid file arguments environ =>
      rw [Sharing.step] at h
      split_ifs at h with hpid
      have hcall := toOption_eq_some.mp h
      unfold execute at hcall
      split at hcall
      · cases hcall
        exact .unparsed
      · rename_i elf hparse
        obtain ⟨created, hcreate, hcall⟩ := bind_eq_ok.mp hcall
        obtain ⟨⟨space, result⟩, hsetUp, hcall⟩ := bind_eq_ok.mp hcall
        cases result with
        | error code =>
            cases hcall
            exact .notExecuted hparse hcreate hsetUp
        | ok _ =>
            cases hcall
            exact .executed hpid hparse hcreate hsetUp
  | fork pid =>
      obtain ⟨old, hold, hcall⟩ := Option.bind_eq_some_iff.mp h
      obtain ⟨⟨clone, code⟩, hclone, hcall⟩ := bind_eq_ok.mp (toOption_eq_some.mp hcall)
      dsimp only at hcall
      split_ifs at hcall with hcode
      · cases hcall
        exact .notForked hold hclone hcode
      · cases hcall
        exact .forked hold (not_not.mp hcode ▸ hclone)
  | send pid queue openEntities buffer blocking =>
      obtain ⟨old, hold, hcall⟩ := Option.bind_eq_some_iff.mp h
      obtain ⟨messages, hmessages, hcall⟩ := Option.bind_eq_some_iff.mp hcall
      obtain ⟨sent, hsend, heq⟩ := map_eq_ok.mp (toOption_eq_some.mp hcall)
      cases heq
      exact .send hold hmessages hsend
  | receive pid queue openEntities buffer i offset =>
      obtain ⟨old, hold, hcall⟩ := Option.bind_eq_some_iff.mp h
      obtain ⟨messages, hmessages, hcall⟩ := Option.bind_eq_some_iff.mp hcall
      obtain ⟨⟨item, items⟩, hpop, hcall⟩ := bind_eq_ok.mp (toOption_eq_some.mp hcall)
      obtain ⟨⟨receiving, result⟩, hdeliver, heq⟩ := bind_eq_ok.mp hcall
      cases heq
      exact .receive hold hmessages (MessageVector.pop_cases hpop) hdeliver
  | reclaim backing =>
      obtain ⟨after, hreclaim, heq⟩ := Option.map_eq_some_iff.mp h
      cases heq
      unfold reclaim at hreclaim
      split_ifs at hreclaim with hunused
      cases hreclaim
      exact .reclaim hunused.1 hunused.2

end Sharing

end BekOS
