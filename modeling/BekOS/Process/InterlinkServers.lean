import BekOS.Library.HashtableRefinement
import BekOS.Process.Interlink

/-!
# Interlink servers

Advertising an address, connecting to it and accepting the connections: the calls of
`process/syscalls.cpp` over the servers and handles of `process/interlink.cpp`.  The
objects are numbered in the order in which they are made.

A handle is destroyed when no process has it open any more, and a server's handle takes
the address out of the registry then.  `accept` takes the connection that was made last.
-/

namespace BekOS

open Function

/-- An address. -/
abbrev Address := List Byte

/-! ## Open handles -/

/-- A slot without its handle. -/
def LocalEntityHandle.cleared (slot : LocalEntityHandle) : LocalEntityHandle :=
  { slot with handle := none }

/-- The processes, and the handles that each has open. -/
structure OpenHandles where
  count : ℕ
  openEntities : ℕ → List LocalEntityHandle

namespace OpenHandles

/-- Some process has the handle open. -/
def Held (processes : OpenHandles) (handle : ℕ) : Prop :=
  ∃ pid < processes.count, ∃ slot ∈ processes.openEntities pid, slot.handle = some handle

instance (processes : OpenHandles) (handle : ℕ) : Decidable (processes.Held handle) :=
  inferInstanceAs (Decidable (∃ pid < processes.count, _))

/-- `allocate_entity_handle_slot` -/
def allocate (processes : OpenHandles) (pid handle group : ℕ) : OpenHandles :=
  { processes with
    openEntities := update processes.openEntities pid
      (processes.openEntities pid ++ [⟨some handle, group⟩]) }

variable {processes : OpenHandles} {pid pid' : ℕ}

theorem allocate_openEntities_self {handle group : ℕ} :
    (processes.allocate pid handle group).openEntities pid =
      processes.openEntities pid ++ [⟨some handle, group⟩] :=
  update_self _ _ _

theorem allocate_openEntities {handle group : ℕ} (hne : pid' ≠ pid) :
    (processes.allocate pid handle group).openEntities pid' = processes.openEntities pid' :=
  update_of_ne hne _ _

/-- The processes, where one has given up a slot. -/
def clear (processes : OpenHandles) (pid i : ℕ) : OpenHandles :=
  { processes with
    openEntities := update processes.openEntities pid
      ((processes.openEntities pid).modify i LocalEntityHandle.cleared) }

theorem clear_openEntities_self {i : ℕ} :
    (processes.clear pid i).openEntities pid =
      (processes.openEntities pid).modify i LocalEntityHandle.cleared :=
  update_self _ _ _

theorem clear_openEntities {i : ℕ} (hne : pid' ≠ pid) :
    (processes.clear pid i).openEntities pid' = processes.openEntities pid' :=
  update_of_ne hne _ _

/-- The processes, where one has been forked: the child has the handles open that the
parent has. -/
def fork (processes : OpenHandles) (pid : ℕ) : OpenHandles where
  count := processes.count + 1
  openEntities := update processes.openEntities processes.count
    (processes.openEntities pid)

theorem fork_openEntities_child :
    (processes.fork pid).openEntities processes.count = processes.openEntities pid :=
  update_self _ _ _

theorem fork_openEntities (hne : pid' ≠ processes.count) :
    (processes.fork pid).openEntities pid' = processes.openEntities pid' :=
  update_of_ne hne _ _

end OpenHandles

/-! ## Servers and connections -/

/-- `ConnectionHandle::Side` -/
inductive ConnectionSide where
  | CLIENT
  | SERVER
  deriving DecidableEq

/-- An `EntityHandle` of an interlink: `ServerHandle` or `ConnectionHandle`. -/
inductive InterlinkHandle where
  | server (server : ℕ)
  | connection (connection : ℕ) (side : ConnectionSide)
  deriving DecidableEq

/-- `Server` -/
structure Server where
  address : Address
  serverHandle : Option ℕ
  pendingConnections : List ℕ
  deriving DecidableEq

/-- `GlobalInterlinkData`, with the objects that have been made and the processes. -/
structure Interlink where
  servers : Hashtable Address ℕ
  serverCount : ℕ
  server : ℕ → Server
  connectionCount : ℕ
  connectionServer : ℕ → ℕ
  handleCount : ℕ
  handle : ℕ → InterlinkHandle
  processes : OpenHandles

namespace Interlink

/-- The number of slots of a new `hashtable`. -/
def initialCapacity : ℕ := 4

/-- What there is at the beginning, with some processes. -/
def start (processCount : ℕ) : Interlink where
  servers := .new initialCapacity
  serverCount := 0
  server := fun _ => ⟨[], none, []⟩
  connectionCount := 0
  connectionServer := fun _ => 0
  handleCount := 0
  handle := fun _ => .server 0
  processes := ⟨processCount, fun _ => []⟩

/-- A server with another value. -/
def setServer (state : Interlink) (server : ℕ) (value : Server) : Interlink :=
  { state with server := update state.server server value }

/-- A new handle object. -/
def makeHandle (state : Interlink) (handle : InterlinkHandle) : Interlink × ℕ :=
  ({ state with
    handle := update state.handle state.handleCount handle
    handleCount := state.handleCount + 1 }, state.handleCount)

/-- A process gets a slot for a handle. -/
def allocate (state : Interlink) (pid handle group : ℕ) : Interlink :=
  { state with processes := state.processes.allocate pid handle group }

section Calls

variable (hash : Address → ℕ)

/-- `lookup` -/
def lookup (state : Interlink) (address : Address) : Option (Except ErrorCode ℕ) :=
  (state.servers.find hash address).map fun found =>
    match found with
    | some server => .ok server
    | none => .error .ENOENT

/-- `advertise`.  The server it has made is destroyed again where the address is in use. -/
def advertise (state : Interlink) (address : Address) :
    Option (Interlink × Except ErrorCode ℕ) :=
  (state.servers.insert hash (address, state.serverCount)).map fun inserted =>
    if inserted.2.2 then
      ({ state.setServer state.serverCount ⟨address, none, []⟩ with
        servers := inserted.1
        serverCount := state.serverCount + 1 }, .ok state.serverCount)
    else ({ state with servers := inserted.1 }, .error .EADDRINUSE)

/-- `take_handle` -/
def takeHandle (state : Interlink) (server : ℕ) : Interlink × ℕ :=
  match (state.server server).serverHandle with
  | some handle => (state, handle)
  | none =>
      let made := state.makeHandle (.server server)
      (made.1.setServer server { state.server server with serverHandle := some made.2 }, made.2)

/-- `detach_handle` -/
def detachHandle (state : Interlink) (server handle : ℕ) : Option Interlink :=
  if (state.server server).serverHandle = some handle then
    (state.servers.extract hash (state.server server).address).map fun extracted =>
      { state.setServer server { state.server server with serverHandle := none } with
        servers := extracted.1 }
  else none

/-- `connect` -/
def connect (state : Interlink) (server : ℕ) : Interlink × ℕ :=
  ({ state.setServer server
      { state.server server with
        pendingConnections :=
          (state.server server).pendingConnections ++ [state.connectionCount] } with
    connectionServer := update state.connectionServer state.connectionCount server
    connectionCount := state.connectionCount + 1 }, state.connectionCount)

/-- `accept` -/
def accept (state : Interlink) (server : ℕ) : Interlink × Except ErrorCode ℕ :=
  let pending := (state.server server).pendingConnections
  match pending.getLast? with
  | some connection =>
      (state.setServer server
        { state.server server with pendingConnections := pending.dropLast }, .ok connection)
  | none => (state, .error .EAGAIN)

/-- `detach_connection` -/
def detachConnection (state : Interlink) (server connection : ℕ) : Interlink :=
  state.setServer server
    { state.server server with
      pendingConnections := (state.server server).pendingConnections.erase connection }

/-- Something refers to the connection: a server for which it is pending, or a handle. -/
def Referenced (state : Interlink) (connection : ℕ) : Prop :=
  (∃ server < state.serverCount, connection ∈ (state.server server).pendingConnections) ∨
    ∃ handle < state.handleCount, state.processes.Held handle ∧
      (state.handle handle = .connection connection .CLIENT ∨
        state.handle handle = .connection connection .SERVER)

instance (state : Interlink) (connection : ℕ) : Decidable (state.Referenced connection) :=
  inferInstanceAs (Decidable (_ ∨ _))

/-- The destructor of a handle. -/
def destroyHandle (state : Interlink) (handle : ℕ) : Option Interlink :=
  match state.handle handle with
  | .server server => state.detachHandle hash server handle
  | .connection connection _ =>
      if state.Referenced connection then some state
      else some (state.detachConnection (state.connectionServer connection) connection)

/-! ## The calls of the processes -/

/-- What happens. -/
inductive Op where
  | lookup (address : Address)
  | advertise (pid : ℕ) (address : Address) (group : ℕ)
  | connect (pid : ℕ) (address : Address) (group : ℕ)
  | accept (pid : ℕ) (interlinkEd : ℤ) (group : ℕ) (blocking : Bool)
  | close (pid : ℕ) (entityHandle : ℤ)
  | fork (pid : ℕ)

/-- What comes of it.  A blocking accept that `waits` goes round its loop again, and a
call of no process is `absent`. -/
inductive Reply where
  | found (server : ℕ)
  | advertised (server : ℕ)
  | connected (server connection : ℕ)
  | accepted (server connection : ℕ)
  | waits
  | closed
  | forked (pid : ℕ)
  | failed (code : ErrorCode)
  | absent
  deriving DecidableEq

/-- `sys_interlink_advertise` -/
def sysInterlinkAdvertise (state : Interlink) (pid : ℕ) (address : Address) (group : ℕ) :
    Option (Interlink × Reply) :=
  (state.advertise hash address).map fun advertised =>
    match advertised.2 with
    | .error code => (advertised.1, .failed code)
    | .ok server =>
        let taken := advertised.1.takeHandle server
        (taken.1.allocate pid taken.2 group, .advertised server)

/-- `sys_interlink_connect` -/
def sysInterlinkConnect (state : Interlink) (pid : ℕ) (address : Address) (group : ℕ) :
    Option (Interlink × Reply) :=
  (state.lookup hash address).map fun found =>
    match found with
    | .error code => (state, .failed code)
    | .ok server =>
        let connected := state.connect server
        let made := connected.1.makeHandle (.connection connected.2 .CLIENT)
        (made.1.allocate pid made.2 group, .connected server connected.2)

/-- `sys_interlink_accept`.  A blocking accept goes round its loop where nothing is
pending. -/
def sysInterlinkAccept (state : Interlink) (pid : ℕ) (interlinkEd : ℤ) (group : ℕ)
    (blocking : Bool) : Interlink × Reply :=
  match getOpenEntity (state.processes.openEntities pid) interlinkEd with
  | .error code => (state, .failed code)
  | .ok handle =>
      match state.handle handle with
      | .connection _ _ => (state, .failed .ENOTSUP)
      | .server server =>
          let accepted := state.accept server
          match accepted.2 with
          | .error code => (state, if blocking ∧ code = .EAGAIN then .waits else .failed code)
          | .ok connection =>
              let made := accepted.1.makeHandle (.connection connection .SERVER)
              (made.1.allocate pid made.2 group, .accepted server connection)

/-- `sys_close`: a handle that no process has open any more is destroyed. -/
def sysClose (state : Interlink) (pid : ℕ) (entityHandle : ℤ) : Option (Interlink × Reply) :=
  match getOpenEntity (state.processes.openEntities pid) entityHandle with
  | .error code => some (state, .failed code)
  | .ok handle =>
      let cleared := { state with processes := state.processes.clear pid entityHandle.toNat }
      if cleared.processes.Held handle then some (cleared, .closed)
      else (cleared.destroyHandle hash handle).map fun destroyed => (destroyed, .closed)

/-- One call; `none` where an assertion fails. -/
def step (state : Interlink) : Op → Option (Interlink × Reply)
  | .lookup address =>
      (state.lookup hash address).map fun found =>
        match found with
        | .error code => (state, .failed code)
        | .ok server => (state, .found server)
  | .advertise pid address group =>
      if pid < state.processes.count then state.sysInterlinkAdvertise hash pid address group
      else some (state, .absent)
  | .connect pid address group =>
      if pid < state.processes.count then state.sysInterlinkConnect hash pid address group
      else some (state, .absent)
  | .accept pid interlinkEd group blocking =>
      if pid < state.processes.count then
        some (state.sysInterlinkAccept pid interlinkEd group blocking)
      else some (state, .absent)
  | .close pid entityHandle =>
      if pid < state.processes.count then state.sysClose hash pid entityHandle
      else some (state, .absent)
  | .fork pid =>
      if pid < state.processes.count then
        some ({ state with processes := state.processes.fork pid }, .forked state.processes.count)
      else some (state, .absent)

end Calls

end Interlink

end BekOS
