import BekOS.Process.InterlinkServers

/-!
# The registry of servers

What the registry of interlink servers, their handles and the processes that have these
open know of one another: an address is registered exactly while the handle of the
server that was advertised under it last is open.  Each call keeps it so, where the
hashtable that the registry is does what it should.
-/

namespace BekOS

open Function

/-! ## Open handles -/

namespace OpenHandles

variable {processes : OpenHandles} {pid h h' : ℕ}

theorem getElem?_of_getOpenEntity {openEntities : List LocalEntityHandle} {entityId : ℤ}
    (hget : getOpenEntity openEntities entityId = .ok h) :
    ∃ group, openEntities[entityId.toNat]? = some ⟨some h, group⟩ := by
  unfold getOpenEntity at hget
  split_ifs at hget
  split at hget
  next handle group hslot =>
    cases hget
    exact ⟨group, hslot⟩
  next => cases hget
  next => cases hget

theorem held_of_getOpenEntity {entityId : ℤ} (hpid : pid < processes.count)
    (hget : getOpenEntity (processes.openEntities pid) entityId = .ok h) : processes.Held h := by
  obtain ⟨group, hslot⟩ := getElem?_of_getOpenEntity hget
  exact ⟨pid, hpid, _, List.mem_of_getElem? hslot, rfl⟩

theorem held_allocate {group : ℕ} (hpid : pid < processes.count) :
    (processes.allocate pid h group).Held h' ↔ processes.Held h' ∨ h' = h := by
  constructor
  · rintro ⟨pid', hpid', slot, hslot, hhandle⟩
    by_cases hsame : pid' = pid
    · subst hsame
      rw [allocate_openEntities_self, List.mem_append, List.mem_singleton] at hslot
      rcases hslot with hslot | rfl
      · exact .inl ⟨pid', hpid', slot, hslot, hhandle⟩
      · exact .inr (Option.some.inj hhandle).symm
    · rw [allocate_openEntities hsame] at hslot
      exact .inl ⟨pid', hpid', slot, hslot, hhandle⟩
  · rintro (⟨pid', hpid', slot, hslot, hhandle⟩ | rfl)
    · refine ⟨pid', hpid', slot, ?_, hhandle⟩
      by_cases hsame : pid' = pid
      · subst hsame
        rw [allocate_openEntities_self]
        exact List.mem_append_left _ hslot
      · rwa [allocate_openEntities hsame]
    · refine ⟨pid, hpid, ⟨some h', group⟩, ?_, rfl⟩
      rw [allocate_openEntities_self]
      exact List.mem_append_right _ (List.mem_singleton_self _)

theorem held_of_clear {i : ℕ} (hheld : (processes.clear pid i).Held h) : processes.Held h := by
  obtain ⟨pid', hpid', slot, hslot, hhandle⟩ := hheld
  by_cases hsame : pid' = pid
  · subst hsame
    rw [clear_openEntities_self] at hslot
    obtain ⟨j, hj⟩ := List.mem_iff_getElem?.mp hslot
    rw [List.getElem?_modify] at hj
    obtain ⟨old, hold, hcleared⟩ := Option.map_eq_some_iff.mp hj
    split_ifs at hcleared
    · subst hcleared
      cases hhandle
    · subst hcleared
      exact ⟨pid', hpid', _, List.mem_of_getElem? hold, hhandle⟩
  · rw [clear_openEntities hsame] at hslot
    exact ⟨pid', hpid', slot, hslot, hhandle⟩

theorem held_clear {entityId : ℤ}
    (hget : getOpenEntity (processes.openEntities pid) entityId = .ok h) (hne : h' ≠ h) :
    (processes.clear pid entityId.toNat).Held h' ↔ processes.Held h' := by
  refine ⟨held_of_clear, ?_⟩
  rintro ⟨pid', hpid', slot, hslot, hhandle⟩
  refine ⟨pid', hpid', slot, ?_, hhandle⟩
  by_cases hsame : pid' = pid
  · subst hsame
    obtain ⟨group, hcleared⟩ := getElem?_of_getOpenEntity hget
    obtain ⟨j, hj⟩ := List.mem_iff_getElem?.mp hslot
    have hother : entityId.toNat ≠ j := by
      rintro rfl
      rw [hcleared] at hj
      cases hj
      exact hne (Option.some.inj hhandle).symm
    rw [clear_openEntities_self]
    refine List.mem_iff_getElem?.mpr ⟨j, ?_⟩
    rw [List.getElem?_modify, hj]
    exact congrArg some (if_neg hother)
  · rwa [clear_openEntities hsame]

theorem held_fork (hpid : pid < processes.count) :
    (processes.fork pid).Held h ↔ processes.Held h := by
  constructor
  · rintro ⟨pid', hpid', slot, hslot, hhandle⟩
    by_cases hchild : pid' = processes.count
    · subst hchild
      rw [fork_openEntities_child] at hslot
      exact ⟨pid, hpid, slot, hslot, hhandle⟩
    · rw [fork_openEntities hchild] at hslot
      have hlt : pid' < processes.count + 1 := hpid'
      exact ⟨pid', by omega, slot, hslot, hhandle⟩
  · rintro ⟨pid', hpid', slot, hslot, hhandle⟩
    refine ⟨pid', Nat.lt_succ_of_lt hpid', slot, ?_, hhandle⟩
    rwa [fork_openEntities hpid'.ne]

end OpenHandles

namespace Interlink

variable {hash : Address → ℕ} {state : Interlink} {address : Address} {server handle pid : ℕ}

/-! ## Listening servers -/

/-- The server is registered: its handle is open and the address is its own. -/
def Registered (state : Interlink) (address : Address) (server : ℕ) : Prop :=
  server < state.serverCount ∧ (state.server server).address = address ∧
    (state.server server).serverHandle ≠ none

/-- The registry, the servers and the handles know the same of each other. -/
structure Ok (hash : Address → ℕ) (state : Interlink) : Prop where
  wellFormed : state.servers.WellFormed hash
  represents : ∃ map : Hashtable.RefMap Address ℕ, state.servers.Represents map ∧
    ∀ address server, map address = some server ↔ state.Registered address server
  serverHandle_iff : ∀ server < state.serverCount, ∀ handle,
    (state.server server).serverHandle = some handle ↔
      handle < state.handleCount ∧ state.handle handle = .server server ∧
        state.processes.Held handle
  held_lt : ∀ handle, state.processes.Held handle → handle < state.handleCount
  server_lt : ∀ handle < state.handleCount, ∀ server, state.handle handle = .server server →
    server < state.serverCount
  older_closed : ∀ server server', server < server' → server' < state.serverCount →
    (state.server server).address = (state.server server').address →
    (state.server server).serverHandle = none
  pending_new : ∀ server, state.serverCount ≤ server →
    (state.server server).pendingConnections = []

/-- The last of the first `n` servers that has the address. -/
def lastOf (state : Interlink) (address : Address) : ℕ → Option ℕ
  | 0 => none
  | n + 1 => if (state.server n).address = address then some n else lastOf state address n

/-- The last successful advertise of the address. -/
def lastAdvertised (state : Interlink) (address : Address) : Option ℕ :=
  state.lastOf address state.serverCount

/-- Some process has a handle of the server open. -/
def HandleOpen (state : Interlink) (server : ℕ) : Prop :=
  ∃ handle < state.handleCount, state.handle handle = .server server ∧
    state.processes.Held handle

instance (state : Interlink) (server : ℕ) : Decidable (state.HandleOpen server) :=
  inferInstanceAs (Decidable (∃ handle < state.handleCount, _))

/-- The server that a lookup of the address is to find: that of the last successful
advertise, where its handle is still open. -/
def listening (state : Interlink) (address : Address) : Option ℕ :=
  (state.lastAdvertised address).filter fun server => state.HandleOpen server

theorem lastOf_eq_some {n : ℕ} :
    state.lastOf address n = some server ↔
      server < n ∧ (state.server server).address = address ∧
        ∀ server', server < server' → server' < n → (state.server server').address ≠ address := by
  induction n with
  | zero => simp [lastOf]
  | succ n ih =>
      rw [lastOf]
      split_ifs with haddress
      · rw [Option.some_inj]
        constructor
        · rintro rfl
          exact ⟨Nat.lt_succ_self n, haddress, fun server' h h' => absurd h' (by omega)⟩
        · rintro ⟨hlt, -, hlast⟩
          by_contra hne
          exact hlast n (by omega) (Nat.lt_succ_self n) haddress
      · rw [ih]
        constructor
        · rintro ⟨hlt, hserver, hlast⟩
          refine ⟨by omega, hserver, fun server' h h' => ?_⟩
          rcases Nat.lt_succ_iff_lt_or_eq.mp h' with hbelow | rfl
          · exact hlast server' h hbelow
          · exact haddress
        · rintro ⟨hlt, hserver, hlast⟩
          have hne : server ≠ n := by
            rintro rfl
            exact haddress hserver
          exact ⟨by omega, hserver, fun server' h h' => hlast server' h (by omega)⟩

namespace Ok

theorem handleOpen_iff (inv : state.Ok hash) (hserver : server < state.serverCount) :
    state.HandleOpen server ↔ (state.server server).serverHandle ≠ none := by
  rw [Option.ne_none_iff_exists']
  exact exists_congr fun handle => (inv.serverHandle_iff server hserver handle).symm

theorem listening_iff (inv : state.Ok hash) :
    state.listening address = some server ↔ state.Registered address server := by
  rw [listening, Option.filter_eq_some_iff, decide_eq_true_iff, lastAdvertised, lastOf_eq_some]
  constructor
  · rintro ⟨⟨hserver, haddress, -⟩, hopen⟩
    exact ⟨hserver, haddress, (inv.handleOpen_iff hserver).mp hopen⟩
  · rintro ⟨hserver, haddress, hopen⟩
    refine ⟨⟨hserver, haddress, fun server' h h' hsame => ?_⟩, (inv.handleOpen_iff hserver).mpr hopen⟩
    exact hopen (inv.older_closed server server' h h' (haddress.trans hsame.symm))

theorem represents_listening (inv : state.Ok hash) : state.servers.Represents state.listening := by
  obtain ⟨map, hrep, hmap⟩ := inv.represents
  have heq : state.listening = map :=
    funext fun address => Option.ext fun server => by rw [inv.listening_iff, hmap]
  rwa [heq]

/-! ## What the calls keep -/

theorem setProcesses (inv : state.Ok hash) {processes : OpenHandles}
    (hheld : ∀ handle, processes.Held handle → state.processes.Held handle)
    (hserver : ∀ handle server, state.handle handle = .server server →
      (processes.Held handle ↔ state.processes.Held handle)) :
    ({ state with processes := processes } : Interlink).Ok hash where
  wellFormed := inv.wellFormed
  represents := inv.represents
  serverHandle_iff := fun server hlt handle =>
    (inv.serverHandle_iff server hlt handle).trans <|
      and_congr_right fun _ => and_congr_right fun hobject => (hserver handle server hobject).symm
  held_lt := fun handle h => inv.held_lt handle (hheld handle h)
  server_lt := inv.server_lt
  older_closed := inv.older_closed
  pending_new := inv.pending_new

theorem setServer_self {value : Server} : (state.setServer server value).server server = value :=
  update_self _ _ _

theorem setServer_of_ne {server' : ℕ} {value : Server} (hne : server' ≠ server) :
    (state.setServer server value).server server' = state.server server' :=
  update_of_ne hne _ _

theorem setPending (inv : state.Ok hash) (hserver : server < state.serverCount)
    (pending : List ℕ) :
    (state.setServer server
      { state.server server with pendingConnections := pending }).Ok hash := by
  have haddress : ∀ other, ((state.setServer server
      { state.server server with pendingConnections := pending }).server other).address =
        (state.server other).address := fun other => by
    by_cases h : other = server
    · rw [h, setServer_self]
    · rw [setServer_of_ne h]
  have hhandle : ∀ other, ((state.setServer server
      { state.server server with pendingConnections := pending }).server other).serverHandle =
        (state.server other).serverHandle := fun other => by
    by_cases h : other = server
    · rw [h, setServer_self]
    · rw [setServer_of_ne h]
  obtain ⟨map, hrep, hmap⟩ := inv.represents
  constructor
  · exact inv.wellFormed
  · refine ⟨map, hrep, fun address other => ?_⟩
    rw [hmap, Registered, Registered, haddress, hhandle]
    rfl
  · intro other hother handle
    rw [hhandle]
    exact inv.serverHandle_iff other hother handle
  · exact inv.held_lt
  · exact inv.server_lt
  · intro older newer hlt hnewer
    rw [haddress, haddress, hhandle]
    exact inv.older_closed older newer hlt hnewer
  · intro other hother
    have hle : state.serverCount ≤ other := hother
    rw [setServer_of_ne (by omega)]
    exact inv.pending_new other hle

theorem makeHandle_self {object : InterlinkHandle} :
    (state.makeHandle object).1.handle state.handleCount = object :=
  update_self _ _ _

theorem makeHandle_of_ne {object : InterlinkHandle} (hne : handle ≠ state.handleCount) :
    (state.makeHandle object).1.handle handle = state.handle handle :=
  update_of_ne hne _ _

/-- A process gets the handle of a connection. -/
theorem openConnection (inv : state.Ok hash) (hpid : pid < state.processes.count)
    (connection : ℕ) (side : ConnectionSide) (group : ℕ) :
    let made := state.makeHandle (.connection connection side)
    (made.1.allocate pid made.2 group).Ok hash := by
  intro made
  have hheld : ∀ handle, (made.1.allocate pid made.2 group).processes.Held handle ↔
      state.processes.Held handle ∨ handle = state.handleCount := fun handle =>
    OpenHandles.held_allocate hpid
  have hobject : made.1.handle state.handleCount = .connection connection side := makeHandle_self
  constructor
  · exact inv.wellFormed
  · exact inv.represents
  · intro server hserver handle
    rw [hheld]
    refine (inv.serverHandle_iff server hserver handle).trans ?_
    by_cases hnew : handle = state.handleCount
    · subst hnew
      refine iff_of_false (fun h => absurd h.1 (lt_irrefl _)) fun h => ?_
      have hserverObject : made.1.handle state.handleCount = .server server := h.2.1
      rw [hobject] at hserverObject
      cases hserverObject
    · have hsame : made.1.handle handle = state.handle handle := makeHandle_of_ne hnew
      refine and_congr ⟨Nat.lt_succ_of_lt, fun h => ?_⟩ (and_congr ?_ ?_)
      · have hlt : handle < state.handleCount + 1 := h
        omega
      · exact (congrArg (· = InterlinkHandle.server server) hsame).symm ▸ Iff.rfl
      · simp only [hnew, or_false]
  · intro handle h
    rcases (hheld handle).mp h with h | rfl
    · exact Nat.lt_succ_of_lt (inv.held_lt handle h)
    · exact Nat.lt_succ_self _
  · intro handle hlt server hhandle
    have hserver : made.1.handle handle = .server server := hhandle
    by_cases hnew : handle = state.handleCount
    · rw [hnew, hobject] at hserver
      cases hserver
    · rw [show made.1.handle handle = state.handle handle from makeHandle_of_ne hnew] at hserver
      have hlt' : handle < state.handleCount + 1 := hlt
      exact inv.server_lt handle (by omega) server hserver
  · exact inv.older_closed
  · exact inv.pending_new

theorem hashRespects (hash : Address → ℕ) : Hashtable.HashRespects hash :=
  fun _ _ h => congrArg hash (eq_of_beq h)

theorem lookup_eq (inv : state.Ok hash)
    (ok : state.servers.HasEmpty ∨ state.servers.Present address) :
    state.lookup hash address =
      some (match state.listening address with
        | some server => .ok server
        | none => .error .ENOENT) := by
  rw [lookup, Hashtable.find_spec inv.wellFormed (hashRespects hash) inv.represents_listening ok]
  rfl

/-- The state after an advertise of an address that is not in use. -/
def advertised (state : Interlink) (table : Hashtable Address ℕ) (pid : ℕ) (address : Address)
    (group : ℕ) : Interlink :=
  { state with
    servers := table
    serverCount := state.serverCount + 1
    server := update state.server state.serverCount
      ⟨address, some state.handleCount, []⟩
    handle := update state.handle state.handleCount (.server state.serverCount)
    handleCount := state.handleCount + 1
    processes := state.processes.allocate pid state.handleCount group }

/-- It is registered, if the table says so. -/
theorem advertised_ok (inv : state.Ok hash) (hpid : pid < state.processes.count)
    (hfree : state.listening address = none) {table : Hashtable Address ℕ} (group : ℕ)
    (wf : table.WellFormed hash)
    (rep : table.Represents
      (Hashtable.RefMap.update state.listening address (some state.serverCount))) :
    (advertised state table pid address group).Ok hash := by
  have hold : ∀ {server : ℕ}, server < state.serverCount →
      (advertised state table pid address group).server server = state.server server :=
    fun h => update_of_ne h.ne _ _
  have hnew : (advertised state table pid address group).server state.serverCount =
      ⟨address, some state.handleCount, []⟩ := update_self _ _ _
  have hheld : ∀ handle, (advertised state table pid address group).processes.Held handle ↔
      state.processes.Held handle ∨ handle = state.handleCount := fun handle =>
    OpenHandles.held_allocate hpid
  have hobject : (advertised state table pid address group).handle state.handleCount =
      .server state.serverCount := update_self _ _ _
  have hobjects : ∀ {handle : ℕ}, handle < state.handleCount →
      (advertised state table pid address group).handle handle = state.handle handle :=
    fun h => update_of_ne h.ne _ _
  constructor
  · exact wf
  · refine ⟨_, rep, fun address' server => ?_⟩
    rcases lt_trichotomy server state.serverCount with hlt | rfl | hgt
    · -- The servers there were are registered as before, and none has the address.
      have hsame : (advertised state table pid address group).Registered address' server ↔
          state.Registered address' server := by
        rw [Registered, Registered, hold hlt]
        exact and_congr_left fun _ => iff_of_true (Nat.lt_succ_of_lt hlt) hlt
      rw [hsame, ← inv.listening_iff, Hashtable.RefMap.update]
      by_cases haddress : address' = address
      · rw [if_pos (beq_iff_eq.mpr haddress), haddress, hfree]
        exact iff_of_false (fun h => hlt.ne (Option.some.inj h).symm)
          (Option.some_ne_none _).symm
      · rw [if_neg (mt beq_iff_eq.mp haddress)]
    · rw [Registered, hnew, Hashtable.RefMap.update]
      by_cases haddress : address' = address
      · rw [if_pos (beq_iff_eq.mpr haddress)]
        exact iff_of_true rfl ⟨Nat.lt_succ_self _, haddress.symm, Option.some_ne_none _⟩
      · rw [if_neg (mt beq_iff_eq.mp haddress)]
        refine iff_of_false (fun h => ?_) fun h => haddress h.2.1.symm
        exact lt_irrefl _ (inv.listening_iff.mp h).1
    · refine iff_of_false (fun h => ?_) fun h => ?_
      · rw [Hashtable.RefMap.update] at h
        split_ifs at h
        · exact hgt.ne (Option.some.inj h)
        · exact lt_asymm hgt (inv.listening_iff.mp h).1
      · have hlt : server < state.serverCount + 1 := h.1
        omega
  · intro server hserver handle
    rw [hheld]
    have hle : server < state.serverCount + 1 := hserver
    rcases Nat.lt_succ_iff_lt_or_eq.mp hle with hlt | rfl
    · rw [hold hlt, inv.serverHandle_iff server hlt]
      rcases lt_trichotomy handle state.handleCount with hhandle | rfl | hhandle
      · rw [hobjects hhandle]
        simp only [hhandle, hhandle.ne, or_false, true_and]
        exact (and_iff_right (Nat.lt_succ_of_lt hhandle)).symm
      · rw [hobject]
        refine iff_of_false (fun h => lt_irrefl _ h.1) fun h => ?_
        exact hlt.ne (InterlinkHandle.server.inj h.2.1).symm
      · refine iff_of_false (fun h => lt_asymm hhandle h.1) fun h => ?_
        have : handle < state.handleCount + 1 := h.1
        omega
    · rw [hnew]
      constructor
      · intro h
        cases h
        exact ⟨Nat.lt_succ_self _, hobject, .inr rfl⟩
      · rintro ⟨hhandle, hserverObject, -⟩
        have hle' : handle < state.handleCount + 1 := hhandle
        rcases Nat.lt_succ_iff_lt_or_eq.mp hle' with hlt | rfl
        · rw [hobjects hlt] at hserverObject
          exact absurd (inv.server_lt handle hlt _ hserverObject) (lt_irrefl _)
        · rfl
  · intro handle h
    rcases (hheld handle).mp h with h | rfl
    · exact Nat.lt_succ_of_lt (inv.held_lt handle h)
    · exact Nat.lt_succ_self _
  · intro handle hhandle server hserver
    have hle : handle < state.handleCount + 1 := hhandle
    rcases Nat.lt_succ_iff_lt_or_eq.mp hle with hlt | rfl
    · rw [hobjects hlt] at hserver
      exact Nat.lt_succ_of_lt (inv.server_lt handle hlt server hserver)
    · rw [hobject] at hserver
      cases hserver
      exact Nat.lt_succ_self _
  · intro older newer hlt hnewer haddress
    have hle : newer < state.serverCount + 1 := hnewer
    rcases Nat.lt_succ_iff_lt_or_eq.mp hle with hbelow | rfl
    · rw [hold (hlt.trans hbelow), hold hbelow] at haddress
      rw [hold (hlt.trans hbelow)]
      exact inv.older_closed older newer hlt hbelow haddress
    · -- An older server of the address is not registered.
      rw [hold hlt, hnew] at haddress
      rw [hold hlt]
      by_contra hopen
      have hlistening : state.listening address = some older :=
        inv.listening_iff.mpr ⟨hlt, haddress, hopen⟩
      rw [hfree] at hlistening
      cases hlistening
  · intro server hserver
    have hle : state.serverCount + 1 ≤ server := hserver
    have hother : (advertised state table pid address group).server server =
        state.server server := update_of_ne (by omega) _ _
    rw [hother]
    exact inv.pending_new server (by omega)

/-- An advertise succeeds where no server of the address is to be found. -/
theorem sysInterlinkAdvertise_ok (inv : state.Ok hash) (hpid : pid < state.processes.count)
    (group : ℕ) (ok : state.servers.StepOk hash (.insert (address, state.serverCount))) :
    ∃ final, state.sysInterlinkAdvertise hash pid address group =
        some (final, if (state.listening address).isSome then .failed .EADDRINUSE
          else .advertised state.serverCount) ∧
      final.Ok hash ∧ final.connectionCount = state.connectionCount ∧
      ∀ server, (final.server server).pendingConnections =
        (state.server server).pendingConnections := by
  obtain ⟨table, i, hinsert, wf, rep⟩ := Hashtable.store_spec inv.wellFormed (hashRespects hash)
    inv.represents_listening ok state.serverCount false
  have hadvertise : state.advertise hash address =
      if (state.listening address).isNone then
        some ({ state.setServer state.serverCount ⟨address, none, []⟩ with
          servers := table
          serverCount := state.serverCount + 1 }, .ok state.serverCount)
      else some ({ state with servers := table }, .error .EADDRINUSE) := by
    rw [advertise, Hashtable.insert, hinsert]
    cases hlistening : state.listening address <;> rfl
  rw [sysInterlinkAdvertise, hadvertise]
  cases hlistening : state.listening address with
  | none =>
      rw [hlistening] at rep
      have hrep : table.Represents
          (Hashtable.RefMap.update state.listening address (some state.serverCount)) := rep
      refine ⟨_, ?_, advertised_ok inv hpid hlistening group wf hrep, rfl, fun server => ?_⟩
      · simp [takeHandle, makeHandle, setServer, allocate, advertised, update_idem]
      · by_cases hnew : server = state.serverCount
        · have hself : (advertised state table pid address group).server state.serverCount =
              ⟨address, some state.handleCount, []⟩ := update_self _ _ _
          rw [hnew, hself, inv.pending_new _ le_rfl]
        · have hother : (advertised state table pid address group).server server =
              state.server server := update_of_ne hnew _ _
          rw [hother]
  | some server =>
      rw [hlistening] at rep
      have hrep : table.Represents state.listening := rep
      refine ⟨_, rfl, ?_, rfl, fun _ => rfl⟩
      exact
        { wellFormed := wf
          represents := ⟨_, hrep, fun _ _ => inv.listening_iff⟩
          serverHandle_iff := inv.serverHandle_iff
          held_lt := inv.held_lt
          server_lt := inv.server_lt
          older_closed := inv.older_closed
          pending_new := inv.pending_new }

theorem sysInterlinkConnect_ok (inv : state.Ok hash) (hpid : pid < state.processes.count)
    (group : ℕ) (ok : state.servers.HasEmpty ∨ state.servers.Present address) :
    ∃ final, state.sysInterlinkConnect hash pid address group =
        some (final, match state.listening address with
          | some server => .connected server state.connectionCount
          | none => .failed .ENOENT) ∧
      final.Ok hash ∧
      match state.listening address with
      | some server =>
          final.connectionCount = state.connectionCount + 1 ∧
            ∀ other, (final.server other).pendingConnections =
              (state.server other).pendingConnections ++
                if other = server then [state.connectionCount] else []
      | none => final = state := by
  rw [sysInterlinkConnect, inv.lookup_eq ok]
  cases hlistening : state.listening address with
  | none => exact ⟨state, rfl, inv, rfl⟩
  | some server =>
      have hserver : server < state.serverCount := (inv.listening_iff.mp hlistening).1
      have hpending := inv.setPending hserver
        ((state.server server).pendingConnections ++ [state.connectionCount])
      have hconnected : (state.connect server).1.Ok hash :=
        { wellFormed := hpending.wellFormed
          represents := hpending.represents
          serverHandle_iff := hpending.serverHandle_iff
          held_lt := hpending.held_lt
          server_lt := hpending.server_lt
          older_closed := hpending.older_closed
          pending_new := hpending.pending_new }
      refine ⟨_, rfl, hconnected.openConnection hpid state.connectionCount .CLIENT group, rfl,
        fun other => ?_⟩
      by_cases hother : other = server
      · rw [if_pos hother, hother]
        exact congrArg Server.pendingConnections setServer_self
      · rw [if_neg hother, List.append_nil]
        exact congrArg Server.pendingConnections (setServer_of_ne hother)

theorem accept_ok (inv : state.Ok hash) (hpid : pid < state.processes.count) (group : ℕ)
    (hserver : server < state.serverCount) {connection : ℕ}
    (hpending : (state.server server).pendingConnections = [connection]) :
    let accepted := state.accept server
    let made := accepted.1.makeHandle (.connection connection .SERVER)
    accepted.2 = .ok connection ∧ (made.1.allocate pid made.2 group).Ok hash ∧
      (made.1.allocate pid made.2 group).connectionCount = state.connectionCount ∧
      ∀ other, (state.server other).pendingConnections =
        (if other = server then [connection] else []) ++
          ((made.1.allocate pid made.2 group).server other).pendingConnections := by
  have haccept : state.accept server =
      (state.setServer server { state.server server with pendingConnections := [] },
        .ok connection) := by
    rw [accept, hpending]
    rfl
  rw [haccept]
  refine ⟨rfl, (inv.setPending hserver []).openConnection hpid connection .SERVER group,
    rfl, fun other => ?_⟩
  by_cases hother : other = server
  · rw [if_pos hother, hother, hpending]
    have hself : ((state.setServer server
        { state.server server with pendingConnections := [] }).server server).pendingConnections =
          [] := congrArg Server.pendingConnections setServer_self
    exact (congrArg ([connection] ++ ·) hself).symm
  · rw [if_neg hother, List.nil_append]
    exact (congrArg Server.pendingConnections (setServer_of_ne hother)).symm

/-- The state after the last slot of a server's handle was closed. -/
def detached (state : Interlink) (table : Hashtable Address ℕ) (server : ℕ)
    (processes : OpenHandles) : Interlink :=
  { state with
    servers := table
    server := update state.server server
      { state.server server with serverHandle := none }
    processes := processes }

/-- It is registered no more, if the table says so. -/
theorem detached_ok (inv : state.Ok hash) (hserver : server < state.serverCount)
    (hhandle : (state.server server).serverHandle = some handle) {table : Hashtable Address ℕ}
    {processes : OpenHandles} (wf : table.WellFormed hash)
    (rep : table.Represents
      (Hashtable.RefMap.update state.listening (state.server server).address none))
    (hheld : ∀ other, processes.Held other → state.processes.Held other)
    (hothers : ∀ other, other ≠ handle → (processes.Held other ↔ state.processes.Held other))
    (hlast : ¬ processes.Held handle) : (detached state table server processes).Ok hash := by
  have hself : (detached state table server processes).server server =
      { state.server server with serverHandle := none } := update_self _ _ _
  have hother : ∀ {other : ℕ}, other ≠ server →
      (detached state table server processes).server other = state.server other :=
    fun h => update_of_ne h _ _
  have hregistered : state.listening (state.server server).address = some server :=
    inv.listening_iff.mpr ⟨hserver, rfl, by rw [hhandle]; exact Option.some_ne_none _⟩
  constructor
  · exact wf
  · refine ⟨_, rep, fun address other => ?_⟩
    rw [Hashtable.RefMap.update]
    by_cases hsame : other = server
    · rw [hsame, Registered, hself]
      refine iff_of_false (fun h => ?_) fun h => h.2.2 rfl
      split_ifs at h with haddress
      exact haddress (beq_iff_eq.mpr (inv.listening_iff.mp h).2.1.symm)
    · have hregistered' : (detached state table server processes).Registered address other ↔
          state.Registered address other := by
        rw [Registered, Registered, hother hsame]
        rfl
      rw [hregistered', ← inv.listening_iff]
      split_ifs with haddress
      · rw [beq_iff_eq.mp haddress, hregistered]
        exact iff_of_false not_false fun h => hsame (Option.some.inj h).symm
      · exact Iff.rfl
  · intro other hlt other'
    by_cases hsame : other = server
    · rw [hsame, hself]
      refine iff_of_false (Option.some_ne_none _).symm fun h => hlast ?_
      have hserverHandle := (inv.serverHandle_iff server hserver other').mpr
        ⟨h.1, h.2.1, hheld other' h.2.2⟩
      rw [hhandle] at hserverHandle
      rw [Option.some.inj hserverHandle]
      exact h.2.2
    · rw [hother hsame, inv.serverHandle_iff other hlt other']
      refine and_congr_right fun _ => and_congr_right fun hobject => (hothers other' ?_).symm
      rintro rfl
      have hobject' := ((inv.serverHandle_iff server hserver other').mp hhandle).2.1
      exact hsame (InterlinkHandle.server.inj (hobject.symm.trans hobject'))
  · exact fun other h => inv.held_lt other (hheld other h)
  · exact inv.server_lt
  · intro older newer hlt hnewer haddress
    by_cases hsame : older = server
    · rw [hsame, hself]
    · rw [hother hsame] at haddress ⊢
      refine inv.older_closed older newer hlt hnewer (haddress.trans ?_)
      by_cases hsame' : newer = server
      · rw [hsame', hself]
      · rw [hother hsame']
  · intro other hle
    have hne : other ≠ server := by
      have : state.serverCount ≤ other := hle
      omega
    rw [hother hne]
    exact inv.pending_new other hle

theorem detachConnection_eq (inv : state.Ok hash) {connection : ℕ}
    (h : ¬ state.Referenced connection) (server : ℕ) :
    state.detachConnection server connection = state := by
  have hnotPending : connection ∉ (state.server server).pendingConnections := fun hmem => by
    rcases Nat.lt_or_ge server state.serverCount with hlt | hge
    · exact h (.inl ⟨server, hlt, hmem⟩)
    · rw [inv.pending_new server hge] at hmem
      cases hmem
  rw [detachConnection, List.erase_of_not_mem hnotPending, setServer]
  exact congrArg (fun servers => { state with server := servers })
    (update_eq_self server state.server)

/-- The destructor of a handle that has just been closed for the last time: the assertion
of `detach_handle` holds, and no pending connection is lost. -/
theorem destroyHandle_ok (inv : state.Ok hash) {entityHandle : ℤ}
    (hpid : pid < state.processes.count)
    (hget : getOpenEntity (state.processes.openEntities pid) entityHandle = .ok handle)
    (hlast : ¬ (state.processes.clear pid entityHandle.toNat).Held handle) :
    ∃ final, ({ state with processes := state.processes.clear pid entityHandle.toNat } :
        Interlink).destroyHandle hash handle = some final ∧
      final.Ok hash ∧ final.connectionCount = state.connectionCount ∧
      ∀ other, (final.server other).pendingConnections =
        (state.server other).pendingConnections := by
  have hheld : state.processes.Held handle := OpenHandles.held_of_getOpenEntity hpid hget
  have hof : ∀ other, (state.processes.clear pid entityHandle.toNat).Held other →
      state.processes.Held other := fun _ => OpenHandles.held_of_clear
  have hothers : ∀ other, other ≠ handle →
      ((state.processes.clear pid entityHandle.toNat).Held other ↔
        state.processes.Held other) := fun _ => OpenHandles.held_clear hget
  rw [destroyHandle]
  dsimp only
  cases hobject : state.handle handle with
  | server server =>
      have hserver : server < state.serverCount :=
        inv.server_lt handle (inv.held_lt handle hheld) server hobject
      have hhandle : (state.server server).serverHandle = some handle :=
        (inv.serverHandle_iff server hserver handle).mpr
          ⟨inv.held_lt handle hheld, hobject, hheld⟩
      have hregistered : state.listening (state.server server).address = some server :=
        inv.listening_iff.mpr ⟨hserver, rfl, by rw [hhandle]; nofun⟩
      obtain ⟨table, hextract, wf, rep⟩ := Hashtable.extract_spec inv.wellFormed
        (hashRespects hash) inv.represents_listening
        (.inr (inv.represents_listening.present_iff.mpr ⟨server, hregistered⟩))
      refine ⟨detached state table server (state.processes.clear pid entityHandle.toNat), ?_,
        detached_ok inv hserver hhandle wf rep hof hothers hlast, rfl, fun other => ?_⟩
      · dsimp only
        rw [detachHandle, if_pos hhandle, hextract]
        rfl
      · by_cases hsame : other = server
        · have hself : (detached state table server
              (state.processes.clear pid entityHandle.toNat)).server server =
                { state.server server with serverHandle := none } := update_self _ _ _
          rw [hsame, hself]
        · exact congrArg Server.pendingConnections (update_of_ne hsame _ _)
  | connection connection side =>
      have hkept := inv.setProcesses hof fun other server hserver =>
        hothers other fun h => by
          rw [h, hobject] at hserver
          cases hserver
      dsimp only
      split_ifs with hreferenced
      · exact ⟨_, rfl, hkept, rfl, fun _ => rfl⟩
      · rw [hkept.detachConnection_eq hreferenced]
        exact ⟨_, rfl, hkept, rfl, fun _ => rfl⟩

theorem sysClose_ok (inv : state.Ok hash) (hpid : pid < state.processes.count)
    (entityHandle : ℤ) :
    ∃ final, state.sysClose hash pid entityHandle =
        some (final, match getOpenEntity (state.processes.openEntities pid) entityHandle with
          | .error code => .failed code
          | .ok _ => .closed) ∧
      final.Ok hash ∧ final.connectionCount = state.connectionCount ∧
      ∀ server, (final.server server).pendingConnections =
        (state.server server).pendingConnections := by
  rw [sysClose]
  cases hget : getOpenEntity (state.processes.openEntities pid) entityHandle with
  | error code => exact ⟨state, rfl, inv, rfl, fun _ => rfl⟩
  | ok handle =>
      dsimp only
      split_ifs with hstill
      · refine ⟨_, rfl, inv.setProcesses (fun _ => OpenHandles.held_of_clear)
          fun other _ _ => ?_, rfl, fun _ => rfl⟩
        by_cases hsame : other = handle
        · rw [hsame]
          exact iff_of_true hstill (OpenHandles.held_of_getOpenEntity hpid hget)
        · exact OpenHandles.held_clear hget hsame
      · obtain ⟨final, hfinal, hok, hcount, hpending⟩ := inv.destroyHandle_ok hpid hget hstill
        exact ⟨final, by rw [hfinal]; rfl, hok, hcount, hpending⟩

end Ok

end Interlink

end BekOS
