import BekOS.Process.InterlinkRegistry

/-!
# Connections in order

`accept` takes the last of the pending connections, so they are accepted in order only
where at most one is pending; and the registry is a hashtable whose tombstones can hide
an address or leave a lookup no slot to stop at.  Where neither happens, `runServers_ok`
says that every call does what it should.
-/

namespace BekOS

open PartialRun

namespace Interlink

variable {hash : Address → ℕ} {state : Interlink} {address : Address} {pid : ℕ}

/-! ## Runs -/

section Runs

variable (hash : Address → ℕ)

/-- The server whose handle is open in a slot. -/
def namedServer (state : Interlink) (pid : ℕ) (interlinkEd : ℤ) : Option ℕ :=
  match getOpenEntity (state.processes.openEntities pid) interlinkEd with
  | .error _ => none
  | .ok handle =>
      match state.handle handle with
      | .server server => some server
      | .connection _ _ => none

/-- The calls under which the connections stay in order: an accept finds no more than
one pending connection, a lookup of an address that is not registered meets an empty
slot, and an advertise of one that is registered meets no tombstone before it. -/
def Orderly (state : Interlink) : Op → Prop
  | .lookup address | .connect _ address _ =>
      state.servers.HasEmpty ∨ state.servers.Present address
  | .advertise _ address _ => state.servers.NeedsExpand ∨ ¬ state.servers.Shadowed hash address
  | .accept pid interlinkEd _ _ =>
      ∀ server ∈ state.namedServer pid interlinkEd,
        (state.server server).pendingConnections.length ≤ 1
  | .close _ _ | .fork _ => True

instance (state : Interlink) (op : Op) : Decidable (state.Orderly hash op) := by
  cases op <;> unfold Orderly <;> infer_instance

/-- What a call is to answer: a lookup finds the server of the last successful advertise
while its handle is open, an advertise fails exactly then, and an accept answers `EAGAIN`,
or waits, exactly where no connection is pending, and else with the one that has been
pending longest. -/
def answer (state : Interlink) : Op → Reply
  | .lookup address =>
      match state.listening address with
      | some server => .found server
      | none => .failed .ENOENT
  | .advertise pid address _ =>
      if pid < state.processes.count then
        if (state.listening address).isSome then .failed .EADDRINUSE
        else .advertised state.serverCount
      else .absent
  | .connect pid address _ =>
      if pid < state.processes.count then
        match state.listening address with
        | some server => .connected server state.connectionCount
        | none => .failed .ENOENT
      else .absent
  | .accept pid interlinkEd _ blocking =>
      if pid < state.processes.count then
        match getOpenEntity (state.processes.openEntities pid) interlinkEd with
        | .error code => .failed code
        | .ok handle =>
            match state.handle handle with
            | .connection _ _ => .failed .ENOTSUP
            | .server server =>
                match (state.server server).pendingConnections with
                | connection :: _ => .accepted server connection
                | [] => if blocking then .waits else .failed .EAGAIN
      else .absent
  | .close pid entityHandle =>
      if pid < state.processes.count then
        match getOpenEntity (state.processes.openEntities pid) entityHandle with
        | .error code => .failed code
        | .ok _ => .closed
      else .absent
  | .fork pid => if pid < state.processes.count then .forked state.processes.count else .absent

end Runs

/-- The connection that a call makes at a server. -/
def Reply.connectedOn (server : ℕ) : Reply → Option ℕ
  | .connected other connection => if other = server then some connection else none
  | _ => none

/-- The connection of a server that a call accepts. -/
def Reply.acceptedOn (server : ℕ) : Reply → Option ℕ
  | .accepted other connection => if other = server then some connection else none
  | _ => none

/-- The connection that a call makes. -/
def Reply.made : Reply → Option ℕ
  | .connected _ connection => some connection
  | _ => none

/-- What a call does to the pending connections. -/
structure Moves (state : Interlink) (reply : Reply) (final : Interlink) : Prop where
  pending : ∀ server,
    (state.server server).pendingConnections ++ (reply.connectedOn server).toList =
      (reply.acceptedOn server).toList ++ (final.server server).pendingConnections
  made : List.range state.connectionCount ++ reply.made.toList =
    List.range final.connectionCount

theorem Moves.of_still {reply : Reply} {final : Interlink} (hmade : reply.made = none)
    (hconnected : ∀ server, reply.connectedOn server = none)
    (haccepted : ∀ server, reply.acceptedOn server = none)
    (hcount : final.connectionCount = state.connectionCount)
    (hpending : ∀ server, (final.server server).pendingConnections =
      (state.server server).pendingConnections) : Moves state reply final where
  pending := fun server => by
    rw [hconnected, haccepted, hpending]
    exact List.append_nil _
  made := by
    rw [hmade, hcount]
    exact List.append_nil _

theorem Moves.failed {code : ErrorCode} : Moves state (.failed code) state :=
  .of_still rfl (fun _ => rfl) (fun _ => rfl) rfl fun _ => rfl

theorem Moves.absent : Moves state .absent state :=
  .of_still rfl (fun _ => rfl) (fun _ => rfl) rfl fun _ => rfl

theorem step_lookup (inv : state.Ok hash) (orderly : state.Orderly hash (.lookup address)) :
    ∃ final, state.step hash (.lookup address) = some (final, state.answer (.lookup address)) ∧
      final.Ok hash ∧ Moves state (state.answer (.lookup address)) final := by
  rw [step, inv.lookup_eq orderly, answer]
  cases state.listening address with
  | some server =>
      exact ⟨state, rfl, inv, .of_still rfl (fun _ => rfl) (fun _ => rfl) rfl fun _ => rfl⟩
  | none => exact ⟨state, rfl, inv, .failed⟩

theorem step_advertise (inv : state.Ok hash) {group : ℕ}
    (orderly : state.Orderly hash (.advertise pid address group)) :
    ∃ final, state.step hash (.advertise pid address group) =
        some (final, state.answer (.advertise pid address group)) ∧
      final.Ok hash ∧ Moves state (state.answer (.advertise pid address group)) final := by
  rw [step, answer]
  split_ifs with hpid hused
  · obtain ⟨final, hfinal, hok, hcount, hpending⟩ :=
      inv.sysInterlinkAdvertise_ok hpid group orderly
    rw [if_pos hused] at hfinal
    exact ⟨final, hfinal, hok, .of_still rfl (fun _ => rfl) (fun _ => rfl) hcount hpending⟩
  · obtain ⟨final, hfinal, hok, hcount, hpending⟩ :=
      inv.sysInterlinkAdvertise_ok hpid group orderly
    rw [if_neg hused] at hfinal
    exact ⟨final, hfinal, hok, .of_still rfl (fun _ => rfl) (fun _ => rfl) hcount hpending⟩
  · exact ⟨state, rfl, inv, .absent⟩

theorem step_connect (inv : state.Ok hash) {group : ℕ}
    (orderly : state.Orderly hash (.connect pid address group)) :
    ∃ final, state.step hash (.connect pid address group) =
        some (final, state.answer (.connect pid address group)) ∧
      final.Ok hash ∧ Moves state (state.answer (.connect pid address group)) final := by
  rw [step, answer]
  split_ifs with hpid
  · obtain ⟨final, hfinal, hok, hmoves⟩ := inv.sysInterlinkConnect_ok hpid group orderly
    refine ⟨final, hfinal, hok, ?_⟩
    cases hlistening : state.listening address with
    | none =>
        rw [hlistening] at hmoves
        cases hmoves
        exact .failed
    | some server =>
        rw [hlistening] at hmoves
        obtain ⟨hcount, hpending⟩ := hmoves
        constructor
        · intro other
          rw [hpending]
          change _ ++ (if server = other then some state.connectionCount else none).toList = _
          by_cases hsame : other = server
          · rw [if_pos hsame.symm, if_pos hsame]
            rfl
          · rw [if_neg (Ne.symm hsame), if_neg hsame]
            rfl
        · rw [hcount, List.range_succ]
          rfl
  · exact ⟨state, rfl, inv, .absent⟩

theorem step_accept (inv : state.Ok hash) {interlinkEd : ℤ} {group : ℕ} {blocking : Bool}
    (orderly : state.Orderly hash (.accept pid interlinkEd group blocking)) :
    ∃ final, state.step hash (.accept pid interlinkEd group blocking) =
        some (final, state.answer (.accept pid interlinkEd group blocking)) ∧
      final.Ok hash ∧
      Moves state (state.answer (.accept pid interlinkEd group blocking)) final := by
  rw [step, answer]
  by_cases hpid : pid < state.processes.count
  · rw [if_pos hpid, if_pos hpid, sysInterlinkAccept]
    simp only [Orderly, namedServer] at orderly
    cases hget : getOpenEntity (state.processes.openEntities pid) interlinkEd with
    | error code => exact ⟨state, rfl, inv, .failed⟩
    | ok handle =>
        rw [hget] at orderly
        dsimp only at orderly ⊢
        cases hobject : state.handle handle with
        | connection connection side => exact ⟨state, rfl, inv, .failed⟩
        | server server =>
            rw [hobject] at orderly
            dsimp only
            have hserver : server < state.serverCount := inv.server_lt handle
              (inv.held_lt handle (OpenHandles.held_of_getOpenEntity hpid hget)) server hobject
            cases hpending : (state.server server).pendingConnections with
            | nil =>
                have haccept : state.accept server = (state, .error .EAGAIN) := by
                  rw [accept, hpending]
                  rfl
                rw [haccept]
                refine ⟨state, by cases blocking <;> rfl, inv, ?_⟩
                cases blocking with
                | true =>
                    exact .of_still rfl (fun _ => rfl) (fun _ => rfl) rfl fun _ => rfl
                | false => exact .failed
            | cons connection rest =>
                cases rest with
                | nil =>
                    obtain ⟨haccepted, hok, hcount, hmoved⟩ :=
                      inv.accept_ok hpid group hserver hpending
                    rw [haccepted]
                    refine ⟨_, rfl, hok, fun other => ?_, ?_⟩
                    swap
                    · rw [hcount]
                      exact List.append_nil _
                    rw [hmoved other]
                    change _ = (if server = other then some connection else none).toList ++ _
                    by_cases hsame : other = server
                    · rw [if_pos hsame.symm, if_pos hsame]
                      exact List.append_nil _
                    · rw [if_neg (Ne.symm hsame), if_neg hsame]
                      exact List.append_nil _
                | cons second rest =>
                    have hle := orderly server rfl
                    rw [hpending] at hle
                    exact absurd hle (by simp)
  · rw [if_neg hpid, if_neg hpid]
    exact ⟨state, rfl, inv, .absent⟩

theorem step_close (inv : state.Ok hash) {entityHandle : ℤ} :
    ∃ final, state.step hash (.close pid entityHandle) =
        some (final, state.answer (.close pid entityHandle)) ∧
      final.Ok hash ∧ Moves state (state.answer (.close pid entityHandle)) final := by
  rw [step, answer]
  split_ifs with hpid
  · obtain ⟨final, hfinal, hok, hcount, hpending⟩ := inv.sysClose_ok hpid entityHandle
    refine ⟨final, hfinal, hok, ?_⟩
    cases getOpenEntity (state.processes.openEntities pid) entityHandle with
    | error code => exact .of_still rfl (fun _ => rfl) (fun _ => rfl) hcount hpending
    | ok handle => exact .of_still rfl (fun _ => rfl) (fun _ => rfl) hcount hpending
  · exact ⟨state, rfl, inv, .absent⟩

theorem step_fork (inv : state.Ok hash) :
    ∃ final, state.step hash (.fork pid) = some (final, state.answer (.fork pid)) ∧
      final.Ok hash ∧ Moves state (state.answer (.fork pid)) final := by
  rw [step, answer]
  split_ifs with hpid
  · have hheld : ∀ handle, (state.processes.fork pid).Held handle ↔
        state.processes.Held handle := fun _ => OpenHandles.held_fork hpid
    exact ⟨_, rfl, inv.setProcesses (fun handle => (hheld handle).mp) fun handle _ _ =>
      hheld handle, .of_still rfl (fun _ => rfl) (fun _ => rfl) rfl fun _ => rfl⟩
  · exact ⟨state, rfl, inv, .absent⟩

/-- **One call.** -/
theorem step_ok (inv : state.Ok hash) {op : Op} (orderly : state.Orderly hash op) :
    ∃ final, state.step hash op = some (final, state.answer op) ∧ final.Ok hash ∧
      Moves state (state.answer op) final := by
  cases op with
  | lookup address => exact step_lookup inv orderly
  | advertise pid address group => exact step_advertise inv orderly
  | connect pid address group => exact step_connect inv orderly
  | accept pid interlinkEd group blocking => exact step_accept inv orderly
  | close pid entityHandle => exact step_close inv
  | fork pid => exact step_fork inv

theorem start_ok (hash : Address → ℕ) (processCount : ℕ) : (start processCount).Ok hash where
  wellFormed := Hashtable.new_wellFormed (by decide)
  represents := ⟨fun _ => none, Hashtable.new_represents _,
    fun _ _ => iff_of_false nofun fun h => absurd h.1 (Nat.not_lt_zero _)⟩
  serverHandle_iff := fun _ h => absurd h (Nat.not_lt_zero _)
  held_lt := fun _ ⟨_, _, _, hslot, _⟩ => absurd hslot List.not_mem_nil
  server_lt := fun _ h => absurd h (Nat.not_lt_zero _)
  older_closed := fun _ _ _ h => absurd h (Nat.not_lt_zero _)
  pending_new := fun _ _ => rfl

/-- **Servers and connections**, over every run of calls whose steps are orderly.  Each
call ends, with no assertion failed, and answers what it is to answer in the state that
the run has reached; the connections made are all different; and at each server, those
accepted, in this order, and then those pending are the ones made, in the order in which
they were made. -/
theorem runServers_ok (hash : Address → ℕ) (processCount : ℕ) {ops : List Op}
    (orderly : StepsMeet (step hash) (Orderly hash) (start processCount) ops) (n : ℕ) :
    ∃ final, runSteps (step hash) (start processCount) (ops.take n) = some final ∧
      (∀ op ∈ ops[n]?, ∃ next, step hash final.1 op = some (next, final.1.answer op)) ∧
      (final.2.filterMap Reply.made).Nodup ∧
      ∀ server, final.2.filterMap (Reply.connectedOn server) =
        final.2.filterMap (Reply.acceptedOn server) ++
          (final.1.server server).pendingConnections := by
  have hkeeps : ∀ state op, state.Ok hash → state.Orderly hash op →
      ∃ moved, step hash state op = some moved ∧ moved.1.Ok hash := fun state op inv h => by
    obtain ⟨final, hstep, hok, -⟩ := step_ok inv h
    exact ⟨_, hstep, hok⟩
  obtain ⟨final, hrun, hok⟩ := runSteps_completes hkeeps (start_ok hash processCount) orderly n
  have hconserves : ∀ {γ : Type} (hold : Interlink → List γ) (came went : Reply → Option γ),
      (∀ state reply final, Moves state reply final →
        hold state ++ (came reply).toList = (went reply).toList ++ hold final) →
      hold (start processCount) ++ final.2.filterMap came =
        final.2.filterMap went ++ hold final.1 := by
    intro γ hold came went hmoves
    refine runSteps_conserves hold came went (fun state op moved inv h hstep => ?_)
      (start_ok hash processCount) (orderly.take n) hrun
    obtain ⟨next, hnext, hok, hmoved⟩ := step_ok inv h
    rw [hstep, Option.some_inj] at hnext
    subst hnext
    exact ⟨hok, hmoves _ _ _ hmoved⟩
  refine ⟨final, hrun, fun op hop => ?_, ?_, fun server => ?_⟩
  · obtain ⟨next, hstep, -⟩ := step_ok hok (orderly.at hrun hop)
    exact ⟨next, hstep⟩
  · have hmade := hconserves (fun state => List.range state.connectionCount) Reply.made
      (fun _ => none) fun state reply final h => h.made
    rw [List.filterMap_none, List.nil_append] at hmade
    have hnodup := List.nodup_range (n := final.1.connectionCount)
    rw [← hmade] at hnodup
    exact hnodup
  · have hpending := hconserves (fun state => (state.server server).pendingConnections)
      (Reply.connectedOn server) (Reply.acceptedOn server) fun state reply final h =>
        h.pending server
    exact hpending

/-- Two processes, and a server that is closed and advertised again. -/
def twiceAdvertised : List Op :=
  [.fork 0, .advertise 0 [97] 0, .advertise 1 [97] 0, .connect 1 [97] 0, .accept 0 0 0 false,
    .accept 0 0 0 false, .close 0 0, .advertise 1 [97] 0, .connect 0 [97] 0,
    .accept 1 1 0 true, .lookup [97]]

theorem runServers_ok_twiceAdvertised :
    ∃ final, runSteps (step fun _ => 0) (start 1) (twiceAdvertised.take 10) = some final ∧
      (∀ op ∈ twiceAdvertised[10]?,
        ∃ next, step (fun _ => 0) final.1 op = some (next, final.1.answer op)) ∧
      (final.2.filterMap Reply.made).Nodup ∧
      ∀ server, final.2.filterMap (Reply.connectedOn server) =
        final.2.filterMap (Reply.acceptedOn server) ++
          (final.1.server server).pendingConnections :=
  runServers_ok (fun _ => 0) 1 (by decide) 10

/-- Of two connections that are pending, the later one is accepted first. -/
theorem runServers_fails :
    ∃ final, runSteps (step fun _ => 0) (start 1)
        [.advertise 0 [97] 0, .connect 0 [97] 0, .connect 0 [97] 0, .accept 0 0 0 false] =
          some final ∧
      ¬ final.2.filterMap (Reply.acceptedOn 0) <+: final.2.filterMap (Reply.connectedOn 0) :=
  ⟨_, rfl, by decide⟩

end Interlink

end BekOS
