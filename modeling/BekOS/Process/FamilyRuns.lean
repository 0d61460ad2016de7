import BekOS.Lib.PartialRun
import BekOS.Process.Reaping

/-!
# Fork, exit and wait

Runs in which the processes of a tree fork, exit and wait for their children, in
any order: each operation names the process that has the processor.  A blocked
`sys_wait` goes round its loop again, so each round is an operation of its own.

As long as every wait is safe, what it returns is a child that has exited, with
its status, and exactly that child goes; no child is reaped twice.
-/

namespace BekOS.ProcessManager

open PartialRun

/-! ## Runs -/

/-- The processes, and those that have been reaped. -/
structure Family where
  pm : ProcessManager
  reaped : List ℕ

/-- What the processes of a tree do: the caller forks, quits, or goes once round
the loop of `sys_wait`. -/
inductive FamilyOp where
  | fork (caller : ℕ) (stopped : Option ErrorCode)
  | exit (caller : ℕ) (exitCode : ℤ)
  | wait (caller : ℕ) (pid : ℤ) (status : Option Bool)

/-- How they end. -/
inductive FamilyReply where
  | forked (result : Except ErrorCode ℕ)
  | exited
  | waited (reply : WaitReply)

/-- The caller has the processor. -/
def onBehalfOf (pm : ProcessManager) (caller : ℕ) : ProcessManager :=
  { pm with current := caller }

/-- One operation; `none` when an assertion fails or a pointer names nothing.  What
`quit_process` does after recording the exit is the scheduler's. -/
def familyStep (family : Family) : FamilyOp → Option (Family × FamilyReply)
  | .fork caller stopped =>
      ((family.pm.onBehalfOf caller).sysFork stopped).map fun done =>
        ({ family with pm := done.1 }, .forked done.2)
  | .exit caller exitCode =>
      some ({ family with pm := (family.pm.onBehalfOf caller).recordExit exitCode }, .exited)
  | .wait caller pid status =>
      ((family.pm.onBehalfOf caller).sysWait pid status).map fun done =>
        ({ pm := done.1, reaped := family.reaped ++ freed family.pm done.1 }, .waited done.2)

/-- The process that makes the call. -/
def FamilyOp.caller : FamilyOp → ℕ
  | .fork caller _ | .exit caller _ | .wait caller _ _ => caller

/-- The caller is running. -/
def CallerRuns (family : Family) (op : FamilyOp) : Prop :=
  ∃ process ∈ family.pm.objects op.caller, process.runningState = .Running
deriving Decidable

/-- `WaitSafe`, for the operations that wait. -/
def FamilySafe (family : Family) : FamilyOp → Prop
  | .wait caller pid status => (family.pm.onBehalfOf caller).WaitSafe pid status
  | .fork _ _ | .exit _ _ => True

instance (family : Family) : (op : FamilyOp) → Decidable (FamilySafe family op)
  | .wait caller pid status =>
      inferInstanceAs (Decidable ((family.pm.onBehalfOf caller).WaitSafe pid status))
  | .fork _ _ | .exit _ _ => .isTrue trivial

/-- What an operation may do to the processes reaped: a wait that returns a child has
reaped that child, and nothing else reaps any. -/
def FamilyOk (family family' : Family) : FamilyOp → FamilyReply → Prop
  | .wait caller pid status, .waited reply =>
      WaitOk (family.pm.onBehalfOf caller) family'.pm pid status reply ∧
        family'.reaped = family.reaped ++ freed family.pm family'.pm
  | .fork _ _, .forked _ | .exit _ _, .exited => family'.reaped = family.reaped
  | _, _ => False

/-! ## One operation -/

variable {pm pm' : ProcessManager} {family : Family} {process : Process}

/-- The table does not depend on who has the processor, or on how many processes
were ever made. -/
theorem Linked.congr (linked : pm.Linked) (hprocesses : pm'.processes = pm.processes)
    (hobjects : pm'.objects = pm.objects) (hallocated : pm.allocated ≤ pm'.allocated) :
    pm'.Linked where
  slot := by
    rw [hprocesses, hobjects]
    exact linked.slot
  registered := by
    rw [hprocesses, hobjects]
    exact linked.registered
  children := by
    rw [hobjects]
    exact linked.children
  nodup := by
    rw [hobjects]
    exact linked.nodup
  older := by
    rw [hobjects]
    exact linked.older
  exited := by
    rw [hobjects]
    exact linked.exited
  fresh := by
    rw [hobjects]
    exact fun proc hproc => linked.fresh proc (by omega)

theorem Linked.sysFork (linked : pm.Linked) (hcurrent : pm.objects pm.current = some process)
    (hrunning : process.runningState ≠ .AwaitingDeath) (stopped : Option ErrorCode) :
    ∃ pm' result, pm.sysFork stopped = some (pm', result) ∧ pm'.Linked ∧
      pm.allocated ≤ pm'.allocated ∧
      ∀ proc, proc < pm.allocated → pm.objects proc = none → pm'.objects proc = none := by
  have hlt := linked.lt_allocated hcurrent
  cases stopped with
  | some code => exact ⟨pm, _, rfl, linked, (Nat.le_refl _), fun _ _ h => h⟩
  | none =>
      by_cases hroom : pm.candidate < longMax
      · obtain ⟨pm', hfork, -, hallocated, hprocesses, hobjects⟩ := sysFork_ok hcurrent hlt hroom
        refine ⟨pm', _, hfork, linked.fork hcurrent hallocated hprocesses hobjects, by omega,
          fun proc hproc hnone => ?_⟩
        have hne : proc ≠ pm.current := by
          rintro rfl
          rw [hcurrent] at hnone
          cases hnone
        rw [hobjects, if_neg (by omega), if_neg hne]
        exact hnone
      · obtain ⟨pm', hfork, -, hallocated, hprocesses, hobjects⟩ :=
          sysFork_full hlt hroom (linked.fresh _ (Nat.le_refl _))
        have hentered : pm.enterCritical.Linked :=
          linked.modifyCurrent hcurrent rfl rfl rfl fun h => absurd h hrunning
        refine ⟨pm', _, hfork, hentered.congr hprocesses (funext hobjects) ?_, by omega,
          fun proc _ hnone => ?_⟩
        · show pm.allocated ≤ pm'.allocated
          omega
        · rw [hobjects, enterCritical_objects]
          split_ifs with hcur
          · rw [← hcur, hnone]
            rfl
          · exact hnone

theorem WaitOk.freed_cases {pid : ℤ} {status : Option Bool} {reply : WaitReply}
    (ok : WaitOk pm pm' pid status reply) :
    (freed pm pm' = [] ∨ ∃ child, freed pm pm' = [child] ∧ pm.objects child ≠ none ∧
      pm'.objects child = none) ∧
      ∀ proc, pm.objects proc = none → pm'.objects proc = none := by
  cases reply with
  | blocked =>
      have hsame : pm' = pm := ok
      subst hsame
      exact ⟨Or.inl freed_self, fun _ h => h⟩
  | error code =>
      have hsame : pm' = pm := ok
      subst hsame
      exact ⟨Or.inl freed_self, fun _ h => h⟩
  | reaped childPid stored =>
      obtain ⟨child, code, hreaped, hfreed, -⟩ := ok
      obtain ⟨exited, hexited, -⟩ := hreaped.exited
      obtain ⟨parent, -, hparent, -⟩ := hreaped.children_eq
      refine ⟨Or.inr ⟨child, hfreed, by simp [hexited], hreaped.gone⟩, fun proc hnone => ?_⟩
      have hchild : proc ≠ child := by
        rintro rfl
        exact absurd (hnone.symm.trans hexited) nofun
      have hcur : proc ≠ pm.current := by
        rintro rfl
        exact absurd (hnone.symm.trans hparent) nofun
      rw [hreaped.others proc hchild hcur]
      exact hnone

/-- The table and the processes name each other, and the processes reaped are gone
for good. -/
structure FamilyInv (family : Family) : Prop where
  linked : family.pm.Linked
  nodup : family.reaped.Nodup
  gone : ∀ proc ∈ family.reaped, proc < family.pm.allocated ∧ family.pm.objects proc = none

/-- **One operation** of a running process completes, does what it may, and keeps
the invariant. -/
theorem FamilyInv.step (inv : FamilyInv family) {op : FamilyOp} (runs : CallerRuns family op)
    (safe : FamilySafe family op) :
    ∃ moved, familyStep family op = some moved ∧ FamilyInv moved.1 ∧
      FamilyOk family moved.1 op moved.2 := by
  obtain ⟨process, hprocess, hrunning⟩ := runs
  have hlinked : (family.pm.onBehalfOf op.caller).Linked := inv.linked.congr rfl rfl (Nat.le_refl _)
  have hcurrent : (family.pm.onBehalfOf op.caller).objects op.caller = some process := hprocess
  have hnotDead : process.runningState ≠ .AwaitingDeath := by
    rw [hrunning]
    decide
  cases op with
  | fork caller stopped =>
      obtain ⟨pm', result, hfork, hlinked', hallocated, hgone⟩ :=
        hlinked.sysFork hcurrent hnotDead stopped
      refine ⟨({ family with pm := pm' }, .forked result), ?_, ⟨hlinked', inv.nodup, ?_⟩, rfl⟩
      · have hfork' : (family.pm.onBehalfOf caller).sysFork stopped = some (pm', result) := hfork
        rw [familyStep, hfork', Option.map_some]
      · intro proc hproc
        obtain ⟨hlt, hnone⟩ := inv.gone proc hproc
        exact ⟨Nat.lt_of_lt_of_le hlt hallocated, hgone proc hlt hnone⟩
  | exit caller exitCode =>
      refine ⟨_, rfl, ⟨?_, inv.nodup, ?_⟩, rfl⟩
      · exact hlinked.modifyCurrent hcurrent rfl rfl rfl fun _ => Option.some_ne_none _
      · intro proc hproc
        obtain ⟨hlt, hnone⟩ := inv.gone proc hproc
        refine ⟨hlt, ?_⟩
        show ((family.pm.onBehalfOf caller).modify _ _).objects proc = none
        rw [modify_objects]
        split_ifs with hcur
        · have hcur' : proc = caller := hcur
          subst hcur'
          exact absurd (hnone.symm.trans hcurrent) nofun
        · exact hnone
  | wait caller pid status =>
      obtain ⟨pm', reply, hwait, hlinked', hallocated, hok⟩ :=
        hlinked.sysWait hcurrent pid status safe
      have hwait' : (family.pm.onBehalfOf caller).sysWait pid status = some (pm', reply) := hwait
      have hstep : familyStep family (.wait caller pid status) =
          some ({ pm := pm', reaped := family.reaped ++ freed family.pm pm' }, .waited reply) := by
        rw [familyStep, hwait', Option.map_some]
      obtain ⟨hfreed, hgone⟩ := hok.freed_cases
      refine ⟨_, hstep, ⟨hlinked', ?_, ?_⟩, hok, rfl⟩
      · rcases hfreed with hnone | ⟨child, hchild, halive, -⟩
        · have hnone' : freed family.pm pm' = [] := hnone
          simpa only [hnone', List.append_nil] using inv.nodup
        · have hchild' : freed family.pm pm' = [child] := hchild
          rw [hchild', List.nodup_append]
          refine ⟨inv.nodup, List.nodup_singleton child, ?_⟩
          rintro proc hproc other hother rfl
          rw [List.mem_singleton] at hother
          subst hother
          exact halive (inv.gone proc hproc).2
      · intro proc hproc
        have hallocated' : pm'.allocated = family.pm.allocated := hallocated
        show proc < pm'.allocated ∧ pm'.objects proc = none
        rw [hallocated']
        rcases List.mem_append.mp hproc with hold | hnew
        · obtain ⟨hlt, hnone⟩ := inv.gone proc hold
          exact ⟨hlt, hgone proc hnone⟩
        · rcases hfreed with hnone | ⟨child, hchild, -, hdead⟩
          · have hnone' : freed family.pm pm' = [] := hnone
            rw [hnone'] at hnew
            cases hnew
          · have hchild' : freed family.pm pm' = [child] := hchild
            refine ⟨List.mem_range.mp (List.mem_filter.mp hnew).1, ?_⟩
            rw [hchild', List.mem_singleton] at hnew
            rw [hnew]
            exact hdead

/-! ## Runs -/

/-- The programs that run when the first fork comes. -/
def familyBoot (count : ℕ) : Family where
  pm := boot count
  reaped := []

theorem boot_linked (count : ℕ) : (boot count).Linked := by
  have hobjects : ∀ proc process, (boot count).objects proc = some process →
      proc < count ∧ process = { Process.new none with pid := some proc, runningState := .Running } := by
    intro proc process h
    simp only [boot] at h
    split_ifs at h with hlt
    exact ⟨hlt, (Option.some_inj.mp h).symm⟩
  refine ⟨?_, ?_, ?_, ?_, ?_, ?_, ?_⟩
  · intro i proc h
    simp only [boot, List.getElem?_map, Option.map_eq_some_iff] at h
    obtain ⟨j, hj, hproc⟩ := h
    obtain ⟨hlt, hget⟩ := List.getElem?_eq_some_iff.mp hj
    rw [List.getElem_range] at hget
    rw [List.length_range] at hlt
    cases hproc
    subst hget
    exact ⟨_, if_pos hlt, rfl⟩
  · intro proc process h
    obtain ⟨hlt, rfl⟩ := hobjects proc process h
    refine ⟨proc, rfl, ?_⟩
    simp [boot, hlt]
  · intro proc process h child hchild
    obtain ⟨-, rfl⟩ := hobjects proc process h
    cases hchild
  · intro proc process h
    obtain ⟨-, rfl⟩ := hobjects proc process h
    exact List.nodup_nil
  · intro proc process parent h hparent
    obtain ⟨-, rfl⟩ := hobjects proc process h
    cases hparent
  · intro proc process h hdead
    obtain ⟨-, rfl⟩ := hobjects proc process h
    cases hdead
  · intro proc hproc
    exact if_neg (by simp only [boot] at hproc; omega)

/-- **Waiting is sound.**  In every run of the processes of any tree in which each
wait is safe, every operation completes, so no assertion of `reap_process` fails;
every wait ends as it should; and no child is reaped twice. -/
theorem run_reaps (count : ℕ) (ops : List FamilyOp)
    (safe : StepsMeet familyStep (fun family op => CallerRuns family op ∧ FamilySafe family op)
      (familyBoot count) ops) (n : ℕ) :
    ∃ final, runSteps familyStep (familyBoot count) (ops.take n) = some final ∧
      final.1.reaped.Nodup ∧ ∀ op, ops[n]? = some op →
        ∃ moved, familyStep final.1 op = some moved ∧ FamilyOk final.1 moved.1 op moved.2 := by
  have keeps : ∀ (family : Family) (op : FamilyOp), FamilyInv family →
      CallerRuns family op ∧ FamilySafe family op →
      ∃ moved, familyStep family op = some moved ∧ FamilyInv moved.1 := by
    intro family op inv cond
    obtain ⟨moved, hstep, hinv, -⟩ := inv.step cond.1 cond.2
    exact ⟨moved, hstep, hinv⟩
  have hstart : FamilyInv (familyBoot count) := ⟨boot_linked count, List.nodup_nil, nofun⟩
  obtain ⟨final, hrun, hinv⟩ := runSteps_completes keeps hstart safe n
  refine ⟨final, hrun, hinv.nodup, fun op hop => ?_⟩
  have hcond := safe.at hrun hop
  obtain ⟨moved, hstep, -, hok⟩ := hinv.step hcond.1 hcond.2
  exact ⟨moved, hstep, hok⟩

/-- A process with two children; the younger one has a child of its own, waits for
it and exits.  The parent takes the younger child first and then the elder one. -/
theorem run_reaps_family :
    ∃ final, runSteps familyStep (familyBoot 1) ([.fork 0 none, .fork 0 none, .fork 2 none,
        .exit 3 7, .wait 2 (-1) (some true), .exit 2 8, .wait 0 (-1) none, .exit 1 9,
        .wait 0 1 (some true)].take 8) = some final ∧
      final.1.reaped.Nodup ∧ ∀ op, ([.fork 0 none, .fork 0 none, .fork 2 none,
        .exit 3 7, .wait 2 (-1) (some true), .exit 2 8, .wait 0 (-1) none, .exit 1 9,
        .wait 0 1 (some true)] : List FamilyOp)[8]? = some op →
        ∃ moved, familyStep final.1 op = some moved ∧ FamilyOk final.1 moved.1 op moved.2 :=
  run_reaps 1 [.fork 0 none, .fork 0 none, .fork 2 none, .exit 3 7, .wait 2 (-1) (some true),
    .exit 2 8, .wait 0 (-1) none, .exit 1 9, .wait 0 1 (some true)] (by decide +kernel) 8

/-- A wait for any child when the elder of two has exited: it returns the elder's
PID, but by then the loop variable refers to the younger one, which is running,
and that one is reaped.  And a wait for a child that has exited without waiting for
its own: `reap_process` fails its assertion. -/
theorem run_reaps_fails :
    (StepsMeet familyStep CallerRuns (familyBoot 1)
        [.fork 0 none, .fork 0 none, .exit 1 5, .wait 0 (-1) none] ∧
      ¬ ∃ final, runSteps familyStep (familyBoot 1) [.fork 0 none, .fork 0 none, .exit 1 5] =
          some final ∧
        ∃ moved, familyStep final.1 (.wait 0 (-1) none) = some moved ∧
          FamilyOk final.1 moved.1 (.wait 0 (-1) none) moved.2) ∧
    StepsMeet familyStep CallerRuns (familyBoot 1)
        [.fork 0 none, .fork 1 none, .exit 1 5, .wait 0 1 none] ∧
      runSteps familyStep (familyBoot 1) [.fork 0 none, .fork 1 none, .exit 1 5, .wait 0 1 none] =
        none := by
  refine ⟨⟨by decide +kernel, ?_⟩, by decide +kernel, ?_⟩
  · rintro ⟨final, hrun, moved, hstep, hok⟩
    have hfacts : (runSteps familyStep (familyBoot 1)
        [.fork 0 none, .fork 0 none, .exit 1 5]).bind (fun final =>
          (familyStep final.1 (.wait 0 (-1) none)).map fun moved =>
            (moved.1.reaped, moved.2 matches .waited (.reaped 1 none),
              (final.1.pm.objects 2).map Process.runningState)) =
        some ([2], true, some .Running) := by decide +kernel
    rw [hrun, Option.bind_some, hstep, Option.map_some, Option.some_inj, Prod.mk.injEq,
      Prod.mk.injEq] at hfacts
    obtain ⟨hreaped, hreply, hstate⟩ := hfacts
    obtain ⟨moved, reply⟩ := moved
    cases reply with
    | forked result => cases hreply
    | exited => cases hreply
    | waited reply =>
        obtain ⟨hwait, hlist⟩ := hok
        cases reply with
        | blocked => cases hreply
        | error code => cases hreply
        | reaped childPid stored =>
            obtain ⟨child, code, hgone, hfreed, -⟩ := hwait
            have hnil : final.1.reaped = [] := by
              have hbefore : (runSteps familyStep (familyBoot 1)
                  [.fork 0 none, .fork 0 none, .exit 1 5]).map (fun final => final.1.reaped) =
                  some [] := by decide +kernel
              rwa [hrun, Option.map_some, Option.some_inj] at hbefore
            have hchild : [2] = [child] := by
              rw [← hreaped, hlist, hnil]
              exact hfreed
            obtain ⟨process, hprocess, -, hdead, -⟩ := hgone.exited
            cases hchild
            have hsame : final.1.pm.objects 2 = some process := hprocess
            rw [hsame, Option.map_some, hdead] at hstate
            cases hstate
  · have hstops : (runSteps familyStep (familyBoot 1)
        [.fork 0 none, .fork 1 none, .exit 1 5, .wait 0 1 none]).isNone = true := by
      decide +kernel
    exact Option.isNone_iff_eq_none.mp hstops

end BekOS.ProcessManager
