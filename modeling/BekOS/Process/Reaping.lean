import BekOS.Process.ProcessTable

/-!
# Waiting for children

`Linked` is the invariant of the process tree: the table and the processes name
each other, and the children of a process are processes it has forked.  Forking,
reaping a child and changing the current process keep it.

A `sys_wait` for any child reaps what its loop variable refers to once the child
has been taken out, and `reap_process` asserts that no grandchild is left;
`WaitSafe` says that neither matters.
-/

namespace BekOS.ProcessManager

open Function

variable {pm pm' : ProcessManager} {proc child : ℕ} {process parent : Process}

/-! ## The invariant -/

/-- The table and the processes name each other, and children are processes that
their parent has forked. -/
structure Linked (pm : ProcessManager) : Prop where
  slot : ∀ i proc, pm.processes[i]? = some (some proc) →
    ∃ process, pm.objects proc = some process ∧ process.pid = some i
  registered : ∀ proc process, pm.objects proc = some process →
    ∃ i, process.pid = some i ∧ pm.processes[i]? = some (some proc)
  children : ∀ proc process, pm.objects proc = some process →
    ∀ child ∈ process.children.toList,
      ∃ forked, pm.objects child = some forked ∧ forked.parent = some proc
  nodup : ∀ proc process, pm.objects proc = some process → process.children.toList.Nodup
  older : ∀ proc process parent, pm.objects proc = some process →
    process.parent = some parent → parent < proc
  exited : ∀ proc process, pm.objects proc = some process →
    process.runningState = .AwaitingDeath → process.exitCode ≠ none
  fresh : ∀ proc, pm.allocated ≤ proc → pm.objects proc = none

namespace Linked

theorem lt_allocated (linked : pm.Linked) (h : pm.objects proc = some process) :
    proc < pm.allocated := by
  by_contra hge
  rw [linked.fresh proc (by omega)] at h
  cases h

theorem slot_unique (linked : pm.Linked) (h : pm.objects proc = some process) {i : ℕ}
    (hpid : process.pid = some i) :
    pm.processes[i]? = some (some proc) ∧
      ∀ j, pm.processes[j]? = some (some proc) → j = i := by
  obtain ⟨k, hk, hslot⟩ := linked.registered proc process h
  rw [hpid, Option.some_inj] at hk
  subst hk
  refine ⟨hslot, fun j hj => ?_⟩
  obtain ⟨other, hother, hj⟩ := linked.slot j proc hj
  rw [h, Option.some_inj] at hother
  subst hother
  rw [hpid, Option.some_inj] at hj
  exact hj.symm

theorem pid_unique (linked : pm.Linked) {other : ℕ} {process' : Process}
    (h : pm.objects proc = some process) (h' : pm.objects other = some process') {i : ℕ}
    (hpid : process.pid = some i) (hpid' : process'.pid = some i) : other = proc := by
  have hslot := (linked.slot_unique h hpid).1
  rw [(linked.slot_unique h' hpid').1] at hslot
  simpa using hslot

theorem ne_child (linked : pm.Linked) (h : pm.objects proc = some process)
    (hchild : child ∈ process.children.toList) : child ≠ proc := by
  obtain ⟨forked, hforked, hparent⟩ := linked.children proc process h child hchild
  have := linked.older child forked proc hforked hparent
  omega

/-- The table with the current process changed. -/
theorem modifyCurrent (linked : pm.Linked) (hcurrent : pm.objects pm.current = some process)
    {f : Process → Process} (hpid : (f process).pid = process.pid)
    (hparent : (f process).parent = process.parent)
    (hchildren : (f process).children = process.children)
    (hexited : (f process).runningState = .AwaitingDeath → (f process).exitCode ≠ none) :
    (pm.modify pm.current f).Linked := by
  have hobjects : ∀ proc process', (pm.modify pm.current f).objects proc = some process' →
      ∃ old, pm.objects proc = some old ∧ process'.pid = old.pid ∧
        process'.parent = old.parent ∧ process'.children = old.children ∧
        (process'.runningState = .AwaitingDeath → process'.exitCode ≠ none) := by
    intro proc process' h
    rw [modify_objects] at h
    split_ifs at h with hproc
    · subst hproc
      rw [hcurrent, Option.map_some, Option.some_inj] at h
      subst h
      exact ⟨process, hcurrent, hpid, hparent, hchildren, hexited⟩
    · exact ⟨process', h, rfl, rfl, rfl, linked.exited proc process' h⟩
  have hkept : ∀ proc old, pm.objects proc = some old → ∃ process',
      (pm.modify pm.current f).objects proc = some process' ∧ process'.pid = old.pid ∧
        process'.parent = old.parent := by
    intro proc old h
    rw [modify_objects]
    split_ifs with hproc
    · subst hproc
      rw [hcurrent, Option.some_inj] at h
      subst h
      exact ⟨f process, by rw [hcurrent, Option.map_some], hpid, hparent⟩
    · exact ⟨old, h, rfl, rfl⟩
  refine ⟨?_, ?_, ?_, ?_, ?_, ?_, ?_⟩
  · intro i proc hslot
    obtain ⟨old, hold, hpid⟩ := linked.slot i proc hslot
    obtain ⟨process', h', hpid', -⟩ := hkept proc old hold
    exact ⟨process', h', hpid'.trans hpid⟩
  · intro proc process' h
    obtain ⟨old, hold, hpid, -⟩ := hobjects proc process' h
    obtain ⟨i, hi, hslot⟩ := linked.registered proc old hold
    exact ⟨i, hpid.trans hi, hslot⟩
  · intro proc process' h child hchild
    obtain ⟨old, hold, -, -, hchildren, -⟩ := hobjects proc process' h
    rw [hchildren] at hchild
    obtain ⟨forked, hforked, hparent⟩ := linked.children proc old hold child hchild
    obtain ⟨forked', hforked', -, hparent'⟩ := hkept child forked hforked
    exact ⟨forked', hforked', hparent'.trans hparent⟩
  · intro proc process' h
    obtain ⟨old, hold, -, -, hchildren, -⟩ := hobjects proc process' h
    rw [hchildren]
    exact linked.nodup proc old hold
  · intro proc process' parent h hp
    obtain ⟨old, hold, -, hparent, -⟩ := hobjects proc process' h
    exact linked.older proc old parent hold (hparent.symm.trans hp)
  · intro proc process' h
    obtain ⟨old, hold, -, -, -, hexited⟩ := hobjects proc process' h
    exact hexited
  · intro proc hproc
    rw [modify_objects]
    have hlt := linked.lt_allocated hcurrent
    rw [if_neg (by rw [modify_allocated] at hproc; omega)]
    exact linked.fresh proc hproc

/-- **A new child** of the current process. -/
theorem fork (linked : pm.Linked) (hparent : pm.objects pm.current = some parent)
    (hcurrent : pm'.allocated = pm.allocated + 1)
    (hprocesses : pm'.processes = enterSlot pm.processes pm.candidate pm.allocated)
    (hobjects : ∀ other, pm'.objects other =
      if other = pm.allocated then some (forked pm.current pm.candidate)
      else if other = pm.current then
        some { parent with children := parent.children.pushBack pm.allocated }
      else pm.objects other) : pm'.Linked := by
  have hlt := linked.lt_allocated hparent
  have hnew : pm'.objects pm.allocated = some (forked pm.current pm.candidate) := by
    rw [hobjects, if_pos rfl]
  have hkept : ∀ proc old, pm.objects proc = some old → ∃ process',
      pm'.objects proc = some process' ∧ process'.pid = old.pid ∧
        process'.parent = old.parent := by
    intro proc old h
    have hproc := linked.lt_allocated h
    rw [hobjects, if_neg (by omega)]
    split_ifs with hcur
    · subst hcur
      rw [hparent, Option.some_inj] at h
      subst h
      exact ⟨_, rfl, rfl, rfl⟩
    · exact ⟨old, h, rfl, rfl⟩
  have hcases : ∀ proc process', pm'.objects proc = some process' →
      (proc = pm.allocated ∧ process' = BekOS.ProcessManager.forked pm.current pm.candidate) ∨
      (proc = pm.current ∧
        process' = { parent with children := parent.children.pushBack pm.allocated }) ∨
      pm.objects proc = some process' := by
    intro proc process' h
    rw [hobjects] at h
    split_ifs at h with hproc hcur
    · exact Or.inl ⟨hproc, (Option.some_inj.mp h).symm⟩
    · exact Or.inr (Or.inl ⟨hcur, (Option.some_inj.mp h).symm⟩)
    · exact Or.inr (Or.inr h)
  have hslots : ∀ j, (enterSlot pm.processes pm.candidate pm.allocated)[j]? =
      if j = pm.candidate then some (some pm.allocated) else pm.processes[j]? :=
    getElem?_enterSlot candidate_le
  refine ⟨?_, ?_, ?_, ?_, ?_, ?_, ?_⟩
  · intro i proc hslot
    rw [hprocesses, hslots] at hslot
    split_ifs at hslot with hi
    · cases hslot
      exact ⟨_, hnew, by rw [hi]; rfl⟩
    · obtain ⟨old, hold, hpid⟩ := linked.slot i proc hslot
      obtain ⟨process', h', hpid', -⟩ := hkept proc old hold
      exact ⟨process', h', hpid'.trans hpid⟩
  · intro proc process' h
    rcases hcases proc process' h with ⟨rfl, rfl⟩ | ⟨rfl, rfl⟩ | hold
    · exact ⟨pm.candidate, rfl, by rw [hprocesses, hslots, if_pos rfl]⟩
    · obtain ⟨i, hi, hslot⟩ := linked.registered _ _ hparent
      refine ⟨i, hi, ?_⟩
      rw [hprocesses, hslots, if_neg fun hfree => pm.candidate_free (hfree ▸ hslot)]
      exact hslot
    · obtain ⟨i, hi, hslot⟩ := linked.registered _ _ hold
      refine ⟨i, hi, ?_⟩
      rw [hprocesses, hslots, if_neg fun hfree => pm.candidate_free (hfree ▸ hslot)]
      exact hslot
  · intro proc process' h child hchild
    rcases hcases proc process' h with ⟨rfl, rfl⟩ | ⟨rfl, rfl⟩ | hold
    · cases hchild
    · have hchild' : child ∈ (parent.children.pushBack pm.allocated).toList := hchild
      rw [BekVector.toList_pushBack, List.mem_append, List.mem_singleton] at hchild'
      rcases hchild' with hchild' | rfl
      · obtain ⟨forked, hforked, hp⟩ := linked.children _ _ hparent child hchild'
        obtain ⟨forked', hforked', -, hp'⟩ := hkept child forked hforked
        exact ⟨forked', hforked', hp'.trans hp⟩
      · exact ⟨_, hnew, rfl⟩
    · obtain ⟨forked, hforked, hp⟩ := linked.children _ _ hold child hchild
      obtain ⟨forked', hforked', -, hp'⟩ := hkept child forked hforked
      exact ⟨forked', hforked', hp'.trans hp⟩
  · intro proc process' h
    rcases hcases proc process' h with ⟨rfl, rfl⟩ | ⟨rfl, rfl⟩ | hold
    · exact List.nodup_nil
    · show (parent.children.pushBack pm.allocated).toList.Nodup
      rw [BekVector.toList_pushBack, List.nodup_append]
      refine ⟨linked.nodup _ _ hparent, List.nodup_singleton _, ?_⟩
      intro child hchild new hnew' heq
      obtain ⟨forked, hforked, -⟩ := linked.children _ _ hparent child hchild
      have := linked.lt_allocated hforked
      rw [List.mem_singleton] at hnew'
      omega
    · exact linked.nodup _ _ hold
  · intro proc process' grandparent h hp
    rcases hcases proc process' h with ⟨rfl, rfl⟩ | ⟨rfl, rfl⟩ | hold
    · cases hp
      exact hlt
    · exact linked.older _ _ _ hparent hp
    · exact linked.older _ _ _ hold hp
  · intro proc process' h
    rcases hcases proc process' h with ⟨rfl, rfl⟩ | ⟨rfl, rfl⟩ | hold
    · exact fun hdead => nomatch hdead
    · exact fun hdead => linked.exited _ parent hparent hdead
    · exact linked.exited _ _ hold
  · intro proc hproc
    rw [hobjects, if_neg (by omega), if_neg (by omega)]
    exact linked.fresh proc (by omega)

/-- **A child less.**  The current process has lost a child that had none itself. -/
theorem reap (linked : pm.Linked) (hparent : pm.objects pm.current = some parent)
    (hchild : child ∈ parent.children.toList) (hprocess : pm.objects child = some process)
    {pid : ℕ} (hpid : process.pid = some pid) {children : BekVector ℕ}
    (hchildren : children.toList = parent.children.toList.erase child)
    (hallocated : pm'.allocated = pm.allocated)
    (hprocesses : pm'.processes = pm.processes.set pid none)
    (hobjects : ∀ other, pm'.objects other =
      if other = child then none
      else if other = pm.current then some { parent with children := children }
      else pm.objects other) : pm'.Linked := by
  have hslot := linked.slot_unique hprocess hpid
  have hne := linked.ne_child hparent hchild
  have hkept : ∀ proc old, proc ≠ child → pm.objects proc = some old → ∃ process',
      pm'.objects proc = some process' ∧ process'.pid = old.pid ∧
        process'.parent = old.parent := by
    intro proc old hproc h
    rw [hobjects, if_neg hproc]
    split_ifs with hcur
    · subst hcur
      rw [hparent, Option.some_inj] at h
      subst h
      exact ⟨_, rfl, rfl, rfl⟩
    · exact ⟨old, h, rfl, rfl⟩
  have hcases : ∀ proc process', pm'.objects proc = some process' → proc ≠ child ∧
      ((proc = pm.current ∧ process' = { parent with children := children }) ∨
        proc ≠ pm.current ∧ pm.objects proc = some process') := by
    intro proc process' h
    rw [hobjects] at h
    split_ifs at h with hproc hcur
    · exact ⟨hproc, Or.inl ⟨hcur, (Option.some_inj.mp h).symm⟩⟩
    · exact ⟨hproc, Or.inr ⟨hcur, h⟩⟩
  have hslots : ∀ (i other : ℕ), other ≠ child → pm.processes[i]? = some (some other) →
      pm'.processes[i]? = some (some other) := by
    intro i other hother hi
    rw [hprocesses, List.getElem?_set_ne]
    · exact hi
    · rintro rfl
      rw [hslot.1] at hi
      exact hother (by simpa using hi.symm)
  have hforked : ∀ proc process', pm.objects proc = some process' → proc ≠ pm.current →
      ∀ other ∈ process'.children.toList, other ≠ child := by
    intro proc process' h hproc other hother heq
    subst heq
    obtain ⟨forked, hforked, hp⟩ := linked.children _ _ hparent other hchild
    obtain ⟨forked', hforked', hp'⟩ := linked.children _ _ h other hother
    rw [hforked, Option.some_inj] at hforked'
    subst hforked'
    rw [hp, Option.some_inj] at hp'
    exact hproc hp'.symm
  have hnodup := linked.nodup _ _ hparent
  refine ⟨?_, ?_, ?_, ?_, ?_, ?_, ?_⟩
  · intro i other hi
    have hipid : i ≠ pid := by
      rintro rfl
      rw [hprocesses] at hi
      have hlt := (List.getElem?_eq_some_iff.mp hslot.1).1
      simp [hlt] at hi
    have hold : pm.processes[i]? = some (some other) := by
      rwa [hprocesses, List.getElem?_set_ne hipid.symm] at hi
    have hother : other ≠ child := by
      rintro rfl
      exact hipid (hslot.2 i hold)
    obtain ⟨old, h, hold⟩ := linked.slot i other hold
    obtain ⟨process', h', hpid', -⟩ := hkept other old hother h
    exact ⟨process', h', hpid'.trans hold⟩
  · intro other process' h
    obtain ⟨hother, ⟨rfl, rfl⟩ | ⟨-, hold⟩⟩ := hcases other process' h
    · obtain ⟨i, hi, hin⟩ := linked.registered _ _ hparent
      exact ⟨i, hi, hslots i _ hother hin⟩
    · obtain ⟨i, hi, hin⟩ := linked.registered _ _ hold
      exact ⟨i, hi, hslots i _ hother hin⟩
  · intro other process' h grand hgrand
    obtain ⟨hother, ⟨rfl, rfl⟩ | ⟨hcur, hold⟩⟩ := hcases other process' h
    · have hgrand' : grand ∈ children.toList := hgrand
      rw [hchildren, hnodup.mem_erase_iff] at hgrand'
      obtain ⟨forked, hforked, hp⟩ := linked.children _ _ hparent grand hgrand'.2
      obtain ⟨forked', hforked', -, hp'⟩ := hkept grand forked hgrand'.1 hforked
      exact ⟨forked', hforked', hp'.trans hp⟩
    · obtain ⟨forked, hfork, hp⟩ := linked.children _ _ hold grand hgrand
      obtain ⟨forked', hforked', -, hp'⟩ :=
        hkept grand forked (hforked _ _ hold hcur grand hgrand) hfork
      exact ⟨forked', hforked', hp'.trans hp⟩
  · intro other process' h
    obtain ⟨hother, ⟨rfl, rfl⟩ | ⟨-, hold⟩⟩ := hcases other process' h
    · show children.toList.Nodup
      rw [hchildren]
      exact hnodup.erase child
    · exact linked.nodup _ _ hold
  · intro other process' grandparent h hp
    obtain ⟨hother, ⟨rfl, rfl⟩ | ⟨-, hold⟩⟩ := hcases other process' h
    · exact linked.older _ _ _ hparent hp
    · exact linked.older _ _ _ hold hp
  · intro other process' h
    obtain ⟨hother, ⟨rfl, rfl⟩ | ⟨-, hold⟩⟩ := hcases other process' h
    · exact fun hdead => linked.exited _ parent hparent hdead
    · exact linked.exited _ _ hold
  · intro other hother
    have hlt := linked.lt_allocated hparent
    rw [hobjects, if_neg, if_neg (by omega)]
    · exact linked.fresh other (by omega)
    · rintro rfl
      have := linked.lt_allocated hprocess
      omega

end Linked

/-! ## One round of `sys_wait` -/

theorem findChild_spec (test : Process → Bool) :
    ∀ {children : List ℕ}, (∀ child ∈ children, ∃ process, pm.objects child = some process) →
      ∃ found, pm.findChild test children = some found ∧
        (found = none → ∀ child ∈ children, ∀ process, pm.objects child = some process →
          test process = false) ∧
        ∀ i, found = some i → ∃ child process, children[i]? = some child ∧
          pm.objects child = some process ∧ test process = true := by
  intro children
  induction children with
  | nil => exact fun _ => ⟨none, rfl, by simp, nofun⟩
  | cons first rest ih =>
      intro halive
      obtain ⟨process, hprocess⟩ := halive first List.mem_cons_self
      obtain ⟨found, hfound, hnone, hsome⟩ := ih fun child hchild =>
        halive child (List.mem_cons_of_mem _ hchild)
      unfold findChild
      rw [hprocess, Option.bind_some]
      cases htest : test process with
      | true =>
          refine ⟨some 0, rfl, nofun, fun i hi => ?_⟩
          cases hi
          exact ⟨first, process, rfl, hprocess, htest⟩
      | false =>
          rw [hfound]
          refine ⟨found.map (· + 1), rfl, fun hnil child hchild other hother => ?_, fun i hi => ?_⟩
          · rw [Option.map_eq_none_iff] at hnil
            rcases List.mem_cons.mp hchild with rfl | hchild
            · rw [hprocess, Option.some_inj] at hother
              rw [← hother]
              exact htest
            · exact hnone hnil child hchild other hother
          · obtain ⟨j, rfl, rfl⟩ := Option.map_eq_some_iff.mp hi
            obtain ⟨child, other, hchild, hother, hpass⟩ := hsome j rfl
            exact ⟨child, other, hchild, hother, hpass⟩

/-- Slot `j` names a process, which has another PID. -/
def Passes (pm : ProcessManager) (pid : ℕ) (children : BekVector ℕ) (j : ℕ) : Prop :=
  ∃ child process, children.slots[j]? = some child ∧ pm.objects child = some process ∧
    process.pid ≠ some pid

theorem extractPid_passes {pid : ℕ} {children : BekVector ℕ} :
    ∀ (remaining i : ℕ), (∀ j, i ≤ j → j < i + remaining → pm.Passes pid children j) →
      pm.extractPid pid children i remaining = some children := by
  intro remaining
  induction remaining with
  | zero => exact fun _ _ => rfl
  | succ remaining ih =>
      intro i hpass
      obtain ⟨child, process, hslot, hprocess, hpid⟩ := hpass i (Nat.le_refl i) (by omega)
      rw [extractPid, hslot, Option.bind_some, hprocess, Option.bind_some, if_neg hpid]
      exact ih (i + 1) fun j hij hj => hpass j (by omega) (by omega)

/-- The loop takes out the one child with the PID, although it goes on over a
vector that has become shorter. -/
theorem extractPid_of_unique {pid k : ℕ} {children children' : BekVector ℕ} {process : Process}
    (hchild : children.slots[k]? = some child) (hprocess : pm.objects child = some process)
    (hpid : process.pid = some pid) (hextract : children.extract k = some children') :
    ∀ (remaining i : ℕ), i ≤ k → k < i + remaining →
      (∀ j, i ≤ j → j < k → pm.Passes pid children j) →
      (∀ j, k < j → j < i + remaining → pm.Passes pid children' j) →
      pm.extractPid pid children i remaining = some children' := by
  intro remaining
  induction remaining with
  | zero =>
      intro i hik hk
      omega
  | succ remaining ih =>
      intro i hik hk hbefore hafter
      rcases Nat.lt_or_ge i k with hlt | hge
      · obtain ⟨other, process', hslot, hprocess', hpid'⟩ := hbefore i (Nat.le_refl i) hlt
        rw [extractPid, hslot, Option.bind_some, hprocess', Option.bind_some, if_neg hpid']
        exact ih (i + 1) hlt (by omega) (fun j hij => hbefore j (by omega))
          fun j hkj hj => hafter j hkj (by omega)
      · have hik' : i = k := by omega
        subst hik'
        rw [extractPid, hchild, Option.bind_some, hprocess, Option.bind_some, if_pos hpid,
          hextract, Option.bind_some]
        exact extractPid_passes remaining (i + 1) fun j hij hj =>
          hafter j (by omega) (by omega)

theorem reapProcess_ok {pid : ℕ} (hprocess : pm.objects proc = some process)
    (hpid : process.pid = some pid) (hslot : pm.processes[pid]? = some (some proc))
    (honly : ∀ j, pm.processes[j]? = some (some proc) → j = pid)
    (hempty : process.children.size = 0) :
    pm.reapProcess proc = some { pm with
      processes := pm.processes.set pid none
      objects := update pm.objects proc none } := by
  rw [reapProcess, hprocess, Option.bind_some, hpid, Option.bind_some]
  exact if_pos ⟨hslot, hempty, count_eq_one hslot honly⟩

/-- Exactly this child has gone from the table and from the children of the current
process. -/
structure Reaped (pm pm' : ProcessManager) (child pid : ℕ) (code : ℤ) : Prop where
  isChild : ∃ parent, pm.objects pm.current = some parent ∧ child ∈ parent.children.toList
  exited : ∃ process, pm.objects child = some process ∧ process.pid = some pid ∧
    process.runningState = .AwaitingDeath ∧ process.exitCode = some code
  processes_eq : pm'.processes = pm.processes.set pid none
  gone : pm'.objects child = none
  children_eq : ∃ parent children, pm.objects pm.current = some parent ∧
    pm'.objects pm.current = some { parent with children := children } ∧
    children.toList = parent.children.toList.erase child
  others : ∀ other, other ≠ child → other ≠ pm.current → pm'.objects other = pm.objects other

/-- **Taking out an exited child and reaping it.** -/
theorem Linked.takeOut (linked : pm.Linked) (hparent : pm.objects pm.current = some parent)
    {k pid : ℕ} (hchild : parent.children.toList[k]? = some child)
    (hprocess : pm.objects child = some process) (hpid : process.pid = some pid)
    (hdead : process.runningState = .AwaitingDeath) (hempty : process.children.size = 0) :
    ∃ children, parent.children.extract k = some children ∧
      (k + 1 = parent.children.size → children.slots[k]? = some child) ∧
      pm.extractPid pid parent.children 0 parent.children.size = some children ∧
      ∃ pm', (pm.modify pm.current fun parent =>
          { parent with children := children }).reapProcess child = some pm' ∧
        pm'.Linked ∧ pm'.allocated = pm.allocated ∧
        ∃ code, process.exitCode = some code ∧ Reaped pm pm' child pid code := by
  have hmem : child ∈ parent.children.toList := List.mem_of_getElem? hchild
  have hk : k < parent.children.size := by
    rw [← BekVector.length_toList]
    exact (List.getElem?_eq_some_iff.mp hchild).1
  have hne := linked.ne_child hparent hmem
  have hnodup := linked.nodup _ _ hparent
  obtain ⟨children, hextract, htoList, hsize, -, hmoved, hstayed⟩ := BekVector.extract_of_lt hk
  have herase : children.toList = parent.children.toList.erase child := by
    obtain ⟨hlt, hget⟩ := List.getElem?_eq_some_iff.mp hchild
    rw [htoList, ← hget, hnodup.erase_getElem]
  have hslot : parent.children.slots[k]? = some child := by
    rw [BekVector.getElem?_slots hk]
    exact hchild
  -- Any other child still named by a slot has another PID.
  have hother : ∀ (j : ℕ) (c : ℕ), j ≠ k → parent.children.toList[j]? = some c →
      ∃ other, pm.objects c = some other ∧ other.pid ≠ some pid := by
    intro j c hj hc
    obtain ⟨other, hother, -⟩ := linked.children _ _ hparent c (List.mem_of_getElem? hc)
    refine ⟨other, hother, fun hsame => hj ?_⟩
    have hcc := linked.pid_unique hprocess hother hpid hsame
    subst hcc
    have hjlt := (List.getElem?_eq_some_iff.mp hc).1
    exact (List.getElem?_inj hjlt hnodup).mp (hc.trans hchild.symm)
  have hbefore : ∀ j, 0 ≤ j → j < k → pm.Passes pid parent.children j := by
    intro j _ hj
    obtain ⟨c, hc⟩ : ∃ c, parent.children.toList[j]? = some c :=
      ⟨_, List.getElem?_eq_getElem (by rw [BekVector.length_toList]; omega)⟩
    obtain ⟨other, hobject, hdiff⟩ := hother j c (by omega) hc
    exact ⟨c, other, by rw [BekVector.getElem?_slots (by omega)]; exact hc, hobject, hdiff⟩
  have hafter : ∀ j, k < j → j < 0 + parent.children.size → pm.Passes pid children j := by
    intro j hj hlt
    rcases Nat.lt_or_ge (j + 1) parent.children.size with hin | hend
    · obtain ⟨c, hc⟩ : ∃ c, parent.children.toList[j + 1]? = some c :=
        ⟨_, List.getElem?_eq_getElem (by rw [BekVector.length_toList]; omega)⟩
      obtain ⟨other, hobject, hdiff⟩ := hother (j + 1) c (by omega) hc
      exact ⟨c, other, by rw [hmoved j (by omega) hin]; exact hc, hobject, hdiff⟩
    · obtain ⟨c, hc⟩ : ∃ c, parent.children.toList[j]? = some c :=
        ⟨_, List.getElem?_eq_getElem (by rw [BekVector.length_toList]; omega)⟩
      obtain ⟨other, hobject, hdiff⟩ := hother j c (by omega) hc
      refine ⟨c, other, ?_, hobject, hdiff⟩
      rw [hstayed j (Or.inr hend), BekVector.getElem?_slots (by omega)]
      exact hc
  obtain ⟨hinSlot, honly⟩ := linked.slot_unique hprocess hpid
  have hprocess' : (pm.modify pm.current fun parent =>
      { parent with children := children }).objects child = some process := by
    rw [modify_objects, if_neg hne]
    exact hprocess
  have hreap := reapProcess_ok hprocess' hpid hinSlot honly hempty
  obtain ⟨code, hcode⟩ := Option.ne_none_iff_exists'.mp (linked.exited _ _ hprocess hdead)
  have hobjects : ∀ other, update (pm.modify pm.current fun parent =>
      { parent with children := children }).objects child none other =
      if other = child then none
      else if other = pm.current then some { parent with children := children }
      else pm.objects other := by
    intro other
    rw [update_apply, modify_objects, hparent]
    rfl
  refine ⟨children, hextract, fun hlast => ?_, ?_, _, hreap, ?_, rfl, code, hcode, ?_⟩
  · rw [hstayed k (Or.inr (by omega))]
    exact hslot
  · exact extractPid_of_unique hslot hprocess hpid hextract _ 0 (by omega) (by omega) hbefore
      hafter
  · exact linked.reap hparent hmem hprocess hpid herase rfl rfl hobjects
  · refine ⟨⟨parent, hparent, hmem⟩, ⟨process, hprocess, hpid, hdead, hcode⟩, rfl, ?_, ?_, ?_⟩
    · exact (hobjects child).trans (if_pos rfl)
    · refine ⟨parent, children, hparent, ?_, herase⟩
      exact (hobjects pm.current).trans (by rw [if_neg hne.symm, if_pos rfl])
    · intro other hchild hcur
      exact (hobjects other).trans (by rw [if_neg hchild, if_neg hcur])

/-- The processes that are gone. -/
def freed (pm pm' : ProcessManager) : List ℕ :=
  (List.range pm.allocated).filter fun proc =>
    (pm.objects proc).isSome && (pm'.objects proc).isNone

theorem freed_self : freed pm pm = [] := by
  refine List.filter_eq_nil_iff.mpr fun proc _ => ?_
  cases pm.objects proc with
  | none => simp
  | some process => simp

theorem Linked.freed_of_reaped (linked : pm.Linked) {pid : ℕ} {code : ℤ}
    (reaped : Reaped pm pm' child pid code) : freed pm pm' = [child] := by
  obtain ⟨process, hprocess, -⟩ := reaped.exited
  obtain ⟨parent, children, -, hparent, -⟩ := reaped.children_eq
  have hlt := linked.lt_allocated hprocess
  have hsame : ∀ proc ∈ List.range pm.allocated,
      ((pm.objects proc).isSome && (pm'.objects proc).isNone) = (proc == child) := by
    intro proc _
    by_cases hchild : proc = child
    · subst hchild
      simp [hprocess, reaped.gone]
    · by_cases hcur : proc = pm.current
      · subst hcur
        simp [hparent, hchild]
      · rw [reaped.others proc hchild hcur]
        cases pm.objects proc with
        | none => simp [hchild]
        | some process => simp [hchild]
  rw [freed, List.filter_congr hsame, List.filter_beq,
    List.count_eq_one_of_mem List.nodup_range (List.mem_range.mpr hlt)]
  rfl

/-- What a round of `sys_wait` may leave: the state it found, or one in which exactly
the child it names has gone, having exited with the status it stores. -/
def WaitOk (pm pm' : ProcessManager) (pid : ℤ) (status : Option Bool) : WaitReply → Prop
  | .blocked | .error _ => pm' = pm
  | .reaped childPid stored => ∃ child code, Reaped pm pm' child childPid code ∧
      freed pm pm' = [child] ∧ (0 < pid → (childPid : ℤ) = pid) ∧
      stored = if status.isSome then some code else none

/-- An exited child that `sys_wait` would take has reaped its own children, and if
any child will do it is the last of the list. -/
def WaitSafe (pm : ProcessManager) (pid : ℤ) (status : Option Bool) : Prop :=
  status = some false ∨ ∀ parent ∈ pm.objects pm.current,
    if 0 < pid then
      ∀ child ∈ parent.children.toList, ∀ process ∈ pm.objects child,
        process.pid = some pid.toNat → process.runningState = .AwaitingDeath →
          process.children.size = 0
    else
      pid ≠ -1 ∨
        ∀ i ∈ (pm.findChild (fun process => process.runningState = .AwaitingDeath)
            parent.children.toList).join,
          i + 1 = parent.children.size ∧
            ∀ process ∈ parent.children.toList[i]?.bind pm.objects, process.children.size = 0
deriving Decidable

/-- **`sys_wait`.**  One round of it ends as it should. -/
theorem Linked.sysWait (linked : pm.Linked) (hparent : pm.objects pm.current = some parent)
    (pid : ℤ) (status : Option Bool) (safe : pm.WaitSafe pid status) :
    ∃ pm' reply, pm.sysWait pid status = some (pm', reply) ∧ pm'.Linked ∧
      pm'.allocated = pm.allocated ∧ WaitOk pm pm' pid status reply := by
  unfold ProcessManager.sysWait
  by_cases hstatus : status = some false
  · exact ⟨pm, _, if_pos hstatus, linked, rfl, rfl⟩
  rw [if_neg hstatus, hparent, Option.bind_some]
  have hsafe := safe.resolve_left hstatus parent hparent
  have halive : ∀ child ∈ parent.children.toList, ∃ process, pm.objects child = some process :=
    fun child hchild =>
      let ⟨process, hprocess, _⟩ := linked.children _ _ hparent child hchild
      ⟨process, hprocess⟩
  by_cases hpos : 0 < pid
  · rw [if_pos hpos] at hsafe ⊢
    unfold waitFor
    obtain ⟨found, hfound, -, hsome⟩ :=
      findChild_spec (fun process => process.pid = some pid.toNat) halive
    rw [hfound, Option.bind_some]
    cases found with
    | none => exact ⟨pm, _, rfl, linked, rfl, rfl⟩
    | some i =>
        obtain ⟨child, process, hchild, hprocess, htest⟩ := hsome i rfl
        have hpid : process.pid = some pid.toNat := by simpa using htest
        simp only [Option.bind_some, hchild, hprocess]
        by_cases hdead : process.runningState = .AwaitingDeath
        · have hempty := hsafe child (List.mem_of_getElem? hchild) process hprocess hpid hdead
          obtain ⟨children, -, -, hloop, pm', hreap, hlinked, hallocated, code, hcode, hreaped⟩ :=
            linked.takeOut hparent hchild hprocess hpid hdead hempty
          rw [if_pos hdead, hloop, Option.bind_some, hreap]
          refine ⟨pm', _, rfl, hlinked, hallocated, child, code, hreaped,
            linked.freed_of_reaped hreaped, fun _ => ?_, ?_⟩
          · omega
          · rw [statusOf, hcode]
            rfl
        · exact ⟨pm, _, if_neg hdead, linked, rfl, rfl⟩
  · rw [if_neg hpos] at hsafe ⊢
    by_cases hany : pid = -1
    · rw [if_pos hany]
      unfold waitAny
      by_cases hsize : parent.children.size = 0
      · exact ⟨pm, _, if_pos hsize, linked, rfl, rfl⟩
      rw [if_neg hsize]
      obtain ⟨found, hfound, -, hsome⟩ :=
        findChild_spec (fun process => process.runningState = .AwaitingDeath) halive
      rw [hfound, Option.bind_some]
      cases found with
      | none => exact ⟨pm, _, rfl, linked, rfl, rfl⟩
      | some i =>
          obtain ⟨child, process, hchild, hprocess, htest⟩ := hsome i rfl
          have hdead : process.runningState = .AwaitingDeath := by simpa using htest
          obtain ⟨hlast, hsafeEmpty⟩ := hsafe.resolve_left (fun h => h hany) i (by
            rw [hfound]
            rfl)
          have hempty := hsafeEmpty process (by
            rw [hchild, Option.bind_some]
            exact hprocess)
          obtain ⟨childPid, hpid, -⟩ := linked.registered _ _ hprocess
          obtain ⟨children, hextract, hstale, -, pm', hreap, hlinked, hallocated, code, hcode,
            hreaped⟩ := linked.takeOut hparent hchild hprocess hpid hdead hempty
          simp only [hchild, Option.bind_some, hprocess, hpid, hextract, hstale hlast, hreap]
          refine ⟨pm', _, rfl, hlinked, hallocated, child, code, hreaped,
            linked.freed_of_reaped hreaped, fun h => absurd h hpos, ?_⟩
          rw [statusOf, hcode]
          rfl
    · exact ⟨pm, _, if_neg hany, linked, rfl, rfl⟩

end BekOS.ProcessManager
