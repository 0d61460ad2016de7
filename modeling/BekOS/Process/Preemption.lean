import BekOS.Lib.PartialRun
import BekOS.Process.ProcessTable

/-!
# Preempt counters

A critical section is entered in one process and may be left in another: the one
that leaves `schedule` by the switch keeps its counter at 1 until it comes back,
and the one that comes out of the switch, if it had left that way, takes its own
counter down.  `Balanced` is what holds between calls; each call keeps it as long
as no registration fails and no program fails to be set up in `sys_execute`, where
the source leaves a critical section entered or expects one that was never entered.
-/

namespace BekOS.ProcessManager

open PartialRun Function

variable {pm pm' : ProcessManager} {proc : ℕ} {process : Process}

/-! ## What holds between calls -/

/-- The counter a process keeps while another one has the processor. -/
def SavedContext.counter : SavedContext → ℤ
  | .entryPoint => 0
  | .switchedOut => 1

/-- The current process is in `depth` critical sections and the others are as in
`Balanced`; new processes are new, and no process is a child of its own. -/
structure ControlInv (pm : ProcessManager) (depth : ℤ) : Prop where
  current : ∃ process, pm.objects pm.current = some process ∧ process.preemptCounter = depth
  others : ∀ proc process, proc ≠ pm.current → pm.objects proc = some process →
    process.preemptCounter = SavedContext.counter process.context
  fresh : ∀ proc, pm.allocated ≤ proc → pm.objects proc = none
  notOwn : ∀ proc process, pm.objects proc = some process → proc ∉ process.children.slots

/-- The counter, context and children of a process are the same. -/
def SameControl (process process' : Process) : Prop :=
  process'.preemptCounter = process.preemptCounter ∧ process'.context = process.context ∧
    process'.children = process.children

namespace ControlInv

variable {depth : ℤ}

theorem lt_allocated (inv : pm.ControlInv depth) (h : pm.objects proc = some process) :
    proc < pm.allocated := by
  by_contra hge
  rw [inv.fresh proc (by omega)] at h
  cases h

theorem map (inv : pm.ControlInv depth) (hcurrent : pm'.current = pm.current)
    (hallocated : pm'.allocated = pm.allocated) {f : ℕ → Process → Process}
    (hobjects : ∀ proc, pm'.objects proc = (pm.objects proc).map (f proc))
    (hsame : ∀ proc process, SameControl process (f proc process)) : pm'.ControlInv depth := by
  have hcases : ∀ proc process', pm'.objects proc = some process' →
      ∃ process, pm.objects proc = some process ∧ SameControl process process' := by
    intro proc process' h
    rw [hobjects, Option.map_eq_some_iff] at h
    obtain ⟨process, hprocess, rfl⟩ := h
    exact ⟨process, hprocess, hsame proc process⟩
  refine ⟨?_, ?_, ?_, ?_⟩
  · obtain ⟨process, hprocess, hdepth⟩ := inv.current
    refine ⟨f pm.current process, ?_, ?_⟩
    · rw [hcurrent, hobjects, hprocess, Option.map_some]
    · rw [(hsame pm.current process).1, hdepth]
  · intro proc process' hne h
    obtain ⟨process, hprocess, hcounter, hcontext, -⟩ := hcases proc process' h
    rw [hcounter, hcontext]
    exact inv.others proc process (hcurrent ▸ hne) hprocess
  · intro proc hproc
    rw [hobjects, inv.fresh proc (hallocated ▸ hproc), Option.map_none]
  · intro proc process' h
    obtain ⟨process, hprocess, -, -, hchildren⟩ := hcases proc process' h
    rw [hchildren]
    exact inv.notOwn proc process hprocess

theorem modifyCurrent (inv : pm.ControlInv depth) {f : Process → Process} {depth' : ℤ}
    (hcounter : ∀ process, process.preemptCounter = depth → (f process).preemptCounter = depth')
    (hchildren : ∀ process, pm.objects pm.current = some process →
      pm.current ∉ (f process).children.slots) : (pm.modify pm.current f).ControlInv depth' := by
  obtain ⟨process, hprocess, hdepth⟩ := inv.current
  have hself : (pm.modify pm.current f).objects pm.current = some (f process) := by
    rw [modify_objects, if_pos rfl, hprocess, Option.map_some]
  have hother : ∀ proc, proc ≠ pm.current →
      (pm.modify pm.current f).objects proc = pm.objects proc := fun proc hne => by
    rw [modify_objects, if_neg hne]
  refine ⟨⟨f process, hself, hcounter process hdepth⟩, ?_, ?_, ?_⟩
  · intro proc process' hne h
    rw [hother proc hne] at h
    exact inv.others proc process' hne h
  · intro proc hproc
    have hne : proc ≠ pm.current := by
      rintro rfl
      exact absurd (inv.lt_allocated hprocess) (Nat.not_lt.mpr hproc)
    rw [hother proc hne]
    exact inv.fresh proc hproc
  · intro proc process' h
    by_cases hcur : proc = pm.current
    · subst hcur
      rw [hself, Option.some_inj] at h
      subst h
      exact hchildren process hprocess
    · rw [hother proc hcur] at h
      exact inv.notOwn proc process' h

theorem enterCritical (inv : pm.ControlInv depth) : pm.enterCritical.ControlInv (depth + 1) :=
  inv.modifyCurrent (fun process h => by rw [h]) fun process h => inv.notOwn _ process h

theorem exitCritical (inv : pm.ControlInv (depth + 1)) : pm.exitCritical.ControlInv depth :=
  inv.modifyCurrent (fun process h => by
    show process.preemptCounter - 1 = depth
    omega) fun process h => inv.notOwn _ process h

theorem countCritical (inv : pm.ControlInv depth) : pm.countCritical = some depth := by
  obtain ⟨process, hprocess, hdepth⟩ := inv.current
  rw [ProcessManager.countCritical, hprocess, Option.map_some, hdepth]

end ControlInv

/-! ## The scheduler -/

/-- Some process of the table is running. -/
def Runnable (pm : ProcessManager) : Prop :=
  ∃ slot ∈ pm.processes, ∃ proc ∈ slot, ∃ process ∈ pm.objects proc,
    process.runningState = .Running
deriving Decidable

theorem considerProcess_cases (best : ℤ × Option ℕ) (slot : Option ℕ) :
    pm.considerProcess best slot = best ∨
      ∃ proc process, slot = some proc ∧ pm.objects proc = some process ∧
        pm.considerProcess best slot = ((process.processorTimeCounter : ℤ), some proc) ∧
        best.1 < process.processorTimeCounter := by
  unfold considerProcess
  cases slot with
  | none => exact Or.inl rfl
  | some proc =>
      cases hprocess : pm.objects proc with
      | none => exact Or.inl (by simp [hprocess])
      | some process =>
          simp only [hprocess]
          split_ifs with hbetter
          · exact Or.inr ⟨proc, process, rfl, hprocess, rfl, hbetter.2⟩
          · exact Or.inl rfl

theorem le_considerProcess (best : ℤ × Option ℕ) (slot : Option ℕ) :
    best.1 ≤ (pm.considerProcess best slot).1 := by
  rcases pm.considerProcess_cases best slot with hsame | ⟨proc, process, -, -, hnew, hlt⟩
  · exact Int.le_of_eq (congrArg Prod.fst hsame.symm)
  · rw [hnew]
    omega

theorem counter_le_considerProcess (best : ℤ × Option ℕ) (h : pm.objects proc = some process)
    (hrunning : process.runningState = .Running) :
    (process.processorTimeCounter : ℤ) ≤ (pm.considerProcess best (some proc)).1 := by
  simp only [considerProcess, h, hrunning, true_and]
  split_ifs with hbetter
  · exact Int.le_refl _
  · omega

theorem foldl_considerProcess (slots : List (Option ℕ)) (best : ℤ × Option ℕ) :
    best.1 ≤ (slots.foldl pm.considerProcess best).1 ∧
      (∀ proc process, some proc ∈ slots → pm.objects proc = some process →
        process.runningState = .Running →
        (process.processorTimeCounter : ℤ) ≤ (slots.foldl pm.considerProcess best).1) ∧
      (slots.foldl pm.considerProcess best = best ∨
        ∃ proc process, (slots.foldl pm.considerProcess best).2 = some proc ∧
          pm.objects proc = some process) := by
  induction slots generalizing best with
  | nil => exact ⟨Int.le_refl _, nofun, Or.inl rfl⟩
  | cons slot rest ih =>
      obtain ⟨hle, hall, hcases⟩ := ih (pm.considerProcess best slot)
      rw [List.foldl_cons]
      refine ⟨Int.le_trans (pm.le_considerProcess best slot) hle, ?_, ?_⟩
      · intro proc process hmem hprocess hrunning
        rcases List.mem_cons.mp hmem with rfl | hmem
        · exact Int.le_trans (pm.counter_le_considerProcess best hprocess hrunning) hle
        · exact hall proc process hmem hprocess hrunning
      · rcases hcases with hsame | hfound
        · rw [hsame]
          rcases pm.considerProcess_cases best slot with hbest | ⟨proc, process, -, hp, hnew, -⟩
          · exact Or.inl hbest
          · exact Or.inr ⟨proc, process, by rw [hnew], hp⟩
        · exact Or.inr hfound

theorem bestProcess_of_pos (h : pm.bestProcess.1 > 0) :
    ∃ proc process, pm.bestProcess.2 = some proc ∧ pm.objects proc = some process := by
  rcases (pm.foldl_considerProcess pm.processes (-1, none)).2.2 with hsame | hfound
  · unfold bestProcess at h
    rw [hsame] at h
    omega
  · exact hfound

theorem bestProcess_incremented (h : pm.Runnable) : pm.incrementCounters.bestProcess.1 > 0 := by
  obtain ⟨slot, hslot, proc, rfl, process, hprocess, hrunning⟩ := h
  have hprocess' : pm.incrementCounters.objects proc = some
      { process with processorTimeCounter := process.processorTimeCounter + 1 } := by
    have hobject : pm.objects proc = some process := hprocess
    simp only [incrementCounters, hobject, Option.map_some, if_pos hslot]
  have hle := (pm.incrementCounters.foldl_considerProcess pm.processes (-1, none)).2.1 proc _
    hslot hprocess' hrunning
  have hcast : ((process.processorTimeCounter + 1 : ℕ) : ℤ) > 0 := by omega
  exact Int.lt_of_lt_of_le hcast hle

/-- **The loop of `schedule`** ends with a process, and has changed nothing but the
time counters. -/
theorem chooseProcess_spec (h : pm.Runnable) :
    ∃ (pm' : ProcessManager) (best : ℕ) (next : Process) (ticks : ℕ → Process → Process),
      pm.chooseProcess 2 = some (pm', best) ∧ pm'.objects best = some next ∧
      pm'.current = pm.current ∧ pm'.allocated = pm.allocated ∧
      (∀ proc, pm'.objects proc = (pm.objects proc).map (ticks proc)) ∧
      ∀ proc process, SameControl process (ticks proc process) := by
  unfold chooseProcess
  by_cases hfirst : pm.bestProcess.1 > 0
  · obtain ⟨best, next, hbest, hnext⟩ := bestProcess_of_pos hfirst
    refine ⟨pm, best, next, fun _ process => process, ?_, hnext, rfl, rfl, ?_, ?_⟩
    · rw [if_pos hfirst, hbest, Option.map_some]
    · exact fun proc => Option.map_id'.symm
    · exact fun _ _ => ⟨rfl, rfl, rfl⟩
  · have hsecond := bestProcess_incremented h
    obtain ⟨best, next, hbest, hnext⟩ := bestProcess_of_pos hsecond
    refine ⟨pm.incrementCounters, best, next, fun proc process =>
      if some proc ∈ pm.processes then
        { process with processorTimeCounter := process.processorTimeCounter + 1 }
      else process, ?_, hnext, rfl, rfl, fun proc => rfl, fun proc process => ?_⟩
    · rw [if_neg hfirst, chooseProcess, if_pos hsecond, hbest, Option.map_some]
    · dsimp only
      split_ifs
      · exact ⟨rfl, rfl, rfl⟩
      · exact ⟨rfl, rfl, rfl⟩

theorem ControlInv.schedule_of_critical {depth : ℤ} (inv : pm.ControlInv depth)
    (hdepth : depth ≠ 0) :
    pm.schedule = some (pm.enterCritical.exitCritical, false) := by
  refine if_pos ?_
  rw [inv.enterCritical.countCritical]
  intro h
  rw [Option.some_inj] at h
  omega

/-- **The switch.**  Whoever comes out of it is preemptible. -/
theorem ControlInv.switchContext (inv : pm.ControlInv 1) {next : Process}
    (hnext : pm.objects proc = some next) :
    ∃ pm', pm.switchContext proc = some pm' ∧ pm'.ControlInv 0 := by
  unfold ProcessManager.switchContext
  rw [if_pos inv.countCritical]
  by_cases hsame : proc = pm.current
  · exact ⟨pm.exitCritical, if_pos hsame, inv.exitCritical⟩
  rw [if_neg hsame, hnext]
  obtain ⟨left, hleft, hdepth⟩ := inv.current
  set switched : ProcessManager :=
    { pm.modify pm.current fun left => { left with context := .switchedOut } with
      current := proc } with hswitched
  have hobjects : ∀ other, switched.objects other =
      if other = pm.current then some { left with context := .switchedOut }
      else pm.objects other := by
    intro other
    have hmodify : switched.objects other =
        if other = pm.current then
          (pm.objects pm.current).map fun left => { left with context := .switchedOut }
        else pm.objects other := modify_objects _ other
    rwa [hleft, Option.map_some] at hmodify
  have hinv : switched.ControlInv (SavedContext.counter next.context) := by
    refine ⟨⟨next, ?_, inv.others proc next hsame hnext⟩, ?_, ?_, ?_⟩
    · exact (hobjects proc).trans ((if_neg hsame).trans hnext)
    · intro other process hother h
      rw [hobjects] at h
      split_ifs at h with hcur
      · cases h
        exact hdepth
      · exact inv.others other process hcur h
    · intro other hother
      have hlt := inv.lt_allocated hleft
      have hge : pm.allocated ≤ other := hother
      rw [hobjects, if_neg (by omega)]
      exact inv.fresh other hge
    · intro other process h
      rw [hobjects] at h
      split_ifs at h with hcur
      · cases h
        rw [hcur]
        exact inv.notOwn _ left hleft
      · exact inv.notOwn other process h
  cases hcontext : next.context with
  | entryPoint =>
      rw [hcontext] at hinv
      exact ⟨switched, by simp only [Option.map_some, hcontext], hinv⟩
  | switchedOut =>
      rw [hcontext] at hinv
      exact ⟨switched.exitCritical, by simp only [Option.map_some, hcontext],
        hinv.exitCritical⟩

/-- **`schedule`** in a process that is preemptible comes to a switch. -/
theorem ControlInv.schedule (inv : pm.ControlInv 0) (hrun : pm.Runnable) :
    ∃ pm', pm.schedule = some (pm', true) ∧ pm'.ControlInv 0 := by
  have hentered := inv.enterCritical
  set ticked := pm.enterCritical.modify pm.current fun process =>
    { process with processorTimeCounter := 0 } with hticked
  have hinv : ticked.ControlInv 1 :=
    hentered.modifyCurrent (fun process h => h) fun process h => hentered.notOwn _ process h
  have hrun' : ticked.Runnable := by
    obtain ⟨slot, hslot, proc, hproc, process, hprocess, hrunning⟩ := hrun
    have hobject : pm.objects proc = some process := hprocess
    refine ⟨slot, hslot, proc, hproc, ?_⟩
    rw [hticked, modify_objects, enterCritical_objects, enterCritical_objects, if_pos rfl]
    by_cases hcur : proc = pm.current
    · rw [if_pos hcur, ← hcur, hobject]
      exact ⟨_, rfl, hrunning⟩
    · rw [if_neg hcur, if_neg hcur]
      exact ⟨process, hprocess, hrunning⟩
  obtain ⟨chosen, best, next, ticks, hchoose, hnext, hcurrent, hallocated, hobjects, hsame⟩ :=
    chooseProcess_spec hrun'
  have hinv' : chosen.ControlInv 1 := hinv.map hcurrent hallocated hobjects hsame
  obtain ⟨pm', hswitch, hfinal⟩ := hinv'.switchContext hnext
  refine ⟨pm', ?_, hfinal⟩
  rw [ProcessManager.schedule, if_neg (by simp [hentered.countCritical]), hchoose,
    Option.bind_some, hswitch, Option.map_some]

/-! ## The calls -/

theorem reapProcess_eq_some (h : pm.reapProcess proc = some pm') :
    pm'.current = pm.current ∧ pm'.allocated = pm.allocated ∧
      pm'.objects = update pm.objects proc none := by
  obtain ⟨process, -, h⟩ := Option.bind_eq_some_iff.mp h
  obtain ⟨pid, -, h⟩ := Option.bind_eq_some_iff.mp h
  split_ifs at h
  cases h
  exact ⟨rfl, rfl, rfl⟩

/-- Reaping a process other than the current one, after its children have become
some of what they were. -/
theorem ControlInv.reap {depth : ℤ} (inv : pm.ControlInv depth) {parent : Process}
    (hparent : pm.objects pm.current = some parent) {children : BekVector ℕ}
    (hslots : ∀ child ∈ children.slots, child ∈ parent.children.slots)
    (hproc : proc ∈ parent.children.slots)
    (hreap : (pm.modify pm.current fun parent =>
      { parent with children := children }).reapProcess proc = some pm') :
    pm'.ControlInv depth := by
  have hne : proc ≠ pm.current := fun h => inv.notOwn _ parent hparent (h ▸ hproc)
  have hinv : (pm.modify pm.current fun parent =>
      { parent with children := children }).ControlInv depth :=
    inv.modifyCurrent (fun _ h => h) fun _ _ hown =>
      inv.notOwn _ parent hparent (hslots _ hown)
  obtain ⟨hcurrent, hallocated, hobjects⟩ := reapProcess_eq_some hreap
  have hkept : ∀ other process, pm'.objects other = some process →
      (pm.modify pm.current fun parent =>
        { parent with children := children }).objects other = some process := by
    intro other process h
    rw [hobjects, update_apply] at h
    split_ifs at h
    exact h
  refine ⟨?_, ?_, ?_, ?_⟩
  · obtain ⟨process, hprocess, hdepth⟩ := hinv.current
    refine ⟨process, ?_, hdepth⟩
    rw [hcurrent, hobjects, update_of_ne]
    · exact hprocess
    · exact hne.symm
  · intro other process hother h
    rw [hcurrent] at hother
    exact hinv.others other process hother (hkept other process h)
  · intro other hother
    rw [hobjects, update_apply]
    split_ifs
    · rfl
    · exact hinv.fresh other (hallocated ▸ hother)
  · exact fun other process h => hinv.notOwn other process (hkept other process h)

theorem mem_slots_extractPid {pid : ℕ} :
    ∀ (remaining i : ℕ) {children children' : BekVector ℕ},
      pm.extractPid pid children i remaining = some children' →
      ∀ child ∈ children'.slots, child ∈ children.slots := by
  intro remaining
  induction remaining with
  | zero =>
      intro i children children' h child hchild
      cases h
      exact hchild
  | succ remaining ih =>
      intro i children children' h child hchild
      obtain ⟨process, -, h⟩ := Option.bind_eq_some_iff.mp h
      split_ifs at h
      · obtain ⟨shorter, hextract, h⟩ := Option.bind_eq_some_iff.mp h
        exact BekVector.mem_slots_extract hextract (ih (i + 1) h child hchild)
      · exact ih (i + 1) h child hchild

/-- **`sys_wait`** takes part in no critical section. -/
theorem ControlInv.sysWait {depth : ℤ} (inv : pm.ControlInv depth) {pid : ℤ}
    {status : Option Bool} {reply : WaitReply} (h : pm.sysWait pid status = some (pm', reply)) :
    pm'.ControlInv depth := by
  unfold ProcessManager.sysWait at h
  by_cases hstatus : status = some false
  · rw [if_pos hstatus] at h
    cases h
    exact inv
  rw [if_neg hstatus] at h
  obtain ⟨parent, hparent, h⟩ := Option.bind_eq_some_iff.mp h
  by_cases hpos : 0 < pid
  · rw [if_pos hpos] at h
    unfold waitFor at h
    obtain ⟨found, -, h⟩ := Option.bind_eq_some_iff.mp h
    cases hchild : found.bind fun i => parent.children.toList[i]? with
    | none =>
        simp only [hchild, Option.some_inj, Prod.mk.injEq] at h
        exact h.1 ▸ inv
    | some child =>
        simp only [hchild] at h
        obtain ⟨process, -, h⟩ := Option.bind_eq_some_iff.mp h
        split_ifs at h
        · obtain ⟨children, hloop, h⟩ := Option.bind_eq_some_iff.mp h
          obtain ⟨pm'', hreap, heq⟩ := Option.map_eq_some_iff.mp h
          cases heq
          obtain ⟨i, -, hi⟩ := Option.bind_eq_some_iff.mp hchild
          exact inv.reap hparent (mem_slots_extractPid _ _ hloop)
            (BekVector.mem_slots_of_mem_toList (List.mem_of_getElem? hi)) hreap
        · cases h
          exact inv
  rw [if_neg hpos] at h
  by_cases hany : pid = -1
  · rw [if_pos hany] at h
    unfold waitAny at h
    by_cases hsize : parent.children.size = 0
    · rw [if_pos hsize] at h
      cases h
      exact inv
    rw [if_neg hsize] at h
    obtain ⟨found, -, h⟩ := Option.bind_eq_some_iff.mp h
    cases found with
    | none =>
        cases h
        exact inv
    | some i =>
        obtain ⟨process, -, h⟩ := Option.bind_eq_some_iff.mp h
        obtain ⟨childPid, -, h⟩ := Option.bind_eq_some_iff.mp h
        obtain ⟨children, hextract, h⟩ := Option.bind_eq_some_iff.mp h
        obtain ⟨child, hchild, h⟩ := Option.bind_eq_some_iff.mp h
        obtain ⟨pm'', hreap, heq⟩ := Option.map_eq_some_iff.mp h
        cases heq
        exact inv.reap hparent (fun _ => BekVector.mem_slots_extract hextract)
          (BekVector.mem_slots_extract hextract (List.mem_of_getElem? hchild)) hreap
  · rw [if_neg hany] at h
    cases h
    exact inv

/-- The PID of the process can be settled. -/
def PidFree (pm : ProcessManager) (process : Process) : Prop :=
  match process.pid with
  | some pid => pm.processes[pid]?.join = none ∧ pid ≤ pm.processes.length
  | none => pm.candidate < longMax

instance (pm : ProcessManager) (process : Process) : Decidable (pm.PidFree process) :=
  match h : process.pid with
  | some pid => decidable_of_iff (pm.processes[pid]?.join = none ∧ pid ≤ pm.processes.length)
      (by rw [PidFree, h])
  | none => decidable_of_iff (pm.candidate < longMax) (by rw [PidFree, h])

theorem settlePid_of_free (h : pm.PidFree process) :
    ∃ pid, pm.settlePid process = .ok pid ∧ pid ≤ pm.processes.length := by
  unfold PidFree at h
  unfold settlePid
  cases hpid : process.pid with
  | some pid =>
      rw [hpid] at h
      exact ⟨pid, if_neg (by simp [h.1, h.2]), h.2⟩
  | none =>
      rw [hpid] at h
      exact ⟨pm.candidate, if_neg (by omega), candidate_le⟩

theorem markRegistered_control (process : Process) (pid : ℕ) :
    SameControl process (process.withPid pid).markRegistered := by
  unfold Process.markRegistered
  split_ifs
  · exact ⟨rfl, rfl, rfl⟩
  · exact ⟨rfl, rfl, rfl⟩

/-- **`register_process`** leaves the critical section it enters, if it succeeds. -/
theorem ControlInv.registerProcess {depth : ℤ} (inv : pm.ControlInv depth)
    (hprocess : pm.objects proc = some process) (hfree : pm.PidFree process) :
    ∃ pm', pm.registerProcess proc = some (pm', .ESUCCESS) ∧ pm'.ControlInv depth := by
  obtain ⟨entered, hentered, hpid⟩ : ∃ entered, pm.enterCritical.objects proc = some entered ∧
      entered.pid = process.pid := by
    rw [enterCritical_objects]
    split_ifs with hcur
    · rw [← hcur, hprocess]
      exact ⟨_, rfl, rfl⟩
    · exact ⟨process, hprocess, rfl⟩
  have hfree' : pm.PidFree entered := by
    unfold PidFree at hfree ⊢
    rwa [hpid]
  obtain ⟨pid, hsettle, hle⟩ := settlePid_of_free hfree'
  refine ⟨pm.registered proc pid, registerProcess_ok hentered hsettle hle,
    inv.map rfl rfl (f := fun other process =>
      if other = proc then (process.withPid pid).markRegistered else process) ?_ ?_⟩
  · intro other
    rw [registered_objects]
    split_ifs with h
    · rw [h]
    · exact Option.map_id'.symm
  · intro other process
    split_ifs
    · exact markRegistered_control process pid
    · exact ⟨rfl, rfl, rfl⟩

/-- **`sys_fork`**: the child has never run. -/
theorem ControlInv.sysFork {depth : ℤ} (inv : pm.ControlInv depth) {stopped : Option ErrorCode}
    (hroom : stopped = none → pm.candidate < longMax) :
    ∃ pm' result, pm.sysFork stopped = some (pm', result) ∧ pm'.ControlInv depth := by
  cases stopped with
  | some code => exact ⟨pm, _, rfl, inv⟩
  | none =>
      obtain ⟨parent, hparent, hdepth⟩ := inv.current
      have hlt := inv.lt_allocated hparent
      obtain ⟨pm', hfork, hcurrent, hallocated, -, hobjects⟩ :=
        sysFork_ok hparent hlt (hroom rfl)
      refine ⟨pm', _, hfork, ⟨?_, ?_, ?_, ?_⟩⟩
      · refine ⟨{ parent with children := parent.children.pushBack pm.allocated }, ?_, hdepth⟩
        rw [hcurrent, hobjects, if_neg (by omega), if_pos rfl]
      · intro other process hother h
        rw [hcurrent] at hother
        rw [hobjects, if_neg hother] at h
        split_ifs at h with hnew
        · cases h
          rfl
        · exact inv.others other process hother h
      · intro other hother
        rw [hobjects, if_neg (by omega), if_neg (by omega)]
        exact inv.fresh other (by omega)
      · intro other process h
        rw [hobjects] at h
        split_ifs at h with hnew hcur
        · cases h
          exact List.not_mem_nil
        · cases h
          intro hown
          rcases BekVector.mem_slots_pushBack hown with heq | hold
          · omega
          · exact inv.notOwn _ parent hparent (hcur ▸ hold)
        · exact inv.notOwn other process h

theorem ControlInv.recordExit (inv : pm.ControlInv 0) (code : ℤ) :
    (pm.recordExit code).ControlInv 0 :=
  inv.modifyCurrent (fun _ h => h) fun process h => inv.notOwn _ process h

theorem ControlInv.create {depth : ℤ} (inv : pm.ControlInv depth) (pid : Option ℕ) :
    (pm.allocate { Process.new none with pid := pid }).1.ControlInv depth := by
  have hobjects : ∀ other, (pm.allocate { Process.new none with pid := pid }).1.objects other =
      if other = pm.allocated then some { Process.new none with pid := pid }
      else pm.objects other := fun other => update_apply _ _ _ other
  obtain ⟨process, hprocess, hdepth⟩ := inv.current
  have hlt := inv.lt_allocated hprocess
  refine ⟨⟨process, ?_, hdepth⟩, ?_, ?_, ?_⟩
  · rw [hobjects]
    exact (if_neg (by show pm.current ≠ pm.allocated; omega)).trans hprocess
  · intro other made hother h
    rw [hobjects] at h
    split_ifs at h
    · cases h
      rfl
    · exact inv.others other made hother h
  · intro other hother
    have hge : pm.allocated + 1 ≤ other := hother
    rw [hobjects, if_neg (by omega)]
    exact inv.fresh other (by omega)
  · intro other made h
    rw [hobjects] at h
    split_ifs at h
    · cases h
      exact List.not_mem_nil
    · exact inv.notOwn other made h

theorem ControlInv.setState {depth : ℤ} (inv : pm.ControlInv depth) (proc : ℕ)
    (state : ProcessState) :
    (pm.modify proc fun process => { process with runningState := state }).ControlInv depth :=
  inv.map rfl rfl (f := fun other process =>
      if other = proc then { process with runningState := state } else process)
    (fun other => by
      rw [modify_objects]
      split_ifs with h
      · rw [h]
      · exact Option.map_id'.symm)
    fun other process => by
      split_ifs
      · exact ⟨rfl, rfl, rfl⟩
      · exact ⟨rfl, rfl, rfl⟩

/-! ## Runs -/

/-- What happens to the process that has the processor, in the order it happens.
A tick comes while the process is in no critical section, or inside one.  A process
made in the kernel may come with a PID; it is registered and then started. -/
inductive KernelOp where
  | tick
  | tickInside
  | fork (stopped : Option ErrorCode)
  | execute (outcome : ExecuteOutcome)
  | wait (pid : ℤ) (status : Option Bool)
  | quit (exitCode : ℤ)
  | create (pid : Option ℕ)
  | register (proc : ℕ)
  | start (proc : ℕ)
  deriving DecidableEq

/-- One operation; `none` when an assertion of the scheduler, of `register_process`
or of `sys_execute` fails.  The assertions of a wait are not about counters, and a
wait they stop has changed none. -/
def kernelStep (pm : ProcessManager) : KernelOp → Option (ProcessManager × Unit)
  | .tick => pm.schedule.map fun moved => (moved.1, ())
  | .tickInside => pm.enterCritical.schedule.map fun moved => (moved.1.exitCritical, ())
  | .fork stopped => (pm.sysFork stopped).map fun moved => (moved.1, ())
  | .execute outcome => (pm.sysExecute outcome).map fun moved => (moved.1, ())
  | .wait pid status => some (((pm.sysWait pid status).map Prod.fst).getD pm, ())
  | .quit exitCode => (pm.quitProcess exitCode).map fun moved => (moved.1, ())
  | .create pid => some ((pm.allocate { Process.new none with pid := pid }).1, ())
  | .register proc => (pm.registerProcess proc).map fun moved => (moved.1, ())
  | .start proc =>
      some (pm.modify proc fun process => { process with runningState := .Running }, ())

/-- What can happen: a process that gives the processor away leaves one that runs,
and only processes that have been made are registered. -/
def Possible (pm : ProcessManager) : KernelOp → Prop
  | .tick => pm.Runnable
  | .quit exitCode => (pm.recordExit exitCode).Runnable
  | .register proc => (pm.objects proc).isSome
  | _ => True

/-- No program fails to be set up in `execute_executable`, and no registration fails. -/
def LeavesCritical (pm : ProcessManager) : KernelOp → Prop
  | .execute (.failed _) => False
  | .fork stopped => stopped = none → pm.candidate < longMax
  | .register proc => ∀ process ∈ pm.objects proc, pm.PidFree process
  | _ => True

instance (pm : ProcessManager) : ∀ op, Decidable (pm.Possible op)
  | .tick => inferInstanceAs (Decidable pm.Runnable)
  | .quit exitCode => inferInstanceAs (Decidable (pm.recordExit exitCode).Runnable)
  | .register proc => inferInstanceAs (Decidable ((pm.objects proc).isSome = true))
  | .tickInside | .fork _ | .execute _ | .wait _ _ | .create _ | .start _ =>
      inferInstanceAs (Decidable True)

instance (pm : ProcessManager) : ∀ op, Decidable (pm.LeavesCritical op)
  | .execute (.failed _) => inferInstanceAs (Decidable False)
  | .fork stopped =>
      inferInstanceAs (Decidable (stopped = none → pm.candidate < longMax))
  | .register proc =>
      inferInstanceAs (Decidable (∀ process ∈ pm.objects proc, pm.PidFree process))
  | .execute (.refused _) | .execute .succeeded | .tick | .tickInside | .wait _ _ | .quit _
  | .create _ | .start _ => inferInstanceAs (Decidable True)

/-- **`sys_execute`** leaves the critical section `execute_executable` entered, if it
came that far; it may also have been refused before. -/
theorem ControlInv.sysExecute (inv : pm.ControlInv 0) {outcome : ExecuteOutcome}
    (hends : pm.LeavesCritical (.execute outcome)) :
    ∃ pm' result, pm.sysExecute outcome = some (pm', result) ∧ pm'.ControlInv 0 := by
  cases outcome with
  | refused code => exact ⟨pm, _, rfl, inv⟩
  | failed code => cases hends
  | succeeded =>
      have hentered := inv.enterCritical
      have hleft := hentered.exitCritical
      refine ⟨pm.enterCritical.exitCritical, _, if_pos ⟨?_, hleft.countCritical⟩, hleft⟩
      rw [hentered.countCritical]
      decide

theorem ControlInv.tickInside (inv : pm.ControlInv 0) :
    ∃ moved, kernelStep pm .tickInside = some moved ∧ moved.1.ControlInv 0 := by
  have hinside := inv.enterCritical
  have hstep : kernelStep pm .tickInside =
      some (pm.enterCritical.enterCritical.exitCritical.exitCritical, ()) := by
    rw [kernelStep, hinside.schedule_of_critical (by decide), Option.map_some]
  exact ⟨_, hstep, hinside.enterCritical.exitCritical.exitCritical⟩

/-- Every operation completes, and whoever has the processor after it is
preemptible. -/
theorem ControlInv.step (inv : pm.ControlInv 0) {op : KernelOp} (possible : pm.Possible op)
    (leaves : pm.LeavesCritical op) :
    ∃ moved, kernelStep pm op = some moved ∧ moved.1.ControlInv 0 := by
  cases op with
  | tick =>
      obtain ⟨pm', hschedule, hinv⟩ := inv.schedule possible
      exact ⟨(pm', ()), by rw [kernelStep, hschedule, Option.map_some], hinv⟩
  | tickInside => exact inv.tickInside
  | fork stopped =>
      obtain ⟨pm', result, hfork, hinv⟩ := inv.sysFork leaves
      exact ⟨(pm', ()), by rw [kernelStep, hfork, Option.map_some], hinv⟩
  | execute outcome =>
      obtain ⟨pm', result, hexecute, hinv⟩ := inv.sysExecute leaves
      exact ⟨(pm', ()), by rw [kernelStep, hexecute, Option.map_some], hinv⟩
  | wait pid status =>
      refine ⟨_, rfl, ?_⟩
      cases hwait : pm.sysWait pid status with
      | none => exact inv
      | some moved => exact inv.sysWait hwait
  | quit exitCode =>
      obtain ⟨pm', hschedule, hinv⟩ := (inv.recordExit exitCode).schedule possible
      exact ⟨(pm', ()), by rw [kernelStep, quitProcess, hschedule, Option.map_some], hinv⟩
  | create pid => exact ⟨_, rfl, inv.create pid⟩
  | register proc =>
      obtain ⟨process, hprocess⟩ := Option.isSome_iff_exists.mp possible
      obtain ⟨pm', hregister, hinv⟩ := inv.registerProcess hprocess (leaves process hprocess)
      exact ⟨(pm', ()), by rw [kernelStep, hregister, Option.map_some], hinv⟩
  | start proc => exact ⟨_, rfl, inv.setState proc .Running⟩

end BekOS.ProcessManager
