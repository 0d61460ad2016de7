import BekOS.Process.ProcessManager
import Mathlib.Data.List.Count

/-!
# The process table

`Linked` says that the table and the processes name each other: a slot holds the
process with its number as PID, and every process is in its slot.  Each call that
touches the table has one lemma here that says what it leaves.
-/

namespace BekOS.ProcessManager

open Function

variable {pm : ProcessManager} {proc : ℕ}

/-! ## Slots -/

/-- The table with a process entered at a slot that is free or at its end. -/
def enterSlot (processes : List (Option ℕ)) (pid proc : ℕ) : List (Option ℕ) :=
  if pid < processes.length then processes.set pid (some proc) else processes ++ [some proc]

theorem getElem?_enterSlot {processes : List (Option ℕ)} {pid : ℕ}
    (h : pid ≤ processes.length) (j : ℕ) :
    (enterSlot processes pid proc)[j]? =
      if j = pid then some (some proc) else processes[j]? := by
  unfold enterSlot
  by_cases hlt : pid < processes.length
  · rw [if_pos hlt]
    by_cases hj : j = pid
    · subst hj
      simp [hlt]
    · rw [if_neg hj, List.getElem?_set_ne fun h => hj h.symm]
  · have hpid : pid = processes.length := by omega
    subst hpid
    rw [if_neg hlt]
    by_cases hj : j = processes.length
    · simp [hj]
    · rw [if_neg hj]
      rcases Nat.lt_or_ge j processes.length with hlt' | hge
      · rw [List.getElem?_append_left hlt']
      · rw [List.getElem?_append_right hge, List.getElem?_eq_none hge,
          List.getElem?_eq_none (by simp only [List.length_singleton]; omega)]

theorem place_of_le {pid : ℕ} (h : pid ≤ pm.processes.length) :
    pm.place proc pid = some { pm with processes := enterSlot pm.processes pid proc } := by
  unfold place enterSlot
  by_cases hlt : pid < pm.processes.length
  · rw [if_pos hlt, if_pos hlt]
  · rw [if_neg hlt, if_neg hlt, if_pos (by omega)]

theorem candidate_le : pm.candidate ≤ pm.processes.length := List.findIdx_le_length

theorem candidate_free {proc : ℕ} : pm.processes[pm.candidate]? ≠ some (some proc) := by
  intro h
  obtain ⟨hlt, hget⟩ := List.getElem?_eq_some_iff.mp h
  have hnone := List.findIdx_getElem (w := hlt)
  have hsome : (some proc).isNone = true := by
    rw [← hget]
    exact hnone
  cases hsome

theorem count_eq_one {slots : List (Option ℕ)} {value : Option ℕ} {i : ℕ}
    (h : slots[i]? = some value) (only : ∀ j, slots[j]? = some value → j = i) :
    slots.count value = 1 := by
  obtain ⟨hlt, hget⟩ := List.getElem?_eq_some_iff.mp h
  have hsplit : slots = slots.take i ++ value :: slots.drop (i + 1) := by
    rw [← hget, List.getElem_cons_drop, List.take_append_drop]
  have hbefore : value ∉ slots.take i := by
    intro hmem
    obtain ⟨j, hj⟩ := List.mem_iff_getElem?.mp hmem
    have hji : j < i := by
      by_contra hge
      rw [List.getElem?_eq_none (by rw [List.length_take]; omega)] at hj
      cases hj
    rw [List.getElem?_take_of_lt hji] at hj
    exact absurd (only j hj) (by omega)
  have hafter : value ∉ slots.drop (i + 1) := by
    intro hmem
    obtain ⟨j, hj⟩ := List.mem_iff_getElem?.mp hmem
    rw [List.getElem?_drop] at hj
    exact absurd (only _ hj) (by omega)
  rw [hsplit, List.count_append, List.count_cons_self, List.count_eq_zero.mpr hbefore,
    List.count_eq_zero.mpr hafter]

/-! ## Objects -/

theorem modify_objects (f : Process → Process) (other : ℕ) :
    (pm.modify proc f).objects other =
      if other = proc then (pm.objects proc).map f else pm.objects other := by
  unfold modify
  by_cases h : other = proc
  · subst h
    simp
  · simp [h]

@[simp] theorem modify_allocated (f : Process → Process) :
    (pm.modify proc f).allocated = pm.allocated := rfl

theorem enterCritical_objects (other : ℕ) :
    pm.enterCritical.objects other =
      if other = pm.current then
        (pm.objects pm.current).map fun process =>
          { process with preemptCounter := process.preemptCounter + 1 }
      else pm.objects other :=
  modify_objects _ _

theorem exitCritical_objects (other : ℕ) :
    pm.exitCritical.objects other =
      if other = pm.current then
        (pm.objects pm.current).map fun process =>
          { process with preemptCounter := process.preemptCounter - 1 }
      else pm.objects other :=
  modify_objects _ _

/-! ## Registering and forking -/

/-- The table once a process has been registered under `pid`. -/
def registered (pm : ProcessManager) (proc pid : ℕ) : ProcessManager :=
  ({ pm with
      objects := (pm.enterCritical.modify proc fun process => process.withPid pid).objects
      processes := enterSlot pm.processes pid proc } : ProcessManager).exitCritical.modify proc
    Process.markRegistered

theorem registerProcess_ok {process : Process} {pid : ℕ}
    (hproc : pm.enterCritical.objects proc = some process)
    (hsettle : pm.enterCritical.settlePid process = .ok pid) (hle : pid ≤ pm.processes.length) :
    pm.registerProcess proc = some (pm.registered proc pid, .ESUCCESS) := by
  have hplace : (pm.enterCritical.modify proc fun process => process.withPid pid).place proc pid =
      some { pm.enterCritical.modify proc fun process => process.withPid pid with
        processes := enterSlot pm.processes pid proc } := place_of_le hle
  rw [registerProcess, hproc, Option.bind_some, hsettle]
  simp only [hplace, Option.map_some]
  rfl

/-- Registering changes the process registered, and no other: the counter of the
current process is back where it was. -/
theorem registered_objects {pid : ℕ} (other : ℕ) :
    (pm.registered proc pid).objects other =
      if other = proc then (pm.objects proc).map fun process =>
        (process.withPid pid).markRegistered
      else pm.objects other := by
  have hsame : ∀ process : Process, process.preemptCounter + 1 - 1 = process.preemptCounter :=
    fun process => by omega
  unfold registered
  simp only [modify_objects, exitCritical_objects, enterCritical_objects]
  by_cases h : other = proc
  · by_cases hcur : proc = pm.current
    · simp only [h, hcur, if_true, Option.map_map]
      cases pm.objects pm.current with
      | none => rfl
      | some process =>
          simp only [Option.map_some, comp_apply, Process.withPid, hsame]
    · simp only [h, if_neg hcur, if_true, Option.map_map]
      rfl
  · by_cases hcur : other = pm.current
    · have hne : pm.current ≠ proc := fun heq => h (hcur.trans heq)
      simp only [hcur, if_neg hne, if_true, Option.map_map]
      cases pm.objects pm.current with
      | none => rfl
      | some process => simp only [Option.map_some, comp_apply, hsame]
    · simp only [if_neg h, if_neg hcur]

theorem registerProcess_error {process : Process} {code : ErrorCode}
    (hproc : pm.enterCritical.objects proc = some process)
    (hsettle : pm.enterCritical.settlePid process = .error code) :
    pm.registerProcess proc = some (pm.enterCritical, code) := by
  rw [registerProcess, hproc, Option.bind_some, hsettle]

/-- The process a fork makes. -/
def forked (parent pid : ℕ) : Process :=
  { Process.new (some parent) with pid := some pid, runningState := .Running }

/-- The process of a fork, before it has a pid. -/
theorem unregistered_objects (hfresh : pm.current < pm.allocated) :
    (pm.allocate (Process.new (some pm.current))).1.enterCritical.objects pm.allocated =
      some (Process.new (some pm.current)) := by
  have hcurrent : (pm.allocate (Process.new (some pm.current))).1.current = pm.current := rfl
  rw [enterCritical_objects, hcurrent, if_neg (by omega)]
  exact update_self _ _ _

/-- **A fork that finds a slot.** -/
theorem sysFork_ok {parent : Process} (hparent : pm.objects pm.current = some parent)
    (hfresh : pm.current < pm.allocated) (hroom : pm.candidate < longMax) :
    ∃ pm', pm.sysFork none = some (pm', .ok pm.candidate) ∧ pm'.current = pm.current ∧
      pm'.allocated = pm.allocated + 1 ∧
      pm'.processes = enterSlot pm.processes pm.candidate pm.allocated ∧
      ∀ other, pm'.objects other =
        if other = pm.allocated then some (forked pm.current pm.candidate)
        else if other = pm.current then
          some { parent with children := parent.children.pushBack pm.allocated }
        else pm.objects other := by
  set made := (pm.allocate (Process.new (some pm.current))).1 with hmade
  have hne : pm.allocated ≠ pm.current := by omega
  have hmadeObjects : ∀ other, made.objects other =
      if other = pm.allocated then some (Process.new (some pm.current)) else pm.objects other :=
    fun other => update_apply _ _ _ _
  have hsettle : made.enterCritical.settlePid (Process.new (some pm.current)) =
      .ok pm.candidate := by
    show (if pm.candidate ≥ longMax then _ else _) = _
    rw [if_neg (by omega)]
    rfl
  have hregister := registerProcess_ok (unregistered_objects hfresh) hsettle candidate_le
  set registered := made.registered pm.allocated pm.candidate with hregistered
  have hobjects : ∀ other, registered.objects other =
      if other = pm.allocated then (made.objects pm.allocated).map fun process =>
        (process.withPid pm.candidate).markRegistered
      else made.objects other := registered_objects
  set linked := (registered.modify registered.current fun process =>
    { process with children := process.children.pushBack pm.allocated }).modify pm.allocated
      fun process => { process with runningState := .Running } with hlinked
  have hcurrent : registered.current = pm.current := rfl
  have hfinal : ∀ other, linked.objects other =
      if other = pm.allocated then some (forked pm.current pm.candidate)
      else if other = pm.current then
        some { parent with children := parent.children.pushBack pm.allocated }
      else pm.objects other := by
    intro other
    rw [hlinked, modify_objects, modify_objects, modify_objects, hcurrent, if_neg hne,
      hobjects, if_pos rfl, hmadeObjects, if_pos rfl, hobjects, if_neg hne.symm, hmadeObjects,
      if_neg hne.symm, hparent]
    by_cases h : other = pm.allocated
    · rw [if_pos h, if_pos h]
      rfl
    · rw [if_neg h, if_neg h]
      by_cases h' : other = pm.current
      · rw [if_pos h', if_pos h']
        rfl
      · rw [if_neg h', if_neg h', hobjects, if_neg h, hmadeObjects, if_neg h]
  refine ⟨linked, ?_, rfl, rfl, rfl, hfinal⟩
  have hself := hfinal pm.allocated
  rw [if_pos rfl] at hself
  simp only [sysFork]
  show (made.registerProcess pm.allocated).bind _ = _
  rw [hregister, Option.bind_some]
  show (linked.objects pm.allocated).bind _ = _
  rw [hself]
  rfl

/-- **A fork that finds none** changes no process but the counter of the current
one, whose critical section stays entered. -/
theorem sysFork_full (hfresh : pm.current < pm.allocated)
    (hfull : ¬ pm.candidate < longMax) (hnone : pm.objects pm.allocated = none) :
    ∃ pm', pm.sysFork none = some (pm', .error .ENOMEM) ∧ pm'.current = pm.current ∧
      pm'.allocated = pm.allocated + 1 ∧ pm'.processes = pm.processes ∧
      ∀ other, pm'.objects other = pm.enterCritical.objects other := by
  set made := (pm.allocate (Process.new (some pm.current))).1 with hmade
  have hne : pm.allocated ≠ pm.current := by omega
  have hmadeObjects : ∀ other, made.objects other =
      if other = pm.allocated then some (Process.new (some pm.current)) else pm.objects other :=
    fun other => update_apply _ _ _ _
  have hmade' : made.current = pm.current := rfl
  have hsettle : made.enterCritical.settlePid (Process.new (some pm.current)) =
      .error .ENOMEM := by
    show (if pm.candidate ≥ longMax then _ else _) = _
    rw [if_pos (by omega)]
  have hregister := registerProcess_error (unregistered_objects hfresh) hsettle
  refine ⟨{ made.enterCritical with
    objects := update made.enterCritical.objects pm.allocated none }, ?_, rfl, rfl, rfl,
    fun other => ?_⟩
  · simp only [sysFork]
    show (made.registerProcess pm.allocated).bind _ = _
    rw [hregister, Option.bind_some]
    rfl
  · show update made.enterCritical.objects pm.allocated none other = _
    rw [update_apply, enterCritical_objects, enterCritical_objects, hmade',
      hmadeObjects, hmadeObjects, if_neg hne.symm]
    by_cases h : other = pm.allocated
    · rw [if_pos h, h, if_neg hne, hnone]
    · rw [if_neg h, if_neg h]

end BekOS.ProcessManager
