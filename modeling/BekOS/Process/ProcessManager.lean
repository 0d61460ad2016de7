import BekOS.Library.BekVector
import BekOS.Library.KernelError
import Mathlib.Data.Int.Notation
import Mathlib.Data.List.Nodup

/-!
# Processes

The process table of `process/process.cpp` with its scheduler, and the calls of
`process/syscalls.cpp` that fork, wait, replace the program and quit.

A `Process` is an object that pointers name; `objects` gives what the pointers in
use name, and a pointer to a process that has been reaped names nothing.  The
table holds the one reference that keeps a forked process alive.  What a call
does to the user address space, the handles and the registers is left out here:
how it ends is a parameter of the call.
-/

namespace BekOS

open Function

/-- `ProcessState` -/
inductive ProcessState where
  | Unready
  | Stopped
  | Running
  | Waiting
  | AwaitingDeath
  deriving DecidableEq

/-- Where a process goes on when the scheduler switches to it: at its entry point,
or behind the switch in `switch_context` that it left by. -/
inductive SavedContext where
  | entryPoint
  | switchedOut
  deriving DecidableEq

/-- A process.  A `m_pid` of -1 is `none`. -/
structure Process where
  pid : Option ℕ
  parent : Option ℕ
  children : BekVector ℕ
  context : SavedContext
  processorTimeCounter : ℕ
  preemptCounter : ℤ
  runningState : ProcessState
  exitCode : Option ℤ
  deriving DecidableEq

namespace Process

/-- The constructor. -/
def new (parent : Option ℕ) : Process where
  pid := none
  parent := parent
  children := BekVector.empty
  context := .entryPoint
  processorTimeCounter := 1
  preemptCounter := 0
  runningState := .Unready
  exitCode := none

/-- A process with its PID set. -/
def withPid (process : Process) (pid : ℕ) : Process := { process with pid := some pid }

/-- What registering does to the state of a process. -/
def markRegistered (process : Process) : Process :=
  if process.runningState = .Unready then { process with runningState := .Stopped } else process

end Process

/-- The process table and the process that has the processor. -/
structure ProcessManager where
  objects : ℕ → Option Process
  allocated : ℕ
  processes : List (Option ℕ)
  current : ℕ

namespace ProcessManager

/-- Change a process. -/
def modify (pm : ProcessManager) (proc : ℕ) (f : Process → Process) : ProcessManager :=
  { pm with objects := update pm.objects proc ((pm.objects proc).map f) }

/-- Allocate a process. -/
def allocate (pm : ProcessManager) (process : Process) : ProcessManager × ℕ :=
  ({ pm with
      objects := update pm.objects pm.allocated (some process)
      allocated := pm.allocated + 1 }, pm.allocated)

/-! ## Critical sections -/

/-- `enter_critical` -/
def enterCritical (pm : ProcessManager) : ProcessManager :=
  pm.modify pm.current fun process =>
    { process with preemptCounter := process.preemptCounter + 1 }

/-- `exit_critical` -/
def exitCritical (pm : ProcessManager) : ProcessManager :=
  pm.modify pm.current fun process =>
    { process with preemptCounter := process.preemptCounter - 1 }

/-- `m_current->m_preempt_counter`, which `count_critical` and `is_critical` read. -/
def countCritical (pm : ProcessManager) : Option ℤ :=
  (pm.objects pm.current).map Process.preemptCounter

/-! ## The table -/

/-- `numeric_limits<long>::max()` -/
def longMax : ℕ := 0x7fffffffffffffff

/-- The first free slot, or the end of the table. -/
def candidate (pm : ProcessManager) : ℕ := pm.processes.findIdx Option.isNone

/-- How `register_process` settles the PID: it merely checks one that is set, and
takes the first free slot otherwise. -/
def settlePid (pm : ProcessManager) (process : Process) : Except ErrorCode ℕ :=
  match process.pid with
  | some pid =>
      if pm.processes[pid]?.join.isSome ∨ pid > pm.processes.length then .error .EINVAL
      else .ok pid
  | none => if pm.candidate ≥ longMax then .error .ENOMEM else .ok pm.candidate

/-- Enter the process under its PID; `none` when the table would get a gap. -/
def place (pm : ProcessManager) (proc pid : ℕ) : Option ProcessManager :=
  if pid < pm.processes.length then
    some { pm with processes := pm.processes.set pid (some proc) }
  else if pid = pm.processes.length then
    some { pm with processes := pm.processes ++ [some proc] }
  else none

/-- `register_process`; `none` when an assertion fails. -/
def registerProcess (pm : ProcessManager) (proc : ℕ) : Option (ProcessManager × ErrorCode) :=
  (pm.enterCritical.objects proc).bind fun process =>
    match pm.enterCritical.settlePid process with
    -- The source returns here without `exit_critical`.
    | .error code => some (pm.enterCritical, code)
    | .ok pid =>
        ((pm.enterCritical.modify proc fun process => process.withPid pid).place proc pid).map
          fun pm => (pm.exitCritical.modify proc Process.markRegistered, .ESUCCESS)

/-- `ref_count`: what refers to a process once the call that made it is over. -/
def refCount (pm : ProcessManager) (proc : ℕ) : ℕ := pm.processes.count (some proc)

/-- `reap_process`, with its three assertions. -/
def reapProcess (pm : ProcessManager) (proc : ℕ) : Option ProcessManager :=
  (pm.objects proc).bind fun process =>
    process.pid.bind fun pid =>
      if pm.processes[pid]? = some (some proc) ∧ process.children.size = 0 ∧
          pm.refCount proc = 1 then
        some { pm with
          processes := pm.processes.set pid none
          objects := update pm.objects proc none }
      else none

/-! ## Scheduling -/

/-- A process the scheduler considers, with a counter above the best so far. -/
def considerProcess (pm : ProcessManager) (best : ℤ × Option ℕ) (slot : Option ℕ) :
    ℤ × Option ℕ :=
  match slot with
  | none => best
  | some proc =>
      match pm.objects proc with
      | none => best
      | some process =>
          if process.runningState = .Running ∧ (process.processorTimeCounter : ℤ) > best.1 then
            ((process.processorTimeCounter : ℤ), some proc)
          else best

/-- The inner loop of `schedule`: the highest counter of a running process, and
the first process that has it. -/
def bestProcess (pm : ProcessManager) : ℤ × Option ℕ :=
  pm.processes.foldl pm.considerProcess (-1, none)

/-- A tick for every process of the table. -/
def incrementCounters (pm : ProcessManager) : ProcessManager :=
  { pm with objects := fun proc =>
      (pm.objects proc).map fun process =>
        if some proc ∈ pm.processes then
          { process with processorTimeCounter := process.processorTimeCounter + 1 }
        else process }

/-- The loop of `schedule`.  Counters are at least 1 once they have been
incremented, so a second round finds a running process if there is one; without
one the loop has no end, which is `none`. -/
def chooseProcess (pm : ProcessManager) : ℕ → Option (ProcessManager × ℕ)
  | 0 => none
  | fuel + 1 =>
      if pm.bestProcess.1 > 0 then pm.bestProcess.2.map fun best => (pm, best)
      else chooseProcess pm.incrementCounters fuel

/-- `switch_context`, and the `exit_critical` of `schedule` behind it, in whichever
process comes out of the switch: the same one, or another that had left by the
switch; one that starts at its entry point never gets there. -/
def switchContext (pm : ProcessManager) (process : ℕ) : Option ProcessManager :=
  if pm.countCritical = some 1 then
    if process = pm.current then some pm.exitCritical
    else
      (pm.objects process).map fun next =>
        let switched :=
          { pm.modify pm.current fun left => { left with context := .switchedOut } with
            current := process }
        match next.context with
        | .entryPoint => switched
        | .switchedOut => switched.exitCritical
  else none

/-- `schedule`: whether it came to a switch. -/
def schedule (pm : ProcessManager) : Option (ProcessManager × Bool) :=
  if pm.enterCritical.countCritical ≠ some 1 then some (pm.enterCritical.exitCritical, false)
  else
    ((pm.enterCritical.modify pm.current fun process =>
        { process with processorTimeCounter := 0 }).chooseProcess 2).bind fun chosen =>
      (chosen.1.switchContext chosen.2).map fun pm => (pm, true)

/-! ## The calls -/

/-- What `quit_process` records before it calls the scheduler. -/
def recordExit (pm : ProcessManager) (exitCode : ℤ) : ProcessManager :=
  pm.modify pm.current fun process =>
    { process with runningState := .AwaitingDeath, exitCode := some exitCode }

/-- `quit_process` -/
def quitProcess (pm : ProcessManager) (exitCode : ℤ) : Option (ProcessManager × Bool) :=
  (pm.recordExit exitCode).schedule

/-- `sys_fork`, given what stops the parent from being copied, if anything. -/
def sysFork (pm : ProcessManager) (stopped : Option ErrorCode) :
    Option (ProcessManager × Except ErrorCode ℕ) :=
  match stopped with
  | some code => some (pm, .error code)
  | none =>
      let made := pm.allocate (Process.new (some pm.current))
      (made.1.registerProcess made.2).bind fun registered =>
        if registered.2 = .ESUCCESS then
          let pm := registered.1.modify pm.current fun process =>
            { process with children := process.children.pushBack made.2 }
          let pm := pm.modify made.2 fun process => { process with runningState := .Running }
          (pm.objects made.2).bind fun process => process.pid.map fun pid => (pm, .ok pid)
        else
          some ({ registered.1 with
            objects := update registered.1.objects made.2 none }, .error registered.2)

/-- How `execute_executable` ends, or the part of `sys_execute` before it. -/
inductive ExecuteOutcome where
  | refused (code : ErrorCode)
  | failed (code : ErrorCode)
  | succeeded
  deriving DecidableEq

/-- `sys_execute`: `execute_executable` enters the critical section where it
succeeds.  The call does not return then; the process goes on in the new program. -/
def sysExecute (pm : ProcessManager) : ExecuteOutcome →
    Option (ProcessManager × Option ErrorCode)
  | .refused code => some (pm, some code)
  | .failed code => if pm.countCritical ≠ some 0 then some (pm.exitCritical, some code) else none
  | .succeeded =>
      if pm.enterCritical.countCritical ≠ some 0 ∧
          pm.enterCritical.exitCritical.countCritical = some 0 then
        some (pm.enterCritical.exitCritical, none)
      else none

/-- How a round of `sys_wait` ends: it goes round again, returns an error, or
returns a PID, with the status it has stored if it was given where to. -/
inductive WaitReply where
  | blocked
  | error (code : ErrorCode)
  | reaped (pid : ℕ) (status : Option ℤ)
  deriving DecidableEq

/-- The first child that passes the test, by its slot; `none` when a pointer on
the way names no process. -/
def findChild (pm : ProcessManager) (test : Process → Bool) : List ℕ → Option (Option ℕ)
  | [] => some none
  | child :: rest =>
      (pm.objects child).bind fun process =>
        if test process then some (some 0)
        else (findChild pm test rest).map fun found => found.map (· + 1)

/-- The loop of `sys_wait` that takes the child out, from slot `i` on over the
slots the vector had when it began. -/
def extractPid (pm : ProcessManager) (pid : ℕ) :
    BekVector ℕ → ℕ → ℕ → Option (BekVector ℕ)
  | children, _, 0 => some children
  | children, i, remaining + 1 =>
      (children.slots[i]?.bind pm.objects).bind fun process =>
        if process.pid = some pid then
          (children.extract i).bind fun children => extractPid pm pid children (i + 1) remaining
        else extractPid pm pid children (i + 1) remaining

/-- The status `sys_wait` stores, if it was given where to. -/
def statusOf (process : Process) (wanted : Bool) : Option ℤ :=
  if wanted then some (process.exitCode.getD (-1)) else none

/-- `sys_wait` for one child. -/
def waitFor (pm : ProcessManager) (parent : Process) (pid : ℕ) (wanted : Bool) :
    Option (ProcessManager × WaitReply) :=
  (pm.findChild (fun process => process.pid = some pid) parent.children.toList).bind fun found =>
    match found.bind fun i => parent.children.toList[i]? with
    | none => some (pm, .error .ECHILD)
    | some child =>
        (pm.objects child).bind fun process =>
          if process.runningState = .AwaitingDeath then
            (pm.extractPid pid parent.children 0 parent.children.size).bind fun children =>
              ((pm.modify pm.current fun parent =>
                { parent with children := children }).reapProcess child).map fun pm =>
                  (pm, .reaped pid (statusOf process wanted))
          else some (pm, .blocked)

/-- `sys_wait` for any child.  Its loop variable refers to a slot of the vector,
and is used once more after the child has been taken out. -/
def waitAny (pm : ProcessManager) (parent : Process) (wanted : Bool) :
    Option (ProcessManager × WaitReply) :=
  if parent.children.size = 0 then some (pm, .error .ECHILD)
  else
    (pm.findChild (fun process => process.runningState = .AwaitingDeath)
        parent.children.toList).bind fun found =>
      match found with
      | none => some (pm, .blocked)
      | some i =>
          (parent.children.toList[i]?.bind pm.objects).bind fun process =>
            process.pid.bind fun pid =>
              (parent.children.extract i).bind fun children =>
                children.slots[i]?.bind fun child =>
                  ((pm.modify pm.current fun parent =>
                    { parent with children := children }).reapProcess child).map fun pm =>
                      (pm, .reaped pid (statusOf process wanted))

/-- `sys_wait`, one round of its loops.  The status pointer is null, or it points
where the process may write, or it does not. -/
def sysWait (pm : ProcessManager) (pid : ℤ) (status : Option Bool) :
    Option (ProcessManager × WaitReply) :=
  if status = some false then some (pm, .error .EFAULT)
  else
    (pm.objects pm.current).bind fun parent =>
      if 0 < pid then pm.waitFor parent pid.toNat status.isSome
      else if pid = -1 then pm.waitAny parent status.isSome
      else some (pm, .error .EINVAL)

/-- A table in which the processes of `count` programs run, the first of them
having the processor. -/
def boot (count : ℕ) : ProcessManager where
  objects := fun proc =>
    if proc < count then
      some { Process.new none with pid := some proc, runningState := .Running }
    else none
  allocated := count
  processes := (List.range count).map some
  current := 0

end ProcessManager

end BekOS
