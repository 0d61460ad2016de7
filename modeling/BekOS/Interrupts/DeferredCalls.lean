import BekOS.Lib.PartialRun
import BekOS.Library.KernelError
import Mathlib.Data.List.Nodup

/-!
# Deferred calls

The handlers of interrupts queue calls in a pool of five places; behind each handler, with
interrupts enabled again, `execute_queue` goes through the pool.  An interrupt may come between any
two steps of that, and then goes through the pool itself.  Calls are told apart by number, in the
order in which `queue_call` has accepted them.
-/

namespace BekOS

open PartialRun

namespace Deferred

/-! ## The functions -/

/-- `queue_call` -/
def queueCall {α : Type*} : List (Option α) → α → Except ErrorCode (List (Option α))
  | [], _ => .error .ENOMEM
  | none :: rest, callback => .ok (some callback :: rest)
  | some member :: rest, callback => (queueCall rest callback).map (some member :: ·)

/-- What `execute_queue` does next with the member that it has come to. -/
inductive Phase
  /-- `if (member)` -/
  | test
  /-- `member()`, from the outside -/
  | call
  /-- The call itself. -/
  | running
  /-- `member = {}` -/
  | clear
  deriving DecidableEq

/-- An `execute_queue` under way, with the calls that waited when it began. -/
structure Drain where
  index : ℕ
  phase : Phase
  due : List ℕ
  deriving DecidableEq

/-- The pool, the drains under way, the last one begun first, and what has happened so far: the
calls accepted, the calls made, and those that waited for a drain that has ended since. -/
structure State where
  pool : List (Option ℕ)
  drains : List Drain
  next : ℕ
  queued : List ℕ
  executed : List ℕ
  served : List ℕ
  deriving DecidableEq

/-- `initialise` -/
def start : State where
  pool := List.replicate 5 none
  drains := []
  next := 0
  queued := []
  executed := []
  served := []

/-- A call of `queue_call`. -/
def queue (state : State) : State × Except ErrorCode Unit :=
  match queueCall state.pool state.next with
  | .ok pool =>
      ({ state with
          pool := pool
          next := state.next + 1
          queued := state.queued ++ [state.next] }, .ok ())
  | .error code => (state, .error code)

/-- `handle_interrupt`, which makes that many calls of `queue_call`. -/
def handle : ℕ → State → State
  | 0, state => state
  | calls + 1, state => handle calls (queue state).1

/-- The next step of a drain; `none` when an empty function is called. -/
def drainStep (state : State) (drain : Drain) (outer : List Drain) : Option State :=
  match drain.phase, state.pool[drain.index]? with
  | .test, none => some { state with drains := outer, served := state.served ++ drain.due }
  | .test, some none =>
      some { state with drains := { drain with index := drain.index + 1 } :: outer }
  | .test, some (some _) => some { state with drains := { drain with phase := .call } :: outer }
  | .call, some (some callback) =>
      some { state with
        drains := { drain with phase := .running } :: outer
        executed := state.executed ++ [callback] }
  | .call, _ => none
  | .running, _ => some { state with drains := { drain with phase := .clear } :: outer }
  | .clear, _ =>
      some { state with
        pool := state.pool.set drain.index none
        drains := { drain with index := drain.index + 1, phase := .test } :: outer }

/-- What happens next: an interrupt, whose handler queues that many calls; a call queued by the
call that is running; or a step of the code. -/
inductive Op
  | interrupt (calls : ℕ)
  | queue
  | advance
  deriving DecidableEq

/-- One of them. -/
def step (state : State) : Op → Option (State × Option (Except ErrorCode Unit))
  | .interrupt calls =>
      let handled := handle calls state
      some ({ handled with
        drains := ⟨0, .test, handled.pool.filterMap id⟩ :: handled.drains }, none)
  | .queue => some ((queue state).1, some (queue state).2)
  | .advance =>
      match state.drains with
      | [] => some (state, none)
      | drain :: outer => (drainStep state drain outer).map (·, none)

/-- A call is queued from a call only while one is running. -/
def Legal (state : State) : Op → Prop
  | .queue => ∃ drain ∈ state.drains.head?, drain.phase = .running
  | _ => True

/-- No interrupt comes while a call is being made, from the test of its place in the pool to
the clearing of it. -/
def Quiet (state : State) : Op → Prop
  | .interrupt _ => ∀ drain ∈ state.drains, drain.phase = .test
  | _ => True

instance (state : State) : (op : Op) → Decidable (Legal state op)
  | .queue => inferInstanceAs (Decidable (∃ drain ∈ state.drains.head?, drain.phase = .running))
  | .interrupt _ => .isTrue trivial
  | .advance => .isTrue trivial

instance (state : State) : (op : Op) → Decidable (Quiet state op)
  | .interrupt _ => inferInstanceAs (Decidable (∀ drain ∈ state.drains, drain.phase = .test))
  | .queue => .isTrue trivial
  | .advance => .isTrue trivial

/-- **Every call is made once**: none twice, none that was not queued, none lost, and none that
waited for a drain is left behind by it. -/
structure Once (state : State) : Prop where
  nodup : state.executed.Nodup
  known : ∀ callback ∈ state.executed, callback ∈ state.queued
  kept : ∀ callback ∈ state.queued, callback ∈ state.executed ∨ some callback ∈ state.pool
  served : ∀ callback ∈ state.served, callback ∈ state.executed

theorem Once.withDrains {state : State} (once : Once state) (drains : List Drain) :
    Once { state with drains := drains } :=
  ⟨once.nodup, once.known, once.kept, once.served⟩

/-! ## What `queue_call` does -/

section QueueCall

variable {α : Type*} {pool pool' : List (Option α)} {callback : α} {i : ℕ} {code : ErrorCode}

theorem queueCall_ok (h : queueCall pool callback = .ok pool') :
    ∃ i, pool[i]? = some none ∧ pool' = pool.set i (some callback) := by
  induction pool generalizing pool' with
  | nil => cases h
  | cons member rest ih =>
      cases member with
      | none =>
          cases h
          exact ⟨0, rfl, rfl⟩
      | some member =>
          rw [queueCall] at h
          cases hrest : queueCall rest callback with
          | error code =>
              rw [hrest] at h
              cases h
          | ok rest' =>
              rw [hrest] at h
              cases h
              obtain ⟨i, hi, rfl⟩ := ih hrest
              exact ⟨i + 1, hi, rfl⟩

/-- **`queue_call` reports an error** only when all places are taken. -/
theorem queueCall_error (h : queueCall pool callback = .error code) :
    code = .ENOMEM ∧ none ∉ pool := by
  induction pool with
  | nil =>
      cases h
      exact ⟨rfl, List.not_mem_nil⟩
  | cons member rest ih =>
      cases member with
      | none => cases h
      | some member =>
          rw [queueCall] at h
          cases hrest : queueCall rest callback with
          | ok rest' =>
              rw [hrest] at h
              cases h
          | error code' =>
              rw [hrest] at h
              cases h
              obtain ⟨hcode, hfull⟩ := ih hrest
              refine ⟨hcode, fun hmem => ?_⟩
              rcases List.mem_cons.mp hmem with heq | hmem
              · cases heq
              · exact hfull hmem

end QueueCall

/-! ## The invariant -/

/-- The drain is making a call that is on its place. -/
def Making (state : State) (drain : Drain) : Prop :=
  match drain.phase with
  | .test => True
  | .call => ∃ callback, state.pool[drain.index]? = some (some callback)
  | _ => ∃ callback, state.pool[drain.index]? = some (some callback) ∧ callback ∈ state.executed

/-- The invariant, of runs whose interrupts come between two calls. -/
structure Ok (state : State) : Prop where
  once : Once state
  numbered : ∀ callback ∈ state.queued, callback < state.next
  places : ∀ (i callback : ℕ), state.pool[i]? = some (some callback) → callback ∈ state.queued
  apart : ∀ (i j callback : ℕ), state.pool[i]? = some (some callback) →
    state.pool[j]? = some (some callback) → i = j
  /-- What has been made already is on its place only while its drain is there. -/
  waiting : ∀ (i callback : ℕ), state.pool[i]? = some (some callback) → callback ∈ state.executed →
    ∃ drain ∈ state.drains.head?, drain.index = i ∧ (drain.phase = .running ∨ drain.phase = .clear)
  outer : ∀ drain ∈ state.drains.tail, drain.phase = .test
  making : ∀ drain ∈ state.drains.head?, Making state drain
  /-- What a drain has to do lies ahead of it. -/
  due : ∀ drain ∈ state.drains, ∀ callback ∈ drain.due, callback ∈ state.executed ∨
    ∃ i : ℕ, drain.index ≤ i ∧ state.pool[i]? = some (some callback)

variable {state : State}

theorem ok_start : Ok start where
  once := ⟨List.nodup_nil, List.forall_mem_nil _, List.forall_mem_nil _, List.forall_mem_nil _⟩
  numbered := List.forall_mem_nil _
  places := by
    intro i callback h
    have hmem := List.mem_of_getElem? h
    cases List.eq_of_mem_replicate hmem
  apart := by
    intro i j callback h
    have hmem := List.mem_of_getElem? h
    cases List.eq_of_mem_replicate hmem
  waiting := by
    intro i callback h
    have hmem := List.mem_of_getElem? h
    cases List.eq_of_mem_replicate hmem
  outer := List.forall_mem_nil _
  making := by
    intro drain h
    cases h
  due := List.forall_mem_nil _

/-- **`queue_call`** keeps the invariant. -/
theorem Ok.queue (ok : Ok state) : Ok (queue state).1 ∧
    (Deferred.queue state).1.drains = state.drains := by
  unfold Deferred.queue
  cases hcall : queueCall state.pool state.next with
  | error code => exact ⟨ok, rfl⟩
  | ok pool =>
      obtain ⟨i, hi, rfl⟩ := queueCall_ok hcall
      have hlt := (List.getElem?_eq_some_iff.mp hi).1
      -- The place was empty, so that what was on a place still is.
      have hkeeps : ∀ j callback, state.pool[j]? = some (some callback) →
          (state.pool.set i (some state.next))[j]? = some (some callback) := fun j callback h => by
        rw [List.getElem?_set_ne (fun heq => by rw [← heq, hi] at h; cases h), h]
      have hback : ∀ j callback, (state.pool.set i (some state.next))[j]? = some (some callback) →
          (j = i ∧ callback = state.next) ∨ state.pool[j]? = some (some callback) :=
        fun j callback h => by
          by_cases hj : j = i
          · rw [hj, List.getElem?_set_self hlt] at h
            cases h
            exact .inl ⟨hj, rfl⟩
          · rw [List.getElem?_set_ne (Ne.symm hj)] at h
            exact .inr h
      have hnew : ∀ callback ∈ state.queued, callback ≠ state.next := fun callback hmem heq =>
        absurd (ok.numbered callback hmem) (by omega)
      have hnotPlaced : ∀ j, state.pool[j]? ≠ some (some state.next) := fun j h =>
        hnew _ (ok.places j _ h) rfl
      refine ⟨⟨⟨ok.once.nodup, fun callback h => List.mem_append_left _ (ok.once.known callback h),
        fun callback h => ?_, ok.once.served⟩, fun callback h => ?_, fun j callback h => ?_,
        fun j k callback hj hk => ?_, fun j callback h hmade => ?_, ok.outer, fun drain h => ?_,
        fun drain h callback hdue => ?_⟩, rfl⟩
      · rcases List.mem_append.mp h with h | h
        · refine (ok.once.kept callback h).imp_right fun hmem => ?_
          obtain ⟨j, hj⟩ := List.mem_iff_getElem?.mp hmem
          exact List.mem_of_getElem? (hkeeps j callback hj)
        · rw [List.mem_singleton.mp h]
          exact .inr (List.mem_of_getElem? (List.getElem?_set_self hlt))
      · rcases List.mem_append.mp h with h | h
        · exact Nat.lt_succ_of_lt (ok.numbered callback h)
        · rw [List.mem_singleton.mp h]
          exact Nat.lt_succ_self _
      · rcases hback j callback h with ⟨-, rfl⟩ | h
        · exact List.mem_append_right _ (List.mem_singleton.mpr rfl)
        · exact List.mem_append_left _ (ok.places j callback h)
      · rcases hback j callback hj with ⟨rfl, rfl⟩ | hj
        · exact (hback k _ hk).elim (fun h => h.1.symm) fun h => absurd h (hnotPlaced k)
        · rcases hback k callback hk with ⟨-, rfl⟩ | hk
          · exact absurd hj (hnotPlaced j)
          · exact ok.apart j k callback hj hk
      · rcases hback j callback h with ⟨-, rfl⟩ | h
        · exact absurd rfl (hnew _ (ok.once.known _ hmade))
        · exact ok.waiting j callback h hmade
      · have hmaking := ok.making drain h
        unfold Making at hmaking ⊢
        cases hphase : drain.phase <;> rw [hphase] at hmaking
        · trivial
        · obtain ⟨callback, hplace⟩ := hmaking
          exact ⟨callback, hkeeps _ callback hplace⟩
        · obtain ⟨callback, hplace, hmade⟩ := hmaking
          exact ⟨callback, hkeeps _ callback hplace, hmade⟩
        · obtain ⟨callback, hplace, hmade⟩ := hmaking
          exact ⟨callback, hkeeps _ callback hplace, hmade⟩
      · exact (ok.due drain h callback hdue).imp_right fun ⟨j, hj, hplace⟩ =>
          ⟨j, hj, hkeeps j callback hplace⟩

theorem Ok.handle (ok : Ok state) (calls : ℕ) : Ok (handle calls state) ∧
    (Deferred.handle calls state).drains = state.drains := by
  induction calls generalizing state with
  | zero => exact ⟨ok, rfl⟩
  | succ calls ih =>
      obtain ⟨ok', hdrains⟩ := ok.queue
      obtain ⟨ok'', hdrains'⟩ := ih ok'
      exact ⟨ok'', hdrains'.trans hdrains⟩

/-- **An interrupt between two calls** keeps the invariant. -/
theorem Ok.interrupt (ok : Ok state) (calls : ℕ) (quiet : Quiet state (.interrupt calls)) :
    Ok { Deferred.handle calls state with
      drains := ⟨0, .test, (Deferred.handle calls state).pool.filterMap id⟩ ::
        (Deferred.handle calls state).drains } := by
  obtain ⟨ok', hdrains⟩ := ok.handle calls
  have hquiet : ∀ drain ∈ (Deferred.handle calls state).drains, drain.phase = .test := by
    rw [hdrains]
    exact quiet
  refine ⟨ok'.once.withDrains _, ok'.numbered, ok'.places, ok'.apart, fun i callback h hmade => ?_, hquiet,
    fun drain h => ?_, List.forall_mem_cons.mpr ⟨fun callback h => ?_, ok'.due⟩⟩
  · obtain ⟨drain, hhead, -, hphase⟩ := ok'.waiting i callback h hmade
    have htest := hquiet drain (List.mem_of_head? hhead)
    rw [htest] at hphase
    rcases hphase with h | h <;> cases h
  · cases h
    trivial
  · obtain ⟨member, hmem, rfl⟩ := List.mem_filterMap.mp h
    obtain ⟨i, hi⟩ := List.mem_iff_getElem?.mp hmem
    exact .inr ⟨i, Nat.zero_le _, hi⟩

/-- **A step of a drain** succeeds and keeps the invariant. -/
theorem Ok.drainStep (ok : Ok state) {drain : Drain} {outer : List Drain}
    (hdrains : state.drains = drain :: outer) :
    ∃ state', drainStep state drain outer = some state' ∧ Ok state' := by
  have hhead : drain ∈ state.drains.head? := by
    rw [hdrains]
    exact rfl
  have hmem : drain ∈ state.drains := List.mem_of_head? hhead
  have htail : state.drains.tail = outer := by
    rw [hdrains]
    rfl
  have houter : ∀ other ∈ outer, other.phase = .test := htail ▸ ok.outer
  have hdueOuter : ∀ other ∈ outer, ∀ callback ∈ other.due, callback ∈ state.executed ∨
      ∃ i : ℕ, other.index ≤ i ∧ state.pool[i]? = some (some callback) := fun other hother =>
    ok.due other (by rw [hdrains]; exact List.mem_cons_of_mem _ hother)
  have hmaking := ok.making drain hhead
  -- What has been made is on no place while the drain looks for the next call.
  have hfresh : ∀ i callback, state.pool[i]? = some (some callback) →
      (i = drain.index → drain.phase ≠ .running ∧ drain.phase ≠ .clear) →
      callback ∉ state.executed := fun i callback h hnot hmade => by
    obtain ⟨other, hother, hindex, hphase⟩ := ok.waiting i callback h hmade
    have heq : other = drain := Option.some_inj.mp (hother.symm.trans hhead)
    subst heq
    obtain ⟨hrunning, hclear⟩ := hnot hindex.symm
    exact hphase.elim hrunning hclear
  unfold Deferred.drainStep Making at *
  cases hphase : drain.phase with
  | test =>
      have hnone : ∀ i callback, state.pool[i]? = some (some callback) →
          callback ∉ state.executed := fun i callback h =>
        hfresh i callback h fun _ => by rw [hphase]; exact ⟨by decide, by decide⟩
      cases hplace : state.pool[drain.index]? with
      | none =>
          refine ⟨_, rfl, ⟨ok.once.nodup, ok.once.known, ok.once.kept, fun callback h => ?_⟩,
            ok.numbered, ok.places, ok.apart, fun i callback h hmade =>
              absurd hmade (hnone i callback h), fun other h => houter other (List.mem_of_mem_tail h),
            fun other h => ?_, hdueOuter⟩
          · rcases List.mem_append.mp h with h | h
            · exact ok.once.served callback h
            · -- Nothing lies ahead of the end of the pool.
              refine (ok.due drain hmem callback h).resolve_right ?_
              rintro ⟨i, hi, hplace'⟩
              have hend := List.getElem?_eq_none_iff.mp hplace
              rw [List.getElem?_eq_none_iff.mpr (Nat.le_trans hend hi)] at hplace'
              cases hplace'
          · rw [Making, houter other (List.mem_of_head? h)]
            trivial
      | some member =>
          cases member with
          | none =>
              refine ⟨_, rfl, ok.once.withDrains _, ok.numbered, ok.places, ok.apart, fun i callback h hmade =>
                absurd hmade (hnone i callback h), houter, fun other h => ?_,
                List.forall_mem_cons.mpr ⟨fun callback h => ?_, hdueOuter⟩⟩
              · cases h
                trivial
              · refine (ok.due drain hmem callback h).imp_right ?_
                rintro ⟨i, hi, hplace'⟩
                refine ⟨i, Nat.lt_of_le_of_ne hi fun heq => ?_, hplace'⟩
                rw [← heq, hplace] at hplace'
                cases hplace'
          | some callback =>
              refine ⟨_, rfl, ok.once.withDrains _, ok.numbered, ok.places, ok.apart, fun i callback h hmade =>
                absurd hmade (hnone i callback h), houter, fun other h => ?_,
                List.forall_mem_cons.mpr ⟨ok.due drain hmem, hdueOuter⟩⟩
              cases h
              exact ⟨callback, hplace⟩
  | call =>
      rw [hphase] at hmaking
      obtain ⟨callback, hplace⟩ := hmaking
      rw [hplace]
      have hnone : ∀ i callback, state.pool[i]? = some (some callback) →
          callback ∉ state.executed := fun i callback h =>
        hfresh i callback h fun _ => by rw [hphase]; exact ⟨by decide, by decide⟩
      have hnew := hnone _ callback hplace
      refine ⟨_, rfl, ⟨?_, fun other h => ?_, fun other h => ?_, fun other h =>
        List.mem_append_left _ (ok.once.served other h)⟩, ok.numbered, ok.places, ok.apart,
        fun i other h hmade => ?_, houter, fun other h => ?_, List.forall_mem_cons.mpr
          ⟨fun other h => ?_, fun inner hinner other h => ?_⟩⟩
      · rw [← List.concat_eq_append]
        exact ok.once.nodup.concat hnew
      · rcases List.mem_append.mp h with h | h
        · exact ok.once.known other h
        · rw [List.mem_singleton.mp h]
          exact ok.places _ callback hplace
      · exact (ok.once.kept other h).imp_left (List.mem_append_left _)
      · rcases List.mem_append.mp hmade with hmade | hmade
        · exact absurd hmade (hnone i other h)
        · rw [List.mem_singleton.mp hmade] at h
          exact ⟨_, rfl, (ok.apart i _ callback h hplace).symm, .inl rfl⟩
      · cases h
        exact ⟨callback, hplace, List.mem_append_right _ (List.mem_singleton.mpr rfl)⟩
      · exact (ok.due drain hmem other h).imp_left (List.mem_append_left _)
      · exact (hdueOuter inner hinner other h).imp_left (List.mem_append_left _)
  | running =>
      rw [hphase] at hmaking
      refine ⟨_, rfl, ok.once.withDrains _, ok.numbered, ok.places, ok.apart, fun i callback h hmade => ?_,
        houter, fun other h => ?_, List.forall_mem_cons.mpr ⟨ok.due drain hmem, hdueOuter⟩⟩
      · obtain ⟨other, hother, hindex, -⟩ := ok.waiting i callback h hmade
        have heq : other = drain := Option.some_inj.mp (hother.symm.trans hhead)
        subst heq
        exact ⟨_, rfl, hindex, .inr rfl⟩
      · cases h
        exact hmaking
  | clear =>
      rw [hphase] at hmaking
      obtain ⟨callback, hplace, hmade⟩ := hmaking
      have hlt := (List.getElem?_eq_some_iff.mp hplace).1
      have hback : ∀ i other, (state.pool.set drain.index none)[i]? = some (some other) →
          i ≠ drain.index ∧ state.pool[i]? = some (some other) := fun i other h => by
        by_cases hi : i = drain.index
        · rw [hi, List.getElem?_set_self hlt] at h
          cases h
        · rw [List.getElem?_set_ne (Ne.symm hi)] at h
          exact ⟨hi, h⟩
      have hkeeps : ∀ i other, state.pool[i]? = some (some other) → other ≠ callback →
          (state.pool.set drain.index none)[i]? = some (some other) := fun i other h hne => by
        refine (List.getElem?_set_ne fun heq => hne ?_).trans h
        rw [← heq, hplace] at h
        cases h
        rfl
      -- The call that is cleared has been made.
      have hdue : ∀ i other, state.pool[i]? = some (some other) →
          other ∈ state.executed ∨
            (i ≠ drain.index ∧ (state.pool.set drain.index none)[i]? = some (some other)) :=
        fun i other h => by
          by_cases heq : other = callback
          · exact .inl (heq ▸ hmade)
          · refine .inr ⟨fun hi => heq ?_, hkeeps i other h heq⟩
            rw [hi, hplace] at h
            cases h
            rfl
      refine ⟨_, rfl, ⟨ok.once.nodup, ok.once.known, fun other h => ?_, ok.once.served⟩, ok.numbered,
        fun i other h => ok.places i other (hback i other h).2, fun i j other hi hj =>
          ok.apart i j other (hback i other hi).2 (hback j other hj).2,
        fun i other h hmade' => ?_, houter, fun other h => ?_,
        List.forall_mem_cons.mpr ⟨fun other h => ?_, fun inner hinner other h => ?_⟩⟩
      · rcases ok.once.kept other h with h | h
        · exact .inl h
        · obtain ⟨i, hi⟩ := List.mem_iff_getElem?.mp h
          exact (hdue i other hi).imp_right fun h => List.mem_of_getElem? h.2
      · obtain ⟨hne, hplace'⟩ := hback i other h
        obtain ⟨inner, hinner, hindex, -⟩ := ok.waiting i other hplace' hmade'
        have heq : inner = drain := Option.some_inj.mp (hinner.symm.trans hhead)
        subst heq
        exact absurd hindex.symm hne
      · cases h
        trivial
      · rcases ok.due drain hmem other h with h | ⟨i, hi, hplace'⟩
        · exact .inl h
        · exact (hdue i other hplace').imp_right fun ⟨hne, h⟩ =>
            ⟨i, Nat.lt_of_le_of_ne hi (Ne.symm hne), h⟩
      · rcases hdueOuter inner hinner other h with h | ⟨i, hi, hplace'⟩
        · exact .inl h
        · exact (hdue i other hplace').imp_right fun ⟨_, h⟩ => ⟨i, hi, h⟩

/-! ## Runs -/

/-- **One step** succeeds and keeps the invariant. -/
theorem Ok.step (ok : Ok state) (op : Op) (quiet : Quiet state op) :
    ∃ moved, step state op = some moved ∧ Ok moved.1 := by
  cases op with
  | interrupt calls => exact ⟨_, rfl, ok.interrupt calls quiet⟩
  | queue => exact ⟨_, rfl, ok.queue.1⟩
  | advance =>
      unfold Deferred.step
      cases hdrains : state.drains with
      | nil => exact ⟨_, rfl, ok⟩
      | cons drain outer =>
          obtain ⟨state', hstep, ok'⟩ := ok.drainStep hdrains
          dsimp only
          rw [hstep]
          exact ⟨_, rfl, ok'⟩

/-- **Every call that is queued is made exactly once**, in every run in which no interrupt comes
while a call is being made; and `queue_call` reports an error only when all places are taken. -/
theorem run_once {ops : List Op}
    (meets : StepsMeet step (fun state op => Legal state op ∧ Quiet state op) start ops) (n : ℕ) :
    (∃ final, runSteps step start (ops.take n) = some final ∧ Once final.1) ∧
      ∀ (pool : List (Option ℕ)) callback code,
        queueCall pool callback = .error code → none ∉ pool := by
  refine ⟨?_, fun pool callback code h => (queueCall_error h).2⟩
  have keeps : ∀ state op, Ok state → Legal state op ∧ Quiet state op →
      ∃ moved, step state op = some moved ∧ Ok moved.1 :=
    fun _ op ok meet => ok.step op meet.2
  obtain ⟨final, hrun, ok⟩ := runSteps_completes keeps ok_start meets n
  exact ⟨final, hrun, ok.once⟩

/-- Two calls of an interrupt, and one that the second of them queues on the place of the first;
the next interrupt, while the drain looks on, makes that one. -/
theorem run_once_again :
    (∃ final, runSteps step start
        (([.interrupt 2] ++ List.replicate 6 .advance ++ [.queue] ++ List.replicate 2 .advance ++
          [.interrupt 0] ++ List.replicate 9 .advance : List Op).take 21) = some final ∧
          Once final.1) ∧
      ∀ (pool : List (Option ℕ)) callback code,
        queueCall pool callback = .error code → none ∉ pool :=
  run_once (by decide +kernel) 21

/-- **An interrupt while a call is running** makes it again: its place is not cleared yet. -/
theorem run_once_fails : ∃ final, runSteps step start
    [.interrupt 1, .advance, .advance, .interrupt 0, .advance, .advance] = some final ∧
      StepsMeet step Legal start
        [.interrupt 1, .advance, .advance, .interrupt 0, .advance, .advance] ∧
      ¬ Once final.1 := by
  refine ⟨_, rfl, by decide, fun once => ?_⟩
  exact absurd once.nodup (by decide)

end Deferred

end BekOS
