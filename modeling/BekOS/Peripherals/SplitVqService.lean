import BekOS.Peripherals.SplitVqRuns

/-!
# What the split virtqueue guarantees

Every run against a conforming device keeps the descriptors shared out between
the free chain and the requests in flight, and has every used entry handled once,
in order and with its own callback, as long as the device's 16-bit index has not
wrapped.  When it does, the driver's 32-bit counter goes past it and
`process_used` handles entries again.
-/

namespace BekOS.SplitVQ

open IndexPath PartialRun Hashtable

universe u

variable {Callback : Type u} {hash : ℕ → ℕ} {n : ℕ} {run : RunState Callback}

/-! ## One step -/

/-- The device has published fewer than 65535 entries before this one. -/
def BeforeWrap (run : RunState Callback) : Op Callback → Prop
  | .publish _ _ => run.published.length + 1 < 2 ^ 16
  | .transfer _ _ _ | .iterate | .interrupt => True

instance (run : RunState Callback) : (op : Op Callback) → Decidable (BeforeWrap run op)
  | .publish _ _ => inferInstanceAs (Decidable (_ < _))
  | .transfer _ _ _ | .iterate | .interrupt => .isTrue trivial

/-- A transfer of no elements, which `queue_transfer` asserts against. -/
def Op.isEmpty : Op Callback → Bool
  | .transfer _ elements _ => elements.isEmpty
  | .publish _ _ | .iterate | .interrupt => false

theorem RunInv.transfer (inv : RunInv hash n run) (fuel : ℕ) (ready : Bool)
    {elements : List TransferElement} (hne : elements ≠ []) (cb : Option Callback) :
    ∃ moved, step hash fuel run (.transfer ready elements cb) = some moved ∧
      RunInv hash n moved.1 ∧ moved.2 ≠ some .unallocated := by
  rcases queueTransfer_spec inv.queue ready hne cb with
    ⟨hreject, -⟩ | ⟨vq', hqueue, hinv, hused, hseen⟩
  · have hstep : step hash fuel run (.transfer ready elements cb) =
        some (run, some .rejected) := by
      simp only [step, hreject, Option.map_some]
      rfl
    exact ⟨_, hstep, inv, by simp⟩
  · have hstep : step hash fuel run (.transfer ready elements cb) =
        some ({ run with
          queue := vq'
          inFlight := ⟨vq'.availableEntries (run.queue.availableIdx % run.queue.num), cb⟩ ::
            run.inFlight }, some .queued) := by
      simp only [step, hqueue, Option.map_some, if_true]
    refine ⟨_, hstep, ⟨hinv, hused.num_eq.trans inv.num_eq, inv.inOrder, hseen.trans inv.seen,
      hused.idx_eq.trans inv.index, inv.short, ?_, ?_, inv.distinct⟩, by simp⟩
    · intro p done hdone
      have hold := inv.entries p done hdone
      rwa [← hused.num_eq, ← hused.entries_eq] at hold
    · intro done hdone
      obtain ⟨request, hrequest, hhead, hcallback⟩ := inv.exists_request hdone
      exact (callbackMap_eq_some_iff hinv.lists.heads_nodup).mpr
        ⟨request, List.mem_cons_of_mem _ hrequest, hhead, hcallback⟩

theorem RunInv.pending_le (inv : RunInv hash n run) : run.pending.length ≤ n := by
  have hle := inv.length_le_num inv.distinct (by
    intro id hid
    obtain ⟨done, hdone, rfl⟩ := List.mem_map.mp hid
    obtain ⟨request, hrequest, hhead, -⟩ := inv.exists_request hdone
    exact hhead ▸ List.mem_map_of_mem hrequest)
  rwa [List.length_map, inv.num_eq] at hle

/-- **One step** against a conforming device completes and keeps the invariant. -/
theorem RunInv.step {fuel : ℕ} (inv : RunInv hash n run) (hfuel : n < fuel)
    {op : Op Callback} (conforms : Conforms run op) (before : BeforeWrap run op)
    (nonempty : op.isEmpty = false) :
    ∃ moved, step hash fuel run op = some moved ∧ RunInv hash n moved.1 ∧
      moved.2 ≠ some .unallocated := by
  cases op with
  | transfer ready elements cb =>
      exact inv.transfer fuel ready (by simpa [Op.isEmpty] using nonempty) cb
  | publish id length =>
      exact ⟨_, rfl, inv.publish length conforms.1 conforms.2 before, by simp⟩
  | iterate =>
      by_cases hdone : run.queue.lastSeenUsedIdx = run.queue.usedIdx
      · refine ⟨(run, none), ?_, inv, by simp⟩
        simp only [SplitVQ.step]
        exact if_neg fun h => h hdone
      · cases hpending : run.pending with
        | nil => exact absurd (inv.seen_eq_index_iff.mpr hpending) hdone
        | cons done rest =>
            obtain ⟨vq', hprocess, hinv, -⟩ := inv.handle hpending
            refine ⟨(RunState.settle { run with queue := vq' } done, none), ?_, hinv, by simp⟩
            simp only [SplitVQ.step]
            rw [if_pos hdone, hprocess]
            rfl
  | interrupt =>
      have hpending := inv.pending_le
      obtain ⟨vq', hprocess, hinv, -⟩ := inv.processUsed fuel run (by omega)
      refine ⟨(run.pending.foldl RunState.settle { run with queue := vq' }, none), ?_, hinv,
        by simp⟩
      simp only [SplitVQ.step, hprocess, Option.map_some]

theorem new_runInv (hash : ℕ → ℕ) (hlt : n < 2 ^ 16) (memory : ℕ → SplitVQDescriptor)
    (available : ℕ → ℕ) (used : ℕ → SplitVQUsedEntry) :
    RunInv hash n (RunState.new n memory available used : RunState Callback) where
  queue := ⟨new_partitioned hlt memory available used, new_wellFormed (by decide),
    new_represents 4⟩
  num_eq := rfl
  inOrder := List.nil_prefix
  seen := rfl
  index := rfl
  short := by simp [RunState.new]
  entries := by simp [RunState.new, RunState.pending]
  owned := by simp [RunState.new, RunState.pending]
  distinct := by simp [RunState.new, RunState.pending]

/-- **The run lemma.**  Every prefix of a run before the wrap completes and keeps
the invariant, unless it asks for an empty transfer. -/
theorem run_completes {fuel : ℕ} (hash : ℕ → ℕ) (hlt : n < 2 ^ 16) (hfuel : n < fuel)
    {memory : ℕ → SplitVQDescriptor} {available : ℕ → ℕ} {used : ℕ → SplitVQUsedEntry}
    {ops : List (Op Callback)}
    (conforms : StepsMeet (step hash fuel) (fun run op => Conforms run op ∧ BeforeWrap run op)
      (RunState.new n memory available used) ops) (k : ℕ) :
    (∃ op ∈ ops.take k, op.isEmpty = true) ∨
      ∃ final, runSteps (step hash fuel) (RunState.new n memory available used) (ops.take k) =
        some final ∧ RunInv hash n final.1 ∧ ∀ reply ∈ final.2, reply ≠ some .unallocated := by
  by_cases hempty : ∃ op ∈ ops.take k, op.isEmpty = true
  · exact Or.inl hempty
  right
  have hnonempty : ∀ op ∈ ops.take k, op.isEmpty = false := fun op hop => by
    by_contra h
    exact hempty ⟨op, hop, by simpa using h⟩
  have keeps : ∀ (run : RunState Callback) (op : Op Callback), RunInv hash n run →
      (Conforms run op ∧ BeforeWrap run op) ∧ op.isEmpty = false →
      ∃ moved, step hash fuel run op = some moved ∧ RunInv hash n moved.1 ∧
        moved.2 ≠ some .unallocated :=
    fun _ _ inv cond => inv.step hfuel cond.1.1 cond.1.2 cond.2
  have hall := runSteps_completes_allowed (· ≠ some .unallocated) keeps (new_runInv hash hlt memory available used)
    ((conforms.take k).and_forall hnonempty) (ops.take k).length
  rwa [List.take_length] at hall

/-! ## The descriptors -/

/-- The free chain and the chains of the requests in flight share out the
descriptors, the counter counts the free ones, and the callback table has one
entry for each request. -/
structure Consistent (run : RunState Callback) : Prop where
  partition : (run.queue.freeChain ++ run.inFlight.flatMap fun request =>
    run.queue.requestChain request.head).Perm (List.range run.queue.num)
  free_eq : run.queue.freeDescriptors = run.queue.freeChain.length
  callbacks : run.queue.callbacks.visited.Perm
    (run.inFlight.map fun request => (request.head, request.callback))

theorem QueueInv.visited_perm {vq : SplitVQ Callback} {inFlight : List (Request Callback)}
    (inv : QueueInv hash vq inFlight) :
    vq.callbacks.visited.Perm (inFlight.map fun request => (request.head, request.callback)) := by
  obtain ⟨hdistinct, hmem⟩ := inv.table.enumerates (natHash_respects hash) inv.represents
  have hvisited : vq.callbacks.visited.Nodup := hdistinct.imp fun {p q} hkeys heq => by
    subst heq
    simp at hkeys
  have hrequests : (inFlight.map fun request => (request.head, request.callback)).Nodup := by
    refine List.Nodup.of_map Prod.fst ?_
    rw [List.map_map]
    exact inv.lists.heads_nodup
  refine (List.perm_ext_iff_of_nodup hvisited hrequests).mpr fun ⟨key, cb⟩ => ?_
  have hiff := (hmem key cb).symm.trans (callbackMap_eq_some_iff inv.lists.heads_nodup)
  rw [List.mem_map]
  constructor
  · intro hin
    obtain ⟨request, hrequest, rfl, rfl⟩ := hiff.mp ⟨_, hin, by simp, rfl⟩
    exact ⟨request, hrequest, rfl⟩
  · rintro ⟨request, hrequest, heq⟩
    obtain ⟨rfl, rfl⟩ := Prod.mk.inj heq
    obtain ⟨⟨key, cb⟩, hin, hkey, hcb⟩ := hiff.mpr ⟨request, hrequest, rfl, rfl⟩
    have hkey' : request.head = key := by simpa using hkey
    have hcb' : cb = request.callback := hcb
    rw [hkey', ← hcb']
    exact hin

theorem RunInv.consistent (inv : RunInv hash n run) : Consistent run where
  partition := by
    have hpartition := inv.queue.lists.partition
    rwa [List.flatMap_map] at hpartition
  free_eq := inv.queue.lists.free_eq
  callbacks := inv.queue.visited_perm

/-- **The descriptors stay shared out.**  In every run against a conforming
device that publishes at most 65535 entries, whatever the element counts and the
order of completion: each step completes, so `callbacks.insert` reports success
each time, no transfer runs out of descriptors half way, and the state is
consistent.  Only an empty transfer, which `queue_transfer` asserts against,
ends the run. -/
theorem run_consistent (hash : ℕ → ℕ) {n fuel : ℕ} (hlt : n < 2 ^ 16) (hfuel : n < fuel)
    (memory : ℕ → SplitVQDescriptor) (available : ℕ → ℕ) (used : ℕ → SplitVQUsedEntry)
    (ops : List (Op Callback))
    (conforms : StepsMeet (step hash fuel) (fun run op => Conforms run op ∧ BeforeWrap run op)
      (RunState.new n memory available used) ops) (k : ℕ) :
    (∃ op ∈ ops.take k, op.isEmpty = true) ∨
      ∃ final, runSteps (step hash fuel) (RunState.new n memory available used) (ops.take k) =
        some final ∧ Consistent final.1 ∧ some .unallocated ∉ final.2 := by
  rcases run_completes hash hlt hfuel conforms k with hempty | ⟨final, hrun, hinv, hreplies⟩
  · exact Or.inl hempty
  · exact Or.inr ⟨final, hrun, hinv.consistent, fun h => hreplies _ h rfl⟩

/-- Two requests completed in the other order, the second while the first is still
in flight, and a third placed on the descriptors that came back. -/
def swapped : List (Op ℕ) :=
  [.transfer true [⟨0, 16, .OUT⟩, ⟨16, 8, .IN⟩] (some 1), .transfer true [⟨32, 4, .IN⟩] none,
    .publish 2 4, .iterate, .publish 0 8, .transfer true [⟨0, 1, .OUT⟩, ⟨4, 1, .IN⟩] (some 2),
    .interrupt, .transfer true [⟨0, 1, .OUT⟩] (some 3)]

theorem run_consistent_swapped :
    ∃ final, runSteps (step id 5) (RunState.new 4 (fun _ => ⟨0, 0, 0, 0⟩) (fun _ => 0)
        (fun _ => ⟨0, 0⟩) : RunState ℕ) swapped = some final ∧
      Consistent final.1 ∧ some .unallocated ∉ final.2 :=
  (run_consistent id (by decide) (by decide) _ _ _ swapped (by decide +kernel) 8).resolve_left
    (by decide)

/-! ## The used entries -/

/-- What the driver has handled is the first of what was published, with its own
callbacks; and from here `process_used` ends, handles exactly the rest, in order,
and leaves its counter congruent to the device's index. -/
def Serves (hash : ℕ → ℕ) (fuel : ℕ) (run : RunState Callback) : Prop :=
  run.handled <+: run.published ∧
    ∃ done, run.queue.processUsed hash fuel = some done ∧
      run.handled ++ done.2 = run.published ∧
      done.1.lastSeenUsedIdx % 2 ^ 16 = done.1.usedIdx

theorem RunInv.serves {fuel : ℕ} (inv : RunInv hash n run) (hfuel : n < fuel) :
    Serves hash fuel run := by
  have hpending := inv.pending_le
  obtain ⟨vq', hprocess, -, hseen, hidx⟩ := inv.processUsed fuel run (by omega)
  refine ⟨inv.inOrder, (vq', run.pending), hprocess, inv.published_eq.symm, ?_⟩
  show vq'.lastSeenUsedIdx % 2 ^ 16 = vq'.usedIdx
  rw [hseen, hidx, inv.index]
  exact Nat.mod_eq_of_lt inv.short

/-- **Used entries are handled once and in order** in every run against a
conforming device that publishes at most 65535 of them. -/
theorem run_serves (hash : ℕ → ℕ) {n fuel : ℕ} (hlt : n < 2 ^ 16) (hfuel : n < fuel)
    (memory : ℕ → SplitVQDescriptor) (available : ℕ → ℕ) (used : ℕ → SplitVQUsedEntry)
    (ops : List (Op Callback))
    (conforms : StepsMeet (step hash fuel) (fun run op => Conforms run op ∧ BeforeWrap run op)
      (RunState.new n memory available used) ops) (k : ℕ) :
    (∃ op ∈ ops.take k, op.isEmpty = true) ∨
      ∃ final, runSteps (step hash fuel) (RunState.new n memory available used) (ops.take k) =
        some final ∧ Serves hash fuel final.1 := by
  rcases run_completes hash hlt hfuel conforms k with hempty | ⟨final, hrun, hinv, -⟩
  · exact Or.inl hempty
  · exact Or.inr ⟨final, hrun, hinv.serves hfuel⟩

theorem run_serves_swapped :
    ∃ final, runSteps (step id 5) (RunState.new 4 (fun _ => ⟨0, 0, 0, 0⟩) (fun _ => 0)
        (fun _ => ⟨0, 0⟩) : RunState ℕ) swapped = some final ∧ Serves id 5 final.1 :=
  (run_serves id (by decide) (by decide) _ _ _ swapped (by decide +kernel) 8).resolve_left
    (by decide)

/-! ## The wrap -/

/-- A transfer of one element, completed and handled. -/
def wrapRound : List (Op Unit) :=
  [.transfer true [⟨0, 1, .OUT⟩] (some ()), .publish 0 1, .iterate]

/-- A queue of one descriptor on which nothing is in flight, after `count`
completions. -/
structure Idle (count : ℕ) (run : RunState Unit) : Prop where
  queue : QueueInv id run.queue run.inFlight
  num_eq : run.queue.num = 1
  inFlight_eq : run.inFlight = []
  handled_eq : run.handled.length = run.published.length
  seen : run.queue.lastSeenUsedIdx = count
  index : run.queue.usedIdx = count % 2 ^ 16

/-- One round is conforming and leaves the queue idle again, the last one before
the counters part included. -/
theorem Idle.round {count : ℕ} {run : RunState Unit} (idle : Idle count run)
    (hcount : count < 2 ^ 16) (fuel : ℕ) :
    ∃ final, runSteps (step id fuel) run wrapRound = some final ∧ Idle (count + 1) final.1 ∧
      StepsMeet (step id fuel) Conforms run wrapRound := by
  have hroom : ¬ run.queue.freeDescriptors < 1 := by
    have hlength := idle.queue.lists.partition.length_eq
    rw [idle.inFlight_eq, List.length_append, List.length_range, idle.num_eq] at hlength
    simp only [List.map_nil, List.flatMap_nil, List.length_nil] at hlength
    rw [idle.queue.lists.free_eq]
    omega
  rcases queueTransfer_spec idle.queue true (List.cons_ne_nil ⟨0, 1, .OUT⟩ []) (some ()) with
    ⟨-, hno | hno⟩ | ⟨vq₁, hqueue, hinv, hused, hseen⟩
  · cases hno
  · exact absurd hno hroom
  have hhead : vq₁.availableEntries (run.queue.availableIdx % run.queue.num) = 0 := by
    have hlt := hinv.lists.head_lt (List.mem_cons_self)
    rw [hused.num_eq.trans idle.num_eq] at hlt
    exact Nat.lt_one_iff.mp hlt
  rw [hhead, idle.inFlight_eq] at hinv
  have htransfer : step id fuel run (.transfer true [⟨0, 1, .OUT⟩] (some ())) =
      some ({ run with queue := vq₁, inFlight := [⟨0, some ()⟩] }, some .queued) := by
    simp only [step, hqueue, Option.map_some, if_true, hhead, idle.inFlight_eq]
  set run₂ : RunState Unit := { run with
    queue := vq₁.publish 0 1
    inFlight := [⟨0, some ()⟩]
    published := run.published ++ [⟨0, 1, some ()⟩] } with hrun₂
  have hpublish : step id fuel { run with queue := vq₁, inFlight := [⟨0, some ()⟩] }
      (.publish 0 1) = some (run₂, none) := rfl
  have hinv₂ : QueueInv id run₂.queue run₂.inFlight :=
    ⟨⟨hinv.lists.num_lt, hinv.lists.next_lt, hinv.lists.freePath, hinv.lists.requestPath,
      hinv.lists.partition, hinv.lists.free_eq⟩, hinv.table, hinv.represents⟩
  have hseen₂ : run₂.queue.lastSeenUsedIdx = count := hseen.trans idle.seen
  have hidx₂ : run₂.queue.usedIdx = (count + 1) % 2 ^ 16 := by
    show (vq₁.usedIdx + 1) % 2 ^ 16 = _
    rw [hused.idx_eq, idle.index]
    omega
  have hentry : run₂.queue.usedEntry = ⟨0, 1⟩ := by
    show Function.update vq₁.usedEntries (vq₁.usedIdx % vq₁.num) ⟨0, 1⟩
      (vq₁.lastSeenUsedIdx % vq₁.num) = _
    rw [hused.num_eq, idle.num_eq, Nat.mod_one, Nat.mod_one, Function.update_self]
  have hmem : (⟨0, some ()⟩ : Request Unit) ∈ run₂.inFlight := List.mem_singleton.mpr rfl
  obtain ⟨vq₃, hprocess, hinv₃, hused₃, hseen₃⟩ :=
    processEntry_spec hinv₂ hmem (by rw [hentry])
  rw [hentry] at hprocess
  have hiterate : step id fuel run₂ .iterate =
      some (RunState.settle { run₂ with queue := vq₃ } ⟨0, 1, some ()⟩, none) := by
    simp only [step, hprocess, Option.map_some]
    exact if_pos (by rw [hseen₂, hidx₂]; omega)
  refine ⟨_, by rw [wrapRound, runSteps_cons, htransfer, Option.bind_some, runSteps_cons,
    hpublish, Option.bind_some, runSteps_cons, hiterate]; rfl, ?_, ?_⟩
  · refine ⟨hinv₃, ?_, rfl, ?_, ?_, ?_⟩
    · exact hused₃.num_eq.trans (hused.num_eq.trans idle.num_eq)
    · show (run.handled ++ [_]).length = (run.published ++ [_]).length
      rw [List.length_append, List.length_append, idle.handled_eq]
    · show vq₃.lastSeenUsedIdx = count + 1
      rw [hseen₃, hseen₂]
      omega
    · exact hused₃.idx_eq.trans hidx₂
  · refine ⟨trivial, fun moved hmoved => ?_⟩
    rw [Option.mem_def, htransfer, Option.some_inj] at hmoved
    subst hmoved
    refine ⟨⟨⟨_, List.mem_singleton.mpr rfl, rfl⟩, ?_⟩, fun moved hmoved => ⟨trivial, ?_⟩⟩
    · have hnone : run.published.drop run.handled.length = [] :=
        List.drop_eq_nil_of_le idle.handled_eq.ge
      intro done hdone
      have hdone' : done ∈ run.published.drop run.handled.length := hdone
      rw [hnone] at hdone'
      cases hdone'
    · exact fun _ _ => trivial

theorem Idle.rounds (fuel : ℕ) :
    ∀ (rounds : ℕ) {count : ℕ} {run : RunState Unit}, Idle count run →
      count + rounds ≤ 2 ^ 16 →
      ∃ final, runSteps (step id fuel) run (List.replicate rounds wrapRound).flatten =
          some final ∧ Idle (count + rounds) final.1 ∧
        StepsMeet (step id fuel) Conforms run (List.replicate rounds wrapRound).flatten := by
  intro rounds
  induction rounds with
  | zero => exact fun {count run} idle _ => ⟨(run, []), rfl, idle, trivial⟩
  | succ rounds ih =>
      intro count run idle hbound
      obtain ⟨mid, hmid, hidle, hconforms⟩ := idle.round (by omega) fuel
      obtain ⟨final, hfinal, hidle', hconforms'⟩ := ih hidle (by omega)
      rw [List.replicate_succ, List.flatten_cons]
      refine ⟨_, runSteps_append hmid hfinal, ?_, StepsMeet.append hmid hconforms hconforms'⟩
      rw [show count + (rounds + 1) = count + 1 + rounds by omega]
      exact hidle'

/-- A queue of one descriptor after 65536 transfers, each completed and handled:
the device's index is 0 again and the driver's counter is 65536, so
`process_used` does not stop there, but handles the last entry once more. -/
theorem run_serves_fails :
    (∀ fuel, StepsMeet (step id fuel) Conforms
        (RunState.new 1 (fun _ => ⟨0, 0, 0, 0⟩) (fun _ => 0) fun _ => ⟨0, 0⟩)
        (List.replicate 65536 wrapRound).flatten) ∧
      ¬ ∃ fuel, ∀ k, (∃ op ∈ (List.replicate 65536 wrapRound).flatten.take k, op.isEmpty = true) ∨
        ∃ final, runSteps (step id fuel)
          (RunState.new 1 (fun _ => ⟨0, 0, 0, 0⟩) (fun _ => 0) fun _ => ⟨0, 0⟩)
          ((List.replicate 65536 wrapRound).flatten.take k) = some final ∧
          Serves id fuel final.1 := by
  have hnew : Idle 0 (RunState.new 1 (fun _ => ⟨0, 0, 0, 0⟩) (fun _ => 0) fun _ => ⟨0, 0⟩) :=
    ⟨(new_runInv id (by decide) _ _ _).queue, rfl, rfl, rfl, rfl, rfl⟩
  have hrounds := fun fuel => hnew.rounds fuel 65536 (by omega)
  refine ⟨fun fuel => (hrounds fuel).choose_spec.2.2, ?_⟩
  rintro ⟨fuel, h⟩
  obtain ⟨final, hrun, hidle, -⟩ := hrounds fuel
  rcases h (List.replicate 65536 wrapRound).flatten.length with ⟨op, hop, hempty⟩ |
    ⟨final', hrun', -, done, hprocess, hhandled, -⟩
  · rw [List.take_length, List.mem_flatten] at hop
    obtain ⟨round, hround, hop⟩ := hop
    rw [List.eq_of_mem_replicate hround] at hop
    have hnone : ∀ op ∈ wrapRound, op.isEmpty = false := by decide
    rw [hnone op hop] at hempty
    cases hempty
  · rw [List.take_length, hrun, Option.some_inj] at hrun'
    subst hrun'
    have hdone : done.2 = [] := by
      have hlength := congrArg List.length hhandled
      rw [List.length_append, hidle.handled_eq] at hlength
      exact List.length_eq_zero_iff.mp (by omega)
    have hne : final.1.queue.lastSeenUsedIdx ≠ final.1.queue.usedIdx := by
      rw [hidle.seen, hidle.index]
      decide
    cases fuel with
    | zero => cases hprocess
    | succ fuel =>
        rw [processUsed, if_pos hne, Option.bind_eq_some_iff] at hprocess
        obtain ⟨first, -, hrest⟩ := hprocess
        obtain ⟨rest, -, rfl⟩ := Option.map_eq_some_iff.mp hrest
        cases hdone

end BekOS.SplitVQ
