import BekOS.Library.HashtableRefinement
import BekOS.Peripherals.SplitVqLists

/-!
# Runs of the split virtqueue

`QueueInv` joins the partition of the descriptors to the callback table;
`queueTransfer` and the body of `process_used` keep it, whatever the counters
say.  `RunInv` adds the used ring: what is published and not handled lies between
the driver's counter and the device's index.  The counters differ in width, so
that part holds while the device's index has not wrapped.
-/

namespace BekOS.SplitVQ

open IndexPath PartialRun Hashtable Function

universe u

variable {Callback : Type u} {hash : ℕ → ℕ} {vq : SplitVQ Callback}
variable {inFlight : List (Request Callback)} {run : RunState Callback}

/-! ## The callback table -/

/-- What the callback table is to hold. -/
def callbackMap (inFlight : List (Request Callback)) : RefMap ℕ (Option Callback) := fun key =>
  (inFlight.find? fun request => request.head == key).map Request.callback

theorem callbackMap_eq_none_iff {key : ℕ} :
    callbackMap inFlight key = none ↔ key ∉ inFlight.map Request.head := by
  simp [callbackMap]

theorem callbackMap_cons (request : Request Callback) :
    callbackMap (request :: inFlight) =
      RefMap.update (callbackMap inFlight) request.head (some request.callback) := by
  funext key
  unfold callbackMap RefMap.update
  by_cases h : key = request.head
  · simp [h]
  · have h' : request.head ≠ key := fun heq => h heq.symm
    simp [h, h']

theorem callbackMap_eq_some_iff (hnodup : (inFlight.map Request.head).Nodup) {key : ℕ}
    {cb : Option Callback} :
    callbackMap inFlight key = some cb ↔
      ∃ request ∈ inFlight, request.head = key ∧ request.callback = cb := by
  induction inFlight with
  | nil => simp [callbackMap]
  | cons first rest ih =>
      rw [List.map_cons, List.nodup_cons] at hnodup
      rw [callbackMap_cons, RefMap.update]
      by_cases h : key = first.head
      · subst h
        have hrest : ∀ request ∈ rest, request.head ≠ first.head := fun request hmem heq =>
          hnodup.1 (heq ▸ List.mem_map_of_mem hmem)
        simp only [BEq.rfl, if_true, Option.some_inj, List.mem_cons]
        constructor
        · rintro rfl
          exact ⟨first, Or.inl rfl, rfl, rfl⟩
        · rintro ⟨request, rfl | hmem, hhead, hcb⟩
          · exact hcb
          · exact absurd hhead (hrest request hmem)
      · have h' : ¬ first.head = key := fun heq => h heq.symm
        simp [h, h', ih hnodup.2]

theorem callbackMap_erase (hnodup : (inFlight.map Request.head).Nodup) (id : ℕ) :
    callbackMap (inFlight.eraseP fun request => request.head == id) =
      RefMap.update (callbackMap inFlight) id none := by
  induction inFlight with
  | nil =>
      funext key
      simp [callbackMap, RefMap.update]
  | cons first rest ih =>
      rw [List.map_cons, List.nodup_cons] at hnodup
      by_cases h : first.head = id
      · subst h
        rw [List.eraseP_cons_of_pos (by simp), callbackMap_cons]
        funext key
        unfold RefMap.update
        by_cases hkey : key = first.head
        · simp [hkey, callbackMap_eq_none_iff.mpr hnodup.1]
        · simp [hkey]
      · rw [List.eraseP_cons_of_neg (by simpa using h), callbackMap_cons, callbackMap_cons,
          ih hnodup.2]
        funext key
        unfold RefMap.update
        by_cases hkey : key = first.head
        · subst hkey
          simp [h]
        · simp [hkey]

theorem perm_erase_head {id : ℕ} (h : id ∈ inFlight.map Request.head) :
    (inFlight.map Request.head).Perm
      (id :: (inFlight.eraseP fun request => request.head == id).map Request.head) := by
  have herase : (inFlight.eraseP fun request => request.head == id).map Request.head =
      (inFlight.map Request.head).erase id := by
    rw [List.erase_eq_eraseP', List.eraseP_map]
    rfl
  rw [herase]
  exact List.perm_cons_erase h

/-! ## The queue and its callbacks -/

/-- The descriptors are shared out, and the callback table holds the requests in
flight. -/
structure QueueInv (hash : ℕ → ℕ) (vq : SplitVQ Callback) (inFlight : List (Request Callback)) :
    Prop where
  lists : vq.Partitioned (inFlight.map Request.head)
  table : vq.callbacks.WellFormed hash
  represents : vq.callbacks.Represents (callbackMap inFlight)

/-- The two queues differ in nothing that concerns the used ring. -/
structure SameUsed (vq vq' : SplitVQ Callback) : Prop where
  num_eq : vq'.num = vq.num
  idx_eq : vq'.usedIdx = vq.usedIdx
  entries_eq : vq'.usedEntries = vq.usedEntries

theorem natHash_respects (hash : ℕ → ℕ) : HashRespects hash :=
  fun _ _ h => congrArg hash (eq_of_beq h)

theorem QueueInv.insert {start : ℕ} (wf : vq.callbacks.WellFormed hash)
    (rep : vq.callbacks.Represents (callbackMap inFlight))
    (absent : start ∉ inFlight.map Request.head) (cb : Option Callback) :
    ∃ table i, vq.callbacks.insert hash (start, cb) = some (table, (i, true)) ∧
      table.WellFormed hash ∧ table.Represents (callbackMap (⟨start, cb⟩ :: inFlight)) := by
  have hnone := callbackMap_eq_none_iff.mpr absent
  have clear : ¬ vq.callbacks.Shadowed hash start := by
    intro hshadow
    obtain ⟨i, _, old, hholds, -⟩ := shadowed_iff.mp hshadow
    have hsome := (rep start old).mpr ⟨i, hholds⟩
    rw [hnone] at hsome
    cases hsome
  obtain ⟨table, i, hstore, wf', rep'⟩ :=
    store_spec wf (natHash_respects hash) rep (Or.inr clear) cb false
  rw [hnone] at hstore rep'
  refine ⟨table, i, hstore, wf', ?_⟩
  rw [callbackMap_cons]
  exact rep'

/-- **A transfer.**  It is turned down, or a request is queued on descriptors
that were free; no descriptor is missing half way, and its callback is new to the
table. -/
theorem queueTransfer_spec (inv : QueueInv hash vq inFlight) (ready : Bool)
    {elements : List TransferElement} (hne : elements ≠ []) (cb : Option Callback) :
    (vq.queueTransfer hash ready elements cb = some (vq, .rejected) ∧
        (ready = false ∨ vq.freeDescriptors < elements.length)) ∨
      ∃ vq', vq.queueTransfer hash ready elements cb = some (vq', .queued) ∧
        QueueInv hash vq'
          (⟨vq'.availableEntries (vq.availableIdx % vq.num), cb⟩ :: inFlight) ∧
        SameUsed vq vq' ∧ vq'.lastSeenUsedIdx = vq.lastSeenUsedIdx := by
  unfold queueTransfer
  rw [if_neg hne]
  cases ready with
  | false => exact Or.inl ⟨if_pos rfl, Or.inl rfl⟩
  | true =>
      rw [if_neg Bool.noConfusion]
      by_cases hroom : vq.freeDescriptors < elements.length
      · exact Or.inl ⟨if_pos hroom, Or.inr hroom⟩
      rw [if_neg hroom]
      have part := inv.lists
      have hpos := List.length_pos_iff.mpr hne
      obtain ⟨a, free, hfree⟩ : ∃ a free, vq.freeChain = a :: free := by
        cases hchain : vq.freeChain with
        | nil =>
            have := part.free_eq
            rw [hchain, List.length_nil] at this
            omega
        | cons a free => exact ⟨a, free, rfl⟩
      have hcount := part.free_eq
      have hpath := part.freePath
      rw [hfree] at hcount hpath
      rw [List.length_cons] at hcount
      have hnodup := (List.nodup_append.mp part.nodup).1
      rw [hfree] at hnodup
      have hlt : ∀ i ∈ a :: free, i < 2 ^ 16 := fun i hi =>
        (part.lt_num (List.mem_append_left _ (hfree ▸ hi))).trans part.num_lt
      have hbound : free.length + 1 < 2 ^ 32 := by
        have hlength := part.partition.length_eq
        rw [hfree, List.length_append, List.length_range, List.length_cons] at hlength
        have := part.num_lt
        omega
      obtain ⟨vq', hplace, placed⟩ :=
        placeElements_spec hpath hnodup hlt hcount hbound hne (by omega)
      have hlists := part.place hfree hpos placed
      have hcallbacks : vq'.callbacks = vq.callbacks := (congrArg SplitVQ.callbacks placed.rings_eq :)
      have hidx : vq'.availableIdx = vq.availableIdx :=
        (congrArg SplitVQ.availableIdx placed.rings_eq :)
      have hnum := num_eq_of_rings placed.rings_eq
      obtain ⟨table, i, hinsert, wf', rep'⟩ := QueueInv.insert inv.table inv.represents
        (List.nodup_cons.mp hlists.heads_nodup).1 cb
      rw [← hcallbacks] at hinsert
      refine Or.inr ⟨{ vq' with callbacks := table }.placeAvailable a, ?_, ?_, ?_, ?_⟩
      · rw [hplace]
        simp only [hinsert, Option.bind_some, if_true]
      · have hhead : ({ vq' with callbacks := table }.placeAvailable a).availableEntries
            (vq.availableIdx % vq.num) = a := by
          rw [← hidx, ← hnum]
          exact update_self _ _ _
        rw [hhead]
        exact ⟨⟨hlists.num_lt, hlists.next_lt, hlists.freePath, hlists.requestPath,
          hlists.partition, hlists.free_eq⟩, wf', rep'⟩
      · exact ⟨hnum, (congrArg SplitVQ.usedIdx placed.rings_eq :),
          (congrArg SplitVQ.usedEntries placed.rings_eq :)⟩
      · exact (congrArg SplitVQ.lastSeenUsedIdx placed.rings_eq :)

/-- **A used entry** that names a request in flight: its callback is invoked and
its descriptors go back. -/
theorem processEntry_spec (inv : QueueInv hash vq inFlight) {request : Request Callback}
    (hmem : request ∈ inFlight) (hid : vq.usedEntry.id = request.head) :
    ∃ vq', vq.processEntry hash =
        some (vq', ⟨request.head, vq.usedEntry.length, request.callback⟩) ∧
      QueueInv hash vq' (inFlight.eraseP fun other => other.head == request.head) ∧
      SameUsed vq vq' ∧ vq'.lastSeenUsedIdx = (vq.lastSeenUsedIdx + 1) % 2 ^ 32 := by
  have hheads := inv.lists.heads_nodup
  have hhead : request.head ∈ inFlight.map Request.head := List.mem_map_of_mem hmem
  have hlt := inv.lists.head_lt hhead
  have hnum := inv.lists.num_lt
  have hcallback : callbackMap inFlight request.head = some request.callback :=
    (callbackMap_eq_some_iff hheads).mpr ⟨request, hmem, rfl, rfl⟩
  have hpresent : vq.callbacks.Present request.head :=
    inv.represents.present_iff.mpr ⟨_, hcallback⟩
  obtain ⟨table, hextract, wf', rep'⟩ :=
    extract_spec inv.table (natHash_respects hash) inv.represents (Or.inr hpresent)
  have part := inv.lists.perm (perm_erase_head hhead)
  have hpath := inv.lists.requestPath _ hhead
  have hchain : vq.requestChain request.head ≠ [] := List.ne_nil_of_mem (part.head_mem (by simp))
  obtain ⟨init, last, hsplit⟩ : ∃ init last, vq.requestChain request.head = init ++ [last] :=
    ⟨_, _, (List.dropLast_append_getLast hchain).symm⟩
  have hlength := part.partition.length_eq
  rw [List.flatMap_cons, hsplit] at hlength
  simp only [List.length_append, List.length_range, List.length_cons, List.length_nil]
    at hlength
  rw [hsplit] at hpath
  have hend := chainEnd_of_path init request.head last vq.num 1 hpath
    (fun i hi => inv.lists.lt_num (List.mem_append_right _
      (List.mem_flatMap.mpr ⟨_, hhead, hsplit ▸ hi⟩))) (by omega)
  have hcount : (vq.freeDescriptors + (1 + init.length)) % 2 ^ 32 =
      vq.freeDescriptors + (init.length + 1) := by
    rw [Nat.mod_eq_of_lt (by have := part.free_eq; omega)]
    omega
  have hdone := part.complete hsplit hcount
  refine ⟨{ vq.release request.head last ((vq.freeDescriptors + (1 + init.length)) % 2 ^ 32) with
    callbacks := table
    lastSeenUsedIdx := (vq.lastSeenUsedIdx + 1) % 2 ^ 32 }, ?_, ⟨⟨hdone.num_lt, hdone.next_lt,
      hdone.freePath, hdone.requestPath, hdone.partition, hdone.free_eq⟩, wf', ?_⟩,
      ⟨rfl, rfl, rfl⟩, rfl⟩
  · have hkey : request.head % 2 ^ 16 = request.head := Nat.mod_eq_of_lt (hlt.trans hnum)
    simp only [processEntry, hid, hkey, hextract, hend, hcallback, Option.bind_some,
      Option.map_some, Option.join_some]
    rfl
  · rw [callbackMap_erase hheads]
    exact rep'

/-! ## The used ring -/

/-- The queue of `n` descriptors, and the used ring between the driver's counter
and the device's index. -/
structure RunInv (hash : ℕ → ℕ) (n : ℕ) (run : RunState Callback) : Prop where
  queue : QueueInv hash run.queue run.inFlight
  num_eq : run.queue.num = n
  inOrder : run.handled <+: run.published
  seen : run.queue.lastSeenUsedIdx = run.handled.length
  index : run.queue.usedIdx = run.published.length
  short : run.published.length < 2 ^ 16
  entries : ∀ (p : ℕ) (done : Completion Callback), run.pending[p]? = some done →
    run.queue.usedEntries ((run.handled.length + p) % run.queue.num) = ⟨done.id, done.length⟩
  owned : ∀ done ∈ run.pending, callbackMap run.inFlight done.id = some done.callback
  distinct : (run.pending.map Completion.id).Nodup

namespace RunInv

variable {n : ℕ}

theorem published_eq (inv : RunInv hash n run) :
    run.published = run.handled ++ run.pending :=
  (List.prefix_iff_eq_append.mp inv.inOrder).symm

theorem pending_length (inv : RunInv hash n run) :
    run.handled.length + run.pending.length = run.published.length := by
  rw [inv.published_eq, List.length_append]

theorem seen_eq_index_iff (inv : RunInv hash n run) :
    run.queue.lastSeenUsedIdx = run.queue.usedIdx ↔ run.pending = [] := by
  have := inv.pending_length
  rw [inv.seen, inv.index, ← List.length_eq_zero_iff]
  omega

theorem exists_request (inv : RunInv hash n run) {done : Completion Callback}
    (h : done ∈ run.pending) :
    ∃ request ∈ run.inFlight, request.head = done.id ∧ request.callback = done.callback :=
  (callbackMap_eq_some_iff inv.queue.lists.heads_nodup).mp (inv.owned done h)

theorem length_le_num {ids : List ℕ} (inv : RunInv hash n run) (hnodup : ids.Nodup)
    (hheads : ∀ id ∈ ids, id ∈ run.inFlight.map Request.head) :
    ids.length ≤ run.queue.num := by
  have hsub : ids ⊆ List.range run.queue.num := fun id hid =>
    List.mem_range.mpr (inv.queue.lists.head_lt (hheads id hid))
  have hle := (List.subperm_of_subset hnodup hsub).length_le
  rwa [List.length_range] at hle

theorem slot_ne {num base p q : ℕ} (hpq : p < q) (hq : q < num) :
    (base + p) % num ≠ (base + q) % num := by
  intro h
  have hzero := Nat.sub_mod_eq_zero_of_mod_eq h.symm
  rw [show base + q - (base + p) = q - p by omega, Nat.mod_eq_of_lt (by omega)] at hzero
  omega

/-- **The driver handles the oldest pending entry.** -/
theorem handle (inv : RunInv hash n run) {done : Completion Callback}
    {rest : List (Completion Callback)} (hpending : run.pending = done :: rest) :
    ∃ vq', run.queue.processEntry hash = some (vq', done) ∧
      RunInv hash n (RunState.settle { run with queue := vq' } done) ∧
      (RunState.settle { run with queue := vq' } done).pending = rest := by
  have hentry : run.queue.usedEntry = ⟨done.id, done.length⟩ := by
    have := inv.entries 0 done (by rw [hpending]; rfl)
    rw [usedEntry, inv.seen]
    exact this
  have hmem : done ∈ run.pending := by
    rw [hpending]
    exact List.mem_cons_self
  obtain ⟨request, hrequest, hhead, hcallback⟩ := inv.exists_request hmem
  obtain ⟨vq', hprocess, hqueue, hused, hseen⟩ :=
    processEntry_spec inv.queue hrequest (by rw [hentry, hhead])
  rw [hentry, hhead, hcallback] at hprocess
  rw [hhead] at hqueue
  have hpublished := inv.published_eq
  rw [hpending] at hpublished
  have hsplit : run.published = (run.handled ++ [done]) ++ rest := by
    rw [hpublished, List.append_assoc]
    rfl
  have hpending' : (RunState.settle { run with queue := vq' } done).pending = rest := by
    show run.published.drop (run.handled ++ [done]).length = rest
    rw [hsplit, List.drop_left]
  have hdistinct := inv.distinct
  rw [hpending, List.map_cons, List.nodup_cons] at hdistinct
  have hlength := inv.pending_length
  rw [hpending, List.length_cons] at hlength
  refine ⟨vq', hprocess, ⟨hqueue, hused.num_eq.trans inv.num_eq, ?_, ?_, ?_, inv.short, ?_, ?_, ?_⟩, hpending'⟩
  · exact ⟨rest, hsplit.symm⟩
  · show vq'.lastSeenUsedIdx = (run.handled ++ [done]).length
    have := inv.short
    rw [hseen, inv.seen, List.length_append, List.length_singleton]
    exact Nat.mod_eq_of_lt (by omega)
  · exact hused.idx_eq.trans inv.index
  · intro p other hother
    rw [hpending'] at hother
    show vq'.usedEntries (((run.handled ++ [done]).length + p) % vq'.num) = _
    rw [hused.entries_eq, hused.num_eq, List.length_append, List.length_singleton, Nat.add_assoc,
      Nat.add_comm 1 p]
    exact inv.entries (p + 1) other (by rw [hpending]; exact hother)
  · intro other hother
    rw [hpending'] at hother
    show callbackMap (run.inFlight.eraseP fun request => request.head == done.id) other.id = _
    have hne : other.id ≠ done.id := fun h => hdistinct.1 (h ▸ List.mem_map_of_mem hother)
    rw [callbackMap_erase inv.queue.lists.heads_nodup, RefMap.update,
      if_neg (by simpa using hne)]
    exact inv.owned other (by rw [hpending]; exact List.mem_cons_of_mem _ hother)
  · rw [hpending']
    exact hdistinct.2

/-- **`process_used`** handles the pending entries, in order, and no other. -/
theorem processUsed : ∀ (fuel : ℕ) (run : RunState Callback), RunInv hash n run →
    run.pending.length < fuel →
    ∃ vq', run.queue.processUsed hash fuel = some (vq', run.pending) ∧
      RunInv hash n (run.pending.foldl RunState.settle { run with queue := vq' }) ∧
      vq'.lastSeenUsedIdx = run.queue.usedIdx ∧ vq'.usedIdx = run.queue.usedIdx := by
  intro fuel
  induction fuel with
  | zero => exact fun run _ h => absurd h (Nat.not_lt_zero _)
  | succ fuel ih =>
      intro run inv hfuel
      unfold SplitVQ.processUsed
      cases hpending : run.pending with
      | nil =>
          have heq := inv.seen_eq_index_iff.mpr hpending
          rw [if_neg (by simpa using heq)]
          exact ⟨run.queue, rfl, inv, heq, rfl⟩
      | cons done rest =>
          have hne : run.queue.lastSeenUsedIdx ≠ run.queue.usedIdx := fun h => by
            rw [inv.seen_eq_index_iff.mp h] at hpending
            cases hpending
          obtain ⟨vq', hprocess, hinv, hrest⟩ := inv.handle hpending
          rw [hpending, List.length_cons] at hfuel
          obtain ⟨vq'', hloop, hinv', hseen, hidx⟩ := ih _ hinv (by rw [hrest]; omega)
          rw [hrest] at hloop hinv'
          have hsame : vq'.usedIdx = run.queue.usedIdx := hinv.index.trans inv.index.symm
          refine ⟨vq'', ?_, hinv', hseen.trans hsame, hidx.trans hsame⟩
          have hloop' : vq'.processUsed hash fuel = some (vq'', rest) := hloop
          rw [if_pos hne, hprocess, Option.bind_some, hloop']
          rfl

/-- **The device publishes** the head of a request. -/
theorem publish (inv : RunInv hash n run) {id : ℕ} (length : ℕ)
    (hin : ∃ request ∈ run.inFlight, request.head = id)
    (hnew : ∀ done ∈ run.pending, done.id ≠ id)
    (hshort : run.published.length + 1 < 2 ^ 16) :
    RunInv hash n { run with
      queue := run.queue.publish id length
      published := run.published ++ [⟨id, length, (run.callbackOf id).join⟩] } := by
  obtain ⟨request, hmem, hhead⟩ := hin
  have hcallback : callbackMap run.inFlight id = some request.callback :=
    (callbackMap_eq_some_iff inv.queue.lists.heads_nodup).mpr ⟨request, hmem, hhead, rfl⟩
  have hjoin : (run.callbackOf id).join = request.callback := by
    have : run.callbackOf id = some request.callback := hcallback
    rw [this, Option.join_some]
  rw [hjoin]
  set run' : RunState Callback := { run with
    queue := run.queue.publish id length
    published := run.published ++ [⟨id, length, request.callback⟩] } with hrun'
  have hhandled := inv.pending_length
  have hpending : run'.pending = run.pending ++ [⟨id, length, request.callback⟩] := by
    show (run.published ++ [_]).drop run.handled.length = _
    rw [List.drop_append_of_le_length (by omega)]
    rfl
  have hnodup : (run.pending.map Completion.id ++ [id]).Nodup := by
    refine List.nodup_append.mpr ⟨inv.distinct, List.nodup_singleton id, ?_⟩
    intro other hother new hid hsame
    rw [List.mem_singleton] at hid
    obtain ⟨done, hdone, rfl⟩ := List.mem_map.mp hother
    exact hnew done hdone (hsame.trans hid)
  have hroom : run.pending.length + 1 ≤ run.queue.num := by
    have hle := inv.length_le_num hnodup (by
      intro other hother
      rcases List.mem_append.mp hother with hother | hother
      · obtain ⟨done, hdone, rfl⟩ := List.mem_map.mp hother
        obtain ⟨owner, howner, howns, -⟩ := inv.exists_request hdone
        exact howns ▸ List.mem_map_of_mem howner
      · rw [List.mem_singleton.mp hother, ← hhead]
        exact List.mem_map_of_mem hmem)
    simpa using hle
  refine ⟨⟨⟨inv.queue.lists.num_lt, inv.queue.lists.next_lt, inv.queue.lists.freePath,
    inv.queue.lists.requestPath, inv.queue.lists.partition, inv.queue.lists.free_eq⟩,
    inv.queue.table, inv.queue.represents⟩, inv.num_eq, inv.inOrder.trans (List.prefix_append _ _), inv.seen,
    ?_, ?_, ?_, ?_, ?_⟩
  · show (run.queue.usedIdx + 1) % 2 ^ 16 = (run.published ++ [_]).length
    rw [inv.index, List.length_append, List.length_singleton]
    exact Nat.mod_eq_of_lt hshort
  · show (run.published ++ [_]).length < 2 ^ 16
    rw [List.length_append, List.length_singleton]
    exact hshort
  · intro p done hdone
    rw [hpending] at hdone
    show update run.queue.usedEntries (run.queue.usedIdx % run.queue.num) ⟨id, length⟩
      ((run.handled.length + p) % run.queue.num) = _
    rw [inv.index, ← hhandled]
    rcases Nat.lt_or_ge p run.pending.length with hp | hp
    · rw [List.getElem?_append_left hp] at hdone
      rw [update_of_ne (slot_ne hp (by omega))]
      exact inv.entries p done hdone
    · rw [List.getElem?_append_right hp] at hdone
      have hlast : p - run.pending.length = 0 := by
        by_contra hne
        rw [List.getElem?_eq_none (by simp only [List.length_singleton]; omega)] at hdone
        cases hdone
      rw [hlast, List.getElem?_cons_zero, Option.some_inj] at hdone
      have hp' : p = run.pending.length := by omega
      rw [hp', update_self, ← hdone]
  · intro done hdone
    rw [hpending] at hdone
    rcases List.mem_append.mp hdone with hdone | hdone
    · exact inv.owned done hdone
    · rw [List.mem_singleton.mp hdone]
      exact hcallback
  · rw [hpending, List.map_append]
    exact hnodup

end RunInv

end BekOS.SplitVQ
