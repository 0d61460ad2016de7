import BekOS.Process.InterlinkOutcomes

/-!
# Sends that fail

The first pass leaves the queue alone.  The second does not put back what it has queued
when it comes to an item that it cannot queue, and it trusts the bounds that the first has
checked although it reads them again.
-/

namespace BekOS

section Errors

variable {σ : Type} (sender : UserspaceState σ) (blocking : Bool) (sending : Sending)

/-! ## What has been queued before an error -/

/-- An item is refused after another has been queued. -/
def RefusedLate (done : List Round) : Prop :=
  (∃ item code, (item, ItemFate.refused code) ∈ done) ∧
    ∃ item content, (item, ItemFate.queued content) ∈ done

/-- **A send that fails** leaves the queue as it was, unless an item is refused after
another has been queued. -/
theorem writeToQueue_error_unchanged_iff (ok : sending.queue.Ok) :
    (∀ sending' code, writeToQueue sender blocking sending = .ok (sending', .error code) →
        sending'.queue = sending.queue) ↔
      ∀ buffer header totalDataSize,
        firstPass blocking sending = (buffer, .ok (header, totalDataSize)) →
        ¬ RefusedLate (secondPass sender blocking header buffer sending.queue.binaryQueue) := by
  have hsends := writeToQueue_sends sender blocking ok.ring
  constructor
  · rintro hunchanged buffer header totalDataSize hfirst ⟨⟨item, code, hrefused⟩, hqueued⟩
    have hstops : StopsLast
        (secondPass sender blocking header buffer sending.queue.binaryQueue) :=
      rounds_stopsLast _ _ _ _
    have hending := hstops.ending_eq_refused.mpr ⟨item, hrefused⟩
    generalize hout : writeToQueue sender blocking sending = out at hsends
    cases hsends with
    | rejected first => cases hfirst.symm.trans first
    | halted first second =>
        cases hfirst.symm.trans first
        cases hending.symm.trans second
    | sent first second queued =>
        cases hfirst.symm.trans first
        cases hending.symm.trans second
    | refused first second queued =>
        cases hfirst.symm.trans first
        have hitems := queued.items_eq
        rw [hunchanged _ _ hout] at hitems
        have hnil := List.self_eq_append_right.mp hitems
        exact hstops.records_eq_nil.mp hnil hqueued
  · intro hlate sending' code hout
    rw [hout] at hsends
    cases hsends with
    | rejected first => rfl
    | refused first second queued =>
        refine queued.unchanged (StopsLast.records_eq_nil (rounds_stopsLast _ _ _ _) |>.mpr ?_)
        obtain ⟨item, hrefused⟩ := (StopsLast.ending_eq_refused (rounds_stopsLast _ _ _ _)).mp second
        exact fun hqueued => hlate _ _ _ first ⟨⟨item, _, hrefused⟩, hqueued⟩

/-! ## Items that change between the passes -/

/-- The part of a buffer that an item names can be made a subset of it. -/
def PayloadItem.InBounds (size : ℕ) : PayloadItem → Prop
  | .data offset len => offset ≤ size ∧ u64 (offset + len) ≤ size
  | .fd _ | .memory _ _ _ _ | .unknown _ => True

variable {sender blocking}

theorem itemFate_eq_halted {size : ℕ} {ring : RingBuffer} {item : PayloadItem} {halt : Halt}
    (h : itemFate sender blocking size ring item = .halted halt) :
    halt = .spin ∨ ¬ item.InBounds size := by
  cases item with
  | data offset len =>
      by_cases hbounds : offset ≤ size ∧ u64 (offset + len) ≤ size
      · refine Or.inl ?_
        unfold itemFate at h
        dsimp only at h
        rw [if_neg (not_not_intro hbounds)] at h
        split_ifs at h
        cases h
        rfl
      · exact Or.inr hbounds
  | fd fd =>
      unfold itemFate at h
      dsimp only at h
      cases hopen : getOpenEntity sender.openEntities fd <;> rw [hopen] at h <;> cases h
  | memory ptr size canRead canWrite =>
      unfold itemFate at h
      dsimp only at h
      cases hshare : shareableMemory sender.addressSpaceManager.regions ptr size
        (allowedOps canRead canWrite) <;> rw [hshare] at h <;> cases h
  | unknown kind => cases h

theorem itemFate_of_not_inBounds {size : ℕ} {ring : RingBuffer} {item : PayloadItem}
    (h : ¬ item.InBounds size) :
    itemFate sender blocking size ring item = .halted (.fault .panic) := by
  cases item with
  | data offset len => exact if_pos h
  | fd fd => exact absurd trivial h
  | memory ptr size canRead canWrite => exact absurd trivial h
  | unknown kind => exact absurd trivial h

variable (sender blocking)

end Errors

/-- The handle, which is not open, comes first. -/
theorem writeToQueue_error_unchanged_fd_first :
    ∃ sending', writeToQueue .bare false
        ⟨twoItems (.fd 5) (.data 0 1) fun _ bytes => bytes, .new⟩ =
      .ok (sending', .error .EBADF) ∧ sending'.queue = .new := by
  refine ⟨_, rfl, (writeToQueue_error_unchanged_iff .bare false
    ⟨twoItems (.fd 5) (.data 0 1) fun _ bytes => bytes, .new⟩ MessageQueue.new_ok).mpr ?_ _ _ rfl⟩
  rintro buffer header totalDataSize hfirst ⟨-, item, content, hqueued⟩
  have hbuffer := congrArg Prod.fst hfirst
  have hpassed : Except.ok (⟨80, 2, 7⟩, 1) = Except.ok (header, totalDataSize) :=
    congrArg Prod.snd hfirst
  cases hpassed
  cases hbuffer
  have hsecond : (item, ItemFate.queued content) ∈ [(PayloadItem.fd 5, .refused .EBADF)] := hqueued
  simp at hsecond

/-- A byte is queued, and the handle after it is not open. -/
theorem writeToQueue_error_changes :
    ∃ sending', writeToQueue .bare false
        ⟨twoItems (.data 0 1) (.fd 5) fun _ bytes => bytes, .new⟩ =
      .ok (sending', .error .EBADF) ∧ sending'.queue ≠ .new := by
  refine ⟨_, rfl, fun h => ?_⟩
  have hitems := congrArg (fun queue => queue.messageQueue.items.length) h
  revert hitems
  decide

end BekOS
