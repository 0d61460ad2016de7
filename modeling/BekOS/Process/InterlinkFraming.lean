import BekOS.Process.InterlinkOutcomes

/-!
# Where a message ends

Messages are told apart by the final record of each.  Which record is final is worked out
from the number of items that the header announces; but an item of an unknown kind leaves
no record, and a message without items leaves none at all.
-/

namespace BekOS

/-! ## The messages in a queue -/

/-- The messages that receives find in a queue: each ends with a final record, but for the
last of them where the records run out. -/
def messagesOf : List QueuedMessage → List (List QueuedMessage)
  | [] => []
  | item :: rest =>
      if item.isFinal then [item] :: messagesOf rest
      else
        match messagesOf rest with
        | [] => [[item]]
        | first :: others => (item :: first) :: others

/-- No record says that a message ends. -/
def Unfinished (items : List QueuedMessage) : Prop := ∀ item ∈ items, item.isFinal = false

/-- The last record is final. -/
def Finished (items : List QueuedMessage) : Prop :=
  ∀ last ∈ items.getLast?, last.isFinal = true

/-- The last record is final, and only that. -/
def OneMessage (items : List QueuedMessage) : Prop :=
  ∃ init last, items = init ++ [last] ∧ Unfinished init ∧ last.isFinal = true

section Messages

variable {items later message : List QueuedMessage}

theorem messagesOf_cons (item : QueuedMessage) (rest : List QueuedMessage) :
    messagesOf (item :: rest) =
      if item.isFinal then [item] :: messagesOf rest
      else
        match messagesOf rest with
        | [] => [[item]]
        | first :: others => (item :: first) :: others := rfl

theorem messagesOf_eq_nil : messagesOf items = [] ↔ items = [] := by
  cases items with
  | nil => exact iff_of_true rfl rfl
  | cons item rest =>
      refine iff_of_false ?_ nofun
      rw [messagesOf]
      split_ifs
      · exact nofun
      · cases messagesOf rest <;> exact nofun

theorem messagesOf_unfinished (h : Unfinished items) (hne : items ≠ []) :
    messagesOf items = [items] := by
  induction items with
  | nil => exact absurd rfl hne
  | cons item rest ih =>
      obtain ⟨hfirst, hrest⟩ := List.forall_mem_cons.mp h
      rw [messagesOf, hfirst]
      rcases rest with _ | ⟨next, rest⟩
      · rfl
      · rw [ih hrest nofun]
        rfl

theorem messagesOf_oneMessage (h : OneMessage message) (later : List QueuedMessage) :
    messagesOf (message ++ later) = message :: messagesOf later := by
  obtain ⟨init, last, rfl, hinit, hlast⟩ := h
  induction init with
  | nil => rw [List.nil_append, List.singleton_append, messagesOf, hlast]; rfl
  | cons item init ih =>
      obtain ⟨hfirst, hrest⟩ := List.forall_mem_cons.mp hinit
      rw [List.cons_append, List.cons_append, messagesOf, hfirst, ih hrest]
      rfl

theorem messagesOf_unfinished_append {first : List QueuedMessage}
    {others : List (List QueuedMessage)} (h : Unfinished items)
    (hlater : messagesOf later = first :: others) :
    messagesOf (items ++ later) = (items ++ first) :: others := by
  induction items with
  | nil => exact hlater
  | cons item rest ih =>
      obtain ⟨hfirst, hrest⟩ := List.forall_mem_cons.mp h
      rw [List.cons_append, messagesOf, hfirst, ih hrest]
      rfl

theorem finished_nil : Finished [] := nofun

@[simp] theorem finished_concat {last : QueuedMessage} :
    Finished (items ++ [last]) ↔ last.isFinal = true := by
  simp [Finished]

theorem OneMessage.not_unfinished (h : OneMessage message) : ¬ Unfinished message := by
  obtain ⟨init, last, rfl, -, hlast⟩ := h
  intro hunfinished
  rw [hunfinished last (List.mem_append_right _ (List.mem_singleton_self last))] at hlast
  cases hlast

theorem messagesOf_append (h : Finished items) (later : List QueuedMessage) :
    messagesOf (items ++ later) = messagesOf items ++ messagesOf later := by
  induction items with
  | nil => rfl
  | cons item rest ih =>
      rcases rest with _ | ⟨next, rest⟩
      · have hfinal : item.isFinal = true := h item rfl
        rw [List.cons_append, messagesOf, messagesOf, hfinal]
        rfl
      · have hrest : Finished (next :: rest) := fun last hlast =>
          h last (by rwa [List.getLast?_cons_cons])
        rw [List.cons_append, messagesOf_cons, ih hrest, messagesOf_cons item (next :: rest)]
        split_ifs
        · rfl
        · cases hfound : messagesOf (next :: rest) with
          | nil => exact absurd (messagesOf_eq_nil.mp hfound) nofun
          | cons first others => rfl

theorem exists_unfinished (h : ¬ Finished items) :
    ∃ init tail, items = init ++ tail ∧ Finished init ∧ Unfinished tail ∧ tail ≠ [] := by
  induction items using List.reverseRecOn with
  | nil => exact absurd finished_nil h
  | append_singleton items last ih =>
      have hlast : last.isFinal = false := by
        rw [finished_concat] at h
        exact Bool.not_eq_true _ ▸ h
      by_cases hitems : Finished items
      · exact ⟨items, [last], rfl, hitems, List.forall_mem_singleton.mpr hlast, nofun⟩
      · obtain ⟨init, tail, rfl, hinit, htail, -⟩ := ih hitems
        refine ⟨init, tail ++ [last], List.append_assoc .., hinit, ?_, List.concat_ne_nil _ _⟩
        exact List.forall_mem_append.mpr ⟨htail, List.forall_mem_singleton.mpr hlast⟩

/-- **One message is added**, whatever comes later, exactly when the queue was finished and
the records are one message. -/
theorem messagesOf_adds_iff {before records : List QueuedMessage}
    (h : OneMessage records ∨ Unfinished records) :
    (∀ later, messagesOf (before ++ records ++ later) =
        messagesOf before ++ records :: messagesOf later) ↔
      Finished before ∧ OneMessage records := by
  constructor
  · intro hadds
    have hbefore : Finished before := by
      by_contra hopen
      obtain ⟨init, tail, rfl, hinit, htail, hne⟩ := exists_unfinished hopen
      have hone : ∃ message, messagesOf (tail ++ records) = [message] := by
        rcases h with hmessage | hunfinished
        · have hfirst := messagesOf_oneMessage hmessage []
          rw [List.append_nil] at hfirst
          exact ⟨_, messagesOf_unfinished_append htail hfirst⟩
        · exact ⟨_, messagesOf_unfinished (List.forall_mem_append.mpr ⟨htail, hunfinished⟩)
            (List.append_ne_nil_of_left_ne_nil hne _)⟩
      obtain ⟨message, hmessage⟩ := hone
      have hboth := hadds []
      rw [List.append_nil, List.append_assoc, messagesOf_append hinit, hmessage,
        messagesOf_append hinit, messagesOf_unfinished htail hne] at hboth
      have hlength := congrArg List.length hboth
      simp [messagesOf] at hlength
    refine ⟨hbefore, h.resolve_right fun hunfinished => ?_⟩
    have hboth := hadds [.movedFrom]
    have hrest : messagesOf (records ++ [.movedFrom]) = [records ++ [.movedFrom]] :=
      messagesOf_unfinished (List.forall_mem_append.mpr
        ⟨hunfinished, List.forall_mem_singleton.mpr rfl⟩) (List.concat_ne_nil _ _)
    rw [List.append_assoc, messagesOf_append hbefore, hrest] at hboth
    have hlength := congrArg List.length hboth
    simp [messagesOf] at hlength
  · rintro ⟨hbefore, hmessage⟩ later
    rw [List.append_assoc, messagesOf_append hbefore, messagesOf_oneMessage hmessage]

theorem flatten_messagesOf (items : List QueuedMessage) : (messagesOf items).flatten = items := by
  induction items with
  | nil => rfl
  | cons item rest ih =>
      rw [messagesOf_cons]
      split_ifs
      · rw [List.flatten_cons, ih]
        rfl
      · cases hfound : messagesOf rest with
        | nil => rw [messagesOf_eq_nil.mp hfound]; rfl
        | cons first others =>
            rw [← ih, hfound]
            rfl

theorem scanQueue_eq {first : List QueuedMessage} {others : List (List QueuedMessage)}
    (h : messagesOf items = first :: others) (found : NextMessage) :
    ∃ last ∈ first.getLast?, scanQueue items found =
      { payloadItems := (found.payloadItems + first.length) % 0x100000000
        totalDataSize := u64 (found.totalDataSize + (first.map QueuedMessage.dataSize).sum)
        messageId := last.messageId } := by
  induction items generalizing found first others with
  | nil => cases h
  | cons item rest ih =>
      rw [messagesOf_cons] at h
      rw [scanQueue]
      by_cases hfinal : item.isFinal
      · rw [if_pos hfinal] at h ⊢
        cases h
        exact ⟨item, rfl, rfl⟩
      · rw [if_neg hfinal] at h ⊢
        cases hrest : messagesOf rest with
        | nil =>
            rw [hrest] at h
            cases h
            rw [messagesOf_eq_nil.mp hrest]
            exact ⟨item, rfl, rfl⟩
        | cons next others =>
            rw [hrest] at h
            cases h
            obtain ⟨last, hlast, hscan⟩ := ih hrest
              { payloadItems := (found.payloadItems + 1) % 0x100000000
                totalDataSize := u64 (found.totalDataSize + item.dataSize)
                messageId := item.messageId }
            refine ⟨last, List.mem_getLast?_cons hlast, hscan.trans ?_⟩
            rw [List.map_cons, List.sum_cons, List.length_cons]
            unfold u64
            dsimp only
            rw [Nat.mod_add_mod, Nat.mod_add_mod, Nat.add_assoc, Nat.add_comm 1, Nat.add_assoc]

/-- **The next message** is the first one. -/
theorem nextMessage_oneMessage (h : OneMessage message) (hlength : message.length < 0x100000000)
    {messageId : ℕ} (hid : ∀ item ∈ message, item.messageId = messageId)
    (later : List QueuedMessage) :
    nextMessage (message ++ later) =
      { payloadItems := message.length
        totalDataSize := u64 (message.map QueuedMessage.dataSize).sum
        messageId := messageId } := by
  obtain ⟨last, hlast, hscan⟩ := scanQueue_eq (messagesOf_oneMessage h later) ⟨0, 0, 0⟩
  rw [nextMessage, hscan]
  dsimp only
  rw [Nat.zero_add, Nat.zero_add, Nat.mod_eq_of_lt hlength, hid last (List.mem_of_getLast? hlast)]

end Messages

/-! ## The records of a send -/

/-- Items of this kind are queued. -/
def PayloadItem.known : PayloadItem → Bool
  | .data _ _ | .fd _ | .memory _ _ _ _ => true
  | .unknown _ => false

section Records

variable {σ : Type} {sender : UserspaceState σ} {blocking : Bool} {count messageId : ℕ}

theorem itemFate_known {size : ℕ} {ring : RingBuffer} {item : PayloadItem} {fate : ItemFate}
    (h : fate = itemFate sender blocking size ring item) :
    (fate = .skipped → item.known = false) ∧ ∀ content, fate = .queued content →
      item.known = true := by
  cases item with
  | data offset len =>
      refine ⟨fun hskipped => ?_, fun _ _ => rfl⟩
      rw [h] at hskipped
      unfold itemFate at hskipped
      dsimp only at hskipped
      split_ifs at hskipped
  | fd fd =>
      refine ⟨fun hskipped => ?_, fun _ _ => rfl⟩
      rw [h] at hskipped
      unfold itemFate at hskipped
      dsimp only at hskipped
      cases hopen : getOpenEntity sender.openEntities fd <;> rw [hopen] at hskipped <;>
        cases hskipped
  | memory ptr size canRead canWrite =>
      refine ⟨fun hskipped => ?_, fun _ _ => rfl⟩
      rw [h] at hskipped
      unfold itemFate at hskipped
      dsimp only at hskipped
      cases hshare : shareableMemory sender.addressSpaceManager.regions ptr size
        (allowedOps canRead canWrite) <;> rw [hshare] at hskipped <;> cases hskipped
  | unknown kind =>
      subst h
      exact ⟨fun _ => rfl, fun _ hqueued => nomatch hqueued⟩

/-- The rounds of a send that goes through. -/
inductive GoesThrough : List Round → Prop
  | nil : GoesThrough []
  | queued {item : PayloadItem} {content : QueuedContent} {later : List Round}
      (known : item.known = true) (rest : GoesThrough later) :
      GoesThrough ((item, .queued content) :: later)
  | skipped {item : PayloadItem} {later : List Round} (unknown : item.known = false)
      (rest : GoesThrough later) : GoesThrough ((item, .skipped) :: later)

theorem rounds_goesThrough (remaining : ℕ) :
    ∀ {i : ℕ} {buffer : UserBuffer} {ring : RingBuffer},
      ItemFate.ending (rounds sender blocking remaining i buffer ring) = .ok (.ok ()) →
      (rounds sender blocking remaining i buffer ring).length = remaining ∧
        GoesThrough (rounds sender blocking remaining i buffer ring) := by
  induction remaining with
  | zero => exact fun _ => ⟨rfl, .nil⟩
  | succ remaining ih =>
      intro i buffer ring h
      rw [rounds] at h ⊢
      have hknown := @itemFate_known _ sender blocking buffer.size ring
        (buffer.accessed.item i) _ rfl
      cases hfate : itemFate sender blocking buffer.size ring (buffer.accessed.item i) with
      | queued content =>
          rw [hfate] at h hknown
          obtain ⟨hlength, hthrough⟩ := ih h
          exact ⟨congrArg (· + 1) hlength, .queued (hknown.2 content rfl) hthrough⟩
      | skipped =>
          rw [hfate] at h hknown
          obtain ⟨hlength, hthrough⟩ := ih h
          exact ⟨congrArg (· + 1) hlength, .skipped (hknown.1 rfl) hthrough⟩
      | refused code =>
          rw [hfate] at h
          cases h
      | halted halt =>
          rw [hfate] at h
          cases h

/-- The last item is of a known kind, and there is one. -/
def LastKnown (done : List Round) : Prop := ∃ last ∈ done.getLast?, last.1.known = true

theorem lastKnown_cons {first next : Round} {rest : List Round} :
    LastKnown (first :: next :: rest) ↔ LastKnown (next :: rest) := by
  unfold LastKnown
  rw [List.getLast?_cons_cons]

/-- **The records of a send** are one message, or they do not end. -/
theorem GoesThrough.records {done : List Round} (h : GoesThrough done) {i : ℕ}
    (hcount : i + done.length = count) :
    (LastKnown done → OneMessage (ItemFate.records count messageId i done)) ∧
      (¬ LastKnown done → Unfinished (ItemFate.records count messageId i done)) := by
  induction h generalizing i with
  | nil =>
      refine ⟨fun hlast => ?_, fun _ record hrecord => ?_⟩
      · obtain ⟨_, hlast, -⟩ := hlast
        cases hlast
      · cases hrecord
  | @queued item content later known rest ih =>
      rcases later with _ | ⟨next, later⟩
      · have hfinal : (i + 1 == count) = true := beq_iff_eq.mpr hcount
        refine ⟨fun _ => ⟨[], _, rfl, List.forall_mem_nil _, hfinal⟩, fun hunknown => ?_⟩
        exact absurd ⟨_, rfl, known⟩ hunknown
      · rw [List.length_cons, ← Nat.add_assoc, Nat.add_right_comm] at hcount
        have hlater := ih (i := i + 1) hcount
        have hfinal : (i + 1 == count) = false := by
          rw [beq_eq_false_iff_ne, ← hcount, List.length_cons]
          omega
        rw [lastKnown_cons, ItemFate.records]
        refine ⟨fun hlast => ?_, fun hlast => List.forall_mem_cons.mpr ⟨hfinal, hlater.2 hlast⟩⟩
        obtain ⟨init, last, hrecords, hinit, hislast⟩ := hlater.1 hlast
        exact ⟨_ :: init, last, by rw [hrecords]; rfl, List.forall_mem_cons.mpr ⟨hfinal, hinit⟩,
          hislast⟩
  | @skipped item later unknown rest ih =>
      rcases later with _ | ⟨next, later⟩
      · refine ⟨fun hlast => ?_, fun _ record hrecord => ?_⟩
        · obtain ⟨last, hlast, hknown⟩ := hlast
          cases hlast
          exact absurd hknown (Bool.eq_false_iff.mp unknown)
        · cases hrecord
      · rw [List.length_cons, ← Nat.add_assoc, Nat.add_right_comm] at hcount
        rw [lastKnown_cons]
        exact ih hcount

theorem messageId_of_mem_records {done : List Round} {i : ℕ} {record : QueuedMessage}
    (h : record ∈ ItemFate.records count messageId i done) : record.messageId = messageId := by
  induction done generalizing i with
  | nil => cases h
  | cons round later ih =>
      obtain ⟨item, _ | _ | _ | _⟩ := round
      · rcases List.mem_cons.mp h with rfl | hlater
        · rfl
        · exact ih hlater
      · exact ih h
      · cases h
      · cases h

theorem length_records_le (done : List Round) (i : ℕ) :
    (ItemFate.records count messageId i done).length ≤ done.length := by
  induction done generalizing i with
  | nil => exact Nat.le_refl _
  | cons round later ih =>
      obtain ⟨item, _ | _ | _ | _⟩ := round
      · exact Nat.succ_le_succ (ih (i + 1))
      · exact Nat.le_succ_of_le (ih (i + 1))
      · exact Nat.zero_le _
      · exact Nat.zero_le _

end Records

/-! ## One message is appended -/

/-- The header in a buffer. -/
def UserBuffer.header (buffer : UserBuffer) : MessageHeader :=
  .ofMemory (copyRange (fun _ => 0) 0 buffer.bytes 0 headerSize)

/-- One message has been appended: receives find it behind those that were there, whatever
comes later, and they find it under its number and with all its records. -/
structure Appends (before after : List QueuedMessage) (messageId : ℕ)
    (message : List QueuedMessage) : Prop where
  after_eq : after = before ++ message
  messages_eq : ∀ later,
    messagesOf (after ++ later) = messagesOf before ++ message :: messagesOf later
  next_eq : ∀ later, (nextMessage (message ++ later)).payloadItems = message.length ∧
    (nextMessage (message ++ later)).messageId = messageId

section Appends

variable {σ : Type} {sender : UserspaceState σ} {blocking : Bool} {sending sending' : Sending}
  {totalDataSize : ℕ}

/-- **A send that succeeds** appends one message exactly when no earlier one is unfinished
and the last item that it queues from is of a known kind. -/
theorem writeToQueue_appends_iff (ok : sending.queue.Ok)
    (h : writeToQueue sender blocking sending = .ok (sending', .ok totalDataSize)) :
    (∃ message, Appends sending.queue.messageQueue.items sending'.queue.messageQueue.items
        sending.buffer.accessed.header.messageId message) ↔
      Finished sending.queue.messageQueue.items ∧
        LastKnown (secondPass sender blocking sending.buffer.accessed.header
          (firstPass blocking sending).1 sending.queue.binaryQueue) := by
  have hsends := writeToQueue_sends sender blocking ok.ring
  rw [h] at hsends
  cases hsends with
  | sent first second queued =>
      rename_i buffer header
      have hheader : sending.buffer.accessed.header = header := (firstPass_ok first).header_eq.symm
      rw [hheader, first]
      obtain ⟨hlength, hthrough⟩ := rounds_goesThrough header.payloadItemCount second
      have hrecords := @GoesThrough.records _ header.messageId _ hthrough 0
        ((Nat.zero_add _).trans hlength)
      have heither := (em (LastKnown _)).imp hrecords.1 hrecords.2
      have hitems := queued.items_eq
      constructor
      · rintro ⟨message, hafter, hmessages, -⟩
        rw [hafter] at hitems hmessages
        rw [List.append_cancel_left hitems] at hmessages
        obtain ⟨hbefore, hone⟩ := (messagesOf_adds_iff heither).mp hmessages
        refine ⟨hbefore, ?_⟩
        by_contra hlast
        exact hone.not_unfinished (hrecords.2 hlast)
      · rintro ⟨hbefore, hlast⟩
        have hone := hrecords.1 hlast
        have hcount : header.payloadItemCount < 0x100000000 := by
          rw [← hheader]
          exact leRead_lt _ 8 4
        have hfew : (header.records (secondPass sender blocking header buffer
            sending.queue.binaryQueue)).length < 0x100000000 :=
          ((length_records_le _ _).trans_eq hlength).trans_lt hcount
        refine ⟨_, hitems, ?_, fun later => ?_⟩
        · rw [hitems]
          exact (messagesOf_adds_iff heither).mpr ⟨hbefore, hone⟩
        · have hnext := nextMessage_oneMessage hone hfew
            (fun _ => messageId_of_mem_records) later
          exact ⟨congrArg NextMessage.payloadItems hnext, congrArg NextMessage.messageId hnext⟩

end Appends

/-- Both items are data, the second of no length. -/
theorem writeToQueue_appends_data :
    ∃ sending', writeToQueue .bare false
        ⟨twoItems (.data 0 1) (.data 40 0) fun _ bytes => bytes, .new⟩ = .ok (sending', .ok 1) ∧
      ∃ message, Appends [] sending'.queue.messageQueue.items 7 message := by
  refine ⟨_, rfl, (@writeToQueue_appends_iff _ .bare false
    ⟨twoItems (.data 0 1) (.data 40 0) fun _ bytes => bytes, .new⟩ _ _
    MessageQueue.new_ok rfl).mpr ⟨finished_nil, ?_⟩⟩
  exact ⟨(.data 40 0, .queued (.data 0)), rfl, rfl⟩

/-- The last item is of a kind that there is not. -/
theorem writeToQueue_appends_fails :
    ∃ sending', writeToQueue .bare false
        ⟨twoItems (.data 0 1) (.unknown 9) fun _ bytes => bytes, .new⟩ = .ok (sending', .ok 1) ∧
      ¬ ∃ message, Appends [] sending'.queue.messageQueue.items 7 message := by
  refine ⟨_, rfl, ?_⟩
  rintro ⟨message, hafter, hmessages, -⟩
  have hrecords : [⟨.data 1, false, 7⟩] = [] ++ message := hafter
  rw [List.nil_append] at hrecords
  subst hrecords
  have hmerged : messagesOf [⟨.data 1, false, 7⟩, .movedFrom] =
    [⟨.data 1, false, 7⟩] :: messagesOf [.movedFrom] := hmessages [.movedFrom]
  revert hmerged
  decide

end BekOS
