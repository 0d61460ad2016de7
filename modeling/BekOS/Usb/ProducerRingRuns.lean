import BekOS.Usb.ProducerRing
import Mathlib.Data.List.ReduceOption

/-!
# Runs of `ProducerRing`

The entries that were written form one stream, in which the links are.  The driver's side of the
ring is laid out after it (`Laid`), and the controller has consumed a prefix of it (`Served`).  An
entry is live until it is consumed and its event is processed.  Where no live entry is more than a
lap old, a push leaves all of them alone.
-/

namespace BekOS.Usb

open CycleRing PartialRun Function

universe u

variable {κ : Type u}

/-! ## The driver's side -/

/-- The entries of the ring in the order in which they are written: blocks, or links. -/
abbrev Entries (κ : Type u) := List (Option (TRB × Option κ))

namespace Entries

/-- What is in the ring for the `n`th entry. -/
def entryTrb (base : BitVec 64) (n : ℕ) : Option (TRB × Option κ) → TRB
  | some block => block.1.setCycle (phase ringSize n)
  | none => linkTrb base (phase ringSize n)

/-- What is in the ring for the entries. -/
def laid (base : BitVec 64) (stream : Entries κ) : List TRB := stream.mapIdx (entryTrb base)

/-- The callback of the `n`th entry. -/
def callback (stream : Entries κ) (n : ℕ) : Option κ := stream[n]?.join.bind Prod.snd

variable {stream : Entries κ} {base : BitVec 64}

@[simp] theorem length_laid (base : BitVec 64) : (laid base stream).length = stream.length :=
  List.length_mapIdx

theorem laid_append (entry : Option (TRB × Option κ)) :
    laid base (stream ++ [entry]) = laid base stream ++ [entryTrb base stream.length entry] :=
  List.mapIdx_concat

theorem callback_append_of_lt {more : Entries κ} {n : ℕ} (h : n < stream.length) :
    callback (stream ++ more) n = callback stream n := by
  rw [callback, callback, List.getElem?_append_left h]

end Entries

open Entries

/-- The ring after these entries were written, the callbacks of the live ones being in place. -/
structure Laid (base : BitVec 64) (live : ℕ → Prop) (stream : Entries κ)
    (ring : ProducerRing κ) : Prop where
  base_eq : ring.base = base
  written : Written TRB.cycle ringSize ring.ringArray (laid base stream)
  enqueue : ring.enqueueIndex = stream.length % ringSize
  currentPcs : ring.currentPcs = phase ringSize stream.length
  links : ∀ n (h : n < stream.length), stream[n] = none ↔ n % ringSize = ringSize - 1
  proper : ∀ block, some block ∈ stream →
    block.1.trbType ≠ .Link ∧ block.1.completes = block.2.isSome
  kept : ∀ n block, stream[n]? = some (some block) → live n →
    ring.completions (n % ringSize) = block.2

namespace Laid

variable {base : BitVec 64} {live : ℕ → Prop} {stream : Entries κ} {ring : ProducerRing κ}

theorem new_laid : Laid base live [] (.new base : ProducerRing κ) where
  base_eq := rfl
  written := Written.nil fun _ _ => TRB.cycle_zero
  enqueue := rfl
  currentPcs := (phase_of_lt (n := 0) (by decide)).symm
  links n h := absurd h (Nat.not_lt_zero n)
  proper block h := absurd h List.not_mem_nil
  kept n block h := by cases h

variable (laid : Laid base live stream ring)
include laid

theorem mono {later : ℕ → Prop} (h : ∀ n, later n → live n) : Laid base later stream ring :=
  { laid with kept := fun n block hblock hlater => laid.kept n block hblock (h n hlater) }

theorem links_append {entry : Option (TRB × Option κ)}
    (h : entry = none ↔ ring.enqueueIndex = ringSize - 1) :
    ∀ n (_ : n < (stream ++ [entry]).length),
      (stream ++ [entry])[n] = none ↔ n % ringSize = ringSize - 1 := by
  intro n hn
  rw [List.length_append, List.length_singleton] at hn
  rcases Nat.lt_succ_iff_lt_or_eq.mp hn with hlt | rfl
  · rw [List.getElem_append_left hlt]
    exact laid.links n hlt
  · rw [List.getElem_concat_length rfl, ← laid.enqueue]
    exact h

/-- The next entry is a block. -/
theorem writeBlock {trb : TRB} {callback : Option κ} (hbelow : ring.enqueueIndex < ringSize - 1)
    (hlink : trb.trbType ≠ .Link) (hcompletes : trb.completes = callback.isSome)
    (hlive : ∀ n, live n → stream.length < n + ringSize) :
    Laid base live (stream ++ [some (trb, callback)])
      { ring with
        completions := update ring.completions ring.enqueueIndex callback
        ringArray := update ring.ringArray ring.enqueueIndex
          (trb.setCycle ring.currentPcs)
        enqueueIndex := ring.enqueueIndex + 1 } where
  base_eq := laid.base_eq
  written := by
    rw [laid_append, laid.enqueue, laid.currentPcs, ← length_laid base]
    exact laid.written.append (by decide) (TRB.cycle_setCycle _ _)
  enqueue := by
    rw [List.length_append, List.length_singleton, succ_mod (by decide), ← laid.enqueue, if_neg]
    omega
  currentPcs := by
    show ring.currentPcs = _
    rw [List.length_append, List.length_singleton, phase_succ (by decide), ← laid.enqueue, if_neg]
    · exact laid.currentPcs
    · omega
  links := laid.links_append (iff_of_false (Option.some_ne_none _) hbelow.ne)
  proper block hblock := by
    rcases List.mem_append.mp hblock with h | h
    · exact laid.proper block h
    · rw [Option.some.inj (List.mem_singleton.mp h)]
      exact ⟨hlink, hcompletes⟩
  kept n block hblock hliving := by
    show update ring.completions ring.enqueueIndex callback (n % ringSize) = block.2
    rcases Nat.lt_trichotomy n stream.length with hlt | rfl | hgt
    · rw [List.getElem?_append_left hlt] at hblock
      rw [laid.enqueue, update_of_ne (mod_ne_of_lt hlt (hlive n hliving)).symm]
      exact laid.kept n block hblock hliving
    · rw [List.getElem?_concat_length] at hblock
      rw [laid.enqueue, update_self, ← Option.some.inj (Option.some.inj hblock)]
    · rw [List.getElem?_eq_none (by simp; omega)] at hblock
      cases hblock

theorem writeLink (hlast : ring.enqueueIndex = ringSize - 1) :
    Laid base live (stream ++ [none])
      { ring with
        ringArray := update ring.ringArray ring.enqueueIndex
          (linkTrb ring.base ring.currentPcs)
        enqueueIndex := 0
        currentPcs := !ring.currentPcs } where
  base_eq := laid.base_eq
  written := by
    rw [laid_append, laid.enqueue, laid.currentPcs, laid.base_eq, ← length_laid base]
    exact laid.written.append (by decide) (cycle_linkTrb _ _)
  enqueue := by
    have hwrap : ring.enqueueIndex + 1 = ringSize := by rw [hlast]; rfl
    rw [List.length_append, List.length_singleton, succ_mod (by decide), ← laid.enqueue,
      if_pos hwrap]
  currentPcs := by
    have hwrap : ring.enqueueIndex + 1 = ringSize := by rw [hlast]; rfl
    rw [List.length_append, List.length_singleton, phase_succ (by decide), ← laid.enqueue,
      if_pos hwrap, ← laid.currentPcs]
  links := laid.links_append (iff_of_true rfl hlast)
  proper block hblock := by
    rcases List.mem_append.mp hblock with h | h
    · exact laid.proper block h
    · exact absurd (List.mem_singleton.mp h) (Option.some_ne_none _)
  kept n block hblock hliving := by
    rcases Nat.lt_trichotomy n stream.length with hlt | rfl | hgt
    · rw [List.getElem?_append_left hlt] at hblock
      exact laid.kept n block hblock hliving
    · rw [List.getElem?_concat_length] at hblock
      cases hblock
    · rw [List.getElem?_eq_none (by simp; omega)] at hblock
      cases hblock

/-- **`push_command`** writes a block, and the link after it if the end is reached. -/
theorem pushCommand {trb : TRB} {callback : Option κ} (hbelow : ring.enqueueIndex < ringSize - 1)
    (hlink : trb.trbType ≠ .Link) (hcompletes : trb.completes = callback.isSome)
    (hlive : ∀ n, live n →
      stream.length + ProducerSession.entryCount ring.enqueueIndex 1 ≤ n + ringSize) :
    ∃ moved more, ring.pushCommand trb callback = some moved ∧
      Laid base live (stream ++ some (trb, callback) :: more) moved ∧
      moved.enqueueIndex < ringSize - 1 ∧ more.reduceOption = [] ∧
      moved.enqueueIndex =
        (if ring.enqueueIndex + 1 = ringSize - 1 then 0 else ring.enqueueIndex + 1) ∧
      1 + more.length = ProducerSession.entryCount ring.enqueueIndex 1 := by
  have hverify : (ring.ringArray ring.enqueueIndex).cycle ≠ ring.currentPcs := by
    rw [laid.enqueue, laid.currentPcs, ← length_laid base]
    exact laid.written.cycle_ne (by decide)
  have hcount : ProducerSession.entryCount ring.enqueueIndex 1 =
      if ring.enqueueIndex + 1 = ringSize - 1 then 2 else 1 := by
    have hbelow' : ring.enqueueIndex < 127 := hbelow
    show 1 + (ring.enqueueIndex + 1) / 127 = if ring.enqueueIndex + 1 = 127 then 2 else 1
    split_ifs <;> omega
  have hblock := laid.writeBlock hbelow hlink hcompletes fun n hn => by
    have h := hlive n hn
    rw [hcount] at h
    split_ifs at h <;> omega
  by_cases hlast : ring.enqueueIndex + 1 = ringSize - 1
  · rw [if_pos hlast] at hcount
    have hboth := hblock.writeLink hlast
    rw [List.append_assoc] at hboth
    refine ⟨_, [none], ?_, hboth, Nat.zero_lt_succ _, rfl, ?_, ?_⟩
    · rw [ProducerRing.pushCommand, if_pos hverify, if_pos hlast, ← hlast]
    · rw [if_pos hlast]
    · rw [hcount]
      rfl
  · rw [if_neg hlast] at hcount
    refine ⟨_, [], ?_, hblock, ?_, rfl, ?_, ?_⟩
    · rw [ProducerRing.pushCommand, if_pos hverify, if_neg hlast]
    · show ring.enqueueIndex + 1 < ringSize - 1
      omega
    · rw [if_neg hlast]
    · rw [hcount]
      rfl

omit laid in
theorem entryCount_succ {index : ℕ} (h : index < ringSize - 1) (count : ℕ) :
    ProducerSession.entryCount index (count + 1) = ProducerSession.entryCount index 1 +
      ProducerSession.entryCount (if index + 1 = ringSize - 1 then 0 else index + 1) count := by
  have h' : index < 127 := h
  show count + 1 + (index + (count + 1)) / 127 = 1 + (index + 1) / 127 +
    (count + ((if index + 1 = 127 then 0 else index + 1) + count) / 127)
  split_ifs <;> omega

omit laid in
/-- **Blocks, one after another.** -/
theorem pushAll {blocks : List (TRB × Option κ)} (laid : Laid base live stream ring)
    (hbelow : ring.enqueueIndex < ringSize - 1)
    (hproper : ∀ block ∈ blocks, block.1.trbType ≠ .Link ∧ block.1.completes = block.2.isSome)
    (hlive : ∀ n, live n →
      stream.length + ProducerSession.entryCount ring.enqueueIndex blocks.length ≤ n + ringSize) :
    ∃ moved more, ring.pushAll blocks = some moved ∧ Laid base live (stream ++ more) moved ∧
      moved.enqueueIndex < ringSize - 1 ∧ more.reduceOption = blocks ∧
      more.length = ProducerSession.entryCount ring.enqueueIndex blocks.length := by
  induction blocks generalizing stream ring with
  | nil =>
      have hbelow' : ring.enqueueIndex < 127 := hbelow
      refine ⟨ring, [], rfl, by rwa [List.append_nil], hbelow, rfl, ?_⟩
      show 0 = 0 + (ring.enqueueIndex + 0) / 127
      omega
  | cons block rest ih =>
      obtain ⟨hlink, hcompletes⟩ := hproper block List.mem_cons_self
      rw [List.length_cons, entryCount_succ hbelow] at hlive ⊢
      obtain ⟨next, links, hpush, hlaid, hnext, hlinks, hindex, hcount⟩ :=
        laid.pushCommand hbelow hlink hcompletes fun n hn => by
          have h := hlive n hn
          omega
      rw [← hindex] at hlive ⊢
      obtain ⟨moved, more, hrest, hmoved, hlast, hmore, hlength⟩ :=
        ih hlaid hnext (fun other hother => hproper other (List.mem_cons_of_mem _ hother))
          fun n hn => by
            have h := hlive n hn
            rw [List.length_append, List.length_cons]
            omega
      refine ⟨moved, some block :: links ++ more, ?_, ?_, hlast, ?_, ?_⟩
      · rw [ProducerRing.pushAll_cons, hpush, Option.bind_some, hrest]
      · rwa [List.append_assoc] at hmoved
      · rw [List.reduceOption_append, List.reduceOption_cons_of_some, hlinks, hmore]
        rfl
      · rw [List.length_append, List.length_cons]
        omega

end Laid

/-! ## Both sides -/

namespace ProducerSession

/-- The callbacks of the blocks that were consumed. -/
def consumedCallbacks (session : ProducerSession κ) (stream : Entries κ) : List κ :=
  (stream.take session.consumed).reduceOption.filterMap Prod.snd

/-- An entry is live until it is consumed and its event, if there is one, is processed. -/
def Live (session : ProducerSession κ) (n : ℕ) : Prop :=
  session.consumed ≤ n ∨ n ∈ session.events.map Prod.fst

/-- Where the two sides are after these entries were written, these events were posted and these
callbacks were called. -/
structure Served (base : BitVec 64) (stream : Entries κ) (posted : List EventTRB)
    (called : List (κ × EventTRB)) (session : ProducerSession κ) : Prop where
  laid : Laid base session.Live stream session.ring
  below : session.ring.enqueueIndex < ringSize - 1
  written_eq : session.written = stream.length
  dequeue : session.dequeueIndex = session.consumed % ringSize
  cycleState : session.cycleState = phase ringSize session.consumed
  consumed_le : session.consumed ≤ stream.length
  lap : ∀ n, session.Live n → stream.length ≤ n + ringSize
  sorted : (session.events.map Prod.fst).Pairwise (· < ·)
  events : ∀ p ∈ session.events, p.1 < session.consumed ∧
    p.2.trbPtr = entryAddress base (p.1 % ringSize) ∧
    (p.2.kind = .CommandCompletion ∨ p.2.kind = .TransferEvent) ∧
    ∃ trb callback, stream[p.1]? = some (some (trb, some callback))
  history : called.map (fun p => (some p.1, p.2)) ++
      session.events.map (fun p => (stream.callback p.1, p.2)) =
    ((session.consumedCallbacks stream).map some).zip posted
  posted_length : (session.consumedCallbacks stream).length = posted.length

namespace Served

variable {base : BitVec 64} {stream : Entries κ} {posted : List EventTRB}
  {called : List (κ × EventTRB)} {session : ProducerSession κ}

theorem start_served : Served base [] [] [] (start base : ProducerSession κ) where
  laid := Laid.new_laid
  below := Nat.zero_lt_succ _
  written_eq := rfl
  dequeue := rfl
  cycleState := (phase_of_lt (n := 0) (by decide)).symm
  consumed_le := le_rfl
  lap _ _ := Nat.zero_le _
  sorted := List.Pairwise.nil
  events := List.forall_mem_nil _
  history := rfl
  posted_length := rfl

theorem take_succ {entry : Option (TRB × Option κ)}
    (h : stream[session.consumed]? = some entry) :
    stream.take (session.consumed + 1) = stream.take session.consumed ++ [entry] := by
  obtain ⟨hlt, heq⟩ := List.getElem?_eq_some_iff.mp h
  rw [← List.take_append_getElem hlt, heq]

theorem consumedCallbacks_succ {entry : Option (TRB × Option κ)}
    (h : stream[session.consumed]? = some entry) :
    (stream.take (session.consumed + 1)).reduceOption.filterMap Prod.snd =
      session.consumedCallbacks stream ++ (entry.bind Prod.snd).toList := by
  rw [take_succ h, List.reduceOption_append, List.filterMap_append, consumedCallbacks]
  rcases entry with _ | ⟨trb, _ | callback⟩ <;> rfl

variable (served : Served base stream posted called session)
include served

theorem oldest_le {n : ℕ} (h : session.Live n) : session.oldest ≤ n := by
  have hsorted := served.sorted
  have hevents := served.events
  unfold oldest
  rcases hlist : session.events with _ | ⟨first, rest⟩
  · rcases h with h | h
    · exact h
    · rw [hlist] at h
      exact absurd h List.not_mem_nil
  · rw [hlist] at hsorted hevents
    show first.1 ≤ n
    have hfirst := (hevents first List.mem_cons_self).1
    rcases h with h | h
    · omega
    · rw [hlist, List.map_cons, List.mem_cons] at h
      rcases h with rfl | h
      · exact le_rfl
      · exact (List.rel_of_pairwise_cons hsorted h).le

/-- **The driver** pushes blocks. -/
theorem push {blocks : List (TRB × Option κ)}
    (hproper : ∀ block ∈ blocks, block.1.trbType ≠ .Link ∧ block.1.completes = block.2.isSome)
    (hfits : session.written + entryCount session.ring.enqueueIndex blocks.length ≤
      session.oldest + ringSize) :
    ∃ ring more, session.ring.pushAll blocks = some ring ∧ more.reduceOption = blocks ∧
      Served base (stream ++ more) posted called
        { session with
          ring
          written := session.written + entryCount session.ring.enqueueIndex blocks.length } := by
  rw [served.written_eq] at hfits ⊢
  obtain ⟨ring, more, hpush, hlaid, hbelow, hmore, hlength⟩ :=
    served.laid.pushAll served.below hproper fun n hn => by
      have hle := served.oldest_le hn
      omega
  have htake : (stream ++ more).take session.consumed = stream.take session.consumed :=
    List.take_append_of_le_length served.consumed_le
  have hcallbacks : session.consumedCallbacks (stream ++ more) =
      session.consumedCallbacks stream := by
    rw [consumedCallbacks, htake, consumedCallbacks]
  refine ⟨ring, more, hpush, hmore, hlaid, hbelow, ?_, served.dequeue, served.cycleState, ?_,
    fun n hn => ?_, served.sorted, fun p hp => ?_, ?_, ?_⟩
  · rw [List.length_append, hlength]
  · have hle := served.consumed_le
    rw [List.length_append]
    show session.consumed ≤ _
    omega
  · have hle : session.oldest ≤ n := served.oldest_le hn
    rw [List.length_append, hlength]
    omega
  · obtain ⟨hlt, hptr, hkind, trb, callback, hentry⟩ := served.events p hp
    refine ⟨hlt, hptr, hkind, trb, callback, ?_⟩
    rw [List.getElem?_append_left (List.getElem?_eq_some_iff.mp hentry).1, hentry]
  · have hsame : session.events.map (fun p => ((stream ++ more).callback p.1, p.2)) =
        session.events.map (fun p => (stream.callback p.1, p.2)) := by
      refine List.map_congr_left fun p hp => ?_
      have hlt := (served.events p hp).1
      rw [callback_append_of_lt (hlt.trans_le served.consumed_le)]
    show _ ++ session.events.map _ = ((session.consumedCallbacks _).map some).zip posted
    rw [hcallbacks, hsame]
    exact served.history
  · show (session.consumedCallbacks _).length = _
    rw [hcallbacks]
    exact served.posted_length

theorem next_entry {entry : Option (TRB × Option κ)}
    (h : stream[session.consumed]? = some entry) :
    session.ring.ringArray session.dequeueIndex = entryTrb base session.consumed entry := by
  obtain ⟨hlt, heq⟩ := List.getElem?_eq_some_iff.mp h
  have hlap := served.lap session.consumed (Or.inl le_rfl)
  rw [served.dequeue, served.laid.written.read (by rwa [length_laid]) (by rwa [length_laid])]
  unfold Entries.laid
  rw [List.getElem_mapIdx, heq]

theorem cycle_eq_iff :
    (session.ring.ringArray session.dequeueIndex).cycle = session.cycleState ↔
      session.consumed < stream.length := by
  have hlap := served.lap session.consumed (Or.inl le_rfl)
  have hle := served.consumed_le
  rw [served.dequeue, served.cycleState, served.laid.written.cycle_eq_iff (by rwa [length_laid])
    (by rwa [length_laid]) (by decide), length_laid]

/-- **The controller** follows the link. -/
theorem follow (h : stream[session.consumed]? = some none) (completion : Completion) :
    ∃ moved, session.step (.consume completion) = some (moved, .nothing) ∧
      moved.consumed = session.consumed + 1 ∧ Served base stream posted called moved := by
  obtain ⟨hlt, heq⟩ := List.getElem?_eq_some_iff.mp h
  have hlast : session.consumed % ringSize = ringSize - 1 := (served.laid.links _ hlt).mp heq
  have hwrap : session.consumed % ringSize + 1 = ringSize := by rw [hlast]; rfl
  have hentry := served.next_entry h
  have hstep : session.step (.consume completion) = some
      ({ session with
          dequeueIndex := 0
          cycleState := !session.cycleState
          consumed := session.consumed + 1 }, .nothing) := by
    rw [step, if_pos (served.cycle_eq_iff.mpr hlt), hentry, entryTrb, if_pos (trbType_linkTrb _ _),
      toggle_linkTrb, parameter_linkTrb, served.laid.base_eq, BitVec.sub_self, Bool.xor_true]
    rfl
  have hcallbacks := consumedCallbacks_succ h
  rw [Option.bind_none, Option.toList_none, List.append_nil] at hcallbacks
  have hlive : ∀ n, (session.consumed + 1 ≤ n ∨ n ∈ session.events.map Prod.fst) →
      session.Live n := by
    rintro n (hn | hn)
    · exact Or.inl (by omega)
    · exact Or.inr hn
  refine ⟨_, hstep, rfl, served.laid.mono hlive, served.below, served.written_eq, ?_, ?_, hlt,
    fun n hn => served.lap n (hlive n hn), served.sorted, fun p hp => ?_, ?_, ?_⟩
  · show 0 = (session.consumed + 1) % ringSize
    rw [succ_mod (by decide), if_pos hwrap]
  · show (!session.cycleState) = phase ringSize (session.consumed + 1)
    rw [phase_succ (by decide), if_pos hwrap, served.cycleState]
  · obtain ⟨hp', hrest⟩ := served.events p hp
    exact ⟨hp'.trans (Nat.lt_succ_self _), hrest⟩
  · show _ = ((List.filterMap Prod.snd _).map some).zip posted
    rw [hcallbacks]
    exact served.history
  · show (List.filterMap Prod.snd _).length = _
    rw [hcallbacks]
    exact served.posted_length

/-- **The controller** consumes a block, and reports it if there is a callback for it. -/
theorem consume {block : TRB × Option κ} (h : stream[session.consumed]? = some (some block))
    (completion : Completion) :
    ∃ moved trb event, session.step (.consume completion) = some (moved, .consumed trb event) ∧
      trb.setCycle false = block.1.setCycle false ∧ moved.consumed = session.consumed + 1 ∧
      Served base stream (posted ++ event.toList) called moved := by
  obtain ⟨hlt, heq⟩ := List.getElem?_eq_some_iff.mp h
  obtain ⟨hlink, hcompletes⟩ := served.laid.proper block (List.mem_of_getElem? h)
  have hlast : session.consumed % ringSize + 1 ≠ ringSize := by
    intro hlast
    have hindex : session.consumed % ringSize = ringSize - 1 := by omega
    have hnone := (served.laid.links _ hlt).mpr hindex
    rw [heq] at hnone
    cases hnone
  have hdequeue : session.dequeueIndex + 1 = (session.consumed + 1) % ringSize := by
    rw [succ_mod (by decide), if_neg hlast, served.dequeue]
  have hcycle : session.cycleState = phase ringSize (session.consumed + 1) := by
    rw [phase_succ (by decide), if_neg hlast, served.cycleState]
  have hentry := served.next_entry h
  have hcallbacks := consumedCallbacks_succ h
  rw [Option.bind_some] at hcallbacks
  have hearlier : ∀ p ∈ session.events, p.1 < session.consumed + 1 := fun p hp =>
    (served.events p hp).1.trans (Nat.lt_succ_self _)
  have hfound := served.cycle_eq_iff.mpr hlt
  have hlink' : (entryTrb base session.consumed (some block)).trbType ≠ .Link := by
    rw [entryTrb, TRB.trbType_setCycle]
    exact hlink
  have hcompletes' : (entryTrb base session.consumed (some block)).completes =
      block.2.isSome := by
    rw [entryTrb, TRB.completes_setCycle]
    exact hcompletes
  have hclear : (entryTrb base session.consumed (some block)).setCycle false =
      block.1.setCycle false := by
    rw [entryTrb, TRB.setCycle_setCycle]
  rw [hentry] at hfound
  obtain ⟨trb, _ | callback⟩ := block
  · have hstep : session.step (.consume completion) = some
        ({ session with
            dequeueIndex := session.dequeueIndex + 1
            consumed := session.consumed + 1 },
          .consumed (entryTrb base session.consumed (some (trb, (none : Option κ)))) none) := by
      rw [step, hentry, if_pos hfound, if_neg hlink', hcompletes']
      rfl
    have hlive : ∀ n, (session.consumed + 1 ≤ n ∨ n ∈ session.events.map Prod.fst) →
        session.Live n := by
      rintro n (hn | hn)
      · exact Or.inl (by omega)
      · exact Or.inr hn
    refine ⟨_, _, none, hstep, hclear, rfl, served.laid.mono hlive, served.below,
      served.written_eq, hdequeue, hcycle, hlt, fun n hn => served.lap n (hlive n hn),
      served.sorted, fun p hp => ⟨hearlier p hp, (served.events p hp).2⟩, ?_, ?_⟩
    · show _ = ((List.filterMap Prod.snd _).map some).zip (posted ++ [])
      rw [hcallbacks, Option.toList_none, List.append_nil, List.append_nil]
      exact served.history
    · show (List.filterMap Prod.snd _).length = (posted ++ []).length
      rw [hcallbacks, Option.toList_none, List.append_nil, List.append_nil]
      exact served.posted_length
  · obtain ⟨event, hevent⟩ : ∃ event : EventTRB, event = { completion.val with
        trbPtr := entryAddress session.ring.base session.dequeueIndex } := ⟨_, rfl⟩
    have hstep : session.step (.consume completion) = some
        ({ session with
            dequeueIndex := session.dequeueIndex + 1
            events := session.events ++ [(session.consumed, event)]
            consumed := session.consumed + 1 },
          .consumed (entryTrb base session.consumed (some (trb, some callback)))
            (some event)) := by
      rw [step, hentry, if_pos hfound, if_neg hlink', hcompletes', hevent]
      rfl
    have hnumbers : (session.events ++ [(session.consumed, event)]).map Prod.fst =
        session.events.map Prod.fst ++ [session.consumed] := by
      rw [List.map_append, List.map_singleton]
    have hlive : ∀ n, (session.consumed + 1 ≤ n ∨
        n ∈ (session.events ++ [(session.consumed, event)]).map Prod.fst) → session.Live n := by
      intro n hn
      rw [hnumbers, List.mem_append, List.mem_singleton] at hn
      rcases hn with hn | hn | rfl
      · exact Or.inl (by omega)
      · exact Or.inr hn
      · exact Or.inl le_rfl
    have hnew : stream.callback session.consumed = some callback := by
      rw [Entries.callback, h]
      rfl
    refine ⟨_, _, some event, hstep, hclear, rfl, served.laid.mono hlive, served.below,
      served.written_eq, hdequeue, hcycle, hlt, fun n hn => served.lap n (hlive n hn), ?_,
      fun p hp => ?_, ?_, ?_⟩
    · show ((session.events ++ [(session.consumed, event)]).map Prod.fst).Pairwise (· < ·)
      rw [hnumbers, List.pairwise_append]
      refine ⟨served.sorted, List.pairwise_singleton _ _, fun n hn m hm => ?_⟩
      obtain ⟨p, hp, rfl⟩ := List.mem_map.mp hn
      rw [List.mem_singleton.mp hm]
      exact (served.events p hp).1
    · rcases List.mem_append.mp hp with hp | hp
      · exact ⟨hearlier p hp, (served.events p hp).2⟩
      · rw [List.mem_singleton.mp hp]
        refine ⟨Nat.lt_succ_self _, ?_, ?_, trb, callback, h⟩
        · rw [hevent, served.laid.base_eq, served.dequeue]
        · rw [hevent]
          exact completion.property
    · show _ ++ (session.events ++ [(session.consumed, event)]).map _ =
        ((List.filterMap Prod.snd _).map some).zip (posted ++ [event])
      rw [hcallbacks, List.map_append, List.map_append, List.zip_append
        ((List.length_map _).trans served.posted_length), ← served.history, List.map_singleton,
        hnew, List.append_assoc]
      rfl
    · show (List.filterMap Prod.snd _).length = (posted ++ [event]).length
      rw [hcallbacks, List.length_append, List.length_append, served.posted_length]
      rfl

/-- **The driver** processes the next event and calls the callback of its block. -/
theorem process {number : ℕ} {event : EventTRB} {rest : List (ℕ × EventTRB)}
    (h : session.events = (number, event) :: rest) :
    ∃ moved callback, session.step .process = some (moved, .fired callback event) ∧
      moved.consumed = session.consumed ∧
      Served base stream posted (called ++ [(callback, event)]) moved := by
  have hsorted := served.sorted
  have hevents := served.events
  have hhistory := served.history
  rw [h] at hsorted hevents hhistory
  obtain ⟨hlt, hptr, hkind, trb, callback, hentry⟩ := hevents _ List.mem_cons_self
  have hliving : session.Live number := Or.inr (by rw [h]; exact List.mem_cons_self)
  have hindex : ((event.trbPtr - session.ring.base) / 16).toNat = number % ringSize := by
    rw [hptr, served.laid.base_eq]
    exact index_entryAddress base (Nat.mod_lt _ (by decide))
  have hcallback : session.ring.completions (number % ringSize) = some callback :=
    served.laid.kept number _ hentry hliving
  have hstep : session.step .process = some
      ({ session with
          ring := { session.ring with
            completions := update session.ring.completions (number % ringSize) none }
          events := rest }, .fired callback event) := by
    rw [step, h]
    show (session.ring.processCompletion event).map _ = _
    rw [ProducerRing.processCompletion, if_pos hkind]
    simp only [hindex]
    rw [if_pos (Nat.mod_lt _ (by decide)), hcallback]
    rfl
  have hlater : ∀ n, (session.consumed ≤ n ∨ n ∈ rest.map Prod.fst) → number < n := by
    rintro n (hn | hn)
    · exact hlt.trans_le hn
    · exact List.rel_of_pairwise_cons hsorted hn
  have hlive : ∀ n, (session.consumed ≤ n ∨ n ∈ rest.map Prod.fst) → session.Live n := by
    rintro n (hn | hn)
    · exact Or.inl hn
    · exact Or.inr (by rw [h]; exact List.mem_cons_of_mem _ hn)
  have hlap := served.lap number hliving
  refine ⟨_, callback, hstep, rfl, { served.laid with kept := fun n block hblock hn => ?_ },
    served.below, served.written_eq, served.dequeue, served.cycleState, served.consumed_le,
    fun n hn => served.lap n (hlive n hn), List.Pairwise.of_cons hsorted,
    fun p hp => hevents p (List.mem_cons_of_mem _ hp), ?_, served.posted_length⟩
  · show update session.ring.completions (number % ringSize) none (n % ringSize) = block.2
    have hn' := hlater n hn
    have hlength := (List.getElem?_eq_some_iff.mp hblock).1
    rw [update_of_ne (mod_ne_of_lt hn' (by omega))]
    exact served.laid.kept n block hblock (hlive n hn)
  · have hnew : stream.callback number = some callback := by
      rw [Entries.callback, hentry]
      rfl
    show (called ++ [(callback, event)]).map _ ++ rest.map _ =
      ((session.consumedCallbacks stream).map some).zip posted
    rw [← hhistory, List.map_append, List.append_assoc, List.map_cons (l := rest), hnew]
    rfl

end Served

/-- What was given out so far, and where that leaves the two sides. -/
def Followed (base : BitVec 64) (outs : List (ProducerReply κ)) (session : ProducerSession κ) :
    Prop :=
  ∃ stream, Served base stream (outs.filterMap ProducerReply.posted)
      (outs.filterMap ProducerReply.called) session ∧
    outs.flatMap ProducerReply.blocks = stream.reduceOption ∧
    (outs.filterMap ProducerReply.trb).map (·.setCycle false) =
      (stream.take session.consumed).reduceOption.map fun block => block.1.setCycle false

theorem blocks_proper {op : ProducerOp κ} (h : Proper op) :
    ∀ block ∈ op.blocks, block.1.trbType ≠ .Link ∧ block.1.completes = block.2.isSome := by
  intro block hblock
  cases op with
  | push trb callback =>
      rw [List.mem_singleton.mp hblock]
      exact h
  | pushControlTransfer packet dataRef callback =>
      exact controlBlocks_proper packet dataRef callback block hblock
  | consume completion => exact absurd hblock List.not_mem_nil
  | process => exact absurd hblock List.not_mem_nil

theorem Followed.push {base : BitVec 64} {outs : List (ProducerReply κ)}
    {session : ProducerSession κ} (followed : Followed base outs session)
    {blocks : List (TRB × Option κ)}
    (hproper : ∀ block ∈ blocks, block.1.trbType ≠ .Link ∧ block.1.completes = block.2.isSome)
    (hfits : session.written + entryCount session.ring.enqueueIndex blocks.length ≤
      session.oldest + ringSize) :
    ∃ ring, session.ring.pushAll blocks = some ring ∧
      Followed base (outs ++ [.pushed blocks])
        { session with
          ring
          written := session.written + entryCount session.ring.enqueueIndex blocks.length } := by
  obtain ⟨stream, served, hblocks, htrbs⟩ := followed
  obtain ⟨ring, more, hpush, hmore, hserved⟩ := served.push hproper hfits
  refine ⟨ring, hpush, stream ++ more, ?_, ?_, ?_⟩
  · simpa [List.filterMap_cons, ProducerReply.posted, ProducerReply.called] using hserved
  · simp [ProducerReply.blocks, List.reduceOption_append, hblocks, hmore]
  · rw [List.take_append_of_le_length served.consumed_le, ← htrbs]
    simp [List.filterMap_cons, ProducerReply.trb]

/-- Each step that fits keeps the two sides together. -/
theorem step_followed (base : BitVec 64) (outs : List (ProducerReply κ))
    (session : ProducerSession κ) (op : ProducerOp κ) (followed : Followed base outs session)
    (h : session.Fits op ∧ Proper op) :
    ∃ moved, session.step op = some moved ∧ Followed base (outs ++ [moved.2]) moved.1 := by
  have hproper := blocks_proper h.2
  cases op with
  | push trb callback =>
      have hsome : 0 < (ProducerOp.push trb callback).blocks.length := Nat.zero_lt_one
      obtain ⟨ring, hpush, hmoved⟩ := followed.push hproper (h.1 hsome)
      rw [ProducerOp.blocks, ProducerRing.pushAll_singleton] at hpush
      exact ⟨_, by rw [step, hpush, Option.map_some], hmoved⟩
  | pushControlTransfer packet dataRef callback =>
      have hsome : 0 < (ProducerOp.pushControlTransfer packet dataRef callback).blocks.length :=
        Nat.zero_lt_succ _
      obtain ⟨ring, hpush, hmoved⟩ := followed.push hproper (h.1 hsome)
      rw [ProducerOp.blocks, ← ProducerRing.pushControlTransfer_eq _ _ h.2] at hpush
      exact ⟨_, by rw [step, hpush, Option.map_some], hmoved⟩
  | consume completion =>
      obtain ⟨stream, served, hblocks, htrbs⟩ := followed
      rcases hnext : stream[session.consumed]? with _ | _ | block
      · have hlt : ¬ session.consumed < stream.length := by
          rw [not_lt]
          exact List.getElem?_eq_none_iff.mp hnext
        have hstep : session.step (.consume completion) = some (session, .nothing) := by
          rw [step, if_neg fun h => hlt (served.cycle_eq_iff.mp h)]
        exact ⟨_, hstep, stream,
          by simpa [List.filterMap_cons, ProducerReply.posted, ProducerReply.called] using served,
          by simpa [ProducerReply.blocks] using hblocks,
          by simpa [List.filterMap_cons, ProducerReply.trb] using htrbs⟩
      · obtain ⟨moved, hstep, hconsumed, hmoved⟩ := served.follow hnext completion
        refine ⟨_, hstep, stream,
          by simpa [List.filterMap_cons, ProducerReply.posted, ProducerReply.called] using hmoved,
          by simpa [ProducerReply.blocks] using hblocks, ?_⟩
        rw [hconsumed, Served.take_succ hnext]
        simpa [List.filterMap_cons, ProducerReply.trb, List.reduceOption_append] using htrbs
      · obtain ⟨moved, trb, event, hstep, hclear, hconsumed, hmoved⟩ :=
          served.consume hnext completion
        refine ⟨_, hstep, stream, ?_, by simpa [ProducerReply.blocks] using hblocks, ?_⟩
        · cases event <;>
            simpa [List.filterMap_cons, ProducerReply.posted, ProducerReply.called] using hmoved
        · rw [hconsumed, Served.take_succ hnext]
          simp [ProducerReply.trb, List.reduceOption_append, htrbs, hclear]
  | process =>
      obtain ⟨stream, served, hblocks, htrbs⟩ := followed
      rcases hevents : session.events with _ | ⟨⟨number, event⟩, rest⟩
      · have hstep : session.step .process = some (session, .nothing) := by
          rw [step, hevents]
        exact ⟨_, hstep, stream,
          by simpa [List.filterMap_cons, ProducerReply.posted, ProducerReply.called] using served,
          by simpa [ProducerReply.blocks] using hblocks,
          by simpa [List.filterMap_cons, ProducerReply.trb] using htrbs⟩
      · obtain ⟨moved, callback, hstep, hconsumed, hmoved⟩ := served.process hevents
        exact ⟨_, hstep, stream,
          by simpa [List.filterMap_cons, ProducerReply.posted, ProducerReply.called] using hmoved,
          by simpa [ProducerReply.blocks] using hblocks,
          by simpa [List.filterMap_cons, ProducerReply.trb, hconsumed] using htrbs⟩

/-- Where the two sides are together, everything is as it is to be. -/
theorem Followed.kept {base : BitVec 64} {outs : List (ProducerReply κ)}
    {session : ProducerSession κ} (followed : Followed base outs session) :
    Kept base (session, outs) := by
  obtain ⟨stream, served, hblocks, htrbs⟩ := followed
  have hsplit : stream.reduceOption =
      (stream.take session.consumed).reduceOption ++ (stream.drop session.consumed).reduceOption := by
    rw [← List.reduceOption_append, List.take_append_drop]
  have hcount : (outs.filterMap ProducerReply.trb).length =
      (stream.take session.consumed).reduceOption.length := by
    have hlength := congrArg List.length htrbs
    rwa [List.length_map, List.length_map] at hlength
  have htake : (outs.flatMap ProducerReply.blocks).take
      (outs.filterMap ProducerReply.trb).length =
        (stream.take session.consumed).reduceOption := by
    rw [hblocks, hsplit, List.take_left' hcount.symm]
  have hhistory := served.history
  have hlast : session.consumed % ringSize ≠ ringSize - 1 → session.consumed < stream.length →
      0 < (stream.drop session.consumed).reduceOption.length := by
    intro hindex hlt
    obtain ⟨block, hblock⟩ := Option.ne_none_iff_exists'.mp fun h =>
      hindex ((served.laid.links _ hlt).mp h)
    rw [← List.cons_getElem_drop_succ (h := hlt), hblock, List.reduceOption_cons_of_some]
    exact Nat.zero_lt_succ _
  constructor
  · rw [htake]
    exact htrbs
  · rw [htake]
    have hinj : Injective (Prod.map some id : κ × EventTRB → Option κ × EventTRB) :=
      (Option.some_injective κ).prodMap injective_id
    have hprefix := congrArg (List.take (outs.filterMap ProducerReply.called).length)
      (hhistory.trans List.zip_map_left)
    rw [List.take_left' (List.length_map _), ← List.map_take] at hprefix
    exact List.map_injective_iff.mpr hinj hprefix
  · rw [htake]
    exact served.posted_length
  · have hlength := congrArg List.length hhistory
    rw [List.length_append, List.length_map, List.length_map, List.length_zip, List.length_map,
      served.posted_length, Nat.min_self] at hlength
    exact hlength.symm
  · intro hdequeue
    rw [served.dequeue] at hdequeue
    have hlt : session.consumed < stream.length := by
      refine lt_of_le_of_ne served.consumed_le fun heq => ?_
      have hbelow := served.below
      rw [served.laid.enqueue, ← heq, hdequeue] at hbelow
      exact lt_irrefl _ hbelow
    have hnone := (served.laid.links _ hlt).mpr hdequeue
    have hentry := served.next_entry (List.getElem?_eq_some_iff.mpr ⟨hlt, hnone⟩)
    rw [served.dequeue, hdequeue, entryTrb, ← served.cycleState] at hentry
    exact hentry
  · intro hdequeue
    rw [served.dequeue] at hdequeue
    rw [served.cycle_eq_iff, hcount, hblocks, hsplit, List.length_append]
    refine ⟨fun hlt => ?_, fun hlt => ?_⟩
    · have hpos := hlast hdequeue hlt
      omega
    · by_contra hge
      rw [List.drop_of_length_le (not_lt.mp hge)] at hlt
      exact lt_irrefl _ hlt

/-- **In every run in which the outstanding entries fit in the ring**, no assertion fails, every
block is consumed once and in order, and every callback is called once and for its block. -/
theorem run_kept (base : BitVec 64) {ops : List (ProducerOp κ)}
    (hfits : StepsMeet step Fits (start base) ops) (hproper : ∀ op ∈ ops, Proper op) :
    ∃ final, runSteps step (start base) ops = some final ∧ Kept base final := by
  have hstart : Followed base [] (start base : ProducerSession κ) :=
    ⟨[], Served.start_served, rfl, rfl⟩
  obtain ⟨final, hrun, hfollowed⟩ :=
    runSteps_traces (step_followed base) hstart (hfits.and_forall hproper)
  rw [List.nil_append] at hfollowed
  exact ⟨final, hrun, hfollowed.kept⟩

/-- A command, a control transfer with a data stage, and half a lap later the same. -/
def busy : List (ProducerOp ℕ) :=
  let noop : ℕ → ProducerOp ℕ := fun i => .push (.create .NoOpCommand 0 0 0 0) (some i)
  let control : ProducerOp ℕ :=
    .pushControlTransfer ⟨0x80, 6, 0x100, 0, 18⟩ ⟨0x90000, 18⟩ (some 1000)
  let consume : ProducerOp ℕ := .consume ⟨⟨0, 0, .TransferEvent, 1, 0, 0, false⟩, Or.inr rfl⟩
  (List.range 60).map noop ++ [control, consume, .process] ++ (List.range 63).map noop ++
    List.replicate 70 consume ++ List.replicate 69 .process ++ [control] ++
    List.replicate 60 consume

theorem run_kept_busy :
    ∃ final, runSteps step (start 0x80000) busy = some final ∧ Kept 0x80000 final :=
  run_kept 0x80000 (by decide +kernel) (by decide +kernel)

/-- More commands than the ring has blocks, none of them consumed. -/
def flooded : List (ProducerOp ℕ) :=
  (List.range 128).map fun i => .push (.create .NoOpCommand 0 0 0 0) (some i)

/-- **The 128th command** is put in the place of the first one: the controller, which has consumed
nothing yet, finds nothing. -/
theorem run_kept_fails :
    (∀ op ∈ flooded, Proper op) ∧
      ∃ final, runSteps step (start 0x80000) flooded = some final ∧ ¬ Kept 0x80000 final := by
  refine ⟨by decide +kernel, ?_⟩
  have hcompletes : (runSteps step (start 0x80000) flooded).isSome = true := by decide +kernel
  obtain ⟨final, hrun⟩ := Option.isSome_iff_exists.mp hcompletes
  have hindex : (runSteps step (start 0x80000) flooded).map (·.1.dequeueIndex) = some 0 := by
    decide +kernel
  have hcycle : (runSteps step (start 0x80000) flooded).map (fun final =>
      ((final.1.ring.ringArray final.1.dequeueIndex).cycle, final.1.cycleState,
        (final.2.filterMap ProducerReply.trb).length,
        (final.2.flatMap ProducerReply.blocks).length)) = some (false, true, 0, 128) := by
    decide +kernel
  rw [hrun, Option.map_some, Option.some.injEq] at hindex hcycle
  simp only [Prod.mk.injEq] at hcycle
  obtain ⟨hentry, hstate, hconsumed, hpushed⟩ := hcycle
  refine ⟨final, hrun, fun kept => ?_⟩
  have hnext := kept.next (by rw [hindex]; decide)
  rw [hconsumed, hpushed, hentry, hstate] at hnext
  exact Bool.false_ne_true (hnext.mpr (by decide))

end ProducerSession

end BekOS.Usb
