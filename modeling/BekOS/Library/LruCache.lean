import BekOS.Library.HashtableSlots

/-!
# `LRUCache`

The block caches of the file systems: a `bek::hashtable` of twice `max_items`
slots, whose items carry the counter of their last use.  `set` inserts and, once
there are more than `max_items` items, `try_purge` extracts the least recently
used one that nobody else references.

`ref_count()` belongs to the shared pointers handed out, not to the cache: an
operation carries the counts that the scan and the re-check after `extract` see.
What `purge_fn` is called on is part of the answer.

An item is purged at about the moment the next one comes in, so the table holds
at most half its slots and rarely grows: the tombstones of the purged items are
what the section on empty slots is about.
-/

namespace BekOS

open PartialRun

universe u v

/-- A cached value and the counter of its last use. -/
structure LruItem (Val : Type v) where
  lastUseCounter : BitVec 64
  v : Val
  deriving DecidableEq, Repr

/-- The cache. -/
structure LruCache (Key : Type u) (Val : Type v) where
  counter : BitVec 64
  maxItems : ℕ
  hashtable : Hashtable Key (LruItem Val)

namespace LruCache

variable {Key : Type u} {Val : Type v}

/-- The constructor. -/
def new (maxItems : ℕ) : LruCache Key Val where
  counter := 0
  maxItems := maxItems
  hashtable := .new (maxItems * 2)

/-- One round of the scan of `try_purge`: the candidate is replaced by an item
that only the cache references and that was used less recently. -/
def considerDelete (refCount : Val → ℕ) (toDelete : Option (Key × BitVec 64))
    (item : Key × LruItem Val) : Option (Key × BitVec 64) :=
  if refCount item.2.v = 1 ∧ ∀ found ∈ toDelete, found.2 > item.2.lastUseCounter then
    some (item.1, item.2.lastUseCounter)
  else toDelete

/-- The item `try_purge` decides to delete. -/
def toDelete (cache : LruCache Key Val) (refCount : Val → ℕ) : Option (Key × BitVec 64) :=
  cache.hashtable.visited.foldl (considerDelete refCount) none

section Operations

variable [BEq Key] (hash : Key → ℕ)

/-- The end of `try_purge`, once the key to delete is known: extract the item,
check its references again, and give it to `purge_fn` or put it back. -/
def purgeKey (cache : LruCache Key Val) (key : Key) (recheck : Val → ℕ) :
    Option (LruCache Key Val × Option (Key × Val)) :=
  (cache.hashtable.extract hash key).bind fun taken =>
    match taken.2 with
    | some x =>
        if recheck x.v = 1 then
          some ({ cache with hashtable := taken.1 }, some (key, x.v))
        else
          (taken.1.set hash key x).map fun stored =>
            ({ cache with hashtable := stored.1 }, none)
    | none => some ({ cache with hashtable := taken.1 }, none)

/-- `try_purge`, with the pair given to `purge_fn`. -/
def tryPurge (cache : LruCache Key Val) (refCount recheck : Val → ℕ) :
    Option (LruCache Key Val × Option (Key × Val)) :=
  if cache.hashtable.itemCount > cache.maxItems then
    match cache.toDelete refCount with
    | some found => cache.purgeKey hash found.1 recheck
    | none => some (cache, none)
  else some (cache, none)

/-- Attempts to insert the item.  Answers whether it was stored, and the pair
purged to make room. -/
def set (cache : LruCache Key Val) (k : Key) (v : Val) (refCount recheck : Val → ℕ) :
    Option (LruCache Key Val × (Bool × Option (Key × Val))) :=
  (cache.hashtable.insert hash (k, { lastUseCounter := cache.counter, v := v })).bind
    fun stored =>
      (tryPurge hash { cache with hashtable := stored.1 } refCount recheck).map
        fun purged => (purged.1, (stored.2.2, purged.2))

/-- Looks the key up and, if it is there, marks it as used: the counter of the
bucket found is written through the pointer `hashtable::find` returns. -/
def find (cache : LruCache Key Val) (key : Key) :
    Option (LruCache Key Val × Option Val) :=
  (cache.hashtable.uncheckedLookup hash key false).map fun index : ℕ =>
    match cache.hashtable.slots[index]? with
    | some (.filled first x) =>
        ({ cache with
            counter := cache.counter + 1
            hashtable :=
              { cache.hashtable with
                slots := cache.hashtable.slots.set index
                  (.filled first { x with lastUseCounter := cache.counter + 1 }) } },
          some x.v)
    | _ => (cache, none)

/-- The calls a cache receives. -/
inductive Op (Key : Type u) (Val : Type v) where
  | set (k : Key) (v : Val) (refCount recheck : Val → ℕ)
  | find (key : Key)

/-- The answers: `set` stored and purged, `find` found. -/
inductive Reply (Key : Type u) (Val : Type v) where
  | set (success : Bool) (purged : Option (Key × Val))
  | found (v : Option Val)
  deriving DecidableEq

/-- One call; `none` when it runs into `ASSERT_UNREACHABLE`. -/
def step (cache : LruCache Key Val) :
    Op Key Val → Option (LruCache Key Val × Reply Key Val)
  | .set k v refCount recheck =>
      (cache.set hash k v refCount recheck).map fun done =>
        (done.1, .set done.2.1 done.2.2)
  | .find key => (cache.find hash key).map fun done => (done.1, .found done.2)

/-- The call leaves an empty slot in the table. -/
def LeavesEmpty (cache : LruCache Key Val) : Op Key Val → Prop
  | .set k _ _ _ => cache.hashtable.KeepsEmpty hash k
  | .find _ => True

instance (cache : LruCache Key Val) (op : Op Key Val) :
    Decidable (cache.LeavesEmpty hash op) := by
  cases op <;> unfold LeavesEmpty <;> infer_instance

end Operations

/-! ## The empty slots of the cache's table -/

section Slots

open CyclicSearch Hashtable

variable [BEq Key] {hash : Key → ℕ} {cache : LruCache Key Val}

/-- An extracted item can be put back without using up an empty slot: the
tombstone it left is nearer than any of them. -/
theorem keepsEmpty_of_extracted {table : Hashtable Key Val} {key : Key} {i load : ℕ}
    {stored : Key} {old : Val} (hasEmpty : table.HasEmpty)
    (hlookup : uncheckedLookup hash table key false = some i)
    (hslot : table.slots[i]? = some (.filled stored old)) :
    (table.change i .deleted load).KeepsEmpty hash key := by
  have hcap := hasEmpty.capacity_pos
  have hi : i < table.capacity := (List.getElem?_eq_some_iff.mp hslot).1
  obtain ⟨j, hj⟩ := hasEmpty_iff.mp hasEmpty
  have hjcap : j < table.capacity := (List.getElem?_eq_some_iff.mp hj).1
  have hji : j ≠ i := by
    rintro rfl
    rw [hslot] at hj
    cases hj
  have hnearest := ((uncheckedLookup_eq_some_iff hash hcap).mp hlookup).2 j
    (acceptsAt_iff.mpr (Or.inl hj))
  refine Or.inr ⟨i, by simpa using hi, j, by simpa using hjcap, ?_, ?_, ?_⟩
  · exact acceptsAt_iff.mpr (Or.inr (Or.inl ⟨change_slots_self hi load, rfl⟩))
  · exact any_isEmpty_iff.mpr ((change_slots_ne hji load).trans hj)
  · rw [change_probeDistance, change_probeDistance]
    exact lt_of_le_of_ne hnearest fun heq =>
      hji (ringDistance_inj (Nat.mod_lt _ hcap) hi hjcap heq).symm

theorem purgeKey_slots (inv : cache.hashtable.SlotInvariant) (key : Key)
    (recheck : Val → ℕ) :
    ∃ purged, cache.purgeKey hash key recheck = some purged ∧
      purged.1.hashtable.SlotInvariant := by
  unfold purgeKey
  obtain ⟨i, hlookup⟩ := exists_uncheckedLookup_of_hasEmpty hash key false inv.hasEmpty
  rcases extract_cases key hlookup with hextract | ⟨k, x, hslot, hextract⟩
  · rw [hextract]
    exact ⟨_, rfl, inv⟩
  · have inv' : (cache.hashtable.change i .deleted
        (cache.hashtable.load - 1)).SlotInvariant :=
      ⟨tombstone_load_eq inv.load_eq hslot, (tombstone_hasEmpty_iff hslot).mpr inv.hasEmpty⟩
    rw [hextract, Option.bind_some]
    dsimp only
    split_ifs
    · exact ⟨_, rfl, inv'⟩
    · obtain ⟨stored, hstore, hkeeps, -⟩ := store_slots hash inv' (key, x) true
      refine ⟨({ cache with hashtable := stored.1 }, none), ?_,
        hkeeps (keepsEmpty_of_extracted inv.hasEmpty hlookup hslot)⟩
      rw [Hashtable.set, hstore, Option.map_some]

variable (hash) in
theorem tryPurge_slots (inv : cache.hashtable.SlotInvariant) (refCount recheck : Val → ℕ) :
    ∃ purged, tryPurge hash cache refCount recheck = some purged ∧
      purged.1.hashtable.SlotInvariant := by
  unfold tryPurge
  split_ifs
  · cases cache.toDelete refCount with
    | none => exact ⟨_, rfl, inv⟩
    | some found => exact purgeKey_slots inv found.1 recheck
  · exact ⟨_, rfl, inv⟩

/-- A table that is not about to grow gains no empty slot from a purge. -/
theorem tryPurge_hasEmpty {refCount recheck : Val → ℕ}
    {purged : LruCache Key Val × Option (Key × Val)}
    (hsmall : (cache.hashtable.load - 1) * expandThreshold ≤ cache.hashtable.capacity)
    (h : tryPurge hash cache refCount recheck = some purged)
    (hempty : purged.1.hashtable.HasEmpty) : cache.hashtable.HasEmpty := by
  unfold tryPurge at h
  split_ifs at h
  · cases hfound : cache.toDelete refCount with
    | none =>
        rw [hfound] at h
        cases h
        exact hempty
    | some found =>
        rw [hfound] at h
        simp only [purgeKey, Option.bind_eq_some_iff] at h
        obtain ⟨taken, htaken, h⟩ := h
        obtain ⟨i, hlookup, -⟩ := Option.map_eq_some_iff.mp htaken
        rcases extract_cases found.1 hlookup with hextract | ⟨k, x, hslot, hextract⟩
        · rw [hextract] at htaken
          cases htaken
          cases h
          exact hempty
        · rw [hextract] at htaken
          cases htaken
          dsimp only at h
          split_ifs at h
          · cases h
            exact (tombstone_hasEmpty_iff hslot).mp hempty
          · rw [Option.map_eq_some_iff] at h
            obtain ⟨stored, hstored, rfl⟩ := h
            have hsteady : ¬ (cache.hashtable.change i .deleted
                (cache.hashtable.load - 1)).NeedsExpand := by
              unfold NeedsExpand
              rw [change_load, change_capacity]
              omega
            rw [Hashtable.set, checkSize, if_neg hsteady, Option.bind_some] at hstored
            exact (tombstone_hasEmpty_iff hslot).mp (hasEmpty_of_uncheckedSet hstored hempty)
  · cases h
    exact hempty

variable (hash) in
theorem find_slots (inv : cache.hashtable.SlotInvariant) (key : Key) :
    ∃ found, cache.find hash key = some found ∧ found.1.hashtable.SlotInvariant := by
  unfold find
  obtain ⟨i, hlookup⟩ := exists_uncheckedLookup_of_hasEmpty hash key false inv.hasEmpty
  rw [hlookup, Option.map_some]
  refine ⟨_, rfl, ?_⟩
  cases hslot : cache.hashtable.slots[i]? with
  | none => exact inv
  | some slot =>
      cases slot with
      | empty => exact inv
      | deleted => exact inv
      | filled first x =>
          have hi : i < cache.hashtable.capacity := (List.getElem?_eq_some_iff.mp hslot).1
          have hcount := filledCount_change_of_filled hslot
            (.filled first { x with lastUseCounter := cache.counter + 1 })
            cache.hashtable.load
          have hpos := filledCount_pos hslot
          simp only [Slot.isFilled, if_true] at hcount
          refine ⟨?_, ?_⟩
          · exact inv.load_eq.trans (Eq.symm (hcount.trans (by omega)))
          · obtain ⟨j, hj⟩ := hasEmpty_iff.mp inv.hasEmpty
            have hji : j ≠ i := by
              rintro rfl
              rw [hslot] at hj
              cases hj
            exact hasEmpty_iff.mpr
              ⟨j, (change_slots_ne hji cache.hashtable.load).trans hj⟩

theorem step_slots (inv : cache.hashtable.SlotInvariant) (op : Op Key Val)
    (leaves : cache.LeavesEmpty hash op) :
    ∃ moved, step hash cache op = some moved ∧ moved.1.hashtable.SlotInvariant := by
  cases op with
  | set k v refCount recheck =>
      obtain ⟨stored, hstore, hkeeps, -⟩ :=
        store_slots hash inv (k, { lastUseCounter := cache.counter, v := v }) false
      have inv' : ({ cache with hashtable := stored.1 } :
          LruCache Key Val).hashtable.SlotInvariant := hkeeps leaves
      obtain ⟨purged, hpurge, inv''⟩ := tryPurge_slots hash inv' refCount recheck
      exact ⟨(purged.1, .set stored.2.2 purged.2), by
        simp only [step, set, Hashtable.insert, hstore, Option.bind_some, hpurge,
          Option.map_some], inv''⟩
  | find key =>
      obtain ⟨found, hfind, inv'⟩ := find_slots hash inv key
      exact ⟨(found.1, .found found.2), by simp only [step, hfind, Option.map_some], inv'⟩

theorem step_leavesEmpty (inv : cache.hashtable.SlotInvariant) {op : Op Key Val}
    {moved : LruCache Key Val × Reply Key Val} (h : step hash cache op = some moved)
    (hempty : moved.1.hashtable.HasEmpty) : cache.LeavesEmpty hash op := by
  cases op with
  | find key => trivial
  | set k v refCount recheck =>
      by_cases hexp : cache.hashtable.NeedsExpand
      · exact Or.inl hexp
      · simp only [step, Option.map_eq_some_iff, set, Option.bind_eq_some_iff] at h
        obtain ⟨done, ⟨stored, hstored, purged, hpurge, rfl⟩, rfl⟩ := h
        obtain ⟨stored', hstore, -, hneeds⟩ :=
          store_slots hash inv (k, LruItem.mk cache.counter v) false
        have heq : stored' = stored := Option.some_inj.mp (hstore.symm.trans hstored)
        subst heq
        refine hneeds (tryPurge_hasEmpty ?_ hpurge hempty)
        -- The table did not grow, so its counter went up by one at most.
        rw [Hashtable.insert, checkSize, if_neg hexp, Option.bind_some] at hstored
        obtain ⟨i, hlookup⟩ := exists_uncheckedLookup_of_hasEmpty hash k true inv.hasEmpty
        obtain ⟨stored, hset, hload, hcap, hle, -⟩ := uncheckedSet_counts inv.load_eq
          inv.hasEmpty.capacity_pos (k, LruItem.mk cache.counter v) false hlookup
        have heq : stored = stored' := Option.some_inj.mp (hset.symm.trans hstored)
        subst heq
        have := inv.load_eq
        unfold NeedsExpand expandThreshold at hexp
        unfold expandThreshold
        dsimp only
        omega

/-- **When lookups are answered.**  In every state that a run of the table
reaches, lookups are answered and those for absent keys meet an empty slot,
exactly when every operation of the run leaves an empty slot; and so for the
table of a cache over a run of `set` and `find`. -/
theorem lookups_answered_iff (hash : Key → ℕ) :
    (∀ capacity ≥ 1, ∀ ops : List (Hashtable.Op Key Val),
      (∀ n, ∃ final,
          runSteps (Hashtable.step hash) (.new capacity) (ops.take n) = some final ∧
            final.1.Answers hash) ↔
        StepsMeet (Hashtable.step hash) (Hashtable.LeavesEmpty hash) (.new capacity) ops) ∧
    (∀ maxItems ≥ 1, ∀ ops : List (Op Key Val),
      (∀ n, ∃ final, runSteps (step hash) (new maxItems) (ops.take n) = some final ∧
          final.1.hashtable.Answers hash) ↔
        StepsMeet (step hash) (LeavesEmpty hash) (new maxItems) ops) := by
  refine ⟨fun capacity hcap ops => run_answers_iff hash hcap ops,
    fun maxItems hmax ops => ?_⟩
  have sound : ∀ cache : LruCache Key Val, cache.hashtable.SlotInvariant →
      cache.hashtable.Answers hash := fun _ inv => inv.answers
  refine runSteps_good_iff sound (fun _ op inv leaves => step_slots inv op leaves)
    (fun _ _ _ inv hstep hgood => step_leavesEmpty inv hstep hgood.1) ?_
  exact new_slotInvariant (by omega)

/-- A table that grows in time and a cache whose purges reuse a tombstone. -/
theorem lookups_answered_iff_growing :
    (∀ n, ∃ final,
        runSteps (Hashtable.step fun _ : ℕ => 0) (.new 4 : Hashtable ℕ ℕ)
          ([.insert (1, 10), .insert (2, 20), .insert (3, 30), .extract 2, .insert (2, 21),
            .insert (4, 40), .find 5].take n) = some final ∧
          final.1.Answers fun _ => 0) ∧
      ∀ n, ∃ final,
        runSteps (step fun _ : ℕ => 0) (new 2 : LruCache ℕ ℕ)
          ([.set 1 10 (fun _ => 1) (fun _ => 1), .set 2 20 (fun _ => 1) (fun _ => 1),
            .find 1, .set 3 30 (fun _ => 1) (fun _ => 1), .find 2,
            .set 4 40 (fun _ => 1) (fun _ => 1), .find 2].take n) = some final ∧
          final.1.hashtable.Answers fun _ => 0 :=
  ⟨((lookups_answered_iff fun _ => 0).1 4 (by decide) _).mpr (by decide),
    ((lookups_answered_iff fun _ => 0).2 2 (by decide) _).mpr (by decide)⟩

/-- Four items through a cache of two: two purges leave two tombstones, and the
fourth item takes the last empty slot.  The next lookup has no answer. -/
theorem lookups_answered_fails :
    ¬ ∀ n, ∃ final,
      runSteps (step fun key : ℕ => key) (new 2 : LruCache ℕ ℕ)
        ([.set 0 0 (fun _ => 1) (fun _ => 1), .set 1 0 (fun _ => 1) (fun _ => 1),
          .set 2 0 (fun _ => 1) (fun _ => 1), .set 3 0 (fun _ => 1) (fun _ => 1),
          .find 4].take n) = some final ∧
        final.1.hashtable.Answers fun key => key := by
  intro h
  obtain ⟨final, hrun, -⟩ := h 5
  have hstuck : (runSteps (step fun key : ℕ => key) (new 2 : LruCache ℕ ℕ)
      ([.set 0 0 (fun _ => 1) (fun _ => 1), .set 1 0 (fun _ => 1) (fun _ => 1),
        .set 2 0 (fun _ => 1) (fun _ => 1), .set 3 0 (fun _ => 1) (fun _ => 1),
        .find 4].take 5)).isSome = false := by decide
  rw [hrun] at hstuck
  cases hstuck

end Slots

end LruCache

end BekOS
