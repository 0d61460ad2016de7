import BekOS.Library.HashtableRefinement
import BekOS.Library.LruCache

/-!
# `LRUCache` as a finite map

What a cache holds, read off its table, and what each call does to it: `find`
leaves it as it is, and `set` of a new key adds the key and may take another
one out, which is then the pair it hands to `purge_fn`.  This is so in a table
without an empty slot, too, as long as calls are answered.
-/

namespace BekOS.LruCache

open Hashtable

universe u v

variable {Key : Type u} {Val : Type v} [BEq Key] {hash : Key → ℕ}

/-- The value the cache holds for a key. -/
def held (hash : Key → ℕ) (cache : LruCache Key Val) : RefMap Key Val := fun key =>
  ((cache.hashtable.find hash key).bind id).map LruItem.v

variable {cache cache' : LruCache Key Val} {items : RefMap Key (LruItem Val)} {key : Key}

theorem find_absent (wf : cache.hashtable.WellFormed hash)
    (absent : ¬ cache.hashtable.Present key) :
    (cache.hashtable.find hash key).bind id = none := by
  cases hlookup : uncheckedLookup hash cache.hashtable key false with
  | none => simp [Hashtable.find, hlookup]
  | some i =>
      have hempty := empty_of_lookup_absent wf.capacity_pos absent hlookup
      simp [Hashtable.find, hlookup, hempty]

theorem held_eq [EquivBEq Key] (wf : cache.hashtable.WellFormed hash)
    (respects : HashRespects hash) (rep : cache.hashtable.Represents items) (key : Key) :
    cache.held hash key = (items key).map LruItem.v := by
  unfold held
  by_cases hpresent : cache.hashtable.Present key
  · rw [find_spec wf respects rep (Or.inr hpresent)]
    rfl
  · rw [find_absent wf hpresent, rep.eq_none hpresent]

theorem exists_items [EquivBEq Key] (wf : cache.hashtable.WellFormed hash)
    (respects : HashRespects hash) : ∃ items, cache.hashtable.Represents items := by
  refine ⟨fun key => (cache.hashtable.find hash key).bind id, fun key val => ?_⟩
  constructor
  · intro hfind
    change (cache.hashtable.find hash key).bind id = some val at hfind
    by_contra hnone
    have absent : ¬ cache.hashtable.Present key := by
      intro hpresent
      obtain ⟨i, val', hholds⟩ := present_iff.mp hpresent
      have hlookup := wf.lookup_of_holds respects hholds
      obtain ⟨stored, hslot, hkey⟩ := hholds
      have heq : val' = val := by
        simpa [Hashtable.find, hlookup, hslot] using hfind
      exact hnone ⟨i, stored, heq ▸ hslot, hkey⟩
    rw [find_absent wf absent] at hfind
    cases hfind
  · rintro ⟨i, hholds⟩
    have hlookup := wf.lookup_of_holds respects hholds
    obtain ⟨stored, hslot, -⟩ := hholds
    simp [Hashtable.find, hlookup, hslot]

theorem new_slots [EquivBEq Key] {maxItems : ℕ} (hmax : 1 ≤ maxItems) :
    (new maxItems : LruCache Key Val).hashtable.WellFormed hash ∧
      (new maxItems : LruCache Key Val).hashtable.HasEmpty :=
  ⟨new_wellFormed (by omega), (new_slotInvariant (by omega)).hasEmpty⟩

theorem held_new [EquivBEq Key] (respects : HashRespects hash) {maxItems : ℕ}
    (hmax : 1 ≤ maxItems) (key : Key) : (new maxItems : LruCache Key Val).held hash key = none :=
  held_eq (new_slots hmax).1 respects (new_represents _) key

/-! ## The calls -/

section Calls

variable [EquivBEq Key]

omit [EquivBEq Key] in
theorem map_update {Item : Type v} (items : RefMap Key Item) (f : Item → Val) (key : Key)
    (val : Option Item) :
    (fun other => ((items.update key val) other).map f) =
      RefMap.update (fun other => (items other).map f) key (val.map f) := by
  funext other
  unfold RefMap.update
  split_ifs <;> rfl

/-- `find` is answered for a key that is there, and for any key while there is an
empty slot. -/
theorem exists_find (wf : cache.hashtable.WellFormed hash) (respects : HashRespects hash)
    (h : cache.hashtable.HasEmpty ∨ cache.held hash key ≠ none) :
    ∃ found, cache.find hash key = some found := by
  obtain ⟨i, hlookup⟩ : ∃ i, uncheckedLookup hash cache.hashtable key false = some i := by
    rcases h with hempty | hheld
    · exact exists_uncheckedLookup_of_hasEmpty hash key false hempty
    · have hpresent : cache.hashtable.Present key := by
        by_contra absent
        refine hheld ?_
        rw [held, find_absent wf absent, Option.map_none]
      obtain ⟨i, val, hholds⟩ := present_iff.mp hpresent
      exact ⟨i, wf.lookup_of_holds respects hholds⟩
  exact ⟨_, by rw [LruCache.find, hlookup, Option.map_some]⟩

omit [EquivBEq Key] in
theorem hasEmpty_of_find_none (wf : cache.hashtable.WellFormed hash)
    (h : cache.find hash key = some (cache', none)) : cache.hashtable.HasEmpty := by
  obtain ⟨i, hlookup, hfound⟩ := Option.map_eq_some_iff.mp h
  rcases acceptsAt_iff.mp (acceptsAt_of_uncheckedLookup hash wf.capacity_pos hlookup) with
    hempty | ⟨-, hfalse⟩ | ⟨val, stored, hslot, -⟩
  · exact hasEmpty_iff.mpr ⟨i, hempty⟩
  · cases hfalse
  · simp [hslot] at hfound

/-- `find` answers what is held and changes only the counters. -/
theorem find_held (wf : cache.hashtable.WellFormed hash) (respects : HashRespects hash)
    {found : Option Val} (h : cache.find hash key = some (cache', found)) :
    found = cache.held hash key ∧ cache'.hashtable.WellFormed hash ∧
      cache'.held hash = cache.held hash ∧
      (cache.hashtable.HasEmpty → cache'.hashtable.HasEmpty) := by
  obtain ⟨items, rep⟩ := exists_items wf respects
  obtain ⟨i, hlookup, hfound⟩ := Option.map_eq_some_iff.mp h
  have hheld : cache.held hash key =
      (cache.hashtable.slots[i]?.bind Slot.pair?).map fun pair => pair.2.v := by
    unfold held
    rw [Hashtable.find, hlookup, Option.map_some, Option.bind_some]
    rcases cache.hashtable.slots[i]? with _ | _ | _ | _ <;> rfl
  rw [hheld]
  cases hslot : cache.hashtable.slots[i]? with
  | none =>
      rw [hslot] at hfound
      cases hfound
      exact ⟨rfl, wf, rfl, id⟩
  | some slot =>
      rw [hslot] at hfound
      cases slot with
      | empty =>
          cases hfound
          exact ⟨rfl, wf, rfl, id⟩
      | deleted =>
          cases hfound
          exact ⟨rfl, wf, rfl, id⟩
      | filled first x =>
          cases hfound
          have hholds : cache.hashtable.Holds first i x := ⟨first, hslot, BEq.refl first⟩
          have wf' := wf.overwrite respects hholds
            { x with lastUseCounter := cache.counter + 1 }
          have rep' := rep.overwrite wf respects hholds cache.hashtable.load
            { x with lastUseCounter := cache.counter + 1 }
          refine ⟨rfl, wf', funext fun other => ?_, fun hempty => ?_⟩
          · have hold : items first = some x := (rep first x).mpr ⟨i, hholds⟩
            have hwf : ({ cache with
                counter := cache.counter + 1
                hashtable := cache.hashtable.change i
                  (.filled first { x with lastUseCounter := cache.counter + 1 })
                  cache.hashtable.load } : LruCache Key Val).hashtable.WellFormed hash := wf'
            refine (held_eq hwf respects rep' other).trans ?_
            rw [held_eq wf respects rep other]
            -- The item of an equal key is `x`, and the new one differs in its counter only.
            unfold RefMap.update
            split_ifs with hkey
            · have hother : items other = some x :=
                (rep other x).mpr ⟨i, hholds.congr hkey⟩
              rw [hother]
              rfl
            · rfl
          · obtain ⟨j, hj⟩ := hasEmpty_iff.mp hempty
            have hji : j ≠ i := by
              rintro rfl
              rw [hslot] at hj
              cases hj
            exact hasEmpty_iff.mpr ⟨j, (change_slots_ne hji cache.hashtable.load).trans hj⟩

theorem insert_held (wf : cache.hashtable.WellFormed hash) (respects : HashRespects hash)
    (hasEmpty : cache.hashtable.HasEmpty) (absent : cache.held hash key = none)
    (item : LruItem Val) :
    ∃ table' i, cache.hashtable.insert hash (key, item) = some (table', (i, true)) ∧
      table'.WellFormed hash ∧
      (table'.HasEmpty ↔ cache.hashtable.KeepsEmpty hash key) ∧
      ({ cache with hashtable := table' } : LruCache Key Val).held hash =
        (cache.held hash).update key (some item.v) := by
  obtain ⟨items, rep⟩ := exists_items wf respects
  have hnone : items key = none := by
    rw [held_eq wf respects rep] at absent
    simpa using absent
  have clear : ¬ cache.hashtable.Shadowed hash key := by
    intro hshadow
    obtain ⟨i, _, val, hholds, -⟩ := shadowed_iff.mp hshadow
    rw [(rep key val).mpr ⟨i, hholds⟩] at hnone
    cases hnone
  obtain ⟨table', i, hstore, wf', rep'⟩ :=
    store_spec wf respects rep (Or.inr clear) item false
  obtain ⟨stored, hstored, hkeeps, hneeds⟩ :=
    store_slots hash ⟨wf.load_eq, hasEmpty⟩ (key, item) false
  have heq : stored.1 = table' := by
    rw [hstored, Option.some_inj] at hstore
    rw [hstore]
  rw [heq] at hkeeps hneeds
  rw [hnone] at hstore rep'
  refine ⟨table', i, hstore, wf', ⟨hneeds, fun keeps => (hkeeps keeps).hasEmpty⟩,
    funext fun other => ?_⟩
  have hwf : ({ cache with hashtable := table' } : LruCache Key Val).hashtable.WellFormed hash :=
    wf'
  refine (held_eq hwf respects rep' other).trans ?_
  have hheld : cache.held hash = fun other => (items other).map LruItem.v :=
    funext (held_eq wf respects rep)
  rw [hheld]
  exact congrFun (map_update items LruItem.v key (some item)) other

omit [BEq Key] [EquivBEq Key] in
theorem considerDelete_foldl (refCount : Val → ℕ) :
    ∀ (pairs : List (Key × LruItem Val)) (start : Option (Key × BitVec 64))
      (found : Key × BitVec 64),
      pairs.foldl (considerDelete refCount) start = some found →
      start = some found ∨ ∃ item ∈ pairs, item.1 = found.1 ∧ refCount item.2.v = 1 := by
  intro pairs
  induction pairs with
  | nil => exact fun _ _ h => Or.inl h
  | cons item rest ih =>
      intro start found h
      rcases ih _ found h with hstep | ⟨other, hmem, hother⟩
      · unfold considerDelete at hstep
        split_ifs at hstep with hitem
        · cases hstep
          exact Or.inr ⟨item, List.mem_cons_self, rfl, hitem.1⟩
        · exact Or.inl hstep
      · exact Or.inr ⟨other, List.mem_cons_of_mem _ hmem, hother⟩

/-- `try_purge` takes out nothing, or one pair that only the cache references. -/
theorem tryPurge_held (wf : cache.hashtable.WellFormed hash) (respects : HashRespects hash)
    {refCount recheck : Val → ℕ} (hcount : ∀ v, refCount v = 1 → recheck v = 1) :
    ∃ cache' purged, tryPurge hash cache refCount recheck = some (cache', purged) ∧
      cache'.hashtable.WellFormed hash ∧
      (cache'.hashtable.HasEmpty ↔ cache.hashtable.HasEmpty) ∧
      (purged = none ∧ cache'.held hash = cache.held hash ∨
        ∃ k w, purged = some (k, w) ∧ refCount w = 1 ∧ cache.held hash k = some w ∧
          cache'.held hash = (cache.held hash).update k none) := by
  unfold tryPurge
  split_ifs with hfull
  · cases hfound : cache.toDelete refCount with
    | none => exact ⟨cache, none, rfl, wf, Iff.rfl, Or.inl ⟨rfl, rfl⟩⟩
    | some found =>
        obtain ⟨items, rep⟩ := exists_items wf respects
        obtain ⟨k, counter⟩ := found
        rcases considerDelete_foldl refCount _ none _ hfound with h | ⟨item, hmem, hkey, hone⟩
        · cases h
        obtain ⟨stored, x⟩ := item
        change stored = k at hkey
        subst hkey
        have hitem : items stored = some x :=
          ((wf.enumerates respects rep).2 stored x).mpr
            ⟨(stored, x), hmem, BEq.refl stored, rfl⟩
        have hpresent : cache.hashtable.Present stored := rep.present_iff.mpr ⟨x, hitem⟩
        obtain ⟨table', hextract, wf', rep'⟩ :=
          @extract_spec _ _ _ hash cache.hashtable items stored _ wf respects rep
            (Or.inr hpresent)
        have hempty : table'.HasEmpty ↔ cache.hashtable.HasEmpty := by
          obtain ⟨i, hlookup, -⟩ := Option.map_eq_some_iff.mp hextract
          rcases extract_cases stored hlookup with hsame | ⟨k, w, hslot, htaken⟩
          · rw [hsame, hitem] at hextract
            cases hextract
          · rw [htaken, Option.some_inj, Prod.mk.injEq] at hextract
            rw [← hextract.1]
            exact tombstone_hasEmpty_iff hslot
        refine ⟨{ cache with hashtable := table' }, some (stored, x.v), ?_, wf', hempty,
          Or.inr ⟨stored, x.v, rfl, hone, ?_, ?_⟩⟩
        · dsimp only
          rw [purgeKey, hextract, hitem, Option.bind_some]
          exact if_pos (hcount x.v hone)
        · rw [held_eq wf respects rep, hitem]
          rfl
        · have hheld : cache.held hash = fun other => (items other).map LruItem.v :=
            funext (held_eq wf respects rep)
          rw [hheld]
          have hwf : ({ cache with hashtable := table' } :
              LruCache Key Val).hashtable.WellFormed hash := wf'
          exact (funext (held_eq hwf respects rep')).trans
            (map_update items LruItem.v stored none)
  · exact ⟨cache, none, rfl, wf, Iff.rfl, Or.inl ⟨rfl, rfl⟩⟩

/-- **`set` of a new key** stores it and hands at most one pair to `purge_fn`,
one that the cache held and that nobody else references. -/
theorem set_held (wf : cache.hashtable.WellFormed hash) (respects : HashRespects hash)
    (hasEmpty : cache.hashtable.HasEmpty) (absent : cache.held hash key = none)
    (v : Val) {refCount recheck : Val → ℕ} (hcount : ∀ v, refCount v = 1 → recheck v = 1) :
    ∃ cache' purged, cache.set hash key v refCount recheck = some (cache', (true, purged)) ∧
      cache'.hashtable.WellFormed hash ∧
      (cache'.hashtable.HasEmpty ↔ cache.hashtable.KeepsEmpty hash key) ∧
      (purged = none ∧ cache'.held hash = (cache.held hash).update key (some v) ∨
        ∃ k w, purged = some (k, w) ∧ refCount w = 1 ∧
          (cache.held hash).update key (some v) k = some w ∧
          cache'.held hash = ((cache.held hash).update key (some v)).update k none) := by
  obtain ⟨table', i, hinsert, wf', hkeeps, hheld⟩ := insert_held wf respects hasEmpty absent
    { lastUseCounter := cache.counter, v := v }
  have hwf : ({ cache with hashtable := table' } : LruCache Key Val).hashtable.WellFormed hash :=
    wf'
  obtain ⟨cache', purged, hpurge, wf'', hempty, hcases⟩ := tryPurge_held hwf respects hcount
  rw [hheld] at hcases
  refine ⟨cache', purged, ?_, wf'', hempty.trans hkeeps, hcases⟩
  rw [LruCache.set, hinsert, Option.bind_some, hpurge, Option.map_some]

end Calls

end BekOS.LruCache
