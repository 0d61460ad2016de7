import Mathlib.Data.List.Induction
import Mathlib.Data.List.Nodup
import BekOS.Library.LruCacheMap

/-!
# The order in which `LRUCache` purges

Items by their last touch, an insertion or a hit: that is the order in which a least
recently used cache purges them.  `LRUCache` goes by 64-bit counters of the hits, which an
insertion does not step, so items touched one after the other may carry the same one.
`try_purge` then takes the one that comes first in the table.  After `2 ^ 64` hits the counters
start again, and an item touched later may have the lower one.
-/

namespace BekOS.LruCache

open Hashtable PartialRun Function

universe u v

variable {Key : Type u} {Val : Type v}

/-! ## Last touches -/

/-- A call to the cache: a `set`, with how often each value is referenced while it runs,
or a `find`. -/
inductive Touch (Key : Type u) (Val : Type v) where
  | set (k : Key) (v : Val) (refCount : Val → ℕ)
  | find (key : Key)

/-- The call of the model: nobody takes a reference between the scan and the re-check. -/
def Touch.call : Touch Key Val → Op Key Val
  | .set k v refCount => .set k v refCount refCount
  | .find key => .find key

section Reference

variable [DecidableEq Key]

/-- An insertion touches an item that is new. -/
def touchNew (touched : List (Key × Val)) (k : Key) (v : Val) : List (Key × Val) × Bool :=
  if k ∈ touched.map Prod.fst then (touched, false) else (touched ++ [(k, v)], true)

/-- Among too many items, the one to purge: of those that only the cache references, the
one touched least recently. -/
def leastRecent (maxItems : ℕ) (refCount : Val → ℕ) (touched : List (Key × Val)) :
    Option (Key × Val) :=
  if touched.length > maxItems then touched.find? fun item => refCount item.2 = 1 else none

/-- The items without one key. -/
def without {Item : Type v} (key : Key) (items : List (Key × Item)) : List (Key × Item) :=
  items.filter fun item => item.1 ≠ key

/-- What is left when an item was purged, or none. -/
def dropPurged (touched : List (Key × Val)) : Option (Key × Val) → List (Key × Val)
  | some purged => without purged.1 touched
  | none => touched

/-- What a call does to the items, in the order of their last touches, and what it
answers, in a cache that purges the least recently used one. -/
def touch (maxItems : ℕ) (touched : List (Key × Val)) :
    Touch Key Val → List (Key × Val) × Reply Key Val
  | .set k v refCount =>
      let stored := touchNew touched k v
      let purged := leastRecent maxItems refCount stored.1
      (dropPurged stored.1 purged, .set stored.2 purged)
  | .find key =>
      match touched.find? fun item => item.1 = key with
      | some item => (without key touched ++ [item], .found (some item.2))
      | none => (touched, .found none)

theorem touch_find_some {maxItems : ℕ} {touched : List (Key × Val)} {key : Key}
    {item : Key × Val} (h : touched.find? (fun item => item.1 = key) = some item) :
    touch maxItems touched (.find key) =
      (without key touched ++ [item], .found (some item.2)) := by
  simp only [touch, h]

theorem touch_find_none {maxItems : ℕ} {touched : List (Key × Val)} {key : Key}
    (h : touched.find? (fun item => item.1 = key) = none) :
    touch maxItems touched (.find key) = (touched, .found none) := by
  simp only [touch, h]

/-- How many hits of `find` there have been, and for each key how many when it was last touched. -/
structure Hits (Key : Type u) where
  total : ℕ
  atTouch : Key → ℕ

namespace Hits

def zero : Hits Key := ⟨0, fun _ => 0⟩

def mark (hits : Hits Key) (key : Key) : Hits Key :=
  { hits with atTouch := update hits.atTouch key hits.total }

/-- An insertion touches an item that is new, and is no hit. -/
def touchNew (hits : Hits Key) (touched : List (Key × Val)) (k : Key) : Hits Key :=
  if k ∈ touched.map Prod.fst then hits else hits.mark k

/-- The hits after a call; a `find` that hits counts for its own touch. -/
def after (hits : Hits Key) (touched : List (Key × Val)) : Touch Key Val → Hits Key
  | .set k _ _ => hits.touchNew touched k
  | .find key =>
      if key ∈ touched.map Prod.fst then mark { hits with total := hits.total + 1 } key else hits

end Hits

/-- A cache, its items in the order of their last touches, and the hits so far. -/
structure TrackedCache (Key : Type u) (Val : Type v) where
  cache : LruCache Key Val
  touched : List (Key × Val)
  hits : Hits Key

variable (hash : Key → ℕ)

/-- A call, with the touches and the hits beside the cache. -/
def trackedStep (state : TrackedCache Key Val) (call : Touch Key Val) :
    Option (TrackedCache Key Val × Reply Key Val) :=
  (step hash state.cache call.call).map fun moved =>
    ({ cache := moved.1
       touched := (touch state.cache.maxItems state.touched call).1
       hits := state.hits.after state.touched call }, moved.2)

/-- The call answers, purges and leaves in the cache what it does in one that purges the
least recently used item. -/
def PurgesOldest (state : TrackedCache Key Val) (call : Touch Key Val) : Prop :=
  ∀ moved ∈ step hash state.cache call.call,
    moved.2 = (touch state.cache.maxItems state.touched call).2 ∧
      ∀ key val, moved.1.held hash key = some val ↔
        (key, val) ∈ (touch state.cache.maxItems state.touched call).1

/-- Of the items that only the cache references, the one touched least recently has the least number
of hits before its touch, modulo `2 ^ 64`, and comes in the table before the others that have the
same. -/
def OldestFirst (table : Hashtable Key (LruItem Val)) (hits : Hits Key) (refCount : Val → ℕ)
    (touched : List (Key × Val)) : Prop :=
  ∀ oldest rest, touched.filter (fun item => refCount item.2 = 1) = oldest :: rest →
    ∀ p ∈ table.visited, p.1 = oldest.1 → ∀ q ∈ table.visited, (q.1, q.2.v) ∈ rest →
      hits.atTouch p.1 % 2 ^ 64 < hits.atTouch q.1 % 2 ^ 64 ∨
        hits.atTouch p.1 % 2 ^ 64 = hits.atTouch q.1 % 2 ^ 64 ∧ [p, q].Sublist table.visited

/-- A `set` does not miss its key behind a tombstone, and where it purges the oldest is first. -/
def SetsInOrder (state : TrackedCache Key Val) : Touch Key Val → Prop
  | .set k v refCount =>
      (state.cache.hashtable.NeedsExpand ∨ ¬ state.cache.hashtable.Shadowed hash k) ∧
        ∀ stored ∈ state.cache.hashtable.insert hash
            (k, { lastUseCounter := state.cache.counter, v := v }),
          stored.1.itemCount > state.cache.maxItems →
            OldestFirst stored.1 (state.hits.touchNew state.touched k) refCount
              (touchNew state.touched k v).1
  | .find _ => True

end Reference

/-! ## The scan of `try_purge` -/

/-- The scan takes the first item with the least counter among those that only the cache
references. -/
theorem considerDelete_foldl_eq (refCount : Val → ℕ) (pairs : List (Key × LruItem Val)) :
    (pairs.foldl (considerDelete refCount) none = none ∧ ∀ p ∈ pairs, refCount p.2.v ≠ 1) ∨
      ∃ front item back, pairs = front ++ item :: back ∧ refCount item.2.v = 1 ∧
        pairs.foldl (considerDelete refCount) none = some (item.1, item.2.lastUseCounter) ∧
        (∀ p ∈ front, refCount p.2.v = 1 → item.2.lastUseCounter < p.2.lastUseCounter) ∧
        ∀ p ∈ back, refCount p.2.v = 1 → item.2.lastUseCounter ≤ p.2.lastUseCounter := by
  induction pairs using List.reverseRecOn with
  | nil => exact Or.inl ⟨rfl, fun p hp => absurd hp List.not_mem_nil⟩
  | append_singleton pairs last ih =>
      rw [List.foldl_append, List.foldl_cons, List.foldl_nil]
      rcases ih with ⟨hnone, hall⟩ | ⟨front, item, back, rfl, hone, hsome, hfront, hback⟩
      · rw [hnone]
        unfold considerDelete
        by_cases hlast : refCount last.2.v = 1
        · rw [if_pos ⟨hlast, fun found hfound => by cases hfound⟩]
          exact Or.inr ⟨pairs, last, [], rfl, hlast, rfl,
            fun p hp hp' => absurd hp' (hall p hp), fun p hp => absurd hp List.not_mem_nil⟩
        · rw [if_neg fun h => hlast h.1]
          refine Or.inl ⟨rfl, fun p hp => ?_⟩
          rcases List.mem_append.mp hp with hp | hp
          · exact hall p hp
          · rwa [List.mem_singleton.mp hp]
      · rw [hsome]
        unfold considerDelete
        simp only [Option.mem_def, Option.some_inj, forall_eq']
        by_cases hless : refCount last.2.v = 1 ∧ item.2.lastUseCounter > last.2.lastUseCounter
        · rw [if_pos hless]
          refine Or.inr ⟨front ++ item :: back, last, [], rfl, hless.1, rfl, fun p hp hp' => ?_,
            fun p hp => absurd hp List.not_mem_nil⟩
          rcases List.mem_append.mp hp with hp | hp
          · exact BitVec.lt_trans hless.2 (hfront p hp hp')
          · rcases List.mem_cons.mp hp with rfl | hp
            · exact hless.2
            · exact Nat.lt_of_lt_of_le hless.2 (hback p hp hp')
        · rw [if_neg hless]
          refine Or.inr ⟨front, item, back ++ [last], by simp, hone, rfl, hfront,
            fun p hp hp' => ?_⟩
          rcases List.mem_append.mp hp with hp | hp
          · exact hback p hp hp'
          · rw [List.mem_singleton.mp hp] at hp' ⊢
            exact BitVec.not_lt.mp fun hlt => hless ⟨hp', hlt⟩

theorem not_sublist_swap {α : Type u} {list : List α} (hnodup : list.Nodup) {a b : α}
    (h : [a, b].Sublist list) : ¬ [b, a].Sublist list := by
  induction list with
  | nil => cases h
  | cons c rest ih =>
      obtain ⟨hc, hrest⟩ := List.nodup_cons.mp hnodup
      intro h'
      rcases List.sublist_cons_iff.mp h with hab | ⟨tail, heq, htail⟩
      · rcases List.sublist_cons_iff.mp h' with hba | ⟨tail, heq, -⟩
        · exact ih hrest hab hba
        · cases heq
          exact hc (hab.subset (List.mem_cons_of_mem _ List.mem_cons_self))
      · cases heq
        rcases List.sublist_cons_iff.mp h' with hba | ⟨tail, heq, htail'⟩
        · exact hc (hba.subset (List.mem_cons_of_mem _ List.mem_cons_self))
        · cases heq
          exact hc (htail.subset List.mem_cons_self)

/-! ## Tables with keys that are equal when they are the same -/

section Pairs

variable [DecidableEq Key] {hash : Key → ℕ} {Item : Type v} {table : Hashtable Key Item}
  {items : RefMap Key Item}

theorem respects_of_eq (hash : Key → ℕ) : HashRespects hash := fun key other heq => by
  rw [eq_of_beq heq]

variable {key : Key} {x : Item} {list : List (Key × Item)}

theorem mem_pairs_iff (rep : table.Represents items) :
    (key, x) ∈ table.pairs ↔ items key = some x := by
  rw [rep key x, exists_holds_iff]
  constructor
  · exact fun hmem => ⟨(key, x), hmem, BEq.refl key, rfl⟩
  · rintro ⟨⟨other, y⟩, hmem, hkey, rfl⟩
    rwa [eq_of_beq hkey]

theorem keys_nodup (wf : table.WellFormed hash) : (table.pairs.map Prod.fst).Nodup := by
  rw [List.nodup_iff_pairwise_ne, List.pairwise_map]
  exact (wf.pairs_distinct (respects_of_eq hash)).imp fun h heq => by
    rw [heq, BEq.refl] at h
    cases h

theorem perm_pairs (wf : table.WellFormed hash) (rep : table.Represents items)
    (distinct : (list.map Prod.fst).Nodup) (h : ∀ key x, (key, x) ∈ list ↔ items key = some x) :
    list.Perm table.pairs :=
  (List.perm_ext_iff_of_nodup (List.Nodup.of_map _ distinct)
    (List.Nodup.of_map _ (keys_nodup wf))).mpr fun p => (h p.1 p.2).trans (mem_pairs_iff rep).symm

theorem without_nodup (distinct : (list.map Prod.fst).Nodup) :
    ((without key list).map Prod.fst).Nodup :=
  distinct.sublist (List.filter_sublist.map Prod.fst)

theorem mem_without {other : Key} :
    (other, x) ∈ without key list ↔ (other, x) ∈ list ∧ other ≠ key := by
  rw [without, List.mem_filter, decide_eq_true_iff]

omit [DecidableEq Key] in
theorem eq_of_key (distinct : (list.map Prod.fst).Nodup) {p q : Key × Item} (hp : p ∈ list)
    (hq : q ∈ list) (hkey : p.1 = q.1) : p = q :=
  List.inj_on_of_nodup_map distinct hp hq hkey

theorem find?_key (distinct : (list.map Prod.fst).Nodup) (h : (key, x) ∈ list) :
    list.find? (fun item => item.1 = key) = some (key, x) := by
  cases hfind : list.find? (fun item => item.1 = key) with
  | none => exact absurd (decide_eq_true rfl) (List.find?_eq_none.mp hfind (key, x) h)
  | some item =>
      have hkey : item.1 = key := by simpa using List.find?_some hfind
      rw [eq_of_key distinct (List.mem_of_find?_eq_some hfind) h hkey]

theorem find?_key_none (h : ∀ x, (key, x) ∉ list) :
    list.find? (fun item => item.1 = key) = none :=
  List.find?_eq_none.mpr fun item hmem heq => h item.2 (of_decide_eq_true heq ▸ hmem)

end Pairs

/-! ## The invariant -/

section Tracks

variable [DecidableEq Key] {hash : Key → ℕ} {cache cache' : LruCache Key Val}
  {touched : List (Key × Val)} {hits : Hits Key} {stamped : List (Key × LruItem Val)}

/-- An item without its counter. -/
def bare (item : Key × LruItem Val) : Key × Val := (item.1, item.2.v)

/-- Items with the numbers of hits as their counters, which do not go down from one touched earlier
to one touched later. -/
structure Counted (hits : Hits Key) (stamped : List (Key × LruItem Val)) : Prop where
  stamps : ∀ p ∈ stamped, p.2.lastUseCounter = BitVec.ofNat 64 (hits.atTouch p.1)
  ordered : stamped.Pairwise fun p q => hits.atTouch p.1 ≤ hits.atTouch q.1
  bounded : ∀ p ∈ stamped, hits.atTouch p.1 ≤ hits.total

/-- They are the items of the cache. -/
structure Stamped (cache : LruCache Key Val) (hits : Hits Key)
    (stamped : List (Key × LruItem Val)) : Prop extends Counted hits stamped where
  perm : stamped.Perm cache.hashtable.pairs

/-- The list is that of the cache's items by their last touch, and the counters are of the hits. -/
structure Tracks (hash : Key → ℕ) (cache : LruCache Key Val) (touched : List (Key × Val))
    (hits : Hits Key) : Prop where
  wf : cache.hashtable.WellFormed hash
  counter : cache.counter = BitVec.ofNat 64 hits.total
  stamped : ∃ stamped, Stamped cache hits stamped ∧ stamped.map bare = touched

omit [DecidableEq Key] in
theorem Counted.sublist {list : List (Key × LruItem Val)} (counted : Counted hits stamped)
    (hsub : list.Sublist stamped) : Counted hits list where
  stamps p hp := counted.stamps p (hsub.subset hp)
  ordered := counted.ordered.sublist hsub
  bounded p hp := counted.bounded p (hsub.subset hp)

theorem Counted.mark (counted : Counted hits stamped) {key : Key} (hnew : ∀ p ∈ stamped, p.1 ≠ key)
    {total : ℕ} (hle : hits.total ≤ total) {x : LruItem Val}
    (hx : x.lastUseCounter = BitVec.ofNat 64 total) :
    Counted (Hits.mark ⟨total, hits.atTouch⟩ key) (stamped ++ [(key, x)]) := by
  have hkeep : ∀ p ∈ stamped, (Hits.mark ⟨total, hits.atTouch⟩ key).atTouch p.1 =
      hits.atTouch p.1 := fun p hp => update_of_ne (hnew p hp) _ _
  have hself : (Hits.mark ⟨total, hits.atTouch⟩ key).atTouch key = total :=
    update_self _ _ _
  refine ⟨List.forall_mem_append.mpr ⟨fun p hp => ?_, List.forall_mem_singleton.mpr ?_⟩,
    List.pairwise_append.mpr ⟨counted.ordered.imp_of_mem fun hp hq h => ?_,
      List.pairwise_singleton _ _, fun p hp => List.forall_mem_singleton.mpr ?_⟩,
    List.forall_mem_append.mpr ⟨fun p hp => ?_, List.forall_mem_singleton.mpr hself.le⟩⟩
  · rw [hkeep p hp, counted.stamps p hp]
  · rw [hself, hx]
  · rwa [hkeep _ hp, hkeep _ hq]
  · rw [hself, hkeep p hp]
    exact (counted.bounded p hp).trans hle
  · rw [hkeep p hp]
    exact (counted.bounded p hp).trans hle

theorem Stamped.distinct (wf : cache.hashtable.WellFormed hash) (h : Stamped cache hits stamped) :
    (stamped.map Prod.fst).Nodup :=
  ((h.perm.map Prod.fst).nodup_iff).mpr (keys_nodup wf)

omit [DecidableEq Key] in
theorem map_fst_bare (stamped : List (Key × LruItem Val)) :
    (stamped.map bare).map Prod.fst = stamped.map Prod.fst := by
  rw [List.map_map]
  rfl

omit [DecidableEq Key] in
theorem mem_bare_iff {key : Key} {val : Val} :
    (key, val) ∈ stamped.map bare ↔ ∃ x, (key, x) ∈ stamped ∧ x.v = val := by
  rw [List.mem_map]
  constructor
  · rintro ⟨⟨other, x⟩, hmem, heq⟩
    cases heq
    exact ⟨x, hmem, rfl⟩
  · rintro ⟨x, hmem, rfl⟩
    exact ⟨(key, x), hmem, rfl⟩

theorem Tracks.held_iff (tracks : Tracks hash cache touched hits) {key : Key} {val : Val} :
    cache.held hash key = some val ↔ (key, val) ∈ touched := by
  obtain ⟨stamped, hstamped, rfl⟩ := tracks.stamped
  obtain ⟨items, rep⟩ := exists_items tracks.wf (respects_of_eq hash)
  rw [held_eq tracks.wf (respects_of_eq hash) rep, Option.map_eq_some_iff, mem_bare_iff]
  refine exists_congr fun x => and_congr_left fun _ => ?_
  rw [← mem_pairs_iff rep, hstamped.perm.mem_iff]

theorem Tracks.length_eq (tracks : Tracks hash cache touched hits) :
    cache.hashtable.itemCount = touched.length := by
  obtain ⟨stamped, hstamped, rfl⟩ := tracks.stamped
  rw [itemCount, tracks.wf.load_eq, ← length_pairs, ← hstamped.perm.length_eq, List.length_map]

theorem Tracks.new {maxItems : ℕ} (hmax : 1 ≤ maxItems) :
    Tracks hash (new maxItems : LruCache Key Val) [] .zero where
  wf := (new_slots hmax).1
  counter := rfl
  stamped := by
    have wf : (LruCache.new maxItems : LruCache Key Val).hashtable.WellFormed hash :=
      (new_slots hmax).1
    exact ⟨[], ⟨⟨fun p hp => absurd hp List.not_mem_nil, List.Pairwise.nil,
      fun p hp => absurd hp List.not_mem_nil⟩, perm_pairs wf (new_represents _) List.nodup_nil
      fun key x => iff_of_false List.not_mem_nil (Option.some_ne_none x).symm⟩, rfl⟩

/-! ## What is purged -/

omit [DecidableEq Key] in
theorem Stamped.toNat_eq (hstamped : Stamped cache hits stamped) {p : Key × LruItem Val}
    (hp : p ∈ cache.hashtable.pairs) :
    p.2.lastUseCounter.toNat = hits.atTouch p.1 % 2 ^ 64 := by
  rw [hstamped.stamps p (hstamped.perm.mem_iff.mpr hp), BitVec.toNat_ofNat]

/-- **The scan finds the item touched least recently** exactly when the oldest is first. -/
theorem toDelete_eq_iff (wf : cache.hashtable.WellFormed hash)
    (hstamped : Stamped cache hits stamped)
    {refCount : Val → ℕ} {oldest : Key × LruItem Val} {rest : List (Key × LruItem Val)}
    (hunref : stamped.filter (fun item => refCount item.2.v = 1) = oldest :: rest) :
    cache.toDelete refCount = some (oldest.1, oldest.2.lastUseCounter) ↔
      OldestFirst cache.hashtable hits refCount (stamped.map bare) := by
  have hfilter : (stamped.map bare).filter (fun item => refCount item.2 = 1) =
      bare oldest :: rest.map bare := by
    rw [List.filter_map, ← List.map_cons, ← hunref]
    rfl
  have distinct := hstamped.distinct wf
  have hsub : (oldest :: rest).Sublist stamped := hunref ▸ List.filter_sublist
  have hmem : ∀ p, p ∈ oldest :: rest ↔ p ∈ cache.hashtable.pairs ∧ refCount p.2.v = 1 := by
    intro p
    rw [← hunref, List.mem_filter, decide_eq_true_iff, hstamped.perm.mem_iff]
  obtain ⟨holdest, honeOldest⟩ := (hmem oldest).mp List.mem_cons_self
  have hkeys : ∀ p ∈ rest, p.1 ≠ oldest.1 := fun p hp heq => by
    have := (List.nodup_cons.mp (distinct.sublist (hsub.map Prod.fst))).1
    exact this (heq ▸ List.mem_map_of_mem hp)
  have hnodup := List.Nodup.of_map _ (keys_nodup wf)
  unfold toDelete OldestFirst
  rw [visited_eq]
  rcases considerDelete_foldl_eq refCount cache.hashtable.pairs with
    ⟨-, hall⟩ | ⟨front, item, back, hpairs, hone, hfound, hfront, hback⟩
  · exact absurd honeOldest (hall oldest holdest)
  rw [hfound, Option.some_inj, Prod.mk.injEq]
  have hitem : item ∈ cache.hashtable.pairs := by
    rw [hpairs]
    exact List.mem_append_right _ List.mem_cons_self
  have hpart : ∀ p ∈ cache.hashtable.pairs, p ∈ front ∨ p = item ∨ p ∈ back := fun p hp => by
    rw [hpairs, List.mem_append, List.mem_cons] at hp
    exact hp
  constructor
  · rintro ⟨hkey, -⟩ first later hlist p hp hpkey q hq hqlater
    obtain rfl := eq_of_key (keys_nodup wf) hitem holdest hkey
    obtain ⟨rfl, rfl⟩ := List.cons_eq_cons.mp (hfilter.symm.trans hlist)
    obtain rfl := eq_of_key (keys_nodup wf) hp holdest hpkey
    obtain ⟨r, hr, heq⟩ := List.mem_map.mp hqlater
    obtain ⟨hrpairs, hrone⟩ := (hmem r).mp (List.mem_cons_of_mem _ hr)
    obtain rfl := eq_of_key (keys_nodup wf) hrpairs hq (Prod.mk.inj heq).1
    rw [← hstamped.toNat_eq hp, ← hstamped.toNat_eq hq]
    rcases hpart r hq with hin | rfl | hin
    · exact Or.inl (hfront r hin hrone)
    · exact absurd rfl (hkeys r hr)
    · refine (Nat.lt_or_eq_of_le (hback r hin hrone)).imp_right fun heq => ⟨heq, ?_⟩
      rw [hpairs]
      exact (List.Sublist.cons_cons _ (List.singleton_sublist.mpr hin)).trans
        (List.sublist_append_right _ _)
  · intro ties
    suffices h : item = oldest by rw [h]; exact ⟨rfl, rfl⟩
    by_contra hne
    have hrest : item ∈ rest :=
      (List.mem_cons.mp ((hmem item).mpr ⟨hitem, hone⟩)).resolve_left hne
    have hties := ties _ _ hfilter oldest holdest rfl item hitem (List.mem_map_of_mem hrest)
    rw [← hstamped.toNat_eq holdest, ← hstamped.toNat_eq hitem] at hties
    have hle := hties.elim Nat.le_of_lt fun h => h.1.le
    have hback' : oldest ∈ back := by
      rcases hpart oldest holdest with hin | heq | hin
      · exact absurd (hfront oldest hin honeOldest) (Nat.not_lt.mpr hle)
      · exact absurd heq.symm hne
      · exact hin
    have hsublist := (hties.resolve_left (Nat.not_lt.mpr (hback oldest hback' honeOldest))).2
    have hreverse : [item, oldest].Sublist cache.hashtable.pairs := by
      rw [hpairs]
      exact (List.Sublist.cons_cons _ (List.singleton_sublist.mpr hback')).trans
        (List.sublist_append_right _ _)
    exact not_sublist_swap hnodup hreverse hsublist

/-- Up to the `2 ^ 64`th hit the counters are in the order of the touches, so that the oldest is first
where it comes in the table before those touched after it with no hit in between. -/
theorem Tracks.oldestFirst_iff (tracks : Tracks hash cache touched hits)
    (hfew : hits.total < 2 ^ 64) (refCount : Val → ℕ) :
    OldestFirst cache.hashtable hits refCount touched ↔
      ∀ oldest rest, touched.filter (fun item => refCount item.2 = 1) = oldest :: rest →
        ∀ p ∈ cache.hashtable.visited, p.1 = oldest.1 → ∀ q ∈ cache.hashtable.visited,
          (q.1, q.2.v) ∈ rest → hits.atTouch q.1 = hits.atTouch p.1 →
            [p, q].Sublist cache.hashtable.visited := by
  obtain ⟨stamped, hstamped, rfl⟩ := tracks.stamped
  have hordered : (stamped.map bare).Pairwise fun p q => hits.atTouch p.1 ≤ hits.atTouch q.1 :=
    List.pairwise_map.mpr hstamped.ordered
  have hsmall : ∀ p ∈ stamped.map bare, hits.atTouch p.1 < 2 ^ 64 :=
    List.forall_mem_map.mpr fun p hp => (hstamped.bounded p hp).trans_lt hfew
  unfold OldestFirst
  refine forall₃_congr fun oldest rest hlist => forall₅_congr fun p _ hkey q _ =>
    forall_congr' fun hlater => ?_
  have hsub : (oldest :: rest).Sublist (stamped.map bare) := hlist ▸ List.filter_sublist
  have hle := (List.pairwise_cons.mp (hordered.sublist hsub)).1 _ hlater
  rw [← hkey] at hle
  have hlt := hsmall _ (hsub.subset (List.mem_cons_of_mem _ hlater))
  rw [Nat.mod_eq_of_lt (hle.trans_lt hlt), Nat.mod_eq_of_lt hlt]
  constructor
  · rintro (hless | ⟨-, hfirst⟩) heq
    · exact absurd heq hless.ne'
    · exact hfirst
  · intro hfirst
    exact hle.lt_or_eq.imp_right fun heq => ⟨heq, hfirst heq.symm⟩

theorem map_bare_without (key : Key) :
    (without key stamped).map bare = without key (stamped.map bare) := by
  unfold without
  rw [List.filter_map]
  rfl

theorem Stamped.without (hstamped : Stamped cache hits stamped) (wf : cache.hashtable.WellFormed hash)
    {items : RefMap Key (LruItem Val)} (rep : cache.hashtable.Represents items) {key : Key}
    {table' : Hashtable Key (LruItem Val)} (wf' : table'.WellFormed hash)
    (rep' : table'.Represents (items.update key none)) :
    Stamped { cache with hashtable := table' } hits (LruCache.without key stamped) where
  toCounted := hstamped.toCounted.sublist List.filter_sublist
  perm := perm_pairs wf' rep' (without_nodup (hstamped.distinct wf)) fun other x => by
    rw [mem_without, hstamped.perm.mem_iff, mem_pairs_iff rep, RefMap.update]
    by_cases hkey : other = key
    · rw [if_pos (beq_iff_eq.mpr hkey)]
      exact iff_of_false (fun h => h.2 hkey) (Option.some_ne_none x).symm
    · rw [if_neg (mt beq_iff_eq.mp hkey), and_iff_left hkey]

/-- **What `try_purge` takes out**: the item touched least recently, exactly when the oldest is
first where there are too many items. -/
theorem tryPurge_tracks (tracks : Tracks hash cache touched hits) (refCount : Val → ℕ) :
    ∃ cache' purged, tryPurge hash cache refCount refCount = some (cache', purged) ∧
      cache'.maxItems = cache.maxItems ∧ Tracks hash cache' (dropPurged touched purged) hits ∧
      (purged = leastRecent cache.maxItems refCount touched ↔
        (cache.hashtable.itemCount > cache.maxItems →
          OldestFirst cache.hashtable hits refCount touched)) := by
  have hlength := tracks.length_eq
  obtain ⟨stamped, hstamped, rfl⟩ := tracks.stamped
  unfold tryPurge leastRecent
  rw [hlength]
  split_ifs with hfull
  · have hhead : (stamped.map bare).find? (fun item => refCount item.2 = 1) =
        ((stamped.filter fun item => refCount item.2.v = 1).map bare).head? := by
      rw [← List.head?_filter, List.filter_map]
      rfl
    rw [forall_prop_of_true hfull, hhead]
    cases hunref : stamped.filter (fun item => refCount item.2.v = 1) with
    | nil =>
        -- Nobody is unreferenced: the scan finds nothing.
        have hall : ∀ p ∈ cache.hashtable.pairs, refCount p.2.v ≠ 1 := fun p hp hone =>
          List.filter_eq_nil_iff.mp hunref p (hstamped.perm.mem_iff.mpr hp) (decide_eq_true hone)
        have hnone : cache.toDelete refCount = none := by
          unfold toDelete
          rw [visited_eq]
          rcases considerDelete_foldl_eq refCount cache.hashtable.pairs with
            ⟨hnone, -⟩ | ⟨front, item, back, hpairs, hone, -⟩
          · exact hnone
          · exact absurd hone (hall item (hpairs ▸ List.mem_append_right _ List.mem_cons_self))
        rw [hnone]
        refine ⟨cache, none, rfl, rfl, tracks, iff_of_true rfl fun first later hlist => ?_⟩
        rw [List.filter_map] at hlist
        change (stamped.filter fun item => refCount item.2.v = 1).map bare = _ at hlist
        rw [hunref] at hlist
        cases hlist
    | cons oldest rest =>
        have holdest : oldest ∈ stamped.filter fun item => refCount item.2.v = 1 := by
          rw [hunref]
          exact List.mem_cons_self
        obtain ⟨holdest, hone⟩ := List.mem_filter.mp holdest
        have hsome := toDelete_eq_iff tracks.wf hstamped hunref
        rcases considerDelete_foldl_eq refCount cache.hashtable.pairs with
          ⟨-, hall⟩ | ⟨front, item, back, hpairs, hitemone, hfound, -⟩
        · exact absurd (of_decide_eq_true hone) (hall oldest (hstamped.perm.mem_iff.mp holdest))
        have hitem : item ∈ cache.hashtable.pairs := by
          rw [hpairs]
          exact List.mem_append_right _ List.mem_cons_self
        have hdelete : cache.toDelete refCount = some (item.1, item.2.lastUseCounter) := by
          unfold toDelete
          rw [visited_eq]
          exact hfound
        obtain ⟨items, rep⟩ := exists_items tracks.wf (respects_of_eq hash)
        have hvalue : items item.1 = some item.2 := (mem_pairs_iff rep).mp hitem
        obtain ⟨table', hextract, wf', rep'⟩ :=
          @extract_spec _ _ _ hash cache.hashtable items item.1 _ tracks.wf (respects_of_eq hash)
            rep (Or.inr (rep.present_iff.mpr ⟨item.2, hvalue⟩))
        refine ⟨{ cache with hashtable := table' }, some (bare item), ?_, rfl,
          ⟨wf', tracks.counter, _, hstamped.without tracks.wf rep wf' rep',
            map_bare_without item.1⟩, ?_⟩
        · rw [hdelete]
          dsimp only
          rw [purgeKey, hextract, hvalue, Option.bind_some]
          exact if_pos hitemone
        · rw [← hsome, hdelete, List.map_cons, List.head?_cons, Option.some_inj, Option.some_inj]
          have hsame : item.1 = oldest.1 → item = oldest :=
            eq_of_key (keys_nodup tracks.wf) hitem (hstamped.perm.mem_iff.mp holdest)
          constructor
          · intro heq
            have hfst : (bare item).1 = (bare oldest).1 := by rw [heq]
            rw [hsame hfst]
          · intro heq
            rw [hsame (Prod.mk.inj heq).1]
  · exact ⟨cache, none, rfl, rfl, tracks, iff_of_true rfl fun h => absurd h hfull⟩

/-! ## The calls -/

/-- An insertion that does not miss its key behind a tombstone touches a new item. -/
theorem insert_tracks (tracks : Tracks hash cache touched hits) (k : Key) (v : Val)
    (ok : cache.hashtable.NeedsExpand ∨ ¬ cache.hashtable.Shadowed hash k) :
    ∃ table' i, cache.hashtable.insert hash (k, { lastUseCounter := cache.counter, v := v }) =
        some (table', (i, (touchNew touched k v).2)) ∧
      Tracks hash { cache with hashtable := table' } (touchNew touched k v).1
        (hits.touchNew touched k) := by
  obtain ⟨stamped, hstamped, rfl⟩ := tracks.stamped
  obtain ⟨items, rep⟩ := exists_items tracks.wf (respects_of_eq hash)
  obtain ⟨table', i, hstore, wf', rep'⟩ := store_spec tracks.wf (respects_of_eq hash) rep ok
    { lastUseCounter := cache.counter, v := v } false
  have hmem : ∀ key x, (key, x) ∈ stamped ↔ items key = some x := fun key x => by
    rw [hstamped.perm.mem_iff, mem_pairs_iff rep]
  have hkeys : k ∈ (stamped.map bare).map Prod.fst ↔ items k ≠ none := by
    rw [map_fst_bare, List.mem_map, Option.ne_none_iff_exists']
    constructor
    · rintro ⟨p, hp, rfl⟩
      exact ⟨p.2, (hmem p.1 p.2).mp hp⟩
    · rintro ⟨x, hx⟩
      exact ⟨(k, x), (hmem k x).mpr hx, rfl⟩
  have distinct := hstamped.distinct tracks.wf
  unfold touchNew Hits.touchNew
  rw [Bool.false_or] at hstore rep'
  by_cases hpresent : k ∈ (stamped.map bare).map Prod.fst
  · rw [if_pos hpresent, if_pos hpresent]
    obtain ⟨x, hx⟩ := Option.ne_none_iff_exists'.mp (hkeys.mp hpresent)
    rw [hx, Option.isNone_some] at hstore rep'
    exact ⟨table', i, hstore, wf', tracks.counter, stamped,
      ⟨hstamped.toCounted, perm_pairs wf' rep' distinct hmem⟩, rfl⟩
  · rw [if_neg hpresent, if_neg hpresent]
    have hnone : items k = none := not_not.mp (mt hkeys.mpr hpresent)
    rw [hnone, Option.isNone_none, if_pos rfl] at rep'
    rw [hnone, Option.isNone_none] at hstore
    rw [map_fst_bare] at hpresent
    have hnew : ∀ p ∈ stamped, p.1 ≠ k := fun p hp hkey => hpresent (hkey ▸ List.mem_map_of_mem hp)
    refine ⟨table', i, hstore, wf', tracks.counter,
      stamped ++ [(k, { lastUseCounter := cache.counter, v := v })],
      ⟨hstamped.toCounted.mark hnew le_rfl tracks.counter,
        perm_pairs wf' rep' ?_ fun key x => ?_⟩, List.map_append⟩
    · rw [List.map_append, List.map_singleton, List.nodup_append]
      exact ⟨distinct, List.nodup_singleton _, fun a ha b hb hab => by
        rw [List.mem_singleton.mp hb] at hab
        exact hpresent ((show a = k from hab) ▸ ha)⟩
    · rw [List.mem_append, List.mem_singleton, hmem, Prod.mk.injEq, RefMap.update]
      by_cases hkey : key = k
      · rw [if_pos (beq_iff_eq.mpr hkey), hkey, hnone, Option.some_inj]
        simp only [reduceCtorEq, true_and, false_or, eq_comm]
      · rw [if_neg (mt beq_iff_eq.mp hkey)]
        simp only [hkey, false_and, or_false]

/-- **A lookup** touches the item that it finds. -/
theorem find_tracks (tracks : Tracks hash cache touched hits) {key : Key} {found : Option Val}
    (h : cache.find hash key = some (cache', found)) :
    cache'.maxItems = cache.maxItems ∧
      Reply.found found = (touch cache.maxItems touched (.find key)).2 ∧
      Tracks hash cache' (touch cache.maxItems touched (.find key)).1
        (hits.after touched (.find key : Touch Key Val)) := by
  obtain ⟨stamped, hstamped, rfl⟩ := tracks.stamped
  obtain ⟨items, rep⟩ := exists_items tracks.wf (respects_of_eq hash)
  have hmem : ∀ key x, (key, x) ∈ stamped ↔ items key = some x := fun key x => by
    rw [hstamped.perm.mem_iff, mem_pairs_iff rep]
  have distinct := hstamped.distinct tracks.wf
  have distinctBare : ((stamped.map bare).map Prod.fst).Nodup := (map_fst_bare stamped).symm ▸ distinct
  obtain ⟨i, hlookup, hfound⟩ := Option.map_eq_some_iff.mp h
  by_cases hpresent : ∃ x, items key = some x
  · obtain ⟨x, hx⟩ := hpresent
    obtain ⟨j, hholds⟩ := (rep key x).mp hx
    obtain rfl : j = i := Option.some_inj.mp
      ((tracks.wf.lookup_of_holds (respects_of_eq hash) hholds).symm.trans hlookup)
    have ⟨stored, hslot, hkey⟩ := hholds
    obtain rfl : key = stored := eq_of_beq hkey
    rw [hslot] at hfound
    cases hfound
    have hin : (key, x) ∈ stamped := (hmem key x).mpr hx
    have hbare : (key, x.v) ∈ stamped.map bare := mem_bare_iff.mpr ⟨x, hin, rfl⟩
    rw [touch_find_some (find?_key distinctBare hbare), Hits.after,
      if_pos (List.mem_map_of_mem hbare)]
    have hcounter : cache.counter + 1 = BitVec.ofNat 64 (hits.total + 1) := by
      rw [tracks.counter, BitVec.ofNat_add]
      rfl
    have wf' := tracks.wf.overwrite (respects_of_eq hash) hholds
      { x with lastUseCounter := cache.counter + 1 }
    have rep' := rep.overwrite tracks.wf (respects_of_eq hash) hholds cache.hashtable.load
      { x with lastUseCounter := cache.counter + 1 }
    refine ⟨rfl, rfl, wf', hcounter,
      LruCache.without key stamped ++ [(key, { x with lastUseCounter := cache.counter + 1 })],
      ⟨(hstamped.toCounted.sublist List.filter_sublist).mark (fun p hp => (mem_without.mp hp).2)
        (Nat.le_succ _) hcounter, perm_pairs wf' rep' ?_ fun other y => ?_⟩, ?_⟩
    · rw [List.map_append, List.map_singleton, List.nodup_append]
      exact ⟨without_nodup distinct, List.nodup_singleton _, fun a ha b hb hab => by
        obtain ⟨p, hp, rfl⟩ := List.mem_map.mp ha
        rw [List.mem_singleton.mp hb] at hab
        exact (mem_without.mp hp).2 hab⟩
    · rw [List.mem_append, List.mem_singleton, mem_without, hmem, Prod.mk.injEq, RefMap.update]
      by_cases hother : other = key
      · rw [if_pos (beq_iff_eq.mpr hother), Option.some_inj]
        simp only [hother, ne_eq, not_true, and_false, true_and, false_or, eq_comm]
      · rw [if_neg (mt beq_iff_eq.mp hother)]
        simp only [hother, ne_eq, not_false_eq_true, and_true, false_and, or_false]
    · rw [List.map_append, map_bare_without]
      rfl
  · have habsent : ¬ cache.hashtable.Present key := fun hin =>
      hpresent (rep.present_iff.mp hin)
    have hempty := empty_of_lookup_absent tracks.wf.capacity_pos habsent hlookup
    rw [hempty] at hfound
    cases hfound
    have hnone : ∀ val, (key, val) ∉ stamped.map bare := fun val hin => by
      obtain ⟨x, hx, -⟩ := mem_bare_iff.mp hin
      exact hpresent ⟨x, (hmem key x).mp hx⟩
    have hnot : key ∉ (stamped.map bare).map Prod.fst := fun hin => by
      obtain ⟨p, hp, rfl⟩ := List.mem_map.mp hin
      exact hnone p.2 hp
    rw [touch_find_none (find?_key_none hnone), Hits.after, if_neg hnot]
    exact ⟨rfl, rfl, tracks⟩

/-! ## A key stored twice -/

theorem insert_shadowed (wf : cache.hashtable.WellFormed hash)
    (hsteady : ¬ cache.hashtable.NeedsExpand) {k : Key}
    (hshadow : cache.hashtable.Shadowed hash k) (item : LruItem Val) :
    ∃ i, cache.hashtable.insert hash (k, item) =
      some (cache.hashtable.change i (.filled k item) (cache.hashtable.load + 1), (i, true)) := by
  obtain ⟨i, j, val, hholds, hdeleted, hnearer⟩ := shadowed_iff.mp hshadow
  have haccepts : cache.hashtable.acceptsAt k true j = true :=
    acceptsAt_iff.mpr (Or.inr (Or.inl ⟨hdeleted, rfl⟩))
  obtain ⟨n, hlookup⟩ := exists_uncheckedLookup hash wf.capacity_pos haccepts
  have hnearest := ((uncheckedLookup_eq_some_iff hash wf.capacity_pos).mp hlookup).2 j haccepts
  refine ⟨n, ?_⟩
  rw [Hashtable.insert, checkSize, if_neg hsteady, Option.bind_some, uncheckedSet, hlookup,
    Option.map_some]
  cases hslot : cache.hashtable.slots[n]? with
  | none => rfl
  | some slot =>
      cases slot with
      | empty => rfl
      | deleted => rfl
      | filled stored x =>
          -- The only slot with the key lies behind the tombstone.
          have hfilled := holds_of_uncheckedLookup hash wf.capacity_pos hlookup hslot
          obtain rfl := (wf.holds_unique (respects_of_eq hash) hfilled hholds).1
          exact absurd hnearer (Nat.not_lt.mpr hnearest)

/-- `try_purge` is answered in any table that is not about to grow. -/
theorem exists_tryPurge (hcap : 0 < cache.hashtable.capacity)
    (hsteady : (cache.hashtable.load - 1) * expandThreshold ≤ cache.hashtable.capacity)
    (refCount : Val → ℕ) : ∃ purged, tryPurge hash cache refCount refCount = some purged := by
  unfold tryPurge
  split_ifs
  · cases hfound : cache.toDelete refCount with
    | none => exact ⟨_, rfl⟩
    | some found =>
        rcases considerDelete_foldl refCount _ none _ hfound with h | ⟨item, hmem, hkey, -⟩
        · cases h
        rw [visited_eq] at hmem
        obtain ⟨i, hslot⟩ := mem_pairs.mp hmem
        have haccepts : cache.hashtable.acceptsAt found.1 false i = true :=
          acceptsAt_iff.mpr (Or.inr (Or.inr ⟨item.2, item.1, hslot, beq_iff_eq.mpr hkey.symm⟩))
        obtain ⟨n, hlookup⟩ := exists_uncheckedLookup hash hcap haccepts
        dsimp only
        unfold purgeKey
        rcases extract_cases found.1 hlookup with hextract | ⟨k, x, hslot', hextract⟩
        · rw [hextract]
          exact ⟨_, rfl⟩
        · rw [hextract, Option.bind_some]
          dsimp only
          split_ifs
          · exact ⟨_, rfl⟩
          · have hn := (List.getElem?_eq_some_iff.mp hslot').1
            have hroom : ¬ (cache.hashtable.change n .deleted
                (cache.hashtable.load - 1)).NeedsExpand := by
              unfold NeedsExpand
              rw [change_load, change_capacity]
              exact Nat.not_lt.mpr hsteady
            have haccepts' : (cache.hashtable.change n .deleted
                (cache.hashtable.load - 1)).acceptsAt found.1 true n = true :=
              acceptsAt_iff.mpr (Or.inr (Or.inl ⟨change_slots_self hn _, rfl⟩))
            obtain ⟨m, hlookup'⟩ := exists_uncheckedLookup hash (by rwa [change_capacity]) haccepts'
            obtain ⟨stored, hset, -⟩ := uncheckedSet_cases (found.1, x) true hlookup'
            rw [Hashtable.set, checkSize, if_neg hroom, Option.bind_some, hset]
            exact ⟨_, rfl⟩
  · exact ⟨_, rfl⟩

/-! ## One call -/

theorem set_tracks (tracks : Tracks hash cache touched hits) (k : Key) (v : Val) (refCount : Val → ℕ)
    (ok : cache.hashtable.NeedsExpand ∨ ¬ cache.hashtable.Shadowed hash k) :
    ∃ stored cache' purged,
      cache.hashtable.insert hash (k, { lastUseCounter := cache.counter, v := v }) = some stored ∧
      step hash cache (Touch.set k v refCount).call =
        some (cache', .set (touchNew touched k v).2 purged) ∧
      cache'.maxItems = cache.maxItems ∧
      Tracks hash cache' (dropPurged (touchNew touched k v).1 purged) (hits.touchNew touched k) ∧
      (purged = leastRecent cache.maxItems refCount (touchNew touched k v).1 ↔
        (stored.1.itemCount > cache.maxItems →
          OldestFirst stored.1 (hits.touchNew touched k) refCount (touchNew touched k v).1)) := by
  obtain ⟨table', i, hinsert, tracks'⟩ := insert_tracks tracks k v ok
  obtain ⟨cache', purged, hpurge, hmax, tracks'', hties⟩ := tryPurge_tracks tracks' refCount
  refine ⟨_, cache', purged, hinsert, ?_, hmax, tracks'', hties⟩
  rw [Touch.call, step, LruCache.set, hinsert, Option.bind_some, hpurge]
  rfl

theorem set_shadowed (tracks : Tracks hash cache touched hits) {k : Key}
    (hsteady : ¬ cache.hashtable.NeedsExpand) (hshadow : cache.hashtable.Shadowed hash k) (v : Val)
    (refCount : Val → ℕ) :
    ∃ cache' purged, step hash cache (Touch.set k v refCount).call =
      some (cache', .set true purged) ∧ (touchNew touched k v).2 = false := by
  obtain ⟨i, hinsert⟩ :=
    insert_shadowed tracks.wf hsteady hshadow { lastUseCounter := cache.counter, v := v }
  obtain ⟨purged, hpurge⟩ := @exists_tryPurge _ _ _ hash { cache with
      hashtable := cache.hashtable.change i
        (.filled k { lastUseCounter := cache.counter, v := v }) (cache.hashtable.load + 1) }
    (by rw [change_capacity]; exact tracks.wf.capacity_pos)
    (by rw [change_load, change_capacity, Nat.add_sub_cancel]; exact Nat.not_lt.mp hsteady) refCount
  refine ⟨purged.1, purged.2, ?_, ?_⟩
  · rw [Touch.call, step, LruCache.set, hinsert, Option.bind_some, hpurge]
    rfl
  · obtain ⟨j, -, val, hholds, -⟩ := shadowed_iff.mp hshadow
    obtain ⟨stamped, hstamped, rfl⟩ := tracks.stamped
    obtain ⟨p, hp, hkey, -⟩ := exists_holds_iff.mp ⟨j, hholds⟩
    have hin : k ∈ (stamped.map bare).map Prod.fst := by
      rw [map_fst_bare, eq_of_beq hkey]
      exact List.mem_map_of_mem (hstamped.perm.mem_iff.mpr hp)
    rw [touchNew, if_pos hin]

/-- **One call purges the item touched least recently** exactly when it is in order. -/
theorem purgesOldest_iff (tracks : Tracks hash cache touched hits) (call : Touch Key Val) :
    PurgesOldest hash ⟨cache, touched, hits⟩ call ↔ SetsInOrder hash ⟨cache, touched, hits⟩ call := by
  cases call with
  | find key =>
      refine iff_of_true (fun moved hmoved => ?_) trivial
      obtain ⟨⟨cache', found⟩, hfind, rfl⟩ := Option.map_eq_some_iff.mp hmoved
      obtain ⟨-, hreply, tracks'⟩ := find_tracks tracks hfind
      exact ⟨hreply, fun _ _ => tracks'.held_iff⟩
  | set k v refCount =>
      constructor
      · intro h
        have ok : cache.hashtable.NeedsExpand ∨ ¬ cache.hashtable.Shadowed hash k := by
          by_contra hnot
          obtain ⟨hsteady, hshadow⟩ := not_or.mp hnot
          obtain ⟨cache', purged, hstep, hold⟩ :=
            set_shadowed tracks hsteady (not_not.mp hshadow) v refCount
          have hreply := (h _ hstep).1
          unfold touch at hreply
          dsimp only at hreply
          rw [hold] at hreply
          cases hreply
        refine ⟨ok, fun stored hstored => ?_⟩
        obtain ⟨stored', cache', purged, hinsert, hstep, -, -, hties⟩ :=
          set_tracks tracks k v refCount ok
        obtain rfl := Option.some_inj.mp (hinsert.symm.trans hstored)
        have hreply := (h _ hstep).1
        unfold touch at hreply
        dsimp only at hreply
        exact hties.mp (Reply.set.inj hreply).2
      · rintro ⟨ok, hties'⟩ moved hmoved
        obtain ⟨stored, cache', purged, hinsert, hstep, -, tracks', hties⟩ :=
          set_tracks tracks k v refCount ok
        obtain rfl := Option.some_inj.mp (hstep.symm.trans hmoved)
        have hpurged := hties.mpr (hties' stored hinsert)
        unfold touch
        dsimp only
        rw [← hpurged]
        exact ⟨rfl, fun _ _ => tracks'.held_iff⟩

theorem trackedStep_tracks (tracks : Tracks hash cache touched hits) {call : Touch Key Val}
    (ok : SetsInOrder hash ⟨cache, touched, hits⟩ call)
    {moved : TrackedCache Key Val × Reply Key Val}
    (h : trackedStep hash ⟨cache, touched, hits⟩ call = some moved) :
    Tracks hash moved.1.cache moved.1.touched moved.1.hits := by
  obtain ⟨next, hnext, rfl⟩ := Option.map_eq_some_iff.mp h
  cases call with
  | find key =>
      obtain ⟨⟨cache', found⟩, hfind, rfl⟩ := Option.map_eq_some_iff.mp hnext
      exact (find_tracks tracks hfind).2.2
  | set k v refCount =>
      obtain ⟨stored, cache', purged, hinsert, hstep, -, tracks', hties⟩ :=
        set_tracks tracks k v refCount ok.1
      obtain rfl := Option.some_inj.mp (hstep.symm.trans hnext)
      have hpurged := hties.mpr (ok.2 stored hinsert)
      unfold touch
      dsimp only
      rwa [← hpurged]

/-! ## Histories -/

theorem step_new_zero (hash : Key → ℕ) (call : Touch Key Val) :
    trackedStep hash ⟨new 0, [], .zero⟩ call = none ∧
      (PurgesOldest hash ⟨new 0, [], .zero⟩ call ↔ SetsInOrder hash ⟨new 0, [], .zero⟩ call) := by
  have hlookup : ∀ key inserting, uncheckedLookup hash
      (Hashtable.new 0 : Hashtable Key (LruItem Val)) key inserting = none := fun key inserting => by
    simp [uncheckedLookup, CyclicSearch.cyclicFind?, Hashtable.new, capacity, acceptsAt]
  have hsteady : ¬ (Hashtable.new 0 : Hashtable Key (LruItem Val)).NeedsExpand := Nat.lt_irrefl 0
  have hnone : step hash (new 0) call.call = none := by
    cases call with
    | find key =>
        rw [Touch.call, step, LruCache.find, LruCache.new, hlookup]
        rfl
    | set k v refCount =>
        rw [Touch.call, step, LruCache.set, Hashtable.insert, checkSize, LruCache.new, Nat.zero_mul,
          if_neg hsteady, Option.bind_some, uncheckedSet, hlookup]
        rfl
  refine ⟨by rw [trackedStep, hnone, Option.map_none], iff_of_true (fun moved hmoved => ?_) ?_⟩
  · rw [hnone] at hmoved
    cases hmoved
  · cases call with
    | find key => trivial
    | set k v refCount =>
        refine ⟨Or.inr ?_, fun stored hstored => ?_⟩
        · rintro ⟨i, hi, -⟩
          exact absurd hi List.not_mem_nil
        · rw [Hashtable.insert, checkSize, LruCache.new, Nat.zero_mul, if_neg hsteady,
            Option.bind_some, uncheckedSet, hlookup] at hstored
          cases hstored

/-- **The order in which a cache purges.**  In every history of `set` and `find`, with any
references held elsewhere, each `set` purges of its unreferenced items the one touched least
recently, and no other item leaves the cache, exactly when no `set` misses its key behind
a tombstone and the oldest is first wherever one purges. -/
theorem run_purgesOldest_iff (hash : Key → ℕ) (maxItems : ℕ) (calls : List (Touch Key Val)) :
    StepsMeet (trackedStep hash) (PurgesOldest hash) ⟨new maxItems, [], .zero⟩ calls ↔
      StepsMeet (trackedStep hash) (SetsInOrder hash) ⟨new maxItems, [], .zero⟩ calls := by
  rcases Nat.eq_zero_or_pos maxItems with rfl | hmax
  · cases calls with
    | nil => exact Iff.rfl
    | cons call rest =>
        obtain ⟨hnone, hiff⟩ := step_new_zero hash call
        rw [stepsMeet_cons, stepsMeet_cons, hiff, hnone]
        exact and_congr_right fun _ => iff_of_true (by rintro _ ⟨⟩) (by rintro _ ⟨⟩)
  · exact stepsMeet_iff (fun state call tracks => purgesOldest_iff tracks call)
      (fun state call moved tracks ok h => trackedStep_tracks tracks ok h)
      (Tracks.new hmax : Tracks hash (new maxItems) [] .zero)

end Tracks

/-- Three items through a cache for two, none of them referenced elsewhere: the second one
is purged, because its slot comes first. -/
theorem run_purgesOldest_fails :
    (runSteps (step fun key : ℕ => key) (new 2 : LruCache ℕ ℕ)
        [.set 2 20 (fun _ => 1) (fun _ => 1), .set 1 10 (fun _ => 1) (fun _ => 1),
          .set 3 30 (fun _ => 1) (fun _ => 1)]).map Prod.snd =
        some [.set true none, .set true none, .set true (some (1, 10))] ∧
      ¬ StepsMeet (trackedStep fun key : ℕ => key) (PurgesOldest fun key : ℕ => key)
        (⟨new 2, [], .zero⟩ : TrackedCache ℕ ℕ)
        [.set 2 20 fun _ => 1, .set 1 10 fun _ => 1, .set 3 30 fun _ => 1] := by
  refine ⟨by decide, fun h => ?_⟩
  have hthird := StepsMeet.at (n := 2) h rfl rfl
  exact absurd (hthird _ rfl).1 (by decide)

end BekOS.LruCache
