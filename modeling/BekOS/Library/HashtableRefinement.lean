import BekOS.Library.HashtableSlots

/-!
# `bek::hashtable` refines a finite map

One specification lemma per operation, over a well-formed table that represents
a map, and from them the refinement of whole runs.  `check_size` comes first: a
rehash transfers the pairs one by one into a table without tombstones, so what
it leaves is well formed, represents the same map and shadows no key.
-/

namespace BekOS.Hashtable

open CyclicSearch PartialRun

universe u v

variable {Key : Type u} {Val : Type v} [BEq Key] {hash : Key → ℕ}
variable {table : Hashtable Key Val} {map : RefMap Key Val} {key : Key} {i : ℕ}

theorem Represents.present_iff (rep : table.Represents map) :
    table.Present key ↔ ∃ val, map key = some val := by
  rw [Hashtable.present_iff]
  constructor
  · rintro ⟨i, val, hholds⟩
    exact ⟨val, (rep key val).mpr ⟨i, hholds⟩⟩
  · rintro ⟨val, hval⟩
    obtain ⟨i, hholds⟩ := (rep key val).mp hval
    exact ⟨i, val, hholds⟩

theorem Represents.eq_none (rep : table.Represents map) (absent : ¬ table.Present key) :
    map key = none := by
  cases hval : map key with
  | none => rfl
  | some val => exact absurd (rep.present_iff.mpr ⟨val, hval⟩) absent

theorem new_wellFormed {capacity : ℕ} (hcap : 1 ≤ capacity) :
    (new capacity : Hashtable Key Val).WellFormed hash where
  capacity_pos := by simp only [Hashtable.capacity, new, List.length_replicate]; omega
  load_eq := by simp [new, filledCount, List.countP_replicate, Slot.isFilled]
  reachable := by
    intro i key val hslot
    have := List.mem_of_getElem? hslot
    simp [new] at this

theorem new_represents (capacity : ℕ) :
    (new capacity : Hashtable Key Val).Represents (fun _ => none) := by
  intro key val
  constructor
  · intro h
    cases h
  · rintro ⟨i, stored, hslot, -⟩
    have := List.mem_of_getElem? hslot
    simp [new] at this

omit [BEq Key] in
theorem new_noTombstone (capacity : ℕ) :
    (new capacity : Hashtable Key Val).NoTombstone := by
  intro i hslot
  have := List.mem_of_getElem? hslot
  simp [new] at this

theorem shadowed_iff :
    table.Shadowed hash key ↔
      ∃ i j val, table.Holds key i val ∧ table.slots[j]? = some .deleted ∧
        probeDistance hash table key j < probeDistance hash table key i := by
  unfold Shadowed
  constructor
  · rintro ⟨i, -, j, -, hi, hj, hlt⟩
    rw [Option.any_eq_true] at hi hj
    obtain ⟨si, hsi, hkey⟩ := hi
    obtain ⟨sj, hsj, hdel⟩ := hj
    cases si with
    | filled stored val =>
        cases sj with
        | deleted => exact ⟨i, j, val, ⟨stored, hsi, hkey⟩, hsj, hlt⟩
        | empty => cases hdel
        | filled _ _ => cases hdel
    | empty => cases hkey
    | deleted => cases hkey
  · rintro ⟨i, j, val, ⟨stored, hsi, hkey⟩, hsj, hlt⟩
    have hi := (List.getElem?_eq_some_iff.mp hsi).1
    have hj := (List.getElem?_eq_some_iff.mp hsj).1
    exact ⟨i, List.mem_range.mpr hi, j, List.mem_range.mpr hj,
      by simpa [hsi, Slot.hasKey] using hkey, by simp [hsj, Slot.isDeleted], hlt⟩

theorem NoTombstone.not_shadowed (h : table.NoTombstone) :
    ¬ table.Shadowed hash key := by
  intro hshadow
  obtain ⟨_, j, _, _, hj, _⟩ := shadowed_iff.mp hshadow
  exact h j hj

theorem exists_inserting_lookup (hash : Key → ℕ) (hcap : 0 < table.capacity)
    (hroom : table.filledCount < table.capacity) (key : Key) :
    ∃ i, uncheckedLookup hash table key true = some i := by
  have hfree : ∃ slot ∈ table.slots, slot.isFilled = false := by
    by_contra hall
    push Not at hall
    have : table.filledCount = table.capacity :=
      List.countP_eq_length.mpr fun slot hmem => by simpa using hall slot hmem
    omega
  obtain ⟨slot, hmem, hslot⟩ := hfree
  obtain ⟨i, hget⟩ := List.mem_iff_getElem?.mp hmem
  refine exists_uncheckedLookup hash hcap (i := i) (acceptsAt_iff.mpr ?_)
  cases slot with
  | empty => exact Or.inl hget
  | deleted => exact Or.inr (Or.inl ⟨hget, rfl⟩)
  | filled _ _ => cases hslot

/-! ## Storing a pair -/

section Store

theorem uncheckedSet_of_absent (hcap : 0 < table.capacity)
    (absent : ¬ table.Present key) (val : Val) (overwrite : Bool)
    (h : uncheckedLookup hash table key true = some i) :
    uncheckedSet hash table (key, val) overwrite =
      some (table.change i (.filled key val) (table.load + 1), (i, true)) := by
  have hfree : ∀ k w, table.slots[i]? ≠ some (.filled k w) := fun k w hslot =>
    absent (Hashtable.present_iff.mpr ⟨i, w, holds_of_uncheckedLookup hash hcap h hslot⟩)
  rw [uncheckedSet, h, Option.map_some]
  cases hslot : table.slots[i]? with
  | none => rfl
  | some slot =>
      cases slot with
      | filled k w => exact absurd hslot (hfree k w)
      | empty => rfl
      | deleted => rfl

theorem uncheckedSet_of_holds [EquivBEq Key] (wf : table.WellFormed hash)
    (respects : HashRespects hash) {old : Val} (h : table.Holds key i old)
    (clear : ¬ table.Shadowed hash key) (val : Val) (overwrite : Bool) :
    uncheckedSet hash table (key, val) overwrite =
      some (if overwrite then table.change i (.filled key val) table.load else table,
        (i, overwrite)) := by
  have hlookup : uncheckedLookup hash table key true = some i := by
    obtain ⟨hacc, hmin⟩ := (uncheckedLookup_eq_some_iff hash wf.capacity_pos).mp
      (wf.lookup_of_holds respects h)
    refine (uncheckedLookup_eq_some_iff hash wf.capacity_pos).mpr
      ⟨acceptsAt_iff.mpr (Or.inr (Or.inr ⟨old, h⟩)), fun j hj => ?_⟩
    rcases acceptsAt_iff.mp hj with hempty | ⟨hdeleted, -⟩ | hholds
    · exact hmin j (acceptsAt_iff.mpr (Or.inl hempty))
    · by_contra hlt
      exact clear (shadowed_iff.mpr ⟨i, j, old, h, hdeleted, by omega⟩)
    · exact hmin j (acceptsAt_iff.mpr (Or.inr (Or.inr hholds)))
  obtain ⟨stored, hslot, -⟩ := h
  rw [uncheckedSet, hlookup, Option.map_some]
  simp only [hslot]
  cases overwrite <;> rfl

theorem exists_holds_fill (key : Key) (hi : i < table.capacity)
    (hfree : ∀ k w, table.slots[i]? ≠ some (.filled k w)) (load : ℕ)
    (other : Key) (val w : Val) :
    (∃ j, (table.change i (.filled key val) load).Holds other j w) ↔
      (∃ j, table.Holds other j w) ∨ ((other == key) = true ∧ val = w) := by
  constructor
  · rintro ⟨j, hholds⟩
    by_cases hj : j = i
    · subst hj
      obtain ⟨stored, hslot, hkey⟩ := hholds
      rw [change_slots_self hi] at hslot
      cases hslot
      exact Or.inr ⟨hkey, rfl⟩
    · exact Or.inl ⟨j, (change_holds_ne hj load).mp hholds⟩
  · rintro (⟨j, hholds⟩ | ⟨hkey, rfl⟩)
    · have hj : j ≠ i := by
        rintro rfl
        obtain ⟨stored, hslot, -⟩ := hholds
        exact hfree _ _ hslot
      exact ⟨j, (change_holds_ne hj load).mpr hholds⟩
    · exact ⟨i, key, change_slots_self hi load, hkey⟩

theorem not_filled_of_lookup_absent (hcap : 0 < table.capacity)
    (absent : ¬ table.Present key) (h : uncheckedLookup hash table key true = some i) :
    ∀ k w, table.slots[i]? ≠ some (.filled k w) := fun _ w hslot =>
  absent (Hashtable.present_iff.mpr ⟨i, w, holds_of_uncheckedLookup hash hcap h hslot⟩)

theorem Holds.lt_capacity {val : Val} (h : table.Holds key i val) :
    i < table.capacity := by
  obtain ⟨stored, hslot, -⟩ := h
  exact (List.getElem?_eq_some_iff.mp hslot).1

variable [EquivBEq Key]

/-- Changing the slot of a key, to a slot that stores no other key, is invisible
to the other keys. -/
theorem Holds.change_other {old : Val} (h : table.Holds key i old)
    (slot : Slot Key Val)
    (hslot : ∀ stored w, slot = .filled stored w → (key == stored) = true) {other : Key}
    (hother : ¬ (other == key) = true) (load j : ℕ) (w : Val) :
    (table.change i slot load).Holds other j w ↔ table.Holds other j w := by
  by_cases hj : j = i
  · subst hj
    constructor
    · rintro ⟨stored, hget, hkey⟩
      rw [change_slots_self h.lt_capacity] at hget
      cases hget
      exact absurd (BEq.trans hkey (BEq.symm (hslot stored w rfl))) hother
    · rintro ⟨stored, hget, hkey⟩
      obtain ⟨stored', hget', hkey'⟩ := h
      rw [hget] at hget'
      cases hget'
      exact absurd (BEq.trans hkey (BEq.symm hkey')) hother
  · exact change_holds_ne hj load

theorem Represents.fill (rep : table.Represents map) (hi : i < table.capacity)
    (hfree : ∀ k w, table.slots[i]? ≠ some (.filled k w))
    (absent : ¬ table.Present key) (load : ℕ) (val : Val) :
    (table.change i (.filled key val) load).Represents (map.update key (some val)) := by
  intro other w
  rw [exists_holds_fill key hi hfree load other val w]
  unfold RefMap.update
  by_cases hkey : (other == key) = true
  · have hnone : ¬ ∃ j, table.Holds other j w := by
      rintro ⟨j, hholds⟩
      exact absent (Hashtable.present_iff.mpr ⟨j, w, hholds.congr (BEq.symm hkey)⟩)
    simp [hkey, hnone]
  · simp [hkey, rep other w]

theorem Represents.overwrite (rep : table.Represents map)
    (wf : table.WellFormed hash) (respects : HashRespects hash) {old : Val}
    (h : table.Holds key i old) (load : ℕ) (val : Val) :
    (table.change i (.filled key val) load).Represents (map.update key (some val)) := by
  intro other w
  unfold RefMap.update
  by_cases hkey : (other == key) = true
  · simp only [hkey, if_true, Option.some_inj]
    constructor
    · rintro rfl
      exact ⟨i, key, change_slots_self h.lt_capacity load, hkey⟩
    · rintro ⟨j, hholds⟩
      by_cases hj : j = i
      · subst hj
        obtain ⟨stored, hslot, -⟩ := hholds
        rw [change_slots_self h.lt_capacity] at hslot
        cases hslot
        rfl
      · have hold := (change_holds_ne hj load).mp hholds
        exact absurd (wf.holds_unique respects (h.congr hkey) hold).1 (Ne.symm hj)
  · have hsame := fun j => h.change_other (.filled key val)
      (fun stored w heq => by cases heq; exact BEq.refl key) hkey load j w
    simp [hkey, rep other w, hsame]

theorem Represents.tombstone (rep : table.Represents map)
    (wf : table.WellFormed hash) (respects : HashRespects hash) {old : Val}
    (h : table.Holds key i old) (load : ℕ) :
    (table.change i .deleted load).Represents (map.update key none) := by
  intro other w
  unfold RefMap.update
  by_cases hkey : (other == key) = true
  · have hnone : ¬ ∃ j, (table.change i .deleted load).Holds other j w := by
      rintro ⟨j, hholds⟩
      by_cases hj : j = i
      · subst hj
        obtain ⟨stored, hslot, -⟩ := hholds
        rw [change_slots_self h.lt_capacity] at hslot
        cases hslot
      · exact hj (wf.holds_unique respects ((change_holds_ne hj load).mp hholds)
          (h.congr hkey)).1
    simp [hkey, hnone]
  · have hsame := fun j => h.change_other .deleted
      (fun stored w heq => by cases heq) hkey load j w
    simp [hkey, rep other w, hsame]

end Store

/-! ## Rehashing -/

section Rehash

variable [EquivBEq Key]

/-- **The transfer loop.**  Pairs with distinct keys, all absent from a table with
room for them and without tombstones, are all added to it. -/
theorem transfer_spec :
    ∀ (rest : List (Slot Key Val)) (table : Hashtable Key Val),
      table.WellFormed hash → table.NoTombstone →
      table.filledCount + rest.countP Slot.isFilled < table.capacity →
      (rest.filterMap Slot.pair?).Pairwise (fun p q => (p.1 == q.1) = false) →
      (∀ p ∈ rest.filterMap Slot.pair?, ¬ table.Present p.1) →
      ∃ table', transfer hash table rest = some table' ∧
        table'.WellFormed hash ∧ table'.NoTombstone ∧
        table'.capacity = table.capacity ∧
        table'.filledCount = table.filledCount + rest.countP Slot.isFilled ∧
        ∀ key val, (∃ i, table'.Holds key i val) ↔
          (∃ i, table.Holds key i val) ∨
            ∃ p ∈ rest.filterMap Slot.pair?, (key == p.1) = true ∧ p.2 = val := by
  intro rest
  induction rest with
  | nil =>
      intro table wf clean _ _ _
      exact ⟨table, rfl, wf, clean, rfl, by simp, by simp⟩
  | cons slot rest ih =>
      intro table wf clean hroom hdistinct habsent
      cases slot with
      | empty =>
          simpa [transfer, Slot.isFilled, Slot.pair?, List.filterMap_cons] using
            ih table wf clean (by simpa [Slot.isFilled] using hroom)
              (by simpa [Slot.pair?, List.filterMap_cons] using hdistinct)
              (by simpa [Slot.pair?, List.filterMap_cons] using habsent)
      | deleted =>
          simpa [transfer, Slot.isFilled, Slot.pair?, List.filterMap_cons] using
            ih table wf clean (by simpa [Slot.isFilled] using hroom)
              (by simpa [Slot.pair?, List.filterMap_cons] using hdistinct)
              (by simpa [Slot.pair?, List.filterMap_cons] using habsent)
      | filled first second =>
          have hpairs : (Slot.filled first second :: rest).filterMap Slot.pair? =
              (first, second) :: rest.filterMap Slot.pair? := by
            simp [Slot.pair?]
          have hcount : (Slot.filled first second :: rest).countP Slot.isFilled =
              rest.countP Slot.isFilled + 1 :=
            List.countP_cons_of_pos rfl
          rw [hpairs, List.pairwise_cons] at hdistinct
          rw [hpairs] at habsent
          rw [hcount] at hroom
          have absent := habsent (first, second) (by simp)
          obtain ⟨i, hlookup⟩ :=
            exists_inserting_lookup hash wf.capacity_pos (by omega) first
          have hset := uncheckedSet_of_absent wf.capacity_pos absent second false hlookup
          have hi := lt_capacity_of_acceptsAt
            (acceptsAt_of_uncheckedLookup hash wf.capacity_pos hlookup)
          have hfree := not_filled_of_lookup_absent wf.capacity_pos absent hlookup
          have hnew := exists_holds_fill first hi hfree (table.load + 1)
          have hfill := filledCount_change_filled first second hi hfree (table.load + 1)
          have clean' :
              (table.change i (.filled first second) (table.load + 1)).NoTombstone := by
            intro j hj
            by_cases hji : j = i
            · subst hji
              rw [change_slots_self hi] at hj
              cases hj
            · rw [change_slots_ne hji] at hj
              exact clean j hj
          obtain ⟨table', htransfer, wf', clean'', hcap, hfilled, hsame⟩ :=
            ih _ (wf.fill absent hlookup second) clean'
              (by rw [hfill, change_capacity]; omega) hdistinct.2
              (by
                intro p hp hpresent
                obtain ⟨j, w, hholds⟩ := Hashtable.present_iff.mp hpresent
                rcases (hnew p.1 second w).mp ⟨j, hholds⟩ with ⟨l, hl⟩ | ⟨hkey, -⟩
                · exact habsent p (by simp [hp])
                    (Hashtable.present_iff.mpr ⟨l, w, hl⟩)
                · have := hdistinct.1 p hp
                  rw [BEq.comm, hkey] at this
                  cases this)
          refine ⟨table', ?_, wf', clean'', by rw [hcap, change_capacity], ?_, ?_⟩
          · rw [transfer, hset, Option.bind_some, htransfer]
          · rw [hfilled, hfill, hcount]
            omega
          · intro key val
            rw [hsame, hnew key second val, hpairs]
            simp [or_assoc]

/-- **`check_size`.**  The table it leaves is well formed, holds the same entries
and has room; if it rehashed, no tombstone is left. -/
theorem checkSize_spec (wf : table.WellFormed hash) (respects : HashRespects hash) :
    ∃ table', checkSize hash table = some table' ∧ table'.WellFormed hash ∧
      table'.filledCount < table'.capacity ∧
      (table' = table ∨ table'.NoTombstone) ∧ (table.NeedsExpand → table'.NoTombstone) ∧
      ∀ key val, (∃ i, table'.Holds key i val) ↔ ∃ i, table.Holds key i val := by
  unfold checkSize
  have hle : table.filledCount ≤ table.capacity := List.countP_le_length
  have hpos := wf.capacity_pos
  by_cases hexp : table.NeedsExpand
  · rw [if_pos hexp]
    have hcap : (new (table.capacity * expandFactor) : Hashtable Key Val).capacity =
        table.capacity * 2 := by
      simp [new, Hashtable.capacity, expandFactor]
    have hzero : (new (table.capacity * expandFactor) : Hashtable Key Val).filledCount = 0 := by
      simp [new, filledCount, List.countP_replicate, Slot.isFilled]
    have hrep := @new_represents Key Val _ (table.capacity * expandFactor)
    have hnone : ∀ key val, ¬ ∃ i,
        (new (table.capacity * expandFactor) : Hashtable Key Val).Holds key i val :=
      fun key val hholds => by cases (hrep key val).mpr hholds
    obtain ⟨table', htransfer, wf', clean, hcap', hfilled, hsame⟩ :=
      transfer_spec table.slots (new (table.capacity * expandFactor))
        (new_wellFormed (by unfold expandFactor; omega)) (new_noTombstone _)
        (by
          rw [hzero, hcap]
          unfold filledCount at hle
          omega)
        (wf.pairs_distinct respects)
        (by
          intro p _ hpresent
          obtain ⟨i, val, hholds⟩ := Hashtable.present_iff.mp hpresent
          exact hnone p.1 val ⟨i, hholds⟩)
    refine ⟨table', htransfer, wf', ?_, Or.inr clean, fun _ => clean, fun key val => ?_⟩
    · rw [hfilled, hcap', hzero, hcap]
      unfold filledCount at hle
      omega
    · rw [hsame key val, or_iff_right (hnone key val)]
      exact exists_holds_iff.symm
  · rw [if_neg hexp]
    refine ⟨table, rfl, wf, ?_, Or.inl rfl, fun h => absurd h hexp, fun _ _ => Iff.rfl⟩
    unfold NeedsExpand expandThreshold at hexp
    have := wf.load_eq
    omega

end Rehash

/-! ## The operations -/

section Operations

variable [EquivBEq Key]

theorem find_spec (wf : table.WellFormed hash) (respects : HashRespects hash)
    (rep : table.Represents map) (ok : table.HasEmpty ∨ table.Present key) :
    table.find hash key = some (map key) := by
  unfold find
  by_cases hpresent : table.Present key
  · obtain ⟨i, val, hholds⟩ := Hashtable.present_iff.mp hpresent
    have hmap : map key = some val := (rep key val).mpr ⟨i, hholds⟩
    rw [wf.lookup_of_holds respects hholds, hmap]
    obtain ⟨stored, hslot, -⟩ := hholds
    simp [hslot]
  · have hempty := ok.resolve_right hpresent
    obtain ⟨i, hlookup⟩ := exists_uncheckedLookup_of_hasEmpty hash key false hempty
    have hslot := empty_of_lookup_absent wf.capacity_pos hpresent hlookup
    rw [hlookup, rep.eq_none hpresent]
    simp [hslot]

theorem extract_spec (wf : table.WellFormed hash) (respects : HashRespects hash)
    (rep : table.Represents map) (ok : table.HasEmpty ∨ table.Present key) :
    ∃ table', table.extract hash key = some (table', map key) ∧
      table'.WellFormed hash ∧ table'.Represents (map.update key none) := by
  unfold extract
  by_cases hpresent : table.Present key
  · obtain ⟨i, val, hholds⟩ := Hashtable.present_iff.mp hpresent
    have hmap : map key = some val := (rep key val).mpr ⟨i, hholds⟩
    rw [wf.lookup_of_holds respects hholds, hmap]
    have hrep := rep.tombstone wf respects hholds (table.load - 1)
    obtain ⟨stored, hslot, -⟩ := hholds
    exact ⟨_, by simp only [Option.map_some, hslot]; rfl, wf.tombstone hslot, hrep⟩
  · have hempty := ok.resolve_right hpresent
    obtain ⟨i, hlookup⟩ := exists_uncheckedLookup_of_hasEmpty hash key false hempty
    have hslot := empty_of_lookup_absent wf.capacity_pos hpresent hlookup
    have hnone := rep.eq_none hpresent
    refine ⟨table, by rw [hlookup, hnone]; simp [hslot], wf, fun other val => ?_⟩
    unfold RefMap.update
    by_cases hkey : (other == key) = true
    · have : ¬ ∃ i, table.Holds other i val := by
        rintro ⟨j, hholds⟩
        exact hpresent (Hashtable.present_iff.mpr ⟨j, val, hholds.congr (BEq.symm hkey)⟩)
      simp [hkey, this]
    · simp [hkey, rep other val]

/-- The store behind `insert` and `set`: after `check_size`, an absent key is
added, and a present one is overwritten or left. -/
theorem store_spec (wf : table.WellFormed hash) (respects : HashRespects hash)
    (rep : table.Represents map)
    (ok : table.NeedsExpand ∨ ¬ table.Shadowed hash key) (val : Val) (overwrite : Bool) :
    ∃ table' i, ((checkSize hash table).bind fun table =>
        uncheckedSet hash table (key, val) overwrite) =
          some (table', (i, overwrite || (map key).isNone)) ∧
      table'.WellFormed hash ∧
      table'.Represents
        (if overwrite || (map key).isNone then map.update key (some val) else map) := by
  obtain ⟨sized, hsize, wf', hroom, hcases, hclean, hsame⟩ := checkSize_spec wf respects
  have rep' : sized.Represents map := fun k w => (rep k w).trans (hsame k w).symm
  have clear : ¬ sized.Shadowed hash key := by
    rcases hcases with rfl | clean
    · exact ok.elim (fun h => (hclean h).not_shadowed) id
    · exact clean.not_shadowed
  rw [hsize, Option.bind_some]
  by_cases hpresent : sized.Present key
  · obtain ⟨i, old, hholds⟩ := Hashtable.present_iff.mp hpresent
    have hmap : map key = some old := (rep' key old).mpr ⟨i, hholds⟩
    rw [uncheckedSet_of_holds wf' respects hholds clear val overwrite, hmap]
    cases overwrite with
    | true =>
        exact ⟨_, i, rfl, wf'.overwrite respects hholds val,
          rep'.overwrite wf' respects hholds sized.load val⟩
    | false => exact ⟨sized, i, rfl, wf', rep'⟩
  · obtain ⟨i, hlookup⟩ := exists_inserting_lookup hash wf'.capacity_pos hroom key
    have hi := lt_capacity_of_acceptsAt
      (acceptsAt_of_uncheckedLookup hash wf'.capacity_pos hlookup)
    have hfree := not_filled_of_lookup_absent wf'.capacity_pos hpresent hlookup
    rw [uncheckedSet_of_absent wf'.capacity_pos hpresent val overwrite hlookup,
      rep'.eq_none hpresent]
    refine ⟨_, i, by simp, wf'.fill hpresent hlookup val, ?_⟩
    simpa using rep'.fill hi hfree hpresent (sized.load + 1) val

/-- **One operation.**  Under `StepOk` the table does what the map does. -/
theorem step_simulates (wf : table.WellFormed hash) (respects : HashRespects hash)
    (rep : table.Represents map) (op : Op Key Val) (ok : table.StepOk hash op) :
    ∃ moved, step hash table op = some moved ∧ refReply map op moved.2 ∧
      moved.1.WellFormed hash ∧ moved.1.Represents (refNext map op) := by
  cases op with
  | insert pair =>
      obtain ⟨table', i, hstore, wf', rep'⟩ :=
        store_spec wf respects rep ok pair.2 false
      refine ⟨(table', .stored (map pair.1).isNone), ?_, rfl, wf', by simpa [refNext] using rep'⟩
      simp only [step, Hashtable.insert, hstore]
      rfl
  | set key val =>
      obtain ⟨table', i, hstore, wf', rep'⟩ := store_spec wf respects rep ok val true
      refine ⟨(table', .stored true), ?_, rfl, wf', by simpa [refNext] using rep'⟩
      simp only [step, Hashtable.set, hstore]
      rfl
  | find key =>
      refine ⟨(table, .value (map key)), ?_, rfl, wf, rep⟩
      simp only [step, find_spec wf respects rep ok, Option.map_some]
  | extract key =>
      obtain ⟨table', hextract, wf', rep'⟩ := extract_spec wf respects rep ok
      refine ⟨(table', .value (map key)), ?_, rfl, wf', rep'⟩
      simp only [step, hextract, Option.map_some]
  | iterate =>
      exact ⟨(table, .visited table.visited), rfl, wf.enumerates respects rep, wf, rep⟩
  | itemCount =>
      refine ⟨(table, .count table.itemCount), rfl, ?_, wf, rep⟩
      exact ⟨table.visited, wf.enumerates respects rep, by
        rw [visited_eq, length_pairs, ← wf.load_eq, itemCount]⟩

end Operations

/-! ## Runs -/

/-- **The table refines a map over whole runs.**  A run from the empty table whose
every step meets `StepOk` completes, answers as the map does, and ends in a
well-formed table that represents the final map. -/
theorem run_refines_map [EquivBEq Key] (hash : Key → ℕ) (respects : HashRespects hash)
    (capacity : ℕ) (hcap : 1 ≤ capacity) (ops : List (Op Key Val))
    (ok : StepsMeet (step hash) (StepOk hash) (new capacity) ops) :
    ∃ final, runSteps (step hash) (new capacity) ops = some final ∧
      Agrees refNext refReply (fun _ => none) ops final.2 ∧
      final.1.WellFormed hash ∧
      final.1.Represents (ops.foldl refNext fun _ => none) := by
  have simulated : ∀ (table : Hashtable Key Val) (map : RefMap Key Val) (op : Op Key Val),
      (table.WellFormed hash ∧ table.Represents map) → table.StepOk hash op →
      ∃ moved, step hash table op = some moved ∧ refReply map op moved.2 ∧
        (moved.1.WellFormed hash ∧ moved.1.Represents (refNext map op)) :=
    fun _ _ op related ok => step_simulates related.1 respects related.2 op ok
  exact runSteps_simulates simulated ⟨new_wellFormed hcap, new_represents capacity⟩ ok

/-- A run that collides, removes and grows: every step meets `StepOk`. -/
theorem run_refines_map_colliding :
    ∃ final, runSteps (step fun _ : ℕ => 0) (new 4 : Hashtable ℕ ℕ)
        [.insert (1, 10), .set 2 20, .insert (3, 30), .insert (4, 40), .extract 2,
          .find 2, .insert (2, 50), .iterate, .itemCount] = some final ∧
      Agrees refNext refReply (fun _ => none)
        [.insert (1, 10), .set 2 20, .insert (3, 30), .insert (4, 40), .extract 2,
          .find 2, .insert (2, 50), .iterate, .itemCount] final.2 ∧
      final.1.WellFormed (fun _ => 0) ∧
      final.1.Represents ([.insert (1, 10), .set 2 20, .insert (3, 30), .insert (4, 40),
        .extract 2, .find 2, .insert (2, 50), .iterate, .itemCount].foldl refNext
          fun _ => none) :=
  run_refines_map (fun _ => 0) (fun _ _ _ => rfl) 4 (by decide) _ (by decide)

/-- Two keys of one home slot: once the nearer one is extracted, inserting the
other stores it again in front of its old pair.  The insert of a stored key
succeeds, and the extracted key is found afterwards. -/
theorem run_refines_map_fails :
    ¬ ∃ final, runSteps (step fun _ : ℕ => 0) (new 4 : Hashtable ℕ ℕ)
        [.insert (1, 10), .insert (2, 20), .extract 1, .insert (2, 21), .extract 2,
          .find 2] = some final ∧
      Agrees refNext refReply (fun _ => none)
        [.insert (1, 10), .insert (2, 20), .extract 1, .insert (2, 21), .extract 2,
          .find 2] final.2 := by
  rintro ⟨final, hrun, hagrees⟩
  have hreplies : (runSteps (step fun _ : ℕ => 0) (new 4 : Hashtable ℕ ℕ)
      [.insert (1, 10), .insert (2, 20), .extract 1, .insert (2, 21), .extract 2,
        .find 2]).map Prod.snd =
      some [.stored true, .stored true, .value (some 10), .stored true,
        .value (some 21), .value (some 20)] := by decide
  rw [hrun, Option.map_some, Option.some_inj] at hreplies
  rw [hreplies] at hagrees
  obtain ⟨-, -, -, hinsert, -⟩ := hagrees
  simp [refReply, refNext, RefMap.update] at hinsert

end BekOS.Hashtable
