import BekOS.Library.Hashtable

/-!
# The probe-sequence invariant of `bek::hashtable`

`WellFormed` says that the `load` counter counts the filled slots and that every
filled slot is where the lookup for its key ends.  The second clause is all the
structure open addressing needs: it makes every live key reachable from its home
slot, and — a lookup has one answer — it forbids a key to be stored twice.

Each primitive change of a slot has one lemma here: filling a slot the inserting
lookup returned for an absent key (`WellFormed.fill`), overwriting a slot by an
equal key (`WellFormed.overwrite`), and leaving a tombstone
(`WellFormed.tombstone`).
-/

namespace BekOS.Hashtable

open CyclicSearch

universe u v

variable {Key : Type u} {Val : Type v}

/-- The hash respects the keys' equality. -/
def HashRespects [BEq Key] (hash : Key → ℕ) : Prop :=
  ∀ key other : Key, (key == other) = true → hash key = hash other

/-- How far slot `i` is from the home slot of `key` along its probe sequence. -/
def probeDistance (hash : Key → ℕ) (table : Hashtable Key Val) (key : Key) (i : ℕ) :
    ℕ :=
  ringDistance table.capacity (hash key % table.capacity) i

/-- Slot `i` stores `val` under a key equal to `key`. -/
def Holds [BEq Key] (table : Hashtable Key Val) (key : Key) (i : ℕ) (val : Val) : Prop :=
  ∃ stored, table.slots[i]? = some (.filled stored val) ∧ (key == stored) = true

/-- Some slot stores the key. -/
def Present [BEq Key] (table : Hashtable Key Val) (key : Key) : Prop :=
  table.slots.any (Slot.hasKey key) = true

instance [BEq Key] (table : Hashtable Key Val) (key : Key) :
    Decidable (table.Present key) :=
  inferInstanceAs (Decidable (_ = true))

/-- Some slot was never used since the arrays were allocated. -/
def HasEmpty (table : Hashtable Key Val) : Prop := .empty ∈ table.slots

instance [DecidableEq Key] [DecidableEq Val] (table : Hashtable Key Val) :
    Decidable table.HasEmpty :=
  inferInstanceAs (Decidable (_ ∈ _))

/-- The number of filled slots. -/
def filledCount (table : Hashtable Key Val) : ℕ := table.slots.countP Slot.isFilled

theorem present_iff [BEq Key] {table : Hashtable Key Val} {key : Key} :
    table.Present key ↔ ∃ i val, table.Holds key i val := by
  unfold Present Holds
  rw [List.any_eq_true]
  constructor
  · rintro ⟨slot, hmem, hkey⟩
    obtain ⟨i, hslot⟩ := List.mem_iff_getElem?.mp hmem
    cases slot with
    | filled first second => exact ⟨i, second, first, hslot, hkey⟩
    | empty => cases hkey
    | deleted => cases hkey
  · rintro ⟨i, val, stored, hslot, hkey⟩
    exact ⟨.filled stored val, List.mem_of_getElem? hslot, hkey⟩

/-! ## The lookup, by distance -/

section Lookup

variable [BEq Key] (hash : Key → ℕ) {table : Hashtable Key Val} {key : Key}
variable {inserting : Bool} {i : ℕ}

theorem acceptsAt_iff :
    table.acceptsAt key inserting i = true ↔
      table.slots[i]? = some .empty ∨
        (table.slots[i]? = some .deleted ∧ inserting = true) ∨
        ∃ val, table.Holds key i val := by
  unfold acceptsAt Holds
  rcases table.slots[i]? with _ | _ | _ | ⟨stored, val⟩ <;> simp [Slot.accepts]

theorem lt_capacity_of_acceptsAt (h : table.acceptsAt key inserting i = true) :
    i < table.capacity := by
  by_contra hge
  have : table.slots[i]? = none := List.getElem?_eq_none (by unfold capacity at hge; omega)
  simp [acceptsAt, this] at h

theorem uncheckedLookup_eq_some_iff (hcap : 0 < table.capacity) :
    uncheckedLookup hash table key inserting = some i ↔
      table.acceptsAt key inserting i = true ∧
        ∀ j, table.acceptsAt key inserting j = true →
          probeDistance hash table key i ≤ probeDistance hash table key j := by
  unfold uncheckedLookup probeDistance
  rw [cyclicFind?_eq_some_iff (Nat.mod_lt _ hcap)]
  constructor
  · rintro ⟨-, hacc, hmin⟩
    exact ⟨hacc, fun j hj => hmin j (lt_capacity_of_acceptsAt hj) hj⟩
  · rintro ⟨hacc, hmin⟩
    exact ⟨lt_capacity_of_acceptsAt hacc, hacc, fun j _ hj => hmin j hj⟩

theorem exists_uncheckedLookup (hcap : 0 < table.capacity)
    (h : table.acceptsAt key inserting i = true) :
    ∃ j, uncheckedLookup hash table key inserting = some j :=
  exists_cyclicFind? (Nat.mod_lt _ hcap) (lt_capacity_of_acceptsAt h) h

theorem acceptsAt_of_uncheckedLookup (hcap : 0 < table.capacity)
    (h : uncheckedLookup hash table key inserting = some i) :
    table.acceptsAt key inserting i = true :=
  ((uncheckedLookup_eq_some_iff hash hcap).mp h).1

theorem exists_uncheckedLookup_of_hasEmpty (key : Key) (inserting : Bool)
    (h : table.HasEmpty) : ∃ j, uncheckedLookup hash table key inserting = some j := by
  obtain ⟨i, hi⟩ := List.mem_iff_getElem?.mp h
  have hcap : 0 < table.capacity := by
    unfold capacity
    exact List.length_pos_of_mem h
  exact exists_uncheckedLookup hash hcap (acceptsAt_iff.mpr (Or.inl hi))

theorem holds_of_uncheckedLookup (hcap : 0 < table.capacity) {stored : Key} {val : Val}
    (h : uncheckedLookup hash table key inserting = some i)
    (hfilled : table.slots[i]? = some (.filled stored val)) : table.Holds key i val := by
  rcases acceptsAt_iff.mp (acceptsAt_of_uncheckedLookup hash hcap h) with
    hempty | ⟨hdeleted, -⟩ | ⟨other, hholds⟩
  · simp [hfilled] at hempty
  · simp [hfilled] at hdeleted
  · obtain ⟨key', hslot, heq⟩ := hholds
    rw [hfilled] at hslot
    cases hslot
    exact ⟨stored, hfilled, heq⟩

end Lookup

/-! ## The invariant -/

/-- The counter counts the filled slots, and each of them is where the lookup
for its key ends. -/
structure WellFormed [BEq Key] (hash : Key → ℕ) (table : Hashtable Key Val) : Prop where
  capacity_pos : 0 < table.capacity
  load_eq : table.load = table.filledCount
  reachable : ∀ i key val, table.slots[i]? = some (.filled key val) →
    uncheckedLookup hash table key false = some i

section WellFormed

variable [BEq Key] [EquivBEq Key] {hash : Key → ℕ} {table : Hashtable Key Val}
variable {key other : Key} {i j : ℕ} {val : Val}

theorem Holds.congr (h : table.Holds key i val) (heq : (other == key) = true) :
    table.Holds other i val := by
  obtain ⟨stored, hslot, hkey⟩ := h
  exact ⟨stored, hslot, BEq.trans heq hkey⟩

theorem acceptsAt_congr (heq : (key == other) = true) (inserting : Bool) :
    table.acceptsAt key inserting i = table.acceptsAt other inserting i := by
  rw [Bool.eq_iff_iff, acceptsAt_iff, acceptsAt_iff]
  have : (∃ val, table.Holds key i val) ↔ ∃ val, table.Holds other i val :=
    ⟨fun ⟨val, h⟩ => ⟨val, h.congr (BEq.symm heq)⟩, fun ⟨val, h⟩ => ⟨val, h.congr heq⟩⟩
  rw [this]

theorem uncheckedLookup_congr (respects : HashRespects hash)
    (heq : (key == other) = true) (inserting : Bool) :
    uncheckedLookup hash table key inserting =
      uncheckedLookup hash table other inserting := by
  unfold uncheckedLookup
  rw [respects key other heq]
  congr 1
  funext i
  exact acceptsAt_congr heq inserting

theorem WellFormed.lookup_of_holds (wf : table.WellFormed hash)
    (respects : HashRespects hash) (h : table.Holds key i val) :
    uncheckedLookup hash table key false = some i := by
  obtain ⟨stored, hslot, heq⟩ := h
  rw [uncheckedLookup_congr respects heq]
  exact wf.reachable i stored val hslot

theorem WellFormed.holds_unique (wf : table.WellFormed hash)
    (respects : HashRespects hash) {val' : Val} (h : table.Holds key i val)
    (h' : table.Holds key j val') : i = j ∧ val = val' := by
  have hi := wf.lookup_of_holds respects h
  have hj := wf.lookup_of_holds respects h'
  rw [hi] at hj
  cases hj
  obtain ⟨stored, hslot, -⟩ := h
  obtain ⟨stored', hslot', -⟩ := h'
  rw [hslot] at hslot'
  cases hslot'
  exact ⟨rfl, rfl⟩

omit [EquivBEq Key] in
theorem empty_of_lookup_absent (hcap : 0 < table.capacity)
    (absent : ¬ table.Present key)
    (h : uncheckedLookup hash table key false = some i) :
    table.slots[i]? = some .empty := by
  rcases acceptsAt_iff.mp (acceptsAt_of_uncheckedLookup hash hcap h) with
    hempty | ⟨-, hfalse⟩ | ⟨val, hholds⟩
  · exact hempty
  · cases hfalse
  · exact absurd (present_iff.mpr ⟨i, val, hholds⟩) absent

end WellFormed

/-! ## Changing one slot -/

section Change

variable {hash : Key → ℕ} {table : Hashtable Key Val}
variable {key : Key} {i j : ℕ} {val : Val} {slot : Slot Key Val}

/-- The table with slot `i` replaced and the counter set to `load`. -/
def change (table : Hashtable Key Val) (i : ℕ) (slot : Slot Key Val) (load : ℕ) :
    Hashtable Key Val where
  slots := table.slots.set i slot
  load := load

@[simp] theorem change_capacity (load : ℕ) :
    (table.change i slot load).capacity = table.capacity := by
  simp [change, capacity]

@[simp] theorem change_load (load : ℕ) : (table.change i slot load).load = load := rfl

theorem change_slots_self (hi : i < table.capacity) (load : ℕ) :
    (table.change i slot load).slots[i]? = some slot := by
  simp only [change, List.getElem?_set_self']
  unfold capacity at hi
  simp [List.getElem?_eq_getElem hi]

theorem change_slots_ne (h : j ≠ i) (load : ℕ) :
    (table.change i slot load).slots[j]? = table.slots[j]? := by
  simp only [change]
  exact List.getElem?_set_ne (Ne.symm h)

@[simp] theorem change_probeDistance (load : ℕ) :
    probeDistance hash (table.change i slot load) key j =
      probeDistance hash table key j := by
  simp [probeDistance]

theorem change_holds_ne [BEq Key] (h : j ≠ i) (load : ℕ) :
    (table.change i slot load).Holds key j val ↔ table.Holds key j val := by
  unfold Holds
  rw [change_slots_ne h load]

theorem change_acceptsAt_ne [BEq Key] (h : j ≠ i) (load : ℕ) (inserting : Bool) :
    (table.change i slot load).acceptsAt key inserting j =
      table.acceptsAt key inserting j := by
  unfold acceptsAt
  rw [change_slots_ne h load]

theorem filledCount_change_filled (first : Key) (second : Val)
    (hi : i < table.capacity) (hfree : ∀ k w, table.slots[i]? ≠ some (.filled k w))
    (load : ℕ) :
    (table.change i (.filled first second) load).filledCount = table.filledCount + 1 := by
  unfold capacity at hi
  have hnot : (table.slots[i]).isFilled = false := by
    have := hfree
    rw [List.getElem?_eq_getElem hi] at this
    cases hslot : table.slots[i] with
    | filled k w => exact absurd (congrArg some hslot) (this k w)
    | empty => rfl
    | deleted => rfl
  simp only [filledCount, change, List.countP_set hi, hnot]
  simp [Slot.isFilled]

theorem filledCount_change_of_filled {first : Key} {second : Val}
    (hslot : table.slots[i]? = some (.filled first second)) (slot : Slot Key Val)
    (load : ℕ) :
    (table.change i slot load).filledCount =
      table.filledCount - 1 + if slot.isFilled then 1 else 0 := by
  obtain ⟨hi, hget⟩ := List.getElem?_eq_some_iff.mp hslot
  simp only [filledCount, change, List.countP_set hi, hget]
  simp [Slot.isFilled]

theorem filledCount_pos {first : Key} {second : Val}
    (hslot : table.slots[i]? = some (.filled first second)) : 0 < table.filledCount := by
  refine List.countP_pos_iff.mpr ⟨.filled first second, List.mem_of_getElem? hslot, rfl⟩

end Change

section Preservation

variable [BEq Key] [EquivBEq Key] {hash : Key → ℕ} {table : Hashtable Key Val}
variable {key : Key} {i : ℕ} {val : Val}

/-- **Filling.**  Storing an absent key at the slot the inserting lookup returns
keeps the invariant. -/
theorem WellFormed.fill (wf : table.WellFormed hash)
    (absent : ¬ table.Present key)
    (h : uncheckedLookup hash table key true = some i) (val : Val) :
    (table.change i (.filled key val) (table.load + 1)).WellFormed hash := by
  obtain ⟨hacc, hmin⟩ := (uncheckedLookup_eq_some_iff hash wf.capacity_pos).mp h
  have hi := lt_capacity_of_acceptsAt hacc
  have hfree : ∀ k w, table.slots[i]? ≠ some (.filled k w) := fun k w hslot =>
    absent (present_iff.mpr
      ⟨i, w, holds_of_uncheckedLookup hash wf.capacity_pos h hslot⟩)
  refine ⟨by simpa using wf.capacity_pos, ?_, ?_⟩
  · rw [filledCount_change_filled key val hi hfree, change_load, wf.load_eq]
  · intro j stored w hslot
    rw [uncheckedLookup_eq_some_iff hash (by simpa using wf.capacity_pos)]
    have hself : (table.change i (.filled key val) (table.load + 1)).acceptsAt stored
        false j = true :=
      acceptsAt_iff.mpr (Or.inr (Or.inr ⟨w, stored, hslot, BEq.refl stored⟩))
    refine ⟨hself, fun k hk => ?_⟩
    simp only [change_probeDistance]
    by_cases hj : j = i
    · -- The new slot: whatever stops the plain lookup stopped the inserting one.
      subst hj
      rw [change_slots_self hi] at hslot
      cases hslot
      by_cases hkj : k = j
      · rw [hkj]
      · rw [change_acceptsAt_ne hkj] at hk
        refine hmin k (acceptsAt_iff.mpr ?_)
        rcases acceptsAt_iff.mp hk with hempty | ⟨-, hfalse⟩ | hholds
        · exact Or.inl hempty
        · cases hfalse
        · exact Or.inr (Or.inr hholds)
    · -- An old slot: the new one does not stop the lookup for its key.
      rw [change_slots_ne hj] at hslot
      have hold := ((uncheckedLookup_eq_some_iff hash wf.capacity_pos).mp
        (wf.reachable j stored w hslot)).2
      refine hold k ?_
      by_cases hki : k = i
      · subst hki
        rcases acceptsAt_iff.mp hk with hempty | ⟨-, hfalse⟩ | ⟨u, new, hnew, heq⟩
        · rw [change_slots_self hi] at hempty
          cases hempty
        · cases hfalse
        · rw [change_slots_self hi] at hnew
          cases hnew
          exact absurd (present_iff.mpr ⟨j, w, stored, hslot, BEq.symm heq⟩) absent
      · rwa [change_acceptsAt_ne hki] at hk

/-- **Overwriting.**  Replacing a stored pair by one under an equal key keeps the
invariant. -/
theorem WellFormed.overwrite (wf : table.WellFormed hash)
    (respects : HashRespects hash) {old : Val} (h : table.Holds key i old) (val : Val) :
    (table.change i (.filled key val) table.load).WellFormed hash := by
  have hlookup := wf.lookup_of_holds respects h
  obtain ⟨stored, hslot, hkey⟩ := h
  have hi : i < table.capacity :=
    (List.getElem?_eq_some_iff.mp hslot).1
  have hsame : ∀ (k : Key) (j : ℕ),
      (table.change i (.filled key val) table.load).acceptsAt k false j =
        table.acceptsAt k false j := by
    intro k j
    by_cases hj : j = i
    · subst hj
      rw [acceptsAt, acceptsAt, change_slots_self hi, hslot, Option.any_some,
        Option.any_some]
      exact BEq.congr_right hkey
    · exact change_acceptsAt_ne hj _ _
  have hlookups : ∀ k, uncheckedLookup hash
      (table.change i (.filled key val) table.load) k false =
        uncheckedLookup hash table k false := by
    intro k
    simp only [uncheckedLookup, change_capacity]
    congr 1
    funext j
    exact hsame k j
  refine ⟨by simpa using wf.capacity_pos, ?_, fun j k w hk => ?_⟩
  · have := filledCount_pos hslot
    rw [filledCount_change_of_filled hslot, change_load, wf.load_eq]
    simp [Slot.isFilled]
    omega
  · rw [hlookups]
    by_cases hj : j = i
    · subst hj
      rw [change_slots_self hi] at hk
      cases hk
      exact hlookup
    · rw [change_slots_ne hj] at hk
      exact wf.reachable j k w hk

omit [EquivBEq Key] in
/-- **Removing.**  Leaving a tombstone in a filled slot keeps the invariant. -/
theorem WellFormed.tombstone (wf : table.WellFormed hash) {stored : Key} {old : Val}
    (hslot : table.slots[i]? = some (.filled stored old)) :
    (table.change i .deleted (table.load - 1)).WellFormed hash := by
  have hi : i < table.capacity := (List.getElem?_eq_some_iff.mp hslot).1
  refine ⟨by simpa using wf.capacity_pos, ?_, fun j k w hk => ?_⟩
  · rw [filledCount_change_of_filled hslot, change_load, wf.load_eq]
    simp [Slot.isFilled]
  · have hj : j ≠ i := by
      rintro rfl
      rw [change_slots_self hi] at hk
      cases hk
    rw [change_slots_ne hj] at hk
    obtain ⟨hacc, hmin⟩ := (uncheckedLookup_eq_some_iff hash wf.capacity_pos).mp
      (wf.reachable j k w hk)
    rw [uncheckedLookup_eq_some_iff hash (by simpa using wf.capacity_pos)]
    refine ⟨by rwa [change_acceptsAt_ne hj], fun l hl => ?_⟩
    simp only [change_probeDistance]
    refine hmin l ?_
    by_cases hli : l = i
    · subst hli
      rw [acceptsAt, change_slots_self hi] at hl
      simp [Slot.accepts] at hl
    · rwa [change_acceptsAt_ne hli] at hl

end Preservation

end BekOS.Hashtable
