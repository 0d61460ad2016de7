import BekOS.Library.HashtableMap

/-!
# The empty slots of `bek::hashtable`

A lookup for an absent key ends at an `Empty` slot, and without one it runs into
`ASSERT_UNREACHABLE`.  Only `check_size` ever makes a slot empty, and it looks at
`load`, which `extract` decrements while leaving a tombstone: over a long run of
inserts and extracts the tombstones use the empty slots up and the table never
notices.

`SlotInvariant` is what holds as long as this has not happened, `KeepsEmpty` says
that storing a key leaves an empty slot, and the two are tied by an equivalence
in each direction: from a table with the invariant, an operation re-establishes
it exactly when it meets `LeavesEmpty`.  Nothing here needs the keys' equality or
the hash to be lawful.
-/

namespace BekOS.Hashtable

open CyclicSearch PartialRun

universe u v

variable {Key : Type u} {Val : Type v}

/-- The counter counts the filled slots and an empty slot is left. -/
structure SlotInvariant (table : Hashtable Key Val) : Prop where
  load_eq : table.load = table.filledCount
  hasEmpty : table.HasEmpty

/-- No slot is a tombstone. -/
def NoTombstone (table : Hashtable Key Val) : Prop :=
  ∀ i : ℕ, table.slots[i]? ≠ some Slot.deleted

section Conditions

variable [BEq Key] (hash : Key → ℕ)

/-- Storing the key leaves an empty slot: the table is about to grow, or some
empty slot lies behind another slot at which the inserting scan can stop. -/
def KeepsEmpty (table : Hashtable Key Val) (key : Key) : Prop :=
  table.NeedsExpand ∨
    ∃ i ∈ List.range table.capacity, ∃ j ∈ List.range table.capacity,
      table.acceptsAt key true i = true ∧
        table.slots[j]?.any Slot.isEmpty = true ∧
        probeDistance hash table key i < probeDistance hash table key j
deriving Decidable

/-- The operation leaves an empty slot. -/
def LeavesEmpty (table : Hashtable Key Val) : Op Key Val → Prop
  | .insert pair => table.KeepsEmpty hash pair.1
  | .set key _ => table.KeepsEmpty hash key
  | .find _ | .extract _ | .iterate | .itemCount => True

instance (table : Hashtable Key Val) : (op : Op Key Val) → Decidable (table.LeavesEmpty hash op)
  | .insert pair => inferInstanceAs (Decidable (table.KeepsEmpty hash pair.1))
  | .set key _ => inferInstanceAs (Decidable (table.KeepsEmpty hash key))
  | .find _ | .extract _ | .iterate | .itemCount => .isTrue trivial

/-- Every lookup is answered, and one for an absent key meets an empty slot. -/
def Answers (table : Hashtable Key Val) : Prop :=
  table.HasEmpty ∧
    ∀ key inserting, ∃ i, uncheckedLookup hash table key inserting = some i

end Conditions

/-! ## Counting slots -/

section Counting

variable {table : Hashtable Key Val}

theorem HasEmpty.filledCount_lt (h : table.HasEmpty) : table.filledCount < table.capacity := by
  refine lt_of_le_of_ne List.countP_le_length fun hall => ?_
  have := List.countP_eq_length.mp hall .empty h
  cases this

theorem HasEmpty.capacity_pos (h : table.HasEmpty) : 0 < table.capacity :=
  lt_of_le_of_lt (Nat.zero_le _) h.filledCount_lt

theorem NoTombstone.hasEmpty (clean : table.NoTombstone)
    (hroom : table.filledCount < table.capacity) : table.HasEmpty := by
  by_contra hnone
  have : table.filledCount = table.capacity := by
    refine List.countP_eq_length.mpr fun slot hmem => ?_
    obtain ⟨i, hi⟩ := List.mem_iff_getElem?.mp hmem
    cases slot with
    | filled _ _ => rfl
    | empty => exact absurd hmem hnone
    | deleted => exact absurd hi (clean i)
  omega

theorem hasEmpty_iff : table.HasEmpty ↔ ∃ i : ℕ, table.slots[i]? = some Slot.empty :=
  List.mem_iff_getElem?

theorem any_isEmpty_iff {j : ℕ} :
    table.slots[j]?.any Slot.isEmpty = true ↔ table.slots[j]? = some .empty := by
  rcases table.slots[j]? with _ | _ | _ | ⟨_, _⟩ <;> simp [Slot.isEmpty]

end Counting

/-! ## Storing a pair -/

section Store

variable [BEq Key] {hash : Key → ℕ} {table : Hashtable Key Val} {i : ℕ}

/-- **What `unchecked_set` does**, without any assumption on the table: nothing,
replace a filled slot, or fill a slot that was not. -/
theorem uncheckedSet_cases (pair : Key × Val) (overwrite : Bool)
    (h : uncheckedLookup hash table pair.1 true = some i) :
    ∃ stored, uncheckedSet hash table pair overwrite = some stored ∧
      ((stored.1 = table ∧ ∃ k w, table.slots[i]? = some (.filled k w)) ∨
        (stored.1 = table.change i (.filled pair.1 pair.2) table.load ∧
          ∃ k w, table.slots[i]? = some (.filled k w)) ∨
        (stored.1 = table.change i (.filled pair.1 pair.2) (table.load + 1) ∧
          ∀ k w, table.slots[i]? ≠ some (.filled k w))) := by
  rw [uncheckedSet, h, Option.map_some]
  refine ⟨_, rfl, ?_⟩
  cases hslot : table.slots[i]? with
  | none => exact Or.inr (Or.inr ⟨rfl, fun _ _ => by simp⟩)
  | some slot =>
      cases slot with
      | empty => exact Or.inr (Or.inr ⟨rfl, fun _ _ => by simp⟩)
      | deleted => exact Or.inr (Or.inr ⟨rfl, fun _ _ => by simp⟩)
      | filled k w =>
          cases overwrite with
          | true => exact Or.inr (Or.inl ⟨rfl, k, w, rfl⟩)
          | false => exact Or.inl ⟨rfl, k, w, rfl⟩

theorem uncheckedSet_counts (hload : table.load = table.filledCount)
    (hcap : 0 < table.capacity) (pair : Key × Val) (overwrite : Bool)
    (h : uncheckedLookup hash table pair.1 true = some i) :
    ∃ stored, uncheckedSet hash table pair overwrite = some stored ∧
      stored.1.load = stored.1.filledCount ∧ stored.1.capacity = table.capacity ∧
      stored.1.filledCount ≤ table.filledCount + 1 ∧
      (∀ j, j ≠ i → stored.1.slots[j]? = table.slots[j]?) ∧
      ∃ k w, stored.1.slots[i]? = some (.filled k w) := by
  have hi := lt_capacity_of_acceptsAt (acceptsAt_of_uncheckedLookup hash hcap h)
  obtain ⟨stored, hset, hcases⟩ := uncheckedSet_cases pair overwrite h
  refine ⟨stored, hset, ?_⟩
  rcases hcases with ⟨heq, hfilled⟩ | ⟨heq, k, w, hfilled⟩ | ⟨heq, hfree⟩
  · rw [heq]
    exact ⟨hload, rfl, Nat.le_succ _, fun _ _ => rfl, hfilled⟩
  · have hcount := filledCount_change_of_filled hfilled
      (.filled pair.1 pair.2) table.load
    have hpos := filledCount_pos hfilled
    simp only [Slot.isFilled, if_true] at hcount
    rw [heq]
    exact ⟨by rw [change_load, hcount]; omega, change_capacity _, by omega,
      fun j hj => change_slots_ne hj _, _, _, change_slots_self hi _⟩
  · have hcount := filledCount_change_filled pair.1 pair.2 hi hfree (table.load + 1)
    rw [heq]
    exact ⟨by rw [change_load, hcount]; omega, change_capacity _, by omega,
      fun j hj => change_slots_ne hj _, _, _, change_slots_self hi _⟩

theorem hasEmpty_of_uncheckedSet {pair : Key × Val} {overwrite : Bool}
    {stored : Hashtable Key Val × (ℕ × Bool)}
    (h : uncheckedSet hash table pair overwrite = some stored)
    (hempty : stored.1.HasEmpty) : table.HasEmpty := by
  obtain ⟨i, hlookup, -⟩ := Option.map_eq_some_iff.mp h
  obtain ⟨stored', hset, hcases⟩ := uncheckedSet_cases pair overwrite hlookup
  rw [h, Option.some_inj] at hset
  subst hset
  obtain ⟨j, hj⟩ := hasEmpty_iff.mp hempty
  have hchange : ∀ load, (table.change i (.filled pair.1 pair.2) load).slots[j]? =
      some .empty → table.HasEmpty := by
    intro load hslot
    by_cases hji : j = i
    · subst hji
      by_cases hjcap : j < table.capacity
      · rw [change_slots_self hjcap] at hslot
        cases hslot
      · rw [List.getElem?_eq_none (by simpa [change, capacity] using hjcap)] at hslot
        cases hslot
    · exact hasEmpty_iff.mpr ⟨j, (change_slots_ne hji load).symm.trans hslot⟩
  rcases hcases with ⟨heq, -⟩ | ⟨heq, -⟩ | ⟨heq, -⟩ <;> rw [heq] at hempty hj
  · exact hempty
  · exact hchange _ hj
  · exact hchange _ hj

/-- The transfer loop never runs out of slots, leaves no tombstone and stores no
more pairs than it is given. -/
theorem transfer_counts :
    ∀ (rest : List (Slot Key Val)) (table : Hashtable Key Val),
      table.load = table.filledCount → table.NoTombstone →
      table.filledCount + rest.countP Slot.isFilled < table.capacity →
      ∃ table', transfer hash table rest = some table' ∧
        table'.load = table'.filledCount ∧ table'.NoTombstone ∧
        table'.capacity = table.capacity ∧
        table'.filledCount ≤ table.filledCount + rest.countP Slot.isFilled := by
  intro rest
  induction rest with
  | nil =>
      intro table hload clean _
      exact ⟨table, rfl, hload, clean, rfl, by simp⟩
  | cons slot rest ih =>
      intro table hload clean hroom
      cases slot with
      | empty =>
          simpa [transfer, Slot.isFilled] using
            ih table hload clean (by simpa [Slot.isFilled] using hroom)
      | deleted =>
          simpa [transfer, Slot.isFilled] using
            ih table hload clean (by simpa [Slot.isFilled] using hroom)
      | filled first second =>
          have hcount : (Slot.filled first second :: rest).countP Slot.isFilled =
              rest.countP Slot.isFilled + 1 :=
            List.countP_cons_of_pos rfl
          rw [hcount] at hroom
          have hempty := clean.hasEmpty (by omega)
          obtain ⟨i, hlookup⟩ :=
            exists_uncheckedLookup_of_hasEmpty hash first true hempty
          obtain ⟨stored, hset, hload', hcap, hle, hother, k, w, hself⟩ :=
            uncheckedSet_counts hload hempty.capacity_pos (first, second) false hlookup
          have clean' : stored.1.NoTombstone := by
            intro j hj
            by_cases hji : j = i
            · subst hji
              rw [hself] at hj
              cases hj
            · rw [hother j hji] at hj
              exact clean j hj
          obtain ⟨table', htransfer, hload'', clean'', hcap', hle'⟩ :=
            ih stored.1 hload' clean' (by omega)
          refine ⟨table', ?_, hload'', clean'', hcap'.trans hcap, by omega⟩
          rw [transfer, hset, Option.bind_some, htransfer]

/-- `check_size` either leaves the table alone or makes one with at least two
empty slots and no tombstone. -/
theorem checkSize_counts (hash : Key → ℕ) (inv : table.SlotInvariant) :
    ∃ table', checkSize hash table = some table' ∧
      table'.load = table'.filledCount ∧
      (¬ table.NeedsExpand → table' = table) ∧
      (table.NeedsExpand → table'.NoTombstone ∧
        table'.filledCount + 1 < table'.capacity) := by
  unfold checkSize
  by_cases hexp : table.NeedsExpand
  · rw [if_pos hexp]
    have hlt := inv.hasEmpty.filledCount_lt
    have hcap : (new (table.capacity * expandFactor) : Hashtable Key Val).capacity =
        table.capacity * 2 := by
      simp [new, Hashtable.capacity, expandFactor]
    have hzero : (new (table.capacity * expandFactor) : Hashtable Key Val).filledCount = 0 := by
      simp [new, filledCount, List.countP_replicate, Slot.isFilled]
    obtain ⟨table', htransfer, hload, clean, hcap', hle⟩ :=
      transfer_counts table.slots (new (table.capacity * expandFactor) : Hashtable Key Val)
        hzero.symm
        (by
          intro j hj
          have := List.mem_of_getElem? hj
          simp [new] at this)
        (by
          rw [hzero, hcap]
          unfold filledCount at hlt
          omega)
    refine ⟨table', htransfer, hload, fun h => absurd hexp h, fun _ => ⟨clean, ?_⟩⟩
    rw [hcap', hcap]
    rw [hzero] at hle
    unfold filledCount at hlt hle
    unfold filledCount
    omega
  · rw [if_neg hexp]
    exact ⟨table, rfl, inv.load_eq, fun _ => rfl, fun h => absurd h hexp⟩

theorem keepsEmpty_iff {key : Key} (inv : table.SlotInvariant)
    (steady : ¬ table.NeedsExpand)
    (h : uncheckedLookup hash table key true = some i) :
    table.KeepsEmpty hash key ↔ ∃ j ≠ i, table.slots[j]? = some .empty := by
  have hcap := inv.hasEmpty.capacity_pos
  have hacc := (uncheckedLookup_eq_some_iff hash hcap).mp h
  have hi := lt_capacity_of_acceptsAt hacc.1
  unfold KeepsEmpty
  rw [or_iff_right steady]
  constructor
  · rintro ⟨k, -, j, -, hk, hj, hlt⟩
    refine ⟨j, ?_, any_isEmpty_iff.mp hj⟩
    rintro rfl
    exact absurd (hacc.2 k hk) (by omega)
  · rintro ⟨j, hji, hj⟩
    have hjcap : j < table.capacity := (List.getElem?_eq_some_iff.mp hj).1
    refine ⟨i, List.mem_range.mpr hi, j, List.mem_range.mpr hjcap, hacc.1,
      any_isEmpty_iff.mpr hj, ?_⟩
    refine lt_of_le_of_ne (hacc.2 j (acceptsAt_iff.mpr (Or.inl hj))) fun heq => hji ?_
    exact (ringDistance_inj (Nat.mod_lt _ hcap) hi hjcap heq).symm

variable (hash) in
/-- **The store behind `insert` and `set`.**  It completes, and it keeps the
invariant exactly when it meets `KeepsEmpty`. -/
theorem store_slots (inv : table.SlotInvariant) (pair : Key × Val) (overwrite : Bool) :
    ∃ stored, ((checkSize hash table).bind fun table =>
        uncheckedSet hash table pair overwrite) = some stored ∧
      (table.KeepsEmpty hash pair.1 → stored.1.SlotInvariant) ∧
      (stored.1.HasEmpty → table.KeepsEmpty hash pair.1) := by
  obtain ⟨sized, hsize, hload, hsteady, hgrown⟩ := checkSize_counts hash inv
  rw [hsize, Option.bind_some]
  by_cases hexp : table.NeedsExpand
  · obtain ⟨clean, hroom⟩ := hgrown hexp
    have hempty := clean.hasEmpty (by omega)
    obtain ⟨i, hlookup⟩ := exists_uncheckedLookup_of_hasEmpty hash pair.1 true hempty
    obtain ⟨stored, hset, hload', hcap, hle, hother, k, w, hself⟩ :=
      uncheckedSet_counts hload hempty.capacity_pos pair overwrite hlookup
    refine ⟨stored, hset, fun _ => ⟨hload', ?_⟩, fun _ => Or.inl hexp⟩
    refine NoTombstone.hasEmpty (fun j hj => ?_) (by omega)
    by_cases hji : j = i
    · subst hji
      rw [hself] at hj
      cases hj
    · rw [hother j hji] at hj
      exact clean j hj
  · rw [hsteady hexp]
    obtain ⟨i, hlookup⟩ := exists_uncheckedLookup_of_hasEmpty hash pair.1 true inv.hasEmpty
    obtain ⟨stored, hset, hload', hcap, hle, hother, k, w, hself⟩ :=
      uncheckedSet_counts inv.load_eq inv.hasEmpty.capacity_pos pair overwrite hlookup
    refine ⟨stored, hset, fun hkeeps => ⟨hload', hasEmpty_iff.mpr ?_⟩, fun hempty => ?_⟩
    · obtain ⟨j, hji, hj⟩ := (keepsEmpty_iff inv hexp hlookup).mp hkeeps
      exact ⟨j, (hother j hji).trans hj⟩
    · obtain ⟨j, hj⟩ := hasEmpty_iff.mp hempty
      have hji : j ≠ i := by
        rintro rfl
        rw [hself] at hj
        cases hj
      exact (keepsEmpty_iff inv hexp hlookup).mpr ⟨j, hji, (hother j hji).symm.trans hj⟩

end Store

/-! ## The operations -/

section Operations

variable [BEq Key] {hash : Key → ℕ} {table : Hashtable Key Val}

/-- **What `extract` does**, without any assumption on the table: nothing, or it
leaves a tombstone where the lookup ended. -/
theorem extract_cases (key : Key) {i : ℕ}
    (h : uncheckedLookup hash table key false = some i) :
    table.extract hash key = some (table, none) ∨
      ∃ k w, table.slots[i]? = some (.filled k w) ∧
        table.extract hash key = some (table.change i .deleted (table.load - 1), some w) := by
  unfold extract
  rw [h, Option.map_some]
  cases hslot : table.slots[i]? with
  | none => exact Or.inl rfl
  | some slot =>
      cases slot with
      | empty => exact Or.inl rfl
      | deleted => exact Or.inl rfl
      | filled k w => exact Or.inr ⟨k, w, rfl, rfl⟩

omit [BEq Key] in
theorem tombstone_hasEmpty_iff {i load : ℕ} {k : Key} {w : Val}
    (hslot : table.slots[i]? = some (.filled k w)) :
    (table.change i .deleted load).HasEmpty ↔ table.HasEmpty := by
  have hi : i < table.capacity := (List.getElem?_eq_some_iff.mp hslot).1
  rw [hasEmpty_iff, hasEmpty_iff]
  constructor
  · rintro ⟨j, hj⟩
    have hji : j ≠ i := by
      rintro rfl
      rw [change_slots_self hi] at hj
      cases hj
    exact ⟨j, (change_slots_ne hji load).symm.trans hj⟩
  · rintro ⟨j, hj⟩
    have hji : j ≠ i := by
      rintro rfl
      rw [hslot] at hj
      cases hj
    exact ⟨j, (change_slots_ne hji load).trans hj⟩

omit [BEq Key] in
theorem tombstone_load_eq {i : ℕ} {k : Key} {w : Val}
    (hload : table.load = table.filledCount)
    (hslot : table.slots[i]? = some (.filled k w)) :
    (table.change i .deleted (table.load - 1)).load =
      (table.change i .deleted (table.load - 1)).filledCount := by
  rw [filledCount_change_of_filled hslot, change_load, hload]
  simp [Slot.isFilled]

theorem SlotInvariant.answers (inv : table.SlotInvariant) : table.Answers hash :=
  ⟨inv.hasEmpty, fun key inserting =>
    exists_uncheckedLookup_of_hasEmpty hash key inserting inv.hasEmpty⟩

omit [BEq Key] in
theorem new_slotInvariant {capacity : ℕ} (hcap : 1 ≤ capacity) :
    (new capacity : Hashtable Key Val).SlotInvariant where
  load_eq := by simp [new, filledCount, List.countP_replicate, Slot.isFilled]
  hasEmpty := List.mem_replicate.mpr ⟨by omega, rfl⟩

/-- **One operation.**  From the invariant every operation completes, and it
keeps the invariant exactly when it meets `LeavesEmpty`. -/
theorem step_slots (inv : table.SlotInvariant) (op : Op Key Val) :
    ∃ moved, step hash table op = some moved ∧
      (table.LeavesEmpty hash op → moved.1.SlotInvariant) ∧
      (moved.1.HasEmpty → table.LeavesEmpty hash op) := by
  cases op with
  | insert pair =>
      obtain ⟨stored, hstore, hkeeps, hneeds⟩ := store_slots hash inv pair false
      exact ⟨(stored.1, .stored stored.2.2),
        by simp only [step, Hashtable.insert, hstore, Option.map_some], hkeeps, hneeds⟩
  | set key val =>
      obtain ⟨stored, hstore, hkeeps, hneeds⟩ := store_slots hash inv (key, val) true
      exact ⟨(stored.1, .stored stored.2.2),
        by simp only [step, Hashtable.set, hstore, Option.map_some], hkeeps, hneeds⟩
  | find key =>
      obtain ⟨i, hlookup⟩ := exists_uncheckedLookup_of_hasEmpty hash key false inv.hasEmpty
      have hfind : ∃ val, table.find hash key = some val := by
        unfold find
        rw [hlookup, Option.map_some]
        exact ⟨_, rfl⟩
      obtain ⟨val, hval⟩ := hfind
      exact ⟨(table, .value val), by simp only [step, hval, Option.map_some],
        fun _ => inv, fun _ => trivial⟩
  | extract key =>
      obtain ⟨i, hlookup⟩ := exists_uncheckedLookup_of_hasEmpty hash key false inv.hasEmpty
      rcases extract_cases key hlookup with hextract | ⟨k, w, hslot, hextract⟩
      · exact ⟨(table, .value none), by simp only [step, hextract, Option.map_some],
          fun _ => inv, fun _ => trivial⟩
      · exact ⟨(table.change i .deleted (table.load - 1), .value (some w)),
          by simp only [step, hextract, Option.map_some],
          fun _ => ⟨tombstone_load_eq inv.load_eq hslot,
            (tombstone_hasEmpty_iff hslot).mpr inv.hasEmpty⟩, fun _ => trivial⟩
  | iterate => exact ⟨_, rfl, fun _ => inv, fun _ => trivial⟩
  | itemCount => exact ⟨_, rfl, fun _ => inv, fun _ => trivial⟩

/-- A run keeps an empty slot in every state it reaches exactly when each of its
operations leaves one. -/
theorem run_answers_iff (hash : Key → ℕ) {capacity : ℕ} (hcap : 1 ≤ capacity)
    (ops : List (Op Key Val)) :
    (∀ n, ∃ final, runSteps (step hash) (new capacity) (ops.take n) = some final ∧
        final.1.Answers hash) ↔
      StepsMeet (step hash) (LeavesEmpty hash) (new capacity) ops := by
  refine runSteps_good_iff (fun _ inv => inv.answers) ?_ ?_ (new_slotInvariant hcap)
  · intro table op inv hleaves
    obtain ⟨moved, hstep, hkeeps, -⟩ := step_slots inv op
    exact ⟨moved, hstep, hkeeps hleaves⟩
  · intro table op moved inv hstep hgood
    obtain ⟨moved', hstep', -, hneeds⟩ := step_slots inv op
    rw [hstep, Option.some_inj] at hstep'
    subst hstep'
    exact hneeds hgood.1

end Operations

end BekOS.Hashtable
