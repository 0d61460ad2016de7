import BekOS.Library.HashtableInvariant

/-!
# `bek::hashtable` against a finite map

The reference is a partial function from keys to values.  `Represents` says that
the table stores exactly its entries; every operation of the table is compared
with the evident operation on the function, and `PartialRun.runSteps_simulates`
turns the comparison of one step into one of whole runs.

The comparison needs a side condition, and the condition is the table's defect.
An inserting lookup stops at the first tombstone, so when the key itself is
stored *behind* a tombstone (`Shadowed`) it is stored a second time.  `StepOk`
rules this out for the keys inserted or set, and rules out a plain lookup for an
absent key in a table with no empty slot left, where `unchecked_lookup` has no
answer.
-/

namespace BekOS.Hashtable

open CyclicSearch PartialRun

universe u v

variable {Key : Type u} {Val : Type v}

/-! ## The reference map -/

/-- A reference map. -/
abbrev RefMap (Key : Type u) (Val : Type v) := Key → Option Val

/-- The map with the value at `key` replaced. -/
def RefMap.update [BEq Key] (map : RefMap Key Val) (key : Key) (val : Option Val) :
    RefMap Key Val :=
  fun other => if other == key then val else map other

/-- The list visits every key of the map exactly once, with its value. -/
def Enumerates [BEq Key] (map : RefMap Key Val) (pairs : List (Key × Val)) : Prop :=
  pairs.Pairwise (fun p q => (p.1 == q.1) = false) ∧
    ∀ key val, map key = some val ↔ ∃ p ∈ pairs, (key == p.1) = true ∧ p.2 = val

/-- The table stores exactly the entries of the map. -/
def Represents [BEq Key] (table : Hashtable Key Val) (map : RefMap Key Val) : Prop :=
  ∀ key val, map key = some val ↔ ∃ i, table.Holds key i val

/-- The public operations. -/
inductive Op (Key : Type u) (Val : Type v) where
  | insert (pair : Key × Val)
  | set (key : Key) (val : Val)
  | find (key : Key)
  | extract (key : Key)
  | iterate
  | itemCount

/-- What each operation answers: whether a pair was stored, a value, the pairs a
range-`for` visits, a count. -/
inductive Reply (Key : Type u) (Val : Type v) where
  | stored (success : Bool)
  | value (val : Option Val)
  | visited (pairs : List (Key × Val))
  | count (n : ℕ)
  deriving DecidableEq

section Step

variable [BEq Key] (hash : Key → ℕ)

/-- One operation of the table; `none` when it runs into `ASSERT_UNREACHABLE`. -/
def step (table : Hashtable Key Val) : Op Key Val →
    Option (Hashtable Key Val × Reply Key Val)
  | .insert pair =>
      (table.insert hash pair).map fun stored => (stored.1, .stored stored.2.2)
  | .set key val =>
      (table.set hash key val).map fun stored => (stored.1, .stored stored.2.2)
  | .find key => (table.find hash key).map fun val => (table, .value val)
  | .extract key =>
      (table.extract hash key).map fun taken => (taken.1, .value taken.2)
  | .iterate => some (table, .visited table.visited)
  | .itemCount => some (table, .count table.itemCount)

/-- The reference transition. -/
def refNext (map : RefMap Key Val) : Op Key Val → RefMap Key Val
  | .insert pair => if (map pair.1).isNone then map.update pair.1 (some pair.2) else map
  | .set key val => map.update key (some val)
  | .extract key => map.update key none
  | .find _ | .iterate | .itemCount => map

/-- The replies the reference map allows. -/
def refReply (map : RefMap Key Val) : Op Key Val → Reply Key Val → Prop
  | .insert pair, .stored success => success = (map pair.1).isNone
  | .set _ _, .stored success => success = true
  | .find key, .value val => val = map key
  | .extract key, .value val => val = map key
  | .iterate, .visited pairs => Enumerates map pairs
  | .itemCount, .count n => ∃ pairs, Enumerates map pairs ∧ n = pairs.length
  | _, _ => False

/-- The key is stored behind a tombstone of its probe sequence. -/
def Shadowed (table : Hashtable Key Val) (key : Key) : Prop :=
  ∃ i ∈ List.range table.capacity, ∃ j ∈ List.range table.capacity,
    table.slots[i]?.any (Slot.hasKey key) = true ∧
      table.slots[j]?.any Slot.isDeleted = true ∧
        probeDistance hash table key j < probeDistance hash table key i
deriving Decidable

/-- The condition under which one operation behaves as on the reference map. -/
def StepOk (table : Hashtable Key Val) : Op Key Val → Prop
  | .insert pair => table.NeedsExpand ∨ ¬ table.Shadowed hash pair.1
  | .set key _ => table.NeedsExpand ∨ ¬ table.Shadowed hash key
  | .find key | .extract key => table.HasEmpty ∨ table.Present key
  | .iterate | .itemCount => True

instance [DecidableEq Key] [DecidableEq Val] (table : Hashtable Key Val)
    (op : Op Key Val) : Decidable (table.StepOk hash op) := by
  cases op <;> unfold StepOk <;> infer_instance

end Step

/-! ## Iteration -/

section Iteration

variable {table : Hashtable Key Val}

/-- The stored pairs, in slot order. -/
def pairs (table : Hashtable Key Val) : List (Key × Val) :=
  table.slots.filterMap Slot.pair?

theorem nextFilled_of_capacity_le {i : ℕ} (h : table.capacity ≤ i) :
    table.nextFilled i = table.capacity := by
  simp [nextFilled, Nat.sub_eq_zero_of_le h]

theorem nextFilled_of_lt {i : ℕ} (h : i < table.capacity) :
    table.nextFilled i =
      if table.slots[i]?.any Slot.isFilled then i else table.nextFilled (i + 1) := by
  have hrange : List.range' i (table.capacity - i) =
      i :: List.range' (i + 1) (table.capacity - (i + 1)) := by
    rw [show table.capacity - i = table.capacity - (i + 1) + 1 by omega,
      List.range'_succ]
  unfold nextFilled
  rw [hrange, List.find?_cons]
  cases table.slots[i]?.any Slot.isFilled <;> simp

theorem visitFrom_nextFilled :
    ∀ (fuel i : ℕ), table.capacity - i ≤ fuel →
      table.visitFrom fuel (table.nextFilled i) =
        (table.slots.drop i).filterMap Slot.pair? := by
  suffices h : ∀ (n fuel i : ℕ), table.capacity - i = n → n ≤ fuel →
      table.visitFrom fuel (table.nextFilled i) =
        (table.slots.drop i).filterMap Slot.pair? from
    fun fuel i hfuel => h _ fuel i rfl hfuel
  intro n
  induction n with
  | zero =>
      intro fuel i hn _
      have hend : table.slots[table.capacity]? = none :=
        List.getElem?_eq_none le_rfl
      rw [nextFilled_of_capacity_le (by omega),
        List.drop_eq_nil_of_le (by unfold capacity at hn; omega)]
      cases fuel <;> simp [visitFrom, hend]
  | succ n ih =>
      intro fuel i hn hfuel
      have hi : i < table.slots.length := by unfold capacity at hn; omega
      rw [nextFilled_of_lt hi, List.drop_eq_getElem_cons hi,
        List.getElem?_eq_getElem hi, Option.any_some]
      cases hslot : table.slots[i] with
      | filled first second =>
          obtain ⟨fuel, rfl⟩ : ∃ m, fuel = m + 1 := ⟨fuel - 1, by omega⟩
          have hget : table.slots[i]? = some (.filled first second) := by
            rw [List.getElem?_eq_getElem hi, hslot]
          simp only [Slot.isFilled, if_true, visitFrom, hget]
          rw [ih fuel (i + 1) (by omega) (by omega)]
          simp [Slot.pair?]
      | empty =>
          simpa [Slot.isFilled, Slot.pair?, List.filterMap_cons] using ih fuel (i + 1) (by omega) (by omega)
      | deleted =>
          simpa [Slot.isFilled, Slot.pair?, List.filterMap_cons] using ih fuel (i + 1) (by omega) (by omega)

theorem visited_eq : table.visited = table.pairs := by
  rw [visited, visitFrom_nextFilled _ _ (by omega)]
  simp [pairs]

theorem length_pairs : table.pairs.length = table.filledCount := by
  rw [pairs, List.length_filterMap_eq_countP, filledCount]
  congr 1
  funext slot
  cases slot <;> rfl

theorem mem_pairs {p : Key × Val} :
    p ∈ table.pairs ↔ ∃ i : ℕ, table.slots[i]? = some (Slot.filled p.1 p.2) := by
  rw [pairs, List.mem_filterMap]
  constructor
  · rintro ⟨slot, hmem, hpair⟩
    obtain ⟨i, hslot⟩ := List.mem_iff_getElem?.mp hmem
    cases slot with
    | filled first second =>
        cases hpair
        exact ⟨i, hslot⟩
    | empty => cases hpair
    | deleted => cases hpair
  · rintro ⟨i, hslot⟩
    exact ⟨_, List.mem_of_getElem? hslot, rfl⟩

theorem exists_holds_iff [BEq Key] {key : Key} {val : Val} :
    (∃ i, table.Holds key i val) ↔
      ∃ p ∈ table.pairs, (key == p.1) = true ∧ p.2 = val := by
  constructor
  · rintro ⟨i, stored, hslot, hkey⟩
    exact ⟨(stored, val), mem_pairs.mpr ⟨i, hslot⟩, hkey, rfl⟩
  · rintro ⟨⟨stored, val⟩, hmem, hkey, rfl⟩
    obtain ⟨i, hslot⟩ := mem_pairs.mp hmem
    exact ⟨i, stored, hslot, hkey⟩

variable [BEq Key] [EquivBEq Key] {hash : Key → ℕ}

theorem WellFormed.pairs_distinct (wf : table.WellFormed hash)
    (respects : HashRespects hash) :
    table.pairs.Pairwise (fun p q => (p.1 == q.1) = false) := by
  rw [pairs, List.pairwise_filterMap, List.pairwise_iff_getElem]
  intro i j hi hj hij p hp q hq
  cases hsi : table.slots[i] with
  | empty => rw [hsi] at hp; cases hp
  | deleted => rw [hsi] at hp; cases hp
  | filled k w =>
      cases hsj : table.slots[j] with
      | empty => rw [hsj] at hq; cases hq
      | deleted => rw [hsj] at hq; cases hq
      | filled k' w' =>
          rw [hsi] at hp
          rw [hsj] at hq
          cases hp
          cases hq
          by_contra hkeys
          have hk : table.Holds k i w :=
            ⟨k, by rw [List.getElem?_eq_getElem hi, hsi], BEq.refl k⟩
          have hk' : table.Holds k j w' :=
            ⟨k', by rw [List.getElem?_eq_getElem hj, hsj], by simpa using hkeys⟩
          have := (wf.holds_unique respects hk hk').1
          omega

theorem WellFormed.enumerates (wf : table.WellFormed hash)
    (respects : HashRespects hash) {map : RefMap Key Val} (rep : table.Represents map) :
    Enumerates map table.visited := by
  rw [visited_eq]
  exact ⟨wf.pairs_distinct respects, fun key val => (rep key val).trans exists_holds_iff⟩

end Iteration

end BekOS.Hashtable
