import BekOS.Library.HashtableRefinement

/-!
# A `bek::hashtable` that is only inserted into

Where nothing is ever extracted there are no tombstones, so no key is shadowed and no lookup is
without an answer: `insert` and `find` are those of the map, without a condition on their keys.
-/

namespace BekOS.Hashtable

universe u v

variable {Key : Type u} {Val : Type v} [BEq Key] {hash : Key → ℕ}
variable {table : Hashtable Key Val} {map : RefMap Key Val} {key : Key}

/-- Nothing was extracted from the table, which holds the entries of the map. -/
structure Unextracted (hash : Key → ℕ) (table : Hashtable Key Val) (map : RefMap Key Val) :
    Prop where
  wellFormed : table.WellFormed hash
  represents : table.Represents map
  noTombstone : table.NoTombstone
  roomy : table.filledCount < table.capacity
  /-- Below this a table that need not grow yet can be filled up. -/
  large : 4 ≤ table.capacity

namespace Unextracted

theorem new {capacity : ℕ} (hcap : 4 ≤ capacity) :
    Unextracted hash (Hashtable.new capacity : Hashtable Key Val) fun _ => none where
  wellFormed := new_wellFormed (by omega)
  represents := new_represents capacity
  noTombstone := new_noTombstone capacity
  roomy := by
    have hcapacity : (Hashtable.new capacity : Hashtable Key Val).capacity = capacity := by
      simp [Hashtable.new, Hashtable.capacity]
    have hfilled : (Hashtable.new capacity : Hashtable Key Val).filledCount = 0 := by
      simp [Hashtable.new, filledCount, List.countP_replicate, Slot.isFilled]
    omega
  large := by simpa [Hashtable.new, Hashtable.capacity] using hcap

theorem hasEmpty (h : Unextracted hash table map) : table.HasEmpty :=
  h.noTombstone.hasEmpty h.roomy

theorem find_eq [EquivBEq Key] (h : Unextracted hash table map) (respects : HashRespects hash)
    (key : Key) : table.find hash key = some (map key) :=
  find_spec h.wellFormed respects h.represents (Or.inl h.hasEmpty)

end Unextracted

theorem capacity_uncheckedSet {pair : Key × Val} {overwrite : Bool}
    {stored : Hashtable Key Val × (ℕ × Bool)}
    (h : uncheckedSet hash table pair overwrite = some stored) :
    stored.1.capacity = table.capacity := by
  obtain ⟨i, hlookup, -⟩ := Option.map_eq_some_iff.mp h
  obtain ⟨stored', hset, hcases⟩ := uncheckedSet_cases pair overwrite hlookup
  rw [h, Option.some_inj] at hset
  subst hset
  rcases hcases with ⟨heq, -⟩ | ⟨heq, -⟩ | ⟨heq, -⟩ <;> rw [heq]
  · exact change_capacity _
  · exact change_capacity _

theorem capacity_transfer {rest : List (Slot Key Val)} {table' : Hashtable Key Val}
    (h : transfer hash table rest = some table') : table'.capacity = table.capacity := by
  induction rest generalizing table with
  | nil =>
      cases h
      rfl
  | cons slot rest ih =>
      cases slot with
      | empty => exact ih h
      | deleted => exact ih h
      | filled first second =>
          rw [transfer, Option.bind_eq_some_iff] at h
          obtain ⟨stored, hset, hrest⟩ := h
          rw [ih hrest, capacity_uncheckedSet hset]

theorem capacity_le_checkSize {table' : Hashtable Key Val}
    (h : checkSize hash table = some table') : table.capacity ≤ table'.capacity := by
  unfold checkSize at h
  split_ifs at h
  · have hcap : (Hashtable.new (table.capacity * expandFactor) : Hashtable Key Val).capacity =
        table.capacity * 2 := by
      simp [Hashtable.new, Hashtable.capacity, expandFactor]
    have := capacity_transfer h
    omega
  · cases h
    exact le_rfl

/-- **Inserting a new key.** -/
theorem Unextracted.insert [EquivBEq Key] (h : Unextracted hash table map)
    (respects : HashRespects hash) (habsent : map key = none) (val : Val) :
    ∃ stored, table.insert hash (key, val) = some stored ∧
      Unextracted hash stored.1 (map.update key (some val)) := by
  have inv : table.SlotInvariant := ⟨h.wellFormed.load_eq, h.hasEmpty⟩
  obtain ⟨table', i, hstored, wf', rep'⟩ := store_spec h.wellFormed respects h.represents
    (Or.inr h.noTombstone.not_shadowed) val false
  rw [habsent] at hstored rep'
  simp only [Option.isNone_none, Bool.or_true, if_true] at hstored rep'
  obtain ⟨sized, hsize, hload, hsteady, hgrown⟩ := checkSize_counts hash inv
  have hlarge : 4 ≤ sized.capacity := h.large.trans (capacity_le_checkSize hsize)
  -- the table that the pair goes into, grown or not, has no tombstone and two empty slots
  have hsized : sized.NoTombstone ∧ sized.filledCount + 1 < sized.capacity := by
    by_cases hexp : table.NeedsExpand
    · exact hgrown hexp
    · rw [hsteady hexp] at hload ⊢
      refine ⟨h.noTombstone, ?_⟩
      have := h.large
      unfold NeedsExpand expandThreshold at hexp
      omega
  have hempty := hsized.1.hasEmpty (by omega)
  obtain ⟨j, hlookup⟩ := exists_uncheckedLookup_of_hasEmpty hash key true hempty
  obtain ⟨stored, hset, -, hcap, hle, hother, k, w, hself⟩ :=
    uncheckedSet_counts hload hempty.capacity_pos (key, val) false hlookup
  have hsame : stored = (table', (i, true)) := by
    rw [hsize, Option.bind_some, hset] at hstored
    exact Option.some_inj.mp hstored
  rw [hsame] at hcap hle hother hself
  refine ⟨(table', (i, true)), hstored, wf', rep', fun l hl => ?_, by omega, by omega⟩
  by_cases hlj : l = j
  · rw [hlj, hself] at hl
    cases hl
  · rw [hother l hlj] at hl
    exact hsized.1 l hl

end BekOS.Hashtable
