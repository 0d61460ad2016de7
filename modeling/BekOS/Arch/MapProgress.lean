import BekOS.Arch.Positions

/-!
# How far a mapping gets

`map_upper` and `map_lower` write entries as they go and return false where they come
upon an entry that is in the way; nothing takes the entries back.  So a range is mapped
from its start on, up to the end (`Passed`) or up to the first address that translates
otherwise (`Stopped`).  `Progress` says which of the two by what the code returned, and
goes along with the loops: from one entry to the next (`Progress.append`), and from a
table to the entry that leads to it (`Progress.entry`).
-/

namespace BekOS

open Strides

universe u

variable {σ : Type u} {source : TableSource σ}

/-! ## Ranges that are passed -/

/-- The page descriptor that a range from `start` on, mapped at `y`, has at an address. -/
def pageFor (height start y : ℕ) (flags virt : U64) : U64 :=
  createL3Entry (BitVec.ofNat 64 (y + (position height virt - start))) flags

/-- The address translates otherwise than the range asks for. -/
def Collides (mem : TableMemory) (height : ℕ) (table : Page) (start y : ℕ)
    (flags virt : U64) : Prop :=
  ∃ leaf, walkFrom mem height table virt = some leaf ∧ leaf ≠ (0, pageFor height start y flags virt)

/-- The range is mapped, and none of its addresses was in the way. -/
structure Passed (height : ℕ) (table : Page) (start y n : ℕ) (flags : U64)
    (before after : TableMemory) : Prop where
  translated : ∀ virt, InRange height start n virt → walkFrom after height table virt ≠ none
  agreed : ∀ virt, InRange height start n virt → walkFrom before height table virt ≠ none →
    walkFrom before height table virt = some (0, pageFor height start y flags virt) ∧
      walkFrom after height table virt = walkFrom before height table virt
  outside : ∀ virt, ¬ InRange height start n virt →
    walkFrom after height table virt = walkFrom before height table virt

/-- The range is mapped up to an address that was in the way. -/
def Stopped (height : ℕ) (table : Page) (start y n : ℕ) (flags : U64)
    (before after : TableMemory) : Prop :=
  ∃ k < n, Passed height table start y k flags before after ∧
    ∃ virt, position height virt = start + k ∧ Collides before height table start y flags virt

/-- How far mapping a range got, by what the code returned. -/
structure Progress (height : ℕ) (table : Page) (start y n : ℕ) (flags : U64)
    (before after : TableMemory) (done : Bool) : Prop where
  passed : done = true → Passed height table start y n flags before after
  stopped : done = false → Stopped height table start y n flags before after

section Algebra

variable {height start start' y n k : ℕ} {table : Page} {flags : U64}
  {before middle after : TableMemory} {done : Bool}

theorem Passed.of_empty (hempty : ∀ virt, ¬ InRange height start n virt) :
    Passed height table start y n flags before before where
  translated virt hin := absurd hin (hempty virt)
  agreed virt hin := absurd hin (hempty virt)
  outside _ _ := rfl

theorem not_inRange_zero (virt : U64) : ¬ InRange height start 0 virt := fun hin =>
  absurd (lt_of_le_of_lt hin.1 hin.2) (lt_irrefl _)

theorem Progress.of_empty (hempty : ∀ virt, ¬ InRange height start n virt) :
    Progress height table start y n flags before before true where
  passed _ := Passed.of_empty hempty
  stopped := nofun

theorem Progress.outside (h : Progress height table start y n flags before after done)
    {virt : U64} (hout : ¬ InRange height start n virt) :
    walkFrom after height table virt = walkFrom before height table virt := by
  cases hdone : done with
  | true => exact (h.passed hdone).outside virt hout
  | false =>
      obtain ⟨k, hk, passed, -⟩ := h.stopped hdone
      exact passed.outside virt fun hin => hout ⟨hin.1, hin.2.trans (by omega)⟩

/-- A range that nothing is mapped in has nothing in its way. -/
theorem Progress.done_of_free (h : Progress height table start y n flags before after done)
    (free : ∀ virt, InRange height start n virt → walkFrom before height table virt = none) :
    done = true := by
  by_contra hdone
  obtain ⟨k, hk, -, virt, hposition, leaf, hleaf, -⟩ :=
    h.stopped (Bool.eq_false_of_not_eq_true hdone)
  rw [free virt ⟨by omega, by omega⟩] at hleaf
  cases hleaf

/-- Where an empty range starts does not matter. -/
theorem Progress.moved (h : Progress height table start y n flags before after done)
    (hstart : 0 < n → start' = start) :
    Progress height table start' y n flags before after done := by
  rcases Nat.eq_zero_or_pos n with rfl | hpos
  · refine ⟨fun hdone => ⟨fun virt hin => absurd hin (not_inRange_zero virt),
      fun virt hin => absurd hin (not_inRange_zero virt),
      fun virt _ => (h.passed hdone).outside virt (not_inRange_zero virt)⟩, fun hdone => ?_⟩
    obtain ⟨k, hk, -⟩ := h.stopped hdone
    exact absurd hk (Nat.not_lt_zero k)
  · rwa [hstart hpos]

theorem pageFor_add {virt : U64} (h : start + n ≤ position height virt) :
    pageFor height (start + n) (y + n) flags virt = pageFor height start y flags virt := by
  unfold pageFor
  congr 2
  omega

theorem inRange_add {virt : U64} :
    InRange height start (n + k) virt ↔
      InRange height start n virt ∨ InRange height (start + n) k virt := by
  unfold InRange
  omega

theorem not_inRange_of_inRange_add {virt : U64} (h : InRange height (start + n) k virt) :
    ¬ InRange height start n virt := fun hin => by
  unfold InRange at h hin
  omega

theorem Passed.append (first : Passed height table start y n flags before middle)
    (second : Passed height table (start + n) (y + n) k flags middle after) :
    Passed height table start y (n + k) flags before after := by
  have hsecond : ∀ virt, InRange height start n virt →
      walkFrom after height table virt = walkFrom middle height table virt := fun virt hin =>
    second.outside virt fun hlater => not_inRange_of_inRange_add hlater hin
  refine ⟨fun virt hin => ?_, fun virt hin hsome => ?_, fun virt hout => ?_⟩
  · rcases inRange_add.mp hin with hin | hlater
    · rw [hsecond virt hin]
      exact first.translated virt hin
    · exact second.translated virt hlater
  · rcases inRange_add.mp hin with hin | hlater
    · rw [hsecond virt hin]
      exact first.agreed virt hin hsome
    · have hfirst := first.outside virt (not_inRange_of_inRange_add hlater)
      rw [← hfirst, ← pageFor_add hlater.1]
      exact second.agreed virt hlater (hfirst.symm ▸ hsome)
  · rw [inRange_add, not_or] at hout
    exact (second.outside virt hout.2).trans (first.outside virt hout.1)

theorem Passed.collides_iff (first : Passed height table start y n flags before middle)
    {virt : U64} (h : start + n ≤ position height virt) :
    Collides middle height table (start + n) (y + n) flags virt ↔
      Collides before height table start y flags virt := by
  have hout : ¬ InRange height start n virt := fun hin => by
    unfold InRange at hin
    omega
  unfold Collides
  rw [first.outside virt hout, pageFor_add h]

theorem Progress.append (first : Passed height table start y n flags before middle)
    (rest : Progress height table (start + n) (y + n) k flags middle after done) :
    Progress height table start y (n + k) flags before after done where
  passed hdone := first.append (rest.passed hdone)
  stopped hdone := by
    obtain ⟨k', hk', passed, virt, hposition, hcollides⟩ := rest.stopped hdone
    refine ⟨n + k', by omega, first.append passed, virt, by omega, ?_⟩
    exact (first.collides_iff (by omega)).mp hcollides

theorem Stopped.mono (h : Stopped height table start y n flags before after) (hle : n ≤ k) :
    Stopped height table start y k flags before after := by
  obtain ⟨j, hj, rest⟩ := h
  exact ⟨j, hj.trans_le hle, rest⟩

theorem Progress.behind (same : ∀ virt, walkFrom middle height table virt =
      walkFrom before height table virt)
    (h : Progress height table start y n flags middle after done) :
    Progress height table start y n flags before after done := by
  have hpassed : ∀ {j}, Passed height table start y j flags middle after →
      Passed height table start y j flags before after := fun passed =>
    { translated := passed.translated
      agreed := fun virt => same virt ▸ passed.agreed virt
      outside := fun virt hout => (passed.outside virt hout).trans (same virt) }
  refine ⟨fun hdone => hpassed (h.passed hdone), fun hdone => ?_⟩
  obtain ⟨j, hj, passed, virt, hposition, hcollides⟩ := h.stopped hdone
  unfold Collides at hcollides
  rw [same virt] at hcollides
  exact ⟨j, hj, hpassed passed, virt, hposition, hcollides⟩

end Algebra

/-! ## The last level -/

theorem createL3Entry_add {y b : ℕ} (hy : y % 4096 = 0) (hb : b < 4096) (flags : U64) :
    createL3Entry (BitVec.ofNat 64 (y + b)) flags = createL3Entry (BitVec.ofNat 64 y) flags := by
  have hframe : BitVec.ofNat 64 (y + b) >>> pageShift = BitVec.ofNat 64 y >>> pageShift := by
    apply BitVec.eq_of_toNat_eq
    simp only [BitVec.toNat_ushiftRight, BitVec.toNat_ofNat, Nat.shiftRight_eq_div_pow, pageShift]
    omega
  unfold createL3Entry
  rw [hframe]

theorem inRange_page_iff {i : ℕ} {virt : U64} :
    InRange 0 (i * 4096) 4096 virt ↔ tableIndex 0 virt = i := by
  unfold InRange
  rw [position_eq, two_pow_shifts_zero]
  have := Nat.mod_lt virt.toNat (show 0 < 4096 by omega)
  omega

theorem pageFor_page {i y : ℕ} {flags virt : U64} (hy : y % 4096 = 0)
    (hindex : tableIndex 0 virt = i) :
    pageFor 0 (i * 4096) y flags virt = createL3Entry (BitVec.ofNat 64 y) flags := by
  have := Nat.mod_lt virt.toNat (show 0 < 4096 by omega)
  unfold pageFor
  rw [position_eq, two_pow_shifts_zero, hindex, Nat.add_sub_cancel_left]
  exact createL3Entry_add hy this flags

theorem passed_write {table : Page} {i y : ℕ} {flags : U64} {mem : TableMemory}
    (hy : y % 4096 = 0)
    (hfree : descriptorCode (mem table i) = ptInvalidDescriptor ∨
      mem table i = createL3Entry (BitVec.ofNat 64 y) flags) :
    Passed 0 table (i * 4096) y 4096 flags mem
      (mem.write table i (createL3Entry (BitVec.ofNat 64 y) flags)) := by
  have hafter : ∀ virt, tableIndex 0 virt = i →
      walkFrom (mem.write table i (createL3Entry (BitVec.ofNat 64 y) flags)) 0 table virt =
        some (0, createL3Entry (BitVec.ofNat 64 y) flags) := by
    rintro virt rfl
    exact walkFrom_of_page (TableMemory.write_self _ _ _ _) (descriptorCode_createL3Entry _ _)
  refine ⟨fun virt hin => ?_, fun virt hin hsome => ?_, fun virt hout => ?_⟩
  · rw [hafter virt (inRange_page_iff.mp hin)]
    exact Option.some_ne_none _
  · have hindex := inRange_page_iff.mp hin
    rw [hafter virt hindex, pageFor_page hy hindex]
    rcases hfree with hinvalid | hsame
    · exact absurd (walkFrom_of_invalid (by rw [hindex]) hinvalid) hsome
    · rw [walkFrom_of_page (by rw [hindex]; exact hsame) (descriptorCode_createL3Entry _ _)]
      exact ⟨rfl, rfl⟩
  · rw [inRange_page_iff] at hout
    exact walkFrom_congr_entry (TableMemory.write_of_idx_ne hout _ _ _)

/-! ## The levels above -/

theorem inRange_entry_iff {height i a n : ℕ} (ha : a < 2 ^ shifts (height + 1)) {virt : U64} :
    InRange (height + 1) (i * 2 ^ shifts (height + 1) + a) (min n (2 ^ shifts (height + 1) - a))
        virt ↔ tableIndex (height + 1) virt = i ∧ InRange height a n virt := by
  rw [inRange_iff ha, Nat.min_assoc, Nat.min_self, Nat.sub_self]
  have hnot : ¬ InRange (height + 1) ((i + 1) * 2 ^ shifts (height + 1)) 0 virt :=
    not_inRange_zero virt
  rw [or_iff_left hnot]
  have hlt := Nat.mod_lt virt.toNat (two_pow_shifts_pos (height + 1))
  unfold InRange position
  omega

section Upper

variable {height : ℕ} {table : Page} {i a x y n : ℕ} {flags : U64}

theorem pageFor_entry {virt : U64} (hindex : tableIndex (height + 1) virt = i) :
    pageFor (height + 1) (i * 2 ^ shifts (height + 1) + a) y flags virt =
      pageFor height a y flags virt := by
  unfold pageFor
  rw [position_eq, hindex, Nat.add_sub_add_left]
  rfl

variable {next : Page} {before after : TableMemory} {done : Bool}

/-- Entry `i` leads to the same table before and after, and the other entries translate as
they did. -/
structure EntryOnly (height : ℕ) (table next : Page) (i : ℕ) (before after : TableMemory) :
    Prop where
  below : ∀ {virt}, tableIndex (height + 1) virt = i →
    walkFrom before (height + 1) table virt = walkFrom before height next virt ∧
      walkFrom after (height + 1) table virt = walkFrom after height next virt
  others : ∀ {virt}, tableIndex (height + 1) virt ≠ i →
    walkFrom after (height + 1) table virt = walkFrom before (height + 1) table virt

theorem Passed.entry (only : EntryOnly height table next i before after)
    (ha : a < 2 ^ shifts (height + 1)) (h : Passed height next a y n flags before after) :
    Passed (height + 1) table (i * 2 ^ shifts (height + 1) + a) y
      (min n (2 ^ shifts (height + 1) - a)) flags before after := by
  refine ⟨fun virt hin => ?_, fun virt hin hsome => ?_, fun virt hout => ?_⟩
  · obtain ⟨hindex, hin⟩ := (inRange_entry_iff ha).mp hin
    rw [(only.below hindex).2]
    exact h.translated virt hin
  · obtain ⟨hindex, hin⟩ := (inRange_entry_iff ha).mp hin
    rw [(only.below hindex).1] at hsome ⊢
    rw [(only.below hindex).2, pageFor_entry hindex]
    exact h.agreed virt hin hsome
  · by_cases hindex : tableIndex (height + 1) virt = i
    · rw [inRange_entry_iff ha, not_and] at hout
      rw [(only.below hindex).1, (only.below hindex).2]
      exact h.outside virt (hout hindex)
    · exact only.others hindex

theorem Progress.entry (only : EntryOnly height table next i before after)
    (hheight : height + 1 ≤ 3) (hi : i < 512) (ha : a < 2 ^ shifts (height + 1))
    (h : Progress height next a y n flags before after done) :
    Progress (height + 1) table (i * 2 ^ shifts (height + 1) + a) y
      (min n (2 ^ shifts (height + 1) - a)) flags before after done where
  passed hdone := (h.passed hdone).entry only ha
  stopped hdone := by
    obtain ⟨k, hk, passed, virt, hposition, leaf, hleaf, hne⟩ := h.stopped hdone
    have hlt : position height virt < 2 ^ shifts (height + 1) :=
      Nat.mod_lt _ (two_pow_shifts_pos (height + 1))
    have hpart : min k (2 ^ shifts (height + 1) - a) = k := Nat.min_eq_left (by omega)
    -- The address that gets to the table below and goes on like `virt`.
    obtain ⟨other, hindex, hoffset, hother⟩ := exists_virt hheight hi hlt
    have hbelow : position height other = position height virt := hoffset
    refine ⟨k, lt_min hk (by omega), hpart ▸ passed.entry only ha, other, by omega, leaf, ?_, ?_⟩
    · rw [(only.below hindex).1, walkFrom_of_position virt hbelow, hleaf]
    · rw [pageFor_entry hindex]
      unfold pageFor at hne ⊢
      rwa [hbelow]

theorem passed_block {state : TableState σ} (ok : TreeOk source state (height + 1) table)
    (hi : i < 512) (hlevel : height + 1 < 3) (phys : U64)
    (hinvalid : descriptorCode (state.mem table i) = ptInvalidDescriptor) :
    Passed (height + 1) table (i * 2 ^ shifts (height + 1)) y (2 ^ shifts (height + 1)) flags
      state.mem (state.write table i (createBlockEntry phys flags)).mem := by
  have hcode := descriptorCode_createBlockEntry phys flags
  obtain ⟨-, others, -⟩ := Within.write ok hi (createBlockEntry phys flags)
    (Or.inr (Or.inr ⟨hcode, by omega, by omega⟩)) (by rw [hcode]; decide)
  have hin : ∀ {virt}, InRange (height + 1) (i * 2 ^ shifts (height + 1))
      (2 ^ shifts (height + 1)) virt ↔ tableIndex (height + 1) virt = i := fun {virt} => by
    have hentry : InRange (height + 1) (i * 2 ^ shifts (height + 1) + 0)
        (min (2 ^ shifts (height + 1)) (2 ^ shifts (height + 1) - 0)) virt ↔ _ :=
      inRange_entry_iff (two_pow_shifts_pos (height + 1))
    rw [Nat.sub_zero, Nat.min_self] at hentry
    have hall : InRange height 0 (2 ^ shifts (height + 1)) virt :=
      ⟨Nat.zero_le _, by rw [Nat.zero_add]; exact Nat.mod_lt _ (two_pow_shifts_pos (height + 1))⟩
    exact hentry.trans (and_iff_left hall)
  refine ⟨fun virt hvirt => ?_, fun virt hvirt hsome => ?_, fun virt hout => ?_⟩
  · obtain rfl := hin.mp hvirt
    rw [walkFrom_of_block (state.write_mem_self table _ _) hcode hlevel]
    exact Option.some_ne_none _
  · obtain rfl := hin.mp hvirt
    exact absurd (walkFrom_of_invalid rfl hinvalid) hsome
  · exact walkFrom_of_lastEntry (others virt (mt hin.mpr hout))

end Upper

end BekOS
