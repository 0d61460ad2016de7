import BekOS.Arch.MapRegion

/-!
# `unmap_region`, when no block lies in its way

`unmap_upper` drops a table that its range spans and steps the cursors over it;
it drops a block that its range spans and does *not* step them.  From there on
the cursors lag behind the entries, and as many bytes past the end of the range
are unmapped as the block had.  `MeetsBlock` is when this branch is taken: every
address in front is passed over, page by page or with a table that the range
spans, and then there is a block wholly inside the range.  (A block that is only
partly inside makes the call return `false`; one below a table that the range
spans goes with the table.)

Where it is not taken, `UnmapSpec` is the mirror image of `MapSpec`, proved by the
same induction.  Its last clause says when the call succeeds: where it passes over
the whole range.
-/

namespace BekOS

open BitField Strides

universe u

variable {σ : Type u} {source : TableSource σ}

/-! ## Cursors and blocks -/

/-- The cursors at a given address and with a given size left. -/
def unmapCursorAt (x n : ℕ) : UnmapCursor where
  virtStart := BitVec.ofNat 64 x
  size := BitVec.ofNat 64 n

variable {height n : ℕ}

theorem unmapCursorAt_advance (x : ℕ) (h : height ≤ 3) (hn : 2 ^ shifts height ≤ n) :
    (unmapCursorAt x n).advance height =
      unmapCursorAt (x + 2 ^ shifts height) (n - 2 ^ shifts height) := by
  simp only [UnmapCursor.advance, unmapCursorAt, sizes_eq_ofNat h, ofNat_sub hn,
    BitVec.ofNat_add]

theorem unmapCursorAt_size_eq_zero (x : ℕ) (hn : n < 2 ^ 64) :
    (unmapCursorAt x n).size = 0 ↔ n = 0 :=
  cursorAt_size_eq_zero x 0 hn

/-- The address is below a last-level table, whose entries are all cleared, or below an entry that
leads to a table and lies wholly inside the range, which is dropped. -/
def PassedOver (mem : TableMemory) (height : ℕ) (table : Page) (start n : ℕ) (virt : U64) : Prop :=
  (lastEntry mem height table virt).1 = 0 ∨
    (lastEntry mem height table virt).1 < height ∧
      EntryInside height start n ((lastEntry mem height table virt).1 + 1) virt

/-- The first address of the range that is not passed over is in a block wholly inside the range. -/
def MeetsBlock (mem : TableMemory) (height : ℕ) (table : Page) (start n : ℕ) : Prop :=
  ∃ virt leaf, walkFrom mem height table virt = some leaf ∧ 0 < leaf.1 ∧
    EntryInside height start n leaf.1 virt ∧ ¬ PassedOver mem height table start n virt ∧
      ∀ other, InRange height start n other → position height other < position height virt →
        PassedOver mem height table start n other

/-! ## The specification -/

/-- What unmapping `n` bytes from position `start` on does below a table. -/
structure UnmapSpec (source : TableSource σ) (height : ℕ) (table : Page) (start x n : ℕ)
    (before : TableState σ) (out : TableState σ × UnmapCursor × Bool) : Prop where
  within : Within source before out.1 height table
  outside : ∀ virt, ¬ InRange height start n virt →
    walkFrom out.1.mem height table virt = walkFrom before.mem height table virt
  cursor : out.2.2 = true → ∃ k, k = min n (2 ^ shifts (height + 1) - start) ∧
    out.2.1 = unmapCursorAt (x + k) (n - k)
  unmapped : out.2.2 = true → ∀ virt, InRange height start n virt →
    walkFrom out.1.mem height table virt = none
  done : out.2.2 = true ↔
    ∀ virt, InRange height start n virt → PassedOver before.mem height table start n virt

/-! ## The last level -/

/-- What the loop of `unmap_lower` does from entry `i` on, with `m` pages to unmap. -/
structure UnmapLowerSpec (table : Page) (i x m : ℕ) (mem : TableMemory)
    (out : TableMemory × UnmapCursor) : Prop where
  pages : ∀ page, page ≠ table → ∀ j, out.1 page j = mem page j
  entries : ∀ j, out.1 table j = mem table j ∨
    (i ≤ j ∧ j < i + m ∧ out.1 table j = createNull)
  cursor : ∃ k, k = min m (512 - i) ∧ out.2 = unmapCursorAt (x + k * 4096) ((m - k) * 4096)
  unmapped : ∀ j < 512, i ≤ j → j < i + m → out.1 table j = createNull

theorem unmapLowerLoop_spec (table : Page) :
    ∀ (remaining i x m : ℕ) (mem : TableMemory), i + remaining = 512 → m < 2 ^ 52 →
      UnmapLowerSpec table i x m mem
        (unmapLowerLoop table remaining mem (unmapCursorAt x (m * 4096))) := by
  intro remaining
  induction remaining with
  | zero =>
      intro i x m mem hi _
      exact ⟨fun _ _ _ => rfl, fun _ => Or.inl rfl, ⟨0, by omega, by simp [unmapLowerLoop]⟩,
        fun j hj hij _ => by omega⟩
  | succ remaining ih =>
      intro i x m mem hi hm
      have hidx : ptEntryCount - (remaining + 1) = i := by unfold ptEntryCount; omega
      have hleft : (unmapCursorAt x (m * 4096)).size = 0 ↔ m = 0 := by
        rw [unmapCursorAt_size_eq_zero x (by omega)]
        omega
      rw [unmapLowerLoop]
      split_ifs with hsize
      · obtain rfl := hleft.mp hsize
        exact ⟨fun _ _ _ => rfl, fun _ => Or.inl rfl, ⟨0, by omega, by simp⟩,
          fun j _ _ _ => by omega⟩
      obtain ⟨m, rfl⟩ : ∃ d, m = d + 1 := Nat.exists_eq_succ_of_ne_zero (mt hleft.mpr hsize)
      have hadvance : (unmapCursorAt x ((m + 1) * 4096)).advance 0 =
          unmapCursorAt (x + 4096) (m * 4096) := by
        have hone : 2 ^ shifts 0 ≤ (m + 1) * 4096 := Nat.le_mul_of_pos_left _ (Nat.succ_pos m)
        rw [unmapCursorAt_advance x (by omega) hone, two_pow_shifts_zero, Nat.add_mul,
          Nat.one_mul, Nat.add_sub_cancel]
      rw [hadvance, hidx]
      have rest := ih (i + 1) (x + 4096) m (mem.write table i createNull) (by omega) (by omega)
      have hwritten : ∀ j, j = i →
          (unmapLowerLoop table remaining (mem.write table i createNull)
            (unmapCursorAt (x + 4096) (m * 4096))).1 table j = createNull := by
        rintro j rfl
        rcases rest.entries j with hsame | ⟨hij, -, -⟩
        · exact hsame.trans (TableMemory.write_self _ _ _ _)
        · omega
      refine ⟨fun page hne j => ?_, fun j => ?_, ?_, fun j hj hij hlt => ?_⟩
      · exact (rest.pages page hne j).trans (TableMemory.write_of_page_ne hne _ _ _)
      · by_cases hji : j = i
        · exact Or.inr ⟨by omega, by omega, hwritten j hji⟩
        · rcases rest.entries j with hsame | ⟨hij, hlt, hnull⟩
          · exact Or.inl (hsame.trans (TableMemory.write_of_idx_ne hji _ _ _))
          · exact Or.inr ⟨by omega, by omega, hnull⟩
      · obtain ⟨k, hk, hcursor⟩ := rest.cursor
        refine ⟨k + 1, by omega, hcursor.trans ?_⟩
        rw [Nat.add_mul k, Nat.one_mul, Nat.add_sub_add_right, Nat.add_assoc, Nat.add_comm 4096]
      · by_cases hji : j = i
        · exact hwritten j hji
        · exact rest.unmapped j hj (by omega) (by omega)

variable {x : ℕ} {state : TableState σ}

/-- `unmap_lower` meets the specification of a table at height 0. -/
theorem unmapLower_spec (table : Page) (ok : TreeOk source state 0 table) (hx : x % 4096 = 0)
    (hn : n % 4096 = 0) (hlt : n < 2 ^ 64) :
    UnmapSpec source 0 table (x % 2 ^ shifts 1) x n state
      (unmapLower table state (unmapCursorAt x n)) := by
  obtain ⟨m, rfl⟩ : ∃ m, n = m * 4096 := ⟨n / 4096, (Nat.div_mul_cancel
    (Nat.dvd_of_mod_eq_zero hn)).symm⟩
  have hidx := tableIndex_lt 0 (BitVec.ofNat 64 x)
  have hstart : x % 2 ^ shifts 1 = tableIndex 0 (BitVec.ofNat 64 x) * 4096 := offset_lower hx
  have hloop := unmapLowerLoop_spec table
    (ptEntryCount - tableIndex 0 (BitVec.ofNat 64 x)) (tableIndex 0 (BitVec.ofNat 64 x)) x m
    state.mem (by unfold ptEntryCount; omega) (by omega)
  set i := tableIndex 0 (BitVec.ofNat 64 x) with hi
  have hrange : ∀ virt, InRange 0 (x % 2 ^ shifts 1) (m * 4096) virt ↔
      i ≤ tableIndex 0 virt ∧ tableIndex 0 virt < i + m := fun virt => by
    rw [hstart]
    exact inRange_lower
  refine ⟨⟨⟨?_, ok.used, ok.embedded⟩, fun _ h => Or.inl h,
    fun page _ hnot => hloop.pages page hnot, fun _ h _ => h⟩, ?_, fun _ => ?_, ?_,
    iff_of_true rfl fun _ _ => Or.inl rfl⟩
  · intro j hj
    rcases hloop.entries j with hsame | ⟨-, -, hnull⟩
    · have := ok.wf j hj
      rwa [← hsame] at this
    · exact Or.inl ((congrArg descriptorCode hnull).trans descriptorCode_createNull)
  · intro virt hout
    rw [hrange] at hout
    have hsame := (hloop.entries (tableIndex 0 virt)).resolve_right
      fun h => hout ⟨h.1, h.2.1⟩
    exact walkFrom_congr_entry hsame
  · obtain ⟨k, hk, hcursor⟩ := hloop.cursor
    refine ⟨k * 4096, ?_, ?_⟩
    · rw [hstart, two_pow_shifts_succ, two_pow_shifts_zero, Nat.mul_comm 4096, ← Nat.sub_mul,
        Nat.mul_min_mul_right, hk]
    · rw [← Nat.sub_mul]
      exact hcursor
  · intro _ virt hin
    obtain ⟨hlow, hhigh⟩ := (hrange virt).mp hin
    exact walkFrom_of_invalid (hloop.unmapped _ (tableIndex_lt 0 virt) hlow hhigh)
      descriptorCode_createNull

/-! ## The conditions, entry by entry -/

section Conditions

variable {mem mem' : TableMemory} {height i a n k : ℕ} {table next : Page}

variable {virt : U64}

/-- Below an entry that leads to a table and lies only partly inside the range. -/
theorem passedOver_child_iff (hidx : tableIndex (height + 1) virt = i)
    (hchild : child mem table i = some next) (hpart : ¬ (a = 0 ∧ 2 ^ shifts (height + 1) ≤ n)) :
    PassedOver mem (height + 1) table (i * 2 ^ shifts (height + 1) + a) n virt ↔
      PassedOver mem height next a n virt := by
  have hlast : lastEntry mem (height + 1) table virt = lastEntry mem height next virt :=
    lastEntry_of_child (hidx ▸ hchild)
  have hle := lastEntry_height_le mem virt height next
  unfold PassedOver
  rw [hlast, entryInside_child_iff hidx (Nat.add_le_add_right hle 1)]
  refine or_congr_right ⟨fun ⟨_, hinside⟩ => ⟨lt_of_le_of_ne hle fun htop => hpart ?_, hinside⟩,
    fun h => ⟨Nat.lt_succ_of_lt h.1, h.2⟩⟩
  -- the entry itself would be inside
  rw [htop, EntryInside, position, Nat.sub_self] at hinside
  omega

theorem passedOver_of_position {start : ℕ} {virt' : U64}
    (h : position height virt = position height virt') :
    PassedOver mem height table start n virt ↔ PassedOver mem height table start n virt' := by
  unfold PassedOver
  rw [lastEntry_of_position virt' h]
  refine or_congr_right (and_congr_right fun hlt => entryInside_of_position ?_ h)
  exact Nat.succ_le_succ hlt.le

theorem MeetsBlock.of_child (hheight : height + 1 ≤ 3) (hi : i < 512)
    (hchild : child mem table i = some next) (hpart : ¬ (a = 0 ∧ 2 ^ shifts (height + 1) ≤ n))
    (meets : MeetsBlock mem height next a n) :
    MeetsBlock mem (height + 1) table (i * 2 ^ shifts (height + 1) + a) n := by
  obtain ⟨virt, leaf, hleaf, hpos, hinside, hnot, hfront⟩ := meets
  obtain ⟨above, hidx, hoffset, hposition⟩ := exists_virt_above hheight hi virt
  have hbelow := Nat.le_succ_of_le (walkFrom_height_le hleaf)
  refine ⟨above, leaf, ?_, hpos, ?_, ?_, fun other hin hlt => ?_⟩
  · rw [walkFrom_of_child (hidx ▸ hchild), walkFrom_of_position virt hoffset, hleaf]
  · rwa [entryInside_child_iff hidx hbelow, entryInside_of_position hbelow hoffset]
  · rwa [passedOver_child_iff hidx hchild hpart, passedOver_of_position hoffset]
  · have hspan : position height virt < 2 ^ shifts (height + 1) :=
      Nat.mod_lt _ (two_pow_shifts_pos (height + 1))
    have ha : a < 2 ^ shifts (height + 1) := by
      have := hinside.1
      omega
    have hidx' : tableIndex (height + 1) other = i := by
      rcases (inRange_iff ha other).mp hin with h | h
      · exact h.1
      · have := h.1
        rw [Nat.succ_mul] at this
        omega
    have hother : position (height + 1) other =
        i * 2 ^ shifts (height + 1) + position height other := by
      rw [position_eq, hidx']
      rfl
    obtain ⟨hlow, hhigh⟩ := hin
    exact (passedOver_child_iff hidx' hchild hpart).mpr
      (hfront other ⟨by omega, by omega⟩ (by omega))

/-- Behind the entry that a range starts in. -/
theorem passedOver_rest_iff (ha : a < 2 ^ shifts height) (hk : k = min n (2 ^ shifts height - a))
    (hlater : (i + 1) * 2 ^ shifts height ≤ position height virt)
    (hlast : lastEntry mem' height table virt = lastEntry mem height table virt) :
    PassedOver mem' height table ((i + 1) * 2 ^ shifts height) (n - k) virt ↔
      PassedOver mem height table (i * 2 ^ shifts height + a) n virt := by
  unfold PassedOver
  rw [hlast]
  exact or_congr_right (and_congr_right fun hlt => entryInside_rest_iff ha hk hlater hlt)

theorem MeetsBlock.of_rest (ha : a < 2 ^ shifts height)
    (hk : k = min n (2 ^ shifts height - a))
    (others : ∀ virt, tableIndex height virt ≠ i →
      lastEntry mem' height table virt = lastEntry mem height table virt)
    (passed : ∀ virt, tableIndex height virt = i → a ≤ virt.toNat % 2 ^ shifts height →
      virt.toNat % 2 ^ shifts height < a + n →
        PassedOver mem height table (i * 2 ^ shifts height + a) n virt)
    (meets : MeetsBlock mem' height table ((i + 1) * 2 ^ shifts height) (n - k)) :
    MeetsBlock mem height table (i * 2 ^ shifts height + a) n := by
  obtain ⟨virt, leaf, hleaf, hpos, hinside, hnot, hfront⟩ := meets
  have hlater : (i + 1) * 2 ^ shifts height ≤ position height virt :=
    hinside.1.trans (Nat.sub_le _ _)
  have hlast := others virt (tableIndex_ne_of_le hlater)
  refine ⟨virt, leaf, (walkFrom_of_lastEntry hlast).symm.trans hleaf, hpos,
    (entryInside_rest_iff ha hk hlater (walkFrom_height_le hleaf)).mp hinside,
    mt (passedOver_rest_iff ha hk hlater hlast).mpr hnot, fun other hin hlt => ?_⟩
  rcases (inRange_iff ha other).mp hin with ⟨hidx, hlow, hhigh⟩ | hrest
  · exact passed other hidx hlow hhigh
  · exact (passedOver_rest_iff ha hk hrest.1 (others other (tableIndex_ne_of_le hrest.1))).mp
      (hfront other (hk ▸ hrest) hlt)

/-- A range that is mapped by pages and by blocks inside it is passed over, where no block is met. -/
theorem passedOver_of_mapped {start : ℕ}
    (mapped : ∀ virt, InRange height start n virt → ∃ leaf,
      walkFrom mem height table virt = some leaf ∧
        (leaf.1 = 0 ∨ EntryInside height start n leaf.1 virt))
    (free : ¬ MeetsBlock mem height table start n) (virt : U64) (hin : InRange height start n virt) :
    PassedOver mem height table start n virt := by
  -- the first address that is not passed over would be in a block that is met
  induction hp : position height virt using Nat.strong_induction_on generalizing virt with
  | h p ih =>
      obtain ⟨leaf, hleaf, hpage⟩ := mapped virt hin
      by_contra hnot
      have hpos : leaf.1 ≠ 0 := fun hzero =>
        hnot (Or.inl ((congrArg Prod.fst (lastEntry_of_walkFrom hleaf)).trans hzero))
      exact free ⟨virt, leaf, hleaf, Nat.pos_of_ne_zero hpos, hpage.resolve_left hpos, hnot,
        fun other hother hlt => ih _ (hp ▸ hlt) other hother rfl⟩

end Conditions

/-! ## One round of the upper levels -/

/-- What one round of the loop does to entry `i` of a table, for a range that
starts `a` into the entry. -/
structure UnmapEntrySpec (source : TableSource σ) (height : ℕ) (table : Page) (i a x n : ℕ)
    (before : TableState σ) (out : TableState σ × UnmapCursor × Bool) : Prop where
  within : Within source before out.1 height table
  others : ∀ virt, tableIndex height virt ≠ i →
    lastEntry out.1.mem height table virt = lastEntry before.mem height table virt
  outside : ∀ virt, tableIndex height virt = i →
    ¬ (a ≤ virt.toNat % 2 ^ shifts height ∧ virt.toNat % 2 ^ shifts height < a + n) →
    walkFrom out.1.mem height table virt = walkFrom before.mem height table virt
  cursor : out.2.2 = true → ∃ k, k = min n (2 ^ shifts height - a) ∧
    out.2.1 = unmapCursorAt (x + k) (n - k)
  unmapped : out.2.2 = true → ∀ virt, tableIndex height virt = i →
    a ≤ virt.toNat % 2 ^ shifts height → virt.toNat % 2 ^ shifts height < a + n →
    walkFrom out.1.mem height table virt = none
  done : out.2.2 = true ↔ ∀ virt, tableIndex height virt = i →
    a ≤ virt.toNat % 2 ^ shifts height → virt.toNat % 2 ^ shifts height < a + n →
      PassedOver before.mem height table (i * 2 ^ shifts height + a) n virt

theorem UnmapSpec.entry {height : ℕ} {table next : Page} {i a x n : ℕ}
    {before : TableState σ} {out : TableState σ × UnmapCursor × Bool}
    (hheight : height + 1 ≤ 3) (ok : TreeOk source before (height + 1) table) (hi : i < 512)
    (hchild : child before.mem table i = some next)
    (hpart : ¬ (a = 0 ∧ 2 ^ shifts (height + 1) ≤ n))
    (spec : UnmapSpec source height next a x n before out) :
    UnmapEntrySpec source (height + 1) table i a x n before out := by
  have hafter : child out.1.mem table i = some next :=
    (child_congr (spec.within.row ok hi hchild i)).trans hchild
  have hwalk : ∀ virt, tableIndex (height + 1) virt = i →
      walkFrom out.1.mem (height + 1) table virt = walkFrom out.1.mem height next virt ∧
        walkFrom before.mem (height + 1) table virt = walkFrom before.mem height next virt := by
    rintro virt rfl
    exact ⟨walkFrom_of_child hafter, walkFrom_of_child hchild⟩
  refine ⟨spec.within.of_child ok hi hchild,
    fun virt hne => spec.within.lastEntry_other ok hi hchild hne, fun virt hidx hout => ?_,
    spec.cursor, fun hok virt hidx hlow hhigh => ?_, spec.done.trans
      ⟨fun passed virt hidx hlow hhigh =>
        (passedOver_child_iff hidx hchild hpart).mpr (passed virt ⟨hlow, hhigh⟩),
      fun passed virt hin => ?_⟩⟩
  · rw [(hwalk virt hidx).1, (hwalk virt hidx).2]
    exact spec.outside virt hout
  · rw [(hwalk virt hidx).1]
    exact spec.unmapped hok virt ⟨hlow, hhigh⟩
  · obtain ⟨above, hidx, hoffset, -⟩ := exists_virt_above hheight hi virt
    rw [← passedOver_of_position hoffset, ← passedOver_child_iff hidx hchild hpart]
    exact passed above hidx (hoffset ▸ hin.1) (hoffset ▸ hin.2)

/-- The specification of the table below, as the induction provides it. -/
def UnmapsBelow (source : TableSource σ) (height : ℕ) : Prop :=
  ∀ (table : Page) (state : TableState σ) (x n : ℕ), TreeOk source state height table →
    x % 4096 = 0 → n % 4096 = 0 → n < 2 ^ 64 →
    ¬ MeetsBlock state.mem height table (x % 2 ^ shifts (height + 1)) n →
    UnmapSpec source height table (x % 2 ^ shifts (height + 1)) x n state
      (unmapUpper source height table state (unmapCursorAt x n))

theorem spans_iff (hheight : height ≤ 3) (hn : n < 2 ^ 64) :
    (isAligned height (unmapCursorAt x n).virtStart &&
        decide ((unmapCursorAt x n).size ≥ sizes height)) = true ↔
      x % 2 ^ shifts height = 0 ∧ 2 ^ shifts height ≤ n := by
  have hS : 2 ^ shifts height < 2 ^ 64 :=
    Nat.pow_lt_pow_right (by omega) (by unfold shifts; omega)
  rw [Bool.and_eq_true, decide_eq_true_iff, unmapCursorAt]
  refine and_congr (isAligned_ofNat hheight x) ?_
  change (sizes height).toNat ≤ (BitVec.ofNat 64 n).toNat ↔ _
  rw [sizes_eq_ofNat hheight, BitVec.toNat_ofNat, BitVec.toNat_ofNat, Nat.mod_eq_of_lt hS,
    Nat.mod_eq_of_lt hn]

theorem UnmapEntrySpec.dropped {height : ℕ} {table : Page} {i x n : ℕ} {before after :
    TableState σ} (hheight : height ≤ 3) (hspan : 2 ^ shifts height ≤ n)
    (within : Within source before after height table)
    (others : ∀ virt, tableIndex height virt ≠ i →
      lastEntry after.mem height table virt = lastEntry before.mem height table virt)
    (null : after.mem table i = createNull)
    (htable : ∀ virt, tableIndex height virt = i → (lastEntry before.mem height table virt).1 < height) :
    UnmapEntrySpec source height table i 0 x n before
      (after, (unmapCursorAt x n).advance height, true) := by
  refine ⟨within, others, fun virt _ hout => ?_, fun _ => ?_, fun _ virt hidx _ _ => ?_,
    iff_of_true rfl fun virt hidx _ _ => Or.inr ⟨htable virt hidx, ?_⟩⟩
  · have := Nat.mod_lt virt.toNat (two_pow_shifts_pos height)
    omega
  · refine ⟨2 ^ shifts height, ?_, unmapCursorAt_advance x hheight hspan⟩
    rw [Nat.sub_zero, Nat.min_eq_right hspan]
  · subst hidx
    exact walkFrom_of_invalid null descriptorCode_createNull
  · refine EntryInside.of_above (htable virt hidx) le_rfl ?_
    unfold EntryInside
    rw [position_eq, hidx]
    omega

theorem UnmapEntrySpec.refused {height : ℕ} {table : Page} {i a x n : ℕ} {before :
    TableState σ} (hheight : height + 1 ≤ 3) (ok : TreeOk source before (height + 1) table)
    (hi : i < 512) (ha : a < 2 ^ shifts (height + 1)) (hpos : 0 < n)
    (hchild : child before.mem table i = none) (cursor : UnmapCursor) :
    UnmapEntrySpec source (height + 1) table i a x n before (before, cursor, false) := by
  refine ⟨Within.refl ok, fun _ _ => rfl, fun _ _ _ => rfl, nofun, nofun,
    iff_of_false Bool.false_ne_true fun passed => ?_⟩
  obtain ⟨virt, hidx, hoffset, -⟩ := exists_virt hheight hi ha
  have := passed virt hidx (by omega) (by omega)
  rw [PassedOver, lastEntry_of_none (hidx ▸ hchild)] at this
  omega

/-- **One round of `unmap_upper`**, when it meets no block in the range. -/
theorem unmapUpperEntry_spec (below : UnmapsBelow source height) (hheight : height + 1 ≤ 3)
    {table : Page} {i : ℕ} (ok : TreeOk source state (height + 1) table) (hi : i < 512)
    (hx : x % 4096 = 0) (hn : n % 4096 = 0) (hlt : n < 2 ^ 64) (hpos : 0 < n)
    (free : ¬ MeetsBlock state.mem (height + 1) table
      (i * 2 ^ shifts (height + 1) + x % 2 ^ shifts (height + 1)) n) :
    UnmapEntrySpec source (height + 1) table i (x % 2 ^ shifts (height + 1)) x n state
      (unmapUpperEntry source (height + 1) (unmapUpper source height) table i state
        (unmapCursorAt x n)) := by
  have hS := two_pow_shifts_pos (height + 1)
  have ha := Nat.mod_lt x hS
  have hspans := spans_iff (x := x) hheight hlt
  unfold unmapUpperEntry
  dsimp only
  by_cases htable : descriptorCode (state.mem table i) = ptUpperTableDescriptor
  · have hchild : child state.mem table i = some (tablePage (state.mem table i)) :=
      if_pos htable
    rw [if_pos htable]
    split_ifs with hcover
    · -- A table the range spans: unlinked and freed.
      obtain ⟨haligned, hspan⟩ := hspans.mp hcover
      obtain ⟨within, others, hpages⟩ := Within.write ok hi createNull
        (Or.inl descriptorCode_createNull) (by rw [descriptorCode_createNull]; decide)
      have hin : InTree state.mem (height + 1) table (tablePage (state.mem table i)) :=
        inTree_of_child hi hchild (inTree_self _ _ _)
      have hused : InUse source (state.write table i createNull)
          (tablePage (state.mem table i)) := ok.used _ hin
      have hgone : ¬ InTree (state.write table i createNull).mem (height + 1) table
          (tablePage (state.mem table i)) := by
        intro hstill
        rcases hpages _ hstill with hself | ⟨j, hj, hne, next', hchild', hpage⟩
        · refine ok.not_inTree_child hi hchild ?_
          nth_rewrite 2 [← hself]
          exact inTree_self _ _ _
        · exact ((ok.wf i hi).2 _ hchild).2.2 j hj hne next' hchild' _ (inTree_self _ _ _) hpage
      have hmem := (freeTable_spec within.ok.embedded hused).2.2
      rw [haligned]
      refine UnmapEntrySpec.dropped hheight hspan (within.free hin hused hgone)
        (fun virt hne => ?_) ?_ fun virt hidx => ?_
      · rw [hmem]
        exact others virt hne
      · rw [hmem]
        exact state.write_mem_self table i createNull
      · rw [lastEntry_of_child (hidx ▸ hchild)]
        exact Nat.lt_succ_of_le (lastEntry_height_le _ _ _ _)
    · -- A table the range only overlaps.
      have hpart := mt hspans.mpr hcover
      have free' := mt (MeetsBlock.of_child hheight hi hchild hpart) free
      exact (below _ state x n (ok.child hi hchild) hx hn hlt free').entry hheight ok hi hchild hpart
  · rw [if_neg htable]
    have hchild : child state.mem table i = none := if_neg htable
    have hrefused := UnmapEntrySpec.refused (x := x) hheight ok hi ha hpos hchild
      (unmapCursorAt x n)
    split_ifs with hblock hcover
    · -- A block the range spans is a whole block in the range.
      exfalso
      obtain ⟨haligned, hspan⟩ := hspans.mp hcover
      obtain ⟨virt, hidx, hoffset, hposition⟩ := exists_virt hheight hi hS
      have hupper : height + 1 < 3 := by
        rcases (ok.wf i hi).1 with h | h | ⟨-, -, h⟩
        · rw [h] at hblock
          exact absurd hblock (by decide)
        · exact absurd h htable
        · exact h
      subst hidx
      refine free ⟨virt, _, walkFrom_of_block rfl hblock hupper, Nat.succ_pos _, ?_, ?_,
        fun other hin hfront => ?_⟩
      · unfold EntryInside
        dsimp only
        rw [hposition, hoffset, haligned]
        omega
      · rw [PassedOver, lastEntry_of_none hchild]
        omega
      · -- the range starts here
        have := hin.1
        omega
    · exact hrefused
    · exact hrefused

/-! ## The loop and the recursion -/

theorem UnmapEntrySpec.failed {height : ℕ} {table : Page} {i a x n : ℕ}
    {before : TableState σ} {out : TableState σ × UnmapCursor × Bool}
    (ha : a < 2 ^ shifts height) (hfailed : ¬ out.2.2 = true)
    (spec : UnmapEntrySpec source height table i a x n before out) :
    UnmapSpec source height table (i * 2 ^ shifts height + a) x n before out := by
  refine ⟨spec.within, fun virt hout => ?_, fun hdone => absurd hdone hfailed,
    fun hdone => absurd hdone hfailed, iff_of_false hfailed fun passed => hfailed ?_⟩
  · rw [inRange_iff ha, not_or] at hout
    by_cases hvirt : tableIndex height virt = i
    · exact spec.outside virt hvirt fun hin => hout.1 ⟨hvirt, hin⟩
    · exact walkFrom_of_lastEntry (spec.others virt hvirt)
  · exact spec.done.mpr fun virt hidx hlow hhigh =>
      passed virt ((inRange_iff ha virt).mpr (Or.inl ⟨hidx, hlow, hhigh⟩))

theorem UnmapEntrySpec.andThen {height : ℕ} {table : Page} {i a x n k : ℕ}
    {before : TableState σ} {first out : TableState σ × UnmapCursor × Bool}
    (ha : a < 2 ^ shifts height) (hi : i < 512) (hok : first.2.2 = true)
    (spec : UnmapEntrySpec source height table i a x n before first)
    (hk : k = min n (2 ^ shifts height - a))
    (rest : UnmapSpec source height table ((i + 1) * 2 ^ shifts height) (x + k) (n - k)
      first.1 out) :
    UnmapSpec source height table (i * 2 ^ shifts height + a) x n before out := by
  refine ⟨spec.within.trans rest.within, fun virt hout => ?_, fun hdone => ?_,
    fun hdone virt hin => ?_, rest.done.trans ⟨fun passed virt hin => ?_, fun passed virt hin => ?_⟩⟩
  · rw [inRange_iff ha, ← hk, not_or] at hout
    rw [rest.outside virt hout.2]
    by_cases hvirt : tableIndex height virt = i
    · exact spec.outside virt hvirt fun hin => hout.1 ⟨hvirt, hin⟩
    · exact walkFrom_of_lastEntry (spec.others virt hvirt)
  · obtain ⟨k', hk', hcursor'⟩ := rest.cursor hdone
    refine ⟨k + k', ?_, ?_⟩
    · rw [two_pow_shifts_succ] at hk' ⊢
      rw [← consumed_split ha hi, ← hk, ← hk']
    · rw [hcursor', Nat.add_assoc, Nat.sub_sub]
  · rw [inRange_iff ha, ← hk] at hin
    by_cases hlater : InRange height ((i + 1) * 2 ^ shifts height) (n - k) virt
    · exact rest.unmapped hdone virt hlater
    · obtain ⟨hvirt, hlow, hhigh⟩ := hin.resolve_right hlater
      rw [rest.outside virt hlater]
      exact spec.unmapped hok virt hvirt hlow hhigh
  · rcases (inRange_iff ha virt).mp hin with ⟨hidx, hlow, hhigh⟩ | hlater
    · exact spec.done.mp hok virt hidx hlow hhigh
    · rw [← passedOver_rest_iff ha hk hlater.1 (spec.others virt (tableIndex_ne_of_le hlater.1))]
      exact passed virt (hk ▸ hlater)
  · rw [passedOver_rest_iff ha hk hin.1 (spec.others virt (tableIndex_ne_of_le hin.1))]
    exact passed virt ((inRange_iff ha virt).mpr (Or.inr (hk ▸ hin)))

/-- **The loop of `unmap_upper`**, from entry `i` on. -/
theorem unmapUpperLoop_spec (below : UnmapsBelow source height) (hheight : height + 1 ≤ 3)
    {table : Page} :
    ∀ (remaining i a x n : ℕ) (state : TableState σ), i + remaining = 512 →
      a < 2 ^ shifts (height + 1) →
      (0 < n → 0 < remaining →
        x % (2 ^ shifts (height + 1) * 512) = i * 2 ^ shifts (height + 1) + a) →
      TreeOk source state (height + 1) table → x % 4096 = 0 → n % 4096 = 0 → n < 2 ^ 64 →
      ¬ MeetsBlock state.mem (height + 1) table (i * 2 ^ shifts (height + 1) + a) n →
      UnmapSpec source (height + 1) table (i * 2 ^ shifts (height + 1) + a) x n state
        (unmapUpperLoop source (height + 1) (unmapUpper source height) table remaining state
          (unmapCursorAt x n)) := by
  intro remaining
  induction remaining with
  | zero =>
      intro i a x n state hi ha _ ok _ _ _ _
      obtain rfl : i = 512 := by omega
      have hspan : 2 ^ shifts (height + 1 + 1) ≤ 512 * 2 ^ shifts (height + 1) + a := by
        rw [two_pow_shifts_succ, Nat.mul_comm]
        exact Nat.le_add_right _ _
      have hnone : ∀ virt, ¬ InRange (height + 1) (512 * 2 ^ shifts (height + 1) + a) n virt :=
        fun virt hin => absurd (hspan.trans hin.1)
          (Nat.not_le.mpr (Nat.mod_lt virt.toNat (two_pow_shifts_pos (height + 1 + 1))))
      refine ⟨Within.refl ok, fun _ _ => rfl, fun _ => ⟨0, ?_, rfl⟩,
        fun _ virt hin => absurd hin (hnone virt),
        iff_of_true rfl fun virt hin => absurd hin (hnone virt)⟩
      rw [Nat.sub_eq_zero_of_le hspan, Nat.min_zero]
  | succ remaining ih =>
      intro i a x n state hi ha hstart ok hx hn hlt free
      have hidx : ptEntryCount - (remaining + 1) = i := by unfold ptEntryCount; omega
      have hsize0 := unmapCursorAt_size_eq_zero x hlt
      rw [unmapUpperLoop, hidx]
      split_ifs with hsize
      · obtain rfl := hsize0.mp hsize
        have hnone : ∀ virt, ¬ InRange (height + 1) (i * 2 ^ shifts (height + 1) + a) 0 virt :=
          fun _ hin => absurd (lt_of_le_of_lt hin.1 hin.2) (lt_irrefl _)
        exact ⟨Within.refl ok, fun _ _ => rfl, fun _ => ⟨0, (Nat.zero_min _).symm, rfl⟩,
          fun _ virt hin => absurd hin (hnone virt),
          iff_of_true rfl fun virt hin => absurd hin (hnone virt)⟩
      have hpos : 0 < n := Nat.pos_of_ne_zero (mt hsize0.mpr hsize)
      have hx' := hstart hpos (Nat.succ_pos _)
      obtain rfl := offset_eq hx' ha
      have spec := unmapUpperEntry_spec below hheight ok (by omega) hx hn hlt hpos free
      dsimp only
      split_ifs with hok
      · -- The round succeeded: the rest of the range starts at the next entry.
        obtain ⟨k, hk, hcursor⟩ := spec.cursor hok
        have hpages := consumed_pages hx hn hk
        rw [hcursor]
        have free' := mt (MeetsBlock.of_rest ha hk spec.others (spec.done.mp hok)) free
        have rest := ih (i + 1) 0 (x + k) (n - k) _ (by omega) (two_pow_shifts_pos _) ?_
          spec.within.ok (by omega) (by omega) (by omega) free'
        · exact spec.andThen ha (by omega) hok hk rest
        · intro hleft hrem
          have hk' : k = 2 ^ shifts (height + 1) - x % 2 ^ shifts (height + 1) := by omega
          rw [hk']
          exact next_entry hx' ha (by omega)
      · exact spec.failed ha hok

/-- **`unmap_upper` at every height.** -/
theorem unmapUpper_spec (source : TableSource σ) : ∀ height ≤ 3, UnmapsBelow source height := by
  intro height
  induction height with
  | zero =>
      intro _ table state x n ok hx hn hlt _
      exact unmapLower_spec table ok hx hn hlt
  | succ height ih =>
      intro hheight table state x n ok hx hn hlt free
      have hstart := tableIndex_ofNat hheight x
      have hidx := tableIndex_lt (height + 1) (BitVec.ofNat 64 x)
      rw [two_pow_shifts_succ (height + 1), ← hstart] at free ⊢
      exact unmapUpperLoop_spec (ih (by omega)) hheight
        (ptEntryCount - tableIndex (height + 1) (BitVec.ofNat 64 x))
        (tableIndex (height + 1) (BitVec.ofNat 64 x)) (x % 2 ^ shifts (height + 1)) x n state
        (by unfold ptEntryCount; omega) (Nat.mod_lt _ (two_pow_shifts_pos _))
        (fun _ _ => hstart.symm) ok hx hn hlt free

/-! ## The region -/

/-- The call gets to a block that lies wholly inside the range, and that is not below a table that
the range spans. -/
def MeetsWholeBlock (mem : TableMemory) (root : Page) (start size : U64) : Prop :=
  MeetsBlock mem 3 root (start.toNat % 2 ^ shifts 4) size.toNat

variable {root : Page} {state' : TableState σ} {virtStart size : U64}

theorem aligned_of_mapRegion {physStart attrs attrIdx : U64}
    (h : mapRegion source root state virtStart physStart size attrs attrIdx =
      some (state', true)) : virtStart.toNat % 4096 = 0 ∧ size.toNat % 4096 = 0 := by
  unfold mapRegion at h
  split_ifs at h with haligned
  · cases h
  · simp only [not_or, ne_eq, not_not, and_pageOffsetMask_eq_zero] at haligned
    exact ⟨haligned.1, haligned.2.2⟩

theorem unmapRegion_cases {done : Bool} (ok : TreeOk source state 3 root)
    (free : ¬ MeetsWholeBlock state.mem root virtStart size)
    (h : unmapRegion source root state virtStart size = (state', done)) :
    (state' = state ∧ done = false ∧
        (virtStart.toNat % 4096 ≠ 0 ∨ size.toNat % 4096 ≠ 0)) ∨
      ∃ cursor, UnmapSpec source 3 root (virtStart.toNat % 2 ^ shifts 4) virtStart.toNat
        size.toNat state (state', cursor, done) := by
  unfold unmapRegion at h
  simp only [ne_eq, and_pageOffsetMask_eq_zero] at h
  split_ifs at h with haligned
  · cases h
    exact Or.inl ⟨rfl, rfl, haligned⟩
  rw [not_or, not_not, not_not] at haligned
  cases h
  have hcursor : ({ virtStart, size } : UnmapCursor) =
      unmapCursorAt virtStart.toNat size.toNat := by
    simp only [unmapCursorAt, BitVec.ofNat_toNat, BitVec.setWidth_eq]
  refine Or.inr ⟨(unmapUpper source 3 root state { virtStart, size }).2.1, ?_⟩
  have spec := unmapUpper_spec source 3 le_rfl root state virtStart.toNat size.toNat ok
    haligned.1 haligned.2 size.isLt free
  rw [← hcursor] at spec
  exact spec

/-- What `unmap_region` does where it meets no whole block, whether it succeeds or not.  It succeeds where an aligned range is mapped from inside. -/
structure RegionUnmapped (source : TableSource σ) (half : Half) (root : Page)
    (virtStart size : U64) (before after : TableState σ) (done : Bool) : Prop where
  within : Within source before after 3 root
  outside : ∀ virt, half.Contains virt → ¬ InRegion virtStart size virt →
    walkFrom after.mem 3 root virt = walkFrom before.mem 3 root virt
  unmapped : done = true → ∀ virt, InRegion virtStart size virt →
    walk after.mem half root virt = none
  succeeds : virtStart.toNat % 4096 = 0 → size.toNat % 4096 = 0 →
    MappedInside before.mem half root virtStart size → done = true

theorem unmapRegion_spec {half : Half} {done : Bool} (ok : TreeOk source state 3 root)
    (inside : InsideHalf half virtStart size)
    (free : ¬ MeetsWholeBlock state.mem root virtStart size)
    (h : unmapRegion source root state virtStart size = (state', done)) :
    RegionUnmapped source half root virtStart size state state' done := by
  rcases unmapRegion_cases ok free h with ⟨rfl, rfl, haligned⟩ | ⟨cursor, spec⟩
  · exact ⟨Within.refl ok, fun _ _ _ => rfl, nofun, fun hx hn => by omega⟩
  refine ⟨spec.within, fun virt hvirt hnot => ?_, fun hdone virt hin => ?_,
    fun _ _ mapped => ?_⟩
  · exact spec.outside virt fun hin => hnot ((inRegion_iff inside hvirt).mpr hin)
  · have hvirt := hin.contains inside
    rw [walk, if_pos hvirt, translateFrom,
      spec.unmapped hdone virt ((inRegion_iff inside hvirt).mp hin), Option.map_none]
  · refine spec.done.mpr (passedOver_of_mapped (fun virt hrange => ?_) free)
    obtain ⟨virt', hvirt', hin, hposition⟩ := exists_virt_of_inRange inside hrange
    obtain ⟨leaf, hleaf, hpage⟩ := mapped virt' hin
    have hle := walkFrom_height_le hleaf
    rw [walkFrom_of_position virt hposition] at hleaf
    refine ⟨leaf, hleaf, hpage.imp_right fun hblock => ?_⟩
    rw [← entryInside_of_position (Nat.le_succ_of_le hle) hposition]
    exact entryInside_of_blockInside inside hvirt' hle hblock

theorem not_meetsWholeBlock_of_lt {mem : TableMemory} {start : U64} (hsize : size.toNat < 2 ^ 21) :
    ¬ MeetsWholeBlock mem root start size := by
  rintro ⟨virt, leaf, -, hpos, hinside, -, -⟩
  have hblock : 2 ^ 21 ≤ 2 ^ shifts leaf.1 :=
    Nat.pow_le_pow_right (by omega) (by unfold shifts; omega)
  unfold EntryInside at hinside
  omega

/-- **When `unmap_region` unmaps its range and nothing else.**  If it meets no block
wholly inside the range, a call that returns true leaves no address of the range
translated and every other translation as it was; and it undoes a call of
`map_region` into an unmapped range. -/
theorem unmapRegion_unmaps {root : Page} {half : Half} {state : TableState σ}
    {virtStart size : U64} (ok : TreeOk source state 3 root)
    (inside : InsideHalf half virtStart size) :
    (¬ MeetsWholeBlock state.mem root virtStart size →
      ∀ state', unmapRegion source root state virtStart size = (state', true) →
        (∀ virt, InRegion virtStart size virt → walk state'.mem half root virt = none) ∧
          ∀ virt, ¬ InRegion virtStart size virt →
            walk state'.mem half root virt = walk state.mem half root virt) ∧
      ∀ physStart attrs attrIdx state', physStart.toNat + size.toNat ≤ 2 ^ 48 →
        (∀ virt, InRegion virtStart size virt → walk state.mem half root virt = none) →
        mapRegion source root state virtStart physStart size attrs attrIdx =
          some (state', true) →
        ¬ MeetsWholeBlock state'.mem root virtStart size →
          ∃ state'', unmapRegion source root state' virtStart size = (state'', true) ∧
            ∀ virt, walk state''.mem half root virt = walk state.mem half root virt := by
  refine ⟨fun free state' h => ?_, fun physStart attrs attrIdx state' frames unmapped hmap free =>
    ?_⟩
  · have spec := unmapRegion_spec ok inside free h
    exact ⟨spec.unmapped rfl, fun virt hnot =>
      walk_congr fun hvirt => spec.outside virt hvirt hnot⟩
  · have maps := mapRegion_spec ok inside frames hmap
    obtain ⟨⟨state'', done⟩, h⟩ : ∃ out, unmapRegion source root state' virtStart size = out :=
      ⟨_, rfl⟩
    have unmaps := unmapRegion_spec maps.within.ok inside free h
    obtain ⟨hx, hn⟩ := aligned_of_mapRegion hmap
    obtain rfl := unmaps.succeeds hx hn (maps.inside rfl)
    refine ⟨state'', h, fun virt => ?_⟩
    by_cases hin : InRegion virtStart size virt
    · rw [unmaps.unmapped rfl virt hin, unmapped virt hin]
    · exact walk_congr fun hvirt =>
        (unmaps.outside virt hvirt hin).trans (maps.outside virt hvirt hin)

/-- Two pages from `0x5FF000` on, mapped into an empty root table and unmapped. -/
theorem unmapRegion_unmaps_pages :
    ∃ state' state'', mapRegion TableSource.pool 1 (TableState.empty samplePool)
        0x5FF000 0x3FE000 0x2000 0x440 1 = some (state', true) ∧
      unmapRegion TableSource.pool 1 state' 0x5FF000 0x2000 = (state'', true) ∧
      (∀ virt, walk state''.mem .lower 1 virt = none) ∧
        ∀ virt, ¬ InRegion 0x5FF000 0x2000 virt →
          walk state''.mem .lower 1 virt = walk state'.mem .lower 1 virt := by
  have hdone : (mapRegion TableSource.pool 1 (TableState.empty samplePool)
      0x5FF000 0x3FE000 0x2000 0x440 1).map Prod.snd = some true := by decide +kernel
  obtain ⟨⟨state', done⟩, hmap, rfl⟩ := Option.map_eq_some_iff.mp hdone
  have ok := TreeOk.samplePool
  have inside : InsideHalf .lower 0x5FF000 0x2000 := ⟨by decide, by decide⟩
  have hempty : ∀ virt, walk (TableState.empty samplePool).mem .lower 1 virt = none :=
    walk_empty _ _ _
  have free : ¬ MeetsWholeBlock state'.mem 1 0x5FF000 0x2000 :=
    not_meetsWholeBlock_of_lt (by decide)
  obtain ⟨state'', hunmap, hrestored⟩ := (unmapRegion_unmaps ok inside).2 0x3FE000 0x440 1 state'
    (by decide) (fun virt _ => hempty virt) hmap free
  have ok' := (mapRegion_spec ok inside (by decide) hmap).within.ok
  exact ⟨state', state'', hmap, hunmap, fun virt => (hrestored virt).trans (hempty virt),
    ((unmapRegion_unmaps ok' inside).1 free state'' hunmap).2⟩

/-- A block at `0x600000` and a page right after it.  Unmapping the block returns
true and drops the page as well. -/
theorem unmapRegion_unmaps_fails :
    ∃ state state', TreeOk TableSource.pool state 3 1 ∧ InsideHalf .lower 0x600000 0x200000 ∧
      unmapRegion TableSource.pool 1 state 0x600000 0x200000 = (state', true) ∧
        ¬ ((∀ virt, InRegion 0x600000 0x200000 virt → walk state'.mem .lower 1 virt = none) ∧
          ∀ virt, ¬ InRegion 0x600000 0x200000 virt →
            walk state'.mem .lower 1 virt = walk state.mem .lower 1 virt) := by
  have hruns : ((mapRegion TableSource.pool 1 (TableState.empty samplePool)
      0x600000 0x400000 0x201000 0x440 1).map fun out =>
        (out.2, (unmapRegion TableSource.pool 1 out.1 0x600000 0x200000).2,
          (walk out.1.mem .lower 1 0x800000).map Translation.address,
          (walk (unmapRegion TableSource.pool 1 out.1 0x600000 0x200000).1.mem
            .lower 1 0x800000).map Translation.address)) =
      some (true, true, some 0x600000, none) := by decide +kernel
  obtain ⟨⟨state, mapped⟩, hmap, heq⟩ := Option.map_eq_some_iff.mp hruns
  simp only [Prod.mk.injEq] at heq
  obtain ⟨rfl, hdone, hbefore, hafter⟩ := heq
  have inside : InsideHalf .lower 0x600000 0x201000 := ⟨by decide, by decide⟩
  have ok := (mapRegion_spec TreeOk.samplePool inside (by decide) hmap).within.ok
  refine ⟨state, _, ok, ⟨by decide, by decide⟩, Prod.ext rfl hdone, fun hclaim => ?_⟩
  have hsame := hclaim.2 0x800000 (by decide)
  rw [hsame, hbefore] at hafter
  cases hafter

end BekOS
