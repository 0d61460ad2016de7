import BekOS.Arch.MapProgress

/-!
# `map_region` maps its range and nothing else

`MapSpec` is what mapping a range does below one table: it stays within the
table's tree, gets as far as `Progress` says — so it leaves the walk of every
address outside the range alone, whether it succeeds or not — and, if it succeeds,
maps each address of the range to its offset into the physical range and steps the
cursors over what the table covers.

The cursors of the source are 64-bit words shared by all levels.  The proofs name
them by natural numbers (`cursorAt`): the words are their residues, so a range
that ends at the top of the address space needs no special case.

`mapUpper_spec` goes by induction on the height.  At each height the loop is an
induction on the entries left, whose step is one round (`mapUpperEntry_spec`) and
whose arithmetic is `Strides.range_split`.
-/

namespace BekOS

open BitField Strides

universe u

variable {σ : Type u} {source : TableSource σ}

/-! ## Cursors -/

/-- The cursors at given addresses and with a given size left. -/
def cursorAt (x y n : ℕ) : MapCursor where
  virtStart := BitVec.ofNat 64 x
  physStart := BitVec.ofNat 64 y
  size := BitVec.ofNat 64 n

variable {height n : ℕ} {state : TableState σ} {root : Page} {virtStart physStart size : U64}

theorem cursorAt_advance (x y : ℕ) (h : height ≤ 3) (hn : 2 ^ shifts height ≤ n) :
    (cursorAt x y n).advance height =
      cursorAt (x + 2 ^ shifts height) (y + 2 ^ shifts height) (n - 2 ^ shifts height) := by
  simp only [MapCursor.advance, cursorAt, sizes_eq_ofNat h, ofNat_sub hn, BitVec.ofNat_add]

theorem two_pow_shifts_le_of_sizes_le (hheight : height ≤ 3) (hlt : n < 2 ^ 64)
    (h : sizes height ≤ BitVec.ofNat 64 n) : 2 ^ shifts height ≤ n := by
  have hle : (sizes height).toNat ≤ (BitVec.ofNat 64 n).toNat := h
  have hS : 2 ^ shifts height < 2 ^ 64 :=
    Nat.pow_lt_pow_right (by omega) (by unfold shifts; omega)
  rwa [sizes_eq_ofNat hheight, BitVec.toNat_ofNat, BitVec.toNat_ofNat,
    Nat.mod_eq_of_lt hS, Nat.mod_eq_of_lt hlt] at hle

theorem cursorAt_size_eq_zero (x y : ℕ) (hn : n < 2 ^ 64) :
    (cursorAt x y n).size = 0 ↔ n = 0 := by
  have htoNat : (BitVec.ofNat 64 n).toNat = n := by
    rw [BitVec.toNat_ofNat, Nat.mod_eq_of_lt hn]
  constructor
  · intro h
    have := congrArg BitVec.toNat h
    simpa [cursorAt, htoNat] using this
  · rintro rfl
    rfl

/-! ## The specification -/

/-- What mapping `n` bytes at `y` from position `start` on does below a table. -/
structure MapSpec (source : TableSource σ) (flags : U64) (height : ℕ) (table : Page)
    (start x y n : ℕ) (before : TableState σ) (out : TableState σ × MapCursor × Bool) :
    Prop where
  within : Within source before out.1 height table
  progress : Progress height table start y n flags before.mem out.1.mem out.2.2
  cursor : out.2.2 = true → ∃ k, k = min n (2 ^ shifts (height + 1) - start) ∧
    out.2.1 = cursorAt (x + k) (y + k) (n - k)
  mapped : out.2.2 = true → y + n ≤ 2 ^ 48 → ∀ virt, InRange height start n virt →
    translateFrom out.1.mem height table virt =
      some { address := y + (position height virt - start)
             attributes := flags &&& attributeMask }
  pages : out.2.2 = true → ∀ virt, InRange height start n virt → ∀ leaf,
    walkFrom out.1.mem height table virt = some leaf →
      leaf.1 = 0 ∨ EntryInside height start n leaf.1 virt

/-! ## The last level -/

/-- What the loop of `map_lower` does from entry `i` on, with `m` pages to map: the
entries it passes over become page descriptors for consecutive frames, the others
keep their contents. -/
structure MapLowerSpec (flags : U64) (table : Page) (i x y m : ℕ) (mem : TableMemory)
    (out : TableMemory × MapCursor × Bool) : Prop where
  pages : ∀ page, page ≠ table → ∀ j, out.1 page j = mem page j
  progress : Progress 0 table (i * 4096) y (m * 4096) flags mem out.1 out.2.2
  entries : ∀ j, out.1 table j = mem table j ∨
    (i ≤ j ∧ j < i + m ∧ descriptorCode (out.1 table j) = ptLowerBlockDescriptor)
  cursor : out.2.2 = true → ∃ k, k = min m (512 - i) ∧
    out.2.1 = cursorAt (x + k * 4096) (y + k * 4096) ((m - k) * 4096)
  mapped : out.2.2 = true → ∀ j < 512, i ≤ j → j < i + m →
    out.1 table j = createL3Entry (BitVec.ofNat 64 (y + (j - i) * 4096)) flags

theorem mapLowerLoop_spec (flags : U64) (table : Page) :
    ∀ (remaining i x y m : ℕ) (mem : TableMemory), i + remaining = 512 → y % 4096 = 0 →
      m < 2 ^ 52 → (∀ j < 512, i ≤ j → EntryAllowed 0 (mem table j)) →
      MapLowerSpec flags table i x y m mem
        (mapLowerLoop flags table remaining mem (cursorAt x y (m * 4096))) := by
  intro remaining
  induction remaining with
  | zero =>
      intro i x y m mem hi _ _ _
      refine ⟨fun _ _ _ => rfl, Progress.of_empty fun virt hin => ?_, fun _ => Or.inl rfl,
        fun _ => ⟨0, by omega, by simp [mapLowerLoop]⟩, fun _ j hj hij _ => by omega⟩
      have hposition : position 0 virt < 2 ^ shifts 1 := Nat.mod_lt _ (two_pow_shifts_pos 1)
      rw [two_pow_shifts_succ, two_pow_shifts_zero] at hposition
      unfold InRange at hin
      omega
  | succ remaining ih =>
      intro i x y m mem hi hy hm allowed
      have hidx : ptEntryCount - (remaining + 1) = i := by unfold ptEntryCount; omega
      have hleft : (cursorAt x y (m * 4096)).size = 0 ↔ m = 0 := by
        rw [cursorAt_size_eq_zero x y (by omega)]
        omega
      rw [mapLowerLoop]
      split_ifs with hsize
      · obtain rfl := hleft.mp hsize
        refine ⟨fun _ _ _ => rfl, ?_, fun _ => Or.inl rfl, fun _ => ⟨0, by omega, by simp⟩,
          fun _ j _ _ _ => by omega⟩
        rw [Nat.zero_mul]
        exact Progress.of_empty not_inRange_zero
      obtain ⟨m, rfl⟩ : ∃ d, m = d + 1 := Nat.exists_eq_succ_of_ne_zero (mt hleft.mpr hsize)
      dsimp only
      rw [hidx]
      have hphys : (cursorAt x y ((m + 1) * 4096)).physStart = BitVec.ofNat 64 y := rfl
      have hadvance : (cursorAt x y ((m + 1) * 4096)).advance 0 =
          cursorAt (x + 4096) (y + 4096) (m * 4096) := by
        have hone : 2 ^ shifts 0 ≤ (m + 1) * 4096 := Nat.le_mul_of_pos_left _ (Nat.succ_pos m)
        rw [cursorAt_advance x y (by omega) hone, two_pow_shifts_zero, Nat.add_mul,
          Nat.one_mul, Nat.add_sub_cancel]
      rw [hadvance, hphys]
      split_ifs with hclash
      · -- The entry is a page of another frame or with other flags.
        refine ⟨fun _ _ _ => rfl, ⟨fun hdone => absurd hdone Bool.false_ne_true,
          fun _ => ⟨0, by omega, Passed.of_empty not_inRange_zero, ?_⟩⟩, fun _ => Or.inl rfl,
          nofun, nofun⟩
        obtain ⟨virt, hindex, -, hposition⟩ :=
          exists_virt (Nat.zero_le 3) (show i < 512 by omega) (two_pow_shifts_pos 0)
        have hpage : descriptorCode (mem table i) = ptLowerBlockDescriptor := by
          rcases allowed i (by omega) le_rfl with hcode | hcode | ⟨-, hcode, -⟩
          · exact absurd hcode hclash.1
          · exact hcode
          · exact absurd hcode (lt_irrefl 0)
        refine ⟨virt, hposition, (0, mem table i), walkFrom_of_page (by rw [hindex]) hpage, ?_⟩
        rw [pageFor_page hy hindex, ne_eq, Prod.mk.injEq, not_and]
        exact fun _ => hclash.2
      rw [not_and_or, not_not, not_not] at hclash
      have rest := ih (i + 1) (x + 4096) (y + 4096) m
        (mem.write table i (createL3Entry (BitVec.ofNat 64 y) flags)) (by omega) (by omega)
        (by omega) fun j hj hij => by
          rw [TableMemory.write_of_idx_ne (by omega)]
          exact allowed j hj (by omega)
      have hstep : ∀ base k, base + 4096 + k * 4096 = base + (k + 1) * 4096 := fun base k => by
        rw [Nat.add_mul, Nat.one_mul, Nat.add_assoc, Nat.add_comm 4096]
      refine ⟨fun page hne j => ?_, ?_, fun j => ?_, fun hok => ?_, fun hok j hj hij hlt => ?_⟩
      · exact (rest.pages page hne j).trans (TableMemory.write_of_page_ne hne _ _ _)
      · have progress := rest.progress
        rw [Nat.add_mul, Nat.one_mul] at progress
        rw [Nat.add_mul, Nat.one_mul, Nat.add_comm (m * 4096)]
        exact Progress.append (passed_write hy hclash) progress
      · rcases rest.entries j with hsame | ⟨hij, hlt, hcode⟩
        · by_cases hji : j = i
          · subst hji
            refine Or.inr ⟨le_rfl, by omega, ?_⟩
            exact (congrArg descriptorCode (hsame.trans (TableMemory.write_self _ _ _ _))).trans
              (descriptorCode_createL3Entry _ _)
          · exact Or.inl (hsame.trans (TableMemory.write_of_idx_ne hji _ _ _))
        · exact Or.inr ⟨by omega, by omega, hcode⟩
      · obtain ⟨k, hk, hcursor⟩ := rest.cursor hok
        refine ⟨k + 1, by omega, hcursor.trans ?_⟩
        rw [hstep, hstep, Nat.add_sub_add_right]
      · by_cases hji : j = i
        · subst hji
          rcases rest.entries j with hsame | ⟨hij', -, -⟩
          · refine hsame.trans ((TableMemory.write_self _ _ _ _).trans ?_)
            rw [Nat.sub_self, Nat.zero_mul, Nat.add_zero]
          · omega
        · obtain ⟨d, rfl⟩ : ∃ d, j = i + 1 + d := ⟨j - (i + 1), by omega⟩
          have hrest := rest.mapped hok (i + 1 + d) hj (by omega) (by omega)
          rw [Nat.add_sub_cancel_left, hstep] at hrest
          rw [hrest, show i + 1 + d - i = d + 1 by omega]

/-- `map_lower` meets the specification of a table at height 0. -/
theorem mapLower_spec (flags : U64) (table : Page) {x y : ℕ} (ok : TreeOk source state 0 table)
    (hx : x % 4096 = 0) (hy : y % 4096 = 0) (hn : n % 4096 = 0) (hlt : n < 2 ^ 64) :
    MapSpec source flags 0 table (x % 2 ^ shifts 1) x y n state
      (mapLower flags table state (cursorAt x y n)) := by
  obtain ⟨m, rfl⟩ : ∃ m, n = m * 4096 := ⟨n / 4096, (Nat.div_mul_cancel
    (Nat.dvd_of_mod_eq_zero hn)).symm⟩
  have hidx := tableIndex_lt 0 (BitVec.ofNat 64 x)
  have hstart : x % 2 ^ shifts 1 = tableIndex 0 (BitVec.ofNat 64 x) * 4096 := offset_lower hx
  have hloop := mapLowerLoop_spec flags table
    (ptEntryCount - tableIndex 0 (BitVec.ofNat 64 x)) (tableIndex 0 (BitVec.ofNat 64 x)) x y m
    state.mem (by unfold ptEntryCount; omega) hy (by omega) fun j hj _ => ok.wf j hj
  set i := tableIndex 0 (BitVec.ofNat 64 x) with hi
  have hrange : ∀ virt, InRange 0 (x % 2 ^ shifts 1) (m * 4096) virt ↔
      i ≤ tableIndex 0 virt ∧ tableIndex 0 virt < i + m := fun virt => by
    rw [hstart]
    exact inRange_lower
  have hother : ∀ page, page ≠ table → ∀ j,
      (mapLower flags table state (cursorAt x y (m * 4096))).1.mem page j = state.mem page j :=
    hloop.pages
  refine ⟨⟨⟨?_, ok.used, ok.embedded⟩, fun _ h => Or.inl h, ?_, fun _ h _ => h⟩,
    ?_, ?_, ?_, fun _ _ _ _ hleaf => Or.inl (Nat.le_zero.mp (walkFrom_height_le hleaf))⟩
  · intro j hj
    rcases hloop.entries j with hsame | ⟨-, -, hcode⟩
    · have := ok.wf j hj
      rwa [← hsame] at this
    · exact Or.inr (Or.inl hcode)
  · exact fun page _ hnot => hother page hnot
  · rw [hstart]
    exact hloop.progress
  · intro hok
    obtain ⟨k, hk, hcursor⟩ := hloop.cursor hok
    refine ⟨k * 4096, ?_, ?_⟩
    · rw [hstart, two_pow_shifts_succ, two_pow_shifts_zero, Nat.mul_comm 4096, ← Nat.sub_mul,
        Nat.mul_min_mul_right, hk]
    · rw [← Nat.sub_mul]
      exact hcursor
  · intro hok hphys virt hin
    obtain ⟨hlow, hhigh⟩ := (hrange virt).mp hin
    have hpage := hloop.mapped hok (tableIndex 0 virt) (tableIndex_lt 0 virt) hlow hhigh
    have hframe : y + (tableIndex 0 virt - i) * 4096 < 2 ^ 48 := by omega
    have hpos : position 0 virt - x % 2 ^ shifts 1 =
        (tableIndex 0 virt - i) * 4096 + virt.toNat % 4096 := by
      rw [position_eq, two_pow_shifts_zero, hstart, Nat.sub_mul]
      have := Nat.mul_le_mul_right 4096 hlow
      omega
    have houtput := output_createL3Entry hframe (by
      rw [two_pow_shifts_zero, Nat.add_mul_mod_self_right]
      exact hy) flags virt
    refine (translateFrom_of_walkFrom
      (walkFrom_of_page hpage (descriptorCode_createL3Entry _ _))).trans ?_
    rw [houtput, hpos, two_pow_shifts_zero, Nat.add_assoc]

/-! ## One round of the upper levels -/

/-- What one round of the loop does to entry `i` of a table, for a range that
starts `a` into the entry. -/
structure MapEntrySpec (source : TableSource σ) (flags : U64) (height : ℕ) (table : Page)
    (i a x y n : ℕ) (before : TableState σ) (out : TableState σ × MapCursor × Bool) :
    Prop where
  within : Within source before out.1 height table
  progress : Progress height table (i * 2 ^ shifts height + a) y (min n (2 ^ shifts height - a))
    flags before.mem out.1.mem out.2.2
  cursor : out.2.2 = true → ∃ k, k = min n (2 ^ shifts height - a) ∧
    out.2.1 = cursorAt (x + k) (y + k) (n - k)
  mapped : out.2.2 = true → y + n ≤ 2 ^ 48 → ∀ virt, tableIndex height virt = i →
    a ≤ virt.toNat % 2 ^ shifts height → virt.toNat % 2 ^ shifts height < a + n →
    translateFrom out.1.mem height table virt =
      some { address := y + (virt.toNat % 2 ^ shifts height - a)
             attributes := flags &&& attributeMask }
  pages : out.2.2 = true → ∀ virt, tableIndex height virt = i →
    a ≤ virt.toNat % 2 ^ shifts height → virt.toNat % 2 ^ shifts height < a + n → ∀ leaf,
    walkFrom out.1.mem height table virt = some leaf →
      leaf.1 = 0 ∨ EntryInside height (i * 2 ^ shifts height + a) n leaf.1 virt

theorem MapSpec.entry {flags : U64} {height : ℕ} {table next : Page} {i a x y n : ℕ}
    {before : TableState σ} {out : TableState σ × MapCursor × Bool} (hheight : height + 1 ≤ 3)
    (ok : TreeOk source before (height + 1) table) (hi : i < 512) (ha : a < 2 ^ shifts (height + 1))
    (hchild : child before.mem table i = some next)
    (spec : MapSpec source flags height next a x y n before out) :
    MapEntrySpec source flags (height + 1) table i a x y n before out := by
  have hafter : child out.1.mem table i = some next :=
    (child_congr (spec.within.row ok hi hchild i)).trans hchild
  have only : EntryOnly height table next i before.mem out.1.mem := by
    refine ⟨?_, fun hne => spec.within.walk_other ok hi hchild hne⟩
    rintro virt rfl
    exact ⟨walkFrom_of_child hchild, walkFrom_of_child hafter⟩
  refine ⟨spec.within.of_child ok hi hchild, spec.progress.entry only hheight hi ha, spec.cursor,
    fun hok hphys virt hidx hlow hhigh => ?_, fun hok virt hidx hlow hhigh leaf hleaf => ?_⟩
  · rw [translateFrom_congr (only.below hidx).2]
    exact spec.mapped hok hphys virt ⟨hlow, hhigh⟩
  · rw [(only.below hidx).2] at hleaf
    refine (spec.pages hok virt ⟨hlow, hhigh⟩ leaf hleaf).imp_right fun hinside => ?_
    exact (entryInside_child_iff hidx (Nat.le_succ_of_le (walkFrom_height_le hleaf))).mpr hinside

theorem MapEntrySpec.after {flags : U64} {height : ℕ} {table : Page} {i a x y n : ℕ}
    {before middle : TableState σ} {out : TableState σ × MapCursor × Bool}
    (within : Within source before middle height table)
    (same : ∀ virt, walkFrom middle.mem height table virt =
      walkFrom before.mem height table virt)
    (spec : MapEntrySpec source flags height table i a x y n middle out) :
    MapEntrySpec source flags height table i a x y n before out where
  within := within.trans spec.within
  progress := spec.progress.behind same
  cursor := spec.cursor
  mapped := spec.mapped
  pages := spec.pages

/-- The specification of the table below, as the induction provides it. -/
def MapsBelow (source : TableSource σ) (flags : U64) (height : ℕ) : Prop :=
  ∀ (table : Page) (state : TableState σ) (x y n : ℕ) (out : TableState σ × MapCursor × Bool),
    TreeOk source state height table → x % 4096 = 0 → y % 4096 = 0 → n % 4096 = 0 →
    n < 2 ^ 64 → mapUpper source flags height table state (cursorAt x y n) = some out →
    MapSpec source flags height table (x % 2 ^ shifts (height + 1)) x y n state out

/-- **One round of `map_upper`**: a block, a fresh table, or the table already
there. -/
theorem mapUpperEntry_spec {flags : U64} (below : MapsBelow source flags height)
    (hheight : height + 1 ≤ 3) {table : Page} {i x y : ℕ}
    (ok : TreeOk source state (height + 1) table) (hi : i < 512) (hx : x % 4096 = 0)
    (hy : y % 4096 = 0) (hn : n % 4096 = 0) (hlt : n < 2 ^ 64) (hpos : 0 < n)
    {out : TableState σ × MapCursor × Bool}
    (h : mapUpperEntry source (height + 1) flags (mapUpper source flags height) table i state
      (cursorAt x y n) = some out) :
    MapEntrySpec source flags (height + 1) table i (x % 2 ^ shifts (height + 1)) x y n state
      out := by
  have ha := Nat.mod_lt x (two_pow_shifts_pos (height + 1))
  unfold mapUpperEntry at h
  dsimp only at h
  split_ifs at h with hinvalid hblock htable
  · -- A block: the range starts at the entry's first address and covers it.
    obtain ⟨hlevel, hsize, hvirt, hframe⟩ := hblock
    have hxS := (isAligned_ofNat hheight x).mp hvirt
    have hyS := (isAligned_ofNat hheight y).mp hframe
    have hSn := two_pow_shifts_le_of_sizes_le hheight hlt hsize
    have hS0 := two_pow_shifts_pos (height + 1)
    cases h
    have hcode := descriptorCode_createBlockEntry (BitVec.ofNat 64 y) flags
    obtain ⟨within, -⟩ := Within.write ok hi (createBlockEntry (BitVec.ofNat 64 y) flags)
      (Or.inr (Or.inr ⟨hcode, by omega, by omega⟩)) (by rw [hcode]; decide)
    have hwalk : ∀ virt, tableIndex (height + 1) virt = i →
        walkFrom (state.write table i (createBlockEntry (BitVec.ofNat 64 y) flags)).mem
          (height + 1) table virt =
            some (height + 1, createBlockEntry (BitVec.ofNat 64 y) flags) := by
      rintro virt rfl
      exact walkFrom_of_block (state.write_mem_self table _ _) hcode (by omega)
    refine ⟨within, ?_, fun _ => ?_, fun _ hphys virt hidx _ _ => ?_,
      fun _ virt hidx _ _ leaf hleaf => Or.inr ?_⟩
    · rw [hxS, Nat.add_zero, Nat.sub_zero, Nat.min_eq_right hSn]
      exact ⟨fun _ => passed_block ok hi (by omega) _ hinvalid, nofun⟩
    · refine ⟨2 ^ shifts (height + 1), ?_, cursorAt_advance x y hheight hSn⟩
      rw [hxS, Nat.sub_zero, Nat.min_eq_right hSn]
    · refine (translateFrom_of_walkFrom (hwalk virt hidx)).trans ?_
      rw [output_createBlockEntry hlevel (by omega) hyS, hxS, Nat.sub_zero]
    · obtain rfl := Option.some_inj.mp ((hwalk virt hidx).symm.trans hleaf)
      unfold EntryInside
      rw [position_eq, hidx, hxS, Nat.add_sub_cancel, Nat.add_zero]
      exact ⟨le_rfl, Nat.add_le_add_left hSn _⟩
  · -- A fresh table.
    obtain ⟨⟨next, allocated⟩, halloc, hnext⟩ := Option.bind_eq_some_iff.mp h
    obtain ⟨within, hchild, same⟩ := Within.allocate ok hi hinvalid halloc
    have spec := below next _ x y n out (within.ok.child hi hchild) hx hy hn hlt hnext
    exact (spec.entry hheight within.ok hi ha hchild).after within same
  · -- The table already there.
    have hchild : child state.mem table i = some (tablePage (state.mem table i)) :=
      if_pos htable
    exact (below _ state x y n out (ok.child hi hchild) hx hy hn hlt h).entry hheight ok hi ha
      hchild
  · -- A block is in the way.
    cases h
    refine ⟨Within.refl ok, ⟨fun hdone => absurd hdone Bool.false_ne_true,
      fun _ => ⟨0, lt_min hpos (by omega), Passed.of_empty not_inRange_zero, ?_⟩⟩, nofun, nofun,
      nofun⟩
    obtain ⟨virt, hindex, -, hposition⟩ := exists_virt hheight hi ha
    refine ⟨virt, hposition, (height + 1, state.mem table i), ?_, ?_⟩
    · rcases (ok.wf _ hi).1 with hcode | hcode | ⟨hcode, -, hupper⟩
      · exact absurd hcode hinvalid
      · exact absurd hcode htable
      · exact walkFrom_of_block (by rw [hindex]) hcode hupper
    · rw [ne_eq, Prod.mk.injEq, not_and]
      exact fun hzero => absurd hzero (Nat.succ_ne_zero height)

/-! ## The loop and the recursion -/

theorem MapEntrySpec.failed {flags : U64} {height : ℕ} {table : Page} {i a x y n : ℕ}
    {before : TableState σ} {out : TableState σ × MapCursor × Bool} (hfailed : ¬ out.2.2 = true)
    (spec : MapEntrySpec source flags height table i a x y n before out) :
    MapSpec source flags height table (i * 2 ^ shifts height + a) x y n before out :=
  ⟨spec.within, ⟨fun hdone => absurd hdone hfailed,
    fun hdone => (spec.progress.stopped hdone).mono (Nat.min_le_left _ _)⟩,
    fun hdone => absurd hdone hfailed, fun hdone => absurd hdone hfailed,
    fun hdone => absurd hdone hfailed⟩

/-- A round that succeeded, followed by the rest of the loop. -/
theorem MapEntrySpec.andThen {flags : U64} {height : ℕ} {table : Page} {i a x y n k : ℕ}
    {before : TableState σ} {first out : TableState σ × MapCursor × Bool}
    (ha : a < 2 ^ shifts height) (hi : i < 512) (hok : first.2.2 = true)
    (spec : MapEntrySpec source flags height table i a x y n before first)
    (hk : k = min n (2 ^ shifts height - a))
    (rest : MapSpec source flags height table ((i + 1) * 2 ^ shifts height) (x + k) (y + k)
      (n - k) first.1 out) :
    MapSpec source flags height table (i * 2 ^ shifts height + a) x y n before out := by
  refine ⟨spec.within.trans rest.within, ?_, fun hdone => ?_,
    fun hdone hphys virt hin => ?_, fun hdone virt hin leaf hleaf => ?_⟩
  · -- If anything is left, this entry was gone through to its end.
    have hnext : Progress height table (i * 2 ^ shifts height + a + k) (y + k) (n - k) flags
        first.1.mem out.1.mem out.2.2 := rest.progress.moved (by
      rw [Nat.succ_mul]
      omega)
    rw [show n = k + (n - k) by omega]
    exact Progress.append (hk ▸ spec.progress.passed hok) hnext
  · obtain ⟨k', hk', hcursor'⟩ := rest.cursor hdone
    refine ⟨k + k', ?_, ?_⟩
    · rw [two_pow_shifts_succ] at hk' ⊢
      rw [← consumed_split ha hi, ← hk, ← hk']
    · rw [hcursor', Nat.add_assoc, Nat.add_assoc, Nat.sub_sub]
  · rw [inRange_iff ha, ← hk] at hin
    by_cases hlater : InRange height ((i + 1) * 2 ^ shifts height) (n - k) virt
    · rw [rest.mapped hdone (by omega) virt hlater, distance_after ha hk hlater.1 hlater.2]
    · obtain ⟨hvirt, hlow, hhigh⟩ := hin.resolve_right hlater
      rw [translateFrom_congr (rest.progress.outside hlater), spec.mapped hok hphys virt hvirt hlow hhigh,
        position_eq, hvirt, Nat.add_sub_add_left]
  · rw [inRange_iff ha, ← hk] at hin
    by_cases hlater : InRange height ((i + 1) * 2 ^ shifts height) (n - k) virt
    · refine (rest.pages hdone virt hlater leaf hleaf).imp_right fun hinside => ?_
      have hstep : (i + 1) * 2 ^ shifts height = i * 2 ^ shifts height + 2 ^ shifts height :=
        Nat.succ_mul _ _
      unfold EntryInside at hinside ⊢
      unfold InRange at hlater
      omega
    · obtain ⟨hvirt, hlow, hhigh⟩ := hin.resolve_right hlater
      rw [rest.progress.outside hlater] at hleaf
      exact spec.pages hok virt hvirt hlow hhigh leaf hleaf

/-- **The loop of `map_upper`**, from entry `i` on. -/
theorem mapUpperLoop_spec {flags : U64} (below : MapsBelow source flags height)
    (hheight : height + 1 ≤ 3) {table : Page} :
    ∀ (remaining i a x y n : ℕ) (state : TableState σ) (out : TableState σ × MapCursor × Bool),
      i + remaining = 512 → a < 2 ^ shifts (height + 1) →
      (0 < n → 0 < remaining →
        x % (2 ^ shifts (height + 1) * 512) = i * 2 ^ shifts (height + 1) + a) →
      TreeOk source state (height + 1) table → x % 4096 = 0 → y % 4096 = 0 → n % 4096 = 0 →
      n < 2 ^ 64 →
      mapUpperLoop source (height + 1) flags (mapUpper source flags height) table remaining
        state (cursorAt x y n) = some out →
      MapSpec source flags (height + 1) table (i * 2 ^ shifts (height + 1) + a) x y n state
        out := by
  intro remaining
  induction remaining with
  | zero =>
      intro i a x y n state out hi ha _ ok _ _ _ _ h
      cases h
      obtain rfl : i = 512 := by omega
      have hspan : 2 ^ shifts (height + 1 + 1) ≤ 512 * 2 ^ shifts (height + 1) + a := by
        rw [two_pow_shifts_succ, Nat.mul_comm]
        exact Nat.le_add_right _ _
      have hempty : ∀ virt, ¬ InRange (height + 1) (512 * 2 ^ shifts (height + 1) + a) n virt :=
        fun virt hin => absurd (hspan.trans hin.1)
          (Nat.not_le.mpr (Nat.mod_lt virt.toNat (two_pow_shifts_pos (height + 1 + 1))))
      refine ⟨Within.refl ok, Progress.of_empty hempty, fun _ => ⟨0, ?_, rfl⟩,
        fun _ _ virt hin => absurd hin (hempty virt), fun _ virt hin => absurd hin (hempty virt)⟩
      rw [Nat.sub_eq_zero_of_le hspan, Nat.min_zero]
  | succ remaining ih =>
      intro i a x y n state out hi ha hstart ok hx hy hn hlt h
      have hidx : ptEntryCount - (remaining + 1) = i := by unfold ptEntryCount; omega
      have hsize0 := cursorAt_size_eq_zero x y hlt
      rw [mapUpperLoop, hidx] at h
      split_ifs at h with hsize
      · cases h
        obtain rfl := hsize0.mp hsize
        exact ⟨Within.refl ok, Progress.of_empty not_inRange_zero,
          fun _ => ⟨0, (Nat.zero_min _).symm, rfl⟩,
          fun _ _ virt hin => absurd hin (not_inRange_zero virt),
          fun _ virt hin => absurd hin (not_inRange_zero virt)⟩
      have hpos : 0 < n := Nat.pos_of_ne_zero (mt hsize0.mpr hsize)
      have hx' := hstart hpos (Nat.succ_pos _)
      obtain rfl := offset_eq hx' ha
      obtain ⟨first, hfirst, hrest⟩ := Option.bind_eq_some_iff.mp h
      have spec := mapUpperEntry_spec below hheight ok (by omega) hx hy hn hlt hpos hfirst
      split_ifs at hrest with hok
      · -- The round succeeded: the rest of the range starts at the next entry.
        obtain ⟨k, hk, hcursor⟩ := spec.cursor hok
        have hpages := consumed_pages hx hn hk
        rw [hcursor] at hrest
        have rest := ih (i + 1) 0 (x + k) (y + k) (n - k) first.1 out (by omega)
          (two_pow_shifts_pos _) ?_ spec.within.ok (by omega) (by omega) (by omega) (by omega)
          hrest
        · exact spec.andThen ha (by omega) hok hk rest
        · intro hleft hrem
          have hk' : k = 2 ^ shifts (height + 1) - x % 2 ^ shifts (height + 1) := by omega
          rw [hk']
          exact next_entry hx' ha (by omega)
      · cases hrest
        exact spec.failed hok

/-- **`map_upper` at every height.** -/
theorem mapUpper_spec (source : TableSource σ) (flags : U64) :
    ∀ height ≤ 3, MapsBelow source flags height := by
  intro height
  induction height with
  | zero =>
      intro _ table state x y n out ok hx hy hn hlt h
      cases h
      exact mapLower_spec flags table ok hx hy hn hlt
  | succ height ih =>
      intro hheight table state x y n out ok hx hy hn hlt h
      have hstart := tableIndex_ofNat hheight x
      have hidx := tableIndex_lt (height + 1) (BitVec.ofNat 64 x)
      have spec := mapUpperLoop_spec (ih (by omega)) hheight
        (ptEntryCount - tableIndex (height + 1) (BitVec.ofNat 64 x))
        (tableIndex (height + 1) (BitVec.ofNat 64 x)) (x % 2 ^ shifts (height + 1)) x y n
        state out (by unfold ptEntryCount; omega) (Nat.mod_lt _ (two_pow_shifts_pos _))
        (fun _ _ => hstart.symm) ok hx hy hn hlt h
      rwa [hstart, ← two_pow_shifts_succ] at spec

/-! ## `map_region` -/

theorem mapRegion_of_aligned (hvirt : virtStart.toNat % 4096 = 0)
    (hphys : physStart.toNat % 4096 = 0) (hsize : size.toNat % 4096 = 0) (attrs attrIdx : U64) :
    mapRegion source root state virtStart physStart size attrs attrIdx =
      (mapUpper source (attrs ||| attrIdx <<< 2) 3 root state
        (cursorAt virtStart.toNat physStart.toNat size.toNat)).map fun out =>
          (out.1, out.2.2) := by
  have hcursor : ({ virtStart, physStart, size } : MapCursor) =
      cursorAt virtStart.toNat physStart.toNat size.toNat := by
    simp only [cursorAt, BitVec.ofNat_toNat, BitVec.setWidth_eq]
  unfold mapRegion
  simp only [ne_eq, and_pageOffsetMask_eq_zero, hvirt, hphys, hsize, not_true, or_self, if_false,
    hcursor]

theorem mapRegion_of_not_aligned
    (h : virtStart.toNat % 4096 ≠ 0 ∨ physStart.toNat % 4096 ≠ 0 ∨ size.toNat % 4096 ≠ 0)
    (attrs attrIdx : U64) :
    mapRegion source root state virtStart physStart size attrs attrIdx = some (state, false) := by
  unfold mapRegion
  simp only [ne_eq, and_pageOffsetMask_eq_zero]
  exact if_pos h

variable {state' : TableState σ} {attrs attrIdx : U64} {done : Bool}

theorem mapRegion_cases (ok : TreeOk source state 3 root)
    (h : mapRegion source root state virtStart physStart size attrs attrIdx =
      some (state', done)) :
    (state' = state ∧ done = false ∧
        (virtStart.toNat % 4096 ≠ 0 ∨ physStart.toNat % 4096 ≠ 0 ∨ size.toNat % 4096 ≠ 0)) ∨
      ∃ cursor, MapSpec source (attrs ||| attrIdx <<< 2) 3 root
        (virtStart.toNat % 2 ^ shifts 4) virtStart.toNat physStart.toNat size.toNat state
        (state', cursor, done) := by
  by_cases haligned : virtStart.toNat % 4096 ≠ 0 ∨ physStart.toNat % 4096 ≠ 0 ∨
      size.toNat % 4096 ≠ 0
  · rw [mapRegion_of_not_aligned haligned] at h
    cases h
    exact Or.inl ⟨rfl, rfl, haligned⟩
  simp only [not_or, not_not] at haligned
  obtain ⟨hx, hy, hn⟩ := haligned
  rw [mapRegion_of_aligned hx hy hn] at h
  obtain ⟨out, hout, heq⟩ := Option.map_eq_some_iff.mp h
  cases heq
  exact Or.inr ⟨out.2.1, mapUpper_spec source (attrs ||| attrIdx <<< 2) 3 le_rfl root state
    virtStart.toNat physStart.toNat size.toNat out ok hx hy hn size.isLt hout⟩

theorem MapSpec.done_of_free {source : TableSource σ} {half : Half} {root : Page} {flags : U64}
    {x y : ℕ} {virtStart size : U64} {before : TableState σ}
    {out : TableState σ × MapCursor × Bool}
    (spec : MapSpec source flags 3 root (virtStart.toNat % 2 ^ shifts 4) x y size.toNat before out)
    (inside : InsideHalf half virtStart size)
    (free : ∀ virt, InRegion virtStart size virt → walk before.mem half root virt = none) :
    out.2.2 = true := by
  refine spec.progress.done_of_free fun virt hrange => ?_
  obtain ⟨virt', hvirt', hin, hposition⟩ := exists_virt_of_inRange inside hrange
  have hnone := free virt' hin
  rw [walk, if_pos hvirt', translateFrom, Option.map_eq_none_iff] at hnone
  rwa [walkFrom_of_position virt' hposition.symm]

theorem mapRegion_done {half : Half} (ok : TreeOk source state 3 root)
    (inside : InsideHalf half virtStart size) (hvirt : virtStart.toNat % 4096 = 0)
    (hphys : physStart.toNat % 4096 = 0) (hsize : size.toNat % 4096 = 0)
    (free : ∀ virt, InRegion virtStart size virt → walk state.mem half root virt = none)
    (h : mapRegion source root state virtStart physStart size attrs attrIdx =
      some (state', done)) : done = true := by
  rcases mapRegion_cases ok h with ⟨-, -, hnot⟩ | ⟨cursor, spec⟩
  · omega
  · exact spec.done_of_free inside free

/-- What `map_region` does, whether it succeeds or not.  Where the range was not
mapped at all, it fails only at an argument that is not aligned. -/
structure RegionMapped (source : TableSource σ) (half : Half) (root : Page)
    (virtStart physStart size flags : U64) (before after : TableState σ) (done : Bool) :
    Prop where
  within : Within source before after 3 root
  outside : ∀ virt, half.Contains virt → ¬ InRegion virtStart size virt →
    walkFrom after.mem 3 root virt = walkFrom before.mem 3 root virt
  mapped : done = true → ∀ virt, InRegion virtStart size virt →
    walk after.mem half root virt =
      some { address := physStart.toNat + (virt.toNat - virtStart.toNat)
             attributes := flags &&& attributeMask }
  inside : done = true → MappedInside after.mem half root virtStart size
  refused : done = false →
    (∀ virt, InRegion virtStart size virt → walk before.mem half root virt = none) →
      after = before

theorem mapRegion_spec {half : Half} (ok : TreeOk source state 3 root)
    (inside : InsideHalf half virtStart size) (frames : physStart.toNat + size.toNat ≤ 2 ^ 48)
    (h : mapRegion source root state virtStart physStart size attrs attrIdx =
      some (state', done)) :
    RegionMapped source half root virtStart physStart size (attrs ||| attrIdx <<< 2) state
      state' done := by
  rcases mapRegion_cases ok h with ⟨rfl, rfl, -⟩ | ⟨cursor, spec⟩
  · exact ⟨Within.refl ok, fun _ _ _ => rfl, nofun, nofun, fun _ _ => rfl⟩
  refine ⟨spec.within, fun virt hvirt hnot => ?_, fun hdone virt hin => ?_,
    fun hdone virt hin => ?_, fun hfailed free => ?_⟩
  · exact spec.progress.outside fun hin => hnot ((inRegion_iff inside hvirt).mpr hin)
  · have hvirt := hin.contains inside
    rw [walk, if_pos hvirt, spec.mapped hdone frames virt ((inRegion_iff inside hvirt).mp hin),
      position_sub inside hin]
  · have hvirt := hin.contains inside
    have hrange := (inRegion_iff inside hvirt).mp hin
    have hmapped := spec.mapped hdone frames virt hrange
    obtain ⟨leaf, hleaf, -⟩ := Option.map_eq_some_iff.mp hmapped
    exact ⟨leaf, hleaf, (spec.pages hdone virt hrange leaf hleaf).imp_right
      (blockInside_of_entryInside inside hvirt)⟩
  · have hdone := spec.done_of_free inside free
    rw [hfailed] at hdone
    cases hdone

/-- **`map_region` maps its range and nothing else.**  If it returns true, every
address of the range translates to its offset into the physical range, with the
attributes and the attribute index asked for, and every other address translates
as before. -/
theorem mapRegion_maps {source : TableSource σ} {half : Half} {root : Page}
    {state state' : TableState σ} {virtStart physStart size attrs attrIdx : U64}
    (ok : TreeOk source state 3 root) (inside : InsideHalf half virtStart size)
    (frames : physStart.toNat + size.toNat ≤ 2 ^ 48)
    (h : mapRegion source root state virtStart physStart size attrs attrIdx =
      some (state', true)) :
    (∀ virt, InRegion virtStart size virt →
      walk state'.mem half root virt =
        some { address := physStart.toNat + (virt.toNat - virtStart.toNat)
               attributes := (attrs ||| attrIdx <<< 2) &&& attributeMask }) ∧
      ∀ virt, ¬ InRegion virtStart size virt →
        walk state'.mem half root virt = walk state.mem half root virt := by
  have spec := mapRegion_spec ok inside frames h
  exact ⟨spec.mapped rfl, fun virt hnot => walk_congr fun hvirt => spec.outside virt hvirt hnot⟩

/-- An empty root table, and `0x202000` bytes from `0x5FF000` on: a page up to the next
2 MiB boundary, a block, and a page again. -/
theorem mapRegion_maps_mixed :
    ∃ state', mapRegion TableSource.pool 1 (TableState.empty samplePool)
        0x5FF000 0x3FF000 0x202000 0x440 1 = some (state', true) ∧
      (∀ virt, InRegion 0x5FF000 0x202000 virt →
        walk state'.mem .lower 1 virt =
          some { address := 0x3FF000 + (virt.toNat - 0x5FF000), attributes := 0x444 }) ∧
        ∀ virt, ¬ InRegion 0x5FF000 0x202000 virt → walk state'.mem .lower 1 virt = none := by
  have hdone : (mapRegion TableSource.pool 1 (TableState.empty samplePool)
      0x5FF000 0x3FF000 0x202000 0x440 1).map Prod.snd = some true := by decide +kernel
  obtain ⟨⟨state', done⟩, hmap, rfl⟩ := Option.map_eq_some_iff.mp hdone
  have inside : InsideHalf .lower 0x5FF000 0x202000 := ⟨by decide, by decide⟩
  obtain ⟨mapped, outside⟩ := mapRegion_maps (TreeOk.samplePool) inside (by decide) hmap
  exact ⟨state', hmap, mapped, fun virt hnot => (outside virt hnot).trans (walk_empty _ _ _ _)⟩

end BekOS
