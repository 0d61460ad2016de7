import BekOS.Arch.TableTree
import BekOS.Lib.Strides

/-!
# Positions and ranges below a table

A table at some height covers a span of addresses; `position` is where an address
stands in that span.  A walk depends on the position only, and a range of
positions (`InRange`) splits into its part in the first entry it touches and the
rest (`inRange_iff`).

For the whole address space, `InRegion` is the range of addresses itself.  Inside
one half it is a range of positions of the half's root (`inRegion_iff`).
-/

namespace BekOS

open BitField Strides

/-! ## Positions -/

/-- The position of an address in the range a table at the given height covers. -/
def position (height : ℕ) (virt : U64) : ℕ := virt.toNat % 2 ^ shifts (height + 1)

theorem two_pow_shifts_zero : 2 ^ shifts 0 = 4096 := rfl

theorem two_pow_shifts_succ (height : ℕ) :
    2 ^ shifts (height + 1) = 2 ^ shifts height * 512 := by
  unfold shifts
  rw [show 12 + 9 * (height + 1) = 12 + 9 * height + 9 by omega, Nat.pow_add]

theorem two_pow_shifts_pos (height : ℕ) : 0 < 2 ^ shifts height := Nat.two_pow_pos _

theorem position_eq (height : ℕ) (virt : U64) :
    position height virt =
      tableIndex height virt * 2 ^ shifts height + virt.toNat % 2 ^ shifts height := by
  rw [position, two_pow_shifts_succ, mod_mul_eq, tableIndex_eq]

variable {height below i a n k : ℕ} {mem : TableMemory} {virt virt' : U64}

theorem two_pow_shifts_dvd (h : height ≤ 3) : 2 ^ shifts height ∣ 2 ^ 64 :=
  Nat.pow_dvd_pow 2 (by unfold shifts; omega)

theorem toNat_ofNat_mod (h : height ≤ 3) (x : ℕ) :
    (BitVec.ofNat 64 x).toNat % 2 ^ shifts height = x % 2 ^ shifts height := by
  rw [BitVec.toNat_ofNat, Nat.mod_mod_of_dvd _ (two_pow_shifts_dvd h)]

theorem isAligned_ofNat (h : height ≤ 3) (x : ℕ) :
    isAligned height (BitVec.ofNat 64 x) = true ↔ x % 2 ^ shifts height = 0 := by
  rw [isAligned_iff h, toNat_ofNat_mod h]

theorem ofNat_sub (h : k ≤ n) :
    BitVec.ofNat 64 n - BitVec.ofNat 64 k = BitVec.ofNat 64 (n - k) := by
  obtain ⟨m, rfl⟩ := Nat.exists_eq_add_of_le h
  rw [Nat.add_sub_cancel_left, BitVec.ofNat_add, BitVec.add_comm]
  exact BitVec.add_sub_cancel _ _

theorem tableIndex_ofNat (h : height ≤ 3) (x : ℕ) :
    tableIndex height (BitVec.ofNat 64 x) * 2 ^ shifts height + x % 2 ^ shifts height =
      x % (2 ^ shifts height * 512) := by
  have hpow := two_pow_shifts_succ height
  have hdvd : 2 ^ shifts height * 512 ∣ 2 ^ 64 := by
    rw [← hpow]
    exact Nat.pow_dvd_pow 2 (by unfold shifts; omega)
  rw [tableIndex_eq, ← toNat_ofNat_mod h x, ← mod_mul_eq, BitVec.toNat_ofNat,
    Nat.mod_mod_of_dvd _ hdvd]

theorem walkFrom_height_le {leaf : ℕ × U64} {table : Page}
    (h : walkFrom mem height table virt = some leaf) : leaf.1 ≤ height := by
  rw [← lastEntry_of_walkFrom h]
  exact lastEntry_height_le mem virt height table

theorem mod_shifts_le (h : below ≤ height) (virt : U64) :
    virt.toNat % 2 ^ shifts below ≤ virt.toNat % 2 ^ shifts height := by
  have hdvd : 2 ^ shifts below ∣ 2 ^ shifts height :=
    Nat.pow_dvd_pow 2 (by unfold shifts; omega)
  rw [← Nat.mod_mod_of_dvd virt.toNat hdvd]
  exact Nat.mod_le _ _

theorem mod_le_position (h : below ≤ height) (virt : U64) :
    virt.toNat % 2 ^ shifts below ≤ position height virt :=
  mod_shifts_le (h.trans (Nat.le_succ _)) virt

/-! ## Ranges of positions -/

/-- The address lies in the range of `n` positions from `start` on. -/
def InRange (height start n : ℕ) (virt : U64) : Prop :=
  start ≤ position height virt ∧ position height virt < start + n

/-- The entry at `blockHeight` that covers the address lies wholly inside the range. -/
def EntryInside (height start n blockHeight : ℕ) (virt : U64) : Prop :=
  start ≤ position height virt - virt.toNat % 2 ^ shifts blockHeight ∧
    position height virt - virt.toNat % 2 ^ shifts blockHeight + 2 ^ shifts blockHeight ≤
      start + n

/-- An entry and the one of the table below that covers the same address. -/
theorem entryInside_child_iff {blockHeight : ℕ} (hidx : tableIndex (height + 1) virt = i)
    (hle : blockHeight ≤ height + 1) :
    EntryInside (height + 1) (i * 2 ^ shifts (height + 1) + a) n blockHeight virt ↔
      EntryInside height a n blockHeight virt := by
  have hmod := mod_shifts_le hle virt
  unfold EntryInside
  rw [position_eq (height + 1), hidx, position]
  omega

/-- Of the entries that cover an address, one below is inside where one above is. -/
theorem EntryInside.of_above {height start n below above : ℕ} {virt : U64} (hle : below ≤ above)
    (htop : above ≤ height) (h : EntryInside height start n above virt) :
    EntryInside height start n below virt := by
  have hmod := mod_shifts_le hle virt
  have hposition := mod_le_position htop virt
  obtain ⟨d, hd⟩ : 2 ^ shifts below ∣ 2 ^ shifts above :=
    Nat.pow_dvd_pow 2 (by unfold shifts; omega)
  have hpos : 0 < d := Nat.pos_of_mul_pos_left (hd ▸ two_pow_shifts_pos above)
  have hlast : virt.toNat % 2 ^ shifts above - virt.toNat % 2 ^ shifts below + 2 ^ shifts below ≤
      2 ^ shifts above := by
    rw [hd, Nat.mod_mul, Nat.add_sub_cancel_left, ← Nat.mul_succ]
    exact Nat.mul_le_mul_left _ (Nat.mod_lt _ hpos)
  unfold EntryInside at h ⊢
  omega

theorem four_kib_dvd {height : ℕ} : 4096 ∣ 2 ^ shifts height := by
  rw [← two_pow_shifts_zero]
  exact Nat.pow_dvd_pow 2 (by unfold shifts; omega)

theorem inRange_iff (ha : a < 2 ^ shifts height) (virt : U64) :
    InRange height (i * 2 ^ shifts height + a) n virt ↔
      (tableIndex height virt = i ∧ a ≤ virt.toNat % 2 ^ shifts height ∧
        virt.toNat % 2 ^ shifts height < a + n) ∨
      InRange height ((i + 1) * 2 ^ shifts height)
        (n - min n (2 ^ shifts height - a)) virt := by
  unfold InRange
  rw [position_eq]
  exact range_split ha (Nat.mod_lt _ (two_pow_shifts_pos height))

theorem tableIndex_ne_of_le (hlater : (i + 1) * 2 ^ shifts height ≤ position height virt) :
    tableIndex height virt ≠ i := by
  rintro rfl
  have hposition := position_eq height virt
  have hmod := Nat.mod_lt virt.toNat (two_pow_shifts_pos height)
  rw [Nat.succ_mul] at hlater
  omega

/-- An entry behind the one that the range starts in. -/
theorem entryInside_rest_iff (ha : a < 2 ^ shifts height) (hk : k = min n (2 ^ shifts height - a))
    (hlater : (i + 1) * 2 ^ shifts height ≤ position height virt) (hle : below ≤ height) :
    EntryInside height ((i + 1) * 2 ^ shifts height) (n - k) below virt ↔
      EntryInside height (i * 2 ^ shifts height + a) n below virt := by
  have hindex : (i + 1) * 2 ^ shifts height ≤ tableIndex height virt * 2 ^ shifts height := by
    refine Nat.mul_le_mul_right _ (Nat.lt_of_mul_lt_mul_right (a := 2 ^ shifts height) ?_)
    have hposition := position_eq height virt
    have hmod := Nat.mod_lt virt.toNat (two_pow_shifts_pos height)
    rw [Nat.succ_mul] at hlater
    omega
  have hmod := mod_shifts_le hle virt
  have hposition := position_eq height virt
  have hblock := two_pow_shifts_pos below
  rw [Nat.succ_mul] at *
  unfold EntryInside
  omega

theorem consumed_pages {x : ℕ} (hx : x % 4096 = 0) (hn : n % 4096 = 0)
    (hk : k = min n (2 ^ shifts height - x % 2 ^ shifts height)) : k % 4096 = 0 := by
  have hS := Nat.mod_eq_zero_of_dvd (@four_kib_dvd height)
  have ha : x % 2 ^ shifts height % 4096 = 0 := by
    rw [Nat.mod_mod_of_dvd _ four_kib_dvd]
    exact hx
  generalize 2 ^ shifts height = S at *
  omega

theorem offset_lower {x : ℕ} (hx : x % 4096 = 0) :
    x % 2 ^ shifts 1 = tableIndex 0 (BitVec.ofNat 64 x) * 4096 := by
  have hindex := tableIndex_ofNat (show 0 ≤ 3 by omega) x
  rw [two_pow_shifts_zero, hx, Nat.add_zero] at hindex
  rw [hindex, two_pow_shifts_succ, two_pow_shifts_zero]

theorem inRange_lower : InRange 0 (i * 4096) (n * 4096) virt ↔
    i ≤ tableIndex 0 virt ∧ tableIndex 0 virt < i + n := by
  unfold InRange
  rw [position_eq, two_pow_shifts_zero, ← Nat.add_mul]
  exact entry_range (Nat.mod_lt _ (by omega))

/-! ## Walks depend on positions -/

theorem tableIndex_of_position (h : position height virt = position height virt') :
    tableIndex height virt = tableIndex height virt' := by
  have hquot : ∀ v : U64, position height v / 2 ^ shifts height = tableIndex height v := by
    intro v
    rw [position, two_pow_shifts_succ, Nat.mod_mul_right_div_self, tableIndex_eq]
  rw [← hquot, ← hquot, h]

theorem position_of_position (hle : below ≤ height + 1)
    (h : position height virt = position height virt') :
    virt.toNat % 2 ^ shifts below = virt'.toNat % 2 ^ shifts below := by
  have hdvd : 2 ^ shifts below ∣ 2 ^ shifts (height + 1) :=
    Nat.pow_dvd_pow 2 (by unfold shifts; omega)
  rw [← Nat.mod_mod_of_dvd _ hdvd, ← Nat.mod_mod_of_dvd virt'.toNat hdvd]
  exact congrArg (· % 2 ^ shifts below) h

theorem lastEntry_of_position (virt' : U64) :
    ∀ {height : ℕ} {table : Page}, position height virt = position height virt' →
      lastEntry mem height table virt = lastEntry mem height table virt' := by
  intro height
  induction height with
  | zero => exact fun h => by rw [lastEntry, lastEntry, tableIndex_of_position h]
  | succ height ih =>
      intro table h
      rw [lastEntry, lastEntry, tableIndex_of_position h]
      cases child mem table (tableIndex (height + 1) virt') with
      | none => rfl
      | some next => exact ih (position_of_position (Nat.le_succ _) h)

theorem walkFrom_of_position (virt' : U64) {table : Page}
    (h : position height virt = position height virt') :
    walkFrom mem height table virt = walkFrom mem height table virt' :=
  walkFrom_of_lastEntry (lastEntry_of_position virt' h)

theorem entryInside_of_position {start : ℕ} (hle : below ≤ height + 1)
    (h : position height virt = position height virt') :
    EntryInside height start n below virt ↔ EntryInside height start n below virt' := by
  unfold EntryInside
  rw [h, position_of_position hle h]

theorem exists_virt (hheight : height ≤ 3) {b : ℕ} (hi : i < 512) (hb : b < 2 ^ shifts height) :
    ∃ virt : U64, tableIndex height virt = i ∧ virt.toNat % 2 ^ shifts height = b ∧
      position height virt = i * 2 ^ shifts height + b := by
  have hS := two_pow_shifts_pos height
  have hspan : i * 2 ^ shifts height + b < 2 ^ shifts (height + 1) := by
    rw [two_pow_shifts_succ, Nat.mul_comm _ 512]
    have : (i + 1) * 2 ^ shifts height ≤ 512 * 2 ^ shifts height := Nat.mul_le_mul_right _ hi
    rw [Nat.succ_mul] at this
    omega
  have hword : 2 ^ shifts (height + 1) ≤ 2 ^ 64 :=
    Nat.pow_le_pow_right (by omega) (by unfold shifts; omega)
  have htoNat : (BitVec.ofNat 64 (i * 2 ^ shifts height + b)).toNat =
      i * 2 ^ shifts height + b := by
    rw [BitVec.toNat_ofNat, Nat.mod_eq_of_lt (lt_of_lt_of_le hspan hword)]
  have hmod : (i * 2 ^ shifts height + b) % 2 ^ shifts height = b := by
    rw [Nat.mul_comm, Nat.mul_add_mod, Nat.mod_eq_of_lt hb]
  refine ⟨BitVec.ofNat 64 (i * 2 ^ shifts height + b), ?_, ?_, ?_⟩
  · rw [tableIndex_eq, htoNat, Nat.mul_comm, Nat.mul_add_div hS, Nat.div_eq_of_lt hb,
      Nat.add_zero, Nat.mod_eq_of_lt hi]
  · rw [htoNat, hmod]
  · rw [position, htoNat, Nat.mod_eq_of_lt hspan]

/-- The address of a table's entry that stands where another stands in the
entry's table. -/
theorem exists_virt_above (hheight : height + 1 ≤ 3) (hi : i < 512) (virt : U64) :
    ∃ above : U64, tableIndex (height + 1) above = i ∧
      above.toNat % 2 ^ shifts (height + 1) = position height virt ∧
      position (height + 1) above = i * 2 ^ shifts (height + 1) + position height virt :=
  exists_virt hheight hi (Nat.mod_lt _ (two_pow_shifts_pos _))

/-! ## What the walks of a range end at -/

/-! ## Ranges of addresses -/

theorem and_pageOffsetMask_eq_zero (address : U64) :
    address &&& pageOffsetMask = 0 ↔ address.toNat % 4096 = 0 := by
  have := isAligned_iff (show 0 ≤ 3 by omega) address
  rwa [isAligned, beq_iff_eq, two_pow_shifts_zero] at this

/-- The address lies in the range of `size` bytes from `start` on, as integers. -/
def InRegion (start size virt : U64) : Prop :=
  start.toNat ≤ virt.toNat ∧ virt.toNat < start.toNat + size.toNat
deriving Decidable

/-- The range lies inside the half. -/
structure InsideHalf (half : Half) (start size : U64) : Prop where
  contains : half.Contains start
  fits : start.toNat % 2 ^ 48 + size.toNat ≤ 2 ^ 48

variable {half : Half} {start size : U64}

theorem inRegion_iff (inside : InsideHalf half start size) (hvirt : half.Contains virt) :
    InRegion start size virt ↔ InRange 3 (start.toNat % 2 ^ shifts 4) size.toNat virt := by
  have hstart := inside.contains
  have hfits := inside.fits
  unfold Half.Contains at hstart hvirt
  unfold InRegion InRange position
  rw [show shifts (3 + 1) = 48 from rfl]
  have := Nat.div_add_mod start.toNat (2 ^ 48)
  have := Nat.div_add_mod virt.toNat (2 ^ 48)
  omega

theorem not_inRegion_of_not_contains (inside : InsideHalf half start size)
    (hvirt : ¬ half.Contains virt) : ¬ InRegion start size virt := by
  have hstart := inside.contains
  have hfits := inside.fits
  unfold Half.Contains at hstart hvirt
  unfold InRegion
  omega

theorem position_sub (inside : InsideHalf half start size) (hin : InRegion start size virt) :
    position 3 virt - start.toNat % 2 ^ shifts 4 = virt.toNat - start.toNat := by
  have hstart := inside.contains
  have hfits := inside.fits
  unfold Half.Contains at hstart
  unfold InRegion at hin
  unfold position
  rw [show shifts (3 + 1) = 48 from rfl]
  have := Nat.div_add_mod start.toNat (2 ^ 48)
  have := Nat.div_add_mod virt.toNat (2 ^ 48)
  omega

theorem InRegion.contains {half : Half} {start size virt : U64}
    (inside : InsideHalf half start size) (hin : InRegion start size virt) :
    half.Contains virt := by
  by_contra hnot
  exact not_inRegion_of_not_contains inside hnot hin

theorem exists_virt_of_half (half : Half) (virt : U64) :
    ∃ virt', half.Contains virt' ∧ position 3 virt' = position 3 virt := by
  have htop : half.topBits < 2 ^ 16 := by cases half <;> decide
  have hmod := Nat.mod_lt virt.toNat (show 0 < 2 ^ 48 by decide)
  have htoNat : (BitVec.ofNat 64 (half.topBits * 2 ^ 48 + virt.toNat % 2 ^ 48)).toNat =
      half.topBits * 2 ^ 48 + virt.toNat % 2 ^ 48 := by
    rw [BitVec.toNat_ofNat]
    omega
  refine ⟨BitVec.ofNat 64 (half.topBits * 2 ^ 48 + virt.toNat % 2 ^ 48), ?_, ?_⟩
  · unfold Half.Contains
    omega
  · unfold position
    rw [htoNat, show shifts (3 + 1) = 48 from rfl]
    omega

theorem exists_virt_in_block (hvirt : half.Contains virt) {b : ℕ} (hheight : height ≤ 3)
    (hb : b < 2 ^ shifts height) :
    ∃ other, half.Contains other ∧
      other.toNat / 2 ^ shifts height = virt.toNat / 2 ^ shifts height ∧
      other.toNat = 2 ^ shifts height * (virt.toNat / 2 ^ shifts height) + b := by
  have htop : half.topBits < 2 ^ 16 := by cases half <;> decide
  obtain ⟨c, hc⟩ : 2 ^ shifts height ∣ 2 ^ 48 := Nat.pow_dvd_pow 2 (by unfold shifts; omega)
  have hS := two_pow_shifts_pos height
  set q := virt.toNat / 2 ^ shifts height with hq
  have hquot : (2 ^ shifts height * q + b) / 2 ^ shifts height = q := by
    rw [Nat.mul_add_div hS, Nat.div_eq_of_lt hb, Nat.add_zero]
  have hhalf : (2 ^ shifts height * q + b) / 2 ^ 48 = half.topBits := by
    unfold Half.Contains at hvirt
    rw [← hvirt, hc, ← Nat.div_div_eq_div_mul, ← Nat.div_div_eq_div_mul, hquot]
  have htoNat : (BitVec.ofNat 64 (2 ^ shifts height * q + b)).toNat = 2 ^ shifts height * q + b := by
    rw [BitVec.toNat_ofNat]
    omega
  exact ⟨BitVec.ofNat 64 (2 ^ shifts height * q + b), by rwa [Half.Contains, htoNat],
    by rwa [htoNat], htoNat⟩

/-! ## Walks and regions -/

/-- The entry of the given height that covers the address lies wholly inside the
range of addresses. -/
def BlockInside (half : Half) (start size : U64) (height : ℕ) (virt : U64) : Prop :=
  ∀ other, half.Contains other →
    other.toNat / 2 ^ shifts height = virt.toNat / 2 ^ shifts height → InRegion start size other

/-- Every walk of the range ends, at a page or at a block inside the range. -/
def MappedInside (mem : TableMemory) (half : Half) (root : Page) (start size : U64) : Prop :=
  ∀ virt, InRegion start size virt → ∃ leaf, walkFrom mem 3 root virt = some leaf ∧
    (leaf.1 = 0 ∨ BlockInside half start size leaf.1 virt)

theorem blockInside_of_entryInside (inside : InsideHalf half start size)
    (hvirt : half.Contains virt)
    (hinside : EntryInside 3 (start.toNat % 2 ^ shifts 4) size.toNat height virt) :
    BlockInside half start size height virt := by
  intro other hother hsame
  rw [inRegion_iff inside hother]
  -- Both addresses are offsets into one block.
  have hself := Nat.div_add_mod virt.toNat (2 ^ shifts height)
  have hoff := Nat.div_add_mod other.toNat (2 ^ shifts height)
  have hlt := Nat.mod_lt other.toNat (two_pow_shifts_pos height)
  rw [hsame] at hoff
  unfold Half.Contains at hvirt hother
  unfold EntryInside at hinside
  unfold InRange
  unfold position at *
  rw [show shifts (3 + 1) = 48 from rfl] at *
  omega

theorem entryInside_of_blockInside (inside : InsideHalf half start size)
    (hvirt : half.Contains virt) (hheight : height ≤ 3)
    (hinside : BlockInside half start size height virt) :
    EntryInside 3 (start.toNat % 2 ^ shifts 4) size.toNat height virt := by
  have hblock := two_pow_shifts_pos height
  obtain ⟨first, hfirst, hsame, hfirstNat⟩ := exists_virt_in_block hvirt hheight hblock
  obtain ⟨last, hlast, hsame', hlastNat⟩ := exists_virt_in_block hvirt hheight
    (show 2 ^ shifts height - 1 < 2 ^ shifts height by omega)
  have hlow := (inRegion_iff inside hfirst).mp (hinside first hfirst hsame)
  have hhigh := (inRegion_iff inside hlast).mp (hinside last hlast hsame')
  have hself := Nat.div_add_mod virt.toNat (2 ^ shifts height)
  unfold Half.Contains at hvirt hfirst hlast
  unfold InRange at hlow hhigh
  unfold EntryInside
  unfold position at *
  rw [show shifts (3 + 1) = 48 from rfl] at *
  omega

theorem exists_virt_of_inRange (inside : InsideHalf half start size)
    (hrange : InRange 3 (start.toNat % 2 ^ shifts 4) size.toNat virt) :
    ∃ virt', half.Contains virt' ∧ InRegion start size virt' ∧
      position 3 virt' = position 3 virt := by
  obtain ⟨virt', hvirt', hposition⟩ := exists_virt_of_half half virt
  refine ⟨virt', hvirt', (inRegion_iff inside hvirt').mpr ?_, hposition⟩
  unfold InRange at hrange ⊢
  rwa [hposition]

theorem walk_congr {mem' : TableMemory} {root : Page}
    (h : half.Contains virt → walkFrom mem' 3 root virt = walkFrom mem 3 root virt) :
    walk mem' half root virt = walk mem half root virt := by
  unfold walk
  split_ifs with hvirt
  · exact translateFrom_congr (h hvirt)
  · rfl

end BekOS
