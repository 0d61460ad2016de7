import BekOS.Lib.Bitmap
import Mathlib.Data.Nat.Bitwise

/-!
# `bek::bitset_view`

A view of `length` bits in a byte memory.  `ASSERT`s and `VERIFY`s that fail are
`none`, and so is a search that does not come to an end.  `set_range` and
`get_region_size` go through whole bytes where they can; the first of the two
tests `end & 8` where it means to align the end, so that it may write past it:
`rangeEnd` is where it really stops.
-/

namespace BekOS

open Function

/-- `align_up`. -/
def alignUpTo (a alignment : ℕ) : ℕ := (a + alignment - 1) / alignment * alignment

/-- The view: where its bytes begin, and its length in bits. -/
structure BitsetView where
  data : ℕ
  length : ℕ
  deriving DecidableEq, Repr

namespace BitsetView

variable (view : BitsetView)

/-! ## The functions -/

/-- `get` -/
def get (mem : Memory Byte) (index : ℕ) : Option Bool :=
  if index < view.length then some (testBit mem view.data index) else none

/-- `set` -/
def set (mem : Memory Byte) (index : ℕ) (val : Bool) : Option (Memory Byte) :=
  if index < view.length then some (setBit mem view.data index val) else none

/-- A byte of equal bits. -/
def fullByte (val : Bool) : Byte := if val then 0xFF else 0x00

/-- The first loop of `set_range`: the bits up to a byte boundary.  In each of
the loops the first argument is the number of bits between `start` and `end`. -/
def alignStart (val : Bool) : ℕ → ℕ → Memory Byte → Option (ℕ × Memory Byte)
  | 0, start, mem => some (start, mem)
  | left + 1, start, mem =>
      if start % 8 ≠ 0 then
        (view.set mem start val).bind fun mem => alignStart val left (start + 1) mem
      else some (start, mem)

/-- The second loop of `set_range`: bits from the end back. -/
def alignEnd (val : Bool) : ℕ → ℕ → Memory Byte → Option (ℕ × Memory Byte)
  | 0, last, mem => some (last, mem)
  | left + 1, last, mem =>
      if last &&& 8 ≠ 0 then
        (view.set mem (last - 1) val).bind fun mem => alignEnd val left (last - 1) mem
      else some (last, mem)

/-- The third loop of `set_range`: whole bytes. -/
def fillBytes (val : Bool) (last : ℕ) : ℕ → ℕ → Memory Byte → Memory Byte
  | 0, _, mem => mem
  | left + 1, start, mem =>
      if start < last then
        fillBytes val last left (start + 8)
          (update mem (view.data + start / 8) (fullByte val))
      else mem

/-- `set_range` -/
def setRange (mem : Memory Byte) (start count : ℕ) (val : Bool) : Option (Memory Byte) :=
  if start + count < view.length then
    (view.alignStart val count start mem).bind fun begun =>
      (view.alignEnd val (start + count - begun.1) (start + count) begun.2).map fun ended =>
        view.fillBytes val ended.1 (ended.1 - begun.1) begun.1 ended.2
  else none

/-- The first loop of `get_region_size`: where it got to, and whether it ceased
at a bit of the other value. -/
def scanStart (mem : Memory Byte) (val : Bool) : ℕ → ℕ → ℕ × Bool
  | 0, start => (start, false)
  | left + 1, start =>
      if start % 8 ≠ 0 then
        if testBit mem view.data start != val then (start, true)
        else scanStart mem val left (start + 1)
      else (start, false)

/-- The second loop of `get_region_size`, over whole bytes. -/
def scanBytes (mem : Memory Byte) (val : Bool) (alignedEnd : ℕ) : ℕ → ℕ → ℕ
  | 0, start => start
  | left + 1, start =>
      if start < alignedEnd ∧ mem (view.data + start / 8) = fullByte val then
        scanBytes mem val alignedEnd left (start + 8)
      else start

/-- The third loop of `get_region_size`, over the bits that are left. -/
def scanEnd (mem : Memory Byte) (val : Bool) : ℕ → ℕ → ℕ
  | 0, start => start
  | left + 1, start =>
      if testBit mem view.data start != val then start
      else scanEnd mem val left (start + 1)

/-- `get_region_size`, for a start inside the view. -/
def getRegionSize (mem : Memory Byte) (startIndex : ℕ) (val : Bool) (maxSize : ℕ) : ℕ :=
  let last := startIndex + min maxSize (view.length - startIndex)
  let begun := view.scanStart mem val (last - startIndex) startIndex
  if begun.2 then begun.1 - startIndex
  else
    let start := view.scanBytes mem val (last / 8 * 8) (last - begun.1) begun.1
    view.scanEnd mem val (last - start) start - startIndex

/-- `fit_result_t` -/
structure FitResult where
  index : ℕ
  size : ℕ
  deriving DecidableEq, Repr

/-- `is_invalid` -/
def FitResult.isInvalid (result : FitResult) : Bool := result.index == 0 && result.size == 0

/-- The `max_size` of calls that name none. -/
def unlimited : ℕ := 0xFFFFFFFFFFFFFFFF

/-- The loop of `find_first_fit`, for at most `fuel` regions. -/
def fitFrom (mem : Memory Byte) (length : ℕ) (val : Bool) (alignment maxSize : ℕ) :
    ℕ → ℕ → Option FitResult
  | fuel, startIndex =>
      if startIndex < view.length then
        match fuel with
        | 0 => none
        | fuel + 1 =>
            if testBit mem view.data startIndex == val then
              let regionSize := view.getRegionSize mem startIndex val maxSize
              if regionSize ≥ length then some { index := startIndex, size := regionSize }
              else fitFrom mem length val alignment maxSize fuel (startIndex + regionSize)
            else
              let badRegionSize :=
                alignUpTo (view.getRegionSize mem startIndex (!val) unlimited) alignment
              fitFrom mem length val alignment maxSize fuel (startIndex + badRegionSize)
      else some { index := 0, size := 0 }

/-- `find_first_fit` -/
def findFirstFit (mem : Memory Byte) (length : ℕ) (val : Bool) (hint alignment alignmentOffset
    maxSize : ℕ) : Option FitResult :=
  if alignmentOffset < alignment then
    view.fitFrom mem length val alignment maxSize view.length
      (alignUpTo (hint + alignmentOffset) alignment - alignmentOffset)
  else none

/-! ## `set_range` -/

section SetRange

variable {view} {mem : Memory Byte} {val : Bool}

/-- The bits of `mem'` are those of `mem`, but for `[start, last)`, which are `val`. -/
def Fills (view : BitsetView) (mem mem' : Memory Byte) (start last : ℕ) (val : Bool) : Prop :=
  ∀ j, testBit mem' view.data j =
    if start ≤ j ∧ j < last then val else testBit mem view.data j

theorem Fills.refl (mem : Memory Byte) (start : ℕ) : view.Fills mem mem start start val :=
  fun j => (if_neg (by omega)).symm

theorem Fills.append {mem' mem'' : Memory Byte} {a b c d : ℕ} (h : view.Fills mem mem' a b val)
    (h' : view.Fills mem' mem'' c d val) (hleft : c ≤ b) (hright : a ≤ d) :
    view.Fills mem mem'' (min a c) (max b d) val := by
  intro j
  rw [h' j, h j]
  by_cases hj : min a c ≤ j ∧ j < max b d
  · rw [if_pos hj]
    by_cases hlast : c ≤ j ∧ j < d
    · rw [if_pos hlast]
    · rw [if_neg hlast, if_pos (by omega)]
  · rw [if_neg hj, if_neg (by omega), if_neg (by omega)]

theorem Fills.set {mem' : Memory Byte} {index : ℕ} (h : view.set mem index val = some mem') :
    view.Fills mem mem' index (index + 1) val := by
  unfold BitsetView.set at h
  split_ifs at h
  cases h
  intro j
  by_cases hj : j = index
  · subst hj
    rw [testBit_setBit_self, if_pos (by omega)]
  · rw [testBit_setBit_ne hj, if_neg (by omega)]

theorem getLsbD_fullByte (val : Bool) : ∀ bit < 8, (fullByte val).getLsbD bit = val := by
  cases val <;> decide

theorem Fills.byte {start : ℕ} (hstart : start % 8 = 0) :
    view.Fills mem (update mem (view.data + start / 8) (fullByte val)) start
      (start + 8) val := by
  intro j
  by_cases hj : start ≤ j ∧ j < start + 8
  · have hbyte : j / 8 = start / 8 := by omega
    have hlt : j % 8 < 8 := Nat.mod_lt _ (by decide)
    rw [if_pos hj, testBit_eq_getLsbD, hbyte, update_self]
    exact getLsbD_fullByte val (j % 8) hlt
  · rw [if_neg hj]
    exact testBit_congr (update_of_ne (by omega) _ _)

theorem alignStart_spec :
    ∀ {left start : ℕ} {mem : Memory Byte} {begun : ℕ × Memory Byte},
      view.alignStart val left start mem = some begun →
        start ≤ begun.1 ∧ begun.1 ≤ start + left ∧
          begun.1 = min (start + left) ((start + 7) / 8 * 8) ∧
            view.Fills mem begun.2 start begun.1 val := by
  intro left
  induction left with
  | zero =>
      intro start mem begun h
      cases h
      exact ⟨le_rfl, le_rfl, by omega, Fills.refl mem start⟩
  | succ left ih =>
      intro start mem begun h
      unfold alignStart at h
      split_ifs at h with hunaligned
      · obtain ⟨mem', hset, hrest⟩ := Option.bind_eq_some_iff.mp h
        obtain ⟨hlow, hhigh, hend, hfills⟩ := ih hrest
        have hboth := (Fills.set hset).append hfills le_rfl (by omega)
        rw [Nat.min_eq_left (by omega), Nat.max_eq_right hlow] at hboth
        exact ⟨by omega, by omega, by omega, hboth⟩
      · cases h
        exact ⟨le_rfl, by omega, by omega, Fills.refl mem start⟩

theorem and_eight_ne_zero (n : ℕ) : n &&& 8 ≠ 0 ↔ 8 ≤ n % 16 := by
  have hand := Nat.and_two_pow n 3
  rw [Nat.testBit_eq_decide_div_mod_eq] at hand
  have hpow : (2 : ℕ) ^ 3 = 8 := rfl
  rw [hpow] at hand
  rw [hand]
  by_cases hbit : n / 8 % 2 = 1
  · simp [hbit]
    omega
  · simp [hbit]
    omega

theorem alignEnd_spec :
    ∀ {left last : ℕ} {mem : Memory Byte} {ended : ℕ × Memory Byte}, left ≤ last →
      view.alignEnd val left last mem = some ended →
        ended.1 = (if 8 ≤ last % 16 then max (last - left) (last / 16 * 16 + 7) else last) ∧
          view.Fills mem ended.2 ended.1 last val := by
  intro left
  induction left with
  | zero =>
      intro last mem ended _ h
      cases h
      refine ⟨?_, Fills.refl mem last⟩
      dsimp only
      split_ifs <;> omega
  | succ left ih =>
      intro last mem ended hle h
      unfold alignEnd at h
      split_ifs at h with hbit
      · obtain ⟨mem', hset, hrest⟩ := Option.bind_eq_some_iff.mp h
        obtain ⟨hend, hfills⟩ := ih (by omega) hrest
        rw [and_eight_ne_zero] at hbit
        have hended : ended.1 = max (last - (left + 1)) (last / 16 * 16 + 7) := by
          rw [hend]
          split_ifs <;> omega
        have hboth := (Fills.set hset).append hfills (by omega) (by omega)
        rw [Nat.min_eq_right (by omega), Nat.max_eq_left (by omega)] at hboth
        rw [if_pos hbit, hended]
        rw [hended] at hboth
        refine ⟨rfl, ?_⟩
        rwa [Nat.sub_add_cancel (by omega)] at hboth
      · cases h
        rw [and_eight_ne_zero] at hbit
        rw [if_neg hbit]
        exact ⟨rfl, Fills.refl mem last⟩

theorem fillBytes_spec :
    ∀ (left start last : ℕ) (mem : Memory Byte), last - start ≤ left →
      (start % 8 = 0 ∨ last ≤ start) →
        view.Fills mem (view.fillBytes val last left start mem) start
          (if start < last then (last + 7) / 8 * 8 else start) val := by
  intro left
  induction left with
  | zero =>
      intro start last mem hleft _
      unfold fillBytes
      rw [if_neg (by omega)]
      exact Fills.refl mem start
  | succ left ih =>
      intro start last mem hleft haligned
      unfold fillBytes
      by_cases hlt : start < last
      · rw [if_pos hlt, if_pos hlt]
        have hstart : start % 8 = 0 := haligned.resolve_right (by omega)
        have hrest := ih (start + 8) last
          (update mem (view.data + start / 8) (fullByte val)) (by omega)
          (Or.inl (by omega))
        have hboth := (Fills.byte hstart).append hrest le_rfl (by split_ifs <;> omega)
        rw [Nat.min_eq_left (by omega)] at hboth
        have hmax : max (start + 8) (if start + 8 < last then (last + 7) / 8 * 8 else start + 8) =
            (last + 7) / 8 * 8 := by
          split_ifs <;> omega
        rwa [hmax] at hboth
      · rw [if_neg hlt, if_neg hlt]
        exact Fills.refl mem start

/-- Where a `set_range` really stops writing.  An end that lies in the first half
of sixteen bits is not aligned by the second loop, and the third one fills its
whole byte. -/
def rangeEnd (start last : ℕ) : ℕ :=
  if last % 16 ≠ 0 ∧ last % 16 < 8 ∧ (start + 7) / 8 * 8 < last then (last + 7) / 8 * 8
  else last

theorem le_rangeEnd (start last : ℕ) : last ≤ rangeEnd start last := by
  unfold rangeEnd
  split_ifs <;> omega

/-- **What `set_range` sets**: from the start to `rangeEnd`. -/
theorem setRange_spec {start count : ℕ} {mem' : Memory Byte}
    (h : view.setRange mem start count val = some mem') :
    start + count < view.length ∧
      view.Fills mem mem' start (rangeEnd start (start + count)) val := by
  unfold setRange at h
  split_ifs at h with hlength
  obtain ⟨begun, hbegun, hrest⟩ := Option.bind_eq_some_iff.mp h
  obtain ⟨ended, hended, rfl⟩ := Option.map_eq_some_iff.mp hrest
  obtain ⟨hlow, hhigh, hstart, hfills⟩ := alignStart_spec hbegun
  obtain ⟨hlast, hfills'⟩ := alignEnd_spec (by omega) hended
  have hfills'' := @fillBytes_spec view val (ended.1 - begun.1) begun.1 ended.1 ended.2 le_rfl (by
      split_ifs at hlast <;> omega)
  refine ⟨hlength, fun j => ?_⟩
  rw [hfills'' j, hfills' j, hfills j]
  unfold rangeEnd
  -- The three pieces overlap or meet: each bit of the range is in one of them.
  split_ifs at hlast ⊢ <;> first | rfl | (exfalso; omega)

theorem alignStart_some : ∀ {left start : ℕ} (mem : Memory Byte), start + left ≤ view.length →
    ∃ begun, view.alignStart val left start mem = some begun := by
  intro left
  induction left with
  | zero => exact fun mem _ => ⟨_, rfl⟩
  | succ left ih =>
      intro start mem hend
      unfold alignStart
      split_ifs with hunaligned
      · rw [BitsetView.set, if_pos (by omega), Option.bind_some]
        exact ih _ (by omega)
      · exact ⟨_, rfl⟩

theorem alignEnd_some : ∀ {left last : ℕ} (mem : Memory Byte), left ≤ last → last ≤ view.length →
    ∃ ended, view.alignEnd val left last mem = some ended := by
  intro left
  induction left with
  | zero => exact fun mem _ _ => ⟨_, rfl⟩
  | succ left ih =>
      intro last mem hle hend
      unfold alignEnd
      split_ifs with hbit
      · rw [BitsetView.set, if_pos (by omega), Option.bind_some]
        exact ih _ (by omega) (by omega)
      · exact ⟨_, rfl⟩

/-- **`set_range` passes its checks** if its range ends before the last bit. -/
theorem setRange_some {start count : ℕ} (mem : Memory Byte) (h : start + count < view.length) :
    ∃ mem', view.setRange mem start count val = some mem' := by
  obtain ⟨begun, hbegun⟩ := @alignStart_some view val count start mem h.le
  obtain ⟨hlow, hhigh, -, -⟩ := alignStart_spec hbegun
  obtain ⟨ended, hended⟩ :=
    @alignEnd_some view val (start + count - begun.1) (start + count) begun.2 (by omega) h.le
  rw [setRange, if_pos h, hbegun, Option.bind_some, hended]
  exact ⟨_, rfl⟩

end SetRange

/-! ## `get_region_size` and `find_first_fit` -/

section Search

variable {view} {mem : Memory Byte} {val : Bool}

/-- The bits of `[start, last)` are `val`. -/
def Uniform (view : BitsetView) (mem : Memory Byte) (val : Bool) (start last : ℕ) : Prop :=
  ∀ j, start ≤ j → j < last → testBit mem view.data j = val

theorem Uniform.append {a b c : ℕ} (h : view.Uniform mem val a b) (h' : view.Uniform mem val b c) :
    view.Uniform mem val a c := fun j hlow hhigh => by
  by_cases hj : j < b
  · exact h j hlow hj
  · exact h' j (by omega) hhigh

theorem Uniform.single {j : ℕ} (h : testBit mem view.data j = val) :
    view.Uniform mem val j (j + 1) := fun i hlow hhigh => by
  obtain rfl : i = j := by omega
  exact h

theorem scanStart_spec :
    ∀ left start : ℕ, start ≤ (view.scanStart mem val left start).1 ∧
      (view.scanStart mem val left start).1 ≤ start + left ∧
      view.Uniform mem val start (view.scanStart mem val left start).1 ∧
      ((view.scanStart mem val left start).2 = true →
        (view.scanStart mem val left start).1 < start + left ∧
          testBit mem view.data (view.scanStart mem val left start).1 ≠ val) ∧
      ((view.scanStart mem val left start).2 = false →
        (view.scanStart mem val left start).1 % 8 = 0 ∨
          (view.scanStart mem val left start).1 = start + left) := by
  intro left
  induction left with
  | zero =>
      intro start
      unfold scanStart
      exact ⟨le_rfl, le_rfl, fun j _ _ => by omega, nofun, fun _ => Or.inr rfl⟩
  | succ left ih =>
      intro start
      unfold scanStart
      split_ifs with hunaligned hbit
      · exact ⟨le_rfl, by omega, fun j _ _ => by omega, fun _ => ⟨by omega, by simpa using hbit⟩,
          nofun⟩
      · obtain ⟨hlow, hhigh, huniform, hceased, haligned⟩ := ih (start + 1)
        have hbit' : testBit mem view.data start = val := by simpa using hbit
        refine ⟨by omega, by omega, (Uniform.single hbit').append huniform, fun h => ?_,
          fun h => ?_⟩
        · obtain ⟨hlt, hne⟩ := hceased h
          exact ⟨by omega, hne⟩
        · exact (haligned h).imp_right fun heq => by omega
      · exact ⟨le_rfl, by omega, fun j _ _ => by omega, nofun, fun _ => Or.inl (by omega)⟩

theorem scanBytes_spec {alignedEnd : ℕ} (hend : alignedEnd % 8 = 0) :
    ∀ left start : ℕ, (start % 8 = 0 ∨ alignedEnd ≤ start) →
      start ≤ view.scanBytes mem val alignedEnd left start ∧
      (view.scanBytes mem val alignedEnd left start ≤ max start alignedEnd) ∧
      view.Uniform mem val start (view.scanBytes mem val alignedEnd left start) := by
  intro left
  induction left with
  | zero =>
      intro start _
      unfold scanBytes
      exact ⟨le_rfl, le_max_left _ _, fun j _ _ => by omega⟩
  | succ left ih =>
      intro start haligned
      unfold scanBytes
      split_ifs with hbyte
      · obtain ⟨hlt, hfull⟩ := hbyte
        have hstart := haligned.resolve_right (by omega)
        obtain ⟨hlow, hhigh, huniform⟩ := ih (start + 8) (Or.inl (by omega))
        refine ⟨by omega, by omega, Uniform.append (fun j hj hj' => ?_) huniform⟩
        rw [testBit_eq_getLsbD, show j / 8 = start / 8 by omega, hfull]
        exact getLsbD_fullByte val (j % 8) (Nat.mod_lt _ (by decide))
      · exact ⟨le_rfl, le_max_left _ _, fun j _ _ => by omega⟩

theorem scanEnd_spec :
    ∀ left start : ℕ, start ≤ view.scanEnd mem val left start ∧
      view.scanEnd mem val left start ≤ start + left ∧
      view.Uniform mem val start (view.scanEnd mem val left start) ∧
      (view.scanEnd mem val left start < start + left →
        testBit mem view.data (view.scanEnd mem val left start) ≠ val) := by
  intro left
  induction left with
  | zero =>
      intro start
      unfold scanEnd
      exact ⟨le_rfl, le_rfl, fun j _ _ => by omega, fun h => by omega⟩
  | succ left ih =>
      intro start
      unfold scanEnd
      split_ifs with hbit
      · exact ⟨le_rfl, by omega, fun j _ _ => by omega, fun _ => by simpa using hbit⟩
      · obtain ⟨hlow, hhigh, huniform, hceased⟩ := ih (start + 1)
        have hbit' : testBit mem view.data start = val := by simpa using hbit
        exact ⟨by omega, by omega, (Uniform.single hbit').append huniform,
          fun h => hceased (by omega)⟩

/-- **`get_region_size`** is the number of bits from the start on that have the
value, counted up to the cap and the end of the view. -/
theorem getRegionSize_spec (mem : Memory Byte) (val : Bool) (startIndex maxSize : ℕ) :
    view.getRegionSize mem startIndex val maxSize ≤ min maxSize (view.length - startIndex) ∧
      view.Uniform mem val startIndex
        (startIndex + view.getRegionSize mem startIndex val maxSize) ∧
      (view.getRegionSize mem startIndex val maxSize < min maxSize (view.length - startIndex) →
        testBit mem view.data (startIndex + view.getRegionSize mem startIndex val maxSize) ≠
          val) := by
  unfold getRegionSize
  dsimp only
  rw [Nat.add_sub_cancel_left]
  generalize min maxSize (view.length - startIndex) = span
  obtain ⟨hlow, hhigh, huniform, hceased, haligned⟩ :=
    @scanStart_spec view mem val span startIndex
  generalize view.scanStart mem val span startIndex = begun at *
  split_ifs with hbegun
  · obtain ⟨hlt, hne⟩ := hceased hbegun
    rw [Nat.add_sub_cancel' hlow]
    exact ⟨by omega, huniform, fun _ => hne⟩
  · have hplace := haligned (Bool.eq_false_iff.mpr hbegun)
    obtain ⟨hlow', hhigh', huniform'⟩ := @scanBytes_spec view mem val ((startIndex + span) / 8 * 8)
      (by omega) (startIndex + span - begun.1) begun.1 (hplace.imp_right fun h => by omega)
    generalize view.scanBytes mem val ((startIndex + span) / 8 * 8) (startIndex + span - begun.1)
      begun.1 = middle at *
    obtain ⟨hlow'', hhigh'', huniform'', hceased''⟩ := @scanEnd_spec view mem val
      (startIndex + span - middle) middle
    generalize view.scanEnd mem val (startIndex + span - middle) middle = last at *
    rw [Nat.add_sub_cancel' (by omega)]
    exact ⟨by omega, (huniform.append huniform').append huniform'', fun h => hceased'' (by omega)⟩

/-- **What `find_first_fit` finds** is long enough, inside the view, and all of
the value. -/
theorem fitFrom_spec {length alignment maxSize : ℕ} :
    ∀ {fuel startIndex : ℕ} {result : FitResult},
      view.fitFrom mem length val alignment maxSize fuel startIndex = some result →
        result = { index := 0, size := 0 } ∨
          result.index < view.length ∧ length ≤ result.size ∧
            result.index + result.size ≤ view.length ∧
            view.Uniform mem val result.index (result.index + result.size) := by
  intro fuel
  induction fuel with
  | zero =>
      intro startIndex result h
      unfold fitFrom at h
      split_ifs at h
      cases h
      exact Or.inl rfl
  | succ fuel ih =>
      intro startIndex result h
      unfold fitFrom at h
      dsimp only at h
      split_ifs at h with hlt hbit hfits
      · cases h
        obtain ⟨hsize, huniform, -⟩ :=
          @getRegionSize_spec view mem val startIndex maxSize
        exact Or.inr ⟨hlt, hfits, by dsimp only; omega, huniform⟩
      · exact ih h
      · exact ih h
      · cases h
        exact Or.inl rfl

/-- The search passes over no region of the value that is too small and whose
size is not a multiple of the alignment: past such a region it goes on at places
that are not aligned. -/
def staysAligned (view : BitsetView) (mem : Memory Byte) (length : ℕ) (val : Bool)
    (alignment maxSize : ℕ) : ℕ → ℕ → Bool
  | 0, _ => true
  | fuel + 1, startIndex =>
      if startIndex < view.length then
        if testBit mem view.data startIndex == val then
          let regionSize := view.getRegionSize mem startIndex val maxSize
          regionSize ≥ length ||
            regionSize % alignment == 0 &&
              staysAligned view mem length val alignment maxSize fuel (startIndex + regionSize)
        else
          staysAligned view mem length val alignment maxSize fuel
            (startIndex +
              alignUpTo (view.getRegionSize mem startIndex (!val) unlimited) alignment)
      else true

theorem fitFrom_aligned {length alignment maxSize alignmentOffset : ℕ} :
    ∀ {fuel startIndex : ℕ} {result : FitResult},
      view.fitFrom mem length val alignment maxSize fuel startIndex = some result →
      view.staysAligned mem length val alignment maxSize fuel startIndex = true →
      (startIndex + alignmentOffset) % alignment = 0 →
        result = { index := 0, size := 0 } ∨ (result.index + alignmentOffset) % alignment = 0 := by
  intro fuel
  induction fuel with
  | zero =>
      intro startIndex result h _ _
      unfold fitFrom at h
      split_ifs at h
      cases h
      exact Or.inl rfl
  | succ fuel ih =>
      intro startIndex result h hstays haligned
      unfold fitFrom at h
      unfold staysAligned at hstays
      dsimp only at h hstays
      split_ifs at h hstays with hlt hbit hfits
      · cases h
        exact Or.inr haligned
      · simp only [Bool.or_eq_true, decide_eq_true_eq, Bool.and_eq_true, beq_iff_eq] at hstays
        obtain ⟨hmultiple, hrest⟩ := hstays.resolve_left hfits
        refine ih h hrest ?_
        rw [Nat.add_right_comm, Nat.add_mod, haligned, hmultiple]
        simp
      · refine ih h hstays ?_
        rw [Nat.add_right_comm, Nat.add_mod, haligned]
        unfold alignUpTo
        simp
      · cases h
        exact Or.inl rfl

end Search

end BitsetView

end BekOS
