import BekOS.Library.Bitset

/-!
# When a bit view does what is asked of it

`set_range` fails at the last bit of a view, and writes on to the end of a byte where it misses to
align the end of its range.  `find_first_fit` goes on behind a run that is too short without
aligning its place, and rounds the length of a run of other bits up in 64 bits.  Where no such run
ends at a place that is not aligned, and no rounding up wraps around, it finds the first fit.
-/

namespace BekOS.BitsetView

variable {view : BitsetView} {mem : Memory Byte} {val : Bool}

/-! ## `set_range` -/

theorem Fills.iff_of_le {mem' : Memory Byte} {start last last' : ℕ} (hstart : start ≤ last)
    (hle : last ≤ last') (h : view.Fills mem mem' start last' val) :
    view.Fills mem mem' start last val ↔
      ∀ j, last ≤ j → j < last' → testBit mem view.data j = val := by
  constructor
  · intro hfills j hlast hlast'
    have hset := h j
    have hkept := hfills j
    rw [if_pos ⟨hstart.trans hlast, hlast'⟩] at hset
    rw [if_neg fun hin => absurd hin.2 (Nat.not_lt.mpr hlast)] at hkept
    exact hkept.symm.trans hset
  · intro hsame j
    rw [h j]
    by_cases hin : start ≤ j ∧ j < last
    · rw [if_pos hin, if_pos ⟨hin.1, hin.2.trans_le hle⟩]
    · rw [if_neg hin]
      by_cases hin' : start ≤ j ∧ j < last'
      · rw [if_pos hin', hsame j (by omega) hin'.2]
      · rw [if_neg hin']

/-- **`set_range`** sets its range, and nothing else, exactly if the range ends before the last bit
of the view and, where the end is not aligned, the bits up to the next byte have the value. -/
theorem setRange_fills_iff (view : BitsetView) (mem : Memory Byte) (start count : ℕ) (val : Bool) :
    (∃ mem', view.setRange mem start count val = some mem' ∧
        view.Fills mem mem' start (start + count) val) ↔
      start + count < view.length ∧
        ((start + count) % 16 ≠ 0 → (start + count) % 16 < 8 →
          (start + 7) / 8 * 8 < start + count →
          ∀ j, start + count ≤ j → j < (start + count + 7) / 8 * 8 →
            testBit mem view.data j = val) := by
  have hrange : (∀ j, start + count ≤ j → j < rangeEnd start (start + count) →
      testBit mem view.data j = val) ↔
      ((start + count) % 16 ≠ 0 → (start + count) % 16 < 8 →
          (start + 7) / 8 * 8 < start + count →
          ∀ j, start + count ≤ j → j < (start + count + 7) / 8 * 8 →
            testBit mem view.data j = val) := by
    unfold rangeEnd
    split_ifs with hunaligned
    · obtain ⟨hmod, hhalf, hstart⟩ := hunaligned
      exact ⟨fun h _ _ _ => h, fun h => h hmod hhalf hstart⟩
    · refine ⟨fun _ hmod hhalf hstart => absurd ⟨hmod, hhalf, hstart⟩ hunaligned,
        fun _ j hlow hhigh => absurd hhigh (Nat.not_lt.mpr hlow)⟩
  rw [← hrange]
  constructor
  · rintro ⟨mem', hdone, hfills⟩
    obtain ⟨hlength, hspec⟩ := setRange_spec hdone
    exact ⟨hlength, (hspec.iff_of_le (Nat.le_add_right ..) (le_rangeEnd ..)).mp hfills⟩
  · rintro ⟨hlength, hsame⟩
    obtain ⟨mem', hdone⟩ := @setRange_some view val start count mem hlength
    obtain ⟨-, hspec⟩ := setRange_spec hdone
    exact ⟨mem', hdone, (hspec.iff_of_le (Nat.le_add_right ..) (le_rangeEnd ..)).mpr hsame⟩

/-- Four bits at the start of an empty view: the whole byte is set. -/
theorem setRange_fails : ¬ ∀ (view : BitsetView) (mem : Memory Byte) (start count : ℕ) (val : Bool),
    start + count ≤ view.length → ∃ mem', view.setRange mem start count val = some mem' ∧
      view.Fills mem mem' start (start + count) val := by
  intro h
  obtain ⟨mem', hdone, hfills⟩ := h ⟨0, 64⟩ (fun _ => 0) 0 4 true (by decide)
  have hset := (setRange_spec hdone).2 4
  have hkept := hfills 4
  rw [if_pos (by decide)] at hset
  rw [if_neg (by decide), hset] at hkept
  exact absurd hkept (by decide)

/-! ## `find_first_fit` -/

/-- `align_up`, in 64 bits. -/
def alignUpWord (a alignment : ℕ) : ℕ := (a + alignment - 1) % 2 ^ 64 / alignment * alignment

/-- The loop of `find_first_fit`, in 64 bits. -/
def fitFromWord (view : BitsetView) (mem : Memory Byte) (length : ℕ) (val : Bool)
    (alignment maxSize : ℕ) : ℕ → ℕ → Option FitResult
  | fuel, startIndex =>
      if startIndex < view.length then
        match fuel with
        | 0 => none
        | fuel + 1 =>
            if testBit mem view.data startIndex == val then
              let regionSize := view.getRegionSize mem startIndex val maxSize
              if regionSize ≥ length then some { index := startIndex, size := regionSize }
              else fitFromWord view mem length val alignment maxSize fuel (startIndex + regionSize)
            else
              let badRegionSize :=
                alignUpWord (view.getRegionSize mem startIndex (!val) unlimited) alignment
              fitFromWord view mem length val alignment maxSize fuel
                ((startIndex + badRegionSize) % 2 ^ 64)
      else some { index := 0, size := 0 }

/-- `find_first_fit`, in 64 bits. -/
def findFirstFitWord (view : BitsetView) (mem : Memory Byte) (length : ℕ) (val : Bool)
    (hint alignment alignmentOffset maxSize : ℕ) : Option FitResult :=
  if alignmentOffset < alignment then
    view.fitFromWord mem length val alignment maxSize view.length
      ((alignUpWord ((hint + alignmentOffset) % 2 ^ 64) alignment + 2 ^ 64 - alignmentOffset) %
        2 ^ 64)
  else none

/-- So many bits of the value, from an aligned place on. -/
structure AlignedFit (view : BitsetView) (mem : Memory Byte) (length : ℕ) (val : Bool)
    (alignment offset i : ℕ) : Prop where
  aligned : (i + offset) % alignment = 0
  inside : i + length ≤ view.length
  uniform : view.Uniform mem val i (i + length)

/-- The result is the first fit, with the size of a run there, or invalid if there is none. -/
def FindsFirst (view : BitsetView) (mem : Memory Byte) (length : ℕ) (val : Bool)
    (alignment offset : ℕ) (result : Option FitResult) : Prop :=
  ∃ found, result = some found ∧
    ((view.AlignedFit mem length val alignment offset found.index ∧
        (∀ i < found.index, ¬ view.AlignedFit mem length val alignment offset i) ∧
        length ≤ found.size ∧ found.index + found.size ≤ view.length ∧
        view.Uniform mem val found.index (found.index + found.size)) ∨
      (found.isInvalid = true ∧ ∀ i, ¬ view.AlignedFit mem length val alignment offset i))

/-- A run that is too short goes on from an aligned place to one that is not, in the view. -/
structure Strays (view : BitsetView) (mem : Memory Byte) (length : ℕ) (val : Bool)
    (alignment offset p : ℕ) : Prop where
  aligned : (p + offset) % alignment = 0
  strays : ∃ size, 0 < size ∧ size < length ∧ p + size < view.length ∧
    view.Uniform mem val p (p + size) ∧ testBit mem view.data (p + size) ≠ val ∧
    (p + size + offset) % alignment ≠ 0

/-- The length of a run of other bits is rounded up, or added, beyond 64 bits. -/
structure Wraps (view : BitsetView) (mem : Memory Byte) (val : Bool) (alignment offset p : ℕ) :
    Prop where
  aligned : (p + offset) % alignment = 0
  wraps : ∃ size, 0 < size ∧ p + size ≤ view.length ∧ view.Uniform mem (!val) p (p + size) ∧
    (2 ^ 64 < size + alignment ∨ 2 ^ 64 ≤ p + alignUpTo size alignment)

section Search

variable {length alignment offset p fuel maxSize : ℕ}

theorem AlignedFit.lt_length (h : view.AlignedFit mem length val alignment offset p)
    (hlength : 0 < length) : p < view.length :=
  (Nat.lt_add_of_pos_right hlength).trans_le h.inside

theorem AlignedFit.first (h : view.AlignedFit mem length val alignment offset p)
    (hlength : 0 < length) : testBit mem view.data p = val :=
  h.uniform p (Nat.le_refl p) (Nat.lt_add_of_pos_right hlength)

theorem getRegionSize_pos (hp : p < view.length) (hbit : testBit mem view.data p = val)
    (hmax : 0 < maxSize) : 0 < view.getRegionSize mem p val maxSize := by
  obtain ⟨-, -, hnext⟩ := @getRegionSize_spec view mem val p maxSize
  by_contra hzero
  rw [Nat.eq_zero_of_not_pos hzero] at hnext
  exact hnext (by omega) hbit

theorem AlignedFit.after_short {size : ℕ} (hfit : view.AlignedFit mem length val alignment offset p)
    {q : ℕ} (hq : q ≤ p) (hshort : size < length)
    (hend : q + size = view.length ∨ testBit mem view.data (q + size) ≠ val) : q + size ≤ p := by
  by_contra hlt
  have hinside := hfit.inside
  rcases hend with hend | hend
  · omega
  · exact hend (hfit.uniform (q + size) (by omega) (by omega))

theorem alignUpTo_le_of_dvd {a n : ℕ} (halignment : 0 < alignment) (ha : a ≤ n)
    (hn : n % alignment = 0) : alignUpTo a alignment ≤ n := by
  obtain ⟨k, rfl⟩ := Nat.dvd_of_mod_eq_zero hn
  unfold alignUpTo
  rw [Nat.mul_comm alignment k] at ha ⊢
  refine Nat.mul_le_mul_right _ (Nat.lt_succ_iff.mp ((Nat.div_lt_iff_lt_mul halignment).mpr ?_))
  rw [Nat.succ_mul]
  omega

theorem AlignedFit.after_bad {q size : ℕ} (hfit : view.AlignedFit mem length val alignment offset p)
    (hlength : 0 < length) (halignment : 0 < alignment) (hq : q ≤ p)
    (haligned : (q + offset) % alignment = 0) (hbad : view.Uniform mem (!val) q (q + size)) :
    q + alignUpTo size alignment ≤ p := by
  have hfirst := hfit.first hlength
  have hsize : size ≤ p - q := by
    by_contra hlt
    have hother := hbad p hq (by omega)
    rw [hfirst] at hother
    cases val <;> cases hother
  have hmod : (p - q) % alignment = 0 := by
    have hsame := hfit.aligned
    rw [show p + offset = q + offset + (p - q) by omega, Nat.add_mod, haligned, Nat.zero_add,
      Nat.mod_mod] at hsame
    exact hsame
  have := alignUpTo_le_of_dvd halignment hsize hmod
  omega

theorem alignUpWord_eq {a : ℕ} (h : a + alignment ≤ 2 ^ 64) :
    alignUpWord a alignment = alignUpTo a alignment := by
  rw [alignUpWord, alignUpTo, Nat.mod_eq_of_lt (by omega)]

theorem le_alignUpTo {a : ℕ} (halignment : 0 < alignment) : a ≤ alignUpTo a alignment := by
  have := Nat.lt_div_mul_add (a := a + alignment - 1) halignment
  unfold alignUpTo
  omega

/-- **The search** from an aligned place in front of which nothing fits. -/
theorem fitFromWord_finds (hlength : 0 < length) (halignment : 0 < alignment)
    (hmax : view.length ≤ maxSize) (hunlimited : view.length ≤ unlimited)
    (hsteps : ∀ q, (∀ i ≤ q, ¬ view.AlignedFit mem length val alignment offset i) →
      ¬ view.Strays mem length val alignment offset q ∧ ¬ view.Wraps mem val alignment offset q)
    (haligned : (p + offset) % alignment = 0)
    (hbefore : ∀ i < p, ¬ view.AlignedFit mem length val alignment offset i)
    (hfuel : view.length - p ≤ fuel) :
    view.FindsFirst mem length val alignment offset
      (view.fitFromWord mem length val alignment maxSize fuel p) := by
  have houtside {q : ℕ} (hq : view.length ≤ q)
      (hnone : ∀ i < q, ¬ view.AlignedFit mem length val alignment offset i) (i : ℕ) :
      ¬ view.AlignedFit mem length val alignment offset i := fun hfit =>
    hnone i ((hfit.lt_length hlength).trans_le hq) hfit
  induction fuel generalizing p with
  | zero =>
      have hp : view.length ≤ p := by omega
      unfold fitFromWord
      rw [if_neg (Nat.not_lt.mpr hp)]
      exact ⟨_, rfl, Or.inr ⟨rfl, houtside hp hbefore⟩⟩
  | succ fuel ih =>
      unfold fitFromWord
      by_cases hp : p < view.length
      · rw [if_pos hp]
        by_cases hbit : testBit mem view.data p = val
        · obtain ⟨hsize, huniform, hnext⟩ := @getRegionSize_spec view mem val p maxSize
          have hpos : 0 < view.getRegionSize mem p val maxSize :=
            getRegionSize_pos hp hbit (by omega)
          dsimp only
          rw [if_pos (beq_iff_eq.mpr hbit)]
          obtain ⟨size, hsizeEq⟩ : ∃ size, view.getRegionSize mem p val maxSize = size := ⟨_, rfl⟩
          rw [hsizeEq] at hsize huniform hnext hpos ⊢
          by_cases hroom : size ≥ length
          · rw [if_pos hroom]
            have hfit : view.AlignedFit mem length val alignment offset p :=
              ⟨haligned, by omega, fun j hlow hhigh => huniform j hlow (by omega)⟩
            have hinside : p + size ≤ view.length := by omega
            exact ⟨_, rfl, Or.inl ⟨hfit, hbefore, hroom, hinside, huniform⟩⟩
          · rw [if_neg hroom]
            have hshort : size < length := Nat.not_le.mp hroom
            have hend : p + size = view.length ∨ testBit mem view.data (p + size) ≠ val := by
              by_cases hlast : size < min maxSize (view.length - p)
              · exact Or.inr (hnext hlast)
              · exact Or.inl (by omega)
            have hnone : ∀ i < p + size, ¬ view.AlignedFit mem length val alignment offset i :=
              fun i hi hfit => by
                by_cases hip : i < p
                · exact hbefore i hip hfit
                · have := hfit.after_short (Nat.not_lt.mp hip) hshort hend
                  omega
            by_cases hinside : p + size < view.length
            · -- the run ends in the view: at an aligned place, since it does not stray
              have hstep : (p + size + offset) % alignment = 0 := by
                by_contra hstray
                refine (hsteps p fun i hi => hnone i (by omega)).1 ⟨haligned, size, hpos, hshort,
                  hinside, huniform, hend.resolve_left hinside.ne, hstray⟩
              exact ih hstep hnone (by omega)
            · have hlast : view.length ≤ p + size := Nat.not_lt.mp hinside
              unfold fitFromWord
              rw [if_neg hinside]
              exact ⟨_, rfl, Or.inr ⟨rfl, houtside hlast hnone⟩⟩
        · obtain ⟨hsize, huniform, -⟩ := @getRegionSize_spec view mem (!val) p unlimited
          have hother : testBit mem view.data p = !val := Bool.eq_not.mpr hbit
          have hpos : 0 < view.getRegionSize mem p (!val) unlimited :=
            getRegionSize_pos hp hother (by decide)
          dsimp only
          rw [if_neg fun h => hbit (beq_iff_eq.mp h)]
          obtain ⟨size, hsizeEq⟩ : ∃ size, view.getRegionSize mem p (!val) unlimited = size :=
            ⟨_, rfl⟩
          rw [hsizeEq] at hsize huniform hpos ⊢
          have hle : size ≤ alignUpTo size alignment := le_alignUpTo halignment
          -- nothing fits here, where the bit is another one, so that nothing wraps around
          have hnone : ∀ i ≤ p, ¬ view.AlignedFit mem length val alignment offset i :=
            fun i hi hfit => by
              rcases Nat.lt_or_eq_of_le hi with hip | rfl
              · exact hbefore i hip hfit
              · exact hbit (hfit.first hlength)
          obtain ⟨hround, hadd⟩ := not_or.mp fun hwraps =>
            (hsteps p hnone).2 ⟨haligned, size, hpos, by omega, huniform, hwraps⟩
          rw [alignUpWord_eq (Nat.not_lt.mp hround), Nat.mod_eq_of_lt (Nat.not_le.mp hadd)]
          refine ih ?_ (fun i hi hfit => ?_) (by omega)
          · rw [Nat.add_right_comm, Nat.add_mod, haligned, Nat.zero_add, Nat.mod_mod]
            exact Nat.mul_mod_left _ _
          · by_cases hip : i < p
            · exact hbefore i hip hfit
            · have := hfit.after_bad hlength halignment (Nat.not_lt.mp hip) haligned huniform
              omega
      · rw [if_neg hp]
        exact ⟨_, rfl, Or.inr ⟨rfl, houtside (Nat.not_lt.mp hp) hbefore⟩⟩

theorem alignUpTo_lt {a : ℕ} (halignment : 0 < alignment) :
    alignUpTo a alignment < a + alignment := by
  have := Nat.div_mul_le_self (a + alignment - 1) alignment
  unfold alignUpTo
  omega

/-- **`find_first_fit`** finds the first fit, if from an aligned place, with no fit at it or in front
of it, no run that is too short goes on to a place inside the view that is not aligned and no
rounding up goes beyond 64 bits. -/
theorem findFirstFitWord_finds (hview : view.length ≤ unlimited) (hlength : 0 < length)
    (hoffset : offset < alignment) (hwrap : offset + alignment ≤ 2 ^ 64)
    (hsteps : ∀ p, (∀ i ≤ p, ¬ view.AlignedFit mem length val alignment offset i) →
      ¬ view.Strays mem length val alignment offset p ∧ ¬ view.Wraps mem val alignment offset p) :
    view.FindsFirst mem length val alignment offset
      (view.findFirstFitWord mem length val 0 alignment offset unlimited) := by
  have halignment : 0 < alignment := Nat.zero_lt_of_lt hoffset
  have hle : offset ≤ alignUpTo offset alignment := le_alignUpTo halignment
  have hlt := @alignUpTo_lt alignment offset halignment
  have hstart : (alignUpWord ((0 + offset) % 2 ^ 64) alignment + 2 ^ 64 - offset) % 2 ^ 64 =
      alignUpTo offset alignment - offset := by
    rw [Nat.zero_add, Nat.mod_eq_of_lt (show offset < 2 ^ 64 by omega), alignUpWord_eq hwrap]
    omega
  rw [findFirstFitWord, if_pos hoffset, hstart]
  refine fitFromWord_finds hlength halignment hview hview hsteps ?_ (fun i hi hfit => ?_)
    (Nat.sub_le ..)
  · rw [Nat.sub_add_cancel hle]
    exact Nat.mul_mod_left _ _
  · -- an aligned place is not in front of the first one
    have := alignUpTo_le_of_dvd halignment (Nat.le_add_left offset i) hfit.aligned
    omega

/-- Three bits at an odd place of a view that is clear. -/
theorem findFirstFitWord_finds_odd :
    (8 ≤ unlimited ∧ 0 < 3 ∧ 1 < 2 ∧ 1 + 2 ≤ 2 ^ 64 ∧
      ∀ p, (∀ i ≤ p, ¬ AlignedFit ⟨0, 8⟩ (fun _ => 0) 3 false 2 1 i) →
        ¬ Strays ⟨0, 8⟩ (fun _ => 0) 3 false 2 1 p ∧ ¬ Wraps ⟨0, 8⟩ (fun _ => 0) false 2 1 p) ∧
      FindsFirst ⟨0, 8⟩ (fun _ => 0) 3 false 2 1
        (findFirstFitWord ⟨0, 8⟩ (fun _ => 0) 3 false 0 2 1 unlimited) := by
  have hclear (i : ℕ) : testBit (fun _ => 0) 0 i = false := by
    rw [testBit_eq_getLsbD]
    exact BitVec.getLsbD_zero
  have hsteps (p : ℕ) : ¬ Strays ⟨0, 8⟩ (fun _ => 0) 3 false 2 1 p ∧
      ¬ Wraps ⟨0, 8⟩ (fun _ => 0) false 2 1 p := by
    refine ⟨fun h => ?_, fun h => ?_⟩
    · obtain ⟨size, -, -, -, -, hend, -⟩ := h.strays
      exact hend (hclear _)
    · obtain ⟨size, hpos, -, hother, -⟩ := h.wraps
      exact absurd ((hclear p).symm.trans (hother p le_rfl (Nat.lt_add_of_pos_right hpos))) (by decide)
  exact ⟨⟨by decide, by decide, by decide, by decide, fun p _ => hsteps p⟩,
    findFirstFitWord_finds (by decide) (by decide) (by decide) (by decide) fun p _ => hsteps p⟩

/-- Behind one free bit there is one that is not, and two that fit at the third: they are found from
the fourth on. -/
theorem findFirstFitWord_fails : ¬ ∀ (view : BitsetView) (mem : Memory Byte) (length : ℕ)
    (val : Bool) (alignment offset : ℕ), 0 < length → offset < alignment →
      view.FindsFirst mem length val alignment offset
        (view.findFirstFitWord mem length val 0 alignment offset unlimited) := by
  intro h
  obtain ⟨found, hfound, hwhich⟩ := h ⟨0, 8⟩ (fun _ => 0xE2) 2 false 2 0 (by decide) (by decide)
  have hresult : findFirstFitWord ⟨0, 8⟩ (fun _ => 0xE2) 2 false 0 2 0 unlimited =
      some ⟨3, 2⟩ := by decide
  rw [hresult, Option.some_inj] at hfound
  subst hfound
  rcases hwhich with ⟨hfit, -⟩ | ⟨hinvalid, -⟩
  · exact absurd hfit.aligned (by decide)
  · exact absurd hinvalid (by decide)

end Search

end BekOS.BitsetView
