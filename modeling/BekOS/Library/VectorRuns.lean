import BekOS.Lib.PartialRun
import BekOS.Library.BekVector
import BekOS.Library.KernelError
import BekOS.Library.VectorMemory

/-!
# `bek::vector` against lists

`Holds` says that the array of a vector has an object for each element of a list, in order, and
nothing behind them.  Each operation that does not run into one of the vector's defects completes,
and holds afterwards what the operation of the list gives.
-/

namespace BekOS.VectorMemory

open PartialRun Function

variable {α : Type} {type : ElementType}

/-! ## Places in an array -/

/-- Objects with these values. -/
def objects (xs : List α) : Slots α := xs.map fun x => .object (some x)

/-- So many places without an object. -/
def raws (count : ℕ) : Slots α := List.replicate count .raw

@[simp] theorem length_objects (xs : List α) : (objects xs).length = xs.length :=
  List.length_map _

@[simp] theorem length_raws (count : ℕ) : (raws count : Slots α).length = count :=
  List.length_replicate

theorem objects_cons (x : α) (xs : List α) : objects (x :: xs) = .object (some x) :: objects xs :=
  rfl

theorem objects_append (xs ys : List α) : objects (xs ++ ys) = objects xs ++ objects ys :=
  List.map_append

theorem raws_succ (count : ℕ) : (raws (count + 1) : Slots α) = .raw :: raws count := rfl

theorem raws_add (count more : ℕ) : (raws (count + more) : Slots α) = raws count ++ raws more :=
  List.replicate_add ..

namespace Slots

variable {front back : Slots α} {i : ℕ} {value : Option α}

theorem construct_at (hi : i = front.length) (value : Option α) :
    construct (front ++ .raw :: back) i value = .ok (front ++ .object value :: back) := by
  rw [hi]
  simp [construct]

theorem destroy_at (hi : i = front.length) :
    destroy (front ++ .object value :: back) i = .ok (front ++ .raw :: back) := by
  rw [hi]
  simp [destroy]

theorem read_at (hi : i = front.length) :
    read (front ++ .object value :: back) i = .ok value := by
  rw [hi]
  simp [read]

theorem move_at (hi : i = front.length) :
    move (front ++ .object value :: back) i = .ok (value, front ++ .object none :: back) := by
  rw [move, read_at hi, hi]
  simp [Except.map]

theorem assign_at (hi : i = front.length) (new : Option α) :
    assign (front ++ .object value :: back) i new = .ok (front ++ .object new :: back) := by
  rw [assign, read_at hi, hi]
  simp [Except.map]

/-! ## The loops -/

theorem clearLoop_eq (xs : List α) (hi : i = front.length) :
    clearLoop xs.length (front ++ (objects xs ++ back)) i =
      .ok (front ++ (raws xs.length ++ back)) := by
  induction xs generalizing front i with
  | nil => rfl
  | cons x xs ih =>
      have hrest := ih (by simp [hi] : i + 1 = (front ++ [.raw] : Slots α).length)
      rw [objects_cons, List.cons_append, List.length_cons, clearLoop, destroy_at hi, ok_bind]
      simpa [raws_succ] using hrest

theorem relocateLoop_eq (xs : List α) {front' back' : Slots α} (hi : i = front.length)
    (hi' : i = front'.length) :
    relocateLoop xs.length (front ++ (objects xs ++ back))
        (front' ++ (raws xs.length ++ back')) i =
      .ok (front ++ (raws xs.length ++ back), front' ++ (objects xs ++ back')) := by
  induction xs generalizing front front' i with
  | nil => rfl
  | cons x xs ih =>
      have hrest := ih (by simp [hi] : i + 1 = (front ++ [.raw] : Slots α).length)
        (by simp [hi'] : i + 1 = (front' ++ [Slot.object (some x)]).length)
      rw [objects_cons, List.cons_append, List.length_cons, raws_succ, List.cons_append,
        List.cons_append, relocateLoop, move_at hi, ok_bind, construct_at hi', ok_bind,
        destroy_at hi, ok_bind]
      simpa [raws_succ] using hrest

theorem copyLoop_eq (xs : List α) {front' back' : Slots α} (hi : i = front.length)
    (hi' : i = front'.length) :
    copyLoop (front ++ (objects xs ++ back)) xs.length (front' ++ (raws xs.length ++ back')) i =
      .ok (front' ++ (objects xs ++ back')) := by
  induction xs generalizing front front' i with
  | nil => rfl
  | cons x xs ih =>
      have hrest := ih (by simp [hi] : i + 1 = (front ++ [Slot.object (some x)]).length)
        (by simp [hi'] : i + 1 = (front' ++ [Slot.object (some x)]).length)
      rw [objects_cons, List.cons_append, List.length_cons, raws_succ, List.cons_append,
        List.cons_append, copyLoop, read_at hi, ok_bind, construct_at hi', ok_bind]
      simpa using hrest

/-- The loop of `insert` moves the elements up by one place, from the last one down to the index. -/
theorem shiftUpLoop_eq (xs : List α) {fuel : ℕ} (hfront : 0 < front.length)
    (hfuel : xs.length < fuel) (hlt : front.length + xs.length < 2 ^ 64) :
    shiftUpLoop front.length fuel (front ++ (objects xs ++ .raw :: back))
        (front.length + xs.length - 1) =
      .ok (front ++ (.raw :: (objects xs ++ back))) := by
  induction xs using List.reverseRecOn generalizing fuel back with
  | nil =>
      obtain ⟨fuel, rfl⟩ := Nat.exists_eq_succ_of_ne_zero (Nat.ne_of_gt hfuel)
      exact if_neg (by simp only [List.length_nil]; omega)
  | append_singleton xs x ih =>
      obtain ⟨fuel, rfl⟩ := Nat.exists_eq_succ_of_ne_zero (Nat.ne_of_gt (Nat.zero_lt_of_lt hfuel))
      rw [List.length_append, List.length_singleton] at hfuel hlt ⊢
      have hle : front.length ≤ front.length + (xs.length + 1) - 1 := by omega
      have hidx : front.length + (xs.length + 1) - 1 = (front ++ objects xs).length := by
        rw [List.length_append, length_objects]
        omega
      have hup : (front.length + (xs.length + 1) - 1 + 1) % 2 ^ 64 =
          (front ++ (objects xs ++ [.object none]) : Slots α).length := by
        simp only [List.length_append, length_objects, List.length_singleton]
        rw [Nat.mod_eq_of_lt] <;> omega
      have hdown : (front.length + (xs.length + 1) - 1 + 2 ^ 64 - 1) % 2 ^ 64 =
          front.length + xs.length - 1 := by
        omega
      have hrest : shiftUpLoop front.length fuel
          (front ++ (objects xs ++ .raw :: .object (some x) :: back))
          (front.length + xs.length - 1) =
            .ok (front ++ (.raw :: (objects xs ++ .object (some x) :: back))) :=
        ih (by omega) (by omega)
      have hmove : move ((front ++ objects xs) ++ .object (some x) :: .raw :: back)
          (front.length + (xs.length + 1) - 1) =
            .ok (some x, (front ++ objects xs) ++ .object none :: .raw :: back) := move_at hidx
      have hconstruct : construct ((front ++ (objects xs ++ [.object none])) ++ .raw :: back)
          ((front.length + (xs.length + 1) - 1 + 1) % 2 ^ 64) (some x) =
            .ok ((front ++ (objects xs ++ [.object none])) ++ .object (some x) :: back) :=
        construct_at hup (some x)
      have hdestroy : destroy ((front ++ objects xs) ++ .object none :: .object (some x) :: back)
          (front.length + (xs.length + 1) - 1) =
            .ok ((front ++ objects xs) ++ .raw :: .object (some x) :: back) := destroy_at hidx
      rw [objects_append, objects_cons, shiftUpLoop, if_pos hle]
      simp only [List.append_assoc, List.cons_append, List.nil_append, objects, List.map_nil]
        at hmove hconstruct hdestroy hrest ⊢
      rw [hmove, ok_bind, hconstruct, ok_bind, hdestroy, ok_bind, hdown, hrest]

theorem shiftDownLoop_eq (xs : List α) (hi : i = front.length + 1) :
    shiftDownLoop xs.length (front ++ (.object none :: (objects xs ++ back))) i =
      .ok (front ++ (objects xs ++ .object none :: back)) := by
  induction xs generalizing front i with
  | nil => rfl
  | cons x xs ih =>
      have hrest := ih (by simp [hi] : i + 1 = (front ++ [Slot.object (some x)]).length + 1)
      have hmove : move ((front ++ [.object none]) ++ .object (some x) :: (objects xs ++ back)) i =
          .ok (some x, (front ++ [.object none]) ++ .object none :: (objects xs ++ back)) :=
        move_at (by simp [hi])
      have hassign : assign (front ++ .object none :: .object none :: (objects xs ++ back)) (i - 1)
          (some x) = .ok (front ++ .object (some x) :: .object none :: (objects xs ++ back)) :=
        assign_at (by omega) (some x)
      rw [objects_cons, List.length_cons, shiftDownLoop]
      simp only [List.append_assoc, List.cons_append, List.nil_append] at hmove hassign hrest ⊢
      rw [hmove, ok_bind, hassign, ok_bind, hrest]

theorem free_raws (count : ℕ) : free (raws count : Slots α) = .ok () := by
  refine if_pos (List.all_eq_true.mpr fun slot hslot => ?_)
  rw [List.eq_of_mem_replicate hslot]

end Slots

/-! ## What a vector holds -/

/-- The vector has these elements, and no other object in its array. -/
structure Holds (type : ElementType) (v : RawVector α) (xs : List α) : Prop where
  size_eq : v.size = xs.length
  length_le : xs.length ≤ v.capacity
  array_eq : v.array = objects xs ++ raws (v.capacity - xs.length)
  fits : v.capacity * type.sizeOf < 2 ^ 64

/-- Storage for so many elements can be asked for, and what is there can be moved to it. -/
def Grows (type : ElementType) (v : RawVector α) (capacity : ℕ) : Prop :=
  ∃ newCapacity, v.newCapacity capacity = .ok newCapacity ∧
    newCapacity * type.sizeOf < 2 ^ 64 ∧
    (newCapacity ≠ v.capacity → type.isTriviallyCopyable →
      v.size * type.sizeOf ≤ maxMemcopy)

namespace RawVector

theorem le_of_growLoop {capacity fuel start newCapacity : ℕ}
    (h : growLoop capacity fuel start = .ok newCapacity) :
    capacity ≤ newCapacity ∧ (start < capacity ∨ newCapacity = start) := by
  induction fuel generalizing start with
  | zero => cases h
  | succ fuel ih =>
      rw [growLoop] at h
      split_ifs at h with hlt
      · exact ⟨(ih h).1, Or.inl hlt⟩
      · cases h
        exact ⟨Nat.le_of_not_lt hlt, Or.inr rfl⟩

theorem growLoop_of_le {capacity start : ℕ} (h : capacity ≤ start) (fuel : ℕ) :
    growLoop capacity (fuel + 1) start = .ok start :=
  if_neg (Nat.not_lt_of_le h)

theorem allocate_eq {capacity : ℕ} (h : capacity * type.sizeOf < 2 ^ 64) :
    (allocate type capacity : Slots α) = raws capacity := by
  rw [allocate, Nat.mod_eq_of_lt h, Nat.mul_div_cancel _ type.sizeOf_pos]
  rfl

end RawVector

namespace Holds

variable {v : RawVector α} {xs : List α} 

theorem new : Holds type (RawVector.new : RawVector α) [] :=
  ⟨rfl, le_rfl, rfl, by simp [RawVector.new]⟩

theorem capacity_lt (h : Holds type v xs) : v.capacity < 2 ^ 64 :=
  lt_of_le_of_lt (Nat.le_mul_of_pos_right _ type.sizeOf_pos) h.fits

/-- **`expand_storage`** moves the elements. -/
theorem expandStorage (h : Holds type v xs) {newCapacity : ℕ} (hle : v.capacity ≤ newCapacity)
    (hfits : newCapacity * type.sizeOf < 2 ^ 64)
    (hcopy : type.isTriviallyCopyable → v.size * type.sizeOf ≤ maxMemcopy) :
    ∃ v', v.expandStorage type newCapacity = .ok v' ∧ Holds type v' xs ∧
      v'.capacity = newCapacity := by
  have hlength := h.length_le
  have hsize := h.size_eq
  refine ⟨⟨xs.length, newCapacity, objects xs ++ raws (newCapacity - xs.length)⟩, ?_,
    ⟨rfl, hlength.trans hle, rfl, hfits⟩, rfl⟩
  have hnew : (raws newCapacity : Slots α) = raws xs.length ++ raws (newCapacity - xs.length) := by
    rw [← raws_add]
    congr 1
    omega
  rw [RawVector.expandStorage, RawVector.allocate_eq hfits]
  by_cases hcap : v.capacity = 0
  · have hnil : xs = [] := List.length_eq_zero_iff.mp (by omega)
    rw [if_neg (not_not.mpr hcap), hsize, hnil]
    rfl
  · rw [if_pos hcap]
    by_cases htrivial : type.isTriviallyCopyable = true
    · have hbytes : v.size * type.sizeOf % 2 ^ 64 ≤ maxMemcopy :=
        (Nat.mod_le _ _).trans (hcopy htrivial)
      have hroom : v.size ≤ (raws newCapacity : Slots α).length ∧ v.size ≤ v.array.length := by
        rw [h.array_eq]
        simp only [length_raws, List.length_append, length_objects]
        omega
      have htake : v.array.take v.size = objects xs := by
        rw [h.array_eq, hsize, List.take_left' (length_objects xs)]
      have hdrop : (raws newCapacity : Slots α).drop v.size = raws (newCapacity - xs.length) := by
        rw [hnew, hsize, List.drop_left' (length_raws _)]
      rw [if_pos htrivial, RawVector.memcopy, if_pos hbytes, if_pos hroom, ok_bind, htake, hdrop,
        hsize]
      rfl
    · have hold : (raws v.capacity : Slots α) =
          raws xs.length ++ raws (v.capacity - xs.length) := by
        rw [← raws_add]
        congr 1
        omega
      have hmoved : Slots.relocateLoop xs.length v.array (raws newCapacity) 0 =
          .ok (raws v.capacity, objects xs ++ raws (newCapacity - xs.length)) := by
        rw [h.array_eq, hnew, hold]
        exact Slots.relocateLoop_eq xs List.length_nil.symm List.length_nil.symm
      rw [if_neg htrivial, hsize, hmoved, ok_bind, Slots.free_raws, ok_bind]
      rfl

/-- **`ensure_capacity`** keeps the elements, and makes room. -/
theorem ensureCapacity (h : Holds type v xs) {capacity : ℕ} (hgrows : Grows type v capacity) :
    ∃ v', v.ensureCapacity type capacity = .ok v' ∧ Holds type v' xs ∧
      capacity ≤ v'.capacity := by
  obtain ⟨newCapacity, hnew, hfits, hcopy⟩ := hgrows
  have hle := RawVector.le_of_growLoop hnew
  rw [RawVector.ensureCapacity, hnew, ok_bind]
  by_cases hsame : newCapacity = v.capacity
  · exact ⟨v, if_neg (not_not.mpr hsame), h, by omega⟩
  · have hcapacity : v.capacity ≤ newCapacity := by
      by_cases hzero : v.capacity = 0
      · omega
      · rw [if_pos hzero] at hle
        omega
    obtain ⟨v', hexpand, hholds, hv'⟩ := h.expandStorage hcapacity hfits (hcopy hsame)
    exact ⟨v', (if_pos hsame).trans hexpand, hholds, by omega⟩

theorem grows_of_le (h : Holds type v xs) {capacity : ℕ} (hle : capacity ≤ v.capacity) :
    Grows type v capacity := by
  by_cases hzero : v.capacity = 0
  · refine ⟨1, ?_, by simpa using type.sizeOf_lt, fun _ _ => ?_⟩
    · rw [RawVector.newCapacity, if_neg (not_not.mpr hzero)]
      exact RawVector.growLoop_of_le (by omega) 64
    · have hsize : v.size = 0 := by
        have := h.size_eq
        have := h.length_le
        omega
      rw [hsize, Nat.zero_mul]
      exact Nat.zero_le _
  · refine ⟨v.capacity, ?_, h.fits, fun hne => absurd rfl hne⟩
    rw [RawVector.newCapacity, if_pos hzero]
    exact RawVector.growLoop_of_le hle 64

/-- **`clear`** destroys every element. -/
theorem clear (h : Holds type v xs) :
    ∃ v', v.clear = .ok v' ∧ Holds type v' [] ∧ v'.capacity = v.capacity := by
  have hlength := h.length_le
  have hraws : (raws v.capacity : Slots α) = raws xs.length ++ raws (v.capacity - xs.length) := by
    rw [← raws_add]
    congr 1
    omega
  have hclear : Slots.clearLoop xs.length v.array 0 = .ok (raws v.capacity) := by
    rw [h.array_eq, hraws]
    exact Slots.clearLoop_eq xs List.length_nil.symm
  refine ⟨{ v with size := 0, array := raws v.capacity }, ?_,
    ⟨rfl, Nat.zero_le _, rfl, h.fits⟩, rfl⟩
  rw [RawVector.clear, h.size_eq, hclear]
  rfl

/-- **The destructor** leaves no object behind. -/
theorem destruct (h : Holds type v xs) : v.destruct = .ok () := by
  obtain ⟨v', hclear, hholds, -⟩ := h.clear
  rw [RawVector.destruct, hclear, ok_bind, hholds.array_eq]
  exact Slots.free_raws _

/-- **The copy constructor.** -/
theorem copyConstruct (h : Holds type v xs) :
    ∃ v', v.copyConstruct type = .ok v' ∧ Holds type v' xs := by
  have hlength := h.length_le
  by_cases hcap : v.capacity = 0
  · have hnil : xs = [] := List.length_eq_zero_iff.mp (by omega)
    refine ⟨⟨v.size, v.capacity, []⟩, if_neg (not_not.mpr hcap), h.size_eq, hlength, ?_, h.fits⟩
    rw [hnil, hcap]
    rfl
  · have hraws : (raws v.capacity : Slots α) = raws xs.length ++ raws (v.capacity - xs.length) := by
      rw [← raws_add]
      congr 1
      omega
    have hcopy : Slots.copyLoop v.array xs.length (raws v.capacity) 0 =
        .ok (objects xs ++ raws (v.capacity - xs.length)) := by
      rw [h.array_eq, hraws]
      exact Slots.copyLoop_eq xs List.length_nil.symm List.length_nil.symm
    refine ⟨⟨v.size, v.capacity, objects xs ++ raws (v.capacity - xs.length)⟩, ?_,
      ⟨h.size_eq, hlength, rfl, h.fits⟩⟩
    rw [RawVector.copyConstruct, if_pos hcap, RawVector.allocate_eq h.fits, h.size_eq, hcopy]
    rfl

/-- **`operator=`** of an empty vector. -/
theorem copyAssign (h : Holds type v xs) {source : RawVector α} (hsource : source.size = 0) :
    ∃ v', v.copyAssign type source = .ok v' ∧ Holds type v' [] := by
  obtain ⟨cleared, hclear, hcleared, -⟩ := h.clear
  obtain ⟨v', hensure, hholds, -⟩ := hcleared.ensureCapacity
    (hcleared.grows_of_le (Nat.zero_le _))
  refine ⟨v', ?_, hholds⟩
  rw [RawVector.copyAssign, hclear, ok_bind, hsource, hensure, ok_bind, hholds.size_eq]
  change Except.ok { v' with size := 0, array := v'.array } = _
  rw [← List.length_nil, ← hholds.size_eq]

/-- **`expand`** by nothing. -/
theorem expand (h : Holds type v xs) :
    ∃ v', v.expand type 0 = .ok v' ∧ Holds type v' xs := by
  have hlt := h.capacity_lt
  have hlength := h.length_le
  have hsize := h.size_eq
  obtain ⟨v', hensure, hholds, -⟩ := h.ensureCapacity (h.grows_of_le (by omega : v.size ≤ _))
  refine ⟨v', ?_, hholds⟩
  have hmod : (0 + v.size) % 2 ^ 64 = v.size := by
    rw [Nat.zero_add, Nat.mod_eq_of_lt (by omega)]
  have hmod' : (0 + v'.size) % 2 ^ 64 = v'.size := by
    rw [Nat.zero_add, hholds.size_eq, Nat.mod_eq_of_lt (by omega)]
  rw [RawVector.expand, hmod, RawVector.reserve, hensure, ok_bind, hmod']
  rfl

/-- **`push_back`** -/
theorem pushBack (h : Holds type v xs) (hgrows : Grows type v (v.size + 1)) (item : α) :
    ∃ v', v.pushBack type item = .ok v' ∧ Holds type v' (xs ++ [item]) := by
  obtain ⟨v', hensure, hholds, hroom⟩ := h.ensureCapacity hgrows
  have hlt := hholds.capacity_lt
  have hsize := h.size_eq
  have hmod : (v.size + 1) % 2 ^ 64 = v.size + 1 := Nat.mod_eq_of_lt (by omega)
  obtain ⟨count, hcount⟩ := Nat.exists_eq_succ_of_ne_zero
    (by omega : v'.capacity - xs.length ≠ 0)
  have hconstruct : Slots.construct v'.array v'.size (some item) =
      .ok (objects xs ++ .object (some item) :: raws count) := by
    rw [hholds.array_eq, hcount, raws_succ]
    exact Slots.construct_at (by rw [length_objects, hholds.size_eq]) (some item)
  refine ⟨{ v' with
      size := v'.size + 1, array := objects xs ++ .object (some item) :: raws count },
    ?_, ?_, ?_, ?_, hholds.fits⟩
  · rw [RawVector.pushBack, hmod, hensure, ok_bind, hconstruct]
    rfl
  · rw [hholds.size_eq, List.length_append, List.length_singleton]
  · rw [List.length_append, List.length_singleton]
    change xs.length + 1 ≤ v'.capacity
    omega
  · have hrest : v'.capacity - (xs ++ [item]).length = count := by
      rw [List.length_append, List.length_singleton]
      omega
    rw [objects_append, hrest, List.append_assoc]
    rfl

/-- **`insert`**, at an index that is not the first. -/
theorem insert {front back : List α} (h : Holds type v (front ++ back))
    (hgrows : Grows type v (v.size + 1)) (hfront : front ≠ []) (hback : back ≠ []) (item : α) :
    ∃ v', v.insert type front.length item = .ok v' ∧ Holds type v' (front ++ item :: back) := by
  obtain ⟨v', hensure, hholds, hroom⟩ := h.ensureCapacity hgrows
  have hlt := hholds.capacity_lt
  have hsize := h.size_eq
  have hsize' := hholds.size_eq
  have hpos := List.length_pos_of_ne_nil hfront
  have hpos' := List.length_pos_of_ne_nil hback
  rw [List.length_append] at hsize hsize'
  have hmod : (v.size + 1) % 2 ^ 64 = v.size + 1 := Nat.mod_eq_of_lt (by omega)
  obtain ⟨count, hcount⟩ := Nat.exists_eq_succ_of_ne_zero
    (by omega : v'.capacity - (front.length + back.length) ≠ 0)
  have harray : v'.array = objects front ++ (objects back ++ .raw :: raws count) := by
    rw [hholds.array_eq, List.length_append, hcount, raws_succ, objects_append, List.append_assoc]
  have hidx : (v'.size + 2 ^ 64 - 1) % 2 ^ 64 = (objects front).length + back.length - 1 := by
    rw [length_objects]
    omega
  have hshift : Slots.shiftUpLoop (objects front).length (v'.size + 1) v'.array
      ((v'.size + 2 ^ 64 - 1) % 2 ^ 64) =
        .ok (objects front ++ (.raw :: (objects back ++ raws count))) := by
    rw [harray, hidx]
    refine Slots.shiftUpLoop_eq back ?_ (by omega) ?_ <;> rw [length_objects] <;> omega
  rw [length_objects] at hshift
  have hconstruct : Slots.construct (objects front ++ .raw :: (objects back ++ raws count))
      front.length (some item) =
        .ok (objects front ++ .object (some item) :: (objects back ++ raws count)) :=
    Slots.construct_at (length_objects front).symm (some item)
  refine ⟨{ v' with
      size := v'.size + 1
      array := objects front ++ .object (some item) :: (objects back ++ raws count) },
    ?_, ?_, ?_, ?_, hholds.fits⟩
  · rw [RawVector.insert, if_pos (by omega), hmod, hensure, ok_bind, hshift, ok_bind, hconstruct]
    rfl
  · rw [List.length_append, List.length_cons, hsize', Nat.add_assoc]
  · rw [List.length_append, List.length_cons]
    change front.length + (back.length + 1) ≤ v'.capacity
    omega
  · have hrest : v'.capacity - (front ++ item :: back).length = count := by
      rw [List.length_append, List.length_cons]
      omega
    rw [hrest, objects_append, objects_cons, List.append_assoc]
    rfl

/-- **`pop`** and **`extract`** -/
theorem pop {front back : List α} {x : α} (h : Holds type v (front ++ x :: back)) :
    ∃ v', v.pop front.length = .ok (some x, v') ∧ Holds type v' (front ++ back) := by
  have hsize := h.size_eq
  have hlength := h.length_le
  rw [List.length_append, List.length_cons] at hsize hlength
  set free : Slots α := raws (v.capacity - (front ++ x :: back).length) with hfree
  have harray : v.array = objects front ++ .object (some x) :: (objects back ++ free) := by
    rw [h.array_eq, objects_append, objects_cons, List.append_assoc]
    rfl
  have hmove : Slots.move v.array front.length =
      .ok (some x, objects front ++ .object none :: (objects back ++ free)) := by
    rw [harray]
    exact Slots.move_at (length_objects front).symm
  have hshift : Slots.shiftDownLoop (v.size - (front.length + 1))
      (objects front ++ .object none :: (objects back ++ free)) (front.length + 1) =
        .ok (objects front ++ (objects back ++ .object none :: free)) := by
    rw [(by omega : v.size - (front.length + 1) = back.length)]
    exact Slots.shiftDownLoop_eq back (by rw [length_objects])
  have hdestroy : Slots.destroy ((objects front ++ objects back) ++ .object none :: free)
      (v.size - 1) = .ok ((objects front ++ objects back) ++ .raw :: free) := by
    refine Slots.destroy_at ?_
    rw [List.length_append, length_objects, length_objects]
    omega
  rw [List.append_assoc, List.append_assoc] at hdestroy
  refine ⟨{ v with
      size := v.size - 1, array := objects front ++ (objects back ++ .raw :: free) },
    ?_, ?_, ?_, ?_, h.fits⟩
  · rw [RawVector.pop, if_pos (by omega), hmove, ok_bind, hshift, ok_bind, hdestroy]
    rfl
  · rw [List.length_append]
    change v.size - 1 = _
    omega
  · rw [List.length_append]
    change front.length + back.length ≤ v.capacity
    omega
  · have hrest : v.capacity - (front ++ back).length =
        v.capacity - (front ++ x :: back).length + 1 := by
      simp only [List.length_append, List.length_cons]
      omega
    rw [hrest, raws_succ, objects_append, List.append_assoc]

end Holds

/-! ## Runs -/

/-- An operation on the vectors that there are.  An element is given to `extract` by its index. -/
inductive VectorOp (κ α : Type) where
  | construct (k : κ)
  | copyConstruct (k source : κ)
  | pushBack (k : κ) (item : α)
  | insert (k : κ) (i : ℕ) (item : α)
  | extract (k : κ) (i : ℕ)
  | pop (k : κ) (i : ℕ)
  | clear (k : κ)
  | expand (k : κ) (n : ℕ)
  | reserve (k : κ) (n : ℕ)
  | copyAssign (k source : κ)
  | moveAssign (k source : κ)
  | destruct (k : κ)

variable {κ : Type} [DecidableEq κ]

/-- The vector that is there. -/
def vectorAt (vectors : κ → Option (RawVector α)) (k : κ) : Except VectorFault (RawVector α) :=
  match vectors k with
  | some v => .ok v
  | none => .error .unconstructed

/-- A vector is made where there is none. -/
def makeAt (vectors : κ → Option (RawVector α)) (k : κ) (v : RawVector α) :
    Except VectorFault (κ → Option (RawVector α)) :=
  match vectors k with
  | some _ => .error .constructed
  | none => .ok (update vectors k (some v))

/-- An operation, with the element that it gives out. -/
def perform (type : ElementType) (vectors : κ → Option (RawVector α)) :
    VectorOp κ α → Except VectorFault ((κ → Option (RawVector α)) × Option (Option α))
  | .construct k => do
      let vectors ← makeAt vectors k .new
      return (vectors, none)
  | .copyConstruct k source => do
      let v ← vectorAt vectors source
      let copy ← v.copyConstruct type
      let vectors ← makeAt vectors k copy
      return (vectors, none)
  | .pushBack k item => do
      let v ← vectorAt vectors k
      let v ← v.pushBack type item
      return (update vectors k (some v), none)
  | .insert k i item => do
      let v ← vectorAt vectors k
      let v ← v.insert type i item
      return (update vectors k (some v), none)
  | .extract k i => do
      let v ← vectorAt vectors k
      let popped ← v.pop i
      return (update vectors k (some popped.2), some popped.1)
  | .pop k i => do
      let v ← vectorAt vectors k
      let popped ← v.pop i
      return (update vectors k (some popped.2), some popped.1)
  | .clear k => do
      let v ← vectorAt vectors k
      let v ← v.clear
      return (update vectors k (some v), none)
  | .expand k n => do
      let v ← vectorAt vectors k
      let v ← v.expand type n
      return (update vectors k (some v), none)
  | .reserve k n => do
      let v ← vectorAt vectors k
      let v ← v.reserve type n
      return (update vectors k (some v), none)
  | .copyAssign k source => do
      let v ← vectorAt vectors k
      let other ← vectorAt vectors source
      if k = source then return (vectors, none)
      else
        let v ← v.copyAssign type other
        return (update vectors k (some v), none)
  | .moveAssign k source => do
      let v ← vectorAt vectors k
      let other ← vectorAt vectors source
      return (update (update vectors k (some other)) source (some v), none)
  | .destruct k => do
      let v ← vectorAt vectors k
      v.destruct
      return (update vectors k none, none)

/-- The operation on lists.  It applies where there are the lists that it takes and its index is one
of an element. -/
def listPerform [Inhabited α] (lists : κ → Option (List α)) :
    VectorOp κ α → Option ((κ → Option (List α)) × Option (Option α))
  | .construct k =>
      if lists k = none then some (update lists k (some []), none) else none
  | .copyConstruct k source => do
      let xs ← lists source
      if lists k = none then some (update lists k (some xs), none) else none
  | .pushBack k item => do
      let xs ← lists k
      some (update lists k (some (xs ++ [item])), none)
  | .insert k i item => do
      let xs ← lists k
      if i < xs.length then some (update lists k (some (xs.insertIdx i item)), none)
      else none
  | .extract k i => do
      let xs ← lists k
      let x ← xs[i]?
      some (update lists k (some (xs.eraseIdx i)), some (some x))
  | .pop k i => do
      let xs ← lists k
      let x ← xs[i]?
      some (update lists k (some (xs.eraseIdx i)), some (some x))
  | .clear k => do
      let _ ← lists k
      some (update lists k (some []), none)
  | .expand k n => do
      let xs ← lists k
      some (update lists k (some (xs ++ List.replicate n default)), none)
  | .reserve k _ => do
      let _ ← lists k
      some (lists, none)
  | .copyAssign k source => do
      let _ ← lists k
      let ys ← lists source
      some (update lists k (some ys), none)
  | .moveAssign k source => do
      let xs ← lists k
      let ys ← lists source
      some (update (update lists k (some ys)) source (some xs), none)
  | .destruct k => do
      let _ ← lists k
      some (update lists k none, none)

/-- A step of the vectors. -/
def step (type : ElementType) (vectors : κ → Option (RawVector α)) (op : VectorOp κ α) :
    Option ((κ → Option (RawVector α)) × Option (Option α)) :=
  (perform type vectors op).toOption

/-- The operation does not run into a defect of the vector, and what storage it asks for can be
asked for. -/
def Sound (type : ElementType) (vectors : κ → Option (RawVector α)) : VectorOp κ α → Prop
  | .pushBack k _ => ∀ v ∈ vectors k, Grows type v (v.size + 1)
  | .insert k i _ => i ≠ 0 ∧ ∀ v ∈ vectors k, Grows type v (v.size + 1)
  | .expand _ n => n = 0
  | .reserve k n => ∀ v ∈ vectors k, Grows type v n
  | .copyAssign k source => k = source ∨ ∀ v ∈ vectors source, v.size = 0
  | _ => True

/-- The vectors hold the lists. -/
def HoldsAll (type : ElementType) (vectors : κ → Option (RawVector α))
    (lists : κ → Option (List α)) : Prop :=
  ∀ k, Option.Rel (Holds type) (vectors k) (lists k)

namespace HoldsAll

variable {vectors : κ → Option (RawVector α)} {lists : κ → Option (List α)} {k : κ} {xs : List α}

omit [DecidableEq κ] in
theorem holdsAt (h : HoldsAll type vectors lists) (hxs : lists k = some xs) :
    ∃ v, vectors k = some v ∧ vectorAt vectors k = .ok v ∧ Holds type v xs := by
  have hk := h k
  rw [hxs] at hk
  cases hv : vectors k with
  | none =>
      rw [hv] at hk
      cases hk
  | some v =>
      rw [hv] at hk
      cases hk with
      | some hholds => exact ⟨v, rfl, by rw [vectorAt, hv], hholds⟩

theorem place (h : HoldsAll type vectors lists) {v : RawVector α} (hholds : Holds type v xs)
    (k : κ) :
    HoldsAll type (update vectors k (some v)) (update lists k (some xs)) := by
  intro k'
  by_cases hk : k' = k
  · rw [hk, update_self, update_self]
    exact .some hholds
  · rw [update_of_ne hk, update_of_ne hk]
    exact h k'

theorem remove (h : HoldsAll type vectors lists) (k : κ) :
    HoldsAll type (update vectors k none) (update lists k none) := by
  intro k'
  by_cases hk : k' = k
  · rw [hk, update_self, update_self]
    exact .none
  · rw [update_of_ne hk, update_of_ne hk]
    exact h k'

theorem make (h : HoldsAll type vectors lists) (hk : lists k = none) (v : RawVector α) :
    makeAt vectors k v = .ok (update vectors k (some v)) := by
  have hrel := h k
  rw [hk] at hrel
  cases hv : vectors k with
  | none => rw [makeAt, hv]
  | some w =>
      rw [hv] at hrel
      cases hrel

theorem step_update (h : HoldsAll type vectors lists) {v' : RawVector α} {ys : List α}
    {op : VectorOp κ α} {out : Option (Option α)} (hholds : Holds type v' ys)
    (hperform : perform type vectors op = .ok (update vectors k (some v'), out)) :
    ∃ vectors', step type vectors op = some (vectors', out) ∧
      HoldsAll type vectors' (update lists k (some ys)) :=
  ⟨_, by rw [step, hperform]; rfl, h.place hholds k⟩

end HoldsAll

theorem exists_split {xs : List α} {i : ℕ} (hi : i < xs.length) :
    ∃ front x back, xs = front ++ x :: back ∧ i = front.length ∧ xs[i]? = some x := by
  refine ⟨xs.take i, xs[i], xs.drop (i + 1), ?_, ?_, List.getElem?_eq_getElem hi⟩
  · rw [← List.drop_eq_getElem_cons hi, List.take_append_drop]
  · rw [List.length_take]
    omega

namespace HoldsAll

variable {vectors : κ → Option (RawVector α)} {lists : κ → Option (List α)}

omit [DecidableEq κ] in
theorem pop_followed (h : HoldsAll type vectors lists) {k : κ} {i : ℕ} {xs : List α} {x : α}
    (hxs : lists k = some xs) (hx : xs[i]? = some x) :
    ∃ v v', vectorAt vectors k = .ok v ∧ v.pop i = .ok (some x, v') ∧
      Holds type v' (xs.eraseIdx i) := by
  obtain ⟨v, -, hat, hholds⟩ := h.holdsAt hxs
  obtain ⟨hi, -⟩ := List.getElem?_eq_some_iff.mp hx
  obtain ⟨front, y, back, rfl, rfl, hy⟩ := exists_split hi
  rw [hy, Option.some_inj] at hx
  subst hx
  obtain ⟨v', hpop, hholds'⟩ := hholds.pop
  refine ⟨v, v', hat, hpop, ?_⟩
  rwa [List.eraseIdx_append_of_length_le le_rfl, Nat.sub_self, List.eraseIdx_cons_zero]

/-- **Each operation** that is sound does to the vectors what it is to do to the lists. -/
theorem followed [Inhabited α] (h : HoldsAll type vectors lists) {op : VectorOp κ α}
    (hsound : Sound type vectors op) {lists' : κ → Option (List α)} {out : Option (Option α)}
    (hlists : listPerform lists op = some (lists', out)) :
    ∃ vectors', step type vectors op = some (vectors', out) ∧ HoldsAll type vectors' lists' := by
  cases op with
  | construct k =>
      rw [listPerform] at hlists
      split_ifs at hlists with hk
      cases hlists
      refine h.step_update .new ?_
      rw [perform, h.make hk]
      rfl
  | copyConstruct k source =>
      obtain ⟨xs, hxs, hlists⟩ := Option.bind_eq_some_iff.mp hlists
      split_ifs at hlists with hk
      cases hlists
      obtain ⟨v, -, hat, hholds⟩ := h.holdsAt hxs
      obtain ⟨copy, hcopy, hholds'⟩ := hholds.copyConstruct
      refine h.step_update hholds' ?_
      rw [perform, hat, ok_bind, hcopy, ok_bind, h.make hk]
      rfl
  | pushBack k item =>
      obtain ⟨xs, hxs, hlists⟩ := Option.bind_eq_some_iff.mp hlists
      cases hlists
      obtain ⟨v, hv, hat, hholds⟩ := h.holdsAt hxs
      obtain ⟨v', hpush, hholds'⟩ := hholds.pushBack (hsound v hv) item
      refine h.step_update hholds' ?_
      rw [perform, hat, ok_bind, hpush]
      rfl
  | insert k i item =>
      obtain ⟨xs, hxs, hlists⟩ := Option.bind_eq_some_iff.mp hlists
      split_ifs at hlists with hi
      cases hlists
      obtain ⟨v, hv, hat, hholds⟩ := h.holdsAt hxs
      obtain ⟨front, x, back, rfl, rfl, -⟩ := exists_split hi
      have hfront : front ≠ [] := fun hnil => hsound.1 (by rw [hnil]; rfl)
      obtain ⟨v', hinsert, hholds'⟩ := hholds.insert (hsound.2 v hv) hfront
        (List.cons_ne_nil x back) item
      rw [insertIdx_length_append]
      refine h.step_update hholds' ?_
      rw [perform, hat, ok_bind, hinsert]
      rfl
  | extract k i | pop k i =>
      obtain ⟨xs, hxs, hlists⟩ := Option.bind_eq_some_iff.mp hlists
      obtain ⟨x, hx, hlists⟩ := Option.bind_eq_some_iff.mp hlists
      cases hlists
      obtain ⟨v, v', hat, hpop, hholds⟩ := h.pop_followed hxs hx
      refine h.step_update hholds ?_
      rw [perform, hat, ok_bind, hpop]
      rfl
  | clear k =>
      obtain ⟨xs, hxs, hlists⟩ := Option.bind_eq_some_iff.mp hlists
      cases hlists
      obtain ⟨v, -, hat, hholds⟩ := h.holdsAt hxs
      obtain ⟨v', hclear, hholds', -⟩ := hholds.clear
      refine h.step_update hholds' ?_
      rw [perform, hat, ok_bind, hclear]
      rfl
  | expand k n =>
      obtain ⟨xs, hxs, hlists⟩ := Option.bind_eq_some_iff.mp hlists
      cases hlists
      obtain ⟨v, -, hat, hholds⟩ := h.holdsAt hxs
      obtain rfl : n = 0 := hsound
      obtain ⟨v', hexpand, hholds'⟩ := hholds.expand
      rw [List.replicate_zero, List.append_nil]
      refine h.step_update hholds' ?_
      rw [perform, hat, ok_bind, hexpand]
      rfl
  | reserve k n =>
      obtain ⟨xs, hxs, hlists⟩ := Option.bind_eq_some_iff.mp hlists
      cases hlists
      obtain ⟨v, hv, hat, hholds⟩ := h.holdsAt hxs
      obtain ⟨v', hreserve, hholds', -⟩ := hholds.ensureCapacity (hsound v hv)
      have hsame : update lists k (some xs) = lists := by
        rw [← hxs, update_eq_self]
      rw [← hsame]
      refine h.step_update hholds' ?_
      rw [perform, hat, ok_bind, RawVector.reserve, hreserve]
      rfl
  | copyAssign k source =>
      obtain ⟨xs, hxs, hlists⟩ := Option.bind_eq_some_iff.mp hlists
      obtain ⟨ys, hys, hlists⟩ := Option.bind_eq_some_iff.mp hlists
      cases hlists
      obtain ⟨v, hv, hat, hholds⟩ := h.holdsAt hxs
      obtain ⟨other, hother, hatOther, hholdsOther⟩ := h.holdsAt hys
      by_cases hk : k = source
      · subst hk
        rw [← hys, update_eq_self]
        refine ⟨vectors, ?_, h⟩
        rw [step, perform, hat, ok_bind, ok_bind, if_pos rfl]
        rfl
      · have hempty : other.size = 0 := hsound.resolve_left hk other hother
        have hnil : ys = [] := List.length_eq_zero_iff.mp (by rw [← hholdsOther.size_eq, hempty])
        obtain ⟨v', hassign, hholds'⟩ := hholds.copyAssign hempty
        rw [hnil]
        refine h.step_update hholds' ?_
        rw [perform, hat, ok_bind, hatOther, ok_bind, if_neg hk, hassign]
        rfl
  | moveAssign k source =>
      obtain ⟨xs, hxs, hlists⟩ := Option.bind_eq_some_iff.mp hlists
      obtain ⟨ys, hys, hlists⟩ := Option.bind_eq_some_iff.mp hlists
      cases hlists
      obtain ⟨v, -, hat, hholds⟩ := h.holdsAt hxs
      obtain ⟨other, -, hatOther, hholdsOther⟩ := h.holdsAt hys
      refine ⟨_, ?_, (h.place hholdsOther k).place hholds source⟩
      rw [step, perform, hat, ok_bind, hatOther]
      rfl
  | destruct k =>
      obtain ⟨xs, hxs, hlists⟩ := Option.bind_eq_some_iff.mp hlists
      cases hlists
      obtain ⟨v, -, hat, hholds⟩ := h.holdsAt hxs
      refine ⟨_, ?_, h.remove k⟩
      rw [step, perform, hat, ok_bind, hholds.destruct]
      rfl

end HoldsAll

omit [DecidableEq κ] in
theorem empty_holdsAll : HoldsAll type (fun _ : κ => (none : Option (RawVector α))) fun _ => none :=
  fun _ => .none

/-- **In every run from no vectors**, of any number of them and over any type of elements, whose
operations apply to the lists and do not run into a defect of the vector, no operation is at fault,
they give out the elements that the lists do, and wherever the run ends each vector has the elements
of its list, and no other object in its array. -/
theorem run_refines_lists [Inhabited α] (type : ElementType) {ops : List (VectorOp κ α)}
    {lists : κ → Option (List α)} {outs : List (Option (Option α))}
    (hlists : runSteps listPerform (fun _ : κ => (none : Option (List α))) ops = some (lists, outs))
    (hmeet : StepsMeet (step type) (Sound type) (fun _ => none) ops) :
    ∃ vectors, runSteps (step type) (fun _ : κ => none) ops = some (vectors, outs) ∧
      HoldsAll type vectors lists :=
  runSteps_follows (fun _ _ _ _ h hsound hstep => h.followed hsound hstep) empty_holdsAll hmeet
    hlists

instance (v : RawVector α) (capacity : ℕ) : Decidable (Grows type v capacity) :=
  match h : v.newCapacity capacity with
  | .error _ => .isFalse fun ⟨_, heq, _⟩ => by rw [h] at heq; cases heq
  | .ok newCapacity =>
      decidable_of_iff (newCapacity * type.sizeOf < 2 ^ 64 ∧
          (newCapacity ≠ v.capacity → type.isTriviallyCopyable →
            v.size * type.sizeOf ≤ maxMemcopy))
        ⟨fun hrest => ⟨newCapacity, h, hrest⟩, fun ⟨_, heq, hrest⟩ => by
          rw [h] at heq
          cases heq
          exact hrest⟩

instance (vectors : κ → Option (RawVector α)) : (op : VectorOp κ α) →
    Decidable (Sound type vectors op)
  | .pushBack k _ => inferInstanceAs (Decidable (∀ v ∈ vectors k, Grows type v (v.size + 1)))
  | .insert k i _ =>
      inferInstanceAs (Decidable (i ≠ 0 ∧ ∀ v ∈ vectors k, Grows type v (v.size + 1)))
  | .expand _ n => inferInstanceAs (Decidable (n = 0))
  | .reserve k n => inferInstanceAs (Decidable (∀ v ∈ vectors k, Grows type v n))
  | .copyAssign k source =>
      inferInstanceAs (Decidable (k = source ∨ ∀ v ∈ vectors source, v.size = 0))
  | .construct _ | .copyConstruct _ _ | .extract _ _ | .pop _ _ | .clear _ | .moveAssign _ _
  | .destruct _ => .isTrue trivial

/-- A type of eight bytes, with a constructor and a destructor of its own. -/
def sampleType : ElementType := ⟨8, by decide, by decide, false⟩

theorem run_refines_lists_shifted : ∃ vectors lists,
    runSteps (step sampleType) (fun _ : Bool => none)
      [.construct true, .pushBack true 5, .pushBack true 7, .insert true 1 6,
        .copyConstruct false true, .pop true 0, .extract false 2, .reserve true 9, .expand true 0,
        .moveAssign true false, .copyAssign true true, .clear false, .copyAssign true false,
        .destruct false] =
      some (vectors, [none, none, none, none, none, some (some 5), some (some 7), none, none, none,
        none, none, none, none]) ∧ HoldsAll sampleType vectors lists :=
  have hlists : runSteps listPerform (fun _ : Bool => (none : Option (List ℕ)))
      [.construct true, .pushBack true 5, .pushBack true 7, .insert true 1 6,
        .copyConstruct false true, .pop true 0, .extract false 2, .reserve true 9, .expand true 0,
        .moveAssign true false, .copyAssign true true, .clear false, .copyAssign true false,
        .destruct false] = some (_, _) := rfl
  have ⟨vectors, hrun⟩ := run_refines_lists sampleType hlists (by decide +kernel)
  ⟨vectors, _, hrun⟩

/-- An insertion in front of the first element does not end, and what was copied into a vector or
added by `expand` is no object. -/
theorem run_refines_lists_fails :
    ((runSteps listPerform (fun _ : Bool => (none : Option (List ℕ)))
        [.construct true, .pushBack true 5, .insert true 0 6]).isSome = true ∧
      (runSteps (step sampleType) (fun _ : Bool => (none : Option (RawVector ℕ)))
        [.construct true, .pushBack true 5, .insert true 0 6]).isNone = true) ∧
    ((runSteps listPerform (fun _ : Bool => (none : Option (List ℕ)))
        [.construct true, .pushBack true 5, .construct false, .copyAssign false true,
          .pop false 0]).isSome = true ∧
      (runSteps (step sampleType) (fun _ : Bool => (none : Option (RawVector ℕ)))
        [.construct true, .pushBack true 5, .construct false, .copyAssign false true,
          .pop false 0]).isNone = true) ∧
    ((runSteps listPerform (fun _ : Bool => (none : Option (List ℕ)))
        [.construct true, .expand true 1, .pop true 0]).isSome = true ∧
      (runSteps (step sampleType) (fun _ : Bool => (none : Option (RawVector ℕ)))
        [.construct true, .expand true 1, .pop true 0]).isNone = true) := by
  decide +kernel

end BekOS.VectorMemory
