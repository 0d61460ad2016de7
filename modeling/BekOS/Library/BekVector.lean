import Mathlib.Data.List.Basic

/-!
# `bek::vector`

A growing array.  `slots` is the memory that holds or has held an element: the
elements are its first `size`, and behind them lies what `extract` and `pop` have
left there.  A range-`for` whose body shortens the vector still goes to the end
it started with, and a reference to an element still names its slot, so both can
see what lies behind.
-/

namespace BekOS

universe u

theorem insertIdx_length_append {α : Type} (before after : List α) (item : α) :
    (before ++ after).insertIdx before.length item = before ++ item :: after := by
  induction before with
  | nil => rfl
  | cons first before ih => exact congrArg (first :: ·) ih

/-- The vector. -/
structure BekVector (α : Type u) where
  slots : List α
  size : ℕ
  size_le : size ≤ slots.length
  deriving DecidableEq

namespace BekVector

variable {α : Type u}

/-- The elements. -/
def toList (v : BekVector α) : List α := v.slots.take v.size

/-- The empty vector. -/
def empty : BekVector α where
  slots := []
  size := 0
  size_le := Nat.le_refl 0

/-- `push_back`, which leaves nothing behind the element it adds: a vector that
grows copies its elements only, and otherwise the slot taken is the first one
behind them. -/
def pushBack (v : BekVector α) (item : α) : BekVector α where
  slots := v.toList ++ item :: v.slots.drop (v.size + 1)
  size := v.size + 1
  size_le := by
    have := v.size_le
    simp only [toList, List.length_append, List.length_take, List.length_cons]
    omega

/-- `extract` of the element in slot `i`: the elements behind it move down, and
the last slot keeps what it holds. -/
def extract (v : BekVector α) (i : ℕ) : Option (BekVector α) :=
  if h : i < v.size then
    some {
      slots := v.toList.eraseIdx i ++ v.slots.drop (v.size - 1)
      size := v.size - 1
      size_le := by
        have := v.size_le
        rw [List.length_append, List.length_eraseIdx_of_lt (by simp [toList]; omega),
          List.length_drop, toList, List.length_take]
        omega }
  else none

variable {v : BekVector α} {i : ℕ}

@[simp] theorem length_toList : v.toList.length = v.size := by
  have := v.size_le
  simp [toList, this]

@[simp] theorem toList_pushBack (item : α) : (v.pushBack item).toList = v.toList ++ [item] := by
  have hlength : (v.toList ++ [item]).length = v.size + 1 := by simp
  have hslots : (v.pushBack item).slots =
      (v.toList ++ [item]) ++ v.slots.drop (v.size + 1) := by simp [pushBack]
  show (v.pushBack item).slots.take (v.size + 1) = _
  rw [hslots, ← hlength, List.take_left]

theorem getElem?_slots (h : i < v.size) : v.slots[i]? = v.toList[i]? := by
  rw [toList, List.getElem?_take_of_lt h]

/-- **Extraction** removes the element. -/
theorem extract_of_lt (h : i < v.size) :
    ∃ v', v.extract i = some v' ∧ v'.toList = v.toList.eraseIdx i ∧ v'.size = v.size - 1 ∧
      v'.slots.length = v.slots.length ∧
      (∀ j, i ≤ j → j + 1 < v.size → v'.slots[j]? = v.toList[j + 1]?) ∧
      ∀ j, j < i ∨ v.size ≤ j + 1 → v'.slots[j]? = v.slots[j]? := by
  have hsize := v.size_le
  have hlength : (v.toList.eraseIdx i).length = v.size - 1 := by
    rw [List.length_eraseIdx_of_lt (by rw [length_toList]; exact h), length_toList]
  refine ⟨_, dif_pos h, ?_, rfl, ?_, ?_, ?_⟩
  · show List.take (v.size - 1) (v.toList.eraseIdx i ++ _) = _
    rw [← hlength, List.take_left]
  · rw [List.length_append, hlength, List.length_drop]
    omega
  · intro j hij hj
    show (v.toList.eraseIdx i ++ _)[j]? = _
    rw [List.getElem?_append_left (by omega), List.getElem?_eraseIdx_of_ge hij]
  · intro j hj
    show (v.toList.eraseIdx i ++ _)[j]? = _
    rcases Nat.lt_or_ge j (v.size - 1) with hlt | hge
    · have hji : j < i := by omega
      rw [List.getElem?_append_left (by omega), List.getElem?_eraseIdx_of_lt hji,
        getElem?_slots (by omega)]
    · rw [List.getElem?_append_right (by omega), hlength, List.getElem?_drop]
      congr 1
      omega

theorem mem_slots_pushBack {item x : α} (h : x ∈ (v.pushBack item).slots) :
    x = item ∨ x ∈ v.slots := by
  have h' : x ∈ v.toList ++ item :: v.slots.drop (v.size + 1) := h
  rcases List.mem_append.mp h' with hold | hnew
  · exact Or.inr (List.mem_of_mem_take hold)
  · rcases List.mem_cons.mp hnew with heq | hbehind
    · exact Or.inl heq
    · exact Or.inr (List.mem_of_mem_drop hbehind)

theorem mem_slots_extract {v' : BekVector α} {x : α} (h : v.extract i = some v')
    (hx : x ∈ v'.slots) : x ∈ v.slots := by
  unfold extract at h
  split_ifs at h with hlt
  rw [Option.some_inj] at h
  subst h
  rcases List.mem_append.mp hx with hkept | hbehind
  · exact List.mem_of_mem_take (List.mem_of_mem_eraseIdx hkept)
  · exact List.mem_of_mem_drop hbehind

theorem mem_slots_of_mem_toList {x : α} (h : x ∈ v.toList) : x ∈ v.slots :=
  List.mem_of_mem_take h

end BekVector

end BekOS
