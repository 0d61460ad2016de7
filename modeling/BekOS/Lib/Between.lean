import Mathlib.Data.List.Basic

/-!
# Between two places of a list

As a cursor that runs over the list meets it: what lies between a start and the cursor grows by the
element under it.
-/

namespace BekOS

universe u

variable {α : Type u}

/-- The elements from one place up to another. -/
def between (l : List α) (start stop : ℕ) : List α := (l.drop start).take (stop - start)

example : between [1, 2, 3, 4] 1 3 = [2, 3] := by simp [between]

section Between

variable {l rest : List α} {a : α} {start cursor : ℕ}

@[simp] theorem between_self (l : List α) (start : ℕ) : between l start start = [] := by
  rw [between, Nat.sub_self, List.take_zero]

theorem drop_succ_of_cons (h : l.drop cursor = a :: rest) : l.drop (cursor + 1) = rest := by
  rw [← List.drop_drop, h]
  rfl

theorem length_of_drop (h : l.drop cursor = rest) (hle : cursor ≤ l.length) :
    l.length = cursor + rest.length := by
  rw [← h, List.length_drop]
  omega

theorem lt_length_of_drop (h : l.drop cursor = a :: rest) : cursor < l.length := by
  have hlength := congrArg List.length h
  rw [List.length_drop, List.length_cons] at hlength
  omega

/-- What lies in between grows by the element at the cursor. -/
theorem between_succ (h : l.drop cursor = a :: rest) (hle : start ≤ cursor) :
    between l start (cursor + 1) = between l start cursor ++ [a] := by
  have hdrop : (l.drop start)[cursor - start]? = some a := by
    rw [List.getElem?_drop, Nat.add_sub_cancel' hle, ← List.head?_drop, h]
    rfl
  rw [between, between, Nat.succ_sub hle, List.take_add_one, hdrop]
  rfl

theorem length_between (hlast : cursor ≤ l.length) :
    (between l start cursor).length = cursor - start := by
  rw [between, List.length_take, List.length_drop]
  omega

theorem between_eq_nil_iff (hle : start ≤ cursor) (hlast : cursor ≤ l.length) :
    between l start cursor = [] ↔ ¬ cursor > start := by
  rw [← List.length_eq_zero_iff, length_between hlast]
  omega

theorem between_singleton (h : l.drop cursor = a :: rest) :
    between l cursor (cursor + 1) = [a] := by
  rw [between_succ h (Nat.le_refl _), between_self]
  rfl

/-- What a prefix of the rest makes. -/
theorem between_of_append {middle : List α} (h : l.drop start = middle ++ rest) :
    between l start (start + middle.length) = middle := by
  rw [between, h, Nat.add_sub_cancel_left, List.take_left]

end Between

end BekOS
