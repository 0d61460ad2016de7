import Mathlib.Data.List.Basic

/-!
# Overlays and windows

A sequence written over another from an offset on, as a file is written or a buffer filled, and
the part of a sequence that lies between two offsets.
-/

namespace BekOS

universe u

variable {α : Type u} {under a b : List α} {off off' len m n : ℕ}

/-- The sequence with `upper` in it from `off` on, made longer if need be. -/
def overlay (under : List α) (off : ℕ) (upper : List α) : List α :=
  under.take off ++ upper ++ under.drop (off + upper.length)

/-- The `len` values from `off` on, as far as there are any. -/
def window (under : List α) (off len : ℕ) : List α := (under.drop off).take len

@[simp] theorem overlay_nil (under : List α) (off : ℕ) : overlay under off [] = under := by
  rw [overlay, List.append_nil, List.length_nil, Nat.add_zero, List.take_append_drop]

/-- Two overlays, one behind the other, are one. -/
theorem overlay_append (under : List α) (off : ℕ) (a b : List α) :
    overlay (overlay under off a) (off + a.length) b = overlay under off (a ++ b) := by
  rcases Nat.le_total off under.length with h | h
  · have hlen : (under.take off ++ a).length = off + a.length := by
      rw [List.length_append, List.length_take_of_le h]
    have hdrop : (under.take off ++ a ++ under.drop (off + a.length)).drop
        (off + a.length + b.length) = under.drop (off + (a ++ b).length) := by
      rw [List.drop_append, List.drop_of_length_le (by omega), List.nil_append, hlen,
        Nat.add_sub_cancel_left, List.drop_drop, List.length_append, Nat.add_assoc]
    rw [overlay, overlay, hdrop, List.take_left' hlen, overlay, List.append_assoc (under.take off)]
  · rw [overlay, overlay, overlay, List.take_of_length_le h, List.drop_of_length_le (by omega),
      List.append_nil, List.take_of_length_le (by simp; omega),
      List.drop_of_length_le (by simp; omega), List.drop_of_length_le (by omega)]
    simp

theorem length_overlay (under : List α) (off : ℕ) (a : List α) (h : off ≤ under.length) :
    (overlay under off a).length = max under.length (off + a.length) := by
  rw [overlay, List.length_append, List.length_append, List.length_take_of_le h,
    List.length_drop]
  omega

theorem length_overlay_of_le (h : off + a.length ≤ under.length) :
    (overlay under off a).length = under.length := by
  rw [length_overlay under off a (Nat.le_trans (Nat.le_add_right _ _) h), Nat.max_eq_left h]

@[simp] theorem window_zero (under : List α) (off : ℕ) : window under off 0 = [] := List.take_zero

theorem length_window (under : List α) (off len : ℕ) :
    (window under off len).length = min len (under.length - off) := by
  rw [window, List.length_take, List.length_drop]

theorem length_window_of_le (h : off + len ≤ under.length) :
    (window under off len).length = len := by
  rw [length_window]
  omega

theorem window_add (under : List α) (off m n : ℕ) :
    window under off (m + n) = window under off m ++ window under (off + m) n := by
  rw [window, List.take_add, List.drop_drop]
  rfl

theorem take_window (under : List α) (off : ℕ) (h : m ≤ len) :
    (window under off len).take m = window under off m := by
  rw [window, List.take_take, Nat.min_eq_left h, window]

theorem drop_window (under : List α) (off m len : ℕ) :
    (window under off len).drop m = window under (off + m) (len - m) := by
  rw [window, List.drop_take, List.drop_drop, window]

/-- A window that ends where the overlay begins, or before it. -/
theorem window_overlay_before (h : off' + len ≤ off) (hoff : off ≤ under.length) :
    window (overlay under off a) off' len = window under off' len := by
  have htake : (under.take off).length = off := List.length_take_of_le hoff
  rw [window, overlay, List.append_assoc, List.drop_append_of_le_length (by omega),
    List.take_append_of_le_length (by rw [List.length_drop]; omega), List.drop_take,
    List.take_take, Nat.min_eq_left (by omega), window]

/-- A window that begins where the overlay ends, or after it. -/
theorem window_overlay_after (h : off + a.length ≤ off') (hoff : off ≤ under.length) :
    window (overlay under off a) off' len = window under off' len := by
  have hlen : (under.take off ++ a).length = off + a.length := by
    rw [List.length_append, List.length_take_of_le hoff]
  rw [window, overlay, List.drop_append, List.drop_of_length_le (by omega), List.nil_append, hlen,
    List.drop_drop, Nat.add_sub_cancel' h, window]

/-- The window where the overlay is. -/
theorem window_overlay_self (hoff : off ≤ under.length) :
    window (overlay under off a) off a.length = a := by
  have htake : (under.take off).length = off := List.length_take_of_le hoff
  rw [window, overlay, List.append_assoc, List.drop_left' htake, List.take_left' rfl]

/-- A window made longer by an overlay that begins where it ended. -/
theorem window_overlay_grow (h : off ≤ off') (hoff : off' ≤ under.length) :
    window (overlay under off' a) off (off' - off + a.length) = window under off (off' - off) ++ a := by
  rw [window_add, window_overlay_before (by omega) hoff, Nat.add_sub_cancel' h,
    window_overlay_self hoff]

end BekOS
