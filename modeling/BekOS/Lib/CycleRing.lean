import Mathlib.Algebra.Order.Group.Nat
import Mathlib.Data.List.Basic

/-!
# Rings whose entries carry the parity of their lap

A writer and a reader go round a ring of `size` slots.  Neither knows where the other one is: each
entry has a bit in it, which the writer sets to the parity of its lap, and the reader takes an entry
for a new one if the bit is the parity of its own.  With the number of entries that were written
and read so far in place of a position and a parity, the slot of an entry is its number modulo
`size` and the bit is `phase size` of it.

`Written` relates the slots to the whole stream of entries.  The bit tells the reader whether there
is an entry (`Written.cycle_eq_iff`) as long as the writer is at most a lap ahead.
-/

namespace CycleRing

open Function

variable {α : Type*} {cycle : α → Bool} {size : ℕ} {slots : ℕ → α} {stream : List α} {n : ℕ}

/-- The bit of the entries in the lap of the `n`th. -/
def phase (size n : ℕ) : Bool := n / size % 2 == 0

theorem phase_of_lt (h : n < size) : phase size n = true := by
  rw [phase, Nat.div_eq_of_lt h]
  rfl

/-- The bit is the other one a lap later. -/
theorem phase_add_size (hsize : 0 < size) (n : ℕ) : phase size (n + size) = !phase size n := by
  unfold phase
  rw [Nat.add_div_right n hsize]
  rcases Nat.mod_two_eq_zero_or_one (n / size) with h | h
  · have hnext : (n / size).succ % 2 = 1 := by omega
    rw [h, hnext]
    rfl
  · have hnext : (n / size).succ % 2 = 0 := by omega
    rw [h, hnext]
    rfl

/-- The slot after the last one is the first one. -/
theorem succ_mod (hsize : 0 < size) (n : ℕ) :
    (n + 1) % size = if n % size + 1 = size then 0 else n % size + 1 := by
  have hlt := Nat.mod_lt n hsize
  rw [← Nat.mod_add_mod]
  split_ifs with h
  · rw [h, Nat.mod_self]
  · exact Nat.mod_eq_of_lt (by omega)

/-- The bit changes after the last slot. -/
theorem phase_succ (hsize : 0 < size) (n : ℕ) :
    phase size (n + 1) = if n % size + 1 = size then !phase size n else phase size n := by
  have hn := Nat.div_add_mod n size
  have hlt := Nat.mod_lt n hsize
  split_ifs with h
  · have hdiv : (n + 1) / size = (n + size) / size := by
      rw [Nat.add_div_right n hsize]
      refine Nat.div_eq_of_lt_le ?_ ?_
      · rw [Nat.succ_mul, Nat.mul_comm]
        omega
      · rw [Nat.succ_mul, Nat.succ_mul, Nat.mul_comm]
        omega
    rw [← phase_add_size hsize, phase, phase, hdiv]
  · have hdiv : (n + 1) / size = n / size := by
      refine Nat.div_eq_of_lt_le ?_ ?_
      · rw [Nat.mul_comm]
        omega
      · rw [Nat.succ_mul, Nat.mul_comm]
        omega
    rw [phase, phase, hdiv]

/-- Two numbers less than a lap apart have different slots. -/
theorem mod_ne_of_lt {m : ℕ} (hlt : m < n) (hlap : n < m + size) : n % size ≠ m % size := by
  intro h
  have hdvd : size ∣ n - m := Nat.dvd_of_mod_eq_zero (Nat.sub_mod_eq_zero_of_mod_eq h)
  have hle := Nat.le_of_dvd (by omega) hdvd
  omega

/-- The slots after a stream of entries. -/
structure Written (cycle : α → Bool) (size : ℕ) (slots : ℕ → α) (stream : List α) : Prop where
  /-- The entries of the last lap are in their slots. -/
  held : ∀ n (h : n < stream.length), stream.length ≤ n + size → slots (n % size) = stream[n]
  /-- Each entry has the bit of its lap. -/
  tagged : ∀ n (h : n < stream.length), cycle stream[n] = phase size n
  /-- Where the next lap of entries goes the bit is still the one of the lap before. -/
  stale : ∀ n, stream.length ≤ n → n < stream.length + size →
    cycle (slots (n % size)) = !phase size n

namespace Written

/-- Before the first entry all bits are clear. -/
theorem nil (h : ∀ i < size, cycle (slots i) = false) : Written cycle size slots [] where
  held n hn := absurd hn (Nat.not_lt_zero n)
  tagged n hn := absurd hn (Nat.not_lt_zero n)
  stale n _ hn := by
    have hlt : n < size := by simpa using hn
    rw [phase_of_lt hlt, Nat.mod_eq_of_lt hlt]
    exact h n hlt

variable (written : Written cycle size slots stream)
include written

/-- **Writing the next entry.** -/
theorem append (hsize : 0 < size) {entry : α}
    (hentry : cycle entry = phase size stream.length) :
    Written cycle size (update slots (stream.length % size) entry)
      (stream ++ [entry]) := by
  have hlength : (stream ++ [entry]).length = stream.length + 1 := by simp
  refine ⟨fun n hn hlap => ?_, fun n hn => ?_, fun n hn hlap => ?_⟩
  · rw [hlength] at hn hlap
    rcases Nat.lt_succ_iff_lt_or_eq.mp hn with hlt | rfl
    · rw [update_of_ne (mod_ne_of_lt hlt (by omega)).symm, List.getElem_append_left hlt]
      exact written.held n hlt (by omega)
    · rw [update_self]
      simp
  · rw [hlength] at hn
    rcases Nat.lt_succ_iff_lt_or_eq.mp hn with hlt | rfl
    · rw [List.getElem_append_left hlt]
      exact written.tagged n hlt
    · simpa using hentry
  · rw [hlength] at hn hlap
    rcases Nat.lt_or_ge n (stream.length + size) with hlt | hge
    · rw [update_of_ne (mod_ne_of_lt (by omega) hlt)]
      exact written.stale n (by omega) hlt
    · have hn' : n = stream.length + size := by omega
      rw [hn', Nat.add_mod_right, update_self, hentry, phase_add_size hsize, Bool.not_not]

/-- The reader, who is at most a lap behind, finds the entry that it is to read. -/
theorem read (h : n < stream.length) (hlap : stream.length ≤ n + size) :
    slots (n % size) = stream[n] :=
  written.held n h hlap

/-- **The bit tells whether there is an entry to read.** -/
theorem cycle_eq_iff (hle : n ≤ stream.length) (hlap : stream.length ≤ n + size)
    (hsize : 0 < size) : cycle (slots (n % size)) = phase size n ↔ n < stream.length := by
  rcases Nat.lt_or_ge n stream.length with hlt | hge
  · exact iff_of_true ((congrArg cycle (written.held n hlt hlap)).trans (written.tagged n hlt)) hlt
  · refine iff_of_false ?_ (by omega)
    rw [written.stale n hge (by omega)]
    exact Bool.not_ne_self _

/-- The bit tells the writer nothing: it is always the one of the lap before. -/
theorem cycle_ne (hsize : 0 < size) :
    cycle (slots (stream.length % size)) ≠ phase size stream.length := by
  rw [written.stale _ le_rfl (by omega)]
  exact Bool.not_ne_self _

end Written

end CycleRing
