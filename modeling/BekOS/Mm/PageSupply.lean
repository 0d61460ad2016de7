import BekOS.Mm.PageAllocator
import Mathlib.Data.List.Perm.Basic

/-!
# How long the page allocator lasts

`Spare n` says of a state of the page allocator that it has a page as long as fewer than `n` pages
have been taken from it.  In a pool it is a matter of counting single pages.
-/

namespace BekOS.PageSource

universe u

variable {σ : Type u} {source : PageSource σ} {state state' : σ} {page : Page}
  {count m n : ℕ}

/-- So many pages have been taken in all. -/
inductive Takes (source : PageSource σ) (state : σ) : ℕ → σ → Prop where
  | none : Takes source state 0 state
  | more {m : ℕ} {middle state' : σ} {count : ℕ} {page : Page} :
      Takes source state m middle → source.allocateRegion middle count = some (page, state') →
        Takes source state (m + count) state'

/-- While fewer than `n` pages have been taken, there is one more. -/
def Spare (source : PageSource σ) (n : ℕ) (state : σ) : Prop :=
  ∀ m < n, ∀ state', Takes source state m state' → source.allocateRegion state' 1 ≠ none

theorem Takes.after (h : source.allocateRegion state count = some (page, state')) {final : σ}
    (takes : Takes source state' m final) : Takes source state (count + m) final := by
  induction takes with
  | none => exact Nat.zero_add count ▸ Takes.none.more h
  | more _ hmore ih => exact (Nat.add_assoc _ _ _) ▸ ih.more hmore

theorem Spare.mono (spare : source.Spare n state) (h : m ≤ n) : source.Spare m state :=
  fun k hk => spare k (hk.trans_le h)

theorem Spare.after (spare : source.Spare (count + n) state)
    (h : source.allocateRegion state count = some (page, state')) : source.Spare n state' :=
  fun k hk _ takes => spare (count + k) (Nat.add_lt_add_left hk count) _ (takes.after h)

theorem Spare.exists_page (spare : source.Spare (n + 1) state) :
    ∃ page state', source.allocateRegion state 1 = some (page, state') := by
  have hsome := spare 0 (Nat.succ_pos n) state .none
  obtain ⟨⟨page, state'⟩, h⟩ := Option.ne_none_iff_exists'.mp hsome
  exact ⟨page, state', h⟩

/-! ## Pools -/

/-- Two regions of a pool have no page in common. -/
def Separate (region other : Page × ℕ) : Prop :=
  region.1 ≠ other.1 ∧ Apart region.1 region.2 other.1 other.2
deriving Decidable

theorem Separate.symm {region other : Page × ℕ} (h : Separate region other) :
    Separate other region :=
  ⟨h.1.symm, Or.symm h.2⟩

/-- The free single pages of a pool. -/
def singles (state : List (Page × ℕ) × List (Page × ℕ)) : List (Page × ℕ) :=
  state.1.filter (·.2 = 1)

/-- The regions of a pool, free or not, have no pages in common; the single ones lie in memory,
and so many of them are free. -/
structure HasSingles (state : List (Page × ℕ) × List (Page × ℕ)) (n : ℕ) : Prop where
  separate : (state.1 ++ state.2).Pairwise Separate
  enough : n ≤ (singles state).length

theorem HasSingles.after {state state' : List (Page × ℕ) × List (Page × ℕ)}
    (has : HasSingles state (count + n))
    (h : pool.allocateRegion state count = some (page, state')) : HasSingles state' n := by
  obtain ⟨region, hfind, heq⟩ := Option.map_eq_some_iff.mp (show poolAllocate state count = _ from h)
  have hmem := List.mem_of_find?_eq_some hfind
  have htest := List.find?_some hfind
  have hgrantable : Grantable state.2 count region := of_decide_eq_true htest
  cases heq
  obtain ⟨rfl, hpos, -⟩ := hgrantable
  have hcons := List.perm_cons_erase hmem
  have hperm : (state.1 ++ state.2).Perm
      (state.1.erase region ++ (region.1, region.2) :: state.2) :=
    (hcons.append_right _).trans List.perm_middle.symm
  refine ⟨(hperm.pairwise_iff Separate.symm).mp has.separate, ?_⟩
  have henough : region.2 + n ≤ (state.1.filter (·.2 = 1)).length := has.enough
  have hlength := (hcons.filter (·.2 = 1)).length_eq
  have htaken : ((region :: state.1.erase region).filter (·.2 = 1)).length ≤
      region.2 + ((state.1.erase region).filter (·.2 = 1)).length := by
    rw [List.filter_cons]
    split_ifs with hsingle
    · rw [List.length_cons]
      omega
    · omega
  show n ≤ ((state.1.erase region).filter (·.2 = 1)).length
  omega

theorem HasSingles.takes {state state' : List (Page × ℕ) × List (Page × ℕ)}
    (has : HasSingles state (m + n)) (takes : Takes pool state m state') : HasSingles state' n := by
  induction takes generalizing n with
  | none => rwa [Nat.zero_add] at has
  | more _ hmore ih =>
      rw [Nat.add_assoc] at has
      exact (ih has).after hmore

theorem HasSingles.exists_page {state : List (Page × ℕ) × List (Page × ℕ)}
    (has : HasSingles state (n + 1)) : pool.allocateRegion state 1 ≠ none := by
  obtain ⟨region, hregion⟩ := List.exists_mem_of_length_pos (Nat.zero_lt_of_lt has.enough)
  obtain ⟨hfree, hsingle⟩ := List.mem_filter.mp hregion
  have hone : region.2 = 1 := of_decide_eq_true hsingle
  have hgrantable : Grantable state.2 1 region := by
    refine ⟨hone, Nat.one_pos, region.1.isLt, fun other hother => ?_⟩
    have hseparate := (List.pairwise_append.mp has.separate).2.2 region hfree other hother
    rw [Separate, hone] at hseparate
    exact hseparate
  show (state.1.find? (Grantable state.2 1 ·)).map _ ≠ none
  rw [ne_eq, Option.map_eq_none_iff, List.find?_eq_none]
  exact fun hnot => hnot region hfree (decide_eq_true hgrantable)

/-- **A pool lasts** for as many pages as it has single ones. -/
theorem HasSingles.spare {state : List (Page × ℕ) × List (Page × ℕ)} (has : HasSingles state n) :
    pool.Spare n state := by
  intro m hm state' takes
  obtain ⟨k, rfl⟩ : ∃ k, n = m + (k + 1) := ⟨n - m - 1, by omega⟩
  exact (has.takes takes).exists_page

end BekOS.PageSource
