import Mathlib.Logic.Equiv.Basic

/-!
# Resources with one owner

Several owners hold resources, each at most one.  `SoleOwners` says that what is held is live, that
no resource is held twice, and that no live resource is lost.  It is kept when an owner takes a new
resource, when one gives up what it holds, and when two owners exchange what they hold.
-/

namespace BekOS

open Function

universe u v

variable {ι : Type u} {κ : Type v}

section Update

variable {α β : Type*} [DecidableEq ι]

/-- Two values exchange their places. -/
theorem update_update_eq_swap (f : ι → α) (i j : ι) :
    update (update f i (f j)) j (f i) = fun k => f (Equiv.swap i j k) := by
  funext k
  by_cases hj : k = j
  · subst hj
    rw [update_self, Equiv.swap_apply_right]
  · rw [update_of_ne hj]
    by_cases hi : k = i
    · subst hi
      rw [update_self, Equiv.swap_apply_left]
    · rw [update_of_ne hi, Equiv.swap_apply_of_ne_of_ne hi hj]

theorem bind_update (f : ι → Option α) (g : α → Option β) (i : ι) (value : Option α) :
    (fun k => (update f i value k).bind g) =
      update (fun k => (f k).bind g) i (value.bind g) := by
  funext k
  by_cases hk : k = i
  · subst hk
    rw [update_self, update_self]
  · rw [update_of_ne hk, update_of_ne hk]

end Update

/-- Each live resource is held, by one owner, and nothing else is held. -/
structure SoleOwners (held : ι → Option κ) (live : κ → Prop) : Prop where
  live_of_held : ∀ {i k}, held i = some k → live k
  unique : ∀ {i j k}, held i = some k → held j = some k → i = j
  owned : ∀ {k}, live k → ∃ i, held i = some k

namespace SoleOwners

variable {held : ι → Option κ} {live live' : κ → Prop} {i j : ι} {k : κ}

theorem none : SoleOwners (fun _ : ι => (Option.none : Option κ)) fun _ => False where
  live_of_held h := by cases h
  unique h := by cases h
  owned h := h.elim

theorem congr (h : SoleOwners held live) (hlive : ∀ k, live' k ↔ live k) :
    SoleOwners held live' := by
  obtain rfl : live' = live := funext fun k => propext (hlive k)
  exact h

theorem eq_none_of_not_live (h : SoleOwners held live) (hk : ¬ live k) : held i ≠ some k :=
  fun hi => hk (h.live_of_held hi)

/-- Two owners exchange what they hold. -/
theorem comp (h : SoleOwners held live) (e : ι ≃ ι) : SoleOwners (fun i => held (e i)) live where
  live_of_held hi := h.live_of_held hi
  unique hi hj := e.injective (h.unique hi hj)
  owned hk := by
    obtain ⟨i, hi⟩ := h.owned hk
    exact ⟨e.symm i, by rw [Equiv.apply_symm_apply, hi]⟩

variable [DecidableEq ι]

/-- An owner that holds nothing takes a new resource. -/
theorem add (h : SoleOwners held live) (hi : held i = Option.none) (hk : ¬ live k) :
    SoleOwners (update held i (some k)) fun k' => k' = k ∨ live k' where
  live_of_held {j k'} hj := by
    by_cases hji : j = i
    · subst hji
      rw [update_self] at hj
      exact Or.inl (Option.some.inj hj).symm
    · rw [update_of_ne hji] at hj
      exact Or.inr (h.live_of_held hj)
  unique {j j' k'} hj hj' := by
    by_cases hji : j = i <;> by_cases hji' : j' = i
    · rw [hji, hji']
    · subst hji
      rw [update_self] at hj
      rw [update_of_ne hji', ← hj] at hj'
      exact absurd hj' (h.eq_none_of_not_live hk)
    · subst hji'
      rw [update_self] at hj'
      rw [update_of_ne hji, ← hj'] at hj
      exact absurd hj (h.eq_none_of_not_live hk)
    · rw [update_of_ne hji] at hj
      rw [update_of_ne hji'] at hj'
      exact h.unique hj hj'
  owned {k'} hk' := by
    rcases hk' with rfl | hk'
    · exact ⟨i, update_self i _ held⟩
    · obtain ⟨j, hj⟩ := h.owned hk'
      have hji : j ≠ i := by
        rintro rfl
        rw [hi] at hj
        cases hj
      exact ⟨j, by rw [update_of_ne hji, hj]⟩

/-- An owner gives up what it holds. -/
theorem remove (h : SoleOwners held live) (hi : held i = some k) :
    SoleOwners (update held i Option.none) fun k' => live k' ∧ k' ≠ k where
  live_of_held {j k'} hj := by
    by_cases hji : j = i
    · rw [hji, update_self] at hj
      cases hj
    · rw [update_of_ne hji] at hj
      refine ⟨h.live_of_held hj, ?_⟩
      rintro rfl
      exact hji (h.unique hj hi)
  unique {j j' k'} hj hj' := by
    by_cases hji : j = i
    · rw [hji, update_self] at hj
      cases hj
    · by_cases hji' : j' = i
      · rw [hji', update_self] at hj'
        cases hj'
      · rw [update_of_ne hji] at hj
        rw [update_of_ne hji'] at hj'
        exact h.unique hj hj'
  owned {k'} hk' := by
    obtain ⟨j, hj⟩ := h.owned hk'.1
    have hji : j ≠ i := by
      rintro rfl
      rw [hi] at hj
      exact hk'.2 (Option.some.inj hj).symm
    exact ⟨j, by rw [update_of_ne hji, hj]⟩

end SoleOwners

end BekOS
