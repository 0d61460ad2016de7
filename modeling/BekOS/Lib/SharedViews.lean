import Mathlib.Data.List.Basic

/-!
# Views of one memory

Several users have views of one memory: each has names of its own for some of the cells, and may
write by some of the names.  They are isolated when what each reads does not depend on what the
others write; and that is so exactly when no cell that one may write has a name in another's view.
-/

namespace BekOS

open Function

universe u v w x

/-- The cells that a user's names stand for, and the names by which it may write. -/
structure View (ν : Type u) (κ : Type v) where
  cell : ν → Option κ
  writable : ν → Bool

namespace View

variable {ν : Type u} {κ : Type v} {α : Type w} {ι : Type x} [DecidableEq κ]

/-- What is read by a name. -/
def load (view : View ν κ) (mem : κ → α) (name : ν) : Option α := (view.cell name).map mem

/-- The memory after a write by a name; a write that is not allowed does nothing. -/
def store (view : View ν κ) (mem : κ → α) (name : ν) (value : α) : κ → α :=
  match view.cell name with
  | some cell => if view.writable name then update mem cell value else mem
  | none => mem

/-- The memory after writes by several users. -/
def stores (views : ι → View ν κ) (mem : κ → α) (writes : List (ι × ν × α)) : κ → α :=
  writes.foldl (fun mem write => (views write.1).store mem write.2.1 write.2.2) mem

/-- What each user reads, after any writes, is what it would read after its own. -/
def Isolated [DecidableEq ι] (views : ι → View ν κ) (mem : κ → α) : Prop :=
  ∀ writes i name, (views i).load (stores views mem writes) name =
    (views i).load (stores views mem (writes.filter fun write => write.1 = i)) name

variable {view : View ν κ} {mem mem' : κ → α} {name : ν} {value : α} {cell : κ}

omit [DecidableEq κ] in
theorem load_of_cell (h : view.cell name = some cell) : view.load mem name = some (mem cell) := by
  rw [load, h, Option.map_some]

theorem store_of_cell (h : view.cell name = some cell) (hwritable : view.writable name = true) :
    view.store mem name value = update mem cell value := by
  rw [store, h]
  exact if_pos hwritable

/-- A write changes one cell at most, one that has a name by which it may be written. -/
theorem store_of_ne
    (h : ∀ name, view.writable name = true → view.cell name ≠ some cell) :
    view.store mem name value cell = mem cell := by
  rw [store]
  cases hcell : view.cell name with
  | none => rfl
  | some other =>
      dsimp only
      split_ifs with hwritable
      · refine update_of_ne ?_ _ _
        rintro rfl
        exact h name hwritable hcell
      · rfl

/-- The same write to memories that agree on a cell. -/
theorem store_congr (h : mem cell = mem' cell) :
    view.store mem name value cell = view.store mem' name value cell := by
  rw [store, store]
  cases view.cell name with
  | none => exact h
  | some other =>
      dsimp only
      split_ifs
      · rw [update_apply, update_apply, h]
      · exact h

variable [DecidableEq ι] {views : ι → View ν κ} {i : ι}

/-- A cell that no other user may write is as the user's own writes leave it. -/
theorem stores_own (h : ∀ j, j ≠ i → ∀ name, (views j).writable name = true →
      (views j).cell name ≠ some cell) (writes : List (ι × ν × α)) :
    ∀ {mem mem' : κ → α}, mem cell = mem' cell →
      stores views mem writes cell =
        stores views mem' (writes.filter fun write => write.1 = i) cell := by
  induction writes with
  | nil => exact fun hsame => hsame
  | cons write rest ih =>
      intro mem mem' hsame
      by_cases hown : write.1 = i
      · rw [List.filter_cons_of_pos (by simpa using hown)]
        exact ih (store_congr hsame)
      · rw [List.filter_cons_of_neg (by simpa using hown)]
        exact ih ((store_of_ne (h write.1 hown)).trans hsame)

/-- **Isolation** is that no user has a name for a cell that another may write. -/
theorem isolated_iff [Nontrivial α] (views : ι → View ν κ) (mem : κ → α) :
    Isolated views mem ↔ ∀ i j, j ≠ i → ∀ name, (views j).writable name = true →
      ∀ name' cell, (views i).cell name' = some cell → (views j).cell name ≠ some cell := by
  constructor
  · intro isolated i j hne name hwritable name' cell hcell hshared
    obtain ⟨value, hvalue⟩ := exists_ne (mem cell)
    have hread := isolated [(j, name, value)] i name'
    rw [List.filter_cons_of_neg (by simpa using hne), List.filter_nil, load_of_cell hcell,
      load_of_cell hcell] at hread
    have hwritten : stores views mem [(j, name, value)] cell = value := by
      show (views j).store mem name value cell = value
      rw [store_of_cell hshared hwritable, update_self]
    exact hvalue (hwritten.symm.trans (Option.some.inj hread))
  · intro apart writes i name
    cases hcell : (views i).cell name with
    | none => rw [load, load, hcell, Option.map_none, Option.map_none]
    | some cell =>
        rw [load_of_cell hcell, load_of_cell hcell]
        refine congrArg some (stores_own ?_ writes rfl)
        exact fun j hne name' hwritable => apart i j hne name' hwritable name cell hcell

end View

end BekOS
