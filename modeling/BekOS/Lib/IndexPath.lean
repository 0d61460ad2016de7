import Mathlib.Data.List.Nodup
import Mathlib.Data.List.Perm.Subperm

/-!
# Linked chains over indices

A linked list laid out in an array is a successor function: `next a` is the
element after `a`, or `none` where the chain ends.  `IsPath next start path`
says that `path` lists what is met from `start` to the end; a chain that runs
into a cycle has no path.  `follow` computes the path within a fuel.

The lemmas say what a path needs of the successor function (`IsPath.congr`) and
how two chains are joined (`IsPath.splice`).
-/

namespace IndexPath

universe u

variable {α : Type u}

/-- `path` lists the elements of the chain from `start` to its end. -/
def IsPath (next : α → Option α) : Option α → List α → Prop
  | none, [] => True
  | some a, b :: rest => a = b ∧ IsPath next (next a) rest
  | _, _ => False

/-- The elements of the chain from `start`, as far as the fuel goes. -/
def follow (next : α → Option α) : ℕ → Option α → List α
  | 0, _ => []
  | _ + 1, none => []
  | fuel + 1, some a => a :: follow next fuel (next a)

example : IsPath (fun n => if n = 0 then none else some (n - 1)) (some 2) [2, 1, 0] := by
  simp [IsPath]

example : follow (fun n => if n = 0 then none else some (n - 1)) 3 (some 2) = [2, 1, 0] := by
  simp [follow]

variable {next next' : α → Option α} {start : Option α} {path : List α}

theorem isPath_nil_iff : IsPath next start [] ↔ start = none := by
  cases start with
  | none => simp [IsPath]
  | some a => simp [IsPath]

theorem isPath_cons_iff {b : α} {rest : List α} :
    IsPath next start (b :: rest) ↔ start = some b ∧ IsPath next (next b) rest := by
  cases start with
  | none => simp [IsPath]
  | some a =>
      simp only [IsPath, Option.some_inj]
      constructor
      · rintro ⟨rfl, h⟩
        exact ⟨rfl, h⟩
      · rintro ⟨rfl, h⟩
        exact ⟨rfl, h⟩

/-- A path starts where the chain does. -/
theorem IsPath.start_mem {a : α} (h : IsPath next (some a) path) : a ∈ path := by
  cases path with
  | nil => cases h
  | cons b rest =>
      obtain ⟨rfl, -⟩ := h
      exact List.mem_cons_self

/-- A path depends on the successors of its own elements only. -/
theorem IsPath.congr (h : IsPath next start path)
    (same : ∀ a ∈ path, next' a = next a) : IsPath next' start path := by
  induction path generalizing start with
  | nil => exact isPath_nil_iff.mpr (isPath_nil_iff.mp h)
  | cons a rest ih =>
      obtain ⟨hstart, hrest⟩ := isPath_cons_iff.mp h
      refine isPath_cons_iff.mpr ⟨hstart, ?_⟩
      rw [same a (by simp)]
      exact ih hrest fun b hb => same b (by simp [hb])

/-- Every other element of a path leads on to an element of it. -/
theorem IsPath.exists_next {init : List α} {b : α} (h : IsPath next start (init ++ [b])) :
    ∀ a ∈ init, ∃ c ∈ init ++ [b], next a = some c := by
  induction init generalizing start with
  | nil => simp
  | cons a init ih =>
      obtain ⟨-, hrest⟩ := isPath_cons_iff.mp h
      have hrest' : IsPath next (next a) (init ++ [b]) := hrest
      intro d hd
      rcases List.mem_cons.mp hd with rfl | hd
      · cases hnext : next d with
        | none =>
            rw [hnext] at hrest'
            cases init with
            | nil => cases hrest'
            | cons _ _ => cases hrest'
        | some c =>
            rw [hnext] at hrest'
            exact ⟨c, List.mem_cons_of_mem d hrest'.start_mem, rfl⟩
      · obtain ⟨c, hc, hnext⟩ := ih hrest' d hd
        exact ⟨c, List.mem_cons_of_mem a hc, hnext⟩

/-- **Joining chains.**  Where the last element of a path is made to lead on to
the start of another, the two paths are one. -/
theorem IsPath.splice {init tail : List α} {b : α} {start' : Option α}
    (h : IsPath next start (init ++ [b])) (htail : IsPath next' start' tail)
    (same : ∀ a ∈ init, next' a = next a) (joined : next' b = start') :
    IsPath next' start (init ++ b :: tail) := by
  induction init generalizing start with
  | nil =>
      have hstart := (isPath_cons_iff.mp h).1
      exact isPath_cons_iff.mpr ⟨hstart, by rw [joined]; exact htail⟩
  | cons a init ih =>
      obtain ⟨hstart, hrest⟩ := isPath_cons_iff.mp h
      refine isPath_cons_iff.mpr ⟨hstart, ?_⟩
      rw [same a (by simp)]
      exact ih hrest fun c hc => same c (by simp [hc])

/-- With enough fuel, `follow` lists the path. -/
theorem IsPath.follow_eq (h : IsPath next start path) {fuel : ℕ}
    (hfuel : path.length ≤ fuel) : follow next fuel start = path := by
  induction path generalizing start fuel with
  | nil =>
      rw [isPath_nil_iff] at h
      subst h
      cases fuel <;> rfl
  | cons a rest ih =>
      obtain ⟨rfl, hrest⟩ := isPath_cons_iff.mp h
      obtain ⟨fuel, rfl⟩ : ∃ m, fuel = m + 1 :=
        ⟨fuel - 1, by simp only [List.length_cons] at hfuel; omega⟩
      rw [follow, ih hrest (by simpa using hfuel)]

end IndexPath
