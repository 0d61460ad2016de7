import Mathlib.Data.List.Nodup

/-!
# Singly linked lists

Nodes that each know the next one are a list from any node on, as far as one follows it.  What is
linked into such a list or out of it is seen from the link of the node before.
-/

namespace BekOS

universe u

/-- Whoever follows `next` from `first` meets these nodes and then gets to `last`. -/
def Linked {ι : Type u} (next : ι → ι) : ι → List ι → ι → Prop
  | first, [], last => first = last
  | first, node :: rest, last => first = node ∧ Linked next (next node) rest last

section Linked

variable {ι : Type u} {next next' : ι → ι} {first last node : ι} {l l' : List ι}

theorem linked_nil : Linked next first [] last ↔ first = last := Iff.rfl

theorem linked_cons : Linked next first (node :: l) last ↔
    first = node ∧ Linked next (next node) l last := Iff.rfl

/-- A list in two parts, with the node that the second part begins with. -/
theorem linked_append : Linked next first (l ++ l') last ↔
    ∃ middle, Linked next first l middle ∧ Linked next middle l' last := by
  induction l generalizing first with
  | nil => exact ⟨fun h => ⟨first, rfl, h⟩, fun ⟨_, h, h'⟩ => (h : first = _) ▸ h'⟩
  | cons node rest ih =>
      rw [List.cons_append, linked_cons, ih]
      constructor
      · rintro ⟨hfirst, middle, hrest, h'⟩
        exact ⟨middle, ⟨hfirst, hrest⟩, h'⟩
      · rintro ⟨middle, ⟨hfirst, hrest⟩, h'⟩
        exact ⟨hfirst, middle, hrest, h'⟩

/-- Where a list begins. -/
theorem Linked.first_eq (h : Linked next first l last) : first = l.headD last := by
  cases l with
  | nil => exact h
  | cons node rest => exact h.1

/-- Only the links of the nodes matter. -/
theorem Linked.congr (h : Linked next first l last) (hnext : ∀ node ∈ l, next' node = next node) :
    Linked next' first l last := by
  induction l generalizing first with
  | nil => exact h
  | cons node rest ih =>
      obtain ⟨hnode, hrest⟩ := List.forall_mem_cons.mp hnext
      refine ⟨h.1, ?_⟩
      rw [hnode]
      exact ih h.2 hrest

end Linked

end BekOS
