import BekOS.Lib.PartialRun
import BekOS.Library.IntrusiveList
import Mathlib.Data.List.Induction

/-!
# Runs of `IntrusiveList`

Every call on a set of lists does to the sequences of items exactly what it says, and fails its
assertion exactly when it does not apply to them.  The nodes of the items that are in no list stay
as they begin, and the iterators go through a sequence from either end.
-/

namespace BekOS

open PartialRun Function

universe u v

namespace IntrusiveLists

variable {κ : Type v} {ι : Type u}

section Operations

variable [DecidableEq κ] [DecidableEq ι]

/-! ## The other operations -/

/-- `insert_before`; `none` when a check fails. -/
def insertBefore (lists : IntrusiveLists κ ι) (k : κ) (before insertee : ι) :
    Option (IntrusiveLists κ ι) :=
  if (lists.nodes insertee).listHead = none ∧ (lists.nodes before).listHead = some k then
    let head := lists.heads k
    let prev := (lists.nodes before).prev
    let nodes := update lists.nodes insertee ⟨some k, some before, prev⟩
    some
      { heads := update lists.heads k
          ⟨if head.first = some before then some insertee else head.first, head.last⟩
        nodes := setPrev (setNext nodes prev (some insertee)) (some before) (some insertee) }
  else none

/-- `IntrusiveListNode::remove`, of any node. -/
def nodeRemove (lists : IntrusiveLists κ ι) (item : ι) : IntrusiveLists κ ι :=
  match (lists.nodes item).listHead with
  | some k => lists.removeNode k item
  | none => lists

/-- `pop_front`; `none` when the check fails. -/
def popFront (lists : IntrusiveLists κ ι) (k : κ) : Option (IntrusiveLists κ ι × ι) :=
  (lists.heads k).first.map fun item => (lists.nodeRemove item, item)

/-- The items that an iterator meets, in so many steps. -/
def iterate (advance : ι → Option ι) : ℕ → Option ι → List ι
  | _, none => []
  | 0, some _ => []
  | fuel + 1, some item => item :: iterate advance fuel (advance item)

/-- From `begin()` on. -/
def forward (lists : IntrusiveLists κ ι) (fuel : ℕ) (k : κ) : List ι :=
  iterate (fun item => (lists.nodes item).next) fuel (lists.heads k).first

/-- From `rbegin()` on. -/
def backward (lists : IntrusiveLists κ ι) (fuel : ℕ) (k : κ) : List ι :=
  iterate (fun item => (lists.nodes item).prev) fuel (lists.heads k).last

/-- A call on one of the lists, or on a node. -/
inductive ListOp (κ : Type v) (ι : Type u)
  | append (k : κ) (item : ι)
  | insertBefore (k : κ) (before insertee : ι)
  | remove (k : κ) (item : ι)
  | popFront (k : κ)
  | nodeRemove (item : ι)

/-- One of them, with the item that it returns; `none` when a check fails. -/
def step (lists : IntrusiveLists κ ι) : ListOp κ ι → Option (IntrusiveLists κ ι × Option ι)
  | .append k item => (lists.append k item).map fun lists => (lists, none)
  | .insertBefore k before insertee =>
      (lists.insertBefore k before insertee).map fun lists => (lists, none)
  | .remove k item => (lists.remove k item).map fun lists => (lists, none)
  | .popFront k => (lists.popFront k).map fun done => (done.1, some done.2)
  | .nodeRemove item => some (lists.nodeRemove item, none)

/-- The lists as they begin: empty, with no node in any of them. -/
def fresh : IntrusiveLists κ ι where
  heads _ := ⟨none, none⟩
  nodes _ := unlinked

/-! ## The sequences -/

/-- The list with an item put in before another. -/
def putBefore (before insertee : ι) : List ι → List ι
  | [] => []
  | item :: rest =>
      if item = before then insertee :: item :: rest
      else item :: putBefore before insertee rest

open Classical in
/-- What a call is to do to the sequences, if it applies to them. -/
noncomputable def sequenceStep (items : κ → List ι) :
    ListOp κ ι → Option ((κ → List ι) × Option ι)
  | .append k item =>
      if ∀ k, item ∉ items k then
        some (update items k (items k ++ [item]), none)
      else none
  | .insertBefore k before insertee =>
      if (∀ k, insertee ∉ items k) ∧ before ∈ items k then
        some (update items k (putBefore before insertee (items k)), none)
      else none
  | .remove k item =>
      if item ∈ items k then some (update items k ((items k).erase item), none)
      else none
  | .popFront k =>
      match items k with
      | [] => none
      | item :: rest => some (update items k rest, some item)
  | .nodeRemove item => some (fun k => (items k).erase item, none)

/-- The store holds these sequences, and the items that are in none of them have fresh nodes. -/
structure Holds (lists : IntrusiveLists κ ι) (items : κ → List ι) : Prop where
  represents : lists.Represents items
  unlisted : ∀ item, (∀ k, item ∉ items k) → lists.nodes item = unlinked

end Operations

section Holds

variable {lists : IntrusiveLists κ ι} {items : κ → List ι} {k : κ} {item before : ι}
  {front back : List ι}

theorem Holds.listHead_eq_some (h : lists.Holds items) :
    (lists.nodes item).listHead = some k ↔ item ∈ items k := by
  constructor
  · intro hhead
    by_contra hmem
    have hnone : ∀ k, item ∉ items k := by
      intro k' hmem'
      have hhead' := (h.represents.linked k').listHead_eq hmem'
      rw [hhead, Option.some_inj] at hhead'
      exact hmem (hhead' ▸ hmem')
    rw [h.unlisted item hnone] at hhead
    cases hhead
  · exact (h.represents.linked k).listHead_eq

theorem Holds.listHead_eq_none (h : lists.Holds items) :
    (lists.nodes item).listHead = none ↔ ∀ k, item ∉ items k := by
  rw [Option.eq_none_iff_forall_ne_some]
  exact forall_congr' fun k => not_congr h.listHead_eq_some

theorem fresh_holds : (fresh : IntrusiveLists κ ι).Holds fun _ => [] :=
  ⟨⟨fun _ => rfl, fun _ => List.nodup_nil, fun _ => trivial⟩, fun _ _ => rfl⟩

/-! ## Iteration -/

theorem iterate_forward {nodes : ι → IntrusiveListNode κ ι} {prev : Option ι} {l : List ι}
    (h : Segment nodes k prev l none) {fuel : ℕ} (hfuel : l.length ≤ fuel) :
    iterate (fun item => (nodes item).next) fuel l.head? = l := by
  induction l generalizing prev fuel with
  | nil => cases fuel <;> rfl
  | cons item rest ih =>
      obtain ⟨fuel, rfl⟩ := Nat.exists_eq_succ_of_ne_zero (Nat.ne_of_gt
        (Nat.lt_of_lt_of_le (Nat.succ_pos rest.length) hfuel))
      have hrest := ih h.2 (Nat.le_of_succ_le_succ hfuel)
      rw [List.head?_cons, iterate, h.1, Option.or_none, hrest]

theorem iterate_backward {nodes : ι → IntrusiveListNode κ ι} {next : Option ι} {l : List ι}
    (h : Segment nodes k none l next) {fuel : ℕ} (hfuel : l.length ≤ fuel) :
    iterate (fun item => (nodes item).prev) fuel l.getLast? = l.reverse := by
  induction l using List.reverseRecOn generalizing next fuel with
  | nil => cases fuel <;> rfl
  | append_singleton front item ih =>
      rw [List.length_append, List.length_singleton] at hfuel
      obtain ⟨fuel, rfl⟩ := Nat.exists_eq_succ_of_ne_zero (Nat.ne_of_gt
        (Nat.lt_of_lt_of_le (Nat.succ_pos front.length) hfuel))
      obtain ⟨hfront, hitem, -⟩ := segment_append.mp h
      have hrest := ih hfront (Nat.le_of_succ_le_succ hfuel)
      rw [List.getLast?_concat, iterate, hitem, Option.or_none, hrest, List.reverse_append,
        List.reverse_singleton]
      rfl

/-! ## Each call -/

variable [DecidableEq ι]

theorem putBefore_eq {insertee : ι} (h : before ∉ front) :
    putBefore before insertee (front ++ before :: back) = front ++ insertee :: before :: back := by
  induction front with
  | nil => exact if_pos rfl
  | cons item rest ih =>
      rw [List.mem_cons, not_or] at h
      rw [List.cons_append, putBefore, if_neg (Ne.symm h.1), ih h.2, List.cons_append]

variable [DecidableEq κ]

/-- **`append`** puts an item that is in no list behind those of the list. -/
theorem Holds.append (h : lists.Holds items) (hitem : ∀ k, item ∉ items k) :
    ∃ lists', lists.append k item = some lists' ∧
      lists'.Holds (update items k (items k ++ [item])) := by
  obtain ⟨lists', happend, hrepresents, hnodes⟩ :=
    h.represents.append (h.listHead_eq_none.mpr hitem)
  refine ⟨lists', happend, hrepresents, fun other hother => ?_⟩
  have hk := hother k
  rw [update_self, List.mem_append, List.mem_singleton, not_or] at hk
  have hold : ∀ k', other ∉ items k' := by
    intro k' hmem
    by_cases heq : k' = k
    · exact hk.1 (heq ▸ hmem)
    · have hk' := hother k'
      rw [update_of_ne heq] at hk'
      exact hk' hmem
  rw [hnodes other hold hk.2, h.unlisted other hold]

/-- **`insert_before`** puts an item that is in no list before one of the list. -/
theorem Holds.insertBefore (h : lists.Holds items) {insertee : ι}
    (hinsertee : ∀ k, insertee ∉ items k) (hbefore : before ∈ items k) :
    ∃ lists', lists.insertBefore k before insertee = some lists' ∧
      lists'.Holds (update items k (putBefore before insertee (items k))) := by
  obtain ⟨front, back, hsplit⟩ := List.append_of_mem hbefore
  have hnodup := h.represents.nodup k
  rw [hsplit] at hnodup
  obtain ⟨hfront, hrest, hapart⟩ := List.nodup_append.mp hnodup
  obtain ⟨hnotBack, hback⟩ := List.nodup_cons.mp hrest
  have hnotFront : before ∉ front := fun hmem => hapart before hmem before List.mem_cons_self rfl
  have hlinked := h.represents.linked k
  rw [hsplit, segment_append] at hlinked
  obtain ⟨hfrontLinked, hnode, hbackLinked⟩ := hlinked
  rw [Option.or_none, Option.or_none] at hnode
  have hnew := hinsertee k
  rw [hsplit, List.mem_append, List.mem_cons, not_or, not_or] at hnew
  obtain ⟨hnewFront, hnewBefore, hnewBack⟩ := hnew
  have hput : putBefore before insertee (items k) = front ++ insertee :: before :: back := by
    rw [hsplit, putBefore_eq hnotFront]
  obtain ⟨first, hfirst⟩ : ∃ first, first = update lists.nodes insertee
      ⟨some k, some before, front.getLast?⟩ := ⟨_, rfl⟩
  obtain ⟨second, hsecond⟩ : ∃ second, second =
      setNext first front.getLast? (some insertee) := ⟨_, rfl⟩
  obtain ⟨nodes, hnodes⟩ : ∃ nodes, nodes =
      setPrev second (some before) (some insertee) := ⟨_, rfl⟩
  have hsecondOf : ∀ other, other ∉ front → second other = first other := by
    intro other hother
    rw [hsecond, setNext_of_ne (getLast?_ne_of_not_mem hother)]
  have hnodesOf : ∀ other, other ≠ before → nodes other = second other := by
    intro other hother
    rw [hnodes, setPrev_of_ne fun heq => hother (Option.some_inj.mp heq).symm]
  have hkeeps : ∀ other, other ∉ front → other ≠ before → other ≠ insertee →
      nodes other = lists.nodes other := by
    intro other hother hne hne'
    rw [hnodesOf other hne, hsecondOf other hother, hfirst, update_of_ne hne']
  have hdone : lists.insertBefore k before insertee = some
      ⟨update lists.heads k ⟨if (items k).head? = some before then some insertee
        else (items k).head?, (items k).getLast?⟩, nodes⟩ := by
    rw [IntrusiveLists.insertBefore, if_pos ⟨h.listHead_eq_none.mpr hinsertee,
      h.listHead_eq_some.mpr hbefore⟩, h.represents.heads_eq k, hnode, hnodes, hsecond, hfirst]
  refine ⟨_, hdone, ⟨fun k' => ?_, fun k' => ?_, fun k' => ?_⟩, fun other hother => ?_⟩
  · by_cases hk : k' = k
    · subst hk
      show update lists.heads k' _ k' = _
      rw [update_self, update_self, hput, hsplit]
      congr 1
      · cases front with
        | nil => exact if_pos rfl
        | cons item rest =>
            have hne : item ≠ before := fun heq => hnotFront (heq ▸ List.mem_cons_self)
            exact if_neg fun heq => hne (Option.some_inj.mp heq)
      · rw [List.getLast?_append, List.getLast?_append, List.getLast?_cons_cons]
    · rw [update_of_ne hk, ← h.represents.heads_eq]
      exact update_of_ne hk _ _
  · by_cases hk : k' = k
    · subst hk
      rw [update_self, hput, List.nodup_middle, ← hsplit]
      exact List.nodup_cons.mpr ⟨hinsertee k', h.represents.nodup k'⟩
    · rw [update_of_ne hk]
      exact h.represents.nodup k'
  · by_cases hk : k' = k
    · subst hk
      rw [update_self, hput, segment_append, Option.or_none, Option.or_none]
      have hfrontFirst : Segment first k' none front ((before :: back).head?.or none) :=
        hfrontLinked.congr fun other hmem => by
          rw [hfirst, update_of_ne (ne_of_mem_of_not_mem hmem hnewFront)]
      have hfrontSecond : Segment second k' none front (some insertee) :=
        hsecond ▸ hfrontFirst.setNext hfront (some insertee)
      refine ⟨hfrontSecond.congr fun other hmem =>
        hnodesOf other (ne_of_mem_of_not_mem hmem hnotFront), ?_, ?_, ?_⟩
      · show nodes insertee = _
        rw [hnodesOf insertee hnewBefore, hsecondOf insertee hnewFront, hfirst,
          update_self]
        rfl
      · rw [hnodes]
        show update second before { second before with prev := some insertee } before = _
        rw [update_self, hsecondOf before hnotFront, hfirst,
          update_of_ne (Ne.symm hnewBefore), hnode, Option.or_none]
      · refine hbackLinked.congr fun other hmem => hkeeps other (fun hmem' => ?_)
          (ne_of_mem_of_not_mem hmem hnotBack) (ne_of_mem_of_not_mem hmem hnewBack)
        exact hapart other hmem' other (List.mem_cons_of_mem before hmem) rfl
    · rw [update_of_ne hk]
      refine (h.represents.linked k').congr fun other hmem => ?_
      have hother : other ∉ front ++ before :: back := fun hmem' =>
        hk (h.represents.eq_of_mem hmem (hsplit ▸ hmem'))
      rw [List.mem_append, List.mem_cons, not_or, not_or] at hother
      exact hkeeps other hother.1 hother.2.1 fun heq => hinsertee k' (heq ▸ hmem)
  · have hk := hother k
    rw [update_self, hput, List.mem_append, List.mem_cons, List.mem_cons, not_or, not_or,
      not_or] at hk
    obtain ⟨hotherFront, hotherNew, hotherBefore, hotherBack⟩ := hk
    have hold : ∀ k', other ∉ items k' := by
      intro k' hmem
      by_cases heq : k' = k
      · rw [heq, hsplit, List.mem_append, List.mem_cons] at hmem
        rcases hmem with hmem | hmem | hmem
        · exact hotherFront hmem
        · exact hotherBefore hmem
        · exact hotherBack hmem
      · have hk' := hother k'
        rw [update_of_ne heq] at hk'
        exact hk' hmem
    rw [← h.unlisted other hold]
    exact hkeeps other hotherFront hotherBefore hotherNew

/-- **`remove`** takes an item out of its list. -/
theorem Holds.remove (h : lists.Holds items) (hitem : item ∈ items k) :
    lists.remove k item = some (lists.removeNode k item) ∧
      (lists.removeNode k item).Holds (update items k ((items k).erase item)) := by
  obtain ⟨lists', hremove, hrepresents, hnode, hnodes⟩ := h.represents.remove hitem
  have hdone : lists.remove k item = some (lists.removeNode k item) :=
    if_pos (h.listHead_eq_some.mpr hitem)
  rw [hdone, Option.some_inj] at hremove
  subst hremove
  refine ⟨hdone, hrepresents, fun other hother => ?_⟩
  by_cases heq : other = item
  · rw [heq]
    exact hnode
  · have hold : ∀ k', other ∉ items k' := by
      intro k' hmem
      have hk' := hother k'
      by_cases hk : k' = k
      · subst hk
        rw [update_self] at hk'
        exact hk' ((List.mem_erase_of_ne heq).mpr hmem)
      · rw [update_of_ne hk] at hk'
        exact hk' hmem
    rw [hnodes other hold, h.unlisted other hold]

theorem Holds.erase_eq (h : lists.Holds items) (hitem : item ∈ items k) :
    update items k ((items k).erase item) = fun k => (items k).erase item := by
  funext k'
  by_cases hk : k' = k
  · subst hk
    exact update_self _ _ _
  · rw [update_of_ne hk]
    refine (List.erase_of_not_mem fun hmem => hk ?_).symm
    exact h.represents.eq_of_mem hmem hitem

/-- **`node.remove()`** takes an item out of its list, if it is in one. -/
theorem Holds.nodeRemove (h : lists.Holds items) :
    (lists.nodeRemove item).Holds fun k => (items k).erase item := by
  unfold IntrusiveLists.nodeRemove
  cases hhead : (lists.nodes item).listHead with
  | none =>
      have hitem := h.listHead_eq_none.mp hhead
      have hsame : (fun k => (items k).erase item) = items :=
        funext fun k => List.erase_of_not_mem (hitem k)
      rw [hsame]
      exact h
  | some k =>
      have hitem := h.listHead_eq_some.mp hhead
      rw [← h.erase_eq hitem]
      exact (h.remove hitem).2

/-- **`pop_front`** takes the first item out of a list. -/
theorem Holds.popFront (h : lists.Holds items) {rest : List ι} (hitems : items k = item :: rest) :
    lists.popFront k = some (lists.nodeRemove item, item) ∧
      (lists.nodeRemove item).Holds (update items k rest) := by
  have hitem : item ∈ items k := hitems ▸ List.mem_cons_self
  have herase : (items k).erase item = rest := by
    rw [hitems, List.erase_cons_head]
  constructor
  · rw [IntrusiveLists.popFront, h.represents.heads_eq, hitems]
    rfl
  · have hremoved : (lists.nodeRemove item).Holds fun k => (items k).erase item := h.nodeRemove
    rwa [← h.erase_eq hitem, herase] at hremoved

/-- **Each call** applies to the store exactly when it applies to the sequences, and does to it
what it is to do to them. -/
theorem Holds.step (h : lists.Holds items) (op : ListOp κ ι) :
    lists.step op = none ∧ sequenceStep items op = none ∨
      ∃ lists' items' out, lists.step op = some (lists', out) ∧
        sequenceStep items op = some (items', out) ∧ lists'.Holds items' := by
  cases op with
  | append k item =>
      by_cases hitem : ∀ k, item ∉ items k
      · obtain ⟨lists', happend, hholds⟩ := h.append (k := k) hitem
        exact Or.inr ⟨lists', _, none, by rw [IntrusiveLists.step, happend]; rfl, if_pos hitem,
          hholds⟩
      · have hhead : (lists.nodes item).listHead ≠ none := fun hnone =>
          hitem (h.listHead_eq_none.mp hnone)
        obtain ⟨k', hk'⟩ := Option.ne_none_iff_exists'.mp hhead
        refine Or.inl ⟨?_, if_neg hitem⟩
        rw [IntrusiveLists.step, IntrusiveLists.append, hk']
        rfl
  | insertBefore k before insertee =>
      by_cases happlies : (∀ k, insertee ∉ items k) ∧ before ∈ items k
      · obtain ⟨lists', hinsert, hholds⟩ := h.insertBefore happlies.1 happlies.2
        exact Or.inr ⟨lists', _, none, by rw [IntrusiveLists.step, hinsert]; rfl,
          if_pos happlies, hholds⟩
      · refine Or.inl ⟨?_, if_neg happlies⟩
        rw [IntrusiveLists.step, IntrusiveLists.insertBefore, if_neg, Option.map_none]
        rwa [h.listHead_eq_none, h.listHead_eq_some]
  | remove k item =>
      by_cases hitem : item ∈ items k
      · obtain ⟨hremove, hholds⟩ := h.remove hitem
        exact Or.inr ⟨_, _, none, by rw [IntrusiveLists.step, hremove]; rfl, if_pos hitem, hholds⟩
      · refine Or.inl ⟨?_, if_neg hitem⟩
        rw [IntrusiveLists.step, IntrusiveLists.remove, if_neg, Option.map_none]
        rwa [h.listHead_eq_some]
  | popFront k =>
      cases hitems : items k with
      | nil =>
          refine Or.inl ⟨?_, ?_⟩
          · rw [IntrusiveLists.step, IntrusiveLists.popFront, h.represents.heads_eq, hitems]
            rfl
          · rw [sequenceStep, hitems]
      | cons item rest =>
          obtain ⟨hpop, hholds⟩ := h.popFront hitems
          refine Or.inr ⟨_, _, some item, by rw [IntrusiveLists.step, hpop]; rfl, ?_, hholds⟩
          rw [sequenceStep, hitems]
  | nodeRemove item => exact Or.inr ⟨_, _, none, rfl, rfl, h.nodeRemove⟩

/-- What a store that holds sequences shows of them. -/
structure WellFormed (lists : IntrusiveLists κ ι) (items : κ → List ι) : Prop where
  /-- The iterators go through a list from either end, and stop. -/
  forward : ∀ k fuel, (items k).length ≤ fuel → lists.forward fuel k = items k
  backward : ∀ k fuel, (items k).length ≤ fuel → lists.backward fuel k = (items k).reverse
  /-- The node of an item knows its list, and which items are next to it there. -/
  listed : ∀ k front item back, items k = front ++ item :: back →
    lists.nodes item = ⟨some k, back.head?, front.getLast?⟩
  unlisted : ∀ item, (∀ k, item ∉ items k) → lists.nodes item = ⟨none, none, none⟩
  heads : ∀ k, lists.heads k = ⟨(items k).head?, (items k).getLast?⟩
  /-- No item is in a list twice, or in two of them. -/
  nodup : ∀ k, (items k).Nodup
  disjoint : ∀ k k' item, item ∈ items k → item ∈ items k' → k = k'

theorem Holds.wellFormed (h : lists.Holds items) : lists.WellFormed items where
  forward k fuel hfuel := by
    rw [IntrusiveLists.forward, h.represents.heads_eq]
    exact iterate_forward (h.represents.linked k) hfuel
  backward k fuel hfuel := by
    rw [IntrusiveLists.backward, h.represents.heads_eq]
    exact iterate_backward (h.represents.linked k) hfuel
  listed k front item back hsplit := by
    have hlinked := h.represents.linked k
    rw [hsplit, segment_append] at hlinked
    rw [hlinked.2.1, Option.or_none, Option.or_none]
  unlisted := h.unlisted
  heads := h.represents.heads_eq
  nodup := h.represents.nodup
  disjoint _ _ _ hitem hitem' := h.represents.eq_of_mem hitem hitem'

end Holds

/-- **In every run from empty lists**, of any number of lists over any type of items, the calls
that pass their assertions are those that apply to the sequences of items, they do to these what
they say, and the store is well formed wherever the run ends. -/
theorem run_refines [DecidableEq κ] [DecidableEq ι] (ops : List (ListOp κ ι)) :
    runSteps step (fresh : IntrusiveLists κ ι) ops = none ∧
        runSteps sequenceStep (fun _ : κ => ([] : List ι)) ops = none ∨
      ∃ lists items outs, runSteps step (fresh : IntrusiveLists κ ι) ops = some (lists, outs) ∧
        runSteps sequenceStep (fun _ : κ => ([] : List ι)) ops = some (items, outs) ∧
        lists.WellFormed items := by
  rcases runSteps_refines (fun lists items op h => h.step op) fresh_holds ops with hfail | hrun
  · exact Or.inl hfail
  · obtain ⟨lists, items, outs, hlists, hitems, h⟩ := hrun
    exact Or.inr ⟨lists, items, outs, hlists, hitems, h.wellFormed⟩

end IntrusiveLists

end BekOS
