import Mathlib.Data.List.Nodup

/-!
# `IntrusiveList`

Doubly linked lists whose nodes lie in the items.  The nodes of all items and the heads of all
lists are one store, because a node also points to the head of the list that it is in.
`Represents` says which list of items each head stands for; `append` and `remove` are the
operations on lists under it.
-/

namespace BekOS

open Function

universe u v

/-- `IntrusiveListHead` -/
structure IntrusiveListHead (ι : Type u) where
  first : Option ι
  last : Option ι

/-- `IntrusiveListNode`; `listHead` is `m_list_head`. -/
structure IntrusiveListNode (κ : Type v) (ι : Type u) where
  listHead : Option κ
  next : Option ι
  prev : Option ι

/-- The lists, by the address of the head, and the nodes, by the address of the item. -/
structure IntrusiveLists (κ : Type v) (ι : Type u) where
  heads : κ → IntrusiveListHead ι
  nodes : ι → IntrusiveListNode κ ι

namespace IntrusiveLists

variable {κ : Type v} {ι : Type u}

section Operations

variable [DecidableEq κ] [DecidableEq ι]

/-- A node that is in no list. -/
def unlinked : IntrusiveListNode κ ι := ⟨none, none, none⟩

/-- `m_next` of a node that may be null. -/
def setNext (nodes : ι → IntrusiveListNode κ ι) (item next : Option ι) :
    ι → IntrusiveListNode κ ι :=
  match item with
  | none => nodes
  | some item => update nodes item { nodes item with next := next }

/-- `m_prev` of a node that may be null. -/
def setPrev (nodes : ι → IntrusiveListNode κ ι) (item prev : Option ι) :
    ι → IntrusiveListNode κ ι :=
  match item with
  | none => nodes
  | some item => update nodes item { nodes item with prev := prev }

/-- `empty` -/
def empty (lists : IntrusiveLists κ ι) (k : κ) : Bool := (lists.heads k).first.isNone

/-- `append`; `none` when the assertion fails. -/
def append (lists : IntrusiveLists κ ι) (k : κ) (item : ι) : Option (IntrusiveLists κ ι) :=
  match (lists.nodes item).listHead with
  | some _ => none
  | none =>
      let head := lists.heads k
      let nodes := update lists.nodes item ⟨some k, none, head.last⟩
      some
        { heads := update lists.heads k ⟨head.first.or (some item), some item⟩
          nodes := setNext nodes head.last (some item) }

/-- `IntrusiveListNode::remove`, of a node in the list. -/
def removeNode (lists : IntrusiveLists κ ι) (k : κ) (item : ι) : IntrusiveLists κ ι :=
  let head := lists.heads k
  let node := lists.nodes item
  { heads := update lists.heads k
      ⟨if head.first = some item then node.next else head.first,
        if head.last = some item then node.prev else head.last⟩
    nodes := update
      (setNext (setPrev lists.nodes node.next node.prev) node.prev node.next) item unlinked }

/-- `remove`; `none` when the assertion fails. -/
def remove (lists : IntrusiveLists κ ι) (k : κ) (item : ι) : Option (IntrusiveLists κ ι) :=
  if (lists.nodes item).listHead = some k then some (lists.removeNode k item) else none

end Operations

/-! ## Segments of a list -/

/-- The nodes of the items are linked in this order, between `prev` and `next`. -/
def Segment (nodes : ι → IntrusiveListNode κ ι) (k : κ) :
    Option ι → List ι → Option ι → Prop
  | _, [], _ => True
  | prev, item :: rest, next =>
      nodes item = ⟨some k, rest.head?.or next, prev⟩ ∧ Segment nodes k (some item) rest next

variable {nodes nodes' : ι → IntrusiveListNode κ ι} {k : κ} {prev next : Option ι}
  {l l' : List ι} {item : ι}

theorem Segment.congr (h : Segment nodes k prev l next)
    (hnodes : ∀ item ∈ l, nodes' item = nodes item) : Segment nodes' k prev l next := by
  induction l generalizing prev with
  | nil => trivial
  | cons item rest ih =>
      obtain ⟨hitem, hrest⟩ := List.forall_mem_cons.mp hnodes
      exact ⟨hitem.trans h.1, ih h.2 hrest⟩

theorem Segment.listHead_eq (h : Segment nodes k prev l next) (hitem : item ∈ l) :
    (nodes item).listHead = some k := by
  induction l generalizing prev with
  | nil => cases hitem
  | cons first rest ih =>
      rcases List.mem_cons.mp hitem with rfl | hrest
      · rw [h.1]
      · exact ih h.2 hrest

theorem segment_append :
    Segment nodes k prev (l ++ l') next ↔
      Segment nodes k prev l (l'.head?.or next) ∧ Segment nodes k (l.getLast?.or prev) l' next := by
  induction l generalizing prev with
  | nil => exact ⟨fun h => ⟨trivial, h⟩, And.right⟩
  | cons item rest ih =>
      have hlast : (item :: rest).getLast?.or prev = rest.getLast?.or (some item) := by
        rw [List.getLast?_cons]
        cases rest.getLast? <;> rfl
      rw [List.cons_append, Segment, Segment, ih, hlast, and_assoc, List.head?_append,
        Option.or_assoc]

theorem getLast?_ne_of_not_mem (h : item ∉ l) : l.getLast? ≠ some item :=
  fun heq => h (List.mem_of_getLast? heq)

theorem head?_ne_of_not_mem (h : item ∉ l) : l.head? ≠ some item :=
  fun heq => h (List.mem_of_head? heq)

/-! ## The lists of a store -/

/-- The store holds these lists of items. -/
structure Represents (lists : IntrusiveLists κ ι) (items : κ → List ι) : Prop where
  heads_eq : ∀ k, lists.heads k = ⟨(items k).head?, (items k).getLast?⟩
  nodup : ∀ k, (items k).Nodup
  linked : ∀ k, Segment lists.nodes k none (items k) none

variable {lists : IntrusiveLists κ ι} {items : κ → List ι}

theorem Represents.eq_of_mem (h : lists.Represents items) {k' : κ} (hitem : item ∈ items k)
    (hitem' : item ∈ items k') : k = k' := by
  have hhead := (h.linked k).listHead_eq hitem
  have hhead' := (h.linked k').listHead_eq hitem'
  exact Option.some_inj.mp (hhead.symm.trans hhead')

theorem Represents.empty_iff (h : lists.Represents items) :
    lists.empty k = true ↔ items k = [] := by
  rw [empty, h.heads_eq, Option.isNone_iff_eq_none, List.head?_eq_none_iff]

theorem Represents.congr (h : lists.Represents items)
    (hnodes : ∀ k, ∀ item ∈ items k, nodes' item = lists.nodes item) :
    ({ lists with nodes := nodes' } : IntrusiveLists κ ι).Represents items :=
  ⟨h.heads_eq, h.nodup, fun k => (h.linked k).congr (hnodes k)⟩

/-! ## Changes to a list -/

variable [DecidableEq ι]

theorem Segment.setNext (h : Segment nodes k prev l next) (hnodup : l.Nodup) (next' : Option ι) :
    Segment (setNext nodes l.getLast? next') k prev l next' := by
  rcases List.eq_nil_or_concat l with rfl | ⟨front, last, rfl⟩
  · trivial
  · rw [List.concat_eq_append] at h hnodup ⊢
    have hlast : last ∉ front := fun hmem =>
      (List.nodup_append.mp hnodup).2.2 last hmem last (List.mem_singleton.mpr rfl) rfl
    rw [segment_append] at h
    rw [List.getLast?_concat, segment_append]
    refine ⟨h.1.congr fun item hitem => ?_, ?_, trivial⟩
    · exact update_of_ne (ne_of_mem_of_not_mem hitem hlast) _ _
    · show update nodes last { nodes last with next := next' } last = _
      rw [update_self, h.2.1]
      rfl

theorem Segment.setPrev (h : Segment nodes k prev l next) (hnodup : l.Nodup) (prev' : Option ι) :
    Segment (setPrev nodes l.head? prev') k prev' l next := by
  cases l with
  | nil => trivial
  | cons first rest =>
      obtain ⟨hfirst, -⟩ := List.nodup_cons.mp hnodup
      refine ⟨?_, h.2.congr fun item hitem => ?_⟩
      · show update nodes first { nodes first with prev := prev' } first = _
        rw [update_self, h.1]
      · exact update_of_ne (ne_of_mem_of_not_mem hitem hfirst) _ _

theorem setNext_of_ne {other : Option ι} (h : other ≠ some item) :
    setNext nodes other next item = nodes item := by
  cases other with
  | none => rfl
  | some other => exact update_of_ne (fun heq => h (by rw [heq])) _ _

theorem setPrev_of_ne {other : Option ι} (h : other ≠ some item) :
    setPrev nodes other prev item = nodes item := by
  cases other with
  | none => rfl
  | some other => exact update_of_ne (fun heq => h (by rw [heq])) _ _

variable [DecidableEq κ]

/-- **`append`** puts an item that is in no list behind those of the list. -/
theorem Represents.append (h : lists.Represents items)
    (hitem : (lists.nodes item).listHead = none) :
    ∃ lists', lists.append k item = some lists' ∧
      lists'.Represents (update items k (items k ++ [item])) ∧
      ∀ other, (∀ k, other ∉ items k) → other ≠ item → lists'.nodes other = lists.nodes other := by
  have hnew : ∀ k, item ∉ items k := fun k hmem =>
    Option.some_ne_none k (((h.linked k).listHead_eq hmem).symm.trans hitem)
  have hlast : (items k).getLast? ≠ some item := getLast?_ne_of_not_mem (hnew k)
  have hkeeps : ∀ other, (items k).getLast? ≠ some other → other ≠ item →
      setNext (update lists.nodes item ⟨some k, none, (items k).getLast?⟩)
        (items k).getLast? (some item) other = lists.nodes other := fun other hother hne => by
    rw [setNext_of_ne hother, update_of_ne hne]
  have hdone : lists.append k item = some
      ⟨update lists.heads k ⟨(items k).head?.or (some item), some item⟩,
        setNext (update lists.nodes item ⟨some k, none, (items k).getLast?⟩)
          (items k).getLast? (some item)⟩ := by
    unfold IntrusiveLists.append
    rw [hitem, h.heads_eq k]
  refine ⟨_, hdone, ⟨fun k' => ?_, fun k' => ?_, fun k' => ?_⟩,
    fun other hother hne => hkeeps other (getLast?_ne_of_not_mem (hother k)) hne⟩
  · by_cases hk : k' = k
    · subst hk
      rw [update_self, List.head?_append, List.getLast?_concat]
      exact update_self _ _ _
    · rw [update_of_ne hk, ← h.heads_eq]
      exact update_of_ne hk _ _
  · by_cases hk : k' = k
    · subst hk
      rw [update_self, ← List.concat_eq_append]
      exact (h.nodup k').concat (hnew k')
    · rw [update_of_ne hk]
      exact h.nodup k'
  · by_cases hk : k' = k
    · subst hk
      rw [update_self, segment_append]
      have hold : Segment
          (update lists.nodes item ⟨some k', none, (items k').getLast?⟩) k' none
          (items k') none :=
        (h.linked k').congr fun other hmem =>
          update_of_ne (ne_of_mem_of_not_mem hmem (hnew k')) _ _
      refine ⟨hold.setNext (h.nodup k') (some item), ?_, trivial⟩
      show setNext _ _ _ item = _
      rw [setNext_of_ne hlast, update_self]
      simp only [List.head?_nil, Option.or_none]
    · rw [update_of_ne hk]
      refine (h.linked k').congr fun other hmem => hkeeps other ?_ (ne_of_mem_of_not_mem hmem (hnew k'))
      exact getLast?_ne_of_not_mem fun hmem' => hk (h.eq_of_mem hmem hmem')

/-- **`remove`** takes an item out of its list. -/
theorem Represents.remove (h : lists.Represents items) (hitem : item ∈ items k) :
    ∃ lists', lists.remove k item = some lists' ∧
      lists'.Represents (update items k ((items k).erase item)) ∧
      lists'.nodes item = unlinked ∧
      ∀ other, (∀ k, other ∉ items k) → lists'.nodes other = lists.nodes other := by
  obtain ⟨front, back, hsplit⟩ := List.append_of_mem hitem
  have hnodup := h.nodup k
  rw [hsplit] at hnodup
  obtain ⟨hfront, hrest, hapart⟩ := List.nodup_append.mp hnodup
  obtain ⟨hnotBack, hback⟩ := List.nodup_cons.mp hrest
  have hnotFront : item ∉ front := fun hmem => hapart item hmem item List.mem_cons_self rfl
  have hdisjoint : ∀ other ∈ front, other ∉ back := fun other hmem hmem' =>
    hapart other hmem other (List.mem_cons_of_mem item hmem') rfl
  have herase : (items k).erase item = front ++ back := by
    rw [hsplit, List.erase_append_right _ hnotFront, List.erase_cons_head]
  have hlinked := h.linked k
  rw [hsplit, segment_append] at hlinked
  obtain ⟨hfrontLinked, hnode, hbackLinked⟩ := hlinked
  rw [Option.or_none, Option.or_none] at hnode
  have hremove : lists.remove k item = some (lists.removeNode k item) := by
    rw [IntrusiveLists.remove, if_pos (by rw [hnode])]
  obtain ⟨nodes, hnodes⟩ : ∃ nodes, nodes = update
      (IntrusiveLists.setNext (IntrusiveLists.setPrev lists.nodes back.head? front.getLast?)
        front.getLast? back.head?) item unlinked := ⟨_, rfl⟩
  have hkeeps : ∀ other, front.getLast? ≠ some other → back.head? ≠ some other → other ≠ item →
      nodes other = lists.nodes other := fun other hlast hfirst hne => by
    rw [hnodes, update_of_ne hne, setNext_of_ne hlast, setPrev_of_ne hfirst]
  have hmoved : (lists.removeNode k item).nodes = nodes := by
    rw [removeNode, hnode, hnodes]
  refine ⟨_, hremove, ⟨fun k' => ?_, fun k' => ?_, fun k' => ?_⟩, ?_, fun other hother => ?_⟩
  · by_cases hk : k' = k
    · subst hk
      have hfirst : (items k').head? = front.head?.or (some item) := by
        rw [hsplit, List.head?_append]
        rfl
      have hlast : (items k').getLast? = back.getLast?.or (some item) := by
        rw [hsplit, List.getLast?_append, List.getLast?_cons]
        cases back.getLast? <;> rfl
      rw [update_self, herase, List.head?_append, List.getLast?_append, removeNode]
      dsimp only
      rw [update_self, h.heads_eq, hnode, hfirst, hlast]
      congr 1
      · cases hhead : front.head? with
        | none => rw [Option.none_or, if_pos rfl, Option.none_or]
        | some first =>
            have hne : some first ≠ some item := hhead ▸ head?_ne_of_not_mem hnotFront
            rw [Option.some_or, if_neg hne, Option.some_or]
      · cases hhead : back.getLast? with
        | none => rw [Option.none_or, if_pos rfl, Option.none_or]
        | some last =>
            have hne : some last ≠ some item := hhead ▸ getLast?_ne_of_not_mem hnotBack
            rw [Option.some_or, if_neg hne, Option.some_or]
    · rw [update_of_ne hk, ← h.heads_eq]
      exact update_of_ne hk _ _
  · by_cases hk : k' = k
    · subst hk
      rw [update_self]
      exact (h.nodup k').erase item
    · rw [update_of_ne hk]
      exact h.nodup k'
  · rw [hmoved]
    by_cases hk : k' = k
    · subst hk
      rw [update_self, herase, segment_append, Option.or_none, Option.or_none, hnodes]
      have hfront' : Segment (IntrusiveLists.setPrev lists.nodes back.head? front.getLast?) k' none
          front ((item :: back).head?.or none) :=
        hfrontLinked.congr fun other hmem =>
          setPrev_of_ne (head?_ne_of_not_mem (hdisjoint other hmem))
      have hback' := hbackLinked.setPrev hback front.getLast?
      refine ⟨(hfront'.setNext hfront back.head?).congr fun other hmem => ?_,
        hback'.congr fun other hmem => ?_⟩
      · exact update_of_ne (ne_of_mem_of_not_mem hmem hnotFront) _ _
      · rw [update_of_ne (ne_of_mem_of_not_mem hmem hnotBack), setNext_of_ne
          (getLast?_ne_of_not_mem fun hmem' => hdisjoint other hmem' hmem)]
    · rw [update_of_ne hk]
      refine (h.linked k').congr fun other hmem => ?_
      have hother : other ∉ front ++ item :: back := fun hmem' =>
        hk (h.eq_of_mem hmem (hsplit ▸ hmem'))
      rw [List.mem_append, List.mem_cons] at hother
      exact hkeeps other (getLast?_ne_of_not_mem fun hmem' => hother (.inl hmem'))
        (head?_ne_of_not_mem fun hmem' => hother (.inr (.inr hmem')))
        (fun heq => hother (.inr (.inl heq)))
  · rw [hmoved, hnodes, update_self]
  · rw [hmoved]
    have hother' := hother k
    rw [hsplit, List.mem_append, List.mem_cons] at hother'
    exact hkeeps other (getLast?_ne_of_not_mem fun hmem' => hother' (.inl hmem'))
      (head?_ne_of_not_mem fun hmem' => hother' (.inr (.inr hmem')))
      (fun heq => hother' (.inr (.inl heq)))

end IntrusiveLists

end BekOS
