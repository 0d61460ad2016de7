import BekOS.Arch.Descriptors

/-!
# Trees of translation tables

`WellFormedTree` is the shape the table code relies on: every entry is invalid, a
table, or a block or page where one is allowed, and the tables form a tree — no
table is reachable twice.  `InTree` is membership of a page in that tree.

`Within` says what a run of the table code below one table may do: change the
pages of that tree and pages that nobody used, and nothing else.  It composes
(`Within.trans`), and a child's `Within` is its parent's (`Within.of_child`), so
the recursion over the levels never mentions another part of the memory.
-/

namespace BekOS

open BitField

universe u

variable {σ : Type u} {source : TableSource σ}

/-! ## The tree -/

/-- The table an entry leads to. -/
def child (mem : TableMemory) (table : Page) (idx : ℕ) : Option Page :=
  if descriptorCode (mem table idx) = ptUpperTableDescriptor then
    some (tablePage (mem table idx))
  else none

/-- The page belongs to the tree of tables at the given height. -/
def InTree (mem : TableMemory) : ℕ → Page → Page → Prop
  | 0, table, page => page = table
  | height + 1, table, page =>
      page = table ∨ ∃ idx < 512, ∃ next, child mem table idx = some next ∧
        InTree mem height next page

/-- The kinds of entry allowed at a height: invalid, a table (a page at height 0),
or a block at heights 1 and 2. -/
def EntryAllowed (height : ℕ) (entry : U64) : Prop :=
  descriptorCode entry = ptInvalidDescriptor ∨
    descriptorCode entry = ptUpperTableDescriptor ∨
      (descriptorCode entry = ptUpperBlockDescriptor ∧ 0 < height ∧ height < 3)

/-- Every entry is of an allowed kind and no table is reachable twice. -/
def WellFormedTree (mem : TableMemory) : ℕ → Page → Prop
  | 0, table => ∀ idx < 512, EntryAllowed 0 (mem table idx)
  | height + 1, table =>
      ∀ idx < 512, EntryAllowed (height + 1) (mem table idx) ∧
        ∀ next, child mem table idx = some next →
          WellFormedTree mem height next ∧ ¬ InTree mem height next table ∧
            ∀ other < 512, other ≠ idx → ∀ next', child mem table other = some next' →
              ∀ page, InTree mem height next page → ¬ InTree mem height next' page

theorem inTree_self (mem : TableMemory) (height : ℕ) (table : Page) :
    InTree mem height table table := by
  cases height with
  | zero => rfl
  | succ height => exact Or.inl rfl

variable {mem mem' : TableMemory} {table : Page}

theorem inTree_of_child {height idx : ℕ} {next page : Page} (hidx : idx < 512)
    (hchild : child mem table idx = some next) (hpage : InTree mem height next page) :
    InTree mem (height + 1) table page :=
  Or.inr ⟨idx, hidx, next, hchild, hpage⟩

theorem child_congr {idx : ℕ} (h : mem' table idx = mem table idx) :
    child mem' table idx = child mem table idx := by
  unfold child
  rw [h]

theorem inTree_congr :
    ∀ {height : ℕ} {table : Page},
      (∀ page, InTree mem height table page → ∀ i, mem' page i = mem page i) →
      ∀ page, InTree mem' height table page ↔ InTree mem height table page := by
  intro height
  induction height with
  | zero => intro table _ page; exact Iff.rfl
  | succ height ih =>
      intro table hsame page
      have hentry : ∀ idx, child mem' table idx = child mem table idx := fun idx =>
        child_congr (hsame table (inTree_self _ _ _) idx)
      simp only [InTree, hentry]
      refine or_congr Iff.rfl (exists_congr fun idx => and_congr_right fun hidx => ?_)
      refine exists_congr fun next => and_congr_right fun hchild => ?_
      exact ih (fun p hp => hsame p (inTree_of_child hidx hchild hp)) page

theorem wellFormedTree_congr :
    ∀ {height : ℕ} {table : Page},
      (∀ page, InTree mem height table page → ∀ i, mem' page i = mem page i) →
      WellFormedTree mem height table → WellFormedTree mem' height table := by
  intro height
  induction height with
  | zero =>
      intro table hsame wf idx hidx
      rw [hsame table rfl idx]
      exact wf idx hidx
  | succ height ih =>
      intro table hsame wf idx hidx
      have hrow := hsame table (inTree_self _ _ _)
      have hentry : ∀ idx, child mem' table idx = child mem table idx := fun idx =>
        child_congr (hrow idx)
      have hsub : ∀ idx < 512, ∀ next, child mem table idx = some next →
          ∀ page, InTree mem height next page → ∀ i, mem' page i = mem page i :=
        fun idx hidx next hchild page hpage =>
          hsame page (inTree_of_child hidx hchild hpage)
      rw [hrow idx]
      refine ⟨(wf idx hidx).1, fun next hchild => ?_⟩
      rw [hentry] at hchild
      obtain ⟨hwf, hroot, hdisjoint⟩ := (wf idx hidx).2 next hchild
      have hiff := inTree_congr (hsub idx hidx next hchild)
      refine ⟨ih (hsub idx hidx next hchild) hwf, fun h => hroot ((hiff table).mp h), ?_⟩
      intro other hother hne next' hchild' page hpage hpage'
      rw [hentry] at hchild'
      exact hdisjoint other hother hne next' hchild' page ((hiff page).mp hpage)
        ((inTree_congr (hsub other hother next' hchild') page).mp hpage')

/-! ## The end of a walk -/

/-- The last entry that a walk from a table reads, valid or not, and its height. -/
def lastEntry (mem : TableMemory) : ℕ → Page → U64 → ℕ × U64
  | 0, table, virt => (0, mem table (tableIndex 0 virt))
  | height + 1, table, virt =>
      match child mem table (tableIndex (height + 1) virt) with
      | some next => lastEntry mem height next virt
      | none => (height + 1, mem table (tableIndex (height + 1) virt))

/-- An invalid entry of the root is the last one. -/
example (virt : U64) : lastEntry (fun _ _ => 0) 3 1 virt = (3, 0) := by
  simp [lastEntry, child, descriptorCode, BitField.getField, ptUpperTableDescriptor]

/-- What a walk ends at: its last entry, if that is a page or a block. -/
def leafOf (last : ℕ × U64) : Option (ℕ × U64) :=
  if last.1 = 0 then
    if descriptorCode last.2 = ptLowerBlockDescriptor then some last else none
  else if descriptorCode last.2 = ptUpperBlockDescriptor ∧ last.1 < 3 then some last
  else none

section LastEntry

variable {mem mem' : TableMemory} {virt virt' : U64}

theorem walkFrom_eq_leafOf : ∀ (height : ℕ) (table : Page),
    walkFrom mem height table virt = leafOf (lastEntry mem height table virt) := by
  intro height
  induction height with
  | zero => exact fun _ => rfl
  | succ height ih =>
      intro table
      simp only [walkFrom, lastEntry, child]
      split_ifs with htable hblock
      · exact ih _
      · simp only [leafOf, Nat.succ_ne_zero, if_false, if_pos hblock]
      · simp only [leafOf, Nat.succ_ne_zero, if_false, if_neg hblock]

variable {height : ℕ} {table : Page}

theorem walkFrom_of_lastEntry {table' : Page}
    (h : lastEntry mem' height table' virt' = lastEntry mem height table virt) :
    walkFrom mem' height table' virt' = walkFrom mem height table virt := by
  rw [walkFrom_eq_leafOf, h, ← walkFrom_eq_leafOf]

theorem lastEntry_of_walkFrom {leaf : ℕ × U64} (h : walkFrom mem height table virt = some leaf) :
    lastEntry mem height table virt = leaf := by
  rw [walkFrom_eq_leafOf, leafOf] at h
  split_ifs at h
  · exact Option.some.inj h
  · exact Option.some.inj h

theorem lastEntry_of_child {next : Page}
    (hchild : child mem table (tableIndex (height + 1) virt) = some next) :
    lastEntry mem (height + 1) table virt = lastEntry mem height next virt := by
  rw [lastEntry, hchild]

theorem lastEntry_of_none (hchild : child mem table (tableIndex (height + 1) virt) = none) :
    lastEntry mem (height + 1) table virt =
      (height + 1, mem table (tableIndex (height + 1) virt)) := by
  rw [lastEntry, hchild]

theorem lastEntry_height_le (mem : TableMemory) (virt : U64) : ∀ (height : ℕ) (table : Page),
    (lastEntry mem height table virt).1 ≤ height := by
  intro height
  induction height with
  | zero => exact fun _ => le_rfl
  | succ height ih =>
      intro table
      cases hchild : child mem table (tableIndex (height + 1) virt) with
      | none => rw [lastEntry_of_none hchild]
      | some next =>
          rw [lastEntry_of_child hchild]
          exact (ih next).trans (Nat.le_succ _)

theorem lastEntry_congr : ∀ {height : ℕ} {table : Page},
    (∀ page, InTree mem height table page → ∀ i, mem' page i = mem page i) →
      lastEntry mem' height table virt = lastEntry mem height table virt := by
  intro height
  induction height with
  | zero => exact fun hsame => by rw [lastEntry, lastEntry, hsame _ rfl]
  | succ height ih =>
      intro table hsame
      have hrow := hsame table (inTree_self _ _ _) (tableIndex (height + 1) virt)
      rw [lastEntry, lastEntry, child_congr hrow, hrow]
      cases hchild : child mem table (tableIndex (height + 1) virt) with
      | none => rfl
      | some next =>
          exact ih fun page hpage =>
            hsame page (inTree_of_child (tableIndex_lt _ _) hchild hpage)

theorem walkFrom_congr
    (hsame : ∀ page, InTree mem height table page → ∀ i, mem' page i = mem page i) :
    walkFrom mem' height table virt = walkFrom mem height table virt :=
  walkFrom_of_lastEntry (lastEntry_congr hsame)

end LastEntry

/-! ## Pages in use -/

/-- The page is handed out: by the page allocator, or from the embedded pool. -/
def InUse (source : TableSource σ) (state : TableState σ) (page : Page) : Prop :=
  page ∈ source.held state.pageAllocator ∨
    (source.initialPgtablesStart ≤ page ∧ page < source.initialPgtablesEnd ∧
      ∀ current ∈ state.embeddedTablesCurrent, page < current)

/-- The embedded pool is used from its start on. -/
def EmbeddedOk (source : TableSource σ) (state : TableState σ) : Prop :=
  ∀ current ∈ state.embeddedTablesCurrent, source.initialPgtablesStart ≤ current

/-- `allocate_table` hands out a page that was not in use, zeroed. -/
theorem allocateTable_spec {state state' : TableState σ} (embedded : EmbeddedOk source state)
    (h : allocateTable source state = some (table, state')) :
    ¬ InUse source state table ∧ EmbeddedOk source state' ∧
      (∀ page, InUse source state' page ↔ page = table ∨ InUse source state page) ∧
      state'.mem = state.mem.zero table := by
  have hallocator : ∀ {state'}, allocateTable.fromAllocator source state =
      some (table, state') →
      ¬ InUse source state table ∧ EmbeddedOk source state' ∧
        (∀ page, InUse source state' page ↔ page = table ∨ InUse source state page) ∧
        state'.mem = state.mem.zero table := by
    intro state' h
    obtain ⟨⟨page, rest⟩, halloc, heq⟩ := Option.map_eq_some_iff.mp h
    cases heq
    obtain ⟨hfresh, hheld⟩ := source.allocate_fresh halloc
    have hmem : page ∈ source.held rest := by
      rw [hheld]
      exact Set.mem_insert _ _
    have houtside := source.allocated_outside hmem
    refine ⟨?_, embedded, fun other => ?_, rfl⟩
    · rintro (hin | ⟨hlow, hhigh, -⟩)
      · exact hfresh hin
      · exact houtside ⟨hlow, hhigh⟩
    · simp only [InUse, hheld, Set.mem_insert_iff, or_assoc]
  unfold allocateTable at h
  split at h
  · rename_i current hcurrent
    split_ifs at h with hroom
    · cases h
      have hstart := embedded table hcurrent
      refine ⟨?_, ?_, fun other => ?_, rfl⟩
      · rintro (hin | ⟨-, -, hlt⟩)
        · exact source.allocated_outside hin ⟨hstart, hroom⟩
        · exact absurd (hlt table hcurrent) (by bv_omega)
      · intro next hnext
        simp only [Option.mem_def, Option.some_inj] at hnext
        subst hnext
        bv_omega
      · simp only [InUse, hcurrent, Option.mem_def, Option.some_inj, forall_eq']
        constructor
        · rintro (hin | ⟨hlow, hhigh, hlt⟩)
          · exact Or.inr (Or.inl hin)
          · by_cases heq : other = table
            · exact Or.inl heq
            · exact Or.inr (Or.inr ⟨hlow, hhigh, by bv_omega⟩)
        · rintro (rfl | hin | ⟨hlow, hhigh, hlt⟩)
          · exact Or.inr ⟨hstart, hroom, by bv_omega⟩
          · exact Or.inl hin
          · exact Or.inr ⟨hlow, hhigh, by bv_omega⟩
    · exact hallocator h
  · exact hallocator h

theorem freeTable_spec {state : TableState σ} (embedded : EmbeddedOk source state)
    (used : InUse source state table) :
    EmbeddedOk source (freeTable source state table) ∧
      (∀ page, page ≠ table → InUse source state page →
        InUse source (freeTable source state table) page) ∧
      (freeTable source state table).mem = state.mem := by
  unfold freeTable
  split_ifs with hpool hlast
  · refine ⟨?_, fun page hne hin => ?_, rfl⟩
    · intro current hcurrent
      simp only [Option.mem_def, Option.some_inj] at hcurrent
      subst hcurrent
      exact hpool.1
    · rcases hin with hin | ⟨hlow, hhigh, hlt⟩
      · exact Or.inl hin
      · refine Or.inr ⟨hlow, hhigh, fun current hcurrent => ?_⟩
        simp only [Option.mem_def, Option.some_inj] at hcurrent
        subst hcurrent
        have := hlt (table + 1) hlast
        bv_omega
  · exact ⟨embedded, fun _ _ hin => hin, rfl⟩
  · refine ⟨embedded, fun page hne hin => ?_, rfl⟩
    have hheld : table ∈ source.held state.pageAllocator :=
      used.resolve_right fun h => hpool ⟨h.1, h.2.1⟩
    rcases hin with hin | hin
    · refine Or.inl ?_
      have hfree := source.free_held hheld
      rw [hfree]
      exact ⟨hin, hne⟩
    · exact Or.inr hin

/-! ## Staying within a tree -/

/-- A tree that can be worked on: well formed, its pages in use. -/
structure TreeOk (source : TableSource σ) (state : TableState σ) (height : ℕ)
    (table : Page) : Prop where
  wf : WellFormedTree state.mem height table
  used : ∀ page, InTree state.mem height table page → InUse source state page
  embedded : EmbeddedOk source state

/-- What a run of the table code below `table` may do. -/
structure Within (source : TableSource σ) (before after : TableState σ) (height : ℕ)
    (table : Page) : Prop where
  /-- The tree can still be worked on. -/
  ok : TreeOk source after height table
  /-- Its new pages were not in use. -/
  grown : ∀ page, InTree after.mem height table page →
    InTree before.mem height table page ∨ ¬ InUse source before page
  /-- Other pages in use keep their contents. -/
  frame : ∀ page, InUse source before page → ¬ InTree before.mem height table page →
    ∀ i, after.mem page i = before.mem page i
  /-- Other pages in use stay in use. -/
  keeps : ∀ page, InUse source before page → ¬ InTree before.mem height table page →
    InUse source after page

variable {before middle after : TableState σ} {height : ℕ} {table : Page}

theorem Within.refl (ok : TreeOk source before height table) :
    Within source before before height table where
  ok := ok
  grown _ h := Or.inl h
  frame _ _ _ _ := rfl
  keeps _ h _ := h

theorem Within.trans (first : Within source before middle height table)
    (second : Within source middle after height table) :
    Within source before after height table := by
  have hout : ∀ page, InUse source before page → ¬ InTree before.mem height table page →
      ¬ InTree middle.mem height table page := fun page hused hnot hin =>
    (first.grown page hin).elim hnot fun h => h hused
  refine ⟨second.ok, fun page hin => ?_, fun page hused hnot i => ?_,
    fun page hused hnot => ?_⟩
  · rcases second.grown page hin with hin' | hfree
    · exact first.grown page hin'
    · by_contra hboth
      push Not at hboth
      exact hfree (first.keeps page hboth.2 hboth.1)
  · rw [second.frame page (first.keeps page hused hnot) (hout page hused hnot),
      first.frame page hused hnot]
  · exact second.keeps page (first.keeps page hused hnot) (hout page hused hnot)

section Parent

variable {idx : ℕ} {next : Page}

theorem TreeOk.child (ok : TreeOk source before (height + 1) table) (hidx : idx < 512)
    (hchild : child before.mem table idx = some next) :
    TreeOk source before height next where
  wf := ((ok.wf idx hidx).2 next hchild).1
  used page hpage := ok.used page (inTree_of_child hidx hchild hpage)
  embedded := ok.embedded

theorem TreeOk.not_inTree_child (ok : TreeOk source before (height + 1) table)
    (hidx : idx < 512) (hchild : BekOS.child before.mem table idx = some next) :
    ¬ InTree before.mem height next table :=
  ((ok.wf idx hidx).2 next hchild).2.1

theorem Within.row (ok : TreeOk source before (height + 1) table) (hidx : idx < 512)
    (hchild : child before.mem table idx = some next)
    (within : Within source before after height next) (i : ℕ) :
    after.mem table i = before.mem table i :=
  within.frame table (ok.used table (inTree_self _ _ _)) (ok.not_inTree_child hidx hchild) i

theorem Within.sibling (ok : TreeOk source before (height + 1) table) (hidx : idx < 512)
    (hchild : child before.mem table idx = some next)
    (within : Within source before after height next) {other : ℕ} (hother : other < 512)
    (hne : other ≠ idx) {next' : Page} (hchild' : child before.mem table other = some next') :
    ∀ page, InTree before.mem height next' page →
      ∀ i, after.mem page i = before.mem page i := fun page hpage i =>
  within.frame page (ok.used page (inTree_of_child hother hchild' hpage))
    (((ok.wf other hother).2 next' hchild').2.2 idx hidx (Ne.symm hne) next hchild page hpage)
    i

/-- **Work within a child is work within its parent.** -/
theorem Within.of_child (ok : TreeOk source before (height + 1) table) (hidx : idx < 512)
    (hchild : child before.mem table idx = some next)
    (within : Within source before after height next) :
    Within source before after (height + 1) table := by
  have hrow := within.row ok hidx hchild
  have hchildren : ∀ i, child after.mem table i = child before.mem table i := fun i =>
    child_congr (hrow i)
  -- A page of the new tree of `table`, by the entry it hangs from.
  have htrees : ∀ {i next'}, i < 512 → i ≠ idx → child before.mem table i = some next' →
      ∀ page, InTree after.mem height next' page ↔ InTree before.mem height next' page :=
    fun hi hne hchild' => inTree_congr (within.sibling ok hidx hchild hi hne hchild')
  have hsub : ∀ page, InTree before.mem height next page →
      InTree before.mem (height + 1) table page := fun page hpage =>
    inTree_of_child hidx hchild hpage
  have hout : ∀ page, InUse source before page →
      ¬ InTree before.mem (height + 1) table page →
      ¬ InTree before.mem height next page := fun page _ hnot hpage =>
    hnot (hsub page hpage)
  have hself : ¬ InTree after.mem height next table := fun hin =>
    (within.grown table hin).elim (ok.not_inTree_child hidx hchild)
      fun hfree => hfree (ok.used table (inTree_self _ _ _))
  refine ⟨⟨?_, ?_, within.ok.embedded⟩, ?_, fun page hused hnot =>
    within.frame page hused (hout page hused hnot), fun page hused hnot =>
    within.keeps page hused (hout page hused hnot)⟩
  · intro i hi
    rw [hrow i]
    refine ⟨(ok.wf i hi).1, fun next' hchild' => ?_⟩
    rw [hchildren i] at hchild'
    by_cases hii : i = idx
    · subst hii
      rw [hchild, Option.some_inj] at hchild'
      subst hchild'
      refine ⟨within.ok.wf, hself, fun other hother hne next' hchild' page hpage hpage' => ?_⟩
      rw [hchildren other] at hchild'
      have hpage'' := (htrees hother hne hchild' page).mp hpage'
      rcases within.grown page hpage with hold | hfree
      · exact ((ok.wf i hidx).2 next hchild).2.2 other hother hne next' hchild' page hold
          hpage''
      · exact hfree (ok.used page (inTree_of_child hother hchild' hpage''))
    · obtain ⟨hwf, hroot, hdisjoint⟩ := (ok.wf i hi).2 next' hchild'
      refine ⟨wellFormedTree_congr (within.sibling ok hidx hchild hi hii hchild') hwf,
        fun hin => hroot ((htrees hi hii hchild' table).mp hin), ?_⟩
      intro other hother hne next'' hchild'' page hpage hpage''
      rw [hchildren other] at hchild''
      have hpage' := (htrees hi hii hchild' page).mp hpage
      by_cases hoi : other = idx
      · subst hoi
        rw [hchild, Option.some_inj] at hchild''
        subst hchild''
        rcases within.grown page hpage'' with hold | hfree
        · exact hdisjoint other hidx hne next hchild page hpage' hold
        · exact hfree (ok.used page (inTree_of_child hi hchild' hpage'))
      · exact hdisjoint other hother hne next'' hchild'' page hpage'
          ((htrees hother hoi hchild'' page).mp hpage'')
  · rintro page (rfl | ⟨i, hi, next', hchild', hpage⟩)
    · exact within.keeps page (ok.used page (inTree_self _ _ _))
        (ok.not_inTree_child hidx hchild)
    · rw [hchildren i] at hchild'
      by_cases hii : i = idx
      · subst hii
        rw [hchild, Option.some_inj] at hchild'
        subst hchild'
        exact within.ok.used page hpage
      · have hpage' := (htrees hi hii hchild' page).mp hpage
        exact within.keeps page (ok.used page (inTree_of_child hi hchild' hpage'))
          (((ok.wf i hi).2 next' hchild').2.2 idx hidx (Ne.symm hii) next hchild page hpage')
  · rintro page (rfl | ⟨i, hi, next', hchild', hpage⟩)
    · exact Or.inl (inTree_self _ _ _)
    · rw [hchildren i] at hchild'
      by_cases hii : i = idx
      · subst hii
        rw [hchild, Option.some_inj] at hchild'
        subst hchild'
        exact (within.grown page hpage).imp (hsub page) id
      · exact Or.inl (inTree_of_child hi hchild' ((htrees hi hii hchild' page).mp hpage))

variable {mem : TableMemory}

theorem walkFrom_of_child {virt : U64}
    (hchild : BekOS.child mem table (tableIndex (height + 1) virt) = some next) :
    walkFrom mem (height + 1) table virt = walkFrom mem height next virt := by
  rw [walkFrom_eq_leafOf, lastEntry_of_child hchild, ← walkFrom_eq_leafOf]

theorem lastEntry_of_entry {mem' : TableMemory} {virt : U64}
    (hrow : mem' table (tableIndex (height + 1) virt) =
      mem table (tableIndex (height + 1) virt))
    (hsub : ∀ next, BekOS.child mem table (tableIndex (height + 1) virt) = some next →
      ∀ page, InTree mem height next page → ∀ i, mem' page i = mem page i) :
    lastEntry mem' (height + 1) table virt = lastEntry mem (height + 1) table virt := by
  rw [lastEntry, lastEntry, child_congr hrow, hrow]
  cases hchild : BekOS.child mem table (tableIndex (height + 1) virt) with
  | none => rfl
  | some next => exact lastEntry_congr (hsub next hchild)

theorem Within.lastEntry_other (ok : TreeOk source before (height + 1) table) (hidx : idx < 512)
    (hchild : BekOS.child before.mem table idx = some next)
    (within : Within source before after height next) {virt : U64}
    (hne : tableIndex (height + 1) virt ≠ idx) :
    lastEntry after.mem (height + 1) table virt = lastEntry before.mem (height + 1) table virt :=
  lastEntry_of_entry (within.row ok hidx hchild _) fun _ hchild' =>
    within.sibling ok hidx hchild (tableIndex_lt _ _) hne hchild'

theorem Within.walk_other (ok : TreeOk source before (height + 1) table) (hidx : idx < 512)
    (hchild : BekOS.child before.mem table idx = some next)
    (within : Within source before after height next) {virt : U64}
    (hne : tableIndex (height + 1) virt ≠ idx) :
    walkFrom after.mem (height + 1) table virt = walkFrom before.mem (height + 1) table virt :=
  walkFrom_of_lastEntry (within.lastEntry_other ok hidx hchild hne)

/-! ## Writing an entry -/

theorem TreeOk.write_sibling (ok : TreeOk source before (height + 1) table) (idx : ℕ)
    (entry : U64) {other : ℕ} (hother : other < 512) {next' : Page}
    (hchild' : BekOS.child before.mem table other = some next') :
    ∀ page, InTree before.mem height next' page →
      ∀ i, (before.mem.write table idx entry) page i = before.mem page i := by
  intro page hpage i
  refine TableMemory.write_of_page_ne ?_ idx i entry
  rintro rfl
  exact ok.not_inTree_child hother hchild' hpage

/-- **Writing an entry that is not a table** is work within the table, and the
walks through other entries do not notice. -/
theorem Within.write (ok : TreeOk source before (height + 1) table) (hidx : idx < 512)
    (entry : U64) (hallowed : EntryAllowed (height + 1) entry)
    (hleaf : descriptorCode entry ≠ ptUpperTableDescriptor) :
    Within source before (before.write table idx entry) (height + 1) table ∧
      (∀ virt, tableIndex (height + 1) virt ≠ idx →
        lastEntry (before.write table idx entry).mem (height + 1) table virt =
          lastEntry before.mem (height + 1) table virt) ∧
      ∀ page, InTree (before.write table idx entry).mem (height + 1) table page →
        page = table ∨ ∃ i < 512, i ≠ idx ∧ ∃ next', BekOS.child before.mem table i =
          some next' ∧ InTree before.mem height next' page := by
  have hself : BekOS.child (before.write table idx entry).mem table idx = none := by
    unfold BekOS.child
    rw [TableState.write_mem_self, if_neg hleaf]
  have hrow : ∀ i, i ≠ idx →
      (before.write table idx entry).mem table i = before.mem table i := fun i hi =>
    before.write_mem_of_idx_ne hi table table entry
  have hchildren : ∀ i, i ≠ idx → BekOS.child (before.write table idx entry).mem table i =
      BekOS.child before.mem table i := fun i hi => child_congr (hrow i hi)
  have htrees : ∀ {i next'}, i < 512 → BekOS.child before.mem table i = some next' →
      ∀ page, InTree (before.write table idx entry).mem height next' page ↔
        InTree before.mem height next' page :=
    fun hi hchild' => inTree_congr (ok.write_sibling idx entry hi hchild')
  have hpages : ∀ page, InTree (before.write table idx entry).mem (height + 1) table page →
      page = table ∨ ∃ i < 512, i ≠ idx ∧ ∃ next', BekOS.child before.mem table i =
        some next' ∧ InTree before.mem height next' page := by
    rintro page (rfl | ⟨i, hi, next', hchild', hpage⟩)
    · exact Or.inl rfl
    · have hne : i ≠ idx := by
        rintro rfl
        rw [hself] at hchild'
        cases hchild'
      rw [hchildren i hne] at hchild'
      exact Or.inr ⟨i, hi, hne, next', hchild', (htrees hi hchild' page).mp hpage⟩
  have hshrunk : ∀ page, InTree (before.write table idx entry).mem (height + 1) table page →
      InTree before.mem (height + 1) table page := by
    intro page hpage
    rcases hpages page hpage with rfl | ⟨i, hi, -, next', hchild', hpage'⟩
    · exact inTree_self _ _ _
    · exact inTree_of_child hi hchild' hpage'
  refine ⟨⟨⟨?_, fun page hpage => ok.used page (hshrunk page hpage), ok.embedded⟩,
    fun page hpage => Or.inl (hshrunk page hpage), ?_, fun page hused _ => hused⟩, ?_, hpages⟩
  · intro i hi
    by_cases hii : i = idx
    · subst hii
      refine ⟨?_, fun next' hchild' => ?_⟩
      · rw [TableState.write_mem_self]
        exact hallowed
      · rw [hself] at hchild'
        cases hchild'
    · rw [hrow i hii]
      refine ⟨(ok.wf i hi).1, fun next' hchild' => ?_⟩
      rw [hchildren i hii] at hchild'
      obtain ⟨hwf, hroot, hdisjoint⟩ := (ok.wf i hi).2 next' hchild'
      refine ⟨wellFormedTree_congr (ok.write_sibling idx entry hi hchild') hwf,
        fun hin => hroot ((htrees hi hchild' table).mp hin), ?_⟩
      intro other hother hne next'' hchild'' page hpage hpage''
      have hoi : other ≠ idx := by
        rintro rfl
        rw [hself] at hchild''
        cases hchild''
      rw [hchildren other hoi] at hchild''
      exact hdisjoint other hother hne next'' hchild'' page ((htrees hi hchild' page).mp hpage)
        ((htrees hother hchild'' page).mp hpage'')
  · intro page _ hnot i
    refine TableMemory.write_of_page_ne ?_ idx i entry
    rintro rfl
    exact hnot (inTree_self _ _ _)
  · intro virt hne
    exact lastEntry_of_entry (hrow _ hne) fun _ hchild' =>
      ok.write_sibling idx entry (tableIndex_lt _ _) hchild'

theorem Within.free (within : Within source before after height table) {page : Page}
    (hbefore : InTree before.mem height table page) (hused : InUse source after page)
    (hafter : ¬ InTree after.mem height table page) :
    Within source before (freeTable source after page) height table := by
  obtain ⟨embedded, hkeeps, hmem⟩ := freeTable_spec within.ok.embedded hused
  refine ⟨⟨?_, ?_, embedded⟩, ?_, ?_, ?_⟩
  · rw [hmem]
    exact within.ok.wf
  · intro other hother
    rw [hmem] at hother
    refine hkeeps other ?_ (within.ok.used other hother)
    rintro rfl
    exact hafter hother
  · intro other hother
    rw [hmem] at hother
    exact within.grown other hother
  · intro other hin hnot i
    rw [hmem]
    exact within.frame other hin hnot i
  · intro other hin hnot
    refine hkeeps other ?_ (within.keeps other hin hnot)
    rintro rfl
    exact hnot hbefore

/-! ## A fresh table -/

/-- No entry of the table is one that the hardware takes for valid. -/
def Blank (mem : TableMemory) (table : Page) : Prop :=
  ∀ i < 512, descriptorCode (mem table i) = ptInvalidDescriptor

instance (mem : TableMemory) (table : Page) : Decidable (Blank mem table) :=
  Nat.decidableBallLT 512 fun i _ => descriptorCode (mem table i) = ptInvalidDescriptor

theorem blank_of_zero (hzero : ∀ i, mem table i = 0) : Blank mem table := by
  intro i _
  rw [hzero i]
  rfl

theorem child_of_blank (blank : Blank mem table) {i : ℕ} (hi : i < 512) :
    BekOS.child mem table i = none := by
  unfold BekOS.child
  rw [blank i hi]
  rfl

theorem inTree_of_blank (blank : Blank mem table) :
    ∀ (height : ℕ) (page : Page), InTree mem height table page ↔ page = table := by
  intro height page
  cases height with
  | zero => exact Iff.rfl
  | succ height =>
      refine ⟨?_, Or.inl⟩
      rintro (h | ⟨i, hi, next', hchild', -⟩)
      · exact h
      · rw [child_of_blank blank hi] at hchild'
        cases hchild'

theorem wellFormedTree_of_blank (blank : Blank mem table) (height : ℕ) :
    WellFormedTree mem height table := by
  cases height with
  | zero => exact fun i hi => Or.inl (blank i hi)
  | succ height =>
      refine fun i hi => ⟨Or.inl (blank i hi), fun next' hchild' => ?_⟩
      rw [child_of_blank blank hi] at hchild'
      cases hchild'

theorem walkFrom_of_blank (blank : Blank mem table) (height : ℕ) (virt : U64) :
    walkFrom mem height table virt = none := by
  cases height <;> simp only [walkFrom, blank _ (tableIndex_lt _ virt)] <;> rfl

theorem TreeOk.empty (pageAllocator : σ) (root : Page)
    (held : root ∈ source.held pageAllocator) :
    TreeOk source (TableState.empty pageAllocator) 3 root where
  wf := wellFormedTree_of_blank (blank_of_zero fun _ => rfl) 3
  used page hpage := by
    rw [(inTree_of_blank (blank_of_zero fun _ => rfl) 3 page).mp hpage]
    exact Or.inl held
  embedded := nofun

/-- A page pool in which page 1 is handed out and the pages 2 to 6 are free. -/
def samplePool : List (Page × ℕ) × List (Page × ℕ) :=
  ([(2, 1), (3, 1), (4, 1), (5, 1), (6, 1)], [(1, 1)])

theorem TreeOk.samplePool :
    TreeOk TableSource.pool (TableState.empty BekOS.samplePool) 3 1 :=
  TreeOk.empty _ 1 rfl

theorem walk_empty (pageAllocator : σ) (half : Half) (root : Page) (virt : U64) :
    walk (TableState.empty pageAllocator).mem half root virt = none := by
  unfold walk
  split_ifs
  · rw [translateFrom, walkFrom_of_blank (blank_of_zero fun _ => rfl), Option.map_none]
  · rfl

/-- **Linking a fresh table** at an invalid entry is work within the table, and
no walk notices. -/
theorem Within.allocate (ok : TreeOk source before (height + 1) table) (hidx : idx < 512)
    (hinvalid : descriptorCode (before.mem table idx) = ptInvalidDescriptor)
    (h : allocateTable source before = some (next, after)) :
    Within source before (after.write table idx (createTableEntry next)) (height + 1) table ∧
      BekOS.child (after.write table idx (createTableEntry next)).mem table idx = some next ∧
      ∀ virt, walkFrom (after.write table idx (createTableEntry next)).mem (height + 1)
        table virt = walkFrom before.mem (height + 1) table virt := by
  obtain ⟨hfresh, embedded, hinuse, hmem⟩ := allocateTable_spec ok.embedded h
  have htable := ok.used table (inTree_self _ _ _)
  have hne : next ≠ table := by
    rintro rfl
    exact hfresh htable
  have hnone : BekOS.child before.mem table idx = none := by
    unfold BekOS.child
    rw [hinvalid]
    rfl
  -- Pages other than the fresh one keep their entries, but for the one written.
  have hother : ∀ page i, page ≠ next → ¬ (page = table ∧ i = idx) →
      (after.write table idx (createTableEntry next)).mem page i = before.mem page i := by
    intro page i hpage hentry
    simp only [TableState.write, TableMemory.write, if_neg hentry, hmem]
    exact TableMemory.zero_of_ne hpage i
  have hzero : ∀ i, (after.write table idx (createTableEntry next)).mem next i = 0 := by
    intro i
    rw [after.write_mem_of_page_ne hne, hmem, TableMemory.zero_self]
  have hblank := blank_of_zero hzero
  have hself : BekOS.child (after.write table idx (createTableEntry next)).mem table idx =
      some next := by
    unfold BekOS.child
    rw [TableState.write_mem_self, if_pos (descriptorCode_createTableEntry _),
      tablePage_createTableEntry]
  have hrow : ∀ i, i ≠ idx →
      (after.write table idx (createTableEntry next)).mem table i = before.mem table i :=
    fun i hi => hother table i (Ne.symm hne) fun h => hi h.2
  have hchildren : ∀ i, i ≠ idx →
      BekOS.child (after.write table idx (createTableEntry next)).mem table i =
        BekOS.child before.mem table i := fun i hi => child_congr (hrow i hi)
  have hsub : ∀ {i next'}, i < 512 → BekOS.child before.mem table i = some next' →
      ∀ page, InTree before.mem height next' page → ∀ j,
        (after.write table idx (createTableEntry next)).mem page j = before.mem page j := by
    intro i next' hi hchild' page hpage j
    refine hother page j ?_ ?_
    · rintro rfl
      exact hfresh (ok.used page (inTree_of_child hi hchild' hpage))
    · rintro ⟨rfl, -⟩
      exact ok.not_inTree_child hi hchild' hpage
  have htrees : ∀ {i next'}, i < 512 → BekOS.child before.mem table i = some next' →
      ∀ page, InTree (after.write table idx (createTableEntry next)).mem height next' page ↔
        InTree before.mem height next' page :=
    fun hi hchild' => inTree_congr (hsub hi hchild')
  refine ⟨⟨⟨?_, ?_, embedded⟩, ?_, ?_, ?_⟩, hself, ?_⟩
  · intro i hi
    by_cases hii : i = idx
    · subst hii
      refine ⟨?_, fun next' hchild' => ?_⟩
      · rw [TableState.write_mem_self]
        exact Or.inr (Or.inl (descriptorCode_createTableEntry _))
      rw [hself, Option.some_inj] at hchild'
      subst hchild'
      refine ⟨wellFormedTree_of_blank hblank height,
        fun hin => hne ((inTree_of_blank hblank height table).mp hin).symm, ?_⟩
      intro other hother' hoi next'' hchild'' page hpage hpage''
      rw [(inTree_of_blank hblank height page).mp hpage] at hpage''
      have hchild''' := (hchildren other hoi).symm.trans hchild''
      exact hfresh (ok.used next (inTree_of_child hother' hchild'''
        ((htrees hother' hchild''' next).mp hpage'')))
    · rw [hrow i hii]
      refine ⟨(ok.wf i hi).1, fun next' hchild' => ?_⟩
      rw [hchildren i hii] at hchild'
      obtain ⟨hwf, hroot, hdisjoint⟩ := (ok.wf i hi).2 next' hchild'
      refine ⟨wellFormedTree_congr (hsub hi hchild') hwf,
        fun hin => hroot ((htrees hi hchild' table).mp hin), ?_⟩
      intro other hother' hoi next'' hchild'' page hpage hpage''
      have hpage' := (htrees hi hchild' page).mp hpage
      by_cases hoidx : other = idx
      · subst hoidx
        rw [hself, Option.some_inj] at hchild''
        subst hchild''
        rw [(inTree_of_blank hblank height page).mp hpage''] at hpage'
        exact hfresh (ok.used next (inTree_of_child hi hchild' hpage'))
      · rw [hchildren other hoidx] at hchild''
        exact hdisjoint other hother' hoi next'' hchild'' page hpage'
          ((htrees hother' hchild'' page).mp hpage'')
  · rintro page (rfl | ⟨i, hi, next', hchild', hpage⟩)
    · exact (hinuse page).mpr (Or.inr htable)
    · by_cases hii : i = idx
      · subst hii
        rw [hself, Option.some_inj] at hchild'
        subst hchild'
        exact (hinuse page).mpr (Or.inl ((inTree_of_blank hblank height page).mp hpage))
      · rw [hchildren i hii] at hchild'
        exact (hinuse page).mpr (Or.inr (ok.used page
          (inTree_of_child hi hchild' ((htrees hi hchild' page).mp hpage))))
  · rintro page (rfl | ⟨i, hi, next', hchild', hpage⟩)
    · exact Or.inl (inTree_self _ _ _)
    · by_cases hii : i = idx
      · subst hii
        rw [hself, Option.some_inj] at hchild'
        subst hchild'
        rw [(inTree_of_blank hblank height page).mp hpage]
        exact Or.inr hfresh
      · rw [hchildren i hii] at hchild'
        exact Or.inl (inTree_of_child hi hchild' ((htrees hi hchild' page).mp hpage))
  · intro page hused hnot i
    refine hother page i ?_ ?_
    · rintro rfl
      exact hfresh hused
    · rintro ⟨rfl, -⟩
      exact hnot (inTree_self _ _ _)
  · exact fun page hused _ => (hinuse page).mpr (Or.inr hused)
  · intro virt
    by_cases hidx' : tableIndex (height + 1) virt = idx
    · subst hidx'
      rw [walkFrom_of_child hself, walkFrom_of_blank hblank]
      simp only [walkFrom, hinvalid]
      rfl
    · exact walkFrom_of_lastEntry <| lastEntry_of_entry (hrow _ hidx') fun _ hchild' =>
        hsub (tableIndex_lt _ _) hchild'

end Parent

end BekOS
