import BekOS.Arch.Positions
import BekOS.Lib.PartialRun

/-!
# `crude_map_region`

The mapping that is used before there is a page allocator: blocks of 2 MiB, within one table of
them, with tables from a pool that is cleared when it is used first.  Physical memory is mapped to
itself, so a table's address is that of its page.

The check that a range stays within one table compares the table of its start with that of its end,
which for a range that ends where the table does is the next one.
-/

namespace BekOS

open BitField PartialRun

/-! ## The function -/

/-- The memory of the tables, and the page that the next one is made in. -/
structure CrudeTables where
  mem : TableMemory
  tablesCurrent : Page

/-- The table below an entry, a new one where the entry is invalid; `none` when there are no pages
left. -/
def CrudeTables.tableBelow (tablesEnd : Page) (tables : CrudeTables) (table : Page) (idx : ℕ) :
    Option (CrudeTables × Page) :=
  let entry := tables.mem table idx
  if descriptorCode entry = ptInvalidDescriptor then
    if tables.tablesCurrent < tablesEnd then
      some ({ mem := tables.mem.write table idx
                (setField (setField entry 12 tables.tablesCurrent) 0 ptUpperTableDescriptor)
              tablesCurrent := tables.tablesCurrent + 1 }, tables.tablesCurrent)
    else none
  else some (tables, tablePage entry)

/-- The entry of a block. -/
def crudeBlock (flags physAddr : U64) : U64 := flags ||| physAddr ||| 0b01

/-- The loop over the entries of a table of blocks, with `n` of them to go. -/
def fillBlocks (flags : U64) (table : Page) : ℕ → ℕ → U64 → TableMemory → TableMemory
  | 0, _, _, mem => mem
  | n + 1, idx, physAddr, mem =>
      fillBlocks flags table n (idx + 1) (physAddr + sizes 1)
        (mem.write table idx (crudeBlock flags physAddr))

/-- The pool is cleared before the first table is made; its first page is the root. -/
def CrudeTables.initialise (tablesStart tablesEnd : Page) (tables : CrudeTables) : CrudeTables :=
  if tables.tablesCurrent = tablesStart then
    { mem := fun page i => if tablesStart ≤ page ∧ page < tablesEnd then 0 else tables.mem page i
      tablesCurrent := tables.tablesCurrent + 1 }
  else tables

/-- A call. -/
structure CrudeCall where
  virtAddr : U64
  physAddr : U64
  size : U64
  flags : U64

/-- `crude_map_region`, behind its checks. -/
def CrudeTables.mapBlocks (tablesStart tablesEnd : Page) (tables : CrudeTables)
    (call : CrudeCall) : CrudeTables × Bool :=
  let tables := tables.initialise tablesStart tablesEnd
  match tables.tableBelow tablesEnd tablesStart (tableIndex 3 call.virtAddr) with
  | none => (tables, false)
  | some (tables, l1Table) =>
      match tables.tableBelow tablesEnd l1Table (tableIndex 2 call.virtAddr) with
      | none => (tables, false)
      | some (tables, l2Table) =>
          let first := tableIndex 1 call.virtAddr
          let last := tableIndex 1 (call.virtAddr + call.size)
          ({ tables with
              mem := fillBlocks call.flags l2Table (last - first) first call.physAddr tables.mem },
            true)

/-- `crude_map_region` -/
def crudeMapRegion (tablesStart tablesEnd : Page) (tables : CrudeTables) (call : CrudeCall) :
    CrudeTables × Bool :=
  if ¬ isAligned 1 call.virtAddr ∨ ¬ isAligned 1 call.physAddr ∨ ¬ isAligned 1 call.size then
    (tables, false)
  else if call.virtAddr >>> shifts 2 ≠ (call.virtAddr + call.size) >>> shifts 2 then (tables, false)
  else tables.mapBlocks tablesStart tablesEnd call

/-! ## The entry of a block -/

/-- The bits that an entry keeps its kind and its address in. -/
def entryBits : U64 := 0x0000FFFFFFE00002

theorem getLsbD_entryBits {flags : U64} (h : flags &&& entryBits = 0) {i : ℕ}
    (hi : i = 1 ∨ 21 ≤ i ∧ i < 48) : flags.getLsbD i = false := by
  have hmask : ∀ i < 48, i = 1 ∨ 21 ≤ i → entryBits.getLsbD i = true := by decide
  have hbit := congrArg (fun word : U64 => word.getLsbD i) h
  rw [BitVec.getLsbD_and, hmask i (by omega) (by omega), Bool.and_true] at hbit
  exact hbit.trans BitVec.getLsbD_zero

theorem getLsbD_ofNat_block {y : ℕ} (hy : y < 2 ^ 48) (haligned : y % 2 ^ 21 = 0) {i : ℕ}
    (hi : i < 21 ∨ 48 ≤ i) : (BitVec.ofNat 64 y).getLsbD i = false := by
  obtain ⟨k, rfl⟩ := Nat.dvd_of_mod_eq_zero haligned
  rw [BitVec.getLsbD_ofNat, Bool.and_eq_false_iff]
  right
  rcases hi with hlow | hhigh
  · rw [Nat.testBit_two_pow_mul, decide_eq_false (by omega), Bool.false_and]
  · exact Nat.testBit_lt_two_pow (hy.trans_le (Nat.pow_le_pow_right (by decide) hhigh))

variable {flags : U64} {y : ℕ}

theorem getLsbD_crudeBlock (flags physAddr : U64) (i : ℕ) :
    (crudeBlock flags physAddr).getLsbD i =
      (flags.getLsbD i || physAddr.getLsbD i || decide (i = 0)) := by
  rw [crudeBlock, BitVec.getLsbD_or, BitVec.getLsbD_or]
  congr 1
  exact BitVec.getLsbD_one.trans (Bool.true_and _)

theorem descriptorCode_crudeBlock (hflags : flags &&& entryBits = 0) (hy : y < 2 ^ 48)
    (haligned : y % 2 ^ 21 = 0) :
    descriptorCode (crudeBlock flags (BitVec.ofNat 64 y)) = ptUpperBlockDescriptor := by
  refine BitVec.eq_of_getLsbD_eq fun i hi => ?_
  rw [descriptorCode, getLsbD_getField, getLsbD_crudeBlock, Nat.zero_add]
  interval_cases i
  · simp [ptUpperBlockDescriptor]
  · rw [getLsbD_entryBits hflags (Or.inl rfl), getLsbD_ofNat_block hy haligned (by omega)]
    rfl

theorem output_crudeBlock (hflags : flags &&& entryBits = 0) (hy : y < 2 ^ 48)
    (haligned : y % 2 ^ 21 = 0) (virt : U64) :
    output 1 (crudeBlock flags (BitVec.ofNat 64 y)) virt =
      { address := y + virt.toNat % 2 ^ 21, attributes := flags &&& attributeMask } := by
  have hfield : getField (crudeBlock flags (BitVec.ofNat 64 y)) 21 27 =
      getField (BitVec.ofNat 64 y) 21 27 := by
    refine BitVec.eq_of_getLsbD_eq fun i hi => ?_
    rw [getLsbD_getField, getLsbD_getField, getLsbD_crudeBlock,
      getLsbD_entryBits hflags (Or.inr ⟨by omega, by omega⟩),
      decide_eq_false (show ¬ 21 + i = 0 by omega), Bool.false_or, Bool.or_false]
  have hattributes : crudeBlock flags (BitVec.ofNat 64 y) &&& attributeMask =
      flags &&& attributeMask := by
    refine and_attributeMask_congr fun i hi => ?_
    rw [getLsbD_crudeBlock, getLsbD_ofNat_block hy haligned (by omega),
      decide_eq_false (show ¬ i = 0 by omega), Bool.or_false, Bool.or_false]
  have hvalue := toNat_getField_of_lt hy (show 21 ≤ 48 by omega)
  unfold output
  rw [hattributes]
  congr 2
  change (getField _ 21 27).toNat * 2 ^ 21 = y
  rw [hfield, hvalue]
  exact Nat.div_mul_cancel (Nat.dvd_of_mod_eq_zero haligned)

/-! ## The tables of the pool -/

/-- A page allocator that has no pages: every table is one of the pool. -/
def crudeSource (tablesStart tablesEnd : Page) : TableSource Unit where
  allocateRegion _ _ := none
  freeRegion state _ := state
  allocated _ _ := none
  allocate_bounds := nofun
  allocate_new := nofun
  allocate_apart := nofun
  allocate_allocated := nofun
  free_allocated := nofun
  initialPgtablesStart := tablesStart
  initialPgtablesEnd := tablesEnd
  allocated_outside := nofun

namespace CrudeTables

/-- The tables, as `TableManager` has them when it takes them over. -/
def state (tables : CrudeTables) : TableState Unit where
  mem := tables.mem
  pageAllocator := ()
  embeddedTablesCurrent := some tables.tablesCurrent

variable {tablesStart tablesEnd : Page} {tables : CrudeTables}

/-- **The pool in use.**  The tables make a tree; pages that are not in use are clear, and so is
every entry that is invalid; and no entry of the root, or of a table below it, is a block. -/
structure Ok (tablesStart tablesEnd : Page) (tables : CrudeTables) : Prop where
  tree : TreeOk (crudeSource tablesStart tablesEnd) tables.state 3 tablesStart
  clear : ∀ page, tables.tablesCurrent ≤ page → page < tablesEnd → ∀ i, tables.mem page i = 0
  invalid : ∀ page, tablesStart ≤ page → page < tablesEnd → ∀ i,
    descriptorCode (tables.mem page i) = ptInvalidDescriptor → tables.mem page i = 0
  upper : ∀ i < 512, ∀ l1Table, child tables.mem tablesStart i = some l1Table → ∀ j < 512,
    descriptorCode (tables.mem l1Table j) ≠ ptUpperBlockDescriptor

theorem inUse_iff {page : Page} : InUse (crudeSource tablesStart tablesEnd) tables.state page ↔
    tablesStart ≤ page ∧ page < tablesEnd ∧ page < tables.tablesCurrent := by
  constructor
  · rintro (hheld | ⟨hlow, hhigh, hcurrent⟩)
    · cases hheld
    · exact ⟨hlow, hhigh, hcurrent _ rfl⟩
  · rintro ⟨hlow, hhigh, hcurrent⟩
    refine Or.inr ⟨hlow, hhigh, fun current heq => ?_⟩
    cases heq
    exact hcurrent

theorem allocateTable_crude (hroom : tables.tablesCurrent < tablesEnd)
    (hclear : ∀ i, tables.mem tables.tablesCurrent i = 0) :
    allocateTable (crudeSource tablesStart tablesEnd) tables.state = some (tables.tablesCurrent,
      state { tables with tablesCurrent := tables.tablesCurrent + 1 }) := by
  have hmem : tables.mem.zero tables.tablesCurrent = tables.mem := by
    funext page i
    unfold TableMemory.zero
    split_ifs with hpage
    · rw [hpage, hclear]
    · rfl
  refine (if_pos hroom).trans ?_
  dsimp only [state]
  rw [hmem]

theorem setField_zero_table (page : Page) :
    setField (setField (0 : U64) 12 page) 0 ptUpperTableDescriptor = createTableEntry page := by
  refine BitVec.eq_of_getLsbD_eq fun i hi => ?_
  rw [createTableEntry, getLsbD_setField _ 0 _ (by omega), getLsbD_setField _ 12 _ (by omega),
    getLsbD_setField _ 12 _ (by omega), getLsbD_setField _ 0 _ (by omega)]
  by_cases hlow : i < 2
  · rw [if_pos ⟨Nat.zero_le _, by omega⟩, if_neg (by omega), if_pos ⟨Nat.zero_le _, by omega⟩]
  · rw [if_neg (by omega), if_neg (show ¬ (0 ≤ i ∧ i < 0 + 2) by omega)]

variable {height idx : ℕ} {table next : Page} {after : CrudeTables}

theorem tableBelow_cases (hallowed : EntryAllowed (height + 1) (tables.mem table idx))
    (hblock : descriptorCode (tables.mem table idx) ≠ ptUpperBlockDescriptor)
    (hzero : descriptorCode (tables.mem table idx) = ptInvalidDescriptor → tables.mem table idx = 0)
    (h : tables.tableBelow tablesEnd table idx = some (after, next)) :
    (after = tables ∧ child tables.mem table idx = some next) ∨
      descriptorCode (tables.mem table idx) = ptInvalidDescriptor ∧
        tables.tablesCurrent < tablesEnd ∧ next = tables.tablesCurrent ∧
          after = { mem := tables.mem.write table idx (createTableEntry next)
                    tablesCurrent := tables.tablesCurrent + 1 } := by
  unfold tableBelow at h
  dsimp only at h
  split_ifs at h with hinvalid hroom
  · cases h
    rw [hzero hinvalid, setField_zero_table]
    exact Or.inr ⟨rfl, hroom, rfl, rfl⟩
  · cases h
    refine Or.inl ⟨rfl, if_pos ?_⟩
    rcases hallowed with hcode | hcode | ⟨hcode, -⟩
    · exact absurd hcode hinvalid
    · exact hcode
    · exact absurd hcode hblock

theorem tableBelow_within (tree : TreeOk (crudeSource tablesStart tablesEnd) tables.state
      (height + 1) table) (hidx : idx < 512)
    (hclear : ∀ i, tables.tablesCurrent < tablesEnd → tables.mem tables.tablesCurrent i = 0)
    (h : (after = tables ∧ child tables.mem table idx = some next) ∨
      descriptorCode (tables.mem table idx) = ptInvalidDescriptor ∧
        tables.tablesCurrent < tablesEnd ∧ next = tables.tablesCurrent ∧
          after = { mem := tables.mem.write table idx (createTableEntry next)
                    tablesCurrent := tables.tablesCurrent + 1 }) :
    Within (crudeSource tablesStart tablesEnd) tables.state after.state (height + 1) table ∧
      child after.mem table idx = some next ∧ ∀ virt,
        walkFrom after.mem (height + 1) table virt =
          walkFrom tables.mem (height + 1) table virt := by
  rcases h with ⟨rfl, hchild⟩ | ⟨hinvalid, hroom, rfl, rfl⟩
  · exact ⟨Within.refl tree, hchild, fun _ => rfl⟩
  · exact Within.allocate tree hidx hinvalid
      (allocateTable_crude hroom fun i => hclear i hroom)

/-- **The blocks of a table.**  The entries that are filled are the blocks of the range, in order;
the others are as before. -/
theorem fillBlocks_spec {flags : U64} (hflags : flags &&& entryBits = 0) :
    ∀ {n first y : ℕ} {before : CrudeTables},
      TreeOk (crudeSource tablesStart tablesEnd) before.state 1 table → first + n ≤ 512 →
      y % 2 ^ 21 = 0 → y + n * 2 ^ 21 ≤ 2 ^ 48 →
      Within (crudeSource tablesStart tablesEnd) before.state
          (state { before with
            mem := fillBlocks flags table n first (BitVec.ofNat 64 y) before.mem }) 1 table ∧
        ∀ page i, fillBlocks flags table n first (BitVec.ofNat 64 y) before.mem page i =
          if page = table ∧ first ≤ i ∧ i < first + n then
            crudeBlock flags (BitVec.ofNat 64 (y + (i - first) * 2 ^ 21))
          else before.mem page i := by
  intro n
  induction n with
  | zero =>
      intro first y before tree _ _ _
      refine ⟨Within.refl tree, fun page i => ?_⟩
      rw [if_neg (by omega)]
      rfl
  | succ n ih =>
      intro first y before tree hlast haligned hy
      have hy' : y < 2 ^ 48 := by omega
      have hcode := descriptorCode_crudeBlock hflags hy' haligned
      have hallowed : EntryAllowed (0 + 1) (crudeBlock flags (BitVec.ofNat 64 y)) :=
        Or.inr (Or.inr ⟨hcode, by decide, by decide⟩)
      obtain ⟨hwrite, -, -⟩ := Within.write tree (by omega : first < 512) _ hallowed
        (by rw [hcode]; decide)
      have hshift : 2 ^ shifts 1 = 2 ^ 21 := rfl
      have hsum : BitVec.ofNat 64 y + sizes 1 = BitVec.ofNat 64 (y + 2 ^ 21) := by
        rw [sizes_eq_ofNat (by decide), hshift, BitVec.ofNat_add]
      obtain ⟨hrest, hentries⟩ := @ih (first + 1) (y + 2 ^ 21)
        { before with mem := before.mem.write table first (crudeBlock flags (BitVec.ofNat 64 y)) }
        hwrite.ok (by omega) (by omega) (by omega)
      rw [fillBlocks, hsum]
      refine ⟨hwrite.trans hrest, fun page i => ?_⟩
      rw [hentries page i]
      dsimp only
      by_cases hhere : page = table ∧ i = first
      · obtain ⟨rfl, rfl⟩ := hhere
        rw [if_neg (by omega), if_pos ⟨rfl, by omega, by omega⟩, TableMemory.write_self,
          Nat.sub_self, Nat.zero_mul, Nat.add_zero]
      · by_cases hin : page = table ∧ first + 1 ≤ i ∧ i < first + 1 + n
        · rw [if_pos hin, if_pos ⟨hin.1, by omega, by omega⟩]
          congr 2
          have hsub : i - first = i - (first + 1) + 1 := by omega
          rw [hsub, Nat.add_mul]
          omega
        · have hout : ¬ (page = table ∧ first ≤ i ∧ i < first + (n + 1)) := by
            rintro ⟨rfl, hlow, hhigh⟩
            have hne : i ≠ first := fun heq => hhere ⟨rfl, heq⟩
            exact hin ⟨rfl, by omega, by omega⟩
          rw [if_neg hin, if_neg hout]
          unfold TableMemory.write
          rw [if_neg hhere]

/-! ## A call -/

/-- A new table is in a page that was not in use, so that nothing but the entry changes. -/
theorem Ok.link (ok : Ok tablesStart tablesEnd tables)
    (hroom : tables.tablesCurrent < tablesEnd)
    (tree : TreeOk (crudeSource tablesStart tablesEnd)
      (state { mem := tables.mem.write table idx (createTableEntry tables.tablesCurrent)
               tablesCurrent := tables.tablesCurrent + 1 }) 3 tablesStart)
    (hused : table < tables.tablesCurrent)
    (hupper : ∀ i < 512, ∀ l1Table,
      child (tables.mem.write table idx (createTableEntry tables.tablesCurrent)) tablesStart i =
        some l1Table →
      l1Table = tables.tablesCurrent ∨ child tables.mem tablesStart i = some l1Table) :
    Ok tablesStart tablesEnd
      { mem := tables.mem.write table idx (createTableEntry tables.tablesCurrent)
        tablesCurrent := tables.tablesCurrent + 1 } := by
  refine ⟨tree, fun page hpage hpage' i => ?_, fun page hpage hpage' i hinvalid => ?_,
    fun i hi l1Table hchild j hj => ?_⟩
  · dsimp only at hpage ⊢
    have hne : page ≠ table := by
      rintro rfl
      bv_omega
    rw [TableMemory.write_of_page_ne hne]
    exact ok.clear page (by bv_omega) hpage' i
  · dsimp only at hinvalid ⊢
    by_cases hentry : page = table ∧ i = idx
    · obtain ⟨rfl, rfl⟩ := hentry
      rw [TableMemory.write_self, descriptorCode_createTableEntry] at hinvalid
      cases hinvalid
    · unfold TableMemory.write at hinvalid ⊢
      rw [if_neg hentry] at hinvalid ⊢
      exact ok.invalid page hpage hpage' i hinvalid
  · dsimp only at hchild ⊢
    unfold TableMemory.write
    split_ifs with hentry
    · rw [descriptorCode_createTableEntry]
      decide
    · rcases hupper i hi l1Table hchild with rfl | hchild'
      · rw [ok.clear _ (BitVec.le_refl _) hroom]
        decide
      · exact ok.upper i hi l1Table hchild' j hj

theorem Ok.inUse (ok : Ok tablesStart tablesEnd tables) {page : Page}
    (h : InTree tables.mem 3 tablesStart page) :
    tablesStart ≤ page ∧ page < tablesEnd ∧ page < tables.tablesCurrent :=
  inUse_iff.mp (ok.tree.used page h)

theorem Ok.root_notBlock (ok : Ok tablesStart tablesEnd tables) (hidx : idx < 512) :
    descriptorCode (tables.mem tablesStart idx) ≠ ptUpperBlockDescriptor := by
  intro hblock
  rcases (ok.tree.wf idx hidx).1 with hcode | hcode | ⟨-, -, hheight⟩
  · exact absurd (hcode.symm.trans hblock) (by decide)
  · exact absurd (hcode.symm.trans hblock) (by decide)
  · exact absurd hheight (by decide)

theorem Ok.below_root (ok : Ok tablesStart tablesEnd tables) (hidx : idx < 512)
    (h : tables.tableBelow tablesEnd tablesStart idx = some (after, next)) :
    Ok tablesStart tablesEnd after ∧ child after.mem tablesStart idx = some next ∧
      ∀ virt, walkFrom after.mem 3 tablesStart virt = walkFrom tables.mem 3 tablesStart virt := by
  obtain ⟨hlow, hhigh, hused⟩ := ok.inUse (inTree_self _ 3 tablesStart)
  have hcases := tableBelow_cases (ok.tree.wf idx hidx).1 (ok.root_notBlock hidx)
    (ok.invalid tablesStart hlow hhigh idx) h
  obtain ⟨hwithin, hchild, hwalk⟩ := tableBelow_within ok.tree hidx
    (fun i hroom => ok.clear _ (BitVec.le_refl _) hroom i) hcases
  refine ⟨?_, hchild, hwalk⟩
  rcases hcases with ⟨rfl, -⟩ | ⟨-, hroom, rfl, rfl⟩
  · exact ok
  · refine ok.link hroom hwithin.ok hused fun i hi l1Table hchild' => ?_
    by_cases hsame : i = idx
    · subst hsame
      left
      exact Option.some_inj.mp (hchild'.symm.trans hchild)
    · right
      rw [← hchild']
      exact (child_congr (TableMemory.write_of_idx_ne hsame _ _ _)).symm

theorem walk_of_child {height idx : ℕ} {table next : Page} {before after : CrudeTables}
    (tree : TreeOk (crudeSource tablesStart tablesEnd) before.state (height + 1) table)
    (hidx : idx < 512) (hchild : child before.mem table idx = some next)
    (within : Within (crudeSource tablesStart tablesEnd) before.state after.state height next)
    (hwalk : ∀ virt, walkFrom after.mem height next virt = walkFrom before.mem height next virt)
    (virt : U64) :
    walkFrom after.mem (height + 1) table virt = walkFrom before.mem (height + 1) table virt := by
  by_cases hsame : tableIndex (height + 1) virt = idx
  · subst hsame
    have hrow : after.mem table (tableIndex (height + 1) virt) =
        before.mem table (tableIndex (height + 1) virt) := within.row tree hidx hchild _
    rw [walkFrom_of_child ((child_congr hrow).trans hchild), walkFrom_of_child hchild, hwalk]
  · exact within.walk_other tree hidx hchild hsame

theorem Ok.below_l1 (ok : Ok tablesStart tablesEnd tables) {top : ℕ} (htop : top < 512)
    (hl1 : child tables.mem tablesStart top = some table) (hidx : idx < 512)
    (h : tables.tableBelow tablesEnd table idx = some (after, next)) :
    Ok tablesStart tablesEnd after ∧ child after.mem tablesStart top = some table ∧
      child after.mem table idx = some next ∧ ∀ virt,
        walkFrom after.mem 3 tablesStart virt = walkFrom tables.mem 3 tablesStart virt := by
  have hin : InTree tables.mem 3 tablesStart table := inTree_of_child htop hl1 (inTree_self _ _ _)
  obtain ⟨hlow, hhigh, hused⟩ := ok.inUse hin
  have tree := ok.tree.child htop hl1
  have hcases := tableBelow_cases (tree.wf idx hidx).1 (ok.upper top htop table hl1 idx hidx)
    (ok.invalid table hlow hhigh idx) h
  obtain ⟨hwithin, hchild, hwalk⟩ := tableBelow_within tree hidx
    (fun i hroom => ok.clear _ (BitVec.le_refl _) hroom i) hcases
  have hrow := hwithin.row ok.tree htop hl1
  refine ⟨?_, (child_congr (hrow top)).trans hl1, hchild,
    walk_of_child ok.tree htop hl1 hwithin hwalk⟩
  rcases hcases with ⟨rfl, -⟩ | ⟨-, hroom, rfl, rfl⟩
  · exact ok
  · refine ok.link hroom (Within.of_child ok.tree htop hl1 hwithin).ok hused
      fun i hi l1Table hchild' => Or.inr ?_
    rw [← hchild']
    exact (child_congr (hrow i)).symm

/-- **Filling a table of blocks.** -/
theorem Ok.fill (ok : Ok tablesStart tablesEnd tables) {top : ℕ} (htop : top < 512)
    (hl1 : child tables.mem tablesStart top = some table) (hidx : idx < 512)
    (hl2 : child tables.mem table idx = some next) {flags : U64}
    (hflags : flags &&& entryBits = 0) {n first y : ℕ} (hlast : first + n ≤ 512)
    (haligned : y % 2 ^ 21 = 0) (hy : y + n * 2 ^ 21 ≤ 2 ^ 48) :
    Ok tablesStart tablesEnd
        { tables with mem := fillBlocks flags next n first (BitVec.ofNat 64 y) tables.mem } ∧
      ∀ virt, walkFrom (fillBlocks flags next n first (BitVec.ofNat 64 y) tables.mem) 3
          tablesStart virt =
        if tableIndex 3 virt = top ∧ tableIndex 2 virt = idx ∧ first ≤ tableIndex 1 virt ∧
            tableIndex 1 virt < first + n then
          some (1, crudeBlock flags
            (BitVec.ofNat 64 (y + (tableIndex 1 virt - first) * 2 ^ 21)))
        else walkFrom tables.mem 3 tablesStart virt := by
  have tree1 := ok.tree.child htop hl1
  have tree2 := tree1.child hidx hl2
  obtain ⟨hwithin, hentries⟩ := fillBlocks_spec hflags tree2 hlast haligned hy
  have hwithin2 := hwithin.of_child tree1 hidx hl2
  have hwithin3 := hwithin2.of_child ok.tree htop hl1
  have hin : InTree tables.mem 3 tablesStart next :=
    inTree_of_child htop hl1 (inTree_of_child hidx hl2 (inTree_self _ _ _))
  obtain ⟨-, -, hused⟩ := ok.inUse hin
  have hother : ∀ page ≠ next, ∀ i,
      fillBlocks flags next n first (BitVec.ofNat 64 y) tables.mem page i = tables.mem page i :=
    fun page hne i => (hentries page i).trans (if_neg fun h => hne h.1)
  -- No table of the upper levels is the one that is filled.
  have hupper : ∀ i < 512, ∀ l1Table, child tables.mem tablesStart i = some l1Table →
      l1Table ≠ next := by
    rintro i hi l1Table hchild rfl
    by_cases hsame : i = top
    · subst hsame
      obtain rfl : l1Table = table := Option.some_inj.mp (hchild.symm.trans hl1)
      exact tree1.not_inTree_child hidx hl2 (inTree_self _ _ _)
    · exact ((ok.tree.wf top htop).2 table hl1).2.2 i hi hsame l1Table hchild l1Table
        (inTree_of_child hidx hl2 (inTree_self _ _ _)) (inTree_self _ _ _)
  have hroot : tablesStart ≠ next := by
    rintro rfl
    exact ok.tree.not_inTree_child htop hl1 (inTree_of_child hidx hl2 (inTree_self _ _ _))
  refine ⟨⟨hwithin3.ok, fun page hpage hpage' i => ?_, fun page hpage hpage' i hinvalid => ?_,
    fun i hi l1Table hchild j hj => ?_⟩, fun virt => ?_⟩
  · dsimp only at hpage ⊢
    rw [hother page (by rintro rfl; bv_omega)]
    exact ok.clear page hpage hpage' i
  · dsimp only at hinvalid ⊢
    rw [hentries page i] at hinvalid ⊢
    split_ifs at hinvalid ⊢ with hfilled
    · exfalso
      rw [descriptorCode_crudeBlock hflags (by omega) (by omega)] at hinvalid
      cases hinvalid
    · exact ok.invalid page hpage hpage' i hinvalid
  · dsimp only at hchild ⊢
    rw [child_congr (hother tablesStart hroot i)] at hchild
    rw [hother l1Table (hupper i hi l1Table hchild)]
    exact ok.upper i hi l1Table hchild j hj
  · by_cases htop' : tableIndex 3 virt = top
    · subst htop'
      have hl1' := (child_congr (hother tablesStart hroot (tableIndex 3 virt))).trans hl1
      by_cases hidx' : tableIndex 2 virt = idx
      · subst hidx'
        have hl2' := (child_congr (hother table (hupper _ htop table hl1) _)).trans hl2
        rw [walkFrom_of_child hl1', walkFrom_of_child hl2']
        have hentry := hentries next (tableIndex 1 virt)
        split_ifs with hrange
        · obtain ⟨-, -, hlow, hhigh⟩ := hrange
          rw [if_pos ⟨rfl, hlow, hhigh⟩] at hentry
          exact walkFrom_of_block hentry
            (descriptorCode_crudeBlock hflags (by omega) (by omega)) (by decide)
        · rw [if_neg fun h => hrange ⟨rfl, rfl, h.2⟩] at hentry
          rw [walkFrom_of_child hl1, walkFrom_of_child hl2]
          refine walkFrom_of_lastEntry (lastEntry_of_entry hentry fun next' hchild' page hpage i => ?_)
          refine hother page ?_ i
          rintro rfl
          exact tree2.not_inTree_child (tableIndex_lt _ _) hchild' hpage
      · rw [if_neg fun h => hidx' h.2.1, walkFrom_of_child hl1', walkFrom_of_child hl1]
        exact hwithin.walk_other tree1 hidx hl2 hidx'
    · rw [if_neg fun h => htop' h.1]
      exact hwithin2.walk_other ok.tree htop hl1 htop'

/-! ## Addresses and entries -/

theorem mod_eq_indices (n : ℕ) :
    n % 2 ^ 48 = n / 2 ^ 39 % 512 * 2 ^ 39 + n / 2 ^ 30 % 512 * 2 ^ 30 + n / 2 ^ 21 % 512 * 2 ^ 21 +
        n % 2 ^ 21 ∧
      n % 2 ^ 21 < 2 ^ 21 ∧ n / 2 ^ 21 % 512 < 512 ∧ n / 2 ^ 30 % 512 < 512 := by
  have hlt : ∀ m, m % 512 < 512 := fun m => Nat.mod_lt m (by decide)
  refine ⟨?_, Nat.mod_lt _ (by decide), hlt _, hlt _⟩
  rw [show 2 ^ 48 = 2 ^ 39 * 512 from rfl, Strides.mod_mul_eq, show 2 ^ 39 = 2 ^ 30 * 512 from rfl,
    Strides.mod_mul_eq, show 2 ^ 30 = 2 ^ 21 * 512 from rfl, Strides.mod_mul_eq, Nat.add_assoc, Nat.add_assoc]

/-- The range of a call that ends in the slot of 1 GiB that it starts in, entry by entry. -/
theorem inRange_entries {virt start size : U64} (hstart : start.toNat % 2 ^ 21 = 0)
    (hsize : size.toNat % 2 ^ 21 = 0)
    (hslot : start.toNat / 2 ^ 30 = (start.toNat + size.toNat) / 2 ^ 30)
    (hend : start.toNat + size.toNat < 2 ^ 64) :
    tableIndex 1 start + size.toNat / 2 ^ 21 = tableIndex 1 (start + size) ∧
      (InRange 3 (position 3 start) size.toNat virt ↔
        tableIndex 3 virt = tableIndex 3 start ∧ tableIndex 2 virt = tableIndex 2 start ∧
          tableIndex 1 start ≤ tableIndex 1 virt ∧
            tableIndex 1 virt < tableIndex 1 start + size.toNat / 2 ^ 21) ∧
      (InRange 3 (position 3 start) size.toNat virt →
        (tableIndex 1 virt - tableIndex 1 start) * 2 ^ 21 + virt.toNat % 2 ^ 21 =
          position 3 virt - position 3 start) := by
  have hsum : (start + size).toNat = start.toNat + size.toNat := by
    rw [BitVec.toNat_add, Nat.mod_eq_of_lt hend]
  have hshift1 : 2 ^ shifts 1 = 2 ^ 21 := rfl
  have hshift2 : 2 ^ shifts 2 = 2 ^ 30 := rfl
  have hshift3 : 2 ^ shifts 3 = 2 ^ 39 := rfl
  have hshift4 : 2 ^ shifts (3 + 1) = 2 ^ 48 := rfl
  unfold InRange position
  simp only [tableIndex_eq, hsum, hshift1, hshift2, hshift3, hshift4]
  generalize virt.toNat = v
  generalize start.toNat = x at *
  generalize size.toNat = s at *
  obtain ⟨hv, hv0, hv1, hv2⟩ := mod_eq_indices v
  obtain ⟨hx, -, hx1, hx2⟩ := mod_eq_indices x
  -- The call starts a block and stays in the slot.
  have hblocks : s = s / 2 ^ 21 * 2 ^ 21 := by omega
  have hroom : x / 2 ^ 21 % 512 + s / 2 ^ 21 < 512 := by omega
  have hlast : (x + s) / 2 ^ 21 % 512 = x / 2 ^ 21 % 512 + s / 2 ^ 21 := by omega
  rw [hlast, hv, hx, hstart]
  generalize s / 2 ^ 21 = count at hblocks hroom
  generalize v / 2 ^ 39 % 512 = v3
  generalize v / 2 ^ 30 % 512 = v2 at hv2 ⊢
  generalize v / 2 ^ 21 % 512 = v1 at hv1 ⊢
  generalize v % 2 ^ 21 = v0 at hv0 ⊢
  generalize x / 2 ^ 39 % 512 = x3
  generalize x / 2 ^ 30 % 512 = x2 at hx2 ⊢
  generalize x / 2 ^ 21 % 512 = x1 at hroom hx1 ⊢
  clear hv hx hslot hend hsum hlast hsize hstart
  subst hblocks
  refine ⟨rfl, ⟨fun h => ?_, fun h => ?_⟩, fun h => ?_⟩
  · have h3 : v3 = x3 := by omega
    have h2 : v2 = x2 := by omega
    omega
  · omega
  · have h3 : v3 = x3 := by omega
    have h2 : v2 = x2 := by omega
    omega

end CrudeTables

/-! ## What a call does -/

namespace CrudeCall

/-- The alignment that is checked. -/
def Aligned (call : CrudeCall) : Prop :=
  isAligned 1 call.virtAddr = true ∧ isAligned 1 call.physAddr = true ∧ isAligned 1 call.size = true
deriving Decidable

/-- The range lies inside one slot of 1 GiB; it may end where the slot does. -/
def InSlot (call : CrudeCall) : Prop :=
  call.size = 0 ∨ call.virtAddr.toNat / 2 ^ 30 =
    (call.virtAddr.toNat + call.size.toNat - 1) / 2 ^ 30
deriving Decidable

/-- The check of `crude_map_region` lets the range pass. -/
def Passes (call : CrudeCall) : Prop :=
  call.virtAddr >>> shifts 2 = (call.virtAddr + call.size) >>> shifts 2
deriving Decidable

/-- A range that is aligned, and not empty, does not end where its slot does; and if it passes, then
it does not wrap around, its physical addresses have 48 bits, and its flags leave the kind and the
address of an entry alone. -/
def Clean (call : CrudeCall) : Prop :=
  call.Aligned → call.size ≠ 0 →
    (call.InSlot → (call.virtAddr.toNat + call.size.toNat) % 2 ^ 30 ≠ 0) ∧
      (call.Passes → call.virtAddr.toNat + call.size.toNat < 2 ^ 64 ∧
        call.physAddr.toNat + call.size.toNat ≤ 2 ^ 48 ∧ call.flags &&& entryBits = 0)

instance (call : CrudeCall) : Decidable call.Clean := inferInstanceAs (Decidable (_ → _ → _ ∧ _))

variable {call : CrudeCall}

theorem passes_iff : call.Passes ↔ call.virtAddr.toNat / 2 ^ 30 =
    (call.virtAddr.toNat + call.size.toNat) % 2 ^ 64 / 2 ^ 30 := by
  unfold Passes
  rw [← BitVec.toNat_inj, BitVec.toNat_ushiftRight, BitVec.toNat_ushiftRight,
    Nat.shiftRight_eq_div_pow, Nat.shiftRight_eq_div_pow, BitVec.toNat_add]
  exact Iff.rfl

theorem passes_of_inSlot (hslot : call.InSlot)
    (hend : call.size ≠ 0 → (call.virtAddr.toNat + call.size.toNat) % 2 ^ 30 ≠ 0) :
    call.Passes := by
  rw [passes_iff]
  have hvirt := call.virtAddr.isLt
  rcases hslot with hzero | hslot
  · rw [hzero]
    change _ = (call.virtAddr.toNat + 0) % 2 ^ 64 / 2 ^ 30
    omega
  · by_cases hzero : call.size = 0
    · rw [hzero]
      change _ = (call.virtAddr.toNat + 0) % 2 ^ 64 / 2 ^ 30
      omega
    · have hne := hend hzero
      have hpos : call.size.toNat ≠ 0 := fun h => hzero (BitVec.eq_of_toNat_eq h)
      omega

end CrudeCall

namespace CrudeTables

variable {tablesStart tablesEnd : Page} {tables : CrudeTables} {call : CrudeCall}

/-- What an address translates to; before the first table is made there is no translation. -/
def translate (tablesStart : Page) (tables : CrudeTables) (virt : U64) : Option Translation :=
  if tables.tablesCurrent = tablesStart then none else translateFrom tables.mem 3 tablesStart virt

/-- How many tables are missing on the way to the blocks of an address. -/
def missing (tablesStart : Page) (tables : CrudeTables) (virt : U64) : ℕ :=
  if descriptorCode (tables.mem tablesStart (tableIndex 3 virt)) = ptInvalidDescriptor then 2
  else if descriptorCode (tables.mem (tablePage (tables.mem tablesStart (tableIndex 3 virt)))
    (tableIndex 2 virt)) = ptInvalidDescriptor then 1
  else 0

/-- There are pages left for them in the pool. -/
def Remains (tablesStart tablesEnd : Page) (tables : CrudeTables) (virt : U64) : Prop :=
  (tables.initialise tablesStart tablesEnd).tablesCurrent.toNat +
    (tables.initialise tablesStart tablesEnd).missing tablesStart virt ≤ tablesEnd.toNat

/-- **What a call is to do.**  Where it returns true, the addresses of its range translate to
those of the physical range, with its flags, and all others as before; where it returns false, all
do; and it returns true for every aligned range inside one slot while there are pages left. -/
def Right (tablesStart tablesEnd : Page) (tables : CrudeTables) (call : CrudeCall) : Prop :=
  let done := crudeMapRegion tablesStart tablesEnd tables call
  (done.2 = true → ∀ virt,
      (InRange 3 (position 3 call.virtAddr) call.size.toNat virt →
        done.1.translate tablesStart virt = some
          { address := call.physAddr.toNat + (position 3 virt - position 3 call.virtAddr)
            attributes := call.flags &&& attributeMask }) ∧
      (¬ InRange 3 (position 3 call.virtAddr) call.size.toNat virt →
        done.1.translate tablesStart virt = tables.translate tablesStart virt)) ∧
    (done.2 = false → ∀ virt,
      done.1.translate tablesStart virt = tables.translate tablesStart virt) ∧
    (call.Aligned → call.InSlot → tables.Remains tablesStart tablesEnd call.virtAddr →
      done.2 = true)

/-- The pool before its first use, or in use. -/
def Ready (tablesStart tablesEnd : Page) (tables : CrudeTables) : Prop :=
  tables.tablesCurrent = tablesStart ∨ Ok tablesStart tablesEnd tables

theorem Ok.started (ok : Ok tablesStart tablesEnd tables) : tables.tablesCurrent ≠ tablesStart := by
  obtain ⟨-, -, hused⟩ := ok.inUse (inTree_self _ 3 tablesStart)
  bv_omega

theorem Ok.translate_eq (ok : Ok tablesStart tablesEnd tables) (virt : U64) :
    tables.translate tablesStart virt = translateFrom tables.mem 3 tablesStart virt :=
  if_neg ok.started

/-- A pool that is cleared can be used, and nothing is translated otherwise. -/
theorem initialise_ok (hpool : tablesStart < tablesEnd)
    (ready : Ready tablesStart tablesEnd tables) :
    Ok tablesStart tablesEnd (tables.initialise tablesStart tablesEnd) ∧ ∀ virt,
      (tables.initialise tablesStart tablesEnd).translate tablesStart virt =
        tables.translate tablesStart virt := by
  by_cases hfirst : tables.tablesCurrent = tablesStart
  · have heq : tables.initialise tablesStart tablesEnd =
        { mem := fun page i =>
            if tablesStart ≤ page ∧ page < tablesEnd then 0 else tables.mem page i
          tablesCurrent := tablesStart + 1 } := by
      rw [initialise, if_pos hfirst, hfirst]
    have hzero : ∀ page, tablesStart ≤ page → page < tablesEnd → ∀ i,
        (tables.initialise tablesStart tablesEnd).mem page i = 0 := by
      intro page hlow hhigh i
      rw [heq]
      exact if_pos ⟨hlow, hhigh⟩
    have hblank := blank_of_zero (hzero tablesStart (BitVec.le_refl _) hpool)
    have hcurrent : (tables.initialise tablesStart tablesEnd).tablesCurrent = tablesStart + 1 := by
      rw [heq]
    have ok : Ok tablesStart tablesEnd (tables.initialise tablesStart tablesEnd) := by
      refine ⟨⟨wellFormedTree_of_blank hblank 3, fun page hpage => ?_, fun current hmem => ?_⟩,
        fun page hlow hhigh i => hzero page (by bv_omega) hhigh i,
        fun page hlow hhigh i _ => hzero page hlow hhigh i, fun i hi l1Table hchild => ?_⟩
      · obtain rfl : page = tablesStart := (inTree_of_blank hblank 3 page).mp hpage
        refine inUse_iff.mpr ⟨BitVec.le_refl _, hpool, ?_⟩
        rw [hcurrent]
        bv_omega
      · cases hmem
        rw [hcurrent]
        change tablesStart ≤ tablesStart + 1
        bv_omega
      · rw [child_of_blank hblank hi] at hchild
        cases hchild
    refine ⟨ok, fun virt => ?_⟩
    rw [ok.translate_eq, translateFrom, walkFrom_of_blank hblank, translate, if_pos hfirst]
    rfl
  · have heq : tables.initialise tablesStart tablesEnd = tables := if_neg hfirst
    rw [heq]
    exact ⟨ready.resolve_left hfirst, fun _ => rfl⟩

theorem right_of_refused {after : CrudeTables}
    (h : crudeMapRegion tablesStart tablesEnd tables call = (after, false))
    (ready : Ready tablesStart tablesEnd after)
    (hsame : ∀ virt, after.translate tablesStart virt = tables.translate tablesStart virt)
    (hrefused : call.Aligned → call.InSlot →
      ¬ tables.Remains tablesStart tablesEnd call.virtAddr) :
    Ready tablesStart tablesEnd (crudeMapRegion tablesStart tablesEnd tables call).1 ∧
      Right tablesStart tablesEnd tables call := by
  unfold Right
  rw [h]
  exact ⟨ready, nofun, fun _ => hsame,
    fun haligned hslot hremains => absurd hremains (hrefused haligned hslot)⟩

theorem tableBelow_eq_none {tables : CrudeTables} {table : Page} {idx : ℕ}
    (h : tables.tableBelow tablesEnd table idx = none) :
    descriptorCode (tables.mem table idx) = ptInvalidDescriptor ∧
      tablesEnd.toNat ≤ tables.tablesCurrent.toNat := by
  unfold tableBelow at h
  dsimp only at h
  split_ifs at h with hinvalid hroom
  exact ⟨hinvalid, by bv_omega⟩

theorem missing_of_below_root (ok : Ok tablesStart tablesEnd tables) {l1Table : Page}
    {after : CrudeTables} {virt : U64}
    (h : tables.tableBelow tablesEnd tablesStart (tableIndex 3 virt) = some (after, l1Table))
    (hinvalid : descriptorCode (after.mem l1Table (tableIndex 2 virt)) = ptInvalidDescriptor) :
    after.tablesCurrent.toNat + 1 =
      tables.tablesCurrent.toNat + tables.missing tablesStart virt := by
  have hidx := tableIndex_lt 3 virt
  obtain ⟨hlow, hhigh, -⟩ := ok.inUse (inTree_self _ 3 tablesStart)
  unfold missing
  rcases tableBelow_cases (ok.tree.wf _ hidx).1 (ok.root_notBlock hidx)
    (ok.invalid tablesStart hlow hhigh _) h with ⟨rfl, hchild⟩ | ⟨hnone, hroom, rfl, rfl⟩
  · unfold child at hchild
    split_ifs at hchild with htable
    cases hchild
    rw [if_neg (by rw [htable]; decide), if_pos hinvalid]
  · rw [if_pos hnone]
    have hend := tablesEnd.isLt
    dsimp only
    bv_omega

/-- A call that has come to the table of the blocks. -/
theorem filled_right {top idx : ℕ} {l1Table l2Table : Page} {below : CrudeTables}
    (ok : Ok tablesStart tablesEnd below) (htop : top < 512)
    (hl1 : child below.mem tablesStart top = some l1Table) (hidx : idx < 512)
    (hl2 : child below.mem l1Table idx = some l2Table) (htop' : tableIndex 3 call.virtAddr = top)
    (hidx' : tableIndex 2 call.virtAddr = idx)
    (hsame : ∀ virt, below.translate tablesStart virt = tables.translate tablesStart virt)
    (haligned : call.Aligned) (hend : call.virtAddr.toNat + call.size.toNat < 2 ^ 64)
    (hslot : call.virtAddr.toNat / 2 ^ 30 =
      (call.virtAddr.toNat + call.size.toNat) / 2 ^ 30)
    (clean : call.size ≠ 0 →
      call.physAddr.toNat + call.size.toNat ≤ 2 ^ 48 ∧ call.flags &&& entryBits = 0)
    (hcall : crudeMapRegion tablesStart tablesEnd tables call =
      ({ below with
          mem := fillBlocks call.flags l2Table
            (tableIndex 1 (call.virtAddr + call.size) - tableIndex 1 call.virtAddr)
            (tableIndex 1 call.virtAddr) call.physAddr below.mem }, true)) :
    Ready tablesStart tablesEnd (crudeMapRegion tablesStart tablesEnd tables call).1 ∧
      Right tablesStart tablesEnd tables call := by
  obtain ⟨hvirt, hphys, hsize⟩ := haligned
  rw [isAligned_iff (by decide)] at hvirt hphys hsize
  change _ % 2 ^ 21 = 0 at hvirt hphys hsize
  have hcount : tableIndex 1 (call.virtAddr + call.size) - tableIndex 1 call.virtAddr =
      call.size.toNat / 2 ^ 21 := by
    have hentries := (@inRange_entries 0 _ _ hvirt hsize hslot hend).1
    omega
  have hlast : tableIndex 1 call.virtAddr + call.size.toNat / 2 ^ 21 ≤ 512 := by
    rw [(@inRange_entries 0 _ _ hvirt hsize hslot hend).1]
    exact (tableIndex_lt _ _).le
  rw [hcount] at hcall
  unfold Right
  rw [hcall]
  by_cases hzero : call.size = 0
  · rw [hzero]
    refine ⟨Or.inr ok, fun _ virt => ⟨fun hin => ?_, fun _ => hsame virt⟩, nofun, fun _ _ _ => rfl⟩
    exact absurd (hin.1.trans_lt hin.2) (lt_irrefl _)
  · obtain ⟨hframes, hflags⟩ := clean hzero
    have hofNat : BitVec.ofNat 64 call.physAddr.toNat = call.physAddr := by
      rw [BitVec.ofNat_toNat, BitVec.setWidth_eq]
    obtain ⟨ok', hwalk⟩ := ok.fill htop hl1 hidx hl2 hflags hlast hphys (by omega)
    rw [hofNat] at ok' hwalk
    refine ⟨Or.inr ok', fun _ virt => ?_, nofun, fun _ _ _ => rfl⟩
    obtain ⟨-, hrange, hplace⟩ := @inRange_entries virt _ _ hvirt hsize hslot hend
    rw [htop', hidx'] at hrange
    rw [ok'.translate_eq]
    constructor
    · intro hin
      have hentry := (hwalk virt).trans (if_pos (hrange.mp hin))
      obtain ⟨-, -, hlow, hhigh⟩ := hrange.mp hin
      rw [translateFrom_of_walkFrom hentry, output_crudeBlock hflags (by omega) (by omega),
        Nat.add_assoc, hplace hin]
    · intro hout
      have hentry := (hwalk virt).trans (if_neg (mt hrange.mpr hout))
      rw [← hsame, ok.translate_eq]
      exact translateFrom_congr hentry

/-- A call behind the checks. -/
theorem mapBlocks_right (hpool : tablesStart < tablesEnd)
    (ready : Ready tablesStart tablesEnd tables) (haligned : call.Aligned)
    (hend : call.virtAddr.toNat + call.size.toNat < 2 ^ 64)
    (hslot : call.virtAddr.toNat / 2 ^ 30 =
      (call.virtAddr.toNat + call.size.toNat) / 2 ^ 30)
    (clean : call.size ≠ 0 →
      call.physAddr.toNat + call.size.toNat ≤ 2 ^ 48 ∧ call.flags &&& entryBits = 0)
    (hcall : crudeMapRegion tablesStart tablesEnd tables call =
      tables.mapBlocks tablesStart tablesEnd call) :
    Ready tablesStart tablesEnd (crudeMapRegion tablesStart tablesEnd tables call).1 ∧
      Right tablesStart tablesEnd tables call := by
  obtain ⟨ok, hinitial⟩ := initialise_ok hpool ready
  unfold mapBlocks at hcall
  dsimp only at hcall
  cases hroot : (tables.initialise tablesStart tablesEnd).tableBelow tablesEnd tablesStart
      (tableIndex 3 call.virtAddr) with
  | none =>
      rw [hroot] at hcall
      obtain ⟨hinvalid, hfull⟩ := tableBelow_eq_none hroot
      refine right_of_refused hcall (Or.inr ok) hinitial fun _ _ hremains => ?_
      unfold Remains missing at hremains
      rw [if_pos hinvalid] at hremains
      omega
  | some below =>
      obtain ⟨tables1, l1Table⟩ := below
      obtain ⟨ok1, hl1, hwalk1⟩ := ok.below_root (tableIndex_lt _ _) hroot
      have hsame1 : ∀ virt, tables1.translate tablesStart virt =
          tables.translate tablesStart virt := fun virt => by
        rw [ok1.translate_eq, ← hinitial, ok.translate_eq]
        exact translateFrom_congr (hwalk1 virt)
      rw [hroot] at hcall
      dsimp only at hcall
      cases hnext : tables1.tableBelow tablesEnd l1Table (tableIndex 2 call.virtAddr) with
      | none =>
          rw [hnext] at hcall
          obtain ⟨hinvalid, hfull⟩ := tableBelow_eq_none hnext
          have hmissing := missing_of_below_root ok hroot hinvalid
          refine right_of_refused hcall (Or.inr ok1) hsame1 fun _ _ hremains => ?_
          unfold Remains at hremains
          omega
      | some below =>
          obtain ⟨tables2, l2Table⟩ := below
          obtain ⟨ok2, hl1', hl2, hwalk2⟩ :=
            ok1.below_l1 (tableIndex_lt _ _) hl1 (tableIndex_lt _ _) hnext
          have hsame2 : ∀ virt, tables2.translate tablesStart virt =
              tables.translate tablesStart virt := fun virt => by
            rw [← hsame1, ok1.translate_eq, ok2.translate_eq]
            exact translateFrom_congr (hwalk2 virt)
          rw [hnext] at hcall
          dsimp only at hcall
          exact filled_right ok2 (tableIndex_lt _ _) hl1' (tableIndex_lt _ _) hl2 rfl rfl hsame2
            haligned hend hslot clean hcall

/-- **One call** that is clean does what it is to do. -/
theorem call_right (hpool : tablesStart < tablesEnd) (ready : Ready tablesStart tablesEnd tables)
    (clean : call.Clean) :
    Ready tablesStart tablesEnd (crudeMapRegion tablesStart tablesEnd tables call).1 ∧
      Right tablesStart tablesEnd tables call := by
  by_cases haligned : ¬ isAligned 1 call.virtAddr ∨ ¬ isAligned 1 call.physAddr ∨
      ¬ isAligned 1 call.size
  · refine right_of_refused (if_pos haligned) ready (fun _ => rfl) fun haligned' => ?_
    obtain ⟨hvirt, hphys, hsize⟩ := haligned'
    exact absurd haligned (by simp [hvirt, hphys, hsize])
  have haligned' : call.Aligned := by
    unfold CrudeCall.Aligned
    simpa only [not_or, not_not] using haligned
  by_cases hpasses : call.Passes
  · have hcall : crudeMapRegion tablesStart tablesEnd tables call =
        tables.mapBlocks tablesStart tablesEnd call := by
      rw [crudeMapRegion, if_neg haligned]
      exact if_neg (not_not.mpr hpasses)
    have hend : call.virtAddr.toNat + call.size.toNat < 2 ^ 64 := by
      by_cases hsize : call.size = 0
      · rw [hsize]
        exact call.virtAddr.isLt
      · exact ((clean haligned' hsize).2 hpasses).1
    refine mapBlocks_right hpool ready haligned' hend ?_
      (fun hsize => ((clean haligned' hsize).2 hpasses).2) hcall
    rw [CrudeCall.passes_iff, Nat.mod_eq_of_lt hend] at hpasses
    exact hpasses
  · have hrefused : crudeMapRegion tablesStart tablesEnd tables call = (tables, false) := by
      rw [crudeMapRegion, if_neg haligned]
      exact if_pos hpasses
    refine right_of_refused hrefused ready (fun _ => rfl) fun _ hslot => ?_
    exact absurd (CrudeCall.passes_of_inSlot hslot fun hsize =>
      (clean haligned' hsize).1 hslot) hpasses

/-- A call, as a step of a run. -/
def step (tablesStart tablesEnd : Page) (tables : CrudeTables) (call : CrudeCall) :
    Option (CrudeTables × Bool) :=
  some (crudeMapRegion tablesStart tablesEnd tables call)

/-- **Every run of clean calls** on a pool of tables does what it is to do, call by call, whatever
the memory of the pool held. -/
theorem run_right (hpool : tablesStart < tablesEnd) (mem : TableMemory) (calls : List CrudeCall)
    (clean : ∀ call ∈ calls, call.Clean) :
    StepsMeet (step tablesStart tablesEnd) (Right tablesStart tablesEnd) ⟨mem, tablesStart⟩
      calls := by
  have hrun : ∀ {calls : List CrudeCall} {tables : CrudeTables},
      Ready tablesStart tablesEnd tables → (∀ call ∈ calls, call.Clean) →
        StepsMeet (step tablesStart tablesEnd) (Right tablesStart tablesEnd) tables calls := by
    intro calls
    induction calls with
    | nil => exact fun _ _ => trivial
    | cons call rest ih =>
        intro tables ready clean
        obtain ⟨ready', right⟩ := call_right hpool ready (clean call List.mem_cons_self)
        refine ⟨right, fun moved hmoved => ?_⟩
        cases hmoved
        exact ih ready' fun other hother => clean other (List.mem_cons_of_mem _ hother)
  exact hrun (Or.inl rfl) clean

/-- The last block of the first slot is refused, with a pool of four pages that nothing has been
taken from. -/
theorem run_right_fails : ¬ StepsMeet (step 0x100 0x104) (Right 0x100 0x104) ⟨fun _ _ => 0, 0x100⟩
    [⟨0x3FE00000, 0x3FE00000, 0x200000, 0x400⟩] := by
  rintro ⟨⟨-, -, haccepted⟩, -⟩
  have hdone := haccepted (by decide) (by decide)
    (by unfold Remains missing; decide +kernel)
  have hrefused : (crudeMapRegion 0x100 0x104 ⟨fun _ _ => 0, 0x100⟩
      ⟨0x3FE00000, 0x3FE00000, 0x200000, 0x400⟩).2 = false := by decide +kernel
  rw [hrefused] at hdone
  cases hdone

/-- Two blocks of the kernel and one of the first slot, in a pool whose memory is not clear. -/
theorem run_right_blocks : StepsMeet (step 0x100 0x106) (Right 0x100 0x106)
    ⟨fun _ _ => 0xFF, 0x100⟩
    [⟨0xFFFF800000200000, 0x200000, 0x400000, 0x400⟩, ⟨0x3FC00000, 0x3FC00000, 0x200000, 0x404⟩] :=
  run_right (by decide) _ _ (by decide)

end CrudeTables
end BekOS
