import BekOS.Lib.BitField
import BekOS.Mm.PageAllocator

/-!
# `TableManager`: the ARMv8 translation tables

The four-level tables of `translation_tables.cpp`, with 4 KiB granules.  A table
is a page of 512 words; `TableMemory` is the memory the tables live in.  Levels
are counted upwards from the last, in the order the recursion unwinds: height 0
is `L3`, heights 1, 2 and 3 are `L2`, `L1` and `L0`.

`map_upper`, `map_lower` and their `unmap` twins walk the tables with cursors
passed by reference; here the cursor is returned.  Each `for` loop is a function
of the number of entries left in the table and one round of a loop in `map_upper`
or `unmap_upper` is a definition of its own, whose Boolean is `false` where the
source returns `false`.  `none` stands for a failed `VERIFY` or the dereference
of an empty `optional`: `allocate_table` when the page allocator is exhausted.

The walk the hardware does is `walk`; it is not part of the source, which only
writes the tables.
-/

namespace BekOS

open BitField

universe u

/-! ## Descriptors -/

def ptEntryCount : ℕ := 512

def ptIndexMask : U64 := 511

def ptInvalidDescriptor : BitVec 2 := 0b00

def ptUpperBlockDescriptor : BitVec 2 := 0b01

def ptUpperTableDescriptor : BitVec 2 := 0b11

def ptLowerBlockDescriptor : BitVec 2 := 0b11

def pageShift : ℕ := 12

def pageOffsetMask : U64 := 4095

/-- `SHIFTS[level]`: 12, 21, 30 and 39 at heights 0 to 3. -/
def shifts (height : ℕ) : ℕ := 12 + 9 * height

/-- `SIZES[level]` -/
def sizes (height : ℕ) : U64 := (1 : U64) <<< shifts height

/-- `descriptor_code`, the low bits of every descriptor. -/
def descriptorCode (entry : U64) : BitVec 2 := getField entry 0 2

/-- `ARMv8MMU_L3_Entry::create` -/
def createL3Entry (physAddr flags : U64) : U64 :=
  setField (setField flags 12 ((physAddr >>> pageShift).setWidth 36)) 0
    ptLowerBlockDescriptor

/-- `ARMv8MMU_UpperEntry::create_table_entry` -/
def createTableEntry (nextTable : Page) : U64 :=
  setField (setField 0 0 ptUpperTableDescriptor) 12 nextTable

/-- `ARMv8MMU_UpperEntry::create_block_entry` -/
def createBlockEntry (rawPtr flags : U64) : U64 :=
  setField (setField flags 0 ptUpperBlockDescriptor) 21
    ((rawPtr >>> shifts 1).setWidth 27)

/-- `create_null` -/
def createNull : U64 := 0

/-- `table.table_page` -/
def tablePage (entry : U64) : Page := getField entry 12 36

/-- `(virt_start >> SHIFTS[level]) & PT_INDEX_MASK` -/
def tableIndex (height : ℕ) (virt : U64) : ℕ :=
  ((virt >>> shifts height) &&& ptIndexMask).toNat

/-- `(address & (SIZES[level] - 1)) == 0` -/
def isAligned (height : ℕ) (address : U64) : Bool :=
  address &&& (sizes height - 1) == 0

/-! ## Table memory -/

/-- The contents of table pages, entry by entry. -/
abbrev TableMemory := Page → ℕ → U64

namespace TableMemory

/-- Write one entry. -/
def write (mem : TableMemory) (table : Page) (idx : ℕ) (entry : U64) : TableMemory :=
  fun page i => if page = table ∧ i = idx then entry else mem page i

/-- `memset` a page to zero. -/
def zero (mem : TableMemory) (table : Page) : TableMemory :=
  fun page i => if page = table then 0 else mem page i

theorem write_self (mem : TableMemory) (table : Page) (idx : ℕ) (entry : U64) :
    mem.write table idx entry table idx = entry := by
  simp [write]

theorem write_of_page_ne {mem : TableMemory} {table page : Page} (h : page ≠ table)
    (idx i : ℕ) (entry : U64) : mem.write table idx entry page i = mem page i := by
  simp [write, h]

theorem write_of_idx_ne {mem : TableMemory} {idx i : ℕ} (h : i ≠ idx)
    (table page : Page) (entry : U64) :
    mem.write table idx entry page i = mem page i := by
  simp [write, h]

theorem zero_self (mem : TableMemory) (table : Page) (i : ℕ) : mem.zero table table i = 0 := by
  simp [zero]

theorem zero_of_ne {mem : TableMemory} {table page : Page} (h : page ≠ table) (i : ℕ) :
    mem.zero table page i = mem page i := by
  simp [zero, h]

end TableMemory

/-- Where tables come from: the page allocator and the pool of tables embedded
in the kernel image, `[initialPgtablesStart, initialPgtablesEnd)`, which the page
allocator knows to be reserved. -/
structure TableSource (σ : Type u) extends PageSource σ where
  initialPgtablesStart : Page
  initialPgtablesEnd : Page
  allocated_outside : ∀ {state page count}, allocated state page = some count →
    ¬ (initialPgtablesStart ≤ page ∧ page < initialPgtablesEnd)

/-- Tables from a pool of pages, with no embedded ones. -/
def TableSource.pool : TableSource (List (Page × ℕ) × List (Page × ℕ)) where
  toPageSource := PageSource.pool
  initialPgtablesStart := 0
  initialPgtablesEnd := 0
  allocated_outside := fun _ h => absurd h.2 (BitVec.not_lt_zero)

/-- The state the table code reads and writes. -/
structure TableState (σ : Type u) where
  mem : TableMemory
  pageAllocator : σ
  embeddedTablesCurrent : Option Page

namespace TableState

variable {σ : Type u}

/-- All table memory is zero, and no table is embedded. -/
def empty (pageAllocator : σ) : TableState σ where
  mem := fun _ _ => 0
  pageAllocator := pageAllocator
  embeddedTablesCurrent := none

/-- Write one table entry. -/
def write (state : TableState σ) (table : Page) (idx : ℕ) (entry : U64) : TableState σ :=
  { state with mem := state.mem.write table idx entry }

theorem write_mem_self (state : TableState σ) (table : Page) (idx : ℕ) (entry : U64) :
    (state.write table idx entry).mem table idx = entry :=
  TableMemory.write_self _ _ _ _

theorem write_mem_of_page_ne (state : TableState σ) {table page : Page} (h : page ≠ table)
    (idx i : ℕ) (entry : U64) :
    (state.write table idx entry).mem page i = state.mem page i :=
  TableMemory.write_of_page_ne h idx i entry

theorem write_mem_of_idx_ne (state : TableState σ) {idx i : ℕ} (h : i ≠ idx)
    (table page : Page) (entry : U64) :
    (state.write table idx entry).mem page i = state.mem page i :=
  TableMemory.write_of_idx_ne h table page entry

end TableState

section Operations

variable {σ : Type u} (source : TableSource σ)

/-- `allocate_table` -/
def allocateTable (state : TableState σ) : Option (Page × TableState σ) :=
  match state.embeddedTablesCurrent with
  | some current =>
      if current < source.initialPgtablesEnd then
        some (current, { state with
          mem := state.mem.zero current
          embeddedTablesCurrent := some (current + 1) })
      else fromAllocator
  | none => fromAllocator
where
  /-- The branch that asks the page allocator; an empty answer is dereferenced. -/
  fromAllocator : Option (Page × TableState σ) :=
    (source.allocateRegion state.pageAllocator 1).map fun allocated =>
      (allocated.1, { state with
        mem := state.mem.zero allocated.1
        pageAllocator := allocated.2 })

/-- `free_table` -/
def freeTable (state : TableState σ) (table : Page) : TableState σ :=
  if source.initialPgtablesStart ≤ table ∧ table < source.initialPgtablesEnd then
    if state.embeddedTablesCurrent = some (table + 1) then
      { state with embeddedTablesCurrent := some table }
    else state
  else { state with pageAllocator := source.freeRegion state.pageAllocator table }

/-! ## Mapping -/

/-- The reference parameters of `map_upper` and `map_lower`. -/
structure MapCursor where
  virtStart : U64
  physStart : U64
  size : U64
  deriving DecidableEq

/-- Step over one entry. -/
def MapCursor.advance (cursor : MapCursor) (height : ℕ) : MapCursor where
  virtStart := cursor.virtStart + sizes height
  physStart := cursor.physStart + sizes height
  size := cursor.size - sizes height

/-- The loop of `map_lower`, with `remaining` entries left in the table. -/
def mapLowerLoop (flags : U64) (table : Page) :
    ℕ → TableMemory → MapCursor → TableMemory × MapCursor × Bool
  | 0, mem, cursor => (mem, cursor, true)
  | remaining + 1, mem, cursor =>
      if cursor.size = 0 then (mem, cursor, true)
      else
        let idx := ptEntryCount - (remaining + 1)
        let newEntry := createL3Entry cursor.physStart flags
        if descriptorCode (mem table idx) ≠ ptInvalidDescriptor ∧
            mem table idx ≠ newEntry then
          (mem, cursor, false)
        else
          mapLowerLoop flags table remaining (mem.write table idx newEntry)
            (cursor.advance 0)

/-- `map_lower` -/
def mapLower (flags : U64) (table : Page) (state : TableState σ) (cursor : MapCursor) :
    TableState σ × MapCursor × Bool :=
  let out := mapLowerLoop flags table (ptEntryCount - tableIndex 0 cursor.virtStart)
    state.mem cursor
  ({ state with mem := out.1 }, out.2.1, out.2.2)

/-- One round of the loop of `map_upper`: `next` maps the table below. -/
def mapUpperEntry (height : ℕ) (flags : U64)
    (next : Page → TableState σ → MapCursor → Option (TableState σ × MapCursor × Bool))
    (table : Page) (idx : ℕ) (state : TableState σ) (cursor : MapCursor) :
    Option (TableState σ × MapCursor × Bool) :=
  let entry := state.mem table idx
  if descriptorCode entry = ptInvalidDescriptor then
    if (height = 2 ∨ height = 1) ∧ cursor.size ≥ sizes height ∧
        isAligned height cursor.virtStart ∧ isAligned height cursor.physStart then
      some (state.write table idx (createBlockEntry cursor.physStart flags),
        cursor.advance height, true)
    else
      (allocateTable source state).bind fun allocated =>
        next allocated.1
          (allocated.2.write table idx (createTableEntry allocated.1)) cursor
  else if descriptorCode entry = ptUpperTableDescriptor then
    next (tablePage entry) state cursor
  else some (state, cursor, false)

/-- The loop of `map_upper`, with `remaining` entries left in the table. -/
def mapUpperLoop (height : ℕ) (flags : U64)
    (next : Page → TableState σ → MapCursor → Option (TableState σ × MapCursor × Bool))
    (table : Page) :
    ℕ → TableState σ → MapCursor → Option (TableState σ × MapCursor × Bool)
  | 0, state, cursor => some (state, cursor, true)
  | remaining + 1, state, cursor =>
      if cursor.size = 0 then some (state, cursor, true)
      else
        (mapUpperEntry source height flags next table (ptEntryCount - (remaining + 1))
          state cursor).bind fun out =>
            if out.2.2 then mapUpperLoop height flags next table remaining out.1 out.2.1
            else some out

/-- `map_upper`; at height 0 it is `map_lower` that its caller calls. -/
def mapUpper (flags : U64) :
    ℕ → Page → TableState σ → MapCursor → Option (TableState σ × MapCursor × Bool)
  | 0, table, state, cursor => some (mapLower flags table state cursor)
  | height + 1, table, state, cursor =>
      mapUpperLoop source (height + 1) flags (mapUpper flags height) table
        (ptEntryCount - tableIndex (height + 1) cursor.virtStart) state cursor

/-- `map_region`: the flags are the attributes and the attribute index. -/
def mapRegion (root : Page) (state : TableState σ) (virtStart physStart size : U64)
    (attrs attrIdx : U64) : Option (TableState σ × Bool) :=
  if virtStart &&& pageOffsetMask ≠ 0 ∨ physStart &&& pageOffsetMask ≠ 0 ∨
      size &&& pageOffsetMask ≠ 0 then
    some (state, false)
  else
    (mapUpper source (attrs ||| attrIdx <<< 2) 3 root state
      { virtStart, physStart, size }).map fun out => (out.1, out.2.2)

/-! ## Unmapping -/

/-- The reference parameters of `unmap_upper` and `unmap_lower`. -/
structure UnmapCursor where
  virtStart : U64
  size : U64
  deriving DecidableEq

/-- Step over one entry. -/
def UnmapCursor.advance (cursor : UnmapCursor) (height : ℕ) : UnmapCursor where
  virtStart := cursor.virtStart + sizes height
  size := cursor.size - sizes height

/-- The loop of `unmap_lower`, with `remaining` entries left in the table. -/
def unmapLowerLoop (table : Page) :
    ℕ → TableMemory → UnmapCursor → TableMemory × UnmapCursor
  | 0, mem, cursor => (mem, cursor)
  | remaining + 1, mem, cursor =>
      if cursor.size = 0 then (mem, cursor)
      else
        unmapLowerLoop table remaining
          (mem.write table (ptEntryCount - (remaining + 1)) createNull) (cursor.advance 0)

/-- `unmap_lower` -/
def unmapLower (table : Page) (state : TableState σ) (cursor : UnmapCursor) :
    TableState σ × UnmapCursor × Bool :=
  let out := unmapLowerLoop table (ptEntryCount - tableIndex 0 cursor.virtStart)
    state.mem cursor
  ({ state with mem := out.1 }, out.2, true)

/-- One round of the loop of `unmap_upper`.  A table or a block that the range
spans is dropped as a whole; only the table branch steps the cursor over it. -/
def unmapUpperEntry (height : ℕ)
    (next : Page → TableState σ → UnmapCursor → TableState σ × UnmapCursor × Bool)
    (table : Page) (idx : ℕ) (state : TableState σ) (cursor : UnmapCursor) :
    TableState σ × UnmapCursor × Bool :=
  let entry := state.mem table idx
  let spans : Bool := isAligned height cursor.virtStart && cursor.size ≥ sizes height
  if descriptorCode entry = ptUpperTableDescriptor then
    if spans then
      (freeTable source (state.write table idx createNull) (tablePage entry),
        cursor.advance height, true)
    else next (tablePage entry) state cursor
  else if descriptorCode entry = ptUpperBlockDescriptor then
    if spans then (state.write table idx createNull, cursor, true)
    else (state, cursor, false)
  else (state, cursor, false)

/-- The loop of `unmap_upper`, with `remaining` entries left in the table. -/
def unmapUpperLoop (height : ℕ)
    (next : Page → TableState σ → UnmapCursor → TableState σ × UnmapCursor × Bool)
    (table : Page) : ℕ → TableState σ → UnmapCursor → TableState σ × UnmapCursor × Bool
  | 0, state, cursor => (state, cursor, true)
  | remaining + 1, state, cursor =>
      if cursor.size = 0 then (state, cursor, true)
      else
        let out := unmapUpperEntry source height next table
          (ptEntryCount - (remaining + 1)) state cursor
        if out.2.2 then unmapUpperLoop height next table remaining out.1 out.2.1 else out

/-- `unmap_upper`; at height 0 it is `unmap_lower` that its caller calls. -/
def unmapUpper : ℕ → Page → TableState σ → UnmapCursor → TableState σ × UnmapCursor × Bool
  | 0, table, state, cursor => unmapLower table state cursor
  | height + 1, table, state, cursor =>
      unmapUpperLoop source (height + 1) (unmapUpper height) table
        (ptEntryCount - tableIndex (height + 1) cursor.virtStart) state cursor

/-- `unmap_region` -/
def unmapRegion (root : Page) (state : TableState σ) (virtStart size : U64) :
    TableState σ × Bool :=
  if virtStart &&& pageOffsetMask ≠ 0 ∨ size &&& pageOffsetMask ≠ 0 then (state, false)
  else
    let out := unmapUpper source 3 root state { virtStart, size }
    (out.1, out.2.2)

end Operations

/-! ## The hardware's walk -/

/-- The attribute bits of a block or page descriptor. -/
def attributeMask : U64 := 0xFFFC000000000FFC

/-- What an address translates to. -/
structure Translation where
  address : ℕ
  attributes : U64
  deriving DecidableEq

/-- The walk from a table at the given height: the height at which it ends and the
descriptor it finds there.  Blocks are allowed at heights 1 and 2. -/
def walkFrom (mem : TableMemory) : ℕ → Page → U64 → Option (ℕ × U64)
  | 0, table, virt =>
      let entry := mem table (tableIndex 0 virt)
      if descriptorCode entry = ptLowerBlockDescriptor then some (0, entry) else none
  | height + 1, table, virt =>
      let entry := mem table (tableIndex (height + 1) virt)
      if descriptorCode entry = ptUpperTableDescriptor then
        walkFrom mem height (tablePage entry) virt
      else if descriptorCode entry = ptUpperBlockDescriptor ∧ height + 1 < 3 then
        some (height + 1, entry)
      else none

/-- What a block or page descriptor translates an address to: it contributes the
address bits above its own size. -/
def output (height : ℕ) (entry virt : U64) : Translation where
  address := (getField entry (shifts height) (48 - shifts height)).toNat *
    2 ^ shifts height + virt.toNat % 2 ^ shifts height
  attributes := entry &&& attributeMask

/-- The translation of an address from a table at the given height. -/
def translateFrom (mem : TableMemory) (height : ℕ) (table : Page) (virt : U64) :
    Option Translation :=
  (walkFrom mem height table virt).map fun leaf => output leaf.1 leaf.2 virt

theorem translateFrom_of_walkFrom {mem : TableMemory} {height : ℕ} {table : Page} {virt : U64}
    {leaf : ℕ × U64} (h : walkFrom mem height table virt = some leaf) :
    translateFrom mem height table virt = some (output leaf.1 leaf.2 virt) := by
  rw [translateFrom, h, Option.map_some]

theorem translateFrom_congr {mem mem' : TableMemory} {height height' : ℕ}
    {table table' : Page} {virt : U64}
    (h : walkFrom mem' height' table' virt = walkFrom mem height table virt) :
    translateFrom mem' height' table' virt = translateFrom mem height table virt := by
  rw [translateFrom, h, translateFrom]

/-- The two halves of the address space, each with a root table of its own: user
space below, the kernel above. -/
inductive Half where
  | lower
  | upper
  deriving DecidableEq

/-- The 16 top bits that the addresses of a half share. -/
def Half.topBits : Half → ℕ
  | lower => 0
  | upper => 0xFFFF

/-- The address belongs to the half. -/
def Half.Contains (half : Half) (virt : U64) : Prop := virt.toNat / 2 ^ 48 = half.topBits
deriving Decidable

/-- The four-level walk of an address from the root table of one half; addresses
outside the half do not go through that table. -/
def walk (mem : TableMemory) (half : Half) (root : Page) (virt : U64) : Option Translation :=
  if half.Contains virt then translateFrom mem 3 root virt else none

end BekOS
