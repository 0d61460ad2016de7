import BekOS.Arch.MapRegion
import BekOS.Mm.SpaceManager

/-!
# What a new address space translates

A root table is a page of the page allocator, and `create_user_manager` takes it as
it is, where `allocate_table` clears its pages.  So a new address space translates
what the page happens to hold, by the tables that its old words lead to.
-/

namespace BekOS

variable {σ : Type} {source : TableSource σ} {mem : TableMemory}

/-! ## Tables without leaves -/

/-- No descriptor that the table leads to is one of a block or a page. -/
def LeafFree (mem : TableMemory) : ℕ → Page → Prop
  | 0, table => ∀ i < 512, descriptorCode (mem table i) ≠ ptLowerBlockDescriptor
  | height + 1, table =>
      ∀ i < 512, (height + 1 < 3 → descriptorCode (mem table i) ≠ ptUpperBlockDescriptor) ∧
        ∀ next, child mem table i = some next → LeafFree mem height next

theorem leafFree_of_blank {table : Page} (blank : Blank mem table) (height : ℕ) :
    LeafFree mem height table := by
  cases height with
  | zero =>
      intro i hi
      rw [blank i hi]
      decide
  | succ height =>
      refine fun i hi => ⟨fun _ => ?_, fun next hnext => ?_⟩
      · rw [blank i hi]
        decide
      · rw [child_of_blank blank hi] at hnext
        cases hnext

theorem walkFrom_succ_eq_none_iff {height : ℕ} {table : Page} {virt : U64} :
    walkFrom mem (height + 1) table virt = none ↔
      (height + 1 < 3 →
        descriptorCode (mem table (tableIndex (height + 1) virt)) ≠ ptUpperBlockDescriptor) ∧
      ∀ next, child mem table (tableIndex (height + 1) virt) = some next →
        walkFrom mem height next virt = none := by
  unfold child
  rw [walkFrom]
  generalize mem table (tableIndex (height + 1) virt) = entry
  by_cases htable : descriptorCode entry = ptUpperTableDescriptor
  · have hblock : descriptorCode entry ≠ ptUpperBlockDescriptor := by
      rw [htable]
      decide
    rw [if_pos htable, if_pos htable]
    exact ⟨fun h => ⟨fun _ => hblock, fun next hnext => Option.some_inj.mp hnext ▸ h⟩,
      fun h => h.2 _ rfl⟩
  · rw [if_neg htable, if_neg htable]
    split_ifs with hblock
    · exact iff_of_false not_false fun h => h.1 hblock.2 hblock.1
    · exact iff_of_true rfl ⟨fun hlow hcode => hblock ⟨hcode, hlow⟩, fun _ => False.elim⟩

/-- **A table translates nothing** exactly when it leads to no leaf. -/
theorem walkFrom_eq_none_iff {height : ℕ} (hheight : height ≤ 3) :
    ∀ table : Page, (∀ virt, walkFrom mem height table virt = none) ↔
      LeafFree mem height table := by
  induction height with
  | zero =>
      intro table
      constructor
      · intro h i hi hleaf
        obtain ⟨virt, hindex, -, -⟩ := exists_virt (Nat.zero_le 3) hi (two_pow_shifts_pos 0)
        have hnone := h virt
        rw [walkFrom, hindex, if_pos hleaf] at hnone
        cases hnone
      · intro h virt
        rw [walkFrom]
        exact if_neg (h _ (tableIndex_lt 0 virt))
  | succ height ih =>
      intro table
      constructor
      · intro h i hi
        have hat : ∀ virt, tableIndex (height + 1) virt = i → _ := fun virt hindex =>
          hindex ▸ walkFrom_succ_eq_none_iff.mp (h virt)
        obtain ⟨virt, hindex, -, -⟩ := exists_virt hheight hi (two_pow_shifts_pos (height + 1))
        refine ⟨(hat virt hindex).1, fun next hnext => (ih (by omega) next).mp fun virt' => ?_⟩
        -- The address that gets to this entry and goes on like `virt'`.
        obtain ⟨other, hother, hoffset, -⟩ := exists_virt hheight hi
          (Nat.mod_lt virt'.toNat (two_pow_shifts_pos (height + 1)))
        rw [walkFrom_of_position other hoffset.symm]
        exact (hat other hother).2 next hnext
      · intro h virt
        obtain ⟨hblock, hnext⟩ := h _ (tableIndex_lt (height + 1) virt)
        exact walkFrom_succ_eq_none_iff.mpr
          ⟨hblock, fun next hchild => (ih (by omega) next).mpr (hnext next hchild) virt⟩

theorem walk_eq_none_iff {root : Page} :
    (∀ (half : Half) (virt : U64), walk mem half root virt = none) ↔ LeafFree mem 3 root := by
  rw [← walkFrom_eq_none_iff le_rfl]
  constructor
  · intro h virt
    obtain ⟨virt', hvirt', hposition⟩ := exists_virt_of_half .lower virt
    have hnone := h .lower virt'
    rw [walk, if_pos hvirt', translateFrom, Option.map_eq_none_iff] at hnone
    rw [walkFrom_of_position virt' hposition.symm, hnone]
  · intro h half virt
    rw [walk, translateFrom, h virt, Option.map_none, ite_self]

/-! ## Linked tables -/

/-- A table that is linked later is blank, and `map_region` adds no translation outside
its range. -/
structure LinksBlank (source : TableSource σ) : Prop where
  blank : ∀ {state state' : TableState σ} {table : Page},
    allocateTable source state = some (table, state') → Blank state'.mem table
  outside : ∀ {half : Half} {root : Page} {state state' : TableState σ}
    {virtStart physStart size attrs attrIdx : U64} {done : Bool},
    TreeOk source state 3 root → InsideHalf half virtStart size →
    physStart.toNat + size.toNat ≤ 2 ^ 48 →
    mapRegion source root state virtStart physStart size attrs attrIdx = some (state', done) →
    ∀ virt, ¬ InRegion virtStart size virt →
      walk state'.mem half root virt = walk state.mem half root virt

theorem allocateTable_blank {state state' : TableState σ} {table : Page}
    (h : allocateTable source state = some (table, state')) : Blank state'.mem table := by
  have hallocator : ∀ {state'}, allocateTable.fromAllocator source state =
      some (table, state') → Blank state'.mem table := by
    intro state' h
    obtain ⟨⟨page, rest⟩, -, heq⟩ := Option.map_eq_some_iff.mp h
    cases heq
    exact blank_of_zero fun i => TableMemory.zero_self _ _ i
  unfold allocateTable at h
  split at h
  · split_ifs at h with hroom
    · cases h
      exact blank_of_zero fun i => TableMemory.zero_self _ _ i
    · exact hallocator h
  · exact hallocator h

theorem linksBlank (source : TableSource σ) : LinksBlank source where
  blank := allocateTable_blank
  outside ok inside frames h virt hnot := walk_congr fun hvirt =>
    (mapRegion_spec ok inside frames h).outside virt hvirt hnot

/-! ## The new space -/

theorem SpaceManager.create_mem {tables : TableState σ} {space : SpaceManager σ}
    (h : SpaceManager.create source tables = .ok space) :
    space.tables.mem = tables.mem := by
  unfold SpaceManager.create at h
  split at h
  · cases h
  · cases h
    rfl

/-- **When a new address space translates nothing**: the old words of its root page lead
to no block and to no page. -/
theorem create_translatesNothing_iff {tables : TableState σ} {space : SpaceManager σ}
    (h : SpaceManager.create source tables = .ok space) :
    ((∀ (half : Half) (virt : U64), walk space.tables.mem half space.root virt = none) ∧
        LinksBlank source) ↔ LeafFree tables.mem 3 space.root := by
  rw [and_iff_left (linksBlank source), walk_eq_none_iff, SpaceManager.create_mem h]

/-- A page that was zero makes a space that translates nothing. -/
theorem create_translatesNothing_zero :
    ∃ space, SpaceManager.create TableSource.pool (.empty samplePool) = .ok space ∧
      (∀ (half : Half) (virt : U64), walk space.tables.mem half space.root virt = none) ∧
        LinksBlank TableSource.pool := by
  have hcreate : SpaceManager.create TableSource.pool (.empty samplePool) =
      .ok { regions := [], root := 2, tables := _ } := rfl
  exact ⟨_, hcreate, (create_translatesNothing_iff hcreate).mpr
    (leafFree_of_blank (blank_of_zero fun _ => rfl) 3)⟩

/-- Page 2 used to be a root table: its first word still leads to a table in page 3,
whose first word is a block of memory. -/
def staleRoot : TableMemory :=
  TableMemory.write (TableMemory.write (fun _ _ => 0) 2 0 (createTableEntry 3)) 3 0
    (createBlockEntry 0x40000000 0)

/-- The space made from it reaches that memory at address zero. -/
theorem create_translatesNothing_fails :
    ∃ space, SpaceManager.create TableSource.pool
        { TableState.empty samplePool with mem := staleRoot } = .ok space ∧
      walk space.tables.mem .lower space.root 0 =
          some { address := 0x40000000, attributes := 0 } ∧
        ¬ ((∀ (half : Half) (virt : U64), walk space.tables.mem half space.root virt = none) ∧
          LinksBlank TableSource.pool) := by
  have hreached : walk staleRoot .lower 2 0 =
      some { address := 0x40000000, attributes := 0 } := by decide +kernel
  refine ⟨_, rfl, hreached, fun h => ?_⟩
  have hnone : walk staleRoot .lower 2 0 = none := h.1 .lower 0
  rw [hreached] at hnone
  cases hnone

end BekOS
