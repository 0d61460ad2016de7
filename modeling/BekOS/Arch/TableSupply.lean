import BekOS.Arch.Positions
import BekOS.Mm.PageSupply

/-!
# How many tables a mapping takes

A table is a page, and whenever `map_upper` goes on in the table of an entry, at least one page of
the range is mapped there.  So each level takes at most one table for a page of the range, and
there are three levels that take tables.
-/

namespace BekOS

universe u

variable {σ : Type u} {source : TableSource σ} {levels extra : ℕ}

theorem allocateTable_spare {state : TableState σ} {n : ℕ}
    (spare : source.Spare (n + 1) state.pageAllocator) :
    ∃ table state', allocateTable source state = some (table, state') ∧
      source.Spare n state'.pageAllocator := by
  have hallocator : ∃ table state', allocateTable.fromAllocator source state =
      some (table, state') ∧ source.Spare n state'.pageAllocator := by
    obtain ⟨page, pageAllocator, halloc⟩ := spare.exists_page
    have hspare : source.Spare n pageAllocator := (Nat.add_comm n 1 ▸ spare).after halloc
    refine ⟨page, { state with mem := state.mem.zero page, pageAllocator }, ?_, hspare⟩
    rw [allocateTable.fromAllocator, halloc]
    rfl
  unfold allocateTable
  split
  · split_ifs with hroom
    · exact ⟨_, _, rfl, spare.mono n.le_succ⟩
    · exact hallocator
  · exact hallocator

/-! ## Cursors by pages -/

namespace MapCursor

variable {cursor : MapCursor}

/-- The pages that are left. -/
def pages (cursor : MapCursor) : ℕ := cursor.size.toNat / 4096

/-- What is left is whole pages. -/
def Whole (cursor : MapCursor) : Prop := cursor.size.toNat % 4096 = 0

theorem Whole.pages_pos (whole : cursor.Whole) (h : cursor.size ≠ 0) : 0 < cursor.pages := by
  have hne : cursor.size.toNat ≠ 0 := fun hzero => h (BitVec.eq_of_toNat_eq hzero)
  unfold Whole at whole
  unfold pages
  omega

theorem Whole.advance {height : ℕ} (whole : cursor.Whole) (hheight : height ≤ 3)
    (hle : sizes height ≤ cursor.size) :
    (cursor.advance height).Whole ∧ (cursor.advance height).pages < cursor.pages := by
  have hsizes : (sizes height).toNat = 4096 * 2 ^ (9 * height) := by
    have hlt : 2 ^ shifts height < 2 ^ 64 :=
      Nat.pow_lt_pow_right (by omega) (by unfold shifts; omega)
    rw [sizes_eq_ofNat hheight, BitVec.toNat_ofNat, Nat.mod_eq_of_lt hlt, shifts, Nat.pow_add]
  have hsub : (cursor.advance height).size.toNat =
      cursor.size.toNat - 4096 * 2 ^ (9 * height) := by
    rw [← hsizes]
    exact BitVec.toNat_sub_of_le hle
  have hle' : 4096 * 2 ^ (9 * height) ≤ cursor.size.toNat := hsizes ▸ BitVec.le_def.mp hle
  have hpos : 0 < 2 ^ (9 * height) := Nat.two_pow_pos _
  unfold Whole pages at *
  rw [hsub]
  omega

end MapCursor

/-! ## Mapping -/

/-- A mapping at `cursor`, with `levels` levels below it that take tables, is done: its tables
were for the pages that it has mapped, and for a `start` at least one of those. -/
structure Lasts (source : TableSource σ) (levels extra : ℕ) (start : Prop) (cursor : MapCursor)
    (out : TableState σ × MapCursor × Bool) : Prop where
  whole : out.2.1.Whole
  le : out.2.1.pages ≤ cursor.pages
  lt : start → 0 < cursor.pages → out.2.1.pages < cursor.pages
  spare : source.Spare (levels * out.2.1.pages + extra) out.1.pageAllocator

variable {flags : U64} {table : Page} {state : TableState σ} {cursor : MapCursor}

theorem mapLowerLoop_pages (remaining : ℕ) {mem : TableMemory} (whole : cursor.Whole) :
    let out := mapLowerLoop flags table remaining mem cursor
    out.2.1.Whole ∧ out.2.1.pages ≤ cursor.pages ∧
      (out.2.2 = true → 0 < remaining → 0 < cursor.pages → out.2.1.pages < cursor.pages) := by
  induction remaining generalizing mem cursor with
  | zero => exact ⟨whole, le_rfl, fun _ hzero => absurd hzero (Nat.lt_irrefl 0)⟩
  | succ remaining ih =>
      rw [mapLowerLoop]
      split_ifs with hsize
      · refine ⟨whole, le_rfl, fun _ _ hpos => absurd hpos ?_⟩
        rw [MapCursor.pages, hsize]
        decide
      dsimp only
      split_ifs
      · exact ⟨whole, le_rfl, nofun⟩
      · have hpage : sizes 0 ≤ cursor.size := by
          have hpos := whole.pages_pos hsize
          unfold MapCursor.pages at hpos
          rw [BitVec.le_def]
          show 4096 ≤ cursor.size.toNat
          omega
        obtain ⟨hwhole, hlt⟩ := whole.advance (Nat.zero_le 3) hpage
        obtain ⟨hwhole', hle, -⟩ := ih hwhole
        exact ⟨hwhole', hle.trans hlt.le, fun _ _ _ => hle.trans_lt hlt⟩

/-- What is asked of the mapping below a level. -/
def BelowLasts (source : TableSource σ) (levels : ℕ)
    (next : Page → TableState σ → MapCursor → Option (TableState σ × MapCursor × Bool)) : Prop :=
  ∀ {table state cursor extra}, MapCursor.Whole cursor →
    source.Spare (levels * cursor.pages + extra) state.pageAllocator →
      ∃ out, next table state cursor = some out ∧
        (out.2.2 = true → Lasts source levels extra True cursor out)

variable {next : Page → TableState σ → MapCursor → Option (TableState σ × MapCursor × Bool)}

theorem BelowLasts.entry (below : BelowLasts source levels next) (whole : cursor.Whole)
    (hpos : 0 < cursor.pages)
    (spare : source.Spare (levels * cursor.pages + (cursor.pages - 1 + extra))
      state.pageAllocator) :
    ∃ out, next table state cursor = some out ∧
      (out.2.2 = true → Lasts source (levels + 1) extra True cursor out) := by
  obtain ⟨out, hout, hlasts⟩ := @below table _ _ _ whole spare
  refine ⟨out, hout, fun hdone => ?_⟩
  have lasts := hlasts hdone
  have hlt := lasts.lt trivial hpos
  refine { lasts with spare := lasts.spare.mono ?_ }
  rw [Nat.add_mul]
  omega

theorem mapUpperEntry_lasts {height idx : ℕ} (below : BelowLasts source levels next)
    (whole : cursor.Whole) (hsize : cursor.size ≠ 0)
    (spare : source.Spare ((levels + 1) * cursor.pages + extra) state.pageAllocator) :
    ∃ out, mapUpperEntry source height flags next table idx state cursor = some out ∧
      (out.2.2 = true → Lasts source (levels + 1) extra True cursor out) := by
  have hpos := whole.pages_pos hsize
  have hbelow : levels * cursor.pages + (cursor.pages - 1 + extra) + 1 =
      (levels + 1) * cursor.pages + extra := by
    rw [Nat.add_mul]
    omega
  rw [← hbelow] at spare
  unfold mapUpperEntry
  dsimp only
  split_ifs with hinvalid hblock htable
  · have hheight : height ≤ 3 := by omega
    obtain ⟨hwhole, hlt⟩ := whole.advance hheight hblock.2.1
    refine ⟨_, rfl, fun _ => ⟨hwhole, hlt.le, fun _ _ => hlt, spare.mono ?_⟩⟩
    rw [hbelow]
    exact Nat.add_le_add_right (Nat.mul_le_mul_left _ hlt.le) _
  · obtain ⟨allocated, state', halloc, hspare⟩ := allocateTable_spare spare
    rw [halloc, Option.bind_some]
    exact below.entry whole hpos hspare
  · exact below.entry whole hpos (spare.mono (Nat.le_succ _))
  · exact ⟨_, rfl, nofun⟩

theorem mapUpperLoop_lasts {height : ℕ} (below : BelowLasts source levels next)
    (remaining : ℕ) (whole : cursor.Whole)
    (spare : source.Spare ((levels + 1) * cursor.pages + extra) state.pageAllocator) :
    ∃ out, mapUpperLoop source height flags next table remaining state cursor = some out ∧
      (out.2.2 = true → Lasts source (levels + 1) extra (0 < remaining) cursor out) := by
  induction remaining generalizing state cursor with
  | zero =>
      exact ⟨_, rfl, fun _ =>
        ⟨whole, le_rfl, fun hzero => absurd hzero (Nat.lt_irrefl 0), spare⟩⟩
  | succ remaining ih =>
      rw [mapUpperLoop]
      split_ifs with hsize
      · refine ⟨_, rfl, fun _ => ⟨whole, le_rfl, fun _ hpos => absurd hpos ?_, spare⟩⟩
        rw [MapCursor.pages, hsize]
        decide
      · have hpos := whole.pages_pos hsize
        obtain ⟨moved, hmoved, hentry⟩ := mapUpperEntry_lasts below whole hsize spare
        rw [hmoved, Option.bind_some]
        split_ifs with hdone
        · have lasts := hentry hdone
          have hlt := lasts.lt trivial hpos
          obtain ⟨out, hout, hrest⟩ := ih lasts.whole lasts.spare
          refine ⟨out, hout, fun hfinal => ?_⟩
          have rest := hrest hfinal
          exact { rest with
            le := rest.le.trans lasts.le
            lt := fun _ _ => rest.le.trans_lt hlt }
        · exact ⟨moved, rfl, fun hfinal => absurd hfinal hdone⟩

theorem mapUpper_lasts (height : ℕ) : BelowLasts source height (mapUpper source flags height) := by
  induction height with
  | zero =>
      intro table state cursor extra whole spare
      obtain ⟨hwhole, hle, hlt⟩ :=
        mapLowerLoop_pages (ptEntryCount - tableIndex 0 cursor.virtStart) whole
      refine ⟨_, rfl, fun hdone => ⟨hwhole, hle, fun _ => hlt hdone ?_, ?_⟩⟩
      · exact Nat.sub_pos_of_lt (tableIndex_lt _ _)
      · rwa [Nat.zero_mul] at spare ⊢
  | succ height ih =>
      intro table state cursor extra whole spare
      obtain ⟨out, hout, hlasts⟩ := mapUpperLoop_lasts ih
        (ptEntryCount - tableIndex (height + 1) cursor.virtStart) whole spare
      refine ⟨out, hout, fun hdone => ?_⟩
      have lasts := hlasts hdone
      exact { lasts with lt := fun _ => lasts.lt (Nat.sub_pos_of_lt (tableIndex_lt _ _)) }

/-- **`map_region` does not run out** where there are three pages to take for each page of the
range; what is left over is there afterwards. -/
theorem mapRegion_lasts {root : Page} {virtStart physStart size attrs attrIdx : U64}
    (spare : source.Spare (3 * (size.toNat / 4096) + extra) state.pageAllocator) :
    ∃ out, mapRegion source root state virtStart physStart size attrs attrIdx = some out ∧
      (out.2 = true → source.Spare extra out.1.pageAllocator) := by
  unfold mapRegion
  split_ifs with hmisaligned
  · exact ⟨_, rfl, nofun⟩
  · have whole : (⟨virtStart, physStart, size⟩ : MapCursor).Whole := by
      by_contra hne
      exact hmisaligned (Or.inr (Or.inr (mt (and_pageOffsetMask_eq_zero size).mp hne)))
    obtain ⟨out, hout, hlasts⟩ := @mapUpper_lasts _ source (attrs ||| attrIdx <<< 2) 3 root state
      ⟨virtStart, physStart, size⟩ extra whole spare
    rw [hout]
    exact ⟨_, rfl, fun hdone => (hlasts hdone).spare.mono (Nat.le_add_left _ _)⟩

end BekOS
