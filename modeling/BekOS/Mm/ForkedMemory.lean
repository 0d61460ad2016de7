import BekOS.Lib.Bitmap
import BekOS.Mm.SpaceBuilding

/-!
# The memory of a fork

`clone_for_fork` with the bytes that it copies.  The bytes are those of the allocations, by physical
address; the tables are as before in a memory of their own.  A region of the clone has the memory
of the region it was made for, or a copy of it in an allocation that was nobody's.
-/

namespace BekOS

open Function

variable {σ : Type}

/-! ## The functions -/

/-- What `UserOwnedAllocation::clone_for_fork` copies, once it has the allocation. -/
def copyForFork (region : UserspaceRegion) (backing : BackingRegion) (bytes : Memory Byte) :
    Memory Byte :=
  match region.backing.kind with
  | .userOwnedAllocation =>
      if region.permissions &&& .write = .none then bytes
      else copyRange bytes backing.physicalPtr.toNat bytes region.backing.physicalPtr.toNat
        region.backing.size.toNat
  | .deviceBackedRegion => bytes

section

variable (source : TableSource σ)

/-- The loop of `clone_for_fork`, with the bytes. -/
def cloneRegionsBytes : List UserspaceRegion → SpaceManager σ → Memory Byte → ℕ →
    Except Fault ((SpaceManager σ × Memory Byte) × ErrorCode)
  | [], clone, bytes, _ => .ok ((clone, bytes), .ESUCCESS)
  | old :: rest, clone, bytes, object =>
      match backingForFork source clone.tables old object with
      | (tables, .error code) => .ok (({ clone with tables }, bytes), code)
      | (tables, .ok backing) => do
          let bytes := copyForFork old backing bytes
          let regions := clone.regions ++ [{ old with backing }]
          let (tables, code) ← mapIntoTable source backing clone.root tables old.userRegion 0
            (old.permissions &&& .read != .none) (old.permissions &&& .write != .none)
            (old.permissions &&& .execute != .none)
          if code ≠ .ESUCCESS then .ok (({ clone with regions, tables }, bytes), code)
          else cloneRegionsBytes rest { clone with regions, tables } bytes (object + 1)

/-- `clone_for_fork`, with the bytes. -/
def cloneForForkBytes (space : SpaceManager σ) (bytes : Memory Byte) (object : ℕ) :
    Except Fault ((SpaceManager σ × Memory Byte) × ErrorCode) := do
  let clone ← SpaceManager.create source space.tables
  cloneRegionsBytes source space.regions clone bytes object

end

variable {source : TableSource σ}

theorem cloneRegionsBytes_regions (rest : List UserspaceRegion) (clone : SpaceManager σ)
    (bytes : Memory Byte) (object : ℕ) :
    (cloneRegionsBytes source rest clone bytes object).map (fun out => (out.1.1, out.2)) =
      cloneRegions source rest clone object := by
  induction rest generalizing clone bytes object with
  | nil => rfl
  | cons old rest ih =>
      rw [cloneRegionsBytes, cloneRegions]
      obtain ⟨tables, result⟩ := backingForFork source clone.tables old object
      cases result with
      | error code => rfl
      | ok backing =>
          dsimp only
          cases mapIntoTable source backing clone.root tables old.userRegion 0
              (old.permissions &&& .read != .none) (old.permissions &&& .write != .none)
              (old.permissions &&& .execute != .none) with
          | error fault => rfl
          | ok mapped =>
              show Except.map _ (if mapped.2 ≠ .ESUCCESS then _ else _) = if _ then _ else _
              split_ifs
              · rfl
              · exact ih _ _ _

theorem cloneForForkBytes_space (space : SpaceManager σ) (bytes : Memory Byte) (object : ℕ) :
    (cloneForForkBytes source space bytes object).map (fun out => (out.1.1, out.2)) =
      cloneForFork source space object := by
  unfold cloneForForkBytes cloneForFork
  cases SpaceManager.create source space.tables with
  | error fault => rfl
  | ok clone => exact cloneRegionsBytes_regions _ _ _ _

/-! ## Where the bytes of an allocation are -/

/-- The address is one of the memory. -/
def BackingRegion.Holds (backing : BackingRegion) (address : ℕ) : Prop :=
  backing.physicalPtr.toNat ≤ address ∧
    address < backing.physicalPtr.toNat + backing.size.toNat

theorem BackingRegion.holds_add {backing : BackingRegion} {j : ℕ} (h : j < backing.size.toNat) :
    backing.Holds (backing.physicalPtr.toNat + j) :=
  ⟨Nat.le_add_right _ _, Nat.add_lt_add_left h _⟩

theorem BackingRegion.HandedOut.page_of_holds {pageAllocator : σ} {backing : BackingRegion}
    (handedOut : backing.HandedOut source pageAllocator) {address : ℕ}
    (h : backing.Holds address) :
    backing.page.toNat ≤ address / 4096 ∧ address / 4096 < backing.page.toNat + backing.pages := by
  have hphys : backing.physicalPtr.toNat = backing.page.toNat * 4096 := by
    conv_lhs => rw [handedOut.physicalPtr_eq, Page.toNat_address]
  have hsize := handedOut.size_eq
  unfold BackingRegion.Holds at h
  omega

section Cloning

variable {ι : Type} {tables tables' : TableState σ} {spaces : ι → Option AddressSpace}
  {live : Set BackingRegion} {object : ℕ} {region : UserspaceRegion} {backing : BackingRegion}

theorem MemoryOk.pages_ne (ok : MemoryOk source tables spaces live object)
    {first second : BackingRegion} (hfirst : first ∈ live) (hsecond : second ∈ live)
    (hne : first ≠ second) {address address' : ℕ} (h : first.Holds address)
    (h' : second.Holds address') : address / 4096 ≠ address' / 4096 := by
  have hapart := (ok.distinct first hfirst second hsecond hne).2
  have hpage := (ok.handedOut first hfirst).page_of_holds h
  have hpage' := (ok.handedOut second hsecond).page_of_holds h'
  unfold Apart at hapart
  omega

theorem MemoryOk.not_holds (ok : MemoryOk source tables spaces live object)
    {first second : BackingRegion} (hfirst : first ∈ live) (hsecond : second ∈ live)
    (hne : first ≠ second) {address : ℕ} (h : first.Holds address) : ¬ second.Holds address :=
  fun h' => ok.pages_ne hfirst hsecond hne h h' rfl

/-! ## What the clone's regions are -/

/-- A region of a clone, with the bytes before and after, and the one it was made for. -/
structure ClonedAs (live : Set BackingRegion) (before after : Memory Byte)
    (old new : UserspaceRegion) : Prop where
  userRegion : new.userRegion = old.userRegion
  name : new.name = old.name
  permissions : new.permissions = old.permissions
  kind : new.backing.kind = old.backing.kind
  size : new.backing.size = old.backing.size
  shared : old.permissions &&& .write = .none → new.backing = old.backing
  copied : old.permissions &&& .write ≠ .none → new.backing ∉ live
  contents : ∀ j < old.backing.size.toNat,
    after (new.backing.physicalPtr.toNat + j) = before (old.backing.physicalPtr.toNat + j)

theorem backingForFork_error {code : ErrorCode}
    (h : BekOS.backingForFork source tables region object = (tables', .error code)) :
    code = .ENOMEM := by
  unfold BekOS.backingForFork at h
  split at h
  · split_ifs at h
    · cases h
    · rcases createContiguous_cases source tables (region.backing.size / pageSize) object with
        ⟨-, hnone⟩ | ⟨page, pageAllocator, copy, -, hcreate, -⟩
      · rw [hnone] at h
        cases h
        rfl
      · rw [hcreate] at h
        cases h
  · cases h

/-- **The backing of a clone's region**, shared or new, and the bytes in it. -/
theorem MemoryOk.copiedForFork [DecidableEq ι] (ok : MemoryOk source tables spaces live object)
    (hbacking : region.backing ∈ live) (hkind : region.backing.kind = .userOwnedAllocation)
    (h : BekOS.backingForFork source tables region object = (tables', .ok backing))
    (bytes : Memory Byte) :
    tables'.mem = tables.mem ∧ ∃ live', live ⊆ live' ∧ backing ∈ live' ∧
      MemoryOk source tables' spaces live' (object + 1) ∧
      ClonedAs live bytes (copyForFork region backing bytes) region { region with backing } ∧
      ∀ other ∈ live, ∀ address, other.Holds address →
        copyForFork region backing bytes address = bytes address := by
  obtain ⟨-, hbacked⟩ := ok.backingForFork hbacking h
  obtain ⟨live', hsubset, hmem, -, ok'⟩ := hbacked backing rfl
  have hcopy : copyForFork region backing bytes =
      if region.permissions &&& .write = .none then bytes
      else copyRange bytes backing.physicalPtr.toNat bytes region.backing.physicalPtr.toNat
        region.backing.size.toNat := by
    rw [copyForFork, hkind]
  have hfork : (if region.permissions &&& .write = .none then (tables, .ok region.backing)
      else createContiguous source tables (region.backing.size / pageSize) object) =
        (tables', Except.ok backing) := by
    rw [← h, BekOS.backingForFork, hkind]
  rw [hcopy]
  split_ifs at hfork ⊢ with hwrite
  · cases hfork
    exact ⟨rfl, live', hsubset, hmem, ok', ⟨rfl, rfl, rfl, rfl, rfl, fun _ => rfl,
      fun hne => absurd hwrite hne, fun _ _ => rfl⟩, fun _ _ _ _ => rfl⟩
  · rcases createContiguous_cases source tables (region.backing.size / pageSize) object with
      ⟨-, hnone⟩ | ⟨page, pageAllocator, copy, halloc, hcreate, hcopyKind, hphys, hsize, hobject⟩
    · rw [hnone] at hfork
      cases hfork
    · rw [hcreate] at hfork
      cases hfork
      have hnew : backing ∉ live := fun hlive => (ok.numbered backing hlive).ne hobject
      have hsame : backing.size = region.backing.size := by
        have hpages := (ok.handedOut _ hbacking).size_eq
        apply BitVec.eq_of_toNat_eq
        rw [hsize, toNat_pages_mul, BitVec.toNat_udiv, toNat_pageSize]
        omega
      refine ⟨rfl, live', hsubset, hmem, ok', ⟨rfl, rfl, rfl, hcopyKind.trans hkind.symm, hsame,
        fun hnone => absurd hnone hwrite, fun _ => hnew, fun j hj => ?_⟩,
        fun other hother address hholds => copyRange_of_not_mem ?_⟩
      · rw [copyRange_of_mem (Nat.le_add_right _ _) (Nat.add_lt_add_left hj _),
          Nat.add_sub_cancel_left]
      · rw [← hsame]
        refine ok'.not_holds (hsubset hother) hmem ?_ hholds
        rintro rfl
        exact hnew hother

theorem MemoryOk.mapped_frame [DecidableEq ι] {i j : ι} {space : SpaceManager σ}
    {other : AddressSpace}
    (ok : MemoryOk source space.tables
      (update spaces i (some ⟨space.regions, space.root⟩)) live object)
    (hne : j ≠ i) (hother : spaces j = some other)
    (bounded : region.userRegion.limit ≤ userAddrMax.toNat) {code : ErrorCode}
    (h : mapIntoTable source backing space.root space.tables region.userRegion 0
      (region.permissions &&& .read != .none) (region.permissions &&& .write != .none)
      (region.permissions &&& .execute != .none) = .ok (tables', code))
    {page : Page} (hpage : InTree space.tables.mem 3 other.root page) (idx : ℕ) :
    tables'.mem page idx = space.tables.mem page idx := by
  have hself : update spaces i (some ⟨space.regions, space.root⟩) i =
      some ⟨space.regions, space.root⟩ := update_self _ _ _
  have hother' : update spaces i (some ⟨space.regions, space.root⟩) j = some other :=
    (update_of_ne hne _ _).trans hother
  have spaceOk : SpaceOk source space := ok.spaceOk i _ hself
  obtain ⟨-, hsize, done, hmap, -⟩ := mapIntoTable_cases h
  have hle : region.userRegion.size.toNat ≤ backing.size.toNat := hsize
  have hframes := backing.inMemory
  have mapped := mapRegion_spec spaceOk.tree (insideHalf_of_bounded bounded) (by omega) hmap
  exact mapped.within.frame page ((ok.spaceOk j other hother').tree.used page hpage)
    (ok.separate j i other _ hne hother' hself page hpage) idx

/-- **The loop of `clone_for_fork`** makes a region for each, with its bytes, and changes neither
the bytes of what was there before nor the tables of another address space. -/
theorem cloneRegionsBytes_copies [DecidableEq ι] {i : ι} (rest : List UserspaceRegion) :
    ∀ {clone out : SpaceManager σ} {object : ℕ} {live : Set BackingRegion}
      {bytes bytes' : Memory Byte},
      MemoryOk source clone.tables
        (update spaces i (some ⟨clone.regions, clone.root⟩)) live object →
      RegionsOrdered (clone.regions ++ rest) →
      (∀ region ∈ rest, region.backing ∈ live ∧ region.backing.kind = .userOwnedAllocation) →
      cloneRegionsBytes source rest clone bytes object = .ok ((out, bytes'), .ESUCCESS) →
      ∃ live' news, live ⊆ live' ∧
        MemoryOk source out.tables (update spaces i (some ⟨out.regions, out.root⟩)) live'
          (object + rest.length) ∧
        out.regions = clone.regions ++ news ∧
        List.Forall₂ (ClonedAs live bytes bytes') rest news ∧
        (∀ other ∈ live, ∀ address, other.Holds address → bytes' address = bytes address) ∧
        ∀ j other, j ≠ i → spaces j = some other → ∀ page,
          InTree clone.tables.mem 3 other.root page →
            ∀ idx, out.tables.mem page idx = clone.tables.mem page idx := by
  induction rest with
  | nil =>
      intro clone out object live bytes bytes' ok _ _ h
      cases h
      exact ⟨live, [], subset_rfl, ok, (List.append_nil _).symm, .nil, fun _ _ _ _ => rfl,
        fun _ _ _ _ _ _ _ => rfl⟩
  | cons old rest ih =>
      intro clone out object live bytes bytes' ok ordered hlive h
      obtain ⟨⟨hold, hkind⟩, hrest⟩ := List.forall_mem_cons.mp hlive
      rw [cloneRegionsBytes] at h
      cases hback : BekOS.backingForFork source clone.tables old object with
      | mk tables' result =>
        rw [hback] at h
        cases result with
        | error failed =>
            cases h
            cases backingForFork_error hback
        | ok backing =>
            obtain ⟨hmem, live₁, hsubset, hnew, ok₁, hhead, hframe⟩ :=
              ok.copiedForFork hold hkind hback bytes
            obtain ⟨⟨tables'', mapCode⟩, hmap, h⟩ := bind_eq_ok.mp h
            have hordered : RegionsOrdered
                ((clone.regions ++ [{ old with backing }]) ++ rest) := by
              apply ordered.congr
              simp
            have hsize : backing.size = old.backing.size := hhead.size
            have hlast := hordered.sublist (List.sublist_append_left _ _)
            have hbounded := hlast.bounded { old with backing }
              (List.mem_append_right _ (List.mem_singleton_self _))
            have happended := @MemoryOk.append σ source ι tables'' spaces live₁ _ i
              { clone with tables := tables' } _ ok₁ { old with backing } hnew hlast mapCode hmap
            dsimp only at h
            split_ifs at h with hcode
            · cases h
              exact absurd rfl hcode
            rw [ne_eq, not_not] at hcode
            obtain ⟨live', news, hgrows, ok', hregions, hnews, hkept, htables⟩ :=
              ih (happended.2 hcode) hordered
                (fun region hregion => (hrest region hregion).imp_left (@hsubset _)) h
            refine ⟨live', { old with backing } :: news, hsubset.trans hgrows, ?_, ?_, ?_, ?_, ?_⟩
            · rwa [List.length_cons, ← Nat.add_assoc, Nat.add_right_comm]
            · rw [hregions, List.append_assoc, List.singleton_append]
            · refine .cons { hhead with contents := fun j hj => ?_ } ?_
              · rw [hkept backing hnew _ (BackingRegion.holds_add (hsize ▸ hj))]
                exact hhead.contents j hj
              · refine List.forall₂_iff_zip.mpr ⟨hnews.length_eq, fun {old' new'} hpair => ?_⟩
                have hcloned := (List.forall₂_iff_zip.mp hnews).2 hpair
                have hlive' := (hrest old' (List.of_mem_zip hpair).1).1
                refine { hcloned with copied := fun hwrite hmem' => ?_, contents := fun j hj => ?_ }
                · exact hcloned.copied hwrite (hsubset hmem')
                · rw [hcloned.contents j hj]
                  exact hframe _ hlive' _ (BackingRegion.holds_add hj)
            · exact fun other hother address hholds =>
                (hkept other (hsubset hother) address hholds).trans
                  (hframe other hother address hholds)
            · intro j other hne hother page hpage idx
              have hmapped : ∀ page, InTree clone.tables.mem 3 other.root page →
                  ∀ idx, tables''.mem page idx = clone.tables.mem page idx := by
                intro page hpage idx
                have hpage' : InTree tables'.mem 3 other.root page := by rwa [hmem]
                have hkept' := @MemoryOk.mapped_frame σ source ι tables'' spaces live₁ _
                  { old with backing } backing _ i j { clone with tables := tables' } other ok₁ hne
                  hother hbounded mapCode hmap page hpage' idx
                exact hkept'.trans (congrFun (congrFun hmem page) idx)
              rw [htables j other hne hother page ((inTree_congr hmapped page).mpr hpage) idx]
              exact hmapped page hpage idx

end Cloning

end BekOS
