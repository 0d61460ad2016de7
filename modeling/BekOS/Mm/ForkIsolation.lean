import BekOS.Lib.SharedViews
import BekOS.Mm.ForkedMemory

/-!
# What parent and child share

After a fork the tables of parent and child are two views of one memory.  The child reads by each
address what the parent read, and no page that it may write is one of the parent's.  An allocation
that the child may not write it shares with the parent: if the parent has it in a writable region as
well, the child reads what the parent goes on to write there.
-/

namespace BekOS

open Function

variable {σ : Type} {source : TableSource σ}

/-! ## Views -/

/-- A user program may write: `EL0Access` is set, `ReadOnly` is clear. -/
def Translation.userWritable (translation : Translation) : Bool :=
  translation.attributes &&& el0Access != 0 && translation.attributes &&& readOnly == 0

/-- The memory as a user program sees it. -/
def userView (mem : TableMemory) (root : Page) : View U64 ℕ where
  cell virt := (walk mem .lower root virt).map Translation.address
  writable virt := (walk mem .lower root virt).any Translation.userWritable

/-- The two processes of a fork. -/
inductive Relative
  | parent
  | child
  deriving DecidableEq

/-- What they see. -/
def forkViews (mem : TableMemory) (parentRoot childRoot : Page) : Relative → View U64 ℕ
  | .parent => userView mem parentRoot
  | .child => userView mem childRoot

/-- The region may be written. -/
abbrev UserspaceRegion.Writable (region : UserspaceRegion) : Prop :=
  region.permissions &&& .write ≠ .none

theorem UserspaceRegion.userWritable_translation (region : UserspaceRegion) (virt : U64) :
    (region.translation virt).userWritable = true ↔ region.Writable := by
  have hattributes : ∀ readable writable executable : Bool, ∀ kind : BackingKind,
      (Translation.mk 0 ((attributesForUser readable writable executable |||
        kind.attrIdx.toU64 <<< 2) &&& attributeMask)).userWritable = writable := by
    intro readable writable executable kind
    cases readable <;> cases writable <;> cases executable <;> cases kind <;> decide
  have hwritable := hattributes (region.permissions &&& .read != .none)
    (region.permissions &&& .write != .none) (region.permissions &&& .execute != .none)
    region.backing.kind
  rw [show (region.translation virt).userWritable = (region.permissions &&& .write != .none) from
    hwritable]
  exact bne_iff_ne

theorem Describes.region_of_walk {regions : List UserspaceRegion} {mem : TableMemory}
    {root : Page} (describes : Describes regions mem root) {virt : U64} {target : Translation}
    (h : walk mem .lower root virt = some target) :
    ∃ region ∈ regions, region.userRegion.Covers virt.toNat ∧ target = region.translation virt := by
  by_contra hnot
  have hnone : ∀ region ∈ regions, ¬ region.userRegion.Covers virt.toNat := by
    intro region hregion hcovers
    have hinside := describes.inside region hregion virt hcovers
    exact hnot ⟨region, hregion, hcovers, Option.some.inj (h.symm.trans hinside)⟩
  cases h.symm.trans (describes.outside virt hnone)

theorem Describes.region_of_cell {regions : List UserspaceRegion} {mem : TableMemory}
    {root : Page} (describes : Describes regions mem root) {virt : U64} {cell : ℕ}
    (h : (userView mem root).cell virt = some cell) :
    ∃ region ∈ regions, region.userRegion.Covers virt.toNat ∧
      cell = (region.translation virt).address := by
  obtain ⟨target, hwalk, rfl⟩ := Option.map_eq_some_iff.mp h
  obtain ⟨region, hregion, hcovers, rfl⟩ := describes.region_of_walk hwalk
  exact ⟨region, hregion, hcovers, rfl⟩

theorem Describes.writable_iff {regions : List UserspaceRegion} {mem : TableMemory}
    {root : Page} (describes : Describes regions mem root) {region : UserspaceRegion}
    (hregion : region ∈ regions) {virt : U64} (hcovers : region.userRegion.Covers virt.toNat) :
    (userView mem root).writable virt = true ↔ region.Writable := by
  show (walk mem .lower root virt).any Translation.userWritable = true ↔ _
  rw [describes.inside region hregion virt hcovers, Option.any_some]
  exact region.userWritable_translation virt

theorem UserspaceRegion.holds_translation {region : UserspaceRegion} {virt : U64}
    (hsize : region.userRegion.size.toNat ≤ region.backing.size.toNat)
    (hcovers : region.userRegion.Covers virt.toNat) :
    region.backing.Holds (region.translation virt).address := by
  unfold UserRegion.Covers UserRegion.limit at hcovers
  exact BackingRegion.holds_add (by omega)

/-! ## Forks -/

/-- What a fork is to do. -/
structure Forked (parent : AddressSpace) (tables : TableState σ) (bytes : Memory Byte)
    (child : SpaceManager σ) (bytes' : Memory Byte) : Prop where
  /-- The child has the parent's regions. -/
  regions : List.Forall₂ (fun old new => new.userRegion = old.userRegion ∧ new.name = old.name ∧
    new.permissions = old.permissions) parent.regions child.regions
  /-- By each address the child reads what the parent read, or neither reads anything. -/
  contents : ∀ virt, (userView child.tables.mem child.root).load bytes' virt =
    (userView tables.mem parent.root).load bytes virt
  /-- The child's tables translate its regions and nothing else. -/
  translated : Describes child.regions child.tables.mem child.root
  /-- The parent's tables are as they were. -/
  parentTables : ∀ page, InTree tables.mem 3 parent.root page →
    ∀ idx, child.tables.mem page idx = tables.mem page idx
  /-- So is its memory. -/
  parentMemory : ∀ region ∈ parent.regions, ∀ address, region.backing.Holds address →
    bytes' address = bytes address
  /-- No page that the child may write is one of the parent's. -/
  ownPages : ∀ region ∈ child.regions, region.Writable → ∀ virt virt' target target',
    region.userRegion.Covers virt.toNat → walk child.tables.mem .lower child.root virt = some target →
    walk child.tables.mem .lower parent.root virt' = some target' →
      target.address / 4096 ≠ target'.address / 4096
  /-- What either goes on to write the other does not see. -/
  isolated : View.Isolated (forkViews child.tables.mem parent.root child.root) bytes'

/-- No allocation is in a region that may be written and in one that may not. -/
def Unaliased (regions : List UserspaceRegion) : Prop :=
  ∀ region ∈ regions, ∀ other ∈ regions, region.backing = other.backing →
    0 < region.userRegion.size.toNat → 0 < other.userRegion.size.toNat →
    region.Writable → other.Writable

section Fork

variable {ι : Type} {tables : TableState σ} {spaces : ι → Option AddressSpace}
  {live : Set BackingRegion} {objectCount : ℕ} {i : ι} {parent : AddressSpace}
  {bytes bytes' : Memory Byte} {child : SpaceManager σ}

/-- The address spaces, with a new one. -/
def withChild (spaces : ι → Option AddressSpace) (child : AddressSpace) :
    Option ι → Option AddressSpace
  | none => some child
  | some j => spaces j

/-- What `clone_for_fork` leaves behind. -/
structure ForkMade (source : TableSource σ) (spaces : ι → Option AddressSpace)
    (parent : AddressSpace) (tables : TableState σ) (bytes : Memory Byte) (child : SpaceManager σ)
    (bytes' : Memory Byte) (live live' : Set BackingRegion) (later : ℕ) : Prop where
  subset : live ⊆ live'
  ok : MemoryOk source child.tables (withChild spaces ⟨child.regions, child.root⟩) live' later
  cloned : List.Forall₂ (ClonedAs live bytes bytes') parent.regions child.regions
  kept : ∀ other ∈ live, ∀ address, other.Holds address → bytes' address = bytes address
  tables : ∀ page, InTree tables.mem 3 parent.root page →
    ∀ idx, child.tables.mem page idx = tables.mem page idx

theorem MemoryOk.forkMade (ok : MemoryOk source tables spaces live objectCount)
    (blank : BlankRoot source tables) (hparent : spaces i = some parent)
    (hkind : ∀ region ∈ parent.regions, region.backing.kind = .userOwnedAllocation)
    (h : cloneForForkBytes source (parent.manager tables) bytes objectCount =
      .ok ((child, bytes'), .ESUCCESS)) :
    ∃ live' later, ForkMade source spaces parent tables bytes child bytes' live live' later := by
  classical
  obtain ⟨clone, hcreate, hclone⟩ := bind_eq_ok.mp h
  unfold SpaceManager.create at hcreate
  split at hcreate
  · cases hcreate
  rename_i root pageAllocator halloc
  cases hcreate
  have okAll := ok.reindex (fun k : Option ι => k) fun k k' j hk hk' => hk.trans hk'.symm
  have okNew := okAll.create (i := none) halloc (blank root pageAllocator halloc)
  have hparent' : (fun k : Option ι => k.bind spaces) (some i) = some parent := hparent
  obtain ⟨live', news, hsubset, ok', hregions, hcloned, hkept, htables⟩ :=
    @cloneRegionsBytes_copies σ source (Option ι) (fun k => k.bind spaces) _ none parent.regions
      ⟨[], root, { tables with pageAllocator }⟩ child objectCount live
      bytes bytes' okNew (ok.spaceOk i parent hparent).ordered
      (fun region hregion => ⟨(ok.backed i parent hparent region hregion).1, hkind region hregion⟩)
      hclone
  rw [List.nil_append] at hregions
  have hspaces : update (fun k : Option ι => k.bind spaces) none
      (some ⟨child.regions, child.root⟩) = withChild spaces ⟨child.regions, child.root⟩ := by
    funext k
    cases k with
    | none => exact update_self _ _ _
    | some j => exact update_of_ne (Option.some_ne_none j) _ _
  rw [hspaces] at ok'
  refine ⟨live', _, hsubset, ok', hregions ▸ hcloned, hkept, fun page hpage idx => ?_⟩
  exact htables (some i) parent (Option.some_ne_none i) hparent' page hpage idx

/-! ### What each holds -/

theorem ForkMade.spaceOk_child {live' : Set BackingRegion} {later : ℕ}
    (made : ForkMade source spaces parent tables bytes child bytes' live live' later) :
    SpaceOk source child :=
  made.ok.spaceOk none ⟨child.regions, child.root⟩ rfl

theorem ForkMade.spaceOk_parent {live' : Set BackingRegion} {later : ℕ}
    (made : ForkMade source spaces parent tables bytes child bytes' live live' later)
    (hparent : spaces i = some parent) : SpaceOk source (parent.manager child.tables) :=
  made.ok.spaceOk (some i) parent hparent

theorem ForkMade.exists_old {live' : Set BackingRegion} {later : ℕ}
    (made : ForkMade source spaces parent tables bytes child bytes' live live' later)
    {new : UserspaceRegion} (hnew : new ∈ child.regions) :
    ∃ old ∈ parent.regions, ClonedAs live bytes bytes' old new := by
  obtain ⟨n, hn, rfl⟩ := List.getElem_of_mem hnew
  have hlen := made.cloned.length_eq
  exact ⟨parent.regions[n], List.getElem_mem _, made.cloned.get (by omega) hn⟩

theorem ForkMade.exists_new {live' : Set BackingRegion} {later : ℕ}
    (made : ForkMade source spaces parent tables bytes child bytes' live live' later)
    {old : UserspaceRegion} (hold : old ∈ parent.regions) :
    ∃ new ∈ child.regions, ClonedAs live bytes bytes' old new := by
  obtain ⟨n, hn, rfl⟩ := List.getElem_of_mem hold
  have hlen := made.cloned.length_eq
  exact ⟨child.regions[n], List.getElem_mem _, made.cloned.get hn (by omega)⟩

variable {live' : Set BackingRegion} {later : ℕ}

theorem ForkMade.pages_ne (ok : MemoryOk source tables spaces live objectCount)
    (made : ForkMade source spaces parent tables bytes child bytes' live live' later)
    (hparent : spaces i = some parent) {new region : UserspaceRegion}
    (hnew : new ∈ child.regions) (hregion : region ∈ parent.regions)
    (hother : region.backing ∈ live → new.backing ≠ region.backing) {virt virt' : U64}
    (hcovers : new.userRegion.Covers virt.toNat)
    (hcovers' : region.userRegion.Covers virt'.toNat) :
    (new.translation virt).address / 4096 ≠ (region.translation virt').address / 4096 := by
  obtain ⟨hlive, hsize⟩ := ok.backed i parent hparent region hregion
  obtain ⟨hlive', hsize'⟩ := made.ok.backed none ⟨child.regions, child.root⟩ rfl new hnew
  exact made.ok.pages_ne hlive' (made.subset hlive) (hother hlive)
    (new.holds_translation hsize' hcovers) (region.holds_translation hsize hcovers')

theorem ForkMade.copied_pages (ok : MemoryOk source tables spaces live objectCount)
    (made : ForkMade source spaces parent tables bytes child bytes' live live' later)
    (hparent : spaces i = some parent) {new region : UserspaceRegion}
    (hnew : new ∈ child.regions) (hwritable : new.Writable) (hregion : region ∈ parent.regions)
    {virt virt' : U64} (hcovers : new.userRegion.Covers virt.toNat)
    (hcovers' : region.userRegion.Covers virt'.toNat) :
    (new.translation virt).address / 4096 ≠ (region.translation virt').address / 4096 := by
  refine made.pages_ne ok hparent hnew hregion (fun hlive hsame => ?_) hcovers hcovers'
  obtain ⟨old, hold, cloned⟩ := made.exists_old hnew
  have hcopied : new.backing ∉ live := by
    refine cloned.copied ?_
    rw [← cloned.permissions]
    exact hwritable
  exact hcopied (hsame ▸ hlive)

theorem ForkMade.shared_pages (ok : MemoryOk source tables spaces live objectCount)
    (made : ForkMade source spaces parent tables bytes child bytes' live live' later)
    (hparent : spaces i = some parent) (hunaliased : Unaliased parent.regions)
    {new region : UserspaceRegion} (hnew : new ∈ child.regions) (hregion : region ∈ parent.regions)
    (hwritable : region.Writable) {virt virt' : U64}
    (hcovers : new.userRegion.Covers virt.toNat)
    (hcovers' : region.userRegion.Covers virt'.toNat) :
    (new.translation virt).address / 4096 ≠ (region.translation virt').address / 4096 := by
  refine made.pages_ne ok hparent hnew hregion (fun hlive hsame => ?_) hcovers hcovers'
  obtain ⟨old, hold, cloned⟩ := made.exists_old hnew
  by_cases hold' : old.Writable
  · exact cloned.copied hold' (hsame ▸ hlive)
  · have hshared := cloned.shared (Decidable.not_not.mp hold')
    have hpositive : 0 < region.userRegion.size.toNat := by
      unfold UserRegion.Covers UserRegion.limit at hcovers'
      omega
    have hpositive' : 0 < old.userRegion.size.toNat := by
      rw [cloned.userRegion] at hcovers
      unfold UserRegion.Covers UserRegion.limit at hcovers
      omega
    exact hold' (hunaliased region hregion old hold (hsame.symm.trans hshared) hpositive hpositive'
      hwritable)

theorem ForkMade.load_eq (ok : MemoryOk source tables spaces live objectCount)
    (made : ForkMade source spaces parent tables bytes child bytes' live live' later)
    (hparent : spaces i = some parent) (virt : U64) :
    (userView child.tables.mem child.root).load bytes' virt =
      (userView tables.mem parent.root).load bytes virt := by
  have hchild := made.spaceOk_child.describes
  have hparent' := (ok.spaceOk i parent hparent).describes
  by_cases hcovered : ∃ region ∈ parent.regions, region.userRegion.Covers virt.toNat
  · obtain ⟨old, hold, hcovers⟩ := hcovered
    obtain ⟨new, hnew, cloned⟩ := made.exists_new hold
    have hcovers' : new.userRegion.Covers virt.toNat := by rwa [cloned.userRegion]
    have hcell : (userView tables.mem parent.root).cell virt =
        some (old.translation virt).address :=
      congrArg (Option.map Translation.address) (hparent'.inside old hold virt hcovers)
    have hcell' : (userView child.tables.mem child.root).cell virt =
        some (new.translation virt).address :=
      congrArg (Option.map Translation.address) (hchild.inside new hnew virt hcovers')
    have hsize := (ok.backed i parent hparent old hold).2
    rw [View.load_of_cell hcell, View.load_of_cell hcell']
    refine congrArg some ?_
    show bytes' (new.backing.physicalPtr.toNat + (virt.toNat - new.userRegion.start.toNat)) = _
    rw [cloned.userRegion]
    refine cloned.contents _ ?_
    unfold UserRegion.Covers UserRegion.limit at hcovers
    omega
  · have hnone : ∀ region ∈ parent.regions, ¬ region.userRegion.Covers virt.toNat :=
      fun region hregion hcovers => hcovered ⟨region, hregion, hcovers⟩
    have hnone' : ∀ region ∈ child.regions, ¬ region.userRegion.Covers virt.toNat := by
      intro new hnew hcovers
      obtain ⟨old, hold, cloned⟩ := made.exists_old hnew
      exact hnone old hold (cloned.userRegion ▸ hcovers)
    have hcell : (userView tables.mem parent.root).cell virt = none :=
      congrArg (Option.map Translation.address) (hparent'.outside virt hnone)
    have hcell' : (userView child.tables.mem child.root).cell virt = none :=
      congrArg (Option.map Translation.address) (hchild.outside virt hnone')
    rw [View.load, View.load, hcell, hcell', Option.map_none, Option.map_none]

/-- **Isolation** of parent and child. -/
theorem ForkMade.isolated_iff (ok : MemoryOk source tables spaces live objectCount)
    (made : ForkMade source spaces parent tables bytes child bytes' live live' later)
    (hparent : spaces i = some parent) :
    View.Isolated (forkViews child.tables.mem parent.root child.root) bytes' ↔
      Unaliased parent.regions := by
  have hchild := made.spaceOk_child.describes
  have hparent' := (made.spaceOk_parent hparent).describes
  have : Nontrivial Byte := ⟨⟨0, 1, by decide⟩⟩
  rw [View.isolated_iff]
  constructor
  · intro apart region hregion other hother hsame hpositive hpositive' hwritable
    by_contra hother'
    obtain ⟨new, hnew, cloned⟩ := made.exists_new hother
    have hshared := cloned.shared hother'
    have hcovers : region.userRegion.Covers region.userRegion.start.toNat :=
      ⟨Nat.le_refl _, Nat.lt_add_of_pos_right hpositive⟩
    have hcovers' : new.userRegion.Covers new.userRegion.start.toNat := by
      refine ⟨Nat.le_refl _, Nat.lt_add_of_pos_right ?_⟩
      rwa [cloned.userRegion]
    have hcell : (userView child.tables.mem child.root).cell new.userRegion.start =
        some region.backing.physicalPtr.toNat := by
      rw [hsame, ← hshared]
      exact (congrArg (Option.map Translation.address) (hchild.inside new hnew _ hcovers')).trans
        (congrArg some (by rw [UserspaceRegion.translation, Nat.sub_self, Nat.add_zero]))
    have hcell' : (userView child.tables.mem parent.root).cell region.userRegion.start =
        some region.backing.physicalPtr.toNat :=
      (congrArg (Option.map Translation.address)
        (hparent'.inside region hregion _ hcovers)).trans
        (congrArg some (by rw [UserspaceRegion.translation, Nat.sub_self, Nat.add_zero]))
    exact apart .child .parent (by decide) region.userRegion.start
      ((hparent'.writable_iff hregion hcovers).mpr hwritable) new.userRegion.start _ hcell hcell'
  · intro hunaliased reader writer hne name hwritable name' cell hcell hcell'
    cases reader with
    | parent =>
        cases writer with
        | parent => exact hne rfl
        | child =>
            obtain ⟨new, hnew, hcovers, haddress⟩ := hchild.region_of_cell hcell'
            obtain ⟨region, hregion, hcovers', haddress'⟩ := hparent'.region_of_cell hcell
            refine made.copied_pages ok hparent hnew
              ((hchild.writable_iff hnew hcovers).mp hwritable) hregion hcovers hcovers' ?_
            rw [← haddress, ← haddress']
    | child =>
        cases writer with
        | child => exact hne rfl
        | parent =>
            obtain ⟨new, hnew, hcovers, haddress⟩ := hchild.region_of_cell hcell
            obtain ⟨region, hregion, hcovers', haddress'⟩ := hparent'.region_of_cell hcell'
            refine made.shared_pages ok hparent hunaliased hnew hregion
              ((hparent'.writable_iff hregion hcovers').mp hwritable) hcovers hcovers' ?_
            rw [← haddress, ← haddress']

theorem ForkMade.forked_iff_isolated (ok : MemoryOk source tables spaces live objectCount)
    (made : ForkMade source spaces parent tables bytes child bytes' live live' later)
    (hparent : spaces i = some parent) :
    Forked parent tables bytes child bytes' ↔
      View.Isolated (forkViews child.tables.mem parent.root child.root) bytes' := by
  refine ⟨Forked.isolated, fun isolated => ⟨?_, made.load_eq ok hparent,
    made.spaceOk_child.describes, made.tables, ?_, ?_, isolated⟩⟩
  · exact made.cloned.imp fun old new cloned => ⟨cloned.userRegion, cloned.name, cloned.permissions⟩
  · exact fun region hregion => made.kept _ (ok.backed i parent hparent region hregion).1
  · intro new hnew hwritable virt virt' target target' hcovers hwalk hwalk'
    obtain ⟨region, hregion, hcovers', rfl⟩ :=
      (made.spaceOk_parent hparent).describes.region_of_walk hwalk'
    rw [made.spaceOk_child.describes.inside new hnew virt hcovers] at hwalk
    cases hwalk
    exact made.copied_pages ok hparent hnew hwritable hregion hcovers hcovers'

/-- **A fork does what it is to do**, with a page for the child's root table that holds no valid
entry, exactly when no allocation is in a region of the parent that may be written and in one
that may not. -/
theorem forked_iff (ok : MemoryOk source tables spaces live objectCount)
    (blank : BlankRoot source tables) (hparent : spaces i = some parent)
    (hkind : ∀ region ∈ parent.regions, region.backing.kind = .userOwnedAllocation)
    (h : cloneForForkBytes source (parent.manager tables) bytes objectCount =
      .ok ((child, bytes'), .ESUCCESS)) :
    Forked parent tables bytes child bytes' ↔ Unaliased parent.regions := by
  obtain ⟨live', later, made⟩ := ok.forkMade blank hparent hkind h
  exact (made.forked_iff_isolated ok hparent).trans (made.isolated_iff ok hparent)

end Fork

/-! ## Examples -/

/-- A pool of twelve pages. -/
def forkPool : List (Page × ℕ) × List (Page × ℕ) :=
  ((List.range 12).map fun n => (BitVec.ofNat 36 (n + 2), 1), [])

/-- An address space with one page, that may be written. -/
def onePage : Except Fault (SpaceManager (List (Page × ℕ) × List (Page × ℕ)) ×
    Except ErrorCode BackingRegion) := do
  let space ← SpaceManager.create TableSource.pool (.empty forkPool)
  allocatePlacedRegion TableSource.pool space ⟨0x500000, 0x1000⟩ (.read ||| .write) "data" 0

/-- The same page again, where it may not be written. -/
def onePageTwice : Except Fault (SpaceManager (List (Page × ℕ) × List (Page × ℕ)) ×
    Except ErrorCode UserRegion) := do
  let space ← onePage
  match space.2 with
  | .ok backing =>
      placeRegion TableSource.pool space.1 (some 0x502000) .read "data, shared" backing
  | .error code => .ok (space.1, .error code)

theorem MemoryOk.nothing {ι : Type} (pageAllocator : σ) :
    MemoryOk source (.empty pageAllocator) (fun _ : ι => none) ∅ 0 where
  embedded := rfl
  spaceOk _ _ h := nomatch h
  separate _ _ _ _ _ h := nomatch h
  handedOut _ h := h.elim
  distinct _ h := h.elim
  numbered _ h := h.elim
  outside _ h := h.elim
  backed _ _ h := nomatch h

/-- A process with one page forks. -/
theorem forked_iff_onePage : ∃ space result child bytes', onePage = .ok (space, result) ∧
    cloneForForkBytes TableSource.pool space (fun _ => 7) 1 = .ok ((child, bytes'), .ESUCCESS) ∧
    Forked ⟨space.regions, space.root⟩ space.tables (fun _ => 7) child bytes' := by
  have hvalue : (do
      let space ← onePage
      let out ← cloneForForkBytes TableSource.pool space.1 (fun _ => 7) 1
      return (space.1.regions.map fun region : UserspaceRegion =>
        (region.backing.kind, region.permissions),
        (TableSource.pool.allocateRegion space.1.tables.pageAllocator 1).map
          fun handed : Page × _ => decide (Blank space.1.tables.mem handed.1),
        out.2) : Except Fault _).toOption =
      some ([(.userOwnedAllocation, 3)], some true, .ESUCCESS) := by decide +kernel
  obtain ⟨⟨space, result⟩, hspace, hfork⟩ := bind_eq_ok.mp (toOption_eq_some.mp hvalue)
  obtain ⟨⟨⟨child, bytes'⟩, code⟩, hclone, heq⟩ := bind_eq_ok.mp hfork
  obtain ⟨hregions, heq⟩ := Prod.mk.inj (Except.ok.inj heq)
  obtain ⟨hhanded, rfl⟩ := Prod.mk.inj heq
  refine ⟨space, result, child, bytes', hspace, hclone, ?_⟩
  have hregion : ∀ region ∈ space.regions,
      region.backing.kind = .userOwnedAllocation ∧ region.permissions = 3 := by
    intro region hmem
    have hmem' := List.mem_map_of_mem (f := fun region : UserspaceRegion =>
      (region.backing.kind, region.permissions)) hmem
    rw [hregions] at hmem'
    exact Prod.mk.inj (List.mem_singleton.mp hmem')
  have blank : BlankRoot TableSource.pool space.tables := by
    intro page pageAllocator hpage
    obtain ⟨handed, hsame, hblank⟩ := Option.map_eq_some_iff.mp hhanded
    rw [hpage, Option.some_inj] at hsame
    subst hsame
    exact of_decide_eq_true hblank
  obtain ⟨empty, hcreate, hplace⟩ := bind_eq_ok.mp hspace
  unfold SpaceManager.create at hcreate
  split at hcreate
  · cases hcreate
  rename_i root pageAllocator halloc
  cases hcreate
  have okEmpty := (@MemoryOk.nothing _ TableSource.pool Unit forkPool).create (i := ()) halloc
    (blank_of_zero fun _ => rfl)
  obtain ⟨-, live, -, -, ok⟩ := allocatePlacedRegion_builds okEmpty hplace (by decide)
  refine (forked_iff ok blank (update_self _ _ _)
    (fun region hmem => (hregion region hmem).1) hclone).mpr fun _ _ other hother _ _ _ _ => ?_
  rw [UserspaceRegion.Writable, (hregion other hother).2]
  decide

/-- A process with one page in two regions forks, and writes to it: the child reads what it
has written. -/
theorem forked_iff_fails : ∃ space result child bytes', onePageTwice = .ok (space, .ok result) ∧
    cloneForForkBytes TableSource.pool space (fun _ => 0) 1 = .ok ((child, bytes'), .ESUCCESS) ∧
    (userView child.tables.mem child.root).load bytes' 0x502000 = some 0 ∧
    (userView child.tables.mem child.root).load
      ((userView child.tables.mem space.root).store bytes' 0x500000 1) 0x502000 = some 1 := by
  have hvalue : (do
      let space ← onePageTwice
      let out ← cloneForForkBytes TableSource.pool space.1 (fun _ => 0) 1
      return (space.2.toOption, out.2,
        (userView out.1.1.tables.mem out.1.1.root).load out.1.2 0x502000,
        (userView out.1.1.tables.mem out.1.1.root).load
          ((userView out.1.1.tables.mem space.1.root).store out.1.2 0x500000 1) 0x502000)).toOption =
      some (some ⟨0x502000, 0x1000⟩, .ESUCCESS, some 0, some 1) := by decide +kernel
  obtain ⟨⟨space, result⟩, hspace, hfork⟩ := bind_eq_ok.mp (toOption_eq_some.mp hvalue)
  obtain ⟨⟨⟨child, bytes'⟩, code⟩, hclone, heq⟩ := bind_eq_ok.mp hfork
  obtain ⟨hresult, heq⟩ := Prod.mk.inj (Except.ok.inj heq)
  obtain ⟨rfl, heq⟩ := Prod.mk.inj heq
  obtain ⟨hbefore, hafter⟩ := Prod.mk.inj heq
  obtain rfl := toOption_eq_some.mp hresult
  exact ⟨space, _, child, bytes', hspace, hclone, hbefore, hafter⟩

end BekOS
