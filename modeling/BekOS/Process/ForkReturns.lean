import BekOS.Arch.TableSupply
import BekOS.Process.MappedRegions
import BekOS.Process.ProcessTable

/-!
# Whether a fork returns

`sys_fork` copies each allocation that the process may write, with `bek::memcopy`, which asserts a
limit of its own.  An address space is cloned without a failed assertion if its copies are within
that limit, and the page allocator has the pages for the tables of the clone.
-/

namespace BekOS

open PartialRun

variable {σ : Type}

/-! ## The functions -/

/-- What `bek::memcopy` asserts of a size. -/
def memcopyVerify (n : U64) : Except Fault Unit :=
  if n = 0 then .ok () else verify (n.toNat ≤ maxMemcopy)

section Functions

variable (source : TableSource σ)

/-- `BackingRegion::clone_for_fork`, by class, with the assertion of its copy. -/
def backingForForkCopying (tables : TableState σ) (region : UserspaceRegion) (object : ℕ) :
    Except Fault (TableState σ × Except ErrorCode BackingRegion) :=
  match region.backing.kind with
  | .userOwnedAllocation =>
      if region.permissions &&& .write = .none then .ok (tables, .ok region.backing)
      else
        match createContiguous source tables (region.backing.size / pageSize) object with
        | (tables, .error code) => .ok (tables, .error code)
        | (tables, .ok newBackingRegion) => do
            memcopyVerify region.backing.size
            .ok (tables, .ok newBackingRegion)
  | .deviceBackedRegion => .ok (tables, .ok region.backing)

/-- The loop of `clone_for_fork`, with the assertion of each copy. -/
def cloneRegionsCopying : List UserspaceRegion → SpaceManager σ → ℕ →
    Except Fault (SpaceManager σ × ErrorCode)
  | [], clone, _ => .ok (clone, .ESUCCESS)
  | old :: rest, clone, object => do
      match ← backingForForkCopying source clone.tables old object with
      | (tables, .error code) => .ok ({ clone with tables }, code)
      | (tables, .ok backing) => do
          let regions := clone.regions ++ [{ old with backing }]
          let (tables, code) ← mapIntoTable source backing clone.root tables old.userRegion 0
            (old.permissions &&& .read != .none) (old.permissions &&& .write != .none)
            (old.permissions &&& .execute != .none)
          if code ≠ .ESUCCESS then .ok ({ clone with regions, tables }, code)
          else cloneRegionsCopying rest { clone with regions, tables } (object + 1)

/-- `clone_for_fork`, with the assertion of each copy. -/
def cloneForForkCopying (space : SpaceManager σ) (object : ℕ) :
    Except Fault (SpaceManager σ × ErrorCode) := do
  let clone ← SpaceManager.create source space.tables
  cloneRegionsCopying source space.regions clone object

/-- `Process::sys_fork`, of the process with this address space; `made` tells whether there is
memory for the `Process`.  What a fork that fails has allocated stays. -/
def Sharing.forkProcess (state : Sharing σ) (old : AddressSpace) (pm : ProcessManager)
    (stackPages : ℕ) (made : Bool) :
    Except Fault ((Sharing σ × ProcessManager) × Except ErrorCode ℕ) :=
  match source.allocateRegion state.tables.pageAllocator stackPages with
  | none => .ok ((state, pm), .error .ENOMEM)
  | some (kernelStack, pageAllocator) =>
      if ¬ made then
        .ok (({ state with tables := { state.tables with
          pageAllocator := source.freeRegion pageAllocator kernelStack } }, pm), .error .ENOMEM)
      else do
        let (clone, code) ← cloneForForkCopying source
          (old.manager { state.tables with pageAllocator }) state.objectCount
        let after := state.afterCall clone old.regions.length
        if code ≠ .ESUCCESS then .ok ((after, pm), .error code)
        else
          match pm.sysFork none with
          | none => .error .panic
          | some (pm, .error code) => .ok ((after, pm), .error code)
          | some (pm, .ok pid) =>
              .ok (({ after with
                spaces := after.spaces ++ [some ⟨clone.regions, clone.root⟩] }, pm), .ok pid)

end Functions

/-! ## What a fork copies -/

/-- A fork copies the allocation behind the region. -/
def UserspaceRegion.CopiedByFork (region : UserspaceRegion) : Prop :=
  region.backing.kind = .userOwnedAllocation ∧ region.permissions &&& .write ≠ .none
deriving Decidable

/-- The copies are within the limit of `bek::memcopy`. -/
def CopiesFit (regions : List UserspaceRegion) : Prop :=
  ∀ region ∈ regions, region.CopiedByFork → region.backing.size.toNat ≤ maxMemcopy
deriving Decidable

/-- The pages that cloning a region may take: those of a copy, and three tables for each page. -/
def UserspaceRegion.forkPages (region : UserspaceRegion) : ℕ :=
  (if region.CopiedByFork then (region.backing.size / pageSize).toNat else 0) +
    3 * (region.userRegion.size.toNat / 4096)

/-- The pages that cloning regions may take. -/
def forkPages (regions : List UserspaceRegion) : ℕ := (regions.map UserspaceRegion.forkPages).sum

variable {source : TableSource σ}

theorem memcopyVerify_eq_ok {n : U64} : memcopyVerify n = .ok () ↔ n.toNat ≤ maxMemcopy := by
  unfold memcopyVerify
  split_ifs with hzero
  · subst hzero
    exact iff_of_true rfl (by decide)
  · exact verify_eq_ok

theorem backingForForkCopying_eq_ok {tables : TableState σ} {region : UserspaceRegion} {object : ℕ}
    {out : TableState σ × Except ErrorCode BackingRegion}
    (h : backingForForkCopying source tables region object = .ok out) :
    backingForFork source tables region object = out ∧
      (out.2 = .error .ENOMEM ∨ (∃ backing, out.2 = .ok backing) ∧
        (region.CopiedByFork → region.backing.size.toNat ≤ maxMemcopy)) := by
  unfold backingForForkCopying at h
  unfold backingForFork UserspaceRegion.CopiedByFork
  cases hkind : region.backing.kind with
  | userOwnedAllocation =>
      rw [hkind] at h
      dsimp only at h ⊢
      split_ifs at h ⊢ with hwrite
      · cases h
        exact ⟨rfl, Or.inr ⟨⟨_, rfl⟩, fun hcopied => absurd hwrite hcopied.2⟩⟩
      · rcases createContiguous_cases source tables (region.backing.size / pageSize) object with
          ⟨-, hnone⟩ | ⟨page, pageAllocator, copy, -, hcreate, -⟩
        · rw [hnone] at h ⊢
          cases h
          exact ⟨rfl, Or.inl rfl⟩
        · rw [hcreate] at h ⊢
          obtain ⟨_, hverify, h⟩ := bind_eq_ok.mp h
          cases h
          exact ⟨rfl, Or.inr ⟨⟨copy, rfl⟩, fun _ => memcopyVerify_eq_ok.mp hverify⟩⟩
  | deviceBackedRegion =>
      rw [hkind] at h
      cases h
      exact ⟨rfl, Or.inr ⟨⟨_, rfl⟩, fun hcopied => nomatch hcopied.1⟩⟩

/-- **A clone** with the assertions is the one without; one that succeeds has copies within the
limit. -/
theorem cloneRegionsCopying_eq_ok (rest : List UserspaceRegion) {clone : SpaceManager σ}
    {object : ℕ} {out : SpaceManager σ × ErrorCode}
    (h : cloneRegionsCopying source rest clone object = .ok out) :
    cloneRegions source rest clone object = .ok out ∧ (out.2 = .ESUCCESS → CopiesFit rest) := by
  induction rest generalizing clone object with
  | nil => exact ⟨h, fun _ => List.forall_mem_nil _⟩
  | cons old rest ih =>
      obtain ⟨⟨tables, result⟩, hbacking, h⟩ := bind_eq_ok.mp h
      obtain ⟨hsame, hout⟩ := backingForForkCopying_eq_ok hbacking
      rw [cloneRegions, hsame]
      rcases hout with hcode | ⟨⟨backing, hresult⟩, hfits⟩
      · obtain rfl : result = .error .ENOMEM := hcode
        cases h
        exact ⟨rfl, fun hsuccess => absurd hsuccess (show ErrorCode.ENOMEM ≠ .ESUCCESS by decide)⟩
      · obtain rfl : result = .ok backing := hresult
        obtain ⟨⟨tables', code⟩, hmap, h⟩ := bind_eq_ok.mp h
        dsimp only at h ⊢
        rw [hmap, ok_bind]
        dsimp only
        split_ifs at h ⊢ with hcode
        · cases h
          exact ⟨rfl, fun hsuccess => absurd hsuccess hcode⟩
        · obtain ⟨hclone, hrest⟩ := ih h
          exact ⟨hclone, fun hsuccess => List.forall_mem_cons.mpr ⟨hfits, hrest hsuccess⟩⟩

/-! ## Forks that return -/

theorem BackingRegion.Mappable.copy {backing copy : BackingRegion} {region : UserRegion}
    (mappable : backing.Mappable region) (hsize : copy.size = backing.size / pageSize * pageSize) :
    copy.Mappable region := by
  obtain ⟨haligned, hle⟩ := mappable
  refine ⟨haligned, ?_⟩
  have hpages := (region.pageAligned_iff.mp haligned).2
  rw [BitVec.le_def] at hle ⊢
  rw [hsize, toNat_pages_mul, BitVec.toNat_udiv, toNat_pageSize]
  omega

theorem backingForForkCopying_returns {tables : TableState σ} {region : UserspaceRegion}
    {object extra : ℕ} (hfits : region.CopiedByFork → region.backing.size.toNat ≤ maxMemcopy)
    (mappable : region.backing.Mappable region.userRegion)
    (spare : source.Spare (region.forkPages + extra) tables.pageAllocator) :
    ∃ out, backingForForkCopying source tables region object = .ok out ∧
      ∀ backing, out.2 = .ok backing → backing.Mappable region.userRegion ∧
        source.Spare (3 * (region.userRegion.size.toNat / 4096) + extra) out.1.pageAllocator := by
  unfold backingForForkCopying
  unfold UserspaceRegion.forkPages at spare
  have hshared : ∃ out, (Except.ok (tables, .ok region.backing) :
      Except Fault (TableState σ × Except ErrorCode BackingRegion)) = .ok out ∧
        ∀ backing, out.2 = .ok backing → backing.Mappable region.userRegion ∧
          source.Spare (3 * (region.userRegion.size.toNat / 4096) + extra) out.1.pageAllocator := by
    refine ⟨_, rfl, fun backing h => ?_⟩
    cases h
    exact ⟨mappable, spare.mono (by omega)⟩
  cases hkind : region.backing.kind with
  | userOwnedAllocation =>
      dsimp only
      split_ifs with hwrite
      · exact hshared
      · have hcopied : region.CopiedByFork := ⟨hkind, hwrite⟩
        rw [if_pos hcopied, Nat.add_assoc] at spare
        rcases createContiguous_cases source tables (region.backing.size / pageSize) object with
          ⟨-, hnone⟩ | ⟨page, pageAllocator, copy, halloc, hcreate, -, -, hsize, -⟩
        · rw [hnone]
          exact ⟨_, rfl, nofun⟩
        · rw [hcreate]
          dsimp only
          rw [memcopyVerify_eq_ok.mpr (hfits hcopied)]
          refine ⟨_, rfl, fun backing h => ?_⟩
          cases h
          exact ⟨mappable.copy hsize, spare.after halloc⟩
  | deviceBackedRegion => exact hshared

theorem mapIntoTable_returns {backing : BackingRegion} {root : Page} {state : TableState σ}
    {region : UserRegion} {extra : ℕ} (mappable : backing.Mappable region)
    (spare : source.Spare (3 * (region.size.toNat / 4096) + extra) state.pageAllocator)
    (readable writable executable : Bool) :
    ∃ out, mapIntoTable source backing root state region 0 readable writable executable = .ok out ∧
      (out.2 = .ESUCCESS → source.Spare extra out.1.pageAllocator) := by
  obtain ⟨haligned, hsize⟩ := mappable
  obtain ⟨⟨tables, done⟩, hmap, hlasts⟩ := @mapRegion_lasts _ source extra state root region.start
    backing.physicalPtr region.size (attributesForUser readable writable executable)
    backing.kind.attrIdx.toU64 spare
  have hverify : region.pageAligned ∧ (0 : U64) % pageSize = 0 ∧ region.size + 0 ≤ backing.size :=
    ⟨haligned, by decide, by simpa using hsize⟩
  rw [mapIntoTable_eq, mapWith, verify_of hverify, ok_bind, hmap]
  refine ⟨_, rfl, fun hdone => hlasts ?_⟩
  cases done with
  | true => rfl
  | false => cases hdone

/-- **Cloning regions returns** with copies that fit and the pages for it. -/
theorem cloneRegionsCopying_returns (rest : List UserspaceRegion) {clone : SpaceManager σ}
    {object : ℕ} (fits : CopiesFit rest) (all : AllMappable rest)
    (spare : source.Spare (forkPages rest) clone.tables.pageAllocator) :
    ∃ out, cloneRegionsCopying source rest clone object = .ok out := by
  induction rest generalizing clone object with
  | nil => exact ⟨_, rfl⟩
  | cons old rest ih =>
      rw [forkPages, List.map_cons, List.sum_cons] at spare
      obtain ⟨hold, hrest⟩ := List.forall_mem_cons.mp fits
      obtain ⟨hmappable, hall⟩ := List.forall_mem_cons.mp all
      obtain ⟨⟨tables, result⟩, hbacking, hok⟩ :=
        @backingForForkCopying_returns _ _ _ _ object _ hold hmappable spare
      rw [cloneRegionsCopying, hbacking, ok_bind]
      cases result with
      | error code => exact ⟨_, rfl⟩
      | ok backing =>
          obtain ⟨hmappable', hspare⟩ := hok backing rfl
          dsimp only
          obtain ⟨⟨tables', code⟩, hmap, hleft⟩ := @mapIntoTable_returns _ _ _ clone.root _ _ _
            hmappable' hspare (old.permissions &&& .read != .none)
            (old.permissions &&& .write != .none) (old.permissions &&& .execute != .none)
          rw [hmap, ok_bind]
          dsimp only
          split_ifs with hcode
          · exact ⟨_, rfl⟩
          · exact ih hrest hall (hleft (not_not.mp hcode))

theorem cloneForForkCopying_returns {space : SpaceManager σ} {object : ℕ}
    (fits : CopiesFit space.regions) (all : AllMappable space.regions)
    (spare : source.Spare (1 + forkPages space.regions) space.tables.pageAllocator) :
    ∃ out, cloneForForkCopying source space object = .ok out := by
  obtain ⟨root, pageAllocator, halloc⟩ := (Nat.add_comm 1 _ ▸ spare).exists_page
  have hcreate : SpaceManager.create source space.tables =
      .ok { regions := [], root, tables := { space.tables with pageAllocator } } := by
    rw [SpaceManager.create, halloc]
  rw [cloneForForkCopying, hcreate, ok_bind]
  exact cloneRegionsCopying_returns _ fits all (spare.after halloc)

theorem ProcessManager.sysFork_returns {pm : ProcessManager} {parent : Process}
    (hcurrent : pm.objects pm.current = some parent)
    (fresh : ∀ proc, pm.allocated ≤ proc → pm.objects proc = none) :
    ∃ after result, pm.sysFork none = some (after, result) := by
  have hlt : pm.current < pm.allocated := by
    by_contra hge
    rw [fresh _ (Nat.le_of_not_lt hge)] at hcurrent
    cases hcurrent
  by_cases hroom : pm.candidate < longMax
  · obtain ⟨after, hfork, -⟩ := sysFork_ok hcurrent hlt hroom
    exact ⟨after, _, hfork⟩
  · obtain ⟨after, hfork, -⟩ := sysFork_full hlt hroom (fresh _ le_rfl)
    exact ⟨after, _, hfork⟩

namespace Sharing

variable {state : Sharing σ} {old : AddressSpace} {pm : ProcessManager} {stackPages : ℕ}
  {made : Bool}

/-- **A fork returns** with copies that fit and the pages for it. -/
theorem forkProcess_returns {parent : Process} (hcurrent : pm.objects pm.current = some parent)
    (fresh : ∀ proc, pm.allocated ≤ proc → pm.objects proc = none) (fits : CopiesFit old.regions)
    (all : AllMappable old.regions)
    (spare : source.Spare (stackPages + (1 + forkPages old.regions)) state.tables.pageAllocator) :
    ∃ out, forkProcess source state old pm stackPages made = .ok out := by
  unfold forkProcess
  split
  · exact ⟨_, rfl⟩
  · rename_i kernelStack pageAllocator halloc
    split_ifs with hmade
    · obtain ⟨⟨clone, code⟩, hclone⟩ := @cloneForForkCopying_returns _ source
        (old.manager { state.tables with pageAllocator }) state.objectCount fits all
        (spare.after halloc)
      rw [hclone, ok_bind]
      dsimp only
      split_ifs with hcode
      · exact ⟨_, rfl⟩
      · obtain ⟨after, result, hfork⟩ := ProcessManager.sysFork_returns hcurrent fresh
        rw [hfork]
        cases result with
        | error code => exact ⟨_, rfl⟩
        | ok pid => exact ⟨_, rfl⟩
    · exact ⟨_, rfl⟩

theorem copiesFit_of_forkProcess {out : Sharing σ × ProcessManager} {pid : ℕ}
    (h : forkProcess source state old pm stackPages made = .ok (out, .ok pid)) :
    CopiesFit old.regions := by
  unfold forkProcess at h
  split at h
  · cases h
  · split_ifs at h with hmade
    · obtain ⟨⟨clone, code⟩, hclone, h⟩ := bind_eq_ok.mp h
      dsimp only at h
      split_ifs at h with hcode
      · cases h
      · obtain ⟨created, -, hclone⟩ := bind_eq_ok.mp hclone
        exact (cloneRegionsCopying_eq_ok _ hclone).2 (not_not.mp hcode)
    · cases h

/-- **In every state that a run of the calls reaches**, a fork of any process returns, with a
child or an error, if its copies fit and the page allocator has the pages for it; and where it
has made a child, its copies did fit. -/
theorem run_forkReturns {tables : TableState σ} {ops : List SharingOp}
    {final : Sharing σ × List SharingReply}
    (hrun : runSteps (step source) (start tables) ops = some final) {pid : ℕ}
    {space : AddressSpace} (hspace : final.1.space pid = some space) {parent : Process}
    (hcurrent : pm.objects pm.current = some parent)
    (fresh : ∀ proc, pm.allocated ≤ proc → pm.objects proc = none)
    (spare : source.Spare (stackPages + (1 + forkPages space.regions))
      final.1.tables.pageAllocator) :
    (CopiesFit space.regions →
        ∃ out, forkProcess source final.1 space pm stackPages made = .ok out) ∧
      ∀ out child, forkProcess source final.1 space pm stackPages made = .ok (out, .ok child) →
        CopiesFit space.regions :=
  ⟨fun fits => forkProcess_returns hcurrent fresh fits (run_mapped hrun space (mem_spaces hspace))
    spare, fun _ _ => copiesFit_of_forkProcess⟩

end Sharing

/-! ## Examples -/

/-- The bytes of an executable that are not zero: one page, to be read and executed. -/
def initBytes : List (ℕ × Byte) :=
  [(0, 0x7F), (1, 0x45), (2, 0x4C), (3, 0x46), (4, 2), (5, 1), (16, 2), (18, 0xB7), (26, 0x40),
    (32, 64), (54, 56), (56, 1), (64, 1), (68, 5), (82, 0x40), (96, 16), (105, 0x10)]

def initFile : ExecutableFile where
  name := "init"
  size := 0x1000
  readBytes offset n := .ok (fun i => (initBytes.lookup (offset + i)).getD 0, n)

/-- Single pages, and some larger regions. -/
def initPool : List (Page × ℕ) × List (Page × ℕ) :=
  ((List.range 40).map (fun i => (BitVec.ofNat 36 (16 + i), 1)) ++
    [(100, 4), (104, 4), (108, 3), (0x400, 1024), (0x800, 1024)], [])

/-- One process. -/
def onlyProcess : ProcessManager where
  objects proc := if proc = 0 then some (Process.new none) else none
  allocated := 1
  processes := [some 0]
  current := 0

namespace Sharing

/-- A process executes a program, and allocates memory. -/
def allocatingOps (size : U64) : List SharingOp :=
  [.spawn, .execute 0 initFile [] [], .allocate 0 0x80000000 size]

/-- What is looked at in the states below: the regions of the process, whether the pool has enough
pages, and how a fork ends. -/
def forkOutcome (state : Sharing (List (Page × ℕ) × List (Page × ℕ))) :
    Option (Bool × Bool × Option Fault) :=
  (state.space 0).map fun space =>
    (CopiesFit space.regions,
      (state.tables.pageAllocator.1 ++ state.tables.pageAllocator.2).Pairwise
          PageSource.Separate ∧
        3 + (1 + forkPages space.regions) ≤
          (PageSource.singles state.tables.pageAllocator).length,
      match forkProcess TableSource.pool state space onlyProcess 3 true with
      | .error fault => some fault
      | .ok _ => none)

/-- With a page allocated, a fork returns. -/
theorem run_forkReturns_page : ∃ final space,
    runSteps (step TableSource.pool) (start (.empty initPool)) (allocatingOps 0x1000) =
      some final ∧ final.1.space 0 = some space ∧ CopiesFit space.regions ∧
    ∃ out, forkProcess TableSource.pool final.1 space onlyProcess 3 true = .ok out := by
  have hvalue : (runSteps (step TableSource.pool) (start (.empty initPool))
      (allocatingOps 0x1000)).map (fun final => forkOutcome final.1) =
        some (some (true, true, none)) := by decide +kernel
  obtain ⟨final, hrun, hfinal⟩ := Option.map_eq_some_iff.mp hvalue
  obtain ⟨space, hspace, houtcome⟩ := Option.map_eq_some_iff.mp hfinal
  have hfits : CopiesFit space.regions := of_decide_eq_true (congrArg Prod.fst houtcome)
  obtain ⟨hseparate, henough⟩ := of_decide_eq_true (congrArg (fun out => out.2.1) houtcome)
  have has : PageSource.HasSingles final.1.tables.pageAllocator
      (3 + (1 + forkPages space.regions)) := ⟨hseparate, henough⟩
  have hreturns := @run_forkReturns _ TableSource.pool onlyProcess 3 true _ _ _ hrun _ _ hspace _
    rfl (fun _ hproc => if_neg (Nat.ne_of_gt hproc)) has.spare
  exact ⟨final, space, hrun, hspace, hfits, hreturns.1 hfits⟩

/-- With 4 MiB allocated, it does not: the copy is over the limit. -/
theorem run_forkReturns_fails : ∃ final space,
    runSteps (step TableSource.pool) (start (.empty initPool)) (allocatingOps 0x400000) =
      some final ∧ final.1.space 0 = some space ∧ ¬ CopiesFit space.regions ∧
    forkProcess TableSource.pool final.1 space onlyProcess 3 true = .error .panic := by
  have hvalue : (runSteps (step TableSource.pool) (start (.empty initPool))
      (allocatingOps 0x400000)).map (fun final => forkOutcome final.1) =
        some (some (false, false, some .panic)) := by decide +kernel
  obtain ⟨final, hrun, hfinal⟩ := Option.map_eq_some_iff.mp hvalue
  obtain ⟨space, hspace, houtcome⟩ := Option.map_eq_some_iff.mp hfinal
  have hfits : ¬ CopiesFit space.regions := of_decide_eq_false (congrArg Prod.fst houtcome)
  have hfork := congrArg (fun out => out.2.2) houtcome
  dsimp only at hfork
  refine ⟨final, space, hrun, hspace, hfits, ?_⟩
  split at hfork
  · rename_i fault hfault
    cases hfork
    exact hfault
  · cases hfork

end Sharing

end BekOS
