import BekOS.Mm.ForkIsolation
import BekOS.Process.PassedMemory

/-!
# Allocations that are shared

What holds of the address spaces of all processes, however memory has been passed on and forked:
the permissions for an allocation never grow, and a process has access to the allocations of its own
regions only.
-/

namespace BekOS

open PartialRun Function

variable {σ : Type} {source : TableSource σ}

/-! ## Where a region comes from -/

section Made

variable {space out : SpaceManager σ} {object : ℕ} {region : UserspaceRegion}

theorem placeRegion_made {location : Option U64} {allowedOperations : MemoryOperation}
    {name : String} {backing : BackingRegion} {result : Except ErrorCode UserRegion}
    (h : placeRegion source space location allowedOperations name backing = .ok (out, result))
    (hregion : region ∈ out.regions) : region ∈ space.regions ∨ region.backing = backing := by
  rcases (placeRegion_inserts h).2 with ⟨-, hsame⟩ | ⟨idx, hidx, hinserted⟩
  · exact Or.inl (hsame ▸ hregion)
  · rw [hinserted, List.mem_insertIdx hidx] at hregion
    rcases hregion with rfl | hold
    · exact Or.inr rfl
    · exact Or.inl hold

theorem allocatePlacedRegion_made {target : UserRegion} {allowedOperations : MemoryOperation}
    {name : String} {result : Except ErrorCode BackingRegion}
    (h : allocatePlacedRegion source space target allowedOperations name object = .ok (out, result))
    (hregion : region ∈ out.regions) : region ∈ space.regions ∨ region.backing.object = object := by
  rcases allocatePlacedRegion_cases h with ⟨rfl, -⟩ |
    ⟨page, pageAllocator, allocation, placed, answer, -, -, -, rfl, hplace, hout⟩
  · exact Or.inl hregion
  · rcases hout with ⟨code, -, -, rfl⟩ | ⟨placedAt, -, -, rfl⟩ <;>
      exact (placeRegion_made hplace hregion).imp_right (congrArg BackingRegion.object)

theorem sysAllocate_made {address size : U64} {result : Except ErrorCode U64}
    (h : sysAllocate source space address size object = .ok (out, result))
    (hregion : region ∈ out.regions) : region ∈ space.regions ∨ region.backing.object = object := by
  rcases sysAllocate_cases h with rfl |
    ⟨page, pageAllocator, allocation, placed, answer, -, -, -, -, rfl, hplace, hout⟩
  · exact Or.inl hregion
  · rcases hout with ⟨code, -, rfl⟩ | ⟨-, rfl⟩ <;>
      exact (placeRegion_made hplace hregion).imp_right (congrArg BackingRegion.object)

/-- The regions that the loader makes have allocations of their own. -/
theorem setUpSpace_made {elf : ElfFile} {arguments environ : List ℕ}
    {result : Except ErrorCode Unit} (hempty : space.regions = [])
    (h : elf.setUpSpace source space arguments environ object = .ok (out, result))
    (hregion : region ∈ out.regions) : object ≤ region.backing.object ∧
      region.backing.object < object + (elf.programHeaders.length + 1) := by
  have hmade := @ElfFile.setUpSpace_keeps _ _ elf _ _ object (fun space later => object ≤ later ∧
      ∀ region ∈ space.regions, object ≤ region.backing.object ∧ region.backing.object < later)
    (fun ⟨hle, hall⟩ => ⟨hle.trans (Nat.le_succ _), fun region hregion =>
      (hall region hregion).imp_right Nat.lt_succ_of_lt⟩)
    (fun {_ _ _ _ _ later _} _ ⟨hle, hall⟩ hcall => ⟨hle.trans (Nat.le_succ _),
      fun region hregion => (allocatePlacedRegion_made hcall hregion).elim
        (fun hold => (hall region hold).imp_right Nat.lt_succ_of_lt)
        fun hnew => ⟨hle.trans hnew.ge, hnew.trans_lt (Nat.lt_succ_self _)⟩⟩) _ _ _
    ⟨Nat.le_refl _, hempty ▸ List.forall_mem_nil _⟩ h
  exact hmade.2 region hregion

/-- The permissions of a clone's region are those of the region it was made for, and so is its
allocation, unless it is a new one. -/
theorem cloneRegions_made (rest : List UserspaceRegion) {code : ErrorCode}
    (h : cloneRegions source rest space object = .ok (out, code)) (hregion : region ∈ out.regions) :
    region ∈ space.regions ∨ ∃ old ∈ rest, region.permissions = old.permissions ∧
      (region.backing = old.backing ∨ object ≤ region.backing.object ∧
        region.backing.object < object + rest.length) := by
  induction rest generalizing space object with
  | nil =>
      cases h
      exact Or.inl hregion
  | cons old rest ih =>
      rw [cloneRegions] at h
      split at h
      · cases h
        exact Or.inl hregion
      · rename_i tables backing hbacking
        obtain ⟨⟨tables', code'⟩, -, h⟩ := bind_eq_ok.mp h
        have hcopied : backing = old.backing ∨ backing.object = object := by
          unfold backingForFork at hbacking
          split at hbacking
          · split_ifs at hbacking
            · cases hbacking
              exact Or.inl rfl
            · rcases createContiguous_cases source space.tables (old.backing.size / pageSize) object
                with ⟨-, hnone⟩ | ⟨page, pageAllocator, copy, -, hcreate, -, -, -, hobject⟩
              · cases hnone.symm.trans hbacking
              · cases hcreate.symm.trans hbacking
                exact Or.inr hobject
          · cases hbacking
            exact Or.inl rfl
        have hlisted (hmem : region ∈ space.regions ++ [{ old with backing }]) :
            region ∈ space.regions ∨ ∃ other ∈ old :: rest, region.permissions = other.permissions ∧
              (region.backing = other.backing ∨ object ≤ region.backing.object ∧
                region.backing.object < object + (old :: rest).length) := by
          refine (List.mem_append.mp hmem).imp_right fun hnew => ⟨old, List.mem_cons_self, ?_⟩
          obtain rfl := List.mem_singleton.mp hnew
          refine ⟨rfl, hcopied.imp_right fun hobject => ?_⟩
          rw [List.length_cons, show BackingRegion.object _ = object from hobject]
          omega
        dsimp only at h
        split_ifs at h
        · cases h
          exact hlisted hregion
        · rcases ih h with hbefore | ⟨other, hother, hsame, hfrom⟩
          · exact hlisted hbefore
          · refine Or.inr ⟨other, List.mem_cons_of_mem _ hother, hsame, hfrom.imp_right ?_⟩
            rw [List.length_cons]
            omega

end Made

/-! ## A new address space beside the others -/

section Beside

variable {spaces : ℕ → Option AddressSpace} {tables : TableState σ} {live : Set BackingRegion}
  {objectCount : ℕ} {new : AddressSpace}

theorem MemoryOk.beside (ok : MemoryOk source tables spaces live objectCount)
    (blank : BlankRoot source tables) {created : SpaceManager σ}
    (h : SpaceManager.create source tables = .ok created) :
    MemoryOk source created.tables (update (fun pid : Option ℕ => pid.bind spaces) none
      (some ⟨created.regions, created.root⟩)) live objectCount := by
  unfold SpaceManager.create at h
  split at h
  · cases h
  · rename_i root pageAllocator halloc
    cases h
    have okAll := ok.reindex (fun pid : Option ℕ => pid) fun _ _ _ hpid hpid' =>
      hpid.trans hpid'.symm
    exact okAll.create halloc (blank root pageAllocator halloc)

/-- It becomes that of a process. -/
theorem MemoryOk.adopt (pid : ℕ) (ok : MemoryOk source tables
      (update (fun pid : Option ℕ => pid.bind spaces) none (some new)) live objectCount) :
    MemoryOk source tables (update spaces pid (some new)) live objectCount := by
  have hname : (fun k => (if k = pid then some none else some (some k)).bind
      (update (fun pid : Option ℕ => pid.bind spaces) none (some new))) =
        update spaces pid (some new) := by
    ext1 k
    rw [update_apply spaces]
    split_ifs <;> simp
  rw [← hname]
  refine ok.reindex _ fun k k' j hk hk' => ?_
  split_ifs at hk hk' with hpid hpid' hpid'
  · exact hpid.trans hpid'.symm
  all_goals cases hk; cases hk'
  rfl

/-- It is dropped. -/
theorem MemoryOk.abandon (ok : MemoryOk source tables
      (update (fun pid : Option ℕ => pid.bind spaces) none (some new)) live objectCount) :
    MemoryOk source tables spaces live objectCount := by
  have hname : (fun k => (some (some k)).bind
      (update (fun pid : Option ℕ => pid.bind spaces) none (some new))) = spaces := by
    ext1 k
    simp
  rw [← hname]
  exact ok.reindex _ fun k k' j hk hk' =>
    Option.some.inj (Option.some.inj (hk.trans hk'.symm))

end Beside

section Building

variable {ι : Type} [DecidableEq ι] {spaces : ι → Option AddressSpace} {i : ι}
  {space out : SpaceManager σ} {live : Set BackingRegion} {object : ℕ}

/-- **`sys_allocate`** makes one allocation for the address space, if any. -/
theorem sysAllocate_builds {address size : U64} {result : Except ErrorCode U64}
    (ok : MemoryOk source space.tables
      (update spaces i (some ⟨space.regions, space.root⟩)) live object)
    (h : sysAllocate source space address size object = .ok (out, result))
    (noWrap : NoWrap (allocateHint address) size) :
    Builds source spaces i live object (object + 1) out out.regions := by
  rcases sysAllocate_cases h with rfl | ⟨page, pageAllocator, allocation, placed, answer, halloc,
    hphys, hsize, hwhole, hobject, hplace, hout⟩
  · exact (Makes.refl _ _ _).builds (ok.mono (Nat.le_succ _))
  · obtain ⟨hrefused, hplaced⟩ :=
      ok.placeAllocated halloc hphys (hsize.symm ▸ hwhole) hobject hplace (by rwa [hsize])
    rcases hout with ⟨code, hanswer, rfl⟩ | ⟨⟨placedAt, hanswer⟩, rfl⟩
    · exact (hrefused code hanswer).2
    · exact (hplaced placedAt hanswer).2

/-- **The loader** makes the allocations of the regions that it asks for. -/
theorem setUpSpace_builds {file : ExecutableFile} {elf : ElfFile} {arguments environ : List ℕ}
    {result : Except ErrorCode Unit} (hparse : ElfFile.parseFile file = .ok elf)
    (ok : MemoryOk source space.tables
      (update spaces i (some ⟨space.regions, space.root⟩)) live object)
    (h : elf.setUpSpace source space arguments environ object = .ok (out, result)) :
    Builds source spaces i live object (object + (elf.programHeaders.length + 1)) out out.regions := by
  have hbuilds := @ElfFile.setUpSpace_keeps _ _ elf _ _ object (fun space later => object ≤ later ∧
      Builds source spaces i live object later space space.regions)
    (fun ⟨hle, live', makes, hbacked, ok⟩ => ⟨hle.trans (Nat.le_succ _), live', makes, hbacked,
      ok.mono (Nat.le_succ _)⟩)
    (fun asks ⟨hle, live', makes, hbacked, ok⟩ hcall => by
      obtain ⟨hregions, live'', makes', hbacked', ok'⟩ :=
        allocatePlacedRegion_builds ok hcall (asks.limit_lt hparse)
      exact ⟨hle.trans (Nat.le_succ _), live'', makes.trans makes' hle hregions, hbacked', ok'⟩) _ _ _
    ⟨Nat.le_refl _, (Makes.refl _ _ _).builds ok⟩ h
  exact hbuilds.2

/-- **A record that is delivered** leaves an address space with allocations that there are. -/
theorem deliverItem_builds {receiving : Receiving σ} {idx : ℕ} {item : QueuedMessage}
    {delivered : Receiving σ × Except ErrorCode Unit}
    (ok : MemoryOk source receiving.receiver.addressSpaceManager.tables
      (update spaces i (some ⟨receiving.receiver.addressSpaceManager.regions,
        receiving.receiver.addressSpaceManager.root⟩)) live object)
    (hitem : ∀ backing permissions, item.content = .memory backing permissions → backing ∈ live)
    (h : deliverItem source receiving idx item = .ok delivered) :
    Builds source spaces i live object object delivered.1.receiver.addressSpaceManager
      delivered.1.receiver.addressSpaceManager.regions := by
  unfold deliverItem at h
  split at h
  · rw [deliverData_receiver h]
    exact (Makes.refl _ _ _).builds ok
  · cases h
    exact (Makes.refl _ _ _).builds ok
  · rename_i backing permissions hcontent
    obtain ⟨result, hplace⟩ := deliverMemory_places h
    obtain ⟨⟨hroot, okPlaced⟩, -⟩ := ok.place (update_self _ _ _) hplace trivial
      (hitem backing permissions hcontent)
    rw [update_idem, ← hroot] at okPlaced
    exact (Makes.refl _ _ _).builds okPlaced

end Building

namespace Sharing

variable {state state' : Sharing σ} {history : List SharingReply} {reply : SharingReply}
  {backing : BackingRegion} {permissions : MemoryOperation}

/-! ## Permissions -/

/-- The first call that put this allocation into an address space allowed these operations on it. -/
def AllowedFirst (history : List SharingReply) (backing : BackingRegion)
    (permissions : MemoryOperation) : Prop :=
  ∃ earlier reply later, history = earlier ++ reply :: later ∧
    (∀ before ∈ earlier, ∀ region ∈ before.placements, region.backing ≠ backing) ∧
    ∃ origin ∈ reply.placements, origin.backing = backing ∧
      permissions &&& origin.permissions = permissions

/-- What the processes have, and had when they sent something, they were allowed at first. -/
structure Allowed (history : List SharingReply) (state : Sharing σ) : Prop where
  numbered : ∀ reply ∈ history, ∀ region ∈ reply.placements,
    region.backing.object < state.objectCount
  held : ∀ space, some space ∈ state.spaces → ∀ region ∈ space.regions,
    AllowedFirst history region.backing region.permissions
  sent : ∀ queue regions items, .sent queue regions items ∈ history → ∀ region ∈ regions,
    AllowedFirst history region.backing region.permissions

theorem AllowedFirst.concat (allowed : AllowedFirst history backing permissions) :
    AllowedFirst (history ++ [reply]) backing permissions := by
  obtain ⟨earlier, first, later, rfl, hbefore, horigin⟩ := allowed
  exact ⟨earlier, first, later ++ [reply], by simp, hbefore, horigin⟩

theorem AllowedFirst.weaken {fewer : MemoryOperation}
    (allowed : AllowedFirst history backing permissions) (h : fewer &&& permissions = fewer) :
    AllowedFirst history backing fewer := by
  obtain ⟨earlier, first, later, rfl, hbefore, origin, horigin, hbacking, hallows⟩ := allowed
  refine ⟨earlier, first, later, rfl, hbefore, origin, horigin, hbacking, ?_⟩
  rw [← h, BitVec.and_assoc, hallows]

theorem Allowed.object_lt (allowed : Allowed history state)
    (first : AllowedFirst history backing permissions) : backing.object < state.objectCount := by
  obtain ⟨earlier, reply, later, rfl, -, origin, horigin, rfl, -⟩ := first
  exact allowed.numbered reply (by simp) origin horigin

theorem Allowed.fresh (allowed : Allowed history state) {region : UserspaceRegion}
    (hregion : region ∈ reply.placements) (hobject : state.objectCount ≤ region.backing.object) :
    AllowedFirst (history ++ [reply]) region.backing region.permissions := by
  refine ⟨history, reply, [], rfl, fun before hbefore other hother hsame => ?_, region, hregion, rfl,
    BitVec.and_self⟩
  have hlt := allowed.numbered before hbefore other hother
  rw [hsame] at hlt
  exact absurd hlt (Nat.not_lt.mpr hobject)

/-- A call that sends nothing, and brings regions that are allowed. -/
theorem Allowed.call (allowed : Allowed history state) (hcount : state.objectCount ≤ state'.objectCount)
    (hspaces : ∀ space, some space ∈ state'.spaces → some space ∈ state.spaces ∨
      ∀ region ∈ space.regions, AllowedFirst (history ++ [reply]) region.backing region.permissions)
    (hplaced : ∀ region ∈ reply.placements, region.backing.object < state'.objectCount)
    (hsent : ∀ queue regions items, reply = .sent queue regions items → ∀ region ∈ regions,
      AllowedFirst history region.backing region.permissions) :
    Allowed (history ++ [reply]) state' where
  numbered := List.forall_mem_append.mpr ⟨fun earlier hearlier region hregion =>
    (allowed.numbered earlier hearlier region hregion).trans_le hcount,
    List.forall_mem_singleton.mpr hplaced⟩
  held space hspace region hregion := (hspaces space hspace).elim
    (fun hold => (allowed.held space hold region hregion).concat) fun hnew => hnew region hregion
  sent queue regions items hmem region hregion := by
    rcases List.mem_append.mp hmem with hold | hnew
    · exact (allowed.sent queue regions items hold region hregion).concat
    · exact (hsent queue regions items (List.mem_singleton.mp hnew).symm region hregion).concat

/-- **One call** gives no process more than was allowed at first. -/
theorem Allowed.step (allowed : Allowed history state) (passes : Passes history state)
    {op : SharingOp} (h : step source state op = some (state', reply)) :
    Allowed (history ++ [reply]) state' := by
  have hquiet {later : Sharing σ} (hcount : state.objectCount ≤ later.objectCount)
      (hspaces : later.spaces = state.spaces) : Allowed (history ++ [.none]) later :=
    allowed.call hcount (fun space hspace => Or.inl (hspaces ▸ hspace)) (List.forall_mem_nil _)
      fun _ _ _ heq => by cases heq
  have hset {pid : ℕ} {space : AddressSpace} (hregions : ∀ region ∈ space.regions,
      AllowedFirst (history ++ [reply]) region.backing region.permissions) :
      ∀ other, some other ∈ state.spaces.set pid (some space) → some other ∈ state.spaces ∨
        ∀ region ∈ other.regions,
          AllowedFirst (history ++ [reply]) region.backing region.permissions := by
    refine fun other hother => (List.mem_or_eq_of_mem_set hother).imp_right fun hnew => ?_
    cases hnew
    exact hregions
  cases step_cases h with
  | spawn =>
      refine allowed.call le_rfl (fun space hspace => Or.inl ?_) (List.forall_mem_nil _)
        fun _ _ _ heq => by cases heq
      exact (List.mem_append.mp hspace).resolve_right fun hnew => by
        cases List.mem_singleton.mp hnew
  | @allocate pid address size old space result hold hcall =>
      have hold' := allowed.held old (mem_spaces hold)
      have hplaced : ∀ region ∈ space.regions.diff old.regions,
          region.backing.object < state.objectCount + 1 := fun region hregion =>
        (sysAllocate_made hcall (List.diff_subset _ _ hregion)).elim
          (fun hbefore => (allowed.object_lt (hold' region hbefore)).trans (Nat.lt_succ_self _))
          fun hnew => hnew.trans_lt (Nat.lt_succ_self _)
      refine allowed.call (Nat.le_succ _) (hset fun region hregion => ?_) hplaced
        fun _ _ _ heq => by cases heq
      by_cases hbefore : region ∈ old.regions
      · exact (hold' region hbefore).concat
      · exact allowed.fresh (List.mem_diff_of_mem hregion hbefore)
          ((sysAllocate_made hcall hregion).resolve_left hbefore).ge
  | executed hpid hparse hcreate hcall =>
      have hmade := fun region => @setUpSpace_made _ _ _ _ _ region _ _ _ _
        (create_regions hcreate) hcall
      exact allowed.call (Nat.le_add_right _ _) (hset fun region hregion =>
        allowed.fresh hregion (hmade region hregion).1) (fun region hregion =>
          (hmade region hregion).2) fun _ _ _ heq => by cases heq
  | @forked pid old clone hold hcall =>
      obtain ⟨created, hcreate, hcall⟩ := bind_eq_ok.mp hcall
      have hold' := allowed.held old (mem_spaces hold)
      have hmade : ∀ region ∈ clone.regions, ∃ other ∈ old.regions,
          region.permissions = other.permissions ∧ (region.backing = other.backing ∨
            state.objectCount ≤ region.backing.object ∧
              region.backing.object < state.objectCount + old.regions.length) :=
        fun region hregion => (cloneRegions_made _ hcall hregion).resolve_left
          (create_regions hcreate ▸ List.not_mem_nil)
      refine allowed.call (Nat.le_add_right _ _) (fun space hspace => ?_)
        (fun region hregion => ?_) fun _ _ _ heq => by cases heq
      · refine (List.mem_append.mp hspace).imp_right fun hnew => ?_
        cases List.mem_singleton.mp hnew
        intro region hregion
        obtain ⟨other, hother, hpermissions, hsame | hnew⟩ := hmade region hregion
        · rw [hpermissions, hsame]
          exact (hold' other hother).concat
        · exact allowed.fresh hregion hnew.1
      · obtain ⟨other, hother, -, hsame | hnew⟩ := hmade region hregion
        · rw [hsame]
          exact (allowed.object_lt (hold' other hother)).trans_le (Nat.le_add_right _ _)
        · exact hnew.2
  | send hold hmessages hcall =>
      refine allowed.call le_rfl (fun _ => Or.inl) (List.forall_mem_nil _)
        fun queue regions items heq => ?_
      cases heq
      exact allowed.held _ (mem_spaces hold)
  | @receive pid queue i offset openEntities buffer old messages item items receiving result hold
      hmessages hitems hcall =>
      have hplaced : ∀ region ∈ receiving.receiver.addressSpaceManager.regions.diff old.regions,
          AllowedFirst history region.backing region.permissions := by
        intro region hregion
        obtain ⟨regions, items, hsent, ptr, size, canRead, canWrite, -, -, held, hheld, -, hbacking,
          hpermissions⟩ := passes.sent queue messages hmessages item
            (hitems ▸ List.mem_cons_self) _ _ (deliverItem_places hcall region hregion)
        exact hbacking ▸ (allowed.sent queue regions items hsent held hheld).weaken hpermissions
      refine allowed.call le_rfl (hset fun region hregion => ?_)
        (fun region hregion => allowed.object_lt (hplaced region hregion))
        fun _ _ _ heq => by cases heq
      by_cases hbefore : region ∈ old.regions
      · exact (allowed.held old (mem_spaces hold) region hbefore).concat
      · exact (hplaced region (List.mem_diff_of_mem hregion hbefore)).concat
  | notExecuted _ _ _ => exact hquiet (Nat.le_add_right _ _) rfl
  | notForked _ _ _ => exact hquiet (Nat.le_add_right _ _) rfl
  | _ => exact hquiet le_rfl rfl

/-- **Permissions never grow**: what a process may do with an allocation was allowed by the first
call that put it into an address space, however often it has been passed on and forked since. -/
theorem run_allowedFirst {tables : TableState σ} {ops : List SharingOp}
    {final : Sharing σ × List SharingReply}
    (hrun : runSteps (step source) (Sharing.start tables) ops = some final) {space : AddressSpace}
    (hspace : some space ∈ final.1.spaces) :
    ∀ region ∈ space.regions, AllowedFirst final.2 region.backing region.permissions := by
  have hstart : Passes [] (Sharing.start tables) ∧ Allowed [] (Sharing.start tables) :=
    ⟨.start tables, List.forall_mem_nil _, fun _ h => absurd h List.not_mem_nil, nofun⟩
  have hfinal := @runSteps_history _ _ _ (step source) (fun _ => True)
    (fun history state => Passes history state ∧ Allowed history state)
    (fun _ _ _ _ both _ hstep => ⟨both.1.step hstep, both.2.step both.1 hstep⟩) _ _ _ _ hstart
    (fun _ _ => trivial) hrun
  exact hfinal.2.held space hspace

/-- The child has its copies, and the memory that was passed on to it. -/
theorem run_allowedFirst_child : ∃ final space,
    runSteps (step TableSource.pool) (start (.empty initPool)) passingOps = some final ∧
      final.1.space 1 = some space ∧ space.regions.map UserspaceRegion.permissions = [5, 3, 3, 1] ∧
        ∀ region ∈ space.regions, AllowedFirst final.2 region.backing region.permissions := by
  have hvalue : (runSteps (step TableSource.pool) (start (.empty initPool)) passingOps).map
      (fun final => (final.1.space 1).map fun space =>
        space.regions.map UserspaceRegion.permissions) = some (some [5, 3, 3, 1]) := by
    decide +kernel
  obtain ⟨final, hrun, hfinal⟩ := Option.map_eq_some_iff.mp hvalue
  obtain ⟨space, hspace, hpermissions⟩ := Option.map_eq_some_iff.mp hfinal
  exact ⟨final, space, hrun, hspace, hpermissions, run_allowedFirst hrun (mem_spaces hspace)⟩

/-! ## Isolation -/

/-- What the kernel counts on here: the address that `sys_allocate` gets does not wrap around with
the size, and a new root table holds no entry. -/
def Safe (source : TableSource σ) (state : Sharing σ) : SharingOp → Prop
  | .allocate _ address size => NoWrap (allocateHint address) size
  | .execute _ _ _ _ | .fork _ => BlankRoot source state.tables
  | _ => True

instance {tables : TableState σ} : Decidable (BlankRoot source tables) :=
  decidable_of_iff (∀ handed ∈ source.allocateRegion tables.pageAllocator 1,
    Blank tables.mem handed.1) Prod.forall

instance : (op : SharingOp) → Decidable (Safe source state op)
  | .allocate _ _ _ => inferInstanceAs (Decidable (NoWrap _ _))
  | .execute _ _ _ _ | .fork _ => inferInstanceAs (Decidable (BlankRoot _ _))
  | .spawn | .connect | .send _ _ _ _ _ | .receive _ _ _ _ _ _ | .reclaim _ => isTrue trivial

/-- The allocations that have not been destroyed. -/
def live (state : Sharing σ) : Set BackingRegion := {backing | backing ∈ state.allocations}

/-- The queue refers to allocations that have not been destroyed. -/
def QueuesLive (messages : MessageQueue) (live : Set BackingRegion) : Prop :=
  ∀ record ∈ messages.messageQueue.items, ∀ backing permissions,
    record.content = .memory backing permissions → backing ∈ live

/-- The memory of all processes together, and what the queues refer to. -/
structure Placed (source : TableSource σ) (state : Sharing σ) : Prop where
  memory : MemoryOk source state.tables state.space state.live state.objectCount
  queued : ∀ messages ∈ state.queues, QueuesLive messages state.live

/-- After a call that has built an address space. -/
theorem builds_afterCall {ι : Type} [DecidableEq ι] {spaces : ι → Option AddressSpace} {i : ι}
    {space : SpaceManager σ} {listed : List UserspaceRegion} {objects : ℕ}
    (builds : Builds source spaces i state.live state.objectCount (state.objectCount + objects)
      space listed) :
    MemoryOk source space.tables (update spaces i (some ⟨listed, space.root⟩))
        (state.afterCall space objects).live (state.objectCount + objects) ∧
      state.live ⊆ (state.afterCall space objects).live := by
  obtain ⟨live', makes, hbacked, ok⟩ := builds
  have hlive : (state.afterCall space objects).live = live' := by
    ext backing
    simp only [live, afterCall, created, Set.mem_ofPred_eq, List.mem_append, List.mem_filter,
      List.mem_map, decide_eq_true_eq]
    constructor
    · rintro (hold | ⟨⟨region, hregion, rfl⟩, -⟩)
      · exact makes.subset hold
      · exact hbacked region hregion
    · exact fun hbacking => (makes.made backing hbacking).imp_right fun ⟨hnew, hregion⟩ =>
        ⟨hregion, hnew⟩
  exact hlive ▸ ⟨ok, makes.subset⟩

theorem space_set {pid : ℕ} {new : Option AddressSpace}
    (hspaces : state'.spaces = state.spaces.set pid new) (hpid : pid < state.spaces.length) :
    state'.space = update state.space pid new := by
  ext1 k
  rw [update_apply, Sharing.space, hspaces]
  split_ifs with hk
  · rw [hk, List.getElem?_set_self hpid, Option.join_some]
  · rw [List.getElem?_set_ne (Ne.symm hk), Sharing.space]

theorem space_concat {new : Option AddressSpace} (hspaces : state'.spaces = state.spaces ++ [new]) :
    state'.space = update state.space state.spaces.length new := by
  ext1 k
  rw [update_apply, Sharing.space, hspaces]
  split_ifs with hlast
  · rw [hlast, List.getElem?_concat_length, Option.join_some]
  · rcases Nat.lt_or_gt_of_ne hlast with hlt | hgt
    · rw [List.getElem?_append_left hlt, Sharing.space]
    · rw [Sharing.space, List.getElem?_eq_none hgt.le, List.getElem?_eq_none]
      rw [List.length_append, List.length_singleton]
      omega

theorem lt_of_space {pid : ℕ} {space : AddressSpace} (h : state.space pid = some space) :
    pid < state.spaces.length :=
  (List.getElem?_eq_some_iff.mp (Option.join_eq_some_iff.mp h)).1

/-- A call that refers to nothing that has been destroyed. -/
theorem Placed.after (placed : Placed source state) {spaces : ℕ → Option AddressSpace}
    (ok : MemoryOk source state'.tables spaces state'.live state'.objectCount)
    (hspaces : state'.space = spaces) (hlive : state.live ⊆ state'.live)
    (hqueues : ∀ messages ∈ state'.queues, messages ∈ state.queues ∨
      QueuesLive messages state'.live) : Placed source state' where
  memory := hspaces ▸ ok
  queued messages hmessages := (hqueues messages hmessages).elim
    (fun hold record hrecord backing permissions hcontent =>
      hlive (placed.queued messages hold record hrecord backing permissions hcontent)) id

/-- **One call** keeps the processes apart. -/
theorem Placed.step (placed : Placed source state) (passes : Passes history state)
    {op : SharingOp} (safe : Safe source state op)
    (h : step source state op = some (state', reply)) : Placed source state' := by
  have hself {pid : ℕ} {old : AddressSpace} (hold : state.space pid = some old) :
      MemoryOk source state.tables (update state.space pid (some ⟨old.regions, old.root⟩))
        state.live state.objectCount := by
    rw [update_eq_self_iff.mpr hold.symm]
    exact placed.memory
  have hfork {pid : ℕ} {old : AddressSpace} {clone : SpaceManager σ} {code : ErrorCode}
      (hold : state.space pid = some old) (blank : BlankRoot source state.tables)
      (hcall : cloneForFork source (old.manager state.tables) state.objectCount =
        .ok (clone, code)) : ∃ listed, (code = .ESUCCESS → listed = clone.regions) ∧
          Builds source (fun pid : Option ℕ => pid.bind state.space) none state.live
            state.objectCount (state.objectCount + old.regions.length) clone listed := by
    obtain ⟨created, hcreate, hclone⟩ := bind_eq_ok.mp hcall
    have ordered := (placed.memory.spaceOk pid old hold).ordered
    rw [← List.nil_append (old.manager _).regions, ← create_regions hcreate] at ordered
    exact (cloneRegions_builds old.regions (placed.memory.beside blank hcreate) ordered
      (fun region hregion => (placed.memory.backed pid old hold region hregion).1) hclone).2
  cases step_cases h with
  | spawn => exact placed.after (placed.memory.remove _) (space_concat rfl) subset_rfl fun _ => Or.inl
  | connect =>
      refine placed.after placed.memory rfl subset_rfl fun messages hmessages =>
        (List.mem_append.mp hmessages).imp_right fun hnew => ?_
      cases List.mem_singleton.mp hnew
      exact List.forall_mem_nil _
  | unparsed => exact placed
  | @allocate pid address size old space result hold hcall =>
      obtain ⟨ok, hlive⟩ := builds_afterCall
        (@sysAllocate_builds _ _ _ _ _ _ (old.manager _) _ _ _ _ _ _ (hself hold) hcall safe)
      exact placed.after ok (space_set rfl (lt_of_space hold)) hlive fun _ => Or.inl
  | notExecuted hparse hcreate hcall =>
      obtain ⟨ok, hlive⟩ := builds_afterCall
        (setUpSpace_builds hparse (placed.memory.beside safe hcreate) hcall)
      exact placed.after ok.abandon rfl hlive fun _ => Or.inl
  | @executed pid file arguments environ elf created space hpid hparse hcreate hcall =>
      obtain ⟨ok, hlive⟩ := builds_afterCall
        (setUpSpace_builds hparse (placed.memory.beside safe hcreate) hcall)
      exact placed.after (ok.adopt pid) (space_set rfl hpid) hlive fun _ => Or.inl
  | notForked hold hcall hcode =>
      obtain ⟨listed, -, builds⟩ := hfork hold safe hcall
      obtain ⟨ok, hlive⟩ := builds_afterCall builds
      exact placed.after ok.abandon rfl hlive fun _ => Or.inl
  | forked hold hcall =>
      obtain ⟨listed, hlisted, builds⟩ := hfork hold safe hcall
      obtain ⟨ok, hlive⟩ := builds_afterCall builds
      rw [hlisted rfl] at ok
      exact placed.after (ok.adopt _) (space_concat rfl) hlive fun _ => Or.inl
  | @send pid queue openEntities buffer blocking old messages sent hold hmessages hcall =>
      have hmem := List.mem_of_getElem? hmessages
      refine placed.after placed.memory rfl subset_rfl fun messages' hmessages' =>
        (List.mem_or_eq_of_mem_set hmessages').imp_right ?_
      rintro rfl record hrecord backing permissions hcontent
      rcases (writeToQueue_passes (passes.ring messages hmem) hcall).2 record hrecord with
        hbefore | hnew
      · exact placed.queued messages hmem record hbefore backing permissions hcontent
      · obtain ⟨-, -, -, -, -, -, held, hheld, -, rfl, -⟩ := hnew backing permissions hcontent
        exact (placed.memory.backed pid old hold held hheld).1
  | @receive pid queue i offset openEntities buffer old messages item items receiving result hold
      hmessages hitems hcall =>
      have hmem := List.mem_of_getElem? hmessages
      have hlisted := fun record hrecord => placed.queued messages hmem record (hitems ▸ hrecord)
      obtain ⟨ok, hlive⟩ := @builds_afterCall _ _ _ _ _ _ _ _ _ 0
        (@deliverItem_builds _ _ _ _ _ _ _ _ _ _ _ _ (hself hold)
          (hlisted item List.mem_cons_self) hcall)
      refine placed.after ok (space_set rfl (lt_of_space hold)) hlive fun messages' hmessages' =>
        (List.mem_or_eq_of_mem_set hmessages').imp_right ?_
      rintro rfl record hrecord backing permissions hcontent
      rw [(@deliverItem_queue _ _ _ _ _ _ (passes.ring messages hmem) hcall).2] at hrecord
      exact hlive (hlisted record (List.mem_cons_of_mem _ hrecord) backing permissions hcontent)
  | @reclaim backing hmem hfree =>
      have hlive : live { state with
          tables := freeAllocation source state.tables backing
          allocations := state.allocations.filter (· ≠ backing) } = state.live \ {backing} := by
        ext other
        simp [live]
      refine ⟨hlive ▸ placed.memory.free hmem fun pid space hspace region hregion hsame =>
        hfree ?_, fun messages hmessages record hrecord other permissions hcontent => ?_⟩
      · exact List.mem_append_left _ (List.mem_flatMap.mpr ⟨some space, mem_spaces hspace,
          List.mem_map.mpr ⟨region, hregion, hsame⟩⟩)
      · refine hlive ▸ ⟨placed.queued messages hmessages record hrecord other permissions hcontent,
          fun hsame => hfree ?_⟩
        refine List.mem_append_right _ (List.mem_flatMap.mpr ⟨messages, hmessages,
          List.mem_filterMap.mpr ⟨record, hrecord, ?_⟩⟩)
        rw [QueuedMessage.backing?, hcontent, hsame]

/-- A process gets at the allocations of its own regions only, a page is in no two allocations, and
no two processes have a table in common. -/
structure Isolated (state : Sharing σ) : Prop where
  reaches : ∀ pid space, state.space pid = some space → ∀ virt target,
    walk state.tables.mem .lower space.root virt = some target → ∃ region ∈ space.regions,
      region.userRegion.Covers virt.toNat ∧ target = region.translation virt ∧
        region.backing ∈ state.allocations ∧ region.backing.Holds target.address
  apart : ∀ backing ∈ state.allocations, ∀ other ∈ state.allocations, ∀ address address',
    backing.Holds address → other.Holds address' → address / 4096 = address' / 4096 →
      backing = other
  tables : ∀ pid pid' space space', pid ≠ pid' → state.space pid = some space →
    state.space pid' = some space' → ∀ page, InTree state.tables.mem 3 space.root page →
      ¬ InTree state.tables.mem 3 space'.root page

theorem Placed.isolated (placed : Placed source state) : Isolated state where
  reaches pid space hspace virt target hwalk := by
    have describes := (placed.memory.spaceOk pid space hspace).describes
    obtain ⟨region, hregion, hcovers, rfl⟩ := describes.region_of_walk hwalk
    obtain ⟨hlive, hsize⟩ := placed.memory.backed pid space hspace region hregion
    exact ⟨region, hregion, hcovers, rfl, hlive, region.holds_translation hsize hcovers⟩
  apart backing hbacking other hother address address' h h' hpage := by
    by_contra hne
    exact placed.memory.pages_ne hbacking hother hne h h' hpage
  tables := placed.memory.separate

/-- **In every run** the processes are isolated, but for the allocations that they share. -/
theorem run_isolated {tables : TableState σ} (embedded : tables.embeddedTablesCurrent = none)
    {ops : List SharingOp} {final : Sharing σ × List SharingReply}
    (safe : StepsMeet (step source) (Safe source) (Sharing.start tables) ops)
    (hrun : runSteps (step source) (Sharing.start tables) ops = some final) : Isolated final.1 := by
  have hstart : Placed source (Sharing.start tables) := by
    refine ⟨⟨embedded, ?_, ?_, ?_, ?_, ?_, ?_, ?_⟩, List.forall_mem_nil _⟩ <;>
      simp [Sharing.start, Sharing.space, live]
  have hfinal := @runSteps_invariant _ _ _ (step source) (Safe source)
    (fun state => Placed source state ∧ ∃ history, Passes history state)
    (fun _ _ _ ⟨placed, history, passes⟩ safe hstep =>
      ⟨placed.step passes safe hstep, _, passes.step hstep⟩)
    _ _ _ ⟨hstart, [], .start tables⟩ safe hrun
  exact hfinal.1.isolated

/-- Two processes share an allocation. -/
theorem run_isolated_child : ∃ final,
    runSteps (step TableSource.pool) (start (.empty initPool)) passingOps = some final ∧
      (final.1.spaces.map fun space => (space.map AddressSpace.regions).map List.length) =
        [some 3, some 4] ∧ Isolated final.1 := by
  have hvalue : (runSteps (step TableSource.pool) (start (.empty initPool)) passingOps).map
      (fun final => final.1.spaces.map fun space => (space.map AddressSpace.regions).map
        List.length) = some [some 3, some 4] := by decide +kernel
  obtain ⟨final, hrun, hspaces⟩ := Option.map_eq_some_iff.mp hvalue
  exact ⟨final, hrun, hspaces, run_isolated rfl (by decide +kernel) hrun⟩

end Sharing

end BekOS
