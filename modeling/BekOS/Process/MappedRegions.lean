import BekOS.Process.AllocateHints
import BekOS.Process.Sharing

/-!
# Regions as they were mapped

A region comes into an address space only behind `map_into_table`, whose assertion it has passed
then: it is of whole pages, and no larger than its backing region.  This stays so in every run of
the calls that build address spaces.
-/

namespace BekOS

open PartialRun

variable {σ : Type} {source : TableSource σ}

/-- Each region passes the assertion of `map_into_table`. -/
def AllMappable (regions : List UserspaceRegion) : Prop :=
  ∀ region ∈ regions, region.backing.Mappable region.userRegion

theorem AllMappable.nil : AllMappable [] := List.forall_mem_nil _

/-! ## Calls of one address space -/

section Calls

variable {space space' : SpaceManager σ} {location : Option U64}
  {allowedOperations : MemoryOperation} {name : String} {backing : BackingRegion} {object : ℕ}

theorem mapIntoTable_mappable {root : Page} {state : TableState σ} {region : UserRegion}
    {readable writable executable : Bool} {out : TableState σ × ErrorCode}
    (h : mapIntoTable source backing root state region 0 readable writable executable = .ok out) :
    backing.Mappable region := by
  obtain ⟨haligned, hsize, -⟩ := mapIntoTable_cases h
  exact ⟨haligned, hsize⟩

theorem placeRegion_mappable {result : Except ErrorCode UserRegion}
    (h : placeRegion source space location allowedOperations name backing = .ok (space', result))
    (all : AllMappable space.regions) :
    AllMappable space'.regions := by
  rcases placeRegion_cases h with ⟨code, tables, rfl, -, -⟩ | ⟨i, tables, places, -, rfl, -⟩
  · exact all
  · intro region hregion
    rcases List.eq_or_mem_of_mem_insertIdx hregion with rfl | hold
    · exact mapIntoTable_mappable places.mapped
    · exact all region hold

theorem allocatePlacedRegion_mappable {region : UserRegion}
    {result : Except ErrorCode BackingRegion} (all : AllMappable space.regions)
    (h : allocatePlacedRegion source space region allowedOperations name object =
      .ok (space', result)) : AllMappable space'.regions := by
  rcases allocatePlacedRegion_cases h with ⟨rfl, -⟩ |
    ⟨page, pageAllocator, allocation, placed, answer, -, -, -, -, hplace, hanswer⟩
  · exact all
  · have hplaced : AllMappable placed.regions :=
      placeRegion_mappable hplace all
    rcases hanswer with ⟨code, -, -, rfl⟩ | ⟨placedAt, -, -, rfl⟩
    · exact hplaced
    · exact hplaced

theorem sysAllocate_mappable {address size : U64} {result : Except ErrorCode U64}
    (all : AllMappable space.regions)
    (h : sysAllocate source space address size object = .ok (space', result)) :
    AllMappable space'.regions := by
  rcases sysAllocate_cases h with rfl |
    ⟨page, pageAllocator, allocation, placed, answer, -, -, -, -, -, hplace, hout⟩
  · exact all
  have hplaced : AllMappable placed.regions := placeRegion_mappable hplace all
  rcases hout with ⟨code, -, rfl⟩ | ⟨-, rfl⟩
  · exact hplaced
  · exact hplaced

theorem setUpSpace_mappable {elf : ElfFile} {arguments environ : List ℕ}
    {result : Except ErrorCode Unit} (all : AllMappable space.regions)
    (h : elf.setUpSpace source space arguments environ object = .ok (space', result)) :
    AllMappable space'.regions :=
  @ElfFile.setUpSpace_keeps _ _ _ _ _ _ (fun space _ => AllMappable space.regions) id
    (fun _ all hplace => allocatePlacedRegion_mappable all hplace) _ _ _ all h

theorem cloneRegions_mappable (old : List UserspaceRegion) {code : ErrorCode}
    (all : AllMappable space.regions) (h : cloneRegions source old space object = .ok (space', code)) :
    AllMappable space'.regions := by
  induction old generalizing space object with
  | nil =>
      cases h
      exact all
  | cons region rest ih =>
      rw [cloneRegions] at h
      split at h
      · cases h
        exact all
      · rename_i tables copy hcopy
        obtain ⟨⟨tables', code'⟩, hmap, h⟩ := bind_eq_ok.mp h
        have happended : AllMappable (space.regions ++ [{ region with backing := copy }]) := by
          rintro other hother
          rcases List.mem_append.mp hother with hold | hnew
          · exact all other hold
          · obtain rfl := List.mem_singleton.mp hnew
            exact mapIntoTable_mappable hmap
        dsimp only at h
        split_ifs at h with hcode
        · cases h
          exact happended
        · exact ih happended h

theorem create_regions {tables : TableState σ} (h : SpaceManager.create source tables = .ok space) :
    space.regions = [] := by
  unfold SpaceManager.create at h
  split at h
  · cases h
  · cases h
    rfl

variable {receiving : Receiving σ} {i : ℕ} {out : Receiving σ × Except ErrorCode Unit}

theorem deliverData_receiver {dataSize : ℕ} (h : deliverData receiving i dataSize = .ok out) :
    out.1.receiver = receiving.receiver := by
  obtain ⟨target, -, h⟩ := bind_eq_ok.mp h
  obtain ⟨read, -, h⟩ := bind_eq_ok.mp h
  rcases expectedTry_cases h with ⟨code, -, rfl⟩ | ⟨value, -, h⟩
  · rfl
  · cases h
    rfl

theorem deliverMemory_places {region : BackingRegion} {permissions : MemoryOperation}
    (h : deliverMemory source receiving i region permissions = .ok out) :
    ∃ result, placeRegion source receiving.receiver.addressSpaceManager none permissions
      "interlinked" region = .ok (out.1.receiver.addressSpaceManager, result) := by
  obtain ⟨placed, hplace, h⟩ := bind_eq_ok.mp h
  obtain ⟨⟨space, result⟩, hcall, rfl⟩ := map_eq_ok.mp hplace
  have hplaced := orHalt_eq_ok.mp hcall
  refine ⟨result, ?_⟩
  rcases expectedTry_cases h with ⟨code, -, rfl⟩ | ⟨value, -, h⟩
  · exact hplaced
  · cases h
    exact hplaced

theorem deliverItem_mappable {item : QueuedMessage}
    (all : AllMappable receiving.receiver.addressSpaceManager.regions)
    (h : deliverItem source receiving i item = .ok out) :
    AllMappable out.1.receiver.addressSpaceManager.regions := by
  unfold deliverItem at h
  split at h
  · rwa [deliverData_receiver h]
  · cases h
    exact all
  · obtain ⟨result, hplace⟩ := deliverMemory_places h
    exact placeRegion_mappable hplace all

end Calls

/-! ## Runs -/

namespace Sharing

variable {state state' : Sharing σ}

/-- Each region of each process passes the assertion of `map_into_table`. -/
def Mapped (state : Sharing σ) : Prop :=
  ∀ space, some space ∈ state.spaces → AllMappable space.regions

theorem mem_spaces {pid : ℕ} {space : AddressSpace} (h : state.space pid = some space) :
    some space ∈ state.spaces :=
  List.mem_of_getElem? (Option.join_eq_some_iff.mp h)

theorem Mapped.start (tables : TableState σ) : (start tables).Mapped :=
  fun _ h => absurd h List.not_mem_nil

theorem Mapped.install (mapped : state.Mapped) (hspaces : state'.spaces = state.spaces) {pid : ℕ}
    {space : SpaceManager σ} (all : AllMappable space.regions) : (state'.install pid space).Mapped := by
  intro other h
  rcases List.mem_or_eq_of_mem_set h with hother | hnew
  · exact mapped other (hspaces ▸ hother)
  · cases hnew
    exact all

theorem Mapped.concat (mapped : state.Mapped) {created : Option AddressSpace}
    (all : ∀ space ∈ created, AllMappable space.regions) (space : AddressSpace)
    (h : some space ∈ state.spaces ++ [created]) : AllMappable space.regions := by
  rcases List.mem_append.mp h with hold | hnew
  · exact mapped space hold
  · exact all space (List.mem_singleton.mp hnew).symm

/-- **One call** lists no region that was not mapped. -/
theorem Mapped.step (mapped : state.Mapped) {op : SharingOp} {reply : SharingReply}
    (h : step source state op = some (state', reply)) : state'.Mapped := by
  cases step_cases h with
  | spawn => exact mapped.concat nofun
  | allocate hold hcall =>
      exact mapped.install rfl (sysAllocate_mappable (mapped _ (mem_spaces hold)) hcall)
  | executed hpid hparse hcreate hcall =>
      exact mapped.install rfl (setUpSpace_mappable (create_regions hcreate ▸ .nil) hcall)
  | forked hold hcall =>
      obtain ⟨created, hcreate, hclone⟩ := bind_eq_ok.mp hcall
      have hempty : AllMappable created.regions := create_regions hcreate ▸ .nil
      refine mapped.concat fun space hspace => ?_
      cases hspace
      exact cloneRegions_mappable _ hempty hclone
  | receive hold hmessages hitems hcall =>
      exact mapped.install rfl (deliverItem_mappable (mapped _ (mem_spaces hold)) hcall)
  | connect | unparsed | notExecuted | notForked | send | reclaim => exact mapped

/-- **In every run** each region is as it was mapped. -/
theorem run_mapped {tables : TableState σ} {ops : List SharingOp}
    {final : Sharing σ × List SharingReply}
    (hrun : runSteps (step source) (start tables) ops = some final) : final.1.Mapped :=
  runSteps_keeps (fun _ _ _ mapped hstep => Mapped.step mapped hstep) (.start tables) hrun

end Sharing

end BekOS
