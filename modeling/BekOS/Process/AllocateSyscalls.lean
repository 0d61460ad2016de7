import BekOS.Mm.SpaceManager

/-!
# `sys_allocate` and `sys_deallocate`

The address given to `sys_allocate` is a hint for `place_region`, unless it is the
invalid address.  The alignment test looks at one bit of it, `PAGE_SIZE`, where the
offset bits are the ones below.
-/

namespace BekOS

/-- `maximum_allocation_size` -/
def maximumAllocationSize : U64 := 64 * 1024 * 1024

/-- `sc::INVALID_ADDRESS_VAL` -/
def invalidAddressVal : U64 := -1

section Syscalls

variable {σ : Type} (source : TableSource σ)

/-- `Process::sys_allocate`; an allocation that is not placed is freed again. -/
def sysAllocate (space : SpaceManager σ) (address size : U64) (object : ℕ) :
    Except Fault (SpaceManager σ × Except ErrorCode U64) :=
  if size > maximumAllocationSize then .ok (space, .error .ENOMEM)
  else if size % pageSize ≠ 0 then .ok (space, .error .EINVAL)
  else if address ≠ invalidAddressVal ∧ address &&& pageSize ≠ 0 then
    .ok (space, .error .EINVAL)
  else
    let hint := if address ≠ invalidAddressVal then some address else none
    match createContiguous source space.tables (size / pageSize) object with
    | (tables, .error code) => .ok ({ space with tables }, .error code)
    | (tables, .ok allocation) => do
        let (placed, result) ← placeRegion source { space with tables } hint
          (.read ||| .write) "Allocate" allocation
        match result with
        | .error code =>
            .ok ({ placed with tables := freeAllocation source placed.tables allocation },
              .error code)
        | .ok region => .ok (placed, .ok region.start)

/-- `Process::sys_deallocate` -/
def sysDeallocate (space : SpaceManager σ) (address size : U64) :
    Except Fault (SpaceManager σ × Except ErrorCode U64) :=
  (deallocateUserspaceRegion source space address size).map fun out =>
    (out.1, if out.2 = .ESUCCESS then .ok 0 else .error out.2)

end Syscalls

end BekOS
