import BekOS.Arch.TableTree
import BekOS.Mm.SpaceManager

/-!
# What `check_region` vouches for

`check_region` asks the first region that contains the range, by `end`s that wrap
around.  `Granted` is what its callers take a positive answer for: every byte of
the range, counted in integers, lies in one region with the permission.
-/

namespace BekOS

/-- The region carries the permission. -/
def UserspaceRegion.Permits (region : UserspaceRegion) (operation : MemoryOperation) : Prop :=
  region.permissions &&& operation = operation
deriving Decidable

/-- Every byte of the range lies inside one region that carries the permission. -/
def Granted (regions : List UserspaceRegion) (ptr size : U64) (operation : MemoryOperation) :
    Prop :=
  ∃ region ∈ regions, region.Permits operation ∧
    ∀ address, ptr.toNat ≤ address → address < ptr.toNat + size.toNat →
      region.userRegion.Covers address

section

variable {regions : List UserspaceRegion} {ptr size : U64} {operation : MemoryOperation}

/-- `check_region` answers yes exactly when the first region to contain the range, by
the wrapped ends, has the permission. -/
theorem checkRegion_eq_true :
    checkRegion regions ptr size operation = true ↔
      ∃ region, regions.find? (fun region => region.userRegion.contains ⟨ptr, size⟩) =
        some region ∧ region.Permits operation := by
  unfold checkRegion UserspaceRegion.Permits
  cases regions.find? fun region => region.userRegion.contains ⟨ptr, size⟩ with
  | none => exact iff_of_false nofun fun ⟨_, h, _⟩ => nomatch h
  | some region =>
      refine beq_iff_eq.trans ⟨fun h => ⟨region, rfl, h⟩, ?_⟩
      rintro ⟨region', heq, h⟩
      cases heq
      exact h

/-- A region that contains a range grants it, if the range does not wrap around or
the region does as well. -/
theorem granted_of_contains {region : UserspaceRegion} (hmem : region ∈ regions)
    (hpermits : region.Permits operation)
    (hcontains : region.userRegion.contains ⟨ptr, size⟩ = true)
    (hwraps : (⟨ptr, size⟩ : UserRegion).Fits ∨ ¬ region.userRegion.Fits) :
    Granted regions ptr size operation := by
  obtain ⟨hstart, hend⟩ := (UserRegion.contains_iff _ _).mp hcontains
  have hlimit : (⟨ptr, size⟩ : UserRegion).limit ≤ region.userRegion.limit := by
    rcases hwraps with hfits | hwraps
    · rw [hfits.toNat_endPtr, UserRegion.toNat_endPtr] at hend
      exact hend.trans (Nat.mod_le _ _)
    · by_cases hfits : (⟨ptr, size⟩ : UserRegion).Fits
      · exact (Nat.le_of_lt hfits).trans (Nat.le_of_not_lt hwraps)
      · rw [UserRegion.toNat_endPtr_of_not_fits hfits,
          UserRegion.toNat_endPtr_of_not_fits hwraps] at hend
        have := Nat.le_of_not_lt hwraps
        have := Nat.le_of_not_lt hfits
        omega
  exact ⟨region, hmem, hpermits, fun address hlow hhigh =>
    ⟨hstart.trans hlow, lt_of_lt_of_le hhigh hlimit⟩⟩

theorem contains_of_granted (hwraps : ¬ (⟨ptr, size⟩ : UserRegion).Fits)
    (granted : Granted regions ptr size operation) :
    ∃ region ∈ regions, region.Permits operation ∧ ¬ region.userRegion.Fits ∧
      region.userRegion.contains ⟨ptr, size⟩ = true := by
  obtain ⟨region, hmem, hpermits, hcovers⟩ := granted
  have hlimit : 2 ^ 64 ≤ ptr.toNat + size.toNat := Nat.le_of_not_lt hwraps
  have hptr := ptr.isLt
  -- The first and the last byte of the range.
  have hfirst := (hcovers ptr.toNat le_rfl (by omega)).1
  have hlast := (hcovers (ptr.toNat + size.toNat - 1) (by omega) (by omega)).2
  have hregion : ¬ region.userRegion.Fits := by
    unfold UserRegion.Fits
    omega
  refine ⟨region, hmem, hpermits, hregion, (UserRegion.contains_iff _ _).mpr ⟨hfirst, ?_⟩⟩
  rw [UserRegion.toNat_endPtr_of_not_fits hwraps, UserRegion.toNat_endPtr_of_not_fits hregion]
  change ptr.toNat + size.toNat - 2 ^ 64 ≤ _
  omega

/-- **When a positive answer of `check_region` can be relied on.**  For a range that
does not wrap around, always.  For one that does, if a region that wraps around as
well and has the permission contains it; otherwise only if the answer is not given:
the first region to contain the range by the wrapped ends lacks the permission. -/
theorem checkRegion_granted_iff (regions : List UserspaceRegion) (ptr size : U64)
    (operation : MemoryOperation) :
    (checkRegion regions ptr size operation = true → Granted regions ptr size operation) ↔
      ptr.toNat + size.toNat < 2 ^ 64 ∨
      (∃ region ∈ regions, region.Permits operation ∧ ¬ region.userRegion.Fits ∧
        region.userRegion.contains ⟨ptr, size⟩ = true) ∨
      ∀ region, regions.find? (fun region => region.userRegion.contains ⟨ptr, size⟩) =
        some region → ¬ region.Permits operation := by
  constructor
  · intro hclaim
    by_cases hfits : (⟨ptr, size⟩ : UserRegion).Fits
    · exact Or.inl hfits
    by_cases hcheck : checkRegion regions ptr size operation = true
    · exact Or.inr (Or.inl (contains_of_granted hfits (hclaim hcheck)))
    · exact Or.inr (Or.inr fun region hfind hpermits =>
        hcheck (checkRegion_eq_true.mpr ⟨region, hfind, hpermits⟩))
  · intro hcond hcheck
    obtain ⟨region, hfind, hpermits⟩ := checkRegion_eq_true.mp hcheck
    have hcontains := List.find?_some hfind
    rcases hcond with hfits | ⟨wide, hmem, hwide, hwraps, hwrapped⟩ | hrefused
    · exact granted_of_contains (List.mem_of_find?_eq_some hfind) hpermits hcontains
        (Or.inl hfits)
    · exact granted_of_contains hmem hwide hwrapped (Or.inr hwraps)
    · exact absurd hpermits (hrefused region hfind)

end

/-- One page at `0x500000`, readable and writable: `check_region` grants a write of
all but one byte of the address space from there on. -/
theorem checkRegion_granted_fails :
    ∃ space reply, spaceStep TableSource.pool ⟨[], 1, .empty samplePool⟩
        (.allocatePlacedRegion ⟨0x500000, 0x1000⟩ (.read ||| .write) "data" 0) =
          some (space, reply) ∧
      checkRegion space.regions 0x500000 0xFFFFFFFFFFFFFFFF .write = true ∧
        ¬ Granted space.regions 0x500000 0xFFFFFFFFFFFFFFFF .write := by
  have hruns : (spaceStep TableSource.pool ⟨[], 1, .empty samplePool⟩
      (.allocatePlacedRegion ⟨0x500000, 0x1000⟩ (.read ||| .write) "data" 0)).map (fun out =>
        (checkRegion out.1.regions 0x500000 0xFFFFFFFFFFFFFFFF .write,
          out.1.regions.all fun region => decide (region.userRegion.limit ≤ 0x501000))) =
      some (true, true) := by decide +kernel
  obtain ⟨⟨space, reply⟩, hstep, heq⟩ := Option.map_eq_some_iff.mp hruns
  obtain ⟨hcheck, hall⟩ := Prod.mk.inj heq
  refine ⟨space, reply, hstep, hcheck, ?_⟩
  rintro ⟨region, hmem, -, hcovers⟩
  have hlimit := of_decide_eq_true (List.all_eq_true.mp hall region hmem)
  have hbyte := (hcovers 0x501000 (by decide) (by decide)).2
  omega

end BekOS
