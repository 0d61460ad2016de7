import BekOS.Mm.Addresses
import Mathlib.Data.List.Induction

/-!
# The regions of physical memory

`process_memory_regions` goes through the addresses from zero on.  It takes the reserved region or
the memory that begins first in what remains, cuts memory off where something that begins later was
chosen before it, and calls unknown what lies in between.  The result covers `[0, 2^48)`, and every
address in it has the label that the two lists give it.
-/

namespace BekOS

/-- `PhysicalRegion` -/
structure PhysicalRegion where
  start : U64
  size : U64
  deriving DecidableEq, Repr

namespace PhysicalRegion

/-- `end` -/
def endPtr (region : PhysicalRegion) : U64 := region.start + region.size

/-- `intersection` -/
def intersection (region other : PhysicalRegion) : PhysicalRegion :=
  let newStart := if region.start > other.start then region.start else other.start
  let newEnd := if region.endPtr > other.endPtr then other.endPtr else region.endPtr
  if newEnd ≥ newStart then ⟨newStart, newEnd - newStart⟩ else ⟨0, 0⟩

/-- The first address behind the region. -/
def limit (region : PhysicalRegion) : ℕ := region.start.toNat + region.size.toNat

/-- The address is in the region. -/
def Covers (region : PhysicalRegion) (address : ℕ) : Prop :=
  region.start.toNat ≤ address ∧ address < region.limit

/-- The region does not wrap around. -/
def Fits (region : PhysicalRegion) : Prop := region.limit < 2 ^ 64
deriving Decidable

end PhysicalRegion

namespace AnnotatedRegion

/-- `AnnotatedRegion::Kind` -/
inductive Kind
  | Memory
  | Reserved
  | Unknown
  deriving DecidableEq, Repr

end AnnotatedRegion

/-- `AnnotatedRegion` -/
structure AnnotatedRegion where
  region : PhysicalRegion
  kind : AnnotatedRegion.Kind
  deriving DecidableEq, Repr

namespace MemoryRegions

/-- The first loop, at a reserved region. -/
def considerReserved (remaining : PhysicalRegion) (next : AnnotatedRegion)
    (region : PhysicalRegion) : AnnotatedRegion :=
  let intersection := remaining.intersection region
  if intersection.size ≠ 0 ∧ intersection.start < next.region.start then
    ⟨intersection, .Reserved⟩
  else next

/-- The second loop, at a memory region. -/
def considerMemory (remaining : PhysicalRegion) (next : AnnotatedRegion)
    (region : PhysicalRegion) : AnnotatedRegion :=
  let intersection := remaining.intersection region
  if intersection.size ≠ 0 ∧ intersection.start < next.region.start then
    if intersection.endPtr > next.region.start then
      ⟨⟨intersection.start, next.region.start - intersection.start⟩, .Memory⟩
    else ⟨intersection, .Memory⟩
  else next

/-- What `next_region` begins as. -/
def noRegion : AnnotatedRegion := ⟨⟨~~~0, 0⟩, .Unknown⟩

/-- `next_region` after both loops. -/
def nextRegion (memRegions reservedRegions : List PhysicalRegion) (remaining : PhysicalRegion) :
    AnnotatedRegion :=
  memRegions.foldl (considerMemory remaining)
    (reservedRegions.foldl (considerReserved remaining) noRegion)

/-- The regions that the outer loop adds while there is something left; `none` when it does not
end. -/
def sweep (memRegions reservedRegions : List PhysicalRegion) :
    ℕ → PhysicalRegion → Option (List AnnotatedRegion)
  | 0, _ => none
  | fuel + 1, remaining =>
      if remaining.size = 0 then some []
      else
        let next := nextRegion memRegions reservedRegions remaining
        if next.region.size ≠ 0 then
          let between := if next.region.start ≠ remaining.start then
              [⟨⟨remaining.start, next.region.start - remaining.start⟩, .Unknown⟩]
            else []
          (sweep memRegions reservedRegions fuel
            ⟨next.region.endPtr, remaining.size - (next.region.endPtr - remaining.start)⟩).map
              fun rest => between ++ next :: rest
        else
          (sweep memRegions reservedRegions fuel ⟨remaining.endPtr, 0⟩).map fun rest =>
            ⟨remaining, .Unknown⟩ :: rest

/-- `process_memory_regions`, in at most as many rounds as there are addresses. -/
def processMemoryRegions (memRegions reservedRegions : List PhysicalRegion) :
    Option (List AnnotatedRegion) :=
  sweep memRegions reservedRegions (2 ^ 48 + 1) ⟨0, 1 <<< 48⟩

/-! ## Intersections -/

section Intersection

variable {region other : PhysicalRegion} {address : ℕ}

theorem toNat_endPtr (h : region.Fits) : region.endPtr.toNat = region.limit :=
  (BitVec.toNat_add _ _).trans (Nat.mod_eq_of_lt h)

theorem intersection_spec (h : region.Fits) (h' : other.Fits) :
    (region.intersection other).Fits ∧
      ∀ address, (region.intersection other).Covers address ↔
        region.Covers address ∧ other.Covers address := by
  have hend := toNat_endPtr h
  have hend' := toNat_endPtr h'
  obtain ⟨newStart, hstart⟩ : ∃ newStart, newStart =
      if region.start > other.start then region.start else other.start := ⟨_, rfl⟩
  obtain ⟨newEnd, hnewEnd⟩ : ∃ newEnd, newEnd =
      if region.endPtr > other.endPtr then other.endPtr else region.endPtr := ⟨_, rfl⟩
  have hstartNat : newStart.toNat = max region.start.toNat other.start.toNat := by
    rw [hstart]
    split_ifs with hlt <;> rw [gt_iff_lt, BitVec.lt_def] at hlt <;> omega
  have hendNat : newEnd.toNat = min region.limit other.limit := by
    rw [hnewEnd]
    split_ifs with hlt <;> rw [gt_iff_lt, BitVec.lt_def] at hlt <;> omega
  rw [PhysicalRegion.intersection, ← hstart, ← hnewEnd]
  unfold PhysicalRegion.Fits PhysicalRegion.Covers PhysicalRegion.limit at *
  by_cases hle : newEnd ≥ newStart
  · rw [if_pos hle]
    rw [ge_iff_le, BitVec.le_def] at hle
    have hsub : (newEnd - newStart).toNat = newEnd.toNat - newStart.toNat :=
      BitVec.toNat_sub_of_le hle
    rw [hsub, hstartNat, hendNat] at *
    refine ⟨by omega, fun address => ?_⟩
    omega
  · rw [if_neg hle]
    rw [ge_iff_le, BitVec.le_def, hstartNat, hendNat] at hle
    refine ⟨by decide, fun address => iff_of_false ?_ ?_⟩
    · exact fun hcovers => Nat.not_lt.mpr hcovers.1 hcovers.2
    · omega

theorem covers_start (hsize : region.size ≠ 0) : region.Covers region.start.toNat := by
  have hpos : 0 < region.size.toNat := Nat.pos_of_ne_zero fun h => hsize (BitVec.eq_of_toNat_eq h)
  exact ⟨Nat.le_refl _, Nat.lt_add_of_pos_right hpos⟩

theorem size_ne_zero (h : region.Covers address) : region.size ≠ 0 := by
  rintro hsize
  have hzero : region.size.toNat = 0 := congrArg BitVec.toNat hsize
  unfold PhysicalRegion.Covers PhysicalRegion.limit at h
  omega

end Intersection

/-! ## The next region -/

/-- The address is in one of the regions. -/
def Within (regions : List PhysicalRegion) (address : ℕ) : Prop :=
  ∃ region ∈ regions, region.Covers address

/-- What the label of an address says of it. -/
def Labelled (memRegions reservedRegions : List PhysicalRegion) (address : ℕ) :
    AnnotatedRegion.Kind → Prop
  | .Memory => Within memRegions address ∧ ¬ Within reservedRegions address
  | .Reserved => Within reservedRegions address
  | .Unknown => ¬ Within memRegions address ∧ ¬ Within reservedRegions address

/-- The region that was chosen, if one was, lies in what remains and has the right label, and
nothing in what remains begins before it. -/
structure Chosen (memRegions reservedRegions : List PhysicalRegion) (remaining : PhysicalRegion)
    (next : AnnotatedRegion) : Prop where
  first : ∀ address, remaining.Covers address →
    Within memRegions address ∨ Within reservedRegions address → next.region.start.toNat ≤ address
  inside : next.region.size ≠ 0 → next.region.Fits ∧
    ∀ address, next.region.Covers address → remaining.Covers address
  labelled : ∀ address, next.region.Covers address →
    Labelled memRegions reservedRegions address next.kind
  known : next.region.size ≠ 0 → next.kind ≠ .Unknown
  none : next.region.size = 0 → next = noRegion

section Chosen

variable {memRegions reservedRegions : List PhysicalRegion} {remaining region : PhysicalRegion}
  {next : AnnotatedRegion}

theorem within_append {regions : List PhysicalRegion} {address : ℕ} :
    Within (regions ++ [region]) address ↔ Within regions address ∨ region.Covers address := by
  unfold Within
  simp only [List.mem_append, List.mem_singleton, or_and_right, exists_or, exists_eq_left]

theorem noRegion_chosen : Chosen [] [] remaining noRegion where
  first := by
    rintro address - (⟨region, hregion, -⟩ | ⟨region, hregion, -⟩) <;> cases hregion
  inside h := absurd rfl h
  labelled address h := absurd rfl (size_ne_zero h)
  known h := absurd rfl h
  none _ := rfl

/-- The first loop chooses reserved regions. -/
theorem considerReserved_chosen (hremaining : remaining.Fits) (hregion : region.Fits)
    (h : Chosen [] reservedRegions remaining next)
    (hkind : next.region.size ≠ 0 → next.kind = .Reserved) :
    Chosen [] (reservedRegions ++ [region]) remaining (considerReserved remaining next region) ∧
      ((considerReserved remaining next region).region.size ≠ 0 →
        (considerReserved remaining next region).kind = .Reserved) := by
  obtain ⟨hfits, hcovers⟩ := intersection_spec hremaining hregion
  have hnone : ∀ address, ¬ Within [] address := by
    rintro address ⟨region, hmem, -⟩
    cases hmem
  unfold considerReserved
  dsimp only
  split_ifs with htaken
  · obtain ⟨hsize, hbefore⟩ := htaken
    rw [BitVec.lt_def] at hbefore
    refine ⟨⟨fun address haddress hwithin => ?_, fun _ => ⟨hfits, fun address haddress => ?_⟩,
      fun address haddress => ?_, fun _ => AnnotatedRegion.Kind.noConfusion,
      fun hzero => absurd hzero hsize⟩,
      fun _ => rfl⟩
    · rcases hwithin with hmem | hreserved
      · exact absurd hmem (hnone address)
      · rcases within_append.mp hreserved with hold | hnew
        · exact Nat.le_trans hbefore.le (h.first address haddress (Or.inr hold))
        · exact ((hcovers address).mpr ⟨haddress, hnew⟩).1
    · exact ((hcovers address).mp haddress).1
    · exact within_append.mpr (Or.inr ((hcovers address).mp haddress).2)
  · refine ⟨⟨fun address haddress hwithin => ?_, h.inside, fun address haddress => ?_, h.known,
      h.none⟩, hkind⟩
    · rcases hwithin with hmem | hreserved
      · exact absurd hmem (hnone address)
      · rcases within_append.mp hreserved with hold | hnew
        · exact h.first address haddress (Or.inr hold)
        · have hboth := (hcovers address).mpr ⟨haddress, hnew⟩
          have hlater := not_and.mp htaken (size_ne_zero hboth)
          rw [BitVec.lt_def] at hlater
          exact Nat.le_trans (Nat.not_lt.mp hlater) hboth.1
    · have hreserved := h.labelled address haddress
      rw [hkind (size_ne_zero haddress)] at hreserved ⊢
      exact within_append.mpr (Or.inl hreserved)

theorem cut_spec (hfits : region.Fits) (hsize : region.size ≠ 0)
    (hbefore : region.start.toNat < next.region.start.toNat) :
    ∃ left : PhysicalRegion, (if region.endPtr > next.region.start then
        (⟨⟨region.start, next.region.start - region.start⟩, .Memory⟩ : AnnotatedRegion)
      else ⟨region, .Memory⟩) = ⟨left, .Memory⟩ ∧ left.Fits ∧ left.size ≠ 0 ∧
      left.start = region.start ∧
      ∀ address, left.Covers address →
        region.Covers address ∧ address < next.region.start.toNat := by
  have hend := toNat_endPtr hfits
  split_ifs with hcut
  · rw [gt_iff_lt, BitVec.lt_def, hend] at hcut
    have hsub : (next.region.start - region.start).toNat =
        next.region.start.toNat - region.start.toNat := BitVec.toNat_sub_of_le hbefore.le
    refine ⟨_, rfl, ?_, ?_, rfl, fun address haddress => ?_⟩
    · unfold PhysicalRegion.Fits PhysicalRegion.limit
      rw [hsub, Nat.add_sub_cancel' hbefore.le]
      exact next.region.start.isLt
    · intro hzero
      have := congrArg BitVec.toNat hzero
      rw [hsub] at this
      exact absurd this (Nat.sub_ne_zero_of_lt hbefore)
    · unfold PhysicalRegion.Covers PhysicalRegion.limit at *
      rw [hsub] at haddress
      dsimp only at haddress
      omega
  · rw [gt_iff_lt, BitVec.lt_def, hend] at hcut
    refine ⟨_, rfl, hfits, hsize, rfl, fun address haddress => ⟨haddress, ?_⟩⟩
    exact Nat.lt_of_lt_of_le haddress.2 (Nat.not_lt.mp hcut)

/-- The second loop chooses memory where nothing reserved begins before it ends. -/
theorem considerMemory_chosen (hremaining : remaining.Fits) (hregion : region.Fits)
    (h : Chosen memRegions reservedRegions remaining next) :
    Chosen (memRegions ++ [region]) reservedRegions remaining
      (considerMemory remaining next region) := by
  obtain ⟨hfits, hcovers⟩ := intersection_spec hremaining hregion
  unfold considerMemory
  dsimp only
  by_cases htaken : (remaining.intersection region).size ≠ 0 ∧
      (remaining.intersection region).start < next.region.start
  · rw [if_pos htaken]
    obtain ⟨hsize, hbefore⟩ := htaken
    rw [BitVec.lt_def] at hbefore
    obtain ⟨left, hleft, hleftFits, hleftSize, hstart, hleftCovers⟩ :=
      cut_spec hfits hsize hbefore
    rw [hleft]
    refine ⟨fun address haddress hwithin => ?_, fun _ => ⟨hleftFits, fun address haddress => ?_⟩,
      fun address haddress => ⟨?_, fun hreserved => ?_⟩, fun _ => AnnotatedRegion.Kind.noConfusion,
      fun hzero => absurd hzero hleftSize⟩
    · have hfirst : address < next.region.start.toNat → region.Covers address := by
        intro hlt
        rcases hwithin with hmem | hreserved
        · rcases within_append.mp hmem with hold | hnew
          · exact absurd hlt (Nat.not_lt.mpr (h.first address haddress (Or.inl hold)))
          · exact hnew
        · exact absurd hlt (Nat.not_lt.mpr (h.first address haddress (Or.inr hreserved)))
      show left.start.toNat ≤ address
      rw [hstart]
      by_cases hlt : address < next.region.start.toNat
      · exact ((hcovers address).mpr ⟨haddress, hfirst hlt⟩).1
      · exact Nat.le_trans hbefore.le (Nat.not_lt.mp hlt)
    · exact ((hcovers address).mp (hleftCovers address haddress).1).1
    · have hboth := (hcovers address).mp (hleftCovers address haddress).1
      exact within_append.mpr (Or.inr hboth.2)
    · have hboth := (hcovers address).mp (hleftCovers address haddress).1
      have hlater := h.first address hboth.1 (Or.inr hreserved)
      exact Nat.not_lt.mpr hlater (hleftCovers address haddress).2
  · rw [if_neg htaken]
    refine ⟨fun address haddress hwithin => ?_, h.inside, fun address haddress => ?_, h.known,
      h.none⟩
    · rcases hwithin with hmem | hreserved
      · rcases within_append.mp hmem with hold | hnew
        · exact h.first address haddress (Or.inl hold)
        · have hboth := (hcovers address).mpr ⟨haddress, hnew⟩
          have hlater := not_and.mp htaken (size_ne_zero hboth)
          rw [BitVec.lt_def] at hlater
          exact Nat.le_trans (Nat.not_lt.mp hlater) hboth.1
      · exact h.first address haddress (Or.inr hreserved)
    · have hlabel := h.labelled address haddress
      cases hkind : next.kind with
      | Memory =>
          rw [hkind] at hlabel
          exact ⟨within_append.mpr (Or.inl hlabel.1), hlabel.2⟩
      | Reserved =>
          rw [hkind] at hlabel
          exact hlabel
      | Unknown => exact absurd hkind (h.known (size_ne_zero haddress))

/-- **What both loops choose.** -/
theorem nextRegion_chosen (hremaining : remaining.Fits)
    (hmem : ∀ region ∈ memRegions, region.Fits)
    (hreserved : ∀ region ∈ reservedRegions, region.Fits) :
    Chosen memRegions reservedRegions remaining
      (nextRegion memRegions reservedRegions remaining) := by
  have hfirst : Chosen [] reservedRegions remaining
        (reservedRegions.foldl (considerReserved remaining) noRegion) ∧
      ((reservedRegions.foldl (considerReserved remaining) noRegion).region.size ≠ 0 →
        (reservedRegions.foldl (considerReserved remaining) noRegion).kind = .Reserved) := by
    induction reservedRegions using List.reverseRecOn with
    | nil => exact ⟨noRegion_chosen, fun h => absurd rfl h⟩
    | append_singleton seen region ih =>
        obtain ⟨hseen, hlast⟩ := List.forall_mem_append.mp hreserved
        obtain ⟨hchosen, hkind⟩ := ih hseen
        rw [List.foldl_append]
        exact considerReserved_chosen hremaining (hlast region (List.mem_singleton_self _)) hchosen
          hkind
  unfold nextRegion
  induction memRegions using List.reverseRecOn with
  | nil => exact hfirst.1
  | append_singleton seen region ih =>
      obtain ⟨hseen, hlast⟩ := List.forall_mem_append.mp hmem
      rw [List.foldl_append]
      exact considerMemory_chosen hremaining (hlast region (List.mem_singleton_self _)) (ih hseen)

end Chosen

/-! ## The partition -/

/-- The regions follow each other from `start` to `limit`, and none of them is empty. -/
def Consecutive : ℕ → List AnnotatedRegion → ℕ → Prop
  | start, [], limit => start = limit
  | start, annotated :: rest, limit =>
      annotated.region.start.toNat = start ∧ 0 < annotated.region.size.toNat ∧
        Consecutive annotated.region.limit rest limit

/-- Every address in a region has the label of the region. -/
def AllLabelled (memRegions reservedRegions : List PhysicalRegion)
    (regions : List AnnotatedRegion) : Prop :=
  ∀ annotated ∈ regions, ∀ address, annotated.region.Covers address →
    Labelled memRegions reservedRegions address annotated.kind

section Sweep

variable {memRegions reservedRegions : List PhysicalRegion} {remaining : PhysicalRegion}
  {next : AnnotatedRegion}

theorem Chosen.before (h : Chosen memRegions reservedRegions remaining next) {address : ℕ}
    (hcovers : remaining.Covers address) (hbefore : address < next.region.start.toNat) :
    Labelled memRegions reservedRegions address .Unknown :=
  ⟨fun hmem => Nat.not_lt.mpr (h.first address hcovers (Or.inl hmem)) hbefore,
    fun hreserved => Nat.not_lt.mpr (h.first address hcovers (Or.inr hreserved)) hbefore⟩

theorem Chosen.bounds (h : Chosen memRegions reservedRegions remaining next)
    (hsize : next.region.size ≠ 0) : remaining.start.toNat ≤ next.region.start.toNat ∧
      0 < next.region.size.toNat ∧ next.region.limit ≤ remaining.limit := by
  obtain ⟨-, hinside⟩ := h.inside hsize
  have hpos : 0 < next.region.size.toNat :=
    Nat.pos_of_ne_zero fun hzero => hsize (BitVec.eq_of_toNat_eq hzero)
  have hstart := hinside _ (covers_start hsize)
  have hlast : next.region.Covers (next.region.limit - 1) := by
    unfold PhysicalRegion.Covers PhysicalRegion.limit
    omega
  have hend := (hinside _ hlast).2
  refine ⟨hstart.1, hpos, ?_⟩
  unfold PhysicalRegion.limit at *
  omega

theorem Chosen.rest (h : Chosen memRegions reservedRegions remaining next)
    (hsize : next.region.size ≠ 0) {rest : PhysicalRegion}
    (hrest : rest =
      ⟨next.region.endPtr, remaining.size - (next.region.endPtr - remaining.start)⟩) :
    rest.start.toNat = next.region.limit ∧ rest.limit = remaining.limit ∧
      rest.size.toNat < remaining.size.toNat := by
  obtain ⟨hstart, hpos, hlimit⟩ := h.bounds hsize
  have hend := toNat_endPtr (h.inside hsize).1
  have hle : remaining.start.toNat ≤ next.region.endPtr.toNat := by
    unfold PhysicalRegion.limit at hend
    omega
  have hgone : (next.region.endPtr - remaining.start).toNat =
      next.region.endPtr.toNat - remaining.start.toNat := BitVec.toNat_sub_of_le hle
  have hleft : (remaining.size - (next.region.endPtr - remaining.start)).toNat =
      remaining.size.toNat - (next.region.endPtr.toNat - remaining.start.toNat) := by
    rw [← hgone]
    refine BitVec.toNat_sub_of_le ?_
    rw [BitVec.le_def, hgone]
    unfold PhysicalRegion.limit at *
    omega
  have hrestSize := congrArg (fun region => region.size.toNat) hrest
  have hrestStart := congrArg (fun region => region.start.toNat) hrest
  dsimp only at hrestSize hrestStart
  rw [hleft] at hrestSize
  unfold PhysicalRegion.limit at *
  omega

theorem Chosen.added (h : Chosen memRegions reservedRegions remaining next)
    (hsize : next.region.size ≠ 0) {between regions : List AnnotatedRegion} {limit : ℕ}
    (hbetween : between = if next.region.start ≠ remaining.start then
        [⟨⟨remaining.start, next.region.start - remaining.start⟩, .Unknown⟩] else [])
    (hrest : Consecutive next.region.limit regions limit)
    (hlabels : AllLabelled memRegions reservedRegions regions) :
    Consecutive remaining.start.toNat (between ++ next :: regions) limit ∧
      AllLabelled memRegions reservedRegions (between ++ next :: regions) := by
  obtain ⟨hstart, hpos, hlimit⟩ := h.bounds hsize
  have hlabelled : AllLabelled memRegions reservedRegions (next :: regions) :=
    List.forall_mem_cons.mpr ⟨h.labelled, hlabels⟩
  subst hbetween
  split_ifs with hgap
  · have hne : remaining.start.toNat ≠ next.region.start.toNat := fun heq =>
      hgap (BitVec.eq_of_toNat_eq heq).symm
    have hsub : (next.region.start - remaining.start).toNat =
        next.region.start.toNat - remaining.start.toNat := BitVec.toNat_sub_of_le hstart
    have hgapLimit : (⟨remaining.start, next.region.start - remaining.start⟩ :
        PhysicalRegion).limit = next.region.start.toNat := by
      unfold PhysicalRegion.limit
      rw [hsub]
      exact Nat.add_sub_cancel' hstart
    refine ⟨⟨rfl, ?_, hgapLimit.symm, hpos, hrest⟩, List.forall_mem_cons.mpr ⟨?_, hlabelled⟩⟩
    · rw [hsub]
      omega
    · intro address haddress
      have hbefore : address < next.region.start.toNat := hgapLimit ▸ haddress.2
      refine h.before ⟨haddress.1, ?_⟩ hbefore
      unfold PhysicalRegion.limit at hlimit ⊢
      omega
  · have heq : next.region.start = remaining.start := not_not.mp hgap
    exact ⟨⟨by rw [heq], hpos, hrest⟩, hlabelled⟩

theorem Chosen.nothing (h : Chosen memRegions reservedRegions remaining next)
    (hremaining : remaining.Fits) (hsize : next.region.size = 0) {address : ℕ}
    (hcovers : remaining.Covers address) :
    Labelled memRegions reservedRegions address .Unknown := by
  refine h.before hcovers ?_
  have hlast : next.region.start.toNat = 2 ^ 64 - 1 := by
    rw [h.none hsize]
    rfl
  have hlt := hcovers.2
  unfold PhysicalRegion.Fits at hremaining
  omega

/-- The outer loop ends, and partitions what remains. -/
theorem sweep_spec (hmem : ∀ region ∈ memRegions, region.Fits)
    (hreserved : ∀ region ∈ reservedRegions, region.Fits) {fuel : ℕ} (hremaining : remaining.Fits)
    (hfuel : remaining.size.toNat < fuel) :
    ∃ regions, sweep memRegions reservedRegions fuel remaining = some regions ∧
      Consecutive remaining.start.toNat regions remaining.limit ∧
      AllLabelled memRegions reservedRegions regions := by
  induction fuel generalizing remaining with
  | zero => exact absurd hfuel (Nat.not_lt_zero _)
  | succ fuel ih =>
      have hchosen := nextRegion_chosen hremaining hmem hreserved
      rw [sweep]
      by_cases hempty : remaining.size = 0
      · rw [if_pos hempty]
        refine ⟨[], rfl, ?_, List.forall_mem_nil _⟩
        show remaining.start.toNat = remaining.start.toNat + remaining.size.toNat
        rw [hempty]
        rfl
      · rw [if_neg hempty]
        dsimp only
        by_cases hsize : (nextRegion memRegions reservedRegions remaining).region.size ≠ 0
        · rw [if_pos hsize]
          obtain ⟨rest, hrest⟩ : ∃ rest : PhysicalRegion, rest =
              ⟨(nextRegion memRegions reservedRegions remaining).region.endPtr, remaining.size -
                ((nextRegion memRegions reservedRegions remaining).region.endPtr -
                  remaining.start)⟩ := ⟨_, rfl⟩
          obtain ⟨hstart, hlimit, hless⟩ := hchosen.rest hsize hrest
          have hfits : rest.Fits := by
            unfold PhysicalRegion.Fits
            rw [hlimit]
            exact hremaining
          obtain ⟨regions, hrun, hconsecutive, hlabels⟩ := ih hfits (by omega)
          rw [hstart, hlimit] at hconsecutive
          obtain ⟨hall, hallLabels⟩ := hchosen.added hsize rfl hconsecutive hlabels
          rw [← hrest, hrun]
          exact ⟨_, rfl, hall, hallLabels⟩
        · rw [if_neg hsize]
          have hend := toNat_endPtr hremaining
          have hpos : 0 < remaining.size.toNat :=
            Nat.pos_of_ne_zero fun hzero => hempty (BitVec.eq_of_toNat_eq hzero)
          have hdone : (⟨remaining.endPtr, 0⟩ : PhysicalRegion).limit = remaining.limit := hend
          have hfits : (⟨remaining.endPtr, 0⟩ : PhysicalRegion).Fits := by
            unfold PhysicalRegion.Fits
            rw [hdone]
            exact hremaining
          have hfuel' : (⟨remaining.endPtr, 0⟩ : PhysicalRegion).size.toNat < fuel := by
            show 0 < fuel
            omega
          obtain ⟨regions, hrun, hconsecutive, hlabels⟩ := ih hfits hfuel'
          rw [hrun]
          rw [hdone] at hconsecutive
          refine ⟨_, rfl, ⟨rfl, hpos, hend ▸ hconsecutive⟩, List.forall_mem_cons.mpr
            ⟨fun address haddress => ?_, hlabels⟩⟩
          exact hchosen.nothing hremaining (not_not.mp hsize) haddress

end Sweep

/-- **The regions partition the addresses below `2^48`**, and each address has the label that the
lists give it, whatever their order and overlaps. -/
theorem processMemoryRegions_partitions (memRegions reservedRegions : List PhysicalRegion)
    (hmem : ∀ region ∈ memRegions, region.start.toNat + region.size.toNat < 2 ^ 64)
    (hreserved : ∀ region ∈ reservedRegions, region.start.toNat + region.size.toNat < 2 ^ 64) :
    ∃ regions, processMemoryRegions memRegions reservedRegions = some regions ∧
      Consecutive 0 regions (2 ^ 48) ∧ AllLabelled memRegions reservedRegions regions :=
  sweep_spec hmem hreserved (by decide) (by decide)

/-- Two pieces of memory that overlap, the second before the first, and a reserved region in the
middle of both. -/
theorem processMemoryRegions_partitions_overlapping :
    ∃ regions, processMemoryRegions [⟨0x2000, 0x4000⟩, ⟨0x1000, 0x2000⟩] [⟨0x2800, 0x1000⟩] =
        some regions ∧
      Consecutive 0 regions (2 ^ 48) ∧
      AllLabelled [⟨0x2000, 0x4000⟩, ⟨0x1000, 0x2000⟩] [⟨0x2800, 0x1000⟩] regions :=
  processMemoryRegions_partitions _ _ (by decide) (by decide)

example : processMemoryRegions [⟨0x2000, 0x4000⟩, ⟨0x1000, 0x2000⟩] [⟨0x2800, 0x1000⟩] =
    some [⟨⟨0, 0x1000⟩, .Unknown⟩, ⟨⟨0x1000, 0x1000⟩, .Memory⟩, ⟨⟨0x2000, 0x800⟩, .Memory⟩,
      ⟨⟨0x2800, 0x1000⟩, .Reserved⟩, ⟨⟨0x3800, 0x2800⟩, .Memory⟩,
      ⟨⟨0x6000, 0xFFFFFFFFA000⟩, .Unknown⟩] := by
  decide +kernel

end MemoryRegions

end BekOS
