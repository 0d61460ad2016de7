import BekOS.Mm.SpaceBuilding

/-!
# Hints to `place_region`

`place_region` may be told where a region is to go.  What it refuses, what it accepts, and where
the assertion of `map_into_table` fails is told by three things: the size of the backing region,
which it rounds up to whole pages, the end of user space, and the regions that are there.
-/

namespace BekOS

/-! ## What a call is to do -/

/-- The range has no address behind user space. -/
def UserRegion.InUserSpace (region : UserRegion) : Prop := region.limit ≤ userAddrMax.toNat + 1
deriving Decidable

/-- None of the regions has a part of the range. -/
def UserRegion.Free (region : UserRegion) (regions : List UserspaceRegion) : Prop :=
  ∀ other ∈ regions, other.userRegion.limit ≤ region.start.toNat ∨
    region.limit ≤ other.userRegion.start.toNat
deriving Decidable

/-- There are regions, and the range comes before them. -/
def UserRegion.GoesFirst (region : UserRegion) (regions : List UserspaceRegion) : Prop :=
  regions ≠ [] ∧ ∀ other ∈ regions, region.limit ≤ other.userRegion.start.toNat

/-- What `map_into_table` asserts, at offset 0. -/
def BackingRegion.Mappable (backing : BackingRegion) (region : UserRegion) : Prop :=
  region.pageAligned = true ∧ region.size ≤ backing.size

/-- The attributes of a mapping that allows these operations. -/
def MemoryOperation.attributes (allowed : MemoryOperation) : U64 :=
  attributesForUser (allowed &&& .read != .none) (allowed &&& .write != .none)
    (allowed &&& .execute != .none)

section Calls

variable {σ : Type} (source : TableSource σ) (space : SpaceManager σ)

/-- The page allocator has no page for one of the tables of a mapping: `allocate_table` takes
what an empty `optional` holds. -/
def OutOfTables (region : UserRegion) (allowedOperations : MemoryOperation)
    (backing : BackingRegion) : Prop :=
  backing.Mappable region ∧
    mapRegion source space.root space.tables region.start backing.physicalPtr region.size
      allowedOperations.attributes backing.kind.attrIdx.toU64 = none

/-- What a call of `place_region` is to do. -/
structure PlacesRight (location : Option U64) (allowedOperations : MemoryOperation)
    (name : String) (backing : BackingRegion) : Prop where
  /-- No assertion fails, unless there is no page for a table. -/
  verified : placeRegion source space location allowedOperations name backing = .error .panic →
    OutOfTables source space (desiredRegion space.regions location backing.size)
      allowedOperations backing
  /-- A misaligned hint is refused. -/
  refused : ∀ hint, location = some hint → hint.toNat % 4096 ≠ 0 → ∃ after code,
    placeRegion source space location allowedOperations name backing = .ok (after, .error code)
  /-- A page-aligned hint that fits and is free is accepted, unless there is no page for a
  table. -/
  accepted : ∀ hint, location = some hint → hint.toNat % 4096 = 0 →
    (desiredRegion space.regions location backing.size).InUserSpace →
    (desiredRegion space.regions location backing.size).Free space.regions →
    (∃ after, placeRegion source space location allowedOperations name backing =
        .ok (after, .ok (desiredRegion space.regions location backing.size))) ∨
      placeRegion source space location allowedOperations name backing = .error .panic

/-- `place_region` finds a place: the location plus the size, in 64 bits, is in user space, and
no region overlaps, as the code has it. -/
def FindsPlace (regions : List UserspaceRegion) (location : Option U64) (size : U64) : Prop :=
  placeLocation regions location + size ≤ userAddrMax ∧
    ∀ region ∈ regions, region.userRegion.overlaps (desiredRegion regions location size) = false

/-- What `place_region` has to be given: a backing region of whole pages and an aligned hint,
where it finds a place; and where the hint is to be accepted, memory that begins with a page, a
range that does not end where user space does, and no later region. -/
structure PlacesWell (location : Option U64) (allowedOperations : MemoryOperation)
    (backing : BackingRegion) : Prop where
  whole : FindsPlace space.regions location backing.size →
    (∀ hint, location = some hint → hint.toNat % 4096 = 0) ∧ backing.size.toNat % 4096 = 0
  inside : ∀ hint, location = some hint → hint.toNat % 4096 = 0 →
    (desiredRegion space.regions location backing.size).InUserSpace →
    (desiredRegion space.regions location backing.size).Free space.regions →
    (desiredRegion space.regions location backing.size).limit ≤ userAddrMax.toNat ∧
      backing.physicalPtr.toNat % 4096 = 0 ∧
      ((desiredRegion space.regions location backing.size).GoesFirst space.regions →
        OutOfTables source space (desiredRegion space.regions location backing.size)
          allowedOperations backing)

end Calls

/-! ## The place of a region -/

section Position

variable {regions : List UserspaceRegion} {desired : UserRegion}

/-- The loop of `place_region` stops at a region that starts behind, and misses none that
overlaps. -/
theorem insertPosition_eq_none (ordered : RegionsOrdered regions) :
    insertPosition desired regions = none ↔
      ∃ region ∈ regions, region.userRegion.overlaps desired = true := by
  induction regions with
  | nil => simp [insertPosition]
  | cons region rest ih =>
      have hrest := ih (ordered.sublist (List.sublist_cons_self _ _))
      rw [insertPosition]
      split_ifs with hoverlap hbehind
      · exact iff_of_true rfl ⟨region, List.mem_cons_self, hoverlap⟩
      · refine iff_of_false not_false ?_
        rintro ⟨other, hother, hsame⟩
        rcases List.mem_cons.mp hother with rfl | hother
        · exact hoverlap hsame
        · -- The others start behind too.
          have hnext := (List.pairwise_cons.mp ordered.ordered).1 other hother
          have hstart := region.userRegion.start_le_limit
          rw [UserRegion.overlaps, Bool.and_eq_true, decide_eq_true_iff, decide_eq_true_iff,
            gt_iff_lt, BitVec.lt_def, BitVec.lt_def] at hsame
          have hbehind' : desired.endPtr.toNat ≤ region.userRegion.start.toNat := hbehind
          omega
      · rw [Option.map_eq_none_iff, hrest]
        constructor
        · rintro ⟨other, hother, hsame⟩
          exact ⟨other, List.mem_cons_of_mem _ hother, hsame⟩
        · rintro ⟨other, hother, hsame⟩
          rcases List.mem_cons.mp hother with rfl | hother
          · exact absurd hsame hoverlap
          · exact ⟨other, hother, hsame⟩

theorem insertPosition_eq_zero (fits : desired.Fits) (hne : regions ≠ [])
    (ordered : RegionsOrdered regions) (free : desired.Free regions) :
    insertPosition desired regions = some 0 ↔ desired.GoesFirst regions := by
  cases regions with
  | nil => exact absurd rfl hne
  | cons region rest =>
      have hnot : region.userRegion.overlaps desired = false := by
        rw [← Bool.not_eq_true, UserRegion.overlaps_iff (ordered.fits List.mem_cons_self) fits]
        have := free region List.mem_cons_self
        omega
      have hstart : region.userRegion.start ≥ desired.endPtr ↔
          desired.limit ≤ region.userRegion.start.toNat := by
        rw [ge_iff_le, BitVec.le_def, fits.toNat_endPtr]
      rw [insertPosition, if_neg (Bool.not_eq_true _ ▸ hnot)]
      split_ifs with hbehind
      · refine iff_of_true rfl ⟨hne, fun other hother => ?_⟩
        rw [hstart] at hbehind
        rcases List.mem_cons.mp hother with rfl | hother
        · exact hbehind
        · have hnext := (List.pairwise_cons.mp ordered.ordered).1 other hother
          exact hbehind.trans (region.userRegion.start_le_limit.trans hnext)
      · refine iff_of_false (fun h => ?_) fun first =>
          hbehind (hstart.mpr (first.2 _ List.mem_cons_self))
        obtain ⟨j, -, hj⟩ := Option.map_eq_some_iff.mp h
        exact absurd hj (Nat.succ_ne_zero j)

end Position

/-! ## How `place_region` ends -/

section Place

variable {σ : Type} {source : TableSource σ} {space : SpaceManager σ} {location : Option U64}
  {allowedOperations : MemoryOperation} {name : String} {backing : BackingRegion}

theorem toNat_desiredSize (backing : BackingRegion) :
    (ceilDiv backing.size pageSize * pageSize).toNat =
      (backing.size.toNat + 4095) / 4096 * 4096 := by
  have hsize := backing.inMemory
  rw [BitVec.toNat_mul, toNat_ceilDiv_pageSize (by omega), toNat_pageSize]
  omega

theorem placeLocation_none (regions : List UserspaceRegion) :
    (placeLocation regions none).toNat % 4096 = 0 := by
  unfold placeLocation
  cases regions.getLast? with
  | none => rfl
  | some last =>
      show (ceilDiv last.userRegion.endPtr pageSize * pageSize).toNat % 4096 = 0
      rw [BitVec.toNat_mul, toNat_pageSize]
      omega

theorem mappable_iff (regions : List UserspaceRegion) :
    backing.Mappable (desiredRegion regions location backing.size) ↔
      (∀ hint, location = some hint → hint.toNat % 4096 = 0) ∧ backing.size.toNat % 4096 = 0 := by
  have hround := toNat_desiredSize backing
  have hstart : (placeLocation regions location).toNat % 4096 = 0 ↔
      ∀ hint, location = some hint → hint.toNat % 4096 = 0 := by
    cases location with
    | none => exact iff_of_true (placeLocation_none regions) nofun
    | some hint =>
        refine ⟨fun h other heq => ?_, fun h => h hint rfl⟩
        cases heq
        exact h
  unfold BackingRegion.Mappable
  rw [UserRegion.pageAligned_iff, BitVec.le_def, ← hstart]
  show ((placeLocation regions location).toNat % 4096 = 0 ∧
    (ceilDiv backing.size pageSize * pageSize).toNat % 4096 = 0) ∧
    (ceilDiv backing.size pageSize * pageSize).toNat ≤ backing.size.toNat ↔ _
  rw [hround]
  omega

variable {regions : List UserspaceRegion} {hint : U64}

theorem addRegion_of_pos {i : ℕ} (hi : i ≤ regions.length) (hpos : 0 < i ∨ regions = [])
    (region : UserspaceRegion) :
    addRegion regions i region = .ok (regions.insertIdx i region) := by
  unfold addRegion
  split_ifs with hlast
  · rw [hlast, List.insertIdx_length_self]
  · have hlt : i < regions.length := Nat.lt_of_le_of_ne hi hlast
    rcases hpos with hpos | rfl
    · rw [vectorInsert, verify_of hlt, ok_bind, if_neg (Nat.pos_iff_ne_zero.mp hpos)]
    · exact absurd hlt (Nat.not_lt_zero i)

theorem addRegion_zero (hne : regions ≠ []) (region : UserspaceRegion) :
    addRegion regions 0 region = .error .outOfBounds := by
  have hlength : 0 < regions.length := List.length_pos_iff.mpr hne
  rw [addRegion, if_neg hlength.ne, vectorInsert, verify_of hlength, ok_bind, if_pos rfl]

theorem addRegion_ne_panic {i : ℕ} (hi : i ≤ regions.length) {region : UserspaceRegion} :
    addRegion regions i region ≠ .error .panic := by
  intro h
  by_cases hpos : 0 < i ∨ regions = []
  · rw [addRegion_of_pos hi hpos] at h
    cases h
  · obtain ⟨hzero, hne⟩ := not_or.mp hpos
    obtain rfl := Nat.eq_zero_of_not_pos hzero
    rw [addRegion_zero hne] at h
    cases h

section

variable (source allowedOperations name)

theorem placeRegion_of_not_findsPlace (ordered : RegionsOrdered space.regions)
    (h : ¬ FindsPlace space.regions location backing.size) :
    ∃ code, placeRegion source space location allowedOperations name backing =
      .ok (space, .error code) := by
  unfold placeRegion
  dsimp only
  by_cases hend : placeLocation space.regions location + backing.size ≤ userAddrMax
  · refine ⟨.EADDRINUSE, ?_⟩
    have hnone : insertPosition (desiredRegion space.regions location backing.size)
        space.regions = none := by
      rw [insertPosition_eq_none ordered]
      by_contra hnot
      refine h ⟨hend, fun region hregion => ?_⟩
      rw [← Bool.not_eq_true]
      exact fun hoverlap => hnot ⟨region, hregion, hoverlap⟩
    rw [hnone]
    exact if_neg (BitVec.not_lt.mpr hend)
  · exact ⟨.EINVAL, if_pos (BitVec.not_le.mp hend)⟩

theorem placeRegion_of_findsPlace (ordered : RegionsOrdered space.regions)
    (h : FindsPlace space.regions location backing.size) :
    ∃ i, insertPosition (desiredRegion space.regions location backing.size) space.regions =
        some i ∧
      placeRegion source space location allowedOperations name backing =
        (placedMapping source space location allowedOperations backing >>= fun mapped =>
          if mapped.2 ≠ .ESUCCESS then
            .ok ({ space with tables := mapped.1 }, .error mapped.2)
          else
            addRegion space.regions i
                (placedRegion space.regions location allowedOperations name backing) >>=
              fun regions => .ok ({ space with regions, tables := mapped.1 },
                .ok (desiredRegion space.regions location backing.size))) := by
  cases hposition : insertPosition (desiredRegion space.regions location backing.size)
      space.regions with
  | none =>
      obtain ⟨region, hregion, hoverlap⟩ := (insertPosition_eq_none ordered).mp hposition
      rw [h.2 region hregion] at hoverlap
      cases hoverlap
  | some i =>
      refine ⟨i, rfl, ?_⟩
      unfold placeRegion
      dsimp only
      rw [hposition]
      exact if_neg (BitVec.not_lt.mpr h.1)

end

/-- The mapping that `place_region` asks `map_region` for. -/
def placedPages (source : TableSource σ) (space : SpaceManager σ) (location : Option U64)
    (allowedOperations : MemoryOperation) (backing : BackingRegion) :
    Option (TableState σ × Bool) :=
  mapRegion source space.root space.tables
    (desiredRegion space.regions location backing.size).start backing.physicalPtr
    (desiredRegion space.regions location backing.size).size
    allowedOperations.attributes backing.kind.attrIdx.toU64

theorem placedMapping_of_not_mappable
    (h : ¬ backing.Mappable (desiredRegion space.regions location backing.size)) :
    placedMapping source space location allowedOperations backing = .error .panic := by
  unfold placedMapping
  rw [mapIntoTable_eq, mapWith, verify_of_not]
  · rfl
  · rintro ⟨haligned, -, hsize⟩
    exact h ⟨haligned, by simpa using hsize⟩

theorem placedMapping_of_mappable
    (h : backing.Mappable (desiredRegion space.regions location backing.size)) :
    placedMapping source space location allowedOperations backing =
      match placedPages source space location allowedOperations backing with
      | some (tables, done) => .ok (tables, if done then .ESUCCESS else .EFAIL)
      | none => .error .panic := by
  unfold placedMapping
  rw [mapIntoTable_eq, mapWith, verify_of]
  · rfl
  · exact ⟨h.1, rfl, by simpa using h.2⟩

theorem placeRegion_of_mapped (source : TableSource σ) (allowedOperations : MemoryOperation)
    (name : String) (ordered : RegionsOrdered space.regions)
    (finds : FindsPlace space.regions location backing.size)
    (mappable : backing.Mappable (desiredRegion space.regions location backing.size)) :
    ∃ i, insertPosition (desiredRegion space.regions location backing.size) space.regions =
        some i ∧
      placeRegion source space location allowedOperations name backing =
        match placedPages source space location allowedOperations backing with
        | none => .error .panic
        | some (tables, false) => .ok ({ space with tables }, .error .EFAIL)
        | some (tables, true) =>
            addRegion space.regions i
                (placedRegion space.regions location allowedOperations name backing) >>=
              fun regions => .ok ({ space with regions, tables },
                .ok (desiredRegion space.regions location backing.size)) := by
  obtain ⟨i, hposition, heq⟩ :=
    placeRegion_of_findsPlace source allowedOperations name ordered finds
  refine ⟨i, hposition, ?_⟩
  rw [heq, placedMapping_of_mappable mappable]
  cases placedPages source space location allowedOperations backing with
  | none => rfl
  | some mapped =>
      obtain ⟨tables, done⟩ := mapped
      cases done
      · rfl
      · rfl

/-- **`place_region` panics** where it finds a place for what `map_into_table` may not be given,
or where there is no page for a table. -/
theorem placeRegion_panics_iff (ordered : RegionsOrdered space.regions) :
    placeRegion source space location allowedOperations name backing = .error .panic ↔
      FindsPlace space.regions location backing.size ∧
        (¬ backing.Mappable (desiredRegion space.regions location backing.size) ∨
          OutOfTables source space (desiredRegion space.regions location backing.size)
            allowedOperations backing) := by
  by_cases hfinds : FindsPlace space.regions location backing.size
  · by_cases hmappable : backing.Mappable (desiredRegion space.regions location backing.size)
    · obtain ⟨i, hposition, heq⟩ :=
        placeRegion_of_mapped source allowedOperations name ordered hfinds hmappable
      rw [heq]
      have hout : OutOfTables source space (desiredRegion space.regions location backing.size)
          allowedOperations backing ↔
          placedPages source space location allowedOperations backing = none :=
        and_iff_right hmappable
      rw [hout, and_iff_right hfinds, or_iff_right (not_not.mpr hmappable)]
      cases placedPages source space location allowedOperations backing with
      | none => exact iff_of_true rfl rfl
      | some mapped =>
          obtain ⟨tables, done⟩ := mapped
          refine iff_of_false (fun h => ?_) nofun
          cases done with
          | false => cases h
          | true =>
              rcases bind_eq_error.mp h with hadd | ⟨_, _, hok⟩
              · exact addRegion_ne_panic (insertPosition_le hposition) hadd
              · cases hok
    · obtain ⟨i, -, heq⟩ :=
        placeRegion_of_findsPlace source allowedOperations name ordered hfinds
      rw [heq, placedMapping_of_not_mappable hmappable]
      exact iff_of_true rfl ⟨hfinds, Or.inl hmappable⟩
  · obtain ⟨code, heq⟩ :=
      placeRegion_of_not_findsPlace source allowedOperations name ordered hfinds
    rw [heq]
    exact iff_of_false nofun fun h => hfinds h.1

theorem findsPlace_of_free (ordered : RegionsOrdered space.regions)
    (hlimit : (desiredRegion space.regions (some hint) backing.size).limit ≤ userAddrMax.toNat)
    (free : (desiredRegion space.regions (some hint) backing.size).Free space.regions) :
    FindsPlace space.regions (some hint) backing.size := by
  have hround := toNat_desiredSize backing
  have hfits : (desiredRegion space.regions (some hint) backing.size).Fits :=
    lt_of_le_of_lt hlimit (by decide)
  have hsum : hint.toNat + (ceilDiv backing.size pageSize * pageSize).toNat ≤
      userAddrMax.toNat := hlimit
  rw [toNat_userAddrMax, hround] at hsum
  constructor
  · show hint + backing.size ≤ userAddrMax
    rw [BitVec.le_def, BitVec.toNat_add, toNat_userAddrMax]
    omega
  · intro region hregion
    rw [← Bool.not_eq_true, UserRegion.overlaps_iff (ordered.fits hregion) hfits]
    have := free region hregion
    omega

/-- **`place_region` accepts** a free range of whole pages that is not to go first. -/
theorem placeRegion_accepts (ok : SpaceOk source space)
    (hlimit : (desiredRegion space.regions (some hint) backing.size).limit ≤ userAddrMax.toNat)
    (free : (desiredRegion space.regions (some hint) backing.size).Free space.regions)
    (mappable : backing.Mappable (desiredRegion space.regions (some hint) backing.size))
    (hphys : backing.physicalPtr.toNat % 4096 = 0)
    (tables : ¬ OutOfTables source space (desiredRegion space.regions (some hint) backing.size)
      allowedOperations backing)
    (notFirst : ¬ (desiredRegion space.regions (some hint) backing.size).GoesFirst
      space.regions) :
    ∃ after, placeRegion source space (some hint) allowedOperations name backing =
      .ok (after, .ok (desiredRegion space.regions (some hint) backing.size)) := by
  have hfits : (desiredRegion space.regions (some hint) backing.size).Fits :=
    lt_of_le_of_lt hlimit (by decide)
  obtain ⟨i, hposition, heq⟩ := placeRegion_of_mapped source allowedOperations name ok.ordered
    (findsPlace_of_free ok.ordered hlimit free) mappable
  obtain ⟨hstart, hsize⟩ := (UserRegion.pageAligned_iff _).mp mappable.1
  rw [heq]
  cases hpages : placedPages source space (some hint) allowedOperations backing with
  | none => exact absurd ⟨mappable, hpages⟩ tables
  | some mapped =>
      obtain ⟨after, done⟩ := mapped
      obtain rfl : done = true := by
        refine mapRegion_done ok.tree (insideHalf_of_bounded hlimit) hstart hphys hsize
          (fun virt hin => ?_) hpages
        refine ok.describes.outside virt fun other hother hcovers => ?_
        have hapart := free other hother
        have hlow : (desiredRegion space.regions (some hint) backing.size).start.toNat ≤
          virt.toNat := hin.1
        have hhigh : virt.toNat <
          (desiredRegion space.regions (some hint) backing.size).limit := hin.2
        unfold UserRegion.Covers at hcovers
        omega
      have hpos : 0 < i ∨ space.regions = [] := by
        by_contra hnot
        obtain ⟨hzero, hne⟩ := not_or.mp hnot
        obtain rfl := Nat.eq_zero_of_not_pos hzero
        exact notFirst ((insertPosition_eq_zero hfits hne ok.ordered free).mp hposition)
      refine ⟨{ space with
        regions := space.regions.insertIdx i
          (placedRegion space.regions (some hint) allowedOperations name backing)
        tables := after }, ?_⟩
      dsimp only
      rw [addRegion_of_pos (insertPosition_le hposition) hpos, ok_bind]

theorem noWrap_of_inUserSpace
    (inside : (desiredRegion regions (some hint) backing.size).InUserSpace) :
    NoWrap (some hint) backing.size := by
  have hround := toNat_desiredSize backing
  have hsum : hint.toNat + (ceilDiv backing.size pageSize * pageSize).toNat ≤
      userAddrMax.toNat + 1 := inside
  rw [toNat_userAddrMax] at hsum
  show hint.toNat + backing.size.toNat < 2 ^ 64
  omega

theorem OutOfTables.of_findsPlace {hint : U64}
    (tables : OutOfTables source space (desiredRegion space.regions (some hint) backing.size)
      allowedOperations backing)
    (inside : (desiredRegion space.regions (some hint) backing.size).InUserSpace)
    (finds : FindsPlace space.regions (some hint) backing.size) :
    (desiredRegion space.regions (some hint) backing.size).limit ≤ userAddrMax.toNat ∧
      backing.physicalPtr.toNat % 4096 = 0 := by
  constructor
  · have hsum : (hint + backing.size).toNat ≤ userAddrMax.toNat := finds.1
    have hnoWrap : hint.toNat + backing.size.toNat < 2 ^ 64 := noWrap_of_inUserSpace inside
    rw [BitVec.toNat_add, Nat.mod_eq_of_lt hnoWrap] at hsum
    exact (Nat.add_le_add_left tables.1.2 _).trans hsum
  · by_contra hphys
    have hnone := tables.2
    rw [mapRegion_of_not_aligned (Or.inr (Or.inl hphys))] at hnone
    cases hnone

theorem of_placeRegion_accepts {after : SpaceManager σ} (ordered : RegionsOrdered space.regions)
    (inside : (desiredRegion space.regions (some hint) backing.size).InUserSpace)
    (free : (desiredRegion space.regions (some hint) backing.size).Free space.regions)
    (h : placeRegion source space (some hint) allowedOperations name backing =
      .ok (after, .ok (desiredRegion space.regions (some hint) backing.size))) :
    (desiredRegion space.regions (some hint) backing.size).limit ≤ userAddrMax.toNat ∧
      backing.physicalPtr.toNat % 4096 = 0 ∧
      ¬ (desiredRegion space.regions (some hint) backing.size).GoesFirst space.regions := by
  have noWrap := noWrap_of_inUserSpace inside
  rcases placeRegion_cases h with ⟨_, _, -, hresult, -⟩ | ⟨i, tables, places, hpos, -, -⟩
  · cases hresult
  obtain ⟨-, hlimit⟩ := places.bounded ordered noWrap
  refine ⟨hlimit, ?_, fun first => ?_⟩
  · by_contra hphys
    obtain ⟨-, -, done, hmap, hcode⟩ := mapIntoTable_cases places.mapped
    rw [mapRegion_of_not_aligned (Or.inr (Or.inl hphys))] at hmap
    obtain ⟨-, rfl⟩ := Prod.mk.inj (Option.some_inj.mp hmap)
    cases hcode
  · have hzero := (insertPosition_eq_zero (lt_of_le_of_lt hlimit (by decide)) first.1 ordered
      free).mpr first
    rw [places.position, Option.some_inj] at hzero
    rcases hpos with hpos | hempty
    · omega
    · exact first.1 hempty

/-- **`place_region` does what it is to do** exactly when it is given what it has to be. -/
theorem placesRight_iff (ok : SpaceOk source space) :
    PlacesRight source space location allowedOperations name backing ↔
      PlacesWell source space location allowedOperations backing := by
  constructor
  · intro right
    refine ⟨fun finds => ?_, fun hint hlocation haligned inside free => ?_⟩
    · rw [← mappable_iff space.regions]
      by_contra hnot
      have hpanic : placeRegion source space location allowedOperations name backing =
          .error .panic := (placeRegion_panics_iff ok.ordered).mpr ⟨finds, Or.inl hnot⟩
      exact hnot (right.verified hpanic).1
    · subst hlocation
      rcases right.accepted hint rfl haligned inside free with ⟨after, haccepted⟩ | hpanic
      · obtain ⟨hlimit, hphys, notFirst⟩ :=
          of_placeRegion_accepts ok.ordered inside free haccepted
        exact ⟨hlimit, hphys, fun first => absurd first notFirst⟩
      · have hout := right.verified hpanic
        obtain ⟨finds, -⟩ := (placeRegion_panics_iff ok.ordered).mp hpanic
        obtain ⟨hlimit, hphys⟩ := hout.of_findsPlace inside finds
        exact ⟨hlimit, hphys, fun _ => hout⟩
  · intro well
    refine ⟨fun hpanic => ?_, fun hint hlocation hmisaligned => ?_,
      fun hint hlocation haligned inside free => ?_⟩
    · obtain ⟨finds, hnot | hout⟩ := (placeRegion_panics_iff ok.ordered).mp hpanic
      · exact absurd ((mappable_iff _).mpr (well.whole finds)) hnot
      · exact hout
    · have hnot : ¬ FindsPlace space.regions location backing.size := fun finds =>
        hmisaligned ((well.whole finds).1 hint hlocation)
      obtain ⟨code, heq⟩ :=
        placeRegion_of_not_findsPlace source allowedOperations name ok.ordered hnot
      exact ⟨space, code, heq⟩
    · subst hlocation
      obtain ⟨hlimit, hphys, hfirst⟩ := well.inside hint rfl haligned inside free
      have finds := findsPlace_of_free ok.ordered hlimit free
      have mappable := (mappable_iff space.regions).mpr (well.whole finds)
      by_cases tables : OutOfTables source space
          (desiredRegion space.regions (some hint) backing.size) allowedOperations backing
      · exact Or.inr ((placeRegion_panics_iff ok.ordered).mpr ⟨finds, Or.inr tables⟩)
      · exact Or.inl (placeRegion_accepts ok hlimit free mappable hphys tables fun first =>
          tables (hfirst first))

end Place

end BekOS
