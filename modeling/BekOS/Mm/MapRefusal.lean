import BekOS.Arch.MapRegion
import BekOS.Mm.SpaceManager

/-!
# What a refused `map_region` leaves behind

`map_upper` and `map_lower` write entries as they go and return false where they come
upon an entry that is in the way; nothing takes the entries back.  So a range is mapped
up to the first address that translates otherwise (`Stopped`), and the tables translate
as before exactly when that much was mapped already.
-/

namespace BekOS

open Strides

universe u

variable {σ : Type u} {source : TableSource σ}

/-! ## `map_region` -/

/-- Every address of either half translates as before. -/
def Untouched (root : Page) (before after : TableMemory) : Prop :=
  ∀ (half : Half) (virt : U64), walk after half root virt = walk before half root virt

/-- Of the addresses of the range one that is in the way comes before all that translate to
nothing. -/
def CollidesFirst (mem : TableMemory) (root : Page) (start y n : ℕ) (flags : U64) : Prop :=
  ∀ virt, InRange 3 start n virt → walkFrom mem 3 root virt = none →
    ∃ earlier, InRange 3 start n earlier ∧ position 3 earlier < position 3 virt ∧
      Collides mem 3 root start y flags earlier

/-- **When a mapping that stopped left nothing behind.** -/
theorem Stopped.untouched_iff {root : Page} {start y n : ℕ} {flags : U64}
    {before after : TableMemory} (h : Stopped 3 root start y n flags before after) :
    Untouched root before after ↔ CollidesFirst before root start y n flags := by
  obtain ⟨k, hk, passed, stop, hstop, hcollides⟩ := h
  constructor
  · intro untouched virt hin hnone
    by_cases hahead : InRange 3 start k virt
    · -- An address that was mapped translates to something now.
      obtain ⟨virt', hvirt', hposition⟩ := exists_virt_of_half .lower virt
      have hsame := untouched .lower virt'
      rw [walk, walk, if_pos hvirt', if_pos hvirt', translateFrom, translateFrom,
        walkFrom_of_position virt hposition, walkFrom_of_position virt hposition, hnone,
        Option.map_none, Option.map_eq_none_iff] at hsame
      exact absurd hsame (passed.translated virt hahead)
    · have hne : position 3 stop ≠ position 3 virt := fun heq => by
        obtain ⟨leaf, hleaf, -⟩ := hcollides
        rw [walkFrom_of_position virt heq, hnone] at hleaf
        cases hleaf
      unfold InRange at hin hahead
      exact ⟨stop, ⟨by omega, by omega⟩, by omega, hcollides⟩
  · intro first half virt
    refine walk_congr fun _ => ?_
    by_cases hahead : InRange 3 start k virt
    · refine (passed.agreed virt hahead fun hnone => ?_).2
      have hin : InRange 3 start n virt := ⟨hahead.1, by unfold InRange at hahead; omega⟩
      obtain ⟨earlier, hearlier, hbefore, leaf, hleaf, hother⟩ := first virt hin hnone
      have hmapped : InRange 3 start k earlier :=
        ⟨hearlier.1, by unfold InRange at hahead; omega⟩
      rw [(passed.agreed earlier hmapped (by rw [hleaf]; exact Option.some_ne_none _)).1] at hleaf
      exact hother (Option.some_inj.mp hleaf).symm
    · exact passed.outside virt hahead

theorem mapRegion_stopped {root : Page} {state state' : TableState σ}
    {virtStart physStart size attrs attrIdx : U64} (ok : TreeOk source state 3 root)
    (hvirt : virtStart.toNat % 4096 = 0) (hphys : physStart.toNat % 4096 = 0)
    (hsize : size.toNat % 4096 = 0)
    (h : mapRegion source root state virtStart physStart size attrs attrIdx =
      some (state', false)) :
    Stopped 3 root (virtStart.toNat % 2 ^ shifts 4) physStart.toNat size.toNat
      (attrs ||| attrIdx <<< 2) state.mem state'.mem := by
  rw [mapRegion_of_aligned hvirt hphys hsize] at h
  obtain ⟨out, hout, heq⟩ := Option.map_eq_some_iff.mp h
  obtain ⟨rfl, hdone⟩ := Prod.mk.inj heq
  exact (mapUpper_spec source (attrs ||| attrIdx <<< 2) 3 le_rfl root state _ _ _ out ok
    hvirt hphys hsize size.isLt hout).progress.stopped hdone

/-! ## `place_region` -/

section Place

variable {σ : Type} {source : TableSource σ} {space space' : SpaceManager σ}
  {location : Option U64} {allowedOperations : MemoryOperation} {name : String}
  {backing : BackingRegion} {code : ErrorCode}

/-- The range is in user space, overlaps no region, and is one of whole pages. -/
def TriesToMap (regions : List UserspaceRegion) (location : Option U64)
    (backing : BackingRegion) : Prop :=
  placeLocation regions location + backing.size ≤ userAddrMax ∧
    insertPosition (desiredRegion regions location backing.size) regions ≠ none ∧
      backing.physicalPtr.toNat % 4096 = 0

/-- The flags of a page that `place_region` maps. -/
def placedFlags (allowedOperations : MemoryOperation) (backing : BackingRegion) : U64 :=
  attributesForUser (allowedOperations &&& .read != .none) (allowedOperations &&& .write != .none)
    (allowedOperations &&& .execute != .none) ||| backing.kind.attrIdx.toU64 <<< 2

/-- `place_region` refuses before it touches the tables, or because `map_region` refused. -/
theorem placeRegion_refused (h : placeRegion source space location allowedOperations name backing =
      .ok (space', .error code)) :
    (space'.tables = space.tables ∧ ¬ TriesToMap space.regions location backing) ∨
      (TriesToMap space.regions location backing ∧
        (desiredRegion space.regions location backing.size).pageAligned = true ∧
        mapRegion source space.root space.tables
          (desiredRegion space.regions location backing.size).start backing.physicalPtr
          (desiredRegion space.regions location backing.size).size
          (attributesForUser (allowedOperations &&& .read != .none)
            (allowedOperations &&& .write != .none) (allowedOperations &&& .execute != .none))
          backing.kind.attrIdx.toU64 = some (space'.tables, false)) := by
  unfold placeRegion at h
  dsimp only at h
  split_ifs at h with hend
  · cases h
    exact Or.inl ⟨rfl, fun htries => absurd htries.1 (BitVec.not_le.mpr hend)⟩
  cases hposition : insertPosition (desiredRegion space.regions location backing.size)
      space.regions with
  | none =>
      rw [hposition] at h
      cases h
      exact Or.inl ⟨rfl, fun htries => htries.2.1 hposition⟩
  | some i =>
      rw [hposition] at h
      obtain ⟨⟨tables, code'⟩, hmapped, hrest⟩ := bind_eq_ok.mp h
      obtain ⟨haligned, -, done, hmap, hcode⟩ := mapIntoTable_cases hmapped
      dsimp only at hrest hmap hcode
      cases done with
      | true =>
          rw [if_pos rfl] at hcode
          rw [if_neg (not_not.mpr hcode)] at hrest
          obtain ⟨regions, -, heq⟩ := bind_eq_ok.mp hrest
          cases heq
      | false =>
          rw [hcode] at hrest
          cases hrest
          by_cases hphys : backing.physicalPtr.toNat % 4096 = 0
          · exact Or.inr ⟨⟨BitVec.not_lt.mp hend, hposition ▸ Option.some_ne_none i, hphys⟩,
              haligned, hmap⟩
          · rw [mapRegion_of_not_aligned (Or.inr (Or.inl hphys))] at hmap
            cases hmap
            exact Or.inl ⟨rfl, fun htries => hphys htries.2.2⟩

/-- **When a refusal leaves every translation as it was**: by `map_region`, if an address
that is in the way comes before all of the range that translate to nothing; by
`place_region`, if that holds where it gets as far as the tables. -/
theorem refused_untouched_iff (ok : TreeOk source space.tables 3 space.root) :
    (∀ {virtStart physStart size attrs attrIdx : U64} {tables : TableState σ},
      virtStart.toNat % 4096 = 0 → physStart.toNat % 4096 = 0 → size.toNat % 4096 = 0 →
      mapRegion source space.root space.tables virtStart physStart size attrs attrIdx =
        some (tables, false) →
      (Untouched space.root space.tables.mem tables.mem ↔
        CollidesFirst space.tables.mem space.root (virtStart.toNat % 2 ^ shifts 4)
          physStart.toNat size.toNat (attrs ||| attrIdx <<< 2))) ∧
      ∀ {location : Option U64} {allowedOperations : MemoryOperation} {name : String}
        {backing : BackingRegion} {space' : SpaceManager σ} {code : ErrorCode},
        placeRegion source space location allowedOperations name backing =
          .ok (space', .error code) →
        (Untouched space.root space.tables.mem space'.tables.mem ↔
          (TriesToMap space.regions location backing →
            CollidesFirst space.tables.mem space.root
              ((desiredRegion space.regions location backing.size).start.toNat % 2 ^ shifts 4)
              backing.physicalPtr.toNat
              (desiredRegion space.regions location backing.size).size.toNat
              (placedFlags allowedOperations backing))) := by
  refine ⟨fun hvirt hphys hsize h => (mapRegion_stopped ok hvirt hphys hsize h).untouched_iff,
    fun h => ?_⟩
  rcases placeRegion_refused h with ⟨htables, hnot⟩ | ⟨htries, haligned, hmap⟩
  · rw [htables]
    exact iff_of_true (fun _ _ => rfl) fun htries => absurd htries hnot
  · obtain ⟨hstart, hsize⟩ := (UserRegion.pageAligned_iff _).mp haligned
    rw [forall_prop_of_true htries]
    exact (mapRegion_stopped ok hstart htries.2.2 hsize hmap).untouched_iff

end Place

/-! ## Examples -/

/-- A page at `0x502000`, mapped into an empty table. -/
def oneMapped : Option (TableState (List (Page × ℕ) × List (Page × ℕ)) × Bool) :=
  mapRegion TableSource.pool 1 (.empty samplePool) 0x502000 0x8000 0x1000 0x440 1

/-- Another frame in its place is refused, and nothing changes. -/
theorem refused_untouched_onePage :
    ∃ before after, oneMapped = some (before, true) ∧
      mapRegion TableSource.pool 1 before 0x502000 0x10000 0x1000 0x440 1 = some (after, false) ∧
        Untouched 1 before.mem after.mem := by
  have hdone : (oneMapped.bind fun first => (mapRegion TableSource.pool 1 first.1 0x502000
      0x10000 0x1000 0x440 1).map fun second => (first.2, second.2)) = some (true, false) := by
    decide +kernel
  obtain ⟨⟨before, done⟩, hfirst, hsecond⟩ := Option.bind_eq_some_iff.mp hdone
  obtain ⟨⟨after, done'⟩, hmap, heq⟩ := Option.map_eq_some_iff.mp hsecond
  obtain ⟨rfl, rfl⟩ := Prod.mk.inj heq
  have inside : InsideHalf .lower 0x502000 0x1000 := ⟨by decide, by decide⟩
  have mapped := mapRegion_spec TreeOk.samplePool inside (by decide) hfirst
  refine ⟨before, after, hfirst, hmap, ((@refused_untouched_iff _ TableSource.pool
    ⟨[], 1, before⟩ mapped.within.ok).1 (by decide) (by decide) (by decide) hmap).mpr
      fun virt hin hnone => ?_⟩
  -- Every address of the range translates.
  obtain ⟨virt', hvirt', hregion, hposition⟩ := exists_virt_of_inRange inside hin
  have hsome := mapped.mapped rfl virt' hregion
  rw [walk, if_pos hvirt', translateFrom, walkFrom_of_position virt hposition, hnone,
    Option.map_none] at hsome
  cases hsome

/-- Three pages from `0x500000` on are refused at the third, and the first is mapped. -/
theorem refused_untouched_fails :
    ∃ before after, oneMapped = some (before, true) ∧
      mapRegion TableSource.pool 1 before 0x500000 0x10000 0x3000 0x440 1 = some (after, false) ∧
        walk before.mem .lower 1 0x500000 = none ∧
        walk after.mem .lower 1 0x500000 = some { address := 0x10000, attributes := 0x444 } ∧
          ¬ Untouched 1 before.mem after.mem := by
  have hdone : (oneMapped.bind fun first => (mapRegion TableSource.pool 1 first.1 0x500000
      0x10000 0x3000 0x440 1).map fun second =>
        (first.2, second.2, walk first.1.mem .lower 1 0x500000,
          walk second.1.mem .lower 1 0x500000)) =
      some (true, false, none, some { address := 0x10000, attributes := 0x444 }) := by
    decide +kernel
  obtain ⟨⟨before, done⟩, hfirst, hsecond⟩ := Option.bind_eq_some_iff.mp hdone
  obtain ⟨⟨after, done'⟩, hmap, heq⟩ := Option.map_eq_some_iff.mp hsecond
  obtain ⟨rfl, rest⟩ := Prod.mk.inj heq
  obtain ⟨rfl, rest⟩ := Prod.mk.inj rest
  obtain ⟨hbefore, hafter⟩ := Prod.mk.inj rest
  refine ⟨before, after, hfirst, hmap, hbefore, hafter, fun untouched => ?_⟩
  have hsame := untouched .lower 0x500000
  rw [hbefore, hafter] at hsame
  cases hsame

end BekOS
