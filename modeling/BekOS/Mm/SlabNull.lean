import BekOS.Mm.SlabRuns

/-!
# A slab allocator without memory

Where no object is free, `allocate` asks for another block.  It reports that there is none, and
goes on: a block is made at the null pointer.
-/

namespace BekOS

open PartialRun Function

namespace SlabAllocator

/-- A backing allocation that fails is passed on: the null pointer is returned and nothing
is touched. -/
def RefusesNull (slab : SlabAllocator) : Prop :=
  slab.lists.empty .freeBlocks = true → slab.allocate 0 = some (slab, 0)

variable {objSize : U64} {slab : SlabAllocator}

theorem defaultBlockSize_bounds (hlow : 32 ≤ objSize.toNat) (hhigh : objSize.toNat < 2 ^ 60) :
    48 + objSize.toNat ≤ (defaultBlockSize objSize).toNat ∧
      (defaultBlockSize objSize).toNat ≤ 4096 * objSize.toNat := by
  unfold defaultBlockSize
  split_ifs with hsmall
  · have hle : objSize.toNat ≤ 256 := hsmall
    have hsize : (4096 : U64).toNat = 4096 := rfl
    omega
  · have hgt : ¬ objSize.toNat ≤ 256 := hsmall
    have hdiv : (objSize / 256 * 4096).toNat = objSize.toNat / 256 * 4096 := by
      rw [BitVec.toNat_mul, BitVec.toNat_udiv]
      refine Nat.mod_eq_of_lt ?_
      show objSize.toNat / 256 * 4096 < 2 ^ 64
      have := Nat.div_mul_le_self objSize.toNat 256
      omega
    rw [hdiv]
    omega

/-- A block has room for objects, behind its first bytes. -/
theorem default_holds (hlow : 32 ≤ objSize.toNat) (hhigh : objSize.toNat < 2 ^ 60) :
    0 < SlabBlock.countObjects objSize (defaultBlockSize objSize) ∧
      0 < SlabBlock.dataOffset objSize := by
  obtain ⟨hblock, hblock'⟩ := defaultBlockSize_bounds hlow hhigh
  constructor
  · have hsub : (defaultBlockSize objSize - SlabBlock.size).toNat =
        (defaultBlockSize objSize).toNat - 48 := by
      rw [BitVec.toNat_sub_of_le]
      · rfl
      · show 48 ≤ (defaultBlockSize objSize).toNat
        omega
    have hcount : ((defaultBlockSize objSize - SlabBlock.size) / objSize).toNat =
        ((defaultBlockSize objSize).toNat - 48) / objSize.toNat := by
      rw [BitVec.toNat_udiv, hsub]
    have hpos : 0 < ((defaultBlockSize objSize).toNat - 48) / objSize.toNat :=
      Nat.div_pos (by omega) (by omega)
    have hsmall : ((defaultBlockSize objSize).toNat - 48) / objSize.toNat ≤ 4096 := by
      refine Nat.div_le_of_le_mul ?_
      rw [Nat.mul_comm]
      omega
    have htrunc : (((defaultBlockSize objSize - SlabBlock.size) / objSize).setWidth 32).toNat =
        ((defaultBlockSize objSize).toNat - 48) / objSize.toNat := by
      rw [BitVec.toNat_setWidth, hcount]
      exact Nat.mod_eq_of_lt (by omega)
    unfold SlabBlock.countObjects
    rw [BitVec.toInt_eq_toNat_of_lt (by omega), htrunc]
    omega
  · have hsum : (SlabBlock.size + objSize - 1).toNat = 47 + objSize.toNat := by
      have hsize : SlabBlock.size.toNat = 48 := rfl
      rw [BitVec.toNat_sub_of_le, BitVec.toNat_add, hsize]
      · show (48 + objSize.toNat) % 2 ^ 64 - 1 = _
        omega
      · show 1 ≤ (SlabBlock.size + objSize).toNat
        rw [BitVec.toNat_add, hsize]
        omega
    have hdiv : (ceilDiv SlabBlock.size objSize).toNat = (47 + objSize.toNat) / objSize.toNat := by
      rw [ceilDiv, BitVec.toNat_udiv, hsum]
    have hpos : 0 < (47 + objSize.toNat) / objSize.toNat := Nat.div_pos (by omega) (by omega)
    have hle := Nat.div_mul_le_self (47 + objSize.toNat) objSize.toNat
    have hmul := Nat.mul_pos hpos (show 0 < objSize.toNat by omega)
    rw [SlabBlock.dataOffset, BitVec.toNat_mul, hdiv, Nat.mod_eq_of_lt (by omega)]
    exact hmul

/-- A block made at address 0 gives an object at another one. -/
theorem allocate_null_ne (hcount : 0 < SlabBlock.countObjects slab.objSize slab.blkSize)
    (hoffset : 0 < SlabBlock.dataOffset slab.objSize) (hempty : slab.lists.empty .freeBlocks = true)
    {slab' : SlabAllocator} : slab.allocate 0 ≠ some (slab', 0) := by
  intro h
  rw [allocate, if_pos hempty] at h
  obtain ⟨added, hadd, htake⟩ := Option.bind_eq_some_iff.mp h
  -- The new block is the only one with free objects.
  rw [addBlock] at hadd
  obtain ⟨lists, happend, rfl⟩ := Option.map_eq_some_iff.mp hadd
  have hfirst : (lists.heads .freeBlocks).first = some 0 := by
    unfold IntrusiveLists.append at happend
    dsimp only at happend
    rw [update_self] at happend
    dsimp only [IntrusiveLists.unlinked] at happend
    cases happend
    have hnone : (slab.lists.heads .freeBlocks).first = none := Option.isNone_iff_eq_none.mp hempty
    dsimp only
    rw [update_self, hnone, Option.none_or]
  have hhead : (SlabBlock.new 0 slab.objSize slab.blkSize slab.next).1.freelistHead ≠ 0 := by
    unfold SlabBlock.new
    dsimp only
    obtain ⟨n, hn⟩ := Nat.exists_eq_succ_of_ne_zero (show
      (SlabBlock.countObjects slab.objSize slab.blkSize).toNat ≠ 0 by omega)
    rw [hn, SlabBlock.linkObjects]
    dsimp only
    omega
  rw [takeObject] at htake
  dsimp only at htake
  rw [hfirst] at htake
  dsimp only at htake
  rw [update_self, SlabBlock.allocate, if_neg hhead] at htake
  dsimp only at htake
  split_ifs at htake
  · obtain ⟨_, -, htake⟩ := Option.bind_eq_some_iff.mp htake
    obtain ⟨_, -, htake⟩ := Option.map_eq_some_iff.mp htake
    exact hhead (congrArg Prod.snd htake)
  · exact hhead (congrArg Prod.snd (Option.some_inj.mp htake))

/-- **An allocator passes the failure on** exactly when it does not ask: an object is free. -/
theorem refusesNull_iff (hlow : 32 ≤ slab.objSize.toNat) (hhigh : slab.objSize.toNat < 2 ^ 60)
    (hblock : slab.blkSize = defaultBlockSize slab.objSize) :
    slab.RefusesNull ↔ slab.lists.empty .freeBlocks = false := by
  obtain ⟨hcount, hoffset⟩ := default_holds hlow hhigh
  rw [← hblock] at hcount
  constructor
  · intro refuses
    rw [← Bool.not_eq_true]
    exact fun hempty => allocate_null_ne hcount hoffset hempty (refuses hempty)
  · intro hfree hempty
    rw [hfree] at hempty
    cases hempty

/-- The sizes are as they were. -/
def SameSizes (slab slab' : SlabAllocator) : Prop :=
  slab'.objSize = slab.objSize ∧ slab'.blkSize = slab.blkSize

theorem addBlock_sizes {region : ℕ} {slab' : SlabAllocator} (h : slab.addBlock region = some slab') :
    SameSizes slab slab' := by
  rw [addBlock] at h
  obtain ⟨lists, -, rfl⟩ := Option.map_eq_some_iff.mp h
  exact ⟨rfl, rfl⟩

theorem takeObject_sizes {taken : SlabAllocator × ℕ} (h : slab.takeObject = some taken) :
    SameSizes slab taken.1 := by
  rw [takeObject] at h
  split at h
  · cases h
  · dsimp only at h
    split_ifs at h
    · obtain ⟨_, -, h⟩ := Option.bind_eq_some_iff.mp h
      obtain ⟨_, -, rfl⟩ := Option.map_eq_some_iff.mp h
      exact ⟨rfl, rfl⟩
    · cases h
      exact ⟨rfl, rfl⟩

theorem step_sizes {owned : Owned} {op : Op} {moved : Owned × Option ℕ}
    (h : SlabAllocator.step owned op = some moved) : SameSizes owned.slab moved.1.slab := by
  cases op with
  | allocate region =>
      obtain ⟨done, hdone, rfl⟩ := Option.map_eq_some_iff.mp h
      rw [allocate] at hdone
      split_ifs at hdone
      · obtain ⟨added, hadd, htake⟩ := Option.bind_eq_some_iff.mp hdone
        obtain ⟨hobj, hblk⟩ := addBlock_sizes hadd
        obtain ⟨hobj', hblk'⟩ := takeObject_sizes htake
        exact ⟨hobj'.trans hobj, hblk'.trans hblk⟩
      · exact takeObject_sizes hdone
  | free ptr =>
      obtain ⟨slab', hfree, rfl⟩ := Option.map_eq_some_iff.mp h
      rw [free] at hfree
      obtain ⟨lists, -, hfree⟩ := Option.bind_eq_some_iff.mp hfree
      obtain ⟨done, -, rfl⟩ := Option.map_eq_some_iff.mp hfree
      exact ⟨rfl, rfl⟩
  | store ptr value =>
      cases h
      exact ⟨rfl, rfl⟩

/-- **Out of memory**: in every state that is reached, an allocator passes the failure of the
backing allocation on exactly when an object is free, so that it does not ask. -/
theorem run_refusesNull_iff (hnew : SlabAllocator.new objSize = some slab)
    (hsize : objSize.toNat < 2 ^ 60) {ops : List Op} {final : Owned} {outs : List (Option ℕ)}
    (hrun : runSteps SlabAllocator.step ⟨slab, [], []⟩ ops = some (final, outs)) :
    final.slab.RefusesNull ↔ final.slab.lists.empty .freeBlocks = false := by
  unfold SlabAllocator.new at hnew
  split_ifs at hnew with hlow
  cases hnew
  have hsizes : final.slab.objSize = objSize ∧ final.slab.blkSize = defaultBlockSize objSize :=
    @runSteps_keeps _ _ _ SlabAllocator.step
      (fun owned => owned.slab.objSize = objSize ∧ owned.slab.blkSize = defaultBlockSize objSize)
      (fun _ _ _ sizes hstep => ⟨(step_sizes hstep).1.trans sizes.1,
        (step_sizes hstep).2.trans sizes.2⟩) _ _ _ ⟨rfl, rfl⟩ hrun
  refine refusesNull_iff ?_ ?_ ?_
  · rw [hsizes.1]
    exact hlow
  · rwa [hsizes.1]
  · rw [hsizes.1, hsizes.2]

/-- The allocator that has no block yet makes one at address 0, and returns an object of it. -/
theorem run_refusesNull_fails : ∃ slab, SlabAllocator.new 1024 = some slab ∧
    slab.lists.empty .freeBlocks = true ∧ (slab.allocate 0).map Prod.snd = some 0x3C00 ∧
      ¬ slab.RefusesNull := by
  have hptr : ((SlabAllocator.new 1024).bind fun slab => (slab.allocate 0).map Prod.snd) =
      some 0x3C00 := by decide +kernel
  obtain ⟨slab, hnew, hptr⟩ := Option.bind_eq_some_iff.mp hptr
  have hempty : slab.lists.empty .freeBlocks = true := by
    cases hnew
    rfl
  refine ⟨slab, hnew, hempty, hptr, fun refuses => ?_⟩
  rw [refuses hempty] at hptr
  cases hptr

/-- An allocator with a block that has objects left. -/
theorem run_refusesNull_block : ∃ slab final, SlabAllocator.new 1024 = some slab ∧
    runSteps SlabAllocator.step ⟨slab, [], []⟩ [.allocate 0x10000] = some final ∧
      final.1.slab.RefusesNull := by
  have hfree : ((SlabAllocator.new 1024).bind fun slab =>
      (runSteps SlabAllocator.step ⟨slab, [], []⟩ [.allocate 0x10000]).map fun final =>
        final.1.slab.lists.empty .freeBlocks) = some false := by decide +kernel
  obtain ⟨slab, hnew, hfree⟩ := Option.bind_eq_some_iff.mp hfree
  obtain ⟨final, hrun, hfree⟩ := Option.map_eq_some_iff.mp hfree
  exact ⟨slab, final, hnew, hrun, (run_refusesNull_iff hnew (by decide) hrun).mpr hfree⟩

end SlabAllocator
end BekOS
