import BekOS.Peripherals.SplitVq

/-!
# The two lists of the split virtqueue

`Partitioned` says that the free chain and the chains of the requests in flight
are proper chains and share out the descriptors.  `placeElements` moves a prefix
of the free chain over to a new request, and the body of `process_used` joins the
chain of a completed request onto the front of the free chain.
-/

namespace BekOS.SplitVQ

open IndexPath

universe u

variable {Callback : Type u} {vq vq' : SplitVQ Callback}

/-- The free chain and the chains from `heads` are chains and share out the
descriptors. -/
structure Partitioned (vq : SplitVQ Callback) (heads : List ℕ) : Prop where
  num_lt : vq.num < 2 ^ 16
  next_lt : vq.nextFreeDesc < 2 ^ 16
  freePath : IsPath vq.freeNext vq.freeStart vq.freeChain
  requestPath : ∀ head ∈ heads, IsPath vq.requestNext (some head) (vq.requestChain head)
  partition : (vq.freeChain ++ heads.flatMap vq.requestChain).Perm (List.range vq.num)
  free_eq : vq.freeDescriptors = vq.freeChain.length

/-- The queue but for its descriptors. -/
def rings (vq : SplitVQ Callback) : SplitVQ Callback :=
  { vq with descriptors := fun _ => ⟨0, 0, 0, 0⟩, nextFreeDesc := 0, freeDescriptors := 0 }

/-! ## Successors -/

@[simp] theorem setDescriptor_descriptors (i : ℕ) (desc : SplitVQDescriptor) :
    (vq.setDescriptor i desc).descriptors = Function.update vq.descriptors i desc := rfl

@[simp] theorem setDescriptor_num (i : ℕ) (desc : SplitVQDescriptor) :
    (vq.setDescriptor i desc).num = vq.num := rfl

@[simp] theorem setDescriptor_rings (i : ℕ) (desc : SplitVQDescriptor) :
    (vq.setDescriptor i desc).rings = vq.rings := rfl

theorem num_eq_of_rings (h : vq'.rings = vq.rings) : vq'.num = vq.num :=
  (congrArg SplitVQ.num h :)

variable {i a : ℕ} {free : List ℕ}

theorem requestNext_congr (h : vq'.descriptors i = vq.descriptors i) :
    vq'.requestNext i = vq.requestNext i := by
  rw [requestNext, requestNext, h]

theorem freeNext_congr (hnum : vq'.num = vq.num) (h : vq'.descriptors i = vq.descriptors i) :
    vq'.freeNext i = vq.freeNext i := by
  rw [freeNext, freeNext, h, hnum]

theorem requestNext_eq_some_iff {j : ℕ} :
    vq.requestNext i = some j ↔
      (vq.descriptors i).hasNext = true ∧ (vq.descriptors i).next.toNat = j := by
  unfold requestNext
  cases (vq.descriptors i).hasNext with
  | true => simp
  | false => simp

theorem freeStart_eq_some_iff :
    vq.freeStart = some i ↔ vq.nextFreeDesc = i ∧ vq.nextFreeDesc < vq.num := by
  unfold freeStart
  by_cases h : vq.nextFreeDesc < vq.num
  · simp [h]
  · simp [h]

theorem freeStart_of_next (hnum : vq'.num = vq.num)
    (h : vq'.nextFreeDesc = (vq.descriptors i).next.toNat) : vq'.freeStart = vq.freeNext i := by
  rw [freeStart, freeNext, h, hnum]

theorem hasNext_or (flags : U16) : (flags ||| SplitVQDescriptor.flagNEXT) &&&
    SplitVQDescriptor.flagNEXT ≠ 0 := by
  intro h
  have hbit := congrArg (fun flags : U16 => flags.getLsbD 0) h
  simp [SplitVQDescriptor.flagNEXT] at hbit

/-! ## Partitions from paths -/

theorem Partitioned.of_paths {heads : List ℕ} (free : List ℕ) (chain : ℕ → List ℕ)
    (num_lt : vq.num < 2 ^ 16) (next_lt : vq.nextFreeDesc < 2 ^ 16)
    (freePath : IsPath vq.freeNext vq.freeStart free)
    (requestPath : ∀ head ∈ heads, IsPath vq.requestNext (some head) (chain head))
    (partition : (free ++ heads.flatMap chain).Perm (List.range vq.num))
    (free_eq : vq.freeDescriptors = free.length) :
    vq.Partitioned heads ∧ vq.freeChain = free ∧
      ∀ head ∈ heads, vq.requestChain head = chain head := by
  have hlength := partition.length_eq
  rw [List.length_append, List.length_range] at hlength
  have hfree : vq.freeChain = free := freePath.follow_eq (by omega)
  have hchain : ∀ head ∈ heads, vq.requestChain head = chain head := by
    intro head hhead
    have hsub : (chain head).Sublist (heads.flatMap chain) :=
      List.sublist_flatten_of_mem (List.mem_map_of_mem hhead)
    exact (requestPath head hhead).follow_eq (by have := hsub.length_le; omega)
  have hflat : heads.flatMap vq.requestChain = heads.flatMap chain :=
    List.flatMap_congr hchain
  refine ⟨⟨num_lt, next_lt, ?_, ?_, ?_, ?_⟩, hfree, hchain⟩
  · rw [hfree]
    exact freePath
  · intro head hhead
    rw [hchain head hhead]
    exact requestPath head hhead
  · rw [hfree, hflat]
    exact partition
  · rw [hfree]
    exact free_eq

namespace Partitioned

variable {heads : List ℕ} {head : ℕ}

theorem nodup (part : vq.Partitioned heads) :
    (vq.freeChain ++ heads.flatMap vq.requestChain).Nodup :=
  part.partition.nodup_iff.mpr List.nodup_range

theorem lt_num (part : vq.Partitioned heads) {i : ℕ}
    (h : i ∈ vq.freeChain ++ heads.flatMap vq.requestChain) : i < vq.num :=
  List.mem_range.mp (part.partition.mem_iff.mp h)

theorem head_mem (part : vq.Partitioned heads) (h : head ∈ heads) :
    head ∈ vq.requestChain head := by
  have hpath := part.requestPath head h
  cases hchain : vq.requestChain head with
  | nil =>
      rw [hchain, isPath_nil_iff] at hpath
      cases hpath
  | cons first rest =>
      rw [hchain, isPath_cons_iff] at hpath
      cases hpath.1
      simp

theorem head_lt (part : vq.Partitioned heads) (h : head ∈ heads) : head < vq.num :=
  part.lt_num (List.mem_append_right _ (List.mem_flatMap.mpr ⟨head, h, part.head_mem h⟩))

theorem heads_nodup (part : vq.Partitioned heads) : heads.Nodup := by
  have hpair := (List.nodup_flatMap.mp (List.nodup_append.mp part.nodup).2.1).2
  refine hpair.imp_of_mem fun {a b} ha hb hdisjoint hab => ?_
  subst hab
  exact hdisjoint (part.head_mem ha) (part.head_mem ha)

theorem perm (part : vq.Partitioned heads) {heads' : List ℕ} (h : heads.Perm heads') :
    vq.Partitioned heads' where
  num_lt := part.num_lt
  next_lt := part.next_lt
  freePath := part.freePath
  requestPath := fun head hhead => part.requestPath head (h.mem_iff.mpr hhead)
  partition := ((h.flatMap_right vq.requestChain).append_left vq.freeChain).symm.trans
    part.partition
  free_eq := part.free_eq

end Partitioned

theorem new_partitioned {queueNum : ℕ} (hlt : queueNum < 2 ^ 16)
    (memory : ℕ → SplitVQDescriptor) (available : ℕ → ℕ) (used : ℕ → SplitVQUsedEntry) :
    (SplitVQ.new queueNum memory available used : SplitVQ Callback).Partitioned [] := by
  have hpath : ∀ (k i : ℕ), i + k = queueNum →
      IsPath (SplitVQ.new queueNum memory available used : SplitVQ Callback).freeNext
        (if i < queueNum then some i else none) (List.range' i k) := by
    intro k
    induction k with
    | zero =>
        intro i hi
        exact isPath_nil_iff.mpr (if_neg (by omega))
    | succ k ih =>
        intro i hi
        rw [List.range'_succ]
        refine isPath_cons_iff.mpr ⟨if_pos (by omega), ?_⟩
        have hnext : (BitVec.ofNat 16 (i + 1)).toNat = i + 1 := by
          rw [BitVec.toNat_ofNat]
          exact Nat.mod_eq_of_lt (by omega)
        have hfree : (SplitVQ.new queueNum memory available used :
            SplitVQ Callback).freeNext i = if i + 1 < queueNum then some (i + 1) else none := by
          simp only [freeNext, SplitVQ.new, hnext]
        rw [hfree]
        exact ih (i + 1) (by omega)
  refine (Partitioned.of_paths (List.range queueNum) (fun _ => []) hlt
    (by simp [SplitVQ.new]) ?_ (by simp) (by simp [SplitVQ.new]) (by simp [SplitVQ.new])).1
  have := hpath queueNum 0 (by omega)
  rw [List.range_eq_range']
  exact this

/-! ## Placing the elements of a request -/

/-- The descriptors of `chain` have become a request, `free` is what is left of
the free chain, and nothing else has changed. -/
structure Placed (vq vq' : SplitVQ Callback) (head : Option ℕ) (chain free : List ℕ) :
    Prop where
  rings_eq : vq'.rings = vq.rings
  others : ∀ i ∉ chain, vq'.descriptors i = vq.descriptors i
  requestPath : IsPath vq'.requestNext head chain
  freePath : IsPath vq'.freeNext vq'.freeStart free
  free_eq : vq'.freeDescriptors = free.length
  next_lt : vq'.nextFreeDesc < 2 ^ 16

/-- The queue once descriptor `a` has been handed out, with `left` still free. -/
def handOut (vq : SplitVQ Callback) (a left : ℕ) : SplitVQ Callback :=
  { vq.setDescriptor a { vq.descriptors a with next := BitVec.ofNat 16 vq.num } with
    freeDescriptors := left
    nextFreeDesc := (vq.descriptors a).next.toNat }

theorem allocateDescriptor_of_path (hpath : IsPath vq.freeNext vq.freeStart (a :: free))
    (hcount : vq.freeDescriptors = free.length + 1) (hbound : free.length + 1 < 2 ^ 32) :
    vq.allocateDescriptor = some (vq.handOut a free.length, a) := by
  obtain ⟨rfl, hlt⟩ := freeStart_eq_some_iff.mp (isPath_cons_iff.mp hpath).1
  have hless : (vq.freeDescriptors + (2 ^ 32 - 1)) % 2 ^ 32 = free.length := by
    rw [hcount]
    omega
  rw [allocateDescriptor, if_pos hlt]
  exact congrArg (fun left => some (vq.handOut vq.nextFreeDesc left, vq.nextFreeDesc)) hless

theorem requestNext_fill (vq : SplitVQ Callback) (a : ℕ) (element : TransferElement) :
    (vq.fillDescriptor a element).requestNext a = none := by
  cases hdir : element.direction with
  | OUT => simp [requestNext, fillDescriptor, SplitVQDescriptor.hasNext, hdir]
  | IN =>
      simp [requestNext, fillDescriptor, SplitVQDescriptor.hasNext, hdir,
        SplitVQDescriptor.flagWRITE, SplitVQDescriptor.flagNEXT]

theorem requestNext_link (vq : SplitVQ Callback) (l a : ℕ) (ha : a < 2 ^ 16) :
    (vq.linkDescriptor l a).requestNext l = some a := by
  have hflag := hasNext_or (vq.descriptors l).flags
  have hnext : (BitVec.ofNat 16 a).toNat = a := by
    rw [BitVec.toNat_ofNat]
    exact Nat.mod_eq_of_lt ha
  simpa [requestNext, linkDescriptor, SplitVQDescriptor.hasNext, hnext] using hflag

theorem fillDescriptor_other (h : i ≠ a) (element : TransferElement) :
    (vq.fillDescriptor a element).descriptors i = vq.descriptors i := by
  simp [fillDescriptor, h]

theorem linkDescriptor_other {l : ℕ} (h : i ≠ l) :
    (vq.linkDescriptor l a).descriptors i = vq.descriptors i := by
  simp [linkDescriptor, h]

theorem handOut_other (h : i ≠ a) (left : ℕ) :
    (vq.handOut a left).descriptors i = vq.descriptors i := by
  simp [handOut, h]

/-- **The first element** starts the request. -/
theorem placed_first (hpath : IsPath vq.freeNext vq.freeStart (a :: free))
    (hnodup : (a :: free).Nodup) (element : TransferElement) :
    Placed vq ((vq.handOut a free.length).fillDescriptor a element) (some a) [a] free where
  rings_eq := rfl
  others := by
    intro i hi
    have hne : i ≠ a := by simpa using hi
    rw [fillDescriptor_other hne, handOut_other hne]
  requestPath := isPath_cons_iff.mpr ⟨rfl, isPath_nil_iff.mpr (requestNext_fill _ a element)⟩
  freePath := by
    have hstart : ((vq.handOut a free.length).fillDescriptor a element).freeStart =
        vq.freeNext a := freeStart_of_next rfl rfl
    rw [hstart]
    refine (isPath_cons_iff.mp hpath).2.congr fun i hi => freeNext_congr rfl ?_
    have hne : i ≠ a := fun h => (List.nodup_cons.mp hnodup).1 (h ▸ hi)
    rw [fillDescriptor_other hne, handOut_other hne]
  free_eq := rfl
  next_lt := (vq.descriptors a).next.isLt

/-- **Another element** is linked behind the last. -/
theorem Placed.next {vq₀ : SplitVQ Callback} {head : Option ℕ} {init free : List ℕ} {l a : ℕ}
    (placed : Placed vq₀ vq head (init ++ [l]) (a :: free))
    (hnodup : (init ++ l :: a :: free).Nodup) (hlt : a < 2 ^ 16) (element : TransferElement) :
    Placed vq₀ (((vq.handOut a free.length).linkDescriptor l a).fillDescriptor a element) head
      ((init ++ [l]) ++ [a]) free := by
  obtain ⟨-, htail, hapart⟩ := List.nodup_append.mp hnodup
  obtain ⟨hl, htail⟩ := List.nodup_cons.mp htail
  have hla : l ≠ a := fun h => hl (by simp [h])
  have hother : ∀ i, i ≠ a → i ≠ l →
      (((vq.handOut a free.length).linkDescriptor l a).fillDescriptor a element).descriptors i =
        vq.descriptors i := by
    intro i ha hl
    rw [fillDescriptor_other ha, linkDescriptor_other hl, handOut_other ha]
  refine ⟨placed.rings_eq, ?_, ?_, ?_, rfl, (vq.descriptors a).next.isLt⟩
  · intro i hi
    simp only [List.mem_append, List.mem_singleton, not_or] at hi
    rw [hother i hi.2 hi.1.2]
    exact placed.others i (by simp [hi.1.1, hi.1.2])
  · have hlast : IsPath (((vq.handOut a free.length).linkDescriptor l a).fillDescriptor a
        element).requestNext (some a) [a] :=
      isPath_cons_iff.mpr ⟨rfl, isPath_nil_iff.mpr (requestNext_fill _ a element)⟩
    have hjoin : (((vq.handOut a free.length).linkDescriptor l a).fillDescriptor a
        element).requestNext l = some a := by
      rw [requestNext_congr (fillDescriptor_other hla element)]
      exact requestNext_link _ l a hlt
    have hpath := placed.requestPath.splice hlast (fun i hi => requestNext_congr
      (hother i (fun h => hapart i hi i (by simp [h]) rfl)
        (fun h => hapart i hi i (by simp [h]) rfl))) hjoin
    simpa using hpath
  · have hstart : (((vq.handOut a free.length).linkDescriptor l a).fillDescriptor a
        element).freeStart = vq.freeNext a := freeStart_of_next rfl rfl
    rw [hstart]
    refine (isPath_cons_iff.mp placed.freePath).2.congr fun i hi => freeNext_congr rfl ?_
    exact hother i (fun h => (List.nodup_cons.mp htail).1 (h ▸ hi))
      (fun h => hl (by rw [← h]; exact List.mem_cons_of_mem _ hi))

theorem placeElements_rest {vq₀ : SplitVQ Callback} {head : Option ℕ} :
    ∀ (elements : List TransferElement) (vq : SplitVQ Callback) (init : List ℕ) (l : ℕ)
      (free : List ℕ) (startIdx : ℕ), Placed vq₀ vq head (init ++ [l]) free →
      (init ++ l :: free).Nodup → (∀ i ∈ free, i < 2 ^ 16) → free.length < 2 ^ 32 →
      elements.length ≤ free.length →
      ∃ vq', vq.placeElements elements (some l) startIdx = (vq', some startIdx) ∧
        Placed vq₀ vq' head ((init ++ [l]) ++ free.take elements.length)
          (free.drop elements.length) := by
  intro elements
  induction elements with
  | nil =>
      intro vq init l free startIdx placed _ _ _ _
      exact ⟨vq, rfl, by simpa using placed⟩
  | cons element rest ih =>
      intro vq init l free startIdx placed hnodup hlt hbound hlength
      cases free with
      | nil => simp at hlength
      | cons a free =>
          simp only [List.length_cons] at hlength hbound
          have halloc := allocateDescriptor_of_path placed.freePath placed.free_eq hbound
          have hnext := placed.next hnodup (hlt a (by simp)) element
          obtain ⟨vq', hplace, hplaced⟩ := ih _ (init ++ [l]) a free startIdx hnext
            (by simpa using hnodup) (fun i hi => hlt i (by simp [hi])) (by omega) (by omega)
          refine ⟨vq', ?_, by simpa using hplaced⟩
          rw [placeElements, halloc]
          exact hplace

/-- **The loop of `queue_transfer`** turns a prefix of the free chain into the
chain of the request. -/
theorem placeElements_spec {elements : List TransferElement}
    (hpath : IsPath vq.freeNext vq.freeStart (a :: free)) (hnodup : (a :: free).Nodup)
    (hlt : ∀ i ∈ a :: free, i < 2 ^ 16) (hcount : vq.freeDescriptors = free.length + 1)
    (hbound : free.length + 1 < 2 ^ 32) (hne : elements ≠ [])
    (hlength : elements.length ≤ free.length + 1) :
    ∃ vq', vq.placeElements elements none 0 = (vq', some a) ∧
      Placed vq vq' (some a) ((a :: free).take elements.length)
        ((a :: free).drop elements.length) := by
  cases elements with
  | nil => exact absurd rfl hne
  | cons element rest =>
      simp only [List.length_cons, Nat.add_le_add_iff_right] at hlength
      have halloc := allocateDescriptor_of_path hpath hcount hbound
      have hmod : a % 2 ^ 16 = a := Nat.mod_eq_of_lt (hlt a (by simp))
      obtain ⟨vq', hplace, hplaced⟩ := placeElements_rest rest _ [] a free a
        (placed_first hpath hnodup element) hnodup (fun i hi => hlt i (by simp [hi]))
        (by omega) hlength
      refine ⟨vq', ?_, by simpa using hplaced⟩
      rw [placeElements, halloc]
      simp only [hmod]
      exact hplace

/-- The new request takes its descriptors from the free chain. -/
theorem Partitioned.place {heads : List ℕ} (part : vq.Partitioned heads) {a n : ℕ}
    {free : List ℕ} (hfree : vq.freeChain = a :: free) (hn : 1 ≤ n)
    (placed : Placed vq vq' (some a) ((a :: free).take n) ((a :: free).drop n)) :
    vq'.Partitioned (a :: heads) := by
  have hnum := num_eq_of_rings placed.rings_eq
  obtain ⟨n, rfl⟩ : ∃ m, n = m + 1 := ⟨n - 1, by omega⟩
  have hnodup := List.nodup_append.mp part.nodup
  rw [hfree] at hnodup
  have hapart : ∀ head ∈ heads, ∀ i ∈ vq.requestChain head, i ∉ a :: free :=
    fun head hhead i hi hmem =>
      hnodup.2.2 i hmem i (List.mem_flatMap.mpr ⟨head, hhead, hi⟩) rfl
  have ha : a ∉ heads := fun h => hapart a h a (part.head_mem h) (by simp)
  have hsplit : ((a :: free).drop (n + 1) ++ ((a :: free).take (n + 1) ++
      heads.flatMap vq.requestChain)).Perm (List.range vq.num) := by
    have hperm := part.partition
    rw [hfree] at hperm
    refine List.Perm.trans ?_ hperm
    rw [← List.append_assoc]
    refine List.Perm.append_right _ (List.perm_append_comm.trans ?_)
    rw [List.take_append_drop]
  refine (Partitioned.of_paths ((a :: free).drop (n + 1))
    (fun head => if head = a then (a :: free).take (n + 1) else vq.requestChain head)
    (by rw [hnum]; exact part.num_lt) placed.next_lt placed.freePath ?_ ?_
    placed.free_eq).1
  · intro head hhead
    by_cases heq : head = a
    · subst heq
      rw [if_pos rfl]
      exact placed.requestPath
    · have hmem : head ∈ heads := (List.mem_cons.mp hhead).resolve_left heq
      rw [if_neg heq]
      exact (part.requestPath head hmem).congr fun i hi => requestNext_congr
        (placed.others i fun htake => hapart head hmem i hi (List.mem_of_mem_take htake))
  · rw [List.flatMap_cons, if_pos rfl, hnum]
    have hflat : heads.flatMap (fun head => if head = a then (a :: free).take (n + 1)
        else vq.requestChain head) = heads.flatMap vq.requestChain :=
      List.flatMap_congr fun head hhead => if_neg (by rintro rfl; exact ha hhead)
    rw [hflat]
    exact hsplit

/-! ## Freeing a request -/

theorem chainEnd_of_path :
    ∀ (init : List ℕ) (head last fuel count : ℕ),
      IsPath vq.requestNext (some head) (init ++ [last]) →
      (∀ i ∈ init ++ [last], i < vq.num) → init.length < fuel →
      vq.chainEnd fuel head count = some (last, count + init.length) := by
  intro init
  induction init with
  | nil =>
      intro head last fuel count hpath hlt hfuel
      obtain ⟨fuel, rfl⟩ : ∃ m, fuel = m + 1 := ⟨fuel - 1, by omega⟩
      obtain ⟨hhead, hend⟩ := isPath_cons_iff.mp hpath
      rw [Option.some_inj] at hhead
      subst hhead
      have hflag : (vq.descriptors head).hasNext = false := by
        simpa [requestNext, isPath_nil_iff] using hend
      rw [chainEnd, if_pos (hlt head (by simp)), hflag]
      rfl
  | cons first init ih =>
      intro head last fuel count hpath hlt hfuel
      simp only [List.length_cons] at hfuel
      obtain ⟨fuel, rfl⟩ : ∃ m, fuel = m + 1 := ⟨fuel - 1, by omega⟩
      obtain ⟨hhead, hrest⟩ := isPath_cons_iff.mp hpath
      rw [Option.some_inj] at hhead
      subst hhead
      obtain ⟨c, -, hc⟩ := hpath.exists_next head (by simp)
      obtain ⟨hflag, hnext⟩ := requestNext_eq_some_iff.mp hc
      have htail := ih (vq.descriptors head).next.toNat last fuel (count + 1)
        (by rw [hnext, ← hc]; exact hrest) (fun i hi => hlt i (by simp [hi])) (by omega)
      rw [chainEnd, if_pos (hlt head (by simp)), if_pos hflag, htail, List.length_cons]
      congr 2
      omega

/-- The queue once the chain from `id` to `last` has gone back to the free list. -/
def release (vq : SplitVQ Callback) (id last free : ℕ) : SplitVQ Callback :=
  { vq.setDescriptor last
      { vq.descriptors last with next := BitVec.ofNat 16 vq.nextFreeDesc } with
    nextFreeDesc := id
    freeDescriptors := free }

theorem release_other {id last free : ℕ} (h : i ≠ last) :
    (vq.release id last free).descriptors i = vq.descriptors i := by
  simp [release, h]

/-- **The chain of a completed request is joined onto the front of the free
chain**, whatever flags its descriptors are left with. -/
theorem Partitioned.complete {heads : List ℕ} {id last free : ℕ} {init : List ℕ}
    (part : vq.Partitioned (id :: heads)) (hchain : vq.requestChain id = init ++ [last])
    (hcount : free = vq.freeDescriptors + (init.length + 1)) :
    (vq.release id last free).Partitioned heads := by
  have hpath := part.requestPath id (by simp)
  rw [hchain] at hpath
  obtain ⟨-, hrequests, hapart⟩ := List.nodup_append.mp part.nodup
  rw [List.flatMap_cons, hchain] at hrequests hapart
  obtain ⟨hown, -, hothers⟩ := List.nodup_append.mp hrequests
  have hinit := (List.nodup_append.mp hown).2.2
  have hlt : ∀ i ∈ init ++ [last], i < vq.num := fun i hi =>
    part.lt_num (by simp only [List.flatMap_cons, hchain, List.mem_append]; simp_all)
  have hid : id < vq.num := part.head_lt (by simp)
  have hnext : (BitVec.ofNat 16 vq.nextFreeDesc).toNat = vq.nextFreeDesc := by
    rw [BitVec.toNat_ofNat]
    exact Nat.mod_eq_of_lt part.next_lt
  -- Up to the last descriptor the free list follows the fields that linked the request.
  have hfollow : ∀ i ∈ init, (vq.release id last free).freeNext i = vq.requestNext i := by
    intro i hi
    obtain ⟨j, hj, hij⟩ := hpath.exists_next i hi
    obtain ⟨-, hnext⟩ := requestNext_eq_some_iff.mp hij
    have hne : i ≠ last := fun h => hinit i hi last (by simp) h
    rw [hij, freeNext, release_other hne, hnext]
    exact if_pos (hlt j hj)
  have hjoin : (vq.release id last free).freeNext last = vq.freeStart := by
    have hself : ((vq.release id last free).descriptors last).next.toNat = vq.nextFreeDesc := by
      simp [release, hnext]
    rw [freeNext, hself]
    rfl
  have hfree : IsPath (vq.release id last free).freeNext vq.freeStart vq.freeChain :=
    part.freePath.congr fun i hi => freeNext_congr rfl
      (release_other fun h => hapart i hi last (by simp) h)
  have hstart : (vq.release id last free).freeStart = some id :=
    freeStart_eq_some_iff.mpr ⟨rfl, hid⟩
  have hpath' : IsPath (vq.release id last free).freeNext (vq.release id last free).freeStart
      (init ++ last :: vq.freeChain) := by
    rw [hstart]
    exact hpath.splice hfree hfollow hjoin
  have hrequest : ∀ head ∈ heads, IsPath (vq.release id last free).requestNext (some head)
      (vq.requestChain head) := by
    intro head hhead
    refine (part.requestPath head (by simp [hhead])).congr fun i hi =>
      requestNext_congr (release_other ?_)
    exact fun h => hothers last (by simp) i (List.mem_flatMap.mpr ⟨head, hhead, hi⟩) h.symm
  have hnum : (vq.release id last free).num < 2 ^ 16 := part.num_lt
  refine (Partitioned.of_paths _ _ hnum (hid.trans hnum) hpath' hrequest ?_ ?_).1
  · have hperm := part.partition
    rw [List.flatMap_cons, hchain] at hperm
    refine List.Perm.trans ?_ hperm
    have hsplit : init ++ last :: vq.freeChain = (init ++ [last]) ++ vq.freeChain := by simp
    rw [← List.append_assoc, hsplit]
    exact List.perm_append_comm.append_right _
  · have hlength : free = (init ++ last :: vq.freeChain).length := by
      rw [hcount, part.free_eq, List.length_append, List.length_cons]
      omega
    exact hlength

end BekOS.SplitVQ
