import BekOS.Filesystem.DirectoryList

/-!
# The loops over a directory as folds

When the slots read are those of one sequence, a loop over a `FATRawEntryList` is
a fold of its body over the slots it visits: the slot it starts at, whatever that
is, and the ones behind it up to an end marker or the end of the chain.
-/

namespace BekOS

universe u v w

/-- The slots that a loop goes through: the first one is not looked at before the
body gets it. -/
def visitedSlots : List RawFATEntry → List RawFATEntry
  | [] => []
  | first :: rest => first :: rest.takeWhile (·.type ≠ .EndOfDirectory)

namespace FATRawEntryList

variable {σ : Type u} {β : Type v} {ρ : Type w} {list : FATRawEntryList}

/-- The number of slots of the chain. -/
def slotCount (list : FATRawEntryList) : ℕ := list.clusterCount * list.entriesPerCluster

/-- The slots of the chain from place `k` on. -/
def slotsFrom (list : FATRawEntryList) (slot : ℕ → RawFATEntry) (k : ℕ) : List RawFATEntry :=
  (List.range' k (list.slotCount - k)).map slot

/-- Slot `k` can be read, and reading keeps `Inv`. -/
def Readable (list : FATRawEntryList) (read : SlotReader σ) (Inv : σ → Prop)
    (slot : ℕ → RawFATEntry) (k : ℕ) : Prop :=
  ∀ state, Inv state →
    ∃ state', read state (k / list.entriesPerCluster) (k % list.entriesPerCluster) =
      some (state', slot k) ∧ Inv state'

theorem entriesPerCluster_pos (list : FATRawEntryList) : 0 < list.entriesPerCluster := by
  by_contra h
  have hlt := list.startIndex_lt
  rw [Nat.eq_zero_of_not_pos h, Nat.mul_zero] at hlt
  exact absurd hlt (Nat.not_lt_zero _)

variable {slot : ℕ → RawFATEntry} {k : ℕ} {read : SlotReader σ} {Inv : σ → Prop} {state state' : σ}

theorem slotsFrom_cons (hk : k < list.slotCount) :
    list.slotsFrom slot k = slot k :: list.slotsFrom slot (k + 1) := by
  unfold slotsFrom
  rw [show list.slotCount - k = list.slotCount - (k + 1) + 1 by omega, List.range'_succ,
    List.map_cons]

theorem slotsFrom_of_le (hk : list.slotCount ≤ k) : list.slotsFrom slot k = [] := by
  unfold slotsFrom
  rw [Nat.sub_eq_zero_of_le hk, List.range'_zero, List.map_nil]

theorem slotsFrom_drop (slot : ℕ → RawFATEntry) (k : ℕ) :
    list.slotsFrom slot k = (list.slotsFrom slot 0).drop k := by
  unfold slotsFrom
  rw [← List.map_drop, List.drop_range']
  congr 2
  omega

theorem place_succ (list : FATRawEntryList) (k : ℕ) :
    (if k % list.entriesPerCluster + 1 = list.entriesPerCluster then
        (k / list.entriesPerCluster + 1, 0)
      else (k / list.entriesPerCluster, k % list.entriesPerCluster + 1)) =
      ((k + 1) / list.entriesPerCluster, (k + 1) % list.entriesPerCluster) := by
  have hpos := list.entriesPerCluster_pos
  have hlt := Nat.mod_lt k hpos
  have hk := Nat.mod_add_div k list.entriesPerCluster
  split_ifs with hwrap
  · obtain ⟨hdiv, hmod⟩ : (k + 1) / list.entriesPerCluster = k / list.entriesPerCluster + 1 ∧
        (k + 1) % list.entriesPerCluster = 0 :=
      (Nat.div_mod_unique hpos).mpr ⟨by rw [Nat.mul_succ]; omega, hpos⟩
    rw [hdiv, hmod]
  · obtain ⟨hdiv, hmod⟩ : (k + 1) / list.entriesPerCluster = k / list.entriesPerCluster ∧
        (k + 1) % list.entriesPerCluster = k % list.entriesPerCluster + 1 :=
      (Nat.div_mod_unique hpos).mpr ⟨by omega, by omega⟩
    rw [hdiv, hmod]

theorem div_lt_clusterCount (hk : k < list.slotCount) :
    k / list.entriesPerCluster < list.clusterCount :=
  Nat.div_lt_of_lt_mul (by rwa [Nat.mul_comm])

theorem value_place (k : ℕ) (entry : RawFATEntry) :
    list.value ⟨k / list.entriesPerCluster, k % list.entriesPerCluster, entry⟩ = (entry, k) := by
  rw [value, Nat.div_add_mod]

theorem next_eq (hk : k + 1 < list.slotCount) (readable : list.Readable read Inv slot (k + 1))
    (inv : Inv state) (entry : RawFATEntry) :
    ∃ state', list.next read state
        ⟨k / list.entriesPerCluster, k % list.entriesPerCluster, entry⟩ =
        some (state', list.settle ⟨(k + 1) / list.entriesPerCluster,
          (k + 1) % list.entriesPerCluster, slot (k + 1)⟩) ∧ Inv state' := by
  obtain ⟨state', hread, inv'⟩ := readable state inv
  refine ⟨state', ?_, inv'⟩
  have hinside := list.div_lt_clusterCount (k := k) (by omega)
  have hnext := list.div_lt_clusterCount hk
  unfold next
  dsimp only
  rw [if_pos hinside, place_succ, if_pos (by dsimp only; omega), hread, Option.map_some]

theorem next_last (read : SlotReader σ) (hk : k + 1 = list.slotCount) (state : σ)
    (entry : RawFATEntry) :
    list.next read state ⟨k / list.entriesPerCluster, k % list.entriesPerCluster, entry⟩ =
      some (state, ⟨list.clusterCount, 0, entry⟩) := by
  have hinside := list.div_lt_clusterCount (k := k) (by omega)
  have hdiv : (k + 1) / list.entriesPerCluster = list.clusterCount := by
    rw [hk, slotCount, Nat.mul_div_cancel _ list.entriesPerCluster_pos]
  have hmod : (k + 1) % list.entriesPerCluster = 0 := by
    rw [hk, slotCount, Nat.mul_mod_left]
  unfold next
  dsimp only
  rw [if_pos hinside, place_succ, hdiv, hmod, if_neg (not_not_intro rfl), settle]
  split_ifs <;> rfl

theorem forFrom_atEnd (read : SlotReader σ) (body : β → RawFATEntry × ℕ → Except ρ β)
    {fuel : ℕ} (hfuel : 0 < fuel) (state : σ) (entry : RawFATEntry) (acc : β) :
    list.forFrom read body fuel state ⟨list.clusterCount, 0, entry⟩ acc =
      some (state, .ok acc) := by
  obtain ⟨fuel, rfl⟩ := Nat.exists_eq_succ_of_ne_zero (Nat.pos_iff_ne_zero.mp hfuel)
  rw [forFrom, if_pos ⟨rfl, rfl⟩]

/-- **The loop as a fold**, from slot `k` on, when the slots it comes to can be read. -/
theorem forFrom_eq (body : β → RawFATEntry × ℕ → Except ρ β) :
    ∀ (fuel k : ℕ), k < list.slotCount → list.slotCount - k < fuel →
      (∀ k', k < k' → k' ≤ k + (visitedSlots (list.slotsFrom slot k)).length →
        k' < list.slotCount → list.Readable read Inv slot k') →
      ∀ (state : σ) (acc : β), Inv state →
        ∃ state', list.forFrom read body fuel state
            ⟨k / list.entriesPerCluster, k % list.entriesPerCluster, slot k⟩ acc =
            some (state', ((visitedSlots (list.slotsFrom slot k)).zipIdx k).foldlM body acc) ∧
          Inv state' := by
  intro fuel
  induction fuel with
  | zero => exact fun k _ hfuel => absurd hfuel (Nat.not_lt_zero _)
  | succ fuel ih =>
      intro k hk hfuel readable state acc inv
      have hinside := list.div_lt_clusterCount hk
      have hgoes : ¬ list.AtEnd
          ⟨k / list.entriesPerCluster, k % list.entriesPerCluster, slot k⟩ := by
        rintro ⟨hend, -⟩
        dsimp only at hend
        omega
      have hvisited : visitedSlots (list.slotsFrom slot k) = slot k ::
          (list.slotsFrom slot (k + 1)).takeWhile (·.type ≠ .EndOfDirectory) := by
        rw [slotsFrom_cons hk, visitedSlots]
      rw [hvisited] at readable
      rw [forFrom, if_neg hgoes, value_place, hvisited, List.zipIdx_cons, List.foldlM_cons]
      cases hbody : body acc (slot k, k) with
      | error result => exact ⟨state, rfl, inv⟩
      | ok acc' =>
          dsimp only
          by_cases hlast : k + 1 = list.slotCount
          · refine ⟨state, ?_, inv⟩
            rw [next_last read hlast, Option.bind_some,
              forFrom_atEnd read body (by omega), slotsFrom_of_le (by omega)]
            rfl
          · have hnext : k + 1 < list.slotCount := by omega
            rw [List.length_cons] at readable
            obtain ⟨state', hstep, inv'⟩ := list.next_eq hnext
              (readable (k + 1) (by omega) (by omega) hnext) inv (slot k)
            rw [hstep, Option.bind_some, slotsFrom_cons hnext]
            by_cases hmarker : (slot (k + 1)).type = .EndOfDirectory
            · refine ⟨state', ?_, inv'⟩
              have hsettle : list.settle ⟨(k + 1) / list.entriesPerCluster,
                  (k + 1) % list.entriesPerCluster, slot (k + 1)⟩ =
                  ⟨list.clusterCount, 0, slot (k + 1)⟩ := if_pos hmarker
              rw [hsettle, forFrom_atEnd read body (by omega),
                List.takeWhile_cons_of_neg (by simp [hmarker])]
              rfl
            · have hsettle : list.settle ⟨(k + 1) / list.entriesPerCluster,
                  (k + 1) % list.entriesPerCluster, slot (k + 1)⟩ =
                  ⟨(k + 1) / list.entriesPerCluster, (k + 1) % list.entriesPerCluster,
                    slot (k + 1)⟩ := if_neg hmarker
              have hrest : (list.slotsFrom slot (k + 1)).takeWhile (·.type ≠ .EndOfDirectory) =
                  visitedSlots (list.slotsFrom slot (k + 1)) := by
                rw [slotsFrom_cons hnext, visitedSlots,
                  List.takeWhile_cons_of_pos (by simp [hmarker])]
              rw [hrest] at readable
              rw [hsettle, ← slotsFrom_cons hnext, hrest]
              exact ih (k + 1) hnext (by omega)
                (fun k' hlow hhigh => readable k' (by omega) (by omega)) state' acc' inv'

/-- **A loop over the list** is a fold over the slots visited. -/
theorem forEach_eq (body : β → RawFATEntry × ℕ → Except ρ β)
    (hfirst : list.Readable read Inv slot 0) (readable : ∀ k, list.startIndex ≤ k →
      k ≤ list.startIndex + (visitedSlots (list.slotsFrom slot list.startIndex)).length →
      k < list.slotCount → list.Readable read Inv slot k) (inv : Inv state) (acc : β) :
    ∃ state', list.forEach read body state acc =
        some (state', ((visitedSlots (list.slotsFrom slot list.startIndex)).zipIdx
          list.startIndex).foldlM body acc) ∧ Inv state' := by
  have hstart : list.startIndex < list.slotCount := list.startIndex_lt
  obtain ⟨state₁, hread₁, inv₁⟩ := readable list.startIndex (Nat.le_refl _) (by omega) hstart
    state inv
  obtain ⟨state₂, hread₂, inv₂⟩ := hfirst state₁ inv₁
  rw [Nat.zero_div, Nat.zero_mod] at hread₂
  obtain ⟨state', hloop, inv'⟩ := list.forFrom_eq body
    (list.clusterCount * list.entriesPerCluster + 1) list.startIndex hstart
    (by have : list.slotCount = list.clusterCount * list.entriesPerCluster := rfl; omega)
    (fun k hlow hhigh => readable k (by omega) hhigh) state₂ acc inv₂
  refine ⟨state', ?_, inv'⟩
  rw [forEach, start, hread₁, Option.map_some, Option.bind_some, hread₂, Option.bind_some, hloop]

/-! ## What a loop keeps -/

theorem next_keeps
    (hread : ∀ state i j state' entry, Inv state → read state i j = some (state', entry) →
      Inv state') {it it' : FATEntryIterator} (h : list.next read state it = some (state', it'))
    (inv : Inv state) : Inv state' := by
  unfold next at h
  by_cases hchain : it.chainIndex < list.clusterCount
  · rw [if_pos hchain] at h
    generalize (if it.inClusterIndex + 1 = list.entriesPerCluster then (it.chainIndex + 1, 0)
      else (it.chainIndex, it.inClusterIndex + 1)) = moved at h
    dsimp only at h
    by_cases hmoved : moved.1 ≠ list.clusterCount
    · rw [if_pos hmoved] at h
      obtain ⟨⟨state₁, entry⟩, hentry, h⟩ := Option.map_eq_some_iff.mp h
      cases h
      exact hread _ _ _ _ _ inv hentry
    · rw [if_neg hmoved] at h
      cases h
      exact inv
  · rw [if_neg hchain] at h
    cases h

variable {body : β → RawFATEntry × ℕ → Except ρ β}

theorem forFrom_keeps
    (hread : ∀ state i j state' entry, Inv state → read state i j = some (state', entry) →
      Inv state') :
    ∀ (fuel : ℕ) {state state' : σ} {it : FATEntryIterator} {acc : β} {result : Except ρ β},
      list.forFrom read body fuel state it acc = some (state', result) → Inv state →
        Inv state' := by
  intro fuel
  induction fuel with
  | zero => exact fun h => nomatch h
  | succ fuel ih =>
      intro state state' it acc result h inv
      unfold forFrom at h
      split_ifs at h with hend
      · cases h
        exact inv
      · cases hbody : body acc (list.value it) with
        | error found =>
            rw [hbody] at h
            cases h
            exact inv
        | ok acc' =>
            rw [hbody] at h
            obtain ⟨⟨state₁, it'⟩, hnext, h⟩ := Option.bind_eq_some_iff.mp h
            exact ih h (next_keeps hread hnext inv)

/-- What reading a slot keeps, **a loop over the list** keeps. -/
theorem forEach_keeps
    (hread : ∀ state i j state' entry, Inv state → read state i j = some (state', entry) →
      Inv state') {acc : β} {result : Except ρ β}
    (h : list.forEach read body state acc = some (state', result)) (inv : Inv state) :
    Inv state' := by
  obtain ⟨⟨state₁, it⟩, hstart, h⟩ := Option.bind_eq_some_iff.mp h
  obtain ⟨⟨state₂, entry⟩, hend, h⟩ := Option.bind_eq_some_iff.mp h
  obtain ⟨⟨state₀, first⟩, hfirst, hstart⟩ := Option.map_eq_some_iff.mp hstart
  cases hstart
  have inv₁ := hread _ _ _ _ _ inv hfirst
  exact forFrom_keeps hread _ h (hread _ _ _ _ _ inv₁ hend)

/-! ## The slot a loop stops at -/

/-- Where `operator++` does not come to the end, it has read a slot. -/
theorem next_reads {it it' : FATEntryIterator} (h : list.next read state it = some (state', it'))
    (hgoes : ¬ list.AtEnd it') :
    ∃ i j e, read state i j = some (state', e) ∧ it' = ⟨i, j, e⟩ ∧
      (it.inClusterIndex < list.entriesPerCluster → j < list.entriesPerCluster) := by
  have hsettle : ∀ it₁, ¬ list.AtEnd (list.settle it₁) → list.settle it₁ = it₁ := by
    intro it₁ hgoes₁
    unfold settle at hgoes₁ ⊢
    split_ifs at hgoes₁ ⊢
    · exact absurd ⟨rfl, rfl⟩ hgoes₁
    · rfl
  unfold next at h
  by_cases hchain : it.chainIndex < list.clusterCount
  swap
  · rw [if_neg hchain] at h
    cases h
  rw [if_pos hchain] at h
  generalize hmoved : (if it.inClusterIndex + 1 = list.entriesPerCluster then (it.chainIndex + 1, 0)
    else (it.chainIndex, it.inClusterIndex + 1)) = moved at h
  dsimp only at h
  by_cases hinside : moved.1 ≠ list.clusterCount
  · rw [if_pos hinside] at h
    obtain ⟨⟨state₁, e⟩, hread, h⟩ := Option.map_eq_some_iff.mp h
    cases h
    refine ⟨moved.1, moved.2, e, hread, hsettle _ hgoes, fun hin => ?_⟩
    have hpos := list.entriesPerCluster_pos
    split_ifs at hmoved <;> subst hmoved
    · exact hpos
    · show it.inClusterIndex + 1 < list.entriesPerCluster
      omega
  · rw [if_neg hinside] at h
    cases h
    have hend : moved.1 = list.clusterCount := not_not.mp hinside
    have hfirst : moved.2 = 0 := by
      split_ifs at hmoved <;> subst hmoved
      · rfl
      · exact absurd hend hchain.ne
    rw [hsettle _ hgoes] at hgoes
    exact absurd ⟨hend, hfirst⟩ hgoes

/-- The slot that a body returns with has been read last, or was the first. -/
theorem forFrom_error (hread : ∀ state i j state' entry, Inv state → j < list.entriesPerCluster →
      read state i j = some (state', entry) → Inv state') :
    ∀ (fuel : ℕ) {state state' : σ} {it : FATEntryIterator} {acc : β} {result : ρ},
      list.forFrom read body fuel state it acc = some (state', .error result) →
      it.inClusterIndex < list.entriesPerCluster → Inv state →
      state' = state ∧ body acc (list.value it) = .error result ∨
        ∃ state₁ i j e acc', Inv state₁ ∧ read state₁ i j = some (state', e) ∧
          j < list.entriesPerCluster ∧
          body acc' (e, list.entriesPerCluster * i + j) = .error result := by
  intro fuel
  induction fuel with
  | zero => exact fun h => nomatch h
  | succ fuel ih =>
      intro state state' it acc result h hin inv
      unfold forFrom at h
      split_ifs at h with hend
      · cases h
      cases hbody : body acc (list.value it) with
      | error found =>
          rw [hbody] at h
          cases h
          exact Or.inl ⟨rfl, rfl⟩
      | ok acc' =>
          rw [hbody] at h
          obtain ⟨⟨state₁, it'⟩, hnext, h⟩ := Option.bind_eq_some_iff.mp h
          by_cases hend' : list.AtEnd it'
          · cases fuel with
            | zero => cases h
            | succ fuel =>
                dsimp only at h
                rw [forFrom, if_pos hend'] at h
                cases h
          · obtain ⟨i, j, e, hslot, rfl, hj⟩ := next_reads hnext hend'
            obtain ⟨rfl, hfound⟩ | hlater := ih h (hj hin) (hread _ _ _ _ _ inv (hj hin) hslot)
            · exact Or.inr ⟨state, i, j, e, acc', inv, hslot, hj hin, hfound⟩
            · exact Or.inr hlater

end FATRawEntryList

end BekOS
