import BekOS.Filesystem.DirectoryParse

/-!
# Long names on the disk

The slots that the FAT specification prescribes for a long name: fragments of 13
units, each in a slot of its own, the last of them first, with the checksum of the
short name in every one.  `extract_long_name` accepts these slots, but it puts the
fragments together in the order in which they are stored.
-/

namespace BekOS

/-! ## Fragments -/

section Fragments

variable {α : Type*} {width count : ℕ} {units : List α}

/-- Fragment `i`: the last one may be shorter than the others. -/
def fragment (width : ℕ) (units : List α) (i : ℕ) : List α := (units.drop (width * i)).take width

/-- The first `count` fragments. -/
def fragments (width : ℕ) (units : List α) (count : ℕ) : List (List α) :=
  (List.range count).map (fragment width units)

theorem fragments_succ :
    fragments width units (count + 1) =
      fragments width units count ++ [fragment width units count] := by
  rw [fragments, List.range_succ, List.map_append, List.map_singleton, fragments]

theorem length_fragments : (fragments width units count).length = count := by
  rw [fragments, List.length_map, List.length_range]

theorem flatten_fragments : (fragments width units count).flatten = units.take (width * count) := by
  induction count with
  | zero => rfl
  | succ count ih =>
      rw [fragments_succ, List.flatten_append, ih, List.flatten_singleton, Nat.mul_succ,
        List.take_add, fragment]

theorem length_fragment_le {i : ℕ} : (fragment width units i).length ≤ width := by
  rw [fragment, List.length_take]
  exact Nat.min_le_left _ _

theorem length_fragment_of_le {i : ℕ} (h : width * (i + 1) ≤ units.length) :
    (fragment width units i).length = width := by
  rw [Nat.mul_succ] at h
  rw [fragment, List.length_take, List.length_drop]
  omega

theorem mem_of_mem_fragment {i : ℕ} {unit : α} (h : unit ∈ fragment width units i) :
    unit ∈ units :=
  List.mem_of_mem_drop (List.mem_of_mem_take h)

theorem flatten_reverse_fragments_eq_iff (h : units.length = width * count) :
    (fragments width units count).reverse.flatten = units ↔
      (fragments width units count).reverse = fragments width units count := by
  have hfull : ∀ piece ∈ fragments width units count, piece.length = width := by
    intro piece hpiece
    obtain ⟨i, hi, rfl⟩ := List.mem_map.mp hpiece
    refine length_fragment_of_le ?_
    rw [h]
    exact Nat.mul_le_mul_left width (List.mem_range.mp hi)
  have hlengths : ∀ pieces : List (List α), pieces.length = count →
      (∀ piece ∈ pieces, piece.length = width) →
      pieces.map List.length = List.replicate count width := by
    intro pieces hcount hpieces
    refine List.eq_replicate_iff.mpr ⟨by rw [List.length_map, hcount], fun length hlength => ?_⟩
    obtain ⟨piece, hpiece, rfl⟩ := List.mem_map.mp hlength
    exact hpieces piece hpiece
  have hforwards := hlengths _ length_fragments hfull
  have hbackwards := hlengths (fragments width units count).reverse
    (by rw [List.length_reverse, length_fragments])
    fun piece hpiece => hfull piece (List.mem_reverse.mp hpiece)
  have hunits : (fragments width units count).flatten = units := by
    rw [flatten_fragments, ← h, List.take_length]
  rw [List.eq_iff_flatten_eq, hbackwards, hforwards, hunits]
  exact (and_iff_left rfl).symm

end Fragments

/-! ## Slots -/

/-- The bytes of a unit. -/
def unitBytes (unit : ℕ) : List Byte := [BitVec.ofNat 8 unit, BitVec.ofNat 8 (unit / 256)]

/-- `RawFATLFNEntry`, with 13 units. -/
def longNameSlot (order checksum : Byte) (units : List ℕ) : RawFATEntry :=
  .ofBytes ([order] ++ (units.take 5).flatMap unitBytes ++ [0x0F, 0, checksum] ++
    ((units.drop 5).take 6).flatMap unitBytes ++ [0, 0] ++ (units.drop 11).flatMap unitBytes)

/-- A fragment of 13 units: a shorter one is ended with a zero. -/
def padFragment (units : List ℕ) : List ℕ :=
  if units.length < 13 then (units ++ 0 :: List.replicate 12 0xFFFF).take 13 else units

/-- The slots a name takes. -/
def slotCount (units : List ℕ) : ℕ := (units.length + 12) / 13

/-- The checksum of the specification: rotate it to the right, and add the next
character. -/
def shortNameChecksum (name : List Byte) : Byte :=
  name.foldl (fun sum character => sum.rotateRight 1 + character) 0

/-- The order of slot `i` of `count`, which the first of them marks. -/
def slotOrder (count i : ℕ) : Byte :=
  BitVec.ofNat 8 (if i = 0 then count ||| 0x40 else count - i)

/-- **The slots of a long name**: those with later units come first. -/
def longNameSlots (units : List ℕ) (shortName : List Byte) : List RawFATEntry :=
  (List.range (slotCount units)).map fun i =>
    longNameSlot (slotOrder (slotCount units) i) (shortNameChecksum shortName)
      (padFragment (fragment 13 units (slotCount units - 1 - i)))

section Slots

variable {order sum : Byte} {units : List ℕ} {i : ℕ}

theorem rotate_checksum (checksum : Byte) :
    (if checksum &&& 1 ≠ 0 then 0x80#8 else 0) + (checksum >>> 1) = checksum.rotateRight 1 := by
  decide +revert +kernel

theorem checksumShortname_eq (name : List Byte) :
    checksumShortname name = shortNameChecksum name := by
  unfold checksumShortname shortNameChecksum
  congr 1
  funext checksum character
  rw [rotate_checksum]

theorem byte_ofBytes (bytes : List Byte) (h : i < 32) :
    (RawFATEntry.ofBytes bytes).byte i = bytes.getD i 0 := by
  simp [RawFATEntry.byte, RawFATEntry.ofBytes, h]

theorem length_padFragment (h : units.length ≤ 13) : (padFragment units).length = 13 := by
  rw [padFragment]
  split_ifs with hshort
  · rw [List.length_take, List.length_append, List.length_cons, List.length_replicate]
    omega
  · omega

theorem lt_of_mem_padFragment (h : ∀ unit ∈ units, unit < 65536) {unit : ℕ}
    (hunit : unit ∈ padFragment units) : unit < 65536 := by
  rw [padFragment] at hunit
  split_ifs at hunit with hshort
  · rcases List.mem_append.mp (List.mem_of_mem_take hunit) with hname | hpad
    · exact h unit hname
    · rcases List.mem_cons.mp hpad with rfl | hpad
      · decide
      · rw [List.eq_of_mem_replicate hpad]
        decide
  · exact h unit hunit

theorem exists_of_length_eq (h : units.length = 13) :
    ∃ a b c d e f g h i j k l m, units = [a, b, c, d, e, f, g, h, i, j, k, l, m] := by
  match units, h with
  | [a, b, c, d, e, f, g, h, i, j, k, l, m], _ => exact ⟨a, b, c, d, e, f, g, h, i, j, k, l, m, rfl⟩

theorem chars_longNameSlot (hlength : units.length = 13) (h : ∀ unit ∈ units, unit < 65536) :
    (longNameSlot order sum units).chars = units := by
  obtain ⟨a, b, c, d, e, f, g, h, i, j, k, l, m, rfl⟩ := exists_of_length_eq hlength
  simp only [List.forall_mem_cons] at h
  simp [RawFATEntry.chars, List.range_succ, longNameSlot, leRead, byte_ofBytes, unitBytes]
  omega

theorem checksum_longNameSlot (hlength : units.length = 13) :
    (longNameSlot order sum units).checksum = sum := by
  obtain ⟨a, b, c, d, e, f, g, h, i, j, k, l, m, rfl⟩ := exists_of_length_eq hlength
  simp [RawFATEntry.checksum, longNameSlot, byte_ofBytes, unitBytes]

theorem order_longNameSlot : (longNameSlot order sum units).order = order := by
  simp [RawFATEntry.order, longNameSlot, byte_ofBytes]

theorem type_longNameSlot (hlength : units.length = 13) (hzero : order ≠ 0)
    (hdeleted : order ≠ 0xE5) : (longNameSlot order sum units).type = .LongFileName := by
  obtain ⟨a, b, c, d, e, f, g, h, i, j, k, l, m, rfl⟩ := exists_of_length_eq hlength
  have hattrib : (longNameSlot order sum [a, b, c, d, e, f, g, h, i, j, k, l, m]).byte 11 =
      0x0F := by
    simp [longNameSlot, byte_ofBytes, unitBytes]
  have horder : (longNameSlot order sum [a, b, c, d, e, f, g, h, i, j, k, l, m]).byte 0 = order :=
    order_longNameSlot
  rw [RawFATEntry.type, hattrib, horder, if_neg hzero, if_neg hdeleted]
  rfl

theorem toNat_slotOrder {count : ℕ} (hcount : count < 64) :
    (slotOrder count i).toNat = if i = 0 then count ||| 0x40 else count - i := by
  rw [slotOrder, BitVec.toNat_ofNat]
  refine Nat.mod_eq_of_lt ?_
  split_ifs
  · rw [IsLongNameSet.or_flag hcount]
    omega
  · omega

end Slots

/-! ## Reading them -/

section Names

variable {units : List ℕ} {shortName : List Byte}

theorem length_padFragment_fragment {i : ℕ} :
    (padFragment (fragment 13 units i)).length = 13 :=
  length_padFragment length_fragment_le

theorem isLongNameSet_longNameSlots (hne : units ≠ []) (hlength : units.length ≤ 255) :
    IsLongNameSet (longNameSlots units shortName) (shortNameChecksum shortName) := by
  have hpos : 0 < units.length := List.length_pos_iff.mpr hne
  have hcount : slotCount units < 64 := by
    unfold slotCount
    omega
  have hslots : (longNameSlots units shortName).length = slotCount units := by
    rw [longNameSlots, List.length_map, List.length_range]
  refine ⟨fun hnil => ?_, hslots ▸ hcount, fun i e he => ?_⟩
  · rw [hnil, List.length_nil, slotCount] at hslots
    omega
  · have hi : i < slotCount units := hslots ▸ (List.getElem?_eq_some_iff.mp he).1
    rw [longNameSlots, List.getElem?_map, List.getElem?_range hi, Option.map_some,
      Option.some_inj] at he
    subst he
    have horder := toNat_slotOrder (i := i) hcount
    have hsmall : (slotOrder (slotCount units) i).toNat ≠ 0 ∧
        (slotOrder (slotCount units) i).toNat ≠ 0xE5 := by
      rw [horder]
      split_ifs
      · rw [IsLongNameSet.or_flag hcount]
        omega
      · omega
    refine ⟨type_longNameSlot length_padFragment_fragment ?_ ?_,
      checksum_longNameSlot length_padFragment_fragment, ?_⟩
    · exact fun hzero => hsmall.1 (congrArg BitVec.toNat hzero)
    · exact fun hdeleted => hsmall.2 (congrArg BitVec.toNat hdeleted)
    · rw [order_longNameSlot, horder, hslots]

theorem flatMap_chars_longNameSlots (h : ∀ unit ∈ units, unit < 65536) :
    (longNameSlots units shortName).flatMap RawFATEntry.chars =
      ((fragments 13 units (slotCount units)).reverse.map padFragment).flatten := by
  have hchars : ∀ i, (longNameSlot (slotOrder (slotCount units) i) (shortNameChecksum shortName)
      (padFragment (fragment 13 units (slotCount units - 1 - i)))).chars =
        padFragment (fragment 13 units (slotCount units - 1 - i)) := fun i =>
    chars_longNameSlot length_padFragment_fragment fun _ =>
      lt_of_mem_padFragment fun unit hunit => h unit (mem_of_mem_fragment hunit)
  have hreverse : (fragments 13 units (slotCount units)).reverse =
      (List.range (slotCount units)).map fun i => fragment 13 units (slotCount units - 1 - i) := by
    rw [fragments, ← List.map_reverse, List.range_eq_range', List.reverse_range', List.map_map,
      Nat.zero_add, ← List.range_eq_range']
    rfl
  rw [List.flatMap_def, longNameSlots, List.map_map, hreverse, List.map_map]
  congr 2
  funext i
  exact hchars i

theorem cString_map_of_range (h : ∀ unit ∈ units, 1 ≤ unit ∧ unit ≤ 255) :
    cString (units.map (BitVec.ofNat 8)) = units.map (BitVec.ofNat 8) := by
  refine List.takeWhile_eq_self_iff.mpr fun character hcharacter => ?_
  obtain ⟨unit, hunit, rfl⟩ := List.mem_map.mp hcharacter
  obtain ⟨hlow, hhigh⟩ := h unit hunit
  refine decide_eq_true fun hzero => ?_
  have := congrArg BitVec.toNat hzero
  rw [BitVec.toNat_ofNat, Nat.mod_eq_of_lt (by omega)] at this
  exact absurd this (Nat.pos_iff_ne_zero.mp hlow)

theorem takeWhile_of_range (h : ∀ unit ∈ units, 1 ≤ unit ∧ unit ≤ 255) :
    units.takeWhile (· ≠ 0) = units :=
  List.takeWhile_eq_self_iff.mpr fun unit hunit =>
    decide_eq_true (Nat.pos_iff_ne_zero.mp (h unit hunit).1)

theorem nameOfUnits_of_range (h : ∀ unit ∈ units, 1 ≤ unit ∧ unit ≤ 255) :
    nameOfUnits units = units.map (BitVec.ofNat 8) := by
  rw [nameOfUnits, takeWhile_of_range h, cString_map_of_range h]

theorem nameOfUnits_padFragment {rest : List ℕ} (h : ∀ unit ∈ units, 1 ≤ unit ∧ unit ≤ 255)
    (hshort : units.length < 13) :
    nameOfUnits (padFragment units ++ rest) = units.map (BitVec.ofNat 8) := by
  obtain ⟨more, hpad⟩ : ∃ more, padFragment units = units ++ 0 :: more := by
    refine ⟨(List.replicate 12 0xFFFF).take (12 - units.length), ?_⟩
    rw [padFragment, if_pos hshort, List.take_append, List.take_of_length_le hshort.le,
      show 13 - units.length = (12 - units.length) + 1 by omega, List.take_succ_cons]
  have hends : (padFragment units ++ rest).takeWhile (· ≠ 0) = units := by
    rw [hpad, List.append_assoc, List.cons_append,
      List.takeWhile_append_of_pos fun unit hunit =>
        decide_eq_true (Nat.pos_iff_ne_zero.mp (h unit hunit).1),
      List.takeWhile_cons_of_neg (by decide), List.append_nil]
  rw [nameOfUnits, hends, cString_map_of_range h]

theorem map_ofNat_inj {units' : List ℕ} (h : ∀ unit ∈ units, 1 ≤ unit ∧ unit ≤ 255)
    (h' : ∀ unit ∈ units', 1 ≤ unit ∧ unit ≤ 255) :
    units.map (BitVec.ofNat 8) = units'.map (BitVec.ofNat 8) ↔ units = units' := by
  have hback : ∀ list : List ℕ, (∀ unit ∈ list, 1 ≤ unit ∧ unit ≤ 255) →
      (list.map (BitVec.ofNat 8)).map BitVec.toNat = list := by
    intro list hlist
    rw [List.map_map]
    refine (List.map_congr_left fun unit hunit => ?_).trans (List.map_id list)
    have := hlist unit hunit
    rw [Function.comp_apply, BitVec.toNat_ofNat, Nat.mod_eq_of_lt (by omega), id]
  refine ⟨fun hsame => ?_, fun hsame => congrArg _ hsame⟩
  rw [← hback units h, hsame, hback units' h']

end Names

/-- **When a long name is read back**: it has no more than one fragment, or all its
fragments are full and the order in which they are put together does not matter. -/
theorem toBasic_longNameSlots_iff (units : List ℕ) (item : RawFATEntry)
    (hne : units ≠ []) (hlength : units.length ≤ 255)
    (hunits : ∀ unit ∈ units, 1 ≤ unit ∧ unit ≤ 255) :
    (PackedFATEntry.toBasic ⟨longNameSlots units item.fatname, item⟩).name =
        units.map (BitVec.ofNat 8) ↔
      units.length ≤ 13 ∨ 13 ∣ units.length ∧
        (fragments 13 units (units.length / 13)).reverse =
          fragments 13 units (units.length / 13) := by
  have hset := @isLongNameSet_longNameSlots units item.fatname hne hlength
  have hwide : ∀ unit ∈ units, unit < 65536 := fun unit hunit => by
    have := hunits unit hunit
    omega
  rw [← checksumShortname_eq] at hset
  have hname : (PackedFATEntry.toBasic ⟨longNameSlots units item.fatname, item⟩).name =
      nameOfUnits ((fragments 13 units (slotCount units)).reverse.map padFragment).flatten := by
    rw [PackedFATEntry.toBasic, ← flatMap_chars_longNameSlots hwide]
    exact extractName_eq hset
  rw [hname]
  have hpos : 0 < units.length := List.length_pos_iff.mpr hne
  by_cases hfull : 13 ∣ units.length
  · -- No fragment is padded.
    obtain ⟨count, hcount⟩ := hfull
    have hslots : slotCount units = count := by
      unfold slotCount
      omega
    have hpadded : (fragments 13 units count).reverse.map padFragment =
        (fragments 13 units count).reverse := by
      refine (List.map_congr_left fun piece hpiece => ?_).trans (List.map_id _)
      obtain ⟨i, hi, rfl⟩ := List.mem_map.mp (List.mem_reverse.mp hpiece)
      have hi := List.mem_range.mp hi
      rw [padFragment, if_neg (by rw [length_fragment_of_le (by omega)]; omega), id]
    have hmem : ∀ unit ∈ (fragments 13 units count).reverse.flatten, 1 ≤ unit ∧ unit ≤ 255 := by
      intro unit hunit
      obtain ⟨piece, hpiece, hunit⟩ := List.mem_flatten.mp hunit
      obtain ⟨i, -, rfl⟩ := List.mem_map.mp (List.mem_reverse.mp hpiece)
      exact hunits unit (mem_of_mem_fragment hunit)
    rw [hslots, hpadded, nameOfUnits_of_range hmem, map_ofNat_inj hmem hunits,
      flatten_reverse_fragments_eq_iff hcount, show units.length / 13 = count by omega]
    refine ⟨fun hsame => Or.inr ⟨⟨count, hcount⟩, hsame⟩, ?_⟩
    rintro (hshort | ⟨-, hsame⟩)
    · have hone : count = 1 := by omega
      subst hone
      rfl
    · exact hsame
  · -- The fragment that is read first is short, and ends the name.
    obtain ⟨before, hslots⟩ : ∃ before, slotCount units = before + 1 :=
      ⟨slotCount units - 1, by unfold slotCount; omega⟩
    have hlast : (fragment 13 units before).length = units.length - 13 * before ∧
        units.length - 13 * before < 13 := by
      unfold slotCount at hslots
      rw [fragment, List.length_take, List.length_drop]
      omega
    have hread : nameOfUnits
        ((fragments 13 units (slotCount units)).reverse.map padFragment).flatten =
          (fragment 13 units before).map (BitVec.ofNat 8) := by
      rw [hslots, fragments_succ, List.reverse_append, List.reverse_singleton,
        List.singleton_append, List.map_cons, List.flatten_cons]
      exact nameOfUnits_padFragment
        (fun unit hunit => hunits unit (mem_of_mem_fragment hunit)) (by omega)
    rw [hread]
    constructor
    · intro hsame
      have hlengths := congrArg List.length hsame
      rw [List.length_map, List.length_map] at hlengths
      left
      omega
    · rintro (hshort | ⟨hfull', -⟩)
      · have hzero : before = 0 := by
          unfold slotCount at hslots
          omega
        rw [hzero, fragment, Nat.mul_zero, List.drop_zero, List.take_of_length_le hshort]
      · exact absurd hfull' hfull

/-- A name of one fragment, and one of two that are the same, are read back. -/
theorem toBasic_longNameSlots_same :
    (PackedFATEntry.toBasic ⟨longNameSlots [0x61, 0x62] itemA.fatname, itemA⟩).name =
        [0x61, 0x62] ∧
      (PackedFATEntry.toBasic ⟨longNameSlots (List.replicate 26 0x61) itemA.fatname, itemA⟩).name =
        List.replicate 26 0x61 :=
  ⟨(toBasic_longNameSlots_iff [0x61, 0x62] itemA (by decide) (by decide) (by decide)).mpr
      (Or.inl (by decide)),
    (toBasic_longNameSlots_iff (List.replicate 26 0x61) itemA (by decide) (by decide)
      (by decide)).mpr (Or.inr ⟨by decide, by decide⟩)⟩

/-- Of a name of 14 characters only the last is read, and the halves of one of 26
change places. -/
theorem toBasic_longNameSlots_fails :
    (PackedFATEntry.toBasic ⟨longNameSlots (List.range' 97 14) itemA.fatname, itemA⟩).name =
        [0x6E] ∧
      (PackedFATEntry.toBasic ⟨longNameSlots (List.range' 97 14) itemA.fatname, itemA⟩).name ≠
        (List.range' 97 14).map (BitVec.ofNat 8) ∧
      (PackedFATEntry.toBasic ⟨longNameSlots (List.range' 97 26) itemA.fatname, itemA⟩).name ≠
        (List.range' 97 26).map (BitVec.ofNat 8) := by
  refine ⟨?_, ?_, ?_⟩ <;> decide +kernel

end BekOS
