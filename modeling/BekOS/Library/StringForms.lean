import BekOS.Library.StringMemory
import BekOS.Lib.SoleOwners

/-!
# What the constructors of `bek::string` leave

Each constructor leaves a union in the form that the length asks for, and what it points to ends
with a zero.
-/

namespace BekOS.StringMemory

open StringBytes

/-! ## The union -/

section Union

variable {bytes : StringBytes} {field capacity length pointer : ℕ}

theorem isLong_iff (bytes : StringBytes) (width : ℕ) :
    bytes.isLong = true ↔ leRead bytes 0 (width + 1) % 2 = 1 := by
  have hread : leRead bytes 0 (width + 1) = (bytes 0).toNat + 256 * leRead bytes 1 width := rfl
  have hand : bytes 0 &&& 0x1 = 0 ↔ (bytes 0).toNat % 2 = 0 := by
    rw [← BitVec.toNat_inj, BitVec.toNat_and]
    exact Iff.of_eq (congrArg (· = 0) (Nat.and_one_is_mod _))
  rw [isLong, decide_eq_true_iff, ne_eq, hand, hread]
  omega

/-- The long form. -/
def longBytes (field length pointer : ℕ) : StringBytes :=
  setLongData (leWrite (leWrite zero 0 field 4) 4 length 4) pointer

theorem leRead_longBytes :
    leRead (longBytes field length pointer) 0 4 = field % 2 ^ 32 ∧
      longLength (longBytes field length pointer) = length % 2 ^ 32 ∧
      longData (longBytes field length pointer) = pointer % 2 ^ 64 := by
  unfold longBytes longLength longData setLongData
  refine ⟨?_, ?_, ?_⟩
  · rw [leRead_leWrite_of_disjoint (by omega), leRead_leWrite_of_disjoint (by omega),
      leRead_leWrite]
    rfl
  · rw [leRead_leWrite_of_disjoint (by omega), leRead_leWrite]
    rfl
  · rw [leRead_leWrite]
    rfl

theorem shiftLeft_or_one (n : ℕ) : n <<< 1 ||| 0x1 = 2 * n + 1 := by
  rw [← Nat.shiftLeft_add_eq_or_of_lt (by decide), Nat.shiftLeft_eq]
  omega

theorem getLongCapacity_longBytes (h : field < 2 ^ 32) :
    getLongCapacity (longBytes field length pointer) = field / 2 := by
  rw [getLongCapacity, leRead_longBytes.1, Nat.mod_eq_of_lt h]
  exact Nat.shiftRight_eq_div_pow _ 1

theorem isLong_longBytes (h : field < 2 ^ 32) :
    (longBytes field length pointer).isLong = true ↔ field % 2 = 1 := by
  rw [isLong_iff _ 3, leRead_longBytes.1, Nat.mod_eq_of_lt h]

theorem setLongCapacity_eq (h : capacity < 2 ^ 31 - 1) :
    setLongCapacity zero capacity = .ok (leWrite zero 0 (2 * capacity + 1) 4) := by
  have hu32 : u32 capacity = capacity := Nat.mod_eq_of_lt (by omega)
  rw [setLongCapacity, hu32, shiftLeft_or_one]
  rw [verify_of h, ok_bind]
  rfl

/-- The short form. -/
def shortBytes (length : ℕ) : StringBytes := leWrite zero 0 (2 * length) 1

theorem setShortLength_eq (h : length ≤ 14) :
    setShortLength zero length = .ok (shortBytes length) := by
  have hmod : length % 2 ^ 8 = length := Nat.mod_eq_of_lt (by omega)
  have hshift : length <<< 1 = 2 * length := by
    rw [Nat.shiftLeft_eq]
    omega
  rw [setShortLength, hmod, hshift, verify_of h, ok_bind]
  rfl

end Union

/-! ## The heap -/

/-- Two buffers do not meet. -/
def Buffer.Apart (buffer other : Buffer) : Prop :=
  buffer.pointer + buffer.granted ≤ other.pointer ∨ other.pointer + other.granted ≤ buffer.pointer

/-- What `mem::allocate` may return for a size: memory that no live buffer has.  The kernel's
allocator and the one of user programs round up by less than two pages. -/
structure Grants (heap : StringHeap) (size : ℕ) (region : AllocatedRegion) : Prop where
  ne_null : region.pointer ≠ 0
  size_le : size ≤ region.size
  size_lt : region.size < size + 8192
  inMemory : region.pointer + region.size ≤ 2 ^ 64
  apart : ∀ buffer ∈ heap.live,
    buffer.pointer + buffer.granted ≤ region.pointer ∨ region.pointer + region.size ≤ buffer.pointer

section Heap

variable {heap : StringHeap} {size pointer : ℕ} {region : AllocatedRegion} {chars : List Byte}

theorem allocate_eq (h : region.pointer ≠ 0) : heap.allocate size region =
    { heap with
      live := ⟨region.pointer, size, region.size⟩ :: heap.live
      allocated := ⟨region.pointer, size, region.size⟩ :: heap.allocated } := if_neg h

theorem write_eq (h : heap.Inside pointer chars.length) : heap.write pointer chars =
    .ok { heap with
      memory := copyRange heap.memory pointer (fun i => chars.getD i 0) 0 chars.length } := by
  unfold StringHeap.write
  by_cases hnil : chars = []
  · rw [if_pos hnil, hnil, List.length_nil, copyRange_zero]
  · rw [if_neg hnil, if_pos h]

theorem inside_allocate (h : region.pointer ≠ 0) {off count : ℕ}
    (hcount : off + count ≤ region.size) :
    (heap.allocate size region).Inside (region.pointer + off) count := by
  rw [allocate_eq h]
  exact ⟨_, List.mem_cons_self, Nat.le_add_right _ _, by dsimp only; omega⟩

end Heap

/-! ## Texts -/

/-- A union holds a text. -/
structure HoldsText (heap : StringHeap) (bytes : StringBytes) (text : List Byte) : Prop where
  isLong_iff : bytes.isLong = true ↔ 14 < text.length
  size_eq : bytes.size = text.length
  data_eq : bytes.dataBytes heap.memory (text.length + 1) = text ++ [0]
  /-- A long string has a buffer, of a size that it may be freed with. -/
  buffer : bytes.isLong = true → ∃ buffer ∈ heap.live, buffer.pointer = bytes.longData ∧
    buffer.requested ≤ bytes.getLongCapacity ∧ bytes.getLongCapacity ≤ buffer.granted ∧
    text.length + 1 ≤ bytes.getLongCapacity

/-- What a constructor leaves: a text, in a new buffer if it is long. -/
structure Constructed (heap : StringHeap) (text : List Byte) (heap' : StringHeap)
    (bytes : StringBytes) : Prop where
  holds : HoldsText heap' bytes text
  freed : heap'.freed = heap.freed
  short : bytes.isLong = false → heap' = heap
  long : bytes.isLong = true → ∃ buffer, heap'.live = buffer :: heap.live ∧
    heap'.allocated = buffer :: heap.allocated ∧ buffer.pointer = bytes.longData ∧
    buffer.pointer ≠ 0 ∧ 0 < buffer.granted ∧
    (∀ other ∈ heap.live, other.Apart buffer) ∧
    ∀ a, ¬ (buffer.pointer ≤ a ∧ a < buffer.pointer + buffer.granted) →
      heap'.memory a = heap.memory a

section Constructors

variable {heap : StringHeap} {region : AllocatedRegion} {text : List Byte}

theorem constructed_long {size : ℕ} (hgrants : Grants heap size region) (capacity : ℕ)
    (memory : Memory Byte) (hcapacity : size ≤ capacity ∧ capacity ≤ region.size)
    (hlong : 14 < text.length) (hroom : text.length + 1 ≤ capacity) (hlt : capacity < 2 ^ 31)
    (hmemory : ∀ a, ¬ (region.pointer ≤ a ∧ a < region.pointer + region.size) →
      memory a = heap.memory a)
    (hdata : slice memory region.pointer (text.length + 1) = text ++ [0]) :
    Constructed heap text { heap.allocate size region with memory := memory }
      (longBytes (2 * capacity + 1) text.length region.pointer) := by
  have hfield : 2 * capacity + 1 < 2 ^ 32 := by omega
  have hinMemory := hgrants.inMemory
  obtain ⟨-, hlength, hpointer⟩ :=
    @leRead_longBytes (2 * capacity + 1) text.length region.pointer
  rw [Nat.mod_eq_of_lt (by omega)] at hlength hpointer
  have hisLong : (longBytes (2 * capacity + 1) text.length region.pointer).isLong = true :=
    (isLong_longBytes hfield).mpr (by omega)
  have hcap : getLongCapacity (longBytes (2 * capacity + 1) text.length region.pointer) =
      capacity := by
    rw [getLongCapacity_longBytes hfield]
    omega
  rw [allocate_eq hgrants.ne_null]
  refine ⟨⟨iff_of_true hisLong hlong, ?_, ?_, fun _ => ?_⟩, rfl, fun h => ?_, fun _ => ?_⟩
  · rw [StringBytes.size, if_pos hisLong, hlength]
  · rw [dataBytes, if_pos hisLong, hpointer]
    exact hdata
  · rw [hpointer, hcap]
    exact ⟨_, List.mem_cons_self, rfl, hcapacity.1, hcapacity.2, hroom⟩
  · rw [hisLong] at h
    cases h
  · refine ⟨_, rfl, rfl, hpointer.symm, hgrants.ne_null, ?_, hgrants.apart, hmemory⟩
    dsimp only
    omega

theorem constructed_short (hshort : text.length ≤ 14) (bytes : StringBytes)
    (hlength : leRead bytes 0 1 = 2 * text.length)
    (hdata : slice bytes 1 (text.length + 1) = text ++ [0]) :
    Constructed heap text heap bytes := by
  have hisLong : bytes.isLong = false := by
    rw [← Bool.not_eq_true, isLong_iff _ 0, hlength]
    omega
  have hne : bytes.isLong ≠ true := by
    rw [hisLong]
    decide
  refine ⟨⟨iff_of_false hne (by omega), ?_, ?_, fun h => absurd h hne⟩, rfl, fun _ => rfl,
    fun h => absurd h hne⟩
  · rw [StringBytes.size, if_neg hne, getShortLength, hlength, Nat.shiftRight_eq_div_pow]
    omega
  · rw [dataBytes, if_neg hne]
    exact hdata

theorem slice_fill_zero (memory : Memory Byte) (place : ℕ) (text : List Byte) :
    slice (copyRange (copyRange memory place (fun i => text.getD i 0) 0 text.length)
      (place + text.length) (fun i => [(0 : Byte)].getD i 0) 0 1) place (text.length + 1) =
      text ++ [0] := by
  rw [slice_add, slice_copyRange_of_disjoint (by omega), slice_copyRange_self, slice_getD _ _ le_rfl, List.take_length,
    slice_copyRange_self]
  rfl

theorem slice_fill (memory : Memory Byte) (place : ℕ) (chars : List Byte) :
    slice (copyRange memory place (fun i => chars.getD i 0) 0 chars.length) place chars.length =
      chars := by
  rw [slice_copyRange_self, slice_getD _ _ le_rfl, List.take_length]

theorem leRead_copyRange_short {bytes src : Memory Byte} {i count : ℕ} :
    leRead (copyRange bytes (1 + i) src 0 count) 0 1 = leRead bytes 0 1 :=
  leRead_congr fun j hj => copyRange_of_not_mem (by omega)

theorem leRead_shortBytes {length : ℕ} (h : length ≤ 14) :
    leRead (shortBytes length) 0 1 = 2 * length := by
  rw [shortBytes, leRead_leWrite]
  omega

theorem writeShort_eq {bytes : StringBytes} {i : ℕ} {chars : List Byte}
    (h : i + chars.length ≤ 15) : writeShort bytes i chars =
      .ok (copyRange bytes (1 + i) (fun j => chars.getD j 0) 0 chars.length) := if_pos h

@[simp] theorem memory_allocate (size : ℕ) : (heap.allocate size region).memory = heap.memory := by
  unfold StringHeap.allocate
  split_ifs <;> rfl

theorem write_allocated {size off : ℕ} {chars : List Byte} (hgrants : Grants heap size region)
    (memory : Memory Byte) (hcount : off + chars.length ≤ region.size) :
    StringHeap.write { heap.allocate size region with memory := memory } (region.pointer + off)
      chars = .ok { heap.allocate size region with
        memory := copyRange memory (region.pointer + off) (fun i => chars.getD i 0) 0
          chars.length } :=
  @write_eq { heap.allocate size region with memory := memory } _ _
    (inside_allocate hgrants.ne_null hcount)

theorem allocate_with_memory (size : ℕ) :
    { heap.allocate size region with memory := heap.memory } = heap.allocate size region := by
  rw [← @memory_allocate heap region size]

theorem write_new {size : ℕ} {chars : List Byte} (hgrants : Grants heap size region)
    (hcount : chars.length ≤ region.size) :
    (heap.allocate size region).write region.pointer chars =
      .ok { heap.allocate size region with
        memory := copyRange heap.memory region.pointer (fun i => chars.getD i 0) 0
          chars.length } := by
  have hwrite := @write_allocated heap region size 0 chars hgrants heap.memory (by omega)
  rwa [allocate_with_memory] at hwrite

theorem memcopy_new {size : ℕ} {chars : List Byte} (hgrants : Grants heap size region)
    (hcount : chars.length ≤ region.size) (hlimit : chars.length ≤ maxMemcopy) :
    (heap.allocate size region).memcopy region.pointer chars =
      .ok { heap.allocate size region with
        memory := copyRange heap.memory region.pointer (fun i => chars.getD i 0) 0
          chars.length } := by
  rw [StringHeap.memcopy, verify_of hlimit, ok_bind, write_new hgrants hcount]

theorem strlen_eq {source rest : List Byte} (h : source = text ++ 0 :: rest) (hzero : 0 ∉ text) :
    strlen source = .ok text.length := by
  induction text generalizing source with
  | nil =>
      rw [h]
      exact if_pos rfl
  | cons c text ih =>
      rw [List.mem_cons, not_or] at hzero
      rw [h, List.cons_append, strlen, if_neg fun hc => hzero.1 hc.symm, ih rfl hzero.2]
      rfl

theorem copyRange_outside {memory src : Memory Byte} {place count a : ℕ}
    (hplace : region.pointer ≤ place) (hend : place + count ≤ region.pointer + region.size)
    (ha : ¬ (region.pointer ≤ a ∧ a < region.pointer + region.size)) :
    copyRange memory place src 0 count a = memory a :=
  copyRange_of_not_mem (by omega)

theorem le_of_short (h : ¬ text.length > shortMaxLength) : text.length ≤ 14 := Nat.le_of_not_lt h

theorem ofCString_constructed {source rest : List Byte} (hsource : source = text ++ 0 :: rest)
    (hzero : 0 ∉ text) (hlt : text.length < 2 ^ 30)
    (hlong : 14 < text.length → text.length + 1 ≤ maxMemcopy ∧
      Grants heap (text.length + 1) region) :
    ∃ heap' bytes, ofCString heap region source = .ok (heap', bytes) ∧
      Constructed heap text heap' bytes := by
  have hlen : u32 text.length = text.length := Nat.mod_eq_of_lt (by omega)
  have hlen' : u32 (text.length + 1) = text.length + 1 := Nat.mod_eq_of_lt (by omega)
  have htake : source.take (text.length + 1) = text ++ [0] := by
    rw [hsource, List.take_append]
    simp
  have hcount : (text ++ [(0 : Byte)]).length = text.length + 1 := List.length_append
  rw [ofCString, strlen_eq hsource hzero, ok_bind]
  dsimp only
  rw [hlen, hlen', htake]
  by_cases h : text.length > shortMaxLength
  · obtain ⟨hlimit, hgrants⟩ := hlong h
    have hgranted := hgrants.size_lt
    have hsize := hgrants.size_le
    refine ⟨_, _, ?_, constructed_long hgrants region.size (copyRange heap.memory region.pointer
      (fun i => (text ++ [0]).getD i 0) 0 (text ++ [(0 : Byte)]).length) ⟨hsize, Nat.le_refl _⟩ h
      hsize (by omega) (fun a => copyRange_outside (Nat.le_refl _) (by omega)) ?_⟩
    · rw [if_pos h, verify_of hgrants.ne_null, ok_bind, setLongCapacity_eq (by omega), ok_bind,
        memcopy_new hgrants (by omega) (by omega), ok_bind, setLongLength, hlen]
      rfl
    · rw [← hcount, slice_fill]
  · refine ⟨_, _, ?_, constructed_short (le_of_short h) (copyRange (shortBytes text.length) (1 + 0)
      (fun i => (text ++ [0]).getD i 0) 0 (text ++ [(0 : Byte)]).length) ?_ ?_⟩
    · have hshort := le_of_short h
      rw [if_neg h, setShortLength_eq hshort, ok_bind, writeShort_eq (by omega), ok_bind]
      rfl
    · rw [leRead_copyRange_short, leRead_shortBytes (le_of_short h)]
    · rw [← hcount, slice_fill]

theorem ofCString_panics {source rest : List Byte} (hsource : source = text ++ 0 :: rest)
    (hzero : 0 ∉ text) (hlt : text.length < 2 ^ 30)
    (hlimit : maxMemcopy < text.length + 1)
    (hgrants : Grants heap (text.length + 1) region) :
    ofCString heap region source = .error .panic := by
  have hlen : u32 text.length = text.length := Nat.mod_eq_of_lt (by omega)
  have hlen' : u32 (text.length + 1) = text.length + 1 := Nat.mod_eq_of_lt (by omega)
  have htake : source.take (text.length + 1) = text ++ [0] := by
    rw [hsource, List.take_append]
    simp
  have hcount : (text ++ [(0 : Byte)]).length = text.length + 1 := List.length_append
  have hmax : shortMaxLength < maxMemcopy := by decide
  have hgranted := hgrants.size_lt
  have hmemcopy : (heap.allocate (text.length + 1) region).memcopy region.pointer (text ++ [0]) =
      .error .panic := by
    rw [StringHeap.memcopy, verify_of_not (show ¬ (text ++ [(0 : Byte)]).length ≤ maxMemcopy by omega),
      error_bind]
  rw [ofCString, strlen_eq hsource hzero, ok_bind]
  dsimp only
  rw [hlen, hlen', htake, if_pos (by omega), verify_of hgrants.ne_null, ok_bind,
    setLongCapacity_eq (by omega), ok_bind, hmemcopy, error_bind]

theorem short_filled (hshort : text.length ≤ 14) :
    ∃ bytes, (do
      let bytes ← setShortLength zero text.length
      let bytes ← writeShort bytes 0 text
      let bytes ← writeShort bytes text.length [0]
      return (heap, bytes) : Except StringFault (StringHeap × StringBytes)) = .ok (heap, bytes) ∧
        Constructed heap text heap bytes := by
  refine ⟨_, ?_, constructed_short hshort (copyRange
    (copyRange (shortBytes text.length) (1 + 0) (fun i => text.getD i 0) 0 text.length)
    (1 + text.length) (fun i => [(0 : Byte)].getD i 0) 0 1) ?_ (slice_fill_zero _ _ _)⟩
  · rw [setShortLength_eq hshort, ok_bind, writeShort_eq (by omega), ok_bind,
      writeShort_eq (by simp; omega), ok_bind]
    rfl
  · rw [leRead_copyRange_short, leRead_copyRange_short, leRead_shortBytes hshort]

theorem long_filled (hgrants : Grants heap (text.length + 1) region) {capacity : ℕ}
    (hcapacity : text.length + 1 ≤ capacity ∧ capacity ≤ region.size) (hlong : 14 < text.length)
    (hlt : text.length < 2 ^ 30) :
    Constructed heap text { heap.allocate (text.length + 1) region with
      memory := copyRange
        (copyRange heap.memory region.pointer (fun i => text.getD i 0) 0 text.length)
        (region.pointer + text.length) (fun i => [(0 : Byte)].getD i 0) 0 1 }
      (longBytes (2 * capacity + 1) text.length region.pointer) := by
  have hgranted := hgrants.size_lt
  refine constructed_long hgrants capacity _ hcapacity hlong hcapacity.1 (by omega)
    (fun a ha => ?_) (slice_fill_zero _ _ _)
  rw [copyRange_outside (Nat.le_add_right _ _) (by omega) ha,
    copyRange_outside (Nat.le_refl _) (by omega) ha]

theorem ofView_constructed (hlt : text.length < 2 ^ 30)
    (hlong : 14 < text.length → text.length ≤ maxMemcopy ∧
      Grants heap (text.length + 1) region) :
    ∃ heap' bytes, ofView heap region text = .ok (heap', bytes) ∧
      Constructed heap text heap' bytes := by
  have hlen : u32 text.length = text.length := Nat.mod_eq_of_lt (by omega)
  rw [ofView]
  dsimp only
  by_cases h : text.length > shortMaxLength
  · obtain ⟨hlimit, hgrants⟩ := hlong h
    have hsize := hgrants.size_le
    refine ⟨_, _, ?_, long_filled hgrants ⟨Nat.le_refl _, hsize⟩ h hlt⟩
    rw [if_pos h, setLongCapacity_eq (by omega), ok_bind, memcopy_new hgrants (by omega) hlimit,
      ok_bind, write_allocated hgrants _ (by exact hsize), ok_bind, setLongLength, hlen]
    rfl
  · rw [if_neg h]
    exact ⟨heap, short_filled (le_of_short h)⟩

theorem ofRepeated_constructed {length : ℕ} {init : Byte} (hlt : length < 2 ^ 30)
    (hlong : 14 < length → Grants heap (length + 1) region) :
    ∃ heap' bytes, ofRepeated heap region length init = .ok (heap', bytes) ∧
      Constructed heap (List.replicate length init) heap' bytes := by
  obtain ⟨text, htext⟩ : ∃ text, List.replicate length init = text := ⟨_, rfl⟩
  obtain rfl : text.length = length := by rw [← htext, List.length_replicate]
  have hlen : u32 text.length = text.length := Nat.mod_eq_of_lt (by omega)
  have hlen' : u32 (text.length + 1) = text.length + 1 := Nat.mod_eq_of_lt (by omega)
  rw [ofRepeated, htext, hlen']
  by_cases h : text.length > shortMaxLength
  · have hgrants := hlong h
    have hgranted := hgrants.size_lt
    have hsize := hgrants.size_le
    refine ⟨_, _, ?_, long_filled hgrants ⟨hsize, Nat.le_refl _⟩ h hlt⟩
    rw [if_pos h]
    dsimp only
    rw [verify_of hgrants.ne_null, ok_bind, setLongCapacity_eq (by omega), ok_bind,
      write_new hgrants (by omega), ok_bind, write_allocated hgrants _ (by exact hsize), ok_bind,
      setLongLength, hlen]
    rfl
  · rw [if_neg h]
    exact ⟨heap, short_filled (le_of_short h)⟩

/-- A copy has the capacity of the string that it is of. -/
theorem ofCopy_constructed {s : StringBytes} (hs : HoldsText heap s text)
    (hlong : s.isLong = true → text.length + 1 ≤ maxMemcopy ∧
      Grants heap s.getLongCapacity region) (hlt : text.length < 2 ^ 30) :
    ∃ heap' bytes, ofCopy heap region s = .ok (heap', bytes) ∧
      Constructed heap text heap' bytes := by
  rw [ofCopy]
  by_cases h : s.isLong = true
  · obtain ⟨hlimit, hgrants⟩ := hlong h
    obtain ⟨buffer, hbuffer, hpointer, -, hgranted, hroom⟩ := hs.buffer h
    have hfield : leRead s 0 4 = 2 * s.getLongCapacity + 1 := by
      have hodd : leRead s 0 4 % 2 = 1 := (isLong_iff s 3).mp h
      rw [getLongCapacity, Nat.shiftRight_eq_div_pow]
      omega
    have hfieldLt : leRead s 0 4 < 2 ^ 32 := leRead_lt s 0 4
    have hlength : longLength s = text.length := by
      have := hs.size_eq
      rwa [StringBytes.size, if_pos h] at this
    have hdata : slice heap.memory s.longData (text.length + 1) = text ++ [0] := by
      have := hs.data_eq
      rwa [dataBytes, if_pos h] at this
    have hcount : (text ++ [(0 : Byte)]).length = text.length + 1 := List.length_append
    have hcapacity : getLongCapacity
        (leWrite (leWrite zero 0 (leRead s 0 4) 4) 4 (longLength s) 4) = s.getLongCapacity := by
      rw [getLongCapacity, leRead_leWrite_of_disjoint (by omega), leRead_leWrite,
        Nat.mod_eq_of_lt (leRead_lt s 0 4)]
      rfl
    have hcopied : longLength (longBytes (leRead s 0 4) (longLength s) region.pointer) =
        text.length := by
      rw [leRead_longBytes.2.1, hlength]
      exact Nat.mod_eq_of_lt (by omega)
    have hlen : u32 (text.length + 1) = text.length + 1 := Nat.mod_eq_of_lt (by omega)
    have hinside :
        (heap.allocate s.getLongCapacity region).Inside s.longData (text.length + 1) := by
      rw [allocate_eq hgrants.ne_null]
      exact ⟨buffer, List.mem_cons_of_mem _ hbuffer, hpointer.le, by omega⟩
    have hread : (heap.allocate s.getLongCapacity region).read s.longData (text.length + 1) =
        .ok (text ++ [0]) := by
      rw [StringHeap.read, if_neg (Nat.succ_ne_zero _), if_pos hinside, memory_allocate, hdata]
    have hsize := hgrants.size_le
    refine ⟨_, _, ?_, constructed_long hgrants s.getLongCapacity (copyRange heap.memory
      region.pointer (fun i => (text ++ [0]).getD i 0) 0 (text ++ [(0 : Byte)]).length)
      ⟨Nat.le_refl _, hsize⟩ (hs.isLong_iff.mp h) hroom (by omega)
      (fun a => copyRange_outside (Nat.le_refl _) (by omega)) ?_⟩
    · rw [if_pos h]
      show (do
        let source ← (heap.allocate (getLongCapacity (leWrite (leWrite zero 0 (leRead s 0 4) 4) 4
          (longLength s) 4)) region).read (longData s)
            (u32 (longLength (longBytes (leRead s 0 4) (longLength s) region.pointer) + 1))
        let heap ← (heap.allocate (getLongCapacity (leWrite (leWrite zero 0 (leRead s 0 4) 4) 4
          (longLength s) 4)) region).memcopy region.pointer source
        return (heap, longBytes (leRead s 0 4) (longLength s) region.pointer)) = _
      rw [hcapacity, hcopied, hlen, hread, ok_bind, memcopy_new hgrants (by omega) (by omega),
        ok_bind, hfield, hlength]
      rfl
    · rw [← hcount, slice_fill]
  · refine ⟨heap, s, if_neg h, hs, rfl, fun _ => rfl, fun h' => absurd h' h⟩

end Constructors

end BekOS.StringMemory
