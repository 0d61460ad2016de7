import BekOS.Filesystem.BlockCache
import BekOS.Mm.PageAllocator

/-!
# Partitions

`PartitionProxyDevice` passes the requests for a partition on to its disk, moved to where
the partition begins.  The end of a request is computed in 64 bits, so that one that goes
round past the end of the addresses is taken for one of the first bytes.
-/

namespace BekOS

/-- What a block device is asked to transfer. -/
structure BlockRequest where
  write : Bool
  byteOffset : U64
  size : U64
  deriving DecidableEq

/-- `SECTOR_SIZE` -/
def sectorBytes : U64 := 512

theorem toNat_sectorBytes : sectorBytes.toNat = 512 := by decide

/-- `PartitionProxyDevice`, but for the disk. -/
structure PartitionProxyDevice where
  secOff : U64
  secCount : U64

namespace PartitionProxyDevice

universe u

/-- What the disk is asked for, if it is. -/
def forwarded (partition : PartitionProxyDevice) (request : BlockRequest) : Option BlockRequest :=
  if request.byteOffset + request.size > partition.secCount * sectorBytes then none
  else some { request with byteOffset := request.byteOffset + partition.secOff * sectorBytes }

/-- What both do, with a disk that is in some state. -/
def schedule {σ : Type u} (disk : σ → BlockRequest → σ × TransferResult)
    (partition : PartitionProxyDevice) (state : σ) (request : BlockRequest) : σ × TransferResult :=
  match partition.forwarded request with
  | some request => disk state request
  | none => (state, .OutOfBounds)

/-- `schedule_read` -/
def scheduleRead {σ : Type u} (disk : σ → BlockRequest → σ × TransferResult)
    (partition : PartitionProxyDevice) (state : σ) (byteOffset size : U64) : σ × TransferResult :=
  partition.schedule disk state ⟨false, byteOffset, size⟩

/-- `schedule_write` -/
def scheduleWrite {σ : Type u} (disk : σ → BlockRequest → σ × TransferResult)
    (partition : PartitionProxyDevice) (state : σ) (byteOffset size : U64) : σ × TransferResult :=
  partition.schedule disk state ⟨true, byteOffset, size⟩

/-! ## What the disk is asked -/

/-- Where the partition begins on the disk. -/
def start (partition : PartitionProxyDevice) : ℕ := partition.secOff.toNat * 512

/-- The bytes of the partition. -/
def bytes (partition : PartitionProxyDevice) : ℕ := partition.secCount.toNat * 512

/-- The partition is within a disk whose size is a number of 64 bits. -/
def WithinDisk (partition : PartitionProxyDevice) : Prop :=
  partition.start + partition.bytes < 2 ^ 64
deriving Decidable

/-- **A request is confined**: if the disk is asked, the bytes are in the partition, and the
disk is asked for them. -/
structure Confined (partition : PartitionProxyDevice) (request : BlockRequest) : Prop where
  inside : ∀ asked ∈ partition.forwarded request,
    request.byteOffset.toNat + request.size.toNat ≤ partition.bytes
  moved : ∀ asked ∈ partition.forwarded request, asked.write = request.write ∧
    asked.size = request.size ∧
      asked.byteOffset.toNat = partition.start + request.byteOffset.toNat

/-- The request does not go round past the end of the addresses, to one of the first bytes. -/
def NotRound (partition : PartitionProxyDevice) (request : BlockRequest) : Prop :=
  2 ^ 64 ≤ request.byteOffset.toNat + request.size.toNat →
    partition.bytes < request.byteOffset.toNat + request.size.toNat - 2 ^ 64

variable {partition : PartitionProxyDevice} {request asked : BlockRequest}

theorem forwarded_eq (within : partition.WithinDisk) :
    partition.forwarded request =
      if (request.byteOffset.toNat + request.size.toNat) % 2 ^ 64 > partition.bytes then none
      else some { request with
        byteOffset := request.byteOffset + partition.secOff * sectorBytes } := by
  have hbytes : (partition.secCount * sectorBytes).toNat = partition.bytes := by
    rw [BitVec.toNat_mul, toNat_sectorBytes]
    exact Nat.mod_eq_of_lt ((Nat.le_add_left _ _).trans_lt within)
  unfold forwarded
  simp only [gt_iff_lt, BitVec.lt_def, BitVec.toNat_add, hbytes]

theorem toNat_moved (within : partition.WithinDisk)
    (hinside : request.byteOffset.toNat + request.size.toNat ≤ partition.bytes) :
    (request.byteOffset + partition.secOff * sectorBytes).toNat =
      partition.start + request.byteOffset.toNat := by
  have hstart : (partition.secOff * sectorBytes).toNat = partition.start := by
    rw [BitVec.toNat_mul, toNat_sectorBytes]
    exact Nat.mod_eq_of_lt ((Nat.le_add_right _ _).trans_lt within)
  rw [BitVec.toNat_add, hstart]
  unfold WithinDisk at within
  omega

/-- **When requests are confined**: for every partition, offset and size. -/
theorem schedule_confined_iff (within : partition.WithinDisk) (request : BlockRequest) :
    partition.Confined request ↔ partition.NotRound request := by
  have hforwarded := @forwarded_eq partition request within
  have hoffset := request.byteOffset.isLt
  have hsize := request.size.isLt
  constructor
  · intro confined hround
    by_contra hlow
    rw [if_neg (by omega)] at hforwarded
    have hinside := confined.inside _ hforwarded
    unfold WithinDisk at within
    omega
  · intro notRound
    have hinside : ∀ asked ∈ partition.forwarded request,
        request.byteOffset.toNat + request.size.toNat ≤ partition.bytes := by
      intro asked hasked
      rw [hforwarded, Option.mem_def, Option.ite_none_left_eq_some] at hasked
      by_cases hround : 2 ^ 64 ≤ request.byteOffset.toNat + request.size.toNat
      · have hfar := notRound hround
        omega
      · omega
    refine ⟨hinside, fun asked hasked => ?_⟩
    have hbytes := hinside asked hasked
    rw [hforwarded, Option.mem_def, Option.ite_none_left_eq_some] at hasked
    obtain ⟨-, hasked⟩ := hasked
    rw [← Option.some_inj.mp hasked]
    exact ⟨rfl, rfl, toNat_moved within hbytes⟩

/-! ## What the disk does -/

section Schedule

universe v

variable {σ : Type v} {disk : σ → BlockRequest → σ × TransferResult} {state : σ}

/-- A request to the proxy, by its kind. -/
def serve (disk : σ → BlockRequest → σ × TransferResult) (partition : PartitionProxyDevice)
    (state : σ) (request : BlockRequest) : σ × TransferResult :=
  if request.write then partition.scheduleWrite disk state request.byteOffset request.size
  else partition.scheduleRead disk state request.byteOffset request.size

/-- **A request that does not go round** is the disk's where it is in the partition, and is refused
where it is not. -/
theorem serve_eq (within : partition.WithinDisk) (notRound : partition.NotRound request) :
    partition.serve disk state request =
      if request.byteOffset.toNat + request.size.toNat ≤ partition.bytes then
        disk state { request with byteOffset := request.byteOffset + partition.secOff * sectorBytes }
      else (state, .OutOfBounds) := by
  have hserve : partition.serve disk state request = partition.schedule disk state request := by
    obtain ⟨write, byteOffset, size⟩ := request
    cases write <;> rfl
  have hoffset := request.byteOffset.isLt
  have hsize := request.size.isLt
  have hbytes : partition.bytes < 2 ^ 64 := (Nat.le_add_left _ _).trans_lt within
  rw [hserve, schedule, forwarded_eq within]
  split_ifs with hout hinside hinside
  · unfold NotRound at notRound
    omega
  · rfl
  · rfl
  · unfold NotRound at notRound
    omega

/-- **Whatever is kept** by the disk's requests for bytes of the partition is kept by every run of
requests to the proxy that do not go round: the rest of the disk is out of their reach. -/
theorem run_confined {inv : σ → Prop} (within : partition.WithinDisk)
    (keeps : ∀ state asked, inv state → partition.start ≤ asked.byteOffset.toNat →
      asked.byteOffset.toNat + asked.size.toNat ≤ partition.start + partition.bytes →
      inv (disk state asked).1)
    {requests : List BlockRequest} (notRound : ∀ request ∈ requests, partition.NotRound request)
    (hinv : inv state) :
    inv (requests.foldl (fun state request => (partition.serve disk state request).1) state) := by
  induction requests generalizing state with
  | nil => exact hinv
  | cons request rest ih =>
      obtain ⟨hfirst, hrest⟩ := List.forall_mem_cons.mp notRound
      refine ih hrest ?_
      show inv (partition.serve disk state request).1
      rw [serve_eq within hfirst]
      split_ifs with hinside
      · have hstart : (request.byteOffset + partition.secOff * sectorBytes).toNat =
            partition.start + request.byteOffset.toNat := toNat_moved within hinside
        refine keeps _ _ hinv ?_ ?_
        · rw [hstart]
          exact Nat.le_add_right _ _
        · rw [hstart, Nat.add_assoc]
          exact Nat.add_le_add_left hinside _
      · exact hinv

end Schedule

/-! ## The last sector of the addresses -/

/-- A partition of 8 sectors behind the first one. -/
def eightSectors : PartitionProxyDevice := ⟨1, 8⟩

/-- A read of its last sector. -/
theorem schedule_confined_last : eightSectors.Confined ⟨false, 0xE00, 512⟩ :=
  (schedule_confined_iff (by decide) ⟨false, 0xE00, 512⟩).mpr
    (fun hround => absurd hround (by decide))

/-- A write of the last sector that there are addresses for is passed on, for the first
sector of the disk. -/
theorem schedule_confined_fails :
    eightSectors.forwarded ⟨true, 0xFFFFFFFFFFFFFE00, 512⟩ = some ⟨true, 0, 512⟩ ∧
      ¬ eightSectors.Confined ⟨true, 0xFFFFFFFFFFFFFE00, 512⟩ := by
  have hforwarded :
      eightSectors.forwarded ⟨true, 0xFFFFFFFFFFFFFE00, 512⟩ = some ⟨true, 0, 512⟩ := by decide
  refine ⟨hforwarded, fun confined => ?_⟩
  have hinside := confined.inside _ hforwarded
  exact absurd hinside (by decide)

end PartitionProxyDevice

end BekOS
