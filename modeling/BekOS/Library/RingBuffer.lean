import BekOS.Library.UserBuffer

/-!
# `ring_buffer`

A ring of bytes, with the index to read from and the one to write to; one place is
always left free.  The loops of `read_to` and `write_to` go around at most twice.
-/

namespace BekOS

/-- `ring_buffer` -/
structure RingBuffer where
  buffer : Memory Byte
  size : ℕ
  readIdx : ℕ
  writeIdx : ℕ

namespace RingBuffer

/-- The constructor. -/
def new (size : ℕ) : RingBuffer where
  buffer := fun _ => 0
  size := size
  readIdx := 0
  writeIdx := 0

/-- `capacity` -/
def capacity (ring : RingBuffer) : ℕ := ring.size

/-- `pending_bytes` -/
def pendingBytes (ring : RingBuffer) : ℕ :=
  if ring.writeIdx ≥ ring.readIdx then ring.writeIdx - ring.readIdx
  else ring.size - ring.readIdx + ring.writeIdx

/-- `free_bytes` -/
def freeBytes (ring : RingBuffer) : ℕ :=
  if ring.writeIdx ≥ ring.readIdx then ring.size - ring.writeIdx + ring.readIdx - 1
  else ring.readIdx - ring.writeIdx - 1

/-- How much can be read in one piece. -/
def segmentReadSpace (ring : RingBuffer) : ℕ :=
  if ring.writeIdx ≥ ring.readIdx then ring.writeIdx - ring.readIdx
  else ring.size - ring.readIdx

/-- How much can be written in one piece. -/
def segmentWriteSpace (ring : RingBuffer) : ℕ :=
  (if ring.writeIdx ≥ ring.readIdx then ring.size - ring.writeIdx
    else ring.readIdx - ring.writeIdx - 1) - if ring.readIdx = 0 then 1 else 0

/-- An index, moved on. -/
def advance (ring : RingBuffer) (idx n : ℕ) : ℕ := if idx + n = ring.size then 0 else idx + n

/-- The loop of `write_to`. -/
def writeRounds :
    ℕ → RingBuffer → BufferSubset → ℕ →
      Except Halt ((RingBuffer × BufferSubset) × Except ErrorCode ℕ)
  | 0, _, _, _ => .error .spin
  | fuel + 1, ring, src, written =>
      if ring.freeBytes ≠ 0 ∧ written < src.length then
        let toWrite := min ring.segmentWriteSpace (src.length - written)
        let read := src.readTo ring.buffer ring.writeIdx toWrite written
        expectedTry ((ring, read.1), read.2) fun _ buffer =>
          writeRounds fuel
            { ring with buffer := buffer, writeIdx := ring.advance ring.writeIdx toWrite } read.1
            (written + toWrite)
      else .ok ((ring, src), .ok written)

/-- `write_to`, of a whole buffer. -/
def writeTo (ring : RingBuffer) (src : BufferSubset) :
    Except Halt ((RingBuffer × BufferSubset) × Except ErrorCode ℕ) :=
  if ring.freeBytes < src.length then .ok ((ring, src), .error .EAGAIN)
  else writeRounds (src.length + 1) ring src 0

/-- The loop of `read_to`. -/
def readRounds :
    ℕ → RingBuffer → BufferSubset → ℕ →
      Except Halt ((RingBuffer × BufferSubset) × Except ErrorCode ℕ)
  | 0, _, _, _ => .error .spin
  | fuel + 1, ring, dst, done =>
      if ring.pendingBytes ≠ 0 ∧ done < dst.length then
        let toRead := min ring.segmentReadSpace (dst.length - done)
        let written := dst.writeFrom ring.buffer ring.readIdx toRead done
        expectedTry ((ring, written.1), written.2) fun _ _ =>
          readRounds fuel { ring with readIdx := ring.advance ring.readIdx toRead } written.1
            (done + toRead)
      else .ok ((ring, dst), .ok done)

/-- `read_to`, of a whole buffer. -/
def readTo (ring : RingBuffer) (dst : BufferSubset) :
    Except Halt ((RingBuffer × BufferSubset) × Except ErrorCode ℕ) :=
  if dst.length < ring.size then
    if ring.pendingBytes < dst.length then .ok ((ring, dst), .error .EAGAIN)
    else readRounds (dst.length + 1) ring dst 0
  else .error (.fault .panic)

/-! ## The bytes that are pending -/

/-- The indices are indices of the ring. -/
structure Ok (ring : RingBuffer) : Prop where
  readIdx_lt : ring.readIdx < ring.size
  writeIdx_lt : ring.writeIdx < ring.size

/-- Where the pending byte `i` is. -/
def slot (ring : RingBuffer) (i : ℕ) : ℕ :=
  if ring.readIdx + i < ring.size then ring.readIdx + i else ring.readIdx + i - ring.size

/-- The pending byte `i`. -/
def pending (ring : RingBuffer) (i : ℕ) : Byte := ring.buffer (ring.slot i)

/-- The ring with a piece put in. -/
def putPiece (ring : RingBuffer) (src : Memory Byte) (srcOff n : ℕ) : RingBuffer :=
  { ring with
    buffer := copyRange ring.buffer ring.writeIdx src srcOff n
    writeIdx := ring.advance ring.writeIdx n }

/-- The ring with a piece taken out. -/
def takePiece (ring : RingBuffer) (n : ℕ) : RingBuffer :=
  { ring with readIdx := ring.advance ring.readIdx n }

variable {ring : RingBuffer} {src : Memory Byte} {srcOff n i j : ℕ}

theorem new_ok {size : ℕ} (h : 0 < size) : (new size).Ok := ⟨h, h⟩

theorem Ok.pending_add_free (ok : ring.Ok) : ring.pendingBytes + ring.freeBytes + 1 = ring.size := by
  obtain ⟨hread, hwrite⟩ := ok
  unfold pendingBytes freeBytes
  split_ifs
  · omega
  · omega

theorem Ok.segmentWriteSpace_le (ok : ring.Ok) : ring.segmentWriteSpace ≤ ring.freeBytes := by
  obtain ⟨hread, hwrite⟩ := ok
  unfold segmentWriteSpace freeBytes
  split_ifs <;> omega

theorem Ok.segmentWriteSpace_pos (ok : ring.Ok) (h : ring.freeBytes ≠ 0) :
    0 < ring.segmentWriteSpace := by
  obtain ⟨hread, hwrite⟩ := ok
  unfold freeBytes at h
  unfold segmentWriteSpace
  split_ifs at h ⊢ <;> omega

theorem Ok.segmentReadSpace_pos (ok : ring.Ok) (h : ring.pendingBytes ≠ 0) :
    0 < ring.segmentReadSpace := by
  obtain ⟨hread, hwrite⟩ := ok
  unfold pendingBytes at h
  unfold segmentReadSpace
  split_ifs at h ⊢ <;> omega

theorem Ok.segmentWriteSpace_putPiece (ok : ring.Ok) (src : Memory Byte) (srcOff : ℕ)
    (h : ring.segmentWriteSpace < ring.freeBytes) :
    (ring.putPiece src srcOff ring.segmentWriteSpace).segmentWriteSpace =
      ring.freeBytes - ring.segmentWriteSpace := by
  obtain ⟨hread, hwrite⟩ := ok
  unfold segmentWriteSpace freeBytes at h
  unfold segmentWriteSpace freeBytes RingBuffer.putPiece advance
  dsimp only
  split_ifs at h ⊢ <;> omega

theorem Ok.segmentReadSpace_le (ok : ring.Ok) : ring.segmentReadSpace ≤ ring.pendingBytes := by
  obtain ⟨hread, hwrite⟩ := ok
  unfold segmentReadSpace pendingBytes
  split_ifs <;> omega

theorem Ok.putPiece (ok : ring.Ok) (src : Memory Byte) (srcOff : ℕ)
    (hn : n ≤ ring.segmentWriteSpace) :
    (ring.putPiece src srcOff n).Ok ∧
      (ring.putPiece src srcOff n).pendingBytes = ring.pendingBytes + n ∧
      (ring.putPiece src srcOff n).freeBytes = ring.freeBytes - n := by
  obtain ⟨hread, hwrite⟩ := ok
  unfold segmentWriteSpace at hn
  refine ⟨⟨hread, ?_⟩, ?_, ?_⟩
  · show ring.advance ring.writeIdx n < ring.size
    unfold advance
    split_ifs at hn ⊢ <;> omega
  · unfold pendingBytes RingBuffer.putPiece advance
    dsimp only
    split_ifs at hn ⊢ <;> omega
  · unfold freeBytes RingBuffer.putPiece advance
    dsimp only
    split_ifs at hn ⊢ <;> omega

theorem Ok.pending_putPiece_old (ok : ring.Ok) (hn : n ≤ ring.segmentWriteSpace)
    (hi : i < ring.pendingBytes) : (ring.putPiece src srcOff n).pending i = ring.pending i := by
  obtain ⟨hread, hwrite⟩ := ok
  refine copyRange_of_not_mem (i := ring.slot i) ?_
  unfold segmentWriteSpace at hn
  unfold pendingBytes at hi
  unfold slot
  split_ifs at hn hi ⊢ <;> omega

theorem Ok.pending_putPiece_new (ok : ring.Ok) (src : Memory Byte) (srcOff : ℕ)
    (hn : n ≤ ring.segmentWriteSpace) (hj : j < n) :
    (ring.putPiece src srcOff n).pending (ring.pendingBytes + j) = src (srcOff + j) := by
  obtain ⟨hread, hwrite⟩ := ok
  have hslot : ring.slot (ring.pendingBytes + j) = ring.writeIdx + j := by
    unfold segmentWriteSpace at hn
    unfold slot pendingBytes
    split_ifs at hn ⊢ <;> omega
  show copyRange ring.buffer ring.writeIdx src srcOff n (ring.slot (ring.pendingBytes + j)) = _
  rw [hslot, copyRange_of_mem (Nat.le_add_right _ _) (by omega)]
  congr 1
  omega

theorem Ok.takePiece (ok : ring.Ok) (hn : n ≤ ring.segmentReadSpace) :
    (ring.takePiece n).Ok ∧ (ring.takePiece n).pendingBytes = ring.pendingBytes - n := by
  obtain ⟨hread, hwrite⟩ := ok
  unfold segmentReadSpace at hn
  refine ⟨⟨?_, hwrite⟩, ?_⟩
  · show ring.advance ring.readIdx n < ring.size
    unfold advance
    split_ifs at hn ⊢ <;> omega
  · unfold pendingBytes RingBuffer.takePiece advance
    dsimp only
    split_ifs at hn ⊢ <;> omega

theorem Ok.pending_takePiece (ok : ring.Ok) (hi : n + i < ring.pendingBytes) :
    (ring.takePiece n).pending i = ring.pending (n + i) := by
  obtain ⟨hread, hwrite⟩ := ok
  refine congrArg ring.buffer ?_
  unfold pendingBytes at hi
  unfold slot RingBuffer.takePiece advance
  dsimp only
  split_ifs at hi ⊢ <;> omega

theorem Ok.readIdx_piece (ok : ring.Ok) (hn : n ≤ ring.segmentReadSpace) (hj : j < n) :
    ring.buffer (ring.readIdx + j) = ring.pending j := by
  obtain ⟨hread, hwrite⟩ := ok
  refine congrArg ring.buffer ?_
  unfold segmentReadSpace at hn
  unfold slot
  split_ifs at hn ⊢ <;> omega

/-! ## Writing and reading whole buffers -/

/-- How much of a buffer of that length is written first. -/
def firstPiece (ring : RingBuffer) (length : ℕ) : ℕ := min ring.segmentWriteSpace length

/-- In how many pieces it is written. -/
def pieces (ring : RingBuffer) (length : ℕ) : ℕ :=
  if length = 0 then 0 else if length ≤ ring.segmentWriteSpace then 1 else 2

/-- The ring with the index to write to moved on. -/
def movedOn (ring : RingBuffer) (n : ℕ) : RingBuffer :=
  { ring with
    writeIdx := if ring.writeIdx + n < ring.size then ring.writeIdx + n
      else ring.writeIdx + n - ring.size }

theorem writeRounds_piece (fuel : ℕ) (ring : RingBuffer) (subset : BufferSubset) {written n : ℕ}
    (hfree : ring.freeBytes ≠ 0) (hmore : written < subset.length)
    (hn : n = min ring.segmentWriteSpace (subset.length - written))
    (hend : u64 (n + u64 (written + subset.offset)) ≤ subset.buffer.size) :
    writeRounds (fuel + 1) ring subset written =
      writeRounds fuel
        (ring.putPiece subset.buffer.accessed.bytes (u64 (written + subset.offset)) n)
        { subset with buffer := subset.buffer.accessed } (written + n) := by
  rw [writeRounds, if_pos ⟨hfree, hmore⟩, ← hn]
  unfold BufferSubset.readTo UserBuffer.readTo expectedTry
  dsimp only
  rw [if_neg (Nat.not_lt.mpr hend)]
  rfl

theorem writeRounds_end (ring : RingBuffer) (subset : BufferSubset) {fuel written : ℕ}
    (hfuel : 0 < fuel) (h : subset.length ≤ written) :
    writeRounds fuel ring subset written = .ok ((ring, subset), .ok written) := by
  obtain ⟨fuel, rfl⟩ := Nat.exists_eq_succ_of_ne_zero (Nat.pos_iff_ne_zero.mp hfuel)
  rw [writeRounds, if_neg (fun hmore => absurd hmore.2 (Nat.not_lt.mpr h))]

theorem readRounds_piece (fuel : ℕ) (ring : RingBuffer) (subset : BufferSubset) {done n : ℕ}
    (hpending : ring.pendingBytes ≠ 0) (hmore : done < subset.length)
    (hn : n = min ring.segmentReadSpace (subset.length - done))
    (hend : u64 (n + u64 (done + subset.offset)) ≤ subset.buffer.size) :
    readRounds (fuel + 1) ring subset done =
      readRounds fuel (ring.takePiece n)
        { subset with
          buffer := { subset.buffer.accessed with
            bytes := copyRange subset.buffer.accessed.bytes (u64 (done + subset.offset))
              ring.buffer ring.readIdx n } }
        (done + n) := by
  rw [readRounds, if_pos ⟨hpending, hmore⟩, ← hn]
  unfold BufferSubset.writeFrom UserBuffer.writeFrom expectedTry
  dsimp only
  rw [if_neg (Nat.not_lt.mpr hend)]
  rfl

theorem readRounds_end (ring : RingBuffer) (subset : BufferSubset) {fuel done : ℕ}
    (hfuel : 0 < fuel) (h : subset.length ≤ done) :
    readRounds fuel ring subset done = .ok ((ring, subset), .ok done) := by
  obtain ⟨fuel, rfl⟩ := Nat.exists_eq_succ_of_ne_zero (Nat.pos_iff_ne_zero.mp hfuel)
  rw [readRounds, if_neg (fun hmore => absurd hmore.2 (Nat.not_lt.mpr h))]

variable {ring ring' : RingBuffer} {buffer : UserBuffer} {offset length : ℕ}
  {subset subset' : BufferSubset}

theorem writeTo_full (h : ring.freeBytes < subset.length) :
    ring.writeTo subset = .ok ((ring, subset), .error .EAGAIN) :=
  if_pos h

theorem writeTo_refused (hfits : subset.length ≤ ring.freeBytes) (hlength : 0 < subset.length)
    (hoffset : subset.offset < 0x10000000000000000)
    (h : subset.buffer.size < u64 (ring.firstPiece subset.length + subset.offset)) :
    ring.writeTo subset = .ok ((ring, subset), .error .EINVAL) := by
  have hfree : ring.freeBytes ≠ 0 := by omega
  rw [writeTo, if_neg (Nat.not_lt.mpr hfits), writeRounds, if_pos ⟨hfree, hlength⟩]
  unfold BufferSubset.readTo UserBuffer.readTo expectedTry
  dsimp only
  rw [Nat.zero_add, u64_of_lt hoffset, Nat.sub_zero,
    if_pos (show u64 (min ring.segmentWriteSpace subset.length + subset.offset) > _ from h)]

theorem Ok.advance_eq {n : ℕ} (ok : ring.Ok) (hn : n ≤ ring.segmentWriteSpace) :
    ring.advance ring.writeIdx n = (ring.movedOn n).writeIdx := by
  obtain ⟨hread, hwrite⟩ := ok
  unfold segmentWriteSpace at hn
  unfold advance movedOn
  dsimp only
  split_ifs at hn ⊢ <;> omega

theorem Ok.advance_advance {length : ℕ} (ok : ring.Ok) (hpiece : ring.segmentWriteSpace < length)
    (hfits : length ≤ ring.freeBytes) :
    ring.advance (ring.advance ring.writeIdx ring.segmentWriteSpace)
      (length - ring.segmentWriteSpace) = (ring.movedOn length).writeIdx := by
  obtain ⟨hread, hwrite⟩ := ok
  unfold freeBytes at hfits
  unfold segmentWriteSpace at hpiece
  unfold advance movedOn segmentWriteSpace
  dsimp only
  split_ifs at hpiece hfits ⊢ <;> omega

theorem Ok.movedOn {n : ℕ} (ok : ring.Ok) (hn : n ≤ ring.freeBytes) :
    (ring.movedOn n).Ok ∧ (ring.movedOn n).freeBytes = ring.freeBytes - n := by
  obtain ⟨hread, hwrite⟩ := ok
  unfold freeBytes at hn
  refine ⟨⟨hread, ?_⟩, ?_⟩
  · show (ring.movedOn n).writeIdx < ring.size
    unfold RingBuffer.movedOn
    dsimp only
    split_ifs at hn ⊢ <;> omega
  · unfold freeBytes RingBuffer.movedOn
    dsimp only
    split_ifs at hn ⊢ <;> omega

/-- What a successful write has done: the bytes are pending behind those that were. -/
structure Wrote (ring : RingBuffer) (subset : BufferSubset) (ring' : RingBuffer)
    (subset' : BufferSubset) : Prop where
  ok : ring'.Ok
  size_eq : ring'.size = ring.size
  readIdx_eq : ring'.readIdx = ring.readIdx
  writeIdx_eq : ring'.writeIdx = (ring.movedOn subset.length).writeIdx
  pendingBytes_eq : ring'.pendingBytes = ring.pendingBytes + subset.length
  buffer_eq : subset'.buffer = UserBuffer.accessed^[ring.pieces subset.length] subset.buffer
  old : ∀ i < ring.pendingBytes, ring'.pending i = ring.pending i
  new : subset.buffer.Private → subset.offset + subset.length ≤ subset.buffer.size →
    ∀ j < subset.length,
      ring'.pending (ring.pendingBytes + j) = subset.buffer.bytes (subset.offset + j)

theorem Wrote.ring_eq (h : ring.Wrote subset ring' subset') :
    ring' = { ring.movedOn subset.length with buffer := ring'.buffer } := by
  obtain ⟨buffer, size, readIdx, writeIdx⟩ := ring'
  obtain ⟨-, rfl, rfl, rfl, -⟩ := h
  rfl

/-- The bytes that are pending, in order. -/
def contents (ring : RingBuffer) : List Byte := slice ring.pending 0 ring.pendingBytes

@[simp] theorem length_contents (ring : RingBuffer) : ring.contents.length = ring.pendingBytes :=
  length_slice _ _ _

theorem Wrote.contents_eq (h : ring.Wrote subset ring' subset') :
    ∃ bytes, bytes.length = subset.length ∧ ring'.contents = ring.contents ++ bytes ∧
      (subset.buffer.Private → subset.offset + subset.length ≤ subset.buffer.size →
        bytes = slice subset.buffer.bytes subset.offset subset.length) := by
  refine ⟨slice ring'.pending ring.pendingBytes subset.length, length_slice _ _ _, ?_,
    fun hprivate hend => slice_congr fun j hj => h.new hprivate hend j hj⟩
  rw [contents, h.pendingBytes_eq, slice_add, Nat.zero_add]
  refine congrArg (· ++ _) (slice_congr fun i hi => ?_)
  rw [Nat.zero_add, h.old i hi]

theorem Ok.wrote_piece (ok : ring.Ok) (hn : subset.length ≤ ring.segmentWriteSpace)
    (hlength : 0 < subset.length)
    (hoffset : subset.offset < 0x10000000000000000) :
    ring.Wrote subset
      (ring.putPiece subset.buffer.accessed.bytes (u64 (0 + subset.offset)) subset.length)
      { subset with buffer := subset.buffer.accessed } := by
  obtain ⟨ok', hpending, hfree⟩ := ok.putPiece subset.buffer.accessed.bytes
    (u64 (0 + subset.offset)) hn
  have hpieces : ring.pieces subset.length = 1 := by
    rw [pieces, if_neg (Nat.pos_iff_ne_zero.mp hlength), if_pos hn]
  refine ⟨ok', rfl, rfl, ok.advance_eq hn, hpending, by rw [hpieces]; rfl,
    fun i hi => ok.pending_putPiece_old hn hi, fun h _ j hj => ?_⟩
  rw [ok.pending_putPiece_new _ _ hn hj, Nat.zero_add, u64_of_lt hoffset, h.accessed_bytes]

/-- Two pieces, as all of a write. -/
theorem Ok.wrote_pieces (ok : ring.Ok) (hpiece : ring.segmentWriteSpace < subset.length)
    (hfits : subset.length ≤ ring.freeBytes) (hoffset : subset.offset < 0x10000000000000000) :
    ring.Wrote subset
      ((ring.putPiece subset.buffer.accessed.bytes (u64 (0 + subset.offset))
          ring.segmentWriteSpace).putPiece subset.buffer.accessed.accessed.bytes
        (u64 (0 + ring.segmentWriteSpace + subset.offset))
        (subset.length - ring.segmentWriteSpace))
      { subset with buffer := subset.buffer.accessed.accessed } := by
  have hn := Nat.le_refl ring.segmentWriteSpace
  have hsecond := ok.segmentWriteSpace_putPiece subset.buffer.accessed.bytes
    (u64 (0 + subset.offset)) (by omega)
  obtain ⟨ok₁, hpending₁, hfree₁⟩ := ok.putPiece subset.buffer.accessed.bytes
    (u64 (0 + subset.offset)) hn
  have hm : subset.length - ring.segmentWriteSpace ≤
      (ring.putPiece subset.buffer.accessed.bytes (u64 (0 + subset.offset))
        ring.segmentWriteSpace).segmentWriteSpace := by omega
  obtain ⟨ok₂, hpending₂, hfree₂⟩ := ok₁.putPiece subset.buffer.accessed.accessed.bytes
    (u64 (0 + ring.segmentWriteSpace + subset.offset)) hm
  have hpieces : ring.pieces subset.length = 2 := by
    rw [pieces, if_neg (by omega), if_neg (by omega)]
  refine ⟨ok₂, rfl, rfl, ?_, by omega, by rw [hpieces]; rfl, fun i hi => ?_,
    fun h hend j hj => ?_⟩
  · show ring.advance (ring.advance ring.writeIdx ring.segmentWriteSpace)
      (subset.length - ring.segmentWriteSpace) = _
    exact ok.advance_advance hpiece hfits
  · rw [ok₁.pending_putPiece_old hm (by omega), ok.pending_putPiece_old hn hi]
  · have hsize := subset.buffer.size_lt
    by_cases hfirst : j < ring.segmentWriteSpace
    · rw [ok₁.pending_putPiece_old hm (by omega), ok.pending_putPiece_new _ _ hn hfirst, Nat.zero_add,
        u64_of_lt hoffset, h.accessed_bytes]
    · obtain ⟨k, rfl⟩ := Nat.exists_eq_add_of_le (Nat.not_lt.mp hfirst)
      have hnew := ok₁.pending_putPiece_new subset.buffer.accessed.accessed.bytes
        (u64 (0 + ring.segmentWriteSpace + subset.offset)) hm
        (by omega : k < subset.length - ring.segmentWriteSpace)
      rw [hpending₁, Nat.add_assoc ring.pendingBytes] at hnew
      have hboth : subset.buffer.accessed.accessed.bytes = subset.buffer.bytes :=
        (h _ _).trans (h _ _)
      rw [hnew, hboth, u64_of_lt (by omega)]
      congr 1
      omega

/-- **A write that fits** and whose first piece is in the buffer succeeds. -/
theorem writeTo_ok (ok : ring.Ok) (hfits : subset.length ≤ ring.freeBytes)
    (hoffset : subset.offset < 0x10000000000000000)
    (hend : u64 (subset.offset + subset.length) ≤ subset.buffer.size)
    (hfirst : u64 (ring.firstPiece subset.length + subset.offset) ≤ subset.buffer.size) :
    ∃ ring' subset', ring.writeTo subset = .ok ((ring', subset'), .ok subset.length) ∧
      ring.Wrote subset ring' subset' := by
  rw [writeTo, if_neg (Nat.not_lt.mpr hfits)]
  rcases Nat.eq_zero_or_pos subset.length with hnone | hlength
  · refine ⟨ring, subset, ?_, ok, rfl, rfl, ?_, by rw [hnone]; rfl, by rw [hnone]; rfl,
      fun _ _ => rfl, fun _ _ j hj => ?_⟩
    · rw [writeRounds_end _ _ (Nat.succ_pos _) (by omega), hnone]
    · have := ok.writeIdx_lt
      rw [hnone, movedOn]
      dsimp only
      rw [if_pos (by omega), Nat.add_zero]
    · omega
  have hfree : ring.freeBytes ≠ 0 := by omega
  have hzero : u64 (0 + subset.offset) = subset.offset := by rw [Nat.zero_add, u64_of_lt hoffset]
  have hround := writeRounds_piece subset.length ring subset hfree hlength
    (show ring.firstPiece subset.length = min ring.segmentWriteSpace (subset.length - 0) from rfl)
    (by rw [hzero]; exact hfirst)
  rw [hround]
  by_cases hpiece : subset.length ≤ ring.segmentWriteSpace
  · have hn : ring.firstPiece subset.length = subset.length := min_eq_right hpiece
    refine ⟨_, _, ?_, ok.wrote_piece hpiece hlength hoffset⟩
    rw [hn]
    refine (writeRounds_end _ { subset with buffer := subset.buffer.accessed } hlength
      (Nat.le_add_left subset.length 0)).trans ?_
    show Except.ok (_, Except.ok (0 + subset.length)) = _
    rw [Nat.zero_add subset.length]
  · -- The first piece goes up to the end of the ring, and the rest to its beginning.
    have hn : ring.firstPiece subset.length = ring.segmentWriteSpace := min_eq_left (by omega)
    have hpos := ok.segmentWriteSpace_pos hfree
    have hwrote := ok.wrote_pieces (by omega : ring.segmentWriteSpace < subset.length) hfits hoffset
    obtain ⟨ok₁, -, hfree₁⟩ := ok.putPiece subset.buffer.accessed.bytes
      (u64 (0 + subset.offset)) (Nat.le_refl ring.segmentWriteSpace)
    have hsecond := ok.segmentWriteSpace_putPiece subset.buffer.accessed.bytes
      (u64 (0 + subset.offset)) (by omega)
    have hend₂ : u64 (subset.length - ring.segmentWriteSpace +
        u64 (0 + ring.segmentWriteSpace + subset.offset)) ≤ subset.buffer.size := by
      unfold u64 at hend ⊢
      omega
    obtain ⟨fuel, hfuel⟩ : ∃ fuel, subset.length = fuel + 1 := ⟨subset.length - 1, by omega⟩
    refine ⟨_, _, ?_, hwrote⟩
    rw [hn]
    have hround₂ := writeRounds_piece fuel (ring.putPiece subset.buffer.accessed.bytes
        (u64 (0 + subset.offset)) ring.segmentWriteSpace)
      { subset with buffer := subset.buffer.accessed } (by omega)
      (show 0 + ring.segmentWriteSpace < subset.length by omega)
      (show subset.length - ring.segmentWriteSpace =
        min _ (subset.length - (0 + ring.segmentWriteSpace)) by omega) hend₂
    have hlast := writeRounds_end ((ring.putPiece subset.buffer.accessed.bytes
        (u64 (0 + subset.offset)) ring.segmentWriteSpace).putPiece
          subset.buffer.accessed.accessed.bytes
          (u64 (0 + ring.segmentWriteSpace + subset.offset))
          (subset.length - ring.segmentWriteSpace))
      { subset with buffer := subset.buffer.accessed.accessed } (by omega : 0 < fuel)
      (show subset.length ≤
        0 + ring.segmentWriteSpace + (subset.length - ring.segmentWriteSpace) by omega)
    calc writeRounds subset.length _ _ _
        = writeRounds (fuel + 1) _ _ _ := congrArg (writeRounds · _ _ _) hfuel
      _ = _ := hround₂
      _ = _ := hlast
      _ = _ := by rw [show 0 + ring.segmentWriteSpace +
          (subset.length - ring.segmentWriteSpace) = subset.length by omega]

/-- What a successful read has done: the first bytes that were pending are in the buffer. -/
structure Read (ring : RingBuffer) (subset : BufferSubset) (ring' : RingBuffer)
    (subset' : BufferSubset) : Prop where
  ok : ring'.Ok
  size_eq : ring'.size = ring.size
  pendingBytes_eq : ring'.pendingBytes = ring.pendingBytes - subset.length
  buffer_size : subset'.buffer.size = subset.buffer.size
  others_eq : subset'.buffer.others = subset.buffer.others
  rest : ∀ i, subset.length + i < ring.pendingBytes →
    ring'.pending i = ring.pending (subset.length + i)
  bytes_eq : subset.buffer.Private → subset'.buffer.bytes =
    copyRange subset.buffer.bytes subset.offset ring.pending 0 subset.length

theorem Read.contents_eq (h : ring.Read subset ring' subset')
    (hpending : subset.length ≤ ring.pendingBytes) :
    ring.contents = slice ring.pending 0 subset.length ++ ring'.contents := by
  obtain ⟨rest, hrest⟩ := Nat.exists_eq_add_of_le hpending
  rw [contents, contents, h.pendingBytes_eq, hrest, Nat.add_sub_cancel_left, slice_add]
  refine congrArg (_ ++ ·) (slice_congr fun i hi => ?_)
  rw [Nat.zero_add, Nat.zero_add, h.rest i (by omega)]

theorem Ok.copyRange_piece {n : ℕ} (ok : ring.Ok) (hn : n ≤ ring.segmentReadSpace)
    (dst : Memory Byte) (dstOff : ℕ) :
    copyRange dst dstOff ring.buffer ring.readIdx n = copyRange dst dstOff ring.pending 0 n :=
  copyRange_congr fun j hj => by rw [ok.readIdx_piece hn hj, Nat.zero_add]

/-- **The loop of `read_to`** reads what is left to read. -/
theorem readRounds_ok (fuel : ℕ) :
    ∀ (ring : RingBuffer) (subset : BufferSubset) {done : ℕ}, ring.Ok →
      done ≤ subset.length → subset.length - done ≤ ring.pendingBytes →
      subset.length - done < fuel → subset.offset + subset.length ≤ subset.buffer.size →
      ∃ ring' subset', readRounds fuel ring subset done =
          .ok ((ring', subset'), .ok subset.length) ∧
        ring.Read ⟨subset.buffer, subset.offset + done, subset.length - done⟩ ring' subset' := by
  induction fuel with
  | zero => exact fun _ _ _ _ _ _ hfuel => absurd hfuel (Nat.not_lt_zero _)
  | succ fuel ih =>
      intro ring subset done ok hdone hpending hfuel hend
      rcases Nat.eq_or_lt_of_le hdone with hall | hmore
      · subst hall
        refine ⟨ring, subset, readRounds_end ring subset (Nat.succ_pos _) (Nat.le_refl _), ok, rfl,
          ?_, rfl, rfl, fun i _ => ?_, fun _ => ?_⟩
        · rw [Nat.sub_self, Nat.sub_zero]
        · rw [Nat.sub_self, Nat.zero_add]
        · rw [Nat.sub_self, copyRange_zero]
      · have hsize := subset.buffer.size_lt
        have hpos := ok.segmentReadSpace_pos (by omega)
        obtain ⟨n, hn⟩ : ∃ n, n = min ring.segmentReadSpace (subset.length - done) := ⟨_, rfl⟩
        have hpiece : n ≤ ring.segmentReadSpace := by omega
        obtain ⟨ok₁, hpending₁⟩ := ok.takePiece hpiece
        have hplace : u64 (done + subset.offset) = subset.offset + done := by
          rw [u64_of_lt (by omega), Nat.add_comm]
        rw [readRounds_piece fuel ring subset (by omega) hmore hn
          (by rw [hplace, u64_of_lt (by omega)]; omega)]
        obtain ⟨ring', subset', hrounds, hread⟩ := ih (ring.takePiece n)
          { subset with
            buffer := { subset.buffer.accessed with
              bytes := copyRange subset.buffer.accessed.bytes (u64 (done + subset.offset))
                ring.buffer ring.readIdx n } }
          ok₁ (show done + n ≤ subset.length by omega)
          (show subset.length - (done + n) ≤ _ by omega)
          (show subset.length - (done + n) < fuel by omega) hend
        have hsum : subset.offset + done + (subset.length - done) =
          subset.offset + (done + n) + (subset.length - (done + n)) := by omega
        refine ⟨ring', subset', hrounds, hread.ok, hread.size_eq, ?_, hread.buffer_size,
          hread.others_eq, fun i hi => ?_, fun h => ?_⟩
        · rw [hread.pendingBytes_eq, hpending₁]
          dsimp only
          omega
        · dsimp only at hi
          rw [hread.rest i (by dsimp only; omega), ok.pending_takePiece (by dsimp only; omega)]
          congr 1
          dsimp only
          omega
        · rw [hread.bytes_eq h]
          dsimp only
          rw [hplace, ok.copyRange_piece hpiece, h.accessed_bytes]
          have hrest : copyRange (copyRange subset.buffer.bytes (subset.offset + done) ring.pending 0
                n) (subset.offset + (done + n)) (ring.takePiece n).pending 0
                (subset.length - (done + n)) =
              copyRange (copyRange subset.buffer.bytes (subset.offset + done) ring.pending 0 n)
                (subset.offset + done + n) ring.pending (0 + n) (subset.length - (done + n)) := by
            rw [Nat.add_assoc]
            refine copyRange_congr fun j hj => ?_
            rw [Nat.zero_add, ok.pending_takePiece (by omega), Nat.zero_add]
          rw [hrest, copyRange_append]
          congr 1
          omega

/-- **A read of pending bytes** into a part of a buffer succeeds. -/
theorem readTo_ok (ok : ring.Ok) (hpending : subset.length ≤ ring.pendingBytes)
    (hend : subset.offset + subset.length ≤ subset.buffer.size) :
    ∃ ring' subset', ring.readTo subset = .ok ((ring', subset'), .ok subset.length) ∧
      ring.Read subset ring' subset' := by
  have hlt := ok.pending_add_free
  rw [readTo, if_pos (by omega), if_neg (Nat.not_lt.mpr hpending)]
  exact readRounds_ok (subset.length + 1) ring subset ok (Nat.zero_le _) (by omega) (by omega) hend

end RingBuffer

end BekOS

