import BekOS.Library.RingBuffer

/-!
# Runs of a `ring_buffer`

`read_to` and `write_to` with their `partial` argument, in any order.  The buffer of a call may
be shared, so what a call carries is said of its copies, one after the other: the bytes that
they found in the buffer (`Taken`), or that they left in it (`Given`).
-/

namespace BekOS

/-! ## What the copies of a call carry -/

/-- Copies from successive places of the buffer found these bytes. -/
inductive Taken : BufferSubset → ℕ → List Byte → BufferSubset → Prop
  | nothing (src : BufferSubset) (done : ℕ) : Taken src done [] src
  | piece {src src' : BufferSubset} {done n : ℕ} {bytes : List Byte} :
      Taken { src with buffer := src.buffer.accessed } (done + n) bytes src' →
      Taken src done (slice src.buffer.accessed.bytes (u64 (done + src.offset)) n ++ bytes) src'

/-- Copies to successive places of the buffer left these bytes. -/
inductive Given : BufferSubset → ℕ → List Byte → BufferSubset → Prop
  | nothing (dst : BufferSubset) (done : ℕ) : Given dst done [] dst
  | piece {dst dst' : BufferSubset} {done n : ℕ} {bytes : List Byte} (mem : Memory Byte)
      (off : ℕ) :
      Given
        { dst with
          buffer := { dst.buffer.accessed with
            bytes := copyRange dst.buffer.accessed.bytes (u64 (done + dst.offset)) mem off n } }
        (done + n) bytes dst' →
      Given dst done (slice mem off n ++ bytes) dst'

/-- Every copy that a call makes on the buffer succeeds. -/
def BufferSubset.CopiesSucceed (subset : BufferSubset) : Prop :=
  ∀ done n, done + n ≤ subset.length →
    u64 (n + u64 (done + subset.offset)) ≤ subset.buffer.size

theorem BufferSubset.copiesSucceed_of_le {subset : BufferSubset}
    (h : subset.offset + subset.length ≤ subset.buffer.size) : subset.CopiesSucceed := by
  intro done n hn
  have hsize := subset.buffer.size_lt
  rw [u64_of_lt (by omega : done + subset.offset < _), u64_of_lt (by omega)]
  omega

namespace RingBuffer

/-! ## The calls -/

/-- `write_to` -/
def writeToPartial (ring : RingBuffer) (src : BufferSubset) (isPartial : Bool) :
    Except Halt ((RingBuffer × BufferSubset) × Except ErrorCode ℕ) :=
  if ring.freeBytes < src.length ∧ isPartial = false then .ok ((ring, src), .error .EAGAIN)
  else writeRounds (src.length + 1) ring src 0

/-- `read_to` -/
def readToPartial (ring : RingBuffer) (dst : BufferSubset) (isPartial : Bool) :
    Except Halt ((RingBuffer × BufferSubset) × Except ErrorCode ℕ) :=
  if isPartial = true ∨ dst.length < ring.size then
    if isPartial = false ∧ ring.pendingBytes < dst.length then .ok ((ring, dst), .error .EAGAIN)
    else readRounds (dst.length + 1) ring dst 0
  else .error (.fault .panic)

variable {ring ring' : RingBuffer} {subset : BufferSubset} {n : ℕ}

/-! ## The loops -/

theorem Ok.contents_putPiece (ok : ring.Ok) (src : Memory Byte) (srcOff : ℕ)
    (hn : n ≤ ring.segmentWriteSpace) :
    (ring.putPiece src srcOff n).contents = ring.contents ++ slice src srcOff n := by
  obtain ⟨-, hpending, -⟩ := ok.putPiece src srcOff hn
  rw [contents, contents, hpending, slice_add]
  refine congrArg₂ (· ++ ·) (slice_congr fun i hi => ?_) (slice_congr fun j hj => ?_)
  · rw [Nat.zero_add, ok.pending_putPiece_old hn hi]
  · rw [Nat.zero_add, ok.pending_putPiece_new src srcOff hn hj]

theorem Ok.contents_takePiece (ok : ring.Ok) (hn : n ≤ ring.segmentReadSpace) :
    ring.contents = slice ring.buffer ring.readIdx n ++ (ring.takePiece n).contents := by
  obtain ⟨-, hpending⟩ := ok.takePiece hn
  obtain ⟨rest, hrest⟩ := Nat.exists_eq_add_of_le (hn.trans ok.segmentReadSpace_le)
  rw [contents, contents, hpending, hrest, Nat.add_sub_cancel_left, slice_add]
  refine congrArg₂ (· ++ ·) (slice_congr fun j hj => ?_) (slice_congr fun i hi => ?_)
  · rw [Nat.zero_add, ok.readIdx_piece hn hj]
  · rw [Nat.zero_add, Nat.zero_add, ok.pending_takePiece (by omega)]

theorem writeRounds_stops (ring : RingBuffer) (subset : BufferSubset) {fuel written : ℕ}
    (hfuel : 0 < fuel) (h : ¬ (ring.freeBytes ≠ 0 ∧ written < subset.length)) :
    writeRounds fuel ring subset written = .ok ((ring, subset), .ok written) := by
  obtain ⟨fuel, rfl⟩ := Nat.exists_eq_succ_of_ne_zero (Nat.pos_iff_ne_zero.mp hfuel)
  rw [writeRounds, if_neg h]

theorem readRounds_stops (ring : RingBuffer) (subset : BufferSubset) {fuel done : ℕ}
    (hfuel : 0 < fuel) (h : ¬ (ring.pendingBytes ≠ 0 ∧ done < subset.length)) :
    readRounds fuel ring subset done = .ok ((ring, subset), .ok done) := by
  obtain ⟨fuel, rfl⟩ := Nat.exists_eq_succ_of_ne_zero (Nat.pos_iff_ne_zero.mp hfuel)
  rw [readRounds, if_neg h]

/-- **The loop of `write_to`** takes what is left of the buffer, as far as there is room. -/
theorem writeRounds_takes (fuel : ℕ) :
    ∀ (ring : RingBuffer) (subset : BufferSubset) {written : ℕ}, ring.Ok →
      subset.CopiesSucceed → written ≤ subset.length → subset.length - written < fuel →
      ∃ ring' subset' bytes,
        writeRounds fuel ring subset written =
          .ok ((ring', subset'), .ok (written + bytes.length)) ∧
        ring'.Ok ∧ ring'.size = ring.size ∧
        bytes.length = min ring.freeBytes (subset.length - written) ∧
        ring'.contents = ring.contents ++ bytes ∧ Taken subset written bytes subset' := by
  induction fuel with
  | zero => exact fun _ _ _ _ _ _ hfuel => absurd hfuel (Nat.not_lt_zero _)
  | succ fuel ih =>
      intro ring subset written ok hcopies hwritten hfuel
      by_cases hmore : ring.freeBytes ≠ 0 ∧ written < subset.length
      · have hpos := ok.segmentWriteSpace_pos hmore.1
        have hle := ok.segmentWriteSpace_le
        obtain ⟨n, hn⟩ : ∃ n, n = min ring.segmentWriteSpace (subset.length - written) := ⟨_, rfl⟩
        have hpiece : n ≤ ring.segmentWriteSpace := by omega
        rw [writeRounds_piece fuel ring subset hmore.1 hmore.2 hn
          (hcopies written n (by omega))]
        obtain ⟨ok₁, -, hfree₁⟩ := ok.putPiece subset.buffer.accessed.bytes
          (u64 (written + subset.offset)) hpiece
        obtain ⟨ring', subset', bytes, hrounds, ok', hsize, hlength, hcontents, htaken⟩ :=
          ih (ring.putPiece subset.buffer.accessed.bytes (u64 (written + subset.offset)) n)
            { subset with buffer := subset.buffer.accessed } ok₁ hcopies
            (show written + n ≤ subset.length by omega)
            (show subset.length - (written + n) < fuel by omega)
        refine ⟨ring', subset', _, hrounds.trans ?_, ok', hsize, ?_, ?_, htaken.piece⟩
        · rw [List.length_append, length_slice, Nat.add_assoc]
        · rw [List.length_append, length_slice, hlength, hfree₁]
          dsimp only
          omega
        · rw [hcontents, ok.contents_putPiece _ _ hpiece, List.append_assoc]
      · refine ⟨ring, subset, [], writeRounds_stops ring subset (Nat.succ_pos _) hmore, ok, rfl, ?_,
          (List.append_nil _).symm, .nothing _ _⟩
        rw [List.length_nil]
        omega

/-- **The loop of `read_to`** gives what is pending, as far as there is room for it. -/
theorem readRounds_gives (fuel : ℕ) :
    ∀ (ring : RingBuffer) (subset : BufferSubset) {done : ℕ}, ring.Ok →
      subset.CopiesSucceed → done ≤ subset.length → subset.length - done < fuel →
      ∃ ring' subset' bytes,
        readRounds fuel ring subset done = .ok ((ring', subset'), .ok (done + bytes.length)) ∧
        ring'.Ok ∧ ring'.size = ring.size ∧
        bytes.length = min ring.pendingBytes (subset.length - done) ∧
        ring.contents = bytes ++ ring'.contents ∧ Given subset done bytes subset' := by
  induction fuel with
  | zero => exact fun _ _ _ _ _ _ hfuel => absurd hfuel (Nat.not_lt_zero _)
  | succ fuel ih =>
      intro ring subset done ok hcopies hdone hfuel
      by_cases hmore : ring.pendingBytes ≠ 0 ∧ done < subset.length
      · have hpos := ok.segmentReadSpace_pos hmore.1
        have hle := ok.segmentReadSpace_le
        obtain ⟨n, hn⟩ : ∃ n, n = min ring.segmentReadSpace (subset.length - done) := ⟨_, rfl⟩
        have hpiece : n ≤ ring.segmentReadSpace := by omega
        rw [readRounds_piece fuel ring subset hmore.1 hmore.2 hn (hcopies done n (by omega))]
        obtain ⟨ok₁, hpending₁⟩ := ok.takePiece hpiece
        obtain ⟨ring', subset', bytes, hrounds, ok', hsize, hlength, hcontents, hgiven⟩ :=
          ih (ring.takePiece n)
            { subset with
              buffer := { subset.buffer.accessed with
                bytes := copyRange subset.buffer.accessed.bytes (u64 (done + subset.offset))
                  ring.buffer ring.readIdx n } }
            ok₁ hcopies (show done + n ≤ subset.length by omega)
            (show subset.length - (done + n) < fuel by omega)
        refine ⟨ring', subset', _, hrounds.trans ?_, ok', hsize, ?_, ?_,
          .piece ring.buffer ring.readIdx hgiven⟩
        · rw [List.length_append, length_slice, Nat.add_assoc]
        · rw [List.length_append, length_slice, hlength, hpending₁]
          dsimp only
          omega
        · rw [ok.contents_takePiece hpiece, hcontents, List.append_assoc]
      · refine ⟨ring, subset, [], readRounds_stops ring subset (Nat.succ_pos _) hmore, ok, rfl, ?_,
          rfl, .nothing _ _⟩
        rw [List.length_nil]
        omega

/-! ## Runs -/

/-- A call of a ring. -/
inductive Call
  | write (src : BufferSubset) (isPartial : Bool)
  | read (dst : BufferSubset) (isPartial : Bool)

/-- What a call comes back with: the buffer as it is then, and the result. -/
structure Reply where
  buffer : BufferSubset
  result : Except ErrorCode ℕ

namespace Call

/-- The buffer that the call is given. -/
def buffer : Call → BufferSubset
  | write src _ => src
  | read dst _ => dst

/-- The `partial` argument. -/
def isPartial : Call → Bool
  | write _ isPartial => isPartial
  | read _ isPartial => isPartial

/-- How many bytes the ring has room for, or has. -/
def available : Call → RingBuffer → ℕ
  | write _ _, ring => ring.freeBytes
  | read _ _, ring => ring.pendingBytes

/-- The code accepts the size of the request, and the copies succeed. -/
def Accepted (capacity : ℕ) : Call → Prop
  | write src _ => src.CopiesSucceed
  | read dst isPartial => dst.CopiesSucceed ∧ (isPartial = true ∨ dst.length < capacity)

/-- The call carries these bytes, from the buffer or to it. -/
def Carries : Call → Reply → List Byte → Prop
  | write src _, reply, bytes => Taken src 0 bytes reply.buffer
  | read dst _, reply, bytes => Given dst 0 bytes reply.buffer

/-- The bytes that the call writes to the ring, of those that it carries. -/
def written : Call → List Byte → List Byte
  | write _ _, bytes => bytes
  | read _ _, _ => []

/-- The bytes that the call reads from the ring, of those that it carries. -/
def taken : Call → List Byte → List Byte
  | write _ _, _ => []
  | read _ _, bytes => bytes

end Call

/-- One call. -/
def step (ring : RingBuffer) : Call → Except Halt (RingBuffer × Reply)
  | .write src isPartial => (ring.writeToPartial src isPartial).map fun done =>
      (done.1.1, ⟨done.1.2, done.2⟩)
  | .read dst isPartial => (ring.readToPartial dst isPartial).map fun done =>
      (done.1.1, ⟨done.1.2, done.2⟩)

/-- What a call may answer, and what it has carried then. -/
inductive Answers (ring : RingBuffer) (call : Call) : RingBuffer → Reply → List Byte → Prop
  /-- Not enough bytes, or not enough room: nothing has changed. -/
  | again : call.isPartial = false → call.available ring < call.buffer.length →
      Answers ring call ring ⟨call.buffer, .error .EAGAIN⟩ []
  /-- All of the buffer, or of a partial call as much as there is. -/
  | done {ring' : RingBuffer} {buffer : BufferSubset} {bytes : List Byte} :
      bytes.length = min (call.available ring) call.buffer.length →
      (call.isPartial = false → bytes.length = call.buffer.length) →
      call.Carries ⟨buffer, .ok bytes.length⟩ bytes →
      Answers ring call ring' ⟨buffer, .ok bytes.length⟩ bytes

/-- A run of calls, with the bytes that they have written and those that they have read. -/
inductive Run : RingBuffer → List Call → List Byte → List Byte → RingBuffer → Prop
  | nil (ring : RingBuffer) : Run ring [] [] [] ring
  | cons {ring next final : RingBuffer} {call : Call} {reply : Reply} {rest : List Call}
      {bytes written taken : List Byte} :
      ring.step call = .ok (next, reply) → ring.Answers call next reply bytes →
      Run next rest written taken final →
      Run ring (call :: rest) (call.written bytes ++ written) (call.taken bytes ++ taken) final

/-- **A call ends** with an allowed answer, and the ring holds the bytes in between. -/
theorem Ok.step {call : Call} (ok : ring.Ok) (haccepted : call.Accepted ring.size) :
    ∃ ring' reply bytes, ring.step call = .ok (ring', reply) ∧ ring.Answers call ring' reply bytes ∧
      ring'.Ok ∧ ring'.size = ring.size ∧
      ring.contents ++ call.written bytes = call.taken bytes ++ ring'.contents := by
  cases call with
  | write src isPartial =>
      by_cases hfull : ring.freeBytes < src.length ∧ isPartial = false
      · refine ⟨ring, ⟨src, .error .EAGAIN⟩, [], ?_, .again hfull.2 hfull.1, ok, rfl,
          List.append_nil _⟩
        rw [RingBuffer.step, writeToPartial, if_pos hfull]
        rfl
      · obtain ⟨ring', src', bytes, hrounds, ok', hsize, hlength, hcontents, htaken⟩ :=
          writeRounds_takes (src.length + 1) ring src ok haccepted (Nat.zero_le _) (by omega)
        refine ⟨ring', ⟨src', .ok bytes.length⟩, bytes, ?_, .done hlength (fun hwhole => ?_) htaken,
          ok', hsize, hcontents.symm⟩
        · rw [RingBuffer.step, writeToPartial, if_neg hfull, hrounds, Nat.zero_add]
          rfl
        · have hroom : ¬ ring.freeBytes < src.length := fun h => hfull ⟨h, hwhole⟩
          exact hlength.trans (show min ring.freeBytes (src.length - 0) = src.length by omega)
  | read dst isPartial =>
      obtain ⟨hcopies, hpossible⟩ := haccepted
      by_cases hlack : isPartial = false ∧ ring.pendingBytes < dst.length
      · refine ⟨ring, ⟨dst, .error .EAGAIN⟩, [], ?_, .again hlack.1 hlack.2, ok, rfl,
          List.append_nil _⟩
        rw [RingBuffer.step, readToPartial, if_pos hpossible, if_pos hlack]
        rfl
      · obtain ⟨ring', dst', bytes, hrounds, ok', hsize, hlength, hcontents, hgiven⟩ :=
          readRounds_gives (dst.length + 1) ring dst ok hcopies (Nat.zero_le _) (by omega)
        refine ⟨ring', ⟨dst', .ok bytes.length⟩, bytes, ?_, .done hlength (fun hwhole => ?_) hgiven,
          ok', hsize, (List.append_nil _).trans hcontents⟩
        · rw [RingBuffer.step, readToPartial, if_pos hpossible, if_neg hlack, hrounds, Nat.zero_add]
          rfl
        · have henough : ¬ ring.pendingBytes < dst.length := fun h => hlack ⟨hwhole, h⟩
          exact hlength.trans (show min ring.pendingBytes (dst.length - 0) = dst.length by omega)

/-- **Calls from any ring** end, and what was pending and is written comes out in order. -/
theorem Ok.run {calls : List Call} (ok : ring.Ok)
    (haccepted : ∀ call ∈ calls, call.Accepted ring.size) :
    ∃ written taken ring', ring.Run calls written taken ring' ∧ ring'.Ok ∧
      ring'.size = ring.size ∧ ring.contents ++ written = taken ++ ring'.contents := by
  induction calls generalizing ring with
  | nil => exact ⟨[], [], ring, .nil ring, ok, rfl, List.append_nil _⟩
  | cons call rest ih =>
      obtain ⟨hcall, hrest⟩ := List.forall_mem_cons.mp haccepted
      obtain ⟨next, reply, bytes, hstep, hanswers, ok₁, hsize₁, hcontents₁⟩ := ok.step hcall
      obtain ⟨written, taken, ring', hrun, ok', hsize', hcontents'⟩ :=
        ih ok₁ (fun call hmem => by rw [hsize₁]; exact hrest call hmem)
      refine ⟨_, _, ring', .cons hstep hanswers hrun, ok', hsize'.trans hsize₁, ?_⟩
      rw [← List.append_assoc, hcontents₁, List.append_assoc, hcontents', List.append_assoc]

/-- **A ring is a queue of bytes.**  Every call of a run ends; the bytes read, and behind them
those that are pending, are the bytes written; and the indices are indices of the ring. -/
theorem run_fifo {size : ℕ} {calls : List Call} (hsize : 0 < size)
    (haccepted : ∀ call ∈ calls, call.Accepted size) :
    ∃ written taken ring, (new size).Run calls written taken ring ∧
      written = taken ++ ring.contents ∧ ring.capacity = size ∧
      ring.readIdx < ring.capacity ∧ ring.writeIdx < ring.capacity ∧
      ring.pendingBytes + ring.freeBytes = ring.capacity - 1 := by
  obtain ⟨written, taken, ring, hrun, ok, hcapacity, hcontents⟩ := (new_ok hsize).run haccepted
  have hpending := ok.pending_add_free
  refine ⟨written, taken, ring, hrun, hcontents, hcapacity, ok.readIdx_lt, ok.writeIdx_lt, ?_⟩
  unfold capacity
  omega

/-- Buffers of memory that nobody else writes to. -/
private def plainBuffer (bytes : Memory Byte) (size : ℕ) (h : size < 0x10000000000000000) :
    BufferSubset :=
  ⟨⟨size, h, bytes, fun _ bytes => bytes, 0⟩, 0, size⟩

/-- Three bytes and, as they do not fit together, one more of five; all four are read. -/
theorem run_fifo_four : ∃ calls : List Call, calls.length = 3 ∧
    ∃ written taken ring, (new 5).Run calls written taken ring ∧
      written = taken ++ ring.contents ∧ ring.capacity = 5 ∧
      ring.readIdx < ring.capacity ∧ ring.writeIdx < ring.capacity ∧
      ring.pendingBytes + ring.freeBytes = ring.capacity - 1 :=
  have hcopies : ∀ (bytes : Memory Byte) (size : ℕ) (h : size < 0x10000000000000000),
      (plainBuffer bytes size h).CopiesSucceed := fun bytes size h =>
    BufferSubset.copiesSucceed_of_le (Nat.le_of_eq (Nat.zero_add size))
  ⟨[.write (plainBuffer (fun i => i) 3 (by decide)) false,
      .write (plainBuffer (fun i => i + 3) 5 (by decide)) true,
      .read (plainBuffer (fun _ => 0) 4 (by decide)) false],
    rfl, run_fifo (by decide) (List.forall_mem_cons.mpr ⟨hcopies _ _ _,
      List.forall_mem_cons.mpr ⟨hcopies _ _ _,
        List.forall_mem_cons.mpr ⟨⟨hcopies _ _ _, .inr (by decide)⟩, List.forall_mem_nil _⟩⟩⟩)⟩

end RingBuffer

end BekOS
