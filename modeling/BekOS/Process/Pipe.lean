import BekOS.Lib.PartialRun
import BekOS.Library.RingBufferRuns

/-!
# `Pipe`

A pipe has the ring of a `ring_buffer` and its arithmetic, but its two loops may take turns: each
iteration works out the piece that it moves from where the other loop has got to.  What the writer
has put in is at any time what the reader has taken out and what lies in the ring between them.
-/

namespace BekOS

open PartialRun

/-- `PIPE_DEFAULT_SIZE` -/
def pipeDefaultSize : ℕ := 4096

/-- `Pipe` -/
structure Pipe where
  data : Memory Byte
  readIdx : ℕ
  writeIdx : ℕ

namespace Pipe

/-- The constructor. -/
def new : Pipe where
  data := fun _ => 0
  readIdx := 0
  writeIdx := 0

/-- How much can be written. -/
def writeSpace (pipe : Pipe) : ℕ :=
  if pipe.writeIdx ≥ pipe.readIdx then pipeDefaultSize - pipe.writeIdx + pipe.readIdx - 1
  else pipe.readIdx - pipe.writeIdx - 1

/-- How much can be written in one piece. -/
def segmentWriteSpace (pipe : Pipe) : ℕ :=
  (if pipe.writeIdx ≥ pipe.readIdx then pipeDefaultSize - pipe.writeIdx
    else pipe.readIdx - pipe.writeIdx - 1) - if pipe.readIdx = 0 then 1 else 0

/-- How much can be read. -/
def readSpace (pipe : Pipe) : ℕ :=
  if pipe.writeIdx ≥ pipe.readIdx then pipe.writeIdx - pipe.readIdx
  else pipeDefaultSize - pipe.readIdx + pipe.writeIdx

/-- How much can be read in one piece. -/
def segmentReadSpace (pipe : Pipe) : ℕ :=
  if pipe.writeIdx ≥ pipe.readIdx then pipe.writeIdx - pipe.readIdx
  else pipeDefaultSize - pipe.readIdx

/-- An index, moved on. -/
def advance (idx n : ℕ) : ℕ := if idx + n = pipeDefaultSize then 0 else idx + n

/-! ## The two loops -/

/-- Where the writer is: outside of `write`, or in its loop with so many bytes written. -/
inductive Writer
  | idle
  | writing (bytes : List Byte) (bytesWritten : ℕ)
  deriving DecidableEq

/-- Where the reader is: outside of `read`, in the loop that waits, or in the one that reads. -/
inductive Reader
  | idle
  | waiting (size : ℕ) (blocking : Bool)
  | reading (size bytesRead readSpace : ℕ)
  deriving DecidableEq

/-- A pipe with its writer and its reader. -/
structure Ends where
  pipe : Pipe
  writer : Writer
  reader : Reader

/-- What one of the ends does next.  The buffer of a call may refuse a copy; whatever a refused
copy has left in the ring is an argument of `writeFails`. -/
inductive Op
  | write (bytes : List Byte) (blocking : Bool)
  | writeIteration
  | writeFails (left : Memory Byte) (code : ErrorCode)
  | read (size : ℕ) (blocking : Bool)
  | poll
  | readIteration
  | readFails (code : ErrorCode)

/-- What comes of it: nothing, a piece in one direction, or the end of a call. -/
inductive Event
  | none
  | wrote (bytes : List Byte)
  | got (bytes : List Byte)
  | returned (result : Except ErrorCode ℕ)

/-- An iteration of the loop of `write`. -/
def writeIteration (pipe : Pipe) (bytes : List Byte) (bytesWritten : ℕ) : Ends → Ends × Event :=
  fun ends =>
    if bytesWritten < bytes.length then
      let toWrite := min pipe.segmentWriteSpace (bytes.length - bytesWritten)
      ({ ends with
        pipe := { pipe with
          data := copyRange pipe.data pipe.writeIdx (fun i => bytes.getD i 0) bytesWritten toWrite
          writeIdx := advance pipe.writeIdx toWrite }
        writer := .writing bytes (bytesWritten + toWrite) },
        .wrote (slice (fun i => bytes.getD i 0) bytesWritten toWrite))
    else ({ ends with writer := .idle }, .returned (.ok bytesWritten))

/-- An iteration of the loop of `write` in which the copy is refused. -/
def writeFails (pipe : Pipe) (bytes : List Byte) (bytesWritten : ℕ) (left : Memory Byte)
    (code : ErrorCode) : Ends → Ends × Event :=
  fun ends =>
    let toWrite := min pipe.segmentWriteSpace (bytes.length - bytesWritten)
    ({ ends with
      pipe := { pipe with data := copyRange pipe.data pipe.writeIdx left 0 toWrite }
      writer := .idle }, .returned (.error code))

/-- An iteration of the loop of `read`. -/
def readIteration (pipe : Pipe) (size bytesRead readSpace : ℕ) : Ends → Ends × Event :=
  fun ends =>
    if readSpace ≠ 0 ∧ bytesRead < size then
      let toRead := min pipe.segmentReadSpace (size - bytesRead)
      let moved := { pipe with readIdx := advance pipe.readIdx toRead }
      ({ ends with pipe := moved, reader := .reading size (bytesRead + toRead) moved.readSpace },
        .got (slice pipe.data pipe.readIdx toRead))
    else ({ ends with reader := .idle }, .returned (.ok bytesRead))

/-- What an end does, if it is where that is done. -/
def step (ends : Ends) : Op → Option (Ends × Event)
  | .write bytes blocking =>
      match ends.writer with
      | .idle =>
          if ends.pipe.writeSpace < bytes.length ∧ blocking = false then
            some (ends, .returned (.error .EAGAIN))
          else some ({ ends with writer := .writing bytes 0 }, .none)
      | .writing _ _ => none
  | .writeIteration =>
      match ends.writer with
      | .idle => none
      | .writing bytes bytesWritten => some (writeIteration ends.pipe bytes bytesWritten ends)
  | .writeFails left code =>
      match ends.writer with
      | .idle => none
      | .writing bytes bytesWritten =>
          if bytesWritten < bytes.length then
            some (writeFails ends.pipe bytes bytesWritten left code ends)
          else none
  | .read size blocking =>
      match ends.reader with
      | .idle => some ({ ends with reader := .waiting size blocking }, .none)
      | _ => none
  | .poll =>
      match ends.reader with
      | .waiting size blocking =>
          let readSpace := ends.pipe.readSpace
          if readSpace = 0 then
            if blocking then some (ends, .none)
            else some ({ ends with reader := .idle }, .returned (.error .EAGAIN))
          else some ({ ends with reader := .reading size 0 readSpace }, .none)
      | _ => none
  | .readIteration =>
      match ends.reader with
      | .reading size bytesRead readSpace =>
          some (readIteration ends.pipe size bytesRead readSpace ends)
      | _ => none
  | .readFails code =>
      match ends.reader with
      | .reading size bytesRead readSpace =>
          if readSpace ≠ 0 ∧ bytesRead < size then
            some ({ ends with reader := .idle }, .returned (.error code))
          else none
      | _ => none

/-- A pipe that nobody has used yet. -/
def start : Ends where
  pipe := new
  writer := .idle
  reader := .idle

/-- The bytes that the writer has put in. -/
def Event.wroteBytes : Event → List Byte
  | .wrote bytes => bytes
  | _ => []

/-- The bytes that the reader has taken out. -/
def Event.gotBytes : Event → List Byte
  | .got bytes => bytes
  | _ => []

/-! ## The ring -/

/-- The ring of a pipe, as a `ring_buffer`. -/
def ring (pipe : Pipe) : RingBuffer where
  buffer := pipe.data
  size := pipeDefaultSize
  readIdx := pipe.readIdx
  writeIdx := pipe.writeIdx

/-- The bytes that have not been read. -/
def unread (pipe : Pipe) : List Byte := pipe.ring.contents

section Ring

variable {pipe : Pipe} {n : ℕ}

theorem length_unread (pipe : Pipe) : pipe.unread.length = pipe.readSpace :=
  RingBuffer.length_contents _

theorem readSpace_lt (ok : pipe.ring.Ok) : pipe.readSpace ≤ pipeDefaultSize - 1 := by
  have h := ok.pending_add_free
  have hspace : pipe.ring.pendingBytes = pipe.readSpace := rfl
  have hsize : pipe.ring.size = pipeDefaultSize := rfl
  omega

theorem unread_write (ok : pipe.ring.Ok) (src : Memory Byte) (off : ℕ)
    (hn : n ≤ pipe.segmentWriteSpace) {moved : Pipe}
    (hmoved : moved = { pipe with
      data := copyRange pipe.data pipe.writeIdx src off n, writeIdx := advance pipe.writeIdx n }) :
    moved.ring.Ok ∧ moved.unread = pipe.unread ++ slice src off n := by
  have hring : moved.ring = pipe.ring.putPiece src off n := by rw [hmoved]; rfl
  rw [unread, hring]
  exact ⟨(ok.putPiece src off hn).1, ok.contents_putPiece src off hn⟩

theorem unread_junk (ok : pipe.ring.Ok) (left : Memory Byte) (hn : n ≤ pipe.segmentWriteSpace)
    {moved : Pipe}
    (hmoved : moved = { pipe with data := copyRange pipe.data pipe.writeIdx left 0 n }) :
    moved.ring.Ok ∧ moved.unread = pipe.unread := by
  have hold : ∀ i < pipe.readSpace, moved.ring.pending i = pipe.ring.pending i := by
    intro i hi
    rw [hmoved]
    exact ok.pending_putPiece_old hn hi
  have hspace : moved.ring.pendingBytes = pipe.ring.pendingBytes := by rw [hmoved]; rfl
  refine ⟨by rw [hmoved]; exact ⟨ok.readIdx_lt, ok.writeIdx_lt⟩, ?_⟩
  rw [unread, unread, RingBuffer.contents, RingBuffer.contents, hspace]
  exact slice_congr fun i hi => by
    rw [Nat.zero_add]
    exact hold i hi

theorem unread_read (ok : pipe.ring.Ok) (hn : n ≤ pipe.segmentReadSpace) {moved : Pipe}
    (hmoved : moved = { pipe with readIdx := advance pipe.readIdx n }) :
    moved.ring.Ok ∧ pipe.unread = slice pipe.data pipe.readIdx n ++ moved.unread := by
  have hring : moved.ring = pipe.ring.takePiece n := by rw [hmoved]; rfl
  rw [unread, unread, hring]
  exact ⟨(ok.takePiece hn).1, ok.contents_takePiece hn⟩

end Ring

/-! ## What an end does -/

/-- The cases of `step`. -/
inductive Stepped (ends : Ends) : Op → Ends × Event → Prop
  | write {bytes blocking} : Stepped ends (.write bytes blocking)
      ({ ends with writer := .writing bytes 0 }, .none)
  | writeIteration {bytes bytesWritten} (hwriter : ends.writer = .writing bytes bytesWritten) :
      Stepped ends .writeIteration (Pipe.writeIteration ends.pipe bytes bytesWritten ends)
  | writeFails {bytes bytesWritten left code} :
      Stepped ends (.writeFails left code)
        (Pipe.writeFails ends.pipe bytes bytesWritten left code ends)
  | read {size blocking} : Stepped ends (.read size blocking)
      ({ ends with reader := .waiting size blocking }, .none)
  | reads {size blocking} (hreader : ends.reader = .waiting size blocking) :
      Stepped ends .poll
        ({ ends with reader := .reading size 0 ends.pipe.readSpace }, .none)
  | readIteration {size bytesRead readSpace}
      (hreader : ends.reader = .reading size bytesRead readSpace) :
      Stepped ends .readIteration
        (Pipe.readIteration ends.pipe size bytesRead readSpace ends)
  | waits {op event} (hwrote : event.wroteBytes = []) (hgot : event.gotBytes = []) :
      Stepped ends op (ends, event)
  | ends {op code} : Stepped ends op ({ ends with reader := .idle }, .returned (.error code))

theorem step_cases {ends : Ends} {op : Op} {done : Ends × Event} (h : step ends op = some done) :
    Stepped ends op done := by
  cases op with
  | write bytes blocking =>
      rw [step] at h
      split at h
      · split_ifs at h with hfull
        · cases h
          exact .waits rfl rfl
        · cases h
          exact .write
      · cases h
  | writeIteration =>
      rw [step] at h
      split at h
      · cases h
      next hwriter =>
        cases h
        exact .writeIteration hwriter
  | writeFails left code =>
      rw [step] at h
      split at h
      · cases h
      · split_ifs at h with hmore
        cases h
        exact .writeFails
  | read size blocking =>
      rw [step] at h
      split at h
      · cases h
        exact .read
      · cases h
  | poll =>
      rw [step] at h
      split at h
      next hreader =>
        dsimp only at h
        split_ifs at h with hempty hblocking
        · cases h
          exact .waits rfl rfl
        · cases h
          exact .ends
        · cases h
          exact .reads hreader
      · cases h
  | readIteration =>
      rw [step] at h
      split at h
      next hreader =>
        cases h
        exact .readIteration hreader
      · cases h
  | readFails code =>
      rw [step] at h
      split at h
      · split_ifs at h with hmore
        cases h
        exact .ends
      · cases h

/-! ## Runs -/

/-- What has been put in so far has been taken out or is in the ring. -/
def Carried (outs : List Event) (ends : Ends) : Prop :=
  ends.pipe.ring.Ok ∧
    outs.flatMap Event.wroteBytes = outs.flatMap Event.gotBytes ++ ends.pipe.unread

section Runs

variable {ends : Ends} {outs : List Event} {event : Event} {moved : Ends}

theorem Carried.still (h : Carried outs ends) (hpipe : moved.pipe.ring.Ok)
    (hunread : moved.pipe.unread = ends.pipe.unread) (hwrote : event.wroteBytes = [])
    (hgot : event.gotBytes = []) : Carried (outs ++ [event]) moved := by
  refine ⟨hpipe, ?_⟩
  rw [List.flatMap_append, List.flatMap_append, List.flatMap_singleton, List.flatMap_singleton,
    hwrote, hgot, List.append_nil, List.append_nil, hunread]
  exact h.2

theorem Carried.write (h : Carried outs ends) (hpipe : moved.pipe.ring.Ok)
    (hunread : moved.pipe.unread = ends.pipe.unread ++ event.wroteBytes)
    (hgot : event.gotBytes = []) : Carried (outs ++ [event]) moved := by
  refine ⟨hpipe, ?_⟩
  rw [List.flatMap_append, List.flatMap_append, List.flatMap_singleton, List.flatMap_singleton,
    hgot, List.append_nil, hunread, h.2, List.append_assoc]

theorem Carried.read (h : Carried outs ends) (hpipe : moved.pipe.ring.Ok)
    (hunread : ends.pipe.unread = event.gotBytes ++ moved.pipe.unread)
    (hwrote : event.wroteBytes = []) : Carried (outs ++ [event]) moved := by
  refine ⟨hpipe, ?_⟩
  rw [List.flatMap_append, List.flatMap_append, List.flatMap_singleton, List.flatMap_singleton,
    hwrote, List.append_nil, h.2, hunread, List.append_assoc]

theorem Carried.writeIteration (h : Carried outs ends) (bytes : List Byte) (bytesWritten : ℕ) :
    Carried (outs ++ [(writeIteration ends.pipe bytes bytesWritten ends).2])
      (writeIteration ends.pipe bytes bytesWritten ends).1 := by
  unfold Pipe.writeIteration
  split_ifs with hmore
  · obtain ⟨hok, hunread⟩ := unread_write h.1 (fun i => bytes.getD i 0) bytesWritten
      (Nat.min_le_left _ (bytes.length - bytesWritten)) rfl
    exact h.write hok hunread rfl
  · exact h.still h.1 rfl rfl rfl

theorem Carried.writeFails (h : Carried outs ends) (bytes : List Byte) (bytesWritten : ℕ)
    (left : Memory Byte) (code : ErrorCode) :
    Carried (outs ++ [(writeFails ends.pipe bytes bytesWritten left code ends).2])
      (writeFails ends.pipe bytes bytesWritten left code ends).1 := by
  obtain ⟨hok, hunread⟩ := unread_junk h.1 left
    (Nat.min_le_left _ (bytes.length - bytesWritten)) rfl
  exact h.still hok hunread rfl rfl

theorem Carried.readIteration (h : Carried outs ends) (size bytesRead readSpace : ℕ) :
    Carried (outs ++ [(readIteration ends.pipe size bytesRead readSpace ends).2])
      (readIteration ends.pipe size bytesRead readSpace ends).1 := by
  unfold Pipe.readIteration
  split_ifs with hmore
  · obtain ⟨hok, hunread⟩ := unread_read h.1 (Nat.min_le_left _ (size - bytesRead)) rfl
    exact h.read hok hunread rfl
  · exact h.still h.1 rfl rfl rfl

/-- Whatever an end does keeps this. -/
theorem Carried.step (h : Carried outs ends) (op : Op) {done : Ends × Event}
    (hstep : step ends op = some done) : Carried (outs ++ [done.2]) done.1 := by
  cases step_cases hstep with
  | writeIteration => exact h.writeIteration _ _
  | writeFails => exact h.writeFails _ _ _ _
  | readIteration => exact h.readIteration _ _ _
  | waits hwrote hgot => exact h.still h.1 rfl hwrote hgot
  | write | read | reads | ends => exact h.still h.1 rfl rfl rfl

theorem start_carried : Carried [] start :=
  ⟨RingBuffer.new_ok (by decide), rfl⟩

end Runs

/-- **However the two loops take turns**, the reader has got a prefix of what the writer has
written, the rest of it is in the ring, which keeps a place free, and both indices are in it. -/
theorem run_carries {ops : List Op} {final : Ends × List Event}
    (hrun : runSteps step start ops = some final) :
    final.2.flatMap Event.wroteBytes =
        final.2.flatMap Event.gotBytes ++ final.1.pipe.unread ∧
      final.1.pipe.unread.length ≤ pipeDefaultSize - 1 ∧
      final.1.pipe.readIdx < pipeDefaultSize ∧ final.1.pipe.writeIdx < pipeDefaultSize := by
  have preserved : ∀ outs ends op moved, Carried outs ends → True → step ends op = some moved →
      Carried (outs ++ [moved.2]) moved.1 := fun _ _ op _ h _ hstep => h.step op hstep
  have hcarried := runSteps_history preserved start_carried (fun _ _ => trivial) hrun
  rw [List.nil_append] at hcarried
  refine ⟨hcarried.2, ?_, hcarried.1.readIdx_lt, hcarried.1.writeIdx_lt⟩
  rw [length_unread]
  exact readSpace_lt hcarried.1

/-- A blocking write that is cut in two by the reader, who is at the end of the ring by then. -/
theorem run_carries_wrapped :
    ∃ final, runSteps step start
        [.write (List.replicate 4090 7) true, .writeIteration, .read 4000 false, .poll,
          .readIteration, .writeIteration, .readIteration, .write [1, 2, 3, 4, 5, 6, 7, 8] true,
          .writeIteration, .read 90 true, .poll, .readIteration, .writeIteration,
          .readIteration] = some final ∧
      final.2.flatMap Event.wroteBytes =
        final.2.flatMap Event.gotBytes ++ final.1.pipe.unread ∧
      final.1.pipe.unread.length ≤ pipeDefaultSize - 1 ∧
      final.1.pipe.readIdx < pipeDefaultSize ∧ final.1.pipe.writeIdx < pipeDefaultSize := by
  have hcompletes : (runSteps step start
      [.write (List.replicate 4090 7) true, .writeIteration, .read 4000 false, .poll,
        .readIteration, .writeIteration, .readIteration, .write [1, 2, 3, 4, 5, 6, 7, 8] true,
        .writeIteration, .read 90 true, .poll, .readIteration, .writeIteration,
        .readIteration]).isSome = true := by
    decide +kernel
  obtain ⟨final, hrun⟩ := Option.isSome_iff_exists.mp hcompletes
  exact ⟨final, hrun, run_carries hrun⟩

/-! ## One call -/

/-- What a call of `write` has put in so far are the first bytes of its buffer; it goes on with the
next one, or is over. -/
def Writes (bytes : List Byte) (outs : List Event) (ends : Ends) : Prop :=
  ∃ n ≤ bytes.length, outs.flatMap Event.wroteBytes = bytes.take n ∧
    (ends.writer = .idle ∨ ends.writer = .writing bytes n)

/-- What a call of `read` has taken out so far it has counted, or it is over. -/
def Reads (size : ℕ) (outs : List Event) (ends : Ends) : Prop :=
  ∃ n ≤ size, (outs.flatMap Event.gotBytes).length = n ∧
    (ends.reader = .idle ∨ (∃ readSpace, ends.reader = .reading size n readSpace) ∨
      n = 0 ∧ ∃ blocking, ends.reader = .waiting size blocking)

section Calls

variable {bytes : List Byte} {size : ℕ} {outs : List Event} {ends moved : Ends} {event : Event}

theorem Writes.still (h : Writes bytes outs ends)
    (hwriter : moved.writer = .idle ∨ moved.writer = ends.writer)
    (hwrote : event.wroteBytes = []) : Writes bytes (outs ++ [event]) moved := by
  obtain ⟨n, hn, houts, hends⟩ := h
  refine ⟨n, hn, ?_, hwriter.elim Or.inl fun hsame => hsame ▸ hends⟩
  rw [List.flatMap_append, List.flatMap_singleton, hwrote, List.append_nil, houts]

theorem Reads.still (h : Reads size outs ends)
    (hreader : moved.reader = .idle ∨ moved.reader = ends.reader)
    (hgot : event.gotBytes = []) : Reads size (outs ++ [event]) moved := by
  obtain ⟨n, hn, houts, hends⟩ := h
  refine ⟨n, hn, ?_, hreader.elim Or.inl fun hsame => hsame ▸ hends⟩
  rw [List.flatMap_append, List.flatMap_singleton, hgot, List.append_nil, houts]

theorem Writes.writeIteration (h : Writes bytes outs ends) {other : List Byte} {n : ℕ}
    (hwriter : ends.writer = .writing other n) :
    Writes bytes (outs ++ [(Pipe.writeIteration ends.pipe other n ends).2])
      (Pipe.writeIteration ends.pipe other n ends).1 := by
  obtain ⟨k, hk, houts, hidle | hends⟩ := h
  · cases hidle.symm.trans hwriter
  cases hends.symm.trans hwriter
  unfold Pipe.writeIteration
  split_ifs with hmore
  · refine ⟨_, by omega, ?_, Or.inr rfl⟩
    rw [List.flatMap_append, List.flatMap_singleton, houts, ← slice_getD bytes 0 hk,
      ← slice_getD bytes 0 (by omega), slice_add, Nat.zero_add]
    rfl
  · exact Writes.still ⟨n, hk, houts, Or.inr hends⟩ (Or.inl rfl) rfl

theorem Reads.readIteration (h : Reads size outs ends) {other n readSpace : ℕ}
    (hreader : ends.reader = .reading other n readSpace) :
    Reads size (outs ++ [(Pipe.readIteration ends.pipe other n readSpace ends).2])
      (Pipe.readIteration ends.pipe other n readSpace ends).1 := by
  obtain ⟨k, hk, houts, hidle | ⟨readSpace', hends⟩ | ⟨-, blocking, hends⟩⟩ := h
  · cases hidle.symm.trans hreader
  · cases hends.symm.trans hreader
    unfold Pipe.readIteration
    split_ifs with hmore
    · refine ⟨_, by omega, ?_, Or.inr (Or.inl ⟨_, rfl⟩)⟩
      rw [List.flatMap_append, List.flatMap_singleton, List.length_append, houts]
      exact congrArg (n + ·) (length_slice _ _ _)
    · exact Reads.still ⟨n, hk, houts, Or.inr (Or.inl ⟨_, hends⟩)⟩ (Or.inl rfl) rfl
  · cases hends.symm.trans hreader

/-- Whatever an end does short of another `write` keeps this. -/
theorem Writes.step (h : Writes bytes outs ends) {op : Op} {done : Ends × Event}
    (hop : ∀ other blocking, op ≠ .write other blocking) (hstep : step ends op = some done) :
    Writes bytes (outs ++ [done.2]) done.1 := by
  cases step_cases hstep with
  | write => exact absurd rfl (hop _ _)
  | writeIteration hwriter => exact h.writeIteration hwriter
  | writeFails => exact h.still (Or.inl rfl) rfl
  | waits hwrote => exact h.still (Or.inr rfl) hwrote
  | readIteration =>
      unfold Pipe.readIteration
      split_ifs <;> exact h.still (Or.inr rfl) rfl
  | read | reads | ends => exact h.still (Or.inr rfl) rfl

/-- Whatever an end does short of another `read` keeps this. -/
theorem Reads.step (h : Reads size outs ends) {op : Op} {done : Ends × Event}
    (hop : ∀ other blocking, op ≠ .read other blocking) (hstep : step ends op = some done) :
    Reads size (outs ++ [done.2]) done.1 := by
  cases step_cases hstep with
  | read => exact absurd rfl (hop _ _)
  | readIteration hreader => exact h.readIteration hreader
  | ends => exact h.still (Or.inl rfl) rfl
  | waits _ hgot => exact h.still (Or.inr rfl) hgot
  | writeIteration =>
      unfold Pipe.writeIteration
      split_ifs <;> exact h.still (Or.inr rfl) rfl
  | reads hreader =>
      obtain ⟨n, hn, houts, hidle | ⟨readSpace, hends⟩ | ⟨rfl, blocking, hends⟩⟩ := h
      · cases hidle.symm.trans hreader
      · cases hends.symm.trans hreader
      · cases hends.symm.trans hreader
        refine ⟨0, hn, ?_, Or.inr (Or.inl ⟨_, rfl⟩)⟩
        rw [List.flatMap_append, List.flatMap_singleton]
        exact (congrArg List.length (List.append_nil _)).trans houts
  | write | writeFails => exact h.still (Or.inr rfl) rfl

variable {ops : List Op} {final : Ends × List Event}

/-- **What one call of `write` puts in**, whatever the reader does meanwhile, are consecutive
parts of its bytes from the first on, and where it returns a count these are all of them. -/
theorem write_consecutive (hcall : ends.writer = .writing bytes 0)
    (hops : ∀ op ∈ ops, ∀ other blocking, op ≠ .write other blocking)
    (hrun : runSteps step ends ops = some final) :
    ∃ n ≤ bytes.length, final.2.flatMap Event.wroteBytes = bytes.take n ∧
      ∀ moved count, step final.1 .writeIteration = some (moved, .returned (.ok count)) →
        count = n ∧ n = bytes.length := by
  have preserved : ∀ outs ends op moved, Writes bytes outs ends →
      (∀ other blocking, op ≠ .write other blocking) → step ends op = some moved →
      Writes bytes (outs ++ [moved.2]) moved.1 := fun _ _ _ _ h hop hstep => h.step hop hstep
  obtain ⟨n, hn, houts, hends⟩ := runSteps_history preserved
    (⟨0, Nat.zero_le _, rfl, Or.inr hcall⟩ : Writes bytes [] ends) hops hrun
  refine ⟨n, hn, houts, fun moved count hreturn => ?_⟩
  rcases hends with hidle | hwriter
  · rw [step, hidle] at hreturn
    cases hreturn
  · simp only [step, hwriter, writeIteration] at hreturn
    split_ifs at hreturn with hmore
    · cases hreturn
    · cases hreturn
      exact ⟨rfl, by omega⟩

/-- **What one call of `read` takes out** is no more than it was asked for, and the count that it
returns is the length of all its pieces together. -/
theorem read_counted {blocking : Bool} (hcall : ends.reader = .waiting size blocking)
    (hops : ∀ op ∈ ops, ∀ other blocking, op ≠ .read other blocking)
    (hrun : runSteps step ends ops = some final) :
    (final.2.flatMap Event.gotBytes).length ≤ size ∧
      ∀ moved count, step final.1 .readIteration = some (moved, .returned (.ok count)) →
        count = (final.2.flatMap Event.gotBytes).length := by
  have preserved : ∀ outs ends op moved, Reads size outs ends →
      (∀ other blocking, op ≠ .read other blocking) → step ends op = some moved →
      Reads size (outs ++ [moved.2]) moved.1 := fun _ _ _ _ h hop hstep => h.step hop hstep
  obtain ⟨n, hn, rfl, hends⟩ := runSteps_history preserved
    (⟨0, Nat.zero_le _, rfl, Or.inr (Or.inr ⟨rfl, blocking, hcall⟩)⟩ : Reads size [] ends) hops hrun
  refine ⟨hn, fun moved count hreturn => ?_⟩
  rcases hends with hidle | ⟨readSpace, hreader⟩ | ⟨-, blocking, hreader⟩
  · rw [step, hidle] at hreturn
    cases hreturn
  · simp only [step, hreader, readIteration] at hreturn
    split_ifs at hreturn with hmore
    · cases hreturn
    · cases hreturn
      rfl
  · rw [step, hreader] at hreturn
    cases hreturn

end Calls

end Pipe

end BekOS
