import BekOS.Libcore.BufferedFileWrites

/-!
# A `BufferedFile` as a file

To its program the file is the one under the handle, with what is pending written to it and the
offset taken back by what has been read ahead (`view`).  Reading and writing act on that file as
the system calls would, one after the other, but for three cases: `write` does not give back what
has been read ahead; a large `read` does not write what is pending; and `seek` drops what has been
read ahead without going back.
-/

namespace BekOS

open PartialRun

namespace OpenFile

variable {file : OpenFile} {m n : ℕ}

@[simp] theorem fetch_zero (file : OpenFile) : file.fetch 0 = [] := window_zero _ _

theorem length_fetch (file : OpenFile) (len : ℕ) :
    (file.fetch len).length = min len (file.content.length - file.offset) := length_window _ _ _

theorem fetch_length (file : OpenFile) (len : ℕ) :
    file.fetch (file.fetch len).length = file.fetch len := by
  rw [length_fetch]
  refine List.take_eq_take_iff.mpr ?_
  rw [List.length_drop]
  omega

theorem fetch_add (file : OpenFile) (m n : ℕ) :
    file.fetch (m + n) = file.fetch m ++ (file.skip m).fetch n := window_add _ _ _ _

theorem skip_skip (file : OpenFile) (m n : ℕ) : (file.skip m).skip n = file.skip (m + n) := by
  unfold skip
  rw [Nat.add_assoc]

theorem fetch_of_end (h : file.content.length ≤ file.offset) (len : ℕ) : file.fetch len = [] :=
  List.length_eq_zero_iff.mp (by rw [length_fetch]; omega)

theorem deliver_offset_le (h : file.offset ≤ file.content.length) (bytes : List Byte) :
    (file.deliver bytes).offset ≤ (file.deliver bytes).content.length := by
  show file.offset + bytes.length ≤ (overlay file.content file.offset bytes).length
  rw [length_overlay _ _ _ h]
  exact Nat.le_max_right _ _

end OpenFile

namespace BufferedFile

variable {limit : ℕ → ℕ} {file file' : BufferedFile} {bytes done : List Byte}
  {n fuel len left : ℕ}

/-! ## The file that the program sees -/

/-- The file as the program sees it. -/
def view (file : BufferedFile) : OpenFile :=
  { file.landed with offset := file.landed.offset - file.unread.length }

/-- What has been read ahead is what the file has before the offset of its handle, and nothing is
pending with it. -/
structure Coherent (file : BufferedFile) : Prop where
  ok : file.Ok
  offset_le : file.kernel.file.offset ≤ file.kernel.file.content.length
  apart : file.unread = [] ∨ file.pending = []
  unread_le : file.unread.length ≤ file.kernel.file.offset
  unread_eq : file.unread = window file.kernel.file.content
    (file.kernel.file.offset - file.unread.length) file.unread.length

theorem view_of_unread (h : file.unread = []) : file.view = file.landed := by
  rw [view, h]
  rfl

theorem view_of_pending (h : file.pending = []) :
    file.view =
      { file.kernel.file with offset := file.kernel.file.offset - file.unread.length } := by
  rw [view, landed_of_pending h]

/-- With nothing left to read, the buffer is no trouble. -/
theorem coherent_of_unread (ok : file.Ok)
    (hoffset : file.kernel.file.offset ≤ file.kernel.file.content.length)
    (h : file.unread = []) : file.Coherent where
  ok := ok
  offset_le := hoffset
  apart := Or.inl h
  unread_le := by
    rw [h]
    exact Nat.zero_le _
  unread_eq := by
    rw [h, List.length_nil, window_zero]

theorem unread_eq_nil_iff (ok : file.Ok) : file.unread = [] ↔ file.readPos = file.readEnd := by
  have hlen := ok.length_unread
  have hle := ok.readPos_le
  rw [← List.length_eq_zero_iff, hlen]
  omega

/-! ## Reading -/

/-- From one state to another, bytes of the file have been read. -/
structure Gave (file : BufferedFile) (bytes : List Byte) (file' : BufferedFile) : Prop where
  coherent : file'.Coherent
  bytes_eq : bytes = file.view.fetch bytes.length
  view : file'.view = file.view.skip bytes.length
  openFlags : file'.openFlags = file.openFlags

/-- `serve` gives what is asked for, as far as there is some. -/
theorem Ok.length_served (ok : file.Ok) (len : ℕ) :
    (file.serve len).2.length = min len file.unread.length := by
  rw [ok.length_unread]
  exact length_window_of_le (by
    have := ok.readEnd_le
    have := ok.readPos_le
    omega)

theorem Ok.served (ok : file.Ok) (len : ℕ) :
    (file.serve len).2 = file.unread.take (min len file.unread.length) := by
  rw [ok.length_unread]
  exact (take_window _ _ (Nat.min_le_right _ _)).symm

theorem Ok.unread_serve (ok : file.Ok) (len : ℕ) :
    (file.serve len).1.unread = file.unread.drop (min len file.unread.length) := by
  rw [ok.length_unread, unread, unread, drop_window, Nat.sub_sub]
  rfl

theorem Ok.serve (ok : file.Ok) (len : ℕ) : (file.serve len).1.Ok := by
  obtain ⟨hbase, hpos, hend, hread, hreadEnd, hapart, hfresh⟩ := ok
  refine ⟨hbase, hpos, hend, ?_, hreadEnd, ?_, ?_⟩
  · show file.readPos + min len (file.readEnd - file.readPos) ≤ file.readEnd
    omega
  · show file.readPos + min len (file.readEnd - file.readPos) < file.readEnd →
      file.writeEnd ≤ file.readPos + min len (file.readEnd - file.readPos)
    omega
  · show file.readPos + min len (file.readEnd - file.readPos) = 0 → file.readEnd = 0
    omega

/-- **Reading from the buffer** gives the next bytes of the file. -/
theorem Coherent.serve (coherent : file.Coherent) (len : ℕ) :
    Gave file (file.serve len).2 (file.serve len).1 := by
  obtain ⟨ok, hoffset, hapart, hle, heq⟩ := coherent
  obtain ⟨n, hn⟩ : ∃ n, n = min len file.unread.length := ⟨_, rfl⟩
  have hserved := ok.served len
  have hlen := ok.length_served len
  have hunread := ok.unread_serve len
  rw [← hn] at hserved hlen hunread
  have hleft : (file.serve len).1.unread.length = file.unread.length - n := by
    rw [hunread, List.length_drop]
  refine ⟨⟨ok.serve len, hoffset, ?_, ?_, ?_⟩, ?_, ?_, rfl⟩
  · refine hapart.imp_left fun h => ?_
    rw [hunread, h, List.drop_nil]
  · rw [hleft]
    exact Nat.le_trans (Nat.sub_le _ _) hle
  · rw [hleft, hunread]
    conv_lhs => rw [heq]
    rw [drop_window]
    show window _ (file.kernel.file.offset - file.unread.length + n) _ =
      window _ (file.kernel.file.offset - (file.unread.length - n)) _
    congr 1
    omega
  · rw [hlen, hserved]
    rcases hapart with h | h
    · have hzero : n = 0 := by rw [hn, h, List.length_nil, Nat.min_zero]
      rw [hzero, List.take_zero, OpenFile.fetch_zero]
    · rw [view_of_pending h]
      conv_lhs => rw [heq]
      exact take_window _ _ (by omega)
  · have hlanded : file.kernel.file.offset ≤ file.landed.offset := Nat.le_add_right _ _
    have hoff : file.landed.offset - (file.serve len).1.unread.length =
        file.landed.offset - file.unread.length + n := by omega
    rw [hlen]
    show { file.landed with offset := file.landed.offset - (file.serve len).1.unread.length } = _
    rw [hoff]
    rfl

/-- The buffer filled with what the kernel has given, and the first `n` bytes of it taken. -/
def refilled (file : BufferedFile) (got : List Byte) (n transfers : ℕ) : BufferedFile :=
  { file with
    buffer := overlay file.buffer 0 got
    readPos := n
    readEnd := got.length
    kernel := ⟨file.kernel.file.skip got.length, transfers⟩ }

/-- No place of the buffer is there to be written in. -/
structure Drained (file : BufferedFile) : Prop where
  ok : file.Ok
  offset_le : file.kernel.file.offset ≤ file.kernel.file.content.length
  unread : file.unread = []
  writeEnd_eq : file.writeEnd = 0

theorem Drained.pending_eq (drained : file.Drained) : file.pending = [] := by
  have hpos := drained.ok.pos_le
  rw [drained.writeEnd_eq] at hpos
  rw [pending, Nat.eq_zero_of_le_zero hpos, Nat.zero_sub, window_zero]

/-- With the buffer drained, the program sees the kernel's file. -/
theorem Drained.view_eq (drained : file.Drained) : file.view = file.kernel.file := by
  rw [view_of_unread drained.unread, landed_of_pending drained.pending_eq]

theorem length_refilled {got : List Byte}
    (hgot : got.length ≤ file.buffer.length) (n t : ℕ) :
    (file.refilled got n t).buffer.length = file.buffer.length :=
  length_overlay_of_le (by omega)

theorem unread_refilled (got : List Byte) (n t : ℕ) :
    (file.refilled got n t).unread = got.drop n := by
  have hself : window (overlay file.buffer 0 got) 0 got.length = got :=
    window_overlay_self (Nat.zero_le _)
  conv_rhs => rw [← hself, drop_window, Nat.zero_add]
  rfl

theorem Drained.refilled_ok (drained : file.Drained) {got : List Byte}
    (hgot : got.length ≤ file.buffer.length) (hn : 0 < n) (hle : n ≤ got.length) (t : ℕ) :
    (file.refilled got n t).Ok := by
  obtain ⟨⟨hbase, hpos, hend, hread, hreadEnd, hapart, hfresh⟩, -, -, hwrite⟩ := drained
  have hlen : (file.refilled got n t).buffer.length = file.buffer.length :=
    length_overlay_of_le (by omega)
  refine ⟨hbase, hpos, hlen ▸ hend, hle, hlen ▸ hgot, fun _ => ?_, fun h => ?_⟩
  · show file.writeEnd ≤ n
    omega
  · exact absurd h (Nat.pos_iff_ne_zero.mp hn)

/-- **Filling the buffer** and reading from it gives the next bytes of the file. -/
theorem Drained.refilled (drained : file.Drained) {got : List Byte}
    (hgot : got.length ≤ file.buffer.length)
    (heq : got = file.kernel.file.fetch got.length) (hn : 0 < n) (hle : n ≤ got.length) (t : ℕ) :
    Gave file (got.take n) (file.refilled got n t) := by
  have hlen : (got.take n).length = n := List.length_take_of_le hle
  have hunread := @unread_refilled file got n t
  have hleft : (file.refilled got n t).unread.length = got.length - n := by
    rw [hunread, List.length_drop]
  have hpending : (file.refilled got n t).pending = [] := by
    have hpos := drained.ok.pos_le
    rw [drained.writeEnd_eq] at hpos
    show window _ file.writeBase (file.writePos - file.writeBase) = []
    rw [Nat.eq_zero_of_le_zero hpos, Nat.zero_sub, window_zero]
  have hfetched : got.length ≤ file.kernel.file.content.length - file.kernel.file.offset := by
    have h := congrArg List.length heq
    rw [OpenFile.length_fetch] at h
    omega
  have hoffset := drained.offset_le
  refine ⟨⟨drained.refilled_ok hgot hn hle t, ?_, Or.inr hpending, ?_, ?_⟩, ?_, ?_, rfl⟩
  · show file.kernel.file.offset + got.length ≤ file.kernel.file.content.length
    omega
  · rw [hleft]
    show got.length - n ≤ file.kernel.file.offset + got.length
    omega
  · rw [hleft, hunread]
    conv_lhs => rw [heq, OpenFile.fetch, drop_window]
    show window _ _ _ = window file.kernel.file.content
      (file.kernel.file.offset + got.length - (got.length - n)) _
    congr 1
    omega
  · rw [hlen, drained.view_eq]
    conv_lhs => rw [heq, OpenFile.fetch, take_window _ _ hle]
    rfl
  · rw [hlen, drained.view_eq, view_of_pending hpending, hleft]
    show ({ file.kernel.file with
      offset := file.kernel.file.offset + got.length - (got.length - n) } : OpenFile) = _
    rw [show file.kernel.file.offset + got.length - (got.length - n) =
      file.kernel.file.offset + n by omega]
    rfl

/-- What two parts of a read give is one piece of the file. -/
theorem Gave.trans {a b : List Byte} {file'' : BufferedFile} (first : Gave file a file')
    (second : Gave file' b file'') : Gave file (a ++ b) file'' where
  coherent := second.coherent
  bytes_eq := by
    rw [List.length_append, OpenFile.fetch_add, ← first.bytes_eq, ← first.view,
      ← second.bytes_eq]
  view := by rw [second.view, first.view, OpenFile.skip_skip, List.length_append]
  openFlags := second.openFlags.trans first.openFlags

/-- A read that goes on where another one ended. -/
theorem Gave.fetch_rest (gave : Gave file bytes file') (h : bytes.length ≤ len) :
    bytes ++ file'.view.fetch (len - bytes.length) = file.view.fetch len := by
  calc bytes ++ file'.view.fetch (len - bytes.length)
      = file.view.fetch bytes.length ++
          (file.view.skip bytes.length).fetch (len - bytes.length) := by
        rw [← gave.bytes_eq, gave.view]
    _ = file.view.fetch len := by rw [← OpenFile.fetch_add, Nat.add_sub_cancel' h]

/-- How many system calls there have been does not matter. -/
theorem Coherent.transfers (coherent : file.Coherent) (t : ℕ) :
    Gave file [] { file with kernel := ⟨file.kernel.file, t⟩ } := by
  obtain ⟨⟨hbase, hpos, hend, hread, hreadEnd, hapart, hfresh⟩, hoffset, hnone, hle, heq⟩ := coherent
  exact ⟨⟨⟨hbase, hpos, hend, hread, hreadEnd, hapart, hfresh⟩, hoffset, hnone, hle, heq⟩,
    (OpenFile.fetch_zero _).symm, rfl, rfl⟩

/-- A system call that reads nothing is at the end of the file. -/
theorem read_nothing (hlimit : ∀ k, 0 < limit k) {kernel : Kernel} (hlen : 0 < len)
    (h : (kernel.read limit len).2.length = 0) :
    kernel.file.content.length ≤ kernel.file.offset := by
  have hfetch : (kernel.file.fetch (min len (limit kernel.transfers))).length = 0 := h
  have := hlimit kernel.transfers
  rw [OpenFile.length_fetch] at hfetch
  omega

theorem length_read_le (kernel : Kernel) (len : ℕ) :
    (kernel.read limit len).2.length ≤ len := by
  show (kernel.file.fetch _).length ≤ len
  rw [OpenFile.length_fetch]
  omega

theorem read_eq_fetch (kernel : Kernel) (len : ℕ) :
    (kernel.read limit len).2 = kernel.file.fetch (kernel.read limit len).2.length := by
  show kernel.file.fetch _ = kernel.file.fetch (kernel.file.fetch _).length
  rw [OpenFile.fetch_length]

theorem serve_read (file : BufferedFile) (len left : ℕ) :
    BufferedFile.serve
      { file with
        buffer := overlay file.buffer 0 (file.kernel.read limit len).2
        readPos := 0
        readEnd := (file.kernel.read limit len).2.length
        kernel := (file.kernel.read limit len).1 } left =
      (file.refilled (file.kernel.read limit len).2
          (min left (file.kernel.read limit len).2.length) (file.kernel.transfers + 1),
        (file.kernel.read limit len).2.take
          (min left (file.kernel.read limit len).2.length)) := by
  obtain ⟨got, hgot⟩ : ∃ got, got = (file.kernel.read limit len).2 := ⟨_, rfl⟩
  have hkernel : (file.kernel.read limit len).1 =
      ⟨file.kernel.file.skip got.length, file.kernel.transfers + 1⟩ := by
    rw [hgot]
    rfl
  have hself : window (overlay file.buffer 0 got) 0 got.length = got :=
    window_overlay_self (Nat.zero_le _)
  have htake : window (overlay file.buffer 0 got) 0 (min left got.length) =
      got.take (min left got.length) := by
    rw [← take_window _ _ (Nat.min_le_right _ _), hself]
  rw [hkernel, ← hgot]
  unfold BufferedFile.serve BufferedFile.refilled
  dsimp only
  rw [Nat.sub_zero, Nat.zero_add]
  rw [htake]

/-- The loop of `read` that fills the buffer gives all that is asked for, up to the end. -/
theorem fillRounds_gave (hlimit : ∀ k, 0 < limit k) (coherent : file.Coherent)
    (hdrained : left ≠ 0 → file.Drained ∧ 0 < file.buffer.length) (hfuel : left < fuel) :
    ∃ file', fillRounds limit fuel file left done =
        .ok (file', .ok (done ++ file.view.fetch left)) ∧
      Gave file (file.view.fetch left) file' := by
  induction fuel generalizing file left done with
  | zero => exact absurd hfuel (Nat.not_lt_zero _)
  | succ fuel ih =>
      rw [fillRounds]
      by_cases hleft : left ≠ 0
      · rw [if_pos hleft]
        obtain ⟨drained, hsize⟩ := hdrained hleft
        dsimp only
        by_cases hend : (file.kernel.read limit file.buffer.length).2.length = 0
        · have hnone := OpenFile.fetch_of_end (read_nothing hlimit hsize hend) left
          have hview := drained.view_eq
          have hgot : (file.kernel.read limit file.buffer.length).1 =
              ⟨file.kernel.file, file.kernel.transfers + 1⟩ := by
            show (⟨file.kernel.file.skip (file.kernel.read limit file.buffer.length).2.length,
              _⟩ : Kernel) = _
            rw [hend]
            rfl
          rw [if_pos hend, hgot, hview, hnone, List.append_nil]
          exact ⟨_, rfl, coherent.transfers _⟩
        · rw [if_neg hend, serve_read]
          obtain ⟨got, hgot⟩ : ∃ got, got = (file.kernel.read limit file.buffer.length).2 :=
            ⟨_, rfl⟩
          rw [← hgot] at hend ⊢
          have hgotLe : got.length ≤ file.buffer.length := hgot ▸ length_read_le _ _
          have hgotEq : got = file.kernel.file.fetch got.length := hgot ▸ read_eq_fetch _ _
          have hgave := drained.refilled hgotLe hgotEq (n := min left got.length) (by omega)
            (Nat.min_le_right _ _) (file.kernel.transfers + 1)
          have hlen : (got.take (min left got.length)).length = min left got.length :=
            List.length_take_of_le (Nat.min_le_right _ _)
          have hmore : left - min left got.length ≠ 0 →
              (file.refilled got (min left got.length) (file.kernel.transfers + 1)).Drained ∧
                0 < (file.refilled got (min left got.length)
                  (file.kernel.transfers + 1)).buffer.length := by
            intro hmore
            refine ⟨⟨hgave.coherent.ok, hgave.coherent.offset_le, ?_, drained.writeEnd_eq⟩, ?_⟩
            · rw [unread_refilled]
              exact List.drop_of_length_le (by omega)
            · rwa [length_refilled hgotLe]
          obtain ⟨file', hrun, hrest⟩ := @ih _ (done ++ got.take (min left got.length)) _
            hgave.coherent hmore (by omega)
          have hgotten : (got.take (min left got.length)).length ≤ left := by omega
          have hbytes := hgave.fetch_rest hgotten
          rw [hlen] at hbytes
          refine ⟨file', ?_, ?_⟩
          · rw [hlen, hrun, List.append_assoc, hbytes]
          · rw [← hbytes]
            exact hgave.trans hrest
      · rw [if_neg hleft, Decidable.not_not.mp hleft, OpenFile.fetch_zero, List.append_nil]
        exact ⟨file, rfl, coherent.transfers file.kernel.transfers⟩

/-- Nothing has been read ahead, and either nothing is pending or the kernel has nothing to give. -/
structure Direct (file : BufferedFile) : Prop where
  coherent : file.Coherent
  unread : file.unread = []
  pending : file.pending = [] ∨ file.kernel.file.content.length ≤ file.kernel.file.offset

theorem Direct.fetch_eq (direct : file.Direct) (len : ℕ) :
    file.kernel.file.fetch len = file.view.fetch len := by
  rw [view_of_unread direct.unread]
  rcases direct.pending with h | h
  · rw [landed_of_pending h]
  · rw [OpenFile.fetch_of_end h]
    refine (OpenFile.fetch_of_end ?_ len).symm
    show (overlay file.kernel.file.content file.kernel.file.offset file.pending).length ≤
      file.kernel.file.offset + file.pending.length
    rw [length_overlay _ _ _ direct.coherent.offset_le]
    omega

/-- **Reading past the buffer** gives the next bytes of the file. -/
theorem Direct.gave (direct : file.Direct) {got : List Byte}
    (heq : got = file.kernel.file.fetch got.length) (t : ℕ) :
    Gave file got { file with kernel := ⟨file.kernel.file.skip got.length, t⟩ } ∧
      Direct { file with kernel := ⟨file.kernel.file.skip got.length, t⟩ } := by
  obtain ⟨file', hfile'⟩ : ∃ file' : BufferedFile,
      file' = { file with kernel := ⟨file.kernel.file.skip got.length, t⟩ } := ⟨_, rfl⟩
  obtain ⟨coherent, hunread, hpending⟩ := direct
  rw [← hfile']
  rcases hpending with h | h
  · have hunread' : file'.unread = [] := by rw [hfile']; exact hunread
    have hpending' : file'.pending = [] := by rw [hfile']; exact h
    have hoffset' : file'.kernel.file.offset ≤ file'.kernel.file.content.length := by
      have hlen := congrArg List.length heq
      have hle := coherent.offset_le
      rw [OpenFile.length_fetch] at hlen
      rw [hfile']
      show file.kernel.file.offset + got.length ≤ file.kernel.file.content.length
      omega
    have ok := coherent.ok
    have ok' : file'.Ok := by
      rw [hfile']
      exact ⟨ok.base_le, ok.pos_le, ok.end_le, ok.readPos_le, ok.readEnd_le, ok.apart, ok.fresh⟩
    have coherent' := coherent_of_unread ok' hoffset' hunread'
    refine ⟨⟨coherent', ?_, ?_, by rw [hfile']⟩, coherent', hunread', Or.inl hpending'⟩
    · rwa [view_of_unread hunread, landed_of_pending h]
    · rw [view_of_unread hunread', landed_of_pending hpending', view_of_unread hunread,
        landed_of_pending h, hfile']
  · have hnil : got = [] := by rw [heq, OpenFile.fetch_of_end h]
    have hgave := coherent.transfers t
    rw [hfile', hnil]
    exact ⟨hgave, hgave.coherent, hunread, Or.inr h⟩

/-- The loop of `read` that goes past the buffer gives all that is asked for, up to the end. -/
theorem largeRounds_gave (hlimit : ∀ k, 0 < limit k) (direct : file.Direct)
    (hfuel : left < fuel) :
    ∃ file', largeRounds limit fuel file left done =
        .ok (file', .ok (done ++ file.view.fetch left)) ∧
      Gave file (file.view.fetch left) file' := by
  induction fuel generalizing file left done with
  | zero => exact absurd hfuel (Nat.not_lt_zero _)
  | succ fuel ih =>
      rw [largeRounds]
      by_cases hleft : left ≠ 0
      · rw [if_pos hleft]
        obtain ⟨got, hgot⟩ : ∃ got, got = (file.kernel.read limit left).2 := ⟨_, rfl⟩
        have hkernel : (file.kernel.read limit left).1 =
            ⟨file.kernel.file.skip got.length, file.kernel.transfers + 1⟩ := by
          rw [hgot]
          rfl
        have hgotLe : got.length ≤ left := hgot ▸ length_read_le _ _
        have hgotEq : got = file.kernel.file.fetch got.length := hgot ▸ read_eq_fetch _ _
        obtain ⟨hgave, hdirect⟩ := direct.gave hgotEq (file.kernel.transfers + 1)
        dsimp only
        rw [hkernel, ← hgot]
        by_cases hend : got.length = 0
        · have hnone := OpenFile.fetch_of_end
            (read_nothing hlimit (Nat.pos_of_ne_zero hleft) (hgot ▸ hend)) left
          have hnil := List.length_eq_zero_iff.mp hend
          rw [if_pos hend, ← direct.fetch_eq, hnone, List.append_nil]
          exact ⟨_, rfl, hnil ▸ hgave⟩
        · rw [if_neg hend]
          obtain ⟨file', hrun, hrest⟩ := @ih _ (done ++ got) _ hdirect
            (show left - got.length < fuel by omega)
          have hbytes := hgave.fetch_rest hgotLe
          refine ⟨file', ?_, ?_⟩
          · rw [hrun, List.append_assoc, hbytes]
          · rw [← hbytes]
            exact hgave.trans hrest
      · rw [if_neg hleft, Decidable.not_not.mp hleft, OpenFile.fetch_zero, List.append_nil]
        exact ⟨file, rfl, direct.coherent.transfers file.kernel.transfers⟩

/-! ## The calls -/

/-- The loop that writes ends with everything written. -/
theorem flushWrites_eq (hlimit : ∀ k, 0 < limit k) (ok : file.Ok) (preparing : Bool) :
    ∃ t, file.flushWrites limit preparing = .ok (file.flushed preparing t, .ok 0) := by
  rcases flushWrites_cases limit ok preparing with h | ⟨-, -, -, -, k, hk⟩
  · exact h
  · exact absurd hk (Nat.pos_iff_ne_zero.mp (hlimit k))

theorem landed_offset_le (coherent : file.Coherent) :
    file.landed.offset ≤ file.landed.content.length :=
  OpenFile.deliver_offset_le coherent.offset_le _

/-- **Writing the pending bytes** changes nothing that the program sees. -/
theorem Coherent.flushed (coherent : file.Coherent) (preparing : Bool) (t : ℕ) :
    Gave file [] (file.flushed preparing t) := by
  have htook := coherent.ok.took_flushed preparing t
  have hpending := pending_flushed file preparing t
  have hkernel := flushed_kernel file preparing t
  have hview : (file.flushed preparing t).view = file.view := by
    rw [view, view, htook.landed, htook.unread, OpenFile.deliver_nil]
  have hoffset : (file.flushed preparing t).kernel.file.offset ≤
      (file.flushed preparing t).kernel.file.content.length := by
    rw [hkernel]
    exact landed_offset_le coherent
  refine ⟨?_, (OpenFile.fetch_zero _).symm, hview, htook.openFlags⟩
  rcases coherent.apart with h | h
  · exact coherent_of_unread htook.ok hoffset (htook.unread.trans h)
  · refine ⟨htook.ok, hoffset, Or.inr hpending, ?_, ?_⟩
    · rw [htook.unread, hkernel, landed_of_pending h]
      exact coherent.unread_le
    · rw [htook.unread, hkernel, landed_of_pending h]
      exact coherent.unread_eq

/-- `flush` leaves nothing pending. -/
theorem flush_view (hlimit : ∀ k, 0 < limit k) (coherent : file.Coherent) :
    ∃ file', file.flush limit = .ok (file', .ok 0) ∧ Gave file [] file' ∧ file'.pending = [] := by
  obtain ⟨t, hrun⟩ := flushWrites_eq hlimit coherent.ok false
  exact ⟨_, by rw [flush, hrun]; rfl, coherent.flushed false t, pending_flushed file false t⟩

/-- A read that goes past the buffer finds nothing pending, or nothing to read. -/
def ReadsThrough (file : BufferedFile) (len : ℕ) : Prop :=
  len < file.buffer.length ∨ file.writeBase = file.writePos ∨
    file.kernel.file.offset = file.kernel.file.content.length

/-- **`read`** gives the next bytes of the file that the program sees. -/
theorem read_view (hlimit : ∀ k, 0 < limit k) (coherent : file.Coherent)
    (hread : file.openFlags.read = true) (hthrough : file.ReadsThrough len) :
    ∃ file', file.read limit len = .ok (file', .ok (file.view.fetch len)) ∧
      Gave file (file.view.fetch len) file' := by
  obtain ⟨served, hserved⟩ : ∃ served, served = file.serve len := ⟨_, rfl⟩
  have hgave : Gave file served.2 served.1 := hserved ▸ coherent.serve len
  have hlen : served.2.length = min len file.unread.length := hserved ▸ coherent.ok.length_served len
  have hunread : served.1.unread = file.unread.drop (min len file.unread.length) :=
    hserved ▸ coherent.ok.unread_serve len
  have hpending : served.1.pending = file.pending := by rw [hserved]; rfl
  have hbuffer : served.1.buffer = file.buffer := by rw [hserved]; rfl
  have hkernel : served.1.kernel = file.kernel := by rw [hserved]; rfl
  have hservedLe : served.2.length ≤ len := by omega
  have hbytes := hgave.fetch_rest hservedLe
  rw [BufferedFile.read, if_neg (by rw [hread]; exact Bool.noConfusion)]
  dsimp only
  rw [← hserved]
  by_cases hleft : len - served.2.length = 0
  · rw [if_pos hleft]
    rw [hleft, OpenFile.fetch_zero, List.append_nil] at hbytes
    rw [← hbytes]
    exact ⟨served.1, rfl, hgave⟩
  · have hnone : served.1.unread = [] := by
      rw [hunread]
      exact List.drop_of_length_le (by omega)
    rw [if_neg hleft, ← hbytes]
    by_cases hsmall : len - served.2.length < file.buffer.length
    · rw [if_pos hsmall]
      obtain ⟨t, hrun⟩ := flushWrites_eq hlimit hgave.coherent.ok true
      have hflushed := hgave.coherent.flushed true t
      have hdrained : (served.1.flushed true t).Drained := by
        refine ⟨hflushed.coherent.ok, hflushed.coherent.offset_le, ?_, rfl⟩
        rw [(hgave.coherent.ok.took_flushed true t).unread, hnone]
      have hsize : 0 < (served.1.flushed true t).buffer.length := by
        show 0 < served.1.buffer.length
        rw [hbuffer]
        omega
      obtain ⟨file', hfill, hrest⟩ := @fillRounds_gave _ _ served.2 _ _ hlimit hflushed.coherent
        (fun _ => ⟨hdrained, hsize⟩) (Nat.lt_succ_self (len - served.2.length))
      have hview : (served.1.flushed true t).view = served.1.view := hflushed.view
      rw [hview] at hfill hrest
      have hboth := hflushed.trans hrest
      rw [List.nil_append] at hboth
      refine ⟨file', ?_, hgave.trans hboth⟩
      rw [hrun]
      exact hfill
    · rw [if_neg hsmall]
      have hdirect : served.1.Direct := by
        refine ⟨hgave.coherent, hnone, ?_⟩
        rw [hpending, hkernel]
        rcases hthrough with h | h | h
        · omega
        · exact Or.inl (by rw [pending, h, Nat.sub_self, window_zero])
        · exact Or.inr (Nat.le_of_eq h.symm)
      obtain ⟨file', hrun, hrest⟩ := @largeRounds_gave _ _ served.2 _ _ hlimit hdirect
        (Nat.lt_succ_self (len - served.2.length))
      exact ⟨file', hrun, hgave.trans hrest⟩

/-- Nothing that has been read ahead is still there. -/
def CaughtUp (file : BufferedFile) : Prop := file.readPos = file.readEnd

/-- **`write`** puts its bytes into the file that the program sees. -/
theorem write_view (hlimit : ∀ k, 0 < limit k) (coherent : file.Coherent)
    (hwrite : file.openFlags.write = true) (hready : bytes = [] ∨ file.CaughtUp) :
    ∃ file', file.write limit bytes = .ok (file', .ok bytes.length) ∧ file'.Coherent ∧
      file'.view = file.view.deliver bytes ∧ file'.openFlags = file.openFlags := by
  obtain ⟨file', result, hrun, htook, hall, -⟩ := write_cases limit coherent.ok hwrite bytes
  rcases hall with rfl | ⟨k, hk⟩
  swap
  · exact absurd hk (Nat.pos_iff_ne_zero.mp (hlimit k))
  have hlanded : file'.landed = file.landed.deliver bytes := by
    rw [htook.landed, accepted, List.take_length]
  obtain ⟨sent, hsent⟩ := htook.kernel
  have hoffset : file'.kernel.file.offset ≤ file'.kernel.file.content.length := by
    rw [hsent]
    exact OpenFile.deliver_offset_le coherent.offset_le sent
  refine ⟨file', hrun, ?_⟩
  by_cases hunread : file.unread = []
  · have hunread' := htook.unread.trans hunread
    refine ⟨coherent_of_unread htook.ok hoffset hunread', ?_, htook.openFlags⟩
    rw [view_of_unread hunread', view_of_unread hunread, hlanded]
  · have hnil : bytes = [] :=
      hready.resolve_right fun h => hunread ((unread_eq_nil_iff coherent.ok).mpr h)
    have hpending := coherent.apart.resolve_left hunread
    rw [hnil, OpenFile.deliver_nil] at hlanded
    -- Nothing was pending and nothing is written, so nothing has been sent.
    have hsame : file.kernel.file = file'.kernel.file ∧ file'.pending = [] := by
      have hboth : (file.kernel.file.deliver sent).deliver file'.pending = file.kernel.file := by
        rw [← hsent]
        exact hlanded.trans (landed_of_pending hpending)
      have hdelivered := congrArg OpenFile.delivered hboth
      rw [OpenFile.deliver_append] at hdelivered
      obtain ⟨rfl, hnone⟩ := List.append_eq_nil_iff.mp (List.append_right_eq_self.mp hdelivered)
      rw [OpenFile.deliver_nil] at hsent
      exact ⟨hsent.symm, hnone⟩
    refine ⟨⟨htook.ok, hoffset, Or.inr hsame.2, ?_, ?_⟩, ?_, htook.openFlags⟩
    · rw [htook.unread, ← hsame.1]
      exact coherent.unread_le
    · rw [htook.unread, ← hsame.1]
      exact coherent.unread_eq
    · rw [hnil, OpenFile.deliver_nil, view, view, hlanded, htook.unread]

theorem seek_offset_le {open_ : OpenFile} (h : open_.offset ≤ open_.content.length)
    (location : SeekLocation) (offset : ℤ) :
    (open_.seek location offset).1.offset ≤ (open_.seek location offset).1.content.length := by
  have hstart : open_.startPoint location ≤ open_.content.length := by
    cases location with
    | Start => exact Nat.zero_le _
    | Current => exact h
    | End => exact Nat.le_refl _
  unfold OpenFile.seek
  split_ifs with hrefuses
  · exact h
  · unfold OpenFile.Refuses at hrefuses
    show (open_.startPoint location + offset).toNat ≤ open_.content.length
    omega

/-- Only a seek from the offset depends on the offset. -/
theorem seek_eq_of_start {open_ : OpenFile} {location : SeekLocation} (offset : ℤ) (n : ℕ)
    (hlocation : location ≠ .Current) (hrefuses : ¬ open_.Refuses location offset) :
    ({ open_ with offset := n } : OpenFile).seek location offset = open_.seek location offset := by
  have hstart : ({ open_ with offset := n } : OpenFile).startPoint location =
      open_.startPoint location := by
    cases location with
    | Start => rfl
    | Current => exact absurd rfl hlocation
    | End => rfl
  have hrefuses' : ¬ ({ open_ with offset := n } : OpenFile).Refuses location offset := by
    unfold OpenFile.Refuses at hrefuses ⊢
    rwa [hstart]
  rw [OpenFile.seek, OpenFile.seek, if_neg hrefuses, if_neg hrefuses', hstart]

/-- A seek that does not need what has been read ahead. -/
def SeeksFree (file : BufferedFile) (location : SeekLocation) (offset : ℤ) : Prop :=
  file.CaughtUp ∨ location ≠ .Current ∧ ¬ file.landed.Refuses location offset

/-- **`seek`** moves the offset that the program sees. -/
theorem seek_view (hlimit : ∀ k, 0 < limit k) (coherent : file.Coherent)
    {location : SeekLocation} {offset : ℤ} (hfree : file.SeeksFree location offset) :
    ∃ file', file.seek limit location offset =
        .ok (file', (file.view.seek location offset).2) ∧
      file'.Coherent ∧ file'.view = (file.view.seek location offset).1 ∧
      file'.openFlags = file.openFlags := by
  have hsame : file.landed.seek location offset = file.view.seek location offset := by
    rcases hfree with h | ⟨hlocation, hrefuses⟩
    · rw [view_of_unread ((unread_eq_nil_iff coherent.ok).mpr h)]
    · exact (seek_eq_of_start offset _ hlocation hrefuses).symm
  obtain ⟨dropped, hdropped⟩ : ∃ dropped : BufferedFile,
      dropped = { file with readPos := 0, readEnd := 0 } := ⟨_, rfl⟩
  have ok : dropped.Ok := by
    have ok := coherent.ok
    rw [hdropped]
    exact ⟨ok.base_le, ok.pos_le, ok.end_le, Nat.le_refl _, Nat.zero_le _,
      fun h => absurd h (Nat.lt_irrefl 0), fun _ => rfl⟩
  have hlanded : dropped.landed = file.landed := by rw [hdropped]; rfl
  have hunread : dropped.unread = [] := by rw [hdropped]; exact window_zero _ _
  obtain ⟨t, hrun⟩ := flushWrites_eq hlimit ok false
  have htook := ok.took_flushed false t
  have hkernel := flushed_kernel dropped false t
  rw [hlanded] at hkernel
  obtain ⟨sought, hsought⟩ : ∃ sought : BufferedFile, sought =
      { dropped.flushed false t with kernel := ⟨(file.view.seek location offset).1, t⟩ } := ⟨_, rfl⟩
  have hnone : sought.unread = [] := by
    rw [hsought]
    exact htook.unread.trans hunread
  have hpending : sought.pending = [] := by
    rw [hsought]
    exact pending_flushed dropped false t
  have hfile : sought.kernel.file = (file.view.seek location offset).1 := by rw [hsought]
  refine ⟨sought, ?_, coherent_of_unread ?_ ?_ hnone, ?_, ?_⟩
  · rw [BufferedFile.seek, ← hdropped, hrun]
    show Except.ok ({ dropped.flushed false t with kernel :=
      { (dropped.flushed false t).kernel with
        file := ((dropped.flushed false t).kernel.file.seek location offset).1 } },
      ((dropped.flushed false t).kernel.file.seek location offset).2) = _
    rw [hkernel, hsame, hsought]
  · obtain ⟨hbase, hpos, hend, hread, hreadEnd, hapart, hfresh⟩ := htook.ok
    rw [hsought]
    exact ⟨hbase, hpos, hend, hread, hreadEnd, hapart, hfresh⟩
  · rw [hfile, ← hsame]
    exact seek_offset_le (landed_offset_le coherent) location offset
  · rw [view_of_unread hnone, landed_of_pending hpending, hfile]
  · rw [hsought]
    show (dropped.flushed false t).openFlags = _
    rw [htook.openFlags, hdropped]

/-! ## Runs -/

/-- A call of a program. -/
inductive FileOp
  | read (len : ℕ)
  | write (bytes : List Byte)
  | seek (location : SeekLocation) (offset : ℤ)
  | flush
  deriving DecidableEq, Repr

/-- What a call returns: the bytes read, or a count. -/
inductive FileReply
  | bytes (bytes : List Byte)
  | count (n : ℕ)
  deriving DecidableEq, Repr

/-- A call of the buffered file. -/
def step (limit : ℕ → ℕ) (file : BufferedFile) :
    FileOp → Option (BufferedFile × Except ErrorCode FileReply)
  | .read len => (file.read limit len).toOption.map fun r => (r.1, r.2.map .bytes)
  | .write bytes => (file.write limit bytes).toOption.map fun r => (r.1, r.2.map .count)
  | .seek location offset =>
      (file.seek limit location offset).toOption.map fun r => (r.1, r.2.map .count)
  | .flush => (file.flush limit).toOption.map fun r => (r.1, r.2.map .count)

/-- The same call of the file without a buffer, by system calls that transfer all that they can. -/
def unbuffered (file : OpenFile) : FileOp → OpenFile × Except ErrorCode FileReply
  | .read len => (file.skip (file.fetch len).length, .ok (.bytes (file.fetch len)))
  | .write bytes => (file.deliver bytes, .ok (.count bytes.length))
  | .seek location offset =>
      ((file.seek location offset).1, (file.seek location offset).2.map .count)
  | .flush => (file, .ok (.count 0))

/-- The call does not meet what is in the buffer for another one. -/
def Orderly (file : BufferedFile) : FileOp → Prop
  | .read len => file.ReadsThrough len
  | .write bytes => bytes = [] ∨ file.CaughtUp
  | .seek location offset => file.SeeksFree location offset
  | .flush => True

instance (file : BufferedFile) : ∀ op : FileOp, Decidable (file.Orderly op)
  | .read len => inferInstanceAs (Decidable (len < file.buffer.length ∨
      file.writeBase = file.writePos ∨ file.kernel.file.offset = file.kernel.file.content.length))
  | .write bytes => inferInstanceAs (Decidable (bytes = [] ∨ file.readPos = file.readEnd))
  | .seek location offset => inferInstanceAs (Decidable (file.readPos = file.readEnd ∨
      location ≠ .Current ∧ ¬ file.landed.Refuses location offset))
  | .flush => inferInstanceAs (Decidable True)

/-- **One call** does to the view what it does to a file without a buffer. -/
theorem step_view (hlimit : ∀ k, 0 < limit k) (coherent : file.Coherent)
    (hflags : file.openFlags = ⟨true, true⟩) {op : FileOp} (horderly : file.Orderly op) :
    ∃ file', step limit file op = some (file', (unbuffered file.view op).2) ∧ file'.Coherent ∧
      file'.view = (unbuffered file.view op).1 ∧ file'.openFlags = ⟨true, true⟩ := by
  cases op with
  | read len =>
      obtain ⟨file', hrun, hgave⟩ := read_view hlimit coherent (by rw [hflags]) horderly
      exact ⟨file', by rw [step, hrun]; rfl, hgave.coherent, hgave.view,
        hgave.openFlags.trans hflags⟩
  | write bytes =>
      obtain ⟨file', hrun, hcoherent, hview, hsame⟩ :=
        write_view hlimit coherent (by rw [hflags]) horderly
      exact ⟨file', by rw [step, hrun]; rfl, hcoherent, hview, hsame.trans hflags⟩
  | seek location offset =>
      obtain ⟨file', hrun, hcoherent, hview, hsame⟩ := seek_view hlimit coherent horderly
      exact ⟨file', by rw [step, hrun]; rfl, hcoherent, hview, hsame.trans hflags⟩
  | flush =>
      obtain ⟨file', hrun, hgave, -⟩ := flush_view hlimit coherent
      exact ⟨file', by rw [step, hrun]; rfl, hgave.coherent, hgave.view,
        hgave.openFlags.trans hflags⟩

theorem opened_coherent (content : List Byte) (flags : OpenFlags) (mode : BufferingMode) :
    (opened content flags mode).Coherent :=
  coherent_of_unread (opened_ok content flags mode) (Nat.zero_le _) (window_zero _ _)

/-- The program sees that file. -/
structure Sees (file : BufferedFile) (ref : OpenFile) : Prop where
  coherent : file.Coherent
  view : file.view = ref
  openFlags : file.openFlags = ⟨true, true⟩

theorem opened_sees (content : List Byte) (mode : BufferingMode) :
    (opened content ⟨true, true⟩ mode).Sees ⟨content, 0, []⟩ := by
  have hunread : (opened content ⟨true, true⟩ mode).unread = [] := window_zero _ _
  refine ⟨opened_coherent content ⟨true, true⟩ mode, ?_, rfl⟩
  rw [view_of_unread hunread, landed_opened]

/-- **A buffered file is the file without its buffer**, as long as every call of the run is orderly
where it is made and each system call transfers something: the same values are returned, and after a
flush the same bytes are in the file. -/
theorem run_unbuffered (hlimit : ∀ k, 0 < limit k) (content : List Byte) (mode : BufferingMode)
    (ops : List FileOp)
    (hmeet : StepsMeet (step limit) Orderly (opened content ⟨true, true⟩ mode) ops) :
    ∃ final file', runSteps (step limit) (opened content ⟨true, true⟩ mode) ops = some final ∧
      Agrees (fun file op => (unbuffered file op).1)
        (fun file op out => out = (unbuffered file op).2) ⟨content, 0, []⟩ ops final.2 ∧
      final.1.view = ops.foldl (fun file op => (unbuffered file op).1) ⟨content, 0, []⟩ ∧
      step limit final.1 .flush = some (file', .ok (.count 0)) ∧
      file'.kernel.file.content =
        (ops.foldl (fun file op => (unbuffered file op).1) ⟨content, 0, []⟩).content := by
  have hstep (file : BufferedFile) (ref : OpenFile) (op : FileOp) (hrelated : file.Sees ref)
      (horderly : file.Orderly op) : ∃ moved, step limit file op = some moved ∧
        moved.2 = (unbuffered ref op).2 ∧ moved.1.Sees (unbuffered ref op).1 := by
    obtain ⟨hcoherent, rfl, hflags⟩ := hrelated
    obtain ⟨file', hstep, hcoherent', hview, hflags'⟩ :=
      step_view hlimit hcoherent hflags horderly
    exact ⟨_, hstep, rfl, hcoherent', hview, hflags'⟩
  obtain ⟨final, hrun, hagrees, ⟨hcoherent, hview, -⟩⟩ :=
    @runSteps_simulates _ _ _ _ (step limit) Orderly (fun file op => (unbuffered file op).1)
      (fun file op out => out = (unbuffered file op).2) Sees hstep _ _ _
      (opened_sees content mode) hmeet
  obtain ⟨file', hflush, hgave, hpending⟩ := flush_view hlimit hcoherent
  refine ⟨final, file', hrun, hagrees, hview, by rw [step, hflush]; rfl, ?_⟩
  have hcontent := congrArg OpenFile.content (hgave.view.trans hview)
  rwa [view, landed_of_pending hpending] at hcontent

/-- A run with reads, a large one among them, seeks and writes. -/
theorem run_unbuffered_orderly : ∃ final file', runSteps (step fun _ => 2)
      (opened [97, 98, 99, 100] ⟨true, true⟩ .BLOCK_BUFFERED)
      [.read 1, .read 3, .write [88, 89], .flush, .read 2000, .seek .Start 1, .read 3] = some final ∧
    Agrees (fun file op => (unbuffered file op).1)
      (fun file op out => out = (unbuffered file op).2) ⟨[97, 98, 99, 100], 0, []⟩
      [.read 1, .read 3, .write [88, 89], .flush, .read 2000, .seek .Start 1, .read 3] final.2 ∧
    final.1.view = ⟨[97, 98, 99, 100, 88, 89], 4, [88, 89]⟩ ∧
    step (fun _ => 2) final.1 .flush = some (file', .ok (.count 0)) ∧
    file'.kernel.file.content = [97, 98, 99, 100, 88, 89] :=
  run_unbuffered (fun _ => Nat.succ_pos 1) [97, 98, 99, 100] .BLOCK_BUFFERED
    [.read 1, .read 3, .write [88, 89], .flush, .read 2000, .seek .Start 1, .read 3]
    (by decide +kernel)

/-- A byte is read and one is written: it goes to the end of the file instead of behind the byte
that was read. -/
theorem run_unbuffered_fails :
    (runSteps (step fun _ => 1024)
      (opened [97, 98, 99, 100, 101, 102] ⟨true, true⟩ .BLOCK_BUFFERED)
      [.read 1, .write [88], .flush]).map (fun final => final.1.kernel.file.content) =
        some [97, 98, 99, 100, 101, 102, 88] ∧
    (([.read 1, .write [88], .flush] : List FileOp).foldl (fun file op => (unbuffered file op).1)
      ⟨[97, 98, 99, 100, 101, 102], 0, []⟩).content = [97, 88, 99, 100, 101, 102] := by
  decide +kernel

end BufferedFile

end BekOS
