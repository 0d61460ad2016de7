import BekOS.Libcore.BufferedFile

/-!
# What is written to a `BufferedFile`

Until it is flushed a byte that has been accepted is in the buffer, between `write_base` and
`write_pos`.  Whatever a function does with it, the file as it will be when all that is pending has
been written (`landed`) is the one before with the accepted bytes written to it.
-/

namespace BekOS

open PartialRun

namespace BufferedFile

variable {limit : ℕ → ℕ} {file file' file'' : BufferedFile} {a b bytes rest : List Byte}
  {n fuel written : ℕ}

/-- The file as it will be when what is pending has been written. -/
def landed (file : BufferedFile) : OpenFile := file.kernel.file.deliver file.pending

/-- The cursors are in order, and nothing is put where something is left to be read. -/
structure Ok (file : BufferedFile) : Prop where
  base_le : file.writeBase ≤ file.writePos
  pos_le : file.writePos ≤ file.writeEnd
  end_le : file.writeEnd ≤ file.buffer.length
  readPos_le : file.readPos ≤ file.readEnd
  readEnd_le : file.readEnd ≤ file.buffer.length
  apart : file.readPos < file.readEnd → file.writeEnd ≤ file.readPos
  fresh : file.readPos = 0 → file.readEnd = 0

theorem opened_ok (content : List Byte) (flags : OpenFlags) (mode : BufferingMode) :
    (opened content flags mode).Ok where
  base_le := Nat.le_refl 0
  pos_le := Nat.zero_le _
  end_le := by rw [opened, List.length_replicate]
  readPos_le := Nat.le_refl 0
  readEnd_le := Nat.zero_le _
  apart := fun h => absurd h (Nat.lt_irrefl 0)
  fresh := fun _ => rfl

@[simp] theorem pending_opened (content : List Byte) (flags : OpenFlags) (mode : BufferingMode) :
    (opened content flags mode).pending = [] := window_zero _ _

@[simp] theorem landed_opened (content : List Byte) (flags : OpenFlags) (mode : BufferingMode) :
    (opened content flags mode).landed = ⟨content, 0, []⟩ :=
  OpenFile.deliver_nil _

theorem Ok.length_pending (ok : file.Ok) :
    file.pending.length = file.writePos - file.writeBase := by
  obtain ⟨hbase, hpos, hend, -, -, -, -⟩ := ok
  exact length_window_of_le (by omega)

theorem Ok.length_unread (ok : file.Ok) : file.unread.length = file.readEnd - file.readPos := by
  obtain ⟨-, -, -, hread, hend, -, -⟩ := ok
  exact length_window_of_le (by omega)

theorem landed_of_pending (h : file.pending = []) : file.landed = file.kernel.file := by
  rw [landed, h, OpenFile.deliver_nil]

/-! ## From one state to another -/

/-- From one state to another, bytes have been accepted and nothing else has happened that could be
seen from outside. -/
structure Took (file : BufferedFile) (bytes : List Byte) (file' : BufferedFile) : Prop where
  ok : file'.Ok
  landed : file'.landed = file.landed.deliver bytes
  kernel : ∃ sent, file'.kernel.file = file.kernel.file.deliver sent
  unread : file'.unread = file.unread
  openFlags : file'.openFlags = file.openFlags
  bufferingMode : file'.bufferingMode = file.bufferingMode

theorem Took.refl (ok : file.Ok) : Took file [] file :=
  ⟨ok, (OpenFile.deliver_nil _).symm, ⟨[], (OpenFile.deliver_nil _).symm⟩, rfl, rfl, rfl⟩

theorem Took.trans (first : Took file a file') (second : Took file' b file'') :
    Took file (a ++ b) file'' where
  ok := second.ok
  landed := by rw [second.landed, first.landed, OpenFile.deliver_append]
  kernel := by
    obtain ⟨sent, hsent⟩ := first.kernel
    obtain ⟨sent', hsent'⟩ := second.kernel
    exact ⟨sent ++ sent', by rw [hsent', hsent, OpenFile.deliver_append]⟩
  unread := second.unread.trans first.unread
  openFlags := second.openFlags.trans first.openFlags
  bufferingMode := second.bufferingMode.trans first.bufferingMode

/-! ### Filling the buffer -/

theorem Ok.pending_fill (ok : file.Ok) (bytes : List Byte) :
    (file.fill bytes).pending = file.pending ++ bytes := by
  obtain ⟨hbase, hpos, hend, -, -, -, -⟩ := ok
  show window (overlay file.buffer file.writePos bytes) file.writeBase
    (file.writePos + bytes.length - file.writeBase) = _
  rw [Nat.sub_add_comm hbase, window_overlay_grow hbase (by omega)]
  rfl

theorem Ok.unread_fill (ok : file.Ok) (h : bytes.length ≤ file.room) :
    (file.fill bytes).unread = file.unread := by
  obtain ⟨hbase, hpos, hend, hread, -, hapart, -⟩ := ok
  unfold room at h
  rcases Nat.lt_or_ge file.readPos file.readEnd with hlt | hge
  · have hafter := hapart hlt
    have hbefore : file.writePos + bytes.length ≤ file.readPos := by omega
    exact window_overlay_after hbefore (by omega)
  · show window _ file.readPos (file.readEnd - file.readPos) =
      window _ file.readPos (file.readEnd - file.readPos)
    rw [Nat.sub_eq_zero_of_le hge, window_zero, window_zero]

theorem Ok.fill (ok : file.Ok) (h : bytes.length ≤ file.room) : (file.fill bytes).Ok := by
  obtain ⟨hbase, hpos, hend, hread, hreadEnd, hapart, hfresh⟩ := ok
  unfold room at h
  have hlen : (file.fill bytes).buffer.length = file.buffer.length :=
    length_overlay_of_le (by omega)
  refine ⟨?_, ?_, hlen ▸ hend, hread, hlen ▸ hreadEnd, hapart, hfresh⟩
  · exact Nat.le_trans hbase (Nat.le_add_right _ _)
  · show file.writePos + bytes.length ≤ file.writeEnd
    omega

theorem Ok.took_fill (ok : file.Ok) (h : bytes.length ≤ file.room) :
    Took file bytes (file.fill bytes) where
  ok := ok.fill h
  landed := by
    show file.kernel.file.deliver (file.fill bytes).pending = _
    rw [ok.pending_fill, BufferedFile.landed, OpenFile.deliver_append]
  kernel := ⟨[], (OpenFile.deliver_nil _).symm⟩
  unread := ok.unread_fill h
  openFlags := rfl
  bufferingMode := rfl

/-! ### Sending what is pending -/

/-- The file with that many pending bytes gone to the kernel. -/
def sent (file : BufferedFile) (n transfers : ℕ) : BufferedFile :=
  { file with
    writeBase := file.writeBase + n
    kernel := ⟨file.kernel.file.deliver (window file.buffer file.writeBase n), transfers⟩ }

theorem Ok.sent (ok : file.Ok) (h : n ≤ file.writePos - file.writeBase) (transfers : ℕ) :
    (file.sent n transfers).Ok := by
  obtain ⟨hbase, hpos, hend, hread, hreadEnd, hapart, hfresh⟩ := ok
  refine ⟨?_, hpos, hend, hread, hreadEnd, hapart, hfresh⟩
  show file.writeBase + n ≤ file.writePos
  omega

theorem landed_sent (h : n ≤ file.writePos - file.writeBase) (transfers : ℕ) :
    (file.sent n transfers).landed = file.landed := by
  show (file.kernel.file.deliver (window file.buffer file.writeBase n)).deliver
    (window file.buffer (file.writeBase + n) (file.writePos - (file.writeBase + n))) =
    file.kernel.file.deliver (window file.buffer file.writeBase (file.writePos - file.writeBase))
  rw [OpenFile.deliver_append, ← window_add, ← Nat.sub_sub, Nat.add_sub_cancel' h]

theorem Ok.took_sent (ok : file.Ok) (h : n ≤ file.writePos - file.writeBase) (transfers : ℕ) :
    Took file [] (file.sent n transfers) where
  ok := ok.sent h transfers
  landed := by rw [landed_sent h, OpenFile.deliver_nil]
  kernel := ⟨_, rfl⟩
  unread := rfl
  openFlags := rfl
  bufferingMode := rfl

theorem sent_sent (file : BufferedFile) (m n t t' : ℕ) :
    (file.sent m t).sent n t' = file.sent (m + n) t' := by
  unfold BufferedFile.sent
  dsimp only
  rw [OpenFile.deliver_append, ← window_add, Nat.add_assoc]

/-- The loop of `flush_writes` sends all that is pending, or the kernel has taken nothing. -/
theorem flushRounds_cases (limit : ℕ → ℕ) (ok : file.Ok)
    (hfuel : file.writePos - file.writeBase < fuel) :
    ∃ n t result, flushRounds limit fuel file = .ok (file.sent n t, result) ∧
      n ≤ file.writePos - file.writeBase ∧
      (result = .ok () ∧ n = file.writePos - file.writeBase ∨
        result = .error ErrorCode.EIO ∧ ∃ k, limit k = 0) := by
  induction fuel generalizing file with
  | zero => exact absurd hfuel (Nat.not_lt_zero _)
  | succ fuel ih =>
      rw [flushRounds]
      by_cases hpending : file.writePos - file.writeBase ≠ 0
      · have hlen := ok.length_pending
        rw [if_pos hpending]
        obtain ⟨count, hcount⟩ : ∃ count, count = (file.kernel.write limit file.pending).2 :=
          ⟨_, rfl⟩
        have hmin : count = min (file.writePos - file.writeBase) (limit file.kernel.transfers) := by
          rw [hcount, ← hlen]
          rfl
        have hsent : ({ file with
            kernel := (file.kernel.write limit file.pending).1
            writeBase := file.writeBase + (file.kernel.write limit file.pending).2 } :
              BufferedFile) = file.sent count (file.kernel.transfers + 1) := by
          rw [← hcount, BufferedFile.sent, Kernel.write]
          dsimp only
          rw [hlen, ← hmin, pending, take_window _ _ (by omega)]
        dsimp only
        rw [hsent, ← hcount]
        by_cases hzero : count = 0
        · rw [if_pos hzero]
          exact ⟨count, _, _, rfl, by omega, Or.inr ⟨rfl, file.kernel.transfers, by omega⟩⟩
        · rw [if_neg hzero]
          have hle : count ≤ file.writePos - file.writeBase := by omega
          have hleft : (file.sent count (file.kernel.transfers + 1)).writePos -
              (file.sent count (file.kernel.transfers + 1)).writeBase =
                file.writePos - file.writeBase - count := (Nat.sub_sub _ _ _).symm
          obtain ⟨n, t, result, hrun, hn, hresult⟩ :=
            ih (ok.sent hle (file.kernel.transfers + 1)) (by omega)
          rw [hleft] at hn hresult
          refine ⟨count + n, t, result, by rw [hrun, sent_sent], by omega, ?_⟩
          refine hresult.imp_left fun h => ⟨h.1, ?_⟩
          rw [h.2, Nat.add_sub_cancel' hle]
      · rw [if_neg hpending]
        refine ⟨0, file.kernel.transfers, _, ?_, Nat.zero_le _, Or.inl ⟨rfl, by omega⟩⟩
        rw [BufferedFile.sent, window_zero, OpenFile.deliver_nil, Nat.add_zero]

/-! ### Flushing -/

/-- The file after a flush. -/
def flushed (file : BufferedFile) (preparingForRead : Bool) (transfers : ℕ) : BufferedFile :=
  (file.sent (file.writePos - file.writeBase) transfers).rearranged preparingForRead

theorem flushed_kernel (file : BufferedFile) (preparing : Bool) (t : ℕ) :
    (file.flushed preparing t).kernel = ⟨file.landed, t⟩ := by
  unfold flushed rearranged
  split_ifs <;> rfl

theorem pending_flushed (file : BufferedFile) (preparing : Bool) (t : ℕ) :
    (file.flushed preparing t).pending = [] := by
  unfold flushed rearranged pending
  split_ifs
  · exact window_zero _ _
  · exact window_zero _ _
  · dsimp only
    rw [Nat.sub_self, window_zero]

theorem Ok.flushed (ok : file.Ok) (preparing : Bool) (t : ℕ) :
    (file.flushed preparing t).Ok := by
  obtain ⟨hbase, hpos, hend, hread, hreadEnd, hapart, hfresh⟩ := ok
  unfold BufferedFile.flushed rearranged
  split_ifs with hprep hpositive
  · exact ⟨Nat.le_refl _, Nat.le_refl _, Nat.zero_le _, hread, hreadEnd, fun _ => Nat.zero_le _,
      hfresh⟩
  · exact ⟨Nat.le_refl _, Nat.zero_le _, Nat.le_trans hread hreadEnd, hread, hreadEnd,
      fun _ => Nat.le_refl _, hfresh⟩
  · have hzero : file.readPos = 0 := Nat.eq_zero_of_not_pos hpositive
    have hnone := hfresh hzero
    exact ⟨Nat.le_refl _, hreadEnd, Nat.le_refl _, hread, hreadEnd,
      fun h => absurd (show file.readPos < file.readEnd from h) (by omega), hfresh⟩

theorem Ok.took_flushed (ok : file.Ok) (preparing : Bool) (t : ℕ) :
    Took file [] (file.flushed preparing t) where
  ok := ok.flushed preparing t
  landed := by
    rw [landed_of_pending (pending_flushed file preparing t), flushed_kernel,
      OpenFile.deliver_nil]
  kernel := ⟨file.pending, by rw [flushed_kernel]; rfl⟩
  unread := by
    unfold BufferedFile.flushed rearranged
    split_ifs <;> rfl
  openFlags := by
    unfold BufferedFile.flushed rearranged
    split_ifs <;> rfl
  bufferingMode := by
    unfold BufferedFile.flushed rearranged
    split_ifs <;> rfl

theorem flushWrites_cases (limit : ℕ → ℕ) (ok : file.Ok) (preparing : Bool) :
    (∃ t, file.flushWrites limit preparing = .ok (file.flushed preparing t, .ok 0)) ∨
      ∃ n t, n ≤ file.writePos - file.writeBase ∧
        file.flushWrites limit preparing = .ok (file.sent n t, .error ErrorCode.EIO) ∧
        ∃ k, limit k = 0 := by
  obtain ⟨n, t, result, hrun, hn, ⟨rfl, hall⟩ | ⟨rfl, hzero⟩⟩ :=
    flushRounds_cases limit ok (Nat.lt_succ_self (file.writePos - file.writeBase))
  · refine Or.inl ⟨t, ?_⟩
    rw [flushWrites, hrun, hall]
    rfl
  · refine Or.inr ⟨n, t, hn, ?_, hzero⟩
    rw [flushWrites, hrun]
    rfl

/-! ### Past the buffer -/

/-- The file with bytes given to the kernel past the buffer. -/
def direct (file : BufferedFile) (bytes : List Byte) (transfers : ℕ) : BufferedFile :=
  { file with kernel := ⟨file.kernel.file.deliver bytes, transfers⟩ }

theorem Ok.took_direct (ok : file.Ok) (h : file.pending = []) (bytes : List Byte) (t : ℕ) :
    Took file bytes (file.direct bytes t) where
  ok := ⟨ok.base_le, ok.pos_le, ok.end_le, ok.readPos_le, ok.readEnd_le, ok.apart, ok.fresh⟩
  landed := by
    have hdirect : (file.direct bytes t).pending = [] := h
    rw [landed_of_pending h, landed_of_pending hdirect]
    rfl
  kernel := ⟨bytes, rfl⟩
  unread := rfl
  openFlags := rfl
  bufferingMode := rfl

/-- The loop of `write` that goes past the buffer ends when all is written, or when the kernel takes
nothing. -/
theorem directRounds_cases (limit : ℕ → ℕ) (file : BufferedFile) (written : ℕ)
    (hfuel : rest.length < fuel) :
    ∃ n t, n ≤ rest.length ∧
      directRounds limit fuel file rest written =
        .ok (file.direct (rest.take n) t, .ok (written + n)) ∧
      (n = rest.length ∨ ∃ k, limit k = 0) := by
  induction fuel generalizing file rest written with
  | zero => exact absurd hfuel (Nat.not_lt_zero _)
  | succ fuel ih =>
      rw [directRounds]
      by_cases hrest : rest.length ≠ 0
      · rw [if_pos hrest]
        obtain ⟨count, hcount⟩ : ∃ count, count = min rest.length (limit file.kernel.transfers) :=
          ⟨_, rfl⟩
        have hsent : file.kernel.write limit rest =
            (⟨file.kernel.file.deliver (rest.take count), file.kernel.transfers + 1⟩, count) := by
          rw [hcount]
          rfl
        rw [hsent]
        dsimp only
        by_cases hzero : count = 0
        · rw [if_pos hzero]
          refine ⟨count, file.kernel.transfers + 1, by omega, ?_,
            Or.inr ⟨file.kernel.transfers, by omega⟩⟩
          rw [hzero, Nat.add_zero]
          rfl
        · rw [if_neg hzero]
          obtain ⟨n, t, hn, hrun, hall⟩ := @ih (rest.drop count)
            (file.direct (rest.take count) (file.kernel.transfers + 1)) (written + count)
            (by rw [List.length_drop]; omega)
          rw [List.length_drop] at hn hall
          have hle : count ≤ rest.length := by omega
          refine ⟨count + n, t, by omega, ?_, hall.imp_left fun h => ?_⟩
          · show directRounds limit fuel
              (file.direct (rest.take count) (file.kernel.transfers + 1)) (rest.drop count)
              (written + count) = _
            rw [hrun, Nat.add_assoc]
            unfold direct
            dsimp only
            rw [OpenFile.deliver_append, List.take_add]
          · rw [h, Nat.add_sub_cancel' hle]
      · rw [if_neg hrest]
        refine ⟨0, file.kernel.transfers, Nat.zero_le _, ?_, Or.inl (by omega)⟩
        rw [direct, List.take_zero, OpenFile.deliver_nil]
        rfl

/-! ## Writing -/

theorem findNextLineEnd_eq_none : findNextLineEnd bytes = none ↔ 10 ∉ bytes := by
  induction bytes with
  | nil => simp [findNextLineEnd]
  | cons byte rest ih =>
      rw [findNextLineEnd, List.mem_cons, not_or]
      split_ifs with h
      · exact iff_of_false (by rintro ⟨⟩) fun hnot => hnot.1 h.symm
      · rw [Option.map_eq_none_iff, ih]
        exact (and_iff_right (Ne.symm h)).symm

theorem findNextLineEnd_le : ∀ {bytes : List Byte} {point : ℕ},
    findNextLineEnd bytes = some point → point ≤ bytes.length := by
  intro bytes
  induction bytes with
  | nil =>
      intro point h
      cases h
  | cons byte rest ih =>
      intro point h
      rw [findNextLineEnd] at h
      split_ifs at h with hline
      · cases h
        exact Nat.succ_le_succ (Nat.zero_le _)
      · obtain ⟨before, hbefore, rfl⟩ := Option.map_eq_some_iff.mp h
        exact Nat.succ_le_succ (ih hbefore)

/-- What a call of `write` has accepted, by what it returns: when the buffer cannot be flushed, what
has been put in it until then. -/
def accepted (file : BufferedFile) (bytes : List Byte) : Except ErrorCode ℕ → List Byte
  | .ok n => bytes.take n
  | .error ErrorCode.EIO => bytes.take file.room
  | .error _ => []

theorem writeRest_cases (limit : ℕ → ℕ) (ok : file.Ok) (rest : List Byte) (written : ℕ)
    (nextFlushPoint : Option ℕ) (hempty : rest ≠ [] → file.pending = []) :
    ∃ file' n, file.writeRest limit rest written nextFlushPoint = .ok (file', .ok (written + n)) ∧
      Took file (rest.take n) file' ∧ (n = rest.length ∨ ∃ k, limit k = 0) ∧
      ∀ byte ∈ file'.pending, byte ∈ file.pending ∨ nextFlushPoint = none ∧ byte ∈ rest := by
  unfold writeRest
  split_ifs with hnone hfits
  · refine ⟨file, 0, rfl, Took.refl ok, Or.inl hnone.symm, fun byte hbyte => Or.inl hbyte⟩
  · refine ⟨file.fill rest, rest.length, rfl, ?_, Or.inl rfl, fun byte hbyte => ?_⟩
    · rw [List.take_length]
      exact ok.took_fill (Nat.le_of_lt hfits.1)
    · rw [ok.pending_fill, List.mem_append] at hbyte
      exact hbyte.imp_right fun h => ⟨hfits.2, h⟩
  · have hpending := hempty fun h => hnone (List.length_eq_zero_iff.mpr h)
    obtain ⟨n, t, -, hrun, hall⟩ :=
      directRounds_cases limit file written (Nat.lt_succ_self rest.length)
    exact ⟨_, n, hrun, ok.took_direct hpending _ t, hall, fun byte hbyte => Or.inl hbyte⟩

theorem flushPoint_none (h : (file.flushPoint bytes).any (· ≤ n) = false) (hn : bytes.length ≤ n)
    (hmode : file.bufferingMode = .LINE_BUFFERED) : 10 ∉ bytes := by
  rw [flushPoint, if_pos hmode] at h
  refine findNextLineEnd_eq_none.mp ?_
  cases hpoint : findNextLineEnd bytes with
  | none => rfl
  | some point =>
      rw [hpoint, Option.any_some, decide_eq_false_iff_not] at h
      exact absurd (Nat.le_trans (findNextLineEnd_le hpoint) hn) h

theorem nextFlushPoint_none (hmode : file.bufferingMode = .LINE_BUFFERED)
    (h : (if (file.flushPoint bytes).any (· ≤ n) then findNextLineEnd (bytes.drop n)
      else file.flushPoint bytes) = none) : 10 ∉ bytes.drop n := by
  split_ifs at h
  · exact findNextLineEnd_eq_none.mp h
  · rw [flushPoint, if_pos hmode] at h
    exact fun hmem => findNextLineEnd_eq_none.mp h (List.mem_of_mem_drop hmem)

/-- A call of `write` accepts all of its bytes, or the kernel has taken nothing.  It leaves no line
in the buffer whose end it has seen. -/
theorem write_cases (limit : ℕ → ℕ) (ok : file.Ok) (hwrite : file.openFlags.write = true)
    (bytes : List Byte) :
    ∃ file' result, file.write limit bytes = .ok (file', result) ∧
      Took file (file.accepted bytes result) file' ∧
      (result = .ok bytes.length ∨ ∃ k, limit k = 0) ∧
      (file.bufferingMode = .LINE_BUFFERED → (∃ n, result = .ok n) → 10 ∉ file.pending →
        10 ∉ file'.pending) := by
  obtain ⟨copied, hcopied⟩ : ∃ copied, copied = min bytes.length file.room := ⟨_, rfl⟩
  have hlen : (bytes.take copied).length = copied := by
    rw [List.length_take]
    omega
  have hfill : Took file (bytes.take copied) (file.fill (bytes.take copied)) :=
    ok.took_fill (by omega)
  rw [write, if_neg (by rw [hwrite]; exact Bool.noConfusion)]
  dsimp only
  rw [← hcopied]
  by_cases hflush : (file.fill (bytes.take copied)).writeEnd =
      (file.fill (bytes.take copied)).writePos ∨ (file.flushPoint bytes).any (· ≤ copied) = true
  · rw [if_pos hflush]
    rcases flushWrites_cases limit hfill.ok false with ⟨t, hrun⟩ | ⟨n, t, hn, hrun, hzero⟩
    · have hflushed := hfill.trans (hfill.ok.took_flushed false t)
      have hnone := pending_flushed (file.fill (bytes.take copied)) false t
      obtain ⟨file', n, hrest, htook, hall, hlines⟩ :=
        writeRest_cases limit hflushed.ok (bytes.drop copied) copied _ fun _ => hnone
      refine ⟨file', .ok (copied + n), ?_, ?_, ?_, fun hmode _ _ hmem => ?_⟩
      · rw [hrun]
        exact hrest
      · have hwritten := hflushed.trans htook
        rwa [List.append_nil, ← List.take_add] at hwritten
      · refine hall.imp_left fun h => congrArg Except.ok ?_
        rw [h, List.length_drop]
        omega
      · rcases hlines 10 hmem with h | ⟨hpoint, h⟩
        · exact absurd (hnone ▸ h) List.not_mem_nil
        · exact nextFlushPoint_none hmode hpoint h
    · refine ⟨_, .error ErrorCode.EIO, by rw [hrun]; rfl, ?_, Or.inr hzero, ?_⟩
      · have htake : bytes.take file.room = bytes.take copied := by
          rw [hcopied, ← List.take_take, List.take_of_length_le (List.length_take_le' _ _)]
        have hsent := hfill.trans (hfill.ok.took_sent hn t)
        rw [List.append_nil] at hsent
        show Took file (bytes.take file.room) _
        rwa [htake]
      · rintro _ ⟨m, hm⟩
        cases hm
  · rw [if_neg hflush]
    obtain ⟨hroom, hpassed⟩ := not_or.mp hflush
    have hpassed := Bool.eq_false_of_not_eq_true hpassed
    have hall : bytes.length ≤ copied := by
      have hwritten : file.writeEnd ≠ file.writePos + (bytes.take copied).length := hroom
      have hpos := ok.pos_le
      unfold room at hcopied
      omega
    have hrest : bytes.drop copied = [] := List.drop_of_length_le hall
    rw [hrest]
    refine ⟨_, .ok copied, by rw [writeRest, if_pos List.length_nil], hfill, ?_,
      fun hmode _ hold hmem => ?_⟩
    · exact Or.inl (congrArg Except.ok (by omega))
    · rw [ok.pending_fill, List.mem_append] at hmem
      rcases hmem with h | h
      · exact hold h
      · exact flushPoint_none hpassed hall hmode (List.mem_of_mem_take h)

theorem write_refused (limit : ℕ → ℕ) (hwrite : file.openFlags.write = false)
    (bytes : List Byte) : file.write limit bytes = .ok (file, .error .EBADF) :=
  if_pos hwrite

theorem flush_cases (limit : ℕ → ℕ) (ok : file.Ok) :
    ∃ file' result, file.flush limit = .ok (file', result) ∧ Took file [] file' ∧
      (result = .ok 0 ∧ file'.pending = [] ∨ result = .error ErrorCode.EIO ∧ ∃ k, limit k = 0) := by
  rcases flushWrites_cases limit ok false with ⟨t, hrun⟩ | ⟨n, t, hn, hrun, hzero⟩
  · refine ⟨_, .ok 0, by rw [flush, hrun]; rfl, ok.took_flushed false t, Or.inl ⟨rfl, ?_⟩⟩
    exact pending_flushed file false t
  · exact ⟨_, .error ErrorCode.EIO, by rw [flush, hrun]; rfl, ok.took_sent hn t, Or.inr ⟨rfl, hzero⟩⟩

/-! ## Runs -/

/-- A call of a program that only writes. -/
inductive WriteOp
  | write (bytes : List Byte)
  | flush
  deriving DecidableEq, Repr

/-- Such a call, with what it returns and the bytes that it has accepted. -/
def writeStep (limit : ℕ → ℕ) (file : BufferedFile) :
    WriteOp → Option (BufferedFile × (Except ErrorCode ℕ × List Byte))
  | .write bytes =>
      (file.write limit bytes).toOption.map fun r => (r.1, (r.2, file.accepted bytes r.2))
  | .flush => (file.flush limit).toOption.map fun r => (r.1, (r.2, []))

/-- The call that accepts all of its bytes. -/
def WriteOp.whole : WriteOp → Except ErrorCode ℕ × List Byte
  | .write bytes => (.ok bytes.length, bytes)
  | .flush => (.ok 0, [])

theorem writeStep_cases (limit : ℕ → ℕ) (ok : file.Ok) (op : WriteOp) :
    ∃ file' out, writeStep limit file op = some (file', out) ∧ Took file out.2 file' ∧
      (file.openFlags.write = true → (∀ k, 0 < limit k) → out = op.whole) ∧
      (file.bufferingMode = .LINE_BUFFERED → (∃ n, out.1 = .ok n) → 10 ∉ file.pending →
        10 ∉ file'.pending) := by
  cases op with
  | write bytes =>
      by_cases hwrite : file.openFlags.write = true
      · obtain ⟨file', result, hrun, htook, hall, hline⟩ := write_cases limit ok hwrite bytes
        refine ⟨file', _, by rw [writeStep, hrun]; rfl, htook, fun _ hlimit => ?_, hline⟩
        rcases hall with rfl | ⟨k, hk⟩
        · exact congrArg (Except.ok bytes.length, ·) (List.take_length)
        · exact absurd hk (Nat.pos_iff_ne_zero.mp (hlimit k))
      · have hrun := write_refused limit (Bool.eq_false_of_not_eq_true hwrite) bytes
        exact ⟨file, _, by rw [writeStep, hrun]; rfl, Took.refl ok, fun h => absurd h hwrite,
          fun _ _ h => h⟩
  | flush =>
      obtain ⟨file', result, hrun, htook, hall⟩ := flush_cases limit ok
      refine ⟨file', _, by rw [writeStep, hrun]; rfl, htook, fun _ hlimit => ?_,
        fun _ hok hold => ?_⟩
      · rcases hall with ⟨rfl, -⟩ | ⟨-, k, hk⟩
        · rfl
        · exact absurd hk (Nat.pos_iff_ne_zero.mp (hlimit k))
      · rcases hall with ⟨-, hnone⟩ | ⟨rfl, -⟩
        · rw [hnone]
          exact List.not_mem_nil
        · obtain ⟨n, hn⟩ := hok
          cases hn

theorem runSteps_took (limit : ℕ → ℕ) (ok : file.Ok) (ops : List WriteOp) :
    ∃ final, runSteps (writeStep limit) file ops = some final ∧
      Took file (final.2.map Prod.snd).flatten final.1 ∧
      (file.openFlags.write = true → (∀ k, 0 < limit k) → final.2 = ops.map WriteOp.whole) ∧
      (file.bufferingMode = .LINE_BUFFERED → (∀ out ∈ final.2, ∃ n, out.1 = .ok n) →
        10 ∉ file.pending → 10 ∉ final.1.pending) := by
  induction ops generalizing file with
  | nil => exact ⟨(file, []), rfl, Took.refl ok, fun _ _ => rfl, fun _ _ h => h⟩
  | cons op rest ih =>
      obtain ⟨file', out, hstep, htook, hwhole, hline⟩ := writeStep_cases limit ok op
      obtain ⟨final, hrun, htooks, hwholes, hlines⟩ := ih htook.ok
      refine ⟨(final.1, out :: final.2), ?_, ?_, fun hwrite hlimit => ?_, fun hmode hok hold => ?_⟩
      · rw [runSteps_cons, hstep, Option.bind_some, hrun, Option.map_some]
      · exact htook.trans htooks
      · rw [List.map_cons, hwhole hwrite hlimit, hwholes (htook.openFlags ▸ hwrite) hlimit]
      · obtain ⟨hfirst, hothers⟩ := List.forall_mem_cons.mp hok
        exact hlines (htook.bufferingMode ▸ hmode) hothers (hline hmode hfirst hold)

/-- **What a program writes is kept in order.**  After any run of writes and flushes, of a file
opened in any mode and however little the kernel takes, what has been delivered and behind it what
is pending are the bytes accepted so far; while no call has failed no line of them that has ended is
still in the buffer of a file with `LINE_BUFFERED`; and where the kernel always takes something,
every call accepts all of its bytes. -/
theorem writes_kept (limit : ℕ → ℕ) (content : List Byte) (flags : OpenFlags)
    (mode : BufferingMode) (ops : List WriteOp) :
    ∃ final, runSteps (writeStep limit) (opened content flags mode) ops = some final ∧
      final.1.kernel.file.delivered ++ final.1.pending = (final.2.map Prod.snd).flatten ∧
      (mode = .LINE_BUFFERED → (∀ out ∈ final.2, ∃ n, out.1 = .ok n) → 10 ∉ final.1.pending) ∧
      (flags.write = true → (∀ k, 0 < limit k) → final.2 = ops.map WriteOp.whole) := by
  obtain ⟨final, hrun, htook, hwhole, hline⟩ :=
    runSteps_took limit (opened_ok content flags mode) ops
  refine ⟨final, hrun, ?_, fun hmode hok => ?_, hwhole⟩
  · have hlanded := htook.landed
    rw [landed_opened] at hlanded
    exact congrArg OpenFile.delivered hlanded
  · refine hline hmode hok ?_
    rw [pending_opened]
    exact List.not_mem_nil

end BufferedFile

end BekOS
