import BekOS.Lib.Bitmap
import Mathlib.Algebra.Order.Group.Int

/-!
# The mouse

The driver adds up what a mouse reports, and the window server asks for the sums from time to time.
Each answer has a number of eight bits, one more than that of the answer before it, and the server
takes an answer for an old one if its number is the last that it has seen.  The motions are numbers
without a bound here, which they are not in the driver.
-/

namespace BekOS

/-- `protocols::mouse::Report` -/
structure MouseReport where
  buttons : Byte
  deltaX : ℤ
  deltaY : ℤ
  sequenceNumber : Byte
deriving DecidableEq, Repr

/-- `window::Vec` -/
structure WindowVec where
  x : ℤ
  y : ℤ
deriving DecidableEq, Repr

/-- `window::Rect` -/
structure MouseBounds where
  origin : WindowVec
  size : WindowVec
deriving DecidableEq, Repr

/-- `Rect::right` -/
def MouseBounds.right (bounds : MouseBounds) : ℤ :=
  bounds.origin.x + bounds.size.x

/-- `Rect::bottom` -/
def MouseBounds.bottom (bounds : MouseBounds) : ℤ :=
  bounds.origin.y + bounds.size.y

/-- The location kept in the bounds. -/
def MouseBounds.clamp (bounds : MouseBounds) (location : WindowVec) : WindowVec where
  x := max bounds.origin.x (min bounds.right location.x)
  y := max bounds.origin.y (min bounds.bottom location.y)

/-! ## The driver and the server -/

/-- `m_report` of the driver, and `MouseDevice` of the server. -/
structure MouseState where
  report : MouseReport
  lastReport : MouseReport
  location : WindowVec
deriving DecidableEq, Repr

/-- Both at the start. -/
def MouseState.start : MouseState where
  report := ⟨0, 0, 0, 0⟩
  lastReport := ⟨0, 0, 0, 0⟩
  location := ⟨0, 0⟩

/-- What happens. -/
inductive MouseEvent
  /-- `HidMouse::on_report`, with the bytes of the report. -/
  | report (buttons x y : Byte)
  /-- `MouseDevice::update` of the server, whose message comes back. -/
  | poll
deriving DecidableEq, Repr

/-- `update_report` -/
def MouseReport.update (report : MouseReport) (buttons : Byte) (deltaX deltaY : ℤ) : MouseReport :=
  { report with
    buttons := buttons
    deltaX := report.deltaX + deltaX
    deltaY := report.deltaY + deltaY }

/-- `fetch_report`: the report that is left. -/
def MouseReport.fetched (report : MouseReport) : MouseReport where
  buttons := report.buttons
  deltaX := 0
  deltaY := 0
  sequenceNumber := report.sequenceNumber + 1

/-- `MouseDevice::update` of the server, with the report in the message. -/
def MouseState.receive (state : MouseState) (bounds : MouseBounds) (report : MouseReport) :
    MouseState :=
  if report.sequenceNumber ≠ state.lastReport.sequenceNumber then
    { state with
      lastReport := report
      location := bounds.clamp
        ⟨state.location.x + report.deltaX, state.location.y + report.deltaY⟩ }
  else state

/-- One event. -/
def MouseState.step (bounds : MouseBounds) (state : MouseState) : MouseEvent → MouseState
  | .report buttons x y =>
      { state with report := state.report.update buttons x.toInt y.toInt }
  | .poll =>
      { state with report := state.report.fetched }.receive bounds state.report

/-- Some events. -/
def runMouse (bounds : MouseBounds) (events : List MouseEvent) : MouseState :=
  events.foldl (MouseState.step bounds) .start

/-! ## The pointer -/

/-- What has been moved and pressed, and what of it the server is to know. -/
structure Pointer where
  motion : WindowVec
  buttons : Byte
  position : WindowVec
  pressed : Byte
deriving DecidableEq, Repr

/-- One event: a poll moves the pointer by all that has been moved since the one before. -/
def Pointer.step (bounds : MouseBounds) (pointer : Pointer) : MouseEvent → Pointer
  | .report buttons x y =>
      { pointer with
        motion := ⟨pointer.motion.x + x.toInt, pointer.motion.y + y.toInt⟩
        buttons := buttons }
  | .poll =>
      { motion := ⟨0, 0⟩
        buttons := pointer.buttons
        position := bounds.clamp
          ⟨pointer.position.x + pointer.motion.x, pointer.position.y + pointer.motion.y⟩
        pressed := pointer.buttons }

/-- The pointer after some events. -/
def pointerAfter (bounds : MouseBounds) (events : List MouseEvent) : Pointer :=
  events.foldl (Pointer.step bounds) ⟨⟨0, 0⟩, 0, ⟨0, 0⟩, 0⟩

/-- After each event, the server has the pointer where it is to be, and the buttons. -/
def Tracks (bounds : MouseBounds) (events : List MouseEvent) : Prop :=
  ∀ before, before <+: events →
    (runMouse bounds before).location = (pointerAfter bounds before).position ∧
      (runMouse bounds before).lastReport.buttons = (pointerAfter bounds before).pressed

/-- The motion and the buttons that the first poll finds leave the pointer where it is, and no
button pressed. -/
def FirstPollStill (bounds : MouseBounds) (events : List MouseEvent) : Prop :=
  MouseEvent.poll ∈ events →
    (pointerAfter bounds (events.takeWhile (· ≠ .poll) ++ [.poll])).position = ⟨0, 0⟩ ∧
      (pointerAfter bounds (events.takeWhile (· ≠ .poll) ++ [.poll])).pressed = 0

/-! ## From the first poll on -/

section Mouse

variable {bounds : MouseBounds} {state : MouseState} {pointer : Pointer} {event : MouseEvent}
  {events : List MouseEvent}

/-- What the driver has added up is what has been moved. -/
structure MouseState.Sums (state : MouseState) (pointer : Pointer) : Prop where
  motion : pointer.motion = ⟨state.report.deltaX, state.report.deltaY⟩
  buttons : pointer.buttons = state.report.buttons

/-- Before the first poll: the number of the next answer is the one that the server starts with. -/
structure MouseState.Unpolled (state : MouseState) (pointer : Pointer) : Prop
    extends state.Sums pointer where
  number : state.report.sequenceNumber = 0
  last : state.lastReport = ⟨0, 0, 0, 0⟩
  location : state.location = ⟨0, 0⟩
  position : pointer.position = ⟨0, 0⟩
  pressed : pointer.pressed = 0

/-- After it: the number of the next answer is another than the last. -/
structure MouseState.Polled (state : MouseState) (pointer : Pointer) : Prop
    extends state.Sums pointer where
  number : state.report.sequenceNumber = state.lastReport.sequenceNumber + 1
  position : state.location = pointer.position
  pressed : state.lastReport.buttons = pointer.pressed

theorem MouseState.Sums.step (sums : state.Sums pointer) (bounds : MouseBounds)
    (event : MouseEvent) :
    (state.step bounds event).Sums (pointer.step bounds event) := by
  obtain ⟨hmotion, hbuttons⟩ := sums
  cases event with
  | report buttons x y => exact ⟨by rw [Pointer.step, hmotion]; rfl, rfl⟩
  | poll =>
      have hreport : (state.step bounds .poll).report = state.report.fetched := by
        unfold MouseState.step MouseState.receive
        split_ifs <;> rfl
      exact ⟨by rw [hreport]; rfl, by rw [hreport]; exact hbuttons⟩

theorem MouseState.Unpolled.report (unpolled : state.Unpolled pointer) (buttons x y : Byte) :
    (state.step bounds (.report buttons x y)).Unpolled
      (pointer.step bounds (.report buttons x y)) where
  toSums := unpolled.toSums.step bounds _
  number := unpolled.number
  last := unpolled.last
  location := unpolled.location
  position := unpolled.position
  pressed := unpolled.pressed

theorem sequenceNumber_add_one_ne (number : Byte) : number + 1 ≠ number := by
  intro h
  have hone : (1 : Byte) = 0 := (BitVec.add_right_inj number).mp (h.trans (BitVec.add_zero _).symm)
  exact absurd hone (by decide)

/-- **From then on** nothing is lost and nothing is taken twice. -/
theorem MouseState.Polled.step (polled : state.Polled pointer) (event : MouseEvent) :
    (state.step bounds event).Polled (pointer.step bounds event) := by
  have sums := polled.toSums.step bounds event
  cases event with
  | report buttons x y => exact ⟨sums, polled.number, polled.position, polled.pressed⟩
  | poll =>
      have hnew : state.report.sequenceNumber ≠ state.lastReport.sequenceNumber :=
        polled.number ▸ sequenceNumber_add_one_ne _
      have hstep : state.step bounds .poll = { state with
          report := state.report.fetched
          lastReport := state.report
          location := bounds.clamp ⟨state.location.x + state.report.deltaX,
            state.location.y + state.report.deltaY⟩ } := if_pos hnew
      rw [hstep] at sums ⊢
      refine ⟨sums, rfl, ?_, polled.buttons.symm⟩
      show bounds.clamp _ = bounds.clamp _
      rw [polled.position, polled.motion]

/-- **The first poll** changes nothing at the server. -/
theorem MouseState.Unpolled.poll (unpolled : state.Unpolled pointer) (bounds : MouseBounds) :
    (state.step bounds .poll).location = ⟨0, 0⟩ ∧
      (state.step bounds .poll).lastReport.buttons = 0 ∧
      ((pointer.step bounds .poll).position = ⟨0, 0⟩ → (pointer.step bounds .poll).pressed = 0 →
        (state.step bounds .poll).Polled (pointer.step bounds .poll)) := by
  have sums := unpolled.toSums.step bounds .poll
  have hold : state.step bounds .poll = { state with report := state.report.fetched } := by
    refine if_neg (not_not.mpr ?_)
    rw [unpolled.number, unpolled.last]
  rw [hold] at sums ⊢
  refine ⟨unpolled.location, congrArg MouseReport.buttons unpolled.last, fun hposition hpressed =>
    ⟨sums, ?_, unpolled.location.trans hposition.symm, ?_⟩⟩
  · show state.report.sequenceNumber + 1 = state.lastReport.sequenceNumber + 1
    rw [unpolled.number, unpolled.last]
  · exact (congrArg MouseReport.buttons unpolled.last).trans hpressed.symm

theorem unpolled_of_forall (bounds : MouseBounds) (hno : MouseEvent.poll ∉ events) :
    (runMouse bounds events).Unpolled (pointerAfter bounds events) := by
  induction events using List.reverseRecOn with
  | nil => exact ⟨⟨rfl, rfl⟩, rfl, rfl, rfl, rfl, rfl⟩
  | append_singleton events event ih =>
      rw [List.mem_append, not_or, List.mem_singleton] at hno
      rw [runMouse, pointerAfter, List.foldl_concat, List.foldl_concat]
      cases event with
      | report buttons x y => exact (ih hno.1).report buttons x y
      | poll => exact absurd rfl hno.2

/-- **And from a poll on** at which both agree. -/
theorem MouseState.Polled.run (polled : state.Polled pointer) (bounds : MouseBounds)
    (events : List MouseEvent) :
    (events.foldl (MouseState.step bounds) state).Polled
      (events.foldl (Pointer.step bounds) pointer) := by
  induction events generalizing state pointer with
  | nil => exact polled
  | cons event events ih => exact ih (polled.step event)

theorem poll_not_mem_takeWhile (events : List MouseEvent) :
    MouseEvent.poll ∉ events.takeWhile (· ≠ .poll) := by
  intro hmem
  have hne := List.all_eq_true.mp (@List.all_takeWhile _ (· ≠ .poll) events) _ hmem
  exact of_decide_eq_true hne rfl

theorem upToPoll_append (hmem : MouseEvent.poll ∈ events) :
    events.takeWhile (· ≠ .poll) ++ [.poll] <+: events := by
  induction events with
  | nil => cases hmem
  | cons event events ih =>
      cases event with
      | poll => exact ⟨events, rfl⟩
      | report buttons x y =>
          obtain ⟨rest, hrest⟩ := ih (by simpa using hmem)
          exact ⟨rest, congrArg (MouseEvent.report buttons x y :: ·) hrest⟩

theorem takeWhile_append_of_poll (hmem : MouseEvent.poll ∈ events) (more : List MouseEvent) :
    (events ++ more).takeWhile (· ≠ .poll) = events.takeWhile (· ≠ .poll) := by
  induction events with
  | nil => cases hmem
  | cons event events ih =>
      cases event with
      | poll => rfl
      | report buttons x y =>
          exact congrArg (MouseEvent.report buttons x y :: ·) (ih (by simpa using hmem))

end Mouse

/-- **The server has the pointer where it is to be after each event** if and only if the first poll
finds nothing that would move it, and no button pressed. -/
theorem tracks_iff (bounds : MouseBounds) (events : List MouseEvent) :
    Tracks bounds events ↔ FirstPollStill bounds events := by
  have hpoll := (unpolled_of_forall bounds (poll_not_mem_takeWhile events)).poll bounds
  have hrun : (runMouse bounds (events.takeWhile (· ≠ .poll))).step bounds .poll =
      runMouse bounds (events.takeWhile (· ≠ .poll) ++ [.poll]) := (List.foldl_concat ..).symm
  have hpointer : (pointerAfter bounds (events.takeWhile (· ≠ .poll))).step bounds .poll =
      pointerAfter bounds (events.takeWhile (· ≠ .poll) ++ [.poll]) := (List.foldl_concat ..).symm
  rw [hrun, hpointer] at hpoll
  obtain ⟨hlocation, hbuttons, hpolled⟩ := hpoll
  constructor
  · intro htracks hmem
    obtain ⟨hposition, hpressed⟩ := htracks _ (upToPoll_append hmem)
    exact ⟨hposition.symm.trans hlocation, hpressed.symm.trans hbuttons⟩
  · rintro hstill before ⟨more, rfl⟩
    by_cases hmem : MouseEvent.poll ∈ before
    · -- the first poll of the whole run is in what came before, and the rest keeps both together
      obtain ⟨hposition, hpressed⟩ := hstill (List.mem_append_left more hmem)
      have polled := hpolled hposition hpressed
      rw [takeWhile_append_of_poll hmem] at polled
      obtain ⟨rest, hrest⟩ := upToPoll_append hmem
      have hafter := polled.run bounds rest
      rw [runMouse, pointerAfter, ← List.foldl_append, ← List.foldl_append, hrest] at hafter
      exact ⟨hafter.position, hafter.pressed⟩
    · have unpolled := unpolled_of_forall bounds hmem
      exact ⟨unpolled.location.trans unpolled.position.symm,
        (congrArg MouseReport.buttons unpolled.last).trans unpolled.pressed.symm⟩

/-- A mouse that is moved to the right after the first poll, and lies still before. -/
theorem tracks_afterPoll :
    FirstPollStill ⟨⟨0, 0⟩, ⟨640, 480⟩⟩ [.poll, .report 1 5 0, .poll] ∧
      Tracks ⟨⟨0, 0⟩, ⟨640, 480⟩⟩ [.poll, .report 1 5 0, .poll] :=
  have hstill : FirstPollStill ⟨⟨0, 0⟩, ⟨640, 480⟩⟩ [.poll, .report 1 5 0, .poll] :=
    fun _ => by decide
  ⟨hstill, (tracks_iff _ _).mpr hstill⟩

/-- A mouse that is moved to the right by five before the first poll: the answer has the number
zero, which the server takes for the last that it has seen. -/
theorem tracks_fails :
    ¬ Tracks ⟨⟨0, 0⟩, ⟨640, 480⟩⟩ [.report 0 5 0, .poll] ∧
      (runMouse ⟨⟨0, 0⟩, ⟨640, 480⟩⟩ [.report 0 5 0, .poll]).location = ⟨0, 0⟩ ∧
      (pointerAfter ⟨⟨0, 0⟩, ⟨640, 480⟩⟩ [.report 0 5 0, .poll]).position = ⟨5, 0⟩ := by
  refine ⟨fun htracks => ?_, by decide, by decide⟩
  exact absurd (htracks _ List.prefix_rfl).1 (by decide)

end BekOS
