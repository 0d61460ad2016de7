import BekOS.Lib.LittleEndian
import BekOS.Libwindow.Gfx

/-!
# Painting a border

`Renderer::paint_border` goes over the rows at the top, in the middle and at the bottom with one
row cursor.  Its first check asks for a border that is no thinner than the rectangle is wide and
high, so that of the rectangles that a border fits into only the empty ones pass.
-/

namespace BekOS.Libwindow

/-- `Colour` -/
abbrev Colour := BitVec 32

/-- `RenderContext`, with the region to paint in. -/
structure Canvas extends RenderContext where
  confinement : Rect

section PaintBorder

variable (canvas : Canvas) (c : Colour)

/-- `row_start[x] = c`, where the row starts so far into the framebuffer. -/
def setPixel (rowStart : ℕ) (x : I32) (frame : Memory Byte) : Except Fault (Memory Byte) :=
  let place := (rowStart : ℤ) + pixelBytes * x.toInt
  if 0 ≤ place ∧ place + pixelBytes ≤ canvas.bufferSize then
    .ok (leWrite frame place.toNat c.toNat pixelBytes)
  else .error .outOfBounds

/-- A loop over the pixels of a row, with at most so many left. -/
def paintSpan (rowStart : ℕ) (limit : I32) :
    ℕ → I32 → Memory Byte → Except Fault (Memory Byte)
  | 0, _, frame => .ok frame
  | left + 1, x, frame =>
      if x.slt limit then do
        let frame ← setPixel canvas c rowStart x frame
        paintSpan rowStart limit left (x + 1) frame
      else .ok frame

/-- The pixels of a row from one place to another. -/
def paintRow (y first limit : I32) (frame : Memory Byte) : Except Fault (Memory Byte) :=
  paintSpan canvas c (pixelAt canvas.byteStride y 0) limit (limit.toInt - first.toInt).toNat first
    frame

/-- A loop over rows, with at most so many left: where the cursor stops, and the frame. -/
def paintLines (row : I32 → Memory Byte → Except Fault (Memory Byte)) (limit : I32) :
    ℕ → I32 → Memory Byte → Except Fault (I32 × Memory Byte)
  | 0, y, frame => .ok (y, frame)
  | left + 1, y, frame =>
      if y.slt limit then do
        let frame ← row y frame
        paintLines row limit left (y + 1) frame
      else .ok (y, frame)

/-- `paint_border`, of a renderer with this reference region. -/
def paintBorder (referenceRegion location : Rect) (thickness : BitVec 32) (frame : Memory Byte) :
    Except Fault (Memory Byte) := do
  verify (location.size.y.toInt ≤ thickness.toInt ∧ location.size.x.toInt ≤ thickness.toInt)
  let location : Rect := ⟨location.origin.add referenceRegion.origin, location.size⟩
  verify (location.isWithin referenceRegion)
  let location := location.intersection canvas.confinement
  verify location.isPositive
  let x := location.origin.x
  let y := location.origin.y
  let right := x + location.size.x
  let (y, frame) ← paintLines (fun y => paintRow canvas c y x right) (y + thickness)
    ((y + thickness).toInt - y.toInt).toNat y frame
  let inner := location.origin.y + location.size.y - thickness
  let (y, frame) ← paintLines
    (fun y frame => do
      let frame ← paintRow canvas c y x (x + thickness) frame
      paintRow canvas c y (right - thickness) right frame)
    inner (inner.toInt - y.toInt).toNat y frame
  let bottom := location.origin.y + location.size.y
  let (_, frame) ← paintLines (fun y => paintRow canvas c y x right) bottom
    (bottom.toInt - y.toInt).toNat y frame
  return frame

end PaintBorder

/-- The pixel is in the rectangle, and not farther than this from one of its edges. -/
def OnBorder (location : Rect) (thickness x y : ℤ) : Prop :=
  (location.origin.x.toInt ≤ x ∧ x < location.origin.x.toInt + location.size.x.toInt) ∧
    (location.origin.y.toInt ≤ y ∧ y < location.origin.y.toInt + location.size.y.toInt) ∧
    (x < location.origin.x.toInt + thickness ∨
      location.origin.x.toInt + location.size.x.toInt - thickness ≤ x ∨
      y < location.origin.y.toInt + thickness ∨
      location.origin.y.toInt + location.size.y.toInt - thickness ≤ y)
deriving Decidable

/-- The pixel of a frame. -/
def pixel (canvas : Canvas) (frame : Memory Byte) (x y : BitVec 32) : ℕ :=
  leRead frame (pixelAt canvas.byteStride x y) pixelBytes

/-- The pixels of the border, and no others, have the colour. -/
def HasBorder (canvas : Canvas) (c : Colour) (location : Rect) (thickness : BitVec 32)
    (frame frame' : Memory Byte) : Prop :=
  ∀ x y : BitVec 32, x.toNat < canvas.pixelWidth.toNat → y.toNat < canvas.pixelHeight.toNat →
    pixel canvas frame' x y =
      if OnBorder location thickness.toNat x.toNat y.toNat then c.toNat else pixel canvas frame x y

/-- A rectangle of the renderer that is inside of the region and of the confinement, with a border
that is not thicker than half of it. -/
structure Framed (canvas : Canvas) (referenceRegion location : Rect) (thickness : BitVec 32) :
    Prop where
  inside : location.isWithin referenceRegion = true
  confined : location.isWithin canvas.confinement = true
  positive : location.isPositive = true
  horizontal : 2 * (thickness.toNat : ℤ) ≤ location.size.x.toInt
  vertical : 2 * (thickness.toNat : ℤ) ≤ location.size.y.toInt

/-- The place of a rectangle of a renderer. -/
def placed (referenceRegion location : Rect) : Rect :=
  ⟨location.origin.add referenceRegion.origin, location.size⟩

section Empty

variable {canvas : Canvas} {c : Colour} {referenceRegion location : Rect} {thickness : BitVec 32}
  {frame : Memory Byte}

theorem Framed.toInt_thickness (h : Framed canvas referenceRegion location thickness) :
    thickness.toInt = thickness.toNat := by
  have hlt := (toInt_bounds location.size.x).2
  have hhalf := h.horizontal
  exact BitVec.toInt_eq_toNat_of_lt (by omega)

theorem hasBorder_empty (hwidth : location.size.x = 0) :
    HasBorder canvas c location thickness frame frame := by
  intro x y _ _
  have hzero : location.size.x.toInt = 0 := by
    rw [hwidth]
    rfl
  refine (if_neg fun hborder => ?_).symm
  have hcolumn := hborder.1
  rw [hzero] at hcolumn
  omega

theorem paintLines_done {row : I32 → Memory Byte → Except Fault (Memory Byte)} {y : I32} :
    paintLines row y (y.toInt - y.toInt).toNat y frame = .ok (y, frame) := by
  rw [sub_self]
  rfl

theorem paintBorder_empty (h : Framed canvas referenceRegion (placed referenceRegion location) 0)
    (hwidth : location.size.x = 0) (hheight : location.size.y = 0) :
    paintBorder canvas c referenceRegion location 0 frame = .ok frame := by
  have hzero : (0 : I32).toInt = 0 := rfl
  have hsame : (placed referenceRegion location).intersection canvas.confinement =
      placed referenceRegion location := of_decide_eq_true h.confined
  have hpositive := h.positive
  have hinside := h.inside
  unfold placed at hsame hpositive hinside
  have hthin :
      location.size.y.toInt ≤ (0 : I32).toInt ∧ location.size.x.toInt ≤ (0 : I32).toInt := by
    rw [hwidth, hheight]
    exact ⟨le_refl _, le_refl _⟩
  unfold paintBorder
  dsimp only
  rw [verify_of hthin, ok_bind, verify_of hinside, ok_bind, hsame, verify_of hpositive, ok_bind]
  rw [hheight, add_zero, paintLines_done, ok_bind]
  dsimp only
  rw [show (location.origin.add referenceRegion.origin).y - 0 =
    (location.origin.add referenceRegion.origin).y from BitVec.sub_zero _, paintLines_done, ok_bind]
  dsimp only
  rw [paintLines_done, ok_bind]
  rfl

/-- **`paint_border`** passes its checks and paints the border exactly if the rectangle is empty in
both directions. -/
theorem paintBorder_hasBorder_iff
    (h : Framed canvas referenceRegion (placed referenceRegion location) thickness) :
    (∃ frame', paintBorder canvas c referenceRegion location thickness frame = .ok frame' ∧
        HasBorder canvas c (placed referenceRegion location) thickness frame frame') ↔
      location.size.x = 0 ∧ location.size.y = 0 := by
  have hthickness := h.toInt_thickness
  have hhorizontal : 2 * (thickness.toNat : ℤ) ≤ location.size.x.toInt := h.horizontal
  have hvertical : 2 * (thickness.toNat : ℤ) ≤ location.size.y.toInt := h.vertical
  constructor
  · rintro ⟨frame', hpainted, -⟩
    rw [paintBorder, bind_eq_ok] at hpainted
    obtain ⟨_, hverified, -⟩ := hpainted
    obtain ⟨hheight, hwidth⟩ := verify_eq_ok.mp hverified
    have hzero : (0 : I32).toInt = 0 := rfl
    rw [← BitVec.toInt_inj, ← BitVec.toInt_inj (x := location.size.y), hzero]
    omega
  · rintro ⟨hwidth, hheight⟩
    have hnone : thickness = 0 := BitVec.eq_of_toNat_eq (by
      rw [hwidth] at hhorizontal
      have hzero : (0 : I32).toInt = 0 := rfl
      show thickness.toNat = 0
      omega)
    subst hnone
    exact ⟨frame, paintBorder_empty h hwidth hheight, hasBorder_empty hwidth⟩

/-- A rectangle with no pixels in the middle of a screen of eight. -/
theorem paintBorder_hasBorder_iff_empty :
    Framed ⟨⟨256, 32, 8, 8⟩, ⟨⟨0, 0⟩, ⟨8, 8⟩⟩⟩ ⟨⟨0, 0⟩, ⟨8, 8⟩⟩
        (placed ⟨⟨0, 0⟩, ⟨8, 8⟩⟩ ⟨⟨4, 4⟩, ⟨0, 0⟩⟩) 0 ∧
      ((∃ frame', paintBorder ⟨⟨256, 32, 8, 8⟩, ⟨⟨0, 0⟩, ⟨8, 8⟩⟩⟩ 7 ⟨⟨0, 0⟩, ⟨8, 8⟩⟩
            ⟨⟨4, 4⟩, ⟨0, 0⟩⟩ 0 (fun _ => 0) = .ok frame' ∧
          HasBorder ⟨⟨256, 32, 8, 8⟩, ⟨⟨0, 0⟩, ⟨8, 8⟩⟩⟩ 7
            (placed ⟨⟨0, 0⟩, ⟨8, 8⟩⟩ ⟨⟨4, 4⟩, ⟨0, 0⟩⟩) 0 (fun _ => 0) frame') ↔
        (0 : I32) = 0 ∧ (0 : I32) = 0) := by
  have hframed : Framed ⟨⟨256, 32, 8, 8⟩, ⟨⟨0, 0⟩, ⟨8, 8⟩⟩⟩ ⟨⟨0, 0⟩, ⟨8, 8⟩⟩
      (placed ⟨⟨0, 0⟩, ⟨8, 8⟩⟩ ⟨⟨4, 4⟩, ⟨0, 0⟩⟩) 0 :=
    ⟨by decide, by decide, by decide, by decide, by decide⟩
  exact ⟨hframed, paintBorder_hasBorder_iff hframed⟩

/-- A border of one pixel around a square of four. -/
theorem paintBorder_fails : ¬ ∀ (canvas : Canvas) (c : Colour) (referenceRegion location : Rect)
    (thickness : BitVec 32) (frame : Memory Byte),
    Framed canvas referenceRegion (placed referenceRegion location) thickness →
      ∃ frame', paintBorder canvas c referenceRegion location thickness frame = .ok frame' ∧
        HasBorder canvas c (placed referenceRegion location) thickness frame frame' := by
  intro h
  obtain ⟨frame', hpainted, -⟩ := h ⟨⟨256, 32, 8, 8⟩, ⟨⟨0, 0⟩, ⟨8, 8⟩⟩⟩ 7 ⟨⟨0, 0⟩, ⟨8, 8⟩⟩
    ⟨⟨1, 1⟩, ⟨4, 4⟩⟩ 1 (fun _ => 0) ⟨by decide, by decide, by decide, by decide, by decide⟩
  rw [paintBorder, bind_eq_ok] at hpainted
  obtain ⟨_, hverified, -⟩ := hpainted
  exact absurd (verify_eq_ok.mp hverified) (by decide)

end Empty

end BekOS.Libwindow
