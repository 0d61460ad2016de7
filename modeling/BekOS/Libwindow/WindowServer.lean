import BekOS.Lib.PartialRun
import BekOS.Libwindow.Gfx

/-!
# The window server

Each client has its own surfaces and windows, and the server puts them on the screen together.  A
window that shows a surface is painted with each blit.  A blit that would paint what is not on the
screen, or read behind the end of a buffer, stops the server for every client.
-/

namespace BekOS.Libwindow

open PartialRun

/-! ## The server -/

/-- A surface, under the id that the client gave it. -/
structure Surface where
  id : BitVec 32
  bitmap : OwningBitmap
deriving DecidableEq, Repr

/-- `Window` -/
structure Window where
  id : BitVec 32
  currentSurfaceId : Option (BitVec 32)
  placement : Rect
deriving DecidableEq, Repr

/-- `WindowServerConnection` -/
structure Connection where
  surfaces : List Surface
  windows : List Window
deriving DecidableEq, Repr

/-- What a client asks for. -/
inductive Message where
  | createSurface (id : BitVec 32) (region : OwningBitmap)
  | createWindow (id : BitVec 32) (requestedSize : Vec)
  | flipWindow (windowId surfaceId : BitVec 32)
  | beginWindowOperation (operation : BitVec 32)
deriving DecidableEq, Repr

/-- What is painted for each of a list, one after the other. -/
def paintAll {α : Type} (paint : α → Except Fault (List Copied)) :
    List α → Except Fault (List Copied)
  | [] => .ok []
  | x :: rest => do
      let rows ← paint x
      let more ← paintAll paint rest
      return rows ++ more

namespace Connection

/-- `on_create_surface` -/
def onCreateSurface (connection : Connection) (id : BitVec 32) (region : OwningBitmap) :
    Connection :=
  if ∃ surf ∈ connection.surfaces, surf.id = id then connection
  else { connection with surfaces := connection.surfaces ++ [⟨id, region⟩] }

/-- `on_create_window`.  The coordinates that the next window starts at are those of the server. -/
def onCreateWindow (connection : Connection) (startingCoords : I32) (id : BitVec 32)
    (requestedSize : Vec) : Connection × I32 :=
  if ∃ win ∈ connection.windows, win.id = id then (connection, startingCoords)
  else
    ({ connection with
        windows := connection.windows ++
          [⟨id, none, ⟨⟨startingCoords, startingCoords⟩, requestedSize⟩⟩] },
      startingCoords + 50)

/-- The inner loop of `on_flip_window`. -/
def showSurface (surfaceId : BitVec 32) : Window → List Surface → Window
  | win, [] => win
  | win, surf :: rest =>
      if surf.id ≠ surfaceId then showSurface surfaceId win rest
      else
        showSurface surfaceId
          { win with
            currentSurfaceId := some surfaceId,
            placement := { win.placement with size := ⟨surf.bitmap.width, surf.bitmap.height⟩ } }
          rest

/-- `on_flip_window` -/
def onFlipWindow (connection : Connection) (windowId surfaceId : BitVec 32) : Connection :=
  { connection with
    windows := connection.windows.map fun win =>
      if win.id ≠ windowId then win else showSurface surfaceId win connection.surfaces }

/-- What `blit` paints for a window and one of the surfaces. -/
def paintSurface (context : RenderContext) (win : Window) (surf : Surface) :
    Except Fault (List Copied) :=
  if win.currentSurfaceId = some surf.id then
    paintBitmap context surf.bitmap context.renderRect win.placement ⟨0, 0⟩
  else .ok []

/-- `blit` -/
def blit (connection : Connection) (context : RenderContext) : Except Fault (List Copied) :=
  paintAll (fun win => paintAll (paintSurface context win) connection.surfaces) connection.windows

end Connection

/-- `FramebufferDevice`: a display, and the framebuffer that the kernel mapped for it. -/
structure FramebufferDevice where
  bufferSize : ℕ
  rowStride : BitVec 16
  width : BitVec 16
  height : BitVec 16
deriving DecidableEq, Repr

/-- What the server renders to. -/
def FramebufferDevice.context (fb : FramebufferDevice) : RenderContext :=
  .create fb.bufferSize (fb.rowStride.setWidth 32) (fb.width.setWidth 32) (fb.height.setWidth 32)

/-- The server: `starting_coords`, and the connections that it accepted. -/
structure Server where
  startingCoords : I32
  connections : List Connection
deriving DecidableEq, Repr

/-- What happens in the main loop. -/
inductive Event where
  | accept
  | message (connection : ℕ) (message : Message)
  | blit
deriving DecidableEq, Repr

namespace Server

/-- The server before its first client. -/
def start : Server := ⟨50, []⟩

/-- A message from one of the clients. -/
def handle (server : Server) (i : ℕ) (message : Message) : Server :=
  match server.connections[i]? with
  | none => server
  | some connection =>
      match message with
      | .createSurface id region =>
          { server with
            connections := server.connections.set i (connection.onCreateSurface id region) }
      | .createWindow id requestedSize =>
          let created := connection.onCreateWindow server.startingCoords id requestedSize
          ⟨created.2, server.connections.set i created.1⟩
      | .flipWindow windowId surfaceId =>
          { server with
            connections := server.connections.set i (connection.onFlipWindow windowId surfaceId) }
      | .beginWindowOperation _ => server

/-- `blit` of every connection. -/
def blit (server : Server) (context : RenderContext) : Except Fault (List Copied) :=
  paintAll (fun connection => connection.blit context) server.connections

/-- One event, with what is copied to the screen.  A blit that fails stops the server. -/
def step (context : RenderContext) (server : Server) : Event → Option (Server × List Copied)
  | .accept => some ({ server with connections := server.connections ++ [⟨[], []⟩] }, [])
  | .message i message => some (server.handle i message, [])
  | .blit => (server.blit context).toOption.map fun rows => (server, rows)

end Server

/-! ## What a blit needs -/

theorem paintAll_ok_iff {α : Type} {paint : α → Except Fault (List Copied)} {xs : List α} :
    (∃ rows, paintAll paint xs = .ok rows) ↔ ∀ x ∈ xs, ∃ rows, paint x = .ok rows := by
  induction xs with
  | nil => exact iff_of_true ⟨[], rfl⟩ fun x hx => absurd hx List.not_mem_nil
  | cons x rest ih =>
      rw [List.forall_mem_cons, ← ih, paintAll]
      cases paint x with
      | error fault =>
          exact iff_of_false (by rintro ⟨rows, ⟨⟩⟩) (by rintro ⟨⟨rows, ⟨⟩⟩, -⟩)
      | ok rows =>
          rw [ok_bind]
          cases paintAll paint rest with
          | error fault =>
              exact iff_of_false (by rintro ⟨rows, ⟨⟩⟩) (by rintro ⟨-, rows, ⟨⟩⟩)
          | ok more => exact iff_of_true ⟨_, rfl⟩ ⟨⟨_, rfl⟩, ⟨_, rfl⟩⟩

/-- The blit goes through. -/
def Server.Blits (context : RenderContext) (server : Server) : Prop :=
  ∃ rows, server.blit context = .ok rows

/-- Each window that shows a surface of the client can be painted with it. -/
def Connection.Blits (context : RenderContext) (connection : Connection) : Prop :=
  ∀ win ∈ connection.windows, ∀ surf ∈ connection.surfaces, win.currentSurfaceId = some surf.id →
    ∃ rows, paintBitmap context surf.bitmap context.renderRect win.placement ⟨0, 0⟩ = .ok rows

theorem Connection.blit_ok_iff {context : RenderContext} {connection : Connection} :
    (∃ rows, connection.blit context = .ok rows) ↔ connection.Blits context := by
  rw [blit, paintAll_ok_iff]
  refine forall₂_congr fun win _ => ?_
  rw [paintAll_ok_iff]
  refine forall₂_congr fun surf _ => ?_
  unfold paintSurface
  split_ifs with hshown
  · exact (imp_iff_right hshown).symm
  · exact iff_of_true ⟨[], rfl⟩ fun h => absurd h hshown

theorem Server.blits_iff {context : RenderContext} {server : Server} :
    server.Blits context ↔ ∀ connection ∈ server.connections, connection.Blits context := by
  rw [Blits, blit, paintAll_ok_iff]
  exact forall₂_congr fun connection _ => Connection.blit_ok_iff

/-! ## What holds between the messages -/

/-- A surface is there for each window that shows one, and the window is as large as it and on the
screen. -/
structure Connection.Ok (context : RenderContext) (connection : Connection) : Prop where
  unique : ∀ surf ∈ connection.surfaces, ∀ other ∈ connection.surfaces, surf.id = other.id →
    surf = other
  shown : ∀ win ∈ connection.windows, ∀ id, win.currentSurfaceId = some id →
    ∃ surf ∈ connection.surfaces, surf.id = id ∧
      win.placement.size = ⟨surf.bitmap.width, surf.bitmap.height⟩ ∧
      Fits context surf.bitmap win.placement.origin

namespace Connection

variable {context : RenderContext} {connection : Connection}

theorem Ok.blits (hscreen : context.pixelWidth.toNat < 2 ^ 16) (h : connection.Ok context) :
    connection.Blits context := by
  intro win hwin surf hsurf hshown
  obtain ⟨other, hother, hid, hsize, hfits⟩ := h.shown win hwin surf.id hshown
  obtain rfl := h.unique other hother surf hsurf hid
  have hplacement : win.placement =
      ⟨win.placement.origin, ⟨other.bitmap.width, other.bitmap.height⟩⟩ :=
    Rect.ext rfl hsize
  rw [hplacement]
  exact (paintBitmap_ok_iff hscreen).mpr hfits

theorem ok_empty : Connection.Ok context ⟨[], []⟩ :=
  ⟨fun _ hsurf => absurd hsurf List.not_mem_nil, fun _ hwin => absurd hwin List.not_mem_nil⟩

theorem Ok.onCreateSurface (h : connection.Ok context) (id : BitVec 32) (region : OwningBitmap) :
    (connection.onCreateSurface id region).Ok context := by
  unfold Connection.onCreateSurface
  split_ifs with hold
  · exact h
  · have hnew : ∀ surf ∈ connection.surfaces, surf.id ≠ id := fun surf hsurf hid =>
      hold ⟨surf, hsurf, hid⟩
    refine ⟨?_, ?_⟩
    · intro surf hsurf other hother hid
      rcases List.mem_append.mp hsurf with hsurf | hsurf <;>
        rcases List.mem_append.mp hother with hother | hother
      · exact h.unique surf hsurf other hother hid
      · rw [List.mem_singleton.mp hother] at hid
        exact absurd hid (hnew surf hsurf)
      · rw [List.mem_singleton.mp hsurf] at hid
        exact absurd hid.symm (hnew other hother)
      · rw [List.mem_singleton.mp hsurf, List.mem_singleton.mp hother]
    · intro win hwin shownId hshown
      obtain ⟨surf, hsurf, hrest⟩ := h.shown win hwin shownId hshown
      exact ⟨surf, List.mem_append_left _ hsurf, hrest⟩

theorem Ok.onCreateWindow (h : connection.Ok context) (startingCoords : I32) (id : BitVec 32)
    (requestedSize : Vec) :
    (connection.onCreateWindow startingCoords id requestedSize).1.Ok context := by
  unfold Connection.onCreateWindow
  split_ifs
  · exact h
  · refine ⟨h.unique, fun win hwin shownId hshown => ?_⟩
    rcases List.mem_append.mp hwin with hwin | hwin
    · exact h.shown win hwin shownId hshown
    · rw [List.mem_singleton.mp hwin] at hshown
      cases hshown

theorem showSurface_cases (surfaceId : BitVec 32) (win : Window) (surfaces : List Surface) :
    (∀ surf ∈ surfaces, surf.id ≠ surfaceId) ∧ showSurface surfaceId win surfaces = win ∨
      ∃ surf ∈ surfaces, surf.id = surfaceId ∧
        showSurface surfaceId win surfaces =
          { win with
            currentSurfaceId := some surfaceId,
            placement := { win.placement with
              size := ⟨surf.bitmap.width, surf.bitmap.height⟩ } } := by
  induction surfaces generalizing win with
  | nil => exact Or.inl ⟨fun surf hsurf => absurd hsurf List.not_mem_nil, rfl⟩
  | cons surf rest ih =>
      rw [showSurface]
      split_ifs with hother
      · rcases ih win with ⟨hnone, hsame⟩ | ⟨found, hfound, hid, hshow⟩
        · exact Or.inl ⟨List.forall_mem_cons.mpr ⟨hother, hnone⟩, hsame⟩
        · exact Or.inr ⟨found, List.mem_cons_of_mem _ hfound, hid, hshow⟩
      · have hid := not_not.mp hother
        rcases ih _ with ⟨-, hsame⟩ | ⟨found, hfound, hid', hshow⟩
        · exact Or.inr ⟨surf, List.mem_cons_self, hid, hsame⟩
        · exact Or.inr ⟨found, List.mem_cons_of_mem _ hfound, hid', hshow⟩

/-- What the surface that a window is flipped to must be. -/
def FlipFits (context : RenderContext) (connection : Connection) (windowId surfaceId : BitVec 32) :
    Prop :=
  ∀ win ∈ connection.windows, win.id = windowId → ∀ surf ∈ connection.surfaces,
    surf.id = surfaceId → Fits context surf.bitmap win.placement.origin

theorem Ok.onFlipWindow (h : connection.Ok context) {windowId surfaceId : BitVec 32}
    (hfits : connection.FlipFits context windowId surfaceId) :
    (connection.onFlipWindow windowId surfaceId).Ok context := by
  refine ⟨h.unique, fun win hwin shownId hshown => ?_⟩
  obtain ⟨old, hold, rfl⟩ := List.mem_map.mp hwin
  split_ifs at hshown ⊢ with hother
  · exact h.shown old hold shownId hshown
  · rcases showSurface_cases surfaceId old connection.surfaces with
      ⟨-, hsame⟩ | ⟨surf, hsurf, hid, hshow⟩
    · rw [hsame] at hshown ⊢
      exact h.shown old hold shownId hshown
    · rw [hshow] at hshown ⊢
      exact ⟨surf, hsurf, hid.trans (Option.some_inj.mp hshown), rfl,
        hfits old hold (not_not.mp hother) surf hsurf hid⟩

theorem Ok.flipFits (h : connection.Ok context) (hscreen : context.pixelWidth.toNat < 2 ^ 16)
    {windowId surfaceId : BitVec 32}
    (hblits : (connection.onFlipWindow windowId surfaceId).Blits context) :
    connection.FlipFits context windowId surfaceId := by
  intro win hwin hid surf hsurf hsurfId
  have hflipped := List.mem_map_of_mem (f := fun win : Window =>
    if win.id ≠ windowId then win else showSurface surfaceId win connection.surfaces) hwin
  rw [if_neg (not_not.mpr hid)] at hflipped
  rcases showSurface_cases surfaceId win connection.surfaces with
    ⟨hnone, -⟩ | ⟨found, hfound, hfoundId, hshow⟩
  · exact absurd hsurfId (hnone surf hsurf)
  · obtain rfl := h.unique surf hsurf found hfound (hsurfId.trans hfoundId.symm)
    rw [hshow] at hflipped
    have hpaint := hblits _ hflipped surf hsurf (congrArg some hsurfId.symm)
    exact (paintBitmap_ok_iff hscreen).mp hpaint

end Connection

/-! ## Runs -/

namespace Server

/-- The client of a message, if it is one, flips its window to a surface that fits. -/
def FlipsFit (context : RenderContext) (server : Server) : Event → Prop
  | .message i (.flipWindow windowId surfaceId) =>
      ∀ connection, server.connections[i]? = some connection →
        connection.FlipFits context windowId surfaceId
  | _ => True

/-- Each connection is as it must be. -/
def Ok (context : RenderContext) (server : Server) : Prop :=
  ∀ connection ∈ server.connections, connection.Ok context

variable {context : RenderContext} {server : Server}

theorem Ok.blits (hscreen : context.pixelWidth.toNat < 2 ^ 16) (h : server.Ok context) :
    server.Blits context :=
  blits_iff.mpr fun connection hconnection => (h connection hconnection).blits hscreen

theorem ok_start : start.Ok context := fun _ hconnection => absurd hconnection List.not_mem_nil

theorem Ok.set (h : server.Ok context) {i : ℕ} {connection : Connection}
    (hnew : connection.Ok context) :
    ∀ other ∈ server.connections.set i connection, other.Ok context := by
  intro other hother
  rcases List.mem_or_eq_of_mem_set hother with hold | rfl
  · exact h other hold
  · exact hnew

theorem Ok.handle (h : server.Ok context) {i : ℕ} {message : Message}
    (hfits : server.FlipsFit context (.message i message)) :
    (server.handle i message).Ok context := by
  unfold Server.handle
  cases hclient : server.connections[i]? with
  | none => exact h
  | some connection =>
      have hconnection := h connection (List.mem_of_getElem? hclient)
      cases message with
      | createSurface id region => exact h.set (hconnection.onCreateSurface id region)
      | createWindow id requestedSize =>
          exact h.set (hconnection.onCreateWindow server.startingCoords id requestedSize)
      | flipWindow windowId surfaceId =>
          exact h.set (hconnection.onFlipWindow (hfits connection hclient))
      | beginWindowOperation operation => exact h

theorem Ok.step (hscreen : context.pixelWidth.toNat < 2 ^ 16) (h : server.Ok context)
    {event : Event} (hfits : server.FlipsFit context event) :
    ∃ moved, server.step context event = some moved ∧ moved.1.Ok context := by
  cases event with
  | accept =>
      refine ⟨_, rfl, fun connection hconnection => ?_⟩
      rcases List.mem_append.mp hconnection with hold | hnew
      · exact h connection hold
      · rw [List.mem_singleton.mp hnew]
        exact Connection.ok_empty
  | message i message => exact ⟨_, rfl, h.handle hfits⟩
  | blit =>
      obtain ⟨rows, hrows⟩ := h.blits hscreen
      refine ⟨(server, rows), ?_, h⟩
      rw [Server.step, hrows]
      rfl

theorem Ok.flipsFit (hscreen : context.pixelWidth.toNat < 2 ^ 16) (h : server.Ok context)
    {event : Event} {moved : Server × List Copied}
    (hstep : server.step context event = some moved) (hblits : moved.1.Blits context) :
    server.FlipsFit context event := by
  cases event with
  | accept => trivial
  | blit => trivial
  | message i message =>
      cases message with
      | createSurface id region => trivial
      | createWindow id requestedSize => trivial
      | beginWindowOperation operation => trivial
      | flipWindow windowId surfaceId =>
          intro connection hclient
          cases hstep
          have hconnection := h connection (List.mem_of_getElem? hclient)
          have hmoved : connection.onFlipWindow windowId surfaceId ∈
              (server.handle i (.flipWindow windowId surfaceId)).connections := by
            rw [Server.handle, hclient]
            exact List.mem_set (List.getElem?_eq_some_iff.mp hclient).1 _
          exact hconnection.flipFits hscreen (blits_iff.mp hblits _ hmoved)

/-- **When every blit goes through.** -/
theorem blits_iff_flips_fit (fb : FramebufferDevice) (events : List Event) :
    (∀ n, ∃ final, runSteps (step fb.context) start (events.take n) = some final ∧
        final.1.Blits fb.context) ↔
      StepsMeet (step fb.context) (FlipsFit fb.context) start events := by
  have hscreen : fb.context.pixelWidth.toNat < 2 ^ 16 := by
    have hwidth := fb.width.isLt
    rwa [← BitVec.toNat_setWidth_of_le (by decide : 16 ≤ 32)] at hwidth
  exact runSteps_good_iff (fun _ h => h.blits hscreen) (fun _ _ h hfits => h.step hscreen hfits)
    (fun _ _ _ h hstep hblits => h.flipsFit hscreen hstep hblits) ok_start

/-- A screen of 640 pixels by 480. -/
def vga : FramebufferDevice := ⟨1228800, 2560, 640, 480⟩

/-- A client with a window as large as the screen. -/
def fullScreen : List Event :=
  [.accept, .message 0 (.createSurface 0 (.createFromIpc 1228800 640 480 2560)),
    .message 0 (.createWindow 0 ⟨640, 480⟩), .message 0 (.flipWindow 0 0)]

/-- The window is put fifty pixels to the right and below the corner, where it does not fit. -/
theorem blits_fails :
    ¬∀ (fb : FramebufferDevice) (events : List Event) (n : ℕ),
      ∃ final, runSteps (step fb.context) start (events.take n) = some final ∧
        final.1.Blits fb.context := by
  intro h
  obtain ⟨final, hrun, rows, hblit⟩ := h vga fullScreen 4
  have hstops : runSteps (step vga.context) start (fullScreen.take 4 ++ [.blit]) = none := by
    decide +kernel
  have hnext : runSteps (step vga.context) final.1 [.blit] = some (final.1, [rows]) := by
    rw [runSteps_cons, step, hblit]
    rfl
  rw [runSteps_append hrun hnext] at hstops
  cases hstops

end Server

end BekOS.Libwindow
