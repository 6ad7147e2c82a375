import StrawOS.Lib.Machine
import Mathlib.Data.List.FinRange

/-!
# The display server

Windows are in slots that are used again after a window is destroyed.  The server holds on
to them in many places: the stacking order, the focus, the hover, the grab, the drag, the
last click, the focus of the other workspaces and the animations.

What is drawn is left out.  The clock, the memory for pictures and what the menu, the dock
and the icons have under the pointer are read from a `View`.
-/

namespace Desktop

def titleH : Int := 36
def resizeGrip : Int := 6
def minWinW : Int := 160
def minWinH : Int := 60
def barH : Int := 32
def workspaces : Nat := 4
def snapGap : Int := 10
def snapEdge : Int := 4
def dragThreshold : Int := 6
def resizeCorner : Int := 14
def tbButtonW : Int := 24
def tbButtonH : Int := 24
def tbButtonGap : Int := 6
def animMax : Nat := 16
def closeSnapMaxAgeMs : Nat := 3000

theorem workspaces_pos : 0 < workspaces := by decide

/-- `SxRect`. -/
structure Rect where
  x : Int
  y : Int
  w : Int
  h : Int
  deriving DecidableEq

/-- `sx_rect_contains`. -/
def Rect.Contains (r : Rect) (x y : Int) : Prop := r.x ≤ x ∧ r.y ≤ y ∧ x < r.x + r.w ∧ y < r.y + r.h

instance (r : Rect) (x y : Int) : Decidable (r.Contains x y) :=
  inferInstanceAs (Decidable (_ ∧ _ ∧ _ ∧ _))

/-- `Client`, without its socket and the bytes it has sent. -/
structure Client where
  used : Bool
  id : UInt32

/-- `Window`.  `client` is the slot of its client, `buf` an address, and `closeSnap` says
whether a picture is kept. -/
structure Window where
  used : Bool
  id : UInt32
  client : Nat
  flags : UInt32
  x : Int
  y : Int
  w : Int
  h : Int
  buf : Nat
  bufW : Int
  bufH : Int
  bufStride : Int
  mapped : Bool
  hidden : Bool
  minimized : Bool
  maximized : Bool
  restore : Rect
  sizeDriven : Bool
  cfgPending : Bool
  workspace : Fin workspaces
  snapped : Bool
  pointerGrab : Bool
  closeSnap : Bool
  closeSnapMs : Nat
  createdOrder : Nat

/-- Memory of zeros. -/
def Window.zero : Window where
  used := false
  id := 0
  client := 0
  flags := 0
  x := 0
  y := 0
  w := 0
  h := 0
  buf := 0
  bufW := 0
  bufH := 0
  bufStride := 0
  mapped := false
  hidden := false
  minimized := false
  maximized := false
  restore := ⟨0, 0, 0, 0⟩
  sizeDriven := false
  cfgPending := false
  workspace := ⟨0, workspaces_pos⟩
  snapped := false
  pointerGrab := false
  closeSnap := false
  closeSnapMs := 0
  createdOrder := 0

/-- `Anim`.  `px` says whether it has a picture. -/
structure Anim where
  active : Bool
  owner : Option Nat
  inPlace : Bool
  px : Bool

/-- `EDGE_L`, `EDGE_R`, `EDGE_T` and `EDGE_B`. -/
structure Edges where
  l : Bool
  r : Bool
  t : Bool
  b : Bool
  deriving DecidableEq

inductive HitZone
  | none
  | client
  | title
  | close
  | maximize
  | minimize
  | resize (edges : Edges)
  deriving DecidableEq

inductive DragMode
  | none
  | move
  | resize
  | client
  | titleButton
  deriving DecidableEq

inductive SnapKind
  | none
  | left
  | right
  | max
  deriving DecidableEq

/-- The kinds of events that are sent for a window. -/
inductive Evt
  | focusIn
  | focusOut
  | configure
  | bufferRelease
  | close
  | mouseEnter
  | mouseLeave
  | mouseMove
  | mouseDown
  | mouseUp
  | mouseWheel
  | mouseRelative
  | keyDown
  | keyUp

/-- An event that was written to the socket of a client. -/
structure Sent where
  client : Nat
  window : UInt32
  type : Evt

/-- `S`, without what is only drawn, and the animations.  The stacking order is the list
of the first `zcount` entries of `zorder`, from the bottom.  `creations` counts the windows
so far, and `sent` lists the events. -/
structure Server where
  width : Int
  height : Int
  clients : Nat → Client
  clientCap : Nat
  windows : Nat → Window
  windowCap : Nat
  zorder : List Nat
  zorderSize : Nat
  nextWindowId : UInt32
  nextClientId : UInt32
  orderCounter : Nat
  cascade : Nat
  focused : Option Nat
  mx : Int
  my : Int
  buttons : UInt8
  hoverWin : Option Nat
  grabWin : Option Nat
  hoverZone : HitZone
  hoverFrameWin : Option Nat
  drag : DragMode
  dragWin : Option Nat
  dragZone : HitZone
  dragStartMx : Int
  dragStartMy : Int
  dragStartRect : Rect
  dragOrigRect : Rect
  dragDetach : Bool
  snapActive : Bool
  snapRect : Rect
  snapKind : SnapKind
  workspace : Fin workspaces
  wsFocus : Fin workspaces → Option Nat
  lastClickMs : Nat
  lastClickX : Int
  lastClickY : Int
  lastClickWin : Option Nat
  mods : UInt32
  capsLock : Bool
  superAlone : Bool
  menuOpen : Bool
  animations : Bool
  pointerSpeed : Int
  mouseFracX : Int
  mouseFracY : Int
  anims : Fin animMax → Anim
  creations : Nat
  sent : List Sent

/-- What is read in a step besides the state of the server: the clock, whether there is
memory for a picture of a window, whether nothing covers the window on the screen, whether
the picture kept for closing has the size of the frame, what the menu, the dock and the
icons have at the pointer, the apps of the windows, and where a window is put that leaves
its place while it is dragged. -/
structure View where
  now : Nat
  memory : Server → Nat → Bool
  uncovered : Server → Nat → Bool
  closeSnapFits : Server → Nat → Bool
  overMenu : Server → Bool
  menuHit : Server → Option Nat
  menuSel : Server → Nat
  menuCount : Server → Nat
  overDock : Server → Bool
  dockHit : Server → Option Nat
  appCount : Nat
  appForWindow : Server → Nat → Option Nat
  detachX : Server → Nat → Int

namespace Server

variable (s : Server)

/-- A field of a window is written. -/
def write (w : Nat) (f : Window → Window) : Server :=
  { s with windows := Function.update s.windows w (f (s.windows w)) }

def sendEvent (w : Nat) (type : Evt) : Server :=
  { s with sent := s.sent ++ [⟨(s.windows w).client, (s.windows w).id, type⟩] }

end Server

/-! ## Rectangles and zones -/

/-- `SX_WINDOW_RESIZABLE`. -/
def Window.Resizable (w : Window) : Prop := w.flags &&& 1 ≠ 0

instance (w : Window) : Decidable w.Resizable := inferInstanceAs (Decidable (_ ≠ _))

/-- `window_has_frame`. -/
def Window.HasFrame (w : Window) : Prop := w.flags &&& 2 = 0

instance (w : Window) : Decidable w.HasFrame := inferInstanceAs (Decidable (_ = _))

def windowClientRect (w : Window) : Rect := ⟨w.x, w.y, w.w, w.h⟩

def windowFrameRect (w : Window) : Rect :=
  if w.HasFrame then ⟨w.x - 1, w.y - titleH, w.w + 2, w.h + titleH + 1⟩ else windowClientRect w

def Server.WindowVisible (s : Server) (w : Nat) : Prop :=
  (s.windows w).used = true ∧ (s.windows w).mapped = true ∧ (s.windows w).hidden = false ∧
    (s.windows w).minimized = false ∧ (s.windows w).workspace = s.workspace

instance (s : Server) (w : Nat) : Decidable (s.WindowVisible w) :=
  inferInstanceAs (Decidable (_ ∧ _ ∧ _ ∧ _ ∧ _))

def pointerGrabber (s : Server) : Option Nat :=
  match s.focused with
  | none => none
  | some w =>
    if s.WindowVisible w ∧ (s.windows w).pointerGrab = true ∧ s.menuOpen = false ∧ s.drag = .none then some w
    else none

def titlebarButtonRect (w : Window) (zone : HitZone) : Rect :=
  let f := windowFrameRect w
  let button (index : Int) : Rect :=
    ⟨f.x + f.w - 10 - (index + 1) * tbButtonW - index * tbButtonGap, f.y + (titleH - tbButtonH) / 2,
      tbButtonW, tbButtonH⟩
  match zone with
  | .close => button 0
  | .maximize => if w.Resizable then button 1 else ⟨0, 0, 0, 0⟩
  | .minimize => button (if w.Resizable then 2 else 1)
  | _ => ⟨0, 0, 0, 0⟩

/-- The edges of a frame near a point, in `window_hit`. -/
def frameEdges (f : Rect) (x y : Int) : Edges :=
  let right := f.x + f.w
  let bottom := f.y + f.h
  let inX := f.x - resizeGrip ≤ x ∧ x < right + resizeGrip
  let inY := f.y - resizeGrip ≤ y ∧ y < bottom + resizeGrip
  let l : Bool := decide (inY ∧ f.x - resizeGrip ≤ x ∧ x < f.x + 3)
  let r : Bool := decide (inY ∧ right - 3 ≤ x ∧ x < right + resizeGrip)
  let t : Bool := decide (inX ∧ f.y - resizeGrip ≤ y ∧ y < f.y + 3)
  let b : Bool := decide (inX ∧ bottom - 3 ≤ y ∧ y < bottom + resizeGrip)
  -- Near a corner both edges are grabbed.
  let l' := l || ((t || b) && decide (x < f.x + resizeCorner))
  let r' := r || ((t || b) && decide (right - resizeCorner ≤ x))
  let t' := t || ((l' || r') && decide (y < f.y + resizeCorner))
  let b' := b || ((l' || r') && decide (bottom - resizeCorner ≤ y))
  ⟨l', r', t', b'⟩

def noEdges : Edges := ⟨false, false, false, false⟩

def windowHit (w : Window) (x y : Int) : HitZone :=
  let f := windowFrameRect w
  let edges := if w.Resizable ∧ w.maximized = false ∧ w.HasFrame then frameEdges f x y else noEdges
  if edges ≠ noEdges then .resize edges
  else if (windowClientRect w).Contains x y then .client
  else if ¬ f.Contains x y then .none
  else if ¬ w.HasFrame then .client
  else if y < f.y + titleH then
    if (titlebarButtonRect w .close).Contains x y then .close
    else if (titlebarButtonRect w .maximize).Contains x y then .maximize
    else if (titlebarButtonRect w .minimize).Contains x y then .minimize
    else .title
  else .title

def hitTest (s : Server) (x y : Int) : Option Nat × HitZone :=
  match s.zorder.reverse.find? fun w =>
      decide (s.WindowVisible w) && decide (windowHit (s.windows w) x y ≠ .none) with
  | some w => (some w, windowHit (s.windows w) x y)
  | none => (none, .none)

def topmostVisible (s : Server) (except : Option Nat) : Option Nat :=
  s.zorder.reverse.find? fun w =>
    decide (some w ≠ except) && decide (s.WindowVisible w) && decide (s.windows w).HasFrame

end Desktop
