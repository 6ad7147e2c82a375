import StrawOS.Desktop.Windows
import Mathlib

/-!
# The bar, the dock and input

Clicks and keys act on the window under the pointer or on the one with the focus, or go to
the program it belongs to.  A drag goes on until the button is released.
-/

namespace Desktop

variable (v : View)

/-! ## The menu, the bar and the dock -/

/-- `window_listed`. -/
def Window.Listed (w : Window) : Prop :=
  w.used = true ∧ w.mapped = true ∧ w.hidden = false ∧ w.HasFrame

instance (w : Window) : Decidable w.Listed := inferInstanceAs (Decidable (_ ∧ _ ∧ _ ∧ _))

/-- The listed windows with a property, the oldest first. -/
def listedWindows (s : Server) (p : Nat → Bool) : List Nat :=
  ((List.range s.windowCap).filter fun w => decide (s.windows w).Listed && p w).insertionSort
    fun a b => (s.windows a).createdOrder ≤ (s.windows b).createdOrder

def appWindows (s : Server) (app : Nat) : List Nat :=
  listedWindows s fun w => decide (v.appForWindow s w = some app)

inductive DockItem
  | app (i : Nat)
  | win (w : Nat)

def dockItems (s : Server) : List DockItem :=
  (List.range v.appCount).map .app ++
    (listedWindows s fun w => decide (v.appForWindow s w = none)).map .win

def shellActivateWindow (s : Server) (w : Nat) : Server :=
  let s := if (s.windows w).workspace ≠ s.workspace then workspaceSwitch v s (s.windows w).workspace else s
  let s := windowFocus (windowRaise s w) (some w)
  if (s.windows w).minimized then windowSetMinimized v s w false else s

/-- `shell_dock_click`, for a program with these windows. -/
def dockClickWindows (s : Server) (wins : List Nat) : Server :=
  let count := wins.length
  -- The last place of the window with the focus, when it is visible.
  let at? := (List.range count).reverse.find? fun i =>
    match wins[i]? with
    | none => false
    | some w => decide (some w = s.focused) && decide (s.WindowVisible w)
  match wins with
  | [] => s
  | first :: _ =>
    match at? with
    | some i =>
      if count = 1 then windowSetMinimized v s first true
      else shellActivateWindow v s (wins[(i + 1) % count]?.getD first)
    | none =>
      shellActivateWindow v s ((wins.find? fun w => decide ((s.windows w).workspace = s.workspace)).getD first)

def shellDockClick (s : Server) (index : Nat) : Server :=
  match (dockItems v s)[index]? with
  | none => s
  | some (.win w) => dockClickWindows v s [w]
  | some (.app i) => dockClickWindows v s (appWindows v s i)

def shellCloseMenu (s : Server) : Server := { s with menuOpen := false }

def shellToggleMenu (s : Server) : Server := { s with menuOpen := !s.menuOpen }

def shellMenuLaunch (s : Server) (index : Nat) : Server :=
  if index < v.menuCount s then shellCloseMenu s else s

def sxKeyTab : Nat := 9
def sxKeyEnter : Nat := 13
def sxKeyEscape : Nat := 27
def sxKeyUp : Nat := 256
def sxKeyDown : Nat := 257
def sxKeyLeft : Nat := 258
def sxKeyRight : Nat := 259
def sxKeyF4 : Nat := 268
def sxKeyLshift : Nat := 277
def sxKeyRshift : Nat := 278
def sxKeyLctrl : Nat := 279
def sxKeyRctrl : Nat := 280
def sxKeyLalt : Nat := 281
def sxKeyRalt : Nat := 282
def sxKeyLsuper : Nat := 283
def sxKeyRsuper : Nat := 284
def sxKeyCapsLock : Nat := 285

def sxModShift : UInt32 := 1
def sxModCtrl : UInt32 := 2
def sxModAlt : UInt32 := 4
def sxModSuper : UInt32 := 8

/-- `shell_menu_key`: whether the menu takes the key. -/
def shellMenuKey (s : Server) (key : Nat) : Server × Bool :=
  if s.menuOpen = false then (s, false)
  else if key = sxKeyEscape then (shellCloseMenu s, true)
  else if key = sxKeyEnter then (shellMenuLaunch v s (v.menuSel s), true)
  else (s, true)

def barLogoRect : Rect := ⟨8, 4, 34, barH - 8⟩

def barWsRect (i : Fin workspaces) : Rect := ⟨50 + (i.val : Int) * 30, 6, 26, barH - 12⟩

inductive BarItem
  | logo
  | ws (i : Fin workspaces)

def barHit (x y : Int) : Option BarItem :=
  if barLogoRect.Contains x y then some .logo
  else ((List.finRange workspaces).find? fun i => decide ((barWsRect i).Contains x y)).map .ws

def shellBarClick (s : Server) : BarItem → Server
  | .logo => shellToggleMenu s
  | .ws i => workspaceSwitch v s i

/-! ## Keys -/

def modifierBit (key : Nat) : UInt32 :=
  if key = sxKeyLshift ∨ key = sxKeyRshift then sxModShift
  else if key = sxKeyLctrl ∨ key = sxKeyRctrl then sxModCtrl
  else if key = sxKeyLalt ∨ key = sxKeyRalt then sxModAlt
  else if key = sxKeyLsuper ∨ key = sxKeyRsuper then sxModSuper
  else 0

def cycleWindows (s : Server) : Server :=
  match s.zorder.find? fun w =>
      (s.windows w).mapped && !(s.windows w).hidden && decide (s.windows w).HasFrame &&
        decide (some w ≠ s.focused) && decide ((s.windows w).workspace = s.workspace) with
  | none => s
  | some w => windowSetMinimized v (windowFocus (windowRaise s w) (some w)) w false

/-- The window with the focus, when it is visible and has a frame. -/
def focusedFrame (s : Server) : Option Nat :=
  match s.focused with
  | none => none
  | some w => if s.WindowVisible w ∧ (s.windows w).HasFrame then some w else none

def handleSuperKey (s : Server) (key : Nat) : Server :=
  let f := focusedFrame s
  if h : 49 ≤ key ∧ key < 49 + workspaces then
    let ws : Fin workspaces := ⟨key - 49, by omega⟩
    if s.mods &&& sxModShift ≠ 0 then windowMoveToWorkspace v s f ws else workspaceSwitch v s ws
  else if key = 113 then (match f with | none => s | some w => windowRequestClose v s w)
  else if key = sxKeyLeft then focusNeighbour s false
  else if key = sxKeyRight then focusNeighbour s true
  else if key = sxKeyUp then (match f with | none => s | some w => windowToggleMaximize v s w)
  else if key = sxKeyDown then (match f with | none => s | some w => windowSetMinimized v s w true)
  else s

/-- The flags of the keys that are held, in `handle_key`. -/
def keyFlags (s : Server) (key : Nat) (pressed : Bool) : Server :=
  let bit := modifierBit key
  { s with
    mods := if bit = 0 then s.mods else if pressed then s.mods ||| bit else s.mods &&& ~~~bit
    capsLock := if key = sxKeyCapsLock ∧ pressed = true then !s.capsLock else s.capsLock }

/-- `handle_key` for a key that the menu and the shortcuts do not take. -/
def keyToFocus (s : Server) (key : Nat) (pressed : Bool) : Server :=
  if pressed = true ∧ s.mods &&& sxModAlt ≠ 0 ∧ key = sxKeyTab then cycleWindows v s
  else if pressed = true ∧ s.mods &&& sxModAlt ≠ 0 ∧ key = sxKeyF4 then
    match s.focused with
    | none => s
    | some w => windowRequestClose v s w
  else s.sendTo s.focused (if pressed then .keyDown else .keyUp)

def handleKey (s : Server) (key : Nat) (pressed : Bool) : Server :=
  let bit := modifierBit key
  let s := keyFlags s key pressed
  if key = sxKeyLsuper ∨ key = sxKeyRsuper then
    if pressed then { s with superAlone := true } else if s.superAlone then shellToggleMenu s else s
  else
    let s := if pressed then { s with superAlone := false } else s
    if s.mods &&& sxModSuper ≠ 0 ∧ bit = 0 then
      if pressed then handleSuperKey v s (if 65 ≤ key ∧ key ≤ 90 then key + 32 else key) else s
    else
      let (s, taken) := if pressed = true ∧ bit = 0 then shellMenuKey v s key else (s, false)
      if taken then s
      else if s.menuOpen = true ∧ bit = 0 then s
      else keyToFocus v s key pressed

/-! ## The pointer -/

def clampWindowPosition (s : Server) (w : Nat) : Server :=
  s.write w fun win =>
    let top := barH + (if win.HasFrame then titleH else 0)
    let y := if win.y < top then top else win.y
    let y := if s.height - 8 < y then s.height - 8 else y
    let x := if win.x + win.w < 60 then 60 - win.w else win.x
    let x := if s.width - 60 < x then s.width - 60 else x
    { win with x := x, y := y }

/-- `handle_motion` while a window is moved. -/
def motionMove (s : Server) (w : Nat) : Server :=
  let dx := s.mx - s.dragStartMx
  let dy := s.my - s.dragStartMy
  if s.dragDetach = true ∧ dx * dx + dy * dy < dragThreshold * dragThreshold then s
  else
    let detach := s.dragDetach
    let s := if detach then dragDetach v s w else s
    let x := s.dragStartRect.x + (if detach then 0 else dx)
    let y := s.dragStartRect.y + (if detach then 0 else dy)
    let s := clampWindowPosition (s.write w fun win => { win with x := x, y := y }) w
    snapUpdate s w

/-- `handle_motion` while a window is resized. -/
def motionResize (s : Server) (w : Nat) : Server :=
  let sr := s.dragStartRect
  let edges := match s.dragZone with
    | .resize edges => edges
    | _ => noEdges
  let dx := s.mx - s.dragStartMx
  let dy := s.my - s.dragStartMy
  -- The titlebar stays below the bar.
  let dy := if edges.t = true ∧ sr.y + dy < barH + titleH then barH + titleH - sr.y else dy
  let nw := if edges.l then sr.w - dx else if edges.r then sr.w + dx else sr.w
  let nh := if edges.t then sr.h - dy else if edges.b then sr.h + dy else sr.h
  let nw := if nw < minWinW then minWinW else nw
  let nh := if nh < minWinH then minWinH else nh
  let nw := if s.width < nw then s.width else nw
  let nh := if s.height < nh then s.height else nh
  -- The opposite edge stays where it is.
  let nx := if edges.l then sr.x + sr.w - nw else sr.x
  let ny := if edges.t then sr.y + sr.h - nh else sr.y
  windowSetSize (s.write w fun win => { win with x := nx, y := ny }) w nw nh

def handleMotion (s : Server) : Server :=
  match s.drag, s.dragWin with
  | .none, _ => updateHover v s
  | _, none => s
  | .move, some w => motionMove v s w
  | .resize, some w => motionResize s w
  | .client, some w => s.sendEvent w .mouseMove
  | .titleButton, some w =>
    let hit := hitTest s s.mx s.my
    if hit.1 = some w then setFrameHover s (some w) hit.2 else setFrameHover s none .none

def isDoubleClick (s : Server) (w : Option Nat) : Server × Bool :=
  let dbl := decide (v.now - s.lastClickMs < 400 ∧ s.lastClickWin = w ∧ s.mx - s.lastClickX < 5 ∧
    s.lastClickX - s.mx < 5 ∧ s.my - s.lastClickY < 5 ∧ s.lastClickY - s.my < 5)
  ({ s with
    lastClickMs := if dbl then 0 else v.now
    lastClickX := s.mx
    lastClickY := s.my
    lastClickWin := w }, dbl)

/-- The zones `HIT_RESIZE_L` to `HIT_RESIZE_BR`. -/
def Edges.Named (e : Edges) : Prop :=
  e ≠ noEdges ∧ ¬ (e.l = true ∧ e.r = true) ∧ ¬ (e.t = true ∧ e.b = true)

instance (e : Edges) : Decidable e.Named := inferInstanceAs (Decidable (_ ∧ _ ∧ _))

/-- `handle_left_press` on a window. -/
def pressWindow (s : Server) (w : Nat) (zone : HitZone) : Server :=
  let s := if (s.windows w).HasFrame then windowFocus (windowRaise s w) (some w) else s
  match zone with
  | .client => { s with drag := .client, dragWin := some w }.sendEvent w .mouseDown
  | .title =>
    let (s, dbl) := isDoubleClick v s (some w)
    if dbl then windowToggleMaximize v s w
    else
      let win := s.windows w
      { s with
        drag := .move
        dragWin := some w
        dragStartMx := s.mx
        dragStartMy := s.my
        dragStartRect := windowClientRect win
        dragOrigRect := if win.snapped then win.restore else windowClientRect win
        dragDetach := win.maximized || win.snapped }
  | .close | .maximize | .minimize => { s with drag := .titleButton, dragWin := some w, dragZone := zone }
  | .resize edges =>
    if edges.Named then
      let s := { s with drag := .resize, dragWin := some w, dragZone := zone }
      let s := s.write w fun win => { win with snapped := false }
      { s with
        dragStartMx := s.mx
        dragStartMy := s.my
        dragStartRect := windowClientRect (s.windows w) }
    else s
  | .none => s

/-- `handle_left_press` below the menu. -/
def pressBelow (s : Server) : Server :=
  if (barRect s).Contains s.mx s.my then
    match barHit s.mx s.my with
    | none => s
    | some item => shellBarClick v s item
  else if v.overDock s then
    match v.dockHit s with
    | none => s
    | some index => shellDockClick v s index
  else
    match hitTest s s.mx s.my with
    | (none, _) => windowFocus (isDoubleClick v s none).1 none
    | (some w, zone) => pressWindow v s w zone

def handleLeftPress (s : Server) : Server :=
  if s.menuOpen = true ∧ v.overMenu s = true then
    match v.menuHit s with
    | none => s
    | some item => shellMenuLaunch v s item
  else if s.menuOpen = true ∧ ¬ barLogoRect.Contains s.mx s.my then shellCloseMenu s
  else pressBelow v s

/-- `handle_left_release` of a titlebar button. -/
def releaseButton (s : Server) (w : Nat) : Server :=
  let hit := hitTest s s.mx s.my
  if hit.1 = some w ∧ hit.2 = s.dragZone then
    match hit.2 with
    | .close => windowRequestClose v s w
    | .maximize => windowToggleMaximize v s w
    | .minimize => windowSetMinimized v s w true
    | _ => s
  else s

def handleLeftRelease (s : Server) : Server :=
  let mode := s.drag
  let w? := s.dragWin
  let s := { s with drag := .none, dragWin := none }
  let s :=
    match mode, w? with
    | .client, some w => s.sendEvent w .mouseUp
    | .move, some w => if s.snapActive then snapApply v s w else s
    | .titleButton, some w => releaseButton v s w
    | _, _ => s
  updateHover v s

def handleOtherButton (s : Server) (pressed : Bool) : Server :=
  let type : Evt := if pressed then .mouseDown else .mouseUp
  if s.drag = .client then s.sendTo s.dragWin type
  else if s.drag = .none then
    match hitTest s s.mx s.my with
    | (some w, .client) =>
      if (barRect s).Contains s.mx s.my then s
      else
        let s := if pressed = true ∧ (s.windows w).HasFrame then windowFocus (windowRaise s w) (some w) else s
        s.sendEvent w type
    | _ => s
  else s

def pointerGrabUpdate (s : Server) : Server :=
  let g := pointerGrabber s
  if g = s.grabWin then s
  else
    let s := s.sendTo s.grabWin .mouseLeave
    let s := { s with grabWin := g }
    match g with
    | some g =>
      let s := setHoverWindow s none
      { s with
        mx := (s.windows g).x + (s.windows g).w.tdiv 2
        my := (s.windows g).y + (s.windows g).h.tdiv 2 }
    | none => updateHover v s

structure MouseEvent where
  dx : Int
  dy : Int
  wheel : Int
  buttons : UInt8

def sxButtonLeft : UInt8 := 1
def sxButtonRight : UInt8 := 2
def sxButtonMiddle : UInt8 := 4

/-- The whole steps of a motion; the rest is kept for the next one. -/
def mouseSteps (s : Server) (ev : MouseEvent) : Server × Int × Int :=
  let pct := if s.pointerSpeed < 10 then 10 else if 400 < s.pointerSpeed then 400 else s.pointerSpeed
  let fx := s.mouseFracX + ev.dx * pct
  let fy := s.mouseFracY + ev.dy * pct
  let dx := fx.tdiv 100
  let dy := fy.tdiv 100
  ({ s with mouseFracX := fx - dx * 100, mouseFracY := fy - dy * 100 }, dx, dy)

def handleGrabbedMouseEvent (s : Server) (g : Nat) (ev : MouseEvent) : Server :=
  let (s, dx, dy) := mouseSteps s ev
  let s := if dx ≠ 0 ∨ dy ≠ 0 then s.sendEvent g .mouseRelative else s
  let changed := ev.buttons ^^^ s.buttons
  let s := { s with buttons := ev.buttons }
  let s := [sxButtonLeft, sxButtonRight, sxButtonMiddle].foldl (fun s button =>
    if changed &&& button ≠ 0 then
      s.sendEvent g (if ev.buttons &&& button ≠ 0 then .mouseDown else .mouseUp)
    else s) s
  if ev.wheel ≠ 0 then s.sendEvent g .mouseWheel else s

/-- A coordinate on the screen. -/
def clampPointer (n size : Int) : Int :=
  let n := if n < 0 then 0 else n
  if size ≤ n then size - 1 else n

/-- The buttons of an event, in `handle_mouse_event`. -/
def handleButtons (s : Server) (ev : MouseEvent) : Server :=
  let changed := ev.buttons ^^^ s.buttons
  let s := { s with buttons := ev.buttons }
  let s :=
    if changed &&& sxButtonLeft ≠ 0 then
      if ev.buttons &&& sxButtonLeft ≠ 0 then handleLeftPress v s else handleLeftRelease v s
    else s
  let s :=
    if changed &&& sxButtonRight ≠ 0 then handleOtherButton s (decide (ev.buttons &&& sxButtonRight ≠ 0))
    else s
  if changed &&& sxButtonMiddle ≠ 0 then handleOtherButton s (decide (ev.buttons &&& sxButtonMiddle ≠ 0))
  else s

/-- `handle_mouse_event` without a grab. -/
def handleFreeMouseEvent (s : Server) (ev : MouseEvent) : Server :=
  let (s, dx, dy) := mouseSteps s ev
  let nx := clampPointer (s.mx + dx) s.width
  let ny := clampPointer (s.my + dy) s.height
  let s := if nx ≠ s.mx ∨ ny ≠ s.my then handleMotion v { s with mx := nx, my := ny } else s
  let s := handleButtons v s ev
  if ev.wheel = 0 then s
  else if s.menuOpen = true ∧ v.overMenu s = true then updateHover v s
  else s.sendTo (if s.drag = .client then s.dragWin else s.hoverWin) .mouseWheel

def handleMouseEvent (s : Server) (ev : MouseEvent) : Server :=
  let s := pointerGrabUpdate v s
  match s.grabWin with
  | some g => handleGrabbedMouseEvent s g ev
  | none => handleFreeMouseEvent v s ev

end Desktop
