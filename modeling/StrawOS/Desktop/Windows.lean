import StrawOS.Desktop.State

/-!
# Animations, windows and workspaces

What the server does with a window: it shows it, hides it, moves it, gives it the focus and
destroys it.  An animation holds on to the window it belongs to; when the window is
destroyed the animation goes on without it.
-/

namespace Desktop

variable (v : View)

/-! ## Animations -/

namespace Server

variable (s : Server)

def setAnim (i : Fin animMax) (a : Anim) : Server := { s with anims := Function.update s.anims i a }

/-- An event for the window that is referred to, if there is one. -/
def sendTo (w : Option Nat) (type : Evt) : Server :=
  match w with
  | none => s
  | some w => s.sendEvent w type

end Server

/-- `anim_capture`: whether there is a picture. -/
def animCapture (s : Server) (w : Nat) : Bool :=
  s.animations && decide (s.WindowVisible w) && v.memory s w

def animCaptureScreen (s : Server) (w : Nat) : Bool :=
  s.animations && decide (s.WindowVisible w) && v.uncovered s w && v.memory s w

def animFinish (s : Server) (i : Fin animMax) : Server :=
  s.setAnim i { s.anims i with active := false, px := false }

def animCancel (s : Server) (w : Nat) : Server :=
  (List.finRange animMax).foldl
    (fun s i => if (s.anims i).active = true ∧ (s.anims i).owner = some w then animFinish s i else s) s

def animBegin (s : Server) (owner : Nat) (inPlace px : Bool) : Server × Option (Fin animMax) :=
  if s.animations = false ∨ px = false then (s, none)
  else
    let s := animCancel s owner
    match (List.finRange animMax).find? fun i => !(s.anims i).active with
    | none => (s, none)
    | some i => (s.setAnim i ⟨true, some owner, inPlace, true⟩, some i)

def animWindowOpen (s : Server) (w : Nat) : Server := (animBegin s w true (animCapture v s w)).1

/-- The loop of `anim_window_close`, with whether a picture has been taken over. -/
def closeAnim (w : Nat) (st : Server × Bool) (i : Fin animMax) : Server × Bool :=
  let s := st.1
  let a := s.anims i
  if a.active = false ∨ a.owner ≠ some w then st
  else
    let takes := a.inPlace && !st.2
    let s := if takes then s.setAnim i { a with px := false } else s
    let px := st.2 || (takes && a.px)
    if a.inPlace then (animFinish s i, px) else (s.setAnim i { s.anims i with owner := none }, px)

def animWindowClose (s : Server) (w : Nat) (bufferValid : Bool) : Server :=
  let st := (List.finRange animMax).foldl (closeAnim w) (s, false)
  let s := st.1
  let win := s.windows w
  let fits := win.closeSnap && decide (v.now - win.closeSnapMs < closeSnapMaxAgeMs) && v.closeSnapFits s w
  let s := s.write w fun win => { win with closeSnap := false }
  let px := st.2 || fits || (if bufferValid then animCapture v s w else animCaptureScreen v s w)
  match animBegin s w false px with
  | (s, some i) => if bufferValid then s else s.setAnim i { s.anims i with owner := none }
  | (s, none) => s

def animNoteCloseRequest (s : Server) (w : Nat) : Server :=
  s.write w fun win => { win with closeSnap := animCapture v s w, closeSnapMs := v.now }

def animWindowMinimize (s : Server) (w : Nat) : Server := (animBegin s w false (animCapture v s w)).1

def animWindowRestore (s : Server) (w : Nat) : Server := (animBegin s w true (animCapture v s w)).1

def animWindowReframe (s : Server) (w : Nat) (before : Bool) : Server := (animBegin s w true before).1

/-- `anim_tick`, where `ended` are the animations whose time is over. -/
def animTick (s : Server) (ended : Fin animMax → Bool) : Server :=
  (List.finRange animMax).foldl
    (fun s i => if (s.anims i).active = true ∧ (ended i = true ∨ s.animations = false) then animFinish s i
      else s) s

/-! ## Windows -/

def windowFocus (s : Server) (w : Option Nat) : Server :=
  if s.focused = w then s
  else
    let old := s.focused
    let s := { s with focused := w }
    (s.sendTo old .focusOut).sendTo w .focusIn

/-- The stacking order without the last entry for a window. -/
def takeOut (l : List Nat) (w : Nat) : List Nat := (l.reverse.erase w).reverse

def windowRaise (s : Server) (w : Nat) : Server :=
  if w ∈ s.zorder then { s with zorder := takeOut s.zorder w ++ [w] } else s

/-- The memory that `window_slots_grow` gets: for the two arrays, and for how many slots. -/
structure SlotMemory where
  zorder : Bool
  windows : Bool
  slots : Nat

def windowSlotsGrow (s : Server) (m : SlotMemory) : Server :=
  let cap := if s.windowCap = 0 then 16 else s.windowCap * 2
  if m.zorder = false then s
  else
    let s := { s with zorderSize := cap }
    if m.windows = false then s
    else
      let n := min (s.windowCap + m.slots) cap
      { s with
        windowCap := n
        windows := fun k => if s.windowCap ≤ k ∧ k < n then Window.zero else s.windows k }

/-- `SxReqCreateWindow`. -/
structure CreateWindow where
  x : Int
  y : Int
  w : Int
  h : Int
  flags : UInt32

/-- `SX_POS_AUTO`. -/
def posAuto : Int := -100000

/-- A length between its bounds; the lower one wins. -/
def clampSize (n least most : Int) : Int := if n < least then least else if most < n then most else n

/-- The place of a new window that asks for none. -/
def autoPlace (s : Server) (w h : Int) : Int × Int :=
  let top := barH + titleH
  let off : Int := (s.cascade % 8 : Nat) * 30 - 105
  let x := (s.width - w).tdiv 2 + off
  let y := top + (s.height - top - h).tdiv 2 + off
  let x := if x < 8 then 8 else x
  let y := if y < top + 8 then top + 8 else y
  let x := if s.width - 8 < x + w then (if 1 < s.width - 8 - w then s.width - 8 - w else 1) else x
  let y := if s.height - 8 < y + h then (if top < s.height - 8 - h then s.height - 8 - h else top) else y
  (x, y)

/-- The window that `window_create` puts into its slot. -/
def freshWindow (s : Server) (client : Nat) (req : CreateWindow) : Window :=
  let win := { Window.zero with
    used := true
    id := s.nextWindowId + 1
    client := client
    flags := req.flags
    createdOrder := s.orderCounter + 1
    workspace := s.workspace }
  let w := clampSize req.w (if win.HasFrame then minWinW else 1) s.width
  let h := clampSize req.h (if win.HasFrame then 24 else 1) s.height
  let place := if req.x = posAuto ∨ req.y = posAuto then autoPlace s w h else (req.x, req.y)
  { win with w := w, h := h, x := place.1, y := place.2 }

/-- The slot that `window_create` uses. -/
def windowSlot (s : Server) (m : SlotMemory) : Server × Option Nat :=
  match (List.range s.windowCap).find? fun i => !(s.windows i).used with
  | some i => (s, some i)
  | none =>
    let grown := windowSlotsGrow s m
    (grown, if grown.windowCap = s.windowCap then none else some s.windowCap)

def windowCreate (s : Server) (client : Nat) (req : CreateWindow) (m : SlotMemory) : Server :=
  match windowSlot s m with
  | (s, none) => s
  | (s, some k) =>
    { s with
      windows := Function.update s.windows k (freshWindow s client req)
      nextWindowId := s.nextWindowId + 1
      orderCounter := s.orderCounter + 1
      cascade := if req.x = posAuto ∨ req.y = posAuto then s.cascade + 1 else s.cascade
      zorder := s.zorder ++ [k]
      creations := s.creations + 1 }

def windowSendConfigure (s : Server) (w : Nat) : Server :=
  let s := s.write w fun win => { win with sizeDriven := true }
  if (s.windows w).cfgPending then s
  else (s.sendEvent w .configure).write w fun win => { win with cfgPending := true }

def windowSetSize (s : Server) (w : Nat) (nw nh : Int) : Server :=
  let win := s.windows w
  if nw = win.w ∧ nh = win.h ∧ win.sizeDriven = false then s
  else windowSendConfigure (s.write w fun win => { win with w := nw, h := nh }) w

def windowAttach (s : Server) (w buf : Nat) (bw bh stride : Int) : Server :=
  if buf = 0 ∨ bw ≤ 0 ∨ bh ≤ 0 ∨ stride < bw then s
  else
    let old := s.windows w
    let s := if old.buf ≠ 0 ∧ old.buf ≠ buf then s.sendEvent w .bufferRelease else s
    let s := s.write w fun win =>
      { win with buf := buf, bufW := bw, bufH := bh, bufStride := stride, cfgPending := false }
    if old.sizeDriven then
      if bw = old.w ∧ bh = old.h then s.write w fun win => { win with sizeDriven := false }
      else windowSendConfigure s w
    else if bw ≠ old.bufW ∨ bh ≠ old.bufH then s.write w fun win => { win with w := bw, h := bh }
    else s

def windowSetMinimized (s : Server) (w : Nat) (minimized : Bool) : Server :=
  if (s.windows w).minimized = minimized then s
  else
    let s := if minimized then animWindowMinimize v s w else s
    let s := s.write w fun win => { win with minimized := minimized }
    let s := if minimized then s else animWindowRestore v s w
    if minimized = true ∧ s.focused = some w then windowFocus s (topmostVisible s (some w)) else s

def workArea (s : Server) : Rect := ⟨0, barH, s.width, s.height - barH⟩

def maximizedRect (s : Server) : Rect :=
  let a := workArea s
  ⟨a.x + 1, a.y + titleH, a.w - 2, a.h - titleH - 1⟩

def windowSetMaximized (s : Server) (w : Nat) (on : Bool) (restore : Rect) : Server :=
  if ¬ (s.windows w).Resizable ∨ (s.windows w).maximized = on then s
  else
    let before := animCapture v s w
    let s := s.write w fun win => { win with maximized := on }
    let s :=
      if on then
        let m := maximizedRect s
        let s := s.write w fun win => { win with restore := restore, snapped := false, x := m.x, y := m.y }
        windowSetSize s w m.w m.h
      else
        let r := (s.windows w).restore
        windowSetSize (s.write w fun win => { win with x := r.x, y := r.y }) w r.w r.h
    if before then animWindowReframe s w before else s

def windowToggleMaximize (s : Server) (w : Nat) : Server :=
  let win := s.windows w
  windowSetMaximized v s w (!win.maximized) (if win.snapped then win.restore else windowClientRect win)

def windowRequestClose (s : Server) (w : Nat) : Server := (animNoteCloseRequest v s w).sendEvent w .close

/-- A reference, unless it is to this window. -/
def clear (w : Nat) (r : Option Nat) : Option Nat := if r = some w then none else r

def windowDestroy (s : Server) (w : Nat) : Server :=
  if (s.windows w).used = false then s
  else
    let s := animWindowClose v s w false
    let s := { s with
      zorder := takeOut s.zorder w
      hoverWin := clear w s.hoverWin
      grabWin := clear w s.grabWin
      hoverFrameWin := clear w s.hoverFrameWin
      drag := if s.dragWin = some w then .none else s.drag
      dragWin := clear w s.dragWin
      lastClickWin := clear w s.lastClickWin
      wsFocus := fun i => clear w (s.wsFocus i) }
    let wasFocused := s.focused = some w
    let s := s.write w fun win => { win with used := false }
    if wasFocused then
      let s := { s with focused := none }
      windowFocus s (topmostVisible s none)
    else s

/-! ## Hover -/

def setHoverWindow (s : Server) (w : Option Nat) : Server :=
  if s.hoverWin = w then s
  else
    let s := s.sendTo s.hoverWin .mouseLeave
    let s := { s with hoverWin := w }
    s.sendTo w .mouseEnter

def setFrameHover (s : Server) (w : Option Nat) (zone : HitZone) : Server :=
  if zone = .close ∨ zone = .maximize ∨ zone = .minimize then
    { s with hoverFrameWin := w, hoverZone := zone }
  else { s with hoverFrameWin := none, hoverZone := .none }

def barRect (s : Server) : Rect := ⟨0, 0, s.width, barH⟩

def updateHover (s : Server) : Server :=
  let overMenu := s.menuOpen && v.overMenu s
  let overBar := !overMenu && decide ((barRect s).Contains s.mx s.my)
  let overDock := v.overDock s && !overMenu
  let hit := if overMenu || overBar || overDock then (none, .none) else hitTest s s.mx s.my
  let s := setFrameHover s hit.1 hit.2
  let inner := if hit.2 = .client then hit.1 else none
  (setHoverWindow s inner).sendTo inner .mouseMove

/-! ## Workspaces -/

def frameToClient (f : Rect) : Rect := ⟨f.x + 1, f.y + titleH, f.w - 2, f.h - titleH - 1⟩

def windowPlace (s : Server) (w : Nat) (frame : Rect) (animate : Bool) : Server :=
  let cr := frameToClient frame
  if cr = windowClientRect (s.windows w) then s
  else
    let before := animate && animCapture v s w
    let s := windowSetSize (s.write w fun win => { win with x := cr.x, y := cr.y }) w cr.w cr.h
    if before then animWindowReframe s w before else s

def workspaceSwitch (s : Server) (ws : Fin workspaces) : Server :=
  if ws = s.workspace then s
  else
    let carry := if s.drag = .move then s.dragWin else none
    let s := if carry = none then { s with drag := .none, dragWin := none } else s
    let s := { s with
      wsFocus := Function.update s.wsFocus s.workspace s.focused
      workspace := ws }
    let s :=
      match carry with
      | none => s
      | some w => s.write w fun win => { win with workspace := ws }
    let s := { s with snapActive := false }
    let f := carry.or (s.wsFocus ws)
    let s := windowFocus s (if ∃ w ∈ f, s.WindowVisible w then f else topmostVisible s none)
    updateHover v s

def windowMoveToWorkspace (s : Server) (w : Option Nat) (ws : Fin workspaces) : Server :=
  match w with
  | none => s
  | some w =>
    let old := (s.windows w).workspace
    if old = ws then s
    else
      let s := { s with wsFocus := Function.update s.wsFocus old (clear w (s.wsFocus old)) }
      let s := s.write w fun win => { win with workspace := ws }
      let s := { s with wsFocus := Function.update s.wsFocus ws (some w) }
      let s := if s.focused = some w then windowFocus s (topmostVisible s none) else s
      updateHover v s

/-- `focus_neighbour`.  `right` is the direction. -/
def focusNeighbour (s : Server) (right : Bool) : Server :=
  let list := s.zorder.filter fun w => decide (s.WindowVisible w) && decide (s.windows w).HasFrame
  let n := list.length
  -- The last place of the window with the focus.
  let at? := (List.range n).reverse.find? fun i => list[i]? = s.focused
  let i :=
    match at? with
    | none => 0
    | some i => (if right then i + 1 else i + (n - 1)) % n
  match list[i]? with
  | none => s
  | some w => windowFocus (windowRaise s w) (some w)

def snapSet (s : Server) (active : Bool) (r : Rect) (kind : SnapKind) : Server :=
  if s.snapActive = active ∧ (active = false ∨ s.snapKind = kind ∧ s.snapRect = r) then s
  else { s with snapActive := active, snapRect := r, snapKind := kind }

def snapClear (s : Server) : Server := snapSet s false ⟨0, 0, 0, 0⟩ .none

def snapUpdate (s : Server) (w : Nat) : Server :=
  if ¬ (s.windows w).HasFrame ∨ ¬ (s.windows w).Resizable then snapClear s
  else
    let area := workArea s
    let halfW := (area.w - snapGap * 3).tdiv 2
    let h := area.h - snapGap * 2
    if s.mx ≤ snapEdge then snapSet s true ⟨area.x + snapGap, area.y + snapGap, halfW, h⟩ .left
    else if s.width - 1 - snapEdge ≤ s.mx then
      snapSet s true ⟨area.x + area.w - snapGap - halfW, area.y + snapGap, halfW, h⟩ .right
    else if s.my ≤ barH + snapEdge then snapSet s true area .max
    else snapClear s

def snapApply (s : Server) (w : Nat) : Server :=
  if s.snapActive = false then s
  else
    let s :=
      if s.snapKind = .max then windowSetMaximized v s w true s.dragOrigRect
      else
        let s := s.write w fun win => { win with restore := s.dragOrigRect, snapped := true }
        windowPlace v s w s.snapRect true
    snapClear s

def dragDetach (s : Server) (w : Nat) : Server :=
  let old := windowClientRect (s.windows w)
  let size := (s.windows w).restore
  let nx := v.detachX s w
  let ny := s.my - (s.dragStartMy - old.y)
  let s := s.write w fun win => { win with maximized := false, snapped := false, x := nx, y := ny }
  let s := windowSetSize s w size.w size.h
  let r : Rect := ⟨nx, ny, size.w, size.h⟩
  { s with dragStartMx := s.mx, dragStartMy := s.my, dragStartRect := r, dragOrigRect := r, dragDetach := false }

end Desktop
