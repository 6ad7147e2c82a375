import StrawOS.Desktop.Input

/-!
# Clients of the display server

Programs connect, ask for windows and disconnect, in any order with the input.  A program
that disconnects takes its windows with it.
-/

namespace Desktop

variable (v : View)

def windowById (s : Server) (client : Nat) (id : UInt32) : Option Nat :=
  (List.range s.windowCap).find? fun w =>
    (s.windows w).used && decide ((s.windows w).id = id) && decide ((s.windows w).client = client)

/-- The memory that `client_slots_grow` gets: for the array, and for how many slots. -/
structure ClientMemory where
  clients : Bool
  slots : Nat

def clientSlotsGrow (s : Server) (m : ClientMemory) : Server :=
  let cap := if s.clientCap = 0 then 16 else s.clientCap * 2
  if m.clients = false then s
  else
    let n := min (s.clientCap + m.slots) cap
    { s with
      clientCap := n
      clients := fun k => if s.clientCap ≤ k ∧ k < n then ⟨false, 0⟩ else s.clients k }

/-- The slot that `client_accept` uses. -/
def clientSlot (s : Server) (m : ClientMemory) : Server × Option Nat :=
  match (List.range s.clientCap).find? fun i => !(s.clients i).used with
  | some i => (s, some i)
  | none =>
    let grown := clientSlotsGrow s m
    (grown, if s.clientCap < grown.clientCap then some s.clientCap else none)

/-- `client_accept`, for one connection. -/
def clientAccept (s : Server) (m : ClientMemory) : Server :=
  match clientSlot s m with
  | (s, none) => s
  | (s, some c) =>
    { s with
      clients := Function.update s.clients c ⟨true, s.nextClientId + 1⟩
      nextClientId := s.nextClientId + 1 }

/-- The loop of `client_disconnect`. -/
def destroyWindows (c : Nat) (s : Server) (w : Nat) : Server :=
  if (s.windows w).used = true ∧ (s.windows w).client = c then windowDestroy v s w else s

def clientDisconnect (s : Server) (c : Nat) : Server :=
  let s := (List.range s.windowCap).foldl (destroyWindows v c) s
  let s := { s with clients := Function.update s.clients c { s.clients c with used := false } }
  updateHover v s

/-- Requests whose size fits their type, without what the windows do not depend on. -/
inductive Request
  | createWindow (req : CreateWindow) (m : SlotMemory)
  | destroyWindow
  | attachBuffer (pixels : Nat) (w h stride : Int)
  | damage
  | setVisible (visible : Bool)
  | move (x y : Int)
  | grabPointer (grab : Bool)
  | resize (w h : Int)
  | other

/-- `SX_REQ_DAMAGE` for the first time. -/
def mapWindow (s : Server) (w : Nat) : Server :=
  let s := s.write w fun win => { win with mapped := true }
  let s := windowRaise s w
  let s := if (s.windows w).HasFrame then windowFocus s (some w) else s
  animWindowOpen v (updateHover v s) w

/-- `SX_REQ_SET_VISIBLE`. -/
def setHidden (s : Server) (w : Nat) (hidden : Bool) : Server :=
  if hidden = (s.windows w).hidden then s
  else
    let s := if hidden then animWindowClose v s w true else s
    let s := s.write w fun win => { win with hidden := hidden }
    let s := if hidden then s else animWindowOpen v s w
    let s := if hidden = true ∧ s.focused = some w then windowFocus s (topmostVisible s (some w)) else s
    updateHover v s

/-- `client_handle` for a request about a window. -/
def windowHandle (s : Server) (w : Nat) : Request → Server
  | .destroyWindow => updateHover v (windowDestroy v s w)
  | .attachBuffer pixels bw bh stride => windowAttach s w pixels bw bh stride
  | .damage =>
    if (s.windows w).buf ≠ 0 ∧ (s.windows w).mapped = false then mapWindow v s w else s
  | .setVisible visible => setHidden v s w (!visible)
  | .move x y => s.write w fun win => { win with x := x, y := y }
  | .grabPointer grab => pointerGrabUpdate v (s.write w fun win => { win with pointerGrab := grab })
  | .resize rw rh =>
    if (s.windows w).maximized then s
    else windowSetSize s w (clampSize rw 1 s.width) (clampSize rh 1 s.height)
  | _ => s

def clientHandle (s : Server) (c : Nat) (window : UInt32) (req : Request) : Server :=
  match req with
  | .createWindow req m => windowCreate s c req m
  | req =>
    match if window = 0 then none else windowById s c window with
    | none => s
    | some w => windowHandle v s w req

/-! ## The main loop -/

inductive ServerOp
  | mouse (v : View) (ev : MouseEvent)
  | key (v : View) (key : Nat) (pressed : Bool)
  | accept (m : ClientMemory)
  | request (v : View) (c : Nat) (window : UInt32) (req : Request)
  | disconnect (v : View) (c : Nat)
  | settings (animations : Bool) (pointerSpeed : Int)
  | tick (v : View) (ended : Fin animMax → Bool)

/-- A step of the main loop. -/
def Server.step (s : Server) : ServerOp → Server
  | .mouse v ev => handleMouseEvent v s ev
  | .key v key pressed => handleKey v s key pressed
  | .accept m => clientAccept s m
  | .request v c window req => if (s.clients c).used then clientHandle v s c window req else s
  | .disconnect v c => if (s.clients c).used then clientDisconnect v s c else s
  | .settings animations pointerSpeed => { s with animations := animations, pointerSpeed := pointerSpeed }
  | .tick v ended => pointerGrabUpdate v (animTick s ended)

/-- The server after `display_init` and `settings_load`. -/
def initial (width height : Int) (animations : Bool) (pointerSpeed : Int) : Server where
  width := width
  height := height
  clients := fun _ => ⟨false, 0⟩
  clientCap := 0
  windows := fun _ => Window.zero
  windowCap := 0
  zorder := []
  zorderSize := 0
  nextWindowId := 0
  nextClientId := 0
  orderCounter := 0
  cascade := 0
  focused := none
  mx := width.tdiv 2
  my := height.tdiv 2
  buttons := 0
  hoverWin := none
  grabWin := none
  hoverZone := .none
  hoverFrameWin := none
  drag := .none
  dragWin := none
  dragZone := .none
  dragStartMx := 0
  dragStartMy := 0
  dragStartRect := ⟨0, 0, 0, 0⟩
  dragOrigRect := ⟨0, 0, 0, 0⟩
  dragDetach := false
  snapActive := false
  snapRect := ⟨0, 0, 0, 0⟩
  snapKind := .none
  workspace := ⟨0, workspaces_pos⟩
  wsFocus := fun _ => none
  lastClickMs := 0
  lastClickX := 0
  lastClickY := 0
  lastClickWin := none
  mods := 0
  capsLock := false
  superAlone := false
  menuOpen := false
  animations := animations
  pointerSpeed := pointerSpeed
  mouseFracX := 0
  mouseFracY := 0
  anims := fun _ => ⟨false, none, false, false⟩
  creations := 0
  sent := []

def server : Machine Server ServerOp Unit where
  start s := ∃ width height animations pointerSpeed, s = initial width height animations pointerSpeed
  step s op := (s.step op, [])

end Desktop

/-!
# References to windows

A slot is live when it holds a window.  Nothing but the creation and the destruction of
windows changes which slots are live, so the functions that move the focus, the hover, the
grab, the drag and the animations have one property to keep: what they refer to is live.
-/

namespace Desktop

/-- The id and the client of a slot that holds a window. -/
def Window.holds (w : Window) : Option (UInt32 × Nat) := if w.used then some (w.id, w.client) else none

theorem Window.holds_used {w : Window} (h : w.used = true) : w.holds = some (w.id, w.client) := if_pos h

theorem Window.holds_unused {w : Window} (h : w.used = false) : w.holds = none :=
  if_neg (by rw [h]; exact Bool.false_ne_true)

theorem Window.used_of_holds {w : Window} (h : w.holds.isSome = true) : w.used = true := by
  cases hused : w.used with
  | true => rfl
  | false =>
    rw [Window.holds_unused hused] at h
    cases h

/-- What the slots hold. -/
def Server.live (s : Server) (k : Nat) : Option (UInt32 × Nat) := (s.windows k).holds

/-- A slot holds a window. -/
def Server.Used (s : Server) (k : Nat) : Prop := (s.live k).isSome = true

/-- The stacking order, the slots and the ids agree with what is live. -/
structure Tables (live : Nat → Option (UInt32 × Nat)) (clients : Nat → Client) (clientCap : Nat)
    (zorder : List Nat) (windowCap zorderSize : Nat) (next : UInt32) (creations : Nat) : Prop where
  nodup : zorder.Nodup
  mem : ∀ k, k ∈ zorder ↔ (live k).isSome = true
  lt : ∀ k, (live k).isSome = true → k < windowCap
  room : windowCap ≤ zorderSize
  owners : ∀ k id c, live k = some (id, c) → (clients c).used = true
  clientLt : ∀ c, (clients c).used = true → c < clientCap
  next : creations < 2 ^ 32 → next.toNat = creations
  ids : creations < 2 ^ 32 → ∀ k id c, live k = some (id, c) → id.toNat ≤ creations
  distinct : creations < 2 ^ 32 → ∀ k k' id c c', live k = some (id, c) → live k' = some (id, c') → k = k'

/-- A reference is to nothing or to a window. -/
def Ref (live : Nat → Option (UInt32 × Nat)) (r : Option Nat) : Prop :=
  ∀ k, r = some k → (live k).isSome = true

/-- The references to windows. -/
structure Refs (live : Nat → Option (UInt32 × Nat)) (focused hoverWin hoverFrameWin grabWin lastClickWin
    dragWin : Option Nat) (drag : DragMode) (wsFocus : Fin workspaces → Option Nat)
    (anims : Fin animMax → Anim) : Prop where
  focused : Ref live focused
  hoverWin : Ref live hoverWin
  hoverFrameWin : Ref live hoverFrameWin
  grabWin : Ref live grabWin
  lastClickWin : Ref live lastClickWin
  dragged : Ref live dragWin
  dragging : drag ≠ .none ↔ dragWin.isSome = true
  wsFocus : ∀ i, Ref live (wsFocus i)
  anims : ∀ i, (anims i).active = true → Ref live (anims i).owner

/-- The invariant of the display server. -/
def Server.Sound (s : Server) : Prop :=
  Tables s.live s.clients s.clientCap s.zorder s.windowCap s.zorderSize s.nextWindowId s.creations ∧
    Refs s.live s.focused s.hoverWin s.hoverFrameWin s.grabWin s.lastClickWin s.dragWin s.drag s.wsFocus
      s.anims

/-- An event is for a window that was there. -/
def Server.Sends (s : Server) (e : Sent) : Prop := ∃ k, s.live k = some (e.window, e.client)

/-- A part of a step that creates and destroys nothing. -/
structure Keeps (s s' : Server) : Prop where
  sound : s'.Sound
  live : s'.live = s.live
  sent : ∀ e ∈ s'.sent, e ∈ s.sent ∨ s.Sends e

theorem ref_none (live : Nat → Option (UInt32 × Nat)) : Ref live none := by
  intro k hk
  cases hk

theorem ref_some {live : Nat → Option (UInt32 × Nat)} {w : Nat} (h : (live w).isSome = true) :
    Ref live (some w) := by
  intro k hk
  cases hk
  exact h

theorem ref_ite {live : Nat → Option (UInt32 × Nat)} {r r' : Option Nat} (h : Ref live r) (h' : Ref live r')
    (c : Prop) [Decidable c] : Ref live (if c then r else r') := by
  split
  · exact h
  · exact h'

namespace Keeps

variable {s s' s'' : Server}

theorem refl (h : s.Sound) : Keeps s s := ⟨h, rfl, fun _ he => Or.inl he⟩

theorem trans (h : Keeps s s') (h' : Keeps s' s'') : Keeps s s'' := by
  refine ⟨h'.sound, h'.live.trans h.live, ?_⟩
  intro e he
  rcases h'.sent e he with he' | ⟨k, hk⟩
  · exact h.sent e he'
  · rw [h.live] at hk
    exact Or.inr ⟨k, hk⟩

theorem used (h : Keeps s s') {w : Nat} (hw : s.Used w) : s'.Used w := by
  unfold Server.Used
  rw [h.live]
  exact hw

theorem ref (h : Keeps s s') {r : Option Nat} (hr : Ref s.live r) : Ref s'.live r := by
  rw [h.live]
  exact hr

theorem ite {c : Prop} [Decidable c] (h : c → Keeps s s') (h' : ¬ c → Keeps s s'') :
    Keeps s (if c then s' else s'') := by
  split
  · rename_i hc
    exact h hc
  · rename_i hc
    exact h' hc

theorem foldl_used {α : Type*} {f : Server → α → Server} {w : Nat}
    (hf : ∀ s x, s.Sound → s.Used w → Keeps s (f s x)) (l : List α) (h : s.Sound) (hw : s.Used w) :
    Keeps s (l.foldl f s) := by
  induction l generalizing s with
  | nil => exact refl h
  | cons x l ih =>
    have hx := hf s x h hw
    exact hx.trans (ih hx.sound (hx.used hw))

theorem foldl {α : Type*} {f : Server → α → Server} (hf : ∀ s x, s.Sound → Keeps s (f s x)) (l : List α)
    (h : s.Sound) : Keeps s (l.foldl f s) := by
  induction l generalizing s with
  | nil => exact refl h
  | cons x l ih =>
    have hx := hf s x h
    exact hx.trans (ih hx.sound)

end Keeps

section

variable {s : Server}

theorem used_of_mem (h : s.Sound) {w : Nat} (hw : w ∈ s.zorder) : s.Used w := (h.1.mem w).1 hw

theorem used_of_visible {w : Nat} (hw : s.WindowVisible w) : s.Used w := by
  unfold Server.Used Server.live
  rw [Window.holds_used hw.1]
  rfl

theorem keeps_write (h : s.Sound) (w : Nat) {f : Window → Window}
    (hf : ∀ win, (f win).used = win.used ∧ (f win).id = win.id ∧ (f win).client = win.client) :
    Keeps s (s.write w f) := by
  have hlive : (s.write w f).live = s.live := by
    funext k
    unfold Server.live Server.write
    dsimp only
    by_cases hk : k = w
    · subst hk
      obtain ⟨hused, hid, hclient⟩ := hf (s.windows k)
      rw [Function.update_self]
      unfold Window.holds
      rw [hused, hid, hclient]
    · rw [Function.update_of_ne hk]
  refine ⟨?_, hlive, fun _ he => Or.inl he⟩
  unfold Server.Sound
  rw [hlive]
  exact h

theorem keeps_sendEvent (h : s.Sound) {w : Nat} (hw : s.Used w) (type : Evt) :
    Keeps s (s.sendEvent w type) := by
  refine ⟨h, rfl, ?_⟩
  intro e he
  rcases List.mem_append.1 he with hold | hnew
  · exact Or.inl hold
  · obtain rfl := List.mem_singleton.1 hnew
    refine Or.inr ⟨w, ?_⟩
    exact Window.holds_used (Window.used_of_holds hw)

theorem keeps_sendTo (h : s.Sound) {r : Option Nat} (hr : Ref s.live r) (type : Evt) :
    Keeps s (s.sendTo r type) := by
  cases r with
  | none => exact Keeps.refl h
  | some w => exact keeps_sendEvent h (hr w rfl) type

theorem keeps_setAnim (h : s.Sound) (i : Fin animMax) {a : Anim} (ha : a.active = true → Ref s.live a.owner) :
    Keeps s (s.setAnim i a) := by
  refine ⟨⟨h.1, { h.2 with anims := ?_ }⟩, rfl, fun _ he => Or.inl he⟩
  intro j hj
  by_cases hji : j = i
  · subst hji
    change (Function.update s.anims j a j).active = true at hj
    change Ref s.live (Function.update s.anims j a j).owner
    rw [Function.update_self] at hj ⊢
    exact ha hj
  · change (Function.update s.anims i a j).active = true at hj
    change Ref s.live (Function.update s.anims i a j).owner
    rw [Function.update_of_ne hji] at hj ⊢
    exact h.2.anims j hj

/-! ## Where windows are found -/

theorem hitTest_ref (s : Server) (x y : Int) : Ref s.live (hitTest s x y).1 := by
  intro w hw
  unfold hitTest at hw
  split at hw
  · rename_i w' hfind
    cases hw
    have hvisible := List.find?_some hfind
    rw [Bool.and_eq_true, decide_eq_true_iff] at hvisible
    exact used_of_visible hvisible.1
  · cases hw

theorem topmostVisible_ref (s : Server) (except : Option Nat) : Ref s.live (topmostVisible s except) := by
  intro w hw
  have hvisible := List.find?_some hw
  rw [Bool.and_eq_true, Bool.and_eq_true, decide_eq_true_iff, decide_eq_true_iff] at hvisible
  exact used_of_visible hvisible.1.2

theorem pointerGrabber_ref (s : Server) : Ref s.live (pointerGrabber s) := by
  intro w hw
  unfold pointerGrabber at hw
  split at hw
  · cases hw
  · split at hw
    · rename_i hgrab
      cases hw
      exact used_of_visible hgrab.1
    · cases hw

/-! ## Animations -/

theorem animFinish_keeps (h : s.Sound) (i : Fin animMax) : Keeps s (animFinish s i) :=
  keeps_setAnim h i fun hactive => nomatch hactive

theorem animCancel_keeps (h : s.Sound) (w : Nat) : Keeps s (animCancel s w) := by
  refine Keeps.foldl ?_ _ h
  intro s i hs
  exact Keeps.ite (fun _ => animFinish_keeps hs i) fun _ => Keeps.refl hs

theorem animBegin_keeps (h : s.Sound) {owner : Nat} (hw : s.Used owner) (inPlace px : Bool) :
    Keeps s (animBegin s owner inPlace px).1 := by
  unfold animBegin
  split
  · exact Keeps.refl h
  · have hcancel := animCancel_keeps h owner
    dsimp only
    split
    · exact hcancel
    · exact hcancel.trans (keeps_setAnim hcancel.sound _ fun _ => ref_some (hcancel.used hw))

theorem closeAnim_keeps {st : Server × Bool} (h : st.1.Sound) (w : Nat) (i : Fin animMax) :
    Keeps st.1 (closeAnim w st i).1 := by
  unfold closeAnim
  dsimp only
  split
  · exact Keeps.refl h
  · have htake : Keeps st.1 (if ((st.1.anims i).inPlace && !st.2) = true then
        st.1.setAnim i { st.1.anims i with px := false } else st.1) :=
      Keeps.ite (fun _ => keeps_setAnim h i fun hactive => h.2.anims i hactive) fun _ => Keeps.refl h
    split
    · exact htake.trans (animFinish_keeps htake.sound i)
    · exact htake.trans (keeps_setAnim htake.sound i fun _ => ref_none _)

theorem closeAnims_keeps (w : Nat) (l : List (Fin animMax)) (st : Server × Bool) (h : st.1.Sound) :
    Keeps st.1 (l.foldl (closeAnim w) st).1 := by
  induction l generalizing st with
  | nil => exact Keeps.refl h
  | cons i l ih =>
    have hi := closeAnim_keeps h w i
    exact hi.trans (ih _ hi.sound)

theorem animWindowClose_keeps (v : View) (h : s.Sound) {w : Nat} (hw : s.Used w) (bufferValid : Bool) :
    Keeps s (animWindowClose v s w bufferValid) := by
  unfold animWindowClose
  dsimp only
  have hloop := closeAnims_keeps w (List.finRange animMax) (s, false) h
  have hwrite := hloop.trans (keeps_write hloop.sound w
    (f := fun win => { win with closeSnap := false }) fun win => ⟨rfl, rfl, rfl⟩)
  generalize hpx : (_ || _ || _ : Bool) = px
  have hbegin := hwrite.trans (animBegin_keeps hwrite.sound (hwrite.used hw) false px)
  split
  · rename_i s' i heq
    rw [heq] at hbegin
    exact Keeps.ite (fun _ => hbegin) fun _ => hbegin.trans (keeps_setAnim hbegin.sound i fun _ => ref_none _)
  · rename_i s' heq
    rw [heq] at hbegin
    exact hbegin

theorem animNoteCloseRequest_keeps (v : View) (h : s.Sound) (w : Nat) :
    Keeps s (animNoteCloseRequest v s w) := keeps_write h w fun _ => ⟨rfl, rfl, rfl⟩

theorem animTick_keeps (h : s.Sound) (ended : Fin animMax → Bool) : Keeps s (animTick s ended) := by
  refine Keeps.foldl ?_ _ h
  intro s i hs
  exact Keeps.ite (fun _ => animFinish_keeps hs i) fun _ => Keeps.refl hs

end

end Desktop
