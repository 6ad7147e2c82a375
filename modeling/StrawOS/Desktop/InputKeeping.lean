import StrawOS.Desktop.Keeping

/-!
# Clicks, keys and drags

Every event of the mouse and the keyboard, in any state of a drag, keeps the references.
-/

namespace Desktop

section

variable {s : Server}

/-! ## The menu, the bar and the dock -/

theorem used_of_listed {w : Nat} (hw : (s.windows w).Listed) : s.Used w := by
  unfold Server.Used Server.live
  rw [Window.holds_used hw.1]
  rfl

theorem listedWindows_used {p : Nat → Bool} {w : Nat} (hw : w ∈ listedWindows s p) : s.Used w := by
  unfold listedWindows at hw
  rw [List.mem_insertionSort, List.mem_filter, Bool.and_eq_true, decide_eq_true_iff] at hw
  exact used_of_listed hw.2.1

theorem shellActivateWindow_keeps (v : View) (h : s.Sound) {w : Nat} (hw : s.Used w) :
    Keeps s (shellActivateWindow v s w) := by
  have hswitch : Keeps s (if (s.windows w).workspace ≠ s.workspace then
      workspaceSwitch v s (s.windows w).workspace else s) :=
    Keeps.ite (fun _ => workspaceSwitch_keeps v h _) fun _ => Keeps.refl h
  have hfocus := hswitch.trans (raiseFocus_keeps hswitch.sound (hswitch.used hw))
  refine Keeps.ite (fun _ => ?_) fun _ => hfocus
  exact hfocus.trans (windowSetMinimized_keeps v hfocus.sound (hfocus.used hw) false)

theorem dockClickWindows_keeps (v : View) (h : s.Sound) {wins : List Nat} (hwins : ∀ w ∈ wins, s.Used w) :
    Keeps s (dockClickWindows v s wins) := by
  unfold dockClickWindows
  cases wins with
  | nil => exact Keeps.refl h
  | cons first rest =>
    have hfirst := hwins first List.mem_cons_self
    dsimp only
    split
    · refine Keeps.ite (fun _ => windowSetMinimized_keeps v h hfirst true) fun _ => ?_
      refine shellActivateWindow_keeps v h ?_
      cases hnext : (first :: rest)[(_ + 1) % (first :: rest).length]? with
      | none => exact hfirst
      | some w => exact hwins w (List.mem_of_getElem? hnext)
    · refine shellActivateWindow_keeps v h ?_
      cases hfind : (first :: rest).find? fun w => decide ((s.windows w).workspace = s.workspace) with
      | none => exact hfirst
      | some w => exact hwins w (List.mem_of_find?_eq_some hfind)

theorem shellDockClick_keeps (v : View) (h : s.Sound) (index : Nat) : Keeps s (shellDockClick v s index) := by
  unfold shellDockClick
  split
  · exact Keeps.refl h
  · rename_i w hitem
    refine dockClickWindows_keeps v h ?_
    intro w' hw'
    obtain rfl := List.mem_singleton.1 hw'
    rcases List.mem_append.1 (List.mem_of_getElem? hitem) with happ | hwin
    · obtain ⟨i, -, hi⟩ := List.mem_map.1 happ
      cases hi
    · obtain ⟨k, hk, hkw⟩ := List.mem_map.1 hwin
      cases hkw
      exact listedWindows_used hk
  · exact dockClickWindows_keeps v h fun w hw => listedWindows_used hw

theorem shellCloseMenu_keeps (h : s.Sound) : Keeps s (shellCloseMenu s) := ⟨h, rfl, fun _ he => Or.inl he⟩

theorem shellToggleMenu_keeps (h : s.Sound) : Keeps s (shellToggleMenu s) := ⟨h, rfl, fun _ he => Or.inl he⟩

theorem shellMenuLaunch_keeps (v : View) (h : s.Sound) (index : Nat) : Keeps s (shellMenuLaunch v s index) :=
  Keeps.ite (fun _ => shellCloseMenu_keeps h) fun _ => Keeps.refl h

theorem shellMenuKey_keeps (v : View) (h : s.Sound) (key : Nat) : Keeps s (shellMenuKey v s key).1 := by
  unfold shellMenuKey
  split
  · exact Keeps.refl h
  · split
    · exact shellCloseMenu_keeps h
    · split
      · exact shellMenuLaunch_keeps v h _
      · exact Keeps.refl h

theorem shellBarClick_keeps (v : View) (h : s.Sound) (item : BarItem) : Keeps s (shellBarClick v s item) := by
  cases item with
  | logo => exact shellToggleMenu_keeps h
  | ws i => exact workspaceSwitch_keeps v h i

/-! ## Keys -/

theorem cycleWindows_keeps (v : View) (h : s.Sound) : Keeps s (cycleWindows v s) := by
  unfold cycleWindows
  split
  · exact Keeps.refl h
  · rename_i w hfind
    have hw := used_of_mem h (List.mem_of_find?_eq_some hfind)
    have hfocus := raiseFocus_keeps h hw
    exact hfocus.trans (windowSetMinimized_keeps v hfocus.sound (hfocus.used hw) false)

theorem focusedFrame_ref (s : Server) : Ref s.live (focusedFrame s) := by
  unfold focusedFrame
  split
  · exact ref_none _
  · split
    · rename_i hvisible
      exact ref_some (used_of_visible hvisible.1)
    · exact ref_none _

theorem onFocused_keeps (h : s.Sound) {f : Server → Nat → Server} (hf : ∀ w, s.Used w → Keeps s (f s w))
    (r : Option Nat) :
    Ref s.live r → Keeps s (match r with
      | none => s
      | some w => f s w) := by
  intro hr
  cases r with
  | none => exact Keeps.refl h
  | some w => exact hf w (hr w rfl)

theorem handleSuperKey_keeps (v : View) (h : s.Sound) (key : Nat) : Keeps s (handleSuperKey v s key) := by
  have hframe := focusedFrame_ref s
  unfold handleSuperKey
  split
  · refine Keeps.ite (fun _ => windowMoveToWorkspace_keeps v h hframe _) fun _ => ?_
    exact workspaceSwitch_keeps v h _
  · refine Keeps.ite (fun _ => ?_) fun _ => ?_
    · exact onFocused_keeps h (fun w hw => windowRequestClose_keeps v h hw) _ hframe
    · refine Keeps.ite (fun _ => focusNeighbour_keeps h false) fun _ => ?_
      refine Keeps.ite (fun _ => focusNeighbour_keeps h true) fun _ => ?_
      refine Keeps.ite (fun _ => ?_) fun _ => ?_
      · exact onFocused_keeps h (fun w hw => windowToggleMaximize_keeps v h hw) _ hframe
      · refine Keeps.ite (fun _ => ?_) fun _ => Keeps.refl h
        exact onFocused_keeps h (f := fun s w => windowSetMinimized v s w true)
          (fun w hw => windowSetMinimized_keeps v h hw true) _ hframe

theorem keyToFocus_keeps (v : View) (h : s.Sound) (key : Nat) (pressed : Bool) :
    Keeps s (keyToFocus v s key pressed) := by
  refine Keeps.ite (fun _ => cycleWindows_keeps v h) fun _ => ?_
  refine Keeps.ite (fun _ => ?_) fun _ => keeps_sendTo h h.2.focused _
  exact onFocused_keeps h (fun w hw => windowRequestClose_keeps v h hw) _ h.2.focused

theorem handleKey_keeps (v : View) (h : s.Sound) (key : Nat) (pressed : Bool) :
    Keeps s (handleKey v s key pressed) := by
  unfold handleKey
  have hflags : Keeps s (keyFlags s key pressed) := ⟨h, rfl, fun _ he => Or.inl he⟩
  generalize keyFlags s key pressed = s1 at hflags ⊢
  refine Keeps.ite (fun _ => ?_) fun _ => ?_
  · refine Keeps.ite (fun _ => ⟨hflags.sound, hflags.live, hflags.sent⟩) fun _ => ?_
    exact Keeps.ite (fun _ => hflags.trans (shellToggleMenu_keeps hflags.sound)) fun _ => hflags
  · have halone : Keeps s (if pressed = true then { s1 with superAlone := false } else s1) :=
      Keeps.ite (fun _ => ⟨hflags.sound, hflags.live, hflags.sent⟩) fun _ => hflags
    generalize (if pressed = true then { s1 with superAlone := false } else s1) = s2 at halone ⊢
    refine Keeps.ite (fun _ => ?_) fun _ => ?_
    · exact Keeps.ite (fun _ => halone.trans (handleSuperKey_keeps v halone.sound _)) fun _ => halone
    · generalize htaken : (if pressed = true ∧ modifierBit key = 0 then shellMenuKey v s2 key
        else (s2, false)) = out
      have hmenu : Keeps s out.1 := by
        rw [← htaken]
        split
        · exact halone.trans (shellMenuKey_keeps v halone.sound key)
        · exact halone
      refine Keeps.ite (fun _ => hmenu) fun _ => ?_
      refine Keeps.ite (fun _ => hmenu) fun _ => ?_
      exact hmenu.trans (keyToFocus_keeps v hmenu.sound key pressed)

/-! ## The pointer -/

theorem motionMove_keeps (v : View) (h : s.Sound) {w : Nat} (hw : s.Used w) : Keeps s (motionMove v s w) := by
  unfold motionMove
  dsimp only
  refine Keeps.ite (fun _ => Keeps.refl h) fun _ => ?_
  have hdetach : Keeps s (if s.dragDetach = true then dragDetach v s w else s) :=
    Keeps.ite (fun _ => dragDetach_keeps v h hw) fun _ => Keeps.refl h
  generalize (if s.dragDetach = true then dragDetach v s w else s) = s1 at hdetach ⊢
  generalize (if s.dragDetach = true then (0 : Int) else s.mx - s.dragStartMx) = dx
  generalize (if s.dragDetach = true then (0 : Int) else s.my - s.dragStartMy) = dy
  have hwrite := hdetach.trans (keeps_write hdetach.sound w (f := fun win =>
    { win with x := s1.dragStartRect.x + dx, y := s1.dragStartRect.y + dy }) fun _ => ⟨rfl, rfl, rfl⟩)
  have hclamp : Keeps s (clampWindowPosition (s1.write w fun win =>
      { win with x := s1.dragStartRect.x + dx, y := s1.dragStartRect.y + dy }) w) :=
    hwrite.trans (keeps_write hwrite.sound w fun _ => ⟨rfl, rfl, rfl⟩)
  exact hclamp.trans (snapUpdate_keeps hclamp.sound w)

theorem moveAndSize_keeps (h : s.Sound) {w : Nat} (hw : s.Used w) (x y nw nh : Int) :
    Keeps s (windowSetSize (s.write w fun win => { win with x := x, y := y }) w nw nh) := by
  have hwrite := keeps_write h w (f := fun win => { win with x := x, y := y }) fun _ => ⟨rfl, rfl, rfl⟩
  exact hwrite.trans (windowSetSize_keeps hwrite.sound (hwrite.used hw) nw nh)

theorem motionResize_keeps (h : s.Sound) {w : Nat} (hw : s.Used w) : Keeps s (motionResize s w) :=
  moveAndSize_keeps h hw _ _ _ _

theorem handleMotion_keeps (v : View) (h : s.Sound) : Keeps s (handleMotion v s) := by
  unfold handleMotion
  split
  · exact updateHover_keeps v h
  · exact Keeps.refl h
  · rename_i w _ hdrag
    exact motionMove_keeps v h (h.2.dragged w hdrag)
  · rename_i w _ hdrag
    exact motionResize_keeps h (h.2.dragged w hdrag)
  · rename_i w _ hdrag
    exact keeps_sendEvent h (h.2.dragged w hdrag) .mouseMove
  · rename_i w _ hdrag
    refine Keeps.ite (fun _ => setFrameHover_keeps h ?_ _) fun _ => setFrameHover_keeps h (ref_none _) _
    exact ref_some (h.2.dragged w hdrag)

theorem isDoubleClick_keeps (v : View) (h : s.Sound) {w : Option Nat} (hw : Ref s.live w) :
    Keeps s (isDoubleClick v s w).1 := ⟨⟨h.1, { h.2 with lastClickWin := hw }⟩, rfl, fun _ he => Or.inl he⟩

theorem startDrag_keeps (h : s.Sound) {w : Nat} (hw : s.Used w) (mode : DragMode) (hmode : mode ≠ .none) :
    Keeps s { s with drag := mode, dragWin := some w } := by
  refine ⟨⟨h.1, { h.2 with dragged := ref_some hw, dragging := ?_ }⟩, rfl, fun _ he => Or.inl he⟩
  exact iff_of_true hmode rfl

theorem pressWindow_keeps (v : View) (h : s.Sound) {w : Nat} (hw : s.Used w) (zone : HitZone) :
    Keeps s (pressWindow v s w zone) := by
  unfold pressWindow
  have hraise : Keeps s (if (s.windows w).HasFrame then windowFocus (windowRaise s w) (some w) else s) :=
    Keeps.ite (fun _ => raiseFocus_keeps h hw) fun _ => Keeps.refl h
  generalize (if (s.windows w).HasFrame then windowFocus (windowRaise s w) (some w) else s) = s1 at hraise ⊢
  have hwin := hraise.used hw
  cases zone with
  | none => exact hraise
  | client =>
    have hdrag := startDrag_keeps hraise.sound hwin .client (by decide)
    exact hraise.trans (hdrag.trans (keeps_sendEvent hdrag.sound (hdrag.used hwin) .mouseDown))
  | title =>
    have hclick := hraise.trans (isDoubleClick_keeps v hraise.sound (ref_some hwin))
    refine Keeps.ite (fun _ => ?_) fun _ => ?_
    · exact hclick.trans (windowToggleMaximize_keeps v hclick.sound (hclick.used hw))
    · have hdrag := hclick.trans (startDrag_keeps hclick.sound (hclick.used hw) .move (by decide))
      exact ⟨hdrag.sound, hdrag.live, hdrag.sent⟩
  | close | maximize | minimize =>
    have hdrag := hraise.trans (startDrag_keeps hraise.sound hwin .titleButton (by decide))
    exact ⟨hdrag.sound, hdrag.live, hdrag.sent⟩
  | resize edges =>
    refine Keeps.ite (fun _ => ?_) fun _ => hraise
    have hdrag := hraise.trans (startDrag_keeps hraise.sound hwin .resize (by decide))
    have hzone : Keeps s { s1 with drag := .resize, dragWin := some w, dragZone := .resize edges } :=
      ⟨hdrag.sound, hdrag.live, hdrag.sent⟩
    have hwrite := hzone.trans (keeps_write hzone.sound w
      (f := fun win => { win with snapped := false }) fun _ => ⟨rfl, rfl, rfl⟩)
    exact ⟨hwrite.sound, hwrite.live, hwrite.sent⟩

theorem pressBelow_keeps (v : View) (h : s.Sound) : Keeps s (pressBelow v s) := by
  have href := hitTest_ref s s.mx s.my
  refine Keeps.ite (fun _ => ?_) fun _ => ?_
  · split
    · exact Keeps.refl h
    · exact shellBarClick_keeps v h _
  · refine Keeps.ite (fun _ => ?_) fun _ => ?_
    · split
      · exact Keeps.refl h
      · exact shellDockClick_keeps v h _
    · split
      · have hclick := isDoubleClick_keeps v h (ref_none _)
        exact hclick.trans (windowFocus_keeps hclick.sound (ref_none _))
      · rename_i w zone hhit
        rw [hhit] at href
        exact pressWindow_keeps v h (href w rfl) zone

theorem handleLeftPress_keeps (v : View) (h : s.Sound) : Keeps s (handleLeftPress v s) := by
  refine Keeps.ite (fun _ => ?_) fun _ => ?_
  · split
    · exact Keeps.refl h
    · exact shellMenuLaunch_keeps v h _
  · exact Keeps.ite (fun _ => shellCloseMenu_keeps h) fun _ => pressBelow_keeps v h

theorem releaseButton_keeps (v : View) (h : s.Sound) {w : Nat} (hw : s.Used w) :
    Keeps s (releaseButton v s w) := by
  refine Keeps.ite (fun _ => ?_) fun _ => Keeps.refl h
  split
  · exact windowRequestClose_keeps v h hw
  · exact windowToggleMaximize_keeps v h hw
  · exact windowSetMinimized_keeps v h hw true
  · exact Keeps.refl h

theorem releaseDrag_keeps (v : View) (h : s.Sound) (mode : DragMode) (w? : Option Nat) :
    Ref s.live w? → Keeps s (match mode, w? with
      | .client, some w => s.sendEvent w .mouseUp
      | .move, some w => if s.snapActive then snapApply v s w else s
      | .titleButton, some w => releaseButton v s w
      | _, _ => s) := by
  intro hw
  split
  · exact keeps_sendEvent h (hw _ rfl) .mouseUp
  · exact Keeps.ite (fun _ => snapApply_keeps v h (hw _ rfl)) fun _ => Keeps.refl h
  · exact releaseButton_keeps v h (hw _ rfl)
  · exact Keeps.refl h

theorem handleLeftRelease_keeps (v : View) (h : s.Sound) : Keeps s (handleLeftRelease v s) := by
  have hend := endDrag_keeps h
  have hrelease := hend.trans (releaseDrag_keeps v hend.sound s.drag s.dragWin (hend.ref h.2.dragged))
  exact hrelease.trans (updateHover_keeps v hrelease.sound)

theorem handleOtherButton_keeps (h : s.Sound) (pressed : Bool) : Keeps s (handleOtherButton s pressed) := by
  have href := hitTest_ref s s.mx s.my
  refine Keeps.ite (fun _ => keeps_sendTo h h.2.dragged _) fun _ => ?_
  refine Keeps.ite (fun _ => ?_) fun _ => Keeps.refl h
  split
  · rename_i w hhit
    rw [hhit] at href
    have hw : s.Used w := href w rfl
    refine Keeps.ite (fun _ => Keeps.refl h) fun _ => ?_
    have hraise : Keeps s (if pressed = true ∧ (s.windows w).HasFrame then
        windowFocus (windowRaise s w) (some w) else s) :=
      Keeps.ite (fun _ => raiseFocus_keeps h hw) fun _ => Keeps.refl h
    exact hraise.trans (keeps_sendEvent hraise.sound (hraise.used hw) _)
  · exact Keeps.refl h

theorem pointerGrabUpdate_keeps (v : View) (h : s.Sound) : Keeps s (pointerGrabUpdate v s) := by
  have hgrab := pointerGrabber_ref s
  unfold pointerGrabUpdate
  generalize pointerGrabber s = g at hgrab ⊢
  refine Keeps.ite (fun _ => Keeps.refl h) fun _ => ?_
  have hleave := keeps_sendTo h h.2.grabWin .mouseLeave
  have hset : Keeps s { s.sendTo s.grabWin .mouseLeave with grabWin := g } :=
    ⟨⟨hleave.sound.1, { hleave.sound.2 with grabWin := hleave.ref hgrab }⟩, hleave.live, hleave.sent⟩
  cases g with
  | none => exact hset.trans (updateHover_keeps v hset.sound)
  | some g =>
    have hhover := hset.trans (setHoverWindow_keeps hset.sound (ref_none _))
    exact ⟨hhover.sound, hhover.live, hhover.sent⟩

theorem mouseSteps_keeps (h : s.Sound) (ev : MouseEvent) : Keeps s (mouseSteps s ev).1 :=
  ⟨h, rfl, fun _ he => Or.inl he⟩

theorem handleGrabbedMouseEvent_keeps (h : s.Sound) {g : Nat} (hg : s.Used g) (ev : MouseEvent) :
    Keeps s (handleGrabbedMouseEvent s g ev) := by
  unfold handleGrabbedMouseEvent
  dsimp only
  have hsteps := mouseSteps_keeps h ev
  generalize mouseSteps s ev = out at hsteps ⊢
  obtain ⟨s1, dx, dy⟩ := out
  have hmoved : Keeps s (if dx ≠ 0 ∨ dy ≠ 0 then s1.sendEvent g .mouseRelative else s1) :=
    hsteps.trans (Keeps.ite (fun _ => keeps_sendEvent hsteps.sound (hsteps.used hg) .mouseRelative)
      fun _ => Keeps.refl hsteps.sound)
  generalize (if dx ≠ 0 ∨ dy ≠ 0 then s1.sendEvent g .mouseRelative else s1) = s2 at hmoved ⊢
  have hset : Keeps s { s2 with buttons := ev.buttons } := ⟨hmoved.sound, hmoved.live, hmoved.sent⟩
  have hbuttons := hset.trans (Keeps.foldl_used (f := fun s button =>
    if (ev.buttons ^^^ s2.buttons) &&& button ≠ 0 then
      s.sendEvent g (if ev.buttons &&& button ≠ 0 then .mouseDown else .mouseUp)
    else s) (fun s button hs hw => Keeps.ite (fun _ => keeps_sendEvent hs hw _) fun _ => Keeps.refl hs)
    [sxButtonLeft, sxButtonRight, sxButtonMiddle] hset.sound (hset.used hg))
  exact Keeps.ite (fun _ => hbuttons.trans (keeps_sendEvent hbuttons.sound (hbuttons.used hg) .mouseWheel))
    fun _ => hbuttons

theorem handleButtons_keeps (v : View) (h : s.Sound) (ev : MouseEvent) : Keeps s (handleButtons v s ev) := by
  have hset : Keeps s { s with buttons := ev.buttons } := ⟨h, rfl, fun _ he => Or.inl he⟩
  have hleft := hset.trans (Keeps.ite (c := (ev.buttons ^^^ s.buttons) &&& sxButtonLeft ≠ 0)
    (fun _ => Keeps.ite (c := ev.buttons &&& sxButtonLeft ≠ 0)
      (fun _ => handleLeftPress_keeps v hset.sound) fun _ => handleLeftRelease_keeps v hset.sound)
    fun _ => Keeps.refl hset.sound)
  have hright := hleft.trans (Keeps.ite (c := (ev.buttons ^^^ s.buttons) &&& sxButtonRight ≠ 0)
    (fun _ => handleOtherButton_keeps hleft.sound (decide (ev.buttons &&& sxButtonRight ≠ 0)))
    fun _ => Keeps.refl hleft.sound)
  exact Keeps.ite (fun _ => hright.trans (handleOtherButton_keeps hright.sound _)) fun _ => hright

theorem handleFreeMouseEvent_keeps (v : View) (h : s.Sound) (ev : MouseEvent) :
    Keeps s (handleFreeMouseEvent v s ev) := by
  unfold handleFreeMouseEvent
  dsimp only
  have hsteps := mouseSteps_keeps h ev
  generalize mouseSteps s ev = out at hsteps ⊢
  obtain ⟨s1, dx, dy⟩ := out
  generalize clampPointer (s1.mx + dx) s1.width = nx
  generalize clampPointer (s1.my + dy) s1.height = ny
  have hmoved : Keeps s { s1 with mx := nx, my := ny } := ⟨hsteps.sound, hsteps.live, hsteps.sent⟩
  have hmotion : Keeps s (if nx ≠ s1.mx ∨ ny ≠ s1.my then handleMotion v { s1 with mx := nx, my := ny } else s1) :=
    Keeps.ite (fun _ => hmoved.trans (handleMotion_keeps v hmoved.sound)) fun _ => hsteps
  have hbuttons := hmotion.trans (handleButtons_keeps v hmotion.sound ev)
  refine Keeps.ite (fun _ => hbuttons) fun _ => ?_
  refine Keeps.ite (fun _ => hbuttons.trans (updateHover_keeps v hbuttons.sound)) fun _ => ?_
  have htarget := ref_ite hbuttons.sound.2.dragged hbuttons.sound.2.hoverWin
  exact hbuttons.trans (keeps_sendTo hbuttons.sound (htarget _) .mouseWheel)

theorem handleMouseEvent_keeps (v : View) (h : s.Sound) (ev : MouseEvent) : Keeps s (handleMouseEvent v s ev) := by
  unfold handleMouseEvent
  dsimp only
  have hgrab := pointerGrabUpdate_keeps v h
  split
  · rename_i g hg
    exact hgrab.trans (handleGrabbedMouseEvent_keeps hgrab.sound (hgrab.sound.2.grabWin g hg) ev)
  · exact hgrab.trans (handleFreeMouseEvent_keeps v hgrab.sound ev)

end

end Desktop
