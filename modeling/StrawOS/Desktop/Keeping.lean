import StrawOS.Desktop.Clients

/-!
# Input keeps the references

What the server does for a click, a key or a request about a window refers only to windows
that it finds in the stacking order, in the slots or in a reference it has already.
-/

namespace Desktop

section

variable {s : Server}

/-! ## Windows -/

theorem setFocused_keeps (h : s.Sound) {w : Option Nat} (hw : Ref s.live w) :
    Keeps s { s with focused := w } := ⟨⟨h.1, { h.2 with focused := hw }⟩, rfl, fun _ he => Or.inl he⟩

theorem windowFocus_keeps (h : s.Sound) {w : Option Nat} (hw : Ref s.live w) : Keeps s (windowFocus s w) := by
  unfold windowFocus
  split
  · exact Keeps.refl h
  · have hset := setFocused_keeps h hw
    have hout := hset.trans (keeps_sendTo hset.sound h.2.focused .focusOut)
    exact hout.trans (keeps_sendTo hout.sound (hout.ref hw) .focusIn)

theorem mem_takeOut {l : List Nat} (h : l.Nodup) {w k : Nat} : k ∈ takeOut l w ↔ k ≠ w ∧ k ∈ l := by
  unfold takeOut
  rw [List.mem_reverse, List.Nodup.mem_erase_iff (List.nodup_reverse.2 h), List.mem_reverse]

theorem takeOut_nodup {l : List Nat} (h : l.Nodup) (w : Nat) : (takeOut l w).Nodup :=
  List.nodup_reverse.2 ((List.nodup_reverse.2 h).erase w)

theorem windowRaise_keeps (h : s.Sound) (w : Nat) : Keeps s (windowRaise s w) := by
  unfold windowRaise
  split
  · rename_i hmem
    have htop : w ∉ takeOut s.zorder w := fun hin => ((mem_takeOut h.1.nodup).1 hin).1 rfl
    refine ⟨⟨{ h.1 with nodup := ?_, mem := ?_ }, h.2⟩, rfl, fun _ he => Or.inl he⟩
    · rw [List.nodup_append]
      refine ⟨takeOut_nodup h.1.nodup w, List.nodup_singleton w, ?_⟩
      intro a ha b hb hab
      obtain rfl := List.mem_singleton.1 hb
      exact htop (hab ▸ ha)
    · intro k
      rw [List.mem_append, mem_takeOut h.1.nodup, List.mem_singleton, h.1.mem]
      constructor
      · intro hk
        rcases hk with ⟨-, hk⟩ | rfl
        · exact hk
        · exact (h.1.mem _).1 hmem
      · intro hk
        by_cases hkw : k = w
        · exact Or.inr hkw
        · exact Or.inl ⟨hkw, hk⟩
  · exact Keeps.refl h

theorem raiseFocus_keeps (h : s.Sound) {w : Nat} (hw : s.Used w) :
    Keeps s (windowFocus (windowRaise s w) (some w)) := by
  have hraise := windowRaise_keeps h w
  exact hraise.trans (windowFocus_keeps hraise.sound (ref_some (hraise.used hw)))

theorem windowSendConfigure_keeps (h : s.Sound) {w : Nat} (hw : s.Used w) :
    Keeps s (windowSendConfigure s w) := by
  have hdriven := keeps_write h w (f := fun win => { win with sizeDriven := true }) fun _ => ⟨rfl, rfl, rfl⟩
  refine Keeps.ite (fun _ => hdriven) fun _ => ?_
  have hsent := hdriven.trans (keeps_sendEvent hdriven.sound (hdriven.used hw) .configure)
  exact hsent.trans (keeps_write hsent.sound w fun _ => ⟨rfl, rfl, rfl⟩)

theorem windowSetSize_keeps (h : s.Sound) {w : Nat} (hw : s.Used w) (nw nh : Int) :
    Keeps s (windowSetSize s w nw nh) := by
  refine Keeps.ite (fun _ => Keeps.refl h) fun _ => ?_
  have hwrite := keeps_write h w (f := fun win => { win with w := nw, h := nh }) fun _ => ⟨rfl, rfl, rfl⟩
  exact hwrite.trans (windowSendConfigure_keeps hwrite.sound (hwrite.used hw))

theorem windowAttach_keeps (h : s.Sound) {w : Nat} (hw : s.Used w) (buf : Nat) (bw bh stride : Int) :
    Keeps s (windowAttach s w buf bw bh stride) := by
  refine Keeps.ite (fun _ => Keeps.refl h) fun _ => ?_
  have hrelease : Keeps s (if (s.windows w).buf ≠ 0 ∧ (s.windows w).buf ≠ buf then
      s.sendEvent w .bufferRelease else s) :=
    Keeps.ite (fun _ => keeps_sendEvent h hw .bufferRelease) fun _ => Keeps.refl h
  have hwrite := hrelease.trans (keeps_write hrelease.sound w
    (f := fun win => { win with buf := buf, bufW := bw, bufH := bh, bufStride := stride, cfgPending := false })
    fun _ => ⟨rfl, rfl, rfl⟩)
  refine Keeps.ite (fun _ => ?_) fun _ => ?_
  · refine Keeps.ite (fun _ => ?_) fun _ => ?_
    · exact hwrite.trans (keeps_write hwrite.sound w fun _ => ⟨rfl, rfl, rfl⟩)
    · exact hwrite.trans (windowSendConfigure_keeps hwrite.sound (hwrite.used hw))
  · refine Keeps.ite (fun _ => ?_) fun _ => hwrite
    exact hwrite.trans (keeps_write hwrite.sound w fun _ => ⟨rfl, rfl, rfl⟩)

/-- The focus goes to another window when this one is no longer seen. -/
theorem refocus_keeps (h : s.Sound) (c : Prop) [Decidable c] (except : Option Nat) :
    Keeps s (if c then windowFocus s (topmostVisible s except) else s) :=
  Keeps.ite (fun _ => windowFocus_keeps h (topmostVisible_ref s except)) fun _ => Keeps.refl h

theorem windowSetMinimized_keeps (v : View) (h : s.Sound) {w : Nat} (hw : s.Used w) (minimized : Bool) :
    Keeps s (windowSetMinimized v s w minimized) := by
  refine Keeps.ite (fun _ => Keeps.refl h) fun _ => ?_
  dsimp only
  have hanim : Keeps s (if minimized = true then animWindowMinimize v s w else s) :=
    Keeps.ite (fun _ => animBegin_keeps h hw false _) fun _ => Keeps.refl h
  have hwrite := hanim.trans (keeps_write hanim.sound w
    (f := fun win => { win with minimized := minimized }) fun _ => ⟨rfl, rfl, rfl⟩)
  generalize (Server.write (if minimized = true then animWindowMinimize v s w else s) w
    fun win => { win with minimized := minimized }) = s1 at hwrite ⊢
  have hrestore : Keeps s (if minimized = true then s1 else animWindowRestore v s1 w) :=
    Keeps.ite (fun _ => hwrite) fun _ =>
      hwrite.trans (animBegin_keeps hwrite.sound (hwrite.used hw) true _)
  exact hrestore.trans (refocus_keeps hrestore.sound _ (some w))

/-- A picture of the window before a change is shown on the way to the one after it. -/
theorem reframe_keeps {s' : Server} (h : Keeps s s') {w : Nat} (hw : s.Used w) (before : Bool) :
    Keeps s (if before = true then animWindowReframe s' w before else s') :=
  Keeps.ite (fun _ => h.trans (animBegin_keeps h.sound (h.used hw) true before)) fun _ => h

theorem windowSetMaximized_keeps (v : View) (h : s.Sound) {w : Nat} (hw : s.Used w) (on : Bool)
    (restore : Rect) : Keeps s (windowSetMaximized v s w on restore) := by
  refine Keeps.ite (fun _ => Keeps.refl h) fun _ => ?_
  have hon := keeps_write h w (f := fun win => { win with maximized := on }) fun _ => ⟨rfl, rfl, rfl⟩
  refine reframe_keeps ?_ hw _
  refine Keeps.ite (fun _ => ?_) fun _ => ?_
  · have hplace := hon.trans (keeps_write hon.sound w (f := fun win => { win with
      restore := restore
      snapped := false
      x := (maximizedRect (s.write w fun win => { win with maximized := on })).x
      y := (maximizedRect (s.write w fun win => { win with maximized := on })).y }) fun _ => ⟨rfl, rfl, rfl⟩)
    exact hplace.trans (windowSetSize_keeps hplace.sound (hplace.used hw) _ _)
  · have hplace := hon.trans (keeps_write hon.sound w (f := fun win => { win with
      x := ((s.write w fun win => { win with maximized := on }).windows w).restore.x
      y := ((s.write w fun win => { win with maximized := on }).windows w).restore.y })
      fun _ => ⟨rfl, rfl, rfl⟩)
    exact hplace.trans (windowSetSize_keeps hplace.sound (hplace.used hw) _ _)

theorem windowToggleMaximize_keeps (v : View) (h : s.Sound) {w : Nat} (hw : s.Used w) :
    Keeps s (windowToggleMaximize v s w) := windowSetMaximized_keeps v h hw _ _

theorem windowRequestClose_keeps (v : View) (h : s.Sound) {w : Nat} (hw : s.Used w) :
    Keeps s (windowRequestClose v s w) := by
  have hnote := animNoteCloseRequest_keeps v h w
  exact hnote.trans (keeps_sendEvent hnote.sound (hnote.used hw) .close)

/-! ## Hover -/

theorem setHoverWindow_keeps (h : s.Sound) {w : Option Nat} (hw : Ref s.live w) :
    Keeps s (setHoverWindow s w) := by
  refine Keeps.ite (fun _ => Keeps.refl h) fun _ => ?_
  have hleave := keeps_sendTo h h.2.hoverWin .mouseLeave
  have hset : Keeps s { s.sendTo s.hoverWin .mouseLeave with hoverWin := w } :=
    ⟨⟨hleave.sound.1, { hleave.sound.2 with hoverWin := hleave.ref hw }⟩, hleave.live, hleave.sent⟩
  exact hset.trans (keeps_sendTo hset.sound (hset.ref hw) .mouseEnter)

theorem setFrameHover_keeps (h : s.Sound) {w : Option Nat} (hw : Ref s.live w) (zone : HitZone) :
    Keeps s (setFrameHover s w zone) := by
  refine Keeps.ite (fun _ => ?_) fun _ => ?_
  · exact ⟨⟨h.1, { h.2 with hoverFrameWin := hw }⟩, rfl, fun _ he => Or.inl he⟩
  · exact ⟨⟨h.1, { h.2 with hoverFrameWin := ref_none _ }⟩, rfl, fun _ he => Or.inl he⟩

theorem updateHover_keeps (v : View) (h : s.Sound) : Keeps s (updateHover v s) := by
  unfold updateHover
  dsimp only
  generalize (_ || _ || _ : Bool) = overShell
  generalize hhit : (if overShell = true then ((none, HitZone.none) : Option Nat × HitZone)
    else hitTest s s.mx s.my) = hit
  have href : Ref s.live hit.1 := by
    rw [← hhit]
    split
    · exact ref_none _
    · exact hitTest_ref s s.mx s.my
  have hover := ref_ite href (ref_none _) (hit.2 = .client)
  have hframe := setFrameHover_keeps h href hit.2
  have hwin := hframe.trans (setHoverWindow_keeps hframe.sound (hframe.ref hover))
  exact hwin.trans (keeps_sendTo hwin.sound (hwin.ref hover) .mouseMove)

/-! ## Workspaces -/

theorem windowPlace_keeps (v : View) (h : s.Sound) {w : Nat} (hw : s.Used w) (frame : Rect) (animate : Bool) :
    Keeps s (windowPlace v s w frame animate) := by
  refine Keeps.ite (fun _ => Keeps.refl h) fun _ => ?_
  have hwrite := keeps_write h w (f := fun win =>
    { win with x := (frameToClient frame).x, y := (frameToClient frame).y }) fun _ => ⟨rfl, rfl, rfl⟩
  exact reframe_keeps (hwrite.trans (windowSetSize_keeps hwrite.sound (hwrite.used hw) _ _)) hw _

theorem setWsFocus_keeps (h : s.Sound) (i : Fin workspaces) {w : Option Nat} (hw : Ref s.live w) :
    Keeps s { s with wsFocus := Function.update s.wsFocus i w } := by
  refine ⟨⟨h.1, { h.2 with wsFocus := ?_ }⟩, rfl, fun _ he => Or.inl he⟩
  intro j
  change Ref s.live (Function.update s.wsFocus i w j)
  by_cases hj : j = i
  · subst hj
    rw [Function.update_self]
    exact hw
  · rw [Function.update_of_ne hj]
    exact h.2.wsFocus j

theorem clear_ref {live : Nat → Option (UInt32 × Nat)} {r : Option Nat} (h : Ref live r) (w : Nat) :
    Ref live (clear w r) := by
  unfold clear
  split
  · exact ref_none _
  · exact h

theorem endDrag_keeps (h : s.Sound) : Keeps s { s with drag := .none, dragWin := none } := by
  refine ⟨⟨h.1, { h.2 with dragged := ref_none _, dragging := ?_ }⟩, rfl, fun _ he => Or.inl he⟩
  exact iff_of_false (fun hno => hno rfl) Bool.false_ne_true

theorem switchFocus_keeps (v : View) (h : s.Sound) {f : Option Nat} (hf : Ref s.live f) :
    Keeps s (updateHover v
      (windowFocus s (if ∃ w ∈ f, s.WindowVisible w then f else topmostVisible s none))) := by
  have href := ref_ite hf (topmostVisible_ref s none) (∃ w ∈ f, s.WindowVisible w)
  have hfocus := windowFocus_keeps h href
  exact hfocus.trans (updateHover_keeps v hfocus.sound)

theorem workspaceSwitch_keeps (v : View) (h : s.Sound) (ws : Fin workspaces) :
    Keeps s (workspaceSwitch v s ws) := by
  refine Keeps.ite (fun _ => Keeps.refl h) fun _ => ?_
  dsimp only
  generalize hcarry : (if s.drag = .move then s.dragWin else none) = carry
  have hcarryRef : Ref s.live carry := hcarry ▸ ref_ite h.2.dragged (ref_none _) (s.drag = .move)
  have hdrag : Keeps s (if carry = none then { s with drag := .none, dragWin := none } else s) :=
    Keeps.ite (fun _ => endDrag_keeps h) fun _ => Keeps.refl h
  generalize (if carry = none then { s with drag := .none, dragWin := none } else s) = s1 at hdrag ⊢
  have hold := setWsFocus_keeps hdrag.sound s1.workspace hdrag.sound.2.focused
  have hws : Keeps s { s1 with wsFocus := Function.update s1.wsFocus s1.workspace s1.focused, workspace := ws } :=
    hdrag.trans ⟨hold.sound, hold.live, hold.sent⟩
  generalize ({ s1 with
    wsFocus := Function.update s1.wsFocus s1.workspace s1.focused, workspace := ws } : Server) = s2 at hws ⊢
  cases carry with
  | none =>
    have hsnap : Keeps s { s2 with snapActive := false } := ⟨hws.sound, hws.live, hws.sent⟩
    exact hsnap.trans (switchFocus_keeps v hsnap.sound (hsnap.sound.2.wsFocus ws))
  | some w =>
    have hwrite := hws.trans (keeps_write hws.sound w
      (f := fun win => { win with workspace := ws }) fun _ => ⟨rfl, rfl, rfl⟩)
    have hsnap : Keeps s { s2.write w fun win => { win with workspace := ws } with snapActive := false } :=
      ⟨hwrite.sound, hwrite.live, hwrite.sent⟩
    exact hsnap.trans (switchFocus_keeps v hsnap.sound (hsnap.ref hcarryRef))

theorem windowMoveToWorkspace_keeps (v : View) (h : s.Sound) {w : Option Nat} (hw : Ref s.live w)
    (ws : Fin workspaces) : Keeps s (windowMoveToWorkspace v s w ws) := by
  cases w with
  | none => exact Keeps.refl h
  | some w =>
    refine Keeps.ite (fun _ => Keeps.refl h) fun _ => ?_
    have hold := setWsFocus_keeps h (s.windows w).workspace (clear_ref (h.2.wsFocus (s.windows w).workspace) w)
    have hwrite := hold.trans (keeps_write hold.sound w
      (f := fun win => { win with workspace := ws }) fun _ => ⟨rfl, rfl, rfl⟩)
    have hnew := hwrite.trans (setWsFocus_keeps hwrite.sound ws (hwrite.ref hw))
    have hfocus := hnew.trans (refocus_keeps hnew.sound (s.focused = some w) none)
    exact hfocus.trans (updateHover_keeps v hfocus.sound)

theorem focusNeighbour_keeps (h : s.Sound) (right : Bool) : Keeps s (focusNeighbour s right) := by
  unfold focusNeighbour
  dsimp only
  split
  · exact Keeps.refl h
  · rename_i w hw
    exact raiseFocus_keeps h (used_of_mem h (List.mem_of_mem_filter (List.mem_of_getElem? hw)))

theorem snapSet_keeps (h : s.Sound) (active : Bool) (r : Rect) (kind : SnapKind) :
    Keeps s (snapSet s active r kind) :=
  Keeps.ite (fun _ => Keeps.refl h) fun _ => ⟨h, rfl, fun _ he => Or.inl he⟩

theorem snapUpdate_keeps (h : s.Sound) (w : Nat) : Keeps s (snapUpdate s w) := by
  refine Keeps.ite (fun _ => snapSet_keeps h _ _ _) fun _ => ?_
  refine Keeps.ite (fun _ => snapSet_keeps h _ _ _) fun _ => ?_
  refine Keeps.ite (fun _ => snapSet_keeps h _ _ _) fun _ => ?_
  exact Keeps.ite (fun _ => snapSet_keeps h _ _ _) fun _ => snapSet_keeps h _ _ _

theorem snapApply_keeps (v : View) (h : s.Sound) {w : Nat} (hw : s.Used w) : Keeps s (snapApply v s w) := by
  refine Keeps.ite (fun _ => Keeps.refl h) fun _ => ?_
  have happlied : Keeps s (if s.snapKind = .max then windowSetMaximized v s w true s.dragOrigRect
      else windowPlace v (s.write w fun win => { win with restore := s.dragOrigRect, snapped := true }) w
        s.snapRect true) := by
    refine Keeps.ite (fun _ => windowSetMaximized_keeps v h hw _ _) fun _ => ?_
    have hwrite := keeps_write h w (f := fun win => { win with restore := s.dragOrigRect, snapped := true })
      fun _ => ⟨rfl, rfl, rfl⟩
    exact hwrite.trans (windowPlace_keeps v hwrite.sound (hwrite.used hw) _ _)
  exact happlied.trans (snapSet_keeps happlied.sound _ _ _)

theorem dragDetach_keeps (v : View) (h : s.Sound) {w : Nat} (hw : s.Used w) : Keeps s (dragDetach v s w) := by
  have hwrite := keeps_write h w (f := fun win => { win with
    maximized := false
    snapped := false
    x := v.detachX s w
    y := s.my - (s.dragStartMy - (windowClientRect (s.windows w)).y) }) fun _ => ⟨rfl, rfl, rfl⟩
  have hsize := hwrite.trans (windowSetSize_keeps hwrite.sound (hwrite.used hw)
    (s.windows w).restore.w (s.windows w).restore.h)
  exact hsize.trans ⟨hsize.sound, rfl, fun _ he => Or.inl he⟩

end

end Desktop
