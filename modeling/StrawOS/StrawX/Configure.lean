import StrawOS.StrawX.Ownership

/-!
# No message is waited for in vain

Both sides wait for messages: the program for the release of a buffer, the server for
the answer to a configure event.  As long as there is room for the events of the
window, each of them is on its way or has been answered, and once the channels are
empty the window and its buffer agree about the size.  When the ring of the
program is full the wait does not end.
-/

namespace StrawX

/-- An attach that the server accepts. -/
def Req.Accepted : Req → Prop
  | .attachBuffer pixels w h stride => pixels ≠ 0 ∧ 0 < w ∧ 0 < h ∧ w ≤ stride
  | _ => False

/-- The events of the window that the server sends in a step. -/
def World.sentEvents (st : World) : WorldOp → List Evt
  | .clientHandle =>
    match st.requests with
    | [] => []
    | r :: _ => (st.server.clientHandle r).2
  | .setSize maximized nw nh => ({ st.server with maximized := maximized }.windowSetSize nw nh).2
  | _ => []

/-- There is room for them in the ring of the program. -/
def Room (st : World) (op : WorldOp) : Prop :=
  st.unread + (st.sentEvents op).length * evtSize ≤ Sock.sockBufSize

theorem sendEvents_room {es : List Evt} (st : World)
    (h : st.unread + es.length * evtSize ≤ Sock.sockBufSize) :
    (es.foldl World.sendEvent st).events = st.events ++ es ∧
      (es.foldl World.sendEvent st).client = st.client ∧
      (es.foldl World.sendEvent st).server = st.server ∧
      (es.foldl World.sendEvent st).requests = st.requests ∧
      (es.foldl World.sendEvent st).seen = st.seen ∧
      (es.foldl World.sendEvent st).committed = st.committed := by
  induction es generalizing st with
  | nil => simp
  | cons e es ih =>
    rw [List.length_cons] at h
    have hfits : st.unread + evtSize ≤ Sock.sockBufSize := by
      have : evtSize ≤ (es.length + 1) * evtSize := Nat.le_mul_of_pos_left _ (Nat.succ_pos _)
      omega
    have hsent : st.sendEvent e =
        { st with events := st.events ++ [e], unread := st.unread + evtSize } := if_pos hfits
    have hroom : (st.sendEvent e).unread + es.length * evtSize ≤ Sock.sockBufSize := by
      rw [hsent]
      dsimp only
      rw [Nat.add_mul, Nat.one_mul] at h
      omega
    obtain ⟨h1, h2, h3, h4, h5, h6⟩ := ih _ hroom
    rw [List.foldl_cons, h1, h2, h3, h4, h5, h6, hsent]
    simp

/-! ## Flags of the server -/

/-- A server that waits has asked, and one that does not wait agrees about the size. -/
structure Server.Agrees (s : Server) : Prop where
  driven : s.sizeDriven = true → s.cfgPending = true
  settled : s.buf ≠ 0 → s.sizeDriven = false → s.bufW = s.w ∧ s.bufH = s.h
  unset : s.buf = 0 → s.bufW = 0 ∧ s.bufH = 0

theorem windowSendConfigure_flags (s : Server) :
    s.windowSendConfigure.1.sizeDriven = true ∧ s.windowSendConfigure.1.cfgPending = true ∧
      (s.cfgPending = false → ∃ w h, Evt.configure w h ∈ s.windowSendConfigure.2) := by
  rw [Server.windowSendConfigure]
  cases hp : s.cfgPending with
  | true => exact ⟨rfl, rfl, fun hno => by cases hno⟩
  | false => exact ⟨rfl, rfl, fun _ => ⟨s.w, s.h, List.mem_singleton_self _⟩⟩

/-- **A new size**: the server agrees, and when it begins to wait it asks. -/
theorem windowSetSize_flags {s : Server} (h : s.Agrees) (nw nh : Int) :
    (s.windowSetSize nw nh).1.Agrees ∧ ((s.windowSetSize nw nh).1.cfgPending = true →
      s.cfgPending = true ∨ ∃ w h, Evt.configure w h ∈ (s.windowSetSize nw nh).2) := by
  obtain ⟨hbuf, hbw, hbh, -, -⟩ := windowSetSize_spec s nw nh
  rw [Server.windowSetSize] at hbuf hbw hbh ⊢
  split
  · exact ⟨h, Or.inl⟩
  · rename_i hchange
    rw [if_neg hchange] at hbuf hbw hbh
    obtain ⟨hdriven, hpending, hasked⟩ := windowSendConfigure_flags { s with w := nw, h := nh }
    refine ⟨⟨fun _ => hpending, ?_, ?_⟩, ?_⟩
    · intro _ hno
      rw [hdriven] at hno
      cases hno
    · intro hz
      rw [hbuf] at hz
      rw [hbw, hbh]
      exact h.unset hz
    · grind

/-- **An attach** that is accepted ends the wait, or the server asks again. -/
theorem windowAttach_flags {s : Server} (h : s.Agrees) {buf : Nat} {bw bh stride : Int}
    (hacc : (Req.attachBuffer buf bw bh stride).Accepted) :
    (s.windowAttach buf bw bh stride).1.Agrees ∧
      ((s.windowAttach buf bw bh stride).1.cfgPending = true →
        ∃ w h, Evt.configure w h ∈ (s.windowAttach buf bw bh stride).2) := by
  obtain ⟨hbuf, hw, hh, hstride⟩ := hacc
  rw [Server.windowAttach, if_neg (by omega)]
  dsimp only
  split
  · split
    · rename_i hsize
      exact ⟨⟨(fun hno => by cases hno), fun _ _ => hsize, fun hz => absurd hz hbuf⟩, fun hno => by cases hno⟩
    · obtain ⟨hdriven, hpending, hasked⟩ := windowSendConfigure_flags
        { s with buf := buf, bufW := bw, bufH := bh, bufStride := stride, cfgPending := false }
      refine ⟨⟨fun _ => hpending, ?_, ?_⟩, ?_⟩
      · intro _ hno
        cases hno
      · intro hz
        exact absurd hz hbuf
      · grind
  · rename_i hdriven
    split
    · refine ⟨⟨?_, fun _ _ => ⟨rfl, rfl⟩, fun hz => absurd hz hbuf⟩, fun hno => by cases hno⟩
      intro hno
      exact absurd hno hdriven
    · rename_i hsame
      simp only [ne_eq, not_or, not_not] at hsame
      refine ⟨⟨?_, ?_, fun hz => absurd hz hbuf⟩, fun hno => by cases hno⟩
      · intro hno
        exact absurd hno hdriven
      · intro _ _
        -- The size is that of the buffer before, which was not empty.
        by_cases hz : s.buf = 0
        · have := h.unset hz
          omega
        · obtain ⟨h1, h2⟩ := h.settled hz (by simpa using hdriven)
          exact ⟨hsame.1.trans h1, hsame.2.trans h2⟩

/-! ## The invariant -/

/-- A busy buffer is attached, or its attach or its release is on its way. -/
def World.Tracked (st : World) (a : Nat) : Prop :=
  (∃ r ∈ st.requests, r.Accepted ∧ r.buffer = some a) ∨ st.server.buf = a ∨
    Evt.bufferRelease a ∈ st.events

/-- Nothing is lost. -/
structure World.Live (st : World) : Prop where
  client : st.client.Sound
  busy : ∀ i, (st.client.buffers i).busy = true → st.Tracked (st.client.buffers i).pixels
  agrees : st.server.Agrees
  pending : st.server.cfgPending = true → (∃ w h, Evt.configure w h ∈ st.events) ∨ st.seen = true
  answered : st.seen = true → st.committed = true → ∃ r ∈ st.requests, r.Accepted
  arrived : st.committed = true → (∃ r ∈ st.requests, r.Accepted) ∨ st.server.buf ≠ 0

namespace World.Live

variable {st : World}

theorem keeps (h : st.Live) {c : Client} (hc : c.Sound ∧ st.client.Keeps c) :
    ({ st with client := c } : World).Live := by
  refine ⟨hc.1, ?_, h.agrees, h.pending, h.answered, h.arrived⟩
  intro i hi
  have hsame := hc.2 i (Or.inr hi)
  rw [hsame] at hi ⊢
  exact h.busy i hi

theorem tracked_append {a : Nat} (ht : st.Tracked a) (rs : List Req) (c : Client) (committed : Bool) :
    ({ st with client := c, requests := st.requests ++ rs, committed := committed } : World).Tracked a := by
  rcases ht with ⟨r, hr, hacc⟩ | ht
  · exact Or.inl ⟨r, List.mem_append_left _ hr, hacc⟩
  · exact Or.inr ht

/-- **A commit**: an attach goes on its way. -/
theorem damageFinish (h : st.Live) : st.damageFinish.Live := by
  have hclient := h.client.damageFinish
  rw [World.damageFinish]
  cases hback : st.client.back with
  | none =>
    -- What is attached is no buffer, and none becomes busy.
    refine ⟨hclient, ?_, h.agrees, h.pending, ?_, ?_⟩
    · intro i hi
      rw [Client.damageFinish, hback] at hi ⊢
      exact tracked_append (h.busy i hi) _ _ _
    · intro hseen hcommitted
      obtain ⟨r, hr, hacc⟩ := h.answered hseen (by simpa using hcommitted)
      exact ⟨r, List.mem_append_left _ hr, hacc⟩
    · intro hcommitted
      rcases h.arrived (by simpa using hcommitted) with ⟨r, hr, hacc⟩ | hbuf
      · exact Or.inl ⟨r, List.mem_append_left _ hr, hacc⟩
      · exact Or.inr hbuf
  | some i =>
    have hpixels := (h.client.back i hback).2
    obtain ⟨hw, hh, -⟩ := h.client.block i hpixels
    have hattached : st.client.attached = st.client.buffers i := by
      rw [Client.attached, hback]
    rw [hattached]
    have hacc : (Req.attachBuffer (st.client.buffers i).pixels (st.client.buffers i).w
        (st.client.buffers i).h (st.client.buffers i).w).Accepted := ⟨hpixels, hw, hh, Int.le_refl _⟩
    have hmem : Req.attachBuffer (st.client.buffers i).pixels (st.client.buffers i).w
        (st.client.buffers i).h (st.client.buffers i).w ∈ st.requests ++
          [Req.attachBuffer (st.client.buffers i).pixels (st.client.buffers i).w
            (st.client.buffers i).h (st.client.buffers i).w, .damage] :=
      List.mem_append_right _ List.mem_cons_self
    refine ⟨hclient, ?_, h.agrees, h.pending, fun _ _ => ⟨_, hmem, hacc⟩,
      fun _ => Or.inl ⟨_, hmem, hacc⟩⟩
    intro j hj
    rw [Client.damageFinish, hback] at hj ⊢
    dsimp only at hj ⊢
    by_cases hji : j = i
    · subst hji
      rw [Function.update_self]
      exact Or.inl ⟨_, hmem, hacc, rfl⟩
    · rw [Function.update_of_ne hji] at hj ⊢
      exact tracked_append (h.busy j hj) _ _ _

/-- **An event is handled.** -/
theorem handle (h : st.Live) {e : Evt} {rest : List Evt} (he : st.events = e :: rest) :
    ({ st.handle e with events := rest } : World).Live := by
  have hbusy : ∀ i, ((st.client.sxHandleMessage e).buffers i).busy = true →
      ({ st.handle e with events := rest } : World).Tracked
        ((st.client.sxHandleMessage e).buffers i).pixels := by
    intro i hi
    obtain ⟨-, -, -, hkept⟩ := sxHandleMessage_same st.client e i
    obtain ⟨hsame, hne⟩ := hkept hi
    rw [hsame] at hi ⊢
    -- Another event than the one that is handled is still on its way.
    rcases h.busy i hi with ht | ht | ht
    · exact Or.inl ht
    · exact Or.inr (Or.inl ht)
    · rw [he] at ht
      rcases List.mem_cons.mp ht with ht | ht
      · exact absurd ht.symm hne
      · exact Or.inr (Or.inr ht)
  have hpending : (∀ w hh, e ≠ .configure w hh) → st.server.cfgPending = true →
      (∃ w hh, Evt.configure w hh ∈ rest) ∨ st.seen = true := by
    intro hne hp
    rcases h.pending hp with ⟨w, hh, hmem⟩ | hseen
    · grind
    · exact Or.inr hseen
  have hclient := h.client.sxHandleMessage e
  cases e with
  | configure w hh =>
    exact ⟨hclient, hbusy, h.agrees, fun _ => Or.inr rfl, (fun _ hno => nomatch hno),
      fun hno => by cases hno⟩
  | other => exact ⟨hclient, hbusy, h.agrees, hpending (by simp), h.answered, h.arrived⟩
  | bufferRelease b => exact ⟨hclient, hbusy, h.agrees, hpending (by simp), h.answered, h.arrived⟩

/-- **Events are handled** in order. -/
theorem handleAll (h : st.Live) {es rest : List Evt} (he : st.events = es ++ rest) :
    ({ es.foldl World.handle st with events := rest } : World).Live := by
  induction es generalizing st with
  | nil =>
    subst he
    exact h
  | cons e es ih =>
    have hfirst := h.handle (show st.events = e :: (es ++ rest) from he)
    have hrest := ih hfirst rfl
    rw [World.Owned.foldl_handle_events] at hrest
    exact hrest

theorem sxPump (h : st.Live) : st.sxPump.Live := by
  have hall := h.handleAll (List.take_append_drop ((st.client.rxLen +
    min (sxRxMax - st.client.rxLen) st.unread) / evtSize) st.events).symm
  exact ⟨⟨hall.client.distinct, hall.client.block, hall.client.empty, hall.client.back⟩, hall.busy,
    hall.agrees, hall.pending, hall.answered, hall.arrived⟩

theorem otherEvent (h : st.Live) : (st.sendEvent .other).Live := by
  rw [World.sendEvent]
  split
  · refine ⟨h.client, ?_, h.agrees, ?_, h.answered, h.arrived⟩
    · intro i hi
      rcases h.busy i hi with ht | ht | ht
      · exact Or.inl ht
      · exact Or.inr (Or.inl ht)
      · exact Or.inr (Or.inr (List.mem_append_left _ ht))
    · intro hp
      rcases h.pending hp with ⟨w, hh, hmem⟩ | hseen
      · exact Or.inl ⟨w, hh, List.mem_append_left _ hmem⟩
      · exact Or.inr hseen
  · exact h

theorem dropRequest (h : st.Live) {r : Req} {rest : List Req} (hr : st.requests = r :: rest)
    (hacc : ¬ r.Accepted) : ({ st with requests := rest } : World).Live := by
  have hrest : ∀ {r'}, r' ∈ st.requests → r'.Accepted → r' ∈ rest := by grind
  refine ⟨h.client, ?_, h.agrees, h.pending, ?_, ?_⟩
  · intro i hi
    rcases h.busy i hi with ⟨r', hmem, hacc', hbuffer⟩ | ht
    · exact Or.inl ⟨r', hrest hmem hacc', hacc', hbuffer⟩
    · exact Or.inr ht
  · intro hseen hcommitted
    obtain ⟨r', hmem, hacc'⟩ := h.answered hseen hcommitted
    exact ⟨r', hrest hmem hacc', hacc'⟩
  · intro hcommitted
    rcases h.arrived hcommitted with ⟨r', hmem, hacc'⟩ | hbuf
    · exact Or.inl ⟨r', hrest hmem hacc', hacc'⟩
    · exact Or.inr hbuf

/-- **A new size** with room for the event. -/
theorem setSize (h : st.Live) {s : Server} (hs : s.Agrees) (hbuf : s.buf = st.server.buf)
    (hpend : s.cfgPending = st.server.cfgPending) {nw nh : Int}
    (hroom : st.unread + (s.windowSetSize nw nh).2.length * evtSize ≤ Sock.sockBufSize) :
    (st.serverStep (s.windowSetSize nw nh)).Live := by
  obtain ⟨hagrees, hpending⟩ := windowSetSize_flags hs nw nh
  obtain ⟨hbuf', -, -, -, -⟩ := windowSetSize_spec s nw nh
  obtain ⟨h1, h2, h3, h4, h5, h6⟩ :=
    sendEvents_room { st with server := (s.windowSetSize nw nh).1 } hroom
  rw [World.serverStep]
  refine ⟨by rw [h2]; exact h.client, ?_, by rw [h3]; exact hagrees, ?_, ?_, ?_⟩
  · rw [h2]
    intro i hi
    rw [World.Tracked, h1, h3, h4, hbuf', hbuf]
    rcases h.busy i hi with ht | ht | ht
    · exact Or.inl ht
    · exact Or.inr (Or.inl ht)
    · exact Or.inr (Or.inr (List.mem_append_left _ ht))
  · rw [h1, h3, h5]
    intro hp
    rcases hpending hp with hp | ⟨w, hh, hmem⟩
    · rw [hpend] at hp
      rcases h.pending hp with ⟨w, hh, hmem⟩ | hseen
      · exact Or.inl ⟨w, hh, List.mem_append_left _ hmem⟩
      · exact Or.inr hseen
    · exact Or.inl ⟨w, hh, List.mem_append_right _ hmem⟩
  · rw [h4, h5, h6]
    exact h.answered
  · rw [h3, h4, h6, hbuf', hbuf]
    exact h.arrived

/-- **An attach arrives** with room for its events. -/
theorem attach (h : st.Live) {a : Nat} {w hh s : Int} {rest : List Req}
    (hr : st.requests = .attachBuffer a w hh s :: rest)
    (hacc : (Req.attachBuffer a w hh s).Accepted)
    (hroom : st.unread + (st.server.windowAttach a w hh s).2.length * evtSize ≤ Sock.sockBufSize) :
    (({ st with requests := rest, seen := false } : World).serverStep
      (st.server.windowAttach a w hh s)).Live := by
  obtain ⟨hagrees, hpending⟩ := windowAttach_flags h.agrees hacc
  obtain ⟨ha, hw, hh', hstride⟩ := hacc
  obtain ⟨hbuf, -, -, -, es, hes, hsent⟩ := windowAttach_spec st.server ha hw hh' hstride
  obtain ⟨h1, h2, h3, h4, h5, h6⟩ := sendEvents_room { st with
    requests := rest, seen := false, server := (st.server.windowAttach a w hh s).1 } hroom
  rw [World.serverStep]
  refine ⟨by rw [h2]; exact h.client, ?_, by rw [h3]; exact hagrees, ?_, ?_, ?_⟩
  · rw [h2]
    intro i hi
    have hpixels : (st.client.buffers i).pixels ≠ 0 := by
      intro hz
      rw [h.client.empty i hz] at hi
      cases hi
    rw [World.Tracked, h1, h3, h4, hbuf]
    rcases h.busy i hi with ⟨r, hmem, hracc, hbuffer⟩ | ht | ht
    · rw [hr] at hmem
      rcases List.mem_cons.mp hmem with rfl | hmem
      · exact Or.inr (Or.inl (Option.some.inj hbuffer))
      · exact Or.inl ⟨r, hmem, hracc, hbuffer⟩
    · -- The buffer of the server is released, or attached again.
      by_cases hsame : st.server.buf = a
      · exact Or.inr (Or.inl (hsame.symm.trans ht))
      · grind
    · exact Or.inr (Or.inr (List.mem_append_left _ ht))
  · grind
  · rw [h5]
    intro hno
    cases hno
  · rw [h3, hbuf]
    exact fun _ => Or.inr ha

end World.Live

/-! ## Runs -/

theorem World.Live.afterCanvas {st : World} (h : st.Live) {k : Wait} {c : Client}
    (hc : c.Sound ∧ st.client.Keeps c) : (st.afterCanvas k c).Live := by
  rw [World.afterCanvas]
  split
  · exact (h.keeps hc).damageFinish
  · exact h.keeps hc

theorem World.Live.clientHandle {st : World} (h : st.Live) (hroom : Room st .clientHandle) :
    (st.step .clientHandle).Live := by
  rw [Room, World.sentEvents] at hroom
  rw [World.step]
  cases hr : st.requests with
  | nil => exact h
  | cons r rest =>
    rw [hr] at hroom
    cases r with
    | attachBuffer a w hh s =>
      dsimp only [Server.clientHandle] at hroom ⊢
      by_cases hacc : (Req.attachBuffer a w hh s).Accepted
      · have hflag : (a == 0 || decide (w ≤ 0) || decide (hh ≤ 0) || decide (s < w)) = false := by
          obtain ⟨ha, hw, hh', hs⟩ := hacc
          simp only [Bool.or_eq_false_iff, beq_eq_false_iff_ne, decide_eq_false_iff_not]
          omega
        rw [hflag, Bool.and_false]
        exact h.attach hr hacc hroom
      · have hbad : a = 0 ∨ w ≤ 0 ∨ hh ≤ 0 ∨ s < w := by
          by_contra hno
          simp only [not_or, Int.not_le, Int.not_lt] at hno
          exact hacc hno
        have hflag : (a == 0 || decide (w ≤ 0) || decide (hh ≤ 0) || decide (s < w)) = true := by
          simp only [Bool.or_eq_true, beq_iff_eq, decide_eq_true_eq]
          omega
        rw [hflag, Bool.and_true, Server.windowAttach, if_pos hbad]
        exact h.dropRequest hr hacc
    | damage => exact h.dropRequest hr id
    | resize w hh =>
      have hdrop := h.dropRequest hr id
      dsimp only [Server.clientHandle] at hroom ⊢
      split at hroom
      · rename_i hmax
        rw [if_pos hmax]
        exact hdrop
      · rename_i hmax
        rw [if_neg hmax]
        exact hdrop.setSize h.agrees rfl rfl hroom

/-- **One step** loses nothing. -/
theorem World.Live.step {st : World} (h : st.Live) {op : WorldOp} (hmalloc : Malloc st op)
    (hroom : Room st op) : (st.step op).Live := by
  cases op with
  | sxWindowCanvas mem =>
    rw [World.step]
    split
    · exact h
    · exact h.afterCanvas (sxWindowCanvas_sound h.client .canvas hmalloc)
  | sxWindowDamage mem =>
    rw [World.step]
    split
    · exact h
    · split
      · exact h.damageFinish
      · exact h.afterCanvas (sxWindowCanvas_sound h.client .damage hmalloc)
  | sxPump mem =>
    rw [World.step]
    cases hwait : st.client.wait with
    | none => exact h.sxPump
    | some k =>
      have hheap : st.sxPump.client.heap = st.client.heap := foldl_handle_heap _ st
      have hfresh : st.sxPump.client.Fresh mem := by
        rw [Client.Fresh, hheap]
        exact hmalloc
      exact h.sxPump.afterCanvas (canvasLoop_sound h.sxPump.client k hfresh)
  | sxWindowResize w hh =>
    rw [World.step]
    split
    · exact h
    · refine ⟨h.client, ?_, h.agrees, h.pending, ?_, ?_⟩
      · intro i hi
        exact World.Live.tracked_append (h.busy i hi) _ _ _
      · intro hseen hcommitted
        obtain ⟨r, hr, hacc⟩ := h.answered hseen hcommitted
        exact ⟨r, List.mem_append_left _ hr, hacc⟩
      · intro hcommitted
        rcases h.arrived hcommitted with ⟨r, hr, hacc⟩ | hbuf
        · exact Or.inl ⟨r, List.mem_append_left _ hr, hacc⟩
        · exact Or.inr hbuf
  | clientHandle => exact h.clientHandle hroom
  | setSize maximized nw nh =>
    exact h.setSize (s := { st.server with maximized := maximized })
      ⟨h.agrees.driven, h.agrees.settled, h.agrees.unset⟩ rfl rfl hroom
  | otherEvent => exact h.otherEvent

theorem World.New.live {st : World} (h : st.New) : st.Live := by
  refine ⟨h.owned.client, ?_, ⟨?_, ?_, fun _ => h.buf.2⟩, ?_, ?_, ?_⟩
  · intro i hi
    rw [h.buffers] at hi
    cases hi
  · intro hno
    rw [h.flags.1] at hno
    cases hno
  · intro hno
    exact absurd h.buf.1 hno
  · intro hno
    rw [h.flags.2] at hno
    cases hno
  · intro hno
    rw [h.ghosts.1] at hno
    cases hno
  · intro hno
    rw [h.ghosts.2] at hno
    cases hno

theorem live_of_reachable {st : World}
    (h : world.Reachable (fun st op => Malloc st op ∧ Room st op) st) : st.Live := by
  refine h.invariant (P := World.Live) (fun s (hs : s.New) => hs.live) ?_
  intro s op hs hop
  exact hs.step hop.1 hop.2

/-- **No event is lost** while there is room for those of the window: a busy buffer is the
one of the server, or its attach or its release is on its way; and while the server waits
for an answer, a configure event is on its way or has been handled and no attach has
reached the server since. -/
theorem no_event_lost {st : World} (h : world.Reachable (fun st op => Malloc st op ∧ Room st op) st) :
    (∀ i, (st.client.buffers i).busy = true →
      (∃ w hh s, Req.attachBuffer (st.client.buffers i).pixels w hh s ∈ st.requests) ∨
        st.server.buf = (st.client.buffers i).pixels ∨
        Evt.bufferRelease (st.client.buffers i).pixels ∈ st.events) ∧
    (st.server.cfgPending = true → (∃ w hh, Evt.configure w hh ∈ st.events) ∨ st.seen = true) := by
  have hlive := live_of_reachable h
  refine ⟨?_, hlive.pending⟩
  intro i hi
  rcases hlive.busy i hi with ⟨r, hr, hacc, hbuffer⟩ | ht
  · cases r with
    | attachBuffer a w hh s =>
      obtain rfl := Option.some.inj hbuffer
      exact Or.inl ⟨w, hh, s, hr⟩
    | damage => cases hbuffer
    | resize w hh => cases hbuffer
  · exact Or.inr ht

theorem newWindow_damaged :
    world.Reachable (fun st op => Malloc st op ∧ Room st op)
      (world.run (newWindow []) [.sxWindowDamage (some 100)]) := by
  have hstart : world.Reachable (fun st op => Malloc st op ∧ Room st op) (newWindow []) :=
    .start (newWindow_new [])
  have hroom : Room (newWindow []) (.sxWindowDamage (some 100)) := by
    unfold Room
    decide +kernel
  exact Machine.Reachable.step (WorldOp.sxWindowDamage (some 100)) hstart ⟨newWindow_malloc [], hroom⟩

/-- The window with its first attach on its way. -/
def firstDamaged : World := world.run (newWindow []) [.sxWindowDamage (some 100)]

theorem first_attach_on_its_way :
    (firstDamaged.client.buffers 0).busy = true ∧
    (∀ i, (firstDamaged.client.buffers i).busy = true →
      (∃ w hh s, Req.attachBuffer (firstDamaged.client.buffers i).pixels w hh s ∈ firstDamaged.requests) ∨
        firstDamaged.server.buf = (firstDamaged.client.buffers i).pixels ∨
        Evt.bufferRelease (firstDamaged.client.buffers i).pixels ∈ firstDamaged.events) ∧
    (firstDamaged.server.cfgPending = true →
      (∃ w hh, Evt.configure w hh ∈ firstDamaged.events) ∨ firstDamaged.seen = true) :=
  ⟨by decide +kernel, no_event_lost newWindow_damaged⟩

/-- A new window after 910 other events that its program has not read, and then a new size:
the ring is full. -/
def fullRing : World :=
  world.run (newWindow []) (List.replicate 910 .otherEvent ++ [.setSize false 5 5])

/-- **A configure event is lost**: the server waits for an answer to it for good. -/
theorem configure_lost : world.Reachable Malloc fullRing ∧ fullRing.server.cfgPending = true ∧
    (∀ w h, Evt.configure w h ∉ fullRing.events) ∧ fullRing.seen = false := by
  have hstart : world.Reachable Malloc (newWindow []) := .start (newWindow_new [])
  refine ⟨hstart.run _ ?_, by decide +kernel, ?_, by decide +kernel⟩
  · intro pre op post heq
    have hop : op ∈ List.replicate 910 WorldOp.otherEvent ++ [WorldOp.setSize false 5 5] := by
      rw [heq]
      simp
    rcases List.mem_append.1 hop with hop | hop
    · obtain rfl := List.eq_of_mem_replicate hop
      trivial
    · obtain rfl := List.mem_singleton.1 hop
      trivial
  · intro w h hmem
    have hother : fullRing.events.all (fun e => match e with | .other => true | _ => false) = true := by
      decide +kernel
    exact absurd (List.all_eq_true.1 hother _ hmem) (by simp)

/-- **The sizes converge** while there is room for the events of the window: a size that
the server drives has been asked for, and once the channels are empty and the program has
committed a buffer since it last handled a configure event, the window has the size of its
buffer. -/
theorem sizes_converge {st : World} (h : world.Reachable (fun st op => Malloc st op ∧ Room st op) st) :
    (st.server.sizeDriven = true → st.server.cfgPending = true) ∧
    (st.requests = [] → st.events = [] → st.committed = true →
      st.server.sizeDriven = false ∧ st.server.buf ≠ 0 ∧ st.server.bufW = st.server.w ∧
        st.server.bufH = st.server.h) := by
  have hlive := live_of_reachable h
  refine ⟨hlive.agrees.driven, ?_⟩
  intro hrequests hevents hcommitted
  have hno : ¬ ∃ r ∈ st.requests, r.Accepted := by
    rw [hrequests]
    rintro ⟨r, hr, -⟩
    cases hr
  have hbuf := (hlive.arrived hcommitted).resolve_left hno
  have hsettled : st.server.sizeDriven = false := by
    by_contra hdriven
    rcases hlive.pending (hlive.agrees.driven (by simpa using hdriven)) with ⟨w, hh, hmem⟩ | hseen
    · rw [hevents] at hmem
      cases hmem
    · exact hno (hlive.answered hseen hcommitted)
  exact ⟨hsettled, hbuf, hlive.agrees.settled hbuf hsettled⟩

/-- The window after its first commit has arrived. -/
def firstArrived : World :=
  world.run (newWindow []) [.sxWindowDamage (some 100), .clientHandle, .clientHandle]

theorem first_commit_converges :
    (firstArrived.requests.isEmpty = true ∧ firstArrived.events.isEmpty = true ∧
      firstArrived.committed = true) ∧
    (firstArrived.server.sizeDriven = true → firstArrived.server.cfgPending = true) ∧
    (firstArrived.requests = [] → firstArrived.events = [] → firstArrived.committed = true →
      firstArrived.server.sizeDriven = false ∧ firstArrived.server.buf ≠ 0 ∧
        firstArrived.server.bufW = firstArrived.server.w ∧
        firstArrived.server.bufH = firstArrived.server.h) := by
  refine ⟨by decide +kernel, sizes_converge ?_⟩
  have hattach : Room (world.run (newWindow []) [.sxWindowDamage (some 100)]) .clientHandle := by
    unfold Room
    decide +kernel
  have hdamage : Room (world.run (newWindow []) [.sxWindowDamage (some 100), .clientHandle])
      .clientHandle := by
    unfold Room
    decide +kernel
  have harrived := Machine.Reachable.step WorldOp.clientHandle newWindow_damaged ⟨trivial, hattach⟩
  exact Machine.Reachable.step WorldOp.clientHandle harrived ⟨trivial, hdamage⟩

end StrawX
