import StrawOS.StrawX.Buffers

/-!
# Who owns a buffer

A buffer that is busy has at most one token: an attach request on its way, the
buffer of the server, or a release event on its way.  A buffer that is not busy has
none, so the program may free it or draw into it.

Without memory for the first one `sx_window_damage` takes what lies in front of it.
-/

namespace StrawX

/-- The buffer that a request attaches. -/
def Req.buffer : Req → Option Nat
  | .attachBuffer pixels _ _ _ => some pixels
  | _ => none

/-- The buffer that an event releases. -/
def Evt.buffer : Evt → Option Nat
  | .bufferRelease buffer => some buffer
  | _ => none

/-- The number of tokens of an address. -/
def World.tokens (st : World) (a : Nat) : Nat :=
  (st.requests.filterMap Req.buffer).count a + (if st.server.buf = a then 1 else 0) +
    (st.events.filterMap Evt.buffer).count a

/-! ## The program -/

/-- The buffers of a program are blocks of their own, and the one it draws into is not
busy. -/
structure Client.Sound (c : Client) : Prop where
  distinct : ∀ i j, (c.buffers i).pixels = (c.buffers j).pixels → (c.buffers i).pixels ≠ 0 → i = j
  block : ∀ i, (c.buffers i).pixels ≠ 0 → 0 < (c.buffers i).w ∧ 0 < (c.buffers i).h ∧
    c.heap (c.buffers i).pixels = some ((c.buffers i).w.toNat * (c.buffers i).h.toNat * 4)
  empty : ∀ i, (c.buffers i).pixels = 0 → (c.buffers i).busy = false
  back : ∀ i, c.back = some i → (c.buffers i).busy = false ∧ (c.buffers i).pixels ≠ 0

/-- The busy buffers are the same. -/
def Client.Keeps (c c' : Client) : Prop :=
  ∀ i, (c.buffers i).busy = true ∨ (c'.buffers i).busy = true → c'.buffers i = c.buffers i

/-- `malloc` gives a block that is not in use. -/
def Client.Fresh (c : Client) (mem : Option Nat) : Prop := ∀ a, mem = some a → a ≠ 0 ∧ c.heap a = none

theorem pick_spec {c : Client} {i : Fin 2} (h : c.pick = some i) : (c.buffers i).busy = false := by
  rw [Client.pick, Option.or_eq_some_iff] at h
  rcases h with h | ⟨-, h⟩
  · grind
  · have hp := List.find?_some h
    simpa using hp

/-- **A new block** for a buffer that is not busy. -/
theorem sxAllocBuffer_sound {c : Client} (h : c.Sound) {i : Fin 2} (hbusy : (c.buffers i).busy = false)
    {block : Nat} (hne : block ≠ 0) (hfresh : c.heap block = none) (w hh : Int) :
    ({ c.sxAllocBuffer i w hh block with back := some i } : Client).Sound ∧
      c.Keeps { c.sxAllocBuffer i w hh block with back := some i } := by
  have hother : ∀ j, (c.buffers j).pixels ≠ 0 → (c.buffers j).pixels ≠ block := by
    intro j hj heq
    have := (h.block j hj).2.2
    rw [heq, hfresh] at this
    cases this
  have hself : (c.sxAllocBuffer i w hh block).buffers i = ⟨block, max w 1, max hh 1, false⟩ :=
    Function.update_self _ _ _
  have hrest : ∀ j, j ≠ i → (c.sxAllocBuffer i w hh block).buffers j = c.buffers j :=
    fun j hj => Function.update_of_ne hj _ _
  refine ⟨⟨?_, ?_, ?_, ?_⟩, ?_⟩
  · intro j k heq hnz
    by_cases hj : j = i
    · grind
    · grind
  · intro j hnz
    by_cases hj : j = i
    · subst hj
      rw [hself]
      refine ⟨by dsimp only; omega, by dsimp only; omega, ?_⟩
      exact Function.update_self _ _ _
    · rw [hrest j hj] at hnz ⊢
      obtain ⟨hw, hh', hheap⟩ := h.block j hnz
      refine ⟨hw, hh', ?_⟩
      have hpixels : (c.buffers j).pixels ≠ (c.buffers i).pixels :=
        fun heq => hj (h.distinct j i heq hnz)
      show Function.update (Function.update c.heap (c.buffers i).pixels none) block _
        (c.buffers j).pixels = _
      rw [Function.update_of_ne (hother j hnz), Function.update_of_ne hpixels]
      exact hheap
  · intro j hz
    by_cases hj : j = i
    · subst hj
      rw [hself]
    · rw [hrest j hj] at hz ⊢
      exact h.empty j hz
  · grind
  · intro j hj
    by_cases hji : j = i
    · subst hji
      rw [hself, hbusy] at hj
      simp at hj
    · exact hrest j hji

theorem Client.Sound.setBack {c : Client} (h : c.Sound) {back : Option (Fin 2)}
    (hback : ∀ i, back = some i → (c.buffers i).busy = false ∧ (c.buffers i).pixels ≠ 0) :
    ({ c with back := back } : Client).Sound ∧ c.Keeps { c with back := back } :=
  ⟨⟨h.distinct, h.block, h.empty, hback⟩, fun _ _ => rfl⟩

/-- **The end of** `sx_window_canvas`. -/
theorem canvasFinish_sound {c : Client} (h : c.Sound) {i : Fin 2} (hi : c.pick = some i)
    {mem : Option Nat} (hmem : c.Fresh mem) :
    (c.canvasFinish i mem).Sound ∧ c.Keeps (c.canvasFinish i mem) := by
  have hbusy := pick_spec hi
  unfold Client.canvasFinish
  dsimp only
  split
  · cases mem with
    | some block =>
      obtain ⟨hne, hfresh⟩ := hmem block rfl
      exact sxAllocBuffer_sound h hbusy hne hfresh _ _
    | none =>
      dsimp only
      split
      · exact ⟨h, fun _ _ => rfl⟩
      · rename_i hpixels
        apply h.setBack
        intro j hj
        obtain rfl := Option.some.inj hj
        exact ⟨hbusy, hpixels⟩
  · rename_i hsame
    apply h.setBack
    intro j hj
    obtain rfl := Option.some.inj hj
    exact ⟨hbusy, fun hz => hsame (Or.inl hz)⟩

theorem Client.Sound.setWait {c c' : Client} (h : c'.Sound ∧ c.Keeps c') (wait : Option Wait) :
    ({ c' with wait := wait } : Client).Sound ∧ c.Keeps { c' with wait := wait } :=
  ⟨⟨h.1.distinct, h.1.block, h.1.empty, h.1.back⟩, h.2⟩

theorem canvasLoop_sound {c : Client} (h : c.Sound) (k : Wait) {mem : Option Nat} (hmem : c.Fresh mem) :
    (c.canvasLoop k mem).Sound ∧ c.Keeps (c.canvasLoop k mem) := by
  rw [Client.canvasLoop]
  split
  · exact Client.Sound.setWait ⟨h, fun _ _ => rfl⟩ _
  · rename_i i hi
    exact Client.Sound.setWait (canvasFinish_sound h hi hmem) _

/-- **Asking for a canvas** keeps the busy buffers. -/
theorem sxWindowCanvas_sound {c : Client} (h : c.Sound) (k : Wait) {mem : Option Nat}
    (hmem : c.Fresh mem) : (c.sxWindowCanvas k mem).Sound ∧ c.Keeps (c.sxWindowCanvas k mem) := by
  rw [Client.sxWindowCanvas]
  split
  · split
    · exact ⟨h, fun _ _ => rfl⟩
    · exact canvasLoop_sound (c := { c with back := none })
        (h.setBack fun i (hi : none = some i) => nomatch hi).1 k hmem
  · exact canvasLoop_sound h k hmem

/-- An event changes at most the busy flag of a buffer, and only clears it. -/
theorem sxHandleMessage_same (c : Client) (e : Evt) (i : Fin 2) :
    ((c.sxHandleMessage e).buffers i).pixels = (c.buffers i).pixels ∧
      ((c.sxHandleMessage e).buffers i).w = (c.buffers i).w ∧
      ((c.sxHandleMessage e).buffers i).h = (c.buffers i).h ∧
      (((c.sxHandleMessage e).buffers i).busy = true →
        (c.sxHandleMessage e).buffers i = c.buffers i ∧ e ≠ .bufferRelease (c.buffers i).pixels) := by
  cases e with
  | bufferRelease b =>
    have hbuffer : (c.sxHandleMessage (.bufferRelease b)).buffers i =
        if (c.buffers i).pixels = b then { c.buffers i with busy := false } else c.buffers i := rfl
    rw [hbuffer]
    split
    · exact ⟨rfl, rfl, rfl, fun hno => nomatch hno⟩
    · grind
  | configure w h => exact ⟨rfl, rfl, rfl, fun _ => ⟨rfl, by simp⟩⟩
  | other => exact ⟨rfl, rfl, rfl, fun _ => ⟨rfl, by simp⟩⟩

theorem Client.Sound.flags {c c' : Client} (h : c.Sound)
    (hsame : ∀ i, (c'.buffers i).pixels = (c.buffers i).pixels ∧ (c'.buffers i).w = (c.buffers i).w ∧
      (c'.buffers i).h = (c.buffers i).h) (hheap : c'.heap = c.heap)
    (hempty : ∀ i, (c.buffers i).pixels = 0 → (c'.buffers i).busy = false)
    (hback : ∀ i, c'.back = some i → (c'.buffers i).busy = false ∧ (c.buffers i).pixels ≠ 0) :
    c'.Sound := by
  refine ⟨?_, ?_, ?_, ?_⟩
  · intro i j heq hnz
    rw [(hsame i).1, (hsame j).1] at heq
    rw [(hsame i).1] at hnz
    exact h.distinct i j heq hnz
  · intro i hnz
    obtain ⟨hp, hw, hh⟩ := hsame i
    rw [hp] at hnz
    rw [hp, hw, hh, hheap]
    exact h.block i hnz
  · intro i hz
    rw [(hsame i).1] at hz
    exact hempty i hz
  · intro i hi
    rw [(hsame i).1]
    exact hback i hi

/-- **An event is handled.** -/
theorem Client.Sound.sxHandleMessage {c : Client} (h : c.Sound) (e : Evt) :
    (c.sxHandleMessage e).Sound := by
  have hidle : ∀ i, (c.buffers i).busy = false → ((c.sxHandleMessage e).buffers i).busy = false := by
    intro i hi
    by_contra hbusy
    obtain ⟨-, -, -, hkept⟩ := sxHandleMessage_same c e i
    rw [(hkept (by simpa using hbusy)).1] at hbusy
    exact hbusy hi
  refine h.flags ?_ ?_ ?_ ?_
  · intro i
    obtain ⟨hp, hw, hh, -⟩ := sxHandleMessage_same c e i
    exact ⟨hp, hw, hh⟩
  · cases e <;> rfl
  · intro i hz
    exact hidle i (h.empty i hz)
  · intro i hi
    have hi : c.back = some i := by
      rw [← hi]
      cases e <;> rfl
    obtain ⟨hbusy, hpixels⟩ := h.back i hi
    exact ⟨hidle i hbusy, hpixels⟩

/-- **A commit.** -/
theorem Client.Sound.damageFinish {c : Client} (h : c.Sound) : c.damageFinish.Sound := by
  rw [Client.damageFinish]
  cases hback : c.back with
  | none =>
    refine ⟨h.distinct, h.block, h.empty, ?_⟩
    intro i hi
    exact h.back i (hback.trans hi)
  | some i =>
    obtain ⟨-, hpixels⟩ := h.back i hback
    refine h.flags ?_ rfl ?_ fun j hj => nomatch hj
    · grind
    · intro j hz
      dsimp only
      by_cases hj : j = i
      · subst hj
        exact absurd hz hpixels
      · rw [Function.update_of_ne hj]
        exact h.empty j hz

/-! ## The invariant -/

/-- Every token names a busy buffer, with the size that was declared, and no address has
two. -/
structure World.Owned (st : World) : Prop where
  client : st.client.Sound
  requests : ∀ a w h s, Req.attachBuffer a w h s ∈ st.requests →
    s = w ∧ ∃ i, st.client.buffers i = ⟨a, w, h, true⟩
  server : st.server.buf ≠ 0 → st.server.bufStride = st.server.bufW ∧
    ∃ i, st.client.buffers i = ⟨st.server.buf, st.server.bufW, st.server.bufH, true⟩
  events : ∀ a, Evt.bufferRelease a ∈ st.events →
    ∃ i, (st.client.buffers i).pixels = a ∧ (st.client.buffers i).busy = true
  tokens : ∀ a, a ≠ 0 → st.tokens a ≤ 1

namespace World.Owned

variable {st : World}

theorem keeps (h : st.Owned) {c : Client} (hc : c.Sound ∧ st.client.Keeps c) :
    ({ st with client := c } : World).Owned := by
  obtain ⟨hsound, hkeeps⟩ := hc
  have hsame : ∀ i, (st.client.buffers i).busy = true → c.buffers i = st.client.buffers i :=
    fun i hi => hkeeps i (Or.inl hi)
  refine ⟨hsound, ?_, ?_, ?_, h.tokens⟩
  · intro a w hh s hr
    obtain ⟨hs, i, hi⟩ := h.requests a w hh s hr
    exact ⟨hs, i, (hsame i (by rw [hi])).trans hi⟩
  · intro hbuf
    obtain ⟨hs, i, hi⟩ := h.server hbuf
    exact ⟨hs, i, (hsame i (by rw [hi])).trans hi⟩
  · intro a ha
    obtain ⟨i, hi, hbusy⟩ := h.events a ha
    refine ⟨i, ?_, ?_⟩
    · rw [hsame i hbusy]
      exact hi
    · rw [hsame i hbusy]
      exact hbusy

theorem no_token (h : st.Owned) {i : Fin 2} (hbusy : (st.client.buffers i).busy = false)
    (hpixels : (st.client.buffers i).pixels ≠ 0) : st.tokens (st.client.buffers i).pixels = 0 := by
  -- Each kind of token names a busy buffer, and no other buffer has the address.
  have hno : ∀ j, (st.client.buffers j).pixels = (st.client.buffers i).pixels →
      (st.client.buffers j).busy = true → False := by
    intro j hj hjbusy
    obtain rfl := h.client.distinct i j hj.symm hpixels
    rw [hbusy] at hjbusy
    cases hjbusy
  have hrequests : (st.requests.filterMap Req.buffer).count (st.client.buffers i).pixels = 0 := by
    rw [List.count_eq_zero]
    intro hmem
    obtain ⟨r, hr, hbuffer⟩ := List.mem_filterMap.mp hmem
    cases r with
    | attachBuffer a w hh s =>
      obtain ⟨-, j, hj⟩ := h.requests a w hh s hr
      refine hno j ?_ (by rw [hj])
      rw [hj]
      exact Option.some.inj hbuffer
    | damage => cases hbuffer
    | resize w hh => cases hbuffer
  have hevents : (st.events.filterMap Evt.buffer).count (st.client.buffers i).pixels = 0 := by
    rw [List.count_eq_zero]
    intro hmem
    obtain ⟨e, he, hbuffer⟩ := List.mem_filterMap.mp hmem
    cases e with
    | bufferRelease a =>
      obtain ⟨j, hj, hjbusy⟩ := h.events a he
      exact hno j (hj.trans (Option.some.inj hbuffer)) hjbusy
    | configure w hh => cases hbuffer
    | other => cases hbuffer
  have hserver : st.server.buf ≠ (st.client.buffers i).pixels := by
    intro heq
    obtain ⟨-, j, hj⟩ := h.server (by rw [heq]; exact hpixels)
    refine hno j ?_ (by rw [hj])
    rw [hj]
    exact heq
  rw [World.tokens, hrequests, hevents, if_neg hserver]

/-- **A commit**: the back buffer becomes busy with one token. -/
theorem damageFinish (h : st.Owned) (hback : st.client.back.isSome = true) : st.damageFinish.Owned := by
  obtain ⟨i, hi⟩ := Option.isSome_iff_exists.mp hback
  obtain ⟨hbusy, hpixels⟩ := h.client.back i hi
  have hnone := h.no_token hbusy hpixels
  have hheld : ∀ j b, b.busy = true → st.client.buffers j = b →
      (Function.update st.client.buffers i { st.client.buffers i with busy := true }) j = b := by
    grind
  have hattached : st.client.attached = st.client.buffers i := by
    rw [Client.attached, hi]
  have hclient := h.client.damageFinish
  rw [World.damageFinish]
  rw [Client.damageFinish, hi] at hclient ⊢
  dsimp only
  rw [hattached]
  refine ⟨hclient, ?_, ?_, ?_, ?_⟩
  · intro a w hh s hr
    rcases List.mem_append.mp hr with hr | hr
    · obtain ⟨hs, j, hj⟩ := h.requests a w hh s hr
      exact ⟨hs, j, hheld j _ rfl hj⟩
    · grind
  · intro hbuf
    obtain ⟨hs, j, hj⟩ := h.server hbuf
    exact ⟨hs, j, hheld j _ rfl hj⟩
  · intro a ha
    obtain ⟨j, hj, hjbusy⟩ := h.events a ha
    have hsame := hheld j _ hjbusy rfl
    exact ⟨j, by dsimp only; rw [hsame]; exact hj, by dsimp only; rw [hsame]; exact hjbusy⟩
  · intro a ha
    have hold := h.tokens a ha
    rw [World.tokens] at hold ⊢
    rw [World.tokens] at hnone
    rw [List.filterMap_append, List.count_append]
    simp only [List.filterMap_cons, Req.buffer, List.filterMap_nil, List.count_cons, List.count_nil]
    by_cases heq : (st.client.buffers i).pixels = a
    · subst heq
      simp only [beq_self_eq_true, if_true]
      omega
    · simp only [beq_iff_eq, heq, if_false]
      omega

/-- **An event is sent**: it releases nothing, or a busy buffer without a token. -/
theorem sendEvent (h : st.Owned) {e : Evt} (he : ∀ a, e = .bufferRelease a → st.tokens a = 0 ∧
    ∃ i, (st.client.buffers i).pixels = a ∧ (st.client.buffers i).busy = true) :
    (st.sendEvent e).Owned := by
  rw [World.sendEvent]
  split
  · refine ⟨h.client, h.requests, h.server, ?_, ?_⟩
    · intro a ha
      rcases List.mem_append.mp ha with ha | ha
      · exact h.events a ha
      · exact (he a (List.mem_singleton.mp ha).symm).2
    · intro a ha
      have hold := h.tokens a ha
      cases e with
      | bufferRelease b =>
        have hzero := (he b rfl).1
        rw [World.tokens] at hold hzero ⊢
        rw [List.filterMap_append, List.count_append]
        simp only [List.filterMap_cons, Evt.buffer, List.filterMap_nil, List.count_cons, List.count_nil]
        by_cases heq : b = a
        · subst heq
          simp only [beq_self_eq_true, if_true]
          omega
        · simp only [beq_iff_eq, heq, if_false]
          omega
      | configure w hh =>
        rw [World.tokens] at hold ⊢
        simpa [List.filterMap_append, List.filterMap_cons, Evt.buffer] using hold
      | other =>
        rw [World.tokens] at hold ⊢
        simpa [List.filterMap_append, List.filterMap_cons, Evt.buffer] using hold
  · exact h

theorem sendEvents (h : st.Owned) {es : List Evt} (hes : ∀ e ∈ es, e.buffer = none) :
    (es.foldl World.sendEvent st).Owned := by
  induction es generalizing st with
  | nil => exact h
  | cons e es ih =>
    refine ih (h.sendEvent ?_) fun e' he' => hes e' (List.mem_cons_of_mem _ he')
    intro a ha
    have hnone := hes e List.mem_cons_self
    rw [ha] at hnone
    cases hnone

end World.Owned

/-! ## The server -/

theorem windowSendConfigure_spec (s : Server) : s.windowSendConfigure.1.buf = s.buf ∧
    s.windowSendConfigure.1.bufW = s.bufW ∧ s.windowSendConfigure.1.bufH = s.bufH ∧
    s.windowSendConfigure.1.bufStride = s.bufStride ∧ ∀ e ∈ s.windowSendConfigure.2, e.buffer = none := by
  rw [Server.windowSendConfigure]
  split
  · exact ⟨rfl, rfl, rfl, rfl, fun e he => nomatch he⟩
  · refine ⟨rfl, rfl, rfl, rfl, ?_⟩
    intro e he
    rw [List.mem_singleton.mp he]
    rfl

/-- **A new size** leaves the buffer. -/
theorem windowSetSize_spec (s : Server) (nw nh : Int) : (s.windowSetSize nw nh).1.buf = s.buf ∧
    (s.windowSetSize nw nh).1.bufW = s.bufW ∧ (s.windowSetSize nw nh).1.bufH = s.bufH ∧
    (s.windowSetSize nw nh).1.bufStride = s.bufStride ∧
    ∀ e ∈ (s.windowSetSize nw nh).2, e.buffer = none := by
  rw [Server.windowSetSize]
  split
  · exact ⟨rfl, rfl, rfl, rfl, fun e he => nomatch he⟩
  · exact windowSendConfigure_spec _

/-- **An attach** that is accepted takes the buffer and releases the one before. -/
theorem windowAttach_spec (s : Server) {buf : Nat} {bw bh stride : Int} (hbuf : buf ≠ 0) (hw : 0 < bw)
    (hh : 0 < bh) (hstride : bw ≤ stride) :
    (s.windowAttach buf bw bh stride).1.buf = buf ∧ (s.windowAttach buf bw bh stride).1.bufW = bw ∧
    (s.windowAttach buf bw bh stride).1.bufH = bh ∧
    (s.windowAttach buf bw bh stride).1.bufStride = stride ∧
    ∃ es, (∀ e ∈ es, e.buffer = none) ∧ (s.windowAttach buf bw bh stride).2 =
      (if s.buf ≠ 0 ∧ s.buf ≠ buf then [Evt.bufferRelease s.buf] else []) ++ es := by
  rw [Server.windowAttach, if_neg (by omega)]
  dsimp only
  split
  · split
    · exact ⟨rfl, rfl, rfl, rfl, [], (fun e he => nomatch he), (List.append_nil _).symm⟩
    · obtain ⟨h1, h2, h3, h4, h5⟩ := windowSendConfigure_spec
        { s with buf := buf, bufW := bw, bufH := bh, bufStride := stride, cfgPending := false }
      exact ⟨h1, h2, h3, h4, _, h5, rfl⟩
  · split
    · exact ⟨rfl, rfl, rfl, rfl, [], (fun e he => nomatch he), (List.append_nil _).symm⟩
    · exact ⟨rfl, rfl, rfl, rfl, [], (fun e he => nomatch he), (List.append_nil _).symm⟩

namespace World.Owned

variable {st : World}

theorem serverStep (h : st.Owned) {r : Server × List Evt} (hbuf : r.1.buf = st.server.buf)
    (hw : r.1.bufW = st.server.bufW) (hh : r.1.bufH = st.server.bufH)
    (hstride : r.1.bufStride = st.server.bufStride) (hes : ∀ e ∈ r.2, e.buffer = none) :
    (st.serverStep r).Owned := by
  have hserver : ({ st with server := r.1 } : World).Owned := by
    refine ⟨h.client, h.requests, ?_, h.events, ?_⟩
    · rw [hbuf, hw, hh, hstride]
      exact h.server
    · intro a ha
      have hold := h.tokens a ha
      rw [World.tokens] at hold ⊢
      rw [hbuf]
      exact hold
  exact hserver.sendEvents hes

theorem dropRequest (h : st.Owned) {r : Req} {rest : List Req} (hr : st.requests = r :: rest)
    (hbuffer : r.buffer = none) (seen : Bool) :
    ({ st with requests := rest, seen := seen } : World).Owned := by
  refine ⟨h.client, ?_, h.server, h.events, ?_⟩
  · intro a w hh s hmem
    exact h.requests a w hh s (by rw [hr]; exact List.mem_cons_of_mem _ hmem)
  · intro a ha
    have hold := h.tokens a ha
    rw [World.tokens] at hold ⊢
    rw [hr, List.filterMap_cons, hbuffer] at hold
    exact hold

/-- **An attach arrives**: the token of the new buffer stays with the server, and that of
the old one goes into an event. -/
theorem attach (h : st.Owned) {a : Nat} {w hh s : Int} {rest : List Req}
    (hr : st.requests = .attachBuffer a w hh s :: rest) (seen : Bool) :
    (({ st with requests := rest, seen := seen } : World).serverStep
      (st.server.windowAttach a w hh s)).Owned := by
  obtain ⟨hsw, i, hi⟩ := h.requests a w hh s (by rw [hr]; exact List.mem_cons_self)
  have hpixels : (st.client.buffers i).pixels = a := by rw [hi]
  have hbusy : (st.client.buffers i).busy = true := by rw [hi]
  have ha : a ≠ 0 := by
    intro hz
    rw [h.client.empty i (hpixels.trans hz)] at hbusy
    cases hbusy
  obtain ⟨hw, hh', -⟩ := h.client.block i (by rw [hpixels]; exact ha)
  rw [hi] at hw hh'
  obtain ⟨h1, h2, h3, h4, es, hes, hsent⟩ := windowAttach_spec st.server ha hw hh' (Int.le_of_eq hsw.symm)
  have htokens : ∀ b, b ≠ 0 → (rest.filterMap Req.buffer).count b + (if a = b then 1 else 0) +
      (if st.server.buf = b then 1 else 0) + (st.events.filterMap Evt.buffer).count b ≤ 1 := by
    intro b hb
    have hold := h.tokens b hb
    rw [World.tokens, hr, List.filterMap_cons] at hold
    simp only [Req.buffer, List.count_cons, beq_iff_eq] at hold
    omega
  -- The new buffer has the place of the old one, whose token is gone.
  have hmid : ({ st with
      requests := rest, seen := seen, server := (st.server.windowAttach a w hh s).1 } : World).Owned := by
    refine ⟨h.client, ?_, ?_, h.events, ?_⟩
    · intro b w' hh' s' hmem
      exact h.requests b w' hh' s' (by rw [hr]; exact List.mem_cons_of_mem _ hmem)
    · intro _
      rw [h1, h2, h3, h4]
      exact ⟨hsw, i, hi⟩
    · intro b hb
      have := htokens b hb
      rw [World.tokens]
      dsimp only
      rw [h1]
      omega
  rw [World.serverStep, hsent, List.foldl_append]
  refine World.Owned.sendEvents ?_ hes
  split
  · rename_i hold
    refine hmid.sendEvent ?_
    intro b hb
    obtain rfl := Evt.bufferRelease.inj hb
    constructor
    · have := htokens st.server.buf hold.1
      rw [if_pos rfl] at this
      rw [World.tokens]
      dsimp only
      rw [h1, if_neg (Ne.symm hold.2)]
      omega
    · obtain ⟨-, j, hj⟩ := h.server hold.1
      exact ⟨j, by rw [hj], by rw [hj]⟩
  · exact hmid

/-- **A release arrives**: the buffer is no longer busy and its token is gone. -/
theorem handle (h : st.Owned) {e : Evt} {rest : List Evt} (he : st.events = e :: rest) :
    ({ st.handle e with events := rest } : World).Owned := by
  have hevents : ∀ a, Evt.bufferRelease a ∈ rest → ∃ i, (st.client.buffers i).pixels = a ∧
      (st.client.buffers i).busy = true :=
    fun a ha => h.events a (by rw [he]; exact List.mem_cons_of_mem _ ha)
  cases e with
  | configure w hh =>
    refine ⟨⟨h.client.distinct, h.client.block, h.client.empty, h.client.back⟩, h.requests, h.server,
      hevents, ?_⟩
    intro a ha
    have hold := h.tokens a ha
    rw [World.tokens, he, List.filterMap_cons] at hold
    exact hold
  | other =>
    refine ⟨⟨h.client.distinct, h.client.block, h.client.empty, h.client.back⟩, h.requests, h.server,
      hevents, ?_⟩
    intro a ha
    have hold := h.tokens a ha
    rw [World.tokens, he, List.filterMap_cons] at hold
    exact hold
  | bufferRelease b =>
    have htokens : ∀ a, a ≠ 0 → (st.requests.filterMap Req.buffer).count a +
        (if st.server.buf = a then 1 else 0) + ((rest.filterMap Evt.buffer).count a +
        (if b = a then 1 else 0)) ≤ 1 := by
      intro a ha
      have hold := h.tokens a ha
      rw [World.tokens, he, List.filterMap_cons] at hold
      simpa only [Evt.buffer, List.count_cons, beq_iff_eq] using hold
    obtain ⟨k, hk, hkbusy⟩ := h.events b (by rw [he]; exact List.mem_cons_self)
    have hb : b ≠ 0 := by
      intro hz
      rw [h.client.empty k (hk.trans hz)] at hkbusy
      cases hkbusy
    have hgone := htokens b hb
    rw [if_pos (rfl : b = b)] at hgone
    -- Another buffer than the released one is as it was.
    have hother : ∀ j, (st.client.buffers j).pixels ≠ b →
        (st.client.sxHandleMessage (.bufferRelease b)).buffers j = st.client.buffers j :=
      fun j hj => if_neg hj
    have hclient := h.client.sxHandleMessage (.bufferRelease b)
    refine ⟨hclient, ?_, ?_, ?_, ?_⟩
    · intro a w hh s hr
      obtain ⟨hs, i, hi⟩ := h.requests a w hh s hr
      refine ⟨hs, i, ?_⟩
      have hne : (st.client.buffers i).pixels ≠ b := by
        intro heq
        have hpos : 0 < (st.requests.filterMap Req.buffer).count b := by
          rw [List.count_pos_iff, List.mem_filterMap]
          refine ⟨_, hr, ?_⟩
          rw [← heq, hi]
          rfl
        omega
      exact (hother i hne).trans hi
    · intro hbuf
      obtain ⟨hs, i, hi⟩ := h.server hbuf
      refine ⟨hs, i, ?_⟩
      have hne : (st.client.buffers i).pixels ≠ b := by
        intro heq
        rw [hi] at heq
        rw [if_pos heq] at hgone
        omega
      exact (hother i hne).trans hi
    · intro a ha
      obtain ⟨i, hi, hbusy⟩ := hevents a ha
      have hne : (st.client.buffers i).pixels ≠ b := by
        intro heq
        have hpos : 0 < (rest.filterMap Evt.buffer).count b := by
          rw [List.count_pos_iff, List.mem_filterMap]
          refine ⟨_, ha, ?_⟩
          rw [← heq, hi]
          rfl
        omega
      refine ⟨i, ?_, ?_⟩
      · exact (congrArg SxBuffer.pixels (hother i hne)).trans hi
      · exact (congrArg SxBuffer.busy (hother i hne)).trans hbusy
    · intro a ha
      have hold := htokens a ha
      show (st.requests.filterMap Req.buffer).count a + (if st.server.buf = a then 1 else 0) +
        (rest.filterMap Evt.buffer).count a ≤ 1
      omega

theorem foldl_handle_events (es X : List Evt) (st : World) :
    es.foldl World.handle { st with events := X } = { es.foldl World.handle st with events := X } := by
  induction es generalizing st with
  | nil => rfl
  | cons e es ih => exact ih (st.handle e)

/-- **Events arrive** in order. -/
theorem handleAll (h : st.Owned) {es rest : List Evt} (he : st.events = es ++ rest) :
    ({ es.foldl World.handle st with events := rest } : World).Owned := by
  induction es generalizing st with
  | nil =>
    obtain ⟨hclient, hrequests, hserver, hevents, htokens⟩ := h
    rw [List.nil_append] at he
    refine ⟨hclient, hrequests, hserver, ?_, ?_⟩
    · rw [← he]
      exact hevents
    · intro a ha
      have hold := htokens a ha
      rw [World.tokens, he] at hold
      exact hold
  | cons e es ih =>
    have hfirst := h.handle (show st.events = e :: (es ++ rest) from he)
    have hrest := ih hfirst rfl
    rw [foldl_handle_events] at hrest
    exact hrest

/-- **A pump** keeps the tokens. -/
theorem sxPump (h : st.Owned) : st.sxPump.Owned := by
  have hall := h.handleAll (List.take_append_drop ((st.client.rxLen +
    min (sxRxMax - st.client.rxLen) st.unread) / evtSize) st.events).symm
  exact ⟨⟨hall.client.distinct, hall.client.block, hall.client.empty, hall.client.back⟩,
    hall.requests, hall.server, hall.events, hall.tokens⟩

end World.Owned

/-! ## Runs -/

/-- `malloc` gives blocks that are not in use. -/
def Malloc (st : World) : WorldOp → Prop
  | .sxWindowCanvas mem | .sxWindowDamage mem | .sxPump mem => st.client.Fresh mem
  | _ => True

/-- There is memory for a buffer that has none. -/
def Client.HasMemory (c : Client) (mem : Option Nat) : Prop :=
  ∀ i, c.pick = some i → (c.buffers i).pixels = 0 → mem ≠ none

/-- A commit that needs its first memory gets it. -/
def Backed (st : World) : WorldOp → Prop
  | .sxWindowDamage mem => st.client.wait = none → st.client.back = none → st.client.HasMemory mem
  | .sxPump mem => st.client.wait = some .damage → st.sxPump.client.HasMemory mem
  | _ => True

theorem foldl_handle_heap (es : List Evt) (st : World) :
    (es.foldl World.handle st).client.heap = st.client.heap := by
  induction es generalizing st with
  | nil => rfl
  | cons e es ih =>
    rw [List.foldl_cons, ih]
    cases e <;> rfl

theorem canvasLoop_back {c : Client} {k : Wait} {mem : Option Nat} (hmem : c.HasMemory mem)
    (hwait : (c.canvasLoop k mem).wait = none) : (c.canvasLoop k mem).back.isSome = true := by
  rw [Client.canvasLoop] at hwait ⊢
  split at hwait
  · cases hwait
  · rename_i i hi
    unfold Client.canvasFinish
    dsimp only
    split
    · cases mem with
      | some block => rfl
      | none =>
        dsimp only
        split
        · rename_i hz
          exact absurd rfl (hmem i hi hz)
        · rfl
    · rfl

theorem World.Owned.afterCanvas {st : World} (h : st.Owned) {k : Wait} {c : Client}
    (hc : c.Sound ∧ st.client.Keeps c)
    (hback : k = .damage → c.wait = none → c.back.isSome = true) : (st.afterCanvas k c).Owned := by
  rw [World.afterCanvas]
  split
  · rename_i hdamage
    exact (h.keeps hc).damageFinish (hback hdamage.1 hdamage.2)
  · exact h.keeps hc

/-- **One step** keeps the tokens. -/
theorem World.Owned.step {st : World} (h : st.Owned) {op : WorldOp} (hmalloc : Malloc st op)
    (hbacked : Backed st op) : (st.step op).Owned := by
  cases op with
  | sxWindowCanvas mem =>
    rw [World.step]
    split
    · exact h
    · exact h.afterCanvas (sxWindowCanvas_sound h.client .canvas hmalloc) fun hk => nomatch hk
  | sxWindowDamage mem =>
    rw [World.step]
    split
    · exact h
    · rename_i hwait
      split
      · rename_i hback
        exact h.damageFinish hback
      · rename_i hback
        have hnone : st.client.back = none := by simpa using hback
        refine h.afterCanvas (sxWindowCanvas_sound h.client .damage hmalloc) ?_
        intro _ hdone
        rw [Client.sxWindowCanvas, hnone] at hdone ⊢
        exact canvasLoop_back (hbacked (by simpa using hwait) hnone) hdone
  | sxPump mem =>
    rw [World.step]
    cases hwait : st.client.wait with
    | none => exact h.sxPump
    | some k =>
      have hheap : st.sxPump.client.heap = st.client.heap := foldl_handle_heap _ st
      have hfresh : st.sxPump.client.Fresh mem := by
        rw [Client.Fresh, hheap]
        exact hmalloc
      refine h.sxPump.afterCanvas (canvasLoop_sound h.sxPump.client k hfresh) ?_
      intro hk hdone
      subst hk
      exact canvasLoop_back (hbacked hwait) hdone
  | sxWindowResize w hh =>
    rw [World.step]
    split
    · exact h
    · refine ⟨h.client, ?_, h.server, h.events, ?_⟩
      · intro a w' hh' s hr
        rcases List.mem_append.mp hr with hr | hr
        · exact h.requests a w' hh' s hr
        · cases List.mem_singleton.mp hr
      · intro a ha
        have hold := h.tokens a ha
        rw [World.tokens] at hold ⊢
        simpa [List.filterMap_append, List.filterMap_cons, Req.buffer] using hold
  | clientHandle =>
    rw [World.step]
    cases hr : st.requests with
    | nil => exact h
    | cons r rest =>
      cases r with
      | attachBuffer a w hh s => exact h.attach hr _
      | damage => exact (h.dropRequest hr rfl st.seen).serverStep rfl rfl rfl rfl fun e he => nomatch he
      | resize w hh =>
        dsimp only [Server.clientHandle]
        split
        · exact (h.dropRequest hr rfl st.seen).serverStep rfl rfl rfl rfl fun e he => nomatch he
        · obtain ⟨h1, h2, h3, h4, h5⟩ := windowSetSize_spec st.server
            (if w < 1 then 1 else min w st.server.screenW) (if hh < 1 then 1 else min hh st.server.screenH)
          exact (h.dropRequest hr rfl st.seen).serverStep h1 h2 h3 h4 h5
  | setSize maximized nw nh =>
    obtain ⟨h1, h2, h3, h4, h5⟩ :=
      windowSetSize_spec { st.server with maximized := maximized } nw nh
    exact h.serverStep h1 h2 h3 h4 h5
  | otherEvent => exact h.sendEvent fun a ha => nomatch ha

theorem World.New.owned {st : World} (h : st.New) : st.Owned := by
  refine ⟨⟨?_, ?_, ?_, ?_⟩, ?_, ?_, ?_, ?_⟩
  · intro i j _ hnz
    rw [h.buffers] at hnz
    exact absurd rfl hnz
  · intro i hnz
    rw [h.buffers] at hnz
    exact absurd rfl hnz
  · intro i _
    rw [h.buffers]
  · intro i hi
    rw [h.back] at hi
    cases hi
  · intro a w hh s hr
    rw [h.requests] at hr
    cases hr
  · intro hbuf
    exact absurd h.buf.1 hbuf
  · intro a ha
    cases h.events _ ha
  · intro a ha
    have hevents : st.events.filterMap Evt.buffer = [] := by
      rw [List.filterMap_eq_nil_iff]
      intro e he
      rw [h.events e he]
      rfl
    rw [World.tokens, h.requests, hevents, h.buf.1, if_neg (Ne.symm ha)]
    simp

/-- **The server owns its buffer**: whatever the order of the steps, the buffer of the
server is one that the program has marked busy and has neither freed nor allocated again
nor drawn into, and its declared size is the size of its block. -/
theorem server_buffer_owned {st : World}
    (h : world.Reachable (fun st op => Malloc st op ∧ Backed st op) st) (hbuf : st.server.buf ≠ 0) :
    ∃ i, (st.client.buffers i).pixels = st.server.buf ∧ (st.client.buffers i).busy = true ∧
      st.client.back ≠ some i ∧ st.server.bufStride = st.server.bufW ∧
      st.client.heap st.server.buf = some (st.server.bufW.toNat * st.server.bufH.toNat * 4) := by
  have howned : st.Owned := by
    refine h.invariant (P := World.Owned) (fun s (hs : s.New) => hs.owned) ?_
    intro s op hs hop
    exact hs.step hop.1 hop.2
  obtain ⟨hstride, i, hi⟩ := howned.server hbuf
  refine ⟨i, by rw [hi], by rw [hi], ?_, hstride, ?_⟩
  · intro hback
    have := (howned.client.back i hback).1
    rw [hi] at this
    cases this
  · have hblock := (howned.client.block i (by rw [hi]; exact hbuf)).2.2
    rw [hi] at hblock
    exact hblock

/-- A new window of 4 by 3 pixels on a screen of 800 by 600. -/
def newWindow (title : List UInt8) : World where
  client := ⟨title, 4, 3, fun _ => ⟨0, 0, 0, false⟩, none, none, fun _ => none, none, 0⟩
  server := ⟨0, 0, 0, 0, 4, 3, false, false, false, 800, 600⟩
  requests := []
  events := []
  unread := 0
  seen := false
  committed := false

theorem newWindow_new (title : List UInt8) : (newWindow title).New :=
  ⟨⟨show (1 : Int) ≤ 4 by decide, show (1 : Int) ≤ 3 by decide⟩, fun _ => rfl, rfl, rfl,
    fun _ => rfl, rfl, Nat.zero_lt_succ _, ⟨rfl, rfl, rfl⟩, ⟨rfl, rfl⟩, rfl, (fun e he => nomatch he),
    rfl, ⟨rfl, rfl⟩⟩

/-- The first commit of a window, and its arrival. -/
def firstCommit (mem : Option Nat) : List WorldOp := [.sxWindowDamage mem, .clientHandle]

theorem newWindow_malloc (title : List UInt8) :
    Malloc (newWindow title) (.sxWindowDamage (some 100)) := by
  intro a ha
  obtain rfl := Option.some.inj ha
  exact ⟨by decide, rfl⟩

/-- The window after its first commit, with memory at the address 100. -/
def firstCommitted : World := world.run (newWindow []) (firstCommit (some 100))

/-- The server has the buffer of 48 bytes. -/
theorem first_commit_owned :
    firstCommitted.server.buf = 100 ∧
    ∃ i, (firstCommitted.client.buffers i).pixels = firstCommitted.server.buf ∧
      (firstCommitted.client.buffers i).busy = true ∧ firstCommitted.client.back ≠ some i ∧
      firstCommitted.server.bufStride = firstCommitted.server.bufW ∧
      firstCommitted.client.heap firstCommitted.server.buf =
        some (firstCommitted.server.bufW.toNat * firstCommitted.server.bufH.toNat * 4) := by
  refine ⟨by decide +kernel, server_buffer_owned ?_ (by decide +kernel)⟩
  have hstart : world.Reachable (fun st op => Malloc st op ∧ Backed st op) (newWindow []) :=
    .start (newWindow_new [])
  have hmalloc := newWindow_malloc []
  have hbacked : Backed (newWindow []) (.sxWindowDamage (some 100)) := by
    intro _ _ _ _ _ hnone
    cases hnone
  have hdamage := Machine.Reachable.step (WorldOp.sxWindowDamage (some 100)) hstart ⟨hmalloc, hbacked⟩
  exact Machine.Reachable.step WorldOp.clientHandle hdamage ⟨trivial, trivial⟩

/-- **Without memory** the first commit of a window with a long title attaches the end of
the title, and the server takes it for a buffer. -/
theorem title_attached : ∃ st, world.Reachable Malloc st ∧ st.server.buf ≠ 0 ∧
    ∀ i, (st.client.buffers i).pixels ≠ st.server.buf := by
  refine ⟨world.run (newWindow (List.replicate 63 65 ++ [0])) (firstCommit none), ?_, by decide +kernel,
    by decide +kernel⟩
  have hstart : world.Reachable Malloc (newWindow (List.replicate 63 65 ++ [0])) :=
    .start (newWindow_new _)
  have hmalloc : Malloc (newWindow (List.replicate 63 65 ++ [0])) (.sxWindowDamage none) := by
    intro a ha
    cases ha
  have hdamage := Machine.Reachable.step (WorldOp.sxWindowDamage none) hstart hmalloc
  exact Machine.Reachable.step WorldOp.clientHandle hdamage trivial

end StrawX
