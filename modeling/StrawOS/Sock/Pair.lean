import StrawOS.Sock.Rings

/-!
# The streams of a connected pair

Two sockets that were linked by a connect carry one stream in each direction.  The
run starts right after the link; any calls may follow, on the two ends and on any
other sockets, by any tasks, as long as the memory of the two ends is not given to
new sockets.  The bytes read at one end followed by those in its ring are then the
bytes that writes at the other end have copied.
-/

namespace Sock

variable {st st' : State} {a b : Addr}

/-- The stream at an end is as before; the end may have lost its link. -/
structure Quiet (x : Addr) (st st' : State) : Prop where
  state : (st'.sock x).state = (st.sock x).state
  hasRx : (st'.sock x).hasRx = (st.sock x).hasRx
  ring : (st'.sock x).ring = (st.sock x).ring
  peer : (st'.sock x).peer = (st.sock x).peer ∨ (st'.sock x).peer = none
  taken : st'.taken x = st.taken x
  sent : st'.sent x = st.sent x

namespace Quiet

variable {x : Addr} {st₁ st₂ st₃ : State}

theorem refl (x : Addr) (st : State) : Quiet x st st := ⟨rfl, rfl, rfl, Or.inl rfl, rfl, rfl⟩

theorem trans (h : Quiet x st₁ st₂) (h' : Quiet x st₂ st₃) : Quiet x st₁ st₃ where
  state := h'.state.trans h.state
  hasRx := h'.hasRx.trans h.hasRx
  ring := h'.ring.trans h.ring
  peer := by
    rcases h'.peer with hp | hp
    · rw [hp]
      exact h.peer
    · exact Or.inr hp
  taken := h'.taken.trans h.taken
  sent := h'.sent.trans h.sent

/-- What happens to tasks, descriptors and the list of listeners is not seen. -/
theorem congr (h : Quiet x st₁ st₂) (hsock : st₃.sock = st₂.sock) (htaken : st₃.taken = st₂.taken)
    (hsent : st₃.sent = st₂.sent) : Quiet x st₁ st₃ := by
  refine h.trans ?_
  constructor
  · rw [hsock]
  · rw [hsock]
  · rw [hsock]
  · rw [hsock]
    exact Or.inl rfl
  · rw [htaken]
  · rw [hsent]

theorem setSock {c : Addr} {k : Socket} (hk : k.state = (st.sock c).state ∧
    k.hasRx = (st.sock c).hasRx ∧ k.ring = (st.sock c).ring ∧ k.peer = (st.sock c).peer) :
    Quiet x st (st.setSock c k) := by
  by_cases hx : x = c
  · subst hx
    obtain ⟨h1, h2, h3, h4⟩ := hk
    have hself : (st.setSock x k).sock x = k := by simp [State.setSock]
    exact ⟨by rw [hself, h1], by rw [hself, h2], by rw [hself, h3], by rw [hself, h4]; simp, rfl, rfl⟩
  · have hself : (st.setSock c k).sock x = st.sock x := by simp [State.setSock, hx]
    exact ⟨by rw [hself], by rw [hself], by rw [hself], by rw [hself]; simp, rfl, rfl⟩

theorem setSock_ne {c : Addr} {k : Socket} (hx : x ≠ c) : Quiet x st (st.setSock c k) := by
  have hself : (st.setSock c k).sock x = st.sock x := by simp [State.setSock, hx]
  exact ⟨by rw [hself], by rw [hself], by rw [hself], by rw [hself]; simp, rfl, rfl⟩

theorem unlinkPeer (c : Addr) : Quiet x st (st.unlinkPeer c) := by
  have hrest := unlinkPeer_rest st c
  have hsock : (st.unlinkPeer c).sock x = st.sock x ∨
      (st.unlinkPeer c).sock x = { st.sock x with peer := none } := by
    rw [unlinkPeer_sock]
    split
    · exact Or.inr rfl
    · exact Or.inl rfl
  have htaken : (st.unlinkPeer c).taken = st.taken := by rw [hrest]
  have hsent : (st.unlinkPeer c).sent = st.sent := by rw [hrest]
  rcases hsock with hs | hs
  · exact ⟨by rw [hs], by rw [hs], by rw [hs], by rw [hs]; simp, by rw [htaken], by rw [hsent]⟩
  · exact ⟨by rw [hs], by rw [hs], by rw [hs]; rfl, by rw [hs]; simp, by rw [htaken], by rw [hsent]⟩

theorem destroyOne (c : Addr) : Quiet x st (st.destroyOne c) :=
  (unlinkPeer c).congr rfl rfl rfl

theorem sockDestroy (c : Addr) : Quiet x st (st.sockDestroy c) := by
  refine sockDestroy_keeps (refl x st) (fun _ d h => h.trans (destroyOne d)) ?_
  have h₀ : Quiet x st (st.setSock c { st.sock c with backlog := [] }) :=
    setSock ⟨rfl, rfl, rfl, rfl⟩
  exact h₀.congr rfl rfl rfl

theorem sockNew {c : Addr} (hx : x ≠ c) (nonblock : Bool) : Quiet x st (st.sockNew c nonblock) := by
  have hself : (st.sockNew c nonblock).sock x = st.sock x := by simp [State.sockNew, hx]
  refine ⟨by rw [hself], by rw [hself], by rw [hself], by rw [hself]; simp, ?_, ?_⟩
  · simp [State.sockNew, hx]
  · simp [State.sockNew, hx]

theorem allocRx (c : Addr) (hx : (st.sock x).hasRx = true) : Quiet x st (allocRx st c) := by
  rw [Sock.allocRx]
  split
  · exact refl x st
  · rename_i hc
    refine setSock_ne ?_
    intro heq
    rw [← heq] at hc
    exact hc hx

theorem link {s conn l : Addr} (hs : x ≠ s) (hconn : x ≠ conn) : Quiet x st (link st s conn l) := by
  have h₁ : Quiet x st (st.setSock conn { st.sock conn with state := .connected, peer := some s }) :=
    setSock_ne hconn
  rw [Sock.link]
  dsimp only
  generalize State.setSock st conn _ = st₁ at h₁ ⊢
  have h₂ : Quiet x st (st₁.setSock s { st₁.sock s with state := .connected, peer := some conn }) :=
    h₁.trans (setSock_ne hs)
  generalize State.setSock st₁ s _ = st₂ at h₂ ⊢
  have h₃ : Quiet x st (st₂.setSock l
      { st₂.sock l with backlog := (st₂.sock l).backlog ++ [conn] }) :=
    h₂.trans (setSock ⟨rfl, rfl, rfl, rfl⟩)
  exact h₃.congr rfl rfl rfl

theorem sockSysConnect (hx : (st.sock x).hasRx = true) (hstate : (st.sock x).state = .connected)
    (fd : Nat) (name : Vfs.CString) {mem : Option Addr} (hmem : mem ≠ some x) (rings : Bool) :
    Quiet x st (sockSysConnect st fd name mem rings) := by
  unfold Sock.sockSysConnect
  dsimp only
  split
  case h_2 => exact refl x st
  rename_i s conn hs
  have hconn : x ≠ conn := fun heq => hmem (by rw [heq])
  have hnew : Quiet x st (st.sockNew conn false) := sockNew hconn false
  split
  · exact hnew.congr rfl rfl rfl
  have h₁ : Quiet x st (Sock.allocRx (Sock.allocRx (st.sockNew conn false) conn) s) := by
    have hc := hnew.trans (allocRx conn (by rw [hnew.hasRx, hx]))
    exact hc.trans (allocRx s (by rw [hc.hasRx, hx]))
  generalize Sock.allocRx (Sock.allocRx (st.sockNew conn false) conn) s = st₁ at h₁ ⊢
  split
  · exact h₁.trans (sockDestroy conn)
  split
  · exact h₁.trans (sockDestroy conn)
  · rename_i hif
    simp only [not_or, not_not] at hif
    refine h₁.trans (link ?_ hconn)
    intro heq
    have hun := hif.1
    rw [← heq, h₁.state, hstate] at hun
    simp at hun

end Quiet

/-! ## Sockets that were never connected -/

/-- Nothing has been read from or written to a socket that is not connected. -/
def Unused (st : State) : Prop :=
  ∀ x, st.live x = true → (st.sock x).state ≠ .connected →
    (st.sock x).rxCount = 0 ∧ st.taken x = [] ∧ st.sent x = []

namespace Unused

theorem start (h : Start st) : Unused st := by
  intro x hx
  rw [h.live] at hx
  simp at hx

/-- Sockets may be destroyed and become connected, the rest is as before. -/
theorem congr (h : Unused st) (hlive : ∀ x, st'.live x = true → st.live x = true)
    (hsock : ∀ x, (st'.sock x).state ≠ .connected → (st.sock x).state ≠ .connected ∧
      (st'.sock x).rxCount = (st.sock x).rxCount)
    (htaken : st'.taken = st.taken) (hsent : st'.sent = st.sent) : Unused st' := by
  intro x hx hstate
  obtain ⟨hold, hcount⟩ := hsock x hstate
  rw [hcount, htaken, hsent]
  exact h x (hlive x hx) hold

theorem setSock (h : Unused st) {c : Addr} {k : Socket}
    (hk : k.state ≠ .connected → (st.sock c).state ≠ .connected ∧ k.rxCount = (st.sock c).rxCount) :
    Unused (st.setSock c k) := by
  refine h.congr (fun _ hx => hx) ?_ rfl rfl
  intro x hx
  by_cases hxc : x = c
  · subst hxc
    have hself : (st.setSock x k).sock x = k := by simp [State.setSock]
    rw [hself] at hx ⊢
    exact hk hx
  · have hself : (st.setSock c k).sock x = st.sock x := by simp [State.setSock, hxc]
    rw [hself] at hx ⊢
    exact ⟨hx, rfl⟩

theorem destroyOne (h : Unused st) (c : Addr) : Unused (st.destroyOne c) := by
  have hu : Unused (st.unlinkPeer c) := by
    have hrest := unlinkPeer_rest st c
    refine h.congr ?_ ?_ ?_ ?_
    · rw [hrest]
      exact fun _ hx => hx
    · intro x
      rw [unlinkPeer_sock]
      split
      · exact fun hx => ⟨hx, rfl⟩
      · exact fun hx => ⟨hx, rfl⟩
    · rw [hrest]
    · rw [hrest]
  refine hu.congr ?_ (fun x hx => ⟨hx, rfl⟩) rfl rfl
  intro x hx
  by_cases hxc : x = c
  · subst hxc
    simp [State.destroyOne, State.wakeWaiters] at hx
  · simpa [State.destroyOne, State.wakeWaiters, hxc] using hx

theorem sockDestroy (h : Unused st) (c : Addr) : Unused (st.sockDestroy c) :=
  sockDestroy_keeps h (fun _ d h' => h'.destroyOne d) (setSock h fun hx => ⟨hx, rfl⟩)

theorem sockNew (h : Unused st) (c : Addr) (nonblock : Bool) : Unused (st.sockNew c nonblock) := by
  intro x hx hstate
  by_cases hxc : x = c
  · subst hxc
    simp [State.sockNew]
  · have hold := h x (by simpa [State.sockNew, hxc] using hx)
      (by simpa [State.sockNew, hxc] using hstate)
    simpa [State.sockNew, hxc] using hold

theorem drop (h : Unused st) (c : Addr) :
    Unused { st with live := Function.update st.live c false } := by
  refine h.congr ?_ (fun x hx => ⟨hx, rfl⟩) rfl rfl
  intro x hx
  by_cases hxc : x = c
  · subst hxc
    simp at hx
  · simpa [hxc] using hx

theorem allocRx (h : Unused st) (c : Addr) : Unused (allocRx st c) := by
  rw [Sock.allocRx]
  split
  · exact h
  intro x hx hstate
  by_cases hxc : x = c
  · subst hxc
    have hold := h x hx (by simpa [State.setSock] using hstate)
    exact ⟨by simp [State.setSock], hold.2⟩
  · have hold := h x hx (by simpa [State.setSock, hxc] using hstate)
    exact ⟨by simpa [State.setSock, hxc] using hold.1, hold.2⟩

theorem link (h : Unused st) (s conn l : Addr) : Unused (link st s conn l) := by
  have h₁ : Unused (st.setSock conn { st.sock conn with state := .connected, peer := some s }) :=
    h.setSock (by simp)
  rw [Sock.link]
  generalize State.setSock st conn _ = st₁ at h₁ ⊢
  have h₂ : Unused (st₁.setSock s { st₁.sock s with state := .connected, peer := some conn }) :=
    h₁.setSock (by simp)
  exact setSock h₂ fun hx => ⟨hx, rfl⟩

theorem readSegment (h : Unused st) (t : Nat) (s : Addr) (count : Nat) :
    Unused (readSegment st t s count).1 := by
  rw [Sock.readSegment]
  split
  · exact h
  rename_i hconn
  split
  · intro x hx hstate
    have hxs : x ≠ s := by
      intro heq
      subst heq
      refine hstate ?_
      simpa [State.finish, State.setTask, State.wakeWaiters, State.setSock, Socket.drain] using hconn
    have hold := h x hx (by simpa [State.finish, State.setTask, State.wakeWaiters, State.setSock,
      hxs] using hstate)
    simpa [State.finish, State.setTask, State.wakeWaiters, State.setSock, hxs] using hold
  split
  · exact h
  split
  · exact h
  · exact h

theorem transfer (h : Unused st) {s peer : Addr} (hs : (st.sock s).state = .connected)
    (hp : (st.sock peer).state = .connected) (bytes : List UInt8) :
    Unused (transfer st s peer bytes) := by
  intro x hx hstate
  have hxp : x ≠ peer := by
    intro heq
    subst heq
    refine hstate ?_
    simpa [Sock.transfer, State.wakeWaiters, State.setSock, sockPush] using hp
  have hold := h x hx (by simpa [Sock.transfer, State.wakeWaiters, State.setSock, hxp] using hstate)
  have hxs : x ≠ s := by
    intro heq
    subst heq
    refine hstate ?_
    simpa [Sock.transfer, State.wakeWaiters, State.setSock, hxp] using hs
  simpa [Sock.transfer, State.wakeWaiters, State.setSock, hxp, hxs] using hold

theorem writeSegment (t : Nat) (s : Addr) (buf : List UInt8) (written : Nat) (hg : Graph [] st)
    (h : Unused st) : Unused (writeSegment st t s buf written).1 := by
  fun_induction Sock.writeSegment st t s buf written with
  | case1 | case2 | case3 | case5 => exact h
  | case4 st written _ peer hp _ _ _ _ _ ih =>
    obtain ⟨-, -, hback, hs⟩ := hg.peer s peer hp
    exact ih (hg.transfer _ _ _) (h.transfer hs (hg.peer peer s hback).2.2.2 _)

theorem sockSysConnect (h : Unused st) (fd : Nat) (name : Vfs.CString) (mem : Option Addr)
    (rings : Bool) : Unused (sockSysConnect st fd name mem rings) := by
  unfold Sock.sockSysConnect
  dsimp only
  split
  case h_2 => exact h
  rename_i s conn _
  have hnew := h.sockNew conn false
  split
  · exact hnew.drop conn
  have h₁ := (hnew.allocRx conn).allocRx s
  split
  · exact h₁.sockDestroy conn
  split
  · exact h₁.sockDestroy conn
  · exact h₁.link _ _ _

/-- **Step lemma.** -/
theorem step (h : Unused st) (hg : Graph [] st) (op : Op) : Unused (step st op).1 :=
  Survives.step
    { now := h
      fds := fun _ _ _ h' => h'
      outside := fun _ _ h' => h'
      flags := fun _ _ _ h' => h'.setSock fun hx => ⟨hx, rfl⟩
      destroy := fun _ s h' => h'.sockDestroy s
      wake := h
      asleep := fun _ _ _ => h
      first := fun _ _ _ _ => h.setSock fun hx => ⟨hx, rfl⟩
      made := fun nonblock _ c _ _ => ⟨h.sockNew c nonblock, (h.sockNew c nonblock).drop c⟩
      named := fun _ _ _ _ hold _ => setSock h fun _ => ⟨hold, rfl⟩
      connect := fun fd name _ rings _ => h.sockSysConnect fd name _ rings
      read := h.readSegment
      write := fun t s buf written => Unused.writeSegment t s buf written hg h }

end Unused

theorem unused_of_reachable {guard : State → Op → Prop} (h : machine.Reachable guard st) :
    Unused st := by
  have hall : Graph [] st ∧ Unused st := by
    refine Machine.Reachable.invariant (P := fun s => Graph [] s ∧ Unused s) ?_ ?_ h
    · intro s hs
      exact ⟨Start.graph hs, Unused.start hs⟩
    · intro s op hs _
      exact ⟨hs.1.step op, hs.2.step hs.1 op⟩
  exact hall.2

/-! ## The two streams -/

/-- The stream from `b` to `a`: what was read at `a` and what is in its ring is what
was sent at `b`. -/
structure Stream (a b : Addr) (st : State) : Prop where
  state : (st.sock a).state = .connected
  hasRx : (st.sock a).hasRx = true
  peer : (st.sock a).peer = some b ∨ (st.sock a).peer = none
  bytes : st.taken a ++ (st.sock a).ring = st.sent b

theorem Stream.quiet (h : Stream a b st) (ha : Quiet a st st') (hb : Quiet b st st') :
    Stream a b st' where
  state := by rw [ha.state, h.state]
  hasRx := by rw [ha.hasRx, h.hasRx]
  peer := by
    rcases ha.peer with hp | hp
    · rw [hp]
      exact h.peer
    · exact Or.inr hp
  bytes := by rw [ha.taken, ha.ring, hb.sent, h.bytes]

theorem Stream.readSegment (h : Stream a b st) (hr : Rings st) (t : Nat) (s : Addr) (count : Nat) :
    Stream a b (readSegment st t s count).1 := by
  have hstill : ∀ {st' : State}, st'.sock = st.sock → st'.taken = st.taken → st'.sent = st.sent →
      Stream a b st' := fun h1 h2 h3 =>
    h.quiet ((Quiet.refl a st).congr h1 h2 h3) ((Quiet.refl b st).congr h1 h2 h3)
  rw [Sock.readSegment]
  split
  · exact hstill rfl rfl rfl
  split
  · by_cases hsa : a = s
    · subst hsa
      have hpop := Buf.ring_pop (n := min count (st.sock a).rxCount) (st.sock a).rx (hr a).1 (hr a).2
        (Nat.min_le_right _ _)
      constructor
      · simpa [State.finish, State.setTask, State.wakeWaiters, State.setSock, Socket.drain]
          using h.state
      · simpa [State.finish, State.setTask, State.wakeWaiters, State.setSock, Socket.drain]
          using h.hasRx
      · simpa [State.finish, State.setTask, State.wakeWaiters, State.setSock, Socket.drain]
          using h.peer
      · have hring : ((st.sock a).drain (min count (st.sock a).rxCount)).ring =
            (st.sock a).ring.drop (min count (st.sock a).rxCount) := hpop.2
        simp only [State.finish, State.setTask, State.wakeWaiters, State.setSock,
          Function.update_self, hring, hpop.1]
        rw [List.append_assoc]
        show st.taken a ++ ((st.sock a).ring.take _ ++ (st.sock a).ring.drop _) = st.sent b
        rw [List.take_append_drop, h.bytes]
    · have hq : Quiet a st (st.setSock s ((st.sock s).drain (min count (st.sock s).rxCount))) :=
        Quiet.setSock_ne hsa
      constructor
      · exact hq.state.trans h.state
      · exact hq.hasRx.trans h.hasRx
      · rcases hq.peer with hp | hp
        · exact hp.symm ▸ h.peer
        · exact Or.inr hp
      · show Function.update st.taken s _ a ++ (State.sock (st.setSock s _) a).ring = st.sent b
        rw [Function.update_of_ne hsa, hq.ring, h.bytes]
  split
  · exact hstill rfl rfl rfl
  split
  · exact hstill rfl rfl rfl
  · exact hstill rfl rfl rfl

/-- A chunk goes from one end to the ring of the other, and a chunk between other
sockets is not seen. -/
theorem Stream.transfer (h : Stream a b st) (h' : Stream b a st) (hg : Graph [] st) (hr : Rings st)
    {s peer : Addr} (hp : (st.sock s).peer = some peer) {bytes : List UInt8}
    (hfit : (st.sock peer).rxCount + bytes.length ≤ sockBufSize) :
    Stream a b (transfer st s peer bytes) := by
  by_cases hpa : a = peer
  · subst hpa
    have hsb : s = b := by
      have hback := (hg.peer s a hp).2.2.1
      rcases h.peer with hb | hb
      · rw [hback] at hb
        exact Option.some.inj hb
      · rw [hback] at hb
        simp at hb
    subst hsb
    have hpush := Buf.ring_push (st.sock a).rx bytes (hr a).1 hfit
    constructor
    · simpa [Sock.transfer, State.wakeWaiters, State.setSock, sockPush] using h.state
    · simpa [Sock.transfer, State.wakeWaiters, State.setSock, sockPush] using h.hasRx
    · simpa [Sock.transfer, State.wakeWaiters, State.setSock, sockPush] using h.peer
    · have hring : (sockPush (st.sock a) bytes).ring = (st.sock a).ring ++ bytes := hpush
      simp only [Sock.transfer, State.wakeWaiters, State.setSock, Function.update_self, hring]
      rw [← List.append_assoc, h.bytes]
  · have hsb : b ≠ s := by
      intro heq
      subst heq
      rcases h'.peer with hb | hb
      · rw [hp] at hb
        exact hpa (Option.some.inj hb).symm
      · rw [hp] at hb
        simp at hb
    have hq : Quiet a st (st.setSock peer (sockPush (st.sock peer) bytes)) := Quiet.setSock_ne hpa
    constructor
    · exact hq.state.trans h.state
    · exact hq.hasRx.trans h.hasRx
    · rcases hq.peer with hb | hb
      · exact hb.symm ▸ h.peer
      · exact Or.inr hb
    · show st.taken a ++ (State.sock (st.setSock peer _) a).ring = Function.update st.sent s _ b
      rw [Function.update_of_ne hsb, hq.ring, h.bytes]

/-- Both streams of a pair. -/
structure Pair (a b : Addr) (st : State) : Prop where
  left : Stream a b st
  right : Stream b a st

theorem Pair.quiet (h : Pair a b st) (ha : Quiet a st st') (hb : Quiet b st st') : Pair a b st' :=
  ⟨h.left.quiet ha hb, h.right.quiet hb ha⟩

theorem Pair.readSegment (h : Pair a b st) (hr : Rings st) (t : Nat) (s : Addr) (count : Nat) :
    Pair a b (readSegment st t s count).1 :=
  ⟨h.left.readSegment hr t s count, h.right.readSegment hr t s count⟩

theorem Pair.still (h : Pair a b st) (hsock : st'.sock = st.sock) (htaken : st'.taken = st.taken)
    (hsent : st'.sent = st.sent) : Pair a b st' :=
  h.quiet ((Quiet.refl a st).congr hsock htaken hsent) ((Quiet.refl b st).congr hsock htaken hsent)

theorem Pair.writeSegment (t : Nat) (s : Addr) (buf : List UInt8) (written : Nat) (hg : Graph [] st)
    (hr : Rings st) (h : Pair a b st) : Pair a b (writeSegment st t s buf written).1 := by
  fun_induction Sock.writeSegment st t s buf written with
  | case1 | case2 | case3 | case5 => exact h.still rfl rfl rfl
  | case4 st written _ peer hp _ _ _ _ _ ih =>
    have hfit := @chunk_fits buf written _ (hr peer).2
    exact ih (hg.transfer _ _ _) (hr.transfer _ _ hfit)
      ⟨h.left.transfer h.right hg hr hp hfit, h.right.transfer h.left hg hr hp hfit⟩

/-- The memory of the two ends is not given to a new socket. -/
def sparing (a b : Addr) (_ : State) : Op → Prop
  | .socket _ mem => mem ≠ some a ∧ mem ≠ some b
  | .connect _ _ mem _ => mem ≠ some a ∧ mem ≠ some b
  | _ => True

theorem available_ne {mem : Option Addr} {x : Addr} (h : mem ≠ some x) :
    st.available mem ≠ some x := by
  intro ha
  rw [State.available, Option.filter_eq_some_iff] at ha
  exact h ha.1

end Sock
