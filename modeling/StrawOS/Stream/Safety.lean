import StrawOS.Stream.Arrival
import StrawOS.Stream.Writer

/-!
# Stream safety

Each direction of the connection is in one of two phases.  While it flows, the
sender's window, the segments on the network, the receiver's position and the
acknowledgements on the network all refer to positions of the bytes accepted so
far.  Once the receiver has taken the FIN it is over: the receiver has every byte
and the sender accepts no more.

`inet_write` looks only at the state, and a timeout takes a closed socket back from
FIN-WAIT to ESTABLISHED; a write that was asleep since before the close may then be
let in.  The result is for the runs in which this does not happen.
-/

namespace Stream

open Inet

theorem Side.other_ne (x : Side) : x.other ≠ x := by
  cases x <;> decide

theorem Side.eq_other_of_ne {x y : Side} (h : y ≠ x) : y = x.other := by
  revert h
  cases x <;> cases y <;> decide

variable {c : Conn} {x y z : Side} {e : Endpoint} {out : List Emission} {acc ret : List UInt8}

@[simp] theorem put_ends_self : (c.put z e out).ends z = e := by
  simp [Conn.put]

theorem put_ends_ne (h : y ≠ z) : (c.put z e out).ends y = c.ends y := by
  simp [Conn.put, h]

theorem put_sent_self : (c.put z e out).sent z = c.sent z ++ out.map Emission.seg := by
  simp [Conn.put]

theorem put_sent_ne (h : y ≠ z) : (c.put z e out).sent y = c.sent y := by
  simp [Conn.put, h]

/-! ## The invariant -/

/-- Side `y` has taken nothing and acknowledged nothing. -/
structure Untaken (c : Conn) (y : Side) : Prop where
  unsynced : Unsynced (c.ends y).sock
  got : (c.ends y).got = []
  fin : (c.ends y).sock.finReceived = false
  noAck : ∀ g ∈ c.sent y, hasFlag g.flags tcpAck = false

/-- Side `y` has taken the stream of side `x` up to position `r`, and
acknowledged no more. -/
structure Taken (c : Conn) (x y : Side) (r : Nat) : Prop where
  receiving : Receiving (c.ends x).sock.iss (c.ends x).wrote (c.ends y).got (c.ends y).sock r
  opened : (c.ends y).sock.state ≠ .synSent
  acks : ∀ g ∈ c.sent y, hasFlag g.flags tcpAck = true →
    ∃ k ≤ r, g.ack = (c.ends x).sock.iss + 1 + .ofNat k

/-- The stream from `x` to `y` before its end is seen. -/
structure Flowing (c : Conn) (x y : Side) : Prop where
  sending : Sending (c.ends x).wrote (c.ends x).sock
  carries : ∀ g ∈ c.sent x,
    Carries (c.ends x).wrote (c.ends x).sock.iss (c.ends x).sock.closeRequested g
  taken : Untaken c y ∨ ∃ r, Taken c x y r

/-- The stream from `x` to `y` after its end is seen. -/
structure Over (c : Conn) (x y : Side) : Prop where
  ended : Ended (c.ends x).wrote (c.ends y).got (c.ends y).sock
  closing : (c.ends x).sock.closeRequested = true
  opened : (c.ends y).sock.state ≠ .synSent

structure Inv (c : Conn) : Prop where
  stream : ∀ x y, y ≠ x → Flowing c x y ∨ Over c x y
  ring : ∀ x, RingOk (c.ends x).sock
  short : ∀ x, (c.ends x).wrote.length < 2 ^ 31
  error : ∀ x, (c.ends x).sock.error ≤ 0
  unborn : ∀ x, (c.ends x).life = .unborn → c.ends x = {} ∧ c.sent x = []
  alone : ∀ x y, y ≠ x → (c.ends y).life = .unborn → Untaken c x

/-! ## Fields that only move one way -/

/-- The initial number stays, a close is not taken back, and errors are negative
codes. -/
structure Steady (s s' : InetSocket) : Prop where
  iss : s'.iss = s.iss
  closing : s.closeRequested = true → s'.closeRequested = true
  error : s.error ≤ 0 → s'.error ≤ 0

theorem Steady.refl (s : InetSocket) : Steady s s := ⟨rfl, id, id⟩

theorem Steady.trans {s s' s'' : InetSocket} (h : Steady s s') (h' : Steady s' s'') :
    Steady s s'' :=
  ⟨h'.iss.trans h.iss, fun h0 => h'.closing (h.closing h0), fun h0 => h'.error (h.error h0)⟩

theorem Steady.output (now : Nat) (s : InetSocket) : Steady s (tcpOutput now s).1 :=
  tcpOutput_induct (P := fun s' _ => Steady s s') now s (.refl s)
    (fun _ _ h _ _ => h.trans ⟨rfl, id, id⟩) (fun _ _ h _ _ => h.trans ⟨rfl, id, id⟩)
    (fun _ _ h => h.trans ⟨rfl, id, id⟩)

theorem Steady.reset (s : InetSocket) {error : Int} (h : error ≤ 0) :
    Steady s (tcpReset s error).sock :=
  ⟨rfl, id, fun _ => h⟩

theorem Steady.receiveOpen (now : Nat) (s : InetSocket) (seg : TcpSegment) :
    Steady s (tcpReceiveOpen now s seg).sock := by
  have hack : Steady s (tcpProcessAck now s seg) := by
    unfold tcpProcessAck
    split
    · split <;> exact ⟨rfl, id, id⟩
    · exact .refl s
  have htext : ∀ t, Steady t (tcpProcessText t seg).1 := by
    intro t
    have hdata : Steady t (tcpProcessData t seg) := by
      unfold tcpProcessData
      split <;> exact ⟨rfl, id, id⟩
    unfold tcpProcessText
    dsimp only
    split
    · exact hdata.trans ⟨rfl, id, id⟩
    · exact hdata
  unfold tcpReceiveOpen
  dsimp only
  split
  · exact hack.trans (htext _)
  · exact (hack.trans (htext _)).trans (.output now _)

theorem Steady.receive (now : Nat) (s : InetSocket) (seg : TcpSegment) :
    Steady s (tcpReceive now s seg).sock := by
  unfold tcpReceive
  split
  · refine .reset s ?_
    split <;> simp [ECONNREFUSED, EPIPE]
  · cases s.state with
    | closed | listen => exact .refl s
    | established | finWait | closeWait | done => exact .receiveOpen now s seg
    | synSent => dsimp only; split <;> exact ⟨rfl, id, id⟩
    | synRcvd =>
        dsimp only
        split
        · exact .refl s
        split
        · have hacc : Steady s (tcpAccepted s seg) := ⟨rfl, id, id⟩
          exact hacc.trans (.receiveOpen now _ seg)
        · exact .refl s

theorem Steady.tick (now : Nat) (s : InetSocket) : Steady s (tcpTick now s).sock := by
  unfold tcpTick
  split
  · exact .refl s
  split
  · exact .refl s
  split
  · have hcode : (if s.state = .synSent then -ETIMEDOUT else -EPIPE) ≤ 0 := by
      split <;> simp [ETIMEDOUT, EPIPE]
    exact ⟨rfl, id, fun _ => hcode⟩
  have hroll : Steady s (tcpRollback (tcpBackOff now s)) := ⟨rfl, id, id⟩
  cases s.state with
  | synSent | synRcvd => exact ⟨rfl, id, id⟩
  | closed | listen | established | finWait | closeWait | done =>
      exact hroll.trans (.output now _)

theorem Steady.read (s : InetSocket) (count : Nat) : Steady s (tcpRead s count).1 := by
  unfold tcpRead
  split
  · exact .refl s
  split
  · exact ⟨rfl, id, id⟩
  split
  · exact .refl s
  split <;> exact .refl s

theorem Steady.writeLoop (now fuel : Nat) (s : InetSocket) (rest : List UInt8) (written : Nat) :
    Steady s (tcpWriteLoop now fuel s rest written).1 := by
  induction fuel generalizing s rest written with
  | zero => exact .refl s
  | succ fuel ih =>
      rw [tcpWriteLoop]
      iterate 4
        split
        · exact .refl s
      have hqueue : Steady s (tcpQueueTx s
        (rest.take (min rest.length (tcpTxSize - s.txCount)))) := ⟨rfl, id, id⟩
      exact (hqueue.trans (.output now _)).trans (ih _ _ _)

theorem Steady.close (now : Nat) (s : InetSocket) : Steady s (tcpClose now s).sock := by
  have hreq : Steady s (tcpRequestClose now s) := ⟨rfl, fun _ => rfl, id⟩
  unfold tcpClose
  cases s.state with
  | established | closeWait => exact hreq.trans (.output now _)
  | synSent | closed | listen | finWait | done | synRcvd => exact .refl s

theorem Steady.connectWait (s : InetSocket) (elapsed : Nat) :
    Steady s (tcpConnectWait s elapsed).1 := by
  unfold tcpConnectWait
  split <;> exact ⟨rfl, id, id⟩

/-! ## One side acts

The acting side `z` is the sender of one stream and the receiver of the other. -/

/-- What the action of side `z` does to the stream it sends. -/
theorem stream_of_sender (h : Flowing c z y ∨ Over c z y) (hy : y ≠ z)
    (hsteady : Steady (c.ends z).sock e.sock) (hwrote : e.wrote = (c.ends z).wrote ++ acc)
    (hmove : Flowing c z y → SenderMove (c.ends z).wrote acc (c.ends z).sock e.sock out)
    (hfrozen : (c.ends z).sock.closeRequested = true → acc = []) :
    Flowing (c.put z e out) z y ∨ Over (c.put z e out) z y := by
  rcases h with h | h
  · refine .inl ?_
    have hm := hmove h
    constructor
    · rw [put_ends_self, hwrote]
      exact hm.sending
    · intro g hg
      rw [put_ends_self, hwrote, hsteady.iss]
      rw [put_sent_self] at hg
      rcases List.mem_append.mp hg with hg | hg
      · exact (h.carries g hg).extend hfrozen hsteady.closing
      · obtain ⟨em, hem, rfl⟩ := List.mem_map.mp hg
        exact hm.carries em hem
    · rcases h.taken with h0 | ⟨r, h0⟩
      · refine .inl ⟨?_, ?_, ?_, ?_⟩
        · rw [put_ends_ne hy]
          exact h0.unsynced
        · rw [put_ends_ne hy]
          exact h0.got
        · rw [put_ends_ne hy]
          exact h0.fin
        · rw [put_sent_ne hy]
          exact h0.noAck
      · refine .inr ⟨r, ?_, ?_, ?_⟩
        · rw [put_ends_self, put_ends_ne hy, hsteady.iss, hwrote]
          have hr := h0.receiving
          refine ⟨hr.rcvNxt, by rw [List.length_append]; exact hr.le.trans (Nat.le_add_right _ _),
            ?_, hr.fin⟩
          rw [List.take_append_of_le_length hr.le]
          exact hr.stored
        · rw [put_ends_ne hy]
          exact h0.opened
        · rw [put_ends_self, put_sent_ne hy, hsteady.iss]
          exact h0.acks
  · refine .inr ⟨?_, ?_, ?_⟩
    · rw [put_ends_self, put_ends_ne hy, hwrote, hfrozen h.closing, List.append_nil]
      exact h.ended
    · rw [put_ends_self]
      exact hsteady.closing h.closing
    · rw [put_ends_ne hy]
      exact h.opened

theorem Untaken.keeps (h : Untaken c z) (hring : RingOk (c.ends z).sock)
    (hkeep : ReceiverKeeps (c.ends z).sock e.sock ret out)
    (hgot : e.got = (c.ends z).got ++ ret) : Untaken (c.put z e out) z := by
  obtain ⟨hun, hout⟩ := hkeep.unsynced h.unsynced
  have hret : ret = [] := by
    have hq := (hkeep.ring hring).2
    have hempty : queued (c.ends z).sock = [] := by
      rw [queued, h.unsynced.empty, Buf.ring_zero]
    rw [hempty] at hq
    exact (List.append_eq_nil_iff.mp hq).1
  refine ⟨?_, ?_, ?_, ?_⟩
  · rw [put_ends_self]
    exact hun
  · rw [put_ends_self, hgot, h.got, hret]
    rfl
  · rw [put_ends_self]
    exact hkeep.fin.trans h.fin
  · intro g hg
    rw [put_sent_self] at hg
    rcases List.mem_append.mp hg with hg | hg
    · exact h.noAck g hg
    · obtain ⟨em, hem, rfl⟩ := List.mem_map.mp hg
      exact hout em hem

/-- What an action of side `z` that takes nothing does to the stream it
receives. -/
theorem stream_of_receiver (h : Flowing c x z ∨ Over c x z) (hx : x ≠ z)
    (hring : RingOk (c.ends z).sock) (hkeep : ReceiverKeeps (c.ends z).sock e.sock ret out)
    (hgot : e.got = (c.ends z).got ++ ret) :
    Flowing (c.put z e out) x z ∨ Over (c.put z e out) x z := by
  have hq := (hkeep.ring hring).2
  have hstored : e.got ++ queued e.sock = (c.ends z).got ++ queued (c.ends z).sock := by
    rw [hgot, List.append_assoc, hq]
  rcases h with h | h
  · refine .inl ⟨?_, ?_, ?_⟩
    · rw [put_ends_ne hx]
      exact h.sending
    · rw [put_ends_ne hx, put_sent_ne hx]
      exact h.carries
    · rcases h.taken with h0 | ⟨r, h0⟩
      · exact .inl (h0.keeps hring hkeep hgot)
      · refine .inr ⟨r, ?_, ?_, ?_⟩
        · rw [put_ends_self, put_ends_ne hx]
          have hr := h0.receiving
          exact ⟨hkeep.rcvNxt.trans hr.rcvNxt, hr.le, hstored.trans hr.stored,
            hkeep.fin.trans hr.fin⟩
        · rw [put_ends_self]
          exact hkeep.opened h0.opened
        · intro g hg hf
          rw [put_ends_ne hx]
          rw [put_sent_self] at hg
          rcases List.mem_append.mp hg with hg | hg
          · exact h0.acks g hg hf
          · obtain ⟨em, hem, rfl⟩ := List.mem_map.mp hg
            exact ⟨r, le_refl r, (hkeep.acks em hem hf).trans h0.receiving.rcvNxt⟩
  · refine .inr ⟨?_, ?_, ?_⟩
    · rw [put_ends_self, put_ends_ne hx]
      exact ⟨hkeep.fin.trans h.ended.fin, hstored.trans h.ended.stored⟩
    · rw [put_ends_ne hx]
      exact h.closing
    · rw [put_ends_self]
      exact hkeep.opened h.opened

theorem Inv.of_stream (h : Inv c) (hstream : ∀ x y, y ≠ x →
      Flowing (c.put z e out) x y ∨ Over (c.put z e out) x y)
    (hring : RingOk e.sock) (hshort : e.wrote.length < 2 ^ 31) (herror : e.sock.error ≤ 0)
    (hlife : e.life ≠ .unborn)
    (halone : ∀ y, y ≠ z → (c.ends y).life = .unborn → Untaken (c.put z e out) z) :
    Inv (c.put z e out) := by
  have hends : ∀ {P : Endpoint → Prop}, P e → (∀ x, P (c.ends x)) →
      ∀ x, P ((c.put z e out).ends x) := by
    intro P he hc x
    by_cases hx : x = z
    · subst hx
      rwa [put_ends_self]
    · rw [put_ends_ne hx]
      exact hc x
  refine ⟨hstream, hends (P := fun e => RingOk e.sock) hring h.ring,
    hends (P := fun e => e.wrote.length < 2 ^ 31) hshort h.short,
    hends (P := fun e => e.sock.error ≤ 0) herror h.error, ?_, ?_⟩
  · intro x hx
    by_cases hxz : x = z
    · subst hxz
      rw [put_ends_self] at hx
      exact absurd hx hlife
    · rw [put_ends_ne hxz] at hx ⊢
      rw [put_sent_ne hxz]
      exact h.unborn x hx
  · intro x y hyx hy
    by_cases hyz : y = z
    · subst hyz
      rw [put_ends_self] at hy
      exact absurd hy hlife
    · rw [put_ends_ne hyz] at hy
      obtain rfl : x = z := by
        by_contra hxz
        exact hyx ((Side.eq_other_of_ne hyz).trans (Side.eq_other_of_ne hxz).symm)
      exact halone y hyz hy

/-- **One side acts without taking anything from the peer.** -/
theorem Inv.act (h : Inv c) (hsteady : Steady (c.ends z).sock e.sock)
    (hkeep : ReceiverKeeps (c.ends z).sock e.sock ret out)
    (hwrote : e.wrote = (c.ends z).wrote ++ acc) (hgot : e.got = (c.ends z).got ++ ret)
    (hmove : Sending (c.ends z).wrote (c.ends z).sock →
      SenderMove (c.ends z).wrote acc (c.ends z).sock e.sock out)
    (hfrozen : (c.ends z).sock.closeRequested = true → acc = [])
    (hshort : e.wrote.length < 2 ^ 31) (hlife : e.life ≠ .unborn) : Inv (c.put z e out) := by
  refine h.of_stream ?_ (hkeep.ring (h.ring z)).1 hshort (hsteady.error (h.error z)) hlife
    fun y hy h0 => (h.alone z y hy h0).keeps (h.ring z) hkeep hgot
  intro x y hyx
  by_cases hxz : x = z
  · subst hxz
    exact stream_of_sender (h.stream x y hyx) hyx hsteady hwrote (fun hf => hmove hf.sending)
      hfrozen
  · have hyz : y = z := by
      by_contra hyz
      exact hyx ((Side.eq_other_of_ne hyz).trans (Side.eq_other_of_ne hxz).symm)
    subst hyz
    exact stream_of_receiver (h.stream x y hyx) hxz (h.ring y) hkeep hgot

/-- An action in which no byte passes between the owner and the socket. -/
theorem Inv.actQuietly (h : Inv c) {s' : InetSocket} (hsteady : Steady (c.ends z).sock s')
    (hkeep : ReceiverKeeps (c.ends z).sock s' [] out)
    (hmove : Sending (c.ends z).wrote (c.ends z).sock →
      SenderMove (c.ends z).wrote [] (c.ends z).sock s' out)
    (hs : e.sock = s') (hwrote : e.wrote = (c.ends z).wrote) (hgot : e.got = (c.ends z).got)
    (hlife : e.life ≠ .unborn) : Inv (c.put z e out) := by
  subst hs
  exact h.act hsteady hkeep (by rw [hwrote, List.append_nil]) (by rw [hgot, List.append_nil])
    hmove (fun _ => rfl) (by rw [hwrote]; exact h.short z) hlife

/-! ## A segment arrives -/

/-- The acknowledgement number of a segment of the peer is one the stream has
reached. -/
theorem Flowing.ack_le {g : TcpSegment} (h : Flowing c x y) (hg : g ∈ c.sent y)
    (hf : hasFlag g.flags tcpAck = true) :
    ∃ k ≤ (c.ends x).wrote.length, g.ack = (c.ends x).sock.iss + 1 + .ofNat k := by
  rcases h.taken with h0 | ⟨r, h0⟩
  · rw [h0.noAck g hg] at hf
    exact absurd hf (by decide)
  · obtain ⟨k, hk, heq⟩ := h0.acks g hg hf
    exact ⟨k, hk.trans h0.receiving.le, heq⟩

theorem stream_of_arrival (h : Flowing c x z ∨ Over c x z) (hx : x ≠ z)
    (hring : RingOk (c.ends z).sock) (hshort : (c.ends x).wrote.length < 2 ^ 31) (now : Nat)
    {g : TcpSegment} (hg : g ∈ c.sent x) (hgot : e.got = (c.ends z).got)
    (hsock : e.sock = (tcpReceive now (c.ends z).sock g).sock) :
    RingOk e.sock ∧
      (Flowing (c.put z e (tcpReceive now (c.ends z).sock g).out) x z ∨
        Over (c.put z e (tcpReceive now (c.ends z).sock g).out) x z) := by
  rcases h with h | h
  · have hcar := h.carries g hg
    have hflow : ∀ {out'}, Untaken (c.put z e out') z ∨ (∃ r, Taken (c.put z e out') x z r) →
        Flowing (c.put z e out') x z := by
      intro out' htaken
      refine ⟨?_, ?_, htaken⟩
      · rw [put_ends_ne hx]
        exact h.sending
      · rw [put_ends_ne hx, put_sent_ne hx]
        exact h.carries
    rcases h.taken with h0 | ⟨r, h0⟩
    · obtain ⟨hring', hfin', hcase⟩ := h0.unsynced.receive hring h0.fin hcar.syn now
      rw [hsock]
      refine ⟨hring', .inl (hflow ?_)⟩
      rcases hcase with ⟨hun, hout⟩ | ⟨hnxt, hcount, hst, hacks⟩
      · refine .inl ⟨?_, ?_, ?_, ?_⟩
        · rw [put_ends_self, hsock]
          exact hun
        · rw [put_ends_self, hgot]
          exact h0.got
        · rw [put_ends_self, hsock]
          exact hfin'
        · rw [put_sent_self, hout, List.map_nil, List.append_nil]
          exact h0.noAck
      · refine .inr ⟨0, ?_, ?_, ?_⟩
        · rw [put_ends_self, put_ends_ne hx, hsock, hgot, h0.got]
          refine ⟨by rw [hnxt]; simp, Nat.zero_le _, ?_, hfin'⟩
          rw [queued, hcount, Buf.ring_zero]
          rfl
        · rw [put_ends_self, hsock]
          exact hst
        · intro g' hg' hf
          rw [put_sent_self] at hg'
          rcases List.mem_append.mp hg' with hg' | hg'
          · rw [h0.noAck g' hg'] at hf
            exact absurd hf (by decide)
          · obtain ⟨em, hem, rfl⟩ := List.mem_map.mp hg'
            exact ⟨0, le_refl 0, by rw [put_ends_ne hx, hacks em hem, hnxt]; simp⟩
    · have harr := Arrival.receive h0.receiving hring h0.opened hshort hcar now
      rw [hsock]
      refine ⟨harr.ring, ?_⟩
      rcases harr.stream with ⟨r', hr', hrecv⟩ | ⟨hend, hclose⟩
      · refine .inl (hflow (.inr ⟨r', ?_, ?_, ?_⟩))
        · rw [put_ends_self, put_ends_ne hx, hsock, hgot]
          exact hrecv
        · rw [put_ends_self, hsock]
          exact harr.opened
        · intro g' hg' hf
          rw [put_ends_ne hx]
          rw [put_sent_self] at hg'
          rcases List.mem_append.mp hg' with hg' | hg'
          · obtain ⟨k, hk, heq⟩ := h0.acks g' hg' hf
            exact ⟨k, hk.trans hr', heq⟩
          · obtain ⟨em, hem, rfl⟩ := List.mem_map.mp hg'
            exact ⟨r', le_refl r', (harr.acks em hem hf).trans hrecv.rcvNxt⟩
      · refine .inr ⟨?_, ?_, ?_⟩
        · rw [put_ends_self, put_ends_ne hx, hsock, hgot]
          exact hend
        · rw [put_ends_ne hx]
          exact hclose
        · rw [put_ends_self, hsock]
          exact harr.opened
  · obtain ⟨hview, hst⟩ := h.ended.receive h.opened now g
    rw [hsock]
    refine ⟨hring.of_view hview, .inr ⟨?_, ?_, ?_⟩⟩
    · rw [put_ends_self, put_ends_ne hx, hsock, hgot]
      have hfin : (tcpReceive now (c.ends z).sock g).sock.finReceived = true :=
        (congrArg (fun v => v.2.1) hview).trans h.ended.fin
      exact ⟨hfin, by rw [queued_of_view hview]; exact h.ended.stored⟩
    · rw [put_ends_ne hx]
      exact h.closing
    · rw [put_ends_self, hsock]
      exact hst

theorem Inv.deliver (h : Inv c) (now : Nat) {g : TcpSegment} (hg : g ∈ c.sent z.other) :
    Inv (c.react z (tcpReceive now (c.ends z).sock g)) := by
  have hne := Side.other_ne z
  obtain ⟨hring, hin⟩ := stream_of_arrival (e := { c.ends z with
      sock := (tcpReceive now (c.ends z).sock g).sock
      life := lifeAfter (tcpReceive now (c.ends z).sock g).free })
    (h.stream z.other z hne.symm) hne (h.ring z) (h.short z.other) now hg rfl rfl
  refine h.of_stream ?_ hring (h.short z) ((Steady.receive now _ g).error (h.error z)) ?_ ?_
  · intro x y hyx
    by_cases hxz : x = z
    · subst hxz
      obtain rfl : y = x.other := Side.eq_other_of_ne hyx
      refine stream_of_sender (h.stream x x.other hyx) hyx (.receive now _ g)
        (List.append_nil _).symm (fun hf => ?_) fun _ => rfl
      exact (SenderStep.receive hf.sending (h.short x) now fun h0 => hf.ack_le hg h0).move
    · obtain rfl : x = z.other := Side.eq_other_of_ne hxz
      obtain rfl : y = z := by
        by_contra hyz
        exact hyx (Side.eq_other_of_ne hyz)
      exact hin
  · simp only [lifeAfter]
    split <;> decide
  · -- the peer has sent a segment, so it is not unborn
    intro y hy h0
    obtain rfl : y = z.other := Side.eq_other_of_ne hy
    rw [(h.unborn z.other h0).2] at hg
    exact absurd hg (by simp)

/-! ## An endpoint comes into being -/

theorem Inv.birth (h : Inv c) (hz : (c.ends z).life = .unborn) (hwrote : e.wrote = [])
    (hsend : Sending [] e.sock)
    (hcar : ∀ em ∈ out, Carries [] e.sock.iss e.sock.closeRequested em.seg)
    (hring : RingOk e.sock) (herror : e.sock.error ≤ 0) (hlife : e.life ≠ .unborn)
    (htaken : Untaken (c.put z e out) z ∨
      (c.ends z.other).life ≠ .unborn ∧ ∃ r, Taken (c.put z e out) z.other z r) :
    Inv (c.put z e out) := by
  have hne := Side.other_ne z
  obtain ⟨hempty, hsent⟩ := h.unborn z hz
  refine h.of_stream ?_ hring (by rw [hwrote]; decide) herror hlife ?_
  · intro x y hyx
    by_cases hxz : x = z
    · subst hxz
      obtain rfl : y = x.other := Side.eq_other_of_ne hyx
      have halone := h.alone x.other x hne.symm hz
      refine .inl ⟨?_, ?_, .inl ⟨?_, ?_, ?_, ?_⟩⟩
      · rw [put_ends_self, hwrote]
        exact hsend
      · intro g hg
        rw [put_sent_self, hsent, List.nil_append] at hg
        obtain ⟨em, hem, rfl⟩ := List.mem_map.mp hg
        rw [put_ends_self, hwrote]
        exact hcar em hem
      · rw [put_ends_ne hyx]
        exact halone.unsynced
      · rw [put_ends_ne hyx]
        exact halone.got
      · rw [put_ends_ne hyx]
        exact halone.fin
      · rw [put_sent_ne hyx]
        exact halone.noAck
    · obtain rfl : x = z.other := Side.eq_other_of_ne hxz
      obtain rfl : y = z := by
        by_contra hyz
        exact hyx (Side.eq_other_of_ne hyz)
      rcases h.stream y.other y hne.symm with hf | ho
      · refine .inl ⟨?_, ?_, htaken.imp_right And.right⟩
        · rw [put_ends_ne hne]
          exact hf.sending
        · rw [put_ends_ne hne, put_sent_ne hne]
          exact hf.carries
      · have hfin := ho.ended.fin
        rw [hempty] at hfin
        exact absurd hfin (by decide)
  · intro y hy h0
    obtain rfl : y = z.other := Side.eq_other_of_ne hy
    exact htaken.resolve_right fun h1 => h1.1 h0

theorem Inv.connect (h : Inv c) (hz : (c.ends .a).life = .unborn) (now : Nat) (nonblock : Bool)
    (rx tx : Nat → UInt8) (ip : Ipv4Addr) (port localPort : UInt16) (random : UInt32) :
    Inv (c.put .a
      { sock := (tcpConnect now (freshSocket nonblock rx tx) ip port localPort random).1
        life := .live }
      (tcpConnect now (freshSocket nonblock rx tx) ip port localPort random).2) := by
  obtain ⟨-, hsent⟩ := h.unborn .a hz
  refine h.birth hz rfl ?_ ?_ (.empty rfl rfl) (le_refl _) (by simp) (.inl ?_)
  · exact ⟨fun _ => ⟨rfl, rfl, rfl, rfl, rfl⟩, fun h0 => absurd h0 (by
      show TcpState.synSent.synchronized ≠ true
      decide)⟩
  · intro em hem
    obtain rfl : em = _ := by simpa [tcpConnect] using hem
    exact ⟨fun _ => rfl, fun h0 => absurd rfl h0,
      fun h0 => absurd h0 (by show hasFlag tcpSyn tcpFin ≠ true; decide)⟩
  · refine ⟨?_, ?_, ?_, ?_⟩
    · exact ⟨.inl rfl, rfl⟩
    · rw [put_ends_self]
    · rfl
    · intro g hg
      rw [put_sent_self, hsent, List.nil_append] at hg
      obtain ⟨em, hem, rfl⟩ := List.mem_map.mp hg
      obtain rfl : em = _ := by simpa [tcpConnect] using hem
      show hasFlag tcpSyn tcpAck = false
      decide

theorem opensConnection_syn {seg : TcpSegment} (h : opensConnection seg = true) :
    hasFlag seg.flags tcpSyn = true := by
  simp only [opensConnection, decide_eq_true_eq] at h
  have h1 : seg.flags &&& (tcpSyn ||| tcpAck ||| tcpRst) &&& tcpSyn = tcpSyn := by
    rw [h]
    decide
  rw [UInt8.and_assoc, show (tcpSyn ||| tcpAck ||| tcpRst) &&& tcpSyn = tcpSyn by decide] at h1
  rw [hasFlag, h1]
  decide

theorem Inv.passiveOpen (h : Inv c) (hz : (c.ends .b).life = .unborn) {seg : TcpSegment}
    (hseg : seg ∈ c.sent .a) (hopens : opensConnection seg = true) (now : Nat)
    (rx tx : Nat → UInt8) (listener : SockId) (localPort : UInt16) (srcIp : Ipv4Addr)
    (random : UInt32) :
    Inv (c.put .b
      { sock := (tcpPassiveChild now (freshSocket false rx tx) listener localPort srcIp seg
          random).1
        life := .live }
      (tcpPassiveChild now (freshSocket false rx tx) listener localPort srcIp seg random).2) := by
  obtain ⟨hempty, hsent⟩ := h.unborn .b hz
  have hseq : seg.seq = (c.ends .a).sock.iss := by
    rcases h.stream .a .b (by decide) with hf | ho
    · exact (hf.carries seg hseg).syn (opensConnection_syn hopens)
    · have hfin := ho.ended.fin
      rw [hempty] at hfin
      exact absurd hfin (by decide)
  have hborn : (c.ends .a).life ≠ .unborn := by
    intro h0
    rw [(h.unborn .a h0).2] at hseg
    exact absurd hseg (by simp)
  refine h.birth hz rfl ?_ ?_ (.empty rfl rfl) (le_refl _) (by simp) (.inr ⟨hborn, 0, ?_⟩)
  · exact ⟨fun _ => ⟨rfl, rfl, rfl, rfl, rfl⟩, fun h0 => absurd h0 (by
      show TcpState.synRcvd.synchronized ≠ true
      decide)⟩
  · intro em hem
    obtain rfl : em = _ := by simpa [tcpPassiveChild] using hem
    exact ⟨fun _ => rfl, fun h0 => absurd rfl h0,
      fun h0 => absurd h0 (by show hasFlag (tcpSyn ||| tcpAck) tcpFin ≠ true; decide)⟩
  · have hnxt : seg.seq + 1 = (c.ends .a).sock.iss + 1 + .ofNat 0 := by
      rw [hseq]
      simp
    refine ⟨?_, ?_, ?_⟩
    · exact ⟨hnxt, Nat.zero_le _, rfl, rfl⟩
    · exact fun h0 => absurd (show TcpState.synRcvd = .synSent from h0) (by decide)
    · intro g hg _
      rw [put_sent_self, hsent, List.nil_append] at hg
      obtain ⟨em, hem, rfl⟩ := List.mem_map.mp hg
      obtain rfl : em = _ := by simpa [tcpPassiveChild] using hem
      refine ⟨0, le_refl 0, ?_⟩
      exact hnxt

theorem Inv.relabel (h : Inv c) (hlive : (c.ends z).life = .live) (s' : InetSocket)
    (hsend : sendView s' = sendView (c.ends z).sock)
    (hrecv : recvView s' = recvView (c.ends z).sock) (hstate : s'.state = (c.ends z).sock.state)
    (htimer : s'.rtoDeadline = (c.ends z).sock.rtoDeadline)
    (herror : s'.error = (c.ends z).sock.error) :
    Inv (c.put z { c.ends z with sock := s' } []) := by
  have hcount : s'.rxCount = (c.ends z).sock.rxCount := congrArg (fun v => v.2.2.2.2) hrecv
  refine h.actQuietly ⟨congrArg Prod.fst hsend, ?_, fun h0 => herror ▸ h0⟩
    (.of_view hrecv (by simp) ?_ fun h0 => hstate ▸ h0)
    (fun hs => (SenderStep.of_view hs hsend (.inl hstate) (by simp)).move) rfl rfl rfl
    (by simp [hlive])
  · exact fun h0 => (congrArg (fun v => v.2.2.2.2.2.2.2) hsend).trans h0
  · intro h0
    exact ⟨⟨by rw [hstate, htimer]; exact h0.state, hcount.trans h0.empty⟩, by simp⟩

/-! ## The steps of the connection -/

/-- Fewer than `2 ^ 31` bytes are accepted on each side. -/
def FewBytes (c : Conn) (act : Act) : Prop :=
  ∀ x, ((connStep c act).ends x).wrote.length < 2 ^ 31

/-- No write is let in after the close, and the bytes are few. -/
def NoLateWrite (c : Conn) (act : Act) : Prop :=
  (match act with
    | .write x _ _ | .resume x _ _ => ¬ LateWrite (c.ends x).sock
    | _ => True) ∧ FewBytes c act

theorem Inv.write (h : Inv c) (hlive : (c.ends z).life = .live)
    (hlate : ¬ LateWrite (c.ends z).sock) (now : Nat) (rest : List UInt8) (written : Nat)
    (others : List (List UInt8 × Nat))
    (hshort : ((c.write z now rest written others).ends z).wrote.length < 2 ^ 31) :
    Inv (c.write z now rest written others) := by
  simp only [Conn.write, put_ends_self] at hshort
  have herror := h.error z
  refine h.act (.writeLoop now _ _ rest written) (.writeLoop now _ _ rest written) rfl
    (List.append_nil _).symm (fun hs => ?_) ?_ hshort (by simp [hlive])
  · exact SenderMove.writeLoop now _ hs hlate herror rest written hshort
  · intro hclose
    refine acceptedBytes_shut now _ ⟨fun h0 => hlate ⟨hclose, .inl h0⟩,
      fun h0 => hlate ⟨hclose, .inr h0⟩⟩ herror rest written

theorem Inv.step (h : Inv c) (act : Act) (hg : NoLateWrite c act) : Inv (connStep c act) := by
  obtain ⟨hlate, hshort⟩ := hg
  cases act with
  | connect now nonblock rx tx ip port localPort random =>
      rw [connStep]
      split
      · rename_i hz
        exact h.connect hz now nonblock rx tx ip port localPort random
      · exact h
  | connectWait elapsed =>
      rw [connStep]
      split
      · rename_i hz
        exact h.actQuietly (.connectWait _ elapsed) (.connectWait _ elapsed)
          (fun hs => (SenderStep.connectWait hs elapsed).move) rfl rfl rfl (by simp [hz])
      · exact h
  | passiveOpen now rx tx listener localPort srcIp seg random =>
      rw [connStep]
      split
      · rename_i hz
        exact h.passiveOpen hz.1 hz.2.1 hz.2.2 now rx tx listener localPort srcIp random
      · exact h
  | accept nonblock =>
      rw [connStep]
      split
      · rename_i hz
        exact h.relabel hz { (c.ends .b).sock with
          parent := none, orphan := false, nonblock := nonblock } rfl rfl rfl rfl rfl
      · exact h
  | refuse =>
      rw [connStep]
      split
      · refine h.actQuietly (.refl _) ((ReceiverKeeps.refl _).emitRst _ _) (fun hs => ?_) rfl rfl
          rfl (by simp)
        refine (SenderStep.of_view hs rfl (.inl rfl) ?_).move
        intro em hem
        obtain rfl : em = _ := by simpa using hem
        exact .bareRst _ _
      · exact h
  | write x now data =>
      have hs := hshort x
      rw [connStep] at hs ⊢
      split
      · rename_i hz
        rw [if_pos hz] at hs
        exact h.write hz.1 hlate now data 0 _ hs
      · exact h
  | resume x now k =>
      have hs := hshort x
      rw [connStep] at hs ⊢
      split
      · rename_i hz
        rw [if_pos hz] at hs
        cases hw : (c.ends x).writers[k]? with
        | none => exact h
        | some w =>
            rw [hw] at hs
            exact h.write hz hlate now w.1 w.2 _ hs
      · exact h
  | read x count =>
      rw [connStep]
      split
      · rename_i hz
        exact h.act (.read _ count) (.read _ count) (List.append_nil _).symm rfl
          (fun hs => (SenderStep.read hs count).move) (fun _ => rfl) (h.short x) (by simp [hz])
      · exact h
  | ioctl x nonblock =>
      rw [connStep]
      split
      · rename_i hz
        exact h.relabel hz { (c.ends x).sock with nonblock := nonblock } rfl rfl rfl rfl rfl
      · exact h
  | close x now =>
      rw [connStep]
      split
      · refine h.actQuietly (.close now _) (.close now _)
          (fun hs => SenderMove.close hs (h.short x) now) rfl rfl rfl ?_
        simp only [lifeAfter]
        split <;> decide
      · exact h
  | tick x now =>
      rw [connStep]
      split
      · refine h.actQuietly (.tick now _) (.tick now _)
          (fun hs => (SenderStep.tick hs (h.short x) now).move) rfl rfl rfl ?_
        simp only [lifeAfter]
        split <;> decide
      · exact h
  | deliver x now seg =>
      rw [connStep]
      split
      · rename_i hz
        exact h.deliver now hz.2
      · exact h

theorem inv_start : Inv {} := by
  have hun : ∀ y, Untaken {} y :=
    fun y => ⟨⟨.inr ⟨rfl, rfl⟩, rfl⟩, rfl, rfl, by simp⟩
  exact ⟨fun x y _ => .inl ⟨.of_closed rfl, by simp, .inl (hun y)⟩, fun _ => .empty rfl rfl,
    fun _ => by simp, fun _ => le_refl _, fun _ _ => ⟨rfl, rfl⟩, fun x _ _ _ => hun x⟩

theorem inv_of_reachable (h : connMachine.Reachable NoLateWrite c) : Inv c := by
  refine h.invariant (P := Inv) ?_ fun c act hc hg => hc.step act hg
  rintro c rfl
  exact inv_start

/-- `inet_read` reports the end of the stream: it returns zero with
`fin_received` set. -/
def ReportsEnd (e : Endpoint) : Prop :=
  e.sock.finReceived = true ∧ ∃ count, (tcpRead e.sock count).2.2 = .code 0

theorem ReportsEnd.empty (h : ReportsEnd e) : queued e.sock = [] := by
  obtain ⟨-, count, hread⟩ := h
  have hcount : e.sock.rxCount = 0 := by
    by_contra h0
    unfold tcpRead at hread
    split at hread
    · exact absurd hread (by simp [EINVAL])
    · rw [if_pos (by omega)] at hread
      exact absurd hread (by simp)
  rw [queued, hcount, Buf.ring_zero]

/-- **Stream safety.**  Along every run without a late write, what one side has
read is a prefix of what the other side has accepted, and it is all of it when
the end of the stream is reported. -/
theorem stream_safe (h : connMachine.Reachable NoLateWrite c) (x y : Side) (hxy : y ≠ x) :
    (c.ends y).got <+: (c.ends x).wrote ∧
      (ReportsEnd (c.ends y) → (c.ends y).got = (c.ends x).wrote) := by
  rcases (inv_of_reachable h).stream x y hxy with hf | ho
  · rcases hf.taken with h0 | ⟨r, h0⟩
    · refine ⟨by rw [h0.got]; exact List.nil_prefix, fun hr => ?_⟩
      exact absurd (h0.fin.symm.trans hr.1) (by decide)
    · refine ⟨?_, fun hr => absurd (h0.receiving.fin.symm.trans hr.1) (by decide)⟩
      exact (List.prefix_append _ _).trans (h0.receiving.stored ▸ List.take_prefix r _)
  · refine ⟨⟨_, ho.ended.stored⟩, fun hr => ?_⟩
    have hstored := ho.ended.stored
    rwa [hr.empty, List.append_nil] at hstored

/-! ## A run -/

/-- Open the connection, write one byte, deliver it and read it. -/
def helloActs : List Act :=
  [.connect 0 false (fun _ => 0) (fun _ => 0) 1 80 4000 1000,
    .passiveOpen 0 (fun _ => 0) (fun _ => 0) 0 80 2 ⟨4000, 80, 1000, 0, tcpSyn, 65535, []⟩ 5000,
    .deliver .a 0 ⟨80, 4000, 5000, 1001, tcpSyn ||| tcpAck, 65535, []⟩, .write .a 0 [7],
    .deliver .b 0 ⟨4000, 80, 1001, 5001, tcpAck ||| tcpPsh, 65535, [7]⟩, .read .b 4]

theorem hello_reachable : connMachine.Reachable NoLateWrite (connMachine.run {} helloActs) := by
  refine .step _ (.step _ (.step _ (.step _ (.step _ (.step _ (.start rfl) ?_) ?_) ?_) ?_) ?_)
    ?_ <;> refine ⟨by decide +kernel, fun x => ?_⟩ <;> cases x <;> decide +kernel

theorem hello_safe :
    ((connMachine.run {} helloActs).ends .b).got = [7] ∧
      ((connMachine.run {} helloActs).ends .b).got <+:
        ((connMachine.run {} helloActs).ends .a).wrote :=
  ⟨by decide +kernel, (stream_safe hello_reachable .a .b (by decide)).1⟩

end Stream
