import StrawOS.Inet.ControlBlock

/-!
# Two endpoints and a network

One TCP connection between two sockets of this implementation: side `a` opens it
actively, side `b` is the child of a listener.  The network remembers every
segment a side has ever sent and may deliver any of them to the other side, at
any time and any number of times, or never; so it drops, duplicates, delays and
reorders, but neither forges nor corrupts.

Every other action is a call of the socket interface, its resumption after a
sleep, or the timer.  An endpoint carries two records that the code does not
keep: the bytes that `inet_write` has accepted there and those that `inet_read`
has returned.
-/

namespace Stream

open Inet

inductive Side
  | a | b
deriving DecidableEq, Repr

def Side.other : Side → Side
  | .a => .b
  | .b => .a

/-- The slot of an endpoint is not given out yet, in use, or freed. -/
inductive Life
  | unborn | live | gone
deriving DecidableEq, Repr

structure Endpoint where
  sock : InetSocket := {}
  life : Life := .unborn
  /-- `inet_close` has been called. -/
  closed : Bool := false
  /-- Calls asleep in `inet_write`: what they still have to write, and how much
  they have written. -/
  writers : List (List UInt8 × Nat) := []
  wrote : List UInt8 := []
  got : List UInt8 := []

structure Conn where
  ends : Side → Endpoint := fun _ => {}
  sent : Side → List TcpSegment := fun _ => []

inductive Act
  | connect (now : Nat) (nonblock : Bool) (rx tx : Nat → UInt8) (ip : Ipv4Addr)
      (port localPort : UInt16) (random : UInt32)
  | connectWait (elapsed : Nat)
  | passiveOpen (now : Nat) (rx tx : Nat → UInt8) (listener : SockId) (localPort : UInt16)
      (srcIp : Ipv4Addr) (seg : TcpSegment) (random : UInt32)
  | accept (nonblock : Bool)
  | refuse
  | write (x : Side) (now : Nat) (data : List UInt8)
  | resume (x : Side) (now : Nat) (k : Nat)
  | read (x : Side) (count : Nat)
  | ioctl (x : Side) (nonblock : Bool)
  | close (x : Side) (now : Nat)
  | tick (x : Side) (now : Nat)
  | deliver (x : Side) (now : Nat) (seg : TcpSegment)

/-- A slot as `inet_alloc` gives it out for TCP. -/
def freshSocket (nonblock : Bool) (rx tx : Nat → UInt8) : InetSocket :=
  { used := true, kind := .tcp, nonblock := nonblock, rx := rx, tx := tx }

/-- Put an endpoint back and send what it has sent. -/
def Conn.put (c : Conn) (x : Side) (e : Endpoint) (out : List Emission) : Conn where
  ends := Function.update c.ends x e
  sent := Function.update c.sent x (c.sent x ++ out.map Emission.seg)

/-- The life of an endpoint after a reaction. -/
def lifeAfter (free : Bool) : Life := if free then .gone else .live

/-- The outcome of an event on one socket, as `applyReaction` stores it. -/
def Conn.react (c : Conn) (x : Side) (r : Reaction) : Conn :=
  c.put x { c.ends x with sock := r.sock, life := lifeAfter r.free } r.out

/-- The bytes that a segment of `inet_write` has accepted, by its return code or
by what is left to write. -/
def acceptedBytes (rest : List UInt8) (written : Nat) : WriteResult → List UInt8
  | .code rc => rest.take (rc.toNat - written)
  | .blocked rest' _ => rest.take (rest.length - rest'.length)

/-- The writer that a segment of `inet_write` leaves asleep. -/
def sleeping : WriteResult → List (List UInt8 × Nat)
  | .code _ => []
  | .blocked rest written => [(rest, written)]

/-- Run `inet_write` on an endpoint; `others` are the writers that stay asleep. -/
def Conn.write (c : Conn) (x : Side) (now : Nat) (rest : List UInt8) (written : Nat)
    (others : List (List UInt8 × Nat)) : Conn :=
  let e := c.ends x
  let r := tcpWrite now e.sock rest written
  c.put x { e with
    sock := r.1
    wrote := e.wrote ++ acceptedBytes rest written r.2.2
    writers := others ++ sleeping r.2.2 } r.2.1

/-- The bytes of a read. -/
def returnedBytes : ReadResult → List UInt8
  | .bytes data => data
  | _ => []

def Conn.read (c : Conn) (x : Side) (count : Nat) : Conn :=
  let e := c.ends x
  let r := tcpRead e.sock count
  c.put x { e with sock := r.1, got := e.got ++ returnedBytes r.2.2 } r.2.1

/-- A segment that opens a connection and nothing else. -/
def opensConnection (seg : TcpSegment) : Bool :=
  decide (seg.flags &&& (tcpSyn ||| tcpAck ||| tcpRst) = tcpSyn)

/-- One action; an action that cannot happen changes nothing. -/
def connStep (c : Conn) : Act → Conn
  | .connect now nonblock rx tx ip port localPort random =>
      if (c.ends .a).life = .unborn then
        let r := tcpConnect now (freshSocket nonblock rx tx) ip port localPort random
        c.put .a { sock := r.1, life := .live } r.2
      else c
  | .connectWait elapsed =>
      if (c.ends .a).life = .live then
        let r := tcpConnectWait (c.ends .a).sock elapsed
        c.put .a { c.ends .a with sock := r.1 } r.2
      else c
  | .passiveOpen now rx tx listener localPort srcIp seg random =>
      if (c.ends .b).life = .unborn ∧ seg ∈ c.sent .a ∧ opensConnection seg then
        let r := tcpPassiveChild now (freshSocket false rx tx) listener localPort srcIp seg random
        c.put .b { sock := r.1, life := .live } r.2
      else c
  | .accept nonblock =>
      if (c.ends .b).life = .live then
        let s := { (c.ends .b).sock with parent := none, orphan := false, nonblock := nonblock }
        c.put .b { c.ends .b with sock := s } []
      else c
  | .refuse =>
      if (c.ends .b).life = .live then
        let s := (c.ends .b).sock
        c.put .b { c.ends .b with life := .gone } [tcpSendSegment s s.sndNxt tcpRst []]
      else c
  | .write x now data =>
      if (c.ends x).life = .live ∧ (c.ends x).closed = false then
        c.write x now data 0 (c.ends x).writers
      else c
  | .resume x now k =>
      if (c.ends x).life = .live then
        match (c.ends x).writers[k]? with
        | some w => c.write x now w.1 w.2 ((c.ends x).writers.eraseIdx k)
        | none => c
      else c
  | .read x count => if (c.ends x).life = .live then c.read x count else c
  | .ioctl x nonblock =>
      if (c.ends x).life = .live then
        c.put x { c.ends x with sock := { (c.ends x).sock with nonblock := nonblock } } []
      else c
  | .close x now =>
      if (c.ends x).life = .live ∧ (c.ends x).closed = false then
        let r := tcpClose now (c.ends x).sock
        c.put x { c.ends x with sock := r.sock, life := lifeAfter r.free, closed := true } r.out
      else c
  | .tick x now =>
      if (c.ends x).life = .live then c.react x (tcpTick now (c.ends x).sock) else c
  | .deliver x now seg =>
      if (c.ends x).life = .live ∧ seg ∈ c.sent x.other then
        c.react x (tcpReceive now (c.ends x).sock seg)
      else c

/-- The connection from before the active open on. -/
def connMachine : Machine Conn Act Unit where
  start c := c = {}
  step c act := (connStep c act, [])

/-! ## Link to the socket table -/

end Stream

/-!
# The receiving side of a stream

`rcv_nxt` is the sequence number of the position up to which the stream has been
taken; what has been taken and not yet been read is in the receive ring.  Only a
segment that starts exactly there is taken, so the ring and the bytes read stay
a prefix of the stream (`Receiving`).
-/

namespace Stream

open Inet

variable {s s' : InetSocket} {out : List Emission}

/-- The bytes in the receive ring, oldest first. -/
def queued (s : InetSocket) : List UInt8 := Buf.ring tcpRxSize s.rx s.rxHead s.rxCount

structure RingOk (s : InetSocket) : Prop where
  head : s.rxHead < tcpRxSize
  count : s.rxCount ≤ tcpRxSize

theorem RingOk.empty (hhead : s.rxHead = 0) (hcount : s.rxCount = 0) : RingOk s :=
  ⟨by rw [hhead]; decide, by rw [hcount]; exact Nat.zero_le _⟩

/-- The peer's initial sequence number is not known, and nothing will be sent
that could acknowledge it. -/
structure Unsynced (s : InetSocket) : Prop where
  state : s.state = .synSent ∨ s.state = .closed ∧ s.rtoDeadline = 0
  empty : s.rxCount = 0

/-- A step that takes nothing from the peer and returns `ret` to the owner. -/
structure ReceiverKeeps (s s' : InetSocket) (ret : List UInt8) (out : List Emission) : Prop where
  rcvNxt : s'.rcvNxt = s.rcvNxt
  fin : s'.finReceived = s.finReceived
  ring : RingOk s → RingOk s' ∧ ret ++ queued s' = queued s
  acks : ∀ e ∈ out, hasFlag e.seg.flags tcpAck = true → e.seg.ack = s.rcvNxt
  unsynced : Unsynced s → Unsynced s' ∧ ∀ e ∈ out, hasFlag e.seg.flags tcpAck = false
  opened : s.state ≠ .synSent → s'.state ≠ .synSent

/-- The fields that the receiving side is about. -/
def recvView (s : InetSocket) : UInt32 × Bool × (Nat → UInt8) × Nat × Nat :=
  (s.rcvNxt, s.finReceived, s.rx, s.rxHead, s.rxCount)

theorem queued_of_view (h : recvView s' = recvView s) : queued s' = queued s := by
  simp only [recvView, Prod.mk.injEq] at h
  obtain ⟨-, -, h3, h4, h5⟩ := h
  rw [queued, h3, h4, h5, queued]

theorem RingOk.of_view (h : RingOk s) (hview : recvView s' = recvView s) : RingOk s' := by
  simp only [recvView, Prod.mk.injEq] at hview
  obtain ⟨-, -, -, h4, h5⟩ := hview
  exact ⟨h4 ▸ h.head, h5 ▸ h.count⟩

theorem ReceiverKeeps.of_view (hview : recvView s' = recvView s)
    (hacks : ∀ e ∈ out, hasFlag e.seg.flags tcpAck = true → e.seg.ack = s.rcvNxt)
    (hun : Unsynced s → Unsynced s' ∧ ∀ e ∈ out, hasFlag e.seg.flags tcpAck = false)
    (hopened : s.state ≠ .synSent → s'.state ≠ .synSent) : ReceiverKeeps s s' [] out := by
  have hv := hview
  simp only [recvView, Prod.mk.injEq] at hview
  exact ⟨hview.1, hview.2.1, fun hr => ⟨hr.of_view hv, queued_of_view hv⟩, hacks, hun, hopened⟩

theorem ReceiverKeeps.refl (s : InetSocket) : ReceiverKeeps s s [] [] :=
  .of_view rfl (by simp) (fun h => ⟨h, by simp⟩) id

theorem ReceiverKeeps.trans {s'' : InetSocket} {ret : List UInt8} {out' : List Emission}
    (h : ReceiverKeeps s s' [] out) (h' : ReceiverKeeps s' s'' ret out') :
    ReceiverKeeps s s'' ret (out ++ out') := by
  refine ⟨h'.rcvNxt.trans h.rcvNxt, h'.fin.trans h.fin, ?_, ?_, ?_,
    fun h0 => h'.opened (h.opened h0)⟩
  · intro hr
    obtain ⟨hr1, hq1⟩ := h.ring hr
    obtain ⟨hr2, hq2⟩ := h'.ring hr1
    exact ⟨hr2, hq2.trans hq1⟩
  · intro e he hf
    rcases List.mem_append.mp he with he | he
    · exact h.acks e he hf
    · rw [← h.rcvNxt]
      exact h'.acks e he hf
  · intro hu
    obtain ⟨hu1, ho1⟩ := h.unsynced hu
    obtain ⟨hu2, ho2⟩ := h'.unsynced hu1
    refine ⟨hu2, fun e he => ?_⟩
    rcases List.mem_append.mp he with he | he
    · exact ho1 e he
    · exact ho2 e he

theorem sendSegment_ack (t : InetSocket) (seq : UInt32) (flags : UInt8) (data : List UInt8)
    (h : hasFlag flags tcpAck = true) : (tcpSendSegment t seq flags data).seg.ack = t.rcvNxt := by
  simp [tcpSendSegment, h]

theorem Unsynced.not_sends (h : Unsynced s) : s.state.sends = false := by
  rcases h.state with h | ⟨h, -⟩ <;> rw [h] <;> rfl

theorem tcpOutput_opened (now : Nat) (s : InetSocket) (h : s.state ≠ .synSent) :
    (tcpOutput now s).1.state ≠ .synSent := by
  refine tcpOutput_induct (P := fun s' _ => s'.state ≠ .synSent) now s h
    (fun _ _ h _ _ => h) ?_ fun _ _ h => h
  intro s' _ _ _ _
  simp only [tcpSendFin]
  split <;> simp

theorem tcpOutput_recvView (now : Nat) (s : InetSocket) :
    recvView (tcpOutput now s).1 = recvView s :=
  tcpOutput_induct (P := fun s' _ => recvView s' = recvView s) now s rfl
    (fun _ _ h _ _ => h) (fun _ _ h _ _ => h) (fun _ _ h => h)

theorem tcpOutput_acks (now : Nat) (s : InetSocket) :
    ∀ e ∈ (tcpOutput now s).2, e.seg.ack = s.rcvNxt := by
  suffices hP : (tcpOutput now s).1.rcvNxt = s.rcvNxt ∧
      ∀ e ∈ (tcpOutput now s).2, e.seg.ack = s.rcvNxt from hP.2
  refine tcpOutput_induct (P := fun s' out => s'.rcvNxt = s.rcvNxt ∧
    ∀ e ∈ out, e.seg.ack = s.rcvNxt) now s ⟨rfl, by simp⟩ ?_ ?_ ?_
  · rintro s1 out1 ⟨hv, hacks⟩ - -
    refine ⟨hv, fun e he => ?_⟩
    rcases List.mem_append.mp he with he | he
    · exact hacks e he
    · obtain rfl : e = tcpNextData s1 := by simpa using he
      rw [tcpNextData, sendSegment_ack _ _ _ _ (by decide), hv]
  · rintro s1 out1 ⟨hv, hacks⟩ - -
    refine ⟨hv, fun e he => ?_⟩
    rcases List.mem_append.mp he with he | he
    · exact hacks e he
    · obtain rfl : e = _ := by simpa [tcpSendFin] using he
      exact hv
  · exact fun _ _ h => h

theorem ReceiverKeeps.output (now : Nat) (s : InetSocket) :
    ReceiverKeeps s (tcpOutput now s).1 [] (tcpOutput now s).2 := by
  refine .of_view (tcpOutput_recvView now s) (fun e he _ => tcpOutput_acks now s e he) ?_
    (tcpOutput_opened now s)
  intro hu
  rw [tcpOutput, if_neg (by rw [hu.not_sends]; decide)]
  exact ⟨hu, by simp⟩

/-! ## The timer and the calls of the owner -/

/-- One more segment from a control block that is otherwise done changing. -/
theorem ReceiverKeeps.emit (h : ReceiverKeeps s s' [] []) {e : Emission}
    (hack : hasFlag e.seg.flags tcpAck = true → e.seg.ack = s.rcvNxt)
    (hun : Unsynced s → hasFlag e.seg.flags tcpAck = false) : ReceiverKeeps s s' [] [e] := by
  refine ⟨h.rcvNxt, h.fin, h.ring, ?_, ?_, h.opened⟩
  · intro e' he
    obtain rfl : e' = e := by simpa using he
    exact hack
  · intro hu
    refine ⟨(h.unsynced hu).1, fun e' he => ?_⟩
    obtain rfl : e' = e := by simpa using he
    exact hun hu

theorem ReceiverKeeps.tick (now : Nat) (s : InetSocket) :
    ReceiverKeeps s (tcpTick now s).sock [] (tcpTick now s).out := by
  unfold tcpTick
  split
  · exact .refl s
  split
  · exact .refl s
  rename_i htimer
  push Not at htimer
  have hsyn : Unsynced s → s.state = .synSent := by
    intro hu
    rcases hu.state with h0 | ⟨-, h0⟩
    · exact h0
    · exact absurd h0 htimer.1
  split
  · exact .of_view rfl (by simp [tcpReset]) (fun h0 =>
      ⟨⟨.inr ⟨rfl, rfl⟩, h0.empty⟩, by simp [tcpReset]⟩) (by simp [tcpReset])
  have hback : ReceiverKeeps s (tcpBackOff now s) [] [] :=
    .of_view rfl (by simp) (fun h0 => ⟨⟨.inl (hsyn h0), h0.empty⟩, by simp⟩) id
  cases hst : s.state with
  | synSent =>
      have hflag : hasFlag tcpSyn tcpAck = false := by decide
      exact hback.emit (fun h0 => absurd (hflag.symm.trans h0) (by decide)) fun _ => hflag
  | synRcvd =>
      refine hback.emit (fun _ => sendSegment_ack _ _ _ _ (by decide)) fun h0 => ?_
      rw [hsyn h0] at hst
      exact absurd hst (by decide)
  | closed | listen | established | finWait | closeWait | done =>
      have hun : ¬ Unsynced s := fun h0 => by
        rw [hsyn h0] at hst
        exact absurd hst (by decide)
      have hroll : ReceiverKeeps s (tcpRollback (tcpBackOff now s)) [] (if
          (tcpRollback (tcpBackOff now s)).txCount = 0 ∧
            (tcpRollback (tcpBackOff now s)).closeRequested = false then
          [tcpSendAck (tcpRollback (tcpBackOff now s))] else []) := by
        refine .of_view rfl ?_ (fun h0 => absurd h0 hun) fun _ => ?_
        · intro e he _
          split at he
          · obtain rfl : e = _ := by simpa using he
            exact sendSegment_ack _ _ _ _ (by decide)
          · simp at he
        · rcases tcpRollback_state (tcpBackOff now s) with h0 | h0 | h0 <;> rw [h0]
          · decide
          · decide
          · show s.state ≠ .synSent
            simp [hst]
      exact hroll.trans (.output now _)

theorem ReceiverKeeps.read (s : InetSocket) (count : Nat) :
    ReceiverKeeps s (tcpRead s count).1 (returnedBytes (tcpRead s count).2.2)
      (tcpRead s count).2.1 := by
  unfold tcpRead
  split
  · exact .refl s
  split
  · refine ⟨rfl, rfl, ?_, ?_, ?_, id⟩
    · intro hr
      obtain ⟨hread, hrest⟩ := Buf.ring_pop (n := min count s.rxCount) s.rx hr.head hr.count
        (Nat.min_le_right _ _)
      refine ⟨⟨Nat.mod_lt _ (by decide), (Nat.sub_le _ _).trans hr.count⟩, ?_⟩
      show Buf.ringRead tcpRxSize s.rx s.rxHead (min count s.rxCount) ++
        Buf.ring tcpRxSize s.rx ((s.rxHead + min count s.rxCount) % tcpRxSize)
          (s.rxCount - min count s.rxCount) = queued s
      rw [hread, hrest, List.take_append_drop]
      rfl
    · intro e he _
      simp only [tcpTakeRx] at he
      split at he
      · obtain rfl : e = _ := by simpa using he
        exact sendSegment_ack _ _ _ _ (by decide)
      · simp at he
    · intro hu
      have hempty := hu.empty
      omega
  split
  · exact .refl s
  split <;> exact .refl s

theorem ReceiverKeeps.writeLoop (now fuel : Nat) (s : InetSocket) (rest : List UInt8)
    (written : Nat) :
    ReceiverKeeps s (tcpWriteLoop now fuel s rest written).1 []
      (tcpWriteLoop now fuel s rest written).2.1 := by
  induction fuel generalizing s rest written with
  | zero => exact .refl s
  | succ fuel ih =>
      rw [tcpWriteLoop]
      split
      · exact .refl s
      split
      · exact .refl s
      split
      · exact .refl s
      split
      · exact .refl s
      have hqueue : ReceiverKeeps s (tcpQueueTx s
          (rest.take (min rest.length (tcpTxSize - s.txCount)))) [] [] :=
        .of_view rfl (by simp) (fun h0 => ⟨⟨h0.state, h0.empty⟩, by simp⟩) id
      exact (hqueue.trans (.output now _)).trans (ih _ _ _)

theorem rst_no_ack (t : InetSocket) (seq : UInt32) :
    hasFlag (tcpSendSegment t seq tcpRst []).seg.flags tcpAck = false := by
  show hasFlag tcpRst tcpAck = false
  decide

theorem ReceiverKeeps.emitRst (h : ReceiverKeeps s s' [] []) (t : InetSocket) (seq : UInt32) :
    ReceiverKeeps s s' [] [tcpSendSegment t seq tcpRst []] :=
  h.emit (fun h0 => absurd ((rst_no_ack t seq).symm.trans h0) (by decide))
    fun _ => rst_no_ack t seq

theorem ReceiverKeeps.close (now : Nat) (s : InetSocket) :
    ReceiverKeeps s (tcpClose now s).sock [] (tcpClose now s).out := by
  have hreq : ReceiverKeeps s (tcpRequestClose now s) [] [] :=
    .of_view rfl (by simp) (fun h0 => ⟨⟨h0.state, h0.empty⟩, by simp⟩) id
  unfold tcpClose
  cases s.state with
  | established | closeWait => exact hreq.trans (.output now _)
  | synSent => exact (ReceiverKeeps.refl s).emitRst s s.sndNxt
  | closed | listen | finWait | done | synRcvd => exact .refl s

theorem ReceiverKeeps.connectWait (s : InetSocket) (elapsed : Nat) :
    ReceiverKeeps s (tcpConnectWait s elapsed).1 [] (tcpConnectWait s elapsed).2 := by
  have hclosed : ReceiverKeeps s { s with state := .closed, rtoDeadline := 0 } [] [] :=
    .of_view rfl (by simp) (fun h0 => ⟨⟨.inr ⟨rfl, rfl⟩, h0.empty⟩, by simp⟩) (by simp)
  unfold tcpConnectWait
  split
  · exact hclosed.emitRst s s.sndNxt
  · exact .refl s

end Stream
