import StrawOS.Inet.Socket

/-!
# What one TCP socket does on each event

Segment arrival, the retransmission timer, and the `read`, `write`, `close` and
`connect` calls, each as a function of the one control block it works on.  What
such a function asks of the socket table besides storing the new control block
is collected in a `Reaction`: the segments it sends, whether the socket has
just completed a passive open and joins its listener's backlog, and whether the
slot is to be freed.

A blocking call runs from its start, or from the wake-up after `task_block`, to
its return or to the next `task_block`; this is the unit of interleaving.
-/

namespace Inet

abbrev EAGAIN : Int := 11
abbrev EINVAL : Int := 22
abbrev EPIPE : Int := 32
abbrev ETIMEDOUT : Int := 110
abbrev ECONNREFUSED : Int := 111

/-- The effect of an event on one socket. -/
structure Reaction where
  sock : InetSocket
  out : List Emission := []
  accepted : Bool := false
  free : Bool := false

def tcpReset (s : InetSocket) (error : Int) : Reaction where
  sock := { s with state := .closed, error := error, rtoDeadline := 0 }
  free := s.orphan

/-! ## Segment arrival -/

/-- The acknowledgement number lies after `snd_una` and not after `snd_nxt`. -/
def tcpAckAdvances (s : InetSocket) (ack : UInt32) : Bool :=
  SeqNum.lt s.sndUna ack && SeqNum.le ack s.sndNxt

/-- How many bytes of the transmit buffer an acknowledgement covers. -/
def tcpDataAcked (s : InetSocket) (ack : UInt32) : Nat :=
  min (if s.finSent && SeqNum.lt s.finSeq ack then ack - s.sndUna - 1
    else ack - s.sndUna).toNat s.txCount

/-- Drop the acknowledged bytes from the front of the transmit buffer. -/
def tcpTakeAck (now : Nat) (s : InetSocket) (ack : UInt32) : InetSocket :=
  let n := tcpDataAcked s ack
  { s with
    tx := Buf.write s.tx 0 (Buf.read s.tx n (s.txCount - n))
    txCount := s.txCount - n
    sndUna := ack
    retries := 0
    rtoMs := tcpRtoMinMs * 2
    rtoDeadline := if ack = s.sndNxt then 0 else now + tcpRtoMinMs * 2 }

def tcpProcessAck (now : Nat) (s : InetSocket) (seg : TcpSegment) : InetSocket :=
  if hasFlag seg.flags tcpAck then
    { (if tcpAckAdvances s seg.ack then tcpTakeAck now s seg.ack else s) with
      sndWnd := seg.window.toUInt32 }
  else s

/-- Queue as much of the payload as the receive ring has room for. -/
def tcpTakeData (s : InetSocket) (payload : List UInt8) : InetSocket :=
  let n := min payload.length (tcpRxSize - s.rxCount)
  { s with
    rx := Buf.ringWrite tcpRxSize s.rx ((s.rxHead + s.rxCount) % tcpRxSize) (payload.take n)
    rxCount := s.rxCount + n
    rcvNxt := s.rcvNxt + .ofNat n }

def tcpProcessData (s : InetSocket) (seg : TcpSegment) : InetSocket :=
  if !seg.payload.isEmpty && decide (seg.seq = s.rcvNxt) && !s.finReceived then
    tcpTakeData s seg.payload
  else s

def tcpFinArrives (s : InetSocket) (seg : TcpSegment) : Bool :=
  hasFlag seg.flags tcpFin && decide (seg.seq + .ofNat seg.payload.length = s.rcvNxt) &&
    !s.finReceived

/-- State change when the peer's FIN is taken. -/
def TcpState.peerClosed : TcpState → TcpState
  | .established => .closeWait
  | .finWait => .done
  | st => st

def tcpTakeFin (s : InetSocket) : InetSocket :=
  { s with rcvNxt := s.rcvNxt + 1, finReceived := true, state := s.state.peerClosed }

/-- Payload and FIN processing: the control block after both, and whether an
acknowledgement is due. -/
def tcpProcessText (s : InetSocket) (seg : TcpSegment) : InetSocket × Bool :=
  let s1 := tcpProcessData s seg
  if tcpFinArrives s1 seg then (tcpTakeFin s1, true) else (s1, !seg.payload.isEmpty)

/-- The common tail of `inet_tcp_deliver`, from the ACK processing on. -/
def tcpReceiveOpen (now : Nat) (s : InetSocket) (seg : TcpSegment) : Reaction :=
  let t := tcpProcessText (tcpProcessAck now s seg) seg
  let acks := if t.2 then [tcpSendAck t.1] else []
  if t.1.state = .done ∧ t.1.sndUna = t.1.sndNxt ∧ t.1.orphan then
    { sock := t.1, out := acks, free := true }
  else
    let r := tcpOutput now t.1
    { sock := r.1, out := acks ++ r.2 }

/-- Active open completes. -/
def tcpOpened (s : InetSocket) (seg : TcpSegment) : InetSocket :=
  { s with
    rcvNxt := seg.seq + 1
    sndUna := seg.ack
    sndWnd := seg.window.toUInt32
    state := .established
    rtoDeadline := 0
    retries := 0 }

/-- Passive open completes. -/
def tcpAccepted (s : InetSocket) (seg : TcpSegment) : InetSocket :=
  { s with sndUna := seg.ack, state := .established, rtoDeadline := 0, retries := 0 }

/-- `inet_tcp_deliver` on the socket that `inet_find_tcp` found. -/
def tcpReceive (now : Nat) (s : InetSocket) (seg : TcpSegment) : Reaction :=
  if hasFlag seg.flags tcpRst then
    tcpReset s (if s.state = .synSent then -ECONNREFUSED else -EPIPE)
  else match s.state with
    | .synSent =>
        if seg.flags &&& (tcpSyn ||| tcpAck) = tcpSyn ||| tcpAck ∧ seg.ack = s.iss + 1 then
          { sock := tcpOpened s seg, out := [tcpSendAck (tcpOpened s seg)] }
        else { sock := s }
    | .synRcvd =>
        if seg.flags &&& (tcpSyn ||| tcpAck) = tcpSyn then
          { sock := s, out := [tcpSendSegment s s.iss (tcpSyn ||| tcpAck) []] }
        else if hasFlag seg.flags tcpAck ∧ seg.ack = s.iss + 1 then
          { tcpReceiveOpen now (tcpAccepted s seg) seg with accepted := true }
        else { sock := s }
    | .closed | .listen => { sock := s }
    | _ => tcpReceiveOpen now s seg

/-! ## The retransmission timer -/

/-- Go back to the first unacknowledged byte and forget that the FIN was sent. -/
def tcpRollback (s : InetSocket) : InetSocket :=
  { s with
    sndNxt := s.sndUna
    finSent := false
    state :=
      if s.finSent ∧ s.state = .finWait then .established
      else if s.finSent ∧ s.state = .done then .closeWait
      else s.state }

/-- One more attempt: count it and double the timeout. -/
def tcpBackOff (now : Nat) (s : InetSocket) : InetSocket :=
  let ms := if s.rtoMs * 2 > tcpRtoMaxMs then tcpRtoMaxMs else s.rtoMs * 2
  { s with retries := s.retries + 1, rtoMs := ms, rtoDeadline := now + ms }

/-- The body of the loop in `inet_tick` for one used TCP socket. -/
def tcpTick (now : Nat) (s : InetSocket) : Reaction :=
  if s.orphan ∧ s.doneDeadline ≠ 0 ∧ s.doneDeadline ≤ now then { sock := s, free := true }
  else if s.rtoDeadline = 0 ∨ now < s.rtoDeadline then { sock := s }
  else if tcpMaxRetries < s.retries + 1 then
    tcpReset { s with retries := s.retries + 1 }
      (if s.state = .synSent then -ETIMEDOUT else -EPIPE)
  else
    let s1 := tcpBackOff now s
    match s.state with
    | .synSent => { sock := s1, out := [tcpSendSegment s1 s1.iss tcpSyn []] }
    | .synRcvd => { sock := s1, out := [tcpSendSegment s1 s1.iss (tcpSyn ||| tcpAck) []] }
    | _ =>
        let s2 := tcpRollback s1
        let probe := if s2.txCount = 0 ∧ s2.closeRequested = false then
          [tcpSendSegment s2 s2.sndNxt tcpAck []] else []
        let r := tcpOutput now s2
        { sock := r.1, out := probe ++ r.2 }

/-! ## Calls of the owner -/

/-- How a `read` segment ends: with bytes, with a return code, or asleep. -/
inductive ReadResult
  | bytes (data : List UInt8)
  | code (rc : Int)
  | blocked
deriving DecidableEq, Repr

/-- Take `n` queued bytes out of the receive ring; tell the peer when the window
had nearly closed. -/
def tcpTakeRx (s : InetSocket) (n : Nat) : InetSocket × List Emission :=
  let s1 := { s with rxHead := (s.rxHead + n) % tcpRxSize, rxCount := s.rxCount - n }
  (s1, if (tcpWindow s).toNat < tcpMss * 2 ∧ s.state ≠ .closed then [tcpSendAck s1] else [])

/-- `inet_read` on a TCP socket. -/
def tcpRead (s : InetSocket) (count : Nat) : InetSocket × List Emission × ReadResult :=
  if s.state = .listen then (s, [], .code (-EINVAL))
  else if 0 < s.rxCount then
    let n := min count s.rxCount
    let r := tcpTakeRx s n
    (r.1, r.2, .bytes (Buf.ringRead tcpRxSize s.rx s.rxHead n))
  else if s.finReceived ∨ s.state = .closed then
    (s, [], .code (if s.state = .closed ∧ s.finReceived = false then s.error else 0))
  else if s.nonblock then (s, [], .code (-EAGAIN))
  else (s, [], .blocked)

/-- How a `write` segment ends: with a return code, or asleep with `rest` still
to be written and `written` bytes accepted. -/
inductive WriteResult
  | code (rc : Int)
  | blocked (rest : List UInt8) (written : Nat)
deriving DecidableEq, Repr

/-- Append to the transmit buffer. -/
def tcpQueueTx (s : InetSocket) (data : List UInt8) : InetSocket :=
  { s with tx := Buf.write s.tx s.txCount data, txCount := s.txCount + data.length }

/-- The `while (written < count)` of `inet_write`, with the bytes not yet
accepted.  Every round either ends the segment or accepts a byte. -/
def tcpWriteLoop (now : Nat) : Nat → InetSocket → List UInt8 → Nat →
    InetSocket × List Emission × WriteResult
  | 0, s, _, written => (s, [], .code (if written = 0 then -EAGAIN else written))
  | fuel + 1, s, rest, written =>
      let stop : WriteResult :=
        if s.nonblock then .code (if written = 0 then -EAGAIN else written)
        else .blocked rest written
      if rest = [] then (s, [], .code (if written = 0 then -EAGAIN else written))
      else if s.state = .synSent then (s, [], stop)
      else if s.state ≠ .established ∧ s.state ≠ .closeWait then
        (s, [], .code (if written ≠ 0 then written else if s.error ≠ 0 then s.error else -EPIPE))
      else if tcpTxSize - s.txCount = 0 then (s, [], stop)
      else
        let n := min rest.length (tcpTxSize - s.txCount)
        let r := tcpOutput now (tcpQueueTx s (rest.take n))
        let k := tcpWriteLoop now fuel r.1 (rest.drop n) (written + n)
        (k.1, r.2 ++ k.2.1, k.2.2)

/-- `inet_write` on a TCP socket. -/
def tcpWrite (now : Nat) (s : InetSocket) (rest : List UInt8) (written : Nat) :
    InetSocket × List Emission × WriteResult :=
  tcpWriteLoop now (rest.length + 1) s rest written

/-- The owner is gone: close after everything queued has been sent. -/
def tcpRequestClose (now : Nat) (s : InetSocket) : InetSocket :=
  { s with orphan := true, closeRequested := true, doneDeadline := now + 10000 }

/-- `inet_close` on a TCP socket. -/
def tcpClose (now : Nat) (s : InetSocket) : Reaction :=
  match s.state with
  | .established | .closeWait =>
      let r := tcpOutput now (tcpRequestClose now s)
      { sock := r.1, out := r.2 }
  | .synSent => { sock := s, out := [tcpSendSegment s s.sndNxt tcpRst []], free := true }
  | _ => { sock := s, free := true }

/-- The active open of `inet_connect`, up to its wait loop. -/
def tcpConnect (now : Nat) (s : InetSocket) (ip : Ipv4Addr) (port localPort : UInt16)
    (random : UInt32) : InetSocket × List Emission :=
  let s1 := { s with
    remoteIp := ip
    remotePort := port
    localPort := localPort
    iss := random
    sndUna := random
    sndNxt := random + 1
    rtoMs := 1000
    state := .synSent
    connected := true }
  (tcpArmTimer now s1, [tcpSendSegment s1 random tcpSyn []])

/-- One look of the wait loop of `inet_connect`, `elapsed` milliseconds in. -/
def tcpConnectWait (s : InetSocket) (elapsed : Nat) : InetSocket × List Emission :=
  if s.state = .synSent ∧ tcpConnectMs ≤ elapsed then
    ({ s with state := .closed, rtoDeadline := 0 }, [tcpSendSegment s s.sndNxt tcpRst []])
  else (s, [])

/-- The child that `tcp_passive_open` builds in a fresh slot. -/
def tcpPassiveChild (now : Nat) (fresh : InetSocket) (listener : SockId) (localPort : UInt16)
    (srcIp : Ipv4Addr) (seg : TcpSegment) (random : UInt32) : InetSocket × List Emission :=
  let c := { fresh with
    remoteIp := srcIp
    remotePort := seg.srcPort
    localPort := localPort
    connected := true
    orphan := true
    parent := some listener
    iss := random
    sndUna := random
    sndNxt := random + 1
    sndWnd := seg.window.toUInt32
    rcvNxt := seg.seq + 1
    rtoMs := 1000
    state := .synRcvd }
  (tcpArmTimer now c, [tcpSendSegment c random (tcpSyn ||| tcpAck) []])

end Inet

/-!
# What `tcp_output` can do

`tcpOutput_induct` is the one rule about `tcpOutput`: it sends data segments one
at a time, then perhaps the FIN, and last it may arm the timer.  A property of
the control block and of the segments sent so far that survives each of these
holds of the whole call.
-/

namespace Inet

/-- The control block after sending its next data segment. -/
def tcpSentData (s : InetSocket) : InetSocket :=
  { s with sndNxt := s.sndNxt + .ofNat (tcpSegmentLen s) }

/-- The next data segment. -/
def tcpNextData (s : InetSocket) : Emission :=
  tcpSendSegment s s.sndNxt (tcpAck ||| tcpPsh)
    (Buf.read s.tx (tcpInFlight s).toNat (tcpSegmentLen s))

theorem tcpOutputLoop_succ (fuel : Nat) (s : InetSocket) :
    tcpOutputLoop (fuel + 1) s =
      if tcpOutputStops s then (s, [])
      else ((tcpOutputLoop fuel (tcpSentData s)).1,
        tcpNextData s :: (tcpOutputLoop fuel (tcpSentData s)).2) := rfl

theorem tcpOutputLoop_induct {P : InetSocket → List Emission → Prop}
    (hdata : ∀ s out, P s out → s.state.sends → tcpOutputStops s = false →
      P (tcpSentData s) (out ++ [tcpNextData s]))
    (fuel : Nat) {s : InetSocket} {out : List Emission} (h : P s out) (hs : s.state.sends) :
    P (tcpOutputLoop fuel s).1 (out ++ (tcpOutputLoop fuel s).2) ∧
      (tcpOutputLoop fuel s).1.state = s.state := by
  induction fuel generalizing s out with
  | zero => simpa [tcpOutputLoop] using h
  | succ fuel ih =>
      rw [tcpOutputLoop_succ]
      by_cases hstop : tcpOutputStops s = true
      · simpa [hstop] using h
      · have hstop : tcpOutputStops s = false := by simpa using hstop
        have hnext := ih (hdata s out h hs hstop) hs
        simpa [hstop, tcpSentData] using hnext

/-- **Induction along a call of `tcp_output`.** -/
theorem tcpOutput_induct {P : InetSocket → List Emission → Prop} (now : Nat) (s : InetSocket)
    (hstart : P s [])
    (hdata : ∀ s out, P s out → s.state.sends → tcpOutputStops s = false →
      P (tcpSentData s) (out ++ [tcpNextData s]))
    (hfin : ∀ s out, P s out → s.state.sends → tcpFinDue s = true →
      P (tcpSendFin s).1 (out ++ (tcpSendFin s).2))
    (harm : ∀ s out, P s out → P (tcpArmTimer now s) out) :
    P (tcpOutput now s).1 (tcpOutput now s).2 := by
  unfold tcpOutput
  by_cases hs : s.state.sends = true
  · obtain ⟨hloop, hstate⟩ := tcpOutputLoop_induct hdata s.txCount hstart hs
    rw [if_pos hs]
    have hf : P (tcpOutputFin (tcpOutputLoop s.txCount s).1).1
        ((tcpOutputLoop s.txCount s).2 ++ (tcpOutputFin (tcpOutputLoop s.txCount s).1).2) := by
      unfold tcpOutputFin
      split
      · rename_i hdue
        exact hfin _ _ hloop (by rw [hstate]; exact hs) hdue
      · simpa using hloop
    dsimp only
    split
    · exact harm _ _ hf
    · exact hf
  · rw [if_neg hs]
    exact hstart

/-! ## The rounds of the loop

The arithmetic below is about a control block whose FIN is not out and whose
span is covered by the transmit buffer, as it is in every state from which data
is sent. -/

theorem tcpInFlight_of_not_finSent {s : InetSocket} (h : s.finSent = false) :
    tcpInFlight s = s.sndNxt - s.sndUna := by
  simp [tcpInFlight, h]

theorem tcpSendWindow_toNat (s : InetSocket) :
    (tcpSendWindow s).toNat = max s.sndWnd.toNat 1 := by
  unfold tcpSendWindow
  by_cases h : s.sndWnd = 0
  · simp [h]
  · have hpos : s.sndWnd.toNat ≠ 0 := fun h0 => h (UInt32.toNat_inj.mp h0)
    rw [if_neg h]
    omega

theorem tcpOutputStops_eq_false {s : InetSocket} :
    tcpOutputStops s = false ↔
      (tcpInFlight s).toNat < s.txCount ∧ (tcpInFlight s).toNat < (tcpSendWindow s).toNat := by
  simp [tcpOutputStops, UInt32.lt_iff_toNat_lt]

/-- The next segment carries at least one byte, and stays inside the buffer, the
window and the maximum segment size. -/
theorem tcpSegmentLen_bounds {s : InetSocket} (h : tcpOutputStops s = false) :
    0 < tcpSegmentLen s ∧ tcpSegmentLen s ≤ tcpMss ∧
      (tcpInFlight s).toNat + tcpSegmentLen s ≤ s.txCount ∧
      (tcpInFlight s).toNat + tcpSegmentLen s ≤ max s.sndWnd.toNat 1 := by
  obtain ⟨h1, h2⟩ := tcpOutputStops_eq_false.mp h
  rw [← tcpSendWindow_toNat]
  simp only [tcpSegmentLen, tcpMss]
  omega

theorem tcpSentData_span {s : InetSocket} (hfin : s.finSent = false)
    (htx : s.txCount ≤ tcpTxSize) (h : tcpOutputStops s = false) :
    ((tcpSentData s).sndNxt - (tcpSentData s).sndUna).toNat =
      (s.sndNxt - s.sndUna).toNat + tcpSegmentLen s := by
  obtain ⟨-, -, hlen, -⟩ := tcpSegmentLen_bounds h
  rw [tcpInFlight_of_not_finSent hfin] at hlen
  simp only [tcpTxSize] at htx
  have hbound : (s.sndNxt - s.sndUna).toNat + tcpSegmentLen s < 2 ^ 32 := by omega
  exact SeqNum.span_add hbound

end Inet
