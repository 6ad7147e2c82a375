import StrawOS.Stream.Safety

/-!
# A write that was asleep across the close

A run in which the end of the stream is reported too early.  A thread falls asleep in
`inet_write` while the connection is being opened.  Another one fills the peer's receive
ring, so that an acknowledgement with window zero is on the network, writes two more bytes
when the peer has read all, and closes; the peer takes both bytes and the FIN.  Then the old
acknowledgement arrives: the next timeout resends one byte, without the FIN, and leaves the
socket in ESTABLISHED, and the byte of the sleeping writer is accepted.

All bytes are zero, so that the buffers of both sides never change.
-/

namespace Stream

open Inet

/-! ## Buffers of zeros -/

/-- A buffer of zeros. -/
def zeros : Nat → UInt8 := fun _ => 0

theorem write_zeros (off n : Nat) : Buf.write zeros off (List.replicate n 0) = zeros := by
  funext i
  by_cases h1 : i < off
  · exact Buf.write_of_lt h1
  · obtain ⟨j, rfl⟩ : ∃ j, i = off + j := ⟨i - off, by omega⟩
    by_cases h2 : j < n
    · rw [Buf.write_of_mem (by simpa using h2)]
      simp [zeros]
    · exact Buf.write_of_ge (by simp; omega)

theorem ringWrite_zeros (N tail n : Nat) :
    Buf.ringWrite N zeros tail (List.replicate n 0) = zeros := by
  simp only [Buf.ringWrite, List.take_replicate, List.drop_replicate, write_zeros]

/-! ## Calls on an idle connection -/

section Idle

variable {s : InetSocket} (now : Nat)

/-- With nothing to send and no close, `tcp_output` does nothing. -/
theorem tcpOutput_idle (htx : s.txCount = 0) (hclose : s.closeRequested = false) :
    tcpOutput now s = (s, []) := by
  unfold tcpOutput
  split
  · rw [htx]
    simp [tcpOutputLoop, tcpOutputFin, tcpFinDue, hclose]
  · rfl

/-- One segment that fits into the window and the maximum segment size. -/
theorem tcpOutput_one (hst : s.state = .established) (hfin : s.finSent = false)
    (hclose : s.closeRequested = false) (hspan : s.sndNxt = s.sndUna) (hpos : 0 < s.txCount)
    (hmss : s.txCount ≤ tcpMss) (hwnd : s.txCount ≤ s.sndWnd.toNat) (htimer : s.rtoDeadline = 0) :
    tcpOutput now s =
      ({ s with sndNxt := s.sndNxt + .ofNat s.txCount, rtoDeadline := now + s.rtoMs },
        [tcpSendSegment s s.sndNxt (tcpAck ||| tcpPsh) (Buf.read s.tx 0 s.txCount)]) := by
  have hflight : tcpInFlight s = 0 := by
    rw [tcpInFlight_of_not_finSent hfin, hspan, UInt32.sub_self]
  have hwin : (tcpSendWindow s).toNat = s.sndWnd.toNat := by
    rw [tcpSendWindow_toNat]
    omega
  have hgo : tcpOutputStops s = false := by
    rw [tcpOutputStops_eq_false, hflight, hwin, UInt32.toNat_zero]
    omega
  have hlen : tcpSegmentLen s = s.txCount := by
    rw [tcpSegmentLen, hflight, hwin, UInt32.toNat_zero]
    omega
  have hspan' : ((tcpSentData s).sndNxt - (tcpSentData s).sndUna).toNat = s.txCount := by
    have h0 : (s.sndNxt - s.sndUna).toNat = 0 := by simp [hspan]
    have hadd : (s.sndNxt + .ofNat s.txCount - s.sndUna).toNat =
        (s.sndNxt - s.sndUna).toNat + s.txCount := by
      simp only [tcpMss] at hmss
      exact SeqNum.span_add (by omega)
    show (s.sndNxt + .ofNat (tcpSegmentLen s) - s.sndUna).toNat = _
    rw [hlen, hadd, h0, Nat.zero_add]
  have hstop : tcpOutputStops (tcpSentData s) = true := by
    by_contra h0
    have hlt := (tcpOutputStops_eq_false.mp (by simpa using h0)).1
    rw [tcpInFlight_of_not_finSent (s := tcpSentData s) hfin, hspan'] at hlt
    exact absurd hlt (lt_irrefl _)
  obtain ⟨m, hm⟩ : ∃ m, s.txCount = m + 1 := ⟨s.txCount - 1, by omega⟩
  have hloop : tcpOutputLoop s.txCount s = (tcpSentData s, [tcpNextData s]) := by
    rw [hm, tcpOutputLoop_succ, hgo, if_neg (by decide)]
    have hrest : tcpOutputLoop m (tcpSentData s) = (tcpSentData s, []) := by
      cases m with
      | zero => rfl
      | succ m => rw [tcpOutputLoop_succ, if_pos hstop]
    rw [hrest]
  have hnofin : tcpOutputFin (tcpSentData s) = (tcpSentData s, []) := by
    have hdue : tcpFinDue (tcpSentData s) = false := by
      simp [tcpFinDue, tcpSentData, hclose]
    rw [tcpOutputFin, hdue, if_neg (by decide)]
  have htimer' : (tcpSentData s).rtoDeadline = 0 := htimer
  rw [tcpOutput, if_pos (by rw [hst]; rfl), hloop]
  dsimp only
  rw [hnofin]
  simp only [List.append_nil, List.isEmpty_cons, Bool.not_false, Bool.true_and, htimer',
    decide_true, if_true]
  simp only [tcpArmTimer, tcpSentData, tcpNextData, hlen, hflight, UInt32.toNat_zero]

theorem tcpWrite_one (hst : s.state = .established) (hfin : s.finSent = false)
    (hclose : s.closeRequested = false) (hspan : s.sndNxt = s.sndUna) (htx : s.txCount = 0)
    (data : List UInt8) (hpos : data ≠ []) (hmss : data.length ≤ tcpMss)
    (hwnd : data.length ≤ s.sndWnd.toNat) (htimer : s.rtoDeadline = 0) :
    tcpWrite now s data 0 =
      ({ tcpQueueTx s data with
          sndNxt := s.sndNxt + .ofNat data.length, rtoDeadline := now + s.rtoMs },
        [tcpSendSegment (tcpQueueTx s data) s.sndNxt (tcpAck ||| tcpPsh) data],
        .code data.length) := by
  have hlen := List.length_pos_of_ne_nil hpos
  have hcount : (tcpQueueTx s data).txCount = data.length := by simp [tcpQueueTx, htx]
  have hout := tcpOutput_one now (s := tcpQueueTx s data) hst hfin hclose hspan
    (by rw [hcount]; exact hlen) (by rw [hcount]; exact hmss) (by rw [hcount]; exact hwnd) htimer
  have hread : Buf.read (tcpQueueTx s data).tx 0 (tcpQueueTx s data).txCount = data := by
    rw [hcount]
    show Buf.read (Buf.write s.tx s.txCount data) 0 data.length = data
    rw [htx, Buf.read_write_self]
  have hroom : min data.length (tcpTxSize - s.txCount) = data.length := by
    simp only [tcpMss, tcpTxSize, htx] at hmss ⊢
    omega
  rw [hread] at hout
  rw [tcpWrite, tcpWriteLoop]
  dsimp only
  rw [if_neg hpos, if_neg (by rw [hst]; decide), if_neg (by simp [hst]), if_neg (by rw [htx]; decide),
    hroom, List.take_length, List.drop_length, hout]
  obtain ⟨m, hm⟩ : ∃ m, data.length = m + 1 := ⟨data.length - 1, by omega⟩
  rw [hm, tcpWriteLoop]
  simp [hcount, hm]
  exact ⟨⟨rfl, rfl⟩, rfl⟩

theorem lt_self (n : UInt32) : SeqNum.lt n n = false := by
  simp [SeqNum.lt]

/-- A control block with the window of a segment. -/
def withWindow (s : InetSocket) (seg : TcpSegment) : InetSocket :=
  { s with sndWnd := seg.window.toUInt32 }

theorem tcpReceive_data (hst : s.state = .established) (hfin : s.finReceived = false)
    (hclose : s.closeRequested = false) (htx : s.txCount = 0) (seg : TcpSegment)
    (hflags : seg.flags = tcpAck ||| tcpPsh) (hseq : seg.seq = s.rcvNxt)
    (hack : seg.ack = s.sndUna) (hpay : seg.payload ≠ []) :
    tcpReceive now s seg =
      { sock := tcpTakeData (withWindow s seg) seg.payload
        out := [tcpSendAck (tcpTakeData (withWindow s seg) seg.payload)] } := by
  have hA : tcpProcessAck now s seg = withWindow s seg := by
    rw [tcpProcessAck, hflags, if_pos (by decide), tcpAckAdvances, hack, lt_self]
    rfl
  have hT : tcpProcessText (withWindow s seg) seg =
      (tcpTakeData (withWindow s seg) seg.payload, true) := by
    have hdata : tcpProcessData (withWindow s seg) seg =
        tcpTakeData (withWindow s seg) seg.payload := by
      rw [tcpProcessData, if_pos]
      simp [hpay, hseq, withWindow, hfin]
    have hnofin : hasFlag (tcpAck ||| tcpPsh) tcpFin = false := by decide
    simp only [tcpProcessText, hdata, tcpFinArrives, hflags, hnofin]
    simp [hpay]
  have hopen : tcpReceiveOpen now s seg =
      { sock := tcpTakeData (withWindow s seg) seg.payload
        out := [tcpSendAck (tcpTakeData (withWindow s seg) seg.payload)] } := by
    rw [tcpReceiveOpen, hA, hT]
    rw [if_neg (by rintro ⟨h0, -⟩; exact absurd (hst.symm.trans h0) (by decide)),
      tcpOutput_idle now (s := tcpTakeData (withWindow s seg) seg.payload) htx hclose]
    rfl
  rw [tcpReceive, hflags, if_neg (by decide), hst]
  exact hopen

theorem tcpReceive_ack (hst : s.state = .established) (hfin : s.finSent = false)
    (hclose : s.closeRequested = false) (seg : TcpSegment) (hflags : seg.flags = tcpAck)
    (hpay : seg.payload = []) (hack : seg.ack = s.sndNxt) (hpos : 0 < s.txCount)
    (hspan : (s.sndNxt - s.sndUna).toNat = s.txCount) (hsmall : s.txCount ≤ tcpMss) :
    tcpReceive now s seg =
      { sock := withWindow (tcpTakeAck now s seg.ack) seg } := by
  simp only [tcpMss] at hsmall
  have hadv : tcpAckAdvances s seg.ack = true := by
    rw [tcpAckAdvances, hack, Bool.and_eq_true]
    constructor
    · rw [SeqNum.lt_iff]
      have h1 := SeqNum.toNat_sub s.sndUna s.sndNxt
      have h2 := SeqNum.toNat_sub s.sndNxt s.sndUna
      have h3 := s.sndUna.toNat_lt
      have h4 := s.sndNxt.toNat_lt
      omega
    · rw [SeqNum.le_iff]
      simp
  have hcount : tcpDataAcked s seg.ack = s.txCount := by
    rw [tcpDataAcked, hfin, Bool.false_and, if_neg (by decide), hack, hspan, Nat.min_self]
  have hA : tcpProcessAck now s seg =
      withWindow (tcpTakeAck now s seg.ack) seg := by
    rw [tcpProcessAck, hflags, if_pos (by decide), hadv, if_pos rfl]
    rfl
  have hT : tcpProcessText (withWindow (tcpTakeAck now s seg.ack) seg) seg =
      ((withWindow (tcpTakeAck now s seg.ack) seg), false) := by
    have hnofin : hasFlag tcpAck tcpFin = false := by decide
    simp [tcpProcessText, tcpProcessData, tcpFinArrives, hpay, hflags, hnofin]
  have hempty : (tcpTakeAck now s seg.ack).txCount = 0 := by
    show s.txCount - tcpDataAcked s seg.ack = 0
    rw [hcount, Nat.sub_self]
  have hopen : tcpReceiveOpen now s seg =
      { sock := withWindow (tcpTakeAck now s seg.ack) seg } := by
    rw [tcpReceiveOpen, hA, hT]
    rw [if_neg (by rintro ⟨h0, -⟩; exact absurd (hst.symm.trans h0) (by decide)),
      tcpOutput_idle now (s := withWindow (tcpTakeAck now s seg.ack) seg) hempty hclose]
    rfl
  rw [tcpReceive, hflags, if_neg (by decide), hst]
  exact hopen

end Idle

/-! ## The rounds -/

/-- Side `a` after `n` bytes, all acknowledged, with window `w` and timeout `m`. -/
def roundSockA (n : Nat) (w : UInt32) (m : Nat) : InetSocket :=
  { freshSocket false zeros zeros with
    remoteIp := 1, remotePort := 80, localPort := 4000, connected := true, state := .established
    iss := 1000, sndUna := 1001 + .ofNat n, sndNxt := 1001 + .ofNat n, sndWnd := w
    rcvNxt := 5001, rtoMs := m }

/-- Side `b` with `n` bytes in its ring. -/
def roundSockB (n : Nat) : InetSocket :=
  { freshSocket false zeros zeros with
    remoteIp := 2, remotePort := 4000, localPort := 80, connected := true, state := .established
    iss := 5000, sndUna := 5001, sndNxt := 5001, sndWnd := 65535
    rcvNxt := 1001 + .ofNat n, rxCount := n, rtoMs := 1000 }

/-- Side `a` with `k` more bytes in flight. -/
def roundSockSent (n k : Nat) (w : UInt32) (m : Nat) : InetSocket :=
  { roundSockA n w m with
    txCount := k, sndNxt := 1001 + .ofNat (n + k), rtoDeadline := m }

/-- The window field with `n` bytes in the ring. -/
def roundWindow (n : Nat) : UInt16 := .ofNat (min 65535 (tcpRxSize - n))

/-- The data segment and the acknowledgement of a round of `k` bytes that starts
at `n`. -/
def roundData (n k : Nat) : TcpSegment :=
  ⟨4000, 80, 1001 + .ofNat n, 5001, tcpAck ||| tcpPsh, 65535, List.replicate k 0⟩

def roundAck (n k : Nat) : TcpSegment :=
  ⟨80, 4000, 5001, 1001 + .ofNat (n + k), tcpAck, roundWindow (n + k), []⟩

section Round

variable {n k : Nat} {w : UInt32}

theorem tcpWrite_round (hk : 0 < k) (hmss : k ≤ tcpMss) (hw : k ≤ w.toNat) (m : Nat) :
    tcpWrite 0 (roundSockA n w m) (List.replicate k 0) 0 =
      (roundSockSent n k w m,
        [tcpSendSegment (tcpQueueTx (roundSockA n w m) (List.replicate k 0))
          (1001 + .ofNat n) (tcpAck ||| tcpPsh) (List.replicate k 0)],
        .code k) := by
  have hne : List.replicate k (0 : UInt8) ≠ [] := by
    simp
    omega
  have h := tcpWrite_one 0 (s := roundSockA n w m) rfl rfl rfl rfl rfl
    (List.replicate k 0) hne (by rwa [List.length_replicate])
    (by rwa [List.length_replicate]) rfl
  have hz : tcpQueueTx (roundSockA n w m) (List.replicate k 0) =
      { roundSockA n w m with txCount := k } := by
    have hz : Buf.write zeros 0 (List.replicate k 0) = zeros := write_zeros 0 k
    simp only [tcpQueueTx, roundSockA, freshSocket, hz, List.length_replicate, Nat.zero_add]
  have hn : (1001 + UInt32.ofNat n) + .ofNat k = 1001 + .ofNat (n + k) := SeqNum.pos_add _ _ _
  rw [h, List.length_replicate, hz]
  simp only [roundSockSent, roundSockA, hn, Nat.zero_add]

theorem tcpReceive_roundData (hk : 0 < k) (hn : n + k ≤ tcpRxSize) :
    tcpReceive 0 (roundSockB n) (roundData n k) =
      { sock := roundSockB (n + k), out := [tcpSendAck (roundSockB (n + k))] } := by
  have hne : (roundData n k).payload ≠ [] := by
    simp [roundData]
    omega
  have h := tcpReceive_data 0 (s := roundSockB n) rfl rfl rfl rfl (roundData n k) rfl rfl rfl hne
  have htake : tcpTakeData (withWindow (roundSockB n) (roundData n k)) (roundData n k).payload =
      roundSockB (n + k) := by
    have hmin : min k (tcpRxSize - n) = k := by omega
    have hnxt : (1001 + UInt32.ofNat n) + .ofNat k = 1001 + .ofNat (n + k) :=
      SeqNum.pos_add _ _ _
    have hring : ∀ tail, Buf.ringWrite tcpRxSize zeros tail (List.replicate k 0) = zeros :=
      fun tail => ringWrite_zeros _ tail k
    simp only [tcpTakeData, withWindow, roundSockB, roundData, freshSocket, List.length_replicate,
      hmin, List.take_replicate, Nat.min_self, hring, hnxt]
    rfl
  rw [h, htake]

theorem tcpReceive_roundAck (hk : 0 < k) (hmss : k ≤ tcpMss) (m : Nat) :
    tcpReceive 0 (roundSockSent n k w m) (roundAck n k) =
      { sock := roundSockA (n + k) (roundWindow (n + k)).toUInt32 600 } := by
  have hspan : ((roundSockSent n k w m).sndNxt - (roundSockSent n k w m).sndUna).toNat = k := by
    simp only [tcpMss] at hmss
    show ((1001 + UInt32.ofNat (n + k)) - (1001 + .ofNat n)).toNat = k
    rw [SeqNum.dist_of_le (by omega) (by omega)]
    omega
  have h := tcpReceive_ack 0 (s := roundSockSent n k w m) rfl rfl rfl (roundAck n k)
    rfl rfl rfl hk hspan hmss
  have hacked : tcpDataAcked (roundSockSent n k w m) (1001 + .ofNat (n + k)) = k := by
    have hd : tcpDataAcked (roundSockSent n k w m) (1001 + .ofNat (n + k)) =
        min ((roundSockSent n k w m).sndNxt - (roundSockSent n k w m).sndUna).toNat k := rfl
    rw [hd, hspan, Nat.min_self]
  have htake : tcpTakeAck 0 (roundSockSent n k w m) (1001 + .ofNat (n + k)) =
      roundSockA (n + k) w 600 := by
    have hz : Buf.write zeros 0 [] = zeros := write_zeros 0 0
    have htx : (roundSockSent n k w m).tx = zeros := rfl
    have hc : (roundSockSent n k w m).txCount = k := rfl
    simp only [tcpTakeAck, hacked, htx, hc, Nat.sub_self, Buf.read_zero, hz]
    simp only [roundSockSent, roundSockA, freshSocket, if_true]
    rfl
  have hack : (roundAck n k).ack = 1001 + .ofNat (n + k) := rfl
  rw [h, hack, htake]
  rfl

end Round

/-! ## The run -/

variable {n k : Nat} {w : UInt32} {c : Conn}

/-- Side `a` between two rounds, with a writer asleep. -/
def roundEndA (n : Nat) (w : UInt32) (m : Nat) : Endpoint :=
  { sock := roundSockA n w m, life := .live, writers := [([0], 0)], wrote := List.replicate n 0 }

def roundEndB (n : Nat) : Endpoint := { sock := roundSockB n, life := .live }

/-- A connection reached with few bytes, and its two sides. -/
structure At (c : Conn) (ea eb : Endpoint) : Prop where
  reachable : connMachine.Reachable FewBytes c
  a : c.ends .a = ea
  b : c.ends .b = eb
  shortA : ea.wrote.length < 2 ^ 31
  shortB : eb.wrote.length < 2 ^ 31

section At

variable {ea eb e : Endpoint} {act : Act} {out : List Emission} {x z : Side} {g : TcpSegment}

theorem reachable_step (h : connMachine.Reachable FewBytes c) (act : Act)
    (ha : ((connStep c act).ends .a).wrote.length < 2 ^ 31)
    (hb : ((connStep c act).ends .b).wrote.length < 2 ^ 31) :
    connMachine.Reachable FewBytes (connStep c act) := by
  refine .step act h fun x => ?_
  cases x with
  | a => exact ha
  | b => exact hb

theorem At.stepA (h : At c ea eb) (hact : connStep c act = c.put .a e out)
    (hshort : e.wrote.length < 2 ^ 31) : At (connStep c act) e eb := by
  have ha : (connStep c act).ends .a = e := by rw [hact, put_ends_self]
  have hb : (connStep c act).ends .b = eb := by rw [hact, put_ends_ne (by decide), h.b]
  exact ⟨reachable_step h.reachable act (by rwa [ha]) (by rw [hb]; exact h.shortB), ha, hb, hshort,
    h.shortB⟩

theorem At.stepB (h : At c ea eb) (hact : connStep c act = c.put .b e out)
    (hshort : e.wrote.length < 2 ^ 31) : At (connStep c act) ea e := by
  have ha : (connStep c act).ends .a = ea := by rw [hact, put_ends_ne (by decide), h.a]
  have hb : (connStep c act).ends .b = e := by rw [hact, put_ends_self]
  exact ⟨reachable_step h.reachable act (by rw [ha]; exact h.shortA) (by rwa [hb]), ha, hb,
    h.shortA, hshort⟩

theorem sent_new (hact : connStep c act = c.put z e out) (hg : g ∈ out.map Emission.seg) :
    g ∈ (connStep c act).sent z := by
  rw [hact, put_sent_self]
  exact List.mem_append_right _ hg

theorem sent_old (hact : connStep c act = c.put z e out) (hg : g ∈ c.sent x) :
    g ∈ (connStep c act).sent x := by
  rw [hact]
  by_cases hx : x = z
  · subst hx
    rw [put_sent_self]
    exact List.mem_append_left _ hg
  · rwa [put_sent_ne hx]

theorem deliver_eq (now : Nat) (hlive : (c.ends x).life = .live) (hsent : g ∈ c.sent x.other) :
    connStep c (.deliver x now g) = c.put x
      { c.ends x with
        sock := (tcpReceive now (c.ends x).sock g).sock
        life := lifeAfter (tcpReceive now (c.ends x).sock g).free }
      (tcpReceive now (c.ends x).sock g).out := by
  rw [connStep, if_pos ⟨hlive, hsent⟩]
  rfl

theorem write_eq (now : Nat) (data : List UInt8) (hlive : (c.ends x).life = .live)
    (hopen : (c.ends x).closed = false) :
    connStep c (.write x now data) = c.put x
      { c.ends x with
        sock := (tcpWrite now (c.ends x).sock data 0).1
        wrote := (c.ends x).wrote ++
          acceptedBytes data 0 (tcpWrite now (c.ends x).sock data 0).2.2
        writers := (c.ends x).writers ++ sleeping (tcpWrite now (c.ends x).sock data 0).2.2 }
      (tcpWrite now (c.ends x).sock data 0).2.1 := by
  rw [connStep, if_pos ⟨hlive, hopen⟩]
  rfl

theorem read_eq (count : Nat) (hlive : (c.ends x).life = .live) :
    connStep c (.read x count) = c.put x
      { c.ends x with
        sock := (tcpRead (c.ends x).sock count).1
        got := (c.ends x).got ++ returnedBytes (tcpRead (c.ends x).sock count).2.2 }
      (tcpRead (c.ends x).sock count).2.1 := by
  rw [connStep, if_pos hlive]
  rfl

theorem close_eq (now : Nat) (hlive : (c.ends x).life = .live)
    (hopen : (c.ends x).closed = false) :
    connStep c (.close x now) = c.put x
      { c.ends x with
        sock := (tcpClose now (c.ends x).sock).sock
        life := lifeAfter (tcpClose now (c.ends x).sock).free
        closed := true }
      (tcpClose now (c.ends x).sock).out := by
  rw [connStep, if_pos ⟨hlive, hopen⟩]

theorem tick_eq (now : Nat) (hlive : (c.ends x).life = .live) :
    connStep c (.tick x now) = c.put x
      { c.ends x with
        sock := (tcpTick now (c.ends x).sock).sock
        life := lifeAfter (tcpTick now (c.ends x).sock).free }
      (tcpTick now (c.ends x).sock).out := by
  rw [connStep, if_pos hlive]
  rfl

theorem resume_eq (now j : Nat) {rest : List UInt8} {written : Nat}
    (hlive : (c.ends x).life = .live) (hwriter : (c.ends x).writers[j]? = some (rest, written)) :
    connStep c (.resume x now j) = c.put x
      { c.ends x with
        sock := (tcpWrite now (c.ends x).sock rest written).1
        wrote := (c.ends x).wrote ++
          acceptedBytes rest written (tcpWrite now (c.ends x).sock rest written).2.2
        writers := (c.ends x).writers.eraseIdx j ++
          sleeping (tcpWrite now (c.ends x).sock rest written).2.2 }
      (tcpWrite now (c.ends x).sock rest written).2.1 := by
  rw [connStep, if_pos hlive, hwriter]
  rfl

end At

/-- One round: `k` bytes are written, delivered and acknowledged. -/
theorem At.round {m : Nat} (h : At c (roundEndA n w m) (roundEndB n)) (hk : 0 < k)
    (hmss : k ≤ tcpMss) (hw : k ≤ w.toNat) (hn : n + k ≤ tcpRxSize) :
    ∃ c', At c' (roundEndA (n + k) (roundWindow (n + k)).toUInt32 600) (roundEndB (n + k)) ∧
      roundAck n k ∈ c'.sent .b := by
  simp only [tcpRxSize] at hn
  have hshort : (List.replicate (n + k) (0 : UInt8)).length < 2 ^ 31 := by
    rw [List.length_replicate]
    omega
  have hacc : List.replicate n (0 : UInt8) ++ acceptedBytes (List.replicate k 0) 0 (.code k) =
      List.replicate (n + k) 0 := by
    simp [acceptedBytes]
  have h1 : connStep c (.write .a 0 (List.replicate k 0)) = c.put .a
      { roundEndA n w m with sock := roundSockSent n k w m, wrote := List.replicate (n + k) 0 }
      [tcpSendSegment (tcpQueueTx (roundSockA n w m) (List.replicate k 0))
          (1001 + .ofNat n) (tcpAck ||| tcpPsh) (List.replicate k 0)] := by
    have hsock : (roundEndA n w m).sock = roundSockA n w m := rfl
    have hwrote : (roundEndA n w m).wrote = List.replicate n 0 := rfl
    rw [write_eq _ _ (by rw [h.a]; rfl) (by rw [h.a]; rfl), h.a, hsock,
      tcpWrite_round hk hmss hw, hwrote, hacc]
    rfl
  have at1 := h.stepA h1 hshort
  have h2 : connStep (connStep c (.write .a 0 (List.replicate k 0)))
      (.deliver .b 0 (roundData n k)) = _ :=
    deliver_eq 0 (by rw [at1.b]; rfl) (sent_new h1 (List.mem_singleton.mpr rfl))
  have hsock : (roundEndB n).sock = roundSockB n := rfl
  rw [at1.b, hsock, tcpReceive_roundData hk hn] at h2
  have at2 := at1.stepB (e := roundEndB (n + k)) h2 h.shortB
  have h3 : connStep _ (.deliver .a 0 (roundAck n k)) = _ :=
    deliver_eq 0 (by rw [at2.a]; rfl) (sent_new h2 (List.mem_singleton.mpr rfl))
  rw [at2.a] at h3
  rw [tcpReceive_roundAck hk hmss] at h3
  exact ⟨_, at2.stepA (e := roundEndA (n + k) (roundWindow (n + k)).toUInt32 600) h3 hshort,
    sent_old h3 (sent_new h2 (List.mem_singleton.mpr rfl))⟩

/-- The handshake, with a writer that falls asleep before it is over. -/
def openingActs : List Act :=
  [.connect 0 false zeros zeros 1 80 4000 1000, .write .a 0 [0],
    .passiveOpen 0 zeros zeros 0 80 2 ⟨4000, 80, 1000, 0, tcpSyn, 65535, []⟩ 5000,
    .accept false, .deliver .a 0 ⟨80, 4000, 5000, 1001, tcpSyn ||| tcpAck, 65535, []⟩,
    .deliver .b 0 ⟨4000, 80, 1001, 5001, tcpAck, 65535, []⟩]

theorem at_opening : At (connMachine.run {} openingActs)
    (roundEndA 0 (roundWindow 0).toUInt32 1000) (roundEndB 0) := by
  refine ⟨?_, rfl, rfl, by decide, by decide⟩
  refine .step _ (.step _ (.step _ (.step _ (.step _ (.step _ (.start rfl) ?_) ?_) ?_) ?_) ?_)
    ?_ <;> intro x <;> cases x <;> decide +kernel

/-- After `j + 1` rounds of 1024 bytes. -/
theorem at_rounds (j : Nat) (hj : j < 128) :
    ∃ c, At c (roundEndA (1024 * j + 1024) (roundWindow (1024 * j + 1024)).toUInt32 600)
      (roundEndB (1024 * j + 1024)) ∧ roundAck (1024 * j) 1024 ∈ c.sent .b := by
  induction j with
  | zero => exact at_opening.round (k := 1024) (by decide) (by decide) (by decide) (by decide)
  | succ j ih =>
      obtain ⟨c, hat, -⟩ := ih (by omega)
      have hw : 1024 ≤ (roundWindow (1024 * j + 1024)).toUInt32.toNat := by
        simp only [roundWindow, UInt16.toNat_toUInt32, UInt16.toNat_ofNat', tcpRxSize]
        omega
      exact hat.round (k := 1024) (by decide) (by decide) hw (by
        simp only [tcpRxSize]
        omega)

/-! ## The late write -/

/-- Both sides once the ring is full. -/
def fullA : InetSocket := roundSockA tcpRxSize (roundWindow tcpRxSize).toUInt32 600
def fullB : InetSocket := roundSockB tcpRxSize

/-- The acknowledgement of the last round; its window is zero. -/
def staleAck : TcpSegment := roundAck 130048 1024

/-- Side `b` reads everything and tells `a`. -/
def drainedB : InetSocket := (tcpRead fullB tcpRxSize).1
def windowUpdate : TcpSegment := (tcpSendAck drainedB).seg
def updatedA : InetSocket := (tcpReceive 0 fullA windowUpdate).sock

/-- Side `a` writes two more bytes and closes. -/
def wroteA : InetSocket := (tcpWrite 0 updatedA [0, 0] 0).1
def lastData : TcpSegment := ⟨4000, 80, 1001 + 131072, 5001, tcpAck ||| tcpPsh, 65535, [0, 0]⟩
def closedA : InetSocket := (tcpClose 0 wroteA).sock
def lastFin : TcpSegment := ⟨4000, 80, 1001 + 131074, 5001, tcpAck ||| tcpFin, 65535, []⟩

/-- Side `b` takes and reads it all. -/
def tookB : InetSocket := (tcpReceive 0 drainedB lastData).sock
def endedB : InetSocket := (tcpReceive 0 tookB lastFin).sock
def finalB : InetSocket := (tcpRead endedB 2).1

/-- The stale acknowledgement and the timeout leave `a` in ESTABLISHED. -/
def shrunkA : InetSocket := (tcpReceive 0 closedA staleAck).sock
def revivedA : InetSocket := (tcpTick 600 shrunkA).sock
def finalA : InetSocket := (tcpWrite 600 revivedA [0] 0).1

/-- The bytes of the rounds. -/
def roundBytes : List UInt8 := List.replicate 131072 0

/-- Side `a` with its sleeping writer. -/
def lateA (s : InetSocket) (closed : Bool) (wrote : List UInt8) : Endpoint where
  sock := s
  life := .live
  closed := closed
  writers := [([0], 0)]
  wrote := wrote

def lateB (s : InetSocket) (got : List UInt8) : Endpoint where
  sock := s
  life := .live
  got := got

def finalEndA : Endpoint where
  sock := finalA
  life := .live
  closed := true
  wrote := roundBytes ++ [0, 0] ++ [0]

/-- What side `b` reads out of the full ring. -/
def fullRead : List UInt8 := Buf.ringRead tcpRxSize zeros 0 tcpRxSize

def finalEndB : Endpoint := lateB finalB (fullRead ++ [0, 0])

theorem tcpRead_fullB : (tcpRead fullB tcpRxSize).2.2 = .bytes fullRead := by
  have hcount : fullB.rxCount = tcpRxSize := rfl
  have hrx : fullB.rx = zeros := rfl
  have hhead : fullB.rxHead = 0 := rfl
  rw [tcpRead, if_neg (by decide), if_pos (by decide)]
  simp only [hcount, hrx, hhead, Nat.min_self, fullRead]

theorem length_fullRead : fullRead.length = 131072 := by
  simp [fullRead, Buf.ringRead]

theorem late_calls :
    windowUpdate ∈ (tcpRead fullB tcpRxSize).2.1.map Emission.seg ∧
      (tcpReceive 0 fullA windowUpdate).free = false ∧
      (tcpWrite 0 updatedA [0, 0] 0).2.2 = .code 2 ∧
      lastData ∈ (tcpWrite 0 updatedA [0, 0] 0).2.1.map Emission.seg ∧
      (tcpClose 0 wroteA).free = false ∧
      lastFin ∈ (tcpClose 0 wroteA).out.map Emission.seg ∧
      (tcpReceive 0 drainedB lastData).free = false ∧
      (tcpReceive 0 tookB lastFin).free = false ∧
      (tcpRead endedB 2).2.2 = .bytes [0, 0] ∧
      (tcpReceive 0 closedA staleAck).free = false ∧
      (tcpTick 600 shrunkA).free = false ∧
      (tcpWrite 600 revivedA [0] 0).2.2 = .code 1 := by
  decide +kernel

theorem short_tail {l : List UInt8} (h : l.length ≤ 3) : (roundBytes ++ l).length < 2 ^ 31 := by
  rw [List.length_append, roundBytes, List.length_replicate]
  omega

theorem short_rounds : roundBytes.length < 2 ^ 31 := by
  rw [roundBytes, List.length_replicate]
  omega

theorem lateA_short (s : InetSocket) (closed : Bool) {l : List UInt8} (h : l.length ≤ 3) :
    (lateA s closed (roundBytes ++ l)).wrote.length < 2 ^ 31 :=
  short_tail h

theorem lateB_short (s : InetSocket) (got : List UInt8) : (lateB s got).wrote.length < 2 ^ 31 := by
  simp [lateB]

/-- Side `b` drains its ring and `a` hears of it. -/
theorem at_updated : ∃ c, At c (lateA updatedA false roundBytes) (lateB drainedB fullRead) ∧
    staleAck ∈ c.sent .b := by
  obtain ⟨f1, f2, -⟩ := late_calls
  obtain ⟨c, at0, hstale⟩ := at_rounds 127 (by decide)
  have hA : roundEndA (1024 * 127 + 1024) (roundWindow (1024 * 127 + 1024)).toUInt32 600 =
      lateA fullA false roundBytes := rfl
  have hB : roundEndB (1024 * 127 + 1024) = lateB fullB [] := rfl
  rw [hA, hB] at at0
  have h1 := read_eq (c := c) (x := .b) tcpRxSize (by rw [at0.b]; rfl)
  have hsockB : (lateB fullB []).sock = fullB := rfl
  have hread : ∀ got data : List UInt8, { lateB fullB got with
      sock := (tcpRead fullB tcpRxSize).1, got := got ++ data } =
      lateB drainedB (got ++ data) := fun _ _ => rfl
  rw [at0.b, hsockB, tcpRead_fullB] at h1
  have h1 := h1.trans (congrArg (fun e => Conn.put c .b e _) (hread [] fullRead))
  rw [List.nil_append] at h1
  have at1 := at0.stepB (e := lateB drainedB fullRead) h1 (lateB_short _ _)
  have h2 := deliver_eq (x := .a) 0 (by rw [at1.a]; rfl) (sent_new h1 f1)
  have hsock : (lateA fullA false roundBytes).sock = fullA := rfl
  rw [at1.a, hsock, f2] at h2
  exact ⟨_, at1.stepA (e := lateA updatedA false roundBytes) h2 short_rounds,
    sent_old h2 (sent_old h1 hstale)⟩

/-- Side `a` writes two more bytes and closes. -/
theorem at_closed : ∃ c, At c (lateA closedA true (roundBytes ++ [0, 0])) (lateB drainedB fullRead) ∧
    staleAck ∈ c.sent .b ∧ lastData ∈ c.sent .a ∧ lastFin ∈ c.sent .a := by
  obtain ⟨-, -, f3, f4, f5, f6, -⟩ := late_calls
  obtain ⟨c, at0, hstale⟩ := at_updated
  have h1 := write_eq (c := c) (x := .a) 0 [0, 0] (by rw [at0.a]; rfl)
    (by rw [at0.a]; rfl)
  have hsock : (lateA updatedA false roundBytes).sock = updatedA := rfl
  rw [at0.a, hsock, f3] at h1
  have at1 := at0.stepA (e := lateA wroteA false (roundBytes ++ [0, 0])) h1
    (lateA_short _ _ (by decide))
  have h2 := close_eq (x := .a) 0 (by rw [at1.a]; rfl) (by rw [at1.a]; rfl)
  have hsock' : (lateA wroteA false (roundBytes ++ [0, 0])).sock = wroteA := rfl
  rw [at1.a, hsock', f5] at h2
  exact ⟨_, at1.stepA (e := lateA closedA true (roundBytes ++ [0, 0])) h2
    (lateA_short _ _ (by decide)),
    sent_old h2 (sent_old h1 hstale), sent_old h2 (sent_new h1 f4), sent_new h2 f6⟩

/-- Side `b` takes both bytes and the FIN, and reads the bytes. -/
theorem at_ended : ∃ c, At c (lateA closedA true (roundBytes ++ [0, 0])) finalEndB ∧
    staleAck ∈ c.sent .b := by
  obtain ⟨-, -, -, -, -, -, f7, f8, f9, -⟩ := late_calls
  obtain ⟨c, at0, hstale, hdata, hfin⟩ := at_closed
  have h1 := deliver_eq (x := .b) 0 (by rw [at0.b]; rfl) hdata
  have hsock : (lateB drainedB fullRead).sock = drainedB := rfl
  rw [at0.b, hsock, f7] at h1
  have at1 := at0.stepB (e := lateB tookB fullRead) h1 (lateB_short _ _)
  have h2 := deliver_eq (x := .b) 0 (by rw [at1.b]; rfl) (sent_old h1 hfin)
  have hsock' : (lateB tookB fullRead).sock = tookB := rfl
  rw [at1.b, hsock', f8] at h2
  have at2 := at1.stepB (e := lateB endedB fullRead) h2 (lateB_short _ _)
  have h3 := read_eq (x := .b) 2 (by rw [at2.b]; rfl)
  have hsock'' : (lateB endedB fullRead).sock = endedB := rfl
  rw [at2.b, hsock'', f9] at h3
  exact ⟨_, at2.stepB (e := finalEndB) h3 (lateB_short _ _),
    sent_old h3 (sent_old h2 (sent_old h1 hstale))⟩

/-- The stale acknowledgement, the timeout, and the writer that wakes up. -/
theorem at_final : ∃ c, At c finalEndA finalEndB := by
  obtain ⟨-, -, -, -, -, -, -, -, -, f10, f11, f12⟩ := late_calls
  obtain ⟨c, at0, hstale⟩ := at_ended
  have h1 := deliver_eq (x := .a) 0 (by rw [at0.a]; rfl) hstale
  have hsock : (lateA closedA true (roundBytes ++ [0, 0])).sock = closedA := rfl
  rw [at0.a, hsock, f10] at h1
  have at1 := at0.stepA (e := lateA shrunkA true (roundBytes ++ [0, 0])) h1
    (lateA_short _ _ (by decide))
  have h2 := tick_eq (x := .a) 600 (by rw [at1.a]; rfl)
  have hsock' : (lateA shrunkA true (roundBytes ++ [0, 0])).sock = shrunkA := rfl
  rw [at1.a, hsock', f11] at h2
  have at2 := at1.stepA (e := lateA revivedA true (roundBytes ++ [0, 0])) h2
    (lateA_short _ _ (by decide))
  have h3 := resume_eq (x := .a) 600 0 (by rw [at2.a]; rfl)
    (show _ = some ([0], 0) by rw [at2.a]; rfl)
  have hsock'' : (lateA revivedA true (roundBytes ++ [0, 0])).sock = revivedA := rfl
  rw [at2.a, hsock'', f12] at h3
  refine ⟨_, at2.stepA (e := finalEndA) h3 ?_⟩
  show (roundBytes ++ [0, 0] ++ [0]).length < 2 ^ 31
  rw [List.append_assoc]
  exact short_tail (by decide)

theorem length_finalA : finalEndA.wrote.length = 131075 := by
  show (roundBytes ++ [0, 0] ++ [0]).length = 131075
  rw [List.length_append, List.length_append, roundBytes, List.length_replicate]
  rfl

theorem length_finalB : finalEndB.got.length = 131074 := by
  show (fullRead ++ [0, 0]).length = 131074
  rw [List.length_append, length_fullRead]
  rfl

theorem reportsEnd_finalB : ReportsEnd finalEndB := by
  have hfin : finalB.finReceived = true := by decide +kernel
  have hread : (tcpRead finalB 1).2.2 = .code 0 := by decide +kernel
  exact ⟨hfin, 1, hread⟩

/-- **The end of the stream is reported too early.**  In a run with few bytes,
side `b` is told that the stream has ended while a byte that side `a` accepted
has not been returned. -/
theorem late_write_after_end :
    ¬ ∀ c, connMachine.Reachable FewBytes c → ∀ x y : Side, y ≠ x →
      (c.ends y).got <+: (c.ends x).wrote ∧
        (ReportsEnd (c.ends y) → (c.ends y).got = (c.ends x).wrote) := by
  intro hall
  obtain ⟨c, hat⟩ := at_final
  have hends : ReportsEnd (c.ends .b) := by
    rw [hat.b]
    exact reportsEnd_finalB
  have heq := (hall c hat.reachable .a .b (by decide)).2 hends
  rw [hat.a, hat.b] at heq
  have hlen : finalEndB.got.length = finalEndA.wrote.length := by rw [heq]
  rw [length_finalA, length_finalB] at hlen
  exact absurd hlen (by decide)

end Stream
