import StrawOS.Inet.ControlBlockRun

/-!
# Which segments are acknowledged

`inet_tcp_deliver` answers a segment at once when it carries payload or when its
FIN is taken.  Any other answer is a by-product of `tcp_output`: every segment
that it sends carries the receive position too.  A retransmitted SYN|ACK and
a retransmitted FIN are not answered, unless there is something to send.
-/

namespace Inet

/-- The segment takes up sequence numbers. -/
def OccupiesSequence (seg : TcpSegment) : Prop :=
  seg.payload ≠ [] ∨ hasFlag seg.flags tcpSyn = true ∨ hasFlag seg.flags tcpFin = true

/-- Some segment of the list acknowledges everything up to `rcvNxt`. -/
def Acknowledges (out : List Emission) (rcvNxt : UInt32) : Prop :=
  ∃ e ∈ out, hasFlag e.seg.flags tcpAck = true ∧ e.seg.ack = rcvNxt

/-! ## The segments of `tcp_output` -/

theorem tcpSendSegment_acknowledges (s : InetSocket) (seq : UInt32) {flags : UInt8}
    (data : List UInt8) (h : hasFlag flags tcpAck = true) :
    hasFlag (tcpSendSegment s seq flags data).seg.flags tcpAck = true ∧
      (tcpSendSegment s seq flags data).seg.ack = s.rcvNxt :=
  ⟨h, by simp [tcpSendSegment, h]⟩

/-- Every segment of `tcp_output` is an acknowledgement of what has been
received, and none of them moves the receive position. -/
theorem tcpOutput_acknowledges (now : Nat) (s : InetSocket) :
    (tcpOutput now s).1.rcvNxt = s.rcvNxt ∧
      ∀ e ∈ (tcpOutput now s).2, hasFlag e.seg.flags tcpAck = true ∧ e.seg.ack = s.rcvNxt := by
  apply tcpOutput_induct (P := fun s' out => s'.rcvNxt = s.rcvNxt ∧
    ∀ e ∈ out, hasFlag e.seg.flags tcpAck = true ∧ e.seg.ack = s.rcvNxt) now s
  · exact ⟨rfl, by simp⟩
  · intro s' out h _ _
    refine ⟨h.1, fun e he => ?_⟩
    rcases List.mem_append.mp he with he | he
    · exact h.2 e he
    · obtain rfl := List.mem_singleton.mp he
      have hack := tcpSendSegment_acknowledges s' s'.sndNxt
        (Buf.read s'.tx (tcpInFlight s').toNat (tcpSegmentLen s'))
        (show hasFlag (tcpAck ||| tcpPsh) tcpAck = true from rfl)
      exact ⟨hack.1, hack.2.trans h.1⟩
  · intro s' out h _ _
    refine ⟨h.1, fun e he => ?_⟩
    rcases List.mem_append.mp he with he | he
    · exact h.2 e he
    · obtain rfl := List.mem_singleton.mp he
      have hack := tcpSendSegment_acknowledges { s' with finSeq := s'.sndNxt } s'.sndNxt []
        (show hasFlag (tcpAck ||| tcpFin) tcpAck = true from rfl)
      exact ⟨hack.1, hack.2.trans h.1⟩
  · exact fun s' out h => h

/-- `tcp_output` sends nothing exactly when there is neither room for data nor
a FIN due. -/
theorem tcpOutput_eq_nil_iff (now : Nat) (s : InetSocket) :
    (tcpOutput now s).2 = [] ↔
      ¬ (s.state.sends = true ∧ (tcpOutputStops s = false ∨ tcpFinDue s = true)) := by
  by_cases hs : s.state.sends = true
  · by_cases hstop : tcpOutputStops s = true
    · have hloop : tcpOutputLoop s.txCount s = (s, []) := by
        cases s.txCount with
        | zero => rfl
        | succ n => rw [tcpOutputLoop_succ, if_pos hstop]
      by_cases hfin : tcpFinDue s = true
      · simp [tcpOutput, hs, hloop, tcpOutputFin, hfin, tcpSendFin]
      · simp [tcpOutput, hs, hloop, tcpOutputFin, hfin, hstop]
    · have hstop : tcpOutputStops s = false := by simpa using hstop
      obtain ⟨n, hn⟩ : ∃ n, s.txCount = n + 1 :=
        Nat.exists_eq_succ_of_ne_zero (by have := (tcpOutputStops_eq_false.mp hstop).1; omega)
      have hcons : (tcpOutputLoop s.txCount s).2 ≠ [] := by
        rw [hn, tcpOutputLoop_succ, if_neg (by simp [hstop])]
        simp
      simp [tcpOutput, hs, hstop, hcons]
  · simp [tcpOutput, hs]

/-! ## When output is due -/

/-- The control block with the acknowledgement and the window of a segment taken
into account: what `tcp_output` will find to send depends on nothing else. -/
def tcpSettled (s : InetSocket) (seg : TcpSegment) : InetSocket :=
  let advances := hasFlag seg.flags tcpAck && tcpAckAdvances s seg.ack
  { s with
    sndUna := if advances then seg.ack else s.sndUna
    txCount := if advances then s.txCount - tcpDataAcked s seg.ack else s.txCount
    sndWnd := if hasFlag seg.flags tcpAck then seg.window.toUInt32 else s.sndWnd }

/-- Unsent bytes that fit the peer's window, or a FIN that is due. -/
def OutputDue (s : InetSocket) (seg : TcpSegment) : Prop :=
  s.state.sends = true ∧
    (tcpOutputStops (tcpSettled s seg) = false ∨ tcpFinDue (tcpSettled s seg) = true)

/-- The segment is a FIN at the receive position, and the first one. -/
def FinInOrder (s : InetSocket) (seg : TcpSegment) : Prop :=
  hasFlag seg.flags tcpFin = true ∧ seg.seq = s.rcvNxt ∧ s.finReceived = false

instance (s : InetSocket) (seg : TcpSegment) : Decidable (OutputDue s seg) :=
  inferInstanceAs (Decidable (_ ∧ _))

instance (s : InetSocket) (seg : TcpSegment) : Decidable (FinInOrder s seg) :=
  inferInstanceAs (Decidable (_ ∧ _))

instance (seg : TcpSegment) : Decidable (OccupiesSequence seg) :=
  inferInstanceAs (Decidable (_ ∨ _))

/-- `tcp_output` looks at a control block through these fields only. -/
theorem tcpSettled_due (now : Nat) (s : InetSocket) (seg : TcpSegment) :
    tcpOutputStops (tcpProcessAck now s seg) = tcpOutputStops (tcpSettled s seg) ∧
      tcpFinDue (tcpProcessAck now s seg) = tcpFinDue (tcpSettled s seg) := by
  unfold tcpProcessAck tcpSettled
  cases hasFlag seg.flags tcpAck with
  | false => exact ⟨rfl, rfl⟩
  | true =>
      cases tcpAckAdvances s seg.ack with
      | false => exact ⟨rfl, rfl⟩
      | true => exact ⟨rfl, rfl⟩

theorem tcpProcessAck_receive (now : Nat) (s : InetSocket) (seg : TcpSegment) :
    (tcpProcessAck now s seg).rcvNxt = s.rcvNxt ∧
      (tcpProcessAck now s seg).finReceived = s.finReceived := by
  unfold tcpProcessAck
  split
  · split <;> exact ⟨rfl, rfl⟩
  · exact ⟨rfl, rfl⟩

/-! ## A segment on an open connection -/

theorem tcpFinArrives_of_bare {s : InetSocket} {seg : TcpSegment} (hp : seg.payload = []) :
    tcpFinArrives s seg = true ↔ FinInOrder s seg := by
  simp [tcpFinArrives, FinInOrder, hp, and_assoc]

/-- Payload is always answered; a segment without payload is answered at once
only for the FIN it brings. -/
theorem tcpProcessText_ack_due (s : InetSocket) (seg : TcpSegment) :
    (tcpProcessText s seg).2 = true ↔ seg.payload ≠ [] ∨ FinInOrder s seg := by
  by_cases hp : seg.payload = []
  · have hdata : tcpProcessData s seg = s := by simp [tcpProcessData, hp]
    by_cases hfin : tcpFinArrives s seg = true
    · have hyes : FinInOrder s seg := (tcpFinArrives_of_bare hp).mp hfin
      simp [tcpProcessText, hdata, hfin, hyes]
    · have hno : ¬ FinInOrder s seg := mt (tcpFinArrives_of_bare hp).mpr hfin
      simp [tcpProcessText, hdata, hp, hfin, hno]
  · unfold tcpProcessText
    dsimp only
    split <;> simp [hp]

theorem tcpProcessText_of_no_ack {s : InetSocket} {seg : TcpSegment}
    (h : (tcpProcessText s seg).2 = false) : (tcpProcessText s seg).1 = s := by
  have hne := mt (tcpProcessText_ack_due s seg).mpr (by simp [h])
  rw [not_or, not_not] at hne
  obtain ⟨hp, hfin⟩ := hne
  have hdata : tcpProcessData s seg = s := by simp [tcpProcessData, hp]
  have harr : tcpFinArrives s seg = false := by
    rw [Bool.eq_false_iff]
    intro harr
    exact hfin ((tcpFinArrives_of_bare hp).mp harr)
  simp [tcpProcessText, hdata, harr]

/-- **The answer to one segment.** -/
theorem tcpReceiveOpen_acknowledges (now : Nat) (s : InetSocket) (seg : TcpSegment)
    (hkept : (tcpReceiveOpen now s seg).free = false) :
    Acknowledges (tcpReceiveOpen now s seg).out (tcpReceiveOpen now s seg).sock.rcvNxt ↔
      seg.payload ≠ [] ∨ FinInOrder s seg ∨ OutputDue s seg := by
  obtain ⟨hrcv, hfinr⟩ := tcpProcessAck_receive now s seg
  have hsame : FinInOrder (tcpProcessAck now s seg) seg ↔ FinInOrder s seg := by
    simp only [FinInOrder, hrcv, hfinr]
  have hdue := tcpProcessText_ack_due (tcpProcessAck now s seg) seg
  have hrest : ¬ (((tcpProcessText (tcpProcessAck now s seg) seg).1.state = .done ∧
      (tcpProcessText (tcpProcessAck now s seg) seg).1.sndUna =
        (tcpProcessText (tcpProcessAck now s seg) seg).1.sndNxt ∧
      (tcpProcessText (tcpProcessAck now s seg) seg).1.orphan = true)) := by
    intro hfree
    simp only [tcpReceiveOpen, if_pos hfree] at hkept
    exact absurd hkept (by simp)
  simp only [tcpReceiveOpen, if_neg hrest]
  obtain ⟨hpos, hall⟩ := tcpOutput_acknowledges now
    (tcpProcessText (tcpProcessAck now s seg) seg).1
  rw [hpos]
  by_cases hack : (tcpProcessText (tcpProcessAck now s seg) seg).2 = true
  · rw [hack]
    have hyes := hdue.mp hack
    rw [hsame] at hyes
    have hsent := tcpSendSegment_acknowledges
      (tcpProcessText (tcpProcessAck now s seg) seg).1
      (tcpProcessText (tcpProcessAck now s seg) seg).1.sndNxt []
      (show hasFlag tcpAck tcpAck = true from rfl)
    refine iff_of_true ⟨_, List.mem_append_left _ (List.mem_singleton_self _), hsent⟩ ?_
    rcases hyes with h | h
    · exact .inl h
    · exact .inr (.inl h)
  · have hack : (tcpProcessText (tcpProcessAck now s seg) seg).2 = false := by simpa using hack
    have hno := mt hdue.mpr (by simp [hack])
    rw [hsame, not_or] at hno
    have hstate := tcpProcessAck_state now s seg
    rw [tcpProcessText_of_no_ack hack] at hall ⊢
    have hnil := tcpOutput_eq_nil_iff now (tcpProcessAck now s seg)
    rw [hstate, (tcpSettled_due now s seg).1, (tcpSettled_due now s seg).2] at hnil
    rw [hack]
    constructor
    · rintro ⟨e, he, -⟩
      by_contra hnone
      have hout : (tcpOutput now (tcpProcessAck now s seg)).2 = [] := by
        apply hnil.mpr
        intro hod
        exact hnone (.inr (.inr hod))
      simp [hout] at he
    · rintro (h | h | h)
      · exact absurd h hno.1
      · exact absurd h hno.2
      · have hne : (tcpOutput now (tcpProcessAck now s seg)).2 ≠ [] := fun h0 => hnil.mp h0 h
        obtain ⟨e, he⟩ := List.exists_mem_of_ne_nil _ hne
        exact ⟨e, by simpa using he, hall e he⟩

/-! ## A segment that reaches the table -/

theorem tcpReceive_of_synchronized (now : Nat) {s : InetSocket} {seg : TcpSegment}
    (hsync : s.state = .established ∨ s.state = .finWait ∨ s.state = .closeWait ∨
      s.state = .done)
    (hrst : hasFlag seg.flags tcpRst = false) :
    tcpReceive now s seg = tcpReceiveOpen now s seg := by
  unfold tcpReceive
  rcases hsync with h | h | h | h <;> simp [hrst, h]

theorem tcpReceiveOpen_not_accepted (now : Nat) (s : InetSocket) (seg : TcpSegment) :
    (tcpReceiveOpen now s seg).accepted = false := by
  unfold tcpReceiveOpen
  dsimp only
  split <;> rfl

/-- A segment on a synchronized connection that neither resets nor frees it. -/
structure Arrives (env : Env) (st : State) (srcIp : Ipv4Addr) (data : List UInt8)
    (seg : TcpSegment) (i : SockId) : Prop where
  parse : tcpParse data = some seg
  find : inetFindTcp st.sockets srcIp seg.srcPort seg.dstPort = some i
  sync : (st.sockets i).state = .established ∨ (st.sockets i).state = .finWait ∨
    (st.sockets i).state = .closeWait ∨ (st.sockets i).state = .done
  noRst : hasFlag seg.flags tcpRst = false
  kept : (tcpReceive env.now (st.sockets i) seg).free = false

theorem Arrives.deliver {env : Env} {st : State} {srcIp : Ipv4Addr} {data : List UInt8}
    {seg : TcpSegment} {i : SockId} (h : Arrives env st srcIp data seg i) :
    inetTcpDeliver env st srcIp data =
      (⟨Function.update st.sockets i (tcpReceiveOpen env.now (st.sockets i) seg).sock,
          st.nextPort⟩,
        (tcpReceiveOpen env.now (st.sockets i) seg).out) := by
  have hopen := tcpReceive_of_synchronized env.now h.sync h.noRst
  have hkept := h.kept
  rw [hopen] at hkept
  simp only [inetTcpDeliver, h.parse, tcpSegmentArrives, h.find, hopen, applyReaction, hkept]
  simp [storeReaction, tcpReceiveOpen_not_accepted]

/-- **Acknowledgements.**  On a synchronized connection, a segment without RST
that does not free the socket is answered with the current receive position if
and only if it carries payload, brings the FIN, or finds output due. -/
theorem acknowledged_iff (env : Env) (st : State) (srcIp : Ipv4Addr) (data : List UInt8)
    (seg : TcpSegment) (i : SockId) (h : Arrives env st srcIp data seg i) :
    Acknowledges (inetTcpDeliver env st srcIp data).2
        ((inetTcpDeliver env st srcIp data).1.sockets i).rcvNxt ↔
      seg.payload ≠ [] ∨ FinInOrder (st.sockets i) seg ∨ OutputDue (st.sockets i) seg := by
  have hkept := h.kept
  rw [tcpReceive_of_synchronized env.now h.sync h.noRst] at hkept
  rw [h.deliver]
  simpa using tcpReceiveOpen_acknowledges env.now (st.sockets i) seg hkept

/-- Two bytes for the idle connection. -/
def textSegment : TcpSegment := ⟨80, 49152, 5001, 1001, tcpAck, 65535, [104, 105]⟩

theorem textSegment_arrives :
    Arrives bootEnv (inetMachine.run {} handshakeRun) samplePeer (tcpLayout textSegment 0)
      textSegment 0 where
  parse := tcpParse_tcpLayout _ 0
  find := by decide +kernel
  sync := .inl (by decide +kernel)
  noRst := by decide
  kept := by decide +kernel

/-- The idle connection acknowledges them. -/
theorem textSegment_acknowledged :
    Acknowledges
      (inetTcpDeliver bootEnv (inetMachine.run {} handshakeRun) samplePeer
        (tcpLayout textSegment 0)).2
      ((inetTcpDeliver bootEnv (inetMachine.run {} handshakeRun) samplePeer
        (tcpLayout textSegment 0)).1.sockets 0).rcvNxt :=
  (acknowledged_iff bootEnv _ samplePeer (tcpLayout textSegment 0) textSegment 0
    textSegment_arrives).mpr (.inl (by decide))

/-- The peer closes. -/
def finSegment : TcpSegment := ⟨80, 49152, 5001, 1001, tcpAck ||| tcpFin, 65535, []⟩

/-- The handshake, and the peer's FIN. -/
def peerClosedRun : List (Env × Op) :=
  handshakeRun ++ [(bootEnv, .tcpDeliver samplePeer (tcpLayout finSegment 0))]

theorem finSegment_arrives_again :
    Arrives bootEnv (inetMachine.run {} peerClosedRun) samplePeer (tcpLayout finSegment 0)
      finSegment 0 where
  parse := tcpParse_tcpLayout _ 0
  find := by decide +kernel
  sync := .inr (.inr (.inl (by decide +kernel)))
  noRst := by decide
  kept := by decide +kernel

/-- A FIN that the peer sends again because its acknowledgement was lost is not
answered. -/
theorem repeated_fin_unanswered :
    ¬ ∀ st, inetMachine.Reachable (fun _ _ => True) st → ∀ env srcIp data seg i,
      Arrives env st srcIp data seg i → OccupiesSequence seg →
        Acknowledges (inetTcpDeliver env st srcIp data).2
          ((inetTcpDeliver env st srcIp data).1.sockets i).rcvNxt := by
  intro hall
  have hreach : inetMachine.Reachable (fun _ _ => True) (inetMachine.run {} peerClosedRun) :=
    Machine.Reachable.run (.start rfl) _ fun _ _ _ _ => trivial
  obtain ⟨e, he, -⟩ := hall _ hreach bootEnv samplePeer (tcpLayout finSegment 0) finSegment 0
    finSegment_arrives_again (by decide)
  have hnone : (inetTcpDeliver bootEnv (inetMachine.run {} peerClosedRun) samplePeer
      (tcpLayout finSegment 0)).2.length = 0 := by decide +kernel
  rw [List.length_eq_zero_iff.mp hnone] at he
  simp at he

end Inet
