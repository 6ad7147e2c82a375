import StrawOS.Stream.Receiver

/-!
# The sending side of a stream

`Sending wrote s` ties the control block to the bytes accepted so far.  In a
synchronised state the transmit buffer holds those bytes from position `u` on,
`snd_una` is the sequence number of position `u` and `snd_nxt` that of a position
`v` not beyond the end, or one past it when the FIN is out.  Position `k` has the
sequence number `iss + 1 + k`.

Every segment sent from such a control block carries a slice of the accepted
bytes at its own position (`Carries`), and a FIN only behind the last of them.
-/

namespace Stream

open Inet

/-- The transmit buffer and the sequence numbers cover positions `u` to `v`. -/
structure Window (wrote : List UInt8) (s : InetSocket) (u v : Nat) : Prop where
  una : s.sndUna = s.iss + 1 + .ofNat u
  nxt : s.sndNxt = s.iss + 1 + .ofNat v
  low : u ≤ wrote.length
  order : u ≤ v
  count : s.txCount = wrote.length - u
  bytes : Buf.read s.tx 0 s.txCount = wrote.drop u
  high : s.finSent = false → v ≤ wrote.length
  fin : s.finSent = true → v = wrote.length + 1 ∧
    s.finSeq = s.iss + 1 + .ofNat wrote.length ∧ s.closeRequested = true

/-- Nothing but the SYN has been sent. -/
structure Opening (wrote : List UInt8) (s : InetSocket) : Prop where
  wrote : wrote = []
  txCount : s.txCount = 0
  finSent : s.finSent = false
  closeRequested : s.closeRequested = false
  nxt : s.sndNxt = s.iss + 1

/-- The control block of a sender that has accepted `wrote`. -/
structure Sending (wrote : List UInt8) (s : InetSocket) : Prop where
  opening : s.state = .synSent ∨ s.state = .synRcvd → Opening wrote s
  synced : s.state.synchronized = true → ∃ u v, Window wrote s u v

/-- What a segment of a sender that has accepted `wrote` may hold. -/
structure Carries (wrote : List UInt8) (iss : UInt32) (closing : Bool) (g : TcpSegment) :
    Prop where
  syn : hasFlag g.flags tcpSyn = true → g.seq = iss
  data : g.payload ≠ [] → ∃ k, g.seq = iss + 1 + .ofNat k ∧
    k + g.payload.length ≤ wrote.length ∧ g.payload = (wrote.drop k).take g.payload.length
  fin : hasFlag g.flags tcpFin = true →
    g.payload = [] ∧ g.seq = iss + 1 + .ofNat wrote.length ∧ closing = true

theorem Carries.bare {wrote : List UInt8} {iss : UInt32} {closing : Bool} {g : TcpSegment}
    (hsyn : hasFlag g.flags tcpSyn = false) (hdata : g.payload = [])
    (hfin : hasFlag g.flags tcpFin = false) : Carries wrote iss closing g :=
  ⟨by simp [hsyn], by simp [hdata], by simp [hfin]⟩

theorem Carries.bareAck {wrote : List UInt8} {iss : UInt32} {closing : Bool} (t : InetSocket) :
    Carries wrote iss closing (tcpSendAck t).seg :=
  .bare (by show hasFlag tcpAck tcpSyn = false; decide) rfl
    (by show hasFlag tcpAck tcpFin = false; decide)

/-- Accepting more keeps what was sent right, as long as that does not happen
after a close. -/
theorem Carries.extend {wrote acc : List UInt8} {iss : UInt32} {closing closing' : Bool}
    {g : TcpSegment} (h : Carries wrote iss closing g) (hacc : closing = true → acc = [])
    (hclosing : closing = true → closing' = true) : Carries (wrote ++ acc) iss closing' g := by
  refine ⟨h.syn, ?_, ?_⟩
  · intro hne
    obtain ⟨k, hseq, hle, hpay⟩ := h.data hne
    refine ⟨k, hseq, by rw [List.length_append]; omega, ?_⟩
    rw [List.drop_append_of_le_length (by omega),
      List.take_append_of_le_length (by rw [List.length_drop]; omega)]
    exact hpay
  · intro hfin
    obtain ⟨hpay, hseq, hcl⟩ := h.fin hfin
    rw [hacc hcl, List.append_nil]
    exact ⟨hpay, hseq, hclosing hcl⟩

variable {wrote : List UInt8} {s : InetSocket} {u v : Nat}

theorem Window.read (h : Window wrote s u v) {off n : Nat} (hn : off + n ≤ s.txCount) :
    Buf.read s.tx off n = (wrote.drop (u + off)).take n := by
  have hsplit : Buf.read s.tx off n = ((Buf.read s.tx 0 s.txCount).drop off).take n := by
    rw [Buf.drop_read, Buf.take_read, Nat.zero_add, Nat.min_eq_left (by omega)]
  rw [hsplit, h.bytes, List.drop_drop]

theorem Window.high_le (h : Window wrote s u v) : v ≤ wrote.length + 1 := by
  cases hfin : s.finSent with
  | false => exact (h.high hfin).trans (Nat.le_succ _)
  | true => exact (h.fin hfin).1.le

/-- The span from `snd_una` to `snd_nxt`. -/
theorem Window.span (h : Window wrote s u v) (hlen : wrote.length < 2 ^ 31) :
    (s.sndNxt - s.sndUna).toNat = v - u := by
  have hv := h.high_le
  rw [h.una, h.nxt, SeqNum.dist_of_le h.order (by omega)]

theorem Window.finSent_of_continues (h : Window wrote s u v) (hlen : wrote.length < 2 ^ 31)
    (hstop : tcpOutputStops s = false) : s.finSent = false := by
  by_contra hfin
  have hfin : s.finSent = true := by simpa using hfin
  obtain ⟨hv, -, -⟩ := h.fin hfin
  have hspan := h.span hlen
  have hlow := h.low
  have hpos : 0 < s.sndNxt - s.sndUna := by
    rw [UInt32.lt_iff_toNat_lt, hspan, UInt32.toNat_zero]
    omega
  have hflight : (tcpInFlight s).toNat = v - u - 1 := by
    rw [tcpInFlight, if_pos (by simp [hfin, hpos]), SeqNum.toNat_sub_one (by omega),
      hspan]
  have hlt := (tcpOutputStops_eq_false.mp hstop).1
  rw [hflight, h.count] at hlt
  omega

theorem Window.sentData (h : Window wrote s u v) (hlen : wrote.length < 2 ^ 31)
    (hstop : tcpOutputStops s = false) :
    Window wrote (tcpSentData s) u (v + tcpSegmentLen s) ∧
      Carries wrote s.iss s.closeRequested (tcpNextData s).seg := by
  have hfin := h.finSent_of_continues hlen hstop
  obtain ⟨-, -, hfit, -⟩ := tcpSegmentLen_bounds hstop
  have hflight : (tcpInFlight s).toNat = v - u := by
    rw [tcpInFlight_of_not_finSent hfin, h.span hlen]
  rw [hflight] at hfit
  have horder := h.order
  have hlow := h.low
  have hcount := h.count
  have hpay : Buf.read s.tx (tcpInFlight s).toNat (tcpSegmentLen s) =
      (wrote.drop v).take (tcpSegmentLen s) := by
    rw [hflight, h.read hfit, Nat.add_sub_cancel' horder]
  refine ⟨⟨h.una, ?_, h.low, by omega, h.count, h.bytes, fun _ => by omega, ?_⟩, ?_, ?_, ?_⟩
  · show s.sndNxt + .ofNat (tcpSegmentLen s) = _
    rw [h.nxt, SeqNum.pos_add]
    rfl
  · exact fun h0 => absurd (hfin.symm.trans h0) (by decide)
  · exact fun h0 => absurd h0 (by show hasFlag (tcpAck ||| tcpPsh) tcpSyn ≠ true; decide)
  · intro _
    refine ⟨v, h.nxt, ?_, ?_⟩
    · simp only [tcpNextData, tcpSendSegment, Buf.length_read]
      omega
    · simpa [tcpNextData, tcpSendSegment] using hpay
  · exact fun h0 => absurd h0 (by show hasFlag (tcpAck ||| tcpPsh) tcpFin ≠ true; decide)

theorem Window.sendFin (h : Window wrote s u v) (hlen : wrote.length < 2 ^ 31)
    (hdue : tcpFinDue s = true) :
    Window wrote (tcpSendFin s).1 u (wrote.length + 1) ∧
      ∀ e ∈ (tcpSendFin s).2, Carries wrote s.iss s.closeRequested e.seg := by
  simp only [tcpFinDue, Bool.and_eq_true, Bool.not_eq_true', decide_eq_true_eq] at hdue
  obtain ⟨⟨hclose, hfin⟩, hspan⟩ := hdue
  have hlow := h.low
  have horder := h.order
  have hv : v = wrote.length := by
    rw [h.span hlen, h.count] at hspan
    omega
  have hnxt : s.sndNxt = s.iss + 1 + .ofNat wrote.length := by rw [h.nxt, hv]
  refine ⟨⟨h.una, ?_, h.low, by omega, h.count, h.bytes, ?_, ?_⟩, ?_⟩
  · show s.sndNxt + 1 = _
    rw [hnxt, SeqNum.pos_succ]
    rfl
  · exact fun h0 => absurd h0 (by simp [tcpSendFin])
  · exact fun _ => ⟨rfl, hnxt, hclose⟩
  · intro e he
    obtain rfl : e = _ := by simpa [tcpSendFin] using he
    exact ⟨fun h0 => absurd h0 (by show hasFlag (tcpAck ||| tcpFin) tcpSyn ≠ true; decide),
      fun h0 => absurd rfl h0, fun _ => ⟨rfl, hnxt, hclose⟩⟩

/-! ## One call after the other -/

/-- A step of the sender: it keeps the initial sequence number, never takes a
close back, and everything it sends is right. -/
structure SenderStep (wrote : List UInt8) (s s' : InetSocket) (out : List Emission) : Prop where
  iss : s'.iss = s.iss
  closing : s'.closeRequested = s.closeRequested
  sending : Sending wrote s'
  carries : ∀ e ∈ out, Carries wrote s.iss s.closeRequested e.seg

theorem SenderStep.refl (h : Sending wrote s) : SenderStep wrote s s [] :=
  ⟨rfl, rfl, h, by simp⟩

theorem SenderStep.trans {s' s'' : InetSocket} {out out' : List Emission}
    (h : SenderStep wrote s s' out) (h' : SenderStep wrote s' s'' out') :
    SenderStep wrote s s'' (out ++ out') := by
  refine ⟨h'.iss.trans h.iss, h'.closing.trans h.closing, h'.sending, ?_⟩
  intro e he
  rcases List.mem_append.mp he with he | he
  · exact h.carries e he
  · rw [← h.iss, ← h.closing]
    exact h'.carries e he

theorem Sending.of_closed (h : s.state = .closed) : Sending wrote s :=
  ⟨by simp [h], by simp [h, TcpState.synchronized]⟩

theorem SenderStep.output (h : Sending wrote s) (hlen : wrote.length < 2 ^ 31) (now : Nat) :
    SenderStep wrote s (tcpOutput now s).1 (tcpOutput now s).2 := by
  by_cases hs : s.state.sends = true
  · suffices hP : (tcpOutput now s).1.iss = s.iss ∧
        (tcpOutput now s).1.closeRequested = s.closeRequested ∧
        (tcpOutput now s).1.state.synchronized = true ∧
        (∃ u v, Window wrote (tcpOutput now s).1 u v) ∧
        ∀ e ∈ (tcpOutput now s).2, Carries wrote s.iss s.closeRequested e.seg by
      obtain ⟨hiss, hclose, hsync, hwin, hcar⟩ := hP
      refine ⟨hiss, hclose, ⟨?_, fun _ => hwin⟩, hcar⟩
      rintro (h0 | h0) <;> simp [h0, TcpState.synchronized] at hsync
    refine tcpOutput_induct (P := fun s' out => s'.iss = s.iss ∧
      s'.closeRequested = s.closeRequested ∧ s'.state.synchronized = true ∧
      (∃ u v, Window wrote s' u v) ∧ ∀ e ∈ out, Carries wrote s.iss s.closeRequested e.seg)
      now s ?_ ?_ ?_ ?_
    · exact ⟨rfl, rfl, TcpState.sends_synchronized hs,
        h.synced (TcpState.sends_synchronized hs), by simp⟩
    · rintro s' out ⟨hiss, hclose, hsync, ⟨u, v, hwin⟩, hcar⟩ - hstop
      obtain ⟨hwin', hnew⟩ := hwin.sentData hlen hstop
      refine ⟨hiss, hclose, hsync, ⟨_, _, hwin'⟩, ?_⟩
      intro e he
      rcases List.mem_append.mp he with he | he
      · exact hcar e he
      · grind
    · rintro s' out ⟨hiss, hclose, hsync, ⟨u, v, hwin⟩, hcar⟩ - hdue
      obtain ⟨hwin', hnew⟩ := hwin.sendFin hlen hdue
      refine ⟨hiss, hclose, ?_, ⟨_, _, hwin'⟩, ?_⟩
      · simp only [tcpSendFin]
        split <;> rfl
      · grind
    · rintro s' out ⟨hiss, hclose, hsync, ⟨u, v, hwin⟩, hcar⟩
      exact ⟨hiss, hclose, hsync, ⟨u, v, hwin.1, hwin.2, hwin.3, hwin.4, hwin.5, hwin.6,
        hwin.7, hwin.8⟩, hcar⟩
  · rw [tcpOutput, if_neg hs]
    exact .refl h

/-- The fields that the sending side is about. -/
def sendView (s : InetSocket) :
    UInt32 × UInt32 × UInt32 × (Nat → UInt8) × Nat × Bool × UInt32 × Bool :=
  (s.iss, s.sndUna, s.sndNxt, s.tx, s.txCount, s.finSent, s.finSeq, s.closeRequested)

theorem Window.of_view {s' : InetSocket} (h : Window wrote s u v)
    (hview : sendView s' = sendView s) : Window wrote s' u v := by
  simp only [sendView, Prod.mk.injEq] at hview
  obtain ⟨h1, h2, h3, h4, h5, h6, h7, h8⟩ := hview
  constructor
  · rw [h2, h1, h.una]
  · rw [h3, h1, h.nxt]
  · exact h.low
  · exact h.order
  · rw [h5, h.count]
  · rw [h4, h5, h.bytes]
  · rw [h6]
    exact h.high
  · rw [h6, h7, h1, h8]
    exact h.fin

theorem SenderStep.of_view {s' : InetSocket} {out : List Emission} (h : Sending wrote s)
    (hview : sendView s' = sendView s)
    (hstate : s'.state = s.state ∨
      s.state.synchronized = true ∧ s'.state.synchronized = true ∨ s'.state = .closed)
    (hout : ∀ e ∈ out, Carries wrote s.iss s.closeRequested e.seg) :
    SenderStep wrote s s' out := by
  have hv := hview
  simp only [sendView, Prod.mk.injEq] at hview
  obtain ⟨h1, -, h3, -, h5, h6, -, h8⟩ := hview
  refine ⟨h1, h8, ?_, hout⟩
  rcases hstate with hst | ⟨hs, hs'⟩ | hst
  · refine ⟨fun h0 => ?_, fun h0 => ?_⟩
    · rw [hst] at h0
      have ho := h.opening h0
      exact ⟨ho.wrote, h5.trans ho.txCount, h6.trans ho.finSent, h8.trans ho.closeRequested,
        by rw [h3, h1, ho.nxt]⟩
    · rw [hst] at h0
      obtain ⟨u, v, hwin⟩ := h.synced h0
      exact ⟨u, v, hwin.of_view hv⟩
  · refine ⟨fun h0 => ?_, fun _ => ?_⟩
    · rcases h0 with h0 | h0 <;> simp [h0, TcpState.synchronized] at hs'
    · obtain ⟨u, v, hwin⟩ := h.synced hs
      exact ⟨u, v, hwin.of_view hv⟩
  · exact .of_closed hst

/-! ## Segment arrival -/

/-- The FIN lies behind every position of the stream, so all that such a position
acknowledges is data. -/
theorem Window.dataAcked (h : Window wrote s u v) (hlen : wrote.length < 2 ^ 31) {k : Nat}
    (huk : u ≤ k) (hk : k ≤ wrote.length) :
    tcpDataAcked s (s.iss + 1 + .ofNat k) = k - u := by
  have hnofin : (s.finSent && SeqNum.lt s.finSeq (s.iss + 1 + .ofNat k)) = false := by
    cases hfin : s.finSent with
    | false => rfl
    | true =>
        rw [(h.fin hfin).2.1, Bool.true_and, ← Bool.not_eq_true, SeqNum.lt_pos (by omega)
          (by omega)]
        omega
  rw [tcpDataAcked, hnofin, if_neg (by decide), h.una, SeqNum.dist_of_le huk (by omega), h.count]
  omega

theorem Window.takeAck (h : Window wrote s u v) (hlen : wrote.length < 2 ^ 31) (now : Nat)
    {k : Nat} (huk : u ≤ k) (hkv : k ≤ v) (hk : k ≤ wrote.length) :
    Window wrote (tcpTakeAck now s (s.iss + 1 + .ofNat k)) k v := by
  have hacked := h.dataAcked hlen huk hk
  have hcount := h.count
  refine ⟨rfl, h.nxt, hk, hkv, ?_, ?_, h.high, h.fin⟩
  · show s.txCount - tcpDataAcked s (s.iss + 1 + .ofNat k) = _
    omega
  · show Buf.read (Buf.write s.tx 0 (Buf.read s.tx (tcpDataAcked s (s.iss + 1 + .ofNat k))
      (s.txCount - tcpDataAcked s (s.iss + 1 + .ofNat k)))) 0
      (s.txCount - tcpDataAcked s (s.iss + 1 + .ofNat k)) = _
    rw [hacked]
    have hself := Buf.read_write_self s.tx 0 (Buf.read s.tx (k - u) (s.txCount - (k - u)))
    rw [Buf.length_read] at hself
    rw [hself, h.read (by omega), Nat.add_sub_cancel' huk, List.take_of_length_le]
    rw [List.length_drop]
    omega

/-- An acknowledgement of a position that the stream has reached moves the lower
end of the window there, or nowhere. -/
theorem Window.processAck (h : Window wrote s u v) (hlen : wrote.length < 2 ^ 31) (now : Nat)
    {seg : TcpSegment} (hack : hasFlag seg.flags tcpAck = true →
      ∃ k ≤ wrote.length, seg.ack = s.iss + 1 + .ofNat k) :
    ∃ u', Window wrote (tcpProcessAck now s seg) u' v := by
  unfold tcpProcessAck
  split
  · rename_i hflag
    obtain ⟨k, hk, heq⟩ := hack hflag
    have hlow := h.low
    have hv := h.high_le
    split
    · rename_i hadv
      rw [tcpAckAdvances, Bool.and_eq_true, heq, h.una, h.nxt, SeqNum.lt_pos (by omega) (by omega),
        SeqNum.le_pos (by omega) (by omega)] at hadv
      rw [heq]
      exact ⟨k, (h.takeAck hlen now hadv.1.le hadv.2 hk).of_view rfl⟩
    · exact ⟨u, h.of_view rfl⟩
  · exact ⟨u, h⟩

theorem tcpProcessAck_view (now : Nat) (s : InetSocket) (seg : TcpSegment) :
    (tcpProcessAck now s seg).iss = s.iss ∧
      (tcpProcessAck now s seg).closeRequested = s.closeRequested := by
  unfold tcpProcessAck
  split
  · split <;> exact ⟨rfl, rfl⟩
  · exact ⟨rfl, rfl⟩

theorem tcpProcessText_view (s : InetSocket) (seg : TcpSegment) :
    sendView (tcpProcessText s seg).1 = sendView s := by
  have hdata : sendView (tcpProcessData s seg) = sendView s := by
    unfold tcpProcessData
    split <;> rfl
  unfold tcpProcessText
  dsimp only
  split <;> exact hdata

theorem TcpState.peerClosed_synchronized {st : TcpState} (h : st.synchronized = true) :
    st.peerClosed.synchronized = true := by
  revert h
  cases st <;> simp [TcpState.peerClosed, TcpState.synchronized]

theorem SenderStep.receiveOpen (h : Sending wrote s) (hsync : s.state.synchronized = true)
    (hlen : wrote.length < 2 ^ 31) (now : Nat) {seg : TcpSegment}
    (hack : hasFlag seg.flags tcpAck = true →
      ∃ k ≤ wrote.length, seg.ack = s.iss + 1 + .ofNat k) :
    SenderStep wrote s (tcpReceiveOpen now s seg).sock (tcpReceiveOpen now s seg).out := by
  obtain ⟨u, v, hwin⟩ := h.synced hsync
  obtain ⟨u', hwin'⟩ := hwin.processAck hlen now hack
  obtain ⟨hiss, hclose⟩ := tcpProcessAck_view now s seg
  have hst := tcpProcessAck_state now s seg
  have hsync' : (tcpProcessAck now s seg).state.synchronized = true := by rw [hst, hsync]
  have hfirst : SenderStep wrote s (tcpProcessAck now s seg) [] :=
    ⟨hiss, hclose, ⟨fun h0 => by
      rcases h0 with h0 | h0 <;> simp [h0, TcpState.synchronized] at hsync', fun _ => ⟨_, _, hwin'⟩⟩,
      by simp⟩
  have hbare : ∀ (t : InetSocket) (b : Bool), ∀ e ∈ (if b then [tcpSendAck t] else []),
      Carries wrote (tcpProcessAck now s seg).iss (tcpProcessAck now s seg).closeRequested
        e.seg := by
    intro t b e he
    cases b with
    | false => simp at he
    | true =>
        obtain rfl : e = tcpSendAck t := by simpa using he
        exact .bareAck t
  have htext : SenderStep wrote (tcpProcessAck now s seg)
      (tcpProcessText (tcpProcessAck now s seg) seg).1
      (if (tcpProcessText (tcpProcessAck now s seg) seg).2 then
        [tcpSendAck (tcpProcessText (tcpProcessAck now s seg) seg).1] else []) := by
    refine SenderStep.of_view hfirst.sending (tcpProcessText_view _ seg) ?_ (hbare _ _)
    rcases (links_tcpProcessText (tcpProcessAck now s seg) seg).2 with h0 | h0
    · exact .inl h0
    · exact .inr (.inl ⟨hsync', by rw [h0]; exact TcpState.peerClosed_synchronized hsync'⟩)
  have hboth := hfirst.trans htext
  unfold tcpReceiveOpen
  dsimp only
  split
  · exact hboth
  · exact hboth.trans (SenderStep.output htext.sending hlen now)

theorem Opening.window (h : Opening wrote s) (s' : InetSocket) (hiss : s'.iss = s.iss)
    (huna : s'.sndUna = s.iss + 1) (hnxt : s'.sndNxt = s.sndNxt) (htx : s'.txCount = s.txCount)
    (hfin : s'.finSent = s.finSent) : Window wrote s' 0 0 := by
  have hcount : s'.txCount = 0 := htx.trans h.txCount
  constructor
  · rw [huna, hiss]
    simp
  · rw [hnxt, h.nxt, hiss]
    simp
  · exact Nat.zero_le _
  · exact le_refl 0
  · rw [hcount, h.wrote]
    rfl
  · rw [hcount, h.wrote]
    rfl
  · exact fun _ => Nat.zero_le _
  · intro h0
    rw [hfin, h.finSent] at h0
    exact absurd h0 (by decide)

theorem SenderStep.receive (h : Sending wrote s) (hlen : wrote.length < 2 ^ 31) (now : Nat)
    {seg : TcpSegment} (hack : hasFlag seg.flags tcpAck = true →
      ∃ k ≤ wrote.length, seg.ack = s.iss + 1 + .ofNat k) :
    SenderStep wrote s (tcpReceive now s seg).sock (tcpReceive now s seg).out := by
  unfold tcpReceive
  split
  · exact .of_view h rfl (.inr (.inr rfl)) (by simp [tcpReset])
  · cases hst : s.state with
    | closed | listen => exact .refl h
    | established | finWait | closeWait | done =>
        exact .receiveOpen h (by rw [hst]; rfl) hlen now hack
    | synSent =>
        dsimp only
        split
        · rename_i hcond
          have hwin := (h.opening (.inl hst)).window (tcpOpened s seg) rfl hcond.2 rfl rfl rfl
          refine ⟨rfl, rfl, ⟨by simp [tcpOpened], fun _ => ⟨0, 0, hwin⟩⟩, ?_⟩
          intro e he
          obtain rfl : e = _ := by simpa using he
          exact .bareAck _
        · exact .refl h
    | synRcvd =>
        dsimp only
        split
        · refine ⟨rfl, rfl, h, ?_⟩
          intro e he
          obtain rfl : e = _ := by simpa using he
          exact ⟨fun _ => rfl, fun h0 => absurd rfl h0,
            fun h0 => absurd h0 (by show hasFlag (tcpSyn ||| tcpAck) tcpFin ≠ true; decide)⟩
        split
        · rename_i hcond
          have hwin := (h.opening (.inr hst)).window (tcpAccepted s seg) rfl hcond.2 rfl rfl
            rfl
          have hacc : Sending wrote (tcpAccepted s seg) :=
            ⟨by simp [tcpAccepted], fun _ => ⟨0, 0, hwin⟩⟩
          have hopen := SenderStep.receiveOpen hacc rfl hlen now hack
          exact ⟨hopen.iss, hopen.closing, hopen.sending, hopen.carries⟩
        · exact .refl h

/-! ## The timer and the calls of the owner -/

theorem Window.rollback (h : Window wrote s u v) : Window wrote (tcpRollback s) u u :=
  ⟨h.una, h.una, h.low, le_refl u, h.count, h.bytes, fun _ => h.low,
    fun h0 => absurd h0 (by simp [tcpRollback])⟩

theorem Sending.rollback (h : Sending wrote s) (h1 : s.state ≠ .synSent)
    (h2 : s.state ≠ .synRcvd) : Sending wrote (tcpRollback s) := by
  have hst := tcpRollback_state s
  refine ⟨?_, ?_⟩
  · rintro (h0 | h0) <;> rcases hst with h3 | h3 | h3 <;> simp_all
  · intro hsync
    by_cases hs : s.state.synchronized = true
    · obtain ⟨u, v, hwin⟩ := h.synced hs
      exact ⟨u, u, hwin.rollback⟩
    · -- a state that is not synchronised is not left
      exfalso
      have hsame : (tcpRollback s).state = s.state := by
        simp only [tcpRollback]
        rw [if_neg, if_neg]
        · rintro ⟨-, h0⟩
          exact hs (by rw [h0]; rfl)
        · rintro ⟨-, h0⟩
          exact hs (by rw [h0]; rfl)
      rw [hsame] at hsync
      exact hs hsync

theorem SenderStep.tick (h : Sending wrote s) (hlen : wrote.length < 2 ^ 31) (now : Nat) :
    SenderStep wrote s (tcpTick now s).sock (tcpTick now s).out := by
  unfold tcpTick
  split
  · exact .refl h
  split
  · exact .refl h
  split
  · exact .of_view h rfl (.inr (.inr rfl)) (by simp [tcpReset])
  have hback : SenderStep wrote s (tcpBackOff now s) [] := .of_view h rfl (.inl rfl) (by simp)
  have hsyn : ∀ flags, hasFlag flags tcpFin = false →
      ∀ e ∈ [tcpSendSegment (tcpBackOff now s) (tcpBackOff now s).iss flags []],
        Carries wrote s.iss s.closeRequested e.seg := by
    intro flags hflags e he
    obtain rfl : e = _ := by simpa using he
    exact ⟨fun _ => rfl, fun h0 => absurd rfl h0,
      fun h0 => absurd (hflags.symm.trans h0) (by decide)⟩
  have hroll (h1 : s.state ≠ .synSent) (h2 : s.state ≠ .synRcvd) :
      SenderStep wrote s (tcpRollback (tcpBackOff now s))
        (if (tcpRollback (tcpBackOff now s)).txCount = 0 ∧
            (tcpRollback (tcpBackOff now s)).closeRequested = false then
          [tcpSendAck (tcpRollback (tcpBackOff now s))] else []) := by
    refine ⟨rfl, rfl, hback.sending.rollback h1 h2, ?_⟩
    intro e he
    split at he
    · obtain rfl : e = _ := by simpa using he
      exact .bareAck _
    · simp at he
  cases hst : s.state with
  | synSent => exact ⟨rfl, rfl, hback.sending, hsyn _ (by decide)⟩
  | synRcvd => exact ⟨rfl, rfl, hback.sending, hsyn _ (by decide)⟩
  | closed | listen | established | finWait | closeWait | done =>
      have hr := hroll (by simp [hst]) (by simp [hst])
      exact hr.trans (.output hr.sending hlen now)

theorem SenderStep.read (h : Sending wrote s) (count : Nat) :
    SenderStep wrote s (tcpRead s count).1 (tcpRead s count).2.1 := by
  unfold tcpRead
  split
  · exact .refl h
  split
  · refine .of_view h rfl (.inl rfl) ?_
    intro e he
    simp only [tcpTakeRx] at he
    split at he
    · obtain rfl : e = _ := by simpa using he
      exact .bareAck _
    · simp at he
  split
  · exact .refl h
  split <;> exact .refl h

theorem Carries.bareRst {iss : UInt32} {closing : Bool} (t : InetSocket) (seq : UInt32) :
    Carries wrote iss closing (tcpSendSegment t seq tcpRst []).seg :=
  .bare (by show hasFlag tcpRst tcpSyn = false; decide) rfl
    (by show hasFlag tcpRst tcpFin = false; decide)

theorem SenderStep.connectWait (h : Sending wrote s) (elapsed : Nat) :
    SenderStep wrote s (tcpConnectWait s elapsed).1 (tcpConnectWait s elapsed).2 := by
  unfold tcpConnectWait
  split
  · refine .of_view h rfl (.inr (.inr rfl)) ?_
    intro e he
    obtain rfl : e = _ := by simpa using he
    exact .bareRst _ _
  · exact .refl h

end Stream
