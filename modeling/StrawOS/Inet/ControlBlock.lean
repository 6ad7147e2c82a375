import StrawOS.Inet.Table

/-!
# The control-block invariant

`Sound` is what every control block satisfies whatever the peer sends, short of
one acknowledgement number: the ring and the transmit buffer are within their
sizes, and the unacknowledged span is covered by the transmit buffer plus, when
the FIN is out, one sequence number for it.

The exception is `snd_una + 2^31` on a connection with nothing in flight.  It passes
both signed comparisons of the acceptance test and moves `snd_una` half the number
space ahead of `snd_nxt`.
-/

namespace Inet

/-- The states of a connection past its handshake and before its reset. -/
def TcpState.synchronized : TcpState → Bool
  | .established | .closeWait | .finWait | .done => true
  | _ => false

/-- A FIN has been sent and its sequence number is not acknowledged. -/
def finOutstanding (s : InetSocket) : Bool :=
  s.finSent && decide (s.sndUna ≠ s.finSeq + 1)

/-- Words from `snd_una` up to `snd_nxt`. -/
def unackedSpan (s : InetSocket) : Nat := (s.sndNxt - s.sndUna).toNat

/-- The bounds on the buffers of a control block and on its unacknowledged
span. -/
structure Bounded (s : InetSocket) : Prop where
  rxCount_le : s.rxCount ≤ tcpRxSize
  rxHead_lt : s.rxHead < tcpRxSize
  txCount_le : s.txCount ≤ tcpTxSize
  span_le : s.state.synchronized = true →
    unackedSpan s ≤ s.txCount + (if finOutstanding s then 1 else 0)
  span_fin : s.state.synchronized = true →
    (unackedSpan s = s.txCount + 1 ↔ finOutstanding s = true)

/-- A data segment is a slice of the transmit buffer at the place its sequence
number says, inside the window, of at most `tcpMss` bytes. -/
def DataInBuffer (e : Emission) : Prop :=
  e.seg.payload ≠ [] → ∃ off len,
    e.seg.payload = Buf.read e.sock.tx off len ∧
    e.seg.seq = e.sock.sndUna + .ofNat off ∧
    off + len ≤ e.sock.txCount ∧ len ≤ tcpMss ∧ off + len ≤ max e.sock.sndWnd.toNat 1

/-- Nothing has been queued on the connection and no close was asked for. -/
def Untouched (s : InetSocket) : Prop :=
  s.txCount = 0 ∧ s.finSent = false ∧ s.closeRequested = false

/-- The inductive form of `Bounded`. -/
structure Sound (s : InetSocket) : Prop where
  rxCount_le : s.rxCount ≤ tcpRxSize
  rxHead_lt : s.rxHead < tcpRxSize
  txCount_le : s.txCount ≤ tcpTxSize
  connected : s.state ≠ .closed → s.state ≠ .listen → s.connected = true
  untouched : s.state.synchronized = false → (s.state = .closed → s.connected = false) →
    Untouched s
  opening : s.state = .synSent ∨ s.state = .synRcvd → s.sndNxt = s.iss + 1
  fin_iff : s.state.synchronized = true →
    (s.finSent = true ↔ s.state = .finWait ∨ s.state = .done)
  span : s.state.synchronized = true → s.finSent = false → unackedSpan s ≤ s.txCount
  finSpan : s.state.synchronized = true → s.finSent = true →
    s.sndNxt = s.finSeq + 1 ∧
      (s.sndUna = s.sndNxt ∧ s.txCount = 0 ∨ unackedSpan s = s.txCount + 1)

theorem finOutstanding_of_sound {s : InetSocket} (hs : Sound s)
    (hsync : s.state.synchronized = true) :
    finOutstanding s = true ↔ s.finSent = true ∧ s.sndUna ≠ s.sndNxt := by
  simp only [finOutstanding, Bool.and_eq_true, decide_eq_true_eq]
  constructor
  · rintro ⟨hf, hne⟩
    rw [(hs.finSpan hsync hf).1]
    exact ⟨hf, hne⟩
  · rintro ⟨hf, hne⟩
    rw [(hs.finSpan hsync hf).1] at hne
    exact ⟨hf, hne⟩

theorem Sound.bounded {s : InetSocket} (hs : Sound s) : Bounded s := by
  refine ⟨hs.rxCount_le, hs.rxHead_lt, hs.txCount_le, ?_, ?_⟩
  · intro hsync
    cases hf : s.finSent with
    | false => exact Nat.le_add_right_of_le (hs.span hsync hf)
    | true =>
        rcases (hs.finSpan hsync hf).2 with ⟨hu, -⟩ | hspan
        · have h0 : unackedSpan s = 0 := SeqNum.span_eq_zero.mpr hu
          omega
        · have hne : s.sndUna ≠ s.sndNxt := by
            intro heq
            have h0 : unackedSpan s = 0 := SeqNum.span_eq_zero.mpr heq
            omega
          rw [if_pos ((finOutstanding_of_sound hs hsync).mpr ⟨hf, hne⟩)]
          omega
  · intro hsync
    rw [finOutstanding_of_sound hs hsync]
    constructor
    · intro hspan
      have hne : s.sndUna ≠ s.sndNxt := by
        intro heq
        have h0 : unackedSpan s = 0 := SeqNum.span_eq_zero.mpr heq
        omega
      cases hf : s.finSent with
      | false =>
          have := hs.span hsync hf
          omega
      | true => exact ⟨rfl, hne⟩
    · rintro ⟨hf, hne⟩
      rcases (hs.finSpan hsync hf).2 with ⟨hu, -⟩ | hspan
      · exact absurd hu hne
      · exact hspan

/-! ## Updates that do not concern the invariant -/

theorem Sound.setTimer {s : InetSocket} (h : Sound s) (deadline ms retries : Nat) :
    Sound { s with rtoDeadline := deadline, rtoMs := ms, retries := retries } :=
  ⟨h.rxCount_le, h.rxHead_lt, h.txCount_le, h.connected, h.untouched, h.opening, h.fin_iff,
    h.span, h.finSpan⟩

theorem Sound.setLinks {s : InetSocket} (h : Sound s) (parent : Option SockId)
    (backlog : List SockId) (orphan nonblock : Bool) :
    Sound { s with parent := parent, backlog := backlog, orphan := orphan, nonblock := nonblock } :=
  ⟨h.rxCount_le, h.rxHead_lt, h.txCount_le, h.connected, h.untouched, h.opening, h.fin_iff,
    h.span, h.finSpan⟩

theorem Sound.setWindow {s : InetSocket} (h : Sound s) (wnd : UInt32) :
    Sound { s with sndWnd := wnd } :=
  ⟨h.rxCount_le, h.rxHead_lt, h.txCount_le, h.connected, h.untouched, h.opening, h.fin_iff,
    h.span, h.finSpan⟩

theorem Sound.setRemote {s : InetSocket} (h : Sound s) (ip : Ipv4Addr) (rport lport : UInt16)
    (queue : List UdpDatagram) (error : Int) :
    Sound { s with remoteIp := ip, remotePort := rport, localPort := lport, udpQueue := queue,
                   error := error } :=
  ⟨h.rxCount_le, h.rxHead_lt, h.txCount_le, h.connected, h.untouched, h.opening, h.fin_iff,
    h.span, h.finSpan⟩

theorem Sound.setConnected {s : InetSocket} (h : Sound s) : Sound { s with connected := true } := by
  refine ⟨h.rxCount_le, h.rxHead_lt, h.txCount_le, fun _ _ => rfl, ?_, h.opening, h.fin_iff,
    h.span, h.finSpan⟩
  intro hsync hconn
  exact h.untouched hsync fun hcl => absurd (hconn hcl) (by simp)

/-- A slot after `memset` is sound. -/
theorem sound_empty : Sound {} := by
  refine ⟨by simp, by simp [tcpRxSize], by simp, ?_, ?_, ?_, ?_, ?_, ?_⟩ <;>
    simp [TcpState.synchronized, Untouched]

/-- Closing keeps the invariant: a closed socket that was connected is never
used again. -/
theorem Sound.closed {s : InetSocket} (h : Sound s) : Sound { s with state := .closed } := by
  refine ⟨h.rxCount_le, h.rxHead_lt, h.txCount_le, ?_, ?_, ?_, ?_, ?_, ?_⟩
  · intro hne
    exact absurd rfl hne
  · intro _ hconn
    have hconn : s.connected = false := hconn rfl
    by_cases hcl : s.state = .closed ∨ s.state = .listen
    · apply h.untouched
      · rcases hcl with h1 | h1 <;> simp [h1, TcpState.synchronized]
      · exact fun _ => hconn
    · push Not at hcl
      rw [h.connected hcl.1 hcl.2] at hconn
      exact absurd hconn (by decide)
  all_goals
    intro h1
    simp [TcpState.synchronized] at h1

/-! ## Output -/

theorem Sound.finSent_of_continues {s : InetSocket} (h : Sound s) (hsend : s.state.sends = true)
    (hgo : tcpOutputStops s = false) : s.finSent = false := by
  have hsync : s.state.synchronized = true := by
    revert hsend
    cases s.state <;> simp [TcpState.sends, TcpState.synchronized]
  obtain ⟨hbuf, -⟩ := tcpOutputStops_eq_false.mp hgo
  cases hf : s.finSent with
  | false => rfl
  | true =>
      rcases (h.finSpan hsync hf).2 with ⟨-, h0⟩ | hspan
      · omega
      · have hpos : 0 < s.sndNxt - s.sndUna := by
          rw [UInt32.lt_iff_toNat_lt]
          simp only [unackedSpan] at hspan
          simpa using by omega
        have hflight : (tcpInFlight s).toNat = s.txCount := by
          simp only [tcpInFlight, hf, hpos, decide_true, Bool.and_self, if_true]
          simp only [unackedSpan] at hspan
          rw [SeqNum.toNat_sub_one (by omega)]
          omega
        omega

theorem TcpState.sends_synchronized {st : TcpState} (h : st.sends = true) :
    st.synchronized = true := by
  cases st <;> simp_all [TcpState.sends, TcpState.synchronized]

theorem Sound.sentData {s : InetSocket} (h : Sound s) (hsend : s.state.sends = true)
    (hgo : tcpOutputStops s = false) : Sound (tcpSentData s) := by
  have hf := h.finSent_of_continues hsend hgo
  have hspan := tcpSentData_span hf h.txCount_le hgo
  have hlen := (tcpSegmentLen_bounds hgo).2.2.1
  rw [tcpInFlight_of_not_finSent hf] at hlen
  refine ⟨h.rxCount_le, h.rxHead_lt, h.txCount_le, h.connected, h.untouched, ?_, h.fin_iff, ?_, ?_⟩
  · rintro (h1 | h1) <;>
      · have h1 : s.state = _ := h1
        simp [h1, TcpState.sends] at hsend
  · intro _ _
    exact hspan.trans_le hlen
  · intro _ h1
    have h1 : s.finSent = true := h1
    simp [hf] at h1

theorem DataInBuffer.nextData {s : InetSocket} (h : Sound s) (hsend : s.state.sends = true)
    (hgo : tcpOutputStops s = false) : DataInBuffer (tcpNextData s) := by
  have hf := h.finSent_of_continues hsend hgo
  obtain ⟨-, hmss, hbuf, hwnd⟩ := tcpSegmentLen_bounds hgo
  intro _
  refine ⟨(tcpInFlight s).toNat, tcpSegmentLen s, rfl, ?_, hbuf, hmss, hwnd⟩
  rw [tcpInFlight_of_not_finSent hf]
  exact (SeqNum.add_span s.sndUna s.sndNxt).symm

theorem Sound.sendFin {s : InetSocket} (h : Sound s) (hsend : s.state.sends = true)
    (hdue : tcpFinDue s = true) : Sound (tcpSendFin s).1 := by
  simp only [tcpFinDue, Bool.and_eq_true, Bool.not_eq_true', decide_eq_true_eq] at hdue
  obtain ⟨⟨-, -⟩, hspan⟩ := hdue
  have hnew : (s.sndNxt + 1 - s.sndUna).toNat = s.txCount + 1 := by
    have htx := h.txCount_le
    simp only [tcpTxSize] at htx
    rw [SeqNum.span_succ (by omega), hspan]
  have hstate : (tcpSendFin s).1.state = .done ∨ (tcpSendFin s).1.state = .finWait := by
    simp only [tcpSendFin]
    split
    · exact .inl rfl
    · exact .inr rfl
  refine ⟨h.rxCount_le, h.rxHead_lt, h.txCount_le, ?_, ?_, ?_, ?_, ?_, ?_⟩
  · intro _ _
    apply h.connected <;>
      · intro h1
        simp [h1, TcpState.sends] at hsend
  · intro h1
    rcases hstate with h2 | h2 <;> simp [h2, TcpState.synchronized] at h1
  · rintro (h1 | h1) <;> rcases hstate with h2 | h2 <;> simp [h2] at h1
  · intro _
    exact iff_of_true rfl hstate.symm
  · intro _ h1
    simp [tcpSendFin] at h1
  · intro _ _
    exact ⟨rfl, .inr hnew⟩

/-- Everything `tcp_output` does keeps the invariant and sends only slices of
the transmit buffer. -/
theorem Sound.output {s : InetSocket} (h : Sound s) (now : Nat) :
    Sound (tcpOutput now s).1 ∧ ∀ e ∈ (tcpOutput now s).2, DataInBuffer e := by
  apply tcpOutput_induct (P := fun s out => Sound s ∧ ∀ e ∈ out, DataInBuffer e) now s
  · exact ⟨h, by simp⟩
  · rintro s out ⟨hs, hout⟩ hsend hgo
    refine ⟨hs.sentData hsend hgo, ?_⟩
    intro e he
    rcases List.mem_append.mp he with he | he
    · exact hout e he
    · obtain rfl := List.mem_singleton.mp he
      exact DataInBuffer.nextData hs hsend hgo
  · rintro s out ⟨hs, hout⟩ hsend hdue
    refine ⟨hs.sendFin hsend hdue, ?_⟩
    intro e he
    rcases List.mem_append.mp he with he | he
    · exact hout e he
    · obtain rfl := List.mem_singleton.mp he
      exact fun hne => absurd rfl hne
  · rintro s out ⟨hs, hout⟩
    exact ⟨hs.setTimer _ _ _, hout⟩

/-! ## Acknowledgements -/

/-- Given that the acknowledged word is in the span, the FIN is covered exactly
when the whole span is. -/
theorem fin_covered_iff {una ack nxt fin : UInt32} (hfin : nxt = fin + 1)
    (hpos : 0 < (ack - una).toNat) (hle : (ack - una).toNat ≤ (nxt - una).toNat)
    (hspan : (nxt - una).toNat < 2 ^ 31) :
    SeqNum.lt fin ack = true ↔ (ack - una).toNat = (nxt - una).toNat := by
  subst hfin
  have ha := ack.toNat_lt
  rw [SeqNum.lt_iff, SeqNum.toNat_sub]
  rw [SeqNum.toNat_sub, SeqNum.toNat_sub, UInt32.toNat_add] at *
  simp only [UInt32.toNat_one] at *
  omega

/-- The one acknowledgement number that the acceptance test lets through by
mistake. -/
def HalfwayAck (s : InetSocket) (ack : UInt32) : Prop :=
  s.sndUna = s.sndNxt ∧ ack = s.sndUna + 2147483648

/-- An accepted acknowledgement other than the halfway one lies in the span. -/
theorem Sound.ack_in_span {s : InetSocket} (h : Sound s) (hsync : s.state.synchronized = true)
    {ack : UInt32} (hadv : tcpAckAdvances s ack = true) (hhalf : ¬ HalfwayAck s ack) :
    0 < (ack - s.sndUna).toNat ∧ (ack - s.sndUna).toNat ≤ unackedSpan s := by
  simp only [tcpAckAdvances, Bool.and_eq_true] at hadv
  have htx := h.txCount_le
  obtain ⟨hpos, hin | hbad⟩ := SeqNum.ack_in_span hadv.1 hadv.2
  · exact ⟨hpos, hin⟩
  · exact absurd hbad hhalf

theorem Sound.dataAcked {s : InetSocket} (h : Sound s) (hsync : s.state.synchronized = true)
    {ack : UInt32} (hadv : tcpAckAdvances s ack = true) (hhalf : ¬ HalfwayAck s ack) :
    (s.finSent = false → tcpDataAcked s ack = (ack - s.sndUna).toNat ∧
      (s.sndNxt - ack).toNat ≤ s.txCount - tcpDataAcked s ack) ∧
    (s.finSent = true →
      (ack = s.sndNxt ∧ tcpDataAcked s ack = s.txCount) ∨
      ((s.sndNxt - ack).toNat = s.txCount - tcpDataAcked s ack + 1 ∧
        tcpDataAcked s ack = (ack - s.sndUna).toNat ∧ tcpDataAcked s ack ≤ s.txCount)) := by
  obtain ⟨hpos, hin⟩ := h.ack_in_span hsync hadv hhalf
  have hafter := SeqNum.span_after hin
  have htx := h.txCount_le
  simp only [tcpTxSize] at htx
  simp only [unackedSpan] at hin
  constructor
  · intro hf
    have hspan := h.span hsync hf
    simp only [unackedSpan] at hspan
    have hd : tcpDataAcked s ack = (ack - s.sndUna).toNat := by
      simp only [tcpDataAcked, hf, Bool.false_and]
      simpa using by omega
    omega
  · intro hf
    obtain ⟨hnxt, hrest⟩ := h.finSpan hsync hf
    have hspan : (s.sndNxt - s.sndUna).toNat = s.txCount + 1 := by
      rcases hrest with ⟨heq, -⟩ | hspan
      · have h0 := SeqNum.span_eq_zero.mpr heq
        omega
      · exact hspan
    have hcover := fin_covered_iff hnxt hpos hin (by omega)
    by_cases hall : (ack - s.sndUna).toNat = (s.sndNxt - s.sndUna).toNat
    · left
      have hack : ack = s.sndNxt := SeqNum.span_eq_zero.mp (by omega)
      refine ⟨hack, ?_⟩
      have hone : (ack - s.sndUna - 1).toNat = s.txCount := by
        rw [SeqNum.toNat_sub_one hpos]
        omega
      simp only [tcpDataAcked, hf, hcover.mpr hall, Bool.and_self, if_true, hone]
      simp
    · have hnot : SeqNum.lt s.finSeq ack = false := by
        simpa using fun h1 => hall (hcover.mp h1)
      have hd : tcpDataAcked s ack = (ack - s.sndUna).toNat := by
        simp only [tcpDataAcked, hnot, Bool.and_false]
        simpa using by omega
      omega

theorem Sound.takeAck {s : InetSocket} (h : Sound s) (hsync : s.state.synchronized = true)
    (now : Nat) {ack : UInt32} (hadv : tcpAckAdvances s ack = true)
    (hhalf : ¬ HalfwayAck s ack) : Sound (tcpTakeAck now s ack) := by
  obtain ⟨hplain, hfin⟩ := h.dataAcked hsync hadv hhalf
  refine ⟨h.rxCount_le, h.rxHead_lt, ?_, h.connected, ?_, ?_, h.fin_iff, ?_, ?_⟩
  · exact (Nat.sub_le _ _).trans h.txCount_le
  · intro h1
    have h1 : s.state.synchronized = false := h1
    simp [hsync] at h1
  · exact h.opening
  · intro _ hf
    exact (hplain hf).2
  · intro _ hf
    refine ⟨(h.finSpan hsync hf).1, ?_⟩
    rcases hfin hf with ⟨heq, hd⟩ | ⟨hspan, -, -⟩
    · exact .inl ⟨heq, by simp [tcpTakeAck, hd]⟩
    · exact .inr hspan

theorem Sound.processAck {s : InetSocket} (h : Sound s) (hsync : s.state.synchronized = true)
    (now : Nat) {seg : TcpSegment}
    (hhalf : hasFlag seg.flags tcpAck = true → ¬ HalfwayAck s seg.ack) :
    Sound (tcpProcessAck now s seg) := by
  unfold tcpProcessAck
  split
  · rename_i hack
    split
    · rename_i hadv
      exact (h.takeAck hsync now hadv (hhalf hack)).setWindow _
    · exact h.setWindow _
  · exact h

/-! ## Payload, FIN and the whole segment -/

theorem Sound.takeData {s : InetSocket} (h : Sound s) (payload : List UInt8) :
    Sound (tcpTakeData s payload) := by
  refine ⟨?_, h.rxHead_lt, h.txCount_le, h.connected, h.untouched, h.opening, h.fin_iff,
    h.span, h.finSpan⟩
  have hrx := h.rxCount_le
  simp only [tcpTakeData]
  omega

theorem Sound.processData {s : InetSocket} (h : Sound s) (seg : TcpSegment) :
    Sound (tcpProcessData s seg) := by
  unfold tcpProcessData
  split
  · exact h.takeData _
  · exact h

theorem tcpProcessData_state (s : InetSocket) (seg : TcpSegment) :
    (tcpProcessData s seg).state = s.state := by
  unfold tcpProcessData
  split <;> rfl

theorem tcpProcessAck_state (now : Nat) (s : InetSocket) (seg : TcpSegment) :
    (tcpProcessAck now s seg).state = s.state := by
  unfold tcpProcessAck
  split
  · split <;> rfl
  · rfl

theorem Sound.takeFin {s : InetSocket} (h : Sound s) (hsync : s.state.synchronized = true) :
    Sound (tcpTakeFin s) := by
  have hcases : s.state = .established ∧ s.state.peerClosed = .closeWait ∨
      s.state = .finWait ∧ s.state.peerClosed = .done ∨ s.state.peerClosed = s.state := by
    cases s.state <;> simp [TcpState.peerClosed]
  have hsync' : s.state.peerClosed.synchronized = true := by
    revert hsync
    cases s.state <;> simp [TcpState.peerClosed, TcpState.synchronized]
  refine ⟨h.rxCount_le, h.rxHead_lt, h.txCount_le, ?_, ?_, ?_, ?_, ?_, ?_⟩
  · intro _ _
    apply h.connected <;>
      · intro h1
        simp [h1, TcpState.synchronized] at hsync
  · intro h1
    have h1 : s.state.peerClosed.synchronized = false := h1
    simp [hsync'] at h1
  · rintro (h1 | h1) <;>
      · have h1 : s.state.peerClosed = _ := h1
        simp [h1, TcpState.synchronized] at hsync'
  · intro _
    show s.finSent = true ↔ s.state.peerClosed = .finWait ∨ s.state.peerClosed = .done
    rw [h.fin_iff hsync]
    rcases hcases with ⟨h1, h2⟩ | ⟨h1, h2⟩ | h1
    · simp [h1, TcpState.peerClosed]
    · simp [h1, TcpState.peerClosed]
    · rw [h1]
  · exact fun _ => h.span hsync
  · exact fun _ => h.finSpan hsync

theorem Sound.processText {s : InetSocket} (h : Sound s) (hsync : s.state.synchronized = true)
    (seg : TcpSegment) : Sound (tcpProcessText s seg).1 := by
  unfold tcpProcessText
  dsimp only
  split
  · exact (h.processData seg).takeFin (by rwa [tcpProcessData_state])
  · exact h.processData seg

/-- What every reaction of a socket has to satisfy. -/
def SoundReaction (r : Reaction) : Prop := Sound r.sock ∧ ∀ e ∈ r.out, DataInBuffer e

theorem DataInBuffer.empty (s : InetSocket) (seq : UInt32) (flags : UInt8) :
    DataInBuffer (tcpSendSegment s seq flags []) :=
  fun hne => absurd rfl hne

theorem Sound.receiveOpen {s : InetSocket} (h : Sound s) (hsync : s.state.synchronized = true)
    (now : Nat) {seg : TcpSegment}
    (hhalf : hasFlag seg.flags tcpAck = true → ¬ HalfwayAck s seg.ack) :
    SoundReaction (tcpReceiveOpen now s seg) := by
  have htext := (h.processAck hsync now hhalf).processText
    (by rwa [tcpProcessAck_state]) seg
  have hacks : ∀ e ∈ (if (tcpProcessText (tcpProcessAck now s seg) seg).2 then
      [tcpSendAck (tcpProcessText (tcpProcessAck now s seg) seg).1] else []), DataInBuffer e := by
    intro e he
    split at he
    · obtain rfl := List.mem_singleton.mp he
      exact DataInBuffer.empty _ _ _
    · simp at he
  unfold tcpReceiveOpen
  dsimp only
  split
  · exact ⟨htext, hacks⟩
  · obtain ⟨hout, hsent⟩ := htext.output now
    refine ⟨hout, ?_⟩
    intro e he
    rcases List.mem_append.mp he with he | he
    · exact hacks e he
    · exact hsent e he

theorem Sound.established {s : InetSocket} (h : Sound s)
    (hopen : s.state = .synSent ∨ s.state = .synRcvd) (rcvNxt sndWnd : UInt32) :
    Sound { s with rcvNxt := rcvNxt, sndUna := s.iss + 1, sndWnd := sndWnd,
                   state := .established, rtoDeadline := 0, retries := 0 } := by
  have hnot : s.state.synchronized = false := by
    rcases hopen with h1 | h1 <;> simp [h1, TcpState.synchronized]
  obtain ⟨htx, hfin, hclose⟩ := h.untouched hnot (by
    rcases hopen with h1 | h1 <;> simp [h1])
  have hspan : (s.sndNxt - (s.iss + 1)).toNat = 0 :=
    SeqNum.span_eq_zero.mpr (h.opening hopen).symm
  refine ⟨h.rxCount_le, h.rxHead_lt, h.txCount_le, ?_, ?_, ?_, ?_, ?_, ?_⟩
  · intro _ _
    apply h.connected <;> rcases hopen with h1 | h1 <;> simp [h1]
  · simp [TcpState.synchronized]
  · simp
  · simp [hfin]
  · simp [unackedSpan, hspan]
  · intro _ h1
    simp [hfin] at h1

theorem Sound.reset {s : InetSocket} (h : Sound s) (error : Int) :
    SoundReaction (tcpReset s error) :=
  ⟨(h.closed.setTimer 0 s.rtoMs s.retries).setRemote s.remoteIp s.remotePort s.localPort s.udpQueue
    error, by simp [tcpReset]⟩

/-- **A received segment**, whatever it says, keeps the invariant. -/
theorem Sound.receive {s : InetSocket} (h : Sound s) (now : Nat) {seg : TcpSegment}
    (hhalf : hasFlag seg.flags tcpAck = true → ¬ HalfwayAck s seg.ack) :
    SoundReaction (tcpReceive now s seg) := by
  unfold tcpReceive
  split
  · exact h.reset _
  · cases hst : s.state with
    | closed | listen => exact ⟨h, by simp⟩
    | established | finWait | closeWait | done =>
        exact h.receiveOpen (by simp [hst, TcpState.synchronized]) now hhalf
    | synSent =>
        dsimp only
        split
        · rename_i hok
          have hest := h.established (.inl hst) (seg.seq + 1) seg.window.toUInt32
          rw [← hok.2] at hest
          refine ⟨hest, ?_⟩
          intro e he
          obtain rfl := List.mem_singleton.mp he
          exact DataInBuffer.empty _ _ _
        · exact ⟨h, by simp⟩
    | synRcvd =>
        dsimp only
        split
        · refine ⟨h, ?_⟩
          intro e he
          obtain rfl := List.mem_singleton.mp he
          exact DataInBuffer.empty _ _ _
        · split
          · rename_i hok
            have hest := h.established (.inr hst) s.rcvNxt s.sndWnd
            rw [← hok.2] at hest
            -- the handshake leaves the span empty, and its own ACK is no halfway ACK
            refine Sound.receiveOpen (s := tcpAccepted s seg) hest rfl now ?_
            rintro - ⟨-, hbad⟩
            have hbad : seg.ack = seg.ack + 2147483648 := hbad
            have := congrArg UInt32.toNat hbad
            rw [UInt32.toNat_add] at this
            simp only [show (2147483648 : UInt32).toNat = 2147483648 from rfl] at this
            omega
          · exact ⟨h, by simp⟩

/-! ## The timer -/

theorem Sound.rollback {s : InetSocket} (h : Sound s) (h1 : s.state ≠ .synSent)
    (h2 : s.state ≠ .synRcvd) : Sound (tcpRollback s) := by
  have hnofin : (tcpRollback s).finSent = false := rfl
  have hspan : unackedSpan (tcpRollback s) = 0 := SeqNum.span_eq_zero.mpr rfl
  have hstate : s.state.synchronized = true ∧
      ((tcpRollback s).state = .established ∨ (tcpRollback s).state = .closeWait) ∨
      s.state.synchronized = false ∧ (tcpRollback s).state = s.state := by
    have hf := h.fin_iff
    cases hst : s.state <;> cases hfs : s.finSent <;>
      simp_all [tcpRollback, TcpState.synchronized]
  refine ⟨h.rxCount_le, h.rxHead_lt, h.txCount_le, ?_, ?_, ?_, ?_, ?_, ?_⟩
  · intro h1 h2
    rcases hstate with ⟨hsync, -⟩ | ⟨-, heq⟩
    · apply h.connected <;>
        · intro h3
          simp [h3, TcpState.synchronized] at hsync
    · rw [heq] at h1 h2
      exact h.connected h1 h2
  · intro h1 h2
    rcases hstate with ⟨-, h3 | h3⟩ | ⟨hsync, heq⟩
    · simp [h3, TcpState.synchronized] at h1
    · simp [h3, TcpState.synchronized] at h1
    · rw [heq] at h2
      obtain ⟨htx, -, hclose⟩ := h.untouched hsync h2
      exact ⟨htx, rfl, hclose⟩
  · grind
  · grind
  · omega
  · intro _ h1
    simp [tcpRollback] at h1

theorem Sound.tick {s : InetSocket} (h : Sound s) (now : Nat) :
    SoundReaction (tcpTick now s) := by
  have hback : Sound (tcpBackOff now s) := h.setTimer _ _ _
  have hsyn : ∀ flags e, e ∈ [tcpSendSegment (tcpBackOff now s) (tcpBackOff now s).iss flags []] →
      DataInBuffer e := by
    intro flags e he
    obtain rfl := List.mem_singleton.mp he
    exact DataInBuffer.empty _ _ _
  unfold tcpTick
  split
  · exact ⟨h, by simp⟩
  split
  · exact ⟨h, by simp⟩
  split
  · exact (h.setTimer s.rtoDeadline s.rtoMs (s.retries + 1)).reset _
  have hrest (hne1 : s.state ≠ .synSent) (hne2 : s.state ≠ .synRcvd) : SoundReaction
      { sock := (tcpOutput now (tcpRollback (tcpBackOff now s))).1
        out := (if (tcpRollback (tcpBackOff now s)).txCount = 0 ∧
            (tcpRollback (tcpBackOff now s)).closeRequested = false then
          [tcpSendSegment (tcpRollback (tcpBackOff now s))
            (tcpRollback (tcpBackOff now s)).sndNxt tcpAck []] else []) ++
          (tcpOutput now (tcpRollback (tcpBackOff now s))).2 } := by
    obtain ⟨hout, hsent⟩ := (hback.rollback hne1 hne2).output now
    refine ⟨hout, ?_⟩
    intro e he
    rcases List.mem_append.mp he with he | he
    · split at he
      · obtain rfl := List.mem_singleton.mp he
        exact DataInBuffer.empty _ _ _
      · simp at he
    · exact hsent e he
  cases hst : s.state with
  | synSent => exact ⟨hback, hsyn _⟩
  | synRcvd => exact ⟨hback, hsyn _⟩
  | closed | listen | established | finWait | closeWait | done =>
      exact hrest (by simp [hst]) (by simp [hst])

/-! ## Calls -/

theorem Sound.takeRx {s : InetSocket} (h : Sound s) (n : Nat) :
    Sound (tcpTakeRx s n).1 ∧ ∀ e ∈ (tcpTakeRx s n).2, DataInBuffer e := by
  constructor
  · refine ⟨?_, ?_, h.txCount_le, h.connected, h.untouched, h.opening, h.fin_iff,
      h.span, h.finSpan⟩
    · exact (Nat.sub_le _ _).trans h.rxCount_le
    · exact Nat.mod_lt _ (by simp [tcpRxSize])
  · intro e he
    simp only [tcpTakeRx] at he
    split at he
    · obtain rfl := List.mem_singleton.mp he
      exact DataInBuffer.empty _ _ _
    · simp at he

theorem Sound.read {s : InetSocket} (h : Sound s) (count : Nat) :
    Sound (tcpRead s count).1 ∧ ∀ e ∈ (tcpRead s count).2.1, DataInBuffer e := by
  have hsame : Sound s ∧ ∀ e ∈ ([] : List Emission), DataInBuffer e := ⟨h, by simp⟩
  unfold tcpRead
  split
  · exact hsame
  split
  · exact h.takeRx _
  split
  · exact hsame
  split <;> exact hsame

theorem Sound.queueTx {s : InetSocket} (h : Sound s)
    (hst : s.state = .established ∨ s.state = .closeWait) (data : List UInt8)
    (hfit : s.txCount + data.length ≤ tcpTxSize) : Sound (tcpQueueTx s data) := by
  have hsync : s.state.synchronized = true := by
    rcases hst with h1 | h1 <;> simp [h1, TcpState.synchronized]
  have hf : s.finSent = false := by
    have := h.fin_iff hsync
    rcases hst with h1 | h1 <;> simpa [h1] using this
  refine ⟨h.rxCount_le, h.rxHead_lt, hfit, h.connected, ?_, h.opening, h.fin_iff, ?_, ?_⟩
  · intro h1
    have h1 : s.state.synchronized = false := h1
    simp [hsync] at h1
  · intro _ _
    exact (h.span hsync hf).trans (Nat.le_add_right _ _)
  · intro _ h1
    have h1 : s.finSent = true := h1
    simp [hf] at h1

theorem Sound.writeLoop (now : Nat) (fuel : Nat) {s : InetSocket} (h : Sound s)
    (rest : List UInt8) (written : Nat) :
    Sound (tcpWriteLoop now fuel s rest written).1 ∧
      ∀ e ∈ (tcpWriteLoop now fuel s rest written).2.1, DataInBuffer e := by
  induction fuel generalizing s rest written with
  | zero => exact ⟨h, by simp [tcpWriteLoop]⟩
  | succ fuel ih =>
      have hsame : Sound s ∧ ∀ e ∈ ([] : List Emission), DataInBuffer e := ⟨h, by simp⟩
      rw [tcpWriteLoop]
      split
      · exact hsame
      split
      · exact hsame
      split
      · exact hsame
      split
      · exact hsame
      rename_i hst hspace
      have hst : s.state = .established ∨ s.state = .closeWait := by
        by_contra hno
        push Not at hno
        exact hst hno
      have hqueue := h.queueTx hst (rest.take (min rest.length (tcpTxSize - s.txCount)))
        (by simp only [List.length_take]; omega)
      obtain ⟨hout, hsent⟩ := hqueue.output now
      obtain ⟨hnext, hmore⟩ := ih hout
        (rest.drop (min rest.length (tcpTxSize - s.txCount)))
        (written + min rest.length (tcpTxSize - s.txCount))
      refine ⟨hnext, ?_⟩
      intro e he
      rcases List.mem_append.mp he with he | he
      · exact hsent e he
      · exact hmore e he

theorem Sound.close {s : InetSocket} (h : Sound s) (now : Nat) :
    SoundReaction (tcpClose now s) := by
  have hreq (hst : s.state = .established ∨ s.state = .closeWait) :
      Sound (tcpRequestClose now s) := by
    have hsync : s.state.synchronized = true := by
      rcases hst with h1 | h1 <;> simp [h1, TcpState.synchronized]
    refine ⟨h.rxCount_le, h.rxHead_lt, h.txCount_le, h.connected, ?_, h.opening, h.fin_iff,
      h.span, h.finSpan⟩
    intro h1
    have h1 : s.state.synchronized = false := h1
    simp [hsync] at h1
  unfold tcpClose
  cases hst : s.state with
  | established =>
      obtain ⟨h1, h2⟩ := (hreq (.inl hst)).output now
      exact ⟨h1, h2⟩
  | closeWait =>
      obtain ⟨h1, h2⟩ := (hreq (.inr hst)).output now
      exact ⟨h1, h2⟩
  | synSent =>
      refine ⟨h, ?_⟩
      intro e he
      obtain rfl := List.mem_singleton.mp he
      exact DataInBuffer.empty _ _ _
  | closed | listen | finWait | done | synRcvd => exact ⟨h, by simp⟩

/-- A socket that is opened, actively or passively, starts from an untouched
control block. -/
theorem Sound.opened {s : InetSocket} (h : Sound s) (hst : s.state = .closed)
    (hconn : s.connected = false) (st : TcpState) (hopen : st = .synSent ∨ st = .synRcvd)
    (iss sndWnd rcvNxt : UInt32) (ip : Ipv4Addr) (rport lport : UInt16) (orphan : Bool)
    (parent : Option SockId) (deadline : Nat) :
    Sound { s with remoteIp := ip, remotePort := rport, localPort := lport, connected := true,
                   orphan := orphan, parent := parent, iss := iss, sndUna := iss,
                   sndNxt := iss + 1, sndWnd := sndWnd, rcvNxt := rcvNxt, rtoMs := 1000,
                   state := st, rtoDeadline := deadline } := by
  obtain ⟨htx, hfin, hclose⟩ := h.untouched (by simp [hst, TcpState.synchronized])
    (fun _ => hconn)
  have hnot : st.synchronized = false := by
    rcases hopen with h1 | h1 <;> simp [h1, TcpState.synchronized]
  refine ⟨h.rxCount_le, h.rxHead_lt, h.txCount_le, fun _ _ => rfl,
    fun _ _ => ⟨htx, hfin, hclose⟩, fun _ => rfl, ?_, ?_, ?_⟩ <;>
  · intro h1
    simp [hnot] at h1

end Inet
