import StrawOS.Stream.Sender

/-!
# What a segment does to the receiving side

The receiver takes payload only at `rcv_nxt`, where a segment of the sender holds
the bytes of the stream that come next, and a FIN only there too, where by the
same token the stream ends.
-/

namespace Stream

open Inet

variable {iss : UInt32} {wrote got : List UInt8} {s : InetSocket} {r : Nat} {closing : Bool}
  {seg : TcpSegment}

/-- The stream of a peer with initial number `iss` has been taken up to position
`r`; what of it has not been read is in the ring. -/
structure Receiving (iss : UInt32) (wrote got : List UInt8) (s : InetSocket) (r : Nat) : Prop where
  rcvNxt : s.rcvNxt = iss + 1 + .ofNat r
  le : r ≤ wrote.length
  stored : got ++ queued s = wrote.take r
  fin : s.finReceived = false

/-- All of the stream has been taken, and its end seen. -/
structure Ended (wrote got : List UInt8) (s : InetSocket) : Prop where
  fin : s.finReceived = true
  stored : got ++ queued s = wrote

theorem Receiving.of_view {s' : InetSocket} (h : Receiving iss wrote got s r)
    (hview : recvView s' = recvView s) : Receiving iss wrote got s' r := by
  have hq := queued_of_view hview
  simp only [recvView, Prod.mk.injEq] at hview
  exact ⟨hview.1.trans h.rcvNxt, h.le, by rw [hq]; exact h.stored, hview.2.1.trans h.fin⟩

theorem Receiving.takeData (h : Receiving iss wrote got s r) (hring : RingOk s)
    (payload : List UInt8) (hpay : payload = (wrote.drop r).take payload.length)
    (hle : r + payload.length ≤ wrote.length) :
    RingOk (tcpTakeData s payload) ∧ ∃ r' ≥ r, Receiving iss wrote got (tcpTakeData s payload) r' := by
  have hcount := hring.count
  let n := min payload.length (tcpRxSize - s.rxCount)
  have hn : n ≤ payload.length := Nat.min_le_left _ _
  have hlen : (payload.take n).length = n := by rw [List.length_take, Nat.min_eq_left hn]
  have hfit : s.rxCount + n ≤ tcpRxSize := by omega
  refine ⟨⟨hring.head, hfit⟩, r + n, Nat.le_add_right _ _, ?_, by omega, ?_, h.fin⟩
  · show s.rcvNxt + .ofNat n = _
    rw [h.rcvNxt, SeqNum.pos_add]
  · have hpush := Buf.ring_push s.rx (payload.take n) hring.head (by rw [hlen]; exact hfit)
    rw [hlen] at hpush
    have hqueued : queued (tcpTakeData s payload) = queued s ++ payload.take n := hpush
    calc got ++ queued (tcpTakeData s payload)
        = got ++ queued s ++ payload.take n := by rw [hqueued, List.append_assoc]
      _ = wrote.take r ++ (wrote.drop r).take n := by
          rw [h.stored]
          nth_rewrite 1 [hpay]
          rw [List.take_take, Nat.min_eq_left hn]
      _ = wrote.take (r + n) := List.take_add.symm

theorem Receiving.processData (h : Receiving iss wrote got s r) (hring : RingOk s)
    (hlen : wrote.length < 2 ^ 31) (hseg : Carries wrote iss closing seg) :
    RingOk (tcpProcessData s seg) ∧ ∃ r' ≥ r, Receiving iss wrote got (tcpProcessData s seg) r' := by
  unfold tcpProcessData
  split
  · rename_i hcond
    simp only [Bool.and_eq_true, Bool.not_eq_true', decide_eq_true_eq, List.isEmpty_eq_false_iff]
      at hcond
    obtain ⟨⟨hne, hseq⟩, -⟩ := hcond
    obtain ⟨k, hk, hle, hpay⟩ := hseg.data hne
    have hr := h.le
    have hkr : k = r := by
      rw [hk, h.rcvNxt] at hseq
      exact SeqNum.pos_inj (by omega) (by omega) hseq
    subst hkr
    exact h.takeData hring seg.payload hpay hle
  · exact ⟨hring, r, le_refl r, h⟩

theorem Receiving.processText (h : Receiving iss wrote got s r) (hring : RingOk s)
    (hlen : wrote.length < 2 ^ 31) (hseg : Carries wrote iss closing seg) :
    RingOk (tcpProcessText s seg).1 ∧
      ((∃ r' ≥ r, Receiving iss wrote got (tcpProcessText s seg).1 r') ∨
        Ended wrote got (tcpProcessText s seg).1 ∧ closing = true) := by
  obtain ⟨hring', r', hr', hrecv⟩ := h.processData hring hlen hseg
  unfold tcpProcessText
  dsimp only
  split
  · rename_i hfin
    simp only [tcpFinArrives, Bool.and_eq_true, decide_eq_true_eq] at hfin
    obtain ⟨hpay, hseq, hclose⟩ := hseg.fin hfin.1.1
    have hend : r' = wrote.length := by
      have hpos := hfin.1.2
      have hle := hrecv.le
      rw [hseq, hrecv.rcvNxt, hpay, List.length_nil, SeqNum.pos_add, Nat.add_zero] at hpos
      exact (SeqNum.pos_inj (by omega) (by omega) hpos).symm
    refine ⟨⟨hring'.head, hring'.count⟩, .inr ⟨⟨rfl, ?_⟩, hclose⟩⟩
    have hstored := hrecv.stored
    rw [hend, List.take_length] at hstored
    exact hstored
  · exact ⟨hring', .inl ⟨r', hr', hrecv⟩⟩

theorem tcpProcessAck_recvView (now : Nat) (s : InetSocket) (seg : TcpSegment) :
    recvView (tcpProcessAck now s seg) = recvView s := by
  unfold tcpProcessAck
  split
  · split <;> rfl
  · rfl

/-- What a segment leaves of the receiving side: the stream taken up to some
later position, or to its end; every acknowledgement sent carries the new
`rcv_nxt`. -/
structure Arrival (iss : UInt32) (wrote got : List UInt8) (r : Nat) (closing : Bool)
    (s' : InetSocket) (out : List Emission) : Prop where
  ring : RingOk s'
  stream : (∃ r' ≥ r, Receiving iss wrote got s' r') ∨ Ended wrote got s' ∧ closing = true
  acks : ∀ e ∈ out, hasFlag e.seg.flags tcpAck = true → e.seg.ack = s'.rcvNxt
  opened : s'.state ≠ .synSent

theorem Arrival.keeps {s' s'' : InetSocket} {out out' : List Emission}
    (h : Arrival iss wrote got r closing s' out) (hk : ReceiverKeeps s' s'' [] out') :
    Arrival iss wrote got r closing s'' (out ++ out') := by
  obtain ⟨hring, hq⟩ := hk.ring h.ring
  have hq : queued s'' = queued s' := hq
  refine ⟨hring, ?_, ?_, hk.opened h.opened⟩
  · rcases h.stream with ⟨r', hr', hrecv⟩ | ⟨hend, hcl⟩
    · exact .inl ⟨r', hr', hk.rcvNxt.trans hrecv.rcvNxt, hrecv.le, by rw [hq]; exact hrecv.stored,
        hk.fin.trans hrecv.fin⟩
    · exact .inr ⟨⟨hk.fin.trans hend.fin, by rw [hq]; exact hend.stored⟩, hcl⟩
  · intro e he hf
    rw [hk.rcvNxt]
    rcases List.mem_append.mp he with he | he
    · exact h.acks e he hf
    · exact hk.acks e he hf

theorem Arrival.receiveOpen (h : Receiving iss wrote got s r) (hring : RingOk s)
    (hopened : s.state.synchronized = true) (hlen : wrote.length < 2 ^ 31)
    (hseg : Carries wrote iss closing seg) (now : Nat) :
    Arrival iss wrote got r closing (tcpReceiveOpen now s seg).sock
      (tcpReceiveOpen now s seg).out := by
  have hview := tcpProcessAck_recvView now s seg
  obtain ⟨hring', hstream⟩ := (h.of_view hview).processText (hring.of_view hview) hlen hseg
  have hstate : (tcpProcessText (tcpProcessAck now s seg) seg).1.state ≠ .synSent := by
    have hst := tcpProcessAck_state now s seg
    rcases (links_tcpProcessText (tcpProcessAck now s seg) seg).2 with h0 | h0
    · rw [h0, hst]
      intro h1
      rw [h1] at hopened
      exact absurd hopened (by decide)
    · rw [h0, hst]
      revert hopened
      cases s.state <;> simp [TcpState.synchronized, TcpState.peerClosed]
  have htext : Arrival iss wrote got r closing (tcpProcessText (tcpProcessAck now s seg) seg).1
      (if (tcpProcessText (tcpProcessAck now s seg) seg).2 then
        [tcpSendAck (tcpProcessText (tcpProcessAck now s seg) seg).1] else []) := by
    refine ⟨hring', hstream, ?_, hstate⟩
    intro e he _
    split at he
    · obtain rfl : e = _ := by simpa using he
      exact sendSegment_ack _ _ _ _ (by decide)
    · simp at he
  unfold tcpReceiveOpen
  dsimp only
  split
  · exact htext
  · exact htext.keeps (.output now _)

theorem Arrival.of_keeps {s' : InetSocket} {out : List Emission}
    (h : Receiving iss wrote got s r) (hring : RingOk s) (hopened : s.state ≠ .synSent)
    (hk : ReceiverKeeps s s' [] out) : Arrival iss wrote got r closing s' out := by
  have hself : Arrival iss wrote got r closing s [] :=
    ⟨hring, .inl ⟨r, le_refl r, h⟩, by simp, hopened⟩
  exact hself.keeps hk

theorem Arrival.receive (h : Receiving iss wrote got s r) (hring : RingOk s)
    (hopened : s.state ≠ .synSent) (hlen : wrote.length < 2 ^ 31)
    (hseg : Carries wrote iss closing seg) (now : Nat) :
    Arrival iss wrote got r closing (tcpReceive now s seg).sock (tcpReceive now s seg).out := by
  have hself : Arrival iss wrote got r closing s [] := .of_keeps h hring hopened (.refl s)
  unfold tcpReceive
  split
  · exact ⟨⟨hring.head, hring.count⟩, .inl ⟨r, le_refl r, h.of_view rfl⟩, by simp [tcpReset],
      by simp [tcpReset]⟩
  · cases hst : s.state with
    | closed | listen => exact hself
    | established | finWait | closeWait | done =>
        exact .receiveOpen h hring (by rw [hst]; rfl) hlen hseg now
    | synSent => exact absurd hst hopened
    | synRcvd =>
        dsimp only
        split
        · refine ⟨hring, .inl ⟨r, le_refl r, h⟩, ?_, hopened⟩
          intro e he _
          obtain rfl : e = _ := by simpa using he
          exact sendSegment_ack _ _ _ _ (by decide)
        split
        · have hopen := Arrival.receiveOpen (s := tcpAccepted s seg) (h.of_view rfl)
            ⟨hring.head, hring.count⟩ rfl hlen hseg now
          exact ⟨hopen.ring, hopen.stream, hopen.acks, hopen.opened⟩
        · exact hself

/-- A segment of the sender at a receiver that does not know its numbers yet: it
answers the receiver's SYN, or changes nothing that matters. -/
theorem Unsynced.receive (h : Unsynced s) (hring : RingOk s) (hfin : s.finReceived = false)
    (hsyn : hasFlag seg.flags tcpSyn = true → seg.seq = iss) (now : Nat) :
    RingOk (tcpReceive now s seg).sock ∧ (tcpReceive now s seg).sock.finReceived = false ∧
      ((Unsynced (tcpReceive now s seg).sock ∧ (tcpReceive now s seg).out = []) ∨
        (tcpReceive now s seg).sock.rcvNxt = iss + 1 ∧
          (tcpReceive now s seg).sock.rxCount = 0 ∧
          (tcpReceive now s seg).sock.state ≠ .synSent ∧
          ∀ e ∈ (tcpReceive now s seg).out, e.seg.ack = (tcpReceive now s seg).sock.rcvNxt) := by
  unfold tcpReceive
  split
  · exact ⟨⟨hring.head, hring.count⟩, hfin, .inl ⟨⟨.inr ⟨rfl, rfl⟩, h.empty⟩, rfl⟩⟩
  · rcases h.state with hst | ⟨hst, -⟩
    · rw [hst]
      dsimp only
      split
      · rename_i hcond
        have hseq : seg.seq = iss := by
          refine hsyn ?_
          have h0 : seg.flags &&& tcpSyn ≠ 0 := by
            intro h0
            have h1 : seg.flags &&& (tcpSyn ||| tcpAck) &&& tcpSyn = tcpSyn := by
              rw [hcond.1]
              decide
            rw [UInt8.and_assoc, show (tcpSyn ||| tcpAck) &&& tcpSyn = tcpSyn by decide, h0] at h1
            exact absurd h1 (by decide)
          simpa [hasFlag] using h0
        refine ⟨⟨hring.head, hring.count⟩, hfin, .inr ⟨?_, h.empty, by simp [tcpOpened], ?_⟩⟩
        · show seg.seq + 1 = iss + 1
          rw [hseq]
        · intro e he
          obtain rfl : e = _ := by simpa using he
          exact sendSegment_ack _ _ _ _ (by decide)
      · exact ⟨hring, hfin, .inl ⟨h, rfl⟩⟩
    · rw [hst]
      exact ⟨hring, hfin, .inl ⟨h, rfl⟩⟩

theorem Ended.receive (h : Ended wrote got s) (hopened : s.state ≠ .synSent) (now : Nat)
    (seg : TcpSegment) :
    recvView (tcpReceive now s seg).sock = recvView s ∧
      (tcpReceive now s seg).sock.state ≠ .synSent := by
  have htext : ∀ t : InetSocket, t.finReceived = true →
      (tcpProcessText t seg).1 = t := by
    intro t ht
    simp [tcpProcessText, tcpProcessData, tcpFinArrives, ht]
  have hopen : ∀ t : InetSocket, t.finReceived = true → t.state ≠ .synSent →
      recvView (tcpReceiveOpen now t seg).sock = recvView t ∧
        (tcpReceiveOpen now t seg).sock.state ≠ .synSent := by
    intro t ht hst
    have hview := tcpProcessAck_recvView now t seg
    have hfin : (tcpProcessAck now t seg).finReceived = true :=
      (congrArg (fun v => v.2.1) hview).trans ht
    have hst' : (tcpProcessAck now t seg).state ≠ .synSent := by
      rw [tcpProcessAck_state]
      exact hst
    unfold tcpReceiveOpen
    dsimp only
    rw [htext _ hfin]
    split
    · exact ⟨hview, hst'⟩
    · refine ⟨?_, tcpOutput_opened now _ hst'⟩
      have hout := tcpOutput_recvView now (tcpProcessAck now t seg)
      exact hout.trans hview
  unfold tcpReceive
  split
  · exact ⟨rfl, by simp [tcpReset]⟩
  · cases hst : s.state with
    | closed | listen => exact ⟨rfl, hopened⟩
    | established | finWait | closeWait | done => exact hopen s h.fin hopened
    | synSent => exact absurd hst hopened
    | synRcvd =>
        dsimp only
        split
        · exact ⟨rfl, hopened⟩
        split
        · exact hopen (tcpAccepted s seg) h.fin (by simp [tcpAccepted])
        · exact ⟨rfl, hopened⟩

end Stream
