import StrawOS.Stream.Sender

/-!
# Writing and closing

`inet_write` may accept bytes in several rounds, each followed by `tcp_output`.
What it accepts is read off its return code, or off what is left to write when it
falls asleep (`acceptedBytes`).  A write that runs before the close extends the
stream; one that runs later must find the socket in a state in which it accepts
nothing.
-/

namespace Stream

open Inet

variable {wrote acc : List UInt8} {s s' : InetSocket} {out : List Emission}

/-- A step in which the sender accepts `acc`. -/
structure SenderMove (wrote acc : List UInt8) (s s' : InetSocket) (out : List Emission) :
    Prop where
  iss : s'.iss = s.iss
  closing : s.closeRequested = true → s'.closeRequested = true
  frozen : s.closeRequested = true → acc = []
  sending : Sending (wrote ++ acc) s'
  carries : ∀ e ∈ out, Carries (wrote ++ acc) s.iss s'.closeRequested e.seg

theorem SenderStep.move (h : SenderStep wrote s s' out) : SenderMove wrote [] s s' out := by
  refine ⟨h.iss, fun h0 => h.closing.trans h0, fun _ => rfl, ?_, ?_⟩
  · rw [List.append_nil]
    exact h.sending
  · intro e he
    rw [List.append_nil, h.closing]
    exact h.carries e he

/-! ## What a write accepts -/

theorem acceptedBytes_none {rest : List UInt8} {written : Nat} {rc : Int}
    (h : rc.toNat ≤ written) : acceptedBytes rest written (.code rc) = [] := by
  rw [acceptedBytes, Nat.sub_eq_zero_of_le h, List.take_zero]

theorem acceptedBytes_asleep (rest : List UInt8) (written : Nat) :
    acceptedBytes rest written (.blocked rest written) = [] := by
  rw [acceptedBytes, Nat.sub_self, List.take_zero]

/-- A return code counts at least what was written before, and what is left to
write is part of what was there. -/
def WriteBounds (rest : List UInt8) (written : Nat) : WriteResult → Prop
  | .code rc => 0 < written → written ≤ rc.toNat
  | .blocked rest' _ => rest'.length ≤ rest.length

theorem tcpWriteLoop_bounds (now fuel : Nat) (s : InetSocket) (rest : List UInt8)
    (written : Nat) : WriteBounds rest written (tcpWriteLoop now fuel s rest written).2.2 := by
  induction fuel generalizing s rest written with
  | zero =>
      intro h
      rw [if_neg (by omega)]
      simp
  | succ fuel ih =>
      have hcode : WriteBounds rest written
          (.code (if written = 0 then -EAGAIN else written)) := by
        intro h
        rw [if_neg (by omega)]
        simp
      have hstop : WriteBounds rest written (if s.nonblock then
          .code (if written = 0 then -EAGAIN else written) else .blocked rest written) := by
        split
        · exact hcode
        · exact le_refl _
      rw [tcpWriteLoop]
      split
      · exact hcode
      split
      · exact hstop
      split
      · intro h
        rw [if_pos (by omega)]
        simp
      split
      · exact hstop
      have hrec := ih (tcpOutput now (tcpQueueTx s
        (rest.take (min rest.length (tcpTxSize - s.txCount))))).1
        (rest.drop (min rest.length (tcpTxSize - s.txCount)))
        (written + min rest.length (tcpTxSize - s.txCount))
      revert hrec
      generalize (tcpWriteLoop now fuel _ _ _).2.2 = res
      cases res with
      | code rc =>
          intro hrec h
          have := hrec (by omega)
          omega
      | blocked rest' w =>
          intro hrec
          have : rest'.length ≤ (rest.drop (min rest.length (tcpTxSize - s.txCount))).length := hrec
          rw [List.length_drop] at this
          show rest'.length ≤ rest.length
          omega

/-- What a write accepts is what its first round accepts, then the rest. -/
theorem acceptedBytes_round {rest : List UInt8} {written n : Nat} {res : WriteResult}
    (hpos : 0 < n) (hn : n ≤ rest.length)
    (hres : WriteBounds (rest.drop n) (written + n) res) :
    acceptedBytes rest written res =
      rest.take n ++ acceptedBytes (rest.drop n) (written + n) res := by
  cases res with
  | code rc =>
      have h : written + n ≤ rc.toNat := hres (by omega)
      simp only [acceptedBytes]
      rw [← List.take_add]
      congr 1
      omega
  | blocked rest' w =>
      have h : rest'.length ≤ (rest.drop n).length := hres
      rw [List.length_drop] at h
      simp only [acceptedBytes]
      rw [← List.take_add, List.length_drop]
      congr 1
      omega

/-! ## The rounds of a write -/

theorem tcpOutput_error (now : Nat) (s : InetSocket) : (tcpOutput now s).1.error = s.error :=
  tcpOutput_induct (P := fun s' _ => s'.error = s.error) now s rfl
    (fun _ _ h _ _ => h) (fun _ _ h _ _ => h) (fun _ _ h => h)

theorem Window.queueTx {u v : Nat} (h : Window wrote s u v) (hclose : s.closeRequested = false)
    (data : List UInt8) : Window (wrote ++ data) (tcpQueueTx s data) u v := by
  have hfin : s.finSent = false := by
    by_contra h0
    have := (h.fin (by simpa using h0)).2.2
    rw [hclose] at this
    exact absurd this (by decide)
  have hlow := h.low
  have hcount := h.count
  have hhigh := h.high hfin
  constructor
  · exact h.una
  · exact h.nxt
  · rw [List.length_append]
    omega
  · exact h.order
  · show s.txCount + data.length = _
    rw [List.length_append]
    omega
  · show Buf.read (Buf.write s.tx s.txCount data) 0 (s.txCount + data.length) = _
    rw [Buf.read_add, Buf.read_write_disjoint (by omega), Nat.zero_add, Buf.read_write_self,
      h.bytes, List.drop_append_of_le_length h.low]
  · rw [List.length_append]
    omega
  · exact fun h0 => absurd (hfin.symm.trans h0) (by decide)

/-- The owner has closed the socket and the state would still let a write in. -/
def LateWrite (s : InetSocket) : Prop :=
  s.closeRequested = true ∧ (s.state = .established ∨ s.state = .closeWait)

instance (s : InetSocket) : Decidable (LateWrite s) :=
  inferInstanceAs (Decidable (_ ∧ _))

theorem SenderMove.none (h : Sending wrote s) (hacc : acc = []) : SenderMove wrote acc s s [] := by
  subst hacc
  exact (SenderStep.refl h).move

theorem SenderMove.writeLoop (now fuel : Nat) (h : Sending wrote s) (hlate : ¬ LateWrite s)
    (herror : s.error ≤ 0) (rest : List UInt8) (written : Nat)
    (hlen : (wrote ++ acceptedBytes rest written
      (tcpWriteLoop now fuel s rest written).2.2).length < 2 ^ 31) :
    SenderMove wrote (acceptedBytes rest written (tcpWriteLoop now fuel s rest written).2.2) s
      (tcpWriteLoop now fuel s rest written).1 (tcpWriteLoop now fuel s rest written).2.1 := by
  induction fuel generalizing wrote s rest written with
  | zero =>
      refine .none h (acceptedBytes_none ?_)
      split <;> simp [EAGAIN]
  | succ fuel ih =>
      have hcode : acceptedBytes rest written
          (.code (if written = 0 then -EAGAIN else written)) = [] := by
        refine acceptedBytes_none ?_
        split <;> simp [EAGAIN]
      have hstop : acceptedBytes rest written (if s.nonblock then
          .code (if written = 0 then -EAGAIN else written) else .blocked rest written) = [] := by
        split
        · exact hcode
        · exact acceptedBytes_asleep rest written
      have hbounds := tcpWriteLoop_bounds now fuel
      revert hlen
      rw [tcpWriteLoop]
      split
      · exact fun _ => .none h hcode
      split
      · exact fun _ => .none h hstop
      split
      · refine fun _ => .none h (acceptedBytes_none ?_)
        split
        · simp
        · split
          · omega
          · simp [EPIPE]
      split
      · exact fun _ => .none h hstop
      rename_i hrest _ hstate hspace
      generalize hn : min rest.length (tcpTxSize - s.txCount) = n
      have hpos : 0 < n := by
        have := List.length_pos_of_ne_nil hrest
        omega
      have hnle : n ≤ rest.length := by omega
      have hst : s.state = .established ∨ s.state = .closeWait := by
        by_contra h0
        push Not at h0
        exact hstate h0
      have hopen : s.closeRequested = false := by
        by_contra h0
        exact hlate ⟨by simpa using h0, hst⟩
      have hsync : s.state.synchronized = true := by rcases hst with h0 | h0 <;> rw [h0] <;> rfl
      obtain ⟨u, v, hwin⟩ := h.synced hsync
      have hqueued : Sending (wrote ++ rest.take n) (tcpQueueTx s (rest.take n)) :=
        ⟨fun h0 => by
          rcases h0 with h0 | h0 <;> rw [show s.state = _ from h0] at hsync <;>
            exact absurd hsync (by decide),
          fun _ => ⟨u, v, hwin.queueTx hopen _⟩⟩
      intro hlen
      have hround := acceptedBytes_round hpos hnle (hbounds (tcpOutput now
        (tcpQueueTx s (rest.take n))).1 (rest.drop n) (written + n))
      rw [hround] at hlen ⊢
      rw [← List.append_assoc] at hlen
      have hsend := SenderStep.output hqueued (by
        rw [List.length_append] at hlen
        omega) now
      have hclosed : (tcpOutput now (tcpQueueTx s (rest.take n))).1.closeRequested = false :=
        hsend.closing.trans hopen
      have hrec := ih hsend.sending (by rintro ⟨h0, -⟩; rw [hclosed] at h0; exact absurd h0 (by decide))
        (by rw [tcpOutput_error]; exact herror) (rest.drop n) (written + n) hlen
      refine ⟨hrec.iss.trans hsend.iss, fun h0 => absurd (hopen.symm.trans h0) (by decide),
        fun h0 => absurd (hopen.symm.trans h0) (by decide), ?_, ?_⟩
      · rw [← List.append_assoc]
        exact hrec.sending
      · intro e he
        rw [← List.append_assoc]
        rcases List.mem_append.mp he with he | he
        · exact (hsend.carries e he).extend (fun h0 => absurd (hopen.symm.trans h0) (by decide))
            (fun h0 => absurd (hopen.symm.trans h0) (by decide))
        · have hiss : (tcpOutput now (tcpQueueTx s (rest.take n))).1.iss = s.iss := hsend.iss
          rw [← hiss]
          exact hrec.carries e he

theorem acceptedBytes_shut (now fuel : Nat) (hst : s.state ≠ .established ∧ s.state ≠ .closeWait)
    (herror : s.error ≤ 0) (rest : List UInt8) (written : Nat) :
    acceptedBytes rest written (tcpWriteLoop now fuel s rest written).2.2 = [] := by
  cases fuel with
  | zero =>
      refine acceptedBytes_none ?_
      split <;> simp [EAGAIN]
  | succ fuel =>
      have hcode : acceptedBytes rest written
          (.code (if written = 0 then -EAGAIN else written)) = [] := by
        refine acceptedBytes_none ?_
        split <;> simp [EAGAIN]
      rw [tcpWriteLoop]
      split
      · exact hcode
      split
      · split
        · exact hcode
        · exact acceptedBytes_asleep rest written
      refine acceptedBytes_none ?_
      split
      · simp
      · split
        · omega
        · simp [EPIPE]

/-! ## Closing -/

theorem SenderMove.close (h : Sending wrote s) (hlen : wrote.length < 2 ^ 31) (now : Nat) :
    SenderMove wrote [] s (tcpClose now s).sock (tcpClose now s).out := by
  have hclose (hsync : s.state.synchronized = true) : SenderMove wrote [] s
      (tcpOutput now (tcpRequestClose now s)).1 (tcpOutput now (tcpRequestClose now s)).2 := by
    obtain ⟨u, v, hwin⟩ := h.synced hsync
    have hreq : Sending wrote (tcpRequestClose now s) :=
      ⟨fun h0 => by
        rcases h0 with h0 | h0 <;> rw [show s.state = _ from h0] at hsync <;>
          exact absurd hsync (by decide),
        fun _ => ⟨u, v, hwin.1, hwin.2, hwin.3, hwin.4, hwin.5, hwin.6, hwin.7,
          fun h0 => ⟨(hwin.fin h0).1, (hwin.fin h0).2.1, rfl⟩⟩⟩
    have hout := (SenderStep.output hreq hlen now).move
    exact ⟨hout.iss, fun _ => hout.closing rfl, fun _ => rfl, hout.sending, hout.carries⟩
  unfold tcpClose
  cases hst : s.state with
  | established | closeWait => exact hclose (by rw [hst]; rfl)
  | synSent =>
      refine ⟨rfl, id, fun _ => rfl, by rwa [List.append_nil], ?_⟩
      intro e he
      obtain rfl : e = _ := by simpa using he
      exact .bareRst _ _
  | closed | listen | finWait | done | synRcvd => exact (SenderStep.refl h).move

end Stream
