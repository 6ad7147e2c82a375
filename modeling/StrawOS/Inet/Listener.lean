import StrawOS.Inet.Backlog

/-!
# Listeners survive received segments

A segment that `inet_find_tcp` matches to a listening socket changes nothing
there unless it carries RST; a segment matched elsewhere, or opening a new
child, leaves the states of all other sockets alone.  Together with `Linked`
this is the backlog invariant of the socket layer, for every run in which no
reset reaches a listener.

A listener has the remote address and port zero, so a reset segment from
`0.0.0.0:0` closes it under its pending children.
-/

namespace Inet

/-- Freeing a socket that does not listen leaves the states of the others. -/
theorem inetFree_state_other {t : Table} {s j : SockId} (h : Linked t)
    (hs : (t s).state ≠ .listen) (hj : j ≠ s) : ((inetFree t s).1 j).state = (t j).state := by
  unfold inetFree
  rw [inetFreeAux_plain _ hs, Function.update_of_ne hj]
  exact (h.leaveBacklog s).2.2 j

theorem inetAlloc_state_other {st : State} (kind : InetKind) (nonblock : Bool)
    (mem : Memory) {j : SockId} (hj : (st.sockets j).used = true) :
    ((inetAlloc st kind nonblock mem).1.sockets j).state = (st.sockets j).state := by
  have hfree : ∀ (i : SockId) (s : InetSocket), s.parent = none → s.state = .closed → j ≠ i →
      ((inetFree (Function.update st.sockets i s) i).1 j).state = (st.sockets j).state := by
    intro i s hp hst hji
    unfold inetFree
    rw [inetFreeAux_plain _ (by simp [hst]), leaveBacklog_of_none (by simpa using hp)]
    simp [hji]
  unfold inetAlloc
  split
  · rfl
  · rename_i i hfind
    have hi : (st.sockets i).used = false := by simpa using findSlot_some hfind
    have hji : j ≠ i := by
      rintro rfl
      rw [hi] at hj
      exact absurd hj (by decide)
    dsimp only
    split
    · split
      · simp [hji]
      · exact hfree i _ rfl rfl hji
    · split
      · simp [hji]
      · exact hfree i _ rfl rfl hji

theorem tcpPassiveOpen_state_other {st : State} (env : Env) (srcIp : Ipv4Addr)
    (seg : TcpSegment) {j : SockId} (h : Linked st.sockets) (hj : (st.sockets j).used = true) :
    ((tcpPassiveOpen env st srcIp seg).1.sockets j).state = (st.sockets j).state := by
  have hother := inetAlloc_state_other .tcp false env.mem hj
  obtain ⟨-, hfresh⟩ := h.alloc .tcp false env.mem
  unfold tcpPassiveOpen
  split
  · rfl
  split
  · rfl
  split
  · rfl
  split
  · rename_i heq
    rwa [heq] at hother
  · grind

theorem storeReaction_state (t : Table) (i : SockId) (r : Reaction) (j : SockId) :
    (storeReaction t i r j).state = if j = i then r.sock.state else (t j).state := by
  unfold storeReaction
  cases r.accepted <;> cases r.sock.parent <;>
    simp only [Function.update_apply, apply_ite InetSocket.state]
  -- only an accepted child with a parent writes a second slot, and not its state
  rename_i l
  by_cases hjl : j = l
  · subst hjl
    split_ifs <;> rfl
  · rw [if_neg hjl]

theorem tcpReceive_listen {s : InetSocket} (hs : s.state = .listen) (now : Nat) (seg : TcpSegment)
    (hrst : hasFlag seg.flags tcpRst = false) : tcpReceive now s seg = { sock := s } := by
  unfold tcpReceive
  simp [hrst, hs]

theorem listener_survives {st : State} (h : Linked st.sockets) (env : Env)
    (srcIp : Ipv4Addr) (data : List UInt8)
    (hg : NoListenerReset st (env, .tcpDeliver srcIp data)) {l : SockId}
    (hl : (st.sockets l).state = .listen) :
    ((inetTcpDeliver env st srcIp data).1.sockets l).state = .listen := by
  have hused : (st.sockets l).used = true := by
    by_contra hu
    rw [h.zero l (by simpa using hu)] at hl
    simp at hl
  unfold inetTcpDeliver
  split
  · exact hl
  rename_i seg hparse
  unfold tcpSegmentArrives
  split
  · rw [tcpPassiveOpen_state_other env srcIp seg h hused, hl]
  rename_i i hfind
  by_cases hil : i = l
  · subst hil
    have hrst : hasFlag seg.flags tcpRst = false := by
      by_contra h0
      exact hg seg i hparse hfind (by simpa using h0) hl
    rw [tcpReceive_listen hl env.now seg hrst]
    exact (storeReaction_state _ _ _ i).trans (by simpa using hl)
  · -- the matched socket is another one; it may join `l`'s backlog or be freed
    obtain ⟨hs, hacc⟩ := LinkStable.receive env.now seg (hg seg i hparse hfind)
    have hstore := h.storeReaction (inetFindTcp_used hfind) hs hacc
    have hli : l ≠ i := fun h0 => hil h0.symm
    unfold applyReaction
    split
    · rename_i hfree
      have hnl : (tcpReceive env.now (st.sockets i) seg).sock.state ≠ .listen := by
        intro h0
        have hsl := hs.listen.mp h0
        have hrst : hasFlag seg.flags tcpRst = false := by
          by_contra h2
          exact hg seg i hparse hfind (by simpa using h2) hsl
        rw [tcpReceive_listen hsl env.now seg hrst] at hfree
        simp at hfree
      rw [inetFree_state_other hstore (by rw [storeReaction_state]; simpa using hnl) hli,
        storeReaction_state, if_neg hli, hl]
    · rw [storeReaction_state, if_neg hli, hl]

/-- **The backlog invariant.**  Along every run in which no reset is matched to a
listener, parents and backlogs agree, and no received segment changes the state
of a listening socket. -/
theorem backlog_invariant {st : State} (h : inetMachine.Reachable NoListenerReset st) :
    BacklogsConsistent st.sockets ∧
      ∀ env srcIp data l, NoListenerReset st (env, .tcpDeliver srcIp data) →
        (st.sockets l).state = .listen →
        ((inetStep st (env, .tcpDeliver srcIp data)).1.sockets l).state = .listen :=
  ⟨(linked_of_reachable h).consistent,
    fun env srcIp data _ hg hl => listener_survives (linked_of_reachable h) env srcIp data hg hl⟩

/-! ## A listener and a child -/

/-- Memory and clock of a quiet machine. -/
def quietEnv : Env := ⟨0, 7000, ⟨some fun _ => 0, some fun _ => 0, true⟩⟩

/-- Bind a socket to port 80, listen, and receive one SYN from `10.0.0.9:4000`. -/
def listenRun : List (Env × Op) :=
  [(quietEnv, .socketCreate .tcp false true),
    (quietEnv, .bind 0 [48, 46, 48, 46, 48, 46, 48, 58, 56, 48]),
    (quietEnv, .listen 0),
    (quietEnv, .tcpDeliver (ipv4FromBytes 10 0 0 9)
      (tcpLayout ⟨4000, 80, 100, 0, tcpSyn, 65535, []⟩ 0))]

/-- A reset from address and port zero. -/
def zeroReset : Env × Op :=
  (quietEnv, .tcpDeliver 0 (tcpLayout ⟨0, 80, 0, 0, tcpRst, 0, []⟩ 0))

theorem listenRun_reachable :
    inetMachine.Reachable NoListenerReset (inetMachine.run {} listenRun) := by
  refine .step _ (.step _ (.step _ (.step _ (.start rfl) trivial) trivial) trivial) ?_
  intro seg i hparse _ hrst
  obtain rfl := Option.some.inj hparse
  exact absurd hrst (by decide)

theorem listenRun_consistent :
    ((inetMachine.run {} listenRun).sockets 1).parent = some 0 ∧
      BacklogsConsistent (inetMachine.run {} listenRun).sockets :=
  ⟨by decide +kernel, (backlog_invariant listenRun_reachable).1⟩

/-- The reset closes the listener and leaves its child with a closed parent. -/
theorem zero_reset_closes_listener :
    ∃ st op l c, inetMachine.Reachable (fun _ _ => True) st ∧
      (st.sockets l).used = true ∧ (st.sockets l).state = .listen ∧
      ((inetStep st op).1.sockets l).state ≠ .listen ∧
      ¬ BacklogsConsistent (inetStep st op).1.sockets ∧
      ((inetStep st op).1.sockets c).parent = some l := by
  refine ⟨inetMachine.run {} listenRun, zeroReset, 0, 1,
    Machine.Reachable.run (.start rfl) _ fun _ _ _ _ => trivial,
    by decide +kernel, by decide +kernel, by decide +kernel, ?_, by decide +kernel⟩
  intro hcons
  have hchild : ((inetStep (inetMachine.run {} listenRun) zeroReset).1.sockets 1).used = true ∧
      ((inetStep (inetMachine.run {} listenRun) zeroReset).1.sockets 1).parent = some 0 ∧
      ((inetStep (inetMachine.run {} listenRun) zeroReset).1.sockets 0).state = .closed := by
    decide +kernel
  have hl := (hcons.parent_listens 1 0 hchild.1 hchild.2.1).2.2
  exact absurd hl (by decide)

end Inet
