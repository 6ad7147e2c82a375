import StrawOS.Inet.ControlBlockRun

/-!
# The tuples of connections

A TCP connection is found by its remote address, remote port and local port.  The
local port comes from `inet_alloc_port` for an active open, and from the listener for
a passive one; `inet_bind` sets it too, but on a socket that is not connected.

`Tuples` says that no two connections have the same tuple, and that a socket without a
connection has the remote address and port zero, which no connection has.  `Carried`
collects what the events do that open no connection.
-/

namespace Inet

/-! ## Ephemeral ports -/

/-- The port that `inet_next_port` moves on to. -/
def portAfter (p : UInt16) : UInt16 := if p + 1 < 49152 then 49152 else p + 1

/-- The ports of consecutive tries. -/
def portSeq (next : UInt16) : Nat → UInt16
  | 0 => next
  | k + 1 => portSeq (portAfter next) k

theorem portAfter_toNat {p : UInt16} (hp : 49152 ≤ p.toNat) :
    (portAfter p).toNat = 49152 + (p.toNat - 49152 + 1) % 16384 := by
  have hlt := p.toNat_lt
  have hadd : (p + 1).toNat = (p.toNat + 1) % 65536 := UInt16.toNat_add p 1
  have hiff : p + 1 < 49152 ↔ (p + 1).toNat < 49152 := UInt16.lt_iff_toNat_lt
  by_cases hwrap : p + 1 < 49152
  · have hsmall := hiff.mp hwrap
    have hlast : p.toNat = 65535 := by omega
    rw [portAfter, if_pos hwrap, hlast]
    rfl
  · have hlarge := mt hiff.mpr hwrap
    rw [portAfter, if_neg hwrap]
    omega

theorem portSeq_toNat {next : UInt16} (hnext : 49152 ≤ next.toNat) (k : Nat) :
    (portSeq next k).toNat = 49152 + (next.toNat - 49152 + k) % 16384 := by
  induction k generalizing next with
  | zero =>
    have hlt := next.toNat_lt
    rw [portSeq]
    omega
  | succ k ih =>
    have hafter := portAfter_toNat hnext
    rw [portSeq, ih (by omega), hafter]
    omega

/-- A try that finds its port free ends the search with a free port. -/
theorem inetAllocPortLoop_free {t : Table} {next : UInt16} (hnext : 49152 ≤ next.toNat)
    {tries k : Nat} (hk : k < tries) (hfree : portTaken t (portSeq next k) = false) :
    49152 ≤ (inetAllocPortLoop t tries next).1.toNat ∧
      portTaken t (inetAllocPortLoop t tries next).1 = false ∧
      49152 ≤ (inetAllocPortLoop t tries next).2.toNat := by
  induction tries generalizing next k with
  | zero => omega
  | succ tries ih =>
    have hafter : 49152 ≤ (portAfter next).toNat := by
      rw [portAfter_toNat hnext]
      omega
    rw [inetAllocPortLoop]
    cases htaken : portTaken t next with
    | false => exact ⟨hnext, htaken, hafter⟩
    | true =>
      cases k with
      | zero =>
        rw [portSeq, htaken] at hfree
        cases hfree
      | succ k => exact ih hafter (by omega) hfree

theorem portTaken_iff {t : Table} {p : UInt16} :
    portTaken t p = true ↔ ∃ i, (t i).used = true ∧ (t i).localPort = p := by
  simp [portTaken]

theorem exists_free_port (t : Table) {next : UInt16} (hnext : 49152 ≤ next.toNat) :
    ∃ k, k < inetMaxSockets + 1 ∧ portTaken t (portSeq next k) = false := by
  by_contra hall
  have htaken : ∀ k : Fin (inetMaxSockets + 1), ∃ i : SockId,
      (t i).used = true ∧ (t i).localPort = portSeq next k := by
    intro k
    by_contra hnone
    refine hall ⟨k, k.isLt, ?_⟩
    rw [← portTaken_iff] at hnone
    exact Bool.eq_false_iff.mpr hnone
  choose holder hholder using htaken
  have hinj : Function.Injective holder := by
    intro k l heq
    have hport : portSeq next k = portSeq next l := by
      rw [← (hholder k).2, ← (hholder l).2, heq]
    have hnat := congrArg UInt16.toNat hport
    rw [portSeq_toNat hnext, portSeq_toNat hnext] at hnat
    have hk := k.isLt
    have hl := l.isLt
    simp only [inetMaxSockets] at hk hl
    exact Fin.ext (by omega)
  have hcard := Fintype.card_le_of_injective holder hinj
  simp at hcard

/-- `inet_alloc_port` returns a port that no used socket has, and that is not zero. -/
theorem inetAllocPort_free {st : State} (hnext : 49152 ≤ st.nextPort.toNat) :
    49152 ≤ (inetAllocPort st).1.toNat ∧ portTaken st.sockets (inetAllocPort st).1 = false ∧
      49152 ≤ (inetAllocPort st).2.toNat := by
  obtain ⟨k, hk, hfree⟩ := exists_free_port st.sockets hnext
  exact inetAllocPortLoop_free hnext (lt_trans hk (by decide)) hfree

/-! ## What events keep -/

/-- The fields that `inet_find_tcp` and its kin compare, and `connected`. -/
def identity (s : InetSocket) : Bool × InetKind × UInt16 × UInt16 × Ipv4Addr × Bool :=
  (s.used, s.kind, s.localPort, s.remotePort, s.remoteIp, s.connected)

/-- A change of one socket that leaves its tuple alone, and makes no listener of it. -/
structure Keeps (s s' : InetSocket) : Prop where
  identity : identity s' = identity s
  listen : s'.state = .listen → s.state = .listen

theorem Keeps.refl (s : InetSocket) : Keeps s s := ⟨rfl, id⟩

theorem Keeps.trans {s s' s'' : InetSocket} (h : Keeps s s') (h' : Keeps s' s'') : Keeps s s'' :=
  ⟨h'.identity.trans h.identity, fun hl => h.listen (h'.listen hl)⟩

theorem Keeps.used {s s' : InetSocket} (h : Keeps s s') : s'.used = s.used :=
  congrArg Prod.fst h.identity

theorem Keeps.output (now : Nat) (s : InetSocket) : Keeps s (tcpOutput now s).1 := by
  apply tcpOutput_induct (P := fun s' _ => Keeps s s') now s
  · exact Keeps.refl s
  · exact fun s' out h _ _ => h.trans ⟨rfl, id⟩
  · intro s' out h hsends _
    refine h.trans ⟨rfl, ?_⟩
    simp only [tcpSendFin]
    split <;> simp
  · exact fun s' out h => h.trans ⟨rfl, id⟩

theorem Keeps.processAck (now : Nat) (s : InetSocket) (seg : TcpSegment) :
    Keeps s (tcpProcessAck now s seg) := by
  unfold tcpProcessAck
  split
  · split <;> exact ⟨rfl, id⟩
  · exact Keeps.refl s

theorem Keeps.processText (s : InetSocket) (seg : TcpSegment) :
    Keeps s (tcpProcessText s seg).1 := by
  have hdata : Keeps s (tcpProcessData s seg) := by
    unfold tcpProcessData
    split <;> exact ⟨rfl, id⟩
  unfold tcpProcessText
  dsimp only
  split
  · refine hdata.trans ⟨rfl, ?_⟩
    simp only [tcpTakeFin]
    cases (tcpProcessData s seg).state <;> simp [TcpState.peerClosed]
  · exact hdata

theorem Keeps.receiveOpen (now : Nat) (s : InetSocket) (seg : TcpSegment) :
    Keeps s (tcpReceiveOpen now s seg).sock := by
  have hopen := (Keeps.processAck now s seg).trans (Keeps.processText (tcpProcessAck now s seg) seg)
  unfold tcpReceiveOpen
  dsimp only
  split
  · exact hopen
  · exact hopen.trans (Keeps.output now _)

theorem Keeps.receive (now : Nat) (s : InetSocket) (seg : TcpSegment) :
    Keeps s (tcpReceive now s seg).sock := by
  unfold tcpReceive
  split
  · exact ⟨rfl, by simp [tcpReset]⟩
  · cases hst : s.state with
    | closed | listen => exact Keeps.refl s
    | established | finWait | closeWait | done => exact Keeps.receiveOpen now s seg
    | synSent =>
      dsimp only
      split
      · exact ⟨rfl, by simp [tcpOpened]⟩
      · exact Keeps.refl s
    | synRcvd =>
      dsimp only
      split
      · exact Keeps.refl s
      split
      · have haccepted : Keeps s (tcpAccepted s seg) := ⟨rfl, by simp [tcpAccepted]⟩
        exact haccepted.trans (Keeps.receiveOpen now _ seg)
      · exact Keeps.refl s

theorem Keeps.rollback (s : InetSocket) : Keeps s (tcpRollback s) := by
  refine ⟨rfl, ?_⟩
  unfold tcpRollback
  split
  · simp
  · split <;> simp

theorem Keeps.tick (now : Nat) (s : InetSocket) : Keeps s (tcpTick now s).sock := by
  unfold tcpTick
  split
  · exact Keeps.refl s
  split
  · exact Keeps.refl s
  split
  · exact ⟨rfl, by simp [tcpReset]⟩
  have hback : Keeps s (tcpBackOff now s) := ⟨rfl, id⟩
  cases hst : s.state with
  | synSent | synRcvd => exact hback
  | closed | listen | established | finWait | closeWait | done =>
    exact (hback.trans (Keeps.rollback _)).trans (Keeps.output now _)

theorem Keeps.close (now : Nat) (s : InetSocket) : Keeps s (tcpClose now s).sock := by
  have hrequest : Keeps s (tcpRequestClose now s) := ⟨rfl, id⟩
  unfold tcpClose
  split
  · exact hrequest.trans (Keeps.output now _)
  · exact hrequest.trans (Keeps.output now _)
  · exact Keeps.refl s
  · exact Keeps.refl s

theorem Keeps.read (s : InetSocket) (count : Nat) : Keeps s (tcpRead s count).1 := by
  unfold tcpRead
  split
  · exact Keeps.refl s
  split
  · exact ⟨rfl, id⟩
  split
  · exact Keeps.refl s
  split <;> exact Keeps.refl s

theorem Keeps.writeLoop (now fuel : Nat) (s : InetSocket) (rest : List UInt8) (written : Nat) :
    Keeps s (tcpWriteLoop now fuel s rest written).1 := by
  induction fuel generalizing s rest written with
  | zero => exact Keeps.refl s
  | succ fuel ih =>
    rw [tcpWriteLoop]
    split
    · exact Keeps.refl s
    split
    · exact Keeps.refl s
    split
    · exact Keeps.refl s
    split
    · exact Keeps.refl s
    have hqueue : Keeps s (tcpQueueTx s (rest.take (min rest.length (tcpTxSize - s.txCount)))) :=
      ⟨rfl, id⟩
    exact (hqueue.trans (Keeps.output now _)).trans (ih _ _ _)

theorem Keeps.connectWait (s : InetSocket) (elapsed : Nat) :
    Keeps s (tcpConnectWait s elapsed).1 := by
  unfold tcpConnectWait
  split
  · exact ⟨rfl, by simp⟩
  · exact Keeps.refl s

/-! ## What events do to the table -/

/-- Every socket in use was in use before, with the same tuple. -/
def Carried (t t' : Table) : Prop := ∀ j, (t' j).used = true → Keeps (t j) (t' j)

theorem Carried.refl (t : Table) : Carried t t := fun j _ => Keeps.refl (t j)

theorem Carried.trans {t t' t'' : Table} (h : Carried t t') (h' : Carried t' t'') :
    Carried t t'' := by
  intro j hj
  have hkeep := h' j hj
  exact (h j (hkeep.used ▸ hj)).trans hkeep

theorem Carried.update {t t' : Table} (h : Carried t t') (i : SockId) {s : InetSocket}
    (hs : Keeps (t' i) s) : Carried t (Function.update t' i s) := by
  refine h.trans ?_
  intro j _
  by_cases hj : j = i
  · subst hj
    rw [Function.update_self]
    exact hs
  · rw [Function.update_of_ne hj]
    exact Keeps.refl (t' j)

theorem Carried.clear {t t' : Table} (h : Carried t t') (i : SockId) :
    Carried t (Function.update t' i {}) := by
  intro j hj
  by_cases hji : j = i
  · subst hji
    simp at hj
  · rw [Function.update_of_ne hji] at hj ⊢
    exact h j hj

theorem Carried.leaveBacklog {t t' : Table} (h : Carried t t') (s : SockId) :
    Carried t (leaveBacklog t' s) := by
  unfold Inet.leaveBacklog
  split
  · exact h.update _ ⟨rfl, id⟩
  · exact h

theorem Carried.freeAux {t t' : Table} (h : Carried t t') (fuel : Nat) (s : SockId) :
    Carried t (inetFreeAux fuel t' s).1 := by
  induction fuel generalizing t' s with
  | zero => exact h
  | succ fuel ih =>
    have hchildren : Carried t ((List.finRange inetMaxSockets).foldl (fun acc c =>
        if (acc.1 c).used ∧ (acc.1 c).parent = some s then
          let t2 := Function.update acc.1 c { acc.1 c with parent := none }
          let f := inetFreeAux fuel t2 c
          (f.1, acc.2 ++ tcpSendSegment (t2 c) (t2 c).sndNxt tcpRst [] :: f.2)
        else acc) (Inet.leaveBacklog t' s, [])).1 := by
      refine List.foldlRecOn (motive := fun acc : Table × List Emission => Carried t acc.1) _ _ (h.leaveBacklog s) ?_
      intro acc hacc c _
      split
      · exact ih (hacc.update c (s := { acc.1 c with parent := none }) ⟨rfl, id⟩) c
      · exact hacc
    rw [inetFreeAux]
    split
    · exact hchildren.clear s
    · exact (h.leaveBacklog s).clear s

theorem Carried.free {t t' : Table} (h : Carried t t') (s : SockId) :
    Carried t (inetFree t' s).1 :=
  h.freeAux _ s

theorem Carried.storeReaction {t t' : Table} (h : Carried t t') (i : SockId) {r : Reaction}
    (hr : Keeps (t' i) r.sock) : Carried t (storeReaction t' i r) := by
  have hstored := h.update i hr
  unfold Inet.storeReaction
  split
  · exact hstored.update _ ⟨rfl, id⟩
  · exact hstored

theorem Carried.applyReaction {t t' : Table} (h : Carried t t') (i : SockId) {r : Reaction}
    (hr : Keeps (t' i) r.sock) : Carried t (applyReaction t' i r).1 := by
  have hstored := h.storeReaction i hr
  unfold Inet.applyReaction
  split
  · exact hstored.free i
  · exact hstored

theorem carried_accept (st : State) (i : SockId) (fdFree : Bool) :
    Carried st.sockets (inetAccept st i fdFree).1.sockets ∧
      (inetAccept st i fdFree).1.nextPort = st.nextPort := by
  have hsame := Carried.refl st.sockets
  unfold inetAccept
  dsimp only
  split
  · exact ⟨hsame, rfl⟩
  split
  · exact ⟨hsame, rfl⟩
  rename_i c rest _
  have hpopped : Carried st.sockets
      (Function.update st.sockets i { st.sockets i with backlog := rest }) :=
    hsame.update i ⟨rfl, id⟩
  have htaken := hpopped.update c (s := {
    Function.update st.sockets i { st.sockets i with backlog := rest } c with
      parent := none, orphan := false, nonblock := (st.sockets i).nonblock }) ⟨rfl, id⟩
  split
  · exact ⟨htaken, rfl⟩
  · exact ⟨htaken.free c, rfl⟩

theorem carried_read (st : State) (i : SockId) (count : Nat) :
    Carried st.sockets (inetRead st i count).1.sockets ∧
      (inetRead st i count).1.nextPort = st.nextPort := by
  have hsame := Carried.refl st.sockets
  unfold inetRead
  dsimp only
  split
  · split
    · exact ⟨hsame.update i ⟨rfl, id⟩, rfl⟩
    · exact ⟨hsame, rfl⟩
  · exact ⟨hsame.update i (Keeps.read _ count), rfl⟩

theorem carried_write (env : Env) (st : State) (i : SockId) (rest : List UInt8) (written : Nat) :
    Carried st.sockets (inetWrite env st i rest written).1.sockets ∧
      (inetWrite env st i rest written).1.nextPort = st.nextPort := by
  have hsame := Carried.refl st.sockets
  unfold inetWrite
  split
  · exact ⟨hsame, rfl⟩
  · exact ⟨hsame.update i (Keeps.writeLoop env.now _ _ rest written), rfl⟩

theorem carried_close (env : Env) (st : State) (i : SockId) :
    Carried st.sockets (inetClose env st i).1.sockets := by
  have hsame := Carried.refl st.sockets
  unfold inetClose
  dsimp only
  split
  · exact hsame.applyReaction i (Keeps.close env.now _)
  · exact hsame.free i

theorem carried_tick (now : Nat) (st : State) :
    Carried st.sockets (inetTick now st).1.sockets := by
  refine List.foldlRecOn (motive := fun acc : Table × List Emission => Carried st.sockets acc.1) _ _
    (Carried.refl st.sockets) ?_
  intro acc hacc i _
  unfold inetTickSlot
  split
  · exact hacc.applyReaction i (Keeps.tick now _)
  · exact hacc

theorem carried_udpDeliver (st : State) (srcIp : Ipv4Addr) (srcPort dstPort : UInt16)
    (data : List UInt8) :
    Carried st.sockets (inetUdpDeliver st srcIp srcPort dstPort data).sockets ∧
      (inetUdpDeliver st srcIp srcPort dstPort data).nextPort = st.nextPort := by
  have hsame := Carried.refl st.sockets
  unfold inetUdpDeliver
  split
  · exact ⟨hsame, rfl⟩
  · dsimp only
    split
    · exact ⟨hsame, rfl⟩
    · exact ⟨hsame.update _ ⟨rfl, id⟩, rfl⟩

/-! ## Tuples -/

/-- The socket is a TCP connection, or was one that is not freed yet. -/
def IsConnection (s : InetSocket) : Prop := s.used = true ∧ s.kind = .tcp ∧ s.connected = true

instance : DecidablePred IsConnection := fun s =>
  inferInstanceAs (Decidable (s.used = true ∧ s.kind = .tcp ∧ s.connected = true))

/-- What `inet_find_tcp` compares. -/
def tuple (s : InetSocket) : Ipv4Addr × UInt16 × UInt16 := (s.remoteIp, s.remotePort, s.localPort)

/-- A socket that no segment has a reason to reach. -/
def Fresh (s : InetSocket) : Prop :=
  s.kind = .tcp → s.connected = false ∧ s.remoteIp = 0 ∧ s.remotePort = 0

/-- Connections have tuples of their own, with a remote end; other sockets have none. -/
structure Tuples (t : Table) : Prop where
  idle : ∀ i, (t i).used = true → (t i).kind = .tcp → (t i).connected = false →
    (t i).remoteIp = 0 ∧ (t i).remotePort = 0
  busy : ∀ i, IsConnection (t i) → ¬((t i).remoteIp = 0 ∧ (t i).remotePort = 0)
  apart : ∀ i j, IsConnection (t i) → IsConnection (t j) → tuple (t i) = tuple (t j) → i = j
  listen : ∀ i, (t i).used = true → (t i).kind = .tcp → (t i).state = .listen →
    (t i).connected = false

theorem tuples_empty : Tuples fun _ => {} := by
  refine ⟨?_, ?_, ?_, ?_⟩ <;> simp [IsConnection]

/-- Events that carry the table on, or add sockets without a connection. -/
theorem Tuples.carry {t t' : Table} (h : Tuples t)
    (hc : ∀ j, (t' j).used = true → Keeps (t j) (t' j) ∨ Fresh (t' j)) : Tuples t' := by
  -- A connection of the new table is one of the old table, with its tuple.
  have hold : ∀ i, IsConnection (t' i) → IsConnection (t i) ∧ tuple (t i) = tuple (t' i) := by
    rintro i ⟨hu, hk, hconn⟩
    rcases hc i hu with hkeep | hfresh
    · have hid := hkeep.identity
      simp only [identity, Prod.mk.injEq] at hid
      grind [IsConnection, tuple]
    · rw [(hfresh hk).1] at hconn
      cases hconn
  refine ⟨?_, ?_, ?_, ?_⟩
  · intro i hu hk hconn
    rcases hc i hu with hkeep | hfresh
    · have hid := hkeep.identity
      simp only [identity, Prod.mk.injEq] at hid
      have hidle := h.idle i
      grind
    · exact (hfresh hk).2
  · intro i hi
    obtain ⟨hconn, htuple⟩ := hold i hi
    have hbusy := h.busy i hconn
    grind [tuple]
  · intro i j hi hj heq
    obtain ⟨hci, hti⟩ := hold i hi
    obtain ⟨hcj, htj⟩ := hold j hj
    exact h.apart i j hci hcj (hti.trans (heq.trans htj.symm))
  · intro i hu hk hlisten
    rcases hc i hu with hkeep | hfresh
    · have hid := hkeep.identity
      simp only [identity, Prod.mk.injEq] at hid
      have hl := h.listen i
      have hback := hkeep.listen hlisten
      grind
    · exact (hfresh hk).1

theorem Tuples.carried {t t' : Table} (h : Tuples t) (hc : Carried t t') : Tuples t' :=
  h.carry fun j hj => Or.inl (hc j hj)

theorem Tuples.update {t : Table} (h : Tuples t) (i : SockId) {s : InetSocket} (hs : Fresh s) :
    Tuples (Function.update t i s) := by
  refine h.carry ?_
  intro j _
  by_cases hj : j = i
  · subst hj
    rw [Function.update_self]
    exact Or.inr hs
  · rw [Function.update_of_ne hj]
    exact Or.inl (Keeps.refl (t j))

/-- A slot gets a connection with a tuple that no other connection has. -/
theorem Tuples.connect {t : Table} (h : Tuples t) (i : SockId) {s : InetSocket}
    (hs : IsConnection s) (hremote : ¬(s.remoteIp = 0 ∧ s.remotePort = 0))
    (hstate : s.state ≠ .listen)
    (hnew : ∀ j, j ≠ i → IsConnection (t j) → tuple (t j) ≠ tuple s) :
    Tuples (Function.update t i s) := by
  refine ⟨?_, ?_, ?_, ?_⟩
  · intro j hu hk hconn
    by_cases hj : j = i
    · subst hj
      rw [Function.update_self] at hconn
      rw [hs.2.2] at hconn
      cases hconn
    · rw [Function.update_of_ne hj] at hu hk hconn ⊢
      exact h.idle j hu hk hconn
  · intro j hj
    by_cases hji : j = i
    · subst hji
      rwa [Function.update_self]
    · rw [Function.update_of_ne hji] at hj ⊢
      exact h.busy j hj
  · intro j k hj hk heq
    by_cases hji : j = i <;> by_cases hki : k = i
    · rw [hji, hki]
    · grind
    · grind
    · rw [Function.update_of_ne hji] at hj heq
      rw [Function.update_of_ne hki] at hk heq
      exact h.apart j k hj hk heq
  · intro j hu hk hlisten
    by_cases hj : j = i
    · subst hj
      rw [Function.update_self] at hlisten
      exact absurd hlisten hstate
    · rw [Function.update_of_ne hj] at hu hk hlisten ⊢
      exact h.listen j hu hk hlisten

theorem inetFindTcp_eq_some {t : Table} {ip : Ipv4Addr} {rport lport : UInt16} {i : SockId}
    (h : inetFindTcp t ip rport lport = some i) :
    (t i).used = true ∧ (t i).kind = .tcp ∧ tuple (t i) = (ip, rport, lport) := by
  have hp := List.find?_some h
  grind [tuple]

theorem inetFindTcp_eq_none {t : Table} {ip : Ipv4Addr} {rport lport : UInt16}
    (h : inetFindTcp t ip rport lport = none) (i : SockId) (hu : (t i).used = true)
    (hk : (t i).kind = .tcp) : tuple (t i) ≠ (ip, rport, lport) := by
  have hp := List.find?_eq_none.mp h i (List.mem_finRange i)
  grind [tuple]

theorem Tuples.find {t : Table} (h : Tuples t) {i : SockId} (hi : IsConnection (t i)) :
    inetFindTcp t (t i).remoteIp (t i).remotePort (t i).localPort = some i := by
  cases hfind : inetFindTcp t (t i).remoteIp (t i).remotePort (t i).localPort with
  | none => exact absurd rfl (inetFindTcp_eq_none hfind i hi.1 hi.2.1)
  | some j =>
    obtain ⟨hu, hk, htuple⟩ := inetFindTcp_eq_some hfind
    cases hconn : (t j).connected with
    | true => rw [h.apart j i ⟨hu, hk, hconn⟩ hi htuple]
    | false =>
      have hidle := h.idle j hu hk hconn
      have hbusy := h.busy i hi
      grind [tuple]

/-! ## Steps -/

/-- The tuples, and the range of the next port. -/
structure Ported (st : State) : Prop where
  tuples : Tuples st.sockets
  nextPort : 49152 ≤ st.nextPort.toNat

theorem Ported.carried {st st' : State} (h : Ported st)
    (hc : Carried st.sockets st'.sockets ∧ st'.nextPort = st.nextPort) : Ported st' :=
  ⟨h.tuples.carried hc.1, hc.2 ▸ h.nextPort⟩

/-- `inet_alloc` fills an unused slot with a socket without a connection, or undoes it. -/
theorem Ported.alloc {st : State} (h : Ported st) (kind : InetKind) (nonblock : Bool)
    (mem : Memory) :
    Ported (inetAlloc st kind nonblock mem).1 ∧
      ∀ c, (inetAlloc st kind nonblock mem).2 = some c →
        ((inetAlloc st kind nonblock mem).1.sockets c).used = true ∧
          ((inetAlloc st kind nonblock mem).1.sockets c).kind = kind ∧
          (st.sockets c).used = false ∧
          ∀ j, j ≠ c → (inetAlloc st kind nonblock mem).1.sockets j = st.sockets j := by
  unfold inetAlloc
  split
  · exact ⟨h, by simp⟩
  rename_i i hslot
  have hunused : (st.sockets i).used = false := by
    have hp := List.find?_some hslot
    simpa using hp
  have hothers : ∀ (s : InetSocket) j, j ≠ i → Function.update st.sockets i s j = st.sockets j :=
    fun s j hj => Function.update_of_ne hj s st.sockets
  cases kind with
  | udp =>
    have hport := @inetAllocPort_free
      ⟨Function.update st.sockets i { used := true, kind := .udp, nonblock := nonblock },
        st.nextPort⟩ h.nextPort
    dsimp only
    split
    · refine ⟨⟨h.tuples.update i ?_, hport.2.2⟩, ?_⟩
      · intro hk
        cases hk
      · rintro c ⟨⟩
        exact ⟨by simp, by simp, hunused, hothers _⟩
    · refine ⟨⟨(h.tuples.update i ?_).carried ((Carried.refl _).free i), hport.2.2⟩, by simp⟩
      intro hk
      cases hk
  | tcp =>
    have hfresh : ∀ rx tx, Fresh
        { used := true, kind := .tcp, nonblock := nonblock, rx := rx, tx := tx } :=
      fun _ _ _ => ⟨rfl, rfl, rfl⟩
    dsimp only
    split
    · refine ⟨⟨h.tuples.update i (hfresh _ _), h.nextPort⟩, ?_⟩
      rintro c ⟨⟩
      exact ⟨by simp, by simp, hunused, hothers _⟩
    · exact ⟨⟨(h.tuples.update i (hfresh _ _)).carried ((Carried.refl _).free i), h.nextPort⟩,
        by simp⟩

/-- A connection that comes in has the tuple of a segment that reached no socket. -/
theorem Ported.passiveOpen {st : State} (h : Ported st) (env : Env) (srcIp : Ipv4Addr)
    (seg : TcpSegment) (hfind : inetFindTcp st.sockets srcIp seg.srcPort seg.dstPort = none) :
    Ported (tcpPassiveOpen env st srcIp seg).1 := by
  unfold tcpPassiveOpen
  split
  · exact h
  split
  · exact h
  rename_i l hlistener
  split
  · exact h
  obtain ⟨halloc, hnew⟩ := h.alloc .tcp false env.mem
  cases hst : inetAlloc st .tcp false env.mem with
  | mk st1 c =>
    rw [hst] at halloc hnew
    cases c with
    | none => exact halloc
    | some c =>
      obtain ⟨hused, hkind, hunused, hothers⟩ := hnew c rfl
      have hl := List.find?_some hlistener
      simp only [Bool.and_eq_true, decide_eq_true_eq, beq_iff_eq] at hl
      obtain ⟨⟨⟨hlused, hlkind⟩, hlstate⟩, hlport⟩ := hl
      have hlc : l ≠ c := by
        rintro rfl
        rw [hlused] at hunused
        cases hunused
      have hlocal : (st1.sockets l).localPort = seg.dstPort := (hothers l hlc).symm ▸ hlport
      refine ⟨halloc.tuples.connect c ⟨hused, hkind, rfl⟩ ?_ (by simp [tcpPassiveChild, tcpArmTimer])
        ?_, halloc.nextPort⟩
      · -- A segment from address and port zero would have reached the listener.
        rintro ⟨hip, hport⟩
        have hidle := h.tuples.idle l hlused hlkind (h.tuples.listen l hlused hlkind hlstate)
        have hnone := inetFindTcp_eq_none hfind l hlused hlkind
        have hip : srcIp = 0 := hip
        have hport : seg.srcPort = 0 := hport
        exact hnone (by rw [tuple, hidle.1, hidle.2, hip, hport, hlport])
      · intro j hj hconn heq
        rw [hothers j hj] at hconn heq
        have hnone := inetFindTcp_eq_none hfind j hconn.1 hconn.2.1
        refine hnone (heq.trans ?_)
        show (srcIp, seg.srcPort, (st1.sockets l).localPort) = _
        rw [hlocal]

theorem Ported.tcpDeliver {st : State} (h : Ported st) (env : Env) (srcIp : Ipv4Addr)
    (data : List UInt8) : Ported (inetTcpDeliver env st srcIp data).1 := by
  unfold inetTcpDeliver
  split
  · exact h
  · rename_i seg _
    unfold tcpSegmentArrives
    split
    · rename_i hfind
      exact h.passiveOpen env srcIp seg hfind
    · rename_i i _
      have hreceived := (Carried.refl st.sockets).applyReaction i (Keeps.receive env.now _ seg)
      exact ⟨h.tuples.carried hreceived, h.nextPort⟩

theorem Ported.connect {st : State} (h : Ported st) (env : Env) (netUp : Bool) (i : SockId)
    (hused : (st.sockets i).used = true) (name : List UInt8) :
    Ported (inetConnect env netUp st i name).1 := by
  unfold inetConnect
  split
  · exact h
  rename_i ip port _
  dsimp only
  split
  · exact h
  rename_i hport
  split
  · rename_i hkind
    refine ⟨h.tuples.update i ?_, h.nextPort⟩
    intro hk
    rw [hkind] at hk
    cases hk
  · rename_i hkind
    split
    · exact h
    · obtain ⟨hrange, hfree, hnext⟩ := @inetAllocPort_free
        ⟨Function.update st.sockets i
          { st.sockets i with remoteIp := ip, remotePort := port }, st.nextPort⟩ h.nextPort
      refine ⟨h.tuples.connect i ⟨hused, hkind, rfl⟩ ?_ (by simp [tcpConnect, tcpArmTimer]) ?_, hnext⟩
      · rintro ⟨-, hzero⟩
        exact hport (Or.inr hzero)
      · intro j hj hconn heq
        have hlocal : (st.sockets j).localPort = _ := congrArg (fun p => p.2.2) heq
        rw [Bool.eq_false_iff, Ne, portTaken_iff, not_exists] at hfree
        refine hfree j ?_
        simp only [Function.update_of_ne hj]
        exact ⟨hconn.1, hlocal⟩

/-- `inet_bind` changes the port of a socket without a connection. -/
theorem Ported.bind {st : State} (h : Ported st) (i : SockId)
    (hused : (st.sockets i).used = true) (name : List UInt8) : Ported (inetBind st i name) := by
  unfold inetBind
  split
  · exact h
  dsimp only
  split
  · exact h
  · refine ⟨h.tuples.update i ?_, h.nextPort⟩
    intro hk
    have hconn : (st.sockets i).connected = false := by grind
    exact ⟨hconn, h.tuples.idle i hused hk hconn⟩

theorem Ported.listen {st : State} (h : Ported st) (i : SockId)
    (hused : (st.sockets i).used = true) : Ported (inetListen st i) := by
  unfold inetListen
  dsimp only
  split
  · exact h
  · refine ⟨h.tuples.update i ?_, h.nextPort⟩
    intro hk
    have hconn : (st.sockets i).connected = false := by grind
    exact ⟨hconn, h.tuples.idle i hused hk hconn⟩

theorem Ported.create {st : State} (h : Ported st) (env : Env) (kind : InetKind)
    (nonblock fdFree : Bool) : Ported (inetSocketCreate env st kind nonblock fdFree) := by
  have halloc := (h.alloc kind nonblock env.mem).1
  unfold inetSocketCreate
  split
  · rename_i heq
    rwa [heq] at halloc
  · rename_i heq
    rw [heq] at halloc
    split
    · exact halloc
    · exact ⟨halloc.tuples.carried ((Carried.refl _).free _), halloc.nextPort⟩

theorem Ported.whenUsed {st : State} (h : Ported st) (i : SockId) {r : State × List Emission}
    (hr : (st.sockets i).used = true → Ported r.1) : Ported (whenUsed st i r).1 := by
  unfold Inet.whenUsed
  split
  · exact hr ‹_›
  · exact h

theorem Ported.inetStep {st : State} (h : Ported st) (op : Env × Op) :
    Ported (inetStep st op).1 := by
  obtain ⟨env, op⟩ := op
  cases op with
  | socketCreate kind nonblock fdFree => exact h.create env kind nonblock fdFree
  | connect i netUp name => exact h.whenUsed i fun hu => h.connect env netUp i hu name
  | connectWait i elapsed =>
    exact ⟨h.tuples.carried ((Carried.refl _).update i (Keeps.connectWait _ elapsed)), h.nextPort⟩
  | bind i name => exact h.whenUsed i fun hu => h.bind i hu name
  | listen i => exact h.whenUsed i fun hu => h.listen i hu
  | accept i fdFree => exact h.carried (carried_accept st i fdFree)
  | read i count => exact h.carried (carried_read st i count)
  | write i rest written => exact h.carried (carried_write env st i rest written)
  | ioctl i nonblock =>
    refine h.whenUsed i fun _ => ⟨h.tuples.carried ((Carried.refl _).update i ?_), h.nextPort⟩
    exact ⟨rfl, id⟩
  | close i =>
    exact h.whenUsed i fun _ => ⟨h.tuples.carried (carried_close env st i), h.nextPort⟩
  | tick => exact ⟨h.tuples.carried (carried_tick env.now st), h.nextPort⟩
  | tcpDeliver srcIp data => exact h.tcpDeliver env srcIp data
  | udpDeliver srcIp srcPort dstPort data =>
    exact h.carried (carried_udpDeliver st srcIp srcPort dstPort data)

/-! ## Runs -/

/-- The socket layer from boot on, with `inet_next_port` as it is initialised. -/
def bootMachine : Machine State (Env × Op) Emission where
  start st := st = {}
  step := inetStep

theorem reachable_ported {st : State} (h : bootMachine.Reachable (fun _ _ => True) st) :
    Ported st := by
  refine h.invariant (P := Ported) ?_ ?_
  · rintro st rfl
    exact ⟨tuples_empty, le_refl _⟩
  · intro st op hst _
    exact hst.inetStep op

/-- **Tuples are unique.**  In every run no two connections have the same tuple, a
segment with the tuple of a connection reaches that connection, and a port that
`inet_alloc_port` returns, on this table or one that a call has written to, is neither
zero nor the port of a socket in use. -/
theorem tuples_unique {st : State} (h : bootMachine.Reachable (fun _ _ => True) st) :
    (∀ i j, IsConnection (st.sockets i) → IsConnection (st.sockets j) →
        tuple (st.sockets i) = tuple (st.sockets j) → i = j) ∧
      (∀ i, IsConnection (st.sockets i) →
        inetFindTcp st.sockets (st.sockets i).remoteIp (st.sockets i).remotePort
          (st.sockets i).localPort = some i) ∧
      ∀ t : Table, (inetAllocPort ⟨t, st.nextPort⟩).1 ≠ 0 ∧
        ∀ i, (t i).used = true → (t i).localPort ≠ (inetAllocPort ⟨t, st.nextPort⟩).1 := by
  have hst := reachable_ported h
  refine ⟨hst.tuples.apart, fun i hi => hst.tuples.find hi, fun t => ?_⟩
  obtain ⟨hrange, hfree, -⟩ := @inetAllocPort_free ⟨t, st.nextPort⟩ hst.nextPort
  rw [Bool.eq_false_iff, Ne, portTaken_iff, not_exists] at hfree
  constructor
  · intro hzero
    rw [hzero] at hrange
    exact absurd hrange (by decide)
  · intro i hu heq
    exact hfree i ⟨hu, heq⟩

/-- The connection of a handshake is found by its tuple. -/
theorem handshakeRun_found :
    let t := (bootMachine.run {} handshakeRun).sockets
    IsConnection (t 0) ∧
      inetFindTcp t (t 0).remoteIp (t 0).remotePort (t 0).localPort = some 0 := by
  have hreach : bootMachine.Reachable (fun _ _ => True) (bootMachine.run {} handshakeRun) :=
    Machine.Reachable.run (.start rfl) handshakeRun fun _ _ _ _ => trivial
  have hconn : IsConnection ((bootMachine.run {} handshakeRun).sockets 0) := by decide +kernel
  exact ⟨hconn, (tuples_unique hreach).2.1 0 hconn⟩

end Inet
