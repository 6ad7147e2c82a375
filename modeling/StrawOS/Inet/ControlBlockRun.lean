import StrawOS.Inet.ControlBlock

/-!
# The control-block invariant along every run of the table

Each call, tick and segment changes the table through the single-socket
functions of `ControlBlock` and through changes of links, ports and flags that
the invariant does not mention.  `SoundStep` says what a table update owes:
a sound table again, and only data segments that are slices of their buffers.
-/

namespace Inet

def SoundTable (t : Table) : Prop := ∀ i, Sound (t i)

/-- A sound table and sound segments. -/
def SoundStep (r : Table × List Emission) : Prop :=
  SoundTable r.1 ∧ ∀ e ∈ r.2, DataInBuffer e

theorem SoundTable.update {t : Table} (h : SoundTable t) (i : SockId) {s : InetSocket}
    (hs : Sound s) : SoundTable (Function.update t i s) := by
  intro j
  by_cases hj : j = i
  · subst hj
    simpa using hs
  · simpa [hj] using h j

theorem SoundTable.step {t : Table} (h : SoundTable t) : SoundStep (t, []) :=
  ⟨h, by simp⟩

theorem SoundTable.leaveBacklog {t : Table} (h : SoundTable t) (s : SockId) :
    SoundTable (leaveBacklog t s) := by
  unfold Inet.leaveBacklog
  split
  · exact h.update _ ((h _).setLinks _ _ _ _)
  · exact h

theorem SoundTable.freeAux (fuel : Nat) {t : Table} (h : SoundTable t) (s : SockId) :
    SoundStep (inetFreeAux fuel t s) := by
  induction fuel generalizing t s with
  | zero => exact h.step
  | succ fuel ih =>
      have hchildren : SoundStep ((List.finRange inetMaxSockets).foldl (fun acc c =>
          if (acc.1 c).used ∧ (acc.1 c).parent = some s then
            let t2 := Function.update acc.1 c { acc.1 c with parent := none }
            let f := inetFreeAux fuel t2 c
            (f.1, acc.2 ++ tcpSendSegment (t2 c) (t2 c).sndNxt tcpRst [] :: f.2)
          else acc) (Inet.leaveBacklog t s, [])) := by
        refine List.foldlRecOn (motive := SoundStep) _ _ (h.leaveBacklog s).step ?_
        intro acc hacc c _
        split
        · have hupd := hacc.1.update c ((hacc.1 c).setLinks none (acc.1 c).backlog
            (acc.1 c).orphan (acc.1 c).nonblock)
          obtain ⟨hf1, hf2⟩ := ih hupd c
          refine ⟨hf1, ?_⟩
          intro e he
          rcases List.mem_append.mp he with he | he
          · exact hacc.2 e he
          · rcases List.mem_cons.mp he with rfl | he
            · exact DataInBuffer.empty _ _ _
            · exact hf2 e he
        · exact hacc
      rw [inetFreeAux]
      split
      · exact ⟨hchildren.1.update s sound_empty, hchildren.2⟩
      · exact ((h.leaveBacklog s).update s sound_empty).step

theorem SoundTable.free {t : Table} (h : SoundTable t) (s : SockId) : SoundStep (inetFree t s) :=
  h.freeAux _ s

theorem SoundTable.storeReaction {t : Table} (h : SoundTable t) (i : SockId) {r : Reaction}
    (hr : SoundReaction r) : SoundTable (storeReaction t i r) := by
  have h1 := h.update i hr.1
  unfold Inet.storeReaction
  split
  · exact h1.update _ ((h1 _).setLinks _ _ _ _)
  · exact h1

theorem SoundTable.applyReaction {t : Table} (h : SoundTable t) (i : SockId) {r : Reaction}
    (hr : SoundReaction r) : SoundStep (applyReaction t i r) := by
  have hstore := h.storeReaction i hr
  unfold Inet.applyReaction
  split
  · obtain ⟨hf1, hf2⟩ := hstore.free i
    refine ⟨hf1, ?_⟩
    intro e he
    rcases List.mem_append.mp he with he | he
    · exact hr.2 e he
    · exact hf2 e he
  · exact ⟨hstore, hr.2⟩

theorem SoundTable.alloc {st : State} (h : SoundTable st.sockets) (kind : InetKind)
    (nonblock : Bool) (mem : Memory) :
    SoundTable (inetAlloc st kind nonblock mem).1.sockets ∧
      ∀ c, (inetAlloc st kind nonblock mem).2 = some c →
        ((inetAlloc st kind nonblock mem).1.sockets c).state = .closed ∧
        ((inetAlloc st kind nonblock mem).1.sockets c).connected = false := by
  have hnew : ∀ rx tx port, Sound
      { used := true, kind := kind, nonblock := nonblock, rx := rx, tx := tx,
        localPort := port : InetSocket } := by
    intro rx tx port
    refine ⟨by simp, by simp [tcpRxSize], by simp, ?_, ?_, ?_, ?_, ?_, ?_⟩ <;>
      simp [TcpState.synchronized, Untouched]
  unfold inetAlloc
  split
  · exact ⟨h, by simp⟩
  · rename_i i _
    cases kind with
    | udp =>
        dsimp only
        split
        · refine ⟨h.update i (hnew _ _ _), ?_⟩
          rintro c hc
          obtain rfl : i = c := by simpa using hc
          simp
        · exact ⟨((h.update i (hnew _ _ _)).free i).1, by simp⟩
    | tcp =>
        dsimp only
        split
        · refine ⟨h.update i (hnew _ _ _), ?_⟩
          rintro c hc
          obtain rfl : i = c := by simpa using hc
          simp
        · exact ⟨((h.update i (hnew _ _ _)).free i).1, by simp⟩

/-! ## The steps -/

/-- No received segment acknowledges `snd_una + 2^31` on a connection with
nothing in flight. -/
def NoHalfwayAck (st : State) (op : Env × Op) : Prop :=
  match op.2 with
  | .tcpDeliver srcIp data =>
      ∀ seg i, tcpParse data = some seg →
        inetFindTcp st.sockets srcIp seg.srcPort seg.dstPort = some i →
        hasFlag seg.flags tcpAck = true → ¬ HalfwayAck (st.sockets i) seg.ack
  | _ => True

theorem SoundTable.passiveOpen {st : State} (h : SoundTable st.sockets) (env : Env)
    (srcIp : Ipv4Addr) (seg : TcpSegment) :
    SoundTable (tcpPassiveOpen env st srcIp seg).1.sockets ∧
      ∀ e ∈ (tcpPassiveOpen env st srcIp seg).2, DataInBuffer e := by
  have hsame : SoundTable st.sockets ∧ ∀ e ∈ ([] : List Emission), DataInBuffer e := ⟨h, by simp⟩
  unfold tcpPassiveOpen
  split
  · exact hsame
  split
  · exact hsame
  split
  · exact hsame
  obtain ⟨halloc, hfresh⟩ := h.alloc .tcp false env.mem
  split
  · rename_i st1 heq
    rw [heq] at halloc
    exact ⟨halloc, by simp⟩
  · rename_i l _ _ _ st1 c heq
    rw [heq] at halloc hfresh
    obtain ⟨hcl, hconn⟩ := hfresh c rfl
    constructor
    · exact halloc.update c ((halloc c).opened hcl hconn .synRcvd (.inr rfl) _ _ _ _ _ _ true
        (some l) _)
    · intro e he
      obtain rfl := List.mem_singleton.mp he
      exact DataInBuffer.empty _ _ _

theorem SoundTable.tcpDeliver {st : State} (h : SoundTable st.sockets) (env : Env)
    (srcIp : Ipv4Addr) (data : List UInt8)
    (hg : NoHalfwayAck st (env, .tcpDeliver srcIp data)) :
    SoundTable (inetTcpDeliver env st srcIp data).1.sockets ∧
      ∀ e ∈ (inetTcpDeliver env st srcIp data).2, DataInBuffer e := by
  unfold inetTcpDeliver
  split
  · exact ⟨h, by simp⟩
  · rename_i seg hparse
    unfold tcpSegmentArrives
    split
    · exact h.passiveOpen env srcIp seg
    · rename_i i hfind
      exact h.applyReaction i ((h i).receive env.now (hg seg i hparse hfind))

theorem SoundTable.tick {st : State} (h : SoundTable st.sockets) (now : Nat) :
    SoundTable (inetTick now st).1.sockets ∧ ∀ e ∈ (inetTick now st).2, DataInBuffer e := by
  refine List.foldlRecOn (motive := SoundStep) _ _ h.step ?_
  intro acc hacc i _
  unfold inetTickSlot
  split
  · obtain ⟨h1, h2⟩ := hacc.1.applyReaction i ((hacc.1 i).tick now)
    refine ⟨h1, ?_⟩
    intro e he
    rcases List.mem_append.mp he with he | he
    · exact hacc.2 e he
    · exact h2 e he
  · exact hacc

theorem SoundTable.accept {st : State} (h : SoundTable st.sockets) (i : SockId) (fdFree : Bool) :
    SoundTable (inetAccept st i fdFree).1.sockets ∧
      ∀ e ∈ (inetAccept st i fdFree).2, DataInBuffer e := by
  have hsame : SoundTable st.sockets ∧ ∀ e ∈ ([] : List Emission), DataInBuffer e := ⟨h, by simp⟩
  unfold inetAccept
  dsimp only
  split
  · exact hsame
  split
  · exact hsame
  rename_i c rest hbl
  have h1 := h.update i ((h i).setLinks (st.sockets i).parent rest (st.sockets i).orphan
    (st.sockets i).nonblock)
  have h2 := h1.update c ((h1 c).setLinks none
    (Function.update st.sockets i { st.sockets i with backlog := rest } c).backlog false
    (st.sockets i).nonblock)
  split
  · exact ⟨h2, by simp⟩
  · obtain ⟨hf1, hf2⟩ := h2.free c
    refine ⟨hf1, ?_⟩
    intro e he
    rcases List.mem_cons.mp he with rfl | he
    · exact DataInBuffer.empty _ _ _
    · exact hf2 e he

theorem SoundTable.connect {st : State} (h : SoundTable st.sockets) (env : Env) (netUp : Bool)
    (i : SockId) (name : List UInt8) :
    SoundTable (inetConnect env netUp st i name).1.sockets ∧
      ∀ e ∈ (inetConnect env netUp st i name).2, DataInBuffer e := by
  have hsame : SoundTable st.sockets ∧ ∀ e ∈ ([] : List Emission), DataInBuffer e := ⟨h, by simp⟩
  unfold inetConnect
  split
  · exact hsame
  dsimp only
  split
  · exact hsame
  split
  · exact ⟨h.update i ((h i).setConnected.setRemote _ _ _ _ _), by simp⟩
  · split
    · exact hsame
    · rename_i hfresh
      push Not at hfresh
      constructor
      · exact h.update i ((h i).opened hfresh.1 (by simpa using hfresh.2) .synSent (.inl rfl)
          _ _ _ _ _ _ _ _ _)
      · intro e he
        obtain rfl := List.mem_singleton.mp he
        exact DataInBuffer.empty _ _ _

theorem SoundTable.bind {st : State} (h : SoundTable st.sockets) (i : SockId)
    (name : List UInt8) : SoundTable (inetBind st i name).sockets := by
  unfold inetBind
  split
  · exact h
  dsimp only
  split
  · exact h
  · exact h.update i ((h i).setRemote (st.sockets i).remoteIp (st.sockets i).remotePort _
      (st.sockets i).udpQueue (st.sockets i).error)

theorem SoundTable.listen {st : State} (h : SoundTable st.sockets) (i : SockId) :
    SoundTable (inetListen st i).sockets := by
  unfold inetListen
  dsimp only
  split
  · exact h
  · rename_i hok
    push Not at hok
    obtain ⟨-, hcl, hconn, -⟩ := hok
    have hi := h i
    apply h.update
    refine ⟨hi.rxCount_le, hi.rxHead_lt, hi.txCount_le, fun _ h2 => absurd rfl h2, ?_, ?_, ?_,
      ?_, ?_⟩
    · intro _ _
      exact hi.untouched (by simp [hcl, TcpState.synchronized]) fun _ => by simpa using hconn
    · simp
    · simp [TcpState.synchronized]
    · simp [TcpState.synchronized]
    · simp [TcpState.synchronized]

theorem SoundTable.read {st : State} (h : SoundTable st.sockets) (i : SockId) (count : Nat) :
    SoundTable (inetRead st i count).1.sockets ∧
      ∀ e ∈ (inetRead st i count).2.1, DataInBuffer e := by
  unfold inetRead
  dsimp only
  split
  · split
    · exact ⟨h.update i ((h i).setRemote (st.sockets i).remoteIp (st.sockets i).remotePort
        (st.sockets i).localPort _ (st.sockets i).error), by simp⟩
    · exact ⟨h, by simp⟩
  · obtain ⟨h1, h2⟩ := (h i).read count
    exact ⟨h.update i h1, h2⟩

theorem SoundTable.write {st : State} (h : SoundTable st.sockets) (env : Env) (i : SockId)
    (rest : List UInt8) (written : Nat) :
    SoundTable (inetWrite env st i rest written).1.sockets ∧
      ∀ e ∈ (inetWrite env st i rest written).2, DataInBuffer e := by
  unfold inetWrite
  split
  · exact ⟨h, by simp⟩
  · obtain ⟨h1, h2⟩ := (h i).writeLoop env.now (rest.length + 1) rest written
    exact ⟨h.update i h1, h2⟩

theorem SoundTable.close {st : State} (h : SoundTable st.sockets) (env : Env) (i : SockId) :
    SoundTable (inetClose env st i).1.sockets ∧ ∀ e ∈ (inetClose env st i).2, DataInBuffer e := by
  unfold inetClose
  dsimp only
  split
  · exact h.applyReaction i ((h i).close env.now)
  · exact h.free i

theorem SoundTable.connectWait {st : State} (h : SoundTable st.sockets) (i : SockId)
    (elapsed : Nat) :
    SoundStep (Function.update st.sockets i (tcpConnectWait (st.sockets i) elapsed).1,
      (tcpConnectWait (st.sockets i) elapsed).2) := by
  unfold tcpConnectWait
  split
  · refine ⟨h.update i ((h i).closed.setTimer 0 _ _), ?_⟩
    intro e he
    obtain rfl := List.mem_singleton.mp he
    exact DataInBuffer.empty _ _ _
  · exact (h.update i (h i)).step

theorem SoundTable.udpDeliver {st : State} (h : SoundTable st.sockets) (srcIp : Ipv4Addr)
    (srcPort dstPort : UInt16) (data : List UInt8) :
    SoundTable (inetUdpDeliver st srcIp srcPort dstPort data).sockets := by
  unfold inetUdpDeliver
  split
  · exact h
  · rename_i i _
    dsimp only
    split
    · exact h
    · exact h.update i ((h i).setRemote (st.sockets i).remoteIp (st.sockets i).remotePort
        (st.sockets i).localPort _ (st.sockets i).error)

theorem SoundTable.create {st : State} (h : SoundTable st.sockets) (env : Env) (kind : InetKind)
    (nonblock fdFree : Bool) :
    SoundTable (inetSocketCreate env st kind nonblock fdFree).sockets := by
  have halloc := (h.alloc kind nonblock env.mem).1
  unfold inetSocketCreate
  split
  · rename_i heq
    rwa [heq] at halloc
  · rename_i heq
    rw [heq] at halloc
    split
    · exact halloc
    · exact (halloc.free _).1

theorem SoundTable.whenUsed {st : State} (h : SoundTable st.sockets) (i : SockId)
    {r : State × List Emission}
    (hr : SoundTable r.1.sockets ∧ ∀ e ∈ r.2, DataInBuffer e) :
    SoundTable (whenUsed st i r).1.sockets ∧ ∀ e ∈ (whenUsed st i r).2, DataInBuffer e := by
  unfold Inet.whenUsed
  split
  · exact hr
  · exact ⟨h, by simp⟩

theorem SoundTable.inetStep {st : State} (h : SoundTable st.sockets) (op : Env × Op)
    (hg : NoHalfwayAck st op) :
    SoundTable (inetStep st op).1.sockets ∧ ∀ e ∈ (inetStep st op).2, DataInBuffer e := by
  obtain ⟨env, op⟩ := op
  cases op with
  | socketCreate kind nonblock fdFree =>
      exact ⟨h.create env kind nonblock fdFree, by simp [Inet.inetStep]⟩
  | connect i netUp name => exact h.whenUsed i (h.connect env netUp i name)
  | connectWait i elapsed => exact h.connectWait i elapsed
  | bind i name => exact h.whenUsed i ⟨h.bind i name, by simp⟩
  | listen i => exact h.whenUsed i ⟨h.listen i, by simp⟩
  | accept i fdFree => exact h.accept i fdFree
  | read i count => exact h.read i count
  | write i rest written => exact h.write env i rest written
  | ioctl i nonblock =>
      exact h.whenUsed i ⟨h.update i ((h i).setLinks (st.sockets i).parent (st.sockets i).backlog
        (st.sockets i).orphan nonblock), by simp⟩
  | close i => exact h.whenUsed i (h.close env i)
  | tick => exact h.tick env.now
  | tcpDeliver srcIp data => exact h.tcpDeliver env srcIp data hg
  | udpDeliver srcIp srcPort dstPort data =>
      exact ⟨h.udpDeliver srcIp srcPort dstPort data, by simp [Inet.inetStep]⟩

theorem soundTable_of_reachable {st : State} (h : inetMachine.Reachable NoHalfwayAck st) :
    SoundTable st.sockets := by
  refine h.invariant (P := fun st => SoundTable st.sockets) ?_ ?_
  · intro st hst i
    rw [show st.sockets = fun _ => {} from hst]
    exact sound_empty
  · intro st op hs hg
    exact (hs.inetStep op hg).1

/-- **Control blocks stay within bounds.**  Along every run without the halfway
acknowledgement, every control block is bounded, and every data segment sent is
a slice of its transmit buffer inside the peer's window. -/
theorem control_blocks_bounded {st : State} (h : inetMachine.Reachable NoHalfwayAck st) :
    (∀ i, Bounded (st.sockets i)) ∧
      ∀ op, NoHalfwayAck st op → ∀ e ∈ (inetStep st op).2, DataInBuffer e :=
  ⟨fun i => (soundTable_of_reachable h i).bounded,
    fun op hg => ((soundTable_of_reachable h).inetStep op hg).2⟩

/-! ## Two runs -/

/-- A fresh boot with memory to spare. -/
def bootEnv : Env := ⟨0, 1000, ⟨some fun _ => 0, some fun _ => 0, true⟩⟩

/-- The peer `10.0.0.2:80`. -/
def samplePeer : Ipv4Addr := ipv4FromBytes 10 0 0 2

/-- Create a socket, connect it, and complete the handshake. -/
def handshakeRun : List (Env × Op) :=
  [(bootEnv, .socketCreate .tcp false true),
    (bootEnv, .connect 0 true [49, 48, 46, 48, 46, 48, 46, 50, 58, 56, 48]),
    (bootEnv, .tcpDeliver samplePeer
      (tcpLayout ⟨80, 49152, 5000, 1001, tcpSyn ||| tcpAck, 65535, []⟩ 0))]

/-- An acknowledgement half the number space ahead, on the idle connection. -/
def halfwayAckOp : Env × Op :=
  (bootEnv, .tcpDeliver samplePeer
    (tcpLayout ⟨80, 49152, 5001, 1001 + 2147483648, tcpAck, 65535, []⟩ 0))

theorem handshakeRun_reachable :
    inetMachine.Reachable NoHalfwayAck (inetMachine.run {} handshakeRun) := by
  refine .step _ (.step _ (.step _ (.start rfl) trivial) trivial) ?_
  intro seg i hparse hfind _ hhalf
  obtain rfl := Option.some.inj hparse
  have h0 : some i = some (0 : SockId) := hfind.symm.trans (by decide +kernel)
  obtain rfl := Option.some.inj h0
  revert hhalf
  unfold HalfwayAck
  decide +kernel

theorem handshakeRun_bounded :
    ((inetMachine.run {} handshakeRun).sockets 0).state = .established ∧
      Bounded ((inetMachine.run {} handshakeRun).sockets 0) :=
  ⟨by decide +kernel, (control_blocks_bounded handshakeRun_reachable).1 0⟩

theorem halfwayAck_span :
    let s := (inetMachine.run {} (handshakeRun ++ [halfwayAckOp])).sockets 0
    s.state = .established ∧ s.txCount = 0 ∧ s.finSent = false ∧ unackedSpan s = 2 ^ 31 := by
  decide +kernel

/-- The halfway acknowledgement breaks the span bound. -/
theorem halfway_ack_breaks_bound :
    ∃ st, inetMachine.Reachable (fun _ _ => True) st ∧ ¬ ∀ i, Bounded (st.sockets i) := by
  refine ⟨inetMachine.run {} (handshakeRun ++ [halfwayAckOp]), ?_, ?_⟩
  · exact Machine.Reachable.run (.start rfl) _ fun _ _ _ _ => trivial
  · intro hall
    obtain ⟨hst, htx, hfin, hspan⟩ := halfwayAck_span
    have hle := (hall 0).span_le (by rw [hst]; rfl)
    rw [hspan, htx, show finOutstanding _ = false by simp [finOutstanding, hfin]] at hle
    exact absurd hle (by decide)

end Inet
