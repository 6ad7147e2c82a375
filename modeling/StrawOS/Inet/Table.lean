import StrawOS.Inet.Receive
import StrawOS.Lib.Machine

/-!
# The socket table and its calls

The table has `inetMaxSockets` slots.  The functions here find a socket, give a
slot out and take it back, and run the single-socket functions on a slot.  `Op`
lists everything that can happen to the table: the calls of the socket
interface, the timer and a received segment.  A call names the slot its file
refers to; a call that resumes after a sleep may find its slot freed or given
out again, and `inetStep` lets it run there all the same.
-/

namespace Inet

/-- `inet_sockets`. -/
abbrev Table := SockId → InetSocket

structure State where
  sockets : Table := fun _ => {}
  nextPort : UInt16 := 49152

/-- First slot, in table order, that satisfies a test. -/
def findSlot (p : SockId → Bool) : Option SockId :=
  (List.finRange inetMaxSockets).find? p

/-- Some used socket already has this local port. -/
def portTaken (t : Table) (p : UInt16) : Bool :=
  (List.finRange inetMaxSockets).any fun i => (t i).used && (t i).localPort == p

def inetAllocPortLoop (t : Table) : Nat → UInt16 → UInt16 × UInt16
  | 0, next => (0, next)
  | tries + 1, next =>
      let next' := if next + 1 < 49152 then 49152 else next + 1
      if portTaken t next then inetAllocPortLoop t tries next' else (next, next')

/-- A free ephemeral port (zero if there is none), and the next one to try. -/
def inetAllocPort (st : State) : UInt16 × UInt16 :=
  inetAllocPortLoop st.sockets 16384 st.nextPort

/-! ## Freeing a slot -/

/-- Take a socket off the backlog of its parent. -/
def leaveBacklog (t : Table) (s : SockId) : Table :=
  match (t s).parent with
  | some l => Function.update t l { t l with backlog := (t l).backlog.erase s }
  | none => t

/-- `inet_free`.  Freeing a listener resets and frees its children; each nested
call clears one parent pointer first, so the table size bounds the depth. -/
def inetFreeAux : Nat → Table → SockId → Table × List Emission
  | 0, t, _ => (t, [])
  | fuel + 1, t, s =>
      let t1 := leaveBacklog t s
      let r := if (t1 s).kind = .tcp ∧ (t1 s).state = .listen then
          (List.finRange inetMaxSockets).foldl (fun acc c =>
            if (acc.1 c).used ∧ (acc.1 c).parent = some s then
              let t2 := Function.update acc.1 c { acc.1 c with parent := none }
              let f := inetFreeAux fuel t2 c
              (f.1, acc.2 ++ tcpSendSegment (t2 c) (t2 c).sndNxt tcpRst [] :: f.2)
            else acc) (t1, [])
        else (t1, [])
      (Function.update r.1 s {}, r.2)

def inetFree (t : Table) (s : SockId) : Table × List Emission :=
  inetFreeAux (inetMaxSockets + 1) t s

/-! ## Giving a slot out -/

/-- What the page and heap allocators answer. -/
structure Memory where
  rx : Option (Nat → UInt8)
  tx : Option (Nat → UInt8)
  udpQueue : Bool

def inetAlloc (st : State) (kind : InetKind) (nonblock : Bool) (mem : Memory) :
    State × Option SockId :=
  match findSlot fun i => !(st.sockets i).used with
  | none => (st, none)
  | some i =>
      let s : InetSocket := { used := true, kind := kind, nonblock := nonblock }
      match kind with
      | .udp =>
          let p := inetAllocPort { st with sockets := Function.update st.sockets i s }
          if mem.udpQueue ∧ p.1 ≠ 0 then
            (⟨Function.update st.sockets i { s with localPort := p.1 }, p.2⟩, some i)
          else (⟨(inetFree (Function.update st.sockets i s) i).1, p.2⟩, none)
      | .tcp =>
          match mem.rx, mem.tx with
          | some rx, some tx =>
              ({ st with sockets := Function.update st.sockets i { s with rx := rx, tx := tx } },
                some i)
          | _, _ =>
              ({ st with sockets := (inetFree (Function.update st.sockets i s) i).1 }, none)

/-! ## Received segments -/

def inetFindTcp (t : Table) (ip : Ipv4Addr) (remotePort localPort : UInt16) : Option SockId :=
  findSlot fun i => (t i).used && decide ((t i).kind = .tcp) && (t i).localPort == localPort &&
    (t i).remotePort == remotePort && (t i).remoteIp == ip

def inetFindListener (t : Table) (localPort : UInt16) : Option SockId :=
  findSlot fun i => (t i).used && decide ((t i).kind = .tcp) && decide ((t i).state = .listen) &&
    (t i).localPort == localPort

/-- Store the control block of a reaction and its backlog entry. -/
def storeReaction (t : Table) (i : SockId) (r : Reaction) : Table :=
  let t1 := Function.update t i r.sock
  match r.accepted, r.sock.parent with
  | true, some l => Function.update t1 l { t1 l with backlog := (t1 l).backlog ++ [i] }
  | _, _ => t1

/-- Store a reaction, then free the slot if it asks for that. -/
def applyReaction (t : Table) (i : SockId) (r : Reaction) : Table × List Emission :=
  if r.free then
    let f := inetFree (storeReaction t i r) i
    (f.1, r.out ++ f.2)
  else (storeReaction t i r, r.out)

/-- What the clock, the random source and the allocators supply to one call. -/
structure Env where
  now : Nat
  random : UInt32
  mem : Memory

/-- Used sockets whose parent is `l`. -/
def pendingChildren (t : Table) (l : SockId) : List SockId :=
  (List.finRange inetMaxSockets).filter fun i => (t i).used && decide ((t i).parent = some l)

def tcpPassiveOpen (env : Env) (st : State) (srcIp : Ipv4Addr) (seg : TcpSegment) :
    State × List Emission :=
  if seg.flags &&& (tcpSyn ||| tcpAck ||| tcpRst) ≠ tcpSyn then (st, [])
  else match inetFindListener st.sockets seg.dstPort with
    | none => (st, [])
    | some l =>
        if tcpBacklog ≤ (pendingChildren st.sockets l).length then (st, [])
        else match inetAlloc st .tcp false env.mem with
          | (st1, none) => (st1, [])
          | (st1, some c) =>
              let r := tcpPassiveChild env.now (st1.sockets c) l (st1.sockets l).localPort srcIp
                seg env.random
              ({ st1 with sockets := Function.update st1.sockets c r.1 }, r.2)

/-- A parsed segment reaches the table. -/
def tcpSegmentArrives (env : Env) (st : State) (srcIp : Ipv4Addr) (seg : TcpSegment) :
    State × List Emission :=
  match inetFindTcp st.sockets srcIp seg.srcPort seg.dstPort with
  | none => tcpPassiveOpen env st srcIp seg
  | some i =>
      let r := applyReaction st.sockets i (tcpReceive env.now (st.sockets i) seg)
      ({ st with sockets := r.1 }, r.2)

def inetTcpDeliver (env : Env) (st : State) (srcIp : Ipv4Addr) (data : List UInt8) :
    State × List Emission :=
  match tcpParse data with
  | none => (st, [])
  | some seg => tcpSegmentArrives env st srcIp seg

/-- Where `inet_udp_deliver` queues a datagram. -/
def udpTarget (t : Table) (srcIp : Ipv4Addr) (srcPort dstPort : UInt16) : Option SockId :=
  findSlot fun i => (t i).used && decide ((t i).kind = .udp) && (t i).localPort == dstPort &&
    !((t i).connected && ((t i).remoteIp != srcIp || (t i).remotePort != srcPort))

/-- `inet_udp_deliver`, with the `len` bytes at `data` given as a list. -/
def inetUdpDeliver (st : State) (srcIp : Ipv4Addr) (srcPort dstPort : UInt16)
    (data : List UInt8) : State :=
  match udpTarget st.sockets srcIp srcPort dstPort with
  | none => st
  | some i =>
      let s := st.sockets i
      if s.udpQueue.length = udpQueueSize then st
      else
        let d : UdpDatagram := ⟨srcIp, srcPort, data.take udpMaxDgram⟩
        { st with sockets := Function.update st.sockets i { s with udpQueue := s.udpQueue ++ [d] } }

/-! ## The timer -/

def inetTickSlot (now : Nat) (acc : Table × List Emission) (i : SockId) : Table × List Emission :=
  if (acc.1 i).used ∧ (acc.1 i).kind = .tcp then
    let r := applyReaction acc.1 i (tcpTick now (acc.1 i))
    (r.1, acc.2 ++ r.2)
  else acc

def inetTick (now : Nat) (st : State) : State × List Emission :=
  let r := (List.finRange inetMaxSockets).foldl (inetTickSlot now) (st.sockets, [])
  ({ st with sockets := r.1 }, r.2)

/-! ## Addresses -/

/-- The loop of `inet_parse_addr`: parts read so far, value and digit flag of
the current one. -/
def inetParseParts : List UInt8 → List Nat → Nat → Bool → Option (List Nat)
  | [], parts, v, digit =>
      if parts.length = 4 ∧ digit then some (parts ++ [v]) else none
  | c :: rest, parts, v, digit =>
      if 48 ≤ c.toNat ∧ c.toNat ≤ 57 then
        let v' := v * 10 + (c.toNat - 48)
        if 65535 < v' then none else inetParseParts rest parts v' true
      else if (c = 46 ∧ parts.length < 3) ∨ (c = 58 ∧ parts.length = 3) then
        if digit then inetParseParts rest (parts ++ [v]) 0 false else none
      else none

def ipv4FromBytes (a b c d : UInt8) : Ipv4Addr := Endian.le32 a b c d

def inetParseAddr (name : List UInt8) : Option (Ipv4Addr × UInt16) :=
  match inetParseParts name [] 0 false with
  | some [a, b, c, d, port] =>
      if a ≤ 255 ∧ b ≤ 255 ∧ c ≤ 255 ∧ d ≤ 255 then
        some (ipv4FromBytes (.ofNat a) (.ofNat b) (.ofNat c) (.ofNat d), .ofNat port)
      else none
  | _ => none

/-! ## Socket calls -/

def inetConnect (env : Env) (netUp : Bool) (st : State) (i : SockId) (name : List UInt8) :
    State × List Emission :=
  match inetParseAddr name with
  | none => (st, [])
  | some (ip, port) =>
      let s := st.sockets i
      if netUp = false ∨ port = 0 then (st, [])
      else match s.kind with
        | .udp =>
            let s' := { s with remoteIp := ip, remotePort := port, connected := true }
            ({ st with sockets := Function.update st.sockets i s' }, [])
        | .tcp =>
            if s.state ≠ .closed ∨ s.connected then (st, [])
            else
              let s1 := { s with remoteIp := ip, remotePort := port }
              let p := inetAllocPort { st with sockets := Function.update st.sockets i s1 }
              let r := tcpConnect env.now s ip port p.1 env.random
              (⟨Function.update st.sockets i r.1, p.2⟩, r.2)

def inetBind (st : State) (i : SockId) (name : List UInt8) : State :=
  match inetParseAddr name with
  | none => st
  | some (_, port) =>
      let s := st.sockets i
      let clash := (List.finRange inetMaxSockets).any fun o =>
        o != i && (st.sockets o).used && decide ((st.sockets o).kind = s.kind) &&
          (st.sockets o).localPort == port &&
          (decide (s.kind = .udp) || !(st.sockets o).connected)
      if port = 0 ∨ s.connected ∨ s.state ≠ .closed ∨ clash then st
      else { st with sockets := Function.update st.sockets i { s with localPort := port } }

def inetListen (st : State) (i : SockId) : State :=
  let s := st.sockets i
  if s.kind ≠ .tcp ∨ s.state ≠ .closed ∨ s.connected ∨ s.localPort = 0 then st
  else { st with sockets := Function.update st.sockets i { s with state := .listen } }

/-- `inet_accept`: pop the backlog; without a free descriptor the child is reset
and freed. -/
def inetAccept (st : State) (i : SockId) (fdFree : Bool) : State × List Emission :=
  let s := st.sockets i
  if s.kind ≠ .tcp ∨ s.state ≠ .listen then (st, [])
  else match s.backlog with
    | [] => (st, [])
    | c :: rest =>
        let t1 := Function.update st.sockets i { s with backlog := rest }
        let t2 := Function.update t1 c
          { t1 c with parent := none, orphan := false, nonblock := s.nonblock }
        if fdFree then ({ st with sockets := t2 }, [])
        else
          let f := inetFree t2 c
          ({ st with sockets := f.1 }, tcpSendSegment (t2 c) (t2 c).sndNxt tcpRst [] :: f.2)

def inetSocketCreate (env : Env) (st : State) (kind : InetKind) (nonblock fdFree : Bool) : State :=
  match inetAlloc st kind nonblock env.mem with
  | (st1, none) => st1
  | (st1, some i) =>
      if fdFree then st1 else { st1 with sockets := (inetFree st1.sockets i).1 }

def inetRead (st : State) (i : SockId) (count : Nat) : State × List Emission × ReadResult :=
  let s := st.sockets i
  match s.kind with
  | .udp =>
      match s.udpQueue with
      | d :: rest =>
          ({ st with sockets := Function.update st.sockets i { s with udpQueue := rest } }, [],
            .bytes (d.data.take count))
      | [] => (st, [], if s.nonblock then .code (-EAGAIN) else .blocked)
  | .tcp =>
      let r := tcpRead s count
      ({ st with sockets := Function.update st.sockets i r.1 }, r.2.1, r.2.2)

/-- `inet_write`; a datagram leaves the table alone. -/
def inetWrite (env : Env) (st : State) (i : SockId) (rest : List UInt8) (written : Nat) :
    State × List Emission :=
  match (st.sockets i).kind with
  | .udp => (st, [])
  | .tcp =>
      let r := tcpWrite env.now (st.sockets i) rest written
      ({ st with sockets := Function.update st.sockets i r.1 }, r.2.1)

def inetIoctl (st : State) (i : SockId) (nonblock : Bool) : State :=
  { st with sockets := Function.update st.sockets i { st.sockets i with nonblock := nonblock } }

def inetClose (env : Env) (st : State) (i : SockId) : State × List Emission :=
  let s := st.sockets i
  let r := match s.kind with
    | .tcp => applyReaction st.sockets i (tcpClose env.now s)
    | .udp => inetFree st.sockets i
  ({ st with sockets := r.1 }, r.2)

/-! ## The table as a machine -/

inductive Op
  | socketCreate (kind : InetKind) (nonblock fdFree : Bool)
  | connect (i : SockId) (netUp : Bool) (name : List UInt8)
  | connectWait (i : SockId) (elapsed : Nat)
  | bind (i : SockId) (name : List UInt8)
  | listen (i : SockId)
  | accept (i : SockId) (fdFree : Bool)
  | read (i : SockId) (count : Nat)
  | write (i : SockId) (rest : List UInt8) (written : Nat)
  | ioctl (i : SockId) (nonblock : Bool)
  | close (i : SockId)
  | tick
  | tcpDeliver (srcIp : Ipv4Addr) (data : List UInt8)
  | udpDeliver (srcIp : Ipv4Addr) (srcPort dstPort : UInt16) (data : List UInt8)

/-- Run an update of the table only where the slot is in use: the file of a call
that starts refers to a socket. -/
def whenUsed (st : State) (i : SockId) (r : State × List Emission) : State × List Emission :=
  if (st.sockets i).used then r else (st, [])

/-- One step of the table. -/
def inetStep (st : State) (op : Env × Op) : State × List Emission :=
  match op.2 with
  | .socketCreate kind nonblock fdFree => (inetSocketCreate op.1 st kind nonblock fdFree, [])
  | .connect i netUp name => whenUsed st i (inetConnect op.1 netUp st i name)
  | .connectWait i elapsed =>
      let r := tcpConnectWait (st.sockets i) elapsed
      ({ st with sockets := Function.update st.sockets i r.1 }, r.2)
  | .bind i name => whenUsed st i (inetBind st i name, [])
  | .listen i => whenUsed st i (inetListen st i, [])
  | .accept i fdFree => inetAccept st i fdFree
  | .read i count => let r := inetRead st i count; (r.1, r.2.1)
  | .write i rest written => inetWrite op.1 st i rest written
  | .ioctl i nonblock => whenUsed st i (inetIoctl st i nonblock, [])
  | .close i => whenUsed st i (inetClose op.1 st i)
  | .tick => inetTick op.1.now st
  | .tcpDeliver srcIp data => inetTcpDeliver op.1 st srcIp data
  | .udpDeliver srcIp srcPort dstPort data => (inetUdpDeliver st srcIp srcPort dstPort data, [])

/-- The socket layer from boot on. -/
def inetMachine : Machine State (Env × Op) Emission where
  start st := st.sockets = fun _ => {}
  step := inetStep

end Inet

/-!
# Parents and backlogs

A child socket of a passive open is tied to its listener twice: by its parent
pointer and, once its handshake is complete, by an entry of the listener's
backlog.  `Linked` says that the two agree in the whole table.

Most events change a socket without touching these ties.  `LinkStable` collects
what such a change keeps; the single-socket functions satisfy it with one
exception, a reset that reaches a listening socket.
-/

namespace Inet

/-- The fields by which sockets refer to each other, and `connected`. -/
def links (s : InetSocket) : Bool × InetKind × Option SockId × List SockId × Bool :=
  (s.used, s.kind, s.parent, s.backlog, s.connected)

/-- No timer runs on a socket that listens or was never connected. -/
def TimerIdle (s : InetSocket) : Prop :=
  s.state = .listen ∨ s.state = .closed ∧ s.connected = false → s.rtoDeadline = 0

/-- A change of one socket that leaves its ties to other sockets alone. -/
structure LinkStable (s s' : InetSocket) : Prop where
  used : s'.used = s.used
  kind : s'.kind = s.kind
  parent : s'.parent = s.parent
  backlog : s'.backlog = s.backlog
  listen : s'.state = .listen ↔ s.state = .listen
  synRcvd : s'.state = .synRcvd → s.state = .synRcvd
  connected : s.connected = true → s'.connected = true
  listening : s.state = .listen → s'.connected = s.connected
  idle : TimerIdle s → TimerIdle s'

theorem LinkStable.refl (s : InetSocket) : LinkStable s s :=
  ⟨rfl, rfl, rfl, rfl, Iff.rfl, id, id, fun _ => rfl, id⟩

/-- Between states in which the socket neither listens nor is closed, keeping
the link fields is enough. -/
theorem LinkStable.of_links {s s' : InetSocket} (hlinks : links s' = links s)
    (h : s.state ≠ .listen) (h' : s'.state ≠ .listen) (hcl : s'.state ≠ .closed)
    (hrcvd : s'.state = .synRcvd → s.state = .synRcvd) : LinkStable s s' := by
  simp only [links, Prod.mk.injEq] at hlinks
  obtain ⟨hu, hk, hp, hb, hc⟩ := hlinks
  refine ⟨hu, hk, hp, hb, by simp [h, h'], hrcvd, fun h1 => by rw [hc, h1], fun _ => hc, ?_⟩
  rintro _ (h1 | ⟨h1, -⟩)
  · exact absurd h1 h'
  · exact absurd h1 hcl

/-! ## The single-socket functions -/

theorem links_tcpOutput (now : Nat) (s : InetSocket) :
    links (tcpOutput now s).1 = links s ∧
      (s.state.sends = true → (tcpOutput now s).1.state ≠ .listen ∧
        (tcpOutput now s).1.state ≠ .closed ∧ (tcpOutput now s).1.state ≠ .synRcvd) := by
  apply tcpOutput_induct (P := fun s' _ => links s' = links s ∧ (s.state.sends = true →
    s'.state ≠ .listen ∧ s'.state ≠ .closed ∧ s'.state ≠ .synRcvd)) now s
  · refine ⟨rfl, fun hs => ?_⟩
    revert hs
    cases s.state <;> simp [TcpState.sends]
  · exact fun s' out h _ _ => h
  · intro s' out h _ _
    refine ⟨h.1, fun _ => ?_⟩
    simp only [tcpSendFin]
    split <;> simp
  · exact fun s' out h => h

theorem LinkStable.output {s s' : InetSocket} (h : LinkStable s s') (now : Nat) :
    LinkStable s (tcpOutput now s').1 := by
  by_cases hs : s'.state.sends = true
  · obtain ⟨hl, hst⟩ := links_tcpOutput now s'
    obtain ⟨h1, h2, h3⟩ := hst hs
    have hnl : s'.state ≠ .listen := by
      intro h0
      simp [h0, TcpState.sends] at hs
    have hstep := LinkStable.of_links hl hnl h1 h2 fun h0 => absurd h0 h3
    exact ⟨hstep.used.trans h.used, hstep.kind.trans h.kind, hstep.parent.trans h.parent,
      hstep.backlog.trans h.backlog, hstep.listen.trans h.listen,
      fun h0 => absurd h0 h3, fun h0 => hstep.connected (h.connected h0),
      fun h0 => absurd (h.listen.mpr h0) hnl, fun h0 => hstep.idle (h.idle h0)⟩
  · rw [tcpOutput, if_neg hs]
    exact h

theorem links_tcpProcessAck (now : Nat) (s : InetSocket) (seg : TcpSegment) :
    links (tcpProcessAck now s seg) = links s ∧ (tcpProcessAck now s seg).state = s.state := by
  unfold tcpProcessAck
  split
  · split <;> exact ⟨rfl, rfl⟩
  · exact ⟨rfl, rfl⟩

theorem links_tcpProcessText (s : InetSocket) (seg : TcpSegment) :
    links (tcpProcessText s seg).1 = links s ∧
      ((tcpProcessText s seg).1.state = s.state ∨
        (tcpProcessText s seg).1.state = s.state.peerClosed) := by
  have hdata : links (tcpProcessData s seg) = links s ∧
      (tcpProcessData s seg).state = s.state := by
    unfold tcpProcessData
    split <;> exact ⟨rfl, rfl⟩
  unfold tcpProcessText
  dsimp only
  split
  · exact ⟨hdata.1, .inr (by rw [← hdata.2]; rfl)⟩
  · exact ⟨hdata.1, .inl hdata.2⟩

/-- From the ACK processing on, a segment only moves between the states of an
open connection. -/
theorem LinkStable.receiveOpen {s : InetSocket} (now : Nat) (seg : TcpSegment)
    (h1 : s.state ≠ .listen) (h2 : s.state ≠ .closed) (h3 : s.state ≠ .synRcvd) :
    LinkStable s (tcpReceiveOpen now s seg).sock ∧
      (tcpReceiveOpen now s seg).sock.state ≠ .synRcvd := by
  obtain ⟨hack, hackst⟩ := links_tcpProcessAck now s seg
  obtain ⟨htext, htextst⟩ := links_tcpProcessText (tcpProcessAck now s seg) seg
  rw [hackst] at htextst
  have hstates : ∀ st : TcpState, st = s.state ∨ st = s.state.peerClosed →
      st ≠ .listen ∧ st ≠ .closed ∧ st ≠ .synRcvd := by
    intro st hst
    revert h1 h2 h3
    rcases hst with rfl | rfl <;> cases s.state <;> simp [TcpState.peerClosed]
  obtain ⟨t1, t2, t3⟩ := hstates _ htextst
  have hstable := LinkStable.of_links (htext.trans hack) h1 t1 t2 fun h0 => absurd h0 t3
  unfold tcpReceiveOpen
  dsimp only
  split
  · exact ⟨hstable, t3⟩
  · have hout := hstable.output now
    exact ⟨hout, fun h0 => h3 (hout.synRcvd h0)⟩

theorem tcpReceiveOpen_accepted (now : Nat) (s : InetSocket) (seg : TcpSegment) :
    (tcpReceiveOpen now s seg).accepted = false := by
  unfold tcpReceiveOpen
  dsimp only
  split <;> rfl

theorem LinkStable.reset {s : InetSocket} (h : s.state ≠ .listen) (error : Int) :
    LinkStable s (tcpReset s error).sock :=
  ⟨rfl, rfl, rfl, rfl, by simp [tcpReset, h], by simp [tcpReset], id, fun _ => rfl,
    fun _ _ => rfl⟩

theorem LinkStable.receive {s : InetSocket} (now : Nat) (seg : TcpSegment)
    (hrst : hasFlag seg.flags tcpRst = true → s.state ≠ .listen) :
    LinkStable s (tcpReceive now s seg).sock ∧
      ((tcpReceive now s seg).accepted = true → s.state = .synRcvd ∧
        (tcpReceive now s seg).sock.state ≠ .synRcvd) := by
  unfold tcpReceive
  split
  · rename_i hflag
    exact ⟨LinkStable.reset (hrst hflag) _, by simp [tcpReset]⟩
  · cases hst : s.state with
    | closed | listen => exact ⟨LinkStable.refl s, by simp⟩
    | established | finWait | closeWait | done =>
        refine ⟨(LinkStable.receiveOpen now seg (by simp [hst]) (by simp [hst])
          (by simp [hst])).1, fun h0 => ?_⟩
        rw [tcpReceiveOpen_accepted] at h0
        exact absurd h0 (by decide)
    | synSent =>
        dsimp only
        split
        · exact ⟨LinkStable.of_links rfl (by simp [hst]) (by simp [tcpOpened])
            (by simp [tcpOpened]) (by simp [tcpOpened]), by simp⟩
        · exact ⟨LinkStable.refl s, by simp⟩
    | synRcvd =>
        dsimp only
        split
        · exact ⟨LinkStable.refl s, by simp⟩
        split
        · obtain ⟨hs1, hs2⟩ := LinkStable.receiveOpen (s := tcpAccepted s seg) now seg
            (by simp [tcpAccepted]) (by simp [tcpAccepted]) (by simp [tcpAccepted])
          have hacc : LinkStable s (tcpAccepted s seg) := LinkStable.of_links rfl (by simp [hst])
            (by simp [tcpAccepted]) (by simp [tcpAccepted]) (by simp [tcpAccepted])
          refine ⟨⟨hs1.used, hs1.kind, hs1.parent, hs1.backlog, hs1.listen.trans hacc.listen,
            fun h0 => hst, hs1.connected, fun h0 => ?_, fun h0 => hs1.idle (hacc.idle h0)⟩, ?_⟩
          · simp [hst] at h0
          · exact fun _ => ⟨rfl, hs2⟩
        · exact ⟨LinkStable.refl s, by simp⟩

theorem tcpRollback_state (s : InetSocket) :
    (tcpRollback s).state = .established ∨ (tcpRollback s).state = .closeWait ∨
      (tcpRollback s).state = s.state := by
  by_cases h1 : s.finSent = true ∧ s.state = .finWait
  · exact .inl (if_pos h1)
  by_cases h2 : s.finSent = true ∧ s.state = .done
  · exact .inr (.inl ((if_neg h1).trans (if_pos h2)))
  · exact .inr (.inr ((if_neg h1).trans (if_neg h2)))

/-- The timer, which leaves a listener alone because it is not running there. -/
theorem LinkStable.tick {s : InetSocket} (hidle : TimerIdle s) (now : Nat) :
    LinkStable s (tcpTick now s).sock ∧ (tcpTick now s).accepted = false := by
  unfold tcpTick
  split
  · exact ⟨LinkStable.refl s, rfl⟩
  split
  · exact ⟨LinkStable.refl s, rfl⟩
  rename_i htimer
  push Not at htimer
  have hnl : s.state ≠ .listen := fun h0 => htimer.1 (hidle (.inl h0))
  have hncl : s.state = .closed → s.connected = true := by
    intro h0
    by_contra h1
    exact htimer.1 (hidle (.inr ⟨h0, by simpa using h1⟩))
  split
  · have hreset := LinkStable.reset (s := { s with retries := s.retries + 1 }) hnl
      (if s.state = .synSent then -ETIMEDOUT else -EPIPE)
    exact ⟨⟨hreset.used, hreset.kind, hreset.parent, hreset.backlog, hreset.listen,
      hreset.synRcvd, hreset.connected, hreset.listening, fun _ _ => rfl⟩, rfl⟩
  have hback : LinkStable s (tcpBackOff now s) := by
    refine ⟨rfl, rfl, rfl, rfl, Iff.rfl, id, id, fun _ => rfl, ?_⟩
    rintro - (h0 | ⟨h0, h1⟩)
    · exact absurd h0 hnl
    · exact absurd (hncl h0) (by simpa [tcpBackOff] using h1)
  have hroll (hne : s.state ≠ .synRcvd) : LinkStable s (tcpRollback (tcpBackOff now s)) := by
    have hst : (tcpRollback (tcpBackOff now s)).state = .established ∨
        (tcpRollback (tcpBackOff now s)).state = .closeWait ∨
        (tcpRollback (tcpBackOff now s)).state = s.state := tcpRollback_state (tcpBackOff now s)
    refine ⟨rfl, rfl, rfl, rfl, ?_, ?_, id, fun _ => rfl, ?_⟩
    · rcases hst with h0 | h0 | h0 <;> simp [h0, hnl]
    · rcases hst with h0 | h0 | h0 <;> simp [h0]
    · rintro - (h0 | ⟨h0, h1⟩)
      · rcases hst with h2 | h2 | h2 <;> simp [h2, hnl] at h0
      · have h1 : s.connected = false := h1
        rcases hst with h2 | h2 | h2
        · simp [h2] at h0
        · simp [h2] at h0
        · rw [h2] at h0
          simp [hncl h0] at h1
  cases hst : s.state with
  | synSent | synRcvd => exact ⟨hback, rfl⟩
  | closed | listen | established | finWait | closeWait | done =>
      exact ⟨(hroll (by simp [hst])).output now, rfl⟩

theorem LinkStable.close {s : InetSocket} (now : Nat) :
    LinkStable s (tcpClose now s).sock ∧ (tcpClose now s).accepted = false := by
  have hreq : LinkStable s (tcpRequestClose now s) :=
    ⟨rfl, rfl, rfl, rfl, Iff.rfl, id, id, fun _ => rfl, id⟩
  unfold tcpClose
  split
  · exact ⟨hreq.output now, rfl⟩
  · exact ⟨hreq.output now, rfl⟩
  · exact ⟨LinkStable.refl s, rfl⟩
  · exact ⟨LinkStable.refl s, rfl⟩

theorem LinkStable.read {s : InetSocket} (count : Nat) : LinkStable s (tcpRead s count).1 := by
  unfold tcpRead
  split
  · exact LinkStable.refl s
  split
  · exact ⟨rfl, rfl, rfl, rfl, Iff.rfl, id, id, fun _ => rfl, id⟩
  split
  · exact LinkStable.refl s
  split <;> exact LinkStable.refl s

theorem LinkStable.writeLoop (now : Nat) (fuel : Nat) {s₀ s : InetSocket} (h : LinkStable s₀ s)
    (rest : List UInt8) (written : Nat) :
    LinkStable s₀ (tcpWriteLoop now fuel s rest written).1 := by
  induction fuel generalizing s rest written with
  | zero => exact h
  | succ fuel ih =>
      rw [tcpWriteLoop]
      split
      · exact h
      split
      · exact h
      split
      · exact h
      split
      · exact h
      apply ih
      have hqueue : LinkStable s₀ (tcpQueueTx s
          (rest.take (min rest.length (tcpTxSize - s.txCount)))) :=
        ⟨h.used, h.kind, h.parent, h.backlog, h.listen, h.synRcvd, h.connected, h.listening,
          h.idle⟩
      exact hqueue.output now

theorem LinkStable.connectWait {s : InetSocket} (elapsed : Nat) :
    LinkStable s (tcpConnectWait s elapsed).1 := by
  unfold tcpConnectWait
  split
  · rename_i h0
    exact ⟨rfl, rfl, rfl, rfl, by simp [h0.1], by simp, id, fun _ => rfl, fun _ _ => rfl⟩
  · exact LinkStable.refl s

end Inet
