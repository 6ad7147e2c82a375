import StrawOS.Lib.Buf
import StrawOS.Lib.SeqNum
import StrawOS.Lib.Endian

/-!
# The TCP control block and its output side

`InetSocket` is one slot of the kernel's socket table.  A call of the kernel's
`tcp_send_segment` is recorded as an `Emission`: the segment together with the
control block it was sent from, so that a statement about a segment on the wire
can speak of the transmit buffer and the window it was cut from.
-/

namespace Inet

/-- An address in the byte order of the frame, as the source's `as_u32`. -/
abbrev Ipv4Addr := UInt32

abbrev inetMaxSockets : Nat := 32
abbrev tcpRxSize : Nat := 128 * 1024
abbrev tcpTxSize : Nat := 64 * 1024
abbrev tcpMss : Nat := 1400
abbrev tcpRtoMinMs : Nat := 300
abbrev tcpRtoMaxMs : Nat := 8000
abbrev tcpMaxRetries : Nat := 10
abbrev tcpConnectMs : Nat := 15000
abbrev tcpBacklog : Nat := 16
abbrev udpQueueSize : Nat := 256
abbrev udpMaxDgram : Nat := 1500

abbrev tcpFin : UInt8 := 0x01
abbrev tcpSyn : UInt8 := 0x02
abbrev tcpRst : UInt8 := 0x04
abbrev tcpPsh : UInt8 := 0x08
abbrev tcpAck : UInt8 := 0x10

/-- `flags & mask` as a C condition. -/
def hasFlag (flags mask : UInt8) : Bool := flags &&& mask != 0

inductive TcpState
  | closed | synSent | established | finWait | closeWait | done | listen | synRcvd
deriving DecidableEq, Repr

inductive InetKind
  | tcp | udp
deriving DecidableEq, Repr

/-- Index of a slot in `inet_sockets`. -/
abbrev SockId := Fin inetMaxSockets

instance : NeZero inetMaxSockets := ⟨by decide⟩

structure UdpDatagram where
  srcIp : Ipv4Addr
  srcPort : UInt16
  data : List UInt8
deriving DecidableEq, Repr

/-- One slot of `inet_sockets`; the default value is the slot after `memset`. -/
structure InetSocket where
  used : Bool := false
  kind : InetKind := .tcp
  nonblock : Bool := false
  remoteIp : Ipv4Addr := 0
  remotePort : UInt16 := 0
  localPort : UInt16 := 0
  connected : Bool := false
  orphan : Bool := false
  state : TcpState := .closed
  error : Int := 0
  iss : UInt32 := 0
  sndUna : UInt32 := 0
  sndNxt : UInt32 := 0
  sndWnd : UInt32 := 0
  rcvNxt : UInt32 := 0
  finReceived : Bool := false
  closeRequested : Bool := false
  finSent : Bool := false
  finSeq : UInt32 := 0
  rx : Nat → UInt8 := fun _ => 0
  rxHead : Nat := 0
  rxCount : Nat := 0
  tx : Nat → UInt8 := fun _ => 0
  txCount : Nat := 0
  rtoDeadline : Nat := 0
  rtoMs : Nat := 0
  retries : Nat := 0
  doneDeadline : Nat := 0
  udpQueue : List UdpDatagram := []
  parent : Option SockId := none
  backlog : List SockId := []

/-- A TCP segment, as its header fields and payload. -/
structure TcpSegment where
  srcPort : UInt16
  dstPort : UInt16
  seq : UInt32
  ack : UInt32
  flags : UInt8
  window : UInt16
  payload : List UInt8
deriving DecidableEq, Repr

/-- One call of `tcp_send_segment`: the control block it is called on and the
segment it builds. -/
structure Emission where
  sock : InetSocket
  seg : TcpSegment

/-- Free space of the receive ring, clipped to the 16-bit window field. -/
def tcpWindow (s : InetSocket) : UInt16 :=
  .ofNat (min 65535 (tcpRxSize - s.rxCount))

def tcpSendSegment (s : InetSocket) (seq : UInt32) (flags : UInt8) (data : List UInt8) :
    Emission where
  sock := s
  seg :=
    { srcPort := s.localPort
      dstPort := s.remotePort
      seq := seq
      ack := if hasFlag flags tcpAck then s.rcvNxt else 0
      flags := flags
      window := tcpWindow s
      payload := data }

def tcpSendAck (s : InetSocket) : Emission :=
  tcpSendSegment s s.sndNxt tcpAck []

def tcpArmTimer (now : Nat) (s : InetSocket) : InetSocket :=
  { s with rtoDeadline := now + s.rtoMs }

/-- The states in which `tcp_output` sends anything. -/
def TcpState.sends : TcpState → Bool
  | .established | .closeWait | .finWait => true
  | _ => false

/-- Bytes of the transmit buffer that are in flight; an outstanding FIN takes
one sequence number that is not a byte. -/
def tcpInFlight (s : InetSocket) : UInt32 :=
  if s.finSent && decide (0 < s.sndNxt - s.sndUna) then s.sndNxt - s.sndUna - 1
  else s.sndNxt - s.sndUna

/-- A window of zero is probed with one byte. -/
def tcpSendWindow (s : InetSocket) : UInt32 := if s.sndWnd = 0 then 1 else s.sndWnd

/-- Length of the next segment of `tcp_output`. -/
def tcpSegmentLen (s : InetSocket) : Nat :=
  min (min (s.txCount - (tcpInFlight s).toNat)
    ((tcpSendWindow s).toNat - (tcpInFlight s).toNat)) tcpMss

/-- The loop exit of `tcp_output`. -/
def tcpOutputStops (s : InetSocket) : Bool :=
  decide (s.txCount ≤ (tcpInFlight s).toNat) || decide (tcpSendWindow s ≤ tcpInFlight s)

/-- The `for (;;)` of `tcp_output`.  Every round sends at least one byte of the
transmit buffer, so `txCount` rounds are enough (`tcpOutputLoop_stops`). -/
def tcpOutputLoop : Nat → InetSocket → InetSocket × List Emission
  | 0, s => (s, [])
  | fuel + 1, s =>
      if tcpOutputStops s then (s, [])
      else
        let e := tcpSendSegment s s.sndNxt (tcpAck ||| tcpPsh)
          (Buf.read s.tx (tcpInFlight s).toNat (tcpSegmentLen s))
        let r := tcpOutputLoop fuel { s with sndNxt := s.sndNxt + .ofNat (tcpSegmentLen s) }
        (r.1, e :: r.2)

/-- The FIN is due once everything in the transmit buffer is in flight. -/
def tcpFinDue (s : InetSocket) : Bool :=
  s.closeRequested && !s.finSent && decide ((s.sndNxt - s.sndUna).toNat = s.txCount)

def tcpSendFin (s : InetSocket) : InetSocket × List Emission :=
  let s' := { s with finSeq := s.sndNxt }
  ({ s' with
      sndNxt := s.sndNxt + 1
      finSent := true
      state := if s.state = .closeWait then .done else .finWait },
    [tcpSendSegment s' s.sndNxt (tcpAck ||| tcpFin) []])

/-- The FIN part of `tcp_output`. -/
def tcpOutputFin (s : InetSocket) : InetSocket × List Emission :=
  if tcpFinDue s then tcpSendFin s else (s, [])

def tcpOutput (now : Nat) (s : InetSocket) : InetSocket × List Emission :=
  if s.state.sends then
    let r := tcpOutputLoop s.txCount s
    let f := tcpOutputFin r.1
    let sent := r.2 ++ f.2
    (if !sent.isEmpty && decide (f.1.rtoDeadline = 0) then tcpArmTimer now f.1 else f.1, sent)
  else (s, [])

end Inet

/-!
# Segments as bytes

`tcpSegmentBytes` is the buffer that `tcp_send_segment` hands to the IP layer
and `tcpParse` the header checks and field reads at the top of
`inet_tcp_deliver`.  A segment that is sent is parsed back as it was
(`tcpParse_tcpSegmentBytes`); the receiver never looks at the checksum.
-/

namespace Inet

open Endian

/-- Add the carries back in until the sum fits in 16 bits. -/
def foldCarries (sum : Nat) : Nat :=
  if 65536 ≤ sum then foldCarries (sum % 65536 + sum / 65536) else sum
termination_by sum
decreasing_by omega

/-- Sum of the big-endian 16-bit words of a byte string, an odd last byte being
the high half of a word. -/
def sumWords : List UInt8 → Nat
  | [] => 0
  | [hi] => hi.toNat * 256
  | hi :: lo :: rest => hi.toNat * 256 + lo.toNat + sumWords rest

/-- The bytes of an address; the first byte of the frame is the low byte of
`as_u32`. -/
def addrBytes (ip : Ipv4Addr) : List UInt8 := store32 ip

def ipv4ProtoTcp : Nat := 6

def tcpChecksum (src dst : Ipv4Addr) (seg : List UInt8) : UInt16 :=
  ~~~ .ofNat (foldCarries
    (sumWords (addrBytes src) + sumWords (addrBytes dst) + ipv4ProtoTcp + seg.length +
      sumWords seg))

/-- The maximum-segment-size option of a SYN. -/
def tcpOptions (flags : UInt8) : List UInt8 :=
  if hasFlag flags tcpSyn then [2, 4, .ofNat (tcpMss / 256), .ofNat (tcpMss % 256)] else []

/-- Header length in bytes. -/
def tcpHeaderLen (flags : UInt8) : Nat := 20 + (tcpOptions flags).length

/-- Header, options and payload around a given checksum field. -/
def tcpLayout (g : TcpSegment) (checksum : UInt16) : List UInt8 :=
  store16 (swap16 g.srcPort) ++ store16 (swap16 g.dstPort) ++ store32 (swap32 g.seq) ++
    store32 (swap32 g.ack) ++ [.ofNat (tcpHeaderLen g.flags / 4 * 16), g.flags] ++
    store16 (swap16 g.window) ++ store16 checksum ++ [0, 0] ++ tcpOptions g.flags ++ g.payload

/-- The buffer built by `tcp_send_segment`. -/
def tcpSegmentBytes (localIp remoteIp : Ipv4Addr) (g : TcpSegment) : List UInt8 :=
  tcpLayout g (swap16 (tcpChecksum localIp remoteIp (tcpLayout g 0)))

/-- Byte `i` of a packet as the header overlay reads it. -/
def pktByte (d : List UInt8) (i : Nat) : UInt8 := d.getD i 0

/-- The checks and reads at the top of `inet_tcp_deliver`. -/
def tcpParse (d : List UInt8) : Option TcpSegment :=
  let hlen := (pktByte d 12 >>> 4).toNat * 4
  if d.length < 20 ∨ hlen < 20 ∨ d.length < hlen then none
  else some
    { srcPort := swap16 (le16 (pktByte d 0) (pktByte d 1))
      dstPort := swap16 (le16 (pktByte d 2) (pktByte d 3))
      seq := swap32 (le32 (pktByte d 4) (pktByte d 5) (pktByte d 6) (pktByte d 7))
      ack := swap32 (le32 (pktByte d 8) (pktByte d 9) (pktByte d 10) (pktByte d 11))
      flags := pktByte d 13
      window := swap16 (le16 (pktByte d 14) (pktByte d 15))
      payload := d.drop hlen }

theorem tcpParse_tcpLayout (g : TcpSegment) (checksum : UInt16) :
    tcpParse (tcpLayout g checksum) = some g := by
  by_cases hsyn : hasFlag g.flags tcpSyn = true
  · have hopt : tcpOptions g.flags = [2, 4, 5, 120] := by
      rw [tcpOptions, if_pos hsyn]
      rfl
    simp [tcpParse, tcpLayout, tcpHeaderLen, hopt, pktByte, store16, store32,
      le16_byteAt, le32_byteAt, swap16_swap16, swap32_swap32]
  · have hopt : tcpOptions g.flags = [] := by simp [tcpOptions, hsyn]
    simp [tcpParse, tcpLayout, tcpHeaderLen, hopt, pktByte, store16, store32,
      le16_byteAt, le32_byteAt, swap16_swap16, swap32_swap32]

end Inet
