import StrawOS.Inet.Table

/-!
# Sending packets

The state of `net.c` and its outgoing half: `eth_send`, the ARP cache,
`ipv4_send_from`, the loopback queue and `ipv4_send`.  A function that hands
frames to the card returns them in order, next to the state it leaves.

Addresses are 32-bit words as in `Inet`, so `ipv4_equal` is equality.
-/

namespace Net

open Endian Inet

def ethertypeIpv4 : UInt16 := 0x0800
def ethertypeArp : UInt16 := 0x0806

def ipv4ProtoIcmp : UInt8 := 1
def ipv4ProtoTcp : UInt8 := 6
def ipv4ProtoUdp : UInt8 := 17

abbrev arpCacheSize : Nat := 8
def loopbackQueueSize : Nat := 64

structure ArpEntry where
  valid : Bool := false
  ip : Ipv4Addr := 0
  mac : List UInt8 := List.replicate 6 0

structure LoopbackPacket where
  addr : Ipv4Addr
  protocol : UInt8
  data : List UInt8

/-- What `dhcp_handle_reply` reads and records. -/
structure Dhcp where
  xid : UInt32 := 0
  gotOffer : Bool := false
  gotAck : Bool := false
  gotNak : Bool := false
  offeredIp : Ipv4Addr := 0
  serverId : Ipv4Addr := 0
  offeredMask : Ipv4Addr := 0
  offeredGw : Ipv4Addr := 0
  offeredDns : Ipv4Addr := 0

/-- The static variables of `net.c`.  The only callback ever registered with
`udp_listen` is `dhcp_handle_reply`, so `udpListenCb` says whether it is set. -/
structure NetState where
  ourMac : List UInt8 := List.replicate 6 0
  ourIp : Ipv4Addr := 0
  gatewayIp : Ipv4Addr := 0
  netmask : Ipv4Addr := 0
  netUp : Bool := false
  arpCache : Fin arpCacheSize → ArpEntry := fun _ => {}
  arpNextSlot : Fin arpCacheSize := 0
  nextId : UInt16 := 1
  loopback : List LoopbackPacket := []
  udpListenPort : UInt16 := 0
  udpListenCb : Bool := false
  dhcp : Dhcp := {}
  pingExpectedId : UInt16 := 0
  pingExpectedSeq : UInt16 := 0
  pingReplyReceived : Bool := false
  inet : Inet.State := {}

def broadcastMac : List UInt8 := List.replicate 6 0xFF

def ipChecksum (data : List UInt8) : UInt16 := ~~~ .ofNat (foldCarries (sumWords data))

/-- The frame `eth_send` gives to the card. -/
def ethSend (st : NetState) (dstMac : List UInt8) (ethertype : UInt16) (payload : List UInt8) :
    List UInt8 :=
  let total := min ((14 + payload.length) % 65536) 1514
  dstMac ++ st.ourMac ++ store16 (swap16 ethertype) ++ payload.take (total - 14)

/-- The 28 bytes of an ARP packet. -/
def arpPacket (oper : UInt16) (senderMac : List UInt8) (senderIp : Ipv4Addr)
    (targetMac : List UInt8) (targetIp : Ipv4Addr) : List UInt8 :=
  store16 (swap16 1) ++ store16 (swap16 ethertypeIpv4) ++ [6, 4] ++ store16 (swap16 oper) ++
    senderMac ++ store32 senderIp ++ targetMac ++ store32 targetIp

def arpSendRequest (st : NetState) (targetIp : Ipv4Addr) : List UInt8 :=
  ethSend st broadcastMac ethertypeArp
    (arpPacket 1 st.ourMac st.ourIp (List.replicate 6 0) targetIp)

def arpLookup (st : NetState) (ip : Ipv4Addr) : Option (List UInt8) :=
  ((List.finRange arpCacheSize).find? fun i =>
    (st.arpCache i).valid && (st.arpCache i).ip == ip).map fun i => (st.arpCache i).mac

/-- The IPv4 header of `ipv4_send_from` around a given checksum field. -/
def ipv4Header (totalLen id : UInt16) (protocol : UInt8) (checksum : UInt16)
    (src dst : Ipv4Addr) : List UInt8 :=
  [0x45, 0] ++ store16 (swap16 totalLen) ++ store16 (swap16 id) ++ [0, 0, 64, protocol] ++
    store16 checksum ++ store32 src ++ store32 dst

def ipv4SendFrom (st : NetState) (src dst : Ipv4Addr) (dstMac : List UInt8) (protocol : UInt8)
    (payload : List UInt8) : NetState × List UInt8 :=
  let total := min ((20 + payload.length) % 65536) 1500
  let zeroed := ipv4Header (.ofNat total) st.nextId protocol 0 src dst
  let header := ipv4Header (.ofNat total) st.nextId protocol (swap16 (ipChecksum zeroed)) src dst
  ({ st with nextId := st.nextId + 1 },
    ethSend st dstMac ethertypeIpv4 (header ++ payload.take (total - 20)))

def ipv4IsLocal (st : NetState) (ip : Ipv4Addr) : Bool :=
  ip &&& 0xFF == 127 || (st.netUp && ip == st.ourIp)

/-- `loopback_send`: the packet is dropped when the queue is full or it is too
long for a queue entry. -/
def loopbackSend (st : NetState) (dst : Ipv4Addr) (protocol : UInt8) (payload : List UInt8) :
    NetState :=
  if st.loopback.length < loopbackQueueSize ∧ payload.length ≤ 1500 then
    { st with loopback := st.loopback ++ [⟨dst, protocol, payload⟩] }
  else st

/-- `ipv4_send`: a packet for this machine is looped back; one for an unresolved
next hop is dropped and the hop asked for. -/
def ipv4Send (st : NetState) (dst : Ipv4Addr) (protocol : UInt8) (payload : List UInt8) :
    NetState × List (List UInt8) :=
  if ipv4IsLocal st dst then (loopbackSend st dst protocol payload, [])
  else
    let nextHop :=
      if dst &&& st.netmask = st.ourIp &&& st.netmask then dst else st.gatewayIp
    match arpLookup st nextHop with
    | none => (st, [arpSendRequest st nextHop])
    | some mac =>
        let r := ipv4SendFrom st st.ourIp dst mac protocol payload
        (r.1, [r.2])

/-- Send the segments of the TCP layer, oldest first. -/
def sendSegments (st : NetState) : List Emission → NetState × List (List UInt8)
  | [] => (st, [])
  | e :: es =>
      let r := ipv4Send st e.sock.remoteIp ipv4ProtoTcp
        (tcpSegmentBytes st.ourIp e.sock.remoteIp e.seg)
      let rs := sendSegments r.1 es
      (rs.1, r.2 ++ rs.2)

/-! ## Sending leaves the sockets alone -/

theorem ipv4Send_inet (st : NetState) (dst : Ipv4Addr) (protocol : UInt8) (payload : List UInt8) :
    (ipv4Send st dst protocol payload).1.inet = st.inet := by
  unfold ipv4Send
  split
  · unfold loopbackSend
    split <;> rfl
  · dsimp only
    split <;> rfl

theorem sendSegments_inet (es : List Emission) (st : NetState) :
    (sendSegments st es).1.inet = st.inet := by
  induction es generalizing st with
  | nil => rfl
  | cons e es ih =>
      calc (sendSegments st (e :: es)).1.inet
          = (ipv4Send st e.sock.remoteIp ipv4ProtoTcp
              (tcpSegmentBytes st.ourIp e.sock.remoteIp e.seg)).1.inet := ih _
        _ = st.inet := ipv4Send_inet st _ _ _

end Net

/-!
# Receiving frames

`net_handle_frame` and everything it calls.  Memory is a function from addresses
to bytes, with the received frame at `[0, len)` and whatever the machine holds
behind it; a packet is handed from one function to the next as an address and a
16-bit length, and the length arithmetic wraps as in the source.

Every slice that is handed on is recorded, together with the ICMP messages given
to `ipv4_send` and the frames given to the card.
-/

namespace Net

open Endian Inet

/-- Who is given a slice of the frame. -/
inductive Handler
  | arpHandlePacket | ipv4HandlePacket | ipv4Dispatch | icmpHandlePacket | udpHandlePacket
  | udpListenCb | inetUdpDeliver | inetTcpDeliver
  deriving DecidableEq, Repr

structure Slice where
  callee : Handler
  ptr : Nat
  len : Nat
  deriving DecidableEq, Repr

/-- The outcome of handling a packet. -/
structure Result where
  st : NetState
  handed : List Slice := []
  echoes : List (List UInt8) := []
  sent : List (List UInt8) := []

/-- Record the slice a callee was given. -/
def Result.handedTo (callee : Handler) (ptr len : Nat) (r : Result) : Result :=
  { r with handed := ⟨callee, ptr, len⟩ :: r.handed }

/-- The 16-bit field in network order at an address. -/
def netHtonsAt (mem : Nat → UInt8) (p : Nat) : UInt16 := swap16 (le16 (mem p) (mem (p + 1)))

def netHtonlAt (mem : Nat → UInt8) (p : Nat) : UInt32 :=
  swap32 (le32 (mem p) (mem (p + 1)) (mem (p + 2)) (mem (p + 3)))

def ipv4At (mem : Nat → UInt8) (p : Nat) : Ipv4Addr :=
  ipv4FromBytes (mem p) (mem (p + 1)) (mem (p + 2)) (mem (p + 3))

/-! ## ARP -/

/-- Refresh the entry of a known address, or take over the next slot. -/
def arpRemember (st : NetState) (ip : Ipv4Addr) (mac : List UInt8) : NetState :=
  match (List.finRange arpCacheSize).find? fun i =>
      (st.arpCache i).valid && (st.arpCache i).ip == ip with
  | some i =>
      let e := { st.arpCache i with mac := mac }
      { st with arpCache := Function.update st.arpCache i e }
  | none =>
      let e : ArpEntry := ⟨true, ip, mac⟩
      { st with
        arpCache := Function.update st.arpCache st.arpNextSlot e
        arpNextSlot := st.arpNextSlot + 1 }

def arpHandlePacket (st : NetState) (mem : Nat → UInt8) (p : Nat) (len : UInt16) : Result :=
  if len < 28 then { st := st }
  else if netHtonsAt mem p ≠ 1 ∨ netHtonsAt mem (p + 2) ≠ ethertypeIpv4 then { st := st }
  else
    let senderMac := Buf.read mem (p + 8) 6
    let senderIp := ipv4At mem (p + 14)
    if netHtonsAt mem (p + 6) = 1 then
      if ipv4At mem (p + 24) ≠ st.ourIp then { st := st }
      else
        let reply := arpPacket 2 st.ourMac st.ourIp senderMac senderIp
        { st := st, sent := [ethSend st senderMac ethertypeArp reply] }
    else if netHtonsAt mem (p + 6) = 2 then { st := arpRemember st senderIp senderMac }
    else { st := st }

/-! ## ICMP -/

/-- The echo reply: at most 1500 bytes of the request with the type and the
checksum rewritten. -/
def icmpEchoReply (data : List UInt8) : List UInt8 :=
  let buf := data.take 1500
  let zeroed := ((buf.set 0 0).set 2 0).set 3 0
  let checksum := swap16 (ipChecksum zeroed)
  (zeroed.set 2 (byteAt checksum.toNat 0)).set 3 (byteAt checksum.toNat 1)

def icmpHandlePacket (st : NetState) (srcIp : Ipv4Addr) (mem : Nat → UInt8) (p : Nat)
    (len : UInt16) : Result :=
  if len < 8 then { st := st }
  else if mem p = 8 then
    let reply := icmpEchoReply (Buf.read mem p len.toNat)
    let r := ipv4Send st srcIp ipv4ProtoIcmp reply
    { st := r.1, echoes := [reply], sent := r.2 }
  else if mem p = 0 ∧ netHtonsAt mem (p + 4) = st.pingExpectedId ∧
      netHtonsAt mem (p + 6) = st.pingExpectedSeq then
    { st := { st with pingReplyReceived := true } }
  else { st := st }

/-! ## UDP -/

/-- What the option loop of `dhcp_handle_reply` gathers. -/
structure DhcpOptions where
  msgType : UInt8 := 0
  mask : Ipv4Addr := 0
  router : Ipv4Addr := 0
  dns : Option Ipv4Addr := none
  serverId : Ipv4Addr

/-- One option of code `code` with `olen` bytes at `oval`. -/
def dhcpTakeOption (o : DhcpOptions) (mem : Nat → UInt8) (code : UInt8) (olen oval : Nat) :
    DhcpOptions :=
  if code = 53 then if 1 ≤ olen then { o with msgType := mem oval } else o
  else if olen < 4 then o
  else if code = 1 then { o with mask := ipv4At mem oval }
  else if code = 3 then { o with router := ipv4At mem oval }
  else if code = 6 then { o with dns := some (ipv4At mem oval) }
  else if code = 54 then { o with serverId := ipv4At mem oval }
  else o

/-- The loop over the `optLen` option bytes at `opt`, from index `i` on.  Every
turn moves the index, so `optLen` turns are enough. -/
def dhcpOptions (mem : Nat → UInt8) (opt optLen : Nat) : Nat → Nat → DhcpOptions → DhcpOptions
  | 0, _, o => o
  | fuel + 1, i, o =>
      if optLen ≤ i then o
      else
        let code := mem (opt + i)
        if code = 0 then dhcpOptions mem opt optLen fuel (i + 1) o
        else if code = 255 then o
        else if optLen ≤ i + 1 then o
        else
          let olen := (mem (opt + i + 1)).toNat
          if optLen < i + 2 + olen then o
          else dhcpOptions mem opt optLen fuel (i + 2 + olen)
            (dhcpTakeOption o mem code olen (opt + i + 2))

/-- `dhcp_handle_reply`; the fixed header is 236 bytes and the magic cookie
follows it. -/
def dhcpHandleReply (st : NetState) (srcIp : Ipv4Addr) (mem : Nat → UInt8) (p : Nat)
    (len : UInt16) : NetState :=
  if len < 240 then st
  else if mem p ≠ 2 then st
  else if netHtonlAt mem (p + 4) ≠ st.dhcp.xid then st
  else if Buf.read mem (p + 28) 6 ≠ st.ourMac then st
  else if netHtonlAt mem (p + 236) ≠ 0x63825363 then st
  else
    let optLen := len.toNat - 240
    let o := dhcpOptions mem (p + 240) optLen optLen 0 { serverId := srcIp }
    let offeredIp := ipv4At mem (p + 16)
    let d := { st.dhcp with offeredDns := o.dns.getD st.dhcp.offeredDns }
    if o.msgType = 2 ∧ d.gotOffer = false then
      { st with dhcp := { d with
          offeredIp := offeredIp, serverId := o.serverId, offeredMask := o.mask
          offeredGw := o.router, gotOffer := true } }
    else if o.msgType = 5 then
      { st with dhcp := { d with
          offeredIp := offeredIp, offeredMask := o.mask, offeredGw := o.router, gotAck := true } }
    else if o.msgType = 6 then { st with dhcp := { d with gotNak := true } }
    else { st with dhcp := d }

def udpHandlePacket (st : NetState) (srcIp : Ipv4Addr) (mem : Nat → UInt8) (p : Nat)
    (len : UInt16) : Result :=
  if len < 8 then { st := st }
  else
    let srcPort := netHtonsAt mem p
    let dstPort := netHtonsAt mem (p + 2)
    let field := netHtonsAt mem (p + 4)
    let udpLen := if len < field then len else field
    let payloadLen := udpLen - 8
    if st.udpListenCb ∧ dstPort = st.udpListenPort then
      Result.handedTo .udpListenCb (p + 8) payloadLen.toNat
        { st := dhcpHandleReply st srcIp mem (p + 8) payloadLen }
    else
      let data := Buf.read mem (p + 8) payloadLen.toNat
      Result.handedTo .inetUdpDeliver (p + 8) payloadLen.toNat
        { st := { st with inet := Inet.inetUdpDeliver st.inet srcIp srcPort dstPort data } }

/-! ## IPv4 and Ethernet -/

/-- `inet_tcp_deliver` and the segments it sends. -/
def tcpHandlePacket (env : Env) (st : NetState) (srcIp : Ipv4Addr) (mem : Nat → UInt8) (p : Nat)
    (len : UInt16) : Result :=
  let r := Inet.inetTcpDeliver env st.inet srcIp (Buf.read mem p len.toNat)
  let s := sendSegments { st with inet := r.1 } r.2
  { st := s.1, sent := s.2 }

def ipv4Dispatch (env : Env) (st : NetState) (srcIp : Ipv4Addr) (protocol : UInt8)
    (mem : Nat → UInt8) (p : Nat) (len : UInt16) : Result :=
  if protocol = ipv4ProtoIcmp then
    (icmpHandlePacket st srcIp mem p len).handedTo .icmpHandlePacket p len.toNat
  else if protocol = ipv4ProtoUdp then
    (udpHandlePacket st srcIp mem p len).handedTo .udpHandlePacket p len.toNat
  else if protocol = ipv4ProtoTcp then
    (tcpHandlePacket env st srcIp mem p len).handedTo .inetTcpDeliver p len.toNat
  else { st := st }

def broadcastIp : Ipv4Addr := ipv4FromBytes 255 255 255 255

def ipv4HandlePacket (env : Env) (st : NetState) (mem : Nat → UInt8) (p : Nat) (len : UInt16) :
    Result :=
  if len < 20 then { st := st }
  else
    let version := mem p >>> 4
    let ihlWords := mem p &&& 0xF
    if version ≠ 4 ∨ ihlWords < 5 then { st := st }
    else
      let headerLen : UInt16 := ihlWords.toUInt16 * 4
      if len < headerLen then { st := st }
      else
        let dstIp := ipv4At mem (p + 16)
        let haveIp := decide (st.ourIp ≠ 0)
        if haveIp = true ∧ dstIp ≠ st.ourIp ∧ dstIp ≠ broadcastIp then { st := st }
        else
          let srcIp := ipv4At mem (p + 12)
          let field := netHtonsAt mem (p + 2)
          let totalLen := if len < field then len else field
          let payloadLen := totalLen - headerLen
          if haveIp = true ∨ mem (p + 9) = ipv4ProtoUdp then
            (ipv4Dispatch env st srcIp (mem (p + 9)) mem (p + headerLen.toNat) payloadLen).handedTo
              .ipv4Dispatch (p + headerLen.toNat) payloadLen.toNat
          else { st := st }

def netHandleFrame (env : Env) (st : NetState) (mem : Nat → UInt8) (len : UInt16) : Result :=
  if len < 14 then { st := st }
  else
    let ethertype := netHtonsAt mem 12
    let payloadLen := len - 14
    if ethertype = ethertypeArp then
      (arpHandlePacket st mem 14 payloadLen).handedTo .arpHandlePacket 14 payloadLen.toNat
    else if ethertype = ethertypeIpv4 then
      (ipv4HandlePacket env st mem 14 payloadLen).handedTo .ipv4HandlePacket 14 payloadLen.toNat
    else { st := st }

end Net
