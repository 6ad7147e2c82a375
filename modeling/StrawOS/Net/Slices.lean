import StrawOS.Net.Frame

/-!
# What is handed on lies inside the frame

Two 16-bit subtractions on the receive path can wrap: the IPv4 payload length
when the total-length field is smaller than the header, and the UDP payload
length when the UDP length field is smaller than eight.  Whenever one of them wraps, the
slice handed on ends outside the frame.  When neither does, every slice, every
queued datagram and every echo reply is made of bytes of the frame.
-/

namespace Inet

/-! ## Datagrams and the TCP half of the table -/

/-- No queue of datagrams has gained an entry. -/
def NoNewDatagrams (t t' : Table) : Prop :=
  ∀ i, ∀ d ∈ (t' i).udpQueue, d ∈ (t i).udpQueue

theorem NoNewDatagrams.refl (t : Table) : NoNewDatagrams t t := fun _ _ h => h

theorem NoNewDatagrams.trans {t t' t'' : Table} (h : NoNewDatagrams t t')
    (h' : NoNewDatagrams t' t'') : NoNewDatagrams t t'' :=
  fun i d hd => h i d (h' i d hd)

theorem NoNewDatagrams.update {t t' : Table} (h : NoNewDatagrams t t') (i : SockId)
    {s : InetSocket} (hs : ∀ d ∈ s.udpQueue, d ∈ (t i).udpQueue) :
    NoNewDatagrams t (Function.update t' i s) := by
  intro j d hd
  by_cases hj : j = i
  · subst hj
    exact hs d (by simpa using hd)
  · exact h j d (by simpa [hj] using hd)

theorem NoNewDatagrams.leaveBacklog (t : Table) (s : SockId) :
    NoNewDatagrams t (leaveBacklog t s) := by
  unfold Inet.leaveBacklog
  split
  · exact (NoNewDatagrams.refl t).update _ fun d hd => hd
  · exact NoNewDatagrams.refl t

theorem NoNewDatagrams.freeAux (fuel : Nat) (t : Table) (s : SockId) :
    NoNewDatagrams t (inetFreeAux fuel t s).1 := by
  induction fuel generalizing t s with
  | zero => exact NoNewDatagrams.refl t
  | succ fuel ih =>
      have hleave := NoNewDatagrams.leaveBacklog t s
      rw [inetFreeAux]
      split
      · refine NoNewDatagrams.update ?_ s (by simp)
        refine List.foldlRecOn (motive := fun acc : Table × List Emission =>
          NoNewDatagrams t acc.1) _ _ hleave ?_
        intro acc hacc c _
        split
        · refine NoNewDatagrams.trans ?_ (ih _ c)
          exact hacc.update c (hacc c)
        · exact hacc
      · exact hleave.update s (by simp)

theorem NoNewDatagrams.alloc (st : State) (nonblock : Bool) (mem : Memory) :
    NoNewDatagrams st.sockets (inetAlloc st .tcp nonblock mem).1.sockets := by
  unfold inetAlloc
  split
  · exact NoNewDatagrams.refl _
  · have hnew := fun i rx tx => (NoNewDatagrams.refl st.sockets).update i
      (s := { used := true, kind := .tcp, nonblock := nonblock, rx := rx, tx := tx }) (by simp)
    dsimp only
    split
    · exact hnew _ _ _
    · exact (hnew _ _ _).trans (NoNewDatagrams.freeAux _ _ _)

theorem tcpOutput_udpQueue (now : Nat) (s : InetSocket) :
    (tcpOutput now s).1.udpQueue = s.udpQueue :=
  tcpOutput_induct (P := fun s' _ => s'.udpQueue = s.udpQueue) now s rfl
    (fun _ _ h _ _ => h) (fun _ _ h _ _ => h) (fun _ _ h => h)

theorem tcpReceiveOpen_udpQueue (now : Nat) (s : InetSocket) (seg : TcpSegment) :
    (tcpReceiveOpen now s seg).sock.udpQueue = s.udpQueue := by
  have hack : (tcpProcessAck now s seg).udpQueue = s.udpQueue := by
    unfold tcpProcessAck
    split
    · split <;> rfl
    · rfl
  have htext : ∀ s', (tcpProcessText s' seg).1.udpQueue = s'.udpQueue := by
    intro s'
    have hdata : (tcpProcessData s' seg).udpQueue = s'.udpQueue := by
      unfold tcpProcessData
      split <;> rfl
    unfold tcpProcessText
    dsimp only
    split <;> exact hdata
  unfold tcpReceiveOpen
  dsimp only
  split
  · rw [htext, hack]
  · rw [tcpOutput_udpQueue, htext, hack]

theorem tcpReceive_udpQueue (now : Nat) (s : InetSocket) (seg : TcpSegment) :
    (tcpReceive now s seg).sock.udpQueue = s.udpQueue := by
  unfold tcpReceive
  split
  · rfl
  · cases s.state with
    | closed | listen => rfl
    | established | finWait | closeWait | done => exact tcpReceiveOpen_udpQueue now s seg
    | synSent => dsimp only; split <;> rfl
    | synRcvd =>
        dsimp only
        split
        · rfl
        split
        · exact tcpReceiveOpen_udpQueue now (tcpAccepted s seg) seg
        · rfl

theorem NoNewDatagrams.tcpDeliver (env : Env) (st : State) (srcIp : Ipv4Addr)
    (data : List UInt8) :
    NoNewDatagrams st.sockets (inetTcpDeliver env st srcIp data).1.sockets := by
  unfold inetTcpDeliver
  split
  · exact NoNewDatagrams.refl _
  rename_i seg _
  unfold tcpSegmentArrives
  split
  · unfold tcpPassiveOpen
    split
    · exact NoNewDatagrams.refl _
    split
    · exact NoNewDatagrams.refl _
    split
    · exact NoNewDatagrams.refl _
    have halloc := NoNewDatagrams.alloc st false env.mem
    split
    · rename_i heq
      rwa [heq] at halloc
    · rename_i c heq
      rw [heq] at halloc
      exact halloc.update c (halloc c)
  · rename_i i _
    have hstore : NoNewDatagrams st.sockets
        (storeReaction st.sockets i (tcpReceive env.now (st.sockets i) seg)) := by
      have hsock := (NoNewDatagrams.refl st.sockets).update i
        (s := (tcpReceive env.now (st.sockets i) seg).sock)
        (by rw [tcpReceive_udpQueue]; exact fun _ hd => hd)
      unfold storeReaction
      split
      · exact hsock.update _ (hsock _)
      · exact hsock
    unfold applyReaction
    split
    · exact hstore.trans (NoNewDatagrams.freeAux _ _ _)
    · exact hstore

end Inet

namespace Net

open Endian Inet

/-! ## The condition -/

/-- Header length of the IPv4 packet at `p`. -/
def ipv4HeaderLen (mem : Nat → UInt8) (p : Nat) : UInt16 := (mem p &&& 0xF).toUInt16 * 4

/-- The packet at `p` passes the checks that `ipv4_handle_packet` makes before it
hands the payload on. -/
structure Ipv4Passes (st : NetState) (mem : Nat → UInt8) (p : Nat) (len : UInt16) : Prop where
  long : ¬ len < 20
  version : mem p >>> 4 = 4
  ihl : ¬ mem p &&& 0xF < 5
  header : ¬ len < ipv4HeaderLen mem p
  addressed : st.ourIp ≠ 0 →
    ipv4At mem (p + 16) = st.ourIp ∨ ipv4At mem (p + 16) = broadcastIp
  protocol : st.ourIp ≠ 0 ∨ mem (p + 9) = ipv4ProtoUdp

/-- The payload length once the total-length field is cut to the packet. -/
def ipv4PayloadLen (mem : Nat → UInt8) (p : Nat) (len : UInt16) : UInt16 :=
  (if len < netHtonsAt mem (p + 2) then len else netHtonsAt mem (p + 2)) - ipv4HeaderLen mem p

/-- The length fields of a frame that is passed on are not smaller than the
headers they count: the total length covers the IPv4 header, and the length of a
UDP message that has room for a header covers that header. -/
def LengthsCoverHeaders (st : NetState) (mem : Nat → UInt8) (len : UInt16) : Prop :=
  ¬ len < 14 → netHtonsAt mem 12 = ethertypeIpv4 → Ipv4Passes st mem 14 (len - 14) →
    ipv4HeaderLen mem 14 ≤ netHtonsAt mem 16 ∧
      (mem 23 = ipv4ProtoUdp → ¬ ipv4PayloadLen mem 14 (len - 14) < 8 →
        8 ≤ netHtonsAt mem (14 + (ipv4HeaderLen mem 14).toNat + 4))

/-! ## What the outcome may contain -/

/-- A frame of `len` bytes at the start of memory is the only source of the
slices handed on, of the datagrams queued and of the echo replies. -/
structure FrameOnly (mem : Nat → UInt8) (len : UInt16) (st : NetState) (r : Result) : Prop where
  slices : ∀ s ∈ r.handed, s.ptr + s.len ≤ len.toNat
  datagrams : ∀ i, ∀ d ∈ (r.st.inet.sockets i).udpQueue, d ∈ (st.inet.sockets i).udpQueue ∨
    ∃ p n, p + n ≤ len.toNat ∧ d.data = Buf.read mem p n
  echoes : ∀ e ∈ r.echoes, ∃ p, p + e.length ≤ len.toNat ∧
    ∀ i (h : i < e.length), i ≠ 0 → i ≠ 2 → i ≠ 3 → e[i] = mem (p + i)

variable {env : Env} {st : NetState} {mem : Nat → UInt8} {len n : UInt16} {p : Nat}

theorem FrameOnly.quiet {r : Result} (hslices : r.handed = []) (hinet : r.st.inet = st.inet)
    (hechoes : r.echoes = []) : FrameOnly mem len st r :=
  ⟨by simp [hslices], fun i d hd => .inl (by rwa [hinet] at hd), by simp [hechoes]⟩

theorem FrameOnly.handedTo {r : Result} (h : FrameOnly mem len st r) {callee : Handler}
    (hp : p + n.toNat ≤ len.toNat) : FrameOnly mem len st (r.handedTo callee p n.toNat) := by
  refine ⟨?_, h.datagrams, h.echoes⟩
  intro s hs
  rcases List.mem_cons.mp hs with rfl | hs
  · exact hp
  · exact h.slices s hs

theorem FrameOnly.arp (p : Nat) (n : UInt16) :
    FrameOnly mem len st (arpHandlePacket st mem p n) := by
  unfold arpHandlePacket
  split
  · exact .quiet rfl rfl rfl
  split
  · exact .quiet rfl rfl rfl
  dsimp only
  split
  · split <;> exact .quiet rfl rfl rfl
  split
  · refine .quiet rfl ?_ rfl
    unfold arpRemember
    split <;> rfl
  · exact .quiet rfl rfl rfl

theorem icmpEchoReply_length (data : List UInt8) :
    (icmpEchoReply data).length = min 1500 data.length := by
  simp [icmpEchoReply]

/-- Outside the type and the checksum the reply repeats the request. -/
theorem icmpEchoReply_getElem (data : List UInt8) {i : Nat} (h : i < (icmpEchoReply data).length)
    (hd : i < data.length) (h0 : i ≠ 0) (h2 : i ≠ 2) (h3 : i ≠ 3) :
    (icmpEchoReply data)[i] = data[i] := by
  simp [icmpEchoReply, h0.symm, h2.symm, h3.symm]

theorem FrameOnly.icmp {srcIp : Ipv4Addr} (hp : p + n.toNat ≤ len.toNat) :
    FrameOnly mem len st (icmpHandlePacket st srcIp mem p n) := by
  unfold icmpHandlePacket
  split
  · exact .quiet rfl rfl rfl
  split
  · refine ⟨by simp, ?_, ?_⟩
    · intro i d hd
      exact .inl (by rwa [ipv4Send_inet] at hd)
    · intro e he
      obtain rfl : e = _ := by simpa using he
      have hlen := icmpEchoReply_length (Buf.read mem p n.toNat)
      rw [Buf.length_read] at hlen
      refine ⟨p, by omega, ?_⟩
      intro i hi h0 h2 h3
      rw [icmpEchoReply_getElem _ hi (by rw [Buf.length_read]; omega) h0 h2 h3]
      simp [Buf.read]
  · split <;> exact .quiet rfl rfl rfl

theorem dhcpHandleReply_inet (st : NetState) (srcIp : Ipv4Addr) (mem : Nat → UInt8) (p : Nat)
    (n : UInt16) : (dhcpHandleReply st srcIp mem p n).inet = st.inet := by
  unfold dhcpHandleReply
  iterate 5
    split
    · rfl
  dsimp only
  iterate 3
    split
    · rfl
  rfl

/-- A queued datagram is the start of the slice it was delivered from. -/
theorem FrameOnly.udpDeliver {srcIp : Ipv4Addr} {srcPort dstPort : UInt16} {data : List UInt8}
    (hdata : data = Buf.read mem p n.toNat) (hp : p + n.toNat ≤ len.toNat) :
    FrameOnly mem len st
      { st := { st with inet := Inet.inetUdpDeliver st.inet srcIp srcPort dstPort data } } := by
  subst hdata
  refine ⟨by simp, ?_, by simp⟩
  intro i d hd
  simp only [Inet.inetUdpDeliver] at hd
  split at hd
  · exact .inl hd
  split at hd
  · exact .inl hd
  rename_i j _ _
  by_cases hij : i = j
  · subst hij
    simp only [Function.update_self, List.mem_append, List.mem_singleton] at hd
    refine hd.imp_right ?_
    rintro rfl
    exact ⟨p, min udpMaxDgram n.toNat, by omega, Buf.take_read mem p n.toNat udpMaxDgram⟩
  · exact .inl (by simpa [hij] using hd)

/-- Subtracting a header that does not fit wraps to the far end of the range. -/
theorem toNat_sub_wrapped {a b : UInt16} (h : a < b) :
    (a - b).toNat = 65536 + a.toNat - b.toNat := by
  have hb := b.toNat_lt
  have hlt := UInt16.lt_iff_toNat_lt.mp h
  rw [UInt16.toNat_sub]
  omega

theorem toNat_cut (len field : UInt16) :
    (if len < field then len else field).toNat = min len.toNat field.toNat := by
  split
  · rename_i h
    rw [UInt16.lt_iff_toNat_lt] at h
    omega
  · rename_i h
    rw [UInt16.lt_iff_toNat_lt] at h
    omega

theorem FrameOnly.udp {srcIp : Ipv4Addr} (hp : p + n.toNat ≤ len.toNat)
    (hfield : ¬ n < 8 → 8 ≤ netHtonsAt mem (p + 4)) :
    FrameOnly mem len st (udpHandlePacket st srcIp mem p n) := by
  unfold udpHandlePacket
  split
  · exact .quiet rfl rfl rfl
  rename_i hlong
  have hn : 8 ≤ n.toNat := by
    exact Nat.le_of_not_lt hlong
  have hcut := toNat_cut n (netHtonsAt mem (p + 4))
  have hf := UInt16.le_iff_toNat_le.mp (hfield hlong)
  have hsub : ((if n < netHtonsAt mem (p + 4) then n else netHtonsAt mem (p + 4)) - 8).toNat =
      min n.toNat (netHtonsAt mem (p + 4)).toNat - 8 := by
    rw [UInt16.toNat_sub_of_le _ _, hcut]
    · rfl
    · rw [UInt16.le_iff_toNat_le, hcut]
      exact Nat.le_min.mpr ⟨hn, hf⟩
  have hinside : p + 8 +
      ((if n < netHtonsAt mem (p + 4) then n else netHtonsAt mem (p + 4)) - 8).toNat ≤
      len.toNat := by
    omega
  dsimp only
  split
  · exact FrameOnly.handedTo (.quiet rfl (dhcpHandleReply_inet _ _ _ _ _) rfl) hinside
  · exact FrameOnly.handedTo (.udpDeliver rfl hinside) hinside

theorem FrameOnly.tcp {srcIp : Ipv4Addr} :
    FrameOnly mem len st (tcpHandlePacket env st srcIp mem p n) := by
  refine ⟨by simp [tcpHandlePacket], ?_, by simp [tcpHandlePacket]⟩
  intro i d hd
  simp only [tcpHandlePacket, sendSegments_inet] at hd
  exact .inl (NoNewDatagrams.tcpDeliver env st.inet srcIp _ i d hd)

theorem FrameOnly.dispatch {srcIp : Ipv4Addr} {protocol : UInt8}
    (hp : p + n.toNat ≤ len.toNat)
    (hfield : protocol = ipv4ProtoUdp → ¬ n < 8 → 8 ≤ netHtonsAt mem (p + 4)) :
    FrameOnly mem len st (ipv4Dispatch env st srcIp protocol mem p n) := by
  unfold ipv4Dispatch
  split
  · exact (FrameOnly.icmp hp).handedTo hp
  split
  · rename_i hudp
    exact (FrameOnly.udp hp (hfield hudp)).handedTo hp
  split
  · exact FrameOnly.tcp.handedTo hp
  · exact .quiet rfl rfl rfl

/-! ## The IPv4 packet -/

theorem ipv4HandlePacket_of_passes (h : Ipv4Passes st mem p n) :
    ipv4HandlePacket env st mem p n =
      (ipv4Dispatch env st (ipv4At mem (p + 12)) (mem (p + 9)) mem
        (p + (ipv4HeaderLen mem p).toNat) (ipv4PayloadLen mem p n)).handedTo .ipv4Dispatch
        (p + (ipv4HeaderLen mem p).toNat) (ipv4PayloadLen mem p n).toNat := by
  have haddr : ¬ (decide (st.ourIp ≠ 0) = true ∧ ipv4At mem (p + 16) ≠ st.ourIp ∧
      ipv4At mem (p + 16) ≠ broadcastIp) := by
    rintro ⟨hip, h1, h2⟩
    rcases h.addressed (by simpa using hip) with h0 | h0
    · exact h1 h0
    · exact h2 h0
  have hproto : decide (st.ourIp ≠ 0) = true ∨ mem (p + 9) = ipv4ProtoUdp :=
    h.protocol.imp_left fun h0 => by simpa using h0
  have hver : ¬ (mem p >>> 4 ≠ 4 ∨ mem p &&& 0xF < 5) := by
    rintro (h0 | h0)
    · exact h0 h.version
    · exact h.ihl h0
  have hhdr : ¬ n < (mem p &&& 0xF).toUInt16 * 4 := h.header
  unfold ipv4HandlePacket
  rw [if_neg h.long]
  rw [if_neg hver, if_neg hhdr, if_neg haddr, if_pos hproto]
  rfl

theorem ipv4HandlePacket_of_not_passes (h : ¬ Ipv4Passes st mem p n) :
    ipv4HandlePacket env st mem p n = { st := st } := by
  unfold ipv4HandlePacket
  split
  · rfl
  rename_i hlong
  dsimp only
  split
  · rfl
  rename_i hver
  split
  · rfl
  rename_i hhdr
  split
  · rfl
  rename_i haddr
  split
  · rename_i hproto
    push Not at hver haddr
    refine absurd ⟨hlong, hver.1, hver.2, hhdr, ?_, ?_⟩ h
    · grind
    · exact hproto.imp_left fun h0 => by simpa using h0
  · rfl

theorem toNat_le_of_passes (h : Ipv4Passes st mem p n) :
    (ipv4HeaderLen mem p).toNat ≤ n.toNat := by
  have := h.header
  exact Nat.le_of_not_lt this

/-- A total length that covers the header gives a payload inside the packet. -/
theorem ipv4PayloadLen_inside (h : Ipv4Passes st mem p n)
    (hcover : ipv4HeaderLen mem p ≤ netHtonsAt mem (p + 2)) :
    (ipv4HeaderLen mem p).toNat + (ipv4PayloadLen mem p n).toNat ≤ n.toNat := by
  have hn := toNat_le_of_passes h
  have hcut := toNat_cut n (netHtonsAt mem (p + 2))
  have hc := UInt16.le_iff_toNat_le.mp hcover
  rw [ipv4PayloadLen, UInt16.toNat_sub_of_le _ _, hcut]
  · omega
  · rw [UInt16.le_iff_toNat_le, hcut]
    exact Nat.le_min.mpr ⟨hn, hc⟩

/-- A smaller total length makes the payload end outside every frame. -/
theorem ipv4PayloadLen_outside (h : Ipv4Passes st mem p n)
    (hcover : ¬ ipv4HeaderLen mem p ≤ netHtonsAt mem (p + 2)) :
    65536 ≤ (ipv4HeaderLen mem p).toNat + (ipv4PayloadLen mem p n).toNat := by
  have hcut := toNat_cut n (netHtonsAt mem (p + 2))
  rw [UInt16.le_iff_toNat_le] at hcover
  rw [ipv4PayloadLen, toNat_sub_wrapped, hcut]
  · omega
  · rw [UInt16.lt_iff_toNat_lt, hcut]
    omega

/-- A UDP length field below eight makes the message end outside every frame. -/
theorem udp_slice_outside (st : NetState) (srcIp : Ipv4Addr) (hlong : ¬ n < 8)
    (hfield : ¬ 8 ≤ netHtonsAt mem (p + 4)) :
    ∃ s ∈ (udpHandlePacket st srcIp mem p n).handed, 65536 ≤ s.ptr + s.len := by
  have hcut := toNat_cut n (netHtonsAt mem (p + 4))
  have hf : (netHtonsAt mem (p + 4)).toNat < 8 := by
    exact Nat.lt_of_not_le hfield
  have hsub : ((if n < netHtonsAt mem (p + 4) then n else netHtonsAt mem (p + 4)) - 8).toNat =
      65536 + min n.toNat (netHtonsAt mem (p + 4)).toNat - 8 := by
    rw [toNat_sub_wrapped, hcut]
    · rfl
    · rw [UInt16.lt_iff_toNat_lt, hcut]
      exact Nat.lt_of_le_of_lt (Nat.min_le_right _ _) hf
  unfold udpHandlePacket
  rw [if_neg hlong]
  dsimp only
  split
  · exact ⟨_, List.mem_cons_self, by dsimp only; omega⟩
  · exact ⟨_, List.mem_cons_self, by dsimp only; omega⟩

/-! ## The frame -/

theorem toNat_sub_ethernet (h : ¬ len < 14) : 14 + (len - 14).toNat = len.toNat := by
  rw [UInt16.lt_iff_toNat_lt] at h
  have h14 : (14 : UInt16).toNat = 14 := rfl
  rw [UInt16.toNat_sub_of_le _ _ (UInt16.le_iff_toNat_le.mpr (Nat.le_of_not_lt h))]
  omega

theorem netHandleFrame_ipv4 (h : ¬ len < 14) (heth : netHtonsAt mem 12 = ethertypeIpv4) :
    netHandleFrame env st mem len =
      (ipv4HandlePacket env st mem 14 (len - 14)).handedTo .ipv4HandlePacket 14
        (len - 14).toNat := by
  unfold netHandleFrame
  rw [if_neg h]
  rw [heth, if_neg (by decide), if_pos rfl]

/-- **Slices stay in the frame, exactly when the length fields cover the
headers.**  Handling a frame hands on only slices of it, queues only datagrams
and sends only echo replies made of its bytes, if and only if the IPv4 and UDP
length fields of a frame that gets that far are not smaller than the headers. -/
theorem frameOnly_iff (env : Env) (st : NetState) (mem : Nat → UInt8) (len : UInt16) :
    FrameOnly mem len st (netHandleFrame env st mem len) ↔ LengthsCoverHeaders st mem len := by
  constructor
  · intro h hlen heth hpass
    have hlt := len.toNat_lt
    rw [netHandleFrame_ipv4 hlen heth, ipv4HandlePacket_of_passes hpass] at h
    have hdisp := h.slices ⟨.ipv4Dispatch, 14 + (ipv4HeaderLen mem 14).toNat,
      (ipv4PayloadLen mem 14 (len - 14)).toNat⟩ (by simp [Result.handedTo])
    refine ⟨?_, ?_⟩
    · by_contra hcover
      have hout := ipv4PayloadLen_outside hpass hcover
      dsimp only at hdisp
      omega
    · intro hudp hlong
      by_contra hfield
      obtain ⟨s, hs, hout⟩ := udp_slice_outside st (ipv4At mem (14 + 12)) hlong hfield
      have hmem : s ∈ (ipv4Dispatch env st (ipv4At mem (14 + 12)) (mem (14 + 9)) mem
          (14 + (ipv4HeaderLen mem 14).toNat) (ipv4PayloadLen mem 14 (len - 14))).handed := by
        rw [ipv4Dispatch, if_neg (by rw [hudp]; decide), if_pos hudp]
        exact List.mem_cons_of_mem _ hs
      have hin := h.slices s (List.mem_cons_of_mem _ (List.mem_cons_of_mem _ hmem))
      omega
  · intro hcover
    unfold netHandleFrame
    split
    · exact .quiet rfl rfl rfl
    rename_i hlen
    have hlen' := toNat_sub_ethernet hlen
    dsimp only
    split
    · exact (FrameOnly.arp 14 _).handedTo (by omega)
    split
    · rename_i heth
      refine FrameOnly.handedTo ?_ (by omega)
      by_cases hpass : Ipv4Passes st mem 14 (len - 14)
      · obtain ⟨htotal, hudp⟩ := hcover hlen heth hpass
        have hinside := ipv4PayloadLen_inside hpass htotal
        rw [ipv4HandlePacket_of_passes hpass]
        exact (FrameOnly.dispatch (by omega) hudp).handedTo (by omega)
      · rw [ipv4HandlePacket_of_not_passes hpass]
        exact .quiet rfl rfl rfl
    · exact .quiet rfl rfl rfl

/-! ## A frame whose total length is zero -/

/-- A 42-byte UDP frame for an unconfigured machine: the IPv4 total length is
zero, the message is for port 5000. -/
def shortTotalFrame : List UInt8 :=
  [255, 255, 255, 255, 255, 255, 2, 0, 0, 0, 0, 1, 8, 0,
    0x45, 0, 0, 0, 0, 0, 0, 0, 64, 17, 0, 0, 10, 0, 0, 9, 255, 255, 255, 255,
    0x12, 0x34, 0x13, 0x88, 0, 8, 0, 0]

/-- Memory holding that frame, with the byte 90 everywhere behind it. -/
def shortTotalMemory (a : Nat) : UInt8 := shortTotalFrame.getD a 90

/-- A machine without memory to give out. -/
def bareEnv : Env := ⟨0, 0, ⟨none, none, false⟩⟩

/-- The dispatcher, and the UDP handler after it, get 65516 bytes of a 42-byte
frame. -/
theorem short_total_leaves_frame :
    ¬ FrameOnly shortTotalMemory 42 {} (netHandleFrame bareEnv {} shortTotalMemory 42) := by
  intro h
  have hmem : (⟨.udpHandlePacket, 34, 65516⟩ : Slice) ∈
      (netHandleFrame bareEnv {} shortTotalMemory 42).handed := by
    decide +kernel
  exact absurd (h.slices _ hmem) (by decide)

end Net
