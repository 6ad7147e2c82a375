import StrawOS.Net.Frame
import StrawOS.Lib.OnesComplement

/-!
# Checksums that verify

A receiver adds up all words of a header, the stored checksum among them, and expects
the full sum.  `ip_checksum` and `tcp_checksum` fold the carries of an ordinary sum at the
end, which leaves the one's-complement sum as it is, and the checksum goes into the packet
in network order.
-/

namespace Net

open Endian Inet OnesComplement

/-- What a receiver checks. -/
def Verifies (bytes : List UInt8) : Prop := onesSum (words bytes) = 65535

/-- The pseudo-header that a TCP segment is summed with. -/
def tcpPseudoHeader (src dst : Ipv4Addr) (len : Nat) : List UInt8 :=
  addrBytes src ++ addrBytes dst ++ [0, .ofNat Inet.ipv4ProtoTcp] ++ store16 (swap16 (.ofNat len))

/-! ## The sums of the sender -/

theorem sumWords_eq (bytes : List UInt8) : sumWords bytes = (words bytes).sum := by
  induction bytes using words.induct with
  | case1 => rfl
  | case2 hi => simp [sumWords, words]
  | case3 hi lo rest ih => simp only [sumWords, words, List.sum_cons, ih]

theorem foldCarries_spec (sum : Nat) : foldCarries sum < 65536 ∧
    foldCarries sum % 65535 = sum % 65535 ∧ (foldCarries sum = 0 ↔ sum = 0) := by
  induction sum using foldCarries.induct with
  | case1 sum h ih =>
    obtain ⟨hlt, hmod, hzero⟩ := ih
    rw [foldCarries, if_pos h]
    refine ⟨hlt, ?_, ?_⟩
    · omega
    · omega
  | case2 sum h =>
    rw [foldCarries, if_neg h]
    omega

theorem toNat_swap16 (v : UInt16) : (swap16 v).toNat = v.toNat % 256 * 256 + v.toNat / 256 := by
  have hv := v.toNat_lt
  have hhigh : (v <<< 8).toNat = v.toNat % 256 * 256 := by
    have hshift : (8 : UInt16).toNat % 16 = 8 := rfl
    rw [UInt16.toNat_shiftLeft, hshift, Nat.shiftLeft_eq]
    omega
  have hlow : (v >>> 8).toNat = v.toNat / 256 := by
    simp [Nat.shiftRight_eq_div_pow]
  rw [swap16, UInt16.toNat_or, hhigh, hlow]
  have hor := Nat.shiftLeft_add_eq_or_of_lt (b := v.toNat / 256) (i := 8) (by omega) (v.toNat % 256)
  rw [Nat.shiftLeft_eq] at hor
  exact hor.symm

theorem words_store16_swap16 (v : UInt16) : words (store16 (swap16 v)) = [v.toNat] := by
  have hv := v.toNat_lt
  have hlow : (v.toNat % 256 * 256 + v.toNat / 256) % 256 = v.toNat / 256 := by omega
  have hhigh : (v.toNat % 256 * 256 + v.toNat / 256) / 256 = v.toNat % 256 := by omega
  simp only [store16, words, toNat_byteAt, toNat_swap16, Nat.pow_zero, Nat.pow_one, Nat.div_one,
    List.cons.injEq, and_true, hlow, hhigh]
  omega

theorem words_field {front : List UInt8} (h : front.length % 2 = 0) (v : UInt16)
    (rest : List UInt8) : (words (front ++ store16 (swap16 v) ++ rest)).sum =
      (words (front ++ store16 0 ++ rest)).sum + v.toNat := by
  have hlen : ∀ u : UInt16, (front ++ store16 u).length % 2 = 0 := by
    simp only [store16, List.length_append, List.length_cons, List.length_nil]
    omega
  have hzero : words (store16 0) = [0] := by decide
  rw [words_append (hlen _), words_append (hlen _), words_append h, words_append h,
    words_store16_swap16, hzero]
  simp only [List.sum_append, List.sum_singleton]
  omega

/-- **A checksum in its field makes the packet verify.** -/
theorem verifies_of_complement {front rest : List UInt8} (h : front.length % 2 = 0) {sum : Nat}
    (hsum : sum = (words (front ++ store16 0 ++ rest)).sum) :
    Verifies (front ++ store16 (swap16 (~~~ .ofNat (foldCarries sum))) ++ rest) := by
  obtain ⟨hlt, hmod, hzero⟩ := foldCarries_spec sum
  refine onesSum_complement (words_lt _) ?_ (toNat_complement hlt) hlt hmod hzero
  rw [words_field h, hsum]

/-! ## The two senders -/

/-- The header of `ipv4_send_from`. -/
theorem ipv4Header_verifies (totalLen id : UInt16) (protocol : UInt8) (src dst : Ipv4Addr) :
    Verifies (ipv4Header totalLen id protocol
      (swap16 (ipChecksum (ipv4Header totalLen id protocol 0 src dst))) src dst) := by
  have hsplit : ∀ checksum, ipv4Header totalLen id protocol checksum src dst =
      ([0x45, 0] ++ store16 (swap16 totalLen) ++ store16 (swap16 id) ++ [0, 0, 64, protocol]) ++
        store16 checksum ++ (store32 src ++ store32 dst) := by
    intro checksum
    simp only [ipv4Header, List.append_assoc]
  rw [hsplit, hsplit]
  refine verifies_of_complement ?_ (sumWords_eq _)
  simp [store16]

/-- The checksum field of a segment is in the middle of it, at an even offset. -/
theorem tcpLayout_split (g : TcpSegment) : ∃ front rest, front.length % 2 = 0 ∧
    ∀ checksum, tcpLayout g checksum = front ++ store16 checksum ++ rest := by
  refine ⟨store16 (swap16 g.srcPort) ++ store16 (swap16 g.dstPort) ++ store32 (swap32 g.seq) ++
    store32 (swap32 g.ack) ++ [.ofNat (tcpHeaderLen g.flags / 4 * 16), g.flags] ++
    store16 (swap16 g.window), [0, 0] ++ tcpOptions g.flags ++ g.payload,
    by simp [store16, store32], ?_⟩
  intro checksum
  simp only [tcpLayout, List.append_assoc]

theorem tcpLayout_length (g : TcpSegment) (checksum : UInt16) :
    (tcpLayout g checksum).length = 20 + (tcpOptions g.flags).length + g.payload.length := by
  simp [tcpLayout, store16, store32]
  omega

@[simp] theorem length_addrBytes (ip : Ipv4Addr) : (addrBytes ip).length = 4 := rfl

@[simp] theorem length_store16 (v : UInt16) : (store16 v).length = 2 := rfl

theorem tcpPseudoHeader_words (src dst : Ipv4Addr) {len : Nat} (h : len < 65536) :
    (words (tcpPseudoHeader src dst len)).sum =
      sumWords (addrBytes src) + sumWords (addrBytes dst) + Inet.ipv4ProtoTcp + len := by
  have hword : (UInt16.ofNat len).toNat = len := by
    rw [UInt16.toNat_ofNat']
    omega
  have hproto : words [0, .ofNat Inet.ipv4ProtoTcp] = [Inet.ipv4ProtoTcp] := by decide
  rw [tcpPseudoHeader, words_append (by simp), words_append (by simp), words_append (by simp), hproto,
    words_store16_swap16, sumWords_eq, sumWords_eq, hword]
  simp only [List.sum_append, List.sum_singleton]

/-- The segment of `tcp_send_segment`, behind its pseudo-header. -/
theorem tcpSegmentBytes_verifies (localIp remoteIp : Ipv4Addr) (g : TcpSegment)
    (hlen : g.payload.length ≤ 1400) :
    Verifies (tcpPseudoHeader localIp remoteIp (tcpSegmentBytes localIp remoteIp g).length ++
      tcpSegmentBytes localIp remoteIp g) := by
  obtain ⟨front, rest, heven, hsplit⟩ := tcpLayout_split g
  have hopt : (tcpOptions g.flags).length ≤ 4 := by
    unfold tcpOptions
    split <;> simp
  have hbytes : (tcpLayout g 0).length < 65536 := by
    rw [tcpLayout_length]
    omega
  have hlength : (tcpSegmentBytes localIp remoteIp g).length = (tcpLayout g 0).length := by
    rw [tcpSegmentBytes, tcpLayout_length, tcpLayout_length]
  have hpseudo := tcpPseudoHeader_words localIp remoteIp hbytes
  have hfirst : (tcpPseudoHeader localIp remoteIp (tcpLayout g 0).length).length % 2 = 0 := by
    simp [tcpPseudoHeader]
  rw [hlength]
  generalize tcpPseudoHeader localIp remoteIp (tcpLayout g 0).length = pseudo at hpseudo hfirst ⊢
  have hjoin : ∀ checksum, pseudo ++ tcpLayout g checksum =
      (pseudo ++ front) ++ store16 checksum ++ rest := by
    intro checksum
    simp only [hsplit, List.append_assoc]
  have hsum : sumWords (addrBytes localIp) + sumWords (addrBytes remoteIp) + Inet.ipv4ProtoTcp +
      (tcpLayout g 0).length + sumWords (tcpLayout g 0) =
        (words ((pseudo ++ front) ++ store16 0 ++ rest)).sum := by
    rw [← hjoin, words_append hfirst, List.sum_append, hpseudo, sumWords_eq (tcpLayout g 0)]
  rw [tcpSegmentBytes, hjoin, tcpChecksum]
  refine verifies_of_complement ?_ hsum
  rw [List.length_append]
  omega

/-- **Emitted checksums verify.**  Whatever the payload up to 1400 bytes, the addresses and
the rest of the headers: the header that `ipv4_send_from` puts behind the two addresses and
the type of the frame, and the segment that `tcp_send_segment` builds. -/
theorem emitted_checksums_verify {payload : List UInt8} (hlen : payload.length ≤ 1400) :
    (∀ (st : NetState) (src dst : Ipv4Addr) (dstMac : List UInt8) (protocol : UInt8),
      Verifies (((ipv4SendFrom st src dst dstMac protocol payload).2.drop
        (dstMac.length + st.ourMac.length + 2)).take 20)) ∧
    ∀ (localIp : Ipv4Addr) (s : InetSocket) (seq : UInt32) (flags : UInt8),
      let e := tcpSendSegment s seq flags payload
      let bytes := tcpSegmentBytes localIp e.sock.remoteIp e.seg
      Verifies (tcpPseudoHeader localIp e.sock.remoteIp bytes.length ++ bytes) := by
  refine ⟨?_, ?_⟩
  · intro st src dst dstMac protocol
    have htotal : min ((20 + payload.length) % 65536) 1500 = 20 + payload.length := by omega
    simp only [ipv4SendFrom, htotal]
    have hverifies := ipv4Header_verifies (.ofNat (20 + payload.length)) st.nextId protocol src dst
    generalize hheader : ipv4Header (.ofNat (20 + payload.length)) st.nextId protocol
      (swap16 (ipChecksum (ipv4Header (.ofNat (20 + payload.length)) st.nextId protocol 0 src dst)))
      src dst = header at hverifies
    have hheaderLen : header.length = 20 := by
      rw [← hheader]
      rfl
    have hframe : (ethSend st dstMac ethertypeIpv4
        (header ++ payload.take (20 + payload.length - 20))).drop
          (dstMac.length + st.ourMac.length + 2) = header ++ payload := by
      have htake : payload.take (20 + payload.length - 20) = payload :=
        List.take_of_length_le (by omega)
      have hall : (header ++ payload).take (min ((14 + (header ++ payload).length) % 65536) 1514 - 14) =
          header ++ payload := by
        refine List.take_of_length_le ?_
        rw [List.length_append, hheaderLen]
        omega
      rw [htake]
      simp only [ethSend, hall]
      have hfront : (dstMac ++ st.ourMac ++ store16 (swap16 ethertypeIpv4)).length =
          dstMac.length + st.ourMac.length + 2 := by
        simp only [List.length_append, length_store16]
      rw [← hfront, List.drop_left]
    rw [hframe, ← hheaderLen, List.take_left]
    exact hverifies
  · intro localIp s seq flags
    exact tcpSegmentBytes_verifies localIp s.remoteIp _ hlen

theorem hello_verifies :
    Verifies (((ipv4SendFrom {} 0x0100000A 0x0200000A (List.replicate 6 7) 17
      [104, 101, 108, 108, 111]).2.drop 14).take 20) :=
  (@emitted_checksums_verify [104, 101, 108, 108, 111] (by decide)).1 {} 0x0100000A
    0x0200000A (List.replicate 6 7) 17

end Net
