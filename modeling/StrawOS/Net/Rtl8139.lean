import StrawOS.Lib.Endian
import StrawOS.Lib.Machine
import StrawOS.Lib.RecordRing

/-!
# The receive ring of an RTL8139

The device writes packets into a ring of 32 KiB, each with a header of its status and its
length, and `rtl8139_poll` gives their frames to the callback and moves `CAPR` behind them.
A packet begins at a multiple of 4 and may run past the ring's end.  The driver's steps are
the reads of the loop; the device may act between any two of them.
-/

namespace Net

def rtlRxRing : Nat := 32768

def rtlRxBufSize : Nat := rtlRxRing + 16 + 1536

/-! ## The driver -/

/-- Where `rtl8139_poll` is: not called, at the loop's condition, before the reads of the
header, before the callback, or before it goes on to the next packet. -/
inductive PollPc
  | idle
  | test
  | status
  | length (rxStatus : UInt16)
  | frame (rxStatus rxLen : UInt16)
  | next (rxLen : UInt16)

/-- `rtl8139`, as far as it receives: the offset, whether there is a callback, the register
`CAPR`; and what the callback was given, as slices of the buffer and as bytes. -/
structure RxDriver where
  rxOffset : Nat := 0
  rxCallback : Bool := false
  capr : UInt16 := 0xFFF0
  pc : PollPc := .idle
  slices : List (Nat × Nat) := []
  received : List (List UInt8) := []

/-- `*(uint16_t *)(rx_buf + i)`. -/
def rxWord (rxBuf : Nat → UInt8) (i : Nat) : UInt16 := Endian.le16 (rxBuf i) (rxBuf (i + 1))

/-- The callback gets a frame. -/
def RxDriver.callback (d : RxDriver) (rxBuf : Nat → UInt8) (frame frameLen : Nat) : RxDriver :=
  if d.rxCallback then
    { d with
      slices := d.slices ++ [(frame, frameLen)]
      received := d.received ++ [(List.range frameLen).map fun i => rxBuf (frame + i)] }
  else d

/-- A step of `rtl8139_poll`; `bufe` is the bit of `RTL_REG_CMD` that says that the buffer is
empty. -/
def rtl8139Poll (bufe : Bool) (rxBuf : Nat → UInt8) (d : RxDriver) : RxDriver :=
  match d.pc with
  | .idle => d
  | .test => { d with pc := if bufe then .idle else .status }
  | .status => { d with pc := .length (rxWord rxBuf d.rxOffset) }
  | .length rxStatus =>
      let rxLen := rxWord rxBuf (d.rxOffset + 2)
      { d with pc := if rxLen = 0xFFF0 then .idle else .frame rxStatus rxLen }
  | .frame rxStatus rxLen =>
      if rxStatus &&& 1 ≠ 0 ∧ 4 ≤ rxLen ∧ rxLen ≤ 1518 + 4 then
        { d.callback rxBuf (d.rxOffset + 4) (rxLen.toNat - 4) with pc := .next rxLen }
      else { d with pc := .next rxLen }
  | .next rxLen =>
      let rxOffset := (d.rxOffset + rxLen.toNat + 4 + 3) / 4 * 4 % rtlRxRing
      { d with rxOffset := rxOffset, capr := .ofNat (rxOffset + 65536 - 16), pc := .test }

/-- The driver is called. -/
def RxDriver.call (d : RxDriver) : RxDriver :=
  match d.pc with
  | .idle => { d with pc := .test }
  | _ => d

theorem rtlRxRing_pos : 0 < rtlRxRing := by decide

theorem frame_inBuffer {off len : Nat} (hoff : off < rtlRxRing) (hlen : len ≤ 1522) :
    off + 4 + (len - 4) ≤ rtlRxBufSize := by
  unfold rtlRxBufSize
  omega

theorem toNat_maxLen : (1518 + 4 : UInt16).toNat = 1522 := by decide

/-! ## Any memory -/

/-- A call, or a step that finds anything at all in the register and in the memory. -/
inductive WildOp
  | call
  | driver (bufe : Bool) (rxBuf : Nat → UInt8)

/-- The driver on a device that may do anything. -/
def wildMachine : Machine RxDriver WildOp Unit where
  start d := ∃ callback, d = { rxCallback := callback }
  step d
    | .call => (d.call, [])
    | .driver bufe rxBuf => (rtl8139Poll bufe rxBuf d, [])

/-- What no memory can break. -/
structure RxDriver.Ok (d : RxDriver) : Prop where
  aligned : d.rxOffset % 4 = 0
  inRing : d.rxOffset < rtlRxRing
  inBuffer : ∀ s ∈ d.slices, s.1 + s.2 ≤ rtlRxBufSize

theorem RxDriver.Ok.poll {d : RxDriver} (h : d.Ok) (bufe : Bool) (rxBuf : Nat → UInt8) :
    (rtl8139Poll bufe rxBuf d).Ok := by
  obtain ⟨haligned, hring, hbuffer⟩ := h
  rw [rtl8139Poll]
  cases hpc : d.pc with
  | frame rxStatus rxLen =>
    dsimp only
    split
    · rename_i hlen
      rw [RxDriver.callback]
      split
      · refine ⟨haligned, hring, ?_⟩
        intro s hs
        rcases List.mem_append.mp hs with hs | hs
        · exact hbuffer s hs
        · have hle := UInt16.le_iff_toNat_le.mp hlen.2.2
          have hin := frame_inBuffer hring hle
          exact (List.mem_singleton.mp hs) ▸ hin
      · exact ⟨haligned, hring, hbuffer⟩
    · exact ⟨haligned, hring, hbuffer⟩
  | next rxLen =>
    have hnext : ((d.rxOffset + rxLen.toNat + 4 + 3) / 4 * 4 % rtlRxRing) % 4 = 0 ∧
        (d.rxOffset + rxLen.toNat + 4 + 3) / 4 * 4 % rtlRxRing < rtlRxRing := by
      simp only [rtlRxRing]
      omega
    exact ⟨hnext.1, hnext.2, hbuffer⟩
  | _ => exact ⟨haligned, hring, hbuffer⟩

/-- **Frames are in the buffer**, whatever the headers say. -/
theorem wild_ok {d : RxDriver} (hd : wildMachine.Reachable (fun _ _ => True) d) : d.Ok := by
  apply hd.invariant (P := RxDriver.Ok)
  · rintro d ⟨callback, rfl⟩
    exact ⟨rfl, rtlRxRing_pos, fun _ hs => absurd hs List.not_mem_nil⟩
  · intro d op hok _
    cases op with
    | call =>
      change d.call.Ok
      rw [RxDriver.call]
      split
      · exact ⟨hok.aligned, hok.inRing, hok.inBuffer⟩
      · exact hok
    | driver bufe rxBuf => exact hok.poll bufe rxBuf

/-! ## A device that conforms -/

/-- A packet as the device stores it: a status, the frame and its CRC. -/
structure RxPacket where
  status : UInt16
  frame : List UInt8
  crc : List UInt8
  length_crc : crc.length = 4
  length_le : frame.length + crc.length ≤ 1522

/-- The length in the header, with the CRC. -/
def RxPacket.len (p : RxPacket) : Nat := p.frame.length + p.crc.length

/-- The bytes of a packet. -/
def RxPacket.bytes (p : RxPacket) : List UInt8 :=
  Endian.store16 p.status ++ Endian.store16 (.ofNat p.len) ++ p.frame ++ p.crc

/-- A packet takes a multiple of 4. -/
def rxSlot (bytes : List UInt8) : Nat := (bytes.length + 3) / 4 * 4

/-- What the callback is to get of packets. -/
def delivered (ps : List RxPacket) : List (List UInt8) :=
  (ps.filter (·.status &&& 1 ≠ 0)).map (·.frame)

/-- The driver, the buffer, the device's write offset, and what it has written. -/
structure RxSys where
  driver : RxDriver
  rxBuf : Nat → UInt8
  cbr : Nat
  sent : List RxPacket

/-- The bytes between `CAPR` and the write offset, as the device sees them. -/
def RxSys.unread (s : RxSys) : Nat := (s.cbr + rtlRxRing - (s.driver.capr.toNat + 16) % rtlRxRing) %
  rtlRxRing

/-- A call, a step of the driver, a transfer of some bytes of a packet, and the end of one. -/
inductive RxOp
  | call
  | driver
  | dma (n : Nat) (rxBuf : Nat → UInt8)
  | packet (p : RxPacket)

/-- A step of the driver. -/
def RxSys.poll (s : RxSys) : RxSys :=
  { s with driver := rtl8139Poll (s.unread == 0) s.rxBuf s.driver }

/-- The device writes at its write offset as far as `CAPR` leaves room, and what it ends there
is a packet. -/
def rxGuard (s : RxSys) : RxOp → Prop
  | .dma n rxBuf => s.unread + n < rtlRxRing ∧
      ∀ i, i < s.cbr ∨ s.cbr + n ≤ i → rxBuf i = s.rxBuf i
  | .packet p => s.unread + rxSlot p.bytes < rtlRxRing ∧ RecordRing.At s.rxBuf s.cbr p.bytes
  | _ => True

/-- The receiver from `rtl8139_init` on, with a callback. -/
def rxMachine : Machine RxSys RxOp Unit where
  start s := ∃ rxBuf, s = ⟨{ rxCallback := true }, rxBuf, 0, []⟩
  step s
    | .call => ({ s with driver := s.driver.call }, [])
    | .driver => (s.poll, [])
    | .dma _ rxBuf => ({ s with rxBuf := rxBuf }, [])
    | .packet p =>
        ({ s with
          cbr := (s.cbr + rxSlot p.bytes) % rtlRxRing
          sent := s.sent ++ [p] }, [])

/-! ## What the driver has read -/

/-- What the driver knows of the packet it is at. -/
def PollPc.At (pc : PollPc) (received : List (List UInt8)) (done rest : List RxPacket) : Prop :=
  match pc with
  | .idle | .test => received = delivered done
  | .status => received = delivered done ∧ rest ≠ []
  | .length rxStatus => received = delivered done ∧ ∃ p ps, rest = p :: ps ∧ rxStatus = p.status
  | .frame rxStatus rxLen => received = delivered done ∧
      ∃ p ps, rest = p :: ps ∧ rxStatus = p.status ∧ rxLen = .ofNat p.len
  | .next rxLen => ∃ p ps, rest = p :: ps ∧ rxLen = .ofNat p.len ∧ received = delivered (done ++ [p])

/-- The driver has done with `done`, and `rest` is in the ring. -/
structure RxInv (s : RxSys) (done rest : List RxPacket) : Prop where
  sent : s.sent = done ++ rest
  callback : s.driver.rxCallback = true
  offset : s.driver.rxOffset = RecordRing.size rxSlot (done.map RxPacket.bytes) % rtlRxRing
  capr : (s.driver.capr.toNat + 16) % rtlRxRing = s.driver.rxOffset
  cbr : s.cbr = RecordRing.size rxSlot (s.sent.map RxPacket.bytes) % rtlRxRing
  room : RecordRing.size rxSlot (rest.map RxPacket.bytes) < rtlRxRing
  stored : RecordRing.Stored rtlRxRing rxSlot s.rxBuf
    (RecordRing.size rxSlot (done.map RxPacket.bytes)) (rest.map RxPacket.bytes)
  pc : s.driver.pc.At s.driver.received done rest

theorem RxPacket.length_bytes (p : RxPacket) : p.bytes.length = 4 + p.len := by
  simp only [RxPacket.bytes, List.length_append, Endian.store16, List.length_cons, List.length_nil,
    RxPacket.len]
  omega

theorem RxPacket.le_len (p : RxPacket) : 4 ≤ p.len ∧ p.len ≤ 1522 := by
  have hcrc := p.length_crc
  have hle := p.length_le
  simp only [RxPacket.len]
  omega

theorem RxPacket.toNat_len (p : RxPacket) : (UInt16.ofNat p.len).toNat = p.len := by
  have hlen := p.le_len
  rw [UInt16.toNat_ofNat']
  omega

theorem header_of_stored {mem : Nat → UInt8} {place : Nat} {p : RxPacket}
    (h : RecordRing.At mem place p.bytes) :
    rxWord mem place = p.status ∧ rxWord mem (place + 2) = .ofNat p.len := by
  have hlen := p.length_bytes
  have h0 := h 0 (by omega)
  have h1 := h 1 (by omega)
  have h2 := h 2 (by omega)
  have h3 := h 3 (by omega)
  constructor
  · rw [rxWord, ← Endian.le16_byteAt p.status]
    exact congrArg₂ Endian.le16 h0 h1
  · rw [rxWord, ← Endian.le16_byteAt (.ofNat p.len)]
    exact congrArg₂ Endian.le16 h2 h3

theorem frame_of_stored {mem : Nat → UInt8} {place : Nat} {p : RxPacket}
    (h : RecordRing.At mem place p.bytes) :
    ((List.range (p.len - 4)).map fun i => mem (place + 4 + i)) = p.frame := by
  have hcrc := p.length_crc
  have hlen := p.length_bytes
  have hframe : p.len - 4 = p.frame.length := by
    simp only [RxPacket.len]
    omega
  rw [hframe]
  apply List.ext_getElem
  · simp
  · intro i hi hi'
    have hbyte := h (4 + i) (by omega)
    grind [RxPacket.bytes]

variable {s : RxSys} {done rest : List RxPacket}

theorem delivered_append (ps : List RxPacket) (p : RxPacket) :
    delivered (ps ++ [p]) = delivered ps ++ if p.status &&& 1 ≠ 0 then [p.frame] else [] := by
  rw [delivered, List.filter_append, List.map_append, ← delivered]
  by_cases hok : p.status &&& 1 = 0 <;> simp [hok]

theorem next_offset (n : Nat) (p : RxPacket) (hn : n % 4 = 0) :
    (n % rtlRxRing + p.len + 4 + 3) / 4 * 4 % rtlRxRing = (n + rxSlot p.bytes) % rtlRxRing := by
  have hlen := p.length_bytes
  simp only [rxSlot, hlen, rtlRxRing]
  omega

theorem size_aligned (ps : List RxPacket) :
    RecordRing.size rxSlot (ps.map RxPacket.bytes) % 4 = 0 := by
  induction ps with
  | nil => rfl
  | cons p ps ih =>
    rw [List.map_cons, RecordRing.size_cons, Nat.add_mod, ih, rxSlot]
    omega

theorem RxInv.unread (h : RxInv s done rest) :
    s.unread = RecordRing.size rxSlot (rest.map RxPacket.bytes) := by
  have hroom := h.room
  have hcbr := h.cbr
  rw [h.sent, List.map_append, RecordRing.size_append] at hcbr
  rw [RxSys.unread, h.capr, h.offset, hcbr]
  simp only [rtlRxRing] at hroom ⊢
  omega

theorem RxInv.empty_iff (h : RxInv s done rest) : s.unread = 0 ↔ rest = [] := by
  rw [h.unread]
  cases rest with
  | nil => exact iff_of_true rfl rfl
  | cons p ps =>
    have hlen := p.length_bytes
    refine iff_of_false ?_ (List.cons_ne_nil p ps)
    rw [List.map_cons, RecordRing.size_cons, rxSlot]
    omega

theorem RxInv.head {p : RxPacket} (h : RxInv s done (p :: rest)) :
    RecordRing.At s.rxBuf s.driver.rxOffset p.bytes := by
  rw [h.offset]
  exact h.stored.1

theorem RxInv.learn (h : RxInv s done rest) {pc : PollPc} {received : List (List UInt8)}
    {slices : List (Nat × Nat)} (hpc : pc.At received done rest) :
    RxInv { s with driver := { s.driver with pc := pc, received := received, slices := slices } }
      done rest :=
  ⟨h.sent, h.callback, h.offset, h.capr, h.cbr, h.room, h.stored, hpc⟩

theorem len_passes (p : RxPacket) : UInt16.ofNat p.len ≠ 0xFFF0 ∧
    4 ≤ UInt16.ofNat p.len ∧ UInt16.ofNat p.len ≤ 1518 + 4 := by
  have hlen := p.le_len
  have hnat := p.toNat_len
  refine ⟨?_, UInt16.le_iff_toNat_le.mpr ?_, UInt16.le_iff_toNat_le.mpr ?_⟩
  · intro heq
    have hbad := congrArg UInt16.toNat heq
    have hconst : (0xFFF0 : UInt16).toNat = 65520 := by decide
    omega
  · rw [hnat]
    exact hlen.1
  · rw [hnat, toNat_maxLen]
    exact hlen.2

theorem RxInv.pollFrame {p : RxPacket} {ps : List RxPacket} (h : RxInv s done (p :: ps))
    (hpc : s.driver.pc = .frame p.status (.ofNat p.len)) :
    RxInv s.poll done (p :: ps) ∧ s.poll.driver.pc = .next (.ofNat p.len) := by
  have hat := h.pc
  rw [hpc] at hat
  have hreceived : s.driver.received = delivered done := hat.1
  have hpass := (len_passes p).2
  have hframe := frame_of_stored h.head
  by_cases hok : p.status &&& 1 = 0
  · have hs : s.poll = { s with driver := { s.driver with pc := .next (.ofNat p.len) } } := by
      simp [RxSys.poll, rtl8139Poll, hpc, hok]
    rw [hs]
    refine ⟨h.learn ⟨p, ps, rfl, rfl, ?_⟩, rfl⟩
    rw [delivered_append, hreceived]
    simp [hok]
  · have hs : s.poll = { s with driver := { s.driver with
        pc := .next (.ofNat p.len)
        slices := s.driver.slices ++ [(s.driver.rxOffset + 4, p.len - 4)]
        received := s.driver.received ++ [p.frame] } } := by
      simp only [RxSys.poll, rtl8139Poll, hpc]
      rw [if_pos ⟨hok, hpass⟩, RxDriver.callback, if_pos h.callback, p.toNat_len, hframe]
    rw [hs]
    refine ⟨h.learn ⟨p, ps, rfl, rfl, ?_⟩, rfl⟩
    rw [delivered_append, hreceived]
    simp [hok]

theorem RxInv.pollNext {p : RxPacket} {ps : List RxPacket} (h : RxInv s done (p :: ps))
    (hpc : s.driver.pc = .next (.ofNat p.len)) :
    RxInv s.poll (done ++ [p]) ps ∧ s.poll.driver.pc = .test := by
  have hat := h.pc
  rw [hpc] at hat
  obtain ⟨p', ps', heq, -, hreceived⟩ := hat
  obtain ⟨rfl, rfl⟩ := List.cons.inj heq
  have hsize : RecordRing.size rxSlot ((done ++ [p]).map RxPacket.bytes) =
      RecordRing.size rxSlot (done.map RxPacket.bytes) + rxSlot p.bytes := by
    rw [List.map_append, RecordRing.size_append]
    rfl
  have hoffset : (s.driver.rxOffset + p.len + 4 + 3) / 4 * 4 % rtlRxRing =
      RecordRing.size rxSlot ((done ++ [p]).map RxPacket.bytes) % rtlRxRing := by
    rw [h.offset, next_offset _ p (size_aligned done), hsize]
  have hs : s.poll = { s with driver := { s.driver with
      rxOffset := RecordRing.size rxSlot ((done ++ [p]).map RxPacket.bytes) % rtlRxRing
      capr := .ofNat (RecordRing.size rxSlot ((done ++ [p]).map RxPacket.bytes) % rtlRxRing +
        65536 - 16)
      pc := .test } } := by
    simp only [RxSys.poll, rtl8139Poll, hpc, p.toNat_len, hoffset]
  have hroom := h.room
  rw [List.map_cons, RecordRing.size_cons] at hroom
  rw [hs]
  refine ⟨⟨?_, h.callback, rfl, ?_, h.cbr, by omega, ?_, hreceived⟩, rfl⟩
  · rw [List.append_assoc]
    exact h.sent
  · simp only [UInt16.toNat_ofNat', rtlRxRing]
    omega
  · rw [hsize]
    exact h.stored.2

/-- The steps that a call still takes at most, if the device adds nothing. -/
def PollPc.left (rest : List RxPacket) : PollPc → Nat
  | .idle => 0
  | .test => 5 * rest.length + 5
  | .status => 5 * rest.length + 4
  | .length _ => 5 * rest.length + 3
  | .frame _ _ => 5 * rest.length + 2
  | .next _ => 5 * rest.length + 1

/-- **A step of the driver** keeps what is in the ring or goes on to the next packet, and a call
comes closer to its end, at which nothing is left. -/
theorem RxInv.poll (h : RxInv s done rest) : ∃ done' rest', RxInv s.poll done' rest' ∧
    (s.driver.pc ≠ .idle → s.poll.driver.pc.left rest' < s.driver.pc.left rest ∧
      (s.poll.driver.pc = .idle → rest' = [])) := by
  have hat := h.pc
  cases hpc : s.driver.pc with
  | idle =>
    have hs : s.poll = s := by simp [RxSys.poll, rtl8139Poll, hpc]
    rw [hs]
    exact ⟨done, rest, h, fun hne => absurd rfl hne⟩
  | test =>
    rw [hpc] at hat
    by_cases hempty : s.unread = 0
    · have hs : s.poll = { s with driver := { s.driver with pc := .idle } } := by
        simp [RxSys.poll, rtl8139Poll, hpc, hempty]
      rw [hs]
      exact ⟨done, rest, h.learn hat, fun _ => ⟨Nat.succ_pos _, fun _ => h.empty_iff.mp hempty⟩⟩
    · have hs : s.poll = { s with driver := { s.driver with pc := .status } } := by
        simp [RxSys.poll, rtl8139Poll, hpc, hempty]
      rw [hs]
      exact ⟨done, rest, h.learn ⟨hat, fun hnil => hempty (h.empty_iff.mpr hnil)⟩,
        fun _ => ⟨Nat.lt_succ_self _, nofun⟩⟩
  | status =>
    rw [hpc] at hat
    obtain ⟨hreceived, hne⟩ := hat
    obtain ⟨p, ps, rfl⟩ := List.exists_cons_of_ne_nil hne
    have hs : s.poll = { s with driver := { s.driver with pc := .length p.status } } := by
      simp [RxSys.poll, rtl8139Poll, hpc, (header_of_stored h.head).1]
    rw [hs]
    exact ⟨done, p :: ps, h.learn ⟨hreceived, p, ps, rfl, rfl⟩,
      fun _ => ⟨Nat.lt_succ_self _, nofun⟩⟩
  | length rxStatus =>
    rw [hpc] at hat
    obtain ⟨hreceived, p, ps, rfl, rfl⟩ := hat
    have hs : s.poll =
        { s with driver := { s.driver with pc := .frame p.status (.ofNat p.len) } } := by
      simp only [RxSys.poll, rtl8139Poll, hpc, (header_of_stored h.head).2]
      rw [if_neg (len_passes p).1]
    rw [hs]
    exact ⟨done, p :: ps, h.learn ⟨hreceived, p, ps, rfl, rfl, rfl⟩,
      fun _ => ⟨Nat.lt_succ_self _, nofun⟩⟩
  | frame rxStatus rxLen =>
    rw [hpc] at hat
    obtain ⟨-, p, ps, rfl, rfl, rfl⟩ := hat
    obtain ⟨h', hnext⟩ := h.pollFrame hpc
    refine ⟨done, p :: ps, h', fun _ => ?_⟩
    rw [hnext]
    exact ⟨Nat.lt_succ_self _, nofun⟩
  | next rxLen =>
    rw [hpc] at hat
    obtain ⟨p, ps, rfl, rfl, -⟩ := hat
    obtain ⟨h', htest⟩ := h.pollNext hpc
    refine ⟨done ++ [p], ps, h', fun _ => ?_⟩
    rw [htest]
    exact ⟨Nat.lt_succ_self _, nofun⟩

/-! ## Runs -/

/-- **The device** writes where nothing is to be read. -/
theorem RxInv.dma (h : RxInv s done rest) {n : Nat} {rxBuf : Nat → UInt8}
    (hg : rxGuard s (.dma n rxBuf)) : RxInv { s with rxBuf := rxBuf } done rest := by
  obtain ⟨hroom, hsame⟩ := hg
  rw [h.unread] at hroom
  have hsize : RecordRing.size rxSlot (s.sent.map RxPacket.bytes) =
      RecordRing.size rxSlot (done.map RxPacket.bytes) +
        RecordRing.size rxSlot (rest.map RxPacket.bytes) := by
    rw [h.sent, List.map_append, RecordRing.size_append]
  refine ⟨h.sent, h.callback, h.offset, h.capr, h.cbr, h.room, ?_, h.pc⟩
  apply h.stored.write rtlRxRing_pos (w := RecordRing.size rxSlot (s.sent.map RxPacket.bytes))
    (n := n)
  · intro r _
    rw [rxSlot]
    omega
  · exact le_of_eq hsize.symm
  · omega
  · rw [← h.cbr]
    exact hsame

theorem RxInv.packet (h : RxInv s done rest) {p : RxPacket} (hg : rxGuard s (.packet p)) :
    RxInv { s with cbr := (s.cbr + rxSlot p.bytes) % rtlRxRing, sent := s.sent ++ [p] } done
      (rest ++ [p]) := by
  obtain ⟨hroom, hat⟩ := hg
  rw [h.unread] at hroom
  have hsize : RecordRing.size rxSlot (s.sent.map RxPacket.bytes) =
      RecordRing.size rxSlot (done.map RxPacket.bytes) +
        RecordRing.size rxSlot (rest.map RxPacket.bytes) := by
    rw [h.sent, List.map_append, RecordRing.size_append]
  refine ⟨?_, h.callback, h.offset, h.capr, ?_, ?_, ?_, ?_⟩
  · rw [h.sent, List.append_assoc]
  · rw [h.cbr, List.map_append, RecordRing.size_append, Nat.mod_add_mod]
    rfl
  · rw [List.map_append, RecordRing.size_append]
    exact hroom
  · rw [List.map_append]
    refine RecordRing.stored_append.mpr ⟨h.stored, ?_⟩
    rw [← hsize, ← h.cbr]
    exact hat
  · have hpc := h.pc
    cases hs : s.driver.pc with
    | idle => rwa [hs] at hpc
    | test => rwa [hs] at hpc
    | status =>
      rw [hs] at hpc
      exact ⟨hpc.1, by simp⟩
    | length rxStatus =>
      rw [hs] at hpc
      obtain ⟨hreceived, q, qs, rfl, hstatus⟩ := hpc
      exact ⟨hreceived, q, qs ++ [p], rfl, hstatus⟩
    | frame rxStatus rxLen =>
      rw [hs] at hpc
      obtain ⟨hreceived, q, qs, rfl, hheader⟩ := hpc
      exact ⟨hreceived, q, qs ++ [p], rfl, hheader⟩
    | next rxLen =>
      rw [hs] at hpc
      obtain ⟨q, qs, rfl, hlen⟩ := hpc
      exact ⟨q, qs ++ [p], rfl, hlen⟩

/-- **The invariant** of the receiver. -/
theorem rxInv_of_reachable (hs : rxMachine.Reachable rxGuard s) : ∃ done rest, RxInv s done rest := by
  apply hs.invariant (P := fun s => ∃ done rest, RxInv s done rest)
  · rintro s ⟨rxBuf, rfl⟩
    have hcapr : ((0xFFF0 : UInt16).toNat + 16) % rtlRxRing = 0 := by decide
    exact ⟨[], [], rfl, rfl, rfl, hcapr, rfl, rtlRxRing_pos, trivial, rfl⟩
  · rintro s op ⟨done, rest, h⟩ hg
    cases op with
    | call =>
      refine ⟨done, rest, ?_⟩
      change RxInv { s with driver := s.driver.call } done rest
      rw [RxDriver.call]
      have hpc := h.pc
      split
      · rename_i hidle
        rw [hidle] at hpc
        exact h.learn hpc
      · exact h
    | driver =>
      obtain ⟨done', rest', h', -⟩ := h.poll
      exact ⟨done', rest', h'⟩
    | dma n rxBuf => exact ⟨done, rest, h.dma hg⟩
    | packet p => exact ⟨done, rest ++ [p], h.packet hg⟩

theorem delivered_prefix (done rest : List RxPacket) :
    delivered done <+: delivered (done ++ rest) := by
  rw [delivered, delivered, List.filter_append, List.map_append]
  exact List.prefix_append _ _

/-- What the callback got is what it was to get of the first packets. -/
theorem RxInv.received_prefix (h : RxInv s done rest) :
    s.driver.received <+: delivered s.sent := by
  have hpc := h.pc
  rw [h.sent]
  cases hs : s.driver.pc with
  | idle | test =>
    rw [hs] at hpc
    rw [show s.driver.received = delivered done from hpc]
    exact delivered_prefix done rest
  | status | length | frame =>
    rw [hs] at hpc
    rw [hpc.1]
    exact delivered_prefix done rest
  | next rxLen =>
    rw [hs] at hpc
    obtain ⟨p, ps, rfl, -, hreceived⟩ := hpc
    rw [hreceived]
    have hprefix := delivered_prefix (done ++ [p]) ps
    rwa [← List.append_cons] at hprefix

theorem RxInv.received_all (h : RxInv s done []) : s.driver.received = delivered s.sent := by
  have hpc := h.pc
  rw [h.sent, List.append_nil]
  cases hs : s.driver.pc with
  | idle | test =>
    rw [hs] at hpc
    exact hpc
  | status | length | frame =>
    rw [hs] at hpc
    exact hpc.1
  | next rxLen =>
    rw [hs] at hpc
    obtain ⟨p, ps, hnil, -⟩ := hpc
    exact absurd hnil.symm (List.cons_ne_nil p ps)

/-- **A call** that the device leaves alone ends, and has delivered everything. -/
theorem RxInv.completes (h : RxInv s done rest) (hpc : s.driver.pc ≠ .idle) :
    ∃ n, (RxSys.poll^[n] s).driver.pc = .idle ∧
      (RxSys.poll^[n] s).driver.received = delivered s.sent := by
  induction hm : s.driver.pc.left rest using Nat.strong_induction_on generalizing s done rest with
  | h m ih =>
    obtain ⟨done', rest', h', hleft⟩ := h.poll
    obtain ⟨hlt, hend⟩ := hleft hpc
    by_cases hidle : s.poll.driver.pc = .idle
    · refine ⟨1, hidle, ?_⟩
      obtain rfl := hend hidle
      exact h'.received_all
    · obtain ⟨n, hn⟩ := ih _ (hm ▸ hlt) h' hidle rfl
      exact ⟨n + 1, hn⟩

/-- **The receive ring.**  Whatever the memory holds, frames are slices of the buffer and the
offset is a multiple of 4 in the ring; and from a device that conforms the callback gets the
frames of the packets whose status is OK, in order and once each, all of them when a call finds
the ring empty, which it does if the device leaves it alone. -/
theorem rtl8139_receive :
    (∀ d, wildMachine.Reachable (fun _ _ => True) d →
      (∀ slice ∈ d.slices, slice.1 + slice.2 ≤ rtlRxBufSize) ∧
        d.rxOffset % 4 = 0 ∧ d.rxOffset < rtlRxRing) ∧
    ∀ s, rxMachine.Reachable rxGuard s →
      s.driver.received <+: delivered s.sent ∧
        (s.unread = 0 → s.driver.received = delivered s.sent) ∧
        (s.driver.pc ≠ .idle → ∃ n, (RxSys.poll^[n] s).driver.pc = .idle ∧
          (RxSys.poll^[n] s).driver.received = delivered s.sent) := by
  refine ⟨?_, ?_⟩
  · intro d hd
    have hok := wild_ok hd
    exact ⟨hok.inBuffer, hok.aligned, hok.inRing⟩
  · intro s hs
    obtain ⟨done, rest, h⟩ := rxInv_of_reachable hs
    refine ⟨h.received_prefix, ?_, h.completes⟩
    intro hempty
    obtain rfl := h.empty_iff.mp hempty
    exact h.received_all

end Net
