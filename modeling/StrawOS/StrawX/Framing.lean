import StrawOS.Lib.Decoder
import StrawOS.Lib.Endian
import StrawOS.Sock.Rings

/-!
# Messages between a program and the display server

A message is a header with its type, its size and a window, and a body.  Both ends
keep the part of a message that has come so far in a buffer and shift it to the
front.  The server reads until nothing is left, the program reads once.

Requests go through a write that waits.  Events go through a write that does not
wait, and the kernel takes such a message as a whole or not at all.
-/

namespace StrawX

def sxMsgMax : Nat := 256
def clientRxMax : Nat := 8192
def sxRxMax : Nat := 8192

/-- `sizeof(SxMsgHeader)`. -/
def headerSize : Nat := 8

/-- A message, with the `size` of its header as the length of its body. -/
structure Msg where
  type : UInt16
  window : UInt32
  body : List UInt8
  fits : headerSize + body.length ≤ sxMsgMax
  deriving DecidableEq

def Msg.size (m : Msg) : Nat := headerSize + m.body.length

/-- What `sx_send` and `send_event` write. -/
def Msg.encode (m : Msg) : List UInt8 :=
  Endian.store16 m.type ++ Endian.store16 (.ofNat m.size) ++ Endian.store32 m.window ++ m.body

theorem cut_fits {size : Nat} (h : ¬ (size < headerSize ∨ sxMsgMax < size)) (rest : List UInt8) :
    headerSize + (rest.take (size - headerSize)).length ≤ sxMsgMax := by
  have := List.length_take_le (size - headerSize) rest
  omega

/-- The front of the loops in `client_read` and `sx_pump`. -/
def nextMsg : List UInt8 → Next UInt8 Msg
  | t0 :: t1 :: s0 :: s1 :: w0 :: w1 :: w2 :: w3 :: rest =>
    let size := (Endian.le16 s0 s1).toNat
    if h : size < headerSize ∨ sxMsgMax < size then .bad
    else if headerSize + rest.length < size then .more
    else .item ⟨Endian.le16 t0 t1, Endian.le32 w0 w1 w2 w3, rest.take (size - headerSize),
      cut_fits h rest⟩ (rest.drop (size - headerSize))
  | _ => .more

/-- What `nextMsg` makes of a buffer with a header. -/
theorem nextMsg_header (t0 t1 s0 s1 w0 w1 w2 w3 : UInt8) (rest : List UInt8) :
    nextMsg (t0 :: t1 :: s0 :: s1 :: w0 :: w1 :: w2 :: w3 :: rest) =
      if h : (Endian.le16 s0 s1).toNat < headerSize ∨ sxMsgMax < (Endian.le16 s0 s1).toNat then .bad
      else if headerSize + rest.length < (Endian.le16 s0 s1).toNat then .more
      else .item ⟨Endian.le16 t0 t1, Endian.le32 w0 w1 w2 w3,
          rest.take ((Endian.le16 s0 s1).toNat - headerSize), cut_fits h rest⟩
        (rest.drop ((Endian.le16 s0 s1).toNat - headerSize)) := rfl

theorem nextMsg_cases {xs : List UInt8} (h : nextMsg xs ≠ .more) :
    ∃ t0 t1 s0 s1 w0 w1 w2 w3 rest, xs = t0 :: t1 :: s0 :: s1 :: w0 :: w1 :: w2 :: w3 :: rest := by
  match xs with
  | t0 :: t1 :: s0 :: s1 :: w0 :: w1 :: w2 :: w3 :: rest => exact ⟨_, _, _, _, _, _, _, _, _, rfl⟩
  | [] | [_] | [_, _] | [_, _, _] | [_, _, _, _] | [_, _, _, _, _] | [_, _, _, _, _, _]
  | [_, _, _, _, _, _, _] => exact absurd rfl h

/-- The decoder of messages. -/
def decoder : Decoder UInt8 Msg where
  next := nextMsg
  shrink := by
    intro xs b rest h
    obtain ⟨t0, t1, s0, s1, w0, w1, w2, w3, tail, rfl⟩ := nextMsg_cases (by rw [h]; simp)
    rw [nextMsg_header] at h
    split at h
    · cases h
    · grind
  item_append := by
    intro xs b rest ys h
    obtain ⟨t0, t1, s0, s1, w0, w1, w2, w3, tail, rfl⟩ := nextMsg_cases (by rw [h]; simp)
    simp only [List.cons_append]
    rw [nextMsg_header] at h ⊢
    split at h
    · cases h
    · grind
  bad_append := by
    intro xs ys h
    obtain ⟨t0, t1, s0, s1, w0, w1, w2, w3, tail, rfl⟩ := nextMsg_cases (by rw [h]; simp)
    simp only [List.cons_append]
    rw [nextMsg_header] at h ⊢
    split at h
    · rename_i hsize
      rw [dif_pos hsize]
    · split at h <;> cases h

theorem length_of_more {xs : List UInt8} (h : nextMsg xs = .more) : xs.length < sxMsgMax := by
  match xs with
  | t0 :: t1 :: s0 :: s1 :: w0 :: w1 :: w2 :: w3 :: rest =>
    rw [nextMsg_header] at h
    split at h
    · cases h
    · split at h
      · simp only [List.length_cons]
        have hmax : headerSize = 8 := rfl
        omega
      · cases h
  | [] | [_] | [_, _] | [_, _, _] | [_, _, _, _] | [_, _, _, _, _] | [_, _, _, _, _, _]
  | [_, _, _, _, _, _, _] => simp [sxMsgMax]

/-- **A message is read back.** -/
theorem decoder_inverts : decoder.Inverts Msg.encode fun _ => True := by
  intro m _ rest
  have hfits := m.fits
  have hmax : sxMsgMax = 256 := rfl
  have hsize : (UInt16.ofNat m.size).toNat = m.size := by
    exact Nat.mod_eq_of_lt (by rw [Msg.size]; omega)
  have hbytes : m.encode ++ rest = Endian.byteAt m.type.toNat 0 :: Endian.byteAt m.type.toNat 1 ::
      Endian.byteAt (UInt16.ofNat m.size).toNat 0 :: Endian.byteAt (UInt16.ofNat m.size).toNat 1 ::
      Endian.byteAt m.window.toNat 0 :: Endian.byteAt m.window.toNat 1 ::
      Endian.byteAt m.window.toNat 2 :: Endian.byteAt m.window.toNat 3 :: (m.body ++ rest) := by
    simp [Msg.encode, Endian.store16, Endian.store32]
  have hlen : headerSize + (m.body ++ rest).length = m.size + rest.length := by
    rw [List.length_append, Msg.size]
    omega
  show nextMsg (m.encode ++ rest) = .item m rest
  rw [hbytes, nextMsg_header]
  simp only [Endian.le16_byteAt, Endian.le32_byteAt]
  simp only [hsize]
  rw [dif_neg (by rw [Msg.size]; omega), if_neg (by omega)]
  have hbody : m.size - headerSize = m.body.length := by
    rw [Msg.size]
    omega
  simp only [hbody, List.take_left, List.drop_left]

/-! ## Requests -/

/-- The loop of `sx_send` with the results of its writes: what was written, and whether
it was all. -/
def sxSendLoop : List Nat → List UInt8 → List UInt8 × Bool
  | _, [] => ([], true)
  | [], _ :: _ => ([], false)
  | n :: ns, b :: bytes =>
    if n = 0 then ([], false)
    else
      let r := sxSendLoop ns ((b :: bytes).drop n)
      ((b :: bytes).take n ++ r.1, r.2)

/-- The loop of `client_read` with the bytes that each read may return at most: the
requests that are handled, what is left on the way, and the buffer unless the client is
to be disconnected.  A read returns 0 when the other end is closed and nothing is left. -/
def clientRead (isOpen : Bool) : List Nat → List UInt8 → List UInt8 →
    List Msg × List UInt8 × Option (List UInt8)
  | [], wire, rx => ([], wire, if rx.length = clientRxMax then none else some rx)
  | n :: ns, wire, rx =>
    if rx.length = clientRxMax then ([], wire, none)
    else if wire = [] ∧ isOpen = false then ([], wire, none)
    else
      let n := min n (min (clientRxMax - rx.length) wire.length)
      if n = 0 then ([], wire, some rx)
      else
        match decoder.drain (rx ++ wire.take n) with
        | (ms, none) => (ms, wire.drop n, none)
        | (ms, some rx) =>
          let r := clientRead isOpen ns (wire.drop n) rx
          (ms ++ r.1, r.2)

/-- A connection in the direction of the server: the requests that `sx_send` wrote whole,
what is on the way, whether the program still writes and has not closed its end, the
buffer of the server, and the requests that were handled. -/
structure Requests where
  sent : List Msg
  wire : List UInt8
  writes : Bool
  isOpen : Bool
  rx : List UInt8
  connected : Bool
  handled : List Msg

inductive RequestOp
  | send (m : Msg) (results : List Nat)
  | close
  | read (ns : List Nat)

def Requests.step (st : Requests) : RequestOp → Requests
  | .send m results =>
    if st.writes && st.isOpen then
      let r := sxSendLoop results m.encode
      { st with
        sent := st.sent ++ if r.2 then [m] else []
        wire := st.wire ++ r.1
        writes := r.2 }
    else st
  | .close => { st with isOpen := false }
  | .read ns =>
    if st.connected then
      let r := clientRead st.isOpen ns st.wire st.rx
      { st with
        wire := r.2.1
        rx := r.2.2.getD st.rx
        connected := r.2.2.isSome
        handled := st.handled ++ r.1 }
    else st

/-- A new connection, and what both ends do. -/
def requests : Machine Requests RequestOp Unit where
  start st := st = ⟨[], [], true, true, [], true, []⟩
  step st op := (st.step op, [])

/-- What `sx_send` writes is the message or less than it. -/
theorem sxSendLoop_spec (results : List Nat) (bytes : List UInt8) :
    ((sxSendLoop results bytes).2 = true → (sxSendLoop results bytes).1 = bytes) ∧
      ((sxSendLoop results bytes).2 = false →
        ∃ more, more ≠ [] ∧ (sxSendLoop results bytes).1 ++ more = bytes) := by
  induction results generalizing bytes with
  | nil =>
    cases bytes with
    | nil => exact ⟨fun _ => rfl, fun h => nomatch h⟩
    | cons b bytes => exact ⟨(fun h => nomatch h), fun _ => ⟨b :: bytes, List.cons_ne_nil _ _, rfl⟩⟩
  | cons n ns ih =>
    cases bytes with
    | nil => exact ⟨fun _ => rfl, fun h => nomatch h⟩
    | cons b bytes =>
      rw [sxSendLoop]
      split
      · exact ⟨(fun h => nomatch h), fun _ => ⟨b :: bytes, List.cons_ne_nil _ _, rfl⟩⟩
      · obtain ⟨hall, hpart⟩ := ih ((b :: bytes).drop n)
        constructor
        · intro h
          dsimp only at h ⊢
          rw [hall h, List.take_append_drop]
        · intro h
          obtain ⟨more, hne, hmore⟩ := hpart h
          refine ⟨more, hne, ?_⟩
          rw [List.append_assoc, hmore, List.take_append_drop]

/-- **Reading**: the requests are found in order, and nothing fails while the buffer and
the way are what the decoder left of the stream. -/
theorem clientRead_spec (isOpen : Bool) (ns : List Nat) {sent handled : List Msg}
    {wire rx read tail : List UInt8} (hstream : read ++ wire = sent.flatMap Msg.encode ++ tail)
    (htail : decoder.next tail = .more) (hread : decoder.drain read = (handled, some rx)) :
    ∃ read', read' ++ (clientRead isOpen ns wire rx).2.1 = sent.flatMap Msg.encode ++ tail ∧
      (∃ rx', decoder.drain read' = (handled ++ (clientRead isOpen ns wire rx).1, some rx') ∧
        ((clientRead isOpen ns wire rx).2.2 = some rx' ∨
          (clientRead isOpen ns wire rx).2.2 = none ∧ isOpen = false ∧
            (clientRead isOpen ns wire rx).2.1 = [])) := by
  have hshort : rx.length ≠ clientRxMax := by
    have hmore := length_of_more (Decoder.next_of_drain (congrArg Prod.snd hread))
    have hmax : clientRxMax = 8192 ∧ sxMsgMax = 256 := ⟨rfl, rfl⟩
    omega
  induction ns generalizing handled wire rx read with
  | nil =>
    rw [clientRead, if_neg hshort]
    exact ⟨read, hstream, rx, by rw [List.append_nil]; exact hread, Or.inl rfl⟩
  | cons n ns ih =>
    rw [clientRead, if_neg hshort]
    split
    · rename_i hclosed
      refine ⟨read, hstream, rx, by rw [List.append_nil]; exact hread, Or.inr ⟨rfl, hclosed.2, hclosed.1⟩⟩
    · dsimp only
      generalize min n (min (clientRxMax - rx.length) wire.length) = k
      split
      · exact ⟨read, hstream, rx, by rw [List.append_nil]; exact hread, Or.inl rfl⟩
      · have hstream' : (read ++ wire.take k) ++ wire.drop k = sent.flatMap Msg.encode ++ tail := by
          rw [List.append_assoc, List.take_append_drop]
          exact hstream
        obtain ⟨rest, hrest, -, -⟩ := Decoder.drain_prefix decoder_inverts (fun _ _ => trivial) hstream'
          htail
        have happend := Decoder.drain_append (d := decoder) read (wire.take k)
        rw [hread] at happend
        dsimp only at happend
        rcases hdrain : decoder.drain (rx ++ wire.take k) with ⟨ms, left⟩
        rw [hdrain] at happend
        rw [happend] at hrest
        obtain rfl : left = some rest := hrest
        have hleft : rest.length ≠ clientRxMax := by
          have hmore := length_of_more (Decoder.next_of_drain (congrArg Prod.snd happend))
          have hmax : clientRxMax = 8192 ∧ sxMsgMax = 256 := ⟨rfl, rfl⟩
          omega
        obtain ⟨read', hstream'', rx', hdrain', hend⟩ := ih hstream' happend hleft
        refine ⟨read', hstream'', rx', ?_, hend⟩
        rw [hdrain', List.append_assoc]

/-- The stream of requests is cut where the server has read. -/
structure Requests.Sound (st : Requests) : Prop where
  stream : ∃ read tail rx, read ++ st.wire = st.sent.flatMap Msg.encode ++ tail ∧
    decoder.next tail = .more ∧ (st.writes = true → tail = []) ∧
    decoder.drain read = (st.handled, some rx) ∧ (st.connected = true → st.rx = rx)
  closed : st.connected = false → st.isOpen = false ∧ st.wire = []
  short : st.rx.length < sxMsgMax

theorem Requests.Sound.step {st : Requests} (h : st.Sound) (op : RequestOp) : (st.step op).Sound := by
  obtain ⟨⟨read, tail, rx, hstream, htail, hwrites, hread, hrx⟩, hclosed, hshort⟩ := h
  cases op with
  | send m results =>
    cases hup : st.writes && st.isOpen with
    | false =>
      rw [Requests.step, if_neg (by rw [hup]; decide)]
      exact ⟨⟨read, tail, rx, hstream, htail, hwrites, hread, hrx⟩, hclosed, hshort⟩
    | true =>
      rw [Requests.step, if_pos hup]
      obtain ⟨hwriting, hopen⟩ := Bool.and_eq_true_iff.mp hup
      obtain ⟨hall, hpart⟩ := sxSendLoop_spec results m.encode
      obtain rfl := hwrites hwriting
      refine ⟨?_, ?_, hshort⟩
      · rcases hsend : sxSendLoop results m.encode with ⟨bytes, _ | _⟩
        · rw [hsend] at hpart
          obtain ⟨more, hne, hmore⟩ := hpart rfl
          refine ⟨read, bytes, rx, ?_, Decoder.next_of_lt decoder_inverts trivial hmore hne,
            (fun h => nomatch h), hread, hrx⟩
          rw [← List.append_assoc, hstream]
          simp
        · grind
      · intro hdown
        rw [(hclosed hdown).1] at hopen
        cases hopen
  | close =>
    refine ⟨⟨read, tail, rx, hstream, htail, hwrites, hread, hrx⟩, ?_, hshort⟩
    intro hdown
    exact ⟨rfl, (hclosed hdown).2⟩
  | read ns =>
    cases hconn : st.connected with
    | false =>
      rw [Requests.step, if_neg (by rw [hconn]; decide)]
      exact ⟨⟨read, tail, rx, hstream, htail, hwrites, hread, hrx⟩, hclosed, hshort⟩
    | true =>
      rw [Requests.step, if_pos hconn]
      obtain rfl := hrx hconn
      obtain ⟨read', hstream', rx', hdrain, hend⟩ :=
        clientRead_spec st.isOpen ns hstream htail hread
      have hshort' := length_of_more (Decoder.next_of_drain (congrArg Prod.snd hdrain))
      generalize clientRead st.isOpen ns st.wire st.rx = r at *
      obtain ⟨ms, wire, left⟩ := r
      rcases hend with rfl | ⟨rfl, hopen, hwire⟩
      · exact ⟨⟨read', tail, rx', hstream', htail, hwrites, hdrain, fun _ => rfl⟩,
          (fun h => nomatch h), hshort'⟩
      · exact ⟨⟨read', tail, rx', hstream', htail, hwrites, hdrain, (fun h => nomatch h)⟩,
          fun _ => ⟨hopen, hwire⟩, hshort⟩

theorem requests_sound {st : Requests} (h : requests.Reachable (fun _ _ => True) st) : st.Sound := by
  refine h.invariant ?_ ?_
  · rintro s rfl
    exact ⟨⟨[], [], [], rfl, rfl, fun _ => rfl, rfl, fun _ => rfl⟩, (fun h => nomatch h), by decide⟩
  · intro s op hs _
    exact hs.step op

/-! ## Events -/

/-- A connection in the direction of the program: the sockets, the buffer of the program,
the events whose write succeeded, and those that were handled. -/
structure Events where
  kernel : Sock.State
  rx : List UInt8
  connected : Bool
  written : List Msg
  handled : List Msg

inductive EventOp
  | send (m : Msg)
  | pump

section

variable (server client : Sock.Addr)

/-- `write` on the socket of the server. -/
def sendRaw (k : Sock.State) (bytes : List UInt8) : Sock.State × List Sock.Event :=
  if (k.sock server).state ≠ .connected then (k, [.failed]) else Sock.writeSegment k 0 server bytes 0

/-- Whether a write returned a count. -/
def succeeded : List Sock.Event → Bool
  | [.wrote _ n] => 0 < n
  | _ => false

/-- `sx_pump`, with a timeout of zero when there is nothing to read. -/
def sxPump (st : Events) : Events :=
  if st.connected = false then st
  else if (st.kernel.sock client).rxCount = 0 ∧ (st.kernel.sock client).peer.isSome then st
  else
    match Sock.readSegment st.kernel 1 client (sxRxMax - st.rx.length) with
    | (k, [.data _ bytes]) =>
      match decoder.drain (st.rx ++ bytes) with
      | (ms, none) => { st with kernel := k, connected := false, handled := st.handled ++ ms }
      | (ms, some rx) => { st with kernel := k, rx := rx, handled := st.handled ++ ms }
    | (k, _) => { st with kernel := k, connected := false }

def Events.step (st : Events) : EventOp → Events
  | .send m =>
    let r := sendRaw server st.kernel m.encode
    { st with kernel := r.1, written := st.written ++ if succeeded r.2 then [m] else [] }
  | .pump => sxPump client st

/-- The two ends are connected, and the one of the server does not wait. -/
structure Linked (k : Sock.State) : Prop where
  ne : server ≠ client
  server_state : (k.sock server).state = .connected
  client_state : (k.sock client).state = .connected
  nonblock : (k.sock server).nonblock = true
  server_peer : (k.sock server).peer = some client
  client_peer : (k.sock client).peer = some server
  order : (k.sock client).InOrder

/-- A new connection with an empty ring, and what both ends do. -/
def events : Machine Events EventOp Unit where
  start st := Linked server client st.kernel ∧ (st.kernel.sock client).rxCount = 0 ∧ st.rx = [] ∧
    st.connected = true ∧ st.written = [] ∧ st.handled = []
  step st op := (st.step server client op, [])

end

variable {server client : Sock.Addr}

theorem encode_length (m : Msg) : m.encode.length = m.size := by
  simp [Msg.encode, Endian.store16, Endian.store32, Msg.size, headerSize]
  omega

/-- **A write that does not wait** takes the whole message or nothing of it. -/
theorem sendRaw_cases {k : Sock.State} (h : Linked server client k) {bytes : List UInt8}
    (hpos : 0 < bytes.length) (hlen : bytes.length ≤ Sock.sockBufSize) :
    (succeeded (sendRaw server k bytes).2 = false ∧ (sendRaw server k bytes).1.sock = k.sock) ∨
    (succeeded (sendRaw server k bytes).2 = true ∧
      (k.sock client).rxCount + bytes.length ≤ Sock.sockBufSize ∧
      (sendRaw server k bytes).1.sock =
        Function.update k.sock client (Sock.sockPush (k.sock client) bytes)) := by
  rw [sendRaw, if_neg (not_not.mpr h.server_state), Sock.writeSegment, if_neg (by omega), h.server_peer]
  dsimp only
  rw [Nat.sub_zero]
  by_cases hfull : Sock.sockBufSize - (k.sock client).rxCount = 0 ∨
      (bytes.length ≤ Sock.sockBufSize ∧ Sock.sockBufSize - (k.sock client).rxCount < bytes.length)
  · rw [if_pos ⟨h.nonblock, hfull⟩]
    exact Or.inl ⟨rfl, rfl⟩
  · rw [if_neg fun hc => hfull hc.2]
    simp only [not_or, not_and, Nat.not_lt] at hfull
    have hroom := hfull.2 hlen
    rw [if_pos (by omega), Nat.min_eq_right hroom, Sock.writeSegment, if_pos (by omega)]
    refine Or.inr ⟨?_, by omega, ?_⟩
    · simp only [Sock.State.finish, succeeded, Nat.zero_add, decide_eq_true_eq]
      exact hpos
    · simp [Sock.State.finish, Sock.State.setTask, Sock.transfer, Sock.State.wakeWaiters,
        Sock.State.setSock]

theorem Linked.congr {k k' : Sock.State} (h : Linked server client k)
    (hserver : k'.sock server = k.sock server)
    (hstate : (k'.sock client).state = (k.sock client).state)
    (hpeer : (k'.sock client).peer = (k.sock client).peer) (horder : (k'.sock client).InOrder) :
    Linked server client k' :=
  ⟨h.ne, hserver ▸ h.server_state, hstate.trans h.client_state, hserver ▸ h.nonblock,
    hserver ▸ h.server_peer, hpeer.trans h.client_peer, horder⟩

/-- The stream of events is cut where the program has read. -/
structure Events.Sound (server client : Sock.Addr) (st : Events) : Prop where
  linked : Linked server client st.kernel
  connected : st.connected = true
  stream : ∃ read, read ++ (st.kernel.sock client).ring = st.written.flatMap Msg.encode ∧
    decoder.drain read = (st.handled, some st.rx)

theorem Events.Sound.send {st : Events} (h : st.Sound server client) (m : Msg) :
    (st.step server client (.send m)).Sound server client := by
  obtain ⟨hlinked, hconnected, read, hstream, hread⟩ := h
  have hlength := encode_length m
  have hfits := m.fits
  have hsizes : headerSize = 8 ∧ sxMsgMax = 256 ∧ Sock.sockBufSize = 65536 := ⟨rfl, rfl, rfl⟩
  have hsize : m.size = headerSize + m.body.length := rfl
  rcases sendRaw_cases hlinked (show 0 < m.encode.length by omega)
    (show m.encode.length ≤ Sock.sockBufSize by omega) with ⟨hfail, hsock⟩ | ⟨hok, hroom, hsock⟩
  · rw [Events.step, hfail]
    refine ⟨hlinked.congr ?_ ?_ ?_ ?_, hconnected, read, ?_, hread⟩
    · rw [hsock]
    · rw [hsock]
    · rw [hsock]
    · rw [hsock]
      exact hlinked.order
    · dsimp only
      rw [hsock]
      simpa using hstream
  · rw [Events.step, hok]
    refine ⟨hlinked.congr ?_ ?_ ?_ ?_, hconnected, read, ?_, hread⟩
    · rw [hsock, Function.update_of_ne hlinked.ne]
    · rw [hsock, Function.update_self]
      rfl
    · rw [hsock, Function.update_self]
      rfl
    · rw [hsock, Function.update_self]
      exact hlinked.order.push hroom
    · have hring : (Sock.sockPush (st.kernel.sock client) m.encode).ring =
          (st.kernel.sock client).ring ++ m.encode := Buf.ring_push _ _ hlinked.order.1 hroom
      rw [hsock, Function.update_self, hring, ← List.append_assoc, hstream]
      simp

/-- **A read** takes bytes from the front of the ring. -/
theorem readSegment_data {k : Sock.State} (h : Linked server client k) (count : Nat)
    (hdata : (k.sock client).rxCount ≠ 0) :
    ∃ k' bytes, Sock.readSegment k 1 client count = (k', [.data client bytes]) ∧
      Linked server client k' ∧ bytes ++ (k'.sock client).ring = (k.sock client).ring := by
  have horder := h.order
  have hpop := Buf.ring_pop (k.sock client).rx horder.1 horder.2
    (Nat.min_le_right count (k.sock client).rxCount)
  rcases hr : Sock.readSegment k 1 client count with ⟨k', out⟩
  rw [Sock.readSegment] at hr
  rw [if_neg (not_not.mpr h.client_state), if_pos (Nat.pos_of_ne_zero hdata)] at hr
  obtain ⟨rfl, rfl⟩ := Prod.mk.inj hr
  refine ⟨_, _, rfl, ?_, ?_⟩
  · refine h.congr ?_ ?_ ?_ ?_ <;>
      simp only [Sock.State.wakeWaiters, Sock.State.setSock, Sock.State.setTask]
    · rw [Function.update_of_ne h.ne]
    · rw [Function.update_self]
      rfl
    · rw [Function.update_self]
      rfl
    · rw [Function.update_self]
      exact horder.drain _
  · simp only [Sock.State.wakeWaiters, Sock.State.setSock, Sock.State.setTask, Function.update_self]
    rw [hpop.1]
    have hring : ((k.sock client).drain (min count (k.sock client).rxCount)).ring =
        (k.sock client).ring.drop (min count (k.sock client).rxCount) := hpop.2
    rw [hring]
    exact List.take_append_drop _ _

theorem Events.Sound.pump {st : Events} (h : st.Sound server client) :
    (st.step server client .pump).Sound server client := by
  obtain ⟨hlinked, hconnected, read, hstream, hread⟩ := h
  have hshort := length_of_more (Decoder.next_of_drain (congrArg Prod.snd hread))
  rw [Events.step, sxPump, if_neg (by rw [hconnected]; decide)]
  by_cases hempty : (st.kernel.sock client).rxCount = 0
  · rw [if_pos ⟨hempty, by rw [hlinked.client_peer]; rfl⟩]
    exact ⟨hlinked, hconnected, read, hstream, hread⟩
  · rw [if_neg fun hc => hempty hc.1]
    have hmax : sxRxMax = 8192 ∧ sxMsgMax = 256 := ⟨rfl, rfl⟩
    obtain ⟨k, bytes, heq, hlinked', hring⟩ :=
      readSegment_data hlinked (sxRxMax - st.rx.length) hempty
    rw [heq]
    dsimp only
    have hstream' : (read ++ bytes) ++ (k.sock client).ring = st.written.flatMap Msg.encode ++ [] := by
      rw [List.append_assoc, hring, hstream, List.append_nil]
    obtain ⟨rest, hrest, -, -⟩ := Decoder.drain_prefix decoder_inverts (fun _ _ => trivial) hstream' rfl
    have happend := Decoder.drain_append (d := decoder) read bytes
    rw [hread] at happend
    dsimp only at happend
    rcases hdrain : decoder.drain (st.rx ++ bytes) with ⟨ms, left⟩
    rw [hdrain] at happend
    rw [happend] at hrest
    obtain rfl : left = some rest := hrest
    refine ⟨hlinked', hconnected, read ++ bytes, ?_, happend⟩
    rw [hstream', List.append_nil]

theorem events_sound {st : Events} (h : (events server client).Reachable (fun _ _ => True) st) :
    st.Sound server client := by
  refine h.invariant ?_ ?_
  · rintro s ⟨hlinked, hempty, hrx, hconnected, hwritten, hhandled⟩
    refine ⟨hlinked, hconnected, [], ?_, ?_⟩
    · rw [hwritten, List.nil_append, Sock.Socket.ring, hempty]
      rfl
    · rw [hhandled, hrx]
      rfl
  · intro s op hs _
    cases op with
    | send m => exact hs.send m
    | pump => exact hs.pump

/-! ## Both directions -/

/-- **Framing**: the server handles the requests in order and once each, however the
stream is cut into reads, and does not disconnect a program that is still there; and the
program handles exactly the events whose write succeeded, in order. -/
theorem messages_exact :
    (∀ st, requests.Reachable (fun _ _ => True) st →
      st.handled <+: st.sent ∧ (st.wire = [] → st.handled = st.sent) ∧
        st.rx.length ≤ clientRxMax ∧ (st.isOpen = true → st.connected = true)) ∧
    (∀ server client st, (events server client).Reachable (fun _ _ => True) st →
      st.connected = true ∧ st.handled <+: st.written ∧
        ((st.kernel.sock client).rxCount = 0 → st.handled = st.written)) := by
  constructor
  · intro st h
    obtain ⟨⟨read, tail, rx, hstream, htail, -, hread, -⟩, hclosed, hshort⟩ := requests_sound h
    obtain ⟨rest, hrest, hhandled, hend⟩ :=
      Decoder.drain_prefix decoder_inverts (fun _ _ => trivial) hstream htail
    rw [hread] at hrest hhandled
    obtain rfl := Option.some.inj hrest
    refine ⟨⟨_, hhandled⟩, ?_, ?_, ?_⟩
    · intro hwire
      have hmore := Decoder.next_of_drain (congrArg Prod.snd hread)
      rw [hwire, List.append_nil, Decoder.drain_more hmore, List.append_nil] at hhandled
      exact hhandled
    · have hmax : clientRxMax = 8192 ∧ sxMsgMax = 256 := ⟨rfl, rfl⟩
      omega
    · grind
  · intro server client st h
    obtain ⟨hlinked, hconnected, read, hstream, hread⟩ := events_sound h
    rw [← List.append_nil (st.written.flatMap Msg.encode)] at hstream
    obtain ⟨rest, hrest, hhandled, hend⟩ :=
      Decoder.drain_prefix decoder_inverts (fun _ _ => trivial) hstream rfl
    rw [hread] at hrest hhandled
    obtain rfl := Option.some.inj hrest
    refine ⟨hconnected, ⟨_, hhandled⟩, ?_⟩
    intro hempty
    have hring : (st.kernel.sock client).ring = [] := by
      rw [Sock.Socket.ring, hempty]
      rfl
    have hmore := Decoder.next_of_drain (congrArg Prod.snd hread)
    rw [hring, List.append_nil, Decoder.drain_more hmore, List.append_nil] at hhandled
    exact hhandled

/-- A request of a program, and an event for it. -/
def hello : Msg := ⟨1, 0, [1, 0, 0, 0, 0, 0, 0, 0, 7, 0, 0, 0, 0, 0, 0, 0], by decide⟩

/-- Two sockets that are connected. -/
def pairKernel : Sock.State where
  sock a := if a = 0 then { state := .connected, nonblock := true, peer := some 1, hasRx := true }
    else { state := .connected, peer := some 0, hasRx := true }
  live _ := true
  listeners := []
  fds _ := .free
  tasks _ := .outside
  taken _ := []
  sent _ := []

/-- A request that is written and read in pieces, and an event that is read at once. -/
theorem hello_exact :
    (requests.run ⟨[], [], true, true, [], true, []⟩
      [.send hello [5, 19], .read [3], .read [1, 100]]).handled = [hello] ∧
    ((events 0 1).run ⟨pairKernel, [], true, [], []⟩ [.send hello, .pump]).handled = [hello] := by
  constructor
  · refine (messages_exact.1 _ (Machine.Reachable.run (.start rfl) _ fun _ _ _ _ => trivial)).2.1 ?_
    decide
  · have hstart : (events 0 1).start ⟨pairKernel, [], true, [], []⟩ :=
      ⟨⟨by decide, rfl, rfl, rfl, rfl, rfl, Sock.inOrder_empty rfl rfl⟩, rfl, rfl, rfl, rfl, rfl⟩
    have hrun := messages_exact.2 0 1 _ (Machine.Reachable.run (.start hstart)
      [.send hello, .pump] fun _ _ _ _ => trivial)
    rw [hrun.2.2 (by decide +kernel)]
    decide +kernel

end StrawX
