import StrawOS.Lib.Machine
import StrawOS.Web.Frames

/-!
# WebSocket messages

A message arrives in fragments with other frames between them.  The fragments go into a
buffer, which becomes a message with the last of them; a ping is answered at once.
-/

namespace Web

structure WsMsg where
  data : List UInt8
  binary : Bool

/-- The message that is put together, and the messages that are complete. -/
structure Assembly where
  msg : List UInt8
  inMsg : Bool
  msgBinary : Bool
  queue : List WsMsg

/-- `Ws` after the handshake.  `written` is what went to the connection, `drawn` counts the
calls of `random_bytes`, and `received` has the messages that the program took. -/
structure Ws where
  isOpen : Bool
  inBuf : List UInt8
  asm : Assembly
  closeCode : Nat
  error : List UInt8
  written : List UInt8
  drawn : Nat
  received : List WsMsg

variable (random : Nat → Mask)

def wsFail (ws : Ws) (msg : List UInt8) : Ws :=
  if ws.isOpen then { ws with isOpen := false, error := if ws.error.headD 0 = 0 then msg else ws.error }
  else ws

def wsSendFrame (ws : Ws) (op : Nat) (data : List UInt8) : Ws :=
  if ws.isOpen then
    { ws with written := ws.written ++ frameBytes op data (random ws.drawn), drawn := ws.drawn + 1 }
  else ws

def pushMessage (a : Assembly) : Assembly :=
  { a with queue := a.queue ++ [⟨a.msg, a.msgBinary⟩], msg := [] }

/-- A frame with data in `parse_frames`. -/
def Assembly.add (a : Assembly) (f : Frame) : Assembly :=
  let a := if f.op ≠ 0 then { a with msg := [], inMsg := true, msgBinary := f.op == 2 } else a
  let a := if a.inMsg then { a with msg := a.msg ++ f.payload } else a
  if f.fin ∧ a.inMsg then { pushMessage a with inMsg := false } else a

/-- `sizeof(ws->error)`. -/
def errorSize : Nat := 192

/-- A close frame in `parse_frames`. -/
def closeFrame (ws : Ws) (f : Frame) : Ws :=
  let ws := { ws with
    closeCode := if 2 ≤ f.payload.length then Endian.loadBe (f.payload.take 2) else 1005
    error := if 2 < f.payload.length then (f.payload.drop 2).take (errorSize - 1) else ws.error }
  let ws := wsSendFrame random ws 8 (if 2 ≤ f.payload.length then f.payload.take 2 else [])
  wsFail ws (text "The server closed the connection.")

/-- The other frames in `parse_frames`. -/
def handleFrame (ws : Ws) (f : Frame) : Ws :=
  if f.op ≤ 2 then { ws with asm := ws.asm.add f }
  else if f.op = 9 then wsSendFrame random ws 10 f.payload
  else ws

/-- The loop of `parse_frames`. -/
def parseLoop : Nat → Ws → Ws
  | 0, ws => ws
  | fuel + 1, ws =>
    match readFrame ws.inBuf with
    | .more => ws
    | .bad => wsFail ws (text "The server sent an oversized message.")
    | .item f rest =>
      if f.op = 8 then { closeFrame random ws f with inBuf := rest }
      else parseLoop fuel { handleFrame random ws f with inBuf := rest }

def parseFrames (ws : Ws) : Ws := parseLoop random (ws.inBuf.length + 1) ws

/-- `ws_step` after the handshake, with what is read while the connection is up. -/
def wsStep (ws : Ws) (reads : List (List UInt8)) : Ws :=
  if ws.isOpen then parseFrames random { ws with inBuf := reads.foldl (· ++ ·) ws.inBuf } else ws

def wsRecvMsg (ws : Ws) : Ws :=
  match ws.asm.queue with
  | [] => ws
  | m :: rest => { ws with asm := { ws.asm with queue := rest }, received := ws.received ++ [m] }

/-- `ws_send` and `ws_send_binary`. -/
def wsSend (ws : Ws) (binary : Bool) (data : List UInt8) : Ws :=
  if ws.isOpen then wsSendFrame random ws (if binary then 2 else 1) data else ws

inductive WsOp
  | step (reads : List (List UInt8))
  | recv
  | send (binary : Bool) (data : List UInt8)

def Ws.step (ws : Ws) : WsOp → Ws
  | .step reads => wsStep random ws reads
  | .recv => wsRecvMsg ws
  | .send binary data => wsSend random ws binary data

/-- A connection after its handshake. -/
structure Ws.New (ws : Ws) : Prop where
  isOpen : ws.isOpen = true
  inBuf : ws.inBuf = []
  asm : ws.asm.inMsg = false ∧ ws.asm.queue = []
  written : ws.written = []
  received : ws.received = []

def webSocket : Machine Ws WsOp Unit where
  start := Ws.New
  step ws op := (ws.step random op, [])

/-! ## What is sent -/

/-- A message in its fragments: the first one and the others. -/
structure Message where
  binary : Bool
  first : List UInt8
  others : List (List UInt8)

namespace Message

/-- The frames of the fragments after the first. -/
def continuations : List (List UInt8) → List Frame
  | [] => []
  | p :: ps => ⟨ps.isEmpty, 0, p⟩ :: continuations ps

def frames (m : Message) : List Frame :=
  ⟨m.others.isEmpty, if m.binary then 2 else 1, m.first⟩ :: continuations m.others

def whole (m : Message) : WsMsg := ⟨m.first ++ m.others.flatten, m.binary⟩

end Message

def Frame.isData (f : Frame) : Bool := f.op ≤ 2

def Frame.isPing (f : Frame) : Bool := f.op == 9

/-- The answer to a ping. -/
def Frame.pong (f : Frame) : Frame := ⟨true, 10, f.payload⟩

/-- A stream of frames carries messages: the frames with data are those of the fragments,
and the others are pings and pongs. -/
structure Carries (fs : List WireFrame) (msgs : List Message) : Prop where
  valid : ∀ f ∈ fs, f.Valid
  control : ∀ f ∈ fs, f.frame.isData = true ∨ f.frame.op = 9 ∨ f.frame.op = 10
  data : (fs.map WireFrame.frame).filter Frame.isData = msgs.flatMap Message.frames

/-- What the steps of a run have read. -/
def bytesRead (ops : List WsOp) : List UInt8 :=
  ops.flatMap fun op => match op with
    | .step reads => reads.flatten
    | _ => []

/-- The frames that the program sent in a run. -/
def framesSent (ops : List WsOp) : List Frame :=
  ops.flatMap fun op => match op with
    | .send binary data => [⟨true, if binary then 2 else 1, data⟩]
    | _ => []

/-! ## Messages are put together -/

theorem add_continuations (a : Assembly) (ps : List (List UInt8)) (hin : a.inMsg = true)
    (hps : ps ≠ []) : (Message.continuations ps).foldl Assembly.add a =
      ⟨[], false, a.msgBinary, a.queue ++ [⟨a.msg ++ ps.flatten, a.msgBinary⟩]⟩ := by
  induction ps generalizing a with
  | nil => exact absurd rfl hps
  | cons p ps ih =>
    rw [Message.continuations, List.foldl_cons]
    cases ps with
    | nil => simp [Assembly.add, hin, pushMessage, Message.continuations]
    | cons q qs =>
      have hadd : a.add ⟨(q :: qs).isEmpty, 0, p⟩ = { a with msg := a.msg ++ p } := by
        simp [Assembly.add, hin]
      rw [hadd, ih { a with msg := a.msg ++ p } hin (List.cons_ne_nil q qs)]
      simp

theorem add_message (a : Assembly) (m : Message) :
    ∃ binary, m.frames.foldl Assembly.add a = ⟨[], false, binary, a.queue ++ [m.whole]⟩ := by
  obtain ⟨binary, first, others⟩ := m
  have hop : (if binary then 2 else 1) ≠ 0 := by cases binary <;> decide
  have hkind : ((if binary then 2 else 1) == 2) = binary := by cases binary <;> rfl
  refine ⟨binary, ?_⟩
  rw [Message.frames, List.foldl_cons]
  cases others with
  | nil => simp [Assembly.add, hop, hkind, pushMessage, Message.continuations, Message.whole]
  | cons p ps =>
    have hadd : a.add ⟨(p :: ps).isEmpty, if binary then 2 else 1, first⟩ =
        ⟨first, true, binary, a.queue⟩ := by
      simp [Assembly.add, hop, hkind]
    rw [hadd, add_continuations _ _ rfl (List.cons_ne_nil p ps)]
    rfl

/-- **All messages** are put together from their frames. -/
theorem add_messages (a : Assembly) (msgs : List Message) :
    ((msgs.flatMap Message.frames).foldl Assembly.add a).queue = a.queue ++ msgs.map Message.whole := by
  induction msgs generalizing a with
  | nil => simp
  | cons m msgs ih =>
    obtain ⟨binary, hm⟩ := add_message a m
    rw [List.flatMap_cons, List.foldl_append, hm, ih]
    simp

/-! ## Frames are handled -/

theorem handleFrame_inBuf (ws : Ws) (f : Frame) (buf : List UInt8) :
    handleFrame random { ws with inBuf := buf } f = { handleFrame random ws f with inBuf := buf } := by
  unfold handleFrame wsSendFrame
  split
  · rfl
  · split
    · split <;> rfl
    · rfl

theorem foldl_handleFrame_inBuf (fs : List Frame) (ws : Ws) (buf : List UInt8) :
    fs.foldl (handleFrame random) { ws with inBuf := buf } =
      { fs.foldl (handleFrame random) ws with inBuf := buf } := by
  induction fs generalizing ws with
  | nil => rfl
  | cons f fs ih => rw [List.foldl_cons, List.foldl_cons, handleFrame_inBuf, ih]

/-- **The loop** handles the frames of the buffer one after the other. -/
theorem parseFrames_eq {ws : Ws} {fs : List Frame} {rest : List UInt8}
    (h : frames.drain ws.inBuf = (fs, some rest)) (hclose : ∀ f ∈ fs, f.op ≠ 8) :
    parseFrames random ws = { fs.foldl (handleFrame random) ws with inBuf := rest } := by
  have hloop : ∀ (fuel : Nat) (ws : Ws) (fs : List Frame), ws.inBuf.length < fuel →
      frames.drain ws.inBuf = (fs, some rest) → (∀ f ∈ fs, f.op ≠ 8) →
      parseLoop random fuel ws = { fs.foldl (handleFrame random) ws with inBuf := rest } := by
    intro fuel
    induction fuel with
    | zero => exact fun _ _ hfuel => absurd hfuel (Nat.not_lt_zero _)
    | succ fuel ih =>
      intro ws fs hfuel hdrain hclose
      cases hnext : readFrame ws.inBuf with
      | more =>
        rw [Decoder.drain_more hnext] at hdrain
        obtain ⟨rfl, hrest⟩ := Prod.mk.inj hdrain
        obtain rfl := Option.some.inj hrest
        rw [parseLoop, hnext]
        rfl
      | bad =>
        rw [Decoder.drain_bad hnext] at hdrain
        exact absurd (congrArg Prod.snd hdrain) (by simp)
      | item f tail =>
        rw [Decoder.drain_item hnext] at hdrain
        obtain ⟨rfl, hrest⟩ := Prod.mk.inj hdrain
        have hlt := frames.shrink hnext
        have hdrain' : frames.drain { handleFrame random ws f with inBuf := tail }.inBuf =
            ((frames.drain tail).1, some rest) := Prod.ext rfl hrest
        rw [parseLoop, hnext]
        dsimp only
        rw [if_neg (hclose f List.mem_cons_self), ih _ _ (by dsimp only; omega) hdrain'
          fun g hg => hclose g (List.mem_cons_of_mem _ hg), foldl_handleFrame_inBuf]
        rfl
  exact hloop _ ws fs (Nat.lt_succ_self _) h hclose

/-- What a connection has written: the answers to pings and the frames of the program. -/
def Answers (written : List UInt8) (fs sent : List Frame) : Prop :=
  ∃ out : List WireFrame, written = out.flatMap WireFrame.encode ∧ (∀ f ∈ out, f.Valid) ∧
    (out.map WireFrame.frame).filter (fun f => f.op == 10) = (fs.filter Frame.isPing).map Frame.pong ∧
    (out.map WireFrame.frame).filter (fun f => f.op != 10) = sent

/-- What the connection has seen of a stream: the messages so far come from the frames so
far, and the pings have been answered. -/
structure Ws.Seen (ws : Ws) (fs sent : List Frame) : Prop where
  isOpen : ws.isOpen = true
  start : ∃ a : Assembly, a.queue = [] ∧
    { ws.asm with queue := ws.received ++ ws.asm.queue } = (fs.filter Frame.isData).foldl Assembly.add a
  answers : Answers ws.written fs sent

theorem Assembly.add_queue (a : Assembly) (q : List WsMsg) (f : Frame) :
    { a with queue := q ++ a.queue }.add f = { a.add f with queue := q ++ (a.add f).queue } := by
  by_cases hop : f.op = 0 <;> by_cases hin : a.inMsg = true <;> by_cases hfin : f.fin = true <;>
    simp [Assembly.add, pushMessage, hop, hin, hfin]

theorem Answers.noPing {written : List UInt8} {fs sent : List Frame} (h : Answers written fs sent)
    {f : Frame} (hf : f.isPing = false) : Answers written (fs ++ [f]) sent := by
  obtain ⟨out, hwritten, hvalid, hpongs, hsent⟩ := h
  refine ⟨out, hwritten, hvalid, ?_, hsent⟩
  rw [hpongs, List.filter_append, List.filter_cons_of_neg (by simp [hf])]
  simp

theorem Answers.ping {written : List UInt8} {fs sent : List Frame} (h : Answers written fs sent)
    {f : Frame} (hf : f.isPing = true) (hbody : f.payload.length ≤ maxBody) (mask : Mask) :
    Answers (written ++ frameBytes 10 f.payload mask) (fs ++ [f]) sent := by
  obtain ⟨out, hwritten, hvalid, hpongs, hsent⟩ := h
  refine ⟨out ++ [sentFrame 10 f.payload mask], ?_, ?_, ?_, ?_⟩
  · rw [List.flatMap_append, hwritten, List.flatMap_singleton, encode_sentFrame]
  · intro g hg
    rcases List.mem_append.1 hg with hold | hnew
    · exact hvalid g hold
    · obtain rfl := List.mem_singleton.1 hnew
      exact sentFrame_valid (by decide) hbody mask
  · rw [List.map_append, List.filter_append, hpongs, List.filter_append,
      List.filter_cons_of_pos hf, List.map_append]
    rfl
  · rw [List.map_append, List.filter_append, hsent]
    exact List.append_nil _

theorem Answers.send {written : List UInt8} {fs sent : List Frame} (h : Answers written fs sent)
    {op : Nat} (hop : op < 10) {data : List UInt8} (hbody : data.length ≤ maxBody) (mask : Mask) :
    Answers (written ++ frameBytes op data mask) fs (sent ++ [⟨true, op, data⟩]) := by
  obtain ⟨out, hwritten, hvalid, hpongs, hsent⟩ := h
  have hother : (op == 10) = false := by
    rw [beq_eq_false_iff_ne]
    omega
  refine ⟨out ++ [sentFrame op data mask], ?_, ?_, ?_, ?_⟩
  · rw [List.flatMap_append, hwritten, List.flatMap_singleton, encode_sentFrame]
  · intro g hg
    rcases List.mem_append.1 hg with hold | hnew
    · exact hvalid g hold
    · obtain rfl := List.mem_singleton.1 hnew
      exact sentFrame_valid (by omega) hbody mask
  · rw [List.map_append, List.filter_append, hpongs]
    simp [sentFrame, hother]
  · rw [List.map_append, List.filter_append, hsent]
    simp [sentFrame, bne, hother]

/-- A frame that the stream may have. -/
structure Frame.Expected (f : Frame) : Prop where
  kind : f.isData = true ∨ f.op = 9 ∨ f.op = 10
  body : f.payload.length ≤ maxBody

theorem Frame.Expected.no_close {f : Frame} (h : f.Expected) : f.op ≠ 8 := by
  intro hop
  rcases h.kind with hdata | hping | hpong
  · simp [Frame.isData, hop] at hdata
  · omega
  · omega

theorem Ws.Seen.handleFrame {ws : Ws} {fs sent : List Frame} (h : ws.Seen fs sent) {f : Frame}
    (hf : f.Expected) : (handleFrame random ws f).Seen (fs ++ [f]) sent := by
  obtain ⟨a, hqueue, hasm⟩ := h.start
  unfold Web.handleFrame
  by_cases hdata : f.op ≤ 2
  · have hisData : f.isData = true := decide_eq_true hdata
    have hnoping : f.isPing = false := by
      simp only [Frame.isPing, beq_eq_false_iff_ne]
      omega
    rw [if_pos hdata]
    refine ⟨h.isOpen, ⟨a, hqueue, ?_⟩, h.answers.noPing hnoping⟩
    rw [List.filter_append, List.foldl_append, ← hasm, List.filter_cons_of_pos hisData]
    exact (Assembly.add_queue ws.asm ws.received f).symm
  · have hisData : f.isData = false := decide_eq_false hdata
    have hsame : (fs ++ [f]).filter Frame.isData = fs.filter Frame.isData := by
      rw [List.filter_append, List.filter_cons_of_neg (by simp [hisData])]
      simp
    rw [if_neg hdata]
    split
    · rename_i hping
      unfold wsSendFrame
      rw [if_pos h.isOpen]
      exact ⟨h.isOpen, ⟨a, hqueue, by rw [hsame]; exact hasm⟩,
        h.answers.ping (beq_iff_eq.2 hping) hf.body _⟩
    · rename_i hping
      have hnoping : f.isPing = false := by
        simp only [Frame.isPing, beq_eq_false_iff_ne]
        exact hping
      exact ⟨h.isOpen, ⟨a, hqueue, by rw [hsame]; exact hasm⟩, h.answers.noPing hnoping⟩

theorem Ws.Seen.handleFrames {ws : Ws} {fs sent : List Frame} (h : ws.Seen fs sent) {gs : List Frame}
    (hgs : ∀ g ∈ gs, g.Expected) : (gs.foldl (Web.handleFrame random) ws).Seen (fs ++ gs) sent := by
  induction gs generalizing ws fs with
  | nil => simpa using h
  | cons g gs ih =>
    have hrest := ih (h.handleFrame random (hgs g List.mem_cons_self)) fun g' hg' =>
      hgs g' (List.mem_cons_of_mem _ hg')
    rwa [List.append_assoc] at hrest

/-! ## A whole run -/

/-- The bytes so far have been decoded up to what is in the buffer. -/
def Ws.Reached (ws : Ws) (bytes : List UInt8) (sent : List Frame) : Prop :=
  ∃ fs, frames.drain bytes = (fs, some ws.inBuf) ∧ ws.Seen fs sent

theorem flatten_foldl (reads : List (List UInt8)) (buf : List UInt8) :
    reads.foldl (· ++ ·) buf = buf ++ reads.flatten := by
  induction reads generalizing buf with
  | nil => simp
  | cons r reads ih => rw [List.foldl_cons, ih, List.flatten_cons, List.append_assoc]

/-- **More of the stream** is read. -/
theorem Ws.Reached.read {ws : Ws} {bytes : List UInt8} {sent : List Frame} (h : ws.Reached bytes sent)
    {fs : List WireFrame} (hvalid : ∀ f ∈ fs, f.Valid) (hexpected : ∀ f ∈ fs, f.frame.Expected)
    {reads : List (List UInt8)} {rest : List UInt8}
    (hstream : bytes ++ reads.flatten ++ rest = fs.flatMap WireFrame.encode) :
    (wsStep random ws reads).Reached (bytes ++ reads.flatten) sent := by
  obtain ⟨gs, hdrain, hseen⟩ := h
  have hpre : bytes ++ reads.flatten ++ rest = fs.flatMap WireFrame.encode ++ [] := by
    rw [List.append_nil]
    exact hstream
  obtain ⟨left, hleft, hitems, -⟩ := Decoder.drain_prefix_reads frames_reads hvalid hpre rfl
  have hmore := Decoder.drain_append (d := frames) bytes reads.flatten
  rw [hdrain] at hmore
  dsimp only at hmore
  rw [hmore] at hleft hitems
  unfold wsStep
  rw [if_pos hseen.isOpen, flatten_foldl]
  generalize hnew : frames.drain (ws.inBuf ++ reads.flatten) = out at hmore hleft hitems
  obtain ⟨new, left'⟩ := out
  subst hleft
  have hexpectedNew : ∀ g ∈ new, g.Expected := by
    intro g hg
    have hmem : g ∈ fs.map WireFrame.frame := by
      rw [← hitems]
      exact List.mem_append_left _ (List.mem_append_right _ hg)
    obtain ⟨f, hf, rfl⟩ := List.mem_map.1 hmem
    exact hexpected f hf
  rw [parseFrames_eq random hnew fun g hg => (hexpectedNew g hg).no_close, foldl_handleFrame_inBuf]
  have hseenNew := hseen.handleFrames random hexpectedNew
  exact ⟨gs ++ new, hmore, hseenNew.isOpen, hseenNew.start, hseenNew.answers⟩

theorem Ws.Reached.recv {ws : Ws} {bytes : List UInt8} {sent : List Frame}
    (h : ws.Reached bytes sent) : (wsRecvMsg ws).Reached bytes sent := by
  obtain ⟨gs, hdrain, hseen⟩ := h
  obtain ⟨a, hqueue, hasm⟩ := hseen.start
  unfold wsRecvMsg
  split
  · exact ⟨gs, hdrain, hseen⟩
  · rename_i m rest hq
    refine ⟨gs, hdrain, hseen.isOpen, ⟨a, hqueue, ?_⟩, hseen.answers⟩
    rw [← hasm, hq]
    simp

theorem Ws.Reached.send {ws : Ws} {bytes : List UInt8} {sent : List Frame}
    (h : ws.Reached bytes sent) (binary : Bool) {data : List UInt8} (hbody : data.length ≤ maxBody) :
    (wsSend random ws binary data).Reached bytes
      (sent ++ [⟨true, if binary then 2 else 1, data⟩]) := by
  obtain ⟨gs, hdrain, hseen⟩ := h
  have hop : (if binary then 2 else 1) < 10 := by cases binary <;> decide
  unfold wsSend wsSendFrame
  rw [if_pos hseen.isOpen, if_pos hseen.isOpen]
  exact ⟨gs, hdrain, hseen.isOpen, hseen.start, hseen.answers.send hop hbody _⟩

theorem Ws.Reached.run {fs : List WireFrame} (hvalid : ∀ f ∈ fs, f.Valid)
    (hexpected : ∀ f ∈ fs, f.frame.Expected) {ops : List WsOp}
    (hsends : ∀ binary data, WsOp.send binary data ∈ ops → data.length ≤ maxBody) {ws : Ws}
    {bytes rest : List UInt8} {sent : List Frame} (h : ws.Reached bytes sent)
    (hstream : bytes ++ bytesRead ops ++ rest = fs.flatMap WireFrame.encode) :
    ((webSocket random).run ws ops).Reached (bytes ++ bytesRead ops) (sent ++ framesSent ops) := by
  induction ops generalizing ws bytes sent with
  | nil => simpa [bytesRead, framesSent, Machine.run] using h
  | cons op ops ih =>
    have hrest : ∀ binary data, WsOp.send binary data ∈ ops → data.length ≤ maxBody :=
      fun binary data hmem => hsends binary data (List.mem_cons_of_mem _ hmem)
    cases op with
    | step reads =>
      have hbytes : bytes ++ bytesRead (.step reads :: ops) = bytes ++ reads.flatten ++ bytesRead ops := by
        rw [List.append_assoc]
        rfl
      rw [hbytes] at hstream ⊢
      have hmore : bytes ++ reads.flatten ++ (bytesRead ops ++ rest) = fs.flatMap WireFrame.encode := by
        rw [← List.append_assoc]
        exact hstream
      exact ih hrest (h.read random hvalid hexpected hmore) hstream
    | recv => exact ih hrest h.recv hstream
    | send binary data =>
      have hsent : sent ++ framesSent (.send binary data :: ops) =
          sent ++ [⟨true, if binary then 2 else 1, data⟩] ++ framesSent ops := by
        rw [List.append_assoc]
        rfl
      rw [hsent]
      exact ih hrest (h.send random binary (hsends binary data List.mem_cons_self)) hstream

/-- **Messages are delivered.**  Whatever the fragments, the control frames between them, the
forms of the lengths, the masks and the reads, the program gets the messages that were
sent, and what it writes are the answers to the pings and its own frames.  A frame that
it sends is decoded as it was. -/
theorem messages_delivered (random : Nat → Mask) :
    (∀ {fs : List WireFrame} {msgs : List Message}, Carries fs msgs → ∀ {ws : Ws}, ws.New →
      ∀ ops : List WsOp, bytesRead ops = fs.flatMap WireFrame.encode →
      (∀ binary data, WsOp.send binary data ∈ ops → data.length ≤ maxBody) →
      ((webSocket random).run ws ops).received ++ ((webSocket random).run ws ops).asm.queue =
        msgs.map Message.whole ∧
      ∃ out, frames.drain ((webSocket random).run ws ops).written = (out, some []) ∧
        out.filter (fun f => f.op == 10) =
          ((fs.map WireFrame.frame).filter Frame.isPing).map Frame.pong ∧
        out.filter (fun f => f.op != 10) = framesSent ops) ∧
    ∀ op < 16, ∀ data : List UInt8, data.length ≤ maxBody → ∀ (mask : Mask) (rest : List UInt8),
      readFrame (frameBytes op data mask ++ rest) = .item ⟨true, op, data⟩ rest := by
  refine ⟨?_, ?_⟩
  · intro fs msgs hcarries ws hnew ops hread hsends
    have hstart : ws.Reached [] [] := by
      refine ⟨[], by rw [hnew.inBuf]; rfl, hnew.isOpen, ⟨ws.asm, hnew.asm.2, ?_⟩, [], ?_⟩
      · rw [hnew.received]
        rfl
      · rw [hnew.written]
        exact ⟨rfl, (fun f hf => nomatch hf), rfl, rfl⟩
    have hexpected : ∀ f ∈ fs, f.frame.Expected := fun f hf =>
      ⟨hcarries.control f hf, (hcarries.valid f hf).body⟩
    have hstream : [] ++ bytesRead ops ++ [] = fs.flatMap WireFrame.encode := by
      rw [List.append_nil]
      exact hread
    have hrun := Ws.Reached.run random hcarries.valid hexpected hsends hstart hstream
    rw [List.nil_append, List.nil_append, hread] at hrun
    obtain ⟨gs, hdrain, hseen⟩ := hrun
    have hall := Decoder.drain_reads frames_reads hcarries.valid []
    rw [List.append_nil, hdrain] at hall
    have hgs : gs = fs.map WireFrame.frame :=
      (congrArg Prod.fst hall).trans (List.append_nil _)
    subst hgs
    obtain ⟨a, hqueue, hasm⟩ := hseen.start
    obtain ⟨out, hwritten, hvalid, hpongs, hsent⟩ := hseen.answers
    refine ⟨?_, out.map WireFrame.frame, ?_, hpongs, hsent⟩
    · have hmsgs := add_messages a msgs
      rw [← hcarries.data, ← hasm, hqueue] at hmsgs
      exact hmsgs
    · have hout := Decoder.drain_reads frames_reads hvalid []
      rw [List.append_nil, ← hwritten] at hout
      rw [hout]
      exact Prod.ext (List.append_nil _) rfl
  · intro op hop data hbody mask rest
    have hread := frames_reads (sentFrame op data mask) (sentFrame_valid hop hbody mask) rest
    rw [encode_sentFrame] at hread
    exact hread

/-- A text in two fragments with a ping between them. -/
def sampleFrames : List WireFrame :=
  [⟨⟨false, 1, [104]⟩, .short, none⟩, ⟨⟨true, 9, [7]⟩, .short, some fun _ => 5⟩,
    ⟨⟨true, 0, [105]⟩, .medium, none⟩]

/-- A connection after its handshake. -/
def connected : Ws := ⟨true, [], ⟨[], false, false, []⟩, 0, [], [], 0, []⟩

/-- The frames are read in two pieces, which are no frames. -/
def sampleRun : List WsOp :=
  [.step [(sampleFrames.flatMap WireFrame.encode).take 4], .recv,
    .step [(sampleFrames.flatMap WireFrame.encode).drop 4], .recv]

theorem text_delivered :
    ((webSocket fun _ _ => 17).run connected sampleRun).received ++
      ((webSocket fun _ _ => 17).run connected sampleRun).asm.queue = [⟨[104, 105], false⟩] := by
  have hvalid : ∀ f ∈ sampleFrames, f.Valid := by
    intro f hf
    simp only [sampleFrames, List.mem_cons, List.not_mem_nil, or_false] at hf
    rcases hf with rfl | rfl | rfl
    · exact ⟨by decide, show 1 < 126 by decide, by decide⟩
    · exact ⟨by decide, show 1 < 126 by decide, by decide⟩
    · exact ⟨by decide, show 1 < 2 ^ 16 by decide, by decide⟩
  have hcarries : Carries sampleFrames [⟨false, [104], [[105]]⟩] := by
    refine ⟨hvalid, ?_, rfl⟩
    intro f hf
    simp only [sampleFrames, List.mem_cons, List.not_mem_nil, or_false] at hf
    rcases hf with rfl | rfl | rfl
    · exact Or.inl rfl
    · exact Or.inr (Or.inl rfl)
    · exact Or.inl rfl
  have hread : bytesRead sampleRun = sampleFrames.flatMap WireFrame.encode := by decide +kernel
  have hnosend : ∀ binary data, WsOp.send binary data ∈ sampleRun → data.length ≤ maxBody := by
    intro binary data hmem
    simp [sampleRun] at hmem
  exact ((messages_delivered fun _ _ => 17).1 hcarries ⟨rfl, rfl, ⟨rfl, rfl⟩, rfl, rfl⟩ sampleRun hread
    hnosend).1

/-- A frame of more than `MAX_BODY` bytes is sent and not decoded. -/
theorem long_frame_refused :
    readFrame (frameBytes 1 (List.replicate (maxBody + 1) 0) fun _ => 0) = .bad := by
  generalize hdata : List.replicate (maxBody + 1) (0 : UInt8) = data
  have hlen : data.length = maxBody + 1 := by rw [← hdata, List.length_replicate]
  have hrefused := frameBytes_refused (show 1 < 16 by decide) (show maxBody < data.length by omega)
    (show data.length < 2 ^ 64 by rw [hlen]; decide) (fun _ => 0) []
  rw [List.append_nil] at hrefused
  exact hrefused

end Web
