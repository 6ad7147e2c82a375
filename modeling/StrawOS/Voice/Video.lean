import StrawOS.Voice.Decrypt

/-!
# Packets of video

The sender cuts a frame into chunks and puts each of them into a packet of its own, with
a consecutive number, the time of the frame, and marks for its first and its last chunk.
The packets wait in a queue until there is bandwidth.

The receiver finds its way through the headers and puts the chunks together.  It notices
a gap by the numbers and the start of a frame by the mark.
-/

namespace Voice

def videoPt : Nat := 105
def vp9Pt : Nat := 107
def videoChunk : Nat := 1100
def videoQueue : Nat := 768
def rxMaxFrame : Nat := 4 * 2 ^ 20
def maxVssrc : Nat := 8

/-! ## Words -/

def put16 (v : Nat) : List UInt8 := Endian.storeBe 2 v

def put32 (v : Nat) : List UInt8 := Endian.storeBe 4 v

/-- The number in the `w` bytes at `pos`, the highest byte first, as `get32` reads it. -/
def getBe (w : Nat) (p : List UInt8) (pos : Nat) : Nat := Endian.loadBe ((p.drop pos).take w)

/-! ## Sender -/

/-- A frame as it was handed to the packets. -/
structure VideoFrame where
  ts : Nat
  bytes : List UInt8

/-- The sender, the packets that have been written, and for proofs the frames. -/
structure VideoSender where
  key : List UInt8
  dave : Dave
  videoSsrc : Nat
  vseq : Nat
  vtsBase : Nat
  vts : Nat
  pictureId : Nat
  txNonce : Nat
  vPackets : Nat
  vOctets : Nat
  queue : List (List UInt8)
  wire : List (List UInt8)
  frames : List VideoFrame

/-- The header of a packet with its extension. -/
def videoHead (seq ts ssrc : Nat) (last : Bool) : List UInt8 :=
  [0x90, UInt8.ofNat videoPt ||| (if last then 0x80 else 0)] ++ put16 seq ++ put32 ts ++ put32 ssrc ++
    [0xBE, 0xDE, 0, 1]

/-- The VP8 descriptor. -/
def videoDescr (pictureId : Nat) (first : Bool) : List UInt8 :=
  [0x80 ||| (if first then 0x10 else 0), 0x80, 0x80 ||| (UInt8.ofNat (pictureId / 256) &&& 0x7F),
    UInt8.ofNat pictureId]

/-- The bytes of a packet. -/
def videoBytes (cr : Crypto) (key : List UInt8) (ssrc seq ts pictureId nonce : Nat) (first last : Bool)
    (chunk : List UInt8) : List UInt8 :=
  let head := videoHead seq ts ssrc last
  let body := [0x51, 0, 0, 0] ++ videoDescr pictureId first ++ chunk
  let (data, tag) := cr.gcm key (put32 nonce ++ List.replicate 8 0) head body
  head ++ data ++ tag ++ put32 nonce

def queueVideoPacket (cr : Crypto) (s : VideoSender) (chunk : List UInt8) (first last : Bool) :
    VideoSender :=
  if s.queue.length = videoQueue then s
  else
    { s with
      vseq := (s.vseq + 1) % 2 ^ 16
      txNonce := (s.txNonce + 1) % 2 ^ 32
      queue := s.queue ++
        [videoBytes cr s.key s.videoSsrc s.vseq s.vts s.pictureId s.txNonce first last chunk]
      vPackets := (s.vPackets + 1) % 2 ^ 32
      vOctets := (s.vOctets + 8 + chunk.length) % 2 ^ 32 }

/-- The loop of `send_video_frame`, with the number of chunks that are left. -/
def sendLoop (cr : Crypto) (enc : List UInt8) (chunks : Nat) : Nat → VideoSender → VideoSender
  | 0, s => s
  | left + 1, s =>
    let i := chunks - (left + 1)
    sendLoop cr enc chunks left
      (queueVideoPacket cr s ((enc.drop (i * videoChunk)).take videoChunk) (i == 0) (i + 1 == chunks))

/-- The number of chunks of a frame. -/
def chunkCount (n : Nat) : Nat := (n + videoChunk - 1) / videoChunk

def sendVideoFrame (cr : Crypto) (s : VideoSender) (frame : List UInt8) (key : Bool) (now : Nat) :
    VideoSender × Bool :=
  let (dave, _, enc) := daveEncryptVideo cr s.dave frame (if key then 10 else 1)
  match enc with
  | none => ({ s with dave := dave }, false)
  | some enc =>
    if videoQueue - s.queue.length < chunkCount enc.length then ({ s with dave := dave }, false)
    else
      let vts := (s.vtsBase + now * 90) % 2 ^ 32
      let s := sendLoop cr enc (chunkCount enc.length) (chunkCount enc.length)
        { s with dave := dave, vts := vts }
      ({ s with
        pictureId := (s.pictureId + 1) % 2 ^ 15
        frames := s.frames ++ [⟨vts, enc⟩] }, true)

/-- What the sender does.  The encoder gives a frame, `pace_pump` writes as many packets as
the bandwidth allows, and the session and the nonce are used elsewhere too. -/
inductive VideoOp
  | videoPump (frame : List UInt8) (key : Bool) (now : Nat)
  | pacePump (n : Nat)
  | dave (dave : Dave)
  | otherPacket

/-- One step of the sender.  `video_pump` does not send a frame of no bytes. -/
def VideoSender.step (cr : Crypto) (s : VideoSender) : VideoOp → VideoSender
  | .videoPump frame key now => if frame = [] then s else (sendVideoFrame cr s frame key now).1
  | .pacePump n => { s with wire := s.wire ++ s.queue.take n, queue := s.queue.drop n }
  | .dave dave => { s with dave := dave }
  | .otherPacket => { s with txNonce := (s.txNonce + 1) % 2 ^ 32 }

/-- `start_video`, with random numbers for the first packet and the first picture. -/
structure VideoSender.New (s : VideoSender) : Prop where
  vseq : s.vseq < 2 ^ 16
  videoSsrc : s.videoSsrc < 2 ^ 32
  queue : s.queue = []
  wire : s.wire = []
  frames : s.frames = []

/-- A screen share from its start on. -/
def videoSender (cr : Crypto) : Machine VideoSender VideoOp Unit where
  start := VideoSender.New
  step s op := (s.step cr op, [])

/-! ## Receiver -/

/-- The frame that is put together.  `rxBuf` is the part of the buffer that is filled, and
`done` has what was in it at each call of `video_frame_done`. -/
structure VideoRx where
  rxPt : Nat
  rxActive : Bool
  rxBuf : List UInt8
  rxTs : Nat
  haveVseq : Bool
  lastVseq : Nat
  done : List (List UInt8)

/-- The receiver, with the synchronization sources of the speakers and of the video. -/
structure VideoReceiver where
  discovered : Bool
  haveKey : Bool
  key : List UInt8
  stream : Bool
  watchUser : Nat
  speakers : List Nat
  vssrc : List Nat
  rx : VideoRx

def addVideoSsrc (r : VideoReceiver) (ssrc : Nat) : VideoReceiver :=
  if ssrc ≠ 0 ∧ ssrc ∉ r.vssrc ∧ r.vssrc.length < maxVssrc then { r with vssrc := r.vssrc ++ [ssrc] }
  else r

def videoLost (r : VideoRx) : VideoRx := { r with rxActive := false }

/-- `video_frame_done`, as far as the buffer goes. -/
def videoFrameDone (r : VideoRx) : VideoRx := { r with done := r.done ++ [r.rxBuf] }

/-- The bytes of the reference indices of a VP9 descriptor. -/
def vp9References (p : List UInt8) : Nat → Nat → Nat
  | 0, i => i
  | k + 1, i =>
    match p[i]? with
    | none => i
    | some b => if b &&& 1 = 0 then i + 1 else vp9References p k (i + 1)

/-- The picture groups of a VP9 scalability structure. -/
def vp9Groups (p : List UInt8) : Nat → Nat → Option Nat
  | 0, i => some i
  | groups + 1, i =>
    match p[i]? with
    | none => none
    | some b => vp9Groups p groups (i + 1 + ((b >>> 2) &&& 3).toNat)

/-- The scalability structure of a VP9 descriptor. -/
def vp9Structure (p : List UInt8) (i : Nat) : Option Nat :=
  match p[i]? with
  | none => none
  | some ss =>
    let i := i + 1
    let i := if ss &&& 0x10 ≠ 0 then i + 4 * ((ss >>> 5).toNat + 1) else i
    if ss &&& 0x08 ≠ 0 then
      match p[i]? with
      | none => none
      | some groups => vp9Groups p groups.toNat (i + 1)
    else some i

/-- `vp9_descriptor`: the length, the start mark and the end mark. -/
def vp9Descriptor (p : List UInt8) : Option (Nat × Bool × Bool) :=
  match p with
  | [] => none
  | b :: _ =>
    let i := 1
    let i := if b &&& 0x80 ≠ 0 then
      i + (if (p[i]?.getD 0) &&& 0x80 ≠ 0 then 2 else 1) else i
    let i := if b &&& 0x20 ≠ 0 then i + (if b &&& 0x10 ≠ 0 then 1 else 2) else i
    let i := if b &&& 0x10 ≠ 0 ∧ b &&& 0x40 ≠ 0 then vp9References p 3 i else i
    let i? := if b &&& 0x02 ≠ 0 then vp9Structure p i else some i
    i?.map fun i => (i, decide (b &&& 0x08 ≠ 0), decide (b &&& 0x04 ≠ 0))

/-- The VP8 descriptor in `video_packet`: the length and the start mark. -/
def vp8Descriptor (p : List UInt8) : Option (Nat × Bool) :=
  match p with
  | [] => none
  | b :: rest =>
    let start := decide (b &&& 0x10 ≠ 0 ∧ b &&& 0x07 = 0)
    if b &&& 0x80 ≠ 0 then
      match rest with
      | [] => none
      | x :: _ =>
        let i := 2
        let i := if x &&& 0x80 ≠ 0 then
          i + (if (p[i]?.getD 0) &&& 0x80 ≠ 0 then 2 else 1) else i
        let i := if x &&& 0x40 ≠ 0 then i + 1 else i
        let i := if x &&& 0x30 ≠ 0 then i + 1 else i
        some (i, start)
    else some (1, start)

/-- The descriptor for the payload type: the length and the marks. -/
def videoDescriptor (pt : Nat) (marker : Bool) (p : List UInt8) : Option (Nat × Bool × Bool) :=
  if pt = vp9Pt then vp9Descriptor p
  else (vp8Descriptor p).map fun (i, start) => (i, start, marker)

/-- The end of `video_packet`: a chunk goes into the buffer. -/
def addChunk (r : VideoRx) (last : Bool) (chunk : List UInt8) : VideoRx :=
  if rxMaxFrame < r.rxBuf.length + chunk.length then videoLost r
  else
    let r := { r with rxBuf := r.rxBuf ++ chunk }
    if last then videoFrameDone { r with rxActive := false } else r

/-- `video_packet` after the descriptor. -/
def videoChunkIn (r : VideoRx) (gap : Bool) (ts : Nat) (start last : Bool)
    (chunk : List UInt8) : VideoRx :=
  if start then
    let r := if gap ∨ r.rxActive then videoLost r else r
    addChunk { r with rxActive := true, rxBuf := [], rxTs := ts } last chunk
  else if r.rxActive = false ∨ gap ∨ ts ≠ r.rxTs then
    if gap ∨ r.rxActive then videoLost r else r
  else addChunk r last chunk

def videoPacket (r : VideoRx) (seq ts : Nat) (marker : Bool) (pt : Nat) (p : List UInt8) :
    VideoRx :=
  if p = [] then r
  else
    let r := if pt ≠ r.rxPt then { r with rxPt := pt, rxActive := false } else r
    let gap := r.haveVseq && seq != (r.lastVseq + 1) % 2 ^ 16
    if r.haveVseq ∧ 0x8000 < (seq + 2 ^ 16 - r.lastVseq) % 2 ^ 16 then r
    else
      let r := { r with haveVseq := true, lastVseq := seq }
      match videoDescriptor pt marker p with
      | none => r
      | some (i, start, last) =>
        if p.length < i then r else videoChunkIn r gap ts start last (p.drop i)

/-- The bytes of the header of a packet with its extension, and the number of words that the
extension has. -/
def rtpHeader (p : List UInt8) : Option (Nat × Nat) :=
  let hdr := 12 + 4 * (p.headD 0 &&& 0x0F).toNat
  if p.headD 0 &&& 0x10 ≠ 0 then
    if p.length < hdr + 4 then none else some (hdr + 4, getBe 2 p (hdr + 2))
  else some (hdr, 0)

/-- The payload of a packet: it is decrypted, and the extension and the padding are taken
off. -/
def rtpPayload (check : GcmCheck) (key p : List UInt8) : Option (List UInt8) :=
  match rtpHeader p with
  | none => none
  | some (hdr, extWords) =>
    if p.length < hdr + 20 then none
    else
      let ctLen := p.length - hdr - 20
      let iv := p.drop (p.length - 4) ++ List.replicate 8 0
      match check key iv (p.take hdr) ((p.drop hdr).take ctLen) ((p.drop (hdr + ctLen)).take 16) with
      | none => none
      | some plain =>
        if ctLen < extWords * 4 then none
        else
          let frame := plain.drop (extWords * 4)
          if p.headD 0 &&& 0x20 ≠ 0 ∧ frame ≠ [] then
            let pad := (frame.getLastD 0).toNat
            if frame.length < pad then none else some (frame.take (frame.length - pad))
          else some frame

/-- `handle_udp_packet`, as far as the video goes. -/
def handleUdpPacket (check : GcmCheck) (r : VideoReceiver) (p : List UInt8) : VideoReceiver :=
  if r.discovered = false then
    if 74 ≤ p.length ∧ p[0]? = some 0 ∧ p[1]? = some 2 then { r with discovered := true } else r
  else if r.haveKey = false ∨ p.length < 12 + 20 ∨ p.headD 0 >>> 6 ≠ 2 then r
  else
    let code := (p[1]?.getD 0).toNat
    -- the packets of the control protocol
    if 200 ≤ code ∧ code ≤ 206 then r
    else if r.stream then r
    else
      let pt := code % 128
      let ssrc := getBe 4 p 8
      let knownVideo := pt = videoPt ∨ pt = vp9Pt
      if r.watchUser ≠ 0 ∧ ¬ knownVideo ∧ (ssrc ∈ r.vssrc ∨ (pt ≠ 0x78 ∧ pt < 200)) then r
      else if r.watchUser ≠ 0 ∧ knownVideo ∧ (ssrc ∈ r.vssrc ∨ ssrc ∉ r.speakers) then
        match rtpPayload check r.key p with
        | none => r
        | some frame =>
          let rx := videoPacket r.rx (getBe 2 p 2) (getBe 4 p 4) (decide (128 ≤ code)) pt frame
          { addVideoSsrc r ssrc with rx := rx }
      else r

/-- The packets that arrive. -/
def receiveAll (check : GcmCheck) (r : VideoReceiver) (ps : List (List UInt8)) : VideoReceiver :=
  ps.foldl (handleUdpPacket check) r

end Voice
