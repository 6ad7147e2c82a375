import StrawOS.Audio.Model

/-!
# Audio capture

The input side of `hda.c`: the hardware writes what it hears into a ring, and every client
has a position in the stream up to which it has read.  A client that falls behind by more than
the ring holds, less four periods, is moved on.

The hardware of an input stream is the list `captured` of the bytes that it has written since
the stream was started.
-/

namespace Audio

def hdaCaptureKeep : Nat := hdaBufSize - 4 * hdaPeriod

def hdaUnity : Nat := 256

/-- A read with what it returned, the volume, and what the hardware had written; or a move of
the position by a trim, a drop or a change of the input. -/
inductive CaptureEntry
  | read (start : Nat) (out : List UInt8) (volume : Nat) (captured : List UInt8)
  | moved

/-- `HdaCaptureClient`. -/
structure CaptureClient where
  id : Nat
  pos : Nat
  log : List CaptureEntry

/-- `HdaStream`, for input. -/
structure InStream where
  running : Bool := false
  pos : Nat := 0
  lastLpib : Nat := 0
  buf : Nat → UInt8
  captured : List UInt8 := []

/-- The input side of `hda`: the streams of the controllers, the one in use, its clients, and
the volume. -/
structure Capture where
  streams : Nat → InStream
  input : Option Nat
  clients : List CaptureClient
  inVolume : Nat

/-! ## Streams -/

/-- `hda_stream_start`. -/
def InStream.start (s : InStream) : InStream :=
  { s with lastLpib := 0, pos := 0, captured := [], running := true }

/-- `hda_stream_stop`. -/
def InStream.stop (s : InStream) : InStream := { s with running := false }

/-- The position register. -/
def InStream.lpib (s : InStream) : Nat := s.captured.length % hdaBufSize

/-- `hda_stream_update`. -/
def InStream.update (s : InStream) : InStream :=
  if s.running ∧ s.lpib < hdaBufSize then
    { s with pos := s.pos + (s.lpib + hdaBufSize - s.lastLpib) % hdaBufSize, lastLpib := s.lpib }
  else s

/-- The hardware writes a byte. -/
def InStream.hear (s : InStream) (b : UInt8) : InStream :=
  { s with
    buf := Function.update s.buf (s.captured.length % hdaBufSize) b
    captured := s.captured ++ [b] }

/-! ## Clients -/

/-- `hda_capture_trim`. -/
def CaptureClient.trim (c : CaptureClient) (pos : Nat) : CaptureClient :=
  if hdaCaptureKeep < pos - c.pos then
    { c with pos := pos - hdaCaptureKeep, log := c.log ++ [.moved] }
  else c

/-- Move the position. -/
def CaptureClient.moveTo (c : CaptureClient) (pos : Nat) : CaptureClient :=
  { c with pos := pos, log := c.log ++ [.moved] }

/-- A sample at a volume. -/
def gainSample (v : Int) (vol : Nat) : Int :=
  let v := v * vol / 256
  if 32767 < v then 32767 else if v < -32768 then -32768 else v

/-- The samples of `hda_apply_gain`. -/
def gainSamples (vol : Nat) : List UInt8 → List UInt8
  | lo :: hi :: rest => sampleBytes (gainSample (sample lo hi) vol) ++ gainSamples vol rest
  | rest => rest

def hdaApplyGain (vol : Nat) (data : List UInt8) : List UInt8 :=
  if vol = hdaUnity then data else gainSamples vol data

/-- The count of `hda_read`: whole frames, at most half the ring. -/
def readCount (count : Nat) : Nat := min (count / hdaFrame * hdaFrame) (hdaBufSize / 2)

/-- The copy of `hda_read`. -/
def CaptureClient.copy (c : CaptureClient) (s : InStream) (vol count : Nat) : CaptureClient :=
  if c.pos + count ≤ s.pos then
    { c with
      pos := c.pos + count
      log := c.log ++ [.read c.pos
        (hdaApplyGain vol (Buf.ringRead hdaBufSize s.buf (c.pos % hdaBufSize) count)) vol s.captured] }
  else c

/-! ## The calls -/

/-- Change the input stream, if there is one. -/
def Capture.onInput (st : Capture) (f : InStream → InStream) : Capture :=
  match st.input with
  | some i => { st with streams := Function.update st.streams i (f (st.streams i)) }
  | none => st

/-- The input stream's position, and whether it runs. -/
def Capture.pos (st : Capture) : Nat := (st.input.map fun i => (st.streams i).pos).getD 0

def Capture.isRunning (st : Capture) : Bool :=
  (st.input.map fun i => (st.streams i).running).getD false

/-- Change the client of a file. -/
def Capture.onClient (st : Capture) (id : Nat) (f : CaptureClient → CaptureClient) : Capture :=
  { st with clients := st.clients.map fun c => if c.id = id then f c else c }

/-- `hda_stream_update(hda.in)`. -/
def Capture.update (st : Capture) : Capture := st.onInput InStream.update

/-- `hda_capture_open`, from `hda_open`. -/
def hdaCaptureOpen (st : Capture) (id : Nat) : Capture :=
  if st.input.isNone then st
  else
    let st := if st.isRunning then st else st.onInput InStream.start
    let st := st.update
    { st with clients := ⟨id, st.pos, []⟩ :: st.clients }

def hdaCaptureClose (st : Capture) (id : Nat) : Capture :=
  let st := { st with clients := st.clients.filter fun c => c.id ≠ id }
  if st.clients = [] ∧ st.isRunning then st.onInput InStream.stop else st

/-- A round of the loop of `hda_read`. -/
def hdaRead (st : Capture) (id count : Nat) : Capture :=
  if readCount count = 0 then st
  else
    let st := st.update
    st.onClient id fun c =>
      match st.input with
      | some i => (c.trim st.pos).copy (st.streams i) st.inVolume (readCount count)
      | none => c

/-- `DEVFS_IOCTL_AUDIO_GET_STATE` and `hda_poll_file`. -/
def hdaLook (st : Capture) (id : Nat) : Capture :=
  let st := st.update
  st.onClient id fun c => c.trim st.pos

/-- `DEVFS_IOCTL_AUDIO_DROP`. -/
def hdaDrop (st : Capture) (id : Nat) : Capture :=
  let st := st.update
  st.onClient id fun c => c.moveTo st.pos

/-- The stream `i` becomes the input; the old one is stopped. -/
def Capture.useStream (st : Capture) (i : Nat) : Capture :=
  { (if st.isRunning then st.onInput InStream.stop else st) with input := some i }

/-- `hda_select_input`, of a device at the stream `i`. -/
def hdaSelectInput (st : Capture) (i : Nat) : Capture :=
  if st.input = some i then st
  else
    let st := st.useStream i
    if st.clients = [] then st
    else
      let st := st.onInput InStream.start
      { st with clients := st.clients.map fun c => c.moveTo 0 }

/-- What can happen.  `look` is a query of a client's state, `poll` is `hda_poll`, and `hear`
is the hardware. -/
inductive CaptureOp
  | opens (id : Nat)
  | close (id : Nat)
  | read (id count : Nat)
  | look (id : Nat)
  | drop (id : Nat)
  | poll
  | select (i : Nat)
  | volume (v : Nat)
  | hear (b : UInt8)

/-- One step. -/
def captureStep (st : Capture) : CaptureOp → Capture
  | .opens id => hdaCaptureOpen st id
  | .close id => hdaCaptureClose st id
  | .read id count => hdaRead st id count
  | .look id => hdaLook st id
  | .drop id => hdaDrop st id
  | .poll => st.update
  | .select i => hdaSelectInput st i
  | .volume v => { st with inVolume := min v 200 * hdaUnity / 100 }
  | .hear b => st.onInput fun s => s.hear b

/-- The position of the hardware. -/
def Capture.hw (st : Capture) : Nat := (st.input.map fun i => (st.streams i).captured.length).getD 0

/-- Files are new, and the hardware of a running stream stays less than a ring ahead of the
position last seen. -/
def captureLegal (st : Capture) : CaptureOp → Prop
  | .opens id => ∀ c ∈ st.clients, c.id ≠ id
  | .hear _ => st.isRunning = true ∧ st.hw + 1 < st.pos + hdaBufSize
  | _ => True

/-- The hardware is at the beginning of a frame when a client's position is set from its
position: by an open, a drop, or a trim. -/
def FrameStart (st : Capture) : CaptureOp → Prop
  | .opens _ => st.isRunning = true → st.hw % hdaFrame = 0
  | .drop _ => st.hw % hdaFrame = 0
  | .look id => ∀ c ∈ st.clients, c.id = id → hdaCaptureKeep < st.hw - c.pos → st.hw % hdaFrame = 0
  | .read id count => readCount count ≠ 0 → ∀ c ∈ st.clients, c.id = id →
      hdaCaptureKeep < st.hw - c.pos → st.hw % hdaFrame = 0
  | _ => True

instance (st : Capture) : (op : CaptureOp) → Decidable (captureLegal st op)
  | .opens id => inferInstanceAs (Decidable (∀ c ∈ st.clients, c.id ≠ id))
  | .hear _ => inferInstanceAs (Decidable (st.isRunning = true ∧ st.hw + 1 < st.pos + hdaBufSize))
  | .close _ | .read _ _ | .look _ | .drop _ | .poll | .select _ | .volume _ => .isTrue trivial

instance (st : Capture) : (op : CaptureOp) → Decidable (FrameStart st op)
  | .opens _ => inferInstanceAs (Decidable (st.isRunning = true → st.hw % hdaFrame = 0))
  | .drop _ => inferInstanceAs (Decidable (st.hw % hdaFrame = 0))
  | .look id => inferInstanceAs (Decidable (∀ c ∈ st.clients, c.id = id →
      hdaCaptureKeep < st.hw - c.pos → st.hw % hdaFrame = 0))
  | .read id count => inferInstanceAs (Decidable (readCount count ≠ 0 → ∀ c ∈ st.clients,
      c.id = id → hdaCaptureKeep < st.hw - c.pos → st.hw % hdaFrame = 0))
  | .close _ | .poll | .select _ | .volume _ | .hear _ => .isTrue trivial

/-- A legal step at which no position inside a frame is taken over. -/
def captureFramed (st : Capture) (op : CaptureOp) : Prop := captureLegal st op ∧ FrameStart st op

instance (st : Capture) (op : CaptureOp) : Decidable (captureFramed st op) :=
  inferInstanceAs (Decidable (_ ∧ _))

/-- The driver before the first client. -/
def captureMachine : Machine Capture CaptureOp Unit where
  start st := st.clients = [] ∧ ∀ i, (st.streams i).running = false
  step st op := (captureStep st op, [])

end Audio
