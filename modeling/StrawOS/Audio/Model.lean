import StrawOS.Lib.Buf
import StrawOS.Lib.Machine

/-!
# Audio playback

`hda.c`, the output side: every client has a ring of bytes between `tail` and
`head`, and a poll mixes whole frames of all clients into the buffer of the
stream, up to a lead ahead of the position that the hardware has reached.

Positions count bytes from the last start of the stream and are never reduced;
a cell of the buffer is a position modulo `HDA_BUF_SIZE`.  The hardware is the
number `hw` of bytes that it has played.  For what is proved about the queue a
client also keeps what was written to it and a log of what became of it, and the
stream which cells were played since they were zeroed.
-/

namespace Audio

def hdaFrame : Nat := 4

def hdaPeriod : Nat := 48000 / 100 * hdaFrame

def hdaBufSize : Nat := hdaPeriod * 32

theorem hdaBufSize_pos : 0 < hdaBufSize := by
  simp [hdaBufSize, hdaPeriod, hdaFrame]

def hdaPlayLead : Nat := hdaPeriod * 4

def hdaClientRing : Nat := 32768

def hdaIdleStopMs : Nat := 2000

/-- What became of some bytes of a client: mixed, in which run of the stream, at
which position, with the position last seen, the bytes read and whether every
cell was zeroed after it was last played; or dropped. -/
inductive Entry
  | mixed (run src place seen : Nat) (data : List UInt8) (clean : Bool)
  | dropped (src upto : Nat)

/-- `HdaPlayClient`.  The cells of `ring` from `HDA_CLIENT_RING` on are the
memory behind it. -/
structure Client where
  id : Nat
  ring : Nat → UInt8
  head : Nat
  tail : Nat
  closing : Bool
  written : List UInt8
  log : List Entry

/-- The output stream with `hda.fill` and the clients, the hardware behind it,
and the clients that were freed. -/
structure Hda where
  clients : List Client
  running : Bool
  buf : Nat → UInt8
  lastLpib : Nat
  pos : Nat
  fill : Nat
  idleSince : Nat
  volume : Nat
  starts : Nat
  hw : Nat
  played : Nat → Bool
  gone : List Client

/-! ## The buffer of the stream -/

/-- An `int16_t` in memory. -/
def sample (lo hi : UInt8) : Int :=
  let v : Int := lo.toNat + 256 * hi.toNat
  if v < 32768 then v else v - 65536

/-- The sum of two samples, the second at the volume, within the range. -/
def mixSample (dst src : Int) (vol : Nat) : Int :=
  let v := dst + src * vol / 256
  if 32767 < v then 32767 else if v < -32768 then -32768 else v

/-- The bytes of an `int16_t`. -/
def sampleBytes (v : Int) : List UInt8 :=
  let n := (v % 65536).toNat
  [UInt8.ofNat n, UInt8.ofNat (n / 256)]

/-- The loop of `hda_ring_zero`, for any cells: set those of the positions from
`start` to `stop`. -/
def ringSet {α : Type} (v : α) (ring : Nat → α) (start stop : Nat) : Nat → α :=
  if start < stop then
    let off := start % hdaBufSize
    let n := min (stop - start) (hdaBufSize - off)
    ringSet v (Buf.write ring off (List.replicate n v)) (start + n) stop
  else ring
termination_by stop - start
decreasing_by
  have : start % hdaBufSize < hdaBufSize := Nat.mod_lt _ hdaBufSize_pos
  omega

/-- `hda_ring_zero`, for any cells. -/
def hdaRingZero {α : Type} (v : α) (ring : Nat → α) (start stop : Nat) : Nat → α :=
  if hdaBufSize ≤ stop - start then Buf.write ring 0 (List.replicate hdaBufSize v)
  else ringSet v ring start stop

/-- `hda_stream_update`, with the position register. -/
def hdaStreamUpdate (st : Hda) (lpib : Nat) : Hda :=
  if st.running ∧ lpib < hdaBufSize then
    { st with
      pos := st.pos + (lpib + hdaBufSize - st.lastLpib) % hdaBufSize
      lastLpib := lpib }
  else st

/-! ## Mixing -/

/-- `(head - tail) & ~(HDA_FRAME - 1)`. -/
def Client.avail (c : Client) : Nat := (c.head - c.tail) / hdaFrame * hdaFrame

/-- The two bytes of the 16-bit access at byte `i` of the queue. -/
def Client.access (c : Client) (i : Nat) : List UInt8 :=
  [c.ring ((c.tail + i) % hdaClientRing), c.ring ((c.tail + i) % hdaClientRing + 1)]

/-- The loop of `hda_mix_client` on the buffer, over `bytes / 2` samples. -/
def mixInto (vol : Nat) (c : Client) (place bytes : Nat) (buf : Nat → UInt8) : Nat → UInt8 :=
  (List.range (bytes / 2)).foldl (fun buf k =>
    let dst := (place + 2 * k) % hdaBufSize
    match c.access (2 * k) with
    | [lo, hi] => Buf.write buf dst
        (sampleBytes (mixSample (sample (buf dst) (buf (dst + 1))) (sample lo hi) vol))
    | _ => buf) buf

/-- The bytes that the loop reads. -/
def Client.bytesRead (c : Client) (bytes : Nat) : List UInt8 :=
  (List.range (bytes / 2)).flatMap fun k => c.access (2 * k)

/-- No cell of the positions was played since it was zeroed. -/
def Hda.cleanAt (st : Hda) (place bytes : Nat) : Bool :=
  (List.range bytes).all fun i => !st.played ((place + i) % hdaBufSize)

/-- The client after `hda_mix_client`. -/
def Client.mixed (c : Client) (st : Hda) (place bytes : Nat) : Client :=
  let n := min bytes c.avail
  { c with
    tail := c.tail + n
    log := c.log ++ [.mixed st.starts c.tail place st.pos (c.bytesRead n) (st.cleanAt place n)] }

/-- `hda_play_fill`: where it starts. -/
def Hda.fillStart (st : Hda) : Nat :=
  if st.fill < st.pos then (st.pos + hdaFrame - 1) / hdaFrame * hdaFrame else st.fill

/-- `hda_play_fill`: where it ends. -/
def Hda.target (st : Hda) : Nat := (st.pos + hdaPlayLead) / hdaFrame * hdaFrame

def hdaPlayFill (st : Hda) : Hda :=
  let st := { st with fill := st.fillStart }
  if st.target ≤ st.fill then st
  else
    let bytes := st.target - st.fill
    { st with
      buf := st.clients.foldl (fun buf c => mixInto st.volume c st.fill (min bytes c.avail) buf) st.buf
      clients := st.clients.map fun c => c.mixed st st.fill bytes
      fill := st.target }

/-- `hda_play_start`, and `hda_stream_start` at its end. -/
def hdaPlayStart (st : Hda) : Hda :=
  if st.running then st
  else
    let st := { st with
      buf := Buf.write st.buf 0 (List.replicate hdaBufSize 0)
      played := Buf.write st.played 0 (List.replicate hdaBufSize false)
      starts := st.starts + 1, fill := 0, pos := 0 }
    { hdaPlayFill st with lastLpib := 0, pos := 0, hw := 0, running := true }

/-! ## The calls -/

/-- The round of the loop of `hda_write` that copies what fits of `src`. -/
def Client.push (c : Client) (src : List UInt8) : Client :=
  let n := min (hdaClientRing - (c.head - c.tail)) src.length
  { c with
    ring := Buf.ringWrite hdaClientRing c.ring (c.head % hdaClientRing) (src.take n)
    head := c.head + n
    written := c.written ++ src.take n }

/-- `DEVFS_IOCTL_AUDIO_DROP`. -/
def Client.drop (c : Client) : Client :=
  { c with tail := c.head, log := c.log ++ [.dropped c.tail c.head] }

/-- Change the client of a file. -/
def Hda.update (st : Hda) (id : Nat) (f : Client → Client) : Hda :=
  { st with clients := st.clients.map fun c => if c.id = id then f c else c }

/-- A closed client that `hda_play_poll` frees. -/
def Client.done (c : Client) : Bool := c.closing && c.head == c.tail

/-- `hda_play_poll`, with the position register. -/
def hdaPlayPoll (st : Hda) (now lpib : Nat) : Hda :=
  let st := { st with
    clients := st.clients.filter fun c => !c.done
    gone := st.gone ++ st.clients.filter fun c => c.done }
  if ¬ st.running then st
  else
    let old := st.pos
    let st := hdaStreamUpdate st lpib
    let st := hdaPlayFill { st with
      buf := hdaRingZero 0 st.buf old st.pos
      played := hdaRingZero false st.played old st.pos }
    if st.clients ≠ [] then { st with idleSince := now }
    else if hdaIdleStopMs < (now + 2 ^ 64 - st.idleSince) % 2 ^ 64 then { st with running := false }
    else st

/-- What can happen.  `first` is the allocation of the client by the first
`hda_write` of a file, `write` a round of its loop; `advance` is the hardware. -/
inductive Op
  | first (id : Nat) (ring : Nat → UInt8)
  | write (id : Nat) (src : List UInt8) (now : Nat)
  | drop (id : Nat)
  | close (id : Nat)
  | poll (now : Nat)
  | advance (bytes : Nat)

/-- A client as `hda_write` makes it; the memory behind the ring is what it is. -/
def Client.fresh (id : Nat) (ring : Nat → UInt8) : Client :=
  ⟨id, Buf.write ring 0 (List.replicate hdaClientRing 0), 0, 0, false, [], []⟩

/-- One step. -/
def step (st : Hda) : Op → Hda
  | .first id ring => { st with clients := Client.fresh id ring :: st.clients }
  | .write id src now => { hdaPlayStart st with idleSince := now }.update id fun c => c.push src
  | .drop id => st.update id Client.drop
  | .close id => st.update id fun c => { c with closing := true }
  | .poll now => hdaPlayPoll st now (st.hw % hdaBufSize)
  | .advance bytes =>
      { st with
        hw := st.hw + bytes
        played := fun j => st.played j ||
          (List.range bytes).any fun i => (st.hw + i) % hdaBufSize == j }

/-- The client of an open file. -/
def Hda.IsOpen (st : Hda) (id : Nat) : Prop := ∃ c ∈ st.clients, c.id = id ∧ c.closing = false

/-- Files write once they have a client, and the hardware of a running stream
stays less than a buffer ahead of the poll. -/
def Legal (st : Hda) : Op → Prop
  | .first id _ => ∀ c ∈ st.clients ++ st.gone, c.id ≠ id
  | .write id _ _ => st.IsOpen id
  | .drop id => st.IsOpen id
  | .close id => st.IsOpen id
  | .poll _ => True
  | .advance bytes => st.running = true ∧ st.hw + bytes < st.pos + hdaBufSize

/-- A drop at an even byte, and a close with whole frames left. -/
def Whole (st : Hda) : Op → Prop
  | .drop id => ∀ c ∈ st.clients, c.id = id → c.head % 2 = 0
  | .close id => ∀ c ∈ st.clients, c.id = id → (c.head - c.tail) % hdaFrame = 0
  | _ => True

/-- The driver before the first client. -/
def machine : Machine Hda Op Unit where
  start st := st.clients = [] ∧ st.gone = [] ∧ st.running = false ∧ st.fill = 0
  step st op := (step st op, [])

end Audio
