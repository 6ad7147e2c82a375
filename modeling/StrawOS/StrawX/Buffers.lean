import StrawOS.StrawX.Framing

/-!
# The buffers of a window

A program draws into one of two buffers and attaches it to its window by address.
The server keeps the last one that was attached and releases the one before.  The
size of a window is changed on both sides: the server asks for a new size with a
configure event, and the program answers with a buffer.

The world is a window with its program, the server and the two channels between
them.  Requests wait until there is room, events are dropped when the ring of the
program is full.  By the framing, a channel is a list of messages.
-/

namespace StrawX

/-! ## The program -/

structure SxBuffer where
  pixels : Nat
  w : Int
  h : Int
  busy : Bool

/-- A call that waits for a buffer. -/
inductive Wait
  | canvas
  | damage
  deriving DecidableEq

/-- `SxWindow`, the blocks of its buffers with their sizes in bytes, the call that waits
in `sx_window_canvas`, and the bytes of an event that has been read in part. -/
structure Client where
  title : List UInt8
  width : Int
  height : Int
  buffers : Fin 2 → SxBuffer
  back : Option (Fin 2)
  front : Option (Fin 2)
  heap : Nat → Option Nat
  wait : Option Wait
  rxLen : Nat

namespace Client

variable (c : Client)

/-- `sx_alloc_buffer` with the block that `malloc` gives. -/
def sxAllocBuffer (i : Fin 2) (w h : Int) (block : Nat) : Client :=
  let w := max w 1
  let h := max h 1
  { c with
    heap := Function.update (Function.update c.heap (c.buffers i).pixels none) block
      (some (w.toNat * h.toNat * 4))
    buffers := Function.update c.buffers i ⟨block, w, h, false⟩ }

/-- The choice of a buffer in `sx_window_canvas`. -/
def pick : Option (Fin 2) :=
  ([0, 1].find? fun i => !(c.buffers i).busy && c.front != some i).or
    ([0, 1].find? fun i => !(c.buffers i).busy)

/-- The end of `sx_window_canvas`.  Without memory a buffer of another size is used, and
without a buffer the canvas is a dummy. -/
def canvasFinish (i : Fin 2) (mem : Option Nat) : Client :=
  let b := c.buffers i
  if b.pixels = 0 ∨ b.w ≠ c.width ∨ b.h ≠ c.height then
    match mem with
    | some block => { c.sxAllocBuffer i c.width c.height block with back := some i }
    | none => if b.pixels = 0 then c else { c with back := some i }
  else { c with back := some i }

/-- One round of the loop in `sx_window_canvas`. -/
def canvasLoop (k : Wait) (mem : Option Nat) : Client :=
  match c.pick with
  | none => { c with wait := some k }
  | some i => { c.canvasFinish i mem with wait := none }

def sxWindowCanvas (k : Wait) (mem : Option Nat) : Client :=
  match c.back with
  | some i =>
    if (c.buffers i).w = c.width ∧ (c.buffers i).h = c.height then c
    else { c with back := none }.canvasLoop k mem
  | none => c.canvasLoop k mem

/-- A signed word of the memory. -/
def signed (n : Nat) : Int := if n < 2 ^ 31 then n else n - 2 ^ 32

/-- What lies in front of the buffers in an `SxWindow`, read as a buffer: the end of the
title. -/
def wild : SxBuffer :=
  ⟨Endian.load ((c.title.drop 48).take 8), signed (Endian.load ((c.title.drop 56).take 4)),
    signed (Endian.load ((c.title.drop 60).take 4)), false⟩

/-- The buffer that `sx_window_damage` attaches. -/
def attached : SxBuffer :=
  match c.back with
  | some i => c.buffers i
  | none => c.wild

/-- The end of `sx_window_damage`.  Without a back buffer the flag goes into the low byte
of the width. -/
def damageFinish : Client :=
  match c.back with
  | some i =>
    { c with
      buffers := Function.update c.buffers i { c.buffers i with busy := true }
      front := some i, back := none }
  | none => { c with width := c.width / 256 * 256 + 1, front := none }

end Client

/-! ## Messages -/

/-- The requests for the window. -/
inductive Req
  | attachBuffer (pixels : Nat) (w h stride : Int)
  | damage
  | resize (w h : Int)

/-- The events for the program. -/
inductive Evt
  | bufferRelease (buffer : Nat)
  | configure (w h : Int)
  | other

def Client.sxHandleMessage (c : Client) : Evt → Client
  | .bufferRelease buffer =>
    { c with buffers := fun i =>
        if (c.buffers i).pixels = buffer then { c.buffers i with busy := false } else c.buffers i }
  | .configure w h =>
    { c with width := if 0 < w then w else 1, height := if 0 < h then h else 1 }
  | .other => c

/-! ## The server -/

/-- `Window`, as far as the buffer and the size go, and the size of the screen. -/
structure Server where
  buf : Nat
  bufW : Int
  bufH : Int
  bufStride : Int
  w : Int
  h : Int
  sizeDriven : Bool
  cfgPending : Bool
  maximized : Bool
  screenW : Int
  screenH : Int

namespace Server

variable (s : Server)

/-- `window_send_configure`, with the events that are sent. -/
def windowSendConfigure : Server × List Evt :=
  if s.cfgPending then ({ s with sizeDriven := true }, [])
  else ({ s with sizeDriven := true, cfgPending := true }, [.configure s.w s.h])

def windowSetSize (nw nh : Int) : Server × List Evt :=
  if nw = s.w ∧ nh = s.h ∧ s.sizeDriven = false then (s, [])
  else { s with w := nw, h := nh }.windowSendConfigure

def windowAttach (buf : Nat) (bw bh stride : Int) : Server × List Evt :=
  if buf = 0 ∨ bw ≤ 0 ∨ bh ≤ 0 ∨ stride < bw then (s, [])
  else
    let release := if s.buf ≠ 0 ∧ s.buf ≠ buf then [Evt.bufferRelease s.buf] else []
    let sizeChanged := bw ≠ s.bufW ∨ bh ≠ s.bufH
    let t := { s with buf := buf, bufW := bw, bufH := bh, bufStride := stride, cfgPending := false }
    if s.sizeDriven then
      if bw = s.w ∧ bh = s.h then ({ t with sizeDriven := false }, release)
      else (t.windowSendConfigure.1, release ++ t.windowSendConfigure.2)
    else if sizeChanged then ({ t with w := bw, h := bh }, release)
    else (t, release)

/-- `client_handle` for the requests of the window. -/
def clientHandle : Req → Server × List Evt
  | .attachBuffer pixels w h stride => s.windowAttach pixels w h stride
  | .damage => (s, [])
  | .resize w h =>
    if s.maximized then (s, [])
    else
      s.windowSetSize (if w < 1 then 1 else min w s.screenW) (if h < 1 then 1 else min h s.screenH)

end Server

/-! ## The world -/

/-- `sizeof(SxEvtMsg)`. -/
def evtSize : Nat := 72

/-- A window.  `unread` is the number of bytes in the ring of the program.  The last two
fields are for proofs only: whether the program has handled a configure event since an
attach last reached the server, and whether it has committed a buffer since it last
handled a configure event. -/
structure World where
  client : Client
  server : Server
  requests : List Req
  events : List Evt
  unread : Nat
  seen : Bool
  committed : Bool

namespace World

variable (st : World)

/-- `send_event`: an event without room is dropped. -/
def sendEvent (e : Evt) : World :=
  if st.unread + evtSize ≤ Sock.sockBufSize then
    { st with events := st.events ++ [e], unread := st.unread + evtSize }
  else st

/-- What the server does, and the events that it sends. -/
def serverStep (r : Server × List Evt) : World := r.2.foldl sendEvent { st with server := r.1 }

/-- An event is handled. -/
def handle (e : Evt) : World :=
  { st with
    client := st.client.sxHandleMessage e
    seen := match e with | .configure _ _ => true | _ => st.seen
    committed := match e with | .configure _ _ => false | _ => st.committed }

def sxPump : World :=
  let n := min (sxRxMax - st.client.rxLen) st.unread
  let k := (st.client.rxLen + n) / evtSize
  let st' := (st.events.take k).foldl handle st
  { st' with
    client := { st'.client with rxLen := (st.client.rxLen + n) % evtSize }
    events := st.events.drop k
    unread := st.unread - n }

/-- The end of `sx_window_damage` once there is a buffer: the requests are sent. -/
def damageFinish : World :=
  let b := st.client.attached
  { st with
    client := st.client.damageFinish
    requests := st.requests ++ [.attachBuffer b.pixels b.w b.h b.w, .damage]
    committed := st.committed || st.client.back.isSome }

/-- A call of the program has come to the end of `sx_window_canvas`, or waits. -/
def afterCanvas (k : Wait) (c : Client) : World :=
  let st := { st with client := c }
  if k = .damage ∧ c.wait = none then st.damageFinish else st

end World

/-- The calls of the program with what `malloc` may give, and the steps of the server. -/
inductive WorldOp
  | sxWindowCanvas (mem : Option Nat)
  | sxWindowDamage (mem : Option Nat)
  | sxPump (mem : Option Nat)
  | sxWindowResize (w h : Int)
  | clientHandle
  | setSize (maximized : Bool) (nw nh : Int)
  | otherEvent

/-- One step.  A call that waits in `sx_window_canvas` goes on with each pump. -/
def World.step (st : World) : WorldOp → World
  | .sxWindowCanvas mem =>
    if st.client.wait.isSome then st else st.afterCanvas .canvas (st.client.sxWindowCanvas .canvas mem)
  | .sxWindowDamage mem =>
    if st.client.wait.isSome then st
    else if st.client.back.isSome then st.damageFinish
    else st.afterCanvas .damage (st.client.sxWindowCanvas .damage mem)
  | .sxPump mem =>
    match st.client.wait with
    | none => st.sxPump
    | some k => st.sxPump.afterCanvas k (st.sxPump.client.canvasLoop k mem)
  | .sxWindowResize w h =>
    if st.client.wait.isSome then st else { st with requests := st.requests ++ [.resize w h] }
  | .clientHandle =>
    match st.requests with
    | [] => st
    | r :: rest =>
      { st with
        requests := rest
        seen := match r with
          | .attachBuffer pixels w h stride =>
            st.seen && (pixels == 0 || w ≤ 0 || h ≤ 0 || stride < w)
          | _ => st.seen }.serverStep (st.server.clientHandle r)
  | .setSize maximized nw nh =>
    st.serverStep ({ st.server with maximized := maximized }.windowSetSize nw nh)
  | .otherEvent => st.sendEvent .other

/-- A new window. -/
structure World.New (st : World) : Prop where
  size : 1 ≤ st.client.width ∧ 1 ≤ st.client.height
  buffers : ∀ i, st.client.buffers i = ⟨0, 0, 0, false⟩
  back : st.client.back = none
  front : st.client.front = none
  heap : ∀ a, st.client.heap a = none
  wait : st.client.wait = none
  rxLen : st.client.rxLen < evtSize
  buf : st.server.buf = 0 ∧ st.server.bufW = 0 ∧ st.server.bufH = 0
  flags : st.server.sizeDriven = false ∧ st.server.cfgPending = false
  requests : st.requests = []
  events : ∀ e ∈ st.events, e = .other
  unread : st.events.length * evtSize = st.client.rxLen + st.unread
  ghosts : st.seen = false ∧ st.committed = false

/-- A window from its creation on. -/
def world : Machine World WorldOp Unit where
  start := World.New
  step st op := (st.step op, [])

end StrawX
