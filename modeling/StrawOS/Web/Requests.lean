import StrawOS.Lib.Machine
import StrawOS.Web.Frames

/-!
# HTTP requests

A request waits in the queue of its host, goes into a slot with a connection, comes back
to the front of the queue when it has to be sent again, and is completed by a call of its
callback.  The callback may use the interface again, `http_pump` too: the pumps that have
not come to their end form a stack, and each of them but the last waits in a callback.

What the connections do is part of the input.  What is found in the bytes of a response is
a parameter.
-/

namespace Web

def requestTimeoutMs : Nat := 45000
def maxHosts : Nat := 16
def maxSlots : Nat := 4

/-- `Req`, without what is only sent.  `id` tells the requests apart. -/
structure Req where
  id : Nat
  head : Bool
  done : Bool
  user : Nat
  retries : Nat
  notBefore : Nat
  next : Option Nat

structure Slot where
  conn : Bool
  req : Option Nat
  inBuf : List UInt8
  reused : Bool
  haveHeaders : Bool
  headerLen : Nat
  status : Int
  contentLength : Int
  chunked : Bool
  closeAfter : Bool
  lastActivity : Nat

/-- A slot of zeros. -/
def Slot.zero : Slot := ⟨false, none, [], false, false, 0, 0, 0, false, false, 0⟩

structure Host where
  name : List UInt8
  port : Nat
  tls : Bool
  maxSlots : Nat
  slots : Nat → Slot
  head : Option Nat
  tail : Option Nat

def Host.zero : Host := ⟨[], 0, false, 0, fun _ => Slot.zero, none, none⟩

/-- What happens to requests. -/
inductive Event
  | called (id : Nat) (status : Int) (body : List UInt8)
  | cancelled (id : Nat)
  | freed (id : Nat)

/-- A call of `http_pump` at its host and slot, and the request whose callback runs. -/
structure Pump where
  host : Nat
  slot : Nat
  running : Option Nat

/-- The hosts, the requests in memory, the pumps with the last one in front, the number of
requests so far, and what happened to them. -/
structure Net where
  hosts : Nat → Host
  hostCount : Nat
  heap : Nat → Option Req
  pumps : List Pump
  requests : Nat
  log : List Event

/-! ## The heap -/

/-- A field of a request is written. -/
def Net.write (n : Net) (p : Nat) (f : Req → Req) : Net :=
  { n with heap := Function.update n.heap p ((n.heap p).map f) }

def Net.setHost (n : Net) (i : Nat) (h : Host) : Net := { n with hosts := Function.update n.hosts i h }

def Host.setSlot (h : Host) (k : Nat) (s : Slot) : Host := { h with slots := Function.update h.slots k s }

def Net.setSlot (n : Net) (i k : Nat) (s : Slot) : Net := n.setHost i ((n.hosts i).setSlot k s)

def reqFree (n : Net) (p : Nat) : Net :=
  match n.heap p with
  | none => n
  | some r => { n with heap := Function.update n.heap p none, log := n.log ++ [.freed r.id] }

def enqueue (n : Net) (i p : Nat) (front : Bool) : Net :=
  let h := n.hosts i
  let n := n.write p fun r => { r with next := none }
  if front then
    let n := n.write p fun r => { r with next := h.head }
    n.setHost i { h with head := some p, tail := h.tail.or (some p) }
  else
    match h.tail with
    | some t =>
      let n := n.write t fun r => { r with next := some p }
      n.setHost i { h with tail := some p }
    | none => n.setHost i { h with head := some p, tail := some p }

/-! ## Requests and cancellation -/

/-- A host with this name, port and protocol. -/
def Host.Is (h : Host) (name : List UInt8) (port : Nat) (tls : Bool) : Prop :=
  h.port = port ∧ h.tls = tls ∧ h.name = name

instance (h : Host) (name : List UInt8) (port : Nat) (tls : Bool) : Decidable (h.Is name port tls) :=
  inferInstanceAs (Decidable (_ ∧ _ ∧ _))

def hostFor (n : Net) (name : List UInt8) (port : Nat) (tls : Bool) : Option (Net × Nat) :=
  match (List.range n.hostCount).find? fun i => (n.hosts i).Is name port tls with
  | some i => some (n, i)
  | none =>
    if n.hostCount = maxHosts then none
    else
      some ({ n.setHost n.hostCount { Host.zero with
        name := name
        port := port
        tls := tls
        maxSlots := if text "discord.com" <:+: name then 2 else maxSlots } with
        hostCount := n.hostCount + 1 },
        n.hostCount)

/-- What `http_request` is called with, after `url_parse`. -/
structure Call where
  name : List UInt8
  port : Nat
  tls : Bool
  head : Bool
  done : Bool
  user : Nat

/-- `http_request`, with what `calloc` gives. -/
def httpRequest (n : Net) (c : Call) (mem : Option Nat) : Net :=
  match hostFor n c.name c.port c.tls with
  | none => n
  | some (n, i) =>
    match mem with
    | none => n
    | some p =>
      let n := { n with
        heap := Function.update n.heap p (some ⟨n.requests, c.head, c.done, c.user, 0, 0, none⟩)
        requests := n.requests + 1 }
      enqueue n i p false

/-- `*pp = next`, where `pp` is in the cell `prev` or the head of the queue. -/
def unlink (n : Net) (i : Nat) (prev next : Option Nat) : Net :=
  match prev with
  | none => n.setHost i { n.hosts i with head := next }
  | some q => n.write q fun r => { r with next := next }

def Net.setTail (n : Net) (i : Nat) (tail : Option Nat) : Net := n.setHost i { n.hosts i with tail := tail }

/-- The loop over a queue in `http_cancel`. -/
def cancelLoop (user i : Nat) : Nat → Net → Option Nat → Option Nat → Net
  | 0, n, _, _ => n
  | _ + 1, n, _, none => n
  | fuel + 1, n, prev, some p =>
    match n.heap p with
    | none => n
    | some r =>
      if r.user = user then
        let n := unlink n i prev r.next
        let n := { n with log := n.log ++ [.cancelled r.id] }
        cancelLoop user i fuel (reqFree n p) prev r.next
      else cancelLoop user i fuel (n.setTail i (some p)) (some p) r.next

/-- The loop over the slots in `http_cancel`. -/
def cancelSlots (user i : Nat) : Nat → Net → Net
  | 0, n => n
  | k + 1, n =>
    let n := cancelSlots user i k n
    match ((n.hosts i).slots k).req with
    | none => n
    | some p =>
      match n.heap p with
      | none => n
      | some r =>
        if r.user = user then
          { n.write p fun r => { r with done := false } with log := n.log ++ [.cancelled r.id] }
        else n

/-- The loop over the hosts in `http_cancel`. -/
def cancelHosts (user : Nat) : Nat → Net → Net
  | 0, n => n
  | i + 1, n =>
    let n := cancelHosts user i n
    let n := cancelLoop user i (n.requests + 1) (n.setTail i none) none (n.hosts i).head
    cancelSlots user i maxSlots n

def httpCancel (n : Net) (user : Nat) : Net := cancelHosts user n.hostCount n

/-! ## Completion -/

def slotDropConn (s : Slot) : Slot := { s with conn := false, reused := false }

def slotResetResponse (s : Slot) : Slot :=
  { s with
    inBuf := []
    haveHeaders := false
    headerLen := 0
    status := 0
    contentLength := -1
    chunked := false
    closeAfter := false }

/-- What is found in the bytes of a response. -/
structure Headers where
  headerLen : Nat
  status : Int
  contentLength : Int
  chunked : Bool
  closeAfter : Bool

/-- `parse_headers`, `dechunk`, and the time to wait for that is found in the body of an
answer with the status 429. -/
structure Parser where
  headers : List UInt8 → Option Headers
  dechunk : List UInt8 → Option (List UInt8)
  retryAfter : List UInt8 → Nat

variable (ps : Parser)

/-- `finish`, and the request whose callback is called. -/
def finish (n : Net) (i k : Nat) (now : Nat) (status : Int) (body : List UInt8) : Net × Option Nat :=
  let s := (n.hosts i).slots k
  match s.req with
  | none => (n, none)
  | some p =>
    let n := n.setSlot i k { s with req := none }
    match n.heap p with
    | none => (n, none)
    | some r =>
      if status = 429 ∧ r.retries < 5 then
        let n := n.write p fun r =>
          { r with retries := r.retries + 1, notBefore := now + ps.retryAfter body + 50 }
        (enqueue n i p true, none)
      else if r.done then ({ n with log := n.log ++ [.called r.id status body] }, some p)
      else (reqFree n p, none)

def fail (n : Net) (i k : Nat) (now : Nat) (why : List UInt8) : Net × Option Nat :=
  let s := (n.hosts i).slots k
  match s.req with
  | none => (n.setSlot i k (slotDropConn s), none)
  | some p =>
    match n.heap p with
    | none => (n, none)
    | some r =>
      if s.reused ∧ s.inBuf = [] ∧ r.retries < 2 then
        let n := n.setSlot i k { slotResetResponse (slotDropConn s) with req := none }
        let n := n.write p fun r => { r with retries := r.retries + 1 }
        (enqueue n i p true, none)
      else
        finish ps (n.setSlot i k (slotResetResponse (slotDropConn s))) i k now 0 why

/-! ## The slots -/

/-- The texts of errors. -/
def outOfMemory : List UInt8 := text "Out of memory."
def tooLarge : List UInt8 := text "The response was too large."
def tooLong : List UInt8 := text "The server took too long to respond."

/-- What a connection does in a round: whether it had failed before, whether a new one can
be made, whether it fails with nothing left to read, what is read and whether it ends then.
The text of an error is read after the connection is freed, and is part of the input. -/
structure Round where
  now : Nat
  connFailed : Bool
  connOpens : Bool
  stepFails : Bool
  reads : List (List UInt8)
  ends : Bool
  error : List UInt8

/-- How a round ends: nothing more, a failure or a response. -/
inductive Verdict
  | quiet
  | failed (why : List UInt8)
  | finished (status : Int) (body : List UInt8)

/-- The end of a response is the end of the connection. -/
def Slot.Unbounded (s : Slot) : Prop :=
  s.haveHeaders = true ∧ s.contentLength < 0 ∧ s.chunked = false

instance (s : Slot) : Decidable s.Unbounded := inferInstanceAs (Decidable (_ ∧ _ ∧ _))

/-- The slot after a response. -/
def slotAfter (s : Slot) : Slot :=
  let t := { slotResetResponse s with reused := true }
  if s.closeAfter then slotDropConn t else t

/-- The end of `slot_pump`. -/
def slotTimeout (s : Slot) (now : Nat) : Slot × Verdict :=
  if s.req.isSome ∧ requestTimeoutMs < now - s.lastActivity then (s, .failed tooLong) else (s, .quiet)

/-- `slot_pump` after the reads. -/
def slotParse (isHead : Bool) (s : Slot) (now : Nat) : Slot × Verdict :=
  if s.req = none then (s, .quiet)
  else
    let s := if s.haveHeaders = false ∧ s.inBuf ≠ [] then
        match ps.headers s.inBuf with
        | none => s
        | some h => { s with
          haveHeaders := true
          headerLen := h.headerLen
          status := h.status
          contentLength := h.contentLength
          chunked := s.chunked || h.chunked
          closeAfter := s.closeAfter || h.closeAfter }
      else s
    if s.haveHeaders = false then slotTimeout s now
    else if 100 ≤ s.status ∧ s.status < 200 then
      ({ s with inBuf := s.inBuf.drop s.headerLen, haveHeaders := false }, .quiet)
    else
      let body := s.inBuf.drop s.headerLen
      let headLike := isHead ∨ s.status = 204 ∨ s.status = 304
      if headLike ∨ (0 ≤ s.contentLength ∧ s.contentLength ≤ body.length) then
        (slotAfter s, .finished s.status (if headLike then [] else body.take s.contentLength.toNat))
      else if s.chunked then
        match ps.dechunk body with
        | some out => (slotAfter s, .finished s.status out)
        | none => slotTimeout s now
      else slotTimeout s now

/-- The loop of reads in `slot_pump`. -/
def slotRead (isHead : Bool) (c : Round) : List (List UInt8) → Slot → Slot × Verdict
  | [], s =>
    if c.ends then
      if s.req = none then (slotDropConn s, .quiet)
      else if s.Unbounded then
        (slotResetResponse (slotDropConn s), .finished s.status (s.inBuf.drop s.headerLen))
      else (s, .failed c.error)
    else slotParse ps isHead s c.now
  | chunk :: rest, s =>
    if s.req = none then slotRead isHead c rest s
    else
      let s := { s with inBuf := s.inBuf ++ chunk, lastActivity := c.now }
      if maxBody < s.inBuf.length then (s, .failed tooLarge) else slotRead isHead c rest s

/-- `slot_pump` up to the end of the request. -/
def slotRound (isHead : Bool) (c : Round) (s : Slot) : Slot × Verdict :=
  if s.conn = false then (s, .quiet)
  else if c.stepFails ∧ s.req = none then (slotDropConn s, .quiet)
  else if c.stepFails ∧ ¬ s.Unbounded then (s, .failed c.error)
  else slotRead ps isHead c c.reads s

def slotPump (n : Net) (i k : Nat) (c : Round) : Net × Option Nat :=
  let s := (n.hosts i).slots k
  let isHead := ((s.req.bind n.heap).map Req.head).getD false
  let (t, verdict) := slotRound ps isHead c s
  let n := n.setSlot i k t
  match verdict with
  | .quiet => (n, none)
  | .failed why => fail ps n i k c.now why
  | .finished status body => finish ps n i k c.now status body

/-- The loop of `take_ready`: the cell before the request, and the request. -/
def readyLoop (n : Net) (now : Nat) : Nat → Option Nat → Option Nat → Option (Option Nat × Nat)
  | 0, _, _ => none
  | _ + 1, _, none => none
  | fuel + 1, prev, some p =>
    match n.heap p with
    | none => none
    | some r => if r.notBefore ≤ now then some (prev, p) else readyLoop n now fuel (some p) r.next

def takeReady (n : Net) (i now : Nat) : Net × Option Nat :=
  match readyLoop n now (n.requests + 1) none (n.hosts i).head with
  | none => (n, none)
  | some (prev, p) =>
    let next := (n.heap p).bind Req.next
    let n := unlink n i prev next
    let n := if (n.hosts i).tail = some p then n.setTail i prev else n
    (n.write p fun r => { r with next := none }, some p)

/-- A round of `http_pump` for a slot. -/
def pumpSlot (n : Net) (i k : Nat) (c : Round) : Net × Option Nat :=
  if ((n.hosts i).slots k).req = none ∧ (n.hosts i).head ≠ none then
    match takeReady n i c.now with
    | (n, none) => slotPump ps n i k c
    | (n, some p) =>
      let s := (n.hosts i).slots k
      let s := if s.conn ∧ c.connFailed then slotDropConn s else s
      let s := if s.conn then s else { s with conn := c.connOpens }
      let n := n.setSlot i k { slotResetResponse { s with req := some p } with lastActivity := c.now }
      if s.conn then slotPump ps n i k c else fail ps n i k c.now outOfMemory
  else slotPump ps n i k c

/-! ## Runs -/

/-- The requests whose callback runs. -/
def Net.running (n : Net) : List Nat := n.pumps.filterMap Pump.running

/-- The interface may be used: nothing runs, or a callback does. -/
def Net.idle (n : Net) : Bool :=
  match n.pumps with
  | [] => true
  | f :: _ => f.running.isSome

/-- The calls of the program, the rounds of the pump in front, and the end of a callback. -/
inductive NetOp
  | httpRequest (c : Call) (mem : Option Nat)
  | httpCancel (user : Nat)
  | httpPump
  | round (c : Round)
  | doneReturns

/-- One round of the pump in front. -/
def Net.round (n : Net) (c : Round) : Net :=
  match n.pumps with
  | [] => n
  | f :: rest =>
    if f.running.isSome then n
    else if n.hostCount ≤ f.host then { n with pumps := rest }
    else if (n.hosts f.host).maxSlots ≤ f.slot then { n with pumps := ⟨f.host + 1, 0, none⟩ :: rest }
    else
      match pumpSlot ps n f.host f.slot c with
      | (n, none) => { n with pumps := ⟨f.host, f.slot + 1, none⟩ :: rest }
      | (n, some p) => { n with pumps := ⟨f.host, f.slot, some p⟩ :: rest }

/-- The callback of the pump in front returns, and the request is freed. -/
def Net.doneReturns (n : Net) : Net :=
  match n.pumps with
  | [] => n
  | f :: rest =>
    match f.running with
    | none => n
    | some p => { reqFree n p with pumps := ⟨f.host, f.slot + 1, none⟩ :: rest }

def Net.step (n : Net) : NetOp → Net
  | .httpRequest c mem => if n.idle then httpRequest n c mem else n
  | .httpCancel user => if n.idle then httpCancel n user else n
  | .httpPump => if n.idle then { n with pumps := ⟨0, 0, none⟩ :: n.pumps } else n
  | .round c => n.round ps c
  | .doneReturns => n.doneReturns

/-- Nothing has been requested. -/
structure Net.New (n : Net) : Prop where
  hosts : n.hosts = fun _ => Host.zero
  hostCount : n.hostCount = 0
  heap : n.heap = fun _ => none
  pumps : n.pumps = []
  requests : n.requests = 0
  log : n.log = []

def network : Machine Net NetOp Unit where
  start := Net.New
  step n op := (n.step ps op, [])

end Web
