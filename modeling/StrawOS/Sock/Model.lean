import StrawOS.Lib.Buf
import StrawOS.Lib.Machine
import StrawOS.Vfs.Path

/-!
# Local sockets

`socket.c`: sockets as objects in memory, the list of listeners, the descriptors
that own sockets, and the tasks that are inside `sock_read`, `sock_write` or
`sock_sys_accept`.

A kernel call runs under the big kernel lock with interrupts off and gives way to
others only in `task_block`.  So one step of the machine is one stretch of a call
up to its end or to `task_block`; a task that was woken goes on with `resume`.

A socket is an address.  What `sock_destroy` frees keeps its content until the
next `sock_new` that gets the address, and a task that sleeps in a call on it
still has the pointer.
-/

namespace Sock

open Vfs (CString)

def sockBufSize : Nat := 65536

def sockBacklog : Nat := 32

def sockNameMax : Nat := 64

def fdMax : Nat := 1024

inductive SocketState
  | unbound
  | bound
  | listening
  | connected
  deriving DecidableEq

/-- A `Socket *`. -/
abbrev Addr := Nat

/-- `Socket`; the defaults are the zeroed object.  `rx` is the memory of the ring
and `hasRx` whether there is any. -/
structure Socket where
  state : SocketState := .unbound
  nonblock : Bool := false
  name : CString := []
  peer : Option Addr := none
  hasRx : Bool := false
  rx : Nat → UInt8 := fun _ => 0
  rxHead : Nat := 0
  rxCount : Nat := 0
  backlog : List Addr := []

/-- The bytes in the ring, oldest first. -/
def Socket.ring (k : Socket) : List UInt8 := Buf.ring sockBufSize k.rx k.rxHead k.rxCount

/-- A slot of the descriptor table: free, a socket, or something else. -/
inductive Slot
  | free
  | other
  | sock (a : Addr)
  deriving DecidableEq

/-- A call that has not ended: its socket and its arguments. -/
inductive Pending
  | read (s : Addr) (count : Nat)
  | write (s : Addr) (buf : List UInt8) (written : Nat)
  | accept (s : Addr)
  deriving DecidableEq

/-- A task outside the calls, or inside one, asleep in `task_block` or woken. -/
inductive Context
  | outside
  | inside (p : Pending) (asleep : Bool)
  deriving DecidableEq

/-- The sockets, descriptors and tasks.  `taken` and `sent` are for proofs only: the
bytes `sock_read` has returned from a socket, and those `sock_write` on a socket
has put into the ring of its peer, both since the socket was made. -/
structure State where
  sock : Addr → Socket
  live : Addr → Bool
  listeners : List Addr
  fds : Nat → Slot
  tasks : Nat → Context
  taken : Addr → List UInt8
  sent : Addr → List UInt8

/-- What a call reports. -/
inductive Event
  | data (s : Addr) (bytes : List UInt8)
  | eof (s : Addr)
  | wrote (s : Addr) (n : Nat)
  | failed

namespace State

variable (st : State)

/-- Write a socket. -/
def setSock (a : Addr) (k : Socket) : State := { st with sock := Function.update st.sock a k }

/-- Write a slot of the descriptor table. -/
def setFd (fd : Nat) (x : Slot) : State := { st with fds := Function.update st.fds fd x }

/-- Write a task. -/
def setTask (t : Nat) (c : Context) : State := { st with tasks := Function.update st.tasks t c }

/-- `task_wake_waiters`. -/
def wakeWaiters : State :=
  { st with
    tasks := fun t =>
      match st.tasks t with
      | .outside => .outside
      | .inside p _ => .inside p false }

/-- The call of a task ends. -/
def finish (t : Nat) (e : Event) : State × List Event := (st.setTask t .outside, [e])

/-- `task_block (TASK_BLOCK_FOREVER)`. -/
def sleep (t : Nat) (p : Pending) : State × List Event := (st.setTask t (.inside p true), [])

/-- `fd_alloc`: the first free descriptor. -/
def fdAlloc : Option Nat := (List.range fdMax).find? fun fd => decide (st.fds fd = .free)

def sockFromFd (fd : Nat) : Option Addr :=
  match st.fds fd with
  | .sock a => some a
  | _ => none

/-- `sock_new` at an address. -/
def sockNew (a : Addr) (nonblock : Bool) : State :=
  { st with
    sock := Function.update st.sock a { nonblock := nonblock }
    live := Function.update st.live a true
    taken := Function.update st.taken a []
    sent := Function.update st.sent a [] }

/-- `s->peer->peer = NULL; s->peer = NULL`. -/
def unlinkPeer (a : Addr) : State :=
  match (st.sock a).peer with
  | none => st
  | some b =>
      let st := st.setSock b { st.sock b with peer := none }
      st.setSock a { st.sock a with peer := none }

/-- `sock_destroy` of a socket that does not listen. -/
def destroyOne (a : Addr) : State :=
  let st := st.unlinkPeer a
  { st with live := Function.update st.live a false }.wakeWaiters

/-- `sock_destroy`.  The backlog holds connected sockets, for which the source's
recursion is `destroyOne`. -/
def sockDestroy (a : Addr) : State :=
  if (st.sock a).state = .listening then
    let entries := (st.sock a).backlog
    let st := { st with listeners := st.listeners.erase a }
    let st := st.setSock a { st.sock a with backlog := [] }
    let st := entries.foldl destroyOne st
    st.destroyOne a
  else st.destroyOne a

end State

def sockFindListener (st : State) (name : CString) : Option Addr :=
  st.listeners.find? fun l => (st.sock l).name == name

/-! ## Reading -/

/-- Take bytes from the front of a ring. -/
def Socket.drain (k : Socket) (n : Nat) : Socket :=
  { k with rxHead := (k.rxHead + n) % sockBufSize, rxCount := k.rxCount - n }

/-- `sock_read`, from the head of its loop on. -/
def readSegment (st : State) (t : Nat) (s : Addr) (count : Nat) : State × List Event :=
  let k := st.sock s
  if k.state ≠ .connected then st.finish t .failed
  else if 0 < k.rxCount then
    let n := min count k.rxCount
    let bytes := Buf.ringRead sockBufSize k.rx k.rxHead n
    let st := st.setSock s (k.drain n)
    let st := { st with taken := Function.update st.taken s (st.taken s ++ bytes) }
    st.wakeWaiters.finish t (.data s bytes)
  else if k.peer = none then st.finish t (.eof s)
  else if k.nonblock then st.finish t .failed
  else st.sleep t (.read s count)

/-! ## Writing -/

def sockPush (k : Socket) (bytes : List UInt8) : Socket :=
  { k with
    rx := Buf.ringWrite sockBufSize k.rx ((k.rxHead + k.rxCount) % sockBufSize) bytes
    rxCount := k.rxCount + bytes.length }

/-- One transfer of `sock_write` on `s` to its peer. -/
def transfer (st : State) (s peer : Addr) (bytes : List UInt8) : State :=
  let st := st.setSock peer (sockPush (st.sock peer) bytes)
  { st with sent := Function.update st.sent s (st.sent s ++ bytes) }.wakeWaiters

/-- The loop of `sock_write`. -/
def writeSegment (st : State) (t : Nat) (s : Addr) (buf : List UInt8) (written : Nat) :
    State × List Event :=
  if buf.length ≤ written then st.finish t (.wrote s written)
  else
    match (st.sock s).peer with
    | none => st.finish t (.wrote s written)
    | some peer =>
        let remaining := buf.length - written
        let space := sockBufSize - (st.sock peer).rxCount
        if (st.sock s).nonblock = true ∧
            (space = 0 ∨ (remaining ≤ sockBufSize ∧ space < remaining)) then
          st.finish t (.wrote s written)
        else if 0 < space then
          let n := min space remaining
          writeSegment (transfer st s peer ((buf.drop written).take n)) t s buf (written + n)
        else st.sleep t (.write s buf written)
termination_by buf.length - written

/-! ## Accepting and connecting -/

/-- `sock_sys_accept`, from the head of its loop on. -/
def acceptSegment (st : State) (t : Nat) (s : Addr) : State × List Event :=
  if (st.sock s).state ≠ .listening then st.finish t .failed
  else
    match (st.sock s).backlog with
    | conn :: rest =>
        let flags := (st.sock s).nonblock
        let st := st.setSock s { st.sock s with backlog := rest }
        let st := st.setSock conn { st.sock conn with nonblock := flags }
        match st.fdAlloc with
        | none => (st.sockDestroy conn).finish t .failed
        | some fd => ((st.setFd fd (.sock conn)).setTask t .outside, [])
    | [] =>
        if (st.sock s).nonblock then st.finish t .failed
        else st.sleep t (.accept s)

/-- `sock_alloc_rx` on a socket without a ring. -/
def allocRx (st : State) (a : Addr) : State :=
  if (st.sock a).hasRx then st
  else st.setSock a { st.sock a with hasRx := true, rxHead := 0, rxCount := 0 }

/-- The end of a successful `sock_sys_connect`. -/
def link (st : State) (s conn listener : Addr) : State :=
  let st := st.setSock conn { st.sock conn with state := .connected, peer := some s }
  let st := st.setSock s { st.sock s with state := .connected, peer := some conn }
  let st := st.setSock listener
    { st.sock listener with backlog := (st.sock listener).backlog ++ [conn] }
  st.wakeWaiters

/-- `sock_sys_connect`.  `conn` is the address the new socket gets, if there is
memory for it; `rings` whether there is memory for the rings of both ends. -/
def sockSysConnect (st : State) (fd : Nat) (name : CString) (conn : Option Addr) (rings : Bool) :
    State :=
  match st.sockFromFd fd, conn with
  | some s, some conn =>
      let st := st.sockNew conn false
      if !rings then { st with live := Function.update st.live conn false }
      else
        let st := allocRx (allocRx st conn) s
        match sockFindListener st name with
        | none => st.sockDestroy conn
        | some l =>
            if (st.sock s).state ≠ .unbound ∨ sockBacklog ≤ (st.sock l).backlog.length then
              st.sockDestroy conn
            else link st s conn l
  | _, _ => st

/-! ## The machine -/

/-- The steps: calls, the going on of a call that was woken, the end of a task, a
wake-up from elsewhere in the kernel, and descriptors of other kinds that come and go.  `mem` is the
address `kcalloc` finds for a new socket, if any. -/
inductive Op
  | socket (nonblock : Bool) (mem : Option Addr)
  | bind (fd : Nat) (name : CString)
  | listen (fd : Nat)
  | connect (fd : Nat) (name : CString) (mem : Option Addr) (rings : Bool)
  | accept (t fd : Nat)
  | read (t fd count : Nat)
  | write (t fd : Nat) (buf : List UInt8)
  | ioctl (fd : Nat) (nonblock : Bool)
  | close (fd : Nat)
  | resume (t : Nat)
  | kill (t : Nat)
  | wake
  | openOther
  | closeOther (fd : Nat)

/-- Memory that is in use is not given out again. -/
def State.available (st : State) (mem : Option Addr) : Option Addr :=
  mem.filter fun a => !st.live a

def sockSysSocket (st : State) (nonblock : Bool) (mem : Option Addr) : State :=
  match mem with
  | none => st
  | some a =>
      let made := st.sockNew a nonblock
      match made.fdAlloc with
      | none => { made with live := Function.update made.live a false }
      | some fd => made.setFd fd (.sock a)

def sockSysBind (st : State) (fd : Nat) (name : CString) : State :=
  match st.sockFromFd fd with
  | none => st
  | some s =>
      if name = [] ∨ sockNameMax ≤ name.length ∨ (st.sock s).state ≠ .unbound ∨
          (sockFindListener st name).isSome then st
      else st.setSock s { st.sock s with name := name, state := .bound }

def sockSysListen (st : State) (fd : Nat) : State :=
  match st.sockFromFd fd with
  | none => st
  | some s =>
      if (st.sock s).state ≠ .bound ∨ (sockFindListener st (st.sock s).name).isSome then st
      else
        { st.setSock s { st.sock s with state := .listening } with
          listeners := s :: st.listeners }

/-- `sock_close` and `fd_release`. -/
def sockClose (st : State) (fd : Nat) : State :=
  match st.sockFromFd fd with
  | none => st
  | some s => (st.sockDestroy s).setFd fd .free

/-- A call goes on. -/
def resumeCall (st : State) (t : Nat) : State × List Event :=
  match st.tasks t with
  | .inside (.read s count) false => readSegment st t s count
  | .inside (.write s buf written) false => writeSegment st t s buf written
  | .inside (.accept s) false => acceptSegment st t s
  | _ => (st, [])

/-- The first stretch of a call by a task outside: `sock_from_file`, then the body. -/
def enter (st : State) (t fd : Nat) (body : Addr → State × List Event) : State × List Event :=
  match st.tasks t, st.sockFromFd fd with
  | .outside, some s => body s
  | _, _ => (st, [])

/-- One step. -/
def step (st : State) : Op → State × List Event
  | .socket nonblock mem => (sockSysSocket st nonblock (st.available mem), [])
  | .bind fd name => (sockSysBind st fd name, [])
  | .listen fd => (sockSysListen st fd, [])
  | .connect fd name mem rings => (sockSysConnect st fd name (st.available mem) rings, [])
  | .accept t fd => enter st t fd (acceptSegment st t)
  | .read t fd count =>
      enter st t fd fun s => if count = 0 then (st, []) else readSegment st t s count
  | .write t fd buf =>
      enter st t fd fun s =>
        if (st.sock s).state ≠ .connected then (st, [.failed]) else writeSegment st t s buf 0
  | .ioctl fd nonblock =>
      match st.sockFromFd fd with
      | none => (st, [])
      | some s => (st.setSock s { st.sock s with nonblock := nonblock }, [])
  | .close fd => (sockClose st fd, [])
  | .resume t => resumeCall st t
  | .kill t => (st.setTask t .outside, [])
  | .wake => (st.wakeWaiters, [])
  | .openOther =>
      match st.fdAlloc with
      | none => (st, [])
      | some fd => (st.setFd fd .other, [])
  | .closeOther fd => if st.fds fd = .other then (st.setFd fd .free, []) else (st, [])

/-- Before the first call: no sockets, no descriptors of them, no call. -/
structure Start (st : State) : Prop where
  sock : ∀ a, st.sock a = {}
  live : ∀ a, st.live a = false
  listeners : st.listeners = []
  fds : ∀ fd a, st.fds fd ≠ .sock a
  tasks : ∀ t, st.tasks t = .outside

/-- The machine of local sockets. -/
def machine : Machine State Op Event where
  start := Start
  step := step

end Sock
