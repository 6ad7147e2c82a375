import StrawOS.Sched.Runs

/-!
# Descriptors

The descriptor table of `fs_kcalls.c` over the scheduler.  The table is one for all
tasks; each task has three cells `stdio` that lead its descriptors 0, 1 and 2 to
others.  What the file system answers (whether a file opens, what closing it returns,
whether a program loads) is part of the call.

Each use of a slot gets a serial number when `fd_alloc` takes it, which the source does
not have: it tells one open descriptor from a later one of the same number.
-/

namespace Desc

open Sched (Addr)

def fdMax : Nat := 1024

def fdInvalid : Int := -1

/-- `FdSlot`, less the file. -/
structure FdSlot where
  used : Bool := false
  owner : Option Addr := none
  serial : Nat := 0

/-- The scheduler, `fd_table`, and of each task `stdio` and `detached`. -/
structure State where
  sched : Sched.State
  slot : Nat → FdSlot
  stdio : Addr → Fin 3 → Int
  detached : Addr → Bool
  opens : Nat

namespace State

variable (st : State)

/-- `fd_alloc` by the current task. -/
def fdAlloc (c : Nat) : State × Option Nat :=
  match (List.range fdMax).find? fun i => !(st.slot i).used with
  | none => (st, none)
  | some i =>
      ({ st with
          slot := Function.update st.slot i ⟨true, some (st.sched.current c), st.opens⟩
          opens := st.opens + 1 }, some i)

def taskForgetFd (fd : Nat) : State :=
  { st with
    stdio := fun t k =>
      if t ∈ st.sched.taskList ∧ st.stdio t k = fd then -1 else st.stdio t k }

def fdRelease (fd : Nat) : State :=
  let st := st.taskForgetFd fd
  { st with slot := Function.update st.slot fd { st.slot fd with used := false, owner := none } }

def fsReleaseTask (t : Addr) : State :=
  (List.range' 3 (fdMax - 3)).foldl (fun st i =>
    if (st.slot i).used ∧ (st.slot i).owner = some t then st.fdRelease i else st) st

def fdValid (fd : Int) : Bool :=
  decide (0 ≤ fd) && decide (fd < fdMax) && (st.slot fd.toNat).used

/-- `fd_resolve` by the current task. -/
def fdResolve (c : Nat) (fd : Int) : Int :=
  if h : 0 ≤ fd ∧ fd < 3 then
    let cell := st.stdio (st.sched.current c) ⟨fd.toNat, by omega⟩
    if 0 ≤ cell ∧ st.fdValid cell then cell else fd
  else fd

/-- Write a cell of a task. -/
def setStdio (t : Addr) (k : Fin 3) (fd : Int) : State :=
  { st with stdio := Function.update st.stdio t (Function.update (st.stdio t) k fd) }

def fsSysDup2 (c : Nat) (fd target : Int) : State × Int :=
  if h : target < 0 ∨ target > 2 then (st, -1)
  else
    let t := st.sched.current c
    let k : Fin 3 := ⟨target.toNat, by omega⟩
    if fd < 0 then
      let st := st.setStdio t k (-1)
      ({ st with detached := if target = 0 then Function.update st.detached t true else st.detached },
        0)
    else
      let fd := st.fdResolve c fd
      if ¬st.fdValid fd ∨ fd < 3 then (st, -1)
      else (st.setStdio t k fd, target)

/-- `fs_sys_open`, with what `vfs_open` says. -/
def fsSysOpen (c : Nat) (opened : Bool) : State × Int :=
  match st.fdAlloc c with
  | (st, none) => (st, fdInvalid)
  | (st, some fd) => if opened then (st, fd) else (st.fdRelease fd, fdInvalid)

/-- `fs_sys_close`, with what `vfs_close` returns. -/
def fsSysClose (c : Nat) (fd rc : Int) : State × Int :=
  if fd < 3 then
    if h : 0 ≤ fd ∧ fd < 3 then (st.setStdio (st.sched.current c) ⟨fd.toNat, by omega⟩ (-1), 0)
    else (st, 0)
  else if !st.fdValid fd then (st, -1)
  else (st.fdRelease fd.toNat, rc)

/-- A new task, `task_new_common` or `task_create_idle`: its cells lead nowhere. -/
def clearStdio (a : Addr) : State :=
  { st with
    stdio := Function.update st.stdio a fun _ => -1
    detached := Function.update st.detached a false }

def taskCreate (a : Addr) : State :=
  if a ∈ st.sched.taskList then st
  else { st.clearStdio a with sched := st.sched.taskCreate a }

/-- `task_create_idle`, for a CPU that comes up. -/
def bringUp (a : Addr) : State :=
  if st.sched.cpuCount = Sched.cpuMax ∨ a ∈ st.sched.taskList then st
  else { st.clearStdio a with sched := st.sched.bringUp a }

/-- `task_exec_elf`, where the program loads. -/
def taskExecElf (c : Nat) (a : Addr) : State :=
  if a ∈ st.sched.taskList then st
  else
    let cur := st.sched.current c
    let st := st.taskCreate a
    { st with stdio := Function.update st.stdio a (st.stdio cur) }

def taskExit (c : Nat) : State :=
  { st.fsReleaseTask (st.sched.current c) with sched := st.sched.taskExit c }

def taskKill (c : Nat) (t : Addr) : State :=
  if (st.sched.task t).state = .dead then st
  else if t = st.sched.current c then st.taskExit c
  else if (st.sched.task t).state = .running then { st with sched := st.sched.taskKill c t }
  else { st.fsReleaseTask t with sched := st.sched.taskKill c t }

def sysKill (c : Nat) (pid : UInt64) : State :=
  match st.sched.taskFind pid with
  | none => st
  | some t => if t = st.sched.idle 0 then st else st.taskKill c t

end State

/-- The calls, by the current task of a CPU, and the other steps of the scheduler. -/
inductive Op
  | openFile (c : Nat) (opened : Bool)
  | close (c : Nat) (fd rc : Int)
  | dup2 (c : Nat) (fd target : Int)
  | spawn (c : Nat) (a : Addr)
  | create (a : Addr)
  | bringUp (a : Addr)
  | exit (c : Nat)
  | checkKill (c : Nat)
  | kill (c : Nat) (pid : UInt64)
  | yield (c : Nat)
  | tick (c : Nat)
  | sleep (c : Nat) (ms : UInt32)
  | block (c : Nat) (timeoutMs : UInt32)
  | wakeWaiters
  | enterKcall (c : Nat)
  | leaveKcall (c : Nat)

/-- A call by a CPU that is up, with what it returns. -/
def call (st : State) (c : Nat) (f : State → State × Int) : State × List Int :=
  if c < st.sched.cpuCount then ((f st).1, [(f st).2]) else (st, [])

/-- A step that returns nothing. -/
def on (st : State) (c : Nat) (f : State → State) : State × List Int :=
  if c < st.sched.cpuCount then (f st, []) else (st, [])

/-- A step of the scheduler that ends no task and makes none. -/
def move (st : State) (op : Sched.Op) : State × List Int :=
  ({ st with sched := (Sched.step st.sched op).1 }, [])

/-- One step. -/
def step (st : State) : Op → State × List Int
  | .openFile c opened => call st c fun st => st.fsSysOpen c opened
  | .close c fd rc => call st c fun st => st.fsSysClose c fd rc
  | .dup2 c fd target => call st c fun st => st.fsSysDup2 c fd target
  | .spawn c a => on st c fun st => st.taskExecElf c a
  | .create a => (st.taskCreate a, [])
  | .bringUp a => (st.bringUp a, [])
  | .exit c =>
      on st c fun st => if st.sched.current c = st.sched.idle c then st else st.taskExit c
  | .checkKill c =>
      on st c fun st =>
        if (st.sched.task (st.sched.current c)).killPending then st.taskExit c else st
  | .kill c pid => on st c fun st => st.sysKill c pid
  | .yield c => move st (.yield c)
  | .tick c => move st (.tick c)
  | .sleep c ms => move st (.sleep c ms)
  | .block c timeoutMs => move st (.block c timeoutMs)
  | .wakeWaiters => move st .wakeWaiters
  | .enterKcall c => move st (.enterKcall c)
  | .leaveKcall c => move st (.leaveKcall c)

/-- After `fs_kcalls_init` and `task_init`. -/
structure Start (st : State) : Prop where
  sched : Sched.Start st.sched
  slot : ∀ i, st.slot i = { used := decide (i < 3) }
  stdio : ∀ k, st.stdio (st.sched.idle 0) k = -1
  opens : st.opens = 1

/-- The machine of the descriptors. -/
def machine : Machine State Op Int where
  start := Start
  step := step

end Desc
