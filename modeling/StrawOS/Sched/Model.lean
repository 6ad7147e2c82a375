import StrawOS.Lib.Machine
import StrawOS.Lib.Ring

/-!
# The scheduler

`task.c`: tasks, the run queue and the CPUs.  Everything here runs under the big
kernel lock, so a step is one call, up to the switch to another task where it makes
one.  Stacks, images and what a task owns besides are left out.

The run queue is a ring through the `next` pointers of the tasks; its loops go once
around from the head, which is never more turns than there are tasks.
-/

namespace Sched

inductive TaskState
  | ready
  | running
  | sleeping
  | dead
  deriving DecidableEq

/-- A `Task *`. -/
abbrev Addr := Nat

/-- `Task`, less `next`; the defaults are the zeroed object. -/
structure Task where
  state : TaskState := .ready
  wakeTick : UInt64 := 0
  waiting : Bool := false
  pid : UInt64 := 0
  killPending : Bool := false
  inKcall : Bool := false
  reschedPending : Bool := false

structure Cpu where
  current : Addr
  idle : Addr

def cpuMax : Nat := 64

/-- The static variables of `task.c` and `smp.c`: `cpus` up to `cpuCount`, `task_list`,
the run queue with all `next` pointers, `g_tick_count` and `next_pid`. -/
structure State where
  task : Addr → Task
  taskList : List Addr
  runQueue : Ring.Links Addr
  cpus : Nat → Cpu
  cpuCount : Nat
  tickCount : UInt64
  nextPid : UInt64

namespace State

variable (st : State)

def current (c : Nat) : Addr := (st.cpus c).current

def idle (c : Nat) : Addr := (st.cpus c).idle

/-- Write a task. -/
def setTask (t : Addr) (k : Task) : State := { st with task := Function.update st.task t k }

/-- The tasks of the run queue in the order of a loop over it. -/
def queued : List Addr :=
  match st.runQueue.head with
  | none => []
  | some h => Ring.orbit st.runQueue.next h st.taskList.length h

/-- `pick_next`: the first ready task from the one behind the head on. -/
def pickNext : Option Addr :=
  match st.runQueue.head with
  | none => none
  | some h =>
      ((Ring.orbit st.runQueue.next h st.taskList.length h).tail ++ [h]).find? fun t =>
        (st.task t).state == .ready

/-- `schedule`, up to the choice: the state the running task is left in. -/
def retire (c : Nat) (prevState : TaskState) : State :=
  if (st.task (st.current c)).state = .running then
    st.setTask (st.current c) { st.task (st.current c) with state := prevState }
  else st

/-- `schedule`, the choice. -/
def chooseNext (c : Nat) : Addr :=
  match st.pickNext with
  | some t => t
  | none =>
      if st.current c ≠ st.idle c ∧ (st.task (st.current c)).state = .ready then st.current c
      else st.idle c

/-- `schedule`, the switch.  The task that goes on leaves the `task_block` it may have
been in, which clears `waiting`. -/
def dispatch (c : Nat) : State :=
  let prev := st.current c
  let next := st.chooseNext c
  let head := match st.pickNext with
    | some t => some t
    | none => st.runQueue.head
  let st := { st with runQueue := { st.runQueue with head := head } }
  let st := st.setTask next { st.task next with state := .running, waiting := false }
  let st := st.setTask prev { st.task prev with reschedPending := false }
  { st with cpus := Function.update st.cpus c { st.cpus c with current := next } }

def schedule (c : Nat) (prevState : TaskState) : State := (st.retire c prevState).dispatch c

/-- A sleeping task becomes ready under a condition. -/
def wakeIf (p : Task → Bool) (t : Addr) : State :=
  if (st.task t).state = .sleeping ∧ p (st.task t) then
    st.setTask t { st.task t with state := .ready }
  else st

def wakeSleepers (now : UInt64) : State :=
  st.queued.foldl (fun st t => st.wakeIf (fun k => decide (now - k.wakeTick < 9223372036854775808)) t) st

def taskWakeWaiters : State :=
  st.queued.foldl (fun st t => st.wakeIf (fun k => k.waiting) t) st

/-- `task_scheduler_tick` on a CPU. -/
def taskSchedulerTick (c : Nat) : State :=
  let st := if c = 0 then
      { st with tickCount := st.tickCount + 1 }.wakeSleepers (st.tickCount + 1)
    else st
  let t := st.current c
  if (st.task t).inKcall then st.setTask t { st.task t with reschedPending := true }
  else st.schedule c .ready

/-- A number of milliseconds in ticks, at least one. -/
def toTicks (ms : UInt32) : UInt64 :=
  let ticks := (ms.toUInt64 * 1000 + 1000 - 1) / 1000
  if ticks = 0 then 1 else ticks

/-- `task_sleep_ms` by the current task. -/
def taskSleepMs (c : Nat) (ms : UInt32) : State :=
  let t := st.current c
  let st := st.setTask t { st.task t with wakeTick := st.tickCount + toTicks ms }
  st.schedule c .sleeping

def taskBlockForever : UInt32 := 0xFFFFFFFF

/-- `task_block` by the current task. -/
def taskBlock (c : Nat) (timeoutMs : UInt32) : State :=
  let t := st.current c
  let ticks := if timeoutMs = taskBlockForever then 4611686018427387904 else toTicks timeoutMs
  let st := st.setTask t { st.task t with wakeTick := st.tickCount + ticks, waiting := true }
  st.schedule c .sleeping

/-- `task_exit` by the current task: it is never switched to again. -/
def taskExit (c : Nat) : State :=
  let t := st.current c
  (st.setTask t { st.task t with state := .dead }).dispatch c

def taskFind (pid : UInt64) : Option Addr :=
  if pid = 0 then none else st.taskList.find? fun t => (st.task t).pid == pid

/-- `task_kill` by the current task of a CPU. -/
def taskKill (c : Nat) (t : Addr) : State :=
  if (st.task t).state = .dead then st
  else if t = st.current c then st.taskExit c
  else if (st.task t).state = .running then st.setTask t { st.task t with killPending := true }
  else
    let st := st.setTask t { st.task t with state := .dead }
    { st with
      runQueue := Ring.remove st.runQueue t st.taskList.length
      taskList := st.taskList.erase t }

/-- `sys_kill`; the kernel task is the idle task of the first CPU. -/
def sysKill (c : Nat) (pid : UInt64) : State :=
  match st.taskFind pid with
  | none => st
  | some t => if t = st.idle 0 then st else st.taskKill c t

/-- `task_create_with`, at the address that `kmalloc` found, if there was memory. -/
def taskCreate (a : Addr) : State :=
  if a ∈ st.taskList then st
  else
    { st with
      task := Function.update st.task a { pid := st.nextPid }
      taskList := a :: st.taskList
      runQueue := Ring.push st.runQueue a
      nextPid := st.nextPid + 1 }

/-- A CPU comes up in `smp_init`, in its idle task. -/
def bringUp (a : Addr) : State :=
  if st.cpuCount = cpuMax ∨ a ∈ st.taskList then st
  else
    { st with
      task := Function.update st.task a { state := .running }
      taskList := a :: st.taskList
      cpus := Function.update st.cpus st.cpuCount ⟨a, a⟩
      cpuCount := st.cpuCount + 1 }

end State

/-- The calls, each on a CPU, and the comings and goings of kernel calls. -/
inductive Op
  | create (a : Addr)
  | bringUp (a : Addr)
  | yield (c : Nat)
  | tick (c : Nat)
  | sleep (c : Nat) (ms : UInt32)
  | block (c : Nat) (timeoutMs : UInt32)
  | wakeWaiters
  | kill (c : Nat) (pid : UInt64)
  | exit (c : Nat)
  | checkKill (c : Nat)
  | enterKcall (c : Nat)
  | leaveKcall (c : Nat)

/-- A CPU that is up does something. -/
def on (st : State) (c : Nat) (f : State → State) : State := if c < st.cpuCount then f st else st

/-- One step.  The idle loop makes no calls, so it does not exit. -/
def step (st : State) : Op → State × List Unit
  | .create a => (st.taskCreate a, [])
  | .bringUp a => (st.bringUp a, [])
  | .yield c => (on st c fun st => st.schedule c .ready, [])
  | .tick c => (on st c fun st => st.taskSchedulerTick c, [])
  | .sleep c ms => (on st c fun st => st.taskSleepMs c ms, [])
  | .block c timeoutMs => (on st c fun st => st.taskBlock c timeoutMs, [])
  | .wakeWaiters => (st.taskWakeWaiters, [])
  | .kill c pid => (on st c fun st => st.sysKill c pid, [])
  | .exit c => (on st c fun st => if st.current c = st.idle c then st else st.taskExit c, [])
  | .checkKill c =>
      (on st c fun st =>
        if (st.task (st.current c)).killPending then st.taskExit c else st, [])
  | .enterKcall c =>
      (on st c fun st =>
        st.setTask (st.current c) { st.task (st.current c) with inKcall := true }, [])
  | .leaveKcall c =>
      (on st c fun st =>
        let t := st.current c
        let st := st.setTask t { st.task t with inKcall := false }
        if (st.task t).reschedPending then st.schedule c .ready else st, [])

/-- After `task_init`: the kernel runs on the first CPU. -/
structure Start (st : State) : Prop where
  taskList : st.taskList = [st.idle 0]
  cpuCount : st.cpuCount = 1
  current : st.current 0 = st.idle 0
  state : (st.task (st.idle 0)).state = .running
  pid : (st.task (st.idle 0)).pid = 0
  killPending : (st.task (st.idle 0)).killPending = false
  runQueue : st.runQueue.head = none

/-- The machine of the scheduler. -/
def machine : Machine State Op Unit where
  start := Start
  step := step

end Sched
