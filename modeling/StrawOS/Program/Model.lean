import StrawOS.Desc.Redirect
import StrawOS.Mem.Holdings

/-!
# What a task owns

`task.c` over the allocators and the descriptors.  A task is a block of the heap with a
stack; a program has an image and its arguments besides, which are three blocks.
`task_exec_elf` acquires all of them one after the other, and gives back what it has got
so far where a step fails.  `task_exit` and `task_kill` each have a list of their own of
what to give back.

What the file says, and what is in the image, is part of the call.
-/

namespace Program

open Sched (Addr)
open Mem (Holding Users userPagesReleaseTask sysMemAlloc sysMemFree)

/-- `TaskArgs`, less the count: the block itself, `backing` and `argv`. -/
structure TaskArgs where
  self : Nat
  backing : Nat
  argv : Nat
  deriving DecidableEq

/-- `ElfImage`, less the bias. -/
structure ElfImage where
  base : Nat
  pageCount : UInt64
  entry : UInt64
  deriving DecidableEq

/-- `stack_base` and `stack_pages`. -/
structure Stack where
  base : Nat
  pages : UInt64
  deriving DecidableEq

/-- `args`, `image` while `owns_image`, and the stack; the defaults are the zeroed object. -/
structure Owned where
  args : Option TaskArgs := none
  image : Option ElfImage := none
  stack : Option Stack := none

/-- The arguments as blocks. -/
def TaskArgs.holdings (args : TaskArgs) : List Holding :=
  [.heap args.argv, .heap args.backing, .heap args.self]

/-- The image as a run of pages. -/
def ElfImage.holdings (image : ElfImage) : List Holding := [.pages image.base image.pageCount]

/-- The stack as a run of pages. -/
def Stack.holdings (stack : Stack) : List Holding := [.pages stack.base stack.pages]

/-- What is owned, in the order in which `task_exit` gives it back. -/
def Owned.holdings (o : Owned) : List Holding :=
  o.args.elim [] TaskArgs.holdings ++ o.image.elim [] ElfImage.holdings ++
    o.stack.elim [] Stack.holdings

/-- The tasks with their descriptors, the allocators, and what each task owns. -/
structure World where
  desc : Desc.State
  mem : Users
  owned : Addr → Owned

/-- `sizeof (Task)`. -/
def taskSize : UInt64 := 976

/-- `sizeof (TaskArgs)`. -/
def taskArgsSize : UInt64 := 24

/-- `TASK_STACK_SIZE / PAGE_SIZE`. -/
def taskStackPages : UInt64 := 64

/-- `TASK_IDLE_STACK_SIZE / PAGE_SIZE`. -/
def taskIdleStackPages : UInt64 := 16

/-- The characters of a C string, less the zero at its end. -/
abbrev CString := List UInt8

/-- The room that the path and the arguments need. -/
def backingSize (path : CString) (argv : List CString) : UInt64 :=
  .ofNat (path.length + 1 + (argv.map fun arg => arg.length + 1).sum)

def taskArgsFromArgv (us : Users) (path : CString) (argv : List CString) :
    Option TaskArgs × Users :=
  match us.kmalloc taskArgsSize with
  | (none, us) => (none, us)
  | (some self, us) =>
      match us.kmalloc (backingSize path argv) with
      | (none, us) => (none, us.kfree self)
      | (some backing, us) =>
          match us.kmalloc (8 * .ofNat (argv.length + 1)) with
          | (none, us) => (none, (us.kfree backing).kfree self)
          | (some table, us) => (some ⟨self, backing, table⟩, us)

def taskArgsFree (us : Users) : Option TaskArgs → Users
  | none => us
  | some args => ((us.kfree args.argv).kfree args.backing).kfree args.self

/-- `elf_unload_image`, of a task that owns its image. -/
def elfUnloadImage (us : Users) : Option ElfImage → Users
  | none => us
  | some image => us.pmmFreePages image.base image.pageCount

/-- The stack is given back. -/
def stackFree (us : Users) : Option Stack → Users
  | none => us
  | some stack => us.pmmFreePages stack.base stack.pages

/-- What `elf_load_image` makes of a file: it rejects it, or it asks for pages and then
fills them, or finds that it cannot. -/
inductive Elf
  | rejected
  | placed (pageCount : UInt64) (entry : UInt64) (filled : Bool)

def elfLoadImage (us : Users) : Elf → Option ElfImage × Users
  | .rejected => (none, us)
  | .placed pageCount entry filled =>
      match us.pmmAllocPages pageCount with
      | (none, us) => (none, us)
      | (some base, us) =>
          if filled then (some ⟨base, pageCount, entry⟩, us)
          else (none, us.pmmFreePages base pageCount)

/-- What the file system says of a path: there is no regular file that opens and has
bytes, or there is one, it can be read in full or not, and it has contents. -/
inductive File
  | missing
  | found (size : UInt64) (readInFull : Bool) (elf : Elf)

/-- The part of `task_exec_elf` that reads the file. -/
def readImage (us : Users) : File → Option ElfImage × Users
  | .missing => (none, us)
  | .found size readInFull elf =>
      match us.kmalloc size with
      | (none, us) => (none, us)
      | (some buf, us) =>
          if !readInFull then (none, us.kfree buf)
          else
            let (image, us) := elfLoadImage us elf
            (image, us.kfree buf)

/-- What a new task gets in `task_new_common` and in `task_create_idle`. -/
def taskNew (us : Users) (pages : UInt64) : Option (Addr × Stack) × Users :=
  match us.kmalloc taskSize with
  | (none, us) => (none, us)
  | (some t, us) =>
      match us.pmmAllocPages pages with
      | (none, us) => (none, us.kfree t)
      | (some stack, us) => (some (t, ⟨stack, pages⟩), us)

/-- What `task_create_from_image` gets: nothing for an image with no entry. -/
def taskNewFromImage (us : Users) (image : ElfImage) : Option (Addr × Stack) × Users :=
  if image.entry = 0 then (none, us) else taskNew us taskStackPages

/-- The arguments of `task_exec_elf`, and the file. -/
structure Exec where
  path : Option CString
  argv : List CString
  file : File

namespace World

variable (w : World)

/-- `task_exec_elf` by the current task of a CPU. -/
def taskExecElf (c : Nat) (x : Exec) : Option Addr × World :=
  match x.path with
  | none => (none, w)
  | some path =>
      match taskArgsFromArgv w.mem path x.argv with
      | (none, us) => (none, { w with mem := us })
      | (some args, us) =>
          match readImage us x.file with
          | (none, us) => (none, { w with mem := taskArgsFree us (some args) })
          | (some image, us) =>
              match taskNewFromImage us image with
              | (none, us) =>
                  (none, { w with mem := taskArgsFree (elfUnloadImage us (some image)) (some args) })
              | (some (t, stack), us) =>
                  (some t,
                    { desc := w.desc.taskExecElf c t
                      mem := us
                      owned := Function.update w.owned t ⟨some args, some image, some stack⟩ })

def taskCreate : World :=
  match taskNew w.mem taskStackPages with
  | (none, us) => { w with mem := us }
  | (some (t, stack), us) =>
      { desc := w.desc.taskCreate t
        mem := us
        owned := Function.update w.owned t { stack := some stack } }

/-- `task_create_idle`, for a CPU that comes up. -/
def bringUp : World :=
  if w.desc.sched.cpuCount = Sched.cpuMax then w
  else
    match taskNew w.mem taskIdleStackPages with
    | (none, us) => { w with mem := us }
    | (some (t, stack), us) =>
        { desc := w.desc.bringUp t
          mem := us
          owned := Function.update w.owned t { stack := some stack } }

/-- `task_exit` by the current task.  The task itself stays, for `sys_task_status`. -/
def taskExit (c : Nat) : World :=
  let t := w.desc.sched.current c
  let us := (userPagesReleaseTask w.mem t).2
  let us := taskArgsFree us (w.owned t).args
  let us := elfUnloadImage us (w.owned t).image
  { desc := w.desc.taskExit c
    mem := stackFree us (w.owned t).stack
    owned := Function.update w.owned t {} }

/-- `task_kill` by the current task of a CPU; it does not return where that kills itself. -/
def taskKill (c : Nat) (t : Addr) : Option Bool × World :=
  if (w.desc.sched.task t).state = .dead then (some false, w)
  else if t = w.desc.sched.current c then (none, w.taskExit c)
  else if (w.desc.sched.task t).state = .running then
    (some true, { w with desc := w.desc.taskKill c t })
  else
    let us := (userPagesReleaseTask w.mem t).2
    let us := elfUnloadImage us (w.owned t).image
    let us := stackFree us (w.owned t).stack
    (some true,
      { desc := w.desc.taskKill c t
        mem := us.kfree t
        owned := Function.update w.owned t {} })

def sysKill (c : Nat) (pid : UInt64) : World :=
  match w.desc.sched.taskFind pid with
  | none => w
  | some t => if t = w.desc.sched.idle 0 then w else (w.taskKill c t).2

/-- What a task holds: what it owns, and itself. -/
def holdingsOf (t : Addr) : List Holding := (w.owned t).holdings ++ [.heap t]

/-- What the tasks hold. -/
def holdings : List Holding := w.desc.sched.taskList.flatMap w.holdingsOf

end World

/-- The calls, and what the rest of the kernel does with descriptors and memory. -/
inductive Op
  | exec (c : Nat) (x : Exec)
  | create
  | bringUp
  | memAlloc (c : Nat) (size : UInt64)
  | memFree (addr : Option Nat) (size : UInt64)
  | exit (c : Nat)
  | checkKill (c : Nat)
  | kill (c : Nat) (pid : UInt64)
  | desc (op : Desc.Op)
  | kernel (op : Mem.Op)

/-- A CPU that is up does something. -/
def on (w : World) (c : Nat) (f : World → World) : World := if c < w.desc.sched.cpuCount then f w else w

/-- One step. -/
def step (w : World) : Op → World × List Unit
  | .exec c x => (on w c fun w => (w.taskExecElf c x).2, [])
  | .create => (w.taskCreate, [])
  | .bringUp => (w.bringUp, [])
  | .memAlloc c size =>
      (on w c fun w => { w with mem := (sysMemAlloc w.mem (w.desc.sched.current c) size).2 }, [])
  | .memFree addr size => ({ w with mem := (sysMemFree w.mem addr size).2.2 }, [])
  | .exit c =>
      (on w c fun w =>
        if w.desc.sched.current c = w.desc.sched.idle c then w else w.taskExit c, [])
  | .checkKill c =>
      (on w c fun w =>
        if (w.desc.sched.task (w.desc.sched.current c)).killPending then w.taskExit c else w, [])
  | .kill c pid => (on w c fun w => w.sysKill c pid, [])
  | .desc op => ({ w with desc := (Desc.step w.desc op).1 }, [])
  | .kernel op => ({ w with mem := w.mem.call op }, [])

/-- A call on descriptors, or a step of the scheduler: it makes no task and ends none. -/
def Plain : Desc.Op → Prop
  | .spawn _ _ | .create _ | .bringUp _ | .exit _ | .checkKill _ | .kill _ _ => False
  | _ => True

/-- Other clients of the allocators free live blocks of their own. -/
def permitted (w : World) : Op → Prop
  | .desc op => Plain op
  | .kernel op => Mem.userPermitted w.mem (.kernel op) ∧
      ∀ a, op.frees = some a → ∀ x ∈ w.holdings, a / Mem.pageSize ≠ x.page
  | _ => True

/-- After `task_init`: the kernel is the only task. -/
structure Start (boot : Mem.BootInfo) (w : World) : Prop where
  desc : Desc.Start w.desc
  base : (Mem.machine boot).Reachable Mem.permitted w.mem.base
  runs : w.mem.runs = []
  table : w.mem.table = none
  cap : w.mem.cap = 0
  kernelTask : ∃ b ∈ w.mem.base.live, b.HeapAt (w.desc.sched.idle 0) taskSize.toNat
  owned : ∀ t, w.owned t = {}

/-- The machine of the programs. -/
def machine (boot : Mem.BootInfo) : Machine World Op Unit where
  start := Start boot
  step := step

end Program
