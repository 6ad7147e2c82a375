import StrawOS.Lib.SwapTable
import StrawOS.Mem.Contract

/-!
# The pages of user tasks

`user_pages.c`: the table of the page runs that tasks have asked for.  The table is
itself a block of the kernel heap that grows by `krealloc`; removal moves the last
record into the hole.  All other clients of the allocators may run in between: they
free their own blocks, not the runs and not the table.
-/

namespace Mem

open SwapTable (swapRemove sweepOut)

structure UserPageRun where
  addr : Nat
  count : UInt64
  owner : Nat
  deriving DecidableEq

/-- The run as a block of the page allocator. -/
def UserPageRun.block (r : UserPageRun) : Block := ⟨r.addr / pageSize, r.count.toNat, none⟩

/-- The allocators, and `user_runs` with the first `user_run_count` of its records,
the pointer and `user_run_cap`. -/
structure Users where
  base : State
  runs : List UserPageRun
  table : Option Nat
  cap : UInt64

/-- `sizeof (UserPageRun)`. -/
def recordSize : UInt64 := 24

def userPageCount (size : UInt64) : UInt64 := (size + 4096 - 1) / 4096

/-- The doubling of the table in `sys_mem_alloc`, where it is full. -/
def growTable (us : Users) : Bool × Users :=
  if us.runs.length = us.cap.toNat then
    let cap := if us.cap = 0 then 64 else us.cap * 2
    match step us.base (.krealloc us.table (cap * recordSize)) with
    | (base, [some p]) => (true, { us with base := base, table := some p, cap := cap })
    | (base, _) => (false, { us with base := base })
  else (true, us)

/-- `sys_mem_alloc` by a task. -/
def sysMemAlloc (us : Users) (task : Nat) (size : UInt64) : Option Nat × Users :=
  if size = 0 ∨ 18446744073709551615 - 4096 < size then (none, us)
  else
    let count := userPageCount size
    match growTable us with
    | (false, us) => (none, us)
    | (true, us) =>
        match step us.base (.pmmAllocPages count) with
        | (base, [some p]) => (some p, { us with base := base, runs := us.runs ++ [⟨p, count, task⟩] })
        | (base, _) => (none, { us with base := base })

/-- `pmm_free_pages` of a run. -/
def freeRun (base : State) (r : UserPageRun) : State :=
  (step base (.pmmFreePages (some r.addr) r.count)).1

/-- `sys_mem_free`: the result and the run that was freed. -/
def sysMemFree (us : Users) (addr : Option Nat) (size : UInt64) : Int × List UserPageRun × Users :=
  match addr with
  | none => (0, [], us)
  | some addr =>
      match us.runs.findIdx? fun r => r.addr == addr with
      | none => (-1, [], us)
      | some i =>
          match us.runs[i]? with
          | none => (-1, [], us)
          | some r =>
              if r.count ≠ userPageCount size then (-1, [], us)
              else (0, [r], { us with base := freeRun us.base r, runs := swapRemove us.runs i })

/-- `user_pages_release_task`, with the runs it frees. -/
def userPagesReleaseTask (us : Users) (task : Nat) : List UserPageRun × Users :=
  let r := sweepOut (fun r => r.owner == task)
    (fun (s : State × List UserPageRun) r => (freeRun s.1 r, s.2 ++ [r])) (us.base, []) us.runs 0
  (r.1.2, { us with base := r.1.1, runs := r.2 })

/-- The calls of tasks, the end of a task, and the other clients of the allocators. -/
inductive UserOp
  | memAlloc (task : Nat) (size : UInt64)
  | memFree (addr : Option Nat) (size : UInt64)
  | releaseTask (task : Nat)
  | kernel (op : Op)

/-- One step, with the runs that it frees. -/
def userStep (us : Users) : UserOp → Users × List UserPageRun
  | .memAlloc task size => ((sysMemAlloc us task size).2, [])
  | .memFree addr size => ((sysMemFree us addr size).2.2, (sysMemFree us addr size).2.1)
  | .releaseTask task => ((userPagesReleaseTask us task).2, (userPagesReleaseTask us task).1)
  | .kernel op => ({ us with base := (step us.base op).1 }, [])

/-- The block that a call frees or moves, by an address in its first page. -/
def Op.frees : Op → Option Nat
  | .pmmFreePage page => some page
  | .pmmFreePages (some pages) count => if count.toNat = 0 then none else some pages
  | .krealloc (some ptr) _ => some ptr
  | .kfree (some ptr) => some ptr
  | _ => none

/-- Other clients free live blocks of their own. -/
def userPermitted (us : Users) : UserOp → Prop
  | .kernel op => permitted us.base op ∧ ∀ a, op.frees = some a →
      (∀ r ∈ us.runs, a / pageSize ≠ r.addr / pageSize) ∧
      ∀ p, us.table = some p → a / pageSize ≠ p / pageSize
  | _ => True

/-- The machine: the table is empty and not allocated, after any calls that other
clients have made since `pmm_init`. -/
def userMachine (boot : BootInfo) : Machine Users UserOp UserPageRun where
  start us := (machine boot).Reachable permitted us.base ∧ us.runs = [] ∧ us.table = none ∧ us.cap = 0
  step := userStep

/-! ## What calls leave alone -/

variable {off : Nat} {avail : Finset Nat} {highest : Nat} {st : State}

theorem mem_drop {b : Block} {a : Nat} (hb : b ∈ st.live) (hne : a / pageSize ≠ b.page) :
    b ∈ st.drop a := by
  rw [State.drop, List.mem_eraseP_of_neg (by simpa using Ne.symm hne)]
  exact hb

theorem giveOut_live {st' : State} {r : Option Nat × Heap} {count : Nat} {size : Option Nat}
    {b : Block} (hb : b ∈ st'.live) : b ∈ (st'.giveOut r count size).1.live := by
  obtain ⟨a, h⟩ := r
  cases a with
  | none => exact hb
  | some a => exact List.mem_cons_of_mem _ hb

theorem step_keeps {b : Block} (hb : b ∈ st.live) {op : Op}
    (hne : ∀ a, op.frees = some a → a / pageSize ≠ b.page) : b ∈ (step st op).1.live := by
  cases op with
  | pmmAllocPage => exact giveOut_live hb
  | pmmAllocPages count => exact giveOut_live hb
  | pmmFreePage page => exact mem_drop hb (hne page rfl)
  | pmmFreePages pages count =>
    cases pages with
    | none => exact hb
    | some a =>
      by_cases hzero : count.toNat = 0
      · simp only [step, hzero, if_true]
        exact hb
      · simp only [step, hzero, if_false]
        exact mem_drop hb (hne a (by simp [Op.frees, hzero]))
  | kmalloc size => exact giveOut_live hb
  | kcalloc nmemb size => exact giveOut_live hb
  | krealloc ptr newSize =>
    cases ptr with
    | none => exact giveOut_live hb
    | some ptr =>
      have hdrop := mem_drop hb (hne ptr rfl)
      by_cases hzero : newSize.toNat = 0
      · simp only [step, hzero, if_true]
        exact hdrop
      · simp only [step, hzero, if_false]
        split
        · exact hb
        · exact giveOut_live hdrop
  | kfree ptr =>
    cases ptr with
    | none => exact hb
    | some ptr => exact mem_drop hb (hne ptr rfl)
  | store addr byte => exact hb

end Mem
