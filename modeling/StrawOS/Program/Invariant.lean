import StrawOS.Program.Model

/-!
# The holdings of the tasks

In every reachable state what the tasks hold are live blocks apart from one another,
and no others are held by them.  Each part of `task_exec_elf` either adds what it
acquires, or leaves the holdings as they were.
-/

namespace Program

open Sched (Addr)
open Mem (Holding Holds Users userPagesReleaseTask)

variable {off : Nat} {avail : Finset Nat} {highest : Nat} {us us' : Users} {xs : List Holding}

/-! ## Acquiring -/

theorem kmalloc_holds (h : Holds off avail highest us xs) {size : UInt64} {r : Option Nat}
    (hr : us.kmalloc size = (r, us')) :
    Holds off avail highest us' (r.elim [] (fun p => [.heap p]) ++ xs) := by
  have hgot := h.kmalloc size
  rw [hr] at hgot
  cases r with
  | none => exact hgot
  | some p => exact hgot

theorem pmmAllocPages_holds (h : Holds off avail highest us xs) {count : UInt64} {r : Option Nat}
    (hr : us.pmmAllocPages count = (r, us')) :
    Holds off avail highest us' (r.elim [] (fun p => [.pages p count]) ++ xs) := by
  have hgot := h.pmmAllocPages count
  rw [hr] at hgot
  cases r with
  | none => exact hgot
  | some p => exact hgot

/-- **`task_args_from_argv`** acquires three blocks, or none. -/
theorem taskArgsFromArgv_holds (h : Holds off avail highest us xs) {path : CString}
    {argv : List CString} {r : Option TaskArgs} (hr : taskArgsFromArgv us path argv = (r, us')) :
    Holds off avail highest us' (r.elim [] TaskArgs.holdings ++ xs) := by
  unfold taskArgsFromArgv at hr
  split at hr
  · rename_i us1 hself
    obtain ⟨rfl, rfl⟩ := Prod.mk.inj hr
    exact kmalloc_holds h hself
  rename_i self us1 hself
  have h1 := kmalloc_holds h hself
  split at hr
  · rename_i us2 hbacking
    obtain ⟨rfl, rfl⟩ := Prod.mk.inj hr
    exact (kmalloc_holds h1 hbacking).free.1
  rename_i backing us2 hbacking
  have h2 := kmalloc_holds h1 hbacking
  split at hr
  · rename_i us3 htable
    obtain ⟨rfl, rfl⟩ := Prod.mk.inj hr
    exact (kmalloc_holds h2 htable).free.1.free.1
  · rename_i table us3 htable
    obtain ⟨rfl, rfl⟩ := Prod.mk.inj hr
    exact kmalloc_holds h2 htable

/-- **`elf_load_image`** acquires the pages of the image, or none. -/
theorem elfLoadImage_holds (h : Holds off avail highest us xs) {elf : Elf} {r : Option ElfImage}
    (hr : elfLoadImage us elf = (r, us')) :
    Holds off avail highest us' (r.elim [] ElfImage.holdings ++ xs) := by
  unfold elfLoadImage at hr
  split at hr
  · obtain ⟨rfl, rfl⟩ := Prod.mk.inj hr
    exact h
  split at hr
  · rename_i us1 hpages
    obtain ⟨rfl, rfl⟩ := Prod.mk.inj hr
    exact pmmAllocPages_holds h hpages
  rename_i base us1 hpages
  have h1 := pmmAllocPages_holds h hpages
  split at hr
  · obtain ⟨rfl, rfl⟩ := Prod.mk.inj hr
    exact h1
  · obtain ⟨rfl, rfl⟩ := Prod.mk.inj hr
    exact h1.free.1

theorem readImage_holds (h : Holds off avail highest us xs) {file : File} {r : Option ElfImage}
    (hr : readImage us file = (r, us')) :
    Holds off avail highest us' (r.elim [] ElfImage.holdings ++ xs) := by
  unfold readImage at hr
  split at hr
  · obtain ⟨rfl, rfl⟩ := Prod.mk.inj hr
    exact h
  rename_i size readInFull elf
  split at hr
  · rename_i us1 hbuf
    obtain ⟨rfl, rfl⟩ := Prod.mk.inj hr
    exact kmalloc_holds h hbuf
  rename_i buf us1 hbuf
  have h1 := kmalloc_holds h hbuf
  split at hr
  · obtain ⟨rfl, rfl⟩ := Prod.mk.inj hr
    exact h1.free.1
  · cases hload : elfLoadImage us1 elf with
    | mk image us2 =>
      rw [hload] at hr
      obtain ⟨rfl, rfl⟩ := Prod.mk.inj hr
      have h2 := elfLoadImage_holds h1 hload
      have hfront : Holds off avail highest us2
          (.heap buf :: (image.elim [] ElfImage.holdings ++ xs)) :=
        h2.perm List.perm_middle.symm
      exact hfront.free.1

/-- **A new task** acquires itself and a stack, or nothing. -/
theorem taskNew_holds (h : Holds off avail highest us xs) {pages : UInt64}
    {r : Option (Addr × Stack)} (hr : taskNew us pages = (r, us')) :
    Holds off avail highest us' (r.elim [] (fun n => n.2.holdings ++ [.heap n.1]) ++ xs) := by
  unfold taskNew at hr
  split at hr
  · rename_i us1 ht
    obtain ⟨rfl, rfl⟩ := Prod.mk.inj hr
    exact kmalloc_holds h ht
  rename_i t us1 ht
  have h1 := kmalloc_holds h ht
  split at hr
  · rename_i us2 hstack
    obtain ⟨rfl, rfl⟩ := Prod.mk.inj hr
    exact (pmmAllocPages_holds h1 hstack).free.1
  · rename_i stack us2 hstack
    obtain ⟨rfl, rfl⟩ := Prod.mk.inj hr
    exact pmmAllocPages_holds h1 hstack

theorem taskNewFromImage_holds (h : Holds off avail highest us xs) {image : ElfImage}
    {r : Option (Addr × Stack)} (hr : taskNewFromImage us image = (r, us')) :
    Holds off avail highest us' (r.elim [] (fun n => n.2.holdings ++ [.heap n.1]) ++ xs) := by
  unfold taskNewFromImage at hr
  split at hr
  · obtain ⟨rfl, rfl⟩ := Prod.mk.inj hr
    exact h
  · exact taskNew_holds h hr

/-! ## Giving back -/

theorem taskArgsFree_eq (us : Users) (args : Option TaskArgs) :
    taskArgsFree us args = us.giveBack (args.elim [] TaskArgs.holdings) := by
  cases args <;> rfl

theorem elfUnloadImage_eq (us : Users) (image : Option ElfImage) :
    elfUnloadImage us image = us.giveBack (image.elim [] ElfImage.holdings) := by
  cases image <;> rfl

theorem stackFree_eq (us : Users) (stack : Option Stack) :
    stackFree us stack = us.giveBack (stack.elim [] Stack.holdings) := by
  cases stack <;> rfl

/-! ## The list of what is held -/

variable {w : World} {c : Nat} {t : Addr}

/-- What the other tasks hold. -/
def World.others (w : World) (t : Addr) : List Holding :=
  (w.desc.sched.taskList.erase t).flatMap w.holdingsOf

theorem holdings_perm (ht : t ∈ w.desc.sched.taskList) :
    w.holdings.Perm (w.holdingsOf t ++ w.others t) :=
  (List.perm_cons_erase ht).flatMap_right w.holdingsOf

theorem flatMap_holdingsOf {desc : Desc.State} {mem : Users} {l : List Addr} {o : Owned}
    (ht : t ∉ l) :
    l.flatMap (World.holdingsOf ⟨desc, mem, Function.update w.owned t o⟩) =
      l.flatMap w.holdingsOf := by
  refine List.flatMap_congr ?_
  intro x hx
  have hne : x ≠ t := fun heq => ht (heq ▸ hx)
  simp only [World.holdingsOf, Function.update_of_ne hne]

theorem self_mem_holdings (ht : t ∈ w.desc.sched.taskList) : Holding.heap t ∈ w.holdings := by
  refine List.mem_flatMap.mpr ⟨t, ht, ?_⟩
  simp [World.holdingsOf]

theorem fresh_task {ys : List Holding} (h : Holds off avail highest us (ys ++ w.holdings))
    (hself : Holding.heap t ∈ ys) : t ∉ w.desc.sched.taskList := by
  intro ht
  have honce := h.once
  rw [List.map_append, List.nodup_append] at honce
  exact honce.2.2 _ (List.mem_map_of_mem hself) _ (List.mem_map_of_mem (self_mem_holdings ht)) rfl

/-! ## The invariant -/

/-- The cells of the tasks lead to open descriptors, the console is nobody's, and what the
tasks hold is live. -/
structure Inv (off : Nat) (avail : Finset Nat) (highest : Nat) (w : World) : Prop where
  desc : Desc.Redirected w.desc
  low : ∀ i < 3, (w.desc.slot i).owner = none
  mem : Holds off avail highest w.mem w.holdings

theorem holds_same {desc : Desc.State} (h : Holds off avail highest us w.holdings)
    (hlist : desc.sched.taskList = w.desc.sched.taskList) :
    Holds off avail highest us (World.holdings ⟨desc, us, w.owned⟩) := by
  have heq : World.holdings ⟨desc, us, w.owned⟩ = w.holdings := by
    simp only [World.holdings, hlist]
    rfl
  rw [heq]
  exact h

theorem holds_added {desc : Desc.State} {o : Owned}
    (h : Holds off avail highest us (o.holdings ++ [.heap t] ++ w.holdings))
    (hlist : desc.sched.taskList = t :: w.desc.sched.taskList) :
    Holds off avail highest us (World.holdings ⟨desc, us, Function.update w.owned t o⟩) := by
  have hfresh := fresh_task h (t := t) (by simp)
  have heq : World.holdings ⟨desc, us, Function.update w.owned t o⟩ =
      o.holdings ++ [.heap t] ++ w.holdings := by
    simp only [World.holdings, hlist, List.flatMap_cons]
    rw [flatMap_holdingsOf hfresh]
    simp only [World.holdingsOf, Function.update_self]
  rw [heq]
  exact h

theorem regroup (args image stack task rest : List Holding) :
    (args ++ image ++ stack ++ task ++ rest).Perm (stack ++ task ++ (image ++ (args ++ rest))) := by
  refine List.perm_iff_count.mpr ?_
  simp only [List.count_append]
  omega

/-- **`task_exec_elf`** makes a program with all it owns, or leaves no trace. -/
theorem taskExecElf_cases (h : Holds off avail highest w.mem w.holdings) {x : Exec}
    {r : Option Addr} {w' : World} (hr : w.taskExecElf c x = (r, w')) :
    (r = none ∧ ∃ us, w' = { w with mem := us } ∧ Holds off avail highest us w.holdings) ∨
      ∃ t args image stack us, r = some t ∧ t ∉ w.desc.sched.taskList ∧
        w' = ⟨w.desc.taskExecElf c t, us,
          Function.update w.owned t ⟨some args, some image, some stack⟩⟩ ∧
        Holds off avail highest us
          ((⟨some args, some image, some stack⟩ : Owned).holdings ++ [.heap t] ++ w.holdings) := by
  unfold World.taskExecElf at hr
  split at hr
  · obtain ⟨rfl, rfl⟩ := Prod.mk.inj hr
    exact Or.inl ⟨rfl, w.mem, rfl, h⟩
  split at hr
  · rename_i us1 hargs
    obtain ⟨rfl, rfl⟩ := Prod.mk.inj hr
    exact Or.inl ⟨rfl, us1, rfl, taskArgsFromArgv_holds h hargs⟩
  rename_i args us1 hargs
  have h1 := taskArgsFromArgv_holds h hargs
  split at hr
  · rename_i us2 himage
    obtain ⟨rfl, rfl⟩ := Prod.mk.inj hr
    have h2 : Holds off avail highest us2 ((some args).elim [] TaskArgs.holdings ++ w.holdings) :=
      readImage_holds h1 himage
    refine Or.inl ⟨rfl, _, rfl, ?_⟩
    exact h2.giveBack.1
  rename_i image us2 himage
  have h2 := readImage_holds h1 himage
  split at hr
  · rename_i us3 hnew
    obtain ⟨rfl, rfl⟩ := Prod.mk.inj hr
    have h3 : Holds off avail highest us3 ((some image).elim [] ElfImage.holdings ++
        ((some args).elim [] TaskArgs.holdings ++ w.holdings)) := taskNewFromImage_holds h2 hnew
    refine Or.inl ⟨rfl, _, rfl, ?_⟩
    exact h3.giveBack.1.giveBack.1
  · rename_i t stack us3 hnew
    obtain ⟨rfl, rfl⟩ := Prod.mk.inj hr
    have h3 := taskNewFromImage_holds h2 hnew
    have hall : Holds off avail highest us3
        ((⟨some args, some image, some stack⟩ : Owned).holdings ++ [.heap t] ++ w.holdings) := by
      refine h3.perm ?_
      exact regroup _ _ _ _ _
    exact Or.inr ⟨t, args, image, stack, us3, rfl, fresh_task hall (by simp), rfl, hall⟩

/-! ## The end of a task -/

/-- **`task_exit`** gives back all that a task owns, and keeps the task itself. -/
theorem taskExit_holds (h : Holds off avail highest w.mem w.holdings)
    (hnodup : w.desc.sched.taskList.Nodup) (hin : w.desc.sched.current c ∈ w.desc.sched.taskList) :
    Holds off avail highest (w.taskExit c).mem (w.taskExit c).holdings := by
  generalize ht : w.desc.sched.current c = t at hin
  have hmem : (w.taskExit c).mem =
      (userPagesReleaseTask w.mem t).2.giveBack (w.owned t).holdings := by
    simp only [World.taskExit, ht, taskArgsFree_eq, elfUnloadImage_eq, stackFree_eq,
      Owned.holdings, Users.giveBack_append]
  have hlist : (w.taskExit c).desc.sched.taskList = w.desc.sched.taskList := rfl
  have howned : (w.taskExit c).holdings.Perm (.heap t :: w.others t) := by
    have hperm := holdings_perm (w := w.taskExit c) (t := t) (hlist ▸ hin)
    have hself : (w.taskExit c).holdingsOf t = [.heap t] := by
      simp [World.holdingsOf, World.taskExit, ht, Owned.holdings]
    have hrest : (w.taskExit c).others t = w.others t := by
      simp only [World.others, World.taskExit, ht]
      exact flatMap_holdingsOf (hnodup.not_mem_erase)
    rw [hself, hrest] at hperm
    exact hperm
  have hparts := h.perm (holdings_perm hin).symm
  rw [World.holdingsOf, List.append_assoc] at hparts
  rw [hmem]
  exact ((hparts.releaseTask t).1.giveBack.1).perm howned

/-- What `task_kill` gives back besides the runs. -/
def Owned.killed (o : Owned) (t : Addr) : List Holding :=
  o.image.elim [] ElfImage.holdings ++ o.stack.elim [] Stack.holdings ++ [.heap t]

/-- The allocators after `task_kill`. -/
def World.killedMem (w : World) (t : Addr) : Users :=
  (userPagesReleaseTask w.mem t).2.giveBack ((w.owned t).killed t)

/-- `task_kill` of a task that no CPU runs. -/
theorem taskKill_eq (hdead : (w.desc.sched.task t).state ≠ .dead)
    (hcur : t ≠ w.desc.sched.current c) (hrun : (w.desc.sched.task t).state ≠ .running) :
    w.taskKill c t =
      (some true, ⟨w.desc.taskKill c t, w.killedMem t, Function.update w.owned t {}⟩) := by
  unfold World.taskKill
  rw [if_neg hdead, if_neg hcur, if_neg hrun]
  simp only [World.killedMem, Owned.killed, elfUnloadImage_eq, stackFree_eq, Users.giveBack_append]
  rfl

/-- **`task_kill`** frees the runs, the image, the stack and the task, and nothing else. -/
theorem killedMem_holds (h : Holds off avail highest w.mem w.holdings)
    (hin : t ∈ w.desc.sched.taskList) :
    Holds off avail highest (w.killedMem t) ((w.owned t).args.elim [] TaskArgs.holdings ++ w.others t) ∧
      (w.killedMem t).runs.Perm (w.mem.runs.filter fun r => !(r.owner == t)) ∧
      ∀ b, b ∈ (w.killedMem t).base.live ↔ b ∈ w.mem.base.live ∧
        (∀ r ∈ w.mem.runs, r.owner = t → b.page ≠ r.addr / Mem.pageSize) ∧
        ∀ x ∈ (w.owned t).killed t, b.page ≠ x.page := by
  have hparts : Holds off avail highest w.mem
      ((w.owned t).killed t ++ ((w.owned t).args.elim [] TaskArgs.holdings ++ w.others t)) := by
    refine h.perm (List.Perm.trans ?_ (holdings_perm hin).symm)
    refine List.perm_iff_count.mpr ?_
    simp only [World.holdingsOf, Owned.holdings, Owned.killed, List.count_append]
    omega
  obtain ⟨hreleased, hruns, hlive⟩ := hparts.releaseTask t
  obtain ⟨hgiven, hlive'⟩ := hreleased.giveBack
  refine ⟨hgiven, ?_, ?_⟩
  · rw [World.killedMem, Users.giveBack_runs]
    exact hruns
  · intro b
    rw [World.killedMem, hlive', hlive, and_assoc]

theorem taskKill_holds (h : Holds off avail highest w.mem w.holdings)
    (hnodup : w.desc.sched.taskList.Nodup) (hin : t ∈ w.desc.sched.taskList) :
    Holds off avail highest (w.taskKill c t).2.mem (w.taskKill c t).2.holdings := by
  by_cases hdead : (w.desc.sched.task t).state = .dead
  · simpa [World.taskKill, hdead] using h
  by_cases hcur : t = w.desc.sched.current c
  · have heq : (w.taskKill c t).2 = w.taskExit c := by
      unfold World.taskKill
      rw [if_neg hdead, if_pos hcur]
    rw [heq]
    exact taskExit_holds h hnodup (hcur ▸ hin)
  by_cases hrun : (w.desc.sched.task t).state = .running
  · have heq : (w.taskKill c t).2 = { w with desc := w.desc.taskKill c t } := by
      unfold World.taskKill
      rw [if_neg hdead, if_neg hcur, if_pos hrun]
    rw [heq]
    refine holds_same h ?_
    simp [Desc.State.taskKill, Sched.State.taskKill, hdead, hcur, hrun, Sched.State.setTask]
  · rw [taskKill_eq hdead hcur hrun]
    have hlist : (w.desc.taskKill c t).sched.taskList = w.desc.sched.taskList.erase t := by
      simp [Desc.State.taskKill, Sched.State.taskKill, hdead, hcur, hrun, Sched.State.setTask]
    have heq : World.holdings ⟨w.desc.taskKill c t, w.killedMem t, Function.update w.owned t {}⟩ =
        w.others t := by
      simp only [World.holdings, hlist]
      exact flatMap_holdingsOf hnodup.not_mem_erase
    rw [heq]
    exact (killedMem_holds h hin).1.sublist (List.sublist_append_right _ _)

/-! ## The descriptors below -/

theorem taskKill_desc (w : World) (c : Nat) (t : Addr) :
    (w.taskKill c t).2.desc = w.desc.taskKill c t := by
  unfold World.taskKill
  split
  · rename_i hdead
    rw [Desc.State.taskKill, if_pos hdead]
  rename_i hdead
  split
  · rename_i hcur
    rw [Desc.State.taskKill, if_neg hdead, if_pos hcur]
    rfl
  · split <;> rfl

theorem sysKill_desc (w : World) (c : Nat) (pid : UInt64) :
    (w.sysKill c pid).desc = w.desc.sysKill c pid := by
  unfold World.sysKill Desc.State.sysKill
  cases w.desc.sched.taskFind pid with
  | none => rfl
  | some t =>
    dsimp only
    split
    · rfl
    · exact taskKill_desc w c t

theorem taskCreate_cases (h : Holds off avail highest w.mem w.holdings) :
    (∃ us, w.taskCreate = { w with mem := us } ∧ Holds off avail highest us w.holdings) ∨
      ∃ t stack us, t ∉ w.desc.sched.taskList ∧
        w.taskCreate = ⟨w.desc.taskCreate t, us, Function.update w.owned t { stack := some stack }⟩ ∧
        Holds off avail highest us (stack.holdings ++ [.heap t] ++ w.holdings) := by
  unfold World.taskCreate
  split
  · rename_i us hnew
    exact Or.inl ⟨us, rfl, taskNew_holds h hnew⟩
  · rename_i t stack us hnew
    have hgot := taskNew_holds h hnew
    exact Or.inr ⟨t, stack, us, fresh_task hgot (by simp), rfl, hgot⟩

theorem bringUp_cases (h : Holds off avail highest w.mem w.holdings) :
    (∃ us, w.bringUp = { w with mem := us } ∧ Holds off avail highest us w.holdings) ∨
      ∃ t stack us, w.desc.sched.cpuCount ≠ Sched.cpuMax ∧ t ∉ w.desc.sched.taskList ∧
        w.bringUp = ⟨w.desc.bringUp t, us, Function.update w.owned t { stack := some stack }⟩ ∧
        Holds off avail highest us (stack.holdings ++ [.heap t] ++ w.holdings) := by
  unfold World.bringUp
  split
  · exact Or.inl ⟨w.mem, rfl, h⟩
  rename_i hroom
  split
  · rename_i us hnew
    exact Or.inl ⟨us, rfl, taskNew_holds h hnew⟩
  · rename_i t stack us hnew
    have hgot := taskNew_holds h hnew
    exact Or.inr ⟨t, stack, us, hroom, fresh_task hgot (by simp), rfl, hgot⟩

theorem on_desc {f : World → World} {g : Desc.State → Desc.State} (hf : (f w).desc = g w.desc) :
    (on w c f).desc = (Desc.on w.desc c g).1 := by
  unfold on Desc.on
  split
  · exact hf
  · rfl

/-- **The descriptors go their own way.**  What a step does to them and to the tasks is a
step of the machine of the descriptors, or nothing. -/
theorem step_desc (h : Holds off avail highest w.mem w.holdings) (op : Op) :
    (step w op).1.desc = w.desc ∨ ∃ dop, (step w op).1.desc = (Desc.step w.desc dop).1 := by
  cases op with
  | exec c x =>
    by_cases hc : c < w.desc.sched.cpuCount
    case neg =>
      refine Or.inl ?_
      simp only [step, on, hc, if_false]
    simp only [step, on, hc, if_true]
    cases hr : w.taskExecElf c x with
    | mk r w' =>
      rcases taskExecElf_cases h hr with ⟨-, us, rfl, -⟩ | ⟨t, args, image, stack, us, -, -, rfl, -⟩
      · exact Or.inl rfl
      · refine Or.inr ⟨.spawn c t, ?_⟩
        simp only [Desc.step, Desc.on, hc, if_true]
  | create =>
    rcases taskCreate_cases h with ⟨us, heq, -⟩ | ⟨t, stack, us, -, heq, -⟩
    · refine Or.inl ?_
      show w.taskCreate.desc = w.desc
      rw [heq]
    · exact Or.inr ⟨.create t, congrArg World.desc heq⟩
  | bringUp =>
    rcases bringUp_cases h with ⟨us, heq, -⟩ | ⟨t, stack, us, -, -, heq, -⟩
    · refine Or.inl ?_
      show w.bringUp.desc = w.desc
      rw [heq]
    · exact Or.inr ⟨.bringUp t, congrArg World.desc heq⟩
  | memAlloc c size =>
    refine Or.inl ?_
    show (on w c _).desc = w.desc
    unfold on
    split <;> rfl
  | memFree addr size => exact Or.inl rfl
  | exit c =>
    refine Or.inr ⟨.exit c, on_desc
      (g := fun d => if d.sched.current c = d.sched.idle c then d else d.taskExit c) ?_⟩
    split <;> rfl
  | checkKill c =>
    refine Or.inr ⟨.checkKill c, on_desc
      (g := fun d => if (d.sched.task (d.sched.current c)).killPending then d.taskExit c else d) ?_⟩
    split <;> rfl
  | kill c pid =>
    exact Or.inr ⟨.kill c pid, on_desc (f := fun w => w.sysKill c pid)
      (g := fun d => d.sysKill c pid) (sysKill_desc w c pid)⟩
  | desc op => exact Or.inr ⟨op, rfl⟩
  | kernel op => exact Or.inl rfl

theorem plain_taskList {op : Desc.Op} (hop : Plain op) (st : Desc.State) :
    (Desc.step st op).1.sched.taskList = st.sched.taskList := by
  have hmove : ∀ sop, (∀ a, sop ≠ .create a) → (∀ a, sop ≠ .bringUp a) → (∀ c pid, sop ≠ .kill c pid) →
      (Sched.step st.sched sop).1.taskList = st.sched.taskList := by
    intro sop hcreate hbring hkill
    rcases Sched.step_taskList st.sched sop with hsame | ⟨a, hop | hop, -⟩ | ⟨c, pid, t, hop, -⟩
    · exact hsame
    · exact absurd hop (hcreate a)
    · exact absurd hop (hbring a)
    · exact absurd hop (hkill c pid)
  cases op with
  | openFile c opened =>
    rw [show (Desc.step st (.openFile c opened)).1.sched = st.sched from
      Desc.call_sched (f := fun st => st.fsSysOpen c opened) (Desc.fsSysOpen_sched st c opened)]
  | close c fd rc =>
    rw [show (Desc.step st (.close c fd rc)).1.sched = st.sched from
      Desc.call_sched (f := fun st => st.fsSysClose c fd rc) (Desc.fsSysClose_sched st c fd rc)]
  | dup2 c fd target =>
    rw [show (Desc.step st (.dup2 c fd target)).1.sched = st.sched from
      Desc.call_sched (f := fun st => st.fsSysDup2 c fd target) (Desc.fsSysDup2_sched st c fd target)]
  | spawn c a => exact absurd hop id
  | create a => exact absurd hop id
  | bringUp a => exact absurd hop id
  | exit c => exact absurd hop id
  | checkKill c => exact absurd hop id
  | kill c pid => exact absurd hop id
  | yield c => exact hmove (.yield c) (by simp) (by simp) (by simp)
  | tick c => exact hmove (.tick c) (by simp) (by simp) (by simp)
  | sleep c ms => exact hmove (.sleep c ms) (by simp) (by simp) (by simp)
  | block c timeoutMs => exact hmove (.block c timeoutMs) (by simp) (by simp) (by simp)
  | wakeWaiters => exact hmove .wakeWaiters (by simp) (by simp) (by simp)
  | enterKcall c => exact hmove (.enterKcall c) (by simp) (by simp) (by simp)
  | leaveKcall c => exact hmove (.leaveKcall c) (by simp) (by simp) (by simp)

/-! ## The step -/

theorem on_holds (h : Holds off avail highest w.mem w.holdings) {f : World → World}
    (hf : c < w.desc.sched.cpuCount → Holds off avail highest (f w).mem (f w).holdings) :
    Holds off avail highest (on w c f).mem (on w c f).holdings := by
  unfold on
  split
  · rename_i hc
    exact hf hc
  · exact h

theorem Inv.step_holds (h : Inv off avail highest w) {op : Op} (hop : permitted w op) :
    Holds off avail highest (step w op).1.mem (step w op).1.holdings := by
  have hsched := h.desc.sched
  cases op with
  | exec c x =>
    refine on_holds h.mem fun _ => ?_
    cases hr : w.taskExecElf c x with
    | mk r w' =>
      rcases taskExecElf_cases h.mem hr with
        ⟨-, us, rfl, hus⟩ | ⟨t, args, image, stack, us, -, hfresh, rfl, hus⟩
      · exact holds_same hus rfl
      · refine holds_added hus ?_
        rw [Desc.taskExecElf_sched, Sched.State.taskCreate, if_neg hfresh]
  | create =>
    show Holds off avail highest w.taskCreate.mem w.taskCreate.holdings
    rcases taskCreate_cases h.mem with ⟨us, heq, hus⟩ | ⟨t, stack, us, hfresh, heq, hus⟩
    · rw [heq]
      exact holds_same hus rfl
    · rw [heq]
      refine holds_added hus ?_
      rw [Desc.taskCreate_sched, Sched.State.taskCreate, if_neg hfresh]
  | bringUp =>
    show Holds off avail highest w.bringUp.mem w.bringUp.holdings
    rcases bringUp_cases h.mem with ⟨us, heq, hus⟩ | ⟨t, stack, us, hroom, hfresh, heq, hus⟩
    · rw [heq]
      exact holds_same hus rfl
    · rw [heq]
      refine holds_added hus ?_
      rw [Desc.bringUp_sched, Sched.State.bringUp, if_neg (by simp [hroom, hfresh])]
  | memAlloc c size => exact on_holds h.mem fun _ => holds_same (h.mem.memAlloc _ size) rfl
  | memFree addr size => exact holds_same (h.mem.memFree addr size) rfl
  | exit c =>
    refine on_holds h.mem fun hc => ?_
    split
    · exact h.mem
    · exact taskExit_holds h.mem hsched.nodup (hsched.listed c hc)
  | checkKill c =>
    refine on_holds h.mem fun hc => ?_
    split
    · exact taskExit_holds h.mem hsched.nodup (hsched.listed c hc)
    · exact h.mem
  | kill c pid =>
    refine on_holds h.mem fun _ => ?_
    unfold World.sysKill
    cases hfind : w.desc.sched.taskFind pid with
    | none => exact h.mem
    | some t =>
      dsimp only
      split
      · exact h.mem
      · exact taskKill_holds h.mem hsched.nodup (hsched.taskFind hfind).1
  | desc op => exact holds_same h.mem (plain_taskList hop w.desc)
  | kernel op => exact holds_same (h.mem.call hop.1 hop.2) rfl

/-- **Step lemma.** -/
theorem Inv.step (h : Inv off avail highest w) {op : Op} (hop : permitted w op) :
    Inv off avail highest (step w op).1 := by
  have hdesc : Desc.Redirected (Program.step w op).1.desc ∧
      ∀ i < 3, ((Program.step w op).1.desc.slot i).owner = none := by
    rcases step_desc h.mem op with hsame | ⟨dop, heq⟩
    · rw [hsame]
      exact ⟨h.desc, h.low⟩
    · rw [heq]
      refine ⟨(h.desc.step dop).redirected, ?_⟩
      intro i hi
      rw [h.desc.step_low dop hi]
      exact h.low i hi
  exact ⟨hdesc.1, hdesc.2, h.step_holds hop⟩

end Program
