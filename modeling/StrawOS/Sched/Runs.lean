import StrawOS.Sched.Invariant

/-!
# Runs of the scheduler

The invariant over all runs, what a step may do to the list of tasks, and that a task
that is dead and still listed stays so for the rest of the run.
-/

namespace Sched

variable {st : State} {c : Nat} {t : Addr}

theorem Start.inv (h : Start st) : Inv st := by
  have hone : ∀ d, d < st.cpuCount → d = 0 := by
    intro d hd
    rw [h.cpuCount] at hd
    omega
  have hisIdle : ∀ x, st.IsIdle x → x = st.idle 0 := by
    intro x hx
    obtain ⟨d, hd, heq⟩ := hx
    rw [← heq, hone d hd]
  have hzero : 0 < st.cpuCount := by
    rw [h.cpuCount]
    exact Nat.one_pos
  refine ⟨?_, ?_, ?_, ?_, ?_, ?_, ?_, ?_, ?_⟩
  · rw [h.taskList]
    exact List.nodup_singleton _
  · rw [h.runQueue, h.taskList]
    intro x hx
    rw [List.mem_singleton] at hx
    exact hx.2 ⟨0, hzero, hx.1.symm⟩
  · intro d hd
    rw [hone d hd, h.taskList]
    exact List.mem_cons_self
  · intro d hd e he _
    rw [hone d hd, hone e he]
  · intro x hx
    rw [hisIdle x hx, h.state]
    exact ⟨h.pid, by simp, h.killPending⟩
  · intro d hd
    rw [hone d hd, h.current, h.taskList]
    exact List.mem_cons_self
  · intro d hd e he _
    rw [hone d hd, hone e he]
  · intro x hx
    rw [h.taskList, List.mem_singleton] at hx
    rw [hx]
    exact iff_of_true h.state ⟨0, hzero, h.current⟩
  · intro d hd e he _
    rw [hone d hd, hone e he]

theorem Inv.on (h : Inv st) {f : State → State} (hf : c < st.cpuCount → Inv (f st)) :
    Inv (Sched.on st c f) := by
  unfold Sched.on
  split
  · rename_i hc
    exact hf hc
  · exact h

theorem Inv.not_idle_of_killPending (h : Inv st) (hkill : (st.task t).killPending = true) :
    ¬st.IsIdle t := by
  intro hidle
  rw [(h.idleTask t hidle).2.2] at hkill
  cases hkill

theorem Inv.not_idle_of_ne (h : Inv st) (hc : c < st.cpuCount) (hne : st.current c ≠ st.idle c) :
    ¬st.IsIdle (st.current c) := by
  intro hidle
  obtain ⟨d, hd, heq⟩ := hidle
  rw [← h.own c hc d hd heq.symm] at heq
  exact hne heq.symm

theorem Inv.leaveKcall (h : Inv st) (hc : c < st.cpuCount) :
    Inv (st.setTask (st.current c) { st.task (st.current c) with inKcall := false }) :=
  h.setCurrent hc (h.current_running hc) rfl rfl

/-- **Every step keeps the invariant.** -/
theorem Inv.step (h : Inv st) (op : Op) : Inv (Sched.step st op).1 := by
  cases op with
  | create a => exact h.taskCreate a
  | bringUp a => exact h.bringUp a
  | yield c => exact h.on fun hc => h.schedule hc (Or.inl rfl)
  | tick c => exact h.on fun hc => h.taskSchedulerTick hc
  | sleep c ms => exact h.on fun hc => h.taskSleepMs hc ms
  | block c timeoutMs => exact h.on fun hc => h.taskBlock hc timeoutMs
  | wakeWaiters => exact h.wakeAll _ _
  | kill c pid => exact h.on fun hc => h.sysKill hc pid
  | exit c =>
    refine h.on fun hc => ?_
    split
    · exact h
    · rename_i hne
      exact h.taskExit hc (h.not_idle_of_ne hc hne)
  | checkKill c =>
    refine h.on fun hc => ?_
    split
    · rename_i hkill
      exact h.taskExit hc (h.not_idle_of_killPending hkill)
    · exact h
  | enterKcall c => exact h.on fun hc => h.setCurrent hc (h.current_running hc) rfl rfl
  | leaveKcall c =>
    refine h.on fun hc => ?_
    dsimp only
    split
    · exact (h.leaveKcall hc).schedule hc (Or.inl rfl)
    · exact h.leaveKcall hc

theorem reachable_inv (h : machine.Reachable (fun _ _ => True) st) : Inv st :=
  h.invariant (P := Inv) (fun _ h0 => Start.inv h0) fun _ op hinv _ => hinv.step op

/-! ## Dead tasks -/

/-- A task that has exited: it is dead, and its record is still there. -/
def Exited (t : Addr) (st : State) : Prop := t ∈ st.taskList ∧ (st.task t).state = .dead

theorem Exited.ne_current (h : Exited t st) (hinv : Inv st) (hc : c < st.cpuCount) :
    st.current c ≠ t := by
  intro heq
  have hrun := hinv.current_running hc
  rw [heq, h.2] at hrun
  cases hrun

theorem Exited.setTask (h : Exited t st) {x : Addr} (hx : x ≠ t) (k : Task) :
    Exited t (st.setTask x k) :=
  ⟨h.1, by rw [State.setTask_of_ne _ _ (Ne.symm hx)]; exact h.2⟩

theorem Exited.dispatch {up : Nat → Prop} (h : Exited t st) (hs : Sound up st)
    (hc : c < st.cpuCount) : Exited t (st.dispatch c) := by
  have hne : t ≠ st.chooseNext c := by
    intro heq
    exact hs.chooseNext_alive hc (heq ▸ h.2)
  refine ⟨h.1, ?_⟩
  rw [State.dispatch_task]
  rw [if_neg hne]
  exact h.2

theorem Exited.schedule (h : Exited t st) (hinv : Inv st) (hc : c < st.cpuCount)
    {prevState : TaskState} (hprev : prevState = .ready ∨ prevState = .sleeping) :
    Exited t (st.schedule c prevState) := by
  have hvacant := hinv.retire hc hprev
  have hexit : Exited t (st.retire c prevState) := by
    rw [hinv.retire_eq hc]
    exact h.setTask (h.ne_current hinv hc) _
  refine hexit.dispatch hvacant ?_
  rw [hinv.retire_eq hc]
  exact hc

theorem Exited.taskExit (h : Exited t st) (hinv : Inv st) (hc : c < st.cpuCount)
    (hidle : ¬st.IsIdle (st.current c)) : Exited t (st.taskExit c) :=
  (h.setTask (h.ne_current hinv hc) _).dispatch (hinv.putDead hc hidle) hc

theorem Exited.wakeAll (h : Exited t st) (p : Task → Bool) (l : List Addr) :
    Exited t (l.foldl (fun st t => st.wakeIf p t) st) := by
  refine State.wakeAll (P := Exited t) ?_ l st h
  intro s x hs
  unfold State.wakeIf
  split
  · rename_i hsleep
    refine hs.setTask ?_ _
    intro heq
    rw [heq, hs.2] at hsleep
    cases hsleep.1
  · exact hs

theorem Exited.taskSchedulerTick (h : Exited t st) (hinv : Inv st) (hc : c < st.cpuCount) :
    Exited t (st.taskSchedulerTick c) := by
  unfold State.taskSchedulerTick
  generalize hst' : (if c = 0 then _ else st) = st'
  obtain ⟨hinv', hc'⟩ := hinv.tickWake hc hst'
  have hexit : Exited t st' := by
    rw [← hst']
    split
    · have htick : Exited t { st with tickCount := st.tickCount + 1 } := h
      exact htick.wakeAll _ _
    · exact h
  dsimp only
  split
  · exact hexit.setTask (hexit.ne_current hinv' hc') _
  · exact hexit.schedule hinv' hc' (Or.inl rfl)

theorem Exited.sysKill (h : Exited t st) (hinv : Inv st) (hc : c < st.cpuCount) (pid : UInt64) :
    Exited t (st.sysKill c pid) := by
  unfold State.sysKill
  cases hfind : st.taskFind pid with
  | none => exact h
  | some x =>
    obtain ⟨hx, hidle⟩ := hinv.taskFind hfind
    dsimp only
    split
    · exact h
    unfold State.taskKill
    split
    · exact h
    rename_i halive
    have hxt : x ≠ t := fun heq => halive (heq ▸ h.2)
    split
    · rename_i hcur
      exact h.taskExit hinv hc (hcur ▸ hidle)
    split
    · exact h.setTask hxt _
    · exact ⟨(hinv.nodup.mem_erase_iff).mpr ⟨Ne.symm hxt, h.1⟩, (h.setTask hxt _).2⟩

theorem Exited.on (h : Exited t st) {f : State → State} (hf : c < st.cpuCount → Exited t (f st)) :
    Exited t (Sched.on st c f) := by
  unfold Sched.on
  split
  · rename_i hc
    exact hf hc
  · exact h

theorem Exited.cons (h : Exited t st) {a : Addr} (ha : a ∉ st.taskList) (k : Task) :
    t ∈ a :: st.taskList ∧ (Function.update st.task a k t).state = .dead := by
  have hta : t ≠ a := fun heq => ha (heq ▸ h.1)
  exact ⟨List.mem_cons_of_mem _ h.1, by rw [Function.update_of_ne hta]; exact h.2⟩

theorem Exited.step (h : Exited t st) (hinv : Inv st) (op : Op) : Exited t (Sched.step st op).1 := by
  cases op with
  | create a =>
    show Exited t (st.taskCreate a)
    unfold State.taskCreate
    split
    · exact h
    · rename_i ha
      exact h.cons ha _
  | bringUp a =>
    show Exited t (st.bringUp a)
    unfold State.bringUp
    split
    · exact h
    · rename_i hroom
      exact h.cons (fun hin => hroom (Or.inr hin)) _
  | yield c => exact h.on fun hc => h.schedule hinv hc (Or.inl rfl)
  | tick c => exact h.on fun hc => h.taskSchedulerTick hinv hc
  | sleep c ms =>
    refine h.on fun hc => ?_
    exact (h.setTask (h.ne_current hinv hc) _).schedule (hinv.setWake hc _ _) hc (Or.inr rfl)
  | block c timeoutMs =>
    refine h.on fun hc => ?_
    exact (h.setTask (h.ne_current hinv hc) _).schedule (hinv.setWake hc _ _) hc (Or.inr rfl)
  | wakeWaiters => exact h.wakeAll _ _
  | kill c pid => exact h.on fun hc => h.sysKill hinv hc pid
  | exit c =>
    refine h.on fun hc => ?_
    split
    · exact h
    · rename_i hne
      exact h.taskExit hinv hc (hinv.not_idle_of_ne hc hne)
  | checkKill c =>
    refine h.on fun hc => ?_
    split
    · rename_i hkill
      exact h.taskExit hinv hc (hinv.not_idle_of_killPending hkill)
    · exact h
  | enterKcall c => exact h.on fun hc => h.setTask (h.ne_current hinv hc) _
  | leaveKcall c =>
    refine h.on fun hc => ?_
    have hexit := h.setTask (h.ne_current hinv hc)
      { st.task (st.current c) with inKcall := false }
    dsimp only
    split
    · exact hexit.schedule (hinv.leaveKcall hc) hc (Or.inl rfl)
    · exact hexit

theorem Exited.run (h : Exited t st) (hinv : Inv st) (ops : List Op) :
    Inv (machine.run st ops) ∧ Exited t (machine.run st ops) := by
  induction ops generalizing st with
  | nil => exact ⟨hinv, h⟩
  | cons op ops ih => exact ih (h.step hinv op) (hinv.step op)

/-! ## The list of tasks -/

theorem State.schedule_taskList (st : State) (c : Nat) (prevState : TaskState) :
    (st.schedule c prevState).taskList = st.taskList := by
  unfold State.schedule State.retire
  split <;> rfl

theorem State.wakeAll_taskList (p : Task → Bool) (l : List Addr) (st : State) :
    (l.foldl (fun st t => st.wakeIf p t) st).taskList = st.taskList :=
  State.wakeAll (P := fun s => s.taskList = st.taskList)
    (fun s t hs => (s.wakeIf_taskList p t).trans hs) l st rfl

theorem State.taskSchedulerTick_taskList (st : State) (c : Nat) :
    (st.taskSchedulerTick c).taskList = st.taskList := by
  unfold State.taskSchedulerTick
  generalize hst' : (if c = 0 then _ else st) = st'
  have hlist : st'.taskList = st.taskList := by
    rw [← hst']
    split
    · exact State.wakeAll_taskList _ _ _
    · rfl
  dsimp only
  split
  · exact hlist
  · rw [State.schedule_taskList, hlist]

theorem on_taskList {f : State → State} (hf : (f st).taskList = st.taskList) :
    (on st c f).taskList = st.taskList := by
  unfold on
  split
  · exact hf
  · rfl

/-- Only `task_kill` takes a task out of the list, one that `task_find` finds and that no
CPU runs. -/
theorem State.sysKill_taskList (st : State) (c : Nat) (pid : UInt64) :
    (st.sysKill c pid).taskList = st.taskList ∨
      ∃ t, st.taskFind pid = some t ∧ (st.task t).state ≠ .running ∧ (st.task t).state ≠ .dead ∧
        (st.sysKill c pid).taskList = st.taskList.erase t := by
  unfold State.sysKill
  cases hfind : st.taskFind pid with
  | none => exact Or.inl rfl
  | some t =>
    dsimp only
    split
    · exact Or.inl rfl
    unfold State.taskKill
    split
    · exact Or.inl rfl
    rename_i halive
    split
    · exact Or.inl rfl
    split
    · exact Or.inl rfl
    · rename_i hstop
      exact Or.inr ⟨t, rfl, hstop, halive, rfl⟩

theorem step_taskList (st : State) (op : Op) :
    (step st op).1.taskList = st.taskList ∨
      (∃ a, (op = .create a ∨ op = .bringUp a) ∧ a ∉ st.taskList ∧
        (step st op).1.taskList = a :: st.taskList) ∨
      ∃ c pid t, op = .kill c pid ∧ st.taskFind pid = some t ∧ (st.task t).state ≠ .running ∧
        (step st op).1.taskList = st.taskList.erase t := by
  cases op with
  | create a =>
    show (st.taskCreate a).taskList = _ ∨ _
    unfold State.taskCreate
    split
    · exact Or.inl rfl
    · rename_i ha
      exact Or.inr (Or.inl ⟨a, Or.inl rfl, ha, by simp [step, State.taskCreate, ha]⟩)
  | bringUp a =>
    show (st.bringUp a).taskList = _ ∨ _
    unfold State.bringUp
    split
    · exact Or.inl rfl
    · rename_i hroom
      have ha : a ∉ st.taskList := fun hin => hroom (Or.inr hin)
      exact Or.inr (Or.inl ⟨a, Or.inr rfl, ha, by simp [step, State.bringUp, hroom]⟩)
  | yield c => exact Or.inl (on_taskList (State.schedule_taskList _ _ _))
  | tick c => exact Or.inl (on_taskList (State.taskSchedulerTick_taskList _ _))
  | sleep c ms => exact Or.inl (on_taskList (State.schedule_taskList _ _ _))
  | block c timeoutMs => exact Or.inl (on_taskList (State.schedule_taskList _ _ _))
  | wakeWaiters => exact Or.inl (State.wakeAll_taskList _ _ _)
  | kill c pid =>
    by_cases hc : c < st.cpuCount
    · have hstep : (step st (.kill c pid)).1 = st.sysKill c pid := by simp [step, on, hc]
      rw [hstep]
      rcases st.sysKill_taskList c pid with hsame | ⟨t, hfind, hstop, -, hlist⟩
      · exact Or.inl hsame
      · exact Or.inr (Or.inr ⟨c, pid, t, rfl, hfind, hstop, hlist⟩)
    · have hstep : (step st (.kill c pid)).1 = st := by simp [step, on, hc]
      rw [hstep]
      exact Or.inl rfl
  | exit c =>
    refine Or.inl (on_taskList ?_)
    split <;> rfl
  | checkKill c =>
    refine Or.inl (on_taskList ?_)
    split <;> rfl
  | enterKcall c => exact Or.inl (on_taskList rfl)
  | leaveKcall c =>
    refine Or.inl (on_taskList ?_)
    dsimp only
    split
    · rw [State.schedule_taskList]
      rfl
    · rfl

theorem removed_cases {op : Op} (hin : t ∈ st.taskList) (hout : t ∉ (step st op).1.taskList) :
    ∃ c pid, op = .kill c pid ∧ st.taskFind pid = some t ∧ (st.task t).state ≠ .running := by
  rcases step_taskList st op with hsame | ⟨a, -, -, hcons⟩ | ⟨c, pid, x, hop, hfind, hstop, herase⟩
  · rw [hsame] at hout
    exact absurd hin hout
  · rw [hcons] at hout
    exact absurd (List.mem_cons_of_mem _ hin) hout
  · have hxt : t = x := by grind
    exact ⟨c, pid, hop, by rw [hxt, hfind], by rw [hxt]; exact hstop⟩

/-- A task that joins the list was created, or is the idle task of a CPU that came up. -/
theorem added_cases {op : Op} (hout : t ∉ st.taskList) (hin : t ∈ (step st op).1.taskList) :
    op = .create t ∨ op = .bringUp t := by
  rcases step_taskList st op with hsame | ⟨a, hop, -, hcons⟩ | ⟨c, pid, x, -, -, -, herase⟩
  · rw [hsame] at hin
    exact absurd hin hout
  · grind
  · rw [herase] at hin
    exact absurd (List.mem_of_mem_erase hin) hout

theorem created_listed (st : State) (a : Addr) : a ∈ (step st (.create a)).1.taskList := by
  show a ∈ (st.taskCreate a).taskList
  unfold State.taskCreate
  split
  · rename_i ha
    exact ha
  · exact List.mem_cons_self

/-- **The scheduler over any run.**  The running tasks are the current ones, one for each
CPU; the run queue is a ring of the tasks that were created and not removed; a task that
has exited never runs again; and what leaves the list is killed and runs nowhere. -/
theorem scheduler_invariant (h : machine.Reachable (fun _ _ => True) st) :
    (∀ t ∈ st.taskList, (st.task t).state = .running ↔ ∃ c < st.cpuCount, st.current c = t) ∧
    (∀ c < st.cpuCount, st.current c ∈ st.taskList) ∧
    (∀ c < st.cpuCount, ∀ d < st.cpuCount, st.current c = st.current d → c = d) ∧
    Ring.Holds st.runQueue.next st.runQueue.head (fun t => t ∈ st.taskList ∧ ¬st.IsIdle t) ∧
    (∀ c < st.cpuCount, (st.task (st.chooseNext c)).state ≠ .dead) ∧
    (∀ t, Exited t st → ∀ ops, Exited t (machine.run st ops) ∧
      ∀ c < (machine.run st ops).cpuCount, (machine.run st ops).current c ≠ t) ∧
    (∀ a, a ∈ (step st (.create a)).1.taskList) ∧
    (∀ op t, t ∉ st.taskList → t ∈ (step st op).1.taskList → op = .create t ∨ op = .bringUp t) ∧
    ∀ op t, t ∈ st.taskList → t ∉ (step st op).1.taskList →
      (∃ c pid, op = .kill c pid ∧ st.taskFind pid = some t) ∧
        ∀ c < (step st op).1.cpuCount, (step st op).1.current c ≠ t := by
  have hinv := reachable_inv h
  refine ⟨hinv.running, hinv.listed, hinv.apart, hinv.ring, fun c hc => hinv.chooseNext_alive hc,
    ?_, created_listed st, fun op t => added_cases, ?_⟩
  · intro t ht ops
    obtain ⟨hinv', hexit⟩ := ht.run hinv ops
    exact ⟨hexit, fun c hc => hexit.ne_current hinv' hc⟩
  · intro op t hin hout
    obtain ⟨c, pid, hop, hfind, -⟩ := removed_cases hin hout
    refine ⟨⟨c, pid, hop, hfind⟩, ?_⟩
    intro d hd heq
    exact hout (heq ▸ (hinv.step op).listed d hd)

/-- The kernel on its first CPU. -/
def booted : State where
  task t := if t = 0 then { state := .running } else {}
  taskList := [0]
  runQueue := ⟨id, none⟩
  cpus _ := ⟨0, 0⟩
  cpuCount := 1
  tickCount := 0
  nextPid := 1

/-- Two CPUs and three tasks: one sleeps and is killed, one exits, one goes on. -/
def threeTasks : List Op :=
  [.bringUp 1, .create 2, .create 3, .create 4, .yield 0, .yield 1, .block 0 5, .tick 0,
    .kill 1 3, .exit 1, .wakeWaiters, .yield 1]

theorem threeTasks_invariant :
    (machine.run booted threeTasks).taskList = [3, 2, 1, 0] ∧
    (machine.run booted threeTasks).current 0 = 2 ∧
    Ring.Holds (machine.run booted threeTasks).runQueue.next
      (machine.run booted threeTasks).runQueue.head
      (fun t => t ∈ (machine.run booted threeTasks).taskList ∧
        ¬(machine.run booted threeTasks).IsIdle t) := by
  have hstart : machine.start booted := ⟨rfl, rfl, rfl, rfl, rfl, rfl, rfl⟩
  have hreach : machine.Reachable (fun _ _ => True) (machine.run booted threeTasks) :=
    Machine.Reachable.run (.start hstart) _ fun _ _ _ _ => trivial
  exact ⟨by decide +kernel, by decide +kernel, (scheduler_invariant hreach).2.2.2.1⟩

end Sched
