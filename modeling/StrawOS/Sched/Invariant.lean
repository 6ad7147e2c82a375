import StrawOS.Sched.Model

/-!
# The invariant of the scheduler

`Sound up st` is what holds when the CPUs `up` run their current task.  Between two
calls these are all CPUs; inside `schedule` and `task_exit` one CPU has put its task
down and not yet taken up another.  `Inv.vacate` and `Vacant.dispatch` lead there and
back, and every call is made of them and of edits that start and stop no task.
-/

namespace Sched

/-- A CPU's own idle task. -/
def State.IsIdle (st : State) (t : Addr) : Prop := ∃ c < st.cpuCount, st.idle c = t

/-- The invariant while the CPUs `up` run their current task. -/
structure Sound (up : Nat → Prop) (st : State) : Prop where
  nodup : st.taskList.Nodup
  ring : Ring.Holds st.runQueue.next st.runQueue.head fun t => t ∈ st.taskList ∧ ¬st.IsIdle t
  idleListed : ∀ c < st.cpuCount, st.idle c ∈ st.taskList
  idleApart : ∀ c < st.cpuCount, ∀ d < st.cpuCount, st.idle c = st.idle d → c = d
  idleTask : ∀ t, st.IsIdle t → (st.task t).pid = 0 ∧ (st.task t).state ≠ .dead ∧
    (st.task t).killPending = false
  listed : ∀ c < st.cpuCount, st.current c ∈ st.taskList
  own : ∀ c < st.cpuCount, ∀ d < st.cpuCount, st.current c = st.idle d → c = d
  running : ∀ t ∈ st.taskList, (st.task t).state = .running ↔ ∃ c, up c ∧ st.current c = t
  apart : ∀ c, up c → ∀ d, up d → st.current c = st.current d → c = d

/-- Every CPU runs its current task. -/
def Inv (st : State) : Prop := Sound (· < st.cpuCount) st

/-- Every CPU but one runs its current task. -/
def Vacant (c : Nat) (st : State) : Prop := Sound (fun d => d < st.cpuCount ∧ d ≠ c) st

variable {st : State} {up : Nat → Prop} {c : Nat} {t : Addr}

/-! ## Choosing a task -/

/-- `pick_next` finds a ready task of the queue. -/
theorem Sound.pickNext (h : Sound up st) (hpick : st.pickNext = some t) :
    t ∈ st.taskList ∧ ¬st.IsIdle t ∧ (st.task t).state = .ready := by
  have hring := h.ring
  unfold State.pickNext at hpick
  cases hhead : st.runQueue.head with
  | none => simp [hhead] at hpick
  | some a =>
    rw [hhead] at hring
    obtain ⟨l, horbit, -, -, hmem⟩ := hring.orbit fun x (hx : x ∈ st.taskList ∧ ¬st.IsIdle x) => hx.1
    simp only [hhead, horbit, List.tail_cons] at hpick
    have hin := List.mem_of_find?_eq_some hpick
    have hready := List.find?_some hpick
    have ht : t ∈ a :: l := by
      rw [List.mem_append, List.mem_singleton] at hin
      exact List.mem_cons.mpr hin.symm
    exact ⟨((hmem t).mp ht).1, ((hmem t).mp ht).2, by simpa using hready⟩

theorem State.chooseNext_cases (st : State) (c : Nat) :
    st.pickNext = some (st.chooseNext c) ∨
      (st.pickNext = none ∧ st.chooseNext c = st.current c ∧ st.current c ≠ st.idle c ∧
        (st.task (st.current c)).state = .ready) ∨
      (st.pickNext = none ∧ st.chooseNext c = st.idle c) := by
  unfold State.chooseNext
  cases hpick : st.pickNext with
  | some t => exact Or.inl rfl
  | none => grind

/-- **A dead task is never chosen.** -/
theorem Sound.chooseNext_alive (h : Sound up st) (hc : c < st.cpuCount) :
    (st.task (st.chooseNext c)).state ≠ .dead := by
  rcases st.chooseNext_cases c with hpick | ⟨-, hprev, -, hready⟩ | ⟨-, hidle⟩
  · rw [(h.pickNext hpick).2.2]
    decide
  · rw [hprev, hready]
    decide
  · rw [hidle]
    exact (h.idleTask _ ⟨c, hc, rfl⟩).2.1

/-- The choice is a listed task, and if it is an idle task then that of the CPU. -/
theorem Sound.chooseNext_own (h : Sound up st) (hc : c < st.cpuCount) :
    st.chooseNext c ∈ st.taskList ∧
      ∀ d < st.cpuCount, st.chooseNext c = st.idle d → c = d := by
  rcases st.chooseNext_cases c with hpick | ⟨-, hprev, -, -⟩ | ⟨-, hidle⟩
  · obtain ⟨hin, hnot, -⟩ := h.pickNext hpick
    refine ⟨hin, ?_⟩
    intro d hd heq
    exact absurd ⟨d, hd, heq.symm⟩ hnot
  · rw [hprev]
    exact ⟨h.listed c hc, h.own c hc⟩
  · rw [hidle]
    exact ⟨h.idleListed c hc, h.idleApart c hc⟩

theorem Vacant.chooseNext_free (h : Vacant c st) (hc : c < st.cpuCount) {d : Nat}
    (hd : d < st.cpuCount) (hne : d ≠ c) : st.current d ≠ st.chooseNext c := by
  intro heq
  have hrun : (st.task (st.chooseNext c)).state = .running :=
    (h.running _ (h.chooseNext_own hc).1).mpr ⟨d, ⟨hd, hne⟩, heq⟩
  rcases st.chooseNext_cases c with hpick | ⟨-, hprev, -, hready⟩ | ⟨-, hidle⟩
  · rw [(h.pickNext hpick).2.2] at hrun
    cases hrun
  · rw [hprev, hready] at hrun
    cases hrun
  · rw [hidle] at heq
    exact hne (h.own d hd c hc heq)

/-! ## Edits -/

@[simp] theorem State.setTask_self (st : State) (t : Addr) (k : Task) :
    (st.setTask t k).task t = k := Function.update_self ..

theorem State.setTask_of_ne (st : State) {t x : Addr} (k : Task) (hx : x ≠ t) :
    (st.setTask t k).task x = st.task x := Function.update_of_ne hx ..

theorem Sound.setTask_idle (h : Sound up st) {k : Task}
    (hidle : st.IsIdle t → k.pid = 0 ∧ k.state ≠ .dead ∧ k.killPending = false) (x : Addr)
    (hx : st.IsIdle x) : ((st.setTask t k).task x).pid = 0 ∧ ((st.setTask t k).task x).state ≠ .dead ∧
      ((st.setTask t k).task x).killPending = false := by
  by_cases hxt : x = t
  · subst hxt
    rw [State.setTask_self]
    exact hidle hx
  · rw [State.setTask_of_ne _ _ hxt]
    exact h.idleTask x hx

theorem Sound.setTask (h : Sound up st) {k : Task}
    (hstate : k.state = .running ↔ (st.task t).state = .running)
    (hidle : st.IsIdle t → k.pid = 0 ∧ k.state ≠ .dead ∧ k.killPending = false) :
    Sound up (st.setTask t k) := by
  refine ⟨h.nodup, h.ring, h.idleListed, h.idleApart, h.setTask_idle hidle, h.listed, h.own, ?_, h.apart⟩
  · intro x hx
    by_cases hxt : x = t
    · subst hxt
      rw [State.setTask_self, hstate]
      exact h.running x hx
    · rw [State.setTask_of_ne _ _ hxt]
      exact h.running x hx

theorem Inv.vacate (h : Inv st) (hc : c < st.cpuCount) {k : Task} (hstate : k.state ≠ .running)
    (hidle : st.IsIdle (st.current c) → k.pid = 0 ∧ k.state ≠ .dead ∧ k.killPending = false) :
    Vacant c (st.setTask (st.current c) k) := by
  refine ⟨h.nodup, h.ring, h.idleListed, h.idleApart, Sound.setTask_idle h hidle, h.listed, h.own, ?_, ?_⟩
  · intro x hx
    by_cases hxt : x = st.current c
    · subst hxt
      have hno : ¬∃ d, (d < st.cpuCount ∧ d ≠ c) ∧ st.current d = st.current c := by
        intro hex
        obtain ⟨d, ⟨hd, hne⟩, heq⟩ := hex
        exact hne (h.apart d hd c hc heq)
      rw [State.setTask_self]
      exact iff_of_false hstate hno
    · rw [State.setTask_of_ne _ _ hxt, h.running x hx]
      constructor
      · intro hex
        obtain ⟨d, hd, heq⟩ := hex
        refine ⟨d, ⟨hd, ?_⟩, heq⟩
        intro hdc
        exact hxt (by rw [← heq, hdc])
      · intro hex
        obtain ⟨d, ⟨hd, -⟩, heq⟩ := hex
        exact ⟨d, hd, heq⟩
  · intro d hd e he heq
    exact h.apart d hd.1 e he.1 heq

/-! ## The switch -/

@[simp] theorem State.dispatch_taskList (st : State) (c : Nat) :
    (st.dispatch c).taskList = st.taskList := rfl

@[simp] theorem State.dispatch_cpuCount (st : State) (c : Nat) :
    (st.dispatch c).cpuCount = st.cpuCount := rfl

@[simp] theorem State.dispatch_idle (st : State) (c d : Nat) :
    (st.dispatch c).idle d = st.idle d := by
  by_cases hd : d = c
  · subst hd
    simp [State.dispatch, State.idle, State.setTask]
  · simp [State.dispatch, State.idle, State.setTask, Function.update_of_ne hd]

theorem State.dispatch_isIdle (st : State) (c : Nat) (t : Addr) :
    (st.dispatch c).IsIdle t ↔ st.IsIdle t := by
  simp [State.IsIdle]

@[simp] theorem State.dispatch_current_self (st : State) (c : Nat) :
    (st.dispatch c).current c = st.chooseNext c := by
  simp [State.dispatch, State.current]

theorem State.dispatch_current_of_ne (st : State) {c d : Nat} (hd : d ≠ c) :
    (st.dispatch c).current d = st.current d := by
  simp [State.dispatch, State.current, State.setTask, Function.update_of_ne hd]

theorem State.dispatch_task (st : State) (c : Nat) (t : Addr) :
    (st.dispatch c).task t =
      { st.task t with
        state := if t = st.chooseNext c then .running else (st.task t).state
        waiting := if t = st.chooseNext c then false else (st.task t).waiting
        reschedPending := if t = st.current c then false else (st.task t).reschedPending } := by
  show Function.update (Function.update st.task _ _) _ _ t = _
  by_cases hprev : t = st.current c
  · by_cases hnext : t = st.chooseNext c
    · rw [if_pos hnext, if_pos hnext, if_pos hprev, hprev, Function.update_self]
      rw [hprev] at hnext
      simp [State.setTask, ← hnext]
    · rw [if_neg hnext, if_neg hnext, if_pos hprev, hprev, Function.update_self]
      rw [hprev] at hnext
      simp [State.setTask, Function.update_of_ne hnext]
  · rw [Function.update_of_ne hprev, if_neg hprev]
    by_cases hnext : t = st.chooseNext c
    · rw [if_pos hnext, if_pos hnext, hnext, Function.update_self]
    · rw [if_neg hnext, if_neg hnext, Function.update_of_ne hnext]

theorem State.dispatch_head (st : State) (c : Nat) :
    (st.dispatch c).runQueue.head =
      match st.pickNext with
      | some t => some t
      | none => st.runQueue.head := rfl

theorem Vacant.dispatch (h : Vacant c st) (hc : c < st.cpuCount) : Inv (st.dispatch c) := by
  obtain ⟨hlisted, hown⟩ := h.chooseNext_own hc
  refine ⟨h.nodup, ?_, ?_, ?_, ?_, ?_, ?_, ?_, ?_⟩
  · have hring : Ring.Holds st.runQueue.next (st.dispatch c).runQueue.head
        fun t => t ∈ st.taskList ∧ ¬st.IsIdle t := by
      rw [State.dispatch_head]
      cases hpick : st.pickNext with
      | none => exact h.ring
      | some t =>
        obtain ⟨hin, hnot, -⟩ := h.pickNext hpick
        exact h.ring.move ⟨hin, hnot⟩
    exact hring.iff fun x => by rw [State.dispatch_isIdle, State.dispatch_taskList]
  · intro d hd
    rw [State.dispatch_idle]
    exact h.idleListed d hd
  · intro d hd e he heq
    rw [State.dispatch_idle, State.dispatch_idle] at heq
    exact h.idleApart d hd e he heq
  · intro x hx
    rw [State.dispatch_isIdle] at hx
    obtain ⟨hpid, halive, hkill⟩ := h.idleTask x hx
    rw [State.dispatch_task]
    refine ⟨hpid, ?_, hkill⟩
    dsimp only
    split
    · decide
    · exact halive
  · intro d hd
    by_cases hdc : d = c
    · subst hdc
      rw [State.dispatch_current_self]
      exact hlisted
    · rw [State.dispatch_current_of_ne _ hdc]
      exact h.listed d hd
  · intro d hd e he heq
    rw [State.dispatch_idle] at heq
    by_cases hdc : d = c
    · subst hdc
      rw [State.dispatch_current_self] at heq
      exact hown e he heq
    · rw [State.dispatch_current_of_ne _ hdc] at heq
      exact h.own d hd e he heq
  · intro x hx
    rw [State.dispatch_task]
    by_cases hnext : x = st.chooseNext c
    · rw [if_pos hnext]
      exact iff_of_true rfl ⟨c, hc, by rw [State.dispatch_current_self, hnext]⟩
    · rw [if_neg hnext, h.running x hx]
      constructor
      · intro hex
        obtain ⟨d, ⟨hd, hdc⟩, heq⟩ := hex
        exact ⟨d, hd, by rw [State.dispatch_current_of_ne _ hdc, heq]⟩
      · intro hex
        obtain ⟨d, hd, heq⟩ := hex
        have hdc : d ≠ c := by
          intro hdc
          rw [hdc, State.dispatch_current_self] at heq
          exact hnext heq.symm
        rw [State.dispatch_current_of_ne _ hdc] at heq
        exact ⟨d, ⟨hd, hdc⟩, heq⟩
  · intro d hd e he heq
    by_cases hdc : d = c <;> by_cases hec : e = c
    · rw [hdc, hec]
    · rw [hdc, State.dispatch_current_self, State.dispatch_current_of_ne _ hec] at heq
      exact absurd heq.symm (h.chooseNext_free hc he hec)
    · rw [hec, State.dispatch_current_self, State.dispatch_current_of_ne _ hdc] at heq
      exact absurd heq (h.chooseNext_free hc hd hdc)
    · rw [State.dispatch_current_of_ne _ hdc, State.dispatch_current_of_ne _ hec] at heq
      exact h.apart d ⟨hd, hdc⟩ e ⟨he, hec⟩ heq

/-! ## The calls -/

theorem Inv.current_running (h : Inv st) (hc : c < st.cpuCount) :
    (st.task (st.current c)).state = .running :=
  (h.running _ (h.listed c hc)).mpr ⟨c, hc, rfl⟩

theorem Inv.setCurrent (h : Inv st) (hc : c < st.cpuCount) {k : Task} (hstate : k.state = .running)
    (hpid : k.pid = (st.task (st.current c)).pid)
    (hkill : k.killPending = (st.task (st.current c)).killPending) :
    Inv (st.setTask (st.current c) k) := by
  refine Sound.setTask h (iff_of_true hstate (h.current_running hc)) ?_
  intro hidle
  obtain ⟨hpid', -, hkill'⟩ := h.idleTask _ hidle
  refine ⟨hpid.trans hpid', ?_, hkill.trans hkill'⟩
  rw [hstate]
  decide

/-- `schedule` first puts the current task down. -/
theorem Inv.retire_eq (h : Inv st) (hc : c < st.cpuCount) (prevState : TaskState) :
    st.retire c prevState =
      st.setTask (st.current c) { st.task (st.current c) with state := prevState } := by
  rw [State.retire, if_pos (h.current_running hc)]

theorem Inv.retire (h : Inv st) (hc : c < st.cpuCount) {prevState : TaskState}
    (hprev : prevState = .ready ∨ prevState = .sleeping) : Vacant c (st.retire c prevState) := by
  rw [h.retire_eq hc]
  refine h.vacate hc ?_ ?_
  · rcases hprev with rfl | rfl <;> simp
  · intro hidle
    obtain ⟨hpid, -, hkill⟩ := h.idleTask _ hidle
    refine ⟨hpid, ?_, hkill⟩
    rcases hprev with rfl | rfl <;> simp

theorem Inv.schedule (h : Inv st) (hc : c < st.cpuCount) {prevState : TaskState}
    (hprev : prevState = .ready ∨ prevState = .sleeping) : Inv (st.schedule c prevState) := by
  refine (h.retire hc hprev).dispatch ?_
  rw [h.retire_eq hc]
  exact hc

theorem Inv.putDead (h : Inv st) (hc : c < st.cpuCount) (hidle : ¬st.IsIdle (st.current c)) :
    Vacant c (st.setTask (st.current c) { st.task (st.current c) with state := .dead }) := by
  refine h.vacate hc (by simp) ?_
  intro hno
  exact absurd hno hidle

theorem Inv.taskExit (h : Inv st) (hc : c < st.cpuCount) (hidle : ¬st.IsIdle (st.current c)) :
    Inv (st.taskExit c) := (h.putDead hc hidle).dispatch hc

theorem Sound.wakeIf (h : Sound up st) (p : Task → Bool) (t : Addr) : Sound up (st.wakeIf p t) := by
  unfold State.wakeIf
  split
  · rename_i hsleep
    refine h.setTask (by simp [hsleep.1]) ?_
    intro hidle
    obtain ⟨hpid, -, hkill⟩ := h.idleTask _ hidle
    exact ⟨hpid, by simp, hkill⟩
  · exact h

@[simp] theorem State.wakeIf_taskList (st : State) (p : Task → Bool) (t : Addr) :
    (st.wakeIf p t).taskList = st.taskList := by
  unfold State.wakeIf
  split <;> rfl

@[simp] theorem State.wakeIf_cpuCount (st : State) (p : Task → Bool) (t : Addr) :
    (st.wakeIf p t).cpuCount = st.cpuCount := by
  unfold State.wakeIf
  split <;> rfl

theorem State.wakeAll {P : State → Prop} {p : Task → Bool} (hone : ∀ st t, P st → P (st.wakeIf p t))
    (l : List Addr) (st : State) (h : P st) : P (l.foldl (fun st t => st.wakeIf p t) st) := by
  induction l generalizing st with
  | nil => exact h
  | cons t l ih => exact ih _ (hone _ _ h)

theorem State.wakeAll_cpuCount (p : Task → Bool) (l : List Addr) (st : State) :
    (l.foldl (fun st t => st.wakeIf p t) st).cpuCount = st.cpuCount :=
  State.wakeAll (P := fun s => s.cpuCount = st.cpuCount)
    (fun s t hs => (s.wakeIf_cpuCount p t).trans hs) l st rfl

theorem Inv.wakeAll (h : Inv st) (p : Task → Bool) (l : List Addr) :
    Inv (l.foldl (fun st t => st.wakeIf p t) st) := by
  refine State.wakeAll (P := Inv) ?_ l st h
  intro s t hs
  have hcount : Inv (s.wakeIf p t) ↔ Sound (· < s.cpuCount) (s.wakeIf p t) := by
    rw [Inv, State.wakeIf_cpuCount]
  exact hcount.mpr (Sound.wakeIf hs p t)

theorem Inv.tickWake (h : Inv st) (hc : c < st.cpuCount) {st' : State}
    (heq : (if c = 0 then { st with tickCount := st.tickCount + 1 }.wakeSleepers (st.tickCount + 1)
      else st) = st') : Inv st' ∧ c < st'.cpuCount := by
  rw [← heq]
  split
  · have htick : Inv { st with tickCount := st.tickCount + 1 } := by
      obtain ⟨h1, h2, h3, h4, h5, h6, h7, h8, h9⟩ := h
      exact ⟨h1, h2, h3, h4, h5, h6, h7, h8, h9⟩
    refine ⟨htick.wakeAll _ _, ?_⟩
    rw [State.wakeSleepers, State.wakeAll_cpuCount]
    exact hc
  · exact ⟨h, hc⟩

theorem Inv.taskSchedulerTick (h : Inv st) (hc : c < st.cpuCount) : Inv (st.taskSchedulerTick c) := by
  unfold State.taskSchedulerTick
  generalize hst' : (if c = 0 then _ else st) = st'
  obtain ⟨h', hc'⟩ := h.tickWake hc hst'
  dsimp only
  split
  · exact h'.setCurrent hc' (h'.current_running hc') rfl rfl
  · exact h'.schedule hc' (Or.inl rfl)

theorem Inv.setWake (h : Inv st) (hc : c < st.cpuCount) (wakeTick : UInt64) (waiting : Bool) :
    Inv (st.setTask (st.current c)
      { st.task (st.current c) with wakeTick := wakeTick, waiting := waiting }) :=
  h.setCurrent hc (h.current_running hc) rfl rfl

theorem Inv.taskSleepMs (h : Inv st) (hc : c < st.cpuCount) (ms : UInt32) :
    Inv (st.taskSleepMs c ms) := (h.setWake hc _ _).schedule hc (Or.inr rfl)

theorem Inv.taskBlock (h : Inv st) (hc : c < st.cpuCount) (timeoutMs : UInt32) :
    Inv (st.taskBlock c timeoutMs) := (h.setWake hc _ _).schedule hc (Or.inr rfl)

/-- `task_find` finds no idle task. -/
theorem Inv.taskFind (h : Inv st) {pid : UInt64} (hfind : st.taskFind pid = some t) :
    t ∈ st.taskList ∧ ¬st.IsIdle t := by
  unfold State.taskFind at hfind
  split at hfind
  · cases hfind
  · rename_i hpid
    have hin := List.mem_of_find?_eq_some hfind
    have hsame : (st.task t).pid = pid := by simpa using List.find?_some hfind
    refine ⟨hin, ?_⟩
    intro hidle
    exact hpid (hsame ▸ (h.idleTask t hidle).1)

theorem Inv.removeTask (h : Inv st) (ht : t ∈ st.taskList) (hidle : ¬st.IsIdle t)
    (hstop : (st.task t).state ≠ .running) (k : Task) :
    Inv { st.setTask t k with
      runQueue := Ring.remove st.runQueue t st.taskList.length
      taskList := st.taskList.erase t } := by
  have hcur : ∀ d < st.cpuCount, st.current d ≠ t := by
    intro d hd heq
    exact hstop (heq ▸ h.current_running hd)
  have hmem : ∀ x, x ∈ st.taskList.erase t ↔ x ≠ t ∧ x ∈ st.taskList := fun x =>
    h.nodup.mem_erase_iff
  refine ⟨h.nodup.erase t, ?_, ?_, h.idleApart, ?_, ?_, h.own, ?_, h.apart⟩
  · have hring := Ring.remove_holds h.ring ⟨ht, hidle⟩ fun x (hx : x ∈ st.taskList ∧ ¬st.IsIdle x) => hx.1
    refine hring.iff ?_
    intro x
    show (x ∈ st.taskList.erase t ∧ ¬st.IsIdle x) ↔ _
    rw [hmem, and_assoc]
  · intro d hd
    refine (hmem _).mpr ⟨?_, h.idleListed d hd⟩
    intro heq
    exact hidle ⟨d, hd, heq⟩
  · intro x hx
    have hxt : x ≠ t := fun heq => hidle (heq ▸ hx)
    have hkeep := h.idleTask x hx
    rw [← State.setTask_of_ne st k hxt] at hkeep
    exact hkeep
  · intro d hd
    exact (hmem _).mpr ⟨hcur d hd, h.listed d hd⟩
  · intro x hx
    obtain ⟨hxt, hin⟩ := (hmem x).mp hx
    have hrun := h.running x hin
    rw [← State.setTask_of_ne st k hxt] at hrun
    exact hrun

theorem Inv.sysKill (h : Inv st) (hc : c < st.cpuCount) (pid : UInt64) : Inv (st.sysKill c pid) := by
  unfold State.sysKill
  cases hfind : st.taskFind pid with
  | none => exact h
  | some t =>
    obtain ⟨ht, hidle⟩ := h.taskFind hfind
    dsimp only
    split
    · exact h
    unfold State.taskKill
    split
    · exact h
    split
    · rename_i hcur
      exact h.taskExit hc (hcur ▸ hidle)
    split
    · refine Sound.setTask h Iff.rfl ?_
      intro hno
      exact absurd hno hidle
    · rename_i hstop
      exact h.removeTask ht hidle hstop _

theorem Inv.taskCreate (h : Inv st) (a : Addr) : Inv (st.taskCreate a) := by
  unfold State.taskCreate
  split
  · exact h
  rename_i ha
  have hidle : ¬st.IsIdle a := by
    intro hno
    obtain ⟨d, hd, heq⟩ := hno
    exact ha (heq ▸ h.idleListed d hd)
  have hother : ∀ x, x ≠ a →
      Function.update st.task a { pid := st.nextPid } x = st.task x := fun x hx =>
    Function.update_of_ne hx ..
  refine ⟨List.nodup_cons.mpr ⟨ha, h.nodup⟩, ?_, ?_, h.idleApart, ?_, ?_, h.own, ?_, h.apart⟩
  · refine (Ring.push_holds h.ring fun hin => ha hin.1).iff ?_
    intro x
    show (x ∈ a :: st.taskList ∧ ¬st.IsIdle x) ↔ x = a ∨ (x ∈ st.taskList ∧ ¬st.IsIdle x)
    constructor
    · grind
    · grind
  · intro d hd
    exact List.mem_cons_of_mem _ (h.idleListed d hd)
  · intro x hx
    have hxa : x ≠ a := fun heq => hidle (heq ▸ hx)
    dsimp only
    rw [hother x hxa]
    exact h.idleTask x hx
  · intro d hd
    exact List.mem_cons_of_mem _ (h.listed d hd)
  · intro x hx
    dsimp only
    rcases List.mem_cons.mp hx with rfl | hin
    · refine iff_of_false (by simp) ?_
      intro hex
      obtain ⟨d, hd, heq⟩ := hex
      exact ha (heq ▸ h.listed d hd)
    · have hxa : x ≠ a := fun heq => ha (heq ▸ hin)
      rw [hother x hxa]
      exact h.running x hin

/-- Two families that never agree on different CPUs, each given a new CPU with a new
task. -/
theorem agree_succ {n : Nat} {a : Addr} {l : List Addr} {f g : Nat → Addr} (ha : a ∉ l)
    (hf : ∀ d < n, f d ∈ l) (hg : ∀ d < n, g d ∈ l) (hfn : f n = a) (hgn : g n = a)
    (h : ∀ d < n, ∀ e < n, f d = g e → d = e) : ∀ d < n + 1, ∀ e < n + 1, f d = g e → d = e := by
  intro d hd e he heq
  rcases Nat.lt_succ_iff_lt_or_eq.mp hd with hlt | rfl
  · grind
  · grind

theorem Inv.bringUp (h : Inv st) (a : Addr) : Inv (st.bringUp a) := by
  unfold State.bringUp
  split
  · exact h
  rename_i hroom
  have ha : a ∉ st.taskList := fun hin => hroom (Or.inr hin)
  set st' : State :=
    { st with
      task := Function.update st.task a { state := .running }
      taskList := a :: st.taskList
      cpus := Function.update st.cpus st.cpuCount ⟨a, a⟩
      cpuCount := st.cpuCount + 1 } with hst'
  have hold : ∀ d < st.cpuCount, st'.idle d = st.idle d ∧ st'.current d = st.current d := by
    intro d hd
    have hne : d ≠ st.cpuCount := Nat.ne_of_lt hd
    simp [hst', State.idle, State.current, Function.update_of_ne hne]
  have hnew : st'.idle st.cpuCount = a ∧ st'.current st.cpuCount = a := by
    simp [hst', State.idle, State.current]
  have hcases : ∀ d < st'.cpuCount, d < st.cpuCount ∨ d = st.cpuCount := fun d hd =>
    Nat.lt_succ_iff_lt_or_eq.mp hd
  have htask : ∀ x, x ≠ a → st'.task x = st.task x := fun x hx => Function.update_of_ne hx ..
  have hself : st'.task a = { state := .running } := Function.update_self ..
  have hne : ∀ x ∈ st.taskList, x ≠ a := fun x hx heq => ha (heq ▸ hx)
  have hisIdle : ∀ x, st'.IsIdle x ↔ x = a ∨ st.IsIdle x := by
    intro x
    constructor
    · intro hx
      obtain ⟨d, hd, heq⟩ := hx
      rcases hcases d hd with hlt | rfl
      · exact Or.inr ⟨d, hlt, by rw [← (hold d hlt).1, heq]⟩
      · exact Or.inl (by rw [← heq, hnew.1])
    · intro hx
      rcases hx with rfl | ⟨d, hd, heq⟩
      · exact ⟨st.cpuCount, Nat.lt_succ_self _, hnew.1⟩
      · exact ⟨d, Nat.lt_succ_of_lt hd, by rw [(hold d hd).1, heq]⟩
  refine ⟨List.nodup_cons.mpr ⟨ha, h.nodup⟩, ?_, ?_, ?_, ?_, ?_, ?_, ?_, ?_⟩
  · refine h.ring.iff ?_
    intro x
    constructor
    · grind
    · grind
  · intro d hd
    rcases hcases d hd with hlt | rfl
    · rw [(hold d hlt).1]
      exact List.mem_cons_of_mem _ (h.idleListed d hlt)
    · rw [hnew.1]
      exact List.mem_cons_self
  · refine agree_succ ha ?_ ?_ hnew.1 hnew.1 ?_
    · exact fun d hd => (hold d hd).1 ▸ h.idleListed d hd
    · exact fun d hd => (hold d hd).1 ▸ h.idleListed d hd
    · intro d hd e he heq
      rw [(hold d hd).1, (hold e he).1] at heq
      exact h.idleApart d hd e he heq
  · intro x hx
    rcases (hisIdle x).mp hx with rfl | hidle
    · rw [hself]
      exact ⟨rfl, by simp, rfl⟩
    · obtain ⟨d, hd, heq⟩ := hidle
      have hxa : x ≠ a := hne x (heq ▸ h.idleListed d hd)
      rw [htask x hxa]
      exact h.idleTask x ⟨d, hd, heq⟩
  · intro d hd
    rcases hcases d hd with hlt | rfl
    · rw [(hold d hlt).2]
      exact List.mem_cons_of_mem _ (h.listed d hlt)
    · rw [hnew.2]
      exact List.mem_cons_self
  · refine agree_succ ha ?_ ?_ hnew.2 hnew.1 ?_
    · exact fun d hd => (hold d hd).2 ▸ h.listed d hd
    · exact fun d hd => (hold d hd).1 ▸ h.idleListed d hd
    · intro d hd e he heq
      rw [(hold d hd).2, (hold e he).1] at heq
      exact h.own d hd e he heq
  · intro x hx
    rcases List.mem_cons.mp hx with rfl | hin
    · rw [hself]
      exact iff_of_true rfl ⟨st.cpuCount, Nat.lt_succ_self _, hnew.2⟩
    · rw [htask x (hne x hin), h.running x hin]
      constructor
      · grind
      · grind
  · refine agree_succ ha ?_ ?_ hnew.2 hnew.2 ?_
    · exact fun d hd => (hold d hd).2 ▸ h.listed d hd
    · exact fun d hd => (hold d hd).2 ▸ h.listed d hd
    · intro d hd e he heq
      rw [(hold d hd).2, (hold e he).2] at heq
      exact h.apart d hd e he heq

end Sched
