import StrawOS.Sched.Model

/-!
# Turns of the run queue

The head of the run queue is also the cursor of the round robin: `pick_next` starts
behind it, `run_queue_push` puts a task right behind it, and when `run_queue_remove`
takes the head out, the task behind it becomes the head and so loses its turn.

`Queued` relates the ring to the list of its tasks in the order of the next turn.
-/

namespace Sched

/-- `pick_next`, with what it does to the run queue. -/
def State.select (st : State) : State :=
  { st with
    runQueue := { st.runQueue with
      head := match st.pickNext with
        | some t => some t
        | none => st.runQueue.head } }

/-- The run queue and the tasks selected so far.  `taskList` are the tasks that were
pushed and not removed. -/
structure QueueRun where
  sched : State
  chosen : List Addr

/-- The functions of the run queue, and what else happens to a task. -/
inductive QueueOp
  | pick
  | push (t : Addr)
  | remove (t : Addr)
  | setState (t : Addr) (state : TaskState)
  deriving DecidableEq

def queueStep (s : QueueRun) : QueueOp → QueueRun
  | .pick => ⟨s.sched.select, s.sched.pickNext.toList ++ s.chosen⟩
  | .push t =>
      { s with sched := { s.sched with
          runQueue := Ring.push s.sched.runQueue t
          taskList := t :: s.sched.taskList } }
  | .remove t =>
      { s with sched := { s.sched with
          runQueue := Ring.remove s.sched.runQueue t s.sched.taskList.length
          taskList := s.sched.taskList.erase t } }
  | .setState t state =>
      { s with sched := s.sched.setTask t { s.sched.task t with state := state } }

def queueMachine : Machine QueueRun QueueOp Unit where
  start s := s.sched.runQueue.head = none ∧ s.sched.taskList = [] ∧ s.chosen = []
  step s op := (queueStep s op, [])

/-- A push is of a task that is not in the queue and was not selected before; and the
task behind a head that is removed is not ready, or there is no third task that could
overtake it. -/
def Fair (s : QueueRun) : QueueOp → Prop
  | .push t => t ∉ s.sched.taskList ∧ t ∉ s.chosen
  | .remove t =>
      let next := s.sched.runQueue.next
      s.sched.runQueue.head = some t →
        (s.sched.task (next t)).state ≠ .ready ∨ next (next t) = t
  | _ => True

/-- The tasks of the queue in the order of the next turn. -/
structure Queued (s : QueueRun) (l : List Addr) : Prop where
  turn : Ring.Turn s.sched.runQueue l
  tasks : l.Perm s.sched.taskList

theorem Queued.length_le {s : QueueRun} {l : List Addr} (h : Queued s l) :
    l.length ≤ s.sched.taskList.length := Nat.le_of_eq h.tasks.length_eq

/-- `pick_next` takes the first ready task of the turn. -/
theorem Queued.pickNext {s : QueueRun} {l : List Addr} (h : Queued s l) :
    s.sched.pickNext = l.find? fun t => (s.sched.task t).state == .ready := by
  rw [State.pickNext]
  cases hhead : s.sched.runQueue.head with
  | none =>
    have hturn := h.turn
    rw [Ring.Turn, hhead] at hturn
    rw [hturn]
    rfl
  | some a =>
    obtain ⟨hloop, -⟩ := h.turn.orbit hhead h.length_le
    exact congrArg _ hloop

/-- Without a ready task nothing is selected; else the turn goes on behind the first
one. -/
theorem Queued.pick {s : QueueRun} {l : List Addr} (h : Queued s l) :
    s.sched.pickNext = none ∧ Queued (queueStep s .pick) l ∨
      ∃ pre z post, s.sched.pickNext = some z ∧ l = pre ++ z :: post ∧
        (s.sched.task z).state = .ready ∧ (∀ t ∈ pre, (s.sched.task t).state ≠ .ready) ∧
        Queued (queueStep s .pick) (post ++ pre ++ [z]) := by
  have hpick := h.pickNext
  cases hnext : s.sched.pickNext with
  | none =>
    left
    refine ⟨rfl, ?_, h.tasks⟩
    simp only [queueStep, State.select, hnext]
    exact h.turn
  | some z =>
    right
    rw [hnext] at hpick
    obtain ⟨hready, pre, post, rfl, hpre⟩ := List.find?_eq_some_iff_append.mp hpick.symm
    refine ⟨pre, z, post, rfl, rfl, by simpa using hready, by simpa using hpre, ?_, ?_⟩
    · simp only [queueStep, State.select, hnext]
      exact h.turn.move
    · have hcomm : (z :: (post ++ pre)).Perm (z :: (pre ++ post)) := List.perm_append_comm.cons z
      exact ((List.perm_append_singleton z _).trans
        (hcomm.trans List.perm_middle.symm)).trans h.tasks

theorem Queued.push {s : QueueRun} {l : List Addr} (h : Queued s l) {t : Addr}
    (ht : t ∉ s.sched.taskList) : Queued (queueStep s (.push t)) (t :: l) where
  turn := h.turn.push fun hm => ht (h.tasks.mem_iff.mp hm)
  tasks := h.tasks.cons t

/-- The three ways a removal can go: not in the queue, not the head, or the head. -/
theorem Queued.remove {s : QueueRun} {l : List Addr} (h : Queued s l) (t : Addr) :
    t ∉ l ∧ Queued (queueStep s (.remove t)) l ∨
      (∃ pre post b, l = pre ++ t :: (post ++ [b]) ∧
        Queued (queueStep s (.remove t)) (pre ++ (post ++ [b]))) ∨
      l = [t] ∧ Queued (queueStep s (.remove t)) [] ∨
      ∃ y m, l = y :: m ++ [t] ∧ s.sched.runQueue.head = some t ∧ s.sched.runQueue.next t = y ∧
        (s.sched.runQueue.next y = t → m = []) ∧ Queued (queueStep s (.remove t)) (m ++ [y]) := by
  by_cases ht : t ∈ l
  · right
    have hlen := h.length_le
    have herase : (l.erase t).Perm (queueStep s (.remove t)).sched.taskList := h.tasks.erase t
    obtain ⟨pre, post, rfl⟩ := List.append_of_mem ht
    have hnd := h.turn.nodup
    have hpre : t ∉ pre := by grind
    rw [List.erase_append_right _ hpre, List.erase_cons_head] at herase
    rcases List.eq_nil_or_concat' post with rfl | ⟨post, b, rfl⟩
    · right
      cases pre with
      | nil => exact Or.inl ⟨rfl, h.turn.remove_last _, herase⟩
      | cons y m =>
        right
        have hhead := h.turn.head_eq (l := y :: m) rfl
        have hturn := h.turn
        rw [Ring.Turn, hhead] at hturn
        obtain ⟨l, heq, hpath, -⟩ := hturn
        obtain ⟨rfl, -⟩ := List.append_inj' heq rfl
        obtain ⟨hty, hrest⟩ := hpath
        refine ⟨y, m, rfl, hhead, hty, ?_, h.turn.remove_head hlen, ?_⟩
        · intro hback
          cases m with
          | nil => rfl
          | cons w m =>
            obtain rfl : w = t := hrest.1.symm.trans hback
            simp at hnd
        · rw [List.append_nil] at herase
          exact (List.perm_append_singleton y m).trans herase
    · left
      exact ⟨pre, post, b, rfl, h.turn.remove hlen, herase⟩
  · left
    have hnot : t ∉ s.sched.taskList := fun hm => ht (h.tasks.mem_iff.mpr hm)
    refine ⟨ht, ?_, ?_⟩
    · simp only [queueStep, h.turn.remove_of_not_mem ht h.length_le]
      exact h.turn
    · simp only [queueStep, List.erase_of_not_mem hnot]
      exact h.tasks

/-! ## Who comes first -/

/-- In the next turn `y` is met, and `x` is not met before it. -/
def Ahead (l : List Addr) (y x : Addr) : Prop := l.idxOf y < l.idxOf x

theorem Ahead.rotate {pre post : List Addr} {x y z : Addr} (h : Ahead (pre ++ z :: post) y x)
    (hy : y ∉ pre) (hyz : y ≠ z) (hpost : y ∈ post) : Ahead (post ++ pre ++ [z]) y x := by
  grind [Ahead]

theorem Ahead.delete {pre post : List Addr} {x y z : Addr} (h : Ahead (pre ++ z :: post) y x)
    (hyz : y ≠ z) (hy : y ∈ pre ++ post) (hnd : (pre ++ z :: post).Nodup) :
    Ahead (pre ++ post) y x := by
  grind [Ahead]

/-- A ready task keeps its place in front of another, in every fair step that does not
select it. -/
theorem Ahead.step {s : QueueRun} {l : List Addr} {x y : Addr} (h : Ahead l y x)
    (hq : Queued s l) {op : QueueOp} (hfair : Fair s op) (hx : x ∈ s.chosen) (hyx : y ≠ x)
    (hy : y ∈ s.sched.taskList) (hready : (s.sched.task y).state = .ready)
    (hy' : y ∈ (queueStep s op).sched.taskList) (hnot : op = .pick → s.sched.pickNext ≠ some y) :
    ∃ l', Queued (queueStep s op) l' ∧ Ahead l' y x := by
  have hyl := hq.tasks.mem_iff.mpr hy
  cases op with
  | setState t state => exact ⟨l, ⟨hq.turn, hq.tasks⟩, h⟩
  | push t =>
    obtain ⟨htask, hchosen⟩ := hfair
    refine ⟨t :: l, hq.push htask, ?_⟩
    grind [Ahead]
  | pick =>
    rcases hq.pick with ⟨-, hsame⟩ | ⟨pre, z, post, hz, rfl, -, hpre, hnext⟩
    · exact ⟨l, hsame, h⟩
    · have hyz : y ≠ z := fun heq => hnot rfl (heq ▸ hz)
      have hypre : y ∉ pre := fun hm => hpre y hm hready
      have hpost : y ∈ post := by grind
      exact ⟨_, hnext, h.rotate hypre hyz hpost⟩
  | remove t =>
    have hnd := hq.turn.nodup
    rcases hq.remove t with ⟨-, hsame⟩ | ⟨pre, post, b, rfl, hnext⟩ | ⟨rfl, hnext⟩ |
      ⟨z, m, rfl, hhead, htz, hpair, hnext⟩
    · exact ⟨l, hsame, h⟩
    · have hmem := hnext.tasks.mem_iff.mpr hy'
      have hyt : y ≠ t := by grind
      exact ⟨_, hnext, h.delete hyt hmem hnd⟩
    · have hmem := hnext.tasks.mem_iff.mpr hy'
      cases hmem
    · -- The head is removed: the task behind it is not `y`, or is alone then.
      have hmem := hnext.tasks.mem_iff.mpr hy'
      rcases hfair hhead with hidle | halone
      · have hym : y ∈ m := by grind
        have hlt := List.idxOf_lt_length_iff.mpr hym
        grind [Ahead]
      · rw [htz] at halone
        obtain rfl := hpair halone
        obtain rfl : y = z := by simpa using hmem
        grind [Ahead]

/-! ## Runs -/

theorem Queued.step {s : QueueRun} {l : List Addr} (h : Queued s l) {op : QueueOp}
    (hfair : Fair s op) : ∃ l', Queued (queueStep s op) l' := by
  cases op with
  | setState t state => exact ⟨l, h.turn, h.tasks⟩
  | push t => exact ⟨_, h.push hfair.1⟩
  | pick =>
    rcases h.pick with ⟨-, hsame⟩ | ⟨pre, z, post, -, -, -, -, hnext⟩
    · exact ⟨l, hsame⟩
    · exact ⟨_, hnext⟩
  | remove t =>
    rcases h.remove t with ⟨-, hsame⟩ | ⟨_, _, _, -, hnext⟩ | ⟨-, hnext⟩ | ⟨_, _, -, -, -, -, hnext⟩
    · exact ⟨l, hsame⟩
    · exact ⟨_, hnext⟩
    · exact ⟨_, hnext⟩
    · exact ⟨_, hnext⟩

theorem reachable_queued {s : QueueRun} (hs : queueMachine.Reachable Fair s) :
    ∃ l, Queued s l := by
  refine hs.invariant (P := fun s => ∃ l, Queued s l) ?_ ?_
  · rintro s ⟨hhead, htasks, -⟩
    refine ⟨[], ?_, by rw [htasks]⟩
    rw [Ring.Turn, hhead]
  · rintro s op ⟨l, h⟩ hfair
    exact h.step hfair

/-- A task is queued and ready before each of some operations, and after them. -/
def Stays (t : Addr) (s : QueueRun) (ops : List QueueOp) : Prop :=
  ∀ pre post, ops = pre ++ post →
    t ∈ (queueMachine.run s pre).sched.taskList ∧
      ((queueMachine.run s pre).sched.task t).state = .ready

/-- One of some operations is a `pick_next` that returns the task. -/
def Selected (t : Addr) (s : QueueRun) (ops : List QueueOp) : Prop :=
  ∃ pre post, ops = pre ++ .pick :: post ∧
    (queueMachine.run s pre).sched.pickNext = some t

theorem Stays.cons_iff {t : Addr} {s : QueueRun} {op : QueueOp} {ops : List QueueOp} :
    Stays t s (op :: ops) ↔
      (t ∈ s.sched.taskList ∧ (s.sched.task t).state = .ready) ∧ Stays t (queueStep s op) ops := by
  constructor
  · intro h
    refine ⟨h [] _ rfl, fun pre post heq => h (op :: pre) post ?_⟩
    rw [heq, List.cons_append]
  · rintro ⟨hhere, hlater⟩ pre post heq
    cases pre with
    | nil => exact hhere
    | cons op' pre =>
      obtain ⟨rfl, hrest⟩ := List.cons.inj heq
      exact hlater pre post hrest

theorem Stays.nil_iff {t : Addr} {s : QueueRun} :
    Stays t s [] ↔ t ∈ s.sched.taskList ∧ (s.sched.task t).state = .ready := by
  constructor
  · intro h
    exact h [] [] rfl
  · intro h pre post heq
    obtain ⟨rfl, -⟩ := List.append_eq_nil_iff.mp heq.symm
    exact h

theorem Stays.here {t : Addr} {s : QueueRun} {ops : List QueueOp} (h : Stays t s ops) :
    t ∈ s.sched.taskList ∧ (s.sched.task t).state = .ready :=
  h [] ops rfl

theorem Selected.cons_iff {t : Addr} {s : QueueRun} {op : QueueOp} {ops : List QueueOp} :
    Selected t s (op :: ops) ↔
      op = .pick ∧ s.sched.pickNext = some t ∨ Selected t (queueStep s op) ops := by
  constructor
  · rintro ⟨pre, post, heq, hpick⟩
    cases pre with
    | nil => exact Or.inl ⟨(List.cons.inj heq).1, hpick⟩
    | cons op' pre =>
      obtain ⟨rfl, rfl⟩ := List.cons.inj heq
      exact Or.inr ⟨pre, post, rfl, hpick⟩
  · rintro (⟨rfl, hpick⟩ | ⟨pre, post, rfl, hpick⟩)
    · exact ⟨[], ops, rfl, hpick⟩
    · exact ⟨op :: pre, post, rfl, hpick⟩

theorem Selected.nil_iff {t : Addr} {s : QueueRun} : Selected t s [] ↔ False := by
  simp [Selected]

theorem chosen_step {s : QueueRun} {t : Addr} (h : t ∈ s.chosen) (op : QueueOp) :
    t ∈ (queueStep s op).chosen := by
  cases op with
  | pick => exact List.mem_append_right _ h
  | push _ => exact h
  | remove _ => exact h
  | setState _ _ => exact h

/-- A task that waits in front of another and is not selected still waits there at the
end of a fair run. -/
theorem Ahead.run {x y : Addr} (hyx : y ≠ x) (ops : List QueueOp) :
    ∀ {s : QueueRun} {l : List Addr}, Ahead l y x → Queued s l → x ∈ s.chosen →
      (∀ pre op post, ops = pre ++ op :: post → Fair (queueMachine.run s pre) op) →
      Stays y s ops → ¬ Selected y s ops →
      ∃ l', Queued (queueMachine.run s ops) l' ∧ Ahead l' y x := by
  induction ops with
  | nil =>
    intro s l h hq _ _ _ _
    exact ⟨l, hq, h⟩
  | cons op ops ih =>
    intro s l h hq hx hfair hstays hnot
    obtain ⟨hop, hlater⟩ := Machine.guarded_cons.mp hfair
    obtain ⟨⟨hy, hready⟩, hrest⟩ := Stays.cons_iff.mp hstays
    have hpick : op = .pick → s.sched.pickNext ≠ some y := by
      intro hop hsel
      exact hnot (Selected.cons_iff.mpr (Or.inl ⟨hop, hsel⟩))
    obtain ⟨l', hq', h'⟩ := h.step hq hop hx hyx hy hready hrest.here.1 hpick
    exact ih h' hq' (chosen_step hx op) hlater hrest fun hsel =>
      hnot (Selected.cons_iff.mpr (Or.inr hsel))

/-- **Bounded bypass.**  Between two selections of a task every other task that stays
queued and ready is selected. -/
theorem bounded_bypass {s : QueueRun} (hs : queueMachine.Reachable Fair s) {x y : Addr}
    (hfirst : s.sched.pickNext = some x) (hyx : y ≠ x) (ops : List QueueOp)
    (hfair : ∀ pre op post, ops = pre ++ op :: post →
      Fair (queueMachine.run (queueStep s .pick) pre) op)
    (hagain : (queueMachine.run (queueStep s .pick) ops).sched.pickNext = some x)
    (hstays : Stays y (queueStep s .pick) ops) : Selected y (queueStep s .pick) ops := by
  by_contra hnot
  obtain ⟨l, hq⟩ := reachable_queued hs
  rcases hq.pick with ⟨hnone, -⟩ | ⟨pre, z, post, hz, rfl, -, -, hnext⟩
  · rw [hnone] at hfirst
    cases hfirst
  · -- The task selected first is the last of the next turn.
    obtain rfl : z = x := Option.some.inj (hz.symm.trans hfirst)
    have hy := hnext.tasks.mem_iff.mpr hstays.here.1
    have hnd := hnext.turn.nodup
    have hahead : Ahead (post ++ pre ++ [z]) y z := by
      grind [Ahead]
    have hchosen : z ∈ (queueStep s .pick).chosen := by
      simp [queueStep, hfirst]
    obtain ⟨l', hq', hahead'⟩ := hahead.run hyx ops hnext hchosen hfair hstays hnot
    -- The task selected last is the first ready one of its turn.
    have hlast := hq'.pickNext
    rw [hagain] at hlast
    obtain ⟨-, before, after, rfl, hbefore⟩ := List.find?_eq_some_iff_append.mp hlast.symm
    have hready := (hstays ops [] (List.append_nil ops).symm).2
    grind [Ahead]

/-- An empty run queue. -/
def emptyQueue : QueueRun where
  sched :=
    { task := fun _ => {}
      taskList := []
      runQueue := ⟨id, none⟩
      cpus := fun _ => ⟨0, 0⟩
      cpuCount := 1
      tickCount := 0
      nextPid := 1 }
  chosen := []

/-- Three ready tasks. -/
def threeQueued : QueueRun := queueMachine.run emptyQueue [.push 1, .push 3, .push 2]

theorem threeQueued_reachable : queueMachine.Reachable Fair threeQueued := by
  have hempty : queueMachine.Reachable Fair emptyQueue := .start ⟨rfl, rfl, rfl⟩
  refine hempty.run [.push 1, .push 3, .push 2] ?_
  simp only [Machine.guarded_cons]
  refine ⟨?_, ?_, ?_, Machine.guarded_nil⟩ <;> constructor <;> decide

/-- Task 2 is selected, 3 is, 1 is, and 2 is again. -/
theorem threeQueued_bypass : Selected 1 (queueStep threeQueued .pick) [.pick, .pick] := by
  refine bounded_bypass (x := 2) threeQueued_reachable (by decide) (by decide) [.pick, .pick] ?_
    (by decide) ?_
  · simp only [Machine.guarded_cons]
    exact ⟨trivial, trivial, Machine.guarded_nil⟩
  · simp only [Stays.cons_iff, Stays.nil_iff]
    decide

/-- What the callers of the queue see to: no task is pushed twice. -/
def Called (s : QueueRun) (op : QueueOp) : Prop := ∀ t, op = .push t → t ∉ s.sched.taskList

theorem Fair.called {s : QueueRun} {op : QueueOp} (h : Fair s op) : Called s op := by
  rintro t rfl
  exact h.1

/-- Task 3 is removed right after it was selected: task 1 is the new head, and task 2 is
selected again although 1 was ready all the time. -/
theorem removed_head_skips :
    queueMachine.Reachable Called (queueStep threeQueued .pick) ∧
      threeQueued.sched.pickNext = some 2 ∧
      (queueMachine.run (queueStep threeQueued .pick) [.pick, .remove 3]).sched.pickNext = some 2 ∧
      Stays 1 (queueStep threeQueued .pick) [.pick, .remove 3] ∧
      ¬ Selected 1 (queueStep threeQueued .pick) [.pick, .remove 3] := by
  have hcalled : queueMachine.Reachable Called threeQueued :=
    threeQueued_reachable.mono fun _ _ h => h.called
  have hpick : Called threeQueued .pick := by
    rintro t ⟨⟩
  refine ⟨Machine.Reachable.step QueueOp.pick hcalled hpick, by decide, by decide, ?_, ?_⟩
  · simp only [Stays.cons_iff, Stays.nil_iff]
    decide
  · simp only [Selected.cons_iff, Selected.nil_iff]
    decide

end Sched
