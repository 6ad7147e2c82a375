import StrawOS.Desc.Model
import Mathlib.Data.List.Infix

/-!
# Redirections

A cell of a task leads to a descriptor only while that descriptor stays open.
`Released` says what `fd_release` may do, one slot or many: every cell keeps its
descriptor and the slot of it, or leads nowhere afterwards.
-/

namespace Desc

open Sched (Addr)

/-- Where a cell may lead. -/
def State.Leads (st : State) (cell : Int) : Prop :=
  cell = -1 ∨ ∃ fd : Nat, 3 ≤ fd ∧ fd < fdMax ∧ cell = fd ∧ (st.slot fd).used = true

/-- The invariant. -/
structure Redirected (st : State) : Prop where
  sched : Sched.Inv st.sched
  low : ∀ i < 3, (st.slot i).used = true
  cells : ∀ t ∈ st.sched.taskList, ∀ k, st.Leads (st.stdio t k)
  fresh : ∀ i, (st.slot i).serial < st.opens

/-- A cell that a step leaves leads to the same open descriptor. -/
def Stays (st st' : State) : Prop :=
  ∀ t ∈ st.sched.taskList, ∀ k, ∀ fd : Nat, st.stdio t k = fd → st'.stdio t k = fd →
    (st'.slot fd).used = (st.slot fd).used ∧ (st'.slot fd).serial = (st.slot fd).serial

variable {st st' : State} {c : Nat} {t : Addr}

theorem Redirected.used (h : Redirected st) (ht : t ∈ st.sched.taskList) {k : Fin 3} {fd : Nat}
    (hcell : st.stdio t k = fd) : (st.slot fd).used = true := by
  rcases h.cells t ht k with hnone | ⟨fd', -, -, heq, hused⟩
  · omega
  · obtain rfl : fd = fd' := by omega
    exact hused

theorem Stays.of_slot (h : st'.slot = st.slot) : Stays st st' := by
  intro t _ k fd _ _
  rw [h]
  exact ⟨rfl, rfl⟩

/-! ## Releasing -/

/-- What releasing descriptors does. -/
structure Released (st st' : State) : Prop where
  sched : st'.sched = st.sched
  opens : st'.opens = st.opens
  low : ∀ i < 3, st'.slot i = st.slot i
  serial : ∀ i, (st'.slot i).serial = (st.slot i).serial
  cells : ∀ t ∈ st.sched.taskList, ∀ k, st'.stdio t k = -1 ∨
    (st'.stdio t k = st.stdio t k ∧ ∀ fd : Nat, st.stdio t k = fd → st'.slot fd = st.slot fd)

theorem Released.refl (st : State) : Released st st :=
  ⟨rfl, rfl, fun _ _ => rfl, fun _ => rfl, fun _ _ _ => Or.inr ⟨rfl, fun _ _ => rfl⟩⟩

theorem Released.trans {st'' : State} (h : Released st st') (h' : Released st' st'') :
    Released st st'' := by
  refine ⟨h'.sched.trans h.sched, h'.opens.trans h.opens, ?_, ?_, ?_⟩
  · exact fun i hi => (h'.low i hi).trans (h.low i hi)
  · exact fun i => (h'.serial i).trans (h.serial i)
  · intro t ht k
    rcases h'.cells t (h.sched ▸ ht) k with hgone | ⟨hcell', hslot'⟩
    · exact Or.inl hgone
    rcases h.cells t ht k with hgone | ⟨hcell, hslot⟩
    · exact Or.inl (hcell'.trans hgone)
    · grind

theorem fdRelease_released (st : State) {fd : Nat} (hfd : 3 ≤ fd) :
    Released st (st.fdRelease fd) := by
  refine ⟨rfl, rfl, ?_, ?_, ?_⟩
  · intro i hi
    exact Function.update_of_ne (by omega) ..
  · intro i
    show (Function.update st.slot fd _ i).serial = _
    by_cases hi : i = fd
    · rw [hi, Function.update_self]
      rfl
    · rw [Function.update_of_ne hi]
  · intro t ht k
    by_cases hcell : st.stdio t k = fd
    · exact Or.inl (if_pos ⟨ht, hcell⟩)
    · refine Or.inr ⟨if_neg fun hand => hcell hand.2, ?_⟩
      intro fd' hfd'
      have hne : fd' ≠ fd := fun heq => hcell (by rw [hfd', heq])
      exact Function.update_of_ne hne ..

/-- A descriptor is open and the task's. -/
def State.Owned (st : State) (t : Addr) (i : Nat) : Prop :=
  (st.slot i).used = true ∧ (st.slot i).owner = some t

/-- One turn of the loop of `fs_release_task`. -/
def State.releaseOwned (st : State) (t : Addr) (i : Nat) : State :=
  if (st.slot i).used ∧ (st.slot i).owner = some t then st.fdRelease i else st

theorem releaseOwned_released (st : State) (t : Addr) {i : Nat} (hi : 3 ≤ i) :
    Released st (st.releaseOwned t i) := by
  unfold State.releaseOwned
  split
  · exact fdRelease_released st hi
  · exact Released.refl st

theorem releaseOwned_gone {i j : Nat} (h : i = j ∨ ¬st.Owned t i) : ¬(st.releaseOwned t j).Owned t i := by
  unfold State.releaseOwned
  split
  · by_cases hij : i = j
    · simp [State.Owned, State.fdRelease, hij]
    · have hsame : (st.fdRelease j).slot i = st.slot i := Function.update_of_ne hij ..
      rw [State.Owned, hsame]
      exact h.resolve_left hij
  · rename_i hnot
    rcases h with rfl | hgone
    · exact hnot
    · exact hgone

/-- The loop of `fs_release_task` releases descriptors from 3 on. -/
theorem fsReleaseTask_released (st : State) (t : Addr) : Released st (st.fsReleaseTask t) := by
  have hloop : ∀ (l : List Nat), (∀ i ∈ l, 3 ≤ i) → ∀ st : State,
      Released st (l.foldl (fun st i => st.releaseOwned t i) st) := by
    intro l
    induction l with
    | nil => exact fun _ st => Released.refl st
    | cons i l ih =>
      intro hl st
      have hone := releaseOwned_released st t (hl i List.mem_cons_self)
      exact hone.trans (ih (fun j hj => hl j (List.mem_cons_of_mem _ hj)) _)
  refine hloop _ ?_ st
  intro i hi
  exact (List.mem_range'_1.mp hi).1

theorem fsReleaseTask_gone (st : State) (t : Addr) {i : Nat} (hi : 3 ≤ i) (hmax : i < fdMax) :
    ¬(st.fsReleaseTask t).Owned t i := by
  have hloop : ∀ (l : List Nat) (st : State), i ∈ l ∨ ¬st.Owned t i →
      ¬(l.foldl (fun st i => st.releaseOwned t i) st).Owned t i := by
    intro l
    induction l with
    | nil => exact fun st hor => hor.resolve_left (by simp)
    | cons j l ih =>
      intro st hor
      refine ih _ ?_
      by_cases hin : i ∈ l
      · exact Or.inl hin
      · right
        refine releaseOwned_gone ?_
        rcases hor with hmem | hgone
        · exact Or.inl ((List.mem_cons.mp hmem).resolve_right hin)
        · exact Or.inr hgone
  refine hloop _ st (Or.inl ?_)
  rw [List.mem_range'_1]
  omega

theorem Released.redirected (h : Released st st') (hr : Redirected st) : Redirected st' := by
  refine ⟨h.sched ▸ hr.sched, ?_, ?_, ?_⟩
  · intro i hi
    rw [h.low i hi]
    exact hr.low i hi
  · intro t ht k
    rw [h.sched] at ht
    rcases h.cells t ht k with hgone | ⟨hcell, hslot⟩
    · exact Or.inl hgone
    rcases hr.cells t ht k with hnone | ⟨fd, h3, hmax, heq, hused⟩
    · exact Or.inl (hcell.trans hnone)
    · refine Or.inr ⟨fd, h3, hmax, hcell.trans heq, ?_⟩
      rw [hslot fd heq]
      exact hused
  · intro i
    rw [h.serial, h.opens]
    exact hr.fresh i

theorem Released.stays (h : Released st st') : Stays st st' := by
  intro t ht k fd hcell hcell'
  rcases h.cells t ht k with hgone | ⟨-, hslot⟩
  · omega
  · rw [hslot fd hcell]
    exact ⟨rfl, rfl⟩

/-! ## The calls -/

/-- A step keeps the invariant, and every cell that it leaves leads to the same open
descriptor. -/
structure Keeps (st st' : State) : Prop where
  redirected : Redirected st'
  stays : Stays st st'

theorem Keeps.refl (h : Redirected st) : Keeps st st := ⟨h, Stays.of_slot rfl⟩

theorem Released.keeps (h : Released st st') (hr : Redirected st) : Keeps st st' :=
  ⟨h.redirected hr, h.stays⟩

/-- `fd_alloc` takes a slot that was free. -/
theorem fdAlloc_cases (st : State) (c : Nat) :
    st.fdAlloc c = (st, none) ∨
      ∃ i < fdMax, (st.slot i).used = false ∧ st.fdAlloc c =
        ({ st with
            slot := Function.update st.slot i ⟨true, some (st.sched.current c), st.opens⟩
            opens := st.opens + 1 }, some i) := by
  unfold State.fdAlloc
  cases hfind : (List.range fdMax).find? fun i => !(st.slot i).used with
  | none => exact Or.inl rfl
  | some i => grind

theorem Redirected.take (h : Redirected st) {i : Nat} (hfree : (st.slot i).used = false)
    (owner : Option Addr) :
    3 ≤ i ∧ Keeps st
      { st with slot := Function.update st.slot i ⟨true, owner, st.opens⟩, opens := st.opens + 1 } := by
  have hused : ∀ j, (st.slot j).used = true →
      Function.update st.slot i ⟨true, owner, st.opens⟩ j = st.slot j := by grind
  refine ⟨?_, ⟨h.sched, ?_, ?_, ?_⟩, ?_⟩
  · by_contra hlow
    have hlt : i < 3 := by omega
    rw [h.low i hlt] at hfree
    cases hfree
  · intro j hj
    dsimp only
    rw [hused j (h.low j hj)]
    exact h.low j hj
  · intro t ht k
    rcases h.cells t ht k with hnone | ⟨fd, h3, hmax, heq, hopen⟩
    · exact Or.inl hnone
    · refine Or.inr ⟨fd, h3, hmax, heq, ?_⟩
      dsimp only
      rw [hused fd hopen]
      exact hopen
  · intro j
    have hlt := h.fresh j
    dsimp only
    by_cases hj : j = i
    · rw [hj, Function.update_self]
      exact Nat.lt_succ_self _
    · rw [Function.update_of_ne hj]
      omega
  · intro t ht k fd hcell _
    dsimp only
    rw [hused fd (h.used ht hcell)]
    exact ⟨rfl, rfl⟩

theorem Redirected.fsSysOpen (h : Redirected st) (c : Nat) (opened : Bool) :
    Keeps st (st.fsSysOpen c opened).1 := by
  unfold State.fsSysOpen
  rcases fdAlloc_cases st c with hfull | ⟨i, hi, hfree, halloc⟩
  · rw [hfull]
    exact Keeps.refl h
  · obtain ⟨h3, htake⟩ := h.take hfree (some (st.sched.current c))
    rw [halloc]
    dsimp only
    split
    · exact htake
    · -- the file does not open, and the slot is given back
      have hback := fdRelease_released
        { st with
          slot := Function.update st.slot i ⟨true, some (st.sched.current c), st.opens⟩
          opens := st.opens + 1 } h3
      refine ⟨hback.redirected htake.redirected, ?_⟩
      intro t ht k fd hcell hcell'
      obtain ⟨hu, hs⟩ := htake.stays t ht k fd hcell hcell
      obtain ⟨hu', hs'⟩ := hback.stays t ht k fd hcell hcell'
      exact ⟨hu'.trans hu, hs'.trans hs⟩

theorem Redirected.setStdio (h : Redirected st) (t : Addr) (k : Fin 3) {fd : Int}
    (hfd : st.Leads fd) : Keeps st (st.setStdio t k fd) := by
  refine ⟨⟨h.sched, h.low, ?_, h.fresh⟩, Stays.of_slot rfl⟩
  intro x hx j
  have hold := h.cells x hx j
  show st.Leads (Function.update st.stdio t (Function.update (st.stdio t) k fd) x j)
  by_cases hxt : x = t
  · subst hxt
    rw [Function.update_self]
    by_cases hjk : j = k
    · rw [hjk, Function.update_self]
      exact hfd
    · rw [Function.update_of_ne hjk]
      exact hold
  · rw [Function.update_of_ne hxt]
    exact hold

theorem Redirected.fsSysClose (h : Redirected st) (c : Nat) (fd rc : Int) :
    Keeps st (st.fsSysClose c fd rc).1 := by
  unfold State.fsSysClose
  split
  · split
    · exact h.setStdio _ _ (Or.inl rfl)
    · exact Keeps.refl h
  split
  · exact Keeps.refl h
  · exact (fdRelease_released st (by omega)).keeps h

theorem fdValid_leads {fd : Int} (hvalid : st.fdValid fd = true) (hfd : ¬fd < 3) : st.Leads fd := by
  simp only [State.fdValid, Bool.and_eq_true, decide_eq_true_eq] at hvalid
  obtain ⟨⟨hpos, hmax⟩, hused⟩ := hvalid
  exact Or.inr ⟨fd.toNat, by omega, by omega, by omega, hused⟩

theorem Redirected.fsSysDup2 (h : Redirected st) (c : Nat) (fd target : Int) :
    Keeps st (st.fsSysDup2 c fd target).1 := by
  unfold State.fsSysDup2
  split
  · exact Keeps.refl h
  dsimp only
  split
  · have hset := h.setStdio (st.sched.current c) ⟨target.toNat, by omega⟩ (Or.inl rfl)
    obtain ⟨hr, -⟩ := hset
    exact ⟨⟨hr.sched, hr.low, hr.cells, hr.fresh⟩, Stays.of_slot rfl⟩
  split
  · exact Keeps.refl h
  · rename_i hok
    rw [not_or, not_not] at hok
    exact h.setStdio _ _ (fdValid_leads hok.1 hok.2)

/-! ## The steps of the scheduler -/

theorem Redirected.move (h : Redirected st) {sched : Sched.State} (hinv : Sched.Inv sched)
    (hlist : ∀ t ∈ sched.taskList, t ∈ st.sched.taskList) : Keeps st { st with sched := sched } :=
  ⟨⟨hinv, h.low, fun t ht => h.cells t (hlist t ht), h.fresh⟩, Stays.of_slot rfl⟩

theorem Redirected.addTask (h : Redirected st) {a : Addr} (ha : a ∉ st.sched.taskList)
    {sched : Sched.State} (hinv : Sched.Inv sched) (hlist : sched.taskList = a :: st.sched.taskList)
    {cells : Fin 3 → Int} (hcells : ∀ k, st.Leads (cells k)) (detached : Addr → Bool) :
    Keeps st
      { st with
        sched := sched
        stdio := Function.update st.stdio a cells
        detached := detached } := by
  refine ⟨⟨hinv, h.low, ?_, h.fresh⟩, Stays.of_slot rfl⟩
  intro t ht k
  show st.Leads (Function.update st.stdio a cells t k)
  rw [hlist] at ht
  rcases List.mem_cons.mp ht with rfl | hold
  · rw [Function.update_self]
    exact hcells k
  · have hta : t ≠ a := fun heq => ha (heq ▸ hold)
    rw [Function.update_of_ne hta]
    exact h.cells t hold k

theorem Redirected.taskCreate (h : Redirected st) (a : Addr) : Keeps st (st.taskCreate a) := by
  unfold State.taskCreate
  split
  · exact Keeps.refl h
  · rename_i ha
    have hlist : (st.sched.taskCreate a).taskList = a :: st.sched.taskList := by
      simp [Sched.State.taskCreate, ha]
    exact h.addTask ha (h.sched.taskCreate a) hlist (fun _ => Or.inl rfl) _

theorem Redirected.bringUp (h : Redirected st) (a : Addr) : Keeps st (st.bringUp a) := by
  unfold State.bringUp
  split
  · exact Keeps.refl h
  · rename_i hroom
    have ha : a ∉ st.sched.taskList := fun hin => hroom (Or.inr hin)
    have hlist : (st.sched.bringUp a).taskList = a :: st.sched.taskList := by
      simp [Sched.State.bringUp, hroom]
    exact h.addTask ha (h.sched.bringUp a) hlist (fun _ => Or.inl rfl) _

theorem Redirected.taskExecElf (h : Redirected st) (hc : c < st.sched.cpuCount) (a : Addr) :
    Keeps st (st.taskExecElf c a) := by
  unfold State.taskExecElf
  split
  · exact Keeps.refl h
  · rename_i ha
    have hcur : st.sched.current c ≠ a := fun heq => ha (heq ▸ h.sched.listed c hc)
    have hlist : (st.sched.taskCreate a).taskList = a :: st.sched.taskList := by
      simp [Sched.State.taskCreate, ha]
    have hadd := h.addTask ha (h.sched.taskCreate a) hlist (h.cells _ (h.sched.listed c hc))
      (Function.update st.detached a false)
    have heq : (st.taskCreate a).stdio (st.sched.current c) = st.stdio (st.sched.current c) := by
      simp [State.taskCreate, ha, State.clearStdio, Function.update_of_ne hcur]
    dsimp only
    rw [heq]
    simpa [State.taskCreate, ha, State.clearStdio] using hadd

theorem Released.move (hrel : Released st st') (h : Redirected st) {sched : Sched.State}
    (hinv : Sched.Inv sched) (hlist : ∀ t ∈ sched.taskList, t ∈ st.sched.taskList) :
    Keeps st { st' with sched := sched } := by
  have hmove := (hrel.redirected h).move hinv fun x hx => hrel.sched ▸ hlist x hx
  exact ⟨hmove.redirected, hrel.stays⟩

theorem Redirected.taskExit (h : Redirected st) (hc : c < st.sched.cpuCount)
    (hidle : ¬st.sched.IsIdle (st.sched.current c)) : Keeps st (st.taskExit c) :=
  (fsReleaseTask_released st _).move h (h.sched.taskExit hc hidle) fun _ ht => ht

theorem Redirected.sysKill (h : Redirected st) (hc : c < st.sched.cpuCount) (pid : UInt64) :
    Keeps st (st.sysKill c pid) := by
  have hinv := h.sched.sysKill hc pid
  have hlist : ∀ t ∈ (st.sched.sysKill c pid).taskList, t ∈ st.sched.taskList := by
    intro t ht
    rcases st.sched.sysKill_taskList c pid with hsame | ⟨x, -, -, -, herase⟩
    · rwa [hsame] at ht
    · rw [herase] at ht
      exact List.mem_of_mem_erase ht
  unfold State.sysKill
  unfold Sched.State.sysKill at hinv hlist
  cases hfind : st.sched.taskFind pid with
  | none => exact Keeps.refl h
  | some t =>
    obtain ⟨-, hidle⟩ := h.sched.taskFind hfind
    rw [hfind] at hinv hlist
    dsimp only at hinv hlist ⊢
    split
    · exact Keeps.refl h
    rename_i hkernel
    rw [if_neg hkernel] at hinv hlist
    unfold State.taskKill
    split
    · exact Keeps.refl h
    split
    · rename_i hcur
      exact h.taskExit hc (hcur ▸ hidle)
    split
    · exact h.move hinv hlist
    · exact (fsReleaseTask_released st t).move h hinv hlist

theorem Redirected.schedMove (h : Redirected st) {op : Sched.Op}
    (hop : ∀ a, op ≠ .create a ∧ op ≠ .bringUp a) : Keeps st (Desc.move st op).1 := by
  refine h.move (h.sched.step op) ?_
  intro t ht
  by_contra hout
  rcases Sched.added_cases hout ht with heq | heq
  · exact (hop t).1 heq
  · exact (hop t).2 heq

theorem Redirected.call (h : Redirected st) {f : State → State × Int}
    (hf : c < st.sched.cpuCount → Keeps st (f st).1) : Keeps st (Desc.call st c f).1 := by
  unfold Desc.call
  split
  · rename_i hc
    exact hf hc
  · exact Keeps.refl h

theorem Redirected.on (h : Redirected st) {f : State → State}
    (hf : c < st.sched.cpuCount → Keeps st (f st)) : Keeps st (Desc.on st c f).1 := by
  unfold Desc.on
  split
  · rename_i hc
    exact hf hc
  · exact Keeps.refl h

/-! ## The scheduler below -/

theorem fsSysOpen_sched (st : State) (c : Nat) (opened : Bool) :
    (st.fsSysOpen c opened).1.sched = st.sched := by
  unfold State.fsSysOpen
  rcases fdAlloc_cases st c with hfull | ⟨i, -, -, halloc⟩
  · rw [hfull]
  · rw [halloc]
    dsimp only
    split <;> rfl

theorem fsSysClose_sched (st : State) (c : Nat) (fd rc : Int) :
    (st.fsSysClose c fd rc).1.sched = st.sched := by
  unfold State.fsSysClose
  split
  · split <;> rfl
  · split <;> rfl

theorem fsSysDup2_sched (st : State) (c : Nat) (fd target : Int) :
    (st.fsSysDup2 c fd target).1.sched = st.sched := by
  unfold State.fsSysDup2
  split
  · rfl
  dsimp only
  split
  · rfl
  split <;> rfl

theorem call_sched {f : State → State × Int} (hf : (f st).1.sched = st.sched) :
    (Desc.call st c f).1.sched = st.sched := by
  unfold Desc.call
  split
  · exact hf
  · rfl

theorem on_sched {f : State → State} {g : Sched.State → Sched.State}
    (hf : (f st).sched = g st.sched) : (Desc.on st c f).1.sched = Sched.on st.sched c g := by
  unfold Desc.on Sched.on
  split
  · exact hf
  · rfl

theorem taskCreate_sched (st : State) (a : Addr) : (st.taskCreate a).sched = st.sched.taskCreate a := by
  unfold State.taskCreate
  split
  · rename_i ha
    rw [Sched.State.taskCreate, if_pos ha]
  · rfl

theorem bringUp_sched (st : State) (a : Addr) : (st.bringUp a).sched = st.sched.bringUp a := by
  unfold State.bringUp
  split
  · rename_i hroom
    rw [Sched.State.bringUp, if_pos hroom]
  · rfl

theorem taskExecElf_sched (st : State) (c : Nat) (a : Addr) :
    (st.taskExecElf c a).sched = st.sched.taskCreate a := by
  unfold State.taskExecElf
  split
  · rename_i ha
    rw [Sched.State.taskCreate, if_pos ha]
  · exact taskCreate_sched st a

theorem taskKill_sched (st : State) (c : Nat) (t : Addr) :
    (st.taskKill c t).sched = st.sched.taskKill c t := by
  unfold State.taskKill
  split
  · rename_i hdead
    rw [Sched.State.taskKill, if_pos hdead]
  rename_i hdead
  split
  · rename_i hcur
    rw [Sched.State.taskKill, if_neg hdead, if_pos hcur]
    rfl
  · split <;> rfl

theorem sysKill_sched (st : State) (c : Nat) (pid : UInt64) :
    (st.sysKill c pid).sched = st.sched.sysKill c pid := by
  unfold State.sysKill Sched.State.sysKill
  cases st.sched.taskFind pid with
  | none => rfl
  | some t =>
    dsimp only
    split
    · rfl
    · exact taskKill_sched st c t

/-- The descriptors over another state of the scheduler. -/
def State.withSched (st : State) (sched : Sched.State) : State := { st with sched := sched }

@[simp] theorem withSched_slot (st : State) (sched : Sched.State) :
    (st.withSched sched).slot = st.slot := rfl

@[simp] theorem withSched_stdio (st : State) (sched : Sched.State) :
    (st.withSched sched).stdio = st.stdio := rfl

theorem taskExit_eq (st : State) (c : Nat) :
    st.taskExit c = (st.fsReleaseTask (st.sched.current c)).withSched (st.sched.taskExit c) := rfl

/-- `task_kill` of a task that no CPU runs. -/
theorem taskKill_eq (hdead : (st.sched.task t).state ≠ .dead) (hcur : t ≠ st.sched.current c)
    (hrun : (st.sched.task t).state ≠ .running) :
    st.taskKill c t = (st.fsReleaseTask t).withSched (st.sched.taskKill c t) := by
  unfold State.taskKill
  rw [if_neg hdead, if_neg hcur, if_neg hrun]
  rfl

theorem taskExit_low (st : State) (c : Nat) {i : Nat} (hi : i < 3) :
    (st.taskExit c).slot i = st.slot i := by
  rw [taskExit_eq, withSched_slot]
  exact (fsReleaseTask_released st (st.sched.current c)).low i hi

theorem taskKill_low (st : State) (c : Nat) (t : Addr) {i : Nat} (hi : i < 3) :
    (st.taskKill c t).slot i = st.slot i := by
  by_cases hdead : (st.sched.task t).state = .dead
  · rw [State.taskKill, if_pos hdead]
  by_cases hcur : t = st.sched.current c
  · rw [State.taskKill, if_neg hdead, if_pos hcur]
    exact taskExit_low st c hi
  by_cases hrun : (st.sched.task t).state = .running
  · rw [State.taskKill, if_neg hdead, if_neg hcur, if_pos hrun]
  · rw [taskKill_eq hdead hcur hrun, withSched_slot]
    exact (fsReleaseTask_released st t).low i hi

/-- **The console stays.**  No step touches a descriptor below 3. -/
theorem Redirected.step_low (h : Redirected st) (op : Op) {i : Nat} (hi : i < 3) :
    (Desc.step st op).1.slot i = st.slot i := by
  have hcall : ∀ {c : Nat} {f : State → State × Int}, (f st).1.slot i = st.slot i →
      (Desc.call st c f).1.slot i = st.slot i := by
    intro c f hf
    unfold Desc.call
    split
    · exact hf
    · rfl
  have hon : ∀ {c : Nat} {f : State → State}, (f st).slot i = st.slot i →
      (Desc.on st c f).1.slot i = st.slot i := by
    intro c f hf
    unfold Desc.on
    split
    · exact hf
    · rfl
  have hcreate : ∀ a, (st.taskCreate a).slot i = st.slot i := by
    intro a
    unfold State.taskCreate
    split <;> rfl
  cases op with
  | openFile c opened =>
    refine hcall (f := fun st => st.fsSysOpen c opened) ?_
    unfold State.fsSysOpen
    rcases fdAlloc_cases st c with hfull | ⟨j, hj, hfree, halloc⟩
    · rw [hfull]
    obtain ⟨h3, -⟩ := h.take hfree (some (st.sched.current c))
    rw [halloc]
    dsimp only
    split
    · exact Function.update_of_ne (by omega) ..
    · rw [(fdRelease_released _ h3).low i hi]
      exact Function.update_of_ne (by omega) ..
  | close c fd rc =>
    refine hcall (f := fun st => st.fsSysClose c fd rc) ?_
    unfold State.fsSysClose
    split
    · split <;> rfl
    split
    · rfl
    · exact (fdRelease_released st (by omega)).low i hi
  | dup2 c fd target =>
    refine hcall (f := fun st => st.fsSysDup2 c fd target) ?_
    unfold State.fsSysDup2
    split
    · rfl
    dsimp only
    split
    · rfl
    split <;> rfl
  | spawn c a =>
    refine hon (f := fun st => st.taskExecElf c a) ?_
    unfold State.taskExecElf
    split
    · rfl
    · exact hcreate a
  | create a => exact hcreate a
  | bringUp a =>
    show (st.bringUp a).slot i = st.slot i
    unfold State.bringUp
    split <;> rfl
  | exit c =>
    refine hon ?_
    split
    · rfl
    · exact taskExit_low st c hi
  | checkKill c =>
    refine hon ?_
    split
    · exact taskExit_low st c hi
    · rfl
  | kill c pid =>
    refine hon ?_
    unfold State.sysKill
    cases st.sched.taskFind pid with
    | none => rfl
    | some t =>
      dsimp only
      split
      · rfl
      · exact taskKill_low st c t hi
  | yield c => rfl
  | tick c => rfl
  | sleep c ms => rfl
  | block c timeoutMs => rfl
  | wakeWaiters => rfl
  | enterKcall c => rfl
  | leaveKcall c => rfl

/-- **The scheduler goes its own way.**  What a step does to it is a step of the machine of
the scheduler, or nothing. -/
theorem step_sched (st : State) (op : Op) :
    (Desc.step st op).1.sched = st.sched ∨
      ∃ sop, (Desc.step st op).1.sched = (Sched.step st.sched sop).1 := by
  cases op with
  | openFile c opened =>
    exact Or.inl (call_sched (f := fun st => st.fsSysOpen c opened) (fsSysOpen_sched st c opened))
  | close c fd rc => exact Or.inl (call_sched (fsSysClose_sched st c fd rc))
  | dup2 c fd target => exact Or.inl (call_sched (fsSysDup2_sched st c fd target))
  | spawn c a =>
    by_cases hc : c < st.sched.cpuCount
    · refine Or.inr ⟨.create a, ?_⟩
      simp only [Desc.step, Desc.on, hc, if_true]
      exact taskExecElf_sched st c a
    · refine Or.inl ?_
      simp only [Desc.step, Desc.on, hc, if_false]
  | create a => exact Or.inr ⟨.create a, taskCreate_sched st a⟩
  | bringUp a => exact Or.inr ⟨.bringUp a, bringUp_sched st a⟩
  | exit c =>
    refine Or.inr ⟨.exit c, on_sched (g := fun s => if s.current c = s.idle c then s else s.taskExit c) ?_⟩
    split <;> rfl
  | checkKill c =>
    refine Or.inr ⟨.checkKill c, on_sched
      (g := fun s => if (s.task (s.current c)).killPending then s.taskExit c else s) ?_⟩
    split <;> rfl
  | kill c pid =>
    exact Or.inr ⟨.kill c pid, on_sched (f := fun s => s.sysKill c pid)
      (g := fun s => s.sysKill c pid) (sysKill_sched st c pid)⟩
  | yield c => exact Or.inr ⟨.yield c, rfl⟩
  | tick c => exact Or.inr ⟨.tick c, rfl⟩
  | sleep c ms => exact Or.inr ⟨.sleep c ms, rfl⟩
  | block c timeoutMs => exact Or.inr ⟨.block c timeoutMs, rfl⟩
  | wakeWaiters => exact Or.inr ⟨.wakeWaiters, rfl⟩
  | enterKcall c => exact Or.inr ⟨.enterKcall c, rfl⟩
  | leaveKcall c => exact Or.inr ⟨.leaveKcall c, rfl⟩

/-! ## Runs -/

theorem Redirected.step (h : Redirected st) (op : Op) : Keeps st (Desc.step st op).1 := by
  cases op with
  | openFile c opened =>
    exact h.call (f := fun st => st.fsSysOpen c opened) fun _ => h.fsSysOpen c opened
  | close c fd rc => exact h.call fun _ => h.fsSysClose c fd rc
  | dup2 c fd target => exact h.call fun _ => h.fsSysDup2 c fd target
  | spawn c a => exact h.on fun hc => h.taskExecElf hc a
  | create a => exact h.taskCreate a
  | bringUp a => exact h.bringUp a
  | exit c =>
    refine h.on fun hc => ?_
    split
    · exact Keeps.refl h
    · rename_i hne
      exact h.taskExit hc (h.sched.not_idle_of_ne hc hne)
  | checkKill c =>
    refine h.on fun hc => ?_
    split
    · rename_i hkill
      exact h.taskExit hc (h.sched.not_idle_of_killPending hkill)
    · exact Keeps.refl h
  | kill c pid => exact h.on fun hc => h.sysKill hc pid
  | yield c => exact h.schedMove (by simp)
  | tick c => exact h.schedMove (by simp)
  | sleep c ms => exact h.schedMove (by simp)
  | block c timeoutMs => exact h.schedMove (by simp)
  | wakeWaiters => exact h.schedMove (by simp)
  | enterKcall c => exact h.schedMove (by simp)
  | leaveKcall c => exact h.schedMove (by simp)

theorem Start.redirected (h : Start st) : Redirected st := by
  refine ⟨h.sched.inv, ?_, ?_, ?_⟩
  · intro i hi
    rw [h.slot i]
    exact decide_eq_true hi
  · intro t ht k
    rw [h.sched.taskList, List.mem_singleton] at ht
    rw [ht]
    exact Or.inl (h.stdio k)
  · intro i
    rw [h.slot i, h.opens]
    exact Nat.one_pos

theorem reachable_redirected (h : machine.Reachable (fun _ _ => True) st) : Redirected st :=
  h.invariant (P := Redirected) (fun _ h0 => Start.redirected h0) fun _ op hr _ => (hr.step op).redirected

/-- Over a run on which a cell keeps its descriptor, the descriptor stays open and is
not opened anew. -/
theorem Redirected.open_throughout (h : Redirected st) (ops : List Op) {k : Fin 3} {fd : Nat}
    (hcell : ∀ pre, pre <+: ops → t ∈ (machine.run st pre).sched.taskList ∧
      (machine.run st pre).stdio t k = fd) :
    ∀ pre, pre <+: ops → ((machine.run st pre).slot fd).used = true ∧
      ((machine.run st pre).slot fd).serial = (st.slot fd).serial := by
  induction ops generalizing st with
  | nil =>
    intro pre hpre
    rw [List.prefix_nil.mp hpre]
    exact ⟨h.used (hcell [] List.nil_prefix).1 (hcell [] List.nil_prefix).2, rfl⟩
  | cons op ops ih =>
    intro pre hpre
    have hhere := hcell [] List.nil_prefix
    cases pre with
    | nil => exact ⟨h.used hhere.1 hhere.2, rfl⟩
    | cons op' pre =>
      obtain ⟨rfl, hrest⟩ := List.cons_prefix_cons.mp hpre
      have hkeeps := h.step op'
      have hnext := hcell [op'] (List.cons_prefix_cons.mpr ⟨rfl, List.nil_prefix⟩)
      obtain ⟨hused, hserial⟩ := ih hkeeps.redirected
        (fun pre' hpre' => hcell (op' :: pre') (List.cons_prefix_cons.mpr ⟨rfl, hpre'⟩)) pre hrest
      refine ⟨hused, hserial.trans ?_⟩
      exact (hkeeps.stays t hhere.1 k fd hhere.2 hnext.2).2

/-- **Redirections lead to open descriptors.**  In every reachable state a cell of a
listed task is `-1` or a used descriptor from 3 on; every serial number is an old one,
so a slot that is taken gets a new one; and as long as a cell stands, whatever the tasks
do, its descriptor is the one that was open when it was installed. -/
theorem redirections_stay_open (h : machine.Reachable (fun _ _ => True) st) :
    (∀ t ∈ st.sched.taskList, ∀ k, st.stdio t k = -1 ∨
      ∃ fd : Nat, 3 ≤ fd ∧ fd < fdMax ∧ st.stdio t k = fd ∧ (st.slot fd).used = true) ∧
    (∀ i, (st.slot i).serial < st.opens) ∧
    ∀ (ops : List Op) (t : Addr) (k : Fin 3) (fd : Nat),
      (∀ pre, pre <+: ops → t ∈ (machine.run st pre).sched.taskList ∧
        (machine.run st pre).stdio t k = fd) →
      ∀ pre, pre <+: ops → ((machine.run st pre).slot fd).used = true ∧
        ((machine.run st pre).slot fd).serial = (st.slot fd).serial := by
  have hr := reachable_redirected h
  exact ⟨hr.cells, hr.fresh, fun ops _ _ _ hcell => hr.open_throughout ops hcell⟩

/-- The kernel with no descriptor open. -/
def booted : State where
  sched := Sched.booted
  slot i := { used := decide (i < 3) }
  stdio _ _ := -1
  detached _ := false
  opens := 1

/-- A task opens a file as its standard output and starts another; then it closes the file
and opens one that gets the same number. -/
def inheritedOutput : List Op :=
  [.create 2, .yield 0, .openFile 0 true, .dup2 0 3 1, .spawn 0 4, .close 0 3 0, .openFile 0 true]

theorem inheritedOutput_open :
    4 ∈ (machine.run booted inheritedOutput).sched.taskList ∧
    ((machine.run booted inheritedOutput).slot 3).used = true ∧
    (machine.run booted inheritedOutput).stdio 4 1 = -1 ∧
    ∀ i, ((machine.run booted inheritedOutput).slot i).serial <
      (machine.run booted inheritedOutput).opens := by
  have hstart : machine.start booted :=
    ⟨⟨rfl, rfl, rfl, rfl, rfl, rfl, rfl⟩, fun _ => rfl, fun _ => rfl, rfl⟩
  have hreach : machine.Reachable (fun _ _ => True) (machine.run booted inheritedOutput) :=
    Machine.Reachable.run (.start hstart) _ fun _ _ _ _ => trivial
  exact ⟨by decide +kernel, by decide +kernel, by decide +kernel,
    (redirections_stay_open hreach).2.1⟩

end Desc
