import StrawOS.Program.Invariant

/-!
# What is left of a program that is killed

`task_kill` closes the descriptors of a program, frees its runs, its image, its stack
and the task, and forgets its arguments, which `task_exit` frees.  Every block of the
heap is whole pages, so three pages or more are lost with each program.
-/

namespace Program

open Sched (Addr)
open Mem (Block Holding Holds Users)

variable {off : Nat} {avail : Finset Nat} {highest : Nat} {w w' : World} {c : Nat} {t : Addr}
  {boot : Mem.BootInfo}

/-! ## From the start on -/

theorem Start.inv {m : Mem.Pmm} (hv : boot.Valid) (hinit : Mem.pmmInit boot = some m)
    (h : Start boot w) :
    Inv boot.stray.card (Bitmap.free m.bitmap boot.totalPages) boot.highestAddr w := by
  have hstart : (Mem.userMachine boot).Reachable Mem.userPermitted w.mem :=
    .start ⟨h.base, h.runs, h.table, h.cap⟩
  have hholdings : w.holdings = [.heap (w.desc.sched.idle 0)] := by
    simp [World.holdings, World.holdingsOf, h.desc.sched.taskList, h.owned, Owned.holdings]
  refine ⟨h.desc.redirected, fun i _ => by rw [h.desc.slot i], ?_⟩
  rw [hholdings]
  refine ⟨Mem.accounts_of_reachable hv hinit hstart, ?_, List.nodup_singleton _, ?_, ?_⟩
  · intro x hx
    obtain rfl := List.mem_singleton.mp hx
    obtain ⟨b, hb, hat⟩ := h.kernelTask
    exact ⟨b, hb, _, hat⟩
  · simp [h.runs]
  · simp [h.table]

/-- **Run lemma.** -/
theorem inv_of_reachable {m : Mem.Pmm} (hv : boot.Valid) (hinit : Mem.pmmInit boot = some m)
    (h : (machine boot).Reachable permitted w) :
    Inv boot.stray.card (Bitmap.free m.bitmap boot.totalPages) boot.highestAddr w := by
  refine h.invariant ?_ ?_
  · intro s hs
    exact Start.inv hv hinit hs
  · intro s op hs hop
    exact hs.step hop

theorem init_of_reachable (h : (machine boot).Reachable permitted w) :
    ∃ m, Mem.pmmInit boot = some m := by
  induction h with
  | start h0 => exact Mem.init_of_reachable h0.base
  | step _ _ _ ih => exact ih

/-! ## A program keeps what it owns -/

theorem exited_step (h : Inv off avail highest w) (ht : Sched.Exited t w.desc.sched) (op : Op) :
    Sched.Exited t (step w op).1.desc.sched := by
  rcases step_desc h.mem op with hsame | ⟨dop, heq⟩
  · rw [hsame]
    exact ht
  rw [heq]
  rcases Desc.step_sched w.desc dop with hsame | ⟨sop, heq'⟩
  · rw [hsame]
    exact ht
  · rw [heq']
    exact ht.step h.desc.sched sop

/-- A task goes on owning what it owned, unless it has exited. -/
def Keeps (t : Addr) (w w' : World) : Prop := w'.owned t = w.owned t ∨ Sched.Exited t w'.desc.sched

theorem Keeps.of_new (ht : t ∈ w.desc.sched.taskList) {a : Addr} (ha : a ∉ w.desc.sched.taskList)
    (desc : Desc.State) (mem : Users) (o : Owned) :
    Keeps t w ⟨desc, mem, Function.update w.owned a o⟩ := by
  left
  refine Function.update_of_ne ?_ ..
  rintro rfl
  exact ha ht

theorem Keeps.on {f : World → World} (hf : c < w.desc.sched.cpuCount → Keeps t w (f w)) :
    Keeps t w (Program.on w c f) := by
  unfold Program.on
  split
  · rename_i hc
    exact hf hc
  · exact Or.inl rfl

theorem taskExit_keeps (h : Inv off avail highest w) (hc : c < w.desc.sched.cpuCount)
    (hidle : ¬w.desc.sched.IsIdle (w.desc.sched.current c)) (ht : t ∈ w.desc.sched.taskList) :
    Keeps t w (w.taskExit c) := by
  by_cases hcur : t = w.desc.sched.current c
  · right
    have hput := h.desc.sched.putDead hc hidle
    have hdead : Sched.Exited t (w.desc.sched.setTask (w.desc.sched.current c)
        { w.desc.sched.task (w.desc.sched.current c) with state := .dead }) := by
      refine ⟨ht, ?_⟩
      rw [hcur, Sched.State.setTask_self]
    exact hdead.dispatch hput hc
  · left
    exact Function.update_of_ne hcur ..

/-- Killing a task takes it out of the list, or it exits, or nothing happens to what it owns. -/
theorem taskKill_keeps (h : Inv off avail highest w) (hc : c < w.desc.sched.cpuCount) {x : Addr}
    (hidle : ¬w.desc.sched.IsIdle x) (ht : t ∈ w.desc.sched.taskList)
    (hstay : t ∈ (w.taskKill c x).2.desc.sched.taskList) : Keeps t w (w.taskKill c x).2 := by
  by_cases hdead : (w.desc.sched.task x).state = .dead
  · left
    simp [World.taskKill, hdead]
  by_cases hcur : x = w.desc.sched.current c
  · have heq : (w.taskKill c x).2 = w.taskExit c := by
      unfold World.taskKill
      rw [if_neg hdead, if_pos hcur]
    rw [heq]
    exact taskExit_keeps h hc (hcur ▸ hidle) ht
  by_cases hrun : (w.desc.sched.task x).state = .running
  · left
    unfold World.taskKill
    rw [if_neg hdead, if_neg hcur, if_pos hrun]
  · rw [taskKill_desc, Desc.taskKill_sched, Sched.State.taskKill, if_neg hdead, if_neg hcur,
      if_neg hrun] at hstay
    have hne : t ≠ x := (h.desc.sched.nodup.mem_erase_iff.mp hstay).1
    left
    rw [taskKill_eq hdead hcur hrun]
    exact Function.update_of_ne hne ..

/-- **Step lemma.** -/
theorem Keeps.step (h : Inv off avail highest w) {op : Op} (ht : t ∈ w.desc.sched.taskList)
    (hstay : t ∈ (step w op).1.desc.sched.taskList) : Keeps t w (step w op).1 := by
  have hsched := h.desc.sched
  cases op with
  | exec c x =>
    refine Keeps.on fun _ => ?_
    cases hr : w.taskExecElf c x with
    | mk r w' =>
      rcases taskExecElf_cases h.mem hr with ⟨-, us, rfl, -⟩ | ⟨a, _, _, _, us, -, ha, rfl, -⟩
      · exact Or.inl rfl
      · exact Keeps.of_new ht ha ..
  | create =>
    show Keeps t w w.taskCreate
    rcases taskCreate_cases h.mem with ⟨us, heq, -⟩ | ⟨a, stack, us, ha, heq, -⟩
    · rw [heq]
      exact Or.inl rfl
    · rw [heq]
      exact Keeps.of_new ht ha ..
  | bringUp =>
    show Keeps t w w.bringUp
    rcases bringUp_cases h.mem with ⟨us, heq, -⟩ | ⟨a, stack, us, -, ha, heq, -⟩
    · rw [heq]
      exact Or.inl rfl
    · rw [heq]
      exact Keeps.of_new ht ha ..
  | memAlloc c size => exact Keeps.on fun _ => Or.inl rfl
  | memFree addr size => exact Or.inl rfl
  | exit c =>
    refine Keeps.on fun hc => ?_
    split
    · exact Or.inl rfl
    · rename_i hne
      exact taskExit_keeps h hc (hsched.not_idle_of_ne hc hne) ht
  | checkKill c =>
    refine Keeps.on fun hc => ?_
    split
    · rename_i hkill
      exact taskExit_keeps h hc (hsched.not_idle_of_killPending hkill) ht
    · exact Or.inl rfl
  | kill c pid =>
    by_cases hc : c < w.desc.sched.cpuCount
    case neg =>
      left
      simp only [Program.step, Program.on, hc, if_false]
    simp only [Program.step, Program.on, hc, if_true] at hstay ⊢
    unfold World.sysKill at hstay ⊢
    cases hfind : w.desc.sched.taskFind pid with
    | none => exact Or.inl rfl
    | some x =>
      rw [hfind] at hstay
      dsimp only at hstay ⊢
      split at hstay
      · rename_i hkernel
        rw [if_pos hkernel]
        exact Or.inl rfl
      · rename_i hkernel
        rw [if_neg hkernel]
        exact taskKill_keeps h hc (hsched.taskFind hfind).2 ht hstay
  | desc op => exact Or.inl rfl
  | kernel op => exact Or.inl rfl

/-- **Run lemma.**  As long as a task is listed it owns what it owned, unless it has exited. -/
theorem Keeps.run (h : Inv off avail highest w) {ops : List Op}
    (hops : ∀ pre op post, ops = pre ++ op :: post → permitted ((machine boot).run w pre) op)
    (hstays : ∀ pre, pre <+: ops → t ∈ ((machine boot).run w pre).desc.sched.taskList) :
    Keeps t w ((machine boot).run w ops) := by
  induction ops generalizing w with
  | nil => exact Or.inl rfl
  | cons op ops ih =>
    obtain ⟨hop, hrest⟩ := Machine.guarded_cons.mp hops
    have hnext := hstays [op] (List.prefix_append [op] ops)
    have hone := Keeps.step h (hstays [] List.nil_prefix) hnext
    have hmany := ih (h.step hop) hrest fun pre hpre =>
      hstays (op :: pre) (List.cons_prefix_cons.mpr ⟨rfl, hpre⟩)
    rcases hmany with hmany | hexit
    · rcases hone with hone | hexit
      · exact Or.inl (hmany.trans hone)
      · right
        have hkept : Inv off avail highest ((machine boot).run (Program.step w op).1 ops) ∧
            Sched.Exited t ((machine boot).run (Program.step w op).1 ops).desc.sched := by
          refine Machine.run_invariant (P := fun s => Inv off avail highest s ∧
            Sched.Exited t s.desc.sched) ?_ ⟨h.step hop, hexit⟩ hrest
          intro s i hs hg
          exact ⟨hs.1.step hg, exited_step hs.1 hs.2 i⟩
        exact hkept.2
    · exact Or.inr hexit

/-! ## What is the task's -/

/-- A page that the task owns a block or a run from. -/
def World.OwnsPage (w : World) (t : Addr) (p : Nat) : Prop :=
  p ∈ (w.holdingsOf t).map Holding.page ∨
    p ∈ (w.mem.runs.filter fun r => r.owner == t).map fun r => r.addr / Mem.pageSize

instance (w : World) (t : Addr) (p : Nat) : Decidable (w.OwnsPage t p) :=
  inferInstanceAs (Decidable (_ ∨ _))

/-- The pages in use that are not the task's: those of other tasks, of files, of the
kernel. -/
def World.otherPages (w : World) (t : Addr) : Nat :=
  ((w.mem.base.live.filter fun b => ¬w.OwnsPage t b.page).map Block.count).sum

/-- The first pages of the three blocks of the arguments. -/
def World.argPages (w : World) (t : Addr) : List Nat :=
  ((w.owned t).args.elim [] TaskArgs.holdings).map Holding.page

/-- The pages of the three blocks of the arguments. -/
def World.argsInUse (w : World) (t : Addr) : Nat :=
  ((w.mem.base.live.filter fun b => b.page ∈ w.argPages t).map Block.count).sum

/-- **What is live after `task_kill`**: what others have, and the arguments. -/
theorem killed_live (h : Inv off avail highest w) (hin : t ∈ w.desc.sched.taskList) :
    (w.killedMem t).base.live.Perm
      ((w.mem.base.live.filter fun b => ¬w.OwnsPage t b.page) ++
        w.mem.base.live.filter fun b => b.page ∈ w.argPages t) := by
  obtain ⟨hholds, -, hlive⟩ := killedMem_holds h.mem hin
  have hnodup := h.mem.accounts.sound.nodup
  -- The arguments are apart from all that is given back.
  have hparts := h.mem.perm (holdings_perm hin).symm
  have honce := hparts.once
  have hpages : (w.holdingsOf t).map Holding.page =
      w.argPages t ++ ((w.owned t).killed t).map Holding.page := by
    simp [World.holdingsOf, Owned.holdings, Owned.killed, World.argPages]
  rw [List.map_append, hpages, List.nodup_append, List.nodup_append] at honce
  have hargs : ∀ p ∈ w.argPages t, p ∉ ((w.owned t).killed t).map Holding.page ∧
      ∀ r ∈ w.mem.runs, p ≠ r.addr / Mem.pageSize := by
    intro p hp
    refine ⟨fun hkilled => honce.1.2.2 p hp p hkilled rfl, ?_⟩
    obtain ⟨x, hx, rfl⟩ := List.mem_map.mp hp
    refine hparts.runs x ?_
    simp only [World.holdingsOf, Owned.holdings, List.mem_append]
    exact Or.inl (Or.inl (Or.inl (Or.inl hx)))
  refine (List.perm_ext_iff_of_nodup hholds.accounts.sound.nodup ?_).mpr ?_
  · rw [List.nodup_append]
    refine ⟨hnodup.filter _, hnodup.filter _, ?_⟩
    rintro b hb b' hb' rfl
    simp only [List.mem_filter, decide_eq_true_eq] at hb hb'
    refine hb.2 (Or.inl ?_)
    rw [hpages]
    exact List.mem_append_left _ hb'.2
  · intro b
    have hruns : (∀ r ∈ w.mem.runs, r.owner = t → b.page ≠ r.addr / Mem.pageSize) ↔
        b.page ∉ (w.mem.runs.filter fun r => r.owner == t).map fun r => r.addr / Mem.pageSize := by
      grind
    have hkilled : (∀ x ∈ (w.owned t).killed t, b.page ≠ x.page) ↔
        b.page ∉ ((w.owned t).killed t).map Holding.page := by
      grind
    have hown : w.OwnsPage t b.page ↔ b.page ∈ w.argPages t ∨
        b.page ∈ ((w.owned t).killed t).map Holding.page ∨
        b.page ∈ (w.mem.runs.filter fun r => r.owner == t).map fun r => r.addr / Mem.pageSize := by
      rw [World.OwnsPage, hpages, List.mem_append, or_assoc]
    rw [hlive, hruns, hkilled, List.mem_append, List.mem_filter, List.mem_filter, decide_eq_true_eq,
      decide_eq_true_eq, hown]
    have hapart : b.page ∈ w.argPages t → b.page ∉ ((w.owned t).killed t).map Holding.page ∧
        b.page ∉ (w.mem.runs.filter fun r => r.owner == t).map fun r => r.addr / Mem.pageSize := by
      grind
    tauto

/-! ## The pages that are lost -/

theorem argPage_live (h : Inv off avail highest w) (hin : t ∈ w.desc.sched.taskList) {p : Nat}
    (hp : p ∈ w.argPages t) : ∃ b ∈ w.mem.base.live, b.page = p := by
  obtain ⟨x, hx, rfl⟩ := List.mem_map.mp hp
  have hmem : x ∈ w.holdings := by
    refine List.mem_flatMap.mpr ⟨t, hin, ?_⟩
    simp only [World.holdingsOf, Owned.holdings, List.mem_append]
    exact Or.inl (Or.inl (Or.inl hx))
  obtain ⟨b, hb, hat⟩ := h.mem.live x hmem
  exact ⟨b, hb, hat.page.symm⟩

theorem three_le_argsInUse (h : Inv off avail highest w) (hin : t ∈ w.desc.sched.taskList)
    {args : TaskArgs} (hargs : (w.owned t).args = some args) : 3 ≤ w.argsInUse t := by
  have honce := (h.mem.perm (holdings_perm hin).symm).once
  have hargPages : w.argPages t = args.holdings.map Holding.page := by
    rw [World.argPages, hargs]
    rfl
  have hnodup : (w.argPages t).Nodup := by
    rw [hargPages]
    simp only [World.holdingsOf, Owned.holdings, hargs, Option.elim, List.map_append,
      List.append_assoc] at honce
    exact (List.nodup_append.mp honce).1
  set mine := w.mem.base.live.filter fun b => b.page ∈ w.argPages t with hmine
  have hsub : w.argPages t ⊆ mine.map Block.page := by
    intro p hp
    obtain ⟨b, hb, rfl⟩ := argPage_live h hin hp
    exact List.mem_map_of_mem (List.mem_filter.mpr ⟨hb, by simpa using hp⟩)
  have hlen : 3 ≤ mine.length := by
    have hle := (hnodup.subperm hsub).length_le
    rw [hargPages, List.length_map, List.length_map] at hle
    exact hle
  have hone : ∀ n ∈ mine.map Block.count, 1 ≤ n := by
    intro n hn
    obtain ⟨b, hb, rfl⟩ := List.mem_map.mp hn
    exact (h.mem.accounts.sound.inside b (List.mem_filter.mp hb).1).1
  calc 3 ≤ mine.length := hlen
    _ = (mine.map Block.count).length := (List.length_map _).symm
    _ ≤ (mine.map Block.count).sum := List.length_le_sum_of_one_le _ hone

theorem inUse_lt {us : Users} {xs : List Holding} (h : Holds off avail highest us xs) :
    us.base.inUse < Mem.wrap := by
  have hsound := h.accounts.sound
  have hbalance := hsound.balance
  have hsub : avail ⊆ Finset.range (highest / Mem.pageSize) := by
    intro p hp
    exact Finset.mem_range.mpr (hsound.bound p hp)
  have hcard := Finset.card_le_card hsub
  rw [Finset.card_range] at hcard
  have hsmall := h.accounts.small
  simp only [Mem.State.inUse, Mem.pageSize, Mem.wrap] at *
  omega

/-- **The free pages after `task_kill`**: those of the arguments are missing. -/
theorem killed_free {before : World} (hbefore : Inv off avail highest before)
    (h : Inv off avail highest w) (hin : t ∈ w.desc.sched.taskList) :
    ((w.killedMem t).base.heap.pmm.freePages + w.otherPages t + w.argsInUse t) % Mem.wrap =
        (before.mem.base.heap.pmm.freePages + before.mem.base.inUse) % Mem.wrap ∧
      w.argsInUse t < Mem.wrap := by
  have hholds := (killedMem_holds h.mem hin).1
  have hafter := hholds.accounts.sound.free_add_inUse
  have hstart := hbefore.mem.accounts.sound.free_add_inUse
  have hsum : (w.killedMem t).base.inUse = w.otherPages t + w.argsInUse t := by
    have hperm := ((killed_live h hin).map Block.count).sum_eq
    rw [List.map_append, List.sum_append] at hperm
    exact hperm
  have hlt := inUse_lt hholds
  rw [← hstart, hsum] at hafter
  simp only [Mem.wrap] at hafter hlt ⊢
  omega

/-! ## What a kill is to give back -/

/-- What the claim asks of the state after a kill: no open descriptor is the task's, no
cell leads to one that was, no run is the task's, and the free pages are those before
`task_exec_elf` but for what was and is in use by others. -/
structure Returned (before w : World) (t : Addr) (after : World) : Prop where
  slots : ∀ i < Desc.fdMax, ¬after.desc.Owned t i
  cells : ∀ x ∈ after.desc.sched.taskList, ∀ k, ∀ fd : Nat, after.desc.stdio x k = fd →
    ¬w.desc.Owned t fd
  runs : ∀ r ∈ after.mem.runs, r.owner ≠ t
  pages : (after.mem.base.heap.pmm.freePages + w.otherPages t) % Mem.wrap =
    (before.mem.base.heap.pmm.freePages + before.mem.base.inUse) % Mem.wrap

/-- The descriptors after `task_kill`. -/
theorem killed_descriptors (h : Inv off avail highest w)
    (hdead : (w.desc.sched.task t).state ≠ .dead) (hcur : t ≠ w.desc.sched.current c)
    (hrun : (w.desc.sched.task t).state ≠ .running) :
    (∀ i < Desc.fdMax, ¬(w.desc.taskKill c t).Owned t i) ∧
      ∀ x ∈ (w.desc.taskKill c t).sched.taskList, ∀ k, ∀ fd : Nat,
        (w.desc.taskKill c t).stdio x k = fd → ¬w.desc.Owned t fd := by
  have hrel := Desc.fsReleaseTask_released w.desc t
  have hlow := fun i (hi : i < 3) => Desc.taskKill_low w.desc c t hi
  have hlist : ∀ x ∈ (w.desc.taskKill c t).sched.taskList, x ∈ w.desc.sched.taskList := by
    intro x hx
    rw [Desc.taskKill_sched, Sched.State.taskKill, if_neg hdead, if_neg hcur, if_neg hrun] at hx
    exact List.mem_of_mem_erase hx
  have hgone : ∀ i < Desc.fdMax, ¬(w.desc.taskKill c t).Owned t i := by
    intro i hi howned
    rcases Nat.lt_or_ge i 3 with h3 | h3
    · rw [Desc.State.Owned, hlow i h3, h.low i h3] at howned
      cases howned.2
    · rw [Desc.taskKill_eq hdead hcur hrun, Desc.State.Owned, Desc.withSched_slot] at howned
      exact Desc.fsReleaseTask_gone w.desc t h3 hi howned
  refine ⟨hgone, ?_⟩
  intro x hx k fd hcell howned
  rw [Desc.taskKill_eq hdead hcur hrun] at hcell
  rcases hrel.cells x (hlist x hx) k with hnone | ⟨hsame, hslot⟩
  · rw [Desc.withSched_stdio, hnone] at hcell
    omega
  · -- The cell stands, so its descriptor is not the task's.
    rw [Desc.withSched_stdio, hsame] at hcell
    rcases h.desc.cells x (hlist x hx) k with hnone | ⟨fd', h3, hmax, heq, -⟩
    · omega
    · obtain rfl : fd = fd' := by omega
      refine Desc.fsReleaseTask_gone w.desc t h3 hmax ?_
      rw [Desc.State.Owned, hslot fd hcell]
      exact howned

/-- **What is left of a killed program**: everything is given back but its arguments. -/
theorem taskKill_leaves {before : World} (hbefore : Inv off avail highest before)
    (h : Inv off avail highest w) (hin : t ∈ w.desc.sched.taskList) {after : World}
    (hkill : w.taskKill c t = (some true, after)) (hstop : (w.desc.sched.task t).state ≠ .running) :
    (∀ i < Desc.fdMax, ¬after.desc.Owned t i) ∧
      (∀ x ∈ after.desc.sched.taskList, ∀ k, ∀ fd : Nat, after.desc.stdio x k = fd →
        ¬w.desc.Owned t fd) ∧
      (∀ r ∈ after.mem.runs, r.owner ≠ t) ∧
      (after.mem.base.heap.pmm.freePages + w.otherPages t + w.argsInUse t) % Mem.wrap =
        (before.mem.base.heap.pmm.freePages + before.mem.base.inUse) % Mem.wrap := by
  have hdead : (w.desc.sched.task t).state ≠ .dead := by
    intro hdead
    simp [World.taskKill, hdead] at hkill
  have hcur : t ≠ w.desc.sched.current c := by
    intro hcur
    unfold World.taskKill at hkill
    rw [if_neg hdead, if_pos hcur] at hkill
    simp at hkill
  rw [taskKill_eq hdead hcur hstop] at hkill
  obtain rfl := (Prod.mk.inj hkill).2
  obtain ⟨hslots, hcells⟩ := killed_descriptors h hdead hcur hstop
  refine ⟨hslots, hcells, ?_, (killed_free hbefore h hin).1⟩
  intro r hr
  have hkept := (killedMem_holds h.mem hin).2.1.subset hr
  simpa using (List.mem_filter.mp hkept).2

/-- **A kill never returns everything.**  Whatever a program has done since it was started,
the kill of it closes its descriptors and frees its runs, but the pages of its arguments,
three at least, are neither free nor anyone's afterwards. -/
theorem kill_loses_arguments {before started after : World} {x : Exec} {c₀ : Nat} {ops : List Op}
    (hv : boot.Valid) (hbefore : (machine boot).Reachable permitted before)
    (hc₀ : c₀ < before.desc.sched.cpuCount) (hexec : before.taskExecElf c₀ x = (some t, started))
    (hops : ∀ pre op post, ops = pre ++ op :: post → permitted ((machine boot).run started pre) op)
    (hstays : ∀ pre, pre <+: ops → t ∈ ((machine boot).run started pre).desc.sched.taskList)
    (hstop : (((machine boot).run started ops).desc.sched.task t).state ≠ .running)
    (hkill : ((machine boot).run started ops).taskKill c t = (some true, after)) :
    ¬Returned before ((machine boot).run started ops) t after ∧
      (∀ i < Desc.fdMax, ¬after.desc.Owned t i) ∧
      (∀ x ∈ after.desc.sched.taskList, ∀ k, ∀ fd : Nat, after.desc.stdio x k = fd →
        ¬((machine boot).run started ops).desc.Owned t fd) ∧
      (∀ r ∈ after.mem.runs, r.owner ≠ t) ∧
      ∃ lost, 3 ≤ lost ∧ lost < Mem.wrap ∧
        (after.mem.base.heap.pmm.freePages + ((machine boot).run started ops).otherPages t + lost) %
          Mem.wrap = (before.mem.base.heap.pmm.freePages + before.mem.base.inUse) % Mem.wrap := by
  obtain ⟨m, hinit⟩ := init_of_reachable hbefore
  have hinv := inv_of_reachable hv hinit hbefore
  have hstep : (step before (.exec c₀ x)).1 = started := by
    simp only [step, on, hc₀, if_true, hexec]
  have hstarted : Inv _ _ _ (step before (.exec c₀ x)).1 := hinv.step trivial
  rw [hstep] at hstarted
  have hargs : ∃ args, (started.owned t).args = some args := by
    rcases taskExecElf_cases hinv.mem hexec with ⟨hnone, -⟩ | ⟨a, args, _, _, _, heq, -, rfl, -⟩
    · cases hnone
    · obtain rfl := Option.some.inj heq
      exact ⟨args, by simp⟩
  obtain ⟨args, hargs⟩ := hargs
  have hkept := Keeps.run hstarted hops hstays
  have hin := hstays ops (List.prefix_refl ops)
  have hrun : Inv boot.stray.card (Bitmap.free m.bitmap boot.totalPages) boot.highestAddr
      ((machine boot).run started ops) :=
    Machine.run_invariant (fun s op hs hop => hs.step hop) hstarted hops
  generalize (machine boot).run started ops = w at hstop hkill hkept hin hrun ⊢
  have hlive : (w.desc.sched.task t).state ≠ .dead := by
    intro hdead
    simp [World.taskKill, hdead] at hkill
  have howned : (w.owned t).args = some args := by
    rcases hkept with hkept | hexit
    · rw [hkept, hargs]
    · exact absurd hexit.2 hlive
  have hthree := three_le_argsInUse hrun hin howned
  have hlt := (killed_free hinv hrun hin).2
  obtain ⟨hslots, hcells, hruns, hfree⟩ := taskKill_leaves hinv hrun hin hkill hstop
  refine ⟨?_, hslots, hcells, hruns, w.argsInUse t, hthree, hlt, hfree⟩
  intro hreturned
  have hpages := hreturned.pages
  simp only [Mem.wrap] at hpages hfree hlt
  omega

/-! ## One program -/

/-- 128 usable pages from the second on, and a kernel of one page. -/
def roomyBoot : Mem.BootInfo where
  entries := [⟨4096, 524288, true⟩]
  kstart := 32768
  kend := 36864
  ram _ := false

theorem roomyBoot_valid : roomyBoot.Valid where
  aligned e he := by
    obtain rfl : e = ⟨4096, 524288, true⟩ := by simpa [Mem.BootInfo.usable, roomyBoot] using he
    exact ⟨⟨1, rfl⟩, ⟨128, rfl⟩⟩
  inRange e he := by
    obtain rfl : e = ⟨4096, 524288, true⟩ := by simpa [Mem.BootInfo.usable, roomyBoot] using he
    decide
  disjoint := List.pairwise_singleton _ _
  holdsBitmap := by
    simp [Mem.BootInfo.bitmapSize, Mem.BootInfo.totalPages, Mem.BootInfo.highestAddr,
      Mem.BootInfo.best, Mem.BootInfo.usable, roomyBoot, Mem.pageSize]
  kernel := by
    simp only [roomyBoot, Mem.pageSize, Mem.wrap]
    omega

/-- The pages left by `pmm_init`. -/
def roomyPmm : Mem.Pmm :=
  roomyBoot.reserved.sweep Mem.Pmm.markPage roomyBoot.kstartPage
    (roomyBoot.kendPage - roomyBoot.kstartPage)

/-- The allocators after `task_init`. -/
def roomyMem : Mem.State :=
  (Mem.machine roomyBoot).run ⟨⟨roomyPmm, fun _ => 0⟩, []⟩ [.kmalloc taskSize]

/-- The kernel alone, in the block that `task_init` got. -/
def kernelAlone : World where
  desc :=
    { Desc.booted with
      sched :=
        { Sched.booted with
          task := fun t => if t = 8208 then { state := .running } else {}
          taskList := [8208]
          cpus := fun _ => ⟨8208, 8208⟩ } }
  mem := ⟨roomyMem, [], none, 0⟩
  owned _ := {}

/-- A program of two pages, with no arguments. -/
def smallProgram : Exec := ⟨some [47, 97], [], .found 4096 true (.placed 2 64 true)⟩

/-- The program is started. -/
def programStarted : World := (kernelAlone.taskExecElf 0 smallProgram).2

theorem kernelAlone_start : Start roomyBoot kernelAlone where
  desc := ⟨⟨rfl, rfl, rfl, rfl, rfl, rfl, rfl⟩, fun _ => rfl, fun _ => rfl, rfl⟩
  base := by
    have hstart : (Mem.machine roomyBoot).Reachable Mem.permitted ⟨⟨roomyPmm, fun _ => 0⟩, []⟩ :=
      .start ⟨rfl, rfl⟩
    exact Machine.Reachable.step (Mem.Op.kmalloc taskSize) hstart (by trivial)
  runs := rfl
  table := rfl
  cap := rfl
  kernelTask := by
    exact ⟨_, List.mem_singleton_self _, rfl, rfl⟩
  owned _ := rfl

theorem fst_eq {α β : Type} {p : α × β} {a : α} (h : p.1 = a) : p = (a, p.2) := by rw [← h]

theorem smallProgram_loses_pages : ∃ lost, 3 ≤ lost ∧ lost < Mem.wrap ∧
    ((programStarted.taskKill 0 24592).2.mem.base.heap.pmm.freePages +
      programStarted.otherPages 24592 + lost) % Mem.wrap =
        (kernelAlone.mem.base.heap.pmm.freePages + kernelAlone.mem.base.inUse) % Mem.wrap := by
  have hexec : kernelAlone.taskExecElf 0 smallProgram = (some 24592, programStarted) := by
    have hfirst : (kernelAlone.taskExecElf 0 smallProgram).1 = some 24592 := by decide +kernel
    exact fst_eq hfirst
  have hkill : programStarted.taskKill 0 24592 =
      (some true, (programStarted.taskKill 0 24592).2) := by
    have hfirst : (programStarted.taskKill 0 24592).1 = some true := by decide +kernel
    exact fst_eq hfirst
  have hlisted : 24592 ∈ programStarted.desc.sched.taskList := by decide +kernel
  have hstop : (programStarted.desc.sched.task 24592).state ≠ .running := by decide +kernel
  have hrun : (machine roomyBoot).run programStarted [] = programStarted := rfl
  have hstays : ∀ pre, pre <+: ([] : List Op) →
      24592 ∈ ((machine roomyBoot).run programStarted pre).desc.sched.taskList := by
    intro pre hpre
    rw [List.prefix_nil.mp hpre, hrun]
    exact hlisted
  rw [← hrun] at hstop hkill
  have hall := kill_loses_arguments roomyBoot_valid (.start kernelAlone_start) (by decide) hexec
    Machine.guarded_nil hstays hstop hkill
  rw [hrun] at hall
  exact hall.2.2.2.2

/-- The kernel starts a program and kills it before it has run: of 125 free pages 122 are
left, and the kernel task is all there is. -/
theorem killed_program_is_not_returned :
    (machine roomyBoot).Reachable permitted kernelAlone ∧
      kernelAlone.taskExecElf 0 smallProgram = (some 24592, programStarted) ∧
      (programStarted.desc.sched.task 24592).state ≠ .running ∧
      (programStarted.taskKill 0 24592).1 = some true ∧
      (programStarted.taskKill 0 24592).2.mem.base.heap.pmm.freePages = 122 ∧
      ¬Returned kernelAlone programStarted 24592 (programStarted.taskKill 0 24592).2 := by
  have hfirst : (kernelAlone.taskExecElf 0 smallProgram).1 = some 24592 := by decide +kernel
  have hafter : (programStarted.taskKill 0 24592).2.mem.base.heap.pmm.freePages = 122 := by
    decide +kernel
  have hothers : programStarted.otherPages 24592 = 1 := by decide +kernel
  have hbefore : kernelAlone.mem.base.heap.pmm.freePages = 125 := by decide +kernel
  have hinUse : kernelAlone.mem.base.inUse = 1 := by decide +kernel
  refine ⟨.start kernelAlone_start, fst_eq hfirst, by decide +kernel, by decide +kernel,
    hafter, ?_⟩
  intro hreturned
  have hpages := hreturned.pages
  rw [hafter, hothers, hbefore, hinUse] at hpages
  simp [Mem.wrap] at hpages

end Program
