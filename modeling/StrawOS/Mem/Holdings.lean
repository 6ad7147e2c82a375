import StrawOS.Mem.UserAccounts

/-!
# What a client holds

A client of the allocators holds heap blocks and runs of pages by their addresses.
`Holds us xs` says that the holdings `xs` are live blocks, each under its own first
page, and apart from the runs of the tasks and the table of these.  An allocation adds
a holding, a free takes one away, and what anyone else does leaves them alone.
-/

namespace Mem

/-- An address that a client got from `kmalloc`, or a run from `pmm_alloc_pages`. -/
inductive Holding
  | heap (ptr : Nat)
  | pages (addr : Nat) (count : UInt64)
  deriving DecidableEq

/-- The first page of a holding. -/
def Holding.page : Holding → Nat
  | .heap ptr => ptr / pageSize
  | .pages addr _ => addr / pageSize

/-- The block that a holding is. -/
def Holding.At (b : Block) : Holding → Prop
  | .heap ptr => ∃ n, b.HeapAt ptr n
  | .pages addr count => b = ⟨addr / pageSize, count.toNat, none⟩ ∧ addr = addr / pageSize * pageSize

/-- The call that gives a holding back. -/
def Holding.freeOp : Holding → Op
  | .heap ptr => .kfree (some ptr)
  | .pages addr count => .pmmFreePages (some addr) count

namespace Users

variable (us : Users)

/-- A call by another client. -/
def call (op : Op) : Users := { us with base := (Mem.step us.base op).1 }

def kmalloc (size : UInt64) : Option Nat × Users :=
  ((Mem.step us.base (.kmalloc size)).2.headD none, us.call (.kmalloc size))

def pmmAllocPages (count : UInt64) : Option Nat × Users :=
  ((Mem.step us.base (.pmmAllocPages count)).2.headD none, us.call (.pmmAllocPages count))

def kfree (ptr : Nat) : Users := us.call (.kfree (some ptr))

def pmmFreePages (addr : Nat) (count : UInt64) : Users := us.call (.pmmFreePages (some addr) count)

end Users

/-- The holdings are live blocks, apart from one another and from the blocks of
`user_pages.c`. -/
structure Holds (off : Nat) (avail : Finset Nat) (highest : Nat) (us : Users) (xs : List Holding) :
    Prop where
  accounts : Accounts off avail highest us
  live : ∀ x ∈ xs, ∃ b ∈ us.base.live, x.At b
  once : (xs.map Holding.page).Nodup
  runs : ∀ x ∈ xs, ∀ r ∈ us.runs, x.page ≠ r.addr / pageSize
  table : ∀ x ∈ xs, ∀ p, us.table = some p → x.page ≠ p / pageSize

variable {off : Nat} {avail : Finset Nat} {highest : Nat} {us us' : Users} {xs ys : List Holding}
  {x : Holding} {st : State} {b : Block}

theorem Holding.At.page (h : x.At b) : x.page = b.page := by
  cases x with
  | heap ptr =>
    obtain ⟨n, hat⟩ := h
    exact HeapAt.page hat
  | pages addr count =>
    obtain ⟨rfl, -⟩ := h
    rfl

theorem Holds.perm (h : Holds off avail highest us xs) (hp : ys.Perm xs) :
    Holds off avail highest us ys where
  accounts := h.accounts
  live x hx := h.live x (hp.subset hx)
  once := (hp.map Holding.page).nodup_iff.mpr h.once
  runs x hx := h.runs x (hp.subset hx)
  table x hx := h.table x (hp.subset hx)

theorem Holds.sublist (h : Holds off avail highest us xs) (hs : ys.Sublist xs) :
    Holds off avail highest us ys where
  accounts := h.accounts
  live x hx := h.live x (hs.subset hx)
  once := h.once.sublist (hs.map Holding.page)
  runs x hx := h.runs x (hs.subset hx)
  table x hx := h.table x (hs.subset hx)

theorem Sound.head_page {l : List Block} (h : Sound off avail highest st) (hl : st.live = b :: l) :
    ∀ c ∈ l, c.page ≠ b.page := by
  intro c hc hpage
  have hnodup := h.nodup
  rw [hl, List.nodup_cons] at hnodup
  have hcb := h.eq_of_page (hl ▸ List.mem_cons_of_mem b hc) (hl ▸ List.mem_cons_self) hpage
  exact hnodup.1 (hcb ▸ hc)

/-! ## Calls of other clients -/

theorem Holds.call (h : Holds off avail highest us xs) {op : Op}
    (hop : userPermitted us (.kernel op))
    (hx : ∀ a, op.frees = some a → ∀ x ∈ xs, a / pageSize ≠ x.page) :
    Holds off avail highest (us.call op) xs where
  accounts := h.accounts.base_step hop.1 hop.2
  live x hmem := by
    obtain ⟨b, hb, hat⟩ := h.live x hmem
    refine ⟨b, step_keeps hb ?_, hat⟩
    intro a ha
    rw [← hat.page]
    exact hx a ha x hmem
  once := h.once
  runs := h.runs
  table := h.table

theorem Holds.call_of_frees (h : Holds off avail highest us xs) {op : Op}
    (hop : permitted us.base op) (hfrees : op.frees = none) :
    Holds off avail highest (us.call op) xs := by
  refine h.call ⟨hop, ?_⟩ ?_ <;> simp [hfrees]

theorem Holds.add (h : Holds off avail highest us xs) (hat : x.At b)
    (hb : b ∈ us.base.live) (hxs : ∀ y ∈ xs, y.page ≠ x.page)
    (hruns : ∀ r ∈ us.runs, x.page ≠ r.addr / pageSize)
    (htable : ∀ p, us.table = some p → x.page ≠ p / pageSize) :
    Holds off avail highest us (x :: xs) where
  accounts := h.accounts
  live := by
    intro y hy
    rcases List.mem_cons.mp hy with rfl | hy
    · exact ⟨b, hb, hat⟩
    · exact h.live y hy
  once := by
    rw [List.map_cons, List.nodup_cons]
    refine ⟨?_, h.once⟩
    intro hmem
    obtain ⟨y, hy, heq⟩ := List.mem_map.mp hmem
    exact hxs y hy heq
  runs := by
    intro y hy
    rcases List.mem_cons.mp hy with rfl | hy
    · exact hruns
    · exact h.runs y hy
  table := by
    intro y hy
    rcases List.mem_cons.mp hy with rfl | hy
    · exact htable
    · exact h.table y hy

theorem Holds.call_fresh (h : Holds off avail highest us xs) {op : Op}
    (hop : permitted us.base op) (hfrees : op.frees = none)
    (hlive : (us.call op).base.live = b :: us.base.live) (hat : x.At b) :
    Holds off avail highest (us.call op) (x :: xs) := by
  have hnew := h.call_of_frees hop hfrees
  have hhead := hnew.accounts.sound.head_page hlive
  refine hnew.add hat (hlive ▸ List.mem_cons_self) ?_ ?_ ?_
  · intro y hy heq
    obtain ⟨c, hc, hcat⟩ := h.live y hy
    rw [hcat.page, hat.page] at heq
    exact hhead c hc heq
  · intro r hr heq
    rw [hat.page] at heq
    exact hhead r.block (h.accounts.live r hr) heq.symm
  · intro p hp heq
    obtain ⟨c, hc, hcat⟩ := h.accounts.table p hp
    rw [hat.page, HeapAt.page hcat] at heq
    exact hhead c hc heq.symm

/-- **`kmalloc`.** -/
theorem Holds.kmalloc (h : Holds off avail highest us xs) (size : UInt64) :
    match us.kmalloc size with
    | (none, us') => Holds off avail highest us' xs
    | (some p, us') => Holds off avail highest us' (.heap p :: xs) := by
  rw [Users.kmalloc]
  cases hk : us.base.heap.kmalloc size.toNat with
  | mk r h' =>
    have hstep : Mem.step us.base (.kmalloc size) =
        us.base.giveOut (r, h') (heapGetBlockCount size.toNat) (some size.toNat) := by
      rw [← hk]
      rfl
    cases r with
    | none =>
      rw [hstep]
      exact h.call_of_frees trivial rfl
    | some p =>
      rw [hstep]
      obtain ⟨start, hp, -⟩ := h.accounts.sound.kmalloc size.toNat_lt hk
      refine h.call_fresh (b := ⟨p / pageSize, heapGetBlockCount size.toNat, some size.toNat⟩)
        trivial rfl ?_ ⟨size.toNat, rfl, ?_⟩
      · rw [Users.call, hstep]
        rfl
      · rw [hp]
        simp only [pageSize, headerSize]
        omega

/-- **`pmm_alloc_pages`.** -/
theorem Holds.pmmAllocPages (h : Holds off avail highest us xs) (count : UInt64) :
    match us.pmmAllocPages count with
    | (none, us') => Holds off avail highest us' xs
    | (some a, us') => Holds off avail highest us' (.pages a count :: xs) := by
  rw [Users.pmmAllocPages]
  cases hk : us.base.heap.pmm.pmmAllocPages count.toNat with
  | mk r m' =>
    have hstep : Mem.step us.base (.pmmAllocPages count) =
        us.base.giveOut (r, { us.base.heap with pmm := m' }) count.toNat none := by
      show us.base.giveOut (_, { us.base.heap with pmm := _ }) count.toNat none = _
      rw [hk]
    cases r with
    | none =>
      rw [hstep]
      exact h.call_of_frees trivial rfl
    | some a =>
      rw [hstep]
      obtain ⟨start, ha, -⟩ := pmmAllocPages_spec h.accounts.sound.counted hk
      refine h.call_fresh (b := ⟨a / pageSize, count.toNat, none⟩) trivial rfl ?_ ⟨rfl, ?_⟩
      · rw [Users.call, hstep]
        rfl
      · rw [ha, Nat.mul_div_cancel _ (by decide)]

/-- **A holding is given back**, and only its block is live no longer. -/
theorem Holds.free (h : Holds off avail highest us (x :: xs)) :
    Holds off avail highest (us.call x.freeOp) xs ∧
      ∀ b, b ∈ (us.call x.freeOp).base.live ↔ b ∈ us.base.live ∧ b.page ≠ x.page := by
  obtain ⟨c, hc, hat⟩ := h.live x List.mem_cons_self
  have hpos := (h.accounts.sound.inside c hc).1
  have hfrees : ∃ a, x.freeOp.frees = some a ∧ a / pageSize = x.page := by
    cases x with
    | heap ptr => exact ⟨ptr, rfl, rfl⟩
    | pages addr count =>
      obtain ⟨rfl, -⟩ := hat
      have hcount : count.toNat ≠ 0 := Nat.pos_iff_ne_zero.mp hpos
      exact ⟨addr, by simp [Holding.freeOp, Op.frees, hcount], rfl⟩
  have hperm : permitted us.base x.freeOp := by
    cases x with
    | heap ptr => exact ⟨c, hc, hat⟩
    | pages addr count =>
      obtain ⟨rfl, haddr⟩ := hat
      exact Or.inr ⟨_, hc, rfl, rfl, haddr⟩
  have hlive : (us.call x.freeOp).base.live = us.base.live.erase c := by
    cases x with
    | heap ptr => exact h.accounts.sound.drop_eq hc hat.page
    | pages addr count =>
      obtain ⟨rfl, -⟩ := hat
      have hcount : count.toNat ≠ 0 := Nat.pos_iff_ne_zero.mp hpos
      have hdrop : (us.call (Holding.pages addr count).freeOp).base.live = us.base.drop addr := by
        simp only [Users.call, Holding.freeOp, Mem.step, hcount, if_false]
      rw [hdrop]
      exact h.accounts.sound.drop_eq hc rfl
  obtain ⟨a, ha, hpage⟩ := hfrees
  have honce := h.once
  refine ⟨(h.sublist (List.sublist_cons_self x xs)).call ⟨hperm, ?_⟩ ?_, ?_⟩
  · intro a' ha'
    obtain rfl : a = a' := Option.some.inj (ha.symm.trans ha')
    rw [hpage]
    exact ⟨h.runs x List.mem_cons_self, h.table x List.mem_cons_self⟩
  · grind
  · intro b
    rw [hlive, h.accounts.sound.nodup.mem_erase_iff, and_comm]
    refine and_congr_right fun hb => not_congr ?_
    rw [hat.page]
    exact ⟨fun heq => by rw [heq], fun heq => h.accounts.sound.eq_of_page hb hc heq⟩

/-- Holdings are given back one after the other. -/
def Users.giveBack (us : Users) (xs : List Holding) : Users :=
  xs.foldl (fun us x => us.call x.freeOp) us

theorem Users.giveBack_append (us : Users) (xs ys : List Holding) :
    us.giveBack (xs ++ ys) = (us.giveBack xs).giveBack ys := by
  simp [Users.giveBack]

theorem Users.giveBack_runs (us : Users) (xs : List Holding) : (us.giveBack xs).runs = us.runs := by
  induction xs generalizing us with
  | nil => rfl
  | cons x xs ih => exact ih (us.call x.freeOp)

theorem Holds.giveBack (h : Holds off avail highest us (xs ++ ys)) :
    Holds off avail highest (us.giveBack xs) ys ∧
      ∀ b, b ∈ (us.giveBack xs).base.live ↔ b ∈ us.base.live ∧ ∀ x ∈ xs, b.page ≠ x.page := by
  induction xs generalizing us with
  | nil => exact ⟨h, by simp [Users.giveBack]⟩
  | cons x xs ih =>
    obtain ⟨hone, hlive⟩ := h.free
    obtain ⟨hrest, hlive'⟩ := ih hone
    refine ⟨hrest, ?_⟩
    intro b
    rw [List.forall_mem_cons, ← and_assoc, ← hlive]
    exact hlive' b

/-! ## Calls of the tasks -/

theorem Holds.releaseTask (h : Holds off avail highest us xs) (task : Nat) :
    Holds off avail highest (userPagesReleaseTask us task).2 xs ∧
      (userPagesReleaseTask us task).2.runs.Perm (us.runs.filter fun r => !(r.owner == task)) ∧
      ∀ b, b ∈ (userPagesReleaseTask us task).2.base.live ↔
        b ∈ us.base.live ∧ ∀ r ∈ us.runs, r.owner = task → b.page ≠ r.addr / pageSize := by
  obtain ⟨haccounts, hfreed⟩ := h.accounts.releaseTask task
  obtain ⟨hremoved, hkept, heq⟩ := userPagesReleaseTask_spec us task
  have hgone : ∀ r, r ∈ (userPagesReleaseTask us task).1 ↔ r ∈ us.runs ∧ r.owner = task := by
    intro r
    rw [hremoved.mem_iff, List.mem_filter, beq_iff_eq]
  have hlive : ∀ b, b ∈ (userPagesReleaseTask us task).2.base.live ↔
      b ∈ us.base.live ∧ ∀ r ∈ us.runs, r.owner = task → b.page ≠ r.addr / pageSize := by
    intro b
    rw [hfreed]
    refine and_congr_right fun hb => ?_
    constructor
    · intro hne r hr howner hpage
      exact hne r ((hgone r).mpr ⟨hr, howner⟩)
        (h.accounts.sound.eq_of_page hb (h.accounts.live r hr) hpage)
    · intro hne r hr heq
      obtain ⟨hruns, howner⟩ := (hgone r).mp hr
      exact hne r hruns howner (by rw [heq]; rfl)
  refine ⟨⟨haccounts, ?_, h.once, ?_, ?_⟩, hkept, hlive⟩
  · intro x hx
    obtain ⟨b, hb, hat⟩ := h.live x hx
    refine ⟨b, (hlive b).mpr ⟨hb, ?_⟩, hat⟩
    intro r hr _
    rw [← hat.page]
    exact h.runs x hx r hr
  · intro x hx r hr
    exact h.runs x hx r (List.mem_filter.mp (hkept.subset hr)).1
  · intro x hx p hp
    exact h.table x hx p hp

/-- `sys_mem_free` frees a run and no more. -/
theorem Holds.memFree (h : Holds off avail highest us xs) (addr : Option Nat) (size : UInt64) :
    Holds off avail highest (sysMemFree us addr size).2.2 xs := by
  rcases sysMemFree_cases us addr size with heq | ⟨r, rest, hperm, -, -, heq⟩
  · rw [heq]
    exact h
  · obtain ⟨haccounts, hlive⟩ := h.accounts.freeOne hperm
    rw [heq]
    refine ⟨haccounts, ?_, h.once, ?_, h.table⟩
    · intro x hx
      obtain ⟨b, hb, hat⟩ := h.live x hx
      refine ⟨b, (hlive b).mpr ⟨hb, ?_⟩, hat⟩
      rintro rfl
      exact h.runs x hx r (hperm.subset List.mem_cons_self) hat.page
    · intro x hx s hs
      exact h.runs x hx s (hperm.subset (List.mem_cons_of_mem _ hs))

/-- What a `krealloc` that succeeds answers with is in front of the other blocks. -/
theorem krealloc_head {st' : State} {ptr : Option Nat} {n : UInt64} {p : Nat}
    (hs : step st (.krealloc ptr n) = (st', [some p])) :
    ∃ count size, st'.live = ⟨p / pageSize, count, size⟩ :: ptr.elim st.live st.drop := by
  cases ptr with
  | none =>
    obtain ⟨-, hlive⟩ := giveOut_some hs
    exact ⟨_, _, hlive⟩
  | some q =>
    by_cases hn : n.toNat = 0
    · simp [step, hn, Heap.krealloc] at hs
    · simp only [step, hn, if_false] at hs
      split at hs
      · simp at hs
      · obtain ⟨-, hlive⟩ := giveOut_some hs
        exact ⟨_, _, hlive⟩

theorem Holds.growTable (h : Holds off avail highest us xs) :
    Holds off avail highest (growTable us).2 xs := by
  have haccounts := h.accounts.growTable.1
  rw [Mem.growTable] at haccounts ⊢
  split
  · rename_i hfull
    rw [if_pos hfull] at haccounts
    dsimp only at haccounts ⊢
    generalize (if us.cap = 0 then (64 : UInt64) else us.cap * 2) * recordSize = n at haccounts ⊢
    have hkeep : ∀ c ∈ us.base.live, (∀ p, us.table = some p → c.page ≠ p / pageSize) →
        c ∈ (Mem.step us.base (.krealloc us.table n)).1.live := by
      intro c hc hne
      refine step_keeps hc ?_
      intro a ha
      cases ht : us.table with
      | none =>
        rw [ht] at ha
        simp [Op.frees] at ha
      | some q =>
        rw [ht] at ha
        obtain rfl : q = a := by simpa [Op.frees] using ha
        exact Ne.symm (hne q ht)
    have hstay : ∀ x ∈ xs, ∃ b ∈ (Mem.step us.base (.krealloc us.table n)).1.live, x.At b := by
      intro x hx
      obtain ⟨c, hc, hat⟩ := h.live x hx
      refine ⟨c, hkeep c hc ?_, hat⟩
      intro p hp
      rw [← hat.page]
      exact h.table x hx p hp
    split at haccounts
    · rename_i base p hs
      rw [hs] at hstay
      refine ⟨haccounts, hstay, h.once, h.runs, ?_⟩
      intro x hx q hq heq
      obtain rfl : p = q := Option.some.inj hq
      obtain ⟨count, size, hlive⟩ := krealloc_head hs
      obtain ⟨c, hc, hat⟩ := h.live x hx
      -- The holding is behind the new block.
      have hbehind : c ∈ us.table.elim us.base.live us.base.drop := by
        cases ht : us.table with
        | none => exact hc
        | some q =>
          refine mem_drop hc ?_
          rw [← hat.page]
          exact Ne.symm (h.table x hx q ht)
      refine haccounts.sound.head_page hlive c hbehind ?_
      rw [← hat.page]
      exact heq
    · rename_i base res _ hs
      rw [hs] at hstay
      exact ⟨haccounts, hstay, h.once, h.runs, h.table⟩
  · exact h

/-- `sys_mem_alloc` leaves the holdings. -/
theorem Holds.memAlloc (h : Holds off avail highest us xs) (task : Nat) (size : UInt64) :
    Holds off avail highest (sysMemAlloc us task size).2 xs := by
  have haccounts := h.accounts.memAlloc task size
  have hgrown := h.growTable
  rw [sysMemAlloc] at haccounts ⊢
  split
  · exact h
  · rename_i hsize
    rw [if_neg hsize] at haccounts
    generalize Mem.growTable us = grown at hgrown haccounts ⊢
    obtain ⟨ok, us1⟩ := grown
    cases ok with
    | false => exact hgrown
    | true =>
      dsimp only at haccounts ⊢
      have hnew := hgrown.pmmAllocPages (userPageCount size)
      rw [Users.pmmAllocPages, Users.call] at hnew
      split at haccounts
      · rename_i base p hs
        rw [hs] at hnew
        have honce := hnew.once
        rw [List.map_cons, List.nodup_cons] at honce
        refine ⟨haccounts, fun x hx => hnew.live x (List.mem_cons_of_mem _ hx), honce.2, ?_,
          fun x hx => hnew.table x (List.mem_cons_of_mem _ hx)⟩
        intro x hx r hr
        rcases List.mem_append.mp hr with hr | hr
        · exact hnew.runs x (List.mem_cons_of_mem _ hx) r hr
        · obtain rfl : r = ⟨p, userPageCount size, task⟩ := by simpa using hr
          intro heq
          exact honce.1 (List.mem_map.mpr ⟨x, hx, heq⟩)
      · rename_i base res _ hs
        have hop : permitted us1.base (.pmmAllocPages (userPageCount size)) := trivial
        have hsame := hgrown.call_of_frees hop rfl
        rw [Users.call, hs] at hsame
        exact hsame

/-! ## Pages in use -/

/-- The pages of the live blocks. -/
def State.inUse (st : State) : Nat := (st.live.map Block.count).sum

/-- The free pages and those in use are the same in number all the time. -/
theorem Sound.free_add_inUse (h : Sound off avail highest st) :
    (st.heap.pmm.freePages + off + st.inUse) % wrap = avail.card % wrap := by
  have hcounted := h.counted.eq
  rw [h.totalPages] at hcounted
  have hbalance := h.balance
  rw [← hbalance, ← hcounted, State.inUse]
  simp only [wrap]
  omega

end Mem
