import StrawOS.Mem.UserPages

/-!
# The accounts of user pages

The records of the table are live blocks of the page allocator, each under its own
first page, and the table has room for them.  Freeing runs comes down to one lemma
about a single run, which both `sys_mem_free` and the sweep of
`user_pages_release_task` use.
-/

namespace Mem

open SwapTable (swapRemove sweepOut)

/-- The records are right, and so is the block the table lies in. -/
structure Accounts (off : Nat) (avail : Finset Nat) (highest : Nat) (us : Users) : Prop where
  sound : Sound off avail highest us.base
  small : highest < wrap
  aligned : ∀ r ∈ us.runs, r.addr = r.addr / pageSize * pageSize
  live : ∀ r ∈ us.runs, r.block ∈ us.base.live
  once : (us.runs.map fun r => r.addr / pageSize).Nodup
  room : us.runs.length ≤ us.cap.toNat
  noTable : us.table = none → us.cap = 0
  table : ∀ p, us.table = some p → ∃ b ∈ us.base.live, b.HeapAt p (us.cap.toNat * 24)

variable {off : Nat} {avail : Finset Nat} {highest : Nat} {us : Users}

theorem HeapAt.page {b : Block} {p n : Nat} (h : b.HeapAt p n) : p / pageSize = b.page := by
  rw [h.2]
  simp only [pageSize, headerSize]
  omega

theorem Accounts.table_page (h : Accounts off avail highest us) {p : Nat} (hp : us.table = some p)
    {r : UserPageRun} (hr : r ∈ us.runs) : p / pageSize ≠ r.addr / pageSize := by
  obtain ⟨b, hb, hat⟩ := h.table p hp
  intro heq
  rw [HeapAt.page hat] at heq
  have hsame := h.sound.eq_of_page hb (h.live r hr) heq
  have hsize := hat.1
  rw [hsame] at hsize
  simp [UserPageRun.block] at hsize

theorem Accounts.length_le (h : Accounts off avail highest us) :
    us.runs.length ≤ highest / pageSize := by
  have hsub : (us.runs.map fun r => r.addr / pageSize).toFinset ⊆ Finset.range (highest / pageSize) := by
    intro p hp
    rw [List.mem_toFinset, List.mem_map] at hp
    obtain ⟨r, hr, rfl⟩ := hp
    have hin := h.sound.inside r.block (h.live r hr)
    have hfirst : r.addr / pageSize ∈ r.block.pages :=
      Block.mem_pages.mpr ⟨Nat.le_refl _, Nat.lt_add_of_pos_right hin.1⟩
    exact Finset.mem_range.mpr (h.sound.bound _ (hin.2 hfirst))
  have hcard := Finset.card_le_card hsub
  rw [List.toFinset_card_of_nodup h.once, List.length_map, Finset.card_range] at hcard
  exact hcard

/-! ## Freeing runs -/

theorem Accounts.freeOne (h : Accounts off avail highest us) {r : UserPageRun}
    {rest : List UserPageRun} (hperm : (r :: rest).Perm us.runs) :
    Accounts off avail highest { us with base := freeRun us.base r, runs := rest } ∧
      ∀ b, b ∈ (freeRun us.base r).live ↔ b ∈ us.base.live ∧ b ≠ r.block := by
  have hr : r ∈ us.runs := hperm.subset List.mem_cons_self
  have hrest : ∀ s ∈ rest, s ∈ us.runs := fun s hs => hperm.subset (List.mem_cons_of_mem _ hs)
  have hlive := h.live r hr
  have hpos : r.count.toNat ≠ 0 := by
    have := (h.sound.inside r.block hlive).1
    exact Nat.pos_iff_ne_zero.mp this
  have hop : permitted us.base (.pmmFreePages (some r.addr) r.count) :=
    Or.inr ⟨r.block, hlive, rfl, rfl, h.aligned r hr⟩
  have hfrees : Op.frees (.pmmFreePages (some r.addr) r.count) = some r.addr := by
    simp [Op.frees, hpos]
  have honce := (hperm.map fun r => r.addr / pageSize).nodup_iff.mpr h.once
  rw [List.map_cons, List.nodup_cons] at honce
  have hkeep : ∀ b ∈ us.base.live, r.addr / pageSize ≠ b.page → b ∈ (freeRun us.base r).live := by
    intro b hb hne
    refine step_keeps hb ?_
    intro a ha
    rw [hfrees] at ha
    rw [← Option.some.inj ha]
    exact hne
  have hdrop : (freeRun us.base r).live = us.base.live.erase r.block := by
    have heq : (freeRun us.base r).live = us.base.drop r.addr := by
      simp only [freeRun, step, hpos, if_false]
    rw [heq]
    exact h.sound.drop_eq hlive rfl
  constructor
  · constructor
    · exact h.sound.step hop
    · exact h.small
    · exact fun s hs => h.aligned s (hrest s hs)
    · intro s hs
      refine hkeep _ (h.live s (hrest s hs)) ?_
      intro heq
      exact honce.1 (List.mem_map.mpr ⟨s, hs, heq.symm⟩)
    · exact honce.2
    · have hlen := hperm.length_eq
      have hroom := h.room
      rw [List.length_cons] at hlen
      show rest.length ≤ us.cap.toNat
      omega
    · exact h.noTable
    · intro p hp
      obtain ⟨b, hb, hat⟩ := h.table p hp
      refine ⟨b, hkeep b hb ?_, hat⟩
      rw [← HeapAt.page hat]
      exact Ne.symm (h.table_page hp hr)
  · intro b
    rw [hdrop, h.sound.nodup.mem_erase_iff, and_comm]

theorem Accounts.freeAll (removed rest : List UserPageRun) (h : Accounts off avail highest us)
    (hperm : (removed ++ rest).Perm us.runs) :
    Accounts off avail highest { us with base := removed.foldl freeRun us.base, runs := rest } ∧
      ∀ b, b ∈ (removed.foldl freeRun us.base).live ↔
        b ∈ us.base.live ∧ ∀ r ∈ removed, b ≠ r.block := by
  induction removed generalizing us with
  | nil =>
    constructor
    · obtain ⟨h1, h2, h3, h4, h5, h6, h7, h8⟩ := h
      refine ⟨h1, h2, fun r hr => h3 r (hperm.subset hr), fun r hr => h4 r (hperm.subset hr), ?_, ?_,
        h7, h8⟩
      · exact (hperm.map fun r => r.addr / pageSize).nodup_iff.mpr h5
      · exact hperm.length_eq ▸ h6
    · simp
  | cons r removed ih =>
    obtain ⟨h1, hlive1⟩ := h.freeOne hperm
    obtain ⟨h2, hlive2⟩ := ih h1 (List.Perm.refl _)
    refine ⟨h2, ?_⟩
    intro b
    rw [List.foldl_cons, hlive2, hlive1, List.forall_mem_cons, and_assoc]

/-! ## The steps -/

theorem foldl_log (removed : List UserPageRun) (base : State) (log : List UserPageRun) :
    removed.foldl (fun (s : State × List UserPageRun) r => (freeRun s.1 r, s.2 ++ [r])) (base, log) =
      (removed.foldl freeRun base, log ++ removed) := by
  induction removed generalizing base log with
  | nil => simp
  | cons r removed ih =>
    rw [List.foldl_cons, ih, List.foldl_cons, List.append_assoc]
    rfl

/-- What `user_pages_release_task` does. -/
theorem userPagesReleaseTask_spec (us : Users) (task : Nat) :
    (userPagesReleaseTask us task).1.Perm (us.runs.filter fun r => r.owner == task) ∧
      (userPagesReleaseTask us task).2.runs.Perm (us.runs.filter fun r => !(r.owner == task)) ∧
      (userPagesReleaseTask us task).2 =
        { us with
          base := (userPagesReleaseTask us task).1.foldl freeRun us.base
          runs := (userPagesReleaseTask us task).2.runs } := by
  obtain ⟨removed, h1, h2, h3⟩ := SwapTable.sweepOut_zero (fun r => r.owner == task)
    (fun (s : State × List UserPageRun) r => (freeRun s.1 r, s.2 ++ [r])) (us.base, []) us.runs
  rw [foldl_log, List.nil_append] at h1
  rw [userPagesReleaseTask]
  rw [h1]
  exact ⟨h2, h3, rfl⟩

theorem Accounts.releaseTask (h : Accounts off avail highest us) (task : Nat) :
    Accounts off avail highest (userPagesReleaseTask us task).2 ∧
      ∀ b, b ∈ (userPagesReleaseTask us task).2.base.live ↔
        b ∈ us.base.live ∧ ∀ r ∈ (userPagesReleaseTask us task).1, b ≠ r.block := by
  obtain ⟨h1, h2, h3⟩ := userPagesReleaseTask_spec us task
  have hperm : ((userPagesReleaseTask us task).1 ++ (userPagesReleaseTask us task).2.runs).Perm
      us.runs :=
    (h1.append h2).trans (List.filter_append_perm _ us.runs)
  rw [h3]
  exact h.freeAll _ _ hperm

/-- What `sys_mem_free` does: nothing, or it frees the run it was given. -/
theorem sysMemFree_cases (us : Users) (addr : Option Nat) (size : UInt64) :
    ((sysMemFree us addr size).2 = ([], us)) ∨
      ∃ r rest, (r :: rest).Perm us.runs ∧ addr = some r.addr ∧ r.count = userPageCount size ∧
        (sysMemFree us addr size).2 =
          ([r], { us with base := freeRun us.base r, runs := rest }) := by
  cases addr with
  | none => exact Or.inl rfl
  | some addr =>
    unfold sysMemFree
    dsimp only
    split
    · exact Or.inl rfl
    rename_i i hfind
    split
    · exact Or.inl rfl
    rename_i r hr
    split
    · exact Or.inl rfl
    rename_i hcount
    right
    obtain ⟨hlt, hget⟩ := List.getElem?_eq_some_iff.mp hr
    have haddr : r.addr = addr := by
      obtain ⟨hlt', hp, -⟩ := List.findIdx?_eq_some_iff_getElem.mp hfind
      rw [hget] at hp
      simpa using hp
    refine ⟨r, swapRemove us.runs i, ?_, by rw [haddr], not_not.mp hcount, rfl⟩
    rw [← hget]
    exact SwapTable.swapRemove_perm hlt

theorem Accounts.memFree (h : Accounts off avail highest us) (addr : Option Nat) (size : UInt64) :
    Accounts off avail highest (sysMemFree us addr size).2.2 := by
  rcases sysMemFree_cases us addr size with heq | ⟨r, rest, hperm, -, -, heq⟩
  · rw [heq]
    exact h
  · rw [heq]
    exact (h.freeOne hperm).1

/-! ## Growing the table -/

theorem giveOut_some {st st' : State} {r : Option Nat × Heap} {count p : Nat} {size : Option Nat}
    (h : st.giveOut r count size = (st', [some p])) :
    r.1 = some p ∧ st'.live = ⟨p / pageSize, count, size⟩ :: st.live := by
  obtain ⟨a, heap⟩ := r
  cases a with
  | none => simp [State.giveOut] at h
  | some a =>
    obtain ⟨h1, h2⟩ := Prod.mk.inj h
    obtain rfl : a = p := by simpa using h2
    rw [← h1]
    exact ⟨rfl, rfl⟩

/-- A `krealloc` that succeeds leaves a live block at the pointer it returns. -/
theorem krealloc_block {st st' : State} (h : Sound off avail highest st) {ptr : Option Nat}
    {n : UInt64} {p : Nat} (hop : permitted st (.krealloc ptr n)) (hn : n.toNat ≠ 0)
    (hs : step st (.krealloc ptr n) = (st', [some p])) : ∃ b ∈ st'.live, b.HeapAt p n.toNat := by
  have hat : ∀ start, p = start * pageSize + headerSize →
      p = p / pageSize * pageSize + headerSize := by
    intro start hp
    rw [hp]
    simp only [pageSize, headerSize]
    omega
  cases ptr with
  | none =>
    obtain ⟨hp, hlive⟩ := giveOut_some hs
    cases hk : st.heap.kmalloc n.toNat with
    | mk r h' =>
      change (st.heap.kmalloc n.toNat).1 = some p at hp
      rw [hk] at hp
      obtain rfl : r = some p := hp
      obtain ⟨start, hstart, -⟩ := h.kmalloc n.toNat_lt hk
      rw [hlive]
      exact ⟨_, List.mem_cons_self, rfl, hat start hstart⟩
  | some ptr =>
    obtain ⟨b, hb, k, hptr⟩ := hop
    simp only [step, hn, if_false] at hs
    cases hk : st.heap.krealloc (some ptr) n.toNat with
    | mk r h' =>
      rw [hk] at hs
      cases r with
      | none => simp at hs
      | some q =>
        obtain ⟨hp, hlive⟩ := giveOut_some hs
        obtain rfl : q = p := Option.some.inj hp
        obtain ⟨⟨start, hstart⟩, -⟩ := h.krealloc hb hptr n.toNat_lt hk
        rw [hlive]
        exact ⟨_, List.mem_cons_self, rfl, hat start hstart⟩

/-- A `krealloc` that fails leaves all blocks live. -/
theorem krealloc_fails {st : State} {ptr : Option Nat} {n : UInt64} (hn : n.toNat ≠ 0)
    (hs : ∀ st' p, step st (.krealloc ptr n) ≠ (st', [some p])) :
    (step st (.krealloc ptr n)).1.live = st.live := by
  cases ptr with
  | none =>
    change (st.giveOut (st.heap.kmalloc n.toNat) _ _).1.live = st.live
    cases hk : st.heap.kmalloc n.toNat with
    | mk r h' =>
      cases r with
      | none => rfl
      | some a =>
        have hres : (step st (.krealloc none n)).2 = [some a] := by
          show (st.giveOut (st.heap.kmalloc n.toNat) _ _).2 = [some a]
          rw [hk]
          rfl
        have heq : step st (.krealloc none n) = ((step st (.krealloc none n)).1, [some a]) := by
          rw [← hres]
        exact absurd heq (hs _ a)
  | some ptr =>
    simp only [step, hn, if_false] at hs ⊢
    cases hk : st.heap.krealloc (some ptr) n.toNat with
    | mk r h' =>
      cases r with
      | none => rfl
      | some a =>
        rw [hk] at hs
        exact absurd rfl (hs _ a)

/-- A full table is no larger than memory, so doubling it does not wrap. -/
theorem grown_size {cap : UInt64} (hsmall : cap.toNat ≤ 4503599627370496) :
    (if cap = 0 then (64 : UInt64) else cap * 2).toNat =
        (if cap.toNat = 0 then 64 else cap.toNat * 2) ∧
      ((if cap = 0 then (64 : UInt64) else cap * 2) * recordSize).toNat =
        (if cap.toNat = 0 then 64 else cap.toNat * 2) * 24 := by
  have hzero : cap = 0 ↔ cap.toNat = 0 := by
    rw [← UInt64.toNat_inj]
    rfl
  by_cases hc : cap = 0
  · rw [if_pos hc, if_pos (hzero.mp hc)]
    exact ⟨rfl, rfl⟩
  · rw [if_neg hc, if_neg (fun h => hc (hzero.mpr h))]
    have h2 : (2 : UInt64).toNat = 2 := rfl
    have h24 : recordSize.toNat = 24 := rfl
    have hdouble : (cap * 2).toNat = cap.toNat * 2 := by
      rw [UInt64.toNat_mul, h2]
      omega
    refine ⟨hdouble, ?_⟩
    rw [UInt64.toNat_mul, hdouble, h24]
    omega

theorem Accounts.growTable (h : Accounts off avail highest us) :
    Accounts off avail highest (growTable us).2 ∧ (growTable us).2.runs = us.runs ∧
      ((growTable us).1 = true → us.runs.length < (growTable us).2.cap.toNat) := by
  rw [Mem.growTable]
  by_cases hfull : us.runs.length = us.cap.toNat
  case neg =>
    rw [if_neg hfull]
    exact ⟨h, rfl, fun _ => Nat.lt_of_le_of_ne h.room hfull⟩
  rw [if_pos hfull]
  have hlen := h.length_le
  have hsmall := h.small
  have hcapSmall : us.cap.toNat ≤ 4503599627370496 := by
    simp only [pageSize, wrap] at hlen hsmall
    omega
  obtain ⟨hcap, hsize⟩ := grown_size hcapSmall
  dsimp only
  generalize (if us.cap = 0 then (64 : UInt64) else us.cap * 2) = cap at hcap hsize ⊢
  have hn : (cap * recordSize).toNat ≠ 0 := by
    rw [hsize]
    split <;> omega
  have hop : permitted us.base (.krealloc us.table (cap * recordSize)) := by
    cases ht : us.table with
    | none => trivial
    | some p =>
      obtain ⟨b, hb, hat⟩ := h.table p ht
      exact ⟨b, hb, _, hat⟩
  have hsound := h.sound.step hop
  have hruns : ∀ r ∈ us.runs,
      r.block ∈ (step us.base (.krealloc us.table (cap * recordSize))).1.live := by
    intro r hr
    refine step_keeps (h.live r hr) ?_
    intro a ha
    cases ht : us.table with
    | none =>
      rw [ht] at ha
      simp [Op.frees] at ha
    | some p =>
      rw [ht] at ha
      obtain rfl : p = a := by simpa [Op.frees] using ha
      exact h.table_page ht hr
  split
  · rename_i base p hs
    rw [hs] at hsound hruns
    refine ⟨⟨hsound, h.small, h.aligned, hruns, h.once, ?_, by simp, ?_⟩, rfl, ?_⟩
    · show us.runs.length ≤ cap.toNat
      rw [hcap]
      split <;> omega
    · intro q hq
      obtain rfl : p = q := Option.some.inj hq
      have hblock := krealloc_block h.sound hop hn hs
      rw [hsize, ← hcap] at hblock
      exact hblock
    · rw [hcap]
      split <;> omega
  · rename_i base res hnone hs
    have hfails : ∀ st' p, step us.base (.krealloc us.table (cap * recordSize)) ≠ (st', [some p]) := by
      intro st' p heq
      rw [hs] at heq
      exact hnone p (Prod.mk.inj heq).2
    have hlive := krealloc_fails hn hfails
    rw [hs] at hsound hruns hlive
    refine ⟨⟨hsound, h.small, h.aligned, hruns, h.once, h.room, h.noTable, ?_⟩, rfl, by simp⟩
    intro p hp
    obtain ⟨b, hb, hat⟩ := h.table p hp
    exact ⟨b, hlive ▸ hb, hat⟩

/-- Blocks of the table and the runs stay live under a call that frees none of them. -/
theorem Accounts.base_step (h : Accounts off avail highest us) {op : Op}
    (hop : permitted us.base op) (hfrees : ∀ a, op.frees = some a →
      (∀ r ∈ us.runs, a / pageSize ≠ r.addr / pageSize) ∧
      ∀ p, us.table = some p → a / pageSize ≠ p / pageSize) :
    Accounts off avail highest { us with base := (step us.base op).1 } := by
  refine ⟨h.sound.step hop, h.small, h.aligned, ?_, h.once, h.room, h.noTable, ?_⟩
  · intro r hr
    exact step_keeps (h.live r hr) fun a ha => (hfrees a ha).1 r hr
  · intro p hp
    obtain ⟨b, hb, hat⟩ := h.table p hp
    refine ⟨b, step_keeps hb ?_, hat⟩
    intro a ha
    rw [← HeapAt.page hat]
    exact (hfrees a ha).2 p hp

theorem Accounts.memAlloc (h : Accounts off avail highest us) (task : Nat) (size : UInt64) :
    Accounts off avail highest (sysMemAlloc us task size).2 := by
  rw [sysMemAlloc]
  split
  · exact h
  dsimp only
  obtain ⟨hgrown, hruns, hroom⟩ := h.growTable
  split
  · rename_i us' hg
    rw [hg] at hgrown
    exact hgrown
  rename_i us' hg
  rw [hg] at hgrown hruns hroom
  have hroom := hroom rfl
  have hop : permitted us'.base (.pmmAllocPages (userPageCount size)) := trivial
  have hbase := hgrown.base_step hop (by simp [Op.frees])
  split
  · rename_i base p hs
    rw [hs] at hbase
    obtain ⟨hp, hlive⟩ := giveOut_some hs
    have haligned : p = p / pageSize * pageSize := by
      cases hr : us'.base.heap.pmm.pmmAllocPages (userPageCount size).toNat with
      | mk r m' =>
        rw [hr] at hp
        obtain rfl : r = some p := hp
        obtain ⟨start, rfl, -⟩ := pmmAllocPages_spec hgrown.sound.counted hr
        rw [Nat.mul_div_cancel _ (by decide)]
    have hnew : (⟨p / pageSize, (userPageCount size).toNat, none⟩ : Block) ∈ base.live := by
      rw [hlive]
      exact List.mem_cons_self
    -- the new run is apart from the old ones
    have hfresh : ∀ r ∈ us'.runs, r.addr / pageSize ≠ p / pageSize := by
      intro r hr heq
      have hold : r.block ∈ us'.base.live := hgrown.live r hr
      have hpair := hbase.sound.disjoint
      rw [show (Users.base { us' with base := base }).live = base.live from rfl, hlive,
        List.pairwise_cons] at hpair
      have hcount := (hbase.sound.inside _ hnew).1
      have hcount' := (hgrown.sound.inside _ hold).1
      have hin : p / pageSize ∈ (⟨p / pageSize, (userPageCount size).toNat, none⟩ : Block).pages :=
        Block.mem_pages.mpr ⟨Nat.le_refl _, Nat.lt_add_of_pos_right hcount⟩
      have hin' : p / pageSize ∈ r.block.pages := by
        refine Block.mem_pages.mpr ⟨Nat.le_of_eq heq, ?_⟩
        show p / pageSize < r.addr / pageSize + _
        rw [heq]
        exact Nat.lt_add_of_pos_right hcount'
      exact Finset.disjoint_left.mp (hpair.1 _ hold) hin hin'
    have hmem : ∀ r ∈ us'.runs ++ [(⟨p, userPageCount size, task⟩ : UserPageRun)],
        r ∈ us'.runs ∨ r = ⟨p, userPageCount size, task⟩ := by grind
    refine ⟨hbase.sound, hbase.small, ?_, ?_, ?_, ?_, hbase.noTable, hbase.table⟩
    · intro r hr
      rcases hmem r hr with hr | rfl
      · exact hbase.aligned r hr
      · exact haligned
    · intro r hr
      rcases hmem r hr with hr | rfl
      · exact hbase.live r hr
      · exact hnew
    · rw [List.map_append, List.nodup_append]
      refine ⟨hbase.once, by simp, ?_⟩
      intro a ha b hb heq
      obtain ⟨r, hr, rfl⟩ := List.mem_map.mp ha
      obtain rfl : b = p / pageSize := by simpa using hb
      exact hfresh r hr heq
    · rw [List.length_append, List.length_singleton, hruns]
      exact hroom
  · rename_i base res _ hs
    rw [hs] at hbase
    exact hbase

/-- **Step lemma.** -/
theorem Accounts.step (h : Accounts off avail highest us) {op : UserOp}
    (hop : userPermitted us op) : Accounts off avail highest (userStep us op).1 := by
  cases op with
  | memAlloc task size => exact h.memAlloc task size
  | memFree addr size => exact h.memFree addr size
  | releaseTask task => exact (h.releaseTask task).1
  | kernel op => exact h.base_step hop.1 hop.2

/-- **Run lemma.** -/
theorem accounts_of_reachable {boot : BootInfo} {m : Pmm} (hv : boot.Valid)
    (hinit : pmmInit boot = some m) (h : (userMachine boot).Reachable userPermitted us) :
    Accounts boot.stray.card (Bitmap.free m.bitmap boot.totalPages) boot.highestAddr us := by
  refine Machine.Reachable.invariant (P := Accounts boot.stray.card
    (Bitmap.free m.bitmap boot.totalPages) boot.highestAddr) ?_ ?_ h
  · intro s hs
    obtain ⟨hbase, hruns, htable, hcap⟩ := hs
    refine ⟨sound_of_reachable hv hinit hbase, hv.highest_lt, ?_, ?_, ?_, ?_, fun _ => hcap, ?_⟩
    · simp [hruns]
    · simp [hruns]
    · simp [hruns]
    · simp [hruns]
    · simp [htable]
  · intro s op hs hop
    exact hs.step hop

/-! ## What a task gets -/

theorem Accounts.addr_unique (h : Accounts off avail highest us) {r s : UserPageRun} (hr : r ∈ us.runs)
    (hs : s ∈ us.runs) (haddr : r.addr = s.addr) : r = s :=
  List.inj_on_of_nodup_map h.once hr hs (congrArg (· / pageSize) haddr)

/-- A run ends below the top of memory. -/
theorem Accounts.top (h : Accounts off avail highest us) {r : UserPageRun} (hr : r ∈ us.runs) :
    r.addr + r.count.toNat * pageSize ≤ highest := by
  obtain ⟨hcount, hin⟩ := h.sound.inside _ (h.live r hr)
  have hlast : r.block.page + (r.block.count - 1) ∈ r.block.pages :=
    Block.mem_pages.mpr ⟨Nat.le_add_right _ _, by omega⟩
  have hbound := h.sound.bound _ (hin hlast)
  have haligned := h.aligned r hr
  simp only [UserPageRun.block, pageSize] at *
  omega

/-- What `sys_mem_alloc` does to the records: nothing, or it adds one. -/
theorem Accounts.memAlloc_cases (h : Accounts off avail highest us) (task : Nat) (size : UInt64) :
    ((sysMemAlloc us task size).1 = none ∧ (sysMemAlloc us task size).2.runs = us.runs) ∨
      ∃ p, (sysMemAlloc us task size).1 = some p ∧
        (sysMemAlloc us task size).2.runs = us.runs ++ [⟨p, userPageCount size, task⟩] := by
  obtain ⟨-, hruns, -⟩ := h.growTable
  rw [sysMemAlloc]
  split
  · exact .inl ⟨rfl, rfl⟩
  dsimp only
  split
  · rename_i hg
    exact .inl ⟨rfl, by rwa [hg] at hruns⟩
  rename_i hg
  rw [hg] at hruns
  split
  · exact .inr ⟨_, rfl, by rw [← hruns]⟩
  · exact .inl ⟨rfl, hruns⟩

/-- `sys_mem_free` takes a run back that it has given. -/
theorem Accounts.memFree_accepted (h : Accounts off avail highest us) {r : UserPageRun}
    (hr : r ∈ us.runs) {size : UInt64} (hcount : userPageCount size = r.count) :
    (sysMemFree us (some r.addr) size).1 = 0 ∧
      (r :: (sysMemFree us (some r.addr) size).2.2.runs).Perm us.runs := by
  cases hf : us.runs.findIdx? fun s => s.addr == r.addr with
  | none => exact absurd (List.findIdx?_eq_none_iff.mp hf r hr) (by simp)
  | some i =>
    obtain ⟨hlt, hi, -⟩ := List.findIdx?_eq_some_iff_getElem.mp hf
    have hget := h.addr_unique (List.getElem_mem hlt) hr (by simpa using hi)
    simp only [sysMemFree, hf, List.getElem?_eq_getElem hlt, hget, hcount, ne_eq, not_true_eq_false,
      if_false, true_and]
    exact hget ▸ SwapTable.swapRemove_perm hlt

/-! ## The accounts over whole runs -/

/-- The machine has a start only if `pmm_init` returns. -/
theorem init_of_reachable {boot : BootInfo} {st : State}
    (h : (machine boot).Reachable permitted st) : ∃ m, pmmInit boot = some m := by
  induction h with
  | start h0 => exact ⟨_, h0.1⟩
  | step _ _ _ ih => exact ih

theorem init_of_user_reachable {boot : BootInfo}
    (h : (userMachine boot).Reachable userPermitted us) : ∃ m, pmmInit boot = some m := by
  induction h with
  | start h0 => exact init_of_reachable h0.1
  | step _ _ _ ih => exact ih

/-- **The accounts of user pages.**  In every state of every run the runs in the table
are live blocks apart from one another, a free with a wrong address or size does
nothing, the end of a task frees exactly its runs, and what is freed was live and is
so no longer. -/
theorem user_runs_accounted {boot : BootInfo} (hv : boot.Valid)
    (h : (userMachine boot).Reachable userPermitted us) :
    (us.runs.Pairwise fun r s => Disjoint r.block.pages s.block.pages) ∧
    (∀ r ∈ us.runs, r.block ∈ us.base.live ∧ r.addr = r.block.page * pageSize) ∧
    (∀ addr size, (∀ r ∈ us.runs, ¬(addr = some r.addr ∧ r.count = userPageCount size)) →
      (sysMemFree us addr size).2.2 = us) ∧
    (∀ task,
      (userPagesReleaseTask us task).2.runs.Perm (us.runs.filter fun r => !(r.owner == task)) ∧
      ∀ b, b ∈ (userPagesReleaseTask us task).2.base.live ↔
        b ∈ us.base.live ∧ ∀ r ∈ us.runs, r.owner = task → b ≠ r.block) ∧
    (∀ op, userPermitted us op →
      ((userStep us op).2.map UserPageRun.block).Nodup ∧
      ∀ r ∈ (userStep us op).2, r.block ∈ us.base.live ∧
        (∀ p ∈ r.block.pages, us.base.heap.pmm.bitmap p = true) ∧
        r.block ∉ (userStep us op).1.base.live) := by
  obtain ⟨m, hinit⟩ := init_of_user_reachable h
  have ha := accounts_of_reachable hv hinit h
  have honce : us.runs.Pairwise fun r s => r.addr / pageSize ≠ s.addr / pageSize := by
    have hnd := ha.once
    rw [List.Nodup, List.pairwise_map] at hnd
    exact hnd
  have hblocks : (us.runs.map UserPageRun.block).Nodup := by
    rw [List.Nodup, List.pairwise_map]
    exact honce.imp fun hne heq => hne (congrArg Block.page heq)
  have htaken : ∀ r ∈ us.runs, ∀ p ∈ r.block.pages, us.base.heap.pmm.bitmap p = true := by
    intro r hr p hp
    obtain ⟨h1, h2⟩ := Block.mem_pages.mp hp
    exact (ha.sound.taken (ha.live r hr) p h1 h2).2
  refine ⟨?_, ?_, ?_, ?_, ?_⟩
  · refine honce.imp_of_mem ?_
    intro r s hr hs hne
    rw [Finset.disjoint_left]
    intro p hpr hps
    have hsame := ha.sound.eq_of_common (ha.live r hr) (ha.live s hs) hpr hps
    exact hne (congrArg Block.page hsame)
  · intro r hr
    exact ⟨ha.live r hr, ha.aligned r hr⟩
  · intro addr size hwrong
    rcases sysMemFree_cases us addr size with heq | ⟨r, rest, hperm, haddr, hcount, -⟩
    · rw [heq]
    · exact absurd ⟨haddr, hcount⟩ (hwrong r (hperm.subset List.mem_cons_self))
  · intro task
    obtain ⟨h1, h2, -⟩ := userPagesReleaseTask_spec us task
    refine ⟨h2, ?_⟩
    intro b
    rw [(ha.releaseTask task).2]
    have hmem : ∀ r, r ∈ (userPagesReleaseTask us task).1 ↔ r ∈ us.runs ∧ r.owner = task := by
      intro r
      rw [h1.mem_iff]
      simp
    constructor
    · intro hb
      exact ⟨hb.1, fun r hr ho => hb.2 r ((hmem r).mpr ⟨hr, ho⟩)⟩
    · intro hb
      exact ⟨hb.1, fun r hr => hb.2 r ((hmem r).mp hr).1 ((hmem r).mp hr).2⟩
  · intro op hop
    cases op with
    | memAlloc task size => simp [userStep]
    | kernel op => simp [userStep]
    | memFree addr size =>
      rcases sysMemFree_cases us addr size with heq | ⟨r, rest, hperm, -, -, heq⟩
      · simp [userStep, heq]
      · simp only [userStep, heq, List.map_cons, List.map_nil, List.nodup_singleton, true_and,
          List.forall_mem_singleton]
        have hr : r ∈ us.runs := hperm.subset List.mem_cons_self
        refine ⟨ha.live r hr, htaken r hr, ?_⟩
        rw [(ha.freeOne hperm).2]
        simp
    | releaseTask task =>
      obtain ⟨h1, -, -⟩ := userPagesReleaseTask_spec us task
      have hsub : ∀ r ∈ (userPagesReleaseTask us task).1, r ∈ us.runs := by
        intro r hr
        exact List.mem_of_mem_filter (h1.mem_iff.mp hr)
      refine ⟨?_, ?_⟩
      · show ((userPagesReleaseTask us task).1.map UserPageRun.block).Nodup
        rw [(h1.map UserPageRun.block).nodup_iff]
        exact hblocks.sublist (List.filter_sublist.map _)
      · intro r hr
        have hr' : r ∈ (userPagesReleaseTask us task).1 := hr
        refine ⟨ha.live r (hsub r hr'), htaken r (hsub r hr'), ?_⟩
        show r.block ∉ (userPagesReleaseTask us task).2.base.live
        rw [(ha.releaseTask task).2]
        intro hb
        exact hb.2 r hr' rfl

/-- Two tasks ask for pages, and the first one ends. -/
def twoTasks : Users :=
  (userMachine (smallBoot 8)).run ⟨⟨⟨smallPmm 8, fun _ => 0⟩, []⟩, [], none, 0⟩
    [.memAlloc 1 5000, .memAlloc 2 100, .releaseTask 1]

theorem twoTasks_accounted :
    twoTasks.runs = [⟨20480, 1, 2⟩] ∧
      (twoTasks.runs.Pairwise fun r s => Disjoint r.block.pages s.block.pages) ∧
      ∀ r ∈ twoTasks.runs, r.block ∈ twoTasks.base.live ∧ r.addr = r.block.page * pageSize := by
  have hreach : (userMachine (smallBoot 8)).Reachable userPermitted twoTasks := by
    have hbase : (machine (smallBoot 8)).Reachable permitted ⟨⟨smallPmm 8, fun _ => 0⟩, []⟩ :=
      .start ⟨smallBoot_init 8, rfl⟩
    have hstart : (userMachine (smallBoot 8)).Reachable userPermitted
        ⟨⟨⟨smallPmm 8, fun _ => 0⟩, []⟩, [], none, 0⟩ := .start ⟨hbase, rfl, rfl, rfl⟩
    refine Machine.Reachable.run hstart _ ?_
    intro pre op post heq
    have hop : op ∈ [UserOp.memAlloc 1 5000, .memAlloc 2 100, .releaseTask 1] := by
      rw [heq]
      simp
    simp only [List.mem_cons, List.not_mem_nil, or_false] at hop
    rcases hop with rfl | rfl | rfl <;> trivial
  have hall := user_runs_accounted (smallBoot_valid (by decide)) hreach
  exact ⟨by decide +kernel, hall.1, hall.2.1⟩

end Mem
