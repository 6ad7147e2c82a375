import StrawOS.Libc.HeapCalls
import StrawOS.Mem.UserAccounts

/-!
# The contract of the heap

`free` and `realloc` on live blocks, and from all calls together the contract of
the heap over whole runs of a program, `heap_contract`.  At the end the promise
that the calls take from the kernel is checked against the model of
`user_pages.c`.
-/

namespace Libc

variable {h : Heap} {slots rest : List Slot} {chains : Nat → List Nat} {live : List HeapBlock}
  {s : Slot}

/-! ## `free` -/

/-- A return of pages that the kernel accepts: the address of a run that it has
given out, with a size of as many pages. -/
def Heap.FreeCall.Accepted (f : Heap.FreeCall) : Prop :=
  f.result = 0 ∧ ⟨f.addr, userPageCount f.size⟩ ∈ f.table

/-- What `free` does to the heap: a layout without the block, accepted returns,
and the bytes of the other blocks untouched. -/
def Shrinks (h : Heap) (live : List HeapBlock) (p : Nat) (r : Heap × List Heap.FreeCall) : Prop :=
  (∃ slots chains, Layout r.1 slots chains (lose live p)) ∧ (∀ f ∈ r.2, f.Accepted) ∧
    ∀ b ∈ live, b.ptr ≠ p → ∀ a, b.HasByte a → r.1.mem a = h.mem a

theorem Layout.find_run (hl : Layout h slots chains live) {r : PageRun} (hr : r ∈ h.runs) :
    h.runs.find? (fun q => q.addr == r.addr) = some r := by
  cases hf : h.runs.find? fun q => q.addr == r.addr with
  | none =>
    have := List.find?_eq_none.mp hf _ hr
    simp at this
  | some q =>
    have haddr : q.addr = r.addr := by simpa using List.find?_some hf
    rw [hl.run_unique (List.mem_of_find?_eq_some hf) hr haddr]

/-- **`free`.** -/
theorem Layout.freeBlock (hl : Layout h slots chains live) {b : HeapBlock} (hb : b ∈ live) :
    Shrinks h live b.ptr (h.free (some b.ptr)) := by
  obtain ⟨s, hs, hheld, hptr⟩ := hl.slot_of_live hb
  obtain ⟨rest, hl⟩ := hl.front hs
  have hsound := hl.sound s List.mem_cons_self
  have hlen := hsound.len_ge
  obtain ⟨hsize, -, hmax⟩ := hsound.size _ hheld
  rw [← hptr]
  have hmagic : ¬ h.magic s.hdr ≠ heapMagic := not_not_intro hsound.magic
  simp only [Heap.free, ptr_sub, if_neg hmagic, hsound.cls]
  rcases hsound.kind with hsmall | hlarge
  · have hne : s.cls ≠ heapLarge := by
      have := hsmall.1
      simp only [heapLarge]
      omega
    rw [if_neg hne]
    refine ⟨⟨_, _, hl.putFree hheld hsmall⟩, by simp, ?_⟩
    intro c hc hcne a ha
    have hout := hl.other_slot hc hcne ha
    have hp := s.ptr_eq
    exact h.store_mem_of_out (by omega)
  · obtain ⟨hcls, n, count, hn, hrun, -, hpages, h2⟩ := id hlarge
    rw [hheld, Option.some.injEq] at hn
    rw [← hpages, ← hn] at h2
    obtain ⟨-, -, hcount⟩ := heapLargePages_two hmax h2
    rw [← hn] at hpages
    have hrun' : (⟨s.hdr, userPageCount ((b.size + heapHeader) % 2 ^ 64)⟩ : PageRun) ∈ h.runs := by
      rw [hcount, hpages]
      exact hrun
    have hfree : (h.store (s.hdr + 4) 4 0).memFree s.hdr ((b.size + heapHeader) % 2 ^ 64) =
        (0, { h.store (s.hdr + 4) 4 0 with runs := h.runs.eraseP fun r => r.addr == s.hdr }) := by
      have hfind := hl.find_run hrun'
      simp [Heap.memFree, Heap.store, hfind]
    rw [if_pos hcls, hsize, hfree]
    have hmem : ∀ a, a < s.hdr ∨ s.hdr + s.len ≤ a →
        (h.store (s.hdr + 4) 4 0).mem a = h.mem a := fun a ha => h.store_mem_of_out (by omega)
    refine ⟨⟨rest, chains, hl.drop hlarge rfl rfl rfl rfl hmem⟩, ?_, ?_⟩
    · intro f hf
      rw [List.mem_singleton.mp hf]
      exact ⟨rfl, hrun'⟩
    · intro c hc hcne a ha
      exact hmem a (hl.other_slot hc hcne ha)

/-! ## `calloc` and `realloc` -/

theorem Layout.ptr_nodup (hl : Layout h slots chains live) : (live.map HeapBlock.ptr).Nodup := by
  rw [(hl.live.map HeapBlock.ptr).nodup_iff, List.Nodup, List.pairwise_map,
    List.pairwise_filterMap]
  refine hl.apart.imp_of_mem ?_
  intro s t hs ht hapart b hb c hc heq
  obtain ⟨n, -, rfl⟩ := Option.map_eq_some_iff.mp hb
  obtain ⟨m, -, rfl⟩ := Option.map_eq_some_iff.mp hc
  have h1 := (hl.sound s hs).len_ge
  have h2 := (hl.sound t ht).len_ge
  simp only [Slot.ptr_eq] at heq
  simp only [Apart] at hapart
  omega

theorem Layout.disjoint (hl : Layout h slots chains live) :
    live.Pairwise fun b c => b.ptr ≠ c.ptr ∧ ∀ a, b.HasByte a → ¬ c.HasByte a := by
  have hnodup := hl.ptr_nodup
  rw [List.Nodup, List.pairwise_map] at hnodup
  refine hnodup.imp_of_mem ?_
  intro b c hb hc hne
  refine ⟨hne, fun a hba hca => ?_⟩
  obtain ⟨s, hs, hheld, hptr⟩ := hl.slot_of_live hb
  have hin := hl.hasByte_of_slot hs hheld hptr hba
  obtain ⟨rest, hfront⟩ := hl.front hs
  have hout := hfront.other_slot hc (by rw [hptr]; exact Ne.symm hne) hca
  omega

/-- **`calloc`.** -/
theorem Layout.calloc (hl : Layout h slots chains live) {answer : Nat → Option Nat}
    (hfresh : h.Fresh answer) {nmemb size : Nat} (hn : nmemb ≤ sizeMax) :
    ∃ slots' chains', Layout (h.calloc answer nmemb size).2 slots' chains'
      (gain live (h.calloc answer nmemb size).1 (nmemb * size)) := by
  rw [Heap.calloc]
  split
  · exact ⟨slots, chains, hl⟩
  · rename_i hsmall
    -- The product does not overflow.
    have hprod : nmemb * size ≤ sizeMax := by
      by_cases h0 : size = 0
      · simp [h0]
      · have hle : nmemb ≤ sizeMax / size := by
          by_contra hlt
          exact hsmall ⟨h0, Nat.not_le.mp hlt⟩
        exact (Nat.le_div_iff_mul_le (Nat.pos_of_ne_zero h0)).mp hle
    have hmod : nmemb * size % 2 ^ 64 = nmemb * size := by
      simp only [sizeMax] at hprod
      omega
    obtain ⟨⟨slots', chains', hl'⟩, -⟩ := hl.malloc hfresh hprod
    rw [hmod]
    obtain ⟨p, h', hr⟩ : ∃ p h', h.malloc answer (nmemb * size) = (p, h') := ⟨_, _, rfl⟩
    rw [hr] at hl'
    simp only [hr]
    cases p with
    | none => exact ⟨slots', chains', hl'⟩
    | some p =>
      refine ⟨slots', chains', hl'.writeBlock List.mem_cons_self ?_⟩
      intro a ha
      simp only [HeapBlock.HasByte] at ha
      by_cases hlt : a < p
      · exact Buf.write_of_lt hlt
      · exact Buf.write_of_ge (by rw [List.length_replicate]; omega)

/-- What `realloc` of a block does to the heap: a layout with the new block for
the old one, accepted returns, and the common bytes of the two equal. -/
def Moves (h : Heap) (live : List HeapBlock) (b : HeapBlock) (n : Nat)
    (r : Option Nat × Heap × List Heap.FreeCall) : Prop :=
  (∃ slots chains, Layout r.2.1 slots chains (trade live (some b.ptr) r.1 n)) ∧
    (∀ f ∈ r.2.2, f.Accepted) ∧
    ∀ q, r.1 = some q →
      Buf.read r.2.1.mem q (min b.size n) = Buf.read h.mem b.ptr (min b.size n)

theorem Layout.reallocInPlace (hl : Layout h slots chains live) {b : HeapBlock} (hb : b ∈ live)
    {n : Nat} (hn : n ≤ sizeMax)
    (hfits : h.fits (b.ptr - heapHeader) n = true) :
    Moves h live b n (some b.ptr, h.setSize (b.ptr - heapHeader) n, []) := by
  obtain ⟨s, hs, hheld, hptr⟩ := hl.slot_of_live hb
  obtain ⟨rest, hl⟩ := hl.front hs
  have hsound := hl.sound s List.mem_cons_self
  obtain ⟨hsize, -, hmax⟩ := hsound.size _ hheld
  rw [← hptr, ptr_sub, Heap.fits, hsound.cls, hsize] at hfits
  have hlayout : Layout (h.setSize s.hdr n) ({ s with held := some n } :: rest) chains
      (⟨s.ptr, n⟩ :: lose live s.ptr) := by
    rcases hsound.kind with hsmall | hlarge
    · have hne : s.cls ≠ heapLarge := by
        have := hsmall.1
        simp only [heapLarge]
        omega
      rw [if_pos hne, decide_eq_true_eq] at hfits
      refine hl.resize hheld hn (by rw [hsmall.2]; omega) ?_
      intro hlarge
      exact absurd hlarge.1 hne
    · obtain ⟨hcls, m, count, hm, -, hlen, hpages, h2⟩ := id hlarge
      rw [hheld, Option.some.injEq] at hm
      rw [if_neg (not_not_intro hcls), beq_iff_eq] at hfits
      rw [← hm] at hpages
      have hroom := (heapLargePages_two hn (by omega)).2.1
      refine hl.resize hheld hn ?_ fun _ => hfits
      rw [hlen, ← hpages, ← hfits]
      exact hroom
  refine ⟨⟨{ s with held := some n } :: rest, chains, ?_⟩, by simp, ?_⟩
  · rw [← hptr, ptr_sub]
    exact hlayout
  · intro q hq
    obtain rfl := Option.some.inj hq
    rw [← hptr, ptr_sub]
    apply h.read_store_disjoint
    rw [Slot.ptr_eq]
    omega

theorem Layout.reallocMove (hl : Layout h slots chains live) {answer : Nat → Option Nat}
    (hfresh : h.Fresh answer) {b : HeapBlock} (hb : b ∈ live) {n : Nat} (hn : n ≤ sizeMax)
    (hne : n ≠ 0) :
    Moves h live b n (match h.malloc answer n with
      | (none, h) => (none, h, [])
      | (some q, h) =>
          (some q, (h.memcpy q b.ptr (if h.size (b.ptr - heapHeader) < n
            then h.size (b.ptr - heapHeader) else n)).free (some b.ptr))) := by
  obtain ⟨⟨slots', chains', hl'⟩, hkeep⟩ := hl.malloc hfresh hn
  obtain ⟨q, h', hr⟩ : ∃ q h', h.malloc answer n = (q, h') := ⟨_, _, rfl⟩
  rw [hr] at hl' hkeep
  simp only [hr]
  cases q with
  | none =>
    refine ⟨⟨slots', chains', ?_⟩, by simp, by simp⟩
    simpa [trade, gain, hne] using hl'
  | some q =>
    have hb' : b ∈ gain live (some q) n := List.mem_cons_of_mem _ hb
    have hqb : q ≠ b.ptr := by
      have hnodup := hl'.ptr_nodup
      simp only [gain, List.map_cons, List.nodup_cons] at hnodup
      exact fun heq => hnodup.1 (heq ▸ List.mem_map_of_mem hb)
    -- The header of the old block still has its size.
    have hsize : h'.size (b.ptr - heapHeader) = b.size := by
      obtain ⟨s, hs, hheld, hptr⟩ := hl'.slot_of_live hb'
      rw [← hptr, ptr_sub]
      exact ((hl'.sound s hs).size _ hheld).1
    have hcopy : (if h'.size (b.ptr - heapHeader) < n then h'.size (b.ptr - heapHeader) else n) =
        min b.size n := by
      split <;> omega
    simp only [hcopy]
    have houtside : ∀ a, ¬ HeapBlock.HasByte ⟨q, n⟩ a →
        Buf.write h'.mem q (Buf.read h'.mem b.ptr (min b.size n)) a = h'.mem a := by
      intro a ha
      simp only [HeapBlock.HasByte] at ha
      by_cases hlt : a < q
      · exact Buf.write_of_lt hlt
      · exact Buf.write_of_ge (by rw [Buf.length_read]; omega)
    have hl2 := hl'.writeBlock List.mem_cons_self houtside
    obtain ⟨⟨slots2, chains2, hl3⟩, haccepted, hrest⟩ := hl2.freeBlock hb'
    refine ⟨⟨slots2, chains2, ?_⟩, haccepted, ?_⟩
    · simpa [gain, trade, lose, hqb, Heap.memcpy] using hl3
    · intro p hp
      obtain rfl := Option.some.inj hp
      have hstay : Buf.read ((h'.memcpy q b.ptr (min b.size n)).free (some b.ptr)).1.mem q
          (min b.size n) = Buf.read (h'.memcpy q b.ptr (min b.size n)).mem q (min b.size n) := by
        apply Buf.read_congr
        intro i hi
        refine hrest ⟨q, n⟩ List.mem_cons_self hqb _ ?_
        simp only [HeapBlock.HasByte]
        omega
      have hself := Buf.read_write_self h'.mem q (Buf.read h'.mem b.ptr (min b.size n))
      rw [Buf.length_read] at hself
      rw [hstay, Heap.memcpy, hself]
      apply Buf.read_congr
      intro i hi
      refine hkeep b hb _ ?_
      simp only [HeapBlock.HasByte]
      omega

/-- **`realloc`** of a block. -/
theorem Layout.reallocBlock (hl : Layout h slots chains live) {answer : Nat → Option Nat}
    (hfresh : h.Fresh answer) {b : HeapBlock} (hb : b ∈ live) {n : Nat} (hn : n ≤ sizeMax) :
    Moves h live b n (h.realloc answer (some b.ptr) n) := by
  by_cases h0 : n = 0
  · obtain ⟨hlayout, haccepted, -⟩ := hl.freeBlock hb
    simp only [Heap.realloc, h0, if_true]
    exact ⟨by simpa [trade] using hlayout, haccepted, by simp⟩
  · simp only [Heap.realloc, h0, if_false]
    by_cases hfits : h.fits (b.ptr - heapHeader) n = true
    · rw [if_pos hfits]
      exact hl.reallocInPlace hb hn hfits
    · rw [if_neg hfits]
      exact hl.reallocMove hfresh hb hn h0

/-! ## Whole runs -/

/-- A state of a program whose heap is laid out. -/
def HeapState.Sound (st : HeapState) : Prop :=
  ∃ slots chains, Layout st.heap slots chains st.live

theorem size_le (size : UInt64) : size.toNat ≤ sizeMax := by
  have := size.toNat_lt
  simp only [sizeMax]
  omega

/-- **One step** keeps the layout, and the kernel accepts what is returned in it. -/
theorem HeapState.Sound.step {st : HeapState} (h : st.Sound) {op : HeapOp}
    (hop : heapPermitted st op) :
    (heapStep st op).1.Sound ∧ ∀ f ∈ (heapStep st op).2, f.Accepted := by
  obtain ⟨slots, chains, hl⟩ := h
  cases op with
  | malloc answer size => exact ⟨(hl.malloc hop (size_le size)).1, by simp [heapStep]⟩
  | calloc answer nmemb size => exact ⟨hl.calloc hop (size_le nmemb), by simp [heapStep]⟩
  | realloc answer ptr size =>
    cases ptr with
    | none =>
      exact ⟨(hl.malloc hop.1 (size_le size)).1, by simp [heapStep, Heap.realloc]⟩
    | some p =>
      obtain ⟨b, hb, rfl⟩ := hop.2 p rfl
      obtain ⟨hlayout, haccepted, -⟩ := hl.reallocBlock hop.1 hb (size_le size)
      exact ⟨hlayout, haccepted⟩
  | free ptr =>
    cases ptr with
    | none => exact ⟨⟨slots, chains, hl⟩, by simp [heapStep, Heap.free]⟩
    | some p =>
      obtain ⟨b, hb, rfl⟩ := hop p rfl
      obtain ⟨hlayout, haccepted, -⟩ := hl.freeBlock hb
      exact ⟨hlayout, haccepted⟩
  | write addr byte =>
    obtain ⟨b, hb, ha⟩ := hop
    refine ⟨⟨slots, chains, hl.writeBlock hb ?_⟩, by simp [heapStep]⟩
    intro a hna
    have hne : a ≠ addr := by
      intro heq
      exact hna (heq ▸ ha)
    exact Function.update_of_ne hne _ _
  | foreign addr byte => exact ⟨⟨slots, chains, hl.writeForeign hop⟩, by simp [heapStep]⟩

theorem HeapState.Sound.start {st : HeapState} (h : heapMachine.start st) : st.Sound := by
  obtain ⟨hlive, hruns, hlists, -, hleft⟩ := h
  refine ⟨[], fun _ => [], ?_⟩
  constructor <;> simp [hlive, hruns, hlists, hleft]

theorem sound_of_reachable {st : HeapState} (h : heapMachine.Reachable heapPermitted st) :
    st.Sound :=
  h.invariant (P := HeapState.Sound) (fun _ h0 => HeapState.Sound.start h0)
    fun _ _ hs hop => (hs.step hop).1

/-- **The contract of the heap.**  In every state of every run the live blocks
are apart, each lies in memory that the kernel gave and has not got back, with
room for what was asked; `realloc` keeps the common bytes; and every return of
pages is one the kernel accepts. -/
theorem heap_contract {st : HeapState} (h : heapMachine.Reachable heapPermitted st) :
    (st.live.Pairwise fun b c => b.ptr ≠ c.ptr ∧ ∀ a, b.HasByte a → ¬ c.HasByte a) ∧
    (∀ b ∈ st.live, ∃ r ∈ st.heap.runs, r.addr ≤ b.ptr ∧
      b.ptr + b.size ≤ r.addr + r.count * heapPageSize) ∧
    (∀ b ∈ st.live, ∀ answer (size : UInt64), st.heap.Fresh answer →
      ∀ q, (st.heap.realloc answer (some b.ptr) size.toNat).1 = some q →
        Buf.read (st.heap.realloc answer (some b.ptr) size.toNat).2.1.mem q
            (min b.size size.toNat) =
          Buf.read st.heap.mem b.ptr (min b.size size.toNat)) ∧
    (∀ op, heapPermitted st op → ∀ f ∈ (heapStep st op).2, f.Accepted) := by
  have hsound := sound_of_reachable h
  obtain ⟨slots, chains, hl⟩ := id hsound
  refine ⟨hl.disjoint, ?_, ?_, ?_⟩
  · intro b hb
    obtain ⟨s, hs, hheld, hptr⟩ := hl.slot_of_live hb
    obtain ⟨r, hr, h1, h2⟩ := (hl.sound s hs).inside
    have hroom := ((hl.sound s hs).size _ hheld).2.1
    rw [Slot.ptr_eq] at hptr
    simp only [heapHeader] at hroom
    exact ⟨r, hr, by omega, by omega⟩
  · intro b hb answer size hfresh
    exact (hl.reallocBlock hfresh hb (size_le size)).2.2
  · intro op hop
    exact (hsound.step hop).2

/-- A program that has asked for a large block, from a kernel that gives pages at
`2 ^ 20`. -/
def oneLarge : HeapState :=
  (heapMachine.step ⟨⟨fun _ => 0, fun _ => none, 0, 0, []⟩, []⟩
    (.malloc (fun size => if size = 5016 then some (2 ^ 20) else none) 5000)).1

theorem oneLarge_inside :
    oneLarge.live = [⟨2 ^ 20 + 16, 5000⟩] ∧ oneLarge.heap.runs = [⟨2 ^ 20, 2⟩] ∧
      ∀ b ∈ oneLarge.live, ∃ r ∈ oneLarge.heap.runs, r.addr ≤ b.ptr ∧
        b.ptr + b.size ≤ r.addr + r.count * heapPageSize := by
  have hfresh : Heap.Fresh ⟨fun _ => 0, fun _ => none, 0, 0, []⟩
      (fun size => if size = 5016 then some (2 ^ 20) else none) := by
    intro size p hp
    simp only at hp
    by_cases hsize : size = 5016
    · rw [if_pos hsize, Option.some.injEq] at hp
      subst hsize hp
      exact ⟨by decide, by decide, by simp⟩
    · simp [hsize] at hp
  have hreach : heapMachine.Reachable heapPermitted oneLarge :=
    .step (HeapOp.malloc _ 5000) (.start ⟨rfl, rfl, fun _ => rfl, rfl, rfl⟩) hfresh
  exact ⟨by decide, by decide, (heap_contract hreach).2.1⟩

/-! ## The kernel keeps its promise -/

open Mem (Users UserPageRun Accounts sysMemAlloc sysMemFree)

/-- A record of `user_runs`, at the address that the task sees. -/
def pageRun (hhdm : Nat) (r : UserPageRun) : PageRun := ⟨hhdm + r.addr, r.count.toNat⟩

def kernelRuns (hhdm : Nat) (us : Users) (task : Nat) : List PageRun :=
  (us.runs.filter fun r => r.owner == task).map (pageRun hhdm)

/-- What the library sees of `sys_mem_alloc`. -/
def kernelAnswer (hhdm : Nat) (us : Users) (task size : Nat) : Option Nat :=
  (sysMemAlloc us task (.ofNat size)).1.map (hhdm + ·)

variable {off : Nat} {avail : Finset Nat} {highest hhdm task : Nat} {us : Users}

theorem mem_kernelRuns {r : PageRun} : r ∈ kernelRuns hhdm us task ↔
    ∃ s ∈ us.runs, s.owner = task ∧ pageRun hhdm s = r := by
  simp [kernelRuns, and_assoc]

theorem toNat_userPageCount (size : Nat) :
    (Mem.userPageCount (.ofNat size)).toNat = userPageCount size := by
  rw [Mem.userPageCount, UInt64.toNat_div, UInt64.toNat_sub, UInt64.toNat_add, UInt64.toNat_ofNat']
  change (2 ^ 64 - 1 + (size % 2 ^ 64 + 4096) % 2 ^ 64) % 2 ^ 64 / 4096 =
    (size + 4095) % 2 ^ 64 / 4096
  omega

/-- The runs of all tasks are apart. -/
theorem runs_apart (h : Accounts off avail highest us) (hhdm : Nat) :
    us.runs.Pairwise fun r s => ∀ a, (pageRun hhdm r).HasByte a → ¬ (pageRun hhdm s).HasByte a := by
  refine (List.pairwise_map.mp h.once).imp_of_mem ?_
  intro r s hr hs hne a har has
  have hpage : ∀ q ∈ us.runs, (pageRun hhdm q).HasByte a →
      (a - hhdm) / Mem.pageSize ∈ q.block.pages := by
    intro q hq haq
    have haligned := h.aligned q hq
    rw [Mem.Block.mem_pages]
    simp only [PageRun.HasByte, pageRun, UserPageRun.block, Mem.pageSize, heapPageSize] at *
    omega
  have hsame := h.sound.eq_of_common (h.live r hr) (h.live s hs) (hpage r hr har) (hpage s hs has)
  exact hne (congrArg Mem.Block.page hsame)

theorem kernelAnswer_some (h : Accounts off avail highest us) {size p : Nat}
    (hp : kernelAnswer hhdm us task size = some p) :
    hhdm ≤ p ∧ p + userPageCount size * heapPageSize ≤ hhdm + highest ∧
      kernelRuns hhdm (sysMemAlloc us task (.ofNat size)).2 task =
        kernelRuns hhdm us task ++ [⟨p, userPageCount size⟩] ∧
      ∀ r ∈ kernelRuns hhdm us task, ∀ a, r.HasByte a →
        ¬ (⟨p, userPageCount size⟩ : PageRun).HasByte a := by
  obtain ⟨q, hq, rfl⟩ := Option.map_eq_some_iff.mp hp
  rcases h.memAlloc_cases task (.ofNat size) with ⟨hnone, -⟩ | ⟨q', hq', hnew⟩
  · exact absurd (hnone.symm.trans hq) (by simp)
  obtain rfl := Option.some.inj (hq'.symm.trans hq)
  have hafter := h.memAlloc task (.ofNat size)
  have hcount := toNat_userPageCount size
  have hapart := runs_apart hafter hhdm
  rw [hnew, List.pairwise_append] at hapart
  refine ⟨Nat.le_add_right _ _, ?_, by simp [kernelRuns, hnew, pageRun, hcount], fun r hr => ?_⟩
  · have htop := hafter.top (hnew ▸ List.mem_append_right _ (List.mem_singleton_self _))
    simp only [hcount, Mem.pageSize, heapPageSize] at htop ⊢
    omega
  obtain ⟨s, hs, -, rfl⟩ := mem_kernelRuns.mp hr
  have hbytes := hapart.2.2 s hs _ (List.mem_singleton_self _)
  rwa [pageRun, pageRun, hcount] at hbytes

/-- **The kernel keeps its promise.**  In every state of every run of the kernel, for a heap with
runs that the kernel has given to its task, the answers of `sys_mem_alloc` are what
`heap_contract` takes from the kernel, each adds its run to the runs of the task, and the kernel
takes every run of the heap back, and only that one. -/
theorem kernel_keeps_promise {boot : Mem.BootInfo} (hv : boot.Valid)
    (h : (Mem.userMachine boot).Reachable Mem.userPermitted us) (hpos : 0 < hhdm)
    (htop : hhdm + boot.highestAddr ≤ 2 ^ 64) {heap : Heap}
    (hruns : ∀ r ∈ heap.runs, r ∈ kernelRuns hhdm us task) :
    heap.Fresh (kernelAnswer hhdm us task) ∧
      (∀ size p, kernelAnswer hhdm us task size = some p →
        kernelRuns hhdm (sysMemAlloc us task (.ofNat size)).2 task =
          kernelRuns hhdm us task ++ [⟨p, userPageCount size⟩]) ∧
      ∀ addr (size : UInt64), ⟨addr, userPageCount size.toNat⟩ ∈ heap.runs →
        (sysMemFree us (some (addr - hhdm)) size).1 = 0 ∧
          (⟨addr, userPageCount size.toNat⟩ ::
            kernelRuns hhdm (sysMemFree us (some (addr - hhdm)) size).2.2 task).Perm
              (kernelRuns hhdm us task) := by
  obtain ⟨m, hinit⟩ := Mem.init_of_user_reachable h
  have hacc := Mem.accounts_of_reachable hv hinit h
  refine ⟨fun size p hp => ?_, fun size p hp => (kernelAnswer_some hacc hp).2.2.1, ?_⟩
  · obtain ⟨hle, hend, -, hapart⟩ := kernelAnswer_some hacc hp
    exact ⟨by omega, by omega, fun r hr => hapart r (hruns r hr)⟩
  · intro addr size hmem
    obtain ⟨r, hr, howner, heq⟩ := mem_kernelRuns.mp (hruns _ hmem)
    obtain ⟨rfl, hcount⟩ := PageRun.mk.inj heq
    have hpages := toNat_userPageCount size.toNat
    rw [UInt64.ofNat_toNat, ← hcount, UInt64.toNat_inj] at hpages
    obtain ⟨hzero, hperm⟩ := hacc.memFree_accepted hr hpages
    rw [Nat.add_sub_cancel_left]
    refine ⟨hzero, ?_⟩
    have hmap := (hperm.filter fun r => r.owner == task).map (pageRun hhdm)
    simpa [kernelRuns, howner, heq] using hmap

/-- A task that has asked for 5000 bytes. -/
def twoPages : Users := (Mem.userStep ⟨⟨⟨Mem.smallPmm 8, fun _ => 0⟩, []⟩, [], none, 0⟩
  (.memAlloc 1 5000)).1

theorem twoPages_returned : kernelRuns 4096 twoPages 1 = [⟨16384, 2⟩] ∧
    (sysMemFree twoPages (some (16384 - 4096)) 5000).1 = 0 := by
  have hruns : kernelRuns 4096 twoPages 1 = [⟨16384, 2⟩] := by decide +kernel
  have hreach : (Mem.userMachine (Mem.smallBoot 8)).Reachable Mem.userPermitted twoPages :=
    .step _ (.start ⟨.start ⟨Mem.smallBoot_init 8, rfl⟩, rfl, rfl, rfl⟩) trivial
  have hheap : ∀ r ∈ (⟨fun _ => 0, fun _ => none, 0, 0, [⟨16384, 2⟩]⟩ : Heap).runs,
      r ∈ kernelRuns 4096 twoPages 1 := by simp [hruns]
  have hall := kernel_keeps_promise (Mem.smallBoot_valid (by decide)) hreach (by decide) (by decide)
    hheap
  exact ⟨hruns, (hall.2.2 16384 5000 (by decide)).1⟩

end Libc
