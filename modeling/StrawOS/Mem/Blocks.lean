import StrawOS.Mem.Pages

/-!
# Live blocks

The allocators as a machine: the calls, the writes of their clients into the memory
they own, and the blocks that have been handed out and not been freed.

`Sound` is what holds along every run whose frees are of live blocks.  Everything
comes down to two edits: a run of free pages becomes a block, and a block becomes
free pages again.
-/

namespace Mem

/-- A block: its pages, and for a heap block the size that was asked for. -/
structure Block where
  page : Nat
  count : Nat
  size : Option Nat
  deriving DecidableEq

/-- The pages of a block. -/
def Block.pages (b : Block) : Finset Nat := Finset.Ico b.page (b.page + b.count)

/-- The allocators and the blocks that are live. -/
structure State where
  heap : Heap
  live : List Block

/-- The calls, and a write by a client. -/
inductive Op
  | pmmAllocPage
  | pmmAllocPages (count : UInt64)
  | pmmFreePage (page : Nat)
  | pmmFreePages (pages : Option Nat) (count : UInt64)
  | kmalloc (size : UInt64)
  | kcalloc (nmemb size : UInt64)
  | krealloc (ptr : Option Nat) (newSize : UInt64)
  | kfree (ptr : Option Nat)
  | store (addr : Nat) (byte : UInt8)

/-- A block starts at the page of its address. -/
def State.giveOut (st : State) (r : Option Nat × Heap) (count : Nat) (size : Option Nat) :
    State × List (Option Nat) :=
  match r with
  | (none, h) => ({ st with heap := h }, [none])
  | (some a, h) => (⟨h, ⟨a / pageSize, count, size⟩ :: st.live⟩, [some a])

/-- The block at an address is live no longer. -/
def State.drop (st : State) (a : Nat) : List Block :=
  st.live.eraseP fun b => b.page == a / pageSize

/-- One call. -/
def step (st : State) : Op → State × List (Option Nat)
  | .pmmAllocPage =>
      let r := st.heap.pmm.pmmAllocPage
      st.giveOut (r.1, { st.heap with pmm := r.2 }) 1 none
  | .pmmAllocPages count =>
      let r := st.heap.pmm.pmmAllocPages count.toNat
      st.giveOut (r.1, { st.heap with pmm := r.2 }) count.toNat none
  | .pmmFreePage page =>
      (⟨{ st.heap with pmm := st.heap.pmm.pmmFreePage page }, st.drop page⟩, [])
  | .pmmFreePages pages count =>
      let h := { st.heap with pmm := st.heap.pmm.pmmFreePages pages count.toNat }
      match pages with
      | none => (⟨h, st.live⟩, [])
      | some a => (⟨h, if count.toNat = 0 then st.live else st.drop a⟩, [])
  | .kmalloc size =>
      st.giveOut (st.heap.kmalloc size.toNat) (heapGetBlockCount size.toNat) (some size.toNat)
  | .kcalloc nmemb size =>
      let finalSize := nmemb.toNat * size.toNat % wrap
      st.giveOut (st.heap.kcalloc nmemb.toNat size.toNat) (heapGetBlockCount finalSize)
        (some finalSize)
  | .krealloc none newSize =>
      st.giveOut (st.heap.krealloc none newSize.toNat) (heapGetBlockCount newSize.toNat)
        (some newSize.toNat)
  | .krealloc (some ptr) newSize =>
      let r := st.heap.krealloc (some ptr) newSize.toNat
      if newSize.toNat = 0 then (⟨r.2, st.drop ptr⟩, [r.1])
      else
        match r with
        | (none, h) => ({ st with heap := h }, [none])
        | (some _, _) =>
            State.giveOut { st with live := st.drop ptr } r (heapGetBlockCount newSize.toNat)
              (some newSize.toNat)
  | .kfree none => (st, [])
  | .kfree (some ptr) => (⟨st.heap.kfree (some ptr), st.drop ptr⟩, [])
  | .store addr byte =>
      ({ st with heap := { st.heap with mem := Function.update st.heap.mem addr byte } }, [])

/-- A heap block by its pointer. -/
def Block.HeapAt (b : Block) (ptr n : Nat) : Prop :=
  b.size = some n ∧ ptr = b.page * pageSize + headerSize

/-- The bytes of a block that are its client's. -/
def Block.Room (b : Block) (addr : Nat) : Prop :=
  match b.size with
  | none => b.page * pageSize ≤ addr ∧ addr < (b.page + b.count) * pageSize
  | some n => b.page * pageSize + headerSize ≤ addr ∧ addr < b.page * pageSize + headerSize + n

/-- Only live blocks are freed, with their own size, and clients write into their
own blocks. -/
def permitted (st : State) : Op → Prop
  | .pmmFreePage page => ∃ b ∈ st.live, b.size = none ∧ b.count = 1 ∧ page = b.page * pageSize
  | .pmmFreePages (some pages) count => count.toNat = 0 ∨
      ∃ b ∈ st.live, b.size = none ∧ b.count = count.toNat ∧ pages = b.page * pageSize
  | .krealloc (some ptr) _ => ∃ b ∈ st.live, ∃ n, b.HeapAt ptr n
  | .kfree (some ptr) => ∃ b ∈ st.live, ∃ n, b.HeapAt ptr n
  | .store addr _ => ∃ b ∈ st.live, b.Room addr
  | _ => True

/-! ## The invariant -/

/-- The blocks are apart from one another, made of pages of `avail`, and the bitmap,
the counter and the headers agree with them. -/
structure Sound (off : Nat) (avail : Finset Nat) (highest : Nat) (st : State) : Prop where
  counted : Counted off st.heap.pmm
  highestAddr : st.heap.pmm.highestAddr = highest
  bound : ∀ p ∈ avail, p < highest / pageSize
  bits : ∀ p, p < highest / pageSize →
    (st.heap.pmm.bitmap p = false ↔ p ∈ avail ∧ ∀ b ∈ st.live, p ∉ b.pages)
  inside : ∀ b ∈ st.live, 0 < b.count ∧ b.pages ⊆ avail
  disjoint : st.live.Pairwise fun b c => Disjoint b.pages c.pages
  balance : (Bitmap.free st.heap.pmm.bitmap (highest / pageSize)).card +
    (st.live.map Block.count).sum = avail.card
  headers : ∀ b ∈ st.live, ∀ n, b.size = some n → n < wrap ∧ b.count = heapGetBlockCount n ∧
    Endian.load (Buf.read st.heap.mem (b.page * pageSize) 8) = n

variable {off : Nat} {avail : Finset Nat} {highest : Nat} {st : State}

theorem Block.mem_pages {b : Block} {p : Nat} : p ∈ b.pages ↔ b.page ≤ p ∧ p < b.page + b.count := by
  simp [Block.pages]

theorem Sound.totalPages (h : Sound off avail highest st) :
    st.heap.pmm.totalPages = highest / pageSize := by
  rw [Pmm.totalPages, h.highestAddr]

theorem Sound.taken (h : Sound off avail highest st) {b : Block} (hb : b ∈ st.live) :
    ∀ p, b.page ≤ p → p < b.page + b.count →
      p < st.heap.pmm.totalPages ∧ st.heap.pmm.bitmap p = true := by
  intro p h1 h2
  have hp : p ∈ b.pages := Block.mem_pages.mpr ⟨h1, h2⟩
  have hlt := h.bound p ((h.inside b hb).2 hp)
  refine ⟨by rw [h.totalPages]; exact hlt, ?_⟩
  rw [← Bool.not_eq_false, h.bits p hlt]
  intro hfree
  exact hfree.2 b hb hp

theorem Sound.eq_of_common (h : Sound off avail highest st) {b c : Block} (hb : b ∈ st.live)
    (hc : c ∈ st.live) {p : Nat} (hpb : p ∈ b.pages) (hpc : p ∈ c.pages) : b = c := by
  by_contra hne
  have hdisj := h.disjoint.forall hb hc hne
  exact Finset.disjoint_left.mp hdisj hpb hpc

theorem Sound.eq_of_page (h : Sound off avail highest st) {b c : Block} (hb : b ∈ st.live)
    (hc : c ∈ st.live) (hpage : b.page = c.page) : b = c := by
  have h1 := (h.inside b hb).1
  have h2 := (h.inside c hc).1
  refine h.eq_of_common hb hc (p := b.page) ?_ ?_
  · exact Block.mem_pages.mpr ⟨Nat.le_refl _, by omega⟩
  · exact Block.mem_pages.mpr ⟨by omega, by omega⟩

theorem Sound.setMem (h : Sound off avail highest st) {mem : Nat → UInt8}
    (hheaders : ∀ b ∈ st.live, ∀ n, b.size = some n →
      Buf.read mem (b.page * pageSize) 8 = Buf.read st.heap.mem (b.page * pageSize) 8) :
    Sound off avail highest { st with heap := { st.heap with mem := mem } } := by
  refine ⟨h.counted, h.highestAddr, h.bound, h.bits, h.inside, h.disjoint, h.balance, ?_⟩
  intro b hb n hn
  obtain ⟨h1, h2, h3⟩ := h.headers b hb n hn
  refine ⟨h1, h2, ?_⟩
  rw [hheaders b hb n hn]
  exact h3

/-- A run of free pages becomes a block.  Memory may change in its pages only. -/
theorem Sound.add (h : Sound off avail highest st) {m' : Pmm} {mem' : Nat → UInt8} {start n : Nat}
    {size : Option Nat} (ht : Took st.heap.pmm m' start n) (hpos : 0 < n)
    (hfree : ∀ p, start ≤ p → p < start + n →
      p < st.heap.pmm.totalPages ∧ st.heap.pmm.bitmap p = false)
    (hmem : ∀ a, a / pageSize < start ∨ start + n ≤ a / pageSize → mem' a = st.heap.mem a)
    (hsize : ∀ k, size = some k → k < wrap ∧ n = heapGetBlockCount k ∧
      Endian.load (Buf.read mem' (start * pageSize) 8) = k) :
    Sound off avail highest ⟨⟨m', mem'⟩, ⟨start, n, size⟩ :: st.live⟩ := by
  have hnew : ∀ p, p ∈ (⟨start, n, size⟩ : Block).pages →
      p ∈ avail ∧ ∀ b ∈ st.live, p ∉ b.pages := by
    intro p hp
    rw [Block.mem_pages] at hp
    obtain ⟨hlt, hbit⟩ := hfree p hp.1 hp.2
    rw [h.totalPages] at hlt
    exact (h.bits p hlt).mp hbit
  constructor
  · exact ht.counted h.counted hfree
  · exact ht.highestAddr.trans h.highestAddr
  · exact h.bound
  · intro p hp
    rw [ht.bitmap, Bitmap.fill]
    by_cases hr : start ≤ p ∧ p < start + n
    · rw [if_pos hr]
      simp only [Bool.true_eq_false, List.forall_mem_cons, false_iff, not_and]
      intro _ hnot
      exact absurd (Block.mem_pages.mpr hr) hnot
    · rw [if_neg hr, h.bits p hp]
      have hnot : p ∉ (⟨start, n, size⟩ : Block).pages := fun hm => hr (Block.mem_pages.mp hm)
      simp [hnot]
  · intro b hb
    rcases List.mem_cons.mp hb with rfl | hb
    · exact ⟨hpos, fun p hp => (hnew p hp).1⟩
    · exact h.inside b hb
  · refine List.pairwise_cons.mpr ⟨?_, h.disjoint⟩
    intro b hb
    rw [Finset.disjoint_left]
    intro p hp
    exact (hnew p hp).2 b hb
  · have hbal := h.balance
    have hcard := Bitmap.card_free_take hfree
    rw [h.totalPages] at hcard
    rw [ht.bitmap]
    simp only [List.map_cons, List.sum_cons]
    omega
  · intro b hb k hk
    rcases List.mem_cons.mp hb with rfl | hb
    · exact hsize k hk
    · obtain ⟨h1, h2, h3⟩ := h.headers b hb k hk
      refine ⟨h1, h2, ?_⟩
      have hsame : Buf.read mem' (b.page * pageSize) 8 =
          Buf.read st.heap.mem (b.page * pageSize) 8 := by
        apply Buf.read_congr
        intro i hi
        apply hmem
        -- the header lies in the first page of its block, which is not a new page
        have hdiv : (b.page * pageSize + i) / pageSize = b.page := by
          simp only [pageSize]
          omega
        by_contra hcon
        have hpos := (h.inside b hb).1
        have hin : b.page ∈ (⟨start, n, size⟩ : Block).pages :=
          Block.mem_pages.mpr ⟨show start ≤ b.page by omega, show b.page < start + n by omega⟩
        exact (hnew b.page hin).2 b hb (Block.mem_pages.mpr ⟨Nat.le_refl _, by omega⟩)
      rw [hsame]
      exact h3

theorem Sound.nodup (h : Sound off avail highest st) : st.live.Nodup := by
  refine h.disjoint.imp_of_mem ?_
  intro c d hc hd hdisj heq
  subst heq
  have hpos := (h.inside c hc).1
  have hself : c.page ∈ c.pages := Block.mem_pages.mpr ⟨Nat.le_refl _, by omega⟩
  exact Finset.disjoint_left.mp hdisj hself hself

theorem Sound.remove (h : Sound off avail highest st) {b : Block} (hb : b ∈ st.live) {m' : Pmm}
    (hg : Gave st.heap.pmm m' b.page b.count) :
    Sound off avail highest ⟨{ st.heap with pmm := m' }, st.live.erase b⟩ := by
  have hmem : ∀ c, c ∈ st.live.erase b ↔ c ≠ b ∧ c ∈ st.live := fun c => h.nodup.mem_erase_iff
  constructor
  · exact hg.counted h.counted (h.taken hb)
  · exact hg.highestAddr.trans h.highestAddr
  · exact h.bound
  · intro p hp
    rw [hg.bitmap, Bitmap.fill]
    by_cases hr : b.page ≤ p ∧ p < b.page + b.count
    · rw [if_pos hr]
      have hpb : p ∈ b.pages := Block.mem_pages.mpr hr
      refine iff_of_true rfl ⟨(h.inside b hb).2 hpb, ?_⟩
      intro c hc hpc
      obtain ⟨hne, hc⟩ := (hmem c).mp hc
      exact hne (h.eq_of_common hc hb hpc hpb)
    · rw [if_neg hr, h.bits p hp]
      constructor
      · intro hold
        exact ⟨hold.1, fun c hc => hold.2 c ((hmem c).mp hc).2⟩
      · intro hold
        refine ⟨hold.1, fun c hc => ?_⟩
        by_cases hcb : c = b
        · subst hcb
          exact fun hm => hr (Block.mem_pages.mp hm)
        · exact hold.2 c ((hmem c).mpr ⟨hcb, hc⟩)
  · intro c hc
    exact h.inside c ((hmem c).mp hc).2
  · exact h.disjoint.sublist List.erase_sublist
  · show (Bitmap.free m'.bitmap (highest / pageSize)).card +
      ((st.live.erase b).map Block.count).sum = avail.card
    have hsum := List.sum_map_erase Block.count hb
    have hbal := h.balance
    have hcard := Bitmap.card_free_give (h.taken hb)
    rw [h.totalPages] at hcard
    rw [hg.bitmap]
    omega
  · intro c hc
    exact h.headers c ((hmem c).mp hc).2

theorem Sound.drop_eq (h : Sound off avail highest st) {b : Block} (hb : b ∈ st.live) {a : Nat}
    (ha : a / pageSize = b.page) : st.drop a = st.live.erase b := by
  rw [State.drop, List.erase_eq_eraseP, ha]
  have hall : ∀ l : List Block, (∀ c ∈ l, c ∈ st.live) →
      l.eraseP (fun c => c.page == b.page) = l.eraseP (fun c => b == c) := by
    intro l
    induction l with
    | nil => exact fun _ => rfl
    | cons c l ih =>
      intro hl
      have hc := hl c List.mem_cons_self
      by_cases hcb : c = b
      · subst hcb
        simp
      · have hpage : c.page ≠ b.page := fun hp => hcb (h.eq_of_page hc hb hp)
        rw [List.eraseP_cons_of_neg (by simpa using hpage),
          List.eraseP_cons_of_neg (by simpa using Ne.symm hcb),
          ih fun d hd => hl d (List.mem_cons_of_mem _ hd)]
  exact hall st.live fun c hc => hc

end Mem
