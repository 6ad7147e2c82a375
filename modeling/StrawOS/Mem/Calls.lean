import StrawOS.Mem.Blocks

/-!
# Every call keeps the blocks sound

The heap on top of the pages: a block has room for its header and for what was asked
for, the header is what `kfree` reads back, and `krealloc` copies between two blocks
that are both live at that moment.
-/

namespace Mem

variable {off : Nat} {avail : Finset Nat} {highest : Nat} {st : State}

/-- A block has room for its header and the size, unless it has no pages at all: that is
how sizes near 2^64 end, where the rounding wraps. -/
theorem heapGetBlockCount_room {n : Nat} (hpos : 0 < heapGetBlockCount n) :
    n + headerSize ≤ heapGetBlockCount n * pageSize := by
  rw [heapGetBlockCount] at hpos ⊢
  split at hpos
  · simp at hpos
  rename_i hle
  rw [if_neg hle]
  simp only [wrap, headerSize, pageSize] at hpos hle ⊢
  omega

theorem Sound.room_page (h : Sound off avail highest st) {b : Block} (hb : b ∈ st.live) {a : Nat}
    (ha : b.Room a) : a / pageSize ∈ b.pages := by
  rw [Block.mem_pages]
  cases hs : b.size with
  | none =>
    rw [Block.Room, hs] at ha
    simp only [pageSize] at ha ⊢
    omega
  | some n =>
    obtain ⟨-, hcount, -⟩ := h.headers b hb n hs
    have hroom := heapGetBlockCount_room (n := n) (by rw [← hcount]; exact (h.inside b hb).1)
    rw [Block.Room, hs] at ha
    simp only [pageSize, headerSize] at ha hroom ⊢
    omega

theorem Sound.writeRoom (h : Sound off avail highest st) {b : Block} (hb : b ∈ st.live)
    {mem : Nat → UInt8} (hmem : ∀ a, mem a ≠ st.heap.mem a → b.Room a) :
    Sound off avail highest { st with heap := { st.heap with mem := mem } } := by
  refine h.setMem ?_
  intro c hc k hk
  apply Buf.read_congr
  intro i hi
  by_contra hne
  have hroom := hmem _ hne
  have hdiv : (c.page * pageSize + i) / pageSize = c.page := by
    simp only [pageSize]
    omega
  have hpage := h.room_page hb hroom
  rw [hdiv] at hpage
  have hself : c.page ∈ c.pages :=
    Block.mem_pages.mpr ⟨Nat.le_refl _, by have := (h.inside c hc).1; omega⟩
  obtain rfl := h.eq_of_common hb hc hpage hself
  -- the block is the client's own: it cannot reach the header in front of its bytes
  rw [Block.Room, hk] at hroom
  simp only [headerSize] at hroom
  omega

theorem Sound.writeBytes (h : Sound off avail highest st) {start count n : Nat}
    (hb : (⟨start, count, some n⟩ : Block) ∈ st.live) {bytes : List UInt8} (hlen : bytes.length ≤ n) :
    Sound off avail highest
      { st with
        heap := { st.heap with mem := Buf.write st.heap.mem (start * pageSize + headerSize) bytes } } := by
  refine h.writeRoom hb ?_
  intro a hne
  show start * pageSize + headerSize ≤ a ∧ a < start * pageSize + headerSize + n
  by_contra hcon
  rcases Nat.lt_or_ge a (start * pageSize + headerSize) with hlt | hge
  · exact hne (Buf.write_of_lt hlt)
  · refine hne (Buf.write_of_ge ?_)
    omega

/-- What `kmalloc` does. -/
theorem Sound.kmalloc (h : Sound off avail highest st) {n p : Nat} {h' : Heap} (hn : n < wrap)
    (hk : st.heap.kmalloc n = (some p, h')) :
    ∃ start, p = start * pageSize + headerSize ∧
      n + headerSize ≤ heapGetBlockCount n * pageSize ∧
      Sound off avail highest ⟨h', ⟨start, heapGetBlockCount n, some n⟩ :: st.live⟩ ∧
      ∀ b ∈ st.live, ∀ a, a / pageSize ∈ b.pages → h'.mem a = st.heap.mem a := by
  rw [Heap.kmalloc] at hk
  split at hk
  · simp at hk
  rename_i a m' halloc
  obtain ⟨rfl, rfl⟩ : a + headerSize = p ∧
      (⟨m', Buf.write st.heap.mem a (Endian.store64 n)⟩ : Heap) = h' := by simpa using hk
  obtain ⟨start, rfl, hpos, htook, hfree⟩ := pmmAllocPages_spec h.counted halloc
  have hlen : (Endian.store64 n).length = 8 := by simp [Endian.store64]
  have hout : ∀ a, a / pageSize < start ∨ start + heapGetBlockCount n ≤ a / pageSize →
      Buf.write st.heap.mem (start * pageSize) (Endian.store64 n) a = st.heap.mem a := by
    intro a ha
    by_cases hlt : a < start * pageSize
    · exact Buf.write_of_lt hlt
    · apply Buf.write_of_ge
      simp only [pageSize] at ha hlt ⊢
      omega
  refine ⟨start, rfl, heapGetBlockCount_room hpos, ?_, ?_⟩
  · refine h.add htook hpos hfree hout ?_
    intro k hk
    obtain rfl := Option.some.inj hk
    refine ⟨hn, rfl, ?_⟩
    have hself := Buf.read_write_self st.heap.mem (start * pageSize) (Endian.store64 n)
    rw [hlen] at hself
    rw [hself, Endian.load_store64 hn]
  · intro b hb a ha
    apply hout
    by_contra hcon
    obtain ⟨hlt, hbit⟩ := hfree (a / pageSize) (by omega) (by omega)
    rw [Block.mem_pages] at ha
    rw [(h.taken hb _ ha.1 ha.2).2] at hbit
    simp at hbit

/-- What `kfree` reads back. -/
theorem Sound.blockSize (h : Sound off avail highest st) {b : Block} (hb : b ∈ st.live) {ptr n : Nat}
    (hptr : b.HeapAt ptr n) : st.heap.blockSize ptr = n := by
  obtain ⟨hsize, rfl⟩ := hptr
  rw [Heap.blockSize, Nat.add_sub_cancel]
  exact (h.headers b hb n hsize).2.2

/-- What `kfree` does. -/
theorem Sound.kfree (h : Sound off avail highest st) {b : Block} (hb : b ∈ st.live) {ptr n : Nat}
    (hptr : b.HeapAt ptr n) : Sound off avail highest ⟨st.heap.kfree (some ptr), st.drop ptr⟩ := by
  have hdiv : ptr / pageSize = b.page := by
    rw [hptr.2]
    simp only [pageSize, headerSize]
    omega
  have hcount := (h.headers b hb n hptr.1).2.1
  have hgave := pmmFreePages_spec h.counted (h.inside b hb).1 (h.taken hb)
  rw [h.drop_eq hb hdiv, Heap.kfree, h.blockSize hb hptr, ← hcount]
  have hback : ptr - headerSize = b.page * pageSize := by rw [hptr.2, Nat.add_sub_cancel]
  rw [hback]
  exact h.remove hb hgave

/-! ## The calls as steps -/

theorem kmalloc_none {h h' : Heap} {n : Nat} (hk : h.kmalloc n = (none, h')) : h' = h := by
  rw [Heap.kmalloc] at hk
  split at hk
  · exact (congrArg Prod.snd hk).symm
  · simp at hk

theorem Sound.stepKmalloc (h : Sound off avail highest st) {n : Nat} (hn : n < wrap) :
    Sound off avail highest
      (st.giveOut (st.heap.kmalloc n) (heapGetBlockCount n) (some n)).1 := by
  cases hk : st.heap.kmalloc n with
  | mk r h' =>
    cases r with
    | none =>
      rw [kmalloc_none hk]
      exact h
    | some p =>
      obtain ⟨start, rfl, -, hs, -⟩ := h.kmalloc hn hk
      have hdiv : (start * pageSize + headerSize) / pageSize = start := by
        simp only [pageSize, headerSize]
        omega
      rw [State.giveOut, hdiv]
      exact hs

theorem Sound.stepKcalloc (h : Sound off avail highest st) (nmemb size : Nat) :
    Sound off avail highest (st.giveOut (st.heap.kcalloc nmemb size)
      (heapGetBlockCount (nmemb * size % wrap)) (some (nmemb * size % wrap))).1 := by
  have hn : nmemb * size % wrap < wrap := Nat.mod_lt _ (by decide)
  rw [Heap.kcalloc]
  split
  · exact h
  dsimp only
  generalize hfinal : nmemb * size % wrap = n at hn ⊢
  cases hk : st.heap.kmalloc n with
  | mk r h' =>
    cases r with
    | none =>
      rw [kmalloc_none hk]
      exact h
    | some p =>
      obtain ⟨start, rfl, hroom, hs, -⟩ := h.kmalloc hn hk
      have hdiv : (start * pageSize + headerSize) / pageSize = start := by
        simp only [pageSize, headerSize]
        omega
      dsimp only [State.giveOut]
      rw [hdiv]
      exact hs.writeBytes List.mem_cons_self (Nat.le_of_eq List.length_replicate)

/-- What `krealloc` does to a live block that it can replace. -/
theorem Sound.krealloc (h : Sound off avail highest st) {b : Block} (hb : b ∈ st.live) {ptr k n q : Nat}
    (hptr : b.HeapAt ptr k) (hn : n < wrap) {h' : Heap}
    (hk : st.heap.krealloc (some ptr) n = (some q, h')) :
    (∃ start, q = start * pageSize + headerSize) ∧
    Sound off avail highest
      ⟨h', ⟨q / pageSize, heapGetBlockCount n, some n⟩ :: st.drop ptr⟩ ∧
    Buf.read h'.mem q (min k n) = Buf.read st.heap.mem ptr (min k n) := by
  rw [Heap.krealloc] at hk
  split at hk
  · simp at hk
  split at hk
  · simp at hk
  rename_i p h₁ halloc
  obtain ⟨start, rfl, hroom, hs, hsame⟩ := h.kmalloc hn halloc
  -- both blocks are live while the bytes are copied
  have hb₁ : b ∈ (⟨start, heapGetBlockCount n, some n⟩ : Block) :: st.live :=
    List.mem_cons_of_mem _ hb
  have hsize : h₁.blockSize ptr = k := hs.blockSize hb₁ hptr
  rw [hsize] at hk
  have hmin : (if k < n then k else n) = min k n := by
    split <;> omega
  rw [hmin] at hk
  have hdiv : (start * pageSize + headerSize) / pageSize = start := by
    simp only [pageSize, headerSize]
    omega
  have hlen : (Buf.read h₁.mem ptr (min k n)).length ≤ n := by
    rw [Buf.length_read]
    exact Nat.min_le_right _ _
  have hcopied := hs.writeBytes List.mem_cons_self hlen
  obtain ⟨hq, rfl⟩ := Prod.mk.inj hk
  obtain rfl := Option.some.inj hq
  have hfreed := hcopied.kfree hb₁ hptr
  have hptrdiv : ptr / pageSize = b.page := by
    rw [hptr.2]
    simp only [pageSize, headerSize]
    omega
  have hne : b ≠ ⟨start, heapGetBlockCount n, some n⟩ := by
    intro heq
    have hpair := (List.pairwise_cons.mp hs.disjoint).1 b hb
    have hpos := (h.inside b hb).1
    have hself : b.page ∈ b.pages := Block.mem_pages.mpr ⟨Nat.le_refl _, by omega⟩
    rw [← heq] at hpair
    exact Finset.disjoint_left.mp hpair hself hself
  have hdrop := hcopied.drop_eq hb₁ hptrdiv
  rw [List.erase_cons_tail (by simpa using Ne.symm hne), ← h.drop_eq hb hptrdiv] at hdrop
  rw [hdrop] at hfreed
  refine ⟨⟨start, rfl⟩, by rw [hdiv]; exact hfreed, ?_⟩
  show Buf.read (Buf.write h₁.mem (start * pageSize + headerSize)
    (Buf.read h₁.mem ptr (min k n))) (start * pageSize + headerSize) (min k n) = _
  have hself := Buf.read_write_self h₁.mem (start * pageSize + headerSize)
    (Buf.read h₁.mem ptr (min k n))
  rw [Buf.length_read] at hself
  rw [hself]
  apply Buf.read_congr
  intro i hi
  apply hsame b hb
  apply h.room_page hb
  rw [Block.Room, hptr.1, hptr.2]
  omega

theorem krealloc_none {h h' : Heap} {ptr n : Nat} (hn : n ≠ 0)
    (hk : h.krealloc (some ptr) n = (none, h')) : h' = h := by
  rw [Heap.krealloc] at hk
  rw [if_neg hn] at hk
  split at hk
  · rename_i h₁ halloc
    obtain rfl : h₁ = h' := by simpa using hk
    exact kmalloc_none halloc
  · simp at hk

theorem Sound.freePages (h : Sound off avail highest st) {b : Block} (hb : b ∈ st.live) {m' : Pmm}
    (hg : Gave st.heap.pmm m' b.page b.count) :
    Sound off avail highest ⟨{ st.heap with pmm := m' }, st.drop (b.page * pageSize)⟩ := by
  have hdiv : b.page * pageSize / pageSize = b.page := Nat.mul_div_cancel _ (by decide)
  rw [h.drop_eq hb hdiv]
  exact h.remove hb hg

theorem Sound.takePages (h : Sound off avail highest st) {m' : Pmm} {start n : Nat}
    (ht : Took st.heap.pmm m' start n) (hpos : 0 < n)
    (hfree : ∀ p, start ≤ p → p < start + n →
      p < st.heap.pmm.totalPages ∧ st.heap.pmm.bitmap p = false) :
    Sound off avail highest
      (st.giveOut (some (start * pageSize), { st.heap with pmm := m' }) n none).1 := by
  have hdiv : start * pageSize / pageSize = start := Nat.mul_div_cancel _ (by decide)
  rw [State.giveOut, hdiv]
  exact h.add ht hpos hfree (fun _ _ => rfl) (by simp)

/-- **Step lemma.** -/
theorem Sound.step (h : Sound off avail highest st) {op : Op} (hop : permitted st op) :
    Sound off avail highest (step st op).1 := by
  cases op with
  | pmmAllocPage =>
    show Sound off avail highest (st.giveOut (st.heap.pmm.pmmAllocPage.1,
      { st.heap with pmm := st.heap.pmm.pmmAllocPage.2 }) 1 none).1
    cases hr : st.heap.pmm.pmmAllocPage with
    | mk r m' =>
      cases r with
      | none =>
        have hsame : m' = st.heap.pmm := by
          rw [Pmm.pmmAllocPage] at hr
          split at hr
          · exact (congrArg Prod.snd hr).symm
          · simp at hr
        rw [hsame]
        exact h
      | some a =>
        obtain ⟨start, rfl, ht, hfree⟩ := pmmAllocPage_spec h.counted hr
        exact h.takePages ht (by omega) hfree
  | pmmAllocPages count =>
    show Sound off avail highest (st.giveOut ((st.heap.pmm.pmmAllocPages count.toNat).1,
      { st.heap with pmm := (st.heap.pmm.pmmAllocPages count.toNat).2 }) count.toNat none).1
    cases hr : st.heap.pmm.pmmAllocPages count.toNat with
    | mk r m' =>
      cases r with
      | none =>
        have hsame : m' = st.heap.pmm := by
          rw [Pmm.pmmAllocPages] at hr
          split at hr
          · exact (congrArg Prod.snd hr).symm
          · simp at hr
        rw [hsame]
        exact h
      | some a =>
        obtain ⟨start, rfl, hpos, ht, hfree⟩ := pmmAllocPages_spec h.counted hr
        exact h.takePages ht hpos hfree
  | pmmFreePage page =>
    obtain ⟨b, hb, -, hone, rfl⟩ := hop
    obtain ⟨hlt, hbit⟩ := h.taken hb b.page (Nat.le_refl _) (by omega)
    refine h.freePages hb ?_
    rw [hone]
    exact pmmFreePage_spec h.counted hlt hbit
  | pmmFreePages pages count =>
    cases pages with
    | none => exact h
    | some a =>
      by_cases hzero : count.toNat = 0
      · simp only [Mem.step, Pmm.pmmFreePages, hzero, if_true]
        exact h
      · obtain ⟨b, hb, -, hcount, rfl⟩ := hop.resolve_left hzero
        simp only [Mem.step, hzero, if_false]
        refine h.freePages hb ?_
        rw [← hcount]
        exact pmmFreePages_spec h.counted (h.inside b hb).1 (h.taken hb)
  | kmalloc size => exact h.stepKmalloc size.toNat_lt
  | kcalloc nmemb size => exact h.stepKcalloc nmemb.toNat size.toNat
  | krealloc ptr newSize =>
    cases ptr with
    | none => exact h.stepKmalloc newSize.toNat_lt
    | some ptr =>
      obtain ⟨b, hb, k, hptr⟩ := hop
      by_cases hzero : newSize.toNat = 0
      · simp only [Mem.step, hzero, if_true, Heap.krealloc]
        exact h.kfree hb hptr
      · simp only [Mem.step, hzero, if_false]
        cases hr : st.heap.krealloc (some ptr) newSize.toNat with
        | mk r h' =>
          cases r with
          | none =>
            rw [krealloc_none hzero hr]
            exact h
          | some q => exact (h.krealloc hb hptr newSize.toNat_lt hr).2.1
  | kfree ptr =>
    cases ptr with
    | none => exact h
    | some ptr =>
      obtain ⟨b, hb, k, hptr⟩ := hop
      exact h.kfree hb hptr
  | store addr byte =>
    obtain ⟨b, hb, hroom⟩ := hop
    refine h.writeRoom hb ?_
    intro a hne
    by_cases ha : a = addr
    · rw [ha]
      exact hroom
    · exact absurd (Function.update_of_ne ha _ _) hne

end Mem
