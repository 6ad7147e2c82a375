import StrawOS.Mem.Init

/-!
# The contract of the kernel allocators

From `pmm_init` on, along every run whose frees are of live blocks: what the
allocators promise their clients, and exactly when they keep it.
-/

namespace Mem

variable {boot : BootInfo} {m : Pmm} {st : State}

/-- The machine after `pmm_init`: no blocks yet, and memory as it happens to be. -/
def machine (boot : BootInfo) : Machine State Op (Option Nat) where
  start st := pmmInit boot = some st.heap.pmm ∧ st.live = []
  step := step

/-- A byte of a block. -/
def Block.HasByte (b : Block) (a : Nat) : Prop :=
  b.page * pageSize ≤ a ∧ a < (b.page + b.count) * pageSize

theorem Block.hasByte_iff {b : Block} {a : Nat} : b.HasByte a ↔ a / pageSize ∈ b.pages := by
  rw [Block.mem_pages, Block.HasByte]
  simp only [pageSize]
  omega

/-- What the allocators promise. -/
structure Contract (boot : BootInfo) (initial : Pmm) (st : State) : Prop where
  disjoint : st.live.Pairwise fun b c => ∀ a, b.HasByte a → ¬c.HasByte a
  usable : ∀ b ∈ st.live, ∀ a, b.HasByte a →
    ∃ e ∈ boot.usable, e.base ≤ a ∧ a < e.base + e.length
  offBitmap : ∀ b ∈ st.live, ∀ a, b.HasByte a →
    ¬(boot.bitmapPhys ≤ a ∧ a < boot.bitmapPhys + boot.bitmapSize)
  offKernel : ∀ b ∈ st.live, ∀ a, b.HasByte a → ¬(boot.kstart ≤ a ∧ a < boot.kend)
  kmalloc : ∀ (n : UInt64) (p : Nat), (st.heap.kmalloc n.toNat).1 = some p →
    ∃ b ∈ (step st (.kmalloc n)).1.live, ∀ i < n.toNat, b.HasByte (p + i)
  krealloc : ∀ b ∈ st.live, ∀ (ptr old : Nat) (n : UInt64) (q : Nat), b.HeapAt ptr old →
    (st.heap.krealloc (some ptr) n.toNat).1 = some q →
    Buf.read (st.heap.krealloc (some ptr) n.toNat).2.mem q (min old n.toNat) =
      Buf.read st.heap.mem ptr (min old n.toNat)
  clear : st.heap.pmm.freePages = (Bitmap.free st.heap.pmm.bitmap boot.totalPages).card
  balance : st.heap.pmm.freePages + (st.live.map Block.count).sum =
    (Bitmap.free initial.bitmap boot.totalPages).card

theorem Sound.contract (hv : boot.Valid) (hinit : pmmInit boot = some m)
    (h : Sound 0 (Bitmap.free m.bitmap boot.totalPages) boot.highestAddr st) :
    Contract boot m st := by
  obtain ⟨htotal, hfree⟩ := pmmInit_free hv hinit
  rw [htotal] at hfree
  have hbyte : ∀ b ∈ st.live, ∀ a, b.HasByte a → a / pageSize ∈
      Bitmap.free m.bitmap boot.totalPages := fun b hb a ha =>
    (h.inside b hb).2 (Block.hasByte_iff.mp ha)
  constructor
  · refine h.disjoint.imp ?_
    intro b c hdisj a hb hc
    exact Finset.disjoint_left.mp hdisj (Block.hasByte_iff.mp hb) (Block.hasByte_iff.mp hc)
  · intro b hb a ha
    obtain ⟨⟨e, he, hpage⟩, -, -⟩ := hfree _ (hbyte b hb a ha)
    exact ⟨e, he, (hv.page_bytes he).mp hpage⟩
  · intro b hb a ha hin
    obtain ⟨-, hmap, -⟩ := hfree _ (hbyte b hb a ha)
    obtain ⟨e, he, hbase, -⟩ := hv.best_mem (pmmInit_eq hinit).1
    obtain ⟨⟨k, hk⟩, -⟩ := hv.aligned e he
    refine hmap ?_
    rw [BootInfo.bitmapStartPage, BootInfo.bitmapPages]
    simp only [pageSize] at hin hk ⊢
    omega
  · intro b hb a ha hin
    obtain ⟨-, -, hkernel⟩ := hfree _ (hbyte b hb a ha)
    refine hkernel ?_
    rw [BootInfo.kstartPage, BootInfo.kendPage]
    simp only [pageSize] at hin ⊢
    omega
  · intro n p hp
    cases hk : st.heap.kmalloc n.toNat with
    | mk r h' =>
      rw [hk] at hp
      obtain rfl : r = some p := hp
      obtain ⟨start, rfl, hroom, -, -⟩ := h.kmalloc n.toNat_lt hk
      have hdiv : (start * pageSize + headerSize) / pageSize = start := by
        simp only [pageSize, headerSize]
        omega
      refine ⟨⟨start, heapGetBlockCount n.toNat, some n.toNat⟩, ?_, ?_⟩
      · simp only [Mem.step, hk, State.giveOut, hdiv]
        exact List.mem_cons_self
      · simp only [Block.HasByte, pageSize, headerSize] at hroom ⊢
        omega
  · intro b hb ptr old n q hptr hq
    cases hk : st.heap.krealloc (some ptr) n.toNat with
    | mk r h' =>
      rw [hk] at hq
      obtain rfl : r = some q := hq
      exact (h.krealloc hb hptr n.toNat_lt hk).2.2
  · have heq := h.counted.exact
    rw [h.totalPages] at heq
    exact heq
  · rw [h.counted.exact, h.totalPages]
    exact h.balance

/-- The invariant holds after `pmm_init`. -/
theorem Sound.start (hv : boot.Valid) (hinit : pmmInit boot = some m) (hpmm : st.heap.pmm = m)
    (hlive : st.live = []) :
    Sound boot.stray.card (Bitmap.free m.bitmap boot.totalPages) boot.highestAddr st := by
  have hcounted := pmmInit_counted hv hinit
  have hhigh : m.highestAddr = boot.highestAddr := by
    obtain ⟨hphys, rfl⟩ := pmmInit_eq hinit
    obtain ⟨hc, hhigh, -⟩ := hv.reserved_spec hphys
    exact (mark_spec hc _ _).2.1.trans hhigh
  constructor
  · rw [hpmm]
    exact hcounted
  · rw [hpmm]
    exact hhigh
  · intro p hp
    exact (Bitmap.mem_free.mp hp).1
  · intro p hp
    rw [hpmm, hlive, Bitmap.mem_free]
    constructor
    · intro hbit
      exact ⟨⟨hp, hbit⟩, by simp⟩
    · intro hall
      exact hall.1.2
  · simp [hlive]
  · simp [hlive]
  · rw [hpmm, hlive]
    rfl
  · simp [hlive]

/-- **Run lemma.** -/
theorem sound_of_reachable (hv : boot.Valid) (hinit : pmmInit boot = some m)
    (h : (machine boot).Reachable permitted st) :
    Sound boot.stray.card (Bitmap.free m.bitmap boot.totalPages) boot.highestAddr st := by
  refine Machine.Reachable.invariant
    (P := Sound boot.stray.card (Bitmap.free m.bitmap boot.totalPages) boot.highestAddr) ?_ ?_ h
  · intro s hs
    obtain ⟨hpmm, hlive⟩ := hs
    rw [hinit] at hpmm
    exact Sound.start hv hinit (Option.some.inj hpmm).symm hlive
  · intro s op hs hop
    exact hs.step hop

/-- **The contract of the allocators.**  On a valid memory map it holds in every state
of every run exactly if `pmm_init` finds no clear bit for a page of the kernel beyond
the bitmap. -/
theorem contract_iff_kernel_marked (hv : boot.Valid) (hinit : pmmInit boot = some m) :
    (∀ st, (machine boot).Reachable permitted st → Contract boot m st) ↔ boot.KernelMarked := by
  constructor
  · intro hall
    have hreach : (machine boot).Reachable permitted ⟨⟨m, fun _ => 0⟩, []⟩ :=
      Machine.Reachable.start ⟨hinit, rfl⟩
    have hclear := (hall _ hreach).clear
    obtain ⟨htotal, -⟩ := pmmInit_free hv hinit
    refine (pmmInit_exact_iff hv hinit).mp ?_
    rw [htotal]
    exact hclear
  · intro hmark st hreach
    have hs := sound_of_reachable hv hinit hreach
    rw [BootInfo.kernelMarked_iff.mp hmark] at hs
    exact hs.contract hv hinit

/-! ## Two memory maps -/

/-- Sixteen usable pages from the second on, and a kernel of one page. -/
def smallBoot (kernelPage : Nat) : BootInfo where
  entries := [⟨4096, 65536, true⟩]
  kstart := kernelPage * 4096
  kend := kernelPage * 4096 + 4096
  ram _ := false

theorem smallBoot_valid {kernelPage : Nat} (h : kernelPage < 1000) :
    (smallBoot kernelPage).Valid where
  aligned e he := by
    obtain rfl : e = ⟨4096, 65536, true⟩ := by simpa [BootInfo.usable, smallBoot] using he
    exact ⟨⟨1, rfl⟩, ⟨16, rfl⟩⟩
  inRange e he := by
    obtain rfl : e = ⟨4096, 65536, true⟩ := by simpa [BootInfo.usable, smallBoot] using he
    decide
  disjoint := List.pairwise_singleton _ _
  holdsBitmap := by
    simp [BootInfo.bitmapSize, BootInfo.totalPages, BootInfo.highestAddr, BootInfo.best,
      BootInfo.usable, smallBoot, pageSize]
  kernel := by
    simp only [smallBoot, pageSize, wrap]
    omega

/-- The pages left by `pmm_init`. -/
def smallPmm (kernelPage : Nat) : Pmm :=
  (smallBoot kernelPage).reserved.sweep Pmm.markPage (smallBoot kernelPage).kstartPage
    ((smallBoot kernelPage).kendPage - (smallBoot kernelPage).kstartPage)

theorem smallBoot_init (kernelPage : Nat) :
    pmmInit (smallBoot kernelPage) = some (smallPmm kernelPage) := rfl

/-- With the kernel in the usable entry the contract holds. -/
theorem smallBoot_contract :
    (smallBoot 8).Valid ∧ pmmInit (smallBoot 8) = some (smallPmm 8) ∧
      ∀ st, (machine (smallBoot 8)).Reachable permitted st →
        Contract (smallBoot 8) (smallPmm 8) st := by
  refine ⟨smallBoot_valid (by decide), smallBoot_init 8, ?_⟩
  refine (contract_iff_kernel_marked (smallBoot_valid (by decide)) (smallBoot_init 8)).mpr ?_
  intro p h1 h2 h3
  have hsize : 8 * (smallBoot 8).bitmapSize = 24 := by decide
  have hend : (smallBoot 8).kendPage = 9 := by decide
  omega

/-- With the kernel above all usable memory a page is counted that is not there. -/
theorem kernel_above_usable_memory_miscounts :
    (smallBoot 40).Valid ∧ pmmInit (smallBoot 40) = some (smallPmm 40) ∧
      (smallPmm 40).freePages = 14 ∧
      (Bitmap.free (smallPmm 40).bitmap (smallBoot 40).totalPages).card = 15 ∧
      (machine (smallBoot 40)).Reachable permitted ⟨⟨smallPmm 40, fun _ => 0⟩, []⟩ ∧
      ¬Contract (smallBoot 40) (smallPmm 40) ⟨⟨smallPmm 40, fun _ => 0⟩, []⟩ := by
  have hfree : (smallPmm 40).freePages = 14 := by decide +kernel
  have hclear : (Bitmap.free (smallPmm 40).bitmap (smallBoot 40).totalPages).card = 15 := by
    decide +kernel
  refine ⟨smallBoot_valid (by decide), smallBoot_init 40, hfree, hclear,
    Machine.Reachable.start ⟨smallBoot_init 40, rfl⟩, ?_⟩
  intro hcontract
  have heq := hcontract.clear
  rw [hfree] at heq
  rw [hclear] at heq
  simp at heq

end Mem
