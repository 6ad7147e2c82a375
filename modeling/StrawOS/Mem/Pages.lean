import StrawOS.Lib.Bitmap
import StrawOS.Lib.Buf
import StrawOS.Lib.Endian
import StrawOS.Lib.Machine

/-!
# Physical pages and the kernel heap

`pmm.c` and `heap.c`.  A page is a bit of the bitmap: set for taken, clear for
free.  The bitmap lies at the start of the largest usable region, and its tests are
not bounded: `bitmap` has all the bits from there on, those of the bitmap proper
and those of the memory behind it.

Addresses are physical; `phys_to_virt` is a shift.  Numbers of 64 bits are `UInt64`
as arguments and natural numbers, reduced where they wrap, inside.
-/

namespace Mem

def pageSize : Nat := 4096

/-- The numbers of 64 bits end here. -/
def wrap : Nat := 18446744073709551616

/-- `x++` on 64 bits. -/
def incr (x : Nat) : Nat := (x + 1) % wrap

/-- `x--` on 64 bits. -/
def decr (x : Nat) : Nat := (x + (wrap - 1)) % wrap

/-- The static variables of `pmm.c`. -/
structure Pmm where
  bitmap : Nat → Bool
  highestAddr : Nat
  freePages : Nat
  usablePages : Nat

namespace Pmm

variable (m : Pmm)

/-- `highest_addr / PAGE_SIZE`. -/
def totalPages : Nat := m.highestAddr / pageSize

/-- The loops over pages. -/
def sweep (f : Pmm → Nat → Pmm) (m : Pmm) (start n : Nat) : Pmm := (List.range' start n).foldl f m

/-- `bitmap_set (p); free_pages--`. -/
def takePage (m : Pmm) (p : Nat) : Pmm :=
  { m with bitmap := Function.update m.bitmap p true, freePages := decr m.freePages }

/-- `if (!bitmap_test (p)) { bitmap_set (p); free_pages--; }`. -/
def markPage (m : Pmm) (p : Nat) : Pmm := if m.bitmap p then m else m.takePage p

/-- `bitmap_clear (p); free_pages++; usable_pages++`. -/
def addPage (m : Pmm) (p : Nat) : Pmm :=
  { m with
    bitmap := Function.update m.bitmap p false
    freePages := incr m.freePages
    usablePages := incr m.usablePages }

/-- `if (bitmap_test (p)) { bitmap_clear (p); free_pages++; }`. -/
def releasePage (m : Pmm) (p : Nat) : Pmm :=
  if m.bitmap p then
    { m with bitmap := Function.update m.bitmap p false, freePages := incr m.freePages }
  else m

def pmmAllocPages (count : Nat) : Option Nat × Pmm :=
  match Bitmap.firstFit m.bitmap count m.totalPages with
  | none => (none, m)
  | some start => (some (start * pageSize), sweep takePage m start count)

/-- `pmm_alloc_page`: the first free page. -/
def pmmAllocPage : Option Nat × Pmm :=
  match (List.range m.totalPages).find? fun i => !m.bitmap i with
  | none => (none, m)
  | some i => (some (i * pageSize), m.takePage i)

def pmmFreePage (page : Nat) : Pmm := m.releasePage (page / pageSize)

/-- `pmm_free_pages`; `none` is the null pointer. -/
def pmmFreePages (pages : Option Nat) (count : Nat) : Pmm :=
  match pages with
  | none => m
  | some pages =>
      if count = 0 then m
      else
        let startPage := pages / pageSize
        if m.totalPages ≤ startPage ∨ m.totalPages - startPage < count then m
        else sweep releasePage m startPage count

end Pmm

/-! ## The heap -/

/-- `sizeof (HeapBlockHeader)`. -/
def headerSize : Nat := 16

def heapGetBlockCount (size : Nat) : Nat :=
  if wrap - 1 - headerSize < size then 0
  else (size + headerSize + pageSize - 1) % wrap / pageSize

/-- What the allocators work on: the pages and the memory. -/
structure Heap where
  pmm : Pmm
  mem : Nat → UInt8

namespace Heap

variable (h : Heap)

/-- The field `size` of the header of a block. -/
def blockSize (ptr : Nat) : Nat := Endian.load (Buf.read h.mem (ptr - headerSize) 8)

def kmalloc (size : Nat) : Option Nat × Heap :=
  match h.pmm.pmmAllocPages (heapGetBlockCount size) with
  | (none, _) => (none, h)
  | (some ptr, pmm) =>
      (some (ptr + headerSize), ⟨pmm, Buf.write h.mem ptr (Endian.store64 size)⟩)

def kcalloc (nmemb size : Nat) : Option Nat × Heap :=
  if size ≠ 0 ∧ (wrap - 1) / size < nmemb then (none, h)
  else
    let finalSize := nmemb * size % wrap
    match h.kmalloc finalSize with
    | (none, h) => (none, h)
    | (some ptr, h) => (some ptr, { h with mem := Buf.write h.mem ptr (List.replicate finalSize 0) })

def kfree (ptr : Option Nat) : Heap :=
  match ptr with
  | none => h
  | some ptr =>
      { h with
        pmm := h.pmm.pmmFreePages (some (ptr - headerSize)) (heapGetBlockCount (h.blockSize ptr)) }

def krealloc (ptr : Option Nat) (newSize : Nat) : Option Nat × Heap :=
  match ptr with
  | none => h.kmalloc newSize
  | some ptr =>
      if newSize = 0 then (none, h.kfree (some ptr))
      else
        match h.kmalloc newSize with
        | (none, h) => (none, h)
        | (some newPtr, h) =>
            let copySize := if h.blockSize ptr < newSize then h.blockSize ptr else newSize
            let h := { h with mem := Buf.write h.mem newPtr (Buf.read h.mem ptr copySize) }
            (some newPtr, h.kfree (some ptr))

end Heap

/-! ## Initialisation -/

/-- A usable or another entry of the memory map. -/
structure Entry where
  base : Nat
  length : Nat
  usable : Bool
  deriving DecidableEq

/-- What the boot loader hands over, and the bits of the memory behind the start of
the bitmap as they happen to be. -/
structure BootInfo where
  entries : List Entry
  kstart : Nat
  kend : Nat
  ram : Nat → Bool

namespace BootInfo

variable (boot : BootInfo)

/-- The usable entries. -/
def usable : List Entry := boot.entries.filter Entry.usable

def highestAddr : Nat := boot.usable.foldl (fun top e => max top (e.base + e.length)) 0

def totalPages : Nat := boot.highestAddr / pageSize

def bitmapSize : Nat := (boot.totalPages + 7) / 8

/-- The first of the largest usable entries: `bitmap_phys` and `best_len`. -/
def best : Nat × Nat :=
  boot.usable.foldl (fun best e => if best.2 < e.length then (e.base, e.length) else best) (0, 0)

def bitmapPhys : Nat := boot.best.1

def bitmapStartPage : Nat := boot.bitmapPhys / pageSize

def bitmapPages : Nat := (boot.bitmapSize + pageSize - 1) / pageSize

def kstartPage : Nat := boot.kstart / pageSize

def kendPage : Nat := (boot.kend + pageSize - 1) / pageSize

/-- After the `memset` of the bitmap. -/
def blank : Pmm where
  bitmap p := if p < 8 * boot.bitmapSize then true else boot.ram p
  highestAddr := boot.highestAddr
  freePages := 0
  usablePages := 0

/-- After the loop over the usable entries. -/
def opened : Pmm :=
  boot.usable.foldl (fun m e => m.sweep Pmm.addPage (e.base / pageSize) (e.length / pageSize))
    boot.blank

/-- After the pages of the bitmap were marked. -/
def reserved : Pmm := boot.opened.sweep Pmm.markPage boot.bitmapStartPage boot.bitmapPages

end BootInfo

/-- `pmm_init`; `none` is the panic. -/
def pmmInit (boot : BootInfo) : Option Pmm :=
  if boot.bitmapPhys = 0 then none
  else some (boot.reserved.sweep Pmm.markPage boot.kstartPage (boot.kendPage - boot.kstartPage))

end Mem

/-!
# What the loops over pages do

Each loop fills a range of the bitmap, and changes the counter by the number of
bits it turned.
-/

namespace Mem

namespace Pmm

variable {m : Pmm} {start n : Nat}

theorem sweep_zero (f : Pmm → Nat → Pmm) (m : Pmm) (start : Nat) : sweep f m start 0 = m := rfl

theorem sweep_succ (f : Pmm → Nat → Pmm) (m : Pmm) (start n : Nat) :
    sweep f m start (n + 1) = sweep f (f m start) (start + 1) n := by
  simp [sweep, List.range'_succ]

/-- The bits of a range that have a value. -/
def having (m : Pmm) (v : Bool) (start n : Nat) : Finset Nat :=
  (Finset.Ico start (start + n)).filter fun p => m.bitmap p = v

theorem having_zero (m : Pmm) (v : Bool) (start : Nat) : m.having v start 0 = ∅ := by
  simp [having]

theorem card_having_succ {m' : Pmm} {v : Bool}
    (hsame : ∀ p, start + 1 ≤ p → m'.bitmap p = m.bitmap p) :
    (m.having v start (n + 1)).card =
      (if m.bitmap start = v then 1 else 0) + (m'.having v (start + 1) n).card := by
  have hrest : m'.having v (start + 1) n = m.having v (start + 1) n := by
    ext p
    simp only [having, Finset.mem_filter, Finset.mem_Ico]
    constructor
    · intro hp
      exact ⟨hp.1, by rw [← hsame p hp.1.1]; exact hp.2⟩
    · intro hp
      exact ⟨hp.1, by rw [hsame p hp.1.1]; exact hp.2⟩
  have hIco : Finset.Ico start (start + (n + 1)) =
      insert start (Finset.Ico (start + 1) (start + 1 + n)) := by
    ext p
    simp only [Finset.mem_Ico, Finset.mem_insert]
    omega
  have hnot : start ∉ m.having v (start + 1) n := by
    simp [having]
  rw [hrest]
  by_cases hv : m.bitmap start = v
  · rw [if_pos hv]
    have hins : m.having v start (n + 1) = insert start (m.having v (start + 1) n) := by
      rw [having, hIco, Finset.filter_insert, if_pos hv]
      rfl
    rw [hins, Finset.card_insert_of_notMem hnot, Nat.add_comm]
  · rw [if_neg hv, Nat.zero_add]
    have hins : m.having v start (n + 1) = m.having v (start + 1) n := by
      rw [having, hIco, Finset.filter_insert, if_neg hv]
      rfl
    rw [hins]

/-- Marking pages: the counter falls by the number of pages that were free. -/
theorem sweep_mark (m : Pmm) (start n : Nat) (hlt : m.freePages < wrap) :
    (sweep markPage m start n).bitmap = Bitmap.fill m.bitmap true start n ∧
      (sweep markPage m start n).highestAddr = m.highestAddr ∧
      (sweep markPage m start n).freePages < wrap ∧
      ((sweep markPage m start n).freePages + (m.having false start n).card) % wrap =
        m.freePages := by
  induction n generalizing m start with
  | zero =>
    rw [sweep_zero, having_zero, Bitmap.fill_zero]
    exact ⟨rfl, rfl, hlt, Nat.mod_eq_of_lt hlt⟩
  | succ n ih =>
    rw [sweep_succ, Bitmap.fill_succ]
    have hbits : (m.markPage start).bitmap = Function.update m.bitmap start true := by
      rw [markPage]
      split
      · grind
      · rfl
    have hfree : (m.markPage start).freePages < wrap ∧ ((m.markPage start).freePages +
        (if m.bitmap start = false then 1 else 0)) % wrap = m.freePages := by
      rw [markPage]
      by_cases hb : m.bitmap start = true
      · rw [if_pos hb, if_neg (by simp [hb])]
        exact ⟨hlt, Nat.mod_eq_of_lt hlt⟩
      · rw [if_neg hb, if_pos (by simpa using hb)]
        simp only [takePage, decr, wrap] at hlt ⊢
        omega
    obtain ⟨h1, h2, h3, h4⟩ := ih (m.markPage start) (start + 1) hfree.1
    have hcard : (m.having false start (n + 1)).card =
        (if m.bitmap start = false then 1 else 0) +
          ((m.markPage start).having false (start + 1) n).card := by
      refine card_having_succ ?_
      intro p hp
      rw [hbits, Function.update_of_ne (by omega)]
    refine ⟨by rw [h1, hbits], ?_, h3, ?_⟩
    · rw [h2, markPage]
      split <;> rfl
    · have hmod := hfree.2
      rw [← h4] at hmod
      simp only [wrap] at hmod ⊢
      omega

theorem sweep_take (hfree : ∀ p, start ≤ p → p < start + n → m.bitmap p = false) :
    sweep takePage m start n = sweep markPage m start n := by
  induction n generalizing m start with
  | zero => rfl
  | succ n ih =>
    have hhere : m.markPage start = m.takePage start := by
      rw [markPage, hfree start (by omega) (by omega), if_neg (by simp)]
    rw [sweep_succ, sweep_succ, hhere]
    apply ih
    intro p h1 h2
    simp only [takePage]
    rw [Function.update_of_ne (by omega)]
    exact hfree p (by omega) (by omega)

/-- Releasing pages: the counter rises by the number of pages that were taken. -/
theorem sweep_release (m : Pmm) (start n : Nat) (hlt : m.freePages < wrap) :
    (sweep releasePage m start n).bitmap = Bitmap.fill m.bitmap false start n ∧
      (sweep releasePage m start n).highestAddr = m.highestAddr ∧
      (sweep releasePage m start n).freePages =
        (m.freePages + (m.having true start n).card) % wrap := by
  induction n generalizing m start with
  | zero =>
    rw [sweep_zero, having_zero, Bitmap.fill_zero]
    exact ⟨rfl, rfl, (Nat.mod_eq_of_lt hlt).symm⟩
  | succ n ih =>
    rw [sweep_succ, Bitmap.fill_succ]
    have hbits : (m.releasePage start).bitmap = Function.update m.bitmap start false := by
      rw [releasePage]
      split
      · rfl
      · grind
    have hfree : (m.releasePage start).freePages =
        (m.freePages + (if m.bitmap start = true then 1 else 0)) % wrap := by
      rw [releasePage]
      by_cases hb : m.bitmap start = true
      · rw [if_pos hb, if_pos hb]
        rfl
      · rw [if_neg hb, if_neg hb]
        exact (Nat.mod_eq_of_lt hlt).symm
    have hlt' : (m.releasePage start).freePages < wrap := by
      rw [hfree]
      exact Nat.mod_lt _ (by decide)
    obtain ⟨h1, h2, h3⟩ := ih (m.releasePage start) (start + 1) hlt'
    have hcard : (m.having true start (n + 1)).card =
        (if m.bitmap start = true then 1 else 0) +
          ((m.releasePage start).having true (start + 1) n).card := by
      refine card_having_succ ?_
      intro p hp
      rw [hbits, Function.update_of_ne (by omega)]
    refine ⟨by rw [h1, hbits], ?_, ?_⟩
    · rw [h2, releasePage]
      split <;> rfl
    · rw [h3, hfree, hcard]
      simp only [wrap]
      omega

/-- Opening pages at boot: the counter rises by the number of pages. -/
theorem sweep_add (m : Pmm) (start n : Nat) (hlt : m.freePages < wrap) :
    (sweep addPage m start n).bitmap = Bitmap.fill m.bitmap false start n ∧
      (sweep addPage m start n).highestAddr = m.highestAddr ∧
      (sweep addPage m start n).freePages = (m.freePages + n) % wrap := by
  induction n generalizing m start with
  | zero =>
    rw [sweep_zero, Bitmap.fill_zero]
    exact ⟨rfl, rfl, (Nat.mod_eq_of_lt hlt).symm⟩
  | succ n ih =>
    rw [sweep_succ, Bitmap.fill_succ]
    have hlt' : (m.addPage start).freePages < wrap := Nat.mod_lt _ (by decide)
    obtain ⟨h1, h2, h3⟩ := ih (m.addPage start) (start + 1) hlt'
    refine ⟨h1, h2, ?_⟩
    rw [h3]
    simp only [addPage, incr, wrap]
    omega

theorem card_having_of_all {v : Bool} (hall : ∀ p, start ≤ p → p < start + n → m.bitmap p = v) :
    (m.having v start n).card = n := by
  have heq : m.having v start n = Finset.Ico start (start + n) := by
    rw [having, Finset.filter_true_of_mem]
    intro p hp
    rw [Finset.mem_Ico] at hp
    exact hall p hp.1 hp.2
  rw [heq, Nat.card_Ico, Nat.add_sub_cancel_left]

end Pmm

/-! ## Allocating and freeing -/

/-- The counter is the number of clear bits less `off`, which is what it was short of
from the start. -/
structure Counted (off : Nat) (m : Pmm) : Prop where
  eq : (m.freePages + off) % wrap = (Bitmap.free m.bitmap m.totalPages).card
  fits : m.freePages < wrap
  total : m.totalPages < wrap

theorem card_free_le (bits : Nat → Bool) (total : Nat) : (Bitmap.free bits total).card ≤ total := by
  have hle := Finset.card_filter_le (Finset.range total) fun p => bits p = false
  simpa [Bitmap.free] using hle

theorem Counted.exact {m : Pmm} (h : Counted 0 m) :
    m.freePages = (Bitmap.free m.bitmap m.totalPages).card := by
  rw [← h.eq, Nat.add_zero, Nat.mod_eq_of_lt h.fits]

/-- What taking a run of free pages does. -/
structure Took (m m' : Pmm) (start n : Nat) : Prop where
  bitmap : m'.bitmap = Bitmap.fill m.bitmap true start n
  highestAddr : m'.highestAddr = m.highestAddr
  fits : m'.freePages < wrap
  freePages : (m'.freePages + n) % wrap = m.freePages

/-- What giving back a run of taken pages does. -/
structure Gave (m m' : Pmm) (start n : Nat) : Prop where
  bitmap : m'.bitmap = Bitmap.fill m.bitmap false start n
  highestAddr : m'.highestAddr = m.highestAddr
  freePages : m'.freePages = (m.freePages + n) % wrap

variable {m m' : Pmm} {off start n : Nat}

theorem Took.counted (h : Took m m' start n) (hc : Counted off m)
    (hfree : ∀ p, start ≤ p → p < start + n → p < m.totalPages ∧ m.bitmap p = false) :
    Counted off m' := by
  have htotal : m'.totalPages = m.totalPages := by rw [Pmm.totalPages, h.highestAddr]; rfl
  refine ⟨?_, h.fits, by rw [htotal]; exact hc.total⟩
  have hcard := Bitmap.card_free_take hfree
  have hcount := h.freePages
  have heq := hc.eq
  have hlt := hc.total
  rw [htotal, h.bitmap]
  simp only [wrap] at hcount heq hlt ⊢
  omega

theorem Gave.counted (h : Gave m m' start n) (hc : Counted off m)
    (htaken : ∀ p, start ≤ p → p < start + n → p < m.totalPages ∧ m.bitmap p = true) :
    Counted off m' := by
  have htotal : m'.totalPages = m.totalPages := by rw [Pmm.totalPages, h.highestAddr]; rfl
  refine ⟨?_, by rw [h.freePages]; exact Nat.mod_lt _ (by decide), by rw [htotal]; exact hc.total⟩
  have hcard := Bitmap.card_free_give htaken
  have hle := card_free_le (Bitmap.fill m.bitmap false start n) m.totalPages
  have heq := hc.eq
  have hlt := hc.total
  rw [htotal, h.bitmap, h.freePages]
  simp only [wrap] at heq hlt ⊢
  omega

theorem took_sweep (hlt : m.freePages < wrap)
    (hfree : ∀ p, start ≤ p → p < start + n → m.bitmap p = false) :
    Took m (Pmm.sweep Pmm.takePage m start n) start n := by
  obtain ⟨h1, h2, h3, h4⟩ := Pmm.sweep_mark m start n hlt
  rw [Pmm.card_having_of_all hfree] at h4
  rw [Pmm.sweep_take hfree]
  exact ⟨h1, h2, h3, h4⟩

theorem gave_sweep (hlt : m.freePages < wrap)
    (htaken : ∀ p, start ≤ p → p < start + n → m.bitmap p = true) :
    Gave m (Pmm.sweep Pmm.releasePage m start n) start n := by
  obtain ⟨h1, h2, h3⟩ := Pmm.sweep_release m start n hlt
  rw [Pmm.card_having_of_all htaken] at h3
  exact ⟨h1, h2, h3⟩

/-- What `pmm_alloc_pages` does. -/
theorem pmmAllocPages_spec (hc : Counted off m) {count a : Nat}
    (h : m.pmmAllocPages count = (some a, m')) :
    ∃ start, a = start * pageSize ∧ 0 < count ∧ Took m m' start count ∧
      ∀ p, start ≤ p → p < start + count → p < m.totalPages ∧ m.bitmap p = false := by
  rw [Pmm.pmmAllocPages] at h
  split at h
  · simp at h
  rename_i start hfit
  obtain ⟨rfl, rfl⟩ : start * pageSize = a ∧ Pmm.sweep Pmm.takePage m start count = m' := by
    simpa using h
  obtain ⟨hpos, hle, hbits⟩ := Bitmap.firstFit_spec hfit
  have hfree : ∀ p, start ≤ p → p < start + count → p < m.totalPages ∧ m.bitmap p = false := by
    intro p h1 h2
    exact ⟨by omega, hbits p h1 h2⟩
  exact ⟨start, rfl, hpos, took_sweep hc.fits fun p h1 h2 => (hfree p h1 h2).2, hfree⟩

/-- What `pmm_alloc_page` does. -/
theorem pmmAllocPage_spec (hc : Counted off m) {a : Nat} (h : m.pmmAllocPage = (some a, m')) :
    ∃ start, a = start * pageSize ∧ Took m m' start 1 ∧
      ∀ p, start ≤ p → p < start + 1 → p < m.totalPages ∧ m.bitmap p = false := by
  rw [Pmm.pmmAllocPage] at h
  split at h
  · simp at h
  rename_i i hfind
  obtain ⟨rfl, rfl⟩ : i * pageSize = a ∧ m.takePage i = m' := by simpa using h
  have hfree : ∀ p, i ≤ p → p < i + 1 → p < m.totalPages ∧ m.bitmap p = false := by grind
  exact ⟨i, rfl, took_sweep hc.fits fun p h1 h2 => (hfree p h1 h2).2, hfree⟩

/-- What `pmm_free_pages` does to a run of taken pages. -/
theorem pmmFreePages_spec (hc : Counted off m) {page count : Nat} (hpos : 0 < count)
    (htaken : ∀ p, page ≤ p → p < page + count → p < m.totalPages ∧ m.bitmap p = true) :
    Gave m (m.pmmFreePages (some (page * pageSize)) count) page count := by
  have hdiv : page * pageSize / pageSize = page := Nat.mul_div_cancel _ (by decide)
  have hlast := (htaken (page + count - 1) (by omega) (by omega)).1
  rw [Pmm.pmmFreePages]
  rw [if_neg (by omega), hdiv, if_neg (by omega)]
  exact gave_sweep hc.fits fun p h1 h2 => (htaken p h1 h2).2

/-- What `pmm_free_page` does to a taken page. -/
theorem pmmFreePage_spec (hc : Counted off m) {page : Nat} (hlt : page < m.totalPages)
    (htaken : m.bitmap page = true) : Gave m (m.pmmFreePage (page * pageSize)) page 1 := by
  have hdiv : page * pageSize / pageSize = page := Nat.mul_div_cancel _ (by decide)
  have hall : ∀ p, page ≤ p → p < page + 1 → p < m.totalPages ∧ m.bitmap p = true := by
    intro p h1 h2
    rw [show p = page by omega]
    exact ⟨hlt, htaken⟩
  rw [Pmm.pmmFreePage, hdiv]
  exact gave_sweep hc.fits fun p h1 h2 => (hall p h1 h2).2

/-- The counters are variables of 64 bits. -/
structure Pmm.Words (m : Pmm) : Prop where
  freePages : m.freePages < wrap
  highestAddr : m.highestAddr < wrap

theorem Pmm.Words.counted (h : m.Words) : ∃ off, Counted off m := by
  have hcard := card_free_le m.bitmap m.totalPages
  have htotal : m.totalPages < wrap := lt_of_le_of_lt (Nat.div_le_self _ _) h.highestAddr
  have hlt := h.freePages
  refine ⟨(Bitmap.free m.bitmap m.totalPages).card + (wrap - m.freePages), ?_, hlt, htotal⟩
  simp only [wrap] at hlt htotal ⊢
  omega

theorem sweep_usablePages {f : Pmm → Nat → Pmm} (hf : ∀ m p, (f m p).usablePages = m.usablePages) :
    (Pmm.sweep f m start n).usablePages = m.usablePages := by
  induction n generalizing m start with
  | zero => rfl
  | succ n ih => rw [Pmm.sweep_succ, ih, hf]

theorem pmmAllocPages_usablePages (count : Nat) :
    (m.pmmAllocPages count).2.usablePages = m.usablePages := by
  rw [Pmm.pmmAllocPages]
  split
  · rfl
  · exact sweep_usablePages fun _ _ => rfl

theorem pmmFreePages_usablePages (pages : Option Nat) (count : Nat) :
    (m.pmmFreePages pages count).usablePages = m.usablePages := by
  have hrelease : ∀ (m : Pmm) (p : Nat), (m.releasePage p).usablePages = m.usablePages := by
    intro m p
    rw [Pmm.releasePage]
    split <;> rfl
  cases pages with
  | none => rfl
  | some page =>
    simp only [Pmm.pmmFreePages]
    split
    · rfl
    · split
      · rfl
      · exact sweep_usablePages hrelease

/-- **Freeing the run that was allocated leaves the allocator as it was.** -/
theorem pmmFreePages_pmmAllocPages (hw : m.Words) {count a : Nat}
    (h : m.pmmAllocPages count = (some a, m')) : m'.pmmFreePages (some a) count = m := by
  obtain ⟨off, hc⟩ := hw.counted
  obtain ⟨start, rfl, hpos, htook, hfree⟩ := pmmAllocPages_spec hc h
  have htotal : m'.totalPages = m.totalPages := by rw [Pmm.totalPages, htook.highestAddr]; rfl
  have htaken : ∀ p, start ≤ p → p < start + count → p < m'.totalPages ∧ m'.bitmap p = true := by
    intro p h1 h2
    rw [htotal, htook.bitmap, Bitmap.fill, if_pos ⟨h1, h2⟩]
    exact ⟨(hfree p h1 h2).1, rfl⟩
  have hgave := pmmFreePages_spec (htook.counted hc hfree) hpos htaken
  have husable := congrArg (fun r => r.2.usablePages) h
  rw [pmmAllocPages_usablePages] at husable
  have hbits : (m'.pmmFreePages (some (start * pageSize)) count).bitmap = m.bitmap := by
    funext p
    rw [hgave.bitmap, htook.bitmap, Bitmap.fill, Bitmap.fill]
    split
    · rename_i hp
      exact (hfree p hp.1 hp.2).2.symm
    · rfl
  have hcounter : (m'.pmmFreePages (some (start * pageSize)) count).freePages = m.freePages := by
    rw [hgave.freePages, htook.freePages]
  have hplain : (m'.pmmFreePages (some (start * pageSize)) count).usablePages = m.usablePages := by
    rw [pmmFreePages_usablePages, husable]
  have haddr := hgave.highestAddr.trans htook.highestAddr
  generalize m'.pmmFreePages (some (start * pageSize)) count = back at hbits hcounter hplain haddr
  obtain ⟨bits, addr, free, usable⟩ := back
  simp only at hbits hcounter hplain haddr
  rw [hbits, hcounter, hplain, haddr]

theorem pmmAllocPages_lt (hw : m.Words) {count a : Nat}
    (h : m.pmmAllocPages count = (some a, m')) : a < wrap := by
  obtain ⟨off, hc⟩ := hw.counted
  obtain ⟨start, rfl, hpos, -, hfree⟩ := pmmAllocPages_spec hc h
  have hlt := (hfree start (Nat.le_refl _) (by omega)).1
  have haddr := hw.highestAddr
  simp only [Pmm.totalPages, pageSize] at hlt ⊢
  omega

end Mem
