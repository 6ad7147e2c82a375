import StrawOS.Lib.Buf
import StrawOS.Lib.Endian
import StrawOS.Lib.Machine
import StrawOS.Lib.Chain

/-!
# The heap of the C library

`malloc`, `calloc`, `realloc` and `free` over the pages that the kernel hands
out.  A small block is carved out of an arena and recycled through the free list
of its size class, whose links lie in the freed blocks themselves; a large block
is a run of pages of its own.  Every block has a header in memory, and the code
believes it, so the memory here is bytes and headers are read back from them.

The kernel decides where its pages lie.  A call carries the kernel's choice, a
function from the size asked for to the address given; what `sys_mem_alloc`
promises about it is `Heap.Fresh`.
-/

namespace Libc

/-- `HEAP_PAGE_SIZE`, also the kernel's `PAGE_SIZE`. -/
def heapPageSize : Nat := 4096

def heapArenaSize : Nat := 64 * 1024

def heapLarge : Nat := 0xFFFFFFFF

def heapMagic : Nat := 0x5354524B

/-- `sizeof(HeapHeader)`. -/
def heapHeader : Nat := 16

def sizeMax : Nat := 2 ^ 64 - 1

def heapClasses : List Nat :=
  [16, 32, 48, 64, 96, 128, 192, 256, 384, 512, 768, 1024, 1536, 2048, 3072, 4096]

/-- `heap_classes[cls]`. -/
def classSize (cls : Nat) : Nat := heapClasses.getD cls 0

/-- `heap_large_pages`, in the arithmetic of `size_t`. -/
def heapLargePages (size : Nat) : Nat :=
  (size + heapHeader + heapPageSize - 1) % 2 ^ 64 / heapPageSize

def heapClassFor (size : Nat) : Option Nat := heapClasses.findIdx? (size ≤ ·)

/-- `user_page_count` of the kernel. -/
def userPageCount (size : Nat) : Nat := (size + heapPageSize - 1) % 2 ^ 64 / heapPageSize

/-- A run of pages that the kernel has given to the task. -/
structure PageRun where
  addr : Nat
  count : Nat
  deriving DecidableEq, Repr

/-- The memory, the variables of the allocator, and the kernel's table of the
runs of the task.  A null pointer is `none`. -/
structure Heap where
  mem : Nat → UInt8
  lists : Nat → Option Nat
  arena : Nat
  left : Nat
  runs : List PageRun

namespace Heap

variable (h : Heap)

/-! ## Headers and links in memory -/

/-- `h->cls`. -/
def cls (a : Nat) : Nat := Endian.load (Buf.read h.mem a 4)

/-- `h->magic`. -/
def magic (a : Nat) : Nat := Endian.load (Buf.read h.mem (a + 4) 4)

/-- `h->size`. -/
def size (a : Nat) : Nat := Endian.load (Buf.read h.mem (a + 8) 8)

/-- `f->next`. -/
def next (p : Nat) : Option Nat :=
  let v := Endian.load (Buf.read h.mem p 8)
  if v = 0 then none else some v

/-- Store `v` in `w` bytes. -/
def store (a w v : Nat) : Heap := { h with mem := Buf.write h.mem a (Endian.store w v) }

/-- `h->size = v`. -/
def setSize (a v : Nat) : Heap := h.store (a + 8) 8 v

/-- The three assignments that make a header. -/
def setHeader (a cls size : Nat) : Heap :=
  ((h.store a 4 cls).store (a + 4) 4 heapMagic).setSize a size

/-! ## The two calls of the kernel -/

/-- `sys_mem_alloc`, with the address that the page allocator finds. -/
def memAlloc (answer : Nat → Option Nat) (size : Nat) : Option Nat × Heap :=
  if size = 0 ∨ sizeMax - heapPageSize < size then (none, h)
  else
    match answer size with
    | none => (none, h)
    | some p => (some p, { h with runs := h.runs ++ [⟨p, userPageCount size⟩] })

/-- `sys_mem_free`: the first record of the address must have the page count. -/
def memFree (addr size : Nat) : Int × Heap :=
  match h.runs.find? fun r => r.addr == addr with
  | none => (-1, h)
  | some r =>
      if r.count ≠ userPageCount size then (-1, h)
      else (0, { h with runs := h.runs.eraseP fun r => r.addr == addr })

/-! ## The library -/

/-- The end of `heap_carve`. -/
def carve (bytes : Nat) : Option Nat × Heap :=
  (some h.arena, { h with arena := h.arena + bytes, left := h.left - bytes })

def heapCarve (answer : Nat → Option Nat) (bytes : Nat) : Option Nat × Heap :=
  if h.left < bytes then
    match h.memAlloc answer heapArenaSize with
    | (none, h) => (none, h)
    | (some arena, h) => { h with arena := arena, left := heapArenaSize }.carve bytes
  else h.carve bytes

def malloc (answer : Nat → Option Nat) (size : Nat) : Option Nat × Heap :=
  match heapClassFor (if size = 0 then 1 else size) with
  | none =>
      if sizeMax - heapHeader - heapPageSize < size then (none, h)
      else
        match h.memAlloc answer (size + heapHeader) with
        | (none, h) => (none, h)
        | (some a, h) => (some (a + heapHeader), h.setHeader a heapLarge size)
  | some cls =>
      match h.lists cls with
      | some p =>
          (some p, ({ h with lists := Function.update h.lists cls (h.next p) } : Heap).setSize
            (p - heapHeader) size)
      | none =>
          match h.heapCarve answer (heapHeader + classSize cls) with
          | (none, h) => (none, h)
          | (some a, h) => (some (a + heapHeader), h.setHeader a cls size)

/-- A `KCALL_MEM_FREE` that was made, with the kernel's table at the time, and
its result. -/
structure FreeCall where
  table : List PageRun
  addr : Nat
  size : Nat
  result : Int
  deriving DecidableEq, Repr

def free (ptr : Option Nat) : Heap × List FreeCall :=
  match ptr with
  | none => (h, [])
  | some p =>
      let a := p - heapHeader
      if h.magic a ≠ heapMagic then (h, [])
      else if h.cls a = heapLarge then
        let size := (h.size a + heapHeader) % 2 ^ 64
        let r := (h.store (a + 4) 4 0).memFree a size
        (r.2, [⟨h.runs, a, size, r.1⟩])
      else
        -- The link goes into the block, which becomes the head of its list.
        let linked := h.store p 8 ((h.lists (h.cls a)).getD 0)
        ({ linked with lists := Function.update h.lists (h.cls a) (some p) }, [])

def calloc (answer : Nat → Option Nat) (nmemb size : Nat) : Option Nat × Heap :=
  if size ≠ 0 ∧ sizeMax / size < nmemb then (none, h)
  else
    let total := nmemb * size % 2 ^ 64
    match h.malloc answer total with
    | (none, h) => (none, h)
    | (some p, h) => (some p, { h with mem := Buf.write h.mem p (List.replicate total 0) })

def memcpy (dst src n : Nat) : Heap := { h with mem := Buf.write h.mem dst (Buf.read h.mem src n) }

/-- The test of `realloc`: a block of `size` bytes fits where the block is. -/
def fits (a size : Nat) : Bool :=
  if h.cls a ≠ heapLarge then decide (size ≤ classSize (h.cls a))
  else heapLargePages size == heapLargePages (h.size a)

def realloc (answer : Nat → Option Nat) (ptr : Option Nat) (size : Nat) :
    Option Nat × Heap × List FreeCall :=
  match ptr with
  | none => ((h.malloc answer size).1, (h.malloc answer size).2, [])
  | some p =>
      if size = 0 then (none, h.free (some p))
      else
        let a := p - heapHeader
        if h.fits a size then (some p, h.setSize a size, [])
        else
          match h.malloc answer size with
          | (none, h) => (none, h, [])
          | (some n, h) =>
              let copy := if h.size a < size then h.size a else size
              (some n, (h.memcpy n p copy).free (some p))

end Heap

/-! ## A program and its blocks -/

/-- A block the program holds, with the size it asked for. -/
structure HeapBlock where
  ptr : Nat
  size : Nat
  deriving DecidableEq, Repr

/-- The heap, and the blocks of the program. -/
structure HeapState where
  heap : Heap
  live : List HeapBlock

/-- The calls of the program, its writes, and the writes of everybody else. -/
inductive HeapOp
  | malloc (answer : Nat → Option Nat) (size : UInt64)
  | calloc (answer : Nat → Option Nat) (nmemb size : UInt64)
  | realloc (answer : Nat → Option Nat) (ptr : Option Nat) (size : UInt64)
  | free (ptr : Option Nat)
  | write (addr : Nat) (byte : UInt8)
  | foreign (addr : Nat) (byte : UInt8)

/-- The blocks after a call that returned `p` for `size` bytes. -/
def gain (live : List HeapBlock) (p : Option Nat) (size : Nat) : List HeapBlock :=
  match p with
  | none => live
  | some p => ⟨p, size⟩ :: live

/-- The blocks without the one at `p`. -/
def lose (live : List HeapBlock) (p : Nat) : List HeapBlock := live.eraseP fun b => b.ptr == p

/-- The blocks after `realloc`: the old one is gone when the new one is there, or
when nothing was asked for. -/
def trade (live : List HeapBlock) (ptr p : Option Nat) (size : Nat) : List HeapBlock :=
  match ptr, p with
  | none, p => gain live p size
  | some old, none => if size = 0 then lose live old else live
  | some old, some p => ⟨p, size⟩ :: lose live old

/-- One step, with the `KCALL_MEM_FREE` calls in it. -/
def heapStep (st : HeapState) : HeapOp → HeapState × List Heap.FreeCall
  | .malloc answer size =>
      let r := st.heap.malloc answer size.toNat
      (⟨r.2, gain st.live r.1 size.toNat⟩, [])
  | .calloc answer nmemb size =>
      let r := st.heap.calloc answer nmemb.toNat size.toNat
      (⟨r.2, gain st.live r.1 (nmemb.toNat * size.toNat)⟩, [])
  | .realloc answer ptr size =>
      let r := st.heap.realloc answer ptr size.toNat
      (⟨r.2.1, trade st.live ptr r.1 size.toNat⟩, r.2.2)
  | .free ptr =>
      let r := st.heap.free ptr
      (⟨r.1, match ptr with | none => st.live | some p => lose st.live p⟩, r.2)
  | .write addr byte => ({ st with heap := { st.heap with mem := Function.update st.heap.mem addr byte } }, [])
  | .foreign addr byte => ({ st with heap := { st.heap with mem := Function.update st.heap.mem addr byte } }, [])

/-- A byte of a run. -/
def PageRun.HasByte (r : PageRun) (a : Nat) : Prop :=
  r.addr ≤ a ∧ a < r.addr + r.count * heapPageSize

/-- What `sys_mem_alloc` promises: pages that are not null, that end below the
top of the address space and that are in no other run. -/
def Heap.Fresh (h : Heap) (answer : Nat → Option Nat) : Prop :=
  ∀ size p, answer size = some p →
    0 < p ∧ p + userPageCount size * heapPageSize ≤ 2 ^ 64 ∧
      ∀ r ∈ h.runs, ∀ a, r.HasByte a → ¬ (⟨p, userPageCount size⟩ : PageRun).HasByte a

/-- A byte the program asked for. -/
def HeapBlock.HasByte (b : HeapBlock) (a : Nat) : Prop := b.ptr ≤ a ∧ a < b.ptr + b.size

/-- The kernel keeps its promise, only live pointers are freed or resized, the
program writes into its blocks, and nobody else writes into its pages. -/
def heapPermitted (st : HeapState) : HeapOp → Prop
  | .malloc answer _ => st.heap.Fresh answer
  | .calloc answer _ _ => st.heap.Fresh answer
  | .realloc answer ptr _ => st.heap.Fresh answer ∧ ∀ p, ptr = some p → ∃ b ∈ st.live, b.ptr = p
  | .free ptr => ∀ p, ptr = some p → ∃ b ∈ st.live, b.ptr = p
  | .write addr _ => ∃ b ∈ st.live, b.HasByte addr
  | .foreign addr _ => ∀ r ∈ st.heap.runs, ¬ r.HasByte addr

/-- A program from its start: no pages, empty lists, any memory. -/
def heapMachine : Machine HeapState HeapOp Heap.FreeCall where
  start st := st.live = [] ∧ st.heap.runs = [] ∧ (∀ c, st.heap.lists c = none) ∧
    st.heap.arena = 0 ∧ st.heap.left = 0
  step := heapStep

end Libc

/-!
# The slots of the heap

The pages of the program are cut into slots: the carved blocks, held or on a
free list, and the large blocks.  `Layout` is the invariant: slots lie inside
runs and apart from one another and from what is left of the arena, their
headers in memory are what the allocator wrote, and the free lists thread
exactly the slots that nobody holds.

The second half is how a layout changes: by memory that no header and no link is
in, by giving one slot to a new holder, by adding and by dropping one.
-/

namespace Libc

/-- A header and what belongs to it; `held` is the size of the block in it. -/
structure Slot where
  hdr : Nat
  len : Nat
  cls : Nat
  held : Option Nat

namespace Slot

/-- The pointer to the block. -/
def ptr (s : Slot) : Nat := s.hdr + heapHeader

/-- The block of the program. -/
def block (s : Slot) : Option HeapBlock := s.held.map fun n => ⟨s.ptr, n⟩

/-- The bytes at the start that belong to the allocator: the header, and the link
of a free slot. -/
def own (s : Slot) : Nat := if s.held = none then 24 else 16

/-- A carved slot. -/
def Small (s : Slot) : Prop := s.cls < 16 ∧ s.len = heapHeader + classSize s.cls

/-- A slot that is a run, with the page count of its block. -/
def Large (runs : List PageRun) (s : Slot) : Prop :=
  s.cls = heapLarge ∧ ∃ n count, s.held = some n ∧ ⟨s.hdr, count⟩ ∈ runs ∧
    s.len = count * heapPageSize ∧ heapLargePages n = count ∧ 2 ≤ count

/-- A slot whose header is right. -/
structure Sound (h : Heap) (s : Slot) : Prop where
  cls : h.cls s.hdr = s.cls
  magic : h.magic s.hdr = heapMagic
  size : ∀ n, s.held = some n → h.size s.hdr = n ∧ heapHeader + n ≤ s.len ∧ n ≤ sizeMax
  kind : s.Small ∨ s.Large h.runs
  inside : ∃ r ∈ h.runs, r.addr ≤ s.hdr ∧ s.hdr + s.len ≤ r.addr + r.count * heapPageSize

end Slot

/-- Two ranges without a common byte. -/
def Apart (a n b m : Nat) : Prop := a + n ≤ b ∨ b + m ≤ a

theorem Apart.symm {a n b m : Nat} (h : Apart a n b m) : Apart b m a n := Or.symm h

/-- The invariant of the heap. -/
structure Layout (h : Heap) (slots : List Slot) (chains : Nat → List Nat)
    (live : List HeapBlock) : Prop where
  runsApart : h.runs.Pairwise fun r s =>
    Apart r.addr (r.count * heapPageSize) s.addr (s.count * heapPageSize)
  runs : ∀ r ∈ h.runs, 0 < r.addr ∧ 0 < r.count ∧ r.addr + r.count * heapPageSize ≤ 2 ^ 64
  apart : slots.Pairwise fun s t => Apart s.hdr s.len t.hdr t.len
  sound : ∀ s ∈ slots, s.Sound h
  arena : 0 < h.left → ∃ r ∈ h.runs,
    r.addr ≤ h.arena ∧ h.arena + h.left ≤ r.addr + r.count * heapPageSize
  arenaApart : 0 < h.left → ∀ s ∈ slots, Apart s.hdr s.len h.arena h.left
  chain : ∀ c < 16, PtrChain h.next (h.lists c) (chains c)
  free : ∀ c < 16, ∀ p, p ∈ chains c ↔ ∃ s ∈ slots, s.cls = c ∧ s.held = none ∧ s.ptr = p
  live : live.Perm (slots.filterMap Slot.block)

variable {h : Heap} {slots rest : List Slot} {chains : Nat → List Nat} {live : List HeapBlock}
  {s : Slot}

/-! ## Sizes -/

theorem classSize_bounds {c : Nat} (hc : c < 16) : 16 ≤ classSize c ∧ classSize c ≤ 4096 := by
  have hall : ∀ c < 16, 16 ≤ classSize c ∧ classSize c ≤ 4096 := by decide
  exact hall c hc

theorem heapClassFor_some {size c : Nat} (hc : heapClassFor size = some c) :
    c < 16 ∧ size ≤ classSize c := by
  obtain ⟨hlt, hle, -⟩ := List.findIdx?_eq_some_iff_getElem.mp hc
  refine ⟨hlt, ?_⟩
  rw [classSize, List.getD_eq_getElem?_getD, List.getElem?_eq_getElem hlt]
  simpa using hle

theorem heapClassFor_none {size : Nat} (hc : heapClassFor size = none) : 4096 < size := by
  have hall := List.findIdx?_eq_none_iff.mp hc 4096 (by decide)
  simpa using hall

theorem heapLargePages_two {n : Nat} (hn : n ≤ sizeMax) (h2 : 2 ≤ heapLargePages n) :
    n + 4111 < 2 ^ 64 ∧ heapHeader + n ≤ heapLargePages n * heapPageSize ∧
      userPageCount ((n + heapHeader) % 2 ^ 64) = heapLargePages n := by
  simp only [heapLargePages, userPageCount, heapHeader, heapPageSize, sizeMax] at *
  omega

/-- A size for which `malloc` asks the kernel has at least two pages. -/
theorem two_le_heapLargePages {n : Nat} (h1 : 4096 < n)
    (h2 : n ≤ sizeMax - heapHeader - heapPageSize) :
    2 ≤ heapLargePages n ∧ userPageCount (n + heapHeader) = heapLargePages n := by
  refine ⟨?_, rfl⟩
  simp only [heapLargePages, heapHeader, heapPageSize, sizeMax] at *
  omega

/-! ## Reading a layout -/

theorem Slot.Sound.len_ge (hs : s.Sound h) : 32 ≤ s.len := by
  rcases hs.kind with ⟨hc, hlen⟩ | ⟨-, n, count, -, -, hlen, -, h2⟩
  · have := (classSize_bounds hc).1
    simp only [heapHeader] at hlen
    omega
  · simp only [heapPageSize] at hlen
    omega

theorem Slot.Sound.small_of_free (hs : s.Sound h) (hfree : s.held = none) : s.Small := by
  rcases hs.kind with hsmall | ⟨-, n, count, hheld, -⟩
  · exact hsmall
  · rw [hfree] at hheld
    cases hheld

theorem Slot.own_le (s : Slot) : s.own ≤ 24 := by
  rw [own]
  split <;> omega

theorem Slot.le_own (s : Slot) : 16 ≤ s.own := by
  rw [own]
  split <;> omega

theorem Slot.ptr_eq (s : Slot) : s.ptr = s.hdr + 16 := rfl

theorem Layout.perm (hl : Layout h slots chains live) {slots' : List Slot}
    (hp : slots.Perm slots') : Layout h slots' chains live where
  runsApart := hl.runsApart
  runs := hl.runs
  apart := (hp.pairwise_iff fun hd => hd.symm).mp hl.apart
  sound := fun s hs => hl.sound s (hp.mem_iff.mpr hs)
  arena := hl.arena
  arenaApart := fun hpos s hs => hl.arenaApart hpos s (hp.mem_iff.mpr hs)
  chain := hl.chain
  free := by
    intro c hc p
    rw [hl.free c hc p]
    constructor
    · intro ⟨s, hs, hrest⟩
      exact ⟨s, hp.mem_iff.mp hs, hrest⟩
    · intro ⟨s, hs, hrest⟩
      exact ⟨s, hp.mem_iff.mpr hs, hrest⟩
  live := hl.live.trans (hp.filterMap _)

theorem Layout.front (hl : Layout h slots chains live) (hs : s ∈ slots) :
    ∃ rest, Layout h (s :: rest) chains live := by
  obtain ⟨l, r, rfl⟩ := List.append_of_mem hs
  exact ⟨l ++ r, hl.perm List.perm_middle⟩

theorem Layout.slot_of_live (hl : Layout h slots chains live) {b : HeapBlock} (hb : b ∈ live) :
    ∃ s ∈ slots, s.held = some b.size ∧ s.ptr = b.ptr := by
  obtain ⟨s, hs, hblock⟩ := List.mem_filterMap.mp (hl.live.mem_iff.mp hb)
  obtain ⟨n, hheld, heq⟩ := Option.map_eq_some_iff.mp hblock
  exact ⟨s, hs, by rw [hheld, ← heq], by rw [← heq]⟩

theorem Layout.apart_of_mem (hl : Layout h (s :: rest) chains live) {t : Slot} (ht : t ∈ rest) :
    Apart s.hdr s.len t.hdr t.len :=
  (List.pairwise_cons.mp hl.apart).1 t ht

/-! ## Memory -/

theorem Slot.Sound.congr (hs : s.Sound h) {h' : Heap}
    (hruns : ∀ r ∈ h.runs, r.addr ≤ s.hdr → s.hdr + s.len ≤ r.addr + r.count * heapPageSize →
      r ∈ h'.runs)
    (hmem : ∀ a, s.hdr ≤ a → a < s.hdr + 16 → h'.mem a = h.mem a) : s.Sound h' := by
  have hread : ∀ off n, off + n ≤ 16 →
      Buf.read h'.mem (s.hdr + off) n = Buf.read h.mem (s.hdr + off) n := by
    intro off n hle
    apply Buf.read_congr
    intro i hi
    exact hmem _ (by omega) (by omega)
  have hcls : h'.cls s.hdr = h.cls s.hdr := congrArg Endian.load (hread 0 4 (by omega))
  have hmagic : h'.magic s.hdr = h.magic s.hdr := congrArg Endian.load (hread 4 4 (by omega))
  have hsize : h'.size s.hdr = h.size s.hdr := congrArg Endian.load (hread 8 8 (by omega))
  constructor
  · rw [hcls, hs.cls]
  · rw [hmagic, hs.magic]
  · intro n hn
    rw [hsize]
    exact hs.size n hn
  · rcases hs.kind with hsmall | ⟨hlarge, n, count, hheld, hrun, hlen, hpages⟩
    · exact Or.inl hsmall
    · have hrun' := hruns _ hrun (Nat.le_refl _) (by simp only; omega)
      exact Or.inr ⟨hlarge, n, count, hheld, hrun', hlen, hpages⟩
  · obtain ⟨r, hr, h1, h2⟩ := hs.inside
    exact ⟨r, hruns r hr h1 h2, h1, h2⟩

theorem Heap.next_congr {h' : Heap} {p : Nat} (hmem : ∀ a, p ≤ a → a < p + 8 → h'.mem a = h.mem a) :
    h'.next p = h.next p := by
  have hread : Buf.read h'.mem p 8 = Buf.read h.mem p 8 := by
    apply Buf.read_congr
    intro i hi
    exact hmem _ (by omega) (by omega)
  rw [next, next, hread]

theorem Layout.chain_congr (hl : Layout h slots chains live) {h' : Heap} {c : Nat} (hc : c < 16)
    (hmem : ∀ t ∈ slots, t.cls = c → t.held = none →
      ∀ a, t.ptr ≤ a → a < t.ptr + 8 → h'.mem a = h.mem a) :
    PtrChain h'.next (h.lists c) (chains c) := by
  apply (hl.chain c hc).congr
  intro p hp
  obtain ⟨t, ht, hcls, hheld, rfl⟩ := (hl.free c hc p).mp hp
  exact Heap.next_congr (hmem t ht hcls hheld)

/-- **Memory of nobody.**  A change of bytes outside headers and links keeps the
layout. -/
theorem Layout.setMem (hl : Layout h slots chains live) {mem : Nat → UInt8}
    (hmem : ∀ s ∈ slots, ∀ a, s.hdr ≤ a → a < s.hdr + s.own → mem a = h.mem a) :
    Layout { h with mem := mem } slots chains live where
  runsApart := hl.runsApart
  runs := hl.runs
  apart := hl.apart
  sound := by
    intro s hs
    refine (hl.sound s hs).congr (fun r hr _ _ => hr) ?_
    intro a h1 h2
    have := s.le_own
    exact hmem s hs a h1 (by omega)
  arena := hl.arena
  arenaApart := hl.arenaApart
  chain := by
    intro c hc
    apply hl.chain_congr hc
    intro t ht _ hheld a h1 h2
    have hown : t.own = 24 := by simp [Slot.own, hheld]
    rw [Slot.ptr_eq] at h1 h2
    exact hmem t ht a (by omega) (by omega)
  free := hl.free
  live := hl.live

/-! ## Runs -/

theorem apart_of_hasByte {q r : PageRun} (hq : 0 < q.count) (hr : 0 < r.count)
    (hdisj : ∀ a, q.HasByte a → ¬ r.HasByte a) :
    Apart q.addr (q.count * heapPageSize) r.addr (r.count * heapPageSize) := by
  by_contra hover
  apply hdisj (max q.addr r.addr)
  all_goals
    simp only [Apart, PageRun.HasByte, heapPageSize] at *
    omega

theorem Apart.inner {a n b m c k : Nat} (hd : Apart a n b m) (h1 : a ≤ c) (h2 : c + k ≤ a + n) :
    Apart c k b m := by
  simp only [Apart] at *
  omega

/-- **A new run.** -/
theorem Layout.addRun (hl : Layout h slots chains live) {r : PageRun}
    (hr : 0 < r.addr ∧ 0 < r.count ∧ r.addr + r.count * heapPageSize ≤ 2 ^ 64)
    (hfresh : ∀ q ∈ h.runs, ∀ a, q.HasByte a → ¬ r.HasByte a) :
    Layout { h with runs := h.runs ++ [r] } slots chains live ∧
      (∀ s ∈ slots, Apart s.hdr s.len r.addr (r.count * heapPageSize)) ∧
      (0 < h.left → Apart h.arena h.left r.addr (r.count * heapPageSize)) := by
  have hnew : ∀ q ∈ h.runs,
      Apart q.addr (q.count * heapPageSize) r.addr (r.count * heapPageSize) := fun q hq =>
    apart_of_hasByte (hl.runs q hq).2.1 hr.2.1 (hfresh q hq)
  refine ⟨?_, ?_, ?_⟩
  · constructor
    · rw [List.pairwise_append]
      refine ⟨hl.runsApart, List.pairwise_singleton _ _, ?_⟩
      intro q hq r' hr'
      rw [List.mem_singleton.mp hr']
      exact hnew q hq
    · intro q hq
      rcases List.mem_append.mp hq with hq | hq
      · exact hl.runs q hq
      · rw [List.mem_singleton.mp hq]
        exact hr
    · exact hl.apart
    · intro s hs
      exact (hl.sound s hs).congr (fun q hq _ _ => List.mem_append_left _ hq) fun _ _ _ => rfl
    · intro hpos
      obtain ⟨q, hq, h12⟩ := hl.arena hpos
      exact ⟨q, List.mem_append_left _ hq, h12⟩
    · exact hl.arenaApart
    · exact hl.chain
    · exact hl.free
    · exact hl.live
  · intro s hs
    obtain ⟨q, hq, h1, h2⟩ := (hl.sound s hs).inside
    exact (hnew q hq).inner h1 h2
  · intro hpos
    obtain ⟨q, hq, h1, h2⟩ := hl.arena hpos
    exact (hnew q hq).inner h1 h2

theorem Layout.run_unique (hl : Layout h slots chains live) {q r : PageRun} (hq : q ∈ h.runs)
    (hr : r ∈ h.runs) (haddr : q.addr = r.addr) : q = r := by
  by_contra hne
  have hsymm : Std.Symm fun r s : PageRun =>
      Apart r.addr (r.count * heapPageSize) s.addr (s.count * heapPageSize) := ⟨fun _ _ hd => hd.symm⟩
  have hapart := hl.runsApart.forall hq hr hne
  have hq1 := (hl.runs q hq).2.1
  have hr1 := (hl.runs r hr).2.1
  simp only [Apart, heapPageSize] at hapart
  omega

/-! ## One slot -/

/-- **A slot changes hands.**  Only its own bytes are written. -/
theorem Layout.replace (hl : Layout h (s :: rest) chains live) {h' : Heap} {s' : Slot}
    {chains' : Nat → List Nat} {live' : List HeapBlock} (hruns : h'.runs = h.runs)
    (harena : h'.arena = h.arena) (hleft : h'.left = h.left) (hhdr : s'.hdr = s.hdr)
    (hlen : s'.len = s.len) (hsound : s'.Sound h')
    (hmem : ∀ a, a < s.hdr ∨ s.hdr + s.len ≤ a → h'.mem a = h.mem a)
    (hchain : ∀ c < 16, PtrChain h'.next (h'.lists c) (chains' c))
    (hfree : ∀ c < 16, ∀ p, p ∈ chains' c ↔
      ∃ t ∈ s' :: rest, t.cls = c ∧ t.held = none ∧ t.ptr = p)
    (hlive : live'.Perm ((s' :: rest).filterMap Slot.block)) :
    Layout h' (s' :: rest) chains' live' := by
  obtain ⟨hfirst, hrest⟩ := List.pairwise_cons.mp hl.apart
  constructor
  · rw [hruns]
    exact hl.runsApart
  · rw [hruns]
    exact hl.runs
  · rw [List.pairwise_cons, hhdr, hlen]
    exact ⟨hfirst, hrest⟩
  · intro t ht
    rcases List.mem_cons.mp ht with rfl | ht
    · exact hsound
    · have htsound := hl.sound t (List.mem_cons_of_mem s ht)
      apply htsound.congr fun r hr _ _ => hruns ▸ hr
      intro a h1 h2
      apply hmem
      have hapart := hfirst t ht
      have := htsound.len_ge
      simp only [Apart] at hapart
      omega
  · rw [hleft, harena, hruns]
    exact hl.arena
  · rw [hleft, harena]
    intro hpos t ht
    rcases List.mem_cons.mp ht with rfl | ht
    · rw [hhdr, hlen]
      exact hl.arenaApart hpos s List.mem_cons_self
    · exact hl.arenaApart hpos t (List.mem_cons_of_mem s ht)
  · exact hchain
  · exact hfree
  · exact hlive

theorem Layout.chain_of_rest (hl : Layout h (s :: rest) chains live) {h' : Heap}
    (hmem : ∀ a, a < s.hdr ∨ s.hdr + s.len ≤ a → h'.mem a = h.mem a) {start : Option Nat}
    {l : List Nat} (hchain : PtrChain h.next start l)
    (hl' : ∀ p ∈ l, ∃ t ∈ rest, t.held = none ∧ t.ptr = p) : PtrChain h'.next start l := by
  apply hchain.congr
  intro p hp
  obtain ⟨t, ht, -, rfl⟩ := hl' p hp
  apply Heap.next_congr
  intro a h1 h2
  have hapart := hl.apart_of_mem ht
  have hlen := (hl.sound t (List.mem_cons_of_mem s ht)).len_ge
  rw [Slot.ptr_eq] at h1 h2
  apply hmem
  simp only [Apart] at hapart
  omega

end Libc
