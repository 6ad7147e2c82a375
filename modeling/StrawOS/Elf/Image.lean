import StrawOS.Lib.AddrSpace
import StrawOS.Mem.Pages

/-!
# Loading the segments of an ELF image

`elf_load_image` up to the relocations.  Offsets, sizes and addresses are `UInt64` and
wrap.  The file is a byte string beside the memory; a read outside it, or a copy of a
segment outside the pages of the image, ends the model with `fault`.  `reject` is the
result -1.
-/

namespace Elf

open AddrSpace

/-- The bytes given to the loader.  Their number is a `size_t`. -/
structure File where
  bytes : List UInt8
  size_lt : bytes.length < 2 ^ 64

/-- How the loader ends when it does not succeed. -/
inductive Stop where
  | fault
  | reject
  deriving DecidableEq

abbrev Checked := Except Stop

/-- `if (!cond) return -1;`. -/
def require (cond : Bool) : Checked Unit := if cond then .ok () else .error .reject

namespace File

variable (f : File)

def size : UInt64 := .ofNat f.bytes.length

/-- The range lies in the file. -/
abbrev Holds (off : UInt64) (n : Nat) : Prop := Within 0 f.bytes.length off n

def slice (off : UInt64) (n : Nat) : List UInt8 := (f.bytes.drop off.toNat).take n

def byte (off : UInt64) : UInt8 := .ofNat (Endian.load (f.slice off 1))
def word16 (off : UInt64) : UInt16 := .ofNat (Endian.load (f.slice off 2))
def word32 (off : UInt64) : UInt32 := .ofNat (Endian.load (f.slice off 4))
def word64 (off : UInt64) : UInt64 := .ofNat (Endian.load (f.slice off 8))

/-- A read of `n` bytes. -/
def checked {α : Type} (off : UInt64) (n : Nat) (value : α) : Checked α :=
  if f.Holds off n then .ok value else .error .fault

def read32 (off : UInt64) : Checked UInt32 := f.checked off 4 (f.word32 off)
def read64 (off : UInt64) : Checked UInt64 := f.checked off 8 (f.word64 off)

/-! ## The header -/

/-- `sizeof(Elf64Ehdr)`. -/
def ehdrSize : Nat := 64

/-- `sizeof(Elf64Phdr)`. -/
def phdrSize : UInt64 := 56

def eType : UInt16 := f.word16 16
def eMachine : UInt16 := f.word16 18
def eEntry : UInt64 := f.word64 24
def ePhoff : UInt64 := f.word64 32
def ePhentsize : UInt16 := f.word16 54
def ePhnum : UInt16 := f.word16 56

def emX8664 : UInt16 := 62

def etExec : UInt16 := 2

def etDyn : UInt16 := 3

def elfCheckHeader : Bool :=
  f.slice 0 4 == [0x7F, 0x45, 0x4C, 0x46] && f.byte 4 == 2 && f.byte 5 == 1 &&
    f.eMachine == emX8664 && (f.eType == etExec || f.eType == etDyn) &&
    f.ePhoff != 0 && f.ePhnum != 0

/-! ## Program headers -/

def ptLoad : UInt32 := 1

/-- `&phdrs[i]`. -/
def phdrs (i : Nat) : UInt64 := f.ePhoff + phdrSize * .ofNat i

def pType (ph : UInt64) : UInt32 := f.word32 ph
def pOffset (ph : UInt64) : UInt64 := f.word64 (ph + 8)
def pVaddr (ph : UInt64) : UInt64 := f.word64 (ph + 16)
def pFilesz (ph : UInt64) : UInt64 := f.word64 (ph + 32)
def pMemsz (ph : UInt64) : UInt64 := f.word64 (ph + 40)

/-- The variables of the first loop over the program headers. -/
structure Span where
  lo : UInt64
  hi : UInt64
  anyLoad : Bool

def Span.empty : Span := ⟨0xFFFFFFFFFFFFFFFF, 0, false⟩

def Span.widen (s : Span) (vaddr memsz : UInt64) : Span where
  lo := if vaddr < s.lo then vaddr else s.lo
  hi := if s.hi < vaddr + memsz then vaddr + memsz else s.hi
  anyLoad := true

/-- One pass of the first loop. -/
def scanSegment (s : Span) (ph : UInt64) : Checked Span := do
  let type ← f.read32 ph
  if type ≠ ptLoad then return s
  let offset ← f.read64 (ph + 8)
  let filesz ← f.read64 (ph + 32)
  require (offset + filesz ≤ f.size)
  let memsz ← f.read64 (ph + 40)
  require (filesz ≤ memsz)
  let vaddr ← f.read64 (ph + 16)
  return s.widen vaddr memsz

/-- The first `n` passes. -/
def scanSegments : Nat → Checked Span
  | 0 => .ok .empty
  | n + 1 => do
      let s ← scanSegments n
      f.scanSegment s (f.phdrs n)

/-- The checks of `elf_load_image` before it allocates: the lowest and the highest
address of the segments. -/
def elfScan : Checked Span := do
  require (decide (ehdrSize ≤ f.bytes.length))
  require f.elfCheckHeader
  require (f.ePhoff + f.ePhnum.toUInt64 * f.ePhentsize.toUInt64 ≤ f.size)
  let s ← f.scanSegments f.ePhnum.toNat
  require (s.anyLoad && decide (s.lo < s.hi))
  return s

end File

/-! ## The image -/

def pageSize : UInt64 := 4096

/-- `DIV_CEIL (span, PAGE_SIZE)`. -/
def pageCountOf (span : UInt64) : UInt64 := (span + pageSize - 1) / pageSize

/-- The pages of an image and what its addresses are moved by. -/
structure Placed where
  base : UInt64
  pageCount : UInt64
  loadBias : UInt64
  deriving DecidableEq

/-- The number of bytes of the pages. -/
def Placed.room (p : Placed) : Nat := (p.pageCount * pageSize).toNat

/-- What the loader works on: the page allocator and the memory, at its addresses in the
direct map. -/
structure World where
  pmm : Mem.Pmm
  mem : Mem

variable (f : File) (hhdm : UInt64)

/-- `memcpy` of a segment into the pages of the image. -/
def copySegment (p : Placed) (mem : Mem) (ph : UInt64) : Checked Mem := do
  let type ← f.read32 ph
  if type ≠ File.ptLoad then return mem
  let vaddr ← f.read64 (ph + 16)
  let offset ← f.read64 (ph + 8)
  let filesz ← f.read64 (ph + 32)
  let src ← f.checked offset filesz.toNat (f.slice offset filesz.toNat)
  let dst := vaddr + p.loadBias
  if Within p.base p.room dst filesz.toNat then
    return store mem ⟨dst, src⟩
  else throw .fault

/-- The first `n` passes of the second loop. -/
def copySegments (p : Placed) (mem : Mem) : Nat → Checked Mem
  | 0 => .ok mem
  | n + 1 => do
      let mem ← copySegments p mem n
      copySegment f p mem (f.phdrs n)

/-- `elf_load_image` up to the relocations. -/
def elfLoadSegments (w : World) : Checked Placed × World :=
  match f.elfScan with
  | .error stop => (.error stop, w)
  | .ok s =>
      let pageCount := pageCountOf (s.hi - s.lo)
      match w.pmm.pmmAllocPages pageCount.toNat with
      | (none, _) => (.error .reject, w)
      | (some phys, pmm) =>
          let base := .ofNat phys + hhdm
          let p : Placed := ⟨base, pageCount, base - s.lo⟩
          let mem := store w.mem ⟨base, List.replicate p.room 0⟩
          match copySegments f p mem f.ePhnum.toNat with
          | .error stop => (.error stop, ⟨pmm, mem⟩)
          | .ok mem => (.ok p, ⟨pmm, mem⟩)

end Elf

/-!
# Relocating an ELF image

`elf_apply_relocations` and the end of `elf_load_image`.  The dynamic section is read from
the file, the tables and the symbols from the loaded image, at addresses that
`load_bias` moves.  A null pointer is the address 0.
-/

namespace Elf

open AddrSpace

def ptDynamic : UInt32 := 2

def dtNull : UInt64 := 0

def dtPltrelsz : UInt64 := 2

def dtSymtab : UInt64 := 6

def dtRela : UInt64 := 7

def dtRelasz : UInt64 := 8

def dtRelaent : UInt64 := 9

def dtRel : UInt64 := 17

def dtJmprel : UInt64 := 23

/-- `sizeof(Elf64Dyn)`. -/
def dynSize : UInt64 := 16

/-- `sizeof(Elf64Rela)`. -/
def relaSize : UInt64 := 24

/-- `sizeof(Elf64Sym)`. -/
def symSize : UInt64 := 24

def shnUndef : UInt16 := 0

/-- The relocation types of the loader. -/
def rNone : UInt32 := 0
def r64 : UInt32 := 1
def rGlobDat : UInt32 := 6
def rJumpSlot : UInt32 := 7
def rRelative : UInt32 := 8

/-! ## The dynamic section -/

/-- What `elf_apply_relocations` takes from the dynamic section. -/
structure Dynamic where
  relaVaddr : UInt64
  relaSize : UInt64
  relaEnt : UInt64
  jmprelVaddr : UInt64
  jmprelSize : UInt64
  symtabVaddr : UInt64
  deriving DecidableEq

def Dynamic.init : Dynamic := ⟨0, 0, Elf.relaSize, 0, 0, 0⟩

/-- The variable that the value of a tag goes to. -/
def Dynamic.slot? (d : Dynamic) (tag : UInt64) : Option (UInt64 → Dynamic) :=
  if tag = dtRela then some fun val => { d with relaVaddr := val }
  else if tag = dtRelasz then some fun val => { d with relaSize := val }
  else if tag = dtRelaent then some fun val => { d with relaEnt := val }
  else if tag = dtJmprel then some fun val => { d with jmprelVaddr := val }
  else if tag = dtPltrelsz then some fun val => { d with jmprelSize := val }
  else if tag = dtSymtab then some fun val => { d with symtabVaddr := val }
  else none

variable (f : File)

/-- The loop over at most `n` entries of the dynamic section, at `a` of the file. -/
def readDynamic (d : Dynamic) (a : UInt64) : Nat → Checked Dynamic
  | 0 => .ok d
  | n + 1 => do
      let tag ← f.read64 a
      if tag = dtNull then return d
      if tag = dtRel then throw .reject
      match d.slot? tag with
      | none => readDynamic d (a + dynSize) n
      | some set => do
          let val ← f.read64 (a + 8)
          readDynamic (set val) (a + dynSize) n

/-- The program headers in order. -/
def File.phdrList : List UInt64 := (List.range f.ePhnum.toNat).map f.phdrs

/-- The loop over the program headers: the first `PT_DYNAMIC` is read. -/
def elfDynamic : List UInt64 → Checked (Option Dynamic)
  | [] => .ok none
  | ph :: rest => do
      let type ← f.read32 ph
      if type ≠ ptDynamic then elfDynamic rest
      else do
        let offset ← f.read64 (ph + 8)
        let filesz ← f.read64 (ph + 32)
        require (offset + filesz ≤ f.size)
        let d ← readDynamic f .init offset (filesz / dynSize).toNat
        return some d

/-! ## The tables -/

def elf64RType (info : UInt64) : UInt32 := info.toUInt32

def elf64RSym (info : UInt64) : UInt32 := (info >>> 32).toUInt32

/-- `&symtab[i]`. -/
def symAt (symtab : UInt64) (i : UInt32) : UInt64 := symtab + symSize * i.toUInt64

section Tables

variable (symtab loadBias : UInt64)

/-- One pass of the loop of `elf_apply_rela_table`, on the entry at `rel`. -/
def applyRela (mem : Mem) (rel : UInt64) : Option Mem :=
  let info := load64 mem (rel + 8)
  let addend := load64 mem (rel + 16)
  let target := load64 mem rel + loadBias
  let type := elf64RType info
  if type = rNone then some mem
  else if type = rRelative then some (store mem (word64 target (addend + loadBias)))
  else if type ≠ r64 ∧ type ≠ rGlobDat ∧ type ≠ rJumpSlot then none
  else
    let sym := symAt symtab (elf64RSym info)
    if symtab = 0 ∨ elf64RSym info = 0 ∨ load16 mem (sym + 6) = shnUndef then none
    else
      let value := load64 mem (sym + 8) + loadBias
      some (store mem (word64 target (if type = r64 then value + addend else value)))

/-- `elf_apply_rela_table` on `n` entries; `false` is the result -1. -/
def elfApplyRelaTable : Nat → UInt64 → Mem → Mem × Bool
  | 0, _, mem => (mem, true)
  | n + 1, rel, mem =>
      match applyRela symtab loadBias mem rel with
      | none => (mem, false)
      | some mem => elfApplyRelaTable n (rel + relaSize) mem

/-- A table that is there is applied. -/
def applyTable (vaddr size ent : UInt64) (mem : Mem) : Mem × Bool :=
  if vaddr ≠ 0 ∧ size ≠ 0 then
    elfApplyRelaTable symtab loadBias (size / ent).toNat (vaddr + loadBias) mem
  else (mem, true)

end Tables

/-- The end of `elf_apply_relocations`: the two tables that the dynamic section names. -/
def applyTables (d : Dynamic) (loadBias : UInt64) (mem : Mem) : Mem × Checked Unit :=
  let symtab := if d.symtabVaddr ≠ 0 then d.symtabVaddr + loadBias else 0
  match applyTable symtab loadBias d.relaVaddr d.relaSize d.relaEnt mem with
  | (mem, false) => (mem, .error .reject)
  | (mem, true) =>
      match applyTable symtab loadBias d.jmprelVaddr d.jmprelSize relaSize mem with
      | (mem, false) => (mem, .error .reject)
      | (mem, true) => (mem, .ok ())

def elfApplyRelocations (loadBias : UInt64) (mem : Mem) : Mem × Checked Unit :=
  match elfDynamic f f.phdrList with
  | .error stop => (mem, .error stop)
  | .ok none => (mem, .ok ())
  | .ok (some d) =>
      if d.relaEnt ≠ relaSize then (mem, .error .reject)
      else applyTables d loadBias mem

/-! ## The image -/

structure ElfImage where
  base : UInt64
  pageCount : UInt64
  entry : UInt64
  loadBias : UInt64
  deriving DecidableEq

/-- What is stored through `out`. -/
def elfImage (p : Placed) : ElfImage :=
  ⟨p.base, p.pageCount, f.eEntry + p.loadBias, p.loadBias⟩

def elfLoadImage (hhdm : UInt64) (w : World) : Checked ElfImage × World :=
  match elfLoadSegments f hhdm w with
  | (.error stop, w) => (.error stop, w)
  | (.ok p, w) =>
      if f.eType = File.etDyn then
        match elfApplyRelocations f p.loadBias w.mem with
        | (mem, .ok ()) => (.ok (elfImage f p), ⟨w.pmm, mem⟩)
        | (mem, .error .fault) => (.error .fault, ⟨w.pmm, mem⟩)
        | (mem, .error .reject) =>
            let phys := (p.base - hhdm).toNat
            (.error .reject, ⟨w.pmm.pmmFreePages (some phys) p.pageCount.toNat, mem⟩)
      else (.ok (elfImage f p), w)

end Elf
