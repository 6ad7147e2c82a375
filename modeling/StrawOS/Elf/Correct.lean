import StrawOS.Elf.Tables

/-!
# What a loaded image holds

For a file in bounds the loader computes the image that its headers describe: the bytes of
the segments in the order of their headers, then the values of the relocations in the
order of the tables, the last one that covers an address winning.  Relocations are made
in `ET_DYN` images alone.
-/

namespace Elf

open AddrSpace

/-- The headers and sections of a file are in bounds, without a sum that wraps. -/
structure File.InBounds (f : File) : Prop extends f.WellFormed where
  entries : f.ePhoff.toNat + f.ePhnum.toNat * f.ePhentsize.toNat ≤ f.bytes.length
  dynamic : ∀ ph, f.phdrList.find? (fun ph => f.pType ph == ptDynamic) = some ph →
    (f.pOffset ph).toNat + (f.pFilesz ph).toNat ≤ f.bytes.length

/-- What the segments put where, at virtual addresses. -/
def File.segmentWrites (f : File) : List Write :=
  (f.phdrList.filter fun ph => f.pType ph == File.ptLoad).map fun ph =>
    ⟨f.pVaddr ph, f.slice (f.pOffset ph) (f.pFilesz ph).toNat⟩

/-- `load_bias` of the image at an address. -/
def File.biasAt (f : File) (base : UInt64) : UInt64 := base - f.span.lo

/-- The memory with the segments loaded, at virtual addresses. -/
def File.loadedView (f : File) (base : UInt64) (mem : Mem) : Mem :=
  shift (f.biasAt base)
    (storeAll (cleared f base mem) (f.segmentWrites.map (Write.up (f.biasAt base))))

/-- What the relocations of the image put where. -/
def File.imageRelocations (f : File) (base : UInt64) (mem : Mem) : List Write :=
  if f.eType = File.etDyn then f.relocationWrites (f.biasAt base) (f.loadedView base mem) else []

/-- The image can be loaded: it is not empty, there are pages for it, and its relocations
are supported, if they are looked at. -/
def Loadable (f : File) (hhdm : UInt64) (w : World) : Prop :=
  f.span.lo < f.span.hi ∧ ∃ phys pmm, w.pmm.pmmAllocPages f.pages = (some phys, pmm) ∧
    (f.eType = File.etDyn → f.Relocatable (f.biasAt (.ofNat phys + hhdm))
      (f.loadedView (.ofNat phys + hhdm) w.mem))

/-- The image that was loaded. -/
structure Image (f : File) (hhdm : UInt64) (w : World) (img : ElfImage) (w' : World) : Prop where
  pages : ∃ phys, w.pmm.pmmAllocPages f.pages = (some phys, w'.pmm) ∧
    img.base = .ofNat phys + hhdm
  pageCount : img.pageCount = pageCountOf (f.span.hi - f.span.lo)
  loadBias : img.loadBias = img.base - f.span.lo
  entry : img.entry = f.eEntry + img.loadBias
  bytes : ∀ v, (v - f.span.lo).toNat < (img.pageCount * pageSize).toNat →
    w'.mem (img.base + (v - f.span.lo)) =
      (lastByte? (f.segmentWrites ++ f.imageRelocations img.base w.mem) v).getD 0

variable {f : File} {hhdm base : UInt64} {w : World} {mem : Mem} {n : Nat}

theorem copied_eq (f : File) (p : Placed) (mem : Mem) (n : Nat) :
    copied f p mem n = storeAll mem ((((List.range n).map f.phdrs).filter fun ph =>
      f.pType ph == File.ptLoad).map (segmentWrite f p)) := by
  induction n with
  | zero => rfl
  | succ n ih =>
    rw [List.range_succ, List.map_append, List.filter_append, List.map_append, storeAll_append,
      ← ih, copied, copyStep]
    by_cases hl : f.pType (f.phdrs n) = File.ptLoad
    · simp [hl]
    · simp [hl]

theorem copied_segments : copied f (placedAt f base) mem f.ePhnum.toNat =
    storeAll mem (f.segmentWrites.map (Write.up (f.biasAt base))) := by
  rw [copied_eq, File.segmentWrites, List.map_map]
  rfl

theorem File.InBounds.not_refused (h : f.InBounds) (hlt : f.span.lo < f.span.hi) : ¬ f.Refused := by
  have hsize := f.size_lt
  refine File.not_refused h.size h.header ?_ ?_ fun _ => hlt
  · have hentries := h.entries
    have hmul : (f.ePhnum.toUInt64 * f.ePhentsize.toUInt64).toNat =
        f.ePhnum.toNat * f.ePhentsize.toNat := by
      rw [UInt64.toNat_mul, UInt16.toNat_toUInt64, UInt16.toNat_toUInt64]
      exact Nat.mod_eq_of_lt (by omega)
    rw [UInt64.le_iff_toNat_le, File.size_toNat, File.toNat_add_of_lt (by omega), hmul]
    exact hentries
  · rintro ⟨i, hi, -, -, hpass⟩
    exact hpass (h.scans i hi).2

/-- The checks before the allocation accept a file in bounds that is not empty. -/
theorem File.InBounds.elfScan (h : f.InBounds) (hlt : f.span.lo < f.span.hi) :
    f.elfScan = .ok f.span := by
  rcases File.elfScan_cases (f := f) with ⟨href, -⟩ | ⟨-, -, -, hok⟩ | ⟨-, hscans, -⟩
  · exact absurd href (h.not_refused hlt)
  · exact hok
  · exact absurd h.scans hscans

theorem File.InBounds.elfScan_empty (h : f.InBounds) (hle : ¬ f.span.lo < f.span.hi) :
    f.elfScan = .error .reject := by
  rcases File.elfScan_cases (f := f) with ⟨-, hreject⟩ | ⟨-, -, hlt, -⟩ | ⟨-, hscans, -⟩
  · exact hreject
  · exact absurd hlt hle
  · exact absurd h.scans hscans

theorem File.InBounds.held (h : f.InBounds) :
    ∀ ph ∈ f.phdrList, ph.toNat + 56 ≤ f.bytes.length := by
  intro ph hmem
  obtain ⟨i, hi, rfl⟩ := List.mem_map.mp hmem
  exact File.phdrs_toNat h.toWellFormed (List.mem_range.mp hi)

/-! ## The three ways the loader ends -/

theorem elfLoadImage_reject (h : elfLoadSegments f hhdm w = (.error .reject, w)) :
    elfLoadImage f hhdm w = (.error .reject, w) := by
  rw [elfLoadImage, h]

section Allocated

variable {phys : Nat} {pmm : Mem.Pmm} (hin : f.InBounds) (hlt : f.span.lo < f.span.hi)
  (hsome : w.pmm.pmmAllocPages f.pages = (some phys, pmm)) (hbase : base = .ofNat phys + hhdm)

include hin hlt hsome hbase

theorem elfLoadSegments_inBounds : elfLoadSegments f hhdm w = (.ok (placedAt f base),
    ⟨pmm, storeAll (cleared f base w.mem) (f.segmentWrites.map (Write.up (f.biasAt base)))⟩) := by
  subst hbase
  rw [elfLoadSegments_wellFormed hin.toWellFormed (hin.elfScan hlt) hlt hsome]
  dsimp only
  rw [copied_segments]

/-- An image whose relocations are supported is loaded, and relocated if it is `ET_DYN`. -/
theorem elfLoadImage_ok (hrel : f.eType = File.etDyn →
      f.Relocatable (f.biasAt base) (f.loadedView base w.mem)) :
    elfLoadImage f hhdm w = (.ok (elfImage f (placedAt f base)), ⟨pmm,
      storeAll (cleared f base w.mem)
        ((f.segmentWrites ++ f.imageRelocations base w.mem).map (Write.up (f.biasAt base)))⟩) := by
  rw [elfLoadImage, elfLoadSegments_inBounds hin hlt hsome hbase, File.imageRelocations,
    List.map_append, storeAll_append]
  dsimp only
  by_cases hdyn : f.eType = File.etDyn
  · have happly := (elfApplyRelocations_eq hin.held hin.dynamic).1 (hrel hdyn)
    rw [if_pos hdyn, if_pos hdyn]
    rw [show (placedAt f base).loadBias = f.biasAt base from rfl, happly]
    rfl
  · rw [if_neg hdyn, if_neg hdyn]
    rfl

/-- An `ET_DYN` image with a relocation that is not supported is refused, and its pages
are free again. -/
theorem elfLoadImage_unsupported (hw : w.pmm.Words) (hdyn : f.eType = File.etDyn)
    (hrel : ¬ f.Relocatable (f.biasAt base) (f.loadedView base w.mem)) :
    ∃ mem', elfLoadImage f hhdm w = (.error .reject, ⟨w.pmm, mem'⟩) := by
  have happly := (elfApplyRelocations_eq hin.held hin.dynamic).2 hrel
  rw [elfLoadImage, elfLoadSegments_inBounds hin hlt hsome hbase]
  dsimp only
  have hbias : (placedAt f base).loadBias = f.biasAt base := rfl
  rw [if_pos hdyn, hbias]
  generalize elfApplyRelocations f (f.biasAt base) _ = got at happly
  obtain ⟨mem', result⟩ := got
  subst happly
  have hphys : (base - hhdm).toNat = phys := by
    have hsub : base - hhdm = .ofNat phys := by grind
    rw [hsub, UInt64.toNat_ofNat']
    exact Nat.mod_eq_of_lt (Mem.pmmAllocPages_lt hw hsome)
  refine ⟨mem', ?_⟩
  change (_, World.mk (pmm.pmmFreePages (some (base - hhdm).toNat) f.pages) mem') = _
  rw [hphys, Mem.pmmFreePages_pmmAllocPages hw hsome]

end Allocated

theorem cleared_byte {v : UInt64} (hv : (v - f.span.lo).toNat < (placedAt f base).room) :
    shift (f.biasAt base) (cleared f base mem) v = 0 := by
  have hsub : v + f.biasAt base - base = v - f.span.lo := by
    rw [File.biasAt]
    grind
  rw [shift, cleared, store, Write.byte?, hsub, List.getElem?_replicate, if_pos hv]
  rfl

/-- The last write that covers an address of the image decides what is there. -/
theorem image_bytes (base : UInt64) (mem : Mem) (writes : List Write) {v : UInt64}
    (hv : (v - f.span.lo).toNat < (placedAt f base).room) :
    storeAll (cleared f base mem) (writes.map (Write.up (f.biasAt base)))
      (base + (v - f.span.lo)) = (lastByte? writes v).getD 0 := by
  have haddr : base + (v - f.span.lo) = v + f.biasAt base := by
    rw [File.biasAt]
    grind
  have hshift := congrFun (@shift_storeAll (cleared f base mem) (f.biasAt base) writes) v
  rw [storeAll_apply, cleared_byte hv] at hshift
  rw [haddr]
  exact hshift

theorem image_of_loaded {phys : Nat} {pmm : Mem.Pmm}
    (hsome : w.pmm.pmmAllocPages f.pages = (some phys, pmm)) (hbase : base = .ofNat phys + hhdm) :
    Image f hhdm w (elfImage f (placedAt f base)) ⟨pmm, storeAll (cleared f base w.mem)
      ((f.segmentWrites ++ f.imageRelocations base w.mem).map (Write.up (f.biasAt base)))⟩ where
  pages := ⟨phys, hsome, hbase⟩
  pageCount := rfl
  loadBias := rfl
  entry := rfl
  bytes _ hv := image_bytes base w.mem _ hv

/-- What the loader owes to its caller. -/
structure Correct (f : File) (hhdm : UInt64) (w : World) : Prop where
  loaded_iff : (∃ img w', elfLoadImage f hhdm w = (.ok img, w')) ↔ Loadable f hhdm w
  image : ∀ img w', elfLoadImage f hhdm w = (.ok img, w') → Image f hhdm w img w'
  freed : ∀ stop w', elfLoadImage f hhdm w = (.error stop, w') →
    stop = .reject ∧ w'.pmm = w.pmm

theorem correct_of_ok {img : ElfImage} {w' : World} (h : elfLoadImage f hhdm w = (.ok img, w'))
    (himage : Image f hhdm w img w') (hload : Loadable f hhdm w) : Correct f hhdm w := by
  refine ⟨⟨fun _ => hload, fun _ => ⟨img, w', h⟩⟩, ?_, ?_⟩
  · grind
  · intro stop w₂ h₂
    exact absurd (Prod.mk.inj (h.symm.trans h₂)).1 nofun

theorem correct_of_reject {w' : World} (h : elfLoadImage f hhdm w = (.error .reject, w'))
    (hpmm : w'.pmm = w.pmm) (hload : ¬ Loadable f hhdm w) : Correct f hhdm w := by
  refine ⟨⟨?_, fun hl => absurd hl hload⟩, ?_, ?_⟩
  · rintro ⟨img, w₂, h₂⟩
    exact absurd (Prod.mk.inj (h.symm.trans h₂)).1 nofun
  · intro img w₂ h₂
    exact absurd (Prod.mk.inj (h.symm.trans h₂)).1 nofun
  · grind

/-- **A file in bounds is loaded exactly when it can be; the image then holds what its
headers describe, and otherwise all pages are free again.** -/
theorem elfLoadImage_correct (f : File) (hhdm : UInt64) (w : World) (hin : f.InBounds)
    (hw : w.pmm.Words) : Correct f hhdm w := by
  by_cases hlt : f.span.lo < f.span.hi
  swap
  · have hreject : elfLoadSegments f hhdm w = (.error .reject, w) :=
      elfLoadSegments_reject (hin.elfScan_empty hlt)
    exact correct_of_reject (elfLoadImage_reject hreject) rfl fun h => hlt h.1
  cases hgot : w.pmm.pmmAllocPages f.pages with
  | mk page pmm =>
    cases page with
    | none =>
      have hnone : (w.pmm.pmmAllocPages f.pages).1 = none := by rw [hgot]
      have hreject : elfLoadSegments f hhdm w = (.error .reject, w) :=
        elfLoadSegments_none (hin.elfScan hlt) hnone
      refine correct_of_reject (elfLoadImage_reject hreject) rfl ?_
      rintro ⟨-, phys, pmm', hsome, -⟩
      simp [hsome] at hnone
    | some phys =>
      have hbias : ∀ phys', (∃ pmm', w.pmm.pmmAllocPages f.pages = (some phys', pmm')) →
          phys' = phys := by
        rintro phys' ⟨pmm', h⟩
        simpa using (congrArg Prod.fst (h.symm.trans hgot))
      by_cases hrel : f.eType = File.etDyn → f.Relocatable (f.biasAt (.ofNat phys + hhdm))
          (f.loadedView (.ofNat phys + hhdm) w.mem)
      · exact correct_of_ok (elfLoadImage_ok hin hlt hgot rfl hrel) (image_of_loaded hgot rfl)
          ⟨hlt, phys, pmm, hgot, hrel⟩
      · obtain ⟨hdyn, hunsupported⟩ := Classical.not_imp.mp hrel
        obtain ⟨mem', hreject⟩ := elfLoadImage_unsupported hin hlt hgot rfl hw hdyn hunsupported
        refine correct_of_reject hreject rfl ?_
        rintro ⟨-, phys', pmm', hsome, hrel'⟩
        obtain rfl := hbias phys' ⟨pmm', hsome⟩
        exact hrel hrel'

/-! ## A file -/

/-- A file of a type with one segment, itself, and one relocation, of a kind, at 0xE0. -/
def oneRelocation (type kind : Nat) : File where
  bytes := [0x00010102464C457F, 0, 0x1003E0000 + type, 0xB0, 0x40, 0, 0x0038004000000000, 2,
    0x500000001, 0, 0, 0, 0xF8, 0xF8, 0, 0x500000002, 0xB0, 0xB0, 0xB0, 0x30, 0x30, 0,
    7, 0xE0, 8, 0x18, 0, 0, 0x40, kind, 0x80].flatMap (Endian.store 8)
  size_lt := by simp

/-- Two pages, both free. -/
def twoPages : World := ⟨⟨fun _ => false, 8192, 2, 2⟩, fun _ => 0⟩

theorem twoPages_words : twoPages.pmm.Words := ⟨by decide, by decide⟩

theorem dynamic_of_find {p : UInt64}
    (hfirst : f.phdrList.find? (fun ph => f.pType ph == ptDynamic) = some p)
    (hp : (f.pOffset p).toNat + (f.pFilesz p).toNat ≤ f.bytes.length) :
    ∀ ph, f.phdrList.find? (fun ph => f.pType ph == ptDynamic) = some ph →
      (f.pOffset ph).toNat + (f.pFilesz ph).toNat ≤ f.bytes.length := by
  intro ph hfind
  obtain rfl := Option.some.inj (hfirst.symm.trans hfind)
  exact hp

theorem oneRelocation_inBounds {type kind : Nat}
    (h : (type = 2 ∧ kind = 5) ∨ (type = 3 ∧ kind = 8)) : (oneRelocation type kind).InBounds := by
  obtain ⟨rfl, rfl⟩ | ⟨rfl, rfl⟩ := h
  all_goals
    exact ⟨⟨by decide +kernel, by decide +kernel, by decide +kernel, by decide +kernel,
      ⟨0, by decide +kernel, by decide +kernel⟩⟩, by decide +kernel,
      dynamic_of_find (p := 120) (by decide +kernel) (by decide +kernel)⟩

theorem oneRelocation_pages {type kind : Nat}
    (h : (twoPages.pmm.pmmAllocPages (oneRelocation type kind).pages).1 = some 0) :
    ∃ pmm, twoPages.pmm.pmmAllocPages (oneRelocation type kind).pages = (some 0, pmm) :=
  ⟨_, Prod.ext h rfl⟩

/-- The relocation of an `ET_DYN` image, `R_X86_64_RELATIVE`, is made. -/
theorem oneRelocation_correct : ∃ img w',
    elfLoadImage (oneRelocation 3 8) 0xFFFF800000000000 twoPages = (.ok img, w') ∧
      Image (oneRelocation 3 8) 0xFFFF800000000000 twoPages img w' := by
  have hcorrect := elfLoadImage_correct (oneRelocation 3 8) 0xFFFF800000000000 twoPages
    (oneRelocation_inBounds (.inr ⟨rfl, rfl⟩)) twoPages_words
  have hload : Loadable (oneRelocation 3 8) 0xFFFF800000000000 twoPages := by
    have hdynamic : (oneRelocation 3 8).dynamic? = some [(7, 0xE0), (8, 0x18)] := by
      decide +kernel
    obtain ⟨pmm, hsome⟩ := @oneRelocation_pages 3 8 (by decide +kernel)
    refine ⟨by decide +kernel, 0, pmm, hsome, fun _ es hes => ?_⟩
    obtain rfl := Option.some.inj (hdynamic.symm.trans hes)
    refine ⟨by decide, by decide +kernel, ?_⟩
    exact ⟨.inr (.inl (by decide +kernel)), trivial⟩
  obtain ⟨img, w', hok⟩ := hcorrect.loaded_iff.mpr hload
  exact ⟨img, w', hok, hcorrect.image img w' hok⟩

/-- The relocation of an `ET_EXEC` image is not looked at, here one of a kind that is not
supported. -/
theorem executable_not_relocated : (oneRelocation 2 5).InBounds ∧
    (∃ img w', elfLoadImage (oneRelocation 2 5) 0xFFFF800000000000 twoPages = (.ok img, w')) ∧
    ¬ (oneRelocation 2 5).Relocatable ((oneRelocation 2 5).biasAt 0xFFFF800000000000)
      ((oneRelocation 2 5).loadedView 0xFFFF800000000000 twoPages.mem) := by
  have hin : (oneRelocation 2 5).InBounds := oneRelocation_inBounds (.inl ⟨rfl, rfl⟩)
  obtain ⟨pmm, hsome⟩ := @oneRelocation_pages 2 5 (by decide +kernel)
  refine ⟨hin, ⟨_, _, elfLoadImage_ok hin (by decide +kernel) hsome rfl ?_⟩, fun hrel => ?_⟩
  · intro hdyn
    exact absurd hdyn (by decide +kernel)
  · obtain ⟨-, -, hall⟩ := hrel [(7, 0xE0), (8, 0x18)] (by decide +kernel)
    have hentries : (Dynamic.init.over [(7, 0xE0), (8, 0x18)]).entries = [0xE0] := by
      decide +kernel
    rw [hentries] at hall
    have htype : relaType ((oneRelocation 2 5).loadedView 0xFFFF800000000000 twoPages.mem) 0xE0 =
        5 := by decide +kernel
    rcases hall.1 with h | h | ⟨h | h | h, -⟩ <;> rw [htype] at h <;> exact absurd h (by decide)

end Elf
