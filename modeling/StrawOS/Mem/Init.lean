import StrawOS.Mem.Calls

/-!
# Initialisation of the page allocator

After `pmm_init` the clear bits below `total_pages` are the pages of the usable
entries less those of the bitmap and of the kernel.  The counter is their number
only if the loop over the pages of the kernel, which does not look at
`total_pages`, finds no clear bit in the memory behind the bitmap.
-/

namespace Mem

/-- The memory map is one: usable entries are made of pages and apart from one
another, and the largest has room for the bitmap. -/
structure BootInfo.Valid (boot : BootInfo) : Prop where
  aligned : ∀ e ∈ boot.usable, pageSize ∣ e.base ∧ pageSize ∣ e.length
  inRange : ∀ e ∈ boot.usable, e.base + e.length < wrap
  disjoint : boot.usable.Pairwise fun e f =>
    ∀ a, e.base ≤ a → a < e.base + e.length → ¬(f.base ≤ a ∧ a < f.base + f.length)
  holdsBitmap : boot.bitmapSize ≤ boot.best.2
  kernel : boot.kstart ≤ boot.kend ∧ boot.kend + pageSize < wrap

/-- The pages of the kernel beyond the last bit of the bitmap read as taken. -/
def BootInfo.KernelMarked (boot : BootInfo) : Prop :=
  ∀ p, boot.kstartPage ≤ p → p < boot.kendPage → 8 * boot.bitmapSize ≤ p → boot.ram p = true

/-- A page of an entry. -/
def Entry.HasPage (e : Entry) (p : Nat) : Prop :=
  e.base / pageSize ≤ p ∧ p < e.base / pageSize + e.length / pageSize

variable {boot : BootInfo} {m : Pmm}

/-! ## Marking pages -/

/-- Pages of a range beyond the bound that are not marked. -/
def strays (m : Pmm) (start n : Nat) : Finset Nat :=
  (m.having false start n).filter fun p => m.totalPages ≤ p

/-- Marking keeps the counter right but for the pages beyond the bound. -/
theorem mark_spec (hc : Counted 0 m) (start n : Nat) :
    (m.sweep Pmm.markPage start n).bitmap = Bitmap.fill m.bitmap true start n ∧
      (m.sweep Pmm.markPage start n).highestAddr = m.highestAddr ∧
      (m.sweep Pmm.markPage start n).freePages < wrap ∧
      ((m.sweep Pmm.markPage start n).freePages + (strays m start n).card) % wrap =
        (Bitmap.free (Bitmap.fill m.bitmap true start n) m.totalPages).card := by
  obtain ⟨h1, h2, h3, h4⟩ := Pmm.sweep_mark m start n hc.fits
  refine ⟨h1, h2, h3, ?_⟩
  have hsplit : (m.having false start n).card =
      (strays m start n).card + (Bitmap.free m.bitmap m.totalPages ∩
        Finset.Ico start (start + n)).card := by
    have hpart := Finset.card_filter_add_card_filter_not (s := m.having false start n)
      (fun p => m.totalPages ≤ p)
    have hin : (m.having false start n).filter (fun p => ¬m.totalPages ≤ p) =
        Bitmap.free m.bitmap m.totalPages ∩ Finset.Ico start (start + n) := by
      ext p
      simp only [Pmm.having, Finset.mem_filter, Finset.mem_inter, Bitmap.mem_free, Nat.not_le]
      constructor
      · intro hp
        exact ⟨⟨hp.2, hp.1.2⟩, hp.1.1⟩
      · intro hp
        exact ⟨⟨hp.2, hp.1.2⟩, hp.1.1⟩
    rw [hin] at hpart
    exact hpart.symm
  have hrest := Finset.card_sdiff_add_card_inter (Bitmap.free m.bitmap m.totalPages)
    (Finset.Ico start (start + n))
  have heq := hc.exact
  have hlt := hc.fits
  rw [Bitmap.free_fill_true]
  simp only [wrap] at h3 h4 hlt ⊢
  omega

/-! ## Opening the usable entries -/

theorem open_spec (es : List Entry) (hc : Counted 0 m)
    (hbound : ∀ e ∈ es, ∀ p, e.HasPage p → p < m.totalPages ∧ m.bitmap p = true)
    (hdisj : es.Pairwise fun e f => ∀ p, e.HasPage p → ¬f.HasPage p) :
    Counted 0 (es.foldl (fun m e => m.sweep Pmm.addPage (e.base / pageSize) (e.length / pageSize)) m) ∧
      (es.foldl (fun m e => m.sweep Pmm.addPage (e.base / pageSize) (e.length / pageSize))
        m).highestAddr = m.highestAddr ∧
      ∀ p, (es.foldl (fun m e => m.sweep Pmm.addPage (e.base / pageSize) (e.length / pageSize))
        m).bitmap p = false ↔ m.bitmap p = false ∨ ∃ e ∈ es, e.HasPage p := by
  induction es generalizing m with
  | nil => exact ⟨hc, rfl, by simp⟩
  | cons e es ih =>
    obtain ⟨hfirst, hrest⟩ := List.pairwise_cons.mp hdisj
    obtain ⟨h1, h2, h3⟩ := Pmm.sweep_add m (e.base / pageSize) (e.length / pageSize) hc.fits
    have htaken : ∀ p, e.base / pageSize ≤ p → p < e.base / pageSize + e.length / pageSize →
        p < m.totalPages ∧ m.bitmap p = true := fun p ha hb =>
      hbound e List.mem_cons_self p ⟨ha, hb⟩
    have hcard := Bitmap.card_free_give htaken
    have htotal : (m.sweep Pmm.addPage (e.base / pageSize) (e.length / pageSize)).totalPages =
        m.totalPages := by rw [Pmm.totalPages, h2]; rfl
    have hle := card_free_le (Bitmap.fill m.bitmap false (e.base / pageSize) (e.length / pageSize))
      m.totalPages
    have hc' : Counted 0 (m.sweep Pmm.addPage (e.base / pageSize) (e.length / pageSize)) := by
      refine ⟨?_, by rw [h3]; exact Nat.mod_lt _ (by decide), by rw [htotal]; exact hc.total⟩
      rw [htotal, h1, h3, hcard, hc.exact, Nat.add_zero, Nat.mod_mod]
      apply Nat.mod_eq_of_lt
      have := hc.total
      omega
    have hbits : ∀ p, (m.sweep Pmm.addPage (e.base / pageSize) (e.length / pageSize)).bitmap p =
        false ↔ m.bitmap p = false ∨ e.HasPage p := by
      intro p
      rw [h1, Bitmap.fill]
      by_cases hp : e.base / pageSize ≤ p ∧ p < e.base / pageSize + e.length / pageSize
      · rw [if_pos hp]
        exact iff_of_true rfl (Or.inr hp)
      · rw [if_neg hp]
        exact ⟨Or.inl, fun h => h.resolve_right hp⟩
    obtain ⟨i1, i2, i3⟩ := ih hc' (by
      intro f hf p hp
      obtain ⟨hlt, hbit⟩ := hbound f (List.mem_cons_of_mem _ hf) p hp
      refine ⟨by rw [htotal]; exact hlt, ?_⟩
      rw [← Bool.not_eq_false, hbits]
      rintro (hold | hnew)
      · rw [hbit] at hold
        simp at hold
      · exact hfirst f hf p hnew hp) hrest
    refine ⟨i1, i2.trans h2, ?_⟩
    intro p
    rw [List.foldl_cons, i3, hbits, List.exists_mem_cons_iff, or_assoc]

/-! ## The bounds -/

theorem foldl_max_le (es : List Entry) (top : Nat) :
    top ≤ es.foldl (fun top e => max top (e.base + e.length)) top ∧
      ∀ e ∈ es, e.base + e.length ≤ es.foldl (fun top e => max top (e.base + e.length)) top := by
  induction es generalizing top with
  | nil => simp
  | cons e es ih => grind

theorem foldl_max_lt {es : List Entry} {top bound : Nat} (htop : top < bound)
    (hes : ∀ e ∈ es, e.base + e.length < bound) :
    es.foldl (fun top e => max top (e.base + e.length)) top < bound := by
  induction es generalizing top with
  | nil => exact htop
  | cons e es ih => grind

theorem foldl_best (es : List Entry) (best : Nat × Nat) :
    es.foldl (fun best e => if best.2 < e.length then (e.base, e.length) else best) best = best ∨
      ∃ e ∈ es, (e.base, e.length) =
        es.foldl (fun best e => if best.2 < e.length then (e.base, e.length) else best) best := by
  induction es generalizing best with
  | nil => exact Or.inl rfl
  | cons e es ih => grind

namespace BootInfo

theorem Valid.best_mem (h : boot.Valid) (hphys : boot.bitmapPhys ≠ 0) :
    ∃ e ∈ boot.usable, e.base = boot.bitmapPhys ∧ boot.bitmapSize ≤ e.length := by
  rcases foldl_best boot.usable (0, 0) with heq | ⟨e, he, heq⟩
  · exact absurd (congrArg Prod.fst heq) hphys
  · refine ⟨e, he, congrArg Prod.fst heq, ?_⟩
    have hlen : e.length = boot.best.2 := congrArg Prod.snd heq
    rw [hlen]
    exact h.holdsBitmap

theorem Valid.highest_lt (h : boot.Valid) : boot.highestAddr < wrap :=
  foldl_max_lt (by decide) h.inRange

theorem Valid.total_lt (h : boot.Valid) : boot.totalPages < wrap :=
  Nat.lt_of_le_of_lt (Nat.div_le_self _ _) h.highest_lt

theorem Valid.page_lt (h : boot.Valid) {e : Entry} (he : e ∈ boot.usable) {p : Nat}
    (hp : e.HasPage p) : p < boot.totalPages := by
  have htop := (foldl_max_le boot.usable 0).2 e he
  obtain ⟨⟨b, hb⟩, ⟨l, hl⟩⟩ := h.aligned e he
  have hle : e.base + e.length ≤ boot.highestAddr := htop
  rw [totalPages]
  simp only [Entry.HasPage, pageSize] at hp hb hl ⊢
  omega

theorem Valid.page_bytes (h : boot.Valid) {e : Entry} (he : e ∈ boot.usable) {a : Nat} :
    e.HasPage (a / pageSize) ↔ e.base ≤ a ∧ a < e.base + e.length := by
  obtain ⟨⟨b, hb⟩, ⟨l, hl⟩⟩ := h.aligned e he
  simp only [Entry.HasPage, pageSize] at hb hl ⊢
  omega

theorem Valid.pages_disjoint (h : boot.Valid) :
    boot.usable.Pairwise fun e f => ∀ p, e.HasPage p → ¬f.HasPage p := by
  refine h.disjoint.imp_of_mem ?_
  intro e f he hf hdisj p hpe hpf
  have hdiv : p * pageSize / pageSize = p := Nat.mul_div_cancel _ (by decide)
  rw [← hdiv] at hpe hpf
  obtain ⟨h1, h2⟩ := (h.page_bytes he).mp hpe
  exact hdisj _ h1 h2 ((h.page_bytes hf).mp hpf)

theorem blank_taken (boot : BootInfo) {p : Nat} (hp : p < boot.totalPages) :
    boot.blank.bitmap p = true := by
  show (if p < 8 * boot.bitmapSize then true else boot.ram p) = true
  rw [if_pos]
  rw [bitmapSize]
  omega

theorem Valid.blank_counted (h : boot.Valid) : Counted 0 boot.blank := by
  refine ⟨?_, show 0 < wrap by decide, h.total_lt⟩
  have hempty : Bitmap.free boot.blank.bitmap boot.blank.totalPages = ∅ := by
    ext p
    rw [Bitmap.mem_free]
    constructor
    · intro hp
      have htaken := boot.blank_taken hp.1
      rw [hp.2] at htaken
      simp at htaken
    · simp
  rw [hempty]
  rfl

theorem Valid.opened_spec (h : boot.Valid) : Counted 0 boot.opened ∧
    boot.opened.highestAddr = boot.highestAddr ∧ ∀ p, boot.opened.bitmap p = false ↔
      boot.blank.bitmap p = false ∨ ∃ e ∈ boot.usable, e.HasPage p :=
  open_spec boot.usable h.blank_counted
    (fun _ he _ hp => ⟨h.page_lt he hp, boot.blank_taken (h.page_lt he hp)⟩) h.pages_disjoint

theorem Valid.bitmap_page (h : boot.Valid) (hphys : boot.bitmapPhys ≠ 0) {p : Nat}
    (h1 : boot.bitmapStartPage ≤ p) (h2 : p < boot.bitmapStartPage + boot.bitmapPages) :
    p < boot.totalPages := by
  obtain ⟨e, he, hbase, hlen⟩ := h.best_mem hphys
  refine h.page_lt he ?_
  obtain ⟨⟨b, hb⟩, ⟨l, hl⟩⟩ := h.aligned e he
  rw [bitmapStartPage] at h1 h2
  rw [bitmapPages] at h2
  simp only [Entry.HasPage, pageSize] at h1 h2 hb hl ⊢
  omega

theorem Valid.reserved_spec (h : boot.Valid) (hphys : boot.bitmapPhys ≠ 0) :
    Counted 0 boot.reserved ∧ boot.reserved.highestAddr = boot.highestAddr ∧
      boot.reserved.bitmap =
        Bitmap.fill boot.opened.bitmap true boot.bitmapStartPage boot.bitmapPages := by
  obtain ⟨hc, hhigh, -⟩ := h.opened_spec
  obtain ⟨h1, h2, h3, h4⟩ := mark_spec hc boot.bitmapStartPage boot.bitmapPages
  have hnone : strays boot.opened boot.bitmapStartPage boot.bitmapPages = ∅ := by
    ext p
    simp only [strays, Pmm.having, Finset.mem_filter, Finset.mem_Ico, Finset.notMem_empty,
      iff_false]
    rintro ⟨⟨⟨ha, hb⟩, -⟩, hle⟩
    have hlt := h.bitmap_page hphys ha hb
    rw [Pmm.totalPages, hhigh] at hle
    exact Nat.not_lt.mpr hle hlt
  rw [hnone, Finset.card_empty, Nat.add_zero, Nat.mod_eq_of_lt h3] at h4
  refine ⟨⟨?_, h3, ?_⟩, h2.trans hhigh, h1⟩
  · rw [Nat.add_zero, Pmm.totalPages, reserved, h2, h1, Nat.mod_eq_of_lt h3]
    exact h4
  · rw [Pmm.totalPages, reserved, h2]
    exact hc.total

/-- Beyond the bound nothing has been touched before the kernel is marked. -/
theorem Valid.reserved_beyond (h : boot.Valid) (hphys : boot.bitmapPhys ≠ 0) {p : Nat}
    (hp : boot.totalPages ≤ p) : boot.reserved.bitmap p = boot.blank.bitmap p := by
  obtain ⟨-, -, hbits⟩ := h.reserved_spec hphys
  obtain ⟨-, -, hopen⟩ := h.opened_spec
  have hnot : ¬(boot.bitmapStartPage ≤ p ∧ p < boot.bitmapStartPage + boot.bitmapPages) :=
    fun hr => Nat.not_lt.mpr hp (h.bitmap_page hphys hr.1 hr.2)
  rw [hbits, Bitmap.fill, if_neg hnot]
  have hno : ¬∃ e ∈ boot.usable, e.HasPage p := by
    rintro ⟨e, he, hpe⟩
    exact Nat.not_lt.mpr hp (h.page_lt he hpe)
  have hiff := hopen p
  rw [or_iff_left hno] at hiff
  cases hb : boot.blank.bitmap p with
  | false => exact hiff.mpr hb
  | true =>
    rw [← Bool.not_eq_false, hiff, hb]
    simp

end BootInfo

/-! ## The result of `pmm_init` -/

theorem pmmInit_eq (h : pmmInit boot = some m) : boot.bitmapPhys ≠ 0 ∧
    m = boot.reserved.sweep Pmm.markPage boot.kstartPage (boot.kendPage - boot.kstartPage) := by
  rw [pmmInit] at h
  split at h
  · simp at h
  · rename_i hphys
    exact ⟨hphys, (Option.some.inj h).symm⟩

/-- The free pages after `pmm_init` are usable and hold neither bitmap nor kernel. -/
theorem pmmInit_free (hv : boot.Valid) (h : pmmInit boot = some m) : m.totalPages = boot.totalPages ∧
    ∀ p ∈ Bitmap.free m.bitmap m.totalPages, (∃ e ∈ boot.usable, e.HasPage p) ∧
      ¬(boot.bitmapStartPage ≤ p ∧ p < boot.bitmapStartPage + boot.bitmapPages) ∧
      ¬(boot.kstartPage ≤ p ∧ p < boot.kendPage) := by
  obtain ⟨hphys, rfl⟩ := pmmInit_eq h
  obtain ⟨hc, hhigh, hbits⟩ := hv.reserved_spec hphys
  obtain ⟨h1, h2, -, -⟩ := mark_spec hc boot.kstartPage (boot.kendPage - boot.kstartPage)
  obtain ⟨-, -, hopen⟩ := hv.opened_spec
  have htotal : (boot.reserved.sweep Pmm.markPage boot.kstartPage
      (boot.kendPage - boot.kstartPage)).totalPages = boot.totalPages := by
    rw [Pmm.totalPages, h2, hhigh]
    rfl
  refine ⟨htotal, ?_⟩
  intro p hp
  rw [Bitmap.mem_free, htotal, h1, Bitmap.fill] at hp
  obtain ⟨hlt, hbit⟩ := hp
  split at hbit
  · simp at hbit
  rw [hbits, Bitmap.fill] at hbit
  split at hbit
  · simp at hbit
  rename_i hmap
  rcases (hopen p).mp hbit with hblank | he
  · rw [boot.blank_taken hlt] at hblank
    simp at hblank
  · exact ⟨he, hmap, by omega⟩

/-- The pages of the kernel beyond the bitmap whose bits happen to be clear. -/
def BootInfo.stray (boot : BootInfo) : Finset Nat :=
  (Finset.Ico boot.kstartPage boot.kendPage).filter fun p =>
    8 * boot.bitmapSize ≤ p ∧ boot.ram p = false

theorem BootInfo.stray_card_lt (hv : boot.Valid) : boot.stray.card < wrap := by
  have hle := Finset.card_filter_le (Finset.Ico boot.kstartPage boot.kendPage) fun p =>
    8 * boot.bitmapSize ≤ p ∧ boot.ram p = false
  have hk := hv.kernel.2
  rw [Nat.card_Ico] at hle
  change boot.stray.card ≤ _ at hle
  simp only [BootInfo.kendPage, pageSize, wrap] at hle hk ⊢
  omega

theorem BootInfo.kernelMarked_iff : boot.KernelMarked ↔ boot.stray.card = 0 := by
  rw [Finset.card_eq_zero]
  constructor
  · intro hmarked
    ext p
    simp only [BootInfo.stray, Finset.mem_filter, Finset.mem_Ico, Finset.notMem_empty, iff_false]
    rintro ⟨⟨h1, h2⟩, h3, hram⟩
    rw [hmarked p h1 h2 h3] at hram
    simp at hram
  · intro hempty p h1 h2 h3
    by_contra hram
    have hmem : p ∈ boot.stray := by
      simp only [BootInfo.stray, Finset.mem_filter, Finset.mem_Ico]
      exact ⟨⟨h1, h2⟩, h3, by simpa using hram⟩
    rw [hempty] at hmem
    simp at hmem

/-- **The counter after `pmm_init`.**  It is short of the number of clear bits by the
number of stray pages. -/
theorem pmmInit_counted (hv : boot.Valid) (h : pmmInit boot = some m) :
    Counted boot.stray.card m := by
  obtain ⟨hphys, rfl⟩ := pmmInit_eq h
  obtain ⟨hc, hhigh, -⟩ := hv.reserved_spec hphys
  obtain ⟨h1, h2, h3, h4⟩ := mark_spec hc boot.kstartPage (boot.kendPage - boot.kstartPage)
  have htotal : boot.reserved.totalPages = boot.totalPages := by rw [Pmm.totalPages, hhigh]; rfl
  have hstray : strays boot.reserved boot.kstartPage (boot.kendPage - boot.kstartPage) =
      boot.stray := by
    ext p
    simp only [strays, Pmm.having, BootInfo.stray, Finset.mem_filter, Finset.mem_Ico, htotal]
    constructor
    · rintro ⟨⟨⟨ha, hb⟩, hbit⟩, hle⟩
      rw [hv.reserved_beyond hphys hle] at hbit
      change (if p < 8 * boot.bitmapSize then true else boot.ram p) = false at hbit
      split at hbit
      · simp at hbit
      · exact ⟨⟨ha, by omega⟩, by omega, hbit⟩
    · rintro ⟨⟨ha, hb⟩, hle, hram⟩
      have hbound : boot.totalPages ≤ p := by
        rw [BootInfo.bitmapSize] at hle
        omega
      refine ⟨⟨⟨ha, by omega⟩, ?_⟩, hbound⟩
      rw [hv.reserved_beyond hphys hbound]
      show (if p < 8 * boot.bitmapSize then true else boot.ram p) = false
      rw [if_neg (by omega), hram]
  rw [hstray] at h4
  have htotal' : (boot.reserved.sweep Pmm.markPage boot.kstartPage
      (boot.kendPage - boot.kstartPage)).totalPages = boot.reserved.totalPages := by
    rw [Pmm.totalPages, h2]
    rfl
  refine ⟨?_, h3, ?_⟩
  · rw [htotal', h1]
    exact h4
  · rw [htotal']
    exact hc.total

/-- The counter is the number of clear bits exactly if there are no stray pages. -/
theorem pmmInit_exact_iff (hv : boot.Valid) (h : pmmInit boot = some m) :
    m.freePages = (Bitmap.free m.bitmap m.totalPages).card ↔ boot.KernelMarked := by
  have hc := pmmInit_counted hv h
  have heq := hc.eq
  have hlt := hc.fits
  have hfew := BootInfo.stray_card_lt hv
  rw [BootInfo.kernelMarked_iff]
  simp only [wrap] at heq hlt hfew
  omega

end Mem
