import StrawOS.Elf.Image

/-!
# What the loader reads and writes

The checks of the loader are sums of 64 bits that wrap, and the table of program headers
is checked with the entry size of the file but read with that of the compiler.  An image
is *well formed* when the same checks hold of the sums themselves.
-/

namespace Elf

open AddrSpace

namespace File

variable (f : File) {s : Span} {ph : UInt64} {n : Nat}

/-- The fields of a program header that the first loop reads lie in the file. -/
def Held (ph : UInt64) : Prop :=
  f.Holds ph 4 ∧ (f.pType ph = ptLoad →
    f.Holds (ph + 8) 8 ∧ f.Holds (ph + 32) 8 ∧ (f.pOffset ph + f.pFilesz ph ≤ f.size →
      f.Holds (ph + 40) 8 ∧ (f.pFilesz ph ≤ f.pMemsz ph → f.Holds (ph + 16) 8)))

/-- The two checks of the loop on a segment. -/
def Passes (ph : UInt64) : Prop :=
  f.pType ph = ptLoad →
    f.pOffset ph + f.pFilesz ph ≤ f.size ∧ f.pFilesz ph ≤ f.pMemsz ph

/-- The loop gets through all headers. -/
def Scans (n : Nat) : Prop := ∀ i < n, f.Held (f.phdrs i) ∧ f.Passes (f.phdrs i)

/-- The loop reaches a header whose segment it refuses. -/
def RefusesSegment : Prop :=
  ∃ i < f.ePhnum.toNat, f.Scans i ∧ f.Held (f.phdrs i) ∧ ¬ f.Passes (f.phdrs i)

def spanStep (s : Span) (ph : UInt64) : Span :=
  if f.pType ph = ptLoad then s.widen (f.pVaddr ph) (f.pMemsz ph) else s

/-- The span of the first `n` headers. -/
def spanTo : Nat → Span
  | 0 => .empty
  | n + 1 => f.spanStep (spanTo n) (f.phdrs n)

def span : Span := f.spanTo f.ePhnum.toNat

/-- The loader's own checks refuse the file. -/
def Refused : Prop :=
  f.bytes.length < ehdrSize ∨ f.elfCheckHeader = false ∨
    f.size < f.ePhoff + f.ePhnum.toUInt64 * f.ePhentsize.toUInt64 ∨ f.RefusesSegment ∨
    (f.Scans f.ePhnum.toNat ∧ f.span.hi ≤ f.span.lo)

/-- What the checks of the loader stand for, with sums that do not wrap and for the
headers that it reads. -/
structure WellFormed : Prop where
  size : ehdrSize ≤ f.bytes.length
  header : f.elfCheckHeader = true
  table : f.ePhoff.toNat + phdrSize.toNat * f.ePhnum.toNat ≤ f.bytes.length
  segments : ∀ i < f.ePhnum.toNat, f.pType (f.phdrs i) = ptLoad →
    (f.pOffset (f.phdrs i)).toNat + (f.pFilesz (f.phdrs i)).toNat ≤ f.bytes.length ∧
      f.pFilesz (f.phdrs i) ≤ f.pMemsz (f.phdrs i) ∧
      (f.pVaddr (f.phdrs i)).toNat + (f.pMemsz (f.phdrs i)).toNat < 2 ^ 64
  load : ∃ i < f.ePhnum.toNat, f.pType (f.phdrs i) = ptLoad

/-! ## The first loop -/

variable {f}

theorem checked_bind {α β : Type} {off : UInt64} {value : α} {k : α → Checked β} :
    (f.checked off n value >>= k) = if f.Holds off n then k value else .error .fault := by
  rw [checked]
  split <;> rfl

theorem require_bind {β : Type} {cond : Bool} {k : Unit → Checked β} :
    (require cond >>= k) = if cond then k () else .error .reject := by
  cases cond <;> rfl

theorem scanSegment_eq : f.scanSegment s ph =
    if f.Holds ph 4 then
      if f.pType ph = ptLoad then
        if f.Holds (ph + 8) 8 then
          if f.Holds (ph + 32) 8 then
            if f.pOffset ph + f.pFilesz ph ≤ f.size then
              if f.Holds (ph + 40) 8 then
                if f.pFilesz ph ≤ f.pMemsz ph then
                  if f.Holds (ph + 16) 8 then .ok (s.widen (f.pVaddr ph) (f.pMemsz ph))
                  else .error .fault
                else .error .reject
              else .error .fault
            else .error .reject
          else .error .fault
        else .error .fault
      else .ok s
    else .error .fault := by
  simp only [scanSegment, read32, read64, checked_bind, require_bind, decide_eq_true_eq, ite_not,
    pType, pOffset, pFilesz, pMemsz, pVaddr]
  rfl

theorem scanSegment_ok (hheld : f.Held ph) (hpass : f.Passes ph) :
    f.scanSegment s ph = .ok (f.spanStep s ph) := by
  rw [scanSegment_eq, spanStep, if_pos hheld.1]
  by_cases hl : f.pType ph = ptLoad
  · obtain ⟨hoff, hfilesz, hrest⟩ := hheld.2 hl
    obtain ⟨hrange, hmem⟩ := hpass hl
    simp [hl, hoff, hfilesz, hrange, hmem, hrest hrange]
  · simp [hl]

theorem scanSegment_reject (hheld : f.Held ph) (hpass : ¬ f.Passes ph) :
    f.scanSegment s ph = .error .reject := by
  obtain ⟨hl, hfail⟩ := Classical.not_imp.mp hpass
  obtain ⟨hoff, hfilesz, hrest⟩ := hheld.2 hl
  rw [scanSegment_eq, if_pos hheld.1, if_pos hl, if_pos hoff, if_pos hfilesz]
  by_cases hrange : f.pOffset ph + f.pFilesz ph ≤ f.size
  · have hmem : ¬ f.pFilesz ph ≤ f.pMemsz ph := fun h => hfail ⟨hrange, h⟩
    rw [if_pos hrange, if_pos (hrest hrange).1, if_neg hmem]
  · rw [if_neg hrange]

theorem scanSegment_fault (hheld : ¬ f.Held ph) : f.scanSegment s ph = .error .fault := by
  rw [scanSegment_eq]
  unfold Held at hheld
  grind

/-- The loop gets through all headers, or ends at the first that is not in the file or
does not pass. -/
theorem scanSegments_eq (n : Nat) :
    (f.Scans n ∧ f.scanSegments n = .ok (f.spanTo n)) ∨
      (∃ i < n, f.Scans i ∧ f.Held (f.phdrs i) ∧ ¬ f.Passes (f.phdrs i) ∧
        f.scanSegments n = .error .reject) ∨
      (∃ i < n, f.Scans i ∧ ¬ f.Held (f.phdrs i) ∧ f.scanSegments n = .error .fault) := by
  induction n with
  | zero => exact .inl ⟨fun i hi => absurd hi (Nat.not_lt_zero i), rfl⟩
  | succ n ih =>
    rcases ih with ⟨hscans, heq⟩ | ⟨i, hi, hscans, hheld, hpass, heq⟩ | ⟨i, hi, hscans, hheld, heq⟩
    · have hstep : f.scanSegments (n + 1) = f.scanSegment (f.spanTo n) (f.phdrs n) := by
        rw [scanSegments, heq]
        rfl
      by_cases hheld : f.Held (f.phdrs n)
      · by_cases hpass : f.Passes (f.phdrs n)
        · refine .inl ⟨?_, by rw [hstep, scanSegment_ok hheld hpass, spanTo]⟩
          intro i hi
          rcases Nat.lt_succ_iff_lt_or_eq.mp hi with hlt | rfl
          · exact hscans i hlt
          · exact ⟨hheld, hpass⟩
        · exact .inr (.inl ⟨n, n.lt_succ_self, hscans, hheld, hpass,
            by rw [hstep, scanSegment_reject hheld hpass]⟩)
      · exact .inr (.inr ⟨n, n.lt_succ_self, hscans, hheld, by rw [hstep, scanSegment_fault hheld]⟩)
    · refine .inr (.inl ⟨i, by omega, hscans, hheld, hpass, ?_⟩)
      rw [scanSegments, heq]
      rfl
    · refine .inr (.inr ⟨i, by omega, hscans, hheld, ?_⟩)
      rw [scanSegments, heq]
      rfl

theorem anyLoad_of_lt (h : (f.spanTo n).lo < (f.spanTo n).hi) : (f.spanTo n).anyLoad = true := by
  have hempty : ∀ n, (f.spanTo n).anyLoad = false → f.spanTo n = .empty := by
    intro n
    induction n with
    | zero => intro _; rfl
    | succ n ih =>
      rw [spanTo, spanStep]
      split
      · intro h
        exact absurd h (by simp [Span.widen])
      · exact ih
  by_contra hno
  rw [hempty n (by simpa using hno)] at h
  exact absurd h (by decide)

/-- A header that is out of the file ends the loop before any it refuses. -/
theorem not_refusesSegment {i : Nat} (hscans : f.Scans i) (hheld : ¬ f.Held (f.phdrs i)) :
    ¬ f.RefusesSegment := by
  rintro ⟨j, _, hj, hjheld, hjpass⟩
  rcases Nat.lt_trichotomy i j with hlt | rfl | hlt
  · exact hheld (hj i hlt).1
  · exact hheld hjheld
  · exact hjpass (hscans j hlt).2

theorem not_refused (hsize : ehdrSize ≤ f.bytes.length) (hcheck : f.elfCheckHeader = true)
    (htable : f.ePhoff + f.ePhnum.toUInt64 * f.ePhentsize.toUInt64 ≤ f.size)
    (hno : ¬ f.RefusesSegment) (hspan : f.Scans f.ePhnum.toNat → f.span.lo < f.span.hi) :
    ¬ f.Refused := by
  rintro (h | h | h | h | ⟨hscans, h⟩)
  · omega
  · simp [hcheck] at h
  · exact absurd htable (by simpa using h)
  · exact hno h
  · exact absurd (hspan hscans) (by simpa using h)

theorem elfScan_cases :
    (f.Refused ∧ f.elfScan = .error .reject) ∨
      (¬ f.Refused ∧ f.Scans f.ePhnum.toNat ∧ f.span.lo < f.span.hi ∧ f.elfScan = .ok f.span) ∨
      (¬ f.Refused ∧ ¬ f.Scans f.ePhnum.toNat ∧ f.elfScan = .error .fault) := by
  by_cases hsize : ehdrSize ≤ f.bytes.length
  swap
  · refine .inl ⟨.inl (Nat.lt_of_not_le hsize), ?_⟩
    simp [elfScan, require_bind, hsize]
  by_cases hcheck : f.elfCheckHeader = true
  swap
  · refine .inl ⟨.inr (.inl (by simpa using hcheck)), ?_⟩
    simp [elfScan, require_bind, hsize, hcheck]
  by_cases htable : f.ePhoff + f.ePhnum.toUInt64 * f.ePhentsize.toUInt64 ≤ f.size
  swap
  · refine .inl ⟨.inr (.inr (.inl (by simpa using htable))), ?_⟩
    simp [elfScan, require_bind, hsize, hcheck, htable]
  have heq : f.elfScan = f.scanSegments f.ePhnum.toNat >>= fun s =>
      require (s.anyLoad && decide (s.lo < s.hi)) >>= fun _ => .ok s := by
    simp only [elfScan, require_bind, hsize, hcheck, htable, decide_true, if_true]
    rfl
  rcases scanSegments_eq f.ePhnum.toNat with ⟨hscans, hscan⟩ | ⟨i, hi, hs, hh, hp, hscan⟩ |
    ⟨i, hi, hs, hh, hscan⟩
  · have hno : ¬ f.RefusesSegment := fun ⟨i, hi, _, _, hpass⟩ => hpass (hscans i hi).2
    by_cases hlt : f.span.lo < f.span.hi
    · have hany : f.span.anyLoad = true := anyLoad_of_lt hlt
      refine .inr (.inl ⟨not_refused hsize hcheck htable hno fun _ => hlt, hscans, hlt, ?_⟩)
      rw [heq, hscan]
      show (require (f.span.anyLoad && decide (f.span.lo < f.span.hi)) >>= fun _ => _) = _
      rw [require_bind, if_pos (by simp [hlt, hany])]
      rfl
    · refine .inl ⟨.inr (.inr (.inr (.inr ⟨hscans, by simpa using hlt⟩))), ?_⟩
      rw [heq, hscan]
      show (require (f.span.anyLoad && decide (f.span.lo < f.span.hi)) >>= fun _ => _) = _
      rw [require_bind, if_neg (by simp [hlt])]
  · refine .inl ⟨.inr (.inr (.inr (.inl ⟨i, hi, hs, hh, hp⟩))), ?_⟩
    rw [heq, hscan]
    rfl
  · have hnot : ¬ f.Scans f.ePhnum.toNat := fun h => hh (h i hi).1
    refine .inr (.inr ⟨?_, hnot, ?_⟩)
    · exact not_refused hsize hcheck htable (not_refusesSegment hs hh) fun h => absurd h hnot
    · rw [heq, hscan]
      rfl

/-! ## Well formed images -/

theorem size_toNat : f.size.toNat = f.bytes.length :=
  Nat.mod_eq_of_lt f.size_lt

theorem toNat_add_of_lt {a b : UInt64} (h : a.toNat + b.toNat < 2 ^ 64) :
    (a + b).toNat = a.toNat + b.toNat :=
  Nat.mod_eq_of_lt h

theorem holds_of_le {off : UInt64} (h : off.toNat + n ≤ f.bytes.length) : f.Holds off n := by
  right
  simpa using h

theorem phdrs_toNat (hwf : f.WellFormed) {i : Nat} (hi : i < f.ePhnum.toNat) :
    (f.phdrs i).toNat + 56 ≤ f.bytes.length := by
  have htable := hwf.table
  have hlt := f.size_lt
  have h56 : phdrSize.toNat = 56 := rfl
  rw [h56] at htable
  have hmul : (phdrSize * UInt64.ofNat i).toNat = 56 * i := by
    rw [UInt64.toNat_mul, UInt64.toNat_ofNat', h56]
    omega
  rw [phdrs, toNat_add_of_lt (by omega), hmul]
  omega

theorem field_holds {k : UInt64} (h : ph.toNat + 56 ≤ f.bytes.length) (hk : k.toNat + n ≤ 56) :
    f.Holds (ph + k) n := by
  have hlt := f.size_lt
  apply holds_of_le
  rw [toNat_add_of_lt (by omega)]
  omega

theorem WellFormed.scans (hwf : f.WellFormed) : f.Scans f.ePhnum.toNat := by
  intro i hi
  have hin := phdrs_toNat hwf hi
  refine ⟨⟨holds_of_le (by omega), fun hl => ⟨field_holds hin (by decide),
    field_holds hin (by decide), fun _ => ⟨field_holds hin (by decide),
    fun _ => field_holds hin (by decide)⟩⟩⟩, ?_⟩
  intro hl
  obtain ⟨hrange, hmem, -⟩ := hwf.segments i hi hl
  have hlt := f.size_lt
  refine ⟨?_, hmem⟩
  rw [UInt64.le_iff_toNat_le, toNat_add_of_lt (by omega), size_toNat]
  exact hrange

theorem spanTo_bounds {i : Nat} (hi : i < n) (hl : f.pType (f.phdrs i) = ptLoad)
    (hend : (f.pVaddr (f.phdrs i)).toNat + (f.pMemsz (f.phdrs i)).toNat < 2 ^ 64) :
    (f.spanTo n).lo ≤ f.pVaddr (f.phdrs i) ∧
      (f.pVaddr (f.phdrs i)).toNat + (f.pMemsz (f.phdrs i)).toNat ≤ (f.spanTo n).hi.toNat := by
  induction n with
  | zero => exact absurd hi (Nat.not_lt_zero i)
  | succ n ih =>
    have hwiden : ∀ (s : Span) v m, (s.widen v m).lo ≤ s.lo ∧ (s.widen v m).lo ≤ v ∧
        s.hi ≤ (s.widen v m).hi ∧ v + m ≤ (s.widen v m).hi := by
      simp only [Span.widen]
      grind
    rw [spanTo, spanStep]
    rcases Nat.lt_succ_iff_lt_or_eq.mp hi with hlt | rfl
    · obtain ⟨hlo, hhi⟩ := ih hlt
      split
      · obtain ⟨h1, -, h3, -⟩ := hwiden (f.spanTo n) (f.pVaddr (f.phdrs n)) (f.pMemsz (f.phdrs n))
        exact ⟨UInt64.le_trans h1 hlo, hhi.trans (UInt64.le_iff_toNat_le.mp h3)⟩
      · exact ⟨hlo, hhi⟩
    · obtain ⟨-, h2, -, h4⟩ := hwiden (f.spanTo i) (f.pVaddr (f.phdrs i)) (f.pMemsz (f.phdrs i))
      rw [if_pos hl, ← toNat_add_of_lt hend]
      exact ⟨h2, UInt64.le_iff_toNat_le.mp h4⟩

end File

/-! ## The second loop -/

variable {f : File} {p : Placed} {mem : Mem} {ph : UInt64} {n : Nat}

/-- What the copy of a segment writes. -/
def segmentWrite (f : File) (p : Placed) (ph : UInt64) : Write :=
  ⟨f.pVaddr ph + p.loadBias, f.slice (f.pOffset ph) (f.pFilesz ph).toNat⟩

def copyStep (f : File) (p : Placed) (mem : Mem) (ph : UInt64) : Mem :=
  if f.pType ph = File.ptLoad then store mem (segmentWrite f p ph) else mem

/-- The memory after the copies of the first `n` headers. -/
def copied (f : File) (p : Placed) (mem : Mem) : Nat → Mem
  | 0 => mem
  | n + 1 => copyStep f p (copied f p mem n) (f.phdrs n)

/-- The segment lies in the file and its place in the pages of the image. -/
def Copyable (f : File) (p : Placed) (ph : UInt64) : Prop :=
  f.Holds (f.pOffset ph) (f.pFilesz ph).toNat ∧
    Within p.base p.room (f.pVaddr ph + p.loadBias) (f.pFilesz ph).toNat

theorem copySegment_ok (hheld : f.Held ph) (hpass : f.Passes ph)
    (hcopy : f.pType ph = File.ptLoad → Copyable f p ph) :
    copySegment f p mem ph = .ok (copyStep f p mem ph) := by
  simp only [copySegment, File.read32, File.read64, File.checked_bind, copyStep]
  rw [if_pos hheld.1]
  by_cases hl : f.pType ph = File.ptLoad
  · obtain ⟨hoff, hfilesz, hrest⟩ := hheld.2 hl
    obtain ⟨hrange, hmem⟩ := hpass hl
    obtain ⟨hsrc, hdst⟩ := hcopy hl
    have hvaddr := (hrest hrange).2 hmem
    rw [if_pos hl]
    simp only [File.pType, File.pOffset, File.pFilesz, File.pVaddr] at hl hsrc hdst
    rw [if_neg (not_not.mpr hl), if_pos hvaddr, if_pos hoff, if_pos hfilesz, if_pos hsrc,
      if_pos hdst]
    rfl
  · rw [if_neg hl, if_pos (show f.word32 ph ≠ File.ptLoad from hl)]
    rfl

theorem copySegments_ok (hscans : f.Scans n)
    (hcopy : ∀ i < n, f.pType (f.phdrs i) = File.ptLoad → Copyable f p (f.phdrs i)) :
    copySegments f p mem n = .ok (copied f p mem n) := by
  induction n with
  | zero => rfl
  | succ n ih =>
    have hprev := ih (fun i hi => hscans i (by omega)) fun i hi => hcopy i (by omega)
    obtain ⟨hheld, hpass⟩ := hscans n n.lt_succ_self
    rw [copySegments, hprev, copied]
    exact copySegment_ok hheld hpass (hcopy n n.lt_succ_self)

/-- A copy is refused by nothing: it is made, or it is out of bounds. -/
theorem copySegment_ne_reject : copySegment f p mem ph ≠ .error .reject := by
  simp only [copySegment, File.read32, File.read64, File.checked_bind]
  intro h
  repeat' split at h
  all_goals exact absurd h (by simp [pure, Except.pure, throw, throwThe, MonadExceptOf.throw])

theorem copySegments_ne_reject : copySegments f p mem n ≠ .error .reject := by
  induction n with
  | zero => exact nofun
  | succ n ih =>
    rw [copySegments]
    generalize copySegments f p mem n = prev at ih
    cases prev with
    | error stop => exact ih
    | ok mem => exact copySegment_ne_reject

theorem span_le_room {span : UInt64} (h : pageCountOf span ≠ 0) :
    span.toNat ≤ (pageCountOf span * pageSize).toNat := by
  have hlt := span.toNat_lt
  have hcount : (pageCountOf span).toNat = (span.toNat + 4095) % 18446744073709551616 / 4096 := by
    have hadd : span + pageSize - 1 = span + 4095 := by
      rw [pageSize]
      grind
    rw [pageCountOf, hadd, UInt64.toNat_div, UInt64.toNat_add]
    rfl
  have hpos : (pageCountOf span).toNat ≠ 0 := fun h0 => h (UInt64.toNat_inj.mp h0)
  rw [UInt64.toNat_mul, hcount]
  simp only [pageSize]
  have h4096 : (4096 : UInt64).toNat = 4096 := rfl
  rw [h4096]
  omega

/-- The image when its pages are there. -/
def placedAt (f : File) (base : UInt64) : Placed :=
  ⟨base, pageCountOf (f.span.hi - f.span.lo), base - f.span.lo⟩

/-- Every segment of a well formed image is copied from the file into the pages. -/
theorem copyable_of_wellFormed (hwf : f.WellFormed) (hlt : f.span.lo < f.span.hi) {base : UInt64}
    (hpages : pageCountOf (f.span.hi - f.span.lo) ≠ 0) {i : Nat} (hi : i < f.ePhnum.toNat)
    (hl : f.pType (f.phdrs i) = File.ptLoad) :
    Copyable f (placedAt f base) (f.phdrs i) := by
  obtain ⟨hrange, hmem, hend⟩ := hwf.segments i hi hl
  obtain ⟨hlo, hhi⟩ : f.span.lo ≤ _ ∧ _ ≤ f.span.hi.toNat := File.spanTo_bounds hi hl hend
  have hroom := span_le_room hpages
  have hmem := UInt64.le_iff_toNat_le.mp hmem
  rw [UInt64.toNat_sub_of_le _ _ (UInt64.le_of_lt hlt)] at hroom
  refine ⟨File.holds_of_le hrange, .inr ?_⟩
  have hsub : f.pVaddr (f.phdrs i) + (base - f.span.lo) - base =
      f.pVaddr (f.phdrs i) - f.span.lo := by grind
  have hle := UInt64.le_iff_toNat_le.mp hlo
  simp only [placedAt, Placed.room, hsub]
  rw [UInt64.toNat_sub_of_le _ _ hlo]
  omega

/-! ## Confinement -/

/-- The loader reads in the file and writes in the pages of the image, and refuses a file
that is not well formed, with nothing allocated. -/
structure Confined (f : File) (hhdm : UInt64) (w : World) : Prop where
  inside : (elfLoadSegments f hhdm w).1 ≠ .error .fault
  refused : ¬ f.WellFormed → elfLoadSegments f hhdm w = (.error .reject, w)

/-- The number of pages asked for. -/
def File.pages (f : File) : Nat := (pageCountOf (f.span.hi - f.span.lo)).toNat

theorem elfLoadSegments_reject (h : f.elfScan = .error .reject) {hhdm : UInt64} {w : World} :
    elfLoadSegments f hhdm w = (.error .reject, w) := by
  rw [elfLoadSegments, h]

/-- The memory with the pages of an image cleared. -/
def cleared (f : File) (base : UInt64) (mem : Mem) : Mem :=
  store mem ⟨base, List.replicate (placedAt f base).room 0⟩

variable {hhdm : UInt64} {w : World}

theorem elfLoadSegments_none (h : f.elfScan = .ok f.span)
    (hnone : (w.pmm.pmmAllocPages f.pages).1 = none) :
    elfLoadSegments f hhdm w = (.error .reject, w) := by
  rw [elfLoadSegments, h]
  dsimp only
  rw [show (pageCountOf (f.span.hi - f.span.lo)).toNat = f.pages from rfl]
  generalize w.pmm.pmmAllocPages f.pages = got at hnone ⊢
  obtain ⟨phys, pmm⟩ := got
  subst hnone
  rfl

theorem elfLoadSegments_some (h : f.elfScan = .ok f.span) {phys : Nat} {pmm : Mem.Pmm}
    (hsome : w.pmm.pmmAllocPages f.pages = (some phys, pmm)) :
    elfLoadSegments f hhdm w =
      let base := .ofNat phys + hhdm
      match copySegments f (placedAt f base) (cleared f base w.mem) f.ePhnum.toNat with
      | .error stop => (.error stop, ⟨pmm, cleared f base w.mem⟩)
      | .ok mem => (.ok (placedAt f base), ⟨pmm, mem⟩) := by
  rw [elfLoadSegments, h]
  dsimp only
  rw [show (pageCountOf (f.span.hi - f.span.lo)).toNat = f.pages from rfl, hsome]
  rfl

theorem elfLoadSegments_wellFormed (hwf : f.WellFormed) (h : f.elfScan = .ok f.span)
    (hlt : f.span.lo < f.span.hi) {phys : Nat} {pmm : Mem.Pmm}
    (hsome : w.pmm.pmmAllocPages f.pages = (some phys, pmm)) :
    elfLoadSegments f hhdm w =
      let base := .ofNat phys + hhdm
      (.ok (placedAt f base),
        ⟨pmm, copied f (placedAt f base) (cleared f base w.mem) f.ePhnum.toNat⟩) := by
  have hpages : pageCountOf (f.span.hi - f.span.lo) ≠ 0 := by
    intro h0
    have hzero : f.pages = 0 := by rw [File.pages, h0]; rfl
    rw [hzero, Mem.Pmm.pmmAllocPages] at hsome
    split at hsome
    · simp at hsome
    · rename_i hfit
      exact absurd (Bitmap.firstFit_spec hfit).1 (Nat.lt_irrefl 0)
  rw [elfLoadSegments_some h hsome]
  dsimp only
  rw [copySegments_ok hwf.scans fun i hi hl => copyable_of_wellFormed hwf hlt hpages hi hl]

/-- **The loader is confined exactly when the image is well formed, or its own checks
refuse it before they have read too far, or there is no run of free pages for it.** -/
theorem confined_iff (f : File) (hhdm : UInt64) (w : World) :
    Confined f hhdm w ↔ f.Refused ∨ f.WellFormed ∨
      (f.Scans f.ePhnum.toNat ∧ (w.pmm.pmmAllocPages f.pages).1 = none) := by
  rcases File.elfScan_cases (f := f) with ⟨href, hscan⟩ | ⟨href, hscans, hlt, hscan⟩ |
    ⟨href, hscans, hscan⟩
  · have hreject : elfLoadSegments f hhdm w = (.error .reject, w) := elfLoadSegments_reject hscan
    exact ⟨fun _ => .inl href, fun _ => ⟨by simp [hreject], fun _ => hreject⟩⟩
  · generalize hgot : w.pmm.pmmAllocPages f.pages = got
    obtain ⟨_ | phys, pmm⟩ := got
    · have hreject : elfLoadSegments f hhdm w = (.error .reject, w) :=
        elfLoadSegments_none hscan (by rw [hgot])
      exact ⟨fun _ => .inr (.inr ⟨hscans, rfl⟩), fun _ => ⟨by simp [hreject], fun _ => hreject⟩⟩
    · constructor
      · intro hconf
        refine .inr (.inl ?_)
        by_contra hwf
        have heq := congrArg Prod.fst (hconf.refused hwf)
        rw [elfLoadSegments_some hscan hgot] at heq
        dsimp only at heq
        generalize hcopy : copySegments f _ _ _ = end_ at heq
        cases end_ with
        | error stop =>
          obtain rfl : stop = .reject := by simpa using heq
          exact copySegments_ne_reject hcopy
        | ok mem => exact absurd heq (by simp)
      · rintro (h | hwf | ⟨-, h⟩)
        · exact absurd h href
        · have hok : elfLoadSegments f hhdm w = _ := elfLoadSegments_wellFormed hwf hscan hlt hgot
          exact ⟨by simp [hok], fun h => absurd hwf h⟩
        · exact absurd h (by simp)
  · have hfault : elfLoadSegments f hhdm w = (.error .fault, w) := by rw [elfLoadSegments, hscan]
    constructor
    · intro hconf
      exact absurd (congrArg Prod.fst hfault) hconf.inside
    · rintro (h | hwf | ⟨h, -⟩)
      · exact absurd h href
      · exact absurd hwf.scans hscans
      · exact absurd h hscans

/-- A file that is its header alone: one program header of size 0, at the end. -/
def headerOnly : File where
  bytes := [0x7F, 0x45, 0x4C, 0x46, 2, 1, 1, 0, 0, 0, 0, 0, 0, 0, 0, 0,
    2, 0, 62, 0, 1, 0, 0, 0, 0, 0, 0, 0, 0, 0, 0, 0,
    64, 0, 0, 0, 0, 0, 0, 0, 0, 0, 0, 0, 0, 0, 0, 0,
    0, 0, 0, 0, 64, 0, 0, 0, 1, 0, 0, 0, 0, 0, 0, 0]
  size_lt := by decide

/-- The check of its table passes, and the first header read lies behind the file. -/
theorem headerOnly_escapes :
    ¬ Confined headerOnly 0 ⟨⟨fun _ => false, 0, 0, 0⟩, fun _ => 0⟩ := by
  intro hconf
  have hscan : headerOnly.elfScan = .error .fault := rfl
  refine hconf.inside ?_
  rw [elfLoadSegments, hscan]

end Elf
