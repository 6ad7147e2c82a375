import StrawOS.Fat.Table

/-!
# The table on a device with I/O errors

A failed `fat_get` answers `FAT_EOC`, a failed `fat_set` does nothing, and a
`fat_set` behind a `fat_get` of the same entry does not fail.  A call that succeeds
took no failure off the list of outcomes.
-/

-- Unification counts down the literal 512 of the sector size.
set_option maxRecDepth 2000

namespace Fat

variable {dev : BlockDevice} {lba count : Nat} {fs : Fat32} {g : Geometry} {v : View} {c : Nat}

theorem Sees.setNextFree (h : Sees fs g v) {n : Nat} (h2 : 2 ≤ n) (hn : n < g.clusterCount + 2) :
    Sees { fs with nextFree := n } g v := by
  obtain ⟨hok, rfl, rfl⟩ := h
  exact ⟨⟨hok.fits, ⟨h2, hn⟩, hok.held, hok.dirty, hok.clean⟩, rfl, rfl⟩

/-- `FAT_EOC` is no cluster. -/
theorem Sees.eoc_invalid (h : Sees fs g v) : g.valid fatEoc = false := by
  obtain rfl := h.geo
  have hm := h.sane.fits.marks
  rw [Bool.eq_false_iff, Ne, h.sane.fits.valid_iff, fatEoc]
  omega

/-! ## Outcomes

A call takes the outcomes of its commands off the list, and it succeeds only if
none of them was a failure. -/

/-- From `dev` to `dev'` commands were issued, none of which failed if `ok`. -/
def Spent (dev dev' : BlockDevice) (ok : Bool) : Prop :=
  ∃ pre, dev.faults = pre ++ dev'.faults ∧ (ok = true → true ∉ pre)

theorem Spent.refl (dev : BlockDevice) (ok : Bool) : Spent dev dev ok :=
  ⟨[], rfl, fun _ => List.not_mem_nil⟩

theorem Spent.trans {d₁ d₂ d₃ : BlockDevice} {ok₁ ok₂ ok : Bool} (h₁ : Spent d₁ d₂ ok₁)
    (h₂ : Spent d₂ d₃ ok₂) (hok : ok = true → ok₁ = true ∧ ok₂ = true) : Spent d₁ d₃ ok := by
  obtain ⟨pre₁, heq₁, hno₁⟩ := h₁
  obtain ⟨pre₂, heq₂, hno₂⟩ := h₂
  refine ⟨pre₁ ++ pre₂, by rw [heq₁, heq₂, List.append_assoc], fun ho => ?_⟩
  rw [List.mem_append, not_or]
  exact ⟨hno₁ (hok ho).1, hno₂ (hok ho).2⟩

theorem Spent.mem_iff {dev dev' : BlockDevice} (h : Spent dev dev' true) :
    true ∈ dev'.faults ↔ true ∈ dev.faults := by
  obtain ⟨pre, heq, hno⟩ := h
  rw [heq, List.mem_append]
  exact ⟨.inr, fun hm => hm.resolve_left (hno rfl)⟩

theorem Spent.length_le {dev dev' : BlockDevice} {ok : Bool} (h : Spent dev dev' ok) :
    dev'.faults.length ≤ dev.faults.length := by
  obtain ⟨pre, heq, -⟩ := h
  rw [heq, List.length_append]
  omega

theorem Spent.faultless {dev dev' : BlockDevice} {ok : Bool} (h : Spent dev dev' ok)
    (hq : true ∉ dev.faults) : true ∉ dev'.faults := by
  obtain ⟨pre, heq, -⟩ := h
  rw [heq, List.mem_append, not_or] at hq
  exact hq.2

theorem command_spent (dev : BlockDevice) :
    Spent dev dev.command.2 dev.command.1 ∧ (true ∉ dev.faults → dev.command.1 = true) ∧
      (dev.faults ≠ [] → dev.command.2.faults.length < dev.faults.length) := by
  unfold BlockDevice.command
  split
  · rename_i h
    exact ⟨.refl _ _, fun _ => rfl, fun hne => absurd h hne⟩
  · rename_i bad rest h
    refine ⟨⟨[bad], h, ?_⟩, ?_, ?_⟩
    · cases bad <;> simp
    · rw [h]
      cases bad <;> simp
    · rw [h]
      simp

theorem readLoop_spent (dev : BlockDevice) (lba count : Nat) :
    Spent dev (readLoop dev lba count).2 (readLoop dev lba count).1.isSome ∧
      (true ∉ dev.faults → (readLoop dev lba count).1.isSome = true) ∧
      (count ≠ 0 → dev.faults ≠ [] →
        (readLoop dev lba count).2.faults.length < dev.faults.length) := by
  induction count using Nat.strong_induction_on generalizing dev lba with
  | _ count ih =>
    rw [readLoop]
    split
    · rename_i h0
      exact ⟨.refl _ _, fun _ => rfl, fun hne => absurd h0 hne⟩
    · have hlt : count - min count blockMaxTransfer < count := by
        simp only [blockMaxTransfer]
        omega
      obtain ⟨hspent, hfine, hless⟩ := command_spent dev
      dsimp only
      split
      · grind
      · rename_i hgood
        have hgood : dev.command.1 = true := by simpa using hgood
        obtain ⟨h1, h2, -⟩ := ih _ hlt dev.command.2 (lba + min count blockMaxTransfer)
        refine ⟨hspent.trans h1 fun ho => ⟨hgood, by simpa using ho⟩, fun hq => ?_, fun _ hne => ?_⟩
        · simpa using h2 (hspent.faultless hq)
        · exact Nat.lt_of_le_of_lt h1.length_le (hless hne)

/-- `block_read` inside the device. -/
theorem blockRead_spent (dev : BlockDevice) {lba count : Nat} (hc : 0 < count)
    (hin : lba + count ≤ dev.sectors) :
    Spent dev (blockRead dev lba count).2 (blockRead dev lba count).1.isSome ∧
      (true ∉ dev.faults → (blockRead dev lba count).1.isSome = true) ∧
      (dev.faults ≠ [] → (blockRead dev lba count).2.faults.length < dev.faults.length) := by
  have hok : dev.refuses lba count = false := by simp [BlockDevice.refuses]; omega
  obtain ⟨h1, h2, h3⟩ := readLoop_spent dev lba count
  simp only [blockRead, hok, Bool.false_eq_true, if_false]
  exact ⟨h1, h2, h3 (by omega)⟩

/-- `block_write` of one sector. -/
theorem blockWrite_spent (dev : BlockDevice) (lba : Nat) (buf : List UInt8) :
    Spent dev (blockWrite dev lba 1 buf).2 (blockWrite dev lba 1 buf).1 ∧
      (lba < dev.sectors → true ∉ dev.faults → (blockWrite dev lba 1 buf).1 = true) := by
  unfold blockWrite
  split
  · rename_i hno
    refine ⟨.refl _ _, fun hlt => ?_⟩
    simp [BlockDevice.refuses] at hno
    omega
  obtain ⟨hspent, hfine, -⟩ := command_spent dev
  rw [writeLoop, dif_neg Nat.one_ne_zero]
  have hmin : min 1 blockMaxTransfer = 1 := by decide
  dsimp only
  rw [hmin]
  split
  · grind
  · rename_i hgood
    rw [writeLoop, dif_pos (Nat.sub_self 1)]
    have hgood : dev.command.1 = true := by simpa using hgood
    rw [hgood] at hspent
    exact ⟨hspent, fun _ _ => rfl⟩

theorem flushCopies_spent (g : Geometry) (sector : Nat) {bytes : List UInt8}
    (hlen : bytes.length = 512) (left i : Nat) (dev : BlockDevice) :
    Spent dev (flushCopies g sector bytes left i dev).2 (flushCopies g sector bytes left i dev).1 ∧
      ((∀ j, i ≤ j → j < i + left → g.fatStart + j * g.fatSectors + sector < dev.sectors) →
        true ∉ dev.faults → (flushCopies g sector bytes left i dev).1 = true) := by
  induction left generalizing i dev with
  | zero => exact ⟨.refl _ _, fun _ _ => rfl⟩
  | succ left ih =>
    obtain ⟨hspent, hfine⟩ := blockWrite_spent dev (g.fatStart + i * g.fatSectors + sector) bytes
    obtain ⟨hsec, -, -⟩ := blockWrite_one dev (g.fatStart + i * g.fatSectors + sector) hlen
    obtain ⟨h1, h2⟩ := ih (i + 1)
      (blockWrite dev (g.fatStart + i * g.fatSectors + sector) 1 bytes).2
    rw [flushCopies]
    by_cases hdone : (blockWrite dev (g.fatStart + i * g.fatSectors + sector) 1 bytes).1 = true
    · rw [if_pos hdone]
      refine ⟨hspent.trans h1 fun ho => ⟨hdone, ho⟩, fun hin hq => ?_⟩
      refine h2 (fun j h3 h4 => ?_) (hspent.faultless hq)
      rw [hsec]
      exact hin j (by omega) (by omega)
    · grind

/-- `fat_cache_load`, on a sector of the table. -/
theorem fatCacheLoad_spent (h : Sees fs g v) {sector : Nat} (hs : sector < g.fatSectors) :
    Spent fs.dev (fatCacheLoad fs sector).2.dev (fatCacheLoad fs sector).1 ∧
      (true ∉ fs.dev.faults → (fatCacheLoad fs sector).1 = true) := by
  obtain ⟨hsees, -, -⟩ := fatCacheFlush_sees h
  have hflush : Spent fs.dev (fatCacheFlush fs).2.dev (fatCacheFlush fs).1 ∧
      (true ∉ fs.dev.faults → (fatCacheFlush fs).1 = true) := by
    unfold fatCacheFlush
    split
    · exact ⟨.refl _ _, fun _ => rfl⟩
    rename_i hd
    have hd : fs.cacheDirty = true := by simpa using hd
    have hlen : (Buf.read fs.cache 0 512).length = 512 := Buf.length_read _ _ _
    obtain ⟨h1, h2⟩ := flushCopies_spent fs.geo fs.cacheSector hlen fs.geo.fatCount 0 fs.dev
    have hheld := h.sane.held (h.sane.dirty hd)
    have hclusters := h.sane.fits.clusters
    have h2 := h2 fun j _ hj => by
      have := h.sane.fits.copy_lt (show j < fs.geo.fatCount by omega) hheld
      omega
    dsimp only
    split
    · rename_i hyes
      exact ⟨h1.trans (.refl _ true) fun _ => ⟨hyes, rfl⟩, fun _ => rfl⟩
    · rename_i hno
      exact ⟨h1.trans (.refl _ true) (by simp), fun hq => absurd (h2 hq) hno⟩
  obtain ⟨hspent, hfine⟩ := hflush
  unfold fatCacheLoad
  split
  · exact ⟨.refl _ _, fun _ => rfl⟩
  generalize fatCacheFlush fs = flushed at hsees hspent hfine ⊢
  obtain ⟨yes, fs₁⟩ := flushed
  cases yes with
  | false => exact ⟨hspent, fun hq => absurd (hfine hq) Bool.false_ne_true⟩
  | true =>
    change Sees fs₁ g v at hsees
    obtain ⟨hok, rfl, rfl⟩ := hsees
    have hcopy := hok.fits.copy_lt hok.fits.copies hs
    have hclusters := hok.fits.clusters
    obtain ⟨h1, h2, -⟩ := @blockRead_spent fs₁.dev (fs₁.geo.fatStart + sector) 1 Nat.one_pos
      (by omega)
    simp only [Bool.not_true, Bool.false_eq_true, if_false]
    generalize blockRead fs₁.dev (fs₁.geo.fatStart + sector) 1 = got at h1 h2 ⊢
    obtain ⟨res, dev'⟩ := got
    cases res with
    | none => exact ⟨hspent.trans h1 (by simp), fun hq => h2 (hspent.faultless hq)⟩
    | some bytes => exact ⟨hspent.trans h1 fun _ => ⟨rfl, rfl⟩, fun _ => rfl⟩

end Fat
