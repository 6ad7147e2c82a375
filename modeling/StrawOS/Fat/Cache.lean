import StrawOS.Fat.Table

/-!
# The cache and the copies of the table

Calls of `fat_get`, `fat_set` and `fat_cache_flush` in any order.  What they do to the
device is described by the values that were set: `tableWord` is the word of a cluster after
some calls, `Mirrors` says that the cache and the copies have it.
-/

set_option maxRecDepth 2000

namespace Fat

/-- The calls on the table. -/
inductive TableOp
  | get (c : Nat)
  | set (c value : Nat)
  | flush

/-- The cluster has an entry in the table. -/
def TableOp.Inside (g : Geometry) : TableOp → Prop
  | .get c => c / 128 < g.fatSectors
  | .set c _ => c / 128 < g.fatSectors
  | .flush => True

def tableStep (fs : Fat32) : TableOp → Fat32
  | .get c => (fatGet fs c).2
  | .set c value => (fatSet fs c value).2
  | .flush => (fatCacheFlush fs).2

def tableRun (fs : Fat32) (ops : List TableOp) : Fat32 := ops.foldl tableStep fs

/-- The value a call leaves as the last one that was set for a cluster. -/
def noteSet (c : Nat) (last : Option Nat) : TableOp → Option Nat
  | .set c' value => if c' = c then some value else last
  | _ => last

/-- The last value that was set for a cluster. -/
def lastSet (c : Nat) (ops : List TableOp) : Option Nat := ops.foldl (noteSet c) none

/-- The word of a cluster in a copy of the table on the device. -/
def Fat32.copyWord (fs : Fat32) (i c : Nat) : UInt32 :=
  wordAt (fun a => fs.dev.data ((fs.geo.fatStart + i * fs.geo.fatSectors) * 512 + a)) (4 * c)

/-- The word of a cluster after some calls: the low bits are those of the last value that
was set, the upper four are those the device had. -/
def tableWord (fs : Fat32) (ops : List TableOp) (c : Nat) : UInt32 :=
  match lastSet c ops with
  | none => fs.copyWord 0 c
  | some value => mergeWord (fs.copyWord 0 c) value

/-- An entry of the sector was set. -/
def Modified (ops : List TableOp) (sector : Nat) : Prop :=
  ∃ c value, .set c value ∈ ops ∧ c / 128 = sector

variable {fs fs₀ : Fat32} {ops : List TableOp} {c : Nat}

theorem mergeWord_upper (old : UInt32) (value : Nat) :
    mergeWord old value &&& ~~~fatMask = old &&& ~~~fatMask := by
  apply UInt32.toBitVec_inj.mp
  ext i hi
  simp only [mergeWord, UInt32.toBitVec_and, UInt32.toBitVec_or, UInt32.toBitVec_not,
    BitVec.getElem_and, BitVec.getElem_or, BitVec.getElem_not]
  cases fatMask.toBitVec[i] <;> simp

theorem mergeWord_mergeWord (old : UInt32) (v v' : Nat) :
    mergeWord (mergeWord old v) v' = mergeWord old v' := by
  rw [mergeWord, mergeWord_upper, mergeWord]

theorem lastSet_concat (op : TableOp) : lastSet c (ops ++ [op]) = noteSet c (lastSet c ops) op := by
  rw [lastSet, List.foldl_concat]
  rfl

theorem lastSet_of_not_modified (h : ¬ Modified ops (c / 128)) : lastSet c ops = none := by
  induction ops using List.reverseRecOn with
  | nil => rfl
  | append_singleton ops op ih =>
    rw [lastSet_concat, ih fun ⟨c', v, hmem, hc'⟩ => h ⟨c', v, List.mem_append_left _ hmem, hc'⟩]
    cases op with
    | set c' value =>
      exact if_neg fun heq => h ⟨c', value, List.mem_append_right _ List.mem_cons_self, by rw [heq]⟩
    | get c' => rfl
    | flush => rfl

theorem tableWord_set (c c' value : Nat) : tableWord fs (ops ++ [.set c value]) c' =
    if c' = c then mergeWord (tableWord fs ops c) value else tableWord fs ops c' := by
  rw [tableWord, lastSet_concat, noteSet]
  by_cases h : c' = c
  · subst h
    rw [if_pos rfl, if_pos rfl, tableWord]
    cases lastSet c' ops with
    | none => rfl
    | some v => exact (mergeWord_mergeWord _ _ _).symm
  · rw [if_neg (Ne.symm h), if_neg h]
    rfl

theorem tableWord_upper (c : Nat) :
    tableWord fs ops c &&& ~~~fatMask = fs.copyWord 0 c &&& ~~~fatMask := by
  rw [tableWord]
  cases lastSet c ops with
  | none => rfl
  | some v => exact mergeWord_upper _ v

/-- The driver after some calls: the cache and the first copy have the words that were set,
and so has every copy, except for what is in the cache only. -/
structure Mirrors (fs₀ : Fat32) (ops : List TableOp) (fs : Fat32) : Prop where
  ok : fs.Ok
  geo : fs.geo = fs₀.geo
  words : ∀ c, c / 128 < fs₀.geo.fatSectors → fs.word c = tableWord fs₀ ops c
  copies : ∀ i < fs₀.geo.fatCount, ∀ c, c / 128 < fs₀.geo.fatSectors →
    (fs.cacheDirty = true → c / 128 ≠ fs.cacheSector) →
    (Modified ops (c / 128) → fs.copyWord i c = tableWord fs₀ ops c) ∧
      (¬ Modified ops (c / 128) → fs.copyWord i c = fs₀.copyWord i c)
  dirty : fs.cacheDirty = true → Modified ops fs.cacheSector

theorem Fat32.Ok.word_of_clean (h : fs.Ok) (hc : fs.cacheDirty = false) (c : Nat) :
    fs.word c = fs.copyWord 0 c := by
  refine wordAt_congr fun i _ => ?_
  rw [h.sane.fatByte_of_clean hc, Nat.zero_mul, Nat.add_zero]

/-- With nothing in the cache only, the copies are all there is. -/
theorem Mirrors.of_clean (hok : fs.Ok) (hgeo : fs.geo = fs₀.geo) (hclean : fs.cacheDirty = false)
    (hcopies : ∀ i < fs₀.geo.fatCount, ∀ c, c / 128 < fs₀.geo.fatSectors →
      (Modified ops (c / 128) → fs.copyWord i c = tableWord fs₀ ops c) ∧
        (¬ Modified ops (c / 128) → fs.copyWord i c = fs₀.copyWord i c)) : Mirrors fs₀ ops fs := by
  refine ⟨hok, hgeo, ?_, fun i hi c hc _ => hcopies i hi c hc, fun hd => by simp [hclean] at hd⟩
  intro c hc
  obtain ⟨hset, hkept⟩ := hcopies 0 (hgeo ▸ hok.fits.copies) c hc
  rw [hok.word_of_clean hclean]
  by_cases hm : Modified ops (c / 128)
  · exact hset hm
  · rw [hkept hm, tableWord, lastSet_of_not_modified hm]

/-- `fat_cache_flush` gives every copy the sector in the cache. -/
theorem flush_copies (h : fs.Ok) : ∃ fs', fatCacheFlush fs = (true, fs') ∧ fs'.Ok ∧
    fs'.geo = fs.geo ∧ fs'.cacheDirty = false ∧
    ∀ i < fs.geo.fatCount, ∀ c, c / 128 < fs.geo.fatSectors → fs'.copyWord i c =
      if fs.cacheDirty = true ∧ c / 128 = fs.cacheSector then fs.word c else fs.copyWord i c := by
  obtain ⟨fs', heq, hshows, hclean, -⟩ := fatCacheFlush_spec ⟨h, rfl, rfl⟩
  refine ⟨fs', heq, hshows.ok, hshows.geo, hclean, ?_⟩
  by_cases hd : fs.cacheDirty = true
  swap
  · intro i _ c _
    rw [if_neg fun h => hd h.1]
    have hsame : fatCacheFlush fs = (true, fs) := by simp [fatCacheFlush, hd]
    rw [hsame] at heq
    rw [← (Prod.mk.inj heq).2]
  have hv := h.dirty hd
  have hheld := h.held hv
  have hclusters := h.fits.clusters
  obtain ⟨dev', hflush, -, -, hother, hcopy⟩ := flushCopies_spec fs.geo fs.cacheSector
    fs.cache fs.geo.fatCount 0 h.quiet (fun j _ hj => by
      have := h.fits.copy_lt (show j < fs.geo.fatCount by omega) hheld
      omega) (by omega)
  obtain rfl : { fs with dev := dev', cacheDirty := false } = fs' := by
    simpa [fatCacheFlush, hd, hflush] using heq
  intro i hi c hc
  split
  · rename_i hcached
    rw [← wordAt_cache hv hcached.2.symm]
    refine wordAt_congr fun k hk => ?_
    show dev'.data ((fs.geo.fatStart + i * fs.geo.fatSectors) * 512 + (4 * c + k)) = _
    rw [← hcopy i (by omega) (by omega) (c % 128 * 4 + k) (by omega), ← hcached.2]
    congr 1
    omega
  · rename_i hcached
    refine wordAt_congr fun k hk => hother _ fun j _ _ heq => hcached ⟨hd, ?_⟩
    rw [show ((fs.geo.fatStart + i * fs.geo.fatSectors) * 512 + (4 * c + k)) / 512 =
      fs.geo.fatStart + i * fs.geo.fatSectors + c / 128 by omega] at heq
    -- The sector of a copy is the remainder of its place in the row of the copies.
    have hrem : (c / 128 + i * fs.geo.fatSectors) % fs.geo.fatSectors =
        (fs.cacheSector + j * fs.geo.fatSectors) % fs.geo.fatSectors := by
      congr 1
      omega
    rwa [Nat.add_mul_mod_self_right, Nat.add_mul_mod_self_right, Nat.mod_eq_of_lt hc,
      Nat.mod_eq_of_lt hheld] at hrem

theorem Mirrors.flush (h : Mirrors fs₀ ops fs) : ∃ fs', fatCacheFlush fs = (true, fs') ∧
    Mirrors fs₀ ops fs' ∧ fs'.cacheDirty = false := by
  obtain ⟨fs', heq, hok, hgeo, hclean, hcopies⟩ := flush_copies h.ok
  rw [h.geo] at hgeo hcopies
  refine ⟨fs', heq, .of_clean hok hgeo hclean fun i hi c hc => ?_, hclean⟩
  rw [hcopies i hi c hc]
  split
  · rename_i hcached
    exact ⟨fun _ => h.words c hc, fun hno => absurd (hcached.2 ▸ h.dirty hcached.1) hno⟩
  · rename_i hcached
    exact h.copies i hi c hc fun hd hs => hcached ⟨hd, hs⟩

theorem Mirrors.load (h : Mirrors fs₀ ops fs) {sector : Nat} (hs : sector < fs₀.geo.fatSectors) :
    ∃ fs', fatCacheLoad fs sector = (true, fs') ∧ Mirrors fs₀ ops fs' ∧ fs'.cacheValid = true ∧
      fs'.cacheSector = sector := by
  by_cases hhit : fs.cacheValid = true ∧ fs.cacheSector = sector
  · exact ⟨fs, by simp [fatCacheLoad, hhit], h, hhit.1, hhit.2⟩
  obtain ⟨fs₁, hflush, h₁, hclean⟩ := h.flush
  obtain ⟨fs', heq, hshows, hv, hsec, -⟩ := fatCacheLoad_spec ⟨h.ok, rfl, rfl⟩ (h.geo ▸ hs)
  refine ⟨fs', heq, ?_, hv, hsec⟩
  rw [fatCacheLoad, if_neg hhit, hflush] at heq
  have hok := hshows.ok
  have hcopy := h₁.ok.fits.copy_lt h₁.ok.fits.copies (h₁.geo ▸ hs)
  have hclusters := h₁.ok.fits.clusters
  have hread := blockRead_eq h₁.ok.quiet (fs₁.geo.fatStart + sector) Nat.one_pos (by omega)
  -- The device is the one after the flush.
  obtain ⟨rfl⟩ : { fs₁ with
      cache := Buf.write fs₁.cache 0
        (Buf.read fs₁.dev.data ((fs₁.geo.fatStart + sector) * 512) (1 * 512))
      cacheSector := sector, cacheValid := true } = fs' := by
    simpa [hread] using heq
  exact .of_clean hok h₁.geo hclean fun i hi c hc => h₁.copies i hi c hc (by simp [hclean])

theorem Mirrors.note (h : Mirrors fs₀ ops fs) {op : TableOp} (hop : ∀ c value, op ≠ .set c value) :
    Mirrors fs₀ (ops ++ [op]) fs := by
  have hword : ∀ c, tableWord fs₀ (ops ++ [op]) c = tableWord fs₀ ops c := by
    intro c
    rw [tableWord, lastSet_concat]
    cases op with
    | set c' value => exact absurd rfl (hop c' value)
    | get c' => rfl
    | flush => rfl
  have hmod : ∀ s, Modified (ops ++ [op]) s ↔ Modified ops s := by
    intro s
    refine exists₂_congr fun c value => ?_
    rw [List.mem_append, List.mem_singleton, or_iff_left (hop c value).symm]
  refine ⟨h.ok, h.geo, ?_, ?_, ?_⟩
  · simpa only [hword] using h.words
  · simpa only [hword, hmod] using h.copies
  · simpa only [hmod] using h.dirty

theorem Mirrors.set (h : Mirrors fs₀ ops fs) (hv : fs.cacheValid = true)
    (hs : fs.cacheSector = c / 128) (value : Nat) :
    Mirrors fs₀ (ops ++ [.set c value]) (fs.putWord c value) := by
  refine ⟨h.ok.putWord hv c value, h.geo, ?_, ?_, ?_⟩
  · intro c' hc'
    rw [word_putWord hv hs, tableWord_set]
    have hin : c / 128 < fs₀.geo.fatSectors := by
      rw [← hs, ← h.geo]
      exact h.ok.held hv
    rw [h.words c hin, h.words c' hc']
  · intro i hi c' hc' hout
    have hne : c' / 128 ≠ c / 128 := fun heq => hout rfl (heq.trans hs.symm)
    have hmod : Modified (ops ++ [.set c value]) (c' / 128) ↔ Modified ops (c' / 128) := by
      refine exists₂_congr fun c₁ v₁ => ?_
      rw [List.mem_append, List.mem_singleton, TableOp.set.injEq]
      constructor
      · rintro ⟨hmem | ⟨rfl, -⟩, hsec⟩
        · exact ⟨hmem, hsec⟩
        · exact absurd hsec.symm hne
      · exact fun ⟨hmem, hsec⟩ => ⟨Or.inl hmem, hsec⟩
    rw [hmod, tableWord_set, if_neg fun heq => hne (by rw [heq])]
    exact h.copies i hi c' hc' fun _ heq => hne (heq.trans hs)
  · exact fun _ => ⟨c, value, List.mem_append_right _ List.mem_cons_self, hs.symm⟩

/-- What `fat_get` returns. -/
theorem Mirrors.get (h : Mirrors fs₀ ops fs) (hc : c / 128 < fs₀.geo.fatSectors) :
    ∃ fs', fatGet fs c = ((tableWord fs₀ ops c &&& fatMask).toNat, fs') ∧ Mirrors fs₀ ops fs' := by
  obtain ⟨fs', heq, h', hv, hs⟩ := h.load hc
  refine ⟨fs', ?_, h'⟩
  rw [fatGet, heq, ← h'.words c hc, ← wordAt_cache hv hs]
  rfl

/-- **Step lemma.** -/
theorem Mirrors.step (h : Mirrors fs₀ ops fs) {op : TableOp} (hop : op.Inside fs₀.geo) :
    Mirrors fs₀ (ops ++ [op]) (tableStep fs op) := by
  cases op with
  | get c =>
    obtain ⟨fs', heq, h'⟩ := h.get hop
    rw [tableStep, heq]
    exact h'.note (by simp)
  | set c value =>
    obtain ⟨fs', heq, h', hv, hs⟩ := h.load hop
    rw [tableStep, fatSet, heq]
    exact h'.set hv hs value
  | flush =>
    obtain ⟨fs', heq, h', -⟩ := h.flush
    rw [tableStep, heq]
    exact h'.note (by simp)

/-- **Run lemma.** -/
theorem Mirrors.run (hok : fs.Ok) (hclean : fs.cacheDirty = false)
    (hops : ∀ op ∈ ops, op.Inside fs.geo) : Mirrors fs ops (tableRun fs ops) := by
  induction ops using List.reverseRecOn with
  | nil => exact .of_clean hok rfl hclean fun i _ c _ =>
    ⟨fun ⟨_, _, hmem, _⟩ => (List.not_mem_nil hmem).elim, fun _ => rfl⟩
  | append_singleton ops op ih =>
    rw [tableRun, List.foldl_concat]
    exact (ih fun op' hop' => hops op' (List.mem_append_left _ hop')).step
      (hops op (List.mem_append_right _ List.mem_cons_self))

/-- **The cache shows the table.**  After any calls `fat_get` returns the last value that was
set, or what the device had; `fat_set` changes no other entry and no upper bits; and after
`fat_cache_flush` every copy has the entries of the sectors that were modified. -/
theorem table_cache_refines (hok : fs.Ok) (hclean : fs.cacheDirty = false)
    (hops : ∀ op ∈ ops, op.Inside fs.geo) :
    (∀ c, c / 128 < fs.geo.fatSectors → (fatGet (tableRun fs ops) c).1 =
      (((lastSet c ops).elim (fs.copyWord 0 c) UInt32.ofNat) &&& fatMask).toNat) ∧
    (∀ c value c', c / 128 < fs.geo.fatSectors → c' / 128 < fs.geo.fatSectors →
      ∃ after, fatSet (tableRun fs ops) c value = (true, after) ∧
        (c' ≠ c → after.word c' = (tableRun fs ops).word c') ∧
        after.word c &&& ~~~fatMask = (tableRun fs ops).word c &&& ~~~fatMask) ∧
    ∃ after, fatCacheFlush (tableRun fs ops) = (true, after) ∧
      ∀ i < fs.geo.fatCount, ∀ c, c / 128 < fs.geo.fatSectors →
        (Modified ops (c / 128) →
          after.copyWord i c &&& fatMask =
            ((lastSet c ops).elim (fs.copyWord 0 c) UInt32.ofNat) &&& fatMask ∧
          after.copyWord i c &&& ~~~fatMask = fs.copyWord 0 c &&& ~~~fatMask) ∧
        (¬ Modified ops (c / 128) → after.copyWord i c = fs.copyWord i c) := by
  have h := Mirrors.run hok hclean hops
  have hlow : ∀ c, tableWord fs ops c &&& fatMask =
      ((lastSet c ops).elim (fs.copyWord 0 c) UInt32.ofNat) &&& fatMask := by
    intro c
    rw [tableWord]
    cases lastSet c ops with
    | none => rfl
    | some v => exact mergeWord_and _ v
  refine ⟨?_, ?_, ?_⟩
  · intro c hc
    obtain ⟨fs', heq, -⟩ := h.get hc
    rw [heq, ← hlow]
  · intro c value c' hc hc'
    obtain ⟨fs', heq, h', hv, hs⟩ := h.load hc
    refine ⟨fs'.putWord c value, by rw [fatSet, heq]; rfl, ?_, ?_⟩
    · intro hne
      rw [word_putWord hv hs, if_neg hne, h'.words c' hc', h.words c' hc']
    · rw [word_putWord hv hs, if_pos rfl, mergeWord_upper, h'.words c hc, h.words c hc]
  · obtain ⟨fs', heq, h', hclean'⟩ := h.flush
    refine ⟨fs', heq, fun i hi c hc => ?_⟩
    obtain ⟨hset, hkept⟩ := h'.copies i hi c hc (by simp [hclean'])
    refine ⟨fun hm => ?_, hkept⟩
    rw [hset hm]
    exact ⟨hlow c, tableWord_upper c⟩

/-- Two copies of a table for two clusters, nothing read yet. -/
def blankTable : Fat32 where
  geo := ⟨1, 1, 1, 2, 3, 2, 2⟩
  nextFree := 2
  cacheSector := 0
  cacheValid := false
  cacheDirty := false
  cache _ := 0
  dev := ⟨5, fun _ => 0, []⟩

theorem blankTable_ok : blankTable.Ok where
  fits := ⟨by decide, by decide, by decide, by decide, by decide, by decide, by decide, by decide⟩
  quiet := rfl
  free := by decide
  held h := absurd h Bool.false_ne_true
  dirty h := absurd h Bool.false_ne_true
  clean _ h := absurd h Bool.false_ne_true

/-- A value that was set is read back. -/
theorem blankTable_set_get : (fatGet (tableRun blankTable [.set 3 5, .flush]) 3).1 = 5 :=
  (table_cache_refines blankTable_ok rfl (by simp [TableOp.Inside, blankTable])).1 3 (by decide)

end Fat
