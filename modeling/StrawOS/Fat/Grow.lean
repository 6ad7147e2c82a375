import StrawOS.Fat.Load

/-!
# Making a directory longer

On a volume without I/O errors `fat_extend` links clusters of zeros behind a
chain, or the volume is full.  `ChainOf.grow` says so: what the chain had stays,
and the slots of the directory are the old ones and free slots behind them.
-/

-- Unification counts down the literal 512 of the sector size.
set_option maxRecDepth 2000

namespace Fat

variable {fs : Fat32} {g : Geometry} {v v' v'' : View} {fn : FatNode} {chain ext : List Nat}

/-! ## Taking a cluster of zeros -/

/-- Zeros stored over a cluster. -/
def View.clear (g : Geometry) (v : View) (c : Nat) : View :=
  v.store ((c - 2) * g.clusterBytes) (List.replicate g.clusterBytes 0)

theorem fatZeroCluster_spec (h : Shows fs g v) {c : Nat} (hc : g.valid c = true) :
    ∃ fs', fatZeroCluster fs c = (true, fs') ∧ Shows fs' g (v.clear g c) := by
  have hfits := h.ok.fits
  rw [h.geo] at hfits
  have hwrite := blockWrite_eq h.ok.quiet (g.lba c) hfits.spc (hfits.lba_le hc)
    (@List.length_replicate UInt8 (g.spc * 512) 0)
  have hcb : g.spc * 512 = g.clusterBytes := rfl
  rw [g.lba_bytes, hcb] at hwrite
  refine ⟨_, ?_, h.store ((c - 2) * g.clusterBytes) (List.replicate g.clusterBytes 0)⟩
  rw [fatZeroCluster, h.geo, hwrite]

theorem fatTake_zero (h : Shows fs g v) {prev c : Nat} (hprev : prev ≠ 0 → g.valid prev = true)
    (hc : g.valid c = true) :
    ∃ fs', fatTake fs prev true c = (c, fs') ∧ Shows fs' g ((v.clear g c).take prev c) := by
  obtain ⟨hc2, hclt⟩ := valid_lt h.sees hc
  have hbound : c < g.clusterCount + 2 := by
    obtain rfl := h.geo
    exact (h.ok.fits.valid_iff.mp hc).2
  obtain ⟨fs₁, hzero, hs₁⟩ := fatZeroCluster_spec h hc
  obtain ⟨fs₂, hmark, hs₂, -⟩ := fatSet_spec hs₁ hc (show fatEoc < 2 ^ 28 by decide)
  have hnext : ∀ fs', Shows fs' g ((v.clear g c).take prev c) →
      Shows { fs' with nextFree := if c + 1 < (fs.geo.clusterCount + 2) % 2 ^ 32 then c + 1 else 2 } g
        ((v.clear g c).take prev c) := by
    intro fs' hs
    have hm := h.ok.fits.marks
    rw [h.geo] at hm ⊢
    exact hs.setNextFree (by split <;> omega) (by split <;> omega)
  unfold fatTake
  simp only [if_true, hzero, hmark, Bool.not_true, Bool.false_eq_true, if_false]
  by_cases hp : prev ≠ 0
  · obtain ⟨fs₃, hlink, hs₃, -⟩ := fatSet_spec hs₂ (hprev hp) hclt
    rw [if_pos hp, hlink]
    refine ⟨_, rfl, hnext fs₃ ?_⟩
    rw [View.take, if_pos hp]
    exact hs₃
  · rw [if_neg hp]
    refine ⟨_, rfl, hnext fs₂ ?_⟩
    rw [View.take, if_neg hp]
    exact hs₂

theorem fatAllocLoop_zero {prev : Nat} (hprev : prev ≠ 0 → g.valid prev = true) (left n : Nat)
    (h : Shows fs g v) (hleft : left ≤ g.clusterCount) :
    (∃ fs', fatAllocLoop prev true left n fs = (0, fs') ∧ Shows fs' g v) ∨
      ∃ c fs', fatAllocLoop prev true left n fs = (c, fs') ∧ g.valid c = true ∧ v.entry c = 0 ∧
        Shows fs' g ((v.clear g c).take prev c) := by
  induction left generalizing n fs with
  | zero => exact .inl ⟨fs, rfl, h⟩
  | succ left ih =>
    have hc := fatCandidate_valid h.sees (by omega) n
    obtain ⟨fs₁, hget, hs₁, -⟩ := fatGet_spec h hc
    rw [fatAllocLoop, hget]
    split
    · exact ih _ hs₁ (by omega)
    · rename_i hzero
      obtain ⟨fs₂, htake, hs₂⟩ := fatTake_zero hs₁ hprev hc
      exact .inr ⟨_, fs₂, htake, hc, not_not.mp hzero, hs₂⟩

/-- `fat_alloc` of a cluster of zeros, when the device has no I/O errors. -/
theorem fatAlloc_zero (h : Shows fs g v) {prev : Nat} (hprev : prev ≠ 0 → g.valid prev = true) :
    (∃ fs', fatAlloc fs prev true = (0, fs') ∧ Shows fs' g v) ∨
      ∃ c fs', fatAlloc fs prev true = (c, fs') ∧ g.valid c = true ∧ v.entry c = 0 ∧
        Shows fs' g ((v.clear g c).take prev c) := by
  apply fatAllocLoop_zero hprev _ _ h
  rw [h.geo]

/-! ## Growing -/

/-- The view after some clusters of zeros were linked: the table apart, nothing
else changed. -/
structure Grown (g : Geometry) (v v' : View) (ext : List Nat) : Prop where
  sectors : v'.sectors = v.sectors
  boot : v'.boot = v.boot
  zero : ∀ c ∈ ext, ∀ k, k < g.clusterBytes → v'.data ((c - 2) * g.clusterBytes + k) = 0
  data : ∀ a, a / g.clusterBytes + 2 ∉ ext → v'.data a = v.data a

theorem Grown.refl (v : View) : Grown g v v [] :=
  ⟨rfl, rfl, fun _ h => absurd h List.not_mem_nil, fun _ _ => rfl⟩

theorem Grown.trans {ext' : List Nat} (h : Grown g v v' ext) (h' : Grown g v' v'' ext')
    (hdisjoint : ∀ c ∈ ext, 2 ≤ c ∧ c ∉ ext') : Grown g v v'' (ext ++ ext') where
  sectors := h'.sectors.trans h.sectors
  boot := h'.boot.trans h.boot
  zero := by
    intro c hc k hk
    by_cases hnew : c ∈ ext'
    · exact h'.zero c hnew k hk
    · have hold : c ∈ ext := (List.mem_append.mp hc).resolve_right hnew
      have hwhere : ((c - 2) * g.clusterBytes + k) / g.clusterBytes + 2 = c := by
        have := (hdisjoint c hold).1
        rw [Nat.mul_comm, Nat.mul_add_div (by omega), Nat.div_eq_of_lt hk]
        omega
      rw [h'.data _ (by rwa [hwhere])]
      exact h.zero c hold k hk
  data := by
    intro a ha
    rw [List.mem_append, not_or] at ha
    rw [h'.data a ha.2, h.data a ha.1]

theorem clear_take_grown (hpos : 0 < g.clusterBytes) (prev : Nat) {c : Nat} (hc : 2 ≤ c) :
    Grown g v ((v.clear g c).take prev c) [c] := by
  have hdata : ((v.clear g c).take prev c).data =
      Buf.write v.data ((c - 2) * g.clusterBytes) (List.replicate g.clusterBytes 0) := by
    unfold View.take
    split <;> rfl
  refine ⟨?_, ?_, ?_, ?_⟩
  · unfold View.take
    split <;> rfl
  · unfold View.take
    split <;> rfl
  · intro d hd k hk
    rw [List.mem_singleton] at hd
    rw [hd, hdata, Buf.write_of_mem (by simpa using hk)]
    simp
  · intro a ha
    rw [List.mem_singleton] at ha
    rw [hdata]
    rcases Nat.lt_or_ge a ((c - 2) * g.clusterBytes) with hlt | hge
    · exact Buf.write_of_lt hlt
    · apply Buf.write_of_ge
      rw [List.length_replicate]
      by_contra hlt
      have hle : c - 2 ≤ a / g.clusterBytes := (Nat.le_div_iff_mul_le hpos).mpr hge
      have hlt' : a / g.clusterBytes < c - 2 + 1 := by
        apply Nat.div_lt_of_lt_mul
        rw [Nat.mul_comm, Nat.add_mul, Nat.one_mul]
        omega
      omega

theorem ChainOf.append (h : Shows fs g v) (hc : ChainOf g v fn chain) {i last c : Nat}
    (hlast : chain[i]? = some last) (hend : chain.length = i + 1) (hcv : g.valid c = true)
    (hfree : v.entry c = 0) : ChainOf g ((v.clear g c).take last c) fn (chain ++ [c]) := by
  have hlv := hc.valid last (List.mem_of_getElem? hlast)
  have hl2 := (valid_lt h.sees hlv).1
  have hcm : c ∉ chain := fun hmem => hc.used c hmem hfree
  have hne : c ≠ last := fun heq => hcm (heq ▸ List.mem_of_getElem? hlast)
  have hentry : ((v.clear g c).take last c).entry =
      Function.update (Function.update v.entry c fatEoc) last c := by
    rw [View.take, if_pos (by omega)]
    rfl
  have hnext : ((v.clear g c).take last c).next g = Function.update (v.next g) last (some c) := by
    funext x
    simp only [View.next, hentry]
    by_cases hx : x = last
    · subst hx
      simp [hcv]
    · by_cases hxc : x = c
      · subst hxc
        have hno : g.valid 0 = false := by simp [Geometry.valid]
        simp [hne, View.next, hfree, hno, h.sees.eoc_invalid]
      · simp [hx, hxc, View.next]
  obtain ⟨pre, rfl⟩ : ∃ pre, chain = pre ++ [last] := by
    refine ⟨chain.take i, ?_⟩
    have hlt : i < chain.length := by omega
    rw [List.getElem?_eq_getElem hlt] at hlast
    rw [← Option.some.inj hlast, ← List.take_succ_eq_append_getElem hlt, List.take_of_length_le (by omega)]
  refine ⟨?_, ?_, ?_⟩
  · rw [hnext, List.append_assoc]
    refine hc.linked.redirect ⟨rfl, ?_⟩
    rw [PtrChain.nil_iff, Function.update_of_ne hne, View.next_eq_none, hfree]
    simp [Geometry.valid]
  · intro x hx
    rw [hentry]
    by_cases hxl : x = last
    · subst hxl
      have := (valid_lt h.sees hcv).1
      rw [Function.update_self]
      omega
    · rw [Function.update_of_ne hxl]
      by_cases hxc : x = c
      · subst hxc
        rw [Function.update_self]
        decide
      · rw [Function.update_of_ne hxc]
        rcases List.mem_append.mp hx with hx | hx
        · exact hc.used x hx
        · exact absurd (List.mem_singleton.mp hx) hxc
  · intro hh
    rw [List.getElem?_append_left]
    · exact hc.hint hh
    · exact (List.getElem?_eq_some_iff.mp (hc.hint hh)).1

/-- The loop of `fat_extend`. -/
theorem ChainOf.growLoop (left : Nat) {i c : Nat} (h : Shows fs g v) (hc : ChainOf g v fn chain)
    (hi : chain[i]? = some c) :
    ∃ ext v' fs', Shows fs' g v' ∧ Grown g v v' ext ∧ ChainOf g v' fn (chain ++ ext) ∧
      (fatExtendLoop true left i c fs = (none, fs') ∨
        ∃ last, fatExtendLoop true left i c fs = (some (i + left, last), fs') ∧
          (chain ++ ext)[i + left]? = some last) := by
  induction left generalizing fs v i c chain with
  | zero =>
    refine ⟨[], v, fs, h, .refl v, by rwa [List.append_nil], .inr ⟨c, rfl, ?_⟩⟩
    rwa [List.append_nil]
  | succ left ih =>
    have hcv := hc.valid c (List.mem_of_getElem? hi)
    obtain ⟨fs₁, hget, hs₁, -⟩ := fatGet_spec h hcv
    have hnext := hc.linked.getElem_next hi
    rw [fatExtendLoop, hget]
    rw [h.geo]
    by_cases hv : g.valid (v.entry c) = true
    · rw [if_pos hv]
      have hi' : chain[i + 1]? = some (v.entry c) := by
        rw [← hnext]
        exact View.next_eq_some.mpr ⟨rfl, hv⟩
      obtain ⟨ext, v', fs', hs', hgrown, hchain, hres⟩ := ih hs₁ hc hi'
      rw [Nat.add_right_comm, Nat.add_assoc] at hres
      exact ⟨ext, v', fs', hs', hgrown, hchain, hres⟩
    · -- The last cluster.
      rw [if_neg hv]
      rw [Bool.not_eq_true] at hv
      have hend : chain.length = i + 1 := by
        rw [View.next_eq_none.mpr hv] at hnext
        have hle := List.getElem?_eq_none_iff.mp hnext.symm
        have hlt := (List.getElem?_eq_some_iff.mp hi).1
        omega
      rcases @fatAlloc_zero fs₁ g v hs₁ c (fun _ => hcv) with
        ⟨fs₂, halloc, hs₂⟩ | ⟨d, fs₂, halloc, hdv, hfree, hs₂⟩
      · rw [halloc]
        exact ⟨[], v, fs₂, hs₂, .refl v, by rwa [List.append_nil], .inl rfl⟩
      · have hd2 := (valid_lt h.sees hdv).1
        have hadd := hc.append h hi hend hdv hfree
        have hi' : (chain ++ [d])[i + 1]? = some d := by
          rw [← hend, List.getElem?_concat_length]
        obtain ⟨ext, v', fs', hs', hgrown, hchain, hres⟩ := ih hs₂ hadd hi'
        rw [halloc]
        rw [if_neg (by omega)]
        rw [Nat.add_right_comm, Nat.add_assoc, List.append_assoc] at hres
        rw [List.append_assoc] at hchain
        have hnd := hchain.linked.nodup
        refine ⟨[d] ++ ext, v', fs', hs',
          (clear_take_grown h.clusterBytes_pos c hd2).trans hgrown ?_, hchain, hres⟩
        intro x hx
        rw [List.mem_singleton] at hx
        subst hx
        refine ⟨hd2, fun hmem => ?_⟩
        rw [List.nodup_append] at hnd
        exact (List.nodup_cons.mp hnd.2.1).1 hmem

theorem ChainOf.first (h : Shows fs g v) (hc : ChainOf g v fn []) :
    (∃ fs', fatFirst fs fn true = (false, fn, fs') ∧ Shows fs' g v) ∨
      ∃ c v' fs', fatFirst fs fn true =
          (true, { fn with cluster := c, hintIndex := 0, hintCluster := c }, fs') ∧
        Shows fs' g v' ∧ Grown g v v' [c] ∧
        ChainOf g v' { fn with cluster := c, hintIndex := 0, hintCluster := c } [c] := by
  obtain ⟨hno, -⟩ := hc.nil_start
  rw [fatFirst, h.geo, if_neg (by simp [hno])]
  rcases @fatAlloc_zero fs g v h 0 (fun h0 => absurd rfl h0) with
    ⟨fs₁, halloc, hs₁⟩ | ⟨c, fs₁, halloc, hcv, hfree, hs₁⟩
  · rw [halloc]
    exact .inl ⟨fs₁, rfl, hs₁⟩
  · have hc2 := (valid_lt h.sees hcv).1
    have hentry : ((v.clear g c).take 0 c).entry = Function.update v.entry c fatEoc := rfl
    rw [halloc]
    rw [if_neg (by omega)]
    refine .inr ⟨c, _, fs₁, rfl, hs₁, clear_take_grown h.clusterBytes_pos 0 hc2, ?_, ?_, fun _ => rfl⟩
    · refine ⟨by rw [Geometry.start, if_pos hcv], ?_⟩
      rw [PtrChain.nil_iff, View.next_eq_none, hentry, Function.update_self]
      exact h.sees.eoc_invalid
    · intro x hx
      rw [List.mem_singleton.mp hx, hentry, Function.update_self]
      decide

/-- `fat_extend` of a chain that is not empty. -/
theorem ChainOf.growFrom (h : Shows fs g v) (hc : ChainOf g v fn chain) (hne : chain ≠ [])
    {clusters : Nat} (hpos : clusters ≠ 0) :
    ∃ ext v' fs' ok j c, Shows fs' g v' ∧ Grown g v v' ext ∧
      ChainOf g v' { fn with hintIndex := j, hintCluster := c } (chain ++ ext) ∧
      (ok = true → clusters ≤ (chain ++ ext).length) ∧
      fatExtend fs fn clusters true = (ok, { fn with hintIndex := j, hintCluster := c }, fs') := by
  obtain ⟨rest, hstart⟩ := hc.extendStart hne clusters
  have hi : chain[(fn.extendStart clusters).1]? = some (fn.extendStart clusters).2 := by
    have h0 : (chain.drop (fn.extendStart clusters).1)[0]? = some (fn.extendStart clusters).2 := by
      rw [hstart]
      rfl
    rwa [List.getElem?_drop, Nat.add_zero] at h0
  have hle : (fn.extendStart clusters).1 ≤ clusters - 1 := by
    unfold FatNode.extendStart
    split
    · omega
    · exact Nat.zero_le _
  have hvalid : fs.geo.valid fn.cluster = true := by
    rw [h.geo]
    by_contra hno
    have hlinked := hc.linked
    rw [Geometry.start, if_neg hno, PtrChain.none_iff] at hlinked
    exact hne hlinked
  have hfirst : fatFirst fs fn true = (true, fn, fs) := by rw [fatFirst, if_pos hvalid]
  obtain ⟨ext, v', fs', hs', hgrown, hchain, hres⟩ :=
    hc.growLoop (clusters - 1 - (fn.extendStart clusters).1) h hi
  rcases hres with hnone | ⟨last, hsome, hlast⟩
  · refine ⟨ext, v', fs', false, fn.hintIndex, fn.hintCluster, hs', hgrown, hchain, by simp, ?_⟩
    rw [fatExtend, if_neg hpos, hfirst]
    simp [hnone]
  · rw [Nat.add_sub_cancel' hle] at hsome hlast
    have hlt := (List.getElem?_eq_some_iff.mp hlast).1
    refine ⟨ext, v', fs', true, clusters - 1, last, hs', hgrown, hchain.setHint hlast,
      fun _ => by omega, ?_⟩
    rw [fatExtend, if_neg hpos, hfirst]
    simp [hsome]

/-- **Growing.**  `fat_extend` with zeros, when the device has no I/O errors. -/
theorem ChainOf.grow (h : Shows fs g v) (hc : ChainOf g v fn chain) (clusters : Nat) :
    ∃ ext v' fn' fs' ok, fatExtend fs fn clusters true = (ok, fn', fs') ∧ Shows fs' g v' ∧
      Grown g v v' ext ∧ ChainOf g v' fn' (chain ++ ext) ∧
      (ok = true → clusters ≤ (chain ++ ext).length) ∧ (chain ≠ [] → fn'.cluster = fn.cluster) := by
  by_cases hpos : clusters = 0
  · refine ⟨[], v, fn, fs, true, ?_, h, .refl v, by rwa [List.append_nil], ?_, fun _ => rfl⟩
    · rw [fatExtend, if_pos hpos]
    · exact fun _ => hpos ▸ Nat.zero_le _
  by_cases hne : chain = []
  · subst hne
    rcases hc.first h with ⟨fs₁, hfirst, hs₁⟩ | ⟨c, v₁, fs₁, hfirst, hs₁, hgrown₁, hc₁⟩
    · refine ⟨[], v, fn, fs₁, false, ?_, hs₁, .refl v, hc, by simp, fun hno => absurd rfl hno⟩
      rw [fatExtend, if_neg hpos, hfirst]
      rfl
    · obtain ⟨ext, v', fs', ok, j, d, hs', hgrown, hchain, hlen, heq⟩ :=
        hc₁.growFrom hs₁ (by simp) hpos
      have hcv := hc₁.valid c List.mem_cons_self
      have hnd := hchain.linked.nodup
      refine ⟨[c] ++ ext, v', _, fs', ok, ?_, hs', hgrown₁.trans hgrown ?_, hchain, hlen,
        fun hno => absurd rfl hno⟩
      · rw [← heq, fatExtend, fatExtend, if_neg hpos, if_neg hpos, hfirst]
        have hagain : fatFirst fs₁ { fn with cluster := c, hintIndex := 0, hintCluster := c } true =
            (true, { fn with cluster := c, hintIndex := 0, hintCluster := c }, fs₁) := by
          rw [fatFirst, if_pos (by rw [hs₁.geo]; exact hcv)]
        rw [hagain]
      · intro x hx
        rw [List.mem_singleton] at hx
        subst hx
        exact ⟨(valid_lt hs₁.sees hcv).1, (List.nodup_cons.mp hnd).1⟩
  · obtain ⟨ext, v', fs', ok, j, d, hs', hgrown, hchain, hlen, heq⟩ := hc.growFrom h hne hpos
    exact ⟨ext, v', _, fs', ok, heq, hs', hgrown, hchain, hlen, fun _ => rfl⟩

/-! ## The slots -/

/-- A slot of zeros. -/
def freeSlot : Slot := List.replicate 32 0

theorem chainSlot_eq {i c : Nat} (hi : chain[i]? = some c) {j : Nat} (hj : j < g.slotsPerCluster) :
    chainSlot g v chain (i * g.slotsPerCluster + j) =
      (List.range 32).map fun k => v.data ((c - 2) * g.clusterBytes + (32 * j + k)) := by
  apply List.map_congr_left
  intro k hk
  rw [chainAddr_slot hi hj (List.mem_range.mp hk)]

/-- The slots of a directory that grew: the old ones, and free ones behind them. -/
theorem Grown.dirSlots (h : Shows fs g v) (hc : ChainOf g v' fn (chain ++ ext))
    (hgrown : Grown g v v' ext) : dirSlots g v' (chain ++ ext) =
      dirSlots g v chain ++ List.replicate (ext.length * g.slotsPerCluster) freeSlot := by
  have hpos := h.sees.slots_pos
  have hnd := hc.linked.nodup
  apply List.ext_getElem
  · simp [Nat.add_mul]
  intro q h1 h2
  rw [length_dirSlots] at h1
  have hq : q / g.slotsPerCluster * g.slotsPerCluster + q % g.slotsPerCluster = q := by
    rw [Nat.mul_comm]
    exact Nat.div_add_mod q _
  have hj := Nat.mod_lt q hpos
  have hi : q / g.slotsPerCluster < (chain ++ ext).length := Nat.div_lt_of_lt_mul (by
    rwa [Nat.mul_comm])
  have hslot := chainSlot_eq (g := g) (v := v') (List.getElem?_eq_getElem hi) hj
  rw [hq] at hslot
  have hwhere : ∀ {c k : Nat}, g.valid c = true → k < 32 →
      ((c - 2) * g.clusterBytes + (32 * (q % g.slotsPerCluster) + k)) / g.clusterBytes + 2 = c := by
    intro c k hcv hk
    have hlt : 32 * (q % g.slotsPerCluster) + k < g.clusterBytes := by
      rw [g.clusterBytes_eq]
      omega
    have := (valid_lt h.sees hcv).1
    rw [Nat.mul_comm, Nat.mul_add_div (by omega), Nat.div_eq_of_lt hlt]
    omega
  have hcv := hc.valid _ (List.getElem_mem hi)
  rw [getElem_dirSlots, hslot]
  by_cases hold : q / g.slotsPerCluster < chain.length
  · -- An old cluster.
    have hlt : q < (Fat.dirSlots g v chain).length := by
      rw [length_dirSlots]
      exact (Nat.div_lt_iff_lt_mul hpos).mp hold
    have hslot' := chainSlot_eq (g := g) (v := v) (List.getElem?_eq_getElem hold) hj
    rw [hq] at hslot'
    rw [List.getElem_append_left hlt, getElem_dirSlots, hslot']
    apply List.map_congr_left
    intro k hk
    rw [List.getElem_append_left hold] at hcv ⊢
    apply hgrown.data
    rw [hwhere hcv (List.mem_range.mp hk)]
    intro hmem
    exact (List.nodup_append.mp hnd).2.2 _ (List.getElem_mem hold) _ hmem rfl
  · -- A new one.
    rw [Nat.not_lt] at hold
    have hge : (Fat.dirSlots g v chain).length ≤ q := by
      rw [length_dirSlots]
      exact (Nat.le_div_iff_mul_le hpos).mp hold
    have hmem : (chain ++ ext)[q / g.slotsPerCluster] ∈ ext := by
      rw [List.getElem_append_right hold]
      exact List.getElem_mem _
    rw [List.getElem_append_right hge, List.getElem_replicate, freeSlot, List.eq_replicate_iff]
    refine ⟨by simp, fun b hb => ?_⟩
    obtain ⟨k, hk, rfl⟩ := List.mem_map.mp hb
    refine hgrown.zero _ hmem _ ?_
    rw [g.clusterBytes_eq]
    have := List.mem_range.mp hk
    omega

theorem length_flatten_slots {slots : List Slot} (hlen : ∀ e ∈ slots, e.length = 32) :
    slots.flatten.length = 32 * slots.length := by
  induction slots with
  | nil => rfl
  | cons e rest ih => grind

theorem getElem?_flatten_slots {slots : List Slot} (hlen : ∀ e ∈ slots, e.length = 32) {i k : Nat}
    (hk : k < 32) : slots.flatten[32 * i + k]? = (slots[i]?).bind fun e => e[k]? := by
  induction slots generalizing i with
  | nil => simp
  | cons e rest ih => grind

/-- Slots in the place of others. -/
def putSlots (dir : List Slot) (s : Nat) (slots : List Slot) : List Slot :=
  dir.take s ++ slots ++ dir.drop (s + slots.length)

theorem getElem_putSlots {dir slots : List Slot} {s q : Nat} (hin : s + slots.length ≤ dir.length) :
    (putSlots dir s slots)[q]? =
      if s ≤ q ∧ q < s + slots.length then slots[q - s]? else dir[q]? := by
  have htake : (dir.take s).length = s := by
    rw [List.length_take]
    omega
  have hfront : (dir.take s ++ slots).length = s + slots.length := by
    rw [List.length_append, htake]
  unfold putSlots
  by_cases hlow : q < s
  · rw [if_neg (by omega), List.getElem?_append_left (by omega), List.getElem?_append_left (by omega),
      List.getElem?_take_of_lt hlow]
  · grind

theorem length_putSlots {dir slots : List Slot} {s : Nat} (hin : s + slots.length ≤ dir.length) :
    (putSlots dir s slots).length = dir.length := by
  simp only [putSlots, List.length_append, List.length_take, List.length_drop]
  omega

theorem Wrote.dirSlots (h : Shows fs g v) (hc : ChainOf g v fn chain) {s : Nat} {slots : List Slot}
    (hlen : ∀ e ∈ slots, e.length = 32) (hin : s + slots.length ≤ (dirSlots g v chain).length)
    (hw : Wrote g chain v v' (32 * s) slots.flatten) :
    dirSlots g v' chain = putSlots (dirSlots g v chain) s slots := by
  have hflat := length_flatten_slots hlen
  have hcb := g.clusterBytes_eq
  apply List.ext_getElem?
  intro q
  by_cases hq : q < (Fat.dirSlots g v chain).length
  swap
  · rw [List.getElem?_eq_none, List.getElem?_eq_none]
    · rw [length_putSlots hin]
      omega
    · rw [length_dirSlots] at hq ⊢
      omega
  have hq' : q < (Fat.dirSlots g v' chain).length := by
    rw [length_dirSlots] at hq ⊢
    exact hq
  rw [getElem_putSlots hin, List.getElem?_eq_getElem hq', getElem_dirSlots]
  rw [length_dirSlots] at hq hin
  have hbytes : ∀ j, j < chain.length * g.slotsPerCluster → ∀ k, k < 32 →
      32 * j + k < chain.length * g.clusterBytes := by
    intro j hj k hk
    rw [hcb, Nat.mul_left_comm]
    omega
  split
  · -- A new slot.
    have hlt : q - s < slots.length := by omega
    have he : slots[q - s].length = 32 := hlen _ (List.getElem_mem hlt)
    rw [List.getElem?_eq_getElem hlt, Option.some.injEq]
    apply List.ext_getElem
    · rw [length_chainSlot, he]
    intro k hk hk'
    have hplace : 32 * q + k = 32 * s + (32 * (q - s) + k) := by omega
    have hbyte := hw.inside (32 * (q - s) + k) (by omega)
    have hget := getElem?_flatten_slots hlen (i := q - s) hk
    rw [List.getElem?_eq_getElem hlt, Option.bind_some, List.getElem?_eq_getElem hk',
      List.getElem?_eq_getElem (by omega), Option.some.injEq] at hget
    rw [← hget, ← hbyte, ← hplace]
    simp [chainSlot]
  · -- An old one.
    rw [List.getElem?_eq_getElem (by rw [length_dirSlots]; exact hq), getElem_dirSlots,
      Option.some.injEq]
    apply List.map_congr_left
    intro k hk
    have hk := List.mem_range.mp hk
    apply hw.outside
    intro i hi heq
    have hadr := hc.addr_inj h (hbytes q hq k hk) (by
      have := hbytes (s + slots.length - 1) (by omega) 31 (by decide)
      omega) heq
    omega

end Fat
