import StrawOS.Fat.Directory

/-!
# Which loops end on a hostile volume

`fat_free_chain` ends because every round clears an entry, `fat_cluster_at`
because it counts, and `fat_io` because every round moves a byte.  The loops of
`fat_load_dir` and `fat_find_slots` have no such measure: on a chain that runs
into itself they go on until a slot or a failed command ends them.
-/

-- Unification counts down the literal 512 of the sector size.
set_option maxRecDepth 2000

namespace Fat

variable {fs : Fat32} {g : Geometry} {v : View}

/-! ## Freeing a chain -/

/-- The clusters in use. -/
def View.usedClusters (g : Geometry) (v : View) : List Nat :=
  (List.range (g.clusterCount + 2)).filter fun c => g.valid c && v.entry c != 0

theorem usedClusters_setEntry {c : Nat} (hc : g.valid c = true) (hlt : c < g.clusterCount + 2)
    (hused : v.entry c ≠ 0) :
    ((v.setEntry c 0).usedClusters g).length < (v.usedClusters g).length := by
  have hsub : (v.setEntry c 0).usedClusters g =
      (v.usedClusters g).filter fun x => x != c := by
    rw [View.usedClusters, View.usedClusters, List.filter_filter]
    apply List.filter_congr
    intro x _
    by_cases hx : x = c <;> simp [View.setEntry, hx]
  rw [hsub]
  apply List.length_filter_lt_length_iff_exists.mpr
  simp [View.usedClusters, hc, hlt, hused]

/-- What is left to do for `fat_free_chain`. -/
def freeMeasure (s : Fat32 × Nat) : Nat :=
  if s.1.geo.valid s.2 then (s.1.view.usedClusters s.1.geo).length + 1 else 0

theorem freeMeasure_eq (h : Sees fs g v) (c : Nat) :
    freeMeasure (fs, c) = if g.valid c then (v.usedClusters g).length + 1 else 0 := by
  simp only [freeMeasure, h.geo, h.view]

/-- A round that goes on has cleared an entry, or ends with the next. -/
theorem fatFreeRound_spec {s s' : Fat32 × Nat} (h : Sees s.1 g v)
    (hround : fatFreeRound s = .again s') :
    (∃ v', Sees s'.1 g v') ∧ freeMeasure s' < freeMeasure s := by
  obtain ⟨fs, c⟩ := s
  dsimp only at h
  unfold fatFreeRound at hround
  dsimp only at hround
  split at hround
  swap
  · cases hround
  rename_i hc
  rw [h.geo] at hc
  have hlt : c < g.clusterCount + 2 := by
    obtain rfl := h.geo
    exact (h.sane.fits.valid_iff.mp hc).2
  obtain ⟨hgot, -, -, hres⟩ := fatGet_sees h hc
  cases hround
  have hmove : ∀ {fs' : Fat32} {v' : View}, Sees fs' g v' →
      Sees { fs' with nextFree := if c < fs'.nextFree then c else fs'.nextFree } g v' := by
    intro fs' v' hs
    have hfree := hs.sane.free
    have hc2 := (valid_lt h hc).1
    exact hs.setNextFree (by split <;> omega) (by split <;> omega)
  have hbefore : freeMeasure (fs, c) = (v.usedClusters g).length + 1 := by
    rw [freeMeasure_eq h, if_pos hc]
  rcases hres with ⟨-, heoc⟩ | ⟨-, hval, hv, hs⟩
  · -- The entry could not be read; `FAT_EOC` is the last.
    obtain ⟨-, hset⟩ := fatSet_sees hgot hc (show 0 < 2 ^ 28 by decide)
    have hsees : ∃ v', Sees (fatSet (fatGet fs c).2 c 0).2 g v' := by grind
    obtain ⟨v', hs'⟩ := hsees
    refine ⟨⟨v', hmove hs'⟩, ?_⟩
    rw [hbefore, freeMeasure_eq (hmove hs'), heoc, h.eoc_invalid]
    exact Nat.succ_pos _
  · obtain ⟨-, hset⟩ := fatSet_of_held hgot hc hv hs (show 0 < 2 ^ 28 by decide)
    refine ⟨⟨_, hmove hset⟩, ?_⟩
    rw [hbefore, freeMeasure_eq (hmove hset)]
    split
    · rename_i hnext
      have hused : v.entry c ≠ 0 := by
        have := (valid_lt h hnext).1
        omega
      exact Nat.succ_lt_succ (usedClusters_setEntry hc hlt hused)
    · exact Nat.succ_pos _

/-- `fat_free_chain` ends on every table, with or without I/O errors. -/
theorem fatFreeRound_halts (h : Sees fs g v) (c : Nat) : Loop.Halts fatFreeRound (fs, c) := by
  refine Loop.halts_of_measure (P := fun s => ∃ v, Sees s.1 g v) freeMeasure ?_ ⟨v, h⟩
  rintro s s' ⟨v, hs⟩ hround
  exact fatFreeRound_spec hs hround

/-! ## Counting loops -/

/-- The walk of `fat_cluster_at` counts up to its index. -/
theorem fatWalkRound_halts (index : Nat) (s : Fat32 × Nat × Nat) :
    Loop.Halts (fatWalkRound index) s := by
  refine Loop.halts_of_measure (P := fun _ => True) (fun s => index - s.2.2) ?_ trivial
  intro s s' _ hround
  unfold fatWalkRound at hround
  split at hround
  · cases hround
    exact ⟨trivial, by dsimp only; omega⟩
  · cases hround

theorem fatCacheLoad_geo (fs : Fat32) (sector : Nat) : (fatCacheLoad fs sector).2.geo = fs.geo := by
  have hflush : (fatCacheFlush fs).2.geo = fs.geo := by
    unfold fatCacheFlush
    split
    · rfl
    · dsimp only
      split <;> rfl
  unfold fatCacheLoad
  split
  · rfl
  · dsimp only
    split
    · exact hflush
    · split <;> exact hflush

theorem fatGet_geo (fs : Fat32) (c : Nat) : (fatGet fs c).2.geo = fs.geo := by
  unfold fatGet
  dsimp only
  split <;> exact fatCacheLoad_geo fs _

theorem fatWalk_geo (steps : Nat) (fs : Fat32) (c : Nat) : (fatWalk steps fs c).2.geo = fs.geo := by
  induction steps generalizing fs c with
  | zero => rfl
  | succ steps ih =>
    rw [fatWalk]
    split
    · exact (ih _ _).trans (fatGet_geo fs c)
    · rfl

theorem fatClusterAt_geo (fs : Fat32) (fn : FatNode) (index : Nat) :
    (fatClusterAt fs fn index).2.2.geo = fs.geo := by
  unfold fatClusterAt
  dsimp only
  split <;> exact fatWalk_geo _ _ _

theorem fatRun_geo (left : Nat) (fs : Fat32) (last : Nat) : (fatRun left fs last).2.geo = fs.geo := by
  induction left generalizing fs last with
  | zero => rfl
  | succ left ih =>
    rw [fatRun]
    split
    · exact fatGet_geo fs last
    · exact (ih _ _).trans (fatGet_geo fs last)

/-- Every round of `fat_io` that goes on has moved a byte. -/
theorem fatIoRound_spec {offset len : Nat} {src : Option (List UInt8)} {s s' : IoState}
    (hspc : 0 < s.fs.geo.spc) (hround : fatIoRound offset len src s = .again s') :
    s'.fs.geo = s.fs.geo ∧ s.done < s'.done ∧ s.done < len := by
  have hcb : 0 < s.fs.geo.clusterBytes := by
    unfold Geometry.clusterBytes
    omega
  have hwithin := Nat.mod_lt (offset + s.done) hcb
  unfold fatIoRound at hround
  split at hround
  swap
  · cases hround
  rename_i hlt
  dsimp only at hround
  split at hround
  · cases hround
  split at hround
  · cases hround
  cases hround
  refine ⟨?_, ?_, hlt⟩
  · cases src with
    | none => exact (fatRun_geo _ _ _).trans (fatClusterAt_geo _ _ _)
    | some buf => exact (fatRun_geo _ _ _).trans (fatClusterAt_geo _ _ _)
  · dsimp only
    omega

/-- `fat_io` ends. -/
theorem fatIoRound_halts (offset len : Nat) (src : Option (List UInt8)) {s : IoState}
    (hspc : 0 < s.fs.geo.spc) : Loop.Halts (fatIoRound offset len src) s := by
  refine Loop.halts_of_measure (P := fun t => t.fs.geo = s.fs.geo) (fun t => len - t.done) ?_ rfl
  intro t t' ht hround
  obtain ⟨hgeo, hdone, hlt⟩ := fatIoRound_spec (by rw [ht]; exact hspc) hround
  exact ⟨hgeo.trans ht, by omega⟩

/-! ## `fat_load_dir` -/

/-- Round `n` ends `fat_load_dir`: its cluster is none, or has the last slot. -/
def LoadStops (g : Geometry) (v : View) (dn : FatNode) (n : Nat) : Prop :=
  g.valid (roundCluster v dn n) = false ∨
    ∃ e ∈ clusterSlots g v (roundCluster v dn n), slotLast e = true

/-- A round of `fat_load_dir` goes on in the next cluster. -/
theorem fatLoadRound_again {dn₀ : FatNode} {n : Nat} {s s' : LoadState}
    (h : DirAt g v dn₀ n s.fs s.dn) (hindex : s.index = n % 2 ^ 32)
    (hround : fatLoadRound s = .again s') :
    DirAt g v dn₀ (n + 1) s'.fs s'.dn ∧ s'.index = (n + 1) % 2 ^ 32 ∧ ¬ LoadStops g v dn₀ n ∧
      Spent s.fs.dev s'.fs.dev true ∧
      (s.fs.dev.faults ≠ [] → s'.fs.dev.faults.length < s.fs.dev.faults.length) := by
  rw [fatLoadRound, hindex] at hround
  generalize hat : fatClusterAt s.fs s.dn (n % 2 ^ 32) = found at hround
  obtain ⟨c, dn', fs'⟩ := found
  dsimp only at hround
  split at hround
  · cases hround
  rename_i hc
  obtain ⟨hv, rfl, hgot, -⟩ := h.visit hat hc
  split at hround
  · cases hround
  rename_i buf hbuf
  obtain ⟨hslots, hnext, hspent, hless⟩ := hgot buf hbuf
  rw [hslots] at hround
  split at hround
  · cases hround
  rename_i lfn hlfn
  cases hround
  refine ⟨hnext, by dsimp only; omega, ?_, hspent, hless⟩
  rintro (hno | hlast)
  · exact absurd (hv.symm.trans hno) (by simp)
  · rw [← readSlots_ends_iff (n % 2 ^ 32 * fs'.geo.clusterBytes) s.lfn, hlfn] at hlast
    cases hlast

theorem fatLoadRound_goes {dn₀ : FatNode} {n : Nat} {s : LoadState}
    (h : DirAt g v dn₀ n s.fs s.dn) (hindex : s.index = n % 2 ^ 32)
    (hq : true ∉ s.fs.dev.faults) (hstop : ¬ LoadStops g v dn₀ n) :
    ∃ s', fatLoadRound s = .again s' := by
  rw [LoadStops, not_or, Bool.not_eq_false] at hstop
  have hc := h.clusterAt.2 hq hstop.1
  rw [fatLoadRound, hindex]
  generalize hat : fatClusterAt s.fs s.dn (n % 2 ^ 32) = found at hc ⊢
  obtain ⟨c, dn', fs'⟩ := found
  dsimp only at hc ⊢
  obtain ⟨-, rfl, hgot, hfine⟩ := h.visit hat hc
  obtain ⟨buf, hbuf⟩ := Option.isSome_iff_exists.mp (hfine hq)
  rw [if_neg hc, hbuf]
  dsimp only
  rw [(hgot buf hbuf).1]
  have hmore := mt (readSlots_ends_iff (n % 2 ^ 32 * fs'.geo.clusterBytes) s.lfn _).mp hstop.2
  obtain ⟨lfn, hlfn⟩ := Option.ne_none_iff_exists'.mp hmore
  rw [hlfn]
  exact ⟨_, rfl⟩

/-- `fat_load_dir` ends on a failed command, or on a cluster that ends it. -/
theorem fatLoadRound_halts_iff (h : Sees fs g v) (dn : FatNode) :
    Loop.Halts fatLoadRound (loadStart fs dn) ↔
      true ∈ fs.dev.faults ∨ ∃ n, LoadStops g v dn n := by
  refine Loop.halts_iff_stop
    (P := fun n (s : LoadState) => DirAt g v dn n s.fs s.dn ∧ s.index = n % 2 ^ 32)
    (D := fun (s : LoadState) => true ∈ s.fs.dev.faults) (fun s => s.fs.dev.faults.length) ?_ ?_ ?_
  · rintro n s s' ⟨hp, hindex⟩ hround
    obtain ⟨hp', hindex', hno, hspent, hless⟩ := fatLoadRound_again hp hindex hround
    refine ⟨⟨hp', hindex'⟩, hno, hspent.mem_iff, fun hd => hless ?_⟩
    exact List.ne_nil_of_mem hd
  · rintro n s ⟨hp, hindex⟩ hq hstop
    exact fatLoadRound_goes hp hindex hq hstop
  · have h0 := DirAt.zero h { dn with loaded := true }
    exact ⟨⟨h0.sees, rfl, h0.start, h0.hint⟩, rfl⟩

/-! ## `fat_find_slots` -/

/-- The length of the run of deleted slots in front of slot `m`. -/
def runAt (slots : Nat → Slot) : Nat → Nat
  | 0 => 0
  | m + 1 => if slotDeleted (slots m) then runAt slots m + 1 else 0

theorem le_runAt_iff (slots : Nat → Slot) (k m : Nat) :
    k ≤ runAt slots m ↔ k ≤ m ∧ ∀ j, j < k → slotDeleted (slots (m - 1 - j)) = true := by
  induction m generalizing k with
  | zero =>
    simp only [runAt, Nat.le_zero]
    constructor
    · rintro rfl
      exact ⟨rfl, fun _ hj => absurd hj (Nat.not_lt_zero _)⟩
    · exact fun h => h.1
  | succ m ih =>
    cases k with
    | zero => simp
    | succ k =>
      rw [runAt]
      split
      · rename_i hdel
        rw [Nat.add_le_add_iff_right, ih, Nat.add_le_add_iff_right]
        refine and_congr_right fun _ => ⟨fun hall j hj => ?_, fun hall j hj => ?_⟩
        · cases j with
          | zero => exact hdel
          | succ j =>
            have := hall j (by omega)
            rwa [show m + 1 - 1 - (j + 1) = m - 1 - j by omega]
        · have := hall (j + 1) (by omega)
          rwa [show m + 1 - 1 - (j + 1) = m - 1 - j by omega] at this
      · rename_i hdel
        constructor
        · omega
        · intro hall
          exact absurd (hall.2 0 (by omega)) hdel

/-- The run reaches a length exactly when there are so many deleted slots in a row. -/
theorem exists_runAt_iff (slots : Nat → Slot) {needed : Nat} (hneeded : 0 < needed) :
    (∃ m, runAt slots (m + 1) = needed) ↔
      ∃ m, ∀ j, j < needed → slotDeleted (slots (m + j)) = true := by
  constructor
  · rintro ⟨m, hm⟩
    obtain ⟨hle, hall⟩ := (le_runAt_iff slots needed (m + 1)).mp (Nat.le_of_eq hm.symm)
    refine ⟨m + 1 - needed, fun j hj => ?_⟩
    have := hall (needed - 1 - j) (by omega)
    rwa [show m + 1 - 1 - (needed - 1 - j) = m + 1 - needed + j by omega] at this
  · rintro ⟨m, hm⟩
    have hlong : ∃ k, needed ≤ runAt slots k := by
      refine ⟨m + needed, (le_runAt_iff slots needed _).mpr ⟨by omega, fun j hj => ?_⟩⟩
      have := hm (needed - 1 - j) (by omega)
      rwa [show m + needed - 1 - j = m + (needed - 1 - j) by omega]
    -- The first time it is so long it is no longer.
    classical
    have hfirst := Nat.find_spec hlong
    have hbefore := fun k hk => @Nat.find_min _ _ hlong k hk
    generalize Nat.find hlong = k at hfirst hbefore
    cases k with
    | zero => simp [runAt] at hfirst; omega
    | succ k =>
      refine ⟨k, ?_⟩
      have hk := hbefore k (Nat.lt_succ_self k)
      rw [runAt] at hfirst ⊢
      split at hfirst <;> rename_i hdel
      · rw [if_pos hdel]
        omega
      · omega

/-- What the inner loop of `fat_find_slots` makes of some slots. -/
theorem scanSlots_spec {needed : Nat} (hneeded : 0 < needed) (slots : Nat → Slot) (list : List Slot) (m pos start : Nat)
    (hlist : ∀ i (h : i < list.length), list[i] = slots (m + i)) :
    (∃ run start', scanSlots needed pos (runAt slots m) start list = .more run start' ∧
      run = runAt slots (m + list.length) ∧
      ∀ i, i < list.length → slotLast (slots (m + i)) = false ∧ runAt slots (m + i + 1) ≠ needed) ∨
    ((∀ run start', scanSlots needed pos (runAt slots m) start list ≠ .more run start') ∧
      ∃ i, i < list.length ∧
        (slotLast (slots (m + i)) = true ∨ runAt slots (m + i + 1) = needed)) := by
  induction list generalizing m pos start with
  | nil => exact .inl ⟨_, _, rfl, rfl, fun i h => absurd h (Nat.not_lt_zero i)⟩
  | cons e rest ih =>
    have he : e = slots m := hlist 0 (Nat.succ_pos _)
    have hrest : ∀ i (h : i < rest.length), rest[i] = slots (m + 1 + i) := by
      intro i h
      have := hlist (i + 1) (Nat.succ_lt_succ h)
      rwa [List.getElem_cons_succ, show m + (i + 1) = m + 1 + i by omega] at this
    rw [scanSlots]
    by_cases hlast : slotLast e = true
    · rw [if_pos hlast]
      exact .inr ⟨fun _ _ => by simp, 0, Nat.succ_pos _, .inl (he ▸ hlast)⟩
    rw [if_neg hlast]
    have hlast' : slotLast (slots m) = false := by
      rw [← he]
      exact Bool.eq_false_iff.mpr hlast
    -- The run behind this slot, and the rest of the list.
    have hgo : ∀ start', runAt slots (m + 1) ≠ needed →
        (∃ run start'', scanSlots needed (pos + 32) (runAt slots (m + 1)) start' rest =
            .more run start'' ∧ run = runAt slots (m + (rest.length + 1)) ∧
          ∀ i, i < rest.length + 1 →
            slotLast (slots (m + i)) = false ∧ runAt slots (m + i + 1) ≠ needed) ∨
        ((∀ run start'', scanSlots needed (pos + 32) (runAt slots (m + 1)) start' rest ≠
            .more run start'') ∧
          ∃ i, i < rest.length + 1 ∧
            (slotLast (slots (m + i)) = true ∨ runAt slots (m + i + 1) = needed)) := by
      intro start' hne
      rcases ih (m + 1) (pos + 32) start' hrest with ⟨run, start'', heq, hrun, hall⟩ | ⟨hno, i, hi, hor⟩
      · refine .inl ⟨run, start'', heq, by rw [hrun]; congr 1; omega, fun i hi => ?_⟩
        cases i with
        | zero => exact ⟨hlast', hne⟩
        | succ i =>
          have := hall i (by omega)
          rwa [show m + 1 + i = m + (i + 1) by omega] at this
      · refine .inr ⟨hno, i + 1, by omega, ?_⟩
        rwa [show m + 1 + i = m + (i + 1) by omega] at hor
    by_cases hdel : slotDeleted e = true
    · have hsucc : runAt slots (m + 1) = runAt slots m + 1 := by
        rw [runAt, ← he, if_pos hdel]
      rw [if_pos hdel, ← hsucc]
      by_cases hfull : runAt slots (m + 1) = needed
      · rw [if_pos hfull]
        exact .inr ⟨fun _ _ => by simp, 0, Nat.succ_pos _, .inr hfull⟩
      · rw [if_neg hfull]
        exact hgo _ hfull
    · have hzero : runAt slots (m + 1) = 0 := by
        rw [runAt, ← he, if_neg hdel]
      rw [if_neg hdel]
      rw [← hzero]
      exact hgo _ (by omega)

/-- Slot `m` of a directory, in the order in which the loops meet them. -/
def slotAt (g : Geometry) (v : View) (dn : FatNode) (m : Nat) : Slot :=
  (clusterSlots g v (roundCluster v dn (m / g.slotsPerCluster))).getD (m % g.slotsPerCluster) []

theorem slotAt_cluster (hpos : 0 < g.slotsPerCluster) (dn : FatNode) (n : Nat) {i : Nat}
    (hi : i < (clusterSlots g v (roundCluster v dn n)).length) :
    (clusterSlots g v (roundCluster v dn n))[i] = slotAt g v dn (n * g.slotsPerCluster + i) := by
  have hlt : i < g.slotsPerCluster := by
    rwa [clusterSlots_length] at hi
  have hdiv : (n * g.slotsPerCluster + i) / g.slotsPerCluster = n := by
    rw [Nat.mul_comm, Nat.mul_add_div hpos, Nat.div_eq_of_lt hlt, Nat.add_zero]
  have hmod : (n * g.slotsPerCluster + i) % g.slotsPerCluster = i := by
    rw [Nat.mul_comm, Nat.mul_add_mod, Nat.mod_eq_of_lt hlt]
  rw [slotAt, hdiv, hmod, List.getD_eq_getElem?_getD, List.getElem?_eq_getElem hi, Option.getD_some]

/-- Round `n` ends `fat_find_slots`: its cluster is none, has the last slot, or
completes a run of deleted slots. -/
def FindStops (g : Geometry) (v : View) (dn : FatNode) (needed n : Nat) : Prop :=
  g.valid (roundCluster v dn n) = false ∨
    ∃ i, i < g.slotsPerCluster ∧
      (slotLast (slotAt g v dn (n * g.slotsPerCluster + i)) = true ∨
        runAt (slotAt g v dn) (n * g.slotsPerCluster + i + 1) = needed)

/-- The search before round `n`. -/
structure FindAt (g : Geometry) (v : View) (dn : FatNode) (n : Nat) (s : FindState) : Prop where
  dir : DirAt g v dn n s.fs s.dn
  index : s.index = n % 2 ^ 32
  run : s.run = runAt (slotAt g v dn) (n * g.slotsPerCluster)

/-- A round of `fat_find_slots` goes on in the next cluster. -/
theorem fatFindRound_again {dn : FatNode} {needed n : Nat} (hneeded : 0 < needed)
    {s s' : FindState} (h : FindAt g v dn n s) (hround : fatFindRound needed s = .again s') :
    FindAt g v dn (n + 1) s' ∧ ¬ FindStops g v dn needed n ∧ Spent s.fs.dev s'.fs.dev true ∧
      (s.fs.dev.faults ≠ [] → s'.fs.dev.faults.length < s.fs.dev.faults.length) := by
  have hpos := h.dir.sees.slots_pos
  rw [fatFindRound, h.index, h.run] at hround
  generalize hat : fatClusterAt s.fs s.dn (n % 2 ^ 32) = found at hround
  obtain ⟨c, dn', fs'⟩ := found
  dsimp only at hround
  split at hround
  · cases hround
  rename_i hc
  obtain ⟨hv, rfl, hgot, -⟩ := h.dir.visit hat hc
  split at hround
  · cases hround
  rename_i buf hbuf
  obtain ⟨hslots, hnext, hspent, hless⟩ := hgot buf hbuf
  rw [hslots] at hround
  have hscan := scanSlots_spec hneeded (slotAt fs'.geo v dn)
    (clusterSlots fs'.geo v (roundCluster v dn n)) (n * fs'.geo.slotsPerCluster)
    (n % 2 ^ 32 * fs'.geo.clusterBytes) s.start (fun i hi => slotAt_cluster hpos dn n hi)
  rw [clusterSlots_length] at hscan
  rcases hscan with ⟨run, start', heq, hrun, hall⟩ | ⟨hno, -⟩
  · rw [heq] at hround
    cases hround
    refine ⟨⟨hnext, by dsimp only; omega, ?_⟩, ?_, hspent, hless⟩
    · rw [hrun, Nat.add_mul, Nat.one_mul]
    · rintro (hbad | ⟨i, hi, hor⟩)
      · exact absurd (hv.symm.trans hbad) (by simp)
      · grind
  · grind

theorem fatFindRound_goes {dn : FatNode} {needed n : Nat} (hneeded : 0 < needed) {s : FindState}
    (h : FindAt g v dn n s) (hq : true ∉ s.fs.dev.faults) (hstop : ¬ FindStops g v dn needed n) :
    ∃ s', fatFindRound needed s = .again s' := by
  rw [FindStops, not_or, Bool.not_eq_false] at hstop
  have hpos := h.dir.sees.slots_pos
  have hc := h.dir.clusterAt.2 hq hstop.1
  rw [fatFindRound, h.index, h.run]
  generalize hat : fatClusterAt s.fs s.dn (n % 2 ^ 32) = found at hc ⊢
  obtain ⟨c, dn', fs'⟩ := found
  dsimp only at hc ⊢
  obtain ⟨-, rfl, hgot, hfine⟩ := h.dir.visit hat hc
  obtain ⟨buf, hbuf⟩ := Option.isSome_iff_exists.mp (hfine hq)
  rw [if_neg hc, hbuf]
  dsimp only
  rw [(hgot buf hbuf).1]
  have hscan := scanSlots_spec hneeded (slotAt fs'.geo v dn)
    (clusterSlots fs'.geo v (roundCluster v dn n)) (n * fs'.geo.slotsPerCluster)
    (n % 2 ^ 32 * fs'.geo.clusterBytes) s.start (fun i hi => slotAt_cluster hpos dn n hi)
  rw [clusterSlots_length] at hscan
  rcases hscan with ⟨run, start', heq, -, -⟩ | ⟨-, hsome⟩
  · rw [heq]
    exact ⟨_, rfl⟩
  · exact absurd hsome hstop.2

/-- `fat_find_slots` ends on a failed command, or in a round that ends it. -/
theorem fatFindRound_halts_iff (h : Sees fs g v) (dn : FatNode) {needed : Nat}
    (hneeded : 0 < needed) :
    Loop.Halts (fatFindRound needed) { fs := fs, dn := dn } ↔
      true ∈ fs.dev.faults ∨ ∃ n, FindStops g v dn needed n := by
  refine Loop.halts_iff_stop (P := FindAt g v dn)
    (D := fun (s : FindState) => true ∈ s.fs.dev.faults) (fun s => s.fs.dev.faults.length) ?_ ?_ ?_
  · intro n s s' hp hround
    obtain ⟨hp', hno, hspent, hless⟩ := fatFindRound_again hneeded hp hround
    exact ⟨hp', hno, hspent.mem_iff, fun hd => hless (List.ne_nil_of_mem hd)⟩
  · exact fun n s hp hq hstop => fatFindRound_goes hneeded hp hq hstop
  · exact ⟨.zero h dn, rfl, by rw [Nat.zero_mul]; rfl⟩

/-! ## The condition -/

/-- The chain of a directory ends. -/
def ChainEnds (g : Geometry) (v : View) (dn : FatNode) : Prop :=
  ∃ n, g.valid (roundCluster v dn n) = false

/-- The directory has a last slot. -/
def HasLastSlot (g : Geometry) (v : View) (dn : FatNode) : Prop :=
  ∃ m, slotLast (slotAt g v dn m) = true

/-- The directory has a number of deleted slots in a row. -/
def HasRoom (g : Geometry) (v : View) (dn : FatNode) (needed : Nat) : Prop :=
  ∃ m, ∀ j, j < needed → slotDeleted (slotAt g v dn (m + j)) = true

theorem exists_slot_iff (hpos : 0 < g.slotsPerCluster) (p : Nat → Prop) :
    (∃ n i, i < g.slotsPerCluster ∧ p (n * g.slotsPerCluster + i)) ↔ ∃ m, p m := by
  constructor
  · rintro ⟨n, i, -, h⟩
    exact ⟨_, h⟩
  · rintro ⟨m, h⟩
    refine ⟨m / g.slotsPerCluster, m % g.slotsPerCluster, Nat.mod_lt _ hpos, ?_⟩
    rwa [Nat.mul_comm, Nat.div_add_mod]

theorem exists_loadStops_iff (hpos : 0 < g.slotsPerCluster) (dn : FatNode) :
    (∃ n, LoadStops g v dn n) ↔ ChainEnds g v dn ∨ HasLastSlot g v dn := by
  have hlast : ∀ n, (∃ e ∈ clusterSlots g v (roundCluster v dn n), slotLast e = true) ↔
      ∃ i, i < g.slotsPerCluster ∧
        slotLast (slotAt g v dn (n * g.slotsPerCluster + i)) = true := by
    intro n
    constructor
    · rintro ⟨e, he, hl⟩
      obtain ⟨i, hi, rfl⟩ := List.mem_iff_getElem.mp he
      refine ⟨i, by rwa [clusterSlots_length] at hi, ?_⟩
      rwa [← slotAt_cluster hpos dn n hi]
    · rintro ⟨i, hi, hl⟩
      rw [← clusterSlots_length g v (roundCluster v dn n)] at hi
      refine ⟨_, List.getElem_mem hi, ?_⟩
      rwa [slotAt_cluster hpos dn n hi]
  simp only [LoadStops, exists_or, hlast, ChainEnds, HasLastSlot]
  rw [exists_slot_iff hpos fun m => slotLast (slotAt g v dn m) = true]

theorem exists_findStops_iff (hpos : 0 < g.slotsPerCluster) (dn : FatNode) {needed : Nat}
    (hneeded : 0 < needed) :
    (∃ n, FindStops g v dn needed n) ↔
      ChainEnds g v dn ∨ HasLastSlot g v dn ∨ HasRoom g v dn needed := by
  simp only [FindStops, exists_or, ChainEnds]
  rw [exists_slot_iff hpos fun m => slotLast (slotAt g v dn m) = true ∨
    runAt (slotAt g v dn) (m + 1) = needed, exists_or, exists_runAt_iff _ hneeded]
  rfl

/-- The five loops end: those of `fat_free_chain` from a cluster, of `fat_cluster_at`
for an index, of `fat_io` for a range, and those of `fat_load_dir` and
`fat_find_slots` on a directory. -/
structure Terminates (fs : Fat32) (c : Nat) (walk : Nat × Nat × Nat) (fn : FatNode)
    (offset len : Nat) (src : Option (List UInt8)) (dn : FatNode) (needed : Nat) : Prop where
  free : Loop.Halts fatFreeRound (fs, c)
  clusterAt : Loop.Halts (fatWalkRound walk.1) (fs, walk.2)
  io : Loop.Halts (fatIoRound offset len src) ⟨fs, fn, 0, []⟩
  load : Loop.Halts fatLoadRound (loadStart fs dn)
  find : Loop.Halts (fatFindRound needed) { fs := fs, dn := dn }

/-- **Termination.**  On any table and any directory bytes, with or without I/O
errors, all five end if and only if a command fails, the chain of the directory
ends, or the directory has a last slot. -/
theorem terminates_iff (h : Sees fs g v) (c : Nat) (walk : Nat × Nat × Nat) (fn : FatNode)
    (offset len : Nat) (src : Option (List UInt8)) (dn : FatNode) (needed : Nat)
    (hneeded : 0 < needed) :
    Terminates fs c walk fn offset len src dn needed ↔
      true ∈ fs.dev.faults ∨ ChainEnds g v dn ∨ HasLastSlot g v dn := by
  have hload := fatLoadRound_halts_iff h dn
  have hfind := fatFindRound_halts_iff h dn hneeded
  rw [exists_loadStops_iff h.slots_pos] at hload
  rw [exists_findStops_iff h.slots_pos dn hneeded] at hfind
  constructor
  · exact fun ht => hload.mp ht.load
  · intro hcond
    have hspc := h.sane.fits.spc
    refine ⟨fatFreeRound_halts h c, fatWalkRound_halts _ _, fatIoRound_halts _ _ _ hspc,
      hload.mpr hcond, hfind.mpr ?_⟩
    rcases hcond with hc | hc | hc
    · exact .inl hc
    · exact .inr (.inl hc)
    · exact .inr (.inr (.inl hc))

/-! ## Two volumes -/

/-- The chain of the file in clusters 2 and 3 ends, so everything does. -/
theorem twoClusters_terminates :
    Terminates (twoClusters []) 2 (5, 2, 0) { cluster := 2 } 0 100 none { cluster := 2 } 2 :=
  (terminates_iff (twoClusters_sees []) 2 (5, 2, 0) { cluster := 2 } 0 100 none { cluster := 2 } 2
    (by decide)).mpr (.inr (.inl ⟨2, by decide +kernel⟩))

/-- A volume just mounted whose cluster 2 is followed by itself, and full of
entries. -/
def loopVolume : Fat32 where
  geo := smallGeometry 1
  nextFree := 2
  cacheSector := 0
  cacheValid := false
  cacheDirty := false
  cache := fun _ => 0
  dev :=
    { sectors := 4096
      data := fun a =>
        if a < 512 then (smallDisk 1).data a else if a = 520 then 2 else if a < 1024 then 0 else 65 }

theorem loopVolume_sees : Sees loopVolume (smallGeometry 1) loopVolume.view where
  sane :=
    { fits := smallGeometry_fits
      free := ⟨Nat.le_refl 2, by simp [loopVolume, smallGeometry]⟩
      held := fun h => absurd h Bool.false_ne_true
      dirty := fun h => absurd h Bool.false_ne_true
      clean := fun _ h => absurd h Bool.false_ne_true }
  geo := rfl
  view := rfl

/-- The root directory of this volume is never loaded. -/
theorem loop_never_loaded :
    ¬ ∀ (fs : Fat32) (g : Geometry) (v : View) (dn : FatNode), Sees fs g v →
      Loop.Halts fatLoadRound (loadStart fs dn) := by
  intro hall
  have hhalts := hall loopVolume _ _ { cluster := 2 } loopVolume_sees
  rw [fatLoadRound_halts_iff loopVolume_sees] at hhalts
  have hround : ∀ n, roundCluster loopVolume.view { cluster := 2 } n = 2 := by
    intro n
    have hfix : loopVolume.view.entry 2 = 2 := by decide +kernel
    have hfirst : firstCluster { cluster := 2 } n = 2 := by
      unfold firstCluster
      split <;> rfl
    rw [roundCluster, hfirst]
    exact Function.iterate_fixed hfix _
  have hlive : ∀ e ∈ clusterSlots (smallGeometry 1) loopVolume.view 2, slotLast e = false := by
    decide +kernel
  rcases hhalts with hbad | ⟨n, hbad | ⟨e, he, hlast⟩⟩
  · exact absurd hbad List.not_mem_nil
  · rw [hround] at hbad
    exact absurd hbad (by decide)
  · rw [hround] at he
    rw [hlive e he] at hlast
    exact Bool.false_ne_true hlast

end Fat
