import StrawOS.Fat.Chain

/-!
# Making a chain longer when reads fail

`fat_extend` walks to the end of a chain and links free clusters behind it.  It
knows the end by an entry that is no cluster, and `fat_get` answers `FAT_EOC`
for an entry that could not be read.  A walk whose reads succeed changes no link
(`fatExtendLoop_of_walk`); a failed read in the middle makes the next allocation
replace a link, unless that allocation fails too.

`walkFault` finds the first read of a walk that fails.
-/

namespace Fat

variable {fs : Fat32} {g : Geometry} {v : View}

/-! ## Chains of valid clusters -/

theorem View.next_eq_some {c d : Nat} :
    v.next g c = some d ↔ v.entry c = d ∧ g.valid d = true := by
  unfold View.next
  split
  · grind
  · grind

theorem View.next_eq_none {c : Nat} : v.next g c = none ↔ g.valid (v.entry c) = false := by
  unfold View.next
  split <;> simp_all

theorem chain_valid {start : Option Nat} {chain : List Nat} (h : PtrChain (v.next g) start chain)
    (hs : ∀ c, start = some c → g.valid c = true) : ∀ c ∈ chain, g.valid c = true := by
  induction chain generalizing start with
  | nil => simp
  | cons a l ih =>
    obtain ⟨ha, hl⟩ := h
    intro c hc
    rcases List.mem_cons.mp hc with rfl | hc
    · exact hs c ha
    · exact ih hl (fun d hd => (View.next_eq_some.mp hd).2) c hc

theorem ChainOf.valid {fn : FatNode} {chain : List Nat} (h : ChainOf g v fn chain) :
    ∀ c ∈ chain, g.valid c = true := by
  refine chain_valid h.linked fun c hc => ?_
  unfold Geometry.start at hc
  split at hc
  · rename_i hv
    obtain rfl := Option.some.inj hc
    exact hv
  · cases hc

/-! ## Taking a cluster -/

/-- The view after a free cluster was marked and linked behind `prev`. -/
def View.take (v : View) (prev c : Nat) : View :=
  if prev ≠ 0 then (v.setEntry c fatEoc).setEntry prev c else v.setEntry c fatEoc

theorem valid_lt (h : Sees fs g v) {c : Nat} (hc : g.valid c = true) : 2 ≤ c ∧ c < 2 ^ 28 := by
  obtain rfl := h.geo
  have hm := h.sane.fits.marks
  have hv := h.sane.fits.valid_iff.mp hc
  omega

/-- The entries that are in use stay, apart from the one of `prev`. -/
def KeepsUsed (v v' : View) (prev : Nat) : Prop :=
  ∀ x, x ≠ prev → v.entry x ≠ 0 → v'.entry x = v.entry x

theorem KeepsUsed.refl (v : View) (prev : Nat) : KeepsUsed v v prev := fun _ _ _ => rfl

theorem KeepsUsed.take {prev c : Nat} (hfree : v.entry c = 0) :
    KeepsUsed v (v.take prev c) prev := by
  intro x hx hused
  have hxc : x ≠ c := fun h => hused (h ▸ hfree)
  unfold View.take
  split <;> simp [View.setEntry, hx, hxc]

/-- What taking a free cluster does: all of it, or it fails and the entries in use
stay. -/
def Takes (v : View) (g : Geometry) (prev : Nat) (r : Nat × Fat32) : Prop :=
  (r.1 = 0 ∧ ∃ v', Sees r.2 g v' ∧ ∀ x, v.entry x ≠ 0 → v'.entry x = v.entry x) ∨
    (g.valid r.1 = true ∧ v.entry r.1 = 0 ∧ Sees r.2 g (v.take prev r.1))

theorem fatTake_sees (h : Sees fs g v) {prev c : Nat} (hprev : prev ≠ 0 → g.valid prev = true)
    (hc : g.valid c = true) (hfree : v.entry c = 0) : Takes v g prev (fatTake fs prev false c) := by
  obtain ⟨hc2, hclt⟩ := valid_lt h hc
  have hbound : c < g.clusterCount + 2 := by
    obtain rfl := h.geo
    exact (h.sane.fits.valid_iff.mp hc).2
  obtain ⟨-, hmark⟩ := fatSet_sees h hc (show fatEoc < 2 ^ 28 by decide)
  unfold fatTake
  simp only [Bool.false_eq_true, if_false, Bool.not_true]
  rcases hmark with ⟨hno, hsame⟩ | ⟨hyes, hmarked⟩
  · rw [if_pos (by simp [hno])]
    exact .inl ⟨rfl, v, hsame, fun _ _ => rfl⟩
  · rw [if_neg (by simp [hyes])]
    have hkeep : ∀ x, v.entry x ≠ 0 → (v.setEntry c fatEoc).entry x = v.entry x := by
      intro x hx
      have hxc : x ≠ c := fun h => hx (h ▸ hfree)
      simp [View.setEntry, hxc]
    have hdone : ∀ fs', Sees fs' g (v.take prev c) → Takes v g prev
        (c, { fs' with nextFree :=
          if c + 1 < (fs.geo.clusterCount + 2) % 2 ^ 32 then c + 1 else 2 }) := by
      intro fs' hs
      refine .inr ⟨hc, hfree, hs.setNextFree ?_ ?_⟩
      · split <;> omega
      · have hm := h.sane.fits.marks
        rw [h.geo] at hm ⊢
        split <;> omega
    by_cases hp : prev ≠ 0
    · obtain ⟨-, hlink⟩ := fatSet_sees hmarked (hprev hp) hclt
      rw [if_pos hp]
      rcases hlink with ⟨hno, hsame⟩ | ⟨hyes', hlinked⟩
      · rw [if_pos (by simp [hno])]
        exact .inl ⟨rfl, _, hsame, hkeep⟩
      · rw [if_neg (by simp [hyes'])]
        apply hdone
        rw [View.take, if_pos hp]
        exact hlinked
    · rw [if_neg hp, if_neg (by simp)]
      apply hdone
      rw [View.take, if_neg hp]
      exact hmarked

theorem fatCandidate_valid (h : Sees fs g v) (hcount : 0 < g.clusterCount) (n : Nat) :
    g.valid (fatCandidate fs n) = true := by
  obtain rfl := h.geo
  rw [h.sane.fits.valid_iff, fatCandidate]
  have := Nat.mod_lt ((fs.nextFree - 2 + n) % 2 ^ 32) hcount
  omega

theorem fatAllocLoop_sees {prev : Nat} (hprev : prev ≠ 0 → g.valid prev = true) (left n : Nat)
    (h : Sees fs g v) (hleft : left ≤ g.clusterCount) :
    Takes v g prev (fatAllocLoop prev false left n fs) := by
  induction left generalizing n fs with
  | zero => exact .inl ⟨rfl, v, h, fun _ _ => rfl⟩
  | succ left ih =>
    have hc := fatCandidate_valid h (by omega) n
    obtain ⟨hgot, -, -, hres⟩ := fatGet_sees h hc
    rw [fatAllocLoop]
    split
    · exact ih _ hgot (by omega)
    · rename_i hzero
      refine fatTake_sees hgot hprev hc ?_
      rcases hres with ⟨-, heoc⟩ | ⟨-, hval, -, -⟩
      · rw [heoc] at hzero
        exact absurd hzero (by decide)
      · rw [← hval]
        exact not_not.mp hzero

/-- `fat_alloc` takes a free cluster or fails. -/
theorem fatAlloc_sees (h : Sees fs g v) {prev : Nat} (hprev : prev ≠ 0 → g.valid prev = true) :
    Takes v g prev (fatAlloc fs prev false) := by
  refine fatAllocLoop_sees hprev _ _ h ?_
  rw [h.geo]

/-! ## Behind the end of a chain -/

/-- From a cluster without a successor the loop changes only the entry of that
cluster and entries that were free. -/
theorem fatExtendLoop_at_end (left i : Nat) {c : Nat} (h : Sees fs g v) (hc : g.valid c = true)
    (hend : g.valid (v.entry c) = false) (hused : v.entry c ≠ 0) :
    ∃ v', Sees (fatExtendLoop false left i c fs).2 g v' ∧ KeepsUsed v v' c := by
  induction left generalizing fs v i c with
  | zero => exact ⟨v, h, .refl v c⟩
  | succ left ih =>
    obtain ⟨hgot, -, -, hres⟩ := fatGet_sees h hc
    have hstop : g.valid (fatGet fs c).1 = false := by
      rcases hres with ⟨-, heoc⟩ | ⟨-, hval, -, -⟩
      · rw [heoc]
        exact h.eoc_invalid
      · rw [hval]
        exact hend
    have hmade := fatAlloc_sees hgot fun _ : c ≠ 0 => hc
    rw [fatExtendLoop]
    rw [h.geo, if_neg (by simp [hstop])]
    rcases hmade with ⟨hzero, v', hs, hkeep⟩ | ⟨hvalid, hfree, hs⟩
    · rw [if_pos hzero]
      exact ⟨v', hs, fun x _ hx => hkeep x hx⟩
    · have hne : (fatAlloc (fatGet fs c).2 c false).1 ≠ 0 := by
        have := (valid_lt h hvalid).1
        omega
      have hc0 : c ≠ 0 := by
        have := (valid_lt h hc).1
        omega
      rw [if_neg hne]
      generalize fatAlloc (fatGet fs c).2 c false = made at hvalid hfree hs hne ⊢
      have hcm : made.1 ≠ c := fun heq => hused (heq ▸ hfree)
      have hentry : (v.take c made.1).entry made.1 = fatEoc := by
        simp [View.take, hc0, View.setEntry, hcm]
      obtain ⟨v', hs', hkeep⟩ := ih (i + 1) hs hvalid
        (by rw [hentry]; exact h.eoc_invalid) (by rw [hentry]; decide)
      refine ⟨v', hs', fun x hx hxu => ?_⟩
      have hxm : x ≠ made.1 := fun heq => hxu (heq ▸ hfree)
      have hstep : (v.take c made.1).entry x = v.entry x := KeepsUsed.take hfree x hx hxu
      rw [← hstep]
      exact hkeep x hxm (by rw [hstep]; exact hxu)

/-! ## A walk with a failed read -/

/-- The first read of a walk over some clusters that fails: the cluster whose entry
it is, and the state behind it. -/
def walkFault : Fat32 → List Nat → Option (Nat × Fat32)
  | _, [] => none
  | fs, c :: rest =>
      let loaded := fatCacheLoad fs (c / 128)
      if loaded.1 then walkFault loaded.2 rest else some (c, loaded.2)

/-- What the loop does along a chain whose first cluster is `c`. -/
theorem fatExtendLoop_walk (left i : Nat) {c : Nat} {rest : List Nat} (h : Sees fs g v)
    (hchain : PtrChain (v.next g) (some c) (c :: rest)) (hvalid : ∀ x ∈ c :: rest, g.valid x = true)
    (hused : ∀ x ∈ c :: rest, v.entry x ≠ 0) :
    match walkFault fs ((c :: rest).dropLast.take left) with
    | none => ∃ v', Sees (fatExtendLoop false left i c fs).2 g v' ∧
        ∀ x, v.entry x ≠ 0 → (c :: rest).getLast? ≠ some x → v'.entry x = v.entry x
    | some (d, fs') =>
        ((fatAlloc fs' d false).1 = 0 → (fatExtendLoop false left i c fs).1 = none ∧
          ∃ v', Sees (fatExtendLoop false left i c fs).2 g v' ∧
            ∀ x, v.entry x ≠ 0 → v'.entry x = v.entry x) ∧
        ((fatAlloc fs' d false).1 ≠ 0 →
          ∃ v', Sees (fatExtendLoop false left i c fs).2 g v' ∧
            ∃ x ∈ (c :: rest).dropLast, v'.entry x ≠ v.entry x) := by
  induction left generalizing fs i c rest with
  | zero => exact ⟨v, h, fun _ _ _ => rfl⟩
  | succ left ih =>
    have hc := hvalid c List.mem_cons_self
    cases rest with
    | nil =>
      -- The last cluster of the chain.
      have hend : g.valid (v.entry c) = false := View.next_eq_none.mp hchain.2
      obtain ⟨v', hs, hkeep⟩ := fatExtendLoop_at_end (left + 1) i h hc hend
        (hused c List.mem_cons_self)
      refine ⟨v', hs, fun x hx hlast => hkeep x ?_ hx⟩
      rintro rfl
      exact hlast rfl
    | cons d rest =>
      obtain ⟨hd, hrest⟩ := hchain.2
      obtain ⟨hentry, hdv⟩ := View.next_eq_some.mp hd
      obtain ⟨hgot, -, hstate, hres⟩ := fatGet_sees h hc
      have hgo : (c :: d :: rest).dropLast.take (left + 1) = c :: (d :: rest).dropLast.take left :=
        rfl
      rw [hgo, walkFault]
      rcases hres with ⟨hfail, heoc⟩ | ⟨hload, hval, -, -⟩
      · -- The read of this entry fails.
        rw [if_neg (by simp [hfail]), hstate]
        have hmade := fatAlloc_sees hgot fun _ : c ≠ 0 => hc
        have hc0 : c ≠ 0 := by
          have := (valid_lt h hc).1
          omega
        have hloop : fatExtendLoop false (left + 1) i c fs =
            if (fatAlloc (fatGet fs c).2 c false).1 = 0 then
              (none, (fatAlloc (fatGet fs c).2 c false).2)
            else fatExtendLoop false left (i + 1) (fatAlloc (fatGet fs c).2 c false).1
              (fatAlloc (fatGet fs c).2 c false).2 := by
          rw [fatExtendLoop]
          rw [h.geo, if_neg]
          rw [heoc, h.eoc_invalid]
          exact Bool.false_ne_true
        rw [hloop]
        dsimp only
        generalize fatAlloc (fatGet fs c).2 c false = made at hmade ⊢
        rcases hmade with ⟨hzero, v', hs, hkeep⟩ | ⟨hmv, hfree, hs⟩
        · rw [if_pos hzero]
          exact ⟨fun _ => ⟨rfl, v', hs, hkeep⟩, fun hne => absurd hzero hne⟩
        · have hne : made.1 ≠ 0 := by
            have := (valid_lt h hmv).1
            omega
          rw [if_neg hne]
          refine ⟨fun hzero => absurd hzero hne, fun _ => ?_⟩
          have hcm : made.1 ≠ c := fun heq => hused c List.mem_cons_self (heq ▸ hfree)
          have heoc' : (v.take c made.1).entry made.1 = fatEoc := by
            simp [View.take, hc0, View.setEntry, hcm]
          have hlink : (v.take c made.1).entry c = made.1 := by
            simp [View.take, hc0, View.setEntry]
          obtain ⟨v', hs', hkeep⟩ := fatExtendLoop_at_end left (i + 1) hs hmv
            (by rw [heoc']; exact h.eoc_invalid) (by rw [heoc']; decide)
          refine ⟨v', hs', c, List.mem_cons_self, ?_⟩
          rw [hkeep c hcm.symm (by rw [hlink]; exact hne), hlink, hentry]
          rintro rfl
          exact hused made.1 (List.mem_cons_of_mem _ List.mem_cons_self) hfree
      · -- The read succeeds, and the walk goes on.
        rw [if_pos hload, hstate]
        have hloop : fatExtendLoop false (left + 1) i c fs =
            fatExtendLoop false left (i + 1) d (fatGet fs c).2 := by
          rw [fatExtendLoop]
          rw [h.geo, hval, hentry, if_pos hdv]
        rw [hloop]
        have hnext := ih (i + 1) hgot ⟨rfl, hrest⟩
          (fun x hx => hvalid x (List.mem_cons_of_mem _ hx))
          (fun x hx => hused x (List.mem_cons_of_mem _ hx))
        revert hnext
        cases walkFault (fatGet fs c).2 ((d :: rest).dropLast.take left) with
        | none => exact fun hnext => hnext
        | some fault => grind

/-! ## `fat_extend` -/

/-- The clusters whose entries `fat_extend` reads before it is at the end of the
chain, or far enough. -/
def extendWalk (fn : FatNode) (chain : List Nat) (clusters : Nat) : List Nat :=
  (chain.drop (fn.extendStart clusters).1).dropLast.take
    (clusters - 1 - (fn.extendStart clusters).1)

/-- No read of the walk fails, or the allocation behind it fails as well. -/
def WalkSafe (fs : Fat32) (fn : FatNode) (chain : List Nat) (clusters : Nat) : Prop :=
  ∀ c fs', walkFault fs (extendWalk fn chain clusters) = some (c, fs') → (fatAlloc fs' c false).1 = 0

/-- The entries of all clusters but the last are what they were, and a failed read
of one of them makes the operation fail. -/
def LinksKept (fs : Fat32) (v : View) (fn : FatNode) (chain : List Nat) (clusters : Nat) : Prop :=
  (∀ c ∈ chain.dropLast,
      (fatExtend fs fn clusters false).2.2.view.entry c = v.entry c) ∧
    ((walkFault fs (extendWalk fn chain clusters)).isSome = true →
      (fatExtend fs fn clusters false).1 = false)

variable {fn : FatNode} {chain : List Nat}

/-- Where `fat_extend` starts is on the chain. -/
theorem ChainOf.extendStart (h : ChainOf g v fn chain) (hne : chain ≠ []) (clusters : Nat) :
    ∃ rest, chain.drop (fn.extendStart clusters).1 = (fn.extendStart clusters).2 :: rest := by
  have hcons : ∀ {i c : Nat}, chain[i]? = some c → ∃ rest, chain.drop i = c :: rest := by
    intro i c hi
    obtain ⟨hlt, hget⟩ := List.getElem?_eq_some_iff.mp hi
    exact ⟨chain.drop (i + 1), by rw [List.drop_eq_getElem_cons hlt, hget]⟩
  unfold FatNode.extendStart
  split
  · rename_i hhint
    exact hcons (h.hint hhint.1)
  · obtain ⟨a, l, rfl⟩ := List.exists_cons_of_ne_nil hne
    have hstart := h.linked.1
    unfold Geometry.start at hstart
    split at hstart
    · exact ⟨l, by rw [Option.some.inj hstart]; rfl⟩
    · cases hstart

theorem fatExtend_loop {clusters : Nat} (h0 : clusters ≠ 0)
    (hv : fs.geo.valid fn.cluster = true) :
    (fatExtend fs fn clusters false).2.2 =
        (fatExtendLoop false (clusters - 1 - (fn.extendStart clusters).1)
          (fn.extendStart clusters).1 (fn.extendStart clusters).2 fs).2 ∧
      ((fatExtendLoop false (clusters - 1 - (fn.extendStart clusters).1)
          (fn.extendStart clusters).1 (fn.extendStart clusters).2 fs).1 = none →
        (fatExtend fs fn clusters false).1 = false) := by
  rw [fatExtend, if_neg h0, fatFirst, if_pos hv]
  simp only [Bool.not_true, Bool.false_eq_true, if_false]
  generalize fatExtendLoop false (clusters - 1 - (fn.extendStart clusters).1)
    (fn.extendStart clusters).1 (fn.extendStart clusters).2 fs = r
  obtain ⟨last, fs'⟩ := r
  cases last with
  | none => exact ⟨rfl, fun _ => rfl⟩
  | some last => exact ⟨rfl, fun hno => by cases hno⟩

/-- **Failed reads and links.**  `fat_extend` keeps the links of a file in order, and
fails when it could not read one, if and only if no read of its walk fails in
front of an allocation that succeeds. -/
theorem links_kept_iff (h : Sees fs g v) (hc : ChainOf g v fn chain) (clusters : Nat) :
    LinksKept fs v fn chain clusters ↔ WalkSafe fs fn chain clusters := by
  by_cases hne : chain = []
  · subst hne
    have hnone : walkFault fs (extendWalk fn [] clusters) = none := by
      simp [extendWalk, walkFault]
    refine iff_of_true ⟨by simp, by simp [hnone]⟩ ?_
    intro c fs' hfault
    rw [hnone] at hfault
    cases hfault
  by_cases h0 : clusters = 0
  · subst h0
    have hnone : walkFault fs (extendWalk fn chain 0) = none := by
      simp [extendWalk, walkFault]
    refine iff_of_true ⟨fun c _ => ?_, by simp [hnone]⟩ ?_
    · rw [← h.view]
      rfl
    · intro c fs' hfault
      rw [hnone] at hfault
      cases hfault
  have hv : fs.geo.valid fn.cluster = true := by
    obtain ⟨a, l, rfl⟩ := List.exists_cons_of_ne_nil hne
    have hstart := hc.linked.1
    unfold Geometry.start at hstart
    rw [h.geo]
    split at hstart
    · assumption
    · cases hstart
  obtain ⟨hstate, hresult⟩ := fatExtend_loop h0 hv
  obtain ⟨rest, hdrop⟩ := hc.extendStart hne clusters
  unfold LinksKept WalkSafe extendWalk
  rw [hstate, hdrop]
  generalize fn.extendStart clusters = start at hstate hresult hdrop ⊢
  obtain ⟨i, c⟩ := start
  have hsplit : chain = chain.take i ++ c :: rest := by rw [← hdrop, List.take_append_drop]
  have hchain := hc.linked
  rw [hsplit] at hchain
  have hsub : ∀ x ∈ c :: rest, x ∈ chain := by
    intro x hx
    rw [hsplit]
    exact List.mem_append_right _ hx
  have hwalk := fatExtendLoop_walk (clusters - 1 - i) i h hchain.tail_of_append
    (fun x hx => hc.valid x (hsub x hx)) (fun x hx => hc.used x (hsub x hx))
  have hlast : chain.getLast? = (c :: rest).getLast? := by
    rw [hsplit, List.getLast?_append_of_ne_nil _ (List.cons_ne_nil c rest)]
  have hdropLast : ∀ x ∈ (c :: rest).dropLast, x ∈ chain.dropLast := by grind
  have hnotLast : ∀ x ∈ chain.dropLast, chain.getLast? ≠ some x := by
    intro x hx hxl
    have hnd := hc.linked.nodup
    rw [← List.dropLast_append_getLast hne] at hnd
    rw [List.getLast?_eq_getLast_of_ne_nil hne] at hxl
    obtain rfl := Option.some.inj hxl
    exact (List.nodup_append.mp hnd).2.2 _ hx _ (List.mem_singleton_self _) rfl
  revert hwalk
  cases walkFault fs ((c :: rest).dropLast.take (clusters - 1 - i)) with
  | none =>
    rintro ⟨v', hs, hkeep⟩
    refine iff_of_true ⟨fun x hx => ?_, by simp⟩ (by simp)
    rw [hs.view]
    refine hkeep x (hc.used x (List.dropLast_subset chain hx)) ?_
    rw [← hlast]
    exact hnotLast x hx
  | some fault =>
    obtain ⟨d, fs'⟩ := fault
    rintro ⟨hno, hyes⟩
    constructor
    · rintro ⟨hkept, -⟩ c' fs'' heq
      cases heq
      by_contra hmade
      obtain ⟨v', hs, x, hx, hdiff⟩ := hyes hmade
      apply hdiff
      rw [← hs.view]
      exact hkept x (hdropLast x hx)
    · intro hsafe
      obtain ⟨hfail, v', hs, hkeep⟩ := hno (hsafe d fs' rfl)
      refine ⟨fun x hx => ?_, fun _ => hresult hfail⟩
      rw [hs.view]
      exact hkeep x (hc.used x (List.dropLast_subset chain hx))

/-! ## A file of two clusters -/

/-- A volume just mounted, with a file in clusters 2 and 3, and the outcomes of the
coming commands. -/
def twoClusters (faults : List Bool) : Fat32 where
  geo := smallGeometry 1
  nextFree := 2
  cacheSector := 0
  cacheValid := false
  cacheDirty := false
  cache := fun _ => 0
  dev :=
    { sectors := 4096
      data := fun a =>
        if a = 520 then 3 else if 524 ≤ a ∧ a < 527 then 0xFF else if a = 527 then 0x0F else 0
      faults := faults }

theorem smallGeometry_fits : (smallGeometry 1).Fits 4096 :=
  ⟨by decide, by decide, by decide, by decide, by decide, by decide, by decide, by decide⟩

theorem twoClusters_sees (faults : List Bool) :
    Sees (twoClusters faults) (smallGeometry 1) (twoClusters faults).view where
  sane :=
    { fits := smallGeometry_fits
      free := ⟨Nat.le_refl 2, by simp [twoClusters, smallGeometry]⟩
      held := fun h => absurd h Bool.false_ne_true
      dirty := fun h => absurd h Bool.false_ne_true
      clean := fun _ h => absurd h Bool.false_ne_true }
  geo := rfl
  view := rfl

theorem twoClusters_chain (faults : List Bool) :
    ChainOf (smallGeometry 1) (twoClusters faults).view { cluster := 2 } [2, 3] where
  linked := by
    refine ⟨by decide, ?_, ?_⟩
    · show View.next (smallGeometry 1) (twoClusters []).view 2 = some 3
      decide +kernel
    · show View.next (smallGeometry 1) (twoClusters []).view 3 = none
      decide +kernel
  used := by
    show ∀ c ∈ [2, 3], (twoClusters []).view.entry c ≠ 0
    decide +kernel
  hint := fun h => absurd rfl h

/-- Without errors the link from cluster 2 to cluster 3 is kept. -/
theorem twoClusters_kept : LinksKept (twoClusters []) (twoClusters []).view { cluster := 2 } [2, 3] 2 :=
  (links_kept_iff (twoClusters_sees []) (twoClusters_chain []) 2).mpr (by
    have hnone : (walkFault (twoClusters []) (extendWalk { cluster := 2 } [2, 3] 2)).isNone = true := by
      decide +kernel
    intro c fs' hfault
    rw [hfault] at hnone
    cases hnone)

/-- When the first read of the table fails, cluster 4 takes the place of
cluster 3. -/
theorem failed_read_loses_cluster :
    ¬ ∀ (fs : Fat32) (g : Geometry) (v : View) (fn : FatNode) (chain : List Nat) (clusters : Nat),
      Sees fs g v → ChainOf g v fn chain →
        ∀ c ∈ chain.dropLast, (fatExtend fs fn clusters false).2.2.view.entry c = v.entry c := by
  intro hall
  have hkept := hall _ _ _ _ _ 2 (twoClusters_sees [true]) (twoClusters_chain [true]) 2 (by simp)
  have hlost : (fatExtend (twoClusters [true]) { cluster := 2 } 2 false).2.2.view.entry 2 = 4 ∧
      (twoClusters [true]).view.entry 2 = 3 := by decide +kernel
  rw [hlost.1, hlost.2] at hkept
  exact absurd hkept (by decide)

end Fat
