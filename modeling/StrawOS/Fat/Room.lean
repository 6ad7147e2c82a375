import StrawOS.Fat.Grow

/-!
# Room for an entry

`fat_find_slots` on a directory whose chain ends: `RoomAt` says which slots it
chooses, by the content of the directory alone, and `ChainOf.findSlots` that the
directory then has these slots, unless the volume is full.
-/

-- Unification counts down the literal 512 of the sector size.
set_option maxRecDepth 2000

namespace Fat

/-! ## The choice -/

/-- Room for `needed` slots from slot `s` on: deleted slots up to slot `z`, which is
the end of the room, the end of the directory or its last slot. -/
structure RoomAt (slots : List Slot) (needed s z : Nat) : Prop where
  le : s ≤ z
  room : z ≤ s + needed
  inside : z ≤ slots.length
  deleted : ∀ j, s ≤ j → j < z → slotDeleted (slots.getD j []) = true
  live : ∀ j, j < s → slotLast (slots.getD j []) = false
  stop : z = s + needed ∨ z = slots.length ∨ slotLast (slots.getD z []) = true

/-- The position that a scan ends with; behind the last slot when nothing was found. -/
def Scan.start (count : Nat) : Scan → Nat
  | .found start => start
  | .extend start => start
  | .more run start => if run = 0 then 32 * count else start

/-- What the inner loop of `fat_find_slots` knows before slot `m`: the run of deleted
slots in front of it. -/
structure ScanAt (slots : List Slot) (needed m run start : Nat) : Prop where
  le : run ≤ m
  short : run < needed
  start : run ≠ 0 → start = 32 * (m - run)
  deleted : ∀ j, m - run ≤ j → j < m → slotDeleted (slots.getD j []) = true
  live : ∀ j, j < m → slotLast (slots.getD j []) = false

/-- The scan from slot `m` on chooses the room. -/
theorem ScanAt.room {slots : List Slot} {needed : Nat} {suf : List Slot} {m run start : Nat}
    (h : ScanAt slots needed m run start) (hsuf : slots.drop m = suf) (hm : m ≤ slots.length) :
    ∃ s z, RoomAt slots needed s z ∧
      (scanSlots needed (32 * m) run start suf).start slots.length = 32 * s ∧
      ∀ st, scanSlots needed (32 * m) run start suf = .found st → z = s + needed := by
  induction suf generalizing m run start with
  | nil =>
    -- The end of the directory.
    have hend : m = slots.length := by
      have := congrArg List.length hsuf
      simp at this
      omega
    refine ⟨m - run, m, ⟨Nat.sub_le _ _, ?_, hm, h.deleted, fun j hj => h.live j (by omega), .inr (.inl hend)⟩,
      ?_, by simp [scanSlots]⟩
    · have := h.short
      omega
    · rw [scanSlots, Scan.start]
      split
      · rename_i h0
        rw [h0, ← hend, Nat.sub_zero]
      · rename_i h0
        exact h.start h0
  | cons e rest ih =>
    have hlt : m < slots.length := by
      have := congrArg List.length hsuf
      simp at this
      omega
    have he : slots.getD m [] = e := by
      rw [List.drop_eq_getElem_cons hlt] at hsuf
      rw [List.getD_eq_getElem?_getD, List.getElem?_eq_getElem hlt, Option.getD_some]
      exact (List.cons.inj hsuf).1
    have hrest : slots.drop (m + 1) = rest := by
      rw [List.drop_eq_getElem_cons hlt] at hsuf
      exact (List.cons.inj hsuf).2
    have hstart : (if run = 0 then 32 * m else start) = 32 * (m - run) := by
      split
      · rename_i h0
        rw [h0, Nat.sub_zero]
      · rename_i h0
        exact h.start h0
    have hle := h.le
    have hshort := h.short
    rw [scanSlots]
    by_cases hlast : slotLast e = true
    · simp only [hlast, if_true]
      refine ⟨m - run, m, ⟨Nat.sub_le _ _, by omega, hm, h.deleted, fun j hj => h.live j (by omega),
        .inr (.inr (by rw [he]; exact hlast))⟩, hstart, by simp⟩
    rw [Bool.not_eq_true] at hlast
    simp only [hlast, Bool.false_eq_true, if_false]
    have hlive : ∀ j, j < m + 1 → slotLast (slots.getD j []) = false := by
      intro j hj
      rcases Nat.lt_succ_iff_lt_or_eq.mp hj with hj | rfl
      · exact h.live j hj
      · rw [he]
        exact hlast
    by_cases hdel : slotDeleted e = true
    · rw [if_pos hdel]
      have hdeleted : ∀ j, m - run ≤ j → j < m + 1 → slotDeleted (slots.getD j []) = true := by
        intro j hj hjm
        rcases Nat.lt_succ_iff_lt_or_eq.mp hjm with hjm | rfl
        · exact h.deleted j hj hjm
        · rw [he]
          exact hdel
      split
      · -- The run is long enough.
        refine ⟨m - run, m + 1, ⟨by omega, by omega, hlt, hdeleted, fun j hj => h.live j (by omega),
          .inl (by omega)⟩, hstart, fun _ _ => by omega⟩
      · refine ih ⟨by omega, by omega, fun _ => ?_, ?_, hlive⟩ hrest hlt
        · omega
        · intro j hj hjm
          exact hdeleted j (by omega) hjm
    · rw [if_neg hdel]
      exact ih ⟨Nat.zero_le _, by omega, fun h0 => absurd rfl h0, fun j hj hjm => absurd hjm (by omega), hlive⟩
        hrest hlt

theorem scanSlots_room {needed : Nat} (hneeded : 0 < needed) (slots : List Slot) :
    ∃ s z, RoomAt slots needed s z ∧ (scanSlots needed 0 0 0 slots).start slots.length = 32 * s ∧
      ∀ st, scanSlots needed 0 0 0 slots = .found st → z = s + needed := by
  have hbegin : ScanAt slots needed 0 0 0 :=
    ⟨Nat.le_refl 0, hneeded, fun h0 => absurd rfl h0, fun _ _ hj => absurd hj (Nat.not_lt_zero _),
      fun _ hj => absurd hj (Nat.not_lt_zero _)⟩
  exact hbegin.room rfl (Nat.zero_le _)

theorem scanSlots_append (needed pos run start : Nat) (xs ys : List Slot) :
    scanSlots needed pos run start (xs ++ ys) =
      match scanSlots needed pos run start xs with
      | .more run' start' => scanSlots needed (pos + 32 * xs.length) run' start' ys
      | r => r := by
  induction xs generalizing pos run start with
  | nil => rfl
  | cons e rest ih =>
    have hoff : pos + 32 + 32 * rest.length = pos + 32 * (e :: rest).length := by
      rw [List.length_cons]
      omega
    rw [List.cons_append, scanSlots, scanSlots]
    split
    · rfl
    · split
      · split
        · rfl
        · rw [ih, hoff]
      · rw [ih, hoff]

/-! ## The rounds -/

variable {fs : Fat32} {g : Geometry} {v : View} {dn : FatNode} {chain : List Nat} {needed : Nat}

/-- What `fat_find_slots` makes of the outcome of the scan. -/
def Scan.finish (fs : Fat32) (dn : FatNode) (needed count : Nat) (scan : Scan) : FindResult :=
  match scan with
  | .found start => ⟨some start, dn, fs⟩
  | scan => findExtend fs dn needed (scan.start count)

/-- The rounds of `fat_find_slots` from cluster `i` on. -/
theorem ChainOf.findRounds (h : Shows fs g v) (hc : ChainOf g v dn chain) {i fuel : Nat}
    (hi : i ≤ chain.length) (hfuel : chain.length - i < fuel) (run start : Nat) :
    ∃ j c fs', Shows fs' g v ∧ ChainOf g v { dn with hintIndex := j, hintCluster := c } chain ∧
      Loop.run (fatFindRound needed) fuel ⟨fs, dn, i, run, start⟩ =
        some ((scanSlots needed (i * g.clusterBytes) run start
          ((dirSlots g v chain).drop (i * g.slotsPerCluster))).finish fs'
            { dn with hintIndex := j, hintCluster := c } needed (dirSlots g v chain).length) := by
  induction fuel generalizing fs dn i run start with
  | zero => exact absurd hfuel (Nat.not_lt_zero _)
  | succ fuel ih =>
    obtain ⟨fs₁, hs₁, hat⟩ := hc.clusterAt h i
    cases hget : chain[i]? with
    | none =>
      -- Behind the last cluster.
      rw [hget] at hat
      have hend : chain.length = i := by
        have := List.getElem?_eq_none_iff.mp hget
        omega
      refine ⟨dn.hintIndex, dn.hintCluster, fs₁, hs₁, hc, ?_⟩
      apply Loop.run_succ_done
      rw [List.drop_eq_nil_of_le (by rw [length_dirSlots, hend])]
      have hcount : i * g.clusterBytes = 32 * (dirSlots g v chain).length := by
        rw [length_dirSlots, hend, g.clusterBytes_eq]
        ring
      obtain rfl := hs₁.geo
      rw [fatFindRound, hat]
      rw [if_pos rfl, scanSlots, hcount]
      rfl
    | some c =>
      rw [hget] at hat
      have hlt := (List.getElem?_eq_some_iff.mp hget).1
      obtain ⟨hne, hshort, ⟨buf, hread, hslots⟩, hoff⟩ := hc.readCluster hs₁ hget
      have hround : fatFindRound needed ⟨fs, dn, i, run, start⟩ =
          match scanSlots needed (i * g.clusterBytes) run start (clusterSlots g v c) with
          | .found start => .done ⟨some start, { dn with hintIndex := i, hintCluster := c }, fs₁⟩
          | .extend start =>
              .done (findExtend fs₁ { dn with hintIndex := i, hintCluster := c } needed start)
          | .more run start =>
              .again ⟨fs₁, { dn with hintIndex := i, hintCluster := c }, i + 1, run, start⟩ := by
        obtain rfl := hs₁.geo
        rw [fatFindRound, hat]
        dsimp only
        rw [if_neg hne, hread]
        dsimp only
        rw [hslots, hshort] <;> rfl
      rw [dirSlots_drop hget, scanSlots_append]
      cases hscan : scanSlots needed (i * g.clusterBytes) run start (clusterSlots g v c) with
      | found start' =>
        rw [hscan] at hround
        exact ⟨i, c, fs₁, hs₁, hc.setHint hget, Loop.run_succ_done hround fuel⟩
      | extend start' =>
        rw [hscan] at hround
        exact ⟨i, c, fs₁, hs₁, hc.setHint hget, Loop.run_succ_done hround fuel⟩
      | more run' start' =>
        rw [hscan] at hround
        obtain ⟨j, c', fs', hs', hc', hrun⟩ :=
          ih hs₁ (hc.setHint hget) hlt (by omega) run' start'
        refine ⟨j, c', fs', hs', hc', ?_⟩
        rw [Loop.run_succ_again hround, hrun, hoff]

/-- **Finding room.**  `fat_find_slots` chooses the room; afterwards the directory,
which may have grown, has its slots, or the volume is full. -/
theorem ChainOf.findSlots (h : Shows fs g v) (hc : ChainOf g v dn chain) (hneeded : 0 < needed)
    (hsmall : needed ≤ 64) {fuel : Nat} (hfuel : chain.length < fuel) :
    ∃ ext v' dn' fs' pos s z, fatFindSlots fuel fs dn needed = some ⟨pos, dn', fs'⟩ ∧
      Shows fs' g v' ∧ Grown g v v' ext ∧ ChainOf g v' dn' (chain ++ ext) ∧
      (chain ≠ [] → dn'.cluster = dn.cluster) ∧ RoomAt (dirSlots g v chain) needed s z ∧
      ∀ start, pos = some start →
        start = 32 * s ∧ s + needed ≤ (dirSlots g v' (chain ++ ext)).length := by
  obtain ⟨j, c, fs₁, hs₁, hc₁, hrun⟩ := @ChainOf.findRounds fs g v dn chain needed h hc 0 fuel (Nat.zero_le _) (by omega) 0 0
  obtain ⟨s, z, hroom, hstart, hfound⟩ := scanSlots_room hneeded (dirSlots g v chain)
  rw [Nat.zero_mul, Nat.zero_mul, List.drop_zero] at hrun
  have hpos := h.clusterBytes_pos
  have hlen := hc.length_le h
  have hcount := h.count_lt
  have hslots : s ≤ chain.length * g.slotsPerCluster := by
    have := hroom.le
    have := hroom.inside
    rw [length_dirSlots] at this
    omega
  by_cases hscan : ∃ st, scanSlots needed 0 0 0 (dirSlots g v chain) = .found st
  · -- There was room.
    obtain ⟨st, hst⟩ := hscan
    have hz := hfound st hst
    rw [hst] at hrun hstart
    refine ⟨[], v, _, fs₁, some st, s, z, hrun, hs₁, .refl v, by rwa [List.append_nil], fun _ => rfl,
      hroom, fun start heq => ?_⟩
    obtain rfl := Option.some.inj heq
    refine ⟨hstart, ?_⟩
    rw [List.append_nil, ← hz]
    exact hroom.inside
  · -- The directory is extended.
    have hfinish : (scanSlots needed 0 0 0 (dirSlots g v chain)).finish fs₁
        { dn with hintIndex := j, hintCluster := c } needed (dirSlots g v chain).length =
        findExtend fs₁ { dn with hintIndex := j, hintCluster := c } needed (32 * s) := by
      rw [← hstart]
      cases hres : scanSlots needed 0 0 0 (dirSlots g v chain) with
      | found st => exact absurd ⟨st, hres⟩ hscan
      | extend st => rfl
      | more run st => rfl
    obtain ⟨ext, v', dn', fs', ok, hext, hs', hgrown, hchain, hlong, hcluster⟩ := hc₁.grow hs₁
      ((32 * s + needed * 32 + (g.clusterBytes - 1)) / g.clusterBytes % 2 ^ 32)
    rw [hfinish, findExtend, hs₁.geo, hext] at hrun
    refine ⟨ext, v', dn', fs', if ok then some (32 * s) else none, s, z, hrun, hs', hgrown, hchain,
      hcluster, hroom, fun start heq => ?_⟩
    cases ok with
    | false => cases heq
    | true =>
      obtain rfl := Option.some.inj heq
      have hle := hlong rfl
      have hclusters : (32 * s + needed * 32 + (g.clusterBytes - 1)) / g.clusterBytes < 2 ^ 32 := by
        have hbytes : 32 * s ≤ chain.length * g.clusterBytes := by
          rw [g.clusterBytes_eq, Nat.mul_left_comm]
          omega
        apply Nat.div_lt_of_lt_mul
        have hmul : chain.length * g.clusterBytes ≤ 2 ^ 28 * g.clusterBytes :=
          Nat.mul_le_mul_right _ (by omega)
        omega
      rw [Nat.mod_eq_of_lt hclusters] at hle
      rw [length_dirSlots]
      have hround : 32 * s + needed * 32 ≤ (chain ++ ext).length * g.clusterBytes := by
        have hlt := Nat.lt_mul_div_succ (32 * s + needed * 32 + (g.clusterBytes - 1)) hpos
        rw [Nat.mul_add, Nat.mul_one, Nat.mul_comm g.clusterBytes] at hlt
        have hmul := Nat.mul_le_mul_right g.clusterBytes hle
        omega
      rw [g.clusterBytes_eq, Nat.mul_left_comm] at hround
      omega

end Fat
