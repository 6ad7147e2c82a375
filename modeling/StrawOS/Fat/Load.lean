import StrawOS.Fat.Directory

/-!
# Loading a directory

The slots of a directory whose chain ends are the ones of its clusters one after
the other.  `ChainOf.load` says that `fat_load_dir` reads them in this order, up
to the first that ends the directory.
-/

-- Unification counts down the literal 512 of the sector size.
set_option maxRecDepth 2000

namespace Fat

variable {fs : Fat32} {g : Geometry} {v : View} {dn : FatNode} {chain : List Nat}

/-- Slot `q` of a directory. -/
def chainSlot (g : Geometry) (v : View) (chain : List Nat) (q : Nat) : Slot :=
  (List.range 32).map fun k => v.data (chainAddr g chain (32 * q + k))

/-- The slots of a directory. -/
def dirSlots (g : Geometry) (v : View) (chain : List Nat) : List Slot :=
  (List.range (chain.length * g.slotsPerCluster)).map (chainSlot g v chain)

@[simp] theorem length_chainSlot (q : Nat) : (chainSlot g v chain q).length = 32 := by
  simp [chainSlot]

@[simp] theorem length_dirSlots :
    (dirSlots g v chain).length = chain.length * g.slotsPerCluster := by
  simp [dirSlots]

theorem getElem_dirSlots {q : Nat} (h : q < (dirSlots g v chain).length) :
    (dirSlots g v chain)[q] = chainSlot g v chain q := by
  simp [dirSlots]

theorem Geometry.clusterBytes_eq (g : Geometry) : g.clusterBytes = 32 * g.slotsPerCluster := by
  unfold Geometry.clusterBytes Geometry.slotsPerCluster
  omega

/-- The address of a byte of a slot, by the cluster and the slot in it. -/
theorem chainAddr_slot {i c : Nat} (hi : chain[i]? = some c) {j k : Nat}
    (hj : j < g.slotsPerCluster) (hk : k < 32) :
    chainAddr g chain (32 * (i * g.slotsPerCluster + j) + k) =
      (c - 2) * g.clusterBytes + (32 * j + k) := by
  have hlt : 32 * j + k < g.clusterBytes := by
    rw [g.clusterBytes_eq]
    omega
  have hsplit : 32 * (i * g.slotsPerCluster + j) + k = g.clusterBytes * i + (32 * j + k) := by
    rw [g.clusterBytes_eq]
    ring
  have hpos : 0 < g.clusterBytes := by omega
  rw [chainAddr, hsplit, Nat.mul_add_div hpos, Nat.mul_add_mod, Nat.div_eq_of_lt hlt,
    Nat.mod_eq_of_lt hlt, Nat.add_zero, List.getD_eq_getElem?_getD, hi, Option.getD_some]

theorem clusterSlots_eq {i c : Nat} (hi : chain[i]? = some c) :
    clusterSlots g v c =
      (List.range g.slotsPerCluster).map fun j => chainSlot g v chain (i * g.slotsPerCluster + j) := by
  apply List.ext_getElem
  · simp [clusterSlots_length]
  intro j h1 h2
  rw [clusterSlots_length] at h1
  simp only [clusterSlots, slotsOf, List.getElem_map, List.getElem_range, Buf.drop_read,
    Buf.take_read]
  have hfull : min 32 (g.spc * 512 - 32 * j) = 32 := by
    unfold Geometry.slotsPerCluster at h1
    omega
  rw [hfull]
  apply List.map_congr_left
  intro k hk
  rw [chainAddr_slot hi h1 (List.mem_range.mp hk), Geometry.clusterBytes, Nat.mul_assoc,
    Nat.add_assoc]

theorem dirSlots_drop {i c : Nat} (hi : chain[i]? = some c) :
    (dirSlots g v chain).drop (i * g.slotsPerCluster) =
      clusterSlots g v c ++ (dirSlots g v chain).drop ((i + 1) * g.slotsPerCluster) := by
  have hlt : i < chain.length := (List.getElem?_eq_some_iff.mp hi).1
  have hle : (i + 1) * g.slotsPerCluster ≤ chain.length * g.slotsPerCluster :=
    Nat.mul_le_mul_right _ hlt
  rw [clusterSlots_eq hi]
  apply List.ext_getElem
  · simp only [List.length_drop, length_dirSlots, List.length_append, List.length_map,
      List.length_range]
    rw [Nat.add_mul] at hle ⊢
    omega
  intro j h1 h2
  rw [List.getElem_drop, getElem_dirSlots, List.getElem_append]
  split
  · rw [List.getElem_map, List.getElem_range]
  · rename_i hge
    rw [List.getElem_drop, getElem_dirSlots]
    rw [List.length_map, List.length_range, Nat.not_lt] at hge
    congr 1
    rw [List.length_map, List.length_range, Nat.add_mul]
    omega

theorem readSlots_append (offset : Nat) (l : LfnState) (xs ys : List Slot) :
    readSlots offset l (xs ++ ys) =
      match (readSlots offset l xs).2 with
      | none => readSlots offset l xs
      | some l' =>
          ((readSlots offset l xs).1 ++ (readSlots (offset + 32 * xs.length) l' ys).1,
            (readSlots (offset + 32 * xs.length) l' ys).2) := by
  induction xs generalizing offset l with
  | nil => rfl
  | cons e rest ih =>
    have hoff : offset + 32 + 32 * rest.length = offset + 32 * (e :: rest).length := by
      rw [List.length_cons]
      omega
    rw [List.cons_append, readSlots, readSlots]
    cases fatReadSlot l e with
    | last => rfl
    | skip l' =>
      dsimp only
      rw [ih, hoff]
    | entry name count => grind

theorem Shows.slotsOf_read (h : Shows fs g v) (c : Nat) :
    slotsOf (Buf.read fs.dev.data (g.lba c * 512) (g.spc * 512)) = clusterSlots g v c := by
  congr 1
  apply List.map_congr_left
  intro k _
  rw [← h.view, Fat32.view, h.geo, Geometry.lba]
  ring

/-- The `i`-th cluster of a directory is read as its slots. -/
theorem ChainOf.readCluster (h : Shows fs g v) (hc : ChainOf g v dn chain) {i c : Nat}
    (hget : chain[i]? = some c) :
    c ≠ 0 ∧ (i + 1) % 2 ^ 32 = i + 1 ∧
      (∃ buf, blockRead fs.dev (g.lba c) g.spc = (some buf, fs.dev) ∧ slotsOf buf = clusterSlots g v c) ∧
      i * g.clusterBytes + 32 * (clusterSlots g v c).length = (i + 1) * g.clusterBytes := by
  have hlt := (List.getElem?_eq_some_iff.mp hget).1
  have hcv := hc.valid c (List.mem_of_getElem? hget)
  have hne := (valid_lt h.sees hcv).1
  have hfits := h.ok.fits
  rw [h.geo] at hfits
  have hlen := hc.length_le h
  have hcount := h.count_lt
  refine ⟨by omega, Nat.mod_eq_of_lt (by omega),
    ⟨_, blockRead_eq h.ok.quiet (g.lba c) hfits.spc (hfits.lba_le hcv), h.slotsOf_read c⟩, ?_⟩
  rw [clusterSlots_length, g.clusterBytes_eq]
  ring

/-- The rounds of `fat_load_dir` from cluster `i` on. -/
theorem ChainOf.loadRounds (h : Shows fs g v) (hc : ChainOf g v dn chain) {i fuel : Nat}
    (hi : i ≤ chain.length) (hfuel : chain.length - i < fuel) (lfn : LfnState)
    (entries : List DirEntry) :
    ∃ j c fs', Shows fs' g v ∧ ChainOf g v { dn with hintIndex := j, hintCluster := c } chain ∧
      Loop.run fatLoadRound fuel ⟨fs, dn, i, lfn, entries⟩ =
        some ⟨entries ++ (readSlots (i * g.clusterBytes) lfn
            ((dirSlots g v chain).drop (i * g.slotsPerCluster))).1,
          { dn with hintIndex := j, hintCluster := c }, fs'⟩ := by
  induction fuel generalizing fs dn i lfn entries with
  | zero => exact absurd hfuel (Nat.not_lt_zero _)
  | succ fuel ih =>
    obtain ⟨fs₁, hs₁, hat⟩ := hc.clusterAt h i
    cases hget : chain[i]? with
    | none =>
      -- Behind the last cluster.
      rw [hget] at hat
      have hend := List.getElem?_eq_none_iff.mp hget
      refine ⟨dn.hintIndex, dn.hintCluster, fs₁, hs₁, hc, ?_⟩
      apply Loop.run_succ_done
      rw [fatLoadRound, hat, List.drop_eq_nil_of_le
        (by rw [length_dirSlots]; exact Nat.mul_le_mul_right _ hend)]
      simp [readSlots]
    | some c =>
      rw [hget] at hat
      have hlt := (List.getElem?_eq_some_iff.mp hget).1
      obtain ⟨hne, hshort, ⟨buf, hread, hslots⟩, hoff⟩ := hc.readCluster hs₁ hget
      have hround : fatLoadRound ⟨fs, dn, i, lfn, entries⟩ =
          match (readSlots (i * g.clusterBytes) lfn (clusterSlots g v c)).2 with
          | none => .done ⟨entries ++ (readSlots (i * g.clusterBytes) lfn (clusterSlots g v c)).1,
              { dn with hintIndex := i, hintCluster := c }, fs₁⟩
          | some lfn' => .again ⟨fs₁, { dn with hintIndex := i, hintCluster := c }, i + 1, lfn',
              entries ++ (readSlots (i * g.clusterBytes) lfn (clusterSlots g v c)).1⟩ := by
        obtain rfl := hs₁.geo
        rw [fatLoadRound, hat]
        dsimp only
        rw [if_neg hne, hread]
        dsimp only
        rw [hslots, hshort] <;> rfl
      rw [dirSlots_drop hget, readSlots_append]
      cases hmore : (readSlots (i * g.clusterBytes) lfn (clusterSlots g v c)).2 with
      | none =>
        rw [hmore] at hround
        exact ⟨i, c, fs₁, hs₁, hc.setHint hget, Loop.run_succ_done hround fuel⟩
      | some lfn' =>
        rw [hmore] at hround
        obtain ⟨j, c', fs', hs', hc', hrun⟩ :=
          ih hs₁ (hc.setHint hget) hlt (by omega) lfn'
            (entries ++ (readSlots (i * g.clusterBytes) lfn (clusterSlots g v c)).1)
        refine ⟨j, c', fs', hs', hc', ?_⟩
        rw [Loop.run_succ_again hround, hrun, hoff, List.append_assoc]

/-- **Loading.**  `fat_load_dir` on a directory whose chain ends. -/
theorem ChainOf.load (h : Shows fs g v) (hc : ChainOf g v dn chain) (hnew : dn.loaded = false)
    {fuel : Nat} (hfuel : chain.length < fuel) :
    ∃ dn' fs', Shows fs' g v ∧ ChainOf g v dn' chain ∧ dn'.cluster = dn.cluster ∧
      fatLoadDir fuel fs dn = some ⟨(readSlots 0 .empty (dirSlots g v chain)).1, dn', fs'⟩ := by
  have hc' : ChainOf g v { dn with loaded := true } chain := ⟨hc.linked, hc.used, hc.hint⟩
  obtain ⟨j, c, fs', hs', hchain, hrun⟩ :=
    hc'.loadRounds h (Nat.zero_le _) (by omega : chain.length - 0 < fuel) .empty []
  refine ⟨_, fs', hs', hchain, rfl, ?_⟩
  rw [fatLoadDir, if_neg (by simp [hnew]), loadStart, hrun]
  simp

end Fat
