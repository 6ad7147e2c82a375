import StrawOS.Fat.Entries

/-!
# Deleting an entry

`fat_remove_entry` marks the short slot of a node, and in front of it as many
slots as the long name had when the node was loaded.  Nothing says that these are
the slots of the long name: `fat_load_dir` believes the count of the first one.
`removed_iff` is the exact condition under which only slots of the node are marked.

The table is arbitrary here: the directory only has the clusters that were read.
-/

-- Unification counts down the literal 512 of the sector size.
set_option maxRecDepth 2000

namespace Fat

variable {fs : Fat32} {g : Geometry} {v : View} {dn : FatNode}

/-! ## One byte of a directory -/

/-- The hint of a node is a cluster on its way. -/
def Hinted (v : View) (dn : FatNode) : Prop :=
  dn.hintCluster ≠ 0 → dn.hintCluster = v.entry^[dn.hintIndex] dn.cluster

theorem Hinted.walkStart (h : Hinted v dn) (index : Nat) :
    (dn.walkStart index).1 ≤ index ∧
      (dn.walkStart index).2 = v.entry^[(dn.walkStart index).1] dn.cluster := by
  unfold FatNode.walkStart
  split
  · rename_i hhint
    exact ⟨hhint.2, h hhint.1⟩
  · exact ⟨Nat.zero_le _, rfl⟩

theorem Hinted.roundCluster (h : Hinted v dn) {n : Nat} (hn : n < 2 ^ 32) :
    roundCluster v dn n = v.entry^[n] dn.cluster := by
  obtain ⟨hle, hstart⟩ := h.walkStart 0
  rw [Nat.le_zero.mp hle] at hstart
  rw [Fat.roundCluster, Nat.mod_eq_of_lt hn, firstCluster, if_pos hn, hstart]
  rfl

theorem fatWalk_iterate (steps : Nat) {c : Nat} (h : Shows fs g v)
    (hvalid : ∀ j, j < steps → g.valid (v.entry^[j] c) = true) :
    ∃ fs', fatWalk steps fs c = (v.entry^[steps] c, fs') ∧ Shows fs' g v := by
  induction steps generalizing fs c with
  | zero => exact ⟨fs, rfl, h⟩
  | succ steps ih =>
    have hc : g.valid c = true := hvalid 0 (Nat.succ_pos _)
    obtain ⟨fs₁, hget, hs₁, -⟩ := fatGet_spec h hc
    obtain ⟨fs', heq, hs'⟩ := ih hs₁ fun j hj => hvalid (j + 1) (Nat.succ_lt_succ hj)
    refine ⟨fs', ?_, hs'⟩
    rw [fatWalk, h.geo, if_pos hc, hget]
    exact heq

/-- `fat_cluster_at` on any table, as far as there are clusters. -/
theorem fatClusterAt_iterate (h : Shows fs g v) (hhint : Hinted v dn) {index : Nat}
    (hvalid : ∀ j, j ≤ index → g.valid (v.entry^[j] dn.cluster) = true) :
    ∃ fs', Shows fs' g v ∧ fatClusterAt fs dn index =
      (v.entry^[index] dn.cluster,
        { dn with hintIndex := index, hintCluster := v.entry^[index] dn.cluster }, fs') := by
  obtain ⟨hle, hstart⟩ := hhint.walkStart index
  have hlink : ∀ j, v.entry^[j] (dn.walkStart index).2 =
      v.entry^[(dn.walkStart index).1 + j] dn.cluster := by
    intro j
    rw [hstart, ← Function.iterate_add_apply, Nat.add_comm]
  obtain ⟨fs', hwalk, hs'⟩ := fatWalk_iterate (index - (dn.walkStart index).1) h
    (c := (dn.walkStart index).2) fun j hj => by
      rw [hlink]
      exact hvalid _ (by omega)
  rw [hlink, Nat.add_sub_cancel' hle] at hwalk
  refine ⟨fs', hs', ?_⟩
  rw [fatClusterAt, hwalk]
  rw [h.geo, if_pos (hvalid index (Nat.le_refl _))]

theorem fatIoWrite_byte (h : Shows fs g v) (hhint : Hinted v dn) {offset : Nat}
    (hshort : offset / g.clusterBytes < 2 ^ 32)
    (hvalid : ∀ j, j ≤ offset / g.clusterBytes → g.valid (v.entry^[j] dn.cluster) = true)
    (b : UInt8) :
    ∃ a dn' fs', Shows fs' g (v.store a [b]) ∧ Hinted v dn' ∧ dn'.cluster = dn.cluster ∧
      fatIoWrite fs dn offset [b] = ⟨some 1, [], dn', fs'⟩ := by
  obtain ⟨fs₁, hs₁, hat⟩ := fatClusterAt_iterate h hhint hvalid
  generalize hindex : offset / g.clusterBytes = index at hshort hvalid hat
  generalize hc : v.entry^[index] dn.cluster = c at hat
  have hcv : g.valid c = true := hc ▸ hvalid index (Nat.le_refl _)
  have hpos := h.clusterBytes_pos
  have hwithin := Nat.mod_lt offset hpos
  have hfits := hs₁.ok.fits
  rw [hs₁.geo] at hfits
  have hlt := hfits.valid_iff.mp hcv
  have hin : g.lba c * 512 + offset % g.clusterBytes + [b].length ≤ fs₁.dev.sectors * 512 := by
    have hle := hfits.lba_le hcv
    unfold Geometry.clusterBytes at hwithin ⊢
    rw [List.length_singleton]
    omega
  have hwrite := fatDataWrite_eq hs₁.ok.quiet (g.lba c) (offset % g.clusterBytes) [b] hin
  rw [g.lba_bytes, Nat.add_assoc] at hwrite
  refine ⟨_, { dn with hintIndex := index, hintCluster := c }, _,
    hs₁.store ((c - 2) * g.clusterBytes + offset % g.clusterBytes) [b], fun _ => hc.symm, rfl, ?_⟩
  have hround : fatIoRound offset 1 (some [b]) ⟨fs, dn, 0, []⟩ =
      .again ⟨{ fs₁ with dev := fs₁.dev.store (g.dataStart * 512 +
        ((c - 2) * g.clusterBytes + offset % g.clusterBytes)) [b] },
        { dn with hintIndex := index, hintCluster := c }, 1, []⟩ := by
    have hleft : (1 - (g.clusterBytes - offset % g.clusterBytes) + (g.clusterBytes - 1)) /
        g.clusterBytes = 0 := Nat.div_eq_of_lt (by omega)
    have hrun : min (g.clusterBytes - offset % g.clusterBytes) 1 = 1 := by omega
    have hc2 : c ≠ 0 := by omega
    obtain rfl := hs₁.geo
    rw [fatIoRound, if_pos Nat.zero_lt_one]
    simp only [h.geo, Nat.add_zero, Nat.sub_zero, hindex, Nat.mod_eq_of_lt hshort, hat, hleft, fatRun,
      Nat.zero_mul, hrun, if_neg hc2, fatDataIo, List.drop_zero, List.take_succ_cons, List.take_zero,
      hwrite, if_true, List.append_nil, Nat.zero_add]
  rw [fatIoWrite, fatIo, List.length_singleton, Loop.run_succ_again hround,
    Loop.run_succ_done (r := ⟨some 1, [], { dn with hintIndex := index, hintCluster := c },
      { fs₁ with dev := fs₁.dev.store (g.dataStart * 512 +
        ((c - 2) * g.clusterBytes + offset % g.clusterBytes)) [b] }⟩) (by
      rw [fatIoRound, if_neg (Nat.lt_irrefl 1)])]
  rfl

/-! ## The offsets -/

/-- Offset `k` that `fat_remove_entry` computes; a 32-bit difference. -/
def markAt (offset k : Nat) : Nat := (offset + (2 ^ 32 - k * 32)) % 2 ^ 32

theorem fatRemoveLoop_marks (offset left k : Nat) (fs : Fat32) (dn : FatNode) :
    ∀ pos ∈ (fatRemoveLoop offset left k fs dn).marks,
      ∃ i, k ≤ i ∧ i < k + left ∧ pos = markAt offset i := by
  induction left generalizing k fs dn with
  | zero => exact fun _ hpos => absurd hpos List.not_mem_nil
  | succ left ih =>
    intro pos hpos
    rw [fatRemoveLoop] at hpos
    dsimp only at hpos
    split at hpos
    · rw [List.mem_singleton] at hpos
      exact ⟨k, Nat.le_refl k, by omega, hpos⟩
    · rcases List.mem_cons.mp hpos with rfl | hpos
      · exact ⟨k, Nat.le_refl k, by omega, rfl⟩
      · obtain ⟨i, hi, hlt, heq⟩ := ih (k + 1) _ _ pos hpos
        exact ⟨i, by omega, by omega, heq⟩

/-- Bytes of a directory that can be written. -/
def HasByte (g : Geometry) (v : View) (dn : FatNode) (pos : Nat) : Prop :=
  ∀ j, j ≤ pos / g.clusterBytes → g.valid (v.entry^[j] dn.cluster) = true

theorem fatRemoveLoop_complete (offset left k : Nat) (h : Shows fs g v) (hhint : Hinted v dn)
    (hreach : ∀ pos ∈ (fatRemoveLoop offset left k fs dn).marks, HasByte g v dn pos) :
    ∀ i, k ≤ i → i < k + left → markAt offset i ∈ (fatRemoveLoop offset left k fs dn).marks := by
  induction left generalizing k fs dn v with
  | zero => exact fun i hi hlt => absurd hlt (by omega)
  | succ left ih =>
    have hfirst : markAt offset k ∈ (fatRemoveLoop offset (left + 1) k fs dn).marks := by
      rw [fatRemoveLoop]
      split
      · exact List.mem_singleton.mpr rfl
      · exact List.mem_cons_self
    have hlt : markAt offset k < 2 ^ 32 := Nat.mod_lt _ (by decide)
    obtain ⟨a, dn', fs', hs', hhint', hcluster, hio⟩ := fatIoWrite_byte h hhint
      (lt_of_le_of_lt (Nat.div_le_self _ _) hlt) (hreach _ hfirst) deletedMark
    have hgo : (fatRemoveLoop offset (left + 1) k fs dn).marks =
        markAt offset k :: (fatRemoveLoop offset left (k + 1) fs' dn').marks := by
      rw [fatRemoveLoop]
      unfold markAt at hio
      rw [hio, if_neg (by simp)]
      rfl
    intro i hi hlt'
    rw [hgo] at hreach ⊢
    rcases Nat.eq_or_lt_of_le hi with rfl | hi
    · exact List.mem_cons_self
    · refine List.mem_cons_of_mem _ (ih (k + 1) hs' hhint' ?_ i hi (by omega))
      intro pos hpos
      have := hreach pos (List.mem_cons_of_mem _ hpos)
      unfold HasByte at this ⊢
      rw [hcluster]
      exact this

/-! ## Slots of an entry -/

/-- Slot `q` is the short slot `p`, or one of the long-name slots directly in front of it. -/
def OwnSlot (slots : List Slot) (p q : Nat) : Prop :=
  q ≤ p ∧ ∀ j, q ≤ j → j < p → slotLfn (slots.getD j []) = true

theorem OwnSlot.unique {slots : List Slot} {p p' q : Nat} {E E' : DirEntry}
    (hE : entryAt slots p = some E) (hE' : entryAt slots p' = some E') (h : OwnSlot slots p q)
    (h' : OwnSlot slots p' q) : p = p' := by
  have hshort : ∀ {p E}, entryAt slots p = some E → slotLfn (slots.getD p []) = false := by
    intro p E hp
    obtain ⟨-, e, -, he, -, -, hlfn, -⟩ := entryAt_spec hp
    rw [List.getD_eq_getElem?_getD, he]
    exact hlfn
  rcases Nat.lt_trichotomy p p' with hlt | heq | hlt
  · have := h'.2 p h.1 hlt
    rw [hshort hE] at this
    exact absurd this Bool.false_ne_true
  · exact heq
  · have := h.2 p' h'.1 hlt
    rw [hshort hE'] at this
    exact absurd this Bool.false_ne_true

/-- The offsets are those of slots of the directory that belong to the entry of slot `p`,
and to no other. -/
def MarksOwn (slots : List Slot) (p : Nat) (marks : List Nat) : Prop :=
  ∀ pos ∈ marks, ∃ q, pos = 32 * q ∧ q < slots.length ∧ OwnSlot slots p q ∧
    ∀ p' E', entryAt slots p' = some E' → p' ≠ p → ¬ OwnSlot slots p' q

/-- The lowest of the slots whose offsets are computed for a long name of `count`
slots; offsets of slots repeat every `2 ^ 27` slots. -/
def lowestMark (p count : Nat) : Nat := if count ≤ p % 2 ^ 27 then p % 2 ^ 27 - count else 0

/-- The slots in front of slot `p` are the long name of an entry of `count` long-name
slots: there are as many, and none of those from the lowest one on is another. -/
def NameIntact (slots : List Slot) (p count : Nat) : Prop :=
  (p < 2 ^ 27 → count ≤ p) ∧
    ∀ j, lowestMark p count ≤ j → j < p → slotLfn (slots.getD j []) = true

theorem markAt_slot (p : Nat) {k : Nat} (hk : k ≤ 2 ^ 27) :
    markAt (32 * p % 2 ^ 32) k = 32 * ((p + (2 ^ 27 - k)) % 2 ^ 27) := by
  unfold markAt
  omega

theorem marks_own_iff (slots : List Slot) (p : Nat) {count : Nat} (hcount : count ≤ 20) :
    (∀ k, k ≤ count → OwnSlot slots p ((p + (2 ^ 27 - k)) % 2 ^ 27)) ↔ NameIntact slots p count := by
  constructor
  · intro hown
    refine ⟨fun hp => ?_, fun j hj hjp => ?_⟩
    · -- The offset in front of slot 0 is behind the directory.
      by_contra hlt
      have := (hown (p + 1) (by omega)).1
      omega
    · unfold lowestMark at hj
      split at hj
      · exact (hown count (Nat.le_refl _)).2 j (by omega) hjp
      · exact (hown (p % 2 ^ 27) (by omega)).2 j (by omega) hjp
  · rintro ⟨hroom, hname⟩ k hk
    have hlow : lowestMark p count ≤ (p + (2 ^ 27 - k)) % 2 ^ 27 ∧
        (p + (2 ^ 27 - k)) % 2 ^ 27 ≤ p := by
      unfold lowestMark
      split <;> omega
    exact ⟨hlow.2, fun j hj hjp => hname j (le_trans hlow.1 hj) hjp⟩

/-- **Deleting.**  The nodes that `fat_load_dir` makes come from slots of the
directory, and `fat_remove_entry` on one of them marks slots of its own entry only
if and only if its long name is intact. -/
theorem removed_iff (h : Sees fs g v) (hhint : Hinted v dn) (hnew : dn.loaded = false)
    {rounds : Nat} {r : LoadResult} (hload : fatLoadDir rounds fs dn = some r) :
    ∃ N, (∀ E, E ∈ r.entries ↔ ∃ p, entryAt (visitedSlots g v dn N) p = some E) ∧
      ∀ p E, entryAt (visitedSlots g v dn N) p = some E →
        ∀ fs' dn', Shows fs' g v → Hinted v dn' → dn'.cluster = dn.cluster →
          (MarksOwn (visitedSlots g v dn N) p (fatRemoveEntry fs' dn' E.node).marks ↔
            NameIntact (visitedSlots g v dn N) p E.node.lfnCount) := by
  obtain ⟨N, hvalid, hentries⟩ := fatLoadDir_reads h hnew hload
  refine ⟨N, fun E => by rw [hentries, mem_entries], ?_⟩
  intro p E hE fs' dn' hs' hhint' hcluster
  generalize hslots : visitedSlots g v dn N = slots at hE ⊢
  obtain ⟨-, e, -, he, -, -, -, hoffset, -⟩ := entryAt_spec hE
  have hcount := entryAt_count hE
  have hp : p < slots.length := (List.getElem?_eq_some_iff.mp he).1
  have hmark : ∀ k, k ≤ E.node.lfnCount → markAt E.node.entryOffset k =
      32 * ((p + (2 ^ 27 - k)) % 2 ^ 27) := by
    intro k hk
    rw [hoffset]
    exact markAt_slot p (by omega)
  rw [fatRemoveEntry, ← marks_own_iff slots p hcount]
  constructor
  · intro hmarks k hk
    -- Own slots lie in the directory, so the loop reaches all offsets.
    have hreach : ∀ pos ∈ (fatRemoveLoop E.node.entryOffset (E.node.lfnCount + 1) 0 fs' dn').marks,
        HasByte g v dn' pos := by
      intro pos hpos
      obtain ⟨q, rfl, hq, -⟩ := hmarks pos hpos
      rw [← hslots, length_visitedSlots] at hq
      obtain ⟨i, -, -, hpos32⟩ := fatRemoveLoop_marks _ _ _ _ _ _ hpos
      have hlt : 32 * q < 2 ^ 32 := hpos32 ▸ Nat.mod_lt _ (by decide)
      intro j hj
      rw [g.clusterBytes_eq, Nat.mul_div_mul_left _ _ (by decide)] at hj
      have hqN : q / g.slotsPerCluster < N := Nat.div_lt_of_lt_mul (by rwa [Nat.mul_comm] at hq)
      have hqq : q / g.slotsPerCluster ≤ q := Nat.div_le_self _ _
      rw [hcluster, ← hhint.roundCluster (by omega)]
      exact hvalid j (by omega)
    have hall := fatRemoveLoop_complete _ _ 0 hs' hhint' hreach k (Nat.zero_le k) (by omega)
    obtain ⟨q, hq, -, hown, -⟩ := hmarks _ hall
    rw [hmark k hk] at hq
    rw [Nat.eq_of_mul_eq_mul_left (by decide) hq]
    exact hown
  · intro hown pos hpos
    obtain ⟨k, -, hk, rfl⟩ := fatRemoveLoop_marks _ _ _ _ _ _ hpos
    have hk : k ≤ E.node.lfnCount := by omega
    have hq := hown k hk
    refine ⟨_, hmark k hk, lt_of_le_of_lt hq.1 hp, hq, fun p' E' hE' hne hown' => hne ?_⟩
    exact hown'.unique hE' hE hq

/-! ## A volume with two files -/

/-- `A` and `B`, each in the field of a short name. -/
def nameA : List UInt8 := 65 :: List.replicate 10 32

def nameB : List UInt8 := 66 :: List.replicate 10 32

/-- The slots of a root directory with the files `A` and `B`; the long-name slot of
`B` has the given first byte. -/
def twoFiles (order : UInt8) : List UInt8 :=
  shortSlot nameA attrArchive 0 0 (0, 0) ++
    lfnSlot order (fatChecksum nameB) (98 :: 0 :: List.replicate 11 0xFFFF) ++
    shortSlot nameB attrArchive 0 0 (0, 0)

/-- The volume, just mounted. -/
def twoFilesVolume (order : UInt8) : Fat32 where
  geo := smallGeometry 1
  nextFree := 2
  cacheSector := 0
  cacheValid := false
  cacheDirty := false
  cache := fun _ => 0
  dev :=
    { sectors := 4096
      data := fun a =>
        if 1024 ≤ a then (twoFiles order).getD (a - 1024) 0
        else if 520 ≤ a ∧ a < 523 then 0xFF else if a = 523 then 0x0F else 0 }

theorem twoFilesVolume_shows (order : UInt8) :
    Shows (twoFilesVolume order) (smallGeometry 1) (twoFilesVolume order).view where
  ok :=
    { fits := smallGeometry_fits
      quiet := rfl
      free := ⟨Nat.le_refl 2, by simp [twoFilesVolume, smallGeometry]⟩
      held := fun h => absurd h Bool.false_ne_true
      dirty := fun h => absurd h Bool.false_ne_true
      clean := fun _ h => absurd h Bool.false_ne_true }
  geo := rfl
  view := rfl

/-- What `fat_load_dir` makes of its root directory. -/
def loadedFiles (order : UInt8) : LoadResult :=
  (fatLoadDir 2 (twoFilesVolume order) { cluster := 2 }).getD
    ⟨[], { cluster := 2 }, twoFilesVolume order⟩

theorem loadedFiles_eq {order : UInt8}
    (h : (fatLoadDir 2 (twoFilesVolume order) { cluster := 2 }).isSome = true) :
    fatLoadDir 2 (twoFilesVolume order) { cluster := 2 } = some (loadedFiles order) := by
  obtain ⟨r, hr⟩ := Option.isSome_iff_exists.mp h
  rw [loadedFiles, hr, Option.getD_some]

/-- With the order of a name of one slot, deleting `B` is local. -/
theorem twoFiles_removed :
    ∃ N, (∀ E, E ∈ (loadedFiles 0x41).entries ↔
        ∃ p, entryAt (visitedSlots (smallGeometry 1) (twoFilesVolume 0x41).view { cluster := 2 } N) p =
          some E) ∧
      ∀ p E, entryAt (visitedSlots (smallGeometry 1) (twoFilesVolume 0x41).view { cluster := 2 } N) p =
          some E →
        ∀ fs' dn', Shows fs' (smallGeometry 1) (twoFilesVolume 0x41).view →
          Hinted (twoFilesVolume 0x41).view dn' → dn'.cluster = 2 →
            (MarksOwn (visitedSlots (smallGeometry 1) (twoFilesVolume 0x41).view { cluster := 2 } N) p
                (fatRemoveEntry fs' dn' E.node).marks ↔
              NameIntact (visitedSlots (smallGeometry 1) (twoFilesVolume 0x41).view { cluster := 2 } N)
                p E.node.lfnCount) :=
  removed_iff (twoFilesVolume_shows 0x41).sees (fun h => absurd rfl h) rfl
    (loadedFiles_eq (by decide +kernel))

/-- With the order of a name of two slots, deleting `B` marks the slot of `A`. -/
theorem stale_order_deletes_neighbour :
    ¬ ∀ (fs : Fat32) (g : Geometry) (v : View) (dn : FatNode) (rounds N p : Nat) (r : LoadResult)
        (E : DirEntry), Shows fs g v → Hinted v dn → dn.loaded = false →
      fatLoadDir rounds fs dn = some r →
      r.entries = (readSlots 0 .empty (visitedSlots g v dn N)).1 →
      entryAt (visitedSlots g v dn N) p = some E →
        MarksOwn (visitedSlots g v dn N) p (fatRemoveEntry fs dn E.node).marks := by
  intro hall
  have hload := @loadedFiles_eq 0x42 (by decide +kernel)
  have hentries : (loadedFiles 0x42).entries = (readSlots 0 .empty
      (visitedSlots (smallGeometry 1) (twoFilesVolume 0x42).view { cluster := 2 } 1)).1 := by
    decide +kernel
  have hsome : (entryAt (visitedSlots (smallGeometry 1) (twoFilesVolume 0x42).view { cluster := 2 } 1)
      2).map (fun E => (E.node.entryOffset, E.node.lfnCount)) = some (64, 2) := by decide +kernel
  obtain ⟨E, hE, hnode⟩ := Option.map_eq_some_iff.mp hsome
  obtain ⟨hoffset, hcount⟩ := Prod.mk.inj hnode
  have hmarks := hall (twoFilesVolume 0x42) _ _ { cluster := 2 } 2 1 2 _ E (twoFilesVolume_shows 0x42)
    (fun h => absurd rfl h) rfl hload hentries hE
  have hzero : 0 ∈ (fatRemoveEntry (twoFilesVolume 0x42) { cluster := 2 } E.node).marks := by
    rw [fatRemoveEntry, hoffset, hcount]
    decide +kernel
  obtain ⟨q, hq, -, hown, -⟩ := hmarks 0 hzero
  have hlfn := hown.2 0 (by omega) (by decide)
  have hshort : slotLfn ((visitedSlots (smallGeometry 1) (twoFilesVolume 0x42).view { cluster := 2 }
      1).getD 0 []) = false := by decide +kernel
  rw [hshort] at hlfn
  exact Bool.false_ne_true hlfn

end Fat
