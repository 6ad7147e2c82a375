import StrawOS.Fat.Bytes
import StrawOS.Fat.Slot

/-!
# Directories on the volume

`fat_load_dir` and `fat_find_slots` go through a directory cluster by cluster;
nothing bounds the number of clusters, so each is a loop that may not end, run
for a number of rounds.  `fat_add_entry` and `fat_remove_entry` change the slots.

The driver's own memory is taken to suffice: every allocation succeeds.
-/

namespace Fat

open Vfs (CString vfsNameMax)

/-- The slots of a buffer. -/
def slotsOf (buf : List UInt8) : List Slot :=
  (List.range (buf.length / 32)).map fun i => (buf.drop (32 * i)).take 32

/-! ## `fat_load_dir` -/

structure LoadState where
  fs : Fat32
  dn : FatNode
  index : Nat := 0
  lfn : LfnState := .empty
  entries : List DirEntry := []

structure LoadResult where
  entries : List DirEntry
  dn : FatNode
  fs : Fat32

/-- One round of `fat_load_dir`: the slots of one cluster. -/
def fatLoadRound (s : LoadState) : Round LoadState LoadResult :=
  let found := fatClusterAt s.fs s.dn s.index
  if found.1 = 0 then .done ⟨s.entries, found.2.1, found.2.2⟩
  else
    let geo := found.2.2.geo
    let got := blockRead found.2.2.dev (geo.lba found.1) geo.spc
    let fs := { found.2.2 with dev := got.2 }
    match got.1 with
    | none => .done ⟨s.entries, found.2.1, fs⟩
    | some buf =>
        let r := readSlots (s.index * geo.clusterBytes) s.lfn (slotsOf buf)
        match r.2 with
        | none => .done ⟨s.entries ++ r.1, found.2.1, fs⟩
        | some lfn => .again ⟨fs, found.2.1, (s.index + 1) % 2 ^ 32, lfn, s.entries ++ r.1⟩

/-- Where `fat_load_dir` starts. -/
def loadStart (fs : Fat32) (dn : FatNode) : LoadState := { fs := fs, dn := { dn with loaded := true } }

/-- `fat_load_dir`, for a number of rounds: the new nodes. -/
def fatLoadDir (fuel : Nat) (fs : Fat32) (dn : FatNode) : Option LoadResult :=
  if dn.loaded then some ⟨[], dn, fs⟩ else Loop.run fatLoadRound fuel (loadStart fs dn)

/-! ## `fat_find_slots` -/

/-- The outcome of the inner loop of `fat_find_slots`: enough deleted slots, the end
of the directory, or neither, with the length and the start of the last run. -/
inductive Scan
  | found (start : Nat)
  | extend (start : Nat)
  | more (run start : Nat)
  deriving DecidableEq, Repr

/-- The inner loop of `fat_find_slots` over the slots from an offset on. -/
def scanSlots (needed : Nat) : (pos run start : Nat) → List Slot → Scan
  | _, run, start, [] => .more run start
  | pos, run, start, e :: rest =>
      let start' := if run = 0 then pos else start
      if slotLast e then .extend start'
      else if slotDeleted e then
        if run + 1 = needed then .found start' else scanSlots needed (pos + 32) (run + 1) start' rest
      else scanSlots needed (pos + 32) 0 start rest

structure FindState where
  fs : Fat32
  dn : FatNode
  index : Nat := 0
  run : Nat := 0
  start : Nat := 0

structure FindResult where
  pos : Option Nat
  dn : FatNode
  fs : Fat32

/-- The end of `fat_find_slots`: room from `start` on. -/
def findExtend (fs : Fat32) (dn : FatNode) (needed start : Nat) : FindResult :=
  let cb := fs.geo.clusterBytes
  let made := fatExtend fs dn ((start + needed * 32 + (cb - 1)) / cb % 2 ^ 32) true
  ⟨if made.1 then some start else none, made.2.1, made.2.2⟩

/-- One round of `fat_find_slots`: the slots of one cluster. -/
def fatFindRound (needed : Nat) (s : FindState) : Round FindState FindResult :=
  let found := fatClusterAt s.fs s.dn s.index
  let cb := found.2.2.geo.clusterBytes
  if found.1 = 0 then
    let start := if s.run = 0 then s.index * cb else s.start
    .done (findExtend found.2.2 found.2.1 needed start)
  else
    let geo := found.2.2.geo
    let got := blockRead found.2.2.dev (geo.lba found.1) geo.spc
    let fs := { found.2.2 with dev := got.2 }
    match got.1 with
    | none => .done ⟨none, found.2.1, fs⟩
    | some buf =>
        match scanSlots needed (s.index * cb) s.run s.start (slotsOf buf) with
        | .found start => .done ⟨some start, found.2.1, fs⟩
        | .extend start => .done (findExtend fs found.2.1 needed start)
        | .more run start => .again ⟨fs, found.2.1, (s.index + 1) % 2 ^ 32, run, start⟩

/-- `fat_find_slots`, for a number of rounds. -/
def fatFindSlots (fuel : Nat) (fs : Fat32) (dn : FatNode) (needed : Nat) : Option FindResult :=
  Loop.run (fatFindRound needed) fuel { fs := fs, dn := dn }

/-! ## Changing entries -/

structure AddResult where
  ok : Bool
  fn : FatNode
  dn : FatNode
  fs : Fat32

/-- `fat_add_entry` behind `fat_find_slots`. -/
def addEntryAt (fs : Fat32) (dn : FatNode) (pos : Nat) (shortName : List UInt8) (name : CString)
    (attr : UInt8) (cluster size : Nat) (fn : FatNode) (stamp : UInt16 × UInt16) : AddResult :=
  let slots := entrySlots name shortName attr cluster size stamp
  let io := fatIoWrite fs dn pos slots.flatten
  if io.count ≠ some ((lfnCountOf name + 1) * 32) then ⟨false, fn, io.fn, io.fs⟩
  else
    ⟨true, { fn with
      entryOffset := (pos + lfnCountOf name * 32) % 2 ^ 32
      lfnCount := lfnCountOf name
      shortName := shortName }, io.fn, io.fs⟩

/-- `fat_add_entry`, for a number of rounds of `fat_find_slots`; `taken` are the short
names of the siblings. -/
def fatAddEntry (fuel : Nat) (fs : Fat32) (dn : FatNode) (taken : List (List UInt8)) (name : CString)
    (attr : UInt8) (cluster size : Nat) (fn : FatNode) (rtc : Option RtcTime) : Option AddResult :=
  if name = [] ∨ vfsNameMax ≤ name.length then some ⟨false, fn, dn, fs⟩
  else match fatMakeShort taken name with
    | none => some ⟨false, fn, dn, fs⟩
    | some shortName =>
        (fatFindSlots fuel fs dn (lfnCountOf name + 1)).map fun found =>
          match found.pos with
          | none => ⟨false, fn, found.dn, found.fs⟩
          | some pos => addEntryAt found.fs found.dn pos shortName name attr cluster size fn
              (fatTimestamp rtc)

/-- What `fat_remove_entry` did: the offsets it marked, or tried to. -/
structure RemoveResult where
  ok : Bool
  marks : List Nat
  dn : FatNode
  fs : Fat32

/-- The loop of `fat_remove_entry`; the offset is a 32-bit difference. -/
def fatRemoveLoop (offset : Nat) : (left k : Nat) → Fat32 → FatNode → RemoveResult
  | 0, _, fs, dn => ⟨true, [], dn, fs⟩
  | left + 1, k, fs, dn =>
      let pos := (offset + (2 ^ 32 - k * 32)) % 2 ^ 32
      let io := fatIoWrite fs dn pos [deletedMark]
      if io.count ≠ some 1 then ⟨false, [pos], io.fn, io.fs⟩
      else
        let r := fatRemoveLoop offset left (k + 1) io.fs io.fn
        { r with marks := pos :: r.marks }

def fatRemoveEntry (fs : Fat32) (dn fn : FatNode) : RemoveResult :=
  fatRemoveLoop fn.entryOffset (fn.lfnCount + 1) 0 fs dn

end Fat

/-!
# A directory, round by round

`fat_load_dir` and `fat_find_slots` visit the clusters of a directory in the same
way.  `roundCluster` is the cluster of a round by the table alone, and
`DirAt.visit` says that a round which succeeds sees the slots of this cluster,
on any table and with any I/O errors.
-/

-- Unification counts down the literal 512 of the sector size.
set_option maxRecDepth 2000

namespace Fat

variable {fs : Fat32} {g : Geometry} {v : View}

theorem Geometry.Fits.lba_le {sectors c : Nat} (h : g.Fits sectors) (hc : g.valid c = true) :
    g.lba c + g.spc ≤ sectors := by
  have hlt := h.valid_iff.mp hc
  have hmul : (c - 2 + 1) * g.spc ≤ g.clusterCount * g.spc := Nat.mul_le_mul_right _ (by omega)
  rw [Nat.add_mul, Nat.one_mul] at hmul
  have := h.clusters
  unfold Geometry.lba
  omega

theorem Geometry.lba_bytes (g : Geometry) (c : Nat) :
    g.lba c * 512 = g.dataStart * 512 + (c - 2) * g.clusterBytes := by
  unfold Geometry.lba Geometry.clusterBytes
  ring

/-- Where the walk for index 0 starts: the first time a hint may stand there, after
the index has wrapped it does not. -/
def firstCluster (dn : FatNode) (n : Nat) : Nat :=
  if n < 2 ^ 32 then (dn.walkStart 0).2 else dn.cluster

/-- The cluster of round `n`; the index of a round is a 32-bit counter. -/
def roundCluster (v : View) (dn : FatNode) (n : Nat) : Nat :=
  v.entry^[n % 2 ^ 32] (firstCluster dn n)

/-- The slots of a cluster. -/
def clusterSlots (g : Geometry) (v : View) (c : Nat) : List Slot :=
  slotsOf (Buf.read v.data ((c - 2) * g.spc * 512) (g.spc * 512))

/-- The slots of a cluster, counted. -/
def Geometry.slotsPerCluster (g : Geometry) : Nat := g.spc * 16

theorem clusterSlots_length (g : Geometry) (v : View) (c : Nat) :
    (clusterSlots g v c).length = g.slotsPerCluster := by
  simp only [clusterSlots, slotsOf, List.length_map, List.length_range, Buf.length_read,
    Geometry.slotsPerCluster]
  omega

theorem Sees.slots_pos (h : Sees fs g v) : 0 < g.slotsPerCluster := by
  have hspc := h.sane.fits.spc
  rw [h.geo] at hspc
  unfold Geometry.slotsPerCluster
  omega

/-- The driver before round `n` of a loop over a directory. -/
structure DirAt (g : Geometry) (v : View) (dn₀ : FatNode) (n : Nat) (fs : Fat32) (dn : FatNode) :
    Prop where
  sees : Sees fs g v
  cluster : dn.cluster = dn₀.cluster
  start : n % 2 ^ 32 = 0 → dn.walkStart 0 = (0, roundCluster v dn₀ n)
  hint : n % 2 ^ 32 ≠ 0 → g.valid (roundCluster v dn₀ (n - 1)) = true ∧
    dn.hintIndex = n % 2 ^ 32 - 1 ∧ dn.hintCluster = roundCluster v dn₀ (n - 1)

theorem walkStart_zero (dn : FatNode) : (dn.walkStart 0).1 = 0 := by
  unfold FatNode.walkStart
  split
  · rename_i h
    exact Nat.le_zero.mp h.2
  · rfl

theorem DirAt.zero (h : Sees fs g v) (dn : FatNode) : DirAt g v dn 0 fs dn where
  sees := h
  cluster := rfl
  start _ := Prod.ext (walkStart_zero dn) (by simp [roundCluster, firstCluster])
  hint hne := absurd rfl hne

theorem roundCluster_succ (v : View) (dn : FatNode) {n : Nat} (hn : n % 2 ^ 32 ≠ 0) :
    roundCluster v dn n = v.entry (roundCluster v dn (n - 1)) := by
  have hmod : n % 2 ^ 32 = (n - 1) % 2 ^ 32 + 1 := by omega
  have hfirst : firstCluster dn n = firstCluster dn (n - 1) := by
    unfold firstCluster
    by_cases hlt : n < 2 ^ 32
    · rw [if_pos hlt, if_pos (by omega)]
    · rw [if_neg hlt, if_neg (by omega)]
  rw [roundCluster, hmod, Function.iterate_succ_apply', hfirst]
  rfl

/-- `fat_cluster_at` of a round: the cluster of the round, or zero; zero only for
something that is no cluster, or after a failure. -/
theorem DirAt.clusterAt {dn₀ dn : FatNode} {n : Nat} (h : DirAt g v dn₀ n fs dn) :
    ((fatClusterAt fs dn (n % 2 ^ 32)).1 ≠ 0 →
      g.valid (roundCluster v dn₀ n) = true ∧
      Sees (fatClusterAt fs dn (n % 2 ^ 32)).2.2 g v ∧
      Spent fs.dev (fatClusterAt fs dn (n % 2 ^ 32)).2.2.dev true ∧
      (fatClusterAt fs dn (n % 2 ^ 32)).1 = roundCluster v dn₀ n ∧
      (fatClusterAt fs dn (n % 2 ^ 32)).2.1 =
        { dn with hintIndex := n % 2 ^ 32, hintCluster := roundCluster v dn₀ n }) ∧
    (true ∉ fs.dev.faults → g.valid (roundCluster v dn₀ n) = true →
      (fatClusterAt fs dn (n % 2 ^ 32)).1 ≠ 0) := by
  obtain ⟨hsees, -, hstart, hhint⟩ := h
  by_cases hn : n % 2 ^ 32 = 0
  · -- The walk has no step.
    have hat : fatClusterAt fs dn (n % 2 ^ 32) =
        if g.valid (roundCluster v dn₀ n) then
          (roundCluster v dn₀ n,
            { dn with hintIndex := n % 2 ^ 32, hintCluster := roundCluster v dn₀ n }, fs)
        else (0, dn, fs) := by
      rw [hn, fatClusterAt, hstart hn]
      simp only [Nat.sub_self, fatWalk, hsees.geo]
    rw [hat]
    by_cases hv : g.valid (roundCluster v dn₀ n) = true
    · rw [if_pos hv]
      have h2 := (valid_lt hsees hv).1
      exact ⟨fun _ => ⟨hv, hsees, .refl _ _, rfl, rfl⟩, fun _ _ => by omega⟩
    · rw [if_neg hv]
      exact ⟨fun hne => absurd rfl hne, fun _ hv' => absurd hv' hv⟩
  · -- The walk follows one link.
    obtain ⟨hv, hindex, hcluster⟩ := hhint hn
    have h2 := (valid_lt hsees hv).1
    have hws : dn.walkStart (n % 2 ^ 32) = (n % 2 ^ 32 - 1, roundCluster v dn₀ (n - 1)) := by
      rw [FatNode.walkStart, if_pos ⟨by rw [hcluster]; omega, by omega⟩, hindex,
        hcluster]
    have hat : fatClusterAt fs dn (n % 2 ^ 32) =
        if g.valid (fatGet fs (roundCluster v dn₀ (n - 1))).1 then
          ((fatGet fs (roundCluster v dn₀ (n - 1))).1,
            { dn with
              hintIndex := n % 2 ^ 32
              hintCluster := (fatGet fs (roundCluster v dn₀ (n - 1))).1 },
            (fatGet fs (roundCluster v dn₀ (n - 1))).2)
        else (0, dn, (fatGet fs (roundCluster v dn₀ (n - 1))).2) := by
      have hsteps : n % 2 ^ 32 - (n % 2 ^ 32 - 1) = 1 := by omega
      rw [fatClusterAt, hws]
      simp only [hsteps, fatWalk, hsees.geo, hv, if_true]
    obtain ⟨hgot, -, hstate, hres⟩ := fatGet_sees hsees hv
    have hsector : roundCluster v dn₀ (n - 1) / 128 < g.fatSectors := by
      obtain rfl := hsees.geo
      exact hsees.sane.fits.sector_lt hv
    obtain ⟨hspent, hfine⟩ := fatCacheLoad_spent hsees hsector
    rw [hstate] at hspent
    rw [hat, roundCluster_succ v dn₀ hn]
    rcases hres with ⟨hfail, heoc⟩ | ⟨hload, hval, -, -⟩
    · rw [heoc, hsees.eoc_invalid, if_neg Bool.false_ne_true]
      exact ⟨fun hne => absurd rfl hne, fun hq _ => absurd ((hfine hq).symm.trans hfail) (by simp)⟩
    · rw [hval]
      by_cases hnext : g.valid (v.entry (roundCluster v dn₀ (n - 1))) = true
      · rw [if_pos hnext]
        have h2' := (valid_lt hsees hnext).1
        rw [hload] at hspent
        exact ⟨fun _ => ⟨hnext, hgot, hspent, rfl, rfl⟩, fun _ _ => by omega⟩
      · rw [if_neg hnext]
        exact ⟨fun hne => absurd rfl hne, fun _ hv' => absurd hv' hnext⟩

theorem Sees.setDev (h : Sees fs g v) {dev : BlockDevice} (hdata : dev.data = fs.dev.data)
    (hsec : dev.sectors = fs.dev.sectors) : Sees { fs with dev := dev } g v := by
  obtain ⟨hok, rfl, rfl⟩ := h
  refine ⟨⟨by rw [hsec]; exact hok.fits, hok.free, hok.held, hok.dirty, ?_⟩, rfl, ?_⟩
  · intro hc hv k hk
    rw [hdata]
    exact hok.clean hc hv k hk
  · refine view_congr rfl hsec (fun a _ => by rw [hdata]) hok.fits (fun a _ => ?_)
      (fun a _ => by rw [hdata])
    simp only [Fat32.fatByte, hdata]

/-- What a round gets to see of the volume: the cluster that `fat_cluster_at` finds,
and its slots. -/
theorem DirAt.visit {dn₀ dn : FatNode} {n : Nat} (h : DirAt g v dn₀ n fs dn) {c : Nat}
    {dn' : FatNode} {fs' : Fat32} (hat : fatClusterAt fs dn (n % 2 ^ 32) = (c, dn', fs'))
    (hc : c ≠ 0) :
    g.valid (roundCluster v dn₀ n) = true ∧ fs'.geo = g ∧
      (∀ buf, (blockRead fs'.dev (g.lba c) g.spc).1 = some buf →
        slotsOf buf = clusterSlots g v (roundCluster v dn₀ n) ∧
        DirAt g v dn₀ (n + 1) { fs' with dev := (blockRead fs'.dev (g.lba c) g.spc).2 } dn' ∧
        Spent fs.dev (blockRead fs'.dev (g.lba c) g.spc).2 true ∧
        (fs.dev.faults ≠ [] →
          (blockRead fs'.dev (g.lba c) g.spc).2.faults.length < fs.dev.faults.length)) ∧
      (true ∉ fs.dev.faults → (blockRead fs'.dev (g.lba c) g.spc).1.isSome = true) := by
  have hfound := h.clusterAt.1
  rw [hat] at hfound
  obtain ⟨hv, hsees, hspent, hcr, hdn⟩ := hfound hc
  dsimp only at hsees hspent hcr hdn
  have hfits := hsees.sane.fits
  rw [hsees.geo] at hfits
  have hin : g.lba c + g.spc ≤ fs'.dev.sectors := by
    rw [hcr]
    exact hfits.lba_le hv
  obtain ⟨h1, h2, h3⟩ := blockRead_spent fs'.dev hfits.spc hin
  obtain ⟨hdata, hsec, hbytes⟩ := blockRead_data fs'.dev (g.lba c) g.spc
  refine ⟨hv, hsees.geo, fun buf hbuf => ⟨?_, ⟨?_, ?_, ?_, ?_⟩, ?_, ?_⟩, fun hq => ?_⟩
  · obtain rfl := hbytes buf hbuf
    have hview : ∀ a, v.data a = fs'.dev.data (g.dataStart * 512 + a) := by
      intro a
      rw [← hsees.view, Fat32.view, hsees.geo]
    congr 1
    apply List.map_congr_left
    intro i _
    rw [hview, hcr, Geometry.lba]
    ring
  · exact hsees.setDev hdata hsec
  · rw [hdn]
    exact h.cluster
  · -- The index has wrapped: the hint is behind the first cluster.
    intro h0
    rw [hdn, FatNode.walkStart, if_neg (by dsimp only; omega)]
    rw [h.cluster, roundCluster, h0, Function.iterate_zero_apply, firstCluster,
      if_neg (by omega)]
  · grind
  · rw [hbuf] at h1
    exact hspent.trans h1 fun _ => ⟨rfl, rfl⟩
  · intro hne
    rcases List.eq_nil_or_concat fs'.dev.faults with hnil | ⟨_, _, _⟩
    · -- The walk has used up the list.
      have hpos := List.length_pos_iff.mpr hne
      have hspent' := h1.length_le
      rw [hnil] at hspent'
      simp only [List.length_nil] at hspent'
      omega
    · have hless := h3 (by simp_all)
      have hle := hspent.length_le
      omega
  · exact h2 (hspent.faultless hq)

end Fat
