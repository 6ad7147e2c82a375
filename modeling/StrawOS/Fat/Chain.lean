import StrawOS.Fat.Geometry
import StrawOS.Fat.Faults
import StrawOS.Lib.Chain
import StrawOS.Lib.Loop

/-!
# Cluster chains

A file or directory is a chain of clusters through the table.  `fatClusterAt`
walks it, `fatExtend` makes it longer and `fatFreeChain` gives it back;
`FatNode` remembers where the last walk ended.

The clusters that follow one another in a view are a `PtrChain` of `View.next`.
-/

namespace Fat

/-- `FatNode`, without the pointer to its volume. -/
structure FatNode where
  cluster : Nat
  entryOffset : Nat := 0
  lfnCount : Nat := 0
  shortName : List UInt8 := List.replicate 11 0
  loaded : Bool := false
  hintIndex : Nat := 0
  hintCluster : Nat := 0
  deriving DecidableEq, Repr

def fatZeroCluster (fs : Fat32) (c : Nat) : Bool × Fat32 :=
  let done := blockWrite fs.dev (fs.geo.lba c) fs.geo.spc (List.replicate fs.geo.clusterBytes 0)
  (done.1, { fs with dev := done.2 })

/-- Link a free cluster behind `prev`, unless that is zero: the body of the loop
of `fat_alloc` once the cluster was found. -/
def fatTake (fs : Fat32) (prev : Nat) (zero : Bool) (c : Nat) : Nat × Fat32 :=
  let zeroed := if zero then fatZeroCluster fs c else (true, fs)
  if !zeroed.1 then (0, zeroed.2)
  else
    let marked := fatSet zeroed.2 c fatEoc
    if !marked.1 then (0, marked.2)
    else
      let linked := if prev ≠ 0 then fatSet marked.2 prev c else (true, marked.2)
      if !linked.1 then (0, linked.2)
      else
        let next := if c + 1 < (fs.geo.clusterCount + 2) % 2 ^ 32 then c + 1 else 2
        (c, { linked.2 with nextFree := next })

/-- Cluster `n` of the search; 32-bit sums. -/
def fatCandidate (fs : Fat32) (n : Nat) : Nat :=
  2 + (fs.nextFree - 2 + n) % 2 ^ 32 % fs.geo.clusterCount

/-- The loop of `fat_alloc`. -/
def fatAllocLoop (prev : Nat) (zero : Bool) : (left n : Nat) → Fat32 → Nat × Fat32
  | 0, _, fs => (0, fs)
  | left + 1, n, fs =>
      let got := fatGet fs (fatCandidate fs n)
      if got.1 ≠ 0 then fatAllocLoop prev zero left (n + 1) got.2
      else fatTake got.2 prev zero (fatCandidate fs n)

/-- `fat_alloc`; zero when no cluster could be taken. -/
def fatAlloc (fs : Fat32) (prev : Nat) (zero : Bool) : Nat × Fat32 :=
  fatAllocLoop prev zero fs.geo.clusterCount 0 fs

/-- One round of `fat_free_chain`. -/
def fatFreeRound (s : Fat32 × Nat) : Round (Fat32 × Nat) Fat32 :=
  if s.1.geo.valid s.2 then
    let got := fatGet s.1 s.2
    let fs := (fatSet got.2 s.2 0).2
    .again ({ fs with nextFree := if s.2 < fs.nextFree then s.2 else fs.nextFree }, got.1)
  else .done s.1

/-- One round of the walk of `fat_cluster_at`: the volume, the cluster and its
index. -/
def fatWalkRound (index : Nat) (s : Fat32 × Nat × Nat) : Round (Fat32 × Nat × Nat) (Fat32 × Nat) :=
  if s.2.2 < index ∧ s.1.geo.valid s.2.1 then
    let got := fatGet s.1 s.2.1
    .again (got.2, got.1, s.2.2 + 1)
  else .done (s.1, s.2.1)

/-- The walk of `fat_cluster_at` over at most a number of links. -/
def fatWalk : (steps : Nat) → Fat32 → Nat → Nat × Fat32
  | 0, fs, c => (c, fs)
  | steps + 1, fs, c =>
      if fs.geo.valid c then
        let got := fatGet fs c
        fatWalk steps got.2 got.1
      else (c, fs)

/-- Where `fat_cluster_at` starts to walk: index and cluster. -/
def FatNode.walkStart (fn : FatNode) (index : Nat) : Nat × Nat :=
  if fn.hintCluster ≠ 0 ∧ fn.hintIndex ≤ index then (fn.hintIndex, fn.hintCluster)
  else (0, fn.cluster)

/-- `fat_cluster_at`; zero when the chain is too short. -/
def fatClusterAt (fs : Fat32) (fn : FatNode) (index : Nat) : Nat × FatNode × Fat32 :=
  let start := fn.walkStart index
  let walked := fatWalk (index - start.1) fs start.2
  if fs.geo.valid walked.1 then
    (walked.1, { fn with hintIndex := index, hintCluster := walked.1 }, walked.2)
  else (0, fn, walked.2)

/-- The loop of `fat_extend`: how many clusters are still to come, the index and
the cluster of the last one so far. -/
def fatExtendLoop (zero : Bool) : (left i c : Nat) → Fat32 → Option (Nat × Nat) × Fat32
  | 0, i, c, fs => (some (i, c), fs)
  | left + 1, i, c, fs =>
      let got := fatGet fs c
      if fs.geo.valid got.1 then fatExtendLoop zero left (i + 1) got.1 got.2
      else
        let made := fatAlloc got.2 c zero
        if made.1 = 0 then (none, made.2)
        else fatExtendLoop zero left (i + 1) made.1 made.2

/-- The first cluster of a node that has none yet. -/
def fatFirst (fs : Fat32) (fn : FatNode) (zero : Bool) : Bool × FatNode × Fat32 :=
  if fs.geo.valid fn.cluster then (true, fn, fs)
  else
    let made := fatAlloc fs 0 zero
    if made.1 = 0 then (false, fn, made.2)
    else (true, { fn with cluster := made.1, hintIndex := 0, hintCluster := made.1 }, made.2)

/-- Where `fat_extend` starts to walk: index and cluster. -/
def FatNode.extendStart (fn : FatNode) (clusters : Nat) : Nat × Nat :=
  if fn.hintCluster ≠ 0 ∧ fn.hintIndex < clusters then (fn.hintIndex, fn.hintCluster)
  else (0, fn.cluster)

def fatExtend (fs : Fat32) (fn : FatNode) (clusters : Nat) (zero : Bool) :
    Bool × FatNode × Fat32 :=
  if clusters = 0 then (true, fn, fs)
  else
    let first := fatFirst fs fn zero
    if !first.1 then first
    else
      let fn := first.2.1
      let start := fn.extendStart clusters
      let made := fatExtendLoop zero (clusters - 1 - start.1) start.1 start.2 first.2.2
      match made.1 with
      | none => (false, fn, made.2)
      | some last => (true, { fn with hintIndex := last.1, hintCluster := last.2 }, made.2)

/-! ## Chains in a view -/

/-- The cluster behind a cluster. -/
def View.next (g : Geometry) (v : View) (c : Nat) : Option Nat :=
  if g.valid (v.entry c) then some (v.entry c) else none

/-- The first cluster of a chain, if it is one. -/
def Geometry.start (g : Geometry) (c : Nat) : Option Nat := if g.valid c then some c else none

/-- The clusters of a node that is in order: they are linked up to an end mark, and
the hint is one of them. -/
structure ChainOf (g : Geometry) (v : View) (fn : FatNode) (chain : List Nat) : Prop where
  linked : PtrChain (v.next g) (g.start fn.cluster) chain
  used : ∀ c ∈ chain, v.entry c ≠ 0
  hint : fn.hintCluster ≠ 0 → chain[fn.hintIndex]? = some fn.hintCluster

end Fat
