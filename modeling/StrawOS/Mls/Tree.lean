import StrawOS.Lib.TreeIndex
import Mathlib.Data.List.DropRight
import StrawOS.Lib.Logged
import StrawOS.Mls.Crypto

/-!
# Node indices of a ratchet tree

`t_level` and the functions after it in `mls.c`, on the bits of a 32-bit index, and
what they are for the node `j` of level `k`.
-/

namespace Mls

open TreeIndex

def maxDepth : Nat := 32

def tLevel (x : Nat) : Nat := levelLoop 32 x

def tWidth (leaves : Nat) : Nat := if leaves = 0 then 0 else 2 * leaves - 1

/-- The loop of `t_root`. -/
def rootLoop (w : Nat) : Nat → Nat → Nat
  | 0, k => k
  | fuel + 1, k => if 1 <<< (k + 1) ≤ w then rootLoop w fuel (k + 1) else k

def tRoot (leaves : Nat) : Nat := 1 <<< rootLoop (tWidth leaves) 32 0 - 1

def tLeft (x : Nat) : Nat := x ^^^ (1 <<< (tLevel x - 1))

def tRight (x : Nat) : Nat := x ^^^ (3 <<< (tLevel x - 1))

def tParent (x : Nat) : Nat :=
  let k := tLevel x
  let b := (x >>> (k + 1)) &&& 1
  (x ||| (1 <<< k)) ^^^ (b <<< (k + 1))

def tSibling (x : Nat) : Nat :=
  let p := tParent x
  if x < p then tRight p else tLeft p

def tInSubtree (top x : Nat) : Bool :=
  let span := 1 <<< tLevel top - 1
  decide (top ≤ x + span) && decide (x ≤ top + span)

/-- The loop of `t_direct_path`. -/
def directLoop (root : Nat) : Nat → Nat → List Nat
  | 0, _ => []
  | fuel + 1, x => if x = root then [] else tParent x :: directLoop root fuel (tParent x)

def tDirectPath (x leaves : Nat) : List Nat := directLoop (tRoot leaves) maxDepth x

def copathChild (parent leafNode : Nat) : Nat :=
  if tInSubtree (tLeft parent) leafNode then tRight parent else tLeft parent

def pathChild (parent leafNode : Nat) : Nat :=
  if tInSubtree (tLeft parent) leafNode then tLeft parent else tRight parent

/-! ## Nodes -/

theorem tLevel_node {k : Nat} (hk : k ≤ 32) (j : Nat) : tLevel (node k j) = k :=
  levelLoop_node hk j

theorem tLeft_node {k : Nat} (hk : k < 32) (j : Nat) : tLeft (node (k + 1) j) = node k (2 * j) := by
  rw [tLeft, tLevel_node (by omega)]
  exact xor_left k j

theorem tRight_node {k : Nat} (hk : k < 32) (j : Nat) :
    tRight (node (k + 1) j) = node k (2 * j + 1) := by
  rw [tRight, tLevel_node (by omega)]
  exact xor_right k j

theorem tParent_node {k : Nat} (hk : k ≤ 32) (j : Nat) : tParent (node k j) = node (k + 1) (j / 2) := by
  rw [tParent, tLevel_node hk]
  exact or_xor_parent k j

theorem tSibling_node {k : Nat} (hk : k < 32) (j : Nat) :
    tSibling (node k j) = node k (if j % 2 = 0 then j + 1 else j - 1) := by
  have hl := node_left k (j / 2)
  have hr := node_right k (j / 2)
  rw [tSibling, tParent_node (by omega), tRight_node hk, tLeft_node hk]
  by_cases heven : j % 2 = 0
  · grind
  · grind

theorem tInSubtree_nodes {k : Nat} (hk : k ≤ 32) (j k' j' : Nat) :
    tInSubtree (node k j) (node k' j') = true ↔ k' ≤ k ∧ j' / 2 ^ (k - k') = j := by
  rw [tInSubtree, tLevel_node hk, Nat.one_shiftLeft, Bool.and_eq_true, decide_eq_true_eq,
    decide_eq_true_eq]
  exact node_span_iff k j k' j'

theorem tInSubtree_node {k : Nat} (hk : k ≤ 32) (j l : Nat) :
    tInSubtree (node k j) (2 * l) = decide (l / 2 ^ k = j) := by
  rw [← node_zero, Bool.eq_iff_iff, tInSubtree_nodes hk, decide_eq_true_eq]
  simp

theorem tWidth_two_pow (d : Nat) : tWidth (2 ^ d) = 2 ^ (d + 1) - 1 := by
  have := Nat.two_pow_pos d
  rw [tWidth, if_neg (by omega), Nat.pow_succ]
  omega

theorem rootLoop_spec {d fuel k : Nat} (hk : k ≤ d) (hfuel : d ≤ k + fuel) :
    rootLoop (2 ^ (d + 1) - 1) fuel k = d := by
  induction fuel generalizing k with
  | zero =>
    rw [rootLoop]
    omega
  | succ fuel ih =>
    rw [rootLoop, Nat.one_shiftLeft]
    by_cases hlast : k = d
    · subst hlast
      have := Nat.two_pow_pos (k + 1)
      rw [if_neg (by omega)]
    · have hpow : 2 ^ (k + 1) ≤ 2 ^ d := Nat.pow_le_pow_right (by omega) (by omega)
      rw [if_pos (by omega)]
      exact ih (by omega) (by omega)

theorem tRoot_two_pow {d : Nat} (hd : d ≤ 32) : tRoot (2 ^ d) = node d 0 := by
  rw [tRoot, tWidth_two_pow, rootLoop_spec (Nat.zero_le d) (by omega), Nat.one_shiftLeft]
  simp [node]

theorem directLoop_spec {d l : Nat} (hd : d ≤ 32) (hl : l < 2 ^ d) {fuel k : Nat} (hk : k ≤ d)
    (hfuel : d - k ≤ fuel) :
    directLoop (node d 0) fuel (node k (l / 2 ^ k)) =
      (List.range (d - k)).map fun i => node (k + i + 1) (l / 2 ^ (k + i + 1)) := by
  induction fuel generalizing k with
  | zero =>
    have hzero : d - k = 0 := by omega
    rw [hzero]
    rfl
  | succ fuel ih =>
    rw [directLoop]
    by_cases hlast : k = d
    · subst hlast
      rw [Nat.div_eq_of_lt hl, if_pos rfl, Nat.sub_self]
      rfl
    · have hne : node k (l / 2 ^ k) ≠ node d 0 := by
        intro heq
        exact hlast (node_injective heq).1
      have hhalf : l / 2 ^ k / 2 = l / 2 ^ (k + 1) := by
        rw [Nat.div_div_eq_div_mul, ← Nat.pow_succ]
      have hrange : d - k = (d - (k + 1)) + 1 := by omega
      rw [if_neg hne, tParent_node (by omega), hhalf, ih (by omega) (by omega), hrange,
        List.range_succ_eq_map, List.map_cons, List.map_map]
      congr 1
      apply List.map_congr_left
      intro i _
      have hsum : k + 1 + i = k + (i + 1) := by omega
      rw [Function.comp_apply, hsum]

theorem tDirectPath_leaf {d l : Nat} (hd : d ≤ 32) (hl : l < 2 ^ d) :
    tDirectPath (2 * l) (2 ^ d) = (List.range d).map fun i => node (i + 1) (l / 2 ^ (i + 1)) := by
  have hspec := directLoop_spec hd hl (Nat.zero_le d) (show d - 0 ≤ maxDepth from hd)
  rw [tDirectPath, tRoot_two_pow hd, ← node_zero]
  simpa using hspec

/-- The children of an ancestor of a leaf: the one on the path and the other one. -/
theorem pathChild_ancestor {k l : Nat} (hk : k < 32) :
    pathChild (node (k + 1) (l / 2 ^ (k + 1))) (2 * l) = node k (l / 2 ^ k) := by
  have hhalf : l / 2 ^ (k + 1) = l / 2 ^ k / 2 := by
    rw [Nat.div_div_eq_div_mul, ← Nat.pow_succ]
  rw [pathChild, tLeft_node hk, tRight_node hk, tInSubtree_node (by omega), hhalf]
  by_cases heven : l / 2 ^ k = 2 * (l / 2 ^ k / 2)
  · rw [if_pos (decide_eq_true heven), ← heven]
  · have hodd : 2 * (l / 2 ^ k / 2) + 1 = l / 2 ^ k := by omega
    rw [if_neg (by simpa using heven), hodd]

theorem copathChild_ancestor {k l : Nat} (hk : k < 32) :
    copathChild (node (k + 1) (l / 2 ^ (k + 1))) (2 * l) =
      node k (if l / 2 ^ k % 2 = 0 then l / 2 ^ k + 1 else l / 2 ^ k - 1) := by
  have hhalf : l / 2 ^ (k + 1) = l / 2 ^ k / 2 := by
    rw [Nat.div_div_eq_div_mul, ← Nat.pow_succ]
  rw [copathChild, tLeft_node hk, tRight_node hk, tInSubtree_node (by omega), hhalf]
  by_cases heven : l / 2 ^ k % 2 = 0
  · have hj : 2 * (l / 2 ^ k / 2) = l / 2 ^ k := by omega
    rw [if_pos (decide_eq_true hj.symm), if_pos heven, hj]
  · have hj : 2 * (l / 2 ^ k / 2) = l / 2 ^ k - 1 := by omega
    rw [if_neg (by simp only [decide_eq_true_eq]; omega), if_neg heven, hj]

/-- The number of the sibling of the ancestor of a leaf. -/
def siblingOf (j : Nat) : Nat := if j % 2 = 0 then j + 1 else j - 1

theorem siblingOf_div (j : Nat) : siblingOf j / 2 = j / 2 ∧ siblingOf j ≠ j := by
  rw [siblingOf]
  split <;> omega

end Mls

/-!
# Ratchet trees

The nodes of a tree lie in an array, leaves at the even indices.  Every function
logs the index of each node that it touches with the width of the tree at that
moment.

The allocations of `mls.c` are assumed to succeed, but for a tree of more than
`2 ^ 30` leaves, which would not fit into the memory of any machine.
-/

namespace Mls

/-! ## Leaves -/

structure LeafView where
  raw : Bytes
  tbs : Bytes
  enc : Bytes
  sig : Bytes
  uid : Nat
  source : Nat
  ph : Bytes
  signature : Bytes

/-- What `parse_leaf` reads after the credential: the source of the leaf. -/
def parseSource (source : Nat) : Parser Bytes := do
  if source = 1 then
    let _ ← Parser.u64
    let _ ← Parser.u64
    pure []
  else if source = 3 then Parser.vector
  else
    Parser.check (source = 2)
    pure []

/-- `parse_leaf`, up to the signature: the keys, the user, the source and the parent
hash. -/
def parseLeafBody : Parser (Bytes × Bytes × Nat × Nat × Bytes) := do
  let enc ← Parser.vector
  Parser.check (enc.length = npk)
  let sig ← Parser.vector
  Parser.check (sig.length = npk)
  let credential ← Parser.u16
  Parser.check (credential = 1)
  let id ← Parser.vector
  let _ ← Parser.sub
  let _ ← Parser.sub
  let _ ← Parser.sub
  let _ ← Parser.sub
  let _ ← Parser.sub
  let source ← Parser.u8
  let ph ← parseSource source
  let _ ← Parser.sub
  pure (enc, sig, if id.length = 8 then number (some id) else 0, source, ph)

def parseLeaf : Parser LeafView := do
  let (raw, (tbs, enc, sig, uid, source, ph), signature) ← Parser.span do
    let body ← Parser.span parseLeafBody
    let signature ← Parser.vector
    Parser.noErr
    pure (body, signature)
  pure ⟨raw, tbs, enc, sig, uid, source, ph, signature⟩

/-! ## Nodes -/

inductive NodeType
  | blank
  | leaf
  | parent
deriving DecidableEq

/-- `Node`, with a parent hash of its own length and a private key if there is one. -/
structure Node where
  type : NodeType
  enc : Bytes
  sig : Bytes
  uid : Nat
  raw : Bytes
  ph : Bytes
  unmerged : List Nat
  priv : Option Bytes

/-- What `node_clear` leaves. -/
def Node.zero : Node :=
  ⟨.blank, List.replicate npk 0, List.replicate npk 0, 0, [], [], [], none⟩

def nodeSetLeaf (v : LeafView) : Node :=
  { Node.zero with type := .leaf, enc := v.enc, sig := v.sig, uid := v.uid, raw := v.raw }

def wParentNode (n : Node) : Bytes :=
  wOpaque n.enc ++ wOpaque n.ph ++ wVarint (n.unmerged.length * 4) ++ n.unmerged.flatMap wU32

structure Tree where
  n : List Node
  leaves : Nat

/-- The index of a node that is touched, and the width of the tree. -/
abbrev Access := Nat × Nat

/-- Read a node. -/
def Tree.get (t : Tree) (x : Nat) : Logged Access Node := do
  Logged.tell (x, tWidth t.leaves)
  pure (t.n.getD x Node.zero)

/-- Write a node. -/
def Tree.set (t : Tree) (x : Nat) (n : Node) : Logged Access Tree := do
  Logged.tell (x, tWidth t.leaves)
  pure { t with n := t.n.set x n }

def maxLeaves : Nat := 2 ^ 30

def treeResize (t : Tree) (leaves : Nat) : Tree :=
  ⟨t.n.take (tWidth leaves) ++ List.replicate (tWidth leaves - tWidth t.leaves) Node.zero, leaves⟩

/-! ## Hashes and resolutions -/

def treeHash (cr : Crypto) (t : Tree) : Nat → Nat → Logged Access Bytes
  | 0, _ => pure []
  | fuel + 1, x => do
    let n ← t.get x
    if x % 2 = 0 then
      pure (cr.sha256 (wU8 1 ++ wU32 (x / 2) ++
        (if n.type = .leaf then wU8 1 ++ n.raw else wU8 0)))
    else
      let lh ← treeHash cr t fuel (tLeft x)
      let rh ← treeHash cr t fuel (tRight x)
      pure (cr.sha256 (wU8 2 ++ (if n.type = .parent then wU8 1 ++ wParentNode n else wU8 0) ++
        wOpaque lh ++ wOpaque rh))

def treeRootHash (cr : Crypto) (t : Tree) : Logged Access Bytes :=
  treeHash cr t (maxDepth + 1) (tRoot t.leaves)

def treeResolution (t : Tree) (exclude : List Nat) : Nat → Nat → Nat → Logged Access (List Nat)
  | 0, _, _ => pure []
  | fuel + 1, x, max => do
    let n ← t.get x
    if n.type = .blank then
      if x % 2 = 1 then
        let l ← treeResolution t exclude fuel (tLeft x) max
        let r ← treeResolution t exclude fuel (tRight x) (max - l.length)
        pure (l ++ r)
      else pure []
    else if n.type = .leaf ∧ x / 2 ∈ exclude then pure []
    else pure ((x :: (n.unmerged.filter (· ∉ exclude)).map (2 * · % 2 ^ 32)).take max)

/-- `tree_resolution`, with enough fuel for any tree. -/
def resolution (t : Tree) (exclude : List Nat) (x max : Nat) : Logged Access (List Nat) :=
  treeResolution t exclude (maxDepth + 1) x max

/-- The loop of `tree_filtered_path`: the path so far, and the node below. -/
def filterStep (t : Tree) (acc : List Nat × Nat) (p : Nat) : Logged Access (List Nat × Nat) := do
  let res ← resolution t [] (tSibling acc.2) 1
  pure (if res.isEmpty then acc.1 else acc.1 ++ [p], p)

def treeFilteredPath (t : Tree) (leaf : Nat) : Logged Access (List Nat) := do
  let acc ← (tDirectPath (2 * leaf) t.leaves).foldlM (filterStep t) ([], 2 * leaf)
  pure acc.1

/-! ## Changes -/

def treeBlank (t : Tree) (x : Nat) : Logged Access Tree := t.set x Node.zero

/-- Blank the direct path of a leaf. -/
def blankPath (t : Tree) (leaf : Nat) : Logged Access Tree :=
  (tDirectPath (2 * leaf) t.leaves).foldlM treeBlank t

/-- The inner loop of `tree_truncate`. -/
def blankLeaves (t : Tree) : List Nat → Logged Access Bool
  | [] => pure true
  | i :: rest => do
    let n ← t.get (2 * i)
    if n.type = .blank then blankLeaves t rest else pure false

def treeTruncate : Nat → Tree → Logged Access Tree
  | 0, t => pure t
  | fuel + 1, t =>
    if 1 < t.leaves then do
      let blank ← blankLeaves t (List.range' (t.leaves / 2) (t.leaves - t.leaves / 2))
      if blank then treeTruncate fuel (treeResize t (t.leaves / 2)) else pure t
    else pure t

def treeRemove (t : Tree) (leaf : Nat) : Logged Access Tree := do
  let t ← treeBlank t (2 * leaf)
  let t ← blankPath t leaf
  treeTruncate maxDepth t

/-- The first loop of `tree_add`. -/
def firstBlank (t : Tree) : List Nat → Logged Access (Option Nat)
  | [] => pure none
  | i :: rest => do
    let n ← t.get (2 * i)
    if n.type = .blank then pure (some i) else firstBlank t rest

/-- The second loop of `tree_add`: the new leaf is unmerged at its ancestors. -/
def addUnmerged (leaf : Nat) (t : Tree) (p : Nat) : Logged Access Tree := do
  let n ← t.get p
  if n.type = .parent then t.set p { n with unmerged := n.unmerged ++ [leaf] } else pure t

/-- `tree_add`: the tree and the index of the leaf. -/
def treeAdd (t : Tree) (v : LeafView) : Logged Access (Option (Tree × Nat)) := do
  let blank ← firstBlank t (List.range t.leaves)
  let leaf := blank.getD t.leaves
  if blank = none ∧ maxLeaves < 2 * t.leaves then pure none
  else
    let t := if blank = none then treeResize t (if t.leaves = 0 then 1 else 2 * t.leaves) else t
    let t ← t.set (2 * leaf) (nodeSetLeaf v)
    let t ← (tDirectPath (2 * leaf) t.leaves).foldlM (addUnmerged leaf) t
    pure (some (t, leaf))

/-- The loop of `tree_set_parent_hashes`, from the root down: the tree and the hash
of the node above. -/
def parentHashStep (cr : Crypto) (leaf : Nat) (acc : Tree × Bytes) (p : Nat) :
    Logged Access (Tree × Bytes) := do
  let n ← acc.1.get p
  let t ← acc.1.set p { n with ph := acc.2 }
  let sib ← treeHash cr t (maxDepth + 1) (copathChild p (2 * leaf))
  pure (t, cr.sha256 (wOpaque n.enc ++ wOpaque acc.2 ++ wOpaque sib))

/-- `tree_set_parent_hashes`: the tree and the parent hash of the leaf. -/
def treeSetParentHashes (cr : Crypto) (t : Tree) (leaf : Nat) (fdp : List Nat) :
    Logged Access (Tree × Bytes) := do
  let acc ← fdp.reverse.foldlM (parentHashStep cr leaf) (t, [])
  pure (acc.1, if fdp.isEmpty then zeros else acc.2)

/-! ## Trees in messages -/

/-- A node in a message. -/
def wNode (n : Node) : Bytes :=
  match n.type with
  | .blank => wU8 0
  | .leaf => wU8 1 ++ wU8 1 ++ n.raw
  | .parent => wU8 1 ++ wU8 2 ++ wParentNode n

def treeSerialize (t : Tree) : Bytes :=
  wOpaque ((t.n.rdropWhile fun n => n.type = .blank).flatMap wNode)

/-- The numbers of `count` words. -/
def parseWords : Nat → Parser (List Nat)
  | 0 => pure []
  | count + 1 => do
    let v ← Parser.u32
    let rest ← parseWords count
    pure (v :: rest)

/-- `tree_parse`: the node at an index. -/
def parseNode (i : Nat) : Parser Node := do
  let present ← Parser.u8
  if present = 0 then pure Node.zero
  else
    let type ← Parser.u8
    if type = 1 then
      Parser.check (i % 2 = 0)
      let v ← parseLeaf
      pure (nodeSetLeaf v)
    else if type = 2 then
      Parser.check (i % 2 = 1)
      let enc ← Parser.fixed npk
      let ph ← Parser.vector
      Parser.check (ph.length ≤ nh)
      let u ← Parser.sub
      let words := parseWords (u.rest.length / 4) u
      Parser.check (!words.2.err)
      pure { Node.zero with type := .parent, enc := enc, ph := ph, unmerged := words.1.getD [] }
    else
      Parser.check false
      pure Node.zero

/-- The loop of `tree_parse`. -/
def parseNodes : Nat → Nat → Parser (List Node)
  | 0, _ => pure []
  | fuel + 1, i => fun r =>
    if r.err ∨ r.rest = [] then (some [], r)
    else (do
      let n ← parseNode i
      let rest ← parseNodes fuel (i + 1)
      pure (n :: rest)) r

/-- The number of leaves for a number of nodes. -/
def leavesLoop (count : Nat) : Nat → Nat → Nat
  | 0, leaves => leaves
  | fuel + 1, leaves =>
    if tWidth leaves < count then leavesLoop count fuel (leaves * 2) else leaves

/-- The end of `tree_parse`: the tree of the nodes that were read. -/
def treeOfNodes (nodes : Option (List Node) × Rd) : Parser Tree := do
  let ns ← (fun r => (nodes.1, r) : Parser (List Node))
  Parser.check (!nodes.2.err && ns.length % 2 = 1)
  Parser.check (leavesLoop ns.length 32 1 ≤ maxLeaves)
  pure (treeResize ⟨ns, (ns.length + 1) / 2⟩ (leavesLoop ns.length 32 1))

def treeParse : Parser Tree := do
  let v ← Parser.sub
  treeOfNodes (parseNodes (v.rest.length + 1) 0 v)

end Mls
