import StrawOS.Mls.Tree

/-!
# The shape of a ratchet tree

What every operation on the tree keeps: the number of leaves is a power of two, a
parent that is not blank has leaves on both sides, its unmerged leaves are in its
subtree and there, and the right half of the tree is not empty.

A node is named by its level `k` and its number `j` there; leaf `l` is node `l` of
level zero, and its ancestor at level `k` is number `l / 2 ^ k`.
-/

namespace Mls

open TreeIndex

namespace Tree

/-- Node `j` of level `k`. -/
def node (t : Tree) (k j : Nat) : Node := t.n.getD (TreeIndex.node k j) Node.zero

/-- A leaf that is not blank. -/
def Occupied (t : Tree) (l : Nat) : Prop := (t.node 0 l).type = .leaf

/-- A leaf below node `j` of level `k` is not blank. -/
def Has (t : Tree) (k j : Nat) : Prop := ∃ l, l / 2 ^ k = j ∧ t.Occupied l

/-- Put a node at an index. -/
def put (t : Tree) (x : Nat) (n : Node) : Tree := { t with n := t.n.set x n }

end Tree

/-- A view that `parse_leaf` reads of its own bytes. -/
def LeafView.Parsed (v : LeafView) : Prop := parseLeaf (rd v.raw) = (some v, rd [])

/-- The node of a leaf that `parse_leaf` read, as far as it is public. -/
def Node.IsLeaf (n : Node) : Prop :=
  ∃ v : LeafView, { n with priv := none } = nodeSetLeaf v ∧ v.Parsed

/-- A parent node, as far as it is public. -/
def Node.IsParent (n : Node) : Prop :=
  n.enc.length = npk ∧ n.ph.length ≤ nh ∧
    { n with priv := none } =
      { Node.zero with type := .parent, enc := n.enc, ph := n.ph, unmerged := n.unmerged }

/-- What node `j` of level `k + 1` may be: blank, or a parent with leaves on both sides
whose unmerged leaves are its own. -/
def Tree.ParentOk (t : Tree) (k j : Nat) (n : Node) : Prop :=
  n = Node.zero ∨ (n.IsParent ∧ t.Has k (2 * j) ∧ t.Has k (2 * j + 1) ∧ n.unmerged.Nodup ∧
    ∀ l ∈ n.unmerged, l / 2 ^ (k + 1) = j ∧ t.Occupied l)

/-- A tree of depth `d`. -/
structure Tree.Shape (d : Nat) (t : Tree) : Prop where
  depth : d ≤ 30
  leaves : t.leaves = 2 ^ d
  length : t.n.length = 2 ^ (d + 1) - 1
  leaf : ∀ l < 2 ^ d, t.node 0 l = Node.zero ∨ (t.node 0 l).IsLeaf
  parent : ∀ k j, Inside d (k + 1) j → t.ParentOk k j (t.node (k + 1) j)

/-- A tree of depth `d` whose right half is not blank. -/
structure Tree.Ok (d : Nat) (t : Tree) : Prop extends Tree.Shape d t where
  right : ∃ l, l < 2 ^ d ∧ 2 ^ d ≤ 2 * l + 1 ∧ t.Occupied l

/-! ## Leaves that were read -/

open Parser in
theorem reads_parseSource (source : Nat) : Reads (parseSource source) := by
  rw [parseSource]
  split
  · exact Reads.u64.bind fun _ => Reads.u64.bind fun _ => Reads.pure _
  · split
    · exact Reads.vector
    · exact (Reads.check _).bind fun _ => Reads.pure _

open Parser in
theorem reads_parseLeafBody : Reads parseLeafBody := by
  rw [parseLeafBody]
  refine Reads.vector.bind fun enc => (Reads.check _).bind fun _ => ?_
  refine Reads.vector.bind fun sig => (Reads.check _).bind fun _ => ?_
  refine Reads.u16.bind fun credential => (Reads.check _).bind fun _ => ?_
  refine Reads.vector.bind fun id => ?_
  refine Reads.sub.bind fun _ => Reads.sub.bind fun _ => Reads.sub.bind fun _ => ?_
  refine Reads.sub.bind fun _ => Reads.sub.bind fun _ => ?_
  refine Reads.u8.bind fun source => (reads_parseSource source).bind fun ph => ?_
  exact Reads.sub.bind fun _ => Reads.pure _

/-- What `parse_leaf` reads between its ends. -/
def leafParts : Parser ((Bytes × Bytes × Bytes × Nat × Nat × Bytes) × Bytes) := do
  let body ← Parser.span parseLeafBody
  let signature ← Parser.vector
  Parser.noErr
  pure (body, signature)

theorem parseLeaf_eq : parseLeaf = (do
    let (raw, (tbs, enc, sig, uid, source, ph), signature) ← Parser.span leafParts
    pure ⟨raw, tbs, enc, sig, uid, source, ph, signature⟩ : Parser LeafView) := rfl

open Parser in
theorem reads_leafParts : Reads leafParts :=
  reads_parseLeafBody.span.bind fun _ => Reads.vector.bind fun _ =>
    Reads.noErr.bind fun _ => Reads.pure _

open Parser in
theorem reads_parseLeaf : Reads parseLeaf := by
  rw [parseLeaf_eq]
  exact reads_leafParts.span.bind fun _ => Reads.pure _

/-- **What `parse_leaf` reads** is the leaf, and nothing is wrong then. -/
theorem parseLeaf_some {r r' : Rd} {v : LeafView} (h : parseLeaf r = (some v, r')) :
    r.rest = v.raw ++ r'.rest ∧ r.err = false ∧ r'.err = false := by
  have hread := h
  obtain ⟨⟨raw, ⟨tbs, enc, sig, uid, source, ph⟩, signature⟩, r₁, hspan, hpure⟩ := Parser.bind_some.mp h
  obtain ⟨hv, rfl⟩ := Prod.mk.inj hpure
  obtain rfl := Option.some.inj hv
  obtain ⟨hrest, hparts⟩ := reads_leafParts.span_eq hspan
  have herr : r₁.err = false := by
    obtain ⟨_, r₂, -, hparts⟩ := Parser.bind_some.mp hparts
    obtain ⟨_, r₃, -, hparts⟩ := Parser.bind_some.mp hparts
    obtain ⟨_, r₄, hno, hparts⟩ := Parser.bind_some.mp hparts
    obtain ⟨-, rfl⟩ := Prod.mk.inj hparts
    rw [Parser.noErr] at hno
    obtain ⟨hno, rfl⟩ := Prod.mk.inj hno
    by_contra herr
    rw [if_pos (by simpa using herr)] at hno
    cases hno
  refine ⟨hrest, ?_, herr⟩
  by_contra hno
  have hlast := reads_parseLeaf.sticky r (by simpa using hno)
  rw [hread] at hlast
  exact absurd (hlast.symm.trans herr) (by decide)

theorem parseLeaf_parsed {r r' : Rd} {v : LeafView} (h : parseLeaf r = (some v, r')) : v.Parsed := by
  obtain ⟨hrest, herr, herr'⟩ := parseLeaf_some h
  obtain ⟨rest, err⟩ := r
  obtain ⟨rest', err'⟩ := r'
  subst hrest herr herr'
  exact reads_parseLeaf.exact v.raw rest' (some v) h

/-! ## Nodes after a change -/

@[simp] theorem put_leaves (t : Tree) (x : Nat) (n : Node) : (t.put x n).leaves = t.leaves := rfl

@[simp] theorem put_length (t : Tree) (x : Nat) (n : Node) :
    (t.put x n).n.length = t.n.length :=
  List.length_set

theorem node_put (t : Tree) (x : Nat) (n : Node) (k j : Nat) :
    (t.put x n).node k j = if x = TreeIndex.node k j ∧ x < t.n.length then n else t.node k j := by
  simp only [Tree.node, Tree.put, List.getD_eq_getElem?_getD, List.getElem?_set]
  by_cases hx : x = TreeIndex.node k j
  · grind
  · simp [hx]

@[simp] theorem value_get (t : Tree) (x : Nat) : (t.get x).value = t.n.getD x Node.zero := rfl

@[simp] theorem value_set (t : Tree) (x : Nat) (n : Node) : (t.set x n).value = t.put x n := rfl

variable {d : Nat} {t : Tree}

theorem Tree.Shape.node_lt (h : t.Shape d) {k j : Nat} (hin : Inside d k j) :
    TreeIndex.node k j < t.n.length := by
  rw [h.length]
  exact TreeIndex.node_lt hin

theorem not_occupied_zero {l : Nat} (h : t.node 0 l = Node.zero) : ¬ t.Occupied l := by
  rw [Tree.Occupied, h]
  simp [Node.zero]

theorem occupied_lt (hlength : t.n.length = 2 ^ (d + 1) - 1) {l : Nat} (hl : t.Occupied l) :
    l < 2 ^ d := by
  by_contra hge
  have hlen : t.n.length ≤ 2 * l := by
    omega
  apply not_occupied_zero ?_ hl
  rw [Tree.node, TreeIndex.node_zero, List.getD_eq_getElem?_getD, List.getElem?_eq_none hlen]
  rfl

theorem Tree.Shape.occupied_lt (h : t.Shape d) {l : Nat} (hl : t.Occupied l) : l < 2 ^ d :=
  Mls.occupied_lt h.length hl

theorem Tree.Shape.leaf_cases (h : t.Shape d) {l : Nat} (hl : l < 2 ^ d) :
    t.node 0 l = Node.zero ∨ t.Occupied l := by
  rcases h.leaf l hl with hzero | ⟨v, hv, -⟩
  · exact Or.inl hzero
  · right
    have := congrArg Node.type hv
    exact this

/-! ## Resolutions -/

theorem has_children (t : Tree) (k j : Nat) :
    t.Has (k + 1) j ↔ t.Has k (2 * j) ∨ t.Has k (2 * j + 1) := by
  have hhalf : ∀ l, l / 2 ^ (k + 1) = l / 2 ^ k / 2 := by
    intro l
    rw [Nat.div_div_eq_div_mul, ← Nat.pow_succ]
  constructor
  · intro h
    obtain ⟨l, hl, hocc⟩ := h
    rw [hhalf] at hl
    rcases Nat.mod_two_eq_zero_or_one (l / 2 ^ k) with heven | hodd
    · exact Or.inl ⟨l, by omega, hocc⟩
    · exact Or.inr ⟨l, by omega, hocc⟩
  · intro h
    rcases h with ⟨l, hl, hocc⟩ | ⟨l, hl, hocc⟩
    · exact ⟨l, by rw [hhalf, hl]; omega, hocc⟩
    · exact ⟨l, by rw [hhalf, hl]; omega, hocc⟩

theorem inside_children {k j : Nat} (h : Inside d (k + 1) j) :
    Inside d k (2 * j) ∧ Inside d k (2 * j + 1) := by
  obtain ⟨hk, hj⟩ := h
  have hpow : 2 ^ (d - k) = 2 * 2 ^ (d - (k + 1)) := by
    rw [← Nat.pow_succ']
    congr 1
    omega
  exact ⟨⟨by omega, by omega⟩, ⟨by omega, by omega⟩⟩

/-- **A resolution is empty** only where there is no leaf. -/
theorem resolution_ne_nil (h : t.Shape d) {fuel k j max : Nat} (hk : k < fuel) (hin : Inside d k j)
    (hmax : 0 < max) : (treeResolution t [] fuel (TreeIndex.node k j) max).value ≠ [] ↔ t.Has k j := by
  induction k generalizing fuel j max with
  | zero =>
    obtain ⟨fuel, rfl⟩ : ∃ f, fuel = f + 1 := ⟨fuel - 1, by omega⟩
    have hj : j < 2 ^ d := by simpa using hin.2
    have hnode : t.n.getD (TreeIndex.node 0 j) Node.zero = t.node 0 j := rfl
    have hhas : t.Has 0 j ↔ t.Occupied j := by
      constructor
      · rintro ⟨l, hl, hocc⟩
        rw [Nat.pow_zero, Nat.div_one] at hl
        exact hl ▸ hocc
      · exact fun hocc => ⟨j, by simp, hocc⟩
    rw [hhas, treeResolution]
    simp only [Logged.value_bind, value_get, hnode]
    rcases h.leaf_cases hj with hzero | hocc
    · have heven : TreeIndex.node 0 j % 2 = 0 := by rw [TreeIndex.node_zero]; omega
      simp [hzero, Node.zero, heven, Tree.Occupied]
    · rw [Tree.Occupied] at hocc
      simp [hocc, Tree.Occupied, Nat.ne_of_gt hmax]
  | succ k ih =>
    obtain ⟨fuel, rfl⟩ : ∃ f, fuel = f + 1 := ⟨fuel - 1, by omega⟩
    have hk30 := h.depth
    have hk' := hin.1
    have hnode : t.n.getD (TreeIndex.node (k + 1) j) Node.zero = t.node (k + 1) j := rfl
    obtain ⟨hinl, hinr⟩ := inside_children hin
    rw [treeResolution]
    simp only [Logged.value_bind, value_get, hnode]
    rcases h.parent k j hin with hzero | ⟨⟨-, -, hp⟩, hl, -⟩
    · -- A blank node passes the question to its children.
      have hl := ih (show k < fuel by omega) hinl hmax
      have hr : ∀ m, 0 < m →
          ((treeResolution t [] fuel (TreeIndex.node k (2 * j + 1)) m).value ≠ [] ↔
            t.Has k (2 * j + 1)) := fun m hm => ih (by omega) hinr hm
      rw [hzero]
      simp only [Node.zero, if_true, node_odd, tLeft_node (show k < 32 by omega),
        tRight_node (show k < 32 by omega), Logged.value_bind, Logged.value_pure]
      rw [has_children, ← hl]
      by_cases hleft : (treeResolution t [] fuel (TreeIndex.node k (2 * j)) max).value = []
      · simp only [hleft, List.length_nil, Nat.sub_zero]
        simp [hr max hmax]
      · simp [hleft]
    · have htype : (t.node (k + 1) j).type = .parent := congrArg Node.type hp
      have hhas : t.Has (k + 1) j := (has_children t k j).mpr (Or.inl hl)
      simp [htype, hhas, Nat.ne_of_gt hmax]

end Mls
