import StrawOS.Mls.TreeShape

/-!
# Changes of a ratchet tree

Adding and removing leaves keeps the shape of the tree.  A single node is put in
place first; the operations are then sequences of such steps along the direct path of
a leaf.
-/

namespace Mls

open TreeIndex

variable {d : Nat} {t t' : Tree}

/-! ## One node -/

theorem Tree.ParentOk.mono {k j : Nat} {n : Node} (h : t.ParentOk k j n)
    (hocc : ∀ l, t.Occupied l → t'.Occupied l) : t'.ParentOk k j n := by
  rcases h with hzero | ⟨hp, ⟨l, hl, hlocc⟩, ⟨r, hr, hrocc⟩, hnodup, hmem⟩
  · exact Or.inl hzero
  · refine Or.inr ⟨hp, ⟨l, hl, hocc l hlocc⟩, ⟨r, hr, hocc r hrocc⟩, hnodup, ?_⟩
    intro u hu
    obtain ⟨hdiv, huocc⟩ := hmem u hu
    exact ⟨hdiv, hocc u huocc⟩

theorem Tree.Shape.node_put (h : t.Shape d) {k j : Nat} (hin : Inside d k j) (n : Node) (k' j' : Nat) :
    (t.put (TreeIndex.node k j) n).node k' j' = if k = k' ∧ j = j' then n else t.node k' j' := by
  rw [Mls.node_put]
  by_cases heq : k = k' ∧ j = j'
  · obtain ⟨rfl, rfl⟩ := heq
    rw [if_pos ⟨rfl, h.node_lt hin⟩, if_pos ⟨rfl, rfl⟩]
  · rw [if_neg heq, if_neg]
    intro hx
    exact heq (node_injective hx.1)

theorem inside_leaf {l : Nat} (hl : l < 2 ^ d) : Inside d 0 l := ⟨Nat.zero_le d, by simpa using hl⟩

/-- **A parent** that is put in place keeps the shape. -/
theorem Tree.Shape.put_parent (h : t.Shape d) {k j : Nat} (hin : Inside d (k + 1) j) {n : Node}
    (hn : t.ParentOk k j n) : (t.put (TreeIndex.node (k + 1) j) n).Shape d := by
  have hnode := h.node_put hin n
  have hleaf : ∀ l, (t.put (TreeIndex.node (k + 1) j) n).node 0 l = t.node 0 l := by
    intro l
    rw [hnode, if_neg (by omega)]
  have hocc : ∀ l, t.Occupied l → (t.put (TreeIndex.node (k + 1) j) n).Occupied l := by
    intro l hl
    rw [Tree.Occupied, hleaf]
    exact hl
  refine ⟨h.depth, h.leaves, by rw [put_length, h.length], ?_, ?_⟩
  · intro l hl
    rw [hleaf]
    exact h.leaf l hl
  · intro k' j' hin'
    rw [hnode]
    split
    · rename_i heq
      obtain ⟨hk, rfl⟩ := heq
      obtain rfl : k = k' := by omega
      exact hn.mono hocc
    · exact (h.parent k' j' hin').mono hocc

/-- **A leaf** that is put in place keeps the shape. -/
theorem Tree.Shape.put_leaf (h : t.Shape d) {l : Nat} (hl : l < 2 ^ d) {n : Node} (hn : n.IsLeaf) :
    (t.put (2 * l) n).Shape d := by
  have hnode := h.node_put (inside_leaf hl) n
  rw [TreeIndex.node_zero] at hnode
  have htype : n.type = .leaf := by
    obtain ⟨v, hv, -⟩ := hn
    have := congrArg Node.type hv
    exact this
  have hocc : ∀ l', t.Occupied l' → (t.put (2 * l) n).Occupied l' := by
    intro l' hl'
    rw [Tree.Occupied, hnode]
    split
    · exact htype
    · exact hl'
  refine ⟨h.depth, h.leaves, by rw [put_length, h.length], ?_, ?_⟩
  · intro l' hl'
    rw [hnode]
    split
    · exact Or.inr hn
    · exact h.leaf l' hl'
  · intro k j hin
    rw [hnode, if_neg (by omega)]
    exact (h.parent k j hin).mono hocc

theorem occupied_put_leaf (h : t.Shape d) {l : Nat} (hl : l < 2 ^ d) {n : Node} (hn : n.type = .leaf)
    (l' : Nat) : (t.put (2 * l) n).Occupied l' ↔ l' = l ∨ t.Occupied l' := by
  have hnode := h.node_put (inside_leaf hl) n
  rw [TreeIndex.node_zero] at hnode
  rw [Tree.Occupied, hnode]
  by_cases heq : l = l'
  · simp [heq, hn]
  · simp [heq, Ne.symm heq, Tree.Occupied]

theorem occupied_put_parent (t : Tree) (k j : Nat) (n : Node) (l : Nat) :
    (t.put (TreeIndex.node (k + 1) j) n).Occupied l ↔ t.Occupied l := by
  rw [Tree.Occupied, Mls.node_put, if_neg]
  · rfl
  · intro hx
    exact absurd (node_injective hx.1).1 (by omega)

/-! ## Sizes -/

theorem inside_of_node_lt {k j : Nat} (h : TreeIndex.node k j < 2 ^ (d + 1) - 1) : Inside d k j := by
  obtain ⟨k', j', hin, heq⟩ := exists_inside h
  obtain ⟨rfl, rfl⟩ := node_injective heq
  exact hin

theorem node_outside (hlength : t.n.length = 2 ^ (d + 1) - 1) {k j : Nat} (hout : ¬ Inside d k j) :
    t.node k j = Node.zero := by
  have hlen : t.n.length ≤ TreeIndex.node k j := by
    by_contra hlt
    exact hout (inside_of_node_lt (by omega))
  rw [Tree.node, List.getD_eq_getElem?_getD, List.getElem?_eq_none hlen]
  rfl

theorem Tree.Shape.node_outside (h : t.Shape d) {k j : Nat} (hout : ¬ Inside d k j) :
    t.node k j = Node.zero :=
  Mls.node_outside h.length hout

theorem node_resize (hlength : t.n.length = 2 ^ (d + 1) - 1) (d' k j : Nat) :
    (treeResize t (2 ^ d')).node k j = if Inside d' k j then t.node k j else Node.zero := by
  have hlen : (t.n.take (tWidth (2 ^ d'))).length = min (2 ^ (d' + 1) - 1) (2 ^ (d + 1) - 1) := by
    rw [List.length_take, tWidth_two_pow, hlength]
  rw [Tree.node, treeResize, List.getD_eq_getElem?_getD]
  split
  · rename_i hin
    have hlt := TreeIndex.node_lt hin
    by_cases hold : TreeIndex.node k j < 2 ^ (d + 1) - 1
    · rw [List.getElem?_append_left (by omega), List.getElem?_take, if_pos, Tree.node,
        List.getD_eq_getElem?_getD]
      rwa [tWidth_two_pow]
    · rw [List.getElem?_append_right (by omega), List.getElem?_replicate,
        node_outside hlength (fun hin => hold (TreeIndex.node_lt hin))]
      split <;> rfl
  · rename_i hout
    have hge : 2 ^ (d' + 1) - 1 ≤ TreeIndex.node k j := by
      by_contra hlt
      exact hout (inside_of_node_lt (by omega))
    rw [List.getElem?_append_right (by omega), List.getElem?_replicate]
    split <;> rfl

theorem length_resize (hleaves : t.leaves = 2 ^ d) (hlength : t.n.length = 2 ^ (d + 1) - 1)
    (d' : Nat) : (treeResize t (2 ^ d')).n.length = 2 ^ (d' + 1) - 1 := by
  rw [treeResize, List.length_append, List.length_take, List.length_replicate, hleaves,
    tWidth_two_pow, tWidth_two_pow, hlength]
  omega

theorem Tree.Shape.node_resize (h : t.Shape d) (d' k j : Nat) :
    (treeResize t (2 ^ d')).node k j = if Inside d' k j then t.node k j else Node.zero :=
  Mls.node_resize h.length d' k j

theorem Tree.Shape.length_resize (h : t.Shape d) (d' : Nat) :
    (treeResize t (2 ^ d')).n.length = 2 ^ (d' + 1) - 1 :=
  Mls.length_resize h.leaves h.length d'

theorem Tree.Shape.node_grow (h : t.Shape d) (k j : Nat) :
    (treeResize t (2 ^ (d + 1))).node k j = t.node k j := by
  rw [h.node_resize]
  split
  · rfl
  · rename_i hout
    symm
    apply h.node_outside
    intro hin
    exact hout (hin.mono (by omega))

/-- **A tree of twice the size** is blank in its right half. -/
theorem Tree.Shape.grow (h : t.Shape d) (hd : d + 1 ≤ 30) :
    (treeResize t (2 ^ (d + 1))).Shape (d + 1) := by
  have hocc : ∀ l, t.Occupied l → (treeResize t (2 ^ (d + 1))).Occupied l := by
    intro l hl
    rw [Tree.Occupied, h.node_grow]
    exact hl
  refine ⟨hd, rfl, h.length_resize (d + 1), ?_, ?_⟩
  · intro l _
    rw [h.node_grow]
    by_cases hl : l < 2 ^ d
    · exact h.leaf l hl
    · exact Or.inl (h.node_outside fun hin => hl (by simpa using hin.2))
  · intro k j _
    rw [h.node_grow]
    by_cases hin : Inside d (k + 1) j
    · exact (h.parent k j hin).mono hocc
    · exact Or.inl (h.node_outside hin)

/-- **A tree of half the size**, if the right half is blank. -/
theorem Tree.Shape.shrink (h : t.Shape (d + 1)) (hblank : ∀ l, 2 ^ d ≤ l → ¬ t.Occupied l) :
    (treeResize t (2 ^ d)).Shape d := by
  have hocc : ∀ l, t.Occupied l → (treeResize t (2 ^ d)).Occupied l := by
    intro l hl
    have hlt : l < 2 ^ d := by
      by_contra hge
      exact hblank l (by omega) hl
    rw [Tree.Occupied, h.node_resize, if_pos (inside_leaf hlt)]
    exact hl
  have hdepth := h.depth
  refine ⟨by omega, rfl, h.length_resize d, ?_, ?_⟩
  · intro l hl
    rw [h.node_resize, if_pos (inside_leaf hl)]
    exact h.leaf l (by omega)
  · intro k j hin
    rw [h.node_resize, if_pos hin]
    exact (h.parent k j (hin.mono (by omega))).mono hocc

/-! ## Truncating -/

theorem blankLeaves_value (t : Tree) (ls : List Nat) :
    (blankLeaves t ls).value = true ↔ ∀ l ∈ ls, (t.node 0 l).type = .blank := by
  have hnode : ∀ l, t.n.getD (2 * l) Node.zero = t.node 0 l := by
    intro l
    rw [Tree.node, TreeIndex.node_zero]
  induction ls with
  | nil => simp [blankLeaves]
  | cons l ls ih =>
    rw [blankLeaves, Logged.value_bind, value_get, hnode]
    by_cases hblank : (t.node 0 l).type = .blank
    · simp [hblank, ih]
    · simp [hblank]

theorem Tree.Shape.blank_iff (h : t.Shape d) {l : Nat} (hl : l < 2 ^ d) :
    (t.node 0 l).type = .blank ↔ ¬ t.Occupied l := by
  rcases h.leaf_cases hl with hzero | hocc
  · simp [hzero, Node.zero, Tree.Occupied]
  · rw [Tree.Occupied] at hocc
    simp [hocc, Tree.Occupied]

/-- **Truncating** a tree with a leaf ends when its right half is not blank. -/
theorem treeTruncate_ok {fuel : Nat} (h : t.Shape d) (hd : d ≤ fuel) {l : Nat} (hl : t.Occupied l) :
    ∃ d', (treeTruncate fuel t).value.Ok d' ∧ d' ≤ d ∧
      ∀ k j, Inside d' k j → (treeTruncate fuel t).value.node k j = t.node k j := by
  induction fuel generalizing d t with
  | zero =>
    obtain rfl : d = 0 := by omega
    have hlt := h.occupied_lt hl
    exact ⟨0, ⟨h, l, hlt, by omega, hl⟩, le_rfl, fun _ _ _ => rfl⟩
  | succ fuel ih =>
    rw [treeTruncate, h.leaves]
    cases d with
    | zero =>
      have hlt := h.occupied_lt hl
      exact ⟨0, ⟨h, l, hlt, by omega, hl⟩, le_rfl, fun _ _ _ => rfl⟩
    | succ d =>
      have hpos := Nat.two_pow_pos d
      have hhalf : 2 ^ (d + 1) / 2 = 2 ^ d := by omega
      rw [if_pos (by omega), hhalf, Logged.value_bind]
      have hrange : ∀ i, i ∈ List.range' (2 ^ d) (2 ^ (d + 1) - 2 ^ d) ↔ 2 ^ d ≤ i ∧ i < 2 ^ (d + 1) := by
        intro i
        rw [List.mem_range'_1]
        omega
      by_cases hblank : (blankLeaves t (List.range' (2 ^ d) (2 ^ (d + 1) - 2 ^ d))).value = true
      · rw [if_pos hblank]
        rw [blankLeaves_value] at hblank
        have hempty : ∀ i, 2 ^ d ≤ i → ¬ t.Occupied i := by
          intro i hi hocc
          have hlt := h.occupied_lt hocc
          exact (h.blank_iff hlt).mp (hblank i ((hrange i).mpr ⟨hi, hlt⟩)) hocc
        have hsame : ∀ k j, Inside d k j → (treeResize t (2 ^ d)).node k j = t.node k j := by
          intro k j hin
          rw [h.node_resize, if_pos hin]
        have hlt : l < 2 ^ d := by
          by_contra hge
          exact hempty l (by omega) hl
        obtain ⟨d', hok, hle, hrest⟩ := ih (h.shrink hempty) (by omega)
          (show (treeResize t (2 ^ d)).Occupied l by
            rw [Tree.Occupied, hsame 0 l (inside_leaf hlt)]
            exact hl)
        refine ⟨d', hok, by omega, ?_⟩
        intro k j hin
        rw [hrest k j hin, hsame k j (hin.mono hle)]
      · rw [if_neg hblank]
        rw [blankLeaves_value] at hblank
        push Not at hblank
        obtain ⟨i, hi, htype⟩ := hblank
        obtain ⟨hge, hlt⟩ := (hrange i).mp hi
        have hocc : t.Occupied i := by
          by_contra hno
          exact htype ((h.blank_iff hlt).mpr hno)
        exact ⟨d + 1, ⟨h, i, hlt, by omega, hocc⟩, le_rfl, fun _ _ _ => rfl⟩

/-! ## Blanking a path -/

theorem node_put_zero (t : Tree) (x k j : Nat) :
    (t.put x Node.zero).node k j = if x = TreeIndex.node k j then Node.zero else t.node k j := by
  rw [Mls.node_put]
  by_cases hx : x = TreeIndex.node k j
  · subst hx
    by_cases hlt : TreeIndex.node k j < t.n.length
    · simp [hlt]
    · simp [hlt, Tree.node, List.getD_eq_getElem?_getD]
  · simp [hx]

theorem foldl_blank (xs : List Nat) (t : Tree) :
    (xs.foldl (fun t x => t.put x Node.zero) t).leaves = t.leaves ∧
    (xs.foldl (fun t x => t.put x Node.zero) t).n.length = t.n.length ∧
    ∀ k j, (xs.foldl (fun t x => t.put x Node.zero) t).node k j =
      if TreeIndex.node k j ∈ xs then Node.zero else t.node k j := by
  induction xs generalizing t with
  | nil => simp
  | cons x xs ih =>
    obtain ⟨hleaves, hlength, hnode⟩ := ih (t.put x Node.zero)
    rw [List.foldl_cons]
    refine ⟨by rw [hleaves, put_leaves], by rw [hlength, put_length], ?_⟩
    intro k j
    rw [hnode, node_put_zero]
    by_cases hmem : TreeIndex.node k j ∈ xs
    · simp [hmem]
    · grind

theorem mem_directPath {l k j : Nat} (hd : d ≤ 30) (hl : l < 2 ^ d) :
    TreeIndex.node k j ∈ tDirectPath (2 * l) (2 ^ d) ↔ 0 < k ∧ k ≤ d ∧ j = l / 2 ^ k := by
  rw [tDirectPath_leaf (by omega) hl, List.mem_map]
  constructor
  · intro h
    obtain ⟨i, hi, heq⟩ := h
    obtain ⟨rfl, rfl⟩ := node_injective heq
    have := List.mem_range.mp hi
    exact ⟨by omega, by omega, rfl⟩
  · intro h
    obtain ⟨hpos, hle, rfl⟩ := h
    refine ⟨k - 1, List.mem_range.mpr (by omega), ?_⟩
    rw [Nat.sub_add_cancel hpos]

theorem blankPath_value (t : Tree) (l : Nat) : (blankPath t l).value =
    (tDirectPath (2 * l) t.leaves).foldl (fun t x => t.put x Node.zero) t := by
  rw [blankPath, Logged.value_foldlM]
  rfl

/-- **Blanking the path** of a leaf. -/
theorem Tree.Shape.blankPath (h : t.Shape d) {l : Nat} (hl : l < 2 ^ d) :
    (blankPath t l).value.Shape d ∧ ∀ l', (Mls.blankPath t l).value.Occupied l' ↔ t.Occupied l' := by
  obtain ⟨hleaves, hlength, hnode⟩ := foldl_blank (tDirectPath (2 * l) t.leaves) t
  rw [← blankPath_value] at hleaves hlength hnode
  rw [h.leaves] at hnode
  have hocc : ∀ l', (Mls.blankPath t l).value.Occupied l' ↔ t.Occupied l' := by
    intro l'
    rw [Tree.Occupied, hnode, if_neg]
    · rfl
    · rw [mem_directPath h.depth hl]
      omega
  refine ⟨⟨h.depth, by rw [hleaves, h.leaves], by rw [hlength, h.length], ?_, ?_⟩, hocc⟩
  · intro l' hl'
    rw [hnode, if_neg]
    · exact h.leaf l' hl'
    · rw [mem_directPath h.depth hl]
      omega
  · intro k j hin
    rw [hnode]
    split
    · exact Or.inl rfl
    · exact (h.parent k j hin).mono fun l' => (hocc l').mpr

/-! ## Removing a leaf -/

/-- **A leaf and its path** are blank. -/
theorem Tree.Shape.blankLeaf (h : t.Shape d) {l : Nat} (hl : l < 2 ^ d) :
    (Mls.blankPath (t.put (2 * l) Node.zero) l).value.Shape d ∧
      ∀ l', (Mls.blankPath (t.put (2 * l) Node.zero) l).value.Occupied l' ↔
        l' ≠ l ∧ t.Occupied l' := by
  obtain ⟨hleaves, hlength, hnode⟩ :=
    foldl_blank (tDirectPath (2 * l) t.leaves) (t.put (2 * l) Node.zero)
  rw [← put_leaves t (2 * l) Node.zero, ← blankPath_value] at hleaves hlength hnode
  rw [put_leaves, h.leaves] at hnode
  rw [put_leaves] at hleaves
  rw [put_length] at hlength
  have hzero : ∀ l', (Mls.blankPath (t.put (2 * l) Node.zero) l).value.node 0 l' =
      if l' = l then Node.zero else t.node 0 l' := by
    intro l'
    rw [hnode, if_neg (by rw [mem_directPath h.depth hl]; omega), node_put_zero,
      TreeIndex.node_zero]
    by_cases heq : l' = l
    · simp [heq]
    · rw [if_neg (by omega), if_neg heq]
  have hocc : ∀ l', (Mls.blankPath (t.put (2 * l) Node.zero) l).value.Occupied l' ↔
      l' ≠ l ∧ t.Occupied l' := by
    intro l'
    rw [Tree.Occupied, hzero]
    by_cases heq : l' = l
    · simp [heq, Node.zero]
    · simp [heq, Tree.Occupied]
  refine ⟨⟨h.depth, by rw [hleaves, h.leaves], by rw [hlength, h.length], ?_, ?_⟩, hocc⟩
  · intro l' hl'
    rw [hzero]
    split
    · exact Or.inl rfl
    · exact h.leaf l' hl'
  · intro k j hin
    rw [hnode, node_put_zero]
    split
    · exact Or.inl rfl
    · rename_i hpath
      rw [mem_directPath h.depth hl] at hpath
      rw [if_neg (by rw [← TreeIndex.node_zero]; exact fun heq => absurd (node_injective heq).1 (by omega))]
      -- The leaves below a parent beside the path are other ones.
      have hne : ∀ l', l' / 2 ^ (k + 1) = j → l' ≠ l := by
        rintro l' hj rfl
        exact hpath ⟨by omega, hin.1, hj.symm⟩
      rcases h.parent k j hin with hz | ⟨hp, ⟨a, ha, haocc⟩, ⟨b, hb, hbocc⟩, hnodup, hmem⟩
      · exact Or.inl hz
      · have hhalf : ∀ l', l' / 2 ^ (k + 1) = l' / 2 ^ k / 2 := by
          intro l'
          rw [Nat.div_div_eq_div_mul, ← Nat.pow_succ]
        refine Or.inr ⟨hp, ⟨a, ha, (hocc a).mpr ⟨hne a ?_, haocc⟩⟩,
          ⟨b, hb, (hocc b).mpr ⟨hne b ?_, hbocc⟩⟩, hnodup, ?_⟩
        · rw [hhalf, ha]
          omega
        · rw [hhalf, hb]
          omega
        · grind

/-- **Removing** a leaf that is not the last one keeps the shape. -/
theorem treeRemove_ok (h : t.Shape d) {l l' : Nat} (hl : l < 2 ^ d) (hl' : t.Occupied l') (hne : l' ≠ l) :
    ∃ d', (treeRemove t l).value.Ok d' := by
  obtain ⟨hshape, hocc⟩ := h.blankLeaf hl
  have hdepth := h.depth
  obtain ⟨d', hok, -⟩ := treeTruncate_ok hshape (show d ≤ maxDepth by rw [maxDepth]; omega)
    ((hocc l').mpr ⟨hne, hl'⟩)
  exact ⟨d', hok⟩

/-! ## Adding a leaf -/

theorem firstBlank_cases (t : Tree) (ls : List Nat) :
    (∃ l ∈ ls, (firstBlank t ls).value = some l ∧ (t.node 0 l).type = .blank) ∨
    ((firstBlank t ls).value = none ∧ ∀ l ∈ ls, (t.node 0 l).type ≠ .blank) := by
  have hnode : ∀ l, t.n.getD (2 * l) Node.zero = t.node 0 l := by
    intro l
    rw [Tree.node, TreeIndex.node_zero]
  induction ls with
  | nil => exact Or.inr ⟨rfl, fun _ h => absurd h List.not_mem_nil⟩
  | cons l ls ih =>
    rw [firstBlank, Logged.value_bind, value_get, hnode]
    by_cases hblank : (t.node 0 l).type = .blank
    · rw [if_pos hblank]
      exact Or.inl ⟨l, List.mem_cons_self, rfl, hblank⟩
    · grind

theorem isParent_iff (n : Node) : n.IsParent ↔ n.enc.length = npk ∧ n.ph.length ≤ nh ∧
    n.type = .parent ∧ n.sig = Node.zero.sig ∧ n.uid = 0 ∧ n.raw = [] := by
  simp only [Node.IsParent, Node.zero, Node.mk.injEq, and_true, true_and]

theorem addUnmerged_value (leaf : Nat) (t : Tree) (k j : Nat) :
    (addUnmerged leaf t (TreeIndex.node k j)).value =
      if (t.node k j).type = .parent then
        t.put (TreeIndex.node k j)
          { t.node k j with unmerged := (t.node k j).unmerged ++ [leaf] }
      else t := by
  change (if (t.node k j).type = .parent then _ else _ : Logged Access Tree).value = _
  split <;> rfl

theorem addUnmerged_shape (h : t.Shape d) {leaf k : Nat} (hk : k < d) (hleaf : t.Occupied leaf)
    (hfresh : leaf ∉ (t.node (k + 1) (leaf / 2 ^ (k + 1))).unmerged) :
    (addUnmerged leaf t (TreeIndex.node (k + 1) (leaf / 2 ^ (k + 1)))).value.Shape d := by
  have hin := inside_ancestor (h.occupied_lt hleaf) (show k + 1 ≤ d by omega)
  rw [addUnmerged_value]
  split
  · rename_i htype
    apply h.put_parent hin
    rcases h.parent k _ hin with hzero | ⟨hp, hl, hr, hnodup, hmem⟩
    · rw [hzero] at htype
      cases htype
    · refine Or.inr ⟨?_, hl, hr, ?_, ?_⟩
      · rw [isParent_iff] at hp ⊢
        exact hp
      · exact List.Nodup.append hnodup (List.nodup_singleton leaf)
          (List.disjoint_singleton.mpr hfresh)
      · grind
  · exact h

/-- **The ancestors of a new leaf** list it once. -/
theorem foldl_addUnmerged (h : t.Shape d) {leaf : Nat} (hleaf : t.Occupied leaf) {ks : List Nat}
    (hks : ∀ k ∈ ks, k < d) (hnodup : ks.Nodup)
    (hfresh : ∀ k ∈ ks, leaf ∉ (t.node (k + 1) (leaf / 2 ^ (k + 1))).unmerged) :
    ((ks.map fun k => TreeIndex.node (k + 1) (leaf / 2 ^ (k + 1))).foldl
        (fun t x => (addUnmerged leaf t x).value) t).Shape d ∧
      ∀ l, t.Occupied l → ((ks.map fun k => TreeIndex.node (k + 1) (leaf / 2 ^ (k + 1))).foldl
        (fun t x => (addUnmerged leaf t x).value) t).Occupied l := by
  induction ks generalizing t with
  | nil => exact ⟨h, fun _ hl => hl⟩
  | cons k ks ih =>
    have hk := hks k List.mem_cons_self
    have hshape := addUnmerged_shape h hk hleaf (hfresh k List.mem_cons_self)
    -- Only this ancestor changes.
    have hnode : ∀ k' j', (k', j') ≠ (k + 1, leaf / 2 ^ (k + 1)) →
        (addUnmerged leaf t (TreeIndex.node (k + 1) (leaf / 2 ^ (k + 1)))).value.node k' j' =
          t.node k' j' := by
      intro k' j' hne
      rw [addUnmerged_value]
      split
      · rw [Mls.node_put, if_neg]
        intro hx
        obtain ⟨rfl, rfl⟩ := node_injective hx.1
        exact hne rfl
      · rfl
    have hocc : ∀ l, t.Occupied l →
        (addUnmerged leaf t (TreeIndex.node (k + 1) (leaf / 2 ^ (k + 1)))).value.Occupied l := by
      intro l hl
      rw [Tree.Occupied, hnode 0 l (by simp)]
      exact hl
    obtain ⟨hrest, hrestocc⟩ := ih hshape (hocc leaf hleaf)
      (fun k' hk' => hks k' (List.mem_cons_of_mem _ hk')) (List.nodup_cons.mp hnodup).2 (by
        intro k' hk'
        have hne : k' ≠ k := by
          rintro rfl
          exact (List.nodup_cons.mp hnodup).1 hk'
        rw [hnode _ _ (by simp [hne])]
        exact hfresh k' (List.mem_cons_of_mem _ hk'))
    exact ⟨hrest, fun l hl => hrestocc l (hocc l hl)⟩

theorem fillLeaf_shape (h : t.Shape d) {leaf : Nat} (hl : leaf < 2 ^ d) (hblank : ¬ t.Occupied leaf)
    {v : LeafView} (hv : v.Parsed) :
    ((tDirectPath (2 * leaf) (2 ^ d)).foldl (fun t x => (addUnmerged leaf t x).value)
        (t.put (2 * leaf) (nodeSetLeaf v))).Shape d ∧
      ∀ l, l = leaf ∨ t.Occupied l →
        ((tDirectPath (2 * leaf) (2 ^ d)).foldl (fun t x => (addUnmerged leaf t x).value)
          (t.put (2 * leaf) (nodeSetLeaf v))).Occupied l := by
  have hdepth := h.depth
  have hshape := h.put_leaf hl (n := nodeSetLeaf v) ⟨v, rfl, hv⟩
  have hocc := occupied_put_leaf h hl (n := nodeSetLeaf v) rfl
  have hnode := h.node_put (inside_leaf hl) (nodeSetLeaf v)
  rw [TreeIndex.node_zero] at hnode
  rw [tDirectPath_leaf (by omega) hl]
  obtain ⟨hrest, hrestocc⟩ := foldl_addUnmerged hshape ((hocc leaf).mpr (Or.inl rfl))
    (fun k hk => List.mem_range.mp hk) List.nodup_range (by
      intro k hk
      have hin := inside_ancestor hl (show k + 1 ≤ d by have := List.mem_range.mp hk; omega)
      rw [hnode, if_neg (by omega)]
      intro hmem
      rcases h.parent k _ hin with hzero | ⟨-, -, -, -, hall⟩
      · rw [hzero] at hmem
        exact absurd hmem List.not_mem_nil
      · exact hblank (hall leaf hmem).2)
  exact ⟨hrest, fun l hl' => hrestocc l ((hocc l).mpr hl')⟩

/-- **Adding** a leaf keeps the shape. -/
theorem treeAdd_ok (h : t.Ok d) {v : LeafView} (hv : v.Parsed) {leaf : Nat}
    (hadd : (treeAdd t v).value = some (t', leaf)) : ∃ d', t'.Ok d' := by
  have hleaves := h.leaves
  rw [treeAdd, Logged.value_bind] at hadd
  rcases firstBlank_cases t (List.range t.leaves) with ⟨l, hl, hvalue, htype⟩ | ⟨hvalue, hall⟩
  · -- The first blank leaf is filled.
    rw [hvalue] at hadd
    rw [List.mem_range, h.leaves] at hl
    simp only [reduceCtorEq, false_and, if_false, Option.getD_some, Logged.value_bind, value_set,
      Logged.value_foldlM, Logged.value_pure, put_leaves, Option.some.injEq, Prod.mk.injEq,
      hleaves] at hadd
    obtain ⟨rfl, rfl⟩ := hadd
    obtain ⟨hshape, hocc⟩ := fillLeaf_shape h.toShape hl ((h.blank_iff hl).mp htype) hv
    obtain ⟨r, hr, hhalf, hrocc⟩ := h.right
    exact ⟨d, hshape, r, hr, hhalf, hocc r (Or.inr hrocc)⟩
  · -- The tree is full, and twice as large then.
    rw [hvalue] at hadd
    have hpos := Nat.two_pow_pos d
    by_cases hmax : maxLeaves < 2 * t.leaves
    · simp [hmax] at hadd
    · have hd : d + 1 ≤ 30 := by
        by_contra hd
        have : 2 ^ 30 ≤ 2 ^ d := Nat.pow_le_pow_right (by omega) (by omega)
        rw [maxLeaves, hleaves] at hmax
        omega
      have hdouble : (if t.leaves = 0 then 1 else 2 * t.leaves) = 2 ^ (d + 1) := by
        rw [hleaves, if_neg (by omega), Nat.pow_succ, Nat.mul_comm]
      have hgrow := h.toShape.grow hd
      have hnew : ¬ (treeResize t (2 ^ (d + 1))).Occupied (2 ^ d) := by
        apply not_occupied_zero
        rw [h.toShape.node_grow]
        apply h.toShape.node_outside
        intro hin
        simpa using hin.2
      simp only [true_and, hmax, if_false, if_true, Option.getD_none, Logged.value_bind, value_set,
        Logged.value_foldlM, Logged.value_pure, put_leaves, Option.some.injEq, Prod.mk.injEq,
        hdouble, hgrow.leaves] at hadd
      obtain ⟨rfl, rfl⟩ := hadd
      rw [hleaves]
      obtain ⟨hshape, hocc⟩ := fillLeaf_shape hgrow
        (show 2 ^ d < 2 ^ (d + 1) by omega) hnew hv
      exact ⟨d + 1, hshape, 2 ^ d, by omega, by omega,
        hocc _ (Or.inl rfl)⟩

end Mls
