import StrawOS.Mls.RoundTrip
import StrawOS.Mls.Session

/-!
# Indices inside the tree

Every node that is touched lies inside the tree, as long as each parent lists only
leaves of its own subtree as unmerged.  The operations keep that, and `tree_parse`
does not check it: a welcome may bring a tree that lists other leaves, and
`tree_resolution` gives their indices to the update paths of later commits.
-/

namespace Mls

open TreeIndex

variable {d : Nat} {t t' : Tree} {cr : Crypto}

/-- An index inside the tree. -/
def Bounded (a : Access) : Prop := a.1 < a.2

/-- Each parent lists only leaves of its own subtree. -/
def Tree.UnmergedInside (t : Tree) : Prop := ∀ k j, ∀ l ∈ (t.node k j).unmerged, l / 2 ^ k = j

/-- A tree of depth `d` whose lists are inside. -/
structure Tree.Sound (d : Nat) (t : Tree) : Prop where
  depth : d ≤ 30
  leaves : t.leaves = 2 ^ d
  length : t.n.length = 2 ^ (d + 1) - 1
  unmerged : t.UnmergedInside

/-! ## One node -/

theorem bounded_get (hleaves : t.leaves = 2 ^ d) {x : Nat} (hx : x < 2 ^ (d + 1) - 1) :
    Logged.Meets Bounded (fun n => n = t.n.getD x Node.zero) (t.get x) := by
  refine ⟨?_, rfl⟩
  intro a ha
  rw [List.mem_singleton.mp (show a ∈ [(x, tWidth t.leaves)] from ha), hleaves, tWidth_two_pow]
  exact hx

theorem bounded_set (hleaves : t.leaves = 2 ^ d) {x : Nat} (hx : x < 2 ^ (d + 1) - 1) (n : Node) :
    Logged.Meets Bounded (fun t' => t' = t.put x n) (t.set x n) := by
  refine ⟨?_, rfl⟩
  intro a ha
  rw [List.mem_singleton.mp (show a ∈ [(x, tWidth t.leaves)] from ha), hleaves, tWidth_two_pow]
  exact hx

theorem leaf_index {l : Nat} (hl : l < 2 ^ d) : 2 * l < 2 ^ (d + 1) - 1 := by
  omega

theorem lt_of_div_inside {k j l : Nat} (hin : Inside d k j) (hl : l / 2 ^ k = j) : l < 2 ^ d := by
  have hlt := Nat.lt_mul_div_succ l (Nat.two_pow_pos k)
  rw [hl] at hlt
  have hle : 2 ^ k * (j + 1) ≤ 2 ^ k * 2 ^ (d - k) := Nat.mul_le_mul_left _ hin.2
  rw [← Nat.pow_add, Nat.add_sub_cancel' hin.1] at hle
  omega

theorem Tree.Sound.putNode (h : t.Sound d) (k j : Nat) {n : Node} (hn : ∀ l ∈ n.unmerged, l / 2 ^ k = j) :
    (t.put (TreeIndex.node k j) n).Sound d := by
  refine ⟨h.depth, h.leaves, by rw [put_length, h.length], ?_⟩
  intro k' j' l hl
  rw [Mls.node_put] at hl
  split at hl
  · rename_i hx
    obtain ⟨rfl, rfl⟩ := node_injective hx.1
    exact hn l hl
  · exact h.unmerged k' j' l hl

theorem Tree.Sound.put (h : t.Sound d) (x : Nat) {n : Node}
    (hn : ∀ l ∈ n.unmerged, l ∈ (t.n.getD x Node.zero).unmerged) : (t.put x n).Sound d := by
  obtain ⟨k, j, rfl⟩ := exists_node x
  apply h.putNode
  intro l hl
  exact h.unmerged k j l (hn l hl)

theorem Tree.Occupied.put {l x : Nat} (h : t.Occupied l) {n : Node} (hn : x = 2 * l → n.type = .leaf) :
    (t.put x n).Occupied l := by
  rw [Tree.Occupied, Mls.node_put, TreeIndex.node_zero]
  split
  · rename_i hx
    exact hn hx.1
  · exact h

/-! ## Hashes -/

theorem bounded_treeHash (hd : d ≤ 30) (hleaves : t.leaves = 2 ^ d) {fuel k j : Nat} (hk : k < fuel)
    (hin : Inside d k j) :
    Logged.Meets Bounded (fun _ => True) (treeHash cr t fuel (TreeIndex.node k j)) := by
  induction fuel generalizing k j with
  | zero => omega
  | succ fuel ih =>
    apply (bounded_get hleaves (TreeIndex.node_lt hin)).bind
    intro n _
    cases k with
    | zero =>
      have heven : TreeIndex.node 0 j % 2 = 0 := by rw [TreeIndex.node_zero]; omega
      rw [if_pos heven]
      exact .pure trivial
    | succ k =>
      have hk30 := hin.1
      obtain ⟨hleft, hright⟩ := inside_children hin
      rw [if_neg (by rw [node_odd]; decide), tLeft_node (by omega), tRight_node (by omega)]
      apply (ih (by omega) hleft).bind
      intro _ _
      apply (ih (by omega) hright).bind
      intro _ _
      exact .pure trivial

theorem bounded_treeRootHash (hd : d ≤ 30) (hleaves : t.leaves = 2 ^ d) :
    Logged.Meets Bounded (fun _ => True) (treeRootHash cr t) := by
  rw [treeRootHash, hleaves, tRoot_two_pow (by omega)]
  exact bounded_treeHash hd hleaves (by rw [maxDepth]; omega) ⟨le_rfl, Nat.two_pow_pos _⟩

/-! ## Resolutions -/

/-- **A resolution** has only nodes of the tree. -/
theorem bounded_treeResolution (h : t.Sound d) (exclude : List Nat) {fuel k j max : Nat} (hk : k < fuel)
    (hin : Inside d k j) :
    Logged.Meets Bounded (fun res => ∀ x ∈ res, x < 2 ^ (d + 1) - 1)
      (treeResolution t exclude fuel (TreeIndex.node k j) max) := by
  induction fuel generalizing k j max with
  | zero => omega
  | succ fuel ih =>
    apply (bounded_get h.leaves (TreeIndex.node_lt hin)).bind
    rintro n rfl
    split
    · split
      · rename_i hodd
        cases k with
        | zero =>
          rw [TreeIndex.node_zero] at hodd
          omega
        | succ k =>
          have hk30 := hin.1
          have hdepth := h.depth
          obtain ⟨hleft, hright⟩ := inside_children hin
          rw [tLeft_node (by omega), tRight_node (by omega)]
          apply (ih (by omega) hleft).bind
          intro l hl
          apply (ih (by omega) hright).bind
          intro r hr
          apply Logged.Meets.pure
          intro x hx
          rcases List.mem_append.mp hx with hx | hx
          · exact hl x hx
          · exact hr x hx
      · exact .pure fun x hx => absurd hx List.not_mem_nil
    · split
      · exact .pure fun x hx => absurd hx List.not_mem_nil
      · apply Logged.Meets.pure
        intro x hx
        rcases List.mem_cons.mp (List.mem_of_mem_take hx) with rfl | hx
        · exact TreeIndex.node_lt hin
        · obtain ⟨l, hl, rfl⟩ := List.mem_map.mp hx
          have hmem := (List.mem_filter.mp hl).1
          have hlt := lt_of_div_inside hin (h.unmerged k j l hmem)
          have hindex := leaf_index hlt
          exact lt_of_le_of_lt (Nat.mod_le _ _) hindex

theorem bounded_resolution (h : t.Sound d) (exclude : List Nat) {k j : Nat} (max : Nat)
    (hin : Inside d k j) :
    Logged.Meets Bounded (fun res => ∀ x ∈ res, x < 2 ^ (d + 1) - 1)
      (resolution t exclude (TreeIndex.node k j) max) := by
  have hk := hin.1
  have hdepth := h.depth
  exact bounded_treeResolution h exclude (by rw [maxDepth]; omega) hin

/-! ## Paths -/

theorem bounded_filterSteps (h : t.Sound d) {l k n : Nat} (hl : l < 2 ^ d) (hn : k + n ≤ d)
    (acc : List Nat) :
    ∀ a ∈ (((List.range' k n).map fun i => TreeIndex.node (i + 1) (l / 2 ^ (i + 1))).foldlM
      (filterStep t) (acc, TreeIndex.node k (l / 2 ^ k))).log, Bounded a := by
  have hdepth := h.depth
  induction n generalizing k acc with
  | zero => exact fun a ha => absurd ha List.not_mem_nil
  | succ n ih =>
    have hsib : tSibling (TreeIndex.node k (l / 2 ^ k)) = TreeIndex.node k (siblingOf (l / 2 ^ k)) :=
      tSibling_node (by omega) _
    intro a ha
    rcases List.mem_append.mp ha with ha | ha
    · rw [filterStep, Logged.log_bind, Logged.log_pure, List.append_nil, hsib] at ha
      exact (bounded_resolution h [] 1 (inside_sibling hl (by omega))).1 a ha
    · exact ih (by omega) _ a ha

/-- **The filtered path** of a leaf: some of its ancestors. -/
theorem bounded_treeFilteredPath (h : t.Sound d) {l : Nat} (hl : l < 2 ^ d) :
    Logged.Meets Bounded (fun fdp => fdp = (pathLevels d t l).map
      fun i => TreeIndex.node (i + 1) (l / 2 ^ (i + 1))) (treeFilteredPath t l) := by
  have hdepth := h.depth
  refine ⟨?_, treeFilteredPath_value h.depth h.leaves hl⟩
  have hlog := bounded_filterSteps h hl (show 0 + d ≤ d by omega) []
  rw [Nat.pow_zero, Nat.div_one, TreeIndex.node_zero, ← List.range_eq_range'] at hlog
  intro a ha
  rw [treeFilteredPath, Logged.log_bind, Logged.log_pure, List.append_nil, h.leaves,
    tDirectPath_leaf (by omega) hl] at ha
  exact hlog a ha

theorem pathLevels_lt {l i : Nat} (hi : i ∈ pathLevels d t l) : i < d :=
  List.mem_range.mp (List.mem_filter.mp hi).1

theorem ancestor_lt {l i : Nat} (hl : l < 2 ^ d) (hi : i < d) :
    TreeIndex.node (i + 1) (l / 2 ^ (i + 1)) < 2 ^ (d + 1) - 1 :=
  TreeIndex.node_lt (inside_ancestor hl (by omega))

theorem ancestor_ne_leaf (l i l' : Nat) : TreeIndex.node (i + 1) (l / 2 ^ (i + 1)) ≠ 2 * l' := by
  intro heq
  rw [← TreeIndex.node_zero] at heq
  exact absurd (node_injective heq).1 (by omega)

/-! ## Changes -/

/-- A sound tree of depth `d` with a leaf of its owner. -/
structure Tree.SoundFor (d me : Nat) (t : Tree) : Prop extends Tree.Sound d t where
  mine : t.Occupied me

theorem Tree.SoundFor.lt {me : Nat} (h : t.SoundFor d me) : me < 2 ^ d := occupied_lt h.length h.mine

/-- A node that keeps the lists, beside the own leaf or a leaf itself. -/
theorem Tree.SoundFor.put {me : Nat} (h : t.SoundFor d me) (x : Nat) {n : Node}
    (hn : ∀ l ∈ n.unmerged, l ∈ (t.n.getD x Node.zero).unmerged)
    (hleaf : x = 2 * me → n.type = .leaf) : (t.put x n).SoundFor d me :=
  ⟨h.toSound.put x hn, h.mine.put hleaf⟩

variable {me : Nat}

theorem bounded_blankPath (h : t.SoundFor d me) {l : Nat} (hl : l < 2 ^ d) :
    Logged.Meets Bounded (Tree.SoundFor d me) (blankPath t l) := by
  have hdepth := h.depth
  rw [blankPath, h.leaves, tDirectPath_leaf (by omega) hl]
  apply Logged.Meets.foldlM h
  intro t' ht' x hx
  obtain ⟨i, hi, rfl⟩ := List.mem_map.mp hx
  apply (bounded_set ht'.leaves (ancestor_lt hl (List.mem_range.mp hi)) Node.zero).mono
  rintro _ rfl
  exact ht'.put _ (fun u hu => absurd hu List.not_mem_nil) fun heq => absurd heq (ancestor_ne_leaf l i me)

theorem bounded_blankLeaves (hleaves : t.leaves = 2 ^ d) {ls : List Nat} (hls : ∀ l ∈ ls, l < 2 ^ d) :
    Logged.Meets Bounded (fun b => b = true → ∀ l ∈ ls, (t.node 0 l).type = .blank)
      (blankLeaves t ls) := by
  refine ⟨?_, (blankLeaves_value t ls).mp⟩
  induction ls with
  | nil => exact fun a ha => absurd ha List.not_mem_nil
  | cons l ls ih =>
    have htail := ih fun l' hl' => hls l' (List.mem_cons_of_mem _ hl')
    have hget := bounded_get hleaves (leaf_index (hls l List.mem_cons_self))
    intro a ha
    rw [blankLeaves, Logged.log_bind] at ha
    rcases List.mem_append.mp ha with ha | ha
    · exact hget.1 a ha
    · split at ha
      · exact htail a ha
      · exact absurd ha List.not_mem_nil

/-- **Truncating** stops before the own leaf. -/
theorem bounded_treeTruncate {fuel : Nat} (h : t.SoundFor d me) :
    Logged.Meets Bounded (fun t' => ∃ d', t'.SoundFor d' me) (treeTruncate fuel t) := by
  induction fuel generalizing d t with
  | zero => exact .pure ⟨d, h⟩
  | succ fuel ih =>
    rw [treeTruncate, h.leaves]
    cases d with
    | zero =>
      exact .pure ⟨0, h⟩
    | succ d =>
      have hpos := Nat.two_pow_pos d
      have hhalf : 2 ^ (d + 1) / 2 = 2 ^ d := by omega
      have hdepth := h.depth
      rw [if_pos (by omega), hhalf]
      apply (bounded_blankLeaves h.leaves (by
        intro l hl
        rw [List.mem_range'_1] at hl
        omega)).bind
      intro blank hblank
      split
      · rename_i htrue
        have hlt : me < 2 ^ d := by
          by_contra hge
          have hme := h.lt
          have hempty := hblank htrue me (by rw [List.mem_range'_1]; omega)
          have hmine := h.mine
          rw [Tree.Occupied, hempty] at hmine
          cases hmine
        have hnode := node_resize h.length d
        refine ih (d := d) ⟨⟨by omega, rfl, length_resize h.leaves h.length d, ?_⟩, ?_⟩
        · intro k j l hl
          rw [hnode] at hl
          split at hl
          · exact h.unmerged k j l hl
          · exact absurd hl List.not_mem_nil
        · rw [Tree.Occupied, hnode, if_pos (inside_leaf hlt)]
          exact h.mine
      · exact .pure ⟨d + 1, h⟩

/-- **Removing** another leaf. -/
theorem bounded_treeRemove (h : t.SoundFor d me) {l : Nat} (hl : l < 2 ^ d) (hne : l ≠ me) :
    Logged.Meets Bounded (fun t' => ∃ d', t'.SoundFor d' me) (treeRemove t l) := by
  apply (bounded_set h.leaves (leaf_index hl) Node.zero).bind
  rintro _ rfl
  apply (bounded_blankPath (h.put (2 * l) (fun u hu => absurd hu List.not_mem_nil) (by omega)) hl).bind
  intro t' ht'
  exact bounded_treeTruncate ht'

theorem bounded_firstBlank (hleaves : t.leaves = 2 ^ d) {ls : List Nat} (hls : ∀ l ∈ ls, l < 2 ^ d) :
    Logged.Meets Bounded (fun o => ∀ l, o = some l → l < 2 ^ d) (firstBlank t ls) := by
  induction ls with
  | nil => exact .pure fun l hl => nomatch hl
  | cons l ls ih =>
    apply (bounded_get hleaves (leaf_index (hls l List.mem_cons_self))).bind
    intro n _
    split
    · apply Logged.Meets.pure
      intro l' hl'
      rw [← Option.some.inj hl']
      exact hls l List.mem_cons_self
    · exact ih fun l' hl' => hls l' (List.mem_cons_of_mem _ hl')

theorem bounded_fillLeaf (h : t.SoundFor d me) {leaf : Nat} (hl : leaf < 2 ^ d) (v : LeafView) :
    Logged.Meets Bounded
      (fun o : Option (Tree × Nat) => ∀ t' l, o = some (t', l) → ∃ d', t'.SoundFor d' me) (do
        let t ← t.set (2 * leaf) (nodeSetLeaf v)
        let t ← (tDirectPath (2 * leaf) t.leaves).foldlM (addUnmerged leaf) t
        pure (some (t, leaf))) := by
  have hdepth := h.depth
  apply (bounded_set h.leaves (leaf_index hl) (nodeSetLeaf v)).bind
  rintro _ rfl
  have hput := h.put (2 * leaf) (n := nodeSetLeaf v) (fun u hu => absurd hu List.not_mem_nil) fun _ => rfl
  rw [hput.leaves, tDirectPath_leaf (by omega) hl]
  apply (Logged.Meets.foldlM hput (f := addUnmerged leaf) ?_).bind
  · intro t' ht'
    apply Logged.Meets.pure
    intro t'' l heq
    obtain ⟨rfl, -⟩ := Prod.mk.inj (Option.some.inj heq)
    exact ⟨d, ht'⟩
  · intro t' ht' x hx
    obtain ⟨i, hi, rfl⟩ := List.mem_map.mp hx
    have hlt := ancestor_lt hl (List.mem_range.mp hi)
    apply (bounded_get ht'.leaves hlt).bind
    rintro n rfl
    split
    · apply (bounded_set ht'.leaves hlt _).mono
      rintro _ rfl
      refine ⟨ht'.toSound.putNode _ _ ?_, ht'.mine.put fun heq => absurd heq (ancestor_ne_leaf leaf i me)⟩
      intro u hu
      rcases List.mem_append.mp hu with hu | hu
      · exact ht'.unmerged _ _ u hu
      · rw [List.mem_singleton.mp hu]
    · exact .pure ht'

/-- **Adding** a leaf. -/
theorem bounded_treeAdd (h : t.SoundFor d me) (v : LeafView) :
    Logged.Meets Bounded
      (fun o => ∀ t' l, o = some (t', l) → ∃ d', t'.SoundFor d' me) (treeAdd t v) := by
  have hleaves := h.leaves
  have hpos := Nat.two_pow_pos d
  apply (bounded_firstBlank h.leaves (by
    intro l hl
    rw [List.mem_range, h.leaves] at hl
    exact hl)).bind
  intro blank hblank
  split
  · exact .pure fun t' l heq => by cases heq
  · rename_i hroom
    cases blank with
    | some l =>
      exact bounded_fillLeaf h (hblank l rfl) v
    | none =>
      have hdouble : (if t.leaves = 0 then 1 else 2 * t.leaves) = 2 ^ (d + 1) := by
        rw [hleaves, if_neg (by omega), Nat.pow_succ, Nat.mul_comm]
      have hd : d + 1 ≤ 30 := by
        by_contra hd
        have : 2 ^ 30 ≤ 2 ^ d := Nat.pow_le_pow_right (by omega) (by omega)
        rw [maxLeaves, hleaves] at hroom
        simp only [true_and] at hroom
        omega
      have hnode := node_resize h.length (d + 1)
      have hgrow : (treeResize t (2 ^ (d + 1))).SoundFor (d + 1) me := by
        refine ⟨⟨hd, rfl, length_resize h.leaves h.length (d + 1), ?_⟩, ?_⟩
        · intro k j l hl
          rw [hnode] at hl
          split at hl
          · exact h.unmerged k j l hl
          · exact absurd hl List.not_mem_nil
        · rw [Tree.Occupied, hnode, if_pos ((inside_leaf h.lt).mono (by omega))]
          exact h.mine
      rw [if_pos rfl, Option.getD_none, hdouble, hleaves]
      exact bounded_fillLeaf hgrow (by omega) v

/-! ## Update paths -/

theorem inside_copath {l i : Nat} (hd : d ≤ 30) (hl : l < 2 ^ d) (hi : i < d) :
    ∃ k j, Inside d k j ∧ copathChild (TreeIndex.node (i + 1) (l / 2 ^ (i + 1))) (2 * l) =
      TreeIndex.node k j :=
  ⟨i, _, inside_sibling hl hi, copathChild_ancestor (by omega)⟩

theorem bounded_treeSetParentHashes (h : t.SoundFor d me) {l : Nat} (hl : l < 2 ^ d) {is : List Nat}
    (his : ∀ i ∈ is, i < d) :
    Logged.Meets Bounded (fun r => r.1.SoundFor d me) (treeSetParentHashes cr t l
      (is.map fun i => TreeIndex.node (i + 1) (l / 2 ^ (i + 1)))) := by
  have hdepth := h.depth
  have hloop : Logged.Meets Bounded (fun acc : Tree × Bytes => acc.1.SoundFor d me)
      ((is.map fun i => TreeIndex.node (i + 1) (l / 2 ^ (i + 1))).reverse.foldlM
        (parentHashStep cr l) (t, [])) := by
    apply Logged.Meets.foldlM (Q := fun acc : Tree × Bytes => acc.1.SoundFor d me) h
    intro acc hacc x hx
    obtain ⟨i, hi, rfl⟩ := List.mem_map.mp (List.mem_reverse.mp hx)
    have hlt := ancestor_lt hl (his i hi)
    apply (bounded_get hacc.leaves hlt).bind
    rintro n rfl
    apply (bounded_set hacc.leaves hlt _).bind
    rintro _ rfl
    obtain ⟨k, j, hin, heq⟩ := inside_copath hdepth hl (his i hi)
    have hk := hin.1
    rw [heq]
    apply (bounded_treeHash hdepth (by rw [put_leaves, hacc.leaves]) (by rw [maxDepth]; omega) hin).bind
    intro sib _
    exact .pure (hacc.put _ (fun u hu => hu) fun heq => absurd heq (ancestor_ne_leaf l i me))
  apply hloop.bind
  intro acc hacc
  exact .pure hacc

theorem bounded_setPathKeys (h : t.SoundFor d me) {l : Nat} (hl : l < 2 ^ d) {xs : List Nat}
    (hxs : ∀ x ∈ xs, ∃ i < d, x = TreeIndex.node (i + 1) (l / 2 ^ (i + 1))) (ps : Bytes) :
    Logged.Meets Bounded (fun r => r.1.SoundFor d me) (setPathKeys cr t xs ps) := by
  apply Logged.Meets.foldlM (Q := fun r : Tree × Bytes × Bool => r.1.SoundFor d me) h
  intro acc hacc x hx
  obtain ⟨i, hi, rfl⟩ := hxs x hx
  have hlt := ancestor_lt hl hi
  apply (bounded_get hacc.leaves hlt).bind
  rintro n rfl
  apply (bounded_set hacc.leaves hlt _).bind
  rintro _ rfl
  exact .pure (hacc.put _ (fun u hu => hu) fun heq => absurd heq (ancestor_ne_leaf l i me))

theorem bounded_sealLoop (hleaves : t.leaves = 2 ^ d) {xs : List Nat} (hxs : ∀ x ∈ xs, x < 2 ^ (d + 1) - 1)
    (rnd : Entropy) (ctx ps : Bytes) (k j : Nat) :
    Attempt.Meets Bounded (fun _ => True) (sealLoop cr rnd t ctx ps k xs j) := by
  induction xs generalizing j with
  | nil => exact .pure trivial
  | cons x xs ih =>
    apply Attempt.Meets.lift_bind (bounded_get hleaves (hxs x List.mem_cons_self))
    intro n _
    apply Attempt.Meets.require_bind
    intro ct _
    apply (ih (fun y hy => hxs y (List.mem_cons_of_mem _ hy)) (j + 1)).bind
    intro cts _
    exact .pure trivial

theorem bounded_sealNodes (h : t.Sound d) (hme : me < 2 ^ d) {is : List Nat} (his : ∀ i ∈ is, i < d)
    (rnd : Entropy) (exclude : List Nat) (ctx ps : Bytes) (k : Nat) :
    Attempt.Meets Bounded (fun _ => True) (sealNodes cr rnd t me exclude ctx
      (is.map fun i => TreeIndex.node (i + 1) (me / 2 ^ (i + 1))) ps k) := by
  have hdepth := h.depth
  induction is generalizing ps k with
  | nil => exact .pure trivial
  | cons i is ih =>
    have hi := his i List.mem_cons_self
    obtain ⟨k', j', hin, heq⟩ := inside_copath hdepth hme hi
    rw [List.map_cons, sealNodes, heq]
    apply Attempt.Meets.lift_bind (bounded_get h.leaves (ancestor_lt hme hi))
    intro n _
    apply Attempt.Meets.lift_bind (bounded_resolution h exclude 512 hin)
    intro res hres
    apply (bounded_sealLoop h.leaves hres rnd ctx ps k 0).bind
    intro cts _
    apply (ih (fun i' hi' => his i' (List.mem_cons_of_mem _ hi')) _ _).bind
    intro nodes _
    exact .pure trivial

/-- **The own path** of a committer. -/
theorem bounded_createUpdatePath {g : Group} (h : g.tree.SoundFor d g.me) (rnd : Entropy)
    (idn : Identity) (exclude : List Nat) (pc : PathContext) :
    Attempt.Meets Bounded (fun p => p.tree.SoundFor d g.me)
      (createUpdatePath cr rnd idn g exclude pc) := by
  have hl := h.lt
  apply Attempt.Meets.lift_bind (bounded_treeFilteredPath h.toSound hl)
  rintro _ rfl
  apply Attempt.Meets.lift_bind (bounded_blankPath h hl)
  intro t₁ ht₁
  apply Attempt.Meets.require_bind
  intro leafKeys _
  apply (Attempt.Meets.foldlM (Q := fun acc : Tree × Bytes => acc.1.SoundFor d g.me) ht₁ ?_).bind
  · intro acc hacc
    apply Attempt.Meets.lift_bind (bounded_treeSetParentHashes hacc hl fun i hi => pathLevels_lt hi)
    intro r hr
    apply Attempt.Meets.require_bind
    intro v _
    obtain ⟨v, r⟩ := v
    apply Attempt.Meets.lift_bind (bounded_set hr.leaves (leaf_index hl) _)
    rintro _ rfl
    have hput := hr.put (2 * g.me) (n := { nodeSetLeaf v with priv := some leafKeys.1 })
      (fun u hu => absurd hu List.not_mem_nil) fun _ => rfl
    apply Attempt.Meets.lift_bind (bounded_treeRootHash hput.depth hput.leaves)
    intro th _
    apply (bounded_sealNodes hput.toSound hl (fun i hi => pathLevels_lt hi) rnd exclude _ _ 0).bind
    intro nodes _
    exact .pure hput
  · intro acc hacc x hx
    obtain ⟨i, hi, rfl⟩ := List.mem_map.mp hx
    have hlt := ancestor_lt hl (pathLevels_lt hi)
    apply Attempt.Meets.lift_bind (bounded_get hacc.leaves hlt)
    rintro n rfl
    apply Attempt.Meets.require_bind
    intro keys _
    apply Attempt.Meets.lift_bind (bounded_set hacc.leaves hlt _)
    rintro _ rfl
    exact .pure (hacc.put _ (fun u hu => hu) fun heq => absurd heq (ancestor_ne_leaf g.me i g.me))

theorem bounded_pickLoop (hleaves : t.leaves = 2 ^ d) {xs : List Nat} (hxs : ∀ x ∈ xs, x < 2 ^ (d + 1) - 1)
    (j : Nat) : Logged.Meets Bounded (fun o => ∀ i x, o = some (i, x) → x < 2 ^ (d + 1) - 1)
      (pickLoop t me xs j) := by
  induction xs generalizing j with
  | nil => exact .pure fun i x heq => nomatch heq
  | cons x xs ih =>
    apply (bounded_get hleaves (hxs x List.mem_cons_self)).bind
    intro n _
    split
    · apply Logged.Meets.pure
      intro i y heq
      obtain ⟨-, rfl⟩ := Prod.mk.inj (Option.some.inj heq)
      exact hxs x List.mem_cons_self
    · exact ih (fun y hy => hxs y (List.mem_cons_of_mem _ hy)) (j + 1)

theorem bounded_openPath (h : t.Sound d) {l i : Nat} (hi : i < d) (hlca : l / 2 ^ (i + 1) = me / 2 ^ (i + 1))
    (hme : me < 2 ^ d) (exclude : List Nat) (ctx : Bytes) (start : Rd) :
    Attempt.Meets Bounded (fun _ => True) (openPath cr t me exclude ctx
      (TreeIndex.node (i + 1) (l / 2 ^ (i + 1))) start) := by
  have hdepth := h.depth
  rw [openPath, hlca, pathChild_ancestor (by omega)]
  apply Attempt.Meets.lift_bind (bounded_resolution h exclude 512
    (inside_ancestor hme (show i ≤ d by omega)))
  intro res hres
  apply Attempt.Meets.lift_bind (bounded_pickLoop h.leaves hres 0)
  intro pick hpick
  apply Attempt.Meets.require_bind
  intro p hp
  obtain ⟨j, y⟩ := p
  have hp := hpick j y hp
  apply Attempt.Meets.guard_bind
  intro _
  apply Attempt.Meets.lift_bind (bounded_get h.leaves hp)
  intro holder _
  apply Attempt.Meets.require_bind
  intro ps _
  apply Attempt.Meets.guard_bind
  intro _
  exact .pure trivial

theorem bounded_readNodes (h : t.SoundFor d me) {l : Nat} (hl : l < 2 ^ d) {is : List Nat}
    (his : ∀ i ∈ is, i < d) (nodes : Rd) :
    Logged.Meets Bounded (fun acc => acc.1.SoundFor d me)
      ((is.map fun i => TreeIndex.node (i + 1) (l / 2 ^ (i + 1))).foldlM readNodeStep
        (t, nodes, [])) := by
  apply Logged.Meets.foldlM (Q := fun acc : Tree × Rd × List Rd => acc.1.SoundFor d me) h
  intro acc hacc x hx
  obtain ⟨i, hi, rfl⟩ := List.mem_map.mp hx
  have hlt := ancestor_lt hl (his i hi)
  rw [readNodeStep]
  split
  · exact .pure hacc
  · apply (bounded_get hacc.leaves hlt).bind
    rintro n rfl
    apply (bounded_set hacc.leaves hlt _).bind
    rintro _ rfl
    exact .pure (hacc.put _ (fun u hu => hu) fun heq => absurd heq (ancestor_ne_leaf l i me))

theorem lca_ancestor {l : Nat} (hd : d ≤ 30) {is : List Nat} (his : ∀ i ∈ is, i < d) {starts : List Rd}
    {x : Nat} {start : Rd}
    (hx : ((is.map fun i => TreeIndex.node (i + 1) (l / 2 ^ (i + 1))).zip starts)[
      (is.map fun i => TreeIndex.node (i + 1) (l / 2 ^ (i + 1))).findIdx
        fun x => tInSubtree x (2 * me)]? = some (x, start)) :
    ∃ i < d, x = TreeIndex.node (i + 1) (l / 2 ^ (i + 1)) ∧
      l / 2 ^ (i + 1) = me / 2 ^ (i + 1) := by
  rw [List.getElem?_zip_eq_some] at hx
  obtain ⟨hx, -⟩ := hx
  obtain ⟨hlt, hget⟩ := List.getElem?_eq_some_iff.mp hx
  have hsub := List.findIdx_getElem (w := hlt)
  rw [hget] at hsub
  obtain ⟨i, hi, rfl⟩ := List.mem_map.mp (List.mem_of_getElem? hx)
  have hid := his i hi
  rw [tInSubtree_node (by omega), decide_eq_true_eq] at hsub
  exact ⟨i, hid, rfl, hsub.symm⟩

/-- **A path that is followed.** -/
theorem bounded_applyUpdatePath {g : Group} (h : g.tree.SoundFor d g.me) (sender : Nat) (r : Rd)
    (exclude : List Nat) (pc : PathContext) :
    Attempt.Meets Bounded (fun p => p.1.SoundFor d g.me)
      (applyUpdatePath cr g sender r exclude pc) := by
  have hleaves := h.leaves
  have hdepth := h.depth
  apply Attempt.Meets.require_bind
  intro v _
  obtain ⟨v, r₁⟩ := v
  apply Attempt.Meets.guard_bind
  intro _
  apply Attempt.Meets.guard_bind
  intro hlt
  have hl : sender < 2 ^ d := by
    rw [← hleaves]
    exact of_decide_eq_true hlt
  apply Attempt.Meets.lift_bind (bounded_get h.leaves (leaf_index hl))
  intro n _
  apply Attempt.Meets.guard_bind
  intro _
  apply Attempt.Meets.lift_bind (bounded_treeFilteredPath h.toSound hl)
  rintro _ rfl
  apply Attempt.Meets.lift_bind (bounded_blankPath h hl)
  intro t₁ ht₁
  apply Attempt.Meets.lift_bind (bounded_set ht₁.leaves (leaf_index hl) _)
  rintro _ rfl
  have hput := ht₁.put (2 * sender) (n := nodeSetLeaf v) (fun u hu => absurd hu List.not_mem_nil)
    fun _ => rfl
  apply Attempt.Meets.lift_bind (bounded_readNodes hput hl (fun i hi => pathLevels_lt hi) _)
  intro acc hacc
  apply Attempt.Meets.guard_bind
  intro _
  apply Attempt.Meets.lift_bind (bounded_treeSetParentHashes hacc hl fun i hi => pathLevels_lt hi)
  intro q hq
  apply Attempt.Meets.guard_bind
  intro _
  apply Attempt.Meets.lift_bind (bounded_treeRootHash hq.depth hq.leaves)
  intro th _
  apply Attempt.Meets.require_bind
  intro xs hxs
  obtain ⟨x, start⟩ := xs
  obtain ⟨i, hi, rfl, hlca⟩ := lca_ancestor hdepth (fun i hi => pathLevels_lt hi) hxs
  apply (bounded_openPath hq.toSound hi hlca h.lt exclude _ start).bind
  intro ps _
  apply Attempt.Meets.lift_bind (bounded_setPathKeys hq hl (by
    intro x hx
    obtain ⟨i, hi, rfl⟩ := List.mem_map.mp (List.mem_of_mem_drop hx)
    exact ⟨i, pathLevels_lt hi, rfl⟩) ps)
  intro k hk
  apply Attempt.Meets.guard_bind
  intro _
  exact .pure hk

end Mls
