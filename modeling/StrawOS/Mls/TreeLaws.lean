import StrawOS.Mls.Tree

/-!
# The laws of the node indices

In the tree with `2 ^ d` leaves children, parents, siblings, subtrees and direct paths go
together.  With `d` at most 29 every sum and every shift stays below `2 ^ 32`.
-/

namespace Mls

open TreeIndex

/-- `top` is the node `x` or one of its ancestors: it comes after some steps to the parent,
none of them from the root. -/
def Above (leaves top x : Nat) : Prop :=
  ∃ n, tParent^[n] x = top ∧ ∀ m < n, tParent^[m] x ≠ tRoot leaves

variable {d k j k' j' n : Nat}

theorem tParent_iterate (h : k + n ≤ 33) : tParent^[n] (node k j) = node (k + n) (j / 2 ^ n) := by
  induction n with
  | zero => simp
  | succ n ih =>
    rw [Function.iterate_succ_apply', ih (by omega), tParent_node (by omega), Nat.div_div_eq_div_mul,
      ← Nat.pow_succ]
    rfl

/-- The root comes after the levels that are above a node, and not before. -/
theorem tParent_root (hd : d ≤ 32) (hin : Inside d k j) :
    tParent^[d - k] (node k j) = tRoot (2 ^ d) ∧
      ∀ m < d - k, tParent^[m] (node k j) ≠ tRoot (2 ^ d) := by
  obtain ⟨hk, hj⟩ := hin
  rw [tRoot_two_pow hd]
  constructor
  · rw [tParent_iterate (by omega), Nat.div_eq_of_lt hj, Nat.add_sub_cancel' hk]
  · intro m hm
    rw [tParent_iterate (by omega)]
    intro heq
    have := (node_injective heq).1
    omega

theorem above_iff (hd : d ≤ 32) (hin : Inside d k' j') (hk : k ≤ d) :
    Above (2 ^ d) (node k j) (node k' j') ↔ k' ≤ k ∧ j' / 2 ^ (k - k') = j := by
  obtain ⟨hroot, hbefore⟩ := tParent_root hd hin
  have hk' := hin.1
  constructor
  · rintro ⟨n, hn, hsteps⟩
    have hle : n ≤ d - k' := by
      by_contra hlt
      exact hsteps _ (by omega) hroot
    rw [tParent_iterate (by omega)] at hn
    obtain ⟨rfl, rfl⟩ := node_injective hn
    exact ⟨by omega, by rw [Nat.add_sub_cancel_left]⟩
  · rintro ⟨hle, rfl⟩
    refine ⟨k - k', ?_, fun m hm => hbefore m (by omega)⟩
    rw [tParent_iterate (by omega), Nat.add_sub_cancel' hle]

/-- The loop of `t_direct_path` collects the parents up to the root. -/
theorem directLoop_iterate {root fuel x : Nat} (hfuel : n ≤ fuel) (hroot : tParent^[n] x = root)
    (hbefore : ∀ m < n, tParent^[m] x ≠ root) :
    directLoop root fuel x = (List.range n).map fun i => tParent^[i + 1] x := by
  induction n generalizing fuel x with
  | zero =>
    cases fuel with
    | zero => rfl
    | succ fuel => exact if_pos hroot
  | succ n ih =>
    obtain ⟨fuel, rfl⟩ : ∃ f, fuel = f + 1 := ⟨fuel - 1, by omega⟩
    have hne : x ≠ root := hbefore 0 (by omega)
    rw [directLoop, if_neg hne,
      ih (by omega) hroot fun m hm => hbefore (m + 1) (by omega), List.range_succ_eq_map,
      List.map_cons, List.map_map]
    rfl

/-- The sibling of a node below the root. -/
theorem tSibling_inside (hd : d ≤ 32) (hin : Inside d k j) (hne : node k j ≠ tRoot (2 ^ d)) :
    ∃ i, Inside d k i ∧ i ≠ j ∧ tSibling (node k j) = node k i ∧ tSibling (node k i) = node k j := by
  obtain ⟨hk, hj⟩ := hin
  have hlt : k < d := by
    by_contra hge
    obtain rfl : k = d := by omega
    rw [Nat.sub_self, Nat.pow_zero, Nat.lt_one_iff] at hj
    exact hne (by rw [tRoot_two_pow hd, hj])
  obtain ⟨e, he⟩ : ∃ e, d - k = e + 1 := ⟨d - k - 1, by omega⟩
  refine ⟨if j % 2 = 0 then j + 1 else j - 1, ⟨hk, ?_⟩, by grind, tSibling_node (by omega) j, ?_⟩
  · grind
  · rw [tSibling_node (by omega)]
    grind

/-- **The index arithmetic of the ratchet tree.**  The children of a node lie on its two
sides and have it as their parent, the sibling is another node and its sibling the first
one, the subtree of a node is what it is above, and the direct path of a node is its
ancestors from the parent to the root. -/
theorem tree_index_laws (hd : d ≤ 29) :
    (∀ x < tWidth (2 ^ d), 0 < tLevel x → tParent (tLeft x) = x ∧ tParent (tRight x) = x ∧
      tLeft x < x ∧ x < tRight x ∧ tRight x < tWidth (2 ^ d)) ∧
    (∀ x < tWidth (2 ^ d), x ≠ tRoot (2 ^ d) → tSibling x < tWidth (2 ^ d) ∧
      tSibling x ≠ tRoot (2 ^ d) ∧ tSibling x ≠ x ∧ tSibling (tSibling x) = x) ∧
    (∀ top < tWidth (2 ^ d), ∀ x < tWidth (2 ^ d),
      (tInSubtree top x = true ↔ Above (2 ^ d) top x)) ∧
    ∀ x < tWidth (2 ^ d), ∃ n, tParent^[n] x = tRoot (2 ^ d) ∧
      (∀ m < n, tParent^[m] x ≠ tRoot (2 ^ d)) ∧
      tDirectPath x (2 ^ d) = (List.range n).map fun i => tParent^[i + 1] x := by
  rw [tWidth_two_pow]
  refine ⟨?_, ?_, ?_, ?_⟩
  · intro x hx hlevel
    obtain ⟨k, j, hin, rfl⟩ := exists_inside hx
    have hk := hin.1
    rw [tLevel_node (by omega)] at hlevel
    obtain ⟨k, rfl⟩ : ∃ e, k = e + 1 := ⟨k - 1, by omega⟩
    have hleft := node_left k j
    have hright := node_right k j
    have hpos := Nat.two_pow_pos k
    have hinside : Inside d k (2 * j + 1) := by
      refine ⟨by omega, ?_⟩
      have hj := hin.2
      rw [show d - k = (d - (k + 1)) + 1 by omega, Nat.pow_succ]
      omega
    have hlast := node_lt hinside
    rw [tLeft_node (by omega), tRight_node (by omega), tParent_node (by omega),
      tParent_node (by omega), Nat.mul_div_cancel_left j (by decide),
      show (2 * j + 1) / 2 = j by omega]
    exact ⟨rfl, rfl, by omega, by omega, hlast⟩
  · intro x hx hne
    obtain ⟨k, j, hin, rfl⟩ := exists_inside hx
    obtain ⟨i, hini, hij, hsib, hback⟩ := tSibling_inside (by omega) hin hne
    rw [hsib, hback]
    refine ⟨node_lt hini, ?_, fun heq => hij (node_injective heq).2, rfl⟩
    rw [tRoot_two_pow (by omega)]
    intro heq
    obtain ⟨rfl, rfl⟩ := node_injective heq
    obtain rfl : j = 0 := by simpa using hin.2
    exact hij rfl
  · intro top htop x hx
    obtain ⟨k, j, hin, rfl⟩ := exists_inside htop
    obtain ⟨k', j', hin', rfl⟩ := exists_inside hx
    have hk := hin.1
    rw [tInSubtree_nodes (by omega), above_iff (by omega) hin' hk]
  · intro x hx
    obtain ⟨k, j, hin, rfl⟩ := exists_inside hx
    obtain ⟨hroot, hbefore⟩ := tParent_root (by omega) hin
    exact ⟨d - k, hroot, hbefore, directLoop_iterate (show d - k ≤ 32 by omega) hroot hbefore⟩

/-- The third leaf of four. -/
theorem sibling_of_third_leaf : tSibling 4 ≠ 4 ∧ tSibling (tSibling 4) = 4 := by
  have h := (tree_index_laws (d := 2) (by decide)).2.1 4 (by decide) (by decide)
  exact ⟨h.2.2.1, h.2.2.2⟩

end Mls
