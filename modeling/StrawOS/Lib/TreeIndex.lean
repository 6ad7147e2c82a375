import Mathlib.Data.Nat.Bitwise
import Mathlib.Data.Nat.Log
import Mathlib.Tactic.Ring

/-!
# Complete binary trees in an array

The nodes of a complete binary tree in their order from left to right: leaves have
the even indices, and the node number `j` of level `k` is at `2 ^ (k + 1) * j +
2 ^ k - 1`, an index that ends in `k` ones.
-/

namespace TreeIndex

/-- The index of node `j` of level `k`. -/
def node (k j : Nat) : Nat := 2 ^ (k + 1) * j + (2 ^ k - 1)

/-- The number of ones at the end of an index, of at most `fuel` bits. -/
def levelLoop : Nat → Nat → Nat
  | 0, _ => 0
  | fuel + 1, x => if x % 2 = 1 then levelLoop fuel (x / 2) + 1 else 0

theorem node_zero (j : Nat) : node 0 j = 2 * j := by
  simp [node]

theorem node_succ (k j : Nat) : node (k + 1) j = 2 * node k j + 1 := by
  have hpos := Nat.two_pow_pos k
  simp only [node, Nat.pow_succ]
  ring_nf
  omega

theorem levelLoop_node {fuel k : Nat} (h : k ≤ fuel) (j : Nat) : levelLoop fuel (node k j) = k := by
  induction k generalizing fuel with
  | zero =>
    cases fuel with
    | zero => rfl
    | succ fuel => simp [levelLoop, node_zero]
  | succ k ih =>
    obtain ⟨fuel, rfl⟩ : ∃ f, fuel = f + 1 := ⟨fuel - 1, by omega⟩
    have hhalf : (2 * node k j + 1) / 2 = node k j := by omega
    have hodd : (2 * node k j + 1) % 2 = 1 := by omega
    rw [node_succ, levelLoop, if_pos hodd, hhalf, ih (by omega)]

theorem exists_node (x : Nat) : ∃ k j, x = node k j := by
  induction x using Nat.strongRecOn with
  | ind x ih =>
    rcases Nat.mod_two_eq_zero_or_one x with heven | hodd
    · exact ⟨0, x / 2, by rw [node_zero]; omega⟩
    · obtain ⟨k, j, hk⟩ := ih (x / 2) (by omega)
      exact ⟨k + 1, j, by rw [node_succ, ← hk]; omega⟩

theorem node_injective {k j k' j' : Nat} (h : node k j = node k' j') : k = k' ∧ j = j' := by
  have hk : k = k' := by
    have h1 := levelLoop_node (Nat.le_max_left k k') j
    have h2 := levelLoop_node (Nat.le_max_right k k') j'
    rw [h, h2] at h1
    exact h1.symm
  subst hk
  refine ⟨rfl, ?_⟩
  have hpos := Nat.two_pow_pos (k + 1)
  exact Nat.eq_of_mul_eq_mul_left hpos (Nat.add_right_cancel h)

theorem node_odd (k j : Nat) : node (k + 1) j % 2 = 1 := by
  rw [node_succ]
  omega

theorem node_left (k j : Nat) : node k (2 * j) + 2 ^ k = node (k + 1) j := by
  simp only [node, Nat.pow_succ]
  ring_nf
  omega

theorem node_right (k j : Nat) : node k (2 * j + 1) = node (k + 1) j + 2 ^ k := by
  simp only [node, Nat.pow_succ]
  ring_nf
  omega

/-- The low bits of an index: ones below the level and a zero at it. -/
theorem testBit_node_of_lt {k i : Nat} (h : i < k) (j : Nat) : (node k j).testBit i = true := by
  have hlt : 2 ^ k - 1 < 2 ^ (k + 1) := by
    have := Nat.two_pow_pos k
    omega
  rw [node, Nat.testBit_two_pow_mul_add _ hlt, if_pos (by omega), Nat.testBit_two_pow_sub_one]
  exact decide_eq_true h

theorem testBit_node_self (k j : Nat) : (node k j).testBit k = false := by
  have hlt : 2 ^ k - 1 < 2 ^ (k + 1) := by
    have := Nat.two_pow_pos k
    omega
  rw [node, Nat.testBit_two_pow_mul_add _ hlt, if_pos (by omega), Nat.testBit_two_pow_sub_one]
  simp

theorem testBit_node_of_gt {k i : Nat} (h : k < i) (j : Nat) :
    (node k j).testBit i = j.testBit (i - (k + 1)) := by
  have hlt : 2 ^ k - 1 < 2 ^ (k + 1) := by
    have := Nat.two_pow_pos k
    omega
  rw [node, Nat.testBit_two_pow_mul_add _ hlt, if_neg (by omega)]

/-- From a node to a child: the bit of its level is cleared, the one above tells which. -/
theorem xor_child (k j : Nat) {m : Nat} (hm : m = 1 ∨ m = 3) :
    node (k + 1) j ^^^ (m <<< k) = node k (2 * j + m / 2) := by
  apply Nat.eq_of_testBit_eq
  intro i
  rw [Nat.testBit_xor, Nat.testBit_shiftLeft]
  rcases Nat.lt_trichotomy i k with hlt | rfl | hgt
  · rw [testBit_node_of_lt (by omega), testBit_node_of_lt hlt]
    simp [Nat.not_le.mpr hlt]
  · rw [testBit_node_of_lt (by omega), testBit_node_self]
    rcases hm with rfl | rfl <;> simp
  · rw [testBit_node_of_gt hgt]
    by_cases heq : i = k + 1
    · subst heq
      rw [testBit_node_self]
      rcases hm with rfl | rfl <;> simp [Nat.testBit_zero] <;> decide
    · have hhigh : m.testBit (i - k) = false := by
        apply Nat.testBit_lt_two_pow
        calc m < 2 ^ 2 := by omega
          _ ≤ 2 ^ (i - k) := Nat.pow_le_pow_right (by decide) (by omega)
      have hhalf : (2 * j + m / 2) / 2 = j := by omega
      rw [testBit_node_of_gt (by omega), show i - (k + 1) = (i - (k + 1 + 1)) + 1 by omega,
        Nat.testBit_succ, hhalf, hhigh, Bool.and_false, Bool.xor_false]

theorem xor_left (k j : Nat) : node (k + 1) j ^^^ (1 <<< k) = node k (2 * j) :=
  xor_child k j (.inl rfl)

theorem xor_right (k j : Nat) : node (k + 1) j ^^^ (3 <<< k) = node k (2 * j + 1) :=
  xor_child k j (.inr rfl)

theorem or_xor_parent (k j : Nat) :
    (node k j ||| (1 <<< k)) ^^^ (((node k j >>> (k + 1)) &&& 1) <<< (k + 1)) =
      node (k + 1) (j / 2) := by
  have hbit : (node k j >>> (k + 1)) &&& 1 = j % 2 := by
    have hlt : 2 ^ k - 1 < 2 ^ (k + 1) := by
      have := Nat.two_pow_pos k
      omega
    rw [Nat.and_one_is_mod, Nat.shiftRight_eq_div_pow, node, Nat.mul_add_div (Nat.two_pow_pos _),
      Nat.div_eq_of_lt hlt, Nat.add_zero]
  have hone : ∀ m, (j % 2).testBit m = (decide (m = 0) && j.testBit 0) := by
    intro m
    have := Nat.testBit_mod_two_pow j 1 m
    rw [this]
    by_cases hm : m = 0
    · subst hm
      simp
    · simp [hm]
  apply Nat.eq_of_testBit_eq
  intro i
  rw [hbit, Nat.testBit_xor, Nat.testBit_or, Nat.one_shiftLeft, Nat.testBit_two_pow,
    Nat.testBit_shiftLeft, hone]
  rcases Nat.lt_trichotomy i k with hlt | rfl | hgt
  · rw [testBit_node_of_lt hlt, testBit_node_of_lt (by omega)]
    simp [show ¬ k + 1 ≤ i by omega]
  · rw [testBit_node_of_lt (Nat.lt_succ_self i)]
    simp
  · rw [testBit_node_of_gt hgt]
    by_cases heq : i = k + 1
    · subst heq
      rw [testBit_node_self]
      simp
    · rw [testBit_node_of_gt (by omega)]
      have hsub : i - (k + 1) = (i - (k + 1 + 1)) + 1 := by omega
      rw [hsub, Nat.testBit_succ]
      simp [Nat.ne_of_lt hgt]

/-- The range of a subtree holds the nodes at and below its top. -/
theorem node_span_iff (k j k' j' : Nat) :
    (node k j ≤ node k' j' + (2 ^ k - 1) ∧ node k' j' ≤ node k j + (2 ^ k - 1)) ↔
      k' ≤ k ∧ j' / 2 ^ (k - k') = j := by
  by_cases hk : k' ≤ k
  · obtain ⟨i, rfl⟩ := Nat.exists_eq_add_of_le hk
    have hp := Nat.two_pow_pos k'
    have hq := Nat.two_pow_pos i
    have htop : node (k' + i) j = 2 * (2 ^ k' * (j * 2 ^ i)) + (2 ^ k' * 2 ^ i - 1) := by
      rw [node, Nat.pow_succ, Nat.pow_add]
      ring_nf
    have hx : node k' j' = 2 * (2 ^ k' * j') + (2 ^ k' - 1) := by
      rw [node, Nat.pow_succ]
      ring_nf
    have hone : 2 ^ k' * 1 ≤ 2 ^ k' * 2 ^ i := Nat.mul_le_mul_left _ hq
    rw [Nat.add_sub_cancel_left, Nat.div_eq_iff hq, htop, hx, Nat.pow_add, and_iff_right hk]
    -- A node is on the side of a border between subtrees that its number is on.
    have hleft : ∀ m, j' < m → 2 * (2 ^ k' * j') + (2 ^ k' - 1) + 1 < 2 * (2 ^ k' * m) := by
      intro m hm
      have := Nat.mul_le_mul_left (2 ^ k') hm
      rw [Nat.mul_succ] at this
      omega
    have hright : ∀ m, m ≤ j' → 2 * (2 ^ k' * m) ≤ 2 * (2 ^ k' * j') + (2 ^ k' - 1) := by
      intro m hm
      have := Nat.mul_le_mul_left (2 ^ k') hm
      omega
    refine and_congr ?_ ?_
    · rcases Nat.lt_or_ge j' (j * 2 ^ i) with hlt | hge
      · have := hleft _ hlt
        omega
      · have := hright _ hge
        omega
    · rcases Nat.lt_or_ge j' (j * 2 ^ i + 2 ^ i) with hlt | hge
      · have := hleft _ hlt
        rw [Nat.mul_add] at this
        omega
      · have := hright _ hge
        rw [Nat.mul_add] at this
        omega
  · obtain ⟨i, rfl⟩ := Nat.exists_eq_add_of_lt (Nat.lt_of_not_le hk)
    have hx : node (k + i + 1) j' + 1 = 2 * (2 ^ k * (2 ^ i * (2 * j' + 1))) := by
      have := Nat.two_pow_pos (k + i + 1)
      rw [node, Nat.add_assoc, Nat.sub_add_cancel this]
      ring_nf
    have htop : node k j = 2 * (2 ^ k * j) + (2 ^ k - 1) := by
      rw [node, Nat.pow_succ]
      ring_nf
    generalize 2 ^ i * (2 * j' + 1) = n at hx
    rcases Nat.lt_or_ge j n with hlt | hge
    · have := Nat.mul_le_mul_left (2 ^ k) (show j + 1 ≤ n from hlt)
      rw [Nat.mul_add] at this
      omega
    · have := Nat.mul_le_mul_left (2 ^ k) hge
      omega

/-! ## A tree of depth `d` -/

/-- Node `j` of level `k` is in the tree of depth `d`. -/
def Inside (d k j : Nat) : Prop := k ≤ d ∧ j < 2 ^ (d - k)

instance (d k j : Nat) : Decidable (Inside d k j) :=
  inferInstanceAs (Decidable (k ≤ d ∧ j < 2 ^ (d - k)))

theorem Inside.mono {d d' k j : Nat} (h : Inside d k j) (hd : d ≤ d') : Inside d' k j :=
  ⟨h.1.trans hd, h.2.trans_le (Nat.pow_le_pow_right (by omega) (by omega))⟩

theorem node_lt {d k j : Nat} (h : Inside d k j) : node k j < 2 ^ (d + 1) - 1 := by
  obtain ⟨hk, hj⟩ := h
  have hpow : 2 ^ (k + 1) * 2 ^ (d - k) = 2 ^ (d + 1) := by
    rw [← Nat.pow_add]
    congr 1
    omega
  have hle : 2 ^ (k + 1) * (j + 1) ≤ 2 ^ (d + 1) := by
    rw [← hpow]
    exact Nat.mul_le_mul_left _ hj
  have hpos := Nat.two_pow_pos k
  simp only [node, Nat.mul_add, Nat.mul_one, Nat.pow_succ] at *
  omega

theorem exists_inside {d x : Nat} (h : x < 2 ^ (d + 1) - 1) : ∃ k j, Inside d k j ∧ x = node k j := by
  obtain ⟨k, j, rfl⟩ := exists_node x
  refine ⟨k, j, ⟨?_, ?_⟩, rfl⟩
  · by_contra hk
    have hpow : 2 ^ (d + 1) ≤ 2 ^ k := Nat.pow_le_pow_right (by omega) (by omega)
    simp only [node] at h
    omega
  · by_contra hj
    have hkd : k ≤ d := by
      by_contra hk
      have hpow : 2 ^ (d + 1) ≤ 2 ^ k := Nat.pow_le_pow_right (by omega) (by omega)
      simp only [node] at h
      omega
    have hpow : 2 ^ (k + 1) * 2 ^ (d - k) = 2 ^ (d + 1) := by
      rw [← Nat.pow_add]
      congr 1
      omega
    have hle : 2 ^ (d + 1) ≤ 2 ^ (k + 1) * j := by
      rw [← hpow]
      exact Nat.mul_le_mul_left _ (by omega)
    simp only [node] at h
    omega

theorem inside_ancestor {d k l : Nat} (hl : l < 2 ^ d) (hk : k ≤ d) : Inside d k (l / 2 ^ k) := by
  refine ⟨hk, ?_⟩
  rw [Nat.div_lt_iff_lt_mul (Nat.two_pow_pos k), ← Nat.pow_add]
  rwa [Nat.sub_add_cancel hk]

end TreeIndex
