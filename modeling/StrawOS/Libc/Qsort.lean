import StrawOS.Lib.Buf
import Mathlib.Data.List.Perm.Basic
import Mathlib.Data.List.Nodup

/-!
# Sorting

`qsort` is a quicksort whose pivot stays in the array while the two scans move towards each
other; a pointer follows it through the swaps.  Nothing but the elements stops a scan.  In the
first round it is the pivot, and later the elements of the last swap, one on each side.

The pivot is not the first element, so the part in front of the split is not empty even when
nothing is swapped, and the two halves are both smaller than the array.

An access outside the part that a call is given has no result, and neither has a scan that
goes below index zero or a split behind the part, whose length would wrap around.
-/

namespace Libc

/-- A comparison function whose answers are those of a total preorder. -/
structure Comparator (α : Type*) where
  compar : α → α → Int
  swap : ∀ a b, compar a b < 0 ↔ 0 < compar b a
  trans : ∀ a b c, compar a b ≤ 0 → compar b c ≤ 0 → compar a c ≤ 0

namespace Comparator

variable {α : Type*} (c : Comparator α)

/-- The order behind a comparison function. -/
def Le (a b : α) : Prop := c.compar a b ≤ 0

theorem le_refl (a : α) : c.Le a a := by
  have hself := c.swap a a
  unfold Le
  omega

theorem le_of_not_gt {a b : α} (h : ¬0 < c.compar a b) : c.Le a b := Int.not_lt.mp h

theorem le_of_not_lt {a b : α} (h : ¬c.compar a b < 0) : c.Le b a := by
  rw [c.swap] at h
  exact c.le_of_not_gt h

theorem le_of_lt {a b : α} (h : c.compar a b < 0) : c.Le a b := Int.le_of_lt h

theorem le_of_gt {a b : α} (h : 0 < c.compar a b) : c.Le b a := c.le_of_lt ((c.swap b a).mpr h)

theorem not_lt_of_le {a b : α} (h : c.Le b a) : ¬c.compar a b < 0 := by
  rw [c.swap]
  exact Int.not_lt.mpr h

theorem not_gt_of_le {a b : α} (h : c.Le a b) : ¬0 < c.compar a b := Int.not_lt.mpr h

end Comparator

/-! ## The functions -/

def swapBytes (mem : Nat → UInt8) (a b : Nat) : Nat → Nat → UInt8
  | 0 => mem
  | size + 1 =>
      swapBytes (Function.update (Function.update mem a (mem b)) b (mem a)) (a + 1) (b + 1) size

/-- An element. -/
def item (mem : Nat → UInt8) (base size k : Nat) : List UInt8 :=
  Buf.read mem (base + k * size) size

section Quicksort

variable (c : Comparator (List UInt8))

/-- The scan from below, on `nmemb` elements at `base` with the pivot at the index `p`. -/
def scanUp (mem : Nat → UInt8) (base nmemb size p i : Nat) : Option Nat :=
  if i < nmemb ∧ p < nmemb then
    if c.compar (item mem base size i) (item mem base size p) < 0 then
      scanUp mem base nmemb size p (i + 1)
    else some i
  else none
termination_by nmemb - i

/-- The scan from above. -/
def scanDown (mem : Nat → UInt8) (base nmemb size p : Nat) : Nat → Option Nat
  | 0 =>
      if 0 < nmemb ∧ p < nmemb then
        if 0 < c.compar (item mem base size 0) (item mem base size p) then none else some 0
      else none
  | j + 1 =>
      if j + 1 < nmemb ∧ p < nmemb then
        if 0 < c.compar (item mem base size (j + 1)) (item mem base size p) then
          scanDown mem base nmemb size p j
        else some (j + 1)
      else none

/-- The loop of `quicksort`, with the memory and the split it ends at. -/
def splitLoop (base nmemb size : Nat) :
    Nat → (Nat → UInt8) → Nat → Nat → Nat → Option ((Nat → UInt8) × Nat)
  | 0, _, _, _, _ => none
  | fuel + 1, mem, p, i, j =>
      match scanUp c mem base nmemb size p i, scanDown c mem base nmemb size p j with
      | some i, some j =>
          if j ≤ i then some (mem, i)
          else
            splitLoop base nmemb size fuel
              (swapBytes mem (base + i * size) (base + j * size) size)
              (if p = i then j else if p = j then i else p) (i + 1) (if 0 < j then j - 1 else j)
      | _, _ => none

def quicksort (size : Nat) : Nat → (Nat → UInt8) → Nat → Nat → Option (Nat → UInt8)
  | 0, _, _, _ => none
  | fuel + 1, mem, base, nmemb =>
      if nmemb < 2 then some mem
      else
        match splitLoop c base nmemb size nmemb mem (nmemb / 2) 0 (nmemb - 1) with
        | none => none
        | some (mem, i) =>
            if nmemb < i then none
            else
              match quicksort size fuel mem base i with
              | none => none
              | some mem => quicksort size fuel mem (base + i * size) (nmemb - i)

/-- `qsort`; `none` is the null pointer. -/
def qsort (mem : Nat → UInt8) (base : Option Nat) (nmemb size : Nat) : Option (Nat → UInt8) :=
  match base with
  | none => some mem
  | some base =>
      if nmemb < 2 ∨ size = 0 then some mem else quicksort c size (nmemb + 1) mem base nmemb

end Quicksort

/-! ## Elements -/

variable {mem mem' : Nat → UInt8} {base size : Nat}

/-- The elements of an array, in order. -/
def items (mem : Nat → UInt8) (base nmemb size : Nat) : List (List UInt8) :=
  (List.range nmemb).map (item mem base size)

theorem swapBytes_apply {a b n : Nat} (hapart : a + n ≤ b ∨ b + n ≤ a) (x : Nat) :
    swapBytes mem a b n x =
      if a ≤ x ∧ x < a + n then mem (x - a + b)
      else if b ≤ x ∧ x < b + n then mem (x - b + a)
      else mem x := by
  induction n generalizing mem a b with
  | zero =>
    rw [if_neg (by omega), if_neg (by omega)]
    rfl
  | succ n ih =>
    rw [swapBytes, ih (by omega)]
    simp only [Function.update_apply]
    by_cases hfront : a + 1 ≤ x ∧ x < a + 1 + n
    · have hindex : x - (a + 1) + (b + 1) = x - a + b := by omega
      rw [if_pos hfront, hindex, if_neg (by omega), if_neg (by omega), if_pos (by omega)]
    · grind

theorem items_apart {i j : Nat} (h : i < j) : base + i * size + size ≤ base + j * size := by
  have hmul : (i + 1) * size ≤ j * size := Nat.mul_le_mul_right size h
  rw [Nat.add_mul, Nat.one_mul] at hmul
  omega

theorem item_swapBytes {i j : Nat} (hij : i < j) (k : Nat) :
    item (swapBytes mem (base + i * size) (base + j * size) size) base size k =
      item mem base size (Equiv.swap i j k) := by
  have hapart := @items_apart base size i j hij
  apply List.map_congr_left
  intro t ht
  have ht := List.mem_range.mp ht
  rw [swapBytes_apply (.inl hapart)]
  obtain rfl | hki := eq_or_ne k i
  · rw [Equiv.swap_apply_left, if_pos (by omega)]
    congr 1
    omega
  · have hi : base + k * size + size ≤ base + i * size ∨
        base + i * size + size ≤ base + k * size := by
      rcases Nat.lt_or_gt_of_ne hki with hlt | hgt
      · exact .inl (items_apart hlt)
      · exact .inr (items_apart hgt)
    rw [if_neg (by omega)]
    obtain rfl | hkj := eq_or_ne k j
    · rw [Equiv.swap_apply_right, if_pos (by omega)]
      congr 1
      omega
    · have hj : base + k * size + size ≤ base + j * size ∨
          base + j * size + size ≤ base + k * size := by
        rcases Nat.lt_or_gt_of_ne hkj with hlt | hgt
        · exact .inl (items_apart hlt)
        · exact .inr (items_apart hgt)
      rw [if_neg (by omega), Equiv.swap_apply_of_ne_of_ne hki hkj]

theorem frame_swapBytes {i j nmemb : Nat} (hij : i < j) (hj : j < nmemb) {x : Nat}
    (hx : x < base ∨ base + nmemb * size ≤ x) :
    swapBytes mem (base + i * size) (base + j * size) size x = mem x := by
  have hapart := @items_apart base size i j hij
  have hlast := @items_apart base size j nmemb hj
  rw [swapBytes_apply (.inl hapart), if_neg (by omega), if_neg (by omega)]

theorem items_swapBytes {i j nmemb : Nat} (hij : i < j) (hj : j < nmemb) :
    (items (swapBytes mem (base + i * size) (base + j * size) size) base nmemb size).Perm
      (items mem base nmemb size) := by
  have hmap : items (swapBytes mem (base + i * size) (base + j * size) size) base nmemb size =
      ((List.range nmemb).map (Equiv.swap i j)).map (item mem base size) := by
    rw [List.map_map]
    exact List.map_congr_left fun k _ => item_swapBytes hij k
  rw [hmap]
  apply List.Perm.map
  apply (List.perm_ext_iff_of_nodup
    (List.nodup_range.map (Equiv.swap i j).injective) List.nodup_range).mpr
  intro k
  have hswap : ∀ a, a < nmemb → Equiv.swap i j a < nmemb := by
    intro a ha
    rw [Equiv.swap_apply_def]
    split_ifs <;> omega
  constructor
  · grind
  · grind

theorem items_add (mem : Nat → UInt8) (base m n size : Nat) :
    items mem base (m + n) size = items mem base m size ++ items mem (base + m * size) n size := by
  rw [items, List.range_add, List.map_append, List.map_map]
  congr 1
  apply List.map_congr_left
  intro k _
  change Buf.read mem (base + (m + k) * size) size = Buf.read mem (base + m * size + k * size) size
  rw [Nat.add_mul, Nat.add_assoc]

/-- What holds of every element holds of every element of a rearrangement. -/
theorem forall_item_of_perm {nmemb : Nat} {P : List UInt8 → Prop}
    (hperm : (items mem' base nmemb size).Perm (items mem base nmemb size))
    (h : ∀ k, k < nmemb → P (item mem base size k)) :
    ∀ k, k < nmemb → P (item mem' base size k) := by
  intro k hk
  have hmem : item mem' base size k ∈ items mem base nmemb size :=
    hperm.mem_iff.mp (List.mem_map.mpr ⟨k, List.mem_range.mpr hk, rfl⟩)
  obtain ⟨k', hk', heq⟩ := List.mem_map.mp hmem
  rw [← heq]
  exact h k' (List.mem_range.mp hk')

theorem items_congr {nmemb : Nat}
    (h : ∀ x, base ≤ x → x < base + nmemb * size → mem' x = mem x) :
    items mem' base nmemb size = items mem base nmemb size := by
  apply List.map_congr_left
  intro k hk
  have hlast := @items_apart base size k nmemb (List.mem_range.mp hk)
  apply Buf.read_congr
  intro t ht
  exact h _ (by omega) (by omega)

/-! ## The scans -/

variable {c : Comparator (List UInt8)} {nmemb p i j : Nat}

/-- **The scan from below** ends at an element that is not below the pivot, if there is one. -/
theorem scanUp_spec (hp : p < nmemb) {u : Nat} (hiu : i ≤ u) (hu : u < nmemb)
    (hstop : c.Le (item mem base size p) (item mem base size u)) :
    ∃ i', scanUp c mem base nmemb size p i = some i' ∧ i ≤ i' ∧ i' ≤ u ∧
      c.Le (item mem base size p) (item mem base size i') ∧
      ∀ k, i ≤ k → k < i' → c.Le (item mem base size k) (item mem base size p) := by
  induction hd : u - i generalizing i with
  | zero =>
    obtain rfl : i = u := by omega
    refine ⟨i, ?_, Nat.le_refl i, Nat.le_refl i, hstop, fun k hik hk => by omega⟩
    rw [scanUp, if_pos ⟨hu, hp⟩, if_neg (c.not_lt_of_le hstop)]
  | succ d ih =>
    rw [scanUp, if_pos ⟨by omega, hp⟩]
    by_cases hlt : c.compar (item mem base size i) (item mem base size p) < 0
    · rw [if_pos hlt]
      obtain ⟨i', hscan, hle, hmax, hge, hall⟩ := @ih (i + 1) (by omega) (by omega)
      refine ⟨i', hscan, by omega, hmax, hge, fun k hik hk => ?_⟩
      obtain rfl | hik' := Nat.eq_or_lt_of_le hik
      · exact c.le_of_lt hlt
      · exact hall k hik' hk
    · rw [if_neg hlt]
      exact ⟨i, rfl, Nat.le_refl i, hiu, c.le_of_not_lt hlt, fun k hik hk => by omega⟩

/-- **The scan from above** ends at an element that is not above the pivot, if there is one. -/
theorem scanDown_spec (hp : p < nmemb) (hj : j < nmemb) {d : Nat} (hdj : d ≤ j)
    (hstop : c.Le (item mem base size d) (item mem base size p)) :
    ∃ j', scanDown c mem base nmemb size p j = some j' ∧ d ≤ j' ∧ j' ≤ j ∧
      c.Le (item mem base size j') (item mem base size p) ∧
      ∀ k, j' < k → k ≤ j → c.Le (item mem base size p) (item mem base size k) := by
  induction j with
  | zero =>
    obtain rfl : d = 0 := by omega
    refine ⟨0, ?_, Nat.le_refl 0, Nat.le_refl 0, hstop, fun k hjk hk => by omega⟩
    rw [scanDown, if_pos ⟨hj, hp⟩, if_neg (c.not_gt_of_le hstop)]
  | succ j ih =>
    rw [scanDown, if_pos ⟨hj, hp⟩]
    by_cases hgt : 0 < c.compar (item mem base size (j + 1)) (item mem base size p)
    · rw [if_pos hgt]
      have hne : d ≠ j + 1 := by
        rintro rfl
        exact c.not_gt_of_le hstop hgt
      obtain ⟨j', hscan, hmin, hle, hge, hall⟩ := ih (by omega) (by omega)
      refine ⟨j', hscan, hmin, by omega, hge, fun k hjk hk => ?_⟩
      obtain rfl | hk' := Nat.eq_or_lt_of_le hk
      · exact c.le_of_gt hgt
      · exact hall k hjk (by omega)
    · rw [if_neg hgt]
      exact ⟨j + 1, rfl, hdj, Nat.le_refl _, c.le_of_not_gt hgt, fun k hjk hk => by omega⟩

/-! ## The split -/

/-- The memory differs from an earlier one by a rearrangement of the elements of an array. -/
structure Rearranged (base nmemb size : Nat) (mem mem' : Nat → UInt8) : Prop where
  perm : (items mem' base nmemb size).Perm (items mem base nmemb size)
  frame : ∀ x, x < base ∨ base + nmemb * size ≤ x → mem' x = mem x

theorem Rearranged.rfl : Rearranged base nmemb size mem mem := ⟨.refl _, fun _ _ => Eq.refl _⟩

theorem Rearranged.trans {mem₁ mem₂ : Nat → UInt8} (h : Rearranged base nmemb size mem mem₁)
    (h' : Rearranged base nmemb size mem₁ mem₂) : Rearranged base nmemb size mem mem₂ :=
  ⟨h'.perm.trans h.perm, fun x hx => (h'.frame x hx).trans (h.frame x hx)⟩

/-- Where the scans stand: what is behind them is on its side of the pivot, and on both sides
there is an element that stops them. -/
structure Splitting (c : Comparator (List UInt8)) (mem : Nat → UInt8) (base nmemb size : Nat)
    (pivot : List UInt8) (p i j : Nat) : Prop where
  pivot_lt : p < nmemb
  pivot_eq : item mem base size p = pivot
  last : j < nmemb
  low : ∀ k, k < i → c.Le (item mem base size k) pivot
  high : ∀ k, j < k → k < nmemb → c.Le pivot (item mem base size k)
  up : ∃ u, i ≤ u ∧ u < nmemb ∧ c.Le pivot (item mem base size u)
  down : ∃ d, d ≤ j ∧ c.Le (item mem base size d) pivot
  start : 0 < i ∨ (0 < p ∧ p ≤ j)

/-- A split: both parts are there, and the pivot is between them. -/
structure Split (c : Comparator (List UInt8)) (mem : Nat → UInt8) (base nmemb size : Nat)
    (pivot : List UInt8) (i : Nat) : Prop where
  front : 0 < i
  back : i < nmemb
  low : ∀ k, k < i → c.Le (item mem base size k) pivot
  high : ∀ k, i ≤ k → k < nmemb → c.Le pivot (item mem base size k)

/-- **A swap** of the elements at which the scans ended. -/
theorem Splitting.swap {pivot : List UInt8} (h : Splitting c mem base nmemb size pivot p i j)
    (hij : i < j) (hup : c.Le pivot (item mem base size i))
    (hdown : c.Le (item mem base size j) pivot) :
    Splitting c (swapBytes mem (base + i * size) (base + j * size) size) base nmemb size pivot
      (if p = i then j else if p = j then i else p) (i + 1) (j - 1) := by
  have hitem := @item_swapBytes mem base size i j hij
  have hleft : item (swapBytes mem (base + i * size) (base + j * size) size) base size i =
      item mem base size j := by rw [hitem, Equiv.swap_apply_left]
  have hright : item (swapBytes mem (base + i * size) (base + j * size) size) base size j =
      item mem base size i := by rw [hitem, Equiv.swap_apply_right]
  have hother : ∀ k, k ≠ i → k ≠ j →
      item (swapBytes mem (base + i * size) (base + j * size) size) base size k =
        item mem base size k := fun k hi hj => by rw [hitem, Equiv.swap_apply_of_ne_of_ne hi hj]
  have hlast := h.last
  have hplt := h.pivot_lt
  refine ⟨by split_ifs <;> omega, ?_, by omega, ?_, ?_, ⟨j, hij, hlast, ?_⟩, ⟨i, by omega, ?_⟩,
    .inl (Nat.succ_pos i)⟩
  · rw [← h.pivot_eq]
    split_ifs with hpi hpj
    · rw [hright, hpi]
    · rw [hleft, hpj]
    · exact hother p hpi hpj
  · intro k hk
    obtain rfl | hki := eq_or_ne k i
    · rwa [hleft]
    · rw [hother k hki (by omega)]
      exact h.low k (by omega)
  · intro k hjk hk
    obtain rfl | hkj := eq_or_ne k j
    · rwa [hright]
    · rw [hother k (by omega) hkj]
      exact h.high k (by omega) hk
  · rwa [hright]
  · rwa [hleft]

/-- **The loop** ends in a split. -/
theorem splitLoop_spec {pivot : List UInt8} {fuel : Nat}
    (h : Splitting c mem base nmemb size pivot p i j) (hfuel : j - i < fuel) :
    ∃ mem' i', splitLoop c base nmemb size fuel mem p i j = some (mem', i') ∧
      Rearranged base nmemb size mem mem' ∧ Split c mem' base nmemb size pivot i' := by
  induction fuel generalizing mem p i j with
  | zero => omega
  | succ fuel ih =>
    obtain ⟨u, hiu, hu, hstopUp⟩ := h.up
    obtain ⟨d, hdj, hstopDown⟩ := h.down
    have hpivot := h.pivot_eq
    rw [← hpivot] at hstopUp hstopDown
    obtain ⟨i', hscanUp, hii, hiu', hup, hbelow⟩ := scanUp_spec h.pivot_lt hiu hu hstopUp
    obtain ⟨j', hscanDown, hdj', hjj, hdown, habove⟩ :=
      scanDown_spec h.pivot_lt h.last hdj hstopDown
    rw [hpivot] at hup hbelow hdown habove
    have hlow : ∀ k, k < i' → c.Le (item mem base size k) pivot := by
      intro k hk
      obtain hlt | hge := Nat.lt_or_ge k i
      · exact h.low k hlt
      · exact hbelow k hge hk
    have hhigh : ∀ k, j' < k → k < nmemb → c.Le pivot (item mem base size k) := by
      intro k hjk hk
      obtain hgt | hle := Nat.lt_or_ge j k
      · exact h.high k hgt hk
      · exact habove k hjk hle
    have hlast := h.last
    have hstart : 0 < i' ∨ (0 < p ∧ p ≤ j') := by
      obtain hpos | ⟨hpos, hpj⟩ := h.start
      · exact .inl (by omega)
      · -- the pivot itself stops the scan from above
        obtain ⟨j'', hscan, hpj'', _⟩ :=
          scanDown_spec h.pivot_lt h.last hpj (c.le_refl (item mem base size p))
        rw [hscanDown] at hscan
        obtain rfl := Option.some.inj hscan
        exact .inr ⟨hpos, hpj''⟩
    simp only [splitLoop, hscanUp, hscanDown]
    by_cases hmet : j' ≤ i'
    · rw [if_pos hmet]
      refine ⟨mem, i', rfl, .rfl, by omega, by omega, hlow, ?_⟩
      intro k hik hk
      obtain rfl | hlt := Nat.eq_or_lt_of_le hik
      · exact hup
      · exact hhigh k (by omega) hk
    · have hj : 0 < j' := by omega
      rw [if_neg hmet, if_pos hj]
      have hnow : Splitting c mem base nmemb size pivot p i' j' :=
        ⟨h.pivot_lt, hpivot, by omega, hlow, hhigh, ⟨u, hiu', hu, hpivot ▸ hstopUp⟩,
          ⟨d, hdj', hpivot ▸ hstopDown⟩, hstart⟩
      have hswap := hnow.swap (by omega) hup hdown
      obtain ⟨mem', i'', hloop, hre, hsplit⟩ := ih hswap (by omega)
      exact ⟨mem', i'', hloop, .trans ⟨items_swapBytes (by omega) (by omega),
        fun x hx => frame_swapBytes (by omega) (by omega) hx⟩ hre, hsplit⟩

/-! ## The sort -/

/-- The elements of an array are in order. -/
def Sorted (c : Comparator (List UInt8)) (mem : Nat → UInt8) (base nmemb size : Nat) : Prop :=
  ∀ a b, a < b → b < nmemb → c.Le (item mem base size a) (item mem base size b)

theorem item_back (mem : Nat → UInt8) (base size i k : Nat) :
    item mem (base + i * size) size k = item mem base size (i + k) := by
  rw [item, item, Nat.add_mul, Nat.add_assoc]

/-- **The two parts**, each sorted, make a sorted array. -/
theorem Split.sorted {mem₁ mem₂ mem₃ : Nat → UInt8} {pivot : List UInt8}
    (h : Split c mem₁ base nmemb size pivot i)
    (hfront : Rearranged base i size mem₁ mem₂)
    (hback : Rearranged (base + i * size) (nmemb - i) size mem₂ mem₃)
    (hsortedFront : Sorted c mem₂ base i size)
    (hsortedBack : Sorted c mem₃ (base + i * size) (nmemb - i) size) :
    Rearranged base nmemb size mem₁ mem₃ ∧ Sorted c mem₃ base nmemb size := by
  have hi := h.back
  have hmul : i * size + (nmemb - i) * size = nmemb * size := by
    rw [← Nat.add_mul]
    congr 1
    omega
  -- neither call touches the other part
  have hkeepFront : ∀ k, k < i → item mem₃ base size k = item mem₂ base size k := by
    intro k hk
    have hlast := @items_apart base size k i hk
    apply Buf.read_congr
    intro t ht
    exact hback.frame _ (.inl (by omega))
  have hkeepBack : items mem₂ (base + i * size) (nmemb - i) size =
      items mem₁ (base + i * size) (nmemb - i) size :=
    items_congr fun x hx _ => hfront.frame x (.inr hx)
  have hsplit : ∀ m, items m base nmemb size =
      items m base i size ++ items m (base + i * size) (nmemb - i) size := by
    intro m
    rw [← items_add, Nat.add_sub_cancel' (Nat.le_of_lt hi)]
  have hfrontEq : items mem₃ base i size = items mem₂ base i size :=
    List.map_congr_left fun k hk => hkeepFront k (List.mem_range.mp hk)
  have hlow : ∀ k, k < i → c.Le (item mem₂ base size k) pivot :=
    forall_item_of_perm (P := fun x => c.Le x pivot) hfront.perm h.low
  have hhigh : ∀ k, k < nmemb - i → c.Le pivot (item mem₃ (base + i * size) size k) := by
    have hperm := hback.perm
    rw [hkeepBack] at hperm
    apply forall_item_of_perm (P := fun x => c.Le pivot x) hperm
    intro k hk
    rw [item_back]
    exact h.high _ (Nat.le_add_right i k) (by omega)
  refine ⟨⟨?_, ?_⟩, ?_⟩
  · rw [hsplit mem₃, hsplit mem₁, hfrontEq, ← hkeepBack]
    exact hfront.perm.append hback.perm
  · intro x hx
    rw [hback.frame x (by omega), hfront.frame x (by omega)]
  · intro a b hab hb
    obtain hbi | hbi := Nat.lt_or_ge b i
    · rw [hkeepFront a (by omega), hkeepFront b hbi]
      exact hsortedFront a b hab hbi
    · have hbback : item mem₃ base size b = item mem₃ (base + i * size) size (b - i) := by
        rw [item_back, Nat.add_sub_cancel' hbi]
      obtain hai | hai := Nat.lt_or_ge a i
      · rw [hkeepFront a hai, hbback]
        exact c.trans _ _ _ (hlow a hai) (hhigh (b - i) (by omega))
      · have haback : item mem₃ base size a = item mem₃ (base + i * size) size (a - i) := by
          rw [item_back, Nat.add_sub_cancel' hai]
        rw [haback, hbback]
        exact hsortedBack (a - i) (b - i) (by omega) (by omega)

theorem splitting_start (c : Comparator (List UInt8)) (mem : Nat → UInt8) (base size : Nat)
    (hn : 2 ≤ nmemb) :
    Splitting c mem base nmemb size (item mem base size (nmemb / 2)) (nmemb / 2) 0 (nmemb - 1) := by
  have hp : nmemb / 2 < nmemb := Nat.div_lt_self (by omega) (by omega)
  refine ⟨hp, rfl, by omega, fun k hk => by omega, fun k hjk hk => by omega,
    ⟨nmemb / 2, Nat.zero_le _, hp, c.le_refl _⟩, ⟨nmemb / 2, by omega, c.le_refl _⟩,
    .inr ⟨by omega, by omega⟩⟩

/-- **`quicksort`** ends and sorts its part. -/
theorem quicksort_spec (c : Comparator (List UInt8)) (size : Nat) {fuel : Nat}
    (hfuel : nmemb < fuel) :
    ∃ mem', quicksort c size fuel mem base nmemb = some mem' ∧
      Rearranged base nmemb size mem mem' ∧ Sorted c mem' base nmemb size := by
  induction fuel generalizing mem base nmemb with
  | zero => omega
  | succ fuel ih =>
    rw [quicksort]
    by_cases hsmall : nmemb < 2
    · rw [if_pos hsmall]
      exact ⟨mem, rfl, .rfl, fun a b hab hb => by omega⟩
    · rw [if_neg hsmall]
      have hrounds : nmemb - 1 - 0 < nmemb := by omega
      obtain ⟨mem₁, i, hloop, hre, hsplit⟩ :=
        splitLoop_spec (splitting_start c mem base size (by omega)) hrounds
      have hfront := hsplit.front
      have hback := hsplit.back
      obtain ⟨mem₂, hcall₂, hre₂, hsorted₂⟩ := @ih mem₁ base i (by omega)
      obtain ⟨mem₃, hcall₃, hre₃, hsorted₃⟩ := @ih mem₂ (base + i * size) (nmemb - i) (by omega)
      obtain ⟨hall, hsorted⟩ := hsplit.sorted hre₂ hre₃ hsorted₂ hsorted₃
      simp only [hloop, hcall₂, hcall₃, if_neg (Nat.not_lt.mpr (Nat.le_of_lt hback))]
      exact ⟨mem₃, rfl, hre.trans hall, hsorted⟩

/-- **`qsort`** ends for every array and every comparison function that is a total preorder,
touches no byte outside the array, and leaves a permutation of the elements in order. -/
theorem qsort_sorts (c : Comparator (List UInt8)) (mem : Nat → UInt8) (base nmemb size : Nat) :
    ∃ mem', qsort c mem (some base) nmemb size = some mem' ∧
      (items mem' base nmemb size).Perm (items mem base nmemb size) ∧
      (items mem' base nmemb size).Pairwise c.Le ∧
      ∀ x, x < base ∨ base + nmemb * size ≤ x → mem' x = mem x := by
  have hpairwise : ∀ m, Sorted c m base nmemb size → (items m base nmemb size).Pairwise c.Le := by
    intro m hsorted
    rw [items, List.pairwise_map]
    exact List.pairwise_lt_range.imp_of_mem fun ha hb hab =>
      hsorted _ _ hab (List.mem_range.mp hb)
  rw [qsort]
  by_cases hskip : nmemb < 2 ∨ size = 0
  · simp only [if_pos hskip]
    refine ⟨mem, rfl, .refl _, hpairwise mem ?_, fun x _ => rfl⟩
    intro a b hab hb
    obtain hsmall | rfl := hskip
    · omega
    · exact c.le_refl []
  · simp only [if_neg hskip]
    obtain ⟨mem', hcall, hre, hsorted⟩ := quicksort_spec c size (Nat.lt_succ_self nmemb)
    exact ⟨mem', hcall, hre.perm, hpairwise mem' hsorted, hre.frame⟩

end Libc
