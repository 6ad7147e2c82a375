import Mathlib.Data.Finset.Interval
import Mathlib.Order.Interval.Finset.Nat

/-!
# Bitmaps of cells

A bitmap says of each cell whether it is taken.  The cells below a bound that are
not taken form a finite set; filling a range of the bitmap takes the range out of
the set or puts it in.  `firstFit` is the linear search for a run of free cells.
-/

namespace Bitmap

variable {bits : Nat → Bool} {start n total : Nat}

/-- Give all cells of a range one value. -/
def fill (bits : Nat → Bool) (v : Bool) (start n : Nat) : Nat → Bool :=
  fun p => if start ≤ p ∧ p < start + n then v else bits p

/-- The free cells below a bound. -/
def free (bits : Nat → Bool) (total : Nat) : Finset Nat :=
  (Finset.range total).filter fun p => bits p = false

@[simp] theorem mem_free {p : Nat} : p ∈ free bits total ↔ p < total ∧ bits p = false := by
  simp [free]

@[simp] theorem fill_zero (bits : Nat → Bool) (v : Bool) (start : Nat) :
    fill bits v start 0 = bits := by
  funext p
  rw [fill, if_neg (by omega)]

theorem fill_succ (bits : Nat → Bool) (v : Bool) (start n : Nat) :
    fill bits v start (n + 1) = fill (Function.update bits start v) v (start + 1) n := by
  funext p
  simp only [fill, Function.update_apply]
  by_cases hp : p = start
  · subst hp
    rw [if_pos (by omega), if_neg (by omega), if_pos rfl]
  · grind

theorem free_fill_true (bits : Nat → Bool) (start n total : Nat) :
    free (fill bits true start n) total = free bits total \ Finset.Ico start (start + n) := by
  ext p
  simp only [mem_free, fill, Finset.mem_sdiff, Finset.mem_Ico]
  by_cases hr : start ≤ p ∧ p < start + n
  · simp [hr]
  · simp [hr]

theorem free_fill_false (hle : start + n ≤ total) :
    free (fill bits false start n) total = free bits total ∪ Finset.Ico start (start + n) := by
  ext p
  simp only [mem_free, fill, Finset.mem_union, Finset.mem_Ico]
  by_cases hr : start ≤ p ∧ p < start + n
  · simp only [hr, and_self, if_true, and_true, or_true, iff_true]
    omega
  · simp [hr]

theorem card_free_take (hfree : ∀ p, start ≤ p → p < start + n → p < total ∧ bits p = false) :
    (free (fill bits true start n) total).card + n = (free bits total).card := by
  have hsub : Finset.Ico start (start + n) ⊆ free bits total := by
    intro p hp
    rw [Finset.mem_Ico] at hp
    exact mem_free.mpr (hfree p hp.1 hp.2)
  have hcard := Finset.card_sdiff_add_card_eq_card hsub
  rw [Nat.card_Ico, Nat.add_sub_cancel_left] at hcard
  rw [free_fill_true]
  exact hcard

theorem card_free_give (htaken : ∀ p, start ≤ p → p < start + n → p < total ∧ bits p = true) :
    (free (fill bits false start n) total).card = (free bits total).card + n := by
  rcases Nat.eq_zero_or_pos n with rfl | hn
  · simp
  have hlast := (htaken (start + n - 1) (by omega) (by omega)).1
  have hdisj : Disjoint (free bits total) (Finset.Ico start (start + n)) := by
    rw [Finset.disjoint_left]
    intro p hp hr
    rw [Finset.mem_Ico] at hr
    have h1 := (mem_free.mp hp).2
    rw [(htaken p hr.1 hr.2).2] at h1
    simp at h1
  rw [free_fill_false (by omega), Finset.card_union_of_disjoint hdisj, Nat.card_Ico,
    Nat.add_sub_cancel_left]

/-! ## First fit -/

/-- The search from cell `i` on, with `len` free cells seen since `runStart`. -/
def scan (bits : Nat → Bool) (count : Nat) : (fuel i runStart len : Nat) → Option Nat
  | 0, _, _, _ => none
  | fuel + 1, i, runStart, len =>
      if bits i = false then
        let runStart := if len = 0 then i else runStart
        if len + 1 = count then some runStart else scan bits count fuel (i + 1) runStart (len + 1)
      else scan bits count fuel (i + 1) runStart 0

/-- The first run of `count` free cells below `total`. -/
def firstFit (bits : Nat → Bool) (count total : Nat) : Option Nat := scan bits count total 0 0 0

/-- The invariant of the search: the cells of the run seen so far are free. -/
theorem scan_spec {count fuel i runStart len s : Nat}
    (h : scan bits count fuel i runStart len = some s)
    (hrun : 0 < len → runStart + len = i ∧ ∀ p, runStart ≤ p → p < i → bits p = false) :
    0 < count ∧ s + count ≤ i + fuel ∧ ∀ p, s ≤ p → p < s + count → bits p = false := by
  induction fuel generalizing i runStart len with
  | zero => simp [scan] at h
  | succ fuel ih =>
    rw [scan] at h
    by_cases hbit : bits i = false
    · rw [if_pos hbit] at h
      dsimp only at h
      have hnext : (if len = 0 then i else runStart) + (len + 1) = i + 1 ∧
          ∀ p, (if len = 0 then i else runStart) ≤ p → p < i + 1 → bits p = false := by grind
      split at h
      · grind
      · obtain ⟨h1, h2, h3⟩ := ih h (fun _ => hnext)
        exact ⟨h1, by omega, h3⟩
    · grind

theorem firstFit_spec {count s : Nat} (h : firstFit bits count total = some s) :
    0 < count ∧ s + count ≤ total ∧ ∀ p, s ≤ p → p < s + count → bits p = false := by
  have hs := scan_spec h (by simp)
  rwa [Nat.zero_add] at hs

end Bitmap
