import Mathlib.Data.UInt
import Mathlib.Tactic.Ring

/-!
# Serial numbers modulo `2 ^ 32`

Protocol counters are 32-bit words that wrap.  The word `base + ofNat k` stands
for position `k` of an unbounded stream that starts at `base`; the lemmas below
read the signed comparison of two such words as the comparison of the two
positions, as long as these are less than `2 ^ 31` apart.
-/

namespace SeqNum

open scoped UInt32.CommRing

/-- `(int32_t)(a - b) < 0`. -/
def lt (a b : UInt32) : Bool := decide ((2 : Nat) ^ 31 ≤ (a - b).toNat)

/-- `(int32_t)(a - b) <= 0`. -/
def le (a b : UInt32) : Bool :=
  decide ((2 : Nat) ^ 31 ≤ (a - b).toNat) || decide ((a - b).toNat = 0)

theorem lt_iff (a b : UInt32) : lt a b = true ↔ 2 ^ 31 ≤ (a - b).toNat := by
  simp [lt]

theorem le_iff (a b : UInt32) :
    le a b = true ↔ 2 ^ 31 ≤ (a - b).toNat ∨ (a - b).toNat = 0 := by
  simp [le]

theorem toNat_sub (a b : UInt32) :
    (a - b).toNat = (2 ^ 32 - b.toNat + a.toNat) % 2 ^ 32 := by
  simp [UInt32.toNat_sub]

theorem dist (base : UInt32) (i j : Nat) :
    ((base + .ofNat i) - (base + .ofNat j)).toNat = (2 ^ 32 - j % 2 ^ 32 + i) % 2 ^ 32 := by
  have h : (base + UInt32.ofNat i) - (base + UInt32.ofNat j) =
      UInt32.ofNat i - UInt32.ofNat j := by ring
  rw [h, UInt32.toNat_sub, UInt32.toNat_ofNat', UInt32.toNat_ofNat']
  omega

/-- The distance from an earlier position to a later one, short of a wrap. -/
theorem dist_of_le {base : UInt32} {i j : Nat} (hle : j ≤ i) (hlt : i - j < 2 ^ 32) :
    ((base + .ofNat i) - (base + .ofNat j)).toNat = i - j := by
  rw [dist]
  omega

/-- `lt` on words is `<` on positions. -/
theorem lt_pos {base : UInt32} {i j : Nat} (h1 : i < j + 2 ^ 31) (h2 : j ≤ i + 2 ^ 31) :
    lt (base + .ofNat i) (base + .ofNat j) = true ↔ i < j := by
  rw [lt_iff, dist]
  omega

/-- `le` on words is `≤` on positions. -/
theorem le_pos {base : UInt32} {i j : Nat} (h1 : i < j + 2 ^ 31) (h2 : j ≤ i + 2 ^ 31) :
    le (base + .ofNat i) (base + .ofNat j) = true ↔ i ≤ j := by
  rw [le_iff, dist]
  omega

/-- Positions less than `2 ^ 32` apart have different words. -/
theorem pos_inj {base : UInt32} {i j : Nat} (hi : i < j + 2 ^ 32) (hj : j < i + 2 ^ 32)
    (h : base + .ofNat i = base + .ofNat j) : i = j := by
  have h0 : ((base + .ofNat i) - (base + .ofNat j)).toNat = 0 := by simp [h]
  rw [dist] at h0
  omega

theorem pos_add (base : UInt32) (i j : Nat) :
    base + .ofNat i + .ofNat j = base + .ofNat (i + j) := by
  rw [UInt32.ofNat_add, add_assoc]

theorem pos_succ (base : UInt32) (i : Nat) :
    base + .ofNat i + 1 = base + .ofNat (i + 1) := by
  rw [UInt32.ofNat_add, ← add_assoc]
  rfl

/-! ## Spans

The span from `una` to `nxt` is the number of words from the first to the second,
going up. -/

theorem toNat_add_ofNat (a : UInt32) (n : Nat) :
    (a + .ofNat n).toNat = (a.toNat + n) % 2 ^ 32 := by
  rw [UInt32.toNat_add, UInt32.toNat_ofNat']
  omega

theorem toNat_sub_one {a : UInt32} (h : 0 < a.toNat) : (a - 1).toNat = a.toNat - 1 := by
  have ha := a.toNat_lt
  rw [toNat_sub, UInt32.toNat_one]
  omega

theorem span_add {una nxt : UInt32} {n : Nat} (h : (nxt - una).toNat + n < 2 ^ 32) :
    (nxt + .ofNat n - una).toNat = (nxt - una).toNat + n := by
  rw [toNat_sub] at h ⊢
  rw [toNat_sub, toNat_add_ofNat]
  omega

theorem span_succ {una nxt : UInt32} (h : (nxt - una).toNat + 1 < 2 ^ 32) :
    (nxt + 1 - una).toNat = (nxt - una).toNat + 1 :=
  span_add (n := 1) h

theorem add_span (una nxt : UInt32) : una + .ofNat (nxt - una).toNat = nxt := by
  rw [UInt32.ofNat_toNat]
  ring

theorem span_after {una ack nxt : UInt32} (h : (ack - una).toNat ≤ (nxt - una).toNat) :
    (nxt - ack).toNat = (nxt - una).toNat - (ack - una).toNat := by
  have ha := ack.toNat_lt
  rw [toNat_sub, toNat_sub] at h
  rw [toNat_sub, toNat_sub, toNat_sub]
  omega

theorem span_eq_zero {una nxt : UInt32} : (nxt - una).toNat = 0 ↔ una = nxt := by
  have hu := una.toNat_lt
  have hn := nxt.toNat_lt
  rw [toNat_sub, ← UInt32.toNat_inj]
  omega

/-- **The acceptance test.**  A word that passes both signed comparisons lies in
the span, with one exception: the word `2 ^ 31` above an empty span. -/
theorem ack_in_span {una ack nxt : UInt32} (h1 : lt una ack = true) (h2 : le ack nxt = true) :
    0 < (ack - una).toNat ∧ ((ack - una).toNat ≤ (nxt - una).toNat ∨
      (una = nxt ∧ ack = una + 2147483648)) := by
  have hu := una.toNat_lt
  have hn := nxt.toNat_lt
  have ha := ack.toNat_lt
  rw [lt_iff, toNat_sub] at h1
  rw [le_iff, toNat_sub] at h2
  rw [toNat_sub, toNat_sub, ← UInt32.toNat_inj, ← UInt32.toNat_inj, UInt32.toNat_add,
    show (2147483648 : UInt32).toNat = 2147483648 from rfl]
  omega

end SeqNum
