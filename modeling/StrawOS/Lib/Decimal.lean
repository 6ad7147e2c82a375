import Mathlib.Data.UInt

/-!
# Decimal numbers as text

The value of a string of decimal digits, leading zeros allowed, and the shortest string
of a number.  The number is the value of its string (`number_digits`).
-/

namespace Decimal

/-- A character between `'0'` and `'9'`. -/
def isDigit (c : UInt8) : Bool := decide (48 ≤ c.toNat) && decide (c.toNat ≤ 57)

/-- A number goes on with a digit. -/
def push (v : Nat) (c : UInt8) : Nat := v * 10 + (c.toNat - 48)

/-- What a number becomes with the digits of a string behind it. -/
def value (v : Nat) (text : List UInt8) : Nat := text.foldl push v

/-- A string that is a decimal number. -/
structure Number (text : List UInt8) (v : Nat) : Prop where
  nonempty : text ≠ []
  digits : ∀ c ∈ text, isDigit c = true
  value : value 0 text = v

/-- The digits of a number. -/
def digits (v : Nat) : List UInt8 :=
  if v < 10 then [.ofNat (48 + v)] else digits (v / 10) ++ [.ofNat (48 + v % 10)]
termination_by v

@[simp] theorem value_nil (v : Nat) : value v [] = v := rfl

@[simp] theorem value_cons (v : Nat) (c : UInt8) (text : List UInt8) :
    value v (c :: text) = value (push v c) text := by
  simp only [value, List.foldl_cons]

theorem value_append (v : Nat) (front rest : List UInt8) :
    value v (front ++ rest) = value (value v front) rest := by
  simp [value]

theorem le_value (v : Nat) (text : List UInt8) : v ≤ value v text := by
  induction text generalizing v with
  | nil => exact Nat.le_refl v
  | cons c text ih =>
    have hpush : v ≤ push v c := by
      unfold push
      omega
    exact hpush.trans (ih (push v c))

theorem toNat_digit {d : Nat} (h : d < 10) : (UInt8.ofNat (48 + d)).toNat = 48 + d := by
  rw [UInt8.toNat_ofNat']
  omega

theorem isDigit_digit {d : Nat} (h : d < 10) : isDigit (.ofNat (48 + d)) = true := by
  simp only [isDigit, toNat_digit h, Bool.and_eq_true, decide_eq_true_eq]
  omega

theorem push_digit {d : Nat} (h : d < 10) (v : Nat) : push v (.ofNat (48 + d)) = v * 10 + d := by
  rw [push, toNat_digit h]
  omega

/-- **The number is the value of its digits.** -/
theorem number_digits (v : Nat) : Number (digits v) v := by
  induction v using digits.induct with
  | case1 v h =>
    rw [digits, if_pos h]
    refine ⟨by simp, ?_, ?_⟩
    · intro c hc
      obtain rfl := List.mem_singleton.mp hc
      exact isDigit_digit h
    · rw [value_cons, push_digit h, value_nil, Nat.zero_mul, Nat.zero_add]
  | case2 v h ih =>
    have hlast : v % 10 < 10 := Nat.mod_lt _ (by omega)
    rw [digits, if_neg h]
    refine ⟨by simp, ?_, ?_⟩
    · intro c hc
      rcases List.mem_append.mp hc with hc | hc
      · exact ih.digits c hc
      · obtain rfl := List.mem_singleton.mp hc
        exact isDigit_digit hlast
    · rw [value_append, ih.value, value_cons, push_digit hlast, value_nil]
      omega

theorem length_digits {v k : Nat} (h : v < 10 ^ k) (hk : 0 < k) : (digits v).length ≤ k := by
  induction v using digits.induct generalizing k with
  | case1 v hlt =>
    rw [digits, if_pos hlt]
    exact hk
  | case2 v hge ih =>
    rw [digits, if_neg hge, List.length_append, List.length_singleton]
    obtain _ | k := k
    · omega
    have hdiv : v / 10 < 10 ^ k := by omega
    have hpos : 0 < k := by
      by_contra hzero
      obtain rfl : k = 0 := by omega
      omega
    have := ih hdiv hpos
    omega

end Decimal
