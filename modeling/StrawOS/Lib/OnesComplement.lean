import Mathlib.Algebra.BigOperators.Group.List.Basic
import Mathlib.Data.UInt
import Mathlib.Tactic.Ring

/-!
# One's-complement sums

Words of 16 bits under addition with an end-around carry.  The sum of a list is the sum
of its numbers modulo 65535, where zero has two forms: 0 for the list of zeros and 65535
for every other list.
-/

namespace OnesComplement

/-- Addition with an end-around carry. -/
def onesAdd (a b : Nat) : Nat := if a + b < 65536 then a + b else a + b - 65535

/-- The sum of a list of words. -/
def onesSum (ws : List Nat) : Nat := ws.foldl onesAdd 0

/-- The big-endian words of a byte string; an odd last byte is the high half of a word. -/
def words : List UInt8 → List Nat
  | [] => []
  | [hi] => [hi.toNat * 256]
  | hi :: lo :: rest => (hi.toNat * 256 + lo.toNat) :: words rest

theorem words_lt (bytes : List UInt8) : ∀ w ∈ words bytes, w < 65536 := by
  induction bytes using words.induct with
  | case1 => simp [words]
  | case2 hi =>
    intro w hw
    obtain rfl := List.mem_singleton.mp hw
    have := hi.toNat_lt
    omega
  | case3 hi lo rest ih =>
    intro w hw
    rcases List.mem_cons.mp hw with rfl | hw
    · have := hi.toNat_lt
      have := lo.toNat_lt
      omega
    · exact ih w hw

/-- Words of a string of even length are followed by those of the next. -/
theorem words_append {front : List UInt8} (h : front.length % 2 = 0) (rest : List UInt8) :
    words (front ++ rest) = words front ++ words rest := by
  induction front using words.induct with
  | case1 => rfl
  | case2 hi => simp at h
  | case3 hi lo front ih =>
    have heven : front.length % 2 = 0 := by
      simp only [List.length_cons] at h
      omega
    simp only [List.cons_append, words, ih heven]

/-! ## The sum -/

theorem onesAdd_spec {a b : Nat} (ha : a < 65536) (hb : b < 65536) :
    onesAdd a b < 65536 ∧ onesAdd a b % 65535 = (a + b) % 65535 ∧
      (onesAdd a b = 0 ↔ a = 0 ∧ b = 0) := by
  unfold onesAdd
  split <;> omega

theorem foldl_onesAdd {ws : List Nat} (hws : ∀ w ∈ ws, w < 65536) {a : Nat} (ha : a < 65536) :
    ws.foldl onesAdd a < 65536 ∧ ws.foldl onesAdd a % 65535 = (a + ws.sum) % 65535 ∧
      (ws.foldl onesAdd a = 0 ↔ a + ws.sum = 0) := by
  induction ws generalizing a with
  | nil => exact ⟨ha, rfl, Iff.rfl⟩
  | cons w ws ih =>
    obtain ⟨hw, hrest⟩ := List.forall_mem_cons.mp hws
    obtain ⟨hlt, hmod, hzero⟩ := onesAdd_spec ha hw
    obtain ⟨hlt', hmod', hzero'⟩ := ih hrest hlt
    rw [List.foldl_cons, List.sum_cons]
    refine ⟨hlt', ?_, ?_⟩
    · omega
    · rw [hzero']
      omega

/-- **Full sums.** -/
theorem onesSum_eq_full_iff {ws : List Nat} (hws : ∀ w ∈ ws, w < 65536) :
    onesSum ws = 65535 ↔ ws.sum % 65535 = 0 ∧ 0 < ws.sum := by
  obtain ⟨hlt, hmod, hzero⟩ := foldl_onesAdd hws (a := 0) (by omega)
  change onesSum ws < 65536 at hlt
  change onesSum ws % 65535 = _ at hmod
  change onesSum ws = 0 ↔ _ at hzero
  omega

/-! ## The complement -/

theorem onesSum_complement {ws : List Nat} (hws : ∀ w ∈ ws, w < 65536) {c s folded : Nat}
    (hsum : ws.sum = s + c) (hc : c = 65535 - folded) (hlt : folded < 65536)
    (hmod : folded % 65535 = s % 65535) (hzero : folded = 0 ↔ s = 0) : onesSum ws = 65535 := by
  rw [onesSum_eq_full_iff hws]
  omega

theorem toNat_complement {n : Nat} (h : n < 65536) : (~~~ UInt16.ofNat n).toNat = 65535 - n := by
  rw [UInt16.toNat_not, UInt16.toNat_ofNat']
  simp only [UInt16.size]
  omega

end OnesComplement
