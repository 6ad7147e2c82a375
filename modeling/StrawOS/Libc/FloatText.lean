import Mathlib.Data.UInt

/-!
# Floating-point numbers as text

What `fmt_float` puts into its array of 512 characters, and how many characters it puts there.
The arithmetic in `long double` is a parameter: the decimal digits of a number with its
exponent, and one comparison.  The rest are integers: the bits of a number, the places of its
digits and the numbers of zeros.

The array is too small for one conversion (`floatBody_overruns`): `%f` puts up to 309 digits in
front of the point there, and up to 300 behind it.
-/

namespace Libc

/-- A string in memory, less the zero at its end. -/
abbrev Text := List UInt8

/-- The flags `FMT_LEFT` and so on. -/
structure FmtFlags where
  left : Bool := false
  plus : Bool := false
  space : Bool := false
  alt : Bool := false
  zero : Bool := false

/-- The arithmetic in `long double`: `fmt_digits`, with its array of digits and the exponent, and
the test of `fmt_fixed` whether a number times a power of ten is over one half.  The exponent of a
`double` is between -324 and 309, and rounding to fewer digits changes it by one at most. -/
structure FloatOps where
  digits : UInt64 → Nat → (Nat → UInt8) × Int
  overHalf : UInt64 → Int → Bool
  exponent_zero : ∀ n, (digits 0 n).2 = 0
  exponent_le : ∀ v n, (digits v n).2 ≤ 309
  exponent_near : ∀ v m n, (digits v m).2 ≤ (digits v n).2 + 1

/-- The exponent of a number, as it is stored. -/
def storedExponent (v : UInt64) : Nat := v.toNat / 2 ^ 52 % 2048

/-- The bits behind it. -/
def mantissa (v : UInt64) : Nat := v.toNat % 2 ^ 52

/-- A character of `digits`. -/
def digitChar (upper : Bool) (d : Nat) : UInt8 :=
  if d < 10 then .ofNat (48 + d) else if upper then .ofNat (55 + d) else .ofNat (87 + d)

/-- The digits of a number in a base from 2 on, which is never written with none. -/
def digitsIn (base : Nat) (upper : Bool) (v : Nat) : Text :=
  if h : v < base ∨ base < 2 then [digitChar upper v]
  else digitsIn base upper (v / base) ++ [digitChar upper (v % base)]
termination_by v
decreasing_by exact Nat.div_lt_self (by omega) (by omega)

section Conversions

variable (fl : FloatOps) (v : UInt64)

def fmtFixed (prec : Int) : Text :=
  let ndig := (fl.digits v 18).2 + 1 + prec
  if v = 0 ∨ ndig ≤ 0 then
    let last : UInt8 := if v ≠ 0 ∧ ndig = 0 ∧ fl.overHalf v prec then 49 else 48
    if 0 < prec then 48 :: 46 :: (List.replicate (prec.toNat - 1) 48 ++ [last]) else [last]
  else
    let ndig := min 18 ndig
    let digits := (fl.digits v ndig.toNat).1
    let intDigits := (fl.digits v ndig.toNat).2 + 1
    let digit : Int → UInt8 := fun i => if i < 0 ∨ ndig ≤ i then 48 else digits i.toNat
    let whole := if intDigits ≤ 0 then [48] else (List.range intDigits.toNat).map fun i : Nat => digit i
    if 0 < prec then
      whole ++ 46 :: (List.range prec.toNat).map fun i : Nat => digit (intDigits + i)
    else whole

def fmtExp (prec : Int) (upper : Bool) : Text :=
  let digits := (fl.digits v (prec + 1).toNat).1
  let e := (fl.digits v (prec + 1).toNat).2
  let ae := e.natAbs
  digits 0 ::
    (if 0 < prec then
      46 :: (List.range prec.toNat).map fun i : Nat => if i + 1 < 18 then digits (i + 1) else 48
    else []) ++
    [if upper then 69 else 101, if e < 0 then 45 else 43] ++
    (if 100 ≤ ae then [.ofNat (48 + ae / 100)] else []) ++
    [.ofNat (48 + ae / 10 % 10), .ofNat (48 + ae % 10)]

/-- `fmt_strip_zeros`: the zeros behind the point, and the point with them. -/
def fmtStripZeros (body : Text) : Text :=
  let front := body.takeWhile fun c => c != 101 && c != 69
  let tail := body.dropWhile fun c => c != 101 && c != 69
  if 46 ∈ front then
    let front := (front.reverse.dropWhile fun c => c == 48).reverse
    (if front.getLast? = some 46 then front.dropLast else front) ++ tail
  else body

/-- The mantissa of `fmt_hex` rounded to a number of digits, and the digit in front of it. -/
def hexRounded (prec : Int) (lead mant : Nat) : Nat × Nat :=
  if 0 ≤ prec ∧ prec < 13 then
    let drop := (13 - prec.toNat) * 4
    let rem := mant % 2 ^ drop
    let half := 2 ^ (drop - 1)
    let mant := mant / 2 ^ drop
    let mant := if half < rem ∨ (rem = half ∧ mant % 2 = 1) then mant + 1 else mant
    if 2 ^ (prec.toNat * 4) ≤ mant then (lead + 1, mant % 2 ^ (prec.toNat * 4) * 2 ^ drop)
    else (lead, mant * 2 ^ drop)
  else (lead, mant)

/-- The digits of `fmt_hex` that it writes. -/
def hexShown (prec : Int) (frac : Text) : Text :=
  if 0 ≤ prec then (frac ++ List.replicate (prec.toNat - 13) 48).take prec.toNat
  else (frac.reverse.dropWhile fun c => c == 48).reverse

def fmtHex (prec : Int) (upper : Bool) : Text :=
  let lead := if storedExponent v = 0 then 0 else 1
  let exp : Int :=
    if storedExponent v = 0 then if mantissa v = 0 then 0 else -1022 else storedExponent v - 1023
  let rounded := hexRounded prec lead (mantissa v)
  let frac := (List.range 13).map fun i : Nat => digitChar upper (rounded.2 / 2 ^ (48 - 4 * i) % 16)
  let shown := hexShown prec frac
  48 :: (if upper then 88 else 120) :: .ofNat (48 + rounded.1) ::
    (if shown = [] then [] else 46 :: shown) ++
    [if upper then 80 else 112, if exp < 0 then 45 else 43] ++ digitsIn 10 false exp.natAbs

end Conversions

/-- The text of a number that is not negative, and how many characters of the array it took. -/
def floatBody (fl : FloatOps) (v : UInt64) (conv : UInt8) (prec : Int) (alt : Bool) : Text × Nat :=
  let prec := min 300 prec
  if conv = 102 ∨ conv = 70 then
    let body := fmtFixed fl v (if prec < 0 then 6 else prec)
    let body := if alt ∧ prec = 0 then body ++ [46] else body
    (body, body.length)
  else if conv = 101 ∨ conv = 69 then
    let body := fmtExp fl v (if prec < 0 then 6 else prec) (conv == 69)
    (body, body.length)
  else if conv = 97 ∨ conv = 65 then
    let body := fmtHex v prec (conv == 65)
    (body, body.length)
  else
    let p := if prec < 0 then 6 else if prec = 0 then 1 else prec
    let x := if v = 0 then 0 else (fl.digits v p.toNat).2
    let body := if x < p ∧ -4 ≤ x then fmtFixed fl v (p - 1 - x) else fmtExp fl v (p - 1) (conv == 71)
    (if alt then body else fmtStripZeros body, body.length)

/-- A number without its sign. -/
def withoutSign (bits : UInt64) : UInt64 := .ofNat (bits.toNat % 2 ^ 63)

/-- The text of what is not a number or not finite. -/
def specialText (bits : UInt64) (upper : Bool) : Option Text :=
  if storedExponent bits = 2047 then
    if mantissa bits = 0 then some (if upper then [73, 78, 70] else [105, 110, 102])
    else some (if upper then [78, 65, 78] else [110, 97, 110])
  else none

/-! ## The room in the array -/

theorem length_digitsIn {base : Nat} (h2 : 2 ≤ base) (upper : Bool) {n k : Nat} (h : n < 2 ^ k)
    (hk : 0 < k) : (digitsIn base upper n).length ≤ k := by
  induction n using digitsIn.induct base generalizing k with
  | case1 n hlast =>
    rw [digitsIn, dif_pos hlast]
    exact hk
  | case2 n hmore ih =>
    rw [digitsIn, dif_neg hmore, List.length_append, List.length_singleton]
    obtain _ | k := k
    · omega
    have hhalf : n / base ≤ n / 2 := Nat.div_le_div_left h2 (by omega)
    have hpos : 0 < k := by
      by_contra hzero
      obtain rfl : k = 0 := by omega
      omega
    have := @ih k (by omega) hpos
    omega

section Room

variable (fl : FloatOps) {v : UInt64} {prec : Int}

/-- The exponent of the number in `fmt_fixed`, where it has digits. -/
def fixedExponent (v : UInt64) (prec : Int) : Int :=
  (fl.digits v (min 18 ((fl.digits v 18).2 + 1 + prec)).toNat).2

/-- The length of `fmt_fixed` where no digit is left. -/
theorem length_fmtFixed_none (h : v = 0 ∨ (fl.digits v 18).2 + 1 + prec ≤ 0) :
    (fmtFixed fl v prec).length = if 0 < prec then prec.toNat + 2 else 1 := by
  simp only [fmtFixed, if_pos h]
  split
  · simp only [List.length_cons, List.length_append, List.length_replicate, List.length_nil]
    omega
  · rfl

/-- The length of `fmt_fixed` otherwise. -/
theorem length_fmtFixed_some (h : ¬(v = 0 ∨ (fl.digits v 18).2 + 1 + prec ≤ 0)) :
    (fmtFixed fl v prec).length =
      max 1 (fixedExponent fl v prec + 1).toNat + if 0 < prec then prec.toNat + 1 else 0 := by
  have hwhole : ∀ (e : Int) (digit : Nat → UInt8), (if e + 1 ≤ 0 then [48]
      else (List.range (e + 1).toNat).map digit).length = max 1 (e + 1).toNat := by grind
  simp only [fmtFixed, if_neg h, fixedExponent]
  split
  · rw [List.length_append, hwhole, List.length_cons, List.length_map, List.length_range]
  · rw [hwhole, Nat.add_zero]

/-- `fmt_exp` is short. -/
theorem length_fmtExp (v : UInt64) (prec : Int) (upper : Bool) :
    (fmtExp fl v prec upper).length ≤ prec.toNat + 7 := by
  simp only [fmtExp, List.length_append, List.length_cons, List.length_nil]
  split_ifs <;> simp only [List.length_cons, List.length_map, List.length_range,
    List.length_nil] <;> omega

theorem length_hexShown {prec : Int} (hprec : prec ≤ 300) {frac : Text} (hfrac : frac.length = 13) :
    (hexShown prec frac).length ≤ 300 := by
  unfold hexShown
  split
  · rw [List.length_take]
    omega
  · have hdrop := (List.dropWhile_sublist (fun c => c == 48) (l := frac.reverse)).length_le
    rw [List.length_reverse] at hdrop ⊢
    omega

/-- `fmt_hex` is short. -/
theorem length_fmtHex (v : UInt64) {prec : Int} (hprec : prec ≤ 300) (upper : Bool) :
    (fmtHex v prec upper).length ≤ 400 := by
  have hstored : storedExponent v < 2048 := Nat.mod_lt _ (by decide)
  have hexp : ∀ e : Int, -2048 < e → e < 2048 → (digitsIn 10 false e.natAbs).length ≤ 11 :=
    fun e h0 h1 => length_digitsIn (by decide) false (by omega) (by decide)
  obtain ⟨e, he, h0, h1⟩ : ∃ e : Int,
      (if storedExponent v = 0 then if mantissa v = 0 then 0 else -1022
        else (storedExponent v : Int) - 1023) = e ∧ -2048 < e ∧ e < 2048 :=
    ⟨_, rfl, by split_ifs <;> omega, by split_ifs <;> omega⟩
  have hdigits := hexp e h0 h1
  have hshown : ∀ shown : Text, shown.length ≤ 300 →
      (if shown = [] then [] else (46 : UInt8) :: shown).length ≤ 301 := by
    intro shown hshown
    split
    · exact Nat.zero_le _
    · rw [List.length_cons]
      omega
  have hbody := hshown _ (@length_hexShown prec hprec
    ((List.range 13).map fun i : Nat => digitChar upper
      ((hexRounded prec (if storedExponent v = 0 then 0 else 1) (mantissa v)).2 /
        2 ^ (48 - 4 * i) % 16)) (by rw [List.length_map, List.length_range]))
  simp only [fmtHex, he, List.length_append, List.length_cons, List.length_nil]
  omega

/-- `%g` is short: what `fmt_fixed` writes in front of the point takes from what it writes behind. -/
theorem length_general (v : UInt64) {p : Int} (h0 : 0 < p) (h1 : p ≤ 300) (upper : Bool) :
    (if (if v = 0 then 0 else (fl.digits v p.toNat).2) < p ∧
        -4 ≤ (if v = 0 then 0 else (fl.digits v p.toNat).2) then
      fmtFixed fl v (p - 1 - if v = 0 then 0 else (fl.digits v p.toNat).2)
    else fmtExp fl v (p - 1) upper).length ≤ 512 := by
  obtain ⟨x, hx⟩ : ∃ x, (if v = 0 then 0 else (fl.digits v p.toNat).2) = x := ⟨_, rfl⟩
  rw [hx]
  split
  · next hfixed =>
    by_cases hnone : v = 0 ∨ (fl.digits v 18).2 + 1 + (p - 1 - x) ≤ 0
    · rw [length_fmtFixed_none fl hnone]
      split_ifs <;> omega
    · have hv : v ≠ 0 := fun hv => hnone (.inl hv)
      rw [if_neg hv] at hx
      have hnear : fixedExponent fl v (p - 1 - x) ≤ (fl.digits v p.toNat).2 + 1 :=
        fl.exponent_near v _ p.toNat
      rw [length_fmtFixed_some fl hnone]
      split_ifs <;> omega
  · have := length_fmtExp fl v (p - 1) upper
    omega

/-- **The text of a number** is longer than the array of `fmt_float` only for `%f`, and there when
the exponent and the precision together are over 510. -/
theorem floatBody_overruns (v : UInt64) (conv : UInt8) (prec : Int) (alt : Bool) :
    512 < (floatBody fl v conv prec alt).2 ↔
      (conv = 102 ∨ conv = 70) ∧ 510 < (fl.digits v 18).2 + if prec < 0 then 6 else min 300 prec := by
  have hle := fl.exponent_le v 18
  by_cases hf : conv = 102 ∨ conv = 70
  · obtain ⟨p, hp, h0, h1⟩ : ∃ p : Int, (if prec < 0 then 6 else min 300 prec) = p ∧ 0 ≤ p ∧ p ≤ 300 :=
      ⟨_, rfl, by split_ifs <;> omega, by split_ifs <;> omega⟩
    have hmin : (if min 300 prec < 0 then 6 else min 300 prec) = p := by
      rw [← hp]
      split_ifs <;> omega
    have hbody : (floatBody fl v conv prec alt).2 =
        (fmtFixed fl v p).length + if alt = true ∧ min 300 prec = 0 then 1 else 0 := by
      simp only [floatBody, if_pos hf, hmin]
      split <;> simp
    rw [hbody, hp, and_iff_right hf]
    by_cases hnone : v = 0 ∨ (fl.digits v 18).2 + 1 + p ≤ 0
    · rw [length_fmtFixed_none fl hnone]
      have hexp : (fl.digits v 18).2 ≤ 0 := by
        rcases hnone with rfl | hnone
        · exact (fl.exponent_zero 18).le
        · omega
      split_ifs <;> omega
    · rw [length_fmtFixed_some fl hnone]
      have hnear : fixedExponent fl v p ≤ (fl.digits v 18).2 + 1 := fl.exponent_near v _ 18
      have hsame : 18 ≤ (fl.digits v 18).2 + 1 + p → fixedExponent fl v p = (fl.digits v 18).2 := by
        intro hlong
        rw [fixedExponent, min_eq_left hlong]
        rfl
      split_ifs <;> omega
  · simp only [hf, false_and, iff_false, not_lt]
    simp only [floatBody, if_neg hf]
    by_cases he : conv = 101 ∨ conv = 69
    · rw [if_pos he]
      have hlen := length_fmtExp fl v (if min 300 prec < 0 then 6 else min 300 prec) (conv == 69)
      refine hlen.trans ?_
      split_ifs <;> omega
    · rw [if_neg he]
      by_cases ha : conv = 97 ∨ conv = 65
      · rw [if_pos ha]
        have := @length_fmtHex v (min 300 prec) (by omega) (conv == 65)
        exact this.trans (by decide)
      · rw [if_neg ha]
        exact length_general fl v (by split_ifs <;> omega) (by split_ifs <;> omega) (conv == 71)

end Room

end Libc
