import StrawOS.Libc.Printf

/-!
# Integers as text, and back

`strtoull` skips spaces, takes a sign and, in base 16, a `0x`, and then digits as long as they
are below the base.  What `vsnprintf` puts out for an integer without the flag `-` is spaces, a
sign or a space, a `0x`, zeros and the digits, with any of the first four left out, and the
two agree on every number of 64 bits (`format_and_parse`).
-/

namespace Libc

def isSpace (c : UInt8) : Bool := c == 32 || decide (9 ≤ c.toNat) && decide (c.toNat ≤ 13)

def digitVal (c : UInt8) : Nat :=
  if Decimal.isDigit c then c.toNat - 48
  else if 65 ≤ c.toNat ∧ c.toNat ≤ 90 then c.toNat - 65 + 10
  else if 97 ≤ c.toNat ∧ c.toNat ≤ 122 then c.toNat - 97 + 10
  else 36

/-- The loop of `strtoull`, with the number of characters it takes. -/
def digitLoop (base : Nat) (val : UInt64) : Text → UInt64 × Nat
  | [] => (val, 0)
  | c :: s =>
      if digitVal c < base then
        let r := digitLoop base (val * .ofNat base + .ofNat (digitVal c)) s
        (r.1, r.2 + 1)
      else (val, 0)

/-- The sign, with the rest of the text. -/
def takeSign : Text → Bool × Text
  | 43 :: s => (false, s)
  | 45 :: s => (true, s)
  | s => (false, s)

/-- The base, with the rest of the text. -/
def takeBase (base : Nat) (s : Text) : Nat × Text :=
  if base = 0 then
    match s with
    | 48 :: 120 :: s => (16, s)
    | 48 :: 88 :: s => (16, s)
    | 48 :: s => (8, s)
    | s => (10, s)
  else if base = 16 then
    match s with
    | 48 :: 120 :: s => (16, s)
    | 48 :: 88 :: s => (16, s)
    | s => (16, s)
  else (base, s)

/-- `strtoull` at a place in memory, with the number of characters up to `*endptr`. -/
def strtoull (s : Text) (base : Nat) : UInt64 × Nat :=
  let sign := takeSign (s.dropWhile isSpace)
  let digits := takeBase base sign.2
  let r := digitLoop digits.1 0 digits.2
  (if sign.1 then -r.1 else r.1, s.length - digits.2.length + r.2)

def strtoll (s : Text) (base : Nat) : Int64 × Nat :=
  ((strtoull s base).1.toInt64, (strtoull s base).2)

/-! ## Digits -/

theorem digitVal_digitChar (upper : Bool) {d : Nat} (h : d < 16) :
    digitVal (digitChar upper d) = d := by
  revert d
  cases upper <;> decide

theorem digitVal_of_mem {base : Nat} {upper : Bool} (h2 : 2 ≤ base) (h16 : base ≤ 16) {n : Nat}
    {c : UInt8} (h : c ∈ digitsIn base upper n) : digitVal c < base := by
  induction n using digitsIn.induct base with
  | case1 n hlast =>
    rw [digitsIn, dif_pos hlast] at h
    obtain rfl := List.mem_singleton.mp h
    rw [digitVal_digitChar upper (by omega)]
    omega
  | case2 n hmore ih =>
    rw [digitsIn, dif_neg hmore] at h
    rcases List.mem_append.mp h with h | h
    · exact ih h
    · obtain rfl := List.mem_singleton.mp h
      have hmod : n % base < base := Nat.mod_lt _ (by omega)
      rw [digitVal_digitChar upper (by omega)]
      exact hmod

/-- What the loop makes of a value with some digits behind it. -/
def pushDigits (base : Nat) (val : UInt64) (ds : Text) : UInt64 :=
  ds.foldl (fun val c => val * .ofNat base + .ofNat (digitVal c)) val

/-- **The digits of a number** make the number. -/
theorem pushDigits_digitsIn {base : Nat} {upper : Bool} (h2 : 2 ≤ base) (h16 : base ≤ 16) (n : Nat) :
    pushDigits base 0 (digitsIn base upper n) = .ofNat n := by
  induction n using digitsIn.induct base with
  | case1 n hlast =>
    rw [digitsIn, dif_pos hlast]
    simp [pushDigits, digitVal_digitChar upper (by omega : n < 16)]
  | case2 n hmore ih =>
    have hmod : n % base < 16 := (Nat.mod_lt _ (by omega)).trans_le h16
    rw [digitsIn, dif_neg hmore, pushDigits, List.foldl_append]
    change pushDigits base 0 (digitsIn base upper (n / base)) * .ofNat base +
      .ofNat (digitVal (digitChar upper (n % base))) = _
    rw [ih, digitVal_digitChar upper hmod, ← UInt64.ofNat_mul, ← UInt64.ofNat_add]
    congr 1
    rw [Nat.mul_comm]
    exact Nat.div_add_mod n base

theorem pushDigits_zeros (base k : Nat) : pushDigits base 0 (List.replicate k 48) = 0 := by
  induction k with
  | zero => rfl
  | succ k ih =>
    have hzero : digitVal 48 = 0 := by decide
    simp only [pushDigits, List.replicate_succ, List.foldl_cons, hzero] at ih ⊢
    simpa using ih

theorem digitLoop_append {base : Nat} {ds : Text} (h : ∀ c ∈ ds, digitVal c < base) (val : UInt64)
    {stop : UInt8} (hstop : base ≤ digitVal stop) (rest : Text) :
    digitLoop base val (ds ++ stop :: rest) = (pushDigits base val ds, ds.length) := by
  induction ds generalizing val with
  | nil => simp [digitLoop, pushDigits, hstop]
  | cons c ds ih =>
    have hc := h c List.mem_cons_self
    have hrest := ih (fun x hx => h x (List.mem_cons_of_mem c hx))
      (val * .ofNat base + .ofNat (digitVal c))
    simp [digitLoop, hc, hrest, pushDigits]

/-! ## Reading a number -/

theorem digit_plain {c : UInt8} (h : digitVal c < 16) : isSpace c = false ∧ c ≠ 43 ∧ c ≠ 45 := by
  refine ⟨?_, ?_, ?_⟩
  · by_contra hspace
    have hrange : c.toNat ≤ 32 := by
      simp only [isSpace, Bool.not_eq_false, Bool.or_eq_true, beq_iff_eq, Bool.and_eq_true,
        decide_eq_true_eq] at hspace
      rcases hspace with rfl | hrange
      · decide
      · omega
    simp only [digitVal, Decimal.isDigit, Bool.and_eq_true, decide_eq_true_eq] at h
    rw [if_neg (by omega), if_neg (by omega), if_neg (by omega)] at h
    omega
  · rintro rfl
    exact absurd h (by decide)
  · rintro rfl
    exact absurd h (by decide)

theorem digitsIn_ne_nil (base : Nat) (upper : Bool) (n : Nat) : digitsIn base upper n ≠ [] := by
  rw [digitsIn]
  split <;> simp

theorem takeBase_prefix {pre : Text} (h : pre = [48, 120] ∨ pre = [48, 88]) (s : Text) :
    takeBase 16 (pre ++ s) = (16, s) := by
  rcases h with rfl | rfl <;> rfl

theorem takeBase_digits {base : Nat} (hbase : base = 8 ∨ base = 10 ∨ base = 16) {ds : Text}
    (hds : ∀ c ∈ ds, digitVal c < base) (rest : Text) :
    takeBase base (ds ++ 0 :: rest) = (base, ds ++ 0 :: rest) := by
  rcases hbase with rfl | rfl | rfl
  · rfl
  · rfl
  · have hx : ∀ c ∈ ds, c ≠ 120 ∧ c ≠ 88 := by
      intro c hc
      have hlt := hds c hc
      constructor
      · rintro rfl
        exact absurd hlt (by decide)
      · rintro rfl
        exact absurd hlt (by decide)
    rcases ds with _ | ⟨c, _ | ⟨d, ds⟩⟩
    · rfl
    · simp [takeBase]
    · obtain ⟨h120, h88⟩ := hx d (by simp)
      simp [takeBase, h120, h88]

theorem takeSign_append {sign : Text} (hsign : sign = [] ∨ sign = [43] ∨ sign = [45]) {c : UInt8}
    (h43 : c ≠ 43) (h45 : c ≠ 45) (s : Text) :
    takeSign (sign ++ c :: s) = (decide (sign = [45]), c :: s) := by
  rcases hsign with rfl | rfl | rfl
  · simp [takeSign, h43, h45]
  · rfl
  · rfl

/-- **`strtoull`** reads spaces, a sign, a prefix, zeros and digits. -/
theorem strtoull_text {base : Nat} (hbase : base = 8 ∨ base = 10 ∨ base = 16) (upper : Bool)
    (n a b : Nat) {sign pre : Text} (hsign : sign = [] ∨ sign = [43] ∨ sign = [45])
    (hpre : pre = [] ∨ (base = 16 ∧ (pre = [48, 120] ∨ pre = [48, 88]))) (rest : Text) :
    strtoull (List.replicate a 32 ++ (sign ++ (pre ++ (List.replicate b 48 ++
        digitsIn base upper n))) ++ 0 :: rest) base =
      (if sign = [45] then -UInt64.ofNat n else .ofNat n,
        (List.replicate a 32 ++ (sign ++ (pre ++ (List.replicate b 48 ++
          digitsIn base upper n)))).length) := by
  obtain ⟨ds, hds⟩ : ∃ ds, List.replicate b 48 ++ digitsIn base upper n = ds := ⟨_, rfl⟩
  have hdigits : ∀ c ∈ ds, digitVal c < base := by
    intro c hc
    rw [← hds] at hc
    rcases List.mem_append.mp hc with hc | hc
    · obtain rfl := List.eq_of_mem_replicate hc
      have hzero : digitVal 48 = 0 := by decide
      omega
    · exact digitVal_of_mem (by omega) (by omega) hc
  have hvalue : pushDigits base 0 ds = .ofNat n := by
    rw [← hds, pushDigits, List.foldl_append]
    change pushDigits base (pushDigits base 0 (List.replicate b 48)) _ = _
    rw [pushDigits_zeros, pushDigits_digitsIn (by omega) (by omega)]
  have hbaseDigits : takeBase base (pre ++ (ds ++ 0 :: rest)) = (base, ds ++ 0 :: rest) := by
    rcases hpre with rfl | ⟨rfl, hpre⟩
    · exact takeBase_digits hbase hdigits rest
    · exact takeBase_prefix hpre _
  -- the first character behind the sign is a digit
  obtain ⟨c, s, hcs, hc⟩ : ∃ c s, pre ++ (ds ++ 0 :: rest) = c :: s ∧ digitVal c < base := by
    rcases hpre with rfl | ⟨rfl, rfl | rfl⟩
    · obtain ⟨c, s, hcons⟩ := List.exists_cons_of_ne_nil (l := ds) (by
        rw [← hds]
        simp [digitsIn_ne_nil])
      exact ⟨c, s ++ 0 :: rest, by rw [hcons]; rfl, hdigits c (by rw [hcons]; simp)⟩
    · exact ⟨48, _, rfl, by decide⟩
    · exact ⟨48, _, rfl, by decide⟩
  obtain ⟨hspace, h43, h45⟩ := digit_plain (c := c) (by omega)
  have hdrop : (List.replicate a 32 ++ (sign ++ (pre ++ (ds ++ 0 :: rest)))).dropWhile isSpace =
      sign ++ (pre ++ (ds ++ 0 :: rest)) := by
    rw [List.dropWhile_append_of_pos]
    · rw [hcs]
      rcases hsign with rfl | rfl | rfl
      · exact List.dropWhile_cons_of_neg (by simp [hspace])
      · rfl
      · rfl
    · intro x hx
      obtain rfl := List.eq_of_mem_replicate hx
      rfl
  have hstop : base ≤ digitVal 0 := by
    have hzero : digitVal 0 = 36 := by decide
    omega
  have htext : List.replicate a 32 ++ (sign ++ (pre ++ ds)) ++ 0 :: rest =
      List.replicate a 32 ++ (sign ++ (pre ++ (ds ++ 0 :: rest))) := by simp
  rw [hds, htext]
  have hsignTaken := takeSign_append hsign h43 h45 s
  rw [← hcs] at hsignTaken
  simp only [strtoull, hdrop, hsignTaken, hbaseDigits, digitLoop_append hdigits 0 hstop rest, hvalue,
    decide_eq_true_eq]
  refine Prod.ext rfl ?_
  simp only [List.length_append, List.length_cons]
  omega

/-! ## Writing a number -/

theorem integerBody_eq {v : UInt64} {base : Nat} {upper alt : Bool} {prec : Int} {conv : UInt8}
    (hne : ¬(v = 0 ∧ prec = 0)) :
    ∃ z, z ≤ 80 ∧ integerBody v base upper alt prec conv =
      List.replicate z 48 ++ digitsIn base upper v.toNat := by
  simp only [integerBody, if_neg hne]
  exact ⟨_, Nat.min_le_right _ _, rfl⟩

/-- The sign of an integer is a space or what `strtoull` takes for a sign. -/
theorem signText_eq (neg : Bool) (flags : FmtFlags) :
    ∃ a sign, a ≤ 1 ∧ signText neg flags = List.replicate a 32 ++ sign ∧
      (sign = [] ∨ sign = [43] ∨ sign = [45]) ∧ (sign = [45] ↔ neg = true) := by
  unfold signText
  cases neg
  · cases flags.plus
    · cases flags.space
      · exact ⟨0, [], by decide, rfl, .inl rfl, by decide⟩
      · exact ⟨1, [], by decide, rfl, .inl rfl, by decide⟩
    · exact ⟨0, [43], by decide, rfl, .inr (.inl rfl), by decide⟩
  · exact ⟨0, [45], by decide, rfl, .inr (.inr rfl), by decide⟩

/-- A field without the flag `-`: the padding stands in front, or behind the sign. -/
theorem fieldText_right {front body : Text} {width : Int} {flags : FmtFlags}
    (hleft : flags.left = false) :
    fieldText front body width flags =
      let pad := (toInt (width - (front.length + body.length : Nat))).toNat
      if flags.zero then front ++ (List.replicate pad 48 ++ body)
      else List.replicate pad 32 ++ (front ++ body) := by
  simp only [fieldText, hleft]
  cases flags.zero <;> simp

/-- The length of such a field fits an `int`. -/
theorem length_fieldText {front body : Text} {width : Nat} {flags : FmtFlags}
    (hleft : flags.left = false) (hwidth : width < 2147483648)
    (hshort : front.length + body.length ≤ 1000) :
    (fieldText front body width flags).length < 2147483648 := by
  have hpad : toInt (width - (front.length + body.length : Nat)) =
      width - (front.length + body.length : Nat) := toInt_eq (by omega) (by omega)
  rw [fieldText_right hleft, hpad]
  split <;> simp only [List.length_append, List.length_replicate] <;> omega

/-- **The text of an integer**: spaces, a sign, a prefix, zeros and the digits. -/
theorem integerText_eq {v : UInt64} {neg upper : Bool} {base width : Nat} {prec : Int}
    {flags : FmtFlags} {conv : UInt8} (hleft : flags.left = false) (hbase : 2 ≤ base)
    (hwidth : width < 2147483648) (hne : ¬(v = 0 ∧ prec = 0)) :
    ∃ a b sign pre, integerText v neg base upper width prec flags conv =
        List.replicate a 32 ++ (sign ++ (pre ++ (List.replicate b 48 ++
          digitsIn base upper v.toNat))) ∧
      (sign = [] ∨ sign = [43] ∨ sign = [45]) ∧ (sign = [45] ↔ neg = true) ∧
      (pre = [] ∨ (base = 16 ∧ (pre = [48, 120] ∨ pre = [48, 88]))) ∧
      (integerText v neg base upper width prec flags conv).length < 2147483648 := by
  obtain ⟨z, hz, hbody⟩ := @integerBody_eq v base upper flags.alt prec conv hne
  obtain ⟨a, sign, ha, hsignText, hsign, hneg⟩ := signText_eq neg flags
  have hlen := @length_digitsIn base hbase upper v.toNat 64 v.toNat_lt (by decide)
  obtain ⟨pre, hfront, hpre⟩ : ∃ pre,
      (if flags.alt ∧ base = 16 ∧ integerBody v base upper flags.alt prec conv ≠ [] ∧
          integerBody v base upper flags.alt prec conv ≠ [48] then
        signText neg flags ++ (if upper then [48, 88] else [48, 120])
      else signText neg flags) = signText neg flags ++ pre ∧
      (pre = [] ∨ (base = 16 ∧ (pre = [48, 120] ∨ pre = [48, 88]))) := by
    split
    · next halt =>
      refine ⟨_, rfl, .inr ⟨halt.2.1, ?_⟩⟩
      cases upper
      · exact .inl rfl
      · exact .inr rfl
    · exact ⟨[], (List.append_nil _).symm, .inl rfl⟩
  have hpreLen : pre.length ≤ 2 := by
    rcases hpre with rfl | ⟨-, rfl | rfl⟩ <;> decide
  have hsignLen : sign.length ≤ 1 := by
    rcases hsign with rfl | rfl | rfl <;> decide
  obtain ⟨flags', hflags', hleft'⟩ : ∃ flags',
      (if 0 ≤ prec then { flags with zero := false } else flags) = flags' ∧ flags'.left = false :=
    ⟨_, rfl, by split <;> exact hleft⟩
  have hshort : (signText neg flags ++ pre).length +
      (List.replicate z 48 ++ digitsIn base upper v.toNat).length ≤ 1000 := by
    rw [hsignText]
    simp only [List.length_append, List.length_replicate]
    omega
  have htext : integerText v neg base upper width prec flags conv =
      fieldText (signText neg flags ++ pre) (List.replicate z 48 ++ digitsIn base upper v.toNat)
        width flags' := by
    rw [integerText, hflags', hfront, hbody]
  rw [htext]
  have hfits := length_fieldText hleft' hwidth hshort
  rw [fieldText_right hleft'] at hfits ⊢
  generalize (toInt (width - ((signText neg flags ++ pre).length +
    (List.replicate z 48 ++ digitsIn base upper v.toNat).length : Nat))).toNat = pad at hfits ⊢
  rw [hsignText] at hfits ⊢
  by_cases hzero : flags'.zero = true
  · rw [if_pos hzero] at hfits ⊢
    refine ⟨a, pad + z, sign, pre, ?_, hsign, hneg, hpre, hfits⟩
    rw [← List.replicate_append_replicate]
    simp only [List.append_assoc]
  · rw [if_neg hzero] at hfits ⊢
    refine ⟨pad + a, z, sign, pre, ?_, hsign, hneg, hpre, hfits⟩
    rw [← List.replicate_append_replicate]
    simp only [List.append_assoc]

/-! ## The format -/

/-- Flags as they are written, less the flag `-`. -/
def flagsText (flags : FmtFlags) : Text :=
  (if flags.plus then [43] else []) ++ (if flags.space then [32] else []) ++
    (if flags.alt then [35] else []) ++ (if flags.zero then [48] else [])

/-- A width as it is written. -/
def widthText (width : Nat) : Text := if width = 0 then [] else Decimal.digits width

/-- A precision as it is written, if there is one. -/
def precText : Option Nat → Text
  | none => []
  | some prec => 46 :: Decimal.digits prec

/-- A format with one conversion of a `long long`. -/
def formatOf (flags : FmtFlags) (width : Nat) (prec : Option Nat) (conv : UInt8) : Text :=
  37 :: (flagsText flags ++ (widthText width ++ (precText prec ++ [108, 108, conv])))

/-- The precision that `vsnprintf` reads. -/
def precValue (prec : Option Nat) : Int := prec.elim (-1) fun prec => prec

theorem takeFlags_flagsText {flags : FmtFlags} (hleft : flags.left = false) {c : UInt8} (fmt : Text)
    (hc : c ∉ ([45, 43, 32, 35, 48] : List UInt8)) :
    takeFlags {} (flagsText flags ++ c :: fmt) = (flags, c :: fmt) := by
  simp only [List.mem_cons, List.not_mem_nil, or_false, not_or] at hc
  have hstop : ∀ f : FmtFlags, takeFlags f (c :: fmt) = (f, c :: fmt) := by
    simp [takeFlags, hc]
  obtain ⟨left, plus, space, alt, zero⟩ := flags
  obtain rfl : left = false := hleft
  cases plus <;> cases space <;> cases alt <;> cases zero <;> simp [flagsText, takeFlags, hstop]

theorem takeNumber_append {ds : Text} (hds : ∀ c ∈ ds, Decimal.isDigit c = true) {stop : UInt8}
    (hstop : Decimal.isDigit stop = false) (fmt : Text) {n : Nat}
    (hsmall : Decimal.value n ds < 2147483648) :
    takeNumber n (ds ++ stop :: fmt) = (((Decimal.value n ds : Nat) : Int), stop :: fmt) := by
  induction ds generalizing n with
  | nil => simp [takeNumber, hstop]
  | cons c ds ih =>
    have hc := hds c List.mem_cons_self
    have hle := Decimal.le_value (Decimal.push n c) ds
    rw [Decimal.value_cons] at hsmall ⊢
    have hpush : toInt ((n : Int) * 10 + (c.toNat - 48)) = (Decimal.push n c : Nat) := by
      have hdigit : 48 ≤ c.toNat := by
        simp only [Decimal.isDigit, Bool.and_eq_true, decide_eq_true_eq] at hc
        exact hc.1
      have heq : (n : Int) * 10 + (c.toNat - 48) = (Decimal.push n c : Nat) := by
        unfold Decimal.push
        omega
      rw [heq, toInt_eq (by omega) (by omega)]
    have hrest := ih (fun x hx => hds x (List.mem_cons_of_mem c hx)) hsmall
    rw [List.cons_append, takeNumber, if_pos hc, hpush, hrest]

theorem takeNumber_digits {n : Nat} (hn : n < 2147483648) {stop : UInt8}
    (hstop : Decimal.isDigit stop = false) (fmt : Text) :
    takeNumber 0 (Decimal.digits n ++ stop :: fmt) = ((n : Int), stop :: fmt) := by
  have hnum := Decimal.number_digits n
  have hread := @takeNumber_append _ hnum.digits stop hstop fmt 0 (by rw [hnum.value]; exact hn)
  rwa [hnum.value] at hread

theorem digits_head {n : Nat} (hn : n ≠ 0) :
    ∃ c ds, Decimal.digits n = c :: ds ∧ c ≠ 48 ∧ Decimal.isDigit c = true := by
  induction n using Decimal.digits.induct with
  | case1 n h =>
    refine ⟨.ofNat (48 + n), [], by rw [Decimal.digits, if_pos h], ?_, Decimal.isDigit_digit h⟩
    intro heq
    have hval := Decimal.toNat_digit h
    rw [heq] at hval
    have : (48 : UInt8).toNat = 48 := rfl
    omega
  | case2 n h ih =>
    obtain ⟨c, ds, hdigits, hc⟩ := ih (by omega)
    exact ⟨c, ds ++ [.ofNat (48 + n % 10)], by rw [Decimal.digits, if_neg h, hdigits]; rfl, hc⟩

/-- What stands behind the flags does not start with one, nor with an asterisk. -/
theorem behind_flags (width : Nat) (prec : Option Nat) (conv : UInt8) :
    ∃ c fmt, widthText width ++ (precText prec ++ [108, 108, conv]) = c :: fmt ∧
      c ∉ ([45, 43, 32, 35, 48] : List UInt8) ∧ c ≠ 42 := by
  by_cases hzero : width = 0
  · rw [widthText, if_pos hzero]
    cases prec with
    | none => exact ⟨108, _, rfl, by decide, by decide⟩
    | some prec => exact ⟨46, _, rfl, by decide, by decide⟩
  · obtain ⟨c, ds, hdigits, hc, hdigit⟩ := digits_head hzero
    rw [widthText, if_neg hzero, hdigits]
    refine ⟨c, _, rfl, ?_, ?_⟩
    · simp only [List.mem_cons, List.not_mem_nil, or_false, not_or]
      refine ⟨?_, ?_, ?_, ?_, hc⟩
      all_goals
        rintro rfl
        exact absurd hdigit (by decide)
    · rintro rfl
      exact absurd hdigit (by decide)

theorem behind_width (prec : Option Nat) (conv : UInt8) :
    ∃ c fmt, precText prec ++ [108, 108, conv] = c :: fmt ∧ Decimal.isDigit c = false := by
  cases prec with
  | none => exact ⟨108, _, rfl, by decide⟩
  | some prec => exact ⟨46, _, rfl, by decide⟩

/-- **A format** is read as it is written. -/
theorem directive_formatOf {flags : FmtFlags} {width : Nat} {prec : Option Nat} {conv : UInt8}
    (hleft : flags.left = false) (hwidth : width < 2147483648)
    (hprec : ∀ p, prec = some p → p < 2147483648) (args : List Arg) :
    directive (flagsText flags ++ (widthText width ++ (precText prec ++ [108, 108, conv]))) args =
      some (⟨flags, width, precValue prec, 2⟩, [conv], args) := by
  obtain ⟨c, fmt, hbehind, hflag, hstar⟩ := behind_flags width prec conv
  obtain ⟨c', fmt', hbehind', hdigit⟩ := behind_width prec conv
  have hflags : takeFlags {} (flagsText flags ++ (widthText width ++ (precText prec ++
      [108, 108, conv]))) = (flags, widthText width ++ (precText prec ++ [108, 108, conv])) := by
    rw [hbehind]
    exact takeFlags_flagsText hleft fmt hflag
  have hnumber : takeNumber 0 (widthText width ++ (precText prec ++ [108, 108, conv])) =
      ((width : Int), precText prec ++ [108, 108, conv]) := by
    rw [hbehind']
    by_cases hzero : width = 0
    · simp [widthText, hzero, takeNumber, hdigit]
    · rw [widthText, if_neg hzero]
      exact takeNumber_digits hwidth hdigit fmt'
  have htakeWidth : takeWidth flags (widthText width ++ (precText prec ++ [108, 108, conv])) args =
      some ((width : Int), flags, precText prec ++ [108, 108, conv], args) := by
    have hplain : takeWidth flags (c :: fmt) args =
        some ((takeNumber 0 (c :: fmt)).1, flags, (takeNumber 0 (c :: fmt)).2, args) := by
      simp [takeWidth, hstar]
    rw [← hbehind, hnumber] at hplain
    exact hplain
  have htakePrec : takePrec (precText prec ++ [108, 108, conv]) args =
      some (precValue prec, [108, 108, conv], args) := by
    cases prec with
    | none => rfl
    | some p =>
      have hread := @takeNumber_digits p (hprec p rfl) 108 (by decide) [108, conv]
      obtain ⟨d, ds, hds⟩ := List.exists_cons_of_ne_nil (Decimal.number_digits p).nonempty
      have hd : d ≠ 42 := by
        rintro rfl
        exact absurd ((Decimal.number_digits p).digits 42 (by rw [hds]; simp)) (by decide)
      have hplain : takePrec (46 :: (Decimal.digits p ++ [108, 108, conv])) args =
          some ((takeNumber 0 (Decimal.digits p ++ [108, 108, conv])).1,
            (takeNumber 0 (Decimal.digits p ++ [108, 108, conv])).2, args) := by
        rw [hds]
        simp [takePrec, hd]
      rw [hread] at hplain
      exact hplain
  simp [directive, hflags, htakeWidth, htakePrec, takeLength]

/-! ## There and back -/

theorem vsnprintf_formatOf {fl : FloatOps} {flags : FmtFlags} {width : Nat} {prec : Option Nat}
    {conv : UInt8} (hleft : flags.left = false) (hwidth : width < 2147483648)
    (hprec : ∀ p, prec = some p → p < 2147483648) {v : UInt64} {text : Text}
    (hconvert : ∀ size, convert fl (outputOf size [] []) ⟨flags, width, precValue prec, 2⟩ conv
      [.word v] = .ok (outputOf size text [], []))
    (hlen : text.length < 2147483648) {size : Nat} (hsize : text.length < size) :
    vsnprintf fl size (formatOf flags width prec conv) [.word v] =
      .ok (text ++ [0], text.length, []) := by
  have hpos : size ≠ 0 := by omega
  have hstart : ({ size := size } : FmtOut) = outputOf size [] [] := by simp [outputOf]
  have hdirective := @directive_formatOf flags width prec conv hleft hwidth hprec [.word v]
  have hround : ∀ fuel, vsnprintfLoop fl (fuel + 2) (outputOf size [] [])
      (formatOf flags width prec conv) [.word v] = .ok (outputOf size text []) := by
    intro fuel
    rw [formatOf, vsnprintfLoop, if_pos rfl, hdirective]
    simp only [hconvert size]
    rfl
  have htake : text.take (size - 1) = text := List.take_of_length_le (by omega)
  have hint : toInt text.length = text.length := toInt_eq (by omega) (by omega)
  have hlong : ∃ fuel, (formatOf flags width prec conv).length + 1 = fuel + 2 :=
    ⟨_, by rw [formatOf, List.length_cons]⟩
  obtain ⟨fuel, hfuel⟩ := hlong
  rw [vsnprintf, if_neg hpos, hfuel, hstart, hround fuel]
  simp only [outputOf, if_neg hpos, htake, hint]

/-- The magnitude of a signed number with its sign is the number again. -/
theorem magnitude_signed (v : UInt64) :
    (if v.toInt64.toInt < 0 then -UInt64.ofNat v.toInt64.toInt.natAbs
      else .ofNat v.toInt64.toInt.natAbs) = v := by
  have hint : v.toInt64.toInt =
      if 2 * v.toNat < 2 ^ 64 then (v.toNat : Int) else (v.toNat : Int) - (2 ^ 64 : Nat) :=
    BitVec.toInt_eq_toNat_cond v.toBitVec
  have hlt := v.toNat_lt
  apply UInt64.toNat_inj.mp
  by_cases hsmall : 2 * v.toNat < 2 ^ 64
  · rw [if_pos hsmall] at hint
    rw [hint, if_neg (by omega), Int.natAbs_natCast, UInt64.ofNat_toNat]
  · have hmag : v.toInt64.toInt.natAbs = 2 ^ 64 - v.toNat := by omega
    have hsize : UInt64.size = 2 ^ 64 := rfl
    rw [if_pos (by omega), UInt64.toNat_neg, UInt64.toNat_ofNat', hmag, hsize]
    omega

/-- The base that a conversion is read back in. -/
def readBase (conv : UInt8) : Nat :=
  if conv = 111 then 8 else if conv = 100 ∨ conv = 117 then 10 else 16

/-- **An unsigned number** comes back. -/
theorem unsigned_round_trip (fl : FloatOps) {conv : UInt8}
    (hconv : conv = 117 ∨ conv = 120 ∨ conv = 88 ∨ conv = 111) {flags : FmtFlags} {width : Nat}
    {prec : Option Nat} (hleft : flags.left = false) (hwidth : width < 2147483648)
    (hprec : ∀ p, prec = some p → p ≤ 80) {v : UInt64} (hne : ¬(v = 0 ∧ prec = some 0))
    (rest : Text) :
    ∃ text : Text, (∀ size, text.length < size →
        vsnprintf fl size (formatOf flags width prec conv) [.word v] =
          .ok (text ++ [0], text.length, [])) ∧
      strtoull (text ++ 0 :: rest) (readBase conv) = (v, text.length) := by
  have hprecZero : ¬(v = 0 ∧ precValue prec = 0) := by
    rintro ⟨hzero, hp⟩
    refine hne ⟨hzero, ?_⟩
    cases prec with
    | none => cases hp
    | some p => simpa [precValue] using hp
  have hbase : readBase conv = 8 ∨ readBase conv = 10 ∨ readBase conv = 16 := by
    rcases hconv with rfl | rfl | rfl | rfl <;> decide
  have hconvert : ∀ size, convert fl (outputOf size [] []) ⟨flags, width, precValue prec, 2⟩ conv
      [.word v] = .ok (outputOf size (integerText v false (readBase conv) (conv == 88) width
        (precValue prec) { flags with plus := false, space := false } conv) [], []) := by
    intro size
    rcases hconv with rfl | rfl | rfl | rfl <;> simp [convert, unsignedArg, readBase]
  have hleft' : ({ flags with plus := false, space := false } : FmtFlags).left = false := hleft
  obtain ⟨a, b, sign, pre, htext, hsign, hneg, hpre, hlen⟩ :=
    @integerText_eq v false (conv == 88) (readBase conv) width (precValue prec) _ conv hleft'
      (by omega) hwidth hprecZero
  refine ⟨_, fun size hsize => vsnprintf_formatOf hleft hwidth
    (fun p hp => by have := hprec p hp; omega) hconvert hlen hsize, ?_⟩
  rw [htext, strtoull_text hbase (conv == 88) v.toNat a b hsign hpre rest, if_neg (by simp [hneg]),
    UInt64.ofNat_toNat]

/-- **A signed number** comes back. -/
theorem signed_round_trip (fl : FloatOps) {flags : FmtFlags} {width : Nat} {prec : Option Nat}
    (hleft : flags.left = false) (hwidth : width < 2147483648)
    (hprec : ∀ p, prec = some p → p ≤ 80) {v : UInt64} (hne : ¬(v = 0 ∧ prec = some 0))
    (rest : Text) :
    ∃ text : Text, (∀ size, text.length < size →
        vsnprintf fl size (formatOf flags width prec 100) [.word v] =
          .ok (text ++ [0], text.length, [])) ∧
      strtoll (text ++ 0 :: rest) 10 = (v.toInt64, text.length) := by
  have hback := magnitude_signed v
  obtain ⟨neg, hsigned⟩ : ∃ neg, decide (v.toInt64.toInt < 0) = neg := ⟨_, rfl⟩
  obtain ⟨m, hmag⟩ : ∃ m, UInt64.ofNat v.toInt64.toInt.natAbs = m := ⟨_, rfl⟩
  rw [hmag] at hback
  have hprecZero : ¬(m = 0 ∧ precValue prec = 0) := by
    rintro ⟨rfl, hp⟩
    refine hne ⟨?_, ?_⟩
    · rw [← hback]
      split <;> rfl
    · cases prec with
      | none => cases hp
      | some p => simpa [precValue] using hp
  have hconvert : ∀ size, convert fl (outputOf size [] []) ⟨flags, width, precValue prec, 2⟩ 100
      [.word v] = .ok (outputOf size (integerText m neg 10 false width (precValue prec) flags 100)
        [], []) := by
    intro size
    simp [convert, signedArg, ← hmag, ← hsigned]
  obtain ⟨a, b, sign, pre, htext, hsign, hneg, hpre, hlen⟩ :=
    @integerText_eq m neg false 10 width (precValue prec) flags 100 hleft (by omega) hwidth
      hprecZero
  refine ⟨_, fun size hsize => vsnprintf_formatOf hleft hwidth
    (fun p hp => by have := hprec p hp; omega) hconvert hlen hsize, ?_⟩
  rw [strtoll, htext, strtoull_text (.inr (.inl rfl)) false m.toNat a b hsign hpre rest,
    UInt64.ofNat_toNat]
  refine Prod.ext (congrArg UInt64.toInt64 ?_) rfl
  simp only [hneg, ← hsigned, decide_eq_true_eq]
  exact hback

/-- **Integers** come back from their text, and the buffer of `vsnprintf` holds the beginning of
one text for every size exactly when no number overruns the array of `fmt_float`. -/
theorem format_and_parse (fl : FloatOps) :
    (∀ (conv : UInt8) (flags : FmtFlags) (width : Nat) (prec : Option Nat) (v : UInt64)
        (rest : Text), conv ∈ ([100, 117, 120, 88, 111] : List UInt8) → flags.left = false →
      width < 2147483648 → (∀ p, prec = some p → p ≤ 80) → ¬(v = 0 ∧ prec = some 0) →
      ∃ text : Text, (∀ size, text.length < size →
          vsnprintf fl size (formatOf flags width prec conv) [.word v] =
            .ok (text ++ [0], text.length, [])) ∧
        if conv = 100 then strtoll (text ++ 0 :: rest) 10 = (v.toInt64, text.length)
        else strtoull (text ++ 0 :: rest) (readBase conv) = (v, text.length)) ∧
    ∀ (fmt : Text) (args : List Arg),
      ((∀ size, vsnprintf fl size fmt args = .error .arguments) ∨
        ∃ (text : Text) (stores : List (UInt64 × Int)), ∀ size, vsnprintf fl size fmt args =
          .ok (if size = 0 then [] else text.take (size - 1) ++ [0], toInt text.length, stores)) ↔
        FloatsFit fl (fmt.length + 1) fmt args := by
  refine ⟨?_, vsnprintf_cut fl⟩
  intro conv flags width prec v rest hconv hleft hwidth hprec hne
  simp only [List.mem_cons, List.not_mem_nil, or_false] at hconv
  rcases hconv with rfl | hconv
  · obtain ⟨text, hformat, hread⟩ := signed_round_trip fl hleft hwidth hprec hne rest
    exact ⟨text, hformat, by rwa [if_pos rfl]⟩
  · obtain ⟨text, hformat, hread⟩ := unsigned_round_trip fl hconv hleft hwidth hprec hne rest
    refine ⟨text, hformat, ?_⟩
    have hnot : conv ≠ 100 := by
      rcases hconv with rfl | rfl | rfl | rfl <;> decide
    rwa [if_neg hnot]

/-- The digits of `1e300`, which is `0x7E37E43C8800759C`: 18 of them are `100000000000000005`. -/
def digitsOfHuge : FloatOps where
  digits v _ :=
    if v = 0 then (fun _ => 48, 0)
    else (fun i => if i = 0 then 49 else if i = 17 then 53 else 48, 300)
  overHalf _ _ := false
  exponent_zero _ := rfl
  exponent_le v _ := by
    split <;> decide
  exponent_near v _ _ := by
    split <;> decide

/-- `%.300f` of `1e300` overruns the array. -/
theorem huge_overruns :
    ¬((∀ size, vsnprintf digitsOfHuge size [37, 46, 51, 48, 48, 102] [.double 0x7E37E43C8800759C] =
        .error .arguments) ∨
      ∃ (text : Text) (stores : List (UInt64 × Int)), ∀ size,
        vsnprintf digitsOfHuge size [37, 46, 51, 48, 48, 102] [.double 0x7E37E43C8800759C] =
          .ok (if size = 0 then [] else text.take (size - 1) ++ [0], toInt text.length,
            stores)) := by
  rw [vsnprintf_cut]
  have hdirective : directive [46, 51, 48, 48, 102] [.double 0x7E37E43C8800759C] =
      some (⟨{}, 0, 300, 0⟩, [102], [.double 0x7E37E43C8800759C]) := rfl
  intro hfit
  rw [List.length_cons, FloatsFit, if_pos rfl, hdirective] at hfit
  exact hfit.1 ⟨_, _, rfl, by decide, .inl rfl, by decide⟩

end Libc
