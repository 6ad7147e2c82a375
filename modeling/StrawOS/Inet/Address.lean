import StrawOS.Inet.Table
import StrawOS.Libc.Printf

/-!
# Addresses as text

`inet_parse_addr` reads `d.d.d.d:d` in one pass: a counter of the numbers that are done,
the value of the one at hand, and whether it has a digit yet.  `Form` is what such a text
looks like for a list of separators; the pass finds exactly the texts of that form.
-/

namespace Inet

open Decimal Libc

/-- The string at an address: the characters up to the NUL. -/
def stringAt (memory : Text) : Text := memory.takeWhile fun c => decide (c ≠ 0)

/-- The separators of an address. -/
def separators : List UInt8 := [46, 46, 46, 58]

/-- A text of numbers up to 65535, one more than there are separators between them. -/
def Form : List UInt8 → List Nat → Text → Prop
  | [], [v], text => Number text v ∧ v ≤ 65535
  | sep :: seps, v :: vs, text =>
      ∃ front rest, text = front ++ sep :: rest ∧ Number front v ∧ v ≤ 65535 ∧ Form seps vs rest
  | _, _, _ => False

/-! ## The pass -/

theorem front_unique {pre front name rest : Text} {c sep : UInt8}
    (hpre : ∀ x ∈ pre, isDigit x = true) (hc : isDigit c = false)
    (hfront : ∀ x ∈ front, isDigit x = true) (hsep : isDigit sep = false)
    (h : pre ++ c :: name = front ++ sep :: rest) : pre = front ∧ c = sep ∧ name = rest := by
  induction pre generalizing front with
  | nil =>
    cases front with
    | nil => simpa using h
    | cons x front => grind
  | cons x pre ih =>
    cases front with
    | nil => grind
    | cons y front => grind

theorem form_separator {seps : List UInt8} {vs : List Nat} {pre name : Text} {c sep : UInt8}
    (hpre : ∀ x ∈ pre, isDigit x = true) (hc : isDigit c = false) (hsep : isDigit sep = false) :
    Form (sep :: seps) vs (pre ++ c :: name) ↔
      c = sep ∧ pre ≠ [] ∧ value 0 pre ≤ 65535 ∧
        ∃ rest, vs = value 0 pre :: rest ∧ Form seps rest name := by
  cases vs with
  | nil => simp [Form]
  | cons v vs =>
    constructor
    · rintro ⟨front, rest, htext, hnum, hv, hform⟩
      obtain ⟨rfl, rfl, rfl⟩ := front_unique hpre hc hnum.digits hsep htext
      obtain rfl := hnum.value
      exact ⟨rfl, hnum.nonempty, hv, vs, rfl, hform⟩
    · rintro ⟨rfl, hne, hv, rest, hvs, hform⟩
      obtain ⟨rfl, rfl⟩ := List.cons_eq_cons.mp hvs
      exact ⟨pre, name, rfl, ⟨hne, hpre, rfl⟩, hv, hform⟩

theorem form_last {vs : List Nat} {pre : Text} (hpre : ∀ x ∈ pre, isDigit x = true) :
    Form [] vs pre ↔ pre ≠ [] ∧ value 0 pre ≤ 65535 ∧ vs = [value 0 pre] := by
  match vs with
  | [] => simp [Form]
  | [v] =>
    constructor
    · intro h
      obtain rfl := h.1.value
      exact ⟨h.1.nonempty, h.2, rfl⟩
    · rintro ⟨hne, hv, hvs⟩
      obtain rfl : v = value 0 pre := by simpa using hvs
      exact ⟨⟨hne, hpre, rfl⟩, hv⟩
  | v :: w :: vs => simp [Form]

/-- No text of the form has a number that is too large at its front. -/
theorem form_small {seps : List UInt8} {vs : List Nat} {pre name : Text}
    (hseps : ∀ sep ∈ seps, isDigit sep = false) (hpre : ∀ x ∈ pre, isDigit x = true)
    (h : Form seps vs (pre ++ name)) : value 0 pre ≤ 65535 := by
  match seps, vs with
  | [], [v] =>
    have hle := le_value (value 0 pre) name
    rw [← value_append, h.1.value] at hle
    exact hle.trans h.2
  | [], [] => exact h.elim
  | [], _ :: _ :: _ => exact h.elim
  | _ :: _, [] => exact h.elim
  | sep :: seps, v :: vs =>
    obtain ⟨front, rest, htext, hnum, hv, _⟩ := h
    have hprefix : ∃ more, front = pre ++ more := by
      obtain ⟨more, hfront, _⟩ | ⟨more, hfront, htail⟩ := List.append_eq_append_iff.mp htext
      · exact ⟨more, hfront⟩
      · cases more with
        | nil => exact ⟨[], by simpa using hfront.symm⟩
        | cons x more =>
          have hx := hpre x (by grind)
          grind
    obtain ⟨more, rfl⟩ := hprefix
    have hle := le_value (value 0 pre) more
    rw [← value_append, hnum.value] at hle
    exact hle.trans hv

theorem not_form_digits {sep : UInt8} {seps : List UInt8} {vs : List Nat} {pre : Text}
    (hsep : isDigit sep = false) (hpre : ∀ x ∈ pre, isDigit x = true) :
    ¬Form (sep :: seps) vs pre := by
  intro h
  cases vs with
  | nil => exact h.elim
  | cons v vs =>
    obtain ⟨front, rest, rfl, _⟩ := h
    grind

theorem not_form_last {vs : List Nat} {pre name : Text} {c : UInt8} (hc : isDigit c = false) :
    ¬Form [] vs (pre ++ c :: name) := by
  intro h
  match vs with
  | [v] =>
    have := h.1.digits c (by simp)
    grind
  | [] => exact h.elim
  | _ :: _ :: _ => exact h.elim

theorem separators_not_digit : ∀ sep ∈ separators, isDigit sep = false := by decide +kernel

theorem separators_drop {n : Nat} (hn : n ≤ 4) :
    (n = 4 ∧ separators.drop n = []) ∨
      ∃ sep, separators.drop n = sep :: separators.drop (n + 1) ∧ isDigit sep = false ∧ n < 4 ∧
        ∀ c : UInt8, (c = 46 ∧ n < 3) ∨ (c = 58 ∧ n = 3) ↔ c = sep := by
  have hcase : n < 3 ∨ n = 3 ∨ n = 4 := by omega
  rcases hcase with hlow | rfl | rfl
  · refine .inr ⟨46, ?_, by decide, by omega, by grind⟩
    have : n = 0 ∨ n = 1 ∨ n = 2 := by omega
    rcases this with rfl | rfl | rfl <;> rfl
  · exact .inr ⟨58, rfl, by decide, by omega, by grind⟩
  · exact .inl ⟨rfl, rfl⟩

theorem inetParseParts_cons (c : UInt8) (name : Text) (parts : List Nat) (v : Nat) (digit : Bool) :
    inetParseParts (c :: name) parts v digit =
      if isDigit c then
        if 65535 < push v c then none else inetParseParts name parts (push v c) true
      else if (c = 46 ∧ parts.length < 3) ∨ (c = 58 ∧ parts.length = 3) then
        if digit then inetParseParts name (parts ++ [v]) 0 false else none
      else none := by
  simp only [inetParseParts, isDigit, push, Bool.and_eq_true, decide_eq_true_eq] <;> rfl

/-- **The pass**: with the digits `pre` of the number at hand already read, the pass goes on
to the end exactly on texts of the form. -/
theorem inetParseParts_iff {parts ps : List Nat} {pre name : Text} (hparts : parts.length ≤ 4)
    (hpre : ∀ x ∈ pre, isDigit x = true) (hsmall : value 0 pre ≤ 65535) :
    inetParseParts name parts (value 0 pre) (decide (pre ≠ [])) = some ps ↔
      ∃ vs, ps = parts ++ vs ∧ Form (separators.drop parts.length) vs (pre ++ name) := by
  induction name generalizing parts pre with
  | nil =>
    rw [inetParseParts, List.append_nil]
    obtain ⟨hlast, hdrop⟩ | ⟨sep, hdrop, hsep, hlt, _⟩ := separators_drop hparts
    · rw [hdrop]
      simp only [form_last hpre]
      grind
    · have hnone := fun vs =>
        @not_form_digits sep (separators.drop (parts.length + 1)) vs pre hsep hpre
      grind
  | cons c name ih =>
    by_cases hdigit : isDigit c = true
    · -- a digit goes to the number at hand
      have hmore : ∀ x ∈ pre ++ [c], isDigit x = true := by grind
      have hpush : value 0 (pre ++ [c]) = push (value 0 pre) c := by
        rw [value_append, value_cons, value_nil]
      have htext : pre ++ c :: name = pre ++ [c] ++ name := by simp
      rw [inetParseParts_cons, if_pos hdigit, ← hpush, htext]
      by_cases hlarge : 65535 < value 0 (pre ++ [c])
      · have hseps : ∀ sep ∈ separators.drop parts.length, isDigit sep = false :=
          fun sep hmem => separators_not_digit sep (List.mem_of_mem_drop hmem)
        have hnone := fun vs => @form_small _ vs _ name hseps hmore
        grind
      · rw [if_neg hlarge]
        have hgo := ih hparts hmore (by omega)
        rwa [decide_eq_true (by simp)] at hgo
    · have hother : isDigit c = false := by simpa using hdigit
      rw [inetParseParts_cons, if_neg hdigit]
      obtain ⟨hlast, hdrop⟩ | ⟨sep, hdrop, hsep, hlt, hiff⟩ := separators_drop hparts
      · -- no separator is left, and the text goes on
        have hnone := fun vs => @not_form_last vs pre name c hother
        grind
      · simp only [hiff c, hdrop, form_separator hpre hother hsep]
        by_cases hc : c = sep
        · have hgo := @ih (parts ++ [value 0 pre]) [] (by simp; omega) (by simp) (by simp)
          simp only [value_nil, ne_eq, not_true_eq_false, decide_false, List.nil_append,
            List.length_append, List.length_singleton, List.append_assoc,
            List.singleton_append] at hgo
          by_cases hempty : pre = []
          · simp [hempty]
          · grind
        · grind

theorem form_separators {ps : List Nat} {text : Text} :
    Form separators ps text ↔ ∃ a b c d port : Text, ∃ x y z w p : Nat,
      text = a ++ 46 :: (b ++ 46 :: (c ++ 46 :: (d ++ 58 :: port))) ∧
      Number a x ∧ Number b y ∧ Number c z ∧ Number d w ∧ Number port p ∧
      ps = [x, y, z, w, p] ∧ x ≤ 65535 ∧ y ≤ 65535 ∧ z ≤ 65535 ∧ w ≤ 65535 ∧ p ≤ 65535 := by
  match ps with
  | [x, y, z, w, p] =>
    constructor
    · rintro ⟨a, _, rfl, ha, hx, b, _, rfl, hb, hy, c, _, rfl, hc, hz, d, port, rfl, hd, hw, hp⟩
      exact ⟨a, b, c, d, port, x, y, z, w, p, rfl, ha, hb, hc, hd, hp.1, rfl, hx, hy, hz, hw, hp.2⟩
    · rintro ⟨a, b, c, d, port, _, _, _, _, _, rfl, ha, hb, hc, hd, hp, hps, hx, hy, hz, hw, hport⟩
      cases hps
      exact ⟨a, _, rfl, ha, hx, b, _, rfl, hb, hy, c, _, rfl, hc, hz, d, port, rfl, hd, hw, hp,
        hport⟩
  | [] => simp [Form, separators]
  | [_] => simp [Form, separators]
  | [_, _] => simp [Form, separators]
  | [_, _, _] => simp [Form, separators]
  | [_, _, _, _] => simp [Form, separators]
  | _ :: _ :: _ :: _ :: _ :: _ :: _ => simp [Form, separators]

/-- What `inet_parse_addr` accepts, and what it yields. -/
def Addr (text : Text) (r : Ipv4Addr × UInt16) : Prop :=
  ∃ a b c d port : Text, ∃ (x y z w : UInt8) (p : UInt16),
    text = a ++ 46 :: (b ++ 46 :: (c ++ 46 :: (d ++ 58 :: port))) ∧
    Number a x.toNat ∧ Number b y.toNat ∧ Number c z.toNat ∧ Number d w.toNat ∧
    Number port p.toNat ∧ r = (ipv4FromBytes x y z w, p)

theorem inetParseAddr_iff (name : Text) (r : Ipv4Addr × UInt16) :
    inetParseAddr name = some r ↔ Addr name r := by
  have hloop := fun ps => @inetParseParts_iff [] ps [] name (by simp) (by simp) (by simp)
  simp only [value_nil, ne_eq, not_true_eq_false, decide_false, List.nil_append, List.length_nil,
    List.drop_zero, exists_eq_left'] at hloop
  rw [inetParseAddr]
  constructor
  · intro h
    split at h
    next x y z w p hps =>
      obtain ⟨a, b, c, d, port, _, _, _, _, _, htext, ha, hb, hc, hd, hp, heq, _, _, _, _, hle⟩ :=
        form_separators.mp ((hloop _).mp hps)
      cases heq
      split at h
      case isFalse => cases h
      case isTrue =>
        obtain rfl := Option.some.inj h
        refine ⟨a, b, c, d, port, .ofNat x, .ofNat y, .ofNat z, .ofNat w, .ofNat p, htext, ?_⟩
        simp only [UInt8.toNat_ofNat', UInt16.toNat_ofNat']
        rw [Nat.mod_eq_of_lt (by omega), Nat.mod_eq_of_lt (by omega), Nat.mod_eq_of_lt (by omega),
          Nat.mod_eq_of_lt (by omega), Nat.mod_eq_of_lt (by omega)]
        exact ⟨ha, hb, hc, hd, hp, trivial⟩
    next => cases h
  · rintro ⟨a, b, c, d, port, x, y, z, w, p, htext, ha, hb, hc, hd, hp, rfl⟩
    have hx := x.toNat_lt
    have hy := y.toNat_lt
    have hz := z.toNat_lt
    have hw := w.toNat_lt
    have hport := p.toNat_lt
    have hps := (hloop _).mpr (form_separators.mpr ⟨a, b, c, d, port, _, _, _, _, _, htext, ha, hb,
      hc, hd, hp, rfl, by omega, by omega, by omega, by omega, by omega⟩)
    rw [hps]
    simp only
    rw [if_pos (by omega)]
    simp

/-! ## The text of an address -/

/-- The format of `net_connect`. -/
def addrFormat : Text := [37, 117, 46, 37, 117, 46, 37, 117, 46, 37, 117, 58, 37, 117]

/-- What `net_connect` makes of an address in its buffer of 32 bytes. -/
def formatAddr (fl : FloatOps) (x y z w : UInt8) (p : UInt16) :
    Except Fault (Text × Int × List (UInt64 × Int)) :=
  vsnprintf fl 32 addrFormat
    [.word x.toUInt64, .word y.toUInt64, .word z.toUInt64, .word w.toUInt64, .word p.toUInt64]

/-- The text of an address. -/
def addrText (x y z w : UInt8) (p : UInt16) : Text :=
  digits x.toNat ++ [46] ++ digits y.toNat ++ [46] ++ digits z.toNat ++ [46] ++
    digits w.toNat ++ [58] ++ digits p.toNat

theorem length_digits_byte (x : UInt8) : (digits x.toNat).length ≤ 3 := by
  have hx := x.toNat_lt
  exact length_digits (by omega) (by omega)

theorem vsnprintfLoop_byte (fl : FloatOps) (fuel : Nat) (text : Text) (x : UInt8) {sep : UInt8}
    (hsep : sep ≠ 37) (fmt : Text) (args : List Arg) :
    vsnprintfLoop fl (fuel + 2) (outputOf 32 text []) (37 :: 117 :: sep :: fmt)
        (.word x.toUInt64 :: args) =
      vsnprintfLoop fl fuel (outputOf 32 (text ++ digits x.toNat ++ [sep]) []) fmt args := by
  have hword : x.toUInt64.toNat = x.toNat := UInt8.toNat_toUInt64 x
  have hsmall : x.toUInt64.toNat < 4294967296 := by
    have := x.toNat_lt
    omega
  rw [vsnprintfLoop_u fl (fuel + 1) 32 text [] hsmall, hword, vsnprintfLoop_char fl _ _ _ _ hsep]

theorem formatAddr_eq (fl : FloatOps) (x y z w : UInt8) (p : UInt16) :
    ∃ n, formatAddr fl x y z w p = .ok (addrText x y z w p ++ [0], n, []) := by
  have hx := length_digits_byte x
  have hy := length_digits_byte y
  have hz := length_digits_byte z
  have hw := length_digits_byte w
  have hport : (digits p.toNat).length ≤ 5 := by
    have := p.toNat_lt
    exact length_digits (by omega) (by omega)
  have hpword : p.toUInt64.toNat = p.toNat := UInt16.toNat_toUInt64 p
  have hpsmall : p.toUInt64.toNat < 4294967296 := by
    have := p.toNat_lt
    omega
  have hloop : vsnprintfLoop fl 15 (outputOf 32 [] []) addrFormat
      [.word x.toUInt64, .word y.toUInt64, .word z.toUInt64, .word w.toUInt64, .word p.toUInt64] =
      .ok (outputOf 32 (addrText x y z w p) []) := by
    rw [addrFormat, vsnprintfLoop_byte fl 13 _ x (by decide), vsnprintfLoop_byte fl 11 _ y (by decide),
      vsnprintfLoop_byte fl 9 _ z (by decide), vsnprintfLoop_byte fl 7 _ w (by decide),
      vsnprintfLoop_u fl 6 32 _ [] hpsmall, hpword]
    simp [vsnprintfLoop, addrText]
  have hfits : (addrText x y z w p).length ≤ 31 := by
    simp [addrText]
    omega
  have hstart : ({ size := if 32 = 0 then 1 else 32 } : FmtOut) = outputOf 32 [] [] := rfl
  rw [formatAddr, vsnprintf, hstart]
  simp only [addrFormat, List.length_cons, List.length_nil, Nat.reduceAdd] at hloop ⊢
  rw [hloop]
  simp [outputOf, List.take_of_length_le hfits]

theorem digits_ne_zero {v : Nat} {c : UInt8} (h : c ∈ digits v) : c ≠ 0 := by
  rintro rfl
  exact absurd ((number_digits v).digits 0 h) (by decide)

theorem addrText_ne_zero (x y z w : UInt8) (p : UInt16) : ∀ c ∈ addrText x y z w p, c ≠ 0 := by
  intro c hc
  simp only [addrText, List.mem_append, List.mem_singleton] at hc
  grind [digits_ne_zero]

/-- **`inet_parse_addr`** accepts exactly the texts of an address and yields its five numbers,
and it reads the text that `net_connect` makes of an address and a port, with the NUL and
anything else that stands behind it. -/
theorem inet_parse_addr :
    (∀ (name : Text) (r : Ipv4Addr × UInt16),
      inetParseAddr (stringAt name) = some r ↔
        ∃ a b c d port : Text, ∃ (x y z w : UInt8) (p : UInt16),
          stringAt name = a ++ 46 :: (b ++ 46 :: (c ++ 46 :: (d ++ 58 :: port))) ∧
          Number a x.toNat ∧ Number b y.toNat ∧ Number c z.toNat ∧ Number d w.toNat ∧
          Number port p.toNat ∧ r = (ipv4FromBytes x y z w, p)) ∧
      ∀ (fl : FloatOps) (x y z w : UInt8) (p : UInt16) (rest : Text), ∃ memory n,
        formatAddr fl x y z w p = .ok (memory, n, []) ∧
          inetParseAddr (stringAt (memory ++ rest)) = some (ipv4FromBytes x y z w, p) := by
  refine ⟨fun name => inetParseAddr_iff (stringAt name), ?_⟩
  intro fl x y z w p rest
  obtain ⟨n, hformat⟩ := formatAddr_eq fl x y z w p
  refine ⟨addrText x y z w p ++ [0], n, hformat, ?_⟩
  have htext : stringAt (addrText x y z w p ++ [0] ++ rest) = addrText x y z w p := by
    rw [stringAt, List.append_assoc, List.singleton_append, List.takeWhile_append_of_pos (by simpa using addrText_ne_zero x y z w p)]
    simp
  rw [inetParseAddr_iff, htext]
  exact ⟨_, _, _, _, _, x, y, z, w, p, by simp [addrText], number_digits _, number_digits _,
    number_digits _, number_digits _, number_digits _, rfl⟩

end Inet
