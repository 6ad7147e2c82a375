import Mathlib.Data.UInt
import Mathlib.Tactic.IntervalCases

/-!
# Reading and writing MLS structures

The writers and the reader of `mls.c`: numbers in network order and vectors with a
length of one, two or four bytes in front.  A reader is the rest of its input and
an error flag, which stays once it is set.

What is read back is what was written, as long as a vector is shorter than
`2 ^ 30` bytes: `w_varint` has no room for more and does not say so.
-/

namespace Mls

abbrev Bytes := List UInt8

/-! ## Writers -/

def wU8 (v : UInt8) : Bytes := [v]

def wU16 (v : Nat) : Bytes := [UInt8.ofNat (v / 2 ^ 8), UInt8.ofNat v]

def wU32 (v : Nat) : Bytes :=
  [UInt8.ofNat (v / 2 ^ 24), UInt8.ofNat (v / 2 ^ 16), UInt8.ofNat (v / 2 ^ 8), UInt8.ofNat v]

def wU64 (v : Nat) : Bytes := wU32 (v / 2 ^ 32) ++ wU32 (v % 2 ^ 32)

def wVarint (n : Nat) : Bytes :=
  if n < 0x40 then wU8 (UInt8.ofNat n)
  else if n < 0x4000 then wU16 (0x4000 ||| n)
  else wU32 ((0x80000000 ||| n) % 2 ^ 32)

/-- `w_opaque`, and `w_buf`. -/
def wOpaque (data : Bytes) : Bytes := wVarint data.length ++ data

/-! ## The reader -/

structure Rd where
  rest : Bytes
  err : Bool

def rd (data : Bytes) : Rd := ⟨data, false⟩

def rTake (r : Rd) (n : Nat) : Option Bytes × Rd :=
  if r.err ∨ r.rest.length < n then (none, { r with err := true })
  else (some (r.rest.take n), { r with rest := r.rest.drop n })

/-- The number in network order of the bytes that were read, or zero. -/
def number : Option Bytes → Nat
  | some bs => bs.foldl (fun n b => n * 2 ^ 8 + b.toNat) 0
  | none => 0

def rU8 (r : Rd) : Nat × Rd := (number (rTake r 1).1, (rTake r 1).2)

def rU16 (r : Rd) : Nat × Rd := (number (rTake r 2).1, (rTake r 2).2)

def rU32 (r : Rd) : Nat × Rd := (number (rTake r 4).1, (rTake r 4).2)

def rU64 (r : Rd) : Nat × Rd :=
  let hi := rU32 r
  let lo := rU32 hi.2
  (hi.1 * 2 ^ 32 + lo.1, lo.2)

def rVarint (r : Rd) : Nat × Rd :=
  let first := rU8 r
  match first.1 / 2 ^ 6 with
  | 0 => first
  | 1 =>
    let b := rU8 first.2
    (first.1 % 2 ^ 6 * 2 ^ 8 + b.1, b.2)
  | 2 =>
    let b := rU8 first.2
    let c := rU8 b.2
    let d := rU8 c.2
    (first.1 % 2 ^ 6 * 2 ^ 24 + b.1 * 2 ^ 16 + c.1 * 2 ^ 8 + d.1, d.2)
  | _ => (0, { first.2 with err := true })

def rOpaque (r : Rd) : Option Bytes × Rd :=
  let n := rVarint r
  rTake n.2 n.1

/-- The reader of a vector, or one that has failed. -/
def subReader : Option Bytes → Rd
  | some p => rd p
  | none => ⟨[], true⟩

def rSub (r : Rd) : Rd × Rd := (subReader (rOpaque r).1, (rOpaque r).2)

def rFixed (r : Rd) (want : Nat) : Option Bytes × Rd :=
  match rOpaque r with
  | (some p, r) => if p.length = want then (some p, r) else (none, { r with err := true })
  | (none, r) => (none, { r with err := true })

def rDone (r : Rd) : Bool := !r.err && r.rest.isEmpty

/-! ## What was written is read -/

theorem rTake_append (a b : Bytes) : rTake ⟨a ++ b, false⟩ a.length = (some a, ⟨b, false⟩) := by
  rw [rTake, if_neg (by simp)]
  simp

theorem rU8_cons (b : UInt8) (rest : Bytes) : rU8 ⟨b :: rest, false⟩ = (b.toNat, ⟨rest, false⟩) := by
  rw [rU8, rTake, if_neg (by simp)]
  simp [number]

theorem rU16_wU16 {v : Nat} (h : v < 2 ^ 16) (rest : Bytes) :
    rU16 ⟨wU16 v ++ rest, false⟩ = (v, ⟨rest, false⟩) := by
  have htake := rTake_append (wU16 v) rest
  simp only [wU16, List.length_cons, List.length_nil] at htake
  simp only [rU16, wU16, htake, number, List.foldl_cons, List.foldl_nil, UInt8.toNat_ofNat']
  have : (0 * 2 ^ 8 + v / 2 ^ 8 % 2 ^ 8) * 2 ^ 8 + v % 2 ^ 8 = v := by omega
  rw [this]

theorem rU32_wU32 {v : Nat} (h : v < 2 ^ 32) (rest : Bytes) :
    rU32 ⟨wU32 v ++ rest, false⟩ = (v, ⟨rest, false⟩) := by
  have htake := rTake_append (wU32 v) rest
  simp only [wU32, List.length_cons, List.length_nil] at htake
  simp only [rU32, wU32, htake, number, List.foldl_cons, List.foldl_nil, UInt8.toNat_ofNat']
  have : (((0 * 2 ^ 8 + v / 2 ^ 24 % 2 ^ 8) * 2 ^ 8 + v / 2 ^ 16 % 2 ^ 8) * 2 ^ 8 +
      v / 2 ^ 8 % 2 ^ 8) * 2 ^ 8 + v % 2 ^ 8 = v := by omega
  rw [this]

theorem rU64_wU64 {v : Nat} (h : v < 2 ^ 64) (rest : Bytes) :
    rU64 ⟨wU64 v ++ rest, false⟩ = (v, ⟨rest, false⟩) := by
  have hhi : v / 2 ^ 32 < 2 ^ 32 := by omega
  have hlo : v % 2 ^ 32 < 2 ^ 32 := by omega
  rw [rU64, wU64, List.append_assoc, rU32_wU32 hhi, rU32_wU32 hlo]
  have : v / 2 ^ 32 * 2 ^ 32 + v % 2 ^ 32 = v := by omega
  simp only [this]

/-- The largest vector. -/
def maxVector : Nat := 2 ^ 30

theorem rVarint_wVarint {n : Nat} (h : n < maxVector) (rest : Bytes) :
    rVarint ⟨wVarint n ++ rest, false⟩ = (n, ⟨rest, false⟩) := by
  rw [maxVector] at h
  rw [wVarint]
  split
  · rename_i h1
    have hn : n % 2 ^ 8 = n := by omega
    have hz : n / 2 ^ 6 = 0 := by omega
    simp only [wU8, List.cons_append, List.nil_append, rVarint, rU8_cons, UInt8.toNat_ofNat', hn, hz]
  · split
    · rename_i h1 h2
      have hor : 0x4000 ||| n = 2 ^ 14 + n := by
        have := Nat.two_pow_add_eq_or_of_lt (show n < 2 ^ 14 by omega) 1
        simpa using this.symm
      have hfirst : (2 ^ 14 + n) / 2 ^ 8 % 2 ^ 8 = 64 + n / 2 ^ 8 := by omega
      have hone : (64 + n / 2 ^ 8) / 2 ^ 6 = 1 := by omega
      simp only [wU16, List.cons_append, List.nil_append, rVarint, rU8_cons, UInt8.toNat_ofNat',
        hor, hfirst, hone]
      have hvalue : (64 + n / 2 ^ 8) % 2 ^ 6 * 2 ^ 8 + (2 ^ 14 + n) % 2 ^ 8 = n := by omega
      rw [hvalue]
    · have hor : 0x80000000 ||| n = 2 ^ 31 + n := by
        have := Nat.two_pow_add_eq_or_of_lt (show n < 2 ^ 31 by omega) 1
        simpa using this.symm
      have hmod : (2 ^ 31 + n) % 2 ^ 32 = 2 ^ 31 + n := by omega
      have hfirst : (2 ^ 31 + n) / 2 ^ 24 % 2 ^ 8 = 128 + n / 2 ^ 24 := by omega
      have htwo : (128 + n / 2 ^ 24) / 2 ^ 6 = 2 := by omega
      simp only [wU32, List.cons_append, List.nil_append, rVarint, rU8_cons, UInt8.toNat_ofNat',
        hor, hmod, hfirst, htwo]
      have hvalue : (128 + n / 2 ^ 24) % 2 ^ 6 * 2 ^ 24 + (2 ^ 31 + n) / 2 ^ 16 % 2 ^ 8 * 2 ^ 16 +
          (2 ^ 31 + n) / 2 ^ 8 % 2 ^ 8 * 2 ^ 8 + (2 ^ 31 + n) % 2 ^ 8 = n := by omega
      rw [hvalue]

theorem rOpaque_wOpaque {data : Bytes} (h : data.length < maxVector) (rest : Bytes) :
    rOpaque ⟨wOpaque data ++ rest, false⟩ = (some data, ⟨rest, false⟩) := by
  rw [rOpaque, wOpaque, List.append_assoc, rVarint_wVarint h]
  exact rTake_append data rest

theorem rSub_wOpaque {data : Bytes} (h : data.length < maxVector) (rest : Bytes) :
    rSub ⟨wOpaque data ++ rest, false⟩ = (rd data, ⟨rest, false⟩) := by
  rw [rSub, rOpaque_wOpaque h]
  rfl

theorem rFixed_wOpaque {data : Bytes} (h : data.length < maxVector) (rest : Bytes) :
    rFixed ⟨wOpaque data ++ rest, false⟩ data.length = (some data, ⟨rest, false⟩) := by
  rw [rFixed, rOpaque_wOpaque h]
  simp

/-! ## Parsers -/

/-- A function that reads, and may give up with the reader where it is. -/
def Parser (α : Type) : Type := Rd → Option α × Rd

namespace Parser

variable {α β : Type}

instance : Monad Parser where
  pure a := fun r => (some a, r)
  bind m f := fun r =>
    match m r with
    | (some a, r) => f a r
    | (none, r) => (none, r)

theorem bind_some {m : Parser α} {f : α → Parser β} {r r' : Rd} {b : β} :
    (m >>= f) r = (some b, r') ↔ ∃ a r₁, m r = (some a, r₁) ∧ f a r₁ = (some b, r') := by
  have hrun : (m >>= f) r = match m r with
      | (some a, r) => f a r
      | (none, r) => (none, r) := rfl
  rw [hrun]
  rcases hv : m r with ⟨_ | a, r₁⟩
  · simp
  · grind

/-- A read that gives a value in any case. -/
def of (f : Rd → α × Rd) : Parser α := fun r => (some (f r).1, (f r).2)

def u8 : Parser Nat := of rU8
def u16 : Parser Nat := of rU16
def u32 : Parser Nat := of rU32
def u64 : Parser Nat := of rU64
def sub : Parser Rd := of rSub
def vector : Parser Bytes := rOpaque
def fixed (n : Nat) : Parser Bytes := fun r => rFixed r n

/-- Give up unless a condition holds. -/
def check (b : Bool) : Parser Unit := fun r => (if b then some () else none, r)

/-- Give up if a read failed. -/
def noErr : Parser Unit := fun r => (if r.err then none else some (), r)

/-- The bytes that a parser read, and its value. -/
def span (m : Parser α) : Parser (Bytes × α) := fun r =>
  match m r with
  | (some a, r') => (some (r.rest.take (r.rest.length - r'.rest.length), a), r')
  | (none, r') => (none, r')

/-! ### Running a parser -/

theorem bind_run {m : Parser α} {f : α → Parser β} {r r₁ : Rd} {a : α} (h : m r = (some a, r₁)) :
    (m >>= f) r = f a r₁ := by
  have hrun : (m >>= f) r = match m r with
      | (some a, r) => f a r
      | (none, r) => (none, r) := rfl
  rw [hrun, h]

theorem check_run {b : Bool} (h : b = true) (r : Rd) : check b r = (some (), r) := by
  rw [check, if_pos h]

theorem u8_run (b : UInt8) (rest : Bytes) :
    u8 ⟨wU8 b ++ rest, false⟩ = (some b.toNat, ⟨rest, false⟩) := by
  rw [u8, of, wU8, List.singleton_append, rU8_cons]

theorem u16_run {v : Nat} (h : v < 2 ^ 16) (rest : Bytes) :
    u16 ⟨wU16 v ++ rest, false⟩ = (some v, ⟨rest, false⟩) := by
  rw [u16, of, rU16_wU16 h]

theorem u32_run {v : Nat} (h : v < 2 ^ 32) (rest : Bytes) :
    u32 ⟨wU32 v ++ rest, false⟩ = (some v, ⟨rest, false⟩) := by
  rw [u32, of, rU32_wU32 h]

theorem u64_run {v : Nat} (h : v < 2 ^ 64) (rest : Bytes) :
    u64 ⟨wU64 v ++ rest, false⟩ = (some v, ⟨rest, false⟩) := by
  rw [u64, of, rU64_wU64 h]

theorem vector_run {data : Bytes} (h : data.length < maxVector) (rest : Bytes) :
    vector ⟨wOpaque data ++ rest, false⟩ = (some data, ⟨rest, false⟩) :=
  rOpaque_wOpaque h rest

theorem sub_run {data : Bytes} (h : data.length < maxVector) (rest : Bytes) :
    sub ⟨wOpaque data ++ rest, false⟩ = (some (rd data), ⟨rest, false⟩) := by
  rw [sub, of, rSub_wOpaque h]

theorem fixed_run {data : Bytes} {n : Nat} (hn : data.length = n) (h : n < maxVector) (rest : Bytes) :
    fixed n ⟨wOpaque data ++ rest, false⟩ = (some data, ⟨rest, false⟩) := by
  subst hn
  exact rFixed_wOpaque h rest

/-- The parser reads forward, keeps an error, and does the same with more behind or with
only what it reads. -/
structure Reads (m : Parser α) : Prop where
  sticky : ∀ r, r.err = true → (m r).2.err = true
  suffix : ∀ r, ∃ pre, r.rest = pre ++ (m r).2.rest
  more : ∀ xs ys, (m ⟨xs, false⟩).2.err = false →
    m ⟨xs ++ ys, false⟩ = ((m ⟨xs, false⟩).1, ⟨(m ⟨xs, false⟩).2.rest ++ ys, false⟩)
  exact : ∀ xs ys o, m ⟨xs ++ ys, false⟩ = (o, ⟨ys, false⟩) → m ⟨xs, false⟩ = (o, ⟨[], false⟩)

theorem Reads.still (o : Rd → Option α) (ho : ∀ xs ys, o ⟨xs ++ ys, false⟩ = o ⟨xs, false⟩) :
    Reads (fun r => (o r, r) : Parser α) := by
  refine ⟨fun _ h => h, fun r => ⟨[], rfl⟩, ?_, ?_⟩
  · intro xs ys _
    simp only [ho]
  · intro xs ys o' h
    simp only [Prod.mk.injEq, Rd.mk.injEq, and_true, List.append_left_eq_self] at h
    obtain ⟨rfl, rfl⟩ := h
    simp only [ho]

theorem Reads.pure (a : α) : Reads (pure a : Parser α) := Reads.still (fun _ => some a) fun _ _ => rfl

theorem Reads.check (b : Bool) : Reads (check b) :=
  Reads.still (fun _ => if b then some () else none) fun _ _ => rfl

theorem Reads.noErr : Reads noErr :=
  Reads.still (fun r => if r.err then none else some ()) fun _ _ => rfl

/-- **Binds.** -/
theorem Reads.bind {m : Parser α} {f : α → Parser β} (hm : Reads m) (hf : ∀ a, Reads (f a)) :
    Reads (m >>= f) := by
  have hrun : ∀ r, (m >>= f) r = match m r with
      | (some a, r) => f a r
      | (none, r) => (none, r) := fun _ => rfl
  constructor
  · intro r hr
    have hmid := hm.sticky r hr
    rw [hrun]
    rcases hv : m r with ⟨o, r'⟩
    rw [hv] at hmid
    cases o with
    | none => exact hmid
    | some a => exact (hf a).sticky r' hmid
  · intro r
    obtain ⟨pre, hpre⟩ := hm.suffix r
    rw [hrun]
    rcases hv : m r with ⟨o, r'⟩
    rw [hv] at hpre
    cases o with
    | none => exact ⟨pre, hpre⟩
    | some a =>
      obtain ⟨pre', hpre'⟩ := (hf a).suffix r'
      exact ⟨pre ++ pre', by rw [hpre, hpre', List.append_assoc]⟩
  · intro xs ys herr
    rw [hrun] at herr ⊢
    rw [hrun]
    rcases hv : m ⟨xs, false⟩ with ⟨o, r'⟩
    rw [hv] at herr
    -- The first part did not fail either, as errors stay.
    have hmid : r'.err = false := by
      by_contra hno
      have hno : r'.err = true := by simpa using hno
      cases o with
      | none => exact absurd (hno.symm.trans herr) (by decide)
      | some a => exact absurd (((hf a).sticky r' hno).symm.trans herr) (by decide)
    have hfirst := hm.more xs ys (by rw [hv]; exact hmid)
    rw [hv] at hfirst
    rw [hfirst]
    cases o with
    | none => simp
    | some a =>
      obtain ⟨rest, err⟩ := r'
      subst hmid
      exact (hf a).more rest ys herr
  · intro xs ys o h
    rw [hrun] at h ⊢
    obtain ⟨pre, hpre⟩ := hm.suffix ⟨xs ++ ys, false⟩
    rcases hv : m ⟨xs ++ ys, false⟩ with ⟨oa, rest, err⟩
    rw [hv] at h hpre
    cases oa with
    | none =>
      obtain ⟨rfl, hr⟩ := Prod.mk.inj h
      rw [hr] at hv
      rw [hm.exact xs ys none hv]
    | some a =>
      dsimp only at h hpre
      have herr : err = false := by
        by_contra hno
        have hlast := (hf a).sticky ⟨rest, err⟩ (by simpa using hno)
        rw [h] at hlast
        cases hlast
      subst herr
      -- What the second part read lies between what the first one read and the rest.
      obtain ⟨mid, hmid⟩ := (hf a).suffix ⟨rest, false⟩
      rw [h] at hmid
      subst hmid
      rw [← List.append_assoc] at hpre
      obtain rfl := List.append_cancel_right hpre
      rw [List.append_assoc] at hv
      have hfirst := hm.exact pre (mid ++ ys) (some a) hv
      have hmore := hm.more pre mid (by rw [hfirst])
      rw [hfirst] at hmore
      rw [hmore]
      exact (hf a).exact mid ys o h

/-- **Spans.** -/
theorem Reads.span {m : Parser α} (hm : Reads m) : Reads (span m) := by
  have hsnd : ∀ r, (Parser.span m r).2 = (m r).2 := by
    intro r
    rw [Parser.span]
    rcases hv : m r with ⟨o, r'⟩
    cases o <;> rfl
  constructor
  · intro r hr
    rw [hsnd]
    exact hm.sticky r hr
  · intro r
    rw [hsnd]
    exact hm.suffix r
  · intro xs ys herr
    rw [hsnd] at herr
    have hmore := hm.more xs ys herr
    rw [Parser.span, Parser.span, hmore]
    rcases hv : m ⟨xs, false⟩ with ⟨o, r'⟩
    cases o with
    | none => simp
    | some a => grind
  · intro xs ys o h
    have hr : (m ⟨xs ++ ys, false⟩).2 = ⟨ys, false⟩ := by
      rw [← hsnd, h]
    have hexact := hm.exact xs ys (m ⟨xs ++ ys, false⟩).1 (Prod.ext rfl hr)
    rw [Parser.span] at h ⊢
    rw [hexact]
    rcases hv : m ⟨xs ++ ys, false⟩ with ⟨oa, r'⟩
    rw [hv] at h hr
    subst hr
    cases oa with
    | none =>
      obtain ⟨rfl, -⟩ := Prod.mk.inj h
      rfl
    | some a =>
      obtain ⟨rfl, -⟩ := Prod.mk.inj h
      simp

theorem Reads.span_eq {m : Parser α} (hm : Reads m) {r r' : Rd} {raw : Bytes} {a : α}
    (h : Parser.span m r = (some (raw, a), r')) : r.rest = raw ++ r'.rest ∧ m r = (some a, r') := by
  rw [Parser.span] at h
  obtain ⟨pre, hpre⟩ := hm.suffix r
  rcases hv : m r with ⟨o, r''⟩
  rw [hv] at h hpre
  cases o with
  | none => simp at h
  | some a' =>
    simp only [Prod.mk.injEq, Option.some.injEq] at h
    obtain ⟨⟨rfl, rfl⟩, rfl⟩ := h
    have hlen : r.rest.length - r''.rest.length = pre.length := by
      rw [hpre]
      simp
    rw [hlen]
    constructor
    · rw [hpre, List.take_left]
    · rfl

/-! ### The reads -/

def take (n : Nat) : Parser Bytes := fun r => rTake r n

theorem Reads.take (n : Nat) : Reads (take n) := by
  constructor
  · intro r hr
    simp [Parser.take, rTake, hr]
  · intro r
    rw [Parser.take, rTake]
    split
    · exact ⟨[], rfl⟩
    · exact ⟨r.rest.take n, (List.take_append_drop n r.rest).symm⟩
  · intro xs ys herr
    rw [Parser.take, rTake] at herr
    have hlen : n ≤ xs.length := by
      by_contra hlt
      rw [if_pos (Or.inr (by simpa using hlt))] at herr
      cases herr
    simp only [Parser.take, rTake, Bool.false_eq_true, false_or, List.length_append]
    rw [if_neg (by omega), if_neg (by omega), List.take_append_of_le_length hlen,
      List.drop_append_of_le_length hlen]
  · intro xs ys o h
    rw [Parser.take, rTake] at h ⊢
    split at h
    · have : true = false := congrArg (fun v => v.2.err) h
      cases this
    · obtain ⟨rfl, hdrop⟩ := Prod.mk.inj h
      have hn : n = xs.length := by grind
      subst hn
      simp

theorem Reads.map {m : Parser α} (hm : Reads m) (g : Option α → β) :
    Reads (of fun r => (g (m r).1, (m r).2)) := by
  refine ⟨hm.sticky, hm.suffix, ?_, ?_⟩
  · intro xs ys herr
    have hmore := hm.more xs ys herr
    simp only [of, hmore]
  · intro xs ys o h
    obtain ⟨rfl, hr⟩ := Prod.mk.inj h
    have hexact := hm.exact xs ys (m ⟨xs ++ ys, false⟩).1 (Prod.ext rfl hr)
    simp only [of, hexact]

theorem Reads.u8 : Reads u8 := (Reads.take 1).map number

theorem Reads.u16 : Reads u16 := (Reads.take 2).map number

theorem Reads.u32 : Reads u32 := (Reads.take 4).map number

theorem Reads.u64 : Reads u64 :=
  Reads.u32.bind fun hi => Reads.u32.bind fun lo => Reads.pure (hi * 2 ^ 32 + lo)

/-- A length that is none. -/
def badLength : Parser Nat := fun r => (some 0, { r with err := true })

theorem Reads.badLength : Reads badLength := by
  refine ⟨fun _ _ => rfl, fun r => ⟨[], rfl⟩, (fun _ _ h => nomatch h), ?_⟩
  intro xs ys o h
  have : true = false := congrArg (fun v => v.2.err) h
  cases this

/-- `r_varint`, as a parser. -/
def varint : Parser Nat := u8 >>= fun first =>
  match first / 2 ^ 6 with
  | 0 => Pure.pure first
  | 1 => u8 >>= fun b => Pure.pure (first % 2 ^ 6 * 2 ^ 8 + b)
  | 2 => u8 >>= fun b => u8 >>= fun c => u8 >>= fun d =>
      Pure.pure (first % 2 ^ 6 * 2 ^ 24 + b * 2 ^ 16 + c * 2 ^ 8 + d)
  | _ => badLength

theorem of_rVarint : of rVarint = varint := by
  funext r
  have hbind : varint r = (match (rU8 r).1 / 2 ^ 6 with
      | 0 => (Pure.pure (rU8 r).1 : Parser Nat)
      | 1 => u8 >>= fun b => Pure.pure ((rU8 r).1 % 2 ^ 6 * 2 ^ 8 + b)
      | 2 => u8 >>= fun b => u8 >>= fun c => u8 >>= fun d =>
          Pure.pure ((rU8 r).1 % 2 ^ 6 * 2 ^ 24 + b * 2 ^ 16 + c * 2 ^ 8 + d)
      | _ => badLength) (rU8 r).2 := rfl
  rw [hbind, of, rVarint]
  generalize (rU8 r).1 / 2 ^ 6 = q
  match q with
  | 0 => rfl
  | 1 => rfl
  | 2 => rfl
  | q + 3 => rfl

theorem Reads.varint : Reads varint := by
  apply Reads.u8.bind
  intro first
  split
  · exact Reads.pure _
  · exact Reads.u8.bind fun b => Reads.pure _
  · exact Reads.u8.bind fun b => Reads.u8.bind fun c => Reads.u8.bind fun d => Reads.pure _
  · exact Reads.badLength

theorem Reads.vector : Reads vector := by
  have heq : Parser.vector = Parser.varint >>= Parser.take := by
    rw [← of_rVarint]
    rfl
  rw [heq]
  exact Reads.varint.bind Reads.take

theorem Reads.sub : Reads sub := Reads.vector.map subReader

end Parser

end Mls
