import StrawOS.Lib.Decimal
import StrawOS.Libc.FloatText
import StrawOS.Libc.Stdio

/-!
# Formatted output

`vsnprintf` with its flags, widths, precisions and lengths.  What `va_arg` takes is a word of 64
bits, a string or a `double`.  A call has no result where the arguments do not fit the format,
and where the text of a floating-point number overruns the array of `fmt_float`.

Every output goes through `fmt_putc`, which counts the characters and stores those that the
buffer has room for.
-/

namespace Libc

/-- `FmtOut`: the characters in the buffer, its size, how many there would be, and what `%n`
stored so far, with the addresses. -/
structure FmtOut where
  buf : Text := []
  size : Nat
  pos : Nat := 0
  stores : List (UInt64 × Int) := []

/-- An argument. -/
inductive Arg
  | word (v : UInt64)
  | str (s : Option Text)
  | double (bits : UInt64)

/-- Why a call has no result: the arguments do not fit the format, or the text of a number does
not fit its array. -/
inductive Fault
  | arguments
  | overrun
  deriving DecidableEq, Repr

def fmtPutc (o : FmtOut) (c : UInt8) : FmtOut :=
  { o with
    buf := if o.pos + 1 < o.size then o.buf ++ [c] else o.buf
    pos := o.pos + 1 }

/-- The loops over `fmt_putc`. -/
def fmtPuts (o : FmtOut) (s : Text) : FmtOut := s.foldl fmtPutc o

def fmtPad (o : FmtOut) (c : UInt8) (n : Int) : FmtOut := fmtPuts o (List.replicate n.toNat c)

def fmtEmit (o : FmtOut) (front body : Text) (width : Int) (flags : FmtFlags) : FmtOut :=
  let pad := toInt (width - (front.length + body.length : Nat))
  let o := if !flags.left && !flags.zero then fmtPad o 32 pad else o
  let o := fmtPuts o front
  let o := if !flags.left && flags.zero then fmtPad o 48 pad else o
  let o := fmtPuts o body
  if flags.left then fmtPad o 32 pad else o

/-- The body of `fmt_integer`: the digits, behind zeros up to the precision. -/
def integerBody (v : UInt64) (base : Nat) (upper alt : Bool) (prec : Int) (conv : UInt8) : Text :=
  let tmp := if v = 0 ∧ prec = 0 then [] else digitsIn base upper v.toNat
  let zeros := if prec > tmp.length then prec - tmp.length else 0
  let zeros := if conv = 111 ∧ alt ∧ zeros = 0 ∧ tmp.head? ≠ some 48 then 1 else zeros
  List.replicate (min zeros.toNat 80) 48 ++ tmp

/-- The sign in front of a number. -/
def signText (neg : Bool) (flags : FmtFlags) : Text :=
  if neg then [45] else if flags.plus then [43] else if flags.space then [32] else []

def fmtInteger (o : FmtOut) (v : UInt64) (neg : Bool) (base : Nat) (upper : Bool) (width prec : Int)
    (flags : FmtFlags) (conv : UInt8) : FmtOut :=
  let body := integerBody v base upper flags.alt prec conv
  let front :=
    if flags.alt ∧ base = 16 ∧ body ≠ [] ∧ body ≠ [48] then
      signText neg flags ++ (if upper then [48, 88] else [48, 120])
    else signText neg flags
  fmtEmit o front body width (if 0 ≤ prec then { flags with zero := false } else flags)

def fmtFloat (fl : FloatOps) (o : FmtOut) (bits : UInt64) (conv : UInt8) (width prec : Int)
    (flags : FmtFlags) : Except Fault FmtOut :=
  let upper := conv = 69 ∨ conv = 70 ∨ conv = 71 ∨ conv = 65
  let front := signText (decide (2 ^ 63 ≤ bits.toNat)) flags
  match specialText bits upper with
  | some body => .ok (fmtEmit o front body width { flags with zero := false })
  | none =>
      let body := floatBody fl (withoutSign bits) conv prec flags.alt
      if 512 < body.2 then .error .overrun else .ok (fmtEmit o front body.1 width flags)

/-- The loop over the flags. -/
def takeFlags (flags : FmtFlags) : Text → FmtFlags × Text
  | 45 :: fmt => takeFlags { flags with left := true } fmt
  | 43 :: fmt => takeFlags { flags with plus := true } fmt
  | 32 :: fmt => takeFlags { flags with space := true } fmt
  | 35 :: fmt => takeFlags { flags with alt := true } fmt
  | 48 :: fmt => takeFlags { flags with zero := true } fmt
  | fmt => (flags, fmt)

/-- The loop over the digits of a width or a precision. -/
def takeNumber (n : Int) : Text → Int × Text
  | c :: fmt =>
      if Decimal.isDigit c then takeNumber (toInt (n * 10 + (c.toNat - 48))) fmt else (n, c :: fmt)
  | [] => (n, [])

/-- `va_arg (ap, int)`. -/
def argInt (v : UInt64) : Int := v.toUInt32.toInt32.toInt

/-- The width, and the flags with it, which a negative one changes. -/
def takeWidth (flags : FmtFlags) (fmt : Text) (args : List Arg) :
    Option (Int × FmtFlags × Text × List Arg) :=
  match fmt, args with
  | 42 :: fmt, .word v :: args =>
      if argInt v < 0 then some (toInt (-argInt v), { flags with left := true }, fmt, args)
      else some (argInt v, flags, fmt, args)
  | 42 :: _, _ => none
  | fmt, args => some ((takeNumber 0 fmt).1, flags, (takeNumber 0 fmt).2, args)

/-- The precision, `-1` for none. -/
def takePrec (fmt : Text) (args : List Arg) : Option (Int × Text × List Arg) :=
  match fmt, args with
  | 46 :: 42 :: fmt, .word v :: args => some (argInt v, fmt, args)
  | 46 :: 42 :: _, _ => none
  | 46 :: fmt, args => some ((takeNumber 0 fmt).1, (takeNumber 0 fmt).2, args)
  | fmt, args => some (-1, fmt, args)

/-- The length. -/
def takeLength : Text → Int × Text
  | 104 :: 104 :: fmt => (-2, fmt)
  | 104 :: fmt => (-1, fmt)
  | 108 :: 108 :: fmt => (2, fmt)
  | 108 :: fmt => (1, fmt)
  | 122 :: fmt => (2, fmt)
  | 106 :: fmt => (2, fmt)
  | 116 :: fmt => (2, fmt)
  | 76 :: fmt => (0, fmt)
  | fmt => (0, fmt)

/-- What stands between a `%` and the conversion. -/
structure Directive where
  flags : FmtFlags
  width : Int
  prec : Int
  length : Int

/-- The part of a directive in front of the conversion, with the rest of the format and the
arguments; `none` where the arguments do not fit. -/
def directive (fmt : Text) (args : List Arg) : Option (Directive × Text × List Arg) :=
  match takeWidth (takeFlags {} fmt).1 (takeFlags {} fmt).2 args with
  | none => none
  | some (width, flags, fmt, args) =>
      match takePrec fmt args with
      | none => none
      | some (prec, fmt, args) =>
          some (⟨flags, width, prec, (takeLength fmt).1⟩, (takeLength fmt).2, args)

/-- A signed argument of a length. -/
def signedArg (length : Int) (v : UInt64) : Int :=
  if 1 ≤ length then v.toInt64.toInt
  else if length = -1 then v.toUInt16.toInt16.toInt
  else if length = -2 then v.toUInt8.toInt8.toInt
  else argInt v

/-- An unsigned argument of a length. -/
def unsignedArg (length : Int) (v : UInt64) : UInt64 :=
  if 1 ≤ length then v
  else if length = -1 then v.toUInt16.toUInt64
  else if length = -2 then v.toUInt8.toUInt64
  else v.toUInt32.toUInt64

/-- The characters of a string up to a precision. -/
def takeString (s : Option Text) (prec : Int) : Text :=
  let s := s.getD [40, 110, 117, 108, 108, 41]
  if prec < 0 then s else s.take prec.toNat

/-- The conversions of floating-point numbers. -/
def floatConversions : List UInt8 := [102, 70, 101, 69, 103, 71, 97, 65]

/-- One conversion. -/
def convert (fl : FloatOps) (o : FmtOut) (d : Directive) (conv : UInt8) (args : List Arg) :
    Except Fault (FmtOut × List Arg) :=
  if conv = 100 ∨ conv = 105 then
    match args with
    | .word v :: args =>
        let v := signedArg d.length v
        .ok (fmtInteger o (.ofNat v.natAbs) (v < 0) 10 false d.width d.prec d.flags conv, args)
    | _ => .error .arguments
  else if conv = 117 ∨ conv = 120 ∨ conv = 88 ∨ conv = 111 then
    match args with
    | .word v :: args =>
        let base := if conv = 111 then 8 else if conv = 117 then 10 else 16
        let flags := { d.flags with plus := false, space := false }
        .ok (fmtInteger o (unsignedArg d.length v) false base (conv == 88) d.width d.prec flags conv,
          args)
    | _ => .error .arguments
  else if conv = 112 then
    match args with
    | .word v :: args =>
        .ok (fmtInteger o v false 16 false d.width d.prec { d.flags with alt := true } 112, args)
    | _ => .error .arguments
  else if conv = 99 then
    match args with
    | .word v :: args =>
        .ok (fmtEmit o [] [v.toUInt8] d.width { d.flags with zero := false }, args)
    | _ => .error .arguments
  else if conv = 115 then
    match args with
    | .str s :: args =>
        .ok (fmtEmit o [] (takeString s d.prec) d.width { d.flags with zero := false }, args)
    | _ => .error .arguments
  else if conv ∈ floatConversions then
    match args with
    | .double bits :: args =>
        (fmtFloat fl o bits conv d.width d.prec d.flags).map fun o => (o, args)
    | _ => .error .arguments
  else if conv = 110 then
    match args with
    | .word p :: args => .ok ({ o with stores := o.stores ++ [(p, toInt o.pos)] }, args)
    | _ => .error .arguments
  else if conv = 37 then .ok (fmtPutc o 37, args)
  else .ok (fmtPutc (fmtPutc o 37) conv, args)

/-- The loop of `vsnprintf`; each round takes a character of the format at least. -/
def vsnprintfLoop (fl : FloatOps) : Nat → FmtOut → Text → List Arg → Except Fault FmtOut
  | 0, o, _, _ => .ok o
  | _ + 1, o, [], _ => .ok o
  | fuel + 1, o, c :: fmt, args =>
      if c = 37 then
        match directive fmt args with
        | none => .error .arguments
        | some (_, [], _) => .ok o
        | some (d, conv :: fmt, args) =>
            match convert fl o d conv args with
            | .error e => .error e
            | .ok (o, args) => vsnprintfLoop fl fuel o fmt args
      else vsnprintfLoop fl fuel (fmtPutc o c) fmt args

/-- `vsnprintf`: what it stores into the buffer, the zero at the end with it, what it returns,
and what `%n` stores. -/
def vsnprintf (fl : FloatOps) (size : Nat) (fmt : Text) (args : List Arg) :
    Except Fault (Text × Int × List (UInt64 × Int)) :=
  match vsnprintfLoop fl (fmt.length + 1) { size := if size = 0 then 1 else size } fmt args with
  | .error e => .error e
  | .ok o => .ok (if size = 0 then [] else o.buf ++ [0], toInt o.pos, o.stores)

/-! ## The text behind the buffer -/

/-- The state of an output with a buffer of a size, of which a text is the whole. -/
def outputOf (size : Nat) (text : Text) (stores : List (UInt64 × Int)) : FmtOut :=
  ⟨text.take (size - 1), size, text.length, stores⟩

/-- What `fmt_emit` puts out. -/
def fieldText (front body : Text) (width : Int) (flags : FmtFlags) : Text :=
  let pad := (toInt (width - (front.length + body.length : Nat))).toNat
  (if !flags.left && !flags.zero then List.replicate pad 32 else []) ++ front ++
    (if !flags.left && flags.zero then List.replicate pad 48 else []) ++ body ++
    if flags.left then List.replicate pad 32 else []

variable (size : Nat) (text : Text) (stores : List (UInt64 × Int))

@[simp] theorem fmtPutc_outputOf (c : UInt8) :
    fmtPutc (outputOf size text stores) c = outputOf size (text ++ [c]) stores := by
  by_cases hroom : (outputOf size text stores).pos + 1 < (outputOf size text stores).size
  · rw [fmtPutc, if_pos hroom]
    change text.length + 1 < size at hroom
    have hfits : (text ++ [c]).length ≤ size - 1 := by
      rw [List.length_append, List.length_singleton]
      omega
    simp only [outputOf, List.take_of_length_le hfits, List.length_append, List.length_singleton,
      List.take_of_length_le (by omega : text.length ≤ size - 1)]
  · rw [fmtPutc, if_neg hroom]
    change ¬text.length + 1 < size at hroom
    simp only [outputOf, List.length_append, List.length_singleton,
      List.take_append_of_le_length (by omega : size - 1 ≤ text.length)]

@[simp] theorem fmtPuts_outputOf (s : Text) :
    fmtPuts (outputOf size text stores) s = outputOf size (text ++ s) stores := by
  induction s generalizing text with
  | nil => rw [List.append_nil, fmtPuts, List.foldl_nil]
  | cons c s ih =>
    have hrest := ih (text ++ [c])
    rw [fmtPuts] at hrest
    rw [fmtPuts, List.foldl_cons, fmtPutc_outputOf, hrest, List.append_assoc, List.singleton_append]

@[simp] theorem fmtPad_outputOf (c : UInt8) (n : Int) :
    fmtPad (outputOf size text stores) c n =
      outputOf size (text ++ List.replicate n.toNat c) stores := fmtPuts_outputOf size text stores _

@[simp] theorem fmtEmit_outputOf (front body : Text) (width : Int) (flags : FmtFlags) :
    fmtEmit (outputOf size text stores) front body width flags =
      outputOf size (text ++ fieldText front body width flags) stores := by
  simp only [fmtEmit, fieldText]
  cases flags.left <;> cases flags.zero <;> simp

/-- What `fmt_integer` puts out. -/
def integerText (v : UInt64) (neg : Bool) (base : Nat) (upper : Bool) (width prec : Int)
    (flags : FmtFlags) (conv : UInt8) : Text :=
  let body := integerBody v base upper flags.alt prec conv
  let front :=
    if flags.alt ∧ base = 16 ∧ body ≠ [] ∧ body ≠ [48] then
      signText neg flags ++ (if upper then [48, 88] else [48, 120])
    else signText neg flags
  fieldText front body width (if 0 ≤ prec then { flags with zero := false } else flags)

@[simp] theorem fmtInteger_outputOf (v : UInt64) (neg : Bool) (base : Nat) (upper : Bool)
    (width prec : Int) (flags : FmtFlags) (conv : UInt8) :
    fmtInteger (outputOf size text stores) v neg base upper width prec flags conv =
      outputOf size (text ++ integerText v neg base upper width prec flags conv) stores :=
  fmtEmit_outputOf size text stores _ _ _ _

/-- A finite number in `%f` whose decimal exponent and precision are over 510 together; its text
does not fit the array of `fmt_float`. -/
def Overruns (fl : FloatOps) (bits : UInt64) (conv : UInt8) (prec : Int) : Prop :=
  storedExponent bits ≠ 2047 ∧ (conv = 102 ∨ conv = 70) ∧
    510 < (fl.digits (withoutSign bits) 18).2 + if prec < 0 then 6 else min 300 prec

/-- `fmt_float` puts out a text, or the number overruns its array. -/
theorem fmtFloat_outputOf (fl : FloatOps) (bits : UInt64) (conv : UInt8) (width prec : Int)
    (flags : FmtFlags) :
    (Overruns fl bits conv prec ∧ ∀ size,
      fmtFloat fl (outputOf size text stores) bits conv width prec flags = .error .overrun) ∨
    (¬Overruns fl bits conv prec ∧ ∃ text', ∀ size,
      fmtFloat fl (outputOf size text stores) bits conv width prec flags =
        .ok (outputOf size text' stores)) := by
  unfold Overruns
  by_cases hspecial : storedExponent bits = 2047
  · refine .inr ⟨fun h => h.1 hspecial, ?_⟩
    simp only [fmtFloat, specialText, if_pos hspecial]
    by_cases hinf : mantissa bits = 0
    · simp only [if_pos hinf, fmtEmit_outputOf]
      exact ⟨_, fun _ => rfl⟩
    · simp only [if_neg hinf, fmtEmit_outputOf]
      exact ⟨_, fun _ => rfl⟩
  · simp only [fmtFloat, specialText, if_neg hspecial, ← floatBody_overruns fl _ conv prec flags.alt]
    by_cases hover : 512 < (floatBody fl (withoutSign bits) conv prec flags.alt).2
    · exact .inl ⟨⟨hspecial, hover⟩, fun size => if_pos hover⟩
    · refine .inr ⟨fun h => hover h.2, ?_⟩
      simp only [if_neg hover, fmtEmit_outputOf]
      exact ⟨_, fun _ => rfl⟩

/-- A conversion of a number whose text overruns its array. -/
def ConvertOverruns (fl : FloatOps) (d : Directive) (conv : UInt8) (args : List Arg) : Prop :=
  ∃ bits rest, args = .double bits :: rest ∧ Overruns fl bits conv d.prec

theorem ConvertOverruns.mem_floatConversions {fl : FloatOps} {d : Directive} {conv : UInt8}
    {args : List Arg} (h : ConvertOverruns fl d conv args) : conv ∈ floatConversions := by
  obtain ⟨bits, rest, -, -, rfl | rfl, -⟩ := h <;> decide

/-- The conversions that take a word. -/
def wordConversions : List UInt8 := [100, 105, 117, 120, 88, 111, 112, 99, 110]

/-- What a conversion takes. -/
inductive ArgKind
  | word
  | str
  | double
  | nothing
  deriving DecidableEq, Repr

def argKind (conv : UInt8) : ArgKind :=
  if conv ∈ wordConversions then .word
  else if conv ∈ floatConversions then .double
  else if conv = 115 then .str
  else .nothing

/-- The arguments behind those that a conversion takes; `none` where they do not fit. -/
def argsAfter (conv : UInt8) (args : List Arg) : Option (List Arg) :=
  match argKind conv, args with
  | .word, .word _ :: args => some args
  | .str, .str _ :: args => some args
  | .double, .double _ :: args => some args
  | .nothing, args => some args
  | _, _ => none

variable {text stores}

/-- What holds of a conversion with a given state of the output: the arguments do not fit, or a
number overruns its array, or the text and the rest of the arguments do not depend on the size
of the buffer. -/
def ConvertsAs (fl : FloatOps) (text : Text) (stores : List (UInt64 × Int)) (d : Directive)
    (conv : UInt8) (args : List Arg) : Prop :=
  (argsAfter conv args = none ∧
    ∀ size, convert fl (outputOf size text stores) d conv args = .error .arguments) ∨
  ∃ args', argsAfter conv args = some args' ∧
    ((ConvertOverruns fl d conv args ∧
      ∀ size, convert fl (outputOf size text stores) d conv args = .error .overrun) ∨
    (¬ConvertOverruns fl d conv args ∧ ∃ text' stores', ∀ size,
      convert fl (outputOf size text stores) d conv args = .ok (outputOf size text' stores', args')))

section Uniform

variable (fl : FloatOps) (text : Text) (stores : List (UInt64 × Int)) (d : Directive) {conv : UInt8}

/-- A conversion of a word puts out a text, or stores the number of characters. -/
theorem convert_word (h : conv ∈ wordConversions) (v : UInt64) (args : List Arg) :
    ∃ text' stores', ∀ size, convert fl (outputOf size text stores) d conv (.word v :: args) =
      .ok (outputOf size text' stores', args) := by
  simp only [wordConversions, List.mem_cons, List.not_mem_nil, or_false] at h
  rcases h with rfl | rfl | rfl | rfl | rfl | rfl | rfl | rfl | rfl
  case inr.inr.inr.inr.inr.inr.inr.inr =>
    exact ⟨text, stores ++ [(v, toInt text.length)], fun size => rfl⟩
  all_goals simp [convert]
  all_goals exact ⟨_, _, fun _ => rfl⟩

theorem convert_word_missing (h : conv ∈ wordConversions) {args : List Arg}
    (hargs : ∀ v rest, args ≠ .word v :: rest) (o : FmtOut) :
    convert fl o d conv args = .error .arguments := by
  simp only [wordConversions, List.mem_cons, List.not_mem_nil, or_false] at h
  rcases args with _ | ⟨v | s | bits, args⟩
  case cons.word => exact absurd rfl (hargs v args)
  all_goals
    rcases h with rfl | rfl | rfl | rfl | rfl | rfl | rfl | rfl | rfl <;> rfl

theorem convertsAs_word (h : conv ∈ wordConversions) (args : List Arg) :
    ConvertsAs fl text stores d conv args := by
  have hfloat : ¬ConvertOverruns fl d conv args := fun hover =>
    (by decide +kernel : ∀ c ∈ wordConversions, c ∉ floatConversions) conv h hover.mem_floatConversions
  have hkind : argKind conv = .word := if_pos h
  rcases args with _ | ⟨v | s | bits, args⟩
  case cons.word =>
    exact .inr ⟨args, by simp only [argsAfter, hkind],
      .inr ⟨hfloat, convert_word fl text stores d h v args⟩⟩
  all_goals
    refine .inl ⟨by simp only [argsAfter, hkind], fun size => ?_⟩
    exact convert_word_missing fl d h (by simp) _

omit d in
theorem argKind_float (h : conv ∈ floatConversions) : argKind conv = .double := by
  have hword : conv ∉ wordConversions := fun hmem =>
    (by decide +kernel : ∀ c ∈ wordConversions, c ∉ floatConversions) conv hmem h
  exact (if_neg hword).trans (if_pos h)

theorem convertsAs_float (h : conv ∈ floatConversions) (args : List Arg) :
    ConvertsAs fl text stores d conv args := by
  have hkind := argKind_float h
  have hcases := h
  simp only [floatConversions, List.mem_cons, List.not_mem_nil, or_false] at hcases
  rcases args with _ | ⟨v | s | bits, args⟩
  case cons.double =>
    have hconvert : ∀ o, convert fl o d conv (.double bits :: args) =
        (fmtFloat fl o bits conv d.width d.prec d.flags).map fun o => (o, args) := by
      intro o
      rcases hcases with rfl | rfl | rfl | rfl | rfl | rfl | rfl | rfl <;> rfl
    refine .inr ⟨args, by simp only [argsAfter, hkind], ?_⟩
    obtain ⟨hover, hall⟩ | ⟨hfits, text', hall⟩ :=
      fmtFloat_outputOf text stores fl bits conv d.width d.prec d.flags
    · exact .inl ⟨⟨bits, args, rfl, hover⟩, fun size => by rw [hconvert, hall]; rfl⟩
    · refine .inr ⟨?_, text', stores, fun size => by rw [hconvert, hall]; rfl⟩
      rintro ⟨bits', rest', heq, hover⟩
      obtain ⟨hbits, -⟩ := List.cons_eq_cons.mp heq
      cases hbits
      exact hfits hover
  all_goals
    refine .inl ⟨by simp only [argsAfter, hkind], fun size => ?_⟩
    rcases hcases with rfl | rfl | rfl | rfl | rfl | rfl | rfl | rfl <;> rfl

/-- **A conversion** puts out the same text and takes the same arguments whatever the size of the
buffer is. -/
theorem convertsAs (conv : UInt8) (args : List Arg) : ConvertsAs fl text stores d conv args := by
  by_cases hword : conv ∈ wordConversions
  · exact convertsAs_word fl text stores d hword args
  by_cases hfloat : conv ∈ floatConversions
  · exact convertsAs_float fl text stores d hfloat args
  have hover : ¬ConvertOverruns fl d conv args := fun h => hfloat h.mem_floatConversions
  by_cases hstring : conv = 115
  · subst hstring
    rcases args with _ | ⟨v | s | bits, args⟩
    case cons.str =>
      refine .inr ⟨args, rfl, .inr ⟨hover, ?_⟩⟩
      simp [convert]
      exact ⟨_, _, fun _ => rfl⟩
    all_goals exact .inl ⟨rfl, fun _ => rfl⟩
  · have hkind : argKind conv = .nothing :=
      (if_neg hword).trans ((if_neg hfloat).trans (if_neg hstring))
    refine .inr ⟨args, by simp only [argsAfter, hkind], .inr ⟨hover, ?_⟩⟩
    simp only [wordConversions, List.mem_cons, List.not_mem_nil, or_false, not_or] at hword
    by_cases hpercent : conv = 37
    · simp [convert, hpercent]
      exact ⟨_, _, fun _ => rfl⟩
    · simp [convert, hword, hfloat, hstring, hpercent]
      exact ⟨_, _, fun _ => rfl⟩

end Uniform

/-! ## The whole format -/

/-- No number that is converted on the way through the format overruns its array. -/
def FloatsFit (fl : FloatOps) : Nat → Text → List Arg → Prop
  | 0, _, _ => True
  | _ + 1, [], _ => True
  | fuel + 1, c :: fmt, args =>
      if c = 37 then
        match directive fmt args with
        | none => True
        | some (_, [], _) => True
        | some (d, conv :: fmt, args) =>
            ¬ConvertOverruns fl d conv args ∧
              ∀ args', argsAfter conv args = some args' → FloatsFit fl fuel fmt args'
      else FloatsFit fl fuel fmt args

/-- **The loop** puts out the same text whatever the size of the buffer is. -/
theorem vsnprintfLoop_outputOf (fl : FloatOps) (fuel : Nat) (text : Text)
    (stores : List (UInt64 × Int)) (fmt : Text) (args : List Arg) :
    (FloatsFit fl fuel fmt args ∧
      ((∀ size, vsnprintfLoop fl fuel (outputOf size text stores) fmt args = .error .arguments) ∨
      ∃ text' stores', ∀ size, vsnprintfLoop fl fuel (outputOf size text stores) fmt args =
        .ok (outputOf size text' stores'))) ∨
    (¬FloatsFit fl fuel fmt args ∧
      ∀ size, vsnprintfLoop fl fuel (outputOf size text stores) fmt args = .error .overrun) := by
  induction fuel generalizing text stores fmt args with
  | zero => exact .inl ⟨trivial, .inr ⟨text, stores, fun _ => rfl⟩⟩
  | succ fuel ih =>
    rcases fmt with _ | ⟨c, fmt⟩
    · exact .inl ⟨trivial, .inr ⟨text, stores, fun _ => rfl⟩⟩
    · by_cases hc : c = 37
      · simp only [vsnprintfLoop, FloatsFit, if_pos hc]
        rcases directive fmt args with _ | ⟨d, _ | ⟨conv, fmt⟩, args⟩
        · exact .inl ⟨trivial, .inl fun _ => rfl⟩
        · exact .inl ⟨trivial, .inr ⟨text, stores, fun _ => rfl⟩⟩
        · obtain ⟨hnone, hall⟩ | ⟨args', hafter, ⟨hover, hall⟩ | ⟨hfits, text', stores', hall⟩⟩ :=
            convertsAs fl text stores d conv args
          · have hfits : ¬ConvertOverruns fl d conv args := by
              intro hover
              have hkind := argKind_float hover.mem_floatConversions
              obtain ⟨bits, rest, rfl, -⟩ := hover
              simp only [argsAfter, hkind] at hnone
              cases hnone
            simp only [hall, hnone]
            exact .inl ⟨⟨hfits, by simp⟩, .inl fun _ => trivial⟩
          · simp only [hall]
            exact .inr ⟨fun h => h.1 hover, fun _ => trivial⟩
          · simp only [hall, hafter, Option.some.injEq, forall_eq']
            obtain ⟨hrest, hres⟩ | ⟨hrest, hres⟩ := ih text' stores' fmt args'
            · exact .inl ⟨⟨hfits, hrest⟩, hres⟩
            · exact .inr ⟨fun h => hrest h.2, hres⟩
      · simp only [vsnprintfLoop, FloatsFit, if_neg hc, fmtPutc_outputOf]
        exact ih (text ++ [c]) stores fmt args

/-! ## The rounds of the loop -/

theorem takeFlags_length (flags : FmtFlags) (fmt : Text) :
    (takeFlags flags fmt).2.length ≤ fmt.length := by
  fun_induction takeFlags flags fmt <;> grind

theorem takeNumber_length (n : Int) (fmt : Text) : (takeNumber n fmt).2.length ≤ fmt.length := by
  fun_induction takeNumber n fmt <;> grind

theorem takeLength_length (fmt : Text) : (takeLength fmt).2.length ≤ fmt.length := by
  fun_cases takeLength fmt <;> grind

theorem takeWidth_length {flags flags' : FmtFlags} {fmt fmt' : Text} {args args' : List Arg}
    {width : Int} (h : takeWidth flags fmt args = some (width, flags', fmt', args')) :
    fmt'.length ≤ fmt.length := by
  have hnumber := takeNumber_length 0 fmt
  unfold takeWidth at h
  grind

theorem takePrec_length {fmt fmt' : Text} {args args' : List Arg} {prec : Int}
    (h : takePrec fmt args = some (prec, fmt', args')) : fmt'.length ≤ fmt.length := by
  have hnumber := fun fmt => takeNumber_length 0 fmt
  unfold takePrec at h
  grind

theorem directive_length {fmt fmt' : Text} {args args' : List Arg} {d : Directive}
    (h : directive fmt args = some (d, fmt', args')) : fmt'.length ≤ fmt.length := by
  have hflags := takeFlags_length {} fmt
  unfold directive at h
  split at h
  · cases h
  · next hwidth =>
    have := takeWidth_length hwidth
    split at h
    · cases h
    · next hprec =>
      have := takePrec_length hprec
      have := takeLength_length ‹Text›
      grind

/-- **Each round** takes a character of the format, so the loop does not run out of rounds. -/
theorem vsnprintfLoop_rounds (fl : FloatOps) {fuel fuel' : Nat} {o : FmtOut} {fmt : Text}
    {args : List Arg} (h : fmt.length < fuel) (h' : fmt.length < fuel') :
    vsnprintfLoop fl fuel o fmt args = vsnprintfLoop fl fuel' o fmt args := by
  induction fuel generalizing fuel' o fmt args with
  | zero => omega
  | succ fuel ih =>
    obtain _ | fuel' := fuel'
    · omega
    rcases fmt with _ | ⟨c, fmt⟩
    · rfl
    · rw [List.length_cons] at h h'
      simp only [vsnprintfLoop]
      split_ifs
      · rcases hd : directive fmt args with _ | ⟨d, _ | ⟨conv, rest⟩, args'⟩
        · rfl
        · rfl
        · have hshort := directive_length hd
          rw [List.length_cons] at hshort
          simp only
          split
          · rfl
          · exact ih (by omega) (by omega)
      · exact ih (by omega) (by omega)

/-- **The buffer** of `vsnprintf` holds the beginning of one text for every size, with a zero
behind it, and the result is the length of that text, when no number overruns its array. -/
theorem vsnprintf_cut (fl : FloatOps) (fmt : Text) (args : List Arg) :
    ((∀ size, vsnprintf fl size fmt args = .error .arguments) ∨
      ∃ (text : Text) (stores : List (UInt64 × Int)), ∀ size, vsnprintf fl size fmt args =
        .ok (if size = 0 then [] else text.take (size - 1) ++ [0], toInt text.length, stores)) ↔
      FloatsFit fl (fmt.length + 1) fmt args := by
  have hstart : ∀ size, ({ size := if size = 0 then 1 else size } : FmtOut) =
      outputOf (if size = 0 then 1 else size) [] [] := by
    intro size
    simp [outputOf]
  simp only [vsnprintf, hstart]
  obtain ⟨hfits, hnone | ⟨text, stores, hall⟩⟩ | ⟨hover, hall⟩ :=
    vsnprintfLoop_outputOf fl (fmt.length + 1) [] [] fmt args
  · simp only [hnone, hfits]
    exact ⟨fun _ => trivial, fun _ => .inl fun _ => trivial⟩
  · simp only [hall, hfits, iff_true]
    refine .inr ⟨text, stores, fun size => ?_⟩
    by_cases hzero : size = 0
    · simp [hzero, outputOf]
    · simp [hzero, outputOf]
  · simp only [hall, hover, iff_false]
    rintro (h | ⟨text, stores, h⟩)
    · cases h 0
    · cases h 0

/-! ## Short fields -/

/-- A number that fits an `int`. -/
theorem toInt_eq {r : Int} (h0 : -2147483648 ≤ r) (h1 : r < 2147483648) : toInt r = r :=
  Int.bmod_eq_of_le (by omega) (by omega)

theorem fieldText_zero {front body : Text} (hshort : front.length + body.length < 2147483648)
    (flags : FmtFlags) : fieldText front body 0 flags = front ++ body := by
  have hpad : (toInt (0 - (front.length + body.length : Nat))).toNat = 0 := by
    rw [toInt_eq (by omega) (by omega)]
    omega
  simp only [fieldText, hpad]
  simp

theorem digitsIn_ten (v : Nat) : digitsIn 10 false v = Decimal.digits v := by
  induction v using Decimal.digits.induct with
  | case1 v h =>
    rw [digitsIn, Decimal.digits, dif_pos (Or.inl h), if_pos h, digitChar, if_pos h]
  | case2 v h ih =>
    have hnot : ¬(v < 10 ∨ 10 < 2) := by omega
    have hlast : v % 10 < 10 := Nat.mod_lt _ (by omega)
    rw [digitsIn, Decimal.digits, dif_neg hnot, if_neg h, ih, digitChar, if_pos hlast]

/-- **`%u`** writes the digits of the number. -/
theorem integerText_u {v : UInt64} (hv : v.toNat < 4294967296) :
    integerText v false 10 false 0 (-1) {} 117 = Decimal.digits v.toNat := by
  have hbody : integerBody v 10 false false (-1) 117 = Decimal.digits v.toNat := by
    simp [integerBody, digitsIn_ten]
    omega
  have hlen := @Decimal.length_digits v.toNat 10 (by omega) (by omega)
  have hsmall : ([] : Text).length + (Decimal.digits v.toNat).length < 2147483648 := by
    rw [List.length_nil]
    omega
  have hfield := fieldText_zero hsmall {}
  simp [integerText, hbody, signText, hfield]

/-- A `%u` of the format. -/
theorem vsnprintfLoop_u (fl : FloatOps) (fuel size : Nat) (text : Text)
    (stores : List (UInt64 × Int)) {v : UInt64} (hv : v.toNat < 4294967296) (fmt : Text)
    (args : List Arg) :
    vsnprintfLoop fl (fuel + 1) (outputOf size text stores) (37 :: 117 :: fmt) (.word v :: args) =
      vsnprintfLoop fl fuel (outputOf size (text ++ Decimal.digits v.toNat) stores) fmt args := by
  have harg : unsignedArg 0 v = v := by
    apply UInt64.toNat_inj.mp
    have hlow : v.toUInt32.toUInt64.toNat = v.toNat := by
      rw [UInt32.toNat_toUInt64, UInt64.toNat_toUInt32]
      omega
    simpa [unsignedArg] using hlow
  have hdigit : Decimal.isDigit 117 = false := by decide
  simp [vsnprintfLoop, directive, takeFlags, takeWidth, takeNumber, takePrec, takeLength, hdigit,
    convert, harg, integerText_u hv]

theorem vsnprintfLoop_char (fl : FloatOps) (fuel size : Nat) (text : Text)
    (stores : List (UInt64 × Int)) {c : UInt8} (hc : c ≠ 37) (fmt : Text) (args : List Arg) :
    vsnprintfLoop fl (fuel + 1) (outputOf size text stores) (c :: fmt) args =
      vsnprintfLoop fl fuel (outputOf size (text ++ [c]) stores) fmt args := by
  rw [vsnprintfLoop, if_neg hc, fmtPutc_outputOf]

end Libc
