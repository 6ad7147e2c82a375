import StrawOS.Lib.Logged
import StrawOS.Voice.Decrypt

/-!
# What `dave_decrypt` touches

The same function over positions instead of lists, with a log of every run of bytes that it
reads or writes.  Sizes are those of C and wrap around: a difference of positions that is
below zero is a number close to `2 ^ 64`.

All of it lies inside the buffers if no range wraps, and the function then computes what
`daveDecrypt` does.
-/

namespace Voice

/-- A run of `count` bytes from `pos` on, in a buffer of `size` bytes. -/
structure Access where
  size : Nat
  pos : Nat
  count : Nat

/-- The run lies inside its buffer. -/
def Access.Inside (a : Access) : Prop := a.count = 0 ∨ a.pos + a.count ≤ a.size

/-- Touch a run of bytes. -/
def touch (size pos count : Nat) : Logged Access Unit := Logged.tell ⟨size, pos, count⟩

/-- A difference of two sizes. -/
def sizeSub (a b : Nat) : Nat := (a + 2 ^ 64 - b) % 2 ^ 64

/-- A sum of two sizes. -/
def sizeAdd (a b : Nat) : Nat := (a + b) % 2 ^ 64

/-! ## The trailer -/

/-- The loop of `leb_read`, from a position on: the number and the position behind it. -/
def lebLoopAt (frame : List UInt8) (stop : Nat) : Nat → Nat → Nat → Nat → Attempt Access Unit (Nat × Nat)
  | 0, _, _, _ => Attempt.fail ()
  | fuel + 1, shift, r, p =>
    if p < stop then do
      Attempt.lift (touch frame.length p 1)
      let b := frame.getD p 0
      let r := r ||| (b.toNat % 128 * 2 ^ shift) % 2 ^ 64
      if b.toNat < 128 then pure (r, p + 1) else lebLoopAt frame stop fuel (shift + 7) r (p + 1)
    else Attempt.fail ()

/-- `leb_read` -/
def lebReadAt (frame : List UInt8) (stop p : Nat) : Attempt Access Unit (Nat × Nat) :=
  lebLoopAt frame stop 10 0 0 p

/-- The loop that reads the ranges. -/
def rangesLoopAt (frame : List UInt8) (stop body : Nat) : Nat → Nat → Nat → Attempt Access Unit (List Range)
  | 0, _, p => if p < stop then Attempt.fail () else pure []
  | left + 1, lastEnd, p =>
    if p < stop then do
      let (offset, p) ← lebReadAt frame stop p
      let (size, p) ← lebReadAt frame stop p
      if offset < lastEnd ∨ body < sizeAdd offset size then Attempt.fail ()
      else
        let rest ← rangesLoopAt frame stop body left (sizeAdd offset size) p
        pure (⟨offset, size⟩ :: rest)
    else pure []

/-- The length of the trailer of a frame that has one. -/
def trailerLengthAt (frame : List UInt8) : Logged Access (Option Nat) :=
  let len := frame.length
  if 3 + tagBytes + 1 ≤ len then do
    touch len (len - 1) 1
    if frame.getD (len - 1) 0 = marker then
      touch len (len - 2) 1
      if frame.getD (len - 2) 0 = marker then
        touch len (len - 3) 1
        let supp := (frame.getD (len - 3) 0).toNat
        pure (if tagBytes + 1 + 3 ≤ supp ∧ supp ≤ len then some supp else none)
      else pure none
    else pure none
  else pure none

/-- The part that reads a trailer of a length. -/
def readTrailerAt (frame : List UInt8) (supp : Nat) : Attempt Access Unit Trailer := do
  let body := frame.length - supp
  let stop := frame.length - 3
  let (nonce, p) ← lebReadAt frame stop (body + tagBytes)
  if 2 ^ 32 ≤ nonce then Attempt.fail ()
  else
    let ranges ← rangesLoopAt frame stop body 16 0 p
    pure ⟨body, (frame.drop body).take tagBytes, nonce, ranges⟩

/-! ## The copies -/

/-- `ct` and `aad`, with `ct_len` and `aad_len`. -/
structure Parts where
  ct : List UInt8
  aad : List UInt8
  ctLen : Nat
  aadLen : Nat

def Parts.empty : Parts := ⟨[], [], 0, 0⟩

/-- Copy sealed bytes from the frame. -/
def Parts.copyCt (frame : List UInt8) (body pos n : Nat) (s : Parts) : Logged Access Parts := do
  touch frame.length pos n
  touch body s.ctLen n
  pure { s with ct := s.ct ++ (frame.drop pos).take n, ctLen := sizeAdd s.ctLen n }

/-- Copy clear bytes from the frame. -/
def Parts.copyAad (frame : List UInt8) (body pos n : Nat) (s : Parts) : Logged Access Parts := do
  touch frame.length pos n
  touch body s.aadLen n
  pure { s with aad := s.aad ++ (frame.drop pos).take n, aadLen := sizeAdd s.aadLen n }

/-- The loop that splits the body. -/
def splitLoopAt (frame : List UInt8) (body : Nat) : List Range → Nat → Parts → Logged Access Parts
  | [], pos, s => s.copyCt frame body pos (sizeSub body pos)
  | r :: rest, pos, s => do
    let s ← s.copyCt frame body pos (sizeSub r.offset pos)
    let s ← s.copyAad frame body r.offset r.size
    splitLoopAt frame body rest (sizeAdd r.offset r.size) s

/-- The loop that joins the opened and the clear bytes in `out`. -/
def joinLoopAt (len body : Nat) (pt aad : List UInt8) :
    List Range → Nat → Nat → Nat → Logged Access (List UInt8)
  | [], pos, c, _ => do
    touch len pos (sizeSub body pos)
    touch body c (sizeSub body pos)
    pure ((pt.drop c).take (sizeSub body pos))
  | r :: rest, pos, c, a => do
    touch len pos (sizeSub r.offset pos)
    touch body c (sizeSub r.offset pos)
    touch len r.offset r.size
    touch body a r.size
    let out ← joinLoopAt len body pt aad rest (sizeAdd r.offset r.size)
      (sizeAdd c (sizeSub r.offset pos)) (sizeAdd a r.size)
    pure ((pt.drop c).take (sizeSub r.offset pos) ++ (aad.drop a).take r.size ++ out)

/-! ## Opening -/

section

variable (cr : Crypto) (check : GcmCheck)

/-- One attempt with a ratchet: the sealed bytes go into a buffer of their own, and back if
they are opened. -/
def openWithAt (rt : Ratchet) (frame : List UInt8) (t : Trailer) (s : Parts) :
    Logged Access (Ratchet × Option (List UInt8)) :=
  match ratchetKey cr rt (t.nonce / 2 ^ 24) with
  | none => pure (rt, none)
  | some (rt, key) => do
    touch t.body 0 s.ctLen
    touch s.ctLen 0 s.ctLen
    touch t.body 0 s.aadLen
    touch frame.length t.body tagBytes
    let pt := check key (makeIv t.nonce) s.aad s.ct t.tag
    if pt.isSome then
      touch s.ctLen 0 s.ctLen
      touch t.body 0 s.ctLen
    pure (rt, pt)

/-- The attempts with the current and the old ratchet. -/
def openForAt (r : Receiver) (frame : List UInt8) (t : Trailer) (s : Parts) :
    Logged Access (Receiver × Option (List UInt8)) := do
  match ← openWithAt cr check r.cur frame t s with
  | (cur, some pt) => pure ({ r with cur := cur }, some pt)
  | (cur, none) =>
    let (old, pt) ← openWithAt cr check r.old frame t s
    pure ({ r with cur := cur, old := old }, pt)

/-- What follows the split. -/
def openSplitAt (d : Dave) (sender : Nat) (frame : List UInt8) (t : Trailer) (s : Parts) :
    Logged Access (Dave × Option (List UInt8)) :=
  match d.recv.findIdx? fun r => r.user == sender with
  | none => pure (d, none)
  | some i =>
    match d.recv[i]? with
    | none => pure (d, none)
    | some r => do
      let (r, pt) ← openForAt cr check r frame t s
      match r.accept t.nonce pt with
      | (r, none) => pure ({ d with recv := d.recv.set i r }, none)
      | (r, some pt) =>
        let out ← joinLoopAt frame.length t.body pt s.aad t.ranges 0 0 0
        pure ({ d with recv := d.recv.set i r }, some out)

/-- A frame without a trailer. -/
def passAt (d : Dave) (frame : List UInt8) : Logged Access (Dave × Option (List UInt8)) := do
  if frame.length = 3 then
    touch frame.length 0 3
  if d.passes frame then
    touch frame.length 0 frame.length
    touch frame.length 0 frame.length
    pure (d, some frame)
  else pure (d, none)

/-- `dave_decrypt` with a log of what it touches. -/
def daveDecryptAt (d : Dave) (sender : Nat) (frame : List UInt8) :
    Logged Access (Dave × Option (List UInt8)) := do
  match ← trailerLengthAt frame with
  | none => passAt d frame
  | some supp =>
    match ← (readTrailerAt frame supp).run with
    | .error _ => pure (d, none)
    | .ok t =>
      let s ← splitLoopAt frame t.body t.ranges 0 Parts.empty
      openSplitAt cr check d sender frame t s

end

/-! ## What a trailer says -/

theorem touch_meets {size pos count : Nat} (h : count = 0 ∨ pos + count ≤ size) :
    Logged.Meets Access.Inside (fun _ => True) (touch size pos count) :=
  Logged.Meets.tell h

/-- A touch inside, and what comes after it. -/
theorem touch_then {α : Type} {size pos count : Nat} {Q : α → Prop} {f : Unit → Logged Access α}
    (h : pos + count ≤ size) (hf : Logged.Meets Access.Inside Q (f ())) :
    Logged.Meets Access.Inside Q (touch size pos count >>= f) :=
  (touch_meets (Or.inr h)).bind fun _ _ => hf

theorem drop_cons {frame : List UInt8} {stop p : Nat} (hstop : stop ≤ frame.length) (hp : p < stop) :
    (frame.take stop).drop p = frame.getD p 0 :: (frame.take stop).drop (p + 1) := by
  have hlength : p < (frame.take stop).length := by
    rw [List.length_take]
    omega
  rw [List.drop_eq_getElem_cons hlength, List.getElem_take, List.getD, List.getElem?_eq_getElem,
    Option.getD_some]

theorem drop_end {frame : List UInt8} {stop p : Nat} (hp : ¬p < stop) :
    (frame.take stop).drop p = [] := by
  apply List.drop_eq_nil_of_le
  rw [List.length_take]
  omega

theorem lebLoopAt_value {frame : List UInt8} {stop : Nat} (hstop : stop ≤ frame.length)
    (fuel shift r p : Nat) :
    lebLoop fuel shift r ((frame.take stop).drop p) =
      (lebLoopAt frame stop fuel shift r p).value.toOption.map
        fun x => (x.1, (frame.take stop).drop x.2) := by
  induction fuel generalizing shift r p with
  | zero => rfl
  | succ fuel ih =>
    rw [lebLoopAt]
    by_cases hp : p < stop
    · rw [if_pos hp, drop_cons hstop hp, lebLoop]
      simp only [Attempt.toOption_bind, Attempt.toOption_lift, Option.bind_some]
      split
      · rfl
      · exact ih _ _ _
    · rw [if_neg hp, drop_end hp]
      rfl

theorem lebLoopAt_meets {frame : List UInt8} {stop : Nat} (hstop : stop ≤ frame.length)
    {fuel shift r p : Nat} (hr : r < 2 ^ 64) :
    Attempt.Meets Access.Inside (fun x => x.1 < 2 ^ 64) (lebLoopAt frame stop fuel shift r p) := by
  induction fuel generalizing shift r p with
  | zero => exact Attempt.Meets.fail ()
  | succ fuel ih =>
    rw [lebLoopAt]
    split
    · apply Attempt.Meets.lift_bind (touch_meets (Or.inr (by omega)))
      intro _ _
      have hor : r ||| ((frame.getD p 0).toNat % 128 * 2 ^ shift) % 2 ^ 64 < 2 ^ 64 :=
        Nat.or_lt_two_pow hr (Nat.mod_lt _ (Nat.two_pow_pos 64))
      dsimp only
      split
      · exact Attempt.Meets.pure hor
      · exact ih hor
    · exact Attempt.Meets.fail ()

theorem rangesLoopAt_value {frame : List UInt8} {stop : Nat} (hstop : stop ≤ frame.length)
    (body left lastEnd p : Nat) :
    rangesLoop body left lastEnd ((frame.take stop).drop p) =
      (rangesLoopAt frame stop body left lastEnd p).value.toOption := by
  induction left generalizing lastEnd p with
  | zero =>
    rw [rangesLoopAt]
    by_cases hp : p < stop
    · rw [if_pos hp, drop_cons hstop hp]
      rfl
    · rw [if_neg hp, drop_end hp]
      rfl
  | succ left ih =>
    rw [rangesLoopAt]
    by_cases hp : p < stop
    · have hcons := drop_cons hstop hp
      rw [if_pos hp, hcons, rangesLoop, ← hcons]
      simp only [lebRead, lebReadAt, lebLoopAt_value hstop, Attempt.toOption_bind,
        Option.bind_eq_bind, Option.bind_map, Function.comp_def]
      congr 1
      funext x
      congr 1
      funext y
      by_cases hchecked : x.1 < lastEnd ∨ body < sizeAdd x.1 y.1
      · rw [if_pos hchecked]
        exact if_pos hchecked
      · rw [if_neg hchecked, Attempt.toOption_bind, ← ih]
        exact if_neg hchecked
    · rw [if_neg hp, drop_end hp]
      rfl

/-- Ranges one behind the other from a position on, inside the body. -/
def Laid (body : Nat) : Nat → List Range → Prop
  | pos, [] => pos ≤ body
  | pos, r :: rest => pos ≤ r.offset ∧ Laid body (r.offset + r.size) rest

theorem Laid.le {body pos : Nat} {rs : List Range} (h : Laid body pos rs) : pos ≤ body := by
  induction rs generalizing pos with
  | nil => exact h
  | cons r rest ih =>
    have := ih h.2
    have := h.1
    omega

/-- What is read as ranges: numbers of 64 bits, one behind the other if no sum wraps. -/
theorem rangesLoopAt_meets {frame : List UInt8} {stop : Nat} (hstop : stop ≤ frame.length)
    {body left lastEnd p : Nat} (hend : lastEnd ≤ body) :
    Attempt.Meets Access.Inside
      (fun rs => (∀ r ∈ rs, r.offset < 2 ^ 64) ∧
        ((∀ r ∈ rs, r.offset + r.size < 2 ^ 64) → Laid body lastEnd rs))
      (rangesLoopAt frame stop body left lastEnd p) := by
  have hnil : (∀ r ∈ ([] : List Range), r.offset < 2 ^ 64) ∧
      ((∀ r ∈ ([] : List Range), r.offset + r.size < 2 ^ 64) → Laid body lastEnd []) :=
    ⟨fun r hr => absurd hr List.not_mem_nil, fun _ => hend⟩
  induction left generalizing lastEnd p with
  | zero =>
    rw [rangesLoopAt]
    split
    · exact Attempt.Meets.fail ()
    · exact Attempt.Meets.pure hnil
  | succ left ih =>
    rw [rangesLoopAt]
    split
    · apply (lebLoopAt_meets hstop (Nat.two_pow_pos 64)).bind
      intro ⟨offset, p₁⟩ hoffset
      apply (lebLoopAt_meets hstop (Nat.two_pow_pos 64)).bind
      intro ⟨size, p₂⟩ hsize
      dsimp only at hoffset hsize ⊢
      split
      · exact Attempt.Meets.fail ()
      · have hnext : sizeAdd offset size ≤ body := by omega
        apply (ih hnext ⟨fun r hr => absurd hr List.not_mem_nil, fun _ => hnext⟩).bind
        intro rest hrest
        apply Attempt.Meets.pure
        constructor
        · grind
        · intro hsums
          have hsum : offset + size < 2 ^ 64 := hsums ⟨offset, size⟩ List.mem_cons_self
          have hlaid := hrest.2 fun r hr => hsums r (List.mem_cons_of_mem _ hr)
          rw [sizeAdd, Nat.mod_eq_of_lt hsum] at hlaid
          exact ⟨show lastEnd ≤ offset by omega, hlaid⟩
    · exact Attempt.Meets.pure hnil

theorem trailerLengthAt_spec (frame : List UInt8) :
    Logged.Meets Access.Inside (fun supp => supp = trailerLength frame) (trailerLengthAt frame) := by
  have hlast : ∀ n, 1 ≤ n → n ≤ frame.length →
      frame.length - n + 1 ≤ frame.length := by omega
  unfold trailerLengthAt trailerLength
  by_cases hlen : 3 + tagBytes + 1 ≤ frame.length
  · rw [if_pos hlen]
    refine touch_then (hlast 1 (by omega) (by omega)) ?_
    by_cases h₁ : frame.getD (frame.length - 1) 0 = marker
    · rw [if_pos h₁]
      refine touch_then (hlast 2 (by omega) (by omega)) ?_
      by_cases h₂ : frame.getD (frame.length - 2) 0 = marker
      · rw [if_pos h₂]
        refine touch_then (hlast 3 (by omega) (by omega)) ?_
        apply Logged.Meets.pure
        exact (if_pos (show 3 + tagBytes + 1 ≤ frame.length ∧ _ from ⟨hlen, h₁, h₂⟩)).symm
      · rw [if_neg h₂]
        exact Logged.Meets.pure (if_neg fun h => h₂ h.2.2).symm
    · rw [if_neg h₁]
      exact Logged.Meets.pure (if_neg fun h => h₁ h.2.1).symm
  · rw [if_neg hlen]
    exact Logged.Meets.pure (if_neg fun h => hlen h.1).symm

theorem trailerLength_le {frame : List UInt8} {supp : Nat} (h : trailerLength frame = some supp) :
    tagBytes + 4 ≤ supp ∧ supp ≤ frame.length := by
  rw [trailerLength] at h
  split at h
  · grind
  · cases h

theorem readTrailerAt_value (frame : List UInt8) (supp : Nat) :
    readTrailer frame supp = (readTrailerAt frame supp).value.toOption := by
  have hstop : frame.length - 3 ≤ frame.length := by omega
  rw [readTrailer, readTrailerAt]
  simp only [lebRead, lebReadAt, lebLoopAt_value hstop, Attempt.toOption_bind, Option.bind_eq_bind,
    Option.bind_map, Function.comp_def]
  congr 1
  funext x
  by_cases hnonce : 2 ^ 32 ≤ x.1
  · rw [if_pos hnonce, if_pos hnonce]
    rfl
  · rw [if_neg hnonce, if_neg hnonce, Attempt.toOption_bind, rangesLoopAt_value hstop]
    rfl

theorem readTrailerAt_meets (frame : List UInt8) (supp : Nat) :
    Attempt.Meets Access.Inside
      (fun t => t.body = frame.length - supp ∧ (∀ r ∈ t.ranges, r.offset < 2 ^ 64) ∧
        ((∀ r ∈ t.ranges, r.offset + r.size < 2 ^ 64) → Laid t.body 0 t.ranges))
      (readTrailerAt frame supp) := by
  have hstop : frame.length - 3 ≤ frame.length := by omega
  apply (lebLoopAt_meets hstop (Nat.two_pow_pos 64)).bind
  intro ⟨nonce, p⟩ _
  dsimp only
  split
  · exact Attempt.Meets.fail ()
  · apply (rangesLoopAt_meets hstop (Nat.zero_le _)).bind
    intro ranges hranges
    exact Attempt.Meets.pure ⟨rfl, hranges⟩

/-! ## The copies of ranges that do not wrap -/

theorem sizeSub_of_le {a b : Nat} (h : b ≤ a) (ha : a < 2 ^ 64) : sizeSub a b = a - b := by
  rw [sizeSub]
  omega

theorem sizeAdd_of_lt {a b : Nat} (h : a + b < 2 ^ 64) : sizeAdd a b = a + b :=
  Nat.mod_eq_of_lt h

section

variable {frame : List UInt8} {body : Nat} (hbody : body ≤ frame.length)
include hbody

theorem copy_take {pos n : Nat} (h : pos + n ≤ body) :
    copy (frame.take body) pos n = some ((frame.drop pos).take n) := by
  rw [copy, List.length_take, Nat.min_eq_left hbody, if_pos h, List.drop_take, List.take_take,
    Nat.min_eq_left (by omega)]

variable (hlen : frame.length < 2 ^ 64)
include hlen

theorem copyCt_spec {s : Parts} {pos n : Nat} (hpos : pos + n ≤ body) (hused : s.ctLen + n ≤ body) :
    Logged.Meets Access.Inside
      (fun s' => s' = { s with ct := s.ct ++ (frame.drop pos).take n, ctLen := s.ctLen + n })
      (s.copyCt frame body pos n) := by
  refine touch_then (by omega) ?_
  refine touch_then hused ?_
  apply Logged.Meets.pure
  rw [sizeAdd_of_lt (by omega)]

theorem copyAad_spec {s : Parts} {pos n : Nat} (hpos : pos + n ≤ body) (hused : s.aadLen + n ≤ body) :
    Logged.Meets Access.Inside
      (fun s' => s' = { s with aad := s.aad ++ (frame.drop pos).take n, aadLen := s.aadLen + n })
      (s.copyAad frame body pos n) := by
  refine touch_then (by omega) ?_
  refine touch_then hused ?_
  apply Logged.Meets.pure
  rw [sizeAdd_of_lt (by omega)]

/-- **The split**: what is copied so far is what lies before the position. -/
theorem splitLoopAt_spec {rs : List Range} {pos : Nat} {s : Parts} (hlaid : Laid body pos rs)
    (hused : s.ctLen + s.aadLen = pos) :
    Logged.Meets Access.Inside
      (fun s' => s'.ctLen + s'.aadLen = body ∧ ∃ ct aad,
        splitLoop (frame.take body) rs pos = some (ct, aad) ∧
        s'.ct = s.ct ++ ct ∧ s'.aad = s.aad ++ aad)
      (splitLoopAt frame body rs pos s) := by
  have hlength : (frame.take body).length = body := List.length_take_of_le hbody
  induction rs generalizing pos s with
  | nil =>
    have hpos : pos ≤ body := hlaid
    rw [splitLoopAt, sizeSub_of_le hpos (by omega)]
    apply (copyCt_spec hbody hlen (by omega) (by omega)).mono
    intro s' hs'
    subst hs'
    refine ⟨by dsimp only; omega, (frame.drop pos).take (body - pos), [], ?_, rfl,
      (List.append_nil _).symm⟩
    rw [splitLoop, hlength, copy_take hbody (by omega)]
    rfl
  | cons r rest ih =>
    obtain ⟨hstart, hrest⟩ := hlaid
    have hend := hrest.le
    rw [splitLoopAt, sizeSub_of_le hstart (by omega), sizeAdd_of_lt (by omega)]
    apply (copyCt_spec hbody hlen (by omega) (by omega)).bind
    intro s₁ hs₁
    subst hs₁
    apply (copyAad_spec hbody hlen (by omega) (by dsimp only; omega)).bind
    intro s₂ hs₂
    subst hs₂
    apply (ih hrest (by dsimp only; omega)).mono
    intro s' hs'
    obtain ⟨hsum, ct, aad, hsplit, hct, haad⟩ := hs'
    refine ⟨hsum, (frame.drop pos).take (r.offset - pos) ++ ct,
      (frame.drop r.offset).take r.size ++ aad, ?_, ?_, ?_⟩
    · rw [splitLoop, copy_take hbody (by omega), copy_take hbody hend, hsplit]
      rfl
    · rw [hct, List.append_assoc]
    · rw [haad, List.append_assoc]

/-- **The join**: what is taken of the two kinds is what lies before the position. -/
theorem joinLoopAt_spec (pt aad : List UInt8) {rs : List Range} {pos c a : Nat}
    (hlaid : Laid body pos rs) (hused : c + a = pos) :
    Logged.Meets Access.Inside (fun out => out = joinLoop body rs pos (pt.drop c) (aad.drop a))
      (joinLoopAt frame.length body pt aad rs pos c a) := by
  induction rs generalizing pos c a with
  | nil =>
    have hpos : pos ≤ body := hlaid
    rw [joinLoopAt, sizeSub_of_le hpos (by omega)]
    refine touch_then (by omega) ?_
    refine touch_then (by omega) ?_
    exact Logged.Meets.pure rfl
  | cons r rest ih =>
    obtain ⟨hstart, hrest⟩ := hlaid
    have hend := hrest.le
    rw [joinLoopAt, sizeSub_of_le hstart (by omega), sizeAdd_of_lt (by omega),
      sizeAdd_of_lt (by omega), sizeAdd_of_lt (by omega)]
    refine touch_then (by omega) ?_
    refine touch_then (by omega) ?_
    refine touch_then (by omega) ?_
    refine touch_then (by omega) ?_
    apply (ih hrest (by omega)).bind
    intro out hout
    apply Logged.Meets.pure
    rw [hout, joinLoop, List.drop_drop, List.drop_drop]

/-! ## Opening what was split -/

variable {cr : Crypto} {check : GcmCheck} {t : Trailer} (ht : t.body = body)
  (htag : body + tagBytes ≤ frame.length) {s : Parts} (hused : s.ctLen + s.aadLen = body)
include ht htag hused

theorem openWithAt_spec (rt : Ratchet) :
    Logged.Meets Access.Inside (fun x => x = openWith cr check rt t s.ct s.aad)
      (openWithAt cr check rt frame t s) := by
  rw [openWithAt, openWith]
  cases ratchetKey cr rt (t.nonce / 2 ^ 24) with
  | none => exact Logged.Meets.pure rfl
  | some x =>
    refine touch_then (by omega) ?_
    refine touch_then (by omega) ?_
    refine touch_then (by omega) ?_
    refine touch_then (by omega) ?_
    dsimp only
    split
    · refine touch_then (by omega) ?_
      refine touch_then (by omega) ?_
      exact Logged.Meets.pure rfl
    · exact Logged.Meets.pure rfl

theorem openForAt_spec (r : Receiver) :
    Logged.Meets Access.Inside (fun x => x = openFor cr check r t s.ct s.aad)
      (openForAt cr check r frame t s) := by
  apply (openWithAt_spec hbody hlen ht htag hused r.cur).bind
  intro x hx
  obtain ⟨cur, _ | pt⟩ := x
  · apply (openWithAt_spec hbody hlen ht htag hused r.old).bind
    intro y hy
    apply Logged.Meets.pure
    rw [openFor, ← hx]
    rw [← hy]
  · apply Logged.Meets.pure
    rw [openFor, ← hx]

/-- **What follows the split.** -/
theorem openSplitAt_spec (hlaid : Laid body 0 t.ranges) (d : Dave) (sender : Nat) :
    Logged.Meets Access.Inside (fun x => x = openSplit cr check d sender t s.ct s.aad)
      (openSplitAt cr check d sender frame t s) := by
  subst ht
  rw [openSplitAt, openSplit]
  cases d.recv.findIdx? fun r => r.user == sender with
  | none => exact Logged.Meets.pure rfl
  | some i =>
    cases hr : d.recv[i]? with
    | none =>
      dsimp only
      rw [hr]
      exact Logged.Meets.pure rfl
    | some r =>
      dsimp only
      rw [hr]
      apply (openForAt_spec hbody hlen rfl htag hused r).bind
      intro x hx
      dsimp only
      rw [← hx]
      obtain ⟨r₁, pt₁⟩ := x
      rcases r₁.accept t.nonce pt₁ with ⟨r₂, _ | pt₂⟩
      · exact Logged.Meets.pure rfl
      · have hjoin := @joinLoopAt_spec frame t.body hbody hlen pt₂ s.aad t.ranges 0 0 0 hlaid rfl
        apply hjoin.bind
        intro out hout
        apply Logged.Meets.pure
        rw [hout]
        rfl

end

/-! ## All of it -/

variable {cr : Crypto} {check : GcmCheck} {frame : List UInt8}

theorem passAt_spec (d : Dave) :
    Logged.Meets Access.Inside (fun x => x = (d, if d.passes frame then some frame else none))
      (passAt d frame) := by
  have hpass : Logged.Meets Access.Inside
      (fun x => x = (d, if d.passes frame then some frame else none))
      (if d.passes frame then do
        touch frame.length 0 frame.length
        touch frame.length 0 frame.length
        pure (d, some frame)
      else pure (d, none) : Logged Access (Dave × Option (List UInt8))) := by
    cases d.passes frame with
    | false => exact Logged.Meets.pure rfl
    | true =>
      refine touch_then (by omega) ?_
      refine touch_then (by omega) ?_
      exact Logged.Meets.pure rfl
  rw [passAt]
  by_cases hthree : frame.length = 3
  · rw [if_pos hthree]
    refine touch_then (by omega) ?_
    exact hpass
  · rw [if_neg hthree]
    exact hpass

theorem readTrailer_eq_some {supp : Nat} {t : Trailer} :
    readTrailer frame supp = some t ↔ (readTrailerAt frame supp).value = .ok t := by
  rw [readTrailerAt_value]
  cases (readTrailerAt frame supp).value with
  | error e => exact ⟨(fun h => nomatch h), (fun h => nomatch h)⟩
  | ok t' => exact ⟨fun h => congrArg Except.ok (Option.some.inj h), fun h => congrArg some (Except.ok.inj h)⟩

/-- **A frame that does not wrap**: all that is touched lies inside its buffer, and the answer
is that of `daveDecrypt`. -/
theorem daveDecryptAt_spec (hlen : frame.length < 2 ^ 64) (hframe : Unwrapped frame) (d : Dave)
    (sender : Nat) :
    Logged.Meets Access.Inside (fun x => daveDecrypt cr check d sender frame = some x)
      (daveDecryptAt cr check d sender frame) := by
  apply (trailerLengthAt_spec frame).bind
  intro supp? hsupp
  rw [daveDecrypt, ← hsupp]
  cases supp? with
  | none => exact (passAt_spec d).mono fun x hx => congrArg some hx.symm
  | some supp =>
    have htrailer : Logged.Meets Access.Inside
        (fun e => e = (readTrailerAt frame supp).value) (readTrailerAt frame supp).run :=
      ⟨(readTrailerAt_meets frame supp).1, rfl⟩
    apply htrailer.bind
    intro e he
    cases e with
    | error e =>
      apply Logged.Meets.pure
      dsimp only
      rw [readTrailerAt_value, ← he]
      rfl
    | ok t =>
      have hread := readTrailer_eq_some.mpr he.symm
      obtain ⟨hbody, -, hlaid⟩ := (readTrailerAt_meets frame supp).2 t he.symm
      have hranges := hlaid (hframe supp t hsupp.symm hread)
      obtain ⟨hmin, hmax⟩ := trailerLength_le hsupp.symm
      dsimp only
      rw [hread]
      apply (splitLoopAt_spec (by omega) hlen hranges rfl).bind
      intro s hs
      obtain ⟨hused, ct, aad, hsplit, hct, haad⟩ := hs
      dsimp only
      rw [hsplit]
      apply (openSplitAt_spec (by omega) hlen rfl (by omega) hused hranges d sender).mono
      intro x hx
      rw [hx, hct, haad]
      rfl

theorem mem_splitLoopAt {body : Nat} {rs : List Range} {r : Range} (hr : r ∈ rs) (pos : Nat) (s : Parts) :
    ⟨frame.length, r.offset, r.size⟩ ∈ (splitLoopAt frame body rs pos s).log := by
  induction rs generalizing pos s with
  | nil => exact absurd hr List.not_mem_nil
  | cons r' rest ih =>
    apply List.mem_append_right
    rcases List.mem_cons.mp hr with rfl | hr
    · exact List.mem_append_left _ List.mem_cons_self
    · exact List.mem_append_right _ (ih hr _ _)

/-- **A range that wraps** is read past the end of the frame. -/
theorem wrapped_outside (hlen : frame.length < 2 ^ 64) {supp : Nat} {t : Trailer}
    (hsupp : trailerLength frame = some supp) (ht : readTrailer frame supp = some t) {r : Range}
    (hr : r ∈ t.ranges) (hsum : 2 ^ 64 ≤ r.offset + r.size) (d : Dave) (sender : Nat) :
    ∃ a ∈ (daveDecryptAt cr check d sender frame).log, ¬a.Inside := by
  have hok := readTrailer_eq_some.mp ht
  have hoffset := ((readTrailerAt_meets frame supp).2 t hok).2.1 r hr
  refine ⟨⟨frame.length, r.offset, r.size⟩, ?_, ?_⟩
  · have hvalue : (trailerLengthAt frame).value = some supp :=
      (trailerLengthAt_spec frame).2.trans hsupp
    rw [daveDecryptAt, Logged.log_bind, hvalue]
    apply List.mem_append_right
    rw [Logged.log_bind, Attempt.value_run, hok]
    apply List.mem_append_right
    exact List.mem_append_left _ (mem_splitLoopAt hr 0 Parts.empty)
  · intro hinside
    rcases hinside with hzero | hle
    · have hsize : r.size = 0 := hzero
      omega
    · have hfits : r.offset + r.size ≤ frame.length := hle
      omega

/-- **What a frame makes `dave_decrypt` touch** lies inside the buffers exactly if none of its
ranges has a sum of `2 ^ 64` or more. -/
theorem touches_inside_iff (hlen : frame.length < 2 ^ 64) (d : Dave) (sender : Nat) :
    (∀ a ∈ (daveDecryptAt cr check d sender frame).log, a.Inside) ↔ Unwrapped frame := by
  constructor
  · intro hinside supp t hsupp ht r hr
    by_contra hsum
    obtain ⟨a, ha, houtside⟩ := @wrapped_outside cr check frame hlen supp t hsupp ht r hr
      (Nat.le_of_not_lt hsum) d sender
    exact houtside (hinside a ha)
  · intro hframe
    exact (daveDecryptAt_spec hlen hframe d sender).1

/-- A frame of nothing but a trailer, whose range ends at `2 ^ 64`. -/
def wrappedRange : List UInt8 :=
  List.replicate 8 0 ++ [0, 1, 0xff, 0xff, 0xff, 0xff, 0xff, 0xff, 0xff, 0xff, 0xff, 1, 23, marker, marker]

/-- The trailer of that frame as it is read. -/
def wrappedTrailer : Trailer := ⟨0, List.replicate 8 0, 0, [⟨1, 2 ^ 64 - 1⟩]⟩

theorem readTrailer_wrappedRange : readTrailer wrappedRange 23 = some wrappedTrailer := rfl

/-- **A frame that is read past its end.** -/
theorem wrapped_range_outside :
    ¬∀ (cr : Crypto) (check : GcmCheck) (frame : List UInt8), frame.length < 2 ^ 64 →
      ∀ (d : Dave) (sender : Nat), ∀ a ∈ (daveDecryptAt cr check d sender frame).log, a.Inside := by
  intro h
  obtain ⟨a, ha, houtside⟩ := @wrapped_outside sample (fun _ _ _ _ _ => none) wrappedRange
    (by decide) 23 wrappedTrailer rfl readTrailer_wrappedRange ⟨1, 2 ^ 64 - 1⟩ List.mem_cons_self
    (by decide) (daveNew 7) 9
  exact houtside (h sample _ wrappedRange (by decide) (daveNew 7) 9 a ha)

/-- The same for that frame and what it says. -/
theorem touches_inside_wrappedRange :
    (∀ a ∈ (daveDecryptAt sample (fun _ _ _ _ _ => none) (daveNew 7) 9 wrappedRange).log, a.Inside) ↔
      Unwrapped wrappedRange :=
  touches_inside_iff (by decide) (daveNew 7) 9

end Voice
