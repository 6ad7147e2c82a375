import StrawOS.Voice.Nonce

/-!
# Opening secure frames

`dave_decrypt`: a frame ends in a trailer with a tag, a nonce and the ranges that
were left in the clear.  A frame without a trailer passes in a call without
encryption, before the deadline of a transition, or when it is the silence frame.

`mls_aes_gcm_check` is a parameter.  The allocations of `dave.c` are assumed to
succeed.  The check of a range takes its sum modulo `2 ^ 64`, the copies do not.
-/

namespace Voice

/-- `mls_aes_gcm_check`: the key, the nonce, the clear bytes, the sealed ones and the
tag. -/
abbrev GcmCheck := List UInt8 → List UInt8 → List UInt8 → List UInt8 → List UInt8 → Option (List UInt8)

/-! ## Trailers -/

/-- The loop of `leb_read`. -/
def lebLoop : Nat → Nat → Nat → List UInt8 → Option (Nat × List UInt8)
  | 0, _, _, _ => none
  | _ + 1, _, _, [] => none
  | fuel + 1, shift, r, b :: p =>
    let r := r ||| (b.toNat % 128 * 2 ^ shift) % 2 ^ 64
    if b.toNat < 128 then some (r, p) else lebLoop fuel (shift + 7) r p

/-- `leb_read`, which gives up at a shift of 64. -/
def lebRead (p : List UInt8) : Option (Nat × List UInt8) := lebLoop 10 0 0 p

structure Range where
  offset : Nat
  size : Nat

/-- The loop of `dave_decrypt` that reads the ranges, with room for `left` of them. -/
def rangesLoop (body : Nat) : Nat → Nat → List UInt8 → Option (List Range)
  | _, _, [] => some []
  | 0, _, _ :: _ => none
  | left + 1, lastEnd, b :: p => do
    let (offset, p) ← lebRead (b :: p)
    let (size, p) ← lebRead p
    if offset < lastEnd ∨ body < (offset + size) % 2 ^ 64 then none
    else
      let rest ← rangesLoop body left ((offset + size) % 2 ^ 64) p
      pure (⟨offset, size⟩ :: rest)

/-- The length of the trailer of a frame that has one. -/
def trailerLength (frame : List UInt8) : Option Nat :=
  let len := frame.length
  if 3 + tagBytes + 1 ≤ len ∧ frame.getD (len - 1) 0 = marker ∧ frame.getD (len - 2) 0 = marker then
    let supp := (frame.getD (len - 3) 0).toNat
    if tagBytes + 1 + 3 ≤ supp ∧ supp ≤ len then some supp else none
  else none

/-- What a trailer says. -/
structure Trailer where
  body : Nat
  tag : List UInt8
  nonce : Nat
  ranges : List Range

/-- The part of `dave_decrypt` that reads a trailer of a length. -/
def readTrailer (frame : List UInt8) (supp : Nat) : Option Trailer := do
  let body := frame.length - supp
  let p := (frame.take (frame.length - 3)).drop (body + tagBytes)
  let (nonce, p) ← lebRead p
  if 2 ^ 32 ≤ nonce then none
  else
    let ranges ← rangesLoop body 16 0 p
    pure ⟨body, (frame.drop body).take tagBytes, nonce, ranges⟩

/-! ## Clear and sealed bytes -/

/-- A copy of bytes of the body, which fails when it leaves it. -/
def copy (body : List UInt8) (pos n : Nat) : Option (List UInt8) :=
  if pos + n ≤ body.length then some ((body.drop pos).take n) else none

/-- The loop of `dave_decrypt` that splits the body: the sealed and the clear bytes. -/
def splitLoop (body : List UInt8) : List Range → Nat → Option (List UInt8 × List UInt8)
  | [], pos => do
    let ct ← copy body pos (body.length - pos)
    pure (ct, [])
  | r :: rest, pos => do
    let ct ← copy body pos (r.offset - pos)
    let aad ← copy body r.offset r.size
    let (cts, aads) ← splitLoop body rest (r.offset + r.size)
    pure (ct ++ cts, aad ++ aads)

/-- The loop of `dave_decrypt` that joins the opened and the clear bytes. -/
def joinLoop (body : Nat) : List Range → Nat → List UInt8 → List UInt8 → List UInt8
  | [], pos, ct, _ => ct.take (body - pos)
  | r :: rest, pos, ct, aad =>
    ct.take (r.offset - pos) ++ aad.take r.size ++
      joinLoop body rest (r.offset + r.size) (ct.drop (r.offset - pos)) (aad.drop r.size)

/-! ## Opening -/

section

variable (cr : Crypto) (check : GcmCheck)

/-- One attempt of `dave_decrypt` with a ratchet: the ratchet and the opened bytes. -/
def openWith (rt : Ratchet) (t : Trailer) (ct aad : List UInt8) : Ratchet × Option (List UInt8) :=
  match ratchetKey cr rt (t.nonce / 2 ^ 24) with
  | none => (rt, none)
  | some (rt, key) => (rt, check key (makeIv t.nonce) aad ct t.tag)

/-- The attempts with the current and the old ratchet of a receiver. -/
def openFor (r : Receiver) (t : Trailer) (ct aad : List UInt8) : Receiver × Option (List UInt8) :=
  match openWith cr check r.cur t ct aad with
  | (cur, some pt) => ({ r with cur := cur }, some pt)
  | (cur, none) =>
    let (old, pt) := openWith cr check r.old t ct aad
    ({ r with cur := cur, old := old }, pt)

/-- An opened frame that came before is dropped. -/
def Receiver.accept (r : Receiver) (nonce : Nat) : Option (List UInt8) → Receiver × Option (List UInt8)
  | none => (r, none)
  | some pt =>
    ({ r with lastNonce := nonce, seen := true },
      if r.seen ∧ nonce = r.lastNonce then none else some pt)

/-- `dave_decrypt` for a frame with a trailer, once the body is split. -/
def openSplit (d : Dave) (sender : Nat) (t : Trailer) (ct aad : List UInt8) :
    Dave × Option (List UInt8) :=
  match d.recv.findIdx? fun r => r.user == sender with
  | none => (d, none)
  | some i =>
    match d.recv[i]? with
    | none => (d, none)
    | some r =>
      let (r, pt) := openFor cr check r t ct aad
      let (r, pt) := r.accept t.nonce pt
      ({ d with recv := d.recv.set i r }, pt.map fun pt => joinLoop t.body t.ranges 0 pt aad)

/-- Whether a frame without a trailer passes. -/
def Dave.passes (d : Dave) (frame : List UInt8) : Bool :=
  isSilence frame || d.version == 0 || (d.passthroughUntil != 0 && d.now ≤ d.passthroughUntil)

/-- `dave_decrypt`: the session and the frame if it is accepted.  Nothing is left when
a copy leaves its buffer. -/
def daveDecrypt (d : Dave) (sender : Nat) (frame : List UInt8) : Option (Dave × Option (List UInt8)) :=
  match trailerLength frame with
  | none => some (d, if d.passes frame then some frame else none)
  | some supp =>
    match readTrailer frame supp with
    | none => some (d, none)
    | some t =>
      (splitLoop (frame.take t.body) t.ranges 0).map fun (ct, aad) => openSplit cr check d sender t ct aad

end

/-! ## What is accepted -/

/-- No range of the frame has a sum of `2 ^ 64` or more. -/
def Unwrapped (frame : List UInt8) : Prop :=
  ∀ supp t, trailerLength frame = some supp → readTrailer frame supp = some t →
    ∀ r ∈ t.ranges, r.offset + r.size < 2 ^ 64

/-- The frame has a trailer that is authenticated under the current key of the sender
or an old one that has not expired. -/
def Authentic (cr : Crypto) (check : GcmCheck) (d : Dave) (sender : Nat) (frame : List UInt8) : Prop :=
  ∃ supp t ct aad r rt, trailerLength frame = some supp ∧ readTrailer frame supp = some t ∧
    splitLoop (frame.take t.body) t.ranges 0 = some (ct, aad) ∧
    d.recv.find? (fun r => r.user == sender) = some r ∧ rt.set = true ∧
    (rt = r.cur ∨ rt = r.old ∧ d.now ≤ r.oldUntil) ∧
    (check (keyOf cr rt.base (t.nonce / 2 ^ 24)) (makeIv t.nonce) aad ct t.tag).isSome = true

theorem copy_inside (body : List UInt8) {pos n : Nat} (h : pos + n ≤ body.length) :
    (copy body pos n).isSome = true := by
  rw [copy, if_pos h]
  rfl

theorem splitLoop_inside {body : List UInt8} {left lastEnd : Nat} {p : List UInt8} {rs : List Range}
    (hread : rangesLoop body.length left lastEnd p = some rs) (hend : lastEnd ≤ body.length)
    (hrs : ∀ r ∈ rs, r.offset + r.size < 2 ^ 64) :
    (splitLoop body rs lastEnd).isSome = true := by
  induction left generalizing lastEnd p rs with
  | zero =>
    cases p with
    | nil =>
      obtain rfl := Option.some.inj hread
      obtain ⟨ct, hct⟩ := Option.isSome_iff_exists.mp
        (copy_inside body (show lastEnd + (body.length - lastEnd) ≤ body.length by omega))
      simp [splitLoop, hct]
    | cons b p => cases hread
  | succ left ih =>
    cases p with
    | nil =>
      obtain rfl := Option.some.inj hread
      obtain ⟨ct, hct⟩ := Option.isSome_iff_exists.mp
        (copy_inside body (show lastEnd + (body.length - lastEnd) ≤ body.length by omega))
      simp [splitLoop, hct]
    | cons b p =>
      obtain ⟨⟨offset, p₁⟩, -, hread⟩ := Option.bind_eq_some_iff.mp hread
      obtain ⟨⟨size, p₂⟩, -, hread⟩ := Option.bind_eq_some_iff.mp hread
      dsimp only at hread
      split at hread
      · cases hread
      · rename_i hchecked
        obtain ⟨rest, hrest, hread⟩ := Option.bind_eq_some_iff.mp hread
        obtain rfl := Option.some.inj hread
        have hsum : offset + size < 2 ^ 64 := hrs ⟨offset, size⟩ List.mem_cons_self
        rw [Nat.mod_eq_of_lt hsum] at hchecked hrest
        obtain ⟨ct, hct⟩ := Option.isSome_iff_exists.mp
          (copy_inside body (show lastEnd + (offset - lastEnd) ≤ body.length by omega))
        obtain ⟨aad, haad⟩ := Option.isSome_iff_exists.mp
          (copy_inside body (show offset + size ≤ body.length by omega))
        obtain ⟨split, hsplit⟩ := Option.isSome_iff_exists.mp
          (ih hrest (by omega) fun r hr => hrs r (List.mem_cons_of_mem _ hr))
        simp [splitLoop, hct, haad, hsplit]

/-- **A frame that does not wrap** makes no copy leave its buffer. -/
theorem split_inside {frame : List UInt8} (hframe : Unwrapped frame) {supp : Nat} {t : Trailer}
    (hsupp : trailerLength frame = some supp) (ht : readTrailer frame supp = some t) :
    ∃ ct aad, splitLoop (frame.take t.body) t.ranges 0 = some (ct, aad) := by
  have hrs := hframe supp t hsupp ht
  obtain ⟨⟨nonce, p⟩, -, ht⟩ := Option.bind_eq_some_iff.mp ht
  dsimp only at ht
  split at ht
  · cases ht
  · obtain ⟨ranges, hranges, ht⟩ := Option.bind_eq_some_iff.mp ht
    obtain rfl := Option.some.inj ht
    have hlength : (frame.take (frame.length - supp)).length = frame.length - supp := by
      rw [List.length_take]
      omega
    rw [← hlength] at hranges
    obtain ⟨⟨ct, aad⟩, hsplit⟩ := Option.isSome_iff_exists.mp
      (splitLoop_inside hranges (Nat.zero_le _) hrs)
    exact ⟨ct, aad, hsplit⟩

variable {cr : Crypto} {check : GcmCheck}

/-- A key that a ratchet keeps is the one of its generation. -/
def Ratchet.Cached (cr : Crypto) (r : Ratchet) : Prop :=
  r.haveKey = true → r.key = keyOf cr r.base r.gen

theorem ratchetZero_cached : Ratchet.zero.Cached cr := fun h => nomatch h

theorem ratchetInit_cached (base : List UInt8) : (ratchetInit base).Cached cr := fun h => nomatch h

/-- A receiver whose keys are right, and whose old one has not expired. -/
structure Receiver.Kept (cr : Crypto) (now : Nat) (r : Receiver) : Prop where
  cur : r.cur.Cached cr
  old : r.old.Cached cr
  live : r.old.set = true → now ≤ r.oldUntil

theorem readTrailer_nonce {frame : List UInt8} {supp : Nat} {t : Trailer}
    (ht : readTrailer frame supp = some t) : t.nonce < 2 ^ 32 := by
  obtain ⟨⟨nonce, p⟩, -, ht⟩ := Option.bind_eq_some_iff.mp ht
  dsimp only at ht
  split at ht
  · cases ht
  · rename_i hnonce
    obtain ⟨ranges, -, ht⟩ := Option.bind_eq_some_iff.mp ht
    obtain rfl := Option.some.inj ht
    exact Nat.lt_of_not_le hnonce

variable (check) in
/-- **An attempt** takes the key of the generation, and keeps the base. -/
theorem openWith_spec {rt : Ratchet} (hcache : rt.Cached cr) {t : Trailer} (ht : t.nonce < 2 ^ 32)
    (ct aad : List UInt8) :
    (openWith cr check rt t ct aad).1.Cached cr ∧ (openWith cr check rt t ct aad).1.set = rt.set ∧
      ((openWith cr check rt t ct aad).2.isSome = true → rt.set = true ∧
        (check (keyOf cr rt.base (t.nonce / 2 ^ 24)) (makeIv t.nonce) aad ct t.tag).isSome = true) := by
  rw [openWith]
  cases hset : rt.set with
  | false =>
    have hnone : ratchetKey cr rt (t.nonce / 2 ^ 24) = none := by simp [ratchetKey, hset]
    rw [hnone]
    exact ⟨hcache, hset, fun h => by cases h⟩
  | true =>
    obtain ⟨rt', hkey, hset', -, hcache'⟩ := ratchetKey_spec hset hcache
      (show t.nonce / 2 ^ 24 ≤ 4096 by omega)
    rw [hkey]
    exact ⟨hcache', hset', fun h => ⟨rfl, h⟩⟩

variable (check) in
/-- **The attempts** keep a receiver, and succeed only with a key of it. -/
theorem openFor_spec {now : Nat} {r : Receiver} (hr : r.Kept cr now) {t : Trailer}
    (ht : t.nonce < 2 ^ 32) (ct aad : List UInt8) :
    (openFor cr check r t ct aad).1.Kept cr now ∧ ((openFor cr check r t ct aad).2.isSome = true →
      ∃ rt : Ratchet, rt.set = true ∧ (rt = r.cur ∨ rt = r.old ∧ now ≤ r.oldUntil) ∧
        (check (keyOf cr rt.base (t.nonce / 2 ^ 24)) (makeIv t.nonce) aad ct t.tag).isSome = true) := by
  obtain ⟨hcur, -, hcurKey⟩ := openWith_spec check hr.cur ht ct aad
  obtain ⟨hold, holdSet, holdKey⟩ := openWith_spec check hr.old ht ct aad
  rw [openFor]
  rcases hc : openWith cr check r.cur t ct aad with ⟨cur, _ | pt⟩
  · rcases ho : openWith cr check r.old t ct aad with ⟨old, pt⟩
    rw [hc] at hcur
    rw [ho] at hold holdSet holdKey
    refine ⟨⟨hcur, hold, fun hset => hr.live (holdSet ▸ hset)⟩, ?_⟩
    intro hsome
    obtain ⟨hset, hcheck⟩ := holdKey hsome
    exact ⟨r.old, hset, Or.inr ⟨rfl, hr.live hset⟩, hcheck⟩
  · rw [hc] at hcur hcurKey
    refine ⟨⟨hcur, hr.old, hr.live⟩, ?_⟩
    intro hsome
    obtain ⟨hset, hcheck⟩ := hcurKey hsome
    exact ⟨r.cur, hset, Or.inl rfl, hcheck⟩

/-- The receivers of a session are kept. -/
def Dave.Kept (cr : Crypto) (d : Dave) : Prop := ∀ r ∈ d.recv, r.Kept cr d.now

variable (check) in
/-- **A split frame** keeps the receivers, and is accepted only under a key of the sender. -/
theorem openSplit_spec {d : Dave} (hd : d.Kept cr) (sender : Nat) {t : Trailer}
    (ht : t.nonce < 2 ^ 32) (ct aad : List UInt8) :
    (openSplit cr check d sender t ct aad).1.Kept cr ∧
      ((openSplit cr check d sender t ct aad).2.isSome = true → ∃ r rt,
        d.recv.find? (fun r => r.user == sender) = some r ∧ rt.set = true ∧
        (rt = r.cur ∨ rt = r.old ∧ d.now ≤ r.oldUntil) ∧
        (check (keyOf cr rt.base (t.nonce / 2 ^ 24)) (makeIv t.nonce) aad ct t.tag).isSome = true) := by
  rw [openSplit]
  cases hi : d.recv.findIdx? fun r => r.user == sender with
  | none => exact ⟨hd, fun h => nomatch h⟩
  | some i =>
    dsimp only
    cases hr : d.recv[i]? with
    | none => exact ⟨hd, fun h => nomatch h⟩
    | some r =>
      obtain ⟨hkept, hkey⟩ := openFor_spec check (hd r (List.mem_of_getElem? hr)) ht ct aad
      rcases ho : openFor cr check r t ct aad with ⟨r', pt⟩
      rw [ho] at hkept hkey
      have haccept : (r'.accept t.nonce pt).1.Kept cr d.now := by
        cases pt with
        | none => exact hkept
        | some pt => exact ⟨hkept.cur, hkept.old, hkept.live⟩
      dsimp only
      rw [ho]
      constructor
      · intro x hx
        rcases List.mem_or_eq_of_mem_set hx with hx | rfl
        · exact hd x hx
        · exact haccept
      · intro hsome
        have hpt : pt.isSome = true := by
          cases pt with
          | none => cases hsome
          | some pt => rfl
        obtain ⟨rt, hset, hwhich, hcheck⟩ := hkey hpt
        refine ⟨r, rt, ?_, hset, hwhich, hcheck⟩
        rw [List.find?_eq_some_iff_getElem]
        rw [List.findIdx?_eq_some_iff_getElem] at hi
        obtain ⟨hlt, hp, hbefore⟩ := hi
        rw [List.getElem?_eq_getElem hlt] at hr
        obtain rfl := Option.some.inj hr
        exact ⟨hp, i, hlt, rfl, fun j hj => by simpa using hbefore j hj⟩

/-- **A frame without a trailer** that does not pass, or one whose trailer is not
authenticated, is rejected. -/
theorem daveDecrypt_rejects {d : Dave} (hd : d.Kept cr) {sender : Nat} {frame : List UInt8}
    (hframe : Unwrapped frame) (hpasses : d.passes frame = false)
    (hauth : ¬ Authentic cr check d sender frame) :
    ∃ d', daveDecrypt cr check d sender frame = some (d', none) := by
  rw [daveDecrypt]
  cases hsupp : trailerLength frame with
  | none => exact ⟨d, by simp [hpasses]⟩
  | some supp =>
    dsimp only
    cases ht : readTrailer frame supp with
    | none => exact ⟨d, rfl⟩
    | some t =>
      obtain ⟨ct, aad, hsplit⟩ := split_inside hframe hsupp ht
      obtain ⟨-, hkey⟩ := openSplit_spec check hd sender (readTrailer_nonce ht) ct aad
      refine ⟨(openSplit cr check d sender t ct aad).1, ?_⟩
      simp only [hsplit, Option.map_some, Option.some.injEq]
      refine Prod.ext rfl ?_
      by_contra hsome
      obtain ⟨r, rt, hr, hset, hwhich, hcheck⟩ := hkey (Option.isSome_iff_ne_none.mpr hsome)
      exact hauth ⟨supp, t, ct, aad, r, rt, hsupp, ht, hsplit, hr, hset, hwhich, hcheck⟩

/-- **Any frame** keeps the receivers and nothing but them. -/
theorem daveDecrypt_kept {d d' : Dave} (hd : d.Kept cr) {sender : Nat} {frame : List UInt8}
    {out : Option (List UInt8)} (h : daveDecrypt cr check d sender frame = some (d', out)) :
    d'.Kept cr ∧ ∃ recv, d' = { d with recv := recv } := by
  rw [daveDecrypt] at h
  cases hsupp : trailerLength frame with
  | none =>
    rw [hsupp] at h
    obtain ⟨rfl, -⟩ := Prod.mk.inj (Option.some.inj h)
    exact ⟨hd, d.recv, rfl⟩
  | some supp =>
    rw [hsupp] at h
    dsimp only at h
    cases ht : readTrailer frame supp with
    | none =>
      rw [ht] at h
      obtain ⟨rfl, -⟩ := Prod.mk.inj (Option.some.inj h)
      exact ⟨hd, d.recv, rfl⟩
    | some t =>
      rw [ht] at h
      obtain ⟨⟨ct, aad⟩, -, h⟩ := Option.map_eq_some_iff.mp h
      obtain ⟨hkept, -⟩ := openSplit_spec check hd sender (readTrailer_nonce ht) ct aad
      rw [h] at hkept
      refine ⟨hkept, d'.recv, ?_⟩
      rw [openSplit] at h
      split at h
      · obtain ⟨rfl, -⟩ := Prod.mk.inj h
        rfl
      · split at h
        · obtain ⟨rfl, -⟩ := Prod.mk.inj h
          rfl
        · obtain ⟨rfl, -⟩ := Prod.mk.inj h
          rfl

end Voice
