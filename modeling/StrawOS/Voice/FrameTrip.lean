import StrawOS.Voice.Passthrough

/-!
# A frame comes back

`encrypt_frame` puts the clear bytes in front, seals the rest and appends the trailer.  `dave_decrypt`
reads the trailer from behind, takes the clear and the sealed bytes apart again and opens the
sealed ones with the key of the generation, which both sides derive from the base and keep
(`frame_round_trip`).
-/

namespace Voice

/-! ## Numbers in trailers -/

theorem or_shifted {r shift : Nat} (hr : r < 2 ^ shift) (x : Nat) :
    r ||| x * 2 ^ shift = r + x * 2 ^ shift := by
  rw [Nat.or_comm, Nat.mul_comm, ← Nat.two_pow_add_eq_or_of_lt hr, Nat.add_comm]

/-- **A number** is read back, with what is behind it. -/
theorem lebLoop_lebWrite {v shift r fuel : Nat} (hr : r < 2 ^ shift) (hfuel : v < 128 ^ (fuel + 1))
    (hfits : v * 2 ^ shift < 2 ^ 64) (rest : List UInt8) :
    lebLoop (fuel + 1) shift r (lebWrite v ++ rest) = some (r + v * 2 ^ shift, rest) := by
  induction v using lebWrite.induct generalizing shift r fuel with
  | case1 v hlast =>
    have hbyte : (UInt8.ofNat v).toNat = v := by
      rw [UInt8.toNat_ofNat']
      omega
    rw [lebWrite, if_pos hlast, List.singleton_append, lebLoop, hbyte]
    simp only [Nat.mod_eq_of_lt hlast, Nat.mod_eq_of_lt hfits, if_pos hlast, or_shifted hr]
  | case2 v hmore ih =>
    have hbyte : (UInt8.ofNat (v % 128 + 128)).toNat = v % 128 + 128 := by
      rw [UInt8.toNat_ofNat']
      omega
    have hlow : (v % 128 + 128) % 128 = v % 128 := by omega
    have hsplit : v % 128 * 2 ^ shift + v / 128 * 2 ^ (shift + 7) = v * 2 ^ shift := by
      rw [Nat.pow_add, Nat.mul_comm (2 ^ shift), ← Nat.mul_assoc, ← Nat.add_mul, Nat.add_comm,
        Nat.mul_comm (v / 128)]
      congr 1
      exact Nat.div_add_mod v 128
    have hpart : v % 128 * 2 ^ shift < 2 ^ 64 := by omega
    have hnext : r + v % 128 * 2 ^ shift < 2 ^ (shift + 7) := by
      have hdigit : v % 128 * 2 ^ shift ≤ 127 * 2 ^ shift := Nat.mul_le_mul_right _ (by omega)
      rw [Nat.pow_add]
      omega
    obtain _ | fuel := fuel
    · omega
    have hfuel' : v / 128 < 128 ^ (fuel + 1) := by
      exact Nat.div_lt_of_lt_mul (by omega)
    have hrest := ih hnext hfuel' (by omega)
    rw [lebWrite, if_neg hmore, List.cons_append, lebLoop, hbyte]
    simp only [hlow, Nat.mod_eq_of_lt hpart, or_shifted hr]
    rw [if_neg (by omega), hrest, Nat.add_assoc, hsplit]

theorem lebRead_lebWrite {v : Nat} (hv : v < 2 ^ 32) (rest : List UInt8) :
    lebRead (lebWrite v ++ rest) = some (v, rest) := by
  have hread := @lebLoop_lebWrite v 0 0 9 (by decide) (hv.trans (by decide)) (by omega) rest
  simpa [lebRead] using hread

theorem length_lebWrite {v : Nat} (hv : v < 2 ^ 32) :
    0 < (lebWrite v).length ∧ (lebWrite v).length ≤ 5 := by
  have hbound : ∀ k v, v < 128 ^ (k + 1) → 0 < (lebWrite v).length ∧ (lebWrite v).length ≤ k + 1 := by
    intro k
    induction k with
    | zero =>
      intro v hv
      rw [lebWrite, if_pos (by omega)]
      exact ⟨Nat.one_pos, le_rfl⟩
    | succ k ih =>
      intro v hv
      rw [lebWrite]
      split
      · exact ⟨Nat.one_pos, by simp⟩
      · grind
  exact hbound 4 v (hv.trans (by decide))

/-! ## The trailer of a frame -/

/-- AES-GCM undoes itself with the tag cut to the length in a trailer, and opens what is sealed to
nothing else. -/
structure FrameLaws (cr : Crypto) (check : GcmCheck) : Prop where
  length : ∀ key iv aad plain, (cr.gcm key iv aad plain).1.length = plain.length
  tag : ∀ key iv aad plain, tagBytes ≤ (cr.gcm key iv aad plain).2.length
  undo : ∀ key iv aad plain, check key iv aad (cr.gcm key iv aad plain).1
    ((cr.gcm key iv aad plain).2.take tagBytes) = some plain
  only : ∀ key key' iv aad plain pt, check key' iv aad (cr.gcm key iv aad plain).1
    ((cr.gcm key iv aad plain).2.take tagBytes) = some pt → pt = plain

/-- The ranges of a frame with some clear bytes in front. -/
def clearRanges (clear : Nat) : List Range := if clear = 0 then [] else [⟨0, clear⟩]

/-- What the trailer says besides the tag. -/
def trailerText (nonce clear : Nat) : List UInt8 :=
  lebWrite nonce ++ if clear = 0 then [] else lebWrite 0 ++ lebWrite clear

/-- A frame with its trailer. -/
def wrapped (body tag : List UInt8) (nonce clear : Nat) : List UInt8 :=
  body ++ tag ++ trailerText nonce clear ++
    [UInt8.ofNat ((trailerText nonce clear).length + tagBytes + 1 + 2), marker, marker]

theorem length_trailerText {nonce clear : Nat} (hnonce : nonce < 2 ^ 32) (hclear : clear < 2 ^ 32) :
    0 < (trailerText nonce clear).length ∧ (trailerText nonce clear).length ≤ 15 := by
  have h1 := length_lebWrite hnonce
  have h2 := @length_lebWrite 0 (by decide)
  have h3 := length_lebWrite hclear
  unfold trailerText
  split <;> simp only [List.length_append, List.length_nil] <;> omega

section

variable {body tag : List UInt8} {nonce clear : Nat}

theorem trailerLength_wrapped (htag : tag.length = tagBytes) (hnonce : nonce < 2 ^ 32)
    (hclear : clear < 2 ^ 32) :
    trailerLength (wrapped body tag nonce clear) =
      some ((trailerText nonce clear).length + tagBytes + 3) := by
  obtain ⟨hpos, hle⟩ := length_trailerText hnonce hclear
  obtain ⟨n, hn⟩ : ∃ n, (body ++ tag ++ trailerText nonce clear).length = n := ⟨_, rfl⟩
  obtain ⟨text, htext⟩ : ∃ text, trailerText nonce clear = text := ⟨_, rfl⟩
  rw [htext] at hpos hle hn
  have hlen : (wrapped body tag nonce clear).length = n + 3 := by
    rw [wrapped, htext, List.length_append, hn]
    rfl
  have hlast : ∀ k, k < 3 → (wrapped body tag nonce clear).getD (n + k) 0 =
      [UInt8.ofNat (text.length + tagBytes + 1 + 2), marker, marker].getD k 0 := by
    intro k hk
    rw [wrapped, htext, List.getD_eq_getElem?_getD, List.getElem?_append_right (by omega), hn,
      Nat.add_sub_cancel_left, List.getD_eq_getElem?_getD]
  have hbody : tagBytes + text.length ≤ n := by
    rw [← hn, List.length_append, List.length_append, htag]
    omega
  have htagBytes : tagBytes = 8 := rfl
  have hsize : (UInt8.ofNat (text.length + tagBytes + 1 + 2)).toNat = text.length + tagBytes + 3 := by
    rw [UInt8.toNat_ofNat']
    omega
  rw [trailerLength, hlen]
  simp only [show n + 3 - 1 = n + 2 by omega, show n + 3 - 2 = n + 1 by omega,
    show n + 3 - 3 = n + 0 by omega, hlast 0 (by decide), hlast 1 (by decide), hlast 2 (by decide)]
  simp only [List.getD_cons_zero, List.getD_cons_succ, hsize, htext]
  rw [if_pos ⟨by omega, trivial, trivial⟩, if_pos ⟨by omega, by omega⟩]

theorem rangesLoop_clear (hclear : clear ≤ body.length) (hbody : body.length < 2 ^ 32) :
    rangesLoop body.length 16 0 (if clear = 0 then [] else lebWrite 0 ++ lebWrite clear) =
      some (clearRanges clear) := by
  by_cases hzero : clear = 0
  · rw [if_pos hzero, clearRanges, if_pos hzero, rangesLoop]
  · rw [if_neg hzero, clearRanges, if_neg hzero]
    have h0 : lebWrite 0 = [0] := by
      rw [lebWrite]
      rfl
    have hfirst : lebRead (0 :: lebWrite clear) = some (0, lebWrite clear) := by
      have := @lebRead_lebWrite 0 (by decide) (lebWrite clear)
      rwa [h0] at this
    have hsecond : lebRead (lebWrite clear) = some (clear, []) := by
      have := lebRead_lebWrite (show clear < 2 ^ 32 by omega) []
      rwa [List.append_nil] at this
    have hsum : (0 + clear) % 2 ^ 64 = clear := by omega
    rw [h0, List.singleton_append, rangesLoop]
    simp only [hfirst, hsecond, Option.bind_eq_bind, Option.bind_some, hsum]
    rw [if_neg (by omega), rangesLoop]
    rfl

/-- **The trailer** is read back. -/
theorem readTrailer_wrapped (htag : tag.length = tagBytes) (hnonce : nonce < 2 ^ 32)
    (hclear : clear ≤ body.length) (hbody : body.length < 2 ^ 32) :
    readTrailer (wrapped body tag nonce clear) ((trailerText nonce clear).length + tagBytes + 3) =
      some ⟨body.length, tag, nonce, clearRanges clear⟩ := by
  obtain ⟨tail, htail⟩ : ∃ tail, [UInt8.ofNat ((trailerText nonce clear).length + tagBytes + 1 + 2),
      marker, marker] = tail := ⟨_, rfl⟩
  have htailLen : tail.length = 3 := by rw [← htail]; rfl
  have hbytes : wrapped body tag nonce clear = body ++ (tag ++ (trailerText nonce clear ++ tail)) := by
    rw [wrapped, htail]
    simp only [List.append_assoc]
  have hlen : (wrapped body tag nonce clear).length =
      body.length + tagBytes + (trailerText nonce clear).length + 3 := by
    rw [hbytes]
    simp only [List.length_append, htag, htailLen]
    omega
  have hstart : (wrapped body tag nonce clear).length -
      ((trailerText nonce clear).length + tagBytes + 3) = body.length := by omega
  have hcut : (wrapped body tag nonce clear).length - 3 =
      (body ++ tag ++ trailerText nonce clear).length := by
    rw [hlen, List.length_append, List.length_append, htag]
    omega
  have htext : ((wrapped body tag nonce clear).take ((wrapped body tag nonce clear).length - 3)).drop
      (body.length + tagBytes) = trailerText nonce clear := by
    rw [hcut, wrapped, htail, List.take_left, List.drop_left' (by rw [List.length_append, htag])]
  have htagRead : ((wrapped body tag nonce clear).drop body.length).take tagBytes = tag := by
    rw [hbytes, List.drop_left, List.take_left' htag]
  rw [readTrailer]
  simp only [hstart, htext, htagRead]
  rw [trailerText, lebRead_lebWrite hnonce]
  simp only [Option.bind_eq_bind, Option.bind_some]
  rw [if_neg (by omega), rangesLoop_clear hclear hbody]
  rfl

theorem splitLoop_clear {front data : List UInt8} (hclear : clear = front.length) :
    splitLoop (front ++ data) (clearRanges clear) 0 = some (data, front) := by
  have hwhole : copy (front ++ data) front.length ((front ++ data).length - front.length) =
      some data := by
    rw [copy, if_pos (by rw [List.length_append]; omega), List.drop_left, List.length_append,
      Nat.add_sub_cancel_left, List.take_length]
  by_cases hzero : clear = 0
  · have hfront : front = [] := List.eq_nil_of_length_eq_zero (by omega)
    subst hfront
    rw [clearRanges, if_pos hzero, splitLoop]
    rw [List.length_nil] at hwhole
    rw [hwhole]
    rfl
  · have hnone : copy (front ++ data) 0 (0 - 0) = some [] := by
      rfl
    have hfirst : copy (front ++ data) 0 clear = some front := by
      rw [copy, if_pos (by rw [List.length_append]; omega), List.drop_zero, hclear, List.take_left]
    rw [clearRanges, if_neg hzero, splitLoop, hnone, hfirst, splitLoop, Nat.zero_add, hclear, hwhole]
    simp

theorem joinLoop_clear {front plain : List UInt8} (hclear : clear = front.length) {n : Nat}
    (hn : n = front.length + plain.length) :
    joinLoop n (clearRanges clear) 0 plain front = front ++ plain := by
  by_cases hzero : clear = 0
  · have hfront : front = [] := List.eq_nil_of_length_eq_zero (by omega)
    subst hfront
    rw [clearRanges, if_pos hzero, joinLoop, List.take_of_length_le (by simp [hn])]
    rfl
  · rw [clearRanges, if_neg hzero, joinLoop, joinLoop]
    simp [hclear, hn]

end

/-! ## Keys that are kept -/

variable {cr : Crypto} {check : GcmCheck}

/-- Every key that a session keeps is the one of its generation. -/
structure Dave.Cached (cr : Crypto) (d : Dave) : Prop where
  send : d.send.Cached cr
  next : d.sendNext.Cached cr
  recv : ∀ r ∈ d.recv, r.cur.Cached cr ∧ r.old.Cached cr

theorem daveNew_cached (self : Nat) : (daveNew self).Cached cr :=
  ⟨ratchetZero_cached, ratchetZero_cached, fun _ hr => absurd hr List.not_mem_nil⟩

theorem Receiver.leave_cached {r : Receiver} (h : r.cur.Cached cr ∧ r.old.Cached cr) (now : Nat)
    (roster : List Nat) : (r.leave now roster).cur.Cached cr ∧ (r.leave now roster).old.Cached cr := by
  rw [Receiver.leave]
  split
  · exact ⟨ratchetZero_cached, h.1⟩
  · exact h

theorem Receiver.enter_cached {r : Receiver} (h : r.cur.Cached cr ∧ r.old.Cached cr) (now : Nat)
    (base : List UInt8) : (r.enter now base).cur.Cached cr ∧ (r.enter now base).old.Cached cr := by
  rw [Receiver.enter]
  split
  · exact ⟨ratchetInit_cached base, h.1⟩
  · exact ⟨ratchetInit_cached base, h.2⟩

theorem changeReceiver_cached {recv : List Receiver}
    (h : ∀ r ∈ recv, r.cur.Cached cr ∧ r.old.Cached cr) (now user : Nat) (base : List UInt8) :
    ∀ r ∈ changeReceiver recv user (Receiver.enter now base), r.cur.Cached cr ∧ r.old.Cached cr := by
  intro r hr
  rw [changeReceiver] at hr
  split at hr
  · obtain ⟨i, hi, rfl⟩ := List.getElem_of_mem hr
    rw [List.length_modify] at hi
    rw [List.getElem_modify]
    split
    · exact Receiver.enter_cached (h _ (List.getElem_mem hi)) now base
    · exact h _ (List.getElem_mem hi)
  · split at hr
    · exact h r hr
    · rcases List.mem_append.mp hr with hr | hr
      · exact h r hr
      · rw [List.mem_singleton.mp hr]
        exact Receiver.enter_cached ⟨ratchetZero_cached, ratchetZero_cached⟩ now base

theorem installEpoch_cached {d : Dave} (h : d.Cached cr) (epoch : Epoch) :
    (installEpoch d epoch).Cached cr := by
  have hmember : ∀ (d : Dave) (user : Nat), d.Cached cr → (installMember epoch d user).Cached cr := by
    intro d user hd
    rw [installMember]
    split
    · exact hd
    · split
      · exact ⟨hd.send, ratchetInit_cached _, hd.recv⟩
      · exact ⟨hd.send, hd.next, changeReceiver_cached hd.recv _ user _⟩
  have hfold : ∀ (users : List Nat) (d : Dave), d.Cached cr →
      (users.foldl (installMember epoch) d).Cached cr := by
    intro users
    induction users with
    | nil => exact fun d hd => hd
    | cons user users ih => exact fun d hd => ih _ (hmember d user hd)
  apply hfold
  refine ⟨h.send, h.next, ?_⟩
  intro r hr
  obtain ⟨r, hmem, rfl⟩ := List.mem_map.mp hr
  exact Receiver.leave_cached (h.recv r hmem) _ _

theorem execute_cached {d : Dave} (h : d.Cached cr) (id : Nat) : (execute d id).Cached cr := by
  obtain ⟨hrecv, -, -⟩ := execute_door d id
  rcases execute_cases d id with hsame | ⟨hsend, hnext, -⟩ | ⟨i, p, -, -, -, -, hsend, hnext, -⟩
  · exact ⟨hsame.send ▸ h.send, hsame.next ▸ h.next, hrecv ▸ h.recv⟩
  · exact ⟨hsend ▸ ratchetZero_cached, hnext ▸ h.next, hrecv ▸ h.recv⟩
  · exact ⟨hsend ▸ h.next, hnext ▸ h.next, hrecv ▸ h.recv⟩

theorem ratchetKey_cached {r r' : Ratchet} {key : List UInt8} {gen : Nat} (h : r.Cached cr)
    (hkey : ratchetKey cr r gen = some (r', key)) : r'.Cached cr := by
  rw [ratchetKey] at hkey
  split at hkey
  · cases hkey
  · split at hkey
    · split at hkey
      · cases hkey
      · obtain ⟨rfl, -⟩ := Prod.mk.inj (Option.some.inj hkey)
        exact fun _ => rfl
    · obtain ⟨rfl, -⟩ := Prod.mk.inj (Option.some.inj hkey)
      exact h

theorem encryptFrame_cached {d : Dave} (h : d.Cached cr) (frame : List UInt8) (clear : Nat) :
    (encryptFrame cr d frame clear).1.Cached cr := by
  rw [encryptFrame]
  dsimp only
  split
  · exact h
  · split
    · exact ⟨h.send, h.next, h.recv⟩
    · next hkey => exact ⟨ratchetKey_cached h.send hkey, h.next, h.recv⟩

theorem openWith_cached {rt : Ratchet} (h : rt.Cached cr) (t : Trailer) (ct aad : List UInt8) :
    (openWith cr check rt t ct aad).1.Cached cr := by
  rw [openWith]
  split
  · exact h
  · next hkey => exact ratchetKey_cached h hkey

theorem openFor_cached {r : Receiver} (h : r.cur.Cached cr ∧ r.old.Cached cr) (t : Trailer)
    (ct aad : List UInt8) : (openFor cr check r t ct aad).1.cur.Cached cr ∧
      (openFor cr check r t ct aad).1.old.Cached cr := by
  have hcur := @openWith_cached cr check r.cur h.1 t ct aad
  have hold := @openWith_cached cr check r.old h.2 t ct aad
  rw [openFor]
  split
  · next hopen =>
    rw [hopen] at hcur
    exact ⟨hcur, h.2⟩
  · next hopen =>
    rw [hopen] at hcur
    exact ⟨hcur, hold⟩

theorem daveDecrypt_cached {d d' : Dave} (h : d.Cached cr) {sender : Nat} {frame : List UInt8}
    {out : Option (List UInt8)} (hdecrypt : daveDecrypt cr check d sender frame = some (d', out)) :
    d'.Cached cr := by
  have hsplit : ∀ t ct aad, (openSplit cr check d sender t ct aad).1.Cached cr := by
    intro t ct aad
    rw [openSplit]
    split
    · exact h
    · split
      · exact h
      · next r hr =>
        have hopened := @openFor_cached cr check r (h.recv r (List.mem_of_getElem? hr)) t ct aad
        refine ⟨h.send, h.next, ?_⟩
        intro x hx
        rcases List.mem_or_eq_of_mem_set hx with hx | rfl
        · exact h.recv x hx
        · rcases hopen : openFor cr check r t ct aad with ⟨r', _ | pt⟩
          · rw [hopen] at hopened
            exact hopened
          · rw [hopen] at hopened
            exact hopened
  rw [daveDecrypt] at hdecrypt
  split at hdecrypt
  · obtain ⟨rfl, -⟩ := Prod.mk.inj (Option.some.inj hdecrypt)
    exact h
  · split at hdecrypt
    · obtain ⟨rfl, -⟩ := Prod.mk.inj (Option.some.inj hdecrypt)
      exact h
    · next t _ =>
      obtain ⟨⟨ct, aad⟩, -, heq⟩ := Option.map_eq_some_iff.mp hdecrypt
      have hd' := hsplit t ct aad
      dsimp only at heq
      rwa [heq] at hd'

/-- **One call** keeps the keys right. -/
theorem callStep_cached {st : Session} (h : st.dave.Cached cr) (c : Call) :
    (callStep cr check st c).1.dave.Cached cr :=
  Survives.call
    { now := h
      head := fun _ _ _ _ hd _ => ⟨hd.send, hd.next, hd.recv⟩
      execute := fun _ id hd => execute_cached hd id
      decrypt := fun _ _ _ _ _ hdecrypt => daveDecrypt_cached h hdecrypt
      epoch := fun _ _ _ epoch _ _ _ => installEpoch_cached h epoch
      tick := by
        intro now _
        refine ⟨h.send, h.next, ?_⟩
        intro r hr
        obtain ⟨r, hmem, rfl⟩ := List.mem_map.mp hr
        have hcached := h.recv r hmem
        split
        · exact ⟨hcached.1, ratchetZero_cached⟩
        · exact hcached
      encrypt := encryptFrame_cached h }

theorem reachable_cached {st : Session} (h : (calls cr check).Reachable (fun _ _ => True) st) :
    st.dave.Cached cr := by
  refine @Machine.Reachable.invariant _ _ _ _ _ (fun st => st.dave.Cached cr) ?_ ?_ st h
  · rintro st ⟨-, -, -, self, hself⟩
    rw [hself]
    exact daveNew_cached self
  · intro st c hst _
    exact callStep_cached hst c

/-! ## There and back -/

/-- **A sealed frame**: its clear bytes, the sealed ones and the trailer. -/
theorem encryptFrame_wrapped {d : Dave} (hset : d.send.set = true) (hcached : d.send.Cached cr)
    (frame : List UInt8) (clear : Nat) :
    ∃ d' s, encryptFrame cr d frame clear = (d', some (s,
      wrapped (frame.take (min clear frame.length) ++
          (cr.gcm (keyOf cr d.send.base ((d.nonce + 1) % 2 ^ 32 / 2 ^ 24))
            (makeIv ((d.nonce + 1) % 2 ^ 32)) (frame.take (min clear frame.length))
            (frame.drop (min clear frame.length))).1)
        ((cr.gcm (keyOf cr d.send.base ((d.nonce + 1) % 2 ^ 32 / 2 ^ 24))
            (makeIv ((d.nonce + 1) % 2 ^ 32)) (frame.take (min clear frame.length))
            (frame.drop (min clear frame.length))).2.take tagBytes)
        ((d.nonce + 1) % 2 ^ 32) (min clear frame.length))) := by
  have hgen : (d.nonce + 1) % 2 ^ 32 / 2 ^ 24 ≤ 4096 := by omega
  obtain ⟨send, hkey, -, -, -⟩ := ratchetKey_spec hset hcached hgen
  rw [encryptFrame, if_neg (by simp [hset])]
  simp only [hkey]
  exact ⟨_, _, rfl⟩

/-- An attempt with a ratchet that is set checks the key of the generation. -/
theorem openWith_set {rt : Ratchet} (hset : rt.set = true) (hcached : rt.Cached cr) {t : Trailer}
    (ht : t.nonce < 2 ^ 32) (ct aad : List UInt8) :
    (openWith cr check rt t ct aad).2 =
      check (keyOf cr rt.base (t.nonce / 2 ^ 24)) (makeIv t.nonce) aad ct t.tag := by
  obtain ⟨rt', hkey, -⟩ := ratchetKey_spec hset hcached (show t.nonce / 2 ^ 24 ≤ 4096 by omega)
  rw [openWith, hkey]

theorem openWith_unset {rt : Ratchet} (hset : rt.set = false) (t : Trailer) (ct aad : List UInt8) :
    openWith cr check rt t ct aad = (rt, none) := by
  rw [openWith, ratchetKey, if_pos (by simp [hset])]

/-- **A receiver** with the base of the sender opens what it sealed. -/
theorem openFor_sealed (laws : FrameLaws cr check) {r : Receiver}
    (hr : r.cur.Cached cr ∧ r.old.Cached cr) {base : List UInt8}
    (hbase : r.cur.set = true ∧ r.cur.base = base ∨ r.old.set = true ∧ r.old.base = base)
    {nonce : Nat} (hnonce : nonce < 2 ^ 32) (aad plain : List UInt8) (body : Nat)
    (ranges : List Range) :
    ∃ r', openFor cr check r ⟨body, (cr.gcm (keyOf cr base (nonce / 2 ^ 24)) (makeIv nonce) aad
        plain).2.take tagBytes, nonce, ranges⟩
        (cr.gcm (keyOf cr base (nonce / 2 ^ 24)) (makeIv nonce) aad plain).1 aad =
          (r', some plain) ∧ r'.seen = r.seen ∧ r'.lastNonce = r.lastNonce := by
  obtain ⟨t, ht⟩ : ∃ t : Trailer, t = ⟨body, (cr.gcm (keyOf cr base (nonce / 2 ^ 24))
      (makeIv nonce) aad plain).2.take tagBytes, nonce, ranges⟩ := ⟨_, rfl⟩
  have htNonce : t.nonce < 2 ^ 32 := by rw [ht]; exact hnonce
  obtain ⟨ct, hct⟩ : ∃ ct, (cr.gcm (keyOf cr base (nonce / 2 ^ 24)) (makeIv nonce) aad plain).1 = ct :=
    ⟨_, rfl⟩
  have hundo : check (keyOf cr base (t.nonce / 2 ^ 24)) (makeIv t.nonce) aad ct t.tag = some plain := by
    rw [ht, ← hct]
    exact laws.undo _ _ _ _
  have honly : ∀ (rt : Ratchet) pt, rt.Cached cr → (openWith cr check rt t ct aad).2 = some pt →
      pt = plain := by
    intro rt pt hcached hopen
    cases hset : rt.set with
    | false =>
      rw [openWith_unset hset] at hopen
      cases hopen
    | true =>
      rw [openWith_set hset hcached htNonce, ht, ← hct] at hopen
      exact laws.only _ _ _ _ _ _ hopen
  rw [hct, ← ht, openFor]
  rcases hcur : openWith cr check r.cur t ct aad with ⟨cur, _ | pt⟩
  · -- the current ratchet is not the one of the sender
    have hold : r.old.set = true ∧ r.old.base = base := by
      rcases hbase with ⟨hset, rfl⟩ | hold
      · have hopen := @openWith_set cr check r.cur hset hr.1 t htNonce ct aad
        rw [hcur, hundo] at hopen
        cases hopen
      · exact hold
    have hopen := @openWith_set cr check r.old hold.1 hr.2 t htNonce ct aad
    rw [hold.2, hundo] at hopen
    exact ⟨_, Prod.ext rfl hopen, rfl, rfl⟩
  · grind

/-- **A frame that was sealed** is opened by a receiver with the base of the sender. -/
theorem daveDecrypt_wrapped (laws : FrameLaws cr check) {e : Dave} (he : e.Cached cr) {sender : Nat}
    {r : Receiver} (hr : e.recv.find? (fun r => r.user == sender) = some r) {base : List UInt8}
    (hbase : r.cur.set = true ∧ r.cur.base = base ∨ r.old.set = true ∧ r.old.base = base)
    {nonce : Nat} (hnonce : nonce < 2 ^ 32) (hfresh : r.seen = true → nonce ≠ r.lastNonce)
    {frame : List UInt8} (hframe : frame.length < 2 ^ 32) {clear : Nat}
    (hclear : clear ≤ frame.length) :
    ∃ e', daveDecrypt cr check e sender (wrapped (frame.take clear ++
          (cr.gcm (keyOf cr base (nonce / 2 ^ 24)) (makeIv nonce) (frame.take clear)
            (frame.drop clear)).1)
        ((cr.gcm (keyOf cr base (nonce / 2 ^ 24)) (makeIv nonce) (frame.take clear)
            (frame.drop clear)).2.take tagBytes) nonce clear) = some (e', some frame) := by
  obtain ⟨r', hopen, hseen, hlast⟩ := openFor_sealed laws
    (he.recv r (List.mem_of_find?_eq_some hr)) hbase hnonce (frame.take clear) (frame.drop clear)
    frame.length (clearRanges clear)
  obtain ⟨⟨data, tag⟩, hgcm⟩ : ∃ p, cr.gcm (keyOf cr base (nonce / 2 ^ 24)) (makeIv nonce)
      (frame.take clear) (frame.drop clear) = p := ⟨_, rfl⟩
  have hdata := laws.length (keyOf cr base (nonce / 2 ^ 24)) (makeIv nonce) (frame.take clear)
    (frame.drop clear)
  have htag := laws.tag (keyOf cr base (nonce / 2 ^ 24)) (makeIv nonce) (frame.take clear)
    (frame.drop clear)
  rw [hgcm] at hdata htag hopen ⊢
  have hfront : (frame.take clear).length = clear := List.length_take_of_le hclear
  have hbody : (frame.take clear ++ data).length = frame.length := by
    rw [List.length_append, hfront, hdata, List.length_drop]
    omega
  have htagLen : (tag.take tagBytes).length = tagBytes := List.length_take_of_le htag
  have htrailer := @readTrailer_wrapped (frame.take clear ++ data) (tag.take tagBytes) nonce clear
    htagLen hnonce (by omega) (by omega)
  rw [hbody] at htrailer
  have hbytes : (wrapped (frame.take clear ++ data) (tag.take tagBytes) nonce clear).take
      frame.length = frame.take clear ++ data := by
    rw [wrapped, List.append_assoc, List.append_assoc, List.take_left' hbody]
  rw [daveDecrypt, trailerLength_wrapped htagLen hnonce (by omega)]
  dsimp only
  rw [htrailer]
  dsimp only
  rw [hbytes, splitLoop_clear hfront.symm]
  obtain ⟨i, hi, hget⟩ : ∃ i, e.recv.findIdx? (fun r => r.user == sender) = some i ∧
      e.recv[i]? = some r := by
    rw [List.find?_eq_some_iff_getElem] at hr
    obtain ⟨huser, i, hlt, rfl, hbefore⟩ := hr
    refine ⟨i, ?_, List.getElem?_eq_getElem hlt⟩
    rw [List.findIdx?_eq_some_iff_getElem]
    exact ⟨hlt, huser, fun j hj => by simpa using hbefore j hj⟩
  have hjoin := @joinLoop_clear clear (frame.take clear) (frame.drop clear) hfront.symm
    frame.length (by rw [hfront, List.length_drop]; omega)
  rw [List.take_append_drop] at hjoin
  have haccept : (r'.accept nonce (some (frame.drop clear))).2 = some (frame.drop clear) := by
    refine if_neg ?_
    rintro ⟨hs, heq⟩
    exact hfresh (hseen ▸ hs) (hlast ▸ heq)
  simp only [Option.map_some, openSplit, hi, hget, hopen, haccept, hjoin]
  exact ⟨_, rfl⟩

/-- **A frame comes back**: what a session seals with a base, whatever its counter is, a receiver
that has this base for the sender opens to the frame, unless the nonce is that of the frame it
opened last. -/
theorem frame_round_trip (laws : FrameLaws cr check) {st rt : Session}
    (hst : (calls cr check).Reachable (fun _ _ => True) st)
    (hrt : (calls cr check).Reachable (fun _ _ => True) rt) (counter : Nat)
    (hset : st.dave.send.set = true) {sender : Nat} {r : Receiver}
    (hr : rt.dave.recv.find? (fun r => r.user == sender) = some r)
    (hbase : r.cur.set = true ∧ r.cur.base = st.dave.send.base ∨
      r.old.set = true ∧ r.old.base = st.dave.send.base)
    (hfresh : r.seen = true → (counter + 1) % 2 ^ 32 ≠ r.lastNonce)
    {frame : List UInt8} (hframe : frame.length < 2 ^ 32) :
    (∀ clear, 0 < st.dave.version → ∃ d s bytes e,
      daveEncryptVideo cr { st.dave with nonce := counter } frame clear = (d, some s, some bytes) ∧
      daveDecrypt cr check rt.dave sender bytes = some (e, some frame)) ∧
    (0 < st.dave.version → isSilence frame = false → ∃ d s bytes e,
      daveEncrypt cr { st.dave with nonce := counter } frame = (d, some s, some bytes) ∧
      daveDecrypt cr check rt.dave sender bytes = some (e, some frame)) := by
  have hsender := reachable_cached hst
  have hreceiver := reachable_cached hrt
  have htrip : ∀ clear, ∃ d s bytes e,
      encryptFrame cr { st.dave with nonce := counter } frame clear = (d, some (s, bytes)) ∧
      daveDecrypt cr check rt.dave sender bytes = some (e, some frame) := by
    intro clear
    obtain ⟨d, s, hsealed⟩ := @encryptFrame_wrapped cr { st.dave with nonce := counter } hset
      hsender.send frame clear
    obtain ⟨e, hopened⟩ := @daveDecrypt_wrapped cr check laws rt.dave hreceiver sender r hr
      st.dave.send.base hbase ((counter + 1) % 2 ^ 32) (Nat.mod_lt _ (by decide)) hfresh frame hframe
      (min clear frame.length) (Nat.min_le_right _ _)
    exact ⟨d, s, _, e, hsealed, hopened⟩
  constructor
  · intro clear hversion
    obtain ⟨d, s, bytes, e, hsealed, hopened⟩ := htrip clear
    refine ⟨d, s, bytes, e, ?_, hopened⟩
    rw [daveEncryptVideo, if_neg (by dsimp only; omega), hsealed]
    rfl
  · intro hversion hsilence
    obtain ⟨d, s, bytes, e, hsealed, hopened⟩ := htrip 0
    refine ⟨d, s, bytes, e, ?_, hopened⟩
    rw [daveEncrypt, if_neg (by simp [hsilence]; omega), hsealed]
    rfl

/-- AES-GCM on the frame below; elsewhere a seal that changes nothing. -/
def frameCrypto : Crypto where
  expand := sample.expand
  gcm key iv aad data :=
    if key = sampleKey ∧ iv = makeIv 1 ∧ aad = [] ∧ data = [1] then
      ([156], [62, 181, 0, 180, 43, 175, 241, 223, 70, 187, 116, 16, 54, 12, 142, 99])
    else (data, List.replicate 16 0)

def frameCheck : GcmCheck := fun key iv aad ct tag =>
  if ct = [156] ∧ tag = [62, 181, 0, 180, 43, 175, 241, 223] then
    if key = sampleKey ∧ iv = makeIv 1 ∧ aad = [] then some [1] else none
  else if tag = List.replicate 8 0 then some ct else none

theorem frame_laws : FrameLaws frameCrypto frameCheck := by
  have hzero : (List.replicate 16 (0 : UInt8)).take tagBytes = List.replicate 8 0 := rfl
  have hne : ¬List.replicate 8 (0 : UInt8) = [62, 181, 0, 180, 43, 175, 241, 223] := by decide
  constructor
  · intro key iv aad plain
    simp only [frameCrypto]
    split
    · next h => rw [h.2.2.2]; rfl
    · rfl
  · intro key iv aad plain
    simp only [frameCrypto]
    split
    · simp [tagBytes]
    · simp [tagBytes]
  · intro key iv aad plain
    simp only [frameCrypto]
    split
    · next h =>
      obtain ⟨rfl, rfl, rfl, rfl⟩ := h
      rfl
    · rw [hzero, frameCheck, if_neg (fun h => hne h.2), if_pos rfl]
  · intro key key' iv aad plain pt hcheck
    simp only [frameCrypto] at hcheck
    split at hcheck
    · next h =>
      obtain ⟨rfl, rfl, rfl, rfl⟩ := h
      have hopen : frameCheck key' (makeIv 1) [] [156] [62, 181, 0, 180, 43, 175, 241, 223] =
          if key' = sampleKey ∧ makeIv 1 = makeIv 1 ∧ ([] : List UInt8) = [] then some [1] else none :=
        rfl
      change frameCheck key' (makeIv 1) [] [156] [62, 181, 0, 180, 43, 175, 241, 223] = some pt at hcheck
      rw [hopen] at hcheck
      split at hcheck
      · exact (Option.some.inj hcheck).symm
      · cases hcheck
    · rw [hzero, frameCheck, if_neg (fun h => hne h.2), if_pos rfl] at hcheck
      exact (Option.some.inj hcheck).symm

/-- A session of a call of two. -/
def inCall (self : Nat) : Session :=
  (callStep frameCrypto frameCheck ⟨daveNew self, [], 0, []⟩
    (.session (.binary 30 [0, 0] 1 ⟨[7, 8], fun _ => some sampleBase⟩))).1

theorem inCall_reachable (self : Nat) :
    (calls frameCrypto frameCheck).Reachable (fun _ _ => True) (inCall self) :=
  .step _ (.start ⟨rfl, rfl, rfl, self, rfl⟩) trivial

/-- The first frame of one of them. -/
theorem first_frame_back : ∃ r, (inCall 8).dave.recv.find? (fun r => r.user == 7) = some r ∧
    ((∀ clear, 0 < (inCall 7).dave.version → ∃ d s bytes e,
      daveEncryptVideo frameCrypto { (inCall 7).dave with nonce := 0 } [1] clear =
        (d, some s, some bytes) ∧
      daveDecrypt frameCrypto frameCheck (inCall 8).dave 7 bytes = some (e, some [1])) ∧
    (0 < (inCall 7).dave.version → isSilence [1] = false → ∃ d s bytes e,
      daveEncrypt frameCrypto { (inCall 7).dave with nonce := 0 } [1] = (d, some s, some bytes) ∧
      daveDecrypt frameCrypto frameCheck (inCall 8).dave 7 bytes = some (e, some [1]))) :=
  ⟨_, rfl, frame_round_trip frame_laws (inCall_reachable 7) (inCall_reachable 8) 0 rfl rfl
    (.inl ⟨rfl, rfl⟩) (fun h => absurd h (by decide)) (by decide)⟩

end Voice
