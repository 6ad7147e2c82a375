import StrawOS.Voice.FrameTrip

/-!
# Frames that come again

`dave_decrypt` remembers the nonce of the last frame that it opened for a sender, and
drops a frame with this nonce.  A frame that came earlier than the last one is opened
again, and so is every frame once a new epoch has come.

What it drops or cannot open leaves no trace but the keys that the ratchets keep, and
these are computed again when they are needed.
-/

namespace Voice

variable {cr : Crypto} {check : GcmCheck}

/-! ## Without the keys that are kept -/

/-- A ratchet without the key that it keeps. -/
def Ratchet.bare (r : Ratchet) : Ratchet := { r with gen := 0, key := [], haveKey := false }

def Receiver.bare (r : Receiver) : Receiver := { r with cur := r.cur.bare, old := r.old.bare }

def Dave.bare (d : Dave) : Dave := { d with recv := d.recv.map Receiver.bare }

def Session.bare (st : Session) : Session := { st with dave := st.dave.bare }

@[simp] theorem Receiver.bare_bare (r : Receiver) : r.bare.bare = r.bare := rfl

@[simp] theorem Dave.bare_bare (d : Dave) : d.bare.bare = d.bare := by
  rw [Dave.bare, Dave.bare]
  simp only [List.map_map]
  rfl

theorem Ratchet.bare_cached (r : Ratchet) : r.bare.Cached cr := fun h => nomatch h

/-! ### Epochs -/

theorem Receiver.leave_bare (now : Nat) (roster : List Nat) (r : Receiver) :
    (r.leave now roster).bare = (r.bare.leave now roster).bare := by
  by_cases hleft : r.user ∉ roster ∧ r.cur.set = true
  · have hbare : r.bare.user ∉ roster ∧ r.bare.cur.set = true := hleft
    rw [Receiver.leave, if_pos hleft, Receiver.leave, if_pos hbare]
    rfl
  · have hbare : ¬(r.bare.user ∉ roster ∧ r.bare.cur.set = true) := hleft
    rw [Receiver.leave, if_neg hleft, Receiver.leave, if_neg hbare]
    rfl

theorem Receiver.enter_bare (now : Nat) (base : List UInt8) (r : Receiver) :
    (r.enter now base).bare = (r.bare.enter now base).bare := by
  by_cases hother : r.cur.set = true ∧ r.cur.base ≠ base
  · have hbare : r.bare.cur.set = true ∧ r.bare.cur.base ≠ base := hother
    simp only [Receiver.enter, if_pos hother, if_pos hbare]
    rfl
  · have hbare : ¬(r.bare.cur.set = true ∧ r.bare.cur.base ≠ base) := hother
    simp only [Receiver.enter, if_neg hother, if_neg hbare]
    rfl

theorem changeReceiver_bare {f : Receiver → Receiver} (hf : ∀ r, (f r).bare = (f r.bare).bare)
    (recv : List Receiver) (user : Nat) :
    (changeReceiver recv user f).map Receiver.bare =
      (changeReceiver (recv.map Receiver.bare) user f).map Receiver.bare := by
  have hsearch : (recv.map Receiver.bare).findIdx? (fun r => r.user == user) =
      recv.findIdx? fun r => r.user == user := by
    rw [List.findIdx?_map]
    rfl
  rw [changeReceiver, changeReceiver, hsearch, List.length_map]
  cases recv.findIdx? fun r => r.user == user with
  | none =>
    dsimp only
    split
    · simp only [List.map_map]
      rfl
    · simp only [List.map_append, List.map_map]
      rfl
  | some i =>
    apply List.ext_getElem?
    intro j
    simp only [List.getElem?_map, List.getElem?_modify]
    cases recv[j]? with
    | none => rfl
    | some r =>
      by_cases hij : i = j
      · simp [hij, hf r]
      · simp [hij]

theorem installMember_bare (epoch : Epoch) (d : Dave) (user : Nat) :
    (installMember epoch d user).bare = (installMember epoch d.bare user).bare := by
  rw [installMember, installMember]
  cases epoch.base user with
  | none => exact d.bare_bare.symm
  | some base =>
    dsimp only
    by_cases hself : user = d.self
    · have hbare : user = d.bare.self := hself
      rw [if_pos hself, if_pos hbare, Dave.bare, Dave.bare, Dave.bare]
      simp only [List.map_map]
      rfl
    · have hbare : ¬user = d.bare.self := hself
      rw [if_neg hself, if_neg hbare, Dave.bare, Dave.bare, Dave.bare]
      rw [changeReceiver_bare (Receiver.enter_bare d.now base)]

theorem foldl_installMember_bare (epoch : Epoch) (users : List Nat) {d d' : Dave}
    (h : d.bare = d'.bare) :
    (users.foldl (installMember epoch) d).bare = (users.foldl (installMember epoch) d').bare := by
  induction users generalizing d d' with
  | nil => exact h
  | cons user users ih =>
    apply ih
    rw [installMember_bare, h, ← installMember_bare]

theorem installEpoch_bare (d : Dave) (epoch : Epoch) :
    (installEpoch d epoch).bare = (installEpoch d.bare epoch).bare := by
  apply foldl_installMember_bare
  rw [Dave.bare, Dave.bare, Dave.bare]
  simp only [List.map_map]
  congr 1
  apply List.map_congr_left
  intro r _
  exact r.leave_bare d.now (epoch.roster.take maxUsers)

/-! ### The other calls of a session -/

theorem execute_bare (d : Dave) (id : Nat) : (execute d id).bare = execute d.bare id := by
  rw [execute, execute]
  have hpending : d.bare.pending = d.pending := rfl
  rw [hpending]
  cases findPending d.pending id with
  | none => rfl
  | some found =>
    obtain ⟨i, p⟩ := found
    dsimp only
    by_cases hzero : p.version = 0
    · rw [if_pos hzero, if_pos hzero]
      rfl
    · rw [if_neg hzero, if_neg hzero, switchSender, switchSender]
      by_cases htake : d.sendNext.set = true ∧ (¬d.send.set = true ∨ d.send.base ≠ d.sendNext.base)
      · have hbare : d.bare.sendNext.set = true ∧
            (¬d.bare.send.set = true ∨ d.bare.send.base ≠ d.bare.sendNext.base) := htake
        rw [if_pos htake, if_pos hbare]
        rfl
      · have hbare : ¬(d.bare.sendNext.set = true ∧
            (¬d.bare.send.set = true ∨ d.bare.send.base ≠ d.bare.sendNext.base)) := htake
        rw [if_neg htake, if_neg hbare]
        rfl

theorem settle_bare (d : Dave) (id : Nat) : (settle d id).1.bare = (settle d.bare id).1 := by
  rw [settle, settle]
  split
  · exact execute_bare d 0
  · rfl

theorem daveTick_bare (d : Dave) (now : Nat) : (daveTick d now).bare = (daveTick d.bare now).bare := by
  rw [daveTick, daveTick, Dave.bare, Dave.bare, Dave.bare]
  simp only [List.map_map]
  congr 1
  apply List.map_congr_left
  intro r _
  by_cases hexpired : r.old.set = true ∧ r.oldUntil < now
  · have hbare : r.bare.old.set = true ∧ r.bare.oldUntil < now := hexpired
    simp only [Function.comp_apply, if_pos hexpired, if_pos hbare]
    rfl
  · have hbare : ¬(r.bare.old.set = true ∧ r.bare.oldUntil < now) := hexpired
    simp only [Function.comp_apply, if_neg hexpired, if_neg hbare]
    rfl

theorem encryptFrame_bare (d : Dave) (frame : List UInt8) (clear : Nat) :
    (encryptFrame cr d.bare frame clear).1 = (encryptFrame cr d frame clear).1.bare ∧
      (encryptFrame cr d.bare frame clear).2 = (encryptFrame cr d frame clear).2 := by
  have hsend : d.bare.send = d.send := rfl
  have hnonce : d.bare.nonce = d.nonce := rfl
  rw [encryptFrame, encryptFrame, hsend, hnonce]
  by_cases hset : ¬d.send.set = true
  · rw [if_pos hset, if_pos hset]
    exact ⟨rfl, rfl⟩
  · rw [if_neg hset, if_neg hset]
    dsimp only
    cases ratchetKey cr d.send ((d.nonce + 1) % 2 ^ 32 / 2 ^ 24) with
    | none => exact ⟨rfl, rfl⟩
    | some x => exact ⟨rfl, rfl⟩

/-! ### Frames -/

theorem openWith_bare {rt : Ratchet} (h : rt.Cached cr) {t : Trailer} (ht : t.nonce < 2 ^ 32)
    (ct aad : List UInt8) :
    (openWith cr check rt t ct aad).1.bare = rt.bare ∧
      (openWith cr check rt t ct aad).2 = (openWith cr check rt.bare t ct aad).2 := by
  cases hset : rt.set with
  | false =>
    have hbare : rt.bare.set = false := hset
    rw [openWith_unset hset, openWith_unset hbare]
    exact ⟨rfl, rfl⟩
  | true =>
    have hbare : rt.bare.set = true := hset
    rw [openWith_set hset h ht, openWith_set hbare rt.bare_cached ht]
    obtain ⟨rt', hkey, hset', hbase', -⟩ := ratchetKey_spec hset h
      (show t.nonce / 2 ^ 24 ≤ 4096 by omega)
    rw [openWith, hkey]
    refine ⟨?_, rfl⟩
    rw [Ratchet.bare, Ratchet.bare, hset', hset, hbase']

theorem openFor_bare {r : Receiver} (h : r.cur.Cached cr ∧ r.old.Cached cr) {t : Trailer}
    (ht : t.nonce < 2 ^ 32) (ct aad : List UInt8) :
    (openFor cr check r t ct aad).1.bare = r.bare ∧
      (openFor cr check r t ct aad).2 = (openFor cr check r.bare t ct aad).2 := by
  obtain ⟨hcur, hcurOut⟩ := @openWith_bare cr check r.cur h.1 t ht ct aad
  obtain ⟨hold, holdOut⟩ := @openWith_bare cr check r.old h.2 t ht ct aad
  have hbareCur : r.bare.cur = r.cur.bare := rfl
  have hbareOld : r.bare.old = r.old.bare := rfl
  rw [openFor, openFor, hbareCur, hbareOld]
  rcases hopen : openWith cr check r.cur t ct aad with ⟨cur, _ | pt⟩
  · rw [hopen] at hcur hcurOut
    rcases hopen' : openWith cr check r.cur.bare t ct aad with ⟨cur', pt'⟩
    rw [hopen'] at hcurOut
    subst hcurOut
    refine ⟨?_, holdOut⟩
    rw [Receiver.bare]
    rw [hcur, hold]
    rfl
  · rw [hopen] at hcur hcurOut
    rcases hopen' : openWith cr check r.cur.bare t ct aad with ⟨cur', pt'⟩
    rw [hopen'] at hcurOut
    subst hcurOut
    refine ⟨?_, rfl⟩
    rw [Receiver.bare]
    rw [hcur]
    rfl

theorem Receiver.accept_bare {r r' : Receiver} (h : r.bare = r'.bare) (nonce : Nat)
    (pt : Option (List UInt8)) :
    (r.accept nonce pt).1.bare = (r'.accept nonce pt).1.bare ∧
      (r.accept nonce pt).2 = (r'.accept nonce pt).2 ∧
      ((r.accept nonce pt).2 = none → (r.accept nonce pt).1.bare = r.bare) := by
  obtain ⟨user, cur, old, oldUntil, lastNonce, seen⟩ := r
  simp only [Receiver.bare, Receiver.mk.injEq] at h
  obtain ⟨rfl, hcur, hold, rfl, rfl, rfl⟩ := h
  cases pt with
  | none => simp [Receiver.accept, Receiver.bare, hcur, hold]
  | some pt =>
    simp only [Receiver.accept, Receiver.bare, hcur, hold, true_and]
    intro hdropped
    split at hdropped
    · next hagain => simp [hagain.1, hagain.2]
    · cases hdropped

/-- **What a frame gives** does not depend on the keys that are kept, and a frame that gives
nothing changes nothing else. -/
theorem openSplit_bare {d : Dave} (h : d.Cached cr) (sender : Nat) {t : Trailer}
    (ht : t.nonce < 2 ^ 32) (ct aad : List UInt8) :
    (openSplit cr check d sender t ct aad).1.bare = (openSplit cr check d.bare sender t ct aad).1.bare ∧
      (openSplit cr check d sender t ct aad).2 = (openSplit cr check d.bare sender t ct aad).2 ∧
      ((openSplit cr check d sender t ct aad).2 = none →
        (openSplit cr check d sender t ct aad).1.bare = d.bare) := by
  have hsearch : d.bare.recv.findIdx? (fun r => r.user == sender) =
      d.recv.findIdx? fun r => r.user == sender := by
    rw [Dave.bare, List.findIdx?_map]
    rfl
  rw [openSplit, openSplit, hsearch]
  cases d.recv.findIdx? fun r => r.user == sender with
  | none => exact ⟨d.bare_bare.symm, rfl, fun _ => rfl⟩
  | some i =>
    have hget : d.bare.recv[i]? = d.recv[i]?.map Receiver.bare := List.getElem?_map
    cases hr : d.recv[i]? with
    | none =>
      simp only [hr, hget, Option.map_none]
      exact ⟨d.bare_bare.symm, trivial, fun _ => trivial⟩
    | some r =>
      obtain ⟨hopen, hout⟩ := @openFor_bare cr check r (h.recv r (List.mem_of_getElem? hr)) t ht ct aad
      obtain ⟨hopen', -⟩ := @openFor_bare cr check r.bare ⟨r.cur.bare_cached, r.old.bare_cached⟩ t ht
        ct aad
      obtain ⟨haccept, hanswer, hdropped⟩ := Receiver.accept_bare (hopen.trans hopen'.symm) t.nonce
        (openFor cr check r t ct aad).2
      have hput : ∀ x : Receiver, Dave.bare { d with recv := d.recv.set i x } =
          { d.bare with recv := d.bare.recv.set i x.bare } := by
        intro x
        rw [Dave.bare, Dave.bare]
        rw [List.map_set]
      have hput' : ∀ x : Receiver, Dave.bare { d.bare with recv := d.bare.recv.set i x } =
          { d.bare with recv := d.bare.recv.set i x.bare } := by
        intro x
        rw [Dave.bare, Dave.bare]
        simp only [List.map_set, List.map_map]
        rfl
      simp only [hr, hget, Option.map_some]
      rw [hput, hput', hout.symm, haccept, hanswer]
      refine ⟨rfl, rfl, ?_⟩
      intro hnone
      have hgone := Option.map_eq_none_iff.mp hnone
      rw [← haccept, hdropped (hanswer.trans hgone), hopen]
      have hsame : d.bare.recv.set i r.bare = d.bare.recv := by
        apply List.ext_getElem?
        intro j
        rw [List.getElem?_set]
        split
        · grind
        · rfl
      rw [hsame]

theorem daveDecrypt_bare {d : Dave} (h : d.Cached cr) (sender : Nat) (frame : List UInt8) :
    (daveDecrypt cr check d sender frame).map (fun x => (x.1.bare, x.2)) =
        (daveDecrypt cr check d.bare sender frame).map (fun x => (x.1.bare, x.2)) ∧
      ∀ d', daveDecrypt cr check d sender frame = some (d', none) → d'.bare = d.bare := by
  rw [daveDecrypt, daveDecrypt]
  cases trailerLength frame with
  | none =>
    have hpasses : d.bare.passes frame = d.passes frame := rfl
    simp only [hpasses, Option.map_some, Dave.bare_bare]
    refine ⟨trivial, ?_⟩
    intro d' hd'
    rw [← (Prod.mk.inj (Option.some.inj hd')).1]
  | some supp =>
    cases ht : readTrailer frame supp with
    | none =>
      simp only [ht, Option.map_some, Dave.bare_bare]
      refine ⟨trivial, ?_⟩
      intro d' hd'
      rw [← (Prod.mk.inj (Option.some.inj hd')).1]
    | some t =>
      simp only [ht]
      cases splitLoop (frame.take t.body) t.ranges 0 with
      | none => exact ⟨rfl, fun d' hd' => by cases hd'⟩
      | some parts =>
        obtain ⟨hstate, hout, hdropped⟩ := @openSplit_bare cr check d h sender t (readTrailer_nonce ht)
          parts.1 parts.2
        simp only [Option.map_some, hstate, hout, true_and]
        intro d' hd'
        have heq := Option.some.inj hd'
        have hsame := hdropped (by rw [heq])
        rwa [heq] at hsame

theorem Session.bare_congr {d d' : Dave} (h : d.bare = d'.bare) (exported : List (List UInt8))
    (frames : Nat) (calls : List Sealed) :
    Session.bare ⟨d, exported, frames, calls⟩ = Session.bare ⟨d', exported, frames, calls⟩ := by
  rw [Session.bare, Session.bare, h]

theorem settle_congr {d d' : Dave} (h : d.bare = d'.bare) (id : Nat) :
    (settle d id).1.bare = (settle d' id).1.bare := by
  rw [settle_bare, settle_bare, h]

/-- **One call** answers without the keys that are kept as it does with them. -/
theorem callStep_bare {st : Session} (h : st.dave.Cached cr) (c : Call) :
    (callStep cr check st c).1.bare = (callStep cr check st.bare c).1.bare ∧
      (callStep cr check st c).2 = (callStep cr check st.bare c).2 := by
  cases c with
  | decrypt sender frame =>
    have hsame := (@daveDecrypt_bare cr check st.dave h sender frame).1
    have hbare : st.bare.dave = st.dave.bare := rfl
    rw [callStep, callStep, hbare]
    cases hopen : daveDecrypt cr check st.dave sender frame with
    | none =>
      rw [hopen] at hsame
      rw [Option.map_eq_none_iff.mp hsame.symm]
      exact ⟨by simp [Session.bare], rfl⟩
    | some x =>
      rw [hopen] at hsame
      obtain ⟨y, hopen', hy⟩ := Option.map_eq_some_iff.mp hsame.symm
      rw [hopen']
      obtain ⟨hstate, hout⟩ : y.1.bare = x.1.bare ∧ y.2 = x.2 := Prod.mk.inj hy
      simp only [Session.bare, hstate, hout, and_self]
  | session op =>
    refine ⟨?_, rfl⟩
    have hbare : st.bare.dave = st.dave.bare := rfl
    cases op with
    | selectProtocol version =>
      refine Session.bare_congr ?_ _ _ _
      simp only [daveSelectProtocol, hbare]
      generalize (if daveMaxProtocol < version then daveMaxProtocol else version) = v
      by_cases hzero : v = 0
      · simp only [if_pos hzero]
        exact (Dave.bare_bare { st.dave with version := v, passthroughUntil := uint64Max }).symm
      · simp only [if_neg hzero]
        exact (Dave.bare_bare { st.dave with version := v }).symm
    | prepareTransition id version =>
      refine Session.bare_congr (settle_congr ?_ id) _ _ _
      exact (Dave.bare_bare { st.dave with
        pending := addPending st.dave.pending id version
        passthroughUntil := if version = 0 then uint64Max else st.dave.passthroughUntil }).symm
    | executeTransition id =>
      refine Session.bare_congr ?_ _ _ _
      rw [execute_bare, execute_bare, hbare, Dave.bare_bare]
    | prepareEpoch epoch version =>
      refine Session.bare_congr ?_ _ _ _
      simp only [davePrepareEpoch, hbare]
      by_cases hfirst : epoch ≠ 1
      · simp only [if_pos hfirst]
        exact (Dave.bare_bare _).symm
      · simp only [if_neg hfirst]
        exact (Dave.bare_bare { st.dave with
          version := if daveMaxProtocol < version then daveMaxProtocol else version }).symm
    | binary op payload result epoch =>
      refine Session.bare_congr ?_ _ _ _
      rw [daveBinary_dave, daveBinary_dave, hbare]
      cases newEpoch op payload result with
      | none => exact (Dave.bare_bare _).symm
      | some id =>
        have hepoch := installEpoch_bare st.dave epoch
        obtain ⟨-, -, hpending, hversion, -⟩ := installEpoch_spec st.dave epoch
        obtain ⟨-, -, hpending', hversion', -⟩ := installEpoch_spec st.dave.bare epoch
        refine settle_congr ?_ id
        rw [hpending, hversion, hpending', hversion']
        exact congrArg (fun d : Dave => { d with
          version := st.dave.version
          pending := addPending st.dave.pending id
            (if 0 < st.dave.version then st.dave.version else daveMaxProtocol) }) hepoch
    | tick now => exact Session.bare_congr (daveTick_bare st.dave now) _ _ _
    | encrypt frame =>
      obtain ⟨hstate, hout⟩ := @encryptFrame_bare cr st.dave frame 0
      simp only [callStep, step, daveEncrypt, hbare]
      by_cases hplain : st.dave.version = 0 ∨ isSilence frame = true
      · have hplain' : st.dave.bare.version = 0 ∨ isSilence frame = true := hplain
        simp only [if_pos hplain, if_pos hplain']
        exact Session.bare_congr (Dave.bare_bare _).symm _ _ _
      · have hplain' : ¬(st.dave.bare.version = 0 ∨ isSilence frame = true) := hplain
        simp only [if_neg hplain, if_neg hplain', hstate, hout]
        exact Session.bare_congr (Dave.bare_bare _).symm _ _ _
    | encryptVideo frame clear =>
      obtain ⟨hstate, hout⟩ := @encryptFrame_bare cr st.dave frame clear
      simp only [callStep, step, daveEncryptVideo, hbare]
      by_cases hplain : st.dave.version = 0
      · have hplain' : st.dave.bare.version = 0 := hplain
        simp only [if_pos hplain, if_pos hplain']
        exact Session.bare_congr (Dave.bare_bare _).symm _ _ _
      · have hplain' : ¬st.dave.bare.version = 0 := hplain
        simp only [if_neg hplain, if_neg hplain', hstate, hout]
        exact Session.bare_congr (Dave.bare_bare _).symm _ _ _

/-! ## The mark of the last frame -/

/-- What is remembered of the last frame of a sender. -/
def Dave.mark (d : Dave) (sender : Nat) : Option (Bool × Nat) :=
  (d.recv.find? fun r => r.user == sender).map fun r => (r.seen, r.lastNonce)

/-- The nonce of a frame with a trailer. -/
def frameNonce (frame : List UInt8) : Option Nat :=
  (trailerLength frame).bind fun supp => (readTrailer frame supp).map (·.nonce)

/-- The call brings an epoch with the sender in it. -/
def Enters (sender : Nat) : Call → Prop
  | .session (.binary op payload result epoch) =>
    (newEpoch op payload result).isSome = true ∧ sender ∈ epoch.roster.take maxUsers
  | _ => False

/-- The call opens a frame of the sender with another nonce. -/
def OpensOther (cr : Crypto) (check : GcmCheck) (sender nonce : Nat) (st : Session) (c : Call) : Prop :=
  ∃ frame d out n, c = .decrypt sender frame ∧ frameNonce frame = some n ∧ n ≠ nonce ∧
    daveDecrypt cr check st.dave sender frame = some (d, some out)

theorem mark_map {d : Dave} {f : Receiver → Receiver} (hf : ∀ r, (f r).user = r.user ∧
    (f r).seen = r.seen ∧ (f r).lastNonce = r.lastNonce) (sender : Nat) :
    Dave.mark { d with recv := d.recv.map f } sender = d.mark sender := by
  rw [Dave.mark, Dave.mark, List.find?_map, Option.map_map]
  have hsearch : ((fun r : Receiver => r.user == sender) ∘ f) = fun r => r.user == sender := by
    funext r
    simp [(hf r).1]
  rw [hsearch]
  congr 1
  funext r
  simp [hf r]

theorem Receiver.of_bare {r r' : Receiver} (h : r.bare = r'.bare) :
    r.user = r'.user ∧ r.seen = r'.seen ∧ r.lastNonce = r'.lastNonce := by
  simp only [Receiver.bare, Receiver.mk.injEq] at h
  exact ⟨h.1, h.2.2.2.2.2, h.2.2.2.2.1⟩

theorem mark_recv {d d' : Dave} (h : d'.recv = d.recv) (sender : Nat) :
    d'.mark sender = d.mark sender := by
  rw [Dave.mark, Dave.mark, h]

theorem mark_bare (d : Dave) (sender : Nat) : d.bare.mark sender = d.mark sender :=
  @mark_map d Receiver.bare (fun _ => ⟨rfl, rfl, rfl⟩) sender

/-- **Another receiver** is changed. -/
theorem mark_modify {d : Dave} {i : Nat} {f : Receiver → Receiver} {sender : Nat}
    (hf : ∀ r, d.recv[i]? = some r → r.user ≠ sender ∧ (f r).user ≠ sender) :
    Dave.mark { d with recv := d.recv.modify i f } sender = d.mark sender := by
  rw [Dave.mark, Dave.mark]
  revert hf
  generalize d.recv = recv
  induction recv generalizing i with
  | nil => simp
  | cons r rest ih => grind

/-- The receiver of a sender is replaced. -/
theorem mark_set {d : Dave} {sender i : Nat} {r : Receiver}
    (hi : d.recv.findIdx? (fun r => r.user == sender) = some i) (hr : r.user = sender) :
    Dave.mark { d with recv := d.recv.set i r } sender = some (r.seen, r.lastNonce) := by
  rw [List.findIdx?_eq_some_iff_getElem] at hi
  obtain ⟨hlt, -, hbefore⟩ := hi
  have hfind : (d.recv.set i r).find? (fun r => r.user == sender) = some r := by
    rw [List.find?_eq_some_iff_getElem]
    refine ⟨by simp [hr], i, by simpa using hlt, by simp, ?_⟩
    intro j hj
    have hne : i ≠ j := by omega
    simpa [List.getElem_set, hne] using hbefore j hj
  rw [Dave.mark]
  rw [hfind, Option.map_some]

theorem changeReceiver_mark {d : Dave} {user sender : Nat} (hne : user ≠ sender)
    {f : Receiver → Receiver} (hf : ∀ r, (f r).user = r.user) :
    Dave.mark { d with recv := changeReceiver d.recv user f } sender = d.mark sender := by
  rw [changeReceiver]
  cases hi : d.recv.findIdx? fun r => r.user == user with
  | some i =>
    apply mark_modify
    intro r hr
    rw [List.findIdx?_eq_some_iff_getElem] at hi
    obtain ⟨hlt, huser, -⟩ := hi
    rw [List.getElem?_eq_getElem hlt] at hr
    obtain rfl := Option.some.inj hr
    have hthis : d.recv[i].user = user := by simpa using huser
    exact ⟨hthis ▸ hne, by rw [hf, hthis]; exact hne⟩
  | none =>
    dsimp only
    split
    · rfl
    · rw [Dave.mark, Dave.mark]
      have hnew : ((f ⟨user, Ratchet.zero, Ratchet.zero, 0, 0, false⟩).user == sender) = false := by
        rw [hf]
        simpa using hne
      simp [hnew]

theorem foldl_installMember_mark (epoch : Epoch) {users : List Nat} {sender : Nat}
    (hnot : sender ∉ users) (d : Dave) :
    (users.foldl (installMember epoch) d).mark sender = d.mark sender := by
  induction users generalizing d with
  | nil => rfl
  | cons user users ih =>
    obtain ⟨hne, hrest⟩ : sender ≠ user ∧ sender ∉ users := by simpa using hnot
    rw [List.foldl_cons, ih hrest, installMember]
    cases epoch.base user with
    | none => rfl
    | some base =>
      dsimp only
      split
      · rfl
      · apply changeReceiver_mark (Ne.symm hne)
        intro r
        rw [Receiver.enter]
        split <;> rfl

/-- **An epoch without the sender** keeps the mark. -/
theorem installEpoch_mark {d : Dave} {epoch : Epoch} {sender : Nat}
    (hnot : sender ∉ epoch.roster.take maxUsers) :
    (installEpoch d epoch).mark sender = d.mark sender := by
  rw [installEpoch, foldl_installMember_mark epoch hnot]
  apply mark_map
  intro r
  rw [Receiver.leave]
  split <;> exact ⟨rfl, rfl, rfl⟩

/-! ### Frames and the mark -/

/-- **A frame that is opened** has another nonce than the last one, and leaves its own. -/
theorem openSplit_mark {d : Dave} (h : d.Cached cr) {sender : Nat} {t : Trailer}
    (ht : t.nonce < 2 ^ 32) {ct aad pt : List UInt8}
    (hopen : (openSplit cr check d sender t ct aad).2 = some pt) :
    d.mark sender ≠ some (true, t.nonce) ∧
      (openSplit cr check d sender t ct aad).1.mark sender = some (true, t.nonce) := by
  rw [openSplit] at hopen ⊢
  cases hi : d.recv.findIdx? fun r => r.user == sender with
  | none =>
    rw [hi] at hopen
    cases hopen
  | some i =>
    obtain ⟨hlt, huser, -⟩ := List.findIdx?_eq_some_iff_getElem.mp hi
    have hr : d.recv[i]? = some d.recv[i] := List.getElem?_eq_getElem hlt
    obtain ⟨r, hrecv⟩ : ∃ r, d.recv[i] = r := ⟨_, rfl⟩
    rw [hrecv] at hr huser
    have huser : r.user = sender := by simpa using huser
    have hmark := @mark_set d sender i r hi huser
    rw [← hrecv, List.set_getElem_self, hrecv] at hmark
    obtain ⟨hbare, -⟩ := @openFor_bare cr check r (h.recv r (List.mem_of_getElem? hr)) t ht ct aad
    simp only [hi, hr] at hopen ⊢
    rcases hfor : openFor cr check r t ct aad with ⟨r₁, pt₁⟩
    rw [hfor] at hbare hopen
    obtain ⟨hsame, hseen, hlast⟩ := Receiver.of_bare hbare
    obtain ⟨pt', haccept, -⟩ := Option.map_eq_some_iff.mp hopen
    cases pt₁ with
    | none => cases haccept
    | some pt₁ =>
      simp only [Receiver.accept] at haccept ⊢
      split at haccept
      · cases haccept
      · next hfresh =>
        refine ⟨?_, mark_set hi (hsame.trans huser)⟩
        intro hagain
        rw [hmark, Option.some.injEq, Prod.mk.injEq] at hagain
        exact hfresh ⟨hseen.trans hagain.1, hagain.2.symm.trans hlast.symm⟩

/-- What is left of another sender. -/
theorem openSplit_mark_other {d : Dave} (h : d.Cached cr) {sender other : Nat} (hne : other ≠ sender)
    {t : Trailer} (ht : t.nonce < 2 ^ 32) (ct aad : List UInt8) :
    (openSplit cr check d other t ct aad).1.mark sender = d.mark sender := by
  rw [openSplit]
  cases hi : d.recv.findIdx? fun r => r.user == other with
  | none => rfl
  | some i =>
    obtain ⟨hlt, huser, -⟩ := List.findIdx?_eq_some_iff_getElem.mp hi
    have hr : d.recv[i]? = some d.recv[i] := List.getElem?_eq_getElem hlt
    have huser : d.recv[i].user = other := by simpa using huser
    obtain ⟨hbare, -⟩ := @openFor_bare cr check d.recv[i] (h.recv _ (List.getElem_mem hlt)) t ht ct aad
    have hsame : (openFor cr check d.recv[i] t ct aad).1.user = other :=
      (Receiver.of_bare hbare).1.trans huser
    have haccept : ∀ (r : Receiver) pt, (r.accept t.nonce pt).1.user = r.user := by
      intro r pt
      cases pt <;> rfl
    simp only [hr, List.set_eq_modify]
    apply mark_modify
    intro r hr'
    rw [hr] at hr'
    obtain rfl := Option.some.inj hr'
    rw [haccept, hsame, huser]
    exact ⟨hne, hne⟩

/-- **A frame of the sender** that is opened has a nonce of its own and leaves it, or has no
trailer and leaves everything. -/
theorem daveDecrypt_mark {d d' : Dave} (h : d.Cached cr) {sender : Nat} {frame : List UInt8}
    {out : Option (List UInt8)} (hopen : daveDecrypt cr check d sender frame = some (d', out)) :
    (out = none → d'.mark sender = d.mark sender) ∧
      ∀ pt, out = some pt → (frameNonce frame = none ∧ d' = d) ∨
        ∃ n, frameNonce frame = some n ∧ d.mark sender ≠ some (true, n) ∧
          d'.mark sender = some (true, n) := by
  constructor
  · intro hnone
    subst hnone
    rw [← mark_bare d', (@daveDecrypt_bare cr check d h sender frame).2 d' hopen, mark_bare]
  · intro pt hpt
    subst hpt
    rw [daveDecrypt] at hopen
    cases hsupp : trailerLength frame with
    | none =>
      rw [hsupp] at hopen
      refine Or.inl ⟨by rw [frameNonce, hsupp]; rfl, ?_⟩
      exact (Prod.mk.inj (Option.some.inj hopen)).1.symm
    | some supp =>
      cases ht : readTrailer frame supp with
      | none =>
        simp only [hsupp, ht] at hopen
        cases hopen
      | some t =>
        simp only [hsupp, ht] at hopen
        obtain ⟨⟨ct, aad⟩, -, hsplit⟩ := Option.map_eq_some_iff.mp hopen
        have hmark := @openSplit_mark cr check d h sender t (readTrailer_nonce ht) ct aad pt
          (congrArg Prod.snd hsplit)
        rw [congrArg Prod.fst hsplit] at hmark
        exact Or.inr ⟨t.nonce, by rw [frameNonce, hsupp, Option.bind_some, ht]; rfl, hmark⟩

theorem daveDecrypt_mark_other {d d' : Dave} (h : d.Cached cr) {sender other : Nat}
    (hne : other ≠ sender) {frame : List UInt8} {out : Option (List UInt8)}
    (hopen : daveDecrypt cr check d other frame = some (d', out)) : d'.mark sender = d.mark sender := by
  rw [daveDecrypt] at hopen
  cases hsupp : trailerLength frame with
  | none =>
    rw [hsupp] at hopen
    rw [(Prod.mk.inj (Option.some.inj hopen)).1]
  | some supp =>
    cases ht : readTrailer frame supp with
    | none =>
      simp only [hsupp, ht] at hopen
      rw [(Prod.mk.inj (Option.some.inj hopen)).1]
    | some t =>
      simp only [hsupp, ht] at hopen
      obtain ⟨⟨ct, aad⟩, -, hsplit⟩ := Option.map_eq_some_iff.mp hopen
      have hmark := @openSplit_mark_other cr check d h sender other hne t (readTrailer_nonce ht) ct aad
      rwa [congrArg Prod.fst hsplit] at hmark

/-- **One call** keeps the mark, unless it brings an epoch or opens another frame. -/
theorem callStep_mark {st : Session} (h : st.dave.Cached cr) {c : Call} {sender n : Nat}
    (hmark : st.dave.mark sender = some (true, n)) (henters : ¬Enters sender c)
    (hopens : ¬OpensOther cr check sender n st c) :
    (callStep cr check st c).1.dave.mark sender = some (true, n) := by
  rw [← hmark]
  exact Survives.call (P := fun d => d.mark sender = st.dave.mark sender)
    { now := rfl
      head := fun _ _ _ _ hd _ => hd
      execute := fun d id hd => (mark_recv (execute_door d id).1 sender).trans hd
      decrypt := by
        intro other frame d out heq hopen
        subst heq
        by_cases hne : other = sender
        · subst hne
          obtain ⟨hdropped, hopened⟩ := daveDecrypt_mark h hopen
          cases out with
          | none => exact hdropped rfl
          | some pt =>
            rcases hopened pt rfl with ⟨-, rfl⟩ | ⟨m, hm, hfresh, hleft⟩
            · rfl
            · have hsame : m = n := by
                by_contra hother
                exact hopens ⟨frame, d, pt, m, rfl, hm, hother, hopen⟩
              exact absurd hmark (hsame ▸ hfresh)
        · exact daveDecrypt_mark_other h hne hopen
      epoch := by
        intro op payload result epoch id heq hid
        subst heq
        exact installEpoch_mark fun hin => henters ⟨by rw [hid]; rfl, hin⟩
      tick := by
        intro now _
        apply mark_map
        intro r
        split <;> exact ⟨rfl, rfl, rfl⟩
      encrypt := fun frame clear => mark_recv (encryptFrame_door st.dave frame clear).2 sender }

/-! ## Runs -/

/-- Two sessions that differ in keys that are kept, at most. -/
def Alike (cr : Crypto) (st st' : Session) : Prop :=
  st.bare = st'.bare ∧ st.dave.Cached cr ∧ st'.dave.Cached cr

theorem alike_step (st st' : Session) (c : Call) (h : Alike cr st st') :
    ((calls cr check).step st c).2 = ((calls cr check).step st' c).2 ∧
      Alike cr ((calls cr check).step st c).1 ((calls cr check).step st' c).1 := by
  obtain ⟨hbare, hcached, hcached'⟩ := h
  obtain ⟨hstate, hout⟩ := @callStep_bare cr check st hcached c
  obtain ⟨hstate', hout'⟩ := @callStep_bare cr check st' hcached' c
  rw [← hbare] at hstate' hout'
  exact ⟨hout.trans hout'.symm, hstate.trans hstate'.symm, callStep_cached hcached c,
    callStep_cached hcached' c⟩

/-- **Frames that come again**: once a frame of a sender is opened, frames with its nonce are
dropped until a frame of the sender with another nonce is opened or an epoch with the sender
comes; and a frame that is not opened does not change what any later frame gives. -/
theorem replays_dropped {st : Session} (h : (calls cr check).Reachable (fun _ _ => True) st)
    (sender : Nat) (frame : List UInt8) :
    (∀ d out n, daveDecrypt cr check st.dave sender frame = some (d, some out) →
      frameNonce frame = some n → ∀ cs,
      (∀ pre c post, cs = pre ++ c :: post → ¬Enters sender c ∧
        ¬OpensOther cr check sender n ((calls cr check).run { st with dave := d } pre) c) →
      ∀ again e out', frameNonce again = some n →
        daveDecrypt cr check ((calls cr check).run { st with dave := d } cs).dave sender again =
          some (e, out') → out' = none) ∧
    ∀ d, daveDecrypt cr check st.dave sender frame = some (d, none) → ∀ cs,
      (calls cr check).outputs { st with dave := d } cs = (calls cr check).outputs st cs := by
  have hcached := reachable_cached h
  constructor
  · intro d out n hopen hn cs hcs again e out' hagain hopen'
    have hstart : d.Cached cr ∧ d.mark sender = some (true, n) := by
      refine ⟨daveDecrypt_cached hcached hopen, ?_⟩
      rcases (daveDecrypt_mark hcached hopen).2 out rfl with ⟨hnone, -⟩ | ⟨m, hm, -, hleft⟩
      · rw [hn] at hnone
        cases hnone
      · obtain rfl := Option.some.inj (hn.symm.trans hm)
        exact hleft
    obtain ⟨hlater, hmark⟩ := @Machine.run_invariant _ _ _ (calls cr check)
      (fun st c => ¬Enters sender c ∧ ¬OpensOther cr check sender n st c)
      (fun st => st.dave.Cached cr ∧ st.dave.mark sender = some (true, n))
      (fun st c hst hc => ⟨callStep_cached hst.1 c, callStep_mark hst.1 hst.2 hc.1 hc.2⟩)
      { st with dave := d } hstart cs hcs
    cases out' with
    | none => rfl
    | some pt =>
      rcases (daveDecrypt_mark hlater hopen').2 pt rfl with ⟨hnone, -⟩ | ⟨m, hm, hfresh, -⟩
      · rw [hagain] at hnone
        cases hnone
      · obtain rfl := Option.some.inj (hagain.symm.trans hm)
        exact absurd hmark hfresh
  · intro d hdropped cs
    refine @Machine.outputs_eq_of_related _ _ _ (calls cr check) (Alike cr) alike_step _ _ ?_ cs
    have hsame := (@daveDecrypt_bare cr check st.dave hcached sender frame).2 d hdropped
    exact ⟨Session.bare_congr hsame st.exported st.frames st.calls,
      daveDecrypt_cached hcached hdropped, hcached⟩

/-- A frame of one byte with a nonce below 128. -/
def shortFrame (nonce : UInt8) : List UInt8 :=
  [5] ++ List.replicate 8 0 ++ [nonce, 12, marker, marker]

/-- A session that opened the frame of nonce 2. -/
def openedTwo : Dave :=
  ((daveDecrypt frameCrypto frameCheck (inCall 8).dave 7 (shortFrame 2)).map (·.1)).getD (inCall 8).dave

theorem frame_dropped :
    (daveDecrypt frameCrypto frameCheck openedTwo 7 (shortFrame 2)).map (·.2) = some none := by
  obtain ⟨⟨e, out⟩, h⟩ : ∃ x, daveDecrypt frameCrypto frameCheck openedTwo 7 (shortFrame 2) = some x :=
    ⟨_, rfl⟩
  have hnone := (replays_dropped (inCall_reachable 8) 7 (shortFrame 2)).1 openedTwo [5] 2 rfl rfl []
    (fun pre c post heq => absurd heq (by simp)) (shortFrame 2) e out rfl h
  rw [h, Option.map_some, hnone]

/-- **A frame that is opened twice**, with another one in between. -/
theorem frame_opened_again :
    (calls frameCrypto frameCheck).Reachable (fun _ _ => True) (inCall 8) ∧
    frameNonce (shortFrame 2) = some 2 ∧
    (calls frameCrypto frameCheck).outputs (inCall 8)
        [.decrypt 7 (shortFrame 2), .decrypt 7 (shortFrame 3), .decrypt 7 (shortFrame 2)] =
      [some [5], some [5], some [5]] :=
  ⟨inCall_reachable 8, rfl, rfl⟩

end Voice
