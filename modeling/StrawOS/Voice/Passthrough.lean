import StrawOS.Voice.Decrypt

/-!
# The end of plain frames

While a call changes to encryption, frames without it pass until a deadline.  A
downgrade opens the door without a limit, and the transition that ends it sets the
deadline, but only if the downgrade was executed and the transition is not the
first one.  Otherwise the door stays open.
-/

namespace Voice

/-! ## Runs -/

/-- A call of the session, or of `dave_decrypt`. -/
inductive Call
  | session (op : Op)
  | decrypt (sender : Nat) (frame : List UInt8)

/-- A call with its result: the frames that `dave_decrypt` accepts.  A frame that makes
a copy leave its buffer ends the program. -/
def callStep (cr : Crypto) (check : GcmCheck) (st : Session) : Call → Session × List (Option (List UInt8))
  | .session op => ((step cr st op).1, [])
  | .decrypt sender frame =>
    match daveDecrypt cr check st.dave sender frame with
    | some (d, out) => ({ st with dave := d }, [out])
    | none => (st, [])

/-- The calls of a user. -/
def calls (cr : Crypto) (check : GcmCheck) : Machine Session Call (Option (List UInt8)) where
  start st := st.exported = [] ∧ st.frames = 0 ∧ st.calls = [] ∧ ∃ self, st.dave = daveNew self
  step := callStep cr check

/-- The clock does not go back. -/
def Clock (st : Session) : Call → Prop
  | .session (.tick now) => st.dave.now ≤ now
  | _ => True

/-- No sum of times or of ranges wraps. -/
def Regular (st : Session) : Call → Prop
  | .session (.binary op payload result _) =>
    (newEpoch op payload result).isSome = true → st.dave.now + keyExpiryMs < 2 ^ 64
  | .decrypt _ frame => Unwrapped frame
  | _ => True

/-- No transition to version 0 is prepared or executed, and no protocol is selected. -/
def Quiet (st : Session) : Call → Prop
  | .session (.selectProtocol _) => False
  | .session (.prepareTransition id version) =>
    version ≠ 0 ∧ st.executes (.prepareTransition id version) ≠ some 0
  | .session op => st.executes op ≠ some 0
  | .decrypt _ _ => True

/-- No new group starts without encryption. -/
def Encrypted : Call → Prop
  | .session (.prepareEpoch epoch version) => epoch = 1 → version ≠ 0
  | _ => True

/-- The transition ends the time of plain frames: it has a limit already, or gets one. -/
def Ends (st : Session) (op : Op) : Prop :=
  st.dave.passthroughUntil ≠ uint64Max ∨
    st.dave.downgraded = true ∧ ∃ id, id ≠ 0 ∧ op = .executeTransition id

/-! ## Receivers -/

variable {cr : Crypto} {check : GcmCheck}

theorem Receiver.Kept.leave {now : Nat} {r : Receiver} (h : r.Kept cr now)
    (hnow : now + keyExpiryMs < 2 ^ 64) (roster : List Nat) : (r.leave now roster).Kept cr now := by
  rw [Receiver.leave]
  split
  · refine ⟨ratchetZero_cached, h.cur, ?_⟩
    intro _
    rw [Nat.mod_eq_of_lt hnow]
    exact Nat.le_add_right _ _
  · exact h

theorem Receiver.Kept.enter {now : Nat} {r : Receiver} (h : r.Kept cr now)
    (hnow : now + keyExpiryMs < 2 ^ 64) (base : List UInt8) : (r.enter now base).Kept cr now := by
  rw [Receiver.enter]
  split
  · refine ⟨ratchetInit_cached base, h.cur, ?_⟩
    intro _
    rw [Nat.mod_eq_of_lt hnow]
    exact Nat.le_add_right _ _
  · exact ⟨ratchetInit_cached base, h.old, h.live⟩

theorem changeReceiver_kept {now : Nat} {recv : List Receiver} (h : ∀ r ∈ recv, r.Kept cr now)
    (hnow : now + keyExpiryMs < 2 ^ 64) (user : Nat) (base : List UInt8) :
    ∀ r ∈ changeReceiver recv user (Receiver.enter now base), r.Kept cr now := by
  have hnew : (⟨user, Ratchet.zero, Ratchet.zero, 0, 0, false⟩ : Receiver).Kept cr now :=
    ⟨ratchetZero_cached, ratchetZero_cached, fun h => nomatch h⟩
  intro r hr
  rw [changeReceiver] at hr
  split at hr
  · obtain ⟨i, hi, rfl⟩ := List.getElem_of_mem hr
    rw [List.getElem_modify]
    rw [List.length_modify] at hi
    split
    · exact (h _ (List.getElem_mem hi)).enter hnow base
    · exact h _ (List.getElem_mem hi)
  · split at hr
    · exact h r hr
    · rcases List.mem_append.mp hr with hr | hr
      · exact h r hr
      · rw [List.mem_singleton.mp hr]
        exact hnew.enter hnow base

/-- What a step leaves of the door for plain frames. -/
structure SameDoor (d d' : Dave) : Prop where
  version : d'.version = d.version
  downgraded : d'.downgraded = d.downgraded
  now : d'.now = d.now
  passthroughUntil : d'.passthroughUntil = d.passthroughUntil

theorem SameDoor.refl (d : Dave) : SameDoor d d := ⟨rfl, rfl, rfl, rfl⟩

theorem installMember_kept {d : Dave} (hd : d.Kept cr) (hnow : d.now + keyExpiryMs < 2 ^ 64)
    (epoch : Epoch) (user : Nat) :
    (installMember epoch d user).Kept cr ∧ SameDoor d (installMember epoch d user) := by
  rw [installMember]
  split
  · exact ⟨hd, .refl d⟩
  · split
    · exact ⟨hd, rfl, rfl, rfl, rfl⟩
    · exact ⟨changeReceiver_kept hd hnow user _, rfl, rfl, rfl, rfl⟩

theorem foldl_installMember_kept (epoch : Epoch) (users : List Nat) {d : Dave} (hd : d.Kept cr)
    (hnow : d.now + keyExpiryMs < 2 ^ 64) :
    (users.foldl (installMember epoch) d).Kept cr ∧
      SameDoor d (users.foldl (installMember epoch) d) := by
  induction users generalizing d with
  | nil => exact ⟨hd, .refl d⟩
  | cons user users ih =>
    obtain ⟨hkept, hsame⟩ := installMember_kept hd hnow epoch user
    obtain ⟨hkept', hsame'⟩ := ih hkept (by rw [hsame.now]; exact hnow)
    exact ⟨hkept', hsame'.version.trans hsame.version, hsame'.downgraded.trans hsame.downgraded,
      hsame'.now.trans hsame.now, hsame'.passthroughUntil.trans hsame.passthroughUntil⟩

/-- **A new epoch** keeps the receivers and the door. -/
theorem installEpoch_kept {d : Dave} (hd : d.Kept cr) (hnow : d.now + keyExpiryMs < 2 ^ 64)
    (epoch : Epoch) : (installEpoch d epoch).Kept cr ∧ SameDoor d (installEpoch d epoch) := by
  have hleft : Dave.Kept cr
      { d with recv := d.recv.map (Receiver.leave d.now (epoch.roster.take maxUsers)) } := by
    intro r hr
    obtain ⟨r', hr', rfl⟩ := List.mem_map.mp hr
    exact (hd r' hr').leave hnow _
  obtain ⟨hkept, hsame⟩ := foldl_installMember_kept epoch (epoch.roster.take maxUsers) hleft hnow
  exact ⟨hkept, hsame.version, hsame.downgraded, hsame.now, hsame.passthroughUntil⟩

theorem daveTick_kept {d : Dave} (hd : d.Kept cr) (now : Nat) : (daveTick d now).Kept cr := by
  intro r hr
  obtain ⟨r', hr', rfl⟩ := List.mem_map.mp hr
  have hkept := hd r' hr'
  split
  · exact ⟨hkept.cur, ratchetZero_cached, fun h => nomatch h⟩
  · rename_i hlive
    refine ⟨hkept.cur, hkept.old, ?_⟩
    intro hset
    by_contra hlt
    exact hlive ⟨hset, Nat.lt_of_not_le hlt⟩

/-! ## The door -/

theorem switchSender_door (d : Dave) : SameDoor d (switchSender d) ∧ (switchSender d).recv = d.recv := by
  rw [switchSender]
  split
  · exact ⟨⟨rfl, rfl, rfl, rfl⟩, rfl⟩
  · exact ⟨.refl d, rfl⟩

/-- **A transition** keeps the receivers and sets the door by its version. -/
theorem execute_door (d : Dave) (id : Nat) :
    (execute d id).recv = d.recv ∧ (execute d id).now = d.now ∧
      match findPending d.pending id with
      | none => SameDoor d (execute d id)
      | some (_, p) => (execute d id).version = p.version ∧
        (p.version = 0 → (execute d id).passthroughUntil = uint64Max) ∧
        (p.version ≠ 0 → (execute d id).downgraded = false ∧
          (execute d id).passthroughUntil =
            if d.downgraded ∧ id ≠ 0 then (d.now + passthroughMs) % 2 ^ 64
            else d.passthroughUntil) := by
  rw [execute]
  cases hfound : findPending d.pending id with
  | none => exact ⟨rfl, rfl, .refl d⟩
  | some found =>
    obtain ⟨i, p⟩ := found
    dsimp only
    by_cases hzero : p.version = 0
    · rw [if_pos hzero]
      exact ⟨rfl, rfl, rfl, fun _ => rfl, fun hno => absurd hzero hno⟩
    · rw [if_neg hzero]
      obtain ⟨hsame, hrecv⟩ := switchSender_door ({ d with
        pending := d.pending.modify i fun p => { p with used := false }
        version := p.version
        downgraded := false
        passthroughUntil := if d.downgraded ∧ id ≠ 0 then (d.now + passthroughMs) % 2 ^ 64
          else d.passthroughUntil })
      exact ⟨hrecv, hsame.now, hsame.version, fun hno => absurd hno hzero,
        fun _ => ⟨hsame.downgraded, hsame.passthroughUntil⟩⟩

/-- The door is open without a limit, or closes within the time for plain frames. -/
def Dave.Deadline (d : Dave) : Prop :=
  d.passthroughUntil ≠ uint64Max → d.passthroughUntil ≤ d.now + passthroughMs

/-- Since a time the version is not 0 and the door closes in time. -/
structure Dave.Closed (t0 : Nat) (d : Dave) : Prop where
  version : d.version ≠ 0
  downgraded : d.downgraded = false
  deadline : d.passthroughUntil ≤ t0 + passthroughMs

theorem SameDoor.closed {t0 : Nat} {d d' : Dave} (h : SameDoor d d') (hd : d.Closed t0) :
    d'.Closed t0 :=
  ⟨h.version ▸ hd.version, h.downgraded.trans hd.downgraded, h.passthroughUntil ▸ hd.deadline⟩

theorem execute_deadline {d : Dave} (hd : d.Deadline) (id : Nat) : (execute d id).Deadline := by
  obtain ⟨-, hnow, hdoor⟩ := execute_door d id
  rw [Dave.Deadline, hnow]
  cases hfound : findPending d.pending id with
  | none =>
    rw [hfound] at hdoor
    rw [hdoor.passthroughUntil]
    exact hd
  | some found =>
    rw [hfound] at hdoor
    obtain ⟨-, hzero, hother⟩ := hdoor
    by_cases hv : found.2.version = 0
    · intro hno
      exact absurd (hzero hv) hno
    · rw [(hother hv).2]
      split
      · intro _
        exact Nat.mod_le _ _
      · exact hd

/-- **A transition to another version** keeps the door closed. -/
theorem execute_closed {t0 : Nat} {d : Dave} (hd : d.Closed t0) {id : Nat}
    (hexec : (findPending d.pending id).map (·.2.version) ≠ some 0) : (execute d id).Closed t0 := by
  obtain ⟨-, -, hdoor⟩ := execute_door d id
  cases hfound : findPending d.pending id with
  | none =>
    rw [hfound] at hdoor
    exact hdoor.closed hd
  | some found =>
    rw [hfound] at hdoor hexec
    obtain ⟨hversion, -, hother⟩ := hdoor
    have hv : found.2.version ≠ 0 := fun h => hexec (congrArg some h)
    obtain ⟨hdowngraded, huntil⟩ := hother hv
    refine ⟨hversion ▸ hv, hdowngraded, ?_⟩
    rw [huntil, hd.downgraded]
    simpa using hd.deadline

/-- **The transition that ends it**: the door closes within the time after now. -/
theorem execute_ends {d : Dave} (hd : d.Deadline) {id : Nat} {v : Int}
    (hexec : (findPending d.pending id).map (·.2.version) = some v) (hv : 0 < v)
    (hends : d.passthroughUntil ≠ uint64Max ∨ d.downgraded = true ∧ id ≠ 0) :
    (execute d id).Closed d.now := by
  obtain ⟨-, -, hdoor⟩ := execute_door d id
  obtain ⟨found, hfound, rfl⟩ := Option.map_eq_some_iff.mp hexec
  rw [hfound] at hdoor
  obtain ⟨hversion, -, hother⟩ := hdoor
  have hne : found.2.version ≠ 0 := by omega
  obtain ⟨hdowngraded, huntil⟩ := hother hne
  refine ⟨hversion ▸ hne, hdowngraded, ?_⟩
  rw [huntil]
  split
  · exact Nat.mod_le _ _
  · rename_i hno
    rcases hends with hlimit | hends
    · exact hd hlimit
    · exact absurd hends hno

/-! ## Steps -/

theorem encryptFrame_door (d : Dave) (frame : List UInt8) (clear : Nat) :
    SameDoor d (encryptFrame cr d frame clear).1 ∧ (encryptFrame cr d frame clear).1.recv = d.recv := by
  rw [encryptFrame]
  split
  · exact ⟨.refl d, rfl⟩
  · dsimp only
    split
    · exact ⟨⟨rfl, rfl, rfl, rfl⟩, rfl⟩
    · exact ⟨⟨rfl, rfl, rfl, rfl⟩, rfl⟩

variable (cr) in
theorem daveEncryptVideo_door (d : Dave) (frame : List UInt8) (clear : Nat) :
    SameDoor d (daveEncryptVideo cr d frame clear).1 ∧
      (daveEncryptVideo cr d frame clear).1.recv = d.recv := by
  rw [daveEncryptVideo]
  split
  · exact ⟨.refl d, rfl⟩
  · exact encryptFrame_door d frame clear

variable (cr) in
theorem daveEncrypt_door (d : Dave) (frame : List UInt8) :
    SameDoor d (daveEncrypt cr d frame).1 ∧ (daveEncrypt cr d frame).1.recv = d.recv := by
  rw [daveEncrypt]
  split
  · exact ⟨.refl d, rfl⟩
  · exact encryptFrame_door d frame 0

/-- A session whose receivers are kept and whose door has a deadline or no limit. -/
structure Sane (cr : Crypto) (d : Dave) : Prop where
  kept : d.Kept cr
  deadline : d.Deadline

theorem Sane.sameDoor {d d' : Dave} (h : Sane cr d) (hsame : SameDoor d d') (hrecv : d'.recv = d.recv) :
    Sane cr d' := by
  refine ⟨?_, ?_⟩
  · rw [Dave.Kept, hrecv, hsame.now]
    exact h.kept
  · rw [Dave.Deadline, hsame.now, hsame.passthroughUntil]
    exact h.deadline

theorem Sane.execute {d : Dave} (h : Sane cr d) (id : Nat) : Sane cr (execute d id) := by
  obtain ⟨hrecv, hnow, -⟩ := execute_door d id
  refine ⟨?_, execute_deadline h.deadline id⟩
  rw [Dave.Kept, hrecv, hnow]
  exact h.kept

theorem Sane.head {d : Dave} (h : Sane cr d) (pending : List Pending) (version : Int) {limit : Nat}
    (hlimit : limit = d.passthroughUntil ∨ limit = uint64Max) :
    Sane cr { d with pending := pending, version := version, passthroughUntil := limit } := by
  refine ⟨h.kept, ?_⟩
  rcases hlimit with rfl | rfl
  · exact h.deadline
  · exact fun hne => absurd rfl hne

theorem Sane.tick {d : Dave} (h : Sane cr d) {now : Nat} (hnow : d.now ≤ now) :
    Sane cr (daveTick d now) := by
  refine ⟨daveTick_kept h.kept now, ?_⟩
  intro hlimit
  dsimp only [daveTick] at hlimit ⊢
  split at hlimit
  · rename_i hpassed
    rw [if_pos hpassed]
    exact Nat.zero_le _
  · rename_i hpassed
    rw [if_neg hpassed]
    have := h.deadline hlimit
    omega

/-- What a property of the keys and the door has to survive, so that the call keeps it. -/
structure Survives (cr : Crypto) (check : GcmCheck) (P : Dave → Prop) (st : Session) (c : Call) :
    Prop where
  now : P st.dave
  head : ∀ d pending version limit, P d → limit = d.passthroughUntil ∨ limit = uint64Max →
    P { d with pending := pending, version := version, passthroughUntil := limit }
  execute : ∀ d id, P d → P (execute d id)
  decrypt : ∀ sender frame d out, c = .decrypt sender frame →
    daveDecrypt cr check st.dave sender frame = some (d, out) → P d
  epoch : ∀ op payload result epoch id, c = .session (.binary op payload result epoch) →
    newEpoch op payload result = some id → P (installEpoch st.dave epoch)
  tick : ∀ now, c = .session (.tick now) → P (daveTick st.dave now)
  encrypt : ∀ frame clear, P (encryptFrame cr st.dave frame clear).1

theorem Survives.call {P : Dave → Prop} {st : Session} {c : Call} (h : Survives cr check P st c) :
    P (callStep cr check st c).1.dave := by
  have hsettle : ∀ d id, P d → P (settle d id).1 := by
    intro d id hd
    rw [settle]
    split
    · exact h.execute d 0 hd
    · exact hd
  cases c with
  | decrypt sender frame =>
    rw [callStep]
    split
    · exact h.decrypt sender frame _ _ rfl ‹_›
    · exact h.now
  | session op =>
    cases op with
    | selectProtocol version =>
      dsimp only [callStep, step, daveSelectProtocol]
      generalize (if daveMaxProtocol < version then daveMaxProtocol else version) = v
      split
      · exact h.head st.dave st.dave.pending v uint64Max h.now (.inr rfl)
      · exact h.head st.dave st.dave.pending v st.dave.passthroughUntil h.now (.inl rfl)
    | prepareTransition id version =>
      refine hsettle _ id (h.head st.dave _ st.dave.version _ h.now ?_)
      split
      · exact .inr rfl
      · exact .inl rfl
    | executeTransition id => exact h.execute _ id h.now
    | prepareEpoch epoch version =>
      dsimp only [callStep, step, davePrepareEpoch]
      split
      · exact h.now
      · exact h.head st.dave st.dave.pending _ st.dave.passthroughUntil h.now (.inl rfl)
    | binary op payload result epoch =>
      have hdave : (callStep cr check st (.session (.binary op payload result epoch))).1.dave =
          (daveBinary st.dave op payload result epoch).1 := rfl
      rw [hdave, daveBinary_dave]
      cases hid : newEpoch op payload result with
      | none => exact h.now
      | some id => exact hsettle _ id (h.head _ _ _ _ (h.epoch _ _ _ _ id rfl hid) (.inl rfl))
    | tick now => exact h.tick now rfl
    | encrypt frame =>
      dsimp only [callStep, step, daveEncrypt]
      split
      · exact h.now
      · exact h.encrypt frame 0
    | encryptVideo frame clear =>
      dsimp only [callStep, step, daveEncryptVideo]
      split
      · exact h.now
      · exact h.encrypt frame clear

/-- **One call** keeps the session sane. -/
theorem Sane.call {st : Session} (h : Sane cr st.dave) {c : Call} (hclock : Clock st c)
    (hregular : Regular st c) : Sane cr (callStep cr check st c).1.dave :=
  Survives.call
    { now := h
      head := fun _ pending version _ hd hlimit => hd.head pending version hlimit
      execute := fun _ id hd => hd.execute id
      decrypt := by
        intro sender frame d out _ hdecrypt
        obtain ⟨hkept, recv, rfl⟩ := daveDecrypt_kept h.kept hdecrypt
        exact ⟨hkept, h.deadline⟩
      epoch := by
        intro op payload result epoch id heq hid
        subst heq
        obtain ⟨hkept, hsame⟩ := installEpoch_kept h.kept (hregular (by rw [hid]; rfl)) epoch
        refine ⟨hkept, ?_⟩
        rw [Dave.Deadline, hsame.now, hsame.passthroughUntil]
        exact h.deadline
      tick := by
        intro now heq
        subst heq
        exact h.tick hclock
      encrypt := by
        intro frame clear
        obtain ⟨hsame, hrecv⟩ := @encryptFrame_door cr st.dave frame clear
        exact h.sameDoor hsame hrecv }

theorem settle_closed {t0 : Nat} {d : Dave} (hd : d.Closed t0) {id : Nat}
    (hexec : id = 0 → (findPending d.pending 0).map (·.2.version) ≠ some 0) :
    (settle d id).1.Closed t0 := by
  rw [settle]
  split
  · rename_i hid
    exact execute_closed hd (hexec hid)
  · exact hd

/-- **One quiet call** keeps the door closed. -/
theorem Dave.Closed.call {t0 : Nat} {st : Session} (h : st.dave.Closed t0) (hkept : st.dave.Kept cr)
    {c : Call} (hregular : Regular st c) (hquiet : Quiet st c) (hencrypted : Encrypted c) :
    (callStep cr check st c).1.dave.Closed t0 := by
  cases c with
  | decrypt sender frame =>
    rw [callStep]
    split
    · rename_i d out hdecrypt
      obtain ⟨-, recv, rfl⟩ := daveDecrypt_kept hkept hdecrypt
      exact ⟨h.version, h.downgraded, h.deadline⟩
    · exact h
  | session op =>
    cases op with
    | selectProtocol version => exact absurd hquiet id
    | prepareTransition id version =>
      obtain ⟨hversion, hexec⟩ := hquiet
      refine settle_closed (d := { st.dave with
        pending := addPending st.dave.pending id version
        passthroughUntil := if version = 0 then uint64Max else st.dave.passthroughUntil }) ?_ ?_
      · exact ⟨h.version, h.downgraded, by rw [if_neg hversion]; exact h.deadline⟩
      · intro hid
        rw [Session.executes, if_pos hid] at hexec
        exact hexec
    | executeTransition id => exact execute_closed h hquiet
    | prepareEpoch epoch version =>
      dsimp only [callStep, step, davePrepareEpoch]
      split
      · exact h
      · rename_i hepoch
        have hversion := hencrypted (not_not.mp hepoch)
        refine ⟨?_, h.downgraded, h.deadline⟩
        dsimp only
        split
        · decide
        · exact hversion
    | binary op payload result epoch =>
      have hdave : (callStep cr check st (.session (.binary op payload result epoch))).1.dave =
          (daveBinary st.dave op payload result epoch).1 := rfl
      rw [hdave, daveBinary_dave]
      cases hid : newEpoch op payload result with
      | none => exact h
      | some id =>
        obtain ⟨-, hsame⟩ := installEpoch_kept hkept (hregular (by rw [hid]; rfl)) epoch
        obtain ⟨-, -, hpending, hversion, -⟩ := installEpoch_spec st.dave epoch
        have hinstalled := hsame.closed h
        refine settle_closed (d := { installEpoch st.dave epoch with
          pending := addPending (installEpoch st.dave epoch).pending id
            (if 0 < (installEpoch st.dave epoch).version then (installEpoch st.dave epoch).version
              else daveMaxProtocol) })
          ⟨hinstalled.version, hinstalled.downgraded, hinstalled.deadline⟩ ?_
        intro hzero
        dsimp only [Quiet, Session.executes] at hquiet
        rw [hid, hzero, if_pos rfl] at hquiet
        rw [hzero, hpending, hversion]
        exact hquiet
    | tick now =>
      refine ⟨h.version, h.downgraded, ?_⟩
      dsimp only [callStep, step, daveTick]
      split
      · exact Nat.zero_le _
      · exact h.deadline
    | encrypt frame => exact (daveEncrypt_door cr st.dave frame).1.closed h
    | encryptVideo frame clear => exact (daveEncryptVideo_door cr st.dave frame clear).1.closed h

/-- **The call that ends it** closes the door. -/
theorem closed_of_ends {st : Session} (h : Sane cr st.dave) {op : Op} {v : Int}
    (hexec : st.executes op = some v) (hv : 0 < v) (hregular : Regular st (.session op))
    (hquiet : Quiet st (.session op)) (hends : Ends st op) :
    (callStep cr check st (.session op)).1.dave.Closed st.dave.now := by
  -- Only three of the calls execute a transition.
  cases op with
  | prepareTransition id version =>
    rw [Session.executes] at hexec
    split at hexec
    · rename_i hid
      subst hid
      rcases hends with hlimit | ⟨-, id, -, hop⟩
      · have hd : Dave.Deadline { st.dave with
            pending := addPending st.dave.pending 0 version
            passthroughUntil := if version = 0 then uint64Max else st.dave.passthroughUntil } := by
          rw [if_neg hquiet.1]
          exact h.deadline
        exact execute_ends hd hexec hv (Or.inl (by rw [if_neg hquiet.1]; exact hlimit))
      · cases hop
    · cases hexec
  | executeTransition id =>
    refine execute_ends h.deadline hexec hv ?_
    rcases hends with hlimit | ⟨hdowngraded, id', hid', hop⟩
    · exact Or.inl hlimit
    · cases hop
      exact Or.inr ⟨hdowngraded, hid'⟩
  | binary op payload result epoch =>
    have hdave : (callStep cr check st (.session (.binary op payload result epoch))).1.dave =
        (daveBinary st.dave op payload result epoch).1 := rfl
    rw [hdave, daveBinary_dave]
    rw [Session.executes] at hexec
    split at hexec
    · rename_i hid
      obtain ⟨hkept, hsame⟩ := installEpoch_kept h.kept (hregular (by rw [hid]; rfl)) epoch
      obtain ⟨-, -, hpending, hversion, -⟩ := installEpoch_spec st.dave epoch
      have hd : (installEpoch st.dave epoch).Deadline := by
        rw [Dave.Deadline, hsame.now, hsame.passthroughUntil]
        exact h.deadline
      rw [← hpending, ← hversion] at hexec
      rcases hends with hlimit | ⟨-, id, -, hop⟩
      · rw [hid]
        have hclosed := execute_ends (d := { installEpoch st.dave epoch with
          pending := addPending (installEpoch st.dave epoch).pending 0
            (if 0 < (installEpoch st.dave epoch).version then (installEpoch st.dave epoch).version
              else daveMaxProtocol) }) hd hexec hv (Or.inl (hsame.passthroughUntil ▸ hlimit))
        rw [hsame.now] at hclosed
        exact hclosed
      · cases hop
    · cases hexec
  | selectProtocol _ => cases hexec
  | prepareEpoch _ _ => cases hexec
  | tick _ => cases hexec
  | encrypt _ => cases hexec
  | encryptVideo _ _ => cases hexec

theorem sane_of_reachable {st : Session}
    (h : (calls cr check).Reachable (fun st c => Clock st c ∧ Regular st c) st) : Sane cr st.dave := by
  refine h.invariant (P := fun st => Sane cr st.dave) ?_ ?_
  · rintro s ⟨-, -, -, self, hdave⟩
    rw [hdave]
    exact ⟨(fun r hr => absurd hr List.not_mem_nil), fun _ => Nat.zero_le _⟩
  · intro s c hs hc
    exact hs.call hc.1 hc.2

/-- The calls after the transition: what is assumed of them, and that no new group starts
without encryption. -/
def Later (st : Session) (c : Call) : Prop := Clock st c ∧ Regular st c ∧ Quiet st c ∧ Encrypted c

/-- **Plain frames end**: once a transition to a version above 0 is executed that has a
limit or sets one, no later frame passes after the limit unless it is silence or
authenticated, as long as no downgrade is prepared or executed, no protocol is selected
and no new group starts without encryption. -/
theorem passthrough_closes {st : Session}
    (h : (calls cr check).Reachable (fun st c => Clock st c ∧ Regular st c) st) {op : Op} {v : Int}
    (hexec : st.executes op = some v) (hv : 0 < v) (hregular : Regular st (.session op))
    (hquiet : Quiet st (.session op)) (hends : Ends st op) {cs : List Call}
    (hcs : ∀ pre c post, cs = pre ++ c :: post →
      Later ((calls cr check).run st (.session op :: pre)) c)
    (hnow : st.dave.now + passthroughMs < ((calls cr check).run st (.session op :: cs)).dave.now)
    {sender : Nat} {frame : List UInt8} (hframe : Unwrapped frame) (hsilence : isSilence frame = false)
    (hauth : ¬ Authentic cr check ((calls cr check).run st (.session op :: cs)).dave sender frame) :
    ∃ d, daveDecrypt cr check ((calls cr check).run st (.session op :: cs)).dave sender frame =
      some (d, none) := by
  have hsane := sane_of_reachable h
  have hclock : Clock st (.session op) := by
    cases op <;> first | exact trivial | cases hexec
  have hfirst : Sane cr (callStep cr check st (.session op)).1.dave ∧
      (callStep cr check st (.session op)).1.dave.Closed st.dave.now :=
    ⟨hsane.call hclock hregular, closed_of_ends hsane hexec hv hregular hquiet hends⟩
  obtain ⟨hlast, hclosed⟩ : Sane cr ((calls cr check).run st (.session op :: cs)).dave ∧
      ((calls cr check).run st (.session op :: cs)).dave.Closed st.dave.now := by
    refine Machine.run_invariant
      (P := fun s : Session => Sane cr s.dave ∧ s.dave.Closed st.dave.now) ?_ hfirst hcs
    intro s c hs hc
    obtain ⟨hclock, hregular, hquiet, hencrypted⟩ := hc
    exact ⟨hs.1.call hclock hregular, hs.2.call hs.1.kept hregular hquiet hencrypted⟩
  refine daveDecrypt_rejects hlast.kept hframe ?_ hauth
  have hdeadline := hclosed.deadline
  rw [Dave.passes, hsilence]
  simp only [Bool.false_or, Bool.or_eq_false_iff, beq_eq_false_iff_ne, Bool.and_eq_false_iff,
    decide_eq_false_iff_not]
  exact ⟨hclosed.version, Or.inr (by omega)⟩

/-! ## A call that starts without encryption -/

/-- A check that accepts nothing. -/
def noCheck : GcmCheck := fun _ _ _ _ _ => none

/-- A new session. -/
def newCall : Session := ⟨daveNew 7, [], 0, []⟩

theorem start_newCall : (calls sample noCheck).start newCall := ⟨rfl, rfl, rfl, 7, rfl⟩

/-- The welcome into the first epoch. -/
def firstWelcome : Op := .binary 30 [0, 0] 1 ⟨[7], fun _ => some sampleBase⟩

theorem plain_unwrapped : Unwrapped [1, 2, 3] := by
  intro supp t hsupp
  cases hsupp

theorem plain_not_authentic (d : Dave) (sender : Nat) : ¬ Authentic sample noCheck d sender [1, 2, 3] := by
  rintro ⟨supp, t, ct, aad, r, rt, hsupp, -⟩
  cases hsupp

/-- A call that starts with encryption accepts no plain frame after 20 seconds. -/
theorem encrypted_call_closes :
    newCall.executes firstWelcome = some 1 ∧
      ∃ d, daveDecrypt sample noCheck
        ((calls sample noCheck).run newCall [.session firstWelcome, .session (.tick 20000)]).dave 9
        [1, 2, 3] = some (d, none) := by
  refine ⟨by decide, ?_⟩
  refine passthrough_closes (.start start_newCall) (v := 1) (by decide) (by decide) ?_ ?_ ?_ ?_
    (by decide) plain_unwrapped rfl (plain_not_authentic _ 9)
  · intro _
    decide
  · show newCall.executes firstWelcome ≠ some 0
    decide
  · exact Or.inl (Nat.ne_of_lt (by decide))
  · intro pre c post heq
    cases pre with
    | nil =>
      cases heq
      exact ⟨Nat.zero_le _, trivial, (fun h => nomatch h), trivial⟩
    | cons c' pre =>
      have hnil := (List.cons.inj heq).2
      cases pre <;> cases hnil

/-- A call that starts without encryption. -/
def plainStart : Session :=
  (calls sample noCheck).run newCall [.session (.selectProtocol 0), .session (.prepareEpoch 1 1)]

/-- That call 20 seconds after it changed to encryption. -/
def plainLater : Session :=
  (calls sample noCheck).run plainStart [.session firstWelcome, .session (.tick 20000)]

/-- **The door stays open**: in a call that starts without encryption the first
transition sets no deadline, and a plain frame passes 20 seconds later. -/
theorem plain_start_stays_open :
    (calls sample noCheck).Reachable (fun st c => Clock st c ∧ Regular st c) plainStart ∧
    plainStart.executes firstWelcome = some 1 ∧
    Quiet ((calls sample noCheck).run plainStart [.session firstWelcome]) (.session (.tick 20000)) ∧
    plainStart.dave.now + passthroughMs < plainLater.dave.now ∧ isSilence [1, 2, 3] = false ∧
    ¬ Authentic sample noCheck plainLater.dave 9 [1, 2, 3] ∧
    (daveDecrypt sample noCheck plainLater.dave 9 [1, 2, 3]).map (·.2) = some (some [1, 2, 3]) := by
  refine ⟨?_, by decide, (fun h => nomatch h), by decide, rfl, plain_not_authentic _ 9, by decide⟩
  refine Machine.Reachable.run (.start start_newCall) _ ?_
  intro pre c post heq
  have hc : c ∈ [Call.session (.selectProtocol 0), Call.session (.prepareEpoch 1 1)] := by
    rw [heq]
    exact List.mem_append_right _ List.mem_cons_self
  rw [List.mem_cons, List.mem_singleton] at hc
  obtain rfl | rfl := hc
  · exact ⟨trivial, trivial⟩
  · exact ⟨trivial, trivial⟩

end Voice
