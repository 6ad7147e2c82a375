import StrawOS.Voice.Dave

/-!
# Nonces of secure frames

AES-GCM must not be called twice with one key and one nonce.  The nonce counts
from zero whenever `switch_sender` takes a base, so a base must be taken only
once.  `switch_sender` compares the base with that of the sender, which is enough
as long as there is one: a downgrade erases the sender and leaves `send_next`, and
the next upgrade takes the same base again.
-/

namespace Voice

/-! ## Runs of a session -/

/-- A session with its history: the bases exported for this user, the number of
frames and the calls of AES-GCM. -/
structure Session where
  dave : Dave
  exported : List (List UInt8)
  frames : Nat
  calls : List Sealed

inductive Op
  | selectProtocol (version : Int)
  | prepareTransition (id : Nat) (version : Int)
  | executeTransition (id : Nat)
  | prepareEpoch (epoch : Nat) (version : Int)
  | binary (op : Nat) (payload : List UInt8) (result : Int) (epoch : Epoch)
  | tick (now : Nat)
  | encrypt (frame : List UInt8)
  | encryptVideo (frame : List UInt8) (clear : Nat)

/-- The identifier of a message that brings a new epoch. -/
def newEpoch (op : Nat) (payload : List UInt8) (result : Int) : Option Nat :=
  match payload with
  | hi :: lo :: _ =>
    if (op = 29 ∨ op = 30) ∧ 0 < result then some (hi.toNat * 256 + lo.toNat) else none
  | _ => none

/-- The own base in an epoch, if there is one. -/
def Epoch.own (epoch : Epoch) (self : Nat) : Option (List UInt8) :=
  if self ∈ epoch.roster.take maxUsers then epoch.base self else none

/-- The base that an input exports for this user. -/
def Session.exports (st : Session) : Op → Option (List UInt8)
  | .binary op payload result epoch => (newEpoch op payload result).bind fun _ => epoch.own st.dave.self
  | _ => none

/-- The version of the transition that an input executes. -/
def Session.executes (st : Session) : Op → Option Int
  | .prepareTransition id version =>
      if id = 0 then (findPending (addPending st.dave.pending id version) 0).map (·.2.version)
      else none
  | .executeTransition id => (findPending st.dave.pending id).map (·.2.version)
  | .binary op payload result _ =>
      if newEpoch op payload result = some 0 then
        (findPending (addPending st.dave.pending 0
          (if 0 < st.dave.version then st.dave.version else daveMaxProtocol)) 0).map (·.2.version)
      else none
  | _ => none

def step (cr : Crypto) (st : Session) (op : Op) : Session × List Out :=
  let put (r : Dave × List Out) : Session × List Out :=
    ({ st with dave := r.1, exported := st.exported ++ (st.exports op).toList }, r.2)
  let record (r : Dave × Option Sealed × Option (List UInt8)) : Session × List Out :=
    ({ st with dave := r.1, frames := st.frames + 1, calls := st.calls ++ r.2.1.toList }, [])
  match op with
  | .selectProtocol version => put (daveSelectProtocol st.dave version)
  | .prepareTransition id version => put (davePrepareTransition st.dave id version)
  | .executeTransition id => put (execute st.dave id, [])
  | .prepareEpoch epoch version => put (davePrepareEpoch st.dave epoch version)
  | .binary op payload result epoch => put (daveBinary st.dave op payload result epoch)
  | .tick now => put (daveTick st.dave now, [])
  | .encrypt frame => record (daveEncrypt cr st.dave frame)
  | .encryptVideo frame clear => record (daveEncryptVideo cr st.dave frame clear)

/-- The sessions of a user. -/
def machine (cr : Crypto) : Machine Session Op Out where
  start st := st.exported = [] ∧ st.frames = 0 ∧ st.calls = [] ∧ ∃ self, st.dave = daveNew self
  step := step cr

/-- Epochs export bases of their own, and there are fewer than `2 ^ 32` frames. -/
def Legal (st : Session) (op : Op) : Prop :=
  (∀ b, st.exports op = some b → b ∉ st.exported) ∧
    match op with
    | .encrypt _ | .encryptVideo _ _ => st.frames + 1 < 2 ^ 32
    | _ => True

/-- The input executes no upgrade from an erased sender to a base that was used. -/
def Unspent (st : Session) (op : Op) : Prop :=
  ∀ v, st.executes op = some v → v ≠ 0 → st.dave.send.set = false →
    st.exports op = none → ∀ s ∈ st.calls, s.base ≠ st.dave.sendNext.base

/-! ## What the inputs do to the sender -/

/-- The sender and the counter are the same. -/
structure SameSender (d d' : Dave) : Prop where
  send : d'.send = d.send
  next : d'.sendNext = d.sendNext
  nonce : d'.nonce = d.nonce

theorem foldl_installMember (epoch : Epoch) (users : List Nat) (d : Dave) :
    (users.foldl (installMember epoch) d).self = d.self ∧
      (users.foldl (installMember epoch) d).send = d.send ∧
      (users.foldl (installMember epoch) d).nonce = d.nonce ∧
      (users.foldl (installMember epoch) d).pending = d.pending ∧
      (users.foldl (installMember epoch) d).version = d.version ∧
      (users.foldl (installMember epoch) d).sendNext =
        match if d.self ∈ users then epoch.base d.self else none with
        | some base => ratchetInit base
        | none => d.sendNext := by
  induction users generalizing d with
  | nil => simp
  | cons user users ih =>
    have hone : (installMember epoch d user).self = d.self ∧
        (installMember epoch d user).send = d.send ∧
        (installMember epoch d user).nonce = d.nonce ∧
        (installMember epoch d user).pending = d.pending ∧
        (installMember epoch d user).version = d.version ∧
        (installMember epoch d user).sendNext =
          match if d.self = user then epoch.base d.self else none with
          | some base => ratchetInit base
          | none => d.sendNext := by
      rw [installMember]
      by_cases hself : user = d.self
      · subst hself
        cases hbase : epoch.base d.self <;> simp
      · cases hbase : epoch.base user <;> simp [hself, Ne.symm hself]
    by_cases hmem : d.self ∈ users
    · grind
    · grind

/-- **A new epoch** only changes the base that waits. -/
theorem installEpoch_spec (d : Dave) (epoch : Epoch) :
    (installEpoch d epoch).send = d.send ∧ (installEpoch d epoch).nonce = d.nonce ∧
      (installEpoch d epoch).pending = d.pending ∧ (installEpoch d epoch).version = d.version ∧
      (installEpoch d epoch).sendNext =
        match epoch.own d.self with
        | some base => ratchetInit base
        | none => d.sendNext := by
  obtain ⟨-, h2, h3, h4, h5, h6⟩ := foldl_installMember epoch (epoch.roster.take maxUsers)
    { d with recv := d.recv.map (Receiver.leave d.now (epoch.roster.take maxUsers)) }
  exact ⟨h2, h3, h4, h5, h6⟩

/-- **A transition** keeps the sender, erases it, or takes the base that waits. -/
theorem execute_cases (d : Dave) (id : Nat) :
    SameSender d (execute d id) ∨
    ((execute d id).send = Ratchet.zero ∧ (execute d id).sendNext = d.sendNext ∧
      (execute d id).nonce = d.nonce) ∨
    (∃ i p, findPending d.pending id = some (i, p) ∧ p.version ≠ 0 ∧ d.sendNext.set = true ∧
      (d.send.set = false ∨ d.send.base ≠ d.sendNext.base) ∧
      (execute d id).send = d.sendNext ∧ (execute d id).sendNext = d.sendNext ∧
      (execute d id).nonce = 0) := by
  rw [execute]
  cases hfound : findPending d.pending id with
  | none => exact Or.inl ⟨rfl, rfl, rfl⟩
  | some found =>
    obtain ⟨i, p⟩ := found
    dsimp only
    by_cases hzero : p.version = 0
    · rw [if_pos hzero]
      exact Or.inr (Or.inl ⟨rfl, rfl, rfl⟩)
    · rw [if_neg hzero, switchSender]
      dsimp only
      split
      · grind
      · exact Or.inl ⟨rfl, rfl, rfl⟩

/-! ## The invariant -/

/-- A session in which no base counted twice over a nonce.  A base that waits is
that of the sender or has sealed nothing, unless the sender is erased. -/
structure Sound (cr : Crypto) (st : Session) : Prop where
  counted : st.dave.nonce ≤ st.frames
  bound : st.frames < 2 ^ 32
  calls : ∀ s ∈ st.calls, s.key = keyOf cr s.base (s.nonce / 2 ^ 24) ∧ s.iv = makeIv s.nonce ∧
    s.nonce < 2 ^ 32 ∧ s.base ∈ st.exported
  distinct : (st.calls.map fun s => (s.base, s.nonce)).Nodup
  next : st.dave.sendNext.set = true →
    st.dave.sendNext.base ∈ st.exported ∧ st.dave.sendNext.haveKey = false
  sender : st.dave.send.set = true → st.dave.sendNext.set = true ∧
    st.dave.send.base ∈ st.exported ∧
    (st.dave.send.haveKey = true →
      st.dave.send.key = keyOf cr st.dave.send.base st.dave.send.gen) ∧
    (∀ s ∈ st.calls, s.base = st.dave.send.base → s.nonce ≤ st.dave.nonce) ∧
    (st.dave.sendNext.base = st.dave.send.base ∨
      ∀ s ∈ st.calls, s.base ≠ st.dave.sendNext.base)

variable {cr : Crypto} {st : Session}

theorem Sound.sameSender (h : Sound cr st) {d : Dave} (hd : SameSender st.dave d) :
    Sound cr { st with dave := d } := by
  obtain ⟨hsend, hnext, hnonce⟩ := hd
  constructor
  · simpa only [hnonce] using h.counted
  · exact h.bound
  · exact h.calls
  · exact h.distinct
  · simpa only [hnext] using h.next
  · simpa only [hsend, hnext, hnonce] using h.sender

/-- **A new epoch**, with a base of its own. -/
theorem Sound.installEpoch (h : Sound cr st) {epoch : Epoch}
    (hfresh : ∀ b, epoch.own st.dave.self = some b → b ∉ st.exported) :
    Sound cr { st with
      dave := Voice.installEpoch st.dave epoch
      exported := st.exported ++ (epoch.own st.dave.self).toList } := by
  obtain ⟨hsend, hnonce, -, -, hnext⟩ := installEpoch_spec st.dave epoch
  cases hown : epoch.own st.dave.self with
  | none =>
    rw [hown] at hnext
    simpa using h.sameSender ⟨hsend, hnext, hnonce⟩
  | some base =>
    rw [hown] at hnext
    have hnew := hfresh base hown
    have hunused : ∀ s ∈ st.calls, s.base ≠ base := by
      intro s hs heq
      exact hnew (heq ▸ (h.calls s hs).2.2.2)
    constructor
    · simpa only [hnonce] using h.counted
    · exact h.bound
    · intro s hs
      obtain ⟨hkey, hiv, hlt, hmem⟩ := h.calls s hs
      exact ⟨hkey, hiv, hlt, List.mem_append_left _ hmem⟩
    · exact h.distinct
    · intro _
      simp only [hnext]
      exact ⟨List.mem_append_right _ (List.mem_singleton_self _), rfl⟩
    · simp only [hsend, hnonce, hnext]
      intro hset
      obtain ⟨-, hmem, hkey, hle, -⟩ := h.sender hset
      exact ⟨rfl, List.mem_append_left _ hmem, hkey, hle, Or.inr hunused⟩

/-- **A transition** that takes no used base for an erased sender. -/
theorem Sound.execute (h : Sound cr st) {id : Nat}
    (hunspent : ∀ i p, findPending st.dave.pending id = some (i, p) → p.version ≠ 0 →
      st.dave.send.set = false → ∀ s ∈ st.calls, s.base ≠ st.dave.sendNext.base) :
    Sound cr { st with dave := Voice.execute st.dave id } := by
  rcases execute_cases st.dave id with hsame | ⟨hsend, hnext, hnonce⟩ |
    ⟨i, p, hfound, hversion, hset, hother, hsend, hnext, hnonce⟩
  · exact h.sameSender hsame
  · constructor
    · simpa only [hnonce] using h.counted
    · exact h.bound
    · exact h.calls
    · exact h.distinct
    · simpa only [hnext] using h.next
    · simp only [hsend]
      intro hzero
      cases hzero
  · -- The base was not used: the sender had another one, or the upgrade is unspent.
    have hunused : ∀ s ∈ st.calls, s.base ≠ st.dave.sendNext.base := by
      cases hold : st.dave.send.set with
      | false => exact hunspent i p hfound hversion hold
      | true =>
        have hne : st.dave.send.base ≠ st.dave.sendNext.base := by simpa [hold] using hother
        exact (h.sender hold).2.2.2.2.resolve_left fun heq => hne heq.symm
    obtain ⟨hmem, hnokey⟩ := h.next hset
    constructor
    · simp only [hnonce]
      exact Nat.zero_le _
    · exact h.bound
    · exact h.calls
    · exact h.distinct
    · simpa only [hnext] using h.next
    · grind

theorem ratchetKey_spec {r : Ratchet} (hset : r.set = true)
    (hcache : r.haveKey = true → r.key = keyOf cr r.base r.gen) {gen : Nat} (hgen : gen ≤ 4096) :
    ∃ r', ratchetKey cr r gen = some (r', keyOf cr r.base gen) ∧ r'.set = true ∧
      r'.base = r.base ∧ (r'.haveKey = true → r'.key = keyOf cr r'.base r'.gen) := by
  rw [ratchetKey, if_neg (by simp [hset])]
  by_cases hmiss : ¬ r.haveKey ∨ r.gen ≠ gen
  · rw [if_pos hmiss, if_neg (by omega)]
    exact ⟨_, rfl, hset, rfl, fun _ => rfl⟩
  · grind

/-- **A frame** is not sealed, or takes the next nonce. -/
theorem Sound.encryptFrame_cases (h : Sound cr st) (hframes : st.frames + 1 < 2 ^ 32)
    (frame : List UInt8) (clear : Nat) :
    (st.dave.send.set = false ∧ encryptFrame cr st.dave frame clear = (st.dave, none)) ∨
    (st.dave.send.set = true ∧ ∃ send out, send.set = true ∧ send.base = st.dave.send.base ∧
      (send.haveKey = true → send.key = keyOf cr send.base send.gen) ∧
      encryptFrame cr st.dave frame clear =
        ({ st.dave with nonce := st.dave.nonce + 1, send := send },
          some (⟨st.dave.send.base, st.dave.nonce + 1,
            keyOf cr st.dave.send.base ((st.dave.nonce + 1) / 2 ^ 24),
            makeIv (st.dave.nonce + 1)⟩, out))) := by
  have hcounted := h.counted
  cases hset : st.dave.send.set with
  | false =>
    simp [encryptFrame, hset]
  | true =>
    right
    obtain ⟨-, -, hcache, -, -⟩ := h.sender hset
    have hnonce : (st.dave.nonce + 1) % 2 ^ 32 = st.dave.nonce + 1 := Nat.mod_eq_of_lt (by omega)
    have hgen : (st.dave.nonce + 1) / 2 ^ 24 ≤ 4096 := by omega
    obtain ⟨send, hkey, hset', hbase', hcache'⟩ := ratchetKey_spec hset hcache hgen
    refine ⟨rfl, send, ?_, hset', hbase', hcache', ?_⟩
    rotate_left
    · rw [encryptFrame]
      simp only [hset, not_true_eq_false, if_false, hnonce, hkey]
      rfl

theorem Sound.unsealed (h : Sound cr st) (hframes : st.frames + 1 < 2 ^ 32) :
    Sound cr { st with frames := st.frames + 1 } :=
  { h with counted := Nat.le_succ_of_le h.counted, bound := hframes }

theorem Sound.encryptFrame (h : Sound cr st) (hframes : st.frames + 1 < 2 ^ 32)
    (frame : List UInt8) (clear : Nat) :
    Sound cr { st with
      dave := (Voice.encryptFrame cr st.dave frame clear).1
      frames := st.frames + 1
      calls := st.calls ++ ((Voice.encryptFrame cr st.dave frame clear).2.map Prod.fst).toList } := by
  have hcounted := h.counted
  rcases h.encryptFrame_cases hframes frame clear with ⟨-, hnone⟩ |
    ⟨hset, send, out, hset', hbase', hcache', hsome⟩
  · rw [hnone]
    simpa using h.unsealed hframes
  · obtain ⟨hnextset, hmem, -, hle, hnext⟩ := h.sender hset
    rw [hsome]
    simp only [Option.map_some, Option.toList_some]
    constructor
    · simp only
      omega
    · exact hframes
    · intro s hs
      rcases List.mem_append.mp hs with hs | hs
      · exact h.calls s hs
      · rw [List.mem_singleton.mp hs]
        exact ⟨rfl, rfl, by simp only; omega, hmem⟩
    · rw [List.map_append, List.nodup_append]
      refine ⟨h.distinct, List.nodup_singleton _, ?_⟩
      intro pair hpair pair' hpair' heq
      obtain ⟨s, hs, rfl⟩ := List.mem_map.mp hpair
      rw [List.map_singleton, List.mem_singleton] at hpair'
      rw [hpair', Prod.mk.injEq] at heq
      have hnonce : s.nonce = st.dave.nonce + 1 := heq.2
      have := hle s hs heq.1
      omega
    · exact h.next
    · intro _
      simp only [hbase']
      refine ⟨hnextset, hmem, hbase' ▸ hcache', ?_, ?_⟩
      · grind
      · grind

/-! ## Whole runs -/

theorem Sound.settle (h : Sound cr st) {id : Nat}
    (hunspent : id = 0 → ∀ i p, findPending st.dave.pending 0 = some (i, p) → p.version ≠ 0 →
      st.dave.send.set = false → ∀ s ∈ st.calls, s.base ≠ st.dave.sendNext.base) :
    Sound cr { st with dave := (Voice.settle st.dave id).1 } := by
  rw [Voice.settle]
  split
  · rename_i hid
    exact h.execute (hunspent hid)
  · exact h

theorem daveBinary_dave (d : Dave) (op : Nat) (payload : List UInt8) (result : Int)
    (epoch : Epoch) : (daveBinary d op payload result epoch).1 =
      match newEpoch op payload result with
      | some id => (transitionReady (installEpoch d epoch) id).1
      | none => d := by
  match payload with
  | [] => rfl
  | [_] => rfl
  | hi :: lo :: rest =>
    simp only [daveBinary, newEpoch]
    by_cases hop : op = 29 ∨ op = 30
    · grind
    · simp [hop]

/-- **A message** that brings an epoch, and the transition that it may execute. -/
theorem Sound.newEpoch (h : Sound cr st) {op : Nat} {payload : List UInt8} {result : Int}
    {epoch : Epoch} {id : Nat} (hid : Voice.newEpoch op payload result = some id)
    (hfresh : ∀ b, epoch.own st.dave.self = some b → b ∉ st.exported)
    (hunspent : Unspent st (.binary op payload result epoch)) :
    Sound cr { st with
      dave := (transitionReady (Voice.installEpoch st.dave epoch) id).1
      exported := st.exported ++ (epoch.own st.dave.self).toList } := by
  obtain ⟨hsend, hnonce, hpending, hversion, hnext⟩ := installEpoch_spec st.dave epoch
  have hinstalled := h.installEpoch hfresh
  have hready : SameSender (Voice.installEpoch st.dave epoch)
      { Voice.installEpoch st.dave epoch with
        pending := addPending (Voice.installEpoch st.dave epoch).pending id
          (if 0 < (Voice.installEpoch st.dave epoch).version
            then (Voice.installEpoch st.dave epoch).version else daveMaxProtocol) } :=
    ⟨rfl, rfl, rfl⟩
  refine (hinstalled.sameSender hready).settle ?_
  simp only [hpending, hversion, hsend, hnext]
  intro hzero i p hfound hp hset
  subst hzero
  cases hown : epoch.own st.dave.self with
  | some base =>
    intro s hs heq
    have hbase : s.base = base := heq
    exact hfresh base hown (hbase ▸ (h.calls s hs).2.2.2)
  | none =>
    exact hunspent p.version (by simp [Session.executes, hid, hfound]) hp hset
      (by simp [Session.exports, hid, hown])

/-- **A step.** -/
theorem Sound.step (h : Sound cr st) {op : Op} (hlegal : Legal st op) (hunspent : Unspent st op) :
    Sound cr (Voice.step cr st op).1 := by
  obtain ⟨hfresh, hframes⟩ := hlegal
  cases op with
  | selectProtocol version =>
    have hsame : SameSender st.dave (daveSelectProtocol st.dave version).1 := by
      rw [daveSelectProtocol]
      generalize (if daveMaxProtocol < version then daveMaxProtocol else version) = v
      split <;> exact ⟨rfl, rfl, rfl⟩
    simpa [Voice.step, Session.exports] using h.sameSender hsame
  | prepareTransition id version =>
    have hsame : SameSender st.dave { st.dave with
        pending := addPending st.dave.pending id version
        passthroughUntil := if version = 0 then uint64Max else st.dave.passthroughUntil } :=
      ⟨rfl, rfl, rfl⟩
    have hready : id = 0 → ∀ i p, findPending (addPending st.dave.pending id version) 0 =
        some (i, p) → p.version ≠ 0 → st.dave.send.set = false →
        ∀ s ∈ st.calls, s.base ≠ st.dave.sendNext.base := by
      intro hid i p hfound hp hset
      exact hunspent p.version (by simp [Session.executes, hid ▸ hfound, hid]) hp hset rfl
    simpa [Voice.step, Session.exports, davePrepareTransition] using
      (h.sameSender hsame).settle hready
  | executeTransition id =>
    have hready : ∀ i p, findPending st.dave.pending id = some (i, p) → p.version ≠ 0 →
        st.dave.send.set = false → ∀ s ∈ st.calls, s.base ≠ st.dave.sendNext.base := by
      intro i p hfound hp hset
      exact hunspent p.version (by simp [Session.executes, hfound]) hp hset rfl
    simpa [Voice.step, Session.exports] using h.execute hready
  | prepareEpoch epoch version =>
    have hsame : SameSender st.dave (davePrepareEpoch st.dave epoch version).1 := by
      rw [davePrepareEpoch]
      split <;> exact ⟨rfl, rfl, rfl⟩
    simpa [Voice.step, Session.exports] using h.sameSender hsame
  | binary op payload result epoch =>
    have hdave := daveBinary_dave st.dave op payload result epoch
    cases hid : Voice.newEpoch op payload result with
    | none =>
      simpa [Voice.step, Session.exports, hid, hdave] using h
    | some id =>
      have hnew := h.newEpoch hid (by simpa [Session.exports, hid] using hfresh) hunspent
      simpa [Voice.step, Session.exports, hid, hdave] using hnew
  | tick now =>
    have hsame : SameSender st.dave (daveTick st.dave now) := ⟨rfl, rfl, rfl⟩
    simpa [Voice.step, Session.exports] using h.sameSender hsame
  | encrypt frame =>
    simp only [Voice.step, daveEncrypt]
    split
    · simpa using h.unsealed hframes
    · exact h.encryptFrame hframes frame 0
  | encryptVideo frame clear =>
    simp only [Voice.step, daveEncryptVideo]
    split
    · simpa using h.unsealed hframes
    · exact h.encryptFrame hframes frame clear

theorem sound_of_reachable
    (h : (machine cr).Reachable (fun st op => Legal st op ∧ Unspent st op) st) : Sound cr st := by
  refine h.invariant ?_ fun st op hst hop => hst.step hop.1 hop.2
  intro st hst
  obtain ⟨hexported, hframes, hcalls, self, hdave⟩ := hst
  constructor <;> simp [hexported, hframes, hcalls, hdave, daveNew, Ratchet.zero]

theorem makeIv_injective {m n : Nat} (hm : m < 2 ^ 32) (hn : n < 2 ^ 32)
    (h : makeIv m = makeIv n) : m = n := by
  have hbytes : Endian.store 4 m = Endian.store 4 n := List.append_cancel_left h
  rw [← Endian.load_store (w := 4) hm, hbytes, Endian.load_store hn]

/-- **Nonces are unique.**  In every run in which epochs export bases of their own,
these bases have keys of their own, there are fewer than `2 ^ 32` frames, and an
erased sender is not given a base that was used, AES-GCM is never called twice
with one key and one nonce. -/
theorem nonces_unique {cr : Crypto} {st : Session}
    (h : (machine cr).Reachable (fun st op => Legal st op ∧ Unspent st op) st)
    (hkeys : ∀ b ∈ st.exported, ∀ b' ∈ st.exported, ∀ gen,
      keyOf cr b gen = keyOf cr b' gen → b = b') :
    (st.calls.map fun s => (s.key, s.iv)).Nodup := by
  have hsound := sound_of_reachable h
  have hpairs := List.pairwise_map.mp hsound.distinct
  apply List.pairwise_map.mpr
  apply hpairs.imp_of_mem
  intro s t hs ht hne heq
  obtain ⟨hskey, hsiv, hslt, hsmem⟩ := hsound.calls s hs
  obtain ⟨htkey, htiv, htlt, htmem⟩ := hsound.calls t ht
  rw [Prod.mk.injEq] at heq
  have hnonce : s.nonce = t.nonce := makeIv_injective hslt htlt (by rw [← hsiv, ← htiv, heq.2])
  have hbase : s.base = t.base := by
    apply hkeys _ hsmem _ htmem (s.nonce / 2 ^ 24)
    rw [← hskey, heq.1, htkey, hnonce]
  exact hne (by rw [hbase, hnonce])

/-! ## An upgrade after a downgrade -/

/-- A base, and the keys and seals of the frames below. -/
def sampleBase : List UInt8 := [1, 2, 3, 4, 5, 6, 7, 8, 9, 10, 11, 12, 13, 14, 15, 16]

def sampleKey : List UInt8 :=
  [214, 174, 167, 251, 158, 32, 88, 27, 147, 103, 117, 31, 119, 87, 224, 80]

def sample : Crypto where
  expand secret label context len :=
    if secret = sampleBase ∧ label = "key" ∧ context = [0, 0, 0, 0] ∧ len = 16 then sampleKey else []
  gcm key iv _ data :=
    if key = sampleKey ∧ iv = makeIv 1 ∧ data = [1] then
      ([156], [62, 181, 0, 180, 43, 175, 241, 223, 70, 187, 116, 16, 54, 12, 142, 99])
    else if key = sampleKey ∧ iv = makeIv 1 ∧ data = [2] then
      ([159], [24, 13, 204, 233, 19, 91, 72, 226, 155, 205, 23, 167, 209, 116, 164, 100])
    else if key = sampleKey ∧ iv = makeIv 2 ∧ data = [2] then
      ([98], [16, 59, 33, 193, 86, 22, 7, 70, 246, 236, 202, 34, 15, 242, 133, 230])
    else ([], [])

/-- A session that joined its first epoch and sealed a frame. -/
def joined : Session :=
  (step sample ⟨daveNew 7, [], 0, []⟩ (.binary 30 [0, 0] 1 ⟨[7], fun _ => some sampleBase⟩)).1

def sentOne : Session := (step sample joined (.encrypt [1])).1

theorem legal_of_exports {st : Session} {op : Op} (h : st.exports op = none)
    (hframes : st.frames + 1 < 2 ^ 32) : Legal st op := by
  refine ⟨by simp [h], ?_⟩
  cases op <;> first | exact hframes | trivial

theorem sentOne_reachable :
    (machine sample).Reachable (fun st op => Legal st op ∧ Unspent st op) sentOne := by
  have hjoined : (machine sample).Reachable (fun st op => Legal st op ∧ Unspent st op) joined := by
    refine .step _ (.start ⟨rfl, rfl, rfl, 7, rfl⟩) ⟨⟨fun b _ => List.not_mem_nil, trivial⟩, ?_⟩
    intro v _ _ _ _ s hs
    cases hs
  refine .step _ hjoined ⟨legal_of_exports rfl (by decide), ?_⟩
  intro v hv
  cases hv

/-- Two frames after the first epoch. -/
theorem two_frames_unique :
    let st := (step sample sentOne (.encrypt [2])).1
    st.calls.map (fun s => (s.key, s.iv)) = [(sampleKey, makeIv 1), (sampleKey, makeIv 2)] ∧
      (st.calls.map fun s => (s.key, s.iv)).Nodup := by
  refine ⟨rfl, ?_⟩
  refine @nonces_unique sample _ ?_ ?_
  · refine .step _ sentOne_reachable ⟨legal_of_exports rfl (by decide), ?_⟩
    intro v hv
    cases hv
  · intro b hb b' hb' _ _
    rw [List.mem_singleton.mp hb, List.mem_singleton.mp hb']

/-- A downgrade, an upgrade and a frame: the sender takes the base of the first
epoch again and the nonce is that of the first frame. -/
def upgraded : Session :=
  (step sample (step sample (step sample sentOne (.prepareTransition 0 0)).1
    (.prepareTransition 0 1)).1 (.encrypt [2])).1

theorem upgrade_reuses_nonce :
    (machine sample).Reachable Legal upgraded ∧ upgraded.exported = [sampleBase] ∧
      upgraded.calls.map (fun s => (s.key, s.iv)) =
        [(sampleKey, makeIv 1), (sampleKey, makeIv 1)] ∧
      ¬ (upgraded.calls.map fun s => (s.key, s.iv)).Nodup := by
  have hcalls : upgraded.calls.map (fun s => (s.key, s.iv)) =
      [(sampleKey, makeIv 1), (sampleKey, makeIv 1)] := rfl
  refine ⟨?_, rfl, hcalls, ?_⟩
  · have hsent := sentOne_reachable.mono fun _ _ hop => hop.1
    have hdown := hsent.step (.prepareTransition 0 0) (legal_of_exports rfl (by decide))
    have hup := hdown.step (.prepareTransition 0 1) (legal_of_exports rfl (by decide))
    exact hup.step (.encrypt [2]) (legal_of_exports rfl (by decide))
  · rw [hcalls]
    simp

end Voice
