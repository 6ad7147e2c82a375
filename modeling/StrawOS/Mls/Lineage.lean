import StrawOS.Mls.Session

/-!
# What a session was built on

A session has a group or a pending one, its queue was checked against that group, and
the state that it prepared was made of that group.

`mls_set_external_sender` breaks this: a second sender gets a new pending group and a
new key, while `clear_pending` is not called, so that the queue and the prepared commit
of the first one stay.  It holds in the runs where no other key comes while proposals
are queued, and no external sender while a commit is prepared.
-/

namespace Mls

variable (cr : Crypto)

/-- A proposal that a message for the group, signed with the key, was queued as. -/
def Proposal.VerifiedFor (esKey : Bytes) (base : Group) (p : Proposal) : Prop :=
  ∃ m count users, (checkExternalProposal cr esKey base m).value = .ok () ∧
    (queueProposal cr count m users).value = .ok p

/-- The next state of a group, as `create_commit` made it. -/
structure Group.Succeeds (idn : Identity) (base ng : Group) : Prop where
  built : ∃ rnd queue p, (createCommit cr rnd idn base queue).value = .ok p ∧ p.state = ng
  epoch : ng.epoch = (base.epoch + 1) % 2 ^ 64
  gid : ng.gid = base.gid
  ext : ng.ext = base.ext

/-- A group or a pending group, and the queue and the prepared state belong to it. -/
structure Session.Consistent (s : Session) : Prop where
  one : s.group = none ∨ s.pending = none
  queue : ∀ p ∈ s.queue, ∃ base, s.base = some base ∧ p.VerifiedFor cr s.esKey base
  out : ∀ ng, s.outState = some ng → ∃ base, s.base = some base ∧ base.Succeeds cr s.idn ng

/-- The pending group is new, and there is no group beside it. -/
def Session.PendingNew (s : Session) : Prop :=
  ∀ g, s.pending = some g → s.group = none ∧ g.gid = s.gid ∧ g.epoch = 0

/-- What every call keeps. -/
structure Session.Kept (s : Session) : Prop where
  consistent : s.Consistent cr
  pendingNew : s.PendingNew

/-- Whether a message names an external sender: a key, a credential and no more. -/
def namesSender (data : Bytes) : Bool :=
  match rFixed (rd data) npk with
  | (some _, r) => (rU16 r).1 = 1 && rDone (rSub (rU16 r).2).2
  | (none, _) => false

/-- No other key while proposals are queued, and no external sender while a commit is
prepared. -/
def SenderInTime (s : Session) : Call → Prop
  | .externalSender _ data => s.group = none →
      (s.queue = [] ∨ ∀ key, (rFixed (rd data) npk).1 = some key → key = s.esKey) ∧
      (s.outState = none ∨ namesSender data = false)
  | _ => True

/-! ## Prepared states -/

variable {cr}

theorem finishEpoch_fields (ng old : Group) (content sig commitSecret : Bytes) :
    (finishEpoch cr ng old content sig commitSecret).value.1.epoch = (old.epoch + 1) % 2 ^ 64 ∧
    (finishEpoch cr ng old content sig commitSecret).value.1.gid = ng.gid ∧
    (finishEpoch cr ng old content sig commitSecret).value.1.ext = ng.ext :=
  ⟨rfl, rfl, rfl⟩

/-- **A prepared commit** leads to the next epoch of the same group. -/
theorem createCommit_succeeds {rnd : Entropy} {idn : Identity} {base : Group}
    {queue : List Proposal} {p : Prepared} (h : (createCommit cr rnd idn base queue).value = .ok p) :
    base.Succeeds cr idn p.state := by
  have hbuilt := h
  obtain ⟨⟨t, added, hasRemove⟩, -, h⟩ := Attempt.ok_bind.mp h
  obtain ⟨⟨t, path⟩, -, h⟩ := Attempt.ok_bind.mp h
  obtain ⟨oldCtx, -, h⟩ := Attempt.ok_bind.mp h
  obtain ⟨⟨ng, keys⟩, hng, h⟩ := Attempt.ok_bind.mp h
  -- Only the tree, the transcript hash, the epoch and the secrets differ from the base.
  have hstate : p.state = ng := by
    dsimp only at h
    split at h
    · obtain rfl := Attempt.ok_pure.mp h
      rfl
    · obtain ⟨ctx, -, h⟩ := Attempt.ok_bind.mp h
      obtain rfl := Attempt.ok_pure.mp h
      rfl
  have hng : (finishEpoch cr { base with tree := t } base _ _ _).value.1 = ng :=
    congrArg Prod.fst (Attempt.ok_lift.mp hng)
  obtain ⟨hepoch, hgid, hext⟩ := @finishEpoch_fields cr { base with tree := t } base _ _ _
  rw [hng] at hepoch hgid hext
  rw [hstate]
  exact ⟨⟨rnd, queue, p, hbuilt, hstate⟩, hepoch, hgid, hext⟩

/-! ## The queue -/

theorem nextProposal_verified {esKey : Bytes} {base : Group} {users : List Nat} {count : Nat}
    {list list' : Rd} {p : Proposal}
    (h : nextProposal cr esKey base users count list = .ok (list', p)) :
    p.VerifiedFor cr esKey base := by
  rw [nextProposal] at h
  rcases hmsg : parseProposalMessage list with ⟨_ | m, rest⟩
  · rw [hmsg] at h
    cases h
  · rw [hmsg] at h
    dsimp only at h
    rcases hvalue : (acceptProposal cr esKey base users count m).value with e | q
    · rw [hvalue] at h
      cases h
    · rw [hvalue] at h
      obtain ⟨u, hcheck, hqueue⟩ := Attempt.ok_bind.mp hvalue
      cases h
      exact ⟨m, count, users, hcheck, hqueue⟩

theorem proposalsLoop_mem {esKey : Bytes} {base : Group} {users : List Nat} {fuel : Nat} {list : Rd}
    {queue : List Proposal} {p : Proposal}
    (hp : p ∈ (proposalsLoop cr esKey base users fuel list queue).1) :
    p ∈ queue ∨ p.VerifiedFor cr esKey base := by
  induction fuel generalizing list queue with
  | zero => exact Or.inl hp
  | succ fuel ih =>
    rw [proposalsLoop] at hp
    by_cases hend : list.rest = []
    · rw [if_pos hend] at hp
      exact Or.inl hp
    · rw [if_neg hend] at hp
      rcases hnext : nextProposal cr esKey base users queue.length list with e | ⟨list', q⟩
      · rw [hnext] at hp
        exact Or.inl hp
      · rw [hnext] at hp
        rcases ih hp with hmem | hverified
        · rcases List.mem_append.mp hmem with hold | hnew
          · exact Or.inl hold
          · rw [List.mem_singleton.mp hnew]
            exact Or.inr (nextProposal_verified hnext)
        · exact Or.inr hverified

theorem revokeLoop_mem {fuel : Nat} {list : Rd} {queue : List Proposal} {p : Proposal}
    (hp : p ∈ (revokeLoop fuel list queue).1) : p ∈ queue := by
  induction fuel generalizing list queue with
  | zero => exact hp
  | succ fuel ih =>
    rw [revokeLoop] at hp
    split at hp
    · exact hp
    · split at hp
      · exact hp
      · split at hp
        · exact hp
        · split at hp
          · exact hp
          · exact List.mem_of_mem_eraseIdx (ih hp)

theorem changeQueue_mem {s : Session} {base : Group} {op : UInt8} {list : Rd} {users : List Nat}
    {p : Proposal} (hp : p ∈ (changeQueue cr s base op list users).1) :
    p ∈ s.queue ∨ p.VerifiedFor cr s.esKey base := by
  rw [changeQueue] at hp
  split at hp
  · exact proposalsLoop_mem hp
  · split at hp
    · exact Or.inl (revokeLoop_mem hp)
    · exact Or.inl hp

/-- A queue that was checked for a group is checked for any group of the same epoch. -/
theorem Proposal.VerifiedFor.congr {esKey : Bytes} {base base' : Group} {p : Proposal}
    (h : p.VerifiedFor cr esKey base) (hgid : base'.gid = base.gid)
    (hepoch : base'.epoch = base.epoch) : p.VerifiedFor cr esKey base' := by
  obtain ⟨m, count, users, hcheck, hqueue⟩ := h
  refine ⟨m, count, users, ?_, hqueue⟩
  rw [checkExternalProposal] at hcheck ⊢
  rw [hgid, hepoch]
  exact hcheck

/-! ## Calls -/

theorem kept_of_idle {s : Session} (hnew : s.PendingNew) (hqueue : s.queue = [])
    (hout : s.outState = none) : s.Kept cr := by
  refine ⟨⟨?_, ?_, ?_⟩, hnew⟩
  · cases hpending : s.pending with
    | none => exact Or.inr rfl
    | some g => exact Or.inl (hnew g hpending).1
  · intro p hp
    rw [hqueue] at hp
    exact absurd hp List.not_mem_nil
  · intro ng hng
    rw [hout] at hng
    cases hng

theorem fail_kept {s : Session} (h : s.Kept cr) (e : String) : (s.fail e).Kept cr :=
  ⟨⟨h.consistent.one, h.consistent.queue, h.consistent.out⟩, h.pendingNew⟩

theorem adopt_kept (s : Session) (g : Group) : (adopt s g).Kept cr :=
  kept_of_idle (fun _ h => nomatch h) rfl rfl

/-- What `create_pending_group` changes. -/
theorem createPendingGroup_cases (rnd : Entropy) (s : Session) :
    (createPendingGroup cr rnd s).value = s ∨
    ∃ g, (createPendingGroup cr rnd s).value = { s with pending := some g } ∧
      g.gid = s.gid ∧ g.epoch = 0 := by
  rw [createPendingGroup]
  split
  · exact Or.inl rfl
  · split
    · exact Or.inr ⟨_, rfl, rfl, rfl⟩
    · exact Or.inl rfl

theorem mlsSessionInit_kept (rnd : Entropy) (s : Session) :
    (mlsSessionInit cr rnd s).value.Kept cr := by
  rw [mlsSessionInit]
  split
  · rcases createPendingGroup_cases rnd _ with hsame | ⟨g, hnew, hgid, hepoch⟩
    · rw [hsame]
      exact kept_of_idle (fun _ h => nomatch h) rfl rfl
    · rw [hnew]
      apply kept_of_idle ?_ rfl rfl
      intro g' hg'
      obtain rfl := Option.some.inj hg'
      exact ⟨rfl, hgid, hepoch⟩
  · exact kept_of_idle (fun _ h => nomatch h) rfl rfl

/-- A new pending group has the identifier and the epoch of the one before. -/
theorem replacePending_kept {s : Session} {g : Group} (h : s.Kept cr) (hgroup : s.group = none)
    (hout : s.outState = none) (hgid : g.gid = s.gid) (hepoch : g.epoch = 0) :
    ({ s with pending := some g } : Session).Kept cr := by
  refine ⟨⟨Or.inl hgroup, ?_, ?_⟩, ?_⟩
  · intro p hp
    obtain ⟨base, hbase, hverified⟩ := h.consistent.queue p hp
    have hpending : s.pending = some base := by
      simpa [Session.base, hgroup] using hbase
    obtain ⟨-, hgid', hepoch'⟩ := h.pendingNew base hpending
    exact ⟨g, rfl, hverified.congr (hgid.trans hgid'.symm) (hepoch.trans hepoch'.symm)⟩
  · intro ng hng
    rw [hout] at hng
    cases hng
  · intro g' hg'
    obtain rfl := Option.some.inj hg'
    exact ⟨hgroup, hgid, hepoch⟩

/-- **An external sender** in time: the queue keeps its key, and no prepared commit its
base. -/
theorem mlsSetExternalSender_kept {rnd : Entropy} {s : Session} {data : Bytes} (h : s.Kept cr)
    (hg : SenderInTime s (.externalSender rnd data)) :
    (mlsSetExternalSender cr rnd s data).value.2.Kept cr := by
  rw [mlsSetExternalSender]
  by_cases hgroup : s.group = none
  · obtain ⟨hqueue, hout⟩ := hg hgroup
    rw [if_neg (by simp [hgroup])]
    rcases hkey : rFixed (rd data) npk with ⟨_ | key, r⟩
    · exact fail_kept h _
    · -- The new key is the old one, or there is nothing to check with it.
      have hsame : s.queue = [] ∨ key = s.esKey := by grind
      have hkept : ({ s with esKey := key } : Session).Kept cr := by
        refine ⟨⟨h.consistent.one, ?_, h.consistent.out⟩, h.pendingNew⟩
        intro p hp
        rcases hsame with hempty | rfl
        · exact absurd (hempty ▸ hp : p ∈ []) List.not_mem_nil
        · exact h.consistent.queue p hp
      have hnames : namesSender data = ((rU16 r).1 = 1 && rDone (rSub (rU16 r).2).2 : Bool) := by
        rw [namesSender, hkey]
      dsimp only
      split
      · exact fail_kept hkept _
      · split
        · exact fail_kept hkept _
        · have hout : s.outState = none := by
            rcases hout with hout | hout
            · exact hout
            · simp_all
          rw [Logged.value_bind, Logged.value_pure]
          rcases createPendingGroup_cases rnd _ with heq | ⟨g, heq, hgid, hepoch⟩
          · rw [heq]
            exact ⟨⟨hkept.consistent.one, hkept.consistent.queue, hkept.consistent.out⟩,
              hkept.pendingNew⟩
          · rw [heq]
            exact replacePending_kept
              ⟨⟨hkept.consistent.one, hkept.consistent.queue, hkept.consistent.out⟩,
                hkept.pendingNew⟩ hgroup hout hgid hepoch
  · rw [if_pos (by simpa [Option.isSome_iff_ne_none] using hgroup)]
    exact fail_kept h _

theorem mlsKeyPackage_kept {rnd : Entropy} {s : Session} (h : s.Kept cr) :
    (mlsKeyPackage cr rnd s).2.Kept cr := by
  rw [mlsKeyPackage]
  split
  · exact fail_kept h _
  · split
    · exact fail_kept h _
    · exact ⟨⟨h.consistent.one, h.consistent.queue, h.consistent.out⟩, h.pendingNew⟩

theorem prepareCommit_kept {rnd : Entropy} {s : Session} {base : Group} (h : s.Kept cr)
    (hbase : s.base = some base) : (prepareCommit cr rnd s base).value.2.2.Kept cr := by
  rw [prepareCommit]
  split
  · exact ⟨⟨h.consistent.one, h.consistent.queue, fun _ hng => nomatch hng⟩, h.pendingNew⟩
  · rcases hvalue : (createCommit cr rnd s.idn base s.queue).value with e | p
    · simp only [Logged.value_bind, Attempt.value_run, hvalue]
      exact fail_kept h _
    · simp only [Logged.value_bind, Attempt.value_run, hvalue]
      refine ⟨⟨h.consistent.one, h.consistent.queue, ?_⟩, h.pendingNew⟩
      intro ng hng
      obtain rfl := Option.some.inj hng
      exact ⟨base, hbase, createCommit_succeeds hvalue⟩

/-- **Proposals**: what is queued was checked for the base, and the commit is made of it. -/
theorem mlsProcessProposals_kept {rnd : Entropy} {s : Session} {data : Bytes} {users : List Nat}
    (h : s.Kept cr) : (mlsProcessProposals cr rnd s data users).value.2.2.Kept cr := by
  unfold mlsProcessProposals
  split
  · exact fail_kept h _
  · exact fail_kept h _
  · rename_i base op data hbase
    rcases rSub (rd data) with ⟨list, r⟩
    dsimp only
    split
    · exact fail_kept h _
    · rcases hqueue : changeQueue cr s base op list users with ⟨queue, e⟩
      have hkept : ({ s with queue := queue } : Session).Kept cr := by
        refine ⟨⟨h.consistent.one, ?_, h.consistent.out⟩, h.pendingNew⟩
        intro p hp
        have hp : p ∈ (changeQueue cr s base op list users).1 := by
          rw [hqueue]
          exact hp
        rcases changeQueue_mem hp with hold | hverified
        · exact h.consistent.queue p hold
        · exact ⟨base, hbase, hverified⟩
      cases e with
      | none => exact prepareCommit_kept hkept hbase
      | some e => exact fail_kept hkept e

theorem processOther_kept {s : Session} {data : Bytes} (h : s.Kept cr) :
    (processOther cr s data).value.2.Kept cr := by
  rw [processOther]
  split
  · exact h
  · rename_i base _
    split
    · exact fail_kept h _
    · split
      · exact fail_kept h _
      · rename_i m _
        rcases hvalue : (handleCommit cr base s.queue m).value with e | ng
        · simp only [Logged.value_bind, Attempt.value_run, hvalue]
          exact fail_kept h _
        · simp only [Logged.value_bind, Attempt.value_run, hvalue]
          exact adopt_kept s ng

theorem mlsProcessCommit_kept {s : Session} {data : Bytes} (h : s.Kept cr) :
    (mlsProcessCommit cr s data).value.2.Kept cr := by
  rw [mlsProcessCommit]
  split
  · exact h
  · split
    · rename_i ng _
      split
      · exact adopt_kept s ng
      · exact processOther_kept h
    · exact processOther_kept h

theorem mlsProcessWelcome_kept {s : Session} {data : Bytes} {users : Option (List Nat)}
    (h : s.Kept cr) : (mlsProcessWelcome cr s data users).value.2.Kept cr := by
  rw [mlsProcessWelcome]
  split
  · exact fail_kept h _
  · split
    · exact fail_kept h _
    · split
      · exact fail_kept h _
      · rw [Logged.value_bind]
        split
        · exact adopt_kept s _
        · exact fail_kept h _

/-! ## Runs -/

theorem call_kept {s : Session} {c : Call} (h : s.Kept cr) (hg : SenderInTime s c) :
    (call cr s c).value.Kept cr := by
  cases c with
  | init rnd => exact mlsSessionInit_kept rnd s
  | externalSender rnd data => exact mlsSetExternalSender_kept h hg
  | keyPackage rnd => exact mlsKeyPackage_kept h
  | proposals rnd data users => exact mlsProcessProposals_kept h
  | commit data => exact mlsProcessCommit_kept h
  | welcome data users => exact mlsProcessWelcome_kept h

/-- **The session of a member**, in every run in which no other key comes while proposals
are queued and no external sender while a commit is prepared: there is a group or a
pending one, the queue was checked for it, and the prepared state is its successor. -/
theorem session_consistent {s : Session} (h : (machine cr).Reachable SenderInTime s) :
    s.Consistent cr := by
  have hkept : s.Kept cr := by
    refine h.invariant ?_ ?_
    · rintro s ⟨userId, groupId, sk, pk, -, rfl⟩
      exact kept_of_idle (fun _ h => nomatch h) rfl rfl
    · intro s c hs hg
      exact call_kept hs hg
  exact hkept.consistent

/-! ## A second external sender -/

/-- A key of one byte over and over. -/
def plainKey (b : UInt8) : Bytes := List.replicate npk b

/-- The message that names an external sender with a key. -/
def senderMessage (b : UInt8) : Bytes := wOpaque (plainKey b) ++ wU16 1 ++ wVarint 0

/-- The message of the external sender that removes a leaf of the new group. -/
def removeMessage (leaf : Nat) : Bytes :=
  wU8 0 ++ wOpaque (wU16 1 ++ wU16 wirePublic ++ wOpaque (wU64 0) ++ wU64 0 ++ wU8 2 ++ wU32 0 ++
    wVarint 0 ++ wU8 2 ++ wU16 propRemove ++ wU32 leaf ++ wOpaque [])

/-- BearSSL, where the first sender signs. -/
def oneSender : Crypto := plainCrypto fun pk => pk = plainKey 1

/-- A new session. -/
def newSession : Session := mlsSessionNew 1 0 [] (plainKey 0)

theorem start_newSession (trusted : Bytes → Bool) :
    (machine (plainCrypto trusted)).start newSession :=
  ⟨1, 0, [], plainKey 0, rfl, rfl⟩

/-- The session with its first external sender. -/
def oneSenderRun : List Call := [.init zeroEntropy, .externalSender zeroEntropy (senderMessage 1)]

/-- A proposal of the first external sender, and then the second one. -/
def secondSenderRun : List Call :=
  oneSenderRun ++ [.proposals zeroEntropy (removeMessage 5) [],
    .externalSender zeroEntropy (senderMessage 2)]

/-- The first external sender of a session is in time. -/
theorem first_sender_consistent :
    ((machine oneSender).run newSession oneSenderRun).pending.isSome = true ∧
      ((machine oneSender).run newSession oneSenderRun).Consistent oneSender := by
  refine ⟨by decide +kernel, ?_⟩
  apply session_consistent
  have hinit := Machine.Reachable.step (.init zeroEntropy)
    (Machine.Reachable.start (start_newSession fun pk => pk = plainKey 1))
    (show SenderInTime newSession (.init zeroEntropy) from trivial)
  rw [oneSenderRun, Machine.run, Machine.run, Machine.run]
  apply Machine.Reachable.step _ hinit
  intro _
  constructor
  · exact Or.inl (List.eq_nil_of_length_eq_zero (by decide +kernel))
  · exact Or.inl (Option.isNone_iff_eq_none.mp (by decide +kernel))

theorem verifiedFor_key {esKey : Bytes} {base : Group} {p : Proposal}
    (h : p.VerifiedFor cr esKey base) : ∃ label content sig,
      verifyWithLabel cr esKey label content sig = true := by
  obtain ⟨m, count, users, hcheck, -⟩ := h
  obtain ⟨_, -, hcheck⟩ := Attempt.ok_bind.mp hcheck
  obtain ⟨_, -, hcheck⟩ := Attempt.ok_bind.mp hcheck
  obtain ⟨_, -, hcheck⟩ := Attempt.ok_bind.mp hcheck
  obtain ⟨_, -, hcheck⟩ := Attempt.ok_bind.mp hcheck
  exact ⟨_, _, _, Attempt.ok_guard.mp hcheck⟩

/-- A second external sender leaves the proposal of the first one in the queue. -/
theorem second_sender_keeps_queue : ∃ s, (machine oneSender).Reachable (fun _ _ => True) s ∧
    ¬ s.Consistent oneSender := by
  refine ⟨(machine oneSender).run newSession secondSenderRun, ?_, ?_⟩
  · exact (Machine.Reachable.start (start_newSession _)).run _ fun _ _ _ _ => trivial
  · intro hconsistent
    have hlength : ((machine oneSender).run newSession secondSenderRun).queue.length = 1 := by
      decide +kernel
    have hkey : ((machine oneSender).run newSession secondSenderRun).esKey = plainKey 2 := by
      decide +kernel
    obtain ⟨p, hp⟩ := List.exists_mem_of_length_pos (hlength ▸ Nat.one_pos)
    obtain ⟨base, -, hverified⟩ := hconsistent.queue p hp
    rw [hkey] at hverified
    obtain ⟨label, content, sig, htrue⟩ := verifiedFor_key hverified
    rw [show verifyWithLabel oneSender (plainKey 2) label content sig =
      decide (plainKey 2 = plainKey 1) from rfl] at htrue
    exact absurd htrue (by decide)

end Mls
