import StrawOS.Mls.Lineage

/-!
# Proposals that are refused

`mls_process_proposals` edits the queue while it goes through the list of a message: each proposal
is queued, and each revocation applied, before the next one is read, and the commit for the queue
is made at the end.  When that fails somewhere the edits before it stay.
-/

namespace Mls

section

variable (cr : Crypto) {esKey : Bytes} {base : Group} {users : List Nat}

/-- The reference of a revocation at the front of a list that the queue has a proposal for. -/
def nextRevoked (queue : List Proposal) (list : Rd) : Option Nat :=
  match rOpaque list with
  | (some ref, _) => if ref.length = nh then findRef queue ref else none
  | (none, _) => none

/-- The first item of a message is refused, or there is none. -/
def FirstRefused (s : Session) (base : Group) (op : UInt8) (list : Rd) (users : List Nat) : Prop :=
  list.rest = [] ∨
    (op = 0 ∧ ∃ e, nextProposal cr s.esKey base users s.queue.length list = .error e) ∨
    (op = 1 ∧ nextRevoked s.queue list = none) ∨ (op ≠ 0 ∧ op ≠ 1)

/-- All items of a message are accepted, and there is a commit for the queue that they leave, or
nothing to commit. -/
def AllAccepted (rnd : Entropy) (s : Session) (base : Group) (op : UInt8) (list : Rd)
    (users : List Nat) : Prop :=
  (changeQueue cr s base op list users).2 = none ∧
    ((changeQueue cr s base op list users).1 = [] ∨
      ∃ p, (createCommit cr rnd s.idn base (changeQueue cr s base op list users).1).value = .ok p)

/-- A message whose refusal would leave the session alone. -/
def RefusalClean (rnd : Entropy) (s : Session) (data : Bytes) (users : List Nat) : Prop :=
  match s.base, data with
  | some base, op :: data =>
      (rSub (rd data)).1.err = true ∨ rDone (rSub (rd data)).2 = false ∨
        FirstRefused cr s base op (rSub (rd data)).1 users ∨
        AllAccepted cr rnd s base op (rSub (rd data)).1 users
  | _, _ => True

variable {cr}

/-! ## The loops -/

theorem proposalsLoop_length (fuel : Nat) (list : Rd) (queue : List Proposal) :
    queue.length ≤ (proposalsLoop cr esKey base users fuel list queue).1.length := by
  induction fuel generalizing list queue with
  | zero => exact le_rfl
  | succ fuel ih =>
    rw [proposalsLoop]
    split
    · exact le_rfl
    · grind

theorem revokeLoop_length (fuel : Nat) (list : Rd) (queue : List Proposal) :
    (revokeLoop fuel list queue).1.length ≤ queue.length := by
  induction fuel generalizing list queue with
  | zero => exact le_rfl
  | succ fuel ih =>
    rw [revokeLoop]
    split
    · exact le_rfl
    · grind

theorem findRef_lt {queue : List Proposal} {ref : Bytes} {i : Nat} (h : findRef queue ref = some i) :
    i < queue.length := by
  obtain ⟨j, hj, rfl⟩ := Option.map_eq_some_iff.mp h
  have hlt := (List.findIdx?_eq_some_iff_findIdx_eq.mp hj).1
  rw [List.length_reverse] at hlt
  omega

/-- **The queue** is what it was exactly if the first item is refused. -/
theorem changeQueue_same {s : Session} {op : UInt8} {list : Rd} :
    (changeQueue cr s base op list users).1 = s.queue ↔ FirstRefused cr s base op list users := by
  unfold FirstRefused changeQueue
  by_cases hend : list.rest = []
  · simp only [hend, true_or, iff_true]
    split
    · rw [proposalsLoop, if_pos hend]
    · split
      · rw [revokeLoop, if_pos hend]
      · rfl
  · rw [or_iff_right hend]
    by_cases hop : op = 0
    · rw [if_pos hop, proposalsLoop, if_neg hend]
      rcases hnext : nextProposal cr s.esKey base users s.queue.length list with e | ⟨list', p⟩
      · simp [hop]
      · have hlonger := @proposalsLoop_length cr s.esKey base users list.rest.length list'
          (s.queue ++ [p])
        have hne : (proposalsLoop cr s.esKey base users list.rest.length list'
            (s.queue ++ [p])).1 ≠ s.queue := by
          intro heq
          rw [heq, List.length_append, List.length_singleton] at hlonger
          omega
        simp [hop, hne]
    · by_cases hop1 : op = 1
      · rw [if_pos hop1, revokeLoop, if_neg hend]
        rcases href : rOpaque list with ⟨_ | ref, list'⟩
        · simp [hop1, nextRevoked, href]
        · by_cases hlen : ref.length = nh
          · rcases hfound : findRef s.queue ref with _ | i
            · simp [hop1, nextRevoked, href, hlen, hfound]
            · have hshorter := revokeLoop_length list.rest.length list' (s.queue.eraseIdx i)
              have hlt := findRef_lt hfound
              have herase := List.length_eraseIdx_of_lt hlt
              have hne : (revokeLoop list.rest.length list' (s.queue.eraseIdx i)).1 ≠ s.queue := by
                intro heq
                rw [heq] at hshorter
                omega
              simp [hop1, nextRevoked, href, hlen, hfound, hne]
          · simp [hop1, nextRevoked, href, hlen]
      · simp [hop, hop1]

end

/-- What `mls_process_proposals` does with the queue that the items leave. -/
theorem prepareCommit_result {cr : Crypto} (rnd : Entropy) (s : Session) (base : Group) :
    (s.queue = [] → (prepareCommit cr rnd s base).value.1 = 0) ∧
    (s.queue ≠ [] → (prepareCommit cr rnd s base).value =
      match (createCommit cr rnd s.idn base s.queue).value with
      | .ok p => (1, p.out, { s with outState := some p.state, outCommit := p.commit })
      | .error e => (-1, [], s.fail e)) := by
  constructor
  · intro hempty
    simp [prepareCommit, hempty]
  · intro hne
    have hsome : s.queue.isEmpty = false := by simpa using hne
    rw [prepareCommit, hsome]
    rcases hvalue : (createCommit cr rnd s.idn base s.queue).value with e | p
    · simp [hvalue]
    · simp [hvalue]

/-- **Refused proposals** leave the queue and what was prepared as they were exactly if the first
item is refused or there is none; otherwise the items in front of the one that is refused stay
applied, and all of them where only the commit cannot be made. -/
theorem proposals_refused_unchanged (cr : Crypto) (rnd : Entropy) (s : Session) (data : Bytes)
    (users : List Nat) :
    ((mlsProcessProposals cr rnd s data users).value.1 = -1 →
      (mlsProcessProposals cr rnd s data users).value.2.2.queue = s.queue ∧
      (mlsProcessProposals cr rnd s data users).value.2.2.outState = s.outState ∧
      (mlsProcessProposals cr rnd s data users).value.2.2.outCommit = s.outCommit) ↔
      RefusalClean cr rnd s data users := by
  unfold mlsProcessProposals RefusalClean
  rcases hbase : s.base with _ | base
  · simp [Session.fail]
  rcases data with _ | ⟨op, data⟩
  · simp [Session.fail]
  obtain ⟨⟨list, r⟩, hsub⟩ : ∃ sub, rSub (rd data) = sub := ⟨_, rfl⟩
  simp only [hsub]
  by_cases hmalformed : (list.err || !rDone r) = true
  · have hclean : list.err = true ∨ rDone r = false := by simpa using hmalformed
    simp [Session.fail, hclean]
    tauto
  · have hwell : list.err = false ∧ rDone r = true := by simpa using hmalformed
    rw [if_neg hmalformed, ← changeQueue_same]
    rcases hqueue : changeQueue cr s base op list users with ⟨queue, _ | e⟩
    · obtain ⟨hempty, hnonempty⟩ := @prepareCommit_result cr rnd { s with queue := queue } base
      simp only [AllAccepted, hqueue, hwell]
      by_cases hnil : queue = []
      · subst hnil
        simp only [hempty rfl]
        simp
      · have hresult := hnonempty hnil
        rcases hcommit : (createCommit cr rnd s.idn base queue).value with e | p
        · rw [hcommit] at hresult
          simp only [hresult]
          simp [hnil, Session.fail]
        · rw [hcommit] at hresult
          simp only [hresult]
          simp
    · simp [Session.fail, hwell, AllAccepted, hqueue]

/-- The proposal to remove a leaf that is not there is refused when the commit is made, and stays in
the queue. -/
theorem refused_proposal_stays :
    ¬∀ s, (machine oneSender).Reachable (fun _ _ => True) s →
      ∀ (rnd : Entropy) (data : Bytes) (users : List Nat),
      (mlsProcessProposals oneSender rnd s data users).value.1 = -1 →
        (mlsProcessProposals oneSender rnd s data users).value.2.2.queue = s.queue := by
  intro h
  have hqueue := h ((machine oneSender).run newSession oneSenderRun)
    ((Machine.Reachable.start (start_newSession _)).run _ fun _ _ _ _ => trivial)
    zeroEntropy (removeMessage 5) [] (by decide +kernel)
  have hlength := congrArg List.length hqueue
  exact absurd hlength (by decide +kernel)

end Mls
