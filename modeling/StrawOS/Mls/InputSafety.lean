import StrawOS.Mls.Bounds
import StrawOS.Mls.Lineage

/-!
# No index outside the tree

The trees of a session are sound: the own one, the pending one and the prepared one.
A call touches only nodes inside of them and keeps them sound, whatever data arrives,
unless a welcome brings a tree whose parents list foreign leaves.
-/

namespace Mls

variable {cr : Crypto}

/-- A group whose tree is sound. -/
def Group.Sound (g : Group) : Prop := ∃ d, g.tree.SoundFor d g.me

/-! ## Proposals -/

theorem bounded_hasUser {d : Nat} {t : Tree} (hleaves : t.leaves = 2 ^ d) (uid : Nat) {ls : List Nat}
    (hls : ∀ l ∈ ls, l < 2 ^ d) : Logged.Meets Bounded (fun _ => True) (hasUser t uid ls) := by
  induction ls with
  | nil => exact .pure trivial
  | cons l ls ih =>
    apply (bounded_get hleaves (leaf_index (hls l List.mem_cons_self))).bind
    intro n _
    split
    · exact .pure trivial
    · exact ih fun l' hl' => hls l' (List.mem_cons_of_mem _ hl')

theorem bounded_applyRemove {me : Nat} {acc : Tree × Bool} (h : ∃ d, acc.1.SoundFor d me)
    (p : Proposal) :
    Attempt.Meets Bounded (fun r => ∃ d, r.1.SoundFor d me) (applyRemove me acc p) := by
  obtain ⟨d, h⟩ := h
  rw [applyRemove]
  split
  · exact .pure ⟨d, h⟩
  · apply Attempt.Meets.guard_bind
    intro hlt
    have hl : p.removed < 2 ^ d := by
      rw [← h.leaves]
      exact of_decide_eq_true hlt
    apply Attempt.Meets.lift_bind (bounded_get h.leaves (leaf_index hl))
    intro n _
    apply Attempt.Meets.guard_bind
    intro _
    apply Attempt.Meets.guard_bind
    intro hne
    apply Attempt.Meets.lift_bind (bounded_treeRemove h hl (of_decide_eq_true hne))
    intro t ht
    exact .pure ht

theorem bounded_applyAdd {me : Nat} {acc : Tree × List Added} (h : ∃ d, acc.1.SoundFor d me)
    (p : Proposal) :
    Attempt.Meets Bounded (fun r => ∃ d, r.1.SoundFor d me) (applyAdd cr acc p) := by
  obtain ⟨d, h⟩ := h
  rw [applyAdd]
  split
  · exact .pure ⟨d, h⟩
  · apply Attempt.Meets.require_bind
    intro initKey _
    apply Attempt.Meets.require_bind
    intro v _
    obtain ⟨v, r'⟩ := v
    apply Attempt.Meets.lift_bind (bounded_hasUser h.leaves v.uid (by
      intro l hl
      rw [List.mem_range, h.leaves] at hl
      exact hl))
    intro dup _
    apply Attempt.Meets.guard_bind
    intro _
    apply Attempt.Meets.lift_bind (bounded_treeAdd h v)
    intro added hadded
    apply Attempt.Meets.require_bind
    intro tl htl
    obtain ⟨t, leaf⟩ := tl
    exact .pure (hadded t leaf htl)

theorem bounded_applyProposals {g : Group} (h : g.Sound) (props : List Proposal) :
    Attempt.Meets Bounded (fun r => ∃ d, r.1.SoundFor d g.me) (applyProposals cr g props) := by
  have hstart : ∃ d, (g.tree, false).1.SoundFor d g.me := h
  apply (Attempt.Meets.foldlM (Q := fun r : Tree × Bool => ∃ d, r.1.SoundFor d g.me) hstart
    fun acc hacc p _ => bounded_applyRemove hacc p).bind
  intro acc hacc
  obtain ⟨t, hasRemove⟩ := acc
  have hmid : ∃ d, (t, ([] : List Added)).1.SoundFor d g.me := hacc
  apply (Attempt.Meets.foldlM (Q := fun r : Tree × List Added => ∃ d, r.1.SoundFor d g.me) hmid
    fun acc hacc p _ => bounded_applyAdd hacc p).bind
  intro acc hacc
  exact .pure hacc

/-! ## Commits -/

theorem bounded_groupCurrentContext {g : Group} (h : g.Sound) :
    Logged.Meets Bounded (fun _ => True) (groupCurrentContext cr g) := by
  obtain ⟨d, h⟩ := h
  apply (bounded_treeRootHash h.depth h.leaves).bind
  intro th _
  exact .pure trivial

theorem bounded_finishEpoch {ng : Group} (h : ng.Sound) (old : Group)
    (content sig commitSecret : Bytes) :
    Logged.Meets Bounded (fun r => r.1.Sound) (finishEpoch cr ng old content sig commitSecret) := by
  apply (bounded_groupCurrentContext (g := { ng with
    cth := cr.sha256 (old.ith ++ wU16 wirePublic ++ content ++ wOpaque sig)
    epoch := (old.epoch + 1) % 2 ^ 64 }) h).bind
  intro ctx _
  exact .pure h

theorem bounded_commitPath {rnd : Entropy} {idn : Identity} {ng : Group} (h : ng.Sound)
    (exclude : List Nat) (pc : PathContext) (withPath : Bool) :
    Attempt.Meets Bounded (fun r => ∃ d, r.1.SoundFor d ng.me)
      (commitPath cr rnd idn ng exclude pc withPath) := by
  obtain ⟨d, h⟩ := h
  rw [commitPath]
  split
  · apply (bounded_createUpdatePath h rnd idn exclude pc).bind
    intro p hp
    exact .pure ⟨d, hp⟩
  · exact .pure ⟨d, h⟩

/-- **Preparing a commit.** -/
theorem bounded_createCommit {base : Group} (h : base.Sound) (rnd : Entropy) (idn : Identity)
    (queue : List Proposal) :
    Attempt.Meets Bounded (fun p => p.state.Sound) (createCommit cr rnd idn base queue) := by
  apply (bounded_applyProposals h queue).bind
  intro r hr
  obtain ⟨t, added, hasRemove⟩ := r
  have hchanged : Group.Sound { base with tree := t } := hr
  apply (bounded_commitPath hchanged _ _ _).bind
  intro r hr
  obtain ⟨t, path⟩ := r
  have hupdated : Group.Sound { base with tree := t } := hr
  apply Attempt.Meets.lift_bind (bounded_groupCurrentContext h)
  intro oldCtx _
  apply Attempt.Meets.lift_bind (bounded_finishEpoch hupdated base _ _ _)
  intro r hng
  dsimp only
  split
  · exact .pure hng
  · apply Attempt.Meets.lift_bind (bounded_groupCurrentContext hng)
    intro ctx _
    exact .pure hng

theorem bounded_checkCommit {base : Group} (h : base.Sound) (m : PublicMessage) :
    Attempt.Meets Bounded (fun _ => True) (checkCommit cr base m) := by
  obtain ⟨d, hd⟩ := h
  apply Attempt.Meets.guard_bind
  intro _
  apply Attempt.Meets.guard_bind
  intro _
  apply Attempt.Meets.guard_bind
  intro _
  apply Attempt.Meets.guard_bind
  intro hlt
  have hl : m.sender < 2 ^ d := by
    rw [← hd.leaves]
    exact of_decide_eq_true hlt
  apply Attempt.Meets.lift_bind (bounded_get hd.leaves (leaf_index hl))
  intro n _
  apply Attempt.Meets.guard_bind
  intro _
  apply Attempt.Meets.lift_bind (bounded_groupCurrentContext ⟨d, hd⟩)
  intro oldCtx _
  apply Attempt.Meets.guard_bind
  intro _
  exact Attempt.Meets.guard _ fun _ => trivial

theorem bounded_refsLoop (queue : List Proposal) (fuel : Nat) (list : Rd) (props : List Proposal) :
    Attempt.Meets Bounded (fun _ => True) (refsLoop queue fuel list props) := by
  induction fuel generalizing list props with
  | zero => exact .pure trivial
  | succ fuel ih =>
    rw [refsLoop]
    split
    · apply Attempt.Meets.guard_bind
      intro _
      exact .pure trivial
    · apply Attempt.Meets.guard_bind
      intro _
      apply Attempt.Meets.require_bind
      intro ref _
      obtain ⟨ref, r⟩ := ref
      apply Attempt.Meets.guard_bind
      intro _
      apply Attempt.Meets.require_bind
      intro i _
      apply Attempt.Meets.require_bind
      intro p _
      exact ih r _

theorem bounded_followPath {ng : Group} (h : ng.Sound) (sender hasPath : Nat) (r : Rd)
    (exclude : List Nat) (pc : PathContext) :
    Attempt.Meets Bounded (fun p => ∃ d, p.1.SoundFor d ng.me)
      (followPath cr ng sender hasPath r exclude pc) := by
  obtain ⟨d, h⟩ := h
  rw [followPath]
  split
  · exact (bounded_applyUpdatePath h sender r exclude pc).mono fun p hp => ⟨d, hp⟩
  · exact .pure ⟨d, h⟩

/-- **Following a commit.** -/
theorem bounded_handleCommit {base : Group} (h : base.Sound) (queue : List Proposal)
    (m : PublicMessage) : Attempt.Meets Bounded Group.Sound (handleCommit cr base queue m) := by
  apply (bounded_checkCommit h m).bind
  intro _ _
  apply (bounded_refsLoop queue _ _ _).bind
  intro props _
  apply (bounded_applyProposals h props).bind
  intro r hr
  obtain ⟨t, added, hasRemove⟩ := r
  have hchanged : Group.Sound { base with tree := t } := hr
  apply (bounded_followPath hchanged _ _ _ _ _).bind
  intro r hr
  obtain ⟨t, commitSecret, r⟩ := r
  have hupdated : Group.Sound { base with tree := t } := hr
  apply Attempt.Meets.guard_bind
  intro _
  apply Attempt.Meets.lift_bind (bounded_finishEpoch hupdated base _ _ _)
  intro r hng
  apply Attempt.Meets.guard_bind
  intro _
  exact .pure hng

/-! ## Trees in welcomes -/

/-- A tree whose nodes fill it. -/
def Tree.Sized (t : Tree) : Prop := ∃ d, d ≤ 30 ∧ t.leaves = 2 ^ d ∧ t.n.length = 2 ^ (d + 1) - 1

theorem leavesLoop_cases (count fuel k : Nat) : ∃ k', k ≤ k' ∧ leavesLoop count fuel (2 ^ k) = 2 ^ k' ∧
    (count ≤ 2 ^ (k' + 1) - 1 ∨ k' = k + fuel) := by
  induction fuel generalizing k with
  | zero => exact ⟨k, le_rfl, rfl, Or.inr rfl⟩
  | succ fuel ih =>
    rw [leavesLoop, tWidth_two_pow]
    split
    · obtain ⟨k', hle, hvalue, hcase⟩ := ih (k + 1)
      refine ⟨k', by omega, by exact hvalue, ?_⟩
      rcases hcase with hcase | hcase
      · exact Or.inl hcase
      · exact Or.inr (by omega)
    · exact ⟨k, le_rfl, rfl, Or.inl (by omega)⟩

theorem check_some {b : Bool} {r r' : Rd} {u : Unit} (h : Parser.check b r = (some u, r')) :
    b = true ∧ r' = r := by
  cases b with
  | false => cases h
  | true =>
    cases h
    exact ⟨rfl, rfl⟩

theorem treeOfNodes_sized {nodes : Option (List Node) × Rd} {r r' : Rd} {t : Tree}
    (h : treeOfNodes nodes r = (some t, r')) : t.Sized := by
  obtain ⟨_ | ns, rest⟩ := nodes
  · cases h
  · obtain ⟨ns', r₀, hns, h⟩ := Parser.bind_some.mp h
    cases hns
    obtain ⟨_, r₁, hcheck, hrest⟩ := Parser.bind_some.mp h
    obtain ⟨hodd, rfl⟩ := check_some hcheck
    obtain ⟨_, r₂, hbound, hresult⟩ := Parser.bind_some.mp hrest
    obtain ⟨hmax, rfl⟩ := check_some hbound
    obtain rfl : treeResize ⟨ns, (ns.length + 1) / 2⟩ (leavesLoop ns.length 32 1) = t :=
      Option.some.inj (congrArg Prod.fst hresult)
    have hodd : ns.length % 2 = 1 := by
      rw [Bool.and_eq_true] at hodd
      exact of_decide_eq_true hodd.2
    obtain ⟨d, -, hvalue, hcount⟩ := leavesLoop_cases ns.length 32 0
    rw [Nat.pow_zero] at hvalue
    rw [hvalue] at hmax ⊢
    have hle : 2 ^ d ≤ 2 ^ 30 := of_decide_eq_true hmax
    have hd : d ≤ 30 := (Nat.pow_le_pow_iff_right (by omega)).mp hle
    refine ⟨d, hd, rfl, ?_⟩
    have hwidth : tWidth ((ns.length + 1) / 2) = ns.length := by
      rw [tWidth, if_neg (by omega)]
      omega
    rw [treeResize, List.length_append, List.length_take, List.length_replicate, tWidth_two_pow, hwidth]
    dsimp only
    omega

theorem wholeTree_sized {r : Rd} {t : Tree} (h : wholeTree r = some t) : t.Sized := by
  obtain ⟨t', r₁, htree, h⟩ := Parser.bind_some.mp (Prod.ext h rfl)
  obtain ⟨_, r₂, -, h⟩ := Parser.bind_some.mp h
  cases h
  obtain ⟨v, r₃, -, hnodes⟩ := Parser.bind_some.mp htree
  exact treeOfNodes_sized hnodes

theorem treeLoop_sized {external : Bool} {fuel : Nat} {exts : Rd} {tree : Option Tree}
    (htree : ∀ t, tree = some t → t.Sized) {t : Tree}
    (h : (treeLoop external fuel exts tree).1 = some t) : t.Sized := by
  induction fuel generalizing exts tree with
  | zero => exact htree t h
  | succ fuel ih =>
    rw [treeLoop] at h
    split at h
    · exact htree t h
    · dsimp only at h
      split at h
      · split at h
        · rename_i t' hwhole
          refine ih ?_ h
          intro t'' heq
          obtain rfl := Option.some.inj heq
          exact wholeTree_sized hwhole
        · cases h
      · exact ih htree h

theorem readGroupInfo_sized {gi : Bytes} {info : GroupInfo}
    (h : (readGroupInfo gi none).value = .ok info) : info.tree.Sized := by
  obtain ⟨_, -, h⟩ := Attempt.ok_bind.mp h
  obtain ⟨_, -, h⟩ := Attempt.ok_bind.mp h
  obtain ⟨⟨view, r⟩, -, h⟩ := Attempt.ok_bind.mp h
  obtain ⟨t, htree, h⟩ := Attempt.ok_bind.mp h
  obtain ⟨_, -, h⟩ := Attempt.ok_bind.mp h
  obtain rfl := Attempt.ok_pure.mp h
  exact treeLoop_sized (fun t (heq : none = some t) => nomatch heq) (Attempt.ok_require.mp htree)

/-! ## Joining -/

/-- The tree of a welcome lists at each parent only leaves of its own subtree. -/
def WelcomeTree (cr : Crypto) (s : Session) (data : Bytes) : Prop :=
  ∀ joiner ps gi info, (openWelcome cr s data).value = .ok (joiner, ps, gi) →
    (readGroupInfo gi none).value = .ok info → info.tree.UnmergedInside

theorem quiet_openWelcome (s : Session) (data : Bytes) :
    Attempt.Meets (fun _ => False) (fun _ => True) (openWelcome cr s data) := by
  apply Attempt.Meets.guard_bind
  intro _
  apply Attempt.Meets.require_bind
  intro egi _
  apply Attempt.Meets.guard_bind
  intro _
  apply Attempt.Meets.require_bind
  intro secret _
  apply Attempt.Meets.require_bind
  intro gs _
  apply Attempt.Meets.require_bind
  intro secrets _
  apply Attempt.Meets.require_bind
  intro gi _
  exact .pure trivial

theorem quiet_readGroupInfo (gi : Bytes) (extTree : Option Bytes) :
    Attempt.Meets (fun _ => False) (fun _ => True) (readGroupInfo gi extTree) := by
  apply Attempt.Meets.guard_bind
  intro _
  apply Attempt.Meets.guard_bind
  intro _
  apply Attempt.Meets.require_bind
  intro view _
  apply Attempt.Meets.require_bind
  intro t _
  apply Attempt.Meets.guard_bind
  intro _
  exact .pure trivial

theorem bounded_findMe {d : Nat} {t : Tree} (hleaves : t.leaves = 2 ^ d) (enc sig : Bytes) {ls : List Nat}
    (hls : ∀ l ∈ ls, l < 2 ^ d) {me : Option Nat} (hme : ∀ l, me = some l → l < 2 ^ d ∧ t.Occupied l) :
    Logged.Meets Bounded (fun o => ∀ l, o = some l → l < 2 ^ d ∧ t.Occupied l)
      (findMe t enc sig ls me) := by
  induction ls generalizing me with
  | nil => exact .pure hme
  | cons l ls ih =>
    have hl := hls l List.mem_cons_self
    apply (bounded_get hleaves (leaf_index hl)).bind
    rintro n rfl
    apply ih fun l' hl' => hls l' (List.mem_cons_of_mem _ hl')
    intro l' hl'
    split at hl'
    · rename_i hmatch
      obtain rfl := Option.some.inj hl'
      refine ⟨hl, ?_⟩
      exact hmatch.1
    · exact hme l' hl'

theorem bounded_joinPath {d : Nat} {t : Tree} {signer me : Nat} (h : t.SoundFor d me)
    (hsigner : signer < 2 ^ d) (ps : Option Bytes) :
    Attempt.Meets Bounded (fun t' => t'.SoundFor d me) (joinPath cr t signer me ps) := by
  cases ps with
  | none => exact .pure h
  | some ps =>
    apply Attempt.Meets.lift_bind (bounded_treeFilteredPath h.toSound hsigner)
    rintro _ rfl
    apply Attempt.Meets.guard_bind
    intro _
    apply Attempt.Meets.lift_bind (bounded_setPathKeys h hsigner (by
      intro x hx
      obtain ⟨i, hi, rfl⟩ := List.mem_map.mp (List.mem_of_mem_drop hx)
      exact ⟨i, pathLevels_lt hi, rfl⟩) ps)
    intro r hr
    apply Attempt.Meets.guard_bind
    intro _
    exact .pure hr

/-- **Joining** by a welcome whose tree lists only own leaves. -/
theorem bounded_joinWelcome {s : Session} {data : Bytes} (hwelcome : WelcomeTree cr s data) :
    Attempt.Meets Bounded Group.Sound (joinWelcome cr s data none) := by
  apply (quiet_openWelcome s data).of_quiet.bind
  intro opened hopened
  obtain ⟨joiner, ps, gi⟩ := opened
  apply (quiet_readGroupInfo gi none).of_quiet.bind
  intro info hinfo
  obtain ⟨d, hd, hleaves, hlength⟩ := readGroupInfo_sized hinfo
  have hsound : info.tree.Sound d := ⟨hd, hleaves, hlength, hwelcome joiner ps gi info hopened hinfo⟩
  apply Attempt.Meets.lift_bind (bounded_treeRootHash hd hleaves)
  intro th _
  apply Attempt.Meets.guard_bind
  intro _
  apply Attempt.Meets.guard_bind
  intro hlt
  have hsigner : info.signer < 2 ^ d := by
    rw [← hleaves]
    exact of_decide_eq_true hlt
  apply Attempt.Meets.lift_bind (bounded_get hleaves (leaf_index hsigner))
  intro n _
  apply Attempt.Meets.guard_bind
  intro _
  apply Attempt.Meets.lift_bind (bounded_findMe hleaves s.leafPub s.idn.sigPub (by
    intro l hl
    rw [List.mem_range, hleaves] at hl
    exact hl) fun l (heq : none = some l) => nomatch heq)
  intro mine hmine
  apply Attempt.Meets.require_bind
  intro me hme
  obtain ⟨hme, hocc⟩ := hmine me hme
  apply Attempt.Meets.lift_bind (bounded_get hleaves (leaf_index hme))
  rintro n rfl
  apply Attempt.Meets.lift_bind (bounded_set hleaves (leaf_index hme) _)
  rintro _ rfl
  have hput : (info.tree.put (2 * me)
      { info.tree.n.getD (2 * me) Node.zero with priv := some s.leafPriv }).SoundFor d me := by
    refine ⟨hsound.put _ fun u hu => hu, hocc.put fun _ => ?_⟩
    exact hocc
  apply Attempt.Meets.guard_bind
  intro _
  apply (bounded_joinPath hput hsigner ps).bind
  intro t ht
  exact .pure ⟨d, ht⟩

theorem bounded_rosterLoop {d : Nat} {t : Tree} (hleaves : t.leaves = 2 ^ d) (users : Option (List Nat))
    {ls : List Nat} (hls : ∀ l ∈ ls, l < 2 ^ d) :
    Attempt.Meets Bounded (fun _ => True) (rosterLoop t users ls) := by
  induction ls with
  | nil => exact .pure trivial
  | cons l ls ih =>
    have htail := ih fun l' hl' => hls l' (List.mem_cons_of_mem _ hl')
    have hl := hls l List.mem_cons_self
    apply Attempt.Meets.lift_bind (bounded_get hleaves (leaf_index hl))
    intro n _
    split
    · apply Attempt.Meets.guard_bind
      intro _
      apply Attempt.Meets.lift_bind (bounded_hasUser hleaves n.uid (by
        intro l' hl'
        have := List.mem_range.mp hl'
        omega))
      intro dup _
      apply Attempt.Meets.guard_bind
      intro _
      exact htail
    · exact htail

theorem bounded_checkWelcomeRoster {g : Group} (h : g.Sound) (s : Session) (users : Option (List Nat)) :
    Attempt.Meets Bounded (fun _ => True) (checkWelcomeRoster s g users) := by
  obtain ⟨d, h⟩ := h
  apply (bounded_rosterLoop h.leaves users (by
    intro l hl
    rw [List.mem_range, h.leaves] at hl
    exact hl)).bind
  intro _ _
  apply Attempt.Meets.require_bind
  intro es _
  exact Attempt.Meets.guard _ fun _ => trivial

/-! ## Calls -/

/-- A session whose trees are sound. -/
structure Session.Sound (s : Session) : Prop where
  group : ∀ g, s.group = some g → g.Sound
  pending : ∀ g, s.pending = some g → g.Sound
  outState : ∀ g, s.outState = some g → g.Sound

theorem fail_sound {s : Session} (h : s.Sound) (e : String) : (s.fail e).Sound :=
  ⟨h.group, h.pending, h.outState⟩

theorem adopt_sound (s : Session) {g : Group} (h : g.Sound) : (adopt s g).Sound := by
  refine ⟨?_, (fun _ hg => nomatch hg), (fun _ hg => nomatch hg)⟩
  intro g' hg'
  obtain rfl := Option.some.inj hg'
  exact h

theorem Session.Sound.base {s : Session} (h : s.Sound) {g : Group} (hg : s.base = some g) : g.Sound := by
  rw [Session.base] at hg
  cases hpending : s.pending with
  | none =>
    rw [hpending] at hg
    exact h.group g hg
  | some p =>
    rw [hpending] at hg
    obtain rfl := Option.some.inj hg
    exact h.pending p hpending

theorem bounded_createPendingGroup {s : Session} (h : s.Sound) (rnd : Entropy) :
    Logged.Meets Bounded Session.Sound (createPendingGroup cr rnd s) := by
  rw [createPendingGroup]
  split
  · exact .pure h
  · split
    · apply (bounded_set (d := 0) (t := treeResize ⟨[], 0⟩ 1) rfl (by decide) _).bind
      rintro _ rfl
      apply Logged.Meets.pure
      refine ⟨h.group, ?_, h.outState⟩
      intro g hg
      obtain rfl := Option.some.inj hg
      have hblank : (treeResize ⟨[], 0⟩ 1).Sound 0 := by
        refine ⟨by omega, rfl, rfl, ?_⟩
        intro k j l hl
        have hzero : (treeResize ⟨[], 0⟩ 1).node k j = Node.zero := by
          rw [Tree.node, List.getD_eq_getElem?_getD]
          rcases TreeIndex.node k j with _ | x <;> rfl
        rw [hzero] at hl
        exact absurd hl List.not_mem_nil
      exact ⟨0, hblank.put 0 fun u hu => absurd hu List.not_mem_nil, rfl⟩
    · exact .pure h

theorem bounded_mlsSessionInit (rnd : Entropy) (s : Session) :
    Logged.Meets Bounded Session.Sound (mlsSessionInit cr rnd s) := by
  have hclear : ∀ s : Session, s.group = none → s.pending = none → s.outState = none → s.Sound := by
    intro s hgroup hpending hout
    refine ⟨?_, ?_, ?_⟩ <;> intro g hg <;> simp_all
  rw [mlsSessionInit]
  split
  · exact bounded_createPendingGroup (hclear _ rfl rfl rfl) rnd
  · exact .pure (hclear _ rfl rfl rfl)

theorem bounded_mlsSetExternalSender {s : Session} (h : s.Sound) (rnd : Entropy) (data : Bytes) :
    Logged.Meets Bounded (fun r => r.2.Sound) (mlsSetExternalSender cr rnd s data) := by
  rw [mlsSetExternalSender]
  split
  · exact .pure (fail_sound h _)
  · split
    · exact .pure (fail_sound h _)
    · rename_i key r _
      have hkey : ({ s with esKey := key } : Session).Sound := ⟨h.group, h.pending, h.outState⟩
      dsimp only
      split
      · exact .pure (fail_sound hkey _)
      · split
        · exact .pure (fail_sound hkey _)
        · have hes : ({ s with esKey := key, es := data } : Session).Sound :=
            ⟨h.group, h.pending, h.outState⟩
          apply (bounded_createPendingGroup hes rnd).bind
          intro s' hs'
          exact .pure hs'

theorem mlsKeyPackage_sound {s : Session} (h : s.Sound) (rnd : Entropy) :
    (mlsKeyPackage cr rnd s).2.Sound := by
  rw [mlsKeyPackage]
  split
  · exact fail_sound h _
  · split
    · exact fail_sound h _
    · exact ⟨h.group, h.pending, h.outState⟩

theorem meets_run {α : Type} {Q : α → Prop} {m : Try α} (h : Attempt.Meets Bounded Q m) :
    Logged.Meets Bounded (fun r => ∀ a, r = .ok a → Q a) m.run :=
  h

theorem bounded_prepareCommit {s : Session} (h : s.Sound) {base : Group} (hbase : base.Sound)
    (rnd : Entropy) : Logged.Meets Bounded (fun r => r.2.2.Sound) (prepareCommit cr rnd s base) := by
  rw [prepareCommit]
  split
  · exact .pure ⟨h.group, h.pending, (fun _ hg => by cases hg)⟩
  · apply (meets_run (bounded_createCommit hbase rnd s.idn s.queue)).bind
    intro prepared hprepared
    cases prepared with
    | error e => exact .pure (fail_sound h e)
    | ok p =>
      apply Logged.Meets.pure
      refine ⟨h.group, h.pending, ?_⟩
      intro g hg
      obtain rfl := Option.some.inj hg
      exact hprepared p rfl

theorem bounded_mlsProcessProposals {s : Session} (h : s.Sound) (rnd : Entropy) (data : Bytes)
    (users : List Nat) :
    Logged.Meets Bounded (fun r => r.2.2.Sound) (mlsProcessProposals cr rnd s data users) := by
  unfold mlsProcessProposals
  split
  · exact .pure (fail_sound h _)
  · exact .pure (fail_sound h _)
  · rename_i base op data hbase
    rcases rSub (rd data) with ⟨list, r⟩
    dsimp only
    split
    · exact .pure (fail_sound h _)
    · rcases changeQueue cr s base op list users with ⟨queue, e⟩
      have hqueue : ({ s with queue := queue } : Session).Sound := ⟨h.group, h.pending, h.outState⟩
      cases e with
      | none => exact bounded_prepareCommit hqueue (h.base hbase) rnd
      | some e => exact .pure (fail_sound hqueue e)

theorem bounded_processOther {s : Session} (h : s.Sound) (data : Bytes) :
    Logged.Meets Bounded (fun r => r.2.Sound) (processOther cr s data) := by
  rw [processOther]
  split
  · exact .pure h
  · rename_i base hbase
    split
    · exact .pure (fail_sound h _)
    · split
      · exact .pure (fail_sound h _)
      · rename_i m _
        apply (meets_run (bounded_handleCommit (h.group base hbase) s.queue m)).bind
        intro next hnext
        cases next with
        | error e => exact .pure (fail_sound h e)
        | ok ng => exact .pure (adopt_sound s (hnext ng rfl))

theorem bounded_mlsProcessCommit {s : Session} (h : s.Sound) (data : Bytes) :
    Logged.Meets Bounded (fun r => r.2.Sound) (mlsProcessCommit cr s data) := by
  rw [mlsProcessCommit]
  split
  · exact .pure h
  · split
    · rename_i ng hng
      split
      · exact .pure (adopt_sound s (h.outState ng hng))
      · exact bounded_processOther h data
    · exact bounded_processOther h data

theorem bounded_mlsProcessWelcome {s : Session} (h : s.Sound) {data : Bytes}
    (hwelcome : WelcomeTree cr s data) (users : Option (List Nat)) :
    Logged.Meets Bounded (fun r => r.2.Sound) (mlsProcessWelcome cr s data users) := by
  have hjoin : Attempt.Meets Bounded Group.Sound (joinChecked cr s data users) := by
    apply (bounded_joinWelcome hwelcome).bind
    intro g hg
    apply (bounded_checkWelcomeRoster hg s users).bind
    intro _ _
    exact .pure hg
  rw [mlsProcessWelcome]
  split
  · exact .pure (fail_sound h _)
  · split
    · exact .pure (fail_sound h _)
    · split
      · exact .pure (fail_sound h _)
      · apply (meets_run hjoin).bind
        intro joined hjoined
        cases joined with
        | error e => exact .pure (fail_sound h e)
        | ok g => exact .pure (adopt_sound s (hjoined g rfl))

/-! ## Runs -/

/-- The welcomes of a run bring trees that list only own leaves. -/
def WelcomesSound (cr : Crypto) (s : Session) : Call → Prop
  | .welcome data _ => WelcomeTree cr s data
  | _ => True

theorem bounded_call {s : Session} (h : s.Sound) {c : Call} (hc : WelcomesSound cr s c) :
    Logged.Meets Bounded Session.Sound (call cr s c) := by
  cases c with
  | init rnd => exact bounded_mlsSessionInit rnd s
  | externalSender rnd data =>
    exact (bounded_mlsSetExternalSender h rnd data).bind fun r hr => .pure hr
  | keyPackage rnd => exact .pure (mlsKeyPackage_sound h rnd)
  | proposals rnd data users =>
    exact (bounded_mlsProcessProposals h rnd data users).bind fun r hr => .pure hr
  | commit data => exact (bounded_mlsProcessCommit h data).bind fun r hr => .pure hr
  | welcome data users => exact (bounded_mlsProcessWelcome h hc users).bind fun r hr => .pure hr

theorem reachable_sound {s : Session} (h : (machine cr).Reachable (WelcomesSound cr) s) : s.Sound := by
  refine h.invariant ?_ ?_
  · rintro s ⟨userId, groupId, sk, pk, -, rfl⟩
    exact ⟨(fun _ hg => nomatch hg), (fun _ hg => nomatch hg), (fun _ hg => nomatch hg)⟩
  · intro s c hs hc
    exact (bounded_call hs hc).2

/-- **No index outside the tree**: whatever data arrives in whatever order, every node
that is touched lies inside its tree, in the runs whose welcomes bring trees that list
only own leaves. -/
theorem accesses_inside {s : Session} (h : (machine cr).Reachable (WelcomesSound cr) s) {c : Call}
    (hc : WelcomesSound cr s c) : ∀ a ∈ ((machine cr).step s c).2, a.1 < a.2 :=
  (bounded_call (reachable_sound h) hc).1

/-- A session alone with a proposal to remove a leaf touches its own leaf and no other. -/
theorem accesses_inside_alone :
    ((machine oneSender).step ((machine oneSender).run newSession oneSenderRun)
      (.proposals zeroEntropy (removeMessage 0) [])).1.err = "we were removed from the group" ∧
    ∀ a ∈ ((machine oneSender).step ((machine oneSender).run newSession oneSenderRun)
      (.proposals zeroEntropy (removeMessage 0) [])).2, a.1 < a.2 := by
  refine ⟨by decide +kernel, ?_⟩
  apply accesses_inside
  · apply (Machine.Reachable.start (start_newSession _)).run
    intro pre c post hrun
    have hc : c ∈ oneSenderRun := by
      rw [hrun]
      exact List.mem_append_right _ List.mem_cons_self
    simp only [oneSenderRun, List.mem_cons, List.not_mem_nil, or_false] at hc
    obtain rfl | rfl := hc
    · exact trivial
    · exact trivial
  · exact trivial

/-! ## A foreign leaf in a welcome -/

/-- BearSSL, where every signature is accepted. -/
def anySender : Crypto := plainCrypto fun _ => true

/-- A leaf of a tree in a welcome. -/
def plainLeaf (uid : Nat) (b : UInt8) : Node :=
  { Node.zero with
    type := .leaf
    raw := buildLeaf anySender ⟨uid, [], plainKey b⟩ (plainKey 0) srcKeyPackage [] [] 0 }

/-- A group of four whose parent of the last two leaves lists leaf 1000. -/
def foreignGroup : Group :=
  { Group.zero with
    gid := wU64 0
    tree := ⟨[plainLeaf 1 0, Node.zero, plainLeaf 2 1, Node.zero, plainLeaf 3 1,
      { Node.zero with type := .parent, unmerged := [1000] }, plainLeaf 4 1], 4⟩
    ext := pendingExt (senderMessage 1) }

/-- The welcome into that group. -/
def foreignWelcome : Bytes :=
  welcome anySender zeroEntropy ⟨zeros, zeros, zeros⟩
    (groupInfo anySender [] foreignGroup (anySender.hmac [] [])
      (groupCurrentContext anySender foreignGroup).value) none
    [⟨0, plainKey 0, zeros⟩]

/-- A session that joins that group. -/
def foreignRun : List Call :=
  [.init zeroEntropy, .externalSender zeroEntropy (senderMessage 1), .keyPackage zeroEntropy,
    .welcome foreignWelcome none]

/-- **A foreign leaf is followed**: the welcome is accepted, and the commit that removes
another member is encrypted to a node behind the end of the tree. -/
theorem foreign_leaf_outside : ∃ s, (machine anySender).Reachable (fun _ _ => True) s ∧
    ∃ a ∈ ((machine anySender).step s (.proposals zeroEntropy (removeMessage 1) [])).2,
      a.2 ≤ a.1 := by
  refine ⟨(machine anySender).run newSession foreignRun, ?_, by decide +kernel⟩
  exact (Machine.Reachable.start (start_newSession _)).run _ fun _ _ _ _ => trivial

end Mls
