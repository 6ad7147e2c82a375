import StrawOS.Sock.Graph

/-!
# Every call keeps the graph

The rows of edits of each call, put together from the lemmas on single edits, and
the result over whole runs: links are symmetric, the list of listeners is right,
and every socket has exactly one owner.
-/

namespace Sock

variable {st : State} {loose : List Addr}

theorem fdAlloc_spec {fd : Nat} (h : st.fdAlloc = some fd) : fd < fdMax ∧ st.fds fd = .free := by
  have hmem := List.mem_of_find?_eq_some h
  have hfree := List.find?_some h
  exact ⟨List.mem_range.mp hmem, by simpa using hfree⟩

theorem sockFromFd_spec {fd : Nat} {a : Addr} (h : st.sockFromFd fd = some a) :
    st.fds fd = .sock a := by
  rw [State.sockFromFd] at h
  split at h
  · rename_i b hb
    rw [hb, Option.some.inj h]
  · simp at h

theorem available_spec {mem : Option Addr} {a : Addr} (h : st.available mem = some a) :
    st.live a = false := by
  rw [State.available, Option.filter_eq_some_iff] at h
  simpa using h.2

theorem findListener_spec {name : Vfs.CString} {l : Addr} (h : sockFindListener st name = some l) :
    l ∈ st.listeners ∧ (st.sock l).name = name :=
  ⟨List.mem_of_find?_eq_some h, by simpa using List.find?_some h⟩

theorem findListener_none {name : Vfs.CString} (h : ¬(sockFindListener st name).isSome) :
    ∀ l ∈ st.listeners, (st.sock l).name ≠ name := by
  intro l hl hn
  have hnone : sockFindListener st name = none := by simpa using h
  have := List.find?_eq_none.mp hnone l hl
  simp [hn] at this

/-! ## Destroying by way of a descriptor -/

theorem destroyOne_setFd (st : State) (a : Addr) (fd : Nat) (x : Slot) :
    (st.setFd fd x).destroyOne a = (st.destroyOne a).setFd fd x := by
  have hpeer : ((st.setFd fd x).sock a).peer = (st.sock a).peer := rfl
  rw [State.destroyOne, State.destroyOne, State.unlinkPeer, State.unlinkPeer, hpeer]
  cases (st.sock a).peer <;> rfl

theorem destroyAll_setFd (l : List Addr) (st : State) (fd : Nat) (x : Slot) :
    l.foldl State.destroyOne (st.setFd fd x) = (l.foldl State.destroyOne st).setFd fd x := by
  induction l generalizing st with
  | nil => rfl
  | cons a l ih =>
    rw [List.foldl_cons, List.foldl_cons, destroyOne_setFd]
    exact ih _

theorem Graph.drop {a : Addr} (h : Graph (a :: loose) st) (hpeer : (st.sock a).peer = none) :
    Graph loose { st with live := Function.update st.live a false } := by
  have hu : st.unlinkPeer a = st := by rw [State.unlinkPeer, hpeer]
  have hd := h.destroyOne
  rw [State.destroyOne, hu] at hd
  exact hd.congr (fun _ => .refl _) rfl rfl rfl

theorem Graph.sockClose (h : Graph [] st) (fd : Nat) : Graph [] (sockClose st fd) := by
  rw [Sock.sockClose]
  split
  · exact h
  rename_i s hs
  have hfd := sockFromFd_spec hs
  rw [State.sockDestroy]
  by_cases hl : (st.sock s).state = .listening
  · rw [if_pos hl]
    have hr := h.releaseListener hfd hl rfl
    have hall := (Graph.destroyAll _ hr).destroyOne
    rw [← destroyOne_setFd, ← destroyAll_setFd]
    exact hall
  · rw [if_neg hl, ← destroyOne_setFd]
    exact (h.release hfd hl).destroyOne

/-! ## The other calls -/

theorem Graph.sockSysSocket (h : Graph [] st) (nonblock : Bool) (mem : Option Addr) :
    Graph [] (sockSysSocket st nonblock (st.available mem)) := by
  unfold Sock.sockSysSocket
  dsimp only
  split
  · exact h
  rename_i a ha
  have hnew := h.sockNew (available_spec ha) nonblock
  have hself : (st.sockNew a nonblock).sock a = { nonblock := nonblock } := by simp [State.sockNew]
  generalize hfd : (st.sockNew a nonblock).fdAlloc = slot
  cases slot with
  | none => exact hnew.drop (by rw [hself])
  | some fd =>
    obtain ⟨hlt, hfree⟩ := fdAlloc_spec hfd
    exact hnew.install (by rw [hself]; simp) hlt hfree

theorem Graph.sockSysBind (h : Graph [] st) (fd : Nat) (name : Vfs.CString) :
    Graph [] (sockSysBind st fd name) := by
  rw [Sock.sockSysBind]
  split
  · exact h
  split
  · exact h
  rename_i s hs hif
  simp only [not_or, not_not] at hif
  have hun := hif.2.2.1
  exact h.rename (by simp [hun]) (by simp) rfl rfl

theorem Graph.sockSysListen (h : Graph [] st) (fd : Nat) : Graph [] (sockSysListen st fd) := by
  rw [Sock.sockSysListen]
  split
  · exact h
  split
  · exact h
  rename_i s hs hif
  simp only [not_or, not_not] at hif
  have hlive := (h.fdLive fd s (sockFromFd_spec hs)).2.1
  exact h.listen hlive (by simp) hif.1 (findListener_none hif.2)

theorem Graph.allocRx (h : Graph loose st) (a : Addr) : Graph loose (allocRx st a) := by
  rw [Sock.allocRx]
  split
  · exact h
  · exact h.setSock ⟨rfl, rfl, rfl, rfl⟩

theorem allocRx_sock (st : State) (a b : Addr) :
    SameNode (st.sock b) ((allocRx st a).sock b) := by
  rw [allocRx]
  split
  · exact .refl _
  by_cases hb : b = a
  · subst hb
    rw [State.setSock]
    dsimp only
    rw [Function.update_self]
    exact ⟨rfl, rfl, rfl, rfl⟩
  · rw [State.setSock]
    dsimp only
    rw [Function.update_of_ne hb]
    exact .refl _

@[simp] theorem allocRx_live (st : State) (a : Addr) : (allocRx st a).live = st.live := by
  rw [allocRx]
  split <;> rfl

@[simp] theorem allocRx_fds (st : State) (a : Addr) : (allocRx st a).fds = st.fds := by
  rw [allocRx]
  split <;> rfl

theorem sockDestroy_of_not_listening {a : Addr} (h : (st.sock a).state ≠ .listening) :
    st.sockDestroy a = st.destroyOne a := by
  rw [State.sockDestroy, if_neg h]

theorem Graph.sockSysConnect (h : Graph [] st) (fd : Nat) (name : Vfs.CString)
    (mem : Option Addr) (rings : Bool) :
    Graph [] (sockSysConnect st fd name (st.available mem) rings) := by
  unfold Sock.sockSysConnect
  dsimp only
  split
  case h_2 => exact h
  rename_i s conn hs hconn
  have hclive := available_spec hconn
  have hnew := h.sockNew hclive false
  have hself : (st.sockNew conn false).sock conn = {} := by simp [State.sockNew]
  split
  · exact hnew.drop (by rw [hself])
  -- both ends have a ring
  generalize hst₁ : Sock.allocRx (Sock.allocRx (st.sockNew conn false) conn) s = st₁
  have h₁ : Graph [conn] st₁ := by
    rw [← hst₁]
    exact (hnew.allocRx conn).allocRx s
  have hstate : ∀ b, (st₁.sock b).state = ((st.sockNew conn false).sock b).state := by
    intro b
    rw [← hst₁, (allocRx_sock _ s b).state, (allocRx_sock _ conn b).state]
  have hcstate : (st₁.sock conn).state = .unbound := by rw [hstate, hself]
  have hdestroy : Graph [] (st₁.sockDestroy conn) := by
    rw [sockDestroy_of_not_listening (by rw [hcstate]; simp)]
    exact h₁.destroyOne
  split
  · exact hdestroy
  rename_i l hl
  split
  · exact hdestroy
  rename_i hif
  simp only [not_or, not_not, Nat.not_le] at hif
  have hfd : st₁.fds fd = .sock s := by
    rw [← hst₁]
    simpa [State.sockNew] using sockFromFd_spec hs
  obtain ⟨-, hslive, hsloose⟩ := h₁.fdLive fd s hfd
  exact h₁.link hslive hsloose hif.1 hcstate (findListener_spec hl).1 hif.2

theorem Graph.acceptSegment (h : Graph [] st) (t : Nat) (s : Addr) :
    Graph [] (acceptSegment st t s).1 := by
  unfold Sock.acceptSegment
  by_cases hlisten : (st.sock s).state = .listening
  case neg =>
    rw [if_pos hlisten]
    exact h.setTask _ _
  rw [if_neg (not_not.mpr hlisten)]
  cases hb : (st.sock s).backlog with
  | nil =>
    dsimp only
    split
    · exact h.setTask _ _
    · exact h.setTask _ _
  | cons conn rest =>
    have hcstate : (st.sock conn).state = .connected :=
      (h.entry s conn (by rw [hb]; exact List.mem_cons_self)).2.1
    have hsc : conn ≠ s := by
      intro heq
      rw [heq, hlisten] at hcstate
      simp at hcstate
    have htake := h.takeFirst hb
    dsimp only
    generalize hst₁ : st.setSock s { st.sock s with backlog := rest } = st₁ at htake ⊢
    have hcold : st₁.sock conn = st.sock conn := by
      rw [← hst₁]
      simp [State.setSock, hsc]
    have hflags : Graph [conn] (st₁.setSock conn { st₁.sock conn with
        nonblock := (st.sock s).nonblock }) := htake.setSock ⟨rfl, rfl, rfl, rfl⟩
    generalize hst₂ : st₁.setSock conn { st₁.sock conn with
      nonblock := (st.sock s).nonblock } = st₂ at hflags ⊢
    have hcnot : (st₂.sock conn).state ≠ .listening := by
      rw [← hst₂]
      simp [State.setSock, hcold, hcstate]
    generalize hfd : st₂.fdAlloc = slot
    cases slot with
    | none =>
      rw [sockDestroy_of_not_listening hcnot]
      exact hflags.destroyOne.setTask _ _
    | some fd =>
      obtain ⟨hlt, hfree⟩ := fdAlloc_spec hfd
      exact (hflags.install hcnot hlt hfree).setTask _ _

theorem Graph.readSegment (h : Graph [] st) (t : Nat) (s : Addr) (count : Nat) :
    Graph [] (readSegment st t s count).1 := by
  rw [Sock.readSegment]
  split
  · exact h.setTask _ _
  split
  · have hd : Graph [] (st.setSock s ((st.sock s).drain (min count (st.sock s).rxCount))) :=
      h.setSock ⟨rfl, rfl, rfl, rfl⟩
    exact hd.congr (fun _ => .refl _) rfl rfl rfl
  split
  · exact h.setTask _ _
  split
  · exact h.setTask _ _
  · exact h.setTask _ _

theorem Graph.transfer (h : Graph [] st) (s peer : Addr) (bytes : List UInt8) :
    Graph [] (transfer st s peer bytes) := by
  have hp : Graph [] (st.setSock peer (sockPush (st.sock peer) bytes)) :=
    h.setSock ⟨rfl, rfl, rfl, rfl⟩
  exact hp.congr (fun _ => .refl _) rfl rfl rfl

theorem Graph.writeSegment (t : Nat) (s : Addr) (buf : List UInt8) (written : Nat)
    (h : Graph [] st) : Graph [] (writeSegment st t s buf written).1 := by
  fun_induction Sock.writeSegment st t s buf written with
  | case1 | case2 | case3 | case5 => exact h.setTask _ _
  | case4 _ _ _ _ _ _ _ _ _ _ ih => exact ih (h.transfer _ _ _)

theorem Graph.resumeCall (h : Graph [] st) (t : Nat) : Graph [] (resumeCall st t).1 := by
  rw [Sock.resumeCall]
  split
  · exact h.readSegment _ _ _
  · exact h.writeSegment _ _ _ _
  · exact h.acceptSegment _ _
  · exact h

theorem Graph.enter (h : Graph [] st) {t fd : Nat} {body : Addr → State × List Event}
    (hbody : ∀ s, Graph [] (body s).1) : Graph [] (enter st t fd body).1 := by
  rw [Sock.enter]
  split
  · exact hbody _
  · exact h

/-- **Step lemma.** -/
theorem Graph.step (h : Graph [] st) (op : Op) : Graph [] (step st op).1 := by
  cases op with
  | socket nonblock mem => exact h.sockSysSocket nonblock mem
  | bind fd name => exact h.sockSysBind fd name
  | listen fd => exact h.sockSysListen fd
  | connect fd name mem rings => exact h.sockSysConnect fd name mem rings
  | accept t fd => exact h.enter fun s => h.acceptSegment t s
  | read t fd count =>
    refine h.enter fun s => ?_
    split
    · exact h
    · exact h.readSegment t s count
  | write t fd buf =>
    refine h.enter fun s => ?_
    split
    · exact h
    · exact h.writeSegment t s buf 0
  | ioctl fd nonblock =>
    unfold Sock.step
    dsimp only
    split
    · exact h
    · exact h.setSock ⟨rfl, rfl, rfl, rfl⟩
  | close fd => exact h.sockClose fd
  | resume t => exact h.resumeCall t
  | kill t => exact h.setTask t _
  | wake => exact h.wakeWaiters
  | openOther =>
    unfold Sock.step
    generalize hfd : st.fdAlloc = slot
    cases slot with
    | none => exact h
    | some fd =>
      refine h.setFd (by simp) ?_
      simp [(fdAlloc_spec hfd).2]
  | closeOther fd =>
    show Graph [] (if st.fds fd = .other then (st.setFd fd .free, []) else (st, [])).1
    split
    · rename_i hfd
      refine h.setFd (by simp) ?_
      simp [hfd]
    · exact h

/-- **Run lemma.** -/
theorem graph_of_reachable {guard : State → Op → Prop} (h : machine.Reachable guard st) :
    Graph [] st :=
  Machine.Reachable.invariant (P := Graph []) (fun _ hs => Start.graph hs)
    (fun _ op hs _ => Graph.step hs op) h

/-! ## Properties that do not see the descriptors -/

/-- What a property of the sockets has to survive at `st`, so that `op` keeps it. -/
structure Survives (P : State → Prop) (st : State) (op : Op) : Prop where
  now : P st
  fds : ∀ st' fd x, P st' → P (st'.setFd fd x)
  outside : ∀ st' t, P st' → P (st'.setTask t .outside)
  flags : ∀ st' s nonblock, P st' → P (st'.setSock s { st'.sock s with nonblock := nonblock })
  destroy : ∀ st' s, P st' → P (st'.sockDestroy s)
  wake : P st.wakeWaiters
  asleep : ∀ t s, (st.sock s).backlog = [] → P (st.setTask t (.inside (.accept s) true))
  first : ∀ s conn rest, (st.sock s).backlog = conn :: rest →
    P (st.setSock s { st.sock s with backlog := rest })
  made : ∀ nonblock mem c, op = .socket nonblock mem → st.available mem = some c →
    P (st.sockNew c nonblock) ∧
      P { st.sockNew c nonblock with live := Function.update (st.sockNew c nonblock).live c false }
  named : ∀ s name state listeners, (st.sock s).state ≠ .connected → state ≠ .connected →
    P { st.setSock s { st.sock s with name := name, state := state } with listeners := listeners }
  connect : ∀ fd name mem rings, op = .connect fd name mem rings →
    P (Sock.sockSysConnect st fd name (st.available mem) rings)
  read : ∀ t s count, P (Sock.readSegment st t s count).1
  write : ∀ t s buf written, P (Sock.writeSegment st t s buf written).1

namespace Survives

variable {P : State → Prop} {op : Op}

theorem acceptSegment (h : Survives P st op) (t : Nat) (s : Addr) :
    P (acceptSegment st t s).1 := by
  unfold Sock.acceptSegment
  split
  · exact h.outside _ t h.now
  cases hb : (st.sock s).backlog with
  | nil =>
    dsimp only
    split
    · exact h.outside _ t h.now
    · exact h.asleep t s hb
  | cons conn rest =>
    have hflags := h.flags _ conn (st.sock s).nonblock (h.first s conn rest hb)
    dsimp only
    generalize State.setSock (State.setSock st s _) conn _ = st₂ at hflags ⊢
    generalize st₂.fdAlloc = slot
    cases slot with
    | none => exact h.outside _ t (h.destroy _ conn hflags)
    | some fd => exact h.outside _ t (h.fds _ fd _ hflags)

theorem enter (h : Survives P st op) {t fd : Nat} {body : Addr → State × List Event}
    (hbody : ∀ s, P (body s).1) : P (enter st t fd body).1 := by
  rw [Sock.enter]
  split
  · exact hbody _
  · exact h.now

/-- **One step.**  What survives the moves survives the step. -/
theorem step (h : Survives P st op) : P (step st op).1 := by
  cases op with
  | socket nonblock mem =>
    show P (sockSysSocket st nonblock (st.available mem))
    unfold Sock.sockSysSocket
    dsimp only
    split
    · exact h.now
    rename_i c hc
    obtain ⟨hnew, hdrop⟩ := h.made nonblock mem c rfl hc
    generalize (st.sockNew c nonblock).fdAlloc = slot
    cases slot with
    | none => exact hdrop
    | some fd => exact h.fds _ fd _ hnew
  | bind fd name =>
    show P (sockSysBind st fd name)
    rw [Sock.sockSysBind]
    split
    · exact h.now
    split
    · exact h.now
    · rename_i s _ hif
      simp only [not_or, not_not] at hif
      exact h.named s name .bound st.listeners (by rw [hif.2.2.1]; simp) (by simp)
  | listen fd =>
    show P (sockSysListen st fd)
    rw [Sock.sockSysListen]
    split
    · exact h.now
    split
    · exact h.now
    · rename_i s _ hif
      simp only [not_or, not_not] at hif
      exact h.named s _ .listening _ (by rw [hif.1]; simp) (by simp)
  | connect fd name mem rings => exact h.connect fd name mem rings rfl
  | accept t fd => exact h.enter fun s => h.acceptSegment t s
  | read t fd count =>
    refine h.enter fun s => ?_
    split
    · exact h.now
    · exact h.read t s count
  | write t fd buf =>
    refine h.enter fun s => ?_
    split
    · exact h.now
    · exact h.write t s buf 0
  | ioctl fd nonblock =>
    unfold Sock.step
    dsimp only
    split
    · exact h.now
    · exact h.flags st _ nonblock h.now
  | close fd =>
    show P (sockClose st fd)
    rw [Sock.sockClose]
    split
    · exact h.now
    · exact h.fds _ fd _ (h.destroy st _ h.now)
  | resume t =>
    show P (resumeCall st t).1
    rw [Sock.resumeCall]
    split
    · exact h.read _ _ _
    · exact h.write _ _ _ _
    · exact h.acceptSegment _ _
    · exact h.now
  | kill t => exact h.outside st t h.now
  | wake => exact h.wake
  | openOther =>
    unfold Sock.step
    generalize st.fdAlloc = slot
    cases slot with
    | none => exact h.now
    | some fd => exact h.fds st fd _ h.now
  | closeOther fd =>
    show P (if st.fds fd = .other then (st.setFd fd .free, []) else (st, [])).1
    split
    · exact h.fds st fd _ h.now
    · exact h.now

end Survives

/-- Destroying a socket is destroying its backlog and itself. -/
theorem sockDestroy_keeps {P : State → Prop} {a : Addr} (h : P st)
    (hone : ∀ st' c, P st' → P (st'.destroyOne c))
    (hempty : P ({ st with listeners := st.listeners.erase a }.setSock a
      { st.sock a with backlog := [] })) : P (st.sockDestroy a) := by
  rw [State.sockDestroy]
  split
  · refine hone _ a ?_
    generalize (st.sock a).backlog = entries
    generalize State.setSock _ a _ = st' at hempty ⊢
    induction entries generalizing st' with
    | nil => exact hempty
    | cons c rest ih => exact ih _ (hone _ c hempty)
  · exact hone st a h

/-! ## What the graph says -/

/-- The sockets, the list of listeners and the descriptors fit together. -/
structure WellFormed (st : State) : Prop where
  symmetric : ∀ a b, (st.sock a).peer = some b → (st.sock b).peer = some a
  listeners : ∀ a, a ∈ st.listeners ↔ st.live a = true ∧ (st.sock a).state = .listening
  listedOnce : st.listeners.Nodup
  names : ∀ a ∈ st.listeners, ∀ b ∈ st.listeners, (st.sock a).name = (st.sock b).name → a = b
  backlog : ∀ l ∈ st.listeners, (st.sock l).backlog.length ≤ sockBacklog ∧
    (st.sock l).backlog.Nodup ∧ ∀ c ∈ (st.sock l).backlog,
      (st.sock c).state = .connected ∧ ∀ fd, st.fds fd ≠ .sock c
  queuedOnce : ∀ l ∈ st.listeners, ∀ m ∈ st.listeners, ∀ c ∈ (st.sock l).backlog,
    c ∈ (st.sock m).backlog → l = m
  owned : ∀ a, st.live a = true → (∀ l ∈ st.listeners, a ∉ (st.sock l).backlog) →
    ∃! fd, st.fds fd = .sock a
  peerLive : ∀ a b, (st.sock a).peer = some b → st.live a = true ∧ st.live b = true
  entryLive : ∀ l, ∀ c ∈ (st.sock l).backlog, l ∈ st.listeners ∧ st.live c = true
  descriptorLive : ∀ fd a, st.fds fd = .sock a → fd < fdMax ∧ st.live a = true

theorem Graph.wellFormed (h : Graph [] st) : WellFormed st where
  symmetric a b hp := (h.peer a b hp).2.2.1
  listeners a := by simpa using h.listed a
  listedOnce := h.nodup
  names := h.names
  backlog l _ := by
    refine ⟨h.short l, h.distinct l, ?_⟩
    intro c hc
    obtain ⟨-, hstate, -, hfd⟩ := h.entry l c hc
    exact ⟨hstate, hfd⟩
  queuedOnce l _ m _ c hl hm := h.apart l m c hl hm
  owned a ha hnot := by
    rcases h.owned a ha with ho | ⟨fd, hfd⟩ | ⟨l, hl⟩
    · simp at ho
    · exact ⟨fd, hfd, fun fd' hfd' => h.fdOne fd' fd a hfd' hfd⟩
    · exact absurd hl (hnot l (h.backlog l (List.ne_nil_of_mem hl)))
  peerLive a b hp := ⟨(h.peer a b hp).1, (h.peer a b hp).2.1⟩
  entryLive l c hc := ⟨h.backlog l (List.ne_nil_of_mem hc), (h.entry l c hc).1⟩
  descriptorLive fd a hfd := ⟨(h.fdLive fd a hfd).1, (h.fdLive fd a hfd).2.1⟩

/-- **The graph of local sockets.**  In every state that any calls lead to, links
are symmetric, the list holds the listeners, and every socket has one owner. -/
theorem reachable_wellFormed (h : machine.Reachable (fun _ _ => True) st) : WellFormed st :=
  (graph_of_reachable h).wellFormed

/-- Before the first call, with the three descriptors of the terminal. -/
def boot : State where
  sock _ := {}
  live _ := false
  listeners := []
  fds fd := if fd < 3 then .other else .free
  tasks _ := .outside
  taken _ := []
  sent _ := []

theorem boot_start : Start boot := by
  refine ⟨fun _ => rfl, fun _ => rfl, rfl, ?_, fun _ => rfl⟩
  intro fd a
  show (if fd < 3 then Slot.other else Slot.free) ≠ .sock a
  split <;> simp

/-- A listener with one client that waits to be accepted. -/
def queuedClient : State :=
  machine.run boot [.socket false (some 7), .bind 3 [120], .listen 3, .socket false (some 8),
    .connect 4 [120] (some 9) true]

theorem queuedClient_wellFormed :
    queuedClient.listeners = [7] ∧ (queuedClient.sock 7).backlog = [9] ∧
      (queuedClient.sock 8).peer = some 9 ∧ WellFormed queuedClient := by
  refine ⟨by decide +kernel, by decide +kernel, by decide +kernel, reachable_wellFormed ?_⟩
  exact Machine.Reachable.run (.start boot_start) _ fun _ _ _ _ => trivial

end Sock
