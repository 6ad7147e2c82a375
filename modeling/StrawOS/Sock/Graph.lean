import StrawOS.Sock.Model

/-!
# The graph of local sockets

A socket is owned by a descriptor, or it waits in the backlog of a listener.  The
invariant keeps the owners, the peer links and the list of listeners together.

Some calls take a socket from its owner before they destroy it or give it to
another: `Graph loose st` is the invariant with the sockets of the list `loose`
owned by nobody, and each call is a row of edits that move sockets into and out
of that list.
-/

namespace Sock

/-- The graph of the sockets, with some of them owned by nobody. -/
structure Graph (loose : List Addr) (st : State) : Prop where
  peer : ∀ a b, (st.sock a).peer = some b →
    st.live a = true ∧ st.live b = true ∧ (st.sock b).peer = some a ∧
      (st.sock a).state = .connected
  listed : ∀ a, a ∈ st.listeners ↔
    st.live a = true ∧ (st.sock a).state = .listening ∧ a ∉ loose
  nodup : st.listeners.Nodup
  names : ∀ a ∈ st.listeners, ∀ b ∈ st.listeners, (st.sock a).name = (st.sock b).name → a = b
  backlog : ∀ a, (st.sock a).backlog ≠ [] → a ∈ st.listeners
  short : ∀ a, (st.sock a).backlog.length ≤ sockBacklog
  distinct : ∀ a, (st.sock a).backlog.Nodup
  entry : ∀ a, ∀ c ∈ (st.sock a).backlog, st.live c = true ∧ (st.sock c).state = .connected ∧
    c ∉ loose ∧ ∀ fd, st.fds fd ≠ .sock c
  apart : ∀ a b c, c ∈ (st.sock a).backlog → c ∈ (st.sock b).backlog → a = b
  fdLive : ∀ fd a, st.fds fd = .sock a → fd < fdMax ∧ st.live a = true ∧ a ∉ loose
  fdOne : ∀ fd fd' a, st.fds fd = .sock a → st.fds fd' = .sock a → fd = fd'
  owned : ∀ a, st.live a = true → a ∈ loose ∨ (∃ fd, st.fds fd = .sock a) ∨
    ∃ l, a ∈ (st.sock l).backlog
  looseLive : ∀ a ∈ loose, st.live a = true
  looseNodup : loose.Nodup

variable {st st' : State} {loose : List Addr}

theorem Start.graph (h : Start st) : Graph [] st where
  peer a b := by simp [h.sock]
  listed a := by simp [h.listeners, h.live]
  nodup := by simp [h.listeners]
  names := by simp [h.listeners]
  backlog a := by simp [h.sock]
  short a := by simp [h.sock]
  distinct a := by simp [h.sock]
  entry a := by simp [h.sock]
  apart a b c := by simp [h.sock]
  fdLive fd a hfd := absurd hfd (h.fds fd a)
  fdOne fd fd' a hfd := absurd hfd (h.fds fd a)
  owned a ha := by simp [h.live] at ha
  looseLive := by simp
  looseNodup := List.nodup_nil

/-- Sockets that changed in their links only. -/
structure Relinked (st st' : State) : Prop where
  state : ∀ a, (st'.sock a).state = (st.sock a).state
  name : ∀ a, (st'.sock a).name = (st.sock a).name
  backlog : ∀ a, (st'.sock a).backlog = (st.sock a).backlog
  live : st'.live = st.live
  listeners : st'.listeners = st.listeners
  fds : st'.fds = st.fds

theorem Graph.relink (h : Graph loose st) (hr : Relinked st st')
    (hpeer : ∀ a b, (st'.sock a).peer = some b →
      (st.sock a).peer = some b ∧ (st'.sock b).peer = some a) : Graph loose st' where
  peer a b hp := by
    obtain ⟨hold, hback⟩ := hpeer a b hp
    obtain ⟨h1, h2, -, h4⟩ := h.peer a b hold
    rw [hr.live, hr.state]
    exact ⟨h1, h2, hback, h4⟩
  listed a := by
    rw [hr.listeners, hr.live, hr.state]
    exact h.listed a
  nodup := by
    rw [hr.listeners]
    exact h.nodup
  names a ha b hb hn := by
    rw [hr.listeners] at ha hb
    rw [hr.name, hr.name] at hn
    exact h.names a ha b hb hn
  backlog a hne := by
    rw [hr.backlog] at hne
    rw [hr.listeners]
    exact h.backlog a hne
  short a := by
    rw [hr.backlog]
    exact h.short a
  distinct a := by
    rw [hr.backlog]
    exact h.distinct a
  entry a c hc := by
    rw [hr.backlog] at hc
    rw [hr.live, hr.state, hr.fds]
    exact h.entry a c hc
  apart a b c ha hb := by
    rw [hr.backlog] at ha hb
    exact h.apart a b c ha hb
  fdLive fd a hfd := by
    rw [hr.fds] at hfd
    rw [hr.live]
    exact h.fdLive fd a hfd
  fdOne fd fd' a h1 h2 := by
    rw [hr.fds] at h1 h2
    exact h.fdOne fd fd' a h1 h2
  owned a ha := by
    rw [hr.live] at ha
    rw [hr.fds]
    simp only [hr.backlog]
    exact h.owned a ha
  looseLive a ha := by
    rw [hr.live]
    exact h.looseLive a ha
  looseNodup := h.looseNodup

/-- The part of a socket that the graph is about. -/
structure SameNode (k k' : Socket) : Prop where
  state : k'.state = k.state
  name : k'.name = k.name
  peer : k'.peer = k.peer
  backlog : k'.backlog = k.backlog

theorem Graph.congr (h : Graph loose st) (hsock : ∀ a, SameNode (st.sock a) (st'.sock a))
    (hlive : st'.live = st.live) (hlist : st'.listeners = st.listeners) (hfds : st'.fds = st.fds) :
    Graph loose st' := by
  refine h.relink ⟨fun a => (hsock a).state, fun a => (hsock a).name, fun a => (hsock a).backlog,
    hlive, hlist, hfds⟩ ?_
  intro a b hp
  rw [(hsock a).peer] at hp
  exact ⟨hp, (hsock b).peer.trans (h.peer a b hp).2.2.1⟩

theorem SameNode.refl (k : Socket) : SameNode k k := ⟨rfl, rfl, rfl, rfl⟩

theorem Graph.setSock (h : Graph loose st) {a : Addr} {k : Socket} (hk : SameNode (st.sock a) k) :
    Graph loose (st.setSock a k) := by
  refine h.congr ?_ rfl rfl rfl
  intro b
  by_cases hb : b = a
  · subst hb
    simpa [State.setSock] using hk
  · simpa [State.setSock, hb] using SameNode.refl _

theorem Graph.setTask (h : Graph loose st) (t : Nat) (c : Context) : Graph loose (st.setTask t c) :=
  h.congr (fun _ => .refl _) rfl rfl rfl

theorem Graph.wakeWaiters (h : Graph loose st) : Graph loose st.wakeWaiters :=
  h.congr (fun _ => .refl _) rfl rfl rfl

/-! ## Making and destroying -/

theorem Graph.sockNew (h : Graph loose st) {a : Addr} (ha : st.live a = false) (nonblock : Bool) :
    Graph (a :: loose) (st.sockNew a nonblock) := by
  have hne : ∀ {b : Addr}, st.live b = true → b ≠ a := by
    rintro b hb rfl
    rw [ha] at hb
    simp at hb
  have hsock : ∀ {b : Addr}, b ≠ a → (st.sockNew a nonblock).sock b = st.sock b :=
    fun hb => by simp [State.sockNew, hb]
  have hlive : ∀ {b : Addr}, b ≠ a → (st.sockNew a nonblock).live b = st.live b :=
    fun hb => by simp [State.sockNew, hb]
  have hself : (st.sockNew a nonblock).sock a = { nonblock := nonblock } := by simp [State.sockNew]
  have hback : ∀ b, (st.sockNew a nonblock).sock b = st.sock b ∨
      b = a ∧ ((st.sockNew a nonblock).sock b).backlog = [] := by grind
  have hentry : ∀ {b c : Addr}, c ∈ ((st.sockNew a nonblock).sock b).backlog →
      c ∈ (st.sock b).backlog := by grind
  constructor
  · intro b c hp
    have hb : b ≠ a := by
      rintro rfl
      rw [hself] at hp
      simp at hp
    rw [hsock hb] at hp
    obtain ⟨h1, h2, h3, h4⟩ := h.peer b c hp
    rw [hlive hb, hlive (hne h2), hsock hb, hsock (hne h2)]
    exact ⟨h1, h2, h3, h4⟩
  · intro b
    show b ∈ st.listeners ↔ _
    by_cases hb : b = a
    · subst hb
      have hnot : b ∉ st.listeners := fun hm => hne ((h.listed b).mp hm).1 rfl
      simp [hnot]
    · rw [h.listed, hlive hb, hsock hb, List.mem_cons, not_or]
      simp [hb]
  · exact h.nodup
  · intro b hb c hc hn
    have hb' := hne ((h.listed b).mp hb).1
    have hc' := hne ((h.listed c).mp hc).1
    rw [hsock hb', hsock hc'] at hn
    exact h.names b hb c hc hn
  · intro b hb
    rcases hback b with hk | ⟨-, hk⟩
    · rw [hk] at hb
      exact h.backlog b hb
    · exact absurd hk hb
  · intro b
    rcases hback b with hk | ⟨-, hk⟩
    · rw [hk]
      exact h.short b
    · simp [hk]
  · intro b
    rcases hback b with hk | ⟨-, hk⟩
    · rw [hk]
      exact h.distinct b
    · simp [hk]
  · intro b c hc
    obtain ⟨h1, h2, h3, h4⟩ := h.entry b c (hentry hc)
    have hca := hne h1
    rw [hlive hca, hsock hca]
    refine ⟨h1, h2, ?_, h4⟩
    simpa [hca] using h3
  · intro b c d hb hc
    exact h.apart b c d (hentry hb) (hentry hc)
  · intro fd b hfd
    obtain ⟨h1, h2, h3⟩ := h.fdLive fd b hfd
    rw [hlive (hne h2)]
    exact ⟨h1, h2, by simpa [hne h2] using h3⟩
  · exact h.fdOne
  · intro b hb
    by_cases hba : b = a
    · exact Or.inl (by simp [hba])
    · rw [hlive hba] at hb
      rcases h.owned b hb with ho | ho | ⟨l, hl⟩
      · exact Or.inl (List.mem_cons_of_mem _ ho)
      · exact Or.inr (Or.inl ho)
      · refine Or.inr (Or.inr ⟨l, ?_⟩)
        have hla : l ≠ a := by
          rintro rfl
          have := h.backlog l (List.ne_nil_of_mem hl)
          exact hne ((h.listed l).mp this).1 rfl
        rwa [hsock hla]
  · intro b hb
    rcases List.mem_cons.mp hb with rfl | hb
    · simp [State.sockNew]
    · rw [hlive (hne (h.looseLive b hb))]
      exact h.looseLive b hb
  · refine List.nodup_cons.mpr ⟨?_, h.looseNodup⟩
    intro hm
    exact hne (h.looseLive a hm) rfl

/-- What `unlinkPeer` does to each socket: the socket and its peer lose their
links, nothing else changes. -/
theorem unlinkPeer_sock (st : State) (a c : Addr) :
    (st.unlinkPeer a).sock c =
      if c = a ∨ (st.sock a).peer = some c then { st.sock c with peer := none } else st.sock c := by
  rw [State.unlinkPeer]
  cases hp : (st.sock a).peer with
  | none =>
    by_cases hc : c = a
    · subst hc
      simp only [true_or, if_true]
      rw [← hp]
    · simp [hc]
  | some b =>
    by_cases hc : c = a
    · subst hc
      by_cases hb : c = b
      · subst hb
        simp [State.setSock]
      · simp [State.setSock, hb]
    · by_cases hb : c = b
      · subst hb
        simp [State.setSock, hc]
      · have hb' : b ≠ c := Ne.symm hb
        simp [State.setSock, hc, hb, hb']

theorem unlinkPeer_rest (st : State) (a : Addr) :
    st.unlinkPeer a = { st with sock := (st.unlinkPeer a).sock } := by
  rw [State.unlinkPeer]
  cases (st.sock a).peer <;> rfl

theorem Graph.unlinkPeer (h : Graph loose st) (a : Addr) : Graph loose (st.unlinkPeer a) := by
  have hsame : ∀ c, (st.unlinkPeer a).sock c =
      { st.sock c with peer := ((st.unlinkPeer a).sock c).peer } := by
    intro c
    rw [unlinkPeer_sock]
    split <;> rfl
  have hr : Relinked st (st.unlinkPeer a) := by
    constructor
    · intro c
      rw [hsame]
    · intro c
      rw [hsame]
    · intro c
      rw [hsame]
    · rw [unlinkPeer_rest]
    · rw [unlinkPeer_rest]
    · rw [unlinkPeer_rest]
  refine h.relink hr ?_
  intro c d hp
  rw [unlinkPeer_sock] at hp
  split at hp
  · simp at hp
  rename_i hc
  refine ⟨hp, ?_⟩
  have hback := (h.peer c d hp).2.2.1
  rw [unlinkPeer_sock, if_neg]
  · exact hback
  rintro (rfl | hd)
  · exact hc (Or.inr hback)
  · have := (h.peer a d hd).2.2.1
    rw [hback] at this
    exact hc (Or.inl (Option.some.inj this))

theorem Graph.destroyOne {a : Addr} (h : Graph (a :: loose) st) : Graph loose (st.destroyOne a) := by
  have hu := h.unlinkPeer a
  have hnone : ((st.unlinkPeer a).sock a).peer = none := by
    rw [unlinkPeer_sock]
    simp
  have hnd := List.nodup_cons.mp hu.looseNodup
  have hlive : ∀ b, (st.destroyOne a).live b = if b = a then false else (st.unlinkPeer a).live b := by
    intro b
    show Function.update _ _ _ b = _
    rw [Function.update_apply]
  have hsock : (st.destroyOne a).sock = (st.unlinkPeer a).sock := rfl
  have hfd : ∀ fd, (st.unlinkPeer a).fds fd ≠ .sock a := by
    intro fd hfd
    exact (hu.fdLive fd a hfd).2.2 List.mem_cons_self
  have hentry : ∀ l, a ∉ ((st.unlinkPeer a).sock l).backlog := by
    intro l hl
    exact (hu.entry l a hl).2.2.1 List.mem_cons_self
  constructor
  · intro b c hp
    rw [hsock] at hp ⊢
    obtain ⟨h1, h2, h3, h4⟩ := hu.peer b c hp
    have hb : b ≠ a := by
      rintro rfl
      rw [hnone] at hp
      simp at hp
    have hc : c ≠ a := by
      rintro rfl
      rw [hnone] at h3
      simp at h3
    rw [hlive, hlive, if_neg hb, if_neg hc]
    exact ⟨h1, h2, h3, h4⟩
  · intro b
    rw [hsock, hlive]
    show b ∈ (st.unlinkPeer a).listeners ↔ _
    rw [hu.listed, List.mem_cons, not_or]
    by_cases hb : b = a
    · simp [hb]
    · simp [hb]
  · exact hu.nodup
  · exact hu.names
  · exact hu.backlog
  · exact hu.short
  · exact hu.distinct
  · intro l c hc
    obtain ⟨h1, h2, h3, h4⟩ := hu.entry l c hc
    have hca : c ≠ a := by
      rintro rfl
      exact hentry l hc
    rw [hlive, if_neg hca]
    exact ⟨h1, h2, fun hm => h3 (List.mem_cons_of_mem _ hm), h4⟩
  · exact hu.apart
  · intro fd b hb
    obtain ⟨h1, h2, h3⟩ := hu.fdLive fd b hb
    have hba : b ≠ a := by
      rintro rfl
      exact hfd fd hb
    rw [hlive, if_neg hba]
    exact ⟨h1, h2, fun hm => h3 (List.mem_cons_of_mem _ hm)⟩
  · exact hu.fdOne
  · intro b hb
    rw [hlive] at hb
    by_cases hba : b = a
    · simp [hba] at hb
    · rw [if_neg hba] at hb
      rcases hu.owned b hb with ho | ho | ho
      · exact Or.inl ((List.mem_cons.mp ho).resolve_left hba)
      · exact Or.inr (Or.inl ho)
      · exact Or.inr (Or.inr ho)
  · intro b hb
    have hba : b ≠ a := by
      rintro rfl
      exact hnd.1 hb
    rw [hlive, if_neg hba]
    exact hu.looseLive b (List.mem_cons_of_mem _ hb)
  · exact hnd.2

theorem Graph.destroyAll (l : List Addr) (h : Graph (l ++ loose) st) :
    Graph loose (l.foldl State.destroyOne st) := by
  induction l generalizing st with
  | nil => exact h
  | cons a l ih => exact ih h.destroyOne

/-! ## Owners -/

/-- A descriptor takes a socket that nobody owns and that does not listen. -/
theorem Graph.install {a : Addr} (h : Graph (a :: loose) st)
    (hstate : (st.sock a).state ≠ .listening) {fd : Nat} (hlt : fd < fdMax)
    (hfree : st.fds fd = .free) : Graph loose (st.setFd fd (.sock a)) := by
  have hnd := List.nodup_cons.mp h.looseNodup
  have hself : ∀ fd' b, (st.setFd fd (.sock a)).fds fd' = .sock b →
      (fd' = fd ∧ b = a) ∨ (fd' ≠ fd ∧ st.fds fd' = .sock b) := by
    intro fd' b hb
    by_cases hf : fd' = fd
    · subst hf
      left
      refine ⟨rfl, ?_⟩
      have : Slot.sock a = Slot.sock b := by simpa [State.setFd] using hb
      exact (Slot.sock.inj this).symm
    · right
      exact ⟨hf, by simpa [State.setFd, hf] using hb⟩
  have hold : ∀ {b : Addr}, b ∉ a :: loose → b ∉ loose := fun hb hm => hb (List.mem_cons_of_mem _ hm)
  constructor
  · exact h.peer
  · intro b
    show b ∈ st.listeners ↔ st.live b = true ∧ (st.sock b).state = .listening ∧ b ∉ loose
    rw [h.listed, List.mem_cons, not_or]
    constructor
    · rintro ⟨h1, h2, -, h3⟩
      exact ⟨h1, h2, h3⟩
    · rintro ⟨h1, h2, h3⟩
      refine ⟨h1, h2, ?_, h3⟩
      rintro rfl
      exact hstate h2
  · exact h.nodup
  · exact h.names
  · exact h.backlog
  · exact h.short
  · exact h.distinct
  · intro l c hc
    obtain ⟨h1, h2, h3, h4⟩ := h.entry l c hc
    refine ⟨h1, h2, hold h3, ?_⟩
    intro fd' hfd'
    rcases hself fd' c hfd' with ⟨-, rfl⟩ | ⟨-, hc'⟩
    · exact h3 List.mem_cons_self
    · exact h4 fd' hc'
  · exact h.apart
  · intro fd' b hb
    rcases hself fd' b hb with ⟨rfl, rfl⟩ | ⟨-, hb'⟩
    · exact ⟨hlt, h.looseLive b List.mem_cons_self, hnd.1⟩
    · obtain ⟨h1, h2, h3⟩ := h.fdLive fd' b hb'
      exact ⟨h1, h2, hold h3⟩
  · intro fd₁ fd₂ b h1 h2
    rcases hself fd₁ b h1 with ⟨rfl, rfl⟩ | ⟨-, h1'⟩
    · rcases hself fd₂ b h2 with ⟨rfl, -⟩ | ⟨-, h2'⟩
      · rfl
      · exact absurd List.mem_cons_self (h.fdLive fd₂ b h2').2.2
    · rcases hself fd₂ b h2 with ⟨rfl, rfl⟩ | ⟨-, h2'⟩
      · exact absurd List.mem_cons_self (h.fdLive fd₁ b h1').2.2
      · exact h.fdOne fd₁ fd₂ b h1' h2'
  · intro b hb
    rcases h.owned b hb with ho | ⟨fd', hfd'⟩ | ho
    · rcases List.mem_cons.mp ho with rfl | ho
      · exact Or.inr (Or.inl ⟨fd, by simp [State.setFd]⟩)
      · exact Or.inl ho
    · refine Or.inr (Or.inl ⟨fd', ?_⟩)
      have hne : fd' ≠ fd := by
        rintro rfl
        rw [hfree] at hfd'
        simp at hfd'
      simpa [State.setFd, hne] using hfd'
    · exact Or.inr (Or.inr ho)
  · intro b hb
    exact h.looseLive b (List.mem_cons_of_mem _ hb)
  · exact hnd.2

theorem Graph.setFd (h : Graph loose st) {fd : Nat} {x : Slot} (hx : ∀ a, x ≠ .sock a)
    (hold : ∀ a, st.fds fd ≠ .sock a) : Graph loose (st.setFd fd x) := by
  have hself : ∀ fd' b, (st.setFd fd x).fds fd' = .sock b ↔ st.fds fd' = .sock b := by
    intro fd' b
    by_cases hf : fd' = fd
    · subst hf
      simp [State.setFd, hx b, hold b]
    · simp [State.setFd, hf]
  constructor
  · exact h.peer
  · exact h.listed
  · exact h.nodup
  · exact h.names
  · exact h.backlog
  · exact h.short
  · exact h.distinct
  · intro l c hc
    obtain ⟨h1, h2, h3, h4⟩ := h.entry l c hc
    exact ⟨h1, h2, h3, fun fd' hfd' => h4 fd' ((hself fd' c).mp hfd')⟩
  · exact h.apart
  · intro fd' b hb
    exact h.fdLive fd' b ((hself fd' b).mp hb)
  · intro fd₁ fd₂ b h1 h2
    exact h.fdOne fd₁ fd₂ b ((hself fd₁ b).mp h1) ((hself fd₂ b).mp h2)
  · intro b hb
    rcases h.owned b hb with ho | ⟨fd', hfd'⟩ | ho
    · exact Or.inl ho
    · exact Or.inr (Or.inl ⟨fd', (hself fd' b).mpr hfd'⟩)
    · exact Or.inr (Or.inr ho)
  · exact h.looseLive
  · exact h.looseNodup

theorem Graph.release (h : Graph loose st) {fd : Nat} {a : Addr} (hfd : st.fds fd = .sock a)
    (hstate : (st.sock a).state ≠ .listening) : Graph (a :: loose) (st.setFd fd .free) := by
  obtain ⟨-, halive, hnot⟩ := h.fdLive fd a hfd
  have hself : ∀ fd' b, (st.setFd fd .free).fds fd' = .sock b → st.fds fd' = .sock b ∧ b ≠ a := by
    intro fd' b hb
    have hne : fd' ≠ fd := by
      rintro rfl
      simp [State.setFd] at hb
    have hb' : st.fds fd' = .sock b := by simpa [State.setFd, hne] using hb
    refine ⟨hb', ?_⟩
    rintro rfl
    exact hne (h.fdOne fd' fd b hb' hfd)
  constructor
  · exact h.peer
  · intro b
    show b ∈ st.listeners ↔ st.live b = true ∧ (st.sock b).state = .listening ∧ b ∉ a :: loose
    rw [h.listed, List.mem_cons, not_or]
    constructor
    · rintro ⟨h1, h2, h3⟩
      refine ⟨h1, h2, ?_, h3⟩
      rintro rfl
      exact hstate h2
    · rintro ⟨h1, h2, -, h3⟩
      exact ⟨h1, h2, h3⟩
  · exact h.nodup
  · exact h.names
  · exact h.backlog
  · exact h.short
  · exact h.distinct
  · intro l c hc
    obtain ⟨h1, h2, h3, h4⟩ := h.entry l c hc
    refine ⟨h1, h2, ?_, fun fd' hfd' => h4 fd' (hself fd' c hfd').1⟩
    intro hm
    rcases List.mem_cons.mp hm with rfl | hm
    · exact h4 fd hfd
    · exact h3 hm
  · exact h.apart
  · intro fd' b hb
    obtain ⟨hb', hba⟩ := hself fd' b hb
    obtain ⟨h1, h2, h3⟩ := h.fdLive fd' b hb'
    exact ⟨h1, h2, by simp [hba, h3]⟩
  · intro fd₁ fd₂ b h1 h2
    exact h.fdOne fd₁ fd₂ b (hself fd₁ b h1).1 (hself fd₂ b h2).1
  · intro b hb
    by_cases hba : b = a
    · exact Or.inl (by simp [hba])
    · rcases h.owned b hb with ho | ⟨fd', hfd'⟩ | ho
      · exact Or.inl (List.mem_cons_of_mem _ ho)
      · refine Or.inr (Or.inl ⟨fd', ?_⟩)
        have hne : fd' ≠ fd := by
          rintro rfl
          rw [hfd] at hfd'
          exact hba (Slot.sock.inj hfd').symm
        simpa [State.setFd, hne] using hfd'
      · exact Or.inr (Or.inr ho)
  · intro b hb
    rcases List.mem_cons.mp hb with rfl | hb
    · exact halive
    · exact h.looseLive b hb
  · exact List.nodup_cons.mpr ⟨hnot, h.looseNodup⟩

/-- A listener leaves the list: its backlog belongs to nobody, and neither does it
once its descriptor lets it go. -/
theorem Graph.releaseListener (h : Graph loose st) {fd : Nat} {a : Addr}
    (hfd : st.fds fd = .sock a) (hstate : (st.sock a).state = .listening)
    (hst' : st' = ({ st.setFd fd .free with listeners := st.listeners.erase a }.setSock a
      { st.sock a with backlog := [] })) :
    Graph ((st.sock a).backlog ++ a :: loose) st' := by
  obtain ⟨-, halive, hnot⟩ := h.fdLive fd a hfd
  have hsock : ∀ b, st'.sock b = if b = a then { st.sock a with backlog := [] } else st.sock b := by
    intro b
    rw [hst']
    show Function.update _ _ _ b = _
    rw [Function.update_apply]
    rfl
  have hlive : st'.live = st.live := by rw [hst']; rfl
  have hlist : st'.listeners = st.listeners.erase a := by rw [hst']; rfl
  have hself : ∀ fd' b, st'.fds fd' = .sock b → st.fds fd' = .sock b ∧ b ≠ a := by
    intro fd' b hb
    rw [hst'] at hb
    have hne : fd' ≠ fd := by
      rintro rfl
      simp [State.setFd, State.setSock] at hb
    have hb' : st.fds fd' = .sock b := by simpa [State.setFd, State.setSock, hne] using hb
    refine ⟨hb', ?_⟩
    rintro rfl
    exact hne (h.fdOne fd' fd b hb' hfd)
  have hstates : ∀ b, (st'.sock b).state = (st.sock b).state := by
    intro b
    rw [hsock]
    split
    · rename_i hb
      rw [hb]
    · rfl
  have hpeers : ∀ b, (st'.sock b).peer = (st.sock b).peer := by
    intro b
    rw [hsock]
    split
    · rename_i hb
      rw [hb]
    · rfl
  have hnames : ∀ b, (st'.sock b).name = (st.sock b).name := by
    intro b
    rw [hsock]
    split
    · rename_i hb
      rw [hb]
    · rfl
  have hbacklog : ∀ {b c : Addr}, c ∈ (st'.sock b).backlog → b ≠ a ∧ c ∈ (st.sock b).backlog := by
    grind
  have hentry : ∀ {c : Addr}, c ∈ (st.sock a).backlog → c ≠ a := by
    rintro c hc rfl
    have := (h.entry c c hc).2.1
    rw [hstate] at this
    simp at this
  constructor
  · intro b c hp
    rw [hpeers] at hp
    rw [hlive, hpeers, hstates]
    exact h.peer b c hp
  · intro b
    rw [hlist, h.nodup.mem_erase_iff, h.listed, hlive, hstates]
    simp only [List.mem_append, List.mem_cons, not_or]
    constructor
    · rintro ⟨hba, h1, h2, h3⟩
      refine ⟨h1, h2, ?_, hba, h3⟩
      intro hb
      have := (h.entry a b hb).2.1
      rw [h2] at this
      simp at this
    · rintro ⟨h1, h2, -, hba, h3⟩
      exact ⟨hba, h1, h2, h3⟩
  · rw [hlist]
    exact h.nodup.erase a
  · intro b hb c hc hn
    rw [hlist] at hb hc
    rw [hnames, hnames] at hn
    exact h.names b (List.mem_of_mem_erase hb) c (List.mem_of_mem_erase hc) hn
  · intro b hb
    obtain ⟨c, hc⟩ := List.exists_mem_of_ne_nil _ hb
    obtain ⟨hba, hc'⟩ := hbacklog hc
    rw [hlist, h.nodup.mem_erase_iff]
    exact ⟨hba, h.backlog b (List.ne_nil_of_mem hc')⟩
  · intro b
    rw [hsock]
    split
    · simp
    · exact h.short b
  · intro b
    rw [hsock]
    split
    · simp
    · exact h.distinct b
  · intro l c hc
    obtain ⟨hla, hc'⟩ := hbacklog hc
    obtain ⟨h1, h2, h3, h4⟩ := h.entry l c hc'
    rw [hlive, hstates]
    refine ⟨h1, h2, ?_, fun fd' hfd' => h4 fd' (hself fd' c hfd').1⟩
    simp only [List.mem_append, List.mem_cons, not_or]
    refine ⟨fun hm => hla (h.apart l a c hc' hm), ?_, h3⟩
    rintro rfl
    exact h4 fd hfd
  · intro b c d hb hc
    exact h.apart b c d (hbacklog hb).2 (hbacklog hc).2
  · intro fd' b hb
    obtain ⟨hb', hba⟩ := hself fd' b hb
    obtain ⟨h1, h2, h3⟩ := h.fdLive fd' b hb'
    rw [hlive]
    refine ⟨h1, h2, ?_⟩
    simp only [List.mem_append, List.mem_cons, not_or]
    exact ⟨fun hm => (h.entry a b hm).2.2.2 fd' hb', hba, h3⟩
  · intro fd₁ fd₂ b h1 h2
    exact h.fdOne fd₁ fd₂ b (hself fd₁ b h1).1 (hself fd₂ b h2).1
  · intro b hb
    rw [hlive] at hb
    by_cases hba : b = a
    · exact Or.inl (by simp [hba])
    · rcases h.owned b hb with ho | ⟨fd', hfd'⟩ | ⟨l, hl⟩
      · exact Or.inl (by simp [ho])
      · refine Or.inr (Or.inl ⟨fd', ?_⟩)
        have hne : fd' ≠ fd := by
          rintro rfl
          rw [hfd] at hfd'
          exact hba (Slot.sock.inj hfd').symm
        rw [hst']
        simpa [State.setFd, State.setSock, hne] using hfd'
      · grind
  · intro b hb
    rw [hlive]
    rcases List.mem_append.mp hb with hb | hb
    · exact (h.entry a b hb).1
    · rcases List.mem_cons.mp hb with rfl | hb
      · exact halive
      · exact h.looseLive b hb
  · rw [List.nodup_append]
    refine ⟨h.distinct a, List.nodup_cons.mpr ⟨hnot, h.looseNodup⟩, ?_⟩
    intro b hb c hc
    rintro rfl
    rcases List.mem_cons.mp hc with rfl | hc
    · exact hentry hb rfl
    · exact (h.entry a b hb).2.2.1 hc

theorem Graph.takeFirst (h : Graph loose st) {l conn : Addr} {rest : List Addr}
    (hl : (st.sock l).backlog = conn :: rest) :
    Graph (conn :: loose) (st.setSock l { st.sock l with backlog := rest }) := by
  have hmem : conn ∈ (st.sock l).backlog := by rw [hl]; exact List.mem_cons_self
  obtain ⟨hclive, hcstate, hcloose, hcfd⟩ := h.entry l conn hmem
  have hnd := h.distinct l
  rw [hl] at hnd
  have hnd := List.nodup_cons.mp hnd
  have hsock : ∀ b, (st.setSock l { st.sock l with backlog := rest }).sock b =
      if b = l then { st.sock l with backlog := rest } else st.sock b := by
    intro b
    show Function.update _ _ _ b = _
    rw [Function.update_apply]
  have hsame : ∀ b, ((st.setSock l { st.sock l with backlog := rest }).sock b).state =
      (st.sock b).state ∧ ((st.setSock l { st.sock l with backlog := rest }).sock b).peer =
      (st.sock b).peer ∧ ((st.setSock l { st.sock l with backlog := rest }).sock b).name =
      (st.sock b).name := by grind
  have hbacklog : ∀ {b c : Addr},
      c ∈ ((st.setSock l { st.sock l with backlog := rest }).sock b).backlog →
      c ∈ (st.sock b).backlog ∧ c ≠ conn := by
    intro b c hc
    rw [hsock] at hc
    split at hc
    · grind
    · rename_i hb
      refine ⟨hc, ?_⟩
      rintro rfl
      exact hb (h.apart b l c hc hmem)
  constructor
  · intro b c hp
    rw [(hsame b).2.1] at hp
    rw [(hsame c).2.1, (hsame b).1]
    exact h.peer b c hp
  · intro b
    rw [(hsame b).1]
    show b ∈ st.listeners ↔ st.live b = true ∧ _
    rw [h.listed, List.mem_cons, not_or]
    constructor
    · grind
    · rintro ⟨h1, h2, -, h3⟩
      exact ⟨h1, h2, h3⟩
  · exact h.nodup
  · intro b hb c hc hn
    rw [(hsame b).2.2, (hsame c).2.2] at hn
    exact h.names b hb c hc hn
  · intro b hb
    obtain ⟨c, hc⟩ := List.exists_mem_of_ne_nil _ hb
    exact h.backlog b (List.ne_nil_of_mem (hbacklog hc).1)
  · intro b
    rw [hsock]
    split
    · have := h.short l
      rw [hl, List.length_cons] at this
      exact Nat.le_of_succ_le this
    · exact h.short b
  · intro b
    rw [hsock]
    split
    · exact hnd.2
    · exact h.distinct b
  · intro b c hc
    obtain ⟨hc', hne⟩ := hbacklog hc
    obtain ⟨h1, h2, h3, h4⟩ := h.entry b c hc'
    rw [(hsame c).1]
    exact ⟨h1, h2, by simp [hne, h3], h4⟩
  · intro b c d hb hc
    exact h.apart b c d (hbacklog hb).1 (hbacklog hc).1
  · intro fd b hb
    obtain ⟨h1, h2, h3⟩ := h.fdLive fd b hb
    refine ⟨h1, h2, ?_⟩
    rintro hm
    rcases List.mem_cons.mp hm with rfl | hm
    · exact hcfd fd hb
    · exact h3 hm
  · exact h.fdOne
  · intro b hb
    by_cases hbc : b = conn
    · exact Or.inl (by simp [hbc])
    · rcases h.owned b hb with ho | ho | ⟨m, hm⟩
      · exact Or.inl (List.mem_cons_of_mem _ ho)
      · exact Or.inr (Or.inl ho)
      · grind
  · intro b hb
    rcases List.mem_cons.mp hb with rfl | hb
    · exact hclive
    · exact h.looseLive b hb
  · exact List.nodup_cons.mpr ⟨hcloose, h.looseNodup⟩

/-! ## Binding, listening and connecting -/

theorem Graph.no_peer (h : Graph loose st) {a : Addr} (ha : (st.sock a).state ≠ .connected) :
    (st.sock a).peer = none := by
  cases hp : (st.sock a).peer with
  | none => rfl
  | some b => exact absurd (h.peer a b hp).2.2.2 ha

/-- A socket that does not listen and is not connected gets a name or another
state of that kind. -/
theorem Graph.rename (h : Graph loose st) {a : Addr} {k : Socket}
    (hstate : (st.sock a).state ≠ .listening ∧ (st.sock a).state ≠ .connected)
    (hk : k.state ≠ .listening) (hpeer : k.peer = (st.sock a).peer)
    (hback : k.backlog = (st.sock a).backlog) : Graph loose (st.setSock a k) := by
  have hsock : ∀ b, (st.setSock a k).sock b = if b = a then k else st.sock b := by
    intro b
    show Function.update _ _ _ b = _
    rw [Function.update_apply]
  have hpeers : ∀ b, ((st.setSock a k).sock b).peer = (st.sock b).peer := by
    intro b
    rw [hsock]
    split
    · rename_i hb
      rw [hb, hpeer]
    · rfl
  have hbacks : ∀ b, ((st.setSock a k).sock b).backlog = (st.sock b).backlog := by
    intro b
    rw [hsock]
    split
    · rename_i hb
      rw [hb, hback]
    · rfl
  have hnone := h.no_peer hstate.2
  have hlistener : ∀ {b : Addr}, b ∈ st.listeners → b ≠ a := by
    rintro b hb rfl
    exact hstate.1 ((h.listed b).mp hb).2.1
  constructor
  · intro b c hp
    rw [hpeers] at hp
    have hba : b ≠ a := by
      rintro rfl
      rw [hnone] at hp
      simp at hp
    rw [hpeers, hsock, if_neg hba]
    exact h.peer b c hp
  · intro b
    show b ∈ st.listeners ↔ st.live b = true ∧ _
    rw [hsock, h.listed]
    split
    · rename_i hb
      subst hb
      simp [hstate.1, hk]
    · exact Iff.rfl
  · exact h.nodup
  · intro b hb c hc hn
    rw [hsock, hsock, if_neg (hlistener hb), if_neg (hlistener hc)] at hn
    exact h.names b hb c hc hn
  · intro b hb
    rw [hbacks] at hb
    exact h.backlog b hb
  · intro b
    rw [hbacks]
    exact h.short b
  · intro b
    rw [hbacks]
    exact h.distinct b
  · intro b c hc
    rw [hbacks] at hc
    obtain ⟨h1, h2, h3, h4⟩ := h.entry b c hc
    have hca : c ≠ a := by
      rintro rfl
      exact hstate.2 h2
    rw [hsock, if_neg hca]
    exact ⟨h1, h2, h3, h4⟩
  · intro b c d hb hc
    rw [hbacks] at hb hc
    exact h.apart b c d hb hc
  · exact h.fdLive
  · exact h.fdOne
  · intro b hb
    simp only [hbacks]
    exact h.owned b hb
  · exact h.looseLive
  · exact h.looseNodup

theorem Graph.listen (h : Graph loose st) {a : Addr} (hlive : st.live a = true) (hloose : a ∉ loose)
    (hstate : (st.sock a).state = .bound)
    (hname : ∀ l ∈ st.listeners, (st.sock l).name ≠ (st.sock a).name) :
    Graph loose { st.setSock a { st.sock a with state := .listening } with
      listeners := a :: st.listeners } := by
  have hsock : ∀ b, (st.setSock a { st.sock a with state := .listening }).sock b =
      if b = a then { st.sock a with state := .listening } else st.sock b := by
    intro b
    show Function.update _ _ _ b = _
    rw [Function.update_apply]
  have hsame : ∀ b, ((st.setSock a { st.sock a with state := .listening }).sock b).peer =
      (st.sock b).peer ∧ ((st.setSock a { st.sock a with state := .listening }).sock b).name =
      (st.sock b).name ∧ ((st.setSock a { st.sock a with state := .listening }).sock b).backlog =
      (st.sock b).backlog := by grind
  have hnone : (st.sock a).peer = none := h.no_peer (by rw [hstate]; simp)
  have hnot : a ∉ st.listeners := by
    intro ha
    have := ((h.listed a).mp ha).2.1
    rw [hstate] at this
    simp at this
  constructor
  · intro b c hp
    have hold : (st.sock b).peer = some c := (hsame b).1.symm.trans hp
    have hba : b ≠ a := by
      rintro rfl
      rw [hnone] at hold
      simp at hold
    rw [(hsame c).1, hsock, if_neg hba]
    exact h.peer b c hold
  · intro b
    show b ∈ a :: st.listeners ↔ st.live b = true ∧ (State.sock (st.setSock a _) b).state =
      .listening ∧ b ∉ loose
    rw [List.mem_cons, hsock]
    by_cases hba : b = a
    · subst hba
      simp [hlive, hloose]
    · rw [if_neg hba, h.listed]
      simp [hba]
  · exact List.nodup_cons.mpr ⟨hnot, h.nodup⟩
  · intro b hb c hc hn
    have hold : (st.sock b).name = (st.sock c).name :=
      (hsame b).2.1.symm.trans (hn.trans (hsame c).2.1)
    rcases List.mem_cons.mp hb with hb' | hb'
    · grind
    · rcases List.mem_cons.mp hc with hc' | hc'
      · rw [hc'] at hold
        exact absurd hold (hname b hb')
      · exact h.names b hb' c hc' hold
  · intro b hb
    rw [(hsame b).2.2] at hb
    exact List.mem_cons_of_mem _ (h.backlog b hb)
  · intro b
    rw [(hsame b).2.2]
    exact h.short b
  · intro b
    rw [(hsame b).2.2]
    exact h.distinct b
  · intro b c hc
    rw [(hsame b).2.2] at hc
    obtain ⟨h1, h2, h3, h4⟩ := h.entry b c hc
    have hca : c ≠ a := by
      rintro rfl
      rw [hstate] at h2
      simp at h2
    rw [hsock, if_neg hca]
    exact ⟨h1, h2, h3, h4⟩
  · intro b c d hb hc
    rw [(hsame b).2.2] at hb
    rw [(hsame c).2.2] at hc
    exact h.apart b c d hb hc
  · exact h.fdLive
  · exact h.fdOne
  · intro b hb
    rcases h.owned b hb with ho | ho | ⟨l, hl⟩
    · exact Or.inl ho
    · exact Or.inr (Or.inl ho)
    · grind
  · exact h.looseLive
  · exact h.looseNodup

theorem Graph.link {s conn l : Addr} (h : Graph (conn :: loose) st) (hslive : st.live s = true)
    (hsloose : s ∉ conn :: loose) (hs : (st.sock s).state = .unbound)
    (hconn : (st.sock conn).state = .unbound) (hl : l ∈ st.listeners)
    (hroom : (st.sock l).backlog.length < sockBacklog) : Graph loose (link st s conn l) := by
  have hsc : s ≠ conn := by
    rintro rfl
    exact hsloose List.mem_cons_self
  have hlstate := ((h.listed l).mp hl).2.1
  have hls : l ≠ s := by
    rintro rfl
    rw [hs] at hlstate
    simp at hlstate
  have hlc : l ≠ conn := by
    rintro rfl
    exact ((h.listed l).mp hl).2.2 List.mem_cons_self
  have hsnone : (st.sock s).peer = none := h.no_peer (by rw [hs]; simp)
  have hcnone : (st.sock conn).peer = none := h.no_peer (by rw [hconn]; simp)
  have hnd := List.nodup_cons.mp h.looseNodup
  have hclive := h.looseLive conn List.mem_cons_self
  have hsock : ∀ b, (Sock.link st s conn l).sock b =
      if b = l then { st.sock l with backlog := (st.sock l).backlog ++ [conn] }
      else if b = s then { st.sock s with state := .connected, peer := some conn }
      else if b = conn then { st.sock conn with state := .connected, peer := some s }
      else st.sock b := by
    intro b
    show Function.update (Function.update (Function.update _ _ _) _ _) _ _ b = _
    simp only [State.setSock, Function.update_apply, if_neg hls, if_neg hlc, if_neg hsc]
  have hlsock : (Sock.link st s conn l).sock l =
      { st.sock l with backlog := (st.sock l).backlog ++ [conn] } := by
    rw [hsock, if_pos rfl]
  have hcsock : (Sock.link st s conn l).sock conn =
      { st.sock conn with state := .connected, peer := some s } := by
    rw [hsock, if_neg (Ne.symm hlc), if_neg (Ne.symm hsc), if_pos rfl]
  have hother : ∀ b, b ≠ l → b ≠ s → b ≠ conn → (Sock.link st s conn l).sock b = st.sock b := by
    intro b h1 h2 h3
    rw [hsock, if_neg h1, if_neg h2, if_neg h3]
  have hnames : ∀ b, ((Sock.link st s conn l).sock b).name = (st.sock b).name := by grind
  have hback : ∀ b, b ≠ l → ((Sock.link st s conn l).sock b).backlog = (st.sock b).backlog := by
    grind
  have hlisten : ∀ b, ((Sock.link st s conn l).sock b).state = .listening ↔
      (st.sock b).state = .listening := by
    intro b
    rw [hsock]
    split
    · rename_i hb
      rw [hb]
    split
    · rename_i hb
      rw [hb, hs]
      simp
    split
    · rename_i hb
      rw [hb, hconn]
      simp
    · exact Iff.rfl
  have hmem : ∀ {b c : Addr}, c ∈ ((Sock.link st s conn l).sock b).backlog →
      c ∈ (st.sock b).backlog ∨ (b = l ∧ c = conn) := by grind
  have hfresh : ∀ b, conn ∉ (st.sock b).backlog :=
    fun b hb => (h.entry b conn hb).2.2.1 List.mem_cons_self
  have hsout : ∀ b, s ∉ (st.sock b).backlog := by
    intro b hb
    have := (h.entry b s hb).2.1
    rw [hs] at this
    simp at this
  constructor
  · intro b c hp
    show st.live b = true ∧ st.live c = true ∧ _
    by_cases hbs : b = s
    · grind
    by_cases hbc : b = conn
    · grind
    have hbold : ((Sock.link st s conn l).sock b).peer = (st.sock b).peer ∧
        ((Sock.link st s conn l).sock b).state = (st.sock b).state := by grind
    rw [hbold.1] at hp
    obtain ⟨h1, h2, h3, h4⟩ := h.peer b c hp
    have hcs : c ≠ s := by
      rintro rfl
      rw [hsnone] at h3
      simp at h3
    have hcc : c ≠ conn := by
      rintro rfl
      rw [hcnone] at h3
      simp at h3
    have hcold : ((Sock.link st s conn l).sock c).peer = (st.sock c).peer := by
      by_cases hcl : c = l
      · subst hcl
        rw [hlsock]
      · rw [hother c hcl hcs hcc]
    rw [hcold, hbold.2]
    exact ⟨h1, h2, h3, h4⟩
  · intro b
    show b ∈ st.listeners ↔ st.live b = true ∧ _
    rw [h.listed, hlisten, List.mem_cons, not_or]
    constructor
    · rintro ⟨h1, h2, -, h3⟩
      exact ⟨h1, h2, h3⟩
    · grind
  · exact h.nodup
  · intro b hb c hc hn
    rw [hnames, hnames] at hn
    exact h.names b hb c hc hn
  · intro b hb
    obtain ⟨c, hc⟩ := List.exists_mem_of_ne_nil _ hb
    rcases hmem hc with hc | ⟨rfl, -⟩
    · exact h.backlog b (List.ne_nil_of_mem hc)
    · exact hl
  · intro b
    by_cases hbl : b = l
    · grind
    · rw [hback b hbl]
      exact h.short b
  · intro b
    by_cases hbl : b = l
    · subst hbl
      rw [hlsock]
      refine List.nodup_append.mpr ⟨h.distinct b, by simp, ?_⟩
      intro c hc d hd
      rintro rfl
      rw [List.mem_singleton.mp hd] at hc
      exact hfresh b hc
    · rw [hback b hbl]
      exact h.distinct b
  · intro b c hc
    rcases hmem hc with hold | ⟨-, rfl⟩
    · obtain ⟨h1, h2, h3, h4⟩ := h.entry b c hold
      have hcs : c ≠ s := by
        rintro rfl
        exact hsout b hold
      have hcc : c ≠ conn := by
        rintro rfl
        exact hfresh b hold
      have hcl : c ≠ l := by
        rintro rfl
        rw [hlstate] at h2
        simp at h2
      rw [hother c hcl hcs hcc]
      exact ⟨h1, h2, fun hm => h3 (List.mem_cons_of_mem _ hm), h4⟩
    · rw [hcsock]
      exact ⟨hclive, rfl, hnd.1,
        fun fd hfd => (h.fdLive fd c hfd).2.2 List.mem_cons_self⟩
  · intro b c d hb hc
    rcases hmem hb with hb' | ⟨hbl, hdc⟩
    · rcases hmem hc with hc' | ⟨-, hdc⟩
      · exact h.apart b c d hb' hc'
      · rw [hdc] at hb'
        exact absurd hb' (hfresh b)
    · grind
  · intro fd b hb
    obtain ⟨h1, h2, h3⟩ := h.fdLive fd b hb
    exact ⟨h1, h2, fun hm => h3 (List.mem_cons_of_mem _ hm)⟩
  · exact h.fdOne
  · intro b hb
    rcases h.owned b hb with ho | ho | ⟨m, hm⟩
    · grind
    · exact Or.inr (Or.inl ho)
    · grind
  · intro b hb
    exact h.looseLive b (List.mem_cons_of_mem _ hb)
  · exact hnd.2

end Sock
