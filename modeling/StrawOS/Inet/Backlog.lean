import StrawOS.Inet.Table

/-!
# The backlog invariant along every run of the table

`Linked` ties parent pointers, backlogs and the pending count together.  Each
kind of table update gets one lemma: a change of one socket that leaves the
links alone, a slot given out, a child joining its listener, a slot freed (with
the children of a listener), an accepted child, and a socket that starts to
listen.  The runs are those in which no reset segment is matched to a listening
socket; a listener is matched by a segment from address and port zero.
-/

namespace Inet

structure Linked (t : Table) : Prop where
  zero : ∀ i, (t i).used = false → t i = {}
  parent : ∀ i l, (t i).parent = some l →
    (t l).used = true ∧ (t l).kind = .tcp ∧ (t l).state = .listen
  child : ∀ i, (t i).parent ≠ none → (t i).connected = true
  listener : ∀ l, (t l).state = .listen → (t l).connected = false ∧ (t l).kind = .tcp
  pending : ∀ l, (pendingChildren t l).length ≤ tcpBacklog
  backlog_nil : ∀ l, (t l).state ≠ .listen → (t l).backlog = []
  nodup : ∀ l, (t l).backlog.Nodup
  entry : ∀ l c, c ∈ (t l).backlog → (t c).parent = some l ∧ (t c).state ≠ .synRcvd
  idle : ∀ i, TimerIdle (t i)

/-- The invariant as a user of the socket layer sees it: parents listen, backlogs
are short and hold distinct children, and a free slot is referenced nowhere. -/
structure BacklogsConsistent (t : Table) : Prop where
  parent_listens : ∀ i l, (t i).used = true → (t i).parent = some l →
    (t l).used = true ∧ (t l).kind = .tcp ∧ (t l).state = .listen
  backlog_short : ∀ l, (t l).backlog.length ≤ tcpBacklog
  backlog_nodup : ∀ l, (t l).backlog.Nodup
  backlog_children : ∀ l, ∀ c ∈ (t l).backlog, (t c).used = true ∧ (t c).parent = some l
  free_unreferenced : ∀ i, (t i).used = false →
    (∀ l, i ∉ (t l).backlog) ∧ ∀ j, (t j).parent ≠ some i

theorem Linked.used_of_parent {t : Table} (h : Linked t) {i l : SockId}
    (hp : (t i).parent = some l) : (t i).used = true := by
  by_contra hu
  rw [h.zero i (by simpa using hu)] at hp
  simp at hp

theorem mem_pendingChildren {t : Table} {l i : SockId} :
    i ∈ pendingChildren t l ↔ (t i).used = true ∧ (t i).parent = some l := by
  simp [pendingChildren]

theorem pendingChildren_nodup (t : Table) (l : SockId) : (pendingChildren t l).Nodup :=
  (List.nodup_finRange _).filter _

theorem pendingChildren_length_le {t t' : Table} {l : SockId}
    (h : ∀ i, (t' i).used = true → (t' i).parent = some l →
      (t i).used = true ∧ (t i).parent = some l) :
    (pendingChildren t' l).length ≤ (pendingChildren t l).length := by
  apply ((pendingChildren_nodup t' l).subperm ?_).length_le
  intro i hi
  obtain ⟨hu, hp⟩ := mem_pendingChildren.mp hi
  exact mem_pendingChildren.mpr (h i hu hp)

theorem Linked.consistent {t : Table} (h : Linked t) : BacklogsConsistent t where
  parent_listens i l _ hp := h.parent i l hp
  backlog_short l := by
    refine le_trans (((h.nodup l).subperm ?_).length_le) (h.pending l)
    intro c hc
    have hp := (h.entry l c hc).1
    exact mem_pendingChildren.mpr ⟨h.used_of_parent hp, hp⟩
  backlog_nodup := h.nodup
  backlog_children l c hc :=
    ⟨h.used_of_parent (h.entry l c hc).1, (h.entry l c hc).1⟩
  free_unreferenced i hi := by
    constructor
    · intro l hmem
      have hp := (h.entry l i hmem).1
      rw [h.zero i hi] at hp
      simp at hp
    · intro j hp
      rw [(h.parent j i hp).1] at hi
      exact absurd hi (by decide)

theorem linked_empty : Linked fun _ => {} := by
  refine ⟨fun _ _ => rfl, ?_, ?_, ?_, ?_, fun _ _ => rfl, ?_, ?_, ?_⟩
  · simp
  · simp
  · simp
  · simp [pendingChildren]
  · simp
  · simp
  · intro i _
    rfl

/-! ## One socket changes -/

theorem Linked.update {t : Table} (h : Linked t) (i : SockId) {s : InetSocket}
    (hs : LinkStable (t i) s) (hz : (t i).used = true ∨ s = t i) :
    Linked (Function.update t i s) := by
  have hparent : ∀ j, (Function.update t i s j).parent = (t j).parent := by
    intro j
    by_cases hj : j = i
    · subst hj
      simpa using hs.parent
    · simp [hj]
  have hbacklog : ∀ j, (Function.update t i s j).backlog = (t j).backlog := by
    intro j
    by_cases hj : j = i
    · subst hj
      simpa using hs.backlog
    · simp [hj]
  have hused : ∀ j, (Function.update t i s j).used = (t j).used := by
    intro j
    by_cases hj : j = i
    · subst hj
      simpa using hs.used
    · simp [hj]
  have hlisten : ∀ j, (Function.update t i s j).state = .listen ↔ (t j).state = .listen := by
    intro j
    by_cases hj : j = i
    · subst hj
      simpa using hs.listen
    · simp [hj]
  refine ⟨?_, ?_, ?_, ?_, ?_, ?_, ?_, ?_, ?_⟩
  · intro j hu
    rw [hused] at hu
    by_cases hj : j = i
    · subst hj
      rcases hz with h1 | h1
      · rw [h1] at hu
        exact absurd hu (by decide)
      · rw [h1, Function.update_eq_self]
        exact h.zero j hu
    · simpa [hj] using h.zero j hu
  · intro j l hp
    rw [hparent] at hp
    obtain ⟨h1, h2, h3⟩ := h.parent j l hp
    refine ⟨by rw [hused, h1], ?_, (hlisten l).mpr h3⟩
    by_cases hl : l = i
    · subst hl
      simpa [hs.kind] using h2
    · simpa [hl] using h2
  · intro j hp
    rw [hparent] at hp
    by_cases hj : j = i
    · subst hj
      simpa using hs.connected (h.child j hp)
    · simpa [hj] using h.child j hp
  · intro j hl
    rw [hlisten] at hl
    by_cases hj : j = i
    · subst hj
      simpa [hs.listening hl, hs.kind] using h.listener j hl
    · simpa [hj] using h.listener j hl
  · intro l
    refine le_trans (pendingChildren_length_le ?_) (h.pending l)
    intro j hu hp
    rw [hused] at hu
    rw [hparent] at hp
    exact ⟨hu, hp⟩
  · intro j hl
    rw [Ne, hlisten] at hl
    rw [hbacklog]
    exact h.backlog_nil j hl
  · intro j
    rw [hbacklog]
    exact h.nodup j
  · intro l c hc
    rw [hbacklog] at hc
    obtain ⟨h1, h2⟩ := h.entry l c hc
    refine ⟨by rw [hparent, h1], ?_⟩
    by_cases hci : c = i
    · subst hci
      simpa using fun h0 => h2 (hs.synRcvd h0)
    · simpa [hci] using h2
  · intro j
    by_cases hj : j = i
    · subst hj
      simpa using hs.idle (h.idle j)
    · simpa [hj] using h.idle j

/-! ## A slot is given out -/

theorem Linked.addFresh {t : Table} (h : Linked t) {i : SockId} (hi : (t i).used = false)
    {s : InetSocket} (hp : s.parent = none) (hb : s.backlog = []) (hst : s.state = .closed)
    (hrto : s.rtoDeadline = 0) (hu : s.used = true) : Linked (Function.update t i s) := by
  have hfree := h.consistent.free_unreferenced i hi
  refine ⟨?_, ?_, ?_, ?_, ?_, ?_, ?_, ?_, ?_⟩
  · intro j hj
    by_cases hji : j = i
    · subst hji
      simp [hu] at hj
    · simpa [hji] using h.zero j (by simpa [hji] using hj)
  · intro j l hjp
    by_cases hji : j = i
    · subst hji
      simp [hp] at hjp
    · have hjp : (t j).parent = some l := by simpa [hji] using hjp
      have hl : l ≠ i := fun h0 => hfree.2 j (h0 ▸ hjp)
      simpa [hl] using h.parent j l hjp
  · intro j hjp
    by_cases hji : j = i
    · subst hji
      simp [hp] at hjp
    · simpa [hji] using h.child j (by simpa [hji] using hjp)
  · intro j hl
    by_cases hji : j = i
    · subst hji
      simp [hst] at hl
    · simpa [hji] using h.listener j (by simpa [hji] using hl)
  · intro l
    refine le_trans (pendingChildren_length_le ?_) (h.pending l)
    intro j hju hjp
    by_cases hji : j = i
    · subst hji
      simp [hp] at hjp
    · simpa [hji] using And.intro hju hjp
  · intro j hl
    by_cases hji : j = i
    · subst hji
      simpa using hb
    · simpa [hji] using h.backlog_nil j (by simpa [hji] using hl)
  · intro j
    by_cases hji : j = i
    · subst hji
      simp [hb]
    · simpa [hji] using h.nodup j
  · intro l c hc
    by_cases hli : l = i
    · subst hli
      simp [hb] at hc
    · have hc : c ∈ (t l).backlog := by simpa [hli] using hc
      have hci : c ≠ i := fun h0 => hfree.1 l (h0 ▸ hc)
      simpa [hci] using h.entry l c hc
  · intro j
    by_cases hji : j = i
    · subst hji
      intro _
      simpa using hrto
    · simpa [hji] using h.idle j

/-- A fresh socket becomes the child of a listener with room to spare. -/
theorem Linked.addChild {t : Table} (h : Linked t) {c l : SockId} {s : InetSocket}
    (hcp : (t c).parent = none) (hcl : (t c).state ≠ .listen)
    (hl : (t l).used = true ∧ (t l).kind = .tcp ∧ (t l).state = .listen)
    (hroom : (pendingChildren t l).length < tcpBacklog)
    (hu : s.used = true) (hp : s.parent = some l) (hb : s.backlog = [])
    (hst : s.state = .synRcvd) (hconn : s.connected = true) :
    Linked (Function.update t c s) := by
  have hlc : l ≠ c := fun h0 => hcl (h0 ▸ hl.2.2)
  have hnotentry : ∀ l', c ∉ (t l').backlog := by
    intro l' hmem
    rw [(h.entry l' c hmem).1] at hcp
    simp at hcp
  refine ⟨?_, ?_, ?_, ?_, ?_, ?_, ?_, ?_, ?_⟩
  · intro j hj
    by_cases hjc : j = c
    · subst hjc
      simp [hu] at hj
    · simpa [hjc] using h.zero j (by simpa [hjc] using hj)
  · intro j l' hjp
    by_cases hjc : j = c
    · subst hjc
      obtain rfl : l = l' := by simpa [hp] using hjp
      simpa [hlc] using hl
    · have hjp : (t j).parent = some l' := by simpa [hjc] using hjp
      have hl' : l' ≠ c := fun h0 => hcl (h0 ▸ (h.parent j l' hjp).2.2)
      simpa [hl'] using h.parent j l' hjp
  · intro j hjp
    by_cases hjc : j = c
    · subst hjc
      simpa using hconn
    · simpa [hjc] using h.child j (by simpa [hjc] using hjp)
  · intro j hjl
    by_cases hjc : j = c
    · subst hjc
      simp [hst] at hjl
    · simpa [hjc] using h.listener j (by simpa [hjc] using hjl)
  · intro l'
    by_cases hll : l' = l
    · subst hll
      have hsub : (pendingChildren (Function.update t c s) l').length ≤
          (c :: pendingChildren t l').length := by
        apply ((pendingChildren_nodup _ l').subperm ?_).length_le
        intro j hj
        obtain ⟨hju, hjp⟩ := mem_pendingChildren.mp hj
        by_cases hjc : j = c
        · exact List.mem_cons.mpr (.inl hjc)
        · refine List.mem_cons.mpr (.inr (mem_pendingChildren.mpr ?_))
          simpa [hjc] using And.intro hju hjp
      simp only [List.length_cons] at hsub
      omega
    · refine le_trans (pendingChildren_length_le ?_) (h.pending l')
      intro j hju hjp
      by_cases hjc : j = c
      · grind
      · simpa [hjc] using And.intro hju hjp
  · intro j hjl
    by_cases hjc : j = c
    · subst hjc
      simpa using hb
    · simpa [hjc] using h.backlog_nil j (by simpa [hjc] using hjl)
  · intro j
    by_cases hjc : j = c
    · subst hjc
      simp [hb]
    · simpa [hjc] using h.nodup j
  · intro l' c' hc'
    by_cases hlc' : l' = c
    · subst hlc'
      simp [hb] at hc'
    · have hc' : c' ∈ (t l').backlog := by simpa [hlc'] using hc'
      have hne : c' ≠ c := fun h0 => hnotentry l' (h0 ▸ hc')
      simpa [hne] using h.entry l' c' hc'
  · intro j
    by_cases hjc : j = c
    · subst hjc
      rintro (h0 | ⟨h0, -⟩) <;> simp [hst] at h0
    · simpa [hjc] using h.idle j

/-! ## Changes of one backlog

A listener's backlog may be replaced by any list of distinct children past their
handshake. -/

theorem Linked.setBacklog {t : Table} (h : Linked t) {l : SockId} (hl : (t l).state = .listen)
    {q : List SockId} (hnodup : q.Nodup)
    (hq : ∀ c ∈ q, (t c).parent = some l ∧ (t c).state ≠ .synRcvd) :
    Linked (Function.update t l { t l with backlog := q }) := by
  have hsame : ∀ j, Function.update t l { t l with backlog := q } j =
      { t j with backlog := if j = l then q else (t j).backlog } := by
    intro j
    by_cases hj : j = l
    · subst hj
      simp
    · simp [hj]
  have hused : (t l).used = true := by
    by_contra hu
    rw [h.zero l (by simpa using hu)] at hl
    simp at hl
  refine ⟨?_, ?_, ?_, ?_, ?_, ?_, ?_, ?_, ?_⟩
  · intro j hj
    by_cases hjl : j = l
    · subst hjl
      simp [hused] at hj
    · simpa [hjl] using h.zero j (by simpa [hjl] using hj)
  · intro j l' hp
    simp only [hsame] at hp ⊢
    exact h.parent j l' hp
  · intro j hp
    simp only [hsame] at hp ⊢
    exact h.child j hp
  · intro j hj
    simp only [hsame] at hj ⊢
    exact h.listener j hj
  · intro l'
    refine le_trans (pendingChildren_length_le ?_) (h.pending l')
    intro j hju hjp
    simp only [hsame] at hju hjp
    exact ⟨hju, hjp⟩
  · intro j hj
    simp only [hsame] at hj ⊢
    rw [if_neg (fun h0 : j = l => hj (h0 ▸ hl))]
    exact h.backlog_nil j hj
  · intro j
    simp only [hsame]
    split
    · exact hnodup
    · exact h.nodup j
  · intro l' c hc
    simp only [hsame] at hc ⊢
    split at hc
    · rename_i h0
      exact h0 ▸ hq c hc
    · exact h.entry l' c hc
  · intro j
    simp only [hsame]
    exact h.idle j

theorem Linked.dropParent {t : Table} (h : Linked t) {c : SockId} {s : InetSocket}
    (hc : ∀ l, c ∉ (t l).backlog) (hu : (t c).used = true)
    (hs : LinkStable { t c with parent := none } s) : Linked (Function.update t c s) := by
  have hp : s.parent = none := hs.parent
  have hus : s.used = true := hs.used.trans hu
  have hlisten : ∀ j, (Function.update t c s j).state = .listen ↔ (t j).state = .listen := by
    intro j
    by_cases hj : j = c
    · subst hj
      simpa using hs.listen
    · simp [hj]
  refine ⟨?_, ?_, ?_, ?_, ?_, ?_, ?_, ?_, ?_⟩
  · intro j hj
    by_cases hjc : j = c
    · subst hjc
      simp [hus] at hj
    · simpa [hjc] using h.zero j (by simpa [hjc] using hj)
  · intro j l hjp
    by_cases hjc : j = c
    · subst hjc
      simp [hp] at hjp
    · have hjp : (t j).parent = some l := by simpa [hjc] using hjp
      obtain ⟨h1, h2, h3⟩ := h.parent j l hjp
      refine ⟨?_, ?_, (hlisten l).mpr h3⟩
      · by_cases hlc : l = c
        · subst hlc
          simpa using hus
        · simpa [hlc] using h1
      · by_cases hlc : l = c
        · subst hlc
          simpa [hs.kind] using h2
        · simpa [hlc] using h2
  · intro j hjp
    by_cases hjc : j = c
    · subst hjc
      simp [hp] at hjp
    · simpa [hjc] using h.child j (by simpa [hjc] using hjp)
  · intro j hj
    rw [hlisten] at hj
    by_cases hjc : j = c
    · subst hjc
      simpa [hs.listening hj, hs.kind] using h.listener j hj
    · simpa [hjc] using h.listener j hj
  · intro l
    refine le_trans (pendingChildren_length_le ?_) (h.pending l)
    intro j hju hjp
    by_cases hjc : j = c
    · subst hjc
      simp [hp] at hjp
    · simpa [hjc] using And.intro hju hjp
  · intro j hj
    rw [Ne, hlisten] at hj
    by_cases hjc : j = c
    · subst hjc
      simpa [hs.backlog] using h.backlog_nil j hj
    · simpa [hjc] using h.backlog_nil j hj
  · intro j
    by_cases hjc : j = c
    · subst hjc
      simpa [hs.backlog] using h.nodup j
    · simpa [hjc] using h.nodup j
  · intro l c' hc'
    have hc' : c' ∈ (t l).backlog := by
      by_cases hlc : l = c
      · subst hlc
        simpa [hs.backlog] using hc'
      · simpa [hlc] using hc'
    have hne : c' ≠ c := fun h0 => hc l (h0 ▸ hc')
    simpa [hne] using h.entry l c' hc'
  · intro j
    by_cases hjc : j = c
    · subst hjc
      simpa using hs.idle (h.idle j)
    · simpa [hjc] using h.idle j

/-! ## A slot is freed -/

theorem Linked.clear {t : Table} (h : Linked t) (gone : SockId → Prop) [DecidablePred gone]
    (hparent : ∀ i l, (t i).parent = some l → gone l → gone i)
    (hentry : ∀ l c, c ∈ (t l).backlog → gone c → gone l) :
    Linked fun i => if gone i then {} else t i := by
  refine ⟨?_, ?_, ?_, ?_, ?_, ?_, ?_, ?_, ?_⟩
  · intro i hi
    split at hi <;> rename_i hg
    · simp [hg]
    · simpa [hg] using h.zero i hi
  · intro i l hp
    split at hp <;> rename_i hg
    · simp at hp
    · rw [if_neg fun h0 => hg (hparent i l hp h0)]
      exact h.parent i l hp
  · intro i hp
    split at hp <;> rename_i hg
    · simp at hp
    · rw [if_neg hg]
      exact h.child i hp
  · intro i hl
    split at hl <;> rename_i hg
    · simp at hl
    · rw [if_neg hg]
      exact h.listener i hl
  · intro l
    refine le_trans (pendingChildren_length_le ?_) (h.pending l)
    intro i hu hp
    split at hp <;> rename_i hg
    · simp at hp
    · rw [if_neg hg] at hu
      exact ⟨hu, hp⟩
  · intro i hl
    split at hl <;> rename_i hg
    · simp [hg]
    · simpa [hg] using h.backlog_nil i hl
  · intro i
    split
    · simp
    · exact h.nodup i
  · intro l c hc
    split at hc <;> rename_i hg
    · simp at hc
    · rw [if_neg fun h0 => hg (hentry l c hc h0)]
      exact h.entry l c hc
  · intro i
    split
    · exact fun _ => rfl
    · exact h.idle i

theorem leaveBacklog_of_some {t : Table} {s l : SockId} (hp : (t s).parent = some l) :
    leaveBacklog t s = Function.update t l { t l with backlog := (t l).backlog.erase s } := by
  rw [leaveBacklog, hp]

theorem leaveBacklog_of_none {t : Table} {s : SockId} (hp : (t s).parent = none) :
    leaveBacklog t s = t := by
  rw [leaveBacklog, hp]

/-- `inet_free` on a socket that does not listen. -/
theorem inetFreeAux_plain (fuel : Nat) {t : Table} {s : SockId} (hs : (t s).state ≠ .listen) :
    (inetFreeAux (fuel + 1) t s).1 = Function.update (leaveBacklog t s) s {} := by
  have hst : (leaveBacklog t s s).state = (t s).state := by
    cases hp : (t s).parent with
    | none => rw [leaveBacklog_of_none hp]
    | some l =>
        rw [leaveBacklog_of_some hp]
        by_cases hl : s = l
        · subst hl
          simp
        · simp [hl]
  rw [inetFreeAux]
  rw [if_neg (by rw [hst]; exact fun h0 => hs h0.2)]

/-- The loop of `inet_free` over the children of a listener clears them. -/
theorem inetFree_children (fuel : Nat) (s : SockId) (cs : List SockId) (t : Table)
    (out : List Emission)
    (hchild : ∀ c, (t c).used = true → (t c).parent = some s → (t c).state ≠ .listen) :
    (cs.foldl (fun acc c =>
      if (acc.1 c).used ∧ (acc.1 c).parent = some s then
        let t2 := Function.update acc.1 c { acc.1 c with parent := none }
        let f := inetFreeAux (fuel + 1) t2 c
        (f.1, acc.2 ++ tcpSendSegment (t2 c) (t2 c).sndNxt tcpRst [] :: f.2)
      else acc) (t, out)).1 =
    fun i => if i ∈ cs ∧ (t i).used = true ∧ (t i).parent = some s then {} else t i := by
  induction cs generalizing t out with
  | nil => simp
  | cons c cs ih =>
      rw [List.foldl_cons]
      by_cases hc : (t c).used = true ∧ (t c).parent = some s
      · -- clearing the parent first means that the nested call finds no backlog to leave
        have hnested : (inetFreeAux (fuel + 1)
            (Function.update t c { t c with parent := none }) c).1 = Function.update t c {} := by
          rw [inetFreeAux_plain fuel (by simpa using hchild c hc.1 hc.2)]
          simp [leaveBacklog]
        rw [if_pos hc]
        dsimp only
        rw [hnested, ih]
        · funext i
          by_cases hi : i = c
          · subst hi
            simp [hc]
          · simp [hi]
        · grind
      · rw [if_neg hc, ih _ _ hchild]
        funext i
        by_cases hi : i = c
        · subst hi
          simp [hc]
        · simp [hi]

theorem Linked.leaveBacklog {t : Table} (h : Linked t) (s : SockId) :
    Linked (Inet.leaveBacklog t s) ∧ (∀ l, s ∉ (Inet.leaveBacklog t s l).backlog) ∧
      ∀ i, (Inet.leaveBacklog t s i).state = (t i).state := by
  cases hp : (t s).parent with
  | some l =>
      have hl := (h.parent s l hp).2.2
      rw [leaveBacklog_of_some hp]
      refine ⟨h.setBacklog hl ((h.nodup l).erase s) ?_, ?_, ?_⟩
      · exact fun c hc => h.entry l c (List.mem_of_mem_erase hc)
      · intro l'
        by_cases hll : l' = l
        · subst hll
          simpa using (h.nodup l').not_mem_erase
        · intro hmem
          have hmem : s ∈ (t l').backlog := by simpa [hll] using hmem
          have hp' := (h.entry l' s hmem).1
          rw [hp] at hp'
          exact hll (Option.some.inj hp').symm
      · intro i
        by_cases hi : i = l
        · subst hi
          simp
        · simp [hi]
  | none =>
      rw [leaveBacklog_of_none hp]
      refine ⟨h, ?_, fun _ => rfl⟩
      intro l hmem
      rw [(h.entry l s hmem).1] at hp
      simp at hp

/-- **Freeing** keeps the invariant, and touches no slot but the freed one, its
children and, in the backlog, its parent. -/
theorem Linked.free {t : Table} (h : Linked t) (s : SockId) : Linked (inetFree t s).1 := by
  obtain ⟨hleave, hnot, hsame⟩ := h.leaveBacklog s
  by_cases hs : (t s).state = .listen
  · have hpar : (t s).parent = none := by
      by_contra hp
      have h1 := h.child s hp
      rw [(h.listener s hs).1] at h1
      exact absurd h1 (by decide)
    have hid : Inet.leaveBacklog t s = t := leaveBacklog_of_none hpar
    have hchild : ∀ c, (t c).used = true → (t c).parent = some s → (t c).state ≠ .listen := by
      intro c _ hp hl
      have h1 := h.child c (by simp [hp])
      rw [(h.listener c hl).1] at h1
      exact absurd h1 (by decide)
    have hres : (inetFree t s).1 =
        fun i => if i = s ∨ (t i).parent = some s then {} else t i := by
      unfold inetFree
      rw [show inetMaxSockets + 1 = (31 + 1) + 1 from rfl, inetFreeAux]
      rw [hid]
      by_cases hk : (t s).kind = .tcp
      · rw [if_pos ⟨hk, hs⟩, inetFree_children 31 s _ t [] hchild]
        funext i
        by_cases hi : i = s
        · simp [hi]
        · by_cases hp : (t i).parent = some s
          · simp [hi, hp, h.used_of_parent hp]
          · simp [hi, hp]
      · rw [if_neg fun h0 => hk h0.1]
        funext i
        by_cases hi : i = s
        · simp [hi]
        · have hp : (t i).parent ≠ some s := fun hp => hk (h.parent i s hp).2.1
          simp [hi, hp]
    rw [hres]
    apply h.clear (fun i => i = s ∨ (t i).parent = some s)
    · rintro i l hp (rfl | hl)
      · exact .inr hp
      · have h1 := (h.parent i l hp).2.2
        exact absurd h1 (hchild l (h.used_of_parent hl) hl)
    · rintro l c hc (rfl | hp)
      · have h1 := (h.entry l _ hc).1
        rw [hpar] at h1
        simp at h1
      · have h1 := (h.entry l c hc).1
        rw [hp] at h1
        exact .inl (Option.some.inj h1).symm
  · unfold inetFree
    rw [inetFreeAux_plain _ hs]
    have hres : Function.update (Inet.leaveBacklog t s) s {} =
        fun i => if i = s then {} else Inet.leaveBacklog t s i := by
      funext i
      simp [Function.update_apply]
    rw [hres]
    apply hleave.clear (fun i => i = s)
    · rintro i l hp rfl
      exact absurd ((hsame l).symm.trans (hleave.parent i l hp).2.2) hs
    · rintro l c hc rfl
      exact absurd hc (hnot l)

/-! ## The steps -/

/-- No reset segment is matched to a listening socket. -/
def NoListenerReset (st : State) (op : Env × Op) : Prop :=
  match op.2 with
  | .tcpDeliver srcIp data =>
      ∀ seg i, tcpParse data = some seg →
        inetFindTcp st.sockets srcIp seg.srcPort seg.dstPort = some i →
        hasFlag seg.flags tcpRst = true → (st.sockets i).state ≠ .listen
  | _ => True

theorem findSlot_some {p : SockId → Bool} {i : SockId} (h : findSlot p = some i) : p i = true :=
  List.find?_some h

/-- Storing a reaction that leaves the links alone, except that a completed
handshake joins the backlog of its listener. -/
theorem Linked.storeReaction {t : Table} (h : Linked t) {i : SockId} (hu : (t i).used = true)
    {r : Reaction} (hs : LinkStable (t i) r.sock)
    (hacc : r.accepted = true → (t i).state = .synRcvd ∧ r.sock.state ≠ .synRcvd) :
    Linked (Inet.storeReaction t i r) := by
  have h1 := h.update i hs (.inl hu)
  unfold Inet.storeReaction
  split
  · rename_i l hr hp
    obtain ⟨hrcvd, hout⟩ := hacc hr
    have hpi : (Function.update t i r.sock i).parent = some l := by simpa using hp
    have hnot : i ∉ (Function.update t i r.sock l).backlog := by
      intro hmem
      have hl : (Function.update t i r.sock l).backlog = (t l).backlog := by
        by_cases hli : l = i
        · subst hli
          simpa using hs.backlog
        · simp [hli]
      rw [hl] at hmem
      exact (h.entry l i hmem).2 hrcvd
    refine h1.setBacklog (h1.parent i l hpi).2.2 ?_ ?_
    · exact List.nodup_append.mpr ⟨h1.nodup l, List.nodup_singleton i,
        fun a ha b hb => by rintro rfl; exact hnot (List.mem_singleton.mp hb ▸ ha)⟩
    · intro c hc
      rcases List.mem_append.mp hc with hc | hc
      · exact h1.entry l c hc
      · obtain rfl := List.mem_singleton.mp hc
        exact ⟨hpi, by simpa using hout⟩
  · exact h1

theorem Linked.applyReaction {t : Table} (h : Linked t) {i : SockId} (hu : (t i).used = true)
    {r : Reaction} (hs : LinkStable (t i) r.sock)
    (hacc : r.accepted = true → (t i).state = .synRcvd ∧ r.sock.state ≠ .synRcvd) :
    Linked (Inet.applyReaction t i r).1 := by
  have hstore := h.storeReaction hu hs hacc
  unfold Inet.applyReaction
  split
  · exact hstore.free i
  · exact hstore

/-- Giving a slot out keeps the invariant; the slot given out was free and is a
closed socket without links, and no other slot changes. -/
theorem Linked.alloc {st : State} (h : Linked st.sockets) (kind : InetKind) (nonblock : Bool)
    (mem : Memory) :
    Linked (inetAlloc st kind nonblock mem).1.sockets ∧
      ∀ c, (inetAlloc st kind nonblock mem).2 = some c →
        (st.sockets c).used = false ∧
        ((inetAlloc st kind nonblock mem).1.sockets c).parent = none ∧
        ((inetAlloc st kind nonblock mem).1.sockets c).state = .closed ∧
        ((inetAlloc st kind nonblock mem).1.sockets c).used = true ∧
        ((inetAlloc st kind nonblock mem).1.sockets c).backlog = [] ∧
        ∀ j, j ≠ c → (inetAlloc st kind nonblock mem).1.sockets j = st.sockets j := by
  unfold inetAlloc
  split
  · exact ⟨h, by simp⟩
  · rename_i i hfind
    have hi : (st.sockets i).used = false := by simpa using findSlot_some hfind
    have hnew : ∀ s : InetSocket, s.parent = none → s.backlog = [] → s.state = .closed →
        s.rtoDeadline = 0 → s.used = true → Linked (Function.update st.sockets i s) :=
      fun s h1 h2 h3 h4 h5 => h.addFresh hi h1 h2 h3 h4 h5
    dsimp only
    split
    · split
      · grind
      · exact ⟨(hnew _ rfl rfl rfl rfl rfl).free i, by simp⟩
    · split
      · grind
      · exact ⟨(hnew _ rfl rfl rfl rfl rfl).free i, by simp⟩

theorem Linked.passiveOpen {st : State} (h : Linked st.sockets) (env : Env) (srcIp : Ipv4Addr)
    (seg : TcpSegment) : Linked (tcpPassiveOpen env st srcIp seg).1.sockets := by
  unfold tcpPassiveOpen
  split
  · exact h
  split
  · exact h
  rename_i l hl
  split
  · exact h
  obtain ⟨halloc, hfresh⟩ := h.alloc .tcp false env.mem
  split
  · rename_i st1 heq
    rwa [heq] at halloc
  · rename_i st1 c heq
    rw [heq] at halloc hfresh
    have halloc : Linked st1.sockets := halloc
    obtain ⟨hfree, hp, hst, hu, hb, hother⟩ := hfresh c rfl
    have hlisten := findSlot_some hl
    simp only [Bool.and_eq_true, decide_eq_true_eq] at hlisten
    have hlc : l ≠ c := by
      rintro rfl
      rw [hfree] at hlisten
      simp at hlisten
    have hpend : (pendingChildren st1.sockets l).length ≤
        (pendingChildren st.sockets l).length := by
      apply pendingChildren_length_le
      intro j hju hjp
      by_cases hjc : j = c
      · subst hjc
        rw [show (st1.sockets j).parent = none from hp] at hjp
        simp at hjp
      · rw [← hother j hjc]
        exact ⟨hju, hjp⟩
    refine halloc.addChild hp (by rw [show (st1.sockets c).state = .closed from hst]; simp)
      (l := l) ?_ (by omega) hu rfl hb rfl rfl
    rw [show st1.sockets l = st.sockets l from hother l hlc]
    exact ⟨hlisten.1.1.1, hlisten.1.1.2, hlisten.1.2⟩

theorem inetFindTcp_used {t : Table} {ip : Ipv4Addr} {rport lport : UInt16} {i : SockId}
    (h : inetFindTcp t ip rport lport = some i) : (t i).used = true := by
  have := findSlot_some h
  simp only [Bool.and_eq_true] at this
  exact this.1.1.1.1

theorem Linked.tcpDeliver {st : State} (h : Linked st.sockets) (env : Env) (srcIp : Ipv4Addr)
    (data : List UInt8) (hg : NoListenerReset st (env, .tcpDeliver srcIp data)) :
    Linked (inetTcpDeliver env st srcIp data).1.sockets := by
  unfold inetTcpDeliver
  split
  · exact h
  · rename_i seg hparse
    unfold tcpSegmentArrives
    split
    · exact h.passiveOpen env srcIp seg
    · rename_i i hfind
      obtain ⟨hs, hacc⟩ := LinkStable.receive env.now seg (hg seg i hparse hfind)
      exact h.applyReaction (inetFindTcp_used hfind) hs hacc

theorem Linked.tick {st : State} (h : Linked st.sockets) (now : Nat) :
    Linked (inetTick now st).1.sockets := by
  refine List.foldlRecOn (motive := fun acc : Table × List Emission => Linked acc.1) _ _ h ?_
  intro acc hacc i _
  unfold inetTickSlot
  split
  · rename_i hcond
    obtain ⟨hs, hno⟩ := LinkStable.tick (hacc.idle i) now
    exact hacc.applyReaction hcond.1 hs (by simp [hno])
  · exact hacc

theorem Linked.accept {st : State} (h : Linked st.sockets) (i : SockId) (fdFree : Bool) :
    Linked (inetAccept st i fdFree).1.sockets := by
  unfold inetAccept
  dsimp only
  split
  · exact h
  rename_i hlisten
  push Not at hlisten
  split
  · exact h
  rename_i c rest hbl
  have hnd := h.nodup i
  rw [hbl] at hnd
  have hrest := List.nodup_cons.mp hnd
  have hentry := h.entry i c (by rw [hbl]; exact List.mem_cons_self)
  have h1 := h.setBacklog hlisten.2 hrest.2
    (fun c' hc' => h.entry i c' (by rw [hbl]; exact List.mem_cons_of_mem _ hc'))
  have hci : c ≠ i := by
    rintro rfl
    have h2 := h.child c (by simp [hentry.1])
    rw [(h.listener c hlisten.2).1] at h2
    exact absurd h2 (by decide)
  have h2 := h1.dropParent (c := c)
    (s := { Function.update st.sockets i { st.sockets i with backlog := rest } c with
      parent := none, orphan := false, nonblock := (st.sockets i).nonblock })
    (by
      intro l hmem
      by_cases hli : l = i
      · subst hli
        exact hrest.1 (by simpa using hmem)
      · have hmem : c ∈ (st.sockets l).backlog := by simpa [hli] using hmem
        have hp := (h.entry l c hmem).1
        rw [hentry.1] at hp
        exact hli (Option.some.inj hp).symm)
    (by simpa [hci] using h.used_of_parent hentry.1)
    ⟨rfl, rfl, rfl, rfl, Iff.rfl, id, id, fun _ => rfl, id⟩
  split
  · exact h2
  · exact h2.free c

theorem Linked.listen {st : State} (h : Linked st.sockets) {i : SockId}
    (hu : (st.sockets i).used = true) : Linked (inetListen st i).sockets := by
  unfold inetListen
  dsimp only
  split
  · exact h
  rename_i hok
  push Not at hok
  obtain ⟨hk, hcl, hconn, -⟩ := hok
  have hconn : (st.sockets i).connected = false := by simpa using hconn
  have hb : (st.sockets i).backlog = [] := h.backlog_nil i (by simp [hcl])
  have hsame : ∀ j, Function.update st.sockets i { st.sockets i with state := .listen } j =
      { st.sockets j with state := if j = i then .listen else (st.sockets j).state } := by
    intro j
    by_cases hj : j = i
    · subst hj
      simp
    · simp [hj]
  refine ⟨?_, ?_, ?_, ?_, ?_, ?_, ?_, ?_, ?_⟩
  · intro j hj
    by_cases hji : j = i
    · subst hji
      simp [hu] at hj
    · simpa [hji] using h.zero j (by simpa [hji] using hj)
  · intro j l hp
    simp only [hsame] at hp ⊢
    obtain ⟨h1, h2, h3⟩ := h.parent j l hp
    exact ⟨h1, h2, by rw [h3]; simp⟩
  · intro j hp
    simp only [hsame] at hp ⊢
    exact h.child j hp
  · intro j hj
    simp only [hsame] at hj ⊢
    by_cases hji : j = i
    · rw [hji]
      exact ⟨hconn, hk⟩
    · rw [if_neg hji] at hj
      exact h.listener j hj
  · intro l
    refine le_trans (pendingChildren_length_le ?_) (h.pending l)
    intro j hju hjp
    simp only [hsame] at hju hjp
    exact ⟨hju, hjp⟩
  · intro j hj
    simp only [hsame] at hj ⊢
    by_cases hji : j = i
    · rw [hji]
      exact hb
    · rw [if_neg hji] at hj
      exact h.backlog_nil j hj
  · intro j
    simp only [hsame]
    exact h.nodup j
  · intro l c hc
    simp only [hsame] at hc ⊢
    obtain ⟨h1, h2⟩ := h.entry l c hc
    refine ⟨h1, ?_⟩
    split
    · simp
    · exact h2
  · intro j _
    simp only [hsame] at *
    by_cases hji : j = i
    · rw [hji]
      exact h.idle i (.inr ⟨hcl, hconn⟩)
    · rename_i hidle
      simp only [hji, if_false] at hidle
      exact h.idle j hidle

/-- A call on a slot that may have been freed meanwhile: on a free slot it
changes nothing. -/
theorem Linked.updateCall {t : Table} (h : Linked t) (i : SockId) {f : InetSocket → InetSocket}
    (hs : LinkStable (t i) (f (t i))) (hempty : f {} = {}) :
    Linked (Function.update t i (f (t i))) := by
  apply h.update i hs
  by_cases hu : (t i).used = true
  · exact .inl hu
  · right
    rw [h.zero i (by simpa using hu), hempty]

theorem Linked.connect {st : State} (h : Linked st.sockets) (env : Env) (netUp : Bool) {i : SockId}
    (hu : (st.sockets i).used = true) (name : List UInt8) :
    Linked (inetConnect env netUp st i name).1.sockets := by
  unfold inetConnect
  split
  · exact h
  dsimp only
  split
  · exact h
  split
  · rename_i hudp
    have hl : (st.sockets i).state ≠ .listen := by
      intro h0
      rw [(h.listener i h0).2] at hudp
      simp at hudp
    refine h.update i ⟨rfl, rfl, rfl, rfl, Iff.rfl, id, fun _ => rfl, fun h0 => absurd h0 hl, ?_⟩
      (.inl hu)
    rintro - (h0 | ⟨-, h0⟩)
    · exact absurd h0 hl
    · simp at h0
  · split
    · exact h
    · rename_i hok
      push Not at hok
      exact h.update i (LinkStable.mk rfl rfl rfl rfl (by simp [tcpConnect, tcpArmTimer, hok.1])
        (by simp [tcpConnect, tcpArmTimer]) (fun _ => rfl) (by simp [hok.1])
        (by rintro - (h0 | ⟨h0, -⟩) <;> simp [tcpConnect, tcpArmTimer] at h0)) (.inl hu)

theorem LinkStable.ports {s s' : InetSocket} (hlinks : links s' = links s)
    (hstate : s'.state = s.state) (hrto : s'.rtoDeadline = s.rtoDeadline) : LinkStable s s' := by
  simp only [links, Prod.mk.injEq] at hlinks
  obtain ⟨hu, hk, hp, hb, hc⟩ := hlinks
  refine ⟨hu, hk, hp, hb, by rw [hstate], by rw [hstate]; exact id, by rw [hc]; exact id,
    fun _ => hc, ?_⟩
  unfold TimerIdle
  rw [hstate, hc, hrto]
  exact id

theorem Linked.bind {st : State} (h : Linked st.sockets) {i : SockId}
    (hu : (st.sockets i).used = true) (name : List UInt8) :
    Linked (inetBind st i name).sockets := by
  unfold inetBind
  split
  · exact h
  dsimp only
  split
  · exact h
  · exact h.update i (LinkStable.ports rfl rfl rfl) (.inl hu)

theorem Linked.read {st : State} (h : Linked st.sockets) (i : SockId) (count : Nat) :
    Linked (inetRead st i count).1.sockets := by
  unfold inetRead
  dsimp only
  split
  · rename_i hudp
    split
    · refine h.update i (LinkStable.ports rfl rfl rfl) (.inl ?_)
      by_contra hu
      rw [h.zero i (by simpa using hu)] at hudp
      simp at hudp
    · exact h
  · exact h.updateCall i (f := fun s => (tcpRead s count).1) (LinkStable.read count) rfl

theorem tcpWriteLoop_empty (now fuel : Nat) (rest : List UInt8) (written : Nat) :
    (tcpWriteLoop now fuel {} rest written).1 = {} := by
  cases fuel with
  | zero => rfl
  | succ fuel =>
      rw [tcpWriteLoop]
      split
      · rfl
      · simp

theorem Linked.write {st : State} (h : Linked st.sockets) (env : Env) (i : SockId)
    (rest : List UInt8) (written : Nat) :
    Linked (inetWrite env st i rest written).1.sockets := by
  unfold inetWrite
  split
  · exact h
  · exact h.updateCall i (f := fun s => (tcpWrite env.now s rest written).1)
      (LinkStable.writeLoop env.now _ (LinkStable.refl _) rest written)
      (tcpWriteLoop_empty _ _ _ _)

theorem Linked.close {st : State} (h : Linked st.sockets) (env : Env) {i : SockId}
    (hu : (st.sockets i).used = true) : Linked (inetClose env st i).1.sockets := by
  unfold inetClose
  dsimp only
  split
  · obtain ⟨hs, hno⟩ := LinkStable.close (s := st.sockets i) env.now
    exact h.applyReaction hu hs (by simp [hno])
  · exact h.free i

theorem Linked.udpDeliver {st : State} (h : Linked st.sockets) (srcIp : Ipv4Addr)
    (srcPort dstPort : UInt16) (data : List UInt8) :
    Linked (inetUdpDeliver st srcIp srcPort dstPort data).sockets := by
  unfold inetUdpDeliver
  split
  · exact h
  · rename_i i hfind
    have hmatch := findSlot_some hfind
    simp only [Bool.and_eq_true] at hmatch
    dsimp only
    split
    · exact h
    · exact h.update i (LinkStable.ports rfl rfl rfl) (.inl hmatch.1.1.1)

theorem Linked.create {st : State} (h : Linked st.sockets) (env : Env) (kind : InetKind)
    (nonblock fdFree : Bool) : Linked (inetSocketCreate env st kind nonblock fdFree).sockets := by
  have halloc := (h.alloc kind nonblock env.mem).1
  unfold inetSocketCreate
  split
  · rename_i heq
    rwa [heq] at halloc
  · rename_i heq
    rw [heq] at halloc
    split
    · exact halloc
    · exact halloc.free _

theorem Linked.whenUsed {st : State} (h : Linked st.sockets) (i : SockId)
    {r : State × List Emission}
    (hr : (st.sockets i).used = true → Linked r.1.sockets) :
    Linked (Inet.whenUsed st i r).1.sockets := by
  unfold Inet.whenUsed
  split
  · rename_i hu
    exact hr hu
  · exact h

theorem Linked.inetStep {st : State} (h : Linked st.sockets) (op : Env × Op)
    (hg : NoListenerReset st op) : Linked (Inet.inetStep st op).1.sockets := by
  obtain ⟨env, op⟩ := op
  cases op with
  | socketCreate kind nonblock fdFree => exact h.create env kind nonblock fdFree
  | connect i netUp name => exact h.whenUsed i fun hu => h.connect env netUp hu name
  | connectWait i elapsed =>
      exact h.updateCall i (f := fun s => (tcpConnectWait s elapsed).1)
        (LinkStable.connectWait elapsed) rfl
  | bind i name => exact h.whenUsed i fun hu => h.bind hu name
  | listen i => exact h.whenUsed i fun hu => h.listen hu
  | accept i fdFree => exact h.accept i fdFree
  | read i count => exact h.read i count
  | write i rest written => exact h.write env i rest written
  | ioctl i nonblock =>
      exact h.whenUsed i fun hu => h.update i (LinkStable.ports rfl rfl rfl) (.inl hu)
  | close i => exact h.whenUsed i fun hu => h.close env hu
  | tick => exact h.tick env.now
  | tcpDeliver srcIp data => exact h.tcpDeliver env srcIp data hg
  | udpDeliver srcIp srcPort dstPort data => exact h.udpDeliver srcIp srcPort dstPort data

theorem linked_of_reachable {st : State} (h : inetMachine.Reachable NoListenerReset st) :
    Linked st.sockets := by
  refine h.invariant (P := fun st => Linked st.sockets) ?_ ?_
  · intro st hst
    rw [show st.sockets = fun _ => {} from hst]
    exact linked_empty
  · intro st op hs hg
    exact hs.inetStep op hg

end Inet
