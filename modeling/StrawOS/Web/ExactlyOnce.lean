import StrawOS.Web.Queues

/-!
# Each request is completed once

The log says what happened to the requests.  A request whose callback was called is held
until the callback returns and is freed then, a cancelled one has no callback any more,
and a freed one is not in memory; so nothing happens to a request a second time.
-/

namespace Web

namespace Event

/-- The request of an event. -/
def id : Event → Nat
  | called id _ _ => id
  | cancelled id => id
  | freed id => id

def calledId : Event → Option Nat
  | called id _ _ => some id
  | _ => none

def freedId : Event → Option Nat
  | freed id => some id
  | _ => none

end Event

/-- No request is called or freed twice, and none is called after it was cancelled. -/
structure Once (log : List Event) : Prop where
  called : (log.filterMap Event.calledId).Nodup
  freed : (log.filterMap Event.freedId).Nodup
  silent : log.Pairwise fun e e' => ∀ id, e = .cancelled id → e'.calledId ≠ some id

/-- What the log says about the requests in memory.  `running` are those whose callback
runs. -/
structure Logged (n : Net) (running : List Nat) : Prop where
  id_lt : ∀ p r, n.heap p = some r → r.id < n.requests
  inj : ∀ p p' r r', n.heap p = some r → n.heap p' = some r' → r.id = r'.id → p = p'
  event_lt : ∀ e ∈ n.log, e.id < n.requests
  called : ∀ e ∈ n.log, ∀ p r, n.heap p = some r → e.calledId = some r.id → p ∈ running
  cancelled : ∀ p r, n.heap p = some r → .cancelled r.id ∈ n.log → r.done = false
  freed : ∀ p r, n.heap p = some r → .freed r.id ∉ n.log
  ends : ∀ id < n.requests, .freed id ∈ n.log ∨ ∃ p r, n.heap p = some r ∧ r.id = id
  once : Once n.log

theorem nodup_concat {l : List Nat} (h : l.Nodup) {a : Nat} (ha : a ∉ l) : (l ++ [a]).Nodup := by
  rw [List.nodup_append]
  refine ⟨h, List.nodup_singleton a, ?_⟩
  intro b hb c hc hbc
  obtain rfl := List.mem_singleton.1 hc
  exact ha (hbc ▸ hb)

theorem mem_concat {α : Type*} {l : List α} {a b : α} (h : a ∈ l ++ [b]) : a ∈ l ∨ a = b := by
  rcases List.mem_append.1 h with hl | hb
  · exact Or.inl hl
  · exact Or.inr (List.mem_singleton.1 hb)

theorem Once.concat {log : List Event} (h : Once log) {e : Event}
    (hcalled : ∀ id, e.calledId = some id →
      id ∉ log.filterMap Event.calledId ∧ .cancelled id ∉ log)
    (hfreed : ∀ id, e.freedId = some id → id ∉ log.filterMap Event.freedId) : Once (log ++ [e]) := by
  refine ⟨?_, ?_, ?_⟩
  · cases hid : e.calledId with
    | none => simpa [hid] using h.called
    | some id => simpa [hid] using nodup_concat h.called (hcalled id hid).1
  · cases hid : e.freedId with
    | none => simpa [hid] using h.freed
    | some id => simpa [hid] using nodup_concat h.freed (hfreed id hid)
  · refine List.pairwise_append.2 ⟨h.silent, List.pairwise_singleton _ _, ?_⟩
    intro e' he' e'' he'' id hcancelled hid
    obtain rfl := List.mem_singleton.1 he''
    subst hcancelled
    exact (hcalled id hid).2 he'

section Log

variable {n n' : Net} {running : List Nat}

theorem Same.heap (h : Same n n') {p : Nat} {r' : Req} (hr : n'.heap p = some r') :
    ∃ r, n.heap p = some r ∧ r.id = r'.id ∧ r.done = r'.done := by
  have hp := h.reqs p
  rw [hr] at hp
  cases hn : n.heap p with
  | none =>
    rw [hn] at hp
    cases hp
  | some r => grind

theorem Same.symm (h : Same n n') : Same n' n :=
  ⟨h.hostCount.symm, h.requests.symm, h.log.symm, h.pumps.symm, fun p => (h.reqs p).symm⟩

theorem Logged.same (h : Logged n running) (hsame : Same n n') : Logged n' running := by
  refine ⟨?_, ?_, ?_, ?_, ?_, ?_, ?_, ?_⟩
  · intro p r' hr'
    obtain ⟨r, hr, hid, -⟩ := hsame.heap hr'
    rw [← hid, hsame.requests]
    exact h.id_lt p r hr
  · intro p p' s s' hs hs' hids
    obtain ⟨r, hr, hid, -⟩ := hsame.heap hs
    obtain ⟨r', hr', hid', -⟩ := hsame.heap hs'
    exact h.inj p p' r r' hr hr' (hid.trans (hids.trans hid'.symm))
  · rw [hsame.log, hsame.requests]
    exact h.event_lt
  · rw [hsame.log]
    intro e he p r' hr' hcalled
    obtain ⟨r, hr, hid, -⟩ := hsame.heap hr'
    exact h.called e he p r hr (by rw [hid]; exact hcalled)
  · rw [hsame.log]
    intro p r' hr' hcancelled
    obtain ⟨r, hr, hid, hdone⟩ := hsame.heap hr'
    rw [← hdone]
    exact h.cancelled p r hr (by rw [hid]; exact hcancelled)
  · rw [hsame.log]
    intro p r' hr'
    obtain ⟨r, hr, hid, -⟩ := hsame.heap hr'
    rw [← hid]
    exact h.freed p r hr
  · rw [hsame.log, hsame.requests]
    intro id hid
    rcases h.ends id hid with hfreed | ⟨p, r, hr, hrid⟩
    · exact Or.inl hfreed
    · obtain ⟨r', hr', hid', -⟩ := hsame.symm.heap hr
      exact Or.inr ⟨p, r', hr', hid'.trans hrid⟩
  · rw [hsame.log]
    exact h.once

theorem mem_calledId {log : List Event} {id : Nat} (h : id ∈ log.filterMap Event.calledId) :
    ∃ e ∈ log, e.calledId = some id := List.mem_filterMap.1 h

theorem mem_freedId {log : List Event} {id : Nat} (h : id ∈ log.filterMap Event.freedId) :
    .freed id ∈ log := by
  obtain ⟨e, he, hid⟩ := List.mem_filterMap.1 h
  cases e with
  | freed id' =>
    obtain rfl := Option.some.inj hid
    exact he
  | called => cases hid
  | cancelled => cases hid

/-- **The callback** of a request is called. -/
theorem Logged.call (h : Logged n running) {p : Nat} {r : Req} (hr : n.heap p = some r)
    (hdone : r.done = true) (hp : p ∉ running) (status : Int) (body : List UInt8) :
    Logged { n with log := n.log ++ [.called r.id status body] } (p :: running) := by
  refine ⟨h.id_lt, h.inj, ?_, ?_, ?_, ?_, ?_, ?_⟩
  · intro e he
    rcases mem_concat he with he | rfl
    · exact h.event_lt e he
    · exact h.id_lt p r hr
  · intro e he p' r' hr' hcalled
    rcases mem_concat he with he | rfl
    · exact List.mem_cons_of_mem _ (h.called e he p' r' hr' hcalled)
    · rw [h.inj p' p r' r hr' hr (Option.some.inj hcalled).symm]
      exact List.mem_cons_self
  · intro p' r' hr' hcancelled
    rcases mem_concat hcancelled with hold | hnew
    · exact h.cancelled p' r' hr' hold
    · cases hnew
  · intro p' r' hr' hfreed
    rcases mem_concat hfreed with hold | hnew
    · exact h.freed p' r' hr' hold
    · cases hnew
  · intro id hid
    rcases h.ends id hid with hfreed | hlive
    · exact Or.inl (List.mem_append_left _ hfreed)
    · exact Or.inr hlive
  · refine h.once.concat ?_ (fun id hid => nomatch hid)
    intro id hid
    obtain rfl := Option.some.inj hid
    refine ⟨?_, ?_⟩
    · intro hmem
      obtain ⟨e, he, hcalled⟩ := mem_calledId hmem
      exact hp (h.called e he p r hr hcalled)
    · intro hcancelled
      rw [h.cancelled p r hr hcancelled] at hdone
      cases hdone

/-- **A request is freed.** -/
theorem Logged.free (h : Logged n running) {p : Nat} {r : Req} (hr : n.heap p = some r) :
    Logged { n with heap := Function.update n.heap p none, log := n.log ++ [.freed r.id] }
      (running.erase p) := by
  have hother : ∀ p' r', Function.update n.heap p none p' = some r' → p' ≠ p ∧ n.heap p' = some r' := by
    grind
  refine ⟨?_, ?_, ?_, ?_, ?_, ?_, ?_, ?_⟩
  · intro p' r' hr'
    exact h.id_lt p' r' (hother p' r' hr').2
  · intro p' p'' r' r'' hr' hr'' hid
    exact h.inj p' p'' r' r'' (hother p' r' hr').2 (hother p'' r'' hr'').2 hid
  · intro e he
    rcases mem_concat he with he | rfl
    · exact h.event_lt e he
    · exact h.id_lt p r hr
  · intro e he p' r' hr' hcalled
    obtain ⟨hpp, hr'⟩ := hother p' r' hr'
    rcases mem_concat he with he | rfl
    · exact (List.mem_erase_of_ne hpp).2 (h.called e he p' r' hr' hcalled)
    · cases hcalled
  · intro p' r' hr' hcancelled
    rcases mem_concat hcancelled with hold | hnew
    · exact h.cancelled p' r' (hother p' r' hr').2 hold
    · cases hnew
  · intro p' r' hr' hfreed
    obtain ⟨hpp, hr'⟩ := hother p' r' hr'
    rcases mem_concat hfreed with hold | hnew
    · exact h.freed p' r' hr' hold
    · exact hpp (h.inj p' p r' r hr' hr (Event.freed.inj hnew))
  · intro id hid
    rcases h.ends id hid with hfreed | ⟨p', r', hr', hid'⟩
    · exact Or.inl (List.mem_append_left _ hfreed)
    · grind
  · refine h.once.concat (fun id hid => nomatch hid) ?_
    intro id hid hmem
    obtain rfl := Option.some.inj hid
    exact h.freed p r hr (mem_freedId hmem)

/-- **A request is cancelled**: its callback is taken away. -/
theorem Logged.cancel (h : Logged n running) {p : Nat} {r : Req} (hr : n.heap p = some r) :
    Logged { n.write p (fun r => { r with done := false }) with log := n.log ++ [.cancelled r.id] }
      running := by
  have hback : ∀ p' r', (n.write p fun r => { r with done := false }).heap p' = some r' →
      ∃ r'', n.heap p' = some r'' ∧ r''.id = r'.id ∧ (p' = p → r'.done = false) ∧
        (p' ≠ p → r''.done = r'.done) := by
    intro p' r' hr'
    by_cases hpp : p' = p
    · subst hpp
      simp only [Net.write, Function.update_self, hr, Option.map_some, Option.some.injEq] at hr'
      subst hr'
      exact ⟨r, hr, rfl, fun _ => rfl, fun hne => absurd rfl hne⟩
    · simp only [Net.write, Function.update_of_ne hpp] at hr'
      exact ⟨r', hr', rfl, fun heq => absurd heq hpp, fun _ => rfl⟩
  refine ⟨?_, ?_, ?_, ?_, ?_, ?_, ?_, ?_⟩
  · intro p' r' hr'
    obtain ⟨s, hs, hid, -⟩ := hback p' r' hr'
    rw [← hid]
    exact h.id_lt p' s hs
  · intro p' p'' r' r'' hr' hr'' hids
    obtain ⟨s, hs, hid, -⟩ := hback p' r' hr'
    obtain ⟨s', hs', hid', -⟩ := hback p'' r'' hr''
    exact h.inj p' p'' s s' hs hs' (hid.trans (hids.trans hid'.symm))
  · intro e he
    rcases mem_concat he with he | rfl
    · exact h.event_lt e he
    · exact h.id_lt p r hr
  · intro e he p' r' hr' hcalled
    obtain ⟨s, hs, hid, -⟩ := hback p' r' hr'
    rcases mem_concat he with he | rfl
    · exact h.called e he p' s hs (by rw [hid]; exact hcalled)
    · cases hcalled
  · intro p' r' hr' hcancelled
    obtain ⟨s, hs, hid, hdone, hkeep⟩ := hback p' r' hr'
    by_cases hpp : p' = p
    · exact hdone hpp
    · rcases mem_concat hcancelled with hold | hnew
      · rw [← hkeep hpp]
        exact h.cancelled p' s hs (by rw [hid]; exact hold)
      · exact absurd (h.inj p' p s r hs hr (hid.trans (Event.cancelled.inj hnew))) hpp
  · intro p' r' hr' hfreed
    obtain ⟨s, hs, hid, -⟩ := hback p' r' hr'
    rcases mem_concat hfreed with hold | hnew
    · exact h.freed p' s hs (by rw [hid]; exact hold)
    · cases hnew
  · intro id hid
    rcases h.ends id hid with hfreed | ⟨p', r', hr', hid'⟩
    · exact Or.inl (List.mem_append_left _ hfreed)
    · right
      by_cases hpp : p' = p
      · subst hpp
        exact ⟨p', { r' with done := false }, by simp [Net.write, hr'], hid'⟩
      · exact ⟨p', r', by simp [Net.write, hpp, hr'], hid'⟩
  · exact h.once.concat (fun id hid => by cases hid) fun id hid => by cases hid

/-- **A new request.** -/
theorem Logged.alloc (h : Logged n running) {p : Nat} {r : Req} (hp : n.heap p = none)
    (hr : r.id = n.requests) :
    Logged { n with heap := Function.update n.heap p (some r), requests := n.requests + 1 } running := by
  have hcases : ∀ p' r', Function.update n.heap p (some r) p' = some r' →
      (p' = p ∧ r' = r) ∨ (p' ≠ p ∧ n.heap p' = some r') := by grind
  have hfresh : ∀ e ∈ n.log, e.id ≠ r.id := by
    intro e he
    have := h.event_lt e he
    omega
  refine ⟨?_, ?_, ?_, ?_, ?_, ?_, ?_, h.once⟩
  · intro p' r' hr'
    show r'.id < n.requests + 1
    rcases hcases p' r' hr' with ⟨-, rfl⟩ | ⟨-, hold⟩
    · omega
    · have := h.id_lt p' r' hold
      omega
  · intro p' p'' r' r'' hr' hr'' hids
    rcases hcases p' r' hr' with ⟨rfl, rfl⟩ | ⟨-, hold⟩
    · rcases hcases p'' r'' hr'' with ⟨rfl, -⟩ | ⟨-, hold'⟩
      · rfl
      · have := h.id_lt p'' r'' hold'
        omega
    · rcases hcases p'' r'' hr'' with ⟨rfl, rfl⟩ | ⟨-, hold'⟩
      · have := h.id_lt p' r' hold
        omega
      · exact h.inj p' p'' r' r'' hold hold' hids
  · intro e he
    have := h.event_lt e he
    show e.id < n.requests + 1
    omega
  · intro e he p' r' hr' hcalled
    rcases hcases p' r' hr' with ⟨-, rfl⟩ | ⟨-, hold⟩
    · refine absurd ?_ (hfresh e he)
      cases e with
      | called id status body => exact Option.some.inj hcalled
      | cancelled => cases hcalled
      | freed => cases hcalled
    · exact h.called e he p' r' hold hcalled
  · intro p' r' hr' hcancelled
    rcases hcases p' r' hr' with ⟨-, rfl⟩ | ⟨-, hold⟩
    · exact absurd rfl (hfresh _ hcancelled)
    · exact h.cancelled p' r' hold hcancelled
  · intro p' r' hr' hfreed
    rcases hcases p' r' hr' with ⟨-, rfl⟩ | ⟨-, hold⟩
    · exact absurd rfl (hfresh _ hfreed)
    · exact h.freed p' r' hold hfreed
  · intro id hid
    have hid' : id < n.requests + 1 := hid
    by_cases hnew : id = n.requests
    · refine Or.inr ⟨p, r, ?_, hr.trans hnew.symm⟩
      exact Function.update_self ..
    · rcases h.ends id (by omega) with hfreed | ⟨p', r', hr', hid''⟩
      · exact Or.inl hfreed
      · grind

end Log

/-! ## The operations -/

/-- The requests are in their places, the queues have their tails, and the log is right.
`held` are those that the code holds, and `running` those whose callback runs. -/
def Sound (n : Net) (held running : List Nat) : Prop :=
  ∃ own q, Owned n held own q ∧ Tails n q ∧ Within n own ∧ Logged n running

variable {n : Net} {held running : List Nat} {ps : Parser}

theorem queue_length {own : Nat → Option Place} {q : Nat → List Nat} (h : Owned n held own q)
    (hlog : Logged n running) (i : Nat) : (q i).length ≤ n.requests := by
  have hlive : ∀ p ∈ q i, (n.heap p).isSome = true := fun p hp =>
    h.isSome_of_own ((h.queued i p).1 hp)
  have hids : ((q i).map fun p => ((n.heap p).map Req.id).getD 0).Nodup := by
    refine List.Nodup.map_on ?_ (h.chain i).nodup
    intro p hp p' hp' heq
    obtain ⟨r, hr⟩ := Option.isSome_iff_exists.1 (hlive p hp)
    obtain ⟨r', hr'⟩ := Option.isSome_iff_exists.1 (hlive p' hp')
    rw [hr, hr'] at heq
    exact hlog.inj p p' r r' hr hr' heq
  have hsub : ((q i).map fun p => ((n.heap p).map Req.id).getD 0) ⊆ List.range n.requests := by
    intro id hid
    obtain ⟨p, hp, rfl⟩ := List.mem_map.1 hid
    obtain ⟨r, hr⟩ := Option.isSome_iff_exists.1 (hlive p hp)
    rw [hr]
    exact List.mem_range.2 (hlog.id_lt p r hr)
  have hle := (hids.subperm hsub).length_le
  rwa [List.length_map, List.length_range] at hle

theorem Sound.setSlot (h : Sound n held running) {i k : Nat} {t : Slot}
    (ht : t.req = ((n.hosts i).slots k).req) : Sound (n.setSlot i k t) held running := by
  obtain ⟨own, q, howned, htails, hwithin, hlog⟩ := h
  exact ⟨own, q, howned.setSlot ht, htails.setSlot i k t, hwithin.same rfl,
    hlog.same (Same.setSlot n i k t)⟩

theorem Sound.free {p : Nat} (h : Sound n (p :: held) running) (hp : p ∉ running) :
    Sound (reqFree n p) held running := by
  obtain ⟨own, q, howned, htails, hwithin, hlog⟩ := h
  obtain ⟨r, hr⟩ := Option.isSome_iff_exists.1
    (howned.isSome_of_own ((howned.holds p).1 List.mem_cons_self))
  have hfreed := hlog.free hr
  rw [List.erase_of_not_mem hp] at hfreed
  have heq : reqFree n p =
      { n with heap := Function.update n.heap p none, log := n.log ++ [.freed r.id] } := by
    unfold reqFree
    rw [hr]
  refine ⟨_, q, howned.reqFree, ?_, ?_, ?_⟩
  · rw [heq]
    exact htails
  · rw [heq]
    exact hwithin.update rfl p none fun i hi => nomatch hi
  · rw [heq]
    exact hfreed

/-- **`finish`** puts the request into the queue again, calls its callback or frees it. -/
theorem finish_sound (h : Sound n running running) (i k now : Nat) (status : Int) (body : List UInt8) :
    (∃ n', finish ps n i k now status body = (n', none) ∧ Sound n' running running) ∨
      ∃ n' p, finish ps n i k now status body = (n', some p) ∧ Sound n' (p :: running) (p :: running) := by
  unfold finish
  dsimp only
  generalize hs : (n.hosts i).slots k = s
  cases hreq : s.req with
  | none => exact Or.inl ⟨n, rfl, h⟩
  | some p =>
    obtain ⟨own, q, howned, htails, hwithin, hlog⟩ := h
    have hslot : ((n.hosts i).slots k).req = some p := by
      rw [hs]
      exact hreq
    have hi := hwithin p _ i ((howned.slot i k p).1 hslot) rfl
    have hleft := howned.leaveSlot (t := { s with req := none }) hslot rfl
    have hcountLeft : (n.setSlot i k { s with req := none }).hostCount = n.hostCount := rfl
    have hwithinLeft := hwithin.update hcountLeft p (some .held) fun i hi => nomatch hi
    have hiLeft : i < (n.setSlot i k { s with req := none }).hostCount := hi
    have hlogLeft := hlog.same (Same.setSlot n i k { s with req := none })
    have htailsLeft := htails.setSlot i k { s with req := none }
    have hrun : p ∉ running := (List.nodup_cons.1 hleft.nodup).1
    obtain ⟨r, hr⟩ := Option.isSome_iff_exists.1
      (hleft.isSome_of_own ((hleft.holds p).1 List.mem_cons_self))
    dsimp only
    rw [hr]
    dsimp only
    split
    · have hwritten := hleft.write p (f := fun r =>
        { r with retries := r.retries + 1, notBefore := now + ps.retryAfter body + 50 }) fun _ => rfl
      obtain ⟨hqueued, htailsQueued⟩ := hwritten.enqueue htailsLeft i true
      refine Or.inl ⟨_, rfl, _, _, hqueued, htailsQueued, ?_, ?_⟩
      · refine hwithinLeft.update (Same.enqueue _ i p true).hostCount p _ fun j hj => ?_
        obtain rfl := Option.some.inj hj
        exact hiLeft
      · refine (hlogLeft.same (Same.write _ p ?_)).same (Same.enqueue _ i p true)
        exact fun _ => ⟨rfl, rfl⟩
    · split
      · rename_i hdone
        exact Or.inr ⟨_, p, rfl, _, q, hleft.log _, htailsLeft, hwithinLeft.same rfl,
          hlogLeft.call hr hdone hrun status body⟩
      · exact Or.inl ⟨_, rfl, Sound.free ⟨_, q, hleft, htailsLeft, hwithinLeft, hlogLeft⟩ hrun⟩

/-- **`fail`** drops the connection, and the request is sent again or finished. -/
theorem fail_sound (h : Sound n running running) (i k now : Nat) (why : List UInt8) :
    (∃ n', fail ps n i k now why = (n', none) ∧ Sound n' running running) ∨
      ∃ n' p, fail ps n i k now why = (n', some p) ∧ Sound n' (p :: running) (p :: running) := by
  unfold fail
  dsimp only
  cases hreq : ((n.hosts i).slots k).req with
  | none => exact Or.inl ⟨_, rfl, h.setSlot rfl⟩
  | some p =>
    dsimp only
    split
    · exact Or.inl ⟨n, rfl, h⟩
    · split
      · obtain ⟨own, q, howned, htails, hwithin, hlog⟩ := h
        have hi := hwithin p _ i ((howned.slot i k p).1 hreq) rfl
        have hleft := howned.leaveSlot
          (t := { slotResetResponse (slotDropConn ((n.hosts i).slots k)) with req := none }) hreq rfl
        have hwritten := hleft.write p (f := fun r => { r with retries := r.retries + 1 }) fun _ => rfl
        obtain ⟨hqueued, htailsQueued⟩ := hwritten.enqueue (htails.setSlot i k _) i true
        refine Or.inl ⟨_, rfl, _, _, hqueued, htailsQueued, ?_, ?_⟩
        · refine Within.update (hwithin.update (Eq.refl n.hostCount) p (some .held) fun i hi => nomatch hi)
            (Same.enqueue _ i p true).hostCount p _ fun j hj => ?_
          obtain rfl := Option.some.inj hj
          exact hi
        refine ((hlog.same (Same.setSlot n i k _)).same (Same.write _ p ?_)).same (Same.enqueue _ i p true)
        exact fun _ => ⟨rfl, rfl⟩
      · refine finish_sound (h.setSlot ?_) i k now 0 why
        rfl

theorem slotTimeout_req (s : Slot) (now : Nat) : (slotTimeout s now).1.req = s.req := by
  unfold slotTimeout
  split <;> rfl

theorem slotAfter_req (s : Slot) : (slotAfter s).req = s.req := by
  unfold slotAfter
  split <;> rfl

theorem slotParse_req (isHead : Bool) (s : Slot) (now : Nat) :
    (slotParse ps isHead s now).1.req = s.req := by
  unfold slotParse
  split
  · rfl
  · extract_lets t body headLike
    have hparsed : t.req = s.req := by
      show (ite _ _ _ : Slot).req = s.req
      split
      · split <;> rfl
      · rfl
    rw [← hparsed]
    split
    · exact slotTimeout_req t now
    · split
      · rfl
      · split
        · exact slotAfter_req t
        · split
          · split
            · exact slotAfter_req t
            · exact slotTimeout_req t now
          · exact slotTimeout_req t now

theorem slotRead_req (isHead : Bool) (c : Round) (reads : List (List UInt8)) (s : Slot) :
    (slotRead ps isHead c reads s).1.req = s.req := by
  induction reads generalizing s with
  | nil =>
    unfold slotRead
    split
    · split
      · rfl
      · split <;> rfl
    · exact slotParse_req isHead s c.now
  | cons chunk reads ih =>
    unfold slotRead
    split
    · exact ih s
    · dsimp only
      split
      · rfl
      · exact ih _

variable (ps) in
theorem slotRound_req (isHead : Bool) (c : Round) (s : Slot) :
    (slotRound ps isHead c s).1.req = s.req := by
  unfold slotRound
  split
  · rfl
  · split
    · rfl
    · split
      · rfl
      · exact slotRead_req isHead c c.reads s

/-- What a step of the pump leaves: no callback, or one that runs. -/
def Pumped (out : Net × Option Nat) (running : List Nat) : Prop :=
  (∃ n', out = (n', none) ∧ Sound n' running running) ∨
    ∃ n' p, out = (n', some p) ∧ Sound n' (p :: running) (p :: running)

theorem slotPump_sound (h : Sound n running running) (i k : Nat) (c : Round) :
    Pumped (slotPump ps n i k c) running := by
  unfold slotPump
  dsimp only
  have hreq := slotRound_req ps
    (((((n.hosts i).slots k).req.bind n.heap).map Req.head).getD false) c ((n.hosts i).slots k)
  generalize slotRound ps (((((n.hosts i).slots k).req.bind n.heap).map Req.head).getD false) c
    ((n.hosts i).slots k) = out at hreq ⊢
  obtain ⟨t, verdict⟩ := out
  have hset := h.setSlot hreq
  cases verdict with
  | quiet => exact Or.inl ⟨_, rfl, hset⟩
  | failed why => exact fail_sound hset i k c.now why
  | finished status body => exact finish_sound hset i k c.now status body

variable (ps) in
/-- **A round of `http_pump`** for a slot. -/
theorem pumpSlot_sound (h : Sound n running running) (i k : Nat) (c : Round) :
    Pumped (pumpSlot ps n i k c) running := by
  unfold pumpSlot
  split
  · rename_i hfree
    obtain ⟨own, q, howned, htails, hwithin, hlog⟩ := id h
    rcases takeReady_spec howned htails (queue_length howned hlog i) c.now with
      hnone | ⟨n', p, q', hsome, hp, htaken, htails', hsame, hslots⟩
    · rw [hnone]
      exact slotPump_sound h i k c
    · rw [hsome]
      dsimp only
      have hempty : ((n'.hosts i).slots k).req = none := by
        rw [hslots]
        exact hfree.1
      generalize (if ((n'.hosts i).slots k).conn ∧ c.connFailed then
        slotDropConn ((n'.hosts i).slots k) else (n'.hosts i).slots k) = s
      generalize (if s.conn then s else { s with conn := c.connOpens }) = s'
      have hentered := htaken.enterSlot
        (t := { slotResetResponse { s' with req := some p } with lastActivity := c.now }) hempty rfl
      have hi := hwithin p _ i ((howned.queued i p).1 hp) rfl
      have hwithinHeld := hwithin.update (Eq.refl n.hostCount) p (some .held) fun i hi => nomatch hi
      have hcountSlot : (n'.setSlot i k { slotResetResponse { s' with req := some p } with
          lastActivity := c.now }).hostCount = n.hostCount := hsame.hostCount
      have hwithinSlot := hwithinHeld.update hcountSlot p (some (.slot i k)) fun j hj => by
        obtain rfl := Option.some.inj hj
        exact hi
      have hset : Sound (n'.setSlot i k
          { slotResetResponse { s' with req := some p } with lastActivity := c.now }) running running :=
        ⟨_, q', hentered, htails'.setSlot i k _, hwithinSlot, (hlog.same hsame).same (Same.setSlot n' i k _)⟩
      split
      · exact slotPump_sound hset i k c
      · exact fail_sound hset i k c.now outOfMemory
  · exact slotPump_sound h i k c

/-! ## Cancellation -/

theorem reqFree_frame (n : Net) (p : Nat) :
    (reqFree n p).hosts = n.hosts ∧ (reqFree n p).pumps = n.pumps ∧
      (reqFree n p).hostCount = n.hostCount ∧ ∀ p' ≠ p, (reqFree n p).next p' = n.next p' := by
  unfold reqFree
  split
  · exact ⟨rfl, rfl, rfl, fun _ _ => rfl⟩
  · refine ⟨rfl, rfl, rfl, ?_⟩
    intro p' hpp
    simp [Net.next, hpp]

theorem unlink_next {i : Nat} {prev v : Option Nat} {p' : Nat} (h : prev ≠ some p') :
    (unlink n i prev v).next p' = n.next p' := by
  unfold unlink
  split
  · rfl
  · rename_i b
    have hb : p' ≠ b := fun heq => h (by rw [heq])
    simp [Net.next, Net.write, hb]

theorem Logged.cancelFree (h : Logged n running) {p : Nat} {r : Req} (hr : n.heap p = some r)
    (hp : p ∉ running) :
    Logged (reqFree { n with log := n.log ++ [.cancelled r.id] } p) running := by
  have hcancelled := h.cancel hr
  have hr' : (n.write p fun r => { r with done := false }).heap p = some { r with done := false } := by
    simp [Net.write, hr]
  have hfreed := hcancelled.free hr'
  rw [List.erase_of_not_mem hp] at hfreed
  have heap : Function.update (n.write p fun r => { r with done := false }).heap p none =
      Function.update n.heap p none := by
    simp [Net.write]
  have heq : reqFree { n with log := n.log ++ [.cancelled r.id] } p =
      { n with
        heap := Function.update n.heap p none
        log := n.log ++ [.cancelled r.id] ++ [.freed r.id] } := by
    unfold reqFree
    rw [hr]
  rw [heq, ← heap]
  exact hfreed

/-- **The loop of `http_cancel`** over the rest of a queue: what it has kept is the queue so
far, with the tail at its end. -/
theorem cancelLoop_sound (user i : Nat) {fuel : Nat} {own : Nat → Option Place} {q : Nat → List Nat}
    (kept rest : List Nat) (prev cur : Option Nat) (howned : Owned n running own q)
    (hlog : Logged n running) (hq : q i = kept ++ rest) (hcur : PtrChain n.next cur rest)
    (hprev : prev = kept.getLast?) (htail : (n.hosts i).tail = kept.getLast?)
    (htails : ∀ j ≠ i, (n.hosts j).tail = (q j).getLast?) (hwithin : Within n own)
    (hfuel : rest.length < fuel) :
    Sound (cancelLoop user i fuel n prev cur) running running ∧
      (cancelLoop user i fuel n prev cur).pumps = n.pumps := by
  induction fuel generalizing n own q kept rest prev cur with
  | zero => omega
  | succ fuel ih =>
    cases rest with
    | nil =>
      obtain rfl := PtrChain.nil_iff.1 hcur
      refine ⟨⟨own, q, howned, ?_, hwithin, hlog⟩, rfl⟩
      intro j
      by_cases hj : j = i
      · subst hj
        rw [hq, List.append_nil]
        exact htail
      · exact htails j hj
    | cons p rest =>
      obtain ⟨rfl, hcur⟩ := hcur
      rw [List.length_cons] at hfuel
      have hmem : p ∈ q i := by simp [hq]
      have hown := (howned.queued i p).1 hmem
      obtain ⟨r, hr⟩ := Option.isSome_iff_exists.1 (howned.isSome_of_own hown)
      have hnext : n.next p = r.next := by simp [Net.next, hr]
      have hnodup := (howned.chain i).nodup
      rw [hq] at hnodup
      unfold cancelLoop
      rw [hr]
      dsimp only
      split
      · have hunlinked := howned.unlink hq
        rw [hnext, ← hprev] at hunlinked
        have hrun : p ∉ running := (List.nodup_cons.1 hunlinked.nodup).1
        have hsame := Same.unlink n i prev r.next
        have hunlinkedTail := fun j => unlink_tail n i j prev r.next
        have hunlinkedNext : ∀ p' ∈ rest, (unlink n i prev r.next).next p' = n.next p' := by
          intro p' hp'
          apply unlink_next
          intro heq
          rw [hprev] at heq
          have hp'kept := List.mem_of_getLast? heq
          exact (List.nodup_append.1 hnodup).2.2 p' hp'kept p' (List.mem_cons_of_mem _ hp') rfl
        generalize unlink n i prev r.next = m at hunlinked hsame hunlinkedTail hunlinkedNext ⊢
        obtain ⟨r', hr', hid, -⟩ := hsame.symm.heap hr
        have hlogged := (hlog.same hsame).cancelFree hr' hrun
        rw [hid] at hlogged
        have hfreed := (hunlinked.log (m.log ++ [.cancelled r.id])).reqFree
        obtain ⟨hhosts, hpumps, hcount, hkeep⟩ := reqFree_frame { m with log := m.log ++ [.cancelled r.id] } p
        have hrest := ih kept rest prev r.next hfreed hlogged
          (by rw [Function.update_self]) ?_ hprev ?_ ?_ ?_ (by omega)
        · exact ⟨hrest.1, hrest.2.trans (hpumps.trans hsame.pumps)⟩
        · rw [hnext] at hcur
          apply hcur.congr
          intro p' hp'
          have hpp : p' ≠ p := by grind
          rw [hkeep p' hpp]
          exact hunlinkedNext p' hp'
        · rw [hhosts]
          exact (hunlinkedTail i).trans htail
        · grind
        · have hheld := hwithin.update hsame.hostCount p (some .held)
            fun i hi => by cases hi
          exact hheld.update hcount p none fun i hi => by cases hi
      · rw [hnext] at hcur
        have hrest := ih (kept ++ [p]) rest (some p) r.next
          (howned.setTail i (some p)) (hlog.same (Same.setHost n i _)) (by rw [hq]; simp) hcur (by simp)
          (by rw [setTail_tail, if_pos rfl]; simp) ?_ (hwithin.same rfl) (by omega)
        · exact hrest
        · intro j hj
          rw [setTail_tail, if_neg hj]
          exact htails j hj

/-- **The slots**: the requests of the user lose their callbacks. -/
theorem cancelSlots_sound (user i k : Nat) (h : Sound n running running) :
    Sound (cancelSlots user i k n) running running ∧ (cancelSlots user i k n).pumps = n.pumps := by
  induction k with
  | zero => exact ⟨h, rfl⟩
  | succ k ih =>
    obtain ⟨hsound, hpumps⟩ := ih
    unfold cancelSlots
    dsimp only
    split
    · exact ⟨hsound, hpumps⟩
    · split
      · exact ⟨hsound, hpumps⟩
      · rename_i p _ _ r hr
        split
        · obtain ⟨own, q, howned, htails, hwithin, hlog⟩ := hsound
          have hwritten := howned.write p (f := fun r => { r with done := false }) fun _ => rfl
          exact ⟨⟨own, q, hwritten.log _, htails, hwithin.same rfl, hlog.cancel hr⟩, hpumps⟩
        · exact ⟨hsound, hpumps⟩

theorem cancelHosts_sound (user : Nat) (h : Sound n running running) (count : Nat) :
    Sound (cancelHosts user count n) running running ∧ (cancelHosts user count n).pumps = n.pumps := by
  induction count with
  | zero => exact ⟨h, rfl⟩
  | succ i ih =>
    obtain ⟨⟨own, q, howned, htails, hwithin, hlog⟩, hpumps⟩ := ih
    unfold cancelHosts
    generalize cancelHosts user i n = m at howned htails hwithin hlog hpumps ⊢
    have hloop := cancelLoop_sound user i [] (q i)
      none (m.hosts i).head (howned.setTail i none)
      (hlog.same (Same.setHost m i _)) rfl (howned.chain i) rfl
      (by rw [setTail_tail, if_pos rfl]; rfl)
      (fun j hj => by rw [setTail_tail, if_neg hj]; exact htails j)
      (hwithin.same rfl) (Nat.lt_succ_of_le (queue_length howned hlog i))
    obtain ⟨hsound, hkeep⟩ := hloop
    obtain ⟨hslots, hkeep'⟩ := cancelSlots_sound user i maxSlots hsound
    exact ⟨hslots, hkeep'.trans (hkeep.trans hpumps)⟩

/-! ## Runs -/

theorem hostFor_sound (h : Sound n held running) {name : List UInt8} {port : Nat} {tls : Bool} {n' : Net}
    {i : Nat} (hhost : hostFor n name port tls = some (n', i)) :
    Sound n' held running ∧ n'.pumps = n.pumps ∧ n'.heap = n.heap ∧ i < n'.hostCount := by
  unfold hostFor at hhost
  split at hhost
  · grind
  · split at hhost
    · cases hhost
    · obtain ⟨hn, rfl⟩ := Prod.mk.inj (Option.some.inj hhost)
      obtain ⟨own, q, howned, htails, hwithin, hlog⟩ := h
      -- the host was not in use, so it has no requests
      have hempty : q n.hostCount = [] := by
        apply List.eq_nil_iff_forall_not_mem.2
        intro p hp
        have := hwithin p _ _ ((howned.queued _ p).1 hp) rfl
        omega
      have hhead : (n.hosts n.hostCount).head = none := by
        have hchain := howned.chain n.hostCount
        rw [hempty] at hchain
        exact hchain
      have hslot : ∀ k, ((n.hosts n.hostCount).slots k).req = none := by
        intro k
        cases hreq : ((n.hosts n.hostCount).slots k).req with
        | none => rfl
        | some p =>
          have := hwithin p _ _ ((howned.slot _ k p).1 hreq) rfl
          omega
      have hhosts : ∀ j, n'.hosts j = if j = n.hostCount then { Host.zero with
          name := name
          port := port
          tls := tls
          maxSlots := if text "discord.com" <:+: name then 2 else maxSlots } else n.hosts j := by
        intro j
        rw [← hn]
        exact setHost_hosts n n.hostCount j _
      refine ⟨⟨own, q, ?_, ?_, ?_, ?_⟩, by rw [← hn]; rfl, by rw [← hn]; rfl, by rw [← hn]; exact Nat.lt_succ_self _⟩
      · refine howned.congr ?_ ?_ ?_ ?_
        · intro p
          rw [← hn]
          rfl
        · rw [← hn]
          rfl
        · intro j
          rw [hhosts]
          split
          · rename_i hj
            rw [hj, hhead]
            rfl
          · rfl
        · intro j k
          rw [hhosts]
          split
          · rename_i hj
            rw [hj, hslot]
            rfl
          · rfl
      · intro j
        rw [hhosts]
        split
        · rename_i hj
          rw [hj, hempty]
          rfl
        · exact htails j
      · intro p place j hown hplace
        have := hwithin p place j hown hplace
        rw [← hn]
        exact Nat.lt_succ_of_lt this
      · rw [← hn]
        exact ⟨hlog.id_lt, hlog.inj, hlog.event_lt, hlog.called, hlog.cancelled, hlog.freed, hlog.ends,
          hlog.once⟩

/-- **`http_request`** puts a new request at the end of a queue. -/
theorem httpRequest_sound (h : Sound n running running) (c : Call) {mem : Option Nat}
    (hmem : ∀ p, mem = some p → n.heap p = none) :
    Sound (httpRequest n c mem) running running ∧ (httpRequest n c mem).pumps = n.pumps := by
  unfold httpRequest
  split
  · exact ⟨h, rfl⟩
  · rename_i m i hhost
    obtain ⟨hm, hpumps, hheap, hi⟩ := hostFor_sound h hhost
    cases mem with
    | none => exact ⟨hm, hpumps⟩
    | some p =>
      obtain ⟨own, q, howned, htails, hwithin, hlog⟩ := hm
      have hfree : m.heap p = none := by
        rw [hheap]
        exact hmem p rfl
      have halloc := howned.alloc hfree (r := ⟨m.requests, c.head, c.done, c.user, 0, 0, none⟩) rfl
        (m.requests + 1)
      have hlogged := hlog.alloc (r := ⟨m.requests, c.head, c.done, c.user, 0, 0, none⟩) hfree rfl
      have hwithinNew := hwithin.update (Eq.refl m.hostCount) p (some .held) fun i hi => nomatch hi
      obtain ⟨hqueued, htailsQueued⟩ := halloc.enqueue htails i false
      have hsame := Same.enqueue { m with
        heap := Function.update m.heap p (some ⟨m.requests, c.head, c.done, c.user, 0, 0, none⟩)
        requests := m.requests + 1 } i p false
      refine ⟨⟨_, _, hqueued, htailsQueued, ?_, hlogged.same hsame⟩, hsame.pumps.trans hpumps⟩
      refine hwithinNew.update hsame.hostCount p _ fun j hj => ?_
      obtain rfl := Option.some.inj hj
      exact hi

/-- What holds between the steps of a run. -/
def Net.Settled (n : Net) : Prop := Sound n n.running n.running

theorem Sound.withPumps (h : Sound n held running) (pumps : List Pump) :
    Sound { n with pumps := pumps } held running := by
  obtain ⟨own, q, howned, htails, hwithin, hlog⟩ := h
  refine ⟨own, q, howned.congr (fun _ => rfl) rfl (fun _ => rfl) fun _ _ => rfl, htails, hwithin.same rfl, ?_⟩
  exact ⟨hlog.id_lt, hlog.inj, hlog.event_lt, hlog.called, hlog.cancelled, hlog.freed, hlog.ends, hlog.once⟩

theorem Sound.settled (h : Sound n running running) {pumps : List Pump}
    (hpumps : pumps.filterMap Pump.running = running) : { n with pumps := pumps }.Settled := by
  have hrun : Net.running { n with pumps := pumps } = running := hpumps
  unfold Net.Settled
  rw [hrun]
  exact h.withPumps pumps

theorem Net.Settled.round {n : Net} (h : n.Settled) (ps : Parser) (c : Round) : (n.round ps c).Settled := by
  unfold Net.round
  split
  · exact h
  · rename_i f rest hpumps
    split
    · exact h
    · rename_i hidle
      have hnone : f.running = none := by simpa using hidle
      have hrun : n.running = rest.filterMap Pump.running := by
        rw [Net.running, hpumps, List.filterMap_cons_none hnone]
      have hsound : Sound n (rest.filterMap Pump.running) (rest.filterMap Pump.running) := by
        rw [← hrun]
        exact h
      split
      · exact hsound.settled rfl
      · split
        · exact hsound.settled (List.filterMap_cons_none rfl)
        · rcases pumpSlot_sound ps hsound f.host f.slot c with ⟨n', hout, hn'⟩ | ⟨n', p, hout, hn'⟩
          · rw [hout]
            exact hn'.settled (List.filterMap_cons_none rfl)
          · rw [hout]
            exact hn'.settled (List.filterMap_cons_some rfl)

theorem Net.Settled.doneReturns {n : Net} (h : n.Settled) : n.doneReturns.Settled := by
  unfold Net.doneReturns
  split
  · exact h
  · rename_i f rest hpumps
    split
    · exact h
    · rename_i p hrunning
      have hrun : n.running = p :: rest.filterMap Pump.running := by
        rw [Net.running, hpumps, List.filterMap_cons_some hrunning]
      obtain ⟨own, q, howned, htails, hwithin, hlog⟩ := h
      rw [hrun] at howned hlog
      obtain ⟨r, hr⟩ := Option.isSome_iff_exists.1
        (howned.isSome_of_own ((howned.holds p).1 List.mem_cons_self))
      have hfreed := hlog.free hr
      rw [List.erase_cons_head] at hfreed
      have heq : reqFree n p =
          { n with heap := Function.update n.heap p none, log := n.log ++ [.freed r.id] } := by
        unfold reqFree
        rw [hr]
      have hsound : Sound (reqFree n p) (rest.filterMap Pump.running) (rest.filterMap Pump.running) := by
        refine ⟨_, q, howned.reqFree, ?_, ?_, ?_⟩
        · rw [heq]
          exact htails
        · rw [heq]
          exact hwithin.update rfl p none fun i hi => nomatch hi
        · rw [heq]
          exact hfreed
      exact hsound.settled (List.filterMap_cons_none rfl)

/-- The allocator does not give memory that is in use. -/
def Fresh (n : Net) : NetOp → Prop
  | .httpRequest _ mem => ∀ p, mem = some p → n.heap p = none
  | _ => True

/-- **Step.** -/
theorem Net.Settled.step {n : Net} (h : n.Settled) (ps : Parser) {op : NetOp} (hop : Fresh n op) :
    (n.step ps op).Settled := by
  cases op with
  | httpRequest c mem =>
    unfold Net.step
    dsimp only
    split
    · obtain ⟨hsound, hpumps⟩ := httpRequest_sound h c hop
      unfold Net.Settled Net.running
      rw [hpumps]
      exact hsound
    · exact h
  | httpCancel user =>
    unfold Net.step
    dsimp only
    split
    · obtain ⟨hsound, hpumps⟩ := cancelHosts_sound user h n.hostCount
      unfold Net.Settled Net.running httpCancel
      rw [hpumps]
      exact hsound
    · exact h
  | httpPump =>
    unfold Net.step
    dsimp only
    split
    · have hsound : Sound n n.running n.running := h
      exact hsound.settled (List.filterMap_cons_none rfl)
    · exact h
  | round c => exact h.round ps c
  | doneReturns => exact h.doneReturns

theorem Net.New.settled {n : Net} (h : n.New) : n.Settled := by
  have hrun : n.running = [] := by
    rw [Net.running, h.pumps]
    rfl
  unfold Net.Settled
  rw [hrun]
  refine ⟨fun _ => none, fun _ => [], ⟨?_, ?_, ?_, ?_, ?_, List.nodup_nil⟩, ?_, ?_, ?_⟩
  · intro p
    rw [h.heap]
    rfl
  · intro i
    rw [h.hosts]
    rfl
  · intro i p
    simp
  · intro i k p
    rw [h.hosts]
    simp [Host.zero, Slot.zero]
  · intro p
    simp
  · intro i
    rw [h.hosts]
    rfl
  · intro p place i hown
    cases hown
  · refine ⟨?_, ?_, ?_, ?_, ?_, ?_, ?_, ?_⟩
    · intro p r hr
      rw [h.heap] at hr
      cases hr
    · intro p p' r r' hr
      rw [h.heap] at hr
      cases hr
    · rw [h.log]
      intro e he
      cases he
    · rw [h.log]
      intro e he
      cases he
    · intro p r hr
      rw [h.heap] at hr
      cases hr
    · intro p r hr
      rw [h.heap] at hr
      cases hr
    · rw [h.requests]
      omega
    · rw [h.log]
      exact ⟨List.nodup_nil, List.nodup_nil, List.Pairwise.nil⟩

/-- A request is in a place: in a queue, in a slot, or its callback runs. -/
def Net.At (n : Net) (q : Nat → List Nat) (p : Nat) : Place → Prop
  | .queue i => p ∈ q i
  | .slot i k => ((n.hosts i).slots k).req = some p
  | .held => p ∈ n.running

/-- An answer as it comes from a server, and what is found in it. -/
def answer : List UInt8 := text "HTTP/1.1 200 OK\x0d\nContent-Length: 2\x0d\n\x0d\nok"

def answerParser : Parser where
  headers bytes := if bytes = answer then some ⟨38, 200, 2, false, false⟩ else none
  dechunk _ := none
  retryAfter _ := 1000

def pristine : Net := ⟨fun _ => Host.zero, 0, fun _ => none, [], 0, []⟩

/-- A request, a round that brings the answer, and the end of the callback. -/
def answered : Net :=
  (network answerParser).run pristine
    [.httpRequest ⟨text "localhost", 443, true, false, true, 7⟩ (some 64), .httpPump,
      .round ⟨5, false, true, false, [answer], false, []⟩, .doneReturns]

end Web
