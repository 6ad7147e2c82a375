import StrawOS.Usb.Xhci

/-!
# Which request an event completes

`xhci_wait_event` takes the first event of its type and never looks at the address
of the completed TRB.  So a call gets its own event as long as no other request is
with the controller and no completion is left unread when it starts; after a call
whose time was up, the next one takes the late event (`late_event_taken`).
-/

namespace Usb

/-! ## Runs -/

inductive Op
  | command (param : UInt64) (control : UInt32)
  | control (slot : UInt32) (requestType request : UInt8) (value index length : UInt16)
      (data : List UInt8)
  | poll
  | dma (off : Nat) (bytes : List UInt8)
  | complete (i : Nat) (trb : Trb) (data : List UInt8)
  | post (trb : Trb)

/-- The controller finishes a request: what the device sent is in the buffer and
the event is posted. -/
def Driver.complete (st : Driver) (i : Nat) (trb : Trb) (data : List UInt8) : Driver :=
  match st.pending[i]? with
  | none => st
  | some r =>
    { st with
      hc := { st.hc with
        events := st.hc.events ++ [⟨trb, some r.id⟩]
        dmaBuf := Buf.write st.hc.dmaBuf 0 data }
      pending := st.pending.eraseIdx i
      completed := st.completed ++ [⟨r.id, r.kind, trb, data⟩] }

def step (st : Driver) : Op → Driver
  | .command param control => xhciCommand st param control fun req => .command req 0
  | .control slot requestType request value index length data =>
      xhciControl st slot requestType request value index length data
  | .poll => st.poll
  | .dma off bytes => { st with hc := { st.hc with dmaBuf := Buf.write st.hc.dmaBuf off bytes } }
  | .complete i trb data => st.complete i trb data
  | .post trb => { st with hc := { st.hc with events := st.hc.events ++ [⟨trb, none⟩] } }

def machine : Machine Driver Op Unit where
  start st := st.hc.events = [] ∧ st.pc = .idle ∧ st.pending = [] ∧ st.completed = [] ∧
    st.returned = [] ∧ st.read = [] ∧ st.handed = []
  step st op := (step st op, [])

/-- An event for a transfer of an endpoint other than endpoint 0. -/
def Trb.isInterrupt (t : Trb) : Bool := t.type == trbEvTransfer && t.dci != 1

/-- The event and the data of a completed request. -/
def Kind.Completes : Kind → Trb → List UInt8 → Prop
  | .command, t, data => t.type = trbEvCmdComplete ∧ data = []
  | .control slot isIn length, t, data => t.type = trbEvTransfer ∧ t.slot = slot ∧ t.dci = 1 ∧
      data.length ≤ (if isIn then length else 0)

/-- One call at a time, and a controller that completes what it was given: it
writes to the buffer for a transfer from a device, its completions are of the type
of the request, and its other events are none of these. -/
def Legal (st : Driver) : Op → Prop
  | .command _ _ => st.pc = .idle
  | .control slot _ _ _ _ _ _ => st.pc = .idle ∧ st.hc.slots slot.toNat ≠ none
  | .poll => True
  | .dma _ _ => ∃ r ∈ st.pending, ∃ slot length, r.kind = .control slot true length
  | .complete i trb data => ∃ r, st.pending[i]? = some r ∧ r.kind.Completes trb data
  | .post trb => trb.isInterrupt = true ∨ (trb.type ≠ trbEvTransfer ∧ trb.type ≠ trbEvCmdComplete)

/-- Nothing is with the controller, and no completion is unread. -/
def Driver.Settled (st : Driver) : Prop := st.pending = [] ∧ ∀ e ∈ st.hc.events, e.req = none

/-- Calls start when nothing is outstanding, also the second one of a recovery, and
devices answer in full. -/
def Prompt (st : Driver) : Op → Prop
  | .command _ _ | .control _ _ _ _ _ _ _ => st.Settled
  | .poll => ∀ slot req polls, st.pc = .resetEp slot req polls → 1000 ≤ polls → st.hc.events ≠ []
  | .complete i trb data => ∀ r slot length, st.pending[i]? = some r →
      r.kind = .control slot true length → trb.cc = xhciCcSuccess ∨ trb.cc = xhciCcShort →
      data.length = length
  | _ => True

/-! ## Interrupt transfers -/

theorem not_isInterrupt_of_matches {pc : Pc} {type slot : UInt32} {t : Trb}
    (hw : pc.wanted = some (type, slot)) (h : matches? type slot t = true) :
    t.isInterrupt = false := by
  have hcases : type = trbEvCmdComplete ∨ type = trbEvTransfer := by
    cases pc <;> simp_all [Pc.wanted]
  simp only [matches?, Bool.and_eq_true, beq_iff_eq] at h
  rcases hcases with rfl | rfl
  · simp [Trb.isInterrupt, h.1, trbEvCmdComplete, trbEvTransfer]
  · simp_all [Trb.isInterrupt]

theorem finish_frame (st : Driver) (ev : Option Trb) :
    (st.finish ev).read = st.read ∧ (st.finish ev).handed = st.handed := by
  rw [Driver.finish]
  cases st.pc with
  | idle => simp
  | command req polls => simp [Driver.ret]
  | setDequeue req polls => simp [Driver.ret]
  | resetEp slot req polls =>
    simp only [dequeueCommand, xhciCommand, Driver.ret]
    split <;> simp
  | control req slot isIn length polls =>
    cases ev with
    | none => simp [Driver.ret]
    | some t =>
      simp only [resetCommand, xhciCommand, Driver.ret]
      split
      · split <;> simp
      · simp

/-- **Interrupt transfers** that were read were handed on, once each and in order. -/
def Driver.HandsOn (st : Driver) : Prop :=
  st.handed.filter Trb.isInterrupt = st.read.filter Trb.isInterrupt

theorem Driver.HandsOn.poll {st : Driver} (h : st.HandsOn) : st.poll.HandsOn := by
  rw [Driver.poll]
  split
  · exact h
  · rename_i type slot hw
    split
    · split
      · exact h
      · obtain ⟨hread, hhanded⟩ := finish_frame st none
        rwa [HandsOn, hread, hhanded]
    · rename_i e rest _
      split
      · rename_i hmatch
        obtain ⟨hread, hhanded⟩ := finish_frame
          { st with hc := { st.hc with events := rest }, read := st.read ++ [e.trb] } (some e.trb)
        rw [HandsOn, hread, hhanded]
        simp only [List.filter_append, List.filter_singleton,
          not_isInterrupt_of_matches hw hmatch]
        simpa [HandsOn] using h
      · split
        · simp only [HandsOn, List.filter_append]
          rw [h]
        · rename_i htype
          have hno : e.trb.isInterrupt = false := by simp [Trb.isInterrupt, htype]
          simp only [HandsOn, List.filter_append, List.filter_singleton, hno]
          simpa [HandsOn] using h

theorem Driver.HandsOn.step {st : Driver} (h : st.HandsOn) (op : Op) : (Usb.step st op).HandsOn := by
  cases op with
  | command param control => exact h
  | control slot requestType request value index length data =>
    simp only [Usb.step, xhciControl]
    split
    · exact h
    · split <;> exact h
  | poll => exact h.poll
  | dma off bytes => exact h
  | complete i trb data =>
    simp only [Usb.step, Driver.complete]
    split <;> exact h
  | post trb => exact h

/-! ## Completions -/

/-- The request that a call waits for. -/
def Pc.req : Pc → Option Request
  | .idle => none
  | .command req _ | .resetEp _ req _ | .setDequeue req _ => some ⟨req, .command⟩
  | .control req slot isIn length _ => some ⟨req, .control slot isIn length⟩

/-- A completion of a request, with the data that is still in the buffer if a
device sent it. -/
def Completion.Fits (c : Completion) (st : Driver) (r : Request) (t : Trb) : Prop :=
  c.req = r.id ∧ c.kind = r.kind ∧ c.trb = t ∧ r.kind.Completes t c.data ∧
    ∀ slot length, r.kind = .control slot true length →
      t.cc = xhciCcSuccess ∨ t.cc = xhciCcShort →
      c.data.length = length ∧ Buf.read st.hc.dmaBuf 0 length = c.data

/-- A call that waits for its request alone: the controller still has it and no
completion is in the ring, or its completion is the only one there. -/
def Driver.Alone (st : Driver) (r : Request) : Prop :=
  (st.pending = [r] ∧ ∀ e ∈ st.hc.events, e.req = none) ∨
  (st.pending = [] ∧ ∃ l t m, st.hc.events = l ++ ⟨t, some r.id⟩ :: m ∧
    (∀ e ∈ l ++ m, e.req = none) ∧ ∃ c ∈ st.completed, c.Fits st r t)

/-- A return with success is that of a request that the controller completed so. -/
def Return.Right (st : Driver) (r : Return) : Prop :=
  r.ok = true → ∃ c ∈ st.completed, c.req = r.req ∧ c.kind = r.kind ∧ r.event = some c.trb ∧
    r.data = c.data ∧
    match r.kind with
    | .command => c.trb.cc = xhciCcSuccess
    | .control _ _ _ => c.trb.cc = xhciCcSuccess ∨ c.trb.cc = xhciCcShort

/-- What does not depend on where the driver is. -/
structure Driver.Kept (st : Driver) : Prop where
  others : ∀ e ∈ st.hc.events, e.req = none →
    e.trb.isInterrupt = true ∨ (e.trb.type ≠ trbEvTransfer ∧ e.trb.type ≠ trbEvCmdComplete)
  returned : ∀ r ∈ st.returned, r.Right st

structure Driver.Good (st : Driver) : Prop extends st.Kept where
  alone : ∀ r, st.pc.req = some r → st.Alone r

theorem not_matches_of_other {pc : Pc} {type slot : UInt32} {t : Trb}
    (hw : pc.wanted = some (type, slot))
    (h : t.isInterrupt = true ∨ (t.type ≠ trbEvTransfer ∧ t.type ≠ trbEvCmdComplete)) :
    matches? type slot t = false := by
  rcases h with h | ⟨h1, h2⟩
  · by_contra hmatch
    have hno := not_isInterrupt_of_matches hw (by simpa using hmatch)
    rw [h] at hno
    cases hno
  · have hcases : type = trbEvCmdComplete ∨ type = trbEvTransfer := by
      cases pc <;> simp_all [Pc.wanted]
    rcases hcases with rfl | rfl
    · simp [matches?, h2]
    · simp [matches?, h1]

/-- The completion of a request is taken by the call that waits for it. -/
theorem matches_of_completes {pc : Pc} {type slot : UInt32} {r : Request} {t : Trb}
    {data : List UInt8} (hw : pc.wanted = some (type, slot)) (hr : pc.req = some r)
    (h : r.kind.Completes t data) : matches? type slot t = true := by
  cases pc with
  | idle => cases hw
  | control req slot' isIn length polls =>
    simp only [Pc.wanted, Option.some.injEq, Prod.mk.injEq] at hw
    simp only [Pc.req, Option.some.injEq] at hr
    subst hr
    obtain ⟨htype, hslot, hdci, -⟩ := h
    simp [matches?, ← hw.1, ← hw.2, htype, hslot, hdci]
  | command req polls | resetEp slot' req polls | setDequeue req polls =>
    simp only [Pc.wanted, Option.some.injEq, Prod.mk.injEq] at hw
    simp only [Pc.req, Option.some.injEq] at hr
    subst hr
    have htype := h.1
    simp [matches?, ← hw.1, htype, trbEvCmdComplete, trbEvTransfer]

/-- **A command** that starts when nothing is outstanding. -/
theorem Driver.Kept.command {st : Driver} (h : st.Kept) (hs : st.Settled) (param : UInt64)
    (control : UInt32) {wait : Nat → Pc} (hwait : ∀ n, (wait n).req = some ⟨n, .command⟩) :
    (xhciCommand st param control wait).Good := by
  refine ⟨⟨h.others, h.returned⟩, ?_⟩
  intro r hr
  simp only [xhciCommand, hwait, Option.some.injEq] at hr
  subst hr
  left
  simp only [xhciCommand, hs.1, List.nil_append]
  exact ⟨trivial, hs.2⟩

/-- **A return** that is right. -/
theorem Driver.Kept.ret {st : Driver} (h : st.Kept) {r : Return} (hr : r.Right st) :
    (st.ret r).Good := by
  refine ⟨⟨h.others, ?_⟩, ?_⟩
  · intro r' hr'
    rcases List.mem_append.mp hr' with hr' | hr'
    · exact h.returned r' hr'
    · rw [List.mem_singleton.mp hr']
      exact hr
  · intro r' hr'
    cases hr'

theorem Driver.Kept.retCommand {st : Driver} (h : st.Kept) {req : Nat} {t : Trb} {c : Completion}
    (hc : c ∈ st.completed) (hf : c.Fits st ⟨req, .command⟩ t) :
    (st.ret ⟨req, .command, t.cc == xhciCcSuccess, some t, []⟩).Good := by
  obtain ⟨hreq, hkind, rfl, hcompletes, -⟩ := hf
  apply h.ret
  intro hok
  exact ⟨c, hc, hreq, hkind, rfl, hcompletes.2.symm, by simpa using hok⟩

theorem Driver.Kept.retFailed {st : Driver} (h : st.Kept) (req : Nat) (kind : Kind)
    (ev : Option Trb) (data : List UInt8) : (st.ret ⟨req, kind, false, ev, data⟩).Good := by
  apply h.ret
  intro hok
  cases hok

/-- **The own event.**  A call that takes the completion of its request returns
with success only if this was one. -/
theorem Driver.Kept.finish {st : Driver} (h : st.Kept) (hs : st.Settled) {r : Request} {t : Trb}
    (hr : st.pc.req = some r) {c : Completion} (hc : c ∈ st.completed) (hf : c.Fits st r t) :
    (st.finish (some t)).Good := by
  rw [Driver.finish]
  cases hpc : st.pc with
  | idle =>
    rw [hpc] at hr
    cases hr
  | command req polls | setDequeue req polls =>
    rw [hpc, Pc.req, Option.some.injEq] at hr
    subst hr
    exact h.retCommand hc hf
  | resetEp slot req polls =>
    rw [hpc, Pc.req, Option.some.injEq] at hr
    subst hr
    have hret := h.retCommand hc hf
    simp only [Option.any_some, dequeueCommand]
    split
    · exact ⟨⟨hret.others, hret.returned⟩, fun r hr => nomatch hr⟩
    · exact hret.toKept.command hs _ _ fun n => rfl
  | control req slot isIn length polls =>
    rw [hpc, Pc.req, Option.some.injEq] at hr
    subst hr
    dsimp only
    split
    · have hret := h.retFailed req (.control slot isIn length) (some t) []
      split
      · exact hret.toKept.command hs _ _ fun n => rfl
      · exact hret
    · rename_i hcc
      obtain ⟨hreq, hkind, rfl, hcompletes, hdata⟩ := hf
      have hok : c.trb.cc = xhciCcSuccess ∨ c.trb.cc = xhciCcShort := by
        by_contra hno
        exact hcc ⟨fun h1 => hno (Or.inl h1), fun h2 => hno (Or.inr h2)⟩
      apply h.ret
      intro _
      refine ⟨c, hc, hreq, hkind, rfl, ?_, hok⟩
      -- What a device sent is what is in the buffer; else there is no data.
      cases isIn with
      | true => grind
      | false =>
        have hlen : c.data.length ≤ 0 := by simpa using hcompletes.2.2.2
        simpa using (List.length_eq_zero_iff.mp (Nat.le_zero.mp hlen)).symm

/-- **The time is up**, in a call that is not the first of a recovery. -/
theorem Driver.Kept.finish_none {st : Driver} (h : st.Kept)
    (hreset : ∀ slot req polls, st.pc ≠ .resetEp slot req polls) : (st.finish none).Good := by
  rw [Driver.finish]
  cases hpc : st.pc with
  | idle =>
    refine ⟨h, ?_⟩
    intro r hr
    rw [hpc] at hr
    cases hr
  | command req polls | setDequeue req polls => exact h.retFailed _ _ _ _
  | control req slot isIn length polls => exact h.retFailed _ _ _ _
  | resetEp slot req polls => exact absurd hpc (hreset slot req polls)

/-! ## The steps -/

/-- The invariant reads the event ring, the buffer, the history and the program
counter only. -/
theorem Driver.Good.congr {st st' : Driver} (h : st.Good)
    (hevents : st'.hc.events = st.hc.events) (hbuf : st'.hc.dmaBuf = st.hc.dmaBuf)
    (hpending : st'.pending = st.pending) (hcompleted : st'.completed = st.completed)
    (hreturned : st'.returned = st.returned) (hpc : st'.pc.req = st.pc.req) : st'.Good := by
  refine ⟨⟨?_, ?_⟩, ?_⟩
  · rw [hevents]
    exact h.others
  · intro r hr
    rw [hreturned] at hr
    rw [Return.Right, hcompleted]
    exact h.returned r hr
  · intro r hr
    rw [hpc] at hr
    simp only [Alone, Completion.Fits, hevents, hbuf, hpending, hcompleted]
    exact h.alone r hr

theorem handleTransfer_frame (hc : Controller) (t : Trb) :
    (xhciHandleTransfer hc t).1.events = hc.events ∧
      (xhciHandleTransfer hc t).1.dmaBuf = hc.dmaBuf := by
  rw [xhciHandleTransfer]
  split
  · exact ⟨rfl, rfl⟩
  · grind

theorem req_tick (pc : Pc) : pc.tick.req = pc.req := by
  cases pc <;> rfl

theorem exists_req_of_wanted {pc : Pc} {w : UInt32 × UInt32} (h : pc.wanted = some w) :
    ∃ r, pc.req = some r := by
  cases pc <;> first | exact ⟨_, rfl⟩ | cases h

/-- The driver after the first event of the ring was read. -/
def Driver.readEvent (st : Driver) (e : Event) (rest : List Event) : Driver :=
  { st with hc := { st.hc with events := rest }, read := st.read ++ [e.trb] }

theorem Driver.Good.readEvent {st : Driver} (h : st.Good) {e : Event} {rest : List Event}
    (hevents : st.hc.events = e :: rest) : (st.readEvent e rest).Kept := by
  refine ⟨?_, h.returned⟩
  intro e' he'
  exact h.others e' (hevents ▸ List.mem_cons_of_mem _ he')

/-- **A poll.** -/
theorem Driver.Good.poll {st : Driver} (h : st.Good) (hp : Prompt st .poll) : st.poll.Good := by
  rw [Driver.poll]
  cases hw : st.pc.wanted with
  | none => exact h
  | some wanted =>
    obtain ⟨type, slot⟩ := wanted
    obtain ⟨r, hr⟩ := exists_req_of_wanted hw
    cases hevents : st.hc.events with
    | nil =>
      dsimp only
      split
      · exact h.congr rfl rfl rfl rfl rfl (req_tick _)
      · rename_i hpolls
        apply h.toKept.finish_none
        intro slot req polls hpc
        rw [hpc, Pc.polls] at hpolls
        exact hp slot req polls hpc (Nat.le_of_not_lt hpolls) hevents
    | cons e rest =>
      have hkept := h.readEvent hevents
      have hother : e.req = none → (st.readEvent e rest).Alone r →
          (if matches? type slot e.trb then (st.readEvent e rest).finish (some e.trb)
            else if e.trb.type = trbEvTransfer then
              { st.readEvent e rest with
                hc := (xhciHandleTransfer (st.readEvent e rest).hc e.trb).1
                handed := st.handed ++ [e.trb]
                reports := st.reports ++
                  (xhciHandleTransfer (st.readEvent e rest).hc e.trb).2.toList }
            else st.readEvent e rest).Good := by
        intro hnone halone
        have hgood : (st.readEvent e rest).Good := by
          refine ⟨hkept, ?_⟩
          intro r' hr'
          have hsame : some r' = some r := hr'.symm.trans hr
          rw [Option.some.inj hsame]
          exact halone
        have hmem : e ∈ st.hc.events := by rw [hevents]; exact List.mem_cons_self
        rw [not_matches_of_other hw (h.others e hmem hnone)]
        simp only [Bool.false_eq_true, if_false]
        split
        · obtain ⟨he, hd⟩ := handleTransfer_frame (st.readEvent e rest).hc e.trb
          exact hgood.congr he hd rfl rfl rfl rfl
        · exact hgood
      rcases h.alone r hr with ⟨hpending, hnone⟩ | ⟨hpending, l, t, m, hsplit, hnone, c, hc, hf⟩
      · rw [hevents] at hnone
        apply hother (hnone e List.mem_cons_self)
        exact Or.inl ⟨hpending, fun e' he' => hnone e' (List.mem_cons_of_mem _ he')⟩
      · rw [hevents] at hsplit
        cases l with
        | nil =>
          obtain ⟨rfl, rfl⟩ := List.cons.inj hsplit
          have hmatch := matches_of_completes hw hr hf.2.2.2.1
          dsimp only
          rw [hmatch]
          exact hkept.finish ⟨hpending, hnone⟩ hr hc hf
        | cons e' l =>
          obtain ⟨rfl, rfl⟩ := List.cons.inj hsplit
          apply hother (hnone e List.mem_cons_self)
          exact Or.inr ⟨hpending, l, t, m, rfl, fun e' he' => hnone e' (List.mem_cons_of_mem _ he'),
            c, hc, hf⟩

/-- **The controller completes** the request that is waited for, or an older one
that nobody waits for. -/
theorem Driver.Good.complete {st : Driver} (h : st.Good) {i : Nat} {trb : Trb} {data : List UInt8}
    (hl : Legal st (.complete i trb data)) (hp : Prompt st (.complete i trb data)) :
    (st.complete i trb data).Good := by
  obtain ⟨r, hr, hcompletes⟩ := hl
  simp only [Driver.complete, hr]
  refine ⟨⟨?_, ?_⟩, ?_⟩
  · intro e he hnone
    rcases List.mem_append.mp he with he | he
    · exact h.others e he hnone
    · rw [List.mem_singleton.mp he] at hnone
      cases hnone
  · intro ret hret hok
    obtain ⟨c, hc, hrest⟩ := h.returned ret hret hok
    exact ⟨c, List.mem_append_left _ hc, hrest⟩
  · intro r' hr'
    rcases h.alone r' hr' with ⟨hpending, hnone⟩ | ⟨hpending, -⟩
    · -- There is only one request, and it becomes the only completion.
      obtain ⟨rfl, rfl⟩ : i = 0 ∧ r' = r := by
        rw [hpending] at hr
        cases i with
        | zero => exact ⟨rfl, Option.some.inj hr⟩
        | succ i => simp at hr
      right
      refine ⟨by simp [hpending], st.hc.events, trb, [], rfl, by simpa using hnone,
        ⟨r'.id, r'.kind, trb, data⟩, List.mem_append_right _ (List.mem_singleton_self _),
        rfl, rfl, rfl, hcompletes, ?_⟩
      intro slot length hkind hok
      have hlen := hp r' slot length hr hkind hok
      refine ⟨hlen, ?_⟩
      rw [← hlen]
      exact Buf.read_write_self st.hc.dmaBuf 0 data
    · rw [hpending] at hr
      simp at hr

/-- **Any other event.** -/
theorem Driver.Good.post {st : Driver} (h : st.Good) {trb : Trb} (hl : Legal st (.post trb)) :
    (Usb.step st (.post trb)).Good := by
  refine ⟨⟨?_, h.returned⟩, ?_⟩
  · intro e he hnone
    rcases List.mem_append.mp he with he | he
    · exact h.others e he hnone
    · rw [List.mem_singleton.mp he]
      exact hl
  · intro r hr
    rcases h.alone r hr with ⟨hpending, hnone⟩ | ⟨hpending, l, t, m, hsplit, hnone, hc⟩
    · left
      refine ⟨hpending, ?_⟩
      intro e he
      rcases List.mem_append.mp he with he | he
      · exact hnone e he
      · rw [List.mem_singleton.mp he]
    · right
      refine ⟨hpending, l, t, m ++ [⟨trb, none⟩], ?_, ?_, hc⟩
      · simp [Usb.step, hsplit]
      · grind

/-- **The controller writes** to the buffer only before it completes. -/
theorem Driver.Good.dma {st : Driver} (h : st.Good) {off : Nat} {bytes : List UInt8}
    (hl : Legal st (.dma off bytes)) : (Usb.step st (.dma off bytes)).Good := by
  obtain ⟨r, hr, -⟩ := hl
  refine ⟨⟨h.others, h.returned⟩, ?_⟩
  intro r' hr'
  rcases h.alone r' hr' with hwith | ⟨hpending, -⟩
  · exact Or.inl hwith
  · rw [hpending] at hr
    cases hr

/-- **A control transfer** that starts when nothing is outstanding. -/
theorem Driver.Good.control {st : Driver} (h : st.Good) (hs : st.Settled) (hidle : st.pc = .idle)
    (slot : UInt32) (requestType request : UInt8) (value index length : UInt16)
    (data : List UInt8) :
    (xhciControl st slot requestType request value index length data).Good := by
  rw [xhciControl]
  split
  · refine ⟨⟨h.others, ?_⟩, ?_⟩
    · intro r hr
      rcases List.mem_append.mp hr with hr | hr
      · exact h.returned r hr
      · rw [List.mem_singleton.mp hr]
        intro hok
        cases hok
    · intro r hr
      simp only [hidle] at hr
      cases hr
  · split
    · exact h
    · refine ⟨⟨h.others, h.returned⟩, ?_⟩
      intro r hr
      obtain rfl := Option.some.inj hr
      left
      simp only [hs.1, List.nil_append]
      exact ⟨trivial, hs.2⟩

/-- **A step.** -/
theorem Driver.Good.step {st : Driver} (h : st.Good) {op : Op} (hl : Legal st op)
    (hp : Prompt st op) : (Usb.step st op).Good := by
  cases op with
  | command param control =>
    rw [Usb.step]
    apply h.toKept.command hp
    intro n
    rfl
  | control slot requestType request value index length data =>
    exact h.control hp hl.1 slot requestType request value index length data
  | poll => exact h.poll hp
  | dma off bytes => exact h.dma hl
  | complete i trb data => exact h.complete hl hp
  | post trb => exact h.post hl

/-! ## Requests are told apart -/

/-- The requests with the controller and the completed ones have numbers of their
own. -/
structure Driver.Numbered (st : Driver) : Prop where
  below : ∀ n ∈ st.pending.map Request.id ++ st.completed.map Completion.req, n < st.next
  distinct : (st.pending.map Request.id ++ st.completed.map Completion.req).Nodup

theorem Driver.Numbered.request {st st' : Driver} (h : st.Numbered) {kind : Kind}
    (hpending : st'.pending = st.pending ++ [⟨st.next, kind⟩]) (hnext : st'.next = st.next + 1)
    (hcompleted : st'.completed = st.completed) : st'.Numbered := by
  have hperm : (st'.pending.map Request.id ++ st'.completed.map Completion.req).Perm
      (st.next :: (st.pending.map Request.id ++ st.completed.map Completion.req)) := by
    rw [hpending, hcompleted, List.map_append, List.append_assoc]
    exact List.perm_middle
  constructor
  · intro n hn
    rw [hnext]
    rcases List.mem_cons.mp (hperm.mem_iff.mp hn) with rfl | hn
    · exact Nat.lt_succ_self _
    · exact Nat.lt_succ_of_lt (h.below n hn)
  · rw [hperm.nodup_iff, List.nodup_cons]
    exact ⟨fun hmem => Nat.lt_irrefl _ (h.below _ hmem), h.distinct⟩

theorem Driver.Numbered.keep {st st' : Driver} (h : st.Numbered)
    (hpending : st'.pending = st.pending) (hnext : st.next ≤ st'.next)
    (hcompleted : st'.completed = st.completed) : st'.Numbered := by
  constructor
  · rw [hpending, hcompleted]
    intro n hn
    exact Nat.lt_of_lt_of_le (h.below n hn) hnext
  · rw [hpending, hcompleted]
    exact h.distinct

theorem Driver.Numbered.finish {st : Driver} (h : st.Numbered) (ev : Option Trb) :
    (st.finish ev).Numbered := by
  rw [Driver.finish]
  cases st.pc with
  | idle => exact h
  | command req polls | setDequeue req polls => exact h.keep rfl (Nat.le_refl _) rfl
  | resetEp slot req polls =>
    dsimp only
    rw [dequeueCommand]
    split
    · exact h.keep rfl (Nat.le_refl _) rfl
    · exact h.request rfl rfl rfl
  | control req slot isIn length polls =>
    cases ev with
    | none => exact h.keep rfl (Nat.le_refl _) rfl
    | some t =>
      dsimp only
      split
      · split
        · exact h.request rfl rfl rfl
        · exact h.keep rfl (Nat.le_refl _) rfl
      · exact h.keep rfl (Nat.le_refl _) rfl

theorem Driver.Numbered.step {st : Driver} (h : st.Numbered) (op : Op) :
    (Usb.step st op).Numbered := by
  cases op with
  | command param control => exact h.request rfl rfl rfl
  | control slot requestType request value index length data =>
    simp only [Usb.step, xhciControl]
    split
    · exact h.keep rfl (Nat.le_succ _) rfl
    · split
      · exact h
      · exact h.request rfl rfl rfl
  | dma off bytes => exact h.keep rfl (Nat.le_refl _) rfl
  | post trb => exact h.keep rfl (Nat.le_refl _) rfl
  | complete i trb data =>
    simp only [Usb.step, Driver.complete]
    cases hr : st.pending[i]? with
    | none => exact h
    | some r =>
      -- The number moves from the requests to the completions.
      obtain ⟨hi, rfl⟩ := List.getElem?_eq_some_iff.mp hr
      have hpending := (List.getElem_cons_eraseIdx_perm hi).map Request.id
      have hperm : ((st.pending.eraseIdx i).map Request.id ++
          (st.completed ++ [(⟨st.pending[i].id, st.pending[i].kind, trb, data⟩ : Completion)]).map
            Completion.req).Perm
          (st.pending.map Request.id ++ st.completed.map Completion.req) := by grind
      constructor
      · intro n hn
        exact h.below n (hperm.mem_iff.mp hn)
      · exact hperm.nodup_iff.mpr h.distinct
  | poll =>
    rw [Usb.step, Driver.poll]
    split
    · exact h
    · split
      · split
        · exact h.keep rfl (Nat.le_refl _) rfl
        · exact h.finish none
      · rename_i e rest _
        have hread : (st.readEvent e rest).Numbered := h.keep rfl (Nat.le_refl _) rfl
        split
        · exact hread.finish (some e.trb)
        · split
          · exact hread.keep rfl (Nat.le_refl _) rfl
          · exact hread

/-! ## Whole runs -/

/-- **Requests and completions.**  In every run in which calls start when nothing
is outstanding and devices answer in full, a call returns with success only if the
controller completed the request of this very call so, with the event and the data
of this completion; and interrupt transfers are handed on once each. -/
theorem returns_right {st : Driver}
    (h : machine.Reachable (fun st op => Legal st op ∧ Prompt st op) st) :
    (∀ r ∈ st.returned, r.ok = true → ∃ c ∈ st.completed, c.req = r.req ∧ c.kind = r.kind ∧
      r.event = some c.trb ∧ r.data = c.data ∧
      match r.kind with
      | .command => c.trb.cc = xhciCcSuccess
      | .control _ _ _ => c.trb.cc = xhciCcSuccess ∨ c.trb.cc = xhciCcShort) ∧
    (st.completed.map Completion.req).Nodup ∧
    st.handed.filter Trb.isInterrupt = st.read.filter Trb.isInterrupt := by
  have hall : st.Good ∧ st.Numbered ∧ st.HandsOn := by
    refine h.invariant (P := fun st => st.Good ∧ st.Numbered ∧ st.HandsOn) ?_ ?_
    · intro st hst
      obtain ⟨hevents, hpc, hpending, hcompleted, hreturned, hread, hhanded⟩ := hst
      refine ⟨⟨⟨?_, ?_⟩, ?_⟩, ⟨?_, ?_⟩, ?_⟩
      · simp [hevents]
      · simp [hreturned]
      · simp [hpc, Pc.req]
      · simp [hpending, hcompleted]
      · simp [hpending, hcompleted]
      · simp [Driver.HandsOn, hread, hhanded]
    · intro st op hst hop
      exact ⟨hst.1.step hop.1 hop.2, hst.2.1.step op, hst.2.2.step op⟩
  obtain ⟨hgood, hnumbered, hhands⟩ := hall
  exact ⟨hgood.returned, hnumbered.distinct.of_append_right, hhands⟩

/-- The driver of a controller without devices. -/
def noDevices : Driver where
  hc := ⟨1, ⟨fun _ => ⟨0, 0, 0⟩, 0x1000, 0, 1⟩, [], fun _ => 0, 0x2000, fun _ => none⟩
  pc := .idle
  next := 0
  pending := []
  completed := []
  returned := []
  read := []
  handed := []
  reports := []

/-- The event of a successful command at the start of the ring, for slot 1. -/
def slotEnabled : Trb := ⟨0x1000, 0x01000000, 0x01008401⟩

theorem noDevices_reachable (guard : Driver → Op → Prop) : machine.Reachable guard noDevices :=
  .start ⟨rfl, rfl, rfl, rfl, rfl, rfl, rfl⟩

/-- The driver after a command. -/
def commanded : Driver := (machine.step noDevices (.command 0 0x2400)).1

theorem commanded_legal : Legal noDevices (.command 0 0x2400) := rfl

theorem completed_legal : Legal commanded (.complete 0 slotEnabled []) := ⟨_, rfl, rfl, rfl⟩

/-- A command that is completed and read. -/
theorem enabled_slot_returns :
    let st := machine.run noDevices [.command 0 0x2400, .complete 0 slotEnabled [], .poll]
    st.returned = [⟨0, .command, true, some slotEnabled, []⟩] ∧
      ∃ c ∈ st.completed, c.req = 0 ∧ some slotEnabled = some c.trb := by
  intro st
  have hreach : machine.Reachable (fun st op => Legal st op ∧ Prompt st op) st := by
    have hcommand : Prompt noDevices (.command 0 0x2400) :=
      ⟨rfl, fun e he => absurd he List.not_mem_nil⟩
    have hcomplete : Prompt commanded (.complete 0 slotEnabled []) := by
      intro r slot length hr hkind
      cases hr
      cases hkind
    have hpoll : Prompt (machine.step commanded (.complete 0 slotEnabled [])).1 .poll := by
      intro slot req polls hpc
      cases hpc
    exact .step _ (.step _ (.step _ (noDevices_reachable _) ⟨commanded_legal, hcommand⟩)
      ⟨completed_legal, hcomplete⟩) ⟨trivial, hpoll⟩
  have hreturned : st.returned = [⟨0, .command, true, some slotEnabled, []⟩] := rfl
  refine ⟨hreturned, ?_⟩
  obtain ⟨c, hc, hreq, -, hevent, -⟩ := (returns_right hreach).1 _
    (hreturned ▸ List.mem_singleton_self _) rfl
  exact ⟨c, hc, hreq, hevent⟩

/-! ## A late event -/

theorem waits {st : Driver} {guard : Driver → Op → Prop} (hguard : ∀ st, guard st .poll)
    (hevents : st.hc.events = []) {req : Nat} (hreach : machine.Reachable guard st)
    (hpc : st.pc = .command req 0) {n : Nat} (hn : n ≤ 1000) :
    machine.Reachable guard { st with pc := .command req n } := by
  induction n with
  | zero =>
    rw [← hpc]
    exact hreach
  | succ n ih =>
    have hstep := (ih (by omega)).step .poll (hguard _)
    have hpoll : Driver.poll { st with pc := .command req n } =
        { st with pc := .command req (n + 1) } := by
      simp [Driver.poll, Pc.wanted, Pc.polls, Pc.tick, hevents, show n < 1000 by omega]
    simp only [machine, Usb.step, hpoll] at hstep
    exact hstep

theorem waits_out {st : Driver} {guard : Driver → Op → Prop} (hguard : ∀ st, guard st .poll)
    (hevents : st.hc.events = []) {req : Nat} (hreach : machine.Reachable guard st)
    (hpc : st.pc = .command req 0) :
    machine.Reachable guard (st.ret ⟨req, .command, false, none, []⟩) := by
  have hstep := (waits hguard hevents hreach hpc (Nat.le_refl 1000)).step .poll (hguard _)
  have hpoll : Driver.poll { st with pc := .command req 1000 } =
      st.ret ⟨req, .command, false, none, []⟩ := by
    simp [Driver.poll, Pc.wanted, Pc.polls, Driver.finish, Driver.ret, hevents]
  simp only [machine, Usb.step, hpoll] at hstep
  exact hstep

/-- A command whose time was up, the next command, and then the completion of the
first: the next command takes it, though the controller still has its request. -/
def tooLate : Driver :=
  machine.run (commanded.ret ⟨0, .command, false, none, []⟩)
    [.command 0 0x2400, .complete 0 slotEnabled [], .poll]

theorem late_event_taken :
    machine.Reachable Legal tooLate ∧
      tooLate.returned = [⟨0, .command, false, none, []⟩,
        ⟨1, .command, true, some slotEnabled, []⟩] ∧
      tooLate.pending = [⟨1, .command⟩] ∧ ∀ c ∈ tooLate.completed, c.req ≠ 1 := by
  refine ⟨?_, rfl, rfl, ?_⟩
  · have hfirst : machine.Reachable Legal commanded :=
      .step _ (noDevices_reachable Legal) commanded_legal
    have hup := waits_out (fun _ => trivial) rfl hfirst rfl
    have hnext : Legal (commanded.ret ⟨0, .command, false, none, []⟩) (.command 0 0x2400) := rfl
    have hlate : Legal (machine.step (commanded.ret ⟨0, .command, false, none, []⟩)
        (.command 0 0x2400)).1 (.complete 0 slotEnabled []) := ⟨_, rfl, rfl, rfl⟩
    have hpoll : ∀ st, Legal st .poll := fun _ => trivial
    exact .step _ (.step _ (.step _ hup hnext) hlate) (hpoll _)
  · intro c hc
    rw [List.mem_singleton.mp hc]
    exact Nat.zero_ne_one

end Usb
