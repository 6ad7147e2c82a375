import StrawOS.Sock.Calls

/-!
# The rings of local sockets

The head of a ring stays inside it and there are never more bytes in a ring than it
has room for, whatever the calls and their order.
-/

namespace Sock

variable {st : State}

/-- The ring of a socket is in order. -/
def Socket.InOrder (k : Socket) : Prop := k.rxHead < sockBufSize ∧ k.rxCount ≤ sockBufSize

/-- The rings of all sockets are in order. -/
def Rings (st : State) : Prop := ∀ a, (st.sock a).InOrder

theorem inOrder_empty {k : Socket} (hh : k.rxHead = 0) (hc : k.rxCount = 0) : k.InOrder := by
  rw [Socket.InOrder, hh, hc]
  decide

theorem Start.rings (h : Start st) : Rings st := by
  intro a
  rw [h.sock]
  exact inOrder_empty rfl rfl

theorem Rings.setSock (h : Rings st) {a : Addr} {k : Socket} (hk : k.InOrder) :
    Rings (st.setSock a k) := by
  intro b
  by_cases hb : b = a
  · subst hb
    simpa [State.setSock] using hk
  · simpa [State.setSock, hb] using h b

theorem Socket.InOrder.drain {k : Socket} (h : k.InOrder) (n : Nat) : (k.drain n).InOrder := by
  constructor
  · exact Nat.mod_lt _ (by decide)
  · exact Nat.le_trans (Nat.sub_le _ _) h.2

theorem Socket.InOrder.push {k : Socket} (h : k.InOrder) {bytes : List UInt8}
    (hfit : k.rxCount + bytes.length ≤ sockBufSize) : (sockPush k bytes).InOrder :=
  ⟨h.1, hfit⟩

theorem Rings.unlinkPeer (h : Rings st) (a : Addr) : Rings (st.unlinkPeer a) := by
  intro b
  rw [unlinkPeer_sock]
  split
  · exact h b
  · exact h b

theorem Rings.destroyOne (h : Rings st) (a : Addr) : Rings (st.destroyOne a) := h.unlinkPeer a

theorem Rings.sockDestroy (h : Rings st) (a : Addr) : Rings (st.sockDestroy a) :=
  sockDestroy_keeps h (fun _ c h' => h'.destroyOne c) (Rings.setSock h (h a))

theorem Rings.sockNew (h : Rings st) (a : Addr) (nonblock : Bool) : Rings (st.sockNew a nonblock) :=
  Rings.setSock h (inOrder_empty rfl rfl)

theorem Rings.allocRx (h : Rings st) (a : Addr) : Rings (allocRx st a) := by
  rw [Sock.allocRx]
  split
  · exact h
  · exact h.setSock (inOrder_empty rfl rfl)

theorem Rings.link (h : Rings st) (s conn l : Addr) : Rings (link st s conn l) := by
  have h₁ : Rings (st.setSock conn { st.sock conn with state := .connected, peer := some s }) :=
    h.setSock (h conn)
  have h₂ := h₁.setSock (a := s)
    (k := { State.sock (st.setSock conn _) s with state := .connected, peer := some conn }) (h₁ s)
  exact Rings.setSock h₂ (h₂ l)

theorem Rings.readSegment (h : Rings st) (t : Nat) (s : Addr) (count : Nat) :
    Rings (readSegment st t s count).1 := by
  rw [Sock.readSegment]
  split
  · exact h
  split
  · exact Rings.setSock h ((h s).drain _)
  split
  · exact h
  split
  · exact h
  · exact h

theorem Rings.transfer (h : Rings st) (s peer : Addr) {bytes : List UInt8}
    (hfit : (st.sock peer).rxCount + bytes.length ≤ sockBufSize) :
    Rings (transfer st s peer bytes) :=
  Rings.setSock h ((h peer).push hfit)

/-- What one round of `sock_write` copies fits into the ring. -/
theorem chunk_fits {buf : List UInt8} {written count : Nat} (hc : count ≤ sockBufSize) :
    count + ((buf.drop written).take (min (sockBufSize - count) (buf.length - written))).length ≤
      sockBufSize := by
  simp only [List.length_take, List.length_drop]
  omega

theorem Rings.writeSegment (t : Nat) (s : Addr) (buf : List UInt8) (written : Nat) (h : Rings st) :
    Rings (writeSegment st t s buf written).1 := by
  fun_induction Sock.writeSegment st t s buf written with
  | case1 | case2 | case3 | case5 => exact h
  | case4 st written _ peer _ _ _ _ _ _ ih => exact ih (h.transfer _ _ (chunk_fits (h peer).2))

theorem Rings.sockSysConnect (h : Rings st) (fd : Nat) (name : Vfs.CString) (conn : Option Addr)
    (rings : Bool) : Rings (sockSysConnect st fd name conn rings) := by
  unfold Sock.sockSysConnect
  dsimp only
  split
  case h_2 => exact h
  rename_i s conn _
  have hnew := h.sockNew conn false
  split
  · exact hnew
  have h₁ := (hnew.allocRx conn).allocRx s
  split
  · exact h₁.sockDestroy conn
  split
  · exact h₁.sockDestroy conn
  · exact h₁.link _ _ _

/-- **Step lemma.** -/
theorem Rings.step (h : Rings st) (op : Op) : Rings (step st op).1 :=
  Survives.step
    { now := h
      fds := fun _ _ _ h' => h'
      outside := fun _ _ h' => h'
      flags := fun _ s _ h' => h'.setSock (h' s)
      destroy := fun _ s h' => h'.sockDestroy s
      wake := h
      asleep := fun _ _ _ => h
      first := fun s _ _ _ => h.setSock (h s)
      made := fun nonblock _ c _ _ => ⟨h.sockNew c nonblock, h.sockNew c nonblock⟩
      named := fun s _ _ _ _ _ => h.setSock (h s)
      connect := fun fd name _ rings _ => h.sockSysConnect fd name _ rings
      read := h.readSegment
      write := fun t s buf written => Rings.writeSegment t s buf written h }

end Sock

/-!
# No lost wake-up

A task sleeps in `sock_read`, `sock_write` or `sock_sys_accept` only while what it
waits for has not come.  Whatever puts bytes into a ring, takes them out, queues a
connection or takes an end away wakes all tasks that sleep, in the same stretch;
a task that was woken for nothing looks again before it sleeps again.
-/

namespace Sock

variable {st st' : State}

/-- What a call waits for has not come. -/
def Blocked (st : State) : Pending → Prop
  | .read s _ => (st.sock s).rxCount = 0 ∧ ∃ p, (st.sock s).peer = some p
  | .write s _ _ => ∃ p, (st.sock s).peer = some p ∧ (st.sock p).rxCount = sockBufSize
  | .accept s => (st.sock s).backlog = []

/-- Every task that sleeps waits for something that has not come. -/
def Waiting (st : State) : Prop := ∀ t p, st.tasks t = .inside p true → Blocked st p

theorem Start.waiting (h : Start st) : Waiting st := by
  intro t p ht
  rw [h.tasks] at ht
  simp at ht

theorem wakeWaiters_waiting (st : State) : Waiting st.wakeWaiters := by
  intro t p ht
  simp only [State.wakeWaiters] at ht
  split at ht
  · simp at ht
  · simp at ht

theorem Waiting.setTask (h : Waiting st) {t : Nat} {c : Context}
    (hc : ∀ p, c = .inside p true → Blocked st p) : Waiting (st.setTask t c) := by
  intro t' p ht
  by_cases heq : t' = t
  · subst heq
    exact hc p (by simpa [State.setTask] using ht)
  · exact h t' p (by simpa [State.setTask, heq] using ht)

theorem Waiting.finish (h : Waiting st) (t : Nat) (e : Event) : Waiting (st.finish t e).1 :=
  h.setTask (by simp)

theorem Waiting.sleep (h : Waiting st) (t : Nat) {p : Pending} (hp : Blocked st p) :
    Waiting (st.sleep t p).1 := by
  refine h.setTask ?_
  intro q hq
  obtain rfl : p = q := by simpa using hq
  exact hp

theorem Waiting.congr (h : Waiting st) (htasks : st'.tasks = st.tasks)
    (hsock : ∀ a, (st'.sock a).rxCount = (st.sock a).rxCount ∧
      (st'.sock a).peer = (st.sock a).peer ∧ (st'.sock a).backlog = (st.sock a).backlog) :
    Waiting st' := by
  intro t p ht
  rw [htasks] at ht
  have hb := h t p ht
  cases p with
  | read s count =>
    rw [Blocked, (hsock s).1, (hsock s).2.1]
    exact hb
  | write s buf written =>
    obtain ⟨p, hp, hfull⟩ := hb
    exact ⟨p, by rw [(hsock s).2.1, hp], by rw [(hsock p).1, hfull]⟩
  | accept s =>
    rw [Blocked, (hsock s).2.2]
    exact hb

theorem Waiting.setSock (h : Waiting st) {a : Addr} {k : Socket}
    (hk : k.rxCount = (st.sock a).rxCount ∧ k.peer = (st.sock a).peer ∧
      k.backlog = (st.sock a).backlog) : Waiting (st.setSock a k) := by
  refine h.congr rfl ?_
  intro b
  by_cases hb : b = a
  · subst hb
    simpa [State.setSock] using hk
  · simp [State.setSock, hb]

/-- A new socket: nobody waits for bytes or room at an address that was free. -/
theorem Waiting.sockNew (h : Waiting st) (hg : Graph [] st) {a : Addr} (ha : st.live a = false)
    (nonblock : Bool) : Waiting (st.sockNew a nonblock) := by
  have hne : ∀ {b : Addr}, st.live b = true → b ≠ a := by
    intro b hb heq
    rw [heq, ha] at hb
    simp at hb
  have hold : ∀ {b : Addr}, b ≠ a → (st.sockNew a nonblock).sock b = st.sock b :=
    fun hb => by simp [State.sockNew, hb]
  intro t p ht
  have hb : Blocked st p := h t p ht
  cases p with
  | read s count =>
    obtain ⟨hc, p, hp⟩ := hb
    have hsa := hne (hg.peer s p hp).1
    exact ⟨by rw [hold hsa, hc], p, by rw [hold hsa, hp]⟩
  | write s buf written =>
    obtain ⟨p, hp, hfull⟩ := hb
    obtain ⟨hs, hp', -⟩ := hg.peer s p hp
    exact ⟨p, by rw [hold (hne hs), hp], by rw [hold (hne hp'), hfull]⟩
  | accept s =>
    show ((st.sockNew a nonblock).sock s).backlog = []
    by_cases hsa : s = a
    · subst hsa
      simp [State.sockNew]
    · rw [hold hsa]
      exact hb

/-- Whoever takes the first of a backlog leaves nobody asleep at that listener. -/
theorem Waiting.takeFirst (h : Waiting st) {l conn : Addr} {rest : List Addr}
    (hl : (st.sock l).backlog = conn :: rest) :
    Waiting (st.setSock l { st.sock l with backlog := rest }) := by
  have hsock : ∀ b, ((st.setSock l { st.sock l with backlog := rest }).sock b).rxCount =
      (st.sock b).rxCount ∧ ((st.setSock l { st.sock l with backlog := rest }).sock b).peer =
      (st.sock b).peer := by
    intro b
    by_cases hb : b = l
    · subst hb
      simp [State.setSock]
    · simp [State.setSock, hb]
  intro t p ht
  have hb : Blocked st p := h t p ht
  cases p with
  | read s count =>
    rw [Blocked, (hsock s).1, (hsock s).2]
    exact hb
  | write s buf written =>
    obtain ⟨p, hp, hfull⟩ := hb
    exact ⟨p, by rw [(hsock s).2, hp], by rw [(hsock p).1, hfull]⟩
  | accept s =>
    have hsl : s ≠ l := by
      intro heq
      have hnil : (st.sock l).backlog = [] := heq ▸ hb
      rw [hl] at hnil
      simp at hnil
    simpa [State.setSock, hsl, Blocked] using hb

/-! ## The calls -/

theorem sockDestroy_waiting (st : State) (a : Addr) : Waiting (st.sockDestroy a) := by
  rw [State.sockDestroy]
  split
  · exact wakeWaiters_waiting _
  · exact wakeWaiters_waiting _

theorem Waiting.readSegment (h : Waiting st) (t : Nat) (s : Addr) (count : Nat) :
    Waiting (readSegment st t s count).1 := by
  rw [Sock.readSegment]
  split
  · exact h.finish t _
  split
  · exact (wakeWaiters_waiting _).finish t _
  cases hp : (st.sock s).peer with
  | none => exact h.finish t _
  | some p =>
    rw [if_neg (by simp)]
    split
    · exact h.finish t _
    · exact h.sleep t ⟨by omega, p, hp⟩

/-- The loop sleeps only at a full ring; every round that copies something has woken
everybody. -/
theorem Waiting.writeSegment (t : Nat) (s : Addr) (buf : List UInt8) (written : Nat)
    (hr : Rings st) (h : Waiting st) : Waiting (writeSegment st t s buf written).1 := by
  fun_induction Sock.writeSegment st t s buf written with
  | case1 | case2 | case3 => exact h.finish t _
  | case4 st written _ peer _ _ _ _ _ _ ih =>
    exact ih (hr.transfer _ _ (chunk_fits (hr peer).2)) (wakeWaiters_waiting _)
  | case5 st written _ peer hp remaining space _ hfull =>
    have hle := (hr peer).2
    exact h.sleep t ⟨peer, hp, by omega⟩

theorem Waiting.sockSysConnect (h : Waiting st) (hg : Graph [] st) (fd : Nat) (name : Vfs.CString)
    (mem : Option Addr) (rings : Bool) :
    Waiting (sockSysConnect st fd name (st.available mem) rings) := by
  unfold Sock.sockSysConnect
  dsimp only
  split
  case h_2 => exact h
  rename_i s conn hs hconn
  split
  · exact h.sockNew hg (available_spec hconn) false
  split
  · exact sockDestroy_waiting _ _
  split
  · exact sockDestroy_waiting _ _
  · exact wakeWaiters_waiting _

/-- **Step lemma.** -/
theorem Waiting.step (h : Waiting st) (hg : Graph [] st) (hr : Rings st) (op : Op) :
    Waiting (step st op).1 :=
  Survives.step
    { now := h
      fds := fun _ _ _ h' => h'
      outside := fun _ t h' => h'.finish t .failed
      flags := fun _ _ _ h' => h'.setSock ⟨rfl, rfl, rfl⟩
      destroy := fun st' s _ => sockDestroy_waiting st' s
      wake := wakeWaiters_waiting st
      asleep := fun t s hb => h.sleep t hb
      first := fun _ _ _ hb => h.takeFirst hb
      made := fun nonblock _ _ _ hc =>
        ⟨h.sockNew hg (available_spec hc) nonblock, h.sockNew hg (available_spec hc) nonblock⟩
      named := fun _ _ _ _ _ _ => Waiting.setSock h ⟨rfl, rfl, rfl⟩
      connect := fun fd name mem rings _ => h.sockSysConnect hg fd name mem rings
      read := h.readSegment
      write := fun t s buf written => h.writeSegment t s buf written hr }

/-- **Run lemma.** -/
theorem waiting_of_reachable {guard : State → Op → Prop} (h : machine.Reachable guard st) :
    Waiting st := by
  have hall : Graph [] st ∧ Rings st ∧ Waiting st := by
    refine Machine.Reachable.invariant (P := fun s => Graph [] s ∧ Rings s ∧ Waiting s) ?_ ?_ h
    · intro s hs
      exact ⟨Start.graph hs, Start.rings hs, Start.waiting hs⟩
    · intro s op hs _
      obtain ⟨hg, hr, hw⟩ := hs
      exact ⟨hg.step op, hr.step op, hw.step hg hr op⟩
  exact hall.2.2

/-- **No lost wake-up.**  In every state that any interleaving leads to, a task that
sleeps in a read finds no bytes and an end that may still send some, one that
sleeps in a write finds the ring of the other end full, and one that sleeps in an
accept finds nothing queued. -/
theorem asleep_only_while_blocked (h : machine.Reachable (fun _ _ => True) st) (t : Nat) :
    (∀ s count, st.tasks t = .inside (.read s count) true →
      (st.sock s).rxCount = 0 ∧ ∃ p, (st.sock s).peer = some p ∧ st.live p = true) ∧
    (∀ s buf written, st.tasks t = .inside (.write s buf written) true →
      ∃ p, (st.sock s).peer = some p ∧ st.live p = true ∧ (st.sock p).rxCount = sockBufSize) ∧
    (∀ s, st.tasks t = .inside (.accept s) true → (st.sock s).backlog = []) := by
  have hw := waiting_of_reachable h
  have hg := graph_of_reachable h
  refine ⟨?_, ?_, ?_⟩
  · intro s count ht
    obtain ⟨hempty, p, hp⟩ := hw t _ ht
    exact ⟨hempty, p, hp, (hg.peer s p hp).2.1⟩
  · intro s buf written ht
    obtain ⟨p, hp, hfull⟩ := hw t _ ht
    exact ⟨p, hp, (hg.peer s p hp).2.1, hfull⟩
  · intro s ht
    exact hw t _ ht

/-- A client that sleeps in a read before it was accepted. -/
def waitingClient : State := machine.run queuedClient [.read 0 4 10]

theorem waitingClient_blocked :
    waitingClient.tasks 0 = .inside (.read 8 10) true ∧
      (waitingClient.sock 8).rxCount = 0 ∧
      ∃ p, (waitingClient.sock 8).peer = some p ∧ waitingClient.live p = true := by
  have hreach : machine.Reachable (fun _ _ => True) waitingClient := by
    refine Machine.Reachable.run (Machine.Reachable.run (.start boot_start) _ ?_) _ ?_
    · exact fun _ _ _ _ => trivial
    · exact fun _ _ _ _ => trivial
  have hasleep : waitingClient.tasks 0 = .inside (.read 8 10) true := by decide +kernel
  exact ⟨hasleep, (asleep_only_while_blocked hreach 0).1 8 10 hasleep⟩

end Sock
