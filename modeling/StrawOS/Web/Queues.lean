import StrawOS.Lib.PtrQueue
import StrawOS.Web.Requests

/-!
# Where a request is

Each request in memory is in one place: in the queue of a host, in a slot, or held by the
code that moves or completes it.  The operations move a request from one place to another,
and the queues stay chains.
-/

namespace Web

inductive Place
  | queue (i : Nat)
  | slot (i k : Nat)
  | held
  deriving DecidableEq

namespace Net

/-- The pointer from one request to the next. -/
def next (n : Net) (p : Nat) : Option Nat := (n.heap p).bind Req.next

theorem next_write {n : Net} {f : Req → Req} (hf : ∀ r, (f r).next = r.next) (p : Nat) :
    (n.write p f).next = n.next := by
  funext q
  by_cases hq : q = p
  · subst hq
    simp only [next, write, Function.update_self]
    cases n.heap q with
    | none => rfl
    | some r => exact hf r
  · simp [next, write, hq]

theorem next_write_next {n : Net} {p : Nat} (hp : (n.heap p).isSome = true) (v : Option Nat) :
    (n.write p fun r => { r with next := v }).next = Function.update n.next p v := by
  obtain ⟨r, hr⟩ := Option.isSome_iff_exists.1 hp
  funext q
  by_cases hq : q = p
  · subst hq
    simp [next, write, hr]
  · simp [next, write, hq]

theorem write_isSome (n : Net) (p q : Nat) (f : Req → Req) :
    ((n.write p f).heap q).isSome = (n.heap q).isSome := by
  by_cases hq : q = p
  · subst hq
    simp [write]
  · simp [write, hq]

end Net

/-- The places of the requests: `held` are those that no queue and no slot has, `own` tells
the place of each, and `q` has the queues. -/
structure Owned (n : Net) (held : List Nat) (own : Nat → Option Place) (q : Nat → List Nat) : Prop where
  live : ∀ p, (n.heap p).isSome = (own p).isSome
  chain : ∀ i, PtrChain n.next (n.hosts i).head (q i)
  queued : ∀ i p, p ∈ q i ↔ own p = some (.queue i)
  slot : ∀ i k p, ((n.hosts i).slots k).req = some p ↔ own p = some (.slot i k)
  holds : ∀ p, p ∈ held ↔ own p = some .held
  nodup : held.Nodup

/-- The host of a place. -/
def Place.host : Place → Option Nat
  | queue i => some i
  | slot i _ => some i
  | held => none

/-- Only the hosts that are in use have requests. -/
def Within (n : Net) (own : Nat → Option Place) : Prop :=
  ∀ p place i, own p = some place → place.host = some i → i < n.hostCount

theorem Within.update {n n' : Net} {own : Nat → Option Place} (h : Within n own)
    (hcount : n'.hostCount = n.hostCount) (p : Nat) (place : Option Place)
    (hplace : ∀ i, place.bind Place.host = some i → i < n.hostCount) :
    Within n' (Function.update own p place) := by
  intro p' place' i hown hhost
  rw [hcount]
  by_cases hpp : p' = p
  · subst hpp
    rw [Function.update_self] at hown
    apply hplace
    rw [hown]
    exact hhost
  · rw [Function.update_of_ne hpp] at hown
    exact h p' place' i hown hhost

theorem Within.same {n n' : Net} {own : Nat → Option Place} (h : Within n own)
    (hcount : n'.hostCount = n.hostCount) : Within n' own := by
  intro p place i hown hhost
  rw [hcount]
  exact h p place i hown hhost

/-- The tails are the last cells. -/
def Tails (n : Net) (q : Nat → List Nat) : Prop := ∀ i, (n.hosts i).tail = (q i).getLast?

section Moves

variable {n : Net} {held : List Nat} {own : Nat → Option Place} {q : Nat → List Nat}

theorem Owned.isSome_of_own (h : Owned n held own q) {p : Nat} {place : Place}
    (hp : own p = some place) : (n.heap p).isSome = true := by
  rw [h.live, hp]
  rfl

/-- The heads, the requests in the slots and the pointers are what counts. -/
theorem Owned.congr {n' : Net} (h : Owned n held own q)
    (hlive : ∀ p, (n'.heap p).isSome = (n.heap p).isSome) (hnext : n'.next = n.next)
    (hhead : ∀ i, (n'.hosts i).head = (n.hosts i).head)
    (hslot : ∀ i k, ((n'.hosts i).slots k).req = ((n.hosts i).slots k).req) : Owned n' held own q := by
  refine ⟨fun p => (hlive p).trans (h.live p), ?_, h.queued, ?_, h.holds, h.nodup⟩
  · intro i
    rw [hnext, hhead]
    exact h.chain i
  · intro i k p
    rw [hslot]
    exact h.slot i k p

theorem Owned.log (h : Owned n held own q) (log : List Event) : Owned { n with log := log } held own q :=
  h.congr (fun _ => rfl) rfl (fun _ => rfl) fun _ _ => rfl

theorem Owned.write (h : Owned n held own q) (p : Nat) {f : Req → Req} (hf : ∀ r, (f r).next = r.next) :
    Owned (n.write p f) held own q :=
  h.congr (fun p' => n.write_isSome p p' f) (Net.next_write hf p) (fun _ => rfl) fun _ _ => rfl

theorem setHost_hosts (n : Net) (i j : Nat) (host : Host) :
    (n.setHost i host).hosts j = if j = i then host else n.hosts j := by
  unfold Net.setHost
  by_cases hj : j = i
  · subst hj
    simp
  · simp [hj]

theorem setSlot_head (n : Net) (i k j : Nat) (t : Slot) :
    ((n.setSlot i k t).hosts j).head = (n.hosts j).head ∧
      ((n.setSlot i k t).hosts j).tail = (n.hosts j).tail := by
  rw [Net.setSlot, setHost_hosts]
  split
  · rename_i hj
    subst hj
    exact ⟨rfl, rfl⟩
  · exact ⟨rfl, rfl⟩

theorem setSlot_req (n : Net) (i k j l : Nat) (t : Slot) :
    (((n.setSlot i k t).hosts j).slots l).req =
      if j = i ∧ l = k then t.req else ((n.hosts j).slots l).req := by
  rw [Net.setSlot, setHost_hosts]
  by_cases hj : j = i
  · subst hj
    by_cases hl : l = k
    · subst hl
      simp [Host.setSlot]
    · simp [Host.setSlot, hl]
  · simp [hj]

theorem Tails.setSlot (h : Tails n q) (i k : Nat) (t : Slot) : Tails (n.setSlot i k t) q := by
  intro j
  rw [(setSlot_head n i k j t).2]
  exact h j

theorem Owned.setSlot (h : Owned n held own q) {i k : Nat} {t : Slot}
    (ht : t.req = ((n.hosts i).slots k).req) : Owned (n.setSlot i k t) held own q := by
  refine h.congr (fun _ => rfl) rfl (fun j => (setSlot_head n i k j t).1) ?_
  intro j l
  rw [setSlot_req]
  split
  · rename_i hjl
    rw [ht, hjl.1, hjl.2]
  · rfl

theorem Owned.move {n' : Net} {held' : List Nat} {q' : Nat → List Nat} {p : Nat}
    {place : Option Place} (h : Owned n held own q)
    (hlive : ∀ p' ≠ p, (n'.heap p').isSome = (n.heap p').isSome)
    (hliveP : (n'.heap p).isSome = place.isSome)
    (hchain : ∀ j, PtrChain n'.next (n'.hosts j).head (q' j))
    (hqueued : ∀ j, ∀ p' ≠ p, p' ∈ q' j ↔ p' ∈ q j)
    (hqueuedP : ∀ j, p ∈ q' j ↔ place = some (.queue j))
    (hslot : ∀ j l, ∀ p' ≠ p,
      ((n'.hosts j).slots l).req = some p' ↔ ((n.hosts j).slots l).req = some p')
    (hslotP : ∀ j l, ((n'.hosts j).slots l).req = some p ↔ place = some (.slot j l))
    (hheld : ∀ p' ≠ p, p' ∈ held' ↔ p' ∈ held) (hheldP : p ∈ held' ↔ place = some .held)
    (hnodup : held'.Nodup) : Owned n' held' (Function.update own p place) q' := by
  refine ⟨?_, hchain, ?_, ?_, ?_, hnodup⟩
  · intro p'
    by_cases hpp : p' = p
    · rw [hpp, Function.update_self, hliveP]
    · rw [Function.update_of_ne hpp, hlive p' hpp, h.live]
  · intro j p'
    by_cases hpp : p' = p
    · rw [hpp, Function.update_self, hqueuedP]
    · rw [Function.update_of_ne hpp, hqueued j p' hpp, h.queued]
  · intro j l p'
    by_cases hpp : p' = p
    · rw [hpp, Function.update_self, hslotP]
    · rw [Function.update_of_ne hpp, hslot j l p' hpp, h.slot]
  · intro p'
    by_cases hpp : p' = p
    · rw [hpp, Function.update_self, hheldP]
    · rw [Function.update_of_ne hpp, hheld p' hpp, h.holds]

theorem Owned.notMem_held (h : Owned n held own q) {p : Nat} (hp : own p ≠ some .held) : p ∉ held :=
  fun hmem => hp ((h.holds p).1 hmem)

theorem mem_cons_iff_of_ne {p p' : Nat} (hpp : p' ≠ p) (l : List Nat) : p' ∈ p :: l ↔ p' ∈ l := by
  simp [hpp]

/-- **A request leaves its slot.** -/
theorem Owned.leaveSlot (h : Owned n held own q) {i k p : Nat} {t : Slot}
    (hp : ((n.hosts i).slots k).req = some p) (ht : t.req = none) :
    Owned (n.setSlot i k t) (p :: held) (Function.update own p (some .held)) q := by
  have hown := (h.slot i k p).1 hp
  have hnotheld : p ∉ held := h.notMem_held (by simp [hown])
  refine h.move (fun _ _ => rfl) (h.isSome_of_own hown) ?_ (fun _ _ _ => Iff.rfl) ?_ ?_ ?_
    (fun p' hpp => mem_cons_iff_of_ne hpp held) (by simp) (List.nodup_cons.2 ⟨hnotheld, h.nodup⟩)
  · intro j
    rw [(setSlot_head n i k j t).1]
    exact h.chain j
  · intro j
    simp [h.queued, hown]
  · intro j l p' hpp
    rw [setSlot_req]
    split
    · rename_i hjl
      rw [ht, hjl.1, hjl.2, hp]
      simp [Ne.symm hpp]
    · rfl
  · intro j l
    rw [setSlot_req]
    split
    · simp [ht]
    · rename_i hjl
      rw [h.slot, hown]
      simp only [Option.some.injEq, Place.slot.injEq, reduceCtorEq, iff_false]
      intro hik
      exact hjl ⟨hik.1.symm, hik.2.symm⟩

/-- **A request goes into a slot.** -/
theorem Owned.enterSlot {p : Nat} (h : Owned n (p :: held) own q) {i k : Nat} {t : Slot}
    (hfree : ((n.hosts i).slots k).req = none) (ht : t.req = some p) :
    Owned (n.setSlot i k t) held (Function.update own p (some (.slot i k))) q := by
  have hown := (h.holds p).1 List.mem_cons_self
  obtain ⟨hnotheld, hnodup⟩ := List.nodup_cons.1 h.nodup
  refine h.move (fun _ _ => rfl) (h.isSome_of_own hown) ?_ (fun _ _ _ => Iff.rfl) ?_ ?_ ?_
    (fun p' hpp => (mem_cons_iff_of_ne hpp held).symm) (by simp [hnotheld]) hnodup
  · intro j
    rw [(setSlot_head n i k j t).1]
    exact h.chain j
  · intro j
    simp [h.queued, hown]
  · intro j l p' hpp
    rw [setSlot_req]
    split
    · rename_i hjl
      rw [ht, hjl.1, hjl.2, hfree]
      simp [Ne.symm hpp]
    · rfl
  · intro j l
    rw [setSlot_req]
    split
    · rename_i hjl
      simp [ht, hjl]
    · rename_i hjl
      rw [h.slot, hown]
      simp only [Option.some.injEq, reduceCtorEq, Place.slot.injEq, false_iff]
      intro hik
      exact hjl ⟨hik.1.symm, hik.2.symm⟩

/-- **A request is freed.** -/
theorem Owned.reqFree {p : Nat} (h : Owned n (p :: held) own q) :
    Owned (reqFree n p) held (Function.update own p none) q := by
  have hown := (h.holds p).1 List.mem_cons_self
  obtain ⟨hnotheld, hnodup⟩ := List.nodup_cons.1 h.nodup
  obtain ⟨r, hr⟩ := Option.isSome_iff_exists.1 (h.isSome_of_own hown)
  unfold Web.reqFree
  rw [hr]
  refine h.move ?_ (by simp) ?_ (fun _ _ _ => Iff.rfl) ?_ (fun _ _ _ _ => Iff.rfl) ?_
    (fun p' hpp => (mem_cons_iff_of_ne hpp held).symm) (by simp [hnotheld]) hnodup
  · intro p' hpp
    simp [hpp]
  · intro j
    apply (h.chain j).congr
    intro p' hp'
    have hpp : p' ≠ p := by
      intro hpp
      rw [hpp, h.queued, hown] at hp'
      simp at hp'
    simp [Net.next, hpp]
  · simp [h.queued, hown]
  · simp [h.slot, hown]

/-- **A new request.** -/
theorem Owned.alloc (h : Owned n held own q) {p : Nat} (hp : n.heap p = none) {r : Req}
    (hr : r.next = none) (requests : Nat) :
    Owned { n with heap := Function.update n.heap p (some r), requests := requests } (p :: held)
      (Function.update own p (some .held)) q := by
  have hown : own p = none := by
    have hlive := h.live p
    rw [hp] at hlive
    simpa using hlive.symm
  have hnext : Net.next { n with heap := Function.update n.heap p (some r), requests := requests } =
      n.next := by
    funext p'
    by_cases hpp : p' = p
    · subst hpp
      simp [Net.next, hp, hr]
    · simp [Net.next, hpp]
  have hnotheld : p ∉ held := h.notMem_held (by simp [hown])
  refine h.move ?_ (by simp) ?_ (fun _ _ _ => Iff.rfl) ?_ (fun _ _ _ _ => Iff.rfl) ?_
    (fun p' hpp => mem_cons_iff_of_ne hpp held) (by simp) (List.nodup_cons.2 ⟨hnotheld, h.nodup⟩)
  · intro p' hpp
    simp [hpp]
  · intro j
    rw [hnext]
    exact h.chain j
  · simp [h.queued, hown]
  · simp [h.slot, hown]

/-! ## Queues -/

theorem setHost_slots {n : Net} {i : Nat} {host : Host} (hslots : host.slots = (n.hosts i).slots)
    (j l : Nat) : ((n.setHost i host).hosts j).slots l = (n.hosts j).slots l := by
  rw [setHost_hosts]
  split
  · rename_i hj
    rw [hslots, hj]
  · rfl

/-- The queue of another host is not touched by a change of its pointers. -/
theorem Owned.chain_other (h : Owned n held own q) {i j p : Nat} (hj : j ≠ i) (hp : p ∈ q i)
    (v : Option Nat) : PtrChain (Function.update n.next p v) (n.hosts j).head (q j) := by
  apply (h.chain j).update_of_notMem
  intro hmem
  rw [h.queued] at hp hmem
  rw [hp] at hmem
  exact hj (by simpa using hmem.symm)

theorem Owned.notMem_queue (h : Owned n held own q) {p : Nat} (hp : own p = some .held) (i : Nat) :
    p ∉ q i := by
  rw [h.queued, hp]
  simp

theorem Owned.write_held (h : Owned n held own q) {p : Nat} (hp : own p = some .held) (v : Option Nat) :
    Owned (n.write p fun r => { r with next := v }) held own q := by
  refine ⟨fun p' => (n.write_isSome p p' _).trans (h.live p'), ?_, h.queued, h.slot, h.holds, h.nodup⟩
  intro i
  rw [Net.next_write_next (h.isSome_of_own hp)]
  exact (h.chain i).update_of_notMem (h.notMem_queue hp i)

/-- A request that is held goes into a queue whose pointers have been changed for it. -/
theorem Owned.intoQueue {n' : Net} {p i : Nat} {l : List Nat} (h : Owned n (p :: held) own q)
    (htails : Tails n q) (hlive : ∀ p', (n'.heap p').isSome = (n.heap p').isSome)
    (hqueue : PtrQueue n'.next (n'.hosts i).head (n'.hosts i).tail l)
    (hmem : ∀ p', p' ∈ l ↔ p' = p ∨ p' ∈ q i)
    (hother : ∀ j ≠ i, PtrChain n'.next (n'.hosts j).head (q j) ∧
      (n'.hosts j).tail = (n.hosts j).tail)
    (hslots : ∀ j l, (n'.hosts j).slots l = (n.hosts j).slots l) :
    Owned n' held (Function.update own p (some (.queue i))) (Function.update q i l) ∧
      Tails n' (Function.update q i l) := by
  have hown := (h.holds p).1 List.mem_cons_self
  obtain ⟨hnotheld, hnodup⟩ := List.nodup_cons.1 h.nodup
  refine ⟨h.move (fun p' _ => hlive p') ((hlive p).trans (h.isSome_of_own hown)) ?_ ?_ ?_ ?_ ?_
    (fun p' hpp => (mem_cons_iff_of_ne hpp held).symm) (by simp [hnotheld]) hnodup, ?_⟩
  · intro j
    by_cases hj : j = i
    · subst hj
      rw [Function.update_self]
      exact hqueue.chain
    · rw [Function.update_of_ne hj]
      exact (hother j hj).1
  · grind
  · intro j
    by_cases hj : j = i
    · subst hj
      rw [Function.update_self, hmem]
      simp
    · rw [Function.update_of_ne hj]
      simp [h.queued, hown, Ne.symm hj]
  · intro j l' p' _
    rw [hslots]
  · intro j l'
    rw [hslots]
    simp [h.slot, hown]
  · intro j
    by_cases hj : j = i
    · subst hj
      rw [Function.update_self]
      exact hqueue.tail
    · rw [Function.update_of_ne hj, (hother j hj).2]
      exact htails j

/-- **A request goes into a queue**, in front or at the end. -/
theorem Owned.enqueue {p : Nat} (h : Owned n (p :: held) own q) (htails : Tails n q) (i : Nat)
    (front : Bool) :
    Owned (enqueue n i p front) held (Function.update own p (some (.queue i)))
        (Function.update q i (if front then p :: q i else q i ++ [p])) ∧
      Tails (enqueue n i p front)
        (Function.update q i (if front then p :: q i else q i ++ [p])) := by
  have hown := (h.holds p).1 List.mem_cons_self
  have hwritten := h.write_held hown none
  have hsome := hwritten.isSome_of_own hown
  have hnone : (n.write p fun r => { r with next := none }).next p = none := by
    rw [Net.next_write_next (h.isSome_of_own hown)]
    exact Function.update_self ..
  unfold Web.enqueue
  generalize hn : (n.write p fun r => { r with next := none }) = m at hwritten hsome hnone ⊢
  have hhosts : n.hosts = m.hosts := by
    rw [← hn]
    rfl
  rw [hhosts]
  have htails' : Tails m q := by
    intro j
    rw [← hhosts]
    exact htails j
  have hqueue : PtrQueue m.next (m.hosts i).head (m.hosts i).tail (q i) :=
    ⟨hwritten.chain i, htails' i⟩
  have hnotMem := hwritten.notMem_queue hown i
  cases front with
  | true =>
    rw [if_pos rfl, if_pos rfl]
    refine hwritten.intoQueue htails' ?_ ?_ (by simp) ?_ ?_
    · intro p'
      exact m.write_isSome p p' _
    · rw [setHost_hosts, if_pos rfl]
      show PtrQueue (m.write p fun r => { r with next := (m.hosts i).head }).next _ _ _
      rw [Net.next_write_next hsome]
      exact hqueue.pushFront hnotMem
    · intro j hj
      rw [setHost_hosts, if_neg hj]
      show PtrChain (m.write p fun r => { r with next := (m.hosts i).head }).next _ _ ∧ _
      rw [Net.next_write_next hsome]
      exact ⟨(hwritten.chain j).update_of_notMem (hwritten.notMem_queue hown j), rfl⟩
    · exact setHost_slots rfl
  | false =>
    rw [if_neg (by simp), if_neg (by simp)]
    cases htail : (m.hosts i).tail with
    | none =>
      rw [htail] at hqueue
      refine hwritten.intoQueue htails' (fun _ => rfl) ?_ (by simp [or_comm]) ?_ ?_
      · rw [setHost_hosts, if_pos rfl]
        exact hqueue.pushEmpty hnone
      · intro j hj
        rw [setHost_hosts, if_neg hj]
        exact ⟨hwritten.chain j, rfl⟩
      · exact setHost_slots rfl
    | some t =>
      rw [htail] at hqueue
      have ht : t ∈ q i := List.mem_of_getLast? hqueue.tail.symm
      have hsomeT := hwritten.isSome_of_own ((hwritten.queued i t).1 ht)
      refine hwritten.intoQueue htails' ?_ ?_ (by simp [or_comm]) ?_ ?_
      · intro p'
        exact m.write_isSome t p' _
      · rw [setHost_hosts, if_pos rfl]
        show PtrQueue (m.write t fun r => { r with next := some p }).next _ _ _
        rw [Net.next_write_next hsomeT]
        exact hqueue.pushBack hnotMem hnone
      · intro j hj
        rw [setHost_hosts, if_neg hj]
        show PtrChain (m.write t fun r => { r with next := some p }).next _ _ ∧ _
        rw [Net.next_write_next hsomeT]
        exact ⟨hwritten.chain_other hj ht _, rfl⟩
      · exact setHost_slots rfl

/-- **A request is taken out of a queue**, by the pointer in front of it. -/
theorem Owned.unlink (h : Owned n held own q) {i p : Nat} {pre post : List Nat}
    (hq : q i = pre ++ p :: post) :
    Owned (unlink n i pre.getLast? (n.next p)) (p :: held) (Function.update own p (some .held))
      (Function.update q i (pre ++ post)) := by
  have hp : p ∈ q i := by simp [hq]
  have hown := (h.queued i p).1 hp
  have hnotheld : p ∉ held := h.notMem_held (by simp [hown])
  have hnodup := (h.chain i).nodup
  have hchain := h.chain i
  rw [hq] at hnodup hchain
  obtain ⟨hlive, hhead, hother, hslots⟩ : (∀ p', ((Web.unlink n i pre.getLast? (n.next p)).heap p').isSome =
        (n.heap p').isSome) ∧
      PtrChain (Web.unlink n i pre.getLast? (n.next p)).next
        ((Web.unlink n i pre.getLast? (n.next p)).hosts i).head (pre ++ post) ∧
      (∀ j ≠ i, PtrChain (Web.unlink n i pre.getLast? (n.next p)).next
        ((Web.unlink n i pre.getLast? (n.next p)).hosts j).head (q j)) ∧
      ∀ j l, ((Web.unlink n i pre.getLast? (n.next p)).hosts j).slots l = (n.hosts j).slots l := by
    cases hpre : pre.getLast? with
    | none =>
      obtain rfl := List.getLast?_eq_none_iff.1 hpre
      refine ⟨fun _ => rfl, ?_, ?_, setHost_slots rfl⟩
      · show PtrChain n.next ((n.setHost i { n.hosts i with head := n.next p }).hosts i).head post
        rw [setHost_hosts, if_pos rfl]
        exact PtrQueue.chain_unlink_head hchain
      · intro j hj
        show PtrChain n.next ((n.setHost i { n.hosts i with head := n.next p }).hosts j).head (q j)
        rw [setHost_hosts, if_neg hj]
        exact h.chain j
    | some b =>
      obtain ⟨pre', rfl⟩ := List.getLast?_eq_some_iff.1 hpre
      have hb : b ∈ q i := by simp [hq]
      have hsome := h.isSome_of_own ((h.queued i b).1 hb)
      have hnext : (Web.unlink n i (some b) (n.next p)).next = Function.update n.next b (n.next p) :=
        Net.next_write_next hsome _
      refine ⟨fun p' => n.write_isSome b p' _, ?_, ?_, fun _ _ => rfl⟩
      · rw [hnext]
        rw [List.append_assoc] at hchain ⊢
        exact PtrQueue.chain_unlink hchain
      · intro j hj
        rw [hnext]
        exact h.chain_other hj hb _
  have hsplit : p ∉ pre ++ post := by grind
  refine h.move (fun p' _ => hlive p') ((hlive p).trans (h.isSome_of_own hown)) ?_ ?_ ?_ ?_ ?_
    (fun p' hpp => mem_cons_iff_of_ne hpp held) (by simp) (List.nodup_cons.2 ⟨hnotheld, h.nodup⟩)
  · grind
  · grind
  · intro j
    by_cases hj : j = i
    · subst hj
      simpa using hsplit
    · rw [Function.update_of_ne hj, h.queued, hown]
      simp [Ne.symm hj]
  · intro j l p' _
    rw [hslots]
  · intro j l
    rw [hslots, h.slot, hown]
    simp

/-! ## A request that is ready -/

theorem setTail_slots (n : Net) (i j l : Nat) (tail : Option Nat) :
    ((n.setTail i tail).hosts j).slots l = (n.hosts j).slots l := by
  refine setHost_slots ?_ j l
  rfl

theorem Owned.setTail (h : Owned n held own q) (i : Nat) (tail : Option Nat) :
    Owned (n.setTail i tail) held own q := by
  refine h.congr (fun _ => rfl) rfl ?_ ?_
  · intro j
    rw [Net.setTail, setHost_hosts]
    split
    · rename_i hj
      rw [hj]
    · rfl
  · intro j l
    rw [setTail_slots]

theorem setTail_tail (n : Net) (i j : Nat) (tail : Option Nat) :
    ((n.setTail i tail).hosts j).tail = if j = i then tail else (n.hosts j).tail := by
  rw [Net.setTail, setHost_hosts]
  split <;> rfl

theorem unlink_tail (n : Net) (i j : Nat) (prev next : Option Nat) :
    ((Web.unlink n i prev next).hosts j).tail = (n.hosts j).tail := by
  unfold Web.unlink
  split
  · rw [setHost_hosts]
    split
    · rename_i hj
      rw [hj]
    · rfl
  · rfl

theorem unlink_slots (n : Net) (i j l : Nat) (prev next : Option Nat) :
    ((Web.unlink n i prev next).hosts j).slots l = (n.hosts j).slots l := by
  unfold Web.unlink
  split
  · refine setHost_slots ?_ j l
    rfl
  · rfl

/-- **The loop of `take_ready`** finds the first request that is ready, and the cell before
it. -/
theorem readyLoop_spec (now : Nat) {fuel : Nat} (prev : Option Nat) {cur : Option Nat} {rest : List Nat}
    (hchain : PtrChain n.next cur rest) (hlive : ∀ p ∈ rest, (n.heap p).isSome = true)
    (hfuel : rest.length < fuel) :
    (readyLoop n now fuel prev cur = none ∧ ∀ p ∈ rest, ∀ r, n.heap p = some r → now < r.notBefore) ∨
      ∃ pre p post, rest = pre ++ p :: post ∧
        readyLoop n now fuel prev cur = some (pre.getLast?.or prev, p) := by
  induction fuel generalizing prev cur rest with
  | zero => omega
  | succ fuel ih =>
    cases rest with
    | nil =>
      obtain rfl := PtrChain.nil_iff.1 hchain
      exact Or.inl ⟨rfl, fun p hp => nomatch hp⟩
    | cons p rest =>
      obtain ⟨rfl, hrest⟩ := hchain
      obtain ⟨r, hr⟩ := Option.isSome_iff_exists.1 (hlive p List.mem_cons_self)
      have hnext : n.next p = r.next := by simp [Net.next, hr]
      rw [readyLoop, hr]
      dsimp only
      by_cases hready : r.notBefore ≤ now
      · rw [if_pos hready]
        exact Or.inr ⟨[], p, rest, rfl, rfl⟩
      · rw [List.length_cons] at hfuel
        rcases ih (some p) hrest (fun p' hp' => hlive p' (List.mem_cons_of_mem _ hp')) (by omega) with
          ⟨hnone, hlate⟩ | ⟨pre, p', post, hsplit, hfound⟩
        · grind
        · grind

/-- The requests are the same, but for their pointers and times. -/
structure Same (n n' : Net) : Prop where
  hostCount : n'.hostCount = n.hostCount
  requests : n'.requests = n.requests
  log : n'.log = n.log
  pumps : n'.pumps = n.pumps
  reqs : ∀ p, (n'.heap p).map (fun r => (r.id, r.done)) = (n.heap p).map fun r => (r.id, r.done)

theorem Same.refl (n : Net) : Same n n := ⟨rfl, rfl, rfl, rfl, fun _ => rfl⟩

theorem Same.trans {n n' n'' : Net} (h : Same n n') (h' : Same n' n'') : Same n n'' :=
  ⟨h'.hostCount.trans h.hostCount, h'.requests.trans h.requests, h'.log.trans h.log, h'.pumps.trans h.pumps,
    fun p => (h'.reqs p).trans (h.reqs p)⟩

theorem Same.write (n : Net) (p : Nat) {f : Req → Req} (hf : ∀ r, (f r).id = r.id ∧ (f r).done = r.done) :
    Same n (n.write p f) := by
  refine ⟨rfl, rfl, rfl, rfl, ?_⟩
  intro p'
  by_cases hpp : p' = p
  · subst hpp
    simp only [Net.write, Function.update_self]
    cases n.heap p' with
    | none => rfl
    | some r => simp [hf]
  · simp [Net.write, hpp]

theorem Same.setHost (n : Net) (i : Nat) (host : Host) : Same n (n.setHost i host) :=
  ⟨rfl, rfl, rfl, rfl, fun _ => rfl⟩

theorem Same.setSlot (n : Net) (i k : Nat) (t : Slot) : Same n (n.setSlot i k t) :=
  Same.setHost n i _

theorem Same.unlink (n : Net) (i : Nat) (prev next : Option Nat) : Same n (Web.unlink n i prev next) := by
  unfold Web.unlink
  split
  · exact Same.setHost n i _
  · exact Same.write n _ fun _ => ⟨rfl, rfl⟩

theorem Same.enqueue (n : Net) (i p : Nat) (front : Bool) : Same n (Web.enqueue n i p front) := by
  unfold Web.enqueue
  dsimp only
  have hfirst := Same.write n p (f := fun r => { r with next := none }) fun _ => ⟨rfl, rfl⟩
  split
  · refine hfirst.trans ((Same.write _ p ?_).trans (Same.setHost _ i _))
    exact fun _ => ⟨rfl, rfl⟩
  · split
    · refine hfirst.trans ((Same.write _ _ ?_).trans (Same.setHost _ i _))
      exact fun _ => ⟨rfl, rfl⟩
    · exact hfirst.trans (Same.setHost _ i _)

theorem getLast?_middle {pre post : List Nat} {p : Nat} (hnodup : (pre ++ p :: post).Nodup) :
    (pre ++ post).getLast? =
      if (pre ++ p :: post).getLast? = some p then pre.getLast? else (pre ++ p :: post).getLast? := by
  cases post with
  | nil => simp
  | cons b post =>
    have hlast : (pre ++ p :: b :: post).getLast? = (b :: post).getLast? := by grind
    have hlast' : (pre ++ b :: post).getLast? = (b :: post).getLast? := by grind
    have hne : (b :: post).getLast? ≠ some p := by grind
    rw [hlast', hlast, if_neg hne]

/-- **`take_ready`** takes a request out of the queue, or leaves everything as it is. -/
theorem takeReady_spec (h : Owned n held own q) (htails : Tails n q) {i : Nat}
    (hfuel : (q i).length ≤ n.requests) (now : Nat) :
    takeReady n i now = (n, none) ∨
      ∃ n' p q', takeReady n i now = (n', some p) ∧ p ∈ q i ∧
        Owned n' (p :: held) (Function.update own p (some .held)) q' ∧ Tails n' q' ∧ Same n n' ∧
        ∀ j l, (n'.hosts j).slots l = (n.hosts j).slots l := by
  have hlive : ∀ p ∈ q i, (n.heap p).isSome = true := fun p hp =>
    h.isSome_of_own ((h.queued i p).1 hp)
  unfold takeReady
  rcases readyLoop_spec now none (h.chain i) hlive (Nat.lt_succ_of_le hfuel) with
    ⟨hnone, -⟩ | ⟨pre, p, post, hq, hfound⟩
  · rw [hnone]
    exact Or.inl rfl
  · rw [hfound, Option.or_none]
    refine Or.inr ?_
    dsimp only
    have hunlinked := h.unlink hq
    have hnodup := (h.chain i).nodup
    rw [hq] at hnodup
    have hnext : (n.heap p).bind Req.next = n.next p := rfl
    rw [hnext]
    generalize hm : Web.unlink n i pre.getLast? (n.next p) = m at hunlinked ⊢
    have hsame : Same n m := by
      rw [← hm]
      exact Same.unlink n i _ _
    have htail : ∀ j, (m.hosts j).tail = (n.hosts j).tail := by
      intro j
      rw [← hm]
      exact unlink_tail n i j _ _
    have hslots : ∀ j l, (m.hosts j).slots l = (n.hosts j).slots l := by
      intro j l
      rw [← hm]
      exact unlink_slots n i j l _ _
    have htailed : Owned (if (m.hosts i).tail = some p then m.setTail i pre.getLast? else m) (p :: held)
        (Function.update own p (some .held)) (Function.update q i (pre ++ post)) := by
      split
      · exact hunlinked.setTail i _
      · exact hunlinked
    have hheld : Function.update own p (some Place.held) p = some .held := Function.update_self ..
    refine ⟨_, p, Function.update q i (pre ++ post), rfl, by simp [hq], htailed.write_held hheld none, ?_, ?_, ?_⟩
    · intro j
      show ((if (m.hosts i).tail = some p then m.setTail i pre.getLast? else m).hosts j).tail = _
      by_cases hj : j = i
      · subst hj
        rw [Function.update_self, getLast?_middle hnodup, ← hq, ← htails j, ← htail j]
        split
        · rw [setTail_tail, if_pos rfl]
        · rfl
      · rw [Function.update_of_ne hj, ← htails j, ← htail j]
        split
        · rw [setTail_tail, if_neg hj]
        · rfl
    · refine hsame.trans (Same.trans ?_ (Same.write _ p fun _ => ⟨rfl, rfl⟩))
      split
      · exact Same.setHost m i _
      · exact Same.refl m
    · intro j l
      rw [← hslots]
      split
      · exact setTail_slots m i j l _
      · rfl

end Moves

end Web
