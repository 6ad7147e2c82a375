import StrawOS.Usb.Rings

/-!
# The event ring of an xHCI controller

The other way round: the controller writes events into a page, 256 of them without a link,
and `xhci_next_event` takes them out and tells by `ERDP` how far it is.  A call reads the
control word, then the three fields of the event; the controller may post events between any
two of these reads, as long as it does not catch up with `ERDP`.
-/

namespace Usb

/-- Where a call of `xhci_next_event` is: between two calls, or behind its first, second or
third read. -/
inductive NextPc
  | idle
  | found
  | param (param : UInt64)
  | status (param : UInt64) (status : UInt32)

/-- The driver's end, the memory and the register, the controller's end, and the history:
what was posted, and what the calls returned. -/
structure EventSys where
  events : Nat → Trb
  eventsPhys : UInt64
  evDequeue : Nat
  evCycle : UInt32
  erdp : UInt64
  pc : NextPc
  enqueue : Nat
  pcs : UInt32
  posted : List Trb
  returned : List (Option Trb)

inductive EventOp
  | next
  | post (t : Trb)

/-- The end of a call that returns an event. -/
def EventSys.take (s : EventSys) (out : Trb) : EventSys :=
  let dequeue := if s.evDequeue + 1 = xhciRingTrbs then 0 else s.evDequeue + 1
  { s with
    evDequeue := dequeue
    evCycle := if s.evDequeue + 1 = xhciRingTrbs then s.evCycle ^^^ 1 else s.evCycle
    erdp := (s.eventsPhys + .ofNat (dequeue * 16)) ||| 8
    pc := .idle
    returned := s.returned ++ [some out] }

/-- `xhci_next_event`, one read at a time. -/
def xhciNextEvent (s : EventSys) : EventSys :=
  let t := s.events s.evDequeue
  match s.pc with
  | .idle =>
      if t.control &&& 1 ≠ s.evCycle then { s with returned := s.returned ++ [none] }
      else { s with pc := .found }
  | .found => { s with pc := .param t.param }
  | .param param => { s with pc := .status param t.status }
  | .status param status => s.take ⟨param, status, t.control⟩

/-- The place that `ERDP` points to. -/
def EventSys.erdpPlace (s : EventSys) : Nat := ((s.erdp &&& ~~~0xF) - s.eventsPhys).toNat / 16

/-- The controller posts an event, unless the ring is full. -/
def EventSys.post (s : EventSys) (t : Trb) : EventSys :=
  let next := (s.enqueue + 1) % xhciRingTrbs
  if next = s.erdpPlace then s
  else
    { s with
      events := Function.update s.events s.enqueue (t.stamp s.pcs)
      enqueue := next
      pcs := if next = 0 then s.pcs ^^^ 1 else s.pcs
      posted := s.posted ++ [t.stamp s.pcs] }

/-- The ring that `xhci_init_controller` sets up in a page. -/
def eventStart (s : EventSys) : Prop :=
  ∃ phys : UInt64, phys.toNat % pageSize = 0 ∧
    s = ⟨fun _ => ⟨0, 0, 0⟩, phys, 0, 1, phys, .idle, 0, 1, [], []⟩

def eventMachine : Machine EventSys EventOp Unit where
  start := eventStart
  step s
    | .next => (xhciNextEvent s, [])
    | .post t => (s.post t, [])

/-! ## The register -/

/-- Flags below a mask do not reach an address that has nothing there. -/
theorem or_and_not (x e m : UInt64) (hx : x &&& m = 0) (he : e &&& ~~~m = 0) :
    (x ||| e) &&& ~~~m = x := by
  apply UInt64.toBitVec_inj.mp
  have hx' := congrArg UInt64.toBitVec hx
  have he' := congrArg UInt64.toBitVec he
  ext i hi
  have hxi := congrArg (fun v : BitVec 64 => v[i]) hx'
  have hei := congrArg (fun v : BitVec 64 => v[i]) he'
  simp only [UInt64.toBitVec_and, UInt64.toBitVec_or, UInt64.toBitVec_not, BitVec.getElem_and,
    BitVec.getElem_or, BitVec.getElem_not, UInt64.toBitVec_zero, BitVec.getElem_zero] at *
  grind

theorem aligned_and {phys : UInt64} (hphys : phys.toNat % pageSize = 0) (i : Nat) :
    (phys + .ofNat (i * 16)) &&& 0xF = 0 := by
  apply UInt64.toNat_inj.mp
  have hand : ((phys + .ofNat (i * 16)) &&& 0xF).toNat = (phys + .ofNat (i * 16)).toNat % 2 ^ 4 := by
    exact Nat.and_two_pow_sub_one_eq_mod _ 4
  rw [hand, UInt64.toNat_add, UInt64.toNat_ofNat']
  simp only [pageSize] at hphys
  change _ = 0
  omega

/-- What the controller reads from `ERDP`. -/
theorem erdp_place {phys e : UInt64} (hphys : phys.toNat % pageSize = 0)
    (he : e &&& ~~~0xF = 0) {i : Nat} (hi : i < xhciRingTrbs) :
    ((((phys + .ofNat (i * 16)) ||| e) &&& ~~~0xF) - phys).toNat / 16 = i := by
  rw [or_and_not _ _ _ (aligned_and hphys i) he, UInt64.add_comm, UInt64.add_sub_cancel,
    UInt64.toNat_ofNat']
  simp only [xhciRingTrbs] at hi
  omega

/-! ## The ring -/

/-- The events that the calls returned. -/
def EventSys.delivered (s : EventSys) : List Trb := s.returned.filterMap id

/-- The lap of an event. -/
abbrev eventLap (i : Nat) : Bool := PhaseRing.phase xhciRingTrbs i

/-- What a call has read of the event `t`. -/
def NextPc.Reads : NextPc → Trb → Prop
  | .idle, _ => True
  | .found, _ => True
  | .param p, t => p = t.param
  | .status p st, t => p = t.param ∧ st = t.status

structure EventInv (s : EventSys) : Prop where
  phys : s.eventsPhys.toNat % pageSize = 0
  ring : PhaseRing.Holds xhciRingTrbs Trb.bit s.events s.posted s.delivered.length
  space : s.posted.length < s.delivered.length + xhciRingTrbs
  dequeue : s.evDequeue = s.delivered.length % xhciRingTrbs
  cycle : s.evCycle = cycleOf (eventLap s.delivered.length)
  register : s.erdpPlace = s.evDequeue
  enqueue : s.enqueue = s.posted.length % xhciRingTrbs
  pcs : s.pcs = cycleOf (eventLap s.posted.length)
  delivered : s.delivered <+: s.posted
  call : s.pc = .idle ∨
    s.delivered.length < s.posted.length ∧ s.pc.Reads (s.events s.evDequeue)

variable {s : EventSys}

theorem cycleOf_eventLap (i : Nat) :
    (if (i + 1) % xhciRingTrbs = 0 then cycleOf (eventLap i) ^^^ 1 else cycleOf (eventLap i)) =
      cycleOf (eventLap (i + 1)) := by
  rw [eventLap, eventLap, PhaseRing.phase_succ, cycleOf_flip]
  split <;> rfl

/-- **A post.** -/
theorem EventInv.post (h : EventInv s) (t : Trb) : EventInv (s.post t) := by
  rw [EventSys.post]
  split
  · exact h
  next hfree =>
  have hspace : s.posted.length + 1 < s.delivered.length + xhciRingTrbs := by
    have hlast := h.space
    by_contra hge
    have heq : s.posted.length + 1 = s.delivered.length + xhciRingTrbs := by omega
    apply hfree
    rw [h.enqueue, h.register, h.dequeue, Nat.mod_add_mod, heq, Nat.add_mod_right]
  have hbit : (t.stamp s.pcs).bit = eventLap s.posted.length := by
    rw [h.pcs]
    exact Trb.bit_stamp t _
  have hring := h.ring.write (by omega) hbit
  rw [← h.enqueue] at hring
  refine ⟨h.phys, hring, ?_, h.dequeue, h.cycle, h.register, ?_, ?_,
    h.delivered.trans (List.prefix_append _ _), ?_⟩
  · rw [List.length_append, List.length_singleton]
    exact hspace
  · simp only [h.enqueue, Nat.mod_add_mod, List.length_append, List.length_singleton]
  · simp only [h.enqueue, h.pcs, Nat.mod_add_mod, List.length_append, List.length_singleton]
    exact cycleOf_eventLap _
  · rcases h.call with hidle | ⟨hlt, hreads⟩
    · exact .inl hidle
    · -- the event at hand stays as it is
      have hne : s.evDequeue ≠ s.enqueue := by
        rw [h.dequeue, h.enqueue]
        exact PhaseRing.mod_ne hlt h.space
      refine .inr ⟨?_, ?_⟩
      · simp only [List.length_append, List.length_singleton]
        exact Nat.lt_succ_of_lt hlt
      · simp only [Function.update_of_ne hne]
        exact hreads

/-- **The end of a call** returns the next event. -/
theorem EventInv.take (h : EventInv s) (hlt : s.delivered.length < s.posted.length) :
    EventInv (s.take (s.events s.evDequeue)) := by
  have hnext := h.ring.get hlt
  rw [← h.dequeue] at hnext
  have hdelivered : (s.take (s.events s.evDequeue)).delivered =
      s.delivered ++ [s.posted[s.delivered.length]] := by
    rw [← hnext]
    simp [EventSys.delivered, EventSys.take]
  have hlen : (s.take (s.events s.evDequeue)).delivered.length = s.delivered.length + 1 := by
    rw [hdelivered, List.length_append, List.length_singleton]
  have hslot : (if s.evDequeue + 1 = xhciRingTrbs then 0 else s.evDequeue + 1) =
      (s.delivered.length + 1) % xhciRingTrbs := by
    rw [h.dequeue]
    exact PhaseRing.nextSlot_mod (by decide) _
  have hplace : (s.delivered.length + 1) % xhciRingTrbs < xhciRingTrbs := Nat.mod_lt _ (by decide)
  constructor
  · exact h.phys
  · rw [hlen]
    exact h.ring.read_next (by decide) hlt
  · have := h.space
    rw [hlen]
    simp only [EventSys.take]
    omega
  · rw [hlen]
    exact hslot
  · have hwrap : s.evDequeue + 1 = xhciRingTrbs ↔ (s.delivered.length + 1) % xhciRingTrbs = 0 := by
      grind
    rw [hlen, ← cycleOf_eventLap, ← h.cycle]
    simp only [EventSys.take, hwrap]
  · simp only [EventSys.erdpPlace, EventSys.take, hslot]
    exact erdp_place h.phys (by decide) hplace
  · exact h.enqueue
  · exact h.pcs
  · rw [hdelivered]
    exact PhaseRing.prefix_concat h.delivered hlt
  · exact .inl rfl

theorem EventInv.ready_iff (h : EventInv s) :
    (s.events s.evDequeue).control &&& 1 = s.evCycle ↔ s.delivered.length < s.posted.length := by
  rw [h.dequeue, h.cycle, ← Trb.bit_eq_iff]
  exact h.ring.new_iff (by decide)

theorem EventInv.goOn (h : EventInv s) (hlt : s.delivered.length < s.posted.length) {pc : NextPc}
    (hreads : pc.Reads (s.events s.evDequeue)) : EventInv { s with pc } :=
  ⟨h.phys, h.ring, h.space, h.dequeue, h.cycle, h.register, h.enqueue, h.pcs, h.delivered,
    .inr ⟨hlt, hreads⟩⟩

/-- **A read of a call.** -/
theorem EventInv.next (h : EventInv s) : EventInv (xhciNextEvent s) := by
  have hcall := h.call
  unfold xhciNextEvent
  dsimp only
  split
  · next hidle =>
    split
    · have hsame : s.delivered = ({ s with returned := s.returned ++ [none] } : EventSys).delivered := by
        simp [EventSys.delivered]
      exact ⟨h.phys, hsame ▸ h.ring, hsame ▸ h.space, hsame ▸ h.dequeue, hsame ▸ h.cycle,
        h.register, h.enqueue, h.pcs, hsame ▸ h.delivered, .inl hidle⟩
    · next hready =>
      exact h.goOn (h.ready_iff.mp (not_not.mp hready)) trivial
  · next hpc =>
    rw [hpc] at hcall
    obtain ⟨hlt, -⟩ := hcall.resolve_left NextPc.noConfusion
    exact h.goOn hlt rfl
  · next param hpc =>
    rw [hpc] at hcall
    obtain ⟨hlt, hparam⟩ := hcall.resolve_left NextPc.noConfusion
    exact h.goOn hlt ⟨hparam, rfl⟩
  · next param status hpc =>
    rw [hpc] at hcall
    obtain ⟨hlt, rfl, rfl⟩ := hcall.resolve_left NextPc.noConfusion
    exact h.take hlt

theorem EventInv.start (h : eventStart s) : EventInv s := by
  obtain ⟨phys, hphys, rfl⟩ := h
  have hzero : (⟨0, 0, 0⟩ : Trb).bit = false := by decide
  have hlap : cycleOf (eventLap 0) = 1 := by decide
  have hplace := erdp_place hphys (by decide : (0 : UInt64) &&& ~~~0xF = 0)
    (by decide : 0 < xhciRingTrbs)
  refine ⟨hphys, PhaseRing.Holds.init (fun _ _ => hzero), Nat.zero_lt_succ _, rfl, hlap.symm, ?_,
    rfl, hlap.symm, List.prefix_rfl, .inl rfl⟩
  simpa [EventSys.erdpPlace] using hplace

theorem EventInv.reachable (h : eventMachine.Reachable (fun _ _ => True) s) : EventInv s := by
  refine Machine.Reachable.invariant (P := EventInv) (fun s hs => EventInv.start hs) ?_ h
  intro s op hs _
  cases op with
  | next => exact hs.next
  | post t => exact hs.post t

theorem EventInv.ends (h : EventInv s) (hpc : s.pc ≠ .idle) (hend : (xhciNextEvent s).pc = .idle) :
    (xhciNextEvent s).returned = s.returned ++ [s.posted[s.delivered.length]?] := by
  obtain ⟨hlt, hreads⟩ := h.call.resolve_left hpc
  have hnext := h.ring.get hlt
  rw [← h.dequeue] at hnext
  rw [List.getElem?_eq_getElem hlt, ← hnext]
  unfold xhciNextEvent at hend ⊢
  generalize hp : s.pc = pc at *
  cases pc with
  | idle => exact absurd rfl hpc
  | found | param => cases hend
  | status param status =>
    obtain ⟨rfl, rfl⟩ := hreads
    rfl

theorem EventInv.starts (h : EventInv s) (hpc : s.pc = .idle) :
    xhciNextEvent s = if s.delivered.length < s.posted.length then { s with pc := .found }
      else { s with returned := s.returned ++ [none] } := by
  have hready := h.ready_iff
  simp only [xhciNextEvent, hpc]
  grind

/-! ## Both directions -/

/-- **The rings of xHCI.**  In every run whose pushes are paced, the controller has read a front
of the TRBs given to `xhci_ring_push`, each as it was given but for the cycle bit, and with no
push at hand it reads them all.  The calls of `xhci_next_event` have returned a front of the
events that the controller wrote; a call that starts with one of them not returned ends with
the next, and any other call returns nothing. -/
theorem xhci_rings :
    (∀ s : RingSys, ringMachine.Reachable RingPaced s →
      s.read.map Trb.clear <+: s.given.map Trb.clear ∧
      (s.stores = [] → s.read.length < s.given.length →
        s.read.length < s.consume.consume.read.length)) ∧
    ∀ s : EventSys, eventMachine.Reachable (fun _ _ => True) s →
      s.delivered <+: s.posted ∧
      (s.pc = .idle → xhciNextEvent s = if s.delivered.length < s.posted.length then
          { s with pc := .found } else { s with returned := s.returned ++ [none] }) ∧
      (s.pc ≠ .idle → (xhciNextEvent s).pc = .idle →
        (xhciNextEvent s).returned = s.returned ++ [s.posted[s.delivered.length]?]) := by
  constructor
  · intro s hs
    obtain ⟨complete, links, h⟩ := RingInv.reachable hs
    refine ⟨?_, h.progress⟩
    rw [← map_clear_entries s.given]
    exact h.read.map Trb.clear
  · intro s hs
    have h := EventInv.reachable hs
    exact ⟨h.delivered, h.starts, h.ends⟩

/-- A command that is pushed, stored and read. -/
def oneCommand : RingSys :=
  ringMachine.run ⟨⟨fun _ => ⟨0, 0, 0⟩, 0x4000, 0, 1⟩, [], 0x4000, 1, [], []⟩
    [.push ⟨0, 0, 0x2400⟩, .store, .store, .store, .consume]

/-- An event that is posted and returned. -/
def oneEvent : EventSys :=
  eventMachine.run ⟨fun _ => ⟨0, 0, 0⟩, 0x4000, 0, 1, 0x4000, .idle, 0, 1, [], []⟩
    [.post ⟨0x4000, 0x1000000, 0x8400⟩, .next, .next, .next, .next]

theorem oneCommand_read :
    oneCommand.read.length = 1 ∧ oneCommand.read.map Trb.clear <+: oneCommand.given.map Trb.clear ∧
      oneEvent.delivered.length = 1 ∧ oneEvent.delivered <+: oneEvent.posted := by
  have hcommand : ringMachine.Reachable RingPaced oneCommand := by
    have hstart : ringStart ⟨⟨fun _ => ⟨0, 0, 0⟩, 0x4000, 0, 1⟩, [], 0x4000, 1, [], []⟩ := ⟨_, rfl⟩
    refine Machine.Reachable.run (.start hstart) _ ?_
    refine Machine.guarded_cons.mpr ⟨fun _ => ⟨by decide, by decide⟩, ?_⟩
    refine Machine.guarded_cons.mpr ⟨trivial, Machine.guarded_cons.mpr ⟨trivial,
      Machine.guarded_cons.mpr ⟨trivial, Machine.guarded_cons.mpr ⟨trivial, ?_⟩⟩⟩⟩
    exact Machine.guarded_nil
  have hevent : eventMachine.Reachable (fun _ _ => True) oneEvent := by
    have hstart : eventStart
        ⟨fun _ => ⟨0, 0, 0⟩, 0x4000, 0, 1, 0x4000, .idle, 0, 1, [], []⟩ := ⟨_, by decide, rfl⟩
    exact Machine.Reachable.run (.start hstart) _ fun _ _ _ _ => trivial
  exact ⟨by decide, (xhci_rings.1 _ hcommand).1, by decide, (xhci_rings.2 _ hevent).1⟩

end Usb
