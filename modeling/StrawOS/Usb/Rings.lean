import StrawOS.Lib.PhaseRing
import StrawOS.Usb.Xhci

/-!
# The rings of an xHCI controller

A ring from the driver to the controller holds 255 TRBs and a link back to the first.
`xhci_ring_push` writes the fields of a TRB one after the other, the one with the cycle bit
last, and after the last TRB those of the link; the controller may read the ring between any
two of these stores.  It goes on while the cycle bit in front of it is that of the lap that
it is on, follows the link, and toggles its bit when the link says so.

The history keeps the TRBs given to `xhci_ring_push` and those that the controller has read.
-/

namespace Usb

/-- The places of a ring, less the link. -/
def ringPlaces : Nat := xhciRingTrbs - 1

/-- A store to a TRB of a ring. -/
inductive Store
  | param (i : Nat) (v : UInt64)
  | status (i : Nat) (v : UInt32)
  | control (i : Nat) (v : UInt32)

def Store.apply (trbs : Nat → Trb) : Store → Nat → Trb
  | .param i v => Function.update trbs i { trbs i with param := v }
  | .status i v => Function.update trbs i { trbs i with status := v }
  | .control i v => Function.update trbs i { trbs i with control := v }

/-- The stores that make a TRB. -/
def trbStores (i : Nat) (t : Trb) : List Store :=
  [.param i t.param, .status i t.status, .control i t.control]

/-- The link with a cycle bit. -/
def linkTrb (phys : UInt64) (cycle : UInt32) : Trb :=
  ⟨phys, 0, (trbLink <<< 10) ||| trbToggleCycle ||| cycle⟩

/-- A TRB with a cycle bit. -/
def Trb.stamp (t : Trb) (cycle : UInt32) : Trb :=
  { t with control := (t.control &&& ~~~1) ||| cycle }

/-- The stores of `xhci_ring_push`, in their order. -/
def pushStores (ring : Ring) (t : Trb) : List Store :=
  trbStores ring.enqueue (t.stamp ring.cycle) ++
    if ring.enqueue + 1 = ringPlaces then
      trbStores (ring.enqueue + 1) (linkTrb ring.phys ring.cycle)
    else []

/-- A ring, the stores that are left of the push at hand, and the controller's end. -/
structure RingSys where
  ring : Ring
  stores : List Store
  dequeue : UInt64
  ccs : UInt32
  given : List Trb
  read : List Trb

inductive RingEvent
  | push (t : Trb)
  | store
  | consume

/-- The next store. -/
def RingSys.store (s : RingSys) : RingSys :=
  match s.stores with
  | [] => s
  | st :: rest => { s with ring := { s.ring with trbs := st.apply s.ring.trbs }, stores := rest }

/-- The place that an address in the ring is that of. -/
def Ring.place (ring : Ring) (addr : UInt64) : Nat := (addr - ring.phys).toNat / 16

/-- The controller looks at the next TRB. -/
def RingSys.consume (s : RingSys) : RingSys :=
  let t := s.ring.trbs (s.ring.place s.dequeue)
  if t.control &&& 1 ≠ s.ccs then s
  else if t.type = trbLink then
    { s with
      dequeue := t.param
      ccs := if t.control &&& trbToggleCycle ≠ 0 then s.ccs ^^^ 1 else s.ccs }
  else { s with dequeue := s.dequeue + 16, read := s.read ++ [t] }

/-- One step; one push at a time. -/
def ringStep (s : RingSys) : RingEvent → RingSys
  | .push t =>
      match s.stores with
      | [] =>
          { s with
            ring := { (xhciRingPush s.ring t.param t.status t.control).1 with trbs := s.ring.trbs }
            stores := pushStores s.ring t
            given := s.given ++ [t] }
      | _ :: _ => s
  | .store => s.store
  | .consume => s.consume

/-- A ring from `xhci_ring_init`, whose page is zero, and a controller told to start there. -/
def ringStart (s : RingSys) : Prop :=
  ∃ phys, s = ⟨⟨fun _ => ⟨0, 0, 0⟩, phys, 0, 1⟩, [], phys, 1, [], []⟩

def ringMachine : Machine RingSys RingEvent Unit where
  start := ringStart
  step s e := (ringStep s e, [])

/-- Never more than `XHCI_RING_TRBS - 2` TRBs are unconsumed, and none of them is a link. -/
def RingPaced (s : RingSys) : RingEvent → Prop
  | .push t => s.stores = [] →
      s.given.length + 1 ≤ s.read.length + (xhciRingTrbs - 2) ∧ t.type ≠ trbLink
  | _ => True

/-! ## Cycle bits -/

/-- A cycle bit as the driver keeps it. -/
def cycleOf (b : Bool) : UInt32 := if b then 1 else 0

/-- The cycle bit of a TRB. -/
def Trb.bit (t : Trb) : Bool := t.control &&& 1 == 1

/-- A TRB without its cycle bit. -/
def Trb.clear (t : Trb) : Trb := { t with control := t.control &&& ~~~1 }

theorem control_bit (c : UInt32) : (c &&& 1).toNat = c.toNat % 2 := by simp

theorem Trb.bit_eq_iff (t : Trb) (b : Bool) : t.bit = b ↔ t.control &&& 1 = cycleOf b := by
  have hzero : t.control &&& 1 = 0 ↔ t.control.toNat % 2 = 0 := by
    rw [← UInt32.toNat_inj, control_bit]
    rfl
  have hone : t.control &&& 1 = 1 ↔ t.control.toNat % 2 = 1 := by
    rw [← UInt32.toNat_inj, control_bit]
    rfl
  cases b <;> simp only [Trb.bit, cycleOf] <;> grind

theorem cycleOf_flip (b : Bool) : cycleOf b ^^^ 1 = cycleOf !b := by
  cases b <;> rfl

theorem control_stamp (c : UInt32) (b : Bool) :
    ((c &&& ~~~1) ||| cycleOf b) &&& 1 = cycleOf b ∧
      ((c &&& ~~~1) ||| cycleOf b) &&& ~~~1 = c &&& ~~~1 ∧
      ((c &&& ~~~1) ||| cycleOf b) >>> 10 = c >>> 10 := by
  have hmask : ∀ i < 22, (4294967294#32).getLsbD (i + 10) = true := by decide
  refine ⟨?_, ?_, ?_⟩ <;> apply UInt32.toBitVec_inj.mp <;> ext i hi <;> cases b <;>
    simp [cycleOf]
  all_goals grind

@[simp] theorem Trb.bit_stamp (t : Trb) (b : Bool) : (t.stamp (cycleOf b)).bit = b :=
  (Trb.bit_eq_iff _ b).mpr (control_stamp t.control b).1

@[simp] theorem Trb.clear_stamp (t : Trb) (b : Bool) : (t.stamp (cycleOf b)).clear = t.clear := by
  simp only [Trb.clear, Trb.stamp, (control_stamp t.control b).2.1]

@[simp] theorem Trb.type_stamp (t : Trb) (b : Bool) : (t.stamp (cycleOf b)).type = t.type := by
  simp only [Trb.type, Trb.stamp, (control_stamp t.control b).2.2]

theorem linkTrb_spec (phys : UInt64) (b : Bool) :
    (linkTrb phys (cycleOf b)).bit = b ∧ (linkTrb phys (cycleOf b)).type = trbLink ∧
      (linkTrb phys (cycleOf b)).control &&& trbToggleCycle ≠ 0 := by
  cases b <;> simp only [linkTrb, Trb.bit, Trb.type] <;> decide

/-! ## The driver's side -/

/-- The lap of a position. -/
abbrev lap (i : Nat) : Bool := PhaseRing.phase ringPlaces i

/-- What the ring holds for a list of TRBs. -/
def entries (given : List Trb) : List Trb := given.mapIdx fun i t => t.stamp (cycleOf (lap i))

@[simp] theorem length_entries (given : List Trb) : (entries given).length = given.length := by
  simp [entries]

theorem entries_append (given : List Trb) (t : Trb) :
    entries (given ++ [t]) = entries given ++ [t.stamp (cycleOf (lap given.length))] := by
  simp [entries, List.mapIdx_append]

theorem map_clear_entries (given : List Trb) :
    (entries given).map Trb.clear = given.map Trb.clear := by
  apply List.ext_getElem?
  simp [entries, Function.comp_def]

theorem entries_type {given : List Trb} (h : ∀ t ∈ given, t.type ≠ trbLink) :
    ∀ t ∈ entries given, t.type ≠ trbLink := by
  intro t ht
  obtain ⟨i, hi, rfl⟩ := List.mem_mapIdx.mp ht
  rw [Trb.type_stamp]
  exact h _ (List.getElem_mem hi)

/-- The link after `laps` laps: that of the last one, and no cycle bit before the first. -/
def LinkAt (trbs : Nat → Trb) (phys : UInt64) : Nat → Prop
  | 0 => (trbs ringPlaces).bit = false
  | laps + 1 => trbs ringPlaces = linkTrb phys (cycleOf (decide (laps % 2 = 0)))

/-- The stores of the link that a push ends with, if it fills the last place. -/
def linkStores (phys : UInt64) (n : Nat) : List Store :=
  if n % ringPlaces = 0 then trbStores ringPlaces (linkTrb phys (cycleOf (lap (n - 1)))) else []

/-- How far the driver is with the last push: what stores are left, how many TRBs are
complete, and how many links. -/
inductive Stage (trbs : Nat → Trb) (phys : UInt64) (given : List Trb) :
    List Store → Nat → Nat → Prop
  | idle : Stage trbs phys given [] given.length (given.length / ringPlaces)
  | param {n : Nat} {e : Trb} (hn : given.length = n + 1) (he : (entries given)[n]? = some e) :
      Stage trbs phys given (trbStores (n % ringPlaces) e ++ linkStores phys (n + 1)) n
        (n / ringPlaces)
  | status {n : Nat} {e : Trb} (hn : given.length = n + 1) (he : (entries given)[n]? = some e)
      (hparam : (trbs (n % ringPlaces)).param = e.param) :
      Stage trbs phys given ((trbStores (n % ringPlaces) e).drop 1 ++ linkStores phys (n + 1)) n
        (n / ringPlaces)
  | control {n : Nat} {e : Trb} (hn : given.length = n + 1) (he : (entries given)[n]? = some e)
      (hparam : (trbs (n % ringPlaces)).param = e.param)
      (hstatus : (trbs (n % ringPlaces)).status = e.status) :
      Stage trbs phys given ((trbStores (n % ringPlaces) e).drop 2 ++ linkStores phys (n + 1)) n
        (n / ringPlaces)
  | linkParam {n : Nat} (hn : given.length = n + 1) (hlast : (n + 1) % ringPlaces = 0) :
      Stage trbs phys given (trbStores ringPlaces (linkTrb phys (cycleOf (lap n)))) (n + 1)
        (n / ringPlaces)
  | linkStatus {n : Nat} (hn : given.length = n + 1) (hlast : (n + 1) % ringPlaces = 0)
      (hparam : (trbs ringPlaces).param = phys) :
      Stage trbs phys given ((trbStores ringPlaces (linkTrb phys (cycleOf (lap n)))).drop 1) (n + 1)
        (n / ringPlaces)
  | linkControl {n : Nat} (hn : given.length = n + 1) (hlast : (n + 1) % ringPlaces = 0)
      (hparam : (trbs ringPlaces).param = phys) (hstatus : (trbs ringPlaces).status = 0) :
      Stage trbs phys given ((trbStores ringPlaces (linkTrb phys (cycleOf (lap n)))).drop 2) (n + 1)
        (n / ringPlaces)

/-- Where a controller is that has read `n` TRBs: in front of the next place, or of the link. -/
inductive Front (phys : UInt64) (n : Nat) : UInt64 → UInt32 → Prop
  | place : Front phys n (phys + .ofNat (16 * (n % ringPlaces))) (cycleOf (lap n))
  | link (hpos : 0 < n) (hlast : n % ringPlaces = 0) :
      Front phys n (phys + .ofNat (16 * ringPlaces)) (cycleOf (lap (n - 1)))

/-- The ring with `complete` TRBs and `links` links. -/
structure RingInv (s : RingSys) (complete links : Nat) : Prop where
  stage : Stage s.ring.trbs s.ring.phys s.given s.stores complete links
  ring : PhaseRing.Holds ringPlaces Trb.bit s.ring.trbs ((entries s.given).take complete)
    s.read.length
  link : LinkAt s.ring.trbs s.ring.phys links
  enqueue : s.ring.enqueue = s.given.length % ringPlaces
  cycle : s.ring.cycle = cycleOf (lap s.given.length)
  bound : s.given.length ≤ s.read.length + (xhciRingTrbs - 2)
  types : ∀ t ∈ s.given, t.type ≠ trbLink
  read : s.read <+: entries s.given
  front : Front s.ring.phys s.read.length s.dequeue s.ccs

variable {s : RingSys} {complete links : Nat}

theorem Stage.complete_le {trbs : Nat → Trb} {phys : UInt64} {given : List Trb}
    {stores : List Store} (h : Stage trbs phys given stores complete links) :
    complete ≤ given.length := by
  cases h <;> omega

/-- There is a link for each full lap, but for one that is being written. -/
theorem Stage.links_eq {trbs : Nat → Trb} {phys : UInt64} {given : List Trb} {stores : List Store}
    (h : Stage trbs phys given stores complete links) :
    links = complete / ringPlaces ∨
      complete % ringPlaces = 0 ∧ links + 1 = complete / ringPlaces := by
  cases h with
  | idle => exact .inl rfl
  | param | status | control => exact .inl rfl
  | linkParam hn hlast | linkStatus hn hlast | linkControl hn hlast =>
    refine .inr ⟨hlast, ?_⟩
    have hdvd := Nat.dvd_of_mod_eq_zero hlast
    rw [Nat.succ_div, if_pos hdvd]

theorem LinkAt.congr {trbs trbs' : Nat → Trb} {phys : UInt64} (h : LinkAt trbs phys links)
    (heq : trbs' ringPlaces = trbs ringPlaces) : LinkAt trbs' phys links := by
  cases links <;> simpa only [LinkAt, heq] using h

theorem place_ne_link (n : Nat) : ringPlaces ≠ n % ringPlaces :=
  (Nat.mod_lt n (by decide)).ne'

/-! ## Stores -/

/-- A store to the TRB of the push at hand that is not the one with the cycle bit. -/
theorem RingInv.touch (h : RingInv s complete links) (hlt : complete < s.given.length) {t : Trb}
    (ht : t.control = (s.ring.trbs (complete % ringPlaces)).control) :
    PhaseRing.Holds ringPlaces Trb.bit
        (Function.update s.ring.trbs (complete % ringPlaces) t)
        ((entries s.given).take complete) s.read.length ∧
      LinkAt (Function.update s.ring.trbs (complete % ringPlaces) t) s.ring.phys links := by
  have hlen : ((entries s.given).take complete).length = complete := by
    rw [List.length_take, length_entries]
    omega
  have hbound := h.bound
  have hroom : ((entries s.given).take complete).length < s.read.length + ringPlaces := by
    simp only [ringPlaces, xhciRingTrbs] at *
    omega
  have htouch := @PhaseRing.Holds.touch _ _ _ _ _ _ h.ring hroom t (by rw [hlen, Trb.bit, Trb.bit, ht])
  rw [hlen] at htouch
  exact ⟨htouch, h.link.congr (Function.update_of_ne (place_ne_link _) _ _)⟩

theorem RingSys.store_cons {st : Store} {rest : List Store} (h : s.stores = st :: rest) :
    s.store = { s with ring := { s.ring with trbs := st.apply s.ring.trbs }, stores := rest } := by
  simp only [RingSys.store, h]

theorem RingInv.of_store (h : RingInv s complete links) {st : Store} {rest : List Store}
    (hst : s.stores = st :: rest) {complete' links' : Nat}
    (hstage : Stage (st.apply s.ring.trbs) s.ring.phys s.given rest complete' links')
    (hring : PhaseRing.Holds ringPlaces Trb.bit (st.apply s.ring.trbs)
      ((entries s.given).take complete') s.read.length)
    (hlink : LinkAt (st.apply s.ring.trbs) s.ring.phys links') :
    RingInv s.store complete' links' := by
  rw [RingSys.store_cons hst]
  exact ⟨hstage, hring, hlink, h.enqueue, h.cycle, h.bound, h.types, h.read, h.front⟩

theorem RingInv.commit (h : RingInv s complete links) {e : Trb}
    (he : (entries s.given)[complete]? = some e) :
    PhaseRing.Holds ringPlaces Trb.bit (Function.update s.ring.trbs (complete % ringPlaces) e)
      ((entries s.given).take (complete + 1)) s.read.length := by
  have hlt := (List.getElem?_eq_some_iff.mp he).1
  have hlen : ((entries s.given).take complete).length = complete := by
    rw [List.length_take]
    omega
  rw [length_entries] at hlt
  have hbound := h.bound
  have hroom : ((entries s.given).take complete).length < s.read.length + ringPlaces := by
    simp only [ringPlaces, xhciRingTrbs] at *
    omega
  have hbit : e.bit = lap complete := by
    simp only [entries, List.getElem?_mapIdx, Option.map_eq_some_iff] at he
    obtain ⟨t, -, rfl⟩ := he
    exact Trb.bit_stamp t _
  have hwrite := @PhaseRing.Holds.write _ _ _ _ _ _ h.ring hroom e (by rw [hlen]; exact hbit)
  rw [hlen] at hwrite
  rwa [List.take_add_one, he]

theorem RingInv.places (h : RingInv s complete links) (t : Trb) :
    PhaseRing.Holds ringPlaces Trb.bit (Function.update s.ring.trbs ringPlaces t)
      ((entries s.given).take complete) s.read.length :=
  h.ring.congr (by decide) fun _ hi => Function.update_of_ne hi.ne _ _

theorem LinkAt.touch {trbs : Nat → Trb} {phys : UInt64} (h : LinkAt trbs phys links) {t : Trb}
    (hcontrol : t.control = (trbs ringPlaces).control)
    (hold : ∀ cycle, trbs ringPlaces = linkTrb phys cycle → t = linkTrb phys cycle) :
    LinkAt (Function.update trbs ringPlaces t) phys links := by
  cases links with
  | zero =>
    rw [LinkAt, Function.update_self, Trb.bit, hcontrol]
    exact h
  | succ laps =>
    exact hold _ h

/-- **A store of the push at hand.** -/
theorem RingInv.store (h : RingInv s complete links) :
    ∃ complete' links', RingInv s.store complete' links' := by
  have hstage := h.stage
  generalize hst : s.stores = stores at hstage
  cases hstage with
  | idle =>
    refine ⟨s.given.length, s.given.length / ringPlaces, ?_⟩
    simp only [RingSys.store, hst]
    exact h
  | @param _ e hn he =>
    obtain ⟨hring, hlink⟩ := h.touch (by omega) (t := { s.ring.trbs _ with param := e.param }) rfl
    refine ⟨_, _, h.of_store hst (.status hn he ?_) hring hlink⟩
    simp only [Store.apply, Function.update_self]
  | @status _ e hn he hparam =>
    obtain ⟨hring, hlink⟩ := h.touch (by omega) (t := { s.ring.trbs _ with status := e.status }) rfl
    refine ⟨_, _, h.of_store hst (.control hn he ?_ ?_) hring hlink⟩
    · simp only [Store.apply, Function.update_self, hparam]
    · simp only [Store.apply, Function.update_self]
  | @control _ e hn he hparam hstatus =>
    have hmake : Store.apply s.ring.trbs (.control (complete % ringPlaces) e.control) =
        Function.update s.ring.trbs (complete % ringPlaces) e := by
      simp only [Store.apply, hparam, hstatus]
    have hring := h.commit he
    have hlink := h.link.congr (Function.update_of_ne (place_ne_link complete) e s.ring.trbs)
    rw [← hmake] at hring hlink
    refine ⟨complete + 1, complete / ringPlaces, h.of_store hst ?_ hring hlink⟩
    by_cases hlast : (complete + 1) % ringPlaces = 0
    · rw [linkStores, if_pos hlast]
      exact .linkParam hn hlast
    · have hdiv : complete / ringPlaces = s.given.length / ringPlaces := by
        rw [hn, Nat.succ_div, if_neg (fun hdvd => hlast (Nat.mod_eq_zero_of_dvd hdvd)), Nat.add_zero]
      rw [linkStores, if_neg hlast, hdiv, ← hn]
      exact .idle
  | @linkParam n hn hlast =>
    refine ⟨_, _, h.of_store hst (.linkStatus hn hlast ?_) (h.places _) (h.link.touch rfl ?_)⟩
    · simp only [Store.apply, Function.update_self, linkTrb]
    · intro cycle heq
      rw [heq]
      rfl
  | @linkStatus n hn hlast hparam =>
    refine ⟨_, _, h.of_store hst (.linkControl hn hlast ?_ ?_) (h.places _) (h.link.touch rfl ?_)⟩
    · simp only [Store.apply, Function.update_self, hparam]
    · simp only [Store.apply, Function.update_self, linkTrb]
    · intro cycle heq
      rw [heq]
      rfl
  | @linkControl n hn hlast hparam hstatus =>
    have hdiv : s.given.length / ringPlaces = n / ringPlaces + 1 := by
      rw [hn, Nat.succ_div, if_pos (Nat.dvd_of_mod_eq_zero hlast)]
    have hlink : LinkAt (Store.apply s.ring.trbs
        (.control ringPlaces (linkTrb s.ring.phys (cycleOf (lap n))).control)) s.ring.phys
        (s.given.length / ringPlaces) := by
      rw [hdiv, LinkAt]
      simp only [Store.apply, Function.update_self, hparam, hstatus]
      rfl
    have hring := h.places { s.ring.trbs ringPlaces with
      control := (linkTrb s.ring.phys (cycleOf (lap n))).control }
    rw [← hn] at hring
    exact ⟨_, _, h.of_store hst .idle hring hlink⟩

/-! ## Pushes -/

theorem xhciRingPush_next (ring : Ring) (t : Trb) :
    (xhciRingPush ring t.param t.status t.control).1.enqueue =
        PhaseRing.nextSlot ringPlaces ring.enqueue ∧
      (xhciRingPush ring t.param t.status t.control).1.cycle =
        (if PhaseRing.nextSlot ringPlaces ring.enqueue = 0 then ring.cycle ^^^ 1 else ring.cycle) ∧
      (xhciRingPush ring t.param t.status t.control).1.phys = ring.phys := by
  simp only [xhciRingPush, PhaseRing.nextSlot, ringPlaces]
  split
  · next hlast => simp [hlast]
  · next hlast => simp [hlast]

theorem cycleOf_next (i : Nat) :
    (if (i + 1) % ringPlaces = 0 then cycleOf (lap i) ^^^ 1 else cycleOf (lap i)) =
      cycleOf (lap (i + 1)) := by
  rw [lap, lap, PhaseRing.phase_succ, cycleOf_flip]
  split <;> rfl

theorem RingInv.idle (h : RingInv s complete links) (hstores : s.stores = []) :
    complete = s.given.length ∧ links = s.given.length / ringPlaces := by
  have hstage := h.stage
  rw [hstores] at hstage
  generalize hnil : ([] : List Store) = stores at hstage
  cases hstage with
  | idle => exact ⟨rfl, rfl⟩
  | param | status | control | linkParam | linkStatus | linkControl => cases hnil

/-- **A push** has its stores still to do. -/
theorem RingInv.push (h : RingInv s complete links) (hstores : s.stores = []) {t : Trb}
    (hroom : s.given.length + 1 ≤ s.read.length + (xhciRingTrbs - 2)) (ht : t.type ≠ trbLink) :
    ∃ complete' links', RingInv (ringStep s (.push t)) complete' links' := by
  obtain ⟨henqueue, hcycle, hphys⟩ := xhciRingPush_next s.ring t
  obtain ⟨rfl, rfl⟩ := h.idle hstores
  have hpush : pushStores s.ring t = trbStores (s.given.length % ringPlaces)
      (t.stamp (cycleOf (lap s.given.length))) ++ linkStores s.ring.phys (s.given.length + 1) := by
    have hlast : s.given.length % ringPlaces + 1 = ringPlaces ↔
        (s.given.length + 1) % ringPlaces = 0 := by
      rw [← PhaseRing.nextSlot_mod (by decide), PhaseRing.nextSlot]
      grind
    rw [pushStores, h.enqueue, h.cycle, linkStores]
    by_cases hwrap : s.given.length % ringPlaces + 1 = ringPlaces
    · rw [if_pos hwrap, if_pos (hlast.mp hwrap), hwrap, Nat.add_sub_cancel]
    · rw [if_neg hwrap, if_neg (fun hzero => hwrap (hlast.mpr hzero))]
  have htake : (entries (s.given ++ [t])).take s.given.length =
      (entries s.given).take s.given.length := by
    rw [entries_append, List.take_append_of_le_length (by simp)]
  refine ⟨s.given.length, s.given.length / ringPlaces, ?_⟩
  simp only [ringStep, hstores]
  constructor
  · simp only [hphys, hpush]
    refine .param (by simp) ?_
    rw [entries_append, ← length_entries s.given, List.getElem?_concat_length]
  · simp only [htake]
    exact h.ring
  · simp only [hphys]
    exact h.link
  · simp only [henqueue, h.enqueue, List.length_append, List.length_singleton]
    exact PhaseRing.nextSlot_mod (by decide) _
  · simp only [hcycle, h.enqueue, h.cycle, PhaseRing.nextSlot_mod (by decide : 0 < ringPlaces),
      List.length_append, List.length_singleton]
    exact cycleOf_next _
  · simpa using hroom
  · intro u hu
    rcases List.mem_append.mp hu with hu | hu
    · exact h.types u hu
    · rwa [List.mem_singleton.mp hu]
  · simp only [entries_append]
    exact h.read.trans (List.prefix_append _ _)
  · simp only [hphys]
    exact h.front

/-! ## The controller -/

theorem place_add (ring : Ring) {i : Nat} (hi : i < xhciRingTrbs) :
    ring.place (ring.phys + .ofNat (16 * i)) = i := by
  have hsub : ring.phys + UInt64.ofNat (16 * i) - ring.phys = .ofNat (16 * i) := by
    rw [UInt64.add_comm, UInt64.add_sub_cancel]
  have hsmall : i < 256 := hi
  rw [Ring.place, hsub, UInt64.toNat_ofNat']
  omega

theorem RingInv.read_le (h : RingInv s complete links) :
    s.read.length ≤ complete ∧ complete ≤ s.given.length := by
  have hle := h.ring.le
  have hcomplete := h.stage.complete_le
  rw [List.length_take, length_entries] at hle
  omega

/-- In front of a place the cycle bit tells whether there is a complete TRB. -/
theorem RingInv.ready_iff (h : RingInv s complete links) :
    (s.ring.trbs (s.read.length % ringPlaces)).control &&& 1 = cycleOf (lap s.read.length) ↔
      s.read.length < complete := by
  have hle := h.read_le
  have hnew := h.ring.new_iff (by decide)
  rw [List.length_take, length_entries, Nat.min_eq_left hle.2] at hnew
  rw [← Trb.bit_eq_iff]
  exact hnew

theorem RingInv.next_eq (h : RingInv s complete links) (hlt : s.read.length < complete) :
    (entries s.given)[s.read.length]? = some (s.ring.trbs (s.read.length % ringPlaces)) := by
  have hle := h.read_le
  have hget : ((entries s.given).take complete)[s.read.length]? =
      (entries s.given)[s.read.length]? := by
    rw [List.getElem?_take_of_lt hlt]
  have hin : s.read.length < (entries s.given).length := by
    rw [length_entries]
    omega
  have hsome := List.getElem?_eq_getElem hin
  rw [hsome, ← h.ring.unread _ _ (Nat.le_refl _) (hget.trans hsome)]

/-- **In front of the link** the cycle bit tells whether it is that of the lap just read. -/
theorem RingInv.link_iff (h : RingInv s complete links) (hpos : 0 < s.read.length)
    (hlast : s.read.length % ringPlaces = 0) :
    ((s.ring.trbs ringPlaces).control &&& 1 = cycleOf (lap (s.read.length - 1)) ↔
        links = s.read.length / ringPlaces) ∧
      (links = s.read.length / ringPlaces →
        s.ring.trbs ringPlaces = linkTrb s.ring.phys (cycleOf (lap (s.read.length - 1)))) := by
  have hle := h.read_le
  have hbound := h.bound
  have hlinks := h.stage.links_eq
  have hlink := h.link
  simp only [ringPlaces, xhciRingTrbs] at hlast hbound hlinks ⊢
  obtain ⟨k, hk⟩ : ∃ k, s.read.length = 255 * (k + 1) := ⟨s.read.length / 255 - 1, by omega⟩
  have hlap : lap (s.read.length - 1) = decide (k % 2 = 0) := by
    have : (s.read.length - 1) / 255 = k := by omega
    simp only [lap, PhaseRing.phase, ringPlaces, xhciRingTrbs, this]
  have hdiv : s.read.length / 255 = k + 1 := by omega
  have hcase : links = k + 1 ∨ links = k := by omega
  rw [hdiv, hlap]
  rcases hcase with rfl | rfl
  · refine ⟨iff_of_true ?_ rfl, fun _ => hlink⟩
    have hbit := (linkTrb_spec s.ring.phys (decide (k % 2 = 0))).1
    rw [← hlink] at hbit
    exact (Trb.bit_eq_iff _ _).mp hbit
  · rw [← Trb.bit_eq_iff]
    cases links with
    | zero =>
      have hzero : (s.ring.trbs ringPlaces).bit = false := hlink
      simp only [ringPlaces, xhciRingTrbs] at hzero
      simp [hzero]
    | succ laps =>
      have hold : s.ring.trbs ringPlaces = linkTrb s.ring.phys (cycleOf (decide (laps % 2 = 0))) :=
        hlink
      have hbit := (linkTrb_spec s.ring.phys (decide (laps % 2 = 0))).1
      rw [← hold] at hbit
      simp only [ringPlaces, xhciRingTrbs] at hbit
      rw [hbit]
      simp only [ne_eq, decide_eq_decide]
      omega

/-- **In front of a place** the controller reads the TRB that is complete there. -/
theorem RingInv.consume_place (h : RingInv s complete links)
    (hdequeue : s.dequeue = s.ring.phys + .ofNat (16 * (s.read.length % ringPlaces)))
    (hccs : s.ccs = cycleOf (lap s.read.length)) :
    if s.read.length < complete then
      ∃ t, (entries s.given)[s.read.length]? = some t ∧
        s.consume = { s with dequeue := s.dequeue + 16, read := s.read ++ [t] }
    else s.consume = s := by
  have hplace : s.read.length % ringPlaces < xhciRingTrbs :=
    (Nat.mod_lt _ (by decide)).trans (by decide)
  have hready := h.ready_iff
  have hat : s.ring.place s.dequeue = s.read.length % ringPlaces := by
    rw [hdequeue, place_add s.ring hplace]
  simp only [RingSys.consume, hat]
  split
  · next hlt =>
    have hnext := h.next_eq hlt
    have htype := entries_type h.types _ (List.mem_of_getElem? hnext)
    refine ⟨_, hnext, ?_⟩
    rw [if_neg (by rw [hccs]; exact not_not.mpr (hready.mpr hlt)), if_neg htype]
  · next hge =>
    rw [if_pos]
    rw [hccs]
    exact fun heq => hge (hready.mp heq)

/-- **In front of the link** it follows the link that is written. -/
theorem RingInv.consume_link (h : RingInv s complete links) (hpos : 0 < s.read.length)
    (hlast : s.read.length % ringPlaces = 0)
    (hdequeue : s.dequeue = s.ring.phys + .ofNat (16 * ringPlaces))
    (hccs : s.ccs = cycleOf (lap (s.read.length - 1))) :
    s.consume = if links = s.read.length / ringPlaces then
        { s with dequeue := s.ring.phys, ccs := cycleOf (lap s.read.length) }
      else s := by
  obtain ⟨hready, hlink⟩ := h.link_iff hpos hlast
  have hat : s.ring.place s.dequeue = ringPlaces := by
    rw [hdequeue, place_add s.ring (by decide)]
  simp only [RingSys.consume, hat]
  by_cases hlinks : links = s.read.length / ringPlaces
  · have hflip : s.ccs ^^^ 1 = cycleOf (lap s.read.length) := by
      have hnext := cycleOf_next (s.read.length - 1)
      rw [Nat.sub_add_cancel hpos, if_pos hlast] at hnext
      rw [hccs, hnext]
    obtain ⟨-, htype, htoggle⟩ := linkTrb_spec s.ring.phys (lap (s.read.length - 1))
    rw [← hlink hlinks] at htype htoggle
    rw [if_neg (by rw [hccs]; exact not_not.mpr (hready.mpr hlinks)), if_pos htype, if_pos htoggle,
      if_pos hlinks, hflip, hlink hlinks]
    rfl
  · rw [if_neg hlinks, if_pos]
    rw [hccs]
    exact fun heq => hlinks (hready.mp heq)

theorem Front.next {phys dequeue : UInt64} {n : Nat}
    (hdequeue : dequeue = phys + .ofNat (16 * (n % ringPlaces))) :
    Front phys (n + 1) (dequeue + 16) (cycleOf (lap n)) := by
  have hnext := @PhaseRing.nextSlot_mod ringPlaces (by decide) n
  have hsucc := cycleOf_next n
  have hadd : dequeue + 16 = phys + .ofNat (16 * (n % ringPlaces + 1)) := by
    rw [hdequeue, Nat.mul_succ, UInt64.ofNat_add, UInt64.add_assoc]
    rfl
  rw [hadd]
  rw [PhaseRing.nextSlot] at hnext
  split at hnext
  · next hwrap =>
    rw [hwrap]
    exact .link (Nat.succ_pos n) hnext.symm
  · next hwrap =>
    have hne : (n + 1) % ringPlaces ≠ 0 := by omega
    rw [if_neg hne] at hsucc
    rw [hnext, hsucc]
    exact .place

/-- **A look of the controller.** -/
theorem RingInv.consume (h : RingInv s complete links) : RingInv s.consume complete links := by
  have hfront := h.front
  generalize hd : s.dequeue = dequeue at hfront
  generalize hc : s.ccs = ccs at hfront
  cases hfront with
  | place =>
    have hcases := h.consume_place hd hc
    split at hcases
    · next hlt =>
      obtain ⟨t, ht, hconsume⟩ := hcases
      have hring := h.ring.read_next (by decide) (by
        have := h.read_le
        rw [List.length_take, length_entries]
        omega)
      have hlen : (s.read ++ [t]).length = s.read.length + 1 := by simp
      rw [hconsume]
      refine ⟨h.stage, ?_, h.link, h.enqueue, h.cycle, ?_, h.types, ?_, ?_⟩
      · simpa only [hlen] using hring
      · have := h.bound
        simp only [hlen]
        omega
      · obtain ⟨hin, rfl⟩ := List.getElem?_eq_some_iff.mp ht
        exact PhaseRing.prefix_concat h.read hin
      · simp only [hlen, hc]
        exact Front.next hd
    · rw [hcases]
      exact h
  | link hpos hlast =>
    rw [h.consume_link hpos hlast hd hc]
    split
    · refine ⟨h.stage, h.ring, h.link, h.enqueue, h.cycle, h.bound, h.types, h.read, ?_⟩
      have hplace := @Front.place s.ring.phys s.read.length
      rw [hlast] at hplace
      simpa using hplace
    · exact h

/-- **Every step keeps the ring.** -/
theorem RingInv.step (h : RingInv s complete links) (e : RingEvent) (hpaced : RingPaced s e) :
    ∃ complete' links', RingInv (ringStep s e) complete' links' := by
  cases e with
  | push t =>
    by_cases hstores : s.stores = []
    · exact h.push hstores (hpaced hstores).1 (hpaced hstores).2
    · obtain ⟨st, rest, hcons⟩ := List.exists_cons_of_ne_nil hstores
      refine ⟨complete, links, ?_⟩
      simp only [ringStep, hcons]
      exact h
  | store => exact h.store
  | consume => exact ⟨complete, links, h.consume⟩

theorem RingInv.start (h : ringStart s) : RingInv s 0 0 := by
  obtain ⟨phys, rfl⟩ := h
  have hzero : (⟨0, 0, 0⟩ : Trb).bit = false := by decide
  have hlap : cycleOf (lap 0) = 1 := by decide
  have hfront := @Front.place phys 0
  rw [hlap] at hfront
  exact ⟨@Stage.idle _ phys [], PhaseRing.Holds.init (fun _ _ => hzero), hzero, rfl, hlap.symm, by simp, by simp,
    by simp, by simpa using hfront⟩

theorem RingInv.reachable (h : ringMachine.Reachable RingPaced s) :
    ∃ complete links, RingInv s complete links := by
  refine Machine.Reachable.invariant (P := fun s => ∃ complete links, RingInv s complete links)
    (fun s hs => ⟨0, 0, RingInv.start hs⟩) ?_ h
  rintro s e ⟨complete, links, hs⟩ hpaced
  exact hs.step e hpaced

/-- **The controller goes on**: with no push at hand and a TRB unread, it reads one with its
next look or, if it stands in front of the link, with the one after. -/
theorem RingInv.progress (h : RingInv s complete links) (hstores : s.stores = [])
    (hlt : s.read.length < s.given.length) :
    s.read.length < s.consume.consume.read.length := by
  obtain ⟨hcomplete, hlinks⟩ := h.idle hstores
  have hmono : ∀ s : RingSys, s.read.length ≤ s.consume.read.length := by
    intro s
    simp only [RingSys.consume]
    split
    · exact Nat.le_refl _
    split
    · exact Nat.le_refl _
    · simp
  have hreads : ∀ s' : RingSys, RingInv s' complete links → s'.read = s.read →
      s'.dequeue = s'.ring.phys + .ofNat (16 * (s'.read.length % ringPlaces)) →
      s'.ccs = cycleOf (lap s'.read.length) → s.read.length < s'.consume.read.length := by
    intro s' h' hread hd hc
    have hcases := h'.consume_place hd hc
    rw [if_pos (by rw [hread]; omega)] at hcases
    obtain ⟨t, -, hconsume⟩ := hcases
    simp [hconsume, hread]
  have hfront := h.front
  generalize hd : s.dequeue = dequeue at hfront
  generalize hc : s.ccs = ccs at hfront
  cases hfront with
  | place => exact (hreads s h rfl hd hc).trans_le (hmono _)
  | link hpos hlast =>
    have hbound := h.bound
    have hlap : links = s.read.length / ringPlaces := by
      simp only [ringPlaces, xhciRingTrbs] at *
      omega
    have hnext := h.consume
    have hconsume := h.consume_link hpos hlast hd hc
    rw [if_pos hlap] at hconsume
    refine hreads _ hnext (by rw [hconsume]) ?_ (by rw [hconsume])
    simp [hconsume, hlast]

end Usb
