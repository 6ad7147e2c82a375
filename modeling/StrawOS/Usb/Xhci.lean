import Mathlib.Data.UInt
import StrawOS.Lib.Buf
import StrawOS.Lib.Machine

/-!
# Requests to an xHCI controller

`xhci.c`, the calls that wait: `xhci_command` and `xhci_control` put TRBs on a ring
and read the event ring until an event of the right type comes or the time is up.
Other transfer events are handled on the way, and a stalled control transfer makes
`xhci_control` issue two more commands.

The driver is a program counter that a `poll` moves by one reading of the event
ring or one millisecond; between polls the controller may write to the buffer,
complete a request or post any other event.  The event ring is the list of what
was posted and not yet read.  The history numbers the requests and tags each event
with the request that it completes.
-/

namespace Usb

structure Trb where
  param : UInt64
  status : UInt32
  control : UInt32

/-- `TRB_GET_TYPE`. -/
def Trb.type (t : Trb) : UInt32 := (t.control >>> 10) &&& 0x3F

def Trb.slot (t : Trb) : UInt32 := t.control >>> 24

def Trb.dci (t : Trb) : UInt32 := (t.control >>> 16) &&& 0x1F

/-- The completion code. -/
def Trb.cc (t : Trb) : UInt32 := t.status >>> 24

def trbNormal : UInt32 := 1
def trbSetup : UInt32 := 2
def trbData : UInt32 := 3
def trbStatus : UInt32 := 4
def trbLink : UInt32 := 6
def trbResetEp : UInt32 := 14
def trbSetTrDequeue : UInt32 := 16
def trbEvTransfer : UInt32 := 32
def trbEvCmdComplete : UInt32 := 33

def xhciCcSuccess : UInt32 := 1
def xhciCcStall : UInt32 := 6
def xhciCcShort : UInt32 := 13

def xhciRingTrbs : Nat := 256
def pageSize : Nat := 4096

/-- `TRB_IOC`, `TRB_IDT`, `TRB_DIR_IN`, `TRB_TOGGLE_CYCLE`. -/
def trbIoc : UInt32 := (1 : UInt32) <<< 5
def trbIdt : UInt32 := (1 : UInt32) <<< 6
def trbDirIn : UInt32 := (1 : UInt32) <<< 16
def trbToggleCycle : UInt32 := (1 : UInt32) <<< 1

/-! ## Rings -/

structure Ring where
  trbs : Nat → Trb
  phys : UInt64
  enqueue : Nat
  cycle : UInt32

def xhciRingPush (ring : Ring) (param : UInt64) (status control : UInt32) : Ring × UInt64 :=
  let phys := ring.phys + .ofNat (ring.enqueue * 16)
  let trbs := Function.update ring.trbs ring.enqueue
    ⟨param, status, (control &&& ~~~1) ||| ring.cycle⟩
  if ring.enqueue + 1 = xhciRingTrbs - 1 then
    let link : Trb := ⟨ring.phys, 0, (trbLink <<< 10) ||| trbToggleCycle ||| ring.cycle⟩
    (⟨Function.update trbs (ring.enqueue + 1) link, ring.phys, 0, ring.cycle ^^^ 1⟩, phys)
  else ({ ring with trbs := trbs, enqueue := ring.enqueue + 1 }, phys)

/-! ## The controller -/

/-- `XhciHidEndpoint`, as far as transfers use it. -/
structure HidEndpoint where
  dci : UInt32
  protocol : Nat
  useLayout : Bool
  maxPacket : Nat
  bufPhys : UInt64
  ring : Ring

structure Device where
  slotId : UInt32
  ep0 : Ring
  hid : List HidEndpoint

/-- An event in the ring, and the request that it completes. -/
structure Event where
  trb : Trb
  req : Option Nat

structure Controller where
  maxSlots : Nat
  cmd : Ring
  events : List Event
  dmaBuf : Nat → UInt8
  dmaBufPhys : UInt64
  slots : Nat → Option Device

/-- What `xhci_handle_transfer` gives to the keyboard or the mouse: how many bytes
of the buffer of an endpoint. -/
inductive Report
  | keyboard (slot dci : UInt32) (len : Nat)
  | mouseLayout (slot dci : UInt32) (len : Nat)
  | mouse (slot dci : UInt32) (len : Nat)

def xhciQueueInterrupt (ep : HidEndpoint) : HidEndpoint :=
  { ep with ring := (xhciRingPush ep.ring ep.bufPhys (.ofNat ep.maxPacket)
      ((trbNormal <<< 10) ||| trbIoc)).1 }

/-- The report of an endpoint. -/
def HidEndpoint.report (ep : HidEndpoint) (slot : UInt32) (len : Nat) : Report :=
  if ep.protocol = 1 then .keyboard slot ep.dci len
  else if ep.useLayout then .mouseLayout slot ep.dci len
  else .mouse slot ep.dci len

def xhciHandleTransfer (hc : Controller) (ev : Trb) : Controller × Option Report :=
  if ev.slot = 0 ∨ hc.maxSlots < ev.slot.toNat then (hc, none)
  else
    match hc.slots ev.slot.toNat with
    | none => (hc, none)
    | some dev =>
      match dev.hid.findIdx? fun ep => ep.dci == ev.dci with
      | none => (hc, none)
      | some i =>
        match dev.hid[i]? with
        | none => (hc, none)
        | some ep =>
          if ev.cc ≠ xhciCcSuccess ∧ ev.cc ≠ xhciCcShort then (hc, none)
          else
            let residue := (ev.status &&& 0xFFFFFF).toNat
            let len := if residue < ep.maxPacket then ep.maxPacket - residue else 0
            let dev := { dev with hid := dev.hid.set i (xhciQueueInterrupt ep) }
            ({ hc with slots := Function.update hc.slots ev.slot.toNat (some dev) },
              some (ep.report ev.slot len))

/-! ## Calls -/

/-- What the controller has to do: a command, or a control transfer of a slot. -/
inductive Kind
  | command
  | control (slot : UInt32) (isIn : Bool) (length : Nat)

structure Request where
  id : Nat
  kind : Kind

/-- Where the driver waits, for which request, and how many milliseconds passed. -/
inductive Pc
  | idle
  | command (req polls : Nat)
  | control (req : Nat) (slot : UInt32) (isIn : Bool) (length polls : Nat)
  | resetEp (slot : UInt32) (req polls : Nat)
  | setDequeue (req polls : Nat)

/-- A completion by the controller: the event and what the device sent. -/
structure Completion where
  req : Nat
  kind : Kind
  trb : Trb
  data : List UInt8

/-- The return of a call: the value, the event that it took and what it copied. -/
structure Return where
  req : Nat
  kind : Kind
  ok : Bool
  event : Option Trb
  data : List UInt8

structure Driver where
  hc : Controller
  pc : Pc
  next : Nat
  pending : List Request
  completed : List Completion
  returned : List Return
  read : List Trb
  handed : List Trb
  reports : List Report

/-- `xhci_command`, up to its wait. -/
def xhciCommand (st : Driver) (param : UInt64) (control : UInt32) (wait : Nat → Pc) : Driver :=
  { st with
    hc := { st.hc with cmd := (xhciRingPush st.hc.cmd param 0 control).1 }
    pc := wait st.next
    next := st.next + 1
    pending := st.pending ++ [⟨st.next, .command⟩] }

/-- The bytes of the setup packet. -/
def setupPacket (requestType request : UInt8) (value index length : UInt16) : UInt64 :=
  requestType.toUInt64 ||| (request.toUInt64 <<< 8) ||| (value.toUInt64 <<< 16) |||
    (index.toUInt64 <<< 32) ||| (length.toUInt64 <<< 48)

/-- The TRBs of `xhci_control` on the ring of endpoint 0. -/
def controlTrbs (ring : Ring) (setup : UInt64) (isIn : Bool) (length : Nat) (dmaBufPhys : UInt64) :
    Ring :=
  let trt : UInt32 := if length = 0 then 0 else if isIn then 3 else 2
  let ring := (xhciRingPush ring setup 8 ((trbSetup <<< 10) ||| trbIdt ||| (trt <<< 16))).1
  let ring := if length = 0 then ring
    else (xhciRingPush ring dmaBufPhys (.ofNat length)
      ((trbData <<< 10) ||| (if isIn then trbDirIn else 0))).1
  (xhciRingPush ring 0 0 ((trbStatus <<< 10) ||| trbIoc |||
    (if length ≠ 0 ∧ isIn then 0 else trbDirIn))).1

/-- `xhci_control`, up to its wait. -/
def xhciControl (st : Driver) (slot : UInt32) (requestType request : UInt8)
    (value index length : UInt16) (data : List UInt8) : Driver :=
  let isIn := requestType &&& 0x80 ≠ 0
  if pageSize < length.toNat then
    { st with
      next := st.next + 1
      returned := st.returned ++ [⟨st.next, .control slot isIn length.toNat, false, none, []⟩] }
  else
    match st.hc.slots slot.toNat with
    | none => st
    | some dev =>
      let dev := { dev with
        ep0 := controlTrbs dev.ep0 (setupPacket requestType request value index length) isIn
          length.toNat st.hc.dmaBufPhys }
      { st with
        hc := { st.hc with
          slots := Function.update st.hc.slots slot.toNat (some dev)
          dmaBuf := if length.toNat ≠ 0 ∧ ¬ isIn then
            Buf.write st.hc.dmaBuf 0 (data.take length.toNat) else st.hc.dmaBuf }
        pc := .control st.next slot isIn length.toNat 0
        next := st.next + 1
        pending := st.pending ++ [⟨st.next, .control slot isIn length.toNat⟩] }

/-- `xhci_recover_ep0`: the first command. -/
def resetCommand (st : Driver) (slot : UInt32) : Driver :=
  xhciCommand st 0 ((trbResetEp <<< 10) ||| (slot <<< 24) ||| ((1 : UInt32) <<< 16)) fun req =>
    .resetEp slot req 0

/-- `xhci_recover_ep0`: the second command. -/
def dequeueCommand (st : Driver) (slot : UInt32) : Driver :=
  match st.hc.slots slot.toNat with
  | none => { st with pc := .idle }
  | some dev =>
    xhciCommand st ((dev.ep0.phys + .ofNat (dev.ep0.enqueue * 16)) ||| dev.ep0.cycle.toUInt64)
      ((trbSetTrDequeue <<< 10) ||| (slot <<< 24) ||| ((1 : UInt32) <<< 16)) fun req => .setDequeue req 0

/-- The return of a call. -/
def Driver.ret (st : Driver) (r : Return) : Driver :=
  { st with returned := st.returned ++ [r], pc := .idle }

/-- After the wait of a call: the event that it took, or none when the time was up. -/
def Driver.finish (st : Driver) (ev : Option Trb) : Driver :=
  let ok := ev.any fun t => t.cc == xhciCcSuccess
  match st.pc with
  | .idle => st
  | .command req _ => st.ret ⟨req, .command, ok, ev, []⟩
  | .control req slot isIn length _ =>
    match ev with
    | none => st.ret ⟨req, .control slot isIn length, false, none, []⟩
    | some t =>
      if t.cc ≠ xhciCcSuccess ∧ t.cc ≠ xhciCcShort then
        let st := st.ret ⟨req, .control slot isIn length, false, ev, []⟩
        if t.cc = xhciCcStall then resetCommand st slot else st
      else
        st.ret ⟨req, .control slot isIn length, true, ev,
          if length ≠ 0 ∧ isIn then Buf.read st.hc.dmaBuf 0 length else []⟩
  | .resetEp slot req _ => dequeueCommand (st.ret ⟨req, .command, ok, ev, []⟩) slot
  | .setDequeue req _ => st.ret ⟨req, .command, ok, ev, []⟩

/-- The condition of `xhci_wait_event` on an event. -/
def matches? (type slot : UInt32) (t : Trb) : Bool :=
  t.type == type && (type != trbEvTransfer || (t.slot == slot && t.dci == 1))

/-- The type and slot that a call waits for. -/
def Pc.wanted : Pc → Option (UInt32 × UInt32)
  | .idle => none
  | .command _ _ | .resetEp _ _ _ | .setDequeue _ _ => some (trbEvCmdComplete, 0)
  | .control _ slot _ _ _ => some (trbEvTransfer, slot)

def Pc.polls : Pc → Nat
  | .idle => 0
  | .command _ polls | .control _ _ _ _ polls | .resetEp _ _ polls | .setDequeue _ polls => polls

def Pc.tick : Pc → Pc
  | .idle => .idle
  | .command req polls => .command req (polls + 1)
  | .control req slot isIn length polls => .control req slot isIn length (polls + 1)
  | .resetEp slot req polls => .resetEp slot req (polls + 1)
  | .setDequeue req polls => .setDequeue req (polls + 1)

/-- `xhci_wait_event`: one event, or one millisecond. -/
def Driver.poll (st : Driver) : Driver :=
  match st.pc.wanted with
  | none => st
  | some (type, slot) =>
    match st.hc.events with
    | [] => if st.pc.polls < 1000 then { st with pc := st.pc.tick } else st.finish none
    | e :: rest =>
      let st := { st with hc := { st.hc with events := rest }, read := st.read ++ [e.trb] }
      if matches? type slot e.trb then st.finish (some e.trb)
      else if e.trb.type = trbEvTransfer then
        let r := xhciHandleTransfer st.hc e.trb
        { st with hc := r.1, handed := st.handed ++ [e.trb], reports := st.reports ++ r.2.toList }
      else st

end Usb
