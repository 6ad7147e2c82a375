import Mathlib.Data.UInt
import StrawOS.Lib.Logged

/-!
# Configuration descriptors

`xhci_parse_config` walks the records of a configuration and keeps the endpoints of HID
interfaces, and `xhci_setup_device` reads the configuration value behind it.  The bytes are
those of a device, as many as it says in `wTotalLength` and at most a page; what stands
behind them in memory is not known, so a read is logged with its offset.
-/

namespace Usb

def xhciMaxHidEps : Nat := 8

/-- `XhciHidEndpoint`, as the configuration describes it. -/
structure HidRecord where
  dci : UInt8
  iface : UInt8
  protocol : UInt8
  boot : Bool
  reportDescLen : UInt16
  interval : UInt8
  maxPacket : UInt16

/-- The variables of the loop, and the endpoints recorded. -/
structure ParseState where
  proto : UInt8 := 0
  iface : UInt8 := 0
  boot : Bool := false
  reportLen : UInt16 := 0
  hid : List HidRecord := []

/-- A read of the descriptor. -/
def readByte (cfg : Nat → UInt8) (off : Nat) : Logged Nat UInt8 := do
  Logged.tell off
  pure (cfg off)

/-- The loop of `xhci_ep_interval`. -/
def intervalExp : Nat → Nat → Nat → Nat
  | 0, _, exp => exp
  | fuel + 1, microframes, exp =>
      if 2 ^ (exp + 1) ≤ microframes then intervalExp fuel microframes (exp + 1) else exp

def xhciEpInterval (speed bInterval : UInt8) : UInt8 :=
  if speed = 3 ∨ 4 ≤ speed then
    let b := if bInterval < 1 then 1 else bInterval
    let b := if 16 < b then 16 else b
    b - 1
  else
    let microframes := (if bInterval = 0 then 1 else bInterval.toNat) * 8
    .ofNat (max 3 (min (intervalExp 32 microframes 0) 10))

/-- Two bytes as a number. -/
def le16 (lo hi : UInt8) : UInt16 := lo.toUInt16 ||| (hi.toUInt16 <<< 8)

/-- An interface record. -/
def parseInterface (cfg : Nat → UInt8) (off : Nat) (st : ParseState) : Logged Nat ParseState := do
  let st := { st with proto := 0, reportLen := 0 }
  if (← readByte cfg (off + 3)) ≠ 0 then return st
  if (← readByte cfg (off + 5)) ≠ 3 then return st
  let subclass ← readByte cfg (off + 6)
  let proto ← readByte cfg (off + 7)
  let iface ← readByte cfg (off + 2)
  let boot := subclass == 1 && (proto == 1 || proto == 2)
  return { st with iface, boot, proto := if boot then proto else if proto ≠ 1 then 2 else 0 }

/-- A HID record. -/
def parseHid (cfg : Nat → UInt8) (off : Nat) (st : ParseState) : Logged Nat ParseState := do
  if (← readByte cfg (off + 6)) ≠ 0x22 then return st
  let lo ← readByte cfg (off + 7)
  let hi ← readByte cfg (off + 8)
  return { st with reportLen := le16 lo hi }

/-- An endpoint record. -/
def parseEndpoint (speed : UInt8) (cfg : Nat → UInt8) (off : Nat) (st : ParseState) :
    Logged Nat ParseState := do
  let addr ← readByte cfg (off + 2)
  let attrs ← readByte cfg (off + 3)
  if addr &&& 0x80 ≠ 0 ∧ attrs &&& 3 = 3 ∧ st.hid.length < xhciMaxHidEps then
    let lo ← readByte cfg (off + 4)
    let hi ← readByte cfg (off + 5)
    let interval ← readByte cfg (off + 6)
    let packet := le16 lo hi &&& 0x7FF
    let ep : HidRecord :=
      { dci := (addr &&& 0x0F) * 2 + 1
        iface := st.iface
        protocol := st.proto
        boot := st.boot
        reportDescLen := st.reportLen
        interval := xhciEpInterval speed interval
        maxPacket := if packet = 0 ∨ 64 < packet then 64 else packet }
    return { st with proto := 0, hid := st.hid ++ [ep] }
  else return st

/-- The body of the loop, on the record at `off`. -/
def parseRecord (speed : UInt8) (cfg : Nat → UInt8) (off : Nat) (len type : UInt8)
    (st : ParseState) : Logged Nat ParseState :=
  if type = 4 ∧ 9 ≤ len then parseInterface cfg off st
  else if type = 0x21 ∧ 9 ≤ len ∧ st.proto ≠ 0 then parseHid cfg off st
  else if type = 5 ∧ 7 ≤ len ∧ st.proto ≠ 0 then parseEndpoint speed cfg off st
  else pure st

/-- The loop of `xhci_parse_config`. -/
def parseLoop (speed : UInt8) (cfg : Nat → UInt8) (total off : Nat) (st : ParseState) :
    Logged Nat ParseState :=
  if off + 2 ≤ total then do
    let len ← readByte cfg off
    let type ← readByte cfg (off + 1)
    if h : len < 2 ∨ total < off + len.toNat then return st
    else do
      let st ← parseRecord speed cfg off len type st
      parseLoop speed cfg total (off + len.toNat) st
  else return st
termination_by total - off
decreasing_by
  have hlen : 2 ≤ len.toNat := UInt8.le_iff_toNat_le.mp (UInt8.not_lt.mp (not_or.mp h).1)
  omega

/-- `xhci_parse_config`, for a device that has no endpoints yet. -/
def xhciParseConfig (speed : UInt8) (cfg : Nat → UInt8) (total : Nat) : Logged Nat ParseState :=
  parseLoop speed cfg total 0 {}

/-- What `xhci_setup_device` makes of `wTotalLength`. -/
def configTotal (hdr : Nat → UInt8) : Nat := min (le16 (hdr 2) (hdr 3)).toNat 4096

/-- `xhci_setup_device`, from the header of the configuration to its value. -/
def setupConfig (speed : UInt8) (hdr cfg : Nat → UInt8) : Logged Nat (List HidRecord × UInt8) := do
  let st ← xhciParseConfig speed cfg (configTotal hdr)
  let value ← readByte cfg 5
  return (st.hid, value)

/-! ## Reads -/

variable {speed : UInt8} {cfg : Nat → UInt8} {total off : Nat} {st : ParseState}

theorem readByte_meets {off : Nat} {P : Nat → Prop} (h : P off) :
    (readByte cfg off).Meets P fun b => b = cfg off := by
  refine ⟨?_, rfl⟩
  intro i hi
  obtain rfl : i = off := by simpa [readByte, Logged.tell] using hi
  exact h

/-- **The body of the loop reads inside its record.** -/
theorem parseRecord_meets {len type : UInt8} :
    (parseRecord speed cfg off len type st).Meets (fun i => i < off + len.toNat)
      fun _ => True := by
  have hread : ∀ {k : Nat}, k < len.toNat →
      (readByte cfg (off + k)).Meets (fun i => i < off + len.toNat) fun _ => True :=
    fun hk => (readByte_meets (by omega)).mono fun _ _ => trivial
  have hpure : ∀ st : ParseState, (pure st : Logged Nat ParseState).Meets
      (fun i => i < off + len.toNat) fun _ => True := fun _ => .pure trivial
  unfold parseRecord
  split
  · next h =>
    have hlen : 9 ≤ len.toNat := by simpa [UInt8.le_iff_toNat_le] using h.2
    refine (hread (by omega)).bind fun _ _ => ?_
    split
    · exact hpure _
    refine (hread (by omega)).bind fun _ _ => ?_
    split
    · exact hpure _
    exact (hread (by omega)).bind fun _ _ => (hread (by omega)).bind fun _ _ =>
      (hread (by omega)).bind fun _ _ => hpure _
  split
  · next h =>
    have hlen : 9 ≤ len.toNat := by simpa [UInt8.le_iff_toNat_le] using h.2.1
    refine (hread (by omega)).bind fun _ _ => ?_
    split
    · exact hpure _
    exact (hread (by omega)).bind fun _ _ => (hread (by omega)).bind fun _ _ => hpure _
  split
  · next h =>
    have hlen : 7 ≤ len.toNat := by simpa [UInt8.le_iff_toNat_le] using h.2.1
    refine (hread (by omega)).bind fun _ _ => (hread (by omega)).bind fun _ _ => ?_
    split
    · exact (hread (by omega)).bind fun _ _ => (hread (by omega)).bind fun _ _ =>
        (hread (by omega)).bind fun _ _ => hpure _
    · exact hpure _
  · exact hpure _

/-- **The loop reads what was fetched.** -/
theorem parseLoop_meets :
    (parseLoop speed cfg total off st).Meets (fun i => i < total) fun _ => True := by
  induction off, st using parseLoop.induct total with
  | case1 off st h ih =>
    rw [parseLoop, if_pos h]
    refine (readByte_meets (by omega)).bind fun len _ => ?_
    refine (readByte_meets (by omega)).bind fun type _ => ?_
    split
    · exact .pure trivial
    next hlen =>
    obtain ⟨hlog, -⟩ := @parseRecord_meets speed cfg off st len type
    have hrecord : (parseRecord speed cfg off len type st).Meets (fun i => i < total)
        fun _ => True := ⟨fun i hi => (hlog i hi).trans_le (by omega), trivial⟩
    exact hrecord.bind fun st' _ => ih len hlen st'
  | case2 off st h =>
    rw [parseLoop, if_neg h]
    exact .pure trivial

/-! ## Records -/

/-- The records that the loop comes to. -/
def records (cfg : Nat → UInt8) (total off : Nat) : List Nat :=
  if off + 2 ≤ total then
    if h : cfg off < 2 ∨ total < off + (cfg off).toNat then []
    else off :: records cfg total (off + (cfg off).toNat)
  else []
termination_by total - off
decreasing_by
  have hlen : 2 ≤ (cfg off).toNat := UInt8.le_iff_toNat_le.mp (UInt8.not_lt.mp (not_or.mp h).1)
  omega

/-- An interface record. -/
def isInterface (cfg : Nat → UInt8) (r : Nat) : Bool := cfg (r + 1) == 4 && decide (9 ≤ cfg r)

/-- An interface record of a HID interface that the driver knows: its first setting, and a boot
interface if it is a keyboard. -/
def isHid (cfg : Nat → UInt8) (r : Nat) : Bool :=
  isInterface cfg r && cfg (r + 3) == 0 && cfg (r + 5) == 3 && (cfg (r + 7) != 1 || cfg (r + 6) == 1)

/-- The record of an interrupt endpoint to the host. -/
def isInterruptIn (cfg : Nat → UInt8) (r : Nat) : Bool :=
  cfg (r + 1) == 5 && decide (7 ≤ cfg r) && cfg (r + 2) &&& 0x80 != 0 && cfg (r + 3) &&& 3 == 3

/-- The number of an endpoint. -/
def endpointNumber (cfg : Nat → UInt8) (r : Nat) : UInt8 := cfg (r + 2) &&& 0x0F

/-- The nearest record in front that is an interface or an interrupt endpoint is a HID
interface. -/
def afterHid (cfg : Nat → UInt8) (front : List Nat) : Bool :=
  (front.reverse.find? fun r => isInterface cfg r || isInterruptIn cfg r).any (isHid cfg)

/-- The endpoints of HID interfaces: of each the first interrupt endpoint to the host. -/
def hidEndpoints (cfg : Nat → UInt8) (front : List Nat) : List Nat → List Nat
  | [] => []
  | r :: rest =>
      (if isInterruptIn cfg r && afterHid cfg front then [r] else []) ++
        hidEndpoints cfg (front ++ [r]) rest

@[simp] theorem afterHid_append (front : List Nat) (r : Nat) :
    afterHid cfg (front ++ [r]) =
      if isInterface cfg r || isInterruptIn cfg r then isHid cfg r else afterHid cfg front := by
  rw [afterHid, List.reverse_append, List.reverse_singleton, List.singleton_append,
    List.find?_cons]
  cases isInterface cfg r || isInterruptIn cfg r <;> rfl

theorem not_both (h : isInterface cfg off = true) : isInterruptIn cfg off = false := by
  simp only [isInterface, Bool.and_eq_true, beq_iff_eq] at h
  simp [isInterruptIn, h.1]

/-- The index of an endpoint. -/
def dciOf (cfg : Nat → UInt8) (r : Nat) : UInt8 := endpointNumber cfg r * 2 + 1

@[simp] theorem value_readByte : (readByte cfg off).value = cfg off := rfl

theorem parseInterface_value :
    (parseInterface cfg off st).value.hid = st.hid ∧
      ((parseInterface cfg off st).value.proto ≠ 0 ↔
        cfg (off + 3) = 0 ∧ cfg (off + 5) = 3 ∧ (cfg (off + 7) ≠ 1 ∨ cfg (off + 6) = 1)) := by
  unfold parseInterface
  by_cases h3 : cfg (off + 3) = 0
  · by_cases h5 : cfg (off + 5) = 3
    · simp [h3, h5]
      grind
    · simp [h3, h5]
  · simp [h3]

theorem parseHid_value :
    (parseHid cfg off st).value.hid = st.hid ∧ (parseHid cfg off st).value.proto = st.proto := by
  unfold parseHid
  by_cases h6 : cfg (off + 6) = 0x22 <;> simp [h6]

theorem parseEndpoint_value (h : cfg (off + 2) &&& 0x80 ≠ 0 ∧ cfg (off + 3) &&& 3 = 3 ∧
    st.hid.length < xhciMaxHidEps) :
    (parseEndpoint speed cfg off st).value.hid.map HidRecord.dci =
        st.hid.map HidRecord.dci ++ [dciOf cfg off] ∧
      (parseEndpoint speed cfg off st).value.proto = 0 := by
  unfold parseEndpoint
  simp only [Logged.value_bind]
  have hread : (readByte cfg (off + 2)).value &&& 0x80 ≠ 0 ∧
      (readByte cfg (off + 3)).value &&& 3 = 3 ∧ st.hid.length < xhciMaxHidEps := h
  rw [if_pos hread]
  simp [dciOf, endpointNumber]

theorem parseEndpoint_other (h : ¬(cfg (off + 2) &&& 0x80 ≠ 0 ∧ cfg (off + 3) &&& 3 = 3 ∧
    st.hid.length < xhciMaxHidEps)) : (parseEndpoint speed cfg off st).value = st :=
  congrArg Logged.value (if_neg h)

/-- What the body of the loop does to the endpoints and to the protocol at hand. -/
theorem parseRecord_value {front : List Nat} (hopen : st.hid.length < xhciMaxHidEps →
      (st.proto ≠ 0 ↔ afterHid cfg front = true)) :
    (parseRecord speed cfg off (cfg off) (cfg (off + 1)) st).value.hid.map HidRecord.dci =
        st.hid.map HidRecord.dci ++
          (if isInterruptIn cfg off && afterHid cfg front then [dciOf cfg off] else []).take
            (xhciMaxHidEps - st.hid.length) ∧
      ((parseRecord speed cfg off (cfg off) (cfg (off + 1)) st).value.hid.length < xhciMaxHidEps →
        ((parseRecord speed cfg off (cfg off) (cfg (off + 1)) st).value.proto ≠ 0 ↔
          afterHid cfg (front ++ [off]) = true)) := by
  unfold parseRecord
  rw [afterHid_append]
  by_cases hface : isInterface cfg off = true
  · have hnot := not_both hface
    have hif : cfg (off + 1) = 4 ∧ 9 ≤ cfg off := by simpa [isInterface] using hface
    obtain ⟨hhid, hproto⟩ := @parseInterface_value cfg off st
    rw [if_pos hif, hhid]
    refine ⟨by simp [hnot], fun _ => ?_⟩
    simp [isHid, hface]
    tauto
  · have hnotface : isInterface cfg off = false := by simpa using hface
    have hif : ¬(cfg (off + 1) = 4 ∧ 9 ≤ cfg off) := by simpa [isInterface] using hface
    have hnothid : isHid cfg off = false := by simp [isHid, hnotface]
    rw [if_neg hif, hnotface, Bool.false_or, hnothid]
    by_cases hreport : cfg (off + 1) = 0x21 ∧ 9 ≤ cfg off ∧ st.proto ≠ 0
    · have hnot : isInterruptIn cfg off = false := by simp [isInterruptIn, hreport.1]
      obtain ⟨hhid, hproto⟩ := @parseHid_value cfg off st
      rw [if_pos hreport, hhid, hproto, hnot]
      exact ⟨by simp, by simpa using hopen⟩
    rw [if_neg hreport]
    by_cases hend : cfg (off + 1) = 5 ∧ 7 ≤ cfg off ∧ st.proto ≠ 0
    · have hkind : isInterruptIn cfg off = true ↔
          cfg (off + 2) &&& 0x80 ≠ 0 ∧ cfg (off + 3) &&& 3 = 3 := by
        simp [isInterruptIn, hend.1, hend.2.1]
      rw [if_pos hend]
      by_cases hroom : st.hid.length < xhciMaxHidEps
      · have hafter := (hopen hroom).mp hend.2.2
        by_cases hin : isInterruptIn cfg off = true
        · obtain ⟨hhid, hproto⟩ := @parseEndpoint_value speed cfg off st
            ⟨(hkind.mp hin).1, (hkind.mp hin).2, hroom⟩
          have htake : [dciOf cfg off].take (xhciMaxHidEps - st.hid.length) = [dciOf cfg off] :=
            List.take_of_length_le (by rw [List.length_singleton]; omega)
          rw [hhid, hproto]
          simp [hin, hafter, htake]
        · have hno : ¬(cfg (off + 2) &&& 0x80 ≠ 0 ∧ cfg (off + 3) &&& 3 = 3 ∧
              st.hid.length < xhciMaxHidEps) := fun h => hin (hkind.mpr ⟨h.1, h.2.1⟩)
          rw [parseEndpoint_other hno]
          simp [hin, hafter, hend.2.2]
      · have hfull : xhciMaxHidEps - st.hid.length = 0 := by omega
        rw [parseEndpoint_other fun h => hroom h.2.2]
        simp [hfull, hroom]
    · rw [if_neg hend]
      by_cases hin : isInterruptIn cfg off = true
      · have hif : cfg (off + 1) = 5 ∧ 7 ≤ cfg off := by
          simp only [isInterruptIn, Bool.and_eq_true, beq_iff_eq, decide_eq_true_eq] at hin
          exact hin.1.1
        have hzero : st.proto = 0 := by
          by_contra hne
          exact hend ⟨hif.1, hif.2, hne⟩
        by_cases hroom : st.hid.length < xhciMaxHidEps
        · have hafter : ¬afterHid cfg front = true := fun h => (hopen hroom).mpr h hzero
          simp [hin, hafter, hzero]
        · have hfull : xhciMaxHidEps - st.hid.length = 0 := by omega
          simp [hfull, hroom]
      · simp [hin]
        simpa using hopen

theorem parseLoop_round (h : off + 2 ≤ total) :
    (parseLoop speed cfg total off st).value =
      if cfg off < 2 ∨ total < off + (cfg off).toNat then st
      else (parseLoop speed cfg total (off + (cfg off).toNat)
        (parseRecord speed cfg off (cfg off) (cfg (off + 1)) st).value).value := by
  rw [parseLoop, if_pos h]
  by_cases hlen : cfg off < 2 ∨ total < off + (cfg off).toNat
  · rw [if_pos hlen]
    exact congrArg Logged.value (dif_pos hlen)
  · have hread : ¬((readByte cfg off).value < 2 ∨
        total < off + (readByte cfg off).value.toNat) := hlen
    rw [if_neg hlen]
    simp only [Logged.value_bind]
    rw [dif_neg hread]
    rfl

/-- **The loop records the HID endpoints**, as far as there is room. -/
theorem parseLoop_value {front : List Nat} (hopen : st.hid.length < xhciMaxHidEps →
      (st.proto ≠ 0 ↔ afterHid cfg front = true)) :
    (parseLoop speed cfg total off st).value.hid.map HidRecord.dci =
      st.hid.map HidRecord.dci ++
        ((hidEndpoints cfg front (records cfg total off)).map (dciOf cfg)).take
          (xhciMaxHidEps - st.hid.length) := by
  induction off, st using parseLoop.induct total generalizing front with
  | case1 off st h ih =>
    rw [parseLoop_round h, records, if_pos h]
    by_cases hlen : cfg off < 2 ∨ total < off + (cfg off).toNat
    · rw [if_pos hlen, dif_pos hlen]
      simp [hidEndpoints]
    rw [if_neg hlen, dif_neg hlen]
    obtain ⟨hhid, hnext⟩ := @parseRecord_value speed cfg off st front hopen
    have hrest := ih (cfg off) hlen _ hnext
    have hcount := congrArg List.length hhid
    simp only [List.length_map, List.length_append, List.length_take] at hcount
    rw [hrest, hhid, hidEndpoints, List.map_append, List.append_assoc, List.take_append, hcount]
    congr 2
    · split <;> simp
    · congr 1
      split <;> simp
      omega
  | case2 off st h =>
    rw [parseLoop, if_neg h, records, if_neg h]
    simp [hidEndpoints]

/-! ## Indices -/

/-- The numbers of the HID endpoints that there is room for. -/
def hidNumbers (cfg : Nat → UInt8) (total : Nat) : List UInt8 :=
  ((hidEndpoints cfg [] (records cfg total 0)).take xhciMaxHidEps).map (endpointNumber cfg)

theorem toNat_dciOf (r : Nat) :
    (endpointNumber cfg r).toNat < 16 ∧
      (dciOf cfg r).toNat = 2 * (endpointNumber cfg r).toNat + 1 := by
  have hsmall : (endpointNumber cfg r).toNat < 16 := by
    have hand : (endpointNumber cfg r).toNat = (cfg (r + 2)).toNat % 2 ^ 4 := by
      exact Nat.and_two_pow_sub_one_eq_mod _ 4
    omega
  have hmul : (endpointNumber cfg r * 2).toNat = (endpointNumber cfg r).toNat * 2 % 256 :=
    UInt8.toNat_mul _ 2
  have hadd : (endpointNumber cfg r * 2 + 1).toNat =
      ((endpointNumber cfg r * 2).toNat + 1) % 256 := UInt8.toNat_add _ 1
  rw [dciOf]
  omega

theorem dciOf_ne_iff (r r' : Nat) :
    dciOf cfg r ≠ dciOf cfg r' ↔ endpointNumber cfg r ≠ endpointNumber cfg r' := by
  have h := @toNat_dciOf cfg r
  have h' := @toNat_dciOf cfg r'
  rw [ne_eq, ne_eq, ← UInt8.toNat_inj, ← UInt8.toNat_inj]
  omega

theorem dciOf_range_iff (r : Nat) :
    (2 ≤ dciOf cfg r ∧ dciOf cfg r ≤ 31) ↔ endpointNumber cfg r ≠ 0 := by
  obtain ⟨hsmall, hdci⟩ := @toNat_dciOf cfg r
  have hzero : endpointNumber cfg r = 0 ↔ (endpointNumber cfg r).toNat = 0 := by
    rw [← UInt8.toNat_inj]
    rfl
  rw [UInt8.le_iff_toNat_le, UInt8.le_iff_toNat_le, ne_eq, hzero, hdci]
  simp only [UInt8.reduceToNat]
  omega

theorem parseConfig_dci :
    (xhciParseConfig speed cfg total).value.hid.map HidRecord.dci =
      ((hidEndpoints cfg [] (records cfg total 0)).take xhciMaxHidEps).map (dciOf cfg) := by
  have hvalue := @parseLoop_value speed cfg total 0 {} [] fun _ => by simp [afterHid]
  rw [xhciParseConfig, hvalue, List.map_take]
  rfl

theorem parseConfig_length :
    (xhciParseConfig speed cfg total).value.hid.length ≤ xhciMaxHidEps := by
  have hlen := congrArg List.length (@parseConfig_dci speed cfg total)
  rw [List.length_map, List.length_map, List.length_take] at hlen
  omega

/-- What a configuration must not do to the driver: no read behind the fetched bytes, not too
many endpoints, and each with an index of its own that is not that of the control endpoint. -/
structure ConfigSafe (speed : UInt8) (hdr cfg : Nat → UInt8) : Prop where
  reads : ∀ i ∈ (setupConfig speed hdr cfg).log, i < configTotal hdr
  count : (setupConfig speed hdr cfg).value.1.length ≤ xhciMaxHidEps
  apart : ((setupConfig speed hdr cfg).value.1.map HidRecord.dci).Nodup
  range : ∀ ep ∈ (setupConfig speed hdr cfg).value.1, 2 ≤ ep.dci ∧ ep.dci ≤ 31

theorem setupConfig_log (speed : UInt8) (hdr cfg : Nat → UInt8) :
    (setupConfig speed hdr cfg).log =
      (xhciParseConfig speed cfg (configTotal hdr)).log ++ [5] := by
  simp [setupConfig, readByte, Logged.tell]

/-- **USB configurations.**  Whatever a device returns, `xhci_parse_config` ends, reads the
fetched bytes only and records no more endpoints than there is room for.  All of the
configuration is safe exactly if six bytes are fetched, and the first HID endpoints that there
is room for have different numbers and none has the number 0. -/
theorem usb_config_safe_iff (speed : UInt8) (hdr cfg : Nat → UInt8) :
    (∀ i ∈ (xhciParseConfig speed cfg (configTotal hdr)).log, i < configTotal hdr) ∧
      (xhciParseConfig speed cfg (configTotal hdr)).value.hid.length ≤ xhciMaxHidEps ∧
      (ConfigSafe speed hdr cfg ↔
        6 ≤ configTotal hdr ∧ (hidNumbers cfg (configTotal hdr)).Nodup ∧
          0 ∉ hidNumbers cfg (configTotal hdr)) := by
  have hreads := (@parseLoop_meets speed cfg (configTotal hdr) 0 {}).1
  have hlen := @parseConfig_length speed cfg (configTotal hdr)
  have hdci := @parseConfig_dci speed cfg (configTotal hdr)
  refine ⟨hreads, hlen, ?_⟩
  have happart : ((setupConfig speed hdr cfg).value.1.map HidRecord.dci).Nodup ↔
      (hidNumbers cfg (configTotal hdr)).Nodup := by
    change ((xhciParseConfig speed cfg (configTotal hdr)).value.hid.map HidRecord.dci).Nodup ↔ _
    rw [hdci, hidNumbers]
    unfold List.Nodup
    rw [List.pairwise_map, List.pairwise_map]
    exact List.Pairwise.iff fun r r' => dciOf_ne_iff r r'
  have hrange : (∀ ep ∈ (setupConfig speed hdr cfg).value.1, 2 ≤ ep.dci ∧ ep.dci ≤ 31) ↔
      0 ∉ hidNumbers cfg (configTotal hdr) := by
    have hall : (∀ ep ∈ (setupConfig speed hdr cfg).value.1, 2 ≤ ep.dci ∧ ep.dci ≤ 31) ↔
        ∀ d ∈ (xhciParseConfig speed cfg (configTotal hdr)).value.hid.map HidRecord.dci,
          2 ≤ d ∧ d ≤ 31 := by
      rw [List.forall_mem_map]
      rfl
    rw [hall, hdci, List.forall_mem_map, hidNumbers]
    simp only [dciOf_range_iff, List.mem_map, not_exists, not_and]
  constructor
  · intro h
    have hfive := h.reads 5 (by rw [setupConfig_log]; simp)
    exact ⟨hfive, happart.mp h.apart, hrange.mp h.range⟩
  · rintro ⟨hsix, hnodup, hzero⟩
    refine ⟨?_, hlen, happart.mpr hnodup, hrange.mpr hzero⟩
    intro i hi
    rcases List.mem_append.mp hi with hi | hi
    · exact hreads i hi
    · rw [List.mem_singleton.mp hi]
      exact hsix

/-- The bytes of a device. -/
def bytesOf (l : List UInt8) (i : Nat) : UInt8 := l.getD i 0

/-- A configuration with a mouse whose endpoint has the number 0. -/
def mouseAtZero : List UInt8 :=
  [9, 2, 25, 0, 1, 1, 0, 0xA0, 50, 9, 4, 0, 0, 1, 3, 1, 2, 0, 7, 5, 0x80, 3, 8, 0, 10]

theorem records_mouseAtZero : records (bytesOf mouseAtZero) 25 0 = [0, 9, 18] := by
  have hstep : ∀ off len : Nat, off + 2 ≤ 25 → (bytesOf mouseAtZero off).toNat = len → 2 ≤ len →
      off + len ≤ 25 → records (bytesOf mouseAtZero) 25 off =
        off :: records (bytesOf mouseAtZero) 25 (off + len) := by
    intro off len hoff hlen htwo hin
    have hgood : ¬(bytesOf mouseAtZero off < 2 ∨ 25 < off + (bytesOf mouseAtZero off).toNat) := by
      rw [UInt8.lt_iff_toNat_lt, hlen]
      simp only [UInt8.reduceToNat]
      omega
    rw [records, if_pos hoff, dif_neg hgood, hlen]
  rw [hstep 0 9 (by decide) (by decide) (by decide) (by decide),
    hstep 9 9 (by decide) (by decide) (by decide) (by decide),
    hstep 18 7 (by decide) (by decide) (by decide) (by decide), records, if_neg (by decide)]

/-- Its endpoint is recorded under the index of the control endpoint. -/
theorem mouseAtZero_not_safe : ¬ConfigSafe 1 (bytesOf mouseAtZero) (bytesOf mouseAtZero) := by
  intro h
  have hdci := @parseConfig_dci 1 (bytesOf mouseAtZero) 25
  rw [records_mouseAtZero] at hdci
  have hone : (1 : UInt8) ∈ (xhciParseConfig 1 (bytesOf mouseAtZero) 25).value.hid.map
      HidRecord.dci := by
    rw [hdci]
    decide
  obtain ⟨ep, hep, hindex⟩ := List.mem_map.mp hone
  have hrange := (h.range ep hep).1
  rw [hindex] at hrange
  exact absurd hrange (by decide)

end Usb
