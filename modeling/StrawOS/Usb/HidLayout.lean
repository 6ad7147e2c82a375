import Mathlib.Data.UInt
import StrawOS.Lib.Logged

/-!
# Report descriptors of mice

`usb_hid_parse_mouse_layout` interprets a report descriptor: a string of short items with
global and local state, in nested collections.  Every input item takes its bits of the
report that is current, and the first relative X, Y and wheel in a mouse collection, and
the first button 1, become the layout; the report of X is the report of the mouse.

`HidState` is what the items set, without what the layout makes of it.  Reads of the
descriptor and accesses to the array of usages are logged; what is behind that array in
memory is the parameter `stray`.
-/

namespace Usb.Hid

structure UsbHidField where
  offset : UInt16 := 0
  size : UInt8 := 0
  isSigned : Bool := false
  deriving DecidableEq

structure UsbHidMouseLayout where
  reportId : UInt8 := 0
  x : UsbHidField := {}
  y : UsbHidField := {}
  wheel : UsbHidField := {}
  buttonsOffset : UInt16 := 0
  buttonsCount : UInt8 := 0

def hidMaxUsages : Nat := 16

def hidUsage (page id : UInt32) : UInt32 := (page <<< 16) ||| id

/-- An access: a byte of the descriptor, or an element of `usages`. -/
inductive Access
  | desc (i : Nat)
  | usages (i : Int)

/-- An item of the descriptor. -/
structure Item where
  size : Nat
  type : UInt8
  tag : UInt8
  data : UInt32
  sdata : Int

/-- The state that items set. -/
structure HidState where
  usagePage : UInt32 := 0
  reportSize : UInt32 := 0
  reportCount : UInt32 := 0
  logicalMin : Int := 0
  reportId : UInt8 := 0
  usesReportIds : Bool := false
  usages : List UInt32 := []
  usageMin : UInt32 := 0
  usageMax : UInt32 := 0
  haveRange : Bool := false
  depth : Int := 0
  mouseDepth : Int := -1

/-- What becomes of it. -/
structure LayoutState where
  bitOffsets : UInt8 → UInt16 := fun _ => 0
  locked : Bool := false
  out : UsbHidMouseLayout := {}

/-! ## Items -/

/-- A global item. -/
def globalItem (h : HidState) (it : Item) : HidState :=
  if it.tag = 0x0 then { h with usagePage := it.data }
  else if it.tag = 0x1 then { h with logicalMin := it.sdata }
  else if it.tag = 0x7 then { h with reportSize := it.data }
  else if it.tag = 0x9 then { h with reportCount := it.data }
  else if it.tag = 0x8 then { h with reportId := it.data.toUInt8, usesReportIds := true }
  else h

/-- A local item. -/
def localItem (h : HidState) (it : Item) : HidState :=
  let usage := if it.size = 4 then it.data else hidUsage h.usagePage it.data
  if it.tag = 0x0 then
    if h.usages.length < hidMaxUsages then { h with usages := h.usages ++ [usage] } else h
  else if it.tag = 0x1 then { h with usageMin := usage, haveRange := true }
  else if it.tag = 0x2 then { h with usageMax := usage, haveRange := true }
  else h

/-- A collection starts, with the first usage if it is looked at. -/
def startCollection (h : HidState) (mouse : Bool) : HidState :=
  { h with depth := h.depth + 1, mouseDepth := if mouse then h.depth + 1 else h.mouseDepth }

/-- A collection ends. -/
def endCollection (h : HidState) : HidState :=
  { h with
    mouseDepth := if h.depth = h.mouseDepth then -1 else h.mouseDepth
    depth := if 0 < h.depth then h.depth - 1 else h.depth }

/-- The local state ends with each main item. -/
def clearLocals (h : HidState) : HidState :=
  { h with usages := [], haveRange := false, usageMin := 0, usageMax := 0 }

/-- `usages[i]`. -/
def readUsage (stray : Int → UInt32) (h : HidState) (i : Int) : Logged Access UInt32 := do
  Logged.tell (.usages i)
  pure (if 0 ≤ i ∧ i < h.usages.length then h.usages.getD i.toNat 0 else stray i)

/-- The field at `f` of an input item. -/
def fieldAt (h : HidState) (base : UInt16) (f : Nat) : UsbHidField where
  offset := .ofNat (base.toNat + f * h.reportSize.toNat)
  size := h.reportSize.toUInt8
  isSigned := decide (h.logicalMin < 0)

/-- The body of the loop over the fields of an input item. -/
def placeField (h : HidState) (data : UInt32) (base : UInt16) (f : Nat) (usage : UInt32)
    (l : LayoutState) : LayoutState :=
  let relative := data &&& 4 != 0
  if usage = hidUsage 1 0x30 ∧ relative ∧ l.out.x.size = 0 then
    { l with
      out := { l.out with
        x := fieldAt h base f
        reportId := if h.usesReportIds then h.reportId else 0 }
      locked := true }
  else if usage = hidUsage 1 0x31 ∧ relative ∧ l.out.y.size = 0 then
    { l with out := { l.out with y := fieldAt h base f } }
  else if usage = hidUsage 1 0x38 ∧ relative ∧ l.out.wheel.size = 0 then
    { l with out := { l.out with wheel := fieldAt h base f } }
  else if usage >>> 16 = 9 ∧ usage &&& 0xFFFF = 1 ∧ h.reportSize = 1 ∧ l.out.buttonsCount = 0 then
    { l with out := { l.out with
        buttonsOffset := (fieldAt h base f).offset
        buttonsCount := .ofNat (min (h.reportCount.toNat - f) 3) } }
  else l

/-- The loop over the `n` fields from `f` on. -/
def fieldLoop (stray : Int → UInt32) (h : HidState) (data : UInt32) (base : UInt16) :
    Nat → Nat → LayoutState → Logged Access LayoutState
  | 0, _, l => pure l
  | n + 1, f, l =>
      if h.haveRange then
        fieldLoop stray h data base n (f + 1) (placeField h data base f (h.usageMin + .ofNat f) l)
      else if 0 < h.usages.length then do
        let k := (UInt32.ofNat f).toInt32.toInt
        let usage ← readUsage stray h (if k < h.usages.length then k else h.usages.length - 1)
        fieldLoop stray h data base n (f + 1) (placeField h data base f usage l)
      else pure l

/-- An input item whose fields may be those of a mouse. -/
def wanted (h : HidState) (data : UInt32) : Bool :=
  decide (0 ≤ h.mouseDepth) && data &&& 2 != 0 && data &&& 1 == 0 &&
    decide (0 < h.reportSize) && decide (h.reportSize ≤ 32)

/-- An input item. -/
def inputItem (stray : Int → UInt32) (h : HidState) (data : UInt32) (l : LayoutState) :
    Logged Access LayoutState :=
  let base := l.bitOffsets h.reportId
  let next := .ofNat (base.toNat + h.reportSize.toNat * h.reportCount.toNat)
  let l := { l with bitOffsets := Function.update l.bitOffsets h.reportId next }
  if wanted h data && (!l.locked || h.reportId == l.out.reportId) then
    fieldLoop stray h data base h.reportCount.toNat 0 l
  else pure l

/-- The body of the loop over the items. -/
def hidItem (stray : Int → UInt32) (st : HidState × LayoutState) (it : Item) :
    Logged Access (HidState × LayoutState) := do
  let (h, l) := st
  if it.type = 1 then return (globalItem h it, l)
  else if it.type = 2 then
    if it.tag = 0x0 ∧ h.usages.length < hidMaxUsages then
      Logged.tell (.usages h.usages.length)
    return (localItem h it, l)
  else if it.type = 0 then
    if it.tag = 0xA then
      if it.data = 1 ∧ h.mouseDepth < 0 ∧ 0 < h.usages.length then
        let usage ← readUsage stray h 0
        return (clearLocals (startCollection h (usage == hidUsage 1 2)), l)
      else return (clearLocals (startCollection h false), l)
    else if it.tag = 0xC then return (clearLocals (endCollection h), l)
    else if it.tag = 0x8 then
      let l ← inputItem stray h it.data l
      return (clearLocals h, l)
    else return (clearLocals h, l)
  else return (h, l)

/-! ## The descriptor -/

def readDesc (desc : Nat → UInt8) (i : Nat) : Logged Access UInt8 := do
  Logged.tell (.desc i)
  pure (desc i)

/-- The size of an item's data. -/
def itemSize (pre : UInt8) : Nat := if pre &&& 3 = 3 then 4 else (pre &&& 3).toNat

/-- The data of an item. -/
def itemData (desc : Nat → UInt8) (i size : Nat) : Logged Access UInt32 :=
  (List.range size).foldlM (fun data b => do
    let byte ← readDesc desc (i + b)
    return data ||| (byte.toUInt32 <<< (.ofNat (8 * b)))) 0

/-- The data as a signed number. -/
def signedData (size : Nat) (data : UInt32) : Int :=
  if size = 1 then data.toUInt8.toInt8.toInt
  else if size = 2 then data.toUInt16.toInt16.toInt
  else data.toInt32.toInt

/-- The loop of `usb_hid_parse_mouse_layout`. -/
def layoutLoop (stray : Int → UInt32) (desc : Nat → UInt8) (len i : Nat)
    (st : HidState × LayoutState) : Logged Access (HidState × LayoutState) :=
  if i < len then do
    let pre ← readDesc desc i
    if pre = 0xFE then
      if len ≤ i + 2 then return st
      else do
        let n ← readDesc desc (i + 1)
        layoutLoop stray desc len (i + 1 + (2 + n.toNat)) st
    else if len < i + 1 + itemSize pre then return st
    else do
      let data ← itemData desc (i + 1) (itemSize pre)
      let st ← hidItem stray st ⟨itemSize pre, (pre >>> 2) &&& 3, pre >>> 4, data,
        signedData (itemSize pre) data⟩
      layoutLoop stray desc len (i + 1 + itemSize pre) st
  else return st
termination_by len - i

def usbHidParseMouseLayout (stray : Int → UInt32) (desc : Nat → UInt8) (len : Nat) :
    Logged Access (Bool × UsbHidMouseLayout) := do
  let (_, l) ← layoutLoop stray desc len 0 ({}, {})
  return (l.out.x.size != 0 && l.out.y.size != 0, l.out)

end Usb.Hid

/-!
# The fields of a report descriptor

What a report descriptor says, without the layout: its items, and its input items with the
state that is in force there.  The parser of the layout is a walk over the input items.
-/

namespace Usb.Hid

variable {stray : Int → UInt32} {desc : Nat → UInt8} {len i : Nat}

/-- An access inside its array. -/
def Access.InBounds (len : Nat) : Access → Prop
  | .desc i => i < len
  | .usages i => 0 ≤ i ∧ i < hidMaxUsages

/-! ## Items -/

/-- The data of an item, as a number. -/
def dataAt (desc : Nat → UInt8) (i size : Nat) : UInt32 :=
  (List.range size).foldl (fun data b => data ||| ((desc (i + b)).toUInt32 <<< (.ofNat (8 * b)))) 0

/-- The item at `i`. -/
def itemAt (desc : Nat → UInt8) (i : Nat) : Item :=
  let size := itemSize (desc i)
  let data := dataAt desc (i + 1) size
  ⟨size, (desc i >>> 2) &&& 3, desc i >>> 4, data, signedData size data⟩

/-- The items that the loop comes to. -/
def items (desc : Nat → UInt8) (len i : Nat) : List Item :=
  if i < len then
    if desc i = 0xFE then
      if len ≤ i + 2 then [] else items desc len (i + 1 + (2 + (desc (i + 1)).toNat))
    else if len < i + 1 + itemSize (desc i) then []
    else itemAt desc i :: items desc len (i + 1 + itemSize (desc i))
  else []
termination_by len - i

@[simp] theorem value_readDesc : (readDesc desc i).value = desc i := rfl

@[simp] theorem safe_readDesc :
    (readDesc desc i).Safe (Access.InBounds len) ↔ i < len := by
  simp [readDesc, Access.InBounds]

theorem value_itemData (i size : Nat) : (itemData desc i size).value = dataAt desc i size := by
  rw [itemData, Logged.value_foldlM, dataAt]
  rfl

theorem safe_itemData {size : Nat} (h : i + size ≤ len) :
    (itemData desc i size).Safe (Access.InBounds len) := by
  have hmeets := @Logged.Meets.foldlM Access UInt32 (Access.InBounds len) (fun _ => True) Nat
    (List.range size) (fun data b => do
      let byte ← readDesc desc (i + b)
      return data ||| (byte.toUInt32 <<< (.ofNat (8 * b)))) 0 trivial ?_
  · exact hmeets.1
  · intro data _ b hb
    have hlt := List.mem_range.mp hb
    refine ⟨?_, trivial⟩
    have hsafe : (readDesc desc (i + b)).Safe (Access.InBounds len) :=
      safe_readDesc.mpr (by omega)
    exact (Logged.safe_bind _ _).mpr ⟨hsafe, Logged.safe_pure _⟩

/-- **The loop is a walk over the items.** -/
theorem layoutLoop_items (st : HidState × LayoutState) :
    (layoutLoop stray desc len i st).value =
        ((items desc len i).foldlM (hidItem stray) st).value ∧
      ((layoutLoop stray desc len i st).Safe (Access.InBounds len) ↔
        ((items desc len i).foldlM (hidItem stray) st).Safe (Access.InBounds len)) := by
  induction i, st using layoutLoop.induct len with
  | case1 i st hi ihLong ihShort =>
    rw [layoutLoop, if_pos hi, items, if_pos hi]
    by_cases hlong : desc i = 0xFE
    · by_cases hend : len ≤ i + 2
      · simp [hlong, hend, hi]
      · obtain ⟨hvalue, hsafe⟩ := ihLong hend (desc (i + 1))
        have hnext : i + 1 < len := by omega
        simp [hlong, hend, hi, hvalue, hsafe, hnext]
    · by_cases hend : len < i + 1 + itemSize (desc i)
      · simp [hlong, hend, hi]
      · have hdata : (itemData desc (i + 1) (itemSize (desc i))).Safe (Access.InBounds len) :=
          safe_itemData (Nat.le_of_not_lt hend)
        obtain ⟨hvalue, hsafe⟩ := ihShort (desc i) hend (hidItem stray st (itemAt desc i)).value
        simp only [itemAt] at hvalue hsafe
        simp [hlong, hend, hi, hvalue, hsafe, hdata, value_itemData, itemAt]
  | case2 i st hi =>
    rw [layoutLoop, if_neg hi, items, if_neg hi]
    simp

/-! ## Input items -/

/-- An input item: the state in force, its flags, and the bits of its report before it. -/
structure Input where
  h : HidState
  data : UInt32
  start : Nat

/-- The bits of an input item. -/
def bits (h : HidState) : Nat := h.reportSize.toNat * h.reportCount.toNat

/-- The bits of a report, after the input items of `past`. -/
def startOf (past : List HidState) (r : UInt8) : Nat :=
  ((past.filter (·.reportId == r)).map bits).sum

theorem startOf_append (past : List HidState) (h : HidState) (r : UInt8) :
    startOf (past ++ [h]) r = startOf past r + if h.reportId = r then bits h else 0 := by
  by_cases hid : h.reportId = r
  · simp [startOf, hid]
  · simp [startOf, hid]

/-- The state after an item. -/
def hidStep (h : HidState) (it : Item) : HidState :=
  if it.type = 1 then globalItem h it
  else if it.type = 2 then localItem h it
  else if it.type = 0 then
    if it.tag = 0xA then
      clearLocals (startCollection h
        (decide (it.data = 1 ∧ h.mouseDepth < 0 ∧ h.usages.head? = some (hidUsage 1 2))))
    else if it.tag = 0xC then clearLocals (endCollection h)
    else clearLocals h
  else h

def Item.isInput (it : Item) : Bool := it.type == 0 && it.tag == 0x8

/-- The input items, after those of `past`. -/
def inputsFrom (past : List HidState) (h : HidState) : List Item → List Input
  | [] => []
  | it :: rest =>
      if it.isInput then
        ⟨h, it.data, startOf past h.reportId⟩ :: inputsFrom (past ++ [h]) (hidStep h it) rest
      else inputsFrom past (hidStep h it) rest

/-- The input items of a descriptor. -/
def inputs (desc : Nat → UInt8) (len : Nat) : List Input := inputsFrom [] {} (items desc len 0)

/-- What items keep: the usages are in their array, and there is no report id unless one was
given. -/
structure HidState.Ok (h : HidState) : Prop where
  usages : h.usages.length ≤ hidMaxUsages
  reportId : h.usesReportIds = false → h.reportId = 0

theorem HidState.Ok.step {h : HidState} (hok : h.Ok) (it : Item) : (hidStep h it).Ok := by
  obtain ⟨husages, hid⟩ := hok
  have hclear : ∀ h' : HidState, h'.usesReportIds = h.usesReportIds → h'.reportId = h.reportId →
      (clearLocals h').Ok := by
    intro h' huses' hid'
    refine ⟨Nat.zero_le _, ?_⟩
    intro huses
    exact hid'.trans (hid (huses'.symm.trans huses))
  unfold hidStep
  split
  · unfold globalItem
    split_ifs
    · exact ⟨husages, hid⟩
    · exact ⟨husages, hid⟩
    · exact ⟨husages, hid⟩
    · exact ⟨husages, hid⟩
    · exact ⟨husages, fun huses => nomatch huses⟩
    · exact ⟨husages, hid⟩
  · split
    · simp only [localItem]
      have hmore : h.usages.length < hidMaxUsages →
          ∀ u : UInt32, (h.usages ++ [u]).length ≤ hidMaxUsages := by
        intro hroom u
        rw [List.length_append]
        exact hroom
      split_ifs
      all_goals first | exact ⟨husages, hid⟩ | exact ⟨hmore ‹_› _, hid⟩
    · split
      · split
        · exact hclear _ rfl rfl
        · split
          · exact hclear _ rfl rfl
          · exact hclear _ rfl rfl
      · exact ⟨husages, hid⟩

/-- An input item takes its part in the layout. -/
def takeInput (stray : Int → UInt32) (l : LayoutState) (x : Input) : Logged Access LayoutState :=
  inputItem stray x.h x.data l

/-- **An item** changes the state by itself, and the layout if it is an input item. -/
theorem hidItem_step (h : HidState) (l : LayoutState) (it : Item) :
    (hidItem stray (h, l) it).value =
        (hidStep h it, if it.isInput then (inputItem stray h it.data l).value else l) ∧
      ((hidItem stray (h, l) it).Safe (Access.InBounds len) ↔
        (it.isInput → (inputItem stray h it.data l).Safe (Access.InBounds len))) := by
  by_cases hglobal : it.type = 1
  · simp [hidItem, hidStep, Item.isInput, hglobal]
  by_cases hlocal : it.type = 2
  · by_cases hroom : it.tag = 0 ∧ h.usages.length < hidMaxUsages
    · simp [hidItem, hidStep, Item.isInput, hlocal, hroom, Access.InBounds]
    · simp [hidItem, hidStep, Item.isInput, hlocal, hroom]
  by_cases hmain : it.type = 0
  · by_cases hcollection : it.tag = 0xA
    · by_cases hlook : it.data = 1 ∧ h.mouseDepth < 0 ∧ 0 < h.usages.length
      · obtain ⟨u, us, hus⟩ := List.exists_cons_of_length_pos hlook.2.2
        simp [hidItem, hidStep, Item.isInput, hmain, hcollection, hlook, hus, readUsage,
          Access.InBounds, hidMaxUsages, beq_eq_decide]
      · have hno : ¬ (it.data = 1 ∧ h.mouseDepth < 0 ∧ h.usages.head? = some (hidUsage 1 2)) := by
          rintro ⟨hdata, hdepth, hhead⟩
          exact hlook ⟨hdata, hdepth, List.length_pos_of_mem (List.mem_of_mem_head? hhead)⟩
        simp [hidItem, hidStep, Item.isInput, hmain, hcollection, hlook, hno]
    by_cases hend : it.tag = 0xC
    · simp [hidItem, hidStep, Item.isInput, hmain, hend]
    by_cases hinput : it.tag = 0x8
    · simp [hidItem, hidStep, Item.isInput, hmain, hinput]
    · simp [hidItem, hidStep, Item.isInput, hmain, hcollection, hend, hinput]
  · simp [hidItem, hidStep, Item.isInput, hglobal, hlocal, hmain]

/-- **The parser is a walk over the input items.** -/
theorem items_inputs (past : List HidState) (its : List Item) (h : HidState) (l : LayoutState) :
    (its.foldlM (hidItem stray) (h, l)).value.2 =
        ((inputsFrom past h its).foldlM (takeInput stray) l).value ∧
      ((its.foldlM (hidItem stray) (h, l)).Safe (Access.InBounds len) ↔
        ((inputsFrom past h its).foldlM (takeInput stray) l).Safe (Access.InBounds len)) := by
  induction its generalizing past h l with
  | nil => exact ⟨rfl, Iff.rfl⟩
  | cons it rest ih =>
    obtain ⟨hvalue, hsafe⟩ := @hidItem_step stray len h l it
    rw [List.foldlM_cons, Logged.value_bind, Logged.safe_bind, hvalue, hsafe, inputsFrom]
    by_cases hinput : it.isInput
    · have hrest := ih (past ++ [h]) (hidStep h it) (inputItem stray h it.data l).value
      simp only [if_pos hinput, List.foldlM_cons, Logged.value_bind, Logged.safe_bind, takeInput]
      exact ⟨hrest.1, and_congr (forall_prop_of_true hinput) hrest.2⟩
    · grind

/-- The input items after `past` start where those of `past` end. -/
def Linked : List HidState → List Input → Prop
  | _, [] => True
  | past, x :: rest =>
      x.h.Ok ∧ x.start = startOf past x.h.reportId ∧ Linked (past ++ [x.h]) rest

theorem linked_inputsFrom {past : List HidState} {h : HidState} (hok : h.Ok) (its : List Item) :
    Linked past (inputsFrom past h its) := by
  induction its generalizing past h with
  | nil => trivial
  | cons it rest ih =>
    rw [inputsFrom]
    split
    · exact ⟨hok, rfl, ih (hok.step it)⟩
    · exact ih (hok.step it)

end Usb.Hid
