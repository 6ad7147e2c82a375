import Mathlib.Data.Nat.Bitwise
import StrawOS.Usb.HidSearch

/-!
# Reports of mice

`usb_hid_mouse_report_layout` takes the fields of a report out of it and makes an event of
them.  A field is a number of bits, from the lowest one on, and signed if its logical
minimum is negative.
-/

namespace Usb.Hid

structure MouseEvent where
  dx : Int := 0
  dy : Int := 0
  wheel : Int := 0
  buttons : UInt8 := 0
  deriving DecidableEq

/-- `data[i]`, with `data` at `p` in the report. -/
def readReport (report : Nat → UInt8) (p i : Nat) : Logged Nat UInt8 := do
  Logged.tell (p + i)
  pure (report (p + i))

/-- `1u << b`. -/
def bit32 (b : Nat) : UInt32 := 1 <<< UInt32.ofNat b

/-- The bits of a field, from the lowest one on. -/
def readBits (report : Nat → UInt8) (p offset size : Nat) : Logged Nat UInt32 :=
  (List.range size).foldlM (fun value b => do
    let bit := offset + b
    let byte ← readReport report p (bit / 8)
    return if byte.toUInt32 &&& bit32 (bit % 8) != 0 then value ||| bit32 b else value) 0

/-- The sign of a field, in the bits above it. -/
def extend (field : UsbHidField) (value : UInt32) : UInt32 :=
  if field.isSigned ∧ field.size < 32 ∧ value &&& bit32 (field.size.toNat - 1) != 0 then
    value ||| (~~~0 <<< field.size.toUInt32)
  else value

def usbHidReadField (field : UsbHidField) (report : Nat → UInt8) (p len : Nat) :
    Logged Nat Int :=
  if field.size = 0 ∨ len < (field.offset.toNat + field.size.toNat + 7) / 8 then pure 0
  else do
    let value ← readBits report p field.offset.toNat field.size.toNat
    return (extend field value).toInt32.toInt

/-- The bit of a button. -/
def buttonField (layout : UsbHidMouseLayout) (b : Nat) : UsbHidField :=
  ⟨.ofNat (layout.buttonsOffset.toNat + b), 1, false⟩

/-- `MAX(low, MIN(value, high))`. -/
def clamp (low value high : Int) : Int := max low (min value high)

/-- The event of a report whose fields are at `p`. -/
def reportEvent (layout : UsbHidMouseLayout) (report : Nat → UInt8) (p len : Nat) :
    Logged Nat MouseEvent := do
  let dx ← usbHidReadField layout.x report p len
  let dy ← usbHidReadField layout.y report p len
  let wheel ← usbHidReadField layout.wheel report p len
  let buttons ← (List.range layout.buttonsCount.toNat).foldlM (fun buttons b => do
    let bit ← usbHidReadField (buttonField layout b) report p len
    return if bit ≠ 0 then buttons ||| (bit32 b).toUInt8 else buttons) 0
  return ⟨clamp (-32768) dx 32767, clamp (-32768) dy 32767, clamp (-128) wheel 127, buttons⟩

/-- `usb_hid_mouse_report_layout`, with the event that it pushes. -/
def usbHidMouseReportLayout (layout : UsbHidMouseLayout) (report : Nat → UInt8) (len : Nat) :
    Logged Nat (Option MouseEvent) :=
  if layout.reportId ≠ 0 then
    if len < 1 then pure none
    else do
      let id ← readReport report 0 0
      if id ≠ layout.reportId then return none
      else return some (← reportEvent layout report 1 (len - 1))
  else do return some (← reportEvent layout report 0 len)

/-! ## What a report says -/

/-- A bit of the fields at `p`. -/
def bitAt (report : Nat → UInt8) (p bit : Nat) : Bool :=
  (report (p + bit / 8)).toNat.testBit (bit % 8)

/-- The number that the bits of a field make, the lowest one first. -/
def fieldNat (report : Nat → UInt8) (p offset size : Nat) : Nat :=
  ((List.range size).map fun b => if bitAt report p (offset + b) then 2 ^ b else 0).sum

/-- The field is inside the report. -/
def UsbHidField.Inside (field : UsbHidField) (len : Nat) : Prop :=
  field.offset.toNat + field.size.toNat ≤ 8 * len

instance (field : UsbHidField) (len : Nat) : Decidable (field.Inside len) := Nat.decLe _ _

/-- The value of a field, in two's complement if it is signed; 0 if it is not inside the
report. -/
def fieldValue (field : UsbHidField) (report : Nat → UInt8) (p len : Nat) : Int :=
  let value := fieldNat report p field.offset.toNat field.size.toNat
  if field.Inside len then
    if field.isSigned ∧ 2 ^ (field.size.toNat - 1) ≤ value then value - 2 ^ field.size.toNat
    else value
  else 0

/-- The event of the fields at `p`. -/
def fieldsEvent (layout : UsbHidMouseLayout) (report : Nat → UInt8) (p len : Nat) : MouseEvent where
  dx := clamp (-32768) (fieldValue layout.x report p len) 32767
  dy := clamp (-32768) (fieldValue layout.y report p len) 32767
  wheel := clamp (-128) (fieldValue layout.wheel report p len) 127
  buttons := (List.range layout.buttonsCount.toNat).foldl (fun buttons b =>
    if fieldValue (buttonField layout b) report p len ≠ 0 then buttons ||| (bit32 b).toUInt8
    else buttons) 0

/-- Where the fields are: after the id, if reports have one.  Other reports have none. -/
def fieldsStart (id : UInt8) (report : Nat → UInt8) (len : Nat) : Option Nat :=
  if id = 0 then some 0 else if 0 < len ∧ report 0 = id then some 1 else none

variable {report : Nat → UInt8} {p len : Nat}

/-! ## Fields -/

theorem fieldNat_succ (report : Nat → UInt8) (p offset size : Nat) :
    fieldNat report p offset (size + 1) = fieldNat report p offset size +
      if bitAt report p (offset + size) then 2 ^ size else 0 := by
  simp [fieldNat, List.range_succ]

theorem fieldNat_lt (report : Nat → UInt8) (p offset size : Nat) :
    fieldNat report p offset size < 2 ^ size := by
  induction size with
  | zero => exact Nat.one_pos
  | succ size ih =>
    rw [fieldNat_succ, pow_succ]
    split <;> omega

theorem toNat_bit32 {b : Nat} (hb : b < 32) : (bit32 b).toNat = 2 ^ b := by
  have hall : ∀ b < 32, (bit32 b).toNat = 2 ^ b := by decide
  exact hall b hb

theorem and_bit32 (word : UInt32) {k : Nat} (hk : k < 32) :
    (word &&& bit32 k != 0) = word.toNat.testBit k := by
  have hand : (word &&& bit32 k).toNat = (word.toNat.testBit k).toNat * 2 ^ k := by
    rw [UInt32.toNat_and, toNat_bit32 hk, Nat.and_two_pow]
  have hzero : word &&& bit32 k = 0 ↔ (word &&& bit32 k).toNat = 0 := by
    rw [← UInt32.toNat_inj]
    rfl
  rw [Bool.eq_iff_iff, bne_iff_ne, ne_eq, hzero, hand]
  cases word.toNat.testBit k <;> simp

theorem or_above {value above : UInt32} {b : Nat} {n : Nat} (hvalue : value.toNat < 2 ^ b)
    (habove : above.toNat = n <<< b) :
    (value ||| above).toNat = value.toNat + above.toNat := by
  rw [UInt32.toNat_or, habove, Nat.or_comm, ← Nat.shiftLeft_add_eq_or_of_lt hvalue, Nat.add_comm]

theorem toNat_ones {size : UInt8} (hsize : size.toNat < 32) :
    (~~~(0 : UInt32) <<< size.toUInt32).toNat = (2 ^ (32 - size.toNat) - 1) <<< size.toNat := by
  have hall : ∀ n < 32, (~~~(0 : UInt32) <<< (UInt8.ofNat n).toUInt32).toNat =
      (2 ^ (32 - n) - 1) <<< n := by decide
  have h := hall size.toNat hsize
  rwa [UInt8.ofNat_toNat] at h

theorem readBits_succ (report : Nat → UInt8) (p offset size : Nat) :
    (readBits report p offset (size + 1)).value =
      let value := (readBits report p offset size).value
      if (report (p + (offset + size) / 8)).toUInt32 &&& bit32 ((offset + size) % 8) != 0 then
        value ||| bit32 size
      else value := by
  simp only [readBits, Logged.value_foldlM, List.range_succ, List.foldl_append, List.foldl_cons,
    List.foldl_nil]
  rfl

/-- **The bits of a field** make its number. -/
theorem readBits_value (report : Nat → UInt8) (p offset : Nat) {size : Nat} (hsize : size ≤ 32) :
    (readBits report p offset size).value.toNat = fieldNat report p offset size := by
  induction size with
  | zero => rfl
  | succ size ih =>
    have hvalue := ih (Nat.le_of_succ_le hsize)
    have hbit : ((report (p + (offset + size) / 8)).toUInt32 &&& bit32 ((offset + size) % 8) != 0) =
        bitAt report p (offset + size) := by
      rw [and_bit32 _ (by omega), UInt8.toNat_toUInt32, bitAt]
    have hlt : (readBits report p offset size).value.toNat < 2 ^ size := by
      rw [hvalue]
      exact fieldNat_lt report p offset size
    rw [fieldNat_succ, readBits_succ, hbit, ← hvalue]
    by_cases hset : bitAt report p (offset + size)
    · have habove : (bit32 size).toNat = 1 <<< size := by
        rw [toNat_bit32 hsize, Nat.shiftLeft_eq, Nat.one_mul]
      simp only [if_pos hset]
      rw [or_above hlt habove, toNat_bit32 hsize]
    · simp only [if_neg hset, Nat.add_zero]

theorem readBits_safe {report : Nat → UInt8} {p offset size last : Nat}
    (hlast : offset + size ≤ 8 * last) : (readBits report p offset size).Safe (· < p + last) := by
  refine (@Logged.Meets.foldlM Nat UInt32 (· < p + last) (fun _ => True) Nat
    (List.range size) _ 0 trivial ?_).1
  intro value _ b hb
  have hlt := List.mem_range.mp hb
  refine ⟨?_, trivial⟩
  have hsafe : (readReport report p ((offset + b) / 8)).Safe (· < p + last) := by
    simp only [readReport, Logged.safe_bind, Logged.safe_tell, Logged.safe_pure, and_true]
    omega
  exact (Logged.safe_bind _ _).mpr ⟨hsafe, Logged.safe_pure _⟩

theorem testBit_sign {n size : Nat} (hn : n < 2 ^ size) (hsize : size ≠ 0) :
    n.testBit (size - 1) = true ↔ 2 ^ (size - 1) ≤ n := by
  constructor
  · exact Nat.ge_two_pow_of_testBit
  · intro hle
    exact Nat.testBit_of_two_pow_le_and_two_pow_add_one_gt hle (by
      rw [Nat.sub_add_cancel (Nat.pos_of_ne_zero hsize)]
      exact hn)

theorem extend_signed {field : UsbHidField} (hzero : field.size.toNat ≠ 0)
    (hsize : field.size.toNat ≤ 32) (hsigned : field.isSigned = true) {v : UInt32}
    (hv : v.toNat < 2 ^ field.size.toNat) :
    (extend field v).toInt32.toInt =
      if 2 ^ (field.size.toNat - 1) ≤ v.toNat then (v.toNat : Int) - 2 ^ field.size.toNat
      else v.toNat := by
  have hsign := testBit_sign hv hzero
  have hlt : field.size < 32 ↔ field.size.toNat < 32 := UInt8.lt_iff_toNat_lt
  rw [extend, and_bit32 v (by omega)]
  by_cases hword : field.size.toNat < 32
  · have hpow : 2 ^ field.size.toNat * 2 ^ (32 - field.size.toNat) = 2 ^ 32 := by
      rw [← Nat.pow_add, Nat.add_sub_cancel' hsize]
    have hle : 2 ^ field.size.toNat ≤ 2 ^ 31 := Nat.pow_le_pow_right (by decide) (by omega)
    have hones : (2 ^ (32 - field.size.toNat) - 1) <<< field.size.toNat =
        2 ^ 32 - 2 ^ field.size.toNat := by
      rw [Nat.shiftLeft_eq, Nat.sub_mul, Nat.mul_comm, hpow, Nat.one_mul]
    by_cases hset : 2 ^ (field.size.toNat - 1) ≤ v.toNat
    · have hadd := or_above hv (toNat_ones hword)
      rw [toNat_ones hword, hones] at hadd
      have hcast : ((2 ^ field.size.toNat : Nat) : Int) = 2 ^ field.size.toNat := by simp
      rw [if_pos ⟨hsigned, hlt.mpr hword, hsign.mpr hset⟩, if_pos hset, toInt_toInt32, hadd,
        if_neg (by omega), ← hcast]
      omega
    · have hlow : v.toNat < 2 ^ 31 := by omega
      rw [if_neg (fun h => hset (hsign.mp h.2.2)), if_neg hset, toInt_toInt32, if_pos hlow]
  · have hfull : field.size.toNat = 32 := by omega
    rw [if_neg (fun h => hword (hlt.mp h.2.1)), toInt_toInt32, hfull]
    split <;> split <;> omega

theorem extend_unsigned {field : UsbHidField} (hsigned : field.isSigned = false) (v : UInt32) :
    (extend field v).toInt32.toInt = v.toNat ↔ v.toNat < 2 ^ 31 := by
  rw [extend, if_neg (fun h => Bool.eq_false_iff.mp hsigned h.1), toInt_toInt32]
  split
  · rename_i hlt
    exact iff_of_true rfl hlt
  · rename_i hge
    exact iff_of_false (by omega) hge

/-- **The value of a field** is the number in its bits, unless that is no `int`. -/
theorem readField_value {field : UsbHidField} (hsize : field.size.toNat ≤ 32) :
    (usbHidReadField field report p len).value = fieldValue field report p len ↔
      (field.isSigned = false → field.Inside len →
        fieldNat report p field.offset.toNat field.size.toNat < 2 ^ 31) := by
  by_cases hzero : field.size = 0
  · have hnat : fieldNat report p field.offset.toNat 0 = 0 := rfl
    simp [usbHidReadField, fieldValue, hzero, hnat]
  by_cases hin : field.Inside len
  · have hlong : ¬ len < (field.offset.toNat + field.size.toNat + 7) / 8 := by
      rw [UsbHidField.Inside] at hin
      omega
    have hpos : field.size.toNat ≠ 0 := fun h => hzero (UInt8.toNat.inj h)
    have hn := fieldNat_lt report p field.offset.toNat field.size.toNat
    have hvalue := readBits_value report p field.offset.toNat hsize
    generalize hread : (readBits report p field.offset.toNat field.size.toNat).value = v at hvalue
    rw [← hvalue] at hn ⊢
    have hfield : (usbHidReadField field report p len).value = (extend field v).toInt32.toInt := by
      rw [usbHidReadField, if_neg (by simp [hzero, hlong]), Logged.value_bind, hread]
      rfl
    simp only [hfield, fieldValue, ← hvalue, hin, if_true, forall_const]
    cases hsigned : field.isSigned with
    | true =>
      rw [extend_signed hpos hsize hsigned hn]
      simp
    | false => simpa using extend_unsigned hsigned v
  · have hshort : len < (field.offset.toNat + field.size.toNat + 7) / 8 := by
      rw [UsbHidField.Inside] at hin
      omega
    simp [usbHidReadField, fieldValue, hshort, hin]

theorem readField_safe (field : UsbHidField) :
    (usbHidReadField field report p len).Safe (· < p + len) := by
  rw [usbHidReadField]
  split
  · exact Logged.safe_pure _
  · have hread : (readBits report p field.offset.toNat field.size.toNat).Safe (· < p + len) :=
      readBits_safe (by omega)
    exact (Logged.safe_bind _ _).mpr ⟨hread, Logged.safe_pure _⟩

/-! ## Events -/

theorem button_value (layout : UsbHidMouseLayout) (b : Nat) :
    (usbHidReadField (buttonField layout b) report p len).value =
      fieldValue (buttonField layout b) report p len := by
  apply (readField_value (by decide : (1 : UInt8).toNat ≤ 32)).mpr
  intro _ _
  exact (fieldNat_lt report p _ _).trans (by decide : 2 ^ (1 : UInt8).toNat < 2 ^ 31)

theorem reportEvent_safe (layout : UsbHidMouseLayout) :
    (reportEvent layout report p len).Safe (· < p + len) := by
  have hbuttons := @Logged.Meets.foldlM Nat UInt8 (· < p + len) (fun _ => True) Nat
    (List.range layout.buttonsCount.toNat) (fun buttons b => do
      let bit ← usbHidReadField (buttonField layout b) report p len
      return if bit ≠ 0 then buttons ||| (bit32 b).toUInt8 else buttons) 0 trivial
    (fun _ _ _ _ => ⟨(Logged.safe_bind _ _).mpr ⟨readField_safe _, Logged.safe_pure _⟩, trivial⟩)
  simp only [reportEvent, Logged.safe_bind, readField_safe, Logged.safe_pure, true_and, and_true]
  exact hbuttons.1

theorem reportEvent_value {layout : UsbHidMouseLayout}
    (hfields : ∀ k, k ≠ .button → (usbHidReadField (slot layout k) report p len).value =
      fieldValue (slot layout k) report p len) :
    (reportEvent layout report p len).value = fieldsEvent layout report p len := by
  have hx := hfields .x (by decide)
  have hy := hfields .y (by decide)
  have hwheel := hfields .wheel (by decide)
  simp only [slot] at hx hy hwheel
  have hbuttons : (fun (buttons : UInt8) (b : Nat) =>
      if (usbHidReadField (buttonField layout b) report p len).value ≠ 0 then
        buttons ||| (bit32 b).toUInt8 else buttons) = fun buttons b =>
      if fieldValue (buttonField layout b) report p len ≠ 0 then
        buttons ||| (bit32 b).toUInt8 else buttons := by
    funext buttons b
    rw [button_value]
  simp only [reportEvent, Logged.value_bind, Logged.value_foldlM, Logged.value_pure]
  rw [hx, hy, hwheel, hbuttons, fieldsEvent]

/-- **The report function** makes an event of the fields, if the report is the mouse's. -/
theorem mouseReport_start (layout : UsbHidMouseLayout) (report : Nat → UInt8) (n : Nat) :
    (usbHidMouseReportLayout layout report n).Safe (· < n) ∧
      (usbHidMouseReportLayout layout report n).value =
        (fieldsStart layout.reportId report n).map fun p =>
          (reportEvent layout report p (n - p)).value := by
  by_cases hid : layout.reportId = 0
  · have hsafe := @reportEvent_safe report 0 n layout
    rw [Nat.zero_add] at hsafe
    simp [usbHidMouseReportLayout, fieldsStart, hid, hsafe]
  by_cases hshort : n < 1
  · simp [usbHidMouseReportLayout, fieldsStart, hid, Nat.lt_one_iff.mp hshort]
  have hpos : 0 < n := by omega
  have hsafe := @reportEvent_safe report 1 (n - 1) layout
  rw [Nat.add_sub_cancel' hpos] at hsafe
  by_cases hmine : report 0 = layout.reportId
  · simp [usbHidMouseReportLayout, fieldsStart, hid, hshort, hmine, hpos, readReport, hsafe]
  · simp [usbHidMouseReportLayout, fieldsStart, hid, hshort, hmine, hpos, readReport]

/-! ## Layouts and reports -/

/-- The parser stays in its arrays, what it accepts is one report, and reports are taken apart
as the descriptor says. -/
structure LayoutCorrect (stray : Int → UInt32) (desc : Nat → UInt8) (len : Nat)
    (report : Nat → UInt8) (n : Nat) : Prop where
  inBounds : (usbHidParseMouseLayout stray desc len).Safe (Access.InBounds len)
  belongs : (usbHidParseMouseLayout stray desc len).value.1 = true →
    let out := (usbHidParseMouseLayout stray desc len).value.2
    ∀ k, (slot out k).size ≠ 0 → Belongs (inputs desc len) out.reportId k (slot out k)
  reads : (usbHidMouseReportLayout (usbHidParseMouseLayout stray desc len).value.2 report n).Safe
    (· < n)
  decodes :
    let out := (usbHidParseMouseLayout stray desc len).value.2
    ∀ p ∈ fieldsStart out.reportId report n, ∀ k, k ≠ .button →
      (usbHidReadField (slot out k) report p (n - p)).value =
        fieldValue (slot out k) report p (n - p)
  event :
    let out := (usbHidParseMouseLayout stray desc len).value.2
    (usbHidMouseReportLayout out report n).value =
      (fieldsStart out.reportId report n).map fun p => fieldsEvent out report p (n - p)

/-- No item that is looked at lists its usages for more than 2^31 fields, what comes before X is
of the report of X, and no unsigned field has a number that is not an `int`. -/
structure LayoutCondition (desc : Nat → UInt8) (len : Nat) (report : Nat → UInt8) (n : Nat) :
    Prop where
  bounded : ∀ x ∈ inForce (inputs desc len), x.Bounded
  oneReport : OneReport (inputs desc len)
  fits : ∀ p ∈ fieldsStart ((found (inputs desc len) .x).headD {}).reportId report n, ∀ k,
    k ≠ .button →
      let field := ((found (inputs desc len) k).headD {}).field
      field.isSigned = false → field.Inside (n - p) →
        fieldNat report p field.offset.toNat field.size.toNat < 2 ^ 31

theorem found_size_le (xs : List Input) (k : Kind) :
    ((found xs k).headD {}).field.size.toNat ≤ 32 := by
  cases hfound : found xs k with
  | nil => exact Nat.zero_le _
  | cons d ds =>
    have hmem : d ∈ found xs k := hfound ▸ List.mem_cons_self
    obtain ⟨x, hx, hd⟩ := List.mem_flatMap.mp hmem
    obtain ⟨f, hf, -, rfl⟩ := mem_fields.mp hd
    have hle := (wanted_size (inForce_wanted hx)).2
    cases k with
    | button =>
      simp only [List.headD_cons, Input.field, UInt8.toNat_ofNat']
      omega
    | _ =>
      simp only [List.headD_cons, Input.field, UInt32.toNat_toUInt8]
      omega

/-- **Layouts are right under these conditions, and only then.** -/
theorem hid_mouse_layout_iff (stray : Int → UInt32) (desc : Nat → UInt8) (len : Nat)
    (report : Nat → UInt8) (n : Nat) :
    LayoutCorrect stray desc len report n ↔ LayoutCondition desc len report n := by
  obtain ⟨hsafe, hfound⟩ := parse_found stray desc len
  have hreport := mouseReport_start (usbHidParseMouseLayout stray desc len).value.2 report n
  -- how fields are decoded, once the layout is known
  have hfits : (∀ x ∈ inForce (inputs desc len), x.Bounded) → ∀ p k,
      ((usbHidReadField (slot (usbHidParseMouseLayout stray desc len).value.2 k) report p
          (n - p)).value =
        fieldValue (slot (usbHidParseMouseLayout stray desc len).value.2 k) report p (n - p) ↔
      let field := ((found (inputs desc len) k).headD {}).field
      (field.isSigned = false → field.Inside (n - p) →
        fieldNat report p field.offset.toNat field.size.toNat < 2 ^ 31)) := by
    intro hbounded p k
    rw [(hfound hbounded).1 k]
    exact readField_value (found_size_le _ k)
  constructor
  · intro h
    have hbounded := hsafe.mp h.inBounds
    obtain ⟨hslot, hid, haccept⟩ := hfound hbounded
    refine ⟨hbounded, ?_, ?_⟩
    · apply (belongs_iff_oneReport _).mp
      intro hxy k hsize
      have hbelongs := h.belongs (haccept.mpr hxy) k
      rw [hslot k, hid] at hbelongs
      exact hbelongs hsize
    · intro p hp k hk
      rw [← hid] at hp
      exact (hfits hbounded p k).mp (h.decodes p hp k hk)
  · intro h
    obtain ⟨hslot, hid, haccept⟩ := hfound h.bounded
    have hdecodes : ∀ p ∈ fieldsStart (usbHidParseMouseLayout stray desc len).value.2.reportId
        report n, ∀ k : Kind, k ≠ .button →
          (usbHidReadField (slot (usbHidParseMouseLayout stray desc len).value.2 k) report p
            (n - p)).value =
          fieldValue (slot (usbHidParseMouseLayout stray desc len).value.2 k) report p (n - p) := by
      intro p hp k hk
      rw [hid] at hp
      exact (hfits h.bounded p k).mpr (h.fits p hp k hk)
    refine ⟨hsafe.mpr h.bounded, ?_, hreport.1, hdecodes, ?_⟩
    · intro haccepted
      dsimp only
      intro k
      rw [hslot k, hid]
      exact (belongs_iff_oneReport _).mpr h.oneReport (haccept.mp haccepted) k
    · dsimp only
      rw [hreport.2]
      cases hstart : fieldsStart (usbHidParseMouseLayout stray desc len).value.2.reportId report n
        with
      | none => rfl
      | some p => exact congrArg some (reportEvent_value (hdecodes p hstart))

/-- The bytes of a descriptor. -/
def descOf (l : List UInt8) (i : Nat) : UInt8 := l.getD i 0

/-- A mouse that has Y in report 2 and then X in report 1. -/
def splitMouse : List UInt8 :=
  [0x05, 1, 0x09, 2, 0xA1, 1, 0x75, 8, 0x95, 1, 0x85, 2, 0x09, 0x31, 0x81, 6,
    0x85, 1, 0x09, 0x30, 0x81, 6]

theorem items_splitMouse : items (descOf splitMouse) 22 0 =
    (List.range 11).map fun k => itemAt (descOf splitMouse) (2 * k) := by
  have hstep : ∀ k < 11, items (descOf splitMouse) 22 (2 * k) =
      itemAt (descOf splitMouse) (2 * k) :: items (descOf splitMouse) 22 (2 * (k + 1)) := by
    intro k hk
    have hshort : ∀ k < 11, descOf splitMouse (2 * k) ≠ 0xFE ∧
        itemSize (descOf splitMouse (2 * k)) = 1 := by decide
    rw [items, if_pos (by omega), if_neg (hshort k hk).1, (hshort k hk).2, if_neg (by omega)]
    rfl
  have hlast : items (descOf splitMouse) 22 (2 * 11) = [] := by
    rw [items, if_neg (by decide)]
  have hrun : ∀ n ≤ 11, items (descOf splitMouse) 22 (2 * (11 - n)) =
      (List.range' (11 - n) n).map fun k => itemAt (descOf splitMouse) (2 * k) := by
    intro n hn
    induction n with
    | zero => exact hlast
    | succ n ih =>
      have hnext : 11 - (n + 1) + 1 = 11 - n := by omega
      rw [hstep _ (by omega), hnext, ih (by omega), List.range'_succ, List.map_cons, hnext]
  exact hrun 11 (le_refl 11)

/-- Its Y is not of the report of its X. -/
theorem splitMouse_not_correct : ¬ ∀ (stray : Int → UInt32) (desc : Nat → UInt8) (len : Nat)
    (report : Nat → UInt8) (n : Nat), len ≤ 4096 → LayoutCorrect stray desc len report n := by
  intro h
  have hcorrect := h (fun _ => 0) (descOf splitMouse) 22 (fun _ => 0) 0 (by decide)
  obtain ⟨hsafe, hfound⟩ := parse_found (fun _ => 0) (descOf splitMouse) 22
  obtain ⟨hslot, hid, haccept⟩ := hfound (hsafe.mp hcorrect.inBounds)
  have hinputs : inputs (descOf splitMouse) 22 = inputsFrom [] {}
      ((List.range 11).map fun k => itemAt (descOf splitMouse) (2 * k)) := by
    rw [inputs, items_splitMouse]
  have hbelongs := hcorrect.belongs (haccept.mpr (by rw [hinputs]; decide)) .y
  rw [hslot, hid, hinputs] at hbelongs
  obtain ⟨x, hx, hreport, f, -, ⟨u, hu, haccepts⟩, -⟩ := hbelongs (by decide)
  have honly : ∀ x ∈ inputsFrom [] {} ((List.range 11).map fun k =>
      itemAt (descOf splitMouse) (2 * k)), x.h.reportId = ((found (inputsFrom [] {}
        ((List.range 11).map fun k => itemAt (descOf splitMouse) (2 * k))) .x).headD {}).reportId →
      x.h.haveRange = false ∧ x.h.usages = [hidUsage 1 0x30] := by decide
  obtain ⟨hrange, husages⟩ := honly x hx hreport
  have husage : u = hidUsage 1 0x30 := by
    simpa [usageAt, hrange, husages] using hu.symm
  have hx' : hidUsage 1 0x30 = hidUsage 1 0x31 := husage.symm.trans haccepts.1
  exact absurd hx' (by decide)

end Usb.Hid
