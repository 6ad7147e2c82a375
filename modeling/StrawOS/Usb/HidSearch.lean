import Mathlib.Data.List.TakeWhile
import StrawOS.Usb.HidLayout

/-!
# What the parser of layouts finds

The layout has a slot for each kind of field, and the first field of a kind that the parser
comes to gets it.  Until it has found X the parser looks at every input item of a mouse, and
from then on at those of X's report.
-/

namespace Usb.Hid

/-- The kinds of fields that a layout has. -/
inductive Kind
  | x
  | y
  | wheel
  | button
  deriving DecidableEq

/-- The slot of a kind.  The size of the buttons is their number. -/
def slot (out : UsbHidMouseLayout) : Kind → UsbHidField
  | .x => out.x
  | .y => out.y
  | .wheel => out.wheel
  | .button => ⟨out.buttonsOffset, out.buttonsCount, false⟩

/-- The usages of a kind. -/
def Kind.accepts (h : HidState) (data usage : UInt32) : Kind → Prop
  | .x => usage = hidUsage 1 0x30 ∧ data &&& 4 != 0
  | .y => usage = hidUsage 1 0x31 ∧ data &&& 4 != 0
  | .wheel => usage = hidUsage 1 0x38 ∧ data &&& 4 != 0
  | .button => usage >>> 16 = 9 ∧ usage &&& 0xFFFF = 1 ∧ h.reportSize = 1

instance (h : HidState) (data usage : UInt32) (k : Kind) : Decidable (k.accepts h data usage) := by
  cases k <;> exact inferInstanceAs (Decidable (_ ∧ _))

/-- The field at `f`, for a kind. -/
def fieldOf (h : HidState) (base : UInt16) (f : Nat) : Kind → UsbHidField
  | .button => ⟨(fieldAt h base f).offset, .ofNat (min (h.reportCount.toNat - f) 3), false⟩
  | _ => fieldAt h base f

theorem accepts_unique {h : HidState} {data usage : UInt32} {k k' : Kind}
    (hk : k.accepts h data usage) (hk' : k'.accepts h data usage) : k = k' := by
  cases k <;> cases k' <;> first
    | rfl
    | exact absurd (hk.1.symm.trans hk'.1) (by decide)
    | (have hkind := hk'.1; rw [hk.1] at hkind; exact absurd hkind (by decide))
    | (have hkind := hk.1; rw [hk'.1] at hkind; exact absurd hkind (by decide))

theorem slot_of_taken {h : HidState} {data usage : UInt32} {base : UInt16} {f : Nat}
    {out out' : UsbHidMouseLayout} {k' : Kind} (haccepts : k'.accepts h data usage)
    (hfree : (slot out k').size = 0) (hself : slot out' k' = fieldOf h base f k')
    (hothers : ∀ k, k ≠ k' → slot out' k = slot out k) (k : Kind) :
    slot out' k =
      if k.accepts h data usage ∧ (slot out k).size = 0 then fieldOf h base f k
      else slot out k := by
  by_cases hk : k = k'
  · subst hk
    rw [if_pos ⟨haccepts, hfree⟩, hself]
  · have hno : ¬ k.accepts h data usage := fun hk' => hk (accepts_unique hk' haccepts)
    rw [if_neg (fun hboth => hno hboth.1), hothers k hk]

/-- **One field.**  A slot that is free goes to a field of its kind. -/
theorem slot_placeField (h : HidState) (data : UInt32) (base : UInt16) (f : Nat) (usage : UInt32)
    (l : LayoutState) (k : Kind) :
    slot (placeField h data base f usage l).out k =
      if k.accepts h data usage ∧ (slot l.out k).size = 0 then fieldOf h base f k
      else slot l.out k := by
  simp only [placeField]
  by_cases hx : usage = hidUsage 1 0x30 ∧ data &&& 4 != 0 ∧ l.out.x.size = 0
  · have hacc : Kind.accepts h data usage .x := ⟨hx.1, hx.2.1⟩
    rw [if_pos hx]
    apply slot_of_taken hacc hx.2.2 rfl
    rintro (_ | _ | _ | _) hk <;> first | rfl | exact absurd rfl hk
  rw [if_neg hx]
  by_cases hy : usage = hidUsage 1 0x31 ∧ data &&& 4 != 0 ∧ l.out.y.size = 0
  · have hacc : Kind.accepts h data usage .y := ⟨hy.1, hy.2.1⟩
    rw [if_pos hy]
    apply slot_of_taken hacc hy.2.2 rfl
    rintro (_ | _ | _ | _) hk <;> first | rfl | exact absurd rfl hk
  rw [if_neg hy]
  by_cases hwheel : usage = hidUsage 1 0x38 ∧ data &&& 4 != 0 ∧ l.out.wheel.size = 0
  · have hacc : Kind.accepts h data usage .wheel := ⟨hwheel.1, hwheel.2.1⟩
    rw [if_pos hwheel]
    apply slot_of_taken hacc hwheel.2.2 rfl
    rintro (_ | _ | _ | _) hk <;> first | rfl | exact absurd rfl hk
  rw [if_neg hwheel]
  by_cases hbutton : usage >>> 16 = 9 ∧ usage &&& 0xFFFF = 1 ∧ h.reportSize = 1 ∧
      l.out.buttonsCount = 0
  · have hacc : Kind.accepts h data usage .button := ⟨hbutton.1, hbutton.2.1, hbutton.2.2.1⟩
    rw [if_pos hbutton]
    apply slot_of_taken hacc hbutton.2.2.2 rfl
    rintro (_ | _ | _ | _) hk <;> first | rfl | exact absurd rfl hk
  rw [if_neg hbutton, if_neg]
  rintro ⟨hacc, hfree⟩
  cases k with
  | x => exact hx ⟨hacc.1, hacc.2, hfree⟩
  | y => exact hy ⟨hacc.1, hacc.2, hfree⟩
  | wheel => exact hwheel ⟨hacc.1, hacc.2, hfree⟩
  | button => exact hbutton ⟨hacc.1, hacc.2.1, hacc.2.2, hfree⟩

theorem report_placeField (h : HidState) (data : UInt32) (base : UInt16) (f : Nat)
    (usage : UInt32) (l : LayoutState) :
    let l' := placeField h data base f usage l
    let taken := Kind.accepts h data usage .x ∧ (slot l.out .x).size = 0
    l'.bitOffsets = l.bitOffsets ∧ l'.locked = (decide taken || l.locked) ∧
      l'.out.reportId = if taken then (if h.usesReportIds then h.reportId else 0)
        else l.out.reportId := by
  intro l' taken
  by_cases hx : taken
  · have hfound : usage = hidUsage 1 0x30 ∧ data &&& 4 != 0 ∧ l.out.x.size = 0 :=
      ⟨hx.1.1, hx.1.2, hx.2⟩
    have hl' : l' = _ := if_pos hfound
    simp [hl', hx]
  · have hfound : ¬ (usage = hidUsage 1 0x30 ∧ data &&& 4 != 0 ∧ l.out.x.size = 0) :=
      fun hfound => hx ⟨⟨hfound.1, hfound.2.1⟩, hfound.2.2⟩
    have hl' : l' = _ := if_neg hfound
    rw [if_neg hx, decide_eq_false hx, Bool.false_or, hl']
    split_ifs
    all_goals exact ⟨rfl, rfl, rfl⟩

/-! ## Found fields -/

/-- A field, and its report. -/
structure Found where
  reportId : UInt8 := 0
  field : UsbHidField := {}
  deriving DecidableEq

/-- The usage of the field at `f`.  The last usage is that of all that follow. -/
def usageAt (h : HidState) (f : Nat) : Option UInt32 :=
  if h.haveRange then some (h.usageMin + .ofNat f) else h.usages[min f (h.usages.length - 1)]?

/-- The field at `f`, of a kind.  For buttons it is as many of them as follow, up to three. -/
def Input.field (x : Input) (f : Nat) : Kind → UsbHidField
  | .button => ⟨.ofNat (x.start + f * x.h.reportSize.toNat),
      .ofNat (min (x.h.reportCount.toNat - f) 3), false⟩
  | _ => ⟨.ofNat (x.start + f * x.h.reportSize.toNat), x.h.reportSize.toUInt8,
      decide (x.h.logicalMin < 0)⟩

/-- What a kind finds at `f`. -/
def Input.foundAt (x : Input) (k : Kind) (f : Nat) : List Found :=
  if ∃ u ∈ usageAt x.h f, k.accepts x.h x.data u then [⟨x.h.reportId, x.field f k⟩] else []

/-- What a kind finds in an input item. -/
def Input.fields (x : Input) (k : Kind) : List Found :=
  (List.range x.h.reportCount.toNat).flatMap (x.foundAt k)

theorem mem_fields {x : Input} {k : Kind} {d : Found} :
    d ∈ x.fields k ↔ ∃ f < x.h.reportCount.toNat,
      (∃ u ∈ usageAt x.h f, k.accepts x.h x.data u) ∧ d = ⟨x.h.reportId, x.field f k⟩ := by
  simp only [Input.fields, Input.foundAt, List.mem_flatMap, List.mem_range, List.mem_ite_nil_right,
    List.mem_singleton]

/-- An input item that the parser looks at, until it knows the report. -/
def Input.wanted (x : Input) : Bool := Hid.wanted x.h x.data

/-- The layout is made of what has been found. -/
structure Represents (l : LayoutState) (c : Kind → List Found) : Prop where
  slot : ∀ k, slot l.out k = ((c k).headD {}).field
  reportId : l.out.reportId = ((c .x).headD {}).reportId
  locked : l.locked = !(c .x).isEmpty
  size : ∀ k, ∀ d ∈ c k, d.field.size ≠ 0

variable {l : LayoutState} {c : Kind → List Found} {x : Input}

theorem Represents.free_iff (hr : Represents l c) (k : Kind) :
    (Hid.slot l.out k).size = 0 ↔ c k = [] := by
  rw [hr.slot k]
  have hsize := hr.size k
  cases hk : c k with
  | nil => exact iff_of_true rfl rfl
  | cons d rest =>
    rw [hk] at hsize
    exact iff_of_false (hsize d List.mem_cons_self) (List.cons_ne_nil d rest)

theorem wanted_size (hwanted : x.wanted) :
    0 < x.h.reportSize.toNat ∧ x.h.reportSize.toNat ≤ 32 := by
  have hsize : 0 < x.h.reportSize ∧ x.h.reportSize ≤ 32 := by
    simp only [Input.wanted, Hid.wanted, Bool.and_eq_true, decide_eq_true_eq] at hwanted
    exact ⟨hwanted.1.2, hwanted.2⟩
  exact ⟨UInt32.lt_iff_toNat_lt.mp hsize.1, UInt32.le_iff_toNat_le.mp hsize.2⟩

theorem ofNat_ofNat_add (m n : Nat) : UInt16.ofNat ((UInt16.ofNat m).toNat + n) = .ofNat (m + n) := by
  apply UInt16.toNat.inj
  simp only [UInt16.toNat_ofNat']
  omega

theorem fieldOf_start (x : Input) (f : Nat) (k : Kind) :
    fieldOf x.h (.ofNat x.start) f k = x.field f k := by
  cases k <;> simp only [fieldOf, fieldAt, Input.field, ofNat_ofNat_add]

theorem field_size (hwanted : x.wanted) {f : Nat} (hf : f < x.h.reportCount.toNat) (k : Kind) :
    (x.field f k).size ≠ 0 := by
  obtain ⟨hpos, hle⟩ := wanted_size hwanted
  have hsize : x.h.reportSize.toUInt8 ≠ 0 := by
    intro hzero
    have hzero' := congrArg UInt8.toNat hzero
    rw [UInt32.toNat_toUInt8, UInt8.toNat_zero] at hzero'
    omega
  cases k with
  | button =>
    intro hzero
    have hzero' := congrArg UInt8.toNat hzero
    simp only [Input.field, UInt8.toNat_ofNat', UInt8.toNat_zero] at hzero'
    omega
  | _ => exact hsize

/-- **A field** is added to what has been found. -/
theorem Represents.place (hr : Represents l c) (hok : x.h.Ok) (hwanted : x.wanted) {f : Nat}
    (hf : f < x.h.reportCount.toNat) {u : UInt32} (hu : usageAt x.h f = some u) :
    Represents (placeField x.h x.data (.ofNat x.start) f u l) (fun k => c k ++ x.foundAt k f) := by
  have hfound : ∀ k, x.foundAt k f = if k.accepts x.h x.data u then
      [⟨x.h.reportId, x.field f k⟩] else [] := by
    intro k
    simp [Input.foundAt, hu]
  obtain ⟨-, hlocked, hreport⟩ := report_placeField x.h x.data (.ofNat x.start) f u l
  have hid : (if x.h.usesReportIds then x.h.reportId else 0) = x.h.reportId := by
    split
    · rfl
    · rename_i huses
      exact (hok.reportId (Bool.eq_false_iff.mpr huses)).symm
  rw [hid] at hreport
  refine ⟨?_, ?_, ?_, ?_⟩
  · intro k
    simp only [slot_placeField, hr.free_iff, hfound, fieldOf_start]
    cases hk : c k with
    | nil => by_cases hacc : k.accepts x.h x.data u <;> simp [hacc, hr.slot k, hk]
    | cons d rest => simp [hr.slot k, hk]
  · simp only [hreport, hr.free_iff, hfound]
    cases hk : c .x with
    | nil => by_cases hacc : Kind.accepts x.h x.data u .x <;> simp [hacc, hr.reportId, hk]
    | cons d rest => simp [hr.reportId, hk]
  · simp only [hlocked, hr.locked, hr.free_iff, hfound]
    cases hk : c .x with
    | nil => by_cases hacc : Kind.accepts x.h x.data u .x <;> simp [hacc]
    | cons d rest => simp
  · intro k d hd
    rcases List.mem_append.mp hd with hd | hd
    · exact hr.size k d hd
    · rw [hfound k] at hd
      split at hd
      · rw [List.mem_singleton.mp hd]
        exact field_size hwanted hf k
      · exact absurd hd List.not_mem_nil

/-! ## Runs -/

/-- The usages of an item are looked up where they are. -/
def Input.Bounded (x : Input) : Prop :=
  x.h.haveRange ∨ x.h.usages = [] ∨ x.h.reportCount.toNat ≤ 2 ^ 31

variable {stray : Int → UInt32} {len : Nat}

/-- A word as an `int`. -/
theorem toInt_toInt32 (v : UInt32) :
    v.toInt32.toInt = if v.toNat < 2 ^ 31 then (v.toNat : Int) else v.toNat - 2 ^ 32 := by
  have hcond := BitVec.toInt_eq_toNat_cond v.toBitVec
  change v.toBitVec.toInt = _
  rw [hcond, UInt32.toNat_toBitVec]
  split <;> split <;> omega

theorem readUsage_usageAt {h : HidState} (hok : h.Ok) (hrange : ¬ h.haveRange)
    (husages : h.usages ≠ []) {f : Nat} (hf : f < 2 ^ 31) :
    let k := (UInt32.ofNat f).toInt32.toInt
    let read := readUsage stray h (if k < h.usages.length then k else h.usages.length - 1)
    usageAt h f = some read.value ∧ read.Safe (Access.InBounds len) := by
  intro k read
  have hk : k = f := by
    simp only [k, toInt_toInt32, UInt32.toNat_ofNat']
    omega
  have hpos := List.length_pos_of_ne_nil husages
  have hmax := hok.usages
  have hindex : (if k < h.usages.length then k else h.usages.length - 1) =
      ((min f (h.usages.length - 1) : Nat) : Int) := by
    rw [hk]
    split <;> omega
  have hlt : min f (h.usages.length - 1) < h.usages.length := by omega
  simp only [read, hindex]
  rw [usageAt, if_neg hrange]
  generalize min f (h.usages.length - 1) = m at hlt ⊢
  refine ⟨?_, ?_⟩
  · simp [readUsage, hlt]
  · simp only [readUsage, Logged.safe_bind, Logged.safe_tell, Logged.safe_pure, and_true,
      Access.InBounds]
    omega

theorem readUsage_beyond {h : HidState} {f : Nat} (hf : 2 ^ 31 ≤ f) (hf' : f < 2 ^ 32) :
    let k := (UInt32.ofNat f).toInt32.toInt
    ¬ (readUsage stray h (if k < h.usages.length then k else h.usages.length - 1)).Safe
      (Access.InBounds len) := by
  intro k hsafe
  have hk : k < 0 := by
    simp only [k, toInt_toInt32, UInt32.toNat_ofNat']
    omega
  simp only [readUsage, Logged.safe_bind, Logged.safe_tell, Logged.safe_pure, and_true,
    Access.InBounds] at hsafe
  omega

theorem fieldLoop_bitOffsets (h : HidState) (data : UInt32) (base : UInt16) (n f : Nat)
    (l : LayoutState) :
    (fieldLoop stray h data base n f l).value.bitOffsets = l.bitOffsets := by
  induction n generalizing f l with
  | zero => rfl
  | succ n ih =>
    rw [fieldLoop]
    split
    · rw [ih]
      exact (report_placeField ..).1
    · split
      · rw [Logged.value_bind, ih]
        exact (report_placeField ..).1
      · rfl

/-- **The fields of an item**, from one on. -/
theorem Represents.fieldLoop (hr : Represents l c) (hok : x.h.Ok) (hwanted : x.wanted) {n f : Nat}
    (hf : f + n = x.h.reportCount.toNat) :
    let run := fieldLoop stray x.h x.data (.ofNat x.start) n f l
    (run.Safe (Access.InBounds len) ↔ n = 0 ∨ x.Bounded) ∧
      (n = 0 ∨ x.Bounded →
        Represents run.value (fun k => c k ++ (List.range' f n).flatMap (x.foundAt k))) := by
  induction n generalizing f l c with
  | zero => simpa [Hid.fieldLoop] using hr
  | succ n ih =>
    have hcount : x.h.reportCount.toNat < 2 ^ 32 := x.h.reportCount.toNat_lt
    have hnext : ∀ u, usageAt x.h f = some u →
        let run := Hid.fieldLoop stray x.h x.data (.ofNat x.start) n (f + 1)
          (placeField x.h x.data (.ofNat x.start) f u l)
        (run.Safe (Access.InBounds len) ↔ n = 0 ∨ x.Bounded) ∧
          (n = 0 ∨ x.Bounded → Represents run.value
            (fun k => c k ++ (List.range' f (n + 1)).flatMap (x.foundAt k))) := by
      intro u hu
      have hrest := ih (hr.place hok hwanted (f := f) (by omega) hu) (f := f + 1) (by omega)
      simpa only [List.range'_succ, List.flatMap_cons, List.append_assoc] using hrest
    by_cases hrange : x.h.haveRange
    · have hu : usageAt x.h f = some (x.h.usageMin + .ofNat f) := if_pos hrange
      have hbounded : x.Bounded := .inl hrange
      simpa [Hid.fieldLoop, hrange, hbounded] using hnext _ hu
    by_cases husages : x.h.usages = []
    · have hnone : ∀ k g, x.foundAt k g = [] := by
        intro k g
        simp [Input.foundAt, usageAt, hrange, husages]
      have hbounded : x.Bounded := .inr (.inl husages)
      have hnil : ∀ k, (List.range' f (n + 1)).flatMap (x.foundAt k) = [] := by
        simp [hnone]
      simpa [Hid.fieldLoop, hrange, husages, hnil, hbounded] using hr
    have hpos := List.length_pos_of_ne_nil husages
    rw [Hid.fieldLoop, if_neg hrange, if_pos hpos]
    by_cases hlow : f < 2 ^ 31
    · obtain ⟨hu, hread⟩ := @readUsage_usageAt stray len _ hok hrange husages _ hlow
      obtain ⟨hsafe, hrep⟩ := hnext _ hu
      have hiff : n = 0 ∨ x.Bounded ↔ n + 1 = 0 ∨ x.Bounded := by
        simp only [Input.Bounded, hrange, husages, false_or, Bool.false_eq_true]
        omega
      simp only [Logged.safe_bind, Logged.value_bind, hread, true_and, ← hiff]
      exact ⟨hsafe, hrep⟩
    · have hno : ¬ (n + 1 = 0 ∨ x.Bounded) := by
        simp only [Input.Bounded, hrange, husages, false_or, Bool.false_eq_true]
        omega
      have hread := @readUsage_beyond stray len x.h _ (Nat.le_of_not_lt hlow) (by omega)
      simp only [Logged.safe_bind, hread, false_and, hno, iff_self, true_and]
      exact fun h => absurd h (by simp)

/-- **An input item.** -/
theorem Represents.takeInput (hr : Represents l c) (hok : x.h.Ok)
    (hbase : l.bitOffsets x.h.reportId = .ofNat x.start) :
    let looks := x.wanted && ((c .x).isEmpty || x.h.reportId == ((c .x).headD {}).reportId)
    let run := takeInput stray l x
    (run.Safe (Access.InBounds len) ↔ (looks → x.Bounded)) ∧
      ((looks → x.Bounded) →
        Represents run.value (fun k => c k ++ if looks then x.fields k else [])) ∧
      run.value.bitOffsets =
        Function.update l.bitOffsets x.h.reportId (.ofNat (x.start + bits x.h)) := by
  intro looks run
  have hnext : UInt16.ofNat ((l.bitOffsets x.h.reportId).toNat + bits x.h) =
      .ofNat (x.start + bits x.h) := by
    rw [hbase, ofNat_ofNat_add]
  have hlooks : (Hid.wanted x.h x.data && (!l.locked || x.h.reportId == l.out.reportId)) = looks := by
    rw [hr.locked, hr.reportId, Bool.not_not]
    rfl
  obtain ⟨counted, hcounted⟩ : ∃ counted : LayoutState, counted = { l with
    bitOffsets := Function.update l.bitOffsets x.h.reportId (.ofNat (x.start + bits x.h)) } :=
    ⟨_, rfl⟩
  have hr' : Represents counted c := by
    rw [hcounted]
    exact ⟨hr.slot, hr.reportId, hr.locked, hr.size⟩
  have hoffsets : counted.bitOffsets =
      Function.update l.bitOffsets x.h.reportId (.ofNat (x.start + bits x.h)) := by
    rw [hcounted]
  have hrun : run = if looks then
      Hid.fieldLoop stray x.h x.data (.ofNat x.start) x.h.reportCount.toNat 0 counted
      else pure counted := by
    simp only [run, Hid.takeInput, inputItem, hlooks]
    rw [← bits, hnext, hbase, hcounted]
  rw [hrun, ← hoffsets]
  by_cases hlook : looks = true
  · have hwanted : x.wanted := (Bool.and_eq_true _ _ ▸ hlook).1
    obtain ⟨hsafe, hrep⟩ := @Represents.fieldLoop counted c x stray len hr' hok hwanted
      x.h.reportCount.toNat 0 (Nat.zero_add _)
    have hbounded : x.h.reportCount.toNat = 0 ∨ x.Bounded ↔ x.Bounded := by
      rw [or_iff_right_iff_imp]
      intro hzero
      exact .inr (.inr (by omega))
    rw [hbounded] at hsafe hrep
    simp only [hlook, if_true, forall_const, Input.fields, List.range_eq_range']
    exact ⟨hsafe, hrep, fieldLoop_bitOffsets ..⟩
  · simpa [hlook] using hr'

/-- The input items of a mouse before the one that has X. -/
def early (xs : List Input) : List Input :=
  (xs.filter Input.wanted).takeWhile fun x => (x.fields .x).isEmpty

/-- The input items of a mouse from the one that has X on. -/
def late (xs : List Input) : List Input :=
  (xs.filter Input.wanted).dropWhile fun x => (x.fields .x).isEmpty

/-- The report of X. -/
def mouseReport (xs : List Input) : Option UInt8 := (late xs).head?.map (·.h.reportId)

/-- The input items that the parser looks at. -/
def inForce (xs : List Input) : List Input :=
  early xs ++ (late xs).filter fun x => mouseReport xs == some x.h.reportId

/-- What the parser finds for a kind. -/
def found (xs : List Input) (k : Kind) : List Found := (inForce xs).flatMap (·.fields k)

variable {past : List HidState} {xs : List Input}

theorem startOf_step (hlinked : Linked past (x :: xs))
    (hoffsets : ∀ r, l.bitOffsets r = .ofNat (startOf past r)) (r : UInt8) :
    Function.update l.bitOffsets x.h.reportId (.ofNat (x.start + bits x.h)) r =
      .ofNat (startOf (past ++ [x.h]) r) := by
  rw [startOf_append]
  by_cases hid : x.h.reportId = r
  · rw [if_pos hid, hlinked.2.1, hid, Function.update_self]
  · rw [if_neg hid, Function.update_of_ne (Ne.symm hid), hoffsets, Nat.add_zero]

/-- **After X**, the parser looks at the items of its report. -/
theorem Represents.run_known {r : UInt8} (hr : Represents l c) (hx : c .x ≠ [])
    (hreport : ((c .x).headD {}).reportId = r) (hlinked : Linked past xs)
    (hoffsets : ∀ r, l.bitOffsets r = .ofNat (startOf past r)) :
    let later := xs.filter fun x => x.wanted && x.h.reportId == r
    let run := xs.foldlM (Hid.takeInput stray) l
    (run.Safe (Access.InBounds len) ↔ ∀ x ∈ later, x.Bounded) ∧
      ((∀ x ∈ later, x.Bounded) →
        Represents run.value (fun k => c k ++ later.flatMap (·.fields k))) := by
  induction xs generalizing past l c with
  | nil => simpa using hr
  | cons x xs ih =>
    have hbase : l.bitOffsets x.h.reportId = .ofNat x.start := by
      rw [hoffsets, hlinked.2.1]
    obtain ⟨hsafe, hrep, hnext⟩ := @Represents.takeInput l c x stray len hr hlinked.1 hbase
    have hlooks : (x.wanted && ((c .x).isEmpty || x.h.reportId == ((c .x).headD {}).reportId)) =
        (x.wanted && x.h.reportId == r) := by
      rw [hreport, List.isEmpty_eq_false_iff.mpr hx, Bool.false_or]
    rw [hlooks] at hsafe hrep
    have hoffsets' := fun r' => (congrFun hnext r').trans (startOf_step hlinked hoffsets r')
    simp only [List.foldlM_cons, Logged.safe_bind, Logged.value_bind, hsafe]
    obtain ⟨d, ds, hd⟩ := List.exists_cons_of_ne_nil hx
    by_cases hlook : (x.wanted && x.h.reportId == r) = true
    · simp only [hlook, if_true, forall_const, List.filter_cons, List.forall_mem_cons,
        List.flatMap_cons] at hrep ⊢
      have hrest := fun hb => ih (hrep hb) (by simp [hd]) (by simp [← hreport, hd]) hlinked.2.2
        hoffsets'
      refine ⟨and_congr_right fun hb => (hrest hb).1, ?_⟩
      intro hb
      simpa only [List.append_assoc] using (hrest hb.1).2 hb.2
    · simp only [hlook, if_false, List.append_nil, List.filter_cons, Bool.false_eq_true,
        false_implies, true_and, forall_const] at hrep ⊢
      exact ih hrep hx hreport hlinked.2.2 hoffsets'

/-- **Before X**, it looks at every item of a mouse. -/
theorem Represents.run_search (hr : Represents l c) (hx : c .x = []) (hlinked : Linked past xs)
    (hoffsets : ∀ r, l.bitOffsets r = .ofNat (startOf past r)) :
    let run := xs.foldlM (Hid.takeInput stray) l
    (run.Safe (Access.InBounds len) ↔ ∀ x ∈ inForce xs, x.Bounded) ∧
      ((∀ x ∈ inForce xs, x.Bounded) →
        Represents run.value (fun k => c k ++ found xs k)) := by
  induction xs generalizing past l c with
  | nil => simpa [inForce, early, late, found] using hr
  | cons x xs ih =>
    have hbase : l.bitOffsets x.h.reportId = .ofNat x.start := by
      rw [hoffsets, hlinked.2.1]
    obtain ⟨hsafe, hrep, hnext⟩ := @Represents.takeInput l c x stray len hr hlinked.1 hbase
    have hlooks : (x.wanted && ((c .x).isEmpty || x.h.reportId == ((c .x).headD {}).reportId)) =
        x.wanted := by
      rw [hx, List.isEmpty_nil, Bool.true_or, Bool.and_true]
    rw [hlooks] at hsafe hrep
    have hoffsets' := fun r' => (congrFun hnext r').trans (startOf_step hlinked hoffsets r')
    simp only [List.foldlM_cons, Logged.safe_bind, Logged.value_bind, hsafe]
    by_cases hwanted : x.wanted = true
    · simp only [hwanted, if_true, forall_const] at hrep ⊢
      by_cases hnone : x.fields .x = []
      · -- the search goes on
        have hforce : inForce (x :: xs) = x :: inForce xs := by
          simp [inForce, early, late, mouseReport, hwanted, hnone]
        have hrest := fun hb => ih (hrep hb) (by simp [hx, hnone]) hlinked.2.2 hoffsets'
        simp only [found, hforce, List.forall_mem_cons, List.flatMap_cons]
        refine ⟨and_congr_right fun hb => (hrest hb).1, ?_⟩
        intro hb
        simpa only [List.append_assoc, found] using (hrest hb.1).2 hb.2
      · -- this item has X
        obtain ⟨d, ds, hd⟩ := List.exists_cons_of_ne_nil hnone
        have hreport : d.reportId = x.h.reportId := by
          obtain ⟨f, -, -, heq⟩ := mem_fields.mp (hd ▸ List.mem_cons_self : d ∈ x.fields .x)
          rw [heq]
        have hforce : inForce (x :: xs) =
            x :: xs.filter fun y => y.wanted && y.h.reportId == x.h.reportId := by
          have hsame : ∀ y : Input, (some x.h.reportId == some y.h.reportId) =
              (y.h.reportId == x.h.reportId) := by
            intro y
            rw [Option.some_beq_some, BEq.comm]
          simp [inForce, early, late, mouseReport, hwanted, hnone, List.filter_filter, hsame,
            Bool.and_comm]
        have hrest := fun hb => @Represents.run_known _ _ stray len _ xs x.h.reportId (hrep hb)
          (by simp [hd]) (by simp [hx, hd, hreport]) hlinked.2.2 hoffsets'
        simp only [found, hforce, List.forall_mem_cons, List.flatMap_cons]
        refine ⟨and_congr_right fun hb => (hrest hb).1, ?_⟩
        intro hb
        simpa only [List.append_assoc] using (hrest hb.1).2 hb.2
    · have hforce : inForce (x :: xs) = inForce xs := by
        simp [inForce, early, late, mouseReport, hwanted]
      simp only [hwanted, if_false, List.append_nil, Bool.false_eq_true, false_implies,
        true_and, forall_const] at hrep ⊢
      simpa only [found, hforce] using ih hrep hx hlinked.2.2 hoffsets'

/-- **The layout** is made of what the parser finds, if it looks usages up where they are. -/
theorem parse_found (stray : Int → UInt32) (desc : Nat → UInt8) (len : Nat) :
    let xs := inputs desc len
    let run := usbHidParseMouseLayout stray desc len
    (run.Safe (Access.InBounds len) ↔ ∀ x ∈ inForce xs, x.Bounded) ∧
      ((∀ x ∈ inForce xs, x.Bounded) →
        (∀ k, slot run.value.2 k = ((found xs k).headD {}).field) ∧
        run.value.2.reportId = ((found xs .x).headD {}).reportId ∧
        (run.value.1 = true ↔ found xs .x ≠ [] ∧ found xs .y ≠ [])) := by
  intro xs run
  have hok : HidState.Ok {} := ⟨Nat.zero_le _, fun _ => rfl⟩
  have hinit : Represents {} (fun _ => []) := by
    refine ⟨?_, rfl, rfl, fun _ _ hd => absurd hd List.not_mem_nil⟩
    intro k
    cases k <;> rfl
  obtain ⟨hitems, hitemsSafe⟩ := @layoutLoop_items stray desc len 0 ({}, {})
  obtain ⟨hinputs, hinputsSafe⟩ := @items_inputs stray len [] (items desc len 0) {} {}
  obtain ⟨hsafe, hrep⟩ := @Represents.run_search {} (fun _ => []) stray len [] xs hinit rfl
    (linked_inputsFrom hok _) (fun _ => rfl)
  have hvalue : run.value =
      (let l := (xs.foldlM (Hid.takeInput stray) {}).value
       (l.out.x.size != 0 && l.out.y.size != 0, l.out)) := by
    simp only [run, usbHidParseMouseLayout, Logged.value_bind, Logged.value_pure]
    rw [hitems, hinputs]
    rfl
  refine ⟨?_, ?_⟩
  · simp only [run, usbHidParseMouseLayout, Logged.safe_bind, Logged.safe_pure, and_true]
    rw [hitemsSafe, hinputsSafe]
    exact hsafe
  · intro hbounded
    have hr := hrep hbounded
    simp only [List.nil_append] at hr
    have hx := hr.free_iff .x
    have hy := hr.free_iff .y
    simp only [slot] at hx hy
    rw [hvalue]
    refine ⟨hr.slot, hr.reportId, ?_⟩
    simp only [Bool.and_eq_true, bne_iff_ne, ne_eq, hx, hy]

/-! ## Reports -/

/-- The field is one of an input item of the report `r`. -/
def Belongs (xs : List Input) (r : UInt8) (k : Kind) (field : UsbHidField) : Prop :=
  ∃ x ∈ xs, x.h.reportId = r ∧ ∃ f < x.h.reportCount.toNat,
    (∃ u ∈ usageAt x.h f, k.accepts x.h x.data u) ∧ field = x.field f k

/-- What is found before X is of the report of X. -/
def OneReport (xs : List Input) : Prop :=
  found xs .x ≠ [] → found xs .y ≠ [] → ∀ k, ∀ d ∈ ((early xs).flatMap (·.fields k)).head?,
    ∀ r ∈ mouseReport xs, Belongs xs r k d.field

theorem found_eq (xs : List Input) (k : Kind) : found xs k = (early xs).flatMap (·.fields k) ++
    ((late xs).filter fun x => mouseReport xs == some x.h.reportId).flatMap (·.fields k) := by
  rw [found, inForce, List.flatMap_append]

theorem early_x (xs : List Input) : (early xs).flatMap (·.fields .x) = [] := by
  rw [List.flatMap_eq_nil_iff]
  intro x hx
  have hnone := List.mem_takeWhile_imp hx
  exact List.isEmpty_iff.mp hnone

theorem mouseReport_of_found {xs : List Input} (hx : found xs .x ≠ []) :
    mouseReport xs = some ((found xs .x).headD {}).reportId := by
  rw [found_eq, early_x, List.nil_append] at hx ⊢
  obtain ⟨d, ds, hd⟩ := List.exists_cons_of_ne_nil hx
  have hmem : d ∈ ((late xs).filter fun x => mouseReport xs == some x.h.reportId).flatMap
      (·.fields .x) := hd ▸ List.mem_cons_self
  obtain ⟨x, hxmem, hdmem⟩ := List.mem_flatMap.mp hmem
  obtain ⟨f, -, -, rfl⟩ := mem_fields.mp hdmem
  rw [hd]
  exact beq_iff_eq.mp (List.mem_filter.mp hxmem).2

theorem belongs_of_late {xs : List Input} {k : Kind} {d : Found} {r : UInt8}
    (hd : d ∈ ((late xs).filter fun x => mouseReport xs == some x.h.reportId).flatMap
      (·.fields k)) (hr : mouseReport xs = some r) : Belongs xs r k d.field := by
  obtain ⟨x, hx, hdmem⟩ := List.mem_flatMap.mp hd
  obtain ⟨hlate, hid⟩ := List.mem_filter.mp hx
  obtain ⟨f, hf, hu, rfl⟩ := mem_fields.mp hdmem
  have hmem : x ∈ xs := (List.mem_filter.mp ((List.dropWhile_sublist _).subset hlate)).1
  rw [hr, beq_iff_eq, Option.some.injEq] at hid
  exact ⟨x, hmem, hid.symm, f, hf, hu, rfl⟩

theorem inForce_wanted {xs : List Input} {x : Input} (hx : x ∈ inForce xs) : x.wanted := by
  have hmem : x ∈ xs.filter Input.wanted := by
    rcases List.mem_append.mp hx with hx | hx
    · exact (List.takeWhile_sublist _).subset hx
    · exact (List.dropWhile_sublist _).subset (List.mem_filter.mp hx).1
  exact (List.mem_filter.mp hmem).2

theorem found_size {xs : List Input} {k : Kind} {d : Found} (hd : d ∈ found xs k) :
    d.field.size ≠ 0 := by
  obtain ⟨x, hx, hdmem⟩ := List.mem_flatMap.mp hd
  obtain ⟨f, hf, -, rfl⟩ := mem_fields.mp hdmem
  exact field_size (inForce_wanted hx) hf k

/-- **The slots** are of one report if and only if what is found before X is of its report. -/
theorem belongs_iff_oneReport (xs : List Input) :
    (found xs .x ≠ [] ∧ found xs .y ≠ [] → ∀ k, ((found xs k).headD {}).field.size ≠ 0 →
      Belongs xs ((found xs .x).headD {}).reportId k ((found xs k).headD {}).field) ↔
    OneReport xs := by
  constructor
  · intro h hx hy k d hd r hr
    have hhead : (found xs k).headD {} = d := by
      rw [List.headD_eq_head?_getD, found_eq, List.head?_append, Option.mem_def.mp hd]
      rfl
    have hmem : d ∈ found xs k := by
      rw [found_eq]
      exact List.mem_append_left _ (List.mem_of_mem_head? hd)
    have hbelongs := h ⟨hx, hy⟩ k
    rw [mouseReport_of_found hx, Option.mem_some_iff] at hr
    rw [hhead, hr] at hbelongs
    exact hbelongs (found_size hmem)
  · rintro h ⟨hx, hy⟩ k hsize
    have hr := mouseReport_of_found hx
    cases hearly : (early xs).flatMap (·.fields k) with
    | cons d ds =>
      have hhead : (found xs k).headD {} = d := by
        rw [found_eq, hearly]
        rfl
      rw [hhead]
      exact h hx hy k d (by simp [hearly]) _ hr
    | nil =>
      have hfound := found_eq xs k
      rw [hearly, List.nil_append] at hfound
      rw [hfound] at hsize
      rw [hfound]
      cases hlate : ((late xs).filter fun x => mouseReport xs == some x.h.reportId).flatMap
          (·.fields k) with
      | nil => exact absurd (by rw [hlate]; rfl) hsize
      | cons d ds =>
        apply belongs_of_late _ hr
        rw [hlate]
        exact List.mem_cons_self

end Usb.Hid
