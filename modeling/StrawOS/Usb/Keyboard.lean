import Mathlib.Data.UInt
import StrawOS.Lib.Buf
import StrawOS.Lib.Machine

/-!
# The keyboard ring and the USB keyboard

`keyboard.c` keeps the scancodes that nobody has read yet in a ring of
`KBD_BUF_SIZE` bytes, one of which stays free; a byte that finds the ring full is
dropped.  `usb_hid.c` turns the boot reports of a USB keyboard into set-1 scancodes:
one byte, or two of which the first is `0xE0`.

`KbdRing.queue` lists the bytes in the ring in the order in which they are read.
-/

namespace Usb

/-! ## The ring -/

def kbdBufSize : Nat := 256

/-- `kbd_ring` with its indices. -/
structure KbdRing where
  ring : Nat → UInt8
  head : Nat
  tail : Nat
  headLt : head < kbdBufSize
  tailLt : tail < kbdBufSize

/-- The ring after `keyboard_init`. -/
def KbdRing.init : KbdRing where
  ring := fun _ => 0
  head := 0
  tail := 0
  headLt := by decide
  tailLt := by decide

theorem kbd_index_lt (i : Nat) : i % kbdBufSize < kbdBufSize := Nat.mod_lt i (by decide)

/-- A byte would be stored. -/
def KbdRing.hasRoom (r : KbdRing) : Bool := (r.head + 1) % kbdBufSize != r.tail

/-- `keyboard_push_scancode`. -/
def KbdRing.push (r : KbdRing) (sc : UInt8) : KbdRing :=
  if r.hasRoom then
    { r with
      ring := Function.update r.ring r.head sc
      head := (r.head + 1) % kbdBufSize
      headLt := kbd_index_lt _ }
  else r

/-- `keyboard_read_raw`: the bytes read, and the ring. -/
def KbdRing.readRaw (r : KbdRing) : (count : Nat) → List UInt8 × KbdRing
  | 0 => ([], r)
  | count + 1 =>
      if r.tail = r.head then ([], r)
      else
        let rest := KbdRing.readRaw
          { r with tail := (r.tail + 1) % kbdBufSize, tailLt := kbd_index_lt _ } count
        (r.ring r.tail :: rest.1, rest.2)

/-- The number of bytes in the ring. -/
def KbdRing.live (r : KbdRing) : Nat := (r.head + kbdBufSize - r.tail) % kbdBufSize

/-- The bytes in the ring, oldest first. -/
def KbdRing.queue (r : KbdRing) : List UInt8 := Buf.ring kbdBufSize r.ring r.tail r.live

theorem KbdRing.head_eq (r : KbdRing) : r.head = (r.tail + r.live) % kbdBufSize := by
  have hh := r.headLt
  have ht := r.tailLt
  grind [KbdRing.live, kbdBufSize]

theorem KbdRing.hasRoom_iff (r : KbdRing) : r.hasRoom = true ↔ r.live + 1 < kbdBufSize := by
  have ht := r.tailLt
  grind [KbdRing.hasRoom, KbdRing.live, kbdBufSize]

theorem KbdRing.queue_push (r : KbdRing) (sc : UInt8) :
    (r.push sc).queue = if r.hasRoom then r.queue ++ [sc] else r.queue := by
  by_cases hroom : r.hasRoom = true
  · have hfit := r.hasRoom_iff.mp hroom
    have hhead := r.head_eq
    have hlive : ((r.head + 1) % kbdBufSize + kbdBufSize - r.tail) % kbdBufSize = r.live + 1 := by
      have ht := r.tailLt
      grind [kbdBufSize]
    have hpush := Buf.ring_push_one r.ring sc r.tailLt (by omega : r.live < kbdBufSize)
    rw [← hhead] at hpush
    rw [if_pos hroom, KbdRing.push, if_pos hroom, KbdRing.queue, KbdRing.live, hlive]
    exact hpush
  · rw [KbdRing.push, if_neg hroom, if_neg hroom]

theorem KbdRing.tail_eq_head_iff (r : KbdRing) : r.tail = r.head ↔ r.live = 0 := by
  have hh := r.headLt
  have ht := r.tailLt
  grind [KbdRing.live, kbdBufSize]

theorem KbdRing.queue_readRaw (r : KbdRing) (count : Nat) :
    (r.readRaw count).1 = r.queue.take count ∧ (r.readRaw count).2.queue = r.queue.drop count := by
  induction count generalizing r with
  | zero => exact ⟨rfl, rfl⟩
  | succ count ih =>
    rw [KbdRing.readRaw]
    by_cases hempty : r.tail = r.head
    · have hqueue : r.queue = [] := by
        rw [KbdRing.queue, r.tail_eq_head_iff.mp hempty, Buf.ring_zero]
      rw [if_pos hempty]
      exact ⟨by rw [hqueue, List.take_nil], by rw [hqueue, List.drop_nil]⟩
    · rw [if_neg hempty]
      have hpos : r.live ≠ 0 := fun h => hempty (r.tail_eq_head_iff.mpr h)
      obtain ⟨n, hn⟩ := Nat.exists_eq_succ_of_ne_zero hpos
      have hlive : (r.head + kbdBufSize - (r.tail + 1) % kbdBufSize) % kbdBufSize = n := by
        have hh := r.headLt
        have ht := r.tailLt
        simp only [KbdRing.live, kbdBufSize] at hn hh ht ⊢
        omega
      let r' : KbdRing := { r with tail := (r.tail + 1) % kbdBufSize, tailLt := kbd_index_lt _ }
      have hqueue' : r'.queue = Buf.ring kbdBufSize r.ring ((r.tail + 1) % kbdBufSize) n :=
        congrArg (Buf.ring kbdBufSize r.ring ((r.tail + 1) % kbdBufSize)) hlive
      have hqueue : r.queue = r.ring r.tail :: r'.queue := by
        rw [hqueue', KbdRing.queue, hn]
        exact Buf.ring_succ r.ring r.tailLt n
      obtain ⟨hread, hrest⟩ := ih r'
      rw [hqueue, List.take_succ_cons, List.drop_succ_cons]
      exact ⟨congrArg _ hread, hrest⟩

/-! ## The keyboard -/

/-- `usb_hid_usage_to_set1`. -/
def usageToSet1 : List UInt16 :=
  [0, 0, 0, 0, 0x1E, 0x30, 0x2E, 0x20, 0x12, 0x21, 0x22, 0x23, 0x17, 0x24, 0x25, 0x26,
   0x32, 0x31, 0x18, 0x19, 0x10, 0x13, 0x1F, 0x14, 0x16, 0x2F, 0x11, 0x2D, 0x15, 0x2C, 0x02, 0x03,
   0x04, 0x05, 0x06, 0x07, 0x08, 0x09, 0x0A, 0x0B, 0x1C, 0x01, 0x0E, 0x0F, 0x39, 0x0C, 0x0D, 0x1A,
   0x1B, 0x2B, 0x2B, 0x27, 0x28, 0x29, 0x33, 0x34, 0x35, 0x3A, 0x3B, 0x3C, 0x3D, 0x3E, 0x3F, 0x40,
   0x41, 0x42, 0x43, 0x44, 0x57, 0x58, 0xE037, 0x46, 0, 0xE052, 0xE047, 0xE049, 0xE053, 0xE04F,
   0xE051, 0xE04D, 0xE04B, 0xE050, 0xE048, 0x45, 0xE035, 0x37, 0x4A, 0x4E, 0xE01C, 0x4F, 0x50, 0x51,
   0x4B, 0x4C, 0x4D, 0x47, 0x48, 0x49, 0x52, 0x53, 0x56, 0xE05D]

/-- `usb_hid_modifier_to_set1`. -/
def modifierToSet1 : List UInt16 := [0x1D, 0x2A, 0x38, 0xE05B, 0xE01D, 0x36, 0xE038, 0xE05C]

/-- The first byte of a scancode of two. -/
def extendedPrefix : UInt8 := 0xE0

/-- A call of `usb_hid_emit`. -/
structure ScanCode where
  code : UInt16
  pressed : Bool
  deriving DecidableEq

/-- The call pushes two bytes. -/
def ScanCode.isExtended (c : ScanCode) : Bool := c.code >>> 8 == 0xE0

/-- The byte behind the prefix, or the only one. -/
def ScanCode.low (c : ScanCode) : UInt8 :=
  (c.code &&& 0x7F).toUInt8 ||| (if c.pressed then 0 else 0x80)

/-- The bytes that `usb_hid_emit` pushes. -/
def ScanCode.bytes (c : ScanCode) : List UInt8 :=
  if c.code = 0 then []
  else if c.isExtended then [extendedPrefix, c.low]
  else [c.low]

/-- `usb_hid_emit_usage`: the call it makes, if any. -/
def usbHidEmitUsage (usage : UInt8) (pressed : Bool) : List ScanCode :=
  match usageToSet1[usage.toNat]? with
  | none => []
  | some code => [⟨code, pressed⟩]

structure UsbHidKeyboard where
  prev : List UInt8 := List.replicate 8 0
  repeatUsage : UInt8 := 0
  repeatTicks : UInt32 := 0
  deriving DecidableEq

/-- A byte of a report. -/
def reportByte (report : List UInt8) (i : Nat) : UInt8 := report.getD i 0

/-- The indices of the keys in a report. -/
def keySlots : List Nat := [2, 3, 4, 5, 6, 7]

/-- `usb_hid_report_has_key`. -/
def reportHasKey (report : List UInt8) (usage : UInt8) : Bool :=
  keySlots.any fun i => reportByte report i == usage

/-- The modifiers that a report changes. -/
def modifierCodes (kbd : UsbHidKeyboard) (report : List UInt8) : List ScanCode :=
  (List.range 8).filterMap fun bit =>
    let mask : UInt8 := 1 <<< UInt8.ofNat bit
    if (reportByte report 0 ^^^ reportByte kbd.prev 0) &&& mask = 0 then none
    else some ⟨modifierToSet1.getD bit 0, reportByte report 0 &&& mask != 0⟩

/-- The keys of a report that another one does not have. -/
def keysOnlyIn (report other : List UInt8) : List UInt8 :=
  (keySlots.map (reportByte report)).filter fun usage => 4 ≤ usage && !reportHasKey other usage

/-- `usb_hid_keyboard_report`: the calls of `usb_hid_emit`, and the keyboard. -/
def usbHidKeyboardReport (kbd : UsbHidKeyboard) (report : List UInt8) :
    List ScanCode × UsbHidKeyboard :=
  if report.length < 8 then ([], kbd)
  else if reportByte report 2 = 1 then ([], kbd)
  else
    let released := keysOnlyIn kbd.prev report
    let pressed := keysOnlyIn report kbd.prev
    let kbd' := released.foldl
      (fun kbd usage => if usage = kbd.repeatUsage then { kbd with repeatUsage := 0 } else kbd) kbd
    let kbd' := pressed.foldl
      (fun kbd usage => { kbd with repeatUsage := usage, repeatTicks := 0 }) kbd'
    (modifierCodes kbd report ++ released.flatMap (usbHidEmitUsage · false) ++
        pressed.flatMap (usbHidEmitUsage · true),
      { kbd' with prev := report.take 8 })

/-- `USB_HID_REPEAT_DELAY_TICKS` and `USB_HID_REPEAT_RATE_TICKS`. -/
def repeatDelayTicks : UInt32 := 500
def repeatRateTicks : UInt32 := 33

def usbHidKeyboardTick (kbd : UsbHidKeyboard) : List ScanCode × UsbHidKeyboard :=
  if kbd.repeatUsage = 0 then ([], kbd)
  else
    let ticks := kbd.repeatTicks + 1
    (if repeatDelayTicks ≤ ticks ∧ (ticks - repeatDelayTicks) % repeatRateTicks = 0 then
        usbHidEmitUsage kbd.repeatUsage true
      else [],
      { kbd with repeatTicks := ticks })

end Usb

/-!
# The scancodes that readers see

USB keyboards are polled one after the other, and the bytes of their scancodes are
pushed one by one; a reader may run between any two pushes.  `keyboardMachine` takes
one push or one call of `keyboard_read_raw` at a time.

The ring drops bytes, not codes.  `Whole` says that no code was torn: what was read,
and what is still to be read, are the bytes of whole codes.  It holds in every run in
which both bytes of a code find room, or neither (`reachable_whole`).
-/

namespace Usb

/-- The ring, the keyboards, and how far the poller has come. -/
structure Keyboards where
  ring : KbdRing
  kbds : Nat → UsbHidKeyboard
  /-- The calls of `usb_hid_emit` that the report or tick has still to make. -/
  pending : List ScanCode
  /-- The second byte of a code whose prefix has been pushed, and whether the prefix
  was stored. -/
  half : Option (UInt8 × Bool)
  /-- The calls of `usb_hid_emit` so far. -/
  emitted : List ScanCode
  /-- The bytes that readers have got. -/
  delivered : List UInt8

/-- What can happen next. -/
inductive KeyboardOp
  | report (kbd : Nat) (report : List UInt8)
  | tick (kbd : Nat)
  | push
  | read (count : Nat)
  deriving DecidableEq

/-- The poller has nothing left to push. -/
def Keyboards.idle (s : Keyboards) : Bool := s.pending.isEmpty && s.half.isNone

/-- A keyboard is handled; the codes it emits are still to be pushed. -/
def Keyboards.handle (s : Keyboards) (kbd : Nat)
    (f : UsbHidKeyboard → List ScanCode × UsbHidKeyboard) : Keyboards :=
  if s.idle then
    { s with
      kbds := Function.update s.kbds kbd (f (s.kbds kbd)).2
      pending := (f (s.kbds kbd)).1 }
  else s

/-- The next call of `keyboard_push_scancode`. -/
def Keyboards.pushNext (s : Keyboards) : Keyboards :=
  match s.half with
  | some (low, _) => { s with ring := s.ring.push low, half := none }
  | none =>
      match s.pending with
      | [] => s
      | c :: rest =>
          let called := { s with pending := rest, emitted := s.emitted ++ [c] }
          if c.code = 0 then called
          else if c.isExtended then
            { called with
              ring := s.ring.push extendedPrefix
              half := some (c.low, s.ring.hasRoom) }
          else { called with ring := s.ring.push c.low }

def keyboardStep (s : Keyboards) : KeyboardOp → Keyboards
  | .report kbd report => s.handle kbd (usbHidKeyboardReport · report)
  | .tick kbd => s.handle kbd usbHidKeyboardTick
  | .push => s.pushNext
  | .read count =>
      { s with
        ring := (s.ring.readRaw count).2
        delivered := s.delivered ++ (s.ring.readRaw count).1 }

/-- The state after `keyboard_init`. -/
def Keyboards.init : Keyboards where
  ring := .init
  kbds := fun _ => {}
  pending := []
  half := none
  emitted := []
  delivered := []

def keyboardMachine : Machine Keyboards KeyboardOp Unit where
  start s := s = .init
  step s op := (keyboardStep s op, [])

/-- The byte that completes a code whose prefix is in the ring or was read. -/
def Keyboards.owed (s : Keyboards) : List UInt8 :=
  match s.half with
  | some (low, true) => [low]
  | _ => []

/-- What was read, what is in the ring and what completes it are the bytes of codes
that were emitted, in the order in which they were. -/
def Whole (s : Keyboards) : Prop :=
  ∃ kept : List ScanCode, kept.Sublist s.emitted ∧
    s.delivered ++ s.ring.queue ++ s.owed = kept.flatMap ScanCode.bytes

/-- The second byte of a code is pushed only when it finds room exactly if its prefix
did. -/
def Untorn (s : Keyboards) (op : KeyboardOp) : Prop :=
  op = .push → ∀ low stored, s.half = some (low, stored) → s.ring.hasRoom = stored

theorem Keyboards.handle_whole {s : Keyboards} (h : Whole s) (kbd : Nat)
    (f : UsbHidKeyboard → List ScanCode × UsbHidKeyboard) : Whole (s.handle kbd f) := by
  rw [Keyboards.handle]
  split <;> exact h

/-- The second byte of a code follows its prefix, or is dropped like it. -/
theorem Keyboards.pushLow_whole {s : Keyboards} (h : Whole s) {low : UInt8} {stored : Bool}
    (hhalf : s.half = some (low, stored)) (hroom : s.ring.hasRoom = stored) :
    Whole s.pushNext := by
  obtain ⟨kept, hsub, hbytes⟩ := h
  have hnext : s.pushNext = { s with ring := s.ring.push low, half := none } := by
    rw [Keyboards.pushNext, hhalf]
  refine ⟨kept, hnext ▸ hsub, ?_⟩
  rw [hnext, ← hbytes]
  cases stored <;> simp [KbdRing.queue_push, hroom, Keyboards.owed, hhalf]

/-- A call of `usb_hid_emit` adds a code to those kept, or nothing. -/
theorem Keyboards.emit_whole {s : Keyboards} (h : Whole s) (hhalf : s.half = none)
    {c : ScanCode} {rest : List ScanCode} (hpending : s.pending = c :: rest) :
    Whole s.pushNext := by
  obtain ⟨kept, hsub, hbytes⟩ := h
  have howed : s.owed = [] := by rw [Keyboards.owed, hhalf]
  rw [howed, List.append_nil] at hbytes
  have hkept : (kept ++ [c]).Sublist (s.emitted ++ [c]) := hsub.append (List.Sublist.refl _)
  have hlost : kept.Sublist (s.emitted ++ [c]) := hsub.trans (List.sublist_append_left _ _)
  have hflat : (kept ++ [c]).flatMap ScanCode.bytes = s.delivered ++ s.ring.queue ++ c.bytes := by
    rw [List.flatMap_append, ← hbytes, List.flatMap_singleton]
  simp only [Keyboards.pushNext, hhalf, hpending]
  by_cases hzero : c.code = 0
  · rw [if_pos hzero]
    exact ⟨kept, hlost, by simp [Keyboards.owed, hbytes]⟩
  rw [if_neg hzero]
  by_cases hext : c.isExtended = true
  · rw [if_pos hext]
    have hc : c.bytes = [extendedPrefix, c.low] := by rw [ScanCode.bytes, if_neg hzero, if_pos hext]
    cases hroom : s.ring.hasRoom with
    | true =>
      refine ⟨kept ++ [c], hkept, ?_⟩
      simp [Keyboards.owed, KbdRing.queue_push, hroom, hflat, hc]
    | false =>
      refine ⟨kept, hlost, ?_⟩
      simp [Keyboards.owed, KbdRing.queue_push, hroom, hbytes]
  · rw [if_neg hext]
    have hc : c.bytes = [c.low] := by rw [ScanCode.bytes, if_neg hzero, if_neg hext]
    cases hroom : s.ring.hasRoom with
    | true =>
      refine ⟨kept ++ [c], hkept, ?_⟩
      simp [Keyboards.owed, KbdRing.queue_push, hroom, hflat, hc]
    | false =>
      refine ⟨kept, hlost, ?_⟩
      simp [Keyboards.owed, KbdRing.queue_push, hroom, hbytes]

theorem Keyboards.read_whole {s : Keyboards} (h : Whole s) (count : Nat) :
    Whole (keyboardStep s (.read count)) := by
  obtain ⟨kept, hsub, hbytes⟩ := h
  obtain ⟨hread, hrest⟩ := s.ring.queue_readRaw count
  refine ⟨kept, hsub, ?_⟩
  calc s.delivered ++ (s.ring.readRaw count).1 ++ (s.ring.readRaw count).2.queue ++ s.owed
      = s.delivered ++ (s.ring.queue.take count ++ s.ring.queue.drop count) ++ s.owed := by
        rw [hread, hrest, List.append_assoc s.delivered]
    _ = kept.flatMap ScanCode.bytes := by rw [List.take_append_drop, hbytes]

theorem keyboardStep_whole {s : Keyboards} (h : Whole s) {op : KeyboardOp} (hop : Untorn s op) :
    Whole (keyboardStep s op) := by
  cases op with
  | report kbd report => exact Keyboards.handle_whole h kbd _
  | tick kbd => exact Keyboards.handle_whole h kbd _
  | read count => exact Keyboards.read_whole h count
  | push =>
    cases hhalf : s.half with
    | some half => exact Keyboards.pushLow_whole h hhalf (hop rfl _ _ hhalf)
    | none =>
      cases hpending : s.pending with
      | cons c rest => exact Keyboards.emit_whole h hhalf hpending
      | nil =>
        have hstay : keyboardStep s .push = s := by
          simp [keyboardStep, Keyboards.pushNext, hhalf, hpending]
        rw [hstay]
        exact h

/-- Readers get whole codes in every run in which, of the two bytes of a code, both
find room in the ring or neither does. -/
theorem reachable_whole {s : Keyboards} (hs : keyboardMachine.Reachable Untorn s) : Whole s := by
  refine hs.invariant (P := Whole) ?_ ?_
  · rintro s rfl
    exact ⟨[], List.Sublist.refl _, rfl⟩
  · intro s op h hop
    exact keyboardStep_whole h hop

/-- A report with the given keys. -/
def keys (usages : List UInt8) : List UInt8 := (([0, 0] ++ usages) ++ List.replicate 6 0).take 8

/-- The right arrow is pressed and read byte by byte, the first before the second is
pushed. -/
def arrowOps : List KeyboardOp := [.report 0 (keys [0x4F]), .push, .read 1, .push, .read 8]

theorem arrowOps_whole : Whole (keyboardMachine.run .init arrowOps) := by
  refine reachable_whole (Machine.Reachable.run (.start rfl) arrowOps ?_)
  simp only [arrowOps, Machine.guarded_cons]
  refine ⟨?_, ?_, ?_, ?_, ?_, Machine.guarded_nil⟩
  · rintro ⟨⟩
  · intro _ low stored hhalf
    cases hhalf
  · rintro ⟨⟩
  · intro _ low stored hhalf
    cases hhalf
    decide
  · rintro ⟨⟩

/-- No code of the tables ends in a prefix, so no stream of whole codes does. -/
theorem flatMap_getLast_ne {kept : List ScanCode}
    (h : ∀ c ∈ kept, c.bytes.getLast? ≠ some extendedPrefix) :
    (kept.flatMap ScanCode.bytes).getLast? ≠ some extendedPrefix := by
  induction kept with
  | nil => simp
  | cons c kept ih => grind

/-- A key pressed and released `n` times, with its bytes pushed. -/
def toggles : Nat → List KeyboardOp
  | 0 => []
  | n + 1 => .report 0 (keys [4]) :: .push :: .report 0 (keys []) :: .push :: toggles n

/-- The ring has one free place left when the right arrow is pressed. -/
def tornOps : List KeyboardOp := toggles 127 ++ [.report 0 (keys [0x4F]), .push, .push, .read 256]

/-- The reader gets a prefix without its code. -/
theorem tornOps_torn :
    ∃ s, keyboardMachine.Reachable (fun _ _ => True) s ∧ s.idle = true ∧ ¬ Whole s := by
  refine ⟨keyboardMachine.run .init tornOps,
    Machine.Reachable.run (.start rfl) tornOps fun _ _ _ _ => trivial, by decide +kernel, ?_⟩
  rintro ⟨kept, hsub, hbytes⟩
  have hcodes : ∀ c ∈ (keyboardMachine.run .init tornOps).emitted,
      c.bytes.getLast? ≠ some extendedPrefix := by
    decide +kernel
  have hlast : ((keyboardMachine.run .init tornOps).delivered ++
      (keyboardMachine.run .init tornOps).ring.queue ++
        (keyboardMachine.run .init tornOps).owed).getLast? = some extendedPrefix := by
    decide +kernel
  refine flatMap_getLast_ne (fun c hc => hcodes c (hsub.subset hc)) ?_
  rw [← hbytes]
  exact hlast

end Usb
