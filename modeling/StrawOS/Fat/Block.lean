import StrawOS.Lib.Buf

/-!
# Block devices

`block_read` and `block_write` of `block.c`.  A device is a row of sectors of 512
bytes, here one function from byte addresses; a transfer is cut into commands of
at most `BLOCK_MAX_TRANSFER` sectors for the driver, any of which can fail.
`faults` says which of the coming commands do: a device without I/O errors has
the empty list, and then a transfer inside the device does what one `memcpy`
would (`blockRead_eq`, `blockWrite_eq`).
-/

namespace Fat

/-- `BlockDevice`: the number of sectors, the bytes, and the outcomes of the
coming commands, `true` for one that fails.  When the list is used up, none do. -/
structure BlockDevice where
  sectors : Nat
  data : Nat → UInt8
  faults : List Bool := []

def blockMaxTransfer : Nat := 128

/-- The outcome of the next command, and the device after it. -/
def BlockDevice.command (dev : BlockDevice) : Bool × BlockDevice :=
  match dev.faults with
  | [] => (true, dev)
  | bad :: rest => (!bad, { dev with faults := rest })

/-- The device with bytes stored from an address on. -/
def BlockDevice.store (dev : BlockDevice) (a : Nat) (bytes : List UInt8) : BlockDevice :=
  { dev with data := Buf.write dev.data a bytes }

@[simp] theorem faults_store (dev : BlockDevice) (a : Nat) (bytes : List UInt8) :
    (dev.store a bytes).faults = dev.faults := rfl

@[simp] theorem sectors_store (dev : BlockDevice) (a : Nat) (bytes : List UInt8) :
    (dev.store a bytes).sectors = dev.sectors := rfl

/-- The transfer loop of `block_root_io` for a read. -/
def readLoop (dev : BlockDevice) (lba count : Nat) : Option (List UInt8) × BlockDevice :=
  if count = 0 then (some [], dev)
  else
    let n := min count blockMaxTransfer
    let done := dev.command
    if !done.1 then (none, done.2)
    else
      let bytes := Buf.read done.2.data (lba * 512) (n * 512)
      let rest := readLoop done.2 (lba + n) (count - n)
      (rest.1.map (bytes ++ ·), rest.2)
termination_by count
decreasing_by simp only [blockMaxTransfer]; omega

/-- The transfer loop of `block_root_io` for a write. -/
def writeLoop (dev : BlockDevice) (lba count : Nat) (buf : List UInt8) : Bool × BlockDevice :=
  if h : count = 0 then (true, dev)
  else
    let n := min count blockMaxTransfer
    let done := dev.command
    if !done.1 then (false, done.2)
    else
      let dev := done.2.store (lba * 512) (buf.take (n * 512))
      writeLoop dev (lba + n) (count - n) (buf.drop (n * 512))
termination_by count
decreasing_by simp only [blockMaxTransfer]; omega

/-- The range check of `block_root_io`. -/
def BlockDevice.refuses (dev : BlockDevice) (lba count : Nat) : Bool :=
  decide (count = 0 ∨ dev.sectors < lba + count)

def blockRead (dev : BlockDevice) (lba count : Nat) : Option (List UInt8) × BlockDevice :=
  if dev.refuses lba count then (none, dev) else readLoop dev lba count

def blockWrite (dev : BlockDevice) (lba count : Nat) (buf : List UInt8) : Bool × BlockDevice :=
  if dev.refuses lba count then (false, dev) else writeLoop dev lba count buf

variable {dev : BlockDevice} {lba count : Nat}

theorem command_eq (h : dev.faults = []) : dev.command = (true, dev) := by
  rw [BlockDevice.command, h]

theorem readLoop_eq (h : dev.faults = []) (lba count : Nat) :
    readLoop dev lba count = (some (Buf.read dev.data (lba * 512) (count * 512)), dev) := by
  induction count using Nat.strong_induction_on generalizing lba with
  | _ count ih =>
    rw [readLoop]
    split
    · rename_i h0
      simp [h0]
    · have hlt : count - min count blockMaxTransfer < count := by
        simp only [blockMaxTransfer]
        omega
      have hsum : count * 512 =
          min count blockMaxTransfer * 512 + (count - min count blockMaxTransfer) * 512 := by
        omega
      simp only [command_eq h, Bool.not_true, Bool.false_eq_true, if_false, ih _ hlt,
        Option.map_some, Nat.add_mul]
      rw [← Buf.read_add, ← hsum]

theorem writeLoop_eq (h : dev.faults = []) (lba count : Nat) (buf : List UInt8)
    (hbuf : buf.length = count * 512) :
    writeLoop dev lba count buf = (true, dev.store (lba * 512) buf) := by
  induction count using Nat.strong_induction_on generalizing dev lba buf with
  | _ count ih =>
    rw [writeLoop]
    split
    · rename_i h0
      obtain rfl : buf = [] := List.eq_nil_of_length_eq_zero (by rw [hbuf, h0])
      simp [BlockDevice.store]
    · have hlt : count - min count blockMaxTransfer < count := by
        simp only [blockMaxTransfer]
        omega
      have hlen : (buf.drop (min count blockMaxTransfer * 512)).length =
          (count - min count blockMaxTransfer) * 512 := by
        rw [List.length_drop, hbuf, Nat.sub_mul]
      have htake : (buf.take (min count blockMaxTransfer * 512)).length =
          min count blockMaxTransfer * 512 := by
        rw [List.length_take, hbuf]
        omega
      have happ := Buf.write_append dev.data (lba * 512)
        (buf.take (min count blockMaxTransfer * 512)) (buf.drop (min count blockMaxTransfer * 512))
      rw [List.take_append_drop, htake, ← Nat.add_mul] at happ
      simp only [command_eq h, Bool.not_true, Bool.false_eq_true, if_false]
      refine Eq.trans (ih _ hlt ?_ _ _ hlen) ?_
      · exact h
      · simp only [BlockDevice.store, happ]

theorem blockRead_eq (h : dev.faults = []) (lba : Nat) (hc : 0 < count)
    (hin : lba + count ≤ dev.sectors) :
    blockRead dev lba count = (some (Buf.read dev.data (lba * 512) (count * 512)), dev) := by
  have hok : dev.refuses lba count = false := by simp [BlockDevice.refuses]; omega
  simp [blockRead, hok, readLoop_eq h]

theorem blockWrite_eq (h : dev.faults = []) (lba : Nat) (hc : 0 < count)
    (hin : lba + count ≤ dev.sectors)
    {buf : List UInt8} (hbuf : buf.length = count * 512) :
    blockWrite dev lba count buf = (true, dev.store (lba * 512) buf) := by
  have hok : dev.refuses lba count = false := by simp [BlockDevice.refuses]; omega
  simp [blockWrite, hok, writeLoop_eq h lba count buf hbuf]

theorem store_self {bytes : List UInt8} {a k : Nat} (hk : k < bytes.length) :
    (dev.store a bytes).data (a + k) = bytes[k] :=
  Buf.write_of_mem hk

theorem store_of_other_sector {bytes : List UInt8} (hb : bytes.length = 512) {a : Nat}
    (ha : a / 512 ≠ lba) : (dev.store (lba * 512) bytes).data a = dev.data a := by
  rcases Nat.lt_or_ge a (lba * 512) with hlt | hge
  · exact Buf.write_of_lt hlt
  · exact Buf.write_of_ge (by grind)

end Fat
