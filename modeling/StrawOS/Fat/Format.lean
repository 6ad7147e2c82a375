import StrawOS.Fat.Load
import Mathlib.Data.List.GetD

/-!
# Formatting a volume

`fat32_format` chooses the size of the table by a formula that looks at the whole
device and not at the clusters it will have.  `formatLayout_words` says that the
table is always large enough: in each of the five regimes the table has more
sectors than a cluster, which is what the formula is off by.
-/

-- Unification counts down the literal 512 of the sector size.
set_option maxRecDepth 2000

namespace Fat

open Vfs (CString)

/-! ## Mounting -/

/-- A label in its field of 11 characters. -/
def labelField (label : CString) : List UInt8 :=
  label.take 11 ++ List.replicate (11 - label.length) 32

def fat32HasLabel (dev : BlockDevice) (label : CString) : Bool :=
  (fatParseBoot dev).isSome &&
    match (blockRead dev 0 1).1 with
    | none => false
    | some bs => (bs.drop 71).take 11 == labelField label

/-- `fat32_mount`: the driver and the root directory. -/
def fat32Mount (dev : BlockDevice) : Option (Fat32 × FatNode) :=
  (fatParseBoot dev).map fun geo =>
    ({ geo := geo
       nextFree := 2
       cacheSector := 0
       cacheValid := false
       cacheDirty := false
       cache := fun _ => 0
       dev := (blockRead dev 0 1).2 },
      { cluster := geo.rootCluster })

/-! ## The layout -/

/-- The sizes that `fat32_format` computes. -/
structure Layout where
  total : Nat
  spc : Nat
  fatSectors : Nat
  dataStart : Nat
  deriving DecidableEq, Repr

/-- Sectors per cluster, by the size of the volume. -/
def formatSpc (total : Nat) : Nat :=
  if total ≤ 532480 then 1 else if total ≤ 16777216 then 8 else if total ≤ 33554432 then 16
  else if total ≤ 67108864 then 32 else 64

/-- The layout for a device; the difference and the sum in the quotient have 64
bits, the results 32. -/
def formatLayout (sectors : Nat) : Layout :=
  let total := min sectors 0xFFFFFFFF
  let spc := formatSpc total
  let tmp := (256 * spc + 2) / 2
  let fatSectors := ((total + (2 ^ 64 - 32)) % 2 ^ 64 + (tmp - 1)) % 2 ^ 64 / tmp % 2 ^ 32
  { total := total
    spc := spc
    fatSectors := fatSectors
    dataStart := (32 + 2 * fatSectors) % 2 ^ 32 }

/-- The volume is large enough for FAT32. -/
def Layout.large (l : Layout) : Bool :=
  decide (l.dataStart < l.total ∧ 65525 ≤ (l.total - l.dataStart) / l.spc)

/-! ## The sectors -/

/-- What `fat32_format` finds outside the file system: the place of the partition,
a random number, the clock, and whether the allocation and the flush succeed. -/
structure FormatEnv where
  offset : UInt64 := 0
  random : UInt64 := 0
  rtc : Option RtcTime := none
  allocated : Bool := true
  flushed : Bool := true

/-- The boot sector up to the volume label. -/
def bootHead (env : FormatEnv) (l : Layout) : List UInt8 :=
  [0xEB, 0x58, 0x90] ++
    [77, 83, 87, 73, 78, 52, 46, 49] ++  -- MSWIN4.1
    Endian.store16 512 ++ [.ofNat l.spc] ++ Endian.store16 32 ++ [2] ++
    [0, 0, 0, 0, 0xF8, 0, 0] ++ Endian.store16 63 ++ Endian.store16 255 ++
    Endian.store32 (.ofNat env.offset.toNat) ++ Endian.store32 (.ofNat l.total) ++
    Endian.store32 (.ofNat l.fatSectors) ++ [0, 0, 0, 0] ++ Endian.store32 2 ++
    Endian.store16 1 ++ Endian.store16 6 ++
    [0, 0, 0, 0, 0, 0, 0, 0, 0, 0, 0, 0, 0x80, 0, 0x29] ++
    Endian.store32 (.ofNat env.random.toNat)

/-- `bs`. -/
def bootSector (env : FormatEnv) (l : Layout) (label : CString) : List UInt8 :=
  bootHead env l ++ labelField label ++
    [70, 65, 84, 51, 50, 32, 32, 32] ++  -- FAT32
    List.replicate 420 0 ++ [0x55, 0xAA]

/-- `info`. -/
def infoSector : List UInt8 :=
  Endian.store32 0x41615252 ++ List.replicate 480 0 ++ Endian.store32 0x61417272 ++
    Endian.store32 0xFFFFFFFF ++ Endian.store32 0xFFFFFFFF ++ List.replicate 12 0 ++
    Endian.store32 0xAA550000

/-- `fat`. -/
def tableSector : List UInt8 :=
  Endian.store32 0x0FFFFFF8 ++ Endian.store32 0x0FFFFFFF ++ Endian.store32 0x0FFFFFFF ++
    List.replicate 500 0

/-- `root`. -/
def rootSector (env : FormatEnv) (label : CString) : List UInt8 :=
  shortSlot (labelField label) attrVolume 0 0 (fatTimestamp env.rtc) ++ List.replicate 480 0

/-- The sectors that `fat32_format` writes over the zeros. -/
def formatSectors (env : FormatEnv) (l : Layout) (label : CString) : List (Nat × List UInt8) :=
  [(0, bootSector env l label), (1, infoSector), (6, bootSector env l label), (7, infoSector),
    (32, tableSector), (32 + l.fatSectors, tableSector), (l.dataStart, rootSector env label)]

def fatZeroRange (dev : BlockDevice) (lba count : Nat) : Bool × BlockDevice :=
  if count = 0 then (true, dev)
  else
    let n := min count blockMaxTransfer
    let done := blockWrite dev lba n (List.replicate (n * 512) 0)
    if !done.1 then (false, done.2) else fatZeroRange done.2 (lba + n) (count - n)
termination_by count
decreasing_by simp only [blockMaxTransfer]; omega

/-- Writes of one sector each, up to the first that fails. -/
def writeSectors : List (Nat × List UInt8) → BlockDevice → Bool × BlockDevice
  | [], dev => (true, dev)
  | (lba, bytes) :: rest, dev =>
      let done := blockWrite dev lba 1 bytes
      if !done.1 then (false, done.2) else writeSectors rest done.2

def fat32Format (env : FormatEnv) (dev : BlockDevice) (label : CString) : Bool × BlockDevice :=
  let l := formatLayout dev.sectors
  if !l.large then (false, dev)
  else if !env.allocated then (false, dev)
  else
    let front := fatZeroRange dev 0 l.dataStart
    if !front.1 then (false, front.2)
    else
      let root := fatZeroRange front.2 l.dataStart l.spc
      if !root.1 then (false, root.2)
      else
        let done := writeSectors (formatSectors env l label) root.2
        (done.1 && env.flushed, done.2)

/-! ## The size of the table -/

/-- What a layout that is large enough has. -/
structure Layout.Sound (l : Layout) (sectors : Nat) : Prop where
  total : l.total ≤ sectors ∧ l.total < 2 ^ 32
  spc : l.spc = 1 ∨ l.spc = 8 ∨ l.spc = 16 ∨ l.spc = 32 ∨ l.spc = 64
  start : l.dataStart = 32 + 2 * l.fatSectors
  room : l.dataStart < l.total
  large : 65525 ≤ (l.total - l.dataStart) / l.spc
  table : 64 < l.fatSectors ∧ l.fatSectors < 2 ^ 25
  words : (l.total - l.dataStart) / l.spc + 2 ≤ l.fatSectors * 128
  marks : (l.total - l.dataStart) / l.spc < 2 ^ 27

theorem tableQuotient_bounds {total spc : Nat} (ht : total < 2 ^ 32) (hpos : 0 < spc)
    (hspc : spc ≤ 64) {q : Nat}
    (hq : ((total + (2 ^ 64 - 32)) % 2 ^ 64 + ((256 * spc + 2) / 2 - 1)) % 2 ^ 64 /
      ((256 * spc + 2) / 2) = q) :
    q * (128 * spc + 1) ≤ total + 128 * spc - 32 ∧
      total + 128 * spc - 32 < (q + 1) * (128 * spc + 1) ∧ q < 2 ^ 25 := by
  have htmp : (256 * spc + 2) / 2 = 128 * spc + 1 := by omega
  have hnum : ((total + (2 ^ 64 - 32)) % 2 ^ 64 + ((256 * spc + 2) / 2 - 1)) % 2 ^ 64 =
      total + 128 * spc - 32 := by omega
  rw [hnum, htmp] at hq
  have hlow : q * (128 * spc + 1) ≤ total + 128 * spc - 32 := by
    rw [← hq]
    exact Nat.div_mul_le_self _ _
  refine ⟨hlow, ?_, ?_⟩
  · have hlt := Nat.lt_mul_div_succ (total + 128 * spc - 32) (Nat.succ_pos (128 * spc))
    rw [Nat.succ_eq_add_one, hq, Nat.mul_comm (128 * spc + 1)] at hlt
    exact hlt
  · have hmul : q * 129 ≤ q * (128 * spc + 1) := Nat.mul_le_mul_left _ (by omega)
    omega

/-- The table has a word for each cluster, for every size of the device. -/
theorem formatLayout_sound {sectors : Nat} (h : (formatLayout sectors).large = true) :
    (formatLayout sectors).Sound sectors := by
  obtain ⟨hroom, hlarge⟩ : _ ∧ _ := of_decide_eq_true h
  unfold formatLayout at hroom hlarge ⊢
  dsimp only at hroom hlarge ⊢
  generalize htotal : min sectors 0xFFFFFFFF = total at hroom hlarge ⊢
  have hle : total ≤ sectors ∧ total < 2 ^ 32 := by omega
  generalize hspc : formatSpc total = spc at hroom hlarge ⊢
  have hregime : spc = 1 ∧ total ≤ 532480 ∨ spc = 8 ∧ total ≤ 16777216 ∨
      spc = 16 ∧ total ≤ 33554432 ∨ spc = 32 ∧ total ≤ 67108864 ∨ spc = 64 ∧ total ≤ total := by
    unfold formatSpc at hspc
    grind
  generalize hq : ((total + (2 ^ 64 - 32)) % 2 ^ 64 + ((256 * spc + 2) / 2 - 1)) % 2 ^ 64 /
    ((256 * spc + 2) / 2) = q at hroom hlarge ⊢
  obtain ⟨hlow, hhigh, hsmall⟩ := tableQuotient_bounds hle.2 (by omega) (by omega) hq
  have hcut : q % 2 ^ 32 = q := Nat.mod_eq_of_lt (by omega)
  have hstart : (32 + 2 * q) % 2 ^ 32 = 32 + 2 * q := Nat.mod_eq_of_lt (by omega)
  rw [hcut, hstart] at hroom hlarge ⊢
  clear hq hspc htotal
  -- The excess of the formula is one sector a table sector, and a cluster has fewer.
  rcases hregime with ⟨rfl, hcap⟩ | ⟨rfl, hcap⟩ | ⟨rfl, hcap⟩ | ⟨rfl, hcap⟩ | ⟨rfl, hcap⟩ <;>
    refine ⟨hle, by simp, rfl, hroom, hlarge, ⟨?_, ?_⟩, ?_, ?_⟩ <;> dsimp only <;> omega

/-! ## The boot sector -/

section
variable (env : FormatEnv) (l : Layout) (label : CString)

@[simp] theorem length_labelField : (labelField label).length = 11 := by
  simp only [labelField, List.length_append, List.length_take, List.length_replicate]
  omega

@[simp] theorem length_bootHead : (bootHead env l).length = 71 := by
  simp [bootHead, Endian.store16, Endian.store32]

@[simp] theorem length_bootSector : (bootSector env l label).length = 512 := by
  simp [bootSector]

@[simp] theorem length_infoSector : infoSector.length = 512 := by
  simp [infoSector, Endian.store32]

@[simp] theorem length_tableSector : tableSector.length = 512 := by
  simp [tableSector, Endian.store32]

@[simp] theorem length_shortSlot {shortName : List UInt8} (h : shortName.length = 11) (attr : UInt8)
    (cluster size : Nat) (stamp : UInt16 × UInt16) :
    (shortSlot shortName attr cluster size stamp).length = 32 := by
  simp [shortSlot, h, Endian.store16, Endian.store32]

@[simp] theorem length_rootSector : (rootSector env label).length = 512 := by
  simp [rootSector]

theorem bootSector_mark :
    bootByte (bootSector env l label) 510 = 0x55 ∧ bootByte (bootSector env l label) 511 = 0xAA := by
  simp [bootByte, bootSector, List.getElem_append_right]

theorem bootSector_label : ((bootSector env l label).drop 71).take 11 = labelField label := by
  simp only [bootSector, List.append_assoc]
  rw [List.drop_append_of_le_length (by simp), List.drop_of_length_le (by simp), List.nil_append,
    List.take_append_of_le_length (by simp), List.take_of_length_le (by simp)]

variable {l} {sectors : Nat}

/-- The geometry of a volume just formatted. -/
def Layout.geometry (l : Layout) : Geometry where
  spc := l.spc
  fatStart := 32
  fatSectors := l.fatSectors
  fatCount := 2
  dataStart := l.dataStart
  rootCluster := 2
  clusterCount := (l.total - l.dataStart) / l.spc

theorem bootSector_fields :
    boot16 (bootSector env l label) 11 = 512 ∧
      boot16 (bootSector env l label) 14 = 32 ∧
      boot16 (bootSector env l label) 17 = 0 ∧
      boot16 (bootSector env l label) 19 = 0 ∧
      boot16 (bootSector env l label) 22 = 0 ∧
      boot32 (bootSector env l label) 32 = .ofNat l.total ∧
      boot32 (bootSector env l label) 36 = .ofNat l.fatSectors ∧
      boot32 (bootSector env l label) 44 = 2 ∧
      bootByte (bootSector env l label) 13 = .ofNat l.spc ∧
      bootByte (bootSector env l label) 16 = 2 := by
  have hzero : Endian.le16 0 0 = 0 := by decide
  simp only [boot16, boot32, wordAt, bootByte, bootSector, bootHead, Endian.store16,
    Endian.store32, List.cons_append, List.nil_append, List.getD_cons_succ, List.getD_cons_zero,
    Nat.reduceAdd, Endian.le16_byteAt, Endian.le32_byteAt, hzero, and_self]

/-- `fat_parse_boot` reads the layout back. -/
theorem parseBootSector_bootSector (h : l.Sound sectors) :
    parseBootSector (bootSector env l label) sectors = some l.geometry := by
  obtain ⟨hmark1, hmark2⟩ := bootSector_mark env l label
  obtain ⟨hbps, hreserved, hentries, htotal16, hfat16, htotal, hfat32, hroot, hspc, hfats⟩ :=
    bootSector_fields env label (l := l)
  have hpower : UInt8.ofNat l.spc ≠ 0 ∧ UInt8.ofNat l.spc &&& (UInt8.ofNat l.spc - 1) = 0 ∧
      (UInt8.ofNat l.spc).toNat = l.spc := by
    rcases h.spc with hs | hs | hs | hs | hs <;> rw [hs] <;> decide
  have htable : (UInt32.ofNat l.fatSectors).toNat = l.fatSectors :=
    UInt32.toNat_ofNat_of_lt' (lt_trans h.table.2 (by decide))
  have hsize : (UInt32.ofNat l.total).toNat = l.total := UInt32.toNat_ofNat_of_lt' h.total.2
  have hsome : UInt32.ofNat l.fatSectors ≠ 0 := by
    intro h0
    rw [h0] at htable
    have := h.table.1
    simp at htable
    omega
  have hfront : ((32 : UInt16).toUInt32 + (2 : UInt8).toUInt32 * .ofNat l.fatSectors).toNat =
      l.dataStart := by
    have := h.table.2
    rw [h.start, UInt32.toNat_add, UInt32.toNat_mul, htable]
    simp
    omega
  have hroom : ¬ UInt32.ofNat l.total ≤
      (32 : UInt16).toUInt32 + (2 : UInt8).toUInt32 * .ofNat l.fatSectors := by
    rw [UInt32.le_iff_toNat_le, hfront, hsize]
    exact Nat.not_le.mpr h.room
  have hcount : (min ((UInt32.ofNat l.total -
        ((32 : UInt16).toUInt32 + (2 : UInt8).toUInt32 * .ofNat l.fatSectors)) /
          (UInt8.ofNat l.spc).toUInt32) (.ofNat l.fatSectors * 128 - 2)).toNat =
      (l.total - l.dataStart) / l.spc := by
    have hlast : (UInt32.ofNat l.fatSectors * 128 - 2).toNat = l.fatSectors * 128 - 2 := by
      have := h.table
      rw [UInt32.toNat_sub, UInt32.toNat_mul, htable]
      simp
      omega
    rw [UInt32.toNat_min, hlast, UInt32.toNat_div,
      UInt32.toNat_sub_of_le _ _ (UInt32.le_of_lt (UInt32.not_le.mp hroom)), hfront, hsize,
      UInt8.toNat_toUInt32, hpower.2.2]
    have := h.words
    omega
  have hvalid : l.geometry.valid 2 = true := by
    have := h.large
    have := h.words
    have := h.table
    apply decide_eq_true
    dsimp only [Layout.geometry]
    omega
  rw [parseBootSector, if_neg (by simp [hmark1, hmark2])]
  have hword : (if (0 : UInt16) ≠ 0 then (0 : UInt16).toUInt32 else .ofNat l.total) =
      UInt32.ofNat l.total := if_neg (by simp)
  simp only [hbps, hreserved, hentries, htotal16, hfat16, htotal, hfat32, hroot, hspc, hfats, hword]
  rw [if_neg (by simp [hpower.1, hpower.2.1, hsome]),
    if_neg (not_or.mpr ⟨hroom, by rw [hsize]; exact Nat.not_lt.mpr h.total.1⟩), hcount, hfront,
    hpower.2.2, htable]
  exact if_pos hvalid

end

/-! ## The device -/

section
variable {dev : BlockDevice}

/-- `fat_zero_range` inside a device without I/O errors. -/
theorem fatZeroRange_eq (h : dev.faults = []) {lba count : Nat} (hin : lba + count ≤ dev.sectors) :
    fatZeroRange dev lba count =
      (true, dev.store (lba * 512) (List.replicate (count * 512) 0)) := by
  induction count using Nat.strong_induction_on generalizing dev lba with
  | _ count ih =>
    rw [fatZeroRange]
    split
    · rename_i h0
      simp [h0, BlockDevice.store]
    · have hn : 0 < min count blockMaxTransfer ∧ min count blockMaxTransfer ≤ count := by
        unfold blockMaxTransfer
        omega
      have hwrite := blockWrite_eq h lba hn.1 (show lba + min count blockMaxTransfer ≤ dev.sectors by
        omega) (@List.length_replicate UInt8 _ 0)
      have hmore := @ih (count - min count blockMaxTransfer) (by omega)
        (dev.store (lba * 512) (List.replicate (min count blockMaxTransfer * 512) 0)) h
        (lba + min count blockMaxTransfer) (show _ ≤ dev.sectors by omega)
      have happ := Buf.write_append dev.data (lba * 512)
        (List.replicate (min count blockMaxTransfer * 512) 0)
        (List.replicate ((count - min count blockMaxTransfer) * 512) 0)
      rw [List.replicate_append_replicate, ← Nat.add_mul, Nat.add_sub_cancel' hn.2,
        List.length_replicate, ← Nat.add_mul] at happ
      simp only [hwrite, Bool.not_true, Bool.false_eq_true, if_false]
      rw [hmore]
      simp only [BlockDevice.store, happ]

theorem writeSectors_spec {ws : List (Nat × List UInt8)} (h : dev.faults = [])
    (hlen : ∀ w ∈ ws, w.2.length = 512) (hin : ∀ w ∈ ws, w.1 < dev.sectors)
    (hnodup : (ws.map Prod.fst).Nodup) :
    ∃ data, writeSectors ws dev = (true, { dev with data := data }) ∧
      (∀ w ∈ ws, Buf.read data (w.1 * 512) 512 = w.2) ∧
      ∀ a, a / 512 ∉ ws.map Prod.fst → data a = dev.data a := by
  induction ws generalizing dev with
  | nil => exact ⟨dev.data, rfl, by simp, fun _ _ => rfl⟩
  | cons w rest ih =>
    obtain ⟨lba, bytes⟩ := w
    rw [List.map_cons, List.nodup_cons] at hnodup
    have hbytes : bytes.length = 512 := hlen (lba, bytes) List.mem_cons_self
    have hlba : lba < dev.sectors := hin (lba, bytes) List.mem_cons_self
    have hwrite := blockWrite_eq h lba Nat.one_pos hlba (by rw [hbytes])
    obtain ⟨data, heq, hread, hother⟩ := @ih (dev.store (lba * 512) bytes) h
      (fun w hw => hlen w (List.mem_cons_of_mem _ hw))
      (fun w hw => hin w (List.mem_cons_of_mem _ hw)) hnodup.2
    refine ⟨data, ?_, ?_, ?_⟩
    · rw [writeSectors, hwrite]
      exact heq
    · intro w hw
      rcases List.mem_cons.mp hw with rfl | hw
      · -- The later writes leave this sector alone.
        have hkeep : ∀ k, k < 512 → data (lba * 512 + k) = (dev.store (lba * 512) bytes).data
            (lba * 512 + k) := by grind
        rw [Buf.read_congr hkeep, ← hbytes]
        exact Buf.read_write_self _ _ _
      · exact hread w hw
    · intro a ha
      rw [List.map_cons, List.mem_cons, not_or] at ha
      rw [hother a ha.2, store_of_other_sector hbytes ha.1]

/-- The bytes of a volume just formatted. -/
structure FormattedData (env : FormatEnv) (l : Layout) (label : CString) (data : Nat → UInt8) :
    Prop where
  sector : ∀ w ∈ formatSectors env l label, Buf.read data (w.1 * 512) 512 = w.2
  zero : ∀ a, a < (l.dataStart + l.spc) * 512 →
    a / 512 ∉ (formatSectors env l label).map Prod.fst → data a = 0

theorem Layout.Sound.sectors_nodup {l : Layout} {sectors : Nat} (h : l.Sound sectors)
    (env : FormatEnv) (label : CString) : ((formatSectors env l label).map Prod.fst).Nodup := by
  have := h.table
  have := h.start
  simp only [formatSectors, List.map_cons, List.map_nil, List.nodup_cons, List.mem_cons,
    List.not_mem_nil, or_false, not_false_eq_true, List.nodup_nil, and_true]
  omega

theorem Layout.Sound.root_fits {l : Layout} {sectors : Nat} (h : l.Sound sectors) :
    l.dataStart + l.spc ≤ l.total := by
  have hmul := Nat.div_mul_le_self (l.total - l.dataStart) l.spc
  have hone : 1 * l.spc ≤ (l.total - l.dataStart) / l.spc * l.spc :=
    Nat.mul_le_mul_right _ (le_trans (by decide) h.large)
  have := h.room
  omega

/-- `fat32_format` on a device without I/O errors. -/
theorem fat32Format_eq (env : FormatEnv) (label : CString) (h : dev.faults = [])
    (hlarge : (formatLayout dev.sectors).large = true) (halloc : env.allocated = true) :
    ∃ data, fat32Format env dev label = (env.flushed, { dev with data := data }) ∧
      FormattedData env (formatLayout dev.sectors) label data := by
  have hsound := formatLayout_sound hlarge
  generalize hl : formatLayout dev.sectors = l at hlarge hsound ⊢
  have htotal := hsound.total.1
  have hroot := hsound.root_fits
  have hstart := hsound.start
  have hfront := fatZeroRange_eq h (show 0 + l.dataStart ≤ dev.sectors by omega)
  generalize hdev₁ : dev.store 0 (List.replicate (l.dataStart * 512) 0) = dev₁ at hfront
  have hq₁ : dev₁.faults = [] := by rw [← hdev₁, faults_store, h]
  have hsec₁ : dev₁.sectors = dev.sectors := by rw [← hdev₁, sectors_store]
  have hzero := fatZeroRange_eq hq₁ (show l.dataStart + l.spc ≤ dev₁.sectors by omega)
  generalize hdev₂ : dev₁.store (l.dataStart * 512) (List.replicate (l.spc * 512) 0) = dev₂ at hzero
  have hq₂ : dev₂.faults = [] := by rw [← hdev₂, faults_store, hq₁]
  have hsec₂ : dev₂.sectors = dev.sectors := by rw [← hdev₂, sectors_store, hsec₁]
  have hinside : ∀ w ∈ formatSectors env l label, w.1 < dev₂.sectors := by
    have := hsound.room
    intro w hw
    simp only [formatSectors, List.mem_cons, List.not_mem_nil, or_false] at hw
    rcases hw with rfl | rfl | rfl | rfl | rfl | rfl | rfl <;> dsimp only <;> omega
  obtain ⟨data, hwrite, hread, hother⟩ := writeSectors_spec hq₂
    (by simp [formatSectors]) hinside (hsound.sectors_nodup env label)
  refine ⟨data, ?_, ⟨hread, fun a ha hno => ?_⟩⟩
  · rw [fat32Format, hl]
    simp only [hlarge, halloc, hfront, hzero, hwrite, Bool.not_true, Bool.false_eq_true, if_false,
      Bool.true_and]
    rw [hsec₂, hq₂, h]
  · rw [hother a hno, ← hdev₂, ← hdev₁]
    -- Either part of the zeros.
    simp only [BlockDevice.store]
    by_cases hlow : a < l.dataStart * 512
    · rw [Buf.write_of_lt hlow, Buf.write_zero_of_mem (by simpa using hlow)]
      simp
    · obtain ⟨k, rfl⟩ := Nat.exists_eq_add_of_le (Nat.not_lt.mp hlow)
      have hk : k < (List.replicate (l.spc * 512) (0 : UInt8)).length := by
        rw [List.length_replicate]
        omega
      rw [Buf.write_of_mem hk]
      simp

/-! ## The tables -/

/-- A byte of a copy of the table. -/
def tableByte (dev : BlockDevice) (g : Geometry) (i a : Nat) : UInt8 :=
  dev.data ((g.fatStart + i * g.fatSectors) * 512 + a)

variable {env : FormatEnv} {l : Layout} {label : CString} {data : Nat → UInt8} {sectors : Nat}

/-- Both copies begin with the table sector, and are zero behind it. -/
theorem FormattedData.tableByte_eq (h : FormattedData env l label data) (hl : l.Sound sectors)
    (hdata : dev.data = data) {i a : Nat} (hi : i < 2) (ha : a < l.fatSectors * 512) :
    tableByte dev l.geometry i a = tableSector.getD a 0 := by
  have hstart := hl.start
  have hplace : ∀ b, tableByte dev l.geometry i b = data ((32 + i * l.fatSectors) * 512 + b) :=
    fun b => by rw [tableByte, hdata]; rfl
  have hcopy : i = 0 ∨ i = 1 := by omega
  rw [hplace]
  by_cases hlow : a < 512
  · have hmem : (32 + i * l.fatSectors, tableSector) ∈ formatSectors env l label := by
      rcases hcopy with rfl | rfl <;> simp [formatSectors]
    have hsector : tableSector = Buf.read data ((32 + i * l.fatSectors) * 512) 512 :=
      (h.sector _ hmem).symm
    have hlen : a < (Buf.read data ((32 + i * l.fatSectors) * 512) 512).length := by
      rwa [Buf.length_read]
    rw [hsector, List.getD_eq_getElem?_getD, List.getElem?_eq_getElem hlen, Option.getD_some,
      Buf.getElem_read]
  · rw [List.getD_eq_default _ _ (by rw [length_tableSector]; omega)]
    apply h.zero
    · rcases hcopy with rfl | rfl <;> omega
    · simp only [formatSectors, List.map_cons, List.map_nil, List.mem_cons, List.not_mem_nil,
        or_false]
      rcases hcopy with rfl | rfl <;> omega

theorem tableSector_used (c : Nat) :
    wordAt (fun a => tableSector.getD a 0) (4 * c) &&& fatMask ≠ 0 ↔ c ≤ 2 := by
  constructor
  · intro hused
    by_contra hc
    have hzero : ∀ k, 12 ≤ k → tableSector.getD k 0 = 0 := by
      intro k hk
      rw [tableSector, List.getD_append_right _ _ _ _ (by simpa [Endian.store32] using hk),
        List.getD_eq_getElem?_getD]
      exact List.getElem?_getD_replicate_default_eq _ _ _
    apply hused
    rw [wordAt, hzero _ (by omega), hzero _ (by omega), hzero _ (by omega), hzero _ (by omega)]
    decide
  · intro hc
    have hcase : c = 0 ∨ c = 1 ∨ c = 2 := by omega
    rcases hcase with rfl | rfl | rfl <;> decide

/-! ## What a mount finds -/

/-- A volume without files: the driver accepts it, its table has a word for each
cluster and is the same in both copies, only the entries 0, 1 and 2 are in use,
the root directory has no entries, and the label is the one given. -/
structure Blank (dev : BlockDevice) (label : CString) (g : Geometry) : Prop where
  accepted : fatParseBoot dev = some g
  words : g.clusterCount + 2 ≤ g.fatSectors * 128
  count : g.clusterCount = (min dev.sectors 0xFFFFFFFF - g.dataStart) / g.spc
  large : 65525 ≤ g.clusterCount
  copies : g.fatCount = 2
  same : ∀ a, a < g.fatSectors * 512 → tableByte dev g 0 a = tableByte dev g 1 a
  used : ∀ i c, i < g.fatCount → c < g.fatSectors * 128 →
    (wordAt (tableByte dev g i) (4 * c) &&& fatMask ≠ 0 ↔ c ≤ 2)
  empty : ∃ fs dn, fat32Mount dev = some (fs, dn) ∧
    ∀ rounds, 2 ≤ rounds → ∃ r, fatLoadDir rounds fs dn = some r ∧ r.entries = []
  labelled : fat32HasLabel dev label = true

theorem Layout.Sound.fits (h : l.Sound sectors) : l.geometry.Fits sectors where
  spc := by
    have := h.spc
    dsimp only [Layout.geometry]
    omega
  copies := Nat.succ_pos 1
  boot := Nat.succ_pos 31
  table := h.start.ge
  words := h.words
  marks := by
    have := h.marks
    dsimp only [Layout.geometry]
    omega
  clusters := by
    have hmul := Nat.div_mul_le_self (l.total - l.dataStart) l.spc
    have := h.room
    have := h.total.1
    dsimp only [Layout.geometry]
    omega
  root := by
    have := h.words
    have := h.large
    have := h.table.2
    apply decide_eq_true
    dsimp only [Layout.geometry]
    omega

theorem FormattedData.boot (h : FormattedData env l label data) (hl : l.Sound dev.sectors)
    (hq : dev.faults = []) (hdata : dev.data = data) :
    blockRead dev 0 1 = (some (bootSector env l label), dev) := by
  have hsec : Buf.read data (0 * 512) (1 * 512) = bootSector env l label :=
    h.sector (0, bootSector env l label) (by simp [formatSectors])
  have hroom := hl.room
  have htotal := hl.total.1
  rw [blockRead_eq hq 0 Nat.one_pos (by omega), hdata, hsec]

theorem readSlots_volume {offset : Nat} {lfn : LfnState} {e e' : Slot} {rest : List Slot}
    (hattr : slotByte e 11 = attrVolume) (hlast : slotByte e' 0 = 0) :
    (readSlots offset lfn (e :: e' :: rest)).1 = [] := by
  have hnext : ∀ lfn', (readSlots (offset + 32) lfn' (e' :: rest)).1 = [] := by
    simp [readSlots, fatReadSlot, slotLast, hlast]
  have hskip : fatReadSlot lfn e = .last ∨ fatReadSlot lfn e = .skip lfn.drop := by
    have hignored : slotIgnored e = true := by
      rw [slotIgnored, hattr]
      rfl
    simp only [fatReadSlot, hignored]
    grind
  rw [readSlots]
  rcases hskip with hk | hk
  · rw [hk]
  · rw [hk]
    exact hnext _

/-- The driver of a volume just formatted. -/
def mountedState (dev : BlockDevice) (l : Layout) : Fat32 where
  geo := l.geometry
  nextFree := 2
  cacheSector := 0
  cacheValid := false
  cacheDirty := false
  cache := fun _ => 0
  dev := dev

theorem mountedState_shows (hl : l.Sound dev.sectors) (hq : dev.faults = []) :
    Shows (mountedState dev l) l.geometry (mountedState dev l).view where
  ok :=
    { fits := hl.fits
      quiet := hq
      free := by
        have := hl.large
        dsimp only [mountedState, Layout.geometry]
        omega
      held := fun h => absurd h Bool.false_ne_true
      dirty := fun h => absurd h Bool.false_ne_true
      clean := fun _ h => absurd h Bool.false_ne_true }
  geo := rfl
  view := rfl

theorem FormattedData.root_chain (h : FormattedData env l label data) (hl : l.Sound dev.sectors)
    (hdata : dev.data = data) :
    ChainOf l.geometry (mountedState dev l).view { cluster := 2 } [2] := by
  have hroot : l.geometry.valid 2 = true := hl.fits.root
  have hentry : (mountedState dev l).view.entry 2 = fatEoc := by
    have htable := hl.table.1
    have hbyte : ∀ k, k < 512 → (mountedState dev l).fatByte k = tableSector.getD k 0 := by
      intro k hk
      rw [← h.tableByte_eq hl hdata Nat.zero_lt_two (by omega : k < l.fatSectors * 512), tableByte]
      simp [Fat32.fatByte, mountedState]
    have hgeo : (mountedState dev l).geo.valid 2 = true := hroot
    dsimp only [Fat32.view]
    rw [if_pos hgeo, Fat32.word, wordAt, hbyte _ (by decide), hbyte _ (by decide),
      hbyte _ (by decide), hbyte _ (by decide)]
    decide
  refine ⟨⟨?_, ?_⟩, ?_, fun hne => absurd rfl hne⟩
  · rw [Geometry.start, if_pos hroot]
  · have heoc : l.geometry.valid fatEoc = false := by
      have hmarks := hl.marks
      apply decide_eq_false
      dsimp only [Layout.geometry, fatEoc]
      generalize (l.total - l.dataStart) / l.spc = n at hmarks ⊢
      omega
    rw [PtrChain.nil_iff, View.next, hentry, if_neg (by simp [heoc])]
  · intro c hc
    rw [List.mem_singleton] at hc
    rw [hc, hentry]
    decide

theorem FormattedData.root_empty (h : FormattedData env l label data) (hl : l.Sound dev.sectors)
    (hdata : dev.data = data) :
    (readSlots 0 .empty (dirSlots l.geometry (mountedState dev l).view [2])).1 = [] := by
  have hsec : Buf.read data (l.dataStart * 512) 512 = rootSector env label :=
    h.sector (l.dataStart, rootSector env label) (by simp [formatSectors])
  have hspc := hl.fits.spc
  have hbyte : ∀ q k, k < 32 → 32 * q + k < 512 →
      slotByte (chainSlot l.geometry (mountedState dev l).view [2] q) k =
        (rootSector env label).getD (32 * q + k) 0 := by
    intro q k hk hlt
    have haddr : chainAddr l.geometry [2] (32 * q + k) = 32 * q + k := by
      have hcb : 512 ≤ l.geometry.clusterBytes := by
        unfold Geometry.clusterBytes
        omega
      rw [chainAddr, Nat.div_eq_of_lt (by omega), Nat.mod_eq_of_lt (by omega)]
      simp
    rw [slotByte, chainSlot, ← hsec]
    simp only [List.getD_eq_getElem?_getD, Buf.read]
    rw [List.getElem?_map, List.getElem?_map, List.getElem?_range hk, List.getElem?_range hlt]
    simp only [Option.map_some, Option.getD_some, haddr, ← hdata]
    rfl
  obtain ⟨n, hn⟩ : ∃ n, [2].length * l.geometry.slotsPerCluster = n + 2 :=
    ⟨l.geometry.spc * 16 - 2, by
      rw [List.length_singleton, Geometry.slotsPerCluster]
      omega⟩
  rw [dirSlots, hn, List.range_succ_eq_map, List.range_succ_eq_map]
  apply readSlots_volume
  · rw [hbyte 0 11 (by decide) (by decide), rootSector, shortSlot]
    simp
  · rw [hbyte _ 0 (by decide) (by decide), rootSector, List.getD_append_right _ _ _ _ (by simp)]
    simp

/-- What `fat32_format` leaves behind. -/
theorem FormattedData.blank (h : FormattedData env l label data) (hl : l.Sound dev.sectors)
    (htotal : l.total = min dev.sectors 0xFFFFFFFF) (hq : dev.faults = []) (hdata : dev.data = data) :
    Blank dev label l.geometry := by
  have hboot := h.boot hl hq hdata
  have hparse : fatParseBoot dev = some l.geometry := by
    rw [fatParseBoot, hboot, Option.bind_some]
    exact parseBootSector_bootSector env label hl
  exact
    { accepted := hparse
      words := hl.fits.words
      count := by
        rw [← htotal]
        rfl
      large := hl.large
      copies := rfl
      same := fun a ha => (h.tableByte_eq hl hdata Nat.zero_lt_two ha).trans
        (h.tableByte_eq hl hdata Nat.one_lt_two ha).symm
      used := fun i c hi hc => by
        have hend : 4 * c + 3 < l.fatSectors * 512 := by
          dsimp only [Layout.geometry] at hc
          omega
        rw [← tableSector_used c, wordAt, wordAt, h.tableByte_eq hl hdata hi (by omega),
          h.tableByte_eq hl hdata hi (by omega), h.tableByte_eq hl hdata hi (by omega),
          h.tableByte_eq hl hdata hi hend]
      empty := by
        refine ⟨mountedState dev l, { cluster := 2 }, ?_, fun rounds hrounds => ?_⟩
        · rw [fat32Mount, hparse, hboot]
          rfl
        · obtain ⟨dn, fs, -, -, -, hload⟩ :=
            (h.root_chain hl hdata).load (mountedState_shows hl hq) rfl hrounds
          exact ⟨_, hload, h.root_empty hl hdata⟩
      labelled := by
        rw [fat32HasLabel, hparse, hboot]
        simp [bootSector_label] }

/-- **Format then mount.**  On a device without I/O errors, what `fat32_format`
leaves behind when it returns 0 is a volume without files. -/
theorem fat32Format_blank (env : FormatEnv) (dev : BlockDevice) (label : CString)
    (hquiet : dev.faults = []) (hdone : (fat32Format env dev label).1 = true) :
    ∃ g, Blank (fat32Format env dev label).2 label g := by
  have hlarge : (formatLayout dev.sectors).large = true := by
    by_contra hno
    rw [Bool.not_eq_true] at hno
    simp [fat32Format, hno] at hdone
  have halloc : env.allocated = true := by
    by_contra hno
    rw [Bool.not_eq_true] at hno
    simp [fat32Format, hno, hlarge] at hdone
  obtain ⟨data, heq, hformatted⟩ := fat32Format_eq env label hquiet hlarge halloc
  rw [heq]
  have hblank := @FormattedData.blank { dev with data := data } env (formatLayout dev.sectors) label
    data hformatted (formatLayout_sound hlarge) rfl hquiet rfl
  exact ⟨_, hblank⟩

end

/-- A device of 70000 sectors is large enough. -/
theorem fat32Format_blank_70000 :
    ∃ g, Blank (fat32Format {} { sectors := 70000, data := fun _ => 0 } [83, 84, 82, 65, 87]).2
      [83, 84, 82, 65, 87] g := by
  refine fat32Format_blank {} { sectors := 70000, data := fun _ => 0 } [83, 84, 82, 65, 87] rfl ?_
  obtain ⟨data', heq, -⟩ := @fat32Format_eq { sectors := 70000, data := fun _ => 0 } {}
    [83, 84, 82, 65, 87] rfl (show (formatLayout 70000).large = true by decide +kernel) rfl
  rw [heq]

end Fat
