import StrawOS.Fat.Table

/-!
# The boot sector

`fat_parse_boot`: the geometry a boot sector describes, if the driver accepts
it.  Its arithmetic is on 32-bit words and wraps.
-/

namespace Fat

/-- A byte of the boot sector. -/
def bootByte (bs : List UInt8) (i : Nat) : UInt8 := bs.getD i 0

/-- A 16-bit field of the boot sector. -/
def boot16 (bs : List UInt8) (i : Nat) : UInt16 :=
  Endian.le16 (bootByte bs i) (bootByte bs (i + 1))

/-- A 32-bit field of the boot sector. -/
def boot32 (bs : List UInt8) (i : Nat) : UInt32 := wordAt (bootByte bs) i

/-- The checks and sums of `fat_parse_boot` on a boot sector, for a device of a
number of sectors. -/
def parseBootSector (bs : List UInt8) (sectors : Nat) : Option Geometry :=
  if bootByte bs 510 ≠ 0x55 ∨ bootByte bs 511 ≠ 0xAA then none
  else
    let bps := boot16 bs 11
    let reserved := boot16 bs 14
    let rootEntries := boot16 bs 17
    let total16 := boot16 bs 19
    let fat16 := boot16 bs 22
    let total32 := boot32 bs 32
    let fat32 := boot32 bs 36
    let root := boot32 bs 44
    let spc := bootByte bs 13
    let fats := bootByte bs 16
    if bps ≠ 512 ∨ spc = 0 ∨ spc &&& (spc - 1) ≠ 0 ∨ fats = 0 ∨ rootEntries ≠ 0 ∨ fat16 ≠ 0 ∨
        fat32 = 0 then none
    else
      let total := if total16 ≠ 0 then total16.toUInt32 else total32
      let dataStart := reserved.toUInt32 + fats.toUInt32 * fat32
      if total ≤ dataStart ∨ sectors < total.toNat then none
      else
        let g : Geometry :=
          { spc := spc.toNat
            fatStart := reserved.toNat
            fatSectors := fat32.toNat
            fatCount := fats.toNat
            dataStart := dataStart.toNat
            rootCluster := root.toNat
            clusterCount := (min ((total - dataStart) / spc.toUInt32) (fat32 * 128 - 2)).toNat }
        if g.valid root.toNat then some g else none

def fatParseBoot (dev : BlockDevice) : Option Geometry :=
  (blockRead dev 0 1).1.bind fun bs => parseBootSector bs dev.sectors

end Fat

/-!
# Which boot sectors describe a safe volume

`fat_parse_boot` refuses a volume that does not fit its device, but three of its
sums go unchecked: the reserved sectors may be zero, the sum of the reserved
sectors and the tables may wrap, and there may be so many clusters that an
end-of-chain mark is a cluster number.  `safe_iff`: nothing else can go wrong.
-/

namespace Fat

/-- The sector that `fat_cache_flush` writes sector `k` of table copy `i` to; a
32-bit sum. -/
def Geometry.copySector (g : Geometry) (i k : Nat) : Nat :=
  (g.fatStart + i * g.fatSectors + k) % 2 ^ 32

/-- `fat_lba`. -/
def Geometry.lba (g : Geometry) (c : Nat) : Nat := g.dataStart + (c - 2) * g.spc

/-- `FAT_EOC` and the other end-of-chain values. -/
def EndMark (value : Nat) : Prop := 0x0FFFFFF8 ≤ value ∧ value ≤ fatEoc

/-- What the driver relies on when it works on a volume. -/
structure Geometry.Safe (g : Geometry) (sectors : Nat) : Prop where
  boot : 1 ≤ g.fatStart
  inside : ∀ i k, i < g.fatCount → k < g.fatSectors →
    g.fatStart ≤ g.copySector i k ∧ g.copySector i k < g.dataStart
  disjoint : ∀ i j k l, i < g.fatCount → j < g.fatCount → k < g.fatSectors → l < g.fatSectors →
    i ≠ j → g.copySector i k ≠ g.copySector j l
  entry : ∀ c, g.valid c = true → c / 128 < g.fatSectors
  clusters : ∀ c, g.valid c = true →
    g.dataStart ≤ g.lba c ∧ g.lba c + g.spc ≤ sectors
  some_cluster : 0 < g.clusterCount
  marks : ∀ c, EndMark c → g.valid c = false

/-! ## The fields of the boot sector -/

/-- Sectors of the volume. -/
def bootTotal (bs : List UInt8) : Nat :=
  if boot16 bs 19 ≠ 0 then (boot16 bs 19).toNat else (boot32 bs 32).toNat

/-- Sectors in front of the clusters, as a plain number. -/
def bootFront (bs : List UInt8) : Nat :=
  (boot16 bs 14).toNat + (bootByte bs 16).toNat * (boot32 bs 36).toNat

/-- Sectors per cluster. -/
def bootSpc (bs : List UInt8) : Nat := (bootByte bs 13).toNat

/-- Sectors of one table. -/
def bootTable (bs : List UInt8) : Nat := (boot32 bs 36).toNat

/-- The fields leave a sector for themselves, their sums stay below `2 ^ 32`, and
the clusters end before the marks: the device or the table has room for no more
than `0x0FFFFFF6` of them. -/
def SoundFields (bs : List UInt8) : Prop :=
  1 ≤ (boot16 bs 14).toNat ∧ bootFront bs < 2 ^ 32 ∧
    ((bootTotal bs - bootFront bs) / bootSpc bs ≤ 0x0FFFFFF6 ∨
      (bootTable bs * 128 + (2 ^ 32 - 2)) % 2 ^ 32 ≤ 0x0FFFFFF6)

instance (bs : List UInt8) : Decidable (SoundFields bs) :=
  inferInstanceAs (Decidable (_ ∧ _))

/-- The geometry `fat_parse_boot` takes from a boot sector. -/
structure Describes (bs : List UInt8) (sectors : Nat) (g : Geometry) : Prop where
  spc : g.spc = bootSpc bs ∧ 0 < g.spc
  start : g.fatStart = (boot16 bs 14).toNat
  table : g.fatSectors = bootTable bs ∧ 0 < g.fatSectors
  copies : g.fatCount = (bootByte bs 16).toNat ∧ 0 < g.fatCount
  front : g.dataStart = bootFront bs % 2 ^ 32
  room : g.dataStart < bootTotal bs ∧ bootTotal bs ≤ sectors
  total : bootTotal bs < 2 ^ 32
  count : g.clusterCount = min ((bootTotal bs - g.dataStart) / g.spc)
    ((g.fatSectors * 128 + (2 ^ 32 - 2)) % 2 ^ 32)
  root : g.valid g.rootCluster = true

theorem parseBootSector_describes {bs : List UInt8} {sectors : Nat} {g : Geometry}
    (h : parseBootSector bs sectors = some g) : Describes bs sectors g := by
  unfold parseBootSector at h
  rw [Option.ite_none_left_eq_some, Option.ite_none_left_eq_some, Option.ite_none_left_eq_some,
    Option.ite_none_right_eq_some] at h
  obtain ⟨-, hfields, hroom, hroot, hg⟩ := h
  simp only [not_or, ne_eq, not_not] at hfields hroom
  obtain ⟨-, hspc, -, hfats, -, -, hfat32⟩ := hfields
  have htotal : (if boot16 bs 19 ≠ 0 then (boot16 bs 19).toUInt32 else boot32 bs 32).toNat =
      bootTotal bs := by
    unfold bootTotal
    split <;> simp
  have hfront : ((boot16 bs 14).toUInt32 + (bootByte bs 16).toUInt32 * boot32 bs 36).toNat =
      bootFront bs % 2 ^ 32 := by
    simp [bootFront, UInt32.toNat_add, UInt32.toNat_mul]
  have hlt : bootFront bs % 2 ^ 32 < bootTotal bs := by
    rw [← hfront, ← htotal]
    exact UInt32.lt_iff_toNat_lt.mp (UInt32.not_le.mp hroom.1)
  have hspc0 : 0 < (bootByte bs 13).toNat :=
    Nat.pos_of_ne_zero fun h0 => hspc (UInt8.toNat_inj.mp h0)
  have hfats0 : 0 < (bootByte bs 16).toNat :=
    Nat.pos_of_ne_zero fun h0 => hfats (UInt8.toNat_inj.mp h0)
  have hfat0 : 0 < (boot32 bs 36).toNat :=
    Nat.pos_of_ne_zero fun h0 => hfat32 (UInt32.toNat_inj.mp h0)
  have hlast : (boot32 bs 36 * 128 - 2).toNat = (bootTable bs * 128 + (2 ^ 32 - 2)) % 2 ^ 32 := by
    simp only [UInt32.toNat_sub, UInt32.toNat_mul, bootTable]
    simp
    omega
  obtain rfl := Option.some.inj hg
  refine ⟨⟨rfl, hspc0⟩, rfl, ⟨rfl, hfat0⟩, ⟨rfl, hfats0⟩, hfront, ⟨?_, ?_⟩, ?_, ?_, hroot⟩
  · rw [hfront]
    exact hlt
  · rw [← htotal]
    exact Nat.not_lt.mp hroom.2
  · rw [← htotal]
    exact UInt32.toNat_lt _
  · refine (UInt32.toNat_min _ _).trans ?_
    have hle := UInt32.le_of_lt (UInt32.not_le.mp hroom.1)
    rw [hlast, UInt32.toNat_div, UInt32.toNat_sub_of_le _ _ hle, htotal]
    simp [bootTable]

/-! ## What every accepted volume has -/

section
variable {bs : List UInt8} {sectors : Nat} {g : Geometry}

theorem Describes.count_lt (h : Describes bs sectors g) :
    0 < g.clusterCount ∧ g.clusterCount + 2 < 2 ^ 32 ∧
      g.clusterCount + 2 ≤ g.fatSectors * 128 := by
  have hroot := h.root
  have hcount := h.count
  have hpos := h.table.2
  simp only [Geometry.valid, decide_eq_true_eq] at hroot
  omega

theorem Describes.valid_iff (h : Describes bs sectors g) (c : Nat) :
    g.valid c = true ↔ 2 ≤ c ∧ c < g.clusterCount + 2 := by
  rw [Geometry.valid, decide_eq_true_iff, Nat.mod_eq_of_lt h.count_lt.2.1]

theorem Describes.entry (h : Describes bs sectors g) {c : Nat} (hc : g.valid c = true) :
    c / 128 < g.fatSectors := by
  have hv := (h.valid_iff c).mp hc
  have hw := h.count_lt.2.2
  omega

theorem Describes.clusters (h : Describes bs sectors g) {c : Nat} (hc : g.valid c = true) :
    g.dataStart ≤ g.lba c ∧ g.lba c + g.spc ≤ sectors := by
  have hv := (h.valid_iff c).mp hc
  have hcount : g.clusterCount ≤ (bootTotal bs - g.dataStart) / g.spc := by
    rw [h.count]
    exact Nat.min_le_left _ _
  have hroom : g.clusterCount * g.spc ≤ bootTotal bs - g.dataStart :=
    (Nat.le_div_iff_mul_le h.spc.2).mp hcount
  have hend : (c - 2 + 1) * g.spc ≤ g.clusterCount * g.spc :=
    Nat.mul_le_mul_right _ (by omega)
  rw [Nat.add_mul, Nat.one_mul] at hend
  have hdev := h.room
  unfold Geometry.lba
  omega

/-! ## The three unchecked sums -/

theorem Describes.copySector_eq (h : Describes bs sectors g) (hfront : bootFront bs < 2 ^ 32)
    {i k : Nat} (hi : i < g.fatCount) (hk : k < g.fatSectors) :
    g.copySector i k = g.fatStart + i * g.fatSectors + k ∧
      g.fatStart + i * g.fatSectors + k < g.dataStart := by
  have hsum : g.dataStart = g.fatStart + g.fatCount * g.fatSectors := by
    rw [h.front, Nat.mod_eq_of_lt hfront, h.start, h.copies.1, h.table.1]
    rfl
  have hcopy : (i + 1) * g.fatSectors ≤ g.fatCount * g.fatSectors := Nat.mul_le_mul_right _ hi
  rw [Nat.add_mul, Nat.one_mul] at hcopy
  have hlt : g.fatStart + i * g.fatSectors + k < g.dataStart := by omega
  have hbound : g.dataStart < 2 ^ 32 := by
    rw [h.front]
    exact Nat.mod_lt _ (by decide)
  exact ⟨Nat.mod_eq_of_lt (by omega), hlt⟩

/-- After a wrap a copy covers the last sector number, and the clusters start in
front of it. -/
theorem Describes.wraps (h : Describes bs sectors g) (hfront : 2 ^ 32 ≤ bootFront bs) :
    ∃ i k, i < g.fatCount ∧ k < g.fatSectors ∧ g.dataStart ≤ g.copySector i k := by
  have hpos := h.table.2
  have hstart : g.fatStart < 2 ^ 16 := by
    rw [h.start]
    exact UInt16.toNat_lt _
  have hsum : bootFront bs = g.fatStart + g.fatCount * g.fatSectors := by
    rw [h.start, h.copies.1, h.table.1]
    rfl
  have hdiv := Nat.div_add_mod (2 ^ 32 - 1 - g.fatStart) g.fatSectors
  refine ⟨(2 ^ 32 - 1 - g.fatStart) / g.fatSectors, (2 ^ 32 - 1 - g.fatStart) % g.fatSectors,
    ?_, Nat.mod_lt _ hpos, ?_⟩
  · apply Nat.div_lt_of_lt_mul
    rw [Nat.mul_comm]
    omega
  · have hlast : g.fatStart + (2 ^ 32 - 1 - g.fatStart) / g.fatSectors * g.fatSectors +
        (2 ^ 32 - 1 - g.fatStart) % g.fatSectors = 2 ^ 32 - 1 := by
      rw [Nat.mul_comm]
      omega
    rw [Geometry.copySector, hlast, h.front]
    omega

theorem Describes.marks_iff (h : Describes bs sectors g) :
    (∀ c, EndMark c → g.valid c = false) ↔ g.clusterCount ≤ 0x0FFFFFF6 := by
  constructor
  · intro hmarks
    have hno := hmarks 0x0FFFFFF8 ⟨Nat.le_refl _, by decide⟩
    rw [Bool.eq_false_iff, Ne, h.valid_iff] at hno
    omega
  · intro hcount c hc
    rw [Bool.eq_false_iff, Ne, h.valid_iff]
    have hlow := hc.1
    omega

theorem Describes.sound_iff (h : Describes bs sectors g) :
    SoundFields bs ↔ 1 ≤ g.fatStart ∧ bootFront bs < 2 ^ 32 ∧ g.clusterCount ≤ 0x0FFFFFF6 := by
  unfold SoundFields
  rw [← h.start]
  refine and_congr_right fun _ => and_congr_right fun hfront => ?_
  rw [h.count, h.front, Nat.mod_eq_of_lt hfront, h.spc.1, h.table.1, min_le_iff]

/-- **Safety of an accepted geometry.** -/
theorem Describes.safe_iff (h : Describes bs sectors g) : g.Safe sectors ↔ SoundFields bs := by
  rw [h.sound_iff, ← h.marks_iff]
  constructor
  · intro hs
    refine ⟨hs.boot, ?_, hs.marks⟩
    by_contra hwrap
    obtain ⟨i, k, hi, hk, hbad⟩ := h.wraps (Nat.not_lt.mp hwrap)
    have hin := (hs.inside i k hi hk).2
    omega
  · rintro ⟨hboot, hfront, hmarks⟩
    refine ⟨hboot, ?_, ?_, fun c => h.entry, fun c => h.clusters, h.count_lt.1, hmarks⟩
    · intro i k hi hk
      obtain ⟨heq, hlt⟩ := h.copySector_eq hfront hi hk
      rw [heq]
      exact ⟨by omega, hlt⟩
    · intro i j k l hi hj hk hl hne heq
      rw [(h.copySector_eq hfront hi hk).1, (h.copySector_eq hfront hj hl).1] at heq
      have hblock : ∀ {a b : Nat}, b < g.fatSectors → (a * g.fatSectors + b) / g.fatSectors = a :=
        fun hb => by rw [Nat.mul_comm, Nat.mul_add_div h.table.2, Nat.div_eq_of_lt hb, Nat.add_zero]
      apply hne
      rw [← hblock (a := i) hk, ← hblock (a := j) hl]
      congr 1
      omega

end

/-! ## The boot sector of a device -/

/-- **Geometry safety.**  The geometry that `fat_parse_boot` takes from a device
is safe if and only if the fields of its boot sector are sound. -/
theorem fatParseBoot_safe_iff (dev : BlockDevice) (bs : List UInt8) (g : Geometry)
    (hread : (blockRead dev 0 1).1 = some bs) (h : fatParseBoot dev = some g) :
    g.Safe dev.sectors ↔ SoundFields bs := by
  rw [fatParseBoot, hread] at h
  exact (parseBootSector_describes h).safe_iff

/-- A disk of 4096 sectors: reserved sectors, one table of one sector, then
clusters of one sector. -/
def smallDisk (reserved : UInt8) : BlockDevice where
  sectors := 4096
  data a :=
    if a = 12 then 2 else if a = 13 then 1 else if a = 14 then reserved else if a = 16 then 1
    else if a = 20 then 16 else if a = 36 then 1 else if a = 44 then 2
    else if a = 510 then 0x55 else if a = 511 then 0xAA else 0

/-- Its boot sector. -/
def smallBoot (reserved : UInt8) : List UInt8 := Buf.read (smallDisk reserved).data 0 512

/-- Its geometry. -/
def smallGeometry (reserved : UInt8) : Geometry where
  spc := 1
  fatStart := reserved.toNat
  fatSectors := 1
  fatCount := 1
  dataStart := reserved.toNat + 1
  rootCluster := 2
  clusterCount := 126

theorem smallDisk_read (reserved : UInt8) :
    (blockRead (smallDisk reserved) 0 1).1 = some (smallBoot reserved) := by
  have hq : (smallDisk reserved).faults = [] := rfl
  rw [blockRead_eq hq 0 Nat.one_pos (show 0 + 1 ≤ 4096 by omega)]
  rfl

/-- With a reserved sector the volume is safe. -/
theorem smallDisk_safe : (smallGeometry 1).Safe 4096 :=
  (fatParseBoot_safe_iff (smallDisk 1) (smallBoot 1) (smallGeometry 1) (smallDisk_read 1) (by
    decide +kernel)).mpr (by decide +kernel)

/-- Without one the driver accepts a volume whose table starts on the boot
sector. -/
theorem no_reserved_sector_unsafe :
    ¬ ∀ (dev : BlockDevice) (g : Geometry), fatParseBoot dev = some g → g.Safe dev.sectors := by
  intro hall
  have hparse : fatParseBoot (smallDisk 0) = some (smallGeometry 0) := by
    decide +kernel
  exact absurd (hall _ _ hparse).boot (by decide)

end Fat
