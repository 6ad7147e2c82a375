import StrawOS.Disk.Device

/-!
# Scanning a disk for partitions

`block_scan_partitions`: the GUID partition table if sector 1 has one, else the
table of the boot sector.  Everything read from the disk is untrusted.  An entry
size above 512 makes the number of entries in a sector zero, and the scan then
divides by it: the model has no result there.
-/

namespace Disk

/-- A byte of a sector buffer. -/
def byte (sector : List UInt8) (i : Nat) : UInt8 := sector.getD i 0

/-- A 32-bit field of a sector buffer. -/
def field32 (sector : List UInt8) (off : Nat) : UInt32 :=
  Endian.le32 (byte sector off) (byte sector (off + 1)) (byte sector (off + 2))
    (byte sector (off + 3))

/-- A 64-bit field of a sector buffer. -/
def field64 (sector : List UInt8) (off : Nat) : UInt64 :=
  Endian.le64 (field32 sector off) (field32 sector (off + 4))

def gptEntries : Nat := 128

def blockMaxPartitions : Nat := 8

/-- The fields of `GptHeader` that the scan uses. -/
structure GptHeader where
  entriesLba : UInt64
  entryCount : UInt32
  entrySize : UInt32
  deriving DecidableEq

/-- The signature, `EFI PART`. -/
def gptSignature : List UInt8 := [69, 70, 73, 32, 80, 65, 82, 84]

/-- The header in a sector, if the scan takes it for one. -/
def gptHeader (sector : List UInt8) : Option GptHeader :=
  let hdr : GptHeader := ⟨field64 sector 72, field32 sector 80, field32 sector 84⟩
  if sector.take 8 ≠ gptSignature ∨ hdr.entrySize.toNat < 128 then none else some hdr

/-- The extent of an entry, unless it is to be skipped: first sector and length. -/
def gptExtent (sector : List UInt8) (off : Nat) : Option (UInt64 × UInt64) :=
  let first := field64 sector (off + 32)
  let last := field64 sector (off + 40)
  if (List.range 16).all (fun i => byte sector (off + i) == 0) ∨ last < first then none
  else some (first, last - first + 1)

/-- The sector with entry `i`: the next one of the table when the last was used up. -/
def gptSector (hdr : GptHeader) (perSector i : Nat) (sector : List UInt8) (m : Fat.BlockDevice) :
    Option (List UInt8) × Fat.BlockDevice :=
  if i % perSector = 0 then Fat.blockRead m (hdr.entriesLba + .ofNat (i / perSector)).toNat 1
  else (some sector, m)

/-- The loop of `block_scan_gpt` from entry `i` on, with the partitions found. -/
def gptLoop (disk : Nat) (hdr : GptHeader) (perSector : Nat) : (left i found : Nat) →
    List UInt8 → Fat.BlockDevice → Table → Nat × Table
  | 0, _, found, _, _, devs => (found, devs)
  | left + 1, i, found, sector, m, devs =>
      if blockMaxPartitions ≤ found then (found, devs)
      else
        let got := gptSector hdr perSector i sector m
        match got.1 with
        | none => (found, devs)
        | some sector =>
            match gptExtent sector (i % perSector * hdr.entrySize.toNat) with
            | none => gptLoop disk hdr perSector left (i + 1) found sector got.2 devs
            | some e =>
                gptLoop disk hdr perSector left (i + 1) (found + 1) sector got.2
                  (blockAddPartition devs disk (found + 1) e.1 e.2)

/-- The number of entries `block_scan_gpt` looks at, or none if it divides by zero. -/
def gptTotal (hdr : GptHeader) : Option Nat :=
  let total := min hdr.entryCount.toNat gptEntries
  if 512 / hdr.entrySize.toNat = 0 ∧ 0 < total then none else some total

/-- `block_scan_gpt` on a sector with a header. -/
def blockScanGpt (devs : Table) (disk : Nat) (hdr : GptHeader) (sector : List UInt8)
    (m : Fat.BlockDevice) : Option Table :=
  (gptTotal hdr).map fun total =>
    (gptLoop disk hdr (512 / hdr.entrySize.toNat) total 0 0 sector m devs).2

/-- The extent of entry `i` of a boot sector's table, unless it is to be skipped. -/
def mbrExtent (sector : List UInt8) (i : Nat) : Option (UInt64 × UInt64) :=
  let type := byte sector (446 + i * 16 + 4)
  let start := field32 sector (446 + i * 16 + 8)
  let count := field32 sector (446 + i * 16 + 12)
  if type = 0 ∨ type = 0xEE ∨ count = 0 then none else some (start.toUInt64, count.toUInt64)

/-- The loop of `block_scan_mbr` from entry `i` on. -/
def mbrLoop (disk : Nat) (sector : List UInt8) : (left i found : Nat) → Table → Table
  | 0, _, _, devs => devs
  | left + 1, i, found, devs =>
      match mbrExtent sector i with
      | none => mbrLoop disk sector left (i + 1) found devs
      | some e =>
          mbrLoop disk sector left (i + 1) (found + 1)
            (blockAddPartition devs disk (found + 1) e.1 e.2)

/-- The boot sector's signature. -/
def mbrSigned (sector : List UInt8) : Bool := byte sector 510 == 0x55 && byte sector 511 == 0xAA

def blockScanMbr (devs : Table) (disk : Nat) (sector : List UInt8) : Table :=
  if mbrSigned sector then mbrLoop disk sector 4 0 0 devs else devs

/-- The first loop of `block_scan_partitions`: no partition has sectors. -/
def emptyPartitions (devs : Table) (disk : Nat) : Table := fun i =>
  if i < blockMaxDevices ∧ (devs i).used = true ∧ (devs i).parent = some disk then
    { devs i with sectors := 0 }
  else devs i

/-- The disk as a row of sectors, with the size its device has. -/
def medium (devs : Table) (disk : Nat) (m : Fat.BlockDevice) : Fat.BlockDevice :=
  { m with sectors := (devs disk).sectors.toNat }

/-- `block_scan_partitions` on a disk with the given bytes. -/
def blockScanPartitions (devs : Table) (disk : Nat) (m : Fat.BlockDevice) : Option Table :=
  let cleared := emptyPartitions devs disk
  let got := Fat.blockRead (medium devs disk m) 1 1
  match got.1.bind fun sector => (gptHeader sector).map fun hdr => (sector, hdr) with
  | some (sector, hdr) => blockScanGpt cleared disk hdr sector got.2
  | none =>
      match (Fat.blockRead got.2 0 1).1 with
      | none => some cleared
      | some sector => some (blockScanMbr cleared disk sector)

/-! ## The entries of a scan -/

/-- The extents of the table from entry `i` on, at most `room` of them. -/
def gptExtents (hdr : GptHeader) (perSector : Nat) : (left i room : Nat) → List UInt8 →
    Fat.BlockDevice → List (UInt64 × UInt64)
  | 0, _, _, _, _ => []
  | _ + 1, _, 0, _, _ => []
  | left + 1, i, room + 1, sector, m =>
      let got := gptSector hdr perSector i sector m
      match got.1 with
      | none => []
      | some sector =>
          match gptExtent sector (i % perSector * hdr.entrySize.toNat) with
          | none => gptExtents hdr perSector left (i + 1) (room + 1) sector got.2
          | some e => e :: gptExtents hdr perSector left (i + 1) room sector got.2

/-- The extents a disk lists: those of its GUID table, as many as the scan takes,
or of its boot sector.  None if the scan divides by zero. -/
def partitionEntries (m : Fat.BlockDevice) : Option (List (UInt64 × UInt64)) :=
  let got := Fat.blockRead m 1 1
  match got.1.bind fun sector => (gptHeader sector).map fun hdr => (sector, hdr) with
  | some (sector, hdr) =>
      (gptTotal hdr).map fun total =>
        gptExtents hdr (512 / hdr.entrySize.toNat) total 0 blockMaxPartitions sector got.2
  | none =>
      match (Fat.blockRead got.2 0 1).1 with
      | none => some []
      | some sector =>
          some (if mbrSigned sector then (List.range 4).filterMap (mbrExtent sector) else [])

/-- `block_add_partition` for a list of extents, numbered after `found`. -/
def addAll (disk : Nat) : (found : Nat) → List (UInt64 × UInt64) → Table → Table
  | _, [], devs => devs
  | found, e :: rest, devs =>
      addAll disk (found + 1) rest (blockAddPartition devs disk (found + 1) e.1 e.2)

theorem gptLoop_eq (disk : Nat) (hdr : GptHeader) (per left i found : Nat)
    (hfound : found ≤ blockMaxPartitions) (sector : List UInt8) (m : Fat.BlockDevice)
    (devs : Table) :
    (gptLoop disk hdr per left i found sector m devs).2 =
      addAll disk found
        (gptExtents hdr per left i (blockMaxPartitions - found) sector m) devs := by
  induction left generalizing i found sector m devs with
  | zero => rfl
  | succ left ih =>
    rw [gptLoop]
    split
    · rename_i hfull
      rw [Nat.sub_eq_zero_of_le hfull]
      rfl
    · obtain ⟨room, hr⟩ : ∃ room, blockMaxPartitions - found = room + 1 :=
        ⟨blockMaxPartitions - found - 1, by omega⟩
      rw [hr, gptExtents]
      simp only
      cases (gptSector hdr per i sector m).1 with
      | none => rfl
      | some sector' =>
        simp only
        cases gptExtent sector' (i % per * hdr.entrySize.toNat) with
        | none =>
          rw [ih (i + 1) found hfound, hr]
        | some e =>
          rw [ih (i + 1) (found + 1) (by omega), addAll,
            show blockMaxPartitions - (found + 1) = room by omega]

theorem mbrLoop_eq (disk : Nat) (sector : List UInt8) (left i found : Nat) (devs : Table) :
    mbrLoop disk sector left i found devs =
      addAll disk found ((List.range' i left).filterMap (mbrExtent sector)) devs := by
  induction left generalizing i found devs with
  | zero => rfl
  | succ left ih =>
    rw [mbrLoop, List.range'_succ, List.filterMap_cons]
    cases mbrExtent sector i with
    | none => exact ih (i + 1) found devs
    | some e => exact ih (i + 1) (found + 1) _

/-- The scan empties the partitions of the disk and adds its entries. -/
theorem blockScanPartitions_eq (devs : Table) (disk : Nat) (m : Fat.BlockDevice) :
    blockScanPartitions devs disk m =
      (partitionEntries (medium devs disk m)).map fun es =>
        addAll disk 0 es (emptyPartitions devs disk) := by
  rw [blockScanPartitions, partitionEntries]
  cases ((Fat.blockRead (medium devs disk m) 1 1).1.bind fun sector =>
      (gptHeader sector).map fun hdr => (sector, hdr)) with
  | some found =>
    obtain ⟨sector, hdr⟩ := found
    simp only [blockScanGpt, Option.map_map]
    cases gptTotal hdr with
    | none => rfl
    | some total => exact congrArg some (gptLoop_eq disk hdr _ total 0 0 (Nat.zero_le _) _ _ _)
  | none =>
    cases (Fat.blockRead (Fat.blockRead (medium devs disk m) 1 1).2 0 1).1 with
    | none => rfl
    | some sector =>
      simp only [blockScanMbr, Option.map_some]
      split
      · rw [mbrLoop_eq, List.range_eq_range']
      · rfl

end Disk

/-!
# The accesses of a GUID table scan

`block_scan_gpt` takes the size of an entry and the number of entries from the
disk.  `gptAccesses` lists what it does with them: its divisions with their
divisors, and its copies out of the sector buffer.  The guard on the entry size is
one-sided: of entries above 512 bytes none fits a sector.
-/

namespace Disk

/-- Something a scan does that is not defined for every operand: a division or
modulo, or a copy out of the sector buffer. -/
inductive Access where
  | divide (divisor : Nat)
  | copy (off len : Nat)
  deriving DecidableEq

/-- The access is defined: no division by zero, no byte outside the buffer. -/
def Access.Safe : Access → Prop
  | divide divisor => divisor ≠ 0
  | copy off len => off + len ≤ 512

instance : DecidablePred Access.Safe
  | .divide divisor => inferInstanceAs (Decidable (divisor ≠ 0))
  | .copy off len => inferInstanceAs (Decidable (off + len ≤ 512))

/-- `sizeof(GptHeader)`. -/
def gptHeaderSize : Nat := 92

/-- `sizeof(GptEntry)`. -/
def gptEntrySize : Nat := 128

/-- The accesses of one pass of the loop, if its sector could be read. -/
def entryAccesses (hdr : GptHeader) (perSector i : Nat) : List Access :=
  [.divide perSector, .copy (i % perSector * hdr.entrySize.toNat) gptEntrySize]

/-- The division that finds the sector to read, when one is to be read. -/
def sectorAccesses (perSector i : Nat) : List Access :=
  .divide perSector :: if i % perSector = 0 then [.divide perSector] else []

/-- The accesses of the loop of `gptLoop`.  A division by zero ends the list. -/
def loopAccesses (hdr : GptHeader) (perSector : Nat) : (left i found : Nat) →
    List UInt8 → Fat.BlockDevice → List Access
  | 0, _, _, _, _ => []
  | left + 1, i, found, sector, m =>
      if blockMaxPartitions ≤ found then []
      else if perSector = 0 then [.divide 0]
      else
        let got := gptSector hdr perSector i sector m
        sectorAccesses perSector i ++
          match got.1 with
          | none => []
          | some sector =>
              let found :=
                match gptExtent sector (i % perSector * hdr.entrySize.toNat) with
                | none => found
                | some _ => found + 1
              entryAccesses hdr perSector i ++
                loopAccesses hdr perSector left (i + 1) found sector got.2

/-- The accesses of `block_scan_gpt` on a sector. -/
def gptAccesses (sector : List UInt8) (m : Fat.BlockDevice) : List Access :=
  .copy 0 gptHeaderSize ::
    match gptHeader sector with
    | none => []
    | some hdr =>
        .divide hdr.entrySize.toNat ::
          loopAccesses hdr (512 / hdr.entrySize.toNat) (min hdr.entryCount.toNat gptEntries) 0 0
            sector m

/-- An entry of the size the header gives lies in the buffer at each of its
places: those numbered below the number of entries in a sector. -/
theorem entry_inside {size i : Nat} (hmin : gptEntrySize ≤ size) (hfit : size ≤ 512) :
    i % (512 / size) * size + gptEntrySize ≤ 512 := by
  have hper : 0 < 512 / size := Nat.div_pos hfit (by grind [gptEntrySize])
  have hlt : i % (512 / size) + 1 ≤ 512 / size := Nat.mod_lt i hper
  calc i % (512 / size) * size + gptEntrySize
      ≤ (i % (512 / size) + 1) * size := by grind
    _ ≤ 512 / size * size := Nat.mul_le_mul_right size hlt
    _ ≤ 512 := Nat.div_mul_le_self 512 size

/-- Whatever the sectors hold, the loop is safe if an entry fits a sector. -/
theorem loopAccesses_safe {hdr : GptHeader} (hmin : gptEntrySize ≤ hdr.entrySize.toNat)
    (hfit : hdr.entrySize.toNat ≤ 512) (left i found : Nat) (sector : List UInt8)
    (m : Fat.BlockDevice) :
    ∀ a ∈ loopAccesses hdr (512 / hdr.entrySize.toNat) left i found sector m, a.Safe := by
  have hper : 512 / hdr.entrySize.toNat ≠ 0 :=
    (Nat.div_pos hfit (by grind [gptEntrySize])).ne'
  induction left generalizing i found sector m with
  | zero => grind [loopAccesses]
  | succ left ih =>
    have hdivide : (Access.divide (512 / hdr.entrySize.toNat)).Safe := hper
    have hcopy : (Access.copy (i % (512 / hdr.entrySize.toNat) * hdr.entrySize.toNat)
        gptEntrySize).Safe := entry_inside hmin hfit
    intro a ha
    rw [loopAccesses] at ha
    split at ha
    · cases ha
    · rcases List.mem_append.mp ha with hfind | hrest
      · grind [sectorAccesses]
      · cases hread : (gptSector hdr (512 / hdr.entrySize.toNat) i sector m).1 with
        | none => grind
        | some sector' =>
          simp only [hread] at hrest
          rcases List.mem_append.mp hrest with hentry | hlater
          · grind [entryAccesses]
          · exact ih (i + 1) _ sector' _ a hlater

/-- With entries larger than a sector the first pass of the loop divides by zero. -/
theorem loopAccesses_unsafe {hdr : GptHeader} (hbig : 512 < hdr.entrySize.toNat) {left : Nat}
    (hleft : 0 < left) (sector : List UInt8) (m : Fat.BlockDevice) :
    loopAccesses hdr (512 / hdr.entrySize.toNat) left 0 0 sector m = [.divide 0] := by
  obtain ⟨left, rfl⟩ := Nat.exists_eq_succ_of_ne_zero hleft.ne'
  rw [Nat.div_eq_of_lt hbig, loopAccesses]
  rfl

theorem gptHeader_size {sector : List UInt8} {hdr : GptHeader} (h : gptHeader sector = some hdr) :
    gptEntrySize ≤ hdr.entrySize.toNat := by
  grind [gptHeader, gptEntrySize]

/-- The loop runs over no entry exactly when the header counts none. -/
theorem GptHeader.no_entries (hdr : GptHeader) :
    hdr.entryCount = 0 ↔ min hdr.entryCount.toNat gptEntries = 0 := by
  rw [← UInt32.toNat_inj]
  grind [gptEntries]

/-- The scan of a header it accepts is safe exactly when an entry fits a sector, or
there are no entries: for every content of the entry sectors, and whether or not
they can be read. -/
theorem gptAccesses_safe_of_header {sector : List UInt8} {hdr : GptHeader}
    (hhdr : gptHeader sector = some hdr) (m : Fat.BlockDevice) :
    (∀ a ∈ gptAccesses sector m, a.Safe) ↔ hdr.entrySize ≤ 512 ∨ hdr.entryCount = 0 := by
  have hmin := gptHeader_size hhdr
  have hcount := hdr.no_entries
  constructor
  · intro hsafe
    by_contra hbad
    rw [not_or, UInt32.le_iff_toNat_le, Nat.not_le, hcount] at hbad
    have hloop := loopAccesses_unsafe hbad.1 (Nat.pos_of_ne_zero hbad.2) sector m
    have hmem : Access.divide 0 ∈ gptAccesses sector m := by
      simp [gptAccesses, hhdr, hloop]
    exact hsafe _ hmem rfl
  · intro hcond
    have hheader : (Access.copy 0 gptHeaderSize).Safe := by decide
    have hdivide : (Access.divide hdr.entrySize.toNat).Safe := by
      grind [Access.Safe, gptEntrySize]
    have hloop : ∀ a ∈ loopAccesses hdr (512 / hdr.entrySize.toNat)
        (min hdr.entryCount.toNat gptEntries) 0 0 sector m, a.Safe := by
      rcases hcond with hfit | hnone
      · exact loopAccesses_safe hmin (UInt32.le_iff_toNat_le.mp hfit) _ 0 0 sector m
      · rw [hcount.mp hnone, loopAccesses]
        simp
    grind [gptAccesses]

/-- The scan divides by zero or copies from outside its buffer exactly on a sector
whose header passes the guard, has entries, and gives them more than 512 bytes. -/
theorem gptAccesses_safe_iff (sector : List UInt8) (m : Fat.BlockDevice) :
    (∀ a ∈ gptAccesses sector m, a.Safe) ↔
      ∀ hdr, gptHeader sector = some hdr → hdr.entrySize ≤ 512 ∨ hdr.entryCount = 0 := by
  cases hhdr : gptHeader sector with
  | none =>
    have hheader : (Access.copy 0 gptHeaderSize).Safe := by decide
    grind [gptAccesses]
  | some hdr =>
    rw [gptAccesses_safe_of_header hhdr]
    grind

/-- A header with one entry of 1024 bytes. -/
def largeEntrySector : List UInt8 :=
  gptSignature ++ List.replicate 72 0 ++ [1, 0, 0, 0, 0, 4, 0, 0] ++ List.replicate 424 0

/-- The entry of 1024 bytes is located modulo zero. -/
theorem largeEntrySector_unsafe :
    ¬ ∀ a ∈ gptAccesses largeEntrySector { sectors := 64, data := fun _ => 0 }, a.Safe := by
  decide +kernel

end Disk
