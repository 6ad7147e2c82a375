import StrawOS.Disk.Mounts

/-!
# Writing a GUID partition table

`block_write_gpt` of `block.c`.  All positions are computed from the size of the disk in
64 bits, which wrap on a small disk.  The random numbers of the GUIDs and the success of
`kcalloc` are given; `written` keeps the first sector of every write that the range check
lets through.
-/

namespace Disk

/-- `block_crc32` of a byte. -/
def crcByte (crc : UInt32) (b : UInt8) : UInt32 :=
  (fun c : UInt32 => (c >>> 1) ^^^ (0xEDB88320 &&& (0 - (c &&& 1))))^[8] (crc ^^^ b.toUInt32)

def blockCrc32 (bytes : List UInt8) (crc : UInt32) : UInt32 := ~~~ bytes.foldl crcByte (~~~ crc)

/-- `block_random_guid` on what two calls of `block_random` return. -/
def blockRandomGuid (a b : UInt64) : List UInt8 :=
  Endian.store 8 ((a &&& 0x0FFFFFFFFFFFFFFF) ||| 0x4000000000000000).toNat ++
    Endian.store 8 ((b &&& 0xFFFFFFFFFFFFFF3F) ||| 0x80).toNat

/-- What the calls of `block_random` return: for the two entries and the disk. -/
structure Randoms where
  esp : UInt64 × UInt64
  bios : UInt64 × UInt64
  disk : UInt64 × UInt64

def gptBiosBootGuid : List UInt8 :=
  [72, 97, 104, 33, 73, 100, 111, 110, 116, 78, 101, 101, 100, 69, 70, 73]

def gptEspGuid : List UInt8 :=
  [0x28, 0x73, 0x2A, 0xC1, 0x1F, 0xF8, 0xD2, 0x11, 0xBA, 0x4B, 0x00, 0xA0, 0xC9, 0x3E, 0xC9, 0x3B]

/-- The bytes of cleared memory. -/
def zeros (n : Nat) : List UInt8 := List.replicate n 0

@[simp] theorem length_zeros (n : Nat) : (zeros n).length = n := List.length_replicate

/-- The field `name` of an entry: UTF-16, filled up with zeros. -/
def nameField (label : List UInt8) : List UInt8 :=
  label.flatMap (fun c => [c, 0]) ++ zeros (72 - 2 * label.length)

def gptEntry (type guid : List UInt8) (first last : UInt64) (label : List UInt8) : List UInt8 :=
  type ++ guid ++ Endian.store 8 first.toNat ++ Endian.store 8 last.toNat ++
    Endian.store 8 0 ++ nameField label

/-- `ALIGN_DOWN`, for a power of two. -/
def alignDown (x a : UInt64) : UInt64 := x / a * a

/-- The positions `block_write_gpt` computes from the size of the disk. -/
structure Layout where
  last : UInt64
  firstUsable : UInt64
  lastUsable : UInt64
  partStart : UInt64
  partEnd : UInt64
  deriving DecidableEq

def layout (sectors : UInt64) : Layout :=
  let last := sectors - 1
  let lastUsable := last - 1 - gptEntrySectors
  { last := last
    firstUsable := 2 + gptEntrySectors
    lastUsable := lastUsable
    partStart := gptAlign
    partEnd := alignDown (lastUsable + 1) gptAlign - 1 }

/-- The array of entries: two, and zeros. -/
def gptTable (r : Randoms) (l : Layout) : List UInt8 :=
  gptEntry gptEspGuid (blockRandomGuid r.esp.1 r.esp.2) l.partStart l.partEnd
      [83, 116, 114, 97, 119, 79, 83] ++
    gptEntry gptBiosBootGuid (blockRandomGuid r.bios.1 r.bios.2) l.firstUsable (l.partStart - 1)
      [66, 73, 79, 83, 32, 98, 111, 111, 116] ++
    zeros 16128

/-- The bytes of `GptHeader`. -/
def headerBytes (r : Randoms) (l : Layout) (myLba altLba entriesLba : UInt64) (crc : UInt32) :
    List UInt8 :=
  gptSignature ++ Endian.store 4 0x00010000 ++ Endian.store 4 92 ++ Endian.store 4 crc.toNat ++
    Endian.store 4 0 ++ Endian.store 8 myLba.toNat ++ Endian.store 8 altLba.toNat ++
    Endian.store 8 l.firstUsable.toNat ++ Endian.store 8 l.lastUsable.toNat ++
    blockRandomGuid r.disk.1 r.disk.2 ++ Endian.store 8 entriesLba.toNat ++
    Endian.store 4 gptEntries ++ Endian.store 4 128 ++
    Endian.store 4 (blockCrc32 (gptTable r l) 0).toNat

/-- `gpt_write_header`: the sector with the header and its checksum. -/
def gptWriteHeader (r : Randoms) (l : Layout) (myLba altLba entriesLba : UInt64) : List UInt8 :=
  headerBytes r l myLba altLba entriesLba
      (blockCrc32 (headerBytes r l myLba altLba entriesLba 0) 0) ++
    zeros 420

/-- The boot sector that marks the disk as taken. -/
def protectiveMbr (last : UInt64) : List UInt8 :=
  let count : UInt64 := if last > 0xFFFFFFFF then 0xFFFFFFFF else last
  zeros 446 ++
    [0, 0x00, 0x02, 0, 0xEE, 0xFF, 0xFF, 0xFF] ++ Endian.store 4 1 ++ Endian.store 4 count.toNat ++
    zeros 48 ++ [0x55, 0xAA]

/-! ## The writes -/

/-- A disk that is written to, and the first sectors of the writes so far. -/
structure Writer where
  medium : Fat.BlockDevice
  written : List Nat

/-- An argument list of `block_write`. -/
structure Put where
  lba : UInt64
  count : Nat
  buf : List UInt8

/-- `block_write`. -/
def Writer.put (w : Writer) (p : Put) : Bool × Writer :=
  let done := Fat.blockWrite w.medium p.lba.toNat p.count p.buf
  (done.1, ⟨done.2, if w.medium.refuses p.lba.toNat p.count then w.written
    else w.written ++ [p.lba.toNat]⟩)

/-- Writes, up to the first that fails. -/
def Writer.putAll (w : Writer) : List Put → Bool × Writer
  | [] => (true, w)
  | p :: ps =>
      match w.put p with
      | (false, w) => (false, w)
      | (true, w) => w.putAll ps

/-- `block_flush`; a driver without one has one that does not fail. -/
def Writer.flush (w : Writer) : Bool × Writer :=
  let done := w.medium.command
  (done.1, ⟨done.2, w.written⟩)

/-- The writes of `block_write_gpt` whose failure ends it. -/
def gptPuts (r : Randoms) (l : Layout) : List Put :=
  let table := gptTable r l
  [⟨0, 1, protectiveMbr l.last⟩,
    ⟨2, 32, table⟩,
    ⟨l.last - gptEntrySectors, 32, table⟩,
    ⟨l.last, 1, gptWriteHeader r l l.last 1 (l.last - gptEntrySectors)⟩,
    ⟨1, 1, gptWriteHeader r l 1 l.last 2⟩]

/-- `block_write_gpt` on a disk of some sectors; `memory` says that `kcalloc` succeeds, and
`false` is the result -1. -/
def blockWriteGpt (r : Randoms) (memory : Bool) (sectors : UInt64) (w : Writer) : Bool × Writer :=
  let l := layout sectors
  if l.partEnd ≤ l.partStart then (false, w)
  else if !memory then (false, w)
  else
    match w.putAll (gptPuts r l) with
    | (false, w) => (false, w)
    | (true, w) => (w.put ⟨l.partStart, 1, zeros 512⟩).2.flush

theorem gptWrites_eq (r : Randoms) (sectors : UInt64) : gptWrites sectors =
    if (layout sectors).partEnd ≤ (layout sectors).partStart then none
    else some ((gptPuts r (layout sectors)).map fun p => (p.lba, .ofNat p.count)) := rfl

end Disk

/-!
# The bytes of a written GUID table

The fields of a record are read back from the row of bytes that it is written as; the two
checksums of a header are those of the bytes that are on the disk.
-/

namespace Disk

variable {bytes pre rest : List UInt8} {off : Nat}

/-! ## Fields -/

theorem byte_append (pre rest : List UInt8) (i : Nat) :
    byte (pre ++ rest) (pre.length + i) = byte rest i := by
  simp only [byte, List.getD_eq_getElem?_getD, List.getElem?_append_right (Nat.le_add_right _ _),
    Nat.add_sub_cancel_left]

theorem byte_append_left (pre rest : List UInt8) {i : Nat} (h : i < pre.length) :
    byte (pre ++ rest) i = byte pre i := by
  simp only [byte, List.getD_eq_getElem?_getD, List.getElem?_append_left h]

theorem field32_skip (h : pre.length ≤ off) :
    field32 (pre ++ rest) off = field32 rest (off - pre.length) := by
  obtain ⟨k, rfl⟩ := Nat.exists_eq_add_of_le h
  simp only [field32, Nat.add_assoc, byte_append, Nat.add_sub_cancel_left]

theorem field64_skip (h : pre.length ≤ off) :
    field64 (pre ++ rest) off = field64 rest (off - pre.length) := by
  obtain ⟨k, rfl⟩ := Nat.exists_eq_add_of_le h
  have h4 : pre.length + k + 4 - pre.length = k + 4 := by omega
  rw [field64, field64, field32_skip h, field32_skip (by omega), Nat.add_sub_cancel_left, h4]

theorem field32_store (n : Nat) (rest : List UInt8) :
    field32 (Endian.store 4 n ++ rest) 0 = .ofNat n := by
  have hbytes : field32 (Endian.store 4 n ++ rest) 0 = Endian.le32 (Endian.byteAt n 0)
      (Endian.byteAt n 1) (Endian.byteAt n 2) (Endian.byteAt n 3) := rfl
  rw [hbytes]
  apply UInt32.toNat_inj.mp
  simp only [Endian.le32, UInt32.toNat_ofNat', Endian.toNat_byteAt]
  omega

theorem field64_store (n : Nat) (rest : List UInt8) :
    field64 (Endian.store 8 n ++ rest) 0 = .ofNat n := by
  have hbytes : field64 (Endian.store 8 n ++ rest) 0 = Endian.le64
      (Endian.le32 (Endian.byteAt n 0) (Endian.byteAt n 1) (Endian.byteAt n 2) (Endian.byteAt n 3))
      (Endian.le32 (Endian.byteAt n 4) (Endian.byteAt n 5) (Endian.byteAt n 6)
        (Endian.byteAt n 7)) := rfl
  rw [hbytes]
  apply UInt64.toNat_inj.mp
  simp only [Endian.le64, Endian.le32, UInt64.toNat_ofNat', UInt32.toNat_ofNat',
    Endian.toNat_byteAt]
  omega

/-! ## Lengths -/

@[simp] theorem length_blockRandomGuid (a b : UInt64) : (blockRandomGuid a b).length = 16 := by
  simp [blockRandomGuid]

theorem length_gptEntry {type guid label : List UInt8} (first last : UInt64)
    (ht : type.length = 16) (hg : guid.length = 16) (hl : label.length ≤ 36) :
    (gptEntry type guid first last label).length = 128 := by
  simp [gptEntry, nameField, ht, hg, List.length_flatMap]
  omega

variable (r : Randoms) (l : Layout) (my alt tbl : UInt64)

/-- The two entries of the table. -/
def espEntry : List UInt8 :=
  gptEntry gptEspGuid (blockRandomGuid r.esp.1 r.esp.2) l.partStart l.partEnd
    [83, 116, 114, 97, 119, 79, 83]

def biosEntry : List UInt8 :=
  gptEntry gptBiosBootGuid (blockRandomGuid r.bios.1 r.bios.2) l.firstUsable (l.partStart - 1)
    [66, 73, 79, 83, 32, 98, 111, 111, 116]

theorem gptTable_eq : gptTable r l = espEntry r l ++ (biosEntry r l ++ zeros 16128) := by
  simp [gptTable, espEntry, biosEntry, List.append_assoc]

@[simp] theorem length_espEntry : (espEntry r l).length = 128 :=
  length_gptEntry _ _ rfl (by simp) (by decide)

@[simp] theorem length_biosEntry : (biosEntry r l).length = 128 :=
  length_gptEntry _ _ rfl (by simp) (by decide)

@[simp] theorem length_gptTable : (gptTable r l).length = 16384 := by
  simp [gptTable_eq]

@[simp] theorem length_headerBytes (crc : UInt32) :
    (headerBytes r l my alt tbl crc).length = 92 := by
  simp [headerBytes, gptSignature]

@[simp] theorem length_gptWriteHeader : (gptWriteHeader r l my alt tbl).length = 512 := by
  simp [gptWriteHeader]

@[simp] theorem length_protectiveMbr (last : UInt64) : (protectiveMbr last).length = 512 := by
  simp [protectiveMbr]

/-! ## The header -/

/-- A header with the fields of a table of our format. -/
structure HeaderFields (sector : List UInt8) (l : Layout) (my alt tbl : UInt64) (crc : UInt32) :
    Prop where
  signature : sector.take 8 = gptSignature
  myLba : field64 sector 24 = my
  alternateLba : field64 sector 32 = alt
  firstUsable : field64 sector 40 = l.firstUsable
  lastUsable : field64 sector 48 = l.lastUsable
  entriesLba : field64 sector 72 = tbl
  entryCount : field32 sector 80 = 128
  entrySize : field32 sector 84 = 128
  entriesCrc : field32 sector 88 = crc

theorem gptWriteHeader_fields : HeaderFields (gptWriteHeader r l my alt tbl) l my alt tbl
    (blockCrc32 (gptTable r l) 0) := by
  have hsig : gptSignature.length = 8 := rfl
  rw [gptWriteHeader, headerBytes]
  simp only [List.append_assoc]
  constructor
  all_goals
    simp [field64_skip, field32_skip, field64_store, field32_store, hsig, gptEntries]

/-- The checksum of a header is that of its bytes with the field cleared. -/
theorem gptWriteHeader_crc : field32 (gptWriteHeader r l my alt tbl) 16 =
    blockCrc32 ((gptWriteHeader r l my alt tbl).take 16 ++ zeros 4 ++
      ((gptWriteHeader r l my alt tbl).drop 20).take 72) 0 := by
  obtain ⟨a, b, ha, hb, hbytes⟩ : ∃ a b : List UInt8, a.length = 16 ∧ b.length = 72 ∧
      ∀ crc : UInt32, headerBytes r l my alt tbl crc = a ++ (Endian.store 4 crc.toNat ++ b) := by
    refine ⟨gptSignature ++ Endian.store 4 0x00010000 ++ Endian.store 4 92, Endian.store 4 0 ++
      Endian.store 8 my.toNat ++ Endian.store 8 alt.toNat ++ Endian.store 8 l.firstUsable.toNat ++
      Endian.store 8 l.lastUsable.toNat ++ blockRandomGuid r.disk.1 r.disk.2 ++
      Endian.store 8 tbl.toNat ++ Endian.store 4 gptEntries ++ Endian.store 4 128 ++
      Endian.store 4 (blockCrc32 (gptTable r l) 0).toNat, ?_, ?_, ?_⟩
    · simp [gptSignature]
    · simp
    · intro crc
      simp only [headerBytes, List.append_assoc]
  have hzero : headerBytes r l my alt tbl 0 = a ++ zeros 4 ++ b := by
    rw [hbytes 0, List.append_assoc]
    rfl
  have hsector : gptWriteHeader r l my alt tbl =
      a ++ (Endian.store 4 (blockCrc32 (a ++ zeros 4 ++ b) 0).toNat ++ (b ++ zeros 420)) := by
    rw [gptWriteHeader, hbytes, hzero]
    simp only [List.append_assoc]
  generalize hcrc : blockCrc32 (a ++ zeros 4 ++ b) 0 = crc at hsector
  have htake : (gptWriteHeader r l my alt tbl).take 16 = a := by
    rw [hsector]
    exact List.take_left' ha
  have hdrop : ((gptWriteHeader r l my alt tbl).drop 20).take 72 = b := by
    rw [hsector, ← List.append_assoc, List.drop_left' (by simp [ha])]
    exact List.take_left' hb
  rw [htake, hdrop, hcrc, hsector, field32_skip (by omega), ha, field32_store]
  exact UInt32.ofNat_toNat

/-! ## The entries -/

theorem byte_zeros (n i : Nat) : byte (zeros n) i = 0 := by
  simp only [byte, zeros, List.getD_eq_getElem?_getD, List.getElem?_replicate]
  split <;> rfl

/-- The first and the last sector of an entry, if it is in use. -/
def gptRecord (sector : List UInt8) (off : Nat) : Option (UInt64 × UInt64) :=
  if (List.range 16).all fun i => byte sector (off + i) == 0 then none
  else some (field64 sector (off + 32), field64 sector (off + 40))

/-- The scan takes the entries in use that do not end before they start. -/
theorem gptExtent_eq (sector : List UInt8) (off : Nat) : gptExtent sector off =
    (gptRecord sector off).bind fun e =>
      if e.2 < e.1 then none else some (e.1, e.2 - e.1 + 1) := by
  simp only [gptExtent, gptRecord]
  by_cases hguid : ((List.range 16).all fun i => byte sector (off + i) == 0) = true
  · rw [if_pos (.inl hguid), if_pos hguid]
    rfl
  · rw [if_neg hguid, Option.bind_some]
    simp only [hguid, Bool.false_eq_true, false_or]

theorem gptRecord_congr {s t : List UInt8} {a b : Nat}
    (h : ∀ j < 128, byte s (a + j) = byte t (b + j)) : gptRecord s a = gptRecord t b := by
  have hfield : ∀ k, k + 8 ≤ 128 → field64 s (a + k) = field64 t (b + k) := by
    intro k hk
    simp only [field64, field32, Nat.add_assoc]
    rw [h k (by omega), h (k + 1) (by omega), h (k + 2) (by omega), h (k + 3) (by omega),
      h (k + 4) (by omega), h (k + (4 + 1)) (by omega), h (k + (4 + 2)) (by omega),
      h (k + (4 + 3)) (by omega)]
  have hguid : ((List.range 16).all fun i => byte s (a + i) == 0) =
      (List.range 16).all fun i => byte t (b + i) == 0 := by grind
  rw [gptRecord, gptRecord, hfield 32 (by omega), hfield 40 (by omega), hguid]

theorem gptRecord_entry {type guid label : List UInt8} {first last : UInt64} (rest : List UInt8)
    (ht : type.length = 16) (hg : guid.length = 16) (hne : type.all (· == 0) = false) :
    gptRecord (gptEntry type guid first last label ++ rest) 0 = some (first, last) := by
  have hguid : ((List.range 16).all fun i =>
      byte (gptEntry type guid first last label ++ rest) (0 + i) == 0) = false := by
    rw [← hne, Bool.eq_iff_iff, List.all_eq_true, List.all_eq_true]
    have hbyte : ∀ i (hi : i < 16), byte (gptEntry type guid first last label ++ rest) (0 + i) =
        type.get ⟨i, by omega⟩ := by
      intro i hi
      rw [List.get_eq_getElem]
      simp only [gptEntry, List.append_assoc, Nat.zero_add]
      rw [byte_append_left _ _ (by omega), byte, List.getD_eq_getElem?_getD,
        List.getElem?_eq_getElem (by omega), Option.getD_some]
    constructor
    · intro h b hb
      obtain ⟨⟨i, hi⟩, rfl⟩ := List.get_of_mem hb
      rw [← hbyte i (by omega)]
      exact h i (List.mem_range.mpr (by omega))
    · grind
  rw [gptRecord, hguid]
  simp only [Bool.false_eq_true, if_false, gptEntry, List.append_assoc]
  simp [field64_skip, field64_store, ht, hg]

theorem gptRecord_table (i : Nat) : gptRecord (gptTable r l) (i * 128) =
    if i = 0 then some (l.partStart, l.partEnd)
    else if i = 1 then some (l.firstUsable, l.partStart - 1) else none := by
  rw [gptTable_eq]
  by_cases h0 : i = 0
  · subst h0
    exact gptRecord_entry _ rfl (by simp) (by decide)
  rw [if_neg h0]
  by_cases h1 : i = 1
  · subst h1
    have hshift : gptRecord (espEntry r l ++ (biosEntry r l ++ zeros 16128)) (1 * 128) =
        gptRecord (biosEntry r l ++ zeros 16128) 0 := by
      apply gptRecord_congr
      intro j _
      have := byte_append (espEntry r l) (biosEntry r l ++ zeros 16128) j
      simpa using this
    rw [if_pos rfl, hshift]
    exact gptRecord_entry _ rfl (by simp) (by decide)
  · have hzero : ∀ k, 256 ≤ k → byte (espEntry r l ++ (biosEntry r l ++ zeros 16128)) k = 0 := by
      intro k hk
      obtain ⟨m, rfl⟩ := Nat.exists_eq_add_of_le hk
      have hlen : 256 + m = (espEntry r l).length + ((biosEntry r l).length + m) := by
        rw [length_espEntry, length_biosEntry]
        omega
      rw [hlen, byte_append, byte_append, byte_zeros]
    rw [if_neg h1, gptRecord, if_pos]
    rw [List.all_eq_true]
    intro j _
    rw [hzero _ (by omega)]
    rfl

end Disk
