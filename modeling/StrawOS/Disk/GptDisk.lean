import StrawOS.Disk.Gpt

/-!
# A disk after `block_write_gpt`

Where the writes go, for a disk of every size, and what is then read from it: the two
headers, the table of entries, and the extents that the scan takes from it.
-/

namespace Disk

variable {w : Writer} {p : Put} {r : Randoms} {sectors : UInt64} {l : Layout}

/-! ## The positions -/

theorem layout_toNat (h : 34 ≤ sectors.toNat) :
    (layout sectors).last.toNat = sectors.toNat - 1 ∧
    (layout sectors).lastUsable.toNat = sectors.toNat - 34 ∧
    ((layout sectors).last - gptEntrySectors).toNat = sectors.toNat - 33 ∧
    (layout sectors).partEnd.toNat =
      ((sectors.toNat - 33) / 2048 * 2048 + 18446744073709551615) % 18446744073709551616 := by
  have hlt := sectors.toNat_lt
  have hlast : (sectors - 1).toNat = sectors.toNat - 1 := by
    rw [UInt64.toNat_sub]
    simp only [UInt64.toNat_one]
    omega
  have hentries : gptEntrySectors.toNat = 32 := rfl
  have halign : gptAlign.toNat = 2048 := rfl
  have husable : (sectors - 1 - 1 - gptEntrySectors).toNat = sectors.toNat - 34 := by
    rw [UInt64.toNat_sub, UInt64.toNat_sub, hlast, hentries]
    simp only [UInt64.toNat_one]
    omega
  refine ⟨hlast, husable, ?_, ?_⟩
  · change (sectors - 1 - gptEntrySectors).toNat = _
    rw [UInt64.toNat_sub, hlast, hentries]
    omega
  · change ((sectors - 1 - 1 - gptEntrySectors + 1) / gptAlign * gptAlign - 1).toNat = _
    rw [UInt64.toNat_sub, UInt64.toNat_mul, UInt64.toNat_div, UInt64.toNat_add, husable, halign]
    simp only [UInt64.toNat_one]
    omega

/-- The positions on a smaller disk wrap, and the partition ends far behind it. -/
theorem layout_wraps (h : sectors.toNat < 34) : ¬ (layout sectors).partEnd ≤ gptAlign := by
  have hentries : gptEntrySectors.toNat = 32 := rfl
  have halign : gptAlign.toNat = 2048 := rfl
  rw [UInt64.le_iff_toNat_le, halign]
  change ¬ ((sectors - 1 - 1 - gptEntrySectors + 1) / gptAlign * gptAlign - 1).toNat ≤ _
  rw [UInt64.toNat_sub, UInt64.toNat_mul, UInt64.toNat_div, UInt64.toNat_add, UInt64.toNat_sub,
    UInt64.toNat_sub, UInt64.toNat_sub, halign, hentries]
  simp only [UInt64.toNat_one]
  omega

/-! ## The writes -/

/-- A write inside the disk, with as many bytes as it needs. -/
structure Put.Fits (p : Put) (size : Nat) : Prop where
  pos : 0 < p.count
  inside : p.lba.toNat + p.count ≤ size
  length : p.buf.length = p.count * 512

theorem put_of_fits (hio : w.medium.faults = []) (h : p.Fits w.medium.sectors) :
    w.put p = (true, ⟨w.medium.store (p.lba.toNat * 512) p.buf, w.written ++ [p.lba.toNat]⟩) := by
  have hok : w.medium.refuses p.lba.toNat p.count = false := by
    have := h.inside
    have := h.pos
    simp [Fat.BlockDevice.refuses]
    omega
  rw [Writer.put, Fat.blockWrite_eq hio _ h.pos h.inside h.length, hok]
  rfl

theorem put_of_refused (h : w.medium.refuses p.lba.toNat p.count = true) :
    w.put p = (false, w) := by
  rw [Writer.put, Fat.blockWrite, h]
  rfl

theorem flush_eq (hio : w.medium.faults = []) : w.flush = (true, w) := by
  rw [Writer.flush, Fat.command_eq hio]

/-- The bytes of the disk after some writes. -/
def putBytes (data : Nat → UInt8) (ps : List Put) : Nat → UInt8 :=
  ps.foldl (fun data p => Buf.write data (p.lba.toNat * 512) p.buf) data

theorem putAll_of_fits {ps : List Put} (hio : w.medium.faults = [])
    (h : ∀ p ∈ ps, p.Fits w.medium.sectors) :
    w.putAll ps = (true, ⟨{ w.medium with data := putBytes w.medium.data ps },
      w.written ++ ps.map fun p => p.lba.toNat⟩) := by
  induction ps generalizing w with
  | nil => simp [Writer.putAll, putBytes]
  | cons p ps ih =>
    rw [Writer.putAll, put_of_fits hio (h p List.mem_cons_self)]
    refine Eq.trans (@ih ⟨w.medium.store _ _, _⟩ hio fun q hq => h q (List.mem_cons_of_mem _ hq)) ?_
    simp [putBytes, Fat.BlockDevice.store]

theorem read_putBytes {data : Nat → UInt8} {ps : List Put} {off n : Nat}
    (h : ∀ p ∈ ps, off + n ≤ p.lba.toNat * 512 ∨ p.lba.toNat * 512 + p.buf.length ≤ off) :
    Buf.read (putBytes data ps) off n = Buf.read data off n := by
  induction ps generalizing data with
  | nil => rfl
  | cons p ps ih =>
    refine Eq.trans (ih fun q hq => h q (List.mem_cons_of_mem _ hq)) ?_
    exact Buf.read_write_disjoint (h p List.mem_cons_self)

/-- A read of what a write of a row stored, if the later ones do not touch it. -/
theorem read_putBytes_self {data : Nat → UInt8} {pre post : List Put} {off n : Nat}
    (hoff : p.lba.toNat * 512 = off) (hn : p.buf.length = n)
    (h : ∀ q ∈ post, off + n ≤ q.lba.toNat * 512 ∨ q.lba.toNat * 512 + q.buf.length ≤ off) :
    Buf.read (putBytes data (pre ++ p :: post)) off n = p.buf := by
  have hsplit : putBytes data (pre ++ p :: post) =
      putBytes (Buf.write (putBytes data pre) (p.lba.toNat * 512) p.buf) post := by
    simp [putBytes]
  rw [hsplit, read_putBytes h, ← hoff, ← hn]
  exact Buf.read_write_self _ _ _

/-! ## The disk -/

theorem fits_of {lba : UInt64} {count size : Nat} {buf : List UInt8} (hpos : 0 < count)
    (hin : lba.toNat + count ≤ size) (hbuf : buf.length = count * 512) :
    (⟨lba, count, buf⟩ : Put).Fits size := ⟨hpos, hin, hbuf⟩

theorem gptPuts_fit (h : 34 ≤ sectors.toNat) :
    ∀ p ∈ gptPuts r (layout sectors), p.Fits sectors.toNat := by
  obtain ⟨hlast, -, htable, -⟩ := layout_toNat h
  have h0 : (0 : UInt64).toNat = 0 := by decide
  have h1 : (1 : UInt64).toNat = 1 := by decide
  have h2 : (2 : UInt64).toNat = 2 := by decide
  have hbytes : (gptTable r (layout sectors)).length = 32 * 512 := by simp
  intro p hp
  simp only [gptPuts, List.mem_cons, List.not_mem_nil, or_false] at hp
  rcases hp with rfl | rfl | rfl | rfl | rfl
  · exact fits_of Nat.one_pos (by omega) (by simp)
  · exact fits_of (by decide) (by omega) hbytes
  · exact fits_of (by decide) (by omega) hbytes
  · exact fits_of Nat.one_pos (by omega) (by simp)
  · exact fits_of Nat.one_pos (by omega) (by simp)

variable {m : Fat.BlockDevice}

/-- The last write clears the first sector of the partition, if the disk has it. -/
def partPut : Put := ⟨gptAlign, 1, zeros 512⟩

/-- The writes of `block_write_gpt` on a disk. -/
def allPuts (r : Randoms) (sectors : UInt64) : List Put :=
  gptPuts r (layout sectors) ++ if 2048 < sectors.toNat then [partPut] else []

theorem putBytes_append (data : Nat → UInt8) (ps qs : List Put) :
    putBytes data (ps ++ qs) = putBytes (putBytes data ps) qs := by
  simp [putBytes]

theorem put_flush_of_fits {q : Put} {data : Nat → UInt8} {before : List Nat}
    (hio : m.faults = []) (h : q.Fits m.sectors) :
    ∃ written, (Writer.put ⟨{ m with data := data }, before⟩ q).2.flush =
      (true, ⟨{ m with data := putBytes data [q] }, written⟩) := by
  have hput := @put_of_fits ⟨{ m with data := data }, before⟩ q hio h
  rw [hput, flush_eq]
  · exact ⟨_, rfl⟩
  · exact hio

theorem put_flush_of_refused {q : Put} {data : Nat → UInt8} {before : List Nat}
    (hio : m.faults = []) (h : m.refuses q.lba.toNat q.count = true) :
    ∃ written, (Writer.put ⟨{ m with data := data }, before⟩ q).2.flush =
      (true, ⟨{ m with data := putBytes data [] }, written⟩) := by
  have hput := @put_of_refused ⟨{ m with data := data }, before⟩ q h
  rw [hput, flush_eq]
  · exact ⟨_, rfl⟩
  · exact hio

/-- On a disk of 34 sectors or more that is not refused, all writes are made. -/
theorem blockWriteGpt_eq (hio : m.faults = []) (hm : m.sectors = sectors.toNat)
    (h34 : 34 ≤ sectors.toNat) (hgo : ¬ (layout sectors).partEnd ≤ gptAlign) :
    ∃ written, blockWriteGpt r true sectors ⟨m, []⟩ =
      (true, ⟨{ m with data := putBytes m.data (allPuts r sectors) }, written⟩) := by
  have hall := @putAll_of_fits ⟨m, []⟩ (gptPuts r (layout sectors)) hio
    (fun p hp => by rw [hm]; exact gptPuts_fit h34 p hp)
  simp only [blockWriteGpt]
  rw [show (layout sectors).partStart = gptAlign from rfl, if_neg hgo, hall, allPuts,
    putBytes_append]
  by_cases hin : 2048 < sectors.toNat
  · rw [if_pos hin]
    exact put_flush_of_fits hio ⟨Nat.one_pos, by rw [hm]; exact hin, by simp⟩
  · rw [if_neg hin]
    refine put_flush_of_refused hio ?_
    simp only [Fat.BlockDevice.refuses, decide_eq_true_eq]
    right
    rw [hm]
    change sectors.toNat < 2048 + 1
    omega

section Five

variable {data : Nat → UInt8} {lba last : UInt64} {mbr table back front : List UInt8}
  {tail : List Put}

/-- The five writes: of the boot sector, the table, its copy, and the two headers. -/
def five (lba last : UInt64) (mbr table back front : List UInt8) : List Put :=
  [⟨0, 1, mbr⟩, ⟨2, 32, table⟩, ⟨lba, 32, table⟩, ⟨last, 1, back⟩, ⟨1, 1, front⟩]

/-- No write of a row touches a range. -/
def Misses (ps : List Put) (off n : Nat) : Prop :=
  ∀ q ∈ ps, off + n ≤ q.lba.toNat * 512 ∨ q.lba.toNat * 512 + q.buf.length ≤ off

theorem Misses.cons {ps : List Put} {off n count : Nat} {buf : List UInt8} (h : Misses ps off n)
    (hp : off + n ≤ lba.toNat * 512 ∨ lba.toNat * 512 + buf.length ≤ off) :
    Misses (⟨lba, count, buf⟩ :: ps) off n :=
  List.forall_mem_cons.mpr ⟨hp, h⟩

theorem read_front (hfront : front.length = 512) (h : Misses tail 512 512) :
    Buf.read (putBytes data (five lba last mbr table back front ++ tail)) 512 512 = front := by
  have hsplit : five lba last mbr table back front ++ tail =
      [⟨0, 1, mbr⟩, ⟨2, 32, table⟩, ⟨lba, 32, table⟩, ⟨last, 1, back⟩] ++ ⟨1, 1, front⟩ :: tail := by
    simp [five]
  have hoff : (1 : UInt64).toNat * 512 = 512 := by decide
  rw [hsplit]
  exact read_putBytes_self hoff hfront h

theorem read_table (htable : table.length = 16384) (hfront : front.length = 512)
    (hlba : 34 ≤ lba.toNat) (hlast : 34 ≤ last.toNat) (h : Misses tail 1024 16384) :
    Buf.read (putBytes data (five lba last mbr table back front ++ tail)) 1024 16384 = table := by
  have hsplit : five lba last mbr table back front ++ tail =
      [⟨0, 1, mbr⟩] ++ ⟨2, 32, table⟩ ::
        ⟨lba, 32, table⟩ :: ⟨last, 1, back⟩ :: ⟨1, 1, front⟩ :: tail := by
    simp [five]
  have hoff : (2 : UInt64).toNat * 512 = 1024 := by decide
  have h1 : (1 : UInt64).toNat = 1 := by decide
  have hpost : Misses (⟨lba, 32, table⟩ :: ⟨last, 1, back⟩ :: ⟨1, 1, front⟩ :: tail) 1024 16384 :=
    ((h.cons (.inr (by omega))).cons (.inl (by omega))).cons (.inl (by omega))
  rw [hsplit]
  exact read_putBytes_self hoff htable hpost

theorem read_copy (htable : table.length = 16384) (hfront : front.length = 512)
    (hlba : 2 ≤ lba.toNat) (hlast : lba.toNat + 32 ≤ last.toNat)
    (h : Misses tail (lba.toNat * 512) 16384) :
    Buf.read (putBytes data (five lba last mbr table back front ++ tail)) (lba.toNat * 512) 16384 =
      table := by
  have hsplit : five lba last mbr table back front ++ tail =
      [⟨0, 1, mbr⟩, ⟨2, 32, table⟩] ++ ⟨lba, 32, table⟩ ::
        ⟨last, 1, back⟩ :: ⟨1, 1, front⟩ :: tail := by
    simp [five]
  have h1 : (1 : UInt64).toNat = 1 := by decide
  have hpost : Misses (⟨last, 1, back⟩ :: ⟨1, 1, front⟩ :: tail) (lba.toNat * 512) 16384 :=
    (h.cons (.inr (by omega))).cons (.inl (by omega))
  rw [hsplit]
  exact read_putBytes_self rfl htable hpost

theorem read_back (hback : back.length = 512) (hfront : front.length = 512)
    (hlast : 2 ≤ last.toNat) (h : Misses tail (last.toNat * 512) 512) :
    Buf.read (putBytes data (five lba last mbr table back front ++ tail)) (last.toNat * 512) 512 =
      back := by
  have hsplit : five lba last mbr table back front ++ tail =
      [⟨0, 1, mbr⟩, ⟨2, 32, table⟩, ⟨lba, 32, table⟩] ++ ⟨last, 1, back⟩ ::
        ⟨1, 1, front⟩ :: tail := by
    simp [five]
  have h1 : (1 : UInt64).toNat = 1 := by decide
  have hpost : Misses (⟨1, 1, front⟩ :: tail) (last.toNat * 512) 512 :=
    h.cons (.inr (by omega))
  rw [hsplit]
  exact read_putBytes_self rfl hback hpost

end Five

theorem partPut_misses {off n : Nat} {c : Prop} [Decidable c]
    (h : off + n ≤ 1048576 ∨ 1049088 ≤ off) :
    Misses (if c then [partPut] else []) off n := by
  intro q hq
  split at hq
  · obtain rfl := List.mem_singleton.mp hq
    have hlba : partPut.lba.toNat * 512 = 1048576 := by decide
    have hlen : partPut.buf.length = 512 := by simp [partPut]
    rw [hlba, hlen]
    omega
  · simp at hq

theorem allPuts_eq (r : Randoms) (sectors : UInt64) : allPuts r sectors =
    five ((layout sectors).last - gptEntrySectors) (layout sectors).last
      (protectiveMbr (layout sectors).last) (gptTable r (layout sectors))
      (gptWriteHeader r (layout sectors) (layout sectors).last 1
        ((layout sectors).last - gptEntrySectors))
      (gptWriteHeader r (layout sectors) 1 (layout sectors).last 2) ++
    if 2048 < sectors.toNat then [partPut] else [] := rfl

/-! ## The scan -/

theorem byte_read_sector (data : Nat → UInt8) {i j : Nat} (hi : i < 128) (hj : j < 128) :
    byte (Buf.read data ((2 + i / 4) * 512) 512) (i % 4 * 128 + j) =
      byte (Buf.read data 1024 16384) (i * 128 + j) := by
  have hpos : (2 + i / 4) * 512 + (i % 4 * 128 + j) = 1024 + (i * 128 + j) := by omega
  have hbyte : ∀ off n k, k < n → byte (Buf.read data off n) k = data (off + k) := by
    intro off n k hk
    rw [byte, List.getD_eq_getElem?_getD, List.getElem?_eq_getElem (by simpa using hk),
      Option.getD_some, Buf.getElem_read]
  rw [hbyte _ _ _ (by omega), hbyte _ _ _ (by omega), hpos]

/-- The loop of the scan over a table of the usual place and format, on a disk without I/O
errors: the extents of its entries, as many as there is room for. -/
theorem gptExtents_eq (hio : m.faults = []) (hm : 34 ≤ m.sectors) {hdr : GptHeader}
    (hlba : hdr.entriesLba = 2) (hsize : hdr.entrySize = 128) {left i room : Nat}
    {sector : List UInt8} (hleft : i + left ≤ 128)
    (hsector : i % 4 ≠ 0 → sector = Buf.read m.data ((2 + i / 4) * 512) 512) :
    gptExtents hdr 4 left i room sector m =
      ((List.range' i left).filterMap fun k =>
        gptExtent (Buf.read m.data 1024 16384) (k * 128)).take room := by
  induction left generalizing i room sector with
  | zero => simp [gptExtents]
  | succ left ih =>
    cases room with
    | zero => simp [gptExtents]
    | succ room =>
      have hgot : gptSector hdr 4 i sector m =
          (some (Buf.read m.data ((2 + i / 4) * 512) 512), m) := by
        rw [gptSector]
        by_cases h0 : i % 4 = 0
        · have hsum : (hdr.entriesLba + .ofNat (i / 4)).toNat = 2 + i / 4 := by
            rw [hlba, UInt64.toNat_add, UInt64.toNat_ofNat']
            change (2 + i / 4 % _) % _ = _
            omega
          rw [if_pos h0, hsum]
          exact Fat.blockRead_eq hio _ Nat.one_pos (by omega)
        · rw [if_neg h0, hsector h0]
      have hentry : gptExtent (Buf.read m.data ((2 + i / 4) * 512) 512) (i % 4 * 128) =
          gptExtent (Buf.read m.data 1024 16384) (i * 128) := by
        rw [gptExtent_eq, gptExtent_eq,
          gptRecord_congr fun j hj => byte_read_sector m.data (by omega) hj]
      have hnext : (i + 1) % 4 ≠ 0 → Buf.read m.data ((2 + i / 4) * 512) 512 =
          Buf.read m.data ((2 + (i + 1) / 4) * 512) 512 := by
        intro h
        rw [show (i + 1) / 4 = i / 4 by omega]
      have h128 : hdr.entrySize.toNat = 128 := by rw [hsize]; rfl
      rw [gptExtents, List.range'_succ, List.filterMap_cons]
      simp only [hgot, h128, hentry]
      cases gptExtent (Buf.read m.data 1024 16384) (i * 128) with
      | none => exact ih (by omega) hnext
      | some e =>
        simp only [List.take_succ_cons]
        rw [ih (by omega) hnext]

/-- What the entries of a table give, when the first two are in use and no others. -/
theorem filterMap_two {α : Type} {f : Nat → Option α} {a b : α} (h0 : f 0 = some a)
    (h1 : f 1 = some b) (h : ∀ i, 2 ≤ i → f i = none) :
    (List.range' 0 128).filterMap f = [a, b] := by
  have htail : (List.range' 2 126).filterMap f = [] := by
    rw [List.filterMap_eq_nil_iff]
    intro i hi
    exact h i (List.mem_range'_1.mp hi).1
  change (0 :: 1 :: List.range' 2 126).filterMap f = _
  rw [List.filterMap_cons, h0]
  rw [List.filterMap_cons, h1]
  rw [htail]

/-- The extents that a scan finds on a disk with the header and the table. -/
theorem partitionEntries_gpt (hio : m.faults = []) (hm : 34 ≤ m.sectors) {l : Layout}
    {my alt : UInt64} {crc : UInt32}
    (hheader : HeaderFields (Buf.read m.data 512 512) l my alt 2 crc)
    (htable : Buf.read m.data 1024 16384 = gptTable r l) (hpart : l.partStart ≤ l.partEnd)
    (hbios : l.firstUsable ≤ l.partStart - 1) :
    partitionEntries m = some [(l.partStart, l.partEnd - l.partStart + 1),
      (l.firstUsable, l.partStart - 1 - l.firstUsable + 1)] := by
  have hsector := Fat.blockRead_eq hio 1 Nat.one_pos (show 1 + 1 ≤ m.sectors by omega)
  have hgpt : gptHeader (Buf.read m.data 512 512) = some ⟨2, 128, 128⟩ := by
    rw [gptHeader]
    rw [hheader.entriesLba, hheader.entryCount, hheader.entrySize, if_neg]
    rintro (h | h)
    · exact h hheader.signature
    · exact absurd h (by decide)
  have hextents := @gptExtents_eq m hio hm ⟨2, 128, 128⟩ rfl rfl 128 0 blockMaxPartitions
    (Buf.read m.data 512 512) (by omega) (fun h => absurd rfl h)
  have hentry : ∀ i, gptExtent (gptTable r l) (i * 128) =
      if i = 0 then some (l.partStart, l.partEnd - l.partStart + 1)
      else if i = 1 then some (l.firstUsable, l.partStart - 1 - l.firstUsable + 1) else none := by
    intro i
    rw [gptExtent_eq, gptRecord_table]
    by_cases h0 : i = 0
    · simp only [if_pos h0, Option.bind_some]
      rw [if_neg (UInt64.not_lt.mpr hpart)]
    · grind
  rw [htable, filterMap_two (by rw [hentry]; rfl) (by rw [hentry]; rfl) (fun i hi => by
    rw [hentry, if_neg (by omega), if_neg (by omega)])] at hextents
  have hread : (Fat.blockRead m 1 1) = (some (Buf.read m.data 512 512), m) := hsector
  rw [partitionEntries, hread]
  simp only [Option.bind_some, hgpt, Option.map_some]
  change some (gptExtents ⟨2, 128, 128⟩ 4 128 0 blockMaxPartitions (Buf.read m.data 512 512) m) = _
  rw [hextents]
  rfl

end Disk
