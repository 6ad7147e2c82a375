import StrawOS.Lib.Endian
import StrawOS.Fat.Block

/-!
# The allocation table and its cache

A FAT32 volume has `fat_count` copies of a table with one 32-bit word for each
cluster, of which the low 28 bits count, and behind them the clusters.  The
driver reads and writes the table through a cache of one sector (`fatGet`,
`fatSet`, `fatCacheFlush`); only the first copy is ever read back.

`Fat32.view` is the volume without the cache: the value of each entry and the
bytes of the clusters.  `Shows fs g v` says that a driver state is in order and
shows the view `v`; `Sees fs g v` is `Shows` without the promise that no command
fails.  A failed command never changes the view: what the device misses, the cache
still has.  Every function here comes with one lemma in each of these terms.
-/

-- Unification counts down the literal 512 of the sector size.
set_option maxRecDepth 2000

namespace Fat

def fatMask : UInt32 := 0x0FFFFFFF

def fatEoc : Nat := 0x0FFFFFFF

/-- The fields of `Fat32` that `fat_parse_boot` fills in and nothing changes. -/
structure Geometry where
  spc : Nat
  fatStart : Nat
  fatSectors : Nat
  fatCount : Nat
  dataStart : Nat
  rootCluster : Nat
  clusterCount : Nat
  deriving DecidableEq, Repr

def Geometry.clusterBytes (g : Geometry) : Nat := g.spc * 512

/-- `fat_valid`; the bound is a 32-bit sum. -/
def Geometry.valid (g : Geometry) (c : Nat) : Bool :=
  decide (2 ≤ c ∧ c < (g.clusterCount + 2) % 2 ^ 32)

/-- The table copies lie between the boot sector and the clusters, the table has
a word for each cluster, the clusters lie inside the device, and there are fewer
of them than would make a mark a cluster number. -/
structure Geometry.Fits (g : Geometry) (sectors : Nat) : Prop where
  spc : 0 < g.spc
  copies : 0 < g.fatCount
  boot : 0 < g.fatStart
  table : g.fatStart + g.fatCount * g.fatSectors ≤ g.dataStart
  words : g.clusterCount + 2 ≤ g.fatSectors * 128
  marks : g.clusterCount + 2 ≤ 0x0FFFFFF7
  clusters : g.dataStart + g.clusterCount * g.spc ≤ sectors
  root : g.valid g.rootCluster = true

structure Fat32 where
  geo : Geometry
  nextFree : Nat
  cacheSector : Nat
  cacheValid : Bool
  cacheDirty : Bool
  cache : Nat → UInt8
  dev : BlockDevice

/-- The loop of `fat_cache_flush` over the copies of the table from copy `i` on. -/
def flushCopies (g : Geometry) (sector : Nat) (bytes : List UInt8) :
    (left i : Nat) → BlockDevice → Bool × BlockDevice
  | 0, _, dev => (true, dev)
  | left + 1, i, dev =>
      let done := blockWrite dev (g.fatStart + i * g.fatSectors + sector) 1 bytes
      if done.1 then flushCopies g sector bytes left (i + 1) done.2 else (false, done.2)

def fatCacheFlush (fs : Fat32) : Bool × Fat32 :=
  if !fs.cacheDirty then (true, fs)
  else
    let done := flushCopies fs.geo fs.cacheSector (Buf.read fs.cache 0 512) fs.geo.fatCount 0 fs.dev
    if done.1 then (true, { fs with dev := done.2, cacheDirty := false })
    else (false, { fs with dev := done.2 })

def fatCacheLoad (fs : Fat32) (sector : Nat) : Bool × Fat32 :=
  if fs.cacheValid ∧ fs.cacheSector = sector then (true, fs)
  else
    let flushed := fatCacheFlush fs
    if !flushed.1 then (false, flushed.2)
    else
      let fs := { flushed.2 with cacheValid := false }
      let got := blockRead fs.dev (fs.geo.fatStart + sector) 1
      match got.1 with
      | none => (false, { fs with dev := got.2 })
      | some bytes =>
          (true, { fs with
            dev := got.2, cache := Buf.write fs.cache 0 bytes, cacheSector := sector,
            cacheValid := true })

/-- The word of four bytes of a buffer. -/
def wordAt (b : Nat → UInt8) (off : Nat) : UInt32 :=
  Endian.le32 (b off) (b (off + 1)) (b (off + 2)) (b (off + 3))

theorem wordAt_congr {b b' : Nat → UInt8} {off off' : Nat}
    (h : ∀ i, i < 4 → b (off + i) = b' (off' + i)) : wordAt b off = wordAt b' off' := by
  have h0 := h 0 (by omega)
  rw [Nat.add_zero, Nat.add_zero] at h0
  rw [wordAt, wordAt, h0, h 1 (by omega), h 2 (by omega), h 3 (by omega)]

def fatGet (fs : Fat32) (c : Nat) : Nat × Fat32 :=
  let loaded := fatCacheLoad fs (c / 128)
  if !loaded.1 then (fatEoc, loaded.2)
  else ((wordAt loaded.2.cache (c % 128 * 4) &&& fatMask).toNat, loaded.2)

/-- The word `fat_set` stores over another: the upper four bits stay. -/
def mergeWord (old : UInt32) (value : Nat) : UInt32 :=
  (old &&& ~~~fatMask) ||| (UInt32.ofNat value &&& fatMask)

def fatSet (fs : Fat32) (c value : Nat) : Bool × Fat32 :=
  let loaded := fatCacheLoad fs (c / 128)
  if !loaded.1 then (false, loaded.2)
  else
    let fs := loaded.2
    let word := mergeWord (wordAt fs.cache (c % 128 * 4)) value
    (true, { fs with
      cache := Buf.write fs.cache (c % 128 * 4) (Endian.store32 word), cacheDirty := true })

/-! ## The view -/

/-- A volume without its cache: the size of the device and what is before the
table, the entries of the clusters and, counted from the first cluster on, their
bytes. -/
@[ext] structure View where
  sectors : Nat
  boot : Nat → UInt8
  entry : Nat → Nat
  data : Nat → UInt8

/-- The view with another value in an entry. -/
def View.setEntry (v : View) (c value : Nat) : View :=
  { v with entry := Function.update v.entry c value }

/-- The view with bytes stored from an address among the clusters on. -/
def View.store (v : View) (a : Nat) (bytes : List UInt8) : View :=
  { v with data := Buf.write v.data a bytes }

/-- A byte of the table, as the driver would read it. -/
def Fat32.fatByte (fs : Fat32) (a : Nat) : UInt8 :=
  if fs.cacheValid ∧ a / 512 = fs.cacheSector then fs.cache (a % 512)
  else fs.dev.data (fs.geo.fatStart * 512 + a)

/-- The word of a cluster in the table. -/
def Fat32.word (fs : Fat32) (c : Nat) : UInt32 := wordAt fs.fatByte (4 * c)

/-- The volume as the driver sees it. -/
def Fat32.view (fs : Fat32) : View where
  sectors := fs.dev.sectors
  boot a := if a < fs.geo.fatStart * 512 then fs.dev.data a else 0
  entry c := if fs.geo.valid c then (fs.word c &&& fatMask).toNat else 0
  data a := fs.dev.data (fs.geo.dataStart * 512 + a)

/-- A driver state in order: the volume fits its device, which has no I/O errors,
the search for free clusters starts at a cluster, and the cache holds a sector of
the table, which the device has too unless it was changed. -/
structure Fat32.Ok (fs : Fat32) : Prop where
  fits : fs.geo.Fits fs.dev.sectors
  quiet : fs.dev.faults = []
  free : 2 ≤ fs.nextFree ∧ fs.nextFree < fs.geo.clusterCount + 2
  held : fs.cacheValid = true → fs.cacheSector < fs.geo.fatSectors
  dirty : fs.cacheDirty = true → fs.cacheValid = true
  clean : fs.cacheDirty = false → fs.cacheValid = true → ∀ k, k < 512 →
    fs.cache k = fs.dev.data ((fs.geo.fatStart + fs.cacheSector) * 512 + k)

/-- A driver state in order, for a volume of geometry `g`, that shows `v`. -/
structure Shows (fs : Fat32) (g : Geometry) (v : View) : Prop where
  ok : fs.Ok
  geo : fs.geo = g
  view : fs.view = v

/-- `Fat32.Ok` without the promise that no command fails. -/
structure Fat32.Sane (fs : Fat32) : Prop where
  fits : fs.geo.Fits fs.dev.sectors
  free : 2 ≤ fs.nextFree ∧ fs.nextFree < fs.geo.clusterCount + 2
  held : fs.cacheValid = true → fs.cacheSector < fs.geo.fatSectors
  dirty : fs.cacheDirty = true → fs.cacheValid = true
  clean : fs.cacheDirty = false → fs.cacheValid = true → ∀ k, k < 512 →
    fs.cache k = fs.dev.data ((fs.geo.fatStart + fs.cacheSector) * 512 + k)

/-- A driver state for a volume of geometry `g` that shows `v`; commands may
fail. -/
structure Sees (fs : Fat32) (g : Geometry) (v : View) : Prop where
  sane : fs.Sane
  geo : fs.geo = g
  view : fs.view = v

variable {fs : Fat32} {g : Geometry} {v : View} {c : Nat}

theorem Geometry.Fits.valid_iff {sectors : Nat} (h : g.Fits sectors) :
    g.valid c = true ↔ 2 ≤ c ∧ c < g.clusterCount + 2 := by
  have hm := h.marks
  rw [Geometry.valid, decide_eq_true_iff, Nat.mod_eq_of_lt (by omega)]

theorem Geometry.Fits.sector_lt {sectors : Nat} (h : g.Fits sectors) (hc : g.valid c = true) :
    c / 128 < g.fatSectors := by
  have hw := h.words
  have hv := h.valid_iff.mp hc
  omega

theorem Geometry.Fits.copy_lt {sectors i sector : Nat} (h : g.Fits sectors) (hi : i < g.fatCount)
    (hs : sector < g.fatSectors) : g.fatStart + i * g.fatSectors + sector < g.dataStart := by
  have ht := h.table
  have : (i + 1) * g.fatSectors ≤ g.fatCount * g.fatSectors := Nat.mul_le_mul_right _ hi
  rw [Nat.add_mul] at this
  omega

/-! ## Commands -/

/-- A failed command takes its outcome off the list and does nothing else. -/
theorem command_data (dev : BlockDevice) :
    dev.command.2.data = dev.data ∧ dev.command.2.sectors = dev.sectors := by
  unfold BlockDevice.command
  split <;> exact ⟨rfl, rfl⟩

theorem readLoop_data (dev : BlockDevice) (lba count : Nat) :
    (readLoop dev lba count).2.data = dev.data ∧
      (readLoop dev lba count).2.sectors = dev.sectors ∧
      ∀ bytes, (readLoop dev lba count).1 = some bytes →
        bytes = Buf.read dev.data (lba * 512) (count * 512) := by
  induction count using Nat.strong_induction_on generalizing dev lba with
  | _ count ih =>
    rw [readLoop]
    split
    · rename_i h0
      simp [h0]
    · have hlt : count - min count blockMaxTransfer < count := by
        simp only [blockMaxTransfer]
        omega
      obtain ⟨hdata, hsec⟩ := command_data dev
      dsimp only
      split
      · exact ⟨hdata, hsec, by simp⟩
      · obtain ⟨h1, h2, h3⟩ := ih _ hlt dev.command.2 (lba + min count blockMaxTransfer)
        refine ⟨h1.trans hdata, h2.trans hsec, ?_⟩
        intro bytes hbytes
        rw [Option.map_eq_some_iff] at hbytes
        obtain ⟨rest, hrest, rfl⟩ := hbytes
        rw [h3 rest hrest, hdata, Nat.add_mul, ← Buf.read_add, ← Nat.add_mul,
          Nat.add_sub_cancel' (Nat.min_le_left _ _)]

/-- `block_read` leaves the bytes of the device alone and returns them. -/
theorem blockRead_data (dev : BlockDevice) (lba count : Nat) :
    (blockRead dev lba count).2.data = dev.data ∧
      (blockRead dev lba count).2.sectors = dev.sectors ∧
      ∀ bytes, (blockRead dev lba count).1 = some bytes →
        bytes = Buf.read dev.data (lba * 512) (count * 512) := by
  unfold blockRead
  split
  · exact ⟨rfl, rfl, by simp⟩
  · exact readLoop_data dev lba count

/-- `block_write` of one sector stores it or does nothing. -/
theorem blockWrite_one (dev : BlockDevice) (lba : Nat) {buf : List UInt8}
    (hlen : buf.length = 512) :
    (blockWrite dev lba 1 buf).2.sectors = dev.sectors ∧
      ((blockWrite dev lba 1 buf).1 = true →
        (blockWrite dev lba 1 buf).2.data = (dev.store (lba * 512) buf).data) ∧
      ((blockWrite dev lba 1 buf).1 = false → (blockWrite dev lba 1 buf).2.data = dev.data) := by
  unfold blockWrite
  split
  · exact ⟨rfl, by simp, fun _ => rfl⟩
  obtain ⟨hdata, hsec⟩ := command_data dev
  rw [writeLoop, dif_neg Nat.one_ne_zero]
  have hmin : min 1 blockMaxTransfer = 1 := by decide
  dsimp only
  rw [hmin]
  split
  · exact ⟨hsec, by simp, fun _ => hdata⟩
  · rw [writeLoop, dif_pos (Nat.sub_self 1)]
    have htake : buf.take (1 * 512) = buf := List.take_of_length_le (by omega)
    refine ⟨hsec, fun _ => ?_, by simp⟩
    rw [htake, BlockDevice.store, BlockDevice.store, hdata]

/-! ## Flushing and loading -/

/-- States that agree on the device outside the table and on the bytes of the
table show the same. -/
theorem view_congr {fs' : Fat32} (hgeo : fs'.geo = fs.geo) (hsec : fs'.dev.sectors = fs.dev.sectors)
    (hboot : ∀ a, a < fs.geo.fatStart * 512 → fs'.dev.data a = fs.dev.data a)
    (hfits : fs.geo.Fits fs.dev.sectors)
    (hfat : ∀ a, a < fs.geo.fatSectors * 512 → fs'.fatByte a = fs.fatByte a)
    (hdata : ∀ a, fs.geo.dataStart * 512 ≤ a → fs'.dev.data a = fs.dev.data a) :
    fs'.view = fs.view := by
  refine View.ext hsec ?_ ?_ ?_
  · funext a
    simp only [Fat32.view, hgeo]
    split
    · rename_i ha
      exact hboot a ha
    · rfl
  · funext c
    simp only [Fat32.view, hgeo]
    split
    · rename_i hc
      have hlt := hfits.sector_lt hc
      rw [Fat32.word, Fat32.word, wordAt_congr fun i hi => hfat _ (by omega)]
    · rfl
  · funext a
    simp only [Fat32.view, hgeo]
    exact hdata _ (by omega)

theorem Fat32.Ok.sane (h : fs.Ok) : fs.Sane := ⟨h.fits, h.free, h.held, h.dirty, h.clean⟩

theorem Shows.sees (h : Shows fs g v) : Sees fs g v := ⟨h.ok.sane, h.geo, h.view⟩

theorem flushCopies_data (g : Geometry) (sector : Nat) {bytes : List UInt8}
    (hlen : bytes.length = 512) (left i : Nat) (dev : BlockDevice) :
    (flushCopies g sector bytes left i dev).2.sectors = dev.sectors ∧
      (∀ a, (∀ j, i ≤ j → j < i + left → a / 512 ≠ g.fatStart + j * g.fatSectors + sector) →
        (flushCopies g sector bytes left i dev).2.data a = dev.data a) := by
  induction left generalizing i dev with
  | zero => exact ⟨rfl, fun _ _ => rfl⟩
  | succ left ih =>
    obtain ⟨hsec, hyes, hno⟩ :=
      blockWrite_one dev (g.fatStart + i * g.fatSectors + sector) hlen
    rw [flushCopies]
    by_cases hdone : (blockWrite dev (g.fatStart + i * g.fatSectors + sector) 1 bytes).1 = true
    · rw [if_pos hdone]
      obtain ⟨h1, h2⟩ := ih (i + 1)
        (blockWrite dev (g.fatStart + i * g.fatSectors + sector) 1 bytes).2
      refine ⟨h1.trans hsec, fun a ha => ?_⟩
      rw [h2 a fun j h3 h4 => ha j (by omega) (by omega), hyes hdone]
      exact store_of_other_sector hlen (ha i (Nat.le_refl i) (by omega))
    · rw [if_neg hdone]
      exact ⟨hsec, fun a _ => by rw [hno (by simpa using hdone)]⟩

theorem flushCopies_first (g : Geometry) (sector : Nat) {bytes : List UInt8}
    (hlen : bytes.length = 512) (hpos : 0 < g.fatSectors) {left : Nat} (hleft : 0 < left)
    {dev : BlockDevice} (hok : (flushCopies g sector bytes left 0 dev).1 = true)
    {k : Nat} (hk : k < 512) :
    (flushCopies g sector bytes left 0 dev).2.data ((g.fatStart + sector) * 512 + k) =
      bytes[k] := by
  obtain ⟨left, rfl⟩ : ∃ n, left = n + 1 := ⟨left - 1, by omega⟩
  obtain ⟨-, hyes, -⟩ := blockWrite_one dev (g.fatStart + 0 * g.fatSectors + sector) hlen
  rw [flushCopies] at hok ⊢
  by_cases hdone : (blockWrite dev (g.fatStart + 0 * g.fatSectors + sector) 1 bytes).1 = true
  · rw [if_pos hdone]
    obtain ⟨-, h2⟩ := flushCopies_data g sector hlen left 1
      (blockWrite dev (g.fatStart + 0 * g.fatSectors + sector) 1 bytes).2
    rw [Nat.zero_add, h2 _ fun j h3 _ heq => by
      have hmul : 1 * g.fatSectors ≤ j * g.fatSectors := Nat.mul_le_mul_right _ h3
      omega, hyes hdone, Nat.zero_mul, Nat.add_zero]
    exact store_self (hlen.symm ▸ hk)
  · rw [if_neg hdone] at hok
    exact absurd hok (by simp)

/-- While the cache has nothing of its own, the device has the table. -/
theorem Fat32.Sane.fatByte_of_clean (h : fs.Sane) (hc : fs.cacheDirty = false) (a : Nat) :
    fs.fatByte a = fs.dev.data (fs.geo.fatStart * 512 + a) := by
  rw [Fat32.fatByte]
  split
  · rename_i hv
    rw [h.clean hc hv.1 (a % 512) (by omega), ← hv.2]
    congr 1
    omega
  · rfl

/-- `fat_cache_flush`: the view stays, and a flush that succeeds leaves nothing
in the cache that the device does not have. -/
theorem fatCacheFlush_sees (h : Sees fs g v) :
    Sees (fatCacheFlush fs).2 g v ∧
      ((fatCacheFlush fs).1 = true → (fatCacheFlush fs).2.cacheDirty = false) ∧
      (fatCacheFlush fs).2.nextFree = fs.nextFree := by
  obtain ⟨hok, rfl, rfl⟩ := h
  by_cases hd : fs.cacheDirty = true
  swap
  · have hd : fs.cacheDirty = false := by simpa using hd
    have heq : fatCacheFlush fs = (true, fs) := by simp [fatCacheFlush, hd]
    rw [heq]
    exact ⟨⟨hok, rfl, rfl⟩, fun _ => hd, rfl⟩
  have hv := hok.dirty hd
  have hheld := hok.held hv
  have hlen : (Buf.read fs.cache 0 512).length = 512 := Buf.length_read _ _ _
  obtain ⟨hsec, hother⟩ := flushCopies_data fs.geo fs.cacheSector hlen fs.geo.fatCount 0 fs.dev
  have hpos : 0 < fs.geo.fatSectors := by omega
  have hfirst := @flushCopies_first fs.geo fs.cacheSector _ hlen hpos _ hok.fits.copies fs.dev
  rw [fatCacheFlush, if_neg (by simp [hd])]
  generalize flushCopies fs.geo fs.cacheSector (Buf.read fs.cache 0 512) fs.geo.fatCount 0 fs.dev =
    done at hsec hother hfirst ⊢
  obtain ⟨yes, dev'⟩ := done
  have hin : ∀ j, j < 0 + fs.geo.fatCount →
      fs.geo.fatStart + j * fs.geo.fatSectors + fs.cacheSector < fs.geo.dataStart :=
    fun j hj => hok.fits.copy_lt (by omega) hheld
  have hlow : ∀ a, a < fs.geo.fatStart * 512 → dev'.data a = fs.dev.data a := by grind
  have hhigh : ∀ a, fs.geo.dataStart * 512 ≤ a → dev'.data a = fs.dev.data a := by grind
  have hview : ∀ fs' : Fat32, fs'.geo = fs.geo → fs'.dev = dev' → fs'.cache = fs.cache →
      fs'.cacheValid = fs.cacheValid → fs'.cacheSector = fs.cacheSector → fs'.view = fs.view := by
    intro fs' hgeo hdev hcache hvalid hsector
    refine view_congr hgeo (by rw [hdev]; exact hsec) (by rw [hdev]; exact hlow) hok.fits ?_
      (by rw [hdev]; exact hhigh)
    intro a ha
    simp only [Fat32.fatByte, hgeo, hdev, hcache, hvalid, hsector]
    split
    · rfl
    · rename_i hne
      -- Another sector of the first copy, so not of any copy.
      refine hother _ fun j _ _ hj => ?_
      have hne : a / 512 ≠ fs.cacheSector := fun h => hne ⟨hv, h⟩
      cases j with
      | zero => omega
      | succ j =>
        rw [Nat.add_mul] at hj
        omega
  have hfits : fs.geo.Fits dev'.sectors := by
    rw [show dev'.sectors = fs.dev.sectors from hsec]
    exact hok.fits
  cases yes with
  | true =>
    refine ⟨⟨⟨hfits, hok.free, hok.held, fun hd => absurd hd (by simp), ?_⟩, rfl,
      hview _ rfl rfl rfl rfl rfl⟩, fun _ => rfl, rfl⟩
    intro _ _ k hk
    have hbyte := hfirst rfl hk
    rw [Buf.getElem_read, Nat.zero_add] at hbyte
    exact hbyte.symm
  | false =>
    refine ⟨⟨⟨hfits, hok.free, hok.held, hok.dirty, ?_⟩, rfl, hview _ rfl rfl rfl rfl rfl⟩,
      fun hno => absurd hno (by simp), rfl⟩
    exact fun hclean => absurd (hclean.symm.trans hd) (by simp)

/-- `fat_cache_load`: the view stays, and a load that succeeds has the sector in
the cache. -/
theorem fatCacheLoad_sees (h : Sees fs g v) {sector : Nat} (hs : sector < g.fatSectors) :
    Sees (fatCacheLoad fs sector).2 g v ∧
      ((fatCacheLoad fs sector).1 = true → (fatCacheLoad fs sector).2.cacheValid = true ∧
        (fatCacheLoad fs sector).2.cacheSector = sector) ∧
      (fatCacheLoad fs sector).2.nextFree = fs.nextFree := by
  by_cases hhit : fs.cacheValid = true ∧ fs.cacheSector = sector
  · have heq : fatCacheLoad fs sector = (true, fs) := by simp [fatCacheLoad, hhit]
    rw [heq]
    exact ⟨h, fun _ => hhit, rfl⟩
  obtain ⟨hflush, hclean, hfree⟩ := fatCacheFlush_sees h
  rw [fatCacheLoad, if_neg hhit]
  generalize fatCacheFlush fs = flushed at hflush hclean hfree ⊢
  obtain ⟨yes, fs₁⟩ := flushed
  cases yes with
  | false => exact ⟨hflush, fun hno => absurd hno (by simp), hfree⟩
  | true =>
    obtain ⟨hok, rfl, rfl⟩ := hflush
    have hclean : fs₁.cacheDirty = false := hclean rfl
    obtain ⟨hdata, hsec, hbytes⟩ := blockRead_data fs₁.dev (fs₁.geo.fatStart + sector) 1
    simp only [Bool.not_true, Bool.false_eq_true, if_false]
    generalize blockRead fs₁.dev (fs₁.geo.fatStart + sector) 1 = got at hdata hsec hbytes ⊢
    obtain ⟨res, dev'⟩ := got
    have hfits : fs₁.geo.Fits dev'.sectors := by
      rw [show dev'.sectors = fs₁.dev.sectors from hsec]
      exact hok.fits
    cases res with
    | none =>
      refine ⟨⟨⟨hfits, hok.free, fun hv => absurd hv (by simp), fun hd => ?_,
        fun _ hv => absurd hv (by simp)⟩, rfl, ?_⟩, fun hno => absurd hno (by simp), hfree⟩
      · exact absurd (hclean.symm.trans hd) (by simp)
      · refine view_congr rfl hsec (fun a _ => by rw [hdata]) hok.fits ?_
          (fun a _ => by rw [hdata])
        intro a _
        rw [hok.fatByte_of_clean hclean, Fat32.fatByte, if_neg (by simp), hdata]
    | some bytes =>
      obtain rfl := hbytes bytes rfl
      dsimp only
      have hbyte : ∀ k, k < 512 → Buf.write fs₁.cache 0
          (Buf.read fs₁.dev.data ((fs₁.geo.fatStart + sector) * 512) (1 * 512)) k =
          fs₁.dev.data ((fs₁.geo.fatStart + sector) * 512 + k) := by
        intro k hk
        have hlen : (Buf.read fs₁.dev.data ((fs₁.geo.fatStart + sector) * 512)
            (1 * 512)).length = 512 := Buf.length_read _ _ _
        rw [Buf.write_zero_of_mem (hlen.symm ▸ hk), Buf.getElem_read]
      refine ⟨⟨⟨hfits, hok.free, fun _ => hs, fun _ => rfl, fun _ _ => ?_⟩, rfl, ?_⟩,
        fun _ => ⟨rfl, rfl⟩, hfree⟩
      · intro k hk
        rw [hdata]
        exact hbyte k hk
      · refine view_congr rfl hsec (fun a _ => by rw [hdata]) hok.fits ?_
          (fun a _ => by rw [hdata])
        intro a _
        rw [hok.fatByte_of_clean hclean, Fat32.fatByte, hdata]
        split
        · grind
        · rfl

/-- After the loop over the copies each has the sector, and nothing else changed. -/
theorem flushCopies_spec (g : Geometry) (sector : Nat) (cache : Nat → UInt8) (left i : Nat)
    {dev : BlockDevice} (hq : dev.faults = [])
    (hin : ∀ j, i ≤ j → j < i + left → g.fatStart + j * g.fatSectors + sector < dev.sectors)
    (hpos : 0 < g.fatSectors) :
    ∃ dev', flushCopies g sector (Buf.read cache 0 512) left i dev = (true, dev') ∧
      dev'.sectors = dev.sectors ∧ dev'.faults = [] ∧
      (∀ a, (∀ j, i ≤ j → j < i + left → a / 512 ≠ g.fatStart + j * g.fatSectors + sector) →
        dev'.data a = dev.data a) ∧
      ∀ j, i ≤ j → j < i + left → ∀ k, k < 512 →
        dev'.data ((g.fatStart + j * g.fatSectors + sector) * 512 + k) = cache k := by
  induction left generalizing i dev with
  | zero => exact ⟨dev, rfl, rfl, hq, fun _ _ => rfl, fun j h1 h2 => absurd h2 (by omega)⟩
  | succ left ih =>
    have hlen : (Buf.read cache 0 512).length = 512 := Buf.length_read _ _ _
    have hw := blockWrite_eq hq (g.fatStart + i * g.fatSectors + sector) Nat.one_pos
      (hin i (by omega) (by omega)) (hlen.trans (Nat.one_mul 512).symm)
    obtain ⟨dev', heq, hsec, hf, hother, hcopy⟩ := ih (i + 1)
      (show (dev.store ((g.fatStart + i * g.fatSectors + sector) * 512)
        (Buf.read cache 0 512)).faults = [] from hq)
      (fun j h1 h2 => hin j (by omega) (by omega))
    refine ⟨dev', ?_, hsec, hf, ?_, ?_⟩
    · rw [flushCopies, hw]
      exact heq
    · intro a ha
      rw [hother a fun j h1 h2 => ha j (by omega) (by omega)]
      exact store_of_other_sector hlen (ha i (by omega) (by omega))
    · intro j h1 h2 k hk
      rcases Nat.eq_or_lt_of_le h1 with rfl | hlt
      · -- The later copies leave the sector of this one alone.
        rw [hother]
        · rw [store_self (by rw [hlen]; exact hk), Buf.getElem_read, Nat.zero_add]
        · intro j h3 h4 heq
          have hmul : i * g.fatSectors < j * g.fatSectors :=
            Nat.mul_lt_mul_of_pos_right (by omega) hpos
          omega
      · exact hcopy j (by omega) (by omega) k hk

theorem Sees.shows (h : Sees fs g v) (hq : fs.dev.faults = []) : Shows fs g v :=
  ⟨⟨h.sane.fits, hq, h.sane.free, h.sane.held, h.sane.dirty, h.sane.clean⟩, h.geo, h.view⟩

/-- `fat_cache_flush` leaves nothing in the cache that the device does not have. -/
theorem fatCacheFlush_spec (h : Shows fs g v) :
    ∃ fs', fatCacheFlush fs = (true, fs') ∧ Shows fs' g v ∧ fs'.cacheDirty = false ∧
      fs'.nextFree = fs.nextFree := by
  obtain ⟨hsees, hclean, hfree⟩ := fatCacheFlush_sees h.sees
  have hquiet : (fatCacheFlush fs).1 = true ∧ (fatCacheFlush fs).2.dev.faults = [] := by
    obtain ⟨hok, rfl, rfl⟩ := h
    rw [fatCacheFlush]
    by_cases hd : fs.cacheDirty = true
    swap
    · simpa [hd] using hok.quiet
    have hheld := hok.held (hok.dirty hd)
    have hclusters := hok.fits.clusters
    obtain ⟨dev', heq, -, hq, -⟩ := flushCopies_spec fs.geo fs.cacheSector fs.cache
      fs.geo.fatCount 0 hok.quiet (fun j _ hj => by
        have := hok.fits.copy_lt (show j < fs.geo.fatCount by omega) hheld
        omega) (by omega)
    simpa [hd, heq] using hq
  exact ⟨_, Prod.ext hquiet.1 rfl, hsees.shows hquiet.2, hclean hquiet.1, hfree⟩

/-- `fat_cache_load` has the sector in the cache. -/
theorem fatCacheLoad_spec (h : Shows fs g v) {sector : Nat} (hs : sector < g.fatSectors) :
    ∃ fs', fatCacheLoad fs sector = (true, fs') ∧ Shows fs' g v ∧ fs'.cacheValid = true ∧
      fs'.cacheSector = sector ∧ fs'.nextFree = fs.nextFree := by
  obtain ⟨hsees, hheld, hfree⟩ := fatCacheLoad_sees h.sees hs
  have hquiet : (fatCacheLoad fs sector).1 = true ∧ (fatCacheLoad fs sector).2.dev.faults = [] := by
    rw [fatCacheLoad]
    split
    · exact ⟨rfl, h.ok.quiet⟩
    · obtain ⟨fs₁, heq, ⟨hok, rfl, rfl⟩, -⟩ := fatCacheFlush_spec h
      have hcopy := hok.fits.copy_lt hok.fits.copies hs
      have hclusters := hok.fits.clusters
      have hread := blockRead_eq hok.quiet (fs₁.geo.fatStart + sector) Nat.one_pos (by omega)
      simpa [heq, hread] using hok.quiet
  obtain ⟨hv, hsec⟩ := hheld hquiet.1
  exact ⟨_, Prod.ext hquiet.1 rfl, hsees.shows hquiet.2, hv, hsec, hfree⟩

/-! ## Entries -/

theorem wordAt_cache (hv : fs.cacheValid = true) (hs : fs.cacheSector = c / 128) :
    wordAt fs.cache (c % 128 * 4) = fs.word c := by
  refine wordAt_congr fun i hi => ?_
  rw [Fat32.fatByte, if_pos ⟨hv, by omega⟩]
  congr 1
  omega

/-- `fat_get` reads the entry. -/
theorem fatGet_spec (h : Shows fs g v) (hc : g.valid c = true) :
    ∃ fs', fatGet fs c = (v.entry c, fs') ∧ Shows fs' g v ∧ fs'.nextFree = fs.nextFree := by
  obtain rfl := h.geo
  obtain ⟨fs', heq, h', hv, hs, hfree⟩ := fatCacheLoad_spec h (h.ok.fits.sector_lt hc)
  refine ⟨fs', ?_, h', hfree⟩
  rw [fatGet, heq]
  rw [wordAt_cache hv hs, ← h'.view]
  simp [Fat32.view, h'.geo, hc]

theorem mergeWord_and (old : UInt32) (value : Nat) :
    mergeWord old value &&& fatMask = UInt32.ofNat value &&& fatMask := by
  apply UInt32.toBitVec_inj.mp
  ext i hi
  simp only [mergeWord, UInt32.toBitVec_and, UInt32.toBitVec_or, UInt32.toBitVec_not,
    BitVec.getElem_and, BitVec.getElem_or, BitVec.getElem_not]
  cases fatMask.toBitVec[i] <;> simp

theorem mergeWord_low (old : UInt32) {value : Nat} (hv : value < 2 ^ 28) :
    (mergeWord old value &&& fatMask).toNat = value := by
  have hmask : fatMask.toNat = 2 ^ 28 - 1 := by decide
  rw [mergeWord_and, UInt32.toNat_and, hmask, Nat.and_two_pow_sub_one_eq_mod, UInt32.toNat_ofNat']
  omega

theorem wordAt_write_self (b : Nat → UInt8) (off : Nat) (w : UInt32) :
    wordAt (Buf.write b off (Endian.store32 w)) off = w := by
  have hbyte : ∀ i (hi : i < (Endian.store32 w).length),
      Buf.write b off (Endian.store32 w) (off + i) = (Endian.store32 w)[i] :=
    fun i hi => Buf.write_of_mem hi
  have h0 := hbyte 0 (by simp [Endian.store32])
  rw [Nat.add_zero] at h0
  rw [wordAt, h0, hbyte 1 (by simp [Endian.store32]), hbyte 2 (by simp [Endian.store32]),
    hbyte 3 (by simp [Endian.store32])]
  exact Endian.le32_byteAt w

theorem wordAt_write_of_ne (b : Nat → UInt8) {off off' : Nat} (w : UInt32)
    (h : off' + 4 ≤ off ∨ off + 4 ≤ off') :
    wordAt (Buf.write b off (Endian.store32 w)) off' = wordAt b off' := by
  refine wordAt_congr fun i hi => ?_
  rcases h with h | h
  · exact Buf.write_of_lt (by omega)
  · exact Buf.write_of_ge (by simp [Endian.store32]; omega)

/-- The state with a new word for a cluster in the cache. -/
def Fat32.putWord (fs : Fat32) (c value : Nat) : Fat32 :=
  { fs with
    cache := Buf.write fs.cache (c % 128 * 4)
      (Endian.store32 (mergeWord (wordAt fs.cache (c % 128 * 4)) value)), cacheDirty := true }

theorem word_putWord (hv : fs.cacheValid = true) (hs : fs.cacheSector = c / 128) (value c' : Nat) :
    (fs.putWord c value).word c' = if c' = c then mergeWord (fs.word c) value else fs.word c' := by
  split
  · rename_i heq
    rw [heq, ← wordAt_cache hv hs, ← @wordAt_cache (fs.putWord c value) c hv hs]
    exact wordAt_write_self _ _ _
  · by_cases hsec : c' / 128 = c / 128
    · rw [← @wordAt_cache (fs.putWord c value) c' hv (hs.trans hsec.symm),
        ← wordAt_cache hv (hs.trans hsec.symm)]
      exact wordAt_write_of_ne _ _ (by omega)
    · refine wordAt_congr fun i hi => ?_
      have hout : ¬ (4 * c' + i) / 512 = fs.cacheSector := by omega
      rw [Fat32.fatByte, Fat32.fatByte, if_neg fun h => hout h.2, if_neg fun h => hout h.2]
      rfl

theorem Fat32.Ok.putWord (h : fs.Ok) (hv : fs.cacheValid = true) (c value : Nat) :
    (fs.putWord c value).Ok :=
  ⟨h.fits, h.quiet, h.free, h.held, fun _ => hv, fun hd => absurd hd (by simp [Fat32.putWord])⟩

/-- `fat_get` reads the entry or answers `FAT_EOC`; the sector of an entry that
was read is in the cache. -/
theorem fatGet_sees (h : Sees fs g v) (hc : g.valid c = true) :
    Sees (fatGet fs c).2 g v ∧ (fatGet fs c).2.nextFree = fs.nextFree ∧
      (fatCacheLoad fs (c / 128)).2 = (fatGet fs c).2 ∧
      (((fatCacheLoad fs (c / 128)).1 = false ∧ (fatGet fs c).1 = fatEoc) ∨
        ((fatCacheLoad fs (c / 128)).1 = true ∧ (fatGet fs c).1 = v.entry c ∧
          (fatGet fs c).2.cacheValid = true ∧ (fatGet fs c).2.cacheSector = c / 128)) := by
  obtain rfl := h.geo
  obtain ⟨hload, hheld, hfree⟩ := fatCacheLoad_sees h (h.sane.fits.sector_lt hc)
  rw [fatGet]
  generalize fatCacheLoad fs (c / 128) = loaded at hload hheld hfree ⊢
  obtain ⟨yes, fs'⟩ := loaded
  cases yes with
  | false => exact ⟨hload, hfree, rfl, .inl ⟨rfl, rfl⟩⟩
  | true =>
    obtain ⟨hv, hs⟩ := hheld rfl
    refine ⟨hload, hfree, rfl, .inr ⟨rfl, ?_, hv, hs⟩⟩
    have hvalid : fs'.geo.valid c = true := by
      rw [show fs'.geo = fs.geo from hload.geo]
      exact hc
    rw [← hload.view]
    simp only [Bool.not_true, Bool.false_eq_true, if_false, Fat32.view, hvalid, if_true]
    rw [wordAt_cache hv hs]

theorem Sees.putWord (h : Sees fs g v) (hc : g.valid c = true) (hv : fs.cacheValid = true)
    (hs : fs.cacheSector = c / 128) {value : Nat} (hvalue : value < 2 ^ 28) :
    Sees (fs.putWord c value) g (v.setEntry c value) := by
  have hok := h.sane
  refine ⟨⟨hok.fits, hok.free, hok.held, fun _ => hv, fun hd => absurd hd (by simp [Fat32.putWord])⟩,
    h.geo, ?_⟩
  rw [← h.view]
  refine View.ext rfl rfl ?_ rfl
  funext c'
  have hgeo : (fs.putWord c value).geo = fs.geo := rfl
  simp only [Fat32.view, View.setEntry, hgeo, word_putWord hv hs]
  by_cases hc' : c' = c
  · subst hc'
    rw [Function.update_self, h.geo, if_pos hc, if_pos rfl, mergeWord_low _ hvalue]
  · rw [Function.update_of_ne hc', if_neg hc']

/-- `fat_set` writes the entry and no other, or does nothing. -/
theorem fatSet_sees (h : Sees fs g v) (hc : g.valid c = true) {value : Nat}
    (hvalue : value < 2 ^ 28) :
    (fatSet fs c value).2.nextFree = fs.nextFree ∧
      (((fatSet fs c value).1 = false ∧ Sees (fatSet fs c value).2 g v) ∨
        ((fatSet fs c value).1 = true ∧ Sees (fatSet fs c value).2 g (v.setEntry c value))) := by
  obtain ⟨hload, hheld, hfree⟩ :=
    fatCacheLoad_sees h (h.geo ▸ h.sane.fits.sector_lt (h.geo.symm ▸ hc))
  rw [fatSet]
  generalize fatCacheLoad fs (c / 128) = loaded at hload hheld hfree ⊢
  obtain ⟨yes, fs₁⟩ := loaded
  cases yes with
  | false => exact ⟨hfree, .inl ⟨rfl, hload⟩⟩
  | true =>
    obtain ⟨hv, hs⟩ := hheld rfl
    exact ⟨hfree, .inr ⟨rfl, hload.putWord hc hv hs hvalue⟩⟩

theorem fatSet_of_held (h : Sees fs g v) (hc : g.valid c = true) (hv : fs.cacheValid = true)
    (hs : fs.cacheSector = c / 128) {value : Nat} (hvalue : value < 2 ^ 28) :
    (fatSet fs c value).1 = true ∧ Sees (fatSet fs c value).2 g (v.setEntry c value) := by
  have hload : fatCacheLoad fs (c / 128) = (true, fs) := by simp [fatCacheLoad, hv, hs]
  rw [fatSet, hload]
  exact ⟨rfl, h.putWord hc hv hs hvalue⟩

/-- `fat_set` writes the entry and no other. -/
theorem fatSet_spec (h : Shows fs g v) (hc : g.valid c = true) {value : Nat}
    (hvalue : value < 2 ^ 28) :
    ∃ fs', fatSet fs c value = (true, fs') ∧ Shows fs' g (v.setEntry c value) ∧
      fs'.nextFree = fs.nextFree := by
  obtain rfl := h.geo
  obtain ⟨fs₁, heq, h', hv, hs, hfree⟩ := fatCacheLoad_spec h (h.ok.fits.sector_lt hc)
  refine ⟨fs₁.putWord c value, ?_, (h'.sees.putWord hc hv hs hvalue).shows h'.ok.quiet, hfree⟩
  rw [fatSet, heq]
  rfl

theorem Shows.setNextFree (h : Shows fs g v) {n : Nat} (h2 : 2 ≤ n) (hn : n < g.clusterCount + 2) :
    Shows { fs with nextFree := n } g v := by
  obtain ⟨hok, rfl, rfl⟩ := h
  exact ⟨⟨hok.fits, hok.quiet, ⟨h2, hn⟩, hok.held, hok.dirty, hok.clean⟩, rfl, rfl⟩

/-! ## Clusters -/

theorem Shows.store (h : Shows fs g v) (a : Nat) (bytes : List UInt8) :
    Shows { fs with dev := fs.dev.store (g.dataStart * 512 + a) bytes } g (v.store a bytes) := by
  obtain ⟨hok, rfl, rfl⟩ := h
  have hlow : ∀ b, b < fs.geo.dataStart * 512 →
      (fs.dev.store (fs.geo.dataStart * 512 + a) bytes).data b = fs.dev.data b :=
    fun b hb => Buf.write_of_lt (by omega)
  have htable : ∀ b, b < fs.geo.fatSectors * 512 →
      fs.geo.fatStart * 512 + b < fs.geo.dataStart * 512 := by
    intro b hb
    have h1 := hok.fits.copy_lt hok.fits.copies
      (show b / 512 < fs.geo.fatSectors from Nat.div_lt_of_lt_mul (by omega))
    omega
  refine ⟨⟨hok.fits, hok.quiet, hok.free, hok.held, hok.dirty, ?_⟩, rfl, ?_⟩
  · intro hc hv k hk
    rw [hok.clean hc hv k hk]
    have hheld := hok.held hv
    have hlt := htable (fs.cacheSector * 512 + k) (by omega)
    exact (hlow _ (by omega)).symm
  · refine View.ext rfl ?_ ?_ ?_
    · funext b
      simp only [Fat32.view, View.store]
      split
      · have h1 := hok.fits.copy_lt hok.fits.copies
          (show 0 < fs.geo.fatSectors by have := hok.fits.words; omega)
        exact hlow b (by omega)
      · rfl
    · funext c
      simp only [Fat32.view, View.store]
      split
      · rename_i hc
        have hlt := hok.fits.sector_lt hc
        have hbyte : ∀ b, b < fs.geo.fatSectors * 512 →
            Fat32.fatByte { fs with dev := fs.dev.store (fs.geo.dataStart * 512 + a) bytes } b =
              fs.fatByte b := by
          intro b hb
          simp only [Fat32.fatByte]
          split
          · rfl
          · exact hlow _ (htable b hb)
        rw [Fat32.word, Fat32.word, wordAt_congr fun i hi => hbyte _ (by omega)]
      · rfl
    · funext b
      simp only [Fat32.view, View.store, BlockDevice.store, Buf.write]
      by_cases hb : a ≤ b
      · rw [if_pos (by omega), if_pos hb, Nat.add_sub_add_left]
      · rw [if_neg (by omega), if_neg hb]

end Fat
