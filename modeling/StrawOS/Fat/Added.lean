import StrawOS.Fat.Format
import StrawOS.Fat.LongName
import StrawOS.Fat.Room

/-!
# Adding an entry, and mounting again

`ChainOf.addEntry` says what `fat_add_entry` does to the slots of a directory, and
`Shows.remount` that a mount of the flushed device shows the same volume.
`added_iff` puts them together: the entry is found again under its name if and
only if the name is ASCII, and the directory has a first cluster on the volume.
-/

-- Unification counts down the literal 512 of the sector size.
set_option maxRecDepth 2000

namespace Fat

open Vfs (CString vfsNameMax)

variable {fs : Fat32} {g : Geometry} {v v' : View} {dn fn : FatNode} {chain : List Nat}

/-! ## `fat_add_entry` -/

theorem entrySlots_lengths {name : CString} (hm : lfnCountOf name ≤ 20) {shortName : List UInt8}
    (hlen : shortName.length = 11) (attr : UInt8) (cluster size : Nat) (stamp : UInt16 × UInt16) :
    (entrySlots name shortName attr cluster size stamp).length = lfnCountOf name + 1 ∧
      ∀ e ∈ entrySlots name shortName attr cluster size stamp, e.length = 32 := by
  refine ⟨by simp [entrySlots], fun e he => ?_⟩
  rcases List.mem_append.mp he with he | he
  · obtain ⟨i, hi, rfl⟩ := List.mem_map.mp he
    exact (lfnSlotOf_spec hm (List.mem_range.mp hi) .empty).1
  · rw [List.mem_singleton.mp he]
    exact (shortSlot_bytes hlen attr cluster size stamp).1

/-- What a successful `fat_add_entry` has done. -/
structure Added (g : Geometry) (v : View) (dn : FatNode) (chain : List Nat)
    (taken : List (List UInt8)) (name : CString) (attr : UInt8) (cluster size : Nat) (fn : FatNode)
    (stamp : UInt16 × UInt16) (r : AddResult) (ext : List Nat) (v' : View)
    (shortName : List UInt8) (s z : Nat) : Prop where
  named : name ≠ [] ∧ name.length < vfsNameMax
  short : fatMakeShort taken name = some shortName
  room : RoomAt (dirSlots g v chain) (lfnCountOf name + 1) s z
  shows : Shows r.fs g v'
  linked : ChainOf g v' r.dn (chain ++ ext)
  kept : chain ≠ [] → r.dn.cluster = dn.cluster
  outside : v'.boot = v.boot ∧ v'.sectors = v.sectors
  slots : dirSlots g v' (chain ++ ext) =
    putSlots (dirSlots g v chain ++ List.replicate (ext.length * g.slotsPerCluster) freeSlot) s
      (entrySlots name shortName attr cluster size stamp)
  inside : s + (lfnCountOf name + 1) ≤ (dirSlots g v' (chain ++ ext)).length
  node : r.fn = { fn with
    entryOffset := (32 * s + lfnCountOf name * 32) % 2 ^ 32
    lfnCount := lfnCountOf name
    shortName := shortName }

theorem ChainOf.addEntry (h : Shows fs g v) (hc : ChainOf g v dn chain) {fuel : Nat}
    {taken : List (List UInt8)} {name : CString} {attr : UInt8} {cluster size : Nat}
    {rtc : Option RtcTime} {r : AddResult}
    (hadd : fatAddEntry fuel fs dn taken name attr cluster size fn rtc = some r)
    (hok : r.ok = true) :
    ∃ ext v' shortName s z, Added g v dn chain taken name attr cluster size fn (fatTimestamp rtc) r
      ext v' shortName s z := by
  have hname : name ≠ [] ∧ name.length < vfsNameMax := by
    by_contra hno
    rw [not_and_or, not_not, Nat.not_lt] at hno
    rw [fatAddEntry, if_pos hno] at hadd
    obtain rfl := Option.some.inj hadd
    cases hok
  have hnot : ¬ (name = [] ∨ vfsNameMax ≤ name.length) := by
    rw [not_or, Nat.not_le]
    exact hname
  rw [fatAddEntry, if_neg hnot] at hadd
  cases hshort : fatMakeShort taken name with
  | none =>
    rw [hshort] at hadd
    obtain rfl := Option.some.inj hadd
    cases hok
  | some shortName =>
  rw [hshort] at hadd
  obtain ⟨hcount0, hcount5, -⟩ := lfnCountOf_bounds hname.1 hname.2
  obtain ⟨-, hshort11, -⟩ := fatMakeShort_spec hshort
  obtain ⟨found, hfind, hfound⟩ := Option.map_eq_some_iff.mp hadd
  obtain ⟨ext, v₁, dn₁, fs₁, pos, s, z, hslots, hs₁, hgrown, hchain, hcluster, hroom, hpos⟩ :=
    hc.findSlots h (Nat.succ_pos (lfnCountOf name)) (by omega) (Nat.lt_succ_self chain.length)
  -- The number of rounds does not matter.
  have hsame : found = ⟨pos, dn₁, fs₁⟩ :=
    Loop.Returns.unique ⟨fuel, hfind⟩ ⟨chain.length + 1, hslots⟩
  subst hsame
  cases hposition : pos with
  | none =>
    rw [hposition] at hfound
    rw [← hfound] at hok
    cases hok
  | some start =>
    rw [hposition] at hfound
    obtain ⟨hstart, hinside⟩ := hpos start hposition
    obtain ⟨hlen, hlens⟩ := entrySlots_lengths (by omega : lfnCountOf name ≤ 20) hshort11 attr cluster
      size (fatTimestamp rtc)
    have hflat := length_flatten_slots hlens
    have hin : start + (entrySlots name shortName attr cluster size (fatTimestamp rtc)).flatten.length ≤
        (chain ++ ext).length * g.clusterBytes := by
      rw [length_dirSlots] at hinside
      rw [hflat, hlen, hstart, g.clusterBytes_eq, Nat.mul_left_comm]
      omega
    obtain ⟨i, c, fs₂, v₂, hs₂, hc₂, hwrote, hio⟩ := hchain.write hs₁ hin
    have hdone : addEntryAt fs₁ dn₁ start shortName name attr cluster size fn (fatTimestamp rtc) =
        ⟨true, { fn with
          entryOffset := (start + lfnCountOf name * 32) % 2 ^ 32
          lfnCount := lfnCountOf name
          shortName := shortName }, { dn₁ with hintIndex := i, hintCluster := c }, fs₂⟩ := by
      have hcount : (entrySlots name shortName attr cluster size (fatTimestamp rtc)).flatten.length =
          (lfnCountOf name + 1) * 32 := by
        rw [hflat, hlen, Nat.mul_comm]
      rw [addEntryAt, hio, hcount, if_neg (by simp)]
    dsimp only at hfound
    rw [hdone] at hfound
    subst hfound
    rw [hstart] at hwrote
    have hwritten := hwrote.dirSlots hs₁ hchain hlens (by rw [hlen]; exact hinside)
    rw [hgrown.dirSlots h hchain] at hwritten
    refine ⟨ext, v₂, shortName, s, z, hname, hshort, hroom, hs₂, hc₂, hcluster,
      ⟨hwrote.boot.trans hgrown.boot, hwrote.sectors.trans hgrown.sectors⟩, hwritten, ?_, ?_⟩
    · rw [length_dirSlots] at hinside ⊢
      exact hinside
    · rw [hstart]

/-! ## Mounting again -/

theorem Shows.parse (h : Shows fs g v) :
    fatParseBoot fs.dev = parseBootSector (Buf.read v.boot 0 512) v.sectors := by
  obtain ⟨hok, rfl, rfl⟩ := h
  have hboot := hok.fits.boot
  have hclusters := hok.fits.clusters
  have htable := hok.fits.table
  have hread := blockRead_eq hok.quiet 0 Nat.one_pos (by omega : 0 + 1 ≤ fs.dev.sectors)
  have hbytes : Buf.read fs.dev.data (0 * 512) (1 * 512) = Buf.read fs.view.boot 0 512 := by
    apply List.map_congr_left
    intro k hk
    have hlt := List.mem_range.mp hk
    dsimp only [Fat32.view]
    rw [if_pos (by omega), Nat.zero_mul]
  rw [fatParseBoot, hread, Option.bind_some, hbytes]
  rfl

/-- `fat32_mount` on the device that a flush leaves behind. -/
theorem Shows.remount (h : Shows fs g v) (hboot : fatParseBoot fs.dev = some g) :
    ∃ mounted root, fat32Mount (fatCacheFlush fs).2.dev = some (mounted, root) ∧
      Shows mounted g v := by
  obtain ⟨fs₁, hflush, hs₁, hclean, -⟩ := fatCacheFlush_spec h
  have hparse : fatParseBoot fs₁.dev = some g := by rw [hs₁.parse, ← h.parse, hboot]
  obtain ⟨hok, rfl, rfl⟩ := hs₁
  have hclusters := hok.fits.clusters
  have htable := hok.fits.table
  have hfront := hok.fits.boot
  have hread := blockRead_eq hok.quiet 0 Nat.one_pos (by omega : 0 + 1 ≤ fs₁.dev.sectors)
  have hroom : 2 < fs₁.geo.clusterCount + 2 := by
    have := hok.fits.valid_iff.mp hok.fits.root
    omega
  have hmount : fat32Mount fs₁.dev =
      some ({ fs₁ with nextFree := 2, cacheSector := 0, cacheValid := false, cacheDirty := false,
                       cache := fun _ => 0 }, { cluster := fs₁.geo.rootCluster }) := by
    rw [fat32Mount, hparse, hread]
    rfl
  rw [hflush]
  refine ⟨_, _, hmount, ?_, rfl, ?_⟩
  · exact
      { fits := hok.fits
        quiet := hok.quiet
        free := ⟨Nat.le_refl 2, hroom⟩
        held := fun h => absurd h Bool.false_ne_true
        dirty := fun h => absurd h Bool.false_ne_true
        clean := fun _ h => absurd h Bool.false_ne_true }
  · refine view_congr rfl rfl (fun _ _ => rfl) hok.fits (fun a _ => ?_) (fun _ _ => rfl)
    -- Without a cache the table is the one of the device.
    rw [hok.sane.fatByte_of_clean hclean, Fat32.fatByte, if_neg (fun hv => Bool.false_ne_true hv.1)]

/-- A mount of the flushed device finds a node with this name, and with the offset,
the number of long-name slots and the short name of `node`, in the directory that
had the first cluster `cluster` on the volume. -/
def RemountShows (fs : Fat32) (cluster : Nat) (name : CString) (node : FatNode) : Prop :=
  ∃ mounted root rounds r E, fat32Mount (fatCacheFlush fs).2.dev = some (mounted, root) ∧
    fatLoadDir rounds mounted { cluster := cluster } = some r ∧ E ∈ r.entries ∧ E.name = name ∧
    E.node.entryOffset = node.entryOffset ∧ E.node.lfnCount = node.lfnCount ∧
    E.node.shortName = node.shortName

theorem entryAt_ascii {slots : List Slot} {p : Nat} {E : DirEntry} (h : entryAt slots p = some E)
    (hcount : E.node.lfnCount ≠ 0) : ∀ b ∈ E.name, b < 0x80 := by
  unfold entryAt at h
  split at h
  swap
  · cases h
  split at h
  swap
  · cases h
  rename_i name count hkind
  unfold fatReadSlot at hkind
  grind [slotEntry, slotNode, LfnState.name_ascii]

theorem visitedSlots_nil {N cluster : Nat} (hv : g.valid cluster = false)
    (hvalid : ∀ n, n < N → g.valid (roundCluster v { cluster := cluster } n) = true) : N = 0 := by
  by_contra hne
  have h0 : g.valid cluster = true := hvalid 0 (Nat.pos_of_ne_zero hne)
  rw [hv] at h0
  exact Bool.false_ne_true h0

theorem RoomAt.readSlots {slots : List Slot} {needed s z : Nat} (h : RoomAt slots needed s z)
    (offset : Nat) (l : LfnState) : ∃ l', (readSlots offset l (slots.take s)).2 = some l' := by
  rw [← Option.ne_none_iff_exists']
  intro hnone
  obtain ⟨e, he, hlast⟩ := (readSlots_ends_iff offset l _).mp hnone
  obtain ⟨j, hj, rfl⟩ := List.mem_iff_getElem.mp he
  have hjs : j < s := by
    rw [List.length_take] at hj
    omega
  have hlive := h.live j hjs
  rw [List.length_take] at hj
  rw [List.getD_eq_getElem?_getD, List.getElem?_eq_getElem (by omega), Option.getD_some] at hlive
  rw [List.getElem_take, hlive] at hlast
  exact Bool.false_ne_true hlast

theorem Added.decoded {taken : List (List UInt8)} {name : CString} {attr : UInt8}
    {cluster size : Nat} {stamp : UInt16 × UInt16} {r : AddResult} {ext : List Nat} {v' : View}
    {shortName : List UInt8} {s z : Nat}
    (h : Added g v dn chain taken name attr cluster size fn stamp r ext v' shortName s z)
    (hzero : 0 ∉ name) (hattr : attr = attrDir ∨ attr = attrArchive) :
    decodedEntry name shortName attr cluster size stamp (32 * s) ∈
      (readSlots 0 .empty (dirSlots g v' (chain ++ ext))).1 := by
  obtain ⟨-, hshort⟩ := fatMakeShort_spec h.short
  have hs : s ≤ (dirSlots g v chain).length := le_trans h.room.le h.room.inside
  obtain ⟨l, hl⟩ := h.room.readSlots 0 .empty
  obtain ⟨l', hread, -⟩ := entrySlots_decoded h.named.1 h.named.2 hzero hshort hattr cluster size
    stamp (0 + 32 * ((dirSlots g v chain).take s).length) l
  rw [List.length_take, Nat.min_eq_left hs, Nat.zero_add] at hread
  rw [h.slots, putSlots, List.take_append_of_le_length hs, List.append_assoc, readSlots_append, hl]
  dsimp only
  rw [readSlots_append, List.length_take, Nat.min_eq_left hs, Nat.zero_add, hread]
  simp

/-- A node with a long name that is found has an ASCII name, and its directory has a
cluster. -/
theorem RemountShows.ascii {cluster : Nat} {name : CString} {node : FatNode}
    (h : RemountShows fs cluster name node) (hs : Shows fs g v)
    (hboot : fatParseBoot fs.dev = some g) (hcount : node.lfnCount ≠ 0) :
    (∀ b ∈ name, b < 0x80) ∧ g.valid cluster = true := by
  obtain ⟨mounted, root, hmount, hshows⟩ := hs.remount hboot
  obtain ⟨mounted', root', rounds, load, E, hmount', hload, hE, hname, -, hlfn, -⟩ := h
  obtain ⟨rfl, -⟩ := Prod.mk.inj (Option.some.inj (hmount'.symm.trans hmount))
  obtain ⟨N, hvalid, hentries⟩ := fatLoadDir_reads hshows.sees rfl hload
  rw [hentries] at hE
  constructor
  · obtain ⟨p, hp⟩ := mem_entries.mp hE
    rw [← hname]
    apply entryAt_ascii hp
    rw [hlfn]
    exact hcount
  · by_contra hno
    rw [Bool.not_eq_true] at hno
    obtain rfl := visitedSlots_nil hno hvalid
    simp [visitedSlots, readSlots] at hE

/-- The boot sector and the number of long-name slots behind `fat_add_entry`. -/
theorem Added.parse {taken : List (List UInt8)} {name : CString} {attr : UInt8}
    {cluster size : Nat} {stamp : UInt16 × UInt16} {r : AddResult} {ext : List Nat} {v' : View}
    {shortName : List UInt8} {s z : Nat}
    (h : Added g v dn chain taken name attr cluster size fn stamp r ext v' shortName s z)
    (hs : Shows fs g v) (hboot : fatParseBoot fs.dev = some g) :
    fatParseBoot r.fs.dev = some g ∧ r.fn.lfnCount ≠ 0 := by
  obtain ⟨hcount, -, -⟩ := lfnCountOf_bounds h.named.1 h.named.2
  constructor
  · rw [h.shows.parse, h.outside.1, h.outside.2, ← hs.parse, hboot]
  · rw [h.node]
    exact Nat.pos_iff_ne_zero.mp hcount

/-- **Long names and mounts.**  What `fat_add_entry` wrote is found again after a
mount, under its name, if and only if the name is ASCII and the directory had its
first cluster before. -/
theorem added_iff (h : Shows fs g v) (hboot : fatParseBoot fs.dev = some g)
    (hc : ChainOf g v dn chain) {fuel : Nat} {taken : List (List UInt8)} {name : CString}
    {attr : UInt8} {cluster size : Nat} {rtc : Option RtcTime} {r : AddResult} (hzero : 0 ∉ name)
    (hattr : attr = attrDir ∨ attr = attrArchive)
    (hadd : fatAddEntry fuel fs dn taken name attr cluster size fn rtc = some r)
    (hok : r.ok = true) :
    RemountShows r.fs dn.cluster name r.fn ↔
      (∀ b ∈ name, b < 0x80) ∧ g.valid dn.cluster = true := by
  obtain ⟨ext, v', shortName, s, z, hadded⟩ := hc.addEntry h hadd hok
  obtain ⟨hparse, hcount⟩ := hadded.parse h hboot
  constructor
  · intro hshown
    exact hshown.ascii hadded.shows hparse hcount
  · rintro ⟨hascii, hv⟩
    obtain ⟨mounted, root, hmount, hshows⟩ := hadded.shows.remount hparse
    have hchain : chain ≠ [] := by
      rintro rfl
      have hnil := PtrChain.nil_iff.mp hc.linked
      rw [Geometry.start, if_pos hv] at hnil
      cases hnil
    have hroot : ChainOf g v' { cluster := dn.cluster } (chain ++ ext) :=
      ⟨hadded.kept hchain ▸ hadded.linked.linked, hadded.linked.used, fun hne => absurd rfl hne⟩
    obtain ⟨dn', fs', -, -, -, hload⟩ := hroot.load hshows rfl (Nat.lt_succ_self _)
    obtain ⟨-, hlen, -⟩ := fatMakeShort_spec hadded.short
    refine ⟨mounted, root, _, _, _, hmount, hload, hadded.decoded hzero hattr, ?_, ?_, ?_, ?_⟩
    · exact asciiName_eq_iff.mpr hascii
    · rw [hadded.node, Nat.mul_comm (lfnCountOf name)]
      rfl
    · rw [hadded.node]
      rfl
    · rw [hadded.node]
      exact (shortSlot_bytes hlen attr cluster size _).2.1

/-- A volume with an empty root directory, just mounted. -/
def emptyVolume : Fat32 where
  geo := smallGeometry 1
  nextFree := 2
  cacheSector := 0
  cacheValid := false
  cacheDirty := false
  cache := fun _ => 0
  dev :=
    { sectors := 4096
      data := fun a =>
        if a < 512 then (smallDisk 1).data a
        else if 520 ≤ a ∧ a < 523 then 0xFF else if a = 523 then 0x0F else 0 }

theorem emptyVolume_shows : Shows emptyVolume (smallGeometry 1) emptyVolume.view where
  ok :=
    { fits := smallGeometry_fits
      quiet := rfl
      free := ⟨Nat.le_refl 2, by simp [emptyVolume, smallGeometry]⟩
      held := fun h => absurd h Bool.false_ne_true
      dirty := fun h => absurd h Bool.false_ne_true
      clean := fun _ h => absurd h Bool.false_ne_true }
  geo := rfl
  view := rfl

theorem emptyVolume_parse : fatParseBoot emptyVolume.dev = some (smallGeometry 1) := by
  decide +kernel

theorem emptyVolume_chain : ChainOf (smallGeometry 1) emptyVolume.view { cluster := 2 } [2] := by
  have hentry : emptyVolume.view.entry 2 = fatEoc := by decide +kernel
  refine ⟨⟨?_, ?_⟩, ?_, fun hne => absurd rfl hne⟩
  · rw [Geometry.start, if_pos (by decide)]
  · rw [PtrChain.nil_iff, View.next, hentry, if_neg (by decide)]
  · intro c hc
    rw [List.mem_singleton] at hc
    rw [hc, hentry]
    decide

/-- A new file in its root directory. -/
def addedFile (name : CString) : AddResult :=
  (fatAddEntry 2 emptyVolume { cluster := 2 } [] name attrArchive 0 0 { cluster := 0 } none).getD
    ⟨false, { cluster := 0 }, { cluster := 2 }, emptyVolume⟩

theorem addedFile_eq {name : CString} (h : (addedFile name).ok = true) :
    fatAddEntry 2 emptyVolume { cluster := 2 } [] name attrArchive 0 0 { cluster := 0 } none =
      some (addedFile name) := by
  unfold addedFile at h ⊢
  cases hadd : fatAddEntry 2 emptyVolume { cluster := 2 } [] name attrArchive 0 0 { cluster := 0 } none with
  | none =>
    rw [hadd] at h
    exact absurd h Bool.false_ne_true
  | some r => rw [Option.getD_some]

/-- The file `a` is found again. -/
theorem addedFile_a :
    RemountShows (addedFile [97]).fs 2 [97] (addedFile [97]).fn ↔
      (∀ b ∈ [(97 : UInt8)], b < 0x80) ∧ (smallGeometry 1).valid 2 = true :=
  added_iff emptyVolume_shows emptyVolume_parse emptyVolume_chain (by decide) (.inr rfl)
    (addedFile_eq (by decide +kernel)) (by decide +kernel)

/-- A name of one byte that is not ASCII is not. -/
theorem not_ascii_renamed :
    ¬ ∀ (fs : Fat32) (g : Geometry) (v : View) (dn fn : FatNode) (chain : List Nat) (fuel : Nat)
        (taken : List (List UInt8)) (name : CString) (attr : UInt8) (cluster size : Nat)
        (rtc : Option RtcTime) (r : AddResult), Shows fs g v → fatParseBoot fs.dev = some g →
      ChainOf g v dn chain → chain ≠ [] → 0 ∉ name → attr = attrDir ∨ attr = attrArchive →
      fatAddEntry fuel fs dn taken name attr cluster size fn rtc = some r → r.ok = true →
        RemountShows r.fs dn.cluster name r.fn := by
  intro hall
  have hok : (addedFile [0x80]).ok = true := by decide +kernel
  have hshown := hall emptyVolume _ _ { cluster := 2 } { cluster := 0 } [2] 2 [] [0x80] attrArchive 0 0
    none (addedFile [0x80]) emptyVolume_shows emptyVolume_parse emptyVolume_chain (by decide)
    (by decide) (.inr rfl) (addedFile_eq hok) hok
  obtain ⟨ext, v', shortName, s, z, hadded⟩ := emptyVolume_chain.addEntry emptyVolume_shows
    (addedFile_eq hok) hok
  obtain ⟨hparse, hcount⟩ := hadded.parse emptyVolume_shows emptyVolume_parse
  exact absurd (hshown.ascii hadded.shows hparse hcount).1 (by decide)

end Fat
