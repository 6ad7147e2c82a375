import StrawOS.Disk.Mounts

/-!
# Mounted sectors are exclusive

Two things keep the sectors of a mounted volume to it: that no other volume is
mounted over them, and that raw requests do not write them.  The driver checks
neither where devices overlap other than as a disk and its partition: mounting
checks nothing at all, and `block_busy` does not look at the disk of a partition.

The results here are about runs that stay within what the checks cover: the
partitions of a disk lie apart and inside it, a device is mounted while neither
it, nor its partitions, nor its disk is, and a partition is written raw only
while its disk is not mounted.
-/

namespace Disk

open Vfs (CString MountTable vfsMount vfsNameMax slash)

/-- A device has a sector of a disk. -/
def HasSector (devs : Table) (dev disk s : Nat) : Prop :=
  (devs dev).parent = none ∧ dev = disk ∧ s < (devs dev).sectors.toNat ∨
    (devs dev).parent = some disk ∧ (devs dev).covers s

/-- A live instance covers a sector of a disk. -/
def State.Covers (st : State) (fs disk s : Nat) : Prop :=
  ∃ dev, st.device fs = some dev ∧ HasSector st.devs dev disk s

/-- At most one live instance covers a sector. -/
def State.Exclusive (st : State) : Prop :=
  ∀ disk s fs fs', st.Covers fs disk s → st.Covers fs' disk s → fs = fs'

/-- A request that succeeds writes no sector that a live instance covers. -/
def State.WritesClear (st : State) (r : Request) : Prop :=
  ∀ cmds, ioctlWrites st.devs r = some cmds → ∀ w ∈ cmds, ∀ s, w.2.touches s →
    ∀ fs, ¬ st.Covers fs w.1 s

/-- The partitions of every disk lie inside it and apart. -/
structure Laid (devs : Table) : Prop where
  inside : ∀ disk, IsDisk devs disk → Confined devs disk
  apart : ∀ disk i j, IsPart devs disk i → IsPart devs disk j → i ≠ j → ∀ s,
    ¬((devs i).covers s ∧ (devs j).covers s)

/-- The disk of a device is not mounted. -/
def DiskIdle (devs : Table) (dev : Nat) : Prop :=
  ∀ disk, (devs dev).parent = some disk → (devs disk).mounts = 0

/-- The requests a careful user makes. -/
def Careful (st : State) : Request → Prop
  | .mount node _ _ => ∀ dev, blockFromNode st.devs node = some dev →
      Laid st.devs ∧ blockBusy st.devs dev = false ∧ DiskIdle st.devs dev
  | .diskWrite dev _ _ _ => Laid st.devs ∧ DiskIdle st.devs dev
  | .diskFormat dev _ => Laid st.devs ∧ DiskIdle st.devs dev
  | _ => True

/-- Slots in use are slots, and the disk of a partition is a disk. -/
structure Shape (devs : Table) : Prop where
  bound : ∀ i, (devs i).used = true → i < blockMaxDevices
  disk : ∀ i d, (devs i).used = true → (devs i).parent = some d → IsDisk devs d

/-- Before the first request: devices, and nothing mounted on them. -/
structure Start (st : State) : Prop where
  shape : Shape st.devs
  idle : ∀ i, (st.devs i).mounts = 0
  none : ∀ fs, st.device fs = none

/-- The machine of the requests. -/
def machine : Machine State Request (Nat × Command) where
  start := Start
  step st r := (stepRequest st r, (ioctlWrites st.devs r).getD [])

/-- The invariant: a device is mounted by the one instance its count says or by
none, and instances have no sector in common. -/
structure Inv (st : State) : Prop where
  shape : Shape st.devs
  live : ∀ fs dev, st.device fs = some dev → (st.devs dev).used = true ∧ fs < st.next
  count : ∀ dev, ((st.devs dev).mounts = 0 ∧ ∀ fs, st.device fs ≠ some dev) ∨
    ((st.devs dev).mounts = 1 ∧ ∃ fs, st.device fs = some dev ∧
      ∀ fs', st.device fs' = some dev → fs' = fs)
  apart : ∀ fs fs' dev dev', st.device fs = some dev → st.device fs' = some dev' → dev ≠ dev' →
    ∀ disk s, ¬(HasSector st.devs dev disk s ∧ HasSector st.devs dev' disk s)

variable {st : State} {devs devs' : Table}

theorem Start.inv (h : Start st) : Inv st where
  shape := h.shape
  live fs dev hfs := by simp [h.none] at hfs
  count dev := Or.inl ⟨h.idle dev, fun fs => by simp [h.none]⟩
  apart fs fs' dev dev' hfs := by simp [h.none] at hfs

theorem Inv.not_held (h : Inv st) {dev : Nat} (h0 : (st.devs dev).mounts = 0) (fs : Nat) :
    st.device fs ≠ some dev := by
  rcases h.count dev with hc | hc
  · exact hc.2 fs
  · rw [h0] at hc
    simp at hc

theorem Inv.device_inj (h : Inv st) {dev fs fs' : Nat} (hfs : st.device fs = some dev)
    (hfs' : st.device fs' = some dev) : fs = fs' := by
  rcases h.count dev with hc | ⟨-, g, -, hc⟩
  · exact absurd hfs (hc.2 fs)
  · rw [hc fs hfs, hc fs' hfs']

theorem Inv.exclusive (h : Inv st) : st.Exclusive := by
  intro disk s fs fs' ⟨dev, hdev, hs⟩ ⟨dev', hdev', hs'⟩
  by_cases hne : dev = dev'
  · subst hne
    exact h.device_inj hdev hdev'
  · exact absurd ⟨hs, hs'⟩ (h.apart fs fs' dev dev' hdev hdev' hne disk s)

/-! ## Counts -/

theorem hasSector_addMounts (devs : Table) (d : Nat) (k : Int) (dev disk s : Nat) :
    HasSector (addMounts devs d k) dev disk s ↔ HasSector devs dev disk s := by
  by_cases h : dev = d
  · subst h
    simp [HasSector, addMounts, Device.covers]
  · simp [HasSector, addMounts, h]

theorem Shape.addMounts (h : Shape devs) (d : Nat) (k : Int) : Shape (addMounts devs d k) := by
  have hsame : ∀ i, (Disk.addMounts devs d k i).used = (devs i).used ∧
      (Disk.addMounts devs d k i).parent = (devs i).parent := by
    intro i
    by_cases hi : i = d
    · subst hi
      simp [Disk.addMounts]
    · simp [Disk.addMounts, hi]
  constructor
  · intro i hi
    exact h.bound i (by rw [← (hsame i).1]; exact hi)
  · intro i disk hi hp
    obtain ⟨hu, hr⟩ := h.disk i disk (by rw [← (hsame i).1]; exact hi) (by rw [← (hsame i).2]; exact hp)
    exact ⟨by rw [(hsame disk).1]; exact hu, by rw [(hsame disk).2]; exact hr⟩

/-- What `block_busy` and an idle disk rule out: with partitions that lie apart,
no instance has a sector of the device. -/
theorem Inv.clear_of_idle (h : Inv st) {dev : Nat}
    (hlaid : (st.devs dev).parent ≠ none → Laid st.devs)
    (hused : (st.devs dev).used = true) (hbusy : blockBusy st.devs dev = false)
    (hidle : DiskIdle st.devs dev) {fs dev' : Nat} (hfs : st.device fs = some dev') (disk s : Nat) :
    ¬(HasSector st.devs dev disk s ∧ HasSector st.devs dev' disk s) := by
  simp only [blockBusy, Bool.or_eq_false_iff, List.any_eq_false, mem_slots] at hbusy
  have hself : (st.devs dev).mounts = 0 := by simpa using hbusy.1
  have hchild : ∀ i, (st.devs i).used = true → (st.devs i).parent = some dev →
      (st.devs i).mounts = 0 := by
    intro i hi hp
    have := hbusy.2 i (h.shape.bound i hi)
    simpa [hi, hp] using this
  have hused' := (h.live fs dev' hfs).1
  have hne : dev' ≠ dev := by
    rintro rfl
    exact h.not_held hself fs hfs
  rintro ⟨hs | hs, hs' | hs'⟩
  · -- Two disks.
    exact hne (hs'.2.1.trans hs.2.1.symm)
  · -- The device is the disk of a mounted partition.
    obtain ⟨-, rfl, -⟩ := hs
    exact h.not_held (hchild dev' hused' hs'.1) fs hfs
  · -- The device is a partition of a mounted disk.
    obtain ⟨-, rfl, -⟩ := hs'
    exact h.not_held (hidle dev' hs.1) fs hfs
  · exact (hlaid (by rw [hs.1]; simp)).apart disk dev dev' ⟨h.shape.bound _ hused, hused, hs.1⟩
      ⟨h.shape.bound _ hused', hused', hs'.1⟩ (Ne.symm hne) s ⟨hs.2, hs'.2⟩

theorem Inv.fat32Mount (h : Inv st) (hlaid : Laid st.devs) {dev : Nat}
    (hused : (st.devs dev).used = true) (hbusy : blockBusy st.devs dev = false)
    (hidle : DiskIdle st.devs dev) : Inv (fat32Mount st dev) := by
  have hself : (st.devs dev).mounts = 0 := by
    simp only [blockBusy, Bool.or_eq_false_iff] at hbusy
    simpa using hbusy.1
  have hdevice : ∀ fs dev', (Disk.fat32Mount st dev).device fs = some dev' →
      (fs = st.next ∧ dev' = dev) ∨ (fs ≠ st.next ∧ st.device fs = some dev') := by
    intro fs dev' hfs
    by_cases hn : fs = st.next
    · rw [Disk.fat32Mount, hn] at hfs
      left
      exact ⟨hn, by simpa using hfs.symm⟩
    · simpa [Disk.fat32Mount, hn] using hfs
  have hfresh : ∀ dev', st.device st.next ≠ some dev' :=
    fun dev' hn => absurd (h.live _ _ hn).2 (Nat.lt_irrefl _)
  refine ⟨h.shape.addMounts _ _, ?_, ?_, ?_⟩
  · intro fs dev' hfs
    have husedd : ∀ i, ((Disk.fat32Mount st dev).devs i).used = (st.devs i).used := by
      intro i
      by_cases hi : i = dev
      · subst hi
        simp [Disk.fat32Mount, Disk.addMounts]
      · simp [Disk.fat32Mount, Disk.addMounts, hi]
    rw [husedd]
    rcases hdevice fs dev' hfs with ⟨rfl, rfl⟩ | ⟨-, hold⟩
    · exact ⟨hused, Nat.lt_succ_self _⟩
    · exact ⟨(h.live _ _ hold).1, Nat.lt_succ_of_lt (h.live _ _ hold).2⟩
  · intro d
    by_cases hd : d = dev
    · subst hd
      right
      refine ⟨by simp [Disk.fat32Mount, Disk.addMounts, hself], st.next, by simp [Disk.fat32Mount],
        ?_⟩
      intro fs hfs
      rcases hdevice fs d hfs with ⟨rfl, -⟩ | ⟨-, hold⟩
      · rfl
      · exact absurd hold (h.not_held hself fs)
    · have hm : ((Disk.fat32Mount st dev).devs d).mounts = (st.devs d).mounts := by
        simp [Disk.fat32Mount, Disk.addMounts, hd]
      have hiff : ∀ fs, (Disk.fat32Mount st dev).device fs = some d ↔ st.device fs = some d := by
        intro fs
        constructor
        · grind
        · intro hfs
          have hn : fs ≠ st.next := by
            rintro rfl
            exact hfresh d hfs
          simpa [Disk.fat32Mount, hn] using hfs
      rw [hm]
      simpa only [ne_eq, hiff] using h.count d
  · intro fs fs' d d' hfs hfs' hne disk s
    show ¬(HasSector (addMounts st.devs dev 1) d disk s ∧ HasSector (addMounts st.devs dev 1) d' disk s)
    rw [hasSector_addMounts, hasSector_addMounts]
    rcases hdevice fs d hfs with ⟨-, rfl⟩ | ⟨-, hold⟩
    · rcases hdevice fs' d' hfs' with ⟨-, rfl⟩ | ⟨-, hold'⟩
      · exact absurd rfl hne
      · exact h.clear_of_idle (fun _ => hlaid) hused hbusy hidle hold' disk s
    · rcases hdevice fs' d' hfs' with ⟨-, rfl⟩ | ⟨-, hold'⟩
      · intro hboth
        exact h.clear_of_idle (fun _ => hlaid) hused hbusy hidle hold disk s ⟨hboth.2, hboth.1⟩
      · exact h.apart fs fs' d d' hold hold' hne disk s

theorem Inv.fat32Unmount (h : Inv st) (fs : Nat) : Inv (fat32Unmount st fs) := by
  rw [Disk.fat32Unmount]
  cases hdev : st.device fs with
  | none => exact h
  | some dev =>
    have hdevice : ∀ g d, Function.update st.device fs none g = some d ↔
        g ≠ fs ∧ st.device g = some d := by
      intro g d
      by_cases hg : g = fs
      · simp [hg]
      · simp [hg]
    refine ⟨h.shape.addMounts _ _, ?_, ?_, ?_⟩
    · intro g d hg
      have hold := h.live g d ((hdevice g d).mp hg).2
      refine ⟨?_, hold.2⟩
      by_cases hd : d = dev
      · subst hd
        simpa [Disk.addMounts] using hold.1
      · simpa [Disk.addMounts, hd] using hold.1
    · intro d
      by_cases hd : d = dev
      · subst hd
        left
        rcases h.count d with hc | ⟨hm, g, hg, hone⟩
        · exact absurd hdev (hc.2 fs)
        · refine ⟨by simp [Disk.addMounts, hm], ?_⟩
          intro g' hg'
          obtain ⟨hne, hg'⟩ := (hdevice g' d).mp hg'
          exact hne ((hone g' hg').trans (hone fs hdev).symm)
      · have hm : (addMounts st.devs dev (-1) d).mounts = (st.devs d).mounts := by
          simp [Disk.addMounts, hd]
        have hiff : ∀ g, Function.update st.device fs none g = some d ↔ st.device g = some d := by
          grind
        simp only [hm, ne_eq, hiff]
        exact h.count d
    · intro g g' d d' hg hg' hne disk s
      rw [hasSector_addMounts, hasSector_addMounts]
      exact h.apart g g' d d' ((hdevice g d).mp hg).2 ((hdevice g' d').mp hg').2 hne disk s

theorem Inv.setMounts (h : Inv st) (t : Vfs.MountTable Root) : Inv { st with mounts := t } :=
  ⟨h.shape, h.live, h.count, h.apart⟩

/-! ## Scanning again -/

/-- What adding partitions to a disk leaves: the counts, the devices that are not
partitions of it, and the shape of the table. -/
structure Rescanned (disk : Nat) (devs devs' : Table) : Prop where
  mounts : ∀ i, (devs' i).mounts = (devs i).mounts
  used : ∀ i, (devs i).used = true → (devs' i).used = true
  other : ∀ i, (devs i).used = true → (devs i).parent ≠ some disk → devs' i = devs i
  shape : Shape devs'

theorem Rescanned.refl (disk : Nat) (h : Shape devs) : Rescanned disk devs devs :=
  ⟨fun _ => rfl, fun _ h => h, fun _ _ _ => rfl, h⟩

theorem Rescanned.trans {devs'' : Table} {disk : Nat}
    (h : Rescanned disk devs devs') (h' : Rescanned disk devs' devs'') :
    Rescanned disk devs devs'' where
  mounts i := (h'.mounts i).trans (h.mounts i)
  used i hi := h'.used i (h.used i hi)
  other i hi hp := by
    have h1 := h.other i hi hp
    rw [h'.other i (h.used i hi) (by rw [h1]; exact hp), h1]
  shape := h'.shape

theorem rescanned_empty (disk : Nat) (h : Shape devs) :
    Rescanned disk devs (emptyPartitions devs disk) where
  mounts i := by rw [emptyPartitions_eq]
  used i hi := by
    rw [emptyPartitions_eq]
    exact hi
  other i hi hp := by
    rw [emptyPartitions, if_neg]
    rintro ⟨-, -, hpar⟩
    exact hp hpar
  shape := by
    constructor
    · intro i hi
      rw [emptyPartitions_eq] at hi
      exact h.bound i hi
    · intro i d hi hp
      rw [emptyPartitions_eq] at hi hp
      obtain ⟨hu, hr⟩ := h.disk i d hi hp
      exact ⟨by rw [emptyPartitions_eq]; exact hu, by rw [emptyPartitions_eq]; exact hr⟩

theorem rescanned_add {disk : Nat} (h : Shape devs) (hdisk : IsDisk devs disk)
    (hunused : ∀ i, (devs i).used = false → (devs i).mounts = 0) (index : Nat)
    (e : UInt64 × UInt64) : Rescanned disk devs (blockAddPartition devs disk index e.1 e.2) := by
  obtain ⟨-, hadd⟩ | ⟨-, -, -, hadd⟩ |
    ⟨-, p, d, hp, hpd, hu, hpar, -, -, -, hm, hadd, hold⟩ := blockAddPartition_cases hdisk index e
  · rw [hadd]
    exact .refl disk h
  · rw [hadd]
    exact .refl disk h
  rw [hadd]
  have hroot : ∀ i, IsDisk devs i → IsDisk (Function.update devs p d) i := by
    intro i hi
    have hip : i ≠ p := by
      rintro rfl
      rcases hold with hold | hold
      · simp only [isPartition, Bool.and_eq_true, beq_iff_eq] at hold
        rw [hi.root] at hold
        simp at hold
      · rw [hi.used] at hold
        simp at hold
    exact ⟨by rw [Function.update_of_ne hip]; exact hi.used,
      by rw [Function.update_of_ne hip]; exact hi.root⟩
  constructor
  · grind
  · grind
  · intro i hi hp'
    apply Function.update_of_ne
    rintro rfl
    rcases hold with hold | hold
    · simp only [isPartition, Bool.and_eq_true, beq_iff_eq] at hold
      exact hp' hold.1.2
    · rw [hi] at hold
      simp at hold
  · constructor
    · intro i hi
      by_cases hip : i = p
      · rw [hip]
        exact hp
      · rw [Function.update_of_ne hip] at hi
        exact h.bound i hi
    · intro i dd hi hpp
      by_cases hip : i = p
      · grind
      · rw [Function.update_of_ne hip] at hi hpp
        exact hroot _ (h.disk i dd hi hpp)

theorem rescanned_addAll {disk : Nat} (es : List (UInt64 × UInt64)) (h : Shape devs)
    (hdisk : IsDisk devs disk) (hunused : ∀ i, (devs i).used = false → (devs i).mounts = 0)
    (found : Nat) : Rescanned disk devs (addAll disk found es devs) := by
  induction es generalizing devs found with
  | nil => exact .refl disk h
  | cons e rest ih =>
    have h1 := rescanned_add h hdisk hunused (found + 1) e
    have hroot := h1.other disk hdisk.used (by rw [hdisk.root]; simp)
    refine h1.trans (ih h1.shape ⟨by rw [hroot]; exact hdisk.used,
      by rw [hroot]; exact hdisk.root⟩ ?_ (found + 1))
    intro i hi
    rw [h1.mounts]
    apply hunused
    cases hu : (devs i).used with
    | false => rfl
    | true =>
      rw [h1.used i hu] at hi
      simp at hi

/-- `block_scan_partitions` on a disk none of whose devices is mounted. -/
theorem Inv.rescan (h : Inv st) {disk : Nat} (hdisk : IsDisk st.devs disk)
    (hbusy : blockBusy st.devs disk = false) (m : Fat.BlockDevice) :
    Inv { st with devs := (blockScanPartitions st.devs disk m).getD st.devs } := by
  rw [blockScanPartitions_eq]
  cases partitionEntries (medium st.devs disk m) with
  | none => exact h
  | some es =>
    have hunused : ∀ i, (st.devs i).used = false → (st.devs i).mounts = 0 := by
      intro i hi
      rcases h.count i with hc | ⟨-, fs, hfs, -⟩
      · exact hc.1
      · rw [(h.live fs i hfs).1] at hi
        simp at hi
    have h0 := rescanned_empty disk h.shape
    have hroot := isDisk_emptyPartitions hdisk
    have hscan : Rescanned disk st.devs (addAll disk 0 es (emptyPartitions st.devs disk)) := by
      refine h0.trans (rescanned_addAll es h0.shape ⟨by rw [hroot]; exact hdisk.used,
        by rw [hroot]; exact hdisk.root⟩ ?_ 0)
      intro i hi
      rw [h0.mounts]
      apply hunused
      rwa [emptyPartitions_eq] at hi
    -- A mounted device is no partition of this disk, so the scan leaves it.
    have hheld : ∀ fs dev, st.device fs = some dev →
        addAll disk 0 es (emptyPartitions st.devs disk) dev = st.devs dev := by
      intro fs dev hfs
      have hu := (h.live fs dev hfs).1
      apply hscan.other dev hu
      intro hp
      simp only [blockBusy, Bool.or_eq_false_iff, List.any_eq_false, mem_slots] at hbusy
      have hzero := hbusy.2 dev (h.shape.bound dev hu)
      have : (st.devs dev).mounts = 0 := by simpa [hu, hp] using hzero
      exact h.not_held this fs hfs
    refine ⟨hscan.shape, ?_, ?_, ?_⟩
    · intro fs dev hfs
      exact ⟨hscan.used dev (h.live fs dev hfs).1, (h.live fs dev hfs).2⟩
    · intro dev
      have hcount := h.count dev
      rw [← hscan.mounts dev] at hcount
      exact hcount
    · intro fs fs' dev dev' hfs hfs' hne d s
      have hsame : ∀ f e, st.device f = some e →
          (HasSector (addAll disk 0 es (emptyPartitions st.devs disk)) e d s ↔
            HasSector st.devs e d s) := by
        intro f e hf
        rw [HasSector, HasSector, hheld f e hf]
      show ¬(HasSector (addAll disk 0 es _) dev d s ∧ HasSector (addAll disk 0 es _) dev' d s)
      rw [hsame fs dev hfs, hsame fs' dev' hfs']
      exact h.apart fs fs' dev dev' hfs hfs' hne d s

/-! ## Writing -/

theorem blockRootIo_hasSector {dev : Nat} (hshape : Shape devs)
    (hlaid : (devs dev).parent ≠ none → Laid devs) (hused : (devs dev).used = true)
    {lba : UInt64} {count : UInt32} {target : Nat} {cmds : List Command}
    (hio : blockRootIo devs dev lba count = some (target, cmds)) {c : Command} (hc : c ∈ cmds)
    {s : Nat} (hs : c.touches s) : HasSector devs dev target s := by
  cases hp : (devs dev).parent with
  | none =>
    left
    rw [blockRootIo] at hio
    split at hio
    · simp at hio
    rename_i hok
    have hend := (refuses_eq_false_iff.mp (Bool.eq_false_iff.mpr hok)).2
    have htarget : toDisk devs blockMaxDevices dev lba = (dev, lba) := by
      simp [blockMaxDevices, toDisk, hp]
    simp only [htarget, Option.some.injEq, Prod.mk.injEq] at hio
    obtain ⟨rfl, rfl⟩ := hio
    have hsize := (devs dev).sectors.toNat_lt
    obtain ⟨-, h2⟩ := commands_touch (by omega) hc hs
    exact ⟨hp, rfl, by omega⟩
  | some disk =>
    right
    have hdisk := hshape.disk dev disk hused hp
    have hin := (hlaid (by rw [hp]; simp)).inside disk hdisk
    obtain ⟨rfl, hall⟩ := transfer_inside hdisk hin dev
      ⟨hshape.bound dev hused, hused, hp⟩ lba count target cmds hio
    exact ⟨hp, (hall c hc s hs).1⟩

theorem writeCommands_hasSector {dev : Nat} (hshape : Shape devs)
    (hlaid : (devs dev).parent ≠ none → Laid devs) (hused : (devs dev).used = true)
    (ws : List (UInt64 × UInt32)) {cmds : List (Nat × Command)}
    (h : writeCommands devs dev ws = some cmds) {w : Nat × Command} (hw : w ∈ cmds) {s : Nat}
    (hs : w.2.touches s) : HasSector devs dev w.1 s := by
  induction ws generalizing cmds with
  | nil =>
    obtain rfl : cmds = [] := by simpa [writeCommands] using h.symm
    simp at hw
  | cons a rest ih =>
    simp only [writeCommands, Option.bind_eq_bind, Option.bind_eq_some_iff, Option.pure_def,
      Option.some.injEq] at h
    obtain ⟨io, hio, cmds', hrest, rfl⟩ := h
    rcases List.mem_append.mp hw with hw | hw
    · obtain ⟨c, hc, rfl⟩ := List.mem_map.mp hw
      exact blockRootIo_hasSector hshape hlaid hused hio hc hs
    · exact ih hrest hw

theorem Inv.writes_clear (h : Inv st) {dev : Nat}
    (hlaid : (st.devs dev).parent ≠ none → Laid st.devs) (hused : (st.devs dev).used = true)
    (hbusy : blockBusy st.devs dev = false) (hidle : DiskIdle st.devs dev)
    {ws : List (UInt64 × UInt32)} {cmds : List (Nat × Command)}
    (hcmds : writeCommands st.devs dev ws = some cmds) {w : Nat × Command} (hw : w ∈ cmds) {s : Nat}
    (hs : w.2.touches s) (fs : Nat) : ¬ st.Covers fs w.1 s := by
  rintro ⟨dev', hfs, hs'⟩
  have hsector := writeCommands_hasSector h.shape hlaid hused ws hcmds hw hs
  exact h.clear_of_idle hlaid hused hbusy hidle hfs w.1 s ⟨hsector, hs'⟩

theorem Inv.writesClear (h : Inv st) {r : Request} (hr : Careful st r) : st.WritesClear r := by
  intro cmds hcmds w hw s hs fs
  cases r with
  | mount | unmount | diskRead => simp [ioctlWrites] at hcmds
  | diskWrite dev lba count io =>
    simp only [ioctlWrites] at hcmds
    split at hcmds
    · simp at hcmds
    rename_i hgo
    simp only [Bool.or_eq_true, Bool.not_eq_true', not_or, Bool.not_eq_false,
      Bool.not_eq_true] at hgo
    exact h.writes_clear (fun _ => hr.1) hgo.1.1 hgo.1.2 hr.2 hcmds hw hs fs
  | diskFormat dev io =>
    simp only [ioctlWrites] at hcmds
    split at hcmds
    · simp at hcmds
    rename_i hgo
    simp only [Bool.or_eq_true, Bool.not_eq_true', not_or, Bool.not_eq_false,
      Bool.not_eq_true] at hgo
    obtain ⟨ws, -, hcmds⟩ := Option.bind_eq_some_iff.mp hcmds
    exact h.writes_clear (fun _ => hr.1) hgo.1.1.1 hgo.1.2 hr.2 hcmds hw hs fs
  | diskPartition dev io disk =>
    simp only [ioctlWrites] at hcmds
    split at hcmds
    · simp at hcmds
    rename_i hgo
    simp only [Bool.or_eq_true, Bool.not_eq_true', not_or, Bool.not_eq_false,
      Bool.not_eq_true, Option.isSome_eq_false_iff, Option.isNone_iff_eq_none] at hgo
    have hroot := hgo.1.1.2
    have hlaid : (st.devs dev).parent ≠ none → Laid st.devs := fun hp => absurd hroot hp
    have hidle : DiskIdle st.devs dev := by
      intro d hp
      rw [hroot] at hp
      simp at hp
    obtain ⟨ws, -, hcmds⟩ := Option.bind_eq_some_iff.mp hcmds
    obtain ⟨cmds', hcmds', rfl⟩ := Option.map_eq_some_iff.mp hcmds
    rcases List.mem_append.mp hw with hw | hw
    · exact h.writes_clear hlaid hgo.1.1.1 hgo.1.2 hidle hcmds' hw hs fs
    · cases hlast : writeCommands st.devs dev [(gptAlign, 1)] with
      | none =>
        rw [hlast] at hw
        simp at hw
      | some last =>
        rw [hlast] at hw
        exact h.writes_clear hlaid hgo.1.1.1 hgo.1.2 hidle hlast hw hs fs

theorem Inv.step (h : Inv st) {r : Request} (hr : Careful st r) : Inv (stepRequest st r) := by
  cases r with
  | diskRead | diskWrite | diskFormat => exact h
  | mount node path disk =>
    simp only [stepRequest, fsSysMount]
    split
    · exact h
    cases hdev : blockFromNode st.devs node with
    | none => exact h
    | some dev =>
      obtain ⟨hlaid, hbusy, hidle⟩ := hr dev hdev
      have hused : (st.devs dev).used = true := by
        simp only [blockFromNode, Option.filter_eq_some_iff, Bool.and_eq_true] at hdev
        exact hdev.2.1.2
      cases Fat.fatParseBoot disk with
      | none => exact h
      | some g =>
        have hm := h.fat32Mount hlaid hused hbusy hidle
        simp only
        cases vfsMount (Disk.fat32Mount st dev).mounts path (.fat st.next) with
        | some t => exact hm.setMounts t
        | none => exact hm.fat32Unmount st.next
  | unmount path held =>
    simp only [stepRequest, fsSysUnmount]
    cases (Vfs.vfsUnmount st.mounts path).1 with
    | none => exact h
    | some root =>
      simp only
      split
      · exact h.setMounts _
      · cases root with
        | fat fs => exact (h.setMounts _).fat32Unmount fs
        | other n => exact h.setMounts _
  | diskPartition dev io disk =>
    simp only [stepRequest]
    split
    · rename_i hsome
      simp only [ioctlWrites] at hsome
      split at hsome
      · simp at hsome
      rename_i hgo
      simp only [Bool.or_eq_true, Bool.not_eq_true', not_or, Bool.not_eq_false,
        Bool.not_eq_true, Option.isSome_eq_false_iff, Option.isNone_iff_eq_none] at hgo
      exact h.rescan ⟨hgo.1.1.1, hgo.1.1.2⟩ hgo.1.2 disk
    · exact h

/-- **Mounted sectors are exclusive** in every run of careful requests: at most
one instance covers a sector, and no request that succeeds writes one that an
instance covers. -/
theorem mounted_sectors_exclusive (h : machine.Reachable Careful st) :
    st.Exclusive ∧ ∀ r, Careful st r → st.WritesClear r := by
  have hinv : Inv st := by
    refine h.invariant (P := Inv) (fun s hs => Start.inv hs) ?_
    intro s r hs hr
    exact hs.step hr
  exact ⟨hinv.exclusive, fun r hr => hinv.writesClear hr⟩

/-! ## One disk with a volume -/

/-- A disk of 4096 sectors with a boot sector: one table of one sector behind it,
then clusters of one sector. -/
def volumeDisk : Fat.BlockDevice where
  sectors := 4096
  data a :=
    if a = 12 then 2 else if a = 13 then 1 else if a = 14 then 1 else if a = 16 then 1
    else if a = 20 then 16 else if a = 36 then 1 else if a = 44 then 2
    else if a = 510 then 0x55 else if a = 511 then 0xAA else 0

theorem volumeDisk_boot : (Fat.fatParseBoot volumeDisk).isSome = true := by
  decide +kernel

/-- The disk, not mounted. -/
def idleDisk : State where
  devs := oneDisk
  mounts := MountTable.empty
  device _ := none
  next := 0

theorem shape_oneDisk : Shape oneDisk := by
  have hused : ∀ i, (oneDisk i).used = true → i = 0 := by
    intro i hi
    by_contra h0
    simp [oneDisk, h0] at hi
  constructor
  · intro i hi
    rw [hused i hi]
    decide
  · intro i d hi hp
    rw [hused i hi] at hp
    simp [oneDisk] at hp

theorem start_idleDisk : Start idleDisk where
  shape := shape_oneDisk
  idle i := by
    simp only [idleDisk, oneDisk]
    split <;> rfl
  none _ := rfl

theorem laid_oneDisk : Laid oneDisk := by
  have hno : ∀ disk i, ¬ IsPart oneDisk disk i := by
    rintro disk i ⟨-, -, hp⟩
    simp only [oneDisk] at hp
    split at hp <;> simp at hp
  exact ⟨fun disk _ i hi => absurd hi (hno disk i), fun disk i _ hi => absurd hi (hno disk i)⟩

theorem fsSysMount_eq (st : State) (path : CString) (dev : Nat) (hpath : path.head? = some slash)
    (hlen : path.length < vfsNameMax) (hdev : blockFromNode st.devs (some dev) = some dev)
    {t : MountTable Root} (ht : vfsMount st.mounts path (.fat st.next) = some t) :
    fsSysMount st (some dev) path volumeDisk = { fat32Mount st dev with mounts := t } := by
  obtain ⟨g, hg⟩ := Option.isSome_iff_exists.mp volumeDisk_boot
  rw [fsSysMount, if_neg (by simp [hpath]; omega), hdev, hg]
  simp only
  rw [show (fat32Mount st dev).mounts = st.mounts from rfl, ht]

/-- The mount points. -/
def pathA : CString := Vfs.ofAscii "/a"

def pathB : CString := Vfs.ofAscii "/b"

/-- The table with the volume mounted once, and twice. -/
def tableA : MountTable Root := (vfsMount MountTable.empty pathA (.fat 0)).getD MountTable.empty

def tableB : MountTable Root := (vfsMount tableA pathB (.fat 1)).getD MountTable.empty

theorem vfsMount_pathA : vfsMount MountTable.empty pathA (Root.fat 0) = some tableA := by
  rfl

theorem vfsMount_pathB : vfsMount tableA pathB (Root.fat 1) = some tableB := by
  rfl

/-- The disk mounted once. -/
def mountedOnce : State := { fat32Mount idleDisk 0 with mounts := tableA }

theorem step_mountA : stepRequest idleDisk (.mount (some 0) pathA volumeDisk) = mountedOnce :=
  fsSysMount_eq idleDisk pathA 0 (by decide +kernel) (by decide +kernel) (by decide +kernel)
    vfsMount_pathA

/-- The careful mount of the disk. -/
theorem mountedOnce_exclusive :
    mountedOnce.device 0 = some 0 ∧ mountedOnce.Exclusive ∧
      ∀ r, Careful mountedOnce r → mountedOnce.WritesClear r := by
  have hcare : Careful idleDisk (.mount (some 0) pathA volumeDisk) := by
    intro dev hdev
    obtain rfl := Option.some.inj hdev
    refine ⟨laid_oneDisk, by decide +kernel, ?_⟩
    intro disk hp
    simp [idleDisk, oneDisk] at hp
  have hreach : machine.Reachable Careful mountedOnce := by
    rw [← step_mountA]
    exact .step _ (.start start_idleDisk) hcare
  exact ⟨rfl, mounted_sectors_exclusive hreach⟩

/-- Mounting checks nothing: the same disk can be mounted twice. -/
theorem disk_mounted_twice :
    ¬ ∀ st, machine.Reachable (fun _ _ => True) st →
      st.Exclusive ∧ ∀ r, st.WritesClear r := by
  intro h
  have hstep : stepRequest mountedOnce (.mount (some 0) pathB volumeDisk) =
      { fat32Mount mountedOnce 0 with mounts := tableB } :=
    fsSysMount_eq mountedOnce pathB 0 (by decide +kernel) (by decide +kernel) (by decide +kernel)
      vfsMount_pathB
  have hany : ∀ {st : State} (r : Request), machine.Reachable (fun _ _ => True) st →
      machine.Reachable (fun _ _ => True) (stepRequest st r) :=
    fun r hst => Machine.Reachable.step r hst trivial
  have honce := hany (.mount (some 0) pathA volumeDisk) (.start start_idleDisk)
  rw [step_mountA] at honce
  have hreach := hany (.mount (some 0) pathB volumeDisk) honce
  rw [hstep] at hreach
  have hcover : ∀ fs, fs = 0 ∨ fs = 1 →
      State.Covers { fat32Mount mountedOnce 0 with mounts := tableB } fs 0 0 := by
    intro fs hfs
    refine ⟨0, ?_, Or.inl ⟨rfl, rfl, by decide +kernel⟩⟩
    rcases hfs with rfl | rfl <;> rfl
  have := (h _ hreach).1 0 0 0 1 (hcover 0 (Or.inl rfl)) (hcover 1 (Or.inr rfl))
  simp at this

end Disk
