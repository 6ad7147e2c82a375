import StrawOS.Disk.Scan

/-!
# Partitions stay inside their disk

A transfer on a partition is checked against the partition's own size, so it
stays inside the disk if the partition does (`transfer_inside`).  The scan cuts
an extent at the end of the disk, but it looks for the end with a 64-bit sum:
an extent whose sum wraps keeps its length.
-/

namespace Disk

variable {devs devs' : Table} {disk : Nat}

/-- A slot that is in use by a disk. -/
structure IsDisk (devs : Table) (disk : Nat) : Prop where
  used : (devs disk).used = true
  root : (devs disk).parent = none

/-- A slot that is in use by a partition of a disk. -/
def IsPart (devs : Table) (disk i : Nat) : Prop :=
  i < blockMaxDevices ∧ (devs i).used = true ∧ (devs i).parent = some disk

/-- The partitions of a disk that have sectors end inside it. -/
def Confined (devs : Table) (disk : Nat) : Prop :=
  ∀ i, IsPart devs disk i → (devs i).sectors ≠ 0 →
    (devs i).offset.toNat + (devs i).sectors.toNat ≤ (devs disk).sectors.toNat

/-- Every command of a transfer on a partition goes to the disk and touches only
sectors of the partition and of the disk. -/
def TransfersInside (devs : Table) (disk : Nat) : Prop :=
  ∀ i, IsPart devs disk i → ∀ lba count target cmds,
    blockRootIo devs i lba count = some (target, cmds) →
    target = disk ∧ ∀ c ∈ cmds, ∀ s, c.touches s →
      (devs i).covers s ∧ s < (devs disk).sectors.toNat

theorem transfer_inside (hdisk : IsDisk devs disk) (h : Confined devs disk) :
    TransfersInside devs disk := by
  intro i hi lba count target cmds hio
  rw [blockRootIo] at hio
  split at hio
  · simp at hio
  rename_i hok
  obtain ⟨hpos, hend⟩ := refuses_eq_false_iff.mp (Bool.eq_false_iff.mpr hok)
  have hne : (devs i).sectors ≠ 0 := by
    intro h0
    rw [h0] at hend
    simp at hend
    omega
  have hin := h i hi hne
  have hsize := (devs disk).sectors.toNat_lt
  have htarget : toDisk devs blockMaxDevices i lba = (disk, lba + (devs i).offset) := by
    simp [blockMaxDevices, toDisk, hi.2.2, hdisk.root]
  have hsum : (lba + (devs i).offset).toNat = lba.toNat + (devs i).offset.toNat := by
    rw [UInt64.toNat_add, Nat.mod_eq_of_lt (by omega)]
  simp only [htarget, Option.some.injEq, Prod.mk.injEq] at hio
  obtain ⟨rfl, rfl⟩ := hio
  refine ⟨rfl, ?_⟩
  intro c hc s hs
  obtain ⟨h1, h2⟩ := commands_touch (by omega) hc hs
  exact ⟨⟨by omega, by omega⟩, by omega⟩

/-! ## Adding a partition -/

/-- The slots that are not in use. -/
def freeSlots (devs : Table) : Nat := slots.countP fun i => !(devs i).used

/-- A partition with this number has a device. -/
def hasDevice (devs : Table) (disk index : Nat) : Bool := slots.any (isPartition devs disk index)

/-- An extent that starts inside the disk and is not empty. -/
def startsInside (size : UInt64) (e : UInt64 × UInt64) : Bool := decide (e.1 < size ∧ e.2 ≠ 0)

/-- The length a partition gets. -/
def clamp (size : UInt64) (e : UInt64 × UInt64) : UInt64 :=
  if e.1 + e.2 > size then size - e.1 else e.2

theorem freeSlots_update {i : Nat} (hi : i < blockMaxDevices) {d : Device} (hd : d.used = true) :
    freeSlots (Function.update devs i d) + (if (devs i).used then 0 else 1) = freeSlots devs := by
  have hsplit : ∀ l : List Nat, l.Nodup →
      (l.countP fun j => !(Function.update devs i d j).used) +
        (if i ∈ l ∧ (devs i).used = false then 1 else 0) =
      l.countP fun j => !(devs j).used := by
    intro l hl
    induction l with
    | nil => simp
    | cons j l ih => grind
  have := hsplit slots List.nodup_range
  rw [freeSlots, freeSlots]
  cases hu : (devs i).used <;> simp [hu, mem_slots, hi] at this ⊢ <;> omega

/-- What `block_add_partition` can do: nothing, for an extent that does not start
inside the disk or for want of a slot; or fill in the slot of the partition, which
it had before or which was free. -/
theorem blockAddPartition_cases (hdisk : IsDisk devs disk) (index : Nat) (e : UInt64 × UInt64) :
    (startsInside (devs disk).sectors e = false ∧
      blockAddPartition devs disk index e.1 e.2 = devs) ∨
    (startsInside (devs disk).sectors e = true ∧ hasDevice devs disk index = false ∧
      freeSlots devs = 0 ∧ blockAddPartition devs disk index e.1 e.2 = devs) ∨
    (startsInside (devs disk).sectors e = true ∧ ∃ p d, p < blockMaxDevices ∧ p ≠ disk ∧
      d.used = true ∧ d.parent = some disk ∧ d.index = index ∧ d.offset = e.1 ∧
      d.sectors = clamp (devs disk).sectors e ∧
      d.mounts = (if (devs p).used then (devs p).mounts else 0) ∧
      blockAddPartition devs disk index e.1 e.2 = Function.update devs p d ∧
      (isPartition devs disk index p = true ∨
        hasDevice devs disk index = false ∧ (devs p).used = false)) := by
  by_cases hin : startsInside (devs disk).sectors e = true
  swap
  · left
    refine ⟨by simpa using hin, ?_⟩
    rw [blockAddPartition, if_pos]
    simp only [startsInside, decide_eq_true_eq, not_and, not_not] at hin
    by_cases h1 : e.1 < (devs disk).sectors
    · exact Or.inr (hin h1)
    · exact Or.inl (UInt64.not_lt.mp h1)
  right
  have hgo : ¬(e.1 ≥ (devs disk).sectors ∨ e.2 = 0) := by
    simp only [startsInside, decide_eq_true_eq] at hin
    rintro (h | h)
    · exact absurd hin.1 (UInt64.not_lt.mpr h)
    · exact hin.2 h
  rw [blockAddPartition, if_neg hgo, blockPartitionSlot]
  cases hfind : slots.find? (isPartition devs disk index) with
  | some p =>
    right
    have hp := List.find?_some hfind
    have hpart : (devs p).used = true ∧ (devs p).parent = some disk ∧ (devs p).index = index := by
      simpa [isPartition, and_assoc] using hp
    refine ⟨hin, p, { devs p with offset := e.1, sectors := clamp (devs disk).sectors e },
      mem_slots.mp (List.mem_of_find?_eq_some hfind), ?_, hpart.1, hpart.2.1, hpart.2.2, rfl, rfl,
      by simp [hpart.1], rfl, Or.inl hp⟩
    intro hpd
    rw [hpd, hdisk.root] at hpart
    simp at hpart
  | none =>
    have hno : hasDevice devs disk index = false := by
      simpa [hasDevice] using hfind
    simp only [blockAlloc]
    cases hfree : slots.find? fun i => !(devs i).used with
    | none =>
      left
      refine ⟨hin, hno, ?_, rfl⟩
      rw [freeSlots, List.countP_eq_zero]
      exact List.find?_eq_none.mp hfree
    | some p =>
      right
      have hp : (devs p).used = false := by simpa using List.find?_some hfree
      refine ⟨hin, p, ⟨true, clamp (devs disk).sectors e, e.1, some disk, index, 0⟩,
        mem_slots.mp (List.mem_of_find?_eq_some hfree), ?_, rfl, rfl, rfl, rfl, rfl,
        by simp [hp], ?_, Or.inr ⟨hno, hp⟩⟩
      · intro hpd
        rw [hpd, hdisk.used] at hp
        simp at hp
      · simp [clamp]

/-- The extents that get a device, of those numbered after `found`: they start
inside the disk, and the partition with the number has a device already or there
is a slot left. -/
def placed (size : UInt64) (known : Nat → Bool) : (free found : Nat) → List (UInt64 × UInt64) →
    List (UInt64 × UInt64)
  | _, _, [] => []
  | free, found, e :: rest =>
      if !startsInside size e then placed size known free (found + 1) rest
      else if known (found + 1) then e :: placed size known free (found + 1) rest
      else if free = 0 then placed size known free (found + 1) rest
      else e :: placed size known (free - 1) (found + 1) rest

theorem placed_congr {size : UInt64} {known known' : Nat → Bool} (es : List (UInt64 × UInt64))
    {free found : Nat} (h : ∀ n, found < n → known n = known' n) :
    placed size known free found es = placed size known' free found es := by
  induction es generalizing free found with
  | nil => rfl
  | cons e rest ih =>
    have h' : ∀ n, found + 1 < n → known n = known' n := fun n hn => h n (by omega)
    rw [placed, placed, h (found + 1) (by omega), ih h', ih h']

/-- Whether a number has a device does not change behind the one that is added. -/
theorem hasDevice_update {p index : Nat} {d : Device}
    (hp : isPartition devs disk index p = true ∨
      hasDevice devs disk index = false ∧ (devs p).used = false)
    (hi : d.index = index) {other : Nat} (ho : other ≠ index) :
    hasDevice (Function.update devs p d) disk other = hasDevice devs disk other := by
  simp only [hasDevice]
  congr 1
  funext i
  by_cases hip : i = p
  · subst hip
    rw [isPartition, isPartition, Function.update_self, hi]
    have hno : (index == other) = false := by simpa using Ne.symm ho
    rw [hno, Bool.and_false]
    rcases hp with hp | hp
    · have hidx : (devs i).index = index := by
        simp only [isPartition, Bool.and_eq_true, beq_iff_eq] at hp
        exact hp.2
      rw [hidx, hno, Bool.and_false]
    · simp [hp.2]
  · simp only [isPartition, Function.update_of_ne hip]

/-- The length a partition gets ends inside the disk unless the sum wraps. -/
theorem clamp_fits_iff {size : UInt64} {e : UInt64 × UInt64} (h : startsInside size e = true) :
    (clamp size e ≠ 0 → e.1.toNat + (clamp size e).toNat ≤ size.toNat) ↔
      e.1.toNat + e.2.toNat < 2 ^ 64 := by
  simp only [startsInside, decide_eq_true_eq, UInt64.lt_iff_toNat_lt] at h
  have h2 := e.2.toNat_lt
  have hs := size.toNat_lt
  have hsum : (e.1 + e.2).toNat = (e.1.toNat + e.2.toNat) % 2 ^ 64 := UInt64.toNat_add _ _
  rw [clamp]
  split
  · rename_i hgt
    rw [gt_iff_lt, UInt64.lt_iff_toNat_lt, hsum] at hgt
    have hsub : (size - e.1).toNat = size.toNat - e.1.toNat :=
      UInt64.toNat_sub_of_le _ _ (UInt64.le_iff_toNat_le.mpr (by omega))
    constructor
    · intro _
      -- A sum that wraps is smaller than its first part, which is inside the disk.
      rcases Nat.lt_or_ge (e.1.toNat + e.2.toNat) (2 ^ 64) with hlt | hge
      · exact hlt
      · omega
    · omega
  · rename_i hle
    rw [gt_iff_lt, UInt64.lt_iff_toNat_lt, hsum] at hle
    constructor
    · intro hfit
      have := hfit h.2
      omega
    · omega

/-- An extent that a partition of a disk has. -/
def Live (devs : Table) (disk : Nat) (x : UInt64 × UInt64) : Prop :=
  ∃ i, IsPart devs disk i ∧ (devs i).sectors ≠ 0 ∧ (devs i).offset = x.1 ∧ (devs i).sectors = x.2

theorem confined_iff_live : Confined devs disk ↔
    ∀ x, Live devs disk x → x.1.toNat + x.2.toNat ≤ (devs disk).sectors.toNat := by
  constructor
  · rintro h x ⟨i, hi, hne, hoff, hsec⟩
    rw [← hoff, ← hsec]
    exact h i hi hne
  · intro h i hi hne
    exact h ((devs i).offset, (devs i).sectors) ⟨i, hi, hne, rfl, rfl⟩

/-- An extent that gets a device becomes one of the disk, cut at its end. -/
theorem live_update_iff {p index : Nat} {d : Device} {e x : UInt64 × UInt64}
    (hp : p < blockMaxDevices) (hu : d.used = true) (hpar : d.parent = some disk)
    (hoff : d.offset = e.1) (hsec : d.sectors = clamp (devs disk).sectors e)
    (hold : isPartition devs disk index p = true ∨
      hasDevice devs disk index = false ∧ (devs p).used = false)
    (hempty : isPartition devs disk index p = true → (devs p).sectors = 0) :
    Live (Function.update devs p d) disk x ↔ Live devs disk x ∨
      (clamp (devs disk).sectors e ≠ 0 ∧ x = (e.1, clamp (devs disk).sectors e)) := by
  constructor
  · rintro ⟨i, hi, hne, hxo, hxs⟩
    by_cases hip : i = p
    · grind
    · rw [IsPart, Function.update_of_ne hip] at hi
      rw [Function.update_of_ne hip] at hne hxo hxs
      exact .inl ⟨i, hi, hne, hxo, hxs⟩
  · rintro (⟨i, hi, hne, hxo, hxs⟩ | ⟨hne, rfl⟩)
    · have hip : i ≠ p := by
        rintro rfl
        rcases hold with hold | hold
        · exact hne (hempty hold)
        · rw [hi.2.1] at hold
          simp at hold
      refine ⟨i, ?_, ?_⟩
      · rw [IsPart, Function.update_of_ne hip]
        exact hi
      · rw [Function.update_of_ne hip]
        exact ⟨hne, hxo, hxs⟩
    · refine ⟨p, ?_, ?_⟩
      · rw [IsPart, Function.update_self]
        exact ⟨hp, hu, hpar⟩
      · rw [Function.update_self, hsec]
        exact ⟨hne, hoff, rfl⟩

theorem addAll_disk (es : List (UInt64 × UInt64)) (hdisk : IsDisk devs disk) (found : Nat) :
    addAll disk found es devs disk = devs disk := by
  induction es generalizing devs found with
  | nil => rfl
  | cons e rest ih =>
    have hrow : blockAddPartition devs disk (found + 1) e.1 e.2 disk = devs disk := by
      obtain ⟨-, h⟩ | ⟨-, -, -, h⟩ | ⟨-, p, d, -, hpd, -, -, -, -, -, -, h, -⟩ :=
        blockAddPartition_cases hdisk (found + 1) e
      · rw [h]
      · rw [h]
      · rw [h, Function.update_of_ne (Ne.symm hpd)]
    have hdisk' : IsDisk (blockAddPartition devs disk (found + 1) e.1 e.2) disk :=
      ⟨by rw [hrow]; exact hdisk.used, by rw [hrow]; exact hdisk.root⟩
    rw [addAll, ih hdisk', hrow]

/-- Adding extents to a disk adds those that get a device to its partitions. -/
theorem addAll_live (es : List (UInt64 × UInt64)) (hdisk : IsDisk devs disk) (found : Nat)
    (hempty : ∀ i, IsPart devs disk i → found < (devs i).index → (devs i).sectors = 0)
    (x : UInt64 × UInt64) :
    Live (addAll disk found es devs) disk x ↔ Live devs disk x ∨
      ∃ e ∈ placed (devs disk).sectors (hasDevice devs disk) (freeSlots devs) found es,
        clamp (devs disk).sectors e ≠ 0 ∧ x = (e.1, clamp (devs disk).sectors e) := by
  induction es generalizing devs found with
  | nil => simp [addAll, placed]
  | cons e rest ih =>
    have hempty' : ∀ i, IsPart devs disk i → found + 1 < (devs i).index → (devs i).sectors = 0 :=
      fun i hi hlt => hempty i hi (by omega)
    rw [addAll, placed]
    obtain ⟨hout, hskip⟩ | ⟨hin, hno, hfull, hskip⟩ |
      ⟨hin, p, d, hp, hpd, hu, hpar, hidx, hoff, hsec, -, hadd, hold⟩ :=
      blockAddPartition_cases hdisk (found + 1) e
    · rw [hskip, ih hdisk (found + 1) hempty']
      simp [hout]
    · rw [hskip, ih hdisk (found + 1) hempty']
      simp [hin, hno, hfull]
    · have hempty₀ : isPartition devs disk (found + 1) p = true → (devs p).sectors = 0 := by
        intro hi
        simp only [isPartition, Bool.and_eq_true, beq_iff_eq] at hi
        exact hempty p ⟨hp, hi.1.1, hi.1.2⟩ (by omega)
      have hone := @live_update_iff devs disk p (found + 1) d e x hp hu hpar hoff hsec hold hempty₀
      have hdisk' : IsDisk (Function.update devs p d) disk := by
        constructor
        · rw [Function.update_of_ne (Ne.symm hpd)]
          exact hdisk.used
        · rw [Function.update_of_ne (Ne.symm hpd)]
          exact hdisk.root
      have hlater : ∀ i, IsPart (Function.update devs p d) disk i →
          found + 1 < (Function.update devs p d i).index →
          (Function.update devs p d i).sectors = 0 := by
        intro i hi hlt
        by_cases hip : i = p
        · rw [hip, Function.update_self, hidx] at hlt
          omega
        · rw [IsPart, Function.update_of_ne hip] at hi
          rw [Function.update_of_ne hip] at hlt ⊢
          exact hempty' i hi hlt
      have hknown : ∀ free, placed (devs disk).sectors
          (hasDevice (Function.update devs p d) disk) free (found + 1) rest =
          placed (devs disk).sectors (hasDevice devs disk) free (found + 1) rest := by
        intro free
        apply placed_congr
        intro n hn
        exact hasDevice_update hold hidx (by omega)
      rw [hadd, ih hdisk' (found + 1) hlater, Function.update_of_ne (Ne.symm hpd), hknown, hone]
      have hcount : freeSlots (Function.update devs p d) + (if (devs p).used then 0 else 1) =
          freeSlots devs := freeSlots_update hp hu
      simp only [hin, Bool.not_true, Bool.false_eq_true, if_false]
      rcases hold with hold | ⟨hno, hunused⟩
      · have hhas : hasDevice devs disk (found + 1) = true :=
          List.any_eq_true.mpr ⟨p, mem_slots.mpr hp, hold⟩
        have hpu : (devs p).used = true := by
          simp only [isPartition, Bool.and_eq_true] at hold
          exact hold.1.1
        rw [hpu, if_pos rfl, Nat.add_zero] at hcount
        rw [if_pos hhas, hcount, List.exists_mem_cons_iff, or_assoc]
      · grind

/-- The extents that get a device are some of those that start inside the disk. -/
theorem placed_sublist {size : UInt64} {known : Nat → Bool} {es : List (UInt64 × UInt64)}
    {free found : Nat} :
    (placed size known free found es).Sublist (es.filter (startsInside size)) := by
  induction es generalizing free found with
  | nil => exact List.Sublist.refl _
  | cons e rest ih =>
    rw [placed, List.filter_cons]
    cases hin : startsInside size e with
    | false => exact ih
    | true => grind

theorem placed_startsInside {size : UInt64} {known : Nat → Bool} {es : List (UInt64 × UInt64)}
    {free found : Nat} {e : UInt64 × UInt64} (h : e ∈ placed size known free found es) :
    startsInside size e = true :=
  (List.mem_filter.mp (placed_sublist.subset h)).2

/-! ## The scan -/

theorem isDisk_emptyPartitions (h : IsDisk devs disk) : emptyPartitions devs disk disk = devs disk := by
  rw [emptyPartitions, if_neg]
  rw [h.root]
  simp

theorem emptyPartitions_eq (devs : Table) (disk i : Nat) :
    emptyPartitions devs disk i = { devs i with sectors := (emptyPartitions devs disk i).sectors } := by
  rw [emptyPartitions]
  split <;> rfl

/-- The partitions of a disk after a scan are the extents that get a device. -/
theorem scan_live {m : Fat.BlockDevice} {es : List (UInt64 × UInt64)}
    (hdisk : IsDisk devs disk) (hes : partitionEntries (medium devs disk m) = some es)
    (hscan : blockScanPartitions devs disk m = some devs') :
    IsDisk devs' disk ∧ (devs' disk).sectors = (devs disk).sectors ∧
    ∀ x, Live devs' disk x ↔
      ∃ e ∈ placed (devs disk).sectors (hasDevice devs disk) (freeSlots devs) 0 es,
        clamp (devs disk).sectors e ≠ 0 ∧ x = (e.1, clamp (devs disk).sectors e) := by
  have hrow := isDisk_emptyPartitions hdisk
  have hdisk₀ : IsDisk (emptyPartitions devs disk) disk := ⟨by rw [hrow]; exact hdisk.used,
    by rw [hrow]; exact hdisk.root⟩
  have hempty : ∀ i, IsPart (emptyPartitions devs disk) disk i →
      (emptyPartitions devs disk i).sectors = 0 := by
    intro i hi
    rw [IsPart, emptyPartitions_eq] at hi
    rw [emptyPartitions, if_pos hi]
  have hpart : ∀ index, isPartition (emptyPartitions devs disk) disk index =
      isPartition devs disk index := by
    intro index
    funext i
    rw [isPartition, emptyPartitions_eq]
    rfl
  have hfree : freeSlots (emptyPartitions devs disk) = freeSlots devs := by
    simp only [freeSlots]
    congr 1
    funext i
    rw [emptyPartitions_eq]
  have hknown : hasDevice (emptyPartitions devs disk) disk = hasDevice devs disk := by
    funext index
    rw [hasDevice, hasDevice, hpart]
  rw [blockScanPartitions_eq, hes, Option.map_some, Option.some.injEq] at hscan
  have hlive := addAll_live es hdisk₀ 0 (fun i hi _ => hempty i hi)
  have hsame := addAll_disk es hdisk₀ 0
  rw [hrow, hknown, hfree] at hlive
  rw [hscan, hrow] at hsame
  rw [hscan] at hlive
  refine ⟨⟨by rw [hsame]; exact hdisk.used, by rw [hsame]; exact hdisk.root⟩, by rw [hsame], ?_⟩
  intro x
  have hnone : ¬ Live (emptyPartitions devs disk) disk x :=
    fun ⟨i, hi, hne, _⟩ => hne (hempty i hi)
  rw [hlive x]
  exact or_iff_right hnone

/-- **Partitions and the scan.**  After a scan every partition with sectors ends
inside its disk, and transfers on partitions stay inside both, exactly if no
extent that the disk lists and that gets a device has its first sector and its
length add up to `2 ^ 64` or more. -/
theorem scan_confines_iff {m : Fat.BlockDevice} {es : List (UInt64 × UInt64)}
    (hdisk : IsDisk devs disk) (hes : partitionEntries (medium devs disk m) = some es)
    (hscan : blockScanPartitions devs disk m = some devs') :
    (Confined devs' disk ∧ TransfersInside devs' disk) ↔
      ∀ e ∈ placed (devs disk).sectors (hasDevice devs disk) (freeSlots devs) 0 es,
        e.1.toNat + e.2.toNat < 2 ^ 64 := by
  obtain ⟨hdisk', hsize, hlive⟩ := scan_live hdisk hes hscan
  have hconf : Confined devs' disk ↔
      ∀ e ∈ placed (devs disk).sectors (hasDevice devs disk) (freeSlots devs) 0 es,
        e.1.toNat + e.2.toNat < 2 ^ 64 := by
    rw [confined_iff_live, hsize]
    constructor
    · intro h e he
      rw [← clamp_fits_iff (placed_startsInside he)]
      exact fun hne => h _ ((hlive _).mpr ⟨e, he, hne, rfl⟩)
    · intro h x hx
      obtain ⟨e, he, hne, rfl⟩ := (hlive x).mp hx
      exact (clamp_fits_iff (placed_startsInside he)).mpr (h e he) hne
  constructor
  · exact fun h => hconf.mp h.1
  · intro h
    exact ⟨hconf.mpr h, transfer_inside hdisk' (hconf.mpr h)⟩

/-- One disk of 4096 sectors. -/
def oneDisk : Table := fun i => if i = 0 then { used := true, sectors := 4096 } else {}

theorem isDisk_oneDisk : IsDisk oneDisk 0 := ⟨rfl, rfl⟩

/-- A boot sector with one partition: 100 sectors from sector 64 on. -/
def bootSectorDisk : Fat.BlockDevice where
  sectors := 4096
  data a :=
    if a = 450 then 0x0C else if a = 454 then 64 else if a = 458 then 100
    else if a = 510 then 0x55 else if a = 511 then 0xAA else 0

theorem bootSectorDisk_entries :
    partitionEntries (medium oneDisk 0 bootSectorDisk) = some [(64, 100)] := by
  decide +kernel

/-- A disk with a partition in its boot sector. -/
theorem bootSectorDisk_confined :
    ∃ devs', blockScanPartitions oneDisk 0 bootSectorDisk = some devs' ∧
      (devs' 1).offset = 64 ∧ (devs' 1).sectors = 100 ∧
      Confined devs' 0 ∧ TransfersInside devs' 0 := by
  have hscan : blockScanPartitions oneDisk 0 bootSectorDisk =
      some (addAll 0 0 [(64, 100)] (emptyPartitions oneDisk 0)) := by
    rw [blockScanPartitions_eq, bootSectorDisk_entries]
    rfl
  refine ⟨_, hscan, by decide +kernel, by decide +kernel, ?_⟩
  refine (scan_confines_iff isDisk_oneDisk bootSectorDisk_entries hscan).mpr ?_
  intro e he
  rw [List.mem_singleton.mp he]
  decide

/-- A GUID table with one entry: from sector 1 to sector `2 ^ 64 - 1`. -/
def overrunDisk : Fat.BlockDevice where
  sectors := 4096
  data a :=
    if 512 ≤ a ∧ a < 520 then gptSignature.getD (a - 512) 0
    else if a = 584 then 2 else if a = 592 then 1 else if a = 596 then 128
    else if a = 1024 then 1 else if a = 1056 then 1
    else if 1064 ≤ a ∧ a < 1072 then 255 else 0

theorem overrunDisk_entries :
    partitionEntries (medium oneDisk 0 overrunDisk) = some [(1, 0xFFFFFFFFFFFFFFFF)] := by
  have hq : (medium oneDisk 0 overrunDisk).faults = [] := rfl
  have h1 := Fat.blockRead_eq hq 1 Nat.one_pos (by decide)
  have h2 := Fat.blockRead_eq hq 2 Nat.one_pos (by decide)
  rw [partitionEntries, h1]
  have hhdr : gptHeader (Buf.read (medium oneDisk 0 overrunDisk).data (1 * 512) (1 * 512)) =
      some ⟨2, 1, 128⟩ := by decide +kernel
  have hext : gptExtent (Buf.read (medium oneDisk 0 overrunDisk).data (2 * 512) (1 * 512))
      (0 % (512 / 128) * 128) = some (1, 0xFFFFFFFFFFFFFFFF) := by decide +kernel
  have htotal : gptTotal ⟨2, 1, 128⟩ = some 1 := by decide
  have hsector : gptSector ⟨2, 1, 128⟩ (512 / 128) 0
      (Buf.read (medium oneDisk 0 overrunDisk).data (1 * 512) (1 * 512))
      (medium oneDisk 0 overrunDisk) =
      (some (Buf.read (medium oneDisk 0 overrunDisk).data (2 * 512) (1 * 512)),
        medium oneDisk 0 overrunDisk) := h2
  simp only [Option.bind_some, hhdr, Option.map_some, htotal, blockMaxPartitions, gptExtents,
    hsector,
    show (128 : UInt32).toNat = 128 from rfl, hext]

/-- The partition of such an entry has `2 ^ 64 - 1` sectors. -/
theorem overrun_partition_leaves_disk :
    ¬ ∀ devs disk m devs', IsDisk devs disk → blockScanPartitions devs disk m = some devs' →
      Confined devs' disk ∧ TransfersInside devs' disk := by
  intro h
  have hscan : blockScanPartitions oneDisk 0 overrunDisk =
      some (addAll 0 0 [(1, 0xFFFFFFFFFFFFFFFF)] (emptyPartitions oneDisk 0)) := by
    rw [blockScanPartitions_eq, overrunDisk_entries]
    rfl
  have hin := (h oneDisk 0 overrunDisk _ isDisk_oneDisk hscan).1 1
    ⟨by decide, by decide +kernel, by decide +kernel⟩ (by decide +kernel)
  revert hin
  decide +kernel

end Disk
