import StrawOS.Lib.Endian
import StrawOS.Fat.Block

/-!
# Disks and partitions

The device table of `block.c`.  A device is a disk, or a partition: a window
`offset .. offset + sectors` of its parent.  `block_root_io` checks a transfer
against the size of the device only, adds the offsets up to the disk and hands
the driver commands of at most `BLOCK_MAX_TRANSFER` sectors.

Sector numbers are 64-bit words, and all sums of them wrap.
-/

namespace Disk

def blockMaxDevices : Nat := 32

/-- `BlockDevice`, as far as partitions and mounts go; the defaults are the
zeroed object. -/
structure Device where
  used : Bool := false
  sectors : UInt64 := 0
  offset : UInt64 := 0
  parent : Option Nat := none
  index : Nat := 0
  mounts : Int := 0
  deriving DecidableEq

/-- `block_devices`. -/
abbrev Table := Nat → Device

/-- The slots of the table, in order. -/
def slots : List Nat := List.range blockMaxDevices

theorem mem_slots {i : Nat} : i ∈ slots ↔ i < blockMaxDevices := List.mem_range

/-- `block_alloc`: the first unused slot, zeroed and taken. -/
def blockAlloc (devs : Table) : Option (Nat × Table) :=
  (slots.find? fun i => !(devs i).used).map fun i =>
    (i, Function.update devs i { used := true })

/-- A slot is the partition of a disk with a number. -/
def isPartition (devs : Table) (disk index i : Nat) : Bool :=
  (devs i).used && (devs i).parent == some disk && (devs i).index == index

/-- `block_partition_slot`: the slot of a partition, a new one if need be. -/
def blockPartitionSlot (devs : Table) (disk index : Nat) : Option (Nat × Table) :=
  match slots.find? (isPartition devs disk index) with
  | some i => some (i, devs)
  | none =>
      (blockAlloc devs).map fun made =>
        (made.1, Function.update made.2 made.1
          { made.2 made.1 with parent := some disk, index := index })

def blockAddPartition (devs : Table) (disk index : Nat) (start sectors : UInt64) : Table :=
  if start ≥ (devs disk).sectors ∨ sectors = 0 then devs
  else
    let sectors :=
      if start + sectors > (devs disk).sectors then (devs disk).sectors - start else sectors
    match blockPartitionSlot devs disk index with
    | none => devs
    | some (p, devs) => Function.update devs p { devs p with offset := start, sectors := sectors }

/-! ## Transfers -/

/-- A command to the driver of a disk: the first sector and the number of
sectors, at most `BLOCK_MAX_TRANSFER`. -/
structure Command where
  lba : UInt64
  count : Nat
  deriving DecidableEq

/-- The commands of the transfer loop of `block_root_io`, if none fails. -/
def commands (lba : UInt64) (count : Nat) : List Command :=
  if count = 0 then []
  else
    let n := min count Fat.blockMaxTransfer
    ⟨lba, n⟩ :: commands (lba + .ofNat n) (count - n)
termination_by count
decreasing_by simp only [Fat.blockMaxTransfer]; omega

/-- The loop of `block_root_io` up to the disk. -/
def toDisk (devs : Table) : (fuel : Nat) → (dev : Nat) → UInt64 → Nat × UInt64
  | 0, dev, lba => (dev, lba)
  | fuel + 1, dev, lba =>
      match (devs dev).parent with
      | none => (dev, lba)
      | some parent => toDisk devs fuel parent (lba + (devs dev).offset)

/-- The range check of `block_root_io`; the count is a 32-bit word. -/
def refuses (devs : Table) (dev : Nat) (lba : UInt64) (count : UInt32) : Bool :=
  decide (count = 0 ∨ lba + count.toUInt64 > (devs dev).sectors ∨ lba + count.toUInt64 < lba)

/-- The disk and the commands of a transfer of `block_read` or `block_write`.  A
command that fails ends the loop, so the driver sees a first part of the list. -/
def blockRootIo (devs : Table) (dev : Nat) (lba : UInt64) (count : UInt32) :
    Option (Nat × List Command) :=
  if refuses devs dev lba count then none
  else
    let target := toDisk devs blockMaxDevices dev lba
    some (target.1, commands target.2 count.toNat)

/-! ## What a command touches -/

/-- The sectors of a command, as the numbers that they are. -/
def Command.touches (c : Command) (s : Nat) : Prop := c.lba.toNat ≤ s ∧ s < c.lba.toNat + c.count

/-- The sectors of the parent that belong to a partition. -/
def Device.covers (d : Device) (s : Nat) : Prop :=
  d.offset.toNat ≤ s ∧ s < d.offset.toNat + d.sectors.toNat

/-- The commands of a transfer that does not wrap touch its sectors and no
others. -/
theorem commands_touch {lba : UInt64} {count : Nat} (hwrap : lba.toNat + count < 2 ^ 64) {c : Command}
    (hc : c ∈ commands lba count) {s : Nat} (hs : c.touches s) :
    lba.toNat ≤ s ∧ s < lba.toNat + count := by
  induction count using Nat.strong_induction_on generalizing lba with
  | _ count ih =>
    rw [commands] at hc
    split at hc
    · simp at hc
    · obtain ⟨n, hn⟩ : ∃ n, n = min count Fat.blockMaxTransfer := ⟨_, rfl⟩
      have hpos : 0 < n ∧ n ≤ count := by rw [hn, Fat.blockMaxTransfer]; omega
      simp only [← hn, List.mem_cons] at hc
      rcases hc with rfl | hc
      · have h1 : lba.toNat ≤ s := hs.1
        have h2 : s < lba.toNat + n := hs.2
        exact ⟨h1, by omega⟩
      · have hnext : (lba + .ofNat n).toNat = lba.toNat + n := by
          rw [UInt64.toNat_add, UInt64.toNat_ofNat']
          omega
        have := ih (count - n) (by omega) (by omega) hc
        omega

theorem refuses_eq_false_iff {devs : Table} {dev : Nat} {lba : UInt64} {count : UInt32} :
    refuses devs dev lba count = false ↔
      0 < count.toNat ∧ lba.toNat + count.toNat ≤ (devs dev).sectors.toNat := by
  have h2 := (devs dev).sectors.toNat_lt
  have h3 : count.toUInt64.toNat = count.toNat := UInt32.toNat_toUInt64 count
  have h4 := count.toNat_lt
  have h0 : count = 0 ↔ count.toNat = 0 := by
    rw [← UInt32.toNat_inj]
    rfl
  simp only [refuses, decide_eq_false_iff_not, not_or, h0, gt_iff_lt, UInt64.lt_iff_toNat_lt,
    UInt64.toNat_add, h3]
  omega

end Disk
