import StrawOS.Lib.Machine
import StrawOS.Vfs.Path
import StrawOS.Fat.Geometry
import StrawOS.Disk.Confine

/-!
# Mounting and raw access

`fs_sys_mount`, `fs_sys_unmount` and the requests of `block_ioctl` on disks and
partitions.  A live `Fat32` instance holds its device (`mounts` counts them), and
`block_busy` is what keeps raw requests away from mounted devices: it looks at
the device and its partitions.

What a request reads from a disk is part of the request: any content, also what
a mounted file system wrote meanwhile.  The sectors it writes are the commands it
passes to the driver.
-/

namespace Disk

open Vfs (CString MountTable vfsMount vfsUnmount vfsNameMax slash)

def blockBusy (devs : Table) (dev : Nat) : Bool :=
  (devs dev).mounts ≠ 0 ||
    slots.any fun i => (devs i).used && (devs i).parent == some dev && (devs i).mounts ≠ 0

/-! ## What a request writes -/

/-- The calls of `block_write` of a request, as sector and count.  Any that is out
of range fails the request. -/
def writeCommands (devs : Table) (dev : Nat) :
    List (UInt64 × UInt32) → Option (List (Nat × Command))
  | [] => some []
  | w :: rest => do
      let io ← blockRootIo devs dev w.1 w.2
      let rest ← writeCommands devs dev rest
      return io.2.map (fun c => (io.1, c)) ++ rest

def gptEntrySectors : UInt64 := 32

def gptAlign : UInt64 := 2048

/-- The transfers of `block_write_gpt` that have to succeed, unless the disk is
too small. -/
def gptWrites (sectors : UInt64) : Option (List (UInt64 × UInt32)) :=
  let last := sectors - 1
  let lastUsable := last - 1 - gptEntrySectors
  let partEnd := (lastUsable + 1) / gptAlign * gptAlign - 1
  if partEnd ≤ gptAlign then none
  else some [(0, 1), (2, 32), (last - gptEntrySectors, 32), (last, 1), (1, 1)]

/-- The transfers of `fat_zero_range`. -/
def zeroRange (lba : UInt64) (count : Nat) : List (UInt64 × UInt32) :=
  if count = 0 then []
  else
    let n := min count Fat.blockMaxTransfer
    (lba, .ofNat n) :: zeroRange (lba + .ofNat n) (count - n)
termination_by count
decreasing_by simp only [Fat.blockMaxTransfer]; omega

/-- The transfers of `fat32_format`, unless the device is too small. -/
def formatWrites (sectors : UInt64) : Option (List (UInt64 × UInt32)) :=
  let total := min sectors 0xFFFFFFFF
  let spc : UInt32 :=
    if total ≤ 532480 then 1 else if total ≤ 16777216 then 8 else if total ≤ 33554432 then 16
    else if total ≤ 67108864 then 32 else 64
  let tmp : UInt32 := (256 * spc + 2) / 2
  let fatSectors : UInt32 := ((total - 32 + (tmp.toUInt64 - 1)) / tmp.toUInt64).toUInt32
  let dataStart : UInt32 := 32 + 2 * fatSectors
  if total ≤ dataStart.toUInt64 ∨ (total - dataStart.toUInt64) / spc.toUInt64 < 65525 then none
  else some (zeroRange 0 dataStart.toNat ++ zeroRange dataStart.toUInt64 spc.toNat ++
    [(0, 1), (1, 1), (6, 1), (7, 1), (32, 1), ((32 + fatSectors).toUInt64, 1),
      (dataStart.toUInt64, 1)])

/-! ## The machine -/

/-- The root node of a mounted volume: one of a `Fat32` instance, or another. -/
inductive Root
  | fat (fs : Nat)
  | other (n : Nat)
  deriving DecidableEq

/-- The devices, the mount table, and the live `Fat32` instances with their
devices. -/
structure State where
  devs : Table
  mounts : MountTable Root
  device : Nat → Option Nat
  next : Nat

/-- Requests.  `node` is the device a path resolves to, `disk` what is read from
it, `held` whether a descriptor is open on the volume, and `io` whether all
transfers and the flush succeed. -/
inductive Request
  | mount (node : Option Nat) (path : CString) (disk : Fat.BlockDevice)
  | unmount (path : CString) (held : Bool)
  | diskRead (dev : Nat) (lba : UInt64) (count : UInt32)
  | diskWrite (dev : Nat) (lba : UInt64) (count : UInt32) (io : Bool)
  | diskFormat (dev : Nat) (io : Bool)
  | diskPartition (dev : Nat) (io : Bool) (disk : Fat.BlockDevice)

/-- Change the count of mounts of a device. -/
def addMounts (devs : Table) (dev : Nat) (k : Int) : Table :=
  Function.update devs dev { devs dev with mounts := (devs dev).mounts + k }

/-- `block_from_node`, on the slot of the node. -/
def blockFromNode (devs : Table) (node : Option Nat) : Option Nat :=
  node.filter fun i => decide (i < blockMaxDevices) && (devs i).used && (devs i).sectors ≠ 0

/-- `fat32_mount` of a device that has a boot sector the driver accepts. -/
def fat32Mount (st : State) (dev : Nat) : State :=
  { st with
    devs := addMounts st.devs dev 1
    device := Function.update st.device st.next (some dev)
    next := st.next + 1 }

/-- `fat32_unmount` of an instance. -/
def fat32Unmount (st : State) (fs : Nat) : State :=
  match st.device fs with
  | none => st
  | some dev =>
      { st with devs := addMounts st.devs dev (-1), device := Function.update st.device fs none }

def fsSysMount (st : State) (node : Option Nat) (path : CString) (disk : Fat.BlockDevice) : State :=
  if path.head? ≠ some slash ∨ vfsNameMax ≤ path.length then st
  else
    match blockFromNode st.devs node with
    | none => st
    | some dev =>
        match Fat.fatParseBoot disk with
        | none => st
        | some _ =>
            let fs := st.next
            let mounted := fat32Mount st dev
            match vfsMount mounted.mounts path (.fat fs) with
            | some t => { mounted with mounts := t }
            | none => fat32Unmount mounted fs

def fsSysUnmount (st : State) (path : CString) (held : Bool) : State :=
  let found := vfsUnmount st.mounts path
  match found.1 with
  | none => st
  | some root =>
      if held then { st with mounts := (vfsMount found.2 path root).getD found.2 }
      else
        match root with
        | .fat fs => fat32Unmount { st with mounts := found.2 } fs
        | .other _ => { st with mounts := found.2 }

/-- The commands of a request of `block_ioctl` that succeeds; none of one that
fails.  A request that reads has none to pass on. -/
def ioctlWrites (devs : Table) : Request → Option (List (Nat × Command))
  | .diskWrite dev lba count io =>
      if !(devs dev).used || blockBusy devs dev || !io then none
      else writeCommands devs dev [(lba, count)]
  | .diskFormat dev io =>
      if !(devs dev).used || (devs dev).sectors == 0 || blockBusy devs dev || !io then none
      else (formatWrites (devs dev).sectors).bind (writeCommands devs dev)
  | .diskPartition dev io _ =>
      if !(devs dev).used || (devs dev).parent.isSome || blockBusy devs dev || !io then none
      else
        (gptWrites (devs dev).sectors).bind fun ws =>
          -- The last write clears the first sector of the new partition; it may fail.
          (writeCommands devs dev ws).map fun cmds =>
            cmds ++ (writeCommands devs dev [(gptAlign, 1)]).getD []
  | _ => none

/-- The state after a request: repartitioning scans the disk again. -/
def stepRequest (st : State) : Request → State
  | .mount node path disk => fsSysMount st node path disk
  | .unmount path held => fsSysUnmount st path held
  | .diskPartition dev io disk =>
      if (ioctlWrites st.devs (.diskPartition dev io disk)).isSome then
        { st with devs := (blockScanPartitions st.devs dev disk).getD st.devs }
      else st
  | _ => st

end Disk
