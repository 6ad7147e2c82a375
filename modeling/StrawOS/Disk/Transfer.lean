import StrawOS.Disk.Device
import StrawOS.Lib.Machine

/-!
# Transfers

`block_root_io` over the drivers `nvme.c` and `ahci.c`, with the controller beside
them.  Everything goes through one bounce buffer.  A driver submits a command and polls
for its end, and when it has polled long enough it gives up and says so; the controller
takes a command over as it is submitted and moves its sectors one by one at any time,
before or after that.

Memory and disk are counted in sectors.  The content of a sector is any type.  How often
the loop of a driver polls is left open; it polls at least once.
-/

namespace Disk

namespace Transfer

/-- Whose disk it is. -/
inductive Kind
  | nvme
  | ahci
  deriving DecidableEq

/-- `prp2`: unused, a page, or the list. -/
inductive Prp2
  | unused
  | page (p : Nat)
  | list
  deriving DecidableEq

/-- Where a command has its data: the pages of `NvmeCmd`, or the region of `AhciPrd`, by
its first page. -/
inductive Data
  | prp (prp1 : Nat) (prp2 : Prp2)
  | prd (dba : Nat)
  deriving DecidableEq

/-- A command as the controller takes it over. -/
structure Cmd where
  write : Bool
  lba : Nat
  count : Nat
  data : Data

/-- A command that is not fully executed: the sectors of it that are still to move. -/
structure Pending where
  cmd : Cmd
  cid : UInt16
  left : List Nat

variable {α : Type}

/-- A call of `block_read` or `block_write` that waits for a command.  `moved` sectors of
the buffer are done, `left` are not.  `held` is kept for the record: what each sector of
the disk has held since the call began. -/
structure Call (α : Type) where
  write : Bool
  first : UInt64
  count : Nat
  buf : Nat → α
  lba : UInt64
  moved : Nat
  left : Nat
  cid : UInt16
  held : Nat → List α

/-- `block_root_io`, the copy of a read from the bounce buffer. -/
def Call.fill (c : Call α) (mem : Nat → α) (base n : Nat) : Call α :=
  if c.write then c
  else
    { c with
      buf := fun j => if c.moved ≤ j ∧ j < c.moved + n then mem (base + (j - c.moved)) else c.buf j }

/-- `block_root_io`, the step to the next command. -/
def Call.advance (c : Call α) (n : Nat) : Call α :=
  { c with moved := c.moved + n, lba := c.lba + .ofNat n, left := c.left - n }

/-- What was passed to `block_write`. -/
structure Write (α : Type) where
  first : UInt64
  count : Nat
  buf : Nat → α

/-- The disk and its driver.  `log` is kept for the record. -/
structure State (α : Type) where
  kind : Kind
  sectors : UInt64
  disk : Nat → α
  mem : Nat → α
  bounce : Option Nat
  prpList : Nat → Nat
  cid : UInt16
  cq : List UInt16
  pending : List Pending
  call : Option (Call α)
  log : List (Write α)

/-- What a call returns: the buffer, and 0 or -1. -/
structure Answer (α : Type) where
  call : Call α
  rc : Int

/-- Sectors in a page. -/
def pageSectors : Nat := 8

/-- The pages of an NVMe command. -/
def pageOf (prpList : Nat → Nat) (prp1 : Nat) : Prp2 → Nat → Nat
  | _, 0 => prp1
  | .list, j + 1 => prpList j
  | .page p, _ + 1 => p
  | .unused, _ + 1 => 0

/-- The place in memory of a sector of a command. -/
def place (prpList : Nat → Nat) : Data → Nat → Nat
  | .prp prp1 prp2, i => pageOf prpList prp1 prp2 (i / pageSectors) * pageSectors + i % pageSectors
  | .prd dba, i => dba * pageSectors + i

namespace State

variable (st : State α)

/-! ## The controller -/

/-- A sector of the disk takes a new content. -/
def store (s : Nat) (a : α) : State α :=
  { st with
    disk := Function.update st.disk s a
    call := st.call.map fun c => { c with held := Function.update c.held s (a :: c.held s) } }

/-- The controller moves a sector of a command. -/
def moveSector (cmd : Cmd) (i : Nat) : State α :=
  let spot := place st.prpList cmd.data i
  if cmd.write then st.store (cmd.lba + i) (st.mem spot)
  else { st with mem := Function.update st.mem spot (st.disk (cmd.lba + i)) }

/-- The controller moves the sector `i` of a command of its list; behind the last one it
posts the end of the command. -/
def execute (n i : Nat) : State α :=
  match st.pending[n]? with
  | none => st
  | some p =>
      if i ∈ p.left then
        let left := p.left.erase i
        let st := st.moveSector p.cmd i
        if left = [] then
          { st with
            pending := st.pending.eraseIdx n
            cq := match st.kind with
              | .nvme => st.cq ++ [p.cid]
              | .ahci => st.cq }
        else { st with pending := st.pending.set n { p with left := left } }
      else st

/-! ## The drivers -/

/-- `nvme_io` up to `nvme_submit`, from the first page of the buffer on. -/
def nvmeIo (buf : Nat) (lba : UInt64) (count : Nat) (write : Bool) : State α × Cmd :=
  let pages := (count + pageSectors - 1) / pageSectors
  let next := buf + 1
  if pages = 2 then (st, ⟨write, lba.toNat, count, .prp buf (.page next)⟩)
  else if pages > 2 then
    ({ st with prpList := fun i => if i < pages - 1 then next + i else st.prpList i },
      ⟨write, lba.toNat, count, .prp buf .list⟩)
  else (st, ⟨write, lba.toNat, count, .prp buf .unused⟩)

/-- `ahci_command`, what it writes to the command table: 48 bits of the sector number and
16 of the count. -/
def ahciIo (buf : Nat) (lba : UInt64) (count : Nat) (write : Bool) : Cmd :=
  ⟨write, lba.toNat % 2 ^ 48, count % 2 ^ 16, .prd buf⟩

/-- A command goes to the controller. -/
def post (c : Call α) (cmd : Cmd) : State α :=
  { st with
    cid := st.cid + 1
    pending := st.pending ++ [⟨cmd, st.cid, List.range cmd.count⟩]
    call := some { c with cid := st.cid } }

/-- The call ends. -/
def answer (c : Call α) (rc : Int) : State α × List (Answer α) :=
  ({ st with call := none }, [⟨c, rc⟩])

/-- `block_root_io`, one turn of its loop up to the wait: the bytes to write go to the
bounce buffer and the command to the controller.  An AHCI port may be found busy. -/
def transfer (buf : Nat) (c : Call α) (ready : Bool) : State α × List (Answer α) :=
  let n := min c.left Fat.blockMaxTransfer
  let base := buf * pageSectors
  let st := if c.write then
      { st with mem := fun a => if base ≤ a ∧ a < base + n then c.buf (c.moved + (a - base)) else st.mem a }
    else st
  match st.kind with
  | .nvme =>
      let (st, cmd) := st.nvmeIo buf c.lba n c.write
      (st.post c cmd, [])
  | .ahci => if ready then (st.post c (ahciIo buf c.lba n c.write), []) else st.answer c (-1)

/-- `block_root_io`, from the end of a command to the next turn. -/
def finish (c : Call α) (ready : Bool) : State α × List (Answer α) :=
  match st.bounce with
  | none => st.answer c (-1)
  | some buf =>
      let n := min c.left Fat.blockMaxTransfer
      let c := (c.fill st.mem (buf * pageSectors) n).advance n
      if c.left = 0 then st.answer c 0 else st.transfer buf c ready

/-- What one look of the driver finds: nothing, or the end of its command. -/
def look (c : Call α) : State α × Bool :=
  match st.kind with
  | .nvme =>
      match st.cq with
      | [] => (st, false)
      | cid :: rest => ({ st with cq := rest }, decide (cid = c.cid))
  | .ahci => (st, decide (st.pending = []))

/-- A turn of the driver's loop: at the end of its command it returns the status, and
after the last turn it returns -1. -/
def poll (ok ready last : Bool) : State α × List (Answer α) :=
  match st.call with
  | none => (st, [])
  | some c =>
      let (st, found) := st.look c
      if found then if ok then st.finish c ready else st.answer c (-1)
      else if last then st.answer c (-1)
      else (st, [])

/-- `block_read` and `block_write` on a disk, up to the first wait. -/
def begin (write : Bool) (lba : UInt64) (count : UInt32) (buf : Nat → α) (ready : Bool) :
    State α × List (Answer α) :=
  match st.call with
  | some _ => (st, [])
  | none =>
      let c : Call α := ⟨write, lba, count.toNat, buf, lba, 0, count.toNat, 0, fun s => [st.disk s]⟩
      let st := if write then { st with log := st.log ++ [⟨lba, count.toNat, buf⟩] } else st
      match st.bounce with
      | none => st.answer c (-1)
      | some base =>
          if count = 0 ∨ lba + count.toUInt64 > st.sectors ∨ lba + count.toUInt64 < lba then
            st.answer c (-1)
          else st.transfer base c ready

end State

/-- A call begins, the controller moves a sector, the driver looks. -/
inductive Op (α : Type)
  | begin (write : Bool) (lba : UInt64) (count : UInt32) (buf : Nat → α) (ready : Bool)
  | execute (n i : Nat)
  | poll (ok ready last : Bool)

/-- One step. -/
def step (st : State α) : Op α → State α × List (Answer α)
  | .begin write lba count buf ready => st.begin write lba count buf ready
  | .execute n i => (st.execute n i, [])
  | .poll ok ready last => st.poll ok ready last

/-- A disk that is not in use yet.  A sector number of an AHCI command has 48 bits, and
such a disk has no more sectors. -/
structure Start (content : Nat → α) (st : State α) : Prop where
  disk : st.disk = content
  sectors : st.kind = .ahci → st.sectors.toNat ≤ 2 ^ 48
  cq : st.cq = []
  pending : st.pending = []
  call : st.call = none
  log : st.log = []

/-- The machine of a disk with a first content. -/
def machine (content : Nat → α) : Machine (State α) (Op α) (Answer α) where
  start := Start content
  step := step

/-- A content that some `block_write` passed for a sector. -/
def Passed (log : List (Write α)) (s : Nat) (a : α) : Prop :=
  ∃ w ∈ log, ∃ i < w.count, w.first.toNat + i = s ∧ w.buf i = a

end Transfer

end Disk
