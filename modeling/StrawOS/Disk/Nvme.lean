import Mathlib.Data.UInt
import StrawOS.Lib.Machine
import StrawOS.Lib.PhaseRing

/-!
# The queues of an NVMe controller

`nvme_submit` on one pair of queues, and the controller at the other end.  The driver is a
program counter: `nvmeSubmit` is its front up to the submission doorbell, and a `poll` reads
a status or takes an entry.  Between any two of these the controller may fetch the next
command, or complete any command that it has fetched and not completed.

The history numbers the commands from 0 on and keeps what was submitted, fetched and
completed, how many completions the driver has taken, and what each call returned.
-/

namespace Disk.Nvme

def nvmeQueueSize : Nat := 64

structure NvmeCmd where
  cdw0 : UInt32 := 0
  nsid : UInt32 := 0
  prp1 : UInt64 := 0
  prp2 : UInt64 := 0
  cdw10 : UInt32 := 0
  cdw11 : UInt32 := 0
  cdw12 : UInt32 := 0
  deriving DecidableEq

structure NvmeCpl where
  result : UInt32 := 0
  cid : UInt16 := 0
  status : UInt16 := 0

/-- `NvmeQueue`, with the memory and the registers that it points to. -/
structure NvmeQueue where
  sq : Nat → NvmeCmd
  cq : Nat → NvmeCpl
  sqDb : Nat
  cqDb : Nat
  tail : Nat
  head : Nat
  cid : UInt16
  phase : UInt16

def nvmeQueueInit : NvmeQueue where
  sq := fun _ => {}
  cq := fun _ => {}
  sqDb := 0
  cqDb := 0
  tail := 0
  head := 0
  cid := 0
  phase := 1

/-- The identifier in a command. -/
def NvmeCmd.cid (cmd : NvmeCmd) : UInt16 := (cmd.cdw0 >>> 16).toUInt16

/-- A completion: the number of the command, its status, and the entry in the queue. -/
structure Completion where
  cmd : Nat
  status : BitVec 15
  entry : NvmeCpl

/-- The controller's end of the queues. -/
structure Ctrl where
  sqHead : Nat := 0
  cqTail : Nat := 0
  phase : UInt16 := 1
  fetched : List NvmeCmd := []
  completed : List Completion := []

/-- Where `nvme_submit` is: between two calls, before round `i` of its loop, or in it with
a status of the right phase. -/
inductive Pc
  | idle
  | poll (cid : UInt16) (i : Nat)
  | entry (cid : UInt16) (i : Nat) (status : UInt16)
  deriving DecidableEq

structure Sys where
  q : NvmeQueue := nvmeQueueInit
  pc : Pc := .idle
  /-- What `result` points to, if it is not null. -/
  result : Option UInt32 := none
  ctrl : Ctrl := {}
  submitted : List NvmeCmd := []
  taken : Nat := 0
  returned : List (Nat × Int) := []

inductive Event
  | submit (cmd : NvmeCmd) (result : Option UInt32)
  | poll
  | fetch
  | complete (n : Nat) (result : UInt32) (status : BitVec 15)

/-! ## The driver -/

/-- `nvme_submit` up to its loop. -/
def nvmeSubmit (s : Sys) (cmd : NvmeCmd) (result : Option UInt32) : Sys :=
  let cid := s.q.cid
  let cmd := { cmd with cdw0 := (cmd.cdw0 &&& (0xFFFF : UInt32)) ||| (cid.toUInt32 <<< (16 : UInt32)) }
  let tail := (s.q.tail + 1) % nvmeQueueSize
  { s with
    q := { s.q with cid := cid + 1, sq := Function.update s.q.sq s.q.tail cmd, tail, sqDb := tail }
    pc := .poll cid 0
    result
    submitted := s.submitted ++ [cmd] }

/-- The call returns. -/
def Sys.ret (s : Sys) (rc : Int) : Sys :=
  { s with pc := .idle, returned := s.returned ++ [(s.submitted.length - 1, rc)] }

/-- A round of the loop that finds its phase takes the entry. -/
def takeEntry (s : Sys) : Sys :=
  let head := (s.q.head + 1) % nvmeQueueSize
  { s with
    q := { s.q with
      head
      phase := if head = 0 then s.q.phase ^^^ 1 else s.q.phase
      cqDb := head }
    result := s.result.map fun _ => (s.q.cq s.q.head).result
    taken := s.taken + 1 }

/-- The loop of `nvme_submit`. -/
def nvmePoll (s : Sys) : Sys :=
  match s.pc with
  | .idle => s
  | .poll cid i =>
      if i < 20000000 then
        let status := (s.q.cq s.q.head).status
        if status &&& 1 = s.q.phase then { s with pc := .entry cid i status }
        else { s with pc := .poll cid (i + 1) }
      else s.ret (-1)
  | .entry cid i status =>
      let ecid := (s.q.cq s.q.head).cid
      if ecid ≠ cid then { takeEntry s with pc := .poll cid (i + 1) }
      else (takeEntry s).ret (if status >>> 1 ≠ 0 then -1 else 0)

/-! ## The controller -/

/-- The next command, if there is one. -/
def Sys.fetch (s : Sys) : Sys :=
  if s.ctrl.sqHead = s.q.sqDb then s
  else
    { s with ctrl := { s.ctrl with
        sqHead := (s.ctrl.sqHead + 1) % nvmeQueueSize
        fetched := s.ctrl.fetched ++ [s.q.sq s.ctrl.sqHead] } }

/-- An entry goes into the completion queue. -/
def Sys.post (s : Sys) (e : Completion) : Sys :=
  let tail := (s.ctrl.cqTail + 1) % nvmeQueueSize
  { s with
    q := { s.q with cq := Function.update s.q.cq s.ctrl.cqTail e.entry }
    ctrl := { s.ctrl with
      cqTail := tail
      phase := if tail = 0 then s.ctrl.phase ^^^ 1 else s.ctrl.phase
      completed := s.ctrl.completed ++ [e] } }

/-- The completion of a command that has none, while the queue is not full. -/
def Sys.complete (s : Sys) (n : Nat) (result : UInt32) (status : BitVec 15) : Sys :=
  match s.ctrl.fetched[n]? with
  | none => s
  | some cmd =>
      if n ∈ s.ctrl.completed.map Completion.cmd ∨
          (s.ctrl.cqTail + 1) % nvmeQueueSize = s.q.cqDb then s
      else
        s.post ⟨n, status,
          ⟨result, cmd.cid, .ofNat (2 * status.toNat + s.ctrl.phase.toNat)⟩⟩

/-- One step; one call at a time. -/
def step (s : Sys) : Event → Sys
  | .submit cmd result => if s.pc = .idle then nvmeSubmit s cmd result else s
  | .poll => nvmePoll s
  | .fetch => s.fetch
  | .complete n result status => s.complete n result status

/-- The queues and the controller, from `nvme_queue_init` on. -/
def machine : Machine Sys Event Unit where
  start s := s = {}
  step s e := (step s e, [])

/-- The completion of a command has been taken by the driver. -/
def Sys.Settled (s : Sys) (n : Nat) : Prop := n ∈ (s.ctrl.completed.take s.taken).map Completion.cmd

/-- With the command that a call submits, fewer than `NVME_QUEUE_SIZE` are not completed,
and none is outstanding while 65536 others are submitted. -/
def Paced (s : Sys) : Event → Prop
  | .submit _ _ => s.pc = .idle →
      s.submitted.length + 1 < s.ctrl.completed.length + nvmeQueueSize ∧
        ∀ n < s.submitted.length, ¬s.Settled n → s.submitted.length - n < 65536
  | _ => True

/-! ## The submission queue -/

/-- A phase as the bit of an entry. -/
def phaseBit (b : Bool) : UInt16 := if b then 1 else 0

/-- An entry of the set phase. -/
def NvmeCpl.bit (e : NvmeCpl) : Bool := e.status &&& 1 == 1

/-- What the driver and the controller know of the submission queue. -/
structure Submission (q : NvmeQueue) (c : Ctrl) (submitted : List NvmeCmd) : Prop where
  tail : q.tail = submitted.length % nvmeQueueSize
  doorbell : q.sqDb = q.tail
  cid : q.cid.toNat = submitted.length % 65536
  ids : ∀ n cmd, submitted[n]? = some cmd → cmd.cid.toNat = n % 65536
  sqHead : c.sqHead = c.fetched.length % nvmeQueueSize
  front : c.fetched <+: submitted
  room : submitted.length < c.completed.length + nvmeQueueSize
  slots : ∀ n cmd, c.fetched.length ≤ n → submitted[n]? = some cmd → q.sq (n % nvmeQueueSize) = cmd
  done : ∀ e ∈ c.completed, e.cmd < c.fetched.length
  once : (c.completed.map Completion.cmd).Nodup

/-- What they know of the completion queue. -/
structure Posted (q : NvmeQueue) (c : Ctrl) (taken : Nat) : Prop where
  ring : PhaseRing.Holds nvmeQueueSize NvmeCpl.bit q.cq (c.completed.map Completion.entry) taken
  space : c.completed.length < taken + nvmeQueueSize
  head : q.head = taken % nvmeQueueSize
  doorbell : q.cqDb = q.head
  phase : q.phase = phaseBit (PhaseRing.phase nvmeQueueSize taken)
  cqTail : c.cqTail = c.completed.length % nvmeQueueSize
  cqPhase : c.phase = phaseBit (PhaseRing.phase nvmeQueueSize c.completed.length)
  entries : ∀ e ∈ c.completed, e.entry.cid.toNat = e.cmd % 65536 ∧
    (e.entry.status >>> 1 = 0 ↔ e.status = 0)

/-- Each call that returns 0 has its command completed with status 0. -/
def Right (c : Ctrl) (returned : List (Nat × Int)) : Prop :=
  ∀ n, (n, 0) ∈ returned → ∃ e ∈ c.completed, e.cmd = n ∧ e.status = 0

/-- The call at hand waits for the last command, which no other that is outstanding has the
identifier of. -/
structure Waits (s : Sys) (cid : UInt16) : Prop where
  called : 0 < s.submitted.length
  cid : cid.toNat = (s.submitted.length - 1) % 65536
  apart : ∀ n < s.submitted.length - 1, ¬s.Settled n → s.submitted.length - 1 - n < 65536

structure Inv (s : Sys) : Prop where
  submission : Submission s.q s.ctrl s.submitted
  posted : Posted s.q s.ctrl s.taken
  right : Right s.ctrl s.returned
  poll : ∀ cid i, s.pc = .poll cid i → Waits s cid
  entry : ∀ cid i status, s.pc = .entry cid i status → Waits s cid ∧
    ∃ e, s.ctrl.completed[s.taken]? = some e ∧ e.entry.status = status

/-! ## Words -/

/-- The identifier that `nvme_submit` puts into a command. -/
theorem cid_stamp (cmd : NvmeCmd) (cid : UInt16) :
    { cmd with cdw0 := (cmd.cdw0 &&& (0xFFFF : UInt32)) ||| (cid.toUInt32 <<< (16 : UInt32)) }.cid =
      cid := by
  have hmask : ∀ i < 16, (65535#32).getLsbD (i + 16) = false := by decide
  apply UInt16.toBitVec_inj.mp
  ext i hi
  simp [NvmeCmd.cid, hi]
  grind

theorem toNat_statusWord (b : Bool) (status : BitVec 15) :
    (UInt16.ofNat (2 * status.toNat + (phaseBit b).toNat)).toNat =
      2 * status.toNat + b.toNat := by
  cases b <;> simp [phaseBit] <;> omega

theorem bit_eq_iff (e : NvmeCpl) (b : Bool) : e.bit = b ↔ e.status &&& 1 = phaseBit b := by
  have hand : (e.status &&& 1).toNat = e.status.toNat % 2 := by
    simp
  have hzero : e.status &&& 1 = 0 ↔ e.status.toNat % 2 = 0 := by
    rw [← UInt16.toNat_inj, hand]
    rfl
  have hone : e.status &&& 1 = 1 ↔ e.status.toNat % 2 = 1 := by
    rw [← UInt16.toNat_inj, hand]
    rfl
  cases b <;> simp only [NvmeCpl.bit, phaseBit] <;> grind

theorem status_word (b : Bool) (status : BitVec 15) (result : UInt32) (cid : UInt16) :
    let e : NvmeCpl := ⟨result, cid, .ofNat (2 * status.toNat + (phaseBit b).toNat)⟩
    e.bit = b ∧ (e.status >>> 1 = 0 ↔ status = 0) := by
  have hword := toNat_statusWord b status
  generalize UInt16.ofNat (2 * status.toNat + (phaseBit b).toNat) = word at hword ⊢
  constructor
  · rw [bit_eq_iff, ← UInt16.toNat_inj, UInt16.toNat_and, hword]
    cases b <;> simp [phaseBit]
  · have hshift : (word >>> 1).toNat = status.toNat := by
      rw [UInt16.toNat_shiftRight, hword]
      cases b <;> simp [Nat.shiftRight_eq_div_pow]
      omega
    rw [← UInt16.toNat_inj, ← BitVec.toNat_inj, hshift]
    rfl

theorem phaseBit_next (i : Nat) :
    (if (i + 1) % nvmeQueueSize = 0 then phaseBit (PhaseRing.phase nvmeQueueSize i) ^^^ 1
      else phaseBit (PhaseRing.phase nvmeQueueSize i)) =
      phaseBit (PhaseRing.phase nvmeQueueSize (i + 1)) := by
  rw [PhaseRing.phase_succ]
  split
  · cases PhaseRing.phase nvmeQueueSize i <;> rfl
  · rfl

/-! ## The submission of a command -/

variable {s : Sys}

theorem Submission.completed_le {q : NvmeQueue} {c : Ctrl} {submitted : List NvmeCmd}
    (h : Submission q c submitted) : c.completed.length ≤ c.fetched.length := by
  have hsub : c.completed.map Completion.cmd ⊆ List.range c.fetched.length := by
    intro n hn
    obtain ⟨e, he, rfl⟩ := List.mem_map.mp hn
    exact List.mem_range.mpr (h.done e he)
  have hle := (h.once.subperm hsub).length_le
  rwa [List.length_map, List.length_range] at hle

/-- **`nvme_submit` up to its loop.** -/
theorem Inv.submit (h : Inv s) (cmd : NvmeCmd) (result : Option UInt32)
    (hroom : s.submitted.length + 1 < s.ctrl.completed.length + nvmeQueueSize)
    (hapart : ∀ n < s.submitted.length, ¬s.Settled n → s.submitted.length - n < 65536) :
    Inv (nvmeSubmit s cmd result) := by
  obtain ⟨hsub, hpost, hright, -, -⟩ := h
  have hle := hsub.completed_le
  refine ⟨?_, ⟨hpost.ring, hpost.space, hpost.head, hpost.doorbell, hpost.phase, hpost.cqTail,
    hpost.cqPhase, hpost.entries⟩, hright, ?_, ?_⟩
  · constructor
    · simp only [nvmeSubmit, hsub.tail, List.length_append, List.length_singleton, Nat.mod_add_mod]
    · rfl
    · have hcid := hsub.cid
      have hadd : (s.q.cid + 1).toNat = (s.q.cid.toNat + 1) % 65536 := UInt16.toNat_add _ 1
      simp only [nvmeSubmit, List.length_append, List.length_singleton]
      omega
    · intro n c hn
      simp only [nvmeSubmit] at hn
      by_cases hlast : n = s.submitted.length
      · rw [hlast, List.getElem?_concat_length, Option.some.injEq] at hn
        rw [← hn, cid_stamp, hlast]
        exact hsub.cid
      · exact hsub.ids n c (by grind)
    · exact hsub.sqHead
    · exact hsub.front.trans (List.prefix_append _ _)
    · simpa [nvmeSubmit] using hroom
    · intro n c hn hget
      simp only [nvmeSubmit, hsub.tail] at hget ⊢
      by_cases hlast : n = s.submitted.length
      · rw [hlast, List.getElem?_concat_length, Option.some.injEq] at hget
        rw [hlast, Function.update_self, hget]
      · have hlt : n < s.submitted.length := by grind
        have hn' : s.ctrl.fetched.length ≤ n := hn
        have hne := PhaseRing.mod_ne hlt (by omega : s.submitted.length < n + nvmeQueueSize)
        rw [Function.update_of_ne hne]
        exact hsub.slots n c hn (by grind)
    · exact hsub.done
    · exact hsub.once
  · intro cid i hpc
    simp only [nvmeSubmit, Pc.poll.injEq] at hpc
    refine ⟨by simp [nvmeSubmit], ?_, ?_⟩
    · simp only [nvmeSubmit, List.length_append, List.length_singleton, ← hpc.1]
      exact hsub.cid
    · intro n hn hopen
      simp only [nvmeSubmit, List.length_append, List.length_singleton] at hn ⊢
      exact hapart n hn hopen
  · intro cid i status hpc
    simp [nvmeSubmit] at hpc

/-! ## The controller's steps -/

theorem Submission.fetched_eq {q : NvmeQueue} {c : Ctrl} {submitted : List NvmeCmd}
    (h : Submission q c submitted) {n : Nat} {cmd : NvmeCmd} (hn : c.fetched[n]? = some cmd) :
    submitted[n]? = some cmd := by
  obtain ⟨rest, rfl⟩ := h.front
  rw [List.getElem?_append_left (List.getElem?_eq_some_iff.mp hn).1, hn]

/-- Where the controller finds a command, there is one that it has not fetched. -/
theorem Submission.fetched_lt {q : NvmeQueue} {c : Ctrl} {submitted : List NvmeCmd}
    (h : Submission q c submitted) (hne : c.sqHead ≠ q.sqDb) :
    c.fetched.length < submitted.length := by
  have hle := h.front.length_le
  by_contra hge
  have heq : c.fetched.length = submitted.length := by omega
  apply hne
  rw [h.sqHead, h.doorbell, h.tail, heq]

/-- **A fetch.** -/
theorem Inv.fetch (h : Inv s) : Inv s.fetch := by
  rw [Sys.fetch]
  split
  · exact h
  next hne =>
  obtain ⟨hsub, hpost, hright, hpoll, hentry⟩ := h
  have hlt := hsub.fetched_lt hne
  have hget := List.getElem?_eq_getElem hlt
  have hslot : s.q.sq s.ctrl.sqHead = s.submitted[s.ctrl.fetched.length] := by
    rw [hsub.sqHead]
    exact hsub.slots _ _ (Nat.le_refl _) hget
  refine ⟨?_, ⟨hpost.ring, hpost.space, hpost.head, hpost.doorbell, hpost.phase, hpost.cqTail,
    hpost.cqPhase, hpost.entries⟩, hright, fun cid i hpc => ?_, fun cid i status hpc => ?_⟩
  · refine ⟨hsub.tail, hsub.doorbell, hsub.cid, hsub.ids, ?_, ?_, hsub.room, ?_, ?_, hsub.once⟩
    · simp only [hsub.sqHead, List.length_append, List.length_singleton, Nat.mod_add_mod]
    · simp only [hslot]
      exact PhaseRing.prefix_concat hsub.front hlt
    · intro n cmd hn
      simp only [List.length_append, List.length_singleton] at hn
      exact hsub.slots n cmd (by omega)
    · intro e he
      simp only [List.length_append, List.length_singleton]
      exact Nat.lt_succ_of_lt (hsub.done e he)
  · obtain ⟨hsome, hcid, hapart⟩ := hpoll cid i hpc
    exact ⟨hsome, hcid, hapart⟩
  · obtain ⟨⟨hsome, hcid, hapart⟩, he⟩ := hentry cid i status hpc
    exact ⟨⟨hsome, hcid, hapart⟩, he⟩

/-- What the driver waits for does not depend on what is completed behind its back. -/
theorem Waits.post {cid : UInt16} (h : Waits s cid) (hle : s.taken ≤ s.ctrl.completed.length)
    (e : Completion) : Waits (s.post e) cid := by
  obtain ⟨hsome, hcid, hapart⟩ := h
  refine ⟨hsome, hcid, ?_⟩
  intro n hn hopen
  refine hapart n hn ?_
  simpa [Sys.Settled, Sys.post, List.take_append_of_le_length hle] using hopen

theorem Inv.post (h : Inv s) {e : Completion} (hlt : e.cmd < s.ctrl.fetched.length)
    (hnew : e.cmd ∉ s.ctrl.completed.map Completion.cmd)
    (hspace : s.ctrl.completed.length + 1 < s.taken + nvmeQueueSize)
    (hbit : e.entry.bit = PhaseRing.phase nvmeQueueSize s.ctrl.completed.length)
    (hentry : e.entry.cid.toNat = e.cmd % 65536 ∧ (e.entry.status >>> 1 = 0 ↔ e.status = 0)) :
    Inv (s.post e) := by
  obtain ⟨hsub, hpost, hright, hpoll, hgot⟩ := h
  have htaken : s.taken ≤ s.ctrl.completed.length := by
    have := hpost.ring.le
    rwa [List.length_map] at this
  have hring := hpost.ring.write (by rw [List.length_map]; omega)
    (by rw [List.length_map]; exact hbit)
  rw [List.length_map, ← List.map_singleton, ← List.map_append, ← hpost.cqTail] at hring
  refine ⟨?_, ?_, ?_, fun cid i hpc => (hpoll cid i hpc).post htaken e, fun cid i st hpc => ?_⟩
  · refine ⟨hsub.tail, hsub.doorbell, hsub.cid, hsub.ids, hsub.sqHead, hsub.front, ?_, hsub.slots,
      ?_, ?_⟩
    · have := hsub.room
      simp only [Sys.post, List.length_append, List.length_singleton]
      omega
    · intro e' he'
      rcases List.mem_append.mp he' with he' | he'
      · exact hsub.done e' he'
      · rw [List.mem_singleton.mp he']
        exact hlt
    · simp only [Sys.post, List.map_append, List.nodup_append]
      exact ⟨hsub.once, by simp, by grind⟩
  · refine ⟨hring, ?_, hpost.head, hpost.doorbell, hpost.phase, ?_, ?_, ?_⟩
    · simpa [Sys.post] using hspace
    · simp [Sys.post, hpost.cqTail]
    · simp only [Sys.post, hpost.cqTail, hpost.cqPhase, Nat.mod_add_mod, phaseBit_next,
        List.length_append, List.length_singleton]
    · intro e' he'
      rcases List.mem_append.mp he' with he' | he'
      · exact hpost.entries e' he'
      · rw [List.mem_singleton.mp he']
        exact hentry
  · intro n hn
    obtain ⟨e', he', heq⟩ := hright n hn
    exact ⟨e', List.mem_append_left _ he', heq⟩
  · obtain ⟨hwaits, e', he', hst⟩ := hgot cid i st hpc
    refine ⟨hwaits.post htaken e, e', ?_, hst⟩
    have hin := (List.getElem?_eq_some_iff.mp he').1
    simpa [Sys.post, List.getElem?_append_left hin] using he'

/-- **A completion.** -/
theorem Inv.complete (h : Inv s) (n : Nat) (result : UInt32) (status : BitVec 15) :
    Inv (s.complete n result status) := by
  rw [Sys.complete]
  split
  · exact h
  next cmd hcmd =>
  split
  · exact h
  next hfree =>
  have hpost := h.posted
  obtain ⟨hnew, hfull⟩ := not_or.mp hfree
  have hlt : n < s.ctrl.fetched.length := (List.getElem?_eq_some_iff.mp hcmd).1
  have hid : cmd.cid.toNat = n % 65536 :=
    h.submission.ids n cmd (h.submission.fetched_eq hcmd)
  have hspace : s.ctrl.completed.length + 1 < s.taken + nvmeQueueSize := by
    have hlast := hpost.space
    by_contra hge
    have heq : s.ctrl.completed.length + 1 = s.taken + nvmeQueueSize := by omega
    apply hfull
    rw [hpost.cqTail, hpost.doorbell, hpost.head, Nat.mod_add_mod, heq, Nat.add_mod_right]
  obtain ⟨hbit, hstatus⟩ := status_word (PhaseRing.phase nvmeQueueSize s.ctrl.completed.length)
    status result cmd.cid
  rw [← hpost.cqPhase] at hbit hstatus
  exact h.post hlt hnew hspace hbit ⟨hid, hstatus⟩

/-! ## The loop -/

/-- An entry that the driver has not taken settles its command only when it is taken. -/
theorem not_settled (h : (s.ctrl.completed.map Completion.cmd).Nodup) {e : Completion}
    (he : s.ctrl.completed[s.taken]? = some e) : ¬s.Settled e.cmd := by
  intro hset
  obtain ⟨e', he', hcmd⟩ := List.mem_map.mp hset
  obtain ⟨j, hj⟩ := List.mem_iff_getElem?.mp he'
  have hlt : j < s.taken := by
    by_contra hge
    rw [List.getElem?_take, if_neg hge] at hj
    cases hj
  have hj' : s.ctrl.completed[j]? = some e' := by rwa [List.getElem?_take_of_lt hlt] at hj
  refine List.nodup_iff_getElem?_ne_getElem?.mp h j s.taken hlt ?_ ?_
  · rw [List.length_map]
    exact (List.getElem?_eq_some_iff.mp he).1
  · rw [List.getElem?_map, List.getElem?_map, hj', he, Option.map_some, Option.map_some, hcmd]

/-- **An entry with the identifier of the call at hand is the completion of its command.** -/
theorem Waits.own {cid : UInt16} (h : Waits s cid) (hsub : Submission s.q s.ctrl s.submitted)
    {e : Completion} (he : s.ctrl.completed[s.taken]? = some e)
    (hcid : cid.toNat = e.cmd % 65536) : e.cmd = s.submitted.length - 1 := by
  have hlt := hsub.done e (List.mem_of_getElem? he)
  have hle := hsub.front.length_le
  have hown := h.cid
  by_contra hne
  have hnear := h.apart e.cmd (by omega) (not_settled hsub.once he)
  omega

theorem Posted.take (h : Posted s.q s.ctrl s.taken) (hlt : s.taken < s.ctrl.completed.length) :
    Posted (takeEntry s).q s.ctrl (s.taken + 1) := by
  refine ⟨h.ring.read_next (by decide) (by rwa [List.length_map]), ?_, ?_, rfl, ?_, h.cqTail,
    h.cqPhase, h.entries⟩
  · have := h.space
    omega
  · simp only [takeEntry, h.head, Nat.mod_add_mod]
  · simp only [takeEntry, h.head, h.phase, Nat.mod_add_mod, phaseBit_next]

theorem Sys.Settled.take {n : Nat} (h : s.Settled n) : (takeEntry s).Settled n := by
  have hsub : s.ctrl.completed.take s.taken <+: s.ctrl.completed.take (s.taken + 1) :=
    List.take_prefix_take_left (Nat.le_succ _)
  exact (hsub.map Completion.cmd).subset h

theorem Waits.take {cid : UInt16} (h : Waits s cid) : Waits (takeEntry s) cid :=
  ⟨h.called, h.cid, fun n hn hopen => h.apart n hn fun hset => hopen hset.take⟩

theorem Inv.take (h : Inv s) (hlt : s.taken < s.ctrl.completed.length) {pc : Pc}
    {returned : List (Nat × Int)} (hright : Right s.ctrl returned)
    (hpoll : ∀ cid i, pc = .poll cid i → Waits s cid) (hentry : ∀ cid i st, pc ≠ .entry cid i st) :
    Inv { takeEntry s with pc, returned } := by
  obtain ⟨hsub, hpost, -, -, -⟩ := h
  refine ⟨⟨hsub.tail, hsub.doorbell, hsub.cid, hsub.ids, hsub.sqHead, hsub.front, hsub.room,
    hsub.slots, hsub.done, hsub.once⟩, hpost.take hlt, hright, ?_, ?_⟩
  · intro cid i hpc
    obtain ⟨hsome, hcid, hapart⟩ := (hpoll cid i hpc).take
    exact ⟨hsome, hcid, hapart⟩
  · intro cid i st hpc
    exact absurd hpc (hentry cid i st)

theorem Right.append {c : Ctrl} {returned : List (Nat × Int)} (h : Right c returned) {n : Nat}
    {rc : Int} (hrc : rc = 0 → ∃ e ∈ c.completed, e.cmd = n ∧ e.status = 0) :
    Right c (returned ++ [(n, rc)]) := by
  intro m hm
  rcases List.mem_append.mp hm with hm | hm
  · exact h m hm
  · obtain ⟨rfl, rfl⟩ := Prod.mk.inj (List.mem_singleton.mp hm)
    exact hrc rfl

theorem Posted.at_head (h : Posted s.q s.ctrl s.taken) {e : Completion}
    (he : s.ctrl.completed[s.taken]? = some e) : s.q.cq s.q.head = e.entry := by
  have hget : (s.ctrl.completed.map Completion.entry)[s.taken]? = some e.entry := by
    rw [List.getElem?_map, he, Option.map_some]
  rw [h.head]
  exact h.ring.unread s.taken _ (Nat.le_refl _) hget

/-- **The phase tells whether there is a completion that is not taken.** -/
theorem Posted.phase_iff (h : Posted s.q s.ctrl s.taken) :
    (s.q.cq s.q.head).status &&& 1 = s.q.phase ↔ s.taken < s.ctrl.completed.length := by
  have hnew := h.ring.new_iff (by decide)
  rw [List.length_map] at hnew
  rw [h.head, h.phase, ← bit_eq_iff]
  exact hnew

/-- **A step of the loop.** -/
theorem Inv.nvmePoll (h : Inv s) : Inv (nvmePoll s) := by
  unfold Nvme.nvmePoll
  split
  · exact h
  · next cid i hpc =>
    have hwaits := h.poll cid i hpc
    split
    · dsimp only
      split
      · next hphase =>
        have hlt := h.posted.phase_iff.mp hphase
        have hget := List.getElem?_eq_getElem hlt
        refine ⟨h.submission, h.posted, h.right, (by intro _ _ hpc; cases hpc), ?_⟩
        intro cid' i' st hpc'
        obtain ⟨rfl, rfl, rfl⟩ := Pc.entry.inj hpc'
        exact ⟨⟨hwaits.called, hwaits.cid, hwaits.apart⟩, _, hget,
          by rw [h.posted.at_head hget]⟩
      · refine ⟨h.submission, h.posted, h.right, ?_, (by intro _ _ _ hpc; cases hpc)⟩
        intro cid' i' hpc'
        obtain ⟨rfl, rfl⟩ := Pc.poll.inj hpc'
        exact ⟨hwaits.called, hwaits.cid, hwaits.apart⟩
    · -- the time is up
      exact ⟨h.submission, h.posted, h.right.append (by simp), (by intro _ _ hpc; cases hpc),
        (by intro _ _ _ hpc; cases hpc)⟩
  · next cid i status hpc =>
    obtain ⟨hwaits, e, he, hst⟩ := h.entry cid i status hpc
    have hlt : s.taken < s.ctrl.completed.length := (List.getElem?_eq_some_iff.mp he).1
    have hmem : e ∈ s.ctrl.completed := List.mem_of_getElem? he
    obtain ⟨hid, hstatus⟩ := h.posted.entries e hmem
    dsimp only
    rw [h.posted.at_head he]
    split
    · -- the completion of another command
      refine h.take hlt h.right ?_ (by intro _ _ _ hpc; cases hpc)
      intro cid' i' hpc'
      obtain ⟨rfl, rfl⟩ := Pc.poll.inj hpc'
      exact hwaits
    · next hown =>
      have hcid : cid.toNat = e.cmd % 65536 := by grind
      have hcmd := hwaits.own h.submission he hcid
      refine h.take hlt (h.right.append ?_) (by intro _ _ hpc; cases hpc)
        (by intro _ _ _ hpc; cases hpc)
      intro hrc
      refine ⟨e, hmem, hcmd, hstatus.mp ?_⟩
      rw [hst]
      by_contra hbad
      rw [if_pos hbad] at hrc
      cases hrc

/-! ## Runs -/

/-- **Every step keeps the invariant.** -/
theorem Inv.step (h : Inv s) (e : Event) (hpaced : Paced s e) : Inv (step s e) := by
  cases e with
  | submit cmd result =>
    rw [Nvme.step]
    split
    · next hidle => exact h.submit cmd result (hpaced hidle).1 (hpaced hidle).2
    · exact h
  | poll => exact h.nvmePoll
  | fetch => exact h.fetch
  | complete n result status => exact h.complete n result status

theorem Inv.init : Inv {} := by
  refine ⟨?_, ?_, by simp [Right], (by intro _ _ hpc; cases hpc), (by intro _ _ _ hpc; cases hpc)⟩
  · constructor <;> simp [nvmeQueueInit, nvmeQueueSize]
  · refine ⟨PhaseRing.Holds.init (by simp [NvmeCpl.bit, nvmeQueueInit]), ?_, ?_, rfl, ?_, rfl, ?_, ?_⟩ <;>
      simp [nvmeQueueInit, nvmeQueueSize, phaseBit, PhaseRing.phase]

theorem Reachable.inv (h : machine.Reachable Paced s) : Inv s := by
  refine Machine.Reachable.invariant ?_ ?_ h
  · rintro _ rfl
    exact Inv.init
  · intro s e hs hpaced
    exact hs.step e hpaced

end Disk.Nvme
