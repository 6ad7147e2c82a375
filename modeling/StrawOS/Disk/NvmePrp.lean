import StrawOS.Disk.Nvme
import StrawOS.Fat.Io

/-!
# The pages of a transfer

`nvme_io` describes its buffer to the controller page by page: the first entry may start
inside a page, a second page goes into the command itself, and more go into a list that the
command points to.  `prpBytes` is what a controller makes of it.  Addresses are physical
ones, and `virt_to_phys` is a difference, so that the bytes of a buffer follow each other.
-/

namespace Disk.Nvme

def pageSize : Nat := 4096

/-- `NvmeController`, as far as transfers use it: its list of pages, and where that is. -/
structure NvmeController where
  prpList : Nat → UInt64
  prpListPhys : UInt64

/-- The first `n` writes of the loop over the list. -/
def fillPrpList (list : Nat → UInt64) (next : UInt64) : Nat → Nat → UInt64
  | 0 => list
  | n + 1 => Function.update (fillPrpList list next n) n (next + .ofNat (n * pageSize))

/-- `nvme_io`, up to `nvme_submit`. -/
def nvmeIo (c : NvmeController) (nsid : UInt32) (lba : UInt64) (count : UInt32) (phys : UInt64)
    (write : Bool) : NvmeController × NvmeCmd :=
  let bytes := count.toNat * 512
  let pages := (phys.toNat % pageSize + bytes + pageSize - 1) / pageSize
  let cmd : NvmeCmd := { cdw0 := if write then 1 else 2, nsid, prp1 := phys }
  let next := (phys &&& ~~~(0xFFF : UInt64)) + 0x1000
  let (c, cmd) :=
    if pages = 2 then (c, { cmd with prp2 := next })
    else if 2 < pages then
      ({ c with prpList := fillPrpList c.prpList next (pages - 1) },
        { cmd with prp2 := c.prpListPhys })
    else (c, cmd)
  (c, { cmd with
    cdw10 := lba.toUInt32
    cdw11 := (lba >>> 32).toUInt32
    cdw12 := count - 1 })

/-! ## The controller -/

/-- Consecutive addresses. -/
def span (addr : UInt64) (n : Nat) : List UInt64 := (List.range n).map fun j => addr + .ofNat j

/-- The bytes behind an entry that is not the first one, and has no offset in its page. -/
def pageSpan (addr : UInt64) (n : Nat) : List UInt64 :=
  if addr.toNat % pageSize = 0 then span addr n else []

/-- The bytes behind the entries of the list from `i` on: a page each, and the rest of the
transfer on the last. -/
def listBytes (list : Nat → UInt64) (i n : Nat) : List UInt64 :=
  if n ≤ pageSize then pageSpan (list i) n
  else pageSpan (list i) pageSize ++ listBytes list (i + 1) (n - pageSize)
termination_by n
decreasing_by simp only [pageSize] at *; omega

/-- The addresses of a transfer of `n` bytes, in order. The second entry is a page where the
rest fits it, and otherwise the list. -/
def prpBytes (c : NvmeController) (cmd : NvmeCmd) (n : Nat) : List UInt64 :=
  let first := min n (pageSize - cmd.prp1.toNat % pageSize)
  let rest := n - first
  span cmd.prp1 first ++
    if rest ≤ pageSize then pageSpan cmd.prp2 rest
    else if cmd.prp2 = c.prpListPhys then listBytes c.prpList 0 rest
    else []

/-! ## Pages -/

theorem and_not_add_and (x m : UInt64) : (x &&& ~~~m) + (x &&& m) = x := by
  apply UInt64.toBitVec_inj.mp
  have hdisjoint : x.toBitVec &&& ~~~m.toBitVec &&& (x.toBitVec &&& m.toBitVec) = 0#64 := by grind
  have hadd := BitVec.add_eq_or_of_and_eq_zero _ _ hdisjoint
  rw [UInt64.toBitVec_add, UInt64.toBitVec_and, UInt64.toBitVec_and, UInt64.toBitVec_not, hadd]
  grind

theorem and_page (x : UInt64) : x &&& 0xFFF = .ofNat (x.toNat % pageSize) := by
  apply UInt64.toNat_inj.mp
  have hand : (x &&& 0xFFF).toNat = x.toNat % 2 ^ 12 := by
    exact Nat.and_two_pow_sub_one_eq_mod x.toNat 12
  rw [hand, UInt64.toNat_ofNat']
  simp only [pageSize]
  omega

theorem next_page (x : UInt64) :
    (x &&& ~~~(0xFFF : UInt64)) + 0x1000 = x + .ofNat (pageSize - x.toNat % pageSize) := by
  have hlt : x.toNat % pageSize < pageSize := Nat.mod_lt _ (by decide)
  have hsum := and_not_add_and x 0xFFF
  have hback : UInt64.ofNat (pageSize - x.toNat % pageSize) + .ofNat (x.toNat % pageSize) =
      0x1000 := by
    rw [← UInt64.ofNat_add, Nat.sub_add_cancel hlt.le]
    rfl
  rw [and_page] at hsum
  grind

theorem page_aligned (x : UInt64) (i : Nat) :
    (x + .ofNat (pageSize - x.toNat % pageSize) + .ofNat (i * pageSize)).toNat % pageSize = 0 := by
  rw [UInt64.toNat_add, UInt64.toNat_add, UInt64.toNat_ofNat', UInt64.toNat_ofNat']
  simp only [pageSize]
  omega

/-! ## Addresses -/

@[simp] theorem span_zero (addr : UInt64) : span addr 0 = [] := rfl

theorem span_append (addr : UInt64) (m n : Nat) :
    span addr (m + n) = span addr m ++ span (addr + .ofNat m) n := by
  simp only [span, List.range_add, List.map_append, List.map_map, List.append_cancel_left_eq]
  apply List.map_congr_left
  intro j _
  simp only [Function.comp_apply, UInt64.ofNat_add, UInt64.add_assoc]

theorem fillPrpList_eq (list : Nat → UInt64) (next : UInt64) (n i : Nat) :
    fillPrpList list next n i = if i < n then next + .ofNat (i * pageSize) else list i := by
  induction n with
  | zero => simp [fillPrpList]
  | succ n ih =>
    rw [fillPrpList, Function.update_apply, ih]
    grind

theorem listBytes_consecutive {list : Nat → UInt64} {next : UInt64} {m i n : Nat}
    (hlist : ∀ j < m, list j = next + .ofNat (j * pageSize))
    (halign : ∀ j, (next + .ofNat (j * pageSize)).toNat % pageSize = 0) (hpos : 0 < n)
    (hm : i + (n + pageSize - 1) / pageSize ≤ m) :
    listBytes list i n = span (next + .ofNat (i * pageSize)) n := by
  induction i, n using listBytes.induct with
  | case1 i n hle =>
    have hone : (n + pageSize - 1) / pageSize = 1 := by
      simp only [pageSize] at *
      omega
    rw [listBytes, if_pos hle, hlist i (by omega), pageSpan, if_pos (halign i)]
  | case2 i n hgt ih =>
    have hdiv : (n + pageSize - 1) / pageSize = (n - pageSize + pageSize - 1) / pageSize + 1 := by
      simp only [pageSize] at *
      omega
    rw [hdiv, ← Nat.add_assoc] at hm
    have hi : i < m := Nat.lt_of_lt_of_le (Nat.lt_succ_of_le (Nat.le_add_right i _)) hm
    rw [listBytes, if_neg hgt, hlist i hi, ih (by omega) (by omega), pageSpan, if_pos (halign i)]
    have hn : n = pageSize + (n - pageSize) := by omega
    have haddr : next + .ofNat ((i + 1) * pageSize) =
        next + .ofNat (i * pageSize) + .ofNat pageSize := by
      rw [UInt64.add_assoc, ← UInt64.ofNat_add, Nat.succ_mul]
    rw [haddr, ← span_append, ← hn]

/-- **The entries of `nvme_io` cover the buffer**, and the loop stays inside its page. -/
theorem nvmeIo_covers (c : NvmeController) (nsid : UInt32) (lba : UInt64) {count : UInt32}
    (hcount : count.toNat ≤ 128) (phys : UInt64) (write : Bool) :
    prpBytes (nvmeIo c nsid lba count phys write).1 (nvmeIo c nsid lba count phys write).2
        (count.toNat * 512) = span phys (count.toNat * 512) ∧
      ∀ i, (nvmeIo c nsid lba count phys write).1.prpList i ≠ c.prpList i → i * 8 + 8 ≤ pageSize := by
  have hoff : phys.toNat % pageSize < pageSize := Nat.mod_lt _ (by decide)
  have halign := page_aligned phys
  have hnext := next_page phys
  obtain ⟨bytes, hbytes⟩ : ∃ n, n = count.toNat * 512 := ⟨_, rfl⟩
  generalize hoffset : phys.toNat % pageSize = off at hoff hnext halign
  simp only [nvmeIo, hoffset, ← hbytes]
  by_cases hone : off + bytes ≤ pageSize
  · -- the rest of the first page is enough
    have hpages : (off + bytes + pageSize - 1) / pageSize ≤ 1 := by
      simp only [pageSize] at *
      omega
    have hfirst : min bytes (pageSize - off) = bytes := by omega
    rw [if_neg (by omega), if_neg (by omega)]
    refine ⟨?_, by simp⟩
    simp only [prpBytes, hoffset, hfirst, Nat.sub_self, Nat.zero_le, if_true, pageSpan, span_zero,
      ite_self, List.append_nil]
  have hfirst : min bytes (pageSize - off) = pageSize - off := by omega
  have hsum : span phys (pageSize - off) ++
      span (phys + .ofNat (pageSize - off)) (bytes - (pageSize - off)) = span phys bytes := by
    rw [← span_append]
    congr 1
    omega
  by_cases htwo : (off + bytes + pageSize - 1) / pageSize = 2
  · -- the second page is in the command
    have hrest : bytes - (pageSize - off) ≤ pageSize := by
      simp only [pageSize] at *
      omega
    have haligned : (phys + .ofNat (pageSize - off)).toNat % pageSize = 0 := by
      simpa using halign 0
    simp only [htwo, if_true]
    refine ⟨?_, by simp⟩
    simp only [prpBytes, hoffset, hfirst, hrest, if_true, hnext, pageSpan, haligned]
    exact hsum
  · -- the others are in the list
    have hmany : 2 < (off + bytes + pageSize - 1) / pageSize := by
      simp only [pageSize] at *
      omega
    have hrest : ¬bytes - (pageSize - off) ≤ pageSize := by
      simp only [pageSize] at *
      omega
    simp only [htwo, hmany, if_true, if_false, hnext]
    constructor
    · have hlist := @listBytes_consecutive _ _ _ 0 (bytes - (pageSize - off))
        (fun j hj => (fillPrpList_eq c.prpList (phys + .ofNat (pageSize - off)) _ j).trans
          (if_pos hj)) halign (by omega)
        (by simp only [pageSize] at *; omega :
          0 + (bytes - (pageSize - off) + pageSize - 1) / pageSize ≤
            (off + bytes + pageSize - 1) / pageSize - 1)
      simp only [prpBytes, hoffset, hfirst, hrest, if_true, if_false, hlist]
      simpa using hsum
    · intro i hi
      rw [fillPrpList_eq] at hi
      have hlt : i < (off + bytes + pageSize - 1) / pageSize - 1 := by
        by_contra hge
        exact hi (if_neg hge)
      simp only [pageSize] at *
      omega

/-! ## Commands and completions -/

/-- **NVMe commands.**  In every run whose submissions are paced, a call returns 0 only if the
controller has fetched its command as it was submitted and completed it with status 0, and the
head and the phase designate the next completion that is not taken: the phase tells whether
there is one, and if so it is in the slot at the head.  And the entries of every transfer cover
the bytes of its buffer. -/
theorem nvme_commands_complete :
    (∀ s : Sys, machine.Reachable Paced s →
      (∀ n, (n, 0) ∈ s.returned →
        (∃ e ∈ s.ctrl.completed, e.cmd = n ∧ e.status = 0) ∧
          ∃ cmd, s.submitted[n]? = some cmd ∧ s.ctrl.fetched[n]? = some cmd) ∧
      s.q.head = s.taken % nvmeQueueSize ∧
      ((s.q.cq s.q.head).status &&& 1 = s.q.phase ↔ s.taken < s.ctrl.completed.length) ∧
      ∀ e, s.ctrl.completed[s.taken]? = some e → s.q.cq s.q.head = e.entry) ∧
    ∀ (c : NvmeController) (nsid : UInt32) (lba : UInt64) (count : UInt32) (phys : UInt64)
      (write : Bool), count.toNat ≤ 128 →
      prpBytes (nvmeIo c nsid lba count phys write).1 (nvmeIo c nsid lba count phys write).2
          (count.toNat * 512) = span phys (count.toNat * 512) ∧
        ∀ i, (nvmeIo c nsid lba count phys write).1.prpList i ≠ c.prpList i →
          i * 8 + 8 ≤ pageSize := by
  constructor
  · intro s hs
    have h := Reachable.inv hs
    refine ⟨?_, h.posted.head, h.posted.phase_iff, fun e he => h.posted.at_head he⟩
    intro n hn
    obtain ⟨e, he, rfl, hstatus⟩ := h.right n hn
    have hget := List.getElem?_eq_getElem (h.submission.done e he)
    exact ⟨⟨e, he, rfl, hstatus⟩, _, h.submission.fetched_eq hget, hget⟩
  · intro c nsid lba count phys write hcount
    exact nvmeIo_covers c nsid lba hcount phys write

/-- A read that is fetched, completed and returned. -/
def readOps : List Event :=
  [.submit (nvmeIo ⟨fun _ => 0, 0x5000⟩ 1 8 64 0x7E00 false).2 none, .fetch, .complete 0 0 0, .poll,
    .poll]

theorem readOps_returns :
    (machine.run {} readOps).returned = [(0, 0)] ∧
      (∃ e ∈ (machine.run {} readOps).ctrl.completed, e.cmd = 0 ∧ e.status = 0) ∧
      prpBytes (nvmeIo ⟨fun _ => 0, 0x5000⟩ 1 8 64 0x7E00 false).1
          (nvmeIo ⟨fun _ => 0, 0x5000⟩ 1 8 64 0x7E00 false).2 32768 = span 0x7E00 32768 := by
  have hreach : machine.Reachable Paced (machine.run {} readOps) := by
    refine Machine.Reachable.run (.start rfl) _ ?_
    refine Machine.guarded_cons.mpr ⟨fun _ => ⟨by decide, by simp⟩, ?_⟩
    refine Machine.guarded_cons.mpr ⟨trivial, Machine.guarded_cons.mpr ⟨trivial,
      Machine.guarded_cons.mpr ⟨trivial, Machine.guarded_cons.mpr ⟨trivial, ?_⟩⟩⟩⟩
    exact Machine.guarded_nil
  have hret : (machine.run {} readOps).returned = [(0, 0)] := by decide
  have hmem : (0, 0) ∈ (machine.run {} readOps).returned := by
    rw [hret]
    exact List.mem_singleton_self _
  have hright := ((nvme_commands_complete.1 _ hreach).1 0 hmem).1
  exact ⟨hret, hright, (nvme_commands_complete.2 ⟨fun _ => 0, 0x5000⟩ 1 8 64 0x7E00 false
    (by decide)).1⟩

end Disk.Nvme
