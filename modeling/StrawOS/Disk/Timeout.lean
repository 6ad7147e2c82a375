import StrawOS.Disk.Transfer

/-!
# Commands that come late

A driver that has given up leaves its command with the controller, and the next call
reuses the bounce buffer.  If the command is executed after that, it moves the bytes of
the other call.  Where every call begins with no command left, at most one command is
with the controller at a time, and the bounce buffer holds its data from the submission
to the last sector.
-/

namespace Disk

namespace Transfer

variable {α : Type} {content : Nat → α} {st : State α} {c : Call α}

/-! ## Places -/

theorem place_prp {prpList : Nat → Nat} {b i : Nat} {prp2 : Prp2}
    (h : pageOf prpList b prp2 (i / pageSectors) = b + i / pageSectors) :
    place prpList (.prp b prp2) i = b * pageSectors + i := by
  rw [place, h]
  simp only [pageSectors]
  omega

/-- `nvme_io` describes the bounce buffer. -/
theorem nvmeIo_place (st : State α) (b : Nat) (lba : UInt64) {n i : Nat} (write : Bool) (hi : i < n) :
    place (st.nvmeIo b lba n write).1.prpList (st.nvmeIo b lba n write).2.data i =
      b * pageSectors + i := by
  have hpages : i / pageSectors < (n + pageSectors - 1) / pageSectors := by
    simp only [pageSectors]
    omega
  unfold State.nvmeIo
  dsimp only
  split
  · rename_i htwo
    refine place_prp ?_
    rw [htwo] at hpages
    interval_cases i / pageSectors <;> rfl
  split
  · refine place_prp ?_
    cases hj : i / pageSectors with
    | zero => rfl
    | succ j =>
      have hlt : j < (n + pageSectors - 1) / pageSectors - 1 := by omega
      simp only [pageOf, hlt, if_true]
      omega
  · refine place_prp ?_
    have hone : (n + pageSectors - 1) / pageSectors ≤ 1 := by omega
    rw [Nat.lt_one_iff.mp (Nat.lt_of_lt_of_le hpages hone)]
    rfl

theorem nvmeIo_cmd (st : State α) (b : Nat) (lba : UInt64) (n : Nat) (write : Bool) :
    (st.nvmeIo b lba n write).2.write = write ∧ (st.nvmeIo b lba n write).2.lba = lba.toNat ∧
      (st.nvmeIo b lba n write).2.count = n := by
  unfold State.nvmeIo
  dsimp only
  split
  · exact ⟨rfl, rfl, rfl⟩
  split
  · exact ⟨rfl, rfl, rfl⟩
  · exact ⟨rfl, rfl, rfl⟩

/-- `nvme_io` writes nothing but the list. -/
theorem nvmeIo_state (st : State α) (b : Nat) (lba : UInt64) (n : Nat) (write : Bool) :
    (st.nvmeIo b lba n write).1 = { st with prpList := (st.nvmeIo b lba n write).1.prpList } := by
  unfold State.nvmeIo
  dsimp only
  split
  · rfl
  split
  · rfl
  · rfl

/-! ## The invariant -/

/-- The command finds its data in the bounce buffer. -/
structure Fits (st : State α) (b : Nat) (p : Pending) : Prop where
  place : ∀ i ∈ p.left, place st.prpList p.cmd.data i = b * pageSectors + i
  data : p.cmd.write = true → ∀ i ∈ p.left,
    Passed st.log (p.cmd.lba + i) (st.mem (b * pageSectors + i))

/-- A call and its buffer. -/
structure Sane (st : State α) (c : Call α) : Prop where
  inside : c.first.toNat + c.count ≤ st.sectors.toNat
  lba : c.lba.toNat = c.first.toNat + c.moved
  sum : c.moved + c.left = c.count
  more : 0 < c.left
  passed : c.write = true → ∀ i < c.count, Passed st.log (c.first.toNat + i) (c.buf i)
  read : c.write = false → ∀ i < c.moved, c.buf i ∈ c.held (c.first.toNat + i)
  held : ∀ s, st.disk s ∈ c.held s

/-- The sectors of the command that a call waits for. -/
def Call.chunk (c : Call α) : Nat := min c.left Fat.blockMaxTransfer

/-- A sector that a read command has moved. -/
def Arrived (st : State α) (b : Nat) (c : Call α) (i : Nat) : Prop :=
  c.write = false → st.mem (b * pageSectors + i) ∈ c.held (c.lba.toNat + i)

/-- The command of a call is with the controller. -/
structure Out (st : State α) (b : Nat) (c : Call α) (p : Pending) : Prop where
  pending : st.pending = [p]
  cid : p.cid = c.cid
  write : p.cmd.write = c.write
  lba : p.cmd.lba = c.lba.toNat
  cq : st.cq = [] ∨ st.cq = [c.cid - 1]
  arrived : ∀ i < c.chunk, i ∉ p.left → Arrived st b c i

/-- The command of a call is executed, and the driver has not seen it. -/
structure Back (st : State α) (b : Nat) (c : Call α) : Prop where
  pending : st.pending = []
  cq : st.kind = .nvme → st.cq = [c.cid] ∨ st.cq = [c.cid - 1, c.cid]
  arrived : ∀ i < c.chunk, Arrived st b c i

/-- What holds between two steps. -/
structure Inv (content : Nat → α) (st : State α) : Prop where
  sectors : st.kind = .ahci → st.sectors.toNat ≤ 2 ^ 48
  disk : ∀ s, st.disk s = content s ∨ Passed st.log s (st.disk s)
  quiet : st.kind = .ahci → st.cq = []
  fits : ∀ p ∈ st.pending, ∃ b, st.bounce = some b ∧ Fits st b p
  idle : st.call = none → (st.cq = [] ∧ ∃ p, st.pending = [p] ∧ p.cid = st.cid - 1) ∨
    (st.pending = [] ∧ (st.cq = [] ∨ st.cq = [st.cid - 1]))
  busy : ∀ c, st.call = some c → ∃ b, st.bounce = some b ∧ Sane st c ∧ c.cid = st.cid - 1 ∧
    ((∃ p, Out st b c p) ∨ Back st b c)

/-- A read that returns 0 delivers what the sectors held during the call. -/
def Delivered (a : Answer α) : Prop :=
  a.rc = 0 → a.call.write = false →
    ∀ i < a.call.count, a.call.buf i ∈ a.call.held (a.call.first.toNat + i)

/-- A step keeps the invariant and delivers. -/
def Keeps (content : Nat → α) (next : State α × List (Answer α)) : Prop :=
  Inv content next.1 ∧ ∀ a ∈ next.2, Delivered a

/-! ## A command goes out -/

/-- No command is with the controller. -/
structure Still (content : Nat → α) (st : State α) : Prop where
  sectors : st.kind = .ahci → st.sectors.toNat ≤ 2 ^ 48
  disk : ∀ s, st.disk s = content s ∨ Passed st.log s (st.disk s)
  quiet : st.kind = .ahci → st.cq = []
  pending : st.pending = []
  cq : st.cq = [] ∨ st.cq = [st.cid - 1]

/-- A call is about to use the bounce buffer. -/
structure Fresh (content : Nat → α) (st : State α) (b : Nat) (c : Call α) : Prop where
  still : Still content st
  bounce : st.bounce = some b
  sane : Sane st c

theorem Still.answer (h : Still content st) (c : Call α) (rc : Int) (hrc : Delivered ⟨c, rc⟩) :
    Keeps content (st.answer c rc) := by
  refine ⟨⟨h.sectors, h.disk, h.quiet, ?_, ?_, ?_⟩, ?_⟩
  · intro p hp
    have hp' : p ∈ st.pending := hp
    rw [h.pending] at hp'
    cases hp'
  · intro _
    exact Or.inr ⟨h.pending, h.cq⟩
  · intro c hc
    cases hc
  · intro a ha
    rw [List.mem_singleton.mp ha]
    exact hrc

theorem delivered_error (c : Call α) : Delivered ⟨c, -1⟩ := by
  intro hrc
  cases hrc

/-- A command that describes the bounce buffer goes to the controller. -/
theorem Fresh.post {b : Nat} (h : Fresh content st b c) {cmd : Cmd} (hwrite : cmd.write = c.write)
    (hlba : cmd.lba = c.lba.toNat) (hcount : cmd.count = c.chunk)
    (hplace : ∀ i < c.chunk, place st.prpList cmd.data i = b * pageSectors + i)
    (hdata : c.write = true → ∀ i < c.chunk, st.mem (b * pageSectors + i) = c.buf (c.moved + i)) :
    Inv content (st.post c cmd) := by
  have hlast : st.cid + 1 - 1 = st.cid := UInt16.add_sub_cancel _ _
  have hchunk : c.chunk ≤ c.left := Nat.min_le_left _ _
  refine ⟨h.still.sectors, h.still.disk, h.still.quiet, ?_, ?_, ?_⟩
  · intro p hp
    have hp' : p ∈ st.pending ++ [⟨cmd, st.cid, List.range cmd.count⟩] := hp
    rw [h.still.pending, List.nil_append, List.mem_singleton] at hp'
    refine ⟨b, h.bounce, ?_, ?_⟩
    · intro i hi
      rw [hp', List.mem_range, hcount] at hi
      rw [hp']
      exact hplace i hi
    · intro hw i hi
      rw [hp', List.mem_range, hcount] at hi
      rw [hp', hwrite] at hw
      rw [hp', hlba, h.sane.lba]
      show Passed st.log (c.first.toNat + c.moved + i) (st.mem (b * pageSectors + i))
      rw [hdata hw i hi, Nat.add_assoc]
      refine h.sane.passed hw _ ?_
      have hsum := h.sane.sum
      omega
  · intro hnone
    cases hnone
  · intro c' hc'
    obtain rfl : { c with cid := st.cid } = c' := Option.some.inj hc'
    refine ⟨b, h.bounce, ⟨h.sane.inside, h.sane.lba, h.sane.sum, h.sane.more, h.sane.passed,
      h.sane.read, h.sane.held⟩, hlast.symm, Or.inl ⟨⟨cmd, st.cid, List.range cmd.count⟩, ?_⟩⟩
    refine ⟨?_, rfl, hwrite, hlba, h.still.cq, ?_⟩
    · show st.pending ++ _ = _
      rw [h.still.pending, List.nil_append]
    · intro i hi hout
      exact absurd (List.mem_range.mpr (hcount ▸ hi)) hout

/-- One turn of the loop of `block_root_io` up to the wait. -/
theorem Fresh.transfer {b : Nat} (h : Fresh content st b c) (ready : Bool) :
    Keeps content (st.transfer b c ready) := by
  unfold State.transfer
  dsimp only
  -- the bytes to write are in the bounce buffer
  obtain ⟨st', hst', hfresh, hdata⟩ : ∃ st', (if c.write then
      { st with mem := fun a => if b * pageSectors ≤ a ∧
          a < b * pageSectors + min c.left Fat.blockMaxTransfer then
            c.buf (c.moved + (a - b * pageSectors)) else st.mem a }
      else st) = st' ∧ Fresh content st' b c ∧
      (c.write = true → ∀ i < c.chunk, st'.mem (b * pageSectors + i) = c.buf (c.moved + i)) := by
    refine ⟨_, rfl, ?_, ?_⟩
    · split
      · exact ⟨⟨h.still.sectors, h.still.disk, h.still.quiet, h.still.pending, h.still.cq⟩, h.bounce,
          h.sane.inside, h.sane.lba, h.sane.sum, h.sane.more, h.sane.passed, h.sane.read, h.sane.held⟩
      · exact h
    · intro hw i hi
      have hin : b * pageSectors ≤ b * pageSectors + i ∧
          b * pageSectors + i < b * pageSectors + min c.left Fat.blockMaxTransfer :=
        ⟨Nat.le_add_right _ _, Nat.add_lt_add_left hi _⟩
      simp only [hw, if_true, if_pos hin, Nat.add_sub_cancel_left]
  rw [hst']
  cases hkind : st'.kind with
  | nvme =>
    obtain ⟨hwrite, hlba, hcount⟩ := nvmeIo_cmd st' b c.lba c.chunk c.write
    have hplace := fun i (hi : i < c.chunk) => nvmeIo_place st' b c.lba c.write hi
    have hstate := nvmeIo_state st' b c.lba c.chunk c.write
    change Keeps content (State.post (st'.nvmeIo b c.lba c.chunk c.write).1 c
      (st'.nvmeIo b c.lba c.chunk c.write).2, [])
    refine ⟨Fresh.post ?_ hwrite hlba hcount hplace ?_, by simp⟩
    · rw [hstate]
      exact ⟨⟨hfresh.still.sectors, hfresh.still.disk, hfresh.still.quiet, hfresh.still.pending,
        hfresh.still.cq⟩, hfresh.bounce, hfresh.sane.inside, hfresh.sane.lba, hfresh.sane.sum, hfresh.sane.more,
        hfresh.sane.passed, hfresh.sane.read, hfresh.sane.held⟩
    · rw [hstate]
      exact hdata
  | ahci =>
    dsimp only
    split
    · refine ⟨Fresh.post hfresh rfl ?_ ?_ (fun _ _ => rfl) hdata, by simp⟩
      · have hsize := hfresh.still.sectors hkind
        have hin := hfresh.sane.inside
        have hat := hfresh.sane.lba
        have hsum := hfresh.sane.sum
        have hmore := hfresh.sane.more
        exact Nat.mod_eq_of_lt (by omega)
      · refine Nat.mod_eq_of_lt ?_
        simp only [Fat.blockMaxTransfer]
        omega
    · exact hfresh.still.answer c (-1) (delivered_error c)

/-! ## The controller moves a sector -/

theorem Inv.pending_cases (h : Inv content st) : st.pending = [] ∨ ∃ p, st.pending = [p] := by
  cases hcall : st.call with
  | none =>
    rcases h.idle hcall with ⟨-, p, hp, -⟩ | ⟨hnone, -⟩
    · exact Or.inr ⟨p, hp⟩
    · exact Or.inl hnone
  | some c =>
    obtain ⟨b, -, -, -, ⟨p, hout⟩ | hback⟩ := h.busy c hcall
    · exact Or.inr ⟨p, hout.pending⟩
    · exact Or.inl hback.pending

/-- A call while the disk takes new contents: what it has held grows. -/
def Call.hold (c : Call α) (s : Nat) (a : α) : Call α :=
  { c with held := Function.update c.held s (a :: c.held s) }

theorem Call.mem_hold {c : Call α} {s s' : Nat} {a x : α} (h : x ∈ c.held s') :
    x ∈ (c.hold s a).held s' := by
  show x ∈ Function.update c.held s (a :: c.held s) s'
  by_cases hs : s' = s
  · rw [hs] at h ⊢
    rw [Function.update_self]
    exact List.mem_cons_of_mem _ h
  · rw [Function.update_of_ne hs]
    exact h

theorem Sane.store (h : Sane st c) (s : Nat) (a : α) : Sane (st.store s a) (c.hold s a) := by
  refine ⟨h.inside, h.lba, h.sum, h.more, h.passed, ?_, ?_⟩
  · intro hr i hi
    exact Call.mem_hold (h.read hr i hi)
  · intro s'
    show Function.update st.disk s a s' ∈ Function.update c.held s (a :: c.held s) s'
    by_cases hs : s' = s
    · rw [hs, Function.update_self, Function.update_self]
      exact List.mem_cons_self
    · rw [Function.update_of_ne hs, Function.update_of_ne hs]
      exact h.held s'

theorem moveSector_same (st : State α) (cmd : Cmd) (i : Nat) :
    (st.moveSector cmd i).kind = st.kind ∧ (st.moveSector cmd i).sectors = st.sectors ∧
      (st.moveSector cmd i).bounce = st.bounce ∧ (st.moveSector cmd i).prpList = st.prpList ∧
      (st.moveSector cmd i).cid = st.cid ∧ (st.moveSector cmd i).cq = st.cq ∧
      (st.moveSector cmd i).pending = st.pending ∧ (st.moveSector cmd i).log = st.log := by
  unfold State.moveSector
  split
  · exact ⟨rfl, rfl, rfl, rfl, rfl, rfl, rfl, rfl⟩
  · exact ⟨rfl, rfl, rfl, rfl, rfl, rfl, rfl, rfl⟩

section Move

variable {b i : Nat} {p : Pending}

/-- The disk after the move: a sector that is written gets what was passed for it. -/
theorem Fits.move_disk (hfits : Fits st b p) (hi : i ∈ p.left)
    (hdisk : ∀ s, st.disk s = content s ∨ Passed st.log s (st.disk s)) (s : Nat) :
    (st.moveSector p.cmd i).disk s = content s ∨
      Passed st.log s ((st.moveSector p.cmd i).disk s) := by
  unfold State.moveSector
  split
  · rename_i hw
    rw [hfits.place i hi]
    show Function.update st.disk _ _ s = _ ∨ Passed st.log s (Function.update st.disk _ _ s)
    by_cases hs : s = p.cmd.lba + i
    · rw [hs, Function.update_self]
      exact Or.inr (hfits.data hw i hi)
    · rw [Function.update_of_ne hs]
      exact hdisk s
  · exact hdisk s

theorem Fits.move (hfits : Fits st b p) (left : List Nat) (hleft : ∀ j ∈ left, j ∈ p.left) :
    Fits (st.moveSector p.cmd i) b { p with left := left } := by
  obtain ⟨-, -, -, hlist, -, -, -, hlog⟩ := moveSector_same st p.cmd i
  refine ⟨?_, ?_⟩
  · intro j hj
    rw [hlist]
    exact hfits.place j (hleft j hj)
  · intro hw j hj
    rw [hlog]
    have hmem : (st.moveSector p.cmd i).mem = st.mem := by
      unfold State.moveSector
      rw [if_pos hw]
      rfl
    rw [hmem]
    exact hfits.data hw j (hleft j hj)

theorem Out.move (hout : Out st b c p) (hsane : Sane st c) (hfits : Fits st b p) (hi : i ∈ p.left)
    (hcall : st.call = some c) :
    ∃ c', (st.moveSector p.cmd i).call = some c' ∧ Sane (st.moveSector p.cmd i) c' ∧
      c'.cid = c.cid ∧ c'.write = c.write ∧ c'.lba = c.lba ∧ c'.chunk = c.chunk ∧
      ∀ j, (j = i ∨ Arrived st b c j) → Arrived (st.moveSector p.cmd i) b c' j := by
  unfold State.moveSector
  rw [hfits.place i hi]
  split
  · rename_i hw
    refine ⟨c.hold (p.cmd.lba + i) (st.mem (b * pageSectors + i)), ?_, hsane.store _ _, rfl, rfl, rfl,
      rfl, ?_⟩
    · show Option.map _ st.call = _
      rw [hcall]
      rfl
    · intro j _ hr
      have hread : c.write = false := hr
      rw [← hout.write, hw] at hread
      cases hread
  · refine ⟨c, hcall, ⟨hsane.inside, hsane.lba, hsane.sum, hsane.more, hsane.passed, hsane.read,
      hsane.held⟩, rfl, rfl, rfl, rfl, ?_⟩
    intro j hj hr
    show Function.update st.mem (b * pageSectors + i) (st.disk (p.cmd.lba + i)) (b * pageSectors + j) ∈ _
    by_cases hji : j = i
    · rw [hji, Function.update_self, hout.lba]
      exact hsane.held _
    · have hne : b * pageSectors + j ≠ b * pageSectors + i := by omega
      rw [Function.update_of_ne hne]
      exact hj.resolve_left hji hr

theorem moveSector_call_none (st : State α) (cmd : Cmd) (i : Nat) :
    (st.moveSector cmd i).call = none ↔ st.call = none := by
  unfold State.moveSector
  split
  · exact Option.map_eq_none_iff
  · rfl

theorem mem_erase_cases {left : List Nat} {i j : Nat} (h : j ∉ left.erase i) : j = i ∨ j ∉ left := by
  by_contra hno
  rw [not_or, not_not] at hno
  exact h ((List.mem_erase_of_ne hno.1).mpr hno.2)

/-- The call that waits for the command, after a sector of it has moved. -/
theorem Inv.move_busy (h : Inv content st) (hp : st.pending = [p]) (hi : i ∈ p.left) {c' : Call α}
    (hc' : (st.moveSector p.cmd i).call = some c') :
    ∃ b c, st.bounce = some b ∧ Out st b c p ∧ Sane (st.moveSector p.cmd i) c' ∧
      c'.cid = st.cid - 1 ∧ c'.cid = c.cid ∧ c'.write = c.write ∧ c'.lba = c.lba ∧
      ∀ j < c'.chunk, j ∉ p.left.erase i → Arrived (st.moveSector p.cmd i) b c' j := by
  cases hcall : st.call with
  | none =>
    rw [(moveSector_call_none st p.cmd i).mpr hcall] at hc'
    cases hc'
  | some c =>
    obtain ⟨b, hb, hfits⟩ := h.fits p (hp ▸ List.mem_singleton_self p)
    obtain ⟨b', hb', hsane, hccid, ⟨q, hout⟩ | hback⟩ := h.busy c hcall
    · obtain rfl : p = q := by simpa [hp] using hout.pending
      obtain rfl : b = b' := by simpa [hb] using hb'
      obtain ⟨c'', hc'', hsane', hcid, hwrite, hlba, hchunk, harrived⟩ :=
        hout.move hsane hfits hi hcall
      obtain rfl : c'' = c' := by
        rw [hc''] at hc'
        exact Option.some.inj hc'
      refine ⟨b, c, hb, hout, hsane', hcid.trans hccid, hcid, hwrite, hlba, ?_⟩
      intro j hj hnot
      refine harrived j ?_
      rw [hchunk] at hj
      rcases mem_erase_cases hnot with hji | hgone
      · exact Or.inl hji
      · exact Or.inr (hout.arrived j hj hgone)
    · have hempty := hback.pending
      rw [hp] at hempty
      cases hempty

theorem Inv.executeLast (h : Inv content st) (hp : st.pending = [p]) (hi : i ∈ p.left)
    (hlast : p.left.erase i = []) {cq : List UInt16}
    (hnvme : st.kind = .nvme → cq = st.cq ++ [p.cid]) (hahci : st.kind = .ahci → cq = st.cq) :
    Inv content { st.moveSector p.cmd i with pending := [], cq := cq } := by
  obtain ⟨b, hb, hfits⟩ := h.fits p (hp ▸ List.mem_singleton_self p)
  obtain ⟨hkind, hsectors, hbounce, -, hcid, -, -, hlog⟩ := moveSector_same st p.cmd i
  refine ⟨?_, ?_, ?_, ?_, ?_, ?_⟩
  · intro hk
    rw [hkind] at hk
    rw [hsectors]
    exact h.sectors hk
  · intro s
    rw [hlog]
    exact hfits.move_disk hi h.disk s
  · intro hk
    rw [hkind] at hk
    rw [hahci hk]
    exact h.quiet hk
  · intro q hq
    cases hq
  · intro hnone
    rcases h.idle ((moveSector_call_none st p.cmd i).mp hnone) with ⟨hcq, q, hq, hqcid⟩ | ⟨hno, -⟩
    · obtain rfl : p = q := by simpa [hp] using hq
      refine Or.inr ⟨rfl, ?_⟩
      rw [hcid]
      cases hk : st.kind with
      | nvme => exact Or.inr (by rw [hnvme hk, hcq, hqcid, List.nil_append])
      | ahci => exact Or.inl (by rw [hahci hk, hcq])
    · rw [hp] at hno
      cases hno
  · intro c' hc'
    obtain ⟨b', c, hb', hout, hsane, hcid', hsame, hwrite, hlba, harrived⟩ := h.move_busy hp hi hc'
    refine ⟨b', by rw [hbounce, hb'], ⟨hsane.inside, hsane.lba, hsane.sum, hsane.more,
      hsane.passed, hsane.read, hsane.held⟩, ?_, Or.inr ⟨rfl, ?_, ?_⟩⟩
    · rw [hcid, hcid']
    · intro hk
      rw [hkind] at hk
      rw [hnvme hk, hsame, hout.cid]
      rcases hout.cq with hcq | hcq
      · exact Or.inl (by rw [hcq, List.nil_append])
      · exact Or.inr (by rw [hcq, List.cons_append, List.nil_append])
    · intro j hj
      exact harrived j hj (hlast ▸ List.not_mem_nil)

theorem Inv.executeMore (h : Inv content st) (hp : st.pending = [p]) (hi : i ∈ p.left) :
    Inv content { st.moveSector p.cmd i with pending := [{ p with left := p.left.erase i }] } := by
  obtain ⟨b, hb, hfits⟩ := h.fits p (hp ▸ List.mem_singleton_self p)
  obtain ⟨hkind, hsectors, hbounce, -, hcid, hcq, -, hlog⟩ := moveSector_same st p.cmd i
  refine ⟨?_, ?_, ?_, ?_, ?_, ?_⟩
  · intro hk
    rw [hkind] at hk
    rw [hsectors]
    exact h.sectors hk
  · intro s
    rw [hlog]
    exact hfits.move_disk hi h.disk s
  · intro hk
    rw [hkind] at hk
    rw [hcq]
    exact h.quiet hk
  · intro q hq
    obtain rfl := List.mem_singleton.mp hq
    obtain ⟨hplace, hdata⟩ := hfits.move (i := i) (p.left.erase i) fun j hj => List.mem_of_mem_erase hj
    exact ⟨b, by rw [hbounce, hb], hplace, hdata⟩
  · intro hnone
    rcases h.idle ((moveSector_call_none st p.cmd i).mp hnone) with ⟨hempty, q, hq, hqcid⟩ | ⟨hno, -⟩
    · grind
    · rw [hp] at hno
      cases hno
  · intro c' hc'
    obtain ⟨b', c, hb', hout, hsane, hcid', hsame, hwrite, hlba, harrived⟩ := h.move_busy hp hi hc'
    refine ⟨b', by rw [hbounce, hb'], ⟨hsane.inside, hsane.lba, hsane.sum, hsane.more,
      hsane.passed, hsane.read, hsane.held⟩, ?_, Or.inl ⟨_, rfl, ?_, ?_, ?_, ?_, harrived⟩⟩
    · rw [hcid, hcid']
    · rw [hsame]
      exact hout.cid
    · rw [hwrite]
      exact hout.write
    · rw [hlba]
      exact hout.lba
    · rw [hcq, hsame]
      exact hout.cq

end Move

theorem Inv.execute (h : Inv content st) (n i : Nat) : Inv content (st.execute n i) := by
  unfold State.execute
  cases hget : st.pending[n]? with
  | none => exact h
  | some p =>
    obtain ⟨hp, hn⟩ : st.pending = [p] ∧ n = 0 := by
      rcases h.pending_cases with hnone | ⟨q, hq⟩
      · rw [hnone] at hget
        cases hget
      · grind
    obtain ⟨hkind, -, -, -, -, hcq, hpending, -⟩ := moveSector_same st p.cmd i
    dsimp only
    split
    · rename_i hi
      have herase : (st.moveSector p.cmd i).pending.eraseIdx n = [] := by
        rw [hpending, hp, hn]
        rfl
      have hset : (st.moveSector p.cmd i).pending.set n { p with left := p.left.erase i } =
          [{ p with left := p.left.erase i }] := by
        rw [hpending, hp, hn]
        rfl
      split
      · rename_i hlast
        rw [herase]
        refine h.executeLast hp hi hlast ?_ ?_
        · intro hk
          rw [hkind, hk, hcq]
        · intro hk
          rw [hkind, hk, hcq]
      · rw [hset]
        exact h.executeMore hp hi
    · exact h

/-! ## The driver looks -/

/-- The driver has seen the end of its command. -/
structure Seen (content : Nat → α) (st : State α) (b : Nat) (c : Call α) : Prop where
  fresh : Fresh content st b c
  cq : st.cq = []
  arrived : ∀ i < c.chunk, Arrived st b c i

theorem Inv.dequeue (h : Inv content st) (hcall : st.call = some c) {b : Nat} {cq : List UInt16}
    (hb : st.bounce = some b) (hquiet : st.kind = .ahci → cq = [])
    (hwhere : (∃ p, Out { st with cq := cq } b c p) ∨ Back { st with cq := cq } b c) :
    Inv content { st with cq := cq } := by
  refine ⟨h.sectors, h.disk, hquiet, ?_, ?_, ?_⟩
  · intro p hp
    obtain ⟨b', hb', hfits⟩ := h.fits p hp
    exact ⟨b', hb', hfits.place, hfits.data⟩
  · intro hnone
    have hno : st.call = none := hnone
    rw [hcall] at hno
    cases hno
  · intro c' hc'
    obtain ⟨b', hb', hsane, hcid, -⟩ := h.busy c' hc'
    obtain rfl : c = c' := by
      have hsome : st.call = some c' := hc'
      rw [hcall] at hsome
      exact Option.some.inj hsome
    exact ⟨b, hb, ⟨hsane.inside, hsane.lba, hsane.sum, hsane.more, hsane.passed, hsane.read,
      hsane.held⟩, hcid, hwhere⟩

/-- A call ends, whether or not its command is still with the controller. -/
theorem Inv.giveUp (h : Inv content st) {cq : List UInt16} (hquiet : st.kind = .ahci → cq = [])
    (hidle : (cq = [] ∧ ∃ p, st.pending = [p] ∧ p.cid = st.cid - 1) ∨
      (st.pending = [] ∧ (cq = [] ∨ cq = [st.cid - 1]))) :
    Inv content { st with cq := cq, call := none } := by
  refine ⟨h.sectors, h.disk, hquiet, ?_, fun _ => hidle, ?_⟩
  · intro p hp
    obtain ⟨b, hb, hfits⟩ := h.fits p hp
    exact ⟨b, hb, hfits.place, hfits.data⟩
  · intro c hc
    cases hc

theorem cid_sub_one_ne (x : UInt16) : x - 1 ≠ x := by
  intro heq
  have hzero := congrArg (x - ·) heq
  simp at hzero

theorem Inv.look (h : Inv content st) (hcall : st.call = some c) :
    ((st.look c).2 = true → ∃ b, Seen content (st.look c).1 b c) ∧
      ((st.look c).2 = false → Inv content (st.look c).1 ∧
        Inv content { (st.look c).1 with call := none }) := by
  obtain ⟨b, hb, hsane, hcid, hwhere⟩ := h.busy c hcall
  have hne := cid_sub_one_ne c.cid
  cases hk : st.kind with
  | nvme =>
    have hquiet : ∀ cq : List UInt16, st.kind = .ahci → cq = [] := by
      intro cq hk'
      rw [hk] at hk'
      cases hk'
    rcases hwhere with ⟨p, hout⟩ | hback
    · have hidle : ∃ p, st.pending = [p] ∧ p.cid = st.cid - 1 :=
        ⟨p, hout.pending, hout.cid.trans hcid⟩
      rcases hout.cq with hcq | hcq
      · have hlook : st.look c = (st, false) := by simp [State.look, hk, hcq]
        rw [hlook]
        refine ⟨by simp, fun _ => ⟨h, ?_⟩⟩
        exact h.giveUp h.quiet (Or.inl ⟨hcq, hidle⟩)
      · have hlook : st.look c = ({ st with cq := [] }, false) := by
          simp [State.look, hk, hcq, hne]
        rw [hlook]
        refine ⟨by simp, fun _ => ⟨?_, ?_⟩⟩
        · refine h.dequeue hcall hb (hquiet []) (Or.inl ⟨p, ?_⟩)
          exact ⟨hout.pending, hout.cid, hout.write, hout.lba, Or.inl rfl, hout.arrived⟩
        · exact h.giveUp (hquiet []) (Or.inl ⟨rfl, hidle⟩)
    · rcases hback.cq hk with hcq | hcq
      · have hlook : st.look c = ({ st with cq := [] }, true) := by simp [State.look, hk, hcq]
        rw [hlook]
        refine ⟨fun _ => ⟨b, ⟨⟨h.sectors, h.disk, hquiet [], hback.pending, Or.inl rfl⟩, hb, ?_⟩,
          rfl, hback.arrived⟩, by simp⟩
        exact ⟨hsane.inside, hsane.lba, hsane.sum, hsane.more, hsane.passed, hsane.read, hsane.held⟩
      · have hlook : st.look c = ({ st with cq := [c.cid] }, false) := by
          simp [State.look, hk, hcq, hne]
        rw [hlook]
        refine ⟨by simp, fun _ => ⟨?_, ?_⟩⟩
        · refine h.dequeue hcall hb (hquiet _) (Or.inr ?_)
          exact ⟨hback.pending, fun _ => Or.inl rfl, hback.arrived⟩
        · exact h.giveUp (hquiet _) (Or.inr ⟨hback.pending, Or.inr (by rw [hcid])⟩)
  | ahci =>
    have hcq := h.quiet hk
    rcases hwhere with ⟨p, hout⟩ | hback
    · have hlook : st.look c = (st, false) := by simp [State.look, hk, hout.pending]
      rw [hlook]
      refine ⟨by simp, fun _ => ⟨h, ?_⟩⟩
      exact h.giveUp h.quiet (Or.inl ⟨hcq, p, hout.pending, hout.cid.trans hcid⟩)
    · have hlook : st.look c = (st, true) := by simp [State.look, hk, hback.pending]
      rw [hlook]
      exact ⟨fun _ => ⟨b, ⟨⟨h.sectors, h.disk, h.quiet, hback.pending, Or.inl hcq⟩, hb, hsane⟩, hcq,
        hback.arrived⟩, by simp⟩

theorem Call.fill_eq (c : Call α) (mem : Nat → α) (base n : Nat) :
    c.fill mem base n = { c with buf := (c.fill mem base n).buf } ∧
      (c.write = true → (c.fill mem base n).buf = c.buf) := by
  unfold Call.fill
  split
  · exact ⟨rfl, fun _ => rfl⟩
  · rename_i hr
    exact ⟨rfl, fun hw => absurd hw hr⟩

/-- After the copy a read has delivered the sectors of the command too. -/
theorem Seen.filled {b : Nat} (h : Seen content st b c) (hr : c.write = false) {i : Nat}
    (hi : i < c.moved + c.chunk) :
    (c.fill st.mem (b * pageSectors) c.chunk).buf i ∈ c.held (c.first.toNat + i) := by
  have hlba := h.fresh.sane.lba
  simp only [Call.fill, hr, Bool.false_eq_true, if_false]
  by_cases hnew : c.moved ≤ i
  · have harrived := h.arrived (i - c.moved) (by omega) hr
    have hsector : c.lba.toNat + (i - c.moved) = c.first.toNat + i := by omega
    rw [hsector] at harrived
    rw [if_pos ⟨hnew, hi⟩]
    exact harrived
  · rw [if_neg fun hand => hnew hand.1]
    exact h.fresh.sane.read hr i (by omega)

/-- From the end of a command to the next, or to the end of the call. -/
theorem Seen.finish {b : Nat} (h : Seen content st b c) (ready : Bool) :
    Keeps content (st.finish c ready) := by
  have hsane := h.fresh.sane
  have hsum := hsane.sum
  have hlba := hsane.lba
  have hin := hsane.inside
  have hsize := st.sectors.toNat_lt
  have hfilled := fun hr i (hi : i < c.moved + c.chunk) => h.filled hr hi
  obtain ⟨hsame, hpassed⟩ := c.fill_eq st.mem (b * pageSectors) c.chunk
  obtain ⟨c', hc'⟩ : ∃ c', c' = (c.fill st.mem (b * pageSectors) c.chunk).advance c.chunk := ⟨_, rfl⟩
  have hstep : st.finish c ready =
      if c'.left = 0 then st.answer c' 0 else st.transfer b c' ready := by
    rw [hc']
    unfold State.finish
    rw [h.fresh.bounce]
    rfl
  rw [hstep]
  rw [hsame] at hc'
  subst hc'
  split
  · rename_i hdone
    have hleft : c.left - c.chunk = 0 := hdone
    refine h.fresh.still.answer _ 0 ?_
    intro _ hr i hi
    have hi' : i < c.count := hi
    exact hfilled hr i (by omega)
  · rename_i hmore
    have hleft : c.left - c.chunk ≠ 0 := hmore
    refine Fresh.transfer ⟨h.fresh.still, h.fresh.bounce, ?_⟩ ready
    refine ⟨hin, ?_, ?_, ?_, ?_, hfilled, hsane.held⟩
    · show (c.lba + .ofNat c.chunk).toNat = c.first.toNat + (c.moved + c.chunk)
      rw [UInt64.toNat_add, UInt64.toNat_ofNat']
      omega
    · show c.moved + c.chunk + (c.left - c.chunk) = c.count
      omega
    · exact Nat.pos_of_ne_zero hleft
    · intro hw i hi
      have hbuf := hsane.passed hw i hi
      rw [← hpassed hw] at hbuf
      exact hbuf

theorem Inv.poll (h : Inv content st) (ok ready last : Bool) :
    Keeps content (st.poll ok ready last) := by
  unfold State.poll
  cases hcall : st.call with
  | none => exact ⟨h, by simp⟩
  | some c =>
    obtain ⟨hseen, hunseen⟩ := h.look hcall
    dsimp only
    generalize st.look c = out at hseen hunseen ⊢
    obtain ⟨st', found⟩ := out
    cases found with
    | true =>
      obtain ⟨b, hs⟩ := hseen rfl
      cases ok with
      | true => exact hs.finish ready
      | false => exact hs.fresh.still.answer c (-1) (delivered_error c)
    | false =>
      obtain ⟨hgo, hend⟩ := hunseen rfl
      cases last with
      | true =>
        refine ⟨hend, ?_⟩
        intro a ha
        rw [List.mem_singleton.mp ha]
        exact delivered_error c
      | false => exact ⟨hgo, by simp⟩

/-! ## Runs without late commands -/

theorem Passed.append {log : List (Write α)} {s : Nat} {a : α} (h : Passed log s a) (w : Write α) :
    Passed (log ++ [w]) s a := by
  obtain ⟨v, hv, i, hi, hs, ha⟩ := h
  exact ⟨v, List.mem_append_left _ hv, i, hi, hs, ha⟩

/-- A call of `block_write` is put on record. -/
theorem Still.record (h : Still content st) (w : Write α) :
    Still content { st with log := st.log ++ [w] } := by
  refine ⟨h.sectors, ?_, h.quiet, h.pending, h.cq⟩
  intro s
  rcases h.disk s with hold | hpassed
  · exact Or.inl hold
  · exact Or.inr (hpassed.append w)

theorem Inv.begin (h : Inv content st) (hquiet : st.call = none → st.pending = []) (write : Bool)
    (lba : UInt64) (count : UInt32) (buf : Nat → α) (ready : Bool) :
    Keeps content (st.begin write lba count buf ready) := by
  unfold State.begin
  cases hcall : st.call with
  | some c => exact ⟨h, by simp⟩
  | none =>
    have hpending := hquiet hcall
    have hcq : st.cq = [] ∨ st.cq = [st.cid - 1] := by
      rcases h.idle hcall with ⟨-, p, hp, -⟩ | ⟨-, hcq⟩
      · rw [hpending] at hp
        cases hp
      · exact hcq
    have hstill : Still content st := ⟨h.sectors, h.disk, h.quiet, hpending, hcq⟩
    dsimp only
    obtain ⟨st', hst', hstill', hsame, hlog⟩ : ∃ st', (if write then
        { st with log := st.log ++ [⟨lba, count.toNat, buf⟩] } else st) = st' ∧ Still content st' ∧
        (st'.disk = st.disk ∧ st'.sectors = st.sectors) ∧
        (write = true → ⟨lba, count.toNat, buf⟩ ∈ st'.log) := by
      refine ⟨_, rfl, ?_, ?_, ?_⟩
      · split
        · exact hstill.record _
        · exact hstill
      · split
        · exact ⟨rfl, rfl⟩
        · exact ⟨rfl, rfl⟩
      · intro hw
        rw [if_pos hw]
        exact List.mem_append_right _ List.mem_cons_self
    rw [hcall] at hst'
    rw [hst']
    cases hb : st'.bounce with
    | none => exact hstill'.answer _ (-1) (delivered_error _)
    | some b =>
      dsimp only
      split
      · exact hstill'.answer _ (-1) (delivered_error _)
      · rename_i hrange
        have hfit : 0 < count.toNat ∧ lba.toNat + count.toNat ≤ st'.sectors.toNat :=
          (@refuses_eq_false_iff (fun _ => { sectors := st'.sectors }) 0 lba count).mp
            (decide_eq_false hrange)
        refine Fresh.transfer ⟨hstill', hb, ?_⟩ ready
        refine ⟨hfit.2, rfl, Nat.zero_add _, hfit.1, ?_, ?_, ?_⟩
        · intro hw i hi
          exact ⟨_, hlog hw, i, hi, rfl, rfl⟩
        · intro _ i hi
          exact absurd hi (Nat.not_lt_zero i)
        · intro s
          rw [hsame.1]
          exact List.mem_singleton_self _

/-- A call begins only when no command is with the controller. -/
def settled (st : State α) : Op α → Prop
  | .begin _ _ _ _ _ => st.call = none → st.pending = []
  | .execute _ _ => True
  | .poll _ _ _ => True

theorem Start.inv (h : Start content st) : Inv content st := by
  refine ⟨h.sectors, ?_, ?_, ?_, ?_, ?_⟩
  · intro s
    rw [h.disk]
    exact Or.inl rfl
  · intro _
    exact h.cq
  · intro p hp
    rw [h.pending] at hp
    cases hp
  · intro _
    exact Or.inr ⟨h.pending, Or.inl h.cq⟩
  · intro c hc
    rw [h.call] at hc
    cases hc

theorem Inv.step (h : Inv content st) {op : Op α} (hop : settled st op) :
    Keeps content (Transfer.step st op) := by
  cases op with
  | begin write lba count buf ready => exact h.begin hop write lba count buf ready
  | execute n i => exact ⟨h.execute n i, by simp [Transfer.step]⟩
  | poll ok ready last => exact h.poll ok ready last

/-- **A disk without late commands.**  In a run in which every call begins with no command
left over from an earlier one, however late commands are executed and whatever calls give
up, every sector holds its first content or what a `block_write` passed for it, and every
read that returns 0 delivers what the sectors held during the call. -/
theorem contents_passed_of_settled (h : (machine content).Reachable settled st) :
    (∀ s, st.disk s = content s ∨ Passed st.log s (st.disk s)) ∧
      ∀ op, settled st op → ∀ a ∈ (step st op).2, a.rc = 0 → a.call.write = false →
        ∀ i < a.call.count, a.call.buf i ∈ a.call.held (a.call.first.toNat + i) := by
  have hinv : Inv content st :=
    h.invariant (P := Inv content) (fun _ h0 => Start.inv h0) fun _ op hi hg => (hi.step hg).1
  refine ⟨hinv.disk, ?_⟩
  intro op hop a ha
  exact (hinv.step hop).2 a ha

/-- A disk of zeros. -/
def idleDisk (kind : Kind) : State Nat where
  kind := kind
  sectors := 1000
  disk _ := 0
  mem _ := 0
  bounce := some 3
  prpList _ := 0
  cid := 0
  cq := []
  pending := []
  call := none
  log := []

/-- A write gives up and is executed before the next call, which reads. -/
def lateButSettled : List (Op Nat) :=
  [.begin true 5 1 (fun _ => 7) true, .poll true true true, .execute 0 0,
    .begin false 5 1 (fun _ => 0) true, .execute 0 0]

theorem lateButSettled_passed :
    ((machine fun _ => 0).run (idleDisk .nvme) lateButSettled).disk 5 = 7 ∧
    ∀ s, ((machine fun _ => 0).run (idleDisk .nvme) lateButSettled).disk s = 0 ∨
      Passed ((machine fun _ => 0).run (idleDisk .nvme) lateButSettled).log s
        (((machine fun _ => 0).run (idleDisk .nvme) lateButSettled).disk s) := by
  have hstart : Start (fun _ => 0) (idleDisk .nvme) :=
    ⟨rfl, fun hk => Kind.noConfusion hk, rfl, rfl, rfl, rfl⟩
  have h0 : (machine fun _ => 0).Reachable settled (idleDisk .nvme) := .start hstart
  have hwrite := Machine.Reachable.step (Op.begin true 5 1 (fun _ => 7) true) h0 (fun _ => rfl)
  have hgone := Machine.Reachable.step (Op.poll true true true) hwrite trivial
  have hlate := Machine.Reachable.step (Op.execute 0 0) hgone trivial
  have hread := Machine.Reachable.step (Op.begin false 5 1 (fun _ => 0) true) hlate (fun _ => rfl)
  have hdone := Machine.Reachable.step (Op.execute 0 0) hread trivial
  exact ⟨by decide +kernel, (contents_passed_of_settled hdone).1⟩

/-- A write gives up, and another call begins before the command is executed. -/
def lateWrite : List (Op Nat) :=
  [.begin true 5 1 (fun _ => 7) true, .poll true true true, .begin true 6 1 (fun _ => 9) true,
    .execute 0 0]

/-- The late command moves the bytes of the other call, on both kinds of disk. -/
theorem late_write_moves_other_bytes :
    ((machine fun _ => 0).Reachable (fun _ _ => True)
        ((machine fun _ => 0).run (idleDisk .nvme) lateWrite) ∧
      ¬(((machine fun _ => 0).run (idleDisk .nvme) lateWrite).disk 5 = 0 ∨
        Passed ((machine fun _ => 0).run (idleDisk .nvme) lateWrite).log 5
          (((machine fun _ => 0).run (idleDisk .nvme) lateWrite).disk 5))) ∧
    (machine fun _ => 0).Reachable (fun _ _ => True)
        ((machine fun _ => 0).run (idleDisk .ahci) lateWrite) ∧
      ¬(((machine fun _ => 0).run (idleDisk .ahci) lateWrite).disk 5 = 0 ∨
        Passed ((machine fun _ => 0).run (idleDisk .ahci) lateWrite).log 5
          (((machine fun _ => 0).run (idleDisk .ahci) lateWrite).disk 5)) := by
  have hreach : ∀ kind, (machine fun _ => 0).Reachable (fun _ _ => True)
      ((machine fun _ => 0).run (idleDisk kind) lateWrite) := by
    intro kind
    have hsize : (idleDisk kind).sectors.toNat ≤ 2 ^ 48 := by
      show (1000 : UInt64).toNat ≤ 2 ^ 48
      decide
    have hstart : Start (fun _ => 0) (idleDisk kind) := ⟨rfl, fun _ => hsize, rfl, rfl, rfl, rfl⟩
    exact Machine.Reachable.run (.start hstart) _ fun _ _ _ _ => trivial
  have hbroken : ∀ kind, ¬(((machine fun _ => 0).run (idleDisk kind) lateWrite).disk 5 = 0 ∨
      Passed ((machine fun _ => 0).run (idleDisk kind) lateWrite).log 5
        (((machine fun _ => 0).run (idleDisk kind) lateWrite).disk 5)) := by
    intro kind
    have hdisk : ((machine fun _ => 0).run (idleDisk kind) lateWrite).disk 5 = 9 := by
      cases kind <;> decide +kernel
    have hlog : ((machine fun _ => 0).run (idleDisk kind) lateWrite).log =
        [⟨5, 1, fun _ => 7⟩, ⟨6, 1, fun _ => 9⟩] := by
      cases kind <;> rfl
    rw [hdisk, hlog]
    intro hor
    rcases hor with hzero | ⟨w, hw, i, hi, hs, ha⟩
    · cases hzero
    · simp only [List.mem_cons, List.not_mem_nil, or_false] at hw
      rcases hw with rfl | rfl
      · cases ha
      · simp at hs
        omega
  exact ⟨⟨hreach .nvme, hbroken .nvme⟩, hreach .ahci, hbroken .ahci⟩

end Transfer

end Disk
