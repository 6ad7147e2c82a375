import StrawOS.Lib.Buf
import StrawOS.Lib.Loop
import StrawOS.Lib.Machine

/-!
# Writing to a file of the RAM file system

`ramfs_write` stores into a buffer that `ramfs_ensure_capacity` doubles until it is
large enough.  The end of the write is a 64-bit sum, and so is the capacity: both
wrap.  A capacity above `2^63` cannot be reached by doubling, which ends at zero, so
the loop has no last round; and an end that wraps passes for a small one, so the
bytes land behind the buffer.

`ramfsMachine` runs the calls of `vfs.c` on the open files of a node.
-/

namespace Vfs

/-- `RamfsFile`: the first `capacity` bytes of `data` are the buffer. -/
structure RamfsFile where
  data : Nat → UInt8
  capacity : UInt64

/-- A node of the RAM file system with its file. -/
structure RamfsNode where
  file : RamfsFile
  size : UInt64

/-- The loop of `ramfs_ensure_capacity`. -/
def growRound (needed newCap : UInt64) : Round UInt64 UInt64 :=
  if newCap < needed then .again (newCap * 2) else .done newCap

/-- The file with a new buffer: the old bytes, and zeros. -/
def RamfsFile.grown (rf : RamfsFile) (newCap : UInt64) : RamfsFile :=
  { data := fun i => if i < rf.capacity.toNat then rf.data i else 0, capacity := newCap }

/-- The capacity that the loop starts with. -/
def RamfsFile.firstCap (rf : RamfsFile) : UInt64 := if rf.capacity = 0 then 256 else rf.capacity

/-- `ramfs_ensure_capacity`: whether there is room, and the file; nothing if its loop
goes on after `fuel` rounds.  `mem` says whether the memory is there. -/
def ramfsEnsureCapacity (mem : Bool) (fuel : Nat) (rf : RamfsFile) (needed : UInt64) :
    Option (Bool × RamfsFile) :=
  if needed ≤ rf.capacity then some (true, rf)
  else
    (Loop.run (growRound needed) fuel rf.firstCap).map fun newCap =>
      if mem then (true, rf.grown newCap) else (false, rf)

/-- How a write ends: it returns, or it has copied to a place outside the buffer. -/
inductive WriteEnd
  | returned (ret : Int64) (node : RamfsNode)
  | outside

/-- `ramfs_write`; nothing if it goes on after `fuel` rounds. -/
def ramfsWrite (mem : Bool) (fuel : Nat) (node : RamfsNode) (buf : Nat → UInt8)
    (count offset : UInt64) : Option WriteEnd :=
  (ramfsEnsureCapacity mem fuel node.file (offset + count)).map fun ready =>
    if !ready.1 then .returned (-1) { node with file := ready.2 }
    else if ready.2.capacity.toNat < offset.toNat + count.toNat then .outside
    else
      let data := Buf.write ready.2.data offset.toNat (Buf.read buf 0 count.toNat)
      .returned count.toInt64
        { file := { ready.2 with data := data }
          size := if offset + count > node.size then offset + count else node.size }

/-- `ramfs_read`, as far as the number of bytes goes. -/
def ramfsRead (node : RamfsNode) (count offset : UInt64) : UInt64 :=
  if offset ≥ node.size then 0
  else
    let avail := node.size - offset
    if count < avail then count else avail

/-! ## The open files of a node -/

/-- A node and the offsets of its open files. -/
structure RamfsState where
  node : RamfsNode
  offset : Nat → UInt64

inductive Whence
  | set
  | cur
  | fromEnd
  deriving DecidableEq

/-- `vfs_lseek`: the new offset, if there is one.  The sum of signed words wraps. -/
def vfsLseek (s : RamfsState) (file : Nat) (offset : Int64) (whence : Whence) : Option UInt64 :=
  let base : Int64 :=
    match whence with
    | .set => 0
    | .cur => (s.offset file).toInt64
    | .fromEnd => s.node.size.toInt64
  let result := base + offset
  if result < 0 then none else some result.toUInt64

/-- A call on an open file of the node. -/
inductive RamfsOp
  | lseek (file : Nat) (offset : Int64) (whence : Whence)
  | read (file : Nat) (count : UInt64)
  | write (file : Nat) (mem : Bool) (buf : Nat → UInt8) (count : UInt64)

/-- What `vfs_read` and `vfs_write` do to the offset of a file. -/
def RamfsState.advance (s : RamfsState) (file : Nat) (n : Int64) : RamfsState :=
  if n > 0 then
    { s with offset := Function.update s.offset file (s.offset file + n.toUInt64) }
  else s

/-- The size after `vfs_write`: at least the offset. -/
def RamfsState.extend (s : RamfsState) (file : Nat) (n : Int64) : RamfsState :=
  if n > 0 ∧ s.offset file > s.node.size then
    { s with node := { s.node with size := s.offset file } }
  else s

/-- The rounds after which the doubling of a capacity has ended, if it ends. -/
def growFuel : Nat := 64

/-- A call on an open file.  A write that does not return, or copies to a place
outside its buffer, has no state after it: the model stays where it was. -/
def ramfsStep (s : RamfsState) : RamfsOp → RamfsState
  | .lseek file offset whence =>
      match vfsLseek s file offset whence with
      | none => s
      | some result => { s with offset := Function.update s.offset file result }
  | .read file count => s.advance file (ramfsRead s.node count (s.offset file)).toInt64
  | .write file mem buf count =>
      match ramfsWrite mem growFuel s.node buf count (s.offset file) with
      | some (.returned ret node) => ({ s with node := node }.advance file ret).extend file ret
      | _ => s

/-- The calls on a node that `ramfs_create` made. -/
def ramfsMachine : Machine RamfsState RamfsOp Unit where
  start s := s.node.file.capacity = 0 ∧ s.node.size = 0 ∧ ∀ file, s.offset file = 0
  step s op := (ramfsStep s op, [])

/-! ## The loop -/

/-- A word that doubling has produced from 256 without wrapping. -/
def Doubled (c : UInt64) : Prop := ∃ j, 8 ≤ j ∧ j ≤ 63 ∧ c.toNat = 2 ^ j

/-- Below `2^63` doubling does not wrap. -/
theorem double_toNat {c : UInt64} {j : Nat} (hj : j < 63) (hc : c.toNat = 2 ^ j) :
    (c * 2).toNat = 2 ^ (j + 1) := by
  have hlt : 2 ^ (j + 1) < 2 ^ 64 := Nat.pow_lt_pow_right (by decide) (by omega)
  rw [UInt64.toNat_mul, hc, UInt64.toNat_ofNat, ← Nat.pow_succ]
  exact Nat.mod_eq_of_lt hlt

/-- The loop reaches an end that is at most `2^63`, within as many rounds as there
are powers of two up to it. -/
theorem grow_returns {needed : UInt64} (hneed : needed.toNat ≤ 2 ^ 63) (d : Nat) :
    ∀ {c : UInt64} {j : Nat}, 8 ≤ j → j + d = 63 → c.toNat = 2 ^ j →
      ∃ r, Loop.run (growRound needed) (d + 1) c = some r ∧ needed ≤ r ∧ Doubled r := by
  induction d with
  | zero =>
    intro c j hmin hj hc
    obtain rfl : j = 63 := by omega
    have hlast : ¬ c < needed := by
      rw [UInt64.lt_iff_toNat_lt]
      omega
    refine ⟨c, Loop.run_succ_done (by rw [growRound, if_neg hlast]) 0, ?_, 63, hmin, le_refl _, hc⟩
    exact UInt64.not_lt.mp hlast
  | succ d ih =>
    intro c j hmin hj hc
    by_cases hlt : c < needed
    · obtain ⟨r, hr, hle, hdbl⟩ :=
        ih (by omega : 8 ≤ j + 1) (by omega) (double_toNat (by omega) hc)
      refine ⟨r, ?_, hle, hdbl⟩
      rw [Loop.run_succ_again (by rw [growRound, if_pos hlt])]
      exact hr
    · refine ⟨c, Loop.run_succ_done (by rw [growRound, if_neg hlt]) _, UInt64.not_lt.mp hlt, ?_⟩
      exact ⟨j, hmin, by omega, hc⟩

/-- Above `2^63` the loop has no last round: the doubled word is zero, for ever. -/
theorem grow_diverges {needed c : UInt64} (hneed : 2 ^ 63 < needed.toNat) (hc : Doubled c) :
    ¬ Loop.Halts (growRound needed) c := by
  refine Loop.not_halts_of_invariant (P := fun c => c = 0 ∨ Doubled c) ?_ (Or.inr hc)
  rintro c (rfl | ⟨j, hmin, hmax, hj⟩)
  · have hlt : (0 : UInt64) < needed := UInt64.lt_iff_toNat_lt.mpr (by rw [UInt64.toNat_zero]; omega)
    exact ⟨0 * 2, by rw [growRound, if_pos hlt], Or.inl rfl⟩
  · have hle : 2 ^ j ≤ 2 ^ 63 := Nat.pow_le_pow_right (by decide) hmax
    have hlt : c < needed := UInt64.lt_iff_toNat_lt.mpr (by omega)
    refine ⟨c * 2, by rw [growRound, if_pos hlt], ?_⟩
    rcases Nat.lt_or_eq_of_le hmax with hless | rfl
    · exact Or.inr ⟨j + 1, by omega, hless, double_toNat hless hj⟩
    · left
      rw [← UInt64.toNat_inj, UInt64.toNat_mul, hj]
      decide

/-! ## The write -/

/-- A capacity that the loop can have left behind. -/
def RamfsFile.Grown (rf : RamfsFile) : Prop := rf.capacity = 0 ∨ Doubled rf.capacity

theorem RamfsFile.Grown.le {rf : RamfsFile} (h : rf.Grown) : rf.capacity.toNat ≤ 2 ^ 63 := by
  rcases h with h | ⟨j, -, hmax, hj⟩
  · simp [h]
  · exact hj ▸ Nat.pow_le_pow_right (by decide) hmax

theorem RamfsFile.Grown.firstCap {rf : RamfsFile} (h : rf.Grown) : Doubled rf.firstCap := by
  rcases h with h | h
  · exact ⟨8, le_refl _, by decide, by rw [RamfsFile.firstCap, if_pos h]; rfl⟩
  · obtain ⟨j, hmin, hmax, hj⟩ := h
    have hne : rf.capacity ≠ 0 := by
      intro hzero
      have hpos : 0 < 2 ^ j := Nat.two_pow_pos j
      rw [hzero, UInt64.toNat_zero] at hj
      omega
    exact ⟨j, hmin, hmax, by rw [RamfsFile.firstCap, if_neg hne]; exact hj⟩

/-- Up to `2^63` the capacity is enough, or is made so if the memory is there. -/
theorem ensureCapacity_fits {rf : RamfsFile} (h : rf.Grown) {needed : UInt64}
    (hneed : needed.toNat ≤ 2 ^ 63) (mem : Bool) :
    ∃ ready, ramfsEnsureCapacity mem growFuel rf needed = some ready ∧
      (ready = (false, rf) ∧ mem = false ∧ rf.capacity < needed ∨
        ready.1 = true ∧ needed ≤ ready.2.capacity ∧ ready.2.Grown ∧
          (ready.2 = rf ∨ mem = true ∧ rf.capacity < needed ∧
            ready.2 = rf.grown ready.2.capacity)) := by
  rw [ramfsEnsureCapacity]
  by_cases hle : needed ≤ rf.capacity
  · exact ⟨(true, rf), if_pos hle, Or.inr ⟨rfl, hle, h, Or.inl rfl⟩⟩
  · have hlt := UInt64.not_le.mp hle
    obtain ⟨j, hmin, hmax, hj⟩ := h.firstCap
    obtain ⟨r, hr, hge, hdbl⟩ := grow_returns hneed (63 - j) hmin (by omega) hj
    have hrun := Loop.run_mono hr (show 63 - j + 1 ≤ growFuel by grind [growFuel])
    rw [if_neg hle, hrun]
    cases mem with
    | false => exact ⟨_, rfl, Or.inl ⟨rfl, rfl, hlt⟩⟩
    | true => exact ⟨_, rfl, Or.inr ⟨rfl, hge, Or.inr hdbl, Or.inr ⟨rfl, hlt, rfl⟩⟩⟩

/-- Above `2^63` the call does not return, however long it runs. -/
theorem ensureCapacity_diverges {rf : RamfsFile} (h : rf.Grown) {needed : UInt64}
    (hneed : 2 ^ 63 < needed.toNat) (mem : Bool) (fuel : Nat) :
    ramfsEnsureCapacity mem fuel rf needed = none := by
  have hle : ¬ needed ≤ rf.capacity := by
    rw [UInt64.le_iff_toNat_le]
    have := h.le
    omega
  rw [ramfsEnsureCapacity, if_neg hle, Option.map_eq_none_iff]
  by_contra hsome
  obtain ⟨r, hr⟩ := Option.ne_none_iff_exists'.mp hsome
  exact grow_diverges hneed h.firstCap ⟨r, fuel, hr⟩

/-- A call that returns does so within the rounds the machine allows. -/
theorem ensureCapacity_fuel {rf : RamfsFile} (h : rf.Grown) {needed : UInt64} {mem : Bool}
    {fuel : Nat} {ready : Bool × RamfsFile}
    (hrun : ramfsEnsureCapacity mem fuel rf needed = some ready) :
    ramfsEnsureCapacity mem growFuel rf needed = some ready := by
  rcases Nat.lt_or_ge (2 ^ 63) needed.toNat with hbig | hneed
  · rw [ensureCapacity_diverges h hbig] at hrun
    cases hrun
  · obtain ⟨ready', hfits, -⟩ := ensureCapacity_fits h hneed mem
    rw [ramfsEnsureCapacity] at hrun hfits ⊢
    split at hrun
    · rw [if_pos ‹_›]
      exact hrun
    · rename_i hle
      rw [if_neg hle] at hfits ⊢
      obtain ⟨r, hr, rfl⟩ := Option.map_eq_some_iff.mp hrun
      obtain ⟨r', hr', -⟩ := Option.map_eq_some_iff.mp hfits
      obtain rfl := Loop.Returns.unique ⟨_, hr⟩ ⟨_, hr'⟩
      rw [hr', Option.map_some]

/-- The bytes are in place in a buffer that has room for them; the other bytes of
the buffer are the old ones, or zeros. -/
structure Stored (node : RamfsNode) (buf : Nat → UInt8) (count offset : UInt64)
    (node' : RamfsNode) : Prop where
  room : offset.toNat + count.toNat ≤ node'.file.capacity.toNat
  inside : ∀ i, i < count.toNat → node'.file.data (offset.toNat + i) = buf i
  outside : ∀ j, j < node'.file.capacity.toNat →
    j < offset.toNat ∨ offset.toNat + count.toNat ≤ j →
      node'.file.data j = if j < node.file.capacity.toNat then node.file.data j else 0
  size : node'.size.toNat = max node.size.toNat (offset.toNat + count.toNat)

/-- The write returns, and it has failed and changed nothing, or stored its bytes. -/
def Contained (mem : Bool) (node : RamfsNode) (buf : Nat → UInt8) (count offset : UInt64) :
    Prop :=
  ∃ fuel ret node', ramfsWrite mem fuel node buf count offset = some (.returned ret node') ∧
    (ret < 0 ∧ node' = node ∨ ret = count.toInt64 ∧ Stored node buf count offset node')

/-- What a returning call of `ramfs_ensure_capacity` decides about the write. -/
theorem contained_of_ready {node : RamfsNode} {mem : Bool} {count offset : UInt64}
    {ready : Bool × RamfsFile} (h : node.file.Grown)
    (hready : ramfsEnsureCapacity mem growFuel node.file (offset + count) = some ready)
    (buf : Nat → UInt8) :
    Contained mem node buf count offset ↔
      ∃ ret node',
        (if !ready.1 then WriteEnd.returned (-1) { node with file := ready.2 }
          else if ready.2.capacity.toNat < offset.toNat + count.toNat then .outside
          else .returned count.toInt64
            { file := { ready.2 with
                data := Buf.write ready.2.data offset.toNat (Buf.read buf 0 count.toNat) }
              size := if offset + count > node.size then offset + count else node.size }) =
          .returned ret node' ∧
        (ret < 0 ∧ node' = node ∨ ret = count.toInt64 ∧ Stored node buf count offset node') := by
  constructor
  · rintro ⟨fuel, ret, node', hrun, hend⟩
    obtain ⟨ready', hrun', heq⟩ := Option.map_eq_some_iff.mp hrun
    have hsame := ensureCapacity_fuel h hrun'
    rw [hready] at hsame
    obtain rfl := Option.some.inj hsame
    exact ⟨ret, node', heq, hend⟩
  · rintro ⟨ret, node', heq, hend⟩
    exact ⟨growFuel, ret, node', by rw [ramfsWrite, hready, Option.map_some, heq], hend⟩

theorem add_toNat_of_lt {offset count : UInt64} (h : offset.toNat + count.toNat < 2 ^ 64) :
    (offset + count).toNat = offset.toNat + count.toNat :=
  Nat.mod_eq_of_lt h

theorem stored_of_room {node : RamfsNode} {rf : RamfsFile} {count offset : UInt64}
    (hsum : offset.toNat + count.toNat < 2 ^ 64)
    (hroom : offset.toNat + count.toNat ≤ rf.capacity.toNat)
    (hold : ∀ j, j < rf.capacity.toNat →
      rf.data j = if j < node.file.capacity.toNat then node.file.data j else 0)
    (buf : Nat → UInt8) :
    Stored node buf count offset
      { file := { rf with data := Buf.write rf.data offset.toNat (Buf.read buf 0 count.toNat) }
        size := if offset + count > node.size then offset + count else node.size } where
  room := hroom
  inside := by
    intro i hi
    have hread : i < (Buf.read buf 0 count.toNat).length := by simpa using hi
    calc Buf.write rf.data offset.toNat (Buf.read buf 0 count.toNat) (offset.toNat + i)
        = (Buf.read buf 0 count.toNat)[i] := Buf.write_of_mem hread
      _ = buf i := by simp
  outside := by
    intro j hj hout
    rw [← hold j hj]
    rcases hout with hlt | hge
    · exact Buf.write_of_lt hlt
    · exact Buf.write_of_ge (by simpa using hge)
  size := by
    have hadd := add_toNat_of_lt hsum
    simp only [GT.gt, UInt64.lt_iff_toNat_lt, hadd]
    split <;> omega

/-- **One write**, of a file in any state that writes leave behind. -/
theorem contained_iff {node : RamfsNode} (h : node.file.Grown) (mem : Bool) (buf : Nat → UInt8)
    (count offset : UInt64) :
    Contained mem node buf count offset ↔
      offset.toNat + count.toNat ≤ 2 ^ 63 ∨
        2 ^ 64 ≤ offset.toNat + count.toNat ∧ node.file.capacity < offset + count ∧
          (offset + count).toNat ≤ 2 ^ 63 ∧ mem = false := by
  rcases Nat.lt_or_ge (2 ^ 63) (offset + count).toNat with hbig | hneed
  · -- The loop does not end; and the sum is above `2^63` also without the wrap.
    have hsum : ¬ offset.toNat + count.toNat ≤ 2 ^ 63 := by
      intro hle
      rw [add_toNat_of_lt (by omega)] at hbig
      omega
    have hnever : ¬ Contained mem node buf count offset := by
      rintro ⟨fuel, ret, node', hrun, -⟩
      obtain ⟨ready, hready, -⟩ := Option.map_eq_some_iff.mp hrun
      rw [ensureCapacity_diverges h hbig] at hready
      cases hready
    grind
  · obtain ⟨ready, hready, hcase⟩ := ensureCapacity_fits h hneed mem
    rw [contained_of_ready h hready]
    rcases hcase with ⟨rfl, rfl, hlt⟩ | ⟨hok, hge, hgrown, hfile⟩
    · -- No memory: the write has failed, wherever it was to end.
      have hfail : (-1 : Int64) < 0 := by decide
      constructor
      · intro _
        rcases Nat.lt_or_ge (offset.toNat + count.toNat) (2 ^ 64) with hless | hwrap
        · rw [add_toNat_of_lt hless] at hneed
          exact Or.inl hneed
        · exact Or.inr ⟨hwrap, hlt, hneed, rfl⟩
      · intro _
        exact ⟨-1, node, rfl, Or.inl ⟨hfail, rfl⟩⟩
    · rw [hok]
      have hcap := hgrown.le
      rw [UInt64.le_iff_toNat_le] at hge
      rcases Nat.lt_or_ge (offset.toNat + count.toNat) (2 ^ 64) with hless | hwrap
      · rw [add_toNat_of_lt hless] at hneed hge
        have hroom : ¬ ready.2.capacity.toNat < offset.toNat + count.toNat := by omega
        constructor
        · intro _
          exact Or.inl hneed
        · intro _
          refine ⟨_, _, by rw [if_neg (by simp), if_neg hroom], Or.inr ⟨rfl, ?_⟩⟩
          refine stored_of_room hless hge ?_ buf
          intro j hj
          rcases hfile with hsame | ⟨-, -, hgrow⟩
          · rw [hsame] at hj ⊢
            rw [if_pos hj]
          · rw [hgrow]
            rfl
      · -- The end has wrapped: the buffer is too short for the bytes.
        constructor
        · grind
        · rintro (hle | ⟨-, hlt, -, hnone⟩)
          · omega
          · rw [UInt64.lt_iff_toNat_lt] at hlt
            rcases hfile with hsame | ⟨hmem, -⟩
            · rw [hsame] at hge
              omega
            · rw [hnone] at hmem
              cases hmem

/-! ## Runs -/

theorem ramfsWrite_grown {mem : Bool} {node node' : RamfsNode} {buf : Nat → UInt8}
    {count offset : UInt64} {ret : Int64} (h : node.file.Grown)
    (hrun : ramfsWrite mem growFuel node buf count offset = some (.returned ret node')) :
    node'.file.Grown := by
  obtain ⟨ready, hready, heq⟩ := Option.map_eq_some_iff.mp hrun
  have hgrown : ready.2.Grown := by
    rcases Nat.lt_or_ge (2 ^ 63) (offset + count).toNat with hbig | hneed
    · rw [ensureCapacity_diverges h hbig] at hready
      cases hready
    · obtain ⟨ready', hfits, hcase⟩ := ensureCapacity_fits h hneed mem
      rw [hready] at hfits
      obtain rfl := Option.some.inj hfits
      rcases hcase with ⟨rfl, -⟩ | ⟨-, -, hready', -⟩
      · exact h
      · exact hready'
  split at heq
  · cases heq
    exact hgrown
  · split at heq
    · cases heq
    · cases heq
      exact hgrown

theorem RamfsState.advance_node (s : RamfsState) (file : Nat) (n : Int64) :
    (s.advance file n).node = s.node := by
  grind [RamfsState.advance]

theorem RamfsState.extend_file (s : RamfsState) (file : Nat) (n : Int64) :
    (s.extend file n).node.file = s.node.file := by
  grind [RamfsState.extend]

theorem ramfsStep_grown {s : RamfsState} (h : s.node.file.Grown) (op : RamfsOp) :
    (ramfsStep s op).node.file.Grown := by
  cases op with
  | lseek file offset whence =>
    simp only [ramfsStep]
    split <;> exact h
  | read file count => rw [ramfsStep, RamfsState.advance_node]; exact h
  | write file mem buf count =>
    simp only [ramfsStep]
    split
    · rename_i ret node' hrun
      rw [RamfsState.extend_file, RamfsState.advance_node]
      exact ramfsWrite_grown h hrun
    · exact h

theorem reachable_grown {s : RamfsState} (hs : ramfsMachine.Reachable (fun _ _ => True) s) :
    s.node.file.Grown := by
  refine hs.invariant (P := fun s => s.node.file.Grown) ?_ ?_
  · rintro s ⟨hnew, -⟩
    exact Or.inl hnew
  · intro s op h _
    exact ramfsStep_grown h op

/-- In every state that calls on a file can reach, a write returns, and fails without
a change or stores its bytes in the buffer, exactly if it ends at `2^63` or below, or
its end wraps to a place that needs memory and the memory is not there. -/
theorem ramfsWrite_contained_iff {s : RamfsState}
    (hs : ramfsMachine.Reachable (fun _ _ => True) s) (mem : Bool) (buf : Nat → UInt8)
    (count offset : UInt64) :
    Contained mem s.node buf count offset ↔
      offset.toNat + count.toNat ≤ 2 ^ 63 ∨
        2 ^ 64 ≤ offset.toNat + count.toNat ∧ s.node.file.capacity < offset + count ∧
          (offset + count).toNat ≤ 2 ^ 63 ∧ mem = false :=
  contained_iff (reachable_grown hs) mem buf count offset

/-- A new file with its offsets at the start. -/
def newFile : RamfsState where
  node := { file := { data := fun _ => 0, capacity := 0 }, size := 0 }
  offset := fun _ => 0

theorem newFile_reachable : ramfsMachine.Reachable (fun _ _ => True) newFile :=
  .start ⟨rfl, rfl, fun _ => rfl⟩

/-- The first kilobyte written to a new file is stored, or there is no memory. -/
theorem newFile_contained : Contained true newFile.node (fun _ => 7) 1024 0 :=
  (ramfsWrite_contained_iff newFile_reachable true (fun _ => 7) 1024 0).mpr (Or.inl (by decide))

/-- After a seek to the last offset a write of two bytes does not return. -/
theorem lastOffset_diverges :
    ∃ s, ramfsMachine.Reachable (fun _ _ => True) s ∧ s.offset 0 = 0x7FFFFFFFFFFFFFFF ∧
      ¬ Contained true s.node (fun _ => 0) 2 (s.offset 0) := by
  refine ⟨_, .step (.lseek 0 0x7FFFFFFFFFFFFFFF .set) newFile_reachable trivial, rfl, ?_⟩
  rintro ⟨fuel, ret, node', hrun, -⟩
  obtain ⟨ready, hready, -⟩ := Option.map_eq_some_iff.mp hrun
  rw [ensureCapacity_diverges (Or.inl rfl) (by decide)] at hready
  cases hready

end Vfs
