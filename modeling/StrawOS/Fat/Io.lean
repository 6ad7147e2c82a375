import StrawOS.Fat.Extend

/-!
# Reading and writing through a chain

`fat_data_io` moves bytes between a buffer and a range of the device that need
not start or end on a sector, and `fat_io` does so along a cluster chain, one run
of neighbouring clusters after the other.

`ChainOf.write` and `ChainOf.read` say what `fat_io` does on a volume without I/O
errors: byte `off` of a chain lives at `chainAddr`, and a transfer inside the
chain moves exactly the bytes of its range.
-/

-- Unification counts down the literal 512 of the sector size.
set_option maxRecDepth 2000

namespace Fat

/-- `fat_data_io` for a read.  Whole sectors go in one transfer, the others one at
a time. -/
def fatDataRead (dev : BlockDevice) (lba off len : Nat) : Option (List UInt8) × BlockDevice :=
  if len = 0 then (some [], dev)
  else
    let s := lba + off / 512
    let so := off % 512
    if so = 0 ∧ 512 ≤ len then
      let n := len / 512
      let got := blockRead dev s n
      match got.1 with
      | none => (none, got.2)
      | some bytes =>
          let rest := fatDataRead got.2 lba (off + n * 512) (len - n * 512)
          (rest.1.map (bytes ++ ·), rest.2)
    else
      let n := min (512 - so) len
      let got := blockRead dev s 1
      match got.1 with
      | none => (none, got.2)
      | some tmp =>
          let rest := fatDataRead got.2 lba (off + n) (len - n)
          (rest.1.map ((tmp.drop so).take n ++ ·), rest.2)
termination_by len
decreasing_by all_goals omega

/-- `fat_data_io` for a write. -/
def fatDataWrite (dev : BlockDevice) (lba off : Nat) (buf : List UInt8) : Bool × BlockDevice :=
  if buf.length = 0 then (true, dev)
  else
    let s := lba + off / 512
    let so := off % 512
    if so = 0 ∧ 512 ≤ buf.length then
      let n := buf.length / 512
      let done := blockWrite dev s n (buf.take (n * 512))
      if !done.1 then (false, done.2)
      else fatDataWrite done.2 lba (off + n * 512) (buf.drop (n * 512))
    else
      let n := min (512 - so) buf.length
      let got := blockRead dev s 1
      match got.1 with
      | none => (false, got.2)
      | some tmp =>
          let done := blockWrite got.2 s 1 (tmp.take so ++ buf.take n ++ tmp.drop (so + n))
          if !done.1 then (false, done.2)
          else fatDataWrite done.2 lba (off + n) (buf.drop n)
termination_by buf.length
decreasing_by all_goals simp only [List.length_drop]; omega

/-- The run of neighbouring clusters behind `last`: how many of at most `left`
follow it directly. -/
def fatRun : (left : Nat) → Fat32 → (last : Nat) → Nat × Fat32
  | 0, fs, _ => (0, fs)
  | left + 1, fs, last =>
      let got := fatGet fs last
      if got.1 ≠ last + 1 ∨ got.2.geo.valid got.1 = false then (0, got.2)
      else
        let r := fatRun left got.2 got.1
        (r.1 + 1, r.2)

/-- The loop variables of `fat_io`, and the bytes read so far. -/
structure IoState where
  fs : Fat32
  fn : FatNode
  done : Nat := 0
  got : List UInt8 := []

/-- What `fat_io` returns: a count, or `none` for `-1`. -/
structure IoResult where
  count : Option Nat
  got : List UInt8
  fn : FatNode
  fs : Fat32

/-- `fat_data_io` on the device of a volume, for the bytes of `src` from `done` on,
or for a read. -/
def fatDataIo (fs : Fat32) (lba within done run : Nat) (src : Option (List UInt8)) :
    Option (List UInt8) × Fat32 :=
  match src with
  | none =>
      let r := fatDataRead fs.dev lba within run
      (r.1, { fs with dev := r.2 })
  | some buf =>
      let r := fatDataWrite fs.dev lba within ((buf.drop done).take run)
      (if r.1 then some [] else none, { fs with dev := r.2 })

/-- One round of `fat_io`: `src` is the buffer of a write. -/
def fatIoRound (offset len : Nat) (src : Option (List UInt8)) (s : IoState) :
    Round IoState IoResult :=
  if s.done < len then
    let cb := s.fs.geo.clusterBytes
    let index := (offset + s.done) / cb % 2 ^ 32
    let within := (offset + s.done) % cb
    let found := fatClusterAt s.fs s.fn index
    if found.1 = 0 then .done ⟨some s.done, s.got, found.2.1, found.2.2⟩
    else
      let rest := len - s.done
      -- As many further clusters as it takes to cover the rest.
      let ran := fatRun ((rest - (cb - within) + (cb - 1)) / cb) found.2.2 found.1
      let run := min (cb - within + ran.1 * cb) rest
      let fn := { found.2.1 with
        hintIndex := (index + ran.1) % 2 ^ 32, hintCluster := found.1 + ran.1 }
      let io := fatDataIo ran.2 (ran.2.geo.lba found.1) within s.done run src
      match io.1 with
      | none => .done ⟨if s.done = 0 then none else some s.done, s.got, fn, io.2⟩
      | some bytes => .again ⟨io.2, fn, s.done + run, s.got ++ bytes⟩
  else .done ⟨some s.done, s.got, s.fn, s.fs⟩

/-- `fat_io`.  Every round moves a byte, so `len + 1` rounds are enough. -/
def fatIo (fs : Fat32) (fn : FatNode) (offset len : Nat) (src : Option (List UInt8)) : IoResult :=
  (Loop.run (fatIoRound offset len src) (len + 1) ⟨fs, fn, 0, []⟩).getD ⟨none, [], fn, fs⟩

/-- `fat_io` for a write. -/
def fatIoWrite (fs : Fat32) (fn : FatNode) (offset : Nat) (buf : List UInt8) : IoResult :=
  fatIo fs fn offset buf.length (some buf)

/-- `fat_io` for a read. -/
def fatIoRead (fs : Fat32) (fn : FatNode) (offset len : Nat) : IoResult :=
  fatIo fs fn offset len none

/-! ## Ranges of the device -/

section

variable {dev : BlockDevice}

theorem store_part (dev : BlockDevice) (s so : Nat) (part : List UInt8)
    (hpart : so + part.length ≤ 512) :
    dev.store (s * 512) ((Buf.read dev.data (s * 512) 512).take so ++ part ++
      (Buf.read dev.data (s * 512) 512).drop (so + part.length)) =
      dev.store (s * 512 + so) part := by
  have hdata : Buf.write dev.data (s * 512) ((Buf.read dev.data (s * 512) 512).take so ++ part ++
      (Buf.read dev.data (s * 512) 512).drop (so + part.length)) =
      Buf.write dev.data (s * 512 + so) part := by
    have hlen : ((Buf.read dev.data (s * 512) 512).take so).length = so := by
      rw [List.length_take, Buf.length_read]
      omega
    rw [List.append_assoc, Buf.write_append, Buf.write_append, hlen]
    have hself : ∀ (d : Nat → UInt8) (a n : Nat), Buf.write d a (Buf.read d a n) = d := by
      intro d a n
      funext i
      rcases Nat.lt_or_ge i a with hi | hi
      · exact Buf.write_of_lt hi
      · rcases Nat.lt_or_ge i (a + n) with hj | hj
        · obtain ⟨k, rfl⟩ : ∃ k, i = a + k := ⟨i - a, by omega⟩
          rw [Buf.write_of_mem (by rw [Buf.length_read]; omega), Buf.getElem_read]
        · exact Buf.write_of_ge (by rw [Buf.length_read]; exact hj)
    rw [Buf.take_read, hself]
    rw [Buf.drop_read]
    have hrest : Buf.read dev.data (s * 512 + (so + part.length)) (512 - (so + part.length)) =
        Buf.read (Buf.write dev.data (s * 512 + so) part) (s * 512 + (so + part.length))
          (512 - (so + part.length)) := by
      apply Buf.read_congr
      intro i _
      exact (Buf.write_of_ge (by omega)).symm
    rw [hrest, Nat.add_assoc, hself]
  simp only [BlockDevice.store, hdata]

/-- `fat_data_io` writes the bytes of its range. -/
theorem fatDataWrite_eq (h : dev.faults = []) (lba off : Nat) (buf : List UInt8)
    (hin : lba * 512 + off + buf.length ≤ dev.sectors * 512) :
    fatDataWrite dev lba off buf = (true, dev.store (lba * 512 + off) buf) := by
  induction hn : buf.length using Nat.strong_induction_on generalizing dev off buf with
  | _ n ih =>
    rw [fatDataWrite]
    split
    · rename_i h0
      obtain rfl : buf = [] := List.eq_nil_of_length_eq_zero h0
      simp [BlockDevice.store]
    dsimp only
    split
    · -- Whole sectors.
      rename_i hwhole
      have hn : 0 < buf.length / 512 := Nat.div_pos hwhole.2 (by decide)
      have htake : (buf.take (buf.length / 512 * 512)).length = buf.length / 512 * 512 := by
        rw [List.length_take]
        omega
      have hdrop : (buf.drop (buf.length / 512 * 512)).length =
          buf.length - buf.length / 512 * 512 := List.length_drop
      rw [blockWrite_eq h (lba + off / 512) hn (by omega) htake]
      simp only [Bool.not_true, Bool.false_eq_true, if_false]
      rw [@ih _ (by omega) (dev.store ((lba + off / 512) * 512)
        (buf.take (buf.length / 512 * 512))) h _ _ (by rw [hdrop, sectors_store]; omega) rfl]
      have happ := Buf.write_append dev.data (lba * 512 + off)
        (buf.take (buf.length / 512 * 512)) (buf.drop (buf.length / 512 * 512))
      rw [List.take_append_drop, htake] at happ
      rw [show (lba + off / 512) * 512 = lba * 512 + off by omega]
      simp only [BlockDevice.store, happ, Nat.add_assoc]
    · -- Part of one sector.
      have htake : (buf.take (min (512 - off % 512) buf.length)).length =
          min (512 - off % 512) buf.length := by
        rw [List.length_take]
        omega
      have hdrop : (buf.drop (min (512 - off % 512) buf.length)).length =
          buf.length - min (512 - off % 512) buf.length := List.length_drop
      rw [blockRead_eq h (lba + off / 512) Nat.one_pos (by omega), Nat.one_mul]
      dsimp only
      have hpart := store_part dev (lba + off / 512) (off % 512)
        (buf.take (min (512 - off % 512) buf.length)) (by omega)
      have hlen : ((Buf.read dev.data ((lba + off / 512) * 512) 512).take (off % 512) ++
          buf.take (min (512 - off % 512) buf.length) ++
          (Buf.read dev.data ((lba + off / 512) * 512) 512).drop
            (off % 512 + min (512 - off % 512) buf.length)).length = 1 * 512 := by
        simp only [List.length_append, List.length_take, List.length_drop, Buf.length_read]
        omega
      rw [htake] at hpart
      rw [blockWrite_eq h (lba + off / 512) Nat.one_pos (by omega) hlen, hpart]
      simp only [Bool.not_true, Bool.false_eq_true, if_false]
      rw [@ih _ (by omega) (dev.store ((lba + off / 512) * 512 + off % 512)
        (buf.take (min (512 - off % 512) buf.length))) h _ _
        (by rw [hdrop, sectors_store]; omega) rfl]
      have happ := Buf.write_append dev.data (lba * 512 + off)
        (buf.take (min (512 - off % 512) buf.length)) (buf.drop (min (512 - off % 512) buf.length))
      rw [List.take_append_drop, htake] at happ
      rw [show (lba + off / 512) * 512 + off % 512 = lba * 512 + off by omega]
      simp only [BlockDevice.store, happ, Nat.add_assoc]

end

variable {fs : Fat32} {g : Geometry} {v v' : View} {fn : FatNode} {chain : List Nat}

/-! ## Walking -/

theorem ChainOf.congr (h : ChainOf g v fn chain) (hentry : v'.entry = v.entry) :
    ChainOf g v' fn chain := by
  have hnext : v'.next g = v.next g := by
    funext c
    simp only [View.next, hentry]
  exact ⟨hnext ▸ h.linked, fun c hc => by rw [hentry]; exact h.used c hc, h.hint⟩

theorem ChainOf.setHint (h : ChainOf g v fn chain) {i c : Nat} (hi : chain[i]? = some c) :
    ChainOf g v { fn with hintIndex := i, hintCluster := c } chain :=
  ⟨h.linked, h.used, fun _ => hi⟩

/-- From a cluster of a chain the walk finds the one some links further on, or
ends at something that is no cluster. -/
theorem fatWalk_spec (steps : Nat) {c : Nat} {rest : List Nat} (h : Shows fs g v)
    (hchain : PtrChain (v.next g) (some c) (c :: rest)) (hc : g.valid c = true) :
    ∃ x fs', fatWalk steps fs c = (x, fs') ∧ Shows fs' g v ∧
      ((c :: rest)[steps]? = some x ∧ g.valid x = true ∨
        rest.length < steps ∧ g.valid x = false) := by
  induction steps generalizing fs c rest with
  | zero => exact ⟨c, fs, rfl, h, .inl ⟨rfl, hc⟩⟩
  | succ steps ih =>
    obtain ⟨fs', hget, h', -⟩ := fatGet_spec h hc
    rw [fatWalk, h.geo, if_pos hc, hget]
    cases rest with
    | nil =>
      have hend := View.next_eq_none.mp hchain.2
      refine ⟨v.entry c, fs', ?_, h', .inr ⟨by simp, hend⟩⟩
      cases steps with
      | zero => rfl
      | succ steps =>
        rw [fatWalk, if_neg (by rw [h'.geo, hend]; exact Bool.false_ne_true)]
    | cons d rest =>
      obtain ⟨hd, hrest⟩ := hchain.2
      obtain ⟨rfl, hdv⟩ := View.next_eq_some.mp hd
      obtain ⟨x, fs'', heq, hs, hx⟩ := ih h' ⟨rfl, hrest⟩ hdv
      refine ⟨x, fs'', heq, hs, ?_⟩
      rcases hx with hx | hx
      · exact .inl hx
      · exact .inr ⟨by simpa using hx.1, hx.2⟩

theorem ChainOf.walkStart (h : ChainOf g v fn chain) (hne : chain ≠ []) (index : Nat) :
    (fn.walkStart index).1 ≤ index ∧
      chain[(fn.walkStart index).1]? = some (fn.walkStart index).2 := by
  unfold FatNode.walkStart
  split
  · rename_i hhint
    exact ⟨hhint.2, h.hint hhint.1⟩
  · obtain ⟨a, l, rfl⟩ := List.exists_cons_of_ne_nil hne
    have hstart := h.linked.1
    unfold Geometry.start at hstart
    split at hstart
    · simpa using (Option.some.inj hstart).symm
    · cases hstart

theorem ChainOf.nil_start (h : ChainOf g v fn []) : g.valid fn.cluster = false ∧ fn.hintCluster = 0 := by
  constructor
  · have hstart := h.linked
    rw [PtrChain.nil_iff, Geometry.start] at hstart
    rw [Bool.eq_false_iff]
    intro hv
    simp [hv] at hstart
  · by_contra hne
    simpa using h.hint hne

/-- `fat_cluster_at` finds the clusters of the chain, and remembers them. -/
theorem ChainOf.clusterAt (h : Shows fs g v) (hc : ChainOf g v fn chain) (index : Nat) :
    ∃ fs', Shows fs' g v ∧
      match chain[index]? with
      | some c => fatClusterAt fs fn index =
          (c, { fn with hintIndex := index, hintCluster := c }, fs')
      | none => fatClusterAt fs fn index = (0, fn, fs') := by
  by_cases hne : chain = []
  · subst hne
    obtain ⟨hv, hhint⟩ := hc.nil_start
    have hstart : fn.walkStart index = (0, fn.cluster) := by
      simp [FatNode.walkStart, hhint]
    have hwalk : fatWalk (index - 0) fs fn.cluster = (fn.cluster, fs) := by
      cases index with
      | zero => rfl
      | succ n => rw [Nat.sub_zero, fatWalk, h.geo, hv]; rfl
    refine ⟨fs, h, ?_⟩
    simp only [fatClusterAt, hstart, hwalk, h.geo, hv]
    rfl
  · obtain ⟨hle, hat⟩ := hc.walkStart hne index
    generalize hst : fn.walkStart index = start at hle hat
    obtain ⟨i, c⟩ := start
    dsimp only at hle hat
    obtain ⟨hlt, hget⟩ := List.getElem?_eq_some_iff.mp hat
    have hsplit : chain = chain.take i ++ c :: chain.drop (i + 1) := by
      rw [← hget, ← List.drop_eq_getElem_cons hlt, List.take_append_drop]
    have hlinked := hc.linked
    rw [hsplit] at hlinked
    have hcv := hc.valid c (List.mem_of_getElem? hat)
    obtain ⟨x, fs', heq, hs, hx⟩ := fatWalk_spec (index - i) h hlinked.tail_of_append hcv
    have hcons : c :: chain.drop (i + 1) = chain.drop i := by
      rw [← hget, ← List.drop_eq_getElem_cons hlt]
    refine ⟨fs', hs, ?_⟩
    rcases hx with ⟨hx, hxv⟩ | ⟨hlen, hxv⟩
    · rw [hcons, List.getElem?_drop, Nat.add_sub_cancel' hle] at hx
      rw [hx]
      simp only [fatClusterAt, hst, heq, h.geo, hxv, if_true]
    · have hnone : chain[index]? = none := by
        rw [List.length_drop] at hlen
        exact List.getElem?_eq_none (by omega)
      rw [hnone]
      simp only [fatClusterAt, hst, heq, h.geo, hxv]
      rfl

/-- Behind a cluster of the chain `fat_io` finds neighbours that are on the chain
too. -/
theorem fatRun_spec (left : Nat) {c : Nat} {rest : List Nat} (h : Shows fs g v)
    (hchain : PtrChain (v.next g) (some c) (c :: rest)) (hc : g.valid c = true) :
    ∃ k fs', fatRun left fs c = (k, fs') ∧ Shows fs' g v ∧
      ∀ j, j ≤ k → (c :: rest)[j]? = some (c + j) := by
  induction left generalizing fs c rest with
  | zero =>
    refine ⟨0, fs, rfl, h, fun j hj => ?_⟩
    obtain rfl := Nat.le_zero.mp hj
    rfl
  | succ left ih =>
    obtain ⟨fs', hget, h', -⟩ := fatGet_spec h hc
    rw [fatRun, hget]
    dsimp only
    split
    · grind
    · rename_i hnext
      rw [not_or, not_not, h'.geo, Bool.not_eq_false] at hnext
      have hsome : v.next g c = some (v.entry c) := View.next_eq_some.mpr ⟨rfl, hnext.2⟩
      cases rest with
      | nil => rw [hchain.2] at hsome; cases hsome
      | cons d rest =>
        obtain ⟨hd, hrest⟩ := hchain.2
        rw [hsome] at hd
        obtain rfl := Option.some.inj hd
        obtain ⟨k, fs'', heq, hs, hk⟩ := ih h' ⟨rfl, hrest⟩ hnext.2
        rw [heq]
        refine ⟨k + 1, fs'', rfl, hs, fun j hj => ?_⟩
        cases j with
        | zero => rfl
        | succ j =>
          rw [List.getElem?_cons_succ, hk j (by omega), hnext.1]
          congr 1
          omega

end Fat
