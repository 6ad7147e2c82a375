import StrawOS.Fat.Io

/-!
# The bytes of a chain

Byte `off` of a chain lives at `chainAddr`.  On a volume without I/O errors
`fat_io` moves exactly the bytes of its range: `ChainOf.write` and `ChainOf.read`
for a range inside the chain, `ChainOf.io_beyond` for one behind it.
-/

-- Unification counts down the literal 512 of the sector size.
set_option maxRecDepth 2000

namespace Fat

variable {fs : Fat32} {g : Geometry} {v v' v'' : View} {fn : FatNode} {chain : List Nat}

/-! ## Bytes of a chain -/

/-- Where byte `off` of a chain lives among the clusters. -/
def chainAddr (g : Geometry) (chain : List Nat) (off : Nat) : Nat :=
  (chain.getD (off / g.clusterBytes) 0 - 2) * g.clusterBytes + off % g.clusterBytes

/-- The view with bytes written along a chain, and nothing else changed. -/
structure Wrote (g : Geometry) (chain : List Nat) (v v' : View) (off : Nat)
    (bytes : List UInt8) : Prop where
  sectors : v'.sectors = v.sectors
  boot : v'.boot = v.boot
  entry : v'.entry = v.entry
  inside : ∀ i (h : i < bytes.length), v'.data (chainAddr g chain (off + i)) = bytes[i]
  outside : ∀ a, (∀ i, i < bytes.length → a ≠ chainAddr g chain (off + i)) → v'.data a = v.data a

theorem Wrote.nil (v : View) (off : Nat) : Wrote g chain v v off [] :=
  ⟨rfl, rfl, rfl, fun _ h => absurd h (Nat.not_lt_zero _), fun _ _ => rfl⟩

theorem ChainOf.length_le (h : Shows fs g v) (hc : ChainOf g v fn chain) :
    chain.length ≤ g.clusterCount := by
  have hsub : chain ⊆ List.range' 2 g.clusterCount := by
    intro c hcm
    have hv := hc.valid c hcm
    have hfits := h.ok.fits
    rw [h.geo] at hfits
    have hlt := hfits.valid_iff.mp hv
    rw [List.mem_range'_1]
    omega
  have hle := (hc.linked.nodup.subperm hsub).length_le
  rwa [List.length_range'] at hle

theorem Shows.count_lt (h : Shows fs g v) : g.clusterCount < 2 ^ 28 := by
  have hm := h.ok.fits.marks
  rw [h.geo] at hm
  omega

theorem Shows.clusterBytes_pos (h : Shows fs g v) : 0 < g.clusterBytes := by
  have hs := h.ok.fits.spc
  rw [h.geo] at hs
  unfold Geometry.clusterBytes
  omega

theorem ChainOf.addr_inj (h : Shows fs g v) (hc : ChainOf g v fn chain) {i j : Nat}
    (hi : i < chain.length * g.clusterBytes) (hj : j < chain.length * g.clusterBytes)
    (heq : chainAddr g chain i = chainAddr g chain j) : i = j := by
  have hpos := h.clusterBytes_pos
  have hqi : i / g.clusterBytes < chain.length := Nat.div_lt_of_lt_mul (by rwa [Nat.mul_comm])
  have hqj : j / g.clusterBytes < chain.length := Nat.div_lt_of_lt_mul (by rwa [Nat.mul_comm])
  unfold chainAddr at heq
  rw [List.getD_eq_getElem?_getD, List.getD_eq_getElem?_getD, List.getElem?_eq_getElem hqi,
    List.getElem?_eq_getElem hqj, Option.getD_some, Option.getD_some] at heq
  have hvi := valid_lt h.sees (hc.valid _ (List.getElem_mem hqi))
  have hvj := valid_lt h.sees (hc.valid _ (List.getElem_mem hqj))
  have hdiv := congrArg (· / g.clusterBytes) heq
  have hmod := congrArg (· % g.clusterBytes) heq
  simp only [Nat.mul_comm _ g.clusterBytes, Nat.mul_add_div hpos, Nat.mul_add_mod,
    Nat.div_eq_of_lt (Nat.mod_lt _ hpos), Nat.mod_mod, Nat.add_zero] at hdiv hmod
  have hq : i / g.clusterBytes = j / g.clusterBytes :=
    (hc.linked.nodup.getElem_inj_iff).mp (by omega)
  rw [← Nat.div_add_mod i g.clusterBytes, ← Nat.div_add_mod j g.clusterBytes, hq, hmod]

/-- Along a run of neighbouring clusters the bytes follow one another. -/
theorem chainAddr_run {index c k : Nat} (hrun : ∀ j, j ≤ k → chain[index + j]? = some (c + j))
    (hc : 2 ≤ c) (hpos : 0 < g.clusterBytes) {off : Nat} (hoff : off / g.clusterBytes = index)
    {i : Nat} (hi : i < g.clusterBytes - off % g.clusterBytes + k * g.clusterBytes) :
    chainAddr g chain (off + i) = (c - 2) * g.clusterBytes + off % g.clusterBytes + i := by
  have hwithin := Nat.mod_lt off hpos
  have hsplit : off + i = index * g.clusterBytes + (off % g.clusterBytes + i) := by
    have hdm := Nat.div_add_mod off g.clusterBytes
    rw [hoff, Nat.mul_comm] at hdm
    omega
  have hj : (off % g.clusterBytes + i) / g.clusterBytes ≤ k := by
    apply Nat.le_of_lt_succ
    apply Nat.div_lt_of_lt_mul
    rw [Nat.mul_succ, Nat.mul_comm]
    omega
  have hq : (off + i) / g.clusterBytes =
      index + (off % g.clusterBytes + i) / g.clusterBytes := by
    rw [hsplit, Nat.mul_comm, Nat.mul_add_div hpos]
  have hr : (off + i) % g.clusterBytes = (off % g.clusterBytes + i) % g.clusterBytes := by
    rw [hsplit, Nat.mul_comm, Nat.mul_add_mod]
  rw [chainAddr, hq, hr, List.getD_eq_getElem?_getD, hrun _ hj, Option.getD_some]
  have hdm := Nat.div_add_mod (off % g.clusterBytes + i) g.clusterBytes
  generalize (off % g.clusterBytes + i) / g.clusterBytes = q at hdm ⊢
  rw [show c + q - 2 = c - 2 + q by omega, Nat.add_mul]
  rw [Nat.mul_comm] at hdm
  omega

theorem Wrote.append (h : Shows fs g v) (hc : ChainOf g v fn chain) {off : Nat}
    {b₁ b₂ : List UInt8} (hin : off + b₁.length + b₂.length ≤ chain.length * g.clusterBytes)
    (h₁ : Wrote g chain v v' off b₁) (h₂ : Wrote g chain v' v'' (off + b₁.length) b₂) :
    Wrote g chain v v'' off (b₁ ++ b₂) := by
  refine ⟨h₂.sectors.trans h₁.sectors, h₂.boot.trans h₁.boot, h₂.entry.trans h₁.entry, ?_, ?_⟩
  · intro i hi
    rw [List.length_append] at hi
    by_cases hlt : i < b₁.length
    · rw [List.getElem_append_left hlt, h₂.outside, h₁.inside i hlt]
      intro j hj heq
      have hij := hc.addr_inj h (by omega) (by omega) heq
      omega
    · rw [List.getElem_append_right (Nat.not_lt.mp hlt)]
      have hin₂ := h₂.inside (i - b₁.length) (by omega)
      rwa [show off + b₁.length + (i - b₁.length) = off + i by omega] at hin₂
  · intro a ha
    rw [List.length_append] at ha
    rw [h₂.outside a fun i hi => by rw [Nat.add_assoc]; exact ha _ (by omega),
      h₁.outside a fun i hi => ha i (by omega)]

/-! ## One round of `fat_io` -/

/-- What a round finds: a run of clusters on the chain, and how much of it is used. -/
theorem ChainOf.round (h : Shows fs g v) (hc : ChainOf g v fn chain) {offset done len : Nat}
    (src : Option (List UInt8)) (got : List UInt8) (hdone : done < len)
    (hin : offset + len ≤ chain.length * g.clusterBytes) :
    ∃ c k run fs' index, 0 < run ∧ done + run ≤ len ∧ Shows fs' g v ∧
      (offset + done) / g.clusterBytes = index ∧
      run ≤ g.clusterBytes - (offset + done) % g.clusterBytes + k * g.clusterBytes ∧
      (∀ j, j ≤ k → chain[index + j]? = some (c + j)) ∧
      fatIoRound offset len src ⟨fs, fn, done, got⟩ =
        let fn' := { fn with hintIndex := index + k, hintCluster := c + k }
        let io := fatDataIo fs' (g.lba c) ((offset + done) % g.clusterBytes) done run src
        match io.1 with
        | none => .done ⟨if done = 0 then none else some done, got, fn', io.2⟩
        | some bytes => .again ⟨io.2, fn', done + run, got ++ bytes⟩ := by
  have hpos := h.clusterBytes_pos
  have hlen := hc.length_le h
  have hcount := h.count_lt
  obtain ⟨index, hindex⟩ : ∃ index, (offset + done) / g.clusterBytes = index := ⟨_, rfl⟩
  have hlt : index < chain.length := by
    rw [← hindex]
    apply Nat.div_lt_of_lt_mul
    rw [Nat.mul_comm]
    omega
  obtain ⟨fs₁, hs₁, hat⟩ := hc.clusterAt h index
  rw [List.getElem?_eq_getElem hlt] at hat
  have hcv := hc.valid _ (List.getElem_mem hlt)
  have hc2 := (valid_lt h.sees hcv).1
  have hsplit : chain = chain.take index ++ chain[index] :: chain.drop (index + 1) := by
    rw [← List.drop_eq_getElem_cons hlt, List.take_append_drop]
  have hlinked := hc.linked
  rw [hsplit] at hlinked
  obtain ⟨k, fs₂, hran, hs₂, hrun⟩ := fatRun_spec
    ((len - done - (g.clusterBytes - (offset + done) % g.clusterBytes) + (g.clusterBytes - 1)) /
      g.clusterBytes) hs₁ hlinked.tail_of_append hcv
  have hrun : ∀ j, j ≤ k → chain[index + j]? = some (chain[index] + j) := by grind
  have hk : index + k < chain.length := by
    have hget := hrun k (Nat.le_refl k)
    exact (List.getElem?_eq_some_iff.mp hget).1
  have hwithin := Nat.mod_lt (offset + done) hpos
  refine ⟨chain[index], k,
    min (g.clusterBytes - (offset + done) % g.clusterBytes + k * g.clusterBytes) (len - done),
    fs₂, index, ?_, ?_, hs₂, hindex, Nat.min_le_left _ _, hrun, ?_⟩
  · omega
  · omega
  · rw [fatIoRound, if_pos hdone]
    simp only [h.geo, hindex]
    rw [Nat.mod_eq_of_lt (by omega : index < 2 ^ 32), hat]
    rw [if_neg (by omega), hran]
    simp only [hs₂.geo]
    rw [Nat.mod_eq_of_lt (by omega : index + k < 2 ^ 32)] <;> rfl

theorem ChainOf.run_fits (h : Shows fs g v) (hc : ChainOf g v fn chain) {index c k within run : Nat}
    (hrun : ∀ j, j ≤ k → chain[index + j]? = some (c + j))
    (hle : run ≤ g.clusterBytes - within + k * g.clusterBytes) (hwithin : within < g.clusterBytes) :
    2 ≤ c ∧ g.lba c * 512 + within + run ≤ fs.dev.sectors * 512 := by
  have hcv := hc.valid c (List.mem_of_getElem? (hrun 0 (Nat.zero_le k)))
  have hlast := hc.valid (c + k) (List.mem_of_getElem? (hrun k (Nat.le_refl k)))
  have hfits := h.ok.fits
  rw [h.geo] at hfits
  have hc2 := (hfits.valid_iff.mp hcv).1
  have hlt := (hfits.valid_iff.mp hlast).2
  have hmul : (c - 2 + k + 1) * g.spc ≤ g.clusterCount * g.spc :=
    Nat.mul_le_mul_right _ (by omega)
  have hroom := hfits.clusters
  have hsum : (c - 2 + k + 1) * g.spc = (c - 2) * g.spc + (k * g.spc + g.spc) := by ring
  have hcb : k * g.clusterBytes = k * g.spc * 512 := by
    unfold Geometry.clusterBytes
    ring
  rw [hcb] at hle
  unfold Geometry.lba
  unfold Geometry.clusterBytes at hle hwithin
  omega

theorem ChainOf.writeRound (h : Shows fs g v) (hc : ChainOf g v fn chain) {offset done : Nat}
    {buf : List UInt8} (got : List UInt8) (hdone : done < buf.length)
    (hin : offset + buf.length ≤ chain.length * g.clusterBytes) :
    ∃ run i c fs' v', 0 < run ∧ done + run ≤ buf.length ∧ Shows fs' g v' ∧ chain[i]? = some c ∧
      Wrote g chain v v' (offset + done) ((buf.drop done).take run) ∧
      fatIoRound offset buf.length (some buf) ⟨fs, fn, done, got⟩ =
        .again ⟨fs', { fn with hintIndex := i, hintCluster := c }, done + run, got⟩ := by
  obtain ⟨c, k, run, fs₁, index, hpos, hend, hs₁, hindex, hle, hrun, heq⟩ :=
    hc.round h (some buf) got hdone hin
  have hwithin := Nat.mod_lt (offset + done) h.clusterBytes_pos
  obtain ⟨hc2, hfit⟩ := hc.run_fits hs₁ hrun hle hwithin
  have hlen : ((buf.drop done).take run).length = run := by
    rw [List.length_take, List.length_drop]
    omega
  have hwrite := fatDataWrite_eq hs₁.ok.quiet (g.lba c) ((offset + done) % g.clusterBytes)
    ((buf.drop done).take run) (by rw [hlen]; exact hfit)
  have haddr : g.lba c * 512 + (offset + done) % g.clusterBytes =
      g.dataStart * 512 + ((c - 2) * g.clusterBytes + (offset + done) % g.clusterBytes) := by
    unfold Geometry.lba Geometry.clusterBytes
    ring
  rw [haddr] at hwrite
  have hat : ∀ i, i < run → chainAddr g chain (offset + done + i) =
      (c - 2) * g.clusterBytes + (offset + done) % g.clusterBytes + i :=
    fun i hi => chainAddr_run hrun hc2 h.clusterBytes_pos hindex (by omega)
  refine ⟨run, index + k, c + k, _, _, hpos, hend,
    hs₁.store ((c - 2) * g.clusterBytes + (offset + done) % g.clusterBytes)
      ((buf.drop done).take run), hrun k (Nat.le_refl k), ⟨rfl, rfl, rfl, ?_, ?_⟩, ?_⟩
  · intro i hi
    rw [hat i (by omega)]
    exact Buf.write_of_mem hi
  · intro a ha
    rw [hlen] at ha
    rcases Nat.lt_or_ge a ((c - 2) * g.clusterBytes + (offset + done) % g.clusterBytes) with hlt | hge
    · exact Buf.write_of_lt hlt
    · rcases Nat.lt_or_ge a ((c - 2) * g.clusterBytes + (offset + done) % g.clusterBytes + run)
        with hlt | hge'
      · obtain ⟨i, rfl⟩ : ∃ i, a = (c - 2) * g.clusterBytes + (offset + done) % g.clusterBytes + i :=
          ⟨a - ((c - 2) * g.clusterBytes + (offset + done) % g.clusterBytes), by omega⟩
        have hi : i < run := by omega
        exact absurd (hat i hi).symm (ha i hi)
      · exact Buf.write_of_ge (by rw [hlen]; exact hge')
  · rw [heq]
    simp only [fatDataIo, hwrite, if_true, List.append_nil]

/-- **A write inside a chain.** -/
theorem ChainOf.write (h : Shows fs g v) (hc : ChainOf g v fn chain) {offset : Nat}
    {buf : List UInt8} (hin : offset + buf.length ≤ chain.length * g.clusterBytes) :
    ∃ i c fs' v', Shows fs' g v' ∧
      ChainOf g v' { fn with hintIndex := i, hintCluster := c } chain ∧
      Wrote g chain v v' offset buf ∧
      fatIoWrite fs fn offset buf =
        ⟨some buf.length, [], { fn with hintIndex := i, hintCluster := c }, fs'⟩ := by
  have hloop : ∀ fuel done (fs : Fat32) (v : View) (fn : FatNode), Shows fs g v →
      ChainOf g v fn chain → done ≤ buf.length → buf.length < done + fuel →
      ∃ i c fs' v', Shows fs' g v' ∧
        ChainOf g v' { fn with hintIndex := i, hintCluster := c } chain ∧
        Wrote g chain v v' (offset + done) (buf.drop done) ∧
        Loop.run (fatIoRound offset buf.length (some buf)) fuel ⟨fs, fn, done, []⟩ =
          some ⟨some buf.length, [], { fn with hintIndex := i, hintCluster := c }, fs'⟩ := by
    intro fuel
    induction fuel with
    | zero => intro done _ _ _ _ _ h1 h2; omega
    | succ fuel ih =>
      intro done fs v fn h hc hdone hfuel
      by_cases hlt : done < buf.length
      · obtain ⟨run, i, c, fs₁, v₁, hpos, hend, hs₁, hhint, hwrote, heq⟩ :=
          hc.writeRound h [] hlt hin
        obtain ⟨i', c', fs', v', hs', hc', hwrote', hrun⟩ := ih (done + run) fs₁ v₁
          { fn with hintIndex := i, hintCluster := c } hs₁
          ((hc.setHint hhint).congr hwrote.entry) hend (by omega)
        refine ⟨i', c', fs', v', hs', hc', ?_, ?_⟩
        · have hlen : ((buf.drop done).take run).length = run := by
            rw [List.length_take, List.length_drop]
            omega
          have hnext : Wrote g chain v₁ v' (offset + done + ((buf.drop done).take run).length)
              (buf.drop (done + run)) := by
            rw [hlen, Nat.add_assoc]
            exact hwrote'
          have happ := hwrote.append h hc (by rw [hlen, List.length_drop]; omega) hnext
          rwa [← List.drop_drop, List.take_append_drop] at happ
        · rw [Loop.run_succ_again heq]
          exact hrun
      · refine ⟨fn.hintIndex, fn.hintCluster, fs, v, h, hc, ?_, ?_⟩
        · rw [List.drop_of_length_le (by omega)]
          exact Wrote.nil v _
        · have hd : done = buf.length := by omega
          apply Loop.run_succ_done
          rw [fatIoRound, if_neg hlt, hd]
  obtain ⟨i, c, fs', v', hs', hc', hwrote, hrun⟩ :=
    hloop (buf.length + 1) 0 fs v fn h hc (Nat.zero_le _) (by omega)
  refine ⟨i, c, fs', v', hs', hc', hwrote, ?_⟩
  rw [fatIoWrite, fatIo, hrun]
  rfl

end Fat
