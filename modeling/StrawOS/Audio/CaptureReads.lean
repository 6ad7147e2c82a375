import StrawOS.Audio.Capture

/-!
# What capture clients read

A read returns bytes that the hardware has written and not yet overwritten, and goes on where
the last one ended.  Whether it starts with a frame depends on the hardware: the driver takes
over its position as it is when a client is opened, dropped or trimmed.
-/

namespace Audio

/-- What was read is what the hardware wrote there, at the volume, and still had. -/
def CaptureEntry.Right : CaptureEntry → Prop
  | .read start out volume captured =>
      start + out.length ≤ captured.length ∧ captured.length ≤ start + hdaBufSize ∧
        out = hdaApplyGain volume ((captured.drop start).take out.length)
  | .moved => True

/-- The read starts with a frame. -/
def CaptureEntry.Framed : CaptureEntry → Prop
  | .read start _ _ _ => start % hdaFrame = 0
  | .moved => True

/-- A read goes on at `p`. -/
def CaptureEntry.EndsAt (p : Nat) : CaptureEntry → Prop
  | .read start out _ _ => p = start + out.length
  | .moved => True

/-- The second entry goes on where the first one ends. -/
def CaptureEntry.Follows (e : CaptureEntry) : CaptureEntry → Prop
  | .read start _ _ _ => e.EndsAt start
  | .moved => True

theorem hdaBufSize_eq : hdaBufSize = 61440 := by
  simp [hdaBufSize, hdaPeriod, hdaFrame]

theorem hdaCaptureKeep_eq : hdaCaptureKeep = 53760 := by
  have hsize := hdaBufSize_eq
  unfold hdaBufSize at hsize
  unfold hdaCaptureKeep hdaBufSize
  omega

/-! ## Streams -/

/-- The driver and the hardware of a running stream. -/
structure InStream.Good (s : InStream) : Prop where
  behind : s.pos ≤ s.captured.length
  round : s.captured.length < s.pos + hdaBufSize
  lastLpib : s.lastLpib = s.pos % hdaBufSize
  holds : ∀ j (h : j < s.captured.length), s.captured.length ≤ j + hdaBufSize →
    s.buf (j % hdaBufSize) = s.captured[j]

theorem InStream.start_good (s : InStream) : s.start.Good :=
  ⟨le_refl _, Nat.lt_add_of_pos_right hdaBufSize_pos, (Nat.zero_mod _).symm,
    fun _ h _ => absurd h (Nat.not_lt_zero _)⟩

/-- **The position** is that of the hardware after an update. -/
theorem InStream.Good.update {s : InStream} (h : s.Good) (hrun : s.running = true) :
    s.update = { s with pos := s.captured.length, lastLpib := s.captured.length % hdaBufSize } ∧
      s.update.Good := by
  obtain ⟨hbehind, hround, hlast, hholds⟩ := h
  have hpos : s.pos + (s.lpib + hdaBufSize - s.lastLpib) % hdaBufSize = s.captured.length := by
    rw [InStream.lpib, hlast]
    rw [hdaBufSize_eq] at hround ⊢
    omega
  have hupdate : s.update =
      { s with pos := s.captured.length, lastLpib := s.captured.length % hdaBufSize } := by
    rw [InStream.update, if_pos ⟨hrun, Nat.mod_lt _ hdaBufSize_pos⟩, hpos]
    rfl
  rw [hupdate]
  exact ⟨rfl, le_refl _, Nat.lt_add_of_pos_right hdaBufSize_pos, rfl, hholds⟩

/-- **The hardware** overwrites what is a round old. -/
theorem InStream.Good.hear {s : InStream} (h : s.Good) (b : UInt8)
    (hroom : s.captured.length + 1 < s.pos + hdaBufSize) : (s.hear b).Good := by
  have hlen : (s.hear b).captured.length = s.captured.length + 1 := by
    rw [InStream.hear, List.length_append, List.length_singleton]
  refine ⟨?_, ?_, h.lastLpib, ?_⟩
  · rw [hlen]
    exact Nat.le_succ_of_le h.behind
  · rw [hlen]
    exact hroom
  · intro j hj hold
    rw [hlen] at hj hold
    rcases Nat.lt_succ_iff_lt_or_eq.mp hj with hlt | rfl
    · have hne : j % hdaBufSize ≠ s.captured.length % hdaBufSize := by
        rw [hdaBufSize_eq] at hold ⊢
        omega
      simp only [InStream.hear]
      rw [Function.update_of_ne hne, List.getElem_append_left hlt]
      exact h.holds j hlt (by omega)
    · simp [InStream.hear]

theorem InStream.Good.ringRead {s : InStream} (h : s.Good) {p n : Nat}
    (hwritten : p + n ≤ s.captured.length) (hkept : s.captured.length ≤ p + hdaBufSize)
    (hn : n ≤ hdaBufSize) :
    Buf.ringRead hdaBufSize s.buf (p % hdaBufSize) n = (s.captured.drop p).take n := by
  have hpop := (@Buf.ring_pop UInt8 hdaBufSize (p % hdaBufSize) n n s.buf
    (Nat.mod_lt _ hdaBufSize_pos) hn (le_refl n)).1
  rw [hpop]
  apply List.ext_getElem
  · simp
    omega
  · intro i hi hi'
    have hin : i < n := by
      simp at hi
      exact hi
    rw [List.getElem_take, Buf.getElem_ring, Nat.mod_add_mod, List.getElem_take,
      List.getElem_drop]
    exact h.holds (p + i) (by omega) (by omega)

/-! ## Clients -/

/-- What a client knows of its past. -/
structure CaptureClient.Good (pos : Nat) (c : CaptureClient) : Prop where
  le_pos : c.pos ≤ pos
  right : ∀ e ∈ c.log, e.Right
  chain : c.log.IsChain CaptureEntry.Follows
  last : ∀ e ∈ c.log.getLast?, e.EndsAt c.pos

variable {pos : Nat} {c : CaptureClient}

theorem CaptureClient.Good.later {pos' : Nat} (h : c.Good pos) (hle : pos ≤ pos') : c.Good pos' :=
  ⟨h.le_pos.trans hle, h.right, h.chain, h.last⟩

theorem CaptureClient.Good.log {c' : CaptureClient} {e : CaptureEntry} {pos' : Nat} (h : c.Good pos)
    (hlog : c'.log = c.log ++ [e]) (hpos : c'.pos ≤ pos') (hright : e.Right)
    (hfollows : ∀ e' ∈ c.log.getLast?, e'.Follows e) (hends : e.EndsAt c'.pos) : c'.Good pos' := by
  refine ⟨hpos, ?_, ?_, ?_⟩
  · intro e' he'
    rw [hlog] at he'
    rcases List.mem_append.mp he' with he' | he'
    · exact h.right e' he'
    · rw [List.mem_singleton.mp he']
      exact hright
  · rw [hlog]
    refine List.isChain_append.mpr ⟨h.chain, List.isChain_singleton e, ?_⟩
    intro e' he' e'' he''
    obtain rfl := Option.mem_some_iff.mp he''
    exact hfollows e' he'
  · grind

theorem CaptureClient.Good.moveTo (h : c.Good pos) {p pos' : Nat} (hp : p ≤ pos') :
    (c.moveTo p).Good pos' :=
  h.log rfl hp trivial (fun _ _ => trivial) trivial

theorem CaptureClient.Good.trim (h : c.Good pos) : (c.trim pos).Good pos := by
  rw [CaptureClient.trim]
  split
  · exact h.log rfl (Nat.sub_le _ _) trivial (fun _ _ => trivial) trivial
  · exact h

theorem trim_keeps (c : CaptureClient) (pos : Nat) : pos ≤ (c.trim pos).pos + hdaCaptureKeep := by
  rw [CaptureClient.trim]
  split
  · dsimp only
    omega
  · omega

theorem length_hdaApplyGain (vol : Nat) (data : List UInt8) :
    (hdaApplyGain vol data).length = data.length := by
  have hsamples : (gainSamples vol data).length = data.length := by
    fun_induction gainSamples vol data with
    | case1 lo hi rest ih => simp [sampleBytes, ih]
    | case2 rest => rfl
  rw [hdaApplyGain]
  split
  · rfl
  · exact hsamples

theorem readCount_framed (count : Nat) : readCount count % hdaFrame = 0 := by
  simp only [readCount, hdaBufSize_eq, hdaFrame]
  omega

/-- **A read** of a client that was trimmed. -/
theorem CaptureClient.Good.copy {s : InStream} (h : c.Good s.pos) (hs : s.Good)
    (hseen : s.pos = s.captured.length) (hkept : s.pos ≤ c.pos + hdaCaptureKeep) (vol count : Nat) :
    (c.copy s vol (readCount count)).Good s.pos := by
  rw [CaptureClient.copy]
  split
  · rename_i hready
    rw [hdaCaptureKeep_eq] at hkept
    have hread := hs.ringRead (p := c.pos) (n := readCount count) (by omega)
      (by rw [hdaBufSize_eq]; omega) (by rw [hdaBufSize_eq]; omega)
    have hlen : (hdaApplyGain vol ((s.captured.drop c.pos).take (readCount count))).length =
        readCount count := by
      rw [length_hdaApplyGain, List.length_take, List.length_drop]
      omega
    rw [hread]
    refine h.log rfl hready ?_ ?_ ?_
    · refine ⟨?_, ?_, ?_⟩
      · omega
      · rw [hdaBufSize_eq]
        omega
      · rw [hlen]
    · intro e he
      exact h.last e he
    · change _ = _
      rw [hlen]
  · exact h

/-! ## The driver -/

/-- What the calls keep. -/
structure Capture.Good (st : Capture) : Prop where
  running : st.clients ≠ [] → st.isRunning = true
  stream : ∀ i, st.input = some i → (st.streams i).running = true → (st.streams i).Good
  others : ∀ i, st.input ≠ some i → (st.streams i).running = false
  clients : ∀ c ∈ st.clients, c.Good st.pos

variable {st : Capture}

theorem Capture.Good.onClients (h : st.Good) {f : CaptureClient → CaptureClient}
    (hf : ∀ c ∈ st.clients, (f c).Good st.pos) : Capture.Good { st with clients := st.clients.map f } := by
  refine ⟨?_, h.stream, h.others, ?_⟩
  · intro hne
    exact h.running fun hnil => hne (by simp [hnil])
  · intro c hc
    obtain ⟨c', hc', rfl⟩ := List.mem_map.mp hc
    exact hf c' hc'

theorem Capture.Good.onClient (h : st.Good) (id : Nat) {f : CaptureClient → CaptureClient}
    (hf : ∀ c ∈ st.clients, (f c).Good st.pos) : (st.onClient id f).Good := by
  apply h.onClients
  intro c hc
  split
  · exact hf c hc
  · exact h.clients c hc

theorem onInput_clients (st : Capture) (f : InStream → InStream) :
    (st.onInput f).clients = st.clients := by
  unfold Capture.onInput
  split <;> rfl

theorem stream_of_isRunning (hrun : st.isRunning = true) :
    ∃ i, st.input = some i ∧ (st.streams i).running = true := by
  cases hin : st.input with
  | none => simp [Capture.isRunning, hin] at hrun
  | some i => exact ⟨i, rfl, by simpa [Capture.isRunning, hin] using hrun⟩

theorem Capture.Good.onInput (h : st.Good) {i : Nat} (hin : st.input = some i)
    {f : InStream → InStream} (hf : (f (st.streams i)).running = true → (f (st.streams i)).Good)
    (hrun : st.clients ≠ [] → (f (st.streams i)).running = true)
    (hpos : st.clients ≠ [] → (st.streams i).pos ≤ (f (st.streams i)).pos) : (st.onInput f).Good := by
  have hst : st.onInput f = { st with
      streams := Function.update st.streams i (f (st.streams i)) } := by
    rw [Capture.onInput, hin]
  rw [hst]
  refine ⟨?_, ?_, ?_, ?_⟩
  · intro hne
    simpa [Capture.isRunning, hin] using hrun hne
  · grind
  · intro j hj
    have hne : j ≠ i := fun heq => hj (heq ▸ hin)
    dsimp only
    rw [Function.update_of_ne hne]
    exact h.others j hj
  · intro c hc
    have hle := hpos (List.ne_nil_of_mem hc)
    have hc' := h.clients c hc
    simp only [Capture.pos, hin, Option.map_some, Option.getD_some] at hc' ⊢
    rw [Function.update_self]
    exact hc'.later hle

/-- **An update** brings the position to the hardware. -/
theorem Capture.Good.update (h : st.Good) : st.update.Good ∧ st.update.clients = st.clients ∧
    st.update.input = st.input ∧ st.update.inVolume = st.inVolume ∧
    (st.isRunning = true → st.update.isRunning = true ∧ st.update.pos = st.hw ∧
      st.update.hw = st.hw) := by
  cases hin : st.input with
  | none =>
    have hst : st.update = st := by
      rw [Capture.update, Capture.onInput, hin]
    rw [hst]
    refine ⟨h, rfl, hin, rfl, ?_⟩
    intro hrun
    simp [Capture.isRunning, hin] at hrun
  | some i =>
    have hst : st.update = { st with
        streams := Function.update st.streams i (st.streams i).update } := by
      rw [Capture.update, Capture.onInput, hin]
    have hrunning : st.isRunning = (st.streams i).running := by
      simp [Capture.isRunning, hin]
    by_cases hrun : (st.streams i).running = true
    · obtain ⟨heq, hgood⟩ := (h.stream i hin hrun).update hrun
      refine ⟨?_, ?_⟩
      · apply h.onInput hin (fun _ => hgood)
        · intro _
          rw [heq]
          exact hrun
        · intro _
          rw [heq]
          exact (h.stream i hin hrun).behind
      · rw [hst]
        simp [Capture.isRunning, Capture.pos, Capture.hw, hin, heq, hrun]
    · have hsame : (st.streams i).update = st.streams i := by
        rw [InStream.update, if_neg fun hc => hrun hc.1]
      rw [hst, hsame, Function.update_eq_self]
      refine ⟨h, rfl, hin, rfl, ?_⟩
      intro hrun'
      exact absurd (hrunning ▸ hrun') hrun

/-- **A read.** -/
theorem Capture.Good.read (h : st.Good) (id count : Nat) : (hdaRead st id count).Good := by
  rw [hdaRead]
  split
  · exact h
  · obtain ⟨hgood, hclients, hin, -, hrun⟩ := h.update
    apply hgood.onClient
    intro c hc
    have hne : st.clients ≠ [] := fun hnil => by simp [hclients, hnil] at hc
    obtain ⟨hrunning, hpos, hhw⟩ := hrun (h.running hne)
    obtain ⟨i, hi, hrunning'⟩ := stream_of_isRunning hrunning
    have hs := hgood.stream i hi hrunning'
    have hseen : (st.update.streams i).pos = (st.update.streams i).captured.length := by
      have heq := hpos.trans hhw.symm
      simpa [Capture.pos, Capture.hw, hi] using heq
    have hstream : st.update.pos = (st.update.streams i).pos := by
      simp [Capture.pos, hi]
    rw [hin] at hi
    rw [hin, hi]
    have htrim := (hgood.clients c hc).trim
    rw [hstream] at htrim ⊢
    exact htrim.copy hs hseen (trim_keeps c _) _ _

theorem Capture.Good.look (h : st.Good) (id : Nat) : (hdaLook st id).Good := by
  obtain ⟨hgood, -⟩ := h.update
  exact hgood.onClient id fun c hc => (hgood.clients c hc).trim

theorem Capture.Good.drop (h : st.Good) (id : Nat) : (hdaDrop st id).Good := by
  obtain ⟨hgood, -⟩ := h.update
  exact hgood.onClient id fun c hc => (hgood.clients c hc).moveTo (le_refl _)

/-- The stream in use is started, for the first client or on a new input. -/
theorem Capture.Good.start (h : st.Good) {i : Nat} (hin : st.input = some i)
    (hclients : st.clients = []) : (st.onInput InStream.start).Good ∧
      (st.onInput InStream.start).isRunning = true := by
  refine ⟨h.onInput hin (fun _ => InStream.start_good _) (fun _ => rfl) ?_, ?_⟩
  · intro hne
    exact absurd hclients hne
  · simp [Capture.isRunning, Capture.onInput, hin, InStream.start]

theorem Capture.Good.stop (h : st.Good) (hclients : st.clients = []) :
    (st.onInput InStream.stop).Good := by
  cases hin : st.input with
  | none =>
    rw [Capture.onInput, hin]
    exact h
  | some i =>
    apply h.onInput hin
    · intro hrun
      exact absurd hrun Bool.false_ne_true
    · intro hne
      exact absurd hclients hne
    · intro _
      exact le_refl _

theorem Capture.Good.withClients (h : st.Good) (hrun : st.isRunning = true)
    {clients : List CaptureClient} (hclients : ∀ c ∈ clients, c.Good st.pos) :
    Capture.Good { st with clients := clients } :=
  ⟨fun _ => hrun, h.stream, h.others, hclients⟩

theorem Capture.Good.opening (h : st.Good) (hin : st.input.isNone = false) :
    let st' := (if st.isRunning then st else st.onInput InStream.start).update
    st'.Good ∧ st'.isRunning = true ∧ st'.clients = st.clients ∧
      st'.pos = if st.isRunning then st.hw else 0 := by
  intro st'
  obtain ⟨i, hi⟩ := Option.isSome_iff_exists.mp (by simpa using hin)
  by_cases hrun : st.isRunning = true
  · obtain ⟨hgood, hclients, -, -, hpos⟩ := h.update
    obtain ⟨hrun', hpos', -⟩ := hpos hrun
    simp only [st', hrun, if_true]
    exact ⟨hgood, hrun', hclients, hpos'⟩
  · have hnil : st.clients = [] := by
      by_contra hne
      exact hrun (h.running hne)
    obtain ⟨hstart, hstarted⟩ := h.start hi hnil
    obtain ⟨hgood, hclients, -, -, hpos⟩ := hstart.update
    obtain ⟨hrun', hpos', -⟩ := hpos hstarted
    have hsame := onInput_clients st InStream.start
    have hhw : (st.onInput InStream.start).hw = 0 := by
      simp [Capture.hw, Capture.onInput, hi, InStream.start]
    simp only [st', hrun, if_false, Bool.false_eq_true]
    exact ⟨hgood, hrun', hclients.trans hsame, hpos'.trans hhw⟩

theorem Capture.Good.opens (h : st.Good) (id : Nat) : (hdaCaptureOpen st id).Good := by
  rw [hdaCaptureOpen]
  split
  · exact h
  · rename_i hin
    obtain ⟨hgood, hrun, hclients, -⟩ := h.opening (Bool.eq_false_iff.mpr hin)
    apply hgood.withClients hrun
    intro c hc
    rcases List.mem_cons.mp hc with rfl | hc
    · exact ⟨le_refl _, fun _ he => absurd he List.not_mem_nil, List.isChain_nil,
        fun _ he => absurd he (by simp)⟩
    · exact hgood.clients c hc

theorem Capture.Good.close (h : st.Good) (id : Nat) : (hdaCaptureClose st id).Good := by
  have hsub : ∀ c ∈ st.clients.filter (fun c => c.id ≠ id), c ∈ st.clients :=
    fun c hc => (List.mem_filter.mp hc).1
  have hgood : Capture.Good { st with clients := st.clients.filter fun c => c.id ≠ id } := by
    refine ⟨?_, h.stream, h.others, fun c hc => h.clients c (hsub c hc)⟩
    intro hne
    obtain ⟨c, hc⟩ := List.exists_mem_of_ne_nil _ hne
    exact h.running (List.ne_nil_of_mem (hsub c hc))
  rw [hdaCaptureClose]
  split
  · rename_i hlast
    exact hgood.stop hlast.1
  · exact hgood

theorem useStream_clients (st : Capture) (i : Nat) : (st.useStream i).clients = st.clients := by
  simp only [Capture.useStream]
  split
  · exact onInput_clients st _
  · rfl

theorem useStream_withClients (st : Capture) (i : Nat) (clients : List CaptureClient) :
    Capture.useStream { st with clients := clients } i =
      { st.useStream i with clients := clients } := by
  by_cases hrun : st.isRunning = true
  · have hrun' : Capture.isRunning { st with clients := clients } = true := hrun
    obtain ⟨j, hj, -⟩ := stream_of_isRunning hrun
    rw [Capture.useStream, Capture.useStream, if_pos hrun, if_pos hrun']
    simp [Capture.onInput, hj]
  · have hrun' : ¬ Capture.isRunning { st with clients := clients } = true := hrun
    simp [Capture.useStream, hrun, hrun']

/-- **A change of the input** stops the stream that runs. -/
theorem Capture.Good.useStream (h : st.Good) (i : Nat) (hclients : st.clients = []) :
    (st.useStream i).Good := by
  have hquiet : ∀ j, ((st.useStream i).streams j).running = false := by
    intro j
    simp only [Capture.useStream]
    cases hin : st.input with
    | none =>
      have hnot : st.isRunning = false := by simp [Capture.isRunning, hin]
      rw [hnot]
      exact h.others j (by simp [hin])
    | some i' =>
      have hrunning : st.isRunning = (st.streams i').running := by simp [Capture.isRunning, hin]
      by_cases hj : j = i'
      · subst hj
        by_cases hrun : st.isRunning = true
        · simp [hrun, Capture.onInput, hin, InStream.stop]
        · simp only [hrun, if_false, Bool.false_eq_true]
          exact hrunning ▸ Bool.eq_false_iff.mpr hrun
      · have hother := h.others j (by simpa [hin] using Ne.symm hj)
        split
        · simp [Capture.onInput, hin, Function.update_of_ne hj, hother]
        · exact hother
  have hnone : (st.useStream i).clients = [] := (useStream_clients st i).trans hclients
  refine ⟨fun hne => absurd hnone hne, ?_, fun j _ => hquiet j, ?_⟩
  · intro j _ hrun
    exact absurd hrun (by rw [hquiet j]; exact Bool.false_ne_true)
  · intro c hc
    rw [hnone] at hc
    exact absurd hc List.not_mem_nil

theorem Capture.Good.select (h : st.Good) (i : Nat) : (hdaSelectInput st i).Good := by
  rw [hdaSelectInput]
  split
  · exact h
  · dsimp only
    rw [useStream_clients]
    split
    · rename_i hnil
      exact h.useStream i hnil
    · -- the clients wait while the new stream starts
      have hbare : Capture.Good { st with clients := [] } :=
        ⟨fun hne => absurd rfl hne, h.stream, h.others, fun c hc => absurd hc List.not_mem_nil⟩
      have hsel := hbare.useStream i rfl
      obtain ⟨hgood, hrun⟩ := hsel.start (i := i) rfl (useStream_clients _ i)
      have hpos : ∀ c ∈ st.clients.map fun c => c.moveTo 0, c.Good
          (Capture.pos (Capture.onInput (Capture.useStream { st with clients := [] } i)
            InStream.start)) := by
        intro c hc
        obtain ⟨c', hc', rfl⟩ := List.mem_map.mp hc
        exact (h.clients c' hc').moveTo (Nat.zero_le _)
      have hfinal := hgood.withClients hrun hpos
      rw [useStream_withClients] at hfinal
      rw [onInput_clients, useStream_clients]
      exact hfinal

theorem Capture.Good.hear (h : st.Good) (b : UInt8) (hlegal : captureLegal st (.hear b)) :
    (st.onInput fun s => s.hear b).Good := by
  obtain ⟨hrun, hroom⟩ := hlegal
  obtain ⟨i, hin, hrunning⟩ := stream_of_isRunning hrun
  have hroom' : (st.streams i).captured.length + 1 < (st.streams i).pos + hdaBufSize := by
    simpa [Capture.hw, Capture.pos, hin] using hroom
  exact h.onInput hin (fun _ => (h.stream i hin hrunning).hear b hroom') (fun _ => hrunning)
    (fun _ => le_refl _)

theorem Capture.Good.step (h : st.Good) {op : CaptureOp} (hlegal : captureLegal st op) :
    (captureStep st op).Good := by
  cases op with
  | opens id => exact h.opens id
  | close id => exact h.close id
  | read id count => exact h.read id count
  | look id => exact h.look id
  | drop id => exact h.drop id
  | poll => exact h.update.1
  | select i => exact h.select i
  | volume v => exact ⟨h.running, h.stream, h.others, h.clients⟩
  | hear b => exact h.hear b hlegal

theorem Capture.good_start (hs : captureMachine.start st) : st.Good := by
  obtain ⟨hclients, hquiet⟩ := hs
  refine ⟨fun hne => absurd hclients hne, ?_, fun i _ => hquiet i, ?_⟩
  · intro i _ hrun
    exact absurd hrun (by rw [hquiet i]; exact Bool.false_ne_true)
  · intro c hc
    rw [hclients] at hc
    exact absurd hc List.not_mem_nil

/-! ## Frames -/

/-- A client is at the beginning of a frame, and was at each read. -/
def CaptureClient.Framed (c : CaptureClient) : Prop :=
  c.pos % hdaFrame = 0 ∧ ∀ e ∈ c.log, e.Framed

theorem CaptureClient.Framed.log {c' : CaptureClient} {e : CaptureEntry} (h : c.Framed)
    (hlog : c'.log = c.log ++ [e]) (hpos : c'.pos % hdaFrame = 0) (he : e.Framed) : c'.Framed := by
  refine ⟨hpos, ?_⟩
  intro e' he'
  rw [hlog] at he'
  rcases List.mem_append.mp he' with he' | he'
  · exact h.2 e' he'
  · rw [List.mem_singleton.mp he']
    exact he

theorem CaptureClient.Framed.trim (h : c.Framed)
    (hframe : hdaCaptureKeep < pos - c.pos → pos % hdaFrame = 0) : (c.trim pos).Framed := by
  rw [CaptureClient.trim]
  split
  · rename_i hfar
    have hpos := hframe hfar
    refine h.log rfl ?_ trivial
    simp only [hdaFrame, hdaCaptureKeep_eq] at hpos hfar ⊢
    omega
  · exact h

theorem CaptureClient.Framed.copy (h : c.Framed) (s : InStream) (vol count : Nat) :
    (c.copy s vol (readCount count)).Framed := by
  rw [CaptureClient.copy]
  split
  · have hcount := readCount_framed count
    have hpos := h.1
    refine h.log rfl ?_ h.1
    simp only [hdaFrame] at hcount hpos ⊢
    omega
  · exact h

theorem framed_onClient (id : Nat) {f : CaptureClient → CaptureClient}
    (h : ∀ c ∈ st.clients, c.Framed) (hf : ∀ c ∈ st.clients, c.id = id → (f c).Framed) :
    ∀ c ∈ (st.onClient id f).clients, c.Framed := by
  intro c hc
  obtain ⟨c', hc', rfl⟩ := List.mem_map.mp hc
  split
  · rename_i hid
    exact hf c' hc' hid
  · exact h c' hc'

/-- **A step** at which no position inside a frame is taken over. -/
theorem framed_step (hgood : st.Good) (h : ∀ c ∈ st.clients, c.Framed) {op : CaptureOp}
    (hframe : FrameStart st op) : ∀ c ∈ (captureStep st op).clients, c.Framed := by
  obtain ⟨-, hclients, hin, -, hrun⟩ := hgood.update
  have hupdate : ∀ c ∈ st.update.clients, c.Framed ∧ st.update.pos = st.hw ∧ c ∈ st.clients := by
    intro c hc
    rw [hclients] at hc
    exact ⟨h c hc, (hrun (hgood.running (List.ne_nil_of_mem hc))).2.1, hc⟩
  cases op with
  | opens id =>
    change ∀ c ∈ (hdaCaptureOpen st id).clients, c.Framed
    rw [hdaCaptureOpen]
    split
    · exact h
    · rename_i hnone
      obtain ⟨-, -, hsame, hpos⟩ := hgood.opening (Bool.eq_false_iff.mpr hnone)
      intro c hc
      rcases List.mem_cons.mp hc with rfl | hc
      · refine ⟨?_, fun _ he => absurd he List.not_mem_nil⟩
        rw [hpos]
        split
        · rename_i hrunning
          exact hframe hrunning
        · rfl
      · rw [hsame] at hc
        exact h c hc
  | close id =>
    have hfilter : (hdaCaptureClose st id).clients = st.clients.filter fun c => c.id ≠ id := by
      rw [hdaCaptureClose]
      split
      · rw [onInput_clients]
      · rfl
    intro c hc
    rw [captureStep, hfilter] at hc
    exact h c (List.mem_filter.mp hc).1
  | read id count =>
    change ∀ c ∈ (hdaRead st id count).clients, c.Framed
    rw [hdaRead]
    split
    · exact h
    · rename_i hcount
      apply framed_onClient id fun c hc => (hupdate c hc).1
      intro c hc hid
      obtain ⟨hc', hpos, hmem⟩ := hupdate c hc
      split
      · apply CaptureClient.Framed.copy
        apply hc'.trim
        rw [hpos]
        exact hframe hcount c hmem hid
      · exact hc'
  | look id =>
    apply framed_onClient id fun c hc => (hupdate c hc).1
    intro c hc hid
    obtain ⟨hc', hpos, hmem⟩ := hupdate c hc
    apply hc'.trim
    rw [hpos]
    exact hframe c hmem hid
  | drop id =>
    apply framed_onClient id fun c hc => (hupdate c hc).1
    intro c hc _
    obtain ⟨hc', hpos, -⟩ := hupdate c hc
    exact hc'.log rfl (hpos ▸ hframe) trivial
  | poll => exact fun c hc => (hupdate c hc).1
  | select i =>
    change ∀ c ∈ (hdaSelectInput st i).clients, c.Framed
    have hmoved : ∀ c ∈ st.clients.map fun c => c.moveTo 0, c.Framed := by
      intro c hc
      obtain ⟨c', hc', rfl⟩ := List.mem_map.mp hc
      exact (h c' hc').log rfl rfl trivial
    rw [hdaSelectInput]
    split
    · exact h
    · dsimp only
      rw [onInput_clients, useStream_clients]
      split
      · rw [useStream_clients]
        exact h
      · exact hmoved
  | volume v => exact h
  | hear b =>
    intro c hc
    rw [captureStep, onInput_clients] at hc
    exact h c hc

/-! ## Runs -/

/-- **Reads** return what the hardware wrote and still has, and follow each other, in every
run. -/
theorem capture_right {st : Capture} (hst : captureMachine.Reachable captureLegal st) :
    ∀ c ∈ st.clients, (∀ e ∈ c.log, e.Right) ∧ c.log.IsChain CaptureEntry.Follows := by
  have hgood : st.Good := by
    apply hst.invariant (P := Capture.Good)
    · exact fun st hs => Capture.good_start hs
    · exact fun st op hinv hg => hinv.step hg
  intro c hc
  exact ⟨(hgood.clients c hc).right, (hgood.clients c hc).chain⟩

/-- **They also start with a frame** in every run in which no position inside a frame is taken
over. -/
theorem capture_reads {st : Capture}
    (hst : captureMachine.Reachable captureFramed st) :
    ∀ c ∈ st.clients, (∀ e ∈ c.log, e.Right ∧ e.Framed) ∧ c.log.IsChain CaptureEntry.Follows := by
  have hframed : st.Good ∧ ∀ c ∈ st.clients, c.Framed := by
    apply hst.invariant (P := fun st => st.Good ∧ ∀ c ∈ st.clients, c.Framed)
    · intro st hs
      refine ⟨Capture.good_start hs, ?_⟩
      intro c hc
      rw [hs.1] at hc
      exact absurd hc List.not_mem_nil
    · intro st op hinv hg
      exact ⟨hinv.1.step hg.1, framed_step hinv.1 hinv.2 hg.2⟩
  have hright := capture_right (hst.mono fun _ _ hg => hg.1)
  intro c hc
  exact ⟨fun e he => ⟨(hright c hc).1 e he, (hframed.2 c hc).2 e he⟩, (hright c hc).2⟩

/-- The driver with one input stream, before it is used. -/
def quietInput : Capture := ⟨fun _ => { buf := fun _ => 0 }, some 0, [], 256⟩

theorem quietInput_start : captureMachine.start quietInput := ⟨rfl, fun _ => rfl⟩

/-- A client reads the frame that the hardware wrote after it was opened. -/
def oneFrame : List CaptureOp := [.opens 1, .hear 1, .hear 2, .hear 3, .hear 4, .read 1 4]

theorem oneFrame_log : (captureMachine.run quietInput oneFrame).clients =
    [⟨1, 4, [.read 0 [1, 2, 3, 4] 256 [1, 2, 3, 4]]⟩] := by
  rfl

/-- A client is opened when the hardware is in the middle of a frame. -/
def midFrame : List CaptureOp :=
  [.opens 1, .hear 1, .hear 2, .opens 2, .hear 3, .hear 4, .hear 5, .hear 6, .read 2 4]

theorem midFrame_log : (captureMachine.run quietInput midFrame).clients =
    [⟨2, 6, [.read 2 [3, 4, 5, 6] 256 [1, 2, 3, 4, 5, 6]]⟩, ⟨1, 0, []⟩] := by
  rfl

theorem reachable_of_guarded {guard : Capture → CaptureOp → Prop} {ops : List CaptureOp}
    (hg : ∀ pre op post, ops = pre ++ op :: post → guard (captureMachine.run quietInput pre) op) :
    captureMachine.Reachable guard (captureMachine.run quietInput ops) :=
  (Machine.Reachable.start quietInput_start).run ops hg

theorem oneFrame_reads : (CaptureEntry.read 0 [1, 2, 3, 4] 256 [1, 2, 3, 4]).Right ∧
    (CaptureEntry.read 0 [1, 2, 3, 4] 256 [1, 2, 3, 4]).Framed := by
  have hreach : captureMachine.Reachable captureFramed (captureMachine.run quietInput oneFrame) := by
    apply reachable_of_guarded
    simp only [oneFrame, Machine.guarded_cons]
    refine ⟨by decide, by decide, by decide, by decide, by decide, by decide, Machine.guarded_nil⟩
  have hreads := capture_reads hreach
  rw [oneFrame_log] at hreads
  exact (hreads _ (List.mem_singleton_self _)).1 _ (List.mem_singleton_self _)

/-- Its read starts in the middle of that frame. -/
theorem midFrame_not_framed : ¬ ∀ st, captureMachine.Reachable captureLegal st →
    ∀ c ∈ st.clients, ∀ e ∈ c.log, e.Framed := by
  intro h
  have hreach : captureMachine.Reachable captureLegal (captureMachine.run quietInput midFrame) := by
    apply reachable_of_guarded
    simp only [midFrame, Machine.guarded_cons]
    refine ⟨by decide, by decide, by decide, by decide, by decide, by decide, by decide,
      by decide, by decide, Machine.guarded_nil⟩
  have hframed := h _ hreach
  rw [midFrame_log] at hframed
  have hread := hframed _ List.mem_cons_self _ (List.mem_singleton_self _)
  exact absurd hread (by decide : ¬ 2 % hdaFrame = 0)

end Audio
