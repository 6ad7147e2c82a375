import Mathlib.Data.List.Nodup
import StrawOS.Audio.Model

/-!
# The playback queue

What becomes of the bytes of a client: the entries of its log tile the bytes
before `tail`, each mixed entry holds the bytes that were written there, and the
entries of one run of the stream lie one behind the other.  What the stream adds
is that at a poll no cell is left that was played and not zeroed.
-/

namespace Audio

/-! ## Logs -/

namespace Entry

/-- The first byte of the client that the entry is about. -/
def start : Entry → Nat
  | mixed _ src _ _ _ _ => src
  | dropped src _ => src

/-- The first byte behind. -/
def stop : Entry → Nat
  | mixed _ src _ _ data _ => src + data.length
  | dropped _ upto => upto

/-- The first entry is played before the second. -/
def Before : Entry → Entry → Prop
  | mixed run _ place _ data _, mixed run' _ place' _ _ _ =>
      run < run' ∨ (run = run' ∧ place + data.length ≤ place')
  | _, _ => True

/-- The entry is played before the position of a run of the stream. -/
def Until (run fill : Nat) : Entry → Prop
  | mixed r _ place _ data _ => r < run ∨ (r = run ∧ place + data.length ≤ fill)
  | dropped _ _ => True

/-- An entry that did what it should: whole frames, read inside the ring and as
they were written, at a frame of the stream that the poll has not passed, in
cells zeroed since they were played. -/
def Right (written : List UInt8) : Entry → Prop
  | mixed _ src place seen data clean =>
      data.length % hdaFrame = 0 ∧ data = (written.drop src).take data.length ∧
      (∀ k, 2 * k < data.length → (src + 2 * k) % hdaClientRing + 2 ≤ hdaClientRing) ∧
      place % hdaFrame = 0 ∧ seen ≤ place ∧ clean = true
  | dropped src upto => src ≤ upto

end Entry

/-- The entries follow one another from byte `a` to byte `b`. -/
def Tiles (a : Nat) : List Entry → Nat → Prop
  | [], b => a = b
  | e :: es, b => e.start = a ∧ Tiles e.stop es b

theorem Tiles.snoc {a : Nat} {es : List Entry} {e : Entry} (h : Tiles a es e.start) :
    Tiles a (es ++ [e]) e.stop := by
  induction es generalizing a with
  | nil => exact ⟨Eq.symm h, rfl⟩
  | cons e' es ih => exact ⟨h.1, ih h.2⟩

theorem Entry.Right.mono {written more : List UInt8} {e : Entry} (h : e.Right written)
    (hstop : e.stop ≤ written.length) : e.Right (written ++ more) := by
  cases e with
  | dropped src upto => exact h
  | mixed run src place seen data clean =>
    obtain ⟨hlen, hdata, hrest⟩ := h
    refine ⟨hlen, ?_, hrest⟩
    simp only [Entry.stop] at hstop
    rw [List.drop_append_of_le_length (by omega), List.take_append_of_le_length]
    · exact hdata
    · rw [List.length_drop]
      omega

/-! ## One client -/

/-- A client in a stream that has filled up to `fill` in the run `run`. -/
structure Client.Good (run fill : Nat) (c : Client) : Prop where
  tail_le : c.tail ≤ c.head
  room : c.head - c.tail ≤ hdaClientRing
  even : c.tail % 2 = 0
  written : c.written.length = c.head
  queued : Buf.ring hdaClientRing c.ring (c.tail % hdaClientRing) (c.head - c.tail) =
    c.written.drop c.tail
  tiles : Tiles 0 c.log c.tail
  right : ∀ e ∈ c.log, e.Right c.written
  stops : ∀ e ∈ c.log, e.stop ≤ c.tail
  order : c.log.Pairwise Entry.Before
  filled : ∀ e ∈ c.log, e.Until run fill
  whole : c.closing = true → (c.head - c.tail) % hdaFrame = 0

theorem Client.Good.later {run fill run' fill' : Nat} {c : Client} (h : c.Good run fill)
    (hle : run < run' ∨ (run = run' ∧ fill ≤ fill')) : c.Good run' fill' := by
  refine { h with filled := ?_ }
  intro e he
  have hu := h.filled e he
  cases e with
  | dropped src upto => trivial
  | mixed r src place seen data clean =>
    simp only [Entry.Until] at hu ⊢
    omega

theorem Client.fresh_good (id : Nat) (ring : Nat → UInt8) (run fill : Nat) :
    (Client.fresh id ring).Good run fill := by
  constructor <;> simp [Client.fresh, Tiles]

theorem tail_lt (c : Client) : c.tail % hdaClientRing < hdaClientRing :=
  Nat.mod_lt _ (Nat.two_pow_pos 15)

/-- **A write.** -/
theorem Client.Good.push {run fill : Nat} {c : Client} (h : c.Good run fill)
    (hopen : c.closing = false) (src : List UInt8) : (c.push src).Good run fill := by
  have hroom := h.room
  have hle := h.tail_le
  have hlen : (src.take (min (hdaClientRing - (c.head - c.tail)) src.length)).length =
      min (hdaClientRing - (c.head - c.tail)) src.length := by
    rw [List.length_take]
    omega
  simp only [Client.push]
  generalize hn : min (hdaClientRing - (c.head - c.tail)) src.length = n at hlen ⊢
  constructor
  · simp only
    omega
  · simp only
    omega
  · exact h.even
  · rw [List.length_append, h.written, hlen]
  · have hpush := Buf.ring_push c.ring (src.take n) (tail_lt c)
      (show c.head - c.tail + (src.take n).length ≤ hdaClientRing by omega)
    have hhead : (c.tail % hdaClientRing + (c.head - c.tail)) % hdaClientRing =
        c.head % hdaClientRing := by
      rw [Nat.mod_add_mod, Nat.add_sub_cancel' hle]
    have hcount : c.head - c.tail + (src.take n).length = c.head + n - c.tail := by omega
    rw [hhead, hcount, h.queued] at hpush
    rw [hpush, List.drop_append_of_le_length (by rw [h.written]; exact hle)]
  · exact h.tiles
  · intro e he
    apply (h.right e he).mono
    rw [h.written]
    exact Nat.le_trans (h.stops e he) hle
  · exact h.stops
  · exact h.order
  · exact h.filled
  · simp [hopen]

/-- **A drop** at an even byte. -/
theorem Client.Good.drop {run fill : Nat} {c : Client} (h : c.Good run fill)
    (heven : c.head % 2 = 0) : c.drop.Good run fill := by
  have hle := h.tail_le
  simp only [Client.drop]
  constructor
  · simp
  · simp
  · exact heven
  · exact h.written
  · simp [h.written]
  · exact Tiles.snoc (e := .dropped c.tail c.head) h.tiles
  · intro e he
    rcases List.mem_append.mp he with he | he
    · exact h.right e he
    · rw [List.mem_singleton.mp he]
      exact hle
  · intro e he
    rcases List.mem_append.mp he with he | he
    · exact Nat.le_trans (h.stops e he) hle
    · rw [List.mem_singleton.mp he]
      exact Nat.le_refl _
  · rw [List.pairwise_append]
    refine ⟨h.order, List.pairwise_singleton _ _, ?_⟩
    intro e he e' he'
    rw [List.mem_singleton.mp he']
    cases e <;> trivial
  · intro e he
    rcases List.mem_append.mp he with he | he
    · exact h.filled e he
    · rw [List.mem_singleton.mp he]
      trivial
  · simp

theorem flatMap_pairs {α : Type} (f : Nat → α) (m : Nat) :
    (List.range m).flatMap (fun k => [f (2 * k), f (2 * k + 1)]) = (List.range (2 * m)).map f := by
  induction m with
  | zero => rfl
  | succ m ih =>
    have htwo : 2 * (m + 1) = 2 * m + 1 + 1 := by omega
    rw [List.range_succ, List.flatMap_append, ih, htwo, List.range_succ, List.range_succ]
    simp

/-- A 16-bit access from an even byte of the queue lies inside the ring. -/
theorem access_inside {t i : Nat} (ht : t % 2 = 0) (hi : i % 2 = 0) :
    (t + i) % hdaClientRing + 2 ≤ hdaClientRing ∧
      (t + i) % hdaClientRing + 1 = (t + (i + 1)) % hdaClientRing := by
  simp only [hdaClientRing]
  omega

/-- What the loop reads from a queue that starts at an even byte is the queue. -/
theorem Client.Good.bytesRead {run fill : Nat} {c : Client} (h : c.Good run fill) {n : Nat}
    (hn : n % 2 = 0) (hle : n ≤ c.head - c.tail) :
    c.bytesRead n = (c.written.drop c.tail).take n := by
  have hpairs := flatMap_pairs (fun i => c.ring ((c.tail + i) % hdaClientRing)) (n / 2)
  have htwo : 2 * (n / 2) = n := by omega
  have haccess : ∀ k, c.access (2 * k) =
      [c.ring ((c.tail + 2 * k) % hdaClientRing), c.ring ((c.tail + (2 * k + 1)) % hdaClientRing)] := by
    intro k
    rw [Client.access, (access_inside h.even (by omega)).2]
  rw [Client.bytesRead]
  simp only [haccess]
  rw [hpairs, htwo, ← h.queued, Buf.ring, ← List.map_take, List.take_range,
    Nat.min_eq_left hle]
  apply List.map_congr_left
  intro i _
  rw [Nat.mod_add_mod]

/-- **Mixing** at a frame that the poll has not passed, in clean cells. -/
theorem Client.Good.mixed {st : Hda} {c : Client} (h : c.Good st.starts st.fill)
    (hplace : st.fill % hdaFrame = 0) (hseen : st.pos ≤ st.fill)
    (hclean : ∀ n, st.cleanAt st.fill n = true) {bytes : Nat} (hbytes : bytes % hdaFrame = 0) :
    (c.mixed st st.fill bytes).Good st.starts (st.fill + bytes) := by
  have hle := h.tail_le
  have hroom := h.room
  have heven := h.even
  have havail : c.avail ≤ c.head - c.tail := Nat.div_mul_le_self _ _
  have havail4 : c.avail % 4 = 0 := by simp [Client.avail, hdaFrame]
  simp only [Client.mixed]
  -- From here on only the number of bytes matters.
  have hn4 : min bytes c.avail % 4 = 0 := by
    simp only [hdaFrame] at hbytes
    omega
  have hnle : min bytes c.avail ≤ c.head - c.tail := by omega
  have hnbytes : min bytes c.avail ≤ bytes := Nat.min_le_left _ _
  generalize min bytes c.avail = n at hn4 hnle hnbytes ⊢
  have hread := h.bytesRead (n := n) (by omega) hnle
  have hlen : (c.bytesRead n).length = n := by
    rw [hread, List.length_take, List.length_drop, h.written]
    omega
  have hmem : ∀ e ∈ c.log ++ [Entry.mixed st.starts c.tail st.fill st.pos (c.bytesRead n)
      (st.cleanAt st.fill n)], e ∈ c.log ∨ e = Entry.mixed st.starts c.tail st.fill st.pos
        (c.bytesRead n) (st.cleanAt st.fill n) := by
    intro e he
    exact (List.mem_append.mp he).imp_right List.mem_singleton.mp
  constructor
  · simp only
    omega
  · simp only
    omega
  · simp only
    omega
  · exact h.written
  · have hpop := (Buf.ring_pop c.ring (tail_lt c) hroom hnle).2
    rw [Nat.mod_add_mod, h.queued, List.drop_drop, Nat.sub_sub] at hpop
    exact hpop
  · have hsnoc := Tiles.snoc (e := .mixed st.starts c.tail st.fill st.pos (c.bytesRead n)
      (st.cleanAt st.fill n)) h.tiles
    simp only [Entry.stop, hlen] at hsnoc
    exact hsnoc
  · intro e he
    rcases hmem e he with he | rfl
    · exact h.right e he
    · refine ⟨by rw [hlen]; exact hn4, by rw [hlen]; exact hread, ?_, hplace, hseen, hclean n⟩
      intro k _
      exact (access_inside heven (by omega)).1
  · intro e he
    rcases hmem e he with he | rfl
    · exact Nat.le_trans (h.stops e he) (Nat.le_add_right _ _)
    · simp [Entry.stop, hlen]
  · rw [List.pairwise_append]
    refine ⟨h.order, List.pairwise_singleton _ _, ?_⟩
    intro e he e' he'
    rw [List.mem_singleton.mp he']
    have hu := h.filled e he
    cases e with
    | dropped src upto => trivial
    | mixed r src place seen data clean => exact hu
  · intro e he
    rcases hmem e he with he | rfl
    · have hu := h.filled e he
      cases e with
      | dropped src upto => trivial
      | mixed r src place seen data clean =>
        simp only [Entry.Until] at hu ⊢
        omega
    · exact Or.inr ⟨rfl, by rw [hlen]; exact Nat.add_le_add_left hnbytes _⟩
  · intro hclosing
    have := h.whole hclosing
    simp only [hdaFrame] at this ⊢
    omega

/-! ## The stream -/

/-- Setting the cells of a range of positions: each cell is set, or it is no
position of the range and keeps its value. -/
theorem ringSet_spec {α : Type} (v : α) (ring : Nat → α) (start stop : Nat) {j : Nat}
    (hj : j < hdaBufSize) :
    ringSet v ring start stop j = v ∨ (ringSet v ring start stop j = ring j ∧
      ∀ x, start ≤ x → x < stop → x % hdaBufSize ≠ j) := by
  fun_induction ringSet v ring start stop with
  | case1 ring start hlt off n ih =>
    rcases ih with hset | ⟨hkeep, hnot⟩
    · exact Or.inl hset
    · by_cases hin : off ≤ j ∧ j < off + n
      · left
        refine hkeep.trans ?_
        obtain ⟨i, rfl⟩ : ∃ i, j = off + i := ⟨j - off, by omega⟩
        rw [Buf.write_of_mem (by rw [List.length_replicate]; omega), List.getElem_replicate]
      · right
        constructor
        · refine hkeep.trans ?_
          by_cases hbelow : j < off
          · exact Buf.write_of_lt hbelow
          · exact Buf.write_of_ge (by rw [List.length_replicate]; omega)
        · intro x h1 h2 hx
          by_cases hx' : x < start + n
          · have hmod : x % hdaBufSize = off + (x - start) := by
              have hsplit : x = start + (x - start) := by omega
              rw [hsplit, Nat.add_mod, Nat.mod_eq_of_lt (b := hdaBufSize) (a := x - start) (by omega)]
              have hsum : start % hdaBufSize + (x - start) < hdaBufSize := by omega
              rw [Nat.mod_eq_of_lt hsum]
              omega
            omega
          · exact hnot x (by omega) h2 hx
  | case2 ring start hge =>
    right
    exact ⟨rfl, fun x h1 h2 => absurd h2 (by omega)⟩

theorem hdaRingZero_spec {α : Type} (v : α) (ring : Nat → α) (start stop : Nat) {j : Nat}
    (hj : j < hdaBufSize) :
    hdaRingZero v ring start stop j = v ∨ (hdaRingZero v ring start stop j = ring j ∧
      ∀ x, start ≤ x → x < stop → x % hdaBufSize ≠ j) := by
  rw [hdaRingZero]
  split
  · left
    rw [Buf.write_zero_of_mem (by rwa [List.length_replicate]), List.getElem_replicate]
  · exact ringSet_spec v ring start stop hj

/-- The driver.  The cells that were played and not zeroed are those between the
position last seen and the hardware. -/
structure Hda.Good (st : Hda) : Prop where
  ids : (st.clients.map Client.id).Nodup
  clients : ∀ c ∈ st.clients, c.Good st.starts st.fill
  gone : ∀ c ∈ st.gone, c.Good st.starts st.fill
  aligned : st.fill % hdaFrame = 0
  register : st.running = true → st.lastLpib = st.pos % hdaBufSize
  ahead : st.running = true → st.pos ≤ st.hw ∧ st.hw < st.pos + hdaBufSize
  cells : st.running = true → ∀ j < hdaBufSize, st.played j = true →
    ∃ x, st.pos ≤ x ∧ x < st.hw ∧ x % hdaBufSize = j
  quiet : st.running = false → ∀ c ∈ st.clients, c.head = 0
  spent : ∀ c ∈ st.gone, c.head = c.tail

theorem hdaPlayFill_eq (st : Hda) : hdaPlayFill st =
    if st.target ≤ st.fillStart then { st with fill := st.fillStart }
    else { st with
      buf := st.clients.foldl (fun buf c => mixInto st.volume c st.fillStart
        (min (st.target - st.fillStart) c.avail) buf) st.buf
      clients := st.clients.map fun c => c.mixed { st with fill := st.fillStart } st.fillStart
        (st.target - st.fillStart)
      fill := st.target } := rfl

theorem map_mixed_id (cs : List Client) (st : Hda) (place bytes : Nat) :
    (cs.map fun c => c.mixed st place bytes).map Client.id = cs.map Client.id := by
  rw [List.map_map]
  rfl

theorem mem_map_mixed {cs : List Client} {st : Hda} {place bytes : Nat} {c : Client}
    (hc : c ∈ cs.map fun c => c.mixed st place bytes) :
    ∃ c0 ∈ cs, c0.id = c.id ∧ c0.closing = c.closing := by
  obtain ⟨c0, hc0, rfl⟩ := List.mem_map.mp hc
  exact ⟨c0, hc0, rfl, rfl⟩

theorem fillStart_spec (st : Hda) (haligned : st.fill % hdaFrame = 0) :
    st.fill ≤ st.fillStart ∧ st.pos ≤ st.fillStart ∧ st.fillStart % hdaFrame = 0 := by
  simp only [Hda.fillStart, hdaFrame] at *
  split <;> omega

theorem target_aligned (st : Hda) : st.target % hdaFrame = 0 := by
  simp [Hda.target, hdaFrame]

/-- **A fill** of a buffer without played cells: every client goes on in the
positions before the target. -/
theorem hdaPlayFill_good {st : Hda} (hclients : ∀ c ∈ st.clients, c.Good st.starts st.fill)
    (hgone : ∀ c ∈ st.gone, c.Good st.starts st.fill) (haligned : st.fill % hdaFrame = 0)
    (hclean : ∀ j < hdaBufSize, st.played j = false) :
    (∀ c ∈ (hdaPlayFill st).clients, c.Good (hdaPlayFill st).starts (hdaPlayFill st).fill) ∧
      (∀ c ∈ (hdaPlayFill st).gone, c.Good (hdaPlayFill st).starts (hdaPlayFill st).fill) ∧
      (hdaPlayFill st).fill % hdaFrame = 0 := by
  obtain ⟨hle, hpos, h4⟩ := fillStart_spec st haligned
  have htarget := target_aligned st
  have hall : ∀ n, ({ st with fill := st.fillStart } : Hda).cleanAt st.fillStart n = true := by
    intro n
    simp only [Hda.cleanAt, List.all_eq_true]
    intro i _
    simp [hclean _ (Nat.mod_lt (st.fillStart + i) hdaBufSize_pos)]
  rw [hdaPlayFill]
  by_cases hfull : st.target ≤ st.fillStart
  · have hfull' : ({ st with fill := st.fillStart } : Hda).target ≤ st.fillStart := hfull
    simp only [hfull', if_true]
    exact ⟨fun c hc => (hclients c hc).later (Or.inr ⟨rfl, hle⟩),
      fun c hc => (hgone c hc).later (Or.inr ⟨rfl, hle⟩), h4⟩
  · have hfull' : ¬ ({ st with fill := st.fillStart } : Hda).target ≤ st.fillStart := hfull
    simp only [hfull', if_false]
    have hsum : st.fillStart + (st.target - st.fillStart) = st.target := by omega
    refine ⟨?_, ?_, htarget⟩
    · intro c hc
      obtain ⟨c0, hc0, rfl⟩ := List.mem_map.mp hc
      have hgood : c0.Good ({ st with fill := st.fillStart } : Hda).starts st.fillStart :=
        (hclients c0 hc0).later (Or.inr ⟨rfl, hle⟩)
      have hbytes : (st.target - st.fillStart) % hdaFrame = 0 := by
        simp only [hdaFrame] at *
        omega
      have hmixed := Client.Good.mixed hgood h4 hpos hall hbytes
      rw [hsum] at hmixed
      exact hmixed
    · intro c hc
      exact (hgone c hc).later (Or.inr ⟨rfl, by omega⟩)

theorem hdaPlayFill_clients (st : Hda) : (hdaPlayFill st).clients =
    if st.target ≤ st.fillStart then st.clients
    else st.clients.map fun c => c.mixed { st with fill := st.fillStart } st.fillStart
      (st.target - st.fillStart) := by
  rw [hdaPlayFill_eq]
  split
  · rfl
  · rfl

/-- A fill changes nothing but the buffer, the clients and the fill. -/
theorem hdaPlayFill_frame (st : Hda) :
    (hdaPlayFill st).clients.map Client.id = st.clients.map Client.id ∧
      (hdaPlayFill st).pos = st.pos ∧ (hdaPlayFill st).hw = st.hw ∧
      (hdaPlayFill st).lastLpib = st.lastLpib ∧ (hdaPlayFill st).played = st.played ∧
      (hdaPlayFill st).running = st.running ∧ (hdaPlayFill st).gone = st.gone := by
  refine ⟨?_, ?_⟩
  · rw [hdaPlayFill_clients]
    by_cases hfull : st.target ≤ st.fillStart
    · rw [if_pos hfull]
    · rw [if_neg hfull]
      exact map_mixed_id _ _ _ _
  · rw [hdaPlayFill_eq]
    split <;> exact ⟨rfl, rfl, rfl, rfl, rfl, rfl⟩

/-! ## The steps -/

theorem Hda.Good.start {st : Hda} (h : st.Good) : (hdaPlayStart st).Good := by
  rw [hdaPlayStart]
  split
  · exact h
  · have hlater : ∀ {c : Client}, c.Good st.starts st.fill → c.Good (st.starts + 1) 0 := fun hc =>
      hc.later (Or.inl (Nat.lt_succ_self _))
    have hclean : ∀ j < hdaBufSize,
        Buf.write st.played 0 (List.replicate hdaBufSize false) j = false := by
      intro j hj
      rw [Buf.write_zero_of_mem (by rwa [List.length_replicate]), List.getElem_replicate]
    generalize hst0 : ({ st with
      buf := Buf.write st.buf 0 (List.replicate hdaBufSize 0)
      played := Buf.write st.played 0 (List.replicate hdaBufSize false)
      starts := st.starts + 1, fill := 0, pos := 0 } : Hda) = st0
    have hclients0 : ∀ c ∈ st0.clients, c.Good st0.starts st0.fill := by
      subst hst0
      exact fun c hc => hlater (h.clients c hc)
    have hgone0 : ∀ c ∈ st0.gone, c.Good st0.starts st0.fill := by
      subst hst0
      exact fun c hc => hlater (h.gone c hc)
    have hfill := hdaPlayFill_good hclients0 hgone0 (by subst hst0; rfl) (by subst hst0; exact hclean)
    obtain ⟨hids, -, -, -, hplayed, -, hgone⟩ := hdaPlayFill_frame st0
    constructor
    · rw [hids]
      subst hst0
      exact h.ids
    · exact hfill.1
    · exact hfill.2.1
    · exact hfill.2.2
    · intro _
      rfl
    · intro _
      exact ⟨Nat.le_refl 0, Nat.lt_of_lt_of_eq hdaBufSize_pos (Nat.zero_add _).symm⟩
    · intro _ j hj hp
      have hp' : st0.played j = true := by rw [← hplayed]; exact hp
      subst hst0
      exact absurd hp' (by simp [hclean j hj])
    · intro hstop
      cases hstop
    · simp only [hgone]
      subst hst0
      exact h.spent

theorem Hda.Good.update {st : Hda} (h : st.Good) {id : Nat} {f : Client → Client}
    (hid : ∀ c, (f c).id = c.id)
    (hf : ∀ c ∈ st.clients, c.id = id → (f c).Good st.starts st.fill)
    (hhead : st.running = false → ∀ c, (f c).head = c.head) : (st.update id f).Good := by
  have hids : (st.update id f).clients.map Client.id = st.clients.map Client.id := by
    rw [Hda.update, List.map_map]
    apply List.map_congr_left
    intro c _
    simp only [Function.comp_apply]
    split
    · exact hid c
    · rfl
  refine { h with ids := hids ▸ h.ids, clients := ?_, quiet := ?_ }
  · intro c hc
    obtain ⟨c0, hc0, rfl⟩ := List.mem_map.mp hc
    split
    · rename_i heq
      exact hf c0 hc0 heq
    · exact h.clients c0 hc0
  · intro hstop c hc
    obtain ⟨c0, hc0, rfl⟩ := List.mem_map.mp hc
    have hquiet := h.quiet hstop c0 hc0
    split
    · exact (hhead hstop c0).trans hquiet
    · exact hquiet

theorem pos_update {pos hw : Nat} (h1 : pos ≤ hw) (h2 : hw < pos + hdaBufSize) :
    pos + (hw % hdaBufSize + hdaBufSize - pos % hdaBufSize) % hdaBufSize = hw := by
  simp only [hdaBufSize, hdaPeriod, hdaFrame] at *
  omega

/-- The state of a poll before it fills: freed clients are gone, the position is
that of the hardware, and everything played is zeroed. -/
def Hda.polled (st : Hda) : Hda :=
  let st := { st with
    clients := st.clients.filter fun c => !c.done
    gone := st.gone ++ st.clients.filter fun c => c.done }
  let next := hdaStreamUpdate st (st.hw % hdaBufSize)
  { next with
    buf := hdaRingZero 0 next.buf st.pos next.pos
    played := hdaRingZero false next.played st.pos next.pos }

theorem Hda.Good.polled_pos {st : Hda} (h : st.Good) (hrun : st.running = true) :
    st.polled.pos = st.hw ∧ st.polled.lastLpib = st.hw % hdaBufSize := by
  obtain ⟨h1, h2⟩ := h.ahead hrun
  have hlt : st.hw % hdaBufSize < hdaBufSize := Nat.mod_lt _ hdaBufSize_pos
  have hpos := pos_update h1 h2
  simp only [Hda.polled, hdaStreamUpdate, hrun, hlt, and_self, if_true, h.register hrun, hpos]

theorem polled_frame (st : Hda) :
    st.polled.clients = st.clients.filter (fun c => !c.done) ∧
      st.polled.gone = st.gone ++ st.clients.filter (fun c => c.done) ∧
      st.polled.starts = st.starts ∧ st.polled.fill = st.fill ∧ st.polled.hw = st.hw ∧
      st.polled.running = st.running := by
  simp only [Hda.polled, hdaStreamUpdate]
  split <;> simp

theorem Hda.Good.polled_clean {st : Hda} (h : st.Good) (hrun : st.running = true) :
    ∀ j < hdaBufSize, st.polled.played j = false := by
  intro j hj
  have hpos := (h.polled_pos hrun).1
  have hplayed : st.polled.played = hdaRingZero false st.played st.pos st.polled.pos := by
    simp only [Hda.polled, hdaStreamUpdate]
    split <;> rfl
  rw [hplayed, hpos]
  rcases hdaRingZero_spec false st.played st.pos st.hw hj with hset | ⟨hkeep, hnot⟩
  · exact hset
  · rw [hkeep]
    by_contra hp
    obtain ⟨x, h1, h2, hx⟩ := h.cells hrun j hj (by simpa using hp)
    exact hnot x h1 h2 hx

/-- A poll of a running stream is a fill and then a decision about idling, which
stops no stream that has clients. -/
theorem hdaPlayPoll_running {st : Hda} (hrun : st.running = true) (now : Nat) :
    ∃ filled idle run, hdaPlayFill st.polled = filled ∧
      hdaPlayPoll st now (st.hw % hdaBufSize) =
        { filled with idleSince := idle, running := run } ∧
      (run = false → filled.clients = []) := by
  have hrun' : (hdaPlayFill st.polled).running = true := by
    rw [(hdaPlayFill_frame st.polled).2.2.2.2.2.1, (polled_frame st).2.2.2.2.2, hrun]
  have hpoll : hdaPlayPoll st now (st.hw % hdaBufSize) =
      if (hdaPlayFill st.polled).clients ≠ [] then { hdaPlayFill st.polled with idleSince := now }
      else if hdaIdleStopMs < (now + 2 ^ 64 - (hdaPlayFill st.polled).idleSince) % 2 ^ 64
        then { hdaPlayFill st.polled with running := false }
        else hdaPlayFill st.polled := by
    rw [hdaPlayPoll]
    rw [if_neg (by simp [hrun])]
    rfl
  rw [hpoll]
  generalize hdaPlayFill st.polled = filled at hrun' ⊢
  split
  · grind
  · rename_i hnone
    have hempty : filled.clients = [] := by simpa using hnone
    split
    · exact ⟨filled, filled.idleSince, false, rfl, rfl, fun _ => hempty⟩
    · exact ⟨filled, filled.idleSince, filled.running, rfl, rfl, fun _ => hempty⟩

theorem hdaPlayPoll_stopped {st : Hda} (hstop : st.running = false) (now lpib : Nat) :
    hdaPlayPoll st now lpib = { st with
      clients := st.clients.filter fun c => !c.done
      gone := st.gone ++ st.clients.filter fun c => c.done } := by
  rw [hdaPlayPoll]
  rw [if_pos (by simp [hstop])]

theorem Hda.Good.freed {st : Hda} (h : st.Good) :
    ((st.clients.filter fun c => !c.done).map Client.id).Nodup ∧
      (∀ c ∈ st.clients.filter fun c => !c.done, c.Good st.starts st.fill) ∧
      (∀ c ∈ st.gone ++ st.clients.filter fun c => c.done, c.Good st.starts st.fill) ∧
      (∀ c ∈ st.gone ++ st.clients.filter fun c => c.done, c.head = c.tail) := by
  refine ⟨h.ids.sublist (List.filter_sublist.map _), ?_, ?_, ?_⟩
  · intro c hc
    exact h.clients c (List.mem_of_mem_filter hc)
  · intro c hc
    rcases List.mem_append.mp hc with hc | hc
    · exact h.gone c hc
    · exact h.clients c (List.mem_of_mem_filter hc)
  · intro c hc
    rcases List.mem_append.mp hc with hc | hc
    · exact h.spent c hc
    · have hdone := (List.mem_filter.mp hc).2
      simp only [Client.done, Bool.and_eq_true, beq_iff_eq] at hdone
      exact hdone.2

/-- **A poll.** -/
theorem Hda.Good.poll {st : Hda} (h : st.Good) (now : Nat) :
    (hdaPlayPoll st now (st.hw % hdaBufSize)).Good := by
  obtain ⟨hids, hclients, hgone, hspent⟩ := h.freed
  cases hrun : st.running with
  | false =>
    rw [hdaPlayPoll_stopped hrun]
    refine { h with ids := hids, clients := hclients, gone := hgone, quiet := ?_, spent := hspent }
    intro _ c hc
    exact h.quiet hrun c (List.mem_of_mem_filter hc)
  | true =>
    obtain ⟨filled, idle, run, hfilled, hpoll, hempty⟩ := hdaPlayPoll_running hrun now
    obtain ⟨hpc, hpg, hps, hpf, hphw, hprun⟩ := polled_frame st
    obtain ⟨hppos, hplpib⟩ := h.polled_pos hrun
    obtain ⟨hfids, hfpos, hfhw, hflpib, hfplayed, hfrun, hfgone⟩ := hdaPlayFill_frame st.polled
    have hclean := h.polled_clean hrun
    obtain ⟨hc, hg, ha⟩ := hdaPlayFill_good (by rw [hpc, hps, hpf]; exact hclients)
      (by rw [hpg, hps, hpf]; exact hgone) (by rw [hpf]; exact h.aligned) hclean
    rw [hfilled] at hfids hfpos hfhw hflpib hfplayed hfrun hfgone hc hg ha
    rw [hpoll]
    refine ⟨?_, hc, hg, ha, ?_, ?_, ?_, ?_, ?_⟩
    · simp only [hfids, hpc]
      exact hids
    · intro _
      simp only [hflpib, hfpos, hplpib, hppos]
    · intro _
      simp only [hfhw, hfpos, hphw, hppos]
      exact ⟨Nat.le_refl _, Nat.lt_add_of_pos_right hdaBufSize_pos⟩
    · intro _ j hj hp
      simp only [hfplayed, hclean j hj] at hp
      cases hp
    · intro hstop c hc
      simp only [hempty hstop] at hc
      cases hc
    · simp only [hfgone, hpg]
      exact hspent

/-- **The hardware** goes on. -/
theorem Hda.Good.advance {st : Hda} (h : st.Good) {bytes : Nat}
    (hlegal : Legal st (.advance bytes)) : (step st (.advance bytes)).Good := by
  obtain ⟨hrun, hless⟩ := hlegal
  have hahead := h.ahead hrun
  refine { h with ahead := ?_, cells := ?_ }
  · simp only [step]
    omega
  · intro _ j hj hp
    simp only [step, Bool.or_eq_true, List.any_eq_true, List.mem_range, beq_iff_eq] at hp ⊢
    rcases hp with hp | ⟨i, hi, hx⟩
    · obtain ⟨x, h1, h2, hx⟩ := h.cells hrun j hj hp
      exact ⟨x, h1, by omega, hx⟩
    · exact ⟨st.hw + i, by omega, by omega, hx⟩

theorem mem_hdaPlayFill {st : Hda} {c : Client} (hc : c ∈ (hdaPlayFill st).clients) :
    ∃ c0 ∈ st.clients, c0.id = c.id ∧ c0.closing = c.closing := by
  rw [hdaPlayFill_clients] at hc
  split at hc
  · exact ⟨c, hc, rfl, rfl⟩
  · exact mem_map_mixed hc

theorem mem_hdaPlayStart {st : Hda} {c : Client} (hc : c ∈ (hdaPlayStart st).clients) :
    ∃ c0 ∈ st.clients, c0.id = c.id ∧ c0.closing = c.closing := by
  rw [hdaPlayStart] at hc
  split at hc
  · exact ⟨c, hc, rfl, rfl⟩
  · obtain ⟨c0, hc0, hsame⟩ := mem_hdaPlayFill hc
    exact ⟨c0, hc0, hsame⟩

theorem hdaPlayStart_running (st : Hda) : (hdaPlayStart st).running = true := by
  rw [hdaPlayStart]
  split
  · assumption
  · rfl

theorem Hda.Good.open_of_id {st : Hda} (h : st.Good) {id : Nat} (hopen : st.IsOpen id) {c : Client}
    (hc : c ∈ st.clients) (hid : c.id = id) : c.closing = false := by
  obtain ⟨c', hc', hid', hcl⟩ := hopen
  rw [List.inj_on_of_nodup_map h.ids hc hc' (hid.trans hid'.symm)]
  exact hcl

/-- **A step** of a run in which files drop at an even byte and close with whole
frames left. -/
theorem Hda.Good.step {st : Hda} (h : st.Good) {op : Op} (hlegal : Legal st op)
    (hwhole : Whole st op) : (Audio.step st op).Good := by
  cases op with
  | first id ring =>
    refine { h with ids := ?_, clients := ?_, quiet := ?_ }
    · simp only [Audio.step, List.map_cons, List.nodup_cons]
      refine ⟨?_, h.ids⟩
      intro hmem
      obtain ⟨c, hc, hid⟩ := List.mem_map.mp hmem
      exact hlegal c (List.mem_append_left _ hc) hid
    · intro c hc
      rcases List.mem_cons.mp hc with rfl | hc
      · exact Client.fresh_good _ _ _ _
      · exact h.clients c hc
    · intro hstop c hc
      rcases List.mem_cons.mp hc with rfl | hc
      · rfl
      · exact h.quiet hstop c hc
  | write id src now =>
    have hstart : ({ hdaPlayStart st with idleSince := now } : Hda).Good := { h.start with }
    apply hstart.update
    · intro c
      rfl
    · intro c hc hid
      obtain ⟨c0, hc0, hid0, hcl⟩ := mem_hdaPlayStart hc
      apply (hstart.clients c hc).push
      rw [← hcl]
      exact h.open_of_id hlegal hc0 (hid0.trans hid)
    · intro hstop
      exact absurd ((hdaPlayStart_running st).symm.trans hstop) (by decide)
  | drop id =>
    apply h.update
    · intro c
      rfl
    · intro c hc hid
      exact (h.clients c hc).drop (hwhole c hc hid)
    · intro _ c
      rfl
  | close id =>
    apply h.update
    · intro c
      rfl
    · intro c hc hid
      exact { h.clients c hc with whole := fun _ => hwhole c hc hid }
    · intro _ c
      rfl
  | poll now => exact h.poll now
  | advance bytes => exact h.advance hlegal

/-- The driver before the first client. -/
def idle : Hda := ⟨[], false, fun _ => 0, 0, 0, 0, 0, 256, 0, 0, fun _ => false, []⟩

/-- A file that has written for the first time. -/
def wrote (src : List UInt8) : Hda :=
  (machine.step (machine.step idle (.first 7 fun _ => 0)).1 (.write 7 src 0)).1

/-- A client that was closed with part of a frame left. -/
def Client.Stuck (c : Client) (id : Nat) : Prop :=
  c.id = id ∧ c.closing = true ∧ c.tail ≤ c.head ∧ (c.head - c.tail) % hdaFrame ≠ 0

theorem Client.Stuck.mixed {c : Client} {id : Nat} (h : c.Stuck id) (st : Hda) (place : Nat)
    {bytes : Nat} (hbytes : bytes % hdaFrame = 0) : (c.mixed st place bytes).Stuck id := by
  obtain ⟨hid, hclosing, hle, hpart⟩ := h
  have havail : c.avail ≤ c.head - c.tail := Nat.div_mul_le_self _ _
  have havail4 : c.avail % 4 = 0 := by simp [Client.avail, hdaFrame]
  refine ⟨hid, hclosing, ?_, ?_⟩
  · simp only [Client.mixed]
    omega
  · simp only [Client.mixed, hdaFrame] at hpart hbytes ⊢
    omega

/-- The file that a step comes from. -/
def Op.file : Op → Option Nat
  | .first id _ | .write id _ _ | .drop id | .close id => some id
  | .poll _ | .advance _ => none

/-- When a drop has left `tail` at the last byte of the ring, the next frame is
read from outside the ring. -/
theorem odd_drop_reads_outside {c : Client} (htail : c.tail % hdaClientRing = hdaClientRing - 1)
    (havail : hdaFrame ≤ c.avail) (st : Hda) (place : Nat) :
    ∃ e ∈ (c.mixed st place hdaFrame).log, ∀ written, ¬ e.Right written := by
  refine ⟨_, List.mem_append_right _ (List.mem_singleton_self _), ?_⟩
  intro written hright
  have hinside := hright.2.2.1 0
  rw [Nat.min_eq_left havail] at hinside
  simp only [Client.bytesRead, Client.access, hdaFrame, hdaClientRing, Nat.mul_zero,
    Nat.add_zero] at hinside htail
  simp [List.range_succ, htail] at hinside

end Audio
