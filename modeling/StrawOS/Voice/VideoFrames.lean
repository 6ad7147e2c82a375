import StrawOS.Voice.VideoTrip

/-!
# What is sent and what is completed

The sender's invariant says that the packets on the wire and in the queue are the parts of
its frames.  The receiver's invariant says that the buffer holds the start of a frame, up
to the part with the last number.
-/

namespace Voice

variable {cr : Crypto} {check : GcmCheck}

/-! ## Sender -/

/-- The packet of a part. -/
def IsPacket (cr : Crypto) (key : List UInt8) (ssrc seq : Nat) (part : VideoPart) (p : List UInt8) :
    Prop :=
  ∃ pictureId nonce,
    p = videoBytes cr key ssrc seq part.ts pictureId nonce part.first part.last part.chunk

/-- Packets are parts, numbered from `v0` on. -/
structure Numbered (cr : Crypto) (key : List UInt8) (ssrc v0 : Nat) (ps : List (List UInt8))
    (qs : List VideoPart) : Prop where
  length : ps.length = qs.length
  packet : ∀ j p part, ps[j]? = some p → qs[j]? = some part →
    IsPacket cr key ssrc ((v0 + j) % 2 ^ 16) part p

theorem Numbered.append {key : List UInt8} {ssrc v0 : Nat} {ps : List (List UInt8)}
    {qs : List VideoPart} (h : Numbered cr key ssrc v0 ps qs) {p : List UInt8} {part : VideoPart}
    (hp : IsPacket cr key ssrc ((v0 + qs.length) % 2 ^ 16) part p) :
    Numbered cr key ssrc v0 (ps ++ [p]) (qs ++ [part]) := by
  refine ⟨by simp [h.length], ?_⟩
  intro j p' part' hps hqs
  by_cases hj : j < qs.length
  · rw [List.getElem?_append_left (by rw [h.length]; exact hj)] at hps
    rw [List.getElem?_append_left hj] at hqs
    exact h.packet j p' part' hps hqs
  · have hlast : j = qs.length := by grind
    subst hlast
    rw [List.getElem?_concat_length] at hqs
    rw [← h.length, List.getElem?_concat_length] at hps
    obtain rfl := Option.some.inj hps
    obtain rfl := Option.some.inj hqs
    exact hp

/-- The sender has put parts into packets, with numbers from `v0` on. -/
structure Streams (cr : Crypto) (v0 : Nat) (s : VideoSender) (qs : List VideoPart) : Prop where
  videoSsrc : s.videoSsrc < 2 ^ 32
  vseq : s.vseq = (v0 + qs.length) % 2 ^ 16
  numbered : Numbered cr s.key s.videoSsrc v0 (s.wire ++ s.queue) qs

theorem queueVideoPacket_streams {v0 : Nat} {s : VideoSender} {qs : List VideoPart}
    (h : Streams cr v0 s qs) (part : VideoPart) (hts : s.vts = part.ts)
    (hroom : s.queue.length < videoQueue) :
    Streams cr v0 (queueVideoPacket cr s part.chunk part.first part.last) (qs ++ [part]) ∧
      (queueVideoPacket cr s part.chunk part.first part.last).vts = s.vts ∧
      (queueVideoPacket cr s part.chunk part.first part.last).frames = s.frames ∧
      (queueVideoPacket cr s part.chunk part.first part.last).queue.length = s.queue.length + 1 := by
  unfold queueVideoPacket
  rw [if_neg (Nat.ne_of_lt hroom)]
  refine ⟨⟨h.videoSsrc, ?_, ?_⟩, rfl, rfl, by simp⟩
  · have hvseq := h.vseq
    dsimp only
    rw [List.length_append, List.length_singleton]
    omega
  · rw [← List.append_assoc]
    refine h.numbered.append ⟨s.pictureId, s.txNonce, ?_⟩
    rw [hts, h.vseq]

theorem sendLoop_streams {v0 : Nat} {old : List VideoPart} (f : VideoFrame) {left : Nat}
    {s : VideoSender} (hleft : left ≤ f.count)
    (h : Streams cr v0 s (old ++ (List.range (f.count - left)).map f.part)) (hts : s.vts = f.ts)
    (hroom : s.queue.length + left ≤ videoQueue) :
    Streams cr v0 (sendLoop cr f.bytes f.count left s) (old ++ f.parts) ∧
      (sendLoop cr f.bytes f.count left s).frames = s.frames := by
  induction left generalizing s with
  | zero => exact ⟨h, rfl⟩
  | succ left ih =>
    have hi : f.count - left = f.count - (left + 1) + 1 := by omega
    obtain ⟨hstreams, hvts, hframes, hqueue⟩ :=
      queueVideoPacket_streams h (f.part (f.count - (left + 1))) hts (by omega)
    have hmore : old ++ (List.range (f.count - (left + 1))).map f.part ++
        [f.part (f.count - (left + 1))] = old ++ (List.range (f.count - left)).map f.part := by
      rw [hi, List.range_succ, List.map_append, List.append_assoc]
      rfl
    rw [hmore] at hstreams
    have hrest := ih (by omega) hstreams (hvts.trans hts) (by omega)
    exact ⟨hrest.1, hrest.2.trans hframes⟩

theorem daveEncryptVideo_nonempty {d : Dave} {frame enc : List UInt8} {clear : Nat}
    (hframe : frame ≠ []) (h : (daveEncryptVideo cr d frame clear).2.2 = some enc) : enc ≠ [] := by
  unfold daveEncryptVideo at h
  split at h
  · obtain rfl := Option.some.inj h
    exact hframe
  · unfold encryptFrame at h
    dsimp only at h
    split at h
    · cases h
    · split at h
      · cases h
      · obtain rfl := Option.some.inj h
        simp

/-- What holds of the sender at any time. -/
structure VideoSender.Sound (cr : Crypto) (v0 : Nat) (s : VideoSender) : Prop where
  streams : Streams cr v0 s (parts s.frames)
  frames : ∀ f ∈ s.frames, f.Sendable

theorem VideoSender.Sound.sendVideoFrame {v0 : Nat} {s : VideoSender} (h : s.Sound cr v0)
    {frame : List UInt8} (hframe : frame ≠ []) (key : Bool) (now : Nat) :
    (sendVideoFrame cr s frame key now).1.Sound cr v0 := by
  unfold Voice.sendVideoFrame
  have hnonempty : ∀ enc,
      (daveEncryptVideo cr s.dave frame (if key then 10 else 1)).2.2 = some enc → enc ≠ [] :=
    fun enc => daveEncryptVideo_nonempty hframe
  generalize daveEncryptVideo cr s.dave frame (if key then 10 else 1) = out at hnonempty
  obtain ⟨dave, sealedCall, enc⟩ := out
  cases enc with
  | none => exact ⟨⟨h.streams.videoSsrc, h.streams.vseq, h.streams.numbered⟩, h.frames⟩
  | some enc =>
    dsimp only
    split
    · exact ⟨⟨h.streams.videoSsrc, h.streams.vseq, h.streams.numbered⟩, h.frames⟩
    · rename_i hroom
      have henc := hnonempty enc rfl
      let f : VideoFrame := ⟨(s.vtsBase + now * 90) % 2 ^ 32, enc⟩
      have hstart : Streams cr v0 { s with dave := dave, vts := f.ts }
          (parts s.frames ++ (List.range (f.count - f.count)).map f.part) := by
        rw [Nat.sub_self, List.range_zero, List.map_nil, List.append_nil]
        exact ⟨h.streams.videoSsrc, h.streams.vseq, h.streams.numbered⟩
      have hsendable : f.Sendable := by
        have hlen := List.length_pos_of_ne_nil henc
        have hcount : f.count = (enc.length + videoChunk - 1) / videoChunk := rfl
        refine ⟨Nat.mod_lt _ (by decide), ?_, ?_⟩
        · rw [hcount]
          unfold videoChunk
          omega
        · have hle : chunkCount enc.length ≤ videoQueue - s.queue.length := by omega
          exact hle.trans (Nat.sub_le _ _)
      have hqueue : s.queue.length + f.count ≤ videoQueue := by
        have hle : f.count ≤ videoQueue - s.queue.length := not_lt.1 hroom
        have := hsendable.nonempty
        omega
      obtain ⟨hstreams, hframes⟩ := sendLoop_streams f le_rfl hstart rfl hqueue
      have hparts : parts (s.frames ++ [f]) = parts s.frames ++ f.parts := by
        simp [parts]
      have hall : (sendLoop cr enc (chunkCount enc.length) (chunkCount enc.length)
          { s with dave := dave, vts := f.ts }).frames ++ [f] = s.frames ++ [f] :=
        congrArg (· ++ [f]) hframes
      refine ⟨⟨hstreams.videoSsrc, ?_, ?_⟩, ?_⟩
      · exact hstreams.vseq.trans (by rw [← hparts, ← hall])
      · have hnumbered := hstreams.numbered
        rw [← hparts, ← hall] at hnumbered
        exact hnumbered
      · intro g hg
        have hg' : g ∈ s.frames ++ [f] := by
          rw [← hall]
          exact hg
        rcases List.mem_append.1 hg' with hold | hnew
        · exact h.frames g hold
        · obtain rfl := List.mem_singleton.1 hnew
          exact hsendable

theorem VideoSender.Sound.step {v0 : Nat} {s : VideoSender} (h : s.Sound cr v0) (op : VideoOp) :
    (s.step cr op).Sound cr v0 := by
  cases op with
  | videoPump frame key now =>
    unfold VideoSender.step
    dsimp only
    split
    · exact h
    · rename_i hframe
      exact h.sendVideoFrame hframe key now
  | pacePump n =>
    refine ⟨⟨h.streams.videoSsrc, h.streams.vseq, ?_⟩, h.frames⟩
    have hsame : s.wire ++ s.queue.take n ++ s.queue.drop n = s.wire ++ s.queue := by
      rw [List.append_assoc, List.take_append_drop]
    show Numbered cr s.key s.videoSsrc v0 (s.wire ++ s.queue.take n ++ s.queue.drop n) _
    rw [hsame]
    exact h.streams.numbered
  | dave dave => exact ⟨⟨h.streams.videoSsrc, h.streams.vseq, h.streams.numbered⟩, h.frames⟩
  | otherPacket => exact ⟨⟨h.streams.videoSsrc, h.streams.vseq, h.streams.numbered⟩, h.frames⟩

theorem VideoSender.New.sound {s : VideoSender} (h : s.New) : s.Sound cr s.vseq := by
  have hparts : parts s.frames = [] := by
    rw [h.frames]
    rfl
  refine ⟨⟨h.videoSsrc, ?_, ?_⟩, ?_⟩
  · rw [hparts]
    exact (Nat.mod_eq_of_lt h.vseq).symm
  · rw [hparts, h.wire, h.queue]
    exact ⟨rfl, fun j p part hp => nomatch hp⟩
  · rw [h.frames]
    intro f hf
    cases hf

theorem VideoSender.sound_of_reachable {s : VideoSender} (h : (videoSender cr).Reachable (fun _ _ => True) s) :
    ∃ v0, s.Sound cr v0 := by
  refine h.invariant (P := fun s => ∃ v0, s.Sound cr v0) ?_ ?_
  · intro s hs
    exact ⟨s.vseq, hs.sound⟩
  · intro s op hs _
    obtain ⟨v0, hsound⟩ := hs
    exact ⟨v0, hsound.step op⟩

/-! ## Receiver -/

/-- The buffer is free, or it holds the start of a frame up to the part with the last
number, and what has been completed was sent. -/
structure Assembles (fs : List VideoFrame) (v0 : Nat) (r : VideoRx) : Prop where
  fresh : r.haveVseq = false → r.rxActive = false
  active : r.rxActive = true → ∃ m k c f, At fs m k c f ∧ r.lastVseq = (v0 + m) % 2 ^ 16 ∧
    r.rxTs = f.ts ∧ r.rxBuf = f.start (c + 1)
  done : ∀ b ∈ r.done, ∃ f ∈ fs, b = f.bytes

theorem videoLost_assembles {fs : List VideoFrame} {v0 : Nat} {r : VideoRx}
    (hdone : ∀ b ∈ r.done, ∃ f ∈ fs, b = f.bytes) : Assembles fs v0 (videoLost r) :=
  ⟨fun _ => rfl, (fun h => nomatch h), hdone⟩

theorem addChunk_assembles {fs : List VideoFrame} {v0 : Nat} {r : VideoRx}
    (hseq : r.haveVseq = true) (hdone : ∀ b ∈ r.done, ∃ f ∈ fs, b = f.bytes) {m k c : Nat}
    {f : VideoFrame} (hat : At fs m k c f) (hlast : r.lastVseq = (v0 + m) % 2 ^ 16)
    (hts : r.rxTs = f.ts) (hbuf : r.rxBuf = f.start c) :
    Assembles fs v0 (addChunk r (f.part c).last (f.part c).chunk) := by
  unfold addChunk
  split
  · exact videoLost_assembles hdone
  · have hnext : r.rxBuf ++ (f.part c).chunk = f.start (c + 1) := by
      rw [f.start_succ, hbuf]
    split
    · rename_i hend
      have hcount : c + 1 = f.count := by simpa [VideoFrame.part] using hend
      refine ⟨fun _ => rfl, (fun h => by cases h), ?_⟩
      intro b hb
      rcases List.mem_append.1 hb with hold | hnew
      · exact hdone b hold
      · obtain rfl := List.mem_singleton.1 hnew
        refine ⟨f, List.mem_of_getElem? hat.frame, ?_⟩
        rw [hnext, hcount, f.start_count]
    · refine ⟨fun h => ?_, fun _ => ⟨m, k, c, f, hat, hlast, hts, hnext⟩, hdone⟩
      have hfalse : r.haveVseq = false := h
      rw [hseq] at hfalse
      cases hfalse

/-- **A part that arrives** keeps the invariant, whatever came before it: with distinct
times, a part of the same time that has the next number is the next part. -/
theorem partIn_assembles {fs : List VideoFrame} (hdistinct : (fs.map VideoFrame.ts).Nodup)
    (hsendable : ∀ f ∈ fs, f.Sendable) {v0 : Nat} {r : VideoRx} (h : Assembles fs v0 r) {m : Nat}
    {part : VideoPart} (hpart : (parts fs)[m]? = some part) :
    Assembles fs v0 (partIn r ((v0 + m) % 2 ^ 16) part) := by
  obtain ⟨k, c, f, hat, rfl⟩ := parts_at hpart
  have hpt : Assembles fs v0
      (if videoPt ≠ r.rxPt then { r with rxPt := videoPt, rxActive := false } else r) := by
    split
    · exact ⟨fun _ => rfl, (fun hactive => by cases hactive), h.done⟩
    · exact h
  unfold partIn
  dsimp only
  generalize hr : (if videoPt ≠ r.rxPt then { r with rxPt := videoPt, rxActive := false } else r) = q
    at hpt
  split
  · exact hpt
  · unfold videoChunkIn
    split
    · rename_i hstart
      have hc : c = 0 := by simpa [VideoFrame.part] using hstart
      subst hc
      have hempty : ([] : List UInt8) = f.start 0 := by simp [VideoFrame.start]
      split
      · refine addChunk_assembles rfl ?_ hat rfl rfl hempty
        exact hpt.done
      · refine addChunk_assembles rfl ?_ hat rfl rfl hempty
        exact hpt.done
    · split
      · rename_i hstop
        split
        · exact videoLost_assembles hpt.done
        · rename_i hidle
          refine ⟨fun _ => ?_, fun hactive => absurd (Or.inr hactive) hidle, hpt.done⟩
          simpa using fun hactive => hidle (Or.inr hactive)
      · rename_i hgo
        obtain ⟨hactive, hgap, hts⟩ : q.rxActive = true ∧
            (q.haveVseq && (v0 + m) % 2 ^ 16 != (q.lastVseq + 1) % 2 ^ 16) = false ∧
            f.ts = q.rxTs := by
          simpa [VideoFrame.part] using hgo
        obtain ⟨m', k', c', g, hat', hlast, hts', hbuf⟩ := hpt.active hactive
        obtain ⟨rfl, hpos⟩ := hat'.same_frame hdistinct hat (hts'.symm.trans hts.symm)
        have hseq : q.haveVseq = true := by
          by_contra hno
          rw [hpt.fresh (by simpa using hno)] at hactive
          cases hactive
        have hnumber : (v0 + m) % 2 ^ 16 = (q.lastVseq + 1) % 2 ^ 16 := by
          simpa [hseq] using hgap
        have hc : c = c' + 1 := by
          -- a frame has far fewer parts than there are numbers
          have hcount := (hsendable g (List.mem_of_getElem? hat.frame)).count
          have := hat.inside
          have := hat'.inside
          unfold videoQueue at hcount
          omega
        subst hc
        refine addChunk_assembles rfl ?_ hat rfl hts' hbuf
        exact hpt.done

theorem handleUdpPacket_assembles (hgcm : GcmLaws cr check) {v0 : Nat} {s : VideoSender}
    (hs : s.Sound cr v0) (hdistinct : (s.frames.map VideoFrame.ts).Nodup) {r : VideoReceiver}
    (hr : Watching r s.key s.videoSsrc) (h : Assembles s.frames v0 r.rx) {j : Nat} {p : List UInt8}
    (hp : s.wire[j]? = some p) :
    Watching (handleUdpPacket check r p) s.key s.videoSsrc ∧
      Assembles s.frames v0 (handleUdpPacket check r p).rx := by
  have hnumbered := hs.streams.numbered
  have hall : (s.wire ++ s.queue)[j]? = some p := by
    rw [List.getElem?_append_left (List.getElem?_eq_some_iff.1 hp).1]
    exact hp
  obtain ⟨part, hpart⟩ : ∃ part, (parts s.frames)[j]? = some part := by
    have hj := (List.getElem?_eq_some_iff.1 hall).1
    rw [hnumbered.length] at hj
    exact ⟨_, List.getElem?_eq_getElem hj⟩
  obtain ⟨pictureId, nonce, rfl⟩ := hnumbered.packet j p part hall hpart
  have hts : part.ts < 2 ^ 32 := by
    obtain ⟨k, c, f, hat, rfl⟩ := parts_at hpart
    exact (hs.frames f (List.mem_of_getElem? hat.frame)).ts
  rw [handleUdpPacket_video hgcm hr (Nat.mod_lt _ (by decide)) hts hs.streams.videoSsrc]
  exact ⟨hr.add _, partIn_assembles hdistinct hs.frames h hpart⟩

/-! ## Without losses -/

/-- The next packet has the next number. -/
def VideoRx.Next (r : VideoRx) (seq : Nat) : Prop :=
  r.haveVseq = true → r.lastVseq < 2 ^ 16 ∧ (r.lastVseq + 1) % 2 ^ 16 = seq % 2 ^ 16

/-- `c` parts of a frame have arrived. -/
inductive Progress (f : VideoFrame) (d : List (List UInt8)) : Nat → VideoRx → Prop
  | idle {r : VideoRx} (hactive : r.rxActive = false) (hdone : r.done = d) : Progress f d 0 r
  | midway {r : VideoRx} {c : Nat} (hc : c + 1 < f.count) (hactive : r.rxActive = true)
      (hpt : r.rxPt = videoPt) (hts : r.rxTs = f.ts) (hbuf : r.rxBuf = f.start (c + 1))
      (hdone : r.done = d) : Progress f d (c + 1) r
  | complete {r : VideoRx} {c : Nat} (hc : c + 1 = f.count) (hactive : r.rxActive = false)
      (hdone : r.done = d ++ [f.bytes]) : Progress f d (c + 1) r

theorem VideoFrame.Sendable.fits {f : VideoFrame} (h : f.Sendable) : f.bytes.length ≤ rxMaxFrame := by
  have hcount := h.count
  unfold VideoFrame.count chunkCount videoChunk videoQueue at hcount
  unfold rxMaxFrame
  omega

theorem addChunk_progress {f : VideoFrame} (hf : f.Sendable) {d : List (List UInt8)} {r : VideoRx}
    {c : Nat} (hc : c < f.count) (hactive : r.rxActive = true) (hpt : r.rxPt = videoPt)
    (hts : r.rxTs = f.ts) (hbuf : r.rxBuf = f.start c) (hdone : r.done = d) :
    Progress f d (c + 1) (addChunk r (f.part c).last (f.part c).chunk) := by
  have hnext : r.rxBuf ++ (f.part c).chunk = f.start (c + 1) := by
    rw [f.start_succ, hbuf]
  have hfits : ¬ rxMaxFrame < r.rxBuf.length + (f.part c).chunk.length := by
    have hlen : (f.start (c + 1)).length ≤ f.bytes.length := by
      rw [VideoFrame.start, List.length_take]
      exact Nat.min_le_right _ _
    have := hf.fits
    rw [← List.length_append, hnext]
    omega
  unfold addChunk
  rw [if_neg hfits]
  split
  · rename_i hend
    have hcount : c + 1 = f.count := by simpa [VideoFrame.part] using hend
    refine .complete hcount rfl ?_
    show r.done ++ [r.rxBuf ++ (f.part c).chunk] = d ++ [f.bytes]
    rw [hnext, hcount, f.start_count, hdone]
  · rename_i hmore
    have hcount : c + 1 ≠ f.count := by simpa [VideoFrame.part] using hmore
    exact .midway (by omega) hactive hpt hts hnext hdone

theorem addChunk_seq (r : VideoRx) (last : Bool) (chunk : List UInt8) :
    (addChunk r last chunk).haveVseq = r.haveVseq ∧ (addChunk r last chunk).lastVseq = r.lastVseq := by
  unfold addChunk
  split
  · exact ⟨rfl, rfl⟩
  · split <;> exact ⟨rfl, rfl⟩

theorem videoChunkIn_seq (r : VideoRx) (gap : Bool) (ts : Nat) (start last : Bool)
    (chunk : List UInt8) :
    (videoChunkIn r gap ts start last chunk).haveVseq = r.haveVseq ∧
      (videoChunkIn r gap ts start last chunk).lastVseq = r.lastVseq := by
  unfold videoChunkIn
  split
  · obtain ⟨h1, h2⟩ := addChunk_seq
      { (if gap ∨ r.rxActive then videoLost r else r) with rxActive := true, rxBuf := [], rxTs := ts }
      last chunk
    refine ⟨h1.trans ?_, h2.trans ?_⟩ <;> dsimp only <;> split <;> rfl
  · split
    · split <;> exact ⟨rfl, rfl⟩
    · exact addChunk_seq r last chunk

theorem partIn_progress {f : VideoFrame} (hf : f.Sendable) {d : List (List UInt8)} {r : VideoRx}
    {c : Nat} (h : Progress f d c r) (hc : c < f.count) {seq : Nat} (hnext : r.Next seq) :
    Progress f d (c + 1) (partIn r (seq % 2 ^ 16) (f.part c)) ∧
      (partIn r (seq % 2 ^ 16) (f.part c)).Next (seq + 1) := by
  have hsame : ∀ q : VideoRx, q = (if videoPt ≠ r.rxPt then
      { r with rxPt := videoPt, rxActive := false } else r) →
      Progress f d c q ∧ q.rxPt = videoPt ∧ q.Next seq := by
    intro q hq
    split at hq
    · rename_i hother
      subst hq
      refine ⟨?_, rfl, hnext⟩
      cases h with
      | idle hactive hdone => exact .idle rfl hdone
      | midway hcount hactive hpt => exact absurd hpt.symm hother
      | complete hcount => exact absurd hc (by omega)
    · rename_i hpt
      subst hq
      exact ⟨h, (not_not.1 hpt).symm, hnext⟩
  unfold partIn
  generalize hr : (if videoPt ≠ r.rxPt then { r with rxPt := videoPt, rxActive := false } else r) = q
  obtain ⟨hprogress, hpt, hseq⟩ := hsame q hr.symm
  have hgap : (q.haveVseq && seq % 2 ^ 16 != (q.lastVseq + 1) % 2 ^ 16) = false := by
    by_cases hhave : q.haveVseq = true
    · simpa [hhave] using (hseq hhave).2.symm
    · simp [hhave]
  have htime : ¬ (q.haveVseq = true ∧ 0x8000 < (seq % 2 ^ 16 + 2 ^ 16 - q.lastVseq) % 2 ^ 16) := by
    intro hlate
    obtain ⟨hhave, hlate⟩ := hlate
    have := hseq hhave
    omega
  rw [if_neg htime, hgap]
  obtain ⟨hhave, hlast⟩ := videoChunkIn_seq { q with haveVseq := true, lastVseq := seq % 2 ^ 16 } false
    (f.part c).ts (f.part c).first (f.part c).last (f.part c).chunk
  refine ⟨?_, ?_⟩
  · unfold videoChunkIn
    cases hprogress with
    | idle hactive hdone =>
      have hidle : ¬ (false = true ∨ q.rxActive = true) := by simp [hactive]
      rw [if_neg hidle]
      refine addChunk_progress hf hc rfl hpt rfl ?_ hdone
      simp [VideoFrame.start]
    | @midway _ c hcount hactive _ hts hbuf hdone =>
      have hfirst : ¬ (f.part (c + 1)).first = true := by simp [VideoFrame.part]
      have hgo : ¬ (q.rxActive = false ∨ false = true ∨ (f.part (c + 1)).ts ≠ q.rxTs) := by
        simp [hactive, hts, VideoFrame.part]
      rw [if_neg hfirst, if_neg hgo]
      exact addChunk_progress hf hc hactive hpt hts hbuf hdone
    | complete hcount => exact absurd hc (by omega)
  · intro _
    rw [hlast]
    exact ⟨Nat.mod_lt _ (by decide), by simp⟩

/-- Parts that arrive one after the other. -/
def receiveParts : Nat → VideoRx → List VideoPart → VideoRx
  | _, r, [] => r
  | seq, r, part :: rest => receiveParts (seq + 1) (partIn r (seq % 2 ^ 16) part) rest

theorem receiveParts_append (seq : Nat) (r : VideoRx) (ps qs : List VideoPart) :
    receiveParts seq r (ps ++ qs) = receiveParts (seq + ps.length) (receiveParts seq r ps) qs := by
  induction ps generalizing seq r with
  | nil => rfl
  | cons part ps ih =>
    rw [List.cons_append, receiveParts, ih, receiveParts, List.length_cons]
    congr 1
    omega

theorem receiveParts_progress {f : VideoFrame} (hf : f.Sendable) {d : List (List UInt8)} (n : Nat)
    {c : Nat} {r : VideoRx} (h : Progress f d c r) (hc : c + n ≤ f.count) {seq : Nat}
    (hnext : r.Next seq) :
    Progress f d (c + n) (receiveParts seq r ((List.range' c n).map f.part)) ∧
      (receiveParts seq r ((List.range' c n).map f.part)).Next (seq + n) := by
  induction n generalizing c r seq with
  | zero => exact ⟨h, hnext⟩
  | succ n ih =>
    obtain ⟨hprogress, hseq⟩ := partIn_progress hf h (by omega) hnext
    have hrest := ih hprogress (by omega) hseq
    rw [Nat.add_right_comm c 1 n, Nat.add_right_comm seq 1 n] at hrest
    exact hrest

/-- The frames whose parts are all among the first `k` parts. -/
def finished : List VideoFrame → Nat → List (List UInt8)
  | [], _ => []
  | f :: fs, k => if f.count ≤ k then f.bytes :: finished fs (k - f.count) else []

theorem finished_all {fs : List VideoFrame} {k : Nat} (hk : (parts fs).length ≤ k) :
    finished fs k = fs.map VideoFrame.bytes := by
  induction fs generalizing k with
  | nil => rfl
  | cons f fs ih =>
    have hlen : (parts (f :: fs)).length = f.count + (parts fs).length := by simp [parts]
    rw [finished, if_pos (by omega), ih (by omega), List.map_cons]

/-- **In order and without losses** every frame is completed once its last part is there. -/
theorem receiveParts_finished {fs : List VideoFrame} (hsendable : ∀ f ∈ fs, f.Sendable) {k : Nat}
    {r : VideoRx} (hactive : r.rxActive = false) {seq : Nat} (hnext : r.Next seq) :
    (receiveParts seq r ((parts fs).take k)).done = r.done ++ finished fs k := by
  induction fs generalizing k r seq with
  | nil => simp [parts, receiveParts, finished]
  | cons f fs ih =>
    have hf := hsendable f (List.mem_cons_self ..)
    have hcons : parts (f :: fs) = f.parts ++ parts fs := by simp [parts]
    have hidle : Progress f r.done 0 r := .idle hactive rfl
    have hrange : f.parts = (List.range' 0 f.count).map f.part := by
      rw [VideoFrame.parts, List.range_eq_range']
    rw [hcons, finished]
    by_cases hk : f.count ≤ k
    · obtain ⟨hprogress, hseq⟩ := receiveParts_progress hf f.count hidle (by omega) hnext
      rw [← hrange, Nat.zero_add] at hprogress
      rw [List.take_append, List.take_of_length_le (by simpa using hk), receiveParts_append,
        VideoFrame.length_parts, if_pos hk]
      have hnonempty := hf.nonempty
      generalize hcount : f.count = n at hprogress hnonempty hseq ⊢
      cases hprogress with
      | idle => cases hnonempty
      | midway hc => exact absurd hc (by omega)
      | complete hc hidle hdone => grind
    · have hpre : (f.parts ++ parts fs).take k = (List.range' 0 k).map f.part := by
        have hle : k ≤ f.count := by omega
        rw [List.take_append_of_le_length (by simpa using hle), hrange, ← List.map_take,
          List.take_range'_of_length_ge hle]
      rw [hpre, if_neg hk, List.append_nil]
      obtain ⟨hprogress, -⟩ := receiveParts_progress hf k hidle (by omega) hnext
      rw [Nat.zero_add] at hprogress
      cases hprogress with
      | idle _ hdone => exact hdone
      | midway _ _ _ _ _ hdone => exact hdone
      | complete hc => exact absurd hc (by omega)

theorem receiveAll_parts (hgcm : GcmLaws cr check) {key : List UInt8} {ssrc v0 : Nat}
    (hssrc : ssrc < 2 ^ 32) {ps : List (List UInt8)} {qs : List VideoPart}
    (h : Numbered cr key ssrc v0 ps qs) (hts : ∀ part ∈ qs, part.ts < 2 ^ 32) {r : VideoReceiver}
    (hr : Watching r key ssrc) : (receiveAll check r ps).rx = receiveParts v0 r.rx qs := by
  induction ps generalizing qs v0 r with
  | nil =>
    obtain rfl := List.eq_nil_of_length_eq_zero h.length.symm
    rfl
  | cons p ps ih =>
    cases qs with
    | nil => cases h.length
    | cons part qs =>
      obtain ⟨pictureId, nonce, rfl⟩ := h.packet 0 p part rfl rfl
      have hrest : Numbered cr key ssrc (v0 + 1) ps qs := by
        refine ⟨by simpa using h.length, ?_⟩
        intro j p' part' hps hqs
        have := h.packet (j + 1) p' part' hps hqs
        rwa [Nat.add_comm j 1, ← Nat.add_assoc] at this
      have hpart := hts part (List.mem_cons_self ..)
      rw [Nat.add_zero, receiveAll, List.foldl_cons,
        handleUdpPacket_video hgcm hr (Nat.mod_lt _ (by decide)) hpart hssrc]
      exact ih hrest (fun q hq => hts q (List.mem_cons_of_mem _ hq)) (hr.add _)

/-- Nothing has arrived yet. -/
structure VideoRx.New (r : VideoRx) : Prop where
  haveVseq : r.haveVseq = false
  rxActive : r.rxActive = false
  done : r.done = []

/-- **Video goes through.**  What the receiver completes was sent, whatever packets are
lost, doubled or arrive out of order.  When all that is on the wire arrives in order, the
frames with all their packets are completed, each once and in order, and these are all
frames once the queue is empty. -/
theorem video_round_trip (hgcm : GcmLaws cr check) {s : VideoSender}
    (hs : (videoSender cr).Reachable (fun _ _ => True) s)
    (hdistinct : (s.frames.map VideoFrame.ts).Nodup) {r : VideoReceiver}
    (hr : Watching r s.key s.videoSsrc) (hnew : r.rx.New) :
    (∀ arrivals : List Nat,
      ∀ b ∈ (receiveAll check r (arrivals.filterMap fun j => s.wire[j]?)).rx.done,
        ∃ f ∈ s.frames, b = f.bytes) ∧
    (receiveAll check r s.wire).rx.done = finished s.frames s.wire.length ∧
    (s.queue = [] → (receiveAll check r s.wire).rx.done = s.frames.map VideoFrame.bytes) := by
  obtain ⟨v0, hsound⟩ := VideoSender.sound_of_reachable hs
  have hnumbered := hsound.streams.numbered
  have hinorder : (receiveAll check r s.wire).rx.done = finished s.frames s.wire.length := by
    have hwire : Numbered cr s.key s.videoSsrc v0 s.wire ((parts s.frames).take s.wire.length) := by
      have hlen := hnumbered.length
      rw [List.length_append] at hlen
      refine ⟨by rw [List.length_take]; omega, ?_⟩
      intro j p part hp hpart
      have hj := (List.getElem?_eq_some_iff.1 hp).1
      rw [List.getElem?_take_of_lt hj] at hpart
      exact hnumbered.packet j p part (by rw [List.getElem?_append_left hj]; exact hp) hpart
    have hts : ∀ part ∈ (parts s.frames).take s.wire.length, part.ts < 2 ^ 32 := by
      intro part hpart
      obtain ⟨m, hm⟩ := List.mem_iff_getElem?.1 (List.mem_of_mem_take hpart)
      obtain ⟨k, c, f, hat, rfl⟩ := parts_at hm
      exact (hsound.frames f (List.mem_of_getElem? hat.frame)).ts
    have hnext : r.rx.Next v0 := by
      intro hhave
      rw [hnew.haveVseq] at hhave
      cases hhave
    rw [receiveAll_parts hgcm hsound.streams.videoSsrc hwire hts hr,
      receiveParts_finished hsound.frames hnew.rxActive hnext, hnew.done, List.nil_append]
  refine ⟨?_, hinorder, ?_⟩
  · intro arrivals
    have hstart : Assembles s.frames v0 r.rx := by
      refine ⟨fun _ => hnew.rxActive, fun hactive => ?_, ?_⟩
      · rw [hnew.rxActive] at hactive
        cases hactive
      · rw [hnew.done]
        intro b hb
        cases hb
    have hrun : ∀ q : VideoReceiver, Watching q s.key s.videoSsrc → Assembles s.frames v0 q.rx →
        Assembles s.frames v0 (receiveAll check q (arrivals.filterMap fun j => s.wire[j]?)).rx := by
      induction arrivals with
      | nil => exact fun q _ hq => hq
      | cons j arrivals ih =>
        intro q hq hassembles
        cases hp : s.wire[j]? with
        | none =>
          rw [List.filterMap_cons_none hp]
          exact ih q hq hassembles
        | some p =>
          rw [List.filterMap_cons_some hp]
          obtain ⟨hwatching, hkept⟩ := handleUdpPacket_assembles hgcm hsound hdistinct hq hassembles hp
          exact ih _ hwatching hkept
    exact (hrun r hr hstart).done
  · intro hqueue
    rw [hinorder]
    apply finished_all
    rw [← hnumbered.length, hqueue, List.append_nil]

/-- The key and the seal of the packet below. -/
def videoKey : List UInt8 := (List.range 32).map UInt8.ofNat

def videoBody : List UInt8 := [0x51, 0, 0, 0, 0x90, 0x80, 0x80, 5, 1, 2, 3]

def videoCipher : List UInt8 := [21, 54, 205, 170, 156, 218, 116, 173, 94, 62, 102]

def videoTag : List UInt8 := [141, 105, 10, 13, 238, 44, 227, 46, 121, 16, 182, 156, 72, 186, 223, 84]

/-- The call of AES-GCM for the packet. -/
def VideoCall (key iv aad plain : List UInt8) : Prop :=
  key = videoKey ∧ iv = [0, 0, 0, 1, 0, 0, 0, 0, 0, 0, 0, 0] ∧
    aad = [0x90, 0xE9, 0xFF, 0xFF, 0, 0, 0, 100, 0, 0, 0, 7, 0xBE, 0xDE, 0, 1] ∧ plain = videoBody

instance (key iv aad plain : List UInt8) : Decidable (VideoCall key iv aad plain) := by
  unfold VideoCall
  infer_instance

def videoCrypto : Crypto where
  expand _ _ _ _ := []
  gcm key iv aad plain :=
    if VideoCall key iv aad plain then (videoCipher, videoTag) else (plain, List.replicate 16 0)

def videoCheck : GcmCheck := fun key iv aad ct tag =>
  if VideoCall key iv aad videoBody ∧ ct = videoCipher ∧ tag = videoTag then some videoBody
  else if tag = List.replicate 16 0 then some ct
  else none

theorem videoCrypto_laws : GcmLaws videoCrypto videoCheck := by
  refine ⟨?_, ?_, ?_⟩ <;> intro key iv aad plain <;> by_cases h : VideoCall key iv aad plain
  · have hplain := h.2.2.2
    subst hplain
    simp only [videoCrypto, if_pos h]
    rfl
  · simp [videoCrypto, h]
  · simp [videoCrypto, h, videoTag]
  · simp [videoCrypto, h]
  · have hplain := h.2.2.2
    subst hplain
    simp [videoCrypto, videoCheck, h]
  · have htag : List.replicate 16 0 ≠ videoTag := by decide
    simp only [videoCrypto, videoCheck, if_neg h]
    rw [if_neg fun hsealed => htag hsealed.2.2]
    rfl

/-- A sender at the last number, and a receiver. -/
def videoStart : VideoSender where
  key := videoKey
  dave := daveNew 7
  videoSsrc := 7
  vseq := 65535
  vtsBase := 100
  vts := 0
  pictureId := 5
  txNonce := 1
  vPackets := 0
  vOctets := 0
  queue := []
  wire := []
  frames := []

def watcher : VideoReceiver where
  discovered := true
  haveKey := true
  key := videoKey
  stream := false
  watchUser := 9
  speakers := [8]
  vssrc := []
  rx := ⟨0, false, [], 0, false, 0, []⟩

/-- One frame of three bytes. -/
def frameSent : VideoSender :=
  (videoSender videoCrypto).run videoStart [.videoPump [1, 2, 3] true 0, .pacePump 1]

theorem frame_goes_through :
    (receiveAll videoCheck watcher frameSent.wire).rx.done = [[1, 2, 3]] := by
  have hstart : (videoSender videoCrypto).Reachable (fun _ _ => True) videoStart :=
    .start ⟨by decide, by decide, rfl, rfl, rfl⟩
  have hsent : (videoSender videoCrypto).Reachable (fun _ _ => True) frameSent :=
    hstart.run _ fun _ _ _ _ => trivial
  have hwatching : Watching watcher frameSent.key frameSent.videoSsrc :=
    ⟨rfl, rfl, by decide +kernel, rfl, by decide, Or.inr (by decide +kernel)⟩
  have hdone := (video_round_trip videoCrypto_laws hsent (by decide +kernel) hwatching ⟨rfl, rfl, rfl⟩).2.2
    (by decide +kernel)
  rw [hdone]
  decide +kernel

end Voice
