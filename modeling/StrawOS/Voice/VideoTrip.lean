import StrawOS.Voice.Video

/-!
# The way of a video frame

The packets of the sender are the parts of its frames, numbered from a random number on.
The receiver adds a part to its buffer only if the part follows the last one by its number
and is of the same time.  A frame has far fewer parts than there are numbers.
-/

namespace Voice

variable {cr : Crypto} {check : GcmCheck}

/-! ## Parts -/

/-- A part of a frame. -/
structure VideoPart where
  ts : Nat
  first : Bool
  last : Bool
  chunk : List UInt8

namespace VideoFrame

variable (f : VideoFrame)

/-- The number of parts. -/
def count : Nat := chunkCount f.bytes.length

def part (c : Nat) : VideoPart :=
  ⟨f.ts, c == 0, c + 1 == f.count, (f.bytes.drop (c * videoChunk)).take videoChunk⟩

def parts : List VideoPart := (List.range f.count).map f.part

@[simp] theorem length_parts : f.parts.length = f.count := by simp [parts]

/-- The first `c` chunks. -/
def start (c : Nat) : List UInt8 := f.bytes.take (c * videoChunk)

theorem start_succ (c : Nat) : f.start (c + 1) = f.start c ++ (f.part c).chunk := by
  rw [start, start, part, Nat.succ_mul, List.take_add]

theorem start_count : f.start f.count = f.bytes := by
  apply List.take_of_length_le
  unfold count chunkCount videoChunk
  omega

/-- What `send_video_frame` promises of a frame. -/
structure Sendable : Prop where
  ts : f.ts < 2 ^ 32
  nonempty : 0 < f.count
  count : f.count ≤ videoQueue

end VideoFrame

/-- The parts of the frames, in order. -/
def parts (fs : List VideoFrame) : List VideoPart := fs.flatMap VideoFrame.parts

/-- The part at `m` is number `c` of the frame at `k`. -/
structure At (fs : List VideoFrame) (m k c : Nat) (f : VideoFrame) : Prop where
  frame : fs[k]? = some f
  pos : m = (parts (fs.take k)).length + c
  inside : c < f.count

theorem parts_at {fs : List VideoFrame} {m : Nat} {part : VideoPart} (h : (parts fs)[m]? = some part) :
    ∃ k c f, At fs m k c f ∧ part = f.part c := by
  induction fs generalizing m with
  | nil => simp [parts] at h
  | cons f fs ih =>
    have hcons : parts (f :: fs) = f.parts ++ parts fs := by simp [parts]
    rw [hcons] at h
    by_cases hm : m < f.count
    · rw [List.getElem?_append_left (by simpa using hm)] at h
      refine ⟨0, m, f, ⟨rfl, by simp [parts], hm⟩, ?_⟩
      have hget : f.parts[m]? = some (f.part m) := by simp [VideoFrame.parts, hm]
      exact Option.some.inj (h.symm.trans hget)
    · rw [List.getElem?_append_right (by simpa using hm), VideoFrame.length_parts] at h
      obtain ⟨k, c, g, hat, hpart⟩ := ih h
      refine ⟨k + 1, c, g, ⟨by simpa using hat.frame, ?_, hat.inside⟩, hpart⟩
      have hpos := hat.pos
      simp only [List.take_succ_cons, parts, List.flatMap_cons, List.length_append,
        VideoFrame.length_parts] at hpos ⊢
      omega

theorem At.same_frame {fs : List VideoFrame} (hdistinct : (fs.map VideoFrame.ts).Nodup)
    {m k c m' k' c' : Nat} {f g : VideoFrame} (h : At fs m k c f) (h' : At fs m' k' c' g)
    (hts : f.ts = g.ts) : f = g ∧ m + c' = m' + c := by
  have hk : k = k' := by
    have hlt : k < (fs.map VideoFrame.ts).length := by
      rw [List.length_map]
      exact (List.getElem?_eq_some_iff.1 h.frame).1
    apply (List.getElem?_inj hlt hdistinct).1
    rw [List.getElem?_map, List.getElem?_map, h.frame, h'.frame]
    exact congrArg some hts
  subst hk
  refine ⟨Option.some.inj (h.frame.symm.trans h'.frame), ?_⟩
  have := h.pos
  have := h'.pos
  omega

/-! ## A packet is read back -/

/-- AES-GCM undoes itself. -/
structure GcmLaws (cr : Crypto) (check : GcmCheck) : Prop where
  length : ∀ key iv aad plain, (cr.gcm key iv aad plain).1.length = plain.length
  tag : ∀ key iv aad plain, (cr.gcm key iv aad plain).2.length = 16
  undo : ∀ key iv aad plain,
    check key iv aad (cr.gcm key iv aad plain).1 (cr.gcm key iv aad plain).2 = some plain

@[simp] theorem length_videoHead (seq ts ssrc : Nat) (last : Bool) :
    (videoHead seq ts ssrc last).length = 16 := rfl

@[simp] theorem length_videoDescr (pictureId : Nat) (first : Bool) :
    (videoDescr pictureId first).length = 4 := rfl

theorem rtpHeader_video (seq ts ssrc : Nat) (last : Bool) (rest : List UInt8) :
    rtpHeader (videoHead seq ts ssrc last ++ rest) = some (16, 1) := by
  have hlong : ¬ (videoHead seq ts ssrc last ++ rest).length < 16 := by simp
  have hwords : getBe 2 (videoHead seq ts ssrc last ++ rest) 14 = 1 := rfl
  have hfirst : (videoHead seq ts ssrc last ++ rest).headD 0 = 0x90 := rfl
  have hext : (0x90 : UInt8) &&& 0x10 ≠ 0 := by decide
  unfold rtpHeader
  rw [hfirst, if_pos hext]
  show (if (videoHead seq ts ssrc last ++ rest).length < 16 then none
    else some (16, getBe 2 (videoHead seq ts ssrc last ++ rest) 14)) = some (16, 1)
  rw [if_neg hlong, hwords]

theorem or_and_high (x : UInt8) : (0x80 ||| x) &&& 0x80 = 0x80 := by
  apply UInt8.toBitVec_inj.mp
  apply BitVec.eq_of_getLsbD_eq
  intro i hi
  interval_cases i <;> simp

theorem vp8Descriptor_extended {b picture : UInt8} {rest : List UInt8} (hb : b &&& 0x80 ≠ 0)
    (hpicture : picture &&& 0x80 ≠ 0) :
    vp8Descriptor (b :: 0x80 :: picture :: rest) =
      some (4, decide (b &&& 0x10 ≠ 0 ∧ b &&& 0x07 = 0)) := by
  have hlong : (if ((b :: 0x80 :: picture :: rest)[2]?.getD 0) &&& 0x80 ≠ 0 then 2 else 1) = 2 :=
    if_pos hpicture
  have h80 : (0x80 : UInt8) &&& 0x80 ≠ 0 := by decide
  have h40 : ¬ (0x80 : UInt8) &&& 0x40 ≠ 0 := by decide
  have h30 : ¬ (0x80 : UInt8) &&& 0x30 ≠ 0 := by decide
  unfold vp8Descriptor
  dsimp only
  rw [if_pos hb, if_pos h80, if_neg h40, if_neg h30, hlong]

theorem videoDescriptor_video (pictureId : Nat) (first last : Bool) (chunk : List UInt8) :
    videoDescriptor videoPt last (videoDescr pictureId first ++ chunk) = some (4, first, last) := by
  have hpicture := or_and_high (UInt8.ofNat (pictureId / 256) &&& 0x7F)
  have hpresent : (0x80 ||| (UInt8.ofNat (pictureId / 256) &&& 0x7F)) &&& 0x80 ≠ 0 := by
    rw [hpicture]
    decide
  have hvp8 : vp8Descriptor (videoDescr pictureId first ++ chunk) = some (4, first) := by
    cases first
    · exact vp8Descriptor_extended (by decide) hpresent
    · exact vp8Descriptor_extended (by decide) hpresent
  unfold videoDescriptor
  rw [if_neg (by decide), hvp8]
  rfl

theorem rtpPayload_of_check {key head ct tag nonce plain : List UInt8}
    (hheader : rtpHeader (head ++ ct ++ tag ++ nonce) = some (16, 1)) (hhead : head.length = 16)
    (hpadding : (head ++ ct ++ tag ++ nonce).headD 0 &&& 0x20 = 0) (hct : 4 ≤ ct.length)
    (htag : tag.length = 16) (hnonce : nonce.length = 4)
    (hcheck : check key (nonce ++ List.replicate 8 0) head ct tag = some plain) :
    rtpPayload check key (head ++ ct ++ tag ++ nonce) = some (plain.drop 4) := by
  have hlen : (head ++ ct ++ tag ++ nonce).length = 16 + ct.length + 20 := by
    simp only [List.length_append]
    omega
  have hiv : (head ++ ct ++ tag ++ nonce).drop (16 + ct.length + 20 - 4) = nonce :=
    List.drop_left' (by simp only [List.length_append]; omega)
  have haad : (head ++ ct ++ tag ++ nonce).take 16 = head := by
    rw [List.append_assoc, List.append_assoc]
    exact List.take_left' hhead
  have hcipher : ((head ++ ct ++ tag ++ nonce).drop 16).take ct.length = ct := by
    rw [List.append_assoc, List.append_assoc, List.drop_left' hhead]
    exact List.take_left' rfl
  have hmac : ((head ++ ct ++ tag ++ nonce).drop (16 + ct.length)).take 16 = tag := by
    rw [List.append_assoc (head ++ ct), List.drop_left' (by rw [List.length_append, hhead])]
    exact List.take_left' htag
  have hsize : 16 + ct.length + 20 - 16 - 20 = ct.length := by omega
  unfold rtpPayload
  rw [hheader]
  dsimp only
  rw [if_neg (by omega), hlen, hsize, hiv, haad, hcipher, hmac, hcheck]
  dsimp only
  rw [if_neg (by omega), if_neg (fun h => h.1 hpadding)]

theorem rtpPayload_video (hgcm : GcmLaws cr check) (key : List UInt8)
    (ssrc seq ts pictureId nonce : Nat) (first last : Bool) (chunk : List UInt8) :
    rtpPayload check key (videoBytes cr key ssrc seq ts pictureId nonce first last chunk) =
      some (videoDescr pictureId first ++ chunk) := by
  have hlen := hgcm.length key (put32 nonce ++ List.replicate 8 0) (videoHead seq ts ssrc last)
    ([0x51, 0, 0, 0] ++ videoDescr pictureId first ++ chunk)
  have hheader := rtpHeader_video seq ts ssrc last
  have hundo := hgcm.undo key (put32 nonce ++ List.replicate 8 0) (videoHead seq ts ssrc last)
    ([0x51, 0, 0, 0] ++ videoDescr pictureId first ++ chunk)
  refine rtpPayload_of_check ?_ (length_videoHead seq ts ssrc last) ?_ ?_ (hgcm.tag _ _ _ _) rfl hundo
  · rw [List.append_assoc, List.append_assoc]
    exact hheader _
  · show (0x90 : UInt8) &&& 0x20 = 0
    decide
  · rw [hlen]
    simp

theorem videoBytes_split (hgcm : GcmLaws cr check) (key : List UInt8)
    (ssrc seq ts pictureId nonce : Nat) (first last : Bool) (chunk : List UInt8) :
    ∃ rest, videoBytes cr key ssrc seq ts pictureId nonce first last chunk =
      videoHead seq ts ssrc last ++ rest ∧ 20 ≤ rest.length := by
  have htag := hgcm.tag key (put32 nonce ++ List.replicate 8 0) (videoHead seq ts ssrc last)
    ([0x51, 0, 0, 0] ++ videoDescr pictureId first ++ chunk)
  have hnonce : (put32 nonce).length = 4 := rfl
  refine ⟨(cr.gcm key (put32 nonce ++ List.replicate 8 0) (videoHead seq ts ssrc last)
      ([0x51, 0, 0, 0] ++ videoDescr pictureId first ++ chunk)).1 ++
    ((cr.gcm key (put32 nonce ++ List.replicate 8 0) (videoHead seq ts ssrc last)
      ([0x51, 0, 0, 0] ++ videoDescr pictureId first ++ chunk)).2 ++ put32 nonce), ?_, ?_⟩
  · rw [← List.append_assoc, ← List.append_assoc]
    rfl
  · simp only [List.length_append]
    omega

/-- The receiver watches the sender. -/
structure Watching (r : VideoReceiver) (key : List UInt8) (ssrc : Nat) : Prop where
  discovered : r.discovered = true
  haveKey : r.haveKey = true
  key : r.key = key
  stream : r.stream = false
  watchUser : r.watchUser ≠ 0
  source : ssrc ∈ r.vssrc ∨ ssrc ∉ r.speakers

theorem Watching.add {r : VideoReceiver} {key : List UInt8} {ssrc : Nat} (h : Watching r key ssrc)
    (rx : VideoRx) : Watching { addVideoSsrc r ssrc with rx := rx } key ssrc := by
  unfold addVideoSsrc
  split
  · exact ⟨h.discovered, h.haveKey, h.key, h.stream, h.watchUser,
      Or.inl (List.mem_append_right _ (List.mem_singleton_self ssrc))⟩
  · exact ⟨h.discovered, h.haveKey, h.key, h.stream, h.watchUser, h.source⟩

/-- What a part does to the receiver. -/
def partIn (r : VideoRx) (seq : Nat) (part : VideoPart) : VideoRx :=
  let r := if videoPt ≠ r.rxPt then { r with rxPt := videoPt, rxActive := false } else r
  let gap := r.haveVseq && seq != (r.lastVseq + 1) % 2 ^ 16
  if r.haveVseq ∧ 0x8000 < (seq + 2 ^ 16 - r.lastVseq) % 2 ^ 16 then r
  else
    videoChunkIn { r with haveVseq := true, lastVseq := seq } gap part.ts part.first part.last part.chunk

theorem videoPacket_part (r : VideoRx) (seq pictureId : Nat) (part : VideoPart) :
    videoPacket r seq part.ts part.last videoPt (videoDescr pictureId part.first ++ part.chunk) =
      partIn r seq part := by
  have hnonempty : videoDescr pictureId part.first ++ part.chunk ≠ [] := by simp [videoDescr]
  have hlong : ¬ (videoDescr pictureId part.first ++ part.chunk).length < 4 := by simp
  have hdrop : (videoDescr pictureId part.first ++ part.chunk).drop 4 = part.chunk :=
    List.drop_left' rfl
  unfold videoPacket partIn
  rw [if_neg hnonempty, videoDescriptor_video]
  dsimp only
  rw [if_neg hlong, hdrop]

theorem handleUdpPacket_video (hgcm : GcmLaws cr check) {r : VideoReceiver} {key : List UInt8}
    {ssrc : Nat} (hr : Watching r key ssrc) {seq : Nat} {part : VideoPart} (hseq : seq < 2 ^ 16)
    (hts : part.ts < 2 ^ 32) (hssrc : ssrc < 2 ^ 32) (pictureId nonce : Nat) :
    handleUdpPacket check r
      (videoBytes cr key ssrc seq part.ts pictureId nonce part.first part.last part.chunk) =
      { addVideoSsrc r ssrc with rx := partIn r.rx seq part } := by
  have hpayload := rtpPayload_video hgcm key ssrc seq part.ts pictureId nonce part.first part.last
    part.chunk
  obtain ⟨rest, hrest, hlong⟩ := videoBytes_split hgcm key ssrc seq part.ts pictureId nonce part.first
    part.last part.chunk
  generalize hp : videoBytes cr key ssrc seq part.ts pictureId nonce part.first part.last part.chunk = p
    at hpayload hrest ⊢
  have hlen : ¬ p.length < 12 + 20 := by
    rw [hrest]
    simp only [List.length_append, length_videoHead]
    omega
  have hversion : ¬ p.headD 0 >>> 6 ≠ 2 := by
    rw [hrest]
    show ¬ (0x90 : UInt8) >>> 6 ≠ 2
    decide
  have hcode : (p[1]?.getD 0).toNat = if part.last then 233 else 105 := by
    rw [hrest]
    show (UInt8.ofNat videoPt ||| (if part.last then 0x80 else 0)).toNat = _
    cases part.last <;> decide
  have hword2 : getBe 2 p 2 = seq := by
    rw [hrest]
    exact Endian.loadBe_storeBe (w := 2) hseq
  have hword4 : getBe 4 p 4 = part.ts := by
    rw [hrest]
    exact Endian.loadBe_storeBe (w := 4) hts
  have hword8 : getBe 4 p 8 = ssrc := by
    rw [hrest]
    exact Endian.loadBe_storeBe (w := 4) hssrc
  have hmarker : decide (128 ≤ if part.last then 233 else 105) = part.last := by
    cases part.last <;> decide
  have hcontrol : ¬ (200 ≤ (if part.last then 233 else 105) ∧ (if part.last then 233 else 105) ≤ 206) := by
    cases part.last <;> decide
  have hpt : (if part.last then 233 else 105) % 128 = videoPt := by
    cases part.last <;> decide
  have hheader : ¬ (r.haveKey = false ∨ p.length < 12 + 20 ∨ p.headD 0 >>> 6 ≠ 2) := by
    intro h
    rcases h with h | h | h
    · rw [hr.haveKey] at h
      cases h
    · exact hlen h
    · exact hversion h
  unfold handleUdpPacket
  rw [if_neg (by simp [hr.discovered]), if_neg hheader, hcode]
  rw [if_neg hcontrol, if_neg (by simp [hr.stream]), hpt, hword8, if_neg (fun h => h.2.1 (Or.inl rfl)),
    if_pos ⟨hr.watchUser, Or.inl rfl, hr.source⟩, hr.key, hpayload, hword2, hword4, hmarker]
  dsimp only
  rw [videoPacket_part]

end Voice
