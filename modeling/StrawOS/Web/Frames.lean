import StrawOS.Lib.Decoder
import StrawOS.Lib.Endian

/-!
# WebSocket frames

A frame has an opcode, a mark for the end of its message, a length in one of three forms,
possibly a mask, and a payload.  What arrives is decoded from the front of a buffer once
all of the frame is there; what is sent is always masked and has the shortest form of
its length.
-/

namespace Web

def maxBody : Nat := 64 * 1024 * 1024

/-- The bytes of a text. -/
def text (s : String) : List UInt8 := s.toList.map fun c => UInt8.ofNat c.toNat

structure Frame where
  fin : Bool
  op : Nat
  payload : List UInt8

abbrev Mask := Fin 4 → UInt8

def Mask.bytes (m : Mask) : List UInt8 := [m 0, m 1, m 2, m 3]

/-- The payload with the mask put on or taken off. -/
def applyMask (m : Mask) (payload : List UInt8) : List UInt8 :=
  payload.mapIdx fun i b => b ^^^ m (Fin.ofNat 4 i)

@[simp] theorem length_applyMask (m : Mask) (payload : List UInt8) :
    (applyMask m payload).length = payload.length := by
  simp [applyMask]

theorem applyMask_applyMask (m : Mask) (payload : List UInt8) :
    applyMask m (applyMask m payload) = payload := by
  apply List.ext_getElem
  · simp
  · intro i h h'
    simp only [applyMask, List.getElem_mapIdx]
    rw [UInt8.xor_assoc, UInt8.xor_self, UInt8.xor_zero]

/-! ## Decoding -/

/-- The header of a frame in `parse_frames`, with its length. -/
structure Header where
  fin : Bool
  op : Nat
  len : Nat
  size : Nat
  mask : Option Mask

/-- The header at the front of a buffer, once it is complete. -/
def readHeader (p : List UInt8) : Option Header :=
  match p with
  | b0 :: b1 :: _ =>
    let len := (b1 &&& 0x7F).toNat
    let h := if len = 126 then 4 else if len = 127 then 10 else 2
    if p.length < h then none
    else
      let len := if h = 2 then len else Endian.loadBe ((p.drop 2).take (h - 2))
      if b1 &&& 0x80 ≠ 0 then
        if p.length < h + 4 then none
        else some ⟨b0 &&& 0x80 ≠ 0, (b0 &&& 0x0F).toNat, len, h + 4, some fun i => p.getD (h + i) 0⟩
      else some ⟨b0 &&& 0x80 ≠ 0, (b0 &&& 0x0F).toNat, len, h, none⟩
  | _ => none

/-- The payload of a frame with its mask taken off. -/
def unmask (mask : Option Mask) (payload : List UInt8) : List UInt8 :=
  match mask with
  | some m => applyMask m payload
  | none => payload

/-- The frame at the front of a buffer.  A length over `MAX_BODY` is refused. -/
def readFrame (p : List UInt8) : Next UInt8 Frame :=
  match readHeader p with
  | none => .more
  | some hd =>
    if maxBody < hd.len then .bad
    else if p.length < hd.size + hd.len then .more
    else .item ⟨hd.fin, hd.op, unmask hd.mask ((p.drop hd.size).take hd.len)⟩ (p.drop (hd.size + hd.len))

theorem readHeader_append {p : List UInt8} {hd : Header} (h : readHeader p = some hd)
    (ys : List UInt8) : readHeader (p ++ ys) = some hd ∧ 2 ≤ hd.size ∧ hd.size ≤ p.length := by
  unfold readHeader at h
  split at h
  · rename_i b0 b1 rest
    dsimp only at h
    generalize hp : b0 :: b1 :: rest = p at h
    have hcons : p ++ ys = b0 :: b1 :: (rest ++ ys) := by
      rw [← hp]
      rfl
    unfold readHeader
    rw [hcons]
    dsimp only
    generalize hsize : (if (b1 &&& 0x7F).toNat = 126 then 4 else
      if (b1 &&& 0x7F).toNat = 127 then 10 else 2) = n at h ⊢
    split at h
    · cases h
    · split at h
      · split at h
        · cases h
        · grind
      · grind
  · cases h

/-- Frames are decoded one after the other. -/
def frames : Decoder UInt8 Frame where
  next := readFrame
  shrink := by
    intro p f rest h
    unfold readFrame at h
    split at h
    · cases h
    · rename_i hd hread
      obtain ⟨-, htwo, hle⟩ := readHeader_append hread []
      split at h
      · cases h
      · grind
  item_append := by
    intro p f rest ys h
    unfold readFrame at h ⊢
    split at h
    · cases h
    · rename_i hd hread
      obtain ⟨happend, htwo, hle⟩ := readHeader_append hread ys
      rw [happend]
      dsimp only
      split at h
      · cases h
      · grind
  bad_append := by
    intro p ys h
    unfold readFrame at h ⊢
    split at h
    · cases h
    · rename_i hd hread
      rw [(readHeader_append hread ys).1]
      dsimp only
      split at h
      · rename_i hbody
        rw [if_pos hbody]
      · split at h <;> cases h

/-! ## Encoding -/

/-- The three forms of a length. -/
inductive LengthForm
  | short
  | medium
  | long

namespace LengthForm

/-- The length fits the form. -/
def Fits : LengthForm → Nat → Prop
  | short, n => n < 126
  | medium, n => n < 2 ^ 16
  | long, n => n < 2 ^ 64

/-- The seven bits in the second byte. -/
def code : LengthForm → Nat → UInt8
  | short, n => UInt8.ofNat n
  | medium, _ => 126
  | long, _ => 127

/-- The bytes after the second byte. -/
def extra : LengthForm → Nat → List UInt8
  | short, _ => []
  | medium, n => Endian.storeBe 2 n
  | long, n => Endian.storeBe 8 n

end LengthForm

/-- A frame with the form of its length and its mask. -/
structure WireFrame where
  frame : Frame
  form : LengthForm
  mask : Option Mask

namespace WireFrame

variable (f : WireFrame)

def encode : List UInt8 :=
  [(if f.frame.fin then 0x80 else 0) ||| UInt8.ofNat f.frame.op,
    (if f.mask.isSome then 0x80 else 0) ||| f.form.code f.frame.payload.length] ++
  f.form.extra f.frame.payload.length ++ (f.mask.elim [] Mask.bytes) ++ unmask f.mask f.frame.payload

/-- A frame that can be received. -/
structure Valid : Prop where
  op : f.frame.op < 16
  form : f.form.Fits f.frame.payload.length
  body : f.frame.payload.length ≤ maxBody

end WireFrame

/-- The bytes of a frame in `ws_send_frame`, with what `random_bytes` gives. -/
def frameBytes (op : Nat) (data : List UInt8) (mask : Mask) : List UInt8 :=
  [0x80 ||| UInt8.ofNat op] ++
  (if data.length < 126 then [0x80 ||| UInt8.ofNat data.length]
    else if data.length < 65536 then
      [0x80 ||| 126, UInt8.ofNat (data.length / 256), UInt8.ofNat data.length]
    else (0x80 ||| 127) :: Endian.storeBe 8 data.length) ++
  mask.bytes ++ applyMask mask data

/-- The frame that `ws_send_frame` writes. -/
def sentFrame (op : Nat) (data : List UInt8) (mask : Mask) : WireFrame where
  frame := ⟨true, op, data⟩
  form := if data.length < 126 then .short else if data.length < 65536 then .medium else .long
  mask := some mask

theorem encode_sentFrame (op : Nat) (data : List UInt8) (mask : Mask) :
    (sentFrame op data mask).encode = frameBytes op data mask := by
  have hbytes : Endian.storeBe 2 data.length =
      [UInt8.ofNat (data.length / 256), UInt8.ofNat data.length] := by
    simp [Endian.storeBe, Endian.store, Endian.byteAt, List.range_succ]
  unfold WireFrame.encode frameBytes sentFrame
  by_cases hshort : data.length < 126
  · simp only [if_pos hshort]
    rfl
  · by_cases hmedium : data.length < 65536
    · simp only [if_neg hshort, if_pos hmedium, LengthForm.code, LengthForm.extra, hbytes]
      rfl
    · simp only [if_neg hshort, if_neg hmedium]
      rfl

theorem sentFrame_valid {op : Nat} (hop : op < 16) {data : List UInt8} (hbody : data.length ≤ maxBody)
    (mask : Mask) : (sentFrame op data mask).Valid := by
  refine ⟨hop, ?_, hbody⟩
  unfold sentFrame
  split
  · assumption
  · split
    · assumption
    · show data.length < 2 ^ 64
      unfold maxBody at hbody
      omega

/-! ## Round trip -/

theorem head_bits {op : Nat} (hop : op < 16) (fin : Bool) :
    (((if fin then 0x80 else 0) ||| UInt8.ofNat op) &&& 0x80 ≠ 0 ↔ fin = true) ∧
      (((if fin then 0x80 else 0) ||| UInt8.ofNat op) &&& 0x0F).toNat = op := by
  have hall : ∀ op : Fin 16, ∀ fin : Bool,
      (((if fin then 0x80 else 0) ||| UInt8.ofNat op) &&& 0x80 ≠ 0 ↔ fin = true) ∧
        (((if fin then 0x80 else 0) ||| UInt8.ofNat op) &&& 0x0F).toNat = op := by
    decide +kernel
  exact hall ⟨op, hop⟩ fin

theorem length_bits {n : Nat} (hn : n < 128) (masked : Bool) :
    (((if masked then 0x80 else 0) ||| UInt8.ofNat n) &&& 0x80 ≠ 0 ↔ masked = true) ∧
      (((if masked then 0x80 else 0) ||| UInt8.ofNat n) &&& 0x7F).toNat = n := by
  have hall : ∀ n : Fin 128, ∀ masked : Bool,
      (((if masked then 0x80 else 0) ||| UInt8.ofNat n) &&& 0x80 ≠ 0 ↔ masked = true) ∧
        (((if masked then 0x80 else 0) ||| UInt8.ofNat n) &&& 0x7F).toNat = n := by
    decide +kernel
  exact hall ⟨n, hn⟩ masked

theorem readHeader_parts {b0 b1 : UInt8} {ext tail : List UInt8} {mask : Option Mask} {len : Nat}
    (hmask : b1 &&& 0x80 ≠ 0 ↔ mask.isSome = true)
    (hext : 2 + ext.length =
      if (b1 &&& 0x7F).toNat = 126 then 4 else if (b1 &&& 0x7F).toNat = 127 then 10 else 2)
    (hlen : (if 2 + ext.length = 2 then (b1 &&& 0x7F).toNat else Endian.loadBe ext) = len) :
    readHeader (b0 :: b1 :: (ext ++ (mask.elim [] Mask.bytes ++ tail))) =
      some ⟨b0 &&& 0x80 ≠ 0, (b0 &&& 0x0F).toNat, len,
        2 + ext.length + (mask.elim [] Mask.bytes).length, mask⟩ := by
  unfold readHeader
  dsimp only
  rw [← hext]
  have hsize : (b0 :: b1 :: (ext ++ (mask.elim [] Mask.bytes ++ tail))).length =
      2 + ext.length + (mask.elim [] Mask.bytes).length + tail.length := by
    simp only [List.length_cons, List.length_append]
    omega
  have hbytes : ((b0 :: b1 :: (ext ++ (mask.elim [] Mask.bytes ++ tail))).drop 2).take
      (2 + ext.length - 2) = ext := List.take_left' (by omega)
  rw [if_neg (by omega), hbytes, hlen]
  cases mask with
  | none =>
    rw [if_neg fun h => nomatch hmask.1 h]
    rfl
  | some m =>
    have hfour : (Option.elim (some m) [] Mask.bytes).length = 4 := rfl
    rw [if_pos (hmask.2 rfl), if_neg (by omega)]
    have hget : (fun i : Fin 4 => (b0 :: b1 :: (ext ++ (m.bytes ++ tail))).getD (2 + ext.length + i) 0) =
        m := by
      funext i
      have hpos : 2 + ext.length + (i : Nat) = (b0 :: b1 :: ext).length + i := by
        simp only [List.length_cons]
        omega
      have hsplit : b0 :: b1 :: (ext ++ (m.bytes ++ tail)) = (b0 :: b1 :: ext) ++ (m.bytes ++ tail) := rfl
      rw [hsplit, hpos, List.getD_eq_getElem?_getD, List.getElem?_append_right (by omega),
        Nat.add_sub_cancel_left]
      match i with
      | 0 | 1 | 2 | 3 => rfl
    exact congrArg (fun mask => some (Header.mk _ _ _ _ (some mask))) hget

theorem readHeader_encode {f : WireFrame} (hop : f.frame.op < 16)
    (hform : f.form.Fits f.frame.payload.length) (tail : List UInt8) :
    readHeader (f.encode ++ tail) =
      some ⟨f.frame.fin, f.frame.op, f.frame.payload.length,
        2 + (f.form.extra f.frame.payload.length).length + (f.mask.elim [] Mask.bytes).length, f.mask⟩ := by
  obtain ⟨⟨fin, op, payload⟩, form, mask⟩ := f
  obtain ⟨hfin, hopcode⟩ := head_bits hop fin
  have hencode : WireFrame.encode ⟨⟨fin, op, payload⟩, form, mask⟩ ++ tail =
      ((if fin then 0x80 else 0) ||| UInt8.ofNat op) ::
        ((if mask.isSome then 0x80 else 0) ||| form.code payload.length) ::
        (form.extra payload.length ++ (mask.elim [] Mask.bytes ++ (unmask mask payload ++ tail))) := by
    simp [WireFrame.encode]
  rw [hencode]
  have hparts : (((if mask.isSome then 0x80 else 0) ||| form.code payload.length) &&& 0x80 ≠ 0 ↔
      mask.isSome = true) ∧
      (2 + (form.extra payload.length).length =
        if (((if mask.isSome then 0x80 else 0) ||| form.code payload.length) &&& 0x7F).toNat = 126 then 4
        else if (((if mask.isSome then 0x80 else 0) ||| form.code payload.length) &&& 0x7F).toNat = 127
          then 10 else 2) ∧
      (if 2 + (form.extra payload.length).length = 2 then
          (((if mask.isSome then 0x80 else 0) ||| form.code payload.length) &&& 0x7F).toNat
        else Endian.loadBe (form.extra payload.length)) = payload.length := by
    cases form with
    | short =>
      have hlen : payload.length < 126 := hform
      obtain ⟨hmask, hcode⟩ := length_bits (show payload.length < 128 by omega) mask.isSome
      refine ⟨hmask, ?_, ?_⟩
      · show 2 = if (((if mask.isSome then 0x80 else 0) ||| UInt8.ofNat payload.length) &&& 0x7F).toNat =
          126 then 4 else if (((if mask.isSome then 0x80 else 0) ||| UInt8.ofNat payload.length) &&&
          0x7F).toNat = 127 then 10 else 2
        rw [hcode, if_neg (by omega), if_neg (by omega)]
      · exact hcode
    | medium =>
      obtain ⟨hmask, hcode⟩ := length_bits (show 126 < 128 by omega) mask.isSome
      refine ⟨hmask, ?_, ?_⟩
      · show 4 = if (((if mask.isSome then 0x80 else 0) ||| UInt8.ofNat 126) &&& 0x7F).toNat = 126 then 4
          else _
        rw [hcode, if_pos rfl]
      · exact Endian.loadBe_storeBe (w := 2) hform
    | long =>
      obtain ⟨hmask, hcode⟩ := length_bits (show 127 < 128 by omega) mask.isSome
      refine ⟨hmask, ?_, ?_⟩
      · show 10 = if (((if mask.isSome then 0x80 else 0) ||| UInt8.ofNat 127) &&& 0x7F).toNat = 126 then 4
          else if (((if mask.isSome then 0x80 else 0) ||| UInt8.ofNat 127) &&& 0x7F).toNat = 127 then 10
          else 2
        rw [hcode, if_neg (by omega), if_pos rfl]
      · exact Endian.loadBe_storeBe (w := 8) hform
  rw [readHeader_parts hparts.1 hparts.2.1 hparts.2.2, hopcode]
  simp only [hfin, Bool.decide_eq_true]

@[simp] theorem length_unmask (mask : Option Mask) (payload : List UInt8) :
    (unmask mask payload).length = payload.length := by
  cases mask <;> simp [unmask]

theorem unmask_unmask (mask : Option Mask) (payload : List UInt8) :
    unmask mask (unmask mask payload) = payload := by
  cases mask with
  | none => rfl
  | some m => exact applyMask_applyMask m payload

/-- **Every frame is read back**, in each form, masked or not. -/
theorem frames_reads : frames.Reads WireFrame.encode WireFrame.frame WireFrame.Valid := by
  intro f hf rest
  have hsize : f.encode = f.encode.take (2 + (f.form.extra f.frame.payload.length).length +
      (f.mask.elim [] Mask.bytes).length) ++ unmask f.mask f.frame.payload := by
    rw [WireFrame.encode, List.take_left' (by simp only [List.length_append, List.length_cons,
      List.length_nil])]
  have hhead := readHeader_encode hf.op hf.form rest
  have hle := (readHeader_append (readHeader_encode hf.op hf.form []) rest).2.2
  rw [List.append_nil] at hle
  dsimp only at hle
  generalize 2 + (f.form.extra f.frame.payload.length).length + (f.mask.elim [] Mask.bytes).length = n
    at hsize hhead hle
  have hlen : f.encode.length = n + f.frame.payload.length := by
    have htake : (f.encode.take n).length = n := by
      rw [List.length_take]
      omega
    rw [hsize, List.length_append, htake, length_unmask]
  have hpayload : ((f.encode ++ rest).drop n).take f.frame.payload.length =
      unmask f.mask f.frame.payload := by
    rw [List.drop_append_of_le_length hle]
    have hdrop : f.encode.drop n = unmask f.mask f.frame.payload := by
      rw [hsize]
      exact List.drop_left' (by rw [List.length_take]; omega)
    rw [hdrop]
    exact List.take_left' (length_unmask _ _)
  have hrest : (f.encode ++ rest).drop (n + f.frame.payload.length) = rest := List.drop_left' hlen
  show readFrame (f.encode ++ rest) = .item f.frame rest
  unfold readFrame
  rw [hhead]
  dsimp only
  rw [if_neg (by have := hf.body; omega), if_neg (by rw [List.length_append]; omega), hpayload, hrest,
    unmask_unmask]

theorem frames_oversized {f : WireFrame} (hop : f.frame.op < 16)
    (hform : f.form.Fits f.frame.payload.length) (hbody : maxBody < f.frame.payload.length)
    (rest : List UInt8) : frames.next (f.encode ++ rest) = .bad := by
  show readFrame (f.encode ++ rest) = .bad
  unfold readFrame
  rw [readHeader_encode hop hform]
  exact if_pos hbody

theorem frameBytes_refused {op : Nat} (hop : op < 16) {data : List UInt8}
    (hbody : maxBody < data.length) (hlen : data.length < 2 ^ 64) (mask : Mask) (rest : List UInt8) :
    readFrame (frameBytes op data mask ++ rest) = .bad := by
  have hform : (sentFrame op data mask).form = .long := by
    unfold maxBody at hbody
    unfold sentFrame
    rw [if_neg (by omega), if_neg (by omega)]
  have hfits : (sentFrame op data mask).form.Fits data.length := by
    rw [hform]
    exact hlen
  rw [← encode_sentFrame]
  exact frames_oversized hop hfits hbody rest

end Web
