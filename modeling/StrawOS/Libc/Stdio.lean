import StrawOS.Lib.Machine
import Mathlib

/-!
# Reading through a `FILE`

A `FILE` opened for reading keeps up to `FILE_BUF_SIZE` bytes of the file in
`rbuf`; `rpos` of them have been handed out, and the kernel's offset stands
behind the last of them.  The position of the caller is nowhere: it is the
offset less the bytes in the buffer that are still unread.

The second part is an ideal file, one position and no buffer.  `Refines` is the
relation between the two, and `refines_step` says which calls keep it and give
the same answer.  `fseek` with `SEEK_CUR` on unread bytes throws them away and
then counts from the offset.
-/

namespace Libc

def fileBufSize : Nat := 4096

/-- `EOF`. -/
def eofValue : Int := -1

/-- The read side of a `FILE`, with the offset of its descriptor in the kernel.
`rbuf` holds the first `rlen` bytes of the buffer. -/
structure File where
  error : Bool
  eof : Bool
  rbuf : List UInt8
  rpos : Nat
  offset : Nat
  deriving DecidableEq, Repr

namespace File

/-- `f->rlen`. -/
def rlen (f : File) : Nat := f.rbuf.length

/-- A `FILE` as `fopen` makes it: `memset` to zero, on a fresh descriptor. -/
def opened : File := ⟨false, false, [], 0, 0⟩

end File

/-- `ramfs_read`. -/
def readAt (content : List UInt8) (count offset : Nat) : List UInt8 :=
  if content.length ≤ offset then [] else (content.drop offset).take count

/-- The position `vfs_lseek` computes; `none` for an unknown `whence`. -/
def seekTarget (size position : Nat) (offset whence : Int) : Option Int :=
  if whence = 0 then some offset
  else if whence = 1 then some (position + offset)
  else if whence = 2 then some (size + offset)
  else none

/-- `vfs_lseek`: its result and the offset it leaves. -/
def lseek (content : List UInt8) (position : Nat) (offset whence : Int) : Int × Nat :=
  match seekTarget content.length position offset whence with
  | none => (-1, position)
  | some result => if result < 0 then (-1, position) else (result, result.toNat)

/-- The conversion of an `int64_t` to `int`. -/
def toInt (r : Int) : Int := r.bmod (2 ^ 32)

/-- `_fill`, with the number of bytes read. -/
def fill (content : List UInt8) (f : File) : File × Nat :=
  let bytes := readAt content fileBufSize f.offset
  if bytes = [] then ({ f with rbuf := [], rpos := 0, eof := true }, 0)
  else ({ f with rbuf := bytes, rpos := 0, offset := f.offset + bytes.length }, bytes.length)

theorem fill_offset {content : List UInt8} {f : File} (h : (fill content f).2 ≠ 0) :
    content.length - (fill content f).1.offset < content.length - f.offset := by
  simp only [fill] at h ⊢
  split at h
  · exact absurd rfl h
  · rename_i hne
    simp only [readAt] at h hne ⊢
    split at hne
    · exact absurd rfl hne
    · grind

/-- The inner loop of `fread`: copy from the buffer what there is of `want` bytes. -/
def copyOut (f : File) (want : Nat) : File × List UInt8 :=
  let bytes := (f.rbuf.drop f.rpos).take want
  ({ f with rpos := f.rpos + bytes.length }, bytes)

/-- The loop of `fread`: `want` bytes are still to be copied. -/
def freadLoop (content : List UInt8) (f : File) (want : Nat) : File × List UInt8 :=
  let out := copyOut f want
  if out.2.length = want then out
  else if out.1.eof ∨ out.1.error then out
  else
    let filled := fill content out.1
    if filled.2 = 0 then (filled.1, out.2)
    else
      let rest := freadLoop content filled.1 (want - out.2.length)
      (rest.1, out.2 ++ rest.2)
termination_by content.length - f.offset
decreasing_by exact fill_offset ‹_›

/-- The calls of a program that reads. -/
inductive FileOp
  | fread (size nmemb : UInt64)
  | fgetc
  | ungetc (c : UInt8)
  | fseek (offset whence : Int)
  | ftell
  | rewind
  deriving DecidableEq, Repr

/-- What a call returns; `fread` also fills the caller's buffer. -/
inductive FileAnswer
  | value (v : Int)
  | items (count : Nat) (bytes : List UInt8)
  | done
  deriving DecidableEq, Repr

def fread (content : List UInt8) (f : File) (size nmemb : UInt64) : File × FileAnswer :=
  if size = 0 ∨ nmemb = 0 then (f, .items 0 [])
  else
    let total := size.toNat * nmemb.toNat % 2 ^ 64
    let r := freadLoop content f total
    (r.1, .items (r.2.length / size.toNat) r.2)

/-- `return (unsigned char)f->rbuf[f->rpos++]`. -/
def takeByte (f : File) : File × FileAnswer :=
  ({ f with rpos := f.rpos + 1 }, .value (f.rbuf.getD f.rpos 0).toNat)

def fgetc (content : List UInt8) (f : File) : File × FileAnswer :=
  if f.error ∨ f.eof then (f, .value eofValue)
  else if f.rlen ≤ f.rpos then
    let filled := fill content f
    if filled.2 = 0 then (filled.1, .value eofValue) else takeByte filled.1
  else takeByte f

/-- `ungetc` of a byte. -/
def ungetc (f : File) (c : UInt8) : File × FileAnswer :=
  if 0 < f.rpos then
    ({ f with rbuf := f.rbuf.set (f.rpos - 1) c, rpos := f.rpos - 1, eof := false },
      .value c.toNat)
  else if f.rlen < fileBufSize then
    ({ f with rbuf := c :: f.rbuf, eof := false }, .value c.toNat)
  else (f, .value eofValue)

/-- `fseek`; nothing is ever waiting to be written. -/
def fseek (content : List UInt8) (f : File) (offset whence : Int) : File × FileAnswer :=
  if f.error then (f, .value (-1))
  else
    let sought := lseek content f.offset offset whence
    let f := { f with rbuf := [], rpos := 0, offset := sought.2 }
    if toInt sought.1 < 0 then ({ f with error := true }, .value (-1))
    else ({ f with eof := false }, .value 0)

def ftell (content : List UInt8) (f : File) : File × FileAnswer :=
  if f.error then (f, .value (-1))
  else
    let pos := toInt (lseek content f.offset 0 1).1
    if pos < 0 then (f, .value (-1))
    else (f, .value (pos - ((f.rlen : Int) - f.rpos)))

def rewind (content : List UInt8) (f : File) : File × FileAnswer :=
  ((fseek content { f with error := false, eof := false } 0 0).1, .done)

/-- One call. -/
def fileStep (content : List UInt8) (f : File) : FileOp → File × FileAnswer
  | .fread size nmemb => fread content f size nmemb
  | .fgetc => fgetc content f
  | .ungetc c => ungetc f c
  | .fseek offset whence => fseek content f offset whence
  | .ftell => ftell content f
  | .rewind => rewind content f

/-! ## The ideal file -/

/-- A file with one position.  `pushed` is set while a byte that was pushed back
has not been read again. -/
structure Ideal where
  pos : Nat
  pushed : Bool
  deriving DecidableEq, Repr

/-- The ideal file after some bytes were read. -/
def Ideal.advance (i : Ideal) (bytes : List UInt8) : Ideal :=
  ⟨i.pos + bytes.length, i.pushed && bytes.isEmpty⟩

/-- One call on the ideal file. -/
def idealStep (content : List UInt8) (i : Ideal) : FileOp → Ideal × FileAnswer
  | .fread size nmemb =>
      let bytes := (content.drop i.pos).take (size.toNat * nmemb.toNat)
      (i.advance bytes, .items (bytes.length / size.toNat) bytes)
  | .fgetc =>
      match content[i.pos]? with
      | some c => (i.advance [c], .value c.toNat)
      | none => (i, .value eofValue)
  | .ungetc c => (⟨i.pos - 1, true⟩, .value c.toNat)
  | .fseek offset whence =>
      match seekTarget content.length i.pos offset whence with
      | some target => if target < 0 then (i, .value (-1)) else (⟨target.toNat, false⟩, .value 0)
      | none => (i, .value (-1))
  | .ftell => (i, .value i.pos)
  | .rewind => (⟨0, false⟩, .done)

/-! ## The buffer is a window of the file -/

/-- The unread bytes of the buffer lie between the position and the offset. -/
structure Window (content : List UInt8) (f : File) (i : Ideal) : Prop where
  error : f.error = false
  rpos_le : f.rpos ≤ f.rlen
  pos : i.pos + (f.rlen - f.rpos) = f.offset
  behind : f.rlen ≤ f.offset
  bytes : f.rbuf = (content.drop (f.offset - f.rlen)).take f.rlen
  eof : f.eof = true → f.rpos = f.rlen ∧ content.length ≤ f.offset
  fits : f.offset < 2 ^ 31

/-- A byte can be pushed back into the buffer. -/
def File.Settled (f : File) : Prop := 0 < f.rpos ∨ f.rlen = 0

/-- A `FILE` that stands for the ideal file. -/
structure Refines (content : List UInt8) (f : File) (i : Ideal) : Prop extends
    Window content f i where
  settled : i.pushed = false → f.Settled

section Window

variable {content : List UInt8} {f : File} {i : Ideal}

theorem Window.unread (h : Window content f i) :
    f.rbuf.drop f.rpos = (content.drop i.pos).take (f.rlen - f.rpos) := by
  have hpos := h.pos
  have hle := h.rpos_le
  have hbehind := h.behind
  rw [h.bytes, List.drop_take, List.drop_drop]
  congr 2
  omega

theorem Window.advance (h : Window content f i) {k : Nat} (hk : k ≤ f.rlen - f.rpos)
    {bytes : List UInt8} (hb : bytes.length = k) :
    Window content { f with rpos := f.rpos + k } (i.advance bytes) where
  error := h.error
  rpos_le := by
    have := h.rpos_le
    simp only [File.rlen] at this hk ⊢
    omega
  pos := by
    have := h.pos
    simp only [Ideal.advance, File.rlen] at this hk ⊢
    omega
  behind := h.behind
  bytes := h.bytes
  eof := by
    intro heof
    have := h.eof heof
    simp only [File.rlen] at this hk ⊢
    exact ⟨by omega, this.2⟩
  fits := h.fits

theorem readAt_eq (content : List UInt8) (count offset : Nat) :
    readAt content count offset = (content.drop offset).take count := by
  rw [readAt]
  split
  · rename_i hle
    rw [List.drop_of_length_le hle, List.take_nil]
  · rfl

theorem Window.fill (h : Window content f i) (hsize : content.length < 2 ^ 31)
    (hempty : f.rpos = f.rlen) : Window content (fill content f).1 i := by
  have hpos : i.pos = f.offset := by
    have := h.pos
    omega
  have hread := readAt_eq content fileBufSize f.offset
  simp only [Libc.fill]
  split
  · rename_i hnone
    have hend : content.length ≤ f.offset := by
      rw [hread] at hnone
      have := congrArg List.length hnone
      simp only [List.length_take, List.length_drop, List.length_nil, fileBufSize] at this
      omega
    exact ⟨h.error, Nat.le_refl _, by simpa [File.rlen] using hpos, Nat.zero_le _, by
      simp [File.rlen], fun _ => ⟨rfl, hend⟩, h.fits⟩
  · rename_i hsome
    have hlen : f.offset + (readAt content fileBufSize f.offset).length ≤ content.length := by
      have hpositive := List.length_pos_iff.mpr hsome
      rw [hread] at hpositive ⊢
      simp only [List.length_take, List.length_drop] at hpositive ⊢
      omega
    constructor
    · exact h.error
    · exact Nat.zero_le _
    · simp [File.rlen, hpos]
    · simp [File.rlen]
    · simp only [File.rlen, Nat.add_sub_cancel]
      rw [hread, List.length_take]
      exact List.take_eq_take_min
    · intro heof
      have := (h.eof heof).2
      have hpositive := List.length_pos_iff.mpr hsome
      omega
    · simp only
      omega

theorem fill_rlen (content : List UInt8) (f : File) :
    (fill content f).1.rlen = (fill content f).2 ∧ (fill content f).1.rpos = 0 := by
  simp only [fill]
  split <;> simp [File.rlen]

theorem end_of_fill (hempty : i.pos = f.offset) (h : (fill content f).2 = 0) :
    content.length ≤ i.pos := by
  simp only [fill] at h
  split at h
  · rename_i hnone
    rw [readAt_eq] at hnone
    have := congrArg List.length hnone
    simp only [List.length_take, List.length_drop, List.length_nil, fileBufSize] at this
    omega
  · rename_i hsome
    exact absurd (List.length_eq_zero_iff.mp h) hsome

/-! ## The calls that read -/

theorem Window.takeByte (h : Window content f i) (hlt : f.rpos < f.rlen) :
    ∃ c, content[i.pos]? = some c ∧ (Libc.takeByte f).2 = .value c.toNat ∧
      Refines content (Libc.takeByte f).1 (i.advance [c]) := by
  have hget : f.rbuf[f.rpos]? = content[i.pos]? := by
    have := congrArg (fun l => l[0]?) h.unread
    simpa [List.getElem?_take, List.getElem?_drop, Nat.sub_pos_of_lt hlt] using this
  obtain ⟨c, hc⟩ : ∃ c, f.rbuf[f.rpos]? = some c :=
    ⟨_, List.getElem?_eq_getElem (l := f.rbuf) (i := f.rpos) hlt⟩
  refine ⟨c, hget ▸ hc, ?_, ?_⟩
  · simp [Libc.takeByte, List.getD_eq_getElem?_getD, hc]
  · refine ⟨h.advance (by omega) (show [c].length = 1 from rfl), fun _ => ?_⟩
    exact Or.inl (Nat.succ_pos _)

@[simp] theorem Ideal.advance_nil (i : Ideal) : i.advance [] = i := by
  simp [Ideal.advance]

theorem Ideal.advance_append (i : Ideal) (a b : List UInt8) :
    (i.advance a).advance b = i.advance (a ++ b) := by
  cases a <;> simp [Ideal.advance, Nat.add_assoc]
  omega

theorem Window.copyOut (h : Window content f i) (want : Nat) :
    (Libc.copyOut f want).2 = (content.drop i.pos).take (min want (f.rlen - f.rpos)) ∧
      (Libc.copyOut f want).2.length = min want (f.rlen - f.rpos) ∧
      Window content (Libc.copyOut f want).1 (i.advance (Libc.copyOut f want).2) := by
  have hlen : ((f.rbuf.drop f.rpos).take want).length = min want (f.rlen - f.rpos) := by
    simp [File.rlen]
  refine ⟨?_, hlen, ?_⟩
  · simp only [Libc.copyOut]
    rw [h.unread, List.take_take]
  · exact h.advance (by omega) rfl

/-- A drained buffer at the end of the file: there is nothing more to take. -/
theorem take_at_end {l : List UInt8} {pos u want : Nat} (hend : l.length ≤ pos + u)
    (hle : u ≤ want) : (l.drop pos).take u = (l.drop pos).take want := by
  have hlen : (l.drop pos).length ≤ u := by
    rw [List.length_drop]
    omega
  rw [List.take_of_length_le hlen, List.take_of_length_le (Nat.le_trans hlen hle)]

theorem Window.copyOut_short (h : Window content f i) {want : Nat}
    (hshort : (Libc.copyOut f want).2.length ≠ want) :
    (Libc.copyOut f want).2.length = f.rlen - f.rpos ∧
      (Libc.copyOut f want).2.length < want ∧
      (Libc.copyOut f want).2 = (content.drop i.pos).take (f.rlen - f.rpos) ∧
      (Libc.copyOut f want).1.rpos = (Libc.copyOut f want).1.rlen ∧
      (i.advance (Libc.copyOut f want).2).pos = (Libc.copyOut f want).1.offset := by
  obtain ⟨hbytes, hlen, hwin⟩ := h.copyOut want
  have hmin : min want (f.rlen - f.rpos) = f.rlen - f.rpos := by omega
  have hpos : (Libc.copyOut f want).1.rpos = f.rpos + (Libc.copyOut f want).2.length := rfl
  have hrlen : (Libc.copyOut f want).1.rlen = f.rlen := rfl
  have hle := h.rpos_le
  have hdrained : (Libc.copyOut f want).1.rpos = (Libc.copyOut f want).1.rlen := by omega
  refine ⟨by omega, by omega, by rw [hbytes, hmin], hdrained, ?_⟩
  have := hwin.pos
  omega

/-- The loop of `fread` hands out the bytes from the position on. -/
theorem Window.freadLoop (h : Window content f i) (hsize : content.length < 2 ^ 31) (want : Nat) :
    (Libc.freadLoop content f want).2 = (content.drop i.pos).take want ∧
      Window content (Libc.freadLoop content f want).1
        (i.advance ((content.drop i.pos).take want)) ∧
      (0 < want → (Libc.freadLoop content f want).1.Settled) := by
  -- Every round but the last moves the offset towards the end of the file.
  induction hn : content.length - f.offset using Nat.strongRecOn
    generalizing f i want with
  | ind n ih =>
    obtain ⟨hbytes, hlen, hwin⟩ := h.copyOut want
    rw [Libc.freadLoop]
    by_cases hall : (Libc.copyOut f want).2.length = want
    · have hmin : min want (f.rlen - f.rpos) = want := hlen.symm.trans hall
      rw [hmin] at hbytes
      simp only [hall, if_true]
      refine ⟨hbytes, hbytes ▸ hwin, fun hpos => Or.inl ?_⟩
      have : (Libc.copyOut f want).1.rpos = f.rpos + (Libc.copyOut f want).2.length := rfl
      omega
    obtain ⟨hlen, hlt, hbytes, hdrained, hpos⟩ := h.copyOut_short hall
    have hend : content.length ≤ (i.advance (Libc.copyOut f want).2).pos →
        (Libc.copyOut f want).2 = (content.drop i.pos).take want := by
      intro hend
      rw [hbytes]
      apply take_at_end _ (by omega)
      simp only [Ideal.advance] at hend
      omega
    by_cases hstop : (Libc.copyOut f want).1.eof ∨ (Libc.copyOut f want).1.error
    · -- The end of the file was seen before.
      have heof := (hwin.eof (hstop.resolve_right (by simp [hwin.error]))).2
      have hsame := hend (by omega)
      simp only [hall, if_false, hstop, if_true]
      refine ⟨hsame, hsame ▸ hwin, fun _ => ?_⟩
      rw [File.Settled]
      omega
    by_cases hfill : (Libc.fill content (Libc.copyOut f want).1).2 = 0
    · have hsame := hend (end_of_fill hpos hfill)
      simp only [hall, if_false, hstop, hfill, if_true]
      refine ⟨hsame, hsame ▸ hwin.fill hsize hdrained, fun _ => Or.inr ?_⟩
      rw [(fill_rlen _ _).1, hfill]
    · have hless : content.length - (Libc.fill content (Libc.copyOut f want).1).1.offset < n := by
        rw [← hn]
        exact fill_offset hfill
      obtain ⟨hrest, hrestwin, hsettled⟩ := ih _ hless (hwin.fill hsize hdrained)
        (want - (Libc.copyOut f want).2.length) rfl
      have hsame : (Libc.copyOut f want).2 ++
          (content.drop (i.advance (Libc.copyOut f want).2).pos).take
            (want - (Libc.copyOut f want).2.length) = (content.drop i.pos).take want := by
        have hwant : want = (f.rlen - f.rpos) + (want - (f.rlen - f.rpos)) := by omega
        simp only [Ideal.advance, hlen]
        conv_rhs => rw [hwant, List.take_add, List.drop_drop]
        rw [hbytes]
      simp only [hall, if_false, hstop, hfill]
      rw [Ideal.advance_append, hsame] at hrestwin
      exact ⟨by rw [hrest, hsame], hrestwin, fun _ => hsettled (by omega)⟩

/-- `fread` of an item list that fits the memory. -/
theorem Refines.fread (h : Refines content f i) (hsize : content.length < 2 ^ 31)
    {size nmemb : UInt64} (hfits : size.toNat * nmemb.toNat < 2 ^ 64) :
    (Libc.fread content f size nmemb).2 = (idealStep content i (.fread size nmemb)).2 ∧
      Refines content (Libc.fread content f size nmemb).1
        (idealStep content i (.fread size nmemb)).1 := by
  by_cases hzero : size = 0 ∨ nmemb = 0
  · have hmul : size.toNat * nmemb.toNat = 0 := by
      rcases hzero with rfl | rfl <;> simp
    simpa [Libc.fread, hzero, idealStep, hmul] using h
  · have hpos : 0 < size.toNat * nmemb.toNat := by
      rw [not_or] at hzero
      apply Nat.mul_pos <;> apply Nat.pos_of_ne_zero
      · exact fun h0 => hzero.1 (UInt64.toNat_inj.mp h0)
      · exact fun h0 => hzero.2 (UInt64.toNat_inj.mp h0)
    obtain ⟨hbytes, hwin, hsettled⟩ :=
      h.toWindow.freadLoop hsize (size.toNat * nmemb.toNat % 2 ^ 64)
    rw [Nat.mod_eq_of_lt hfits] at hbytes hwin hsettled
    simp only [Libc.fread, if_neg hzero, idealStep, Nat.mod_eq_of_lt hfits, hbytes]
    exact ⟨trivial, hwin, fun _ => hsettled hpos⟩

/-- `fgetc`. -/
theorem Refines.fgetc (h : Refines content f i) (hsize : content.length < 2 ^ 31) :
    (Libc.fgetc content f).2 = (idealStep content i .fgetc).2 ∧
      Refines content (Libc.fgetc content f).1 (idealStep content i .fgetc).1 := by
  have hpos := h.pos
  have hle := h.rpos_le
  -- A byte that is there is handed out on both sides.
  have hbyte : ∀ {g : File}, Window content g i → g.rpos < g.rlen →
      (takeByte g).2 = (idealStep content i .fgetc).2 ∧
        Refines content (takeByte g).1 (idealStep content i .fgetc).1 := by
    intro g hg hlt
    obtain ⟨c, hc, hans, hnext⟩ := hg.takeByte hlt
    simpa [idealStep, hc] using ⟨hans, hnext⟩
  have hnone : content.length ≤ i.pos → idealStep content i .fgetc = (i, .value eofValue) := by
    intro hend
    simp [idealStep, List.getElem?_eq_none hend]
  rw [Libc.fgetc]
  by_cases hstop : f.error ∨ f.eof
  · have heof := h.eof (hstop.resolve_left (by simp [h.error]))
    rw [if_pos hstop, hnone (by omega)]
    exact ⟨rfl, h⟩
  rw [if_neg hstop]
  by_cases hdrained : f.rlen ≤ f.rpos
  · have hwin := h.toWindow.fill hsize (by omega)
    obtain ⟨hrlen, hrpos⟩ := fill_rlen content f
    by_cases hfill : (Libc.fill content f).2 = 0
    · have hend := end_of_fill (i := i) (by omega) hfill
      simp only [hdrained, if_true, hfill, hnone hend]
      exact ⟨trivial, hwin, fun _ => Or.inr (hrlen.trans hfill)⟩
    · simp only [hdrained, if_true, hfill, if_false]
      exact hbyte hwin (by omega)
  · rw [if_neg hdrained]
    exact hbyte h.toWindow (by omega)

/-- `ungetc` of the byte before the position. -/
theorem Refines.ungetc (h : Refines content f i) {c : UInt8} (hpushed : i.pushed = false)
    (hpos : 0 < i.pos) (hc : content[i.pos - 1]? = some c) :
    (Libc.ungetc f c).2 = (idealStep content i (.ungetc c)).2 ∧
      Refines content (Libc.ungetc f c).1 (idealStep content i (.ungetc c)).1 := by
  have hoff := h.pos
  have hle := h.rpos_le
  have hbehind := h.behind
  by_cases hrpos : 0 < f.rpos
  · -- The byte is in the buffer already.
    have hget : f.rbuf[f.rpos - 1]? = some c := by
      rw [h.bytes, List.getElem?_take, if_pos (by omega), List.getElem?_drop, ← hc]
      congr 1
      omega
    have hset : f.rbuf.set (f.rpos - 1) c = f.rbuf := by
      obtain ⟨hlt, heq⟩ := List.getElem?_eq_some_iff.mp hget
      rw [← heq, List.set_getElem_self]
    simp only [Libc.ungetc, if_pos hrpos, hset, idealStep]
    refine ⟨trivial, ⟨⟨h.error, ?_, ?_, h.behind, h.bytes, by simp, h.fits⟩, by simp⟩⟩
    · simp only [File.rlen] at hle ⊢
      omega
    · simp only [File.rlen] at hle hoff ⊢
      omega
  · have hrlen : f.rlen = 0 := (h.settled hpushed).resolve_left hrpos
    have hnil : f.rbuf = [] := List.length_eq_zero_iff.mp hrlen
    have hbyte : [c] = (content.drop (f.offset - 1)).take 1 := by
      have hpos' : i.pos - 1 = f.offset - 1 := by omega
      obtain ⟨hlt, heq⟩ := List.getElem?_eq_some_iff.mp (hpos' ▸ hc)
      rw [List.drop_eq_getElem_cons hlt, heq]
      rfl
    have hroom : f.rlen < fileBufSize := by simp [hrlen, fileBufSize]
    simp only [Libc.ungetc, if_neg hrpos, if_pos hroom, idealStep, hnil]
    refine ⟨trivial, ⟨⟨h.error, by simp only [File.rlen, List.length_singleton]; omega, ?_, ?_, hbyte, by simp,
      h.fits⟩, by simp⟩⟩
    · simp only [File.rlen, List.length_singleton]
      omega
    · simp only [File.rlen, List.length_singleton]
      omega

/-! ## The calls that move the offset -/

theorem toInt_of_lt {r : Int} (h0 : 0 ≤ r) (h : r < 2 ^ 31) : toInt r = r := by
  simp only [toInt, Int.bmod_def]
  omega

theorem refines_empty {pos : Nat} (hfits : pos < 2 ^ 31) :
    Refines content ⟨false, false, [], 0, pos⟩ ⟨pos, false⟩ where
  error := rfl
  rpos_le := Nat.le_refl _
  pos := rfl
  behind := Nat.zero_le _
  bytes := by simp [File.rlen]
  eof := by simp
  fits := hfits
  settled := fun _ => Or.inr rfl

/-- `fseek` to a position that exists, with `SEEK_CUR` only from an empty buffer. -/
theorem Refines.fseek (h : Refines content f i) {offset whence target : Int}
    (hcur : whence = 1 → f.rpos = f.rlen)
    (htarget : seekTarget content.length i.pos offset whence = some target)
    (h0 : 0 ≤ target) (hfits : target < 2 ^ 31) :
    (Libc.fseek content f offset whence).2 = (idealStep content i (.fseek offset whence)).2 ∧
      Refines content (Libc.fseek content f offset whence).1
        (idealStep content i (.fseek offset whence)).1 := by
  have hsame : seekTarget content.length f.offset offset whence = some target := by
    rw [← htarget]
    by_cases hw : whence = 1
    · have hpos : i.pos = f.offset := by
        have := h.pos
        omega
      rw [hpos]
    · simp [seekTarget, hw]
  have hneg : ¬ target < 0 := Int.not_lt.mpr h0
  have hseek : lseek content f.offset offset whence = (target, target.toNat) := by
    rw [lseek, hsame]
    exact if_neg hneg
  simp only [Libc.fseek, h.error, hseek, toInt_of_lt h0 hfits, hneg, idealStep, htarget,
    Bool.false_eq_true, if_false]
  exact ⟨trivial, refines_empty (by omega)⟩

/-- `ftell`. -/
theorem Refines.ftell (h : Refines content f i) :
    (Libc.ftell content f).2 = (idealStep content i .ftell).2 ∧
      Refines content (Libc.ftell content f).1 (idealStep content i .ftell).1 := by
  have hpos := h.pos
  have hle := h.rpos_le
  have hfits := h.fits
  have hnat : ¬ (f.offset : Int) < 0 := by omega
  have hseek : (lseek content f.offset 0 1).1 = f.offset := by
    simp [lseek, seekTarget, hnat]
  have hint : toInt (f.offset : Int) = f.offset := toInt_of_lt (by omega) (by omega)
  simp only [Libc.ftell, h.error, hseek, hint, hnat, idealStep, Bool.false_eq_true, if_false]
  refine ⟨congrArg FileAnswer.value ?_, h⟩
  omega

/-- `rewind`, from any state. -/
theorem refines_rewind (content : List UInt8) (f : File) (i : Ideal) :
    (Libc.rewind content f).2 = (idealStep content i .rewind).2 ∧
      Refines content (Libc.rewind content f).1 (idealStep content i .rewind).1 := by
  have hseek : lseek content f.offset 0 0 = (0, 0) := by
    simp [lseek, seekTarget]
  have hint : ¬ toInt 0 < 0 := by decide
  simp only [Libc.rewind, Libc.fseek, hseek, hint, idealStep, Bool.false_eq_true, if_false]
  exact ⟨trivial, refines_empty (by decide)⟩

end Window

/-! ## Whole runs -/

/-- The calls the comparison is about: an `fread` has a buffer for its items,
`ungetc` puts back the byte before the position, once, and no position reaches
`2 ^ 31`. -/
def FileOp.Legal (content : List UInt8) (i : Ideal) : FileOp → Prop
  | .fread size nmemb => size.toNat * nmemb.toNat < 2 ^ 64
  | .ungetc c => i.pushed = false ∧ 0 < i.pos ∧ content[i.pos - 1]? = some c
  | .fseek offset whence =>
      ∀ target, seekTarget content.length i.pos offset whence = some target → target < 2 ^ 31
  | _ => True

/-- A call that no unread byte and no failure stands in the way of: `SEEK_CUR`
comes with an empty buffer, and `fseek` goes to a position of the file. -/
def FileOp.Clear (content : List UInt8) (f : File) (i : Ideal) : FileOp → Prop
  | .fseek offset whence =>
      (whence = 1 → f.rpos = f.rlen) ∧
        ∃ target, seekTarget content.length i.pos offset whence = some target ∧ 0 ≤ target
  | _ => True

/-- **One call.**  A clear call gives the ideal answer and keeps the relation. -/
theorem refines_step {content : List UInt8} {f : File} {i : Ideal}
    (h : Refines content f i) (hsize : content.length < 2 ^ 31) {op : FileOp}
    (hlegal : op.Legal content i) (hclear : op.Clear content f i) :
    (fileStep content f op).2 = (idealStep content i op).2 ∧
      Refines content (fileStep content f op).1 (idealStep content i op).1 := by
  cases op with
  | fread size nmemb => exact h.fread hsize hlegal
  | fgetc => exact h.fgetc hsize
  | ungetc c =>
    obtain ⟨hpushed, hpos, hc⟩ := hlegal
    exact h.ungetc hpushed hpos hc
  | fseek offset whence =>
    obtain ⟨hcur, target, htarget, h0⟩ := hclear
    exact h.fseek hcur htarget h0 (hlegal target htarget)
  | ftell => exact h.ftell
  | rewind => exact refines_rewind content f i

/-- A program reading the file through a `FILE`, next to the same program on the
ideal file; each step puts out the two answers. -/
def readers (content : List UInt8) : Machine (File × Ideal) FileOp (FileAnswer × FileAnswer) where
  start s := s = (File.opened, ⟨0, false⟩)
  step s op :=
    let real := fileStep content s.1 op
    let ideal := idealStep content s.2 op
    ((real.1, ideal.1), [(real.2, ideal.2)])

/-- The calls of a run: legal and clear. -/
def ReadGuard (content : List UInt8) (s : File × Ideal) (op : FileOp) : Prop :=
  op.Legal content s.2 ∧ op.Clear content s.1 s.2

theorem refines_of_reachable {content : List UInt8} (hsize : content.length < 2 ^ 31)
    {s : File × Ideal} (h : (readers content).Reachable (ReadGuard content) s) :
    Refines content s.1 s.2 := by
  apply h.invariant (P := fun s => Refines content s.1 s.2)
  · intro s hs
    rw [show s = (File.opened, ⟨0, false⟩) from hs]
    exact refines_empty (by decide)
  · intro s op hs hg
    exact (refines_step hs hsize hg.1 hg.2).2

/-- **Buffered reading.**  In every run of clear calls every call returns what
it returns on the ideal file. -/
theorem answers_agree (content : List UInt8) (hsize : content.length < 2 ^ 31)
    (s : File × Ideal) (h : (readers content).Reachable (ReadGuard content) s) (op : FileOp)
    (hop : ReadGuard content s op) :
    (fileStep content s.1 op).2 = (idealStep content s.2 op).2 :=
  (refines_step (refines_of_reachable hsize h) hsize hop.1 hop.2).1

/-- A byte read after a rewind. -/
theorem answers_agree_after_rewind :
    (readers [7, 8, 9]).Reachable (ReadGuard [7, 8, 9])
        (((readers [7, 8, 9]).step (File.opened, ⟨0, false⟩) .rewind).1) ∧
      (fileStep [7, 8, 9] ((readers [7, 8, 9]).step (File.opened, ⟨0, false⟩) .rewind).1.1
        .fgetc).2 = .value 7 := by
  have hreach : (readers [7, 8, 9]).Reachable (ReadGuard [7, 8, 9])
      (((readers [7, 8, 9]).step (File.opened, ⟨0, false⟩) .rewind).1) :=
    .step FileOp.rewind (.start rfl) ⟨trivial, trivial⟩
  refine ⟨hreach, ?_⟩
  rw [answers_agree [7, 8, 9] (by decide) _ hreach .fgetc ⟨trivial, trivial⟩]
  decide

/-- `fgetc`, `fseek(f, 0, SEEK_CUR)`, `fgetc` on a file of three bytes: the
second byte is lost and the last call reports the end of the file. -/
theorem seek_cur_skips_buffer :
    FileOp.Legal [7, 8, 9] ⟨1, false⟩ (.fseek 0 1) ∧
      (fileStep [7, 8, 9] File.opened .fgetc).2 = .value 7 ∧
      (idealStep [7, 8, 9] ⟨0, false⟩ .fgetc) = (⟨1, false⟩, .value 7) ∧
      (fileStep [7, 8, 9] (fileStep [7, 8, 9] File.opened .fgetc).1 (.fseek 0 1)).2 = .value 0 ∧
      (idealStep [7, 8, 9] ⟨1, false⟩ (.fseek 0 1)) = (⟨1, false⟩, .value 0) ∧
      (fileStep [7, 8, 9] (fileStep [7, 8, 9] (fileStep [7, 8, 9] File.opened .fgetc).1
        (.fseek 0 1)).1 .fgetc).2 = .value eofValue ∧
      (idealStep [7, 8, 9] ⟨1, false⟩ .fgetc).2 = .value 8 := by
  refine ⟨?_, by decide⟩
  intro target htarget
  have hone : target = 1 := (Option.some.inj htarget).symm
  rw [hone]
  decide

end Libc
