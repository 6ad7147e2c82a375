import StrawOS.Libc.Stdio

/-!
# Writing through a `FILE`

The bytes that a program gives to a stream wait in `wbuf`, and `_flush` hands them to the
kernel, which may take a part of what it is offered or fail.  The log keeps every call of
`write`: what was offered, from which position of the stream on, and the result.

A flush that fails leaves the buffer as it was, and the next one offers the bytes that the
kernel has taken once more.  And `fputc` on a buffer that a failed flush has left full, once
`clearerr` has cleared the error, stores a byte behind the buffer.
-/

namespace Libc

/-- `_IOFBF`, `_IOLBF` and `_IONBF`. -/
inductive BufMode
  | full
  | line
  | unbuffered
  deriving DecidableEq, Repr

/-- A call of `write`: the position in the stream of the first byte that is offered, the
bytes, and the result. -/
structure WriteCall where
  start : Nat
  bytes : List UInt8
  result : Int
  deriving DecidableEq, Repr

/-- What `write` took. -/
def WriteCall.accepted (w : WriteCall) : List UInt8 := w.bytes.take w.result.toNat

/-- The positions in the stream of what `write` took. -/
def WriteCall.positions (w : WriteCall) : List Nat := List.range' w.start w.accepted.length

/-- It took some of the bytes and not all of them. -/
def WriteCall.Short (w : WriteCall) : Prop := 0 < w.result ∧ w.result < w.bytes.length

/-- What lies under `write`: the result of each call for the number of bytes offered. -/
structure Kernel where
  answer : Nat → Nat → Int
  fits : ∀ i n, answer i n ≤ n

/-- The write side of a `FILE`.  `wbuf` holds the first `wlen` bytes of the buffer; `overrun`
says that a byte was stored behind its end, after which C does not say what the stream does.
`taken` are the bytes that were stored into the buffer so far, and `log` the calls of `write`. -/
structure Writer where
  error : Bool
  eof : Bool
  bufmode : BufMode
  wbuf : List UInt8
  overrun : Bool
  taken : List UInt8
  log : List WriteCall
  deriving DecidableEq, Repr

namespace Writer

/-- `f->wlen`. -/
def wlen (f : Writer) : Nat := f.wbuf.length

/-- The bytes that the kernel took, in order. -/
def sent (f : Writer) : List UInt8 := f.log.flatMap WriteCall.accepted

/-- The positions in the stream of these bytes. -/
def sentAt (f : Writer) : List Nat := f.log.flatMap WriteCall.positions

/-- A stream as `fopen` makes it. -/
def opened (mode : BufMode) : Writer := ⟨false, false, mode, [], false, [], []⟩

/-- `f->wbuf[f->wlen++] = c`. -/
def store (f : Writer) (c : UInt8) : Writer :=
  if f.wlen < fileBufSize then { f with wbuf := f.wbuf ++ [c], taken := f.taken ++ [c] }
  else { f with overrun := true }

/-- A call of `write` for the bytes behind the first `written` of the buffer. -/
def call (f : Writer) (written : Nat) (n : Int) : Writer :=
  { f with log := f.log ++ [⟨f.taken.length - f.wlen + written, f.wbuf.drop written, n⟩] }

end Writer

variable (k : Kernel)

/-- The loop of `_flush`. -/
def flushLoop (f : Writer) (written : Nat) : Writer × Int :=
  if written < f.wlen then
    let n := k.answer f.log.length (f.wlen - written)
    if n ≤ 0 then ({ f.call written n with error := true }, eofValue)
    else flushLoop (f.call written n) (written + n.toNat)
  else ({ f with wbuf := [] }, 0)
termination_by f.wlen - written
decreasing_by
  change f.wlen - (written + Int.toNat _) < f.wlen - written
  omega

def flush (f : Writer) : Writer × Int :=
  if f.wlen = 0 then (f, 0) else flushLoop k f 0

/-- `fputc` of a byte. -/
def fputc (f : Writer) (c : UInt8) : Writer × Int :=
  if f.error then (f, eofValue)
  else
    let f := f.store c
    if f.wlen = fileBufSize ∨ f.bufmode = .unbuffered ∨ (f.bufmode = .line ∧ c = 10) then
      let r := flush k f
      if r.2 = eofValue then (r.1, eofValue) else (r.1, c.toNat)
    else (f, c.toNat)

def fputs (f : Writer) : List UInt8 → Writer × Int
  | [] => (f, 0)
  | c :: s =>
      let r := fputc k f c
      if r.2 = eofValue then (r.1, eofValue) else fputs r.1 s

/-- The loops of `fwrite`, a byte at a time, with the bytes that are left: a byte goes to the
buffer while there is room, and a buffer that is full is flushed when the bytes end or the next
one is to be stored. -/
def fwriteLoop (f : Writer) : List UInt8 → Writer × List UInt8
  | [] => if f.wlen = fileBufSize then ((flush k f).1, []) else (f, [])
  | c :: src =>
      if f.wlen < fileBufSize then fwriteLoop (f.store c) src
      else
        let r := flush k f
        if r.2 = eofValue then (r.1, c :: src) else fwriteLoop (r.1.store c) src

/-- `fwrite` of items at the start of `memory`. -/
def fwrite (f : Writer) (size nmemb : UInt64) (memory : List UInt8) : Writer × Int :=
  if size = 0 ∨ nmemb = 0 then (f, 0)
  else
    let src := memory.take (size.toNat * nmemb.toNat % 2 ^ 64)
    let r := if src = [] then (f, []) else fwriteLoop k f src
    let written := src.length - r.2.length
    let newline := 10 ∈ src.take written
    let f := if r.1.bufmode = .unbuffered ∨ (r.1.bufmode = .line ∧ newline) then (flush k r.1).1
      else r.1
    (f, written / size.toNat)

/-- The calls of a program that writes. -/
inductive WriteOp
  | fwrite (size nmemb : UInt64) (memory : List UInt8)
  | fputc (c : UInt8)
  | fputs (s : List UInt8)
  | fflush
  | clearerr
  deriving DecidableEq, Repr

/-- A call and its result. -/
def writeStep (f : Writer) : WriteOp → Writer × Int
  | .fwrite size nmemb memory => fwrite k f size nmemb memory
  | .fputc c => fputc k f c
  | .fputs s => fputs k f s
  | .fflush => flush k f
  | .clearerr => ({ f with eof := false, error := false }, 0)

/-! ## What a flush does to the stream -/

/-- The kernel took the beginning of what the program gave, no byte of it twice, and no byte
was stored behind the buffer. -/
structure Writer.Sound (f : Writer) : Prop where
  inside : f.overrun = false ∧ f.wlen ≤ fileBufSize
  order : f.sent <+: f.taken
  once : f.sentAt.Nodup

/-- No call of `write` fails right after one that took a part of what it was offered. -/
def Steady (log : List WriteCall) : Prop := log.IsChain fun a b => a.Short → 0 < b.result

/-- Between two calls of `write`: the first `written` bytes of the buffer are out, and nothing
of them is out twice. -/
structure Writer.Mid (f : Writer) (written : Nat) : Prop where
  room : f.wlen ≤ fileBufSize
  inside : f.overrun = false
  le : written ≤ f.wlen
  split : ∃ front, f.taken = front ++ f.wbuf ∧ f.sent = front ++ f.wbuf.take written
  sentAt : f.sentAt = List.range f.sent.length
  short : 0 < written → written < f.wlen → ∃ log w, f.log = log ++ [w] ∧ w.Short

/-- Between two calls of the program. -/
abbrev Writer.Good (f : Writer) : Prop := f.Mid 0

variable {k} {f : Writer} {written : Nat}

namespace Writer

theorem sent_call (n : Int) :
    (f.call written n).sent = f.sent ++ (f.wbuf.drop written).take n.toNat := by
  simp [sent, call, WriteCall.accepted]

theorem sentAt_call (n : Int) :
    (f.call written n).sentAt = f.sentAt ++ List.range' (f.taken.length - f.wlen + written)
      ((f.wbuf.drop written).take n.toNat).length := by
  simp [sentAt, call, WriteCall.positions, WriteCall.accepted]

/-- The bytes that are out are those in front of the rest of the buffer. -/
theorem Mid.length_sent (h : f.Mid written) :
    f.sent.length = f.taken.length - f.wlen + written := by
  obtain ⟨front, htaken, hsent⟩ := h.split
  have hle := h.le
  rw [htaken, hsent, List.length_append, List.length_append, List.length_take]
  simp only [wlen] at hle ⊢
  omega

theorem Mid.sound (h : f.Mid written) : f.Sound where
  inside := ⟨h.inside, h.room⟩
  order := by
    obtain ⟨front, htaken, hsent⟩ := h.split
    rw [htaken, hsent]
    exact (List.prefix_append_right_inj front).mpr (List.take_prefix written f.wbuf)
  once := by
    rw [h.sentAt]
    exact List.nodup_range

/-- **One `write`** that takes something. -/
theorem Mid.call (h : f.Mid written) {n : Int} (hpos : 0 < n)
    (hfits : n ≤ (f.wlen - written : Nat)) : (f.call written n).Mid (written + n.toNat) := by
  have hle := h.le
  obtain ⟨front, htaken, hsent⟩ := h.split
  have hlen : ((f.wbuf.drop written).take n.toNat).length = n.toNat := by
    rw [List.length_take, List.length_drop]
    simp only [wlen] at hfits hle
    omega
  refine ⟨h.room, h.inside, ?_, ⟨front, htaken, ?_⟩, ?_, ?_⟩
  · change written + n.toNat ≤ f.wlen
    omega
  · rw [sent_call, hsent, List.append_assoc]
    change front ++ (f.wbuf.take written ++ (f.wbuf.drop written).take n.toNat) =
      front ++ f.wbuf.take (written + n.toNat)
    rw [List.take_add]
  · rw [sentAt_call, sent_call, hlen, h.sentAt, List.length_append, hlen, ← h.length_sent,
      List.range_eq_range', List.range_eq_range']
    have hjoin := @List.range'_append_1 0 f.sent.length n.toNat
    rwa [Nat.zero_add] at hjoin
  · intro _ hmore
    refine ⟨f.log, _, rfl, hpos, ?_⟩
    change written + n.toNat < f.wlen at hmore
    simp only [wlen] at hmore
    simp only [List.length_drop]
    omega

/-- A `write` that takes nothing. -/
theorem Mid.failed (h : f.Good) {n : Int} (hn : n ≤ 0) :
    ({ f.call 0 n with error := true } : Writer).Good := by
  have hzero : n.toNat = 0 := by omega
  have hsent : ({ f.call 0 n with error := true } : Writer).sent = f.sent := by
    change (f.call 0 n).sent = f.sent
    rw [sent_call, hzero, List.take_zero, List.append_nil]
  refine ⟨h.room, h.inside, Nat.zero_le _, ?_, ?_, fun hpos => absurd hpos (Nat.lt_irrefl 0)⟩
  · rw [hsent]
    exact h.split
  · rw [hsent, ← h.sentAt]
    change (f.call 0 n).sentAt = f.sentAt
    rw [sentAt_call, hzero, List.take_zero, List.length_nil, List.range'_zero, List.append_nil]

end Writer

theorem Writer.Mid.store (h : f.Good) (hroom : f.wlen < fileBufSize) (c : UInt8) :
    (f.store c).Good ∧ (f.store c).wlen = f.wlen + 1 := by
  obtain ⟨front, htaken, hsent⟩ := h.split
  rw [Writer.store, if_pos hroom]
  have hlen : (f.wbuf ++ [c]).length = f.wlen + 1 := List.length_append
  refine ⟨⟨?_, h.inside, Nat.zero_le _, ⟨front, ?_, ?_⟩, h.sentAt,
    fun hpos => absurd hpos (Nat.lt_irrefl 0)⟩, hlen⟩
  · exact hlen.trans_le hroom
  · rw [htaken, List.append_assoc]
  · exact hsent

/-- There is room for a byte, or an error that keeps bytes out. -/
def Writer.Room (f : Writer) : Prop := f.error = true ∨ f.wlen < fileBufSize

/-- A program that writes to a stream. -/
def writers (k : Kernel) : Machine Writer WriteOp Int where
  start f := ∃ mode, f = Writer.opened mode
  step f op := ((writeStep k f op).1, [(writeStep k f op).2])

/-- `fputc` and `fputs` do not store a byte into a buffer that is full. -/
def WriteOp.Clear (f : Writer) : WriteOp → Prop
  | .fputc _ => f.Room
  | .fputs s => s = [] ∨ f.Room
  | _ => True

end Libc
