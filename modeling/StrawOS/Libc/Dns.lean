import StrawOS.Lib.Endian
import Mathlib.Data.List.TakeWhile

/-!
# Questions to a name server, and its replies

`dns_build_query` writes a host as labels, each behind its length; `dns_parse` skips the
questions of a reply and looks for the first answer with an address.  A name ends in a zero or in
a pointer of two bytes to the rest of it, which `dns_skip_name` does not follow.

A read from outside of the reply is no result.  `Message` is a reply by its parts, and `encode`
its bytes; what `dns_parse` finds in these bytes is said in terms of the parts (`dns_codec`).
-/

namespace Libc.Dns

open Endian

/-- Bytes of a message. -/
abbrev Bytes := List UInt8

/-! ## The source -/

/-- `w` bytes at `pos` in network order, if all of them are in the buffer. -/
def readBe (buf : Bytes) (pos w : Nat) : Option Nat :=
  if pos + w ≤ buf.length then some (loadBe ((buf.drop pos).take w)) else none

def dnsSkipName (buf : Bytes) (pos : Nat) : Option Nat :=
  if pos < buf.length then
    match buf[pos]? with
    | none => none
    | some l =>
        if l = 0 then some (pos + 1)
        else if l &&& 0xC0 = 0xC0 then some (pos + 2)
        else dnsSkipName buf (pos + (l.toNat + 1))
  else some (buf.length + 1)
termination_by buf.length - pos

/-- The loop over the questions. -/
def skipQuestions (buf : Bytes) : Nat → Nat → Option Nat
  | 0, pos => some pos
  | n + 1, pos =>
    match dnsSkipName buf pos with
    | none => none
    | some pos => skipQuestions buf n (pos + 4)

/-- What `dns_parse` returns, with the four bytes of `ip` and `ttl` where it stores them. -/
abbrev Parsed := Int × Option (Bytes × Nat)

/-- The loop over the answers. -/
def findAnswer (buf : Bytes) : Nat → Nat → Option Parsed
  | 0, _ => some (-1, none)
  | n + 1, pos =>
    if pos < buf.length then
      match dnsSkipName buf pos with
      | none => none
      | some pos =>
        if buf.length < pos + 10 then some (-1, none)
        else
          match readBe buf pos 2, readBe buf (pos + 4) 4, readBe buf (pos + 8) 2 with
          | some type, some t, some rdlen =>
            if type = 1 ∧ rdlen = 4 ∧ pos + 10 + 4 ≤ buf.length then
              some (0, some ((buf.drop (pos + 10)).take 4, t))
            else findAnswer buf n (pos + 10 + rdlen)
          | _, _, _ => none
    else some (-1, none)

def dnsParse (buf : Bytes) (id : UInt16) : Option Parsed :=
  if buf.length < 12 then some (1, none)
  else
    match readBe buf 0 2, buf[2]?, buf[3]?, readBe buf 4 2, readBe buf 6 2 with
    | some reply, some b2, some b3, some qd, some an =>
      if reply ≠ id.toNat ∨ b2 &&& 0x80 = 0 then some (1, none)
      else if b3 &&& 0x0F ≠ 0 then some (-1, none)
      else
        match skipQuestions buf qd 12 with
        | none => none
        | some pos => findAnswer buf an pos
    | _, _, _, _, _ => none

/-- The loop of `dns_build_query` over the labels, behind what is in the buffer already. -/
def buildLabels (out label : Bytes) : Option Bytes :=
  if label = [] then some out
  else
    let front := label.takeWhile (· != 46)
    if front.length = 0 ∨ 63 < front.length ∨ 512 < out.length + front.length + 6 then none
    else
      buildLabels (out ++ .ofNat front.length :: front) ((label.drop front.length).drop 1)
termination_by label.length
decreasing_by
  have := List.length_pos_of_ne_nil ‹¬label = []›
  simp only [List.length_drop]
  omega

/-- The first twelve bytes of a query. -/
def queryHeader (id : UInt16) : Bytes := storeBe 2 id.toNat ++ [1, 0, 0, 1, 0, 0, 0, 0, 0, 0]

/-- `dns_build_query`: the bytes of the query; `none` where it returns zero. -/
def dnsBuildQuery (id : UInt16) (host : Bytes) : Option Bytes :=
  (buildLabels (queryHeader id) host).map (· ++ [0, 0, 1, 0, 1])

/-! ## Messages -/

/-- A label of a name. -/
structure Label where
  bytes : Bytes
  pos : 0 < bytes.length
  le : bytes.length ≤ 63

/-- A name: its labels, and where the rest of it is, if it is in another place of the message. -/
structure Name where
  labels : List Label
  pointer : Option (Fin 16384)

/-- A question. -/
structure Question where
  name : Name
  type : UInt16
  qclass : UInt16

/-- An answer. -/
structure Answer where
  name : Name
  type : UInt16
  rclass : UInt16
  ttl : UInt32
  data : Bytes
  short : data.length < 65536

/-- A reply: the bytes with the flags, the parts that `dns_parse` reads and those that it
does not. -/
structure Message where
  id : UInt16
  flags : UInt8
  code : UInt8
  questions : List Question
  answers : List Answer
  others : UInt32
  rest : Bytes
  reply : flags &&& 0x80 ≠ 0
  fewQuestions : questions.length < 65536
  fewAnswers : answers.length < 65536

/-- A label behind its length. -/
def encodeLabel (label : Bytes) : Bytes := .ofNat label.length :: label

/-- What a name ends in. -/
def encodeEnd : Option (Fin 16384) → Bytes
  | none => [0]
  | some offset => storeBe 2 (49152 + offset)

def Name.encode (name : Name) : Bytes :=
  (name.labels.map fun label => encodeLabel label.bytes).flatten ++ encodeEnd name.pointer

def Question.encode (q : Question) : Bytes :=
  q.name.encode ++ (storeBe 2 q.type.toNat ++ storeBe 2 q.qclass.toNat)

/-- What is behind the name of an answer. -/
def Answer.body (a : Answer) : Bytes :=
  storeBe 2 a.type.toNat ++ (storeBe 2 a.rclass.toNat ++ (storeBe 4 a.ttl.toNat ++
    (storeBe 2 a.data.length ++ a.data)))

def Answer.encode (a : Answer) : Bytes := a.name.encode ++ a.body

/-- The first twelve bytes. -/
def Message.header (m : Message) : Bytes :=
  storeBe 2 m.id.toNat ++ ([m.flags, m.code] ++ (storeBe 2 m.questions.length ++
    (storeBe 2 m.answers.length ++ storeBe 4 m.others.toNat)))

def Message.encode (m : Message) : Bytes :=
  m.header ++ ((m.questions.map Question.encode).flatten ++
    ((m.answers.map Answer.encode).flatten ++ m.rest))

/-- An answer with an address. -/
def Answer.IsAddress (a : Answer) : Prop := a.type = 1 ∧ a.data.length = 4

instance : DecidablePred Answer.IsAddress := fun _ => instDecidableAnd

/-- What the answers say. -/
def answerOf (answers : List Answer) : Parsed :=
  match answers.find? fun a => decide a.IsAddress with
  | some a => (0, some (a.data, a.ttl.toNat))
  | none => (-1, none)

/-- The labels of a host: what is between its points, less the empty one behind a point at its
end. -/
def hostLabels (host : Bytes) : List Bytes :=
  let parts := host.splitOn 46
  if parts.getLast? = some [] then parts.dropLast else parts

/-- The query for some labels. -/
def encodeQuery (id : UInt16) (labels : List Bytes) : Bytes :=
  queryHeader id ++ ((labels.map encodeLabel).flatten ++ [0, 0, 1, 0, 1])

/-! ## Reads are inside -/

theorem readBe_isSome {buf : Bytes} {pos w : Nat} (h : pos + w ≤ buf.length) :
    readBe buf pos w = some (loadBe ((buf.drop pos).take w)) := if_pos h

/-- **A name** is skipped inside the buffer. -/
theorem dnsSkipName_isSome (buf : Bytes) (pos : Nat) : ∃ pos', dnsSkipName buf pos = some pos' := by
  fun_induction dnsSkipName buf pos with
  | case1 pos h hread => simp [h] at hread
  | case2 => exact ⟨_, rfl⟩
  | case3 => exact ⟨_, rfl⟩
  | case4 pos h l hread hzero hpointer ih => exact ih
  | case5 => exact ⟨_, rfl⟩

theorem skipQuestions_isSome (buf : Bytes) (n pos : Nat) :
    ∃ pos', skipQuestions buf n pos = some pos' := by
  induction n generalizing pos with
  | zero => exact ⟨pos, rfl⟩
  | succ n ih =>
    obtain ⟨pos', hskip⟩ := dnsSkipName_isSome buf pos
    simp only [skipQuestions, hskip]
    exact ih (pos' + 4)

theorem findAnswer_isSome (buf : Bytes) (n pos : Nat) : ∃ r, findAnswer buf n pos = some r := by
  induction n generalizing pos with
  | zero => exact ⟨_, rfl⟩
  | succ n ih =>
    obtain ⟨pos', hskip⟩ := dnsSkipName_isSome buf pos
    simp only [findAnswer, hskip]
    split_ifs with hpos hshort
    · exact ⟨_, rfl⟩
    · rw [readBe_isSome (by omega), readBe_isSome (by omega), readBe_isSome (by omega)]
      simp only
      split_ifs
      · exact ⟨_, rfl⟩
      · exact ih _
    · exact ⟨_, rfl⟩

/-- **A reply** is read inside its buffer. -/
theorem dnsParse_isSome (buf : Bytes) (id : UInt16) : ∃ r, dnsParse buf id = some r := by
  unfold dnsParse
  by_cases hshort : buf.length < 12
  · rw [if_pos hshort]
    exact ⟨_, rfl⟩
  · obtain ⟨b2, h2⟩ : ∃ b, buf[2]? = some b := ⟨_, List.getElem?_eq_getElem (by omega)⟩
    obtain ⟨b3, h3⟩ : ∃ b, buf[3]? = some b := ⟨_, List.getElem?_eq_getElem (by omega)⟩
    rw [if_neg hshort, readBe_isSome (by omega), h2, h3, readBe_isSome (by omega),
      readBe_isSome (by omega)]
    simp only
    obtain ⟨pos, hskip⟩ := skipQuestions_isSome buf (loadBe ((buf.drop 4).take 2)) 12
    rw [hskip]
    split_ifs
    · exact ⟨_, rfl⟩
    · exact ⟨_, rfl⟩
    · exact findAnswer_isSome buf _ pos

/-! ## The parts of a message -/

theorem readBe_at {buf front back : Bytes} {w n pos : Nat}
    (hbuf : buf = front ++ (storeBe w n ++ back)) (hpos : pos = front.length) (hn : n < 256 ^ w) :
    readBe buf pos w = some n := by
  subst hbuf hpos
  rw [readBe_isSome (by simp), List.drop_left,
    List.take_left' (length_storeBe w n), loadBe_storeBe hn]

theorem label_length {n : Nat} (hpos : 0 < n) (hle : n ≤ 63) :
    UInt8.ofNat n ≠ 0 ∧ UInt8.ofNat n &&& 0xC0 ≠ 0xC0 ∧ (UInt8.ofNat n).toNat = n := by
  have hall : ∀ k : Fin 64, 0 < k.val → UInt8.ofNat k ≠ 0 ∧ UInt8.ofNat k &&& 0xC0 ≠ 0xC0 ∧
      (UInt8.ofNat k).toNat = k := by decide
  exact hall ⟨n, by omega⟩ hpos

theorem pointer_byte (offset : Fin 16384) :
    byteAt (49152 + offset) 1 &&& 0xC0 = 0xC0 ∧ byteAt (49152 + offset) 1 ≠ 0 := by
  have hall : ∀ k : Fin 64, UInt8.ofNat (192 + k) &&& 0xC0 = 0xC0 ∧ UInt8.ofNat (192 + k) ≠ 0 := by
    decide
  have hbyte : (49152 + offset.val) / 256 ^ 1 = 192 + offset.val / 256 := by omega
  rw [byteAt, hbyte]
  exact hall ⟨offset / 256, by omega⟩

theorem skip_end (front back : Bytes) (pointer : Option (Fin 16384)) :
    dnsSkipName (front ++ (encodeEnd pointer ++ back)) front.length =
      some (front.length + (encodeEnd pointer).length) := by
  cases pointer with
  | none =>
    rw [dnsSkipName, if_pos (by simp [encodeEnd])]
    simp [encodeEnd]
  | some offset =>
    have hstore : storeBe 2 (49152 + offset.val) =
        [byteAt (49152 + offset) 1, byteAt (49152 + offset) 0] := rfl
    have hhi := pointer_byte offset
    rw [dnsSkipName, if_pos (by simp [encodeEnd, hstore])]
    simp [encodeEnd, hstore, hhi]

/-- **A name** is skipped as a whole. -/
theorem skip_name (front back : Bytes) (name : Name) :
    dnsSkipName (front ++ (name.encode ++ back)) front.length =
      some (front.length + name.encode.length) := by
  obtain ⟨labels, pointer⟩ := name
  induction labels generalizing front with
  | nil => exact skip_end front back pointer
  | cons label labels ih =>
    obtain ⟨hzero, hpointer, htoNat⟩ := label_length label.pos label.le
    have hrest := ih (front ++ encodeLabel label.bytes)
    have hsplit : front ++ (Name.encode ⟨label :: labels, pointer⟩ ++ back) =
        front ++ encodeLabel label.bytes ++ (Name.encode ⟨labels, pointer⟩ ++ back) := by
      simp [Name.encode]
    have hlen : (front ++ encodeLabel label.bytes).length =
        front.length + (label.bytes.length + 1) := by
      simp [encodeLabel]
    have hread : (front ++ encodeLabel label.bytes ++ (Name.encode ⟨labels, pointer⟩ ++ back))[front.length]? =
        some (.ofNat label.bytes.length) := by
      simp [encodeLabel]
    have hwhole : (Name.encode ⟨label :: labels, pointer⟩).length =
        label.bytes.length + 1 + (Name.encode ⟨labels, pointer⟩).length := by
      simp [Name.encode, encodeLabel]
      omega
    rw [hlen] at hrest
    rw [hsplit, dnsSkipName, if_pos (by simp [encodeLabel]), hread]
    simp only [if_neg hzero, if_neg hpointer, htoNat, hrest, hwhole]
    congr 1
    omega

theorem skip_questions (front back : Bytes) (qs : List Question) :
    skipQuestions (front ++ ((qs.map Question.encode).flatten ++ back)) qs.length front.length =
      some (front.length + ((qs.map Question.encode).flatten).length) := by
  induction qs generalizing front with
  | nil => rfl
  | cons q qs ih =>
    have hsplit : front ++ (((q :: qs).map Question.encode).flatten ++ back) =
        front ++ (q.name.encode ++ (storeBe 2 q.type.toNat ++ (storeBe 2 q.qclass.toNat ++
          ((qs.map Question.encode).flatten ++ back)))) := by
      simp [Question.encode]
    have hnext : front ++ (((q :: qs).map Question.encode).flatten ++ back) =
        front ++ q.encode ++ ((qs.map Question.encode).flatten ++ back) := by
      simp
    have hlen : (front ++ q.encode).length = front.length + q.name.encode.length + 4 := by
      simp [Question.encode]
      omega
    have hrest := ih (front ++ q.encode)
    rw [← hnext, hlen] at hrest
    rw [List.length_cons, skipQuestions, hsplit, skip_name, ← hsplit]
    have hwhole : (((q :: qs).map Question.encode).flatten).length =
        q.name.encode.length + 4 + ((qs.map Question.encode).flatten).length := by
      simp [Question.encode]
      omega
    simp only [hrest, hwhole]
    congr 1
    omega

/-- What is behind the name of an answer, as `dns_parse` reads it. -/
theorem read_body {buf front tail : Bytes} {a : Answer} (hbuf : buf = front ++ (a.body ++ tail)) :
    readBe buf front.length 2 = some a.type.toNat ∧
      readBe buf (front.length + 4) 4 = some a.ttl.toNat ∧
      readBe buf (front.length + 8) 2 = some a.data.length ∧
      (buf.drop (front.length + 10)).take a.data.length = a.data := by
  have hbytes : buf = front ++ (storeBe 2 a.type.toNat ++ (storeBe 2 a.rclass.toNat ++
      (storeBe 4 a.ttl.toNat ++ (storeBe 2 a.data.length ++ (a.data ++ tail))))) := by
    rw [hbuf, Answer.body]
    simp only [List.append_assoc]
  refine ⟨readBe_at hbytes rfl a.type.toNat_lt, ?_, ?_, ?_⟩
  · have hfront : buf = (front ++ (storeBe 2 a.type.toNat ++ storeBe 2 a.rclass.toNat)) ++
        (storeBe 4 a.ttl.toNat ++ (storeBe 2 a.data.length ++ (a.data ++ tail))) := by
      rw [hbytes]
      simp only [List.append_assoc]
    exact readBe_at hfront (by simp) a.ttl.toNat_lt
  · have hfront : buf = (front ++ (storeBe 2 a.type.toNat ++ (storeBe 2 a.rclass.toNat ++
        storeBe 4 a.ttl.toNat))) ++ (storeBe 2 a.data.length ++ (a.data ++ tail)) := by
      rw [hbytes]
      simp only [List.append_assoc]
    exact readBe_at hfront (by simp) a.short
  · have hfront : buf = (front ++ (storeBe 2 a.type.toNat ++ (storeBe 2 a.rclass.toNat ++
        (storeBe 4 a.ttl.toNat ++ storeBe 2 a.data.length)))) ++ (a.data ++ tail) := by
      rw [hbytes]
      simp only [List.append_assoc]
    rw [hfront, List.drop_left' (by simp), List.take_left' rfl]

/-- **The answers** are searched for the first one with an address. -/
theorem find_answer (front back : Bytes) (answers : List Answer) :
    findAnswer (front ++ ((answers.map Answer.encode).flatten ++ back)) answers.length
      front.length = some (answerOf answers) := by
  induction answers generalizing front with
  | nil => rfl
  | cons a answers ih =>
    obtain ⟨buf, hbuf⟩ : ∃ buf, front ++ (((a :: answers).map Answer.encode).flatten ++ back) = buf :=
      ⟨_, rfl⟩
    obtain ⟨tail, htail⟩ : ∃ tail, (answers.map Answer.encode).flatten ++ back = tail := ⟨_, rfl⟩
    have hsplit : buf = front ++ (a.name.encode ++ (a.body ++ tail)) := by
      simp [← hbuf, ← htail, Answer.encode]
    have hskip : dnsSkipName buf front.length = some (front.length + a.name.encode.length) := by
      rw [hsplit, skip_name]
    have hlen : buf.length = front.length + a.name.encode.length + 10 + a.data.length +
        tail.length := by
      simp [hsplit, Answer.body]
      omega
    have hbody : buf = (front ++ a.name.encode) ++ (a.body ++ tail) := by
      rw [hsplit, List.append_assoc]
    obtain ⟨htype, httl, hrdlen, hdata⟩ := read_body hbody
    rw [List.length_append] at htype httl hrdlen hdata
    rw [hbuf, List.length_cons, findAnswer, if_pos (by omega), hskip]
    simp only [htype, httl, hrdlen]
    rw [if_neg (by omega)]
    have hisAddress : (a.type.toNat = 1 ∧ a.data.length = 4 ∧
        front.length + a.name.encode.length + 10 + 4 ≤ buf.length) ↔ a.IsAddress := by
      have htypeNat : a.type.toNat = 1 ↔ a.type = 1 := UInt16.toNat_inj (b := 1)
      rw [htypeNat, Answer.IsAddress]
      constructor
      · rintro ⟨h1, h4, -⟩
        exact ⟨h1, h4⟩
      · rintro ⟨h1, h4⟩
        exact ⟨h1, h4, by omega⟩
    by_cases haddress : a.IsAddress
    · rw [if_pos (hisAddress.mpr haddress), ← haddress.2, hdata]
      simp [answerOf, haddress]
    · have hnext : buf = (front ++ a.encode) ++ ((answers.map Answer.encode).flatten ++ back) := by
        rw [hsplit, htail, Answer.encode]
        simp only [List.append_assoc]
      have hpos : (front ++ a.encode).length =
          front.length + a.name.encode.length + 10 + a.data.length := by
        simp [Answer.encode, Answer.body]
        omega
      have hrest := ih (front ++ a.encode)
      rw [← hnext, hpos] at hrest
      rw [if_neg (fun h => haddress (hisAddress.mp h)), hrest]
      simp [answerOf, haddress]

theorem Message.length_header (m : Message) : m.header.length = 12 := by
  simp [Message.header]

/-- **A reply** says what its first answer with an address says. -/
theorem dnsParse_encode (m : Message) :
    dnsParse m.encode m.id =
      some (if m.code &&& 0x0F ≠ 0 then (-1, none) else answerOf m.answers) := by
  obtain ⟨tail, htail⟩ : ∃ tail, (m.questions.map Question.encode).flatten ++
      ((m.answers.map Answer.encode).flatten ++ m.rest) = tail := ⟨_, rfl⟩
  have hbytes : m.encode = storeBe 2 m.id.toNat ++ ([m.flags, m.code] ++
      (storeBe 2 m.questions.length ++ (storeBe 2 m.answers.length ++
        (storeBe 4 m.others.toNat ++ tail)))) := by
    simp only [Message.encode, Message.header, htail, List.append_assoc]
  have hid : readBe m.encode 0 2 = some m.id.toNat :=
    @readBe_at _ [] _ 2 m.id.toNat 0 hbytes rfl m.id.toNat_lt
  have hflags : m.encode[2]? = some m.flags ∧ m.encode[3]? = some m.code := by
    exact ⟨rfl, rfl⟩
  have hqd : readBe m.encode 4 2 = some m.questions.length := by
    have hfront : m.encode = (storeBe 2 m.id.toNat ++ [m.flags, m.code]) ++
        (storeBe 2 m.questions.length ++ (storeBe 2 m.answers.length ++
          (storeBe 4 m.others.toNat ++ tail))) := by
      rw [hbytes]
      simp only [List.append_assoc]
    exact readBe_at hfront rfl m.fewQuestions
  have han : readBe m.encode 6 2 = some m.answers.length := by
    have hfront : m.encode = (storeBe 2 m.id.toNat ++ ([m.flags, m.code] ++
        storeBe 2 m.questions.length)) ++ (storeBe 2 m.answers.length ++
          (storeBe 4 m.others.toNat ++ tail)) := by
      rw [hbytes]
      simp only [List.append_assoc]
    exact readBe_at hfront rfl m.fewAnswers
  have hlong : ¬m.encode.length < 12 := by
    rw [Message.encode, List.length_append, m.length_header]
    omega
  have hheader : ¬(m.id.toNat ≠ m.id.toNat ∨ m.flags &&& 0x80 = 0) := by
    rintro (h | h)
    · exact h rfl
    · exact m.reply h
  have hquestions := skip_questions m.header ((m.answers.map Answer.encode).flatten ++ m.rest)
    m.questions
  have hanswers := find_answer (m.header ++ (m.questions.map Question.encode).flatten) m.rest
    m.answers
  rw [List.append_assoc, List.length_append] at hanswers
  rw [m.length_header] at hquestions hanswers
  change skipQuestions m.encode _ _ = _ at hquestions
  change findAnswer m.encode _ _ = _ at hanswers
  rw [dnsParse, if_neg hlong, hid, hflags.1, hflags.2, hqd, han]
  simp only
  rw [if_neg hheader, hquestions]
  simp only [hanswers]
  split <;> rfl

/-! ## The query -/

/-- **The first label** of a host is what stands in front of its first point, if it has one. -/
theorem hostLabels_cons {host : Bytes} (hne : host ≠ []) :
    hostLabels host = host.takeWhile (· != 46) ::
      hostLabels ((host.drop (host.takeWhile (· != 46)).length).drop 1) := by
  obtain ⟨front, hfront⟩ : ∃ front, host.takeWhile (· != 46) = front := ⟨_, rfl⟩
  obtain ⟨rest, hrest⟩ : ∃ rest, host.dropWhile (· != 46) = rest := ⟨_, rfl⟩
  have hsplit : host = front ++ rest := by
    rw [← hfront, ← hrest, List.takeWhile_append_dropWhile]
  have hpoint : (46 : UInt8) ∉ front := by
    intro hmem
    rw [← hfront] at hmem
    simpa using List.mem_takeWhile_imp hmem
  rw [hfront, hsplit, List.drop_left]
  rcases rest with _ | ⟨c, rest⟩
  · rw [List.append_nil] at hsplit ⊢
    rw [hostLabels, List.splitOn_eq_singleton hpoint]
    have hfrontNe : front ≠ [] := hsplit ▸ hne
    simp [hfrontNe, hostLabels]
  · have hc : c = 46 := by
      have hhead := List.head?_dropWhile_not (fun x : UInt8 => x != 46) host
      rw [hrest] at hhead
      simpa using hhead
    subst hc
    have hparts := List.splitOn_ne_nil (46 : UInt8) rest
    rw [hostLabels, List.splitOn_append_cons_self_of_not_mem hpoint]
    simp only [List.drop_one, List.tail_cons, hostLabels]
    rw [List.getLast?_cons_of_ne_nil hparts, List.dropLast_cons_of_ne_nil hparts]
    split <;> rfl

/-- The queries that `dns_build_query` refuses. -/
def Refused (out : Nat) (labels : List Bytes) : Prop :=
  (∃ label ∈ labels, label.length = 0 ∨ 63 < label.length) ∨
    512 < out + (labels.map encodeLabel).flatten.length + 5

theorem refused_cons {out : Nat} {label : Bytes} {labels : List Bytes} :
    Refused out (label :: labels) ↔
      label.length = 0 ∨ 63 < label.length ∨ Refused (out + (label.length + 1)) labels := by
  have hlen : ((label :: labels).map encodeLabel).flatten.length =
      label.length + 1 + (labels.map encodeLabel).flatten.length := by
    simp [encodeLabel]
    omega
  simp only [Refused, hlen, List.mem_cons, exists_eq_or_imp, Nat.add_assoc, or_assoc]

/-- Labels that are too many for the buffer are refused, whatever is behind them. -/
theorem refused_of_long {out : Nat} {labels : List Bytes} (h : 512 < out + 5) :
    Refused out labels := .inr (by omega)

/-- **The loop** puts the labels of the host into the buffer, unless one of them is empty or too
long, or there are too many. -/
theorem buildLabels_eq (out host : Bytes) (hout : out.length + 5 ≤ 512) :
    (Refused out.length (hostLabels host) ∧ buildLabels out host = none) ∨
    (¬Refused out.length (hostLabels host) ∧
      buildLabels out host = some (out ++ ((hostLabels host).map encodeLabel).flatten)) := by
  fun_induction buildLabels out host with
  | case1 out =>
    refine .inr ⟨?_, by simp [hostLabels]⟩
    rintro (⟨label, hmem, -⟩ | hlong)
    · simp [hostLabels] at hmem
    · simp [hostLabels] at hlong
      omega
  | case2 out label hne front hbad =>
    refine .inl ⟨?_, rfl⟩
    rw [hostLabels_cons hne, refused_cons]
    rcases hbad with hzero | hlong | hfull
    · exact .inl hzero
    · exact .inr (.inl hlong)
    · exact .inr (.inr (refused_of_long (by omega)))
  | case3 out label hne front hgood ih =>
    have hlen : (out ++ .ofNat front.length :: front).length = out.length + (front.length + 1) := by
      simp
    rw [hostLabels_cons hne, refused_cons]
    rw [hlen] at ih
    obtain ⟨hrefused, hnone⟩ | ⟨hfine, hsome⟩ := ih (by omega)
    · exact .inl ⟨.inr (.inr hrefused), hnone⟩
    · refine .inr ⟨?_, ?_⟩
      · grind
      · rw [hsome, List.map_cons, List.flatten_cons, encodeLabel, List.append_assoc]

/-- **A query** is the standard encoding of the labels, unless one of them is empty or too long, or
the query is over 512 bytes. -/
theorem dnsBuildQuery_eq (id : UInt16) (host : Bytes) :
    dnsBuildQuery id host =
      if (∃ label ∈ hostLabels host, label.length = 0 ∨ 63 < label.length) ∨
          512 < (encodeQuery id (hostLabels host)).length then none
      else some (encodeQuery id (hostLabels host)) := by
  have hheader : (queryHeader id).length = 12 := by simp [queryHeader]
  have hlen : (encodeQuery id (hostLabels host)).length =
      (queryHeader id).length + ((hostLabels host).map encodeLabel).flatten.length + 5 := by
    simp [encodeQuery]
    omega
  rw [dnsBuildQuery, hlen]
  obtain ⟨hrefused, hnone⟩ | ⟨hfine, hsome⟩ :=
    buildLabels_eq (queryHeader id) host (by rw [hheader]; decide)
  · unfold Refused at hrefused
    rw [if_pos hrefused, hnone]
    rfl
  · unfold Refused at hfine
    rw [if_neg hfine, hsome, Option.map_some, encodeQuery, List.append_assoc]

/-- **Names.**  A reply is read inside its buffer; one whose response code is zero says what its
first answer with an address says, and any other is refused; and a query is the standard encoding
of its host, unless a label is empty or too long or the query is over 512 bytes. -/
theorem dns_codec :
    (∀ (buf : Bytes) (id : UInt16), ∃ r, dnsParse buf id = some r) ∧
    (∀ m : Message, dnsParse m.encode m.id =
      some (if m.code &&& 0x0F ≠ 0 then (-1, none) else answerOf m.answers)) ∧
    ∀ (id : UInt16) (host : Bytes), dnsBuildQuery id host =
      if (∃ label ∈ hostLabels host, label.length = 0 ∨ 63 < label.length) ∨
          512 < (encodeQuery id (hostLabels host)).length then none
      else some (encodeQuery id (hostLabels host)) :=
  ⟨dnsParse_isSome, dnsParse_encode, dnsBuildQuery_eq⟩

/-- A reply with the code 3, no such name, and the address of another one. -/
def refusedReply : Message where
  id := 7
  flags := 0x81
  code := 0x83
  questions := []
  answers := [⟨⟨[], none⟩, 1, 1, 60, [10, 0, 0, 1], by decide⟩]
  others := 0
  rest := []
  reply := by decide
  fewQuestions := by decide
  fewAnswers := by decide

/-- The answers of such a reply are not looked at. -/
theorem refusedReply_refused :
    ¬∀ m : Message, dnsParse m.encode m.id = some (answerOf m.answers) := by
  intro h
  have hreply := dnsParse_encode refusedReply
  rw [h refusedReply] at hreply
  exact absurd hreply (by decide)

end Libc.Dns
