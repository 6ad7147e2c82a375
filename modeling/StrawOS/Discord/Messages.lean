import StrawOS.Discord.Store

/-!
# The messages of a channel

Messages come from the gateway and from history requests in any order, and a message that
was sent stands in the list until it is confirmed.  The list is searched by bisection.  Of a
message only the fields that these functions read are kept.  Every allocation succeeds.
-/

namespace Discord

open Vfs (CString ofAscii)

/-- `Message`. -/
structure Message where
  id : Snowflake
  nonce : Option CString
  content : CString
  edited : Bool := false
  pending : Bool := false
  failed : Bool := false
  deriving DecidableEq

/-- `message_parse`. -/
def messageParse (j : Json) : Message where
  id := jsonId "id" j
  nonce := jsonStr "nonce" j
  content := (jsonStr "content" j).getD []
  edited := (jsonStr "edited_timestamp" j).isSome

/-- The message was sent with the nonce and is not confirmed. -/
def Message.Waits (n : CString) (m : Message) : Bool := m.pending && m.nonce == some n

/-- `Channel`, with its messages. -/
structure Chat where
  messages : List Message := []
  loaded : Bool := false
  hasMore : Bool := true
  lastMessageId : Snowflake := 0

def ids (l : List Message) : List Snowflake := l.map Message.id

/-- `channel_insert`; `Store` has it for the ids alone. -/
def insertMessage (l : List Message) (m : Message) : List Message :=
  let i := findIndex (ids l) m.id
  if (ids l)[i]? = some m.id then l.set i m else l.take i ++ m :: l.drop i

/-- The loop of `store_on_message_create`, which comes from the end. -/
def confirm (l : List Message) : Option CString → List Message
  | some n => (l.reverse.eraseP (Message.Waits n)).reverse
  | none => l

def onMessageCreate (j : Json) (ch : Chat) : Chat :=
  let m := messageParse j
  let ch := { ch with lastMessageId := m.id }
  if ch.loaded then { ch with messages := insertMessage (confirm ch.messages m.nonce) m } else ch

def updateMessage (j : Json) (m : Message) : Message :=
  if (jsonGet "author" j).isSome && (jsonStr "content" j).isSome then messageParse j
  else { m with
    content := (jsonStr "content" j).getD m.content
    edited := m.edited || (jsonStr "edited_timestamp" j).isSome }

def onMessageUpdate (j : Json) (ch : Chat) : Chat :=
  let i := findIndex (ids ch.messages) (jsonId "id" j)
  match ch.messages[i]? with
  | some m =>
      if m.id = jsonId "id" j then { ch with messages := ch.messages.set i (updateMessage j m) }
      else ch
  | none => ch

def onMessageDelete (j : Json) (ch : Chat) : Chat :=
  let i := findIndex (ids ch.messages) (jsonId "id" j)
  if (ids ch.messages)[i]? = some (jsonId "id" j) then
    { ch with messages := ch.messages.eraseIdx i }
  else ch

def loadMessages (arr : Json) (older : Bool) (ch : Chat) : Chat :=
  match arr with
  | .array items => { ch with
      messages := (items.map messageParse).foldl insertMessage ch.messages
      hasMore := if !older || items.length < 50 then 50 ≤ items.length else ch.hasMore
      loaded := true }
  | _ => ch

/-- `store_add_pending`; `counter` has been counted up. -/
def addPending (counter : Snowflake) (content nonce : CString) (ch : Chat) : Chat :=
  let m : Message := ⟨0 - 1 - 1000000 + counter, some nonce, content, false, true, false⟩
  { ch with messages := insertMessage ch.messages m }

def markFailed (nonce : CString) (ch : Chat) : Chat :=
  { ch with messages := ch.messages.map fun m =>
      if m.Waits nonce then { m with failed := true } else m }

inductive MessageOp
  | create (j : Json)
  | update (j : Json)
  | delete (j : Json)
  | load (arr : Json) (older : Bool)
  | addPending (counter : Snowflake) (content nonce : CString)
  | markFailed (nonce : CString)

/-- A call on the channel.  `pending_counter` is shared with the other channels, so that
`addPending` may come with any value of it. -/
def Chat.step (ch : Chat) : MessageOp → Chat
  | .create j => onMessageCreate j ch
  | .update j => onMessageUpdate j ch
  | .delete j => onMessageDelete j ch
  | .load arr older => loadMessages arr older ch
  | .addPending counter content nonce => addPending counter content nonce ch
  | .markFailed nonce => markFailed nonce ch

def messageList : Machine Chat MessageOp Unit where
  start ch := ch.messages = []
  step ch op := (ch.step op, [])

/-- A message is sent with a nonce that no other message of the channel waits for. -/
def FreshNonce (ch : Chat) : MessageOp → Prop
  | .addPending _ _ nonce => ∀ m ∈ ch.messages, m.Waits nonce = false
  | _ => True

/-! ## Bisection -/

/-- **Bisection** stops where the ids are no longer below the one looked for. -/
theorem findIndexLoop_eq {l : List Snowflake} {id : Snowflake} {k left lo hi : Nat}
    (hk : ∀ i, i < l.length → (l.getD i 0 < id ↔ i < k)) (hlo : lo ≤ k) (hhi : k ≤ hi)
    (hlen : hi ≤ l.length) (hleft : hi - lo ≤ left) : findIndexLoop l id left lo hi = k := by
  induction left generalizing lo hi with
  | zero =>
    rw [findIndexLoop]
    omega
  | succ left ih =>
    rw [findIndexLoop]
    have hmid := hk ((lo + hi) / 2)
    grind

theorem findIndex_getElem {l : List Snowflake} (h : l.Pairwise (· < ·)) {i : Nat}
    (hi : i < l.length) : findIndex l l[i] = i := by
  refine findIndexLoop_eq ?_ (Nat.zero_le _) hi.le (Nat.le_refl _) (Nat.le_refl _)
  intro j hj
  rw [List.getD_eq_getElem _ _ hj]
  have hsorted := List.pairwise_iff_getElem.mp h
  rcases Nat.lt_trichotomy j i with hlt | rfl | hgt
  · exact ⟨fun _ => hlt, fun _ => hsorted j i hj hi hlt⟩
  · exact ⟨fun h => absurd h (UInt64.lt_irrefl _), fun h => absurd h (Nat.lt_irrefl _)⟩
  · exact ⟨fun h => absurd h (UInt64.lt_asymm (hsorted i j hi hj hgt)), fun h => by omega⟩

/-- A sorted list splits where `find_index` says. -/
theorem findIndex_split {l : List Snowflake} (h : l.Pairwise (· < ·)) (id : Snowflake) :
    ∃ pre post, l = pre ++ post ∧ findIndex l id = pre.length ∧ (∀ x ∈ pre, x < id) ∧
      ∀ x ∈ post, id ≤ x := by
  have hsplit : ∃ pre post, l = pre ++ post ∧ (∀ x ∈ pre, x < id) ∧ ∀ x ∈ post, id ≤ x := by
    induction l with
    | nil => exact ⟨[], [], rfl, by simp, by simp⟩
    | cons a l ih =>
      obtain ⟨hhead, hl⟩ := List.pairwise_cons.mp h
      by_cases ha : a < id
      · obtain ⟨pre, post, rfl, hpre, hpost⟩ := ih hl
        exact ⟨a :: pre, post, rfl, List.forall_mem_cons.mpr ⟨ha, hpre⟩, hpost⟩
      · have hle := UInt64.not_lt.mp ha
        refine ⟨[], a :: l, rfl, by simp, List.forall_mem_cons.mpr ⟨hle, fun x hx => ?_⟩⟩
        exact UInt64.le_trans hle (UInt64.le_of_lt (hhead x hx))
  obtain ⟨pre, post, rfl, hpre, hpost⟩ := hsplit
  refine ⟨pre, post, rfl, findIndexLoop_eq ?_ (Nat.zero_le _) (by simp) (Nat.le_refl _)
    (Nat.le_refl _), hpre, hpost⟩
  intro i hi
  rw [List.getD_eq_getElem _ _ hi]
  by_cases hin : i < pre.length
  · simp only [List.getElem_append_left hin, hin, iff_true]
    exact hpre _ (List.getElem_mem hin)
  · simp only [List.getElem_append_right (Nat.not_lt.mp hin), hin, iff_false, UInt64.not_lt]
    exact hpost _ (List.getElem_mem _)

/-- What the list of a channel always is: in the order of the ids, and at most one message
waits for a nonce. -/
structure Listed (l : List Message) : Prop where
  sorted : (ids l).Pairwise (· < ·)
  once : ∀ n, l.countP (Message.Waits n) ≤ 1

variable {l : List Message}

theorem Listed.sublist (h : Listed l) {l' : List Message} (hs : l'.Sublist l) : Listed l' :=
  ⟨h.sorted.sublist (hs.map _), fun n => (hs.countP_le).trans (h.once n)⟩

/-- A message in the place of one with its id. -/
theorem Listed.set (h : Listed l) {i : Nat} (hi : i < l.length) {m : Message}
    (hid : l[i].id = m.id) (hw : ∀ n, m.Waits n = true → l[i].Waits n = true) :
    Listed (l.set i m) := by
  have hids : ids (l.set i m) = ids l := by
    rw [ids, List.map_set, ← hid, ← List.getElem_map Message.id (h := by simpa using hi)]
    exact List.set_getElem_self _
  refine ⟨hids ▸ h.sorted, fun n => ?_⟩
  rw [List.countP_set hi]
  have honce := h.once n
  have hwn := hw n
  split_ifs <;> grind

/-- **`channel_insert`** puts the message between those below it and those above. -/
theorem insertMessage_eq (h : (ids l).Pairwise (· < ·)) (m : Message) :
    ∃ pre post, insertMessage l m = pre ++ m :: post ∧ (pre ++ post).Sublist l ∧
      (∀ x ∈ pre, x.id < m.id) ∧ ∀ x ∈ post, m.id < x.id := by
  obtain ⟨_, _, heq, hidx, hpre, hpost⟩ := findIndex_split h m.id
  obtain ⟨pre, post, rfl, rfl, rfl⟩ := List.map_eq_append_iff.mp heq
  rw [List.length_map] at hidx
  rw [List.forall_mem_map] at hpre hpost
  simp only [insertMessage, hidx]
  have hsorted := (List.pairwise_append.mp (heq ▸ h)).2.1
  obtain _ | ⟨x, rest⟩ := post
  · refine ⟨pre, [], ?_, List.Sublist.refl _, hpre, by simp⟩
    simp [ids]
  · have hrest := List.forall_mem_map.mp (List.pairwise_cons.mp hsorted).1
    by_cases hx : x.id = m.id
    · refine ⟨pre, rest, ?_, (List.Sublist.refl pre).append (List.sublist_cons_self x rest), hpre,
        hx ▸ hrest⟩
      simp [ids, hx]
    · have hlt := UInt64.lt_of_le_of_ne (hpost x List.mem_cons_self) (Ne.symm hx)
      refine ⟨pre, x :: rest, ?_, List.Sublist.refl _, hpre, List.forall_mem_cons.mpr ⟨hlt, fun y hy =>
        UInt64.lt_trans hlt (hrest y hy)⟩⟩
      simp [ids, hx]

theorem Listed.insert (h : Listed l) {m : Message}
    (hm : ∀ n, m.Waits n = true → ∀ x ∈ l, x.Waits n = false) :
    Listed (insertMessage l m) ∧ m ∈ insertMessage l m ∧
      ∀ x ∈ insertMessage l m, x = m ∨ x ∈ l := by
  obtain ⟨pre, post, heq, hsub, hpre, hpost⟩ := insertMessage_eq h.sorted m
  have hold := h.sublist hsub
  rw [heq]
  refine ⟨⟨?_, fun n => ?_⟩, by simp, fun x hx => ?_⟩
  · have hsorted := hold.sorted
    rw [ids, List.map_append, List.pairwise_append] at hsorted ⊢
    obtain ⟨h1, h2, h3⟩ := hsorted
    have hbelow : ∀ a ∈ pre.map Message.id, a < m.id := List.forall_mem_map.mpr hpre
    exact ⟨h1, List.pairwise_cons.mpr ⟨List.forall_mem_map.mpr hpost, h2⟩, fun a ha =>
      List.forall_mem_cons.mpr ⟨hbelow a ha, h3 a ha⟩⟩
  · have honce := hold.once n
    have hzero : m.Waits n = true → l.countP (Message.Waits n) = 0 := fun hw =>
      List.countP_eq_zero.mpr fun x hx => Bool.eq_false_iff.mp (hm n hw x hx)
    have hle := hsub.countP_le (p := Message.Waits n)
    rw [List.countP_append, List.countP_cons]
    rw [List.countP_append] at honce hle
    split_ifs <;> grind
  · have hmem : x ∈ pre ++ post → x ∈ l := fun hx => hsub.subset hx
    grind

/-- Where one message waits, none does once it is taken out. -/
theorem eraseP_of_once {α : Type*} {p : α → Bool} {l : List α} (h : l.countP p ≤ 1) :
    ∀ x ∈ l.eraseP p, p x = false := by
  induction l with
  | nil => simp
  | cons a l ih => grind [List.countP_eq_zero]

theorem Listed.confirm (h : Listed l) (nonce : Option CString) :
    Listed (confirm l nonce) ∧
      ∀ n, nonce = some n → ∀ x ∈ Discord.confirm l nonce, x.Waits n = false := by
  cases nonce with
  | none => exact ⟨h, fun n hn => absurd hn (by simp)⟩
  | some n =>
    refine ⟨h.sublist ?_, ?_⟩
    · have hsub := (List.eraseP_sublist (p := Message.Waits n) (l := l.reverse)).reverse
      rwa [List.reverse_reverse] at hsub
    · rintro _ ⟨⟩ x hx
      refine eraseP_of_once ?_ x (List.mem_reverse.mp hx)
      rw [List.countP_reverse]
      exact h.once n

theorem Listed.parsed (h : Listed l) (j : Json) :
    Listed (insertMessage l (messageParse j)) ∧ messageParse j ∈ insertMessage l (messageParse j) ∧
      ∀ x ∈ insertMessage l (messageParse j), x = messageParse j ∨ x ∈ l :=
  h.insert fun _ hw => absurd hw Bool.false_ne_true

theorem Listed.load (h : Listed l) (items : List Json) :
    Listed ((items.map messageParse).foldl insertMessage l) := by
  induction items generalizing l with
  | nil => exact h
  | cons j items ih => exact ih (h.parsed j).1

theorem Listed.step {ch : Chat} (h : Listed ch.messages) {op : MessageOp} (hop : FreshNonce ch op) :
    Listed (ch.step op).messages := by
  cases op with
  | create j =>
    simp only [Chat.step, onMessageCreate]
    split
    · exact ((h.confirm _).1.parsed j).1
    · exact h
  | update j =>
    simp only [Chat.step, onMessageUpdate]
    split
    · rename_i m hm
      obtain ⟨hi, rfl⟩ := List.getElem?_eq_some_iff.mp hm
      split
      · rename_i hid
        rw [updateMessage]
        split
        · exact h.set hi hid fun n hw => absurd hw Bool.false_ne_true
        · exact h.set hi rfl fun n hw => hw
      · exact h
    · exact h
  | delete j =>
    simp only [Chat.step, onMessageDelete]
    split
    · exact h.sublist (List.eraseIdx_sublist _ _)
    · exact h
  | load arr older =>
    simp only [Chat.step, loadMessages]
    split
    · exact h.load _
    · exact h
  | addPending counter content nonce =>
    refine (h.insert fun n hw x hx => ?_).1
    have hn : nonce = n := by simpa [Message.Waits] using hw
    exact hn ▸ hop x hx
  | markFailed nonce =>
    refine ⟨by simpa [Chat.step, Discord.markFailed, ids, Function.comp_def,
      apply_ite Message.id] using h.sorted, fun n => ?_⟩
    refine Nat.le_trans (Nat.le_of_eq (List.countP_map.trans ?_)) (h.once n)
    refine List.countP_congr fun m _ => ?_
    dsimp only [Function.comp]
    split <;> exact Iff.rfl

/-- **The message list.**  In every run in which each message is sent with a nonce that
no other message waits for, the ids of the list increase, so that `find_index` finds each
message where it is and no id is shown twice.  When a confirmation has been handled on a
loaded channel, its message is in the list and no message waits for its nonce. -/
theorem message_list {ch : Chat} (h : messageList.Reachable FreshNonce ch) :
    (ids ch.messages).Pairwise (· < ·) ∧
      (∀ i (hi : i < ch.messages.length), findIndex (ids ch.messages) ch.messages[i].id = i) ∧
      ∀ j, ch.loaded = true → messageParse j ∈ (ch.step (.create j)).messages ∧
        ∀ n, jsonStr "nonce" j = some n →
          ∀ m ∈ (ch.step (.create j)).messages, m.Waits n = false := by
  have hl : Listed ch.messages := by
    refine h.invariant (P := fun ch => Listed ch.messages) ?_ fun ch op hl hop => hl.step hop
    intro ch hch
    exact hch ▸ ⟨List.Pairwise.nil, fun n => Nat.zero_le _⟩
  refine ⟨hl.sorted, fun i hi => ?_, fun j hloaded => ?_⟩
  · simpa [ids] using findIndex_getElem hl.sorted (i := i) (by simpa [ids] using hi)
  · obtain ⟨hconfirmed, hnone⟩ := hl.confirm (messageParse j).nonce
    obtain ⟨-, hmem, hrest⟩ := hconfirmed.parsed j
    simp only [Chat.step, onMessageCreate, hloaded, if_true]
    refine ⟨hmem, fun n hn m hm => ?_⟩
    rcases hrest m hm with rfl | hm
    · rfl
    · exact hnone n hn m hm

/-- The confirmation of the message that `sent` leaves in the list. -/
def confirmation : Json :=
  .object [(ofAscii "id", .string (ofAscii "9")), (ofAscii "nonce", .string (ofAscii "5"))]

def sent : Chat :=
  (⟨[], true, true, 0⟩ : Chat).step (.addPending 1 (ofAscii "hi") (ofAscii "5"))

theorem sent_confirmed : sent.messages.length = 1 ∧
    messageParse confirmation ∈ (sent.step (.create confirmation)).messages ∧
    ∀ m ∈ (sent.step (.create confirmation)).messages, m.Waits (ofAscii "5") = false := by
  have hstart : messageList.Reachable FreshNonce ⟨[], true, true, 0⟩ := .start rfl
  have hsent := hstart.step (.addPending 1 (ofAscii "hi") (ofAscii "5")) fun m hm =>
    absurd hm List.not_mem_nil
  obtain ⟨hmem, hnone⟩ := (message_list hsent).2.2 confirmation rfl
  exact ⟨rfl, hmem, hnone _ (by decide +kernel)⟩

end Discord
