import Mathlib.Data.List.Infix

/-!
# Incremental decoders

A decoder takes one item after the other from the front of a buffer and leaves what
is not complete yet.  What it finds does not depend on how the input was cut into
pieces: `drain_append` puts two pieces together, and `drain_prefix` says what is
found in the beginning of an encoded list of items.
-/

/-- What is at the front of a buffer: too little, nothing that can be decoded, or an
item with the rest behind it. -/
inductive Next (α β : Type*)
  | more
  | bad
  | item (b : β) (rest : List α)

/-- A decoder of items `β` from a stream of `α`.  More input changes neither an item nor
a failure. -/
structure Decoder (α β : Type*) where
  next : List α → Next α β
  shrink : ∀ {xs b rest}, next xs = .item b rest → rest.length < xs.length
  item_append : ∀ {xs b rest} (ys : List α), next xs = .item b rest →
    next (xs ++ ys) = .item b (rest ++ ys)
  bad_append : ∀ {xs} (ys : List α), next xs = .bad → next (xs ++ ys) = .bad

namespace Decoder

variable {α β : Type*} (d : Decoder α β)

/-- The items of a buffer, and what is left of it unless decoding failed. -/
def drainLoop : Nat → List α → List β × Option (List α)
  | 0, xs => ([], some xs)
  | fuel + 1, xs =>
    match d.next xs with
    | .more => ([], some xs)
    | .bad => ([], none)
    | .item b rest => (b :: (drainLoop fuel rest).1, (drainLoop fuel rest).2)

def drain (xs : List α) : List β × Option (List α) := d.drainLoop (xs.length + 1) xs

variable {d}

theorem drainLoop_eq {fuel fuel' : Nat} {xs : List α} (h : xs.length < fuel) (h' : xs.length < fuel') :
    d.drainLoop fuel xs = d.drainLoop fuel' xs := by
  induction fuel generalizing fuel' xs with
  | zero => omega
  | succ fuel ih =>
    cases fuel' with
    | zero => omega
    | succ fuel' =>
      rw [drainLoop, drainLoop]
      cases hnext : d.next xs with
      | more => rfl
      | bad => rfl
      | item b rest =>
        have hlt := d.shrink hnext
        dsimp only
        rw [ih (show rest.length < fuel by omega) (show rest.length < fuel' by omega)]

theorem drain_more {xs : List α} (h : d.next xs = .more) : d.drain xs = ([], some xs) := by
  rw [drain, drainLoop, h]

theorem drain_bad {xs : List α} (h : d.next xs = .bad) : d.drain xs = ([], none) := by
  rw [drain, drainLoop, h]

theorem drain_item {xs rest : List α} {b : β} (h : d.next xs = .item b rest) :
    d.drain xs = (b :: (d.drain rest).1, (d.drain rest).2) := by
  have hlt := d.shrink h
  rw [drain, drainLoop, h, drain]
  dsimp only
  rw [drainLoop_eq hlt (Nat.lt_succ_self rest.length)]

theorem next_of_drain {xs rest : List α} (h : (d.drain xs).2 = some rest) : d.next rest = .more := by
  induction hn : xs.length using Nat.strongRecOn generalizing xs with
  | ind n ih =>
    cases hnext : d.next xs with
    | more =>
      rw [drain_more hnext] at h
      obtain rfl := Option.some.inj h
      exact hnext
    | bad =>
      rw [drain_bad hnext] at h
      cases h
    | item b rest' =>
      rw [drain_item hnext] at h
      exact ih rest'.length (hn ▸ d.shrink hnext) h rfl

/-- **Two pieces** of the input: the second one is put behind what the first one left. -/
theorem drain_append (xs ys : List α) : d.drain (xs ++ ys) =
    match (d.drain xs).2 with
    | some rest => ((d.drain xs).1 ++ (d.drain (rest ++ ys)).1, (d.drain (rest ++ ys)).2)
    | none => ((d.drain xs).1, none) := by
  induction hn : xs.length using Nat.strongRecOn generalizing xs with
  | ind n ih =>
    cases hnext : d.next xs with
    | more =>
      rw [drain_more hnext]
      rfl
    | bad =>
      rw [drain_bad hnext, drain_bad (d.bad_append ys hnext)]
    | item b rest =>
      rw [drain_item (d.item_append ys hnext), drain_item hnext,
        ih rest.length (hn ▸ d.shrink hnext) rest rfl]
      cases (d.drain rest).2 with
      | none => rfl
      | some left => rfl

/-- An encoding of things for each of which the decoder reads an item. -/
def Reads {γ : Type*} (d : Decoder α β) (encode : γ → List α) (item : γ → β) (ok : γ → Prop) : Prop :=
  ∀ c, ok c → ∀ rest, d.next (encode c ++ rest) = .item (item c) rest

theorem drain_reads {γ : Type*} {encode : γ → List α} {item : γ → β} {ok : γ → Prop}
    (hreads : d.Reads encode item ok) {cs : List γ} (hcs : ∀ c ∈ cs, ok c) (rest : List α) :
    d.drain (cs.flatMap encode ++ rest) = (cs.map item ++ (d.drain rest).1, (d.drain rest).2) := by
  induction cs with
  | nil => rfl
  | cons c cs ih =>
    rw [List.flatMap_cons, List.append_assoc, drain_item (hreads c (hcs c List.mem_cons_self) _),
      ih fun c' hc' => hcs c' (List.mem_cons_of_mem _ hc')]
    rfl

/-- An encoding of the items that the decoder reads back. -/
def Inverts (d : Decoder α β) (encode : β → List α) (ok : β → Prop) : Prop :=
  ∀ b, ok b → ∀ rest, d.next (encode b ++ rest) = .item b rest

theorem next_of_lt {encode : β → List α} {ok : β → Prop} (hinv : d.Inverts encode ok) {b : β} (hb : ok b)
    {xs ys : List α} (h : xs ++ ys = encode b) (hys : ys ≠ []) : d.next xs = .more := by
  have hwhole := hinv b hb []
  rw [List.append_nil, ← h] at hwhole
  cases hnext : d.next xs with
  | more => rfl
  | bad =>
    rw [d.bad_append ys hnext] at hwhole
    cases hwhole
  | item b' rest =>
    rw [d.item_append ys hnext] at hwhole
    simp only [Next.item.injEq, List.append_eq_nil_iff] at hwhole
    exact absurd hwhole.2.2 hys

/-- **A beginning** of an encoded list with too little behind it: its first items are
found, and nothing fails. -/
theorem drain_prefix_reads {γ : Type*} {encode : γ → List α} {item : γ → β} {ok : γ → Prop}
    (hreads : d.Reads encode item ok) {cs : List γ} (hcs : ∀ c ∈ cs, ok c) {xs ys tail : List α}
    (h : xs ++ ys = cs.flatMap encode ++ tail) (htail : d.next tail = .more) :
    ∃ rest, (d.drain xs).2 = some rest ∧ (d.drain xs).1 ++ (d.drain (rest ++ ys)).1 = cs.map item ∧
      (d.drain (rest ++ ys)).2 = some tail := by
  have hwhole := drain_reads hreads hcs tail
  rw [← h, drain_append, drain_more htail, List.append_nil] at hwhole
  cases hleft : (d.drain xs).2 with
  | none =>
    rw [hleft] at hwhole
    exact absurd (congrArg Prod.snd hwhole) (by simp)
  | some rest =>
    rw [hleft] at hwhole
    exact ⟨rest, rfl, congrArg Prod.fst hwhole, congrArg Prod.snd hwhole⟩

theorem drain_prefix {encode : β → List α} {ok : β → Prop} (hinv : d.Inverts encode ok) {bs : List β}
    (hbs : ∀ b ∈ bs, ok b) {xs ys tail : List α} (h : xs ++ ys = bs.flatMap encode ++ tail)
    (htail : d.next tail = .more) :
    ∃ rest, (d.drain xs).2 = some rest ∧ (d.drain xs).1 ++ (d.drain (rest ++ ys)).1 = bs ∧
      (d.drain (rest ++ ys)).2 = some tail := by
  have hreads : d.Reads encode id ok := hinv
  obtain ⟨rest, hrest, hitems, hleft⟩ := drain_prefix_reads hreads hbs h htail
  rw [List.map_id] at hitems
  exact ⟨rest, hrest, hitems, hleft⟩

end Decoder
