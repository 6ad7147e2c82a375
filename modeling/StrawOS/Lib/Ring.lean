import Mathlib.Data.List.Nodup
import Mathlib.Data.List.Perm.Subperm

/-!
# Intrusive rings

A ring is a circular list through the `next` pointers of its members, held by a
pointer to one of them.  `Path next a l b` says that following `next` from `a` goes
through `l` and then to `b`; a ring is a path from a member around to itself, and
going around from another member is a rotation of it.  `orbit` is the list of
members in the order in which a loop over the ring meets them.
-/

namespace Ring

variable {α : Type*} {next next' : α → α}

/-- From `a` through `l` to `b`. -/
def Path (next : α → α) : α → List α → α → Prop
  | a, [], b => next a = b
  | a, x :: l, b => next a = x ∧ Path next x l b

theorem path_append {a b x : α} {l m : List α} :
    Path next a (l ++ x :: m) b ↔ Path next a l x ∧ Path next x m b := by
  induction l generalizing a with
  | nil => simp [Path]
  | cons y l ih => simp [Path, ih, and_assoc]

theorem Path.congr {a b : α} {l : List α} (h : Path next a l b)
    (heq : ∀ x ∈ a :: l, next' x = next x) : Path next' a l b := by
  induction l generalizing a with
  | nil =>
    rw [Path] at h ⊢
    rw [heq a List.mem_cons_self]
    exact h
  | cons y l ih =>
    obtain ⟨h1, h2⟩ := h
    refine ⟨by rw [heq a List.mem_cons_self]; exact h1, ih h2 ?_⟩
    intro x hx
    exact heq x (List.mem_cons_of_mem _ hx)

theorem Path.rotate {h x : α} {l m : List α} (hp : Path next h (l ++ x :: m) h) :
    Path next x (m ++ h :: l) x := by
  rw [path_append] at hp ⊢
  exact ⟨hp.2, hp.1⟩

/-- A pointer to a ring whose members are those with a property. -/
def Holds (next : α → α) (head : Option α) (S : α → Prop) : Prop :=
  match head with
  | none => ∀ t, ¬S t
  | some h => ∃ l, Path next h l h ∧ (h :: l).Nodup ∧ ∀ t, t ∈ h :: l ↔ S t

theorem Holds.iff {head : Option α} {S S' : α → Prop} (h : Holds next head S)
    (heq : ∀ x, S' x ↔ S x) : Holds next head S' := by
  cases head with
  | none => exact fun t ht => h t ((heq t).mp ht)
  | some a =>
    obtain ⟨l, hp, hnd, hmem⟩ := h
    exact ⟨l, hp, hnd, fun t => (hmem t).trans (heq t).symm⟩

theorem Holds.move {head : Option α} {S : α → Prop} (h : Holds next head S) {x : α} (hx : S x) :
    Holds next (some x) S := by
  cases head with
  | none => exact absurd hx (h x)
  | some a =>
    obtain ⟨l, hp, hnd, hmem⟩ := h
    rcases List.mem_cons.mp ((hmem x).mpr hx) with rfl | hxl
    · exact ⟨l, hp, hnd, hmem⟩
    obtain ⟨l₁, l₂, rfl⟩ := List.append_of_mem hxl
    have hperm : (x :: (l₂ ++ a :: l₁)).Perm (a :: (l₁ ++ x :: l₂)) := by
      have h1 : (x :: l₂ ++ a :: l₁).Perm (a :: l₁ ++ x :: l₂) := List.perm_append_comm
      exact h1
    refine ⟨l₂ ++ a :: l₁, hp.rotate, hperm.nodup_iff.mpr hnd, ?_⟩
    intro t
    rw [hperm.mem_iff]
    exact hmem t

variable [DecidableEq α]

/-! ## Going around -/

/-- The members met from `p` on until the loop is back at `head`. -/
def orbit (next : α → α) (head : α) : Nat → α → List α
  | 0, _ => []
  | fuel + 1, p => p :: if next p = head then [] else orbit next head fuel (next p)

theorem orbit_path {head a : α} {l : List α} {fuel : Nat} (hp : Path next a l head)
    (hl : head ∉ l) (hfuel : l.length < fuel) : orbit next head fuel a = a :: l := by
  induction l generalizing a fuel with
  | nil =>
    cases fuel with
    | zero => simp at hfuel
    | succ fuel =>
      have hback : next a = head := hp
      rw [orbit, if_pos hback]
  | cons x l ih =>
    cases fuel with
    | zero => simp at hfuel
    | succ fuel =>
      obtain ⟨h1, h2⟩ := hp
      have hx : next a ≠ head := by
        rw [h1]
        intro heq
        exact hl (heq ▸ List.mem_cons_self)
      have hlt : l.length < fuel := by simpa using hfuel
      have hrest := ih h2 (fun hm => hl (List.mem_cons_of_mem _ hm)) hlt
      rw [orbit, if_neg hx, h1, hrest]

theorem Holds.orbit {a : α} {S : α → Prop} (h : Holds next (some a) S) {all : List α}
    (hall : ∀ t, S t → t ∈ all) :
    ∃ l, orbit next a all.length a = a :: l ∧ Path next a l a ∧ (a :: l).Nodup ∧
      ∀ t, t ∈ a :: l ↔ S t := by
  obtain ⟨l, hp, hnd, hmem⟩ := h
  have hsub : a :: l ⊆ all := fun t ht => hall t ((hmem t).mp ht)
  have hlen : l.length < all.length := by
    have hle := (List.Nodup.subperm hnd hsub).length_le
    rw [List.length_cons] at hle
    omega
  exact ⟨l, orbit_path hp (List.nodup_cons.mp hnd).1 hlen, hp, hnd, hmem⟩

/-! ## Edits -/

/-- The pointers of a ring. -/
structure Links (α : Type*) where
  next : α → α
  head : Option α

/-- Put a new member behind the head. -/
def push (r : Links α) (t : α) : Links α :=
  match r.head with
  | none => ⟨Function.update r.next t t, some t⟩
  | some h => ⟨Function.update (Function.update r.next t (r.next h)) h t, some h⟩

/-- Take a member out: the loop looks for the member before it. -/
def remove (r : Links α) (t : α) (fuel : Nat) : Links α :=
  match r.head with
  | none => r
  | some h =>
      if h = t ∧ r.next h = t then ⟨r.next, none⟩
      else
        match (orbit r.next h fuel h).find? fun p => r.next p = t with
        | none => r
        | some p =>
            ⟨Function.update r.next p (r.next t), if h = t then some (r.next t) else some h⟩

/-- The new member stands between the head and the one that was behind it. -/
theorem push_path {r : Links α} {a t : α} {l : List α} (hhead : r.head = some a)
    (hp : Path r.next a l a) (hnd : (a :: l).Nodup) (ht : t ∉ a :: l) :
    (push r t).head = some a ∧ Path (push r t).next a (t :: l) a := by
  have hne : t ≠ a := fun heq => ht (heq ▸ List.mem_cons_self)
  have hself : Function.update (Function.update r.next t (r.next a)) a t a = t := by simp
  have hnew : Function.update (Function.update r.next t (r.next a)) a t t = r.next a := by
    rw [Function.update_of_ne hne, Function.update_self]
  have hrest : ∀ x ∈ l, Function.update (Function.update r.next t (r.next a)) a t x = r.next x := by
    grind
  have hpush : push r t = ⟨Function.update (Function.update r.next t (r.next a)) a t, some a⟩ := by
    rw [push, hhead]
  rw [hpush]
  refine ⟨rfl, hself, ?_⟩
  cases l with
  | nil => exact hnew.trans hp
  | cons y l =>
    obtain ⟨h1, h2⟩ := hp
    exact ⟨hnew.trans h1, h2.congr fun x hx => hrest x hx⟩

theorem push_holds {r : Links α} {S : α → Prop} (h : Holds r.next r.head S) {t : α} (ht : ¬S t) :
    Holds (push r t).next (push r t).head fun x => x = t ∨ S x := by
  cases hhead : r.head with
  | none =>
    rw [hhead] at h
    simp only [push, hhead]
    refine ⟨[], by simp [Path], by simp, ?_⟩
    intro x
    have hno := h x
    simp [hno]
  | some a =>
    rw [hhead] at h
    obtain ⟨l, hp, hnd, hmem⟩ := h
    have hta : t ∉ a :: l := fun hm => ht ((hmem t).mp hm)
    obtain ⟨hkeep, hpath⟩ := push_path hhead hp hnd hta
    rw [hkeep]
    refine ⟨t :: l, hpath, ?_, ?_⟩
    · have hperm : (a :: t :: l).Perm (t :: a :: l) := List.Perm.swap _ _ _
      exact hperm.nodup_iff.mpr (List.nodup_cons.mpr ⟨hta, hnd⟩)
    · grind

/-- The last member of a path is the only one that points to its end, and the path can
be led elsewhere there. -/
theorem Path.last {a b : α} {l : List α} (h : Path next a l b) (hnd : (a :: l).Nodup)
    (hb : b ∉ l) : ∃ p ∈ a :: l, next p = b ∧ (∀ q ∈ a :: l, next q = b → q = p) ∧
      ∀ c, Path (Function.update next p c) a l c := by
  induction l generalizing a with
  | nil =>
    refine ⟨a, List.mem_cons_self, h, ?_, ?_⟩
    · intro q hq _
      simpa using hq
    · intro c
      simp [Path]
  | cons y l ih =>
    obtain ⟨h1, h2⟩ := h
    obtain ⟨hay, hnd'⟩ := List.nodup_cons.mp hnd
    obtain ⟨p, hp, hpb, huniq, hlead⟩ := ih h2 hnd' fun hm => hb (List.mem_cons_of_mem _ hm)
    have hap : a ≠ p := fun heq => hay (heq ▸ hp)
    refine ⟨p, List.mem_cons_of_mem _ hp, hpb, ?_, ?_⟩
    · grind
    · intro c
      exact ⟨by rw [Function.update_of_ne hap, h1], hlead c⟩

/-- The edit of `remove`, seen from the member taken out: the one before it is led to the
one behind it, and the rest is a ring. -/
theorem remove_path {r : Links α} {a t y : α} {m : List α} (hhead : r.head = some a)
    (hp : Path r.next t (y :: m) t) (hnd : (t :: y :: m).Nodup) (ha : a ∈ t :: y :: m)
    {fuel : Nat} (horb : ∀ x, x ∈ orbit r.next a fuel a ↔ x ∈ t :: y :: m) :
    ∃ next', remove r t fuel = ⟨next', some (if a = t then y else a)⟩ ∧ Path next' y m y := by
  obtain ⟨hty, hpath⟩ := hp
  obtain ⟨htm, hnd'⟩ := List.nodup_cons.mp hnd
  obtain ⟨p, hpm, hpt, huniq, hlead⟩ := hpath.last hnd' fun hm => htm (List.mem_cons_of_mem _ hm)
  have hyt : y ≠ t := fun heq => htm (heq ▸ List.mem_cons_self)
  have honly : ¬(a = t ∧ r.next a = t) := by
    rintro ⟨rfl, hself⟩
    exact hyt (hty ▸ hself)
  have hfind : (orbit r.next a fuel a).find? (fun q => r.next q = t) = some p := by
    cases hf : (orbit r.next a fuel a).find? (fun q => r.next q = t) with
    | none =>
      have hno := List.find?_eq_none.mp hf p ((horb p).mpr (List.mem_cons_of_mem _ hpm))
      exact absurd (decide_eq_true hpt) hno
    | some q => grind
  refine ⟨Function.update r.next p y, ?_, hlead y⟩
  simp only [remove, hhead, if_neg honly, hfind, hty]
  split <;> rfl

theorem remove_holds {r : Links α} {S : α → Prop} (h : Holds r.next r.head S) {t : α} (ht : S t)
    {all : List α} (hall : ∀ x, S x → x ∈ all) :
    Holds (remove r t all.length).next (remove r t all.length).head fun x => x ≠ t ∧ S x := by
  cases hhead : r.head with
  | none =>
    rw [hhead] at h
    exact absurd ht (h t)
  | some a =>
    rw [hhead] at h
    obtain ⟨m, hp, hnd, hmem⟩ := Holds.move h ht
    obtain ⟨l, horbit, -, -, horb⟩ := Holds.orbit h hall
    have hmeet : ∀ x, x ∈ orbit r.next a all.length a ↔ x ∈ t :: m := by
      intro x
      rw [horbit, horb, hmem]
    have ha : a ∈ t :: m := (hmem a).mpr ((horb a).mp List.mem_cons_self)
    cases m with
    | nil =>
      -- the only member
      obtain rfl : a = t := by simpa using ha
      have hself : r.next a = a := hp
      simp only [remove, hhead, hself, and_self, if_true, Holds]
      intro x hx
      exact hx.1 (by simpa using (hmem x).mpr hx.2)
    | cons y m =>
      obtain ⟨next', hremove, hring⟩ := remove_path hhead hp hnd ha hmeet
      obtain ⟨htm, hnd'⟩ := List.nodup_cons.mp hnd
      rw [hremove]
      -- the ring without `t`, seen from the member behind it
      have hholds : Holds next' (some y) fun x => x ≠ t ∧ S x := by
        refine ⟨m, hring, hnd', ?_⟩
        intro x
        show x ∈ y :: m ↔ x ≠ t ∧ S x
        rw [← hmem x, List.mem_cons (a := x) (b := t)]
        constructor
        · intro hx
          exact ⟨fun heq => htm (heq ▸ hx), Or.inr hx⟩
        · rintro ⟨hne, hx⟩
          exact hx.resolve_left hne
      by_cases hat : a = t
      · rw [if_pos hat]
        exact hholds
      · rw [if_neg hat]
        exact hholds.move ⟨hat, (horb a).mp List.mem_cons_self⟩

/-! ## The order of a turn

A loop that starts behind the head and comes to the head last meets the members in
the order of `Turn`. -/

/-- The members in the order in which a loop from behind the head meets them. -/
def Turn (r : Links α) (l : List α) : Prop :=
  match r.head with
  | none => l = []
  | some h => ∃ m, l = m ++ [h] ∧ Path r.next h m h ∧ (h :: m).Nodup

omit [DecidableEq α] in
theorem Turn.nodup {r : Links α} {l : List α} (h : Turn r l) : l.Nodup := by
  rw [Turn] at h
  split at h
  · rw [h]
    exact List.nodup_nil
  · grind

omit [DecidableEq α] in
theorem Turn.head_eq {r : Links α} {l l' : List α} {b : α} (h : Turn r l') (heq : l' = l ++ [b]) :
    r.head = some b := by
  subst heq
  rw [Turn] at h
  split at h
  · simp at h
  · rename_i a hhead
    obtain ⟨m, heq, -⟩ := h
    obtain ⟨-, hlast⟩ := List.append_inj' heq rfl
    rw [hhead, (List.cons.inj hlast).1]

theorem Turn.orbit {r : Links α} {l : List α} (h : Turn r l) {a : α} (hhead : r.head = some a)
    {fuel : Nat} (hfuel : l.length ≤ fuel) :
    (orbit r.next a fuel a).tail ++ [a] = l ∧
      ∀ x, x ∈ Ring.orbit r.next a fuel a ↔ x ∈ l := by
  rw [Turn, hhead] at h
  obtain ⟨m, rfl, hp, hnd⟩ := h
  rw [List.length_append, List.length_singleton] at hfuel
  have hlen : m.length < fuel := by omega
  have hout : a ∉ m := (List.nodup_cons.mp hnd).1
  rw [orbit_path hp hout hlen]
  refine ⟨rfl, fun x => ?_⟩
  exact (List.perm_append_singleton a m).mem_iff.symm

omit [DecidableEq α] in
theorem Turn.move {r : Links α} {pre post : List α} {t : α} (h : Turn r (pre ++ t :: post)) :
    Turn ⟨r.next, some t⟩ (post ++ pre ++ [t]) := by
  have hnd := h.nodup
  rw [Turn] at h
  split at h
  · simp at h
  rename_i a _
  obtain ⟨m, heq, hp, -⟩ := h
  refine ⟨post ++ pre, rfl, ?_, ?_⟩
  · rcases List.eq_nil_or_concat post with rfl | ⟨post, b, rfl⟩
    · obtain ⟨rfl, hlast⟩ := List.append_inj' heq rfl
      obtain ⟨rfl, -⟩ := List.cons.inj hlast
      exact hp
    · have hsplit : pre ++ t :: post ++ [b] = m ++ [a] := by simpa using heq
      obtain ⟨rfl, hlast⟩ := List.append_inj' hsplit rfl
      obtain ⟨rfl, -⟩ := List.cons.inj hlast
      have hrot := hp.rotate
      simpa using hrot
  · have hcomm : (t :: (post ++ pre)).Perm (t :: (pre ++ post)) := List.perm_append_comm.cons t
    exact (hcomm.trans List.perm_middle.symm).nodup_iff.mpr hnd

theorem Turn.push {r : Links α} {l : List α} (h : Turn r l) {t : α} (ht : t ∉ l) :
    Turn (push r t) (t :: l) := by
  rw [Turn] at h
  split at h
  · rename_i hhead
    subst h
    simp only [Turn, Ring.push, hhead]
    exact ⟨[], rfl, by simp [Path], by simp⟩
  · rename_i a hhead
    obtain ⟨m, rfl, hp, hnd⟩ := h
    have hta : t ∉ a :: m := fun hm => ht ((List.perm_append_singleton a m).mem_iff.mpr hm)
    obtain ⟨hkeep, hpath⟩ := push_path hhead hp hnd hta
    rw [Turn, hkeep]
    refine ⟨t :: m, rfl, hpath, ?_⟩
    have hperm : (a :: t :: m).Perm (t :: a :: m) := List.Perm.swap _ _ _
    exact hperm.nodup_iff.mpr (List.nodup_cons.mpr ⟨hta, hnd⟩)

/-- What is left when a member is taken out, as a ring from the member behind it. -/
theorem Turn.remove_ring {r : Links α} {pre post m : List α} {t y a : α}
    (h : Turn r (pre ++ t :: post)) (hrest : post ++ pre = y :: m) (hhead : r.head = some a)
    {fuel : Nat} (hfuel : (pre ++ t :: post).length ≤ fuel) :
    ∃ next', Ring.remove r t fuel = ⟨next', some (if a = t then y else a)⟩ ∧
      Turn ⟨next', some y⟩ (m ++ [y]) := by
  obtain ⟨-, hmeet⟩ := h.orbit hhead hfuel
  have hperm : (t :: y :: m).Perm (pre ++ t :: post) := by
    rw [← hrest]
    exact (List.perm_append_comm.cons t).trans List.perm_middle.symm
  have hmem : ∀ x, x ∈ Ring.orbit r.next a fuel a ↔ x ∈ t :: y :: m := by
    intro x
    rw [hmeet, hperm.mem_iff]
  have ha : a ∈ t :: y :: m := by
    have hlast : a ∈ pre ++ t :: post := by
      rw [Turn, hhead] at h
      obtain ⟨l, heq, -⟩ := h
      simp [heq]
    exact hperm.mem_iff.mpr hlast
  have hnd : (t :: y :: m).Nodup := hperm.nodup_iff.mpr h.nodup
  obtain ⟨l, heq, hp, -⟩ := h.move
  obtain ⟨rfl, -⟩ := List.append_inj' heq rfl
  rw [hrest] at hp
  obtain ⟨next', hremove, hpath⟩ := remove_path hhead hp hnd ha hmem
  exact ⟨next', hremove, m, rfl, hpath, (List.nodup_cons.mp hnd).2⟩

theorem Turn.remove {r : Links α} {pre post : List α} {t b : α}
    (h : Turn r (pre ++ t :: (post ++ [b]))) {fuel : Nat}
    (hfuel : (pre ++ t :: (post ++ [b])).length ≤ fuel) :
    Turn (remove r t fuel) (pre ++ (post ++ [b])) := by
  have hhead : r.head = some b := h.head_eq (l := pre ++ t :: post) (by simp)
  have htb : b ≠ t := by
    have hnd := h.nodup
    grind
  cases post with
  | nil =>
    obtain ⟨next', hremove, hturn⟩ := h.remove_ring (y := b) (m := pre) rfl hhead hfuel
    rw [hremove, if_neg htb]
    exact hturn
  | cons y post =>
    obtain ⟨next', hremove, hturn⟩ :=
      h.remove_ring (y := y) (m := post ++ b :: pre) (by simp) hhead hfuel
    have hback : Turn ⟨next', some y⟩ (post ++ b :: (pre ++ [y])) := by simpa using hturn
    have hmoved := hback.move
    rw [hremove, if_neg htb]
    simpa using hmoved

/-- When the head is taken out, the one behind it becomes the head: it has lost its
place as the first of the turn, and is the last. -/
theorem Turn.remove_head {r : Links α} {m : List α} {t y : α} (h : Turn r (y :: m ++ [t]))
    {fuel : Nat} (hfuel : (y :: m ++ [t]).length ≤ fuel) :
    Turn (Ring.remove r t fuel) (m ++ [y]) := by
  have hhead : r.head = some t := h.head_eq rfl
  obtain ⟨next', hremove, hturn⟩ :=
    @Turn.remove_ring _ _ r (y :: m) [] m t y t h rfl hhead fuel hfuel
  rw [hremove, if_pos rfl]
  exact hturn

theorem Turn.remove_last {r : Links α} {t : α} (h : Turn r [t]) (fuel : Nat) :
    Turn (Ring.remove r t fuel) [] := by
  have hhead : r.head = some t := h.head_eq (l := []) rfl
  rw [Turn, hhead] at h
  obtain ⟨m, heq, hp, -⟩ := h
  obtain rfl : m = [] := by simpa using heq
  have hself : r.next t = t := hp
  simp [Ring.remove, hhead, hself, Turn]

omit [DecidableEq α] in
theorem Path.next_mem {a b : α} {l : List α} (h : Path next a l b) :
    ∀ q ∈ a :: l, next q ∈ l ∨ next q = b := by
  induction l generalizing a with
  | nil =>
    intro q hq
    obtain rfl : q = a := by simpa using hq
    exact Or.inr h
  | cons y l ih =>
    obtain ⟨h1, h2⟩ := h
    intro q hq
    rcases List.mem_cons.mp hq with rfl | hq
    · exact Or.inl (h1 ▸ List.mem_cons_self)
    · exact (ih h2 q hq).imp (List.mem_cons_of_mem y) id

theorem Turn.remove_of_not_mem {r : Links α} {l : List α} (h : Turn r l) {t : α} (ht : t ∉ l)
    {fuel : Nat} (hfuel : l.length ≤ fuel) : Ring.remove r t fuel = r := by
  cases hhead : r.head with
  | none => simp [Ring.remove, hhead]
  | some a =>
    obtain ⟨-, hmeet⟩ := h.orbit hhead hfuel
    rw [Turn, hhead] at h
    obtain ⟨m, rfl, hp, -⟩ := h
    have hnot : ∀ q ∈ Ring.orbit r.next a fuel a, ¬ r.next q = t := by
      intro q hq heq
      have hnext := hp.next_mem q ((List.perm_append_singleton a m).mem_iff.mp ((hmeet q).mp hq))
      rw [heq] at hnext
      exact ht (by simpa using hnext)
    have hfind : (Ring.orbit r.next a fuel a).find? (fun q => r.next q = t) = none := by
      simpa using hnot
    have hat : ¬(a = t ∧ r.next a = t) := fun hc => ht (by simp [hc.1])
    simp only [Ring.remove, hhead, if_neg hat, hfind]

end Ring
