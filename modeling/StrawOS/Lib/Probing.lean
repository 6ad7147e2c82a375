import Mathlib.Data.List.ReduceOption
import Mathlib.Data.List.Nodup
import Mathlib.Data.Nat.Find

/-!
# Hash tables with linear probing

The slots of a table form a ring.  An entry is put into the first free slot from the one on
that its key is hashed to, so every slot between the two is taken (`Table.Ok.chained`), and
a search that goes on to a free slot does not miss it.  `wrap` is what brings a position back
into the ring.
-/

namespace Probing

variable {α κ : Type*} {wrap : Nat → Nat} {key : α → κ} {hash : κ → Nat}
  {t : List (Option α)} {k : κ} {e : α}

def slot (t : List (Option α)) (i : Nat) : Option α := t[i]?.join

/-- The walk around the ring to the first slot that stops it; nothing when the fuel runs out. -/
def walk (wrap : Nat → Nat) (stop : Nat → Bool) : Nat → Nat → Option Nat
  | 0, _ => none
  | fuel + 1, i => if stop i then some i else walk wrap stop fuel (wrap (i + 1))

/-- The search for a key ends at its entry or at a free slot. -/
def find [DecidableEq κ] (wrap : Nat → Nat) (key : α → κ) (hash : κ → Nat) (t : List (Option α)) (k : κ) :
    Option (Option α) :=
  (walk wrap (fun i => (slot t i).all fun e => key e == k) t.length (wrap (hash k))).map (slot t)

/-- An entry is put into a table. -/
def insert (wrap : Nat → Nat) (key : α → κ) (hash : κ → Nat) (t : List (Option α)) (e : α) :
    Option (List (Option α)) :=
  (walk wrap (fun i => (slot t i).isNone) t.length (wrap (hash (key e)))).map fun i => t.set i (some e)

/-- The entries of an old table are put into a new one. -/
def rehash (wrap : Nat → Nat) (key : α → κ) (hash : κ → Nat) :
    List (Option α) → List (Option α) → Option (List (Option α))
  | [], t => some t
  | none :: old, t => rehash wrap key hash old t
  | some e :: old, t => (insert wrap key hash t e).bind (rehash wrap key hash old)

/-- A table whose entries are found: no free slot lies before one, and the keys differ. -/
structure Ok (key : α → κ) (hash : κ → Nat) (t : List (Option α)) : Prop where
  chained : ∀ i e, slot t i = some e → ∃ p, (hash (key e) + p) % t.length = i ∧
    ∀ q < p, slot t ((hash (key e) + q) % t.length) ≠ none
  distinct : (t.reduceOption.map key).Nodup

theorem slot_eq_some {i : Nat} : slot t i = some e ↔ t[i]? = some (some e) := by
  rw [slot, Option.join_eq_some_iff]

theorem slot_eq_none {i : Nat} (hi : i < t.length) : slot t i = none ↔ t[i]? = some none := by
  rw [slot, List.getElem?_eq_getElem hi]
  simp

theorem mem_entries : e ∈ t.reduceOption ↔ ∃ i, slot t i = some e := by
  rw [List.reduceOption_mem_iff, List.mem_iff_getElem?]
  exact exists_congr fun i => slot_eq_some.symm

theorem slot_set {i j : Nat} (hi : i < t.length) :
    slot (t.set i (some e)) j = if i = j then some e else slot t j := by
  rw [slot, List.getElem?_set, slot]
  split
  · simp
  · rfl

theorem reduceOption_set {i : Nat} (h : t[i]? = some none) :
    (t.set i (some e)).reduceOption.Perm (e :: t.reduceOption) := by
  induction t generalizing i with
  | nil => cases h
  | cons x t ih =>
    cases i with
    | zero =>
      obtain rfl : x = none := by simpa using h
      simp
    | succ i =>
      have hrest := ih (by simpa using h)
      cases x with
      | none => simpa using hrest
      | some x =>
        exact (hrest.cons x).trans (.swap e x _)

theorem ok_replicate (n : Nat) : Ok key hash (List.replicate n none) := by
  have hentries : (List.replicate n (none : Option α)).reduceOption = [] := by simp
  refine ⟨fun i e he => ?_, by simp⟩
  have hmem := mem_entries.2 ⟨i, he⟩
  rw [hentries] at hmem
  cases hmem

section Ring

/-- From every slot on there is a free one within the length of the ring. -/
theorem exists_free (hroom : t.reduceOption.length < t.length) (h : Nat) :
    ∃ p < t.length, slot t ((h + p) % t.length) = none := by
  obtain ⟨j, hj, hfree⟩ := List.getElem_of_mem (List.reduceOption_length_lt_iff.1 hroom)
  have hlt := Nat.mod_lt h (show 0 < t.length by omega)
  refine ⟨(j + t.length - h % t.length) % t.length, Nat.mod_lt _ (by omega), ?_⟩
  have hpos : (h + (j + t.length - h % t.length) % t.length) % t.length = j := by
    rw [Nat.add_mod_mod, ← Nat.mod_add_mod, show h % t.length + (j + t.length - h % t.length) =
      j + t.length by omega, Nat.add_mod_right, Nat.mod_eq_of_lt hj]
  rw [hpos, slot, List.getElem?_eq_getElem hj, hfree]
  rfl

variable (hwrap : ∀ i, wrap i = i % t.length)
include hwrap

/-- A walk that a free slot stops ends at the first slot that does. -/
theorem walk_first (stop : Nat → Bool) (hstop : ∀ i, slot t i = none → stop i = true)
    (hroom : t.reduceOption.length < t.length) (h : Nat) :
    ∃ p, walk wrap stop t.length (wrap h) = some ((h + p) % t.length) ∧
      stop ((h + p) % t.length) = true ∧ ∀ q < p, stop ((h + q) % t.length) = false := by
  obtain ⟨p₀, hp₀, hnone⟩ := exists_free hroom h
  have hlast := hstop _ hnone
  have hloop : ∀ fuel q, q ≤ p₀ → p₀ < q + fuel → ∃ p, q ≤ p ∧
      walk wrap stop fuel ((h + q) % t.length) = some ((h + p) % t.length) ∧ stop ((h + p) % t.length) = true ∧
        ∀ r, q ≤ r → r < p → stop ((h + r) % t.length) = false := by
    intro fuel
    induction fuel with
    | zero =>
      intro q hq hfuel
      omega
    | succ fuel ih =>
      intro q hq hfuel
      rw [walk]
      by_cases hs : stop ((h + q) % t.length) = true
      · exact ⟨q, Nat.le_refl q, if_pos hs, hs, fun r h₁ h₂ => by omega⟩
      · have hne : q ≠ p₀ := fun heq => hs (heq ▸ hlast)
        obtain ⟨p, hqp, hwalk, hp, hpass⟩ := ih (q + 1) (by omega) (by omega)
        rw [if_neg hs, hwrap, Nat.mod_add_mod, Nat.add_assoc]
        refine ⟨p, by omega, hwalk, hp, fun r h₁ h₂ => ?_⟩
        rcases Nat.eq_or_lt_of_le h₁ with rfl | hlt
        · simpa using hs
        · exact hpass r hlt h₂
  obtain ⟨p, -, hwalk, hp, hpass⟩ := hloop t.length 0 (Nat.zero_le _) (by omega)
  rw [hwrap]
  exact ⟨p, hwalk, hp, fun q hq => hpass q (Nat.zero_le q) hq⟩

/-- **A search ends and finds the entry of the key.** -/
theorem Ok.find [DecidableEq κ] (h : Ok key hash t) (hroom : t.reduceOption.length < t.length) (k : κ) :
    ∃ r, Probing.find wrap key hash t k = some r ∧
      ∀ e, r = some e ↔ e ∈ t.reduceOption ∧ key e = k := by
  obtain ⟨p, hwalk, hp, hpass⟩ := walk_first hwrap
    (fun i => (slot t i).all fun e => key e == k) (fun i hi => by simp [hi]) hroom (hash k)
  have hstop : ∀ e, slot t ((hash k + p) % t.length) = some e → key e = k := by
    intro e he
    simpa [he] using hp
  refine ⟨slot t ((hash k + p) % t.length), by rw [Probing.find, hwalk]; rfl, fun e =>
    ⟨fun he => ⟨mem_entries.2 ⟨_, he⟩, hstop e he⟩, fun ⟨hmem, hkey⟩ => ?_⟩⟩
  obtain ⟨i, hi⟩ := mem_entries.1 hmem
  obtain ⟨p', hp', hbefore⟩ := h.chained i e hi
  rw [hkey] at hp' hbefore
  rcases Nat.lt_trichotomy p p' with hlt | rfl | hgt
  · -- The slot it stopped at is taken, so by the entry of the same key.
    obtain ⟨e', he'⟩ := Option.ne_none_iff_exists'.1 (hbefore _ hlt)
    have hsame : key e' = key e := (hstop e' he').trans hkey.symm
    rw [he', List.inj_on_of_nodup_map h.distinct (mem_entries.2 ⟨_, he'⟩) hmem hsame]
  · rw [hp', hi]
  · have hpassed := hpass p' hgt
    simp [hp', hi, hkey] at hpassed

/-- **An entry with a new key is put into a free slot.** -/
theorem Ok.insert (h : Ok key hash t) (hroom : t.reduceOption.length < t.length)
    (hnew : key e ∉ t.reduceOption.map key) :
    ∃ t', Probing.insert wrap key hash t e = some t' ∧ Ok key hash t' ∧ t'.length = t.length ∧
      t'.reduceOption.Perm (e :: t.reduceOption) := by
  obtain ⟨p, hwalk, hp, hpass⟩ := walk_first hwrap
    (fun i => (slot t i).isNone) (fun i hi => by simp [hi]) hroom (hash (key e))
  have hlt := Nat.mod_lt (hash (key e) + p) (show 0 < t.length by omega)
  have hfree := (slot_eq_none hlt).1 (Option.isNone_iff_eq_none.1 hp)
  have hperm := reduceOption_set (e := e) hfree
  refine ⟨_, by rw [Probing.insert, hwalk]; rfl, ⟨?_, ?_⟩, by simp, hperm⟩
  · have hkept : ∀ j, slot t j ≠ none → slot (t.set ((hash (key e) + p) % t.length) (some e)) j ≠ none := by
      intro j hj
      rw [slot_set hlt]
      split
      · simp
      · exact hj
    intro j e' he'
    rw [List.length_set]
    rw [slot_set hlt] at he'
    split at he'
    · rename_i hij
      obtain rfl := Option.some.inj he'
      exact ⟨p, hij, fun q hq => hkept _ (Option.isNone_eq_false_iff.1 (hpass q hq) |> Option.isSome_iff_ne_none.1)⟩
    · obtain ⟨p', hp', hbefore⟩ := h.chained j e' he'
      exact ⟨p', hp', fun q hq => hkept _ (hbefore q hq)⟩
  · rw [(hperm.map key).nodup_iff, List.map_cons, List.nodup_cons]
    exact ⟨hnew, h.distinct⟩

end Ring

/-- **The entries of an old table are put into a larger one.** -/
theorem Ok.rehash {n : Nat} (hwrap : ∀ i, wrap i = i % n) (old : List (Option α))
    (hlen : t.length = n) (h : Ok key hash t)
    (hroom : t.reduceOption.length + old.reduceOption.length < n)
    (hkeys : ((t.reduceOption ++ old.reduceOption).map key).Nodup) :
    ∃ t', Probing.rehash wrap key hash old t = some t' ∧ Ok key hash t' ∧ t'.length = n ∧
      t'.reduceOption.Perm (t.reduceOption ++ old.reduceOption) := by
  induction old generalizing t with
  | nil => exact ⟨t, rfl, h, hlen, by simp⟩
  | cons x old ih =>
    cases x with
    | none => exact ih hlen h (by simpa using hroom) (by simpa using hkeys)
    | some e =>
      rw [List.reduceOption_cons_of_some] at hroom hkeys ⊢
      have hmiddle : (t.reduceOption ++ e :: old.reduceOption).Perm
          (e :: t.reduceOption ++ old.reduceOption) := List.perm_middle
      have hall := ((hmiddle.map key).nodup_iff).1 hkeys
      have hnew : key e ∉ t.reduceOption.map key := by
        rw [List.cons_append, List.map_cons, List.nodup_cons, List.map_append] at hall
        exact fun hmem => hall.1 (List.mem_append_left _ hmem)
      rw [List.length_cons] at hroom
      obtain ⟨t₁, hins, h₁, hlen₁, hperm⟩ := h.insert (by rwa [hlen]) (by omega) hnew
      have hboth := hperm.append_right old.reduceOption
      have hroom₁ : t₁.reduceOption.length + old.reduceOption.length < n := by
        rw [hperm.length_eq, List.length_cons]
        omega
      obtain ⟨t', heq, h', hlen', hperm'⟩ := ih (hlen₁.trans hlen) h₁ hroom₁
        (((hboth.map key).nodup_iff).2 hall)
      refine ⟨t', ?_, h', hlen', hperm'.trans (hboth.trans hmiddle.symm)⟩
      rw [Probing.rehash, hins]
      exact heq

end Probing
