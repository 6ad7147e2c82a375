import StrawOS.Lib.Probing
import Mathlib.Data.UInt

/-!
# The table of users

`store_user`, `user_insert`, `user_update` and `store_reset` of `store.c`.  A record is its
id and its address; the table is open addressed and grows before it is more than half full.
`calloc` fails when the table or the record is not granted and when the size of the table
does not fit in 64 bits.
-/

namespace Discord

/-- A `User` record. -/
structure User where
  id : UInt64
  ptr : Nat
  deriving DecidableEq

/-- `user_table` of `user_cap` slots and `user_count`.  `log` holds the records that were
stored since the last reset. -/
structure Users where
  slots : List (Option User)
  count : Nat
  log : List User

def Users.empty : Users := ⟨[], 0, []⟩

/-- A position in a table of a capacity that is a power of two. -/
def mask (cap i : Nat) : Nat := i &&& (cap - 1)

def userHash (id : UInt64) : Nat := (id * 0x9E3779B97F4A7C15).toNat

/-- `store_user`. -/
def storeUser (s : Users) (id : UInt64) : Option (Option User) :=
  if s.slots = [] ∨ id = 0 then some none
  else Probing.find (mask s.slots.length) User.id userHash s.slots id

/-- The end of `user_insert`, on a table with room. -/
def place (s : Users) (slots : List (Option User)) (u : User) : Option Users :=
  (Probing.insert (mask slots.length) User.id userHash slots u).map fun slots =>
    ⟨slots, s.count + 1, s.log ++ [u]⟩

/-- `user_insert`; `grow` is whether a larger table is granted. -/
def userInsert (s : Users) (grow : Bool) (u : User) : Option Users :=
  if s.slots.length < (s.count + 1) * 2 then
    let cap := if s.slots.length = 0 then 1024 else s.slots.length * 2
    if grow = false ∨ 2 ^ 64 ≤ cap * 8 then some s
    else (Probing.rehash (mask cap) User.id userHash s.slots (List.replicate cap none)).bind
      fun slots => place s slots u
  else place s s.slots u

/-- `user_update`, without the other fields of the record; `fresh` is the address of a new
one. -/
def userUpdate (s : Users) (id : UInt64) (fresh : Option Nat) (grow : Bool) :
    Option (Option User × Users) :=
  if id = 0 then some (none, s)
  else (storeUser s id).bind fun found =>
    match found, fresh with
    | some u, _ => some (some u, s)
    | none, none => some (none, s)
    | none, some ptr => (userInsert s grow ⟨id, ptr⟩).map fun s => (some ⟨id, ptr⟩, s)

inductive UserOp
  | update (id : UInt64) (fresh : Option Nat) (grow : Bool)
  | reset

/-- A call; nothing when it does not return. -/
def userStep (s : Users) : UserOp → Option Users
  | .update id fresh grow => (userUpdate s id fresh grow).map Prod.snd
  | .reset => some .empty

/-- The table holds the records of the log and is at most half full. -/
structure Users.Ok (s : Users) : Prop where
  cap : s.slots.length = 0 ∨ ∃ k, s.slots.length = 2 ^ k
  half : 2 * s.count ≤ s.slots.length
  table : Probing.Ok User.id userHash s.slots
  count : s.count = s.log.length
  entries : s.slots.reduceOption.Perm s.log
  nonzero : ∀ u ∈ s.log, u.id ≠ 0

variable {s : Users}

theorem mask_two_pow (k i : Nat) : mask (2 ^ k) i = i % 2 ^ k := Nat.and_two_pow_sub_one_eq_mod i k

theorem Users.Ok.empty : Users.empty.Ok :=
  ⟨.inl rfl, Nat.le_refl 0, ⟨fun i _ h => by simp [Probing.slot, Users.empty] at h, .nil⟩, rfl, .nil,
    fun _ h => by cases h⟩

/-- **A search ends and finds the record that was stored.** -/
theorem Users.Ok.storeUser (h : s.Ok) (id : UInt64) :
    storeUser s id = some (s.log.find? fun u => u.id == id) := by
  rw [Discord.storeUser]
  split
  · rename_i hnone
    rw [eq_comm, Option.some.injEq, List.find?_eq_none]
    rcases hnone with hnil | rfl
    · have hlog : s.log = [] := by simpa [hnil] using h.entries
      simp [hlog]
    · simpa using h.nonzero
  · rename_i hsome
    rw [not_or] at hsome
    obtain ⟨k, hk⟩ := h.cap.resolve_left fun h0 => hsome.1 (List.eq_nil_of_length_eq_zero h0)
    have hpos := Nat.two_pow_pos k
    have hlen := h.entries.length_eq
    have hhalf := h.half
    have hcount := h.count
    have hwrap : ∀ i, mask s.slots.length i = i % s.slots.length := hk ▸ mask_two_pow k
    obtain ⟨r, hr, hfound⟩ := h.table.find hwrap (by omega) id
    rw [hr, Option.some.injEq]
    have hlog : ∀ u, r = some u ↔ u ∈ s.log ∧ u.id = id := by
      intro u
      rw [hfound, h.entries.mem_iff]
    cases hf : s.log.find? fun u => u.id == id with
    | none =>
      rw [List.find?_eq_none] at hf
      refine Option.eq_none_iff_forall_ne_some.2 fun u hu => ?_
      obtain ⟨hmem, hid⟩ := (hlog u).1 hu
      exact hf u hmem (by simp [hid])
    | some u => exact (hlog u).2 ⟨List.mem_of_find?_eq_some hf, by simpa using List.find?_some hf⟩

/-- A record with a new id is put into a table that has room. -/
theorem place_ok {slots : List (Option User)} {u : User} {k : Nat} (hlen : slots.length = 2 ^ k)
    (htable : Probing.Ok User.id userHash slots) (hentries : slots.reduceOption.Perm s.log)
    (hcount : s.count = s.log.length) (hroom : 2 * (s.count + 1) ≤ slots.length)
    (hnew : u.id ∉ s.log.map User.id) (hzero : ∀ u ∈ s.log, u.id ≠ 0) (hu : u.id ≠ 0) :
    ∃ s', place s slots u = some s' ∧ s'.Ok := by
  have hsize := hentries.length_eq
  have hwrap : ∀ i, mask slots.length i = i % slots.length := hlen ▸ mask_two_pow k
  obtain ⟨t, ht, hok, hlen', hperm⟩ := htable.insert (e := u) hwrap (by omega)
    fun hmem => hnew ((hentries.map User.id).mem_iff.1 hmem)
  refine ⟨_, by rw [place, ht]; rfl, ⟨.inr ⟨k, hlen'.trans hlen⟩, ?_, hok, ?_, ?_, ?_⟩⟩
  · rw [hlen']
    exact hroom
  · rw [List.length_append, hcount]
    rfl
  · exact hperm.trans ((hentries.cons u).trans (List.perm_append_singleton u s.log).symm)
  · intro v hv
    rcases List.mem_append.1 hv with hold | hlast
    · exact hzero v hold
    · rwa [List.mem_singleton.1 hlast]

theorem Users.Ok.userInsert (h : s.Ok) (grow : Bool) {u : User} (hu : u.id ≠ 0)
    (hnew : u.id ∉ s.log.map User.id) : ∃ s', userInsert s grow u = some s' ∧ s'.Ok := by
  have hlen := h.entries.length_eq
  have hcount := h.count
  have hhalf := h.half
  rw [Discord.userInsert]
  split
  · dsimp only
    obtain ⟨k, hk⟩ : ∃ k, (if s.slots.length = 0 then 1024 else s.slots.length * 2) = 2 ^ k := by
      split
      · exact ⟨10, rfl⟩
      · obtain ⟨k, hk⟩ := h.cap.resolve_left ‹_›
        exact ⟨k + 1, by rw [hk, Nat.pow_succ]⟩
    have hroom : 2 * (s.count + 1) ≤ 2 ^ k := by
      rw [← hk]
      split <;> omega
    rw [hk]
    split
    · exact ⟨s, rfl, h⟩
    have hdistinct := h.table.distinct
    obtain ⟨t, ht, hok, hlen', hperm⟩ := (Probing.ok_replicate (2 ^ k)).rehash
      (fun i => mask_two_pow k i) s.slots List.length_replicate (by simp; omega) (by simpa)
    obtain ⟨s', hs', hok'⟩ := place_ok hlen' hok ((by simpa using hperm : t.reduceOption.Perm _).trans h.entries)
      hcount (by omega) hnew h.nonzero hu
    exact ⟨s', by rw [ht]; exact hs', hok'⟩
  · obtain ⟨k, hk⟩ := h.cap.resolve_left (by omega)
    exact place_ok hk h.table h.entries hcount (by omega) hnew h.nonzero hu

/-- **Step lemma.** -/
theorem Users.Ok.step (h : s.Ok) (op : UserOp) : ∃ s', userStep s op = some s' ∧ s'.Ok := by
  cases op with
  | reset => exact ⟨_, rfl, .empty⟩
  | update id fresh grow =>
    rw [userStep, userUpdate]
    split
    · exact ⟨s, rfl, h⟩
    rename_i hid
    rw [h.storeUser]
    cases hf : s.log.find? fun u => u.id == id with
    | some u => exact ⟨s, rfl, h⟩
    | none =>
      cases fresh with
      | none => exact ⟨s, rfl, h⟩
      | some ptr =>
        obtain ⟨s', hs', hok⟩ := h.userInsert grow (u := ⟨id, ptr⟩) hid (by simpa using hf)
        exact ⟨s', by simp [hs'], hok⟩

end Discord
