import Mathlib

/-!
# Rings of records

Records lie one behind the other in a ring, each in a slot that is at least as long as it.  A
record begins inside the ring and runs past its end instead of around it, into memory that
only such records use.  Positions count from the first record on; a place is a position in
the ring.

A record that is stored stays so while others are written in the free part of the ring.
-/

namespace RecordRing

variable {α : Type*} {ring : Nat} {slot : List α → Nat} {mem mem' : Nat → α} {pos : Nat}
  {r : List α} {rs : List (List α)}

/-- A record at a place. -/
def At (mem : Nat → α) (place : Nat) (r : List α) : Prop :=
  ∀ i (h : i < r.length), mem (place + i) = r[i]

/-- Records from a position on. -/
def Stored (ring : Nat) (slot : List α → Nat) (mem : Nat → α) : Nat → List (List α) → Prop
  | _, [] => True
  | pos, r :: rs => At mem (pos % ring) r ∧ Stored ring slot mem (pos + slot r) rs

/-- The slots of records. -/
def size (slot : List α → Nat) (rs : List (List α)) : Nat := (rs.map slot).sum

@[simp] theorem size_nil : size slot [] = 0 := rfl

@[simp] theorem size_cons : size slot (r :: rs) = slot r + size slot rs := List.sum_cons

@[simp] theorem size_append (rs rs' : List (List α)) :
    size slot (rs ++ rs') = size slot rs + size slot rs' := by
  rw [size, List.map_append, List.sum_append]
  rfl

/-- **Add a record.** -/
theorem stored_append : Stored ring slot mem pos (rs ++ [r]) ↔
    Stored ring slot mem pos rs ∧ At mem ((pos + size slot rs) % ring) r := by
  induction rs generalizing pos with
  | nil => simp [Stored]
  | cons r' rs ih => simp [Stored, ih, and_assoc, Nat.add_assoc]

theorem At.congr (h : At mem pos r) (heq : ∀ i, i < r.length → mem' (pos + i) = mem (pos + i)) :
    At mem' pos r := by
  intro i hi
  rw [heq i hi, h i hi]

theorem places_apart {w n s : Nat} (hbehind : pos + s ≤ w) (hround : w + n ≤ pos + ring) :
    pos % ring + s ≤ w % ring ∨ w % ring + n ≤ pos % ring := by
  have hp := Nat.div_add_mod pos ring
  have hw := Nat.div_add_mod w ring
  have hle : pos / ring ≤ w / ring := Nat.div_le_div_right (by omega)
  rcases Nat.eq_or_lt_of_le hle with heq | hlt
  · rw [← heq] at hw
    omega
  · have hnext : ring * (pos / ring) + ring ≤ ring * (w / ring) := by
      exact Nat.mul_le_mul_left ring hlt
    omega

/-- **Write in the free part.** -/
theorem Stored.write {w n : Nat} (h : Stored ring slot mem pos rs) (hring : 0 < ring)
    (hslot : ∀ r ∈ rs, r.length ≤ slot r) (hbehind : pos + size slot rs ≤ w)
    (hround : w + n ≤ pos + ring)
    (hsame : ∀ i, i < w % ring ∨ w % ring + n ≤ i → mem' i = mem i) :
    Stored ring slot mem' pos rs := by
  induction rs generalizing pos with
  | nil => trivial
  | cons r rs ih =>
    rw [size_cons] at hbehind
    refine ⟨h.1.congr ?_, ih h.2 (List.forall_mem_of_forall_mem_cons hslot) (by omega) (by omega)⟩
    intro i hi
    have hlen := hslot r List.mem_cons_self
    apply hsame
    rcases Nat.eq_zero_or_pos n with hn | hn
    · omega
    · have hapart := @places_apart ring pos w n (slot r) (by omega) hround
      omega

end RecordRing
