import Mathlib.Data.Nat.ModEq

/-!
# Rings with a phase bit

A ring of `size` slots between a writer and a reader that share nothing but its memory.
Each entry carries a bit, and on each lap the writer writes the other value: the entry in a
slot is new exactly if its bit is that of the lap the reader is on.

Positions count all entries ever written or read.  `Holds` relates the slots to the list of
everything written and the number of entries read; it survives a write while there is room
and a read while there is something to read.
-/

namespace PhaseRing

variable {α : Type*} {size : Nat} {bit : α → Bool} {slots : Nat → α} {written : List α}
  {read : Nat}

/-- The bit of a position: set on the first lap, and the other on each next one. -/
def phase (size i : Nat) : Bool := decide (i / size % 2 = 0)

/-- A slot that moves on. -/
def nextSlot (size i : Nat) : Nat := if i + 1 = size then 0 else i + 1

theorem nextSlot_mod (hsize : 0 < size) (i : Nat) : nextSlot size (i % size) = (i + 1) % size := by
  have hlt := Nat.mod_lt i hsize
  rw [nextSlot, Nat.add_mod i 1 size]
  split
  · next hwrap =>
    by_cases hone : size = 1
    · simp [hone, Nat.mod_one]
    · rw [Nat.mod_eq_of_lt (by omega : 1 < size), hwrap, Nat.mod_self]
  · next hwrap =>
    have hone : 1 < size := by omega
    have hsmall : i % size + 1 < size := by omega
    rw [Nat.mod_eq_of_lt hone, Nat.mod_eq_of_lt hsmall]

theorem phase_succ (i : Nat) :
    phase size (i + 1) = if (i + 1) % size = 0 then !phase size i else phase size i := by
  have hdiv : (i + 1) / size = i / size + if size ∣ i + 1 then 1 else 0 := Nat.succ_div
  by_cases hwrap : (i + 1) % size = 0
  · rw [if_pos (Nat.dvd_of_mod_eq_zero hwrap)] at hdiv
    rw [if_pos hwrap, phase, phase, hdiv]
    grind
  · rw [if_neg (fun h => hwrap (Nat.mod_eq_zero_of_dvd h))] at hdiv
    rw [if_neg hwrap, phase, phase, hdiv, Nat.add_zero]

theorem phase_lap (hsize : 0 < size) (i : Nat) : phase size (i + size) = !phase size i := by
  rw [phase, phase, Nat.add_div_right i hsize]
  grind

theorem mod_ne {i j : Nat} (hlt : i < j) (hlap : j < i + size) : i % size ≠ j % size := by
  intro heq
  have hdvd := (Nat.modEq_iff_dvd' hlt.le).mp heq
  have := Nat.le_of_dvd (by omega) hdvd
  omega

theorem prefix_concat {l m : List α} (h : l <+: m) (hlt : l.length < m.length) :
    l ++ [m[l.length]] <+: m := by
  obtain ⟨rest, rfl⟩ := h
  cases rest with
  | nil => simp at hlt
  | cons x rest => exact ⟨rest, by simp⟩

/-- The slots after `written` was written and `read` entries of it were read. -/
structure Holds (size : Nat) (bit : α → Bool) (slots : Nat → α) (written : List α) (read : Nat) :
    Prop where
  le : read ≤ written.length
  room : written.length ≤ read + size
  bits : ∀ i e, written[i]? = some e → bit e = phase size i
  unread : ∀ i e, read ≤ i → written[i]? = some e → slots (i % size) = e
  stale : ∀ i, written.length ≤ i → i < read + size → bit (slots (i % size)) ≠ phase size i

theorem Holds.init (hzero : ∀ i, i < size → bit (slots i) = false) :
    Holds size bit slots [] 0 where
  le := Nat.le_refl 0
  room := Nat.zero_le _
  bits := by simp
  unread := by simp
  stale := by
    intro i _ hi
    have hlt : i < size := by omega
    have hfirst : phase size i = true := by simp [phase, Nat.div_eq_of_lt hlt]
    rw [Nat.mod_eq_of_lt hlt, hzero i hlt, hfirst]
    exact Bool.false_ne_true

/-- **The reader sees what is new.** -/
theorem Holds.new_iff (h : Holds size bit slots written read) (hsize : 0 < size) :
    bit (slots (read % size)) = phase size read ↔ read < written.length := by
  constructor
  · intro hbit
    by_contra hle
    exact h.stale read (by omega) (by omega) hbit
  · intro hlt
    have hget := List.getElem?_eq_getElem hlt
    rw [h.unread read _ (Nat.le_refl read) hget]
    exact h.bits read _ hget

theorem Holds.get (h : Holds size bit slots written read) (hlt : read < written.length) :
    slots (read % size) = written[read] :=
  h.unread read _ (Nat.le_refl read) (List.getElem?_eq_getElem hlt)

theorem Holds.write (h : Holds size bit slots written read) (hroom : written.length < read + size)
    {e : α} (he : bit e = phase size written.length) :
    Holds size bit (Function.update slots (written.length % size) e) (written ++ [e]) read where
  le := by
    have := h.le
    simp
    omega
  room := by
    simp
    omega
  bits := by
    intro i x hx
    have := h.bits i x
    grind
  unread := by
    intro i x hi hx
    by_cases hlast : i = written.length
    · have hxe : x = e := by grind
      rw [hlast, Function.update_self, hxe]
    · have hlt : i < written.length := by grind
      have hold : written[i]? = some x := by grind
      rw [Function.update_of_ne (mod_ne hlt (by omega))]
      exact h.unread i x hi hold
  stale := by
    intro i hi hlt
    rw [List.length_append, List.length_singleton] at hi
    have hle := h.le
    have hne : written.length % size ≠ i % size := mod_ne (by omega) (by omega)
    rw [Function.update_of_ne hne.symm]
    exact h.stale i (by omega) hlt

theorem Holds.read_next (h : Holds size bit slots written read) (hsize : 0 < size)
    (hlt : read < written.length) : Holds size bit slots written (read + 1) where
  le := hlt
  room := by
    have := h.room
    omega
  bits := h.bits
  unread := fun i e hi => h.unread i e (by omega)
  stale := by
    intro i hi hlap
    by_cases hlast : i = read + size
    · have hget := List.getElem?_eq_getElem hlt
      rw [hlast, Nat.add_mod_right, h.get hlt, h.bits read _ hget, phase_lap hsize]
      grind
    · exact h.stale i hi (by omega)

theorem Holds.congr (h : Holds size bit slots written read) (hsize : 0 < size) {slots' : Nat → α}
    (heq : ∀ i, i < size → slots' i = slots i) : Holds size bit slots' written read where
  le := h.le
  room := h.room
  bits := h.bits
  unread := by
    intro i e hi he
    rw [heq _ (Nat.mod_lt i hsize)]
    exact h.unread i e hi he
  stale := by
    intro i hi hlt
    rw [heq _ (Nat.mod_lt i hsize)]
    exact h.stale i hi hlt

theorem Holds.touch (h : Holds size bit slots written read) (hroom : written.length < read + size)
    {e : α} (he : bit e = bit (slots (written.length % size))) :
    Holds size bit (Function.update slots (written.length % size) e) written read where
  le := h.le
  room := h.room
  bits := h.bits
  unread := by
    intro i x hi hx
    have hlt : i < written.length := (List.getElem?_eq_some_iff.mp hx).1
    rw [Function.update_of_ne (mod_ne hlt (by omega))]
    exact h.unread i x hi hx
  stale := by
    intro i hi hlt
    by_cases hlast : i = written.length
    · rw [hlast, Function.update_self, he]
      exact h.stale _ (Nat.le_refl _) hroom
    · have hle := h.le
      have hne : written.length % size ≠ i % size := mod_ne (by omega) (by omega)
      rw [Function.update_of_ne hne.symm]
      exact h.stale i hi hlt

end PhaseRing
