import Mathlib.Data.List.Range
import Mathlib.Tactic.Ring

/-!
# Flat byte buffers and rings

A buffer is a function from indices to cells.  `read` and `write` are the two
halves of `memcpy`: a read yields the list of cells of an index range, and a
write replaces the cells of a range by a list.  A ring of capacity `N` lives in
the first `N` cells of a buffer; `ring` lists its live cells in queue order.

The two ring results are `ring_push` and `ring_pop`: the usual two-part copies
at the wrap-around point append to, respectively take from, the queue.
-/

namespace Buf

variable {α : Type*}

/-- The cells `off, off + 1, …, off + n - 1` of a buffer. -/
def read (b : Nat → α) (off n : Nat) : List α :=
  (List.range n).map fun i => b (off + i)

/-- Replace the cells from `off` on by the list `src`. -/
def write (b : Nat → α) (off : Nat) (src : List α) : Nat → α :=
  fun i => if off ≤ i then (src[i - off]?).getD (b i) else b i

@[simp] theorem length_read (b : Nat → α) (off n : Nat) :
    (read b off n).length = n := by
  simp [read]

@[simp] theorem read_zero (b : Nat → α) (off : Nat) : read b off 0 = [] := rfl

@[simp] theorem getElem_read (b : Nat → α) (off n i : Nat)
    (h : i < (read b off n).length) : (read b off n)[i] = b (off + i) := by
  simp [read]

theorem read_add (b : Nat → α) (off m n : Nat) :
    read b off (m + n) = read b off m ++ read b (off + m) n := by
  simp [read, List.range_add, Nat.add_assoc]

theorem take_read (b : Nat → α) (off n k : Nat) :
    (read b off n).take k = read b off (min k n) := by
  simp [read, ← List.map_take, List.take_range]

theorem drop_read (b : Nat → α) (off n k : Nat) :
    (read b off n).drop k = read b (off + k) (n - k) := by
  apply List.ext_getElem
  · simp
  · simp [Nat.add_assoc]

theorem read_congr {b c : Nat → α} {off n : Nat}
    (h : ∀ i, i < n → b (off + i) = c (off + i)) :
    read b off n = read c off n := by
  apply List.map_congr_left
  intro i hi
  exact h i (List.mem_range.mp hi)

theorem write_of_lt {b : Nat → α} {off i : Nat} {src : List α} (h : i < off) :
    write b off src i = b i := by
  simp [write, Nat.not_le.mpr h]

theorem write_of_ge {b : Nat → α} {off i : Nat} {src : List α}
    (h : off + src.length ≤ i) : write b off src i = b i := by
  have hnone : src[i - off]? = none := List.getElem?_eq_none (by omega)
  simp [write, hnone]

theorem write_of_mem {b : Nat → α} {off i : Nat} {src : List α}
    (h : i < src.length) : write b off src (off + i) = src[i] := by
  simp [write, h]

theorem write_zero_of_mem {b : Nat → α} {i : Nat} {src : List α} (h : i < src.length) :
    write b 0 src i = src[i] := by
  simp [write, h]

@[simp] theorem write_nil (b : Nat → α) (off : Nat) : write b off [] = b := by
  funext i
  simp [write]

theorem read_write_self (b : Nat → α) (off : Nat) (src : List α) :
    read (write b off src) off src.length = src := by
  apply List.ext_getElem
  · simp
  · intro i h1 h2
    rw [getElem_read, write_of_mem h2]

theorem read_write_disjoint {b : Nat → α} {off off' n : Nat} {src : List α}
    (h : off' + n ≤ off ∨ off + src.length ≤ off') :
    read (write b off src) off' n = read b off' n := by
  apply read_congr
  intro i hi
  rcases h with h | h
  · exact write_of_lt (by omega)
  · exact write_of_ge (by omega)

theorem write_append (b : Nat → α) (off : Nat) (s t : List α) :
    write b off (s ++ t) = write (write b off s) (off + s.length) t := by
  funext i
  by_cases h1 : i < off
  · rw [write_of_lt h1, write_of_lt (by omega), write_of_lt h1]
  · obtain ⟨j, rfl⟩ : ∃ j, i = off + j := ⟨i - off, by omega⟩
    by_cases h2 : j < s.length
    · rw [write_of_mem (by simp; omega), write_of_lt (by omega), write_of_mem h2,
        List.getElem_append_left h2]
    · by_cases h3 : j < s.length + t.length
      · obtain ⟨k, rfl⟩ : ∃ k, j = s.length + k := ⟨j - s.length, by omega⟩
        rw [write_of_mem (by simp; omega), ← Nat.add_assoc, write_of_mem (by omega)]
        simp
      · rw [write_of_ge (by simp; omega), write_of_ge (by omega), write_of_ge (by omega)]

/-- The live cells of a ring of capacity `N`, oldest first. -/
def ring (N : Nat) (b : Nat → α) (head count : Nat) : List α :=
  (List.range count).map fun i => b ((head + i) % N)

@[simp] theorem length_ring (N : Nat) (b : Nat → α) (head count : Nat) :
    (ring N b head count).length = count := by
  simp [ring]

@[simp] theorem getElem_ring (N : Nat) (b : Nat → α) (head count i : Nat)
    (h : i < (ring N b head count).length) :
    (ring N b head count)[i] = b ((head + i) % N) := by
  simp [ring]

@[simp] theorem ring_zero (N : Nat) (b : Nat → α) (head : Nat) :
    ring N b head 0 = [] := rfl

theorem wrap_index {N i : Nat} (h : i < 2 * N) :
    i % N = if i < N then i else i - N := by
  by_cases hi : i < N
  · simp [hi, Nat.mod_eq_of_lt hi]
  · rw [if_neg hi, Nat.mod_eq_sub_mod (by omega), Nat.mod_eq_of_lt (by omega)]

/-- The two-part copy that takes `n` cells off the front of a ring. -/
def ringRead (N : Nat) (b : Nat → α) (head n : Nat) : List α :=
  read b head (min n (N - head)) ++ read b 0 (n - min n (N - head))

/-- The two-part copy that puts `src` behind the live cells of a ring. -/
def ringWrite (N : Nat) (b : Nat → α) (tail : Nat) (src : List α) : Nat → α :=
  write (write b tail (src.take (min src.length (N - tail)))) 0
    (src.drop (min src.length (N - tail)))

/-- **Pop.**  The two-part copy yields the first cells of the queue, and what is
left is the queue without them. -/
theorem ring_pop {N head count n : Nat} (b : Nat → α) (hh : head < N)
    (hc : count ≤ N) (hn : n ≤ count) :
    ringRead N b head n = (ring N b head count).take n ∧
      ring N b ((head + n) % N) (count - n) = (ring N b head count).drop n := by
  constructor
  · apply List.ext_getElem
    · simp [ringRead]; omega
    · intro i h1 h2
      have hi : i < n := by simp at h2; omega
      rw [List.getElem_take, getElem_ring, wrap_index (by omega)]
      by_cases hb : i < min n (N - head)
      · simp only [ringRead]
        rw [List.getElem_append_left (by simpa using hb), getElem_read, if_pos (by omega)]
      · simp only [ringRead]
        rw [List.getElem_append_right (by simp; omega), getElem_read,
          if_neg (by omega)]
        congr 1
        simp
        omega
  · apply List.ext_getElem
    · simp
    · intro i h1 h2
      simp only [getElem_ring, List.getElem_drop, Nat.mod_add_mod]
      congr 2
      omega

theorem ringWrite_of_live {N head count i : Nat} (b : Nat → α) (src : List α)
    (hh : head < N) (hfit : count + src.length ≤ N) (hi : i < count) :
    ringWrite N b ((head + count) % N) src ((head + i) % N) = b ((head + i) % N) := by
  have ht := wrap_index (N := N) (i := head + count) (by omega)
  have hj := wrap_index (N := N) (i := head + i) (by omega)
  have hl : (src.drop (min src.length (N - (head + count) % N))).length =
      src.length - min src.length (N - (head + count) % N) := by simp
  unfold ringWrite
  rw [write_of_ge (by split at ht <;> split at hj <;> omega)]
  split at ht <;> split at hj
  · exact write_of_lt (by omega)
  · exact write_of_lt (by omega)
  · exact write_of_ge (by simp; omega)
  · exact write_of_lt (by omega)

theorem ringWrite_of_new {N head count i : Nat} (b : Nat → α) (src : List α)
    (hh : head < N) (hfit : count + src.length ≤ N) (hi : i < src.length) :
    ringWrite N b ((head + count) % N) src ((head + (count + i)) % N) = src[i] := by
  have ht := wrap_index (N := N) (i := head + count) (by omega)
  have hj := wrap_index (N := N) (i := head + (count + i)) (by omega)
  by_cases hfirst : i < N - (head + count) % N
  · have hpos : (head + (count + i)) % N = (head + count) % N + i := by
      split at ht <;> split at hj <;> omega
    unfold ringWrite
    rw [hpos, write_of_ge (by simp; omega), write_of_mem (by simp; omega)]
    simp
  · have hpos : (head + (count + i)) % N = 0 + (i - (N - (head + count) % N)) := by
      split at ht <;> split at hj <;> omega
    unfold ringWrite
    rw [hpos, write_of_mem (by simp; omega)]
    simp only [List.getElem_drop]
    congr 1
    omega

/-- **Push.**  Copying `src` behind the live cells in two parts appends it to
the queue. -/
theorem ring_push {N head count : Nat} (b : Nat → α) (src : List α)
    (hh : head < N) (hfit : count + src.length ≤ N) :
    ring N (ringWrite N b ((head + count) % N) src) head (count + src.length) =
      ring N b head count ++ src := by
  apply List.ext_getElem
  · simp
  · intro i h1 h2
    rw [getElem_ring]
    by_cases hi : i < count
    · rw [List.getElem_append_left (by simpa using hi), getElem_ring,
        ringWrite_of_live b src hh hfit hi]
    · obtain ⟨j, rfl⟩ : ∃ j, i = count + j := ⟨i - count, by omega⟩
      have hj : j < src.length := by simp at h1; omega
      rw [List.getElem_append_right (by simp), ringWrite_of_new b src hh hfit hj]
      simp

theorem ring_push_one {N head count : Nat} (b : Nat → α) (x : α) (hh : head < N)
    (hfit : count < N) :
    ring N (Function.update b ((head + count) % N) x) head (count + 1) =
      ring N b head count ++ [x] := by
  apply List.ext_getElem
  · simp
  · intro i h1 h2
    have hi : i ≤ count := by simpa [Nat.lt_succ_iff] using h1
    rcases Nat.lt_or_eq_of_le hi with hlt | rfl
    · -- Two cells less than `N` apart are different cells.
      have hne : (head + i) % N ≠ (head + count) % N := by
        have hcell := wrap_index (N := N) (i := head + i) (by omega)
        have hend := wrap_index (N := N) (i := head + count) (by omega)
        split at hcell <;> split at hend <;> omega
      rw [List.getElem_append_left (by simpa using hlt), getElem_ring, getElem_ring,
        Function.update_of_ne hne]
    · simp

theorem ring_succ {N head : Nat} (b : Nat → α) (hh : head < N) (count : Nat) :
    ring N b head (count + 1) = b head :: ring N b ((head + 1) % N) count := by
  apply List.ext_getElem
  · simp
  · intro i h1 h2
    cases i with
    | zero => simp [Nat.mod_eq_of_lt hh]
    | succ i =>
      simp only [getElem_ring, List.getElem_cons_succ, Nat.mod_add_mod]
      congr 2
      omega

end Buf
