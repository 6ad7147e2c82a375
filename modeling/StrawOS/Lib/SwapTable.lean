import Mathlib.Data.List.Perm.Basic

/-!
# Tables with swap removal

An array whose order does not matter loses an entry by moving its last entry into
the hole.  `sweepOut` is the loop that removes all entries of a kind while it goes
over the array: it does not advance after a removal, since the entry that came from
the end has not been looked at.
-/

namespace SwapTable

variable {α σ : Type*}

/-- Move the last entry to position `i` and cut the end off. -/
def swapRemove (l : List α) (i : Nat) : List α :=
  match l.getLast? with
  | none => l
  | some last => (l.set i last).dropLast

theorem length_swapRemove {l : List α} {i : Nat} (h : i < l.length) :
    (swapRemove l i).length + 1 = l.length := by
  rw [swapRemove]
  cases hl : l.getLast? with
  | none =>
    rw [List.getLast?_eq_none_iff.mp hl] at h
    simp at h
  | some last =>
    rw [List.length_dropLast, List.length_set]
    omega

/-- What is left, with the entry that was removed, is what there was. -/
theorem swapRemove_perm {l : List α} {i : Nat} (h : i < l.length) :
    (l[i] :: swapRemove l i).Perm l := by
  rcases List.eq_nil_or_concat' l with rfl | ⟨init, last, rfl⟩
  · simp at h
  rw [List.length_append, List.length_singleton] at h
  have hremove : swapRemove (init ++ [last]) i = ((init ++ [last]).set i last).dropLast := by
    rw [swapRemove, List.getLast?_concat]
  rw [hremove]
  by_cases hi : i < init.length
  · rw [List.set_append_left i last hi, List.dropLast_concat, List.getElem_append_left hi]
    calc (init[i] :: init.set i last).Perm (init[i] :: last :: init.eraseIdx i) :=
          (List.set_perm_cons_eraseIdx hi last).cons _
      _ |>.Perm (last :: init[i] :: init.eraseIdx i) := List.Perm.swap _ _ _
      _ |>.Perm (last :: init) := (List.getElem_cons_eraseIdx_perm hi).cons _
      _ |>.Perm (init ++ [last]) := (List.perm_append_singleton last init).symm
  · obtain rfl : i = init.length := by omega
    simpa using (List.perm_append_singleton last init).symm

/-- Remove the entries of a kind from position `i` on, with an action for each. -/
def sweepOut (p : α → Bool) (f : σ → α → σ) (s : σ) (l : List α) (i : Nat) : σ × List α :=
  if h : i < l.length then
    if p l[i] then sweepOut p f (f s l[i]) (swapRemove l i) i else sweepOut p f s l (i + 1)
  else (s, l)
termination_by l.length - i
decreasing_by
  · have := length_swapRemove h
    omega
  · omega

theorem take_swapRemove {l : List α} {i : Nat} (h : i < l.length) :
    (swapRemove l i).take i = l.take i := by
  rw [swapRemove]
  cases hl : l.getLast? with
  | none => rfl
  | some last =>
    dsimp only
    rw [List.dropLast_eq_take, List.take_take, List.length_set, Nat.min_eq_left (by omega),
      List.take_set_of_le (Nat.le_refl i)]

/-- The loop acts once on each entry of the kind, and the others are left. -/
theorem sweepOut_spec (p : α → Bool) (f : σ → α → σ) (s : σ) (l : List α) (i : Nat)
    (hseen : ∀ x ∈ l.take i, p x = false) :
    ∃ removed : List α, (sweepOut p f s l i).1 = removed.foldl f s ∧
      (removed ++ (sweepOut p f s l i).2).Perm l ∧ (∀ x ∈ removed, p x = true) ∧
      ∀ x ∈ (sweepOut p f s l i).2, p x = false := by
  fun_induction sweepOut p f s l i with
  | case1 s l i h hp ih =>
    obtain ⟨removed, h1, h2, h3, h4⟩ := ih (by rw [take_swapRemove h]; exact hseen)
    refine ⟨l[i] :: removed, h1, ?_, ?_, h4⟩
    · exact (h2.cons l[i]).trans (swapRemove_perm h)
    · grind
  | case2 s l i h hp ih =>
    refine ih ?_
    intro x hx
    rw [List.take_add_one, List.mem_append] at hx
    rcases hx with hx | hx
    · exact hseen x hx
    · grind
  | case3 s l i h =>
    refine ⟨[], rfl, List.Perm.refl l, by simp, ?_⟩
    rw [List.take_of_length_le (by omega)] at hseen
    exact hseen

theorem sweepOut_zero (p : α → Bool) (f : σ → α → σ) (s : σ) (l : List α) :
    ∃ removed : List α, (sweepOut p f s l 0).1 = removed.foldl f s ∧ removed.Perm (l.filter p) ∧
      (sweepOut p f s l 0).2.Perm (l.filter fun x => !p x) := by
  obtain ⟨removed, h1, h2, h3, h4⟩ := sweepOut_spec p f s l 0 (by simp)
  refine ⟨removed, h1, ?_, ?_⟩
  · have hp := h2.filter p
    rw [List.filter_append, List.filter_eq_self.mpr h3,
      List.filter_eq_nil_iff.mpr fun x hx => by simp [h4 x hx], List.append_nil] at hp
    exact hp
  · have hp := h2.filter fun x => !p x
    rw [List.filter_append, List.filter_eq_nil_iff.mpr fun x hx => by simp [h3 x hx],
      List.filter_eq_self.mpr fun x hx => by simp [h4 x hx], List.nil_append] at hp
    exact hp

end SwapTable
