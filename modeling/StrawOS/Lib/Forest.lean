import StrawOS.Lib.Chain

/-!
# Forests of first-child and next-sibling pointers

Every node has three pointers: its parent, its first child and its next
sibling.  `Shape f kids` says that these represent the forest in which the
children of `d` are `kids d`, in order: the sibling list of `d` is `kids d`, and
a node is in it exactly if `d` is its parent.  So a node is in at most one
sibling list, once, and that list is its parent's.

Three edits keep the shape: a detached node becomes a first or a last child,
and a child is taken out of its list.  `Rooted` is the other half of being a
forest, that the parents of a node come to an end.
-/

/-- The pointers of a forest. -/
structure Forest (α : Type*) where
  parent : α → Option α
  first : α → Option α
  next : α → Option α

namespace Forest

variable {α : Type*} {f : Forest α} {kids : α → List α}

/-- The pointers represent the forest with these children. -/
structure Shape (f : Forest α) (kids : α → List α) : Prop where
  chain : ∀ d, PtrChain f.next (f.first d) (kids d)
  mem_iff : ∀ c d, c ∈ kids d ↔ f.parent c = some d

theorem Shape.nodup (h : Shape f kids) (d : α) : (kids d).Nodup := (h.chain d).nodup

theorem Shape.eq_of_mem (h : Shape f kids) {c d d' : α} (hd : c ∈ kids d) (hd' : c ∈ kids d') :
    d = d' := by
  have h1 := (h.mem_iff c d).mp hd
  have h2 := (h.mem_iff c d').mp hd'
  exact Option.some.inj (h1.symm.trans h2)

theorem Shape.notMem_of_parent_none (h : Shape f kids) {c : α} (hc : f.parent c = none) (d : α) :
    c ∉ kids d := by
  intro hmem
  rw [h.mem_iff, hc] at hmem
  exact absurd hmem (by simp)

variable [DecidableEq α]

/-- Make `n` the first child of `d`. -/
def pushFront (f : Forest α) (d n : α) : Forest α where
  parent := Function.update f.parent n (some d)
  next := Function.update f.next n (f.first d)
  first := Function.update f.first d (some n)

/-- Make `n` the child of `d` behind its last child, if it has one. -/
def pushBack (f : Forest α) (d n : α) (last : Option α) : Forest α where
  parent := Function.update f.parent n (some d)
  next := match last with
    | none => f.next
    | some l => Function.update f.next l (some n)
  first := match last with
    | none => Function.update f.first d (some n)
    | some _ => f.first

/-- Take `c` out of the list of `d`, where it stands behind `prev`. -/
def remove (f : Forest α) (d : α) (prev : Option α) (c : α) : Forest α where
  parent := Function.update f.parent c none
  next := match prev with
    | none => Function.update f.next c none
    | some p => Function.update (Function.update f.next p (f.next c)) c none
  first := match prev with
    | none => Function.update f.first d (f.next c)
    | some _ => f.first

/-- Clear the pointers of `n`. -/
def clear (f : Forest α) (n : α) : Forest α where
  parent := Function.update f.parent n none
  next := Function.update f.next n none
  first := Function.update f.first n none

theorem Shape.clear (h : Shape f kids) {n : α} (hn : f.parent n = none) (hkids : kids n = []) :
    Shape (f.clear n) kids where
  chain d := by
    by_cases hd : d = n
    · subst hd
      simp [Forest.clear, hkids]
    · simpa [Forest.clear, hd] using (h.chain d).update_of_notMem (h.notMem_of_parent_none hn d)
  mem_iff c d := by
    by_cases hc : c = n
    · subst hc
      simpa [Forest.clear] using h.notMem_of_parent_none hn d
    · simp [Forest.clear, hc, h.mem_iff]

/-- Giving a detached node a parent adds it to that parent's children only. -/
theorem Shape.mem_iff_attach (h : Shape f kids) {d n : α} {l : List α} (hn : f.parent n = none)
    (hl : ∀ c, c ∈ l ↔ c = n ∨ c ∈ kids d) (c e : α) :
    c ∈ Function.update kids d l e ↔ Function.update f.parent n (some d) c = some e := by
  by_cases hc : c = n
  · subst hc
    rw [Function.update_self]
    by_cases he : e = d
    · subst he
      simp [hl]
    · simp only [Function.update_of_ne he, Option.some.injEq, Ne.symm he, iff_false]
      exact h.notMem_of_parent_none hn e
  · rw [Function.update_of_ne hc]
    by_cases he : e = d
    · subst he
      simp [hl, hc, h.mem_iff]
    · rw [Function.update_of_ne he, h.mem_iff]

theorem Shape.pushFront (h : Shape f kids) {d n : α} (hn : f.parent n = none) :
    Shape (f.pushFront d n) (Function.update kids d (n :: kids d)) where
  chain e := by
    have hkeep : ∀ e, PtrChain (f.pushFront d n).next (f.first e) (kids e) :=
      fun e => (h.chain e).update_of_notMem (h.notMem_of_parent_none hn e)
    by_cases he : e = d
    · subst he
      simp only [Forest.pushFront, Function.update_self, PtrChain.cons_iff, true_and]
      exact hkeep e
    · simpa [Forest.pushFront, he] using hkeep e
  mem_iff := h.mem_iff_attach hn fun c => by simp

theorem Shape.pushBack (h : Shape f kids) {d n : α} (hn : f.parent n = none)
    (hnext : f.next n = none) :
    Shape (f.pushBack d n (kids d).getLast?) (Function.update kids d (kids d ++ [n])) where
  chain e := by
    cases hlast : (kids d).getLast? with
    | none =>
      have hnil := List.getLast?_eq_none_iff.mp hlast
      by_cases he : e = d
      · subst he
        simp [Forest.pushBack, hnil, hnext]
      · simpa [Forest.pushBack, he] using h.chain e
    | some l =>
      obtain ⟨init, hinit⟩ := List.getLast?_eq_some_iff.mp hlast
      have hld : l ∈ kids d := by simp [hinit]
      have hnl : n ≠ l := by
        intro hnl
        exact h.notMem_of_parent_none hn d (hnl ▸ hld)
      by_cases he : e = d
      · subst he
        have hchain := h.chain e
        rw [hinit] at hchain
        have htail : PtrChain (Function.update f.next l (some n)) (some n) [n] := by
          simp [Function.update_of_ne hnl, hnext]
        have := hchain.redirect htail
        simpa [Forest.pushBack, hinit] using this
      · have hle : l ∉ kids e := fun hle => he (h.eq_of_mem hle hld)
        simpa [Forest.pushBack, he] using (h.chain e).update_of_notMem hle
  mem_iff := h.mem_iff_attach hn fun c => by simp [or_comm]

theorem Shape.remove (h : Shape f kids) {d c : α} {pre post : List α}
    (hd : kids d = pre ++ c :: post) :
    Shape (f.remove d pre.getLast? c) (Function.update kids d (pre ++ post)) where
  chain e := by
    have hnd := h.nodup d
    rw [hd, List.nodup_middle, List.nodup_cons] at hnd
    have hcd : c ∈ kids d := by simp [hd]
    have hother : ∀ e, e ≠ d → c ∉ kids e := fun e he hc => he (h.eq_of_mem hc hcd)
    have hchain := h.chain d
    rw [hd] at hchain
    cases hlast : pre.getLast? with
    | none =>
      obtain rfl := List.getLast?_eq_none_iff.mp hlast
      by_cases he : e = d
      · subst he
        simpa [Forest.remove] using hchain.2.update_of_notMem (by simpa using hnd.1)
      · simpa [Forest.remove, he] using (h.chain e).update_of_notMem (hother e he)
    | some p =>
      obtain ⟨init, rfl⟩ := List.getLast?_eq_some_iff.mp hlast
      by_cases he : e = d
      · subst he
        rw [List.append_assoc] at hchain
        have htail : PtrChain f.next (f.next c) post := (hchain.tail_of_append.2).2
        have hp : p ∉ post := by grind
        have hred := hchain.redirect (htail.update_of_notMem (s := f.next c) hp)
        have := hred.update_of_notMem (a := c) (s := none) (by simpa using hnd.1)
        simpa [Forest.remove] using this
      · have hpe : p ∉ kids e := by
          intro hpe
          exact he (h.eq_of_mem hpe (by simp [hd]))
        simpa [Forest.remove, he] using
          ((h.chain e).update_of_notMem hpe).update_of_notMem (hother e he)
  mem_iff e x := by
    have hnd := h.nodup d
    rw [hd, List.nodup_middle, List.nodup_cons] at hnd
    have hcd : c ∈ kids d := by simp [hd]
    simp only [Forest.remove]
    by_cases hec : e = c
    · subst hec
      by_cases hx : x = d
      · subst hx
        simpa using hnd.1
      · rw [Function.update_of_ne hx]
        simpa using fun hmem => hx (h.eq_of_mem hmem hcd)
    · rw [Function.update_of_ne hec, ← h.mem_iff]
      by_cases hx : x = d
      · subst hx
        simp [hd, hec]
      · rw [Function.update_of_ne hx]

/-! ## Ancestors -/

/-- The parents of a node come to an end. -/
def Rooted (f : Forest α) (n : α) : Prop := ∃ l, PtrChain f.parent (some n) l

theorem Rooted.detach {f' : Forest α} {c m : α} (hf : f'.parent = Function.update f.parent c none)
    (h : Rooted f m) : Rooted f' m := by
  obtain ⟨l, hl⟩ := h
  by_cases hc : c ∈ l
  · obtain ⟨pre, post, rfl⟩ := List.append_of_mem hc
    exact ⟨pre ++ [c], hf ▸ hl.redirect rfl⟩
  · exact ⟨l, hf ▸ hl.update_of_notMem hc⟩

/-- Attaching a node below one whose ancestors it is not among keeps every
ancestry finite. -/
theorem Rooted.attach {f' : Forest α} {d n m : α} {l : List α}
    (hf : f'.parent = Function.update f.parent n (some d)) (hd : PtrChain f.parent (some d) l)
    (hn : n ∉ l) (h : Rooted f m) : Rooted f' m := by
  obtain ⟨lm, hlm⟩ := h
  by_cases hnm : n ∈ lm
  · obtain ⟨pre, post, rfl⟩ := List.append_of_mem hnm
    exact ⟨pre ++ n :: l, hf ▸ hlm.redirect (hd.update_of_notMem hn)⟩
  · exact ⟨lm, hf ▸ hlm.update_of_notMem hnm⟩

end Forest
