import StrawOS.Lib.Chain

/-!
# Queues with a pointer to the last cell

A queue is a chain with its first cell in `head` and its last one in `tail`; both are
`none` when it is empty.  The operations are those of a singly linked list: a cell goes in
front or behind the last one, and a cell in the middle is taken out by the cell before it.
-/

/-- The cells of `l` in order, with `head` and `tail` at its ends. -/
structure PtrQueue {α : Type*} (next : α → Option α) (head tail : Option α) (l : List α) : Prop where
  chain : PtrChain next head l
  tail : tail = l.getLast?

namespace PtrQueue

variable {α : Type*} {next next' : α → Option α} {head tail : Option α} {l : List α} {a : α}

variable [DecidableEq α]

theorem pushFront (h : PtrQueue next head tail l) (ha : a ∉ l) :
    PtrQueue (Function.update next a head) (some a) (tail.or (some a)) (a :: l) := by
  refine ⟨⟨rfl, ?_⟩, ?_⟩
  · rw [Function.update_self]
    exact h.chain.update_of_notMem ha
  · rw [h.tail]
    cases hl : l.getLast? with
    | none =>
      obtain rfl := List.getLast?_eq_none_iff.1 hl
      rfl
    | some b => rw [List.getLast?_cons, hl]; rfl

theorem pushEmpty (h : PtrQueue next head none l) (hnext : next a = none) :
    PtrQueue next (some a) (some a) (l ++ [a]) := by
  obtain rfl := List.getLast?_eq_none_iff.1 h.tail.symm
  exact ⟨⟨rfl, hnext⟩, rfl⟩

theorem pushBack {b : α} (h : PtrQueue next head (some b) l) (ha : a ∉ l) (hnext : next a = none) :
    PtrQueue (Function.update next b (some a)) head (some a) (l ++ [a]) := by
  obtain ⟨pre, rfl⟩ := List.getLast?_eq_some_iff.1 h.tail.symm
  have hab : a ≠ b := fun hab => ha (List.mem_append_right pre (hab ▸ List.mem_singleton_self a))
  refine ⟨?_, by simp⟩
  have hrest : PtrChain (Function.update next b (some a)) (some a) [a] := by
    refine ⟨rfl, ?_⟩
    rw [Function.update_of_ne hab]
    exact hnext
  rw [List.append_assoc]
  exact h.chain.redirect hrest

theorem chain_rest {pre post : List α} (h : PtrChain next head (pre ++ a :: post)) :
    PtrChain next (next a) post :=
  h.tail_of_append.2

theorem chain_unlink_head {post : List α} (h : PtrChain next head (a :: post)) :
    PtrChain next (next a) post :=
  h.2

/-- A cell is taken out behind the cell `b`. -/
theorem chain_unlink {b : α} {pre post : List α} (h : PtrChain next head (pre ++ b :: a :: post)) :
    PtrChain (Function.update next b (next a)) head (pre ++ b :: post) := by
  have hb : b ∉ post := by
    have hnodup := (List.nodup_append.1 h.nodup).2.1
    exact fun hmem => (List.nodup_cons.1 hnodup).1 (List.mem_cons_of_mem _ hmem)
  have hrest : PtrChain next (next a) post := by
    have hsplit : pre ++ b :: a :: post = (pre ++ [b]) ++ a :: post := by simp
    rw [hsplit] at h
    exact chain_rest h
  exact h.redirect (hrest.update_of_notMem hb)

end PtrQueue
