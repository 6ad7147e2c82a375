import Mathlib.Data.List.Nodup

/-!
# Chains through a partial function

`next : α → Option α` is the pointer of a singly linked structure, `none` its
end.  `PtrChain next start l` says that following the pointer from `start` visits
exactly `l` and then ends.  A chain that ends visits no cell twice, so a walk with
as much fuel as there are cells reads it whole.  The rest are the edits, and the
frame rule `PtrChain.congr`.
-/

/-- Following `next` from `start` visits exactly `l` and then ends. -/
def PtrChain {α : Type*} (next : α → Option α) : Option α → List α → Prop
  | start, [] => start = none
  | start, a :: l => start = some a ∧ PtrChain next (next a) l

/-- Walk at most `fuel` cells of a chain. -/
def chainList {α : Type*} (next : α → Option α) : Nat → Option α → List α
  | 0, _ => []
  | _ + 1, none => []
  | fuel + 1, some a => a :: chainList next fuel (next a)

namespace PtrChain

variable {α : Type*} {next next' : α → Option α} {start : Option α} {l : List α} {a : α}

@[simp] theorem nil_iff : PtrChain next start [] ↔ start = none := Iff.rfl

@[simp] theorem cons_iff :
    PtrChain next start (a :: l) ↔ start = some a ∧ PtrChain next (next a) l := Iff.rfl

theorem none_iff : PtrChain next none l ↔ l = [] := by
  cases l <;> simp

theorem unique {l' : List α} (h : PtrChain next start l) (h' : PtrChain next start l') : l = l' := by
  induction l generalizing start l' with
  | nil =>
    rw [nil_iff.mp h, none_iff] at h'
    exact h'.symm
  | cons a l ih =>
    obtain ⟨rfl, h⟩ := h
    cases l' with
    | nil => simp at h'
    | cons b l' =>
      obtain ⟨hb, h'⟩ := h'
      obtain rfl := Option.some.inj hb
      rw [ih h h']

theorem chainList_eq {fuel : Nat} (h : PtrChain next start l) (hfuel : l.length ≤ fuel) :
    chainList next fuel start = l := by
  induction l generalizing start fuel with
  | nil =>
    rw [nil_iff.mp h]
    cases fuel <;> rfl
  | cons a l ih =>
    obtain ⟨rfl, h⟩ := h
    cases fuel with
    | zero => simp at hfuel
    | succ fuel => rw [chainList, ih h (by simpa using hfuel)]

/-- **Frame rule.**  Only the pointers of the cells visited matter. -/
theorem congr (h : PtrChain next start l) (hl : ∀ a ∈ l, next' a = next a) :
    PtrChain next' start l := by
  induction l generalizing start with
  | nil => exact h
  | cons a l ih =>
    obtain ⟨hs, h⟩ := h
    refine ⟨hs, ?_⟩
    rw [hl a List.mem_cons_self]
    exact ih h fun b hb => hl b (List.mem_cons_of_mem _ hb)

theorem tail_of_append {pre post : List α} (h : PtrChain next start (pre ++ a :: post)) :
    PtrChain next (some a) (a :: post) := by
  induction pre generalizing start with
  | nil => exact ⟨rfl, h.2⟩
  | cons b pre ih => exact ih h.2

theorem getElem_next (h : PtrChain next start l) {i : Nat} (hi : l[i]? = some a) :
    next a = l[i + 1]? := by
  induction l generalizing start i with
  | nil => simp at hi
  | cons b rest ih =>
    obtain ⟨-, hrest⟩ := h
    cases i with
    | zero =>
      obtain rfl : b = a := by simpa using hi
      cases rest with
      | nil => exact hrest
      | cons d rest => simpa using hrest.1
    | succ i => simpa using ih hrest (by simpa using hi)

theorem nodup (h : PtrChain next start l) : l.Nodup := by
  induction l generalizing start with
  | nil => exact List.nodup_nil
  | cons a l ih =>
    refine List.nodup_cons.mpr ⟨?_, ih h.2⟩
    intro ha
    -- Otherwise the chain from `a` would be a proper part of itself.
    obtain ⟨pre, post, rfl⟩ := List.append_of_mem ha
    have hlong : PtrChain next (some a) (a :: (pre ++ a :: post)) := ⟨rfl, h.2⟩
    have hshort : PtrChain next (some a) (a :: post) := h.2.tail_of_append
    have := congrArg List.length (hlong.unique hshort)
    simp only [List.length_cons, List.length_append] at this
    omega

section Edits

variable [DecidableEq α]

/-- Redirecting the pointer of one visited cell replaces what follows it. -/
theorem redirect {pre rest rest' : List α} {p : α} {s : Option α}
    (h : PtrChain next start (pre ++ p :: rest))
    (h' : PtrChain (Function.update next p s) s rest') :
    PtrChain (Function.update next p s) start (pre ++ p :: rest') := by
  have hnd := h.nodup
  induction pre generalizing start with
  | nil => exact ⟨h.1, by rwa [Function.update_self]⟩
  | cons b pre ih =>
    obtain ⟨hb, hrest⟩ := List.nodup_cons.mp hnd
    have hne : b ≠ p := by
      intro hbp
      exact hb (hbp ▸ List.mem_append_right pre List.mem_cons_self)
    refine ⟨h.1, ?_⟩
    rw [Function.update_of_ne hne]
    exact ih h.2 hrest

theorem update_of_notMem {s : Option α} (h : PtrChain next start l) (ha : a ∉ l) :
    PtrChain (Function.update next a s) start l := by
  apply h.congr
  intro b hb
  have hba : b ≠ a := fun hba => ha (hba ▸ hb)
  exact Function.update_of_ne hba _ _

end Edits

end PtrChain
