import Mathlib.Data.List.Nodup

/-!
# Objects that say who owns them

Objects live in a heap, and every live object stands in the list of one owner.
An object has a field with its owner and a key that no other object has, so that
code can start from the object and find the list it is in.

The lists of all owners together are rows of an owner and an address.
`Owned.exchange` is the rule for an operation that replaces some rows by rows of
new objects, and `Owned.put` for one that changes an object in place.
-/

variable {α κ ι : Type*}

/-- Every live object stands in one row, whose owner its field names; its key is its
own, and it is as it should be.  No object is at `next` or above. -/
structure Owned (owner : α → κ) (key : α → ι) (fine : α → Prop) (heap : Nat → Option α)
    (next : Nat) (rows : List (κ × Nat)) : Prop where
  held : ∀ r ∈ rows, ∃ x, heap r.2 = some x ∧ owner x = r.1 ∧ fine x
  dead : ∀ a, a ∉ rows.map Prod.snd → heap a = none
  once : (rows.map Prod.snd).Nodup
  bound : ∀ r ∈ rows, r.2 < next
  keys : ∀ r ∈ rows, ∀ r' ∈ rows, ∀ x x', heap r.2 = some x → heap r'.2 = some x' →
    key x = key x' → r.2 = r'.2

namespace Owned

variable {owner : α → κ} {key : α → ι} {fine : α → Prop} {heap heap' : Nat → Option α}
  {next next' : Nat} {rows rows' old new rest : List (κ × Nat)}

theorem empty : Owned owner key fine (fun _ => none) next [] where
  held _ hr := absurd hr List.not_mem_nil
  dead _ _ := rfl
  once := List.nodup_nil
  bound _ hr := absurd hr List.not_mem_nil
  keys _ hr := absurd hr List.not_mem_nil

theorem perm (h : Owned owner key fine heap next rows) (hp : rows'.Perm rows) :
    Owned owner key fine heap next rows' where
  held r hr := h.held r (hp.mem_iff.mp hr)
  dead a ha := h.dead a fun hmem => ha ((hp.map Prod.snd).mem_iff.mpr hmem)
  once := (hp.map Prod.snd).nodup_iff.mpr h.once
  bound r hr := h.bound r (hp.mem_iff.mp hr)
  keys r hr r' hr' := h.keys r (hp.mem_iff.mp hr) r' (hp.mem_iff.mp hr')

theorem live_iff (h : Owned owner key fine heap next rows) (a : Nat) :
    (heap a).isSome = true ↔ a ∈ rows.map Prod.snd := by
  constructor
  · intro hsome
    by_contra hno
    rw [h.dead a hno] at hsome
    cases hsome
  · intro hmem
    obtain ⟨r, hr, rfl⟩ := List.mem_map.mp hmem
    obtain ⟨x, hx, -⟩ := h.held r hr
    rw [hx]
    rfl

theorem row_unique (h : Owned owner key fine heap next rows) {r r' : κ × Nat} (hr : r ∈ rows)
    (hr' : r' ∈ rows) (ha : r.2 = r'.2) : r = r' := by
  obtain ⟨x, hx, hown, -⟩ := h.held r hr
  obtain ⟨x', hx', hown', -⟩ := h.held r' hr'
  rw [ha, hx'] at hx
  obtain rfl := Option.some.inj hx
  exact Prod.ext (hown.symm.trans hown') ha

theorem keys_nodup (h : Owned owner key fine heap next rows) (f : Nat → α)
    (hf : ∀ r ∈ rows, heap r.2 = some (f r.2)) :
    (rows.map fun r => key (f r.2)).Nodup := by
  have hrows : rows.Nodup := List.Nodup.of_map Prod.snd h.once
  refine List.Nodup.map_on (fun r hr r' hr' heq => ?_) hrows
  exact h.row_unique hr hr' (h.keys r hr r' hr' _ _ (hf r hr) (hf r' hr') heq)

/-- **Exchange.**  The rows of `old` go, with their objects, and rows of new objects
come; the other rows keep theirs. -/
theorem exchange (h : Owned owner key fine heap next (old ++ rest)) (hle : next ≤ next')
    (hfresh : ∀ r ∈ new, next ≤ r.2 ∧ r.2 < next') (honce : (new.map Prod.snd).Nodup)
    (hkeep : ∀ r ∈ rest, heap' r.2 = heap r.2)
    (hdead : ∀ a, a ∉ new.map Prod.snd → a ∉ rest.map Prod.snd → heap' a = none)
    (hnew : ∀ r ∈ new, ∃ x, heap' r.2 = some x ∧ owner x = r.1 ∧ fine x)
    (hkeys : ∀ r ∈ new, ∀ x, heap' r.2 = some x →
      (∀ r' ∈ new, ∀ x', heap' r'.2 = some x' → key x = key x' → r.2 = r'.2) ∧
        ∀ r' ∈ rest, ∀ x', heap r'.2 = some x' → key x ≠ key x') :
    Owned owner key fine heap' next' (new ++ rest) where
  held r hr := by
    rcases List.mem_append.mp hr with hr | hr
    · exact hnew r hr
    · rw [hkeep r hr]
      exact h.held r (List.mem_append_right _ hr)
  dead a ha := by
    rw [List.map_append, List.mem_append, not_or] at ha
    exact hdead a ha.1 ha.2
  once := by
    have hrest := h.once
    rw [List.map_append, List.nodup_append] at hrest
    rw [List.map_append, List.nodup_append]
    refine ⟨honce, hrest.2.1, ?_⟩
    rintro a ha b hb rfl
    obtain ⟨r, hr, rfl⟩ := List.mem_map.mp ha
    obtain ⟨r', hr', heq⟩ := List.mem_map.mp hb
    have hlow := (hfresh r hr).1
    have hhigh := h.bound r' (List.mem_append_right _ hr')
    omega
  bound r hr := by
    rcases List.mem_append.mp hr with hr | hr
    · exact (hfresh r hr).2
    · exact Nat.lt_of_lt_of_le (h.bound r (List.mem_append_right _ hr)) hle
  keys r hr r' hr' x x' hx hx' heq := by
    rcases List.mem_append.mp hr with hr | hr
    · grind
    · rw [hkeep r hr] at hx
      rcases List.mem_append.mp hr' with hr' | hr'
      · exact absurd heq.symm ((hkeys r' hr' x' hx').2 r hr x hx)
      · rw [hkeep r' hr'] at hx'
        exact h.keys r (List.mem_append_right _ hr) r' (List.mem_append_right _ hr') x x' hx hx' heq

theorem drop (h : Owned owner key fine heap next (old ++ rest))
    (hkeep : ∀ r ∈ rest, heap' r.2 = heap r.2)
    (hdead : ∀ a, a ∉ rest.map Prod.snd → heap' a = none) :
    Owned owner key fine heap' next rest := by
  apply @exchange α κ ι owner key fine heap heap' next next old [] rest h (Nat.le_refl next)
  · exact fun _ hr => absurd hr List.not_mem_nil
  · exact List.nodup_nil
  · exact hkeep
  · exact fun a _ ha => hdead a ha
  · exact fun _ hr => absurd hr List.not_mem_nil
  · exact fun _ hr => absurd hr List.not_mem_nil

theorem cons (h : Owned owner key fine heap next rows) {x : α} (hfine : fine x)
    (hkey : ∀ r ∈ rows, ∀ x', heap r.2 = some x' → key x ≠ key x') :
    Owned owner key fine (Function.update heap next (some x)) (next + 1)
      ((owner x, next) :: rows) := by
  have hne : ∀ r ∈ rows, r.2 ≠ next := fun r hr => Nat.ne_of_lt (h.bound r hr)
  apply @exchange α κ ι owner key fine heap _ next (next + 1) [] [(owner x, next)] rows h
    (Nat.le_succ next)
  · simp
  · simp
  · intro r hr
    exact Function.update_of_ne (hne r hr) _ _
  · intro a ha hrest
    rw [Function.update_of_ne (by simpa using ha)]
    exact h.dead a hrest
  · grind
  · grind

theorem put (h : Owned owner key fine heap next rows) {r : κ × Nat} (hr : r ∈ rows) {x y : α}
    (hx : heap r.2 = some x) (hown : owner y = owner x) (hkey : key y = key x) (hfine : fine y) :
    Owned owner key fine (Function.update heap r.2 (some y)) next rows where
  held r' hr' := by
    by_cases heq : r'.2 = r.2
    · obtain rfl := h.row_unique hr' hr heq
      obtain ⟨x', hx', hown', -⟩ := h.held r' hr'
      rw [hx] at hx'
      obtain rfl := Option.some.inj hx'
      exact ⟨y, by simp, hown.trans hown', hfine⟩
    · rw [Function.update_of_ne heq]
      exact h.held r' hr'
  dead a ha := by
    have hne : a ≠ r.2 := fun heq => ha (heq ▸ List.mem_map_of_mem hr)
    rw [Function.update_of_ne hne]
    exact h.dead a ha
  once := h.once
  bound := h.bound
  keys r₁ hr₁ r₂ hr₂ x₁ x₂ hx₁ hx₂ heq := by
    have hold : ∀ r' ∈ rows, ∀ z, Function.update heap r.2 (some y) r'.2 = some z →
        ∃ z', heap r'.2 = some z' ∧ key z' = key z := by grind
    obtain ⟨z₁, hz₁, hk₁⟩ := hold r₁ hr₁ x₁ hx₁
    obtain ⟨z₂, hz₂, hk₂⟩ := hold r₂ hr₂ x₂ hx₂
    exact h.keys r₁ hr₁ r₂ hr₂ z₁ z₂ hz₁ hz₂ (by rw [hk₁, hk₂, heq])

end Owned
