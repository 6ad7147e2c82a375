import Mathlib.Logic.Basic

/-!
# Computations with a log

A computation answers with a value and a log of what it touched.  `Meets P Q` says
that every entry of the log satisfies `P` and the value satisfies `Q`; the rules
take a computation apart at its binds and loops, so that a property of the log is
proved once for each function.

`Attempt` adds failure: a failed computation keeps its log.
-/

/-- A value, and a log of entries. -/
structure Logged (ι α : Type) where
  value : α
  log : List ι

namespace Logged

variable {ι α β : Type}

instance : Monad (Logged ι) where
  pure a := ⟨a, []⟩
  bind m f := ⟨(f m.value).value, m.log ++ (f m.value).log⟩

/-- Put an entry in the log. -/
def tell (i : ι) : Logged ι Unit := ⟨(), [i]⟩

@[simp] theorem value_pure (a : α) : (pure a : Logged ι α).value = a := rfl

@[simp] theorem value_bind (m : Logged ι α) (f : α → Logged ι β) :
    (m >>= f).value = (f m.value).value := rfl

@[simp] theorem log_pure (a : α) : (pure a : Logged ι α).log = [] := rfl

@[simp] theorem log_bind (m : Logged ι α) (f : α → Logged ι β) :
    (m >>= f).log = m.log ++ (f m.value).log := rfl

/-- Every entry satisfies `P`, and the value `Q`. -/
def Meets (P : ι → Prop) (Q : α → Prop) (m : Logged ι α) : Prop := (∀ i ∈ m.log, P i) ∧ Q m.value

variable {P : ι → Prop} {Q : α → Prop} {R : β → Prop}

theorem Meets.pure {a : α} (h : Q a) : Meets P Q (pure a : Logged ι α) :=
  ⟨fun _ hi => absurd hi List.not_mem_nil, h⟩

theorem Meets.tell {i : ι} (h : P i) : Meets P (fun _ => True) (tell i) := by
  refine ⟨?_, trivial⟩
  intro i' hi'
  rw [List.mem_singleton.mp hi']
  exact h

/-- **Binds.** -/
theorem Meets.bind {m : Logged ι α} {f : α → Logged ι β} (hm : Meets P Q m)
    (hf : ∀ a, Q a → Meets P R (f a)) : Meets P R (m >>= f) := by
  have hrest := hf m.value hm.2
  refine ⟨?_, hrest.2⟩
  intro i hi
  rcases List.mem_append.mp hi with hi | hi
  · exact hm.1 i hi
  · exact hrest.1 i hi

theorem Meets.mono {Q' : α → Prop} {m : Logged ι α} (hm : Meets P Q m) (h : ∀ a, Q a → Q' a) :
    Meets P Q' m :=
  ⟨hm.1, h _ hm.2⟩

/-- **Loops**, with what every round keeps. -/
theorem Meets.foldlM {γ : Type} {l : List γ} {f : α → γ → Logged ι α} {a : α} (ha : Q a)
    (hf : ∀ a, Q a → ∀ x ∈ l, Meets P Q (f a x)) : Meets P Q (l.foldlM f a) := by
  induction l generalizing a with
  | nil => exact Meets.pure ha
  | cons x l ih =>
    apply (hf a ha x List.mem_cons_self).bind
    intro a' ha'
    exact ih ha' fun b hb y hy => hf b hb y (List.mem_cons_of_mem _ hy)

theorem value_foldlM {γ : Type} (l : List γ) (f : α → γ → Logged ι α) (a : α) :
    (l.foldlM f a).value = l.foldl (fun a x => (f a x).value) a := by
  induction l generalizing a with
  | nil => rfl
  | cons x l ih =>
    rw [List.foldlM_cons, value_bind, ih, List.foldl_cons]

/-- Every entry satisfies `P`. -/
def Safe (P : ι → Prop) (m : Logged ι α) : Prop := ∀ i ∈ m.log, P i

@[simp] theorem safe_pure (a : α) : Safe P (pure a : Logged ι α) :=
  fun _ hi => absurd hi List.not_mem_nil

@[simp] theorem safe_tell (i : ι) : Safe P (tell i : Logged ι Unit) ↔ P i := by
  simp [Safe, Logged.tell]

@[simp] theorem safe_bind (m : Logged ι α) (f : α → Logged ι β) :
    Safe P (m >>= f) ↔ Safe P m ∧ Safe P (f m.value) := by
  simp only [Safe, log_bind, List.mem_append, or_imp, forall_and]

end Logged

/-- A computation with a log that may fail. -/
def Attempt (ι ε α : Type) : Type := Logged ι (Except ε α)

namespace Attempt

variable {ι ε α β : Type}

instance : Monad (Attempt ι ε) where
  pure a := ⟨.ok a, []⟩
  bind m f :=
    match m.value with
    | .ok a => ⟨(f a).value, m.log ++ (f a).log⟩
    | .error e => ⟨.error e, m.log⟩

/-- The outcome of an attempt, as a value. -/
def run (m : Attempt ι ε α) : Logged ι (Except ε α) := m

@[simp] theorem value_run (m : Attempt ι ε α) : m.run.value = m.value := rfl

/-- Fail. -/
def fail (e : ε) : Attempt ι ε α := ⟨.error e, []⟩

/-- A computation that does not fail. -/
def lift (m : Logged ι α) : Attempt ι ε α := ⟨.ok m.value, m.log⟩

/-- Go on if there is a value. -/
def require (e : ε) : Option α → Attempt ι ε α
  | some a => pure a
  | none => fail e

/-- Go on under a condition. -/
def guard (b : Bool) (e : ε) : Attempt ι ε Unit := if b then pure () else fail e

/-! ### What a success says -/

theorem ok_bind {m : Attempt ι ε α} {f : α → Attempt ι ε β} {b : β} :
    (m >>= f).value = .ok b ↔ ∃ a, m.value = .ok a ∧ (f a).value = .ok b := by
  obtain ⟨value, log⟩ := m
  cases value with
  | error e =>
    constructor
    · intro h
      cases h
    · rintro ⟨a, ha, -⟩
      cases ha
  | ok a =>
    constructor
    · intro h
      exact ⟨a, rfl, h⟩
    · rintro ⟨a', ha', h⟩
      obtain rfl := Except.ok.inj ha'
      exact h

theorem ok_pure {a b : α} : (pure a : Attempt ι ε α).value = .ok b ↔ a = b :=
  ⟨Except.ok.inj, congrArg Except.ok⟩

theorem ok_lift {m : Logged ι α} {b : α} :
    (lift m : Attempt ι ε α).value = .ok b ↔ m.value = b :=
  ⟨Except.ok.inj, congrArg Except.ok⟩

theorem ok_guard {b : Bool} {e : ε} {u : Unit} :
    (guard b e : Attempt ι ε Unit).value = .ok u ↔ b = true := by
  cases b with
  | false => exact ⟨(fun h => nomatch h), (fun h => nomatch h)⟩
  | true => exact ⟨fun _ => rfl, fun _ => rfl⟩

theorem ok_require {o : Option α} {e : ε} {a : α} :
    (require e o : Attempt ι ε α).value = .ok a ↔ o = some a := by
  cases o with
  | none => exact ⟨(fun h => nomatch h), (fun h => nomatch h)⟩
  | some a' =>
    constructor
    · intro h
      exact congrArg some (Except.ok.inj h)
    · intro h
      exact congrArg Except.ok (Option.some.inj h)

/-! ### The value without the error -/

@[simp] theorem toOption_lift (m : Logged ι α) :
    (lift m : Attempt ι ε α).value.toOption = some m.value := rfl

@[simp] theorem toOption_bind (m : Attempt ι ε α) (f : α → Attempt ι ε β) :
    (m >>= f).value.toOption = m.value.toOption.bind fun a => (f a).value.toOption := by
  obtain ⟨value, log⟩ := m
  cases value with
  | error e => rfl
  | ok a => rfl

/-- Every entry satisfies `P`, and the value, if there is one, `Q`. -/
def Meets (P : ι → Prop) (Q : α → Prop) (m : Attempt ι ε α) : Prop :=
  (∀ i ∈ m.log, P i) ∧ ∀ a, m.value = .ok a → Q a

variable {P : ι → Prop} {Q : α → Prop} {R : β → Prop}

theorem Meets.pure {a : α} (h : Q a) : Meets P Q (pure a : Attempt ι ε α) := by
  refine ⟨fun _ hi => absurd hi List.not_mem_nil, ?_⟩
  intro a' ha'
  obtain rfl := Except.ok.inj ha'
  exact h

theorem Meets.fail (e : ε) : Meets P Q (fail e : Attempt ι ε α) :=
  ⟨fun _ hi => absurd hi List.not_mem_nil, fun _ ha => nomatch ha⟩

theorem Meets.lift {m : Logged ι α} (h : Logged.Meets P Q m) :
    Meets P Q (lift m : Attempt ι ε α) := by
  refine ⟨h.1, ?_⟩
  intro a ha
  obtain rfl := Except.ok.inj ha
  exact h.2

theorem Meets.require {o : Option α} (e : ε) (h : ∀ a, o = some a → Q a) :
    Meets P Q (require e o : Attempt ι ε α) := by
  cases o with
  | none => exact Meets.fail e
  | some a => exact Meets.pure (h a rfl)

theorem Meets.guard {b : Bool} (e : ε) {Q : Unit → Prop} (h : b = true → Q ()) :
    Meets P Q (guard b e : Attempt ι ε Unit) := by
  rw [Attempt.guard]
  split
  · rename_i hb
    exact Meets.pure (h hb)
  · exact Meets.fail e

/-- **Binds.** -/
theorem Meets.bind {m : Attempt ι ε α} {f : α → Attempt ι ε β} (hm : Meets P Q m)
    (hf : ∀ a, Q a → Meets P R (f a)) : Meets P R (m >>= f) := by
  obtain ⟨value, log⟩ := m
  cases value with
  | error e => exact ⟨hm.1, fun _ hb => nomatch hb⟩
  | ok a =>
    have hrest := hf a (hm.2 a rfl)
    refine ⟨?_, hrest.2⟩
    intro i hi
    rcases List.mem_append.mp hi with hi | hi
    · exact hm.1 i hi
    · exact hrest.1 i hi

theorem Meets.of_quiet {m : Attempt ι ε α} {Q : α → Prop} (h : Meets (fun _ => False) Q m) :
    Meets P (fun a => m.value = .ok a) m :=
  ⟨fun i hi => absurd (h.1 i hi) id, fun _ ha => ha⟩

theorem Meets.guard_bind {b : Bool} {e : ε} {f : Unit → Attempt ι ε β}
    (hf : b = true → Meets P R (f ())) : Meets P R (Attempt.guard b e >>= f) := by
  apply (Meets.guard e (Q := fun _ => b = true) id).bind
  intro u hb
  exact hf hb

theorem Meets.require_bind {o : Option α} {e : ε} {f : α → Attempt ι ε β}
    (hf : ∀ a, o = some a → Meets P R (f a)) : Meets P R (Attempt.require e o >>= f) := by
  apply (Meets.require e (Q := fun a => o = some a) fun _ ha => ha).bind
  intro a ha
  exact hf a ha

theorem Meets.lift_bind {m : Logged ι α} {f : α → Attempt ι ε β} (hm : Logged.Meets P Q m)
    (hf : ∀ a, Q a → Meets P R (f a)) : Meets P R (Attempt.lift m >>= f) :=
  (Meets.lift hm).bind hf

theorem Meets.mono {Q' : α → Prop} {m : Attempt ι ε α} (hm : Meets P Q m) (h : ∀ a, Q a → Q' a) :
    Meets P Q' m :=
  ⟨hm.1, fun a ha => h a (hm.2 a ha)⟩

/-- **Loops**, with what every round keeps. -/
theorem Meets.foldlM {γ : Type} {l : List γ} {f : α → γ → Attempt ι ε α} {a : α} (ha : Q a)
    (hf : ∀ a, Q a → ∀ x ∈ l, Meets P Q (f a x)) : Meets P Q (l.foldlM f a) := by
  induction l generalizing a with
  | nil => exact Meets.pure ha
  | cons x l ih =>
    apply (hf a ha x List.mem_cons_self).bind
    intro a' ha'
    exact ih ha' fun b hb y hy => hf b hb y (List.mem_cons_of_mem _ hy)

end Attempt
