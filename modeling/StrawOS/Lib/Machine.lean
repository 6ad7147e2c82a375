import Mathlib.Logic.Relation

/-!
# Guarded machines and their runs

A machine has a step function that answers each input with a new state and a
list of outputs.  A guard says which inputs a run may use in which state: the
whole input space for an unconditional result, less of it for a result about
the runs that avoid some input.

`Reachable.invariant` is the only induction on runs: a predicate that holds at
the start and survives every guarded step holds in every reachable state.
-/

/-- A deterministic machine with states `σ`, inputs `ι` and outputs `ο`. -/
structure Machine (σ ι ο : Type*) where
  start : σ → Prop
  step : σ → ι → σ × List ο

namespace Machine

variable {σ ι ο : Type*} (m : Machine σ ι ο)

/-- The states of the runs whose every input passes the guard in the state it
is given in. -/
inductive Reachable (guard : σ → ι → Prop) : σ → Prop
  | start {s : σ} (h : m.start s) : Reachable guard s
  | step {s : σ} (i : ι) (hs : Reachable guard s) (hg : guard s i) :
      Reachable guard (m.step s i).1

variable {m}

/-- **Invariant rule.**  What holds at the start and is kept by every guarded
step holds along every guarded run. -/
theorem Reachable.invariant {guard : σ → ι → Prop} {P : σ → Prop}
    (hstart : ∀ s, m.start s → P s)
    (hstep : ∀ s i, P s → guard s i → P (m.step s i).1)
    {s : σ} (h : m.Reachable guard s) : P s := by
  induction h with
  | start h0 => exact hstart _ h0
  | step i _ hg ih => exact hstep _ i ih hg

theorem Reachable.mono {guard guard' : σ → ι → Prop} (hg : ∀ s i, guard s i → guard' s i)
    {s : σ} (h : m.Reachable guard s) : m.Reachable guard' s := by
  induction h with
  | start h0 => exact .start h0
  | step i _ hi ih => exact .step i ih (hg _ i hi)

/-- The state after a list of inputs. -/
def run (m : Machine σ ι ο) (s : σ) : List ι → σ
  | [] => s
  | i :: rest => run m (m.step s i).1 rest

/-- A run whose every input passes the guard ends in a reachable state. -/
theorem Reachable.run {guard : σ → ι → Prop} {s : σ} (hs : m.Reachable guard s) (is : List ι)
    (hg : ∀ pre i post, is = pre ++ i :: post → guard (m.run s pre) i) :
    m.Reachable guard (m.run s is) := by
  induction is generalizing s with
  | nil => exact hs
  | cons i rest ih =>
      refine ih (.step i hs (hg [] i rest rfl)) ?_
      intro pre j post heq
      exact hg (i :: pre) j post (by rw [heq]; rfl)

theorem guarded_cons {guard : σ → ι → Prop} {s : σ} {i : ι} {is : List ι} :
    (∀ pre j post, i :: is = pre ++ j :: post → guard (m.run s pre) j) ↔
      guard s i ∧ ∀ pre j post, is = pre ++ j :: post → guard (m.run (m.step s i).1 pre) j := by
  constructor
  · intro h
    exact ⟨h [] i is rfl, fun pre j post heq => h (i :: pre) j post (by rw [heq]; rfl)⟩
  · rintro ⟨hi, his⟩ pre j post heq
    cases pre with
    | nil =>
        obtain ⟨rfl, -⟩ := List.cons.inj heq
        exact hi
    | cons k pre =>
        obtain ⟨rfl, hrest⟩ := List.cons.inj heq
        exact his pre j post hrest

theorem guarded_nil {guard : σ → ι → Prop} {s : σ} :
    ∀ pre j post, ([] : List ι) = pre ++ j :: post → guard (m.run s pre) j := by
  intro pre j post heq
  simp at heq

/-- **Invariant rule for the rest of a run.** -/
theorem run_invariant {guard : σ → ι → Prop} {P : σ → Prop}
    (hstep : ∀ s i, P s → guard s i → P (m.step s i).1) {s : σ} (hs : P s) {is : List ι}
    (hg : ∀ pre i post, is = pre ++ i :: post → guard (m.run s pre) i) : P (m.run s is) := by
  induction is generalizing s with
  | nil => exact hs
  | cons i rest ih =>
      refine ih (hstep s i hs (hg [] i rest rfl)) ?_
      intro pre j post heq
      exact hg (i :: pre) j post (by rw [heq]; rfl)

/-- What a list of inputs is answered with. -/
def outputs (m : Machine σ ι ο) (s : σ) : List ι → List ο
  | [] => []
  | i :: rest => (m.step s i).2 ++ outputs m (m.step s i).1 rest

/-- **Bisimulation rule.**  Related states whose steps give the same answers and related
states answer every list of inputs in the same way. -/
theorem outputs_eq_of_related {R : σ → σ → Prop}
    (hstep : ∀ s t i, R s t → (m.step s i).2 = (m.step t i).2 ∧ R (m.step s i).1 (m.step t i).1)
    {s t : σ} (h : R s t) (is : List ι) : m.outputs s is = m.outputs t is := by
  induction is generalizing s t with
  | nil => rfl
  | cons i rest ih =>
      obtain ⟨houtputs, hrelated⟩ := hstep s t i h
      rw [outputs, outputs, houtputs, ih hrelated]

end Machine
