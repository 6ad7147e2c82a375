import Mathlib.Logic.Function.Iterate
import Mathlib.Data.Nat.Find

/-!
# Loops that may not end

A loop is a function that runs one round: it ends with a result or goes on in a
new state.  `Loop.run` runs a number of rounds.  A loop with a measure ends; a loop
that keeps an invariant under which no round is the last does not; and a loop ends
exactly if it comes to a state in which it stops.

`Returns.induct` is the rule for what a loop returns: what holds before each
round and of the result of the last one.
-/

/-- How a round ends. -/
inductive Round (σ ρ : Type*)
  | again (s : σ)
  | done (r : ρ)

namespace Loop

variable {σ ρ : Type*} {body : σ → Round σ ρ}

/-- At most `fuel` rounds. -/
def run (body : σ → Round σ ρ) : Nat → σ → Option ρ
  | 0, _ => none
  | fuel + 1, s =>
    match body s with
    | .again s' => run body fuel s'
    | .done r => some r

/-- The loop ends with a result. -/
def Returns (body : σ → Round σ ρ) (s : σ) (r : ρ) : Prop := ∃ fuel, run body fuel s = some r

/-- The loop ends. -/
def Halts (body : σ → Round σ ρ) (s : σ) : Prop := ∃ r, Returns body s r

/-- The state before round `n`, if there is one. -/
def before (body : σ → Round σ ρ) : Nat → σ → Option σ
  | 0, s => some s
  | n + 1, s =>
    match body s with
    | .again s' => before body n s'
    | .done _ => none

theorem run_succ_again {s s' : σ} (h : body s = .again s') (fuel : Nat) :
    run body (fuel + 1) s = run body fuel s' := by
  simp [run, h]

theorem run_succ_done {s : σ} {r : ρ} (h : body s = .done r) (fuel : Nat) :
    run body (fuel + 1) s = some r := by
  simp [run, h]

theorem run_mono {fuel fuel' : Nat} {s : σ} {r : ρ} (h : run body fuel s = some r)
    (hle : fuel ≤ fuel') : run body fuel' s = some r := by
  induction fuel generalizing fuel' s with
  | zero => simp [run] at h
  | succ fuel ih =>
    obtain ⟨k, rfl⟩ : ∃ k, fuel' = k + 1 := ⟨fuel' - 1, by omega⟩
    cases hb : body s with
    | again s' =>
      rw [run_succ_again hb] at h ⊢
      exact ih h (by omega)
    | done r' =>
      rw [run_succ_done hb] at h ⊢
      exact h

theorem Returns.unique {s : σ} {r r' : ρ} (h : Returns body s r) (h' : Returns body s r') :
    r = r' := by
  obtain ⟨n, hn⟩ := h
  obtain ⟨m, hm⟩ := h'
  have h1 := run_mono hn (Nat.le_max_left n m)
  rw [run_mono hm (Nat.le_max_right n m)] at h1
  exact (Option.some.inj h1).symm

theorem returns_done {s : σ} {r : ρ} (h : body s = .done r) : Returns body s r :=
  ⟨1, run_succ_done h 0⟩

theorem returns_again {s s' : σ} (h : body s = .again s') {r : ρ} :
    Returns body s r ↔ Returns body s' r := by
  constructor
  · rintro ⟨n, hn⟩
    exact ⟨n, by rw [← run_succ_again h]; exact run_mono hn (Nat.le_succ n)⟩
  · rintro ⟨n, hn⟩
    exact ⟨n + 1, by rw [run_succ_again h]; exact hn⟩

theorem halts_again {s s' : σ} (h : body s = .again s') : Halts body s ↔ Halts body s' :=
  exists_congr fun _ => returns_again h

/-- **Result rule.**  An invariant of the rounds holds before the last one. -/
theorem Returns.induct {P : σ → Prop} {Q : ρ → Prop} {s : σ} {r : ρ} (h : Returns body s r)
    (hs : P s) (hagain : ∀ s s', P s → body s = .again s' → P s')
    (hdone : ∀ s r, P s → body s = .done r → Q r) : Q r := by
  obtain ⟨n, hn⟩ := h
  induction n generalizing s with
  | zero => simp [run] at hn
  | succ n ih =>
    cases hb : body s with
    | again s' =>
      rw [run_succ_again hb] at hn
      exact ih (hagain s s' hs hb) hn
    | done r' =>
      rw [run_succ_done hb] at hn
      obtain rfl := Option.some.inj hn
      exact hdone s r' hs hb

/-- **Measure rule.**  A loop whose rounds make a number smaller ends. -/
theorem halts_of_measure {P : σ → Prop} (m : σ → Nat)
    (h : ∀ s s', P s → body s = .again s' → P s' ∧ m s' < m s) {s : σ} (hs : P s) :
    Halts body s := by
  induction hn : m s using Nat.strong_induction_on generalizing s with
  | _ n ih =>
    cases hb : body s with
    | again s' =>
      obtain ⟨hp, hlt⟩ := h s s' hs hb
      exact (halts_again hb).mpr (ih (m s') (hn ▸ hlt) hp rfl)
    | done r => exact ⟨r, returns_done hb⟩

/-- **Divergence rule.**  A loop that keeps going on does not end. -/
theorem not_halts_of_invariant {P : σ → Prop}
    (h : ∀ s, P s → ∃ s', body s = .again s' ∧ P s') {s : σ} (hs : P s) : ¬ Halts body s := by
  rintro ⟨r, hr⟩
  refine hr.induct (Q := fun _ => False) hs ?_ ?_
  · grind
  · intro s r hp hb
    obtain ⟨s', hb', -⟩ := h s hp
    rw [hb] at hb'
    cases hb'

/-- **Stopping rule.**  `Stop n` ends a loop at round `n`, and so does, sooner or
later, a doomed state (`D`); nothing else does. -/
theorem halts_iff_stop {P : Nat → σ → Prop} {Stop : Nat → Prop} {D : σ → Prop} (m : σ → Nat)
    (hagain : ∀ n s s', P n s → body s = .again s' →
      P (n + 1) s' ∧ ¬ Stop n ∧ (D s' ↔ D s) ∧ (D s → m s' < m s))
    (hgo : ∀ n s, P n s → ¬ D s → ¬ Stop n → ∃ s', body s = .again s')
    {s : σ} (hs : P 0 s) : Halts body s ↔ D s ∨ ∃ n, Stop n := by
  constructor
  · intro hhalts
    by_contra hnone
    rw [not_or, not_exists] at hnone
    refine not_halts_of_invariant (P := fun s => ∃ n, P n s ∧ ¬ D s) ?_ ⟨0, hs, hnone.1⟩ hhalts
    rintro t ⟨n, hp, hd⟩
    obtain ⟨t', ht⟩ := hgo n t hp hd (hnone.2 n)
    obtain ⟨hp', -, hd', -⟩ := hagain n t t' hp ht
    exact ⟨t', ht, n + 1, hp', fun hc => hd (hd'.mp hc)⟩
  · rintro (hd | ⟨N, hN⟩)
    · refine halts_of_measure (P := fun s => (∃ n, P n s) ∧ D s) m ?_ ⟨⟨0, hs⟩, hd⟩
      rintro t t' ⟨⟨n, hp⟩, hdt⟩ ht
      obtain ⟨hp', -, hd', hlt⟩ := hagain n t t' hp ht
      exact ⟨⟨⟨n + 1, hp'⟩, hd'.mpr hdt⟩, hlt hdt⟩
    · -- Round `N` is the last, if no earlier one is.
      have hrounds : ∀ k n t, P n t → n + k = N → Halts body t := by
        intro k
        induction k with
        | zero =>
          intro n t hp hn
          cases hb : body t with
          | again t' => grind
          | done r => exact ⟨r, returns_done hb⟩
        | succ k ih =>
          intro n t hp hn
          cases hb : body t with
          | again t' =>
            obtain ⟨hp', -, -⟩ := hagain n t t' hp hb
            exact (halts_again hb).mpr (ih (n + 1) t' hp' (by omega))
          | done r => exact ⟨r, returns_done hb⟩
      exact hrounds N 0 s hs (Nat.zero_add N)

end Loop
