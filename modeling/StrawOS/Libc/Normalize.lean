import StrawOS.Libc.AbsPath

/-!
# When `abs_path` returns the normal form

The names on the trail of `abs_path` are the normal form of another path,
`padded`: an empty component stands in front of every name that comes right
after a `..` below the root.  The empty component is popped by a `..` like any
other, so the trail is never shorter than the stack of the normal form, and as
long as the two have the same height they are equal
(`trail_names_eq_of_length`).
-/

namespace Libc

open Vfs (CString slash components skipSlashes vfsPathMax)

/-! ## Names -/

/-- A component that stays on the stack. -/
def Name (c : CString) : Prop := c ≠ [dot] ∧ c ≠ [dot, dot]

theorem settle_name (stack : List CString) {c : CString} (h : Name c) :
    settle stack c = stack ++ [c] := by
  rw [settle, if_neg h.1, if_neg h.2]

theorem mem_foldl_settle {cs stack : List CString} {c : CString}
    (h : c ∈ cs.foldl settle stack) : c ∈ stack ∨ (c ∈ cs ∧ Name c) := by
  induction cs generalizing stack with
  | nil => exact Or.inl h
  | cons d cs ih =>
    rcases ih h with hmem | ⟨hmem, hname⟩
    · rw [settle] at hmem
      split at hmem
      · exact Or.inl hmem
      · split at hmem
        · exact Or.inl ((List.dropLast_sublist _).subset hmem)
        · rename_i hdot hdots
          rcases List.mem_append.mp hmem with hmem | hmem
          · exact Or.inl hmem
          · have hcd := List.mem_singleton.mp hmem
            exact Or.inr ⟨by simp [hcd], by rw [hcd]; exact ⟨hdot, hdots⟩⟩
    · exact Or.inr ⟨List.mem_cons_of_mem d hmem, hname⟩

theorem name_of_mem_normalComponents {cs : List CString} {c : CString}
    (h : c ∈ normalComponents cs) : c ∈ cs ∧ Name c :=
  (mem_foldl_settle h).resolve_left List.not_mem_nil

theorem trail_of_names {ns : List CString} (h : ∀ c ∈ ns, Name c) : trail ns = ⟨ns, false⟩ := by
  induction ns using List.reverseRecOn with
  | nil => rfl
  | append_singleton ns c ih =>
    have hc : Name c := h c (by simp)
    rw [trail, List.foldl_append, ← trail, ih fun d hd => h d (List.mem_append_left _ hd)]
    simp [Trail.step, hc.1, hc.2]

/-! ## Reading a rendered path back -/

theorem splitOn_flatMap {ns : List CString} (h : ∀ c ∈ ns, slash ∉ c) :
    (ns.flatMap (slash :: ·)).splitOn slash = [] :: ns := by
  induction ns using List.reverseRecOn with
  | nil => rfl
  | append_singleton ns c ih =>
    rw [List.flatMap_append, List.flatMap_singleton, List.splitOn_append_cons_self,
      ih fun d hd => h d (List.mem_append_left _ hd),
      List.splitOn_eq_singleton (h c (by simp)), List.cons_append]

theorem components_render {ns : List CString} (h : ∀ c ∈ ns, Trail.Component c) :
    components (render ns) = ns := by
  by_cases hnil : ns = []
  · subst hnil
    decide
  · have hkeep : ns.filter (· ≠ []) = ns := by
      rw [List.filter_eq_self]
      intro c hc
      simpa using (h c hc).1
    rw [Trail.render_of_ne_nil hnil, components, splitOn_flatMap fun c hc => (h c hc).2,
      List.filter_cons_of_neg (by simp), hkeep]

/-- Two paths without a slash in a name, and whose first name is not empty, are
equal only when their names are. -/
theorem render_injective {ns ms : List CString} (hns : ∀ c ∈ ns, slash ∉ c)
    (hms : ∀ c ∈ ms, slash ∉ c) (hn : ∀ c, ns.head? = some c → c ≠ [])
    (hm : ∀ c, ms.head? = some c → c ≠ []) (h : render ns = render ms) : ns = ms := by
  have hroot : ∀ {ks : List CString}, (∀ c ∈ ks, slash ∉ c) →
      (∀ c, ks.head? = some c → c ≠ []) → [slash] = ks.flatMap (slash :: ·) → ks = [] := by
    intro ks hks hk heq
    have hsplit := splitOn_flatMap hks
    rw [← heq] at hsplit
    have hone : ks = [[]] := by simpa using (List.cons.inj hsplit).2.symm
    exact absurd rfl (hk [] (by simp [hone]))
  by_cases hn0 : ns = []
  · by_cases hm0 : ms = []
    · rw [hn0, hm0]
    · rw [hn0, Trail.render_of_ne_nil hm0] at h
      exact absurd (hroot hms hm h) hm0
  · by_cases hm0 : ms = []
    · rw [hm0, Trail.render_of_ne_nil hn0] at h
      exact absurd (hroot hns hn h.symm) hn0
    · rw [Trail.render_of_ne_nil hn0, Trail.render_of_ne_nil hm0] at h
      have hsplit := congrArg (List.splitOn slash) h
      rw [splitOn_flatMap hns, splitOn_flatMap hms] at hsplit
      exact (List.cons.inj hsplit).2

/-! ## The padded path -/

/-- The components with an empty one in front of every name that comes right
after a `..` below the root: `height` is how many `..` lead back to the root,
and `back` is set between the `..` and the name. -/
def pad (height : Nat) (back : Bool) : List CString → List CString
  | [] => []
  | c :: cs =>
      if c = [dot] then c :: pad height back cs
      else if c = [dot, dot] then c :: pad (height - 1) (decide (1 < height)) cs
      else if back then [] :: c :: pad (height + 2) false cs
      else c :: pad (height + 1) false cs

/-- The padded components of a path. -/
def padded (cs : List CString) : List CString := pad 0 false cs

theorem foldl_step_names (t : Trail) (cs : List CString) :
    (cs.foldl Trail.step t).names = (pad t.names.length t.back cs).foldl settle t.names := by
  induction cs generalizing t with
  | nil => rfl
  | cons c cs ih =>
    rw [List.foldl_cons, ih]
    by_cases hdot : c = [dot]
    · simp [pad, Trail.step, settle, hdot]
    by_cases hdots : c = [dot, dot]
    · simp [pad, Trail.step, settle, hdots]
    have hname : ∀ stack, settle stack c = stack ++ [c] := fun stack =>
      settle_name stack ⟨hdot, hdots⟩
    have hempty : settle t.names [] = t.names ++ [[]] := settle_name _ (by constructor <;> simp)
    cases hb : t.back <;> simp [pad, Trail.step, hdot, hdots, hb, hname, hempty]

theorem trail_names (cs : List CString) : (trail cs).names = normalComponents (padded cs) :=
  foldl_step_names Trail.root cs

/-- **The trail and the stack.**  The trail is at least as high, and where it is
as high it is the same. -/
theorem trail_names_eq_of_length (cs : List CString) :
    (normalComponents cs).length ≤ (trail cs).names.length ∧
      ((trail cs).names.length = (normalComponents cs).length →
        (trail cs).names = normalComponents cs) := by
  induction cs using List.reverseRecOn with
  | nil => exact ⟨Nat.le_refl _, fun _ => rfl⟩
  | append_singleton cs c ih =>
    obtain ⟨hle, heq⟩ := ih
    have htrail : trail (cs ++ [c]) = (trail cs).step c := by simp [trail]
    have hnormal : normalComponents (cs ++ [c]) = settle (normalComponents cs) c := by
      simp [normalComponents]
    rw [htrail, hnormal]
    by_cases hdot : c = [dot]
    · simpa [Trail.step, settle, hdot] using ⟨hle, heq⟩
    by_cases hdots : c = [dot, dot]
    · simp only [Trail.step, settle, if_neg hdot, if_pos hdots, List.length_dropLast]
      refine ⟨by omega, fun hlen => ?_⟩
      by_cases hsame : (trail cs).names.length = (normalComponents cs).length
      · rw [heq hsame]
      · -- The higher trail comes down to the root, where the stack is already.
        have htop : (trail cs).names.dropLast = [] := by
          apply List.length_eq_zero_iff.mp
          rw [List.length_dropLast]
          omega
        have hbot : (normalComponents cs).dropLast = [] := by
          apply List.length_eq_zero_iff.mp
          rw [List.length_dropLast]
          omega
        rw [htop, hbot]
    · simp only [Trail.step, settle, if_neg hdot, if_neg hdots, List.length_append]
      cases hb : (trail cs).back with
      | true =>
        simp only [if_true, List.length_cons, List.length_nil]
        exact ⟨by omega, fun hlen => absurd hlen (by omega)⟩
      | false =>
        simp only [Bool.false_eq_true, if_false, List.length_singleton]
        exact ⟨by omega, fun hlen => by rw [heq (by omega)]⟩

/-! ## Exactly which paths are normalized -/

/-- What a caller of `abs_path` relies on: it fails only for a path that is too
long, and else returns the normal form, which it then leaves alone. -/
def Normalizes (cwd : Cwd) (path : CString) : Prop :=
  (absPath cwd.bytes (some path) = none →
    Truncated cwd.bytes path ∨ pathBuf ≤ (normalForm (wholePath cwd.bytes path)).length) ∧
  ∀ out, absPath cwd.bytes (some path) = some out →
    out = normalForm (wholePath cwd.bytes path) ∧
      ∀ cwd' : Cwd, absPath cwd'.bytes (some out) = some out

instance (cwd path : CString) : Decidable (Truncated cwd path) :=
  inferInstanceAs (Decidable (_ ≤ _))

/-- Some part of the padded path that ends with a component is too long for the
buffer. -/
def LongOnTheWay (cs : List CString) : Prop :=
  ∃ pre ∈ cs.inits, pathBuf ≤ (render (normalComponents (padded pre))).length

instance (cs : List CString) : Decidable (LongOnTheWay cs) := List.decidableBEx _ _

/-- The paths that `abs_path` handles.  The components of `joined` are those of
the whole path, or, for a path that is cut, of its first bytes. -/
def Regular (cwd : Cwd) (path : CString) : Prop :=
  if LongOnTheWay (components (joined cwd.bytes path)) then
    Truncated cwd.bytes path ∨ pathBuf ≤ (normalForm (wholePath cwd.bytes path)).length
  else if Truncated cwd.bytes path then
    normalComponents (padded (components (joined cwd.bytes path))) =
      normalComponents (components (wholePath cwd.bytes path))
  else
    (normalComponents (padded (components (joined cwd.bytes path)))).length =
      (normalComponents (components (joined cwd.bytes path))).length

theorem overflows_iff (cs : List CString) : Overflows cs ↔ LongOnTheWay cs := by
  simp only [Overflows, LongOnTheWay, trail_names]

theorem absPath_normalForm (cwd' p : CString) (hfit : (normalForm p).length < pathBuf) :
    absPath cwd' (some (normalForm p)) = some (normalForm p) := by
  have hmem : ∀ c ∈ normalComponents (components p), Trail.Component c ∧ Name c := fun c hc =>
    ⟨component_of_mem (name_of_mem_normalComponents hc).1, (name_of_mem_normalComponents hc).2⟩
  have hhead : (normalForm p).head? = some slash := by
    rw [normalForm, render]
    split
    · rfl
    · cases hns : normalComponents (components p) with
      | nil => contradiction
      | cons c cs => rfl
  have hjoined : joined cwd' (normalForm p) = normalForm p := by
    rw [joined, if_pos hhead, snprintf]
    apply List.take_of_length_le
    omega
  have hcomp : components (normalForm p) = normalComponents (components p) :=
    components_render fun c hc => (hmem c hc).1
  have hnames : (trail (normalComponents (components p))).names =
      normalComponents (components p) := by
    rw [trail_of_names fun c hc => (hmem c hc).2]
  rw [absPath_eq, hjoined, hcomp, hnames, if_neg]
  · rfl
  · -- Every part of a normal form is shorter.
    rintro ⟨pre, hpre, hlong⟩
    obtain ⟨post, hpost⟩ := (List.mem_inits _ _).mp hpre
    have hprenames : ∀ c ∈ pre, Name c := fun c hc =>
      (hmem c (by rw [← hpost]; exact List.mem_append_left _ hc)).2
    rw [trail_of_names hprenames] at hlong
    by_cases hnil : pre = []
    · simp [hnil, render, pathBuf] at hlong
    · have hwhole : normalForm p = pre.flatMap (slash :: ·) ++ post.flatMap (slash :: ·) := by
        rw [normalForm, ← hpost, Trail.render_of_ne_nil (by simp [hnil]), List.flatMap_append]
      rw [Trail.render_of_ne_nil hnil] at hlong
      rw [hwhole, List.length_append] at hfit
      omega

/-- The path that is returned is the normal form exactly when the names are. -/
theorem render_trail_eq_iff (p q : CString) :
    render (trail (components p)).names = normalForm q ↔
      (trail (components p)).names = normalComponents (components q) := by
  constructor
  · intro h
    have hok := trail_ok p
    have hq : ∀ c ∈ normalComponents (components q), Trail.Component c := fun c hc =>
      component_of_mem (name_of_mem_normalComponents hc).1
    exact render_injective hok.plain (fun c hc => (hq c hc).2) hok.first
      (fun c hc => (hq c (List.mem_of_mem_head? hc)).1) h
  · intro h
    rw [h, normalForm]

theorem normalizes_iff_of_overflows {cwd : Cwd} {path : CString}
    (h : Overflows (components (joined cwd.bytes path))) :
    Normalizes cwd path ↔
      Truncated cwd.bytes path ∨ pathBuf ≤ (normalForm (wholePath cwd.bytes path)).length := by
  have hnone : absPath cwd.bytes (some path) = none := by rw [absPath_eq, if_pos h]
  simp [Normalizes, hnone]

/-- A path that does not fail is normalized when the trail ends where the stack
does. -/
theorem normalizes_iff_of_not_overflows {cwd : Cwd} {path : CString}
    (h : ¬ Overflows (components (joined cwd.bytes path))) :
    Normalizes cwd path ↔
      (trail (components (joined cwd.bytes path))).names =
        normalComponents (components (wholePath cwd.bytes path)) := by
  have hsome : absPath cwd.bytes (some path) =
      some (render (trail (components (joined cwd.bytes path))).names) := by
    rw [absPath_eq, if_neg h]
  have hshort : (render (trail (components (joined cwd.bytes path))).names).length < pathBuf := by
    by_contra hlong
    exact h ⟨_, (List.mem_inits _ _).mpr List.prefix_rfl, Nat.not_lt.mp hlong⟩
  rw [← render_trail_eq_iff, Normalizes, hsome]
  simp only [reduceCtorEq, false_implies, true_and, Option.some.injEq, forall_eq']
  constructor
  · exact And.left
  · -- What is returned fits, so it is left alone.
    intro heq
    rw [heq] at hshort ⊢
    exact ⟨rfl, fun cwd' => absPath_normalForm _ _ hshort⟩

/-- **`abs_path` is a normalizer** exactly on the regular paths. -/
theorem normalizes_iff (cwd : Cwd) (path : CString) :
    Normalizes cwd path ↔ Regular cwd path := by
  rw [Regular]
  by_cases hover : Overflows (components (joined cwd.bytes path))
  · rw [if_pos ((overflows_iff _).mp hover), normalizes_iff_of_overflows hover]
  · rw [if_neg (fun hlong => hover ((overflows_iff _).mpr hlong)),
      normalizes_iff_of_not_overflows hover, ← trail_names]
    split
    · rfl
    · rename_i hwhole
      rw [joined_of_not_truncated hwhole]
      constructor
      · intro h
        rw [h]
      · exact (trail_names_eq_of_length _).2

/-- The root as a current directory. -/
def rootCwd : Cwd := ⟨[slash], by decide, by decide⟩

/-- `/a/b/../c` becomes `/a//c`. -/
theorem dotdot_then_name_not_normalized :
    absPath rootCwd.bytes (some (Vfs.ofAscii "/a/b/../c")) = some (Vfs.ofAscii "/a//c") ∧
      ¬ Normalizes rootCwd (Vfs.ofAscii "/a/b/../c") := by
  have hout : absPath rootCwd.bytes (some (Vfs.ofAscii "/a/b/../c")) =
      some (Vfs.ofAscii "/a//c") := by
    decide +kernel
  refine ⟨hout, fun h => ?_⟩
  have hnormal := (h.2 _ hout).1
  revert hnormal
  decide +kernel

end Libc
