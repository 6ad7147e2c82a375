import Mathlib.Data.List.Infix
import Mathlib.Data.List.TakeWhile
import StrawOS.Vfs.Path

/-!
# `abs_path` of the C library

Every path a program hands to the library goes through `abs_path`: it is joined
to the current directory, cut into components, and the components are pushed
and popped on a buffer of `PATH_BUF` bytes.  The first part of this file is that
code, byte by byte.

The second part, `normalForm`, is what it is for: the lexical normal form of an
absolute path, with components on a stack and no buffer at all.

The third part, `Trail`, is the buffer read as a stack.  Popping leaves the slash
in front of the popped name behind, and the next name is pushed behind a slash of
its own.  `absPath_eq` says that this is all the code does.
-/

namespace Libc

open Vfs (CString slash components skipSlashes vfsPathMax)

def pathBuf : Nat := 256

/-- The byte `'.'`. -/
def dot : UInt8 := 46

/-- `getcwd`: `sys_getcwd` refuses a buffer that is too small for the directory
and its NUL. -/
def getcwd (cwd : CString) (size : Nat) : Option CString :=
  if size ≤ cwd.length then none else some cwd

/-- `snprintf` of a string into `size` bytes, the last of them for the NUL. -/
def snprintf (size : Nat) (s : CString) : CString := s.take (size - 1)

/-- The local array `joined` of `abs_path`. -/
def joined (cwd path : CString) : CString :=
  if path.head? = some slash then snprintf (pathBuf * 2) path
  else snprintf (pathBuf * 2) ((getcwd cwd pathBuf).getD [slash] ++ slash :: path)

/-- `while (len > 1 && out[len - 1] != '/') len--`, on the first `len` bytes of
`out`. -/
def backUp (out : CString) : CString :=
  if 1 < out.length ∧ out.getLast? ≠ some slash then backUp out.dropLast else out
termination_by out.length
decreasing_by
  simp only [List.length_dropLast]
  omega

/-- The body of the loop, for the component `c` just cut; `none` is the return
of `NULL`. -/
def component (out c : CString) : Option CString :=
  if c = [dot] then some out
  else if c = [dot, dot] then
    some (if 1 < out.length then backUp out.dropLast else out)
  else if 1 < out.length then
    if pathBuf ≤ out.length + 1 then none
    else if pathBuf ≤ (out ++ [slash]).length + c.length then none
    else some (out ++ [slash] ++ c)
  else if pathBuf ≤ out.length + c.length then none
  else some (out ++ c)

theorem ne_slash_of_skipSlashes {p q : CString} {c : UInt8} (h : skipSlashes p = c :: q) :
    c ≠ slash := by
  have hnot := List.head?_dropWhile_not (· == slash) p
  rw [show p.dropWhile (· == slash) = c :: q from h] at hnot
  simpa using hnot

theorem takeWhile_skipSlashes_ne_nil {p : CString} (h : skipSlashes p ≠ []) :
    (skipSlashes p).takeWhile (· ≠ slash) ≠ [] := by
  cases hp : skipSlashes p with
  | nil => exact absurd hp h
  | cons c q => simp [ne_slash_of_skipSlashes hp]

theorem length_dropWhile_skipSlashes_lt {p : CString} (h : skipSlashes p ≠ []) :
    ((skipSlashes p).dropWhile (· ≠ slash)).length < p.length := by
  have hle : (skipSlashes p).length ≤ p.length := (List.dropWhile_sublist _).length_le
  have hcut := congrArg List.length
    (List.takeWhile_append_dropWhile (p := (· ≠ slash)) (l := skipSlashes p))
  have hpos := List.length_pos_iff.mpr (takeWhile_skipSlashes_ne_nil h)
  rw [List.length_append] at hcut
  omega

/-- `while (*p)`. -/
def absLoop (out p : CString) : Option CString :=
  if h : skipSlashes p = [] then some out
  else
    (component out ((skipSlashes p).takeWhile (· ≠ slash))).bind fun out =>
      absLoop out ((skipSlashes p).dropWhile (· ≠ slash))
termination_by p.length
decreasing_by exact length_dropWhile_skipSlashes_lt h

/-- `abs_path`; a missing path is `NULL`. -/
def absPath (cwd : CString) (path : Option CString) : Option CString :=
  path.bind fun path =>
    (absLoop [slash] (joined cwd path)).map fun out =>
      if 1 < out.length ∧ out.getLast? = some slash then out.dropLast else out

/-! ## The lexical normal form -/

/-- One component on the stack of the components before it. -/
def settle (stack : List CString) (c : CString) : List CString :=
  if c = [dot] then stack
  else if c = [dot, dot] then stack.dropLast
  else stack ++ [c]

/-- What is left of the components of a path when every `.` and `..` is taken. -/
def normalComponents (cs : List CString) : List CString := cs.foldl settle []

/-- Components as an absolute path: a slash in front of each, and `/` for none. -/
def render (cs : List CString) : CString :=
  if cs = [] then [slash] else cs.flatMap (slash :: ·)

/-- The lexical normal form of an absolute path. -/
def normalForm (p : CString) : CString := render (normalComponents (components p))

/-- The absolute path that a path means in the directory `cwd`. -/
def wholePath (cwd path : CString) : CString :=
  if path.head? = some slash then path else cwd ++ slash :: path

/-- A current directory: an absolute normalized path in `char cwd[VFS_PATH_MAX]`. -/
structure Cwd where
  bytes : CString
  fits : bytes.length < vfsPathMax
  normal : normalForm bytes = bytes

/-- The path does not fit `joined`. -/
def Truncated (cwd path : CString) : Prop := pathBuf * 2 ≤ (wholePath cwd path).length

/-- `joined` holds the first bytes of the whole path. -/
theorem joined_eq_take (cwd : Cwd) (path : CString) :
    joined cwd.bytes path = (wholePath cwd.bytes path).take (pathBuf * 2 - 1) := by
  have hfits : ¬ pathBuf ≤ cwd.bytes.length := Nat.not_le.mpr cwd.fits
  simp only [joined, wholePath, getcwd, if_neg hfits, Option.getD_some, snprintf]
  split <;> rfl

theorem joined_of_not_truncated {cwd : Cwd} {path : CString}
    (h : ¬ Truncated cwd.bytes path) : joined cwd.bytes path = wholePath cwd.bytes path := by
  rw [joined_eq_take]
  apply List.take_of_length_le
  simp only [Truncated] at h
  omega

/-! ## The loop follows the components -/

theorem absLoop_eq_foldlM (out p : CString) : absLoop out p = (components p).foldlM component out := by
  induction out, p using absLoop.induct with
  | case1 out p h =>
    rw [absLoop, dif_pos h, ← Vfs.components_skipSlashes, h, Vfs.components_nil]
    rfl
  | case2 out p h ih =>
    rw [absLoop, dif_neg h]
    have hcut := List.takeWhile_append_dropWhile (p := (· ≠ slash)) (l := skipSlashes p)
    have hslash : slash ∉ (skipSlashes p).takeWhile (· ≠ slash) := by
      intro hmem
      simpa using List.mem_takeWhile_imp hmem
    -- What follows the component is the end of the path or a slash.
    have hend : (skipSlashes p).dropWhile (· ≠ slash) = [] ∨
        ((skipSlashes p).dropWhile (· ≠ slash)).head? = some slash := by
      cases hd : (skipSlashes p).dropWhile (· ≠ slash) with
      | nil => exact Or.inl rfl
      | cons c q =>
        have hnot := List.head?_dropWhile_not (· ≠ slash) (skipSlashes p)
        rw [hd] at hnot
        exact Or.inr (by simpa using hnot)
    rw [← Vfs.components_skipSlashes p, ← hcut, Vfs.components_append_boundary hend,
      Vfs.components_of_slash_notMem (takeWhile_skipSlashes_ne_nil h) hslash, hcut,
      List.singleton_append, List.foldlM_cons]
    exact bind_congr fun out => ih out

/-! ## The buffer as a stack -/

/-- The bytes of `out` as a stack: the names in it, some of them empty, and
whether it ends with a slash that a `..` left behind. -/
structure Trail where
  names : List CString
  back : Bool

namespace Trail

/-- The root, `out = "/"`. -/
def root : Trail := ⟨[], false⟩

/-- One component.  A name that comes right after a `..` goes behind a slash
that is there already, so an empty name stands in front of it. -/
def step (t : Trail) (c : CString) : Trail :=
  if c = [dot] then t
  else if c = [dot, dot] then ⟨t.names.dropLast, decide (1 < t.names.length)⟩
  else ⟨t.names ++ if t.back then [[], c] else [c], false⟩

/-- The buffer. -/
def out (t : Trail) : CString := render t.names ++ if t.back then [slash] else []

/-- A buffer that the loop can have built. -/
structure Ok (t : Trail) : Prop where
  back : t.back = true → t.names ≠ []
  last : t.back = false → ∀ c, t.names.getLast? = some c → c ≠ []
  first : ∀ c, t.names.head? = some c → c ≠ []
  plain : ∀ c ∈ t.names, slash ∉ c

theorem Ok.root : Ok root := by
  constructor <;> simp [Trail.root]

theorem Ok.back_of_nil {t : Trail} (h : t.Ok) (hroot : t.names = []) : t.back = false := by
  by_contra hb
  exact h.back (by simpa using hb) hroot

/-- A component of a path: not empty and without a slash. -/
def Component (c : CString) : Prop := c ≠ [] ∧ slash ∉ c

theorem Ok.step {t : Trail} (h : t.Ok) {c : CString} (hc : Component c) : (t.step c).Ok := by
  obtain ⟨hne, hplain⟩ := hc
  simp only [Trail.step]
  split
  · exact h
  · split
    · constructor
      · intro hlt hnil
        have hlen := congrArg List.length hnil
        simp only [decide_eq_true_eq, List.length_dropLast, List.length_nil] at hlt hlen
        omega
      · -- The `..` led to the root.
        intro hlt d hd
        have hnil : t.names.dropLast = [] := by grind
        simp [hnil] at hd
      · intro d hd
        cases hn : t.names with
        | nil => simp [hn] at hd
        | cons a as =>
          cases as with
          | nil => simp [hn] at hd
          | cons b bs =>
            apply h.first d
            simpa [hn] using hd
      · intro d hd
        exact h.plain d ((List.dropLast_sublist _).subset hd)
    · constructor
      · simp
      · intro _ d hd
        cases hb : t.back <;> simp [hb] at hd <;> simpa [← hd] using hne
      · intro d hd
        cases hn : t.names with
        | nil =>
          have hb : t.back = false := h.back_of_nil hn
          simp only [hn, hb, Bool.false_eq_true, if_false, List.nil_append, List.head?_cons,
            Option.some.injEq] at hd
          exact hd ▸ hne
        | cons a as =>
          apply h.first d
          simpa [hn] using hd
      · intro d hd
        cases hb : t.back <;> simp [hb] at hd <;> grind [h.plain d]

/-! ### What the body of the loop does to it -/

/-- Backing up from inside a name ends behind the slash in front of it. -/
theorem backUp_append (u : CString) {c : CString} (hc : slash ∉ c) :
    backUp (u ++ slash :: c) = u ++ [slash] := by
  induction c using List.reverseRecOn with
  | nil => rw [backUp, if_neg (by simp)]
  | append_singleton c a ih =>
    simp only [List.mem_append, List.mem_singleton, not_or] at hc
    have hsplit : u ++ slash :: (c ++ [a]) = (u ++ slash :: c) ++ [a] := by simp
    have hinside : 1 < ((u ++ slash :: c) ++ [a]).length ∧
        ((u ++ slash :: c) ++ [a]).getLast? ≠ some slash := by grind
    rw [hsplit, backUp, if_pos hinside, List.dropLast_concat]
    exact ih hc.1

theorem render_concat (ns : List CString) (c : CString) :
    render (ns ++ [c]) = ns.flatMap (slash :: ·) ++ slash :: c := by
  simp [render]

theorem render_of_ne_nil {ns : List CString} (h : ns ≠ []) :
    render ns = ns.flatMap (slash :: ·) := if_neg h

/-- The buffer is longer than its first slash exactly below the root. -/
theorem one_lt_length_out {t : Trail} (h : t.Ok) : 1 < t.out.length ↔ t.names ≠ [] := by
  obtain ⟨names, back⟩ := t
  induction names using List.reverseRecOn with
  | nil =>
    cases back with
    | false => simp [out, render]
    | true => exact absurd rfl (h.back rfl)
  | append_singleton ns c _ =>
    simp only [out, render_concat, List.length_append, List.length_cons, ne_eq,
      List.append_eq_nil_iff, List.cons_ne_nil, and_false, not_false_eq_true, iff_true]
    cases back with
    | false =>
      have := List.length_pos_iff.mpr (h.last rfl c (by simp))
      omega
    | true =>
      simp only [if_true, List.length_singleton]
      omega

/-- A `..` pops a name and keeps the slash in front of it. -/
theorem component_dotdot {t : Trail} (h : t.Ok) :
    component t.out [dot, dot] = some (t.step [dot, dot]).out := by
  have hne : ([dot, dot] : CString) ≠ [dot] := by simp
  rw [component, if_neg hne, if_pos rfl, step, if_neg hne, if_pos rfl]
  by_cases hroot : t.names = []
  · rw [if_neg (by rw [one_lt_length_out h]; exact not_not_intro hroot)]
    simp [hroot, out, h.back_of_nil hroot]
  · rw [if_pos ((one_lt_length_out h).mpr hroot)]
    obtain ⟨ns, c, hns⟩ := (List.eq_nil_or_concat' t.names).resolve_left hroot
    have hc : slash ∉ c := h.plain c (by simp [hns])
    have hup : backUp t.out.dropLast = ns.flatMap (slash :: ·) ++ [slash] := by
      cases hb : t.back with
      | true =>
        have hsplit : t.out = (ns.flatMap (slash :: ·) ++ slash :: c) ++ [slash] := by
          simp [out, hb, hns, render_concat]
        rw [hsplit, List.dropLast_concat, backUp_append _ hc]
      | false =>
        -- The last byte dropped is one of the name.
        obtain ⟨d, a, rfl⟩ := (List.eq_nil_or_concat' c).resolve_left
          (h.last hb c (by simp [hns]))
        have hd : slash ∉ d := fun hmem => hc (List.mem_append_left _ hmem)
        have hsplit : t.out = (ns.flatMap (slash :: ·) ++ slash :: d) ++ [a] := by
          simp [out, hb, hns, render_concat]
        rw [hsplit, List.dropLast_concat, backUp_append _ hd]
    rw [hup, hns, List.dropLast_concat]
    cases ns with
    | nil => simp [out, render]
    | cons a as => simp [out, render]

theorem out_step_name {t : Trail} (h : t.Ok) {c : CString} (hdot : c ≠ [dot])
    (hdots : c ≠ [dot, dot]) :
    (t.step c).out = if 1 < t.out.length then t.out ++ [slash] ++ c else t.out ++ c := by
  rw [step, if_neg hdot, if_neg hdots]
  by_cases hroot : t.names = []
  · simp [out, render, hroot, h.back_of_nil hroot]
  · rw [if_pos ((one_lt_length_out h).mpr hroot)]
    cases hb : t.back <;> simp [out, render, hroot, hb]

theorem component_name {t : Trail} (h : t.Ok) {c : CString} (hdot : c ≠ [dot])
    (hdots : c ≠ [dot, dot]) :
    component t.out c =
      if pathBuf ≤ (t.step c).out.length then none else some (t.step c).out := by
  rw [component, if_neg hdot, if_neg hdots, out_step_name h hdot hdots]
  by_cases hlong : 1 < t.out.length
  · grind
  · rw [if_neg hlong, if_neg hlong, List.length_append]

/-- A `..` does not make the path longer. -/
theorem length_render_dropLast {ns : List CString} (h : (render ns).length < pathBuf) :
    (render ns.dropLast).length < pathBuf := by
  cases ns using List.reverseRecOn with
  | nil => exact h
  | append_singleton ns c _ =>
    rw [render_concat, List.length_append, List.length_cons] at h
    rw [List.dropLast_concat]
    by_cases hnil : ns = []
    · simp [hnil, render, pathBuf]
    · rw [render_of_ne_nil hnil]
      omega

/-- **The body of the loop.**  It takes the trail one step, and fails when the
step makes the path too long for the buffer. -/
theorem component_eq {t : Trail} (h : t.Ok) (hfit : (render t.names).length < pathBuf)
    (c : CString) :
    component t.out c =
      if pathBuf ≤ (render (t.step c).names).length then none else some (t.step c).out := by
  by_cases hdot : c = [dot]
  · have hstep : t.step c = t := if_pos hdot
    rw [component, if_pos hdot, hstep, if_neg (Nat.not_le.mpr hfit)]
  by_cases hdots : c = [dot, dot]
  · have hstep : (t.step [dot, dot]).names = t.names.dropLast := by simp [step]
    rw [hdots, component_dotdot h, hstep,
      if_neg (Nat.not_le.mpr (length_render_dropLast hfit))]
  · have hout : (t.step c).out = render (t.step c).names := by
      simp [step, out, hdot, hdots]
    rw [component_name h hdot hdots, hout]

end Trail

/-- The buffer after some components, as long as all of it fits. -/
def trail (cs : List CString) : Trail := cs.foldl Trail.step Trail.root

/-- Somewhere on the way the path is too long for a buffer of `PATH_BUF` bytes. -/
def Overflows (cs : List CString) : Prop :=
  ∃ pre ∈ cs.inits, pathBuf ≤ (render (trail pre).names).length

instance (cs : List CString) : Decidable (Overflows cs) := List.decidableBEx _ _

theorem slash_notMem_of_mem_splitOn {p c : CString} (h : c ∈ p.splitOn slash) : slash ∉ c := by
  induction p generalizing c with
  | nil => simp_all
  | cons a p ih =>
    rw [List.splitOn_cons_eq_if_modifyHead] at h
    by_cases ha : a = slash
    · grind
    · rw [if_neg (by simpa using ha)] at h
      cases hs : p.splitOn slash with
      | nil => simp [hs] at h
      | cons d ds =>
        rw [hs, List.modifyHead_cons, List.mem_cons] at h
        rcases h with rfl | h
        · simp [Ne.symm ha, ih (c := d) (by simp [hs])]
        · exact ih (by simp [hs, h])

theorem component_of_mem {p c : CString} (h : c ∈ components p) : Trail.Component c := by
  rw [components, List.mem_filter] at h
  exact ⟨by simpa using h.2, slash_notMem_of_mem_splitOn h.1⟩

theorem foldlM_component {t : Trail} (h : t.Ok) (hfit : (render t.names).length < pathBuf)
    {cs : List CString} (hcs : ∀ c ∈ cs, Trail.Component c) :
    cs.foldlM component t.out =
      if ∃ pre ∈ cs.inits, pathBuf ≤ (render (pre.foldl Trail.step t).names).length then none
      else some (cs.foldl Trail.step t).out := by
  induction cs generalizing t with
  | nil => simp [Nat.not_le.mpr hfit]
  | cons c cs ih =>
    rw [List.foldlM_cons, Trail.component_eq h hfit]
    by_cases hlong : pathBuf ≤ (render (t.step c).names).length
    · rw [if_pos hlong, if_pos ⟨[c], by simp, hlong⟩]
      rfl
    · have hstep := ih (h.step (hcs c List.mem_cons_self)) (Nat.not_le.mp hlong)
        (fun d hd => hcs d (List.mem_cons_of_mem c hd))
      rw [if_neg hlong, Option.bind_eq_bind, Option.bind_some, hstep, List.foldl_cons]
      apply if_congr _ rfl rfl
      simp [Nat.not_le.mpr hfit]

theorem Trail.Ok.foldl {t : Trail} (h : t.Ok) {cs : List CString}
    (hcs : ∀ c ∈ cs, Trail.Component c) : (cs.foldl Trail.step t).Ok := by
  induction cs generalizing t with
  | nil => exact h
  | cons c cs ih =>
    exact ih (h.step (hcs c List.mem_cons_self)) (fun d hd => hcs d (List.mem_cons_of_mem c hd))

theorem trail_ok (p : CString) : (trail (components p)).Ok :=
  Trail.Ok.root.foldl fun _ hc => component_of_mem hc

theorem Trail.Ok.trim {t : Trail} (h : t.Ok) :
    (if 1 < t.out.length ∧ t.out.getLast? = some slash then t.out.dropLast else t.out) =
      render t.names := by
  cases hb : t.back with
  | true =>
    have hout : t.out = render t.names ++ [slash] := by simp [out, hb]
    rw [if_pos ⟨(one_lt_length_out h).mpr (h.back hb), by simp [hout]⟩, hout,
      List.dropLast_concat]
  | false =>
    have hout : t.out = render t.names := by simp [out, hb]
    rw [if_neg, hout]
    intro ⟨hlen, hlast⟩
    obtain ⟨ns, c, hns⟩ := (List.eq_nil_or_concat' t.names).resolve_left
      ((one_lt_length_out h).mp hlen)
    obtain ⟨d, a, rfl⟩ := (List.eq_nil_or_concat' c).resolve_left (h.last hb c (by simp [hns]))
    have hsplit : t.out = (ns.flatMap (slash :: ·) ++ slash :: d) ++ [a] := by
      simp [hout, hns, render_concat]
    rw [hsplit, List.getLast?_concat, Option.some.injEq] at hlast
    apply h.plain (d ++ [a]) (by simp [hns])
    simp [hlast]

/-- **What `abs_path` returns**: the names of the trail, unless it overflows. -/
theorem absPath_eq (cwd path : CString) :
    absPath cwd (some path) =
      if Overflows (components (joined cwd path)) then none
      else some (render (trail (components (joined cwd path))).names) := by
  have hloop : (components (joined cwd path)).foldlM component [slash] =
      if Overflows (components (joined cwd path)) then none
      else some (trail (components (joined cwd path))).out :=
    foldlM_component Trail.Ok.root (by decide) (fun _ hc => component_of_mem hc)
  rw [absPath, Option.bind_some, absLoop_eq_foldlM, hloop]
  by_cases hover : Overflows (components (joined cwd path))
  · rw [if_pos hover, if_pos hover]
    rfl
  · rw [if_neg hover, if_neg hover, Option.map_some]
    exact congrArg some (trail_ok (joined cwd path)).trim

end Libc
