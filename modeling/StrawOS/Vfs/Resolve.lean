import StrawOS.Vfs.Path

/-!
# Path resolution

`vfs_resolve` picks a mount by comparing strings and then walks the rest of the
path one cut component at a time.  The lookups are those of the mounted file
systems: they may change the state (a directory is read when it is first looked
into), and a node may have no lookup operation at all, so resolution is over an
arbitrary state type and an arbitrary `Lookup`.

What a path ought to resolve to is `resolveByComponents`: split the path, take
the mount with the longest list of components that starts the path's, and look
up the rest, one lookup for each component.  The two differ, and
`vfsResolve_agrees_iff` says exactly when they agree on every file system.
-/

namespace Vfs

/-- The `lookup` operations of the nodes: `none` for a node that has none, else
the child of a given name, if there is one, and the state after the lookup. -/
abbrev Lookup (σ N : Type) := σ → N → Option (CString → Option N × σ)

variable {σ N : Type}

/-- Look one name up in a node. -/
def lookupIn (lookup : Lookup σ N) (st : σ) (cur : N) (name : CString) : Option N × σ :=
  match lookup st cur with
  | none => (none, st)
  | some op => op name

/-- The outer loop of `vfs_resolve`, from a node and a cursor in the path. -/
def walkPath (lookup : Lookup σ N) (st : σ) (cur : N) (p : CString) : Option N × σ :=
  if h : p = [] then (some cur, st)
  else
    have := nextCursor_lt h
    if (cutComponent 0 p).1 = [] then walkPath lookup st cur (nextCursor p)
    else
      match lookupIn lookup st cur (cutComponent 0 p).1 with
      | (none, st') => (none, st')
      | (some next, st') => walkPath lookup st' next (nextCursor p)
termination_by p.length

def vfsResolve (lookup : Lookup σ N) (t : MountTable N) (st : σ) (path : CString) :
    Option N × σ :=
  if path.head? ≠ some slash then (none, st)
  else
    match findMountFor t path with
    | none => (none, st)
    | some (mnt, remainder) =>
        -- `if (*remainder == '/') remainder++`
        let remainder := if remainder.head? = some slash then remainder.tail else remainder
        if remainder = [] then (some mnt.root, st)
        else walkPath lookup st mnt.root remainder

/-- The position of the last slash of a path, `0` if there is none. -/
def lastSlash (path : CString) : Nat :=
  (List.range path.length).foldl (fun last i => if path[i]? = some slash then i else last) 0

/-- `resolve_parent`: the directory a path's last component would be in, and
that component. -/
def resolveParent (lookup : Lookup σ N) (t : MountTable N) (st : σ) (path : CString) :
    Option (N × CString) × σ :=
  if path.head? ≠ some slash then (none, st)
  else
    let last := lastSlash path
    let leaf := path.drop (last + 1)
    if leaf = [] ∨ vfsNameMax ≤ leaf.length then (none, st)
    else if last = 0 then
      let r := vfsResolve lookup t st rootPath
      (r.1.map (·, leaf), r.2)
    else if vfsPathMax ≤ last then (none, st)
    else
      let r := vfsResolve lookup t st (path.take last)
      (r.1.map (·, leaf), r.2)

/-! ## The reference -/

/-- Look up a list of components, one after the other; a component that no
name buffer can hold is missing. -/
def walkComponents (lookup : Lookup σ N) : σ → N → List CString → Option N × σ
  | st, cur, [] => (some cur, st)
  | st, cur, c :: cs =>
      if vfsNameMax ≤ c.length then (none, st)
      else
        match lookupIn lookup st cur c with
        | (none, st') => (none, st')
        | (some next, st') => walkComponents lookup st' next cs

/-- The mount a list of components belongs to: the one whose own components
are the longest prefix, the first in the table if several are. -/
def nearestMount (t : MountTable N) (cs : List CString) : Option (VfsMount N) :=
  (t.mounted.filter fun m => components m.path <+: cs).argmax fun m => (components m.path).length

/-- What a path ought to resolve to. -/
def resolveByComponents (lookup : Lookup σ N) (t : MountTable N) (st : σ) (path : CString) :
    Option N × σ :=
  match nearestMount t (components path) with
  | none => (none, st)
  | some m =>
      walkComponents lookup st m.root ((components path).drop (components m.path).length)

/-! ## The walk -/

/-- Look up a list of names, whatever their length. -/
def lookupAll (lookup : Lookup σ N) : σ → N → List CString → Option N × σ
  | st, cur, [] => (some cur, st)
  | st, cur, c :: cs =>
      match lookupIn lookup st cur c with
      | (none, st') => (none, st')
      | (some next, st') => lookupAll lookup st' next cs

theorem walkPath_eq_lookupAll (lookup : Lookup σ N) (st : σ) (cur : N) (p : CString) :
    walkPath lookup st cur p = lookupAll lookup st cur (chunks p) := by
  induction p using chunks.induct generalizing st cur with
  | case1 => rw [walkPath, dif_pos rfl, chunks_nil, lookupAll]
  | case2 p hp _ hcut ih =>
    rw [walkPath, chunks, dif_neg hp, dif_neg hp, if_pos hcut, if_pos hcut, ih]
  | case3 p hp _ hcut ih =>
    rw [walkPath, chunks, dif_neg hp, dif_neg hp, if_neg hcut, if_neg hcut, lookupAll]
    split
    · rfl
    · exact ih _ _

/-- The reference walk is the plain one as long as every component fits. -/
theorem walkComponents_eq_lookupAll (lookup : Lookup σ N) (st : σ) (cur : N) (cs : List CString)
    (hfit : ∀ c ∈ cs, c.length < vfsNameMax) :
    walkComponents lookup st cur cs = lookupAll lookup st cur cs := by
  induction cs generalizing st cur with
  | nil => rfl
  | cons c cs ih =>
    have hc : ¬ vfsNameMax ≤ c.length := Nat.not_le_of_lt (hfit c List.mem_cons_self)
    rw [walkComponents, lookupAll, if_neg hc]
    split
    · rfl
    · exact ih _ _ fun d hd => hfit d (List.mem_cons_of_mem _ hd)

theorem chunks_tail_slash {p : CString} (h : p.head? = some slash) : chunks p.tail = chunks p := by
  cases p with
  | nil => simp at h
  | cons c p =>
    obtain rfl : c = slash := by simpa using h
    rw [chunks_slash_cons, chunks_skipSlashes, List.tail_cons]

/-- After the mount is found, `vfs_resolve` looks up the chunks of the rest. -/
theorem vfsResolve_eq_lookupAll (lookup : Lookup σ N) (t : MountTable N) (st : σ)
    {path : CString} (habs : path.head? = some slash) {m : VfsMount N} {rest : CString}
    (h : findMountFor t path = some (m, rest)) :
    vfsResolve lookup t st path = lookupAll lookup st m.root (chunks rest) := by
  have hskip : chunks (if rest.head? = some slash then rest.tail else rest) = chunks rest := by
    split
    · rename_i hhead
      exact chunks_tail_slash hhead
    · rfl
  rw [vfsResolve, if_neg (by simpa using habs), h, ← hskip]
  dsimp only
  generalize (if rest.head? = some slash then rest.tail else rest) = r
  by_cases hnil : r = []
  · rw [if_pos hnil, hnil, chunks_nil, lookupAll]
  · rw [if_neg hnil, walkPath_eq_lookupAll]

/-! ## The mount -/

/-- The best of the elements with a property has it, and is as good as any. -/
theorem argmax_filter_spec {α : Type*} {f : α → Nat} {p : α → Prop} [DecidablePred p]
    {l : List α} {b : α} (h : b ∈ (l.filter (p ·)).argmax f) :
    b ∈ l ∧ p b ∧ ∀ a ∈ l, p a → f a ≤ f b := by
  have hmem := List.mem_filter.mp (List.argmax_mem h)
  refine ⟨hmem.1, of_decide_eq_true hmem.2, ?_⟩
  intro a ha hp
  have hfilter : a ∈ l.filter (p ·) := List.mem_filter.mpr ⟨ha, decide_eq_true hp⟩
  exact List.le_of_mem_argmax hfilter h

theorem argmax_filter_eq_none {α : Type*} {f : α → Nat} {p : α → Prop} [DecidablePred p]
    {l : List α} : (l.filter (p ·)).argmax f = none ↔ ∀ a ∈ l, ¬ p a := by
  simp

/-- The rest of a path behind a mount spelled in it. -/
def restAfter (m : VfsMount N) (path : CString) : CString :=
  if m.path = rootPath then path else path.drop m.path.length

theorem findMountFor_eq (t : MountTable N) (path : CString) :
    findMountFor t path =
      ((t.mounted.filter (Spelled · path)).argmax (·.path.length)).map
        fun m => (m, restAfter m path) := by
  rw [findMountFor, findMountLoop_eq_argmax]
  cases (t.mounted.filter (Spelled · path)).argmax (·.path.length) with
  | none => rfl
  | some m =>
    simp only [restAfter, Option.map_some]
    split <;> rfl

theorem Spelled.components_eq {m : VfsMount N} {path : CString} (h : Spelled m path) :
    components path = components m.path ++ components (restAfter m path) := by
  by_cases hroot : m.path = rootPath
  · rw [restAfter, if_pos hroot, hroot]
    simp [rootPath]
  · rw [restAfter, if_neg hroot]
    obtain ⟨hpre, hb⟩ := h.2.resolve_left hroot
    obtain ⟨r, hr⟩ := hpre
    subst hr
    rw [List.drop_left]
    apply components_append_boundary
    cases r with
    | nil => exact Or.inl rfl
    | cons c r => exact Or.inr (by simpa [AtBoundary] using hb)

/-- Two mounts spelled in an absolute path at the same length are spelled alike. -/
theorem Spelled.path_eq {m m' : VfsMount N} {path : CString} (habs : path.head? = some slash)
    (h : Spelled m path) (h' : Spelled m' path) (hlen : m.path.length = m'.path.length) :
    m.path = m'.path := by
  have hpre : ∀ s : VfsMount N, Spelled s path → s.path <+: path := by
    intro s hs
    rcases hs.2 with hroot | hs
    · cases path with
      | nil => simp at habs
      | cons c path =>
        obtain rfl : c = slash := by simpa using habs
        exact ⟨path, by simp [hroot, rootPath]⟩
    · exact hs.1
  exact (List.prefix_of_prefix_length_le (hpre m h) (hpre m' h') hlen.le).eq_of_length hlen

/-- The mount a path is spelled under: the longest of the mounts it literally
starts with. -/
def SpelledUnder (t : MountTable N) (path : CString) (s : VfsMount N) : Prop :=
  s ∈ t.mounted ∧ Spelled s path ∧
    ∀ s' ∈ t.mounted, Spelled s' path → s'.path.length ≤ s.path.length

/-- `find_mount_for` finds the mount a path is spelled under. -/
theorem findMountFor_eq_some_iff (t : MountTable N) {path : CString}
    (habs : path.head? = some slash) (s : VfsMount N) (rest : CString) :
    findMountFor t path = some (s, rest) ↔ SpelledUnder t path s ∧ rest = restAfter s path := by
  rw [findMountFor_eq, Option.map_eq_some_iff]
  constructor
  · intro h
    obtain ⟨b, hb, hpair⟩ := h
    obtain ⟨rfl, rfl⟩ := Prod.mk.inj hpair
    exact ⟨argmax_filter_spec hb, rfl⟩
  · intro h
    obtain ⟨hs, rfl⟩ := h
    cases hb : (t.mounted.filter (Spelled · path)).argmax (·.path.length) with
    | none => exact absurd hs.2.1 (argmax_filter_eq_none.mp hb s hs.1)
    | some b =>
      have hb' : SpelledUnder t path b := argmax_filter_spec hb
      have hlen := Nat.le_antisymm (hs.2.2 b hb'.1 hb'.2.1) (hb'.2.2 s hs.1 hs.2.1)
      have := t.eq_of_path_eq hb'.1 hs.1 (hb'.2.1.path_eq habs hs.2.1 hlen)
      exact ⟨b, rfl, by rw [this]⟩

theorem findMountFor_eq_none_iff (t : MountTable N) (path : CString) :
    findMountFor t path = none ↔ ∀ s ∈ t.mounted, ¬ Spelled s path := by
  rw [findMountFor_eq, Option.map_eq_none_iff, argmax_filter_eq_none]

/-! ## When the two agree -/

/-- What resolution gets right.  Where some mount's components start the path's,
let `m` be the nearest of these: either the mount the path is spelled under is
`m`, under whatever spelling, and every further component fits a name buffer;
or the path is spelled under no mount and the first further component is too
long, so that both resolutions fail before any lookup. -/
def SpelledAsSplit (t : MountTable N) (path : CString) : Prop :=
  ∀ m ∈ nearestMount t (components path),
    let further := (components path).drop (components m.path).length
    ((∃ s, SpelledUnder t path s ∧ components s.path = components m.path ∧ s.root = m.root) ∧
        ∀ c ∈ further, c.length < vfsNameMax) ∨
      ((∀ s ∈ t.mounted, ¬ Spelled s path) ∧ ∃ c ∈ further.head?, vfsNameMax ≤ c.length)

/-- On a path spelled as it splits, resolution is what it ought to be. -/
theorem vfsResolve_eq_of_spelledAsSplit {t : MountTable N} {path : CString}
    (habs : path.head? = some slash) (h : SpelledAsSplit t path) (lookup : Lookup σ N) (st : σ) :
    vfsResolve lookup t st path = resolveByComponents lookup t st path := by
  have hunfound : (∀ s ∈ t.mounted, ¬ Spelled s path) →
      vfsResolve lookup t st path = (none, st) := by
    intro hnone
    rw [vfsResolve, if_neg (by simpa using habs), (findMountFor_eq_none_iff t path).mpr hnone]
  rw [resolveByComponents]
  cases hm : nearestMount t (components path) with
  | none =>
    -- A mount spelled in the path would have components that start the path's.
    apply hunfound
    intro s hs hsp
    exact argmax_filter_eq_none.mp hm s hs (hsp.components_eq ▸ List.prefix_append _ _)
  | some m =>
    rcases h m hm with ⟨⟨s, hs, hcomp, hroot⟩, hfit⟩ | ⟨hnone, c, hc, hlong⟩
    · have hrest : (components path).drop (components m.path).length =
          components (restAfter s path) := by
        rw [hs.2.1.components_eq, hcomp, List.drop_left]
      rw [hrest] at hfit
      rw [vfsResolve_eq_lookupAll lookup t st habs
        ((findMountFor_eq_some_iff t habs s _).mpr ⟨hs, rfl⟩), hroot,
        chunks_eq_components _ hfit]
      dsimp only
      rw [hrest, walkComponents_eq_lookupAll _ _ _ _ hfit]
    · rw [hunfound hnone]
      dsimp only
      obtain ⟨cs, hcs⟩ : ∃ cs, (components path).drop (components m.path).length = c :: cs := by
        obtain ⟨cs, hcs⟩ := List.head?_eq_some_iff.mp hc
        exact ⟨cs, hcs⟩
      rw [hcs, walkComponents, if_pos hlong]

/-! ### A file system that tells every two walks apart -/

/-- Every name leads back to the node it is looked up in, and the state records
the lookups made. -/
def recording : Lookup (List (N × CString)) N :=
  fun st cur => some fun name => (some cur, st ++ [(cur, name)])

theorem lookupAll_recording (st : List (N × CString)) (cur : N) (cs : List CString) :
    lookupAll recording st cur cs = (some cur, st ++ cs.map (cur, ·)) := by
  induction cs generalizing st with
  | nil => simp [lookupAll]
  | cons c cs ih => simp [lookupAll, lookupIn, recording, ih]

theorem fits_of_walkComponents_isSome {lookup : Lookup σ N} {st : σ} {cur : N}
    {cs : List CString} (h : (walkComponents lookup st cur cs).1.isSome) :
    ∀ c ∈ cs, c.length < vfsNameMax := by
  induction cs generalizing st cur with
  | nil => simp
  | cons c cs ih =>
    rw [walkComponents] at h
    split at h
    · simp at h
    · grind

theorem walkComponents_recording_prefix (st : List (N × CString)) (cur : N) (cs : List CString) :
    st <+: (walkComponents recording st cur cs).2 := by
  induction cs generalizing st with
  | nil => exact List.prefix_rfl
  | cons c cs ih =>
    rw [walkComponents]
    split
    · exact List.prefix_rfl
    · exact (List.prefix_append _ _).trans (ih _)

/-- **Resolution, exactly.**  On every file system `vfs_resolve` returns what
the components of an absolute path say, if and only if the path is spelled as
it splits. -/
theorem vfsResolve_agrees_iff (t : MountTable N) (rest : CString) :
    (∀ (σ : Type) (lookup : Lookup σ N) (st : σ),
      vfsResolve lookup t st (slash :: rest) = resolveByComponents lookup t st (slash :: rest)) ↔
    SpelledAsSplit t (slash :: rest) := by
  have habs : (slash :: rest).head? = some slash := rfl
  generalize slash :: rest = path at habs ⊢
  constructor
  · intro h m hm
    have hrec := h _ recording []
    rw [resolveByComponents, Option.mem_def.mp hm] at hrec
    dsimp only at hrec
    cases hfound : findMountFor t path with
    | none =>
      have hnone := (findMountFor_eq_none_iff t path).mp hfound
      rw [vfsResolve, if_neg (by simpa using habs), hfound] at hrec
      refine Or.inr ⟨hnone, ?_⟩
      cases hcs : (components path).drop (components m.path).length with
      | nil => simp [hcs, walkComponents] at hrec
      | cons c cs =>
        refine ⟨c, rfl, ?_⟩
        by_contra hc
        -- The reference would look `c` up, and the record would show it.
        rw [hcs, walkComponents, if_neg hc] at hrec
        have hpre := walkComponents_recording_prefix [(m.root, c)] m.root cs
        rw [show (walkComponents recording [(m.root, c)] m.root cs).2 = [] from
          (congrArg Prod.snd hrec).symm] at hpre
        exact absurd (List.prefix_nil.mp hpre) (by simp)
    | some found =>
      obtain ⟨s, r⟩ := found
      obtain ⟨hs, rfl⟩ := (findMountFor_eq_some_iff t habs s r).mp hfound
      rw [vfsResolve_eq_lookupAll recording t [] habs hfound, lookupAll_recording] at hrec
      have hfit := fits_of_walkComponents_isSome (by rw [← hrec]; rfl)
      rw [walkComponents_eq_lookupAll _ _ _ _ hfit, lookupAll_recording] at hrec
      have hroot : s.root = m.root := Option.some.inj (congrArg Prod.fst hrec)
      refine Or.inl ⟨⟨s, hs, ?_, hroot⟩, hfit⟩
      -- As many lookups as components are left, so the two mounts are equally deep.
      obtain ⟨-, hpre, hmax⟩ := argmax_filter_spec hm
      have hsplit := hs.2.1.components_eq
      have hspre : components s.path <+: components path := hsplit ▸ List.prefix_append _ _
      have hcount := components_length_le_chunks (restAfter s path)
      have hlen := congrArg List.length (congrArg Prod.snd hrec)
      have htotal := congrArg List.length hsplit
      simp only [List.nil_append, List.length_map, List.length_drop, List.length_append]
        at hlen htotal
      have hle := hmax s hs.1 hspre
      have hple := hpre.length_le
      exact (List.prefix_of_prefix_length_le hspre hpre hle).eq_of_length (by omega)
  · intro h σ lookup st
    exact vfsResolve_eq_of_spelledAsSplit habs h lookup st

/-! ### Where they part -/

/-- A volume at `/`, node `0`, and another at `/mnt`, node `1`. -/
def twoVolumes : MountTable Nat :=
  ((vfsMount MountTable.empty rootPath 0).bind (vfsMount · (ofAscii "/mnt") 1)).getD
    MountTable.empty

/-- The first volume has a directory `mnt`, node `2`, and a directory with a
name of 63 letters, node `3`, which holds an `a`, node `4`. -/
def smallTree : Lookup Unit Nat := fun _ dir => some fun name =>
  if dir = 0 ∧ name = ofAscii "mnt" then (some 2, ())
  else if dir = 0 ∧ name = List.replicate 63 97 then (some 3, ())
  else if dir = 3 ∧ name = [97] then (some 4, ())
  else (none, ())

/-- A second slash hides the mount from `find_mount_for`, and a component of 64
letters is looked up as two. -/
theorem double_slash_and_long_component :
    vfsResolve smallTree twoVolumes () (ofAscii "//mnt") = (some 2, ()) ∧
    resolveByComponents smallTree twoVolumes () (ofAscii "//mnt") = (some 1, ()) ∧
    vfsResolve smallTree twoVolumes () (slash :: List.replicate 64 97) = (some 4, ()) ∧
    resolveByComponents smallTree twoVolumes () (slash :: List.replicate 64 97) = (none, ()) := by
  refine ⟨?_, by decide +kernel, ?_, by decide +kernel⟩
  · decide +kernel
  · decide +kernel

end Vfs
