import Mathlib.Data.List.MinMax
import Mathlib.Data.List.Nodup

/-!
# Path strings and their components

A path is a C string: the list of its bytes before the terminating NUL.  The
kernel never splits a path up front.  It cuts one component at a time into a
buffer of `VFS_NAME_MAX` bytes, and the first half of this file is that loop,
`cutComponent` and `skipSlashes`.

The second half is what a path means, `components`: the runs of bytes between
slashes, without the empty ones.  `chunks_eq_components` is where the two meet:
cutting follows the components as long as every one of them fits the buffer.
-/

namespace Vfs

/-- A C string: its bytes up to, and without, the terminating NUL. -/
abbrev CString := List UInt8

/-- The bytes of an ASCII literal. -/
def ofAscii (s : String) : CString := s.toList.map fun c => UInt8.ofNat c.toNat

/-- The byte `'/'`. -/
def slash : UInt8 := 47

/-- `VFS_NAME_MAX`: the size of a name buffer, its NUL included. -/
def vfsNameMax : Nat := 64

def vfsPathMax : Nat := 256

/-- The inner loop of `vfs_resolve`: copy bytes into `component`, `i` of them
being there already, up to a slash, the end of the path or the end of the
buffer.  Returns what was copied and where the cursor stands. -/
def cutComponent : Nat → CString → CString × CString
  | _, [] => ([], [])
  | i, c :: p =>
      if c ≠ slash ∧ i < vfsNameMax - 1 then
        let cut := cutComponent (i + 1) p
        (c :: cut.1, cut.2)
      else ([], c :: p)

/-- `while (*p == '/') p++`. -/
def skipSlashes (p : CString) : CString := p.dropWhile (· == slash)

theorem cutComponent_append (i : Nat) (p : CString) :
    (cutComponent i p).1 ++ (cutComponent i p).2 = p := by
  induction p generalizing i with
  | nil => rfl
  | cons c p ih =>
    simp only [cutComponent]
    split
    · simp [ih]
    · rfl

theorem slash_notMem_cutComponent (i : Nat) (p : CString) : slash ∉ (cutComponent i p).1 := by
  induction p generalizing i with
  | nil => simp [cutComponent]
  | cons c p ih =>
    simp only [cutComponent]
    split
    · rename_i h
      simpa using ⟨Ne.symm h.1, ih (i + 1)⟩
    · simp

/-- Cutting stops for one of three reasons: the path ends, a slash comes, or
the buffer is full. -/
theorem cutComponent_stop (i : Nat) (p : CString) (hi : i ≤ vfsNameMax - 1) :
    (cutComponent i p).2 = [] ∨ (cutComponent i p).2.head? = some slash ∨
      i + (cutComponent i p).1.length = vfsNameMax - 1 := by
  induction p generalizing i with
  | nil => simp [cutComponent]
  | cons c p ih =>
    simp only [cutComponent]
    split
    · grind
    · grind

/-- The cursor after one round of the outer loop. -/
def nextCursor (p : CString) : CString := skipSlashes (cutComponent 0 p).2

theorem nextCursor_lt {p : CString} (hp : p ≠ []) : (nextCursor p).length < p.length := by
  have happ := congrArg List.length (cutComponent_append 0 p)
  rw [List.length_append] at happ
  have hdrop : (nextCursor p).length ≤ (cutComponent 0 p).2.length :=
    (List.dropWhile_sublist _).length_le
  by_cases hcut : (cutComponent 0 p).1 = []
  · -- Nothing was cut, so the cursor stands on a slash, which is skipped.
    cases p with
    | nil => exact absurd rfl hp
    | cons c p =>
      have hc : c = slash := by
        by_contra hne
        simp [cutComponent, hne, vfsNameMax] at hcut
      have : (nextCursor (c :: p)).length ≤ p.length := by
        rw [nextCursor, cutComponent, if_neg (by simp [hc]), hc]
        simpa [skipSlashes] using (List.dropWhile_sublist (· == slash) (l := p)).length_le
      simp only [List.length_cons]
      omega
  · have := List.length_pos_iff.mpr hcut
    omega

/-! ## What a path means -/

/-- The components of a path: the runs of bytes between slashes, without the
empty ones. -/
def components (p : CString) : List CString := (p.splitOn slash).filter (· ≠ [])

@[simp] theorem components_nil : components [] = [] := by simp [components]

theorem components_append_slash (p q : CString) :
    components (p ++ slash :: q) = components p ++ components q := by
  simp [components, List.splitOn_append_cons_self]

@[simp] theorem components_slash_cons (p : CString) : components (slash :: p) = components p := by
  simpa using components_append_slash [] p

theorem components_of_slash_notMem {p : CString} (hp : p ≠ []) (h : slash ∉ p) :
    components p = [p] := by
  simp [components, List.splitOn_eq_singleton h, hp]

@[simp] theorem components_skipSlashes (p : CString) :
    components (skipSlashes p) = components p := by
  induction p with
  | nil => rfl
  | cons c p ih =>
    by_cases hc : c = slash
    · subst hc
      simpa [skipSlashes] using ih
    · simp [skipSlashes, hc]

/-- The components of what stands before a boundary and of what follows it. -/
theorem components_append_boundary {m r : CString} (h : r = [] ∨ r.head? = some slash) :
    components (m ++ r) = components m ++ components r := by
  cases r with
  | nil => simp
  | cons c r =>
    have hc : c = slash := by simpa using h
    subst hc
    rw [components_append_slash, components_slash_cons]

/-- A path that starts with some bytes and no slash has them at the start of
its first component, which ends where the next slash or the end comes. -/
theorem components_append_of_slash_notMem {u : CString} (v : CString) (hu : u ≠ [])
    (h : slash ∉ u) :
    ∃ w z, components (u ++ v) = (u ++ w) :: components z ∧ v = w ++ z ∧ slash ∉ w ∧
      (z = [] ∨ z.head? = some slash) := by
  induction v generalizing u with
  | nil => exact ⟨[], [], by simp [components_of_slash_notMem hu h], rfl, by simp, Or.inl rfl⟩
  | cons c v ih =>
    by_cases hc : c = slash
    · subst hc
      rw [components_append_slash, components_of_slash_notMem hu h]
      simp
    · obtain ⟨w, z, hcomp, hv, hw, hz⟩ := ih (u := u ++ [c]) (by simp) (by simp [h, Ne.symm hc])
      refine ⟨c :: w, z, ?_, by simp [hv], by simp [hw, Ne.symm hc], hz⟩
      simpa using hcomp

/-! ## Where cutting and splitting meet -/

/-- The components `vfs_resolve` looks up, in order: one for each round of its
loop that copied something. -/
def chunks (p : CString) : List CString :=
  if h : p = [] then []
  else
    have := nextCursor_lt h
    if (cutComponent 0 p).1 = [] then chunks (nextCursor p)
    else (cutComponent 0 p).1 :: chunks (nextCursor p)
termination_by p.length

@[simp] theorem chunks_nil : chunks [] = [] := by
  rw [chunks, dif_pos rfl]

/-- Cutting gives the components of a path whose components all fit the buffer. -/
theorem chunks_eq_components (p : CString)
    (hfit : ∀ c ∈ components p, c.length < vfsNameMax) : chunks p = components p := by
  induction p using chunks.induct with
  | case1 => simp
  | case2 p hp _ hcut ih =>
    -- The cursor stands on a slash, and skipping slashes skips no component.
    have hrest : (cutComponent 0 p).2 = p := by simpa [hcut] using cutComponent_append 0 p
    have hnext : components (nextCursor p) = components p := by
      rw [nextCursor, components_skipSlashes, hrest]
    rw [chunks, dif_neg hp, if_pos hcut, ih (by simpa [hnext] using hfit), hnext]
  | case3 p hp _ hcut ih =>
    have hp' := cutComponent_append 0 p
    obtain ⟨w, z, hcomp, hrest, hslash, -⟩ := components_append_of_slash_notMem
      (cutComponent 0 p).2 hcut (slash_notMem_cutComponent 0 p)
    rw [hp'] at hcomp
    -- The first component fits, so it was cut whole.
    have hw : w = [] := by
      have hlen := hfit _ (hcomp ▸ List.mem_cons_self)
      rw [List.length_append] at hlen
      rcases cutComponent_stop 0 p (by decide) with hstop | hstop | hstop
      · simp_all
      · cases w with
        | nil => rfl
        | cons d w => simp_all
      · have : w.length = 0 := by omega
        exact List.length_eq_zero_iff.mp this
    subst hw
    have hnext : components (nextCursor p) = components z := by
      rw [nextCursor, components_skipSlashes, hrest, List.nil_append]
    rw [chunks, dif_neg hp, if_neg hcut, ih ?_, hnext, hcomp, List.append_nil]
    intro c hc
    exact hfit c (hcomp ▸ List.mem_cons_of_mem _ (hnext ▸ hc))

theorem components_length_le_chunks (p : CString) :
    (components p).length ≤ (chunks p).length := by
  induction p using chunks.induct with
  | case1 => simp
  | case2 p hp _ hcut ih =>
    have hrest : (cutComponent 0 p).2 = p := by simpa [hcut] using cutComponent_append 0 p
    have hnext : components (nextCursor p) = components p := by
      rw [nextCursor, components_skipSlashes, hrest]
    rw [chunks, dif_neg hp, if_pos hcut, ← hnext]
    exact ih
  | case3 p hp _ hcut ih =>
    obtain ⟨w, z, hcomp, hrest, -, hz⟩ := components_append_of_slash_notMem
      (cutComponent 0 p).2 hcut (slash_notMem_cutComponent 0 p)
    rw [cutComponent_append] at hcomp
    rw [nextCursor, components_skipSlashes, hrest, components_append_boundary hz,
      List.length_append] at ih
    rw [chunks, dif_neg hp, if_neg hcut, hcomp, List.length_cons, List.length_cons]
    simp only [nextCursor, hrest]
    omega

theorem chunks_slash_cons (p : CString) : chunks (slash :: p) = chunks (skipSlashes p) := by
  rw [chunks, dif_neg (by simp), if_pos (by simp [cutComponent])]
  simp [nextCursor, cutComponent, skipSlashes]

theorem chunks_skipSlashes (p : CString) : chunks (skipSlashes p) = chunks p := by
  cases p with
  | nil => rfl
  | cons c p =>
    by_cases hc : c = slash
    · subst hc
      rw [chunks_slash_cons]
      simp [skipSlashes]
    · simp [skipSlashes, hc]

end Vfs

/-!
# The mount table

Eight slots, each free or holding a mount: a path string, as it was spelled
when the volume was mounted, and the root node of the volume.  `vfs_mount`
keeps the spellings of the used slots apart and below `VFS_NAME_MAX` bytes, so
the table carries both facts.

`find_mount_for` compares strings, not components.  `findMountFor_eq` says what
its loop computes: the longest of the mounts that the path literally starts
with, up to a slash or its end.
-/

namespace Vfs

def vfsMaxMounts : Nat := 8

/-- A used slot.  The source's `used` flag is the `some` of a slot; what an
unused slot still holds is never read. -/
structure VfsMount (N : Type*) where
  path : CString
  root : N
  deriving DecidableEq

/-- The used slots, in table order. -/
def mountedSlots {N : Type*} (slots : List (Option (VfsMount N))) : List (VfsMount N) :=
  slots.filterMap id

/-- The mount table. -/
structure MountTable (N : Type*) where
  slots : List (Option (VfsMount N))
  length_eq : slots.length = vfsMaxMounts
  path_lt : ∀ m ∈ mountedSlots slots, m.path.length < vfsNameMax
  distinct : ((mountedSlots slots).map (·.path)).Nodup

variable {N : Type*}

/-- The mounts of a table, in table order. -/
def MountTable.mounted (t : MountTable N) : List (VfsMount N) := mountedSlots t.slots

/-- The path of the root mount. -/
def rootPath : CString := [slash]

/-- The table at boot. -/
def MountTable.empty : MountTable N where
  slots := List.replicate vfsMaxMounts none
  length_eq := by simp
  path_lt := by simp [mountedSlots]
  distinct := by simp [mountedSlots]

theorem MountTable.eq_of_path_eq (t : MountTable N) {m m' : VfsMount N} (hm : m ∈ t.mounted)
    (hm' : m' ∈ t.mounted) (h : m.path = m'.path) : m = m' :=
  List.inj_on_of_nodup_map t.distinct hm hm' h

/-! ## Mounting and unmounting -/

def vfsRoot (t : MountTable N) : Option N :=
  (t.mounted.find? fun m => m.path = rootPath).map (·.root)

theorem mountedSlots_set_perm {slots : List (Option (VfsMount N))} {i : Nat} (m : VfsMount N)
    (h : slots[i]? = some none) :
    (mountedSlots (slots.set i (some m))).Perm (m :: mountedSlots slots) := by
  induction slots generalizing i with
  | nil => simp at h
  | cons s slots ih =>
    cases i with
    | zero =>
      obtain rfl : s = none := by simpa using h
      simp [mountedSlots]
    | succ i =>
      have hrest := ih (i := i) (by simpa using h)
      cases s with
      | none => simpa [mountedSlots] using hrest
      | some m' =>
        exact (hrest.cons m').trans (List.Perm.swap m m' _)

theorem mountedSlots_set_none_sublist (slots : List (Option (VfsMount N))) (i : Nat) :
    (mountedSlots (slots.set i none)).Sublist (mountedSlots slots) := by
  induction slots generalizing i with
  | nil => simp
  | cons s slots ih =>
    cases i with
    | zero => cases s <;> simp [mountedSlots]
    | succ i => cases s <;> simpa [mountedSlots] using ih i

theorem mountedSlots_firstFree {slots : List (Option (VfsMount N))} {i : Nat} (m : VfsMount N)
    (h : slots.findIdx? (·.isNone) = some i) :
    (mountedSlots (slots.set i (some m))).Perm (m :: mountedSlots slots) := by
  obtain ⟨hi, hnone, -⟩ := List.findIdx?_eq_some_iff_getElem.mp h
  refine mountedSlots_set_perm m ?_
  rw [List.getElem?_eq_getElem hi, Option.isNone_iff_eq_none.mp hnone]

/-- `vfs_mount`: the first free slot takes the mount, unless the path is
mounted already, no slot is free or the path is too long. -/
def vfsMount (t : MountTable N) (path : CString) (fsRoot : N) : Option (MountTable N) :=
  if hnew : ∃ m ∈ t.mounted, m.path = path then none
  else
    match hfree : t.slots.findIdx? (·.isNone) with
    | none => none
    | some i =>
        if hlen : vfsNameMax ≤ path.length then none
        else some
          { slots := t.slots.set i (some ⟨path, fsRoot⟩)
            length_eq := by simpa using t.length_eq
            path_lt := by
              intro m hm
              rcases List.mem_cons.mp ((mountedSlots_firstFree _ hfree).subset hm) with rfl | hm
              · exact Nat.lt_of_not_le hlen
              · exact t.path_lt m hm
            distinct := by
              have hperm := (mountedSlots_firstFree ⟨path, fsRoot⟩ hfree).map (·.path)
              rw [hperm.nodup_iff, List.map_cons, List.nodup_cons]
              refine ⟨?_, t.distinct⟩
              intro hmem
              obtain ⟨m, hm, hpath⟩ := List.mem_map.mp hmem
              exact hnew ⟨m, hm, hpath⟩ }

/-- `vfs_unmount`: the root node of the volume, and the table without it.  The
root mount stays. -/
def vfsUnmount (t : MountTable N) (path : CString) : Option N × MountTable N :=
  if path = rootPath then (none, t)
  else
    match t.slots.findIdx? (fun s => s.any fun m => m.path = path) with
    | none => (none, t)
    | some i =>
        ((t.slots[i]?.join).map (·.root),
          { slots := t.slots.set i none
            length_eq := by simpa using t.length_eq
            path_lt := fun m hm => t.path_lt m ((mountedSlots_set_none_sublist _ _).subset hm)
            distinct := t.distinct.sublist ((mountedSlots_set_none_sublist _ _).map _) })

/-! ## Finding the mount of a path -/

/-- The path goes on with a slash after its first `n` bytes, or ends there. -/
def AtBoundary (path : CString) (n : Nat) : Prop :=
  path[n]? = some slash ∨ path[n]? = none

instance (path : CString) (n : Nat) : Decidable (AtBoundary path n) :=
  inferInstanceAs (Decidable (_ ∨ _))

/-- The loop of `find_mount_for`. -/
def findMountLoop (path : CString) :
    List (Option (VfsMount N)) → Option (VfsMount N) → Nat → Option (VfsMount N)
  | [], best, _ => best
  | none :: rest, best, bestLen => findMountLoop path rest best bestLen
  | some m :: rest, best, bestLen =>
      let mlen := m.path.length
      if m.path = rootPath then
        if bestLen < mlen ∨ best.isNone then findMountLoop path rest (some m) mlen
        else findMountLoop path rest best bestLen
      else if m.path <+: path ∧ AtBoundary path mlen then
        if bestLen < mlen then findMountLoop path rest (some m) mlen
        else findMountLoop path rest best bestLen
      else findMountLoop path rest best bestLen

/-- `find_mount_for`: the mount of a path and the rest of the path. -/
def findMountFor (t : MountTable N) (path : CString) : Option (VfsMount N × CString) :=
  match findMountLoop path t.slots none 0 with
  | none => none
  | some best =>
      if best.path = rootPath then some (best, path)
      else some (best, path.drop best.path.length)

/-- The path literally starts with the mount's path: the root mount's stands
before every path, any other is a prefix that ends at a boundary. -/
def Spelled (m : VfsMount N) (path : CString) : Prop :=
  m.path ≠ [] ∧ (m.path = rootPath ∨ (m.path <+: path ∧ AtBoundary path m.path.length))

instance (m : VfsMount N) (path : CString) : Decidable (Spelled m path) :=
  inferInstanceAs (Decidable (_ ∧ _))

/-- The better of the best so far and a mount, as the loop takes it. -/
abbrev better : Option (VfsMount N) → VfsMount N → Option (VfsMount N) :=
  List.argAux fun m b => b.path.length < m.path.length

/-- One round of the loop: a mount not spelled in the path is passed over, one
that is becomes the best if it is the first or longer. -/
theorem findMountLoop_cons (path : CString) (m : VfsMount N) (slots : List (Option (VfsMount N)))
    (best : Option (VfsMount N)) (hpos : ∀ b ∈ best, b.path ≠ []) :
    findMountLoop path (some m :: slots) best (best.elim 0 (·.path.length)) =
      if Spelled m path then
        findMountLoop path slots (better best m) ((better best m).elim 0 (·.path.length))
      else findMountLoop path slots best (best.elim 0 (·.path.length)) := by
  by_cases hroot : m.path = rootPath
  · have hsp : Spelled m path := ⟨by simp [hroot, rootPath], Or.inl hroot⟩
    rw [if_pos hsp]
    cases best with
    | none => simp [findMountLoop, hroot, better, List.argAux]
    | some b =>
      by_cases hlt : b.path.length < m.path.length <;>
        simp [findMountLoop, if_pos hroot, better, List.argAux, hlt]
  · by_cases hmatch : m.path <+: path ∧ AtBoundary path m.path.length
    · by_cases hnil : m.path = []
      · have hsp : ¬ Spelled m path := fun h => h.1 hnil
        have hlen : ¬ best.elim 0 (·.path.length) < m.path.length := by simp [hnil]
        rw [findMountLoop, if_neg hroot, if_pos hmatch, if_neg hlen, if_neg hsp]
      · rw [if_pos ⟨hnil, Or.inr hmatch⟩]
        have hlen : 0 < m.path.length := List.length_pos_iff.mpr hnil
        cases best with
        | none => simp [findMountLoop, hroot, hmatch, better, List.argAux, hlen]
        | some b =>
          by_cases hlt : b.path.length < m.path.length <;>
            simp [findMountLoop, hroot, hmatch, better, List.argAux, hlt]
    · have hsp : ¬ Spelled m path := fun h => h.2.elim hroot hmatch
      simp [findMountLoop, hroot, hmatch, hsp]

theorem findMountLoop_eq (path : CString) (slots : List (Option (VfsMount N)))
    (best : Option (VfsMount N)) (hpos : ∀ b ∈ best, b.path ≠ []) :
    findMountLoop path slots best (best.elim 0 (·.path.length)) =
      ((mountedSlots slots).filter (Spelled · path)).foldl
        better best := by
  induction slots generalizing best with
  | nil => rfl
  | cons s slots ih =>
    cases s with
    | none => simpa [findMountLoop, mountedSlots] using ih best hpos
    | some m =>
      rw [findMountLoop_cons path m slots best hpos]
      by_cases hsp : Spelled m path
      · have hpos' : ∀ b ∈ better best m, b.path ≠ [] := by
          intro b hb
          cases best with
          | none =>
            obtain rfl : m = b := by simpa [better, List.argAux] using hb
            exact hsp.1
          | some c =>
            simp only [better, List.argAux] at hb
            split at hb
            · obtain rfl : m = b := by simpa using hb
              exact hsp.1
            · exact hpos b hb
        rw [if_pos hsp, ih _ hpos']
        simp [mountedSlots, hsp]
      · rw [if_neg hsp, ih best hpos]
        simp [mountedSlots, hsp]

/-- **What `find_mount_for` finds**: the longest mount spelled in the path. -/
theorem findMountLoop_eq_argmax (t : MountTable N) (path : CString) :
    findMountLoop path t.slots none 0 =
      (t.mounted.filter (Spelled · path)).argmax (·.path.length) :=
  findMountLoop_eq path t.slots none (by simp)

end Vfs
