import StrawOS.Lib.Machine
import StrawOS.Vfs.Resolve
import StrawOS.Vfs.Node
import Mathlib.Data.List.Perm.Subperm

/-!
# The virtual file system

The path operations of `vfs.c` over mounted RAM and FAT file systems, and the
machine whose runs are the sequences of these operations.  The mount table does
not change in a run.
-/

namespace Vfs

variable {V : Type} (disk : FatDisk V) (t : MountTable NodeId)

/-- `node->ops->lookup`. -/
def nodeLookup : Lookup (State V) NodeId := fun st n =>
  some fun name =>
    match (st.nodes n).backing with
    | .ramfs => (ramfsLookup st n name, st)
    | .fat _ _ => fatLookup disk st n name

/-- `node->ops->create`. -/
def nodeCreate (mem : Bool) (st : State V) (dir : NodeId) (name : CString) (type : VNodeType) :
    Option NodeId × State V :=
  match (st.nodes dir).backing with
  | .ramfs => ramfsCreate mem st dir name type
  | .fat _ _ => fatCreate disk st dir name type

def vfsOCreat : UInt32 := 4

/-- The end of `vfs_open`: fill in the file and count it. -/
def openNode (st : State V) (n : NodeId) (flags : UInt32) : State V :=
  let st := { st with files := st.files ++ [VFile.mk (some n) 0 flags] }
  st.setNode n { st.nodes n with openCount := (st.nodes n).openCount + 1 }

/-- `vfs_open`: whether it succeeded, and the state, in which the file it filled
in is the last one. -/
def vfsOpen (st : State V) (path : CString) (flags : UInt32) (mem : Bool) : Bool × State V :=
  let found := vfsResolve (nodeLookup disk) t st path
  match found.1 with
  | some n => (true, openNode found.2 n flags)
  | none =>
      if flags &&& vfsOCreat = 0 then (false, found.2)
      else
        let parent := resolveParent (nodeLookup disk) t found.2 path
        match parent.1 with
        | none => (false, parent.2)
        | some (dir, leaf) =>
            if (parent.2.nodes dir).type ≠ .dir then (false, parent.2)
            else
              let made := nodeCreate disk mem parent.2 dir leaf .file
              match made.1 with
              | none => (false, made.2)
              | some n => (true, openNode made.2 n flags)

/-- `node->ops->release`. -/
def nodeRelease (st : State V) (n : NodeId) : State V :=
  match (st.nodes n).backing with
  | .ramfs => ramfsRelease st n
  | .fat _ _ => fatReleaseNode disk st n

/-- `vfs_close` of a file. -/
def vfsClose (st : State V) (file : Nat) : Bool × State V :=
  match st.files[file]? with
  | none => (false, st)
  | some f =>
      match f.node with
      | none => (false, st)
      | some n =>
          let st := { st with files := st.files.set file { f with node := none } }
          let st := st.setNode n { st.nodes n with openCount := (st.nodes n).openCount - 1 }
          if (st.nodes n).openCount = 0 ∧ (st.nodes n).unlinked = true then
            (true, nodeRelease disk st n)
          else (true, st)

def vfsMkdir (st : State V) (path : CString) (mem : Bool) : Bool × State V :=
  let parent := resolveParent (nodeLookup disk) t st path
  match parent.1 with
  | none => (false, parent.2)
  | some (dir, leaf) =>
      if (parent.2.nodes dir).type ≠ .dir then (false, parent.2)
      else
        let found := lookupIn (nodeLookup disk) parent.2 dir leaf
        if found.1.isSome then (false, found.2)
        else
          let made := nodeCreate disk mem found.2 dir leaf .dir
          (made.1.isSome, made.2)

def vfsUnlink (st : State V) (path : CString) : Bool × State V :=
  let parent := resolveParent (nodeLookup disk) t st path
  match parent.1 with
  | none => (false, parent.2)
  | some (dir, leaf) =>
      if (parent.2.nodes dir).type ≠ .dir then (false, parent.2)
      else
        match (parent.2.nodes dir).backing with
        | .ramfs => ramfsUnlink parent.2 dir leaf
        | .fat _ _ => fatUnlink disk parent.2 dir leaf

def vfsRename (st : State V) (src dst : CString) : Bool × State V :=
  let found := vfsResolve (nodeLookup disk) t st src
  match found.1 with
  | none => (false, found.2)
  | some n =>
      if (found.2.nodes n).parent = none then (false, found.2)
      else
        let target := vfsResolve (nodeLookup disk) t found.2 dst
        if target.1.isSome then (false, target.2)
        else
          let parent := resolveParent (nodeLookup disk) t target.2 dst
          let st := parent.2
          match parent.1 with
          | none => (false, st)
          | some (dir, leaf) =>
              if (st.nodes dir).type ≠ .dir ∨
                  (st.nodes dir).backing.sameOps (st.nodes n).backing = false then (false, st)
              else if n ∈ st.ancestors dir then (false, st)
              else
                match (st.nodes n).backing with
                | .ramfs => ramfsRename st n dir leaf
                | .fat _ _ => fatRename disk st n dir leaf

/-- A call of the virtual file system.  `mem` says whether kernel memory for a
new node of the RAM file system is there. -/
inductive Call
  | open (path : CString) (flags : UInt32) (mem : Bool)
  | close (file : Nat)
  | mkdir (path : CString) (mem : Bool)
  | rename (src dst : CString)
  | unlink (path : CString)

/-- The state and the success of a call. -/
def call (st : State V) : Call → Bool × State V
  | .open path flags mem => vfsOpen disk t st path flags mem
  | .close file => vfsClose disk st file
  | .mkdir path mem => vfsMkdir disk t st path mem
  | .rename src dst => vfsRename disk t st src dst
  | .unlink path => vfsUnlink disk t st path

/-- A node is the root of a mount. -/
def IsMountRoot (n : NodeId) : Prop := ∃ m ∈ t.mounted, m.root = n

/-- Before the first call: the mount roots and nothing else. -/
structure Fresh (st : State V) : Prop where
  roots : ∀ n, st.live n = true ↔ IsMountRoot t n
  node : ∀ n, st.live n = true → st.nodes n = ramfsRootNode ∨ ∃ fs, st.nodes n = fatRootNode fs
  dead : ∀ n, st.live n = false → st.nodes n = {}
  bound : ∀ n, st.live n = true ↔ n < st.next
  files : st.files = []
  released : st.released = []

/-- The virtual file system as a machine. -/
def machine : Machine (State V) Call Bool where
  start := Fresh t
  step st c := ((call disk t st c).2, [(call disk t st c).1])

end Vfs

/-!
# The shape of the node tree

`Tree t st kids` is the structural invariant: the pointers represent the forest
`kids`, parents are live directories, every ancestry ends, and every live node
has its place.  It is a mount root, a child of its parent, or unlinked, and then
it has neither parent nor children.

Every change of the tree gives one node a new parent or none, and
`Tree.reparent` is the one proof that this keeps the invariant.  It looks at a
state only through its pointers, its live nodes and the data of the nodes, so
that each function of the file systems is connected to it by its pointer edit.
-/

namespace Vfs

variable {V : Type} {t : MountTable NodeId} {st st' : State V} {kids kids' : NodeId → List NodeId}

/-- The structural invariant of the node tree. -/
structure Tree (t : MountTable NodeId) (st : State V) (kids : NodeId → List NodeId) : Prop where
  shape : st.links.Shape kids
  bound : ∀ n, st.live n = true → n < st.next
  dead : ∀ n, st.live n = false → (st.nodes n).parent = none
  parentDir : ∀ n d, (st.nodes n).parent = some d →
    st.live d = true ∧ (st.nodes d).type = .dir
  rooted : ∀ n, st.links.Rooted n
  roots : ∀ n, IsMountRoot t n →
    st.live n = true ∧ (st.nodes n).parent = none ∧ (st.nodes n).unlinked = false
  placed : ∀ n, st.live n = true → ¬ IsMountRoot t n →
    ((st.nodes n).parent ≠ none ∧ (st.nodes n).unlinked = false) ∨
      ((st.nodes n).parent = none ∧ (st.nodes n).unlinked = true ∧ kids n = [])

namespace Tree

theorem live_of_parent (h : Tree t st kids) {n d : NodeId} (hn : (st.nodes n).parent = some d) :
    st.live n = true := by
  by_contra hdead
  have := h.dead n (by simpa using hdead)
  rw [hn] at this
  exact absurd this (by simp)

theorem live_of_mem (h : Tree t st kids) {c d : NodeId} (hc : c ∈ kids d) : st.live c = true :=
  h.live_of_parent ((h.shape.mem_iff c d).mp hc)

theorem next_dead (h : Tree t st kids) : st.live st.next = false := by
  by_contra hlive
  exact absurd (h.bound st.next (by simpa using hlive)) (lt_irrefl _)

theorem ne_next (h : Tree t st kids) {n : NodeId} (hn : st.live n = true) : n ≠ st.next :=
  Nat.ne_of_lt (h.bound n hn)

theorem kids_next (h : Tree t st kids) : kids st.next = [] := by
  apply List.eq_nil_iff_forall_not_mem.mpr
  intro c hc
  exact h.ne_next (h.parentDir c _ ((h.shape.mem_iff c _).mp hc)).1 rfl

theorem live_of_ancestor (h : Tree t st kids) {start : Option NodeId} {l : List NodeId}
    (hl : PtrChain st.links.parent start l) (hstart : ∀ n ∈ start, st.live n = true) :
    ∀ a ∈ l, st.live a = true := by
  induction l generalizing start with
  | nil => simp
  | cons b l ih =>
    obtain ⟨rfl, hl⟩ := hl
    intro a ha
    rcases List.mem_cons.mp ha with rfl | ha
    · exact hstart a rfl
    · refine ih hl ?_ a ha
      intro n hn
      exact (h.parentDir b n hn).1

end Tree

/-- A list of distinct nodes below the counter is no longer than the counter. -/
theorem length_le_next {l : List NodeId} {k : NodeId} (hnd : l.Nodup) (hb : ∀ c ∈ l, c < k) :
    l.length ≤ k := by
  have hsub : l ⊆ List.range k := fun c hc => List.mem_range.mpr (hb c hc)
  simpa using (hnd.subperm hsub).length_le

/-- The walk over a sibling list of nodes below the counter reads it whole. -/
theorem children_eq_of_chain {d : NodeId} {l : List NodeId}
    (h : PtrChain st.links.next (st.links.first d) l) (hb : ∀ c ∈ l, c < st.next) :
    st.children d = l :=
  h.chainList_eq (length_le_next h.nodup hb)

theorem Tree.children_eq (h : Tree t st kids) (d : NodeId) : st.children d = kids d :=
  children_eq_of_chain (h.shape.chain d) fun c hc => h.bound c (h.live_of_mem hc)

theorem Tree.ancestors_eq (h : Tree t st kids) {n : NodeId} {l : List NodeId}
    (hn : st.live n = true) (hl : PtrChain st.links.parent (some n) l) : st.ancestors n = l :=
  hl.chainList_eq <| length_le_next hl.nodup fun a ha =>
    h.bound a (h.live_of_ancestor hl (by simpa using hn) a ha)

namespace Tree

/-- **One node changes place.**  Every change of the tree gives one node `n` a
new parent `p`, or none: a fresh node gets one, a moved node another, an
unlinked node and a freed one lose theirs.  The rest of the nodes stay. -/
theorem reparent (h : Tree t st kids) {n : NodeId} {p : Option NodeId}
    (hroot : ¬ IsMountRoot t n) (hshape : st'.links.Shape kids')
    (hparent : st'.links.parent = Function.update st.links.parent n p)
    (hp : ∀ d ∈ p, st.live d = true ∧ (st.nodes d).type = .dir ∧
      (st.nodes d).unlinked = false ∧ n ∉ st.ancestors d)
    (hkids : ∀ m, m ∉ p → kids m = [] → kids' m = [])
    (htype : ∀ m, m ≠ n → (st'.nodes m).type = (st.nodes m).type)
    (hunlinked : ∀ m, m ≠ n → (st'.nodes m).unlinked = (st.nodes m).unlinked)
    (hlive : ∀ m, m ≠ n → st'.live m = st.live m)
    (hbound : ∀ m, st'.live m = true → m < st'.next)
    (hdead : st'.live n = false → p = none)
    (hplaced : st'.live n = true → (p ≠ none ∧ (st'.nodes n).unlinked = false) ∨
      (p = none ∧ (st'.nodes n).unlinked = true ∧ kids n = []))
    (hstay : kids n = [] ∨
      (st'.live n = true ∧ (st'.nodes n).type = (st.nodes n).type)) : Tree t st' kids' := by
  have hpar : ∀ m, m ≠ n → (st'.nodes m).parent = (st.nodes m).parent := by
    intro m hm
    have := congrFun hparent m
    rwa [Function.update_of_ne hm] at this
  have hparn : (st'.nodes n).parent = p := by
    have := congrFun hparent n
    rwa [Function.update_self] at this
  have hpn : ∀ d ∈ p, d ≠ n := by
    intro d hd hdn
    obtain ⟨l, hl⟩ := h.rooted d
    obtain ⟨hdl, -, -, hab⟩ := hp d hd
    rw [h.ancestors_eq hdl hl, ← hdn] at hab
    cases l with
    | nil => simp at hl
    | cons b l =>
      obtain rfl : d = b := by simpa using hl.1
      exact hab List.mem_cons_self
  refine ⟨hshape, hbound, ?_, ?_, ?_, ?_, ?_⟩
  · intro m hm
    by_cases hmn : m = n
    · subst hmn
      rw [hparn, hdead hm]
    · rw [hpar m hmn]
      exact h.dead m (by rw [← hlive m hmn]; exact hm)
  · intro m e hme
    by_cases hmn : m = n
    · grind
    · rw [hpar m hmn] at hme
      obtain ⟨hel, hed⟩ := h.parentDir m e hme
      by_cases hen : e = n
      · subst hen
        have hmem : m ∈ kids e := (h.shape.mem_iff m e).mpr hme
        rcases hstay with hnil | hstay
        · simp [hnil] at hmem
        · exact ⟨hstay.1, hstay.2.trans hed⟩
      · rw [hlive e hen, htype e hen]
        exact ⟨hel, hed⟩
  · intro m
    cases p with
    | none => exact Forest.Rooted.detach hparent (h.rooted m)
    | some d =>
      obtain ⟨l, hl⟩ := h.rooted d
      obtain ⟨hdl, -, -, hab⟩ := hp d rfl
      rw [h.ancestors_eq hdl hl] at hab
      exact Forest.Rooted.attach hparent hl hab (h.rooted m)
  · intro m hm
    have hmn : m ≠ n := fun hmn => hroot (hmn ▸ hm)
    rw [hlive m hmn, hpar m hmn, hunlinked m hmn]
    exact h.roots m hm
  · intro m hm hmr
    by_cases hmn : m = n
    · grind
    · rw [hlive m hmn] at hm
      rw [hpar m hmn, hunlinked m hmn]
      refine (h.placed m hm hmr).imp_right ?_
      intro hun
      have hmp : m ∉ p := by grind
      exact ⟨hun.1, hun.2.1, hkids m hmp hun.2.2⟩

end Tree

end Vfs
