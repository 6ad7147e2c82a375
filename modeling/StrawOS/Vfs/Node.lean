import StrawOS.Lib.Forest
import StrawOS.Vfs.Path

/-!
# Nodes in memory

The kernel's `VNode` objects, as far as the tree and the life of a node go: the
name and type, the three tree pointers, the count of open files and the mark of
an unlinked node.  Size and contents belong to the file systems.

A node is an index into the memory; `live` says which are allocated, fresh ones
come from a counter and are never given out twice, and every `kfree` of a node
is recorded in `released`.  Freed memory is poisoned with zeros, which is a node
without pointers.

The pointers form a `Forest` (`links`), and every function here that writes a
pointer comes with the forest edit it performs.
-/

namespace Vfs

inductive VNodeType
  | file
  | dir
  | device
  | socket
  deriving DecidableEq, Repr

/-- A `VNode *`. -/
abbrev NodeId := Nat

/-- The `ops` table of a node together with what its functions keep beside the
contents: a node of the RAM file system, or one of a FAT volume (`fn->fs`) that
is marked as loaded or not. -/
inductive Backing
  | ramfs
  | fat (fs : Nat) (loaded : Bool)
  deriving DecidableEq, Repr

/-- Two nodes have the same `ops` table. -/
def Backing.sameOps : Backing → Backing → Bool
  | .ramfs, .ramfs => true
  | .fat _ _, .fat _ _ => true
  | _, _ => false

/-- `struct VNode`; the defaults are the zeroed object. -/
structure VNode where
  name : CString := []
  type : VNodeType := .file
  backing : Backing := .ramfs
  openCount : Nat := 0
  unlinked : Bool := false
  parent : Option NodeId := none
  firstChild : Option NodeId := none
  nextSibling : Option NodeId := none
  deriving DecidableEq, Repr

/-- A new node below a directory, before it is in the list: zeroed, then its
name copied into the buffer, its type, operations and parent set. -/
def childNode (dir : NodeId) (name : CString) (type : VNodeType) (backing : Backing) : VNode where
  name := name.take (vfsNameMax - 1)
  type := type
  backing := backing
  parent := some dir

@[simp] theorem childNode_parent (dir : NodeId) (name : CString) (type : VNodeType) (b : Backing) :
    (childNode dir name type b).parent = some dir := rfl

/-- `struct VFile`: `node` is `none` once the file is closed. -/
structure VFile where
  node : Option NodeId
  offset : Nat
  flags : UInt32
  deriving DecidableEq, Repr

/-- The nodes and open files of the kernel, over the state `V` of the volumes.
`history` is for proofs only: the names `fat_load_dir` read into a directory. -/
structure State (V : Type) where
  nodes : NodeId → VNode
  live : NodeId → Bool
  next : NodeId
  files : List VFile
  released : List NodeId
  history : NodeId → List CString
  vol : V

namespace State

variable {V : Type} (st : State V)

/-- The tree pointers. -/
def links : Forest NodeId where
  parent n := (st.nodes n).parent
  first n := (st.nodes n).firstChild
  next n := (st.nodes n).nextSibling

/-- A walk over the sibling list that starts at a node: no list is longer than
there are nodes. -/
def siblings (start : Option NodeId) : List NodeId :=
  chainList (fun n => (st.nodes n).nextSibling) st.next start

/-- The sibling list below a directory. -/
def children (d : NodeId) : List NodeId := st.siblings (st.nodes d).firstChild

/-- The node and its parents, up to the root. -/
def ancestors (n : NodeId) : List NodeId :=
  chainList (fun n => (st.nodes n).parent) st.next (some n)

/-- Write a node. -/
def setNode (n : NodeId) (v : VNode) : State V := { st with nodes := Function.update st.nodes n v }

def setFirst (n : NodeId) (x : Option NodeId) : State V :=
  st.setNode n { st.nodes n with firstChild := x }

def setNext (n : NodeId) (x : Option NodeId) : State V :=
  st.setNode n { st.nodes n with nextSibling := x }

def setParent (n : NodeId) (x : Option NodeId) : State V :=
  st.setNode n { st.nodes n with parent := x }

/-- Copy a name into a node: at most `VFS_NAME_MAX - 1` bytes of it. -/
def setName (n : NodeId) (name : CString) : State V :=
  st.setNode n { st.nodes n with name := name.take (vfsNameMax - 1) }

/-- `node->unlinked = true`. -/
def setUnlinked (n : NodeId) : State V := st.setNode n { st.nodes n with unlinked := true }

/-- `kmalloc` of a node, filled in. -/
def alloc (v : VNode) : State V :=
  { st with
    nodes := Function.update st.nodes st.next v
    live := Function.update st.live st.next true
    next := st.next + 1 }

/-- `kfree` of a node. -/
def free (n : NodeId) : State V :=
  { st with
    nodes := Function.update st.nodes n {}
    live := Function.update st.live n false
    released := st.released ++ [n] }

/-! ## The forest edits -/

@[simp] theorem links_parent (n : NodeId) : st.links.parent n = (st.nodes n).parent := rfl

@[simp] theorem links_first (n : NodeId) : st.links.first n = (st.nodes n).firstChild := rfl

@[simp] theorem links_next (n : NodeId) : st.links.next n = (st.nodes n).nextSibling := rfl

theorem links_setNode (n : NodeId) (v : VNode) :
    (st.setNode n v).links =
      { parent := Function.update st.links.parent n v.parent
        first := Function.update st.links.first n v.firstChild
        next := Function.update st.links.next n v.nextSibling } := by
  simp only [links, setNode, Forest.mk.injEq]
  refine ⟨?_, ?_, ?_⟩ <;>
  · funext m
    by_cases hm : m = n
    · subst hm
      simp
    · simp [hm]

theorem links_setNode_of_links {n : NodeId} {v : VNode}
    (hp : v.parent = (st.nodes n).parent) (hf : v.firstChild = (st.nodes n).firstChild)
    (hn : v.nextSibling = (st.nodes n).nextSibling) : (st.setNode n v).links = st.links := by
  rw [links_setNode, hp, hf, hn]
  exact congr (congr (congrArg Forest.mk (Function.update_eq_self _ _))
    (Function.update_eq_self _ _)) (Function.update_eq_self _ _)

@[simp] theorem links_setFirst (n : NodeId) (x : Option NodeId) :
    (st.setFirst n x).links =
      { st.links with first := Function.update st.links.first n x } := by
  rw [setFirst, links_setNode]
  simp [links]

@[simp] theorem links_setNext (n : NodeId) (x : Option NodeId) :
    (st.setNext n x).links = { st.links with next := Function.update st.links.next n x } := by
  rw [setNext, links_setNode]
  simp [links]

@[simp] theorem links_setParent (n : NodeId) (x : Option NodeId) :
    (st.setParent n x).links =
      { st.links with parent := Function.update st.links.parent n x } := by
  rw [setParent, links_setNode]
  simp [links]

@[simp] theorem links_setName (n : NodeId) (name : CString) :
    (st.setName n name).links = st.links :=
  st.links_setNode_of_links rfl rfl rfl

@[simp] theorem links_setUnlinked (n : NodeId) : (st.setUnlinked n).links = st.links :=
  st.links_setNode_of_links rfl rfl rfl

@[simp] theorem links_free (n : NodeId) : (st.free n).links = st.links.clear n := by
  simp only [links, free, Forest.clear, Forest.mk.injEq]
  refine ⟨?_, ?_, ?_⟩ <;>
  · funext m
    by_cases hm : m = n
    · subst hm
      simp
    · simp [hm]

theorem links_alloc {v : VNode} (hf : v.firstChild = none) (hn : v.nextSibling = none) :
    (st.alloc v).links =
      { st.links.clear st.next with
        parent := Function.update st.links.parent st.next v.parent } := by
  simp only [links, alloc, Forest.clear, Forest.mk.injEq]
  refine ⟨?_, ?_, ?_⟩ <;>
  · funext m
    by_cases hm : m = st.next
    · simp [hm, hf, hn]
    · simp [hm]

/-! ## List surgery -/

/-- The first node of a sibling list with a property, and the node before it:
the loops over `prev` and `cur`, and those over `VNode **pp`. -/
def slotBefore (p : NodeId → Bool) : Option NodeId → List NodeId → Option (Option NodeId × NodeId)
  | _, [] => none
  | prev, c :: rest => if p c then some (prev, c) else slotBefore p (some c) rest

/-- `*pp = c->next_sibling`, where `pp` is the link of `prev` or, without one,
the first link of the list below `d`. -/
def spliceOut (d : NodeId) (prev : Option NodeId) (c : NodeId) : State V :=
  match prev with
  | none => st.setFirst d (st.nodes c).nextSibling
  | some p => st.setNext p (st.nodes c).nextSibling

/-- `*pp = n`, where `pp` is the last link of the list below `d`. -/
def appendTo (d n : NodeId) : State V :=
  match (st.children d).getLast? with
  | none => st.setFirst d (some n)
  | some l => st.setNext l (some n)

theorem spliceOut_eq (d : NodeId) (prev : Option NodeId) (c : NodeId) :
    st.spliceOut d prev c = { st with nodes := (st.spliceOut d prev c).nodes } := by
  cases prev <;> rfl

theorem appendTo_eq (d n : NodeId) :
    st.appendTo d n = { st with nodes := (st.appendTo d n).nodes } := by
  rw [appendTo]
  split <;> rfl

/-- Splicing a node out and clearing its own links takes it out of the forest. -/
theorem links_spliceOut (d : NodeId) (prev : Option NodeId) (c : NodeId) :
    (((st.spliceOut d prev c).setParent c none).setNext c none).links =
      st.links.remove d prev c := by
  cases prev <;> simp [spliceOut, Forest.remove]

end State

theorem slotBefore_eq_some {p : NodeId → Bool} {l : List NodeId} {prev q : Option NodeId}
    {c : NodeId} (h : State.slotBefore p prev l = some (q, c)) :
    ∃ pre post, l = pre ++ c :: post ∧ p c = true ∧ q = (pre.getLast?.or prev) := by
  induction l generalizing prev with
  | nil => simp [State.slotBefore] at h
  | cons b l ih =>
    rw [State.slotBefore] at h
    split at h
    · rename_i hb
      obtain ⟨rfl, rfl⟩ : prev = q ∧ b = c := by simpa using h
      exact ⟨[], l, rfl, hb, by simp⟩
    · grind

theorem find?_eq_of_slotBefore {p : NodeId → Bool} {l : List NodeId} {prev q : Option NodeId}
    {c : NodeId} (h : State.slotBefore p prev l = some (q, c)) : l.find? p = some c := by
  induction l generalizing prev with
  | nil => simp [State.slotBefore] at h
  | cons b l ih =>
    rw [State.slotBefore] at h
    split at h
    · grind
    · rename_i hb
      rw [List.find?_cons_of_neg hb]
      exact ih h

theorem slotBefore_isSome (p : NodeId → Bool) {l : List NodeId} (prev : Option NodeId)
    {c : NodeId} (hc : c ∈ l) (hp : p c = true) : (State.slotBefore p prev l).isSome := by
  induction l generalizing prev with
  | nil => simp at hc
  | cons b l ih =>
    rw [State.slotBefore]
    split
    · rfl
    · grind

end Vfs

/-!
# The nodes of the RAM file system

The functions of `ramfs.c` that make, move and remove nodes.  A new child goes
to the front of its directory's list.  Where the source allocates memory, `mem`
says whether that succeeds.
-/

namespace Vfs

variable {V : Type}

def ramfsLookup (st : State V) (dir : NodeId) (name : CString) : Option NodeId :=
  (st.children dir).find? fun c => (st.nodes c).name == name

/-- `ramfs_create`: the new node, if there is one, and the state. -/
def ramfsCreate (mem : Bool) (st : State V) (dir : NodeId) (name : CString) (type : VNodeType) :
    Option NodeId × State V :=
  if (ramfsLookup st dir name).isSome then (none, st)
  else if !mem then (none, st)
  else
    let n := st.next
    let st' := st.alloc (childNode dir name type .ramfs)
    -- `n->next_sibling = dir->first_child; dir->first_child = n`
    let st' := st'.setNext n (st'.nodes dir).firstChild
    (some n, st'.setFirst dir (some n))

/-- `ramfs_rename`: whether the node was found in its directory's list, and the
state.  The caller has checked that the node has a parent. -/
def ramfsRename (st : State V) (n newDir : NodeId) (newName : CString) : Bool × State V :=
  match (st.nodes n).parent with
  | none => (false, st)
  | some oldDir =>
      match State.slotBefore (· == n) none (st.children oldDir) with
      | none => (false, st)
      | some (prev, _) =>
          let st := st.spliceOut oldDir prev n
          let st := st.setName n newName
          let st := st.setParent n (some newDir)
          let st := st.setNext n (st.nodes newDir).firstChild
          (true, st.setFirst newDir (some n))

def ramfsRelease (st : State V) (n : NodeId) : State V := st.free n

def ramfsUnlink (st : State V) (dir : NodeId) (name : CString) : Bool × State V :=
  match State.slotBefore (fun c => (st.nodes c).name == name) none (st.children dir) with
  | none => (false, st)
  | some (prev, cur) =>
      if (st.nodes cur).type = .dir ∧ (st.nodes cur).firstChild ≠ none then (false, st)
      else
        let st := st.spliceOut dir prev cur
        let st := st.setParent cur none
        let st := st.setNext cur none
        if (st.nodes cur).openCount ≠ 0 then (true, st.setUnlinked cur)
        else (true, ramfsRelease st cur)

/-- The root node `ramfs_create_root` makes. -/
def ramfsRootNode : VNode := { name := [slash], type := .dir, backing := .ramfs }

end Vfs

/-!
# The nodes of a FAT volume

The functions of `fat32.c` that make, move and remove nodes.  A directory's
children appear in memory when it is first looked into (`fatLoadDir`), and a
new child goes to the end of its directory's list.

What these functions do on the volume itself (clusters, directory entries, the
FAT cache) is behind `FatDisk`: a state of the volumes and, for each place
where the source goes to the disk, what comes back.  Nothing is assumed about
it, so every result on the tree holds for every volume, well formed or not,
with I/O errors or without.
-/

namespace Vfs

/-- The volumes as the node functions see them.  Running out of kernel memory
shows as a failure too. -/
structure FatDisk (V : Type) where
  /-- The entries `fat_load_dir` makes nodes of, in order, and whether each is a
  directory.  The nodes will be the ones from the given one on. -/
  load : V → (dir first : NodeId) → List (CString × Bool) × V
  /-- `fat_create`, from the allocation of the node's own data on. -/
  create : V → (dir : NodeId) → (isRoot : Bool) → (siblings : List NodeId) → CString →
    VNodeType → (n : NodeId) → Bool × V
  /-- `fat_remove_entry`. -/
  removeEntry : V → (dir n : NodeId) → Bool × V
  /-- The entries of `fat_rename`: the new one is added, the old one removed. -/
  rename : V → (n oldDir newDir : NodeId) → (isRoot : Bool) → (siblings : List NodeId) →
    CString → VNodeType → Bool × V
  /-- `fat_cache_flush`. -/
  flush : V → (n : NodeId) → V
  /-- `fat_free_chain` and the flush behind it. -/
  freeChain : V → (n : NodeId) → V

def fatUpper (c : UInt8) : UInt8 := if 97 ≤ c ∧ c ≤ 122 then c - 32 else c

def fatNameEq : CString → CString → Bool
  | a :: as, b :: bs => fatUpper a == fatUpper b && fatNameEq as bs
  | [], [] => true
  | _, _ => false

variable {V : Type} (disk : FatDisk V)

/-- `fat_new_vnode` below a directory. -/
def fatNewVnode (st : State V) (dir : NodeId) (name : CString) (type : VNodeType)
    (backing : Backing) : State V :=
  let n := st.next
  let st := st.alloc (childNode dir name type backing)
  st.appendTo dir n

/-- The entries of a directory become nodes, one after the other. -/
def fatLoadEntries (dir : NodeId) (fs : Nat) : State V → List (CString × Bool) → State V
  | st, [] => st
  | st, e :: rest =>
      fatLoadEntries dir fs
        (fatNewVnode st dir e.1 (if e.2 then .dir else .file) (.fat fs false)) rest

/-- `dn->loaded = true`, with the names that are about to be read. -/
def markLoaded (st : State V) (dir : NodeId) (fs : Nat) (names : List CString) (vol : V) :
    State V :=
  { st.setNode dir { st.nodes dir with backing := .fat fs true } with
    vol := vol, history := Function.update st.history dir names }

def fatLoadDir (st : State V) (dir : NodeId) : State V :=
  match (st.nodes dir).backing with
  | .ramfs => st
  | .fat _ true => st
  | .fat fs false =>
      let loaded := disk.load st.vol dir st.next
      let names := loaded.1.map fun e => e.1.take (vfsNameMax - 1)
      fatLoadEntries dir fs (markLoaded st dir fs names loaded.2) loaded.1

def fatLookup (st : State V) (dir : NodeId) (name : CString) : Option NodeId × State V :=
  if (st.nodes dir).type ≠ .dir then (none, st)
  else
    let st := fatLoadDir disk st dir
    ((st.children dir).find? fun c => fatNameEq (st.nodes c).name name, st)

/-- The volume of a node. -/
def Backing.fs : Backing → Nat
  | .ramfs => 0
  | .fat fs _ => fs

def fatCreate (st : State V) (dir : NodeId) (name : CString) (type : VNodeType) :
    Option NodeId × State V :=
  if type ≠ .file ∧ type ≠ .dir then (none, st)
  else
    let found := fatLookup disk st dir name
    let st := found.2
    if found.1.isSome then (none, st)
    else
      let made := disk.create st.vol dir (st.nodes dir).parent.isNone (st.children dir) name type
        st.next
      let st := { st with vol := made.2 }
      if !made.1 then (none, st)
      else (some st.next, fatNewVnode st dir name type (.fat (st.nodes dir).backing.fs true))

def fatDetach (st : State V) (n : NodeId) : State V :=
  match (st.nodes n).parent with
  | none => st
  | some dir =>
      match State.slotBefore (· == n) none (st.children dir) with
      | none => st.setNext n none
      | some (prev, _) => (st.spliceOut dir prev n).setNext n none

def fatReleaseNode (st : State V) (n : NodeId) : State V :=
  { st with vol := disk.freeChain st.vol n }.free n

def fatUnlink (st : State V) (dir : NodeId) (name : CString) : Bool × State V :=
  let found := fatLookup disk st dir name
  let st := found.2
  match found.1 with
  | none => (false, st)
  | some n =>
      let st := if (st.nodes n).type = .dir then fatLoadDir disk st n else st
      if (st.nodes n).type = .dir ∧ (st.nodes n).firstChild ≠ none then (false, st)
      else
        let removed := disk.removeEntry st.vol dir n
        let st := { st with vol := removed.2 }
        if !removed.1 then (false, st)
        else
          let st := fatDetach st n
          let st := st.setParent n none
          if (st.nodes n).openCount ≠ 0 then
            let st := st.setUnlinked n
            (true, { st with vol := disk.flush st.vol n })
          else (true, fatReleaseNode disk st n)

def fatRename (st : State V) (n newDir : NodeId) (newName : CString) : Bool × State V :=
  match (st.nodes n).parent with
  | none => (false, st)
  | some oldDir =>
      if (st.nodes n).backing.fs ≠ (st.nodes newDir).backing.fs ∨ (st.nodes newDir).type ≠ .dir then
        (false, st)
      else
        let st := fatLoadDir disk st newDir
        let moved := disk.rename st.vol n oldDir newDir (st.nodes newDir).parent.isNone
          (st.children newDir) newName (st.nodes n).type
        let st := { st with vol := moved.2 }
        if !moved.1 then (false, st)
        else
          let st := fatDetach st n
          let st := st.setParent n (some newDir)
          let st := st.appendTo newDir n
          (true, st.setName n newName)

/-- The root node `fat32_mount` makes for a volume. -/
def fatRootNode (fs : Nat) : VNode := { name := [slash], type := .dir, backing := .fat fs false }

end Vfs
