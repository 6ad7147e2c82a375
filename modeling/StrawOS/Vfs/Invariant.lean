import StrawOS.Vfs.Ops

/-!
# The invariant of the virtual file system

Beside the shape of the tree the invariant says that sibling names are kept
apart, that the open count of a node counts its open files, and that a node is
freed once.  Names are compared as the file system of the directory compares
them.  A FAT directory is read from the volume, and its names are distinct if
the ones read were: `history` has them.

This file has the invariant and its preservation by the small steps the
operations are made of: a new child in front or behind, a child taken out, a
node freed, a file opened.
-/

namespace Vfs

variable {V : Type} {t : MountTable NodeId} {st st' : State V} {kids kids' : NodeId → List NodeId}

/-- How the file system of a directory compares names. -/
def Backing.sameName (b : Backing) (name name' : CString) : Bool :=
  match b with
  | .ramfs => name == name'
  | .fat _ _ => fatNameEq name name'

/-- No two names of a list are the same to a directory. -/
def NamesDiffer (b : Backing) (names : List CString) : Prop :=
  names.Pairwise fun x y => b.sameName x y = false

/-- The names of a list of nodes. -/
def namesOf (st : State V) (l : List NodeId) : List CString := l.map fun c => (st.nodes c).name

/-- What holds of the names in one directory.  They differ; those of a FAT
directory do if the names it was read with did; and a FAT directory not read
yet has none. -/
def NamedAt (b : Backing) (history names : List CString) : Prop :=
  match b with
  | .ramfs => NamesDiffer .ramfs names
  | .fat fs true => NamesDiffer (.fat fs true) history → NamesDiffer (.fat fs true) names
  | .fat _ false => names = []

/-- Sibling names are kept apart. -/
def Named (st : State V) (kids : NodeId → List NodeId) : Prop :=
  ∀ d, NamedAt (st.nodes d).backing (st.history d) (namesOf st (kids d))

/-- Open counts count open files; a node that is open is live, and one that is
unlinked is open. -/
structure Counted (st : State V) : Prop where
  count : ∀ n, (st.nodes n).openCount = st.files.countP fun f => f.node = some n
  live : ∀ n, 0 < (st.nodes n).openCount → st.live n = true
  busy : ∀ n, (st.nodes n).unlinked = true → 0 < (st.nodes n).openCount

/-- The nodes freed so far are those given out and not live, each once. -/
structure Freed (st : State V) : Prop where
  nodup : st.released.Nodup
  mem_iff : ∀ n, n ∈ st.released ↔ n < st.next ∧ st.live n = false

/-- The invariant over a forest. -/
structure Inv (t : MountTable NodeId) (st : State V) (kids : NodeId → List NodeId) : Prop where
  tree : Tree t st kids
  named : Named st kids
  counted : Counted st
  freed : Freed st

theorem fatNameEq_iff {a b : CString} :
    fatNameEq a b = true ↔ a.map fatUpper = b.map fatUpper := by
  induction a generalizing b with
  | nil => cases b <;> simp [fatNameEq]
  | cons x a ih =>
    cases b with
    | nil => simp [fatNameEq]
    | cons y b => simp [fatNameEq, ih]

theorem Backing.sameName_comm (b : Backing) (x y : CString) : b.sameName x y = b.sameName y x := by
  rw [Bool.eq_iff_iff]
  cases b with
  | ramfs =>
    simp only [Backing.sameName, beq_iff_eq]
    exact eq_comm
  | fat fs loaded =>
    simp only [Backing.sameName, fatNameEq_iff]
    exact eq_comm

theorem NamesDiffer.perm {b : Backing} {l l' : List CString} (h : l.Perm l') :
    NamesDiffer b l ↔ NamesDiffer b l' :=
  h.pairwise_iff fun {x y} hxy => by rw [Backing.sameName_comm]; exact hxy

theorem NamedAt.cons {b : Backing} {history names : List CString} {name : CString}
    (h : NamedAt b history names) (hread : ∀ fs, b ≠ .fat fs false)
    (hnew : ∀ x ∈ names, b.sameName x name = false) : NamedAt b history (name :: names) := by
  have hcons : NamesDiffer b names → NamesDiffer b (name :: names) := by
    intro hn
    refine List.pairwise_cons.mpr ⟨?_, hn⟩
    intro x hx
    rw [Backing.sameName_comm]
    exact hnew x hx
  match b, h with
  | .ramfs, h => exact hcons h
  | .fat _ true, h => exact fun hh => hcons (h hh)
  | .fat fs false, _ => exact absurd rfl (hread fs)

theorem NamedAt.perm {b : Backing} {history l l' : List CString} (h : l.Perm l') :
    NamedAt b history l ↔ NamedAt b history l' := by
  match b with
  | .ramfs => exact NamesDiffer.perm h
  | .fat _ true => exact imp_congr_right fun _ => NamesDiffer.perm h
  | .fat _ false =>
    constructor
    · intro hl
      exact List.nil_perm.mp (hl ▸ h)
    · intro hl
      exact List.perm_nil.mp (hl ▸ h)

theorem NamedAt.sublist {b : Backing} {history l l' : List CString} (h : NamedAt b history l)
    (hl : l'.Sublist l) : NamedAt b history l' := by
  match b, h with
  | .ramfs, h => exact List.Pairwise.sublist hl h
  | .fat _ true, h => exact fun hh => List.Pairwise.sublist hl (h hh)
  | .fat _ false, h =>
    obtain rfl : l = [] := h
    exact List.sublist_nil.mp hl

theorem namedAt_nil (b : Backing) (history : List CString) : NamedAt b history [] := by
  match b with
  | .ramfs => exact List.Pairwise.nil
  | .fat _ true => exact fun _ => List.Pairwise.nil
  | .fat _ false => rfl

/-! ## Data of a node -/

/-- A node without its tree pointers. -/
def VNode.data (v : VNode) : VNode :=
  { v with parent := none, firstChild := none, nextSibling := none }

theorem VNode.data_eq_iff {v w : VNode} :
    v.data = w.data ↔ v.name = w.name ∧ v.type = w.type ∧ v.backing = w.backing ∧
      v.openCount = w.openCount ∧ v.unlinked = w.unlinked := by
  simp [VNode.data]

theorem State.nodes_setNode (st : State V) (n m : NodeId) (v : VNode) :
    (st.setNode n v).nodes m = if m = n then v else st.nodes m := by
  simp only [State.setNode, Function.update_apply]

theorem State.data_setFirst (st : State V) (n m : NodeId) (x : Option NodeId) :
    ((st.setFirst n x).nodes m).data = (st.nodes m).data := by
  rw [State.setFirst, State.nodes_setNode]
  split
  · rename_i h
    rw [h]
    rfl
  · rfl

theorem State.data_setNext (st : State V) (n m : NodeId) (x : Option NodeId) :
    ((st.setNext n x).nodes m).data = (st.nodes m).data := by
  rw [State.setNext, State.nodes_setNode]
  split
  · rename_i h
    rw [h]
    rfl
  · rfl

theorem State.data_setParent (st : State V) (n m : NodeId) (x : Option NodeId) :
    ((st.setParent n x).nodes m).data = (st.nodes m).data := by
  rw [State.setParent, State.nodes_setNode]
  split
  · rename_i h
    rw [h]
    rfl
  · rfl

theorem State.data_spliceOut (st : State V) (d c m : NodeId) (prev : Option NodeId) :
    ((st.spliceOut d prev c).nodes m).data = (st.nodes m).data := by
  cases prev with
  | none => exact st.data_setFirst d m _
  | some p => exact st.data_setNext p m _

theorem State.data_appendTo (st : State V) (d n m : NodeId) :
    ((st.appendTo d n).nodes m).data = (st.nodes m).data := by
  rw [State.appendTo]
  split
  · exact st.data_setFirst d m _
  · exact st.data_setNext _ m _

/-! ## A new child -/

/-- `st'` is `st` with a fresh node in the list of `d`, with the data of `v`. -/
structure NewChild (st st' : State V) (d : NodeId) (v : VNode) : Prop where
  parent : st'.links.parent = Function.update st.links.parent st.next (some d)
  data : ∀ m, m ≠ st.next → (st'.nodes m).data = (st.nodes m).data
  fresh : (st'.nodes st.next).data = v.data
  rest : st' = { st with
    nodes := st'.nodes, live := Function.update st.live st.next true, next := st.next + 1 }

theorem Tree.shape_clear_next (h : Tree t st kids) : (st.links.clear st.next).Shape kids :=
  h.shape.clear (h.dead _ h.next_dead) h.kids_next

/-- `fat_new_vnode` puts the fresh node behind the others. -/
theorem fatNewVnode_newChild (h : Tree t st kids) (d : NodeId) (name : CString)
    (type : VNodeType) (b : Backing) :
    NewChild st (fatNewVnode st d name type b) d (childNode d name type b) ∧
      (fatNewVnode st d name type b).links.Shape
        (Function.update kids d (kids d ++ [st.next])) := by
  have hlinks := st.links_alloc (v := childNode d name type b) rfl rfl
  have hclear := h.shape_clear_next
  have hchildren : (st.alloc (childNode d name type b)).children d = kids d := by
    apply children_eq_of_chain
    · rw [hlinks]
      exact hclear.chain d
    · intro c hc
      exact Nat.lt_succ_of_lt (h.bound c (h.live_of_mem hc))
  have hpush : ((st.alloc (childNode d name type b)).appendTo d st.next).links =
      (st.links.clear st.next).pushBack d st.next (kids d).getLast? := by
    rw [State.appendTo, hchildren]
    cases (kids d).getLast? <;>
      simp [hlinks, Forest.pushBack, Forest.clear]
  refine ⟨⟨?_, ?_, ?_, ?_⟩, ?_⟩
  · rw [fatNewVnode, hpush]
    simp [Forest.pushBack, Forest.clear]
  · intro m hm
    rw [fatNewVnode, State.data_appendTo]
    simp [State.alloc, hm]
  · rw [fatNewVnode, State.data_appendTo]
    simp [State.alloc, VNode.data]
  · rw [fatNewVnode, State.appendTo_eq]
    rfl
  · rw [fatNewVnode, hpush]
    apply hclear.pushBack <;> simp [Forest.clear]

/-- A successful `ramfs_create` puts it before the others. -/
theorem ramfsCreate_newChild (h : Tree t st kids) {mem : Bool} {d n : NodeId} {name : CString}
    {type : VNodeType} (hd : st.live d = true)
    (hmade : (ramfsCreate mem st d name type).1 = some n) :
    n = st.next ∧ ramfsLookup st d name = none ∧
    NewChild st (ramfsCreate mem st d name type).2 d (childNode d name type .ramfs) ∧
      (ramfsCreate mem st d name type).2.links.Shape
        (Function.update kids d (st.next :: kids d)) := by
  have hlinks := st.links_alloc (v := childNode d name type .ramfs) rfl rfl
  have hclear := h.shape_clear_next
  have hdn : d ≠ st.next := h.ne_next hd
  rw [ramfsCreate] at hmade ⊢
  split at hmade
  · simp at hmade
  · rename_i hlook
    split at hmade
    · simp at hmade
    · rename_i hmem
      rw [if_neg hlook, if_neg hmem]
      have hpush : (((st.alloc (childNode d name type .ramfs)).setNext st.next
          ((st.alloc (childNode d name type .ramfs)).nodes d).firstChild).setFirst d
            (some st.next)).links = (st.links.clear st.next).pushFront d st.next := by
        have hfirst : ((st.alloc (childNode d name type .ramfs)).nodes d).firstChild =
            (st.links.clear st.next).first d := by
          simp [State.alloc, hdn, Forest.clear]
        simp [hlinks, Forest.pushFront, hfirst, Forest.clear]
      refine ⟨by simpa using hmade.symm, by simpa using hlook, ⟨?_, ?_, ?_, rfl⟩, ?_⟩
      · rw [hpush]
        simp [Forest.pushFront, Forest.clear]
      · intro m hm
        rw [State.data_setFirst, State.data_setNext]
        simp [State.alloc, hm]
      · rw [State.data_setFirst, State.data_setNext]
        simp [State.alloc]
      · rw [hpush]
        exact hclear.pushFront (by simp [Forest.clear])

section NewChild

variable {d : NodeId} {v : VNode} {l : List NodeId}

theorem NewChild.tree (hc : NewChild st st' d v) (h : Tree t st kids) (hd : st.live d = true)
    (hdir : (st.nodes d).type = .dir) (hlinked : (st.nodes d).unlinked = false)
    (hv : v.unlinked = false) (hshape : st'.links.Shape (Function.update kids d l)) :
    Tree t st' (Function.update kids d l) := by
  have hlive : st'.live = Function.update st.live st.next true := congrArg State.live hc.rest
  have hnext : st'.next = st.next + 1 := congrArg State.next hc.rest
  apply h.reparent (fun hr => h.ne_next (h.roots _ hr).1 rfl) hshape hc.parent
  · intro e he
    obtain rfl : d = e := by simpa using he
    refine ⟨hd, hdir, hlinked, ?_⟩
    obtain ⟨anc, hanc⟩ := h.rooted d
    rw [h.ancestors_eq hd hanc]
    intro hmem
    exact h.ne_next (h.live_of_ancestor hanc (by simpa using hd) _ hmem) rfl
  · grind
  · intro m hm
    exact (VNode.data_eq_iff.mp (hc.data m hm)).2.1
  · intro m hm
    exact (VNode.data_eq_iff.mp (hc.data m hm)).2.2.2.2
  · intro m hm
    rw [hlive, Function.update_of_ne hm]
  · intro m hm
    rw [hnext]
    by_cases hmn : m = st.next
    · exact hmn ▸ Nat.lt_succ_self _
    · rw [hlive, Function.update_of_ne hmn] at hm
      exact Nat.lt_succ_of_lt (h.bound m hm)
  · intro hfalse
    rw [hlive, Function.update_self] at hfalse
    exact absurd hfalse (by simp)
  · intro _
    refine Or.inl ⟨by simp, ?_⟩
    rw [(VNode.data_eq_iff.mp hc.fresh).2.2.2.2, hv]
  · exact Or.inl h.kids_next

theorem NewChild.counted (hc : NewChild st st' d v) (h : Counted st)
    (hnext : st.live st.next = false) (hv : v.unlinked = false) (hcount : v.openCount = 0) :
    Counted st' := by
  have hfiles : st'.files = st.files := by rw [hc.rest]
  have hlive : st'.live = Function.update st.live st.next true := congrArg State.live hc.rest
  have hfresh := VNode.data_eq_iff.mp hc.fresh
  have hzero : (st.nodes st.next).openCount = 0 := by
    by_contra hpos
    have := h.live _ (Nat.pos_of_ne_zero hpos)
    rw [hnext] at this
    exact absurd this (by simp)
  refine ⟨?_, ?_, ?_⟩
  · intro m
    rw [hfiles, ← h.count m]
    by_cases hm : m = st.next
    · rw [hm, hfresh.2.2.2.1, hcount, hzero]
    · rw [(VNode.data_eq_iff.mp (hc.data m hm)).2.2.2.1]
  · intro m hpos
    rw [hlive]
    by_cases hm : m = st.next
    · rw [hm, Function.update_self]
    · rw [Function.update_of_ne hm]
      rw [(VNode.data_eq_iff.mp (hc.data m hm)).2.2.2.1] at hpos
      exact h.live m hpos
  · intro m hun
    by_cases hm : m = st.next
    · rw [hm, hfresh.2.2.2.2, hv] at hun
      exact absurd hun (by simp)
    · have hdata := VNode.data_eq_iff.mp (hc.data m hm)
      rw [hdata.2.2.2.2] at hun
      rw [hdata.2.2.2.1]
      exact h.busy m hun

theorem NewChild.freed (hc : NewChild st st' d v) (h : Freed st) : Freed st' := by
  have hreleased : st'.released = st.released := by rw [hc.rest]
  have hlive : st'.live = Function.update st.live st.next true := congrArg State.live hc.rest
  have hnext' : st'.next = st.next + 1 := congrArg State.next hc.rest
  refine ⟨by rw [hreleased]; exact h.nodup, ?_⟩
  intro m
  rw [hreleased, h.mem_iff, hnext', hlive]
  by_cases hm : m = st.next
  · subst hm
    simp
  · rw [Function.update_of_ne hm, Nat.lt_succ_iff, Nat.le_iff_lt_or_eq]
    simp [hm]

theorem NewChild.namedAt_other (hc : NewChild st st' d v) (h : Tree t st kids) {e : NodeId}
    (hn : NamedAt (st.nodes e).backing (st.history e) (namesOf st (kids e))) (he : e ≠ d) :
    NamedAt (st'.nodes e).backing (st'.history e)
      (namesOf st' (Function.update kids d l e)) := by
  have hhistory : st'.history = st.history := by rw [hc.rest]
  rw [Function.update_of_ne he, hhistory]
  by_cases hen : e = st.next
  · subst hen
    rw [h.kids_next]
    exact namedAt_nil _ _
  · have hnames : namesOf st' (kids e) = namesOf st (kids e) := by
      apply List.map_congr_left
      intro c hmem
      exact (VNode.data_eq_iff.mp (hc.data c (h.ne_next (h.live_of_mem hmem)))).1
    rw [(VNode.data_eq_iff.mp (hc.data e hen)).2.2.1, hnames]
    exact hn

theorem NewChild.named (hc : NewChild st st' d v) (h : Tree t st kids) (hn : Named st kids)
    (hd : st.live d = true) (hl : l.Perm (st.next :: kids d))
    (hread : ∀ fs, (st.nodes d).backing ≠ .fat fs false)
    (hnew : ∀ c ∈ kids d, (st.nodes d).backing.sameName (st.nodes c).name v.name = false) :
    Named st' (Function.update kids d l) := by
  intro e
  by_cases he : e = d
  · subst he
    have hhistory : st'.history = st.history := by rw [hc.rest]
    have hnames : (namesOf st' l).Perm (v.name :: namesOf st (kids e)) := by
      refine (hl.map _).trans ?_
      rw [List.map_cons, (VNode.data_eq_iff.mp hc.fresh).1]
      refine List.Perm.cons _ (List.Perm.of_eq ?_)
      apply List.map_congr_left
      intro c hmem
      exact (VNode.data_eq_iff.mp (hc.data c (h.ne_next (h.live_of_mem hmem)))).1
    rw [Function.update_self, hhistory, (VNode.data_eq_iff.mp (hc.data e (h.ne_next hd))).2.2.1,
      NamedAt.perm hnames]
    refine (hn e).cons hread ?_
    intro x hx
    obtain ⟨c, hmem, rfl⟩ := List.mem_map.mp hx
    exact hnew c hmem
  · exact hc.namedAt_other h (hn e) he

end NewChild

end Vfs
