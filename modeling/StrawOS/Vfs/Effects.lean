import StrawOS.Vfs.Walk

/-!
# The edits of the file systems

Creating, renaming and unlinking are edits of one node.  For each there is what
the edit does to the lookup it is about: a created node is what its name leads
to (`Creation`), a renamed one what its new name leads to (`Relocation`), and an
unlinked one is what its name led to and has no directory any more (`Removal`).
-/

namespace Vfs

variable {V : Type} (disk : FatDisk V) {t : MountTable NodeId} {st st' st'' : State V}
  {kids kids' : NodeId → List NodeId} {n d : NodeId} {name : CString}

/-! ## A new child -/

theorem Tree.next_notMem (h : Tree t st kids) (d : NodeId) : st.next ∉ kids d :=
  fun hmem => h.ne_next (h.live_of_mem hmem) rfl

/-- **A new child** with a name that is free is an edit, and is found. -/
theorem NewChild.edit {v : VNode} {l : List NodeId} (hc : NewChild st st' d v)
    (h : Inv t st kids) (h' : Inv t st' (Function.update kids d l)) (hd : st.live d = true)
    (hl : l.filter (· ≠ st.next) = kids d) (hfree : findChild st d v.name = none) :
    Edit t st st' st.next := by
  have hdata := fun m hm => VNode.data_eq_iff.mp (hc.data m hm)
  have hlive : st'.live = Function.update st.live st.next true := congrArg State.live hc.rest
  have hparent : (st'.nodes st.next).parent = some d := by
    rw [← State.links_parent, hc.parent, Function.update_self]
  have hkids : ∀ e, (kids e).filter (· ≠ st.next) = kids e := fun e =>
    List.filter_eq_self.mpr fun c hmem =>
      decide_eq_true fun hcn => h.tree.next_notMem e (hcn ▸ hmem)
  refine ⟨⟨kids, h⟩, ⟨_, h'⟩, ?_, ?_, ?_, ?_, ?_, ?_, ?_, ?_⟩
  · intro hroot
    exact h.tree.ne_next (h.tree.roots _ hroot).1 rfl
  · intro m hm
    rw [hlive, Function.update_of_ne hm]
  · exact fun m hm => (hdata m hm).1
  · exact fun m hm => (hdata m hm).2.1
  · exact fun m hm => (hdata m hm).2.2.1
  · intro e _
    rw [h'.tree.children_eq, h.tree.children_eq, hkids e]
    by_cases he : e = d
    · rw [he, Function.update_self, hl]
    · rw [Function.update_of_ne he, hkids e]
  · intro e c hn
    rw [h.tree.children_eq] at hn
    exact absurd hn (h.tree.next_notMem e)
  · intro e c hn hmem hsame
    have hpe := (h'.tree.shape.mem_iff _ _).mp (h'.tree.children_eq e ▸ hn)
    obtain rfl : d = e := Option.some.inj (hparent.symm.trans hpe)
    by_contra hcn
    rw [h'.tree.children_eq, Function.update_self] at hmem
    have hold : c ∈ kids d := by
      rw [← hl]
      exact List.mem_filter.mpr ⟨hmem, decide_eq_true hcn⟩
    rw [(hdata d (h.tree.ne_next hd)).2.2.1, (hdata c hcn).1,
      (VNode.data_eq_iff.mp hc.fresh).1, h.not_sameName hfree c hold] at hsame
    exact absurd hsame (by simp)

/-- A call has put the fresh node `n` into `d`, where its name was free. -/
structure Creation (t : MountTable NodeId) (st st' : State V) (d n : NodeId) (name : CString)
    (type : VNodeType) : Prop where
  edit : Edit t st st' n
  settled : Settled st d
  free : findChild st d name = none
  made : findChild st' d name = some n
  fresh : st.next = n
  next : st'.next = n + 1
  kind : (st'.nodes n).type = type

theorem NewChild.creation {type : VNodeType} {b : Backing} {l : List NodeId}
    (hc : NewChild st st' d (childNode d name type b))
    (h : Inv t st kids) (h' : Inv t st' (Function.update kids d l)) (hd : st.live d = true)
    (hl : l = st.next :: kids d ∨ l = kids d ++ [st.next]) (hs : Settled st d)
    (hname : name.length < vfsNameMax) (hfree : findChild st d name = none) :
    Creation t st st' d st.next name type := by
  have hv : (childNode d name type b).name = name := take_name hname
  have hfresh := VNode.data_eq_iff.mp hc.fresh
  have hedit := hc.edit h h' hd (filter_ne_of_added (h.tree.next_notMem d) hl)
    (by rw [hv]; exact hfree)
  refine ⟨hedit, hs, hfree, ?_, rfl, ?_, hfresh.2.1⟩
  · apply hedit.alone'.findChild
    · rw [h'.tree.children_eq, Function.update_self]
      rcases hl with rfl | rfl <;> simp
    · rw [hfresh.1, hv]
      cases (st'.nodes d).backing with
      | ramfs => simp [Backing.sameName]
      | fat fs loaded => simp [Backing.sameName, fatNameEq_iff]
  · rw [hc.rest]

/-- **Creating a node**: after some reading the new node is put into its directory. -/
theorem nodeCreate_creation (h : Inv t st kids) (type : VNodeType) (mem : Bool)
    (hd : Reached st d) (hdir : (st.nodes d).type = .dir) (hname : name.length < vfsNameMax)
    (hmade : (nodeCreate disk mem st d name type).1 = some n) :
    ∃ st1, Grown st st1 ∧ Creation t st1 (nodeCreate disk mem st d name type).2 d n name type := by
  rcases nodeCreate_cases disk h type mem hd hdir hname with
    ⟨hnone, -⟩ | ⟨st1, kids1, b, l, hsome, hgrown, h1, hd1, hc, hinv, -, hl, hs, hfree⟩
  · rw [hnone] at hmade
    cases hmade
  · obtain rfl : st1.next = n := Option.some.inj (hsome.symm.trans hmade)
    exact ⟨st1, hgrown, hc.creation h1 hinv hd1.live hl hs hname hfree⟩

theorem openNode_name (st : State V) (n : NodeId) (flags : UInt32) (m : NodeId) :
    ((openNode st n flags).nodes m).name = (st.nodes m).name ∧
      ((openNode st n flags).nodes m).backing = (st.nodes m).backing := by
  rw [openNode_nodes]
  split
  · rename_i hm
    rw [hm]
    exact ⟨rfl, rfl⟩
  · exact ⟨rfl, rfl⟩

theorem openNode_children (h : Inv t st kids) (hn : Reached st n) (flags : UInt32) (e : NodeId) :
    (openNode st n flags).children e = st.children e := by
  rw [(openNode_inv h hn flags).tree.children_eq, h.tree.children_eq]

theorem openNode_findChild (h : Inv t st kids) (hn : Reached st n) (flags : UInt32) (e : NodeId)
    (name : CString) : findChild (openNode st n flags) e name = findChild st e name := by
  rw [findChild, findChild, openNode_children h hn, (openNode_name st n flags e).2]
  apply List.find?_congr
  intro c _
  rw [(openNode_name st n flags c).1]

theorem Edit.openNode (he : Edit t st st' n) (hn : Reached st' n) (flags : UInt32) :
    Edit t st (openNode st' n flags) n := by
  obtain ⟨kids', h'⟩ := he.inv'
  have hnode : ∀ m, m ≠ n → (Vfs.openNode st' n flags).nodes m = st'.nodes m := by
    intro m hm
    rw [openNode_nodes, if_neg hm]
  refine ⟨he.inv, ⟨_, openNode_inv h' hn flags⟩, he.notRoot, he.live, ?_, ?_, ?_, ?_, he.alone, ?_⟩
  · exact fun m hm => (congrArg VNode.name (hnode m hm)).trans (he.name m hm)
  · exact fun m hm => (congrArg VNode.type (hnode m hm)).trans (he.type m hm)
  · exact fun m hm => (congrArg VNode.backing (hnode m hm)).trans (he.backing m hm)
  · intro e hen
    rw [openNode_children h' hn]
    exact he.order e hen
  · intro e c hmem hce hsame
    rw [openNode_children h' hn] at hmem hce
    rw [(openNode_name st' n flags e).2, (openNode_name st' n flags c).1,
      (openNode_name st' n flags n).1] at hsame
    exact he.alone' e c hmem hce hsame

/-! ## A child taken out -/

/-- No directory that was read from a volume held two entries of one name. -/
def DistinctEntries (st : State V) : Prop :=
  ∀ d fs, (st.nodes d).backing = .fat fs true → NamesDiffer (.fat fs true) (st.history d)

/-- A call has taken the child `n` of a name out of `d`. -/
structure Removal (t : MountTable NodeId) (st st' : State V) (d n : NodeId) (name : CString) :
    Prop where
  edit : Edit t st st' n
  settled : Settled st d
  found : findChild st d name = some n
  orphan : (st'.nodes n).parent = none

theorem Inv.not_root (h : Inv t st kids) (hn : (st.nodes n).parent = some d) :
    ¬ IsMountRoot t n := by
  intro hroot
  have hnone := (h.tree.roots n hroot).2.1
  rw [hn] at hnone
  exact absurd hnone (by simp)

/-- **Taking out** a child that is alone in its directory is an edit. -/
theorem Delisted.edit (hl : Delisted t st st' kids d n) (h : Inv t st kids)
    (halone : Alone st n) : Edit t st st' n := by
  obtain ⟨pre, post, hk, h'⟩ := hl.lists
  have hdata := fun m hm => VNode.data_eq_iff.mp (hl.data m hm)
  have hn : (st.nodes n).parent = some d := (h.tree.shape.mem_iff n d).mp (by simp [hk])
  refine ⟨⟨kids, h⟩, ⟨_, h'⟩, h.not_root hn, hl.live, fun m hm => (hdata m hm).1,
    fun m hm => (hdata m hm).2.1, fun m hm => (hdata m hm).2.2.1, ?_, halone, ?_⟩
  · intro e _
    rw [h'.tree.children_eq, h.tree.children_eq, h.kids_without hk e, List.filter_filter]
    simp
  · intro e c hmem
    rw [h'.tree.children_eq] at hmem
    have hpe := (h'.tree.shape.mem_iff _ _).mp hmem
    rw [State.links_parent, hl.orphan] at hpe
    exact absurd hpe (by simp)

/-- The child that was taken out was alone, if the directory was read so. -/
theorem Delisted.alone (hl : Delisted t st st' kids d n) (h : Inv t st kids)
    (hread : DistinctEntries st') : Alone st n := by
  obtain ⟨pre, post, hk, -⟩ := hl.lists
  have hn : (st.nodes n).parent = some d := (h.tree.shape.mem_iff n d).mp (by simp [hk])
  have hdn : d ≠ n := by
    rintro rfl
    exact h.notMem_ancestors hn (h.self_mem_ancestors (h.tree.parentDir _ _ hn).1)
  apply h.alone hn
  intro fs hb
  have hread' := hread d fs
  rw [hl.history, (VNode.data_eq_iff.mp (hl.data d hdn)).2.2.1] at hread'
  exact hread' hb

theorem Delisted.removal (hl : Delisted t st st' kids d n) (h : Inv t st kids)
    (hread : DistinctEntries st') (hs : Settled st d) (hfound : findChild st d name = some n) :
    Removal t st st' d n name :=
  ⟨hl.edit h (hl.alone h hread), hs, hfound, hl.orphan⟩

/-- **`vfs_unlink`** that succeeds: after some reading the child of the parent
directory with that name is taken out. -/
theorem vfsUnlink_removal (h : Inv t st kids) {path : CString}
    (hok : (vfsUnlink disk t st path).1 = true)
    (hread : DistinctEntries (vfsUnlink disk t st path).2) :
    ∃ dir leaf st1 n, (resolveParent (nodeLookup disk) t st path).1 = some (dir, leaf) ∧
      (lookupIn (nodeLookup disk) (resolveParent (nodeLookup disk) t st path).2 dir leaf).1 =
        some n ∧
      Grown (resolveParent (nodeLookup disk) t st path).2 st1 ∧
      Removal t st1 (vfsUnlink disk t st path).2 dir n leaf := by
  obtain ⟨⟨kids1, h1⟩, -, hparent⟩ := resolveParent_spec disk h path
  rw [vfsUnlink] at hok hread ⊢
  generalize resolveParent (nodeLookup disk) t st path = parent at *
  split at hok
  · simp at hok
  · rename_i dir leaf hdl
    obtain ⟨hdir, -⟩ := hparent dir leaf hdl
    split at hok
    · simp at hok
    · rename_i htype
      simp only [hdl, if_neg htype] at hread ⊢
      split at hok
      · rename_i hb
        simp only [hb] at hread ⊢
        rcases ramfsUnlink_spec h1 hb leaf with hstay | ⟨c, hfound, hout⟩
        · rw [hstay] at hok
          simp at hok
        · have hs : Settled parent.2 dir := Or.inl (by simp [hb])
          have hlook : (lookupIn (nodeLookup disk) parent.2 dir leaf).1 = some c := by
            rw [lookupIn_of_settled disk h1 hs, hfound]
          exact ⟨dir, leaf, parent.2, c, rfl, hlook, Grown.refl _,
            hout.removal h1 hread hs hfound⟩
      · rename_i fs l hb
        simp only [hb] at hread ⊢
        rcases fatUnlink_spec disk h1 hdir leaf ⟨fs, l, hb⟩ with
          hfail | ⟨st2, kids2, c, h2, hgrown, hs, hlook, hfound, hout⟩
        · rw [hfail.1] at hok
          exact absurd hok (by simp)
        · have hlookup : lookupIn (nodeLookup disk) parent.2 dir leaf =
              fatLookup disk parent.2 dir leaf := by
            simp [lookupIn, nodeLookup, hb]
          exact ⟨dir, leaf, st2, c, rfl, by rw [hlookup, hlook], hgrown,
            hout.removal h2 hread hs hfound⟩

/-! ## A child moved -/

/-- A call has moved `n` from `old` to `d`, under a name that was free there. -/
structure Relocation (t : MountTable NodeId) (st st' : State V) (old d n : NodeId)
    (name : CString) : Prop where
  edit : Edit t st st' n
  parent : (st.nodes n).parent = some old
  above : n ∉ st.ancestors d
  free : findChild st d name = none
  placed : findChild st' d name = some n
  parent' : (st'.nodes n).parent = some d
  name' : (st'.nodes n).name = name

/-- **Moving** a child that is alone to where its new name is free is an edit. -/
theorem Relisted.relocation (hr : Relisted t st st' kids n d name) (h : Inv t st kids)
    (hread : DistinctEntries st') (hd : st.live d = true) (habove : n ∉ st.ancestors d)
    (hfree : findChild st d name = none) : ∃ old, Relocation t st st' old d n name := by
  obtain ⟨old, pre, post, l, hk, hl, h'⟩ := hr.lists
  have hdata := fun m hm => VNode.data_eq_iff.mp (hr.moved.data m hm)
  have hn : (st.nodes n).parent = some old := (h.tree.shape.mem_iff n old).mp (by simp [hk])
  have hparent : (st'.nodes n).parent = some d := by
    rw [← State.links_parent, hr.moved.parent, Function.update_self]
  have hname : (st'.nodes n).name = name := by
    have hmoved := hr.moved.moved
    simp only [VNode.data, VNode.mk.injEq] at hmoved
    exact hmoved.1
  have hdn : d ≠ n := fun heq => habove (heq ▸ h.self_mem_ancestors hd)
  have hon : old ≠ n := by
    rintro rfl
    exact h.notMem_ancestors hn (h.self_mem_ancestors (h.tree.parentDir _ _ hn).1)
  have hout := h.kids_without hk
  have halone : Alone st n := by
    apply h.alone hn
    intro fs hb
    have hread' := hread old fs
    rw [hr.moved.rest] at hread'
    rw [(hdata old hon).2.2.1] at hread'
    exact hread' hb
  have halone' : Alone st' n := by
    intro e c hmem hce hsame
    have hpe := (h'.tree.shape.mem_iff _ _).mp (h'.tree.children_eq e ▸ hmem)
    obtain rfl : d = e := Option.some.inj (hparent.symm.trans hpe)
    by_contra hcn
    rw [h'.tree.children_eq, Function.update_self] at hce
    have hold : c ∈ kids d := by
      have hmem' : c ∈ l.filter (· ≠ n) := List.mem_filter.mpr ⟨hce, decide_eq_true hcn⟩
      rw [hl, hout d] at hmem'
      exact (List.mem_filter.mp hmem').1
    rw [(hdata d hdn).2.2.1, (hdata c hcn).1, hname, h.not_sameName hfree c hold] at hsame
    exact absurd hsame (by simp)
  refine ⟨old, ⟨⟨kids, h⟩, ⟨_, h'⟩, h.not_root hn, ?_, fun m hm => (hdata m hm).1,
    fun m hm => (hdata m hm).2.1, fun m hm => (hdata m hm).2.2.1, ?_, halone, halone'⟩,
    hn, habove, hfree, ?_, hparent, hname⟩
  · intro m _
    rw [hr.moved.rest]
  · intro e _
    rw [h'.tree.children_eq, h.tree.children_eq]
    by_cases he : e = d
    · rw [he, Function.update_self, hl, hout d]
    · rw [Function.update_of_ne he, hout e, List.filter_filter]
      simp
  · apply halone'.findChild
    · rw [h'.tree.children_eq]
      exact (h'.tree.shape.mem_iff n d).mpr hparent
    · rw [hname]
      cases (st'.nodes d).backing with
      | ramfs => simp [Backing.sameName]
      | fat fs loaded => simp [Backing.sameName, fatNameEq_iff]

/-- **`vfs_rename`** that succeeds: the source leads to the node, the destination
to nothing, and after some reading the node is moved to the destination's parent. -/
theorem vfsRename_relocation (h : Inv t st kids) {src dst : CString}
    (hok : (vfsRename disk t st src dst).1 = true)
    (hread : DistinctEntries (vfsRename disk t st src dst).2) :
    ∃ n dir leaf stA stB stC st1 old, vfsResolve (nodeLookup disk) t st src = (some n, stA) ∧
      vfsResolve (nodeLookup disk) t stA dst = (none, stB) ∧
      resolveParent (nodeLookup disk) t stB dst = (some (dir, leaf), stC) ∧
      Settled stC dir ∧ Grown stC st1 ∧
      Relocation t st1 (vfsRename disk t st src dst).2 old dir n leaf := by
  obtain ⟨⟨kids1, h1⟩, -, -⟩ := vfsResolve_spec disk h src
  generalize hr : vfsRename disk t st src dst = r at hok hread ⊢
  rw [vfsRename] at hr
  dsimp only at hr
  split at hr
  · subst hr
    simp at hok
  · rename_i n hn
    split at hr
    · subst hr
      simp at hok
    · obtain ⟨⟨kids2, h2⟩, -, -⟩ := vfsResolve_spec disk h1 dst
      split at hr
      · subst hr
        simp at hok
      · rename_i htarget
        obtain ⟨⟨kids3, h3⟩, -, hparent⟩ := resolveParent_spec disk h2 dst
        have htarget' : (vfsResolve (nodeLookup disk) t
            (vfsResolve (nodeLookup disk) t st src).2 dst).1 = none := by simpa using htarget
        split at hr
        · subst hr
          simp at hok
        · rename_i dir leaf hdl
          obtain ⟨hdir, hleaf⟩ := hparent dir leaf hdl
          obtain ⟨hsettled, hmissing⟩ :=
            resolveParent_missing disk h1 (Prod.ext htarget' rfl) (Prod.ext hdl rfl)
          split at hr
          · subst hr
            simp at hok
          · rename_i htype
            simp only [not_or, not_not] at htype
            have hfull := hsettled.resolve_right fun hfile => hfile htype.1
            split at hr
            · subst hr
              simp at hok
            · rename_i habove
              -- Both file systems move the node, if they do anything.
              have hmoved : ∃ v, ∃ old, Relocation t { (resolveParent (nodeLookup disk) t
                  (vfsResolve (nodeLookup disk) t (vfsResolve (nodeLookup disk) t st src).2
                    dst).2 dst).2 with vol := v } r.2 old dir n leaf := by
                split at hr
                · rcases ramfsRename_spec h3 hdir htype.1 hfull hmissing habove hleaf with
                    hstay | hmoved
                  · rw [hstay] at hr
                    subst hr
                    simp at hok
                  · rw [hr] at hmoved
                    exact ⟨_, hmoved.relocation h3 hread hdir.live habove hmissing⟩
                · obtain ⟨v, hstay | hmoved⟩ :=
                    fatRename_spec disk h3 hdir htype.1 hfull hmissing habove hleaf
                  · rw [hstay] at hr
                    subst hr
                    simp at hok
                  · rw [hr] at hmoved
                    exact ⟨v, hmoved.relocation (h3.setVol v) hread hdir.live habove hmissing⟩
              obtain ⟨v, old, hmoved⟩ := hmoved
              exact ⟨n, dir, leaf, _, _, _, _, old, Prod.ext hn rfl, Prod.ext htarget' rfl, Prod.ext hdl rfl, hsettled,
                (Grown.refl _).setVol v, hmoved⟩

end Vfs
