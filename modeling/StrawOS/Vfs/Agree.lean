import StrawOS.Vfs.Effects

/-!
# The calls and resolution

Creating, renaming and unlinking resolve the parent of a path and look its last
component up there; `vfs_resolve` goes by the whole path.  Where no mount stands
at the path itself the two agree: what a call makes, moves or takes away is what
the path leads to afterwards, or led to before.  A path leads elsewhere only if
it led, or leads now, to that node or below it.

The nodes a directory is read into depend on when that happens, so the path that
is compared before and after a call is resolved right before it.
-/

namespace Vfs

variable {V : Type} (disk : FatDisk V) (t : MountTable NodeId)

/-- A mount stands at the path itself. -/
def MountPath (path : CString) : Prop := ∃ m ∈ t.mounted, m.path = path

/-- Outside of `n` and what is below it, two resolutions lead to the same node. -/
def SameElsewhere (n : NodeId) (before after : Option NodeId × State V) : Prop :=
  ∀ x, (before.1 = some x ∧ n ∉ before.2.ancestors x) ↔
    (after.1 = some x ∧ n ∉ after.2.ancestors x)

/-- What a call that has led from `before.2` to `st'` did to resolution, where
`before` is what `path` was resolved to right before the call. -/
def Agrees (path : CString) (before : Option NodeId × State V) (st' : State V) : Call → Prop
  | .open p _ _ =>
      -- The file is on the node the path led to, or on one the call has made.
      ∃ n, st'.files.getLast?.bind (·.node) = some n ∧
        ((vfsResolve (nodeLookup disk) t before.2 p).1 = some n ∨
          (vfsResolve (nodeLookup disk) t before.2 p).1 = none ∧ before.2.live n = false ∧
            (vfsResolve (nodeLookup disk) t st' p).1 = some n ∧
            SameElsewhere n before (vfsResolve (nodeLookup disk) t st' path))
  | .mkdir p _ =>
      ¬ MountPath t p → (vfsResolve (nodeLookup disk) t before.2 p).1 = none ∧
        ∃ n, before.2.live n = false ∧ st'.next = n + 1 ∧ (st'.nodes n).type = .dir ∧
          (vfsResolve (nodeLookup disk) t st' p).1 = some n ∧
          SameElsewhere n before (vfsResolve (nodeLookup disk) t st' path)
  | .rename src dst =>
      DistinctEntries st' → (path = dst → before.1 = none) ∧
        ∃ n, (vfsResolve (nodeLookup disk) t before.2 src).1 = some n ∧
          (vfsResolve (nodeLookup disk) t st' dst).1 = some n ∧
          (vfsResolve (nodeLookup disk) t st' src).1 = none ∧
          SameElsewhere n before (vfsResolve (nodeLookup disk) t st' path)
  | .unlink p =>
      ¬ MountPath t p → DistinctEntries st' →
        ∃ n, (vfsResolve (nodeLookup disk) t before.2 p).1 = some n ∧
          (vfsResolve (nodeLookup disk) t st' p).1 = none ∧
          SameElsewhere n before (vfsResolve (nodeLookup disk) t st' path)
  | .close _ => True

variable {disk t} {st st' st'' : State V} {kids kids' : NodeId → List NodeId} {n d : NodeId}

/-! ## Resolution as a walk -/

/-- A path leads nowhere, whatever the state, or is walked from a mount. -/
theorem vfsResolve_cases (lookup : Lookup (State V) NodeId) (t : MountTable NodeId)
    (path : CString) : (∀ st, vfsResolve lookup t st path = (none, st)) ∨
      ∃ m ∈ t.mounted, ∃ names,
        ∀ st, vfsResolve lookup t st path = lookupAll lookup st m.root names := by
  by_cases habs : path.head? = some slash
  · cases hfound : findMountFor t path with
    | none =>
      refine Or.inl fun st => ?_
      rw [vfsResolve, if_neg (by simpa using habs), hfound]
    | some found =>
      obtain ⟨m, r⟩ := found
      obtain ⟨hm, -⟩ := (findMountFor_eq_some_iff t habs m r).mp hfound
      exact Or.inr ⟨m, hm.1, chunks r, fun st => vfsResolve_eq_lookupAll lookup t st habs hfound⟩
  · exact Or.inl fun st => by rw [vfsResolve, if_pos habs]

/-- A path that was resolved leads to the same node while directories are read. -/
theorem vfsResolve_again (h : Inv t st kids) {path : CString}
    (hg : Grown (vfsResolve (nodeLookup disk) t st path).2 st') (h' : Inv t st' kids') :
    vfsResolve (nodeLookup disk) t st' path =
      ((vfsResolve (nodeLookup disk) t st path).1, st') := by
  rcases vfsResolve_cases (nodeLookup disk) t path with hnone | ⟨m, hm, names, hwalk⟩
  · rw [hnone st, hnone st']
  · rw [hwalk] at hg ⊢
    obtain ⟨⟨kids1, h1⟩, hgrown, -⟩ := lookupAll_spec disk h (h.reached_root hm) names
    obtain ⟨hread, hleads⟩ := lookupAll_reads disk h (h.reached_root hm) names
    obtain ⟨hread', hleads'⟩ :=
      hread.grown hg h1 h' (hgrown.live _ (h.reached_root hm).live)
    rw [hwalk, lookupAll_of_readAlong disk h' hread', hleads', hleads]

/-- **A path and its parent, in a state.**  Where the parent resolves to a
directory, the path itself is a mount's, or the walk down the path is the
parent's walk and one lookup more. -/
theorem resolveParent_walk {path leaf : CString} {dir : NodeId}
    (hp : resolveParent (nodeLookup disk) t st path = (some (dir, leaf), st')) :
    (MountPath t path ∧ ∃ r, ∀ st, vfsResolve (nodeLookup disk) t st path = (some r, st)) ∨
      ∃ m ∈ t.mounted, ∃ front,
        (∀ st, vfsResolve (nodeLookup disk) t st path =
          lookupAll (nodeLookup disk) st m.root (front ++ [leaf])) ∧
        lookupAll (nodeLookup disk) st m.root front = (some dir, st') := by
  rcases resolveParent_cases (nodeLookup disk) t st path with hnone | ⟨habs, hne, hlen, hsome⟩
  · rw [hnone] at hp
    simp at hp
  · rw [hsome] at hp
    obtain ⟨hdir, hst⟩ := Prod.mk.inj hp
    obtain ⟨r, hr, hpair⟩ := Option.map_eq_some_iff.mp hdir
    obtain ⟨rfl, rfl⟩ := Prod.mk.inj hpair
    rcases resolve_split (nodeLookup disk) t habs hne hlen with
      ⟨m, hm, hpath, hmount⟩ | hnoparent | ⟨m, hm, front, hpath, hparent⟩
    · exact Or.inl ⟨⟨m, hm, hpath⟩, m.root, hmount⟩
    · rw [hnoparent st] at hr
      simp at hr
    · rw [hparent st] at hr hst
      exact Or.inr ⟨m, hm, front, hpath, Prod.ext hr hst⟩

/-! ## Edits and resolution -/

/-- **An edit seen by any path**, resolved before it. -/
theorem Edit.sameElsewhere (he : Edit t st' st'' n) (h : Inv t st kids) (path : CString)
    (hg : Grown (vfsResolve (nodeLookup disk) t st path).2 st') :
    SameElsewhere n (vfsResolve (nodeLookup disk) t st path)
      (vfsResolve (nodeLookup disk) t st'' path) := by
  intro x
  rcases vfsResolve_cases (nodeLookup disk) t path with hnone | ⟨m, hm, names, hwalk⟩
  · rw [hnone st, hnone st'']
    simp
  · obtain ⟨kids', h'⟩ := he.inv
    obtain ⟨kids'', h''⟩ := he.inv'
    rw [hwalk] at hg
    rw [hwalk, hwalk]
    obtain ⟨⟨kids1, h1⟩, hgrown, hreached⟩ := lookupAll_spec disk h (h.reached_root hm) names
    obtain ⟨hread, hleads⟩ := lookupAll_reads disk h (h.reached_root hm) names
    obtain ⟨hread', hleads'⟩ :=
      hread.grown hg h1 h' (hgrown.live _ (h.reached_root hm).live)
    obtain ⟨hroot, hroot'⟩ := he.notMem_ancestors_root hm
    rw [← he.walk_iff disk (h'.reached_root hm) (h''.reached_root hm) hroot hroot' hread',
      hleads', ← hleads]
    -- What is above a node that was there has not changed by reading.
    refine and_congr_right fun hx => ?_
    rw [hg.ancestors_eq h1 h' (hreached x hx).live]

/-- **An edit seen by its own path**: after it the path leads to what its
directory then has under the last name. -/
theorem Edit.resolve_leaf (he : Edit t st' st'' n) (h : Inv t st kids)
    {m : VfsMount NodeId} (hm : m ∈ t.mounted) {path leaf : CString} {front : List CString}
    (hwalk : ∀ st, vfsResolve (nodeLookup disk) t st path =
      lookupAll (nodeLookup disk) st m.root (front ++ [leaf]))
    (hdir : (lookupAll (nodeLookup disk) st m.root front).1 = some d)
    (hg : Grown (lookupAll (nodeLookup disk) st m.root front).2 st')
    (hs : Settled st' d) (habove : n ∉ st'.ancestors d) :
    (vfsResolve (nodeLookup disk) t st'' path).1 = findChild st'' d leaf := by
  obtain ⟨kids', h'⟩ := he.inv
  obtain ⟨⟨kids1, h1⟩, hgrown, -⟩ := lookupAll_spec disk h (h.reached_root hm) front
  obtain ⟨hread, hleads⟩ := lookupAll_reads disk h (h.reached_root hm) front
  obtain ⟨hread', hleads'⟩ := hread.grown hg h1 h' (hgrown.live _ (h.reached_root hm).live)
  rw [hwalk]
  exact he.walk_concat disk hm hread' (by rw [hleads', ← hleads, hdir]) hs habove leaf

/-! ## Creating -/

theorem Creation.not_live {name : CString} {type : VNodeType}
    (hc : Creation t st' st'' d n name type) (hg : Grown st st') : st.live n = false := by
  obtain ⟨kids', h'⟩ := hc.edit.inv
  by_contra hlive
  exact h'.tree.ne_next (hg.live n (by simpa using hlive)) hc.fresh.symm

theorem Creation.above {name : CString} {type : VNodeType}
    (hc : Creation t st st' d n name type) (hd : st.live d = true) : n ∉ st.ancestors d := by
  obtain ⟨kids, h⟩ := hc.edit.inv
  obtain ⟨l, hl⟩ := h.tree.rooted d
  rw [h.tree.ancestors_eq hd hl]
  intro hmem
  exact h.tree.ne_next (h.tree.live_of_ancestor hl (by simpa using hd) n hmem) hc.fresh.symm

/-- **`vfs_mkdir`** agrees with resolution. -/
theorem vfsMkdir_agrees (h : Inv t st kids) (path p : CString) (mem : Bool)
    (hok : (vfsMkdir disk t (vfsResolve (nodeLookup disk) t st path).2 p mem).1 = true) :
    Agrees disk t path (vfsResolve (nodeLookup disk) t st path)
      (vfsMkdir disk t (vfsResolve (nodeLookup disk) t st path).2 p mem).2 (.mkdir p mem) := by
  intro hmount
  obtain ⟨⟨kids0, h0⟩, -, -⟩ := vfsResolve_spec disk h path
  generalize hr : vfsMkdir disk t (vfsResolve (nodeLookup disk) t st path).2 p mem = r at hok ⊢
  rw [vfsMkdir] at hr
  dsimp only at hr
  obtain ⟨⟨kids1, h1⟩, hgrown1, hparent⟩ := resolveParent_spec disk h0 p
  split at hr
  · subst hr
    simp at hok
  · rename_i dir leaf hdl
    obtain ⟨hdir, hleaf⟩ := hparent dir leaf hdl
    split at hr
    · subst hr
      simp at hok
    · rename_i htype
      obtain ⟨⟨kids2, h2⟩, hgrown2, -, -⟩ := lookupIn_spec disk h1 hdir leaf
      split at hr
      · subst hr
        simp at hok
      · rename_i hmissing
        subst hr
        obtain ⟨n, hn⟩ := Option.isSome_iff_exists.mp hok
        obtain ⟨st1, hgrown3, hc⟩ := nodeCreate_creation disk h2 .dir mem (hgrown2.reached hdir)
          ((hgrown2.type dir hdir.live).trans (by simpa using htype)) hleaf hn
        obtain ⟨hat, -⟩ | ⟨m, hm, front, hwalk, hfront⟩ := resolveParent_walk (Prod.ext hdl rfl)
        · exact absurd hat hmount
        · have hgrown := hgrown2.trans hgrown3
          refine ⟨?_, n, hc.not_live (hgrown1.trans hgrown), hc.next, hc.kind, ?_,
            hc.edit.sameElsewhere h path (hgrown1.trans hgrown)⟩
          · have hnone : (lookupIn (nodeLookup disk) (resolveParent (nodeLookup disk) t
                (vfsResolve (nodeLookup disk) t st path).2 p).2 dir leaf).1 = none := by
              simpa using hmissing
            rw [hwalk, lookupAll_append, hfront]
            dsimp only
            rw [lookupAll]
            split
            · rfl
            · rename_i hlook
              rw [hlook] at hnone
              simp at hnone
          · rw [hc.edit.resolve_leaf h0 hm hwalk (by rw [hfront]) (by rw [hfront]; exact hgrown)
              hc.settled (hc.above (hgrown.live _ hdir.live))]
            exact hc.made

/-- **`vfs_open`** agrees with resolution. -/
theorem vfsOpen_agrees (h : Inv t st kids) (path p : CString) (flags : UInt32) (mem : Bool)
    (hok : (vfsOpen disk t (vfsResolve (nodeLookup disk) t st path).2 p flags mem).1 = true) :
    Agrees disk t path (vfsResolve (nodeLookup disk) t st path)
      (vfsOpen disk t (vfsResolve (nodeLookup disk) t st path).2 p flags mem).2
      (.open p flags mem) := by
  obtain ⟨⟨kids0, h0⟩, -, -⟩ := vfsResolve_spec disk h path
  generalize hr : vfsOpen disk t (vfsResolve (nodeLookup disk) t st path).2 p flags mem = r
    at hok ⊢
  rw [vfsOpen] at hr
  dsimp only at hr
  obtain ⟨⟨kids1, h1⟩, hgrown1, -⟩ := vfsResolve_spec disk h0 p
  split at hr
  · rename_i n hn
    subst hr
    exact ⟨n, by simp [openNode, State.setNode], Or.inl hn⟩
  · rename_i hnowhere
    split at hr
    · subst hr
      simp at hok
    · obtain ⟨⟨kids2, h2⟩, hgrown2, hparent⟩ := resolveParent_spec disk h1 p
      split at hr
      · subst hr
        simp at hok
      · rename_i dir leaf hdl
        obtain ⟨hdir, hleaf⟩ := hparent dir leaf hdl
        split at hr
        · subst hr
          simp at hok
        · rename_i htype
          split at hr
          · subst hr
            simp at hok
          · rename_i n hn
            subst hr
            obtain ⟨st1, hgrown3, hc⟩ := nodeCreate_creation disk h2 .file mem hdir
              (by simpa using htype) hleaf hn
            obtain ⟨⟨kids3, h3⟩, hreached⟩ := nodeCreate_spec disk h2 .file mem hdir
              (by simpa using htype) hleaf
            have he := hc.edit.openNode (hreached n hn) flags
            obtain ⟨-, r, hat⟩ | ⟨m, hm, front, hwalk, hfront⟩ :=
              resolveParent_walk (Prod.ext hdl rfl)
            · rw [hat] at hnowhere
              simp at hnowhere
            · have hgrown := hgrown1.trans (hgrown2.trans hgrown3)
              refine ⟨n, by simp [openNode, State.setNode], Or.inr ⟨hnowhere,
                hc.not_live hgrown, ?_, he.sameElsewhere h path hgrown⟩⟩
              rw [he.resolve_leaf h1 hm hwalk (by rw [hfront]) (by rw [hfront]; exact hgrown3)
                hc.settled (hc.above (hgrown3.live _ hdir.live)),
                openNode_findChild h3 (hreached n hn)]
              exact hc.made

/-! ## Unlinking -/

/-- An unlinked node is not above its directory, and its name is gone. -/
theorem Removal.gone {name : CString} (hr : Removal t st st' d n name) :
    n ∉ st.ancestors d ∧ findChild st' d name = none := by
  obtain ⟨kids, h⟩ := hr.edit.inv
  obtain ⟨kids', h'⟩ := hr.edit.inv'
  have hn := h.parent_of_findChild hr.found
  have hdn : d ≠ n := by
    rintro rfl
    exact h.notMem_ancestors hn (h.self_mem_ancestors (h.tree.parentDir _ _ hn).1)
  refine ⟨h.notMem_ancestors hn, ?_⟩
  by_contra hsome
  obtain ⟨c, hc⟩ := Option.ne_none_iff_exists'.mp hsome
  by_cases hcn : c = n
  · have hp := h'.parent_of_findChild hc
    rw [hcn, hr.orphan] at hp
    exact absurd hp (by simp)
  · have hfound := (hr.edit.findChild_iff hdn hcn).mp hc
    rw [hr.found] at hfound
    exact hcn (Option.some.inj hfound).symm

/-- **`vfs_unlink`** agrees with resolution. -/
theorem vfsUnlink_agrees (h : Inv t st kids) (path p : CString)
    (hok : (vfsUnlink disk t (vfsResolve (nodeLookup disk) t st path).2 p).1 = true) :
    Agrees disk t path (vfsResolve (nodeLookup disk) t st path)
      (vfsUnlink disk t (vfsResolve (nodeLookup disk) t st path).2 p).2 (.unlink p) := by
  intro hmount hread
  obtain ⟨⟨kids0, h0⟩, -, -⟩ := vfsResolve_spec disk h path
  obtain ⟨-, hgrown1, -⟩ := resolveParent_spec disk h0 p
  obtain ⟨dir, leaf, st1, n, hdl, hlook, hgrown, hr⟩ := vfsUnlink_removal disk h0 hok hread
  obtain ⟨hat, -⟩ | ⟨m, hm, front, hwalk, hfront⟩ := resolveParent_walk (Prod.ext hdl rfl)
  · exact absurd hat hmount
  · refine ⟨n, ?_, ?_, hr.edit.sameElsewhere h path (hgrown1.trans hgrown)⟩
    · rw [hwalk, lookupAll_append, hfront]
      dsimp only
      rw [lookupAll]
      split
      · rename_i hlook'
        rw [hlook'] at hlook
        simp at hlook
      · rename_i hlook'
        rw [hlook'] at hlook
        simpa [lookupAll] using hlook
    · rw [hr.edit.resolve_leaf h0 hm hwalk (by rw [hfront]) (by rw [hfront]; exact hgrown)
        hr.settled hr.gone.1]
      exact hr.gone.2

/-! ## Renaming -/

theorem Relocation.gone {old : NodeId} {name was : CString}
    (hr : Relocation t st st' old d n name) (hfound : findChild st old was = some n) :
    findChild st' old was = none := by
  obtain ⟨kids, h⟩ := hr.edit.inv
  obtain ⟨kids', h'⟩ := hr.edit.inv'
  have hon : old ≠ n := by
    rintro rfl
    exact h.notMem_ancestors hr.parent (h.self_mem_ancestors (h.tree.parentDir _ _ hr.parent).1)
  by_contra hsome
  obtain ⟨c, hc⟩ := Option.ne_none_iff_exists'.mp hsome
  by_cases hcn : c = n
  · -- Found again in the directory it was in, so its new name was not free there.
    subst hcn
    obtain rfl : d = old := Option.some.inj (hr.parent'.symm.trans (h'.parent_of_findChild hc))
    have hsame := List.find?_some hc
    have hsame' := List.find?_some hfound
    rw [hr.edit.backing d hon, hr.name'] at hsame
    have hmem := List.mem_of_find?_eq_some hfound
    rw [h.tree.children_eq] at hmem
    have hfree := h.not_sameName hr.free c hmem
    rw [Backing.sameName_of_right hsame' hsame] at hfree
    exact absurd hfree (by simp)
  · have hfound' := (hr.edit.findChild_iff hon hcn).mp hc
    rw [hfound] at hfound'
    exact hcn (Option.some.inj hfound').symm

/-- **`vfs_rename`** agrees with resolution. -/
theorem vfsRename_agrees (h : Inv t st kids) (path src dst : CString)
    (hok : (vfsRename disk t (vfsResolve (nodeLookup disk) t st path).2 src dst).1 = true) :
    Agrees disk t path (vfsResolve (nodeLookup disk) t st path)
      (vfsRename disk t (vfsResolve (nodeLookup disk) t st path).2 src dst).2
      (.rename src dst) := by
  intro hread
  obtain ⟨⟨kids0, h0⟩, -, -⟩ := vfsResolve_spec disk h path
  obtain ⟨n, dir, leaf, stA, stB, stC, st1, old, hsrc, hdst, hparent, hs, hgrownD, hr⟩ :=
    vfsRename_relocation disk h0 hok hread
  obtain ⟨⟨kidsA, hA⟩, hgrownA, hreachedA⟩ := vfsResolve_spec disk h0 src
  rw [hsrc] at hA hgrownA hreachedA
  obtain ⟨⟨kidsB, hB⟩, hgrownB, -⟩ := vfsResolve_spec disk hA dst
  rw [hdst] at hB hgrownB
  obtain ⟨⟨kidsC, hC⟩, hgrownC, hdir⟩ := resolveParent_spec disk hB dst
  rw [hparent] at hC hgrownC hdir
  obtain ⟨kids1, h1⟩ := hr.edit.inv
  have hgrown := hgrownB.trans (hgrownC.trans hgrownD)
  refine ⟨?_, n, by rw [hsrc], ?_, ?_, hr.edit.sameElsewhere h path (hgrownA.trans hgrown)⟩
  · rintro rfl
    have hagain := vfsResolve_again h hgrownA hA
    rw [hagain] at hdst
    exact (Prod.mk.inj hdst).1
  · obtain ⟨-, r, hat⟩ | ⟨m, hm, front, hwalk, hfront⟩ := resolveParent_walk hparent
    · rw [hat] at hdst
      simp at hdst
    · have hlive := (hdir dir leaf rfl).1
      have hs1 : Settled st1 dir := (hgrownD.findChild_eq hC h1 hlive.live hs leaf).1
      rw [hr.edit.resolve_leaf hB hm hwalk (by rw [hfront]) (by rw [hfront]; exact hgrownD)
        hs1 hr.above]
      exact hr.placed
  · rcases vfsResolve_cases (nodeLookup disk) t src with hnone | ⟨m, hm, names, hwalk⟩
    · rw [hnone] at hsrc
      simp at hsrc
    · rw [hwalk] at hsrc
      have hroot := h0.reached_root hm
      obtain ⟨hreadA, hleads⟩ := lookupAll_reads disk h0 hroot names
      rw [hsrc] at hreadA hleads
      obtain ⟨hread1, hleads1⟩ := hreadA.grown hgrown hA h1 (hgrownA.live _ hroot.live)
      -- The node has a directory, so the walk has a last name.
      rcases List.eq_nil_or_concat names with rfl | ⟨front, was, rfl⟩
      · have hnroot : m.root = n := by simpa [findAll] using hleads.symm
        exact absurd ⟨m, hm, hnroot⟩ hr.edit.notRoot
      · rw [List.concat_eq_append] at hwalk hread1 hleads1 hleads
        rw [← hleads, findAll_append] at hleads1
        obtain ⟨e, hfront, hlast⟩ := Option.bind_eq_some_iff.mp hleads1
        have hfound : findChild st1 e was = some n := by
          obtain ⟨c, hc, hcn⟩ := Option.bind_eq_some_iff.mp hlast
          rw [hc]
          exact hcn
        obtain rfl : e = old :=
          Option.some.inj ((h1.parent_of_findChild hfound).symm.trans hr.parent)
        rw [hwalk, hr.edit.walk_concat disk hm hread1.of_append hfront (hread1.settled hfront)
          (h1.notMem_ancestors hr.parent)]
        exact hr.gone hfound

/-! ## The calls -/

/-- **The calls agree with resolution.**  In every state that calls on freshly
mounted file systems reach, and for every path resolved there: a call that then
succeeds does to resolution what `Agrees` says. -/
theorem calls_agree_with_resolve (disk : FatDisk V) (t : MountTable NodeId) (st : State V)
    (h : (machine disk t).Reachable (fun _ _ => True) st) (path : CString) (c : Call)
    (hok : (call disk t (vfsResolve (nodeLookup disk) t st path).2 c).1 = true) :
    Agrees disk t path (vfsResolve (nodeLookup disk) t st path)
      (call disk t (vfsResolve (nodeLookup disk) t st path).2 c).2 c := by
  obtain ⟨kids, hinv⟩ := reachable_inv disk h
  cases c with
  | «open» p flags mem => exact vfsOpen_agrees hinv path p flags mem hok
  | close file => trivial
  | mkdir p mem => exact vfsMkdir_agrees hinv path p mem hok
  | rename src dst => exact vfsRename_agrees hinv path src dst hok
  | unlink p => exact vfsUnlink_agrees hinv path p hok

/-- Making `/f` on a freshly mounted file system. -/
theorem mkdir_pathF_agrees :
    (call noVolume rootOnly (vfsResolve (nodeLookup noVolume) rootOnly booted pathF).2
        (.mkdir pathF true)).1 = true ∧
      Agrees noVolume rootOnly pathF (vfsResolve (nodeLookup noVolume) rootOnly booted pathF)
        (call noVolume rootOnly (vfsResolve (nodeLookup noVolume) rootOnly booted pathF).2
          (.mkdir pathF true)).2 (.mkdir pathF true) := by
  have hok : (call noVolume rootOnly (vfsResolve (nodeLookup noVolume) rootOnly booted pathF).2
      (.mkdir pathF true)).1 = true := by
    simp only [call, vfsMkdir, resolve_pathF, resolveParent_pathF]
    rfl
  exact ⟨hok, calls_agree_with_resolve noVolume rootOnly booted
    (Machine.Reachable.start booted_fresh) pathF (.mkdir pathF true) hok⟩

/-! ## Where they disagree -/

/-- A second RAM file system mounted at `/f`, with node `1` for its root. -/
def mountedAtF : MountTable NodeId := (vfsMount rootOnly pathF 1).getD rootOnly

/-- The state after two `ramfs_create_root` and the mounts. -/
def bootedTwice : State Unit :=
  { booted with
    nodes := fun n => if n ≤ 1 then ramfsRootNode else {}
    live := fun n => decide (n ≤ 1)
    next := 2 }

/-- A volume whose directories all hold two entries named `f`. -/
def twins : FatDisk Unit :=
  { noVolume with
    load := fun _ _ _ => ([(ofAscii "f", false), (ofAscii "f", false)], ())
    removeEntry := fun _ _ _ => (true, ()) }

/-- The state after `fat32_mount` of such a volume. -/
def bootedTwins : State Unit :=
  { booted with nodes := fun n => if n = 0 then fatRootNode 0 else {} }

/-- The path `//f`. -/
def pathSlashF : CString := slash :: pathF

theorem resolve_slashF (disk : FatDisk Unit) (st : State Unit) {path : CString}
    (hp : path = pathF ∨ path = pathSlashF) :
    vfsResolve (nodeLookup disk) rootOnly st path =
      lookupAll (nodeLookup disk) st 0 [ofAscii "f"] := by
  rcases hp with rfl | rfl
  · exact resolve_pathF disk st
  · have hmount : findMountFor rootOnly pathSlashF = some (⟨rootPath, 0⟩, pathSlashF) := by
      decide +kernel
    rw [vfsResolve_eq_lookupAll _ _ _ (by decide) hmount,
      show pathSlashF = slash :: slash :: ofAscii "f" by decide, chunks_slash_cons,
      chunks_skipSlashes, chunks_slash_cons, chunks_skipSlashes,
      chunks_name (by decide) (by decide) (by decide)]

theorem resolve_mountedAtF (st : State Unit) :
    vfsResolve (nodeLookup noVolume) mountedAtF st pathF = (some 1, st) := by
  have hmount : findMountFor mountedAtF pathF = some (⟨pathF, 1⟩, []) := by decide +kernel
  rw [vfsResolve_eq_lookupAll _ _ _ (by decide) hmount, chunks_nil, lookupAll]

/-- Making `/f` changes what `//f` leads to.  Where a file system is mounted at
`/f`, making the directory `/f` succeeds all the same, and the path leads to the
mount before and after.  And where a volume holds two entries named `f`, the
path still leads somewhere once it has been unlinked. -/
theorem other_paths_change :
    ((vfsMkdir noVolume rootOnly booted pathF true).1 = true ∧ pathSlashF ≠ pathF ∧
        (vfsResolve (nodeLookup noVolume) rootOnly booted pathSlashF).1 = none ∧
        (vfsResolve (nodeLookup noVolume) rootOnly
          (vfsMkdir noVolume rootOnly booted pathF true).2 pathSlashF).1 = some 1) ∧
      ((vfsMkdir noVolume mountedAtF bootedTwice pathF true).1 = true ∧
        (vfsMkdir noVolume mountedAtF bootedTwice pathF true).2.live 2 = true ∧
        (vfsResolve (nodeLookup noVolume) mountedAtF bootedTwice pathF).1 = some 1 ∧
        (vfsResolve (nodeLookup noVolume) mountedAtF
          (vfsMkdir noVolume mountedAtF bootedTwice pathF true).2 pathF).1 = some 1) ∧
      ((vfsUnlink twins rootOnly bootedTwins pathF).1 = true ∧
        (vfsResolve (nodeLookup twins) rootOnly
          (vfsUnlink twins rootOnly bootedTwins pathF).2 pathF).1 = some 2) := by
  have hroot : findMountFor rootOnly rootPath = some (⟨rootPath, 0⟩, rootPath) := by
    decide +kernel
  have hroot' : findMountFor mountedAtF rootPath = some (⟨rootPath, 0⟩, rootPath) := by
    decide +kernel
  refine ⟨⟨?_, by decide, ?_, ?_⟩, ⟨?_, ?_, ?_, ?_⟩, ?_, ?_⟩
  · simp only [vfsMkdir, resolveParent_of_root _ _ _ hroot]
    rfl
  · rw [resolve_slashF _ _ (Or.inr rfl)]
    rfl
  · rw [resolve_slashF _ _ (Or.inr rfl)]
    simp only [vfsMkdir, resolveParent_of_root _ _ _ hroot]
    rfl
  · simp only [vfsMkdir, resolveParent_of_root _ _ _ hroot']
    rfl
  · simp only [vfsMkdir, resolveParent_of_root _ _ _ hroot']
    rfl
  · rw [resolve_mountedAtF]
  · rw [resolve_mountedAtF]
  · simp only [vfsUnlink, resolveParent_of_root _ _ _ hroot]
    rfl
  · rw [resolve_slashF _ _ (Or.inl rfl)]
    simp only [vfsUnlink, resolveParent_of_root _ _ _ hroot]
    rfl

end Vfs
