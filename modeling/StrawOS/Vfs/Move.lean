import StrawOS.Vfs.Remove

/-!
# Renaming

Renaming takes a node out of one list and puts it into another, in front in the
RAM file system, behind on a FAT volume, under a new name.  Neither file system
looks the new name up: `vfs_rename` has made sure that it is free and that the
new directory is not below the node.
-/

namespace Vfs

variable {V : Type} (disk : FatDisk V) {t : MountTable NodeId} {st st' : State V}
  {kids kids' : NodeId → List NodeId}

/-- `st'` is `st` with `n` moved below `d` under a new name. -/
structure Moved (st st' : State V) (n d : NodeId) (name : CString) : Prop where
  parent : st'.links.parent = Function.update st.links.parent n (some d)
  data : ∀ m, m ≠ n → (st'.nodes m).data = (st.nodes m).data
  moved : (st'.nodes n).data = { (st.nodes n).data with name := name }
  rest : st' = { st with nodes := st'.nodes, vol := st'.vol }

/-- **Moving** a node to where its new name is free keeps the invariant. -/
theorem Moved.inv {n d old : NodeId} {name : CString} {pre post l : List NodeId}
    (hmv : Moved st st' n d name) (h : Inv t st kids) (hk : kids old = pre ++ n :: post)
    (hd : Reached st d) (hdir : (st.nodes d).type = .dir)
    (hread : ∀ fs, (st.nodes d).backing ≠ .fat fs false)
    (hfree : findChild st d name = none) (habove : n ∉ st.ancestors d)
    (hl : l.Perm (n :: Function.update kids old (pre ++ post) d))
    (hshape : st'.links.Shape
      (Function.update (Function.update kids old (pre ++ post)) d l)) :
    Inv t st' (Function.update (Function.update kids old (pre ++ post)) d l) := by
  have hn : n ∈ kids old := by simp [hk]
  have hparent : (st.nodes n).parent = some old := (h.tree.shape.mem_iff n old).mp hn
  have hlive : st'.live = st.live := by rw [hmv.rest]
  have hnext : st'.next = st.next := by rw [hmv.rest]
  have hfiles : st'.files = st.files := by rw [hmv.rest]
  have hreleased : st'.released = st.released := by rw [hmv.rest]
  have hhistory : st'.history = st.history := by rw [hmv.rest]
  have hroot : ¬ IsMountRoot t n := by
    intro hroot
    have := (h.tree.roots n hroot).2.1
    rw [hparent] at this
    exact absurd this (by simp)
  have hmoved : (st'.nodes n).name = name ∧ (st'.nodes n).type = (st.nodes n).type ∧
      (st'.nodes n).backing = (st.nodes n).backing ∧
      (st'.nodes n).openCount = (st.nodes n).openCount ∧
      (st'.nodes n).unlinked = (st.nodes n).unlinked := by
    have := hmv.moved
    simp only [VNode.data, VNode.mk.injEq] at this
    tauto
  have hsame : ∀ m, (st'.nodes m).type = (st.nodes m).type ∧
      (st'.nodes m).backing = (st.nodes m).backing ∧
      (st'.nodes m).openCount = (st.nodes m).openCount ∧
      (st'.nodes m).unlinked = (st.nodes m).unlinked := by
    intro m
    by_cases hm : m = n
    · rw [hm]
      exact hmoved.2
    · exact (VNode.data_eq_iff.mp (hmv.data m hm)).2
  have hnames : ∀ k, n ∉ k → namesOf st' k = namesOf st k := by
    intro k hnk
    apply List.map_congr_left
    intro c hc
    exact (VNode.data_eq_iff.mp (hmv.data c fun hcn => hnk (hcn ▸ hc))).1
  -- Without the node, every list is a part of what it was.
  have hsub : ∀ e, (Function.update kids old (pre ++ post) e).Sublist (kids e) ∧
      n ∉ Function.update kids old (pre ++ post) e := by
    intro e
    have hnd := h.tree.shape.nodup old
    rw [hk, List.nodup_middle, List.nodup_cons] at hnd
    by_cases he : e = old
    · rw [he, Function.update_self, hk]
      exact ⟨(List.Sublist.refl _).append (List.sublist_cons_self _ _), hnd.1⟩
    · rw [Function.update_of_ne he]
      exact ⟨List.Sublist.refl _, fun hmem => he (h.tree.shape.eq_of_mem hmem hn)⟩
  refine ⟨?_, ?_, ⟨?_, ?_, ?_⟩, ⟨?_, ?_⟩⟩
  · apply h.tree.reparent hroot hshape hmv.parent
    · intro e he
      obtain rfl : d = e := by simpa using he
      exact ⟨hd.live, hdir, hd.linked, habove⟩
    · grind
    · exact fun m _ => (hsame m).1
    · exact fun m _ => (hsame m).2.2.2
    · exact fun m _ => by rw [hlive]
    · intro m hm
      rw [hnext]
      exact h.tree.bound m (hlive ▸ hm)
    · intro hdead
      rw [hlive, h.tree.live_of_parent hparent] at hdead
      exact absurd hdead (by simp)
    · intro _
      rcases h.tree.placed n (h.tree.live_of_parent hparent) hroot with hlinked | hunl
      · exact Or.inl ⟨by simp, hmoved.2.2.2.2.trans hlinked.2⟩
      · rw [hparent] at hunl
        exact absurd hunl.1 (by simp)
    · refine Or.inr ⟨?_, (hsame n).1⟩
      rw [hlive]
      exact h.tree.live_of_parent hparent
  · intro e
    rw [(hsame e).2.1, hhistory]
    have hpart : NamedAt (st.nodes e).backing (st.history e)
        (namesOf st (Function.update kids old (pre ++ post) e)) :=
      (h.named e).sublist ((hsub e).1.map _)
    by_cases he : e = d
    · subst he
      have hperm : (namesOf st' l).Perm
          (name :: namesOf st (Function.update kids old (pre ++ post) e)) := by
        refine (hl.map _).trans (List.Perm.of_eq ?_)
        rw [List.map_cons, hmoved.1]
        exact congrArg _ (hnames _ (hsub e).2)
      rw [Function.update_self, NamedAt.perm hperm]
      refine hpart.cons hread ?_
      intro x hx
      obtain ⟨c, hc, rfl⟩ := List.mem_map.mp hx
      exact h.not_sameName hfree c ((hsub e).1.subset hc)
    · rw [Function.update_of_ne he, hnames _ (hsub e).2]
      exact hpart
  · intro m
    rw [(hsame m).2.2.1, hfiles]
    exact h.counted.count m
  · intro m
    rw [(hsame m).2.2.1, hlive]
    exact h.counted.live m
  · intro m
    rw [(hsame m).2.2.1, (hsame m).2.2.2]
    exact h.counted.busy m
  · exact hreleased ▸ h.freed.nodup
  · rw [hreleased, hnext, hlive]
    exact h.freed.mem_iff

theorem data_setName_of_ne {name : CString} {n m : NodeId} (st : State V) (hm : m ≠ n) :
    ((st.setName n name).nodes m).data = (st.nodes m).data := by
  rw [State.setName, State.nodes_setNode, if_neg hm]

theorem data_setName_self {name : CString} {n : NodeId} (st : State V)
    (hname : name.length < vfsNameMax) :
    ((st.setName n name).nodes n).data = { (st.nodes n).data with name := name } := by
  rw [State.setName, State.nodes_setNode, if_pos rfl, take_name hname]
  rfl

/-- A list that one node is added to, in front or behind, without that node. -/
theorem filter_ne_of_added {n : NodeId} {k l : List NodeId} (hn : n ∉ k)
    (hl : l = n :: k ∨ l = k ++ [n]) : l.filter (· ≠ n) = k := by
  have hk : k.filter (· ≠ n) = k :=
    List.filter_eq_self.mpr fun c hc => decide_eq_true fun hcn => hn (hcn ▸ hc)
  rcases hl with rfl | rfl
  · rw [List.filter_cons_of_neg (by simp), hk]
  · rw [List.filter_append, hk]
    simp

/-- A node that leaves its list leaves the rest of it, and is in no other. -/
theorem Inv.kids_without (h : Inv t st kids) {n old : NodeId} {pre post : List NodeId}
    (hk : kids old = pre ++ n :: post) (e : NodeId) :
    Function.update kids old (pre ++ post) e = (kids e).filter (· ≠ n) := by
  have hnd := h.tree.shape.nodup old
  rw [hk, List.nodup_middle, List.nodup_cons] at hnd
  by_cases he : e = old
  · have hout : (pre ++ post).filter (· ≠ n) = pre ++ post :=
      List.filter_eq_self.mpr fun c hc => decide_eq_true fun hcn => hnd.1 (hcn ▸ hc)
    rw [he, Function.update_self, hk, List.filter_append, List.filter_cons_of_neg (by simp),
      ← List.filter_append, hout]
  · rw [Function.update_of_ne he]
    refine (List.filter_eq_self.mpr fun c hc => decide_eq_true ?_).symm
    intro hcn
    exact he (h.tree.shape.eq_of_mem (hcn ▸ hc) (by simp [hk]))

/-- What a rename that succeeds has done: the node has left its list for that of
`d`, and the rest stays in order. -/
structure Relisted (t : MountTable NodeId) (st st' : State V) (kids : NodeId → List NodeId)
    (n d : NodeId) (name : CString) : Prop where
  moved : Moved st st' n d name
  lists : ∃ old pre post l, kids old = pre ++ n :: post ∧
    l.filter (· ≠ n) = Function.update kids old (pre ++ post) d ∧
    Inv t st' (Function.update (Function.update kids old (pre ++ post)) d l)

/-- **`ramfs_rename`**: nothing, or the node is moved. -/
theorem ramfsRename_spec (h : Inv t st kids) {n d : NodeId} {name : CString} (hd : Reached st d)
    (hdir : (st.nodes d).type = .dir) (hread : ∀ fs, (st.nodes d).backing ≠ .fat fs false)
    (hfree : findChild st d name = none) (habove : n ∉ st.ancestors d)
    (hname : name.length < vfsNameMax) :
    ramfsRename st n d name = (false, st) ∨
      Relisted t st (ramfsRename st n d name).2 kids n d name := by
  rw [ramfsRename]
  split
  · exact Or.inl rfl
  · rename_i old hparent
    split
    · exact Or.inl rfl
    · rename_i prev c hslot
      obtain ⟨hc, pre, post, hk, rfl⟩ := h.tree.slot hslot
      obtain rfl : c = n := by simpa using hc
      dsimp only
      set spliced := st.spliceOut old pre.getLast? c with hspliced
      have hfirst : (((spliced.setName c name).setParent c (some d)).nodes d).firstChild =
          spliced.links.first d := by
        rw [← State.links_first, State.links_setParent, State.links_setName]
      rw [hfirst]
      set st' := (((spliced.setName c name).setParent c (some d)).setNext c
        (spliced.links.first d)).setFirst d (some c) with hst'
      have hlinks : st'.links = (st.links.remove old pre.getLast? c).pushFront d c := by
        rw [hst', hspliced]
        cases pre.getLast? <;> simp [State.spliceOut, Forest.remove, Forest.pushFront]
      have hmv : Moved st st' c d name := by
        refine ⟨?_, ?_, ?_, ?_⟩
        · rw [hlinks]
          simp [Forest.remove, Forest.pushFront]
        · intro m hm
          rw [hst', State.data_setFirst, State.data_setNext, State.data_setParent,
            data_setName_of_ne _ hm, hspliced, State.data_spliceOut]
        · rw [hst', State.data_setFirst, State.data_setNext, State.data_setParent,
            data_setName_self _ hname, hspliced, State.data_spliceOut]
        · rw [hst', hspliced, State.spliceOut_eq]
          rfl
      have hout : c ∉ Function.update kids old (pre ++ post) d := by
        rw [h.kids_without hk]
        simp
      exact Or.inr ⟨hmv, old, pre, post, _, hk, filter_ne_of_added hout (Or.inl rfl),
        hmv.inv h hk hd hdir hread hfree habove (List.Perm.refl _)
          (hlinks ▸ (h.tree.shape.remove hk).pushFront (by simp [Forest.remove]))⟩

/-- **`ramfs_rename`** keeps the invariant. -/
theorem ramfsRename_inv (h : Inv t st kids) {n d : NodeId} {name : CString} (hd : Reached st d)
    (hdir : (st.nodes d).type = .dir) (hread : ∀ fs, (st.nodes d).backing ≠ .fat fs false)
    (hfree : findChild st d name = none) (habove : n ∉ st.ancestors d)
    (hname : name.length < vfsNameMax) :
    ∃ kids', Inv t (ramfsRename st n d name).2 kids' := by
  rcases ramfsRename_spec h hd hdir hread hfree habove hname with hstay | hmoved
  · rw [hstay]
    exact ⟨kids, h⟩
  · obtain ⟨old, pre, post, l, -, -, hinv⟩ := hmoved.lists
    exact ⟨_, hinv⟩

/-- **`fat_rename`**: the volume changes, and that is all or the node is moved. -/
theorem fatRename_spec (h : Inv t st kids) {n d : NodeId} {name : CString} (hd : Reached st d)
    (hdir : (st.nodes d).type = .dir) (hread : ∀ fs, (st.nodes d).backing ≠ .fat fs false)
    (hfree : findChild st d name = none) (habove : n ∉ st.ancestors d)
    (hname : name.length < vfsNameMax) :
    ∃ v, fatRename disk st n d name = (false, { st with vol := v }) ∨
      Relisted t { st with vol := v } (fatRename disk st n d name).2 kids n d name := by
  have hload : fatLoadDir disk st d = st := by
    rw [fatLoadDir]
    split
    · rfl
    · rfl
    · rename_i fs hb
      exact absurd hb (hread fs)
  rw [fatRename]
  split
  · exact ⟨st.vol, Or.inl rfl⟩
  · rename_i old hparent
    split
    · exact ⟨st.vol, Or.inl rfl⟩
    · rw [hload]
      dsimp only
      generalize disk.rename st.vol n old d _ _ name _ = moved
      have h1 := h.setVol moved.2
      refine ⟨moved.2, ?_⟩
      split
      · exact Or.inl rfl
      · obtain ⟨pre, post, hk, hrest, hdata, hlinks, hnil⟩ := fatDetach_spec h1 hparent
        have hshape := h1.tree.shape.remove hk
        set R := (State.links { st with vol := moved.2 }).remove old pre.getLast? n with hR
        set detached := fatDetach { st with vol := moved.2 } n with hdetached
        rw [State.links_setParent] at hlinks
        have hRfirst : detached.links.first = R.first := by rw [← hlinks]
        have hRnext : detached.links.next = R.next := by rw [← hlinks]
        have hRparent : Function.update detached.links.parent n none = R.parent := by rw [← hlinks]
        have hchildren : (detached.setParent n (some d)).children d =
            Function.update kids old (pre ++ post) d := by
          apply children_eq_of_chain
          · rw [State.links_setParent]
            rw [hRfirst, hRnext]
            exact hshape.chain d
          · intro c hc
            have hmem : c ∈ kids d := by grind
            have hnext : (detached.setParent n (some d)).next = st.next := by
              rw [hrest]
              rfl
            rw [hnext]
            exact h.tree.bound c (h.tree.live_of_mem hmem)
        have hpush : ((detached.setParent n (some d)).appendTo d n).links =
            R.pushBack d n (Function.update kids old (pre ++ post) d).getLast? := by
          rw [State.appendTo, hchildren]
          cases (Function.update kids old (pre ++ post) d).getLast? <;>
            simp [Forest.pushBack, hRfirst, hRnext, ← hRparent]
        have hmv : Moved { st with vol := moved.2 }
            (((detached.setParent n (some d)).appendTo d n).setName n name) n d name := by
          refine ⟨?_, ?_, ?_, ?_⟩
          · rw [State.links_setName, hpush]
            simp [Forest.pushBack, hR, Forest.remove]
          · intro m hm
            rw [data_setName_of_ne _ hm, State.data_appendTo, State.data_setParent]
            exact hdata m
          · rw [data_setName_self _ hname, State.data_appendTo, State.data_setParent]
            exact congrArg (fun w : VNode => { w with name := name }) (hdata n)
          · rw [State.appendTo_eq, hrest]
            rfl
        have hout : n ∉ Function.update kids old (pre ++ post) d := by
          rw [h.kids_without hk]
          simp
        refine Or.inr ⟨hmv, old, pre, post, _, hk, filter_ne_of_added hout (Or.inr rfl),
          hmv.inv h1 hk ⟨hd.live, hd.linked⟩ hdir hread hfree habove
            (List.perm_append_singleton _ _) ?_⟩
        rw [State.links_setName, hpush]
        apply hshape.pushBack
        · simp [hR, Forest.remove]
        · rw [← hRnext]
          exact hnil

/-- **`fat_rename`** keeps the invariant. -/
theorem fatRename_inv (h : Inv t st kids) {n d : NodeId} {name : CString} (hd : Reached st d)
    (hdir : (st.nodes d).type = .dir) (hread : ∀ fs, (st.nodes d).backing ≠ .fat fs false)
    (hfree : findChild st d name = none) (habove : n ∉ st.ancestors d)
    (hname : name.length < vfsNameMax) :
    ∃ kids', Inv t (fatRename disk st n d name).2 kids' := by
  obtain ⟨v, hstay | hmoved⟩ := fatRename_spec disk h hd hdir hread hfree habove hname
  · rw [hstay]
    exact ⟨kids, h.setVol v⟩
  · obtain ⟨old, pre, post, l, -, -, hinv⟩ := hmoved.lists
    exact ⟨_, hinv⟩

/-- **`vfs_rename`** keeps the invariant. -/
theorem vfsRename_inv (h : Inv t st kids) (src dst : CString) :
    ∃ kids', Inv t (vfsRename disk t st src dst).2 kids' := by
  obtain ⟨⟨kids1, h1⟩, -, -⟩ := vfsResolve_spec disk h src
  rw [vfsRename]
  dsimp only
  split
  · exact ⟨kids1, h1⟩
  · split
    · exact ⟨kids1, h1⟩
    · obtain ⟨⟨kids2, h2⟩, -, -⟩ := vfsResolve_spec disk h1 dst
      split
      · exact ⟨kids2, h2⟩
      · rename_i htarget
        obtain ⟨⟨kids3, h3⟩, -, hparent⟩ := resolveParent_spec disk h2 dst
        split
        · exact ⟨kids3, h3⟩
        · rename_i dir leaf hdl
          obtain ⟨hdir, hleaf⟩ := hparent dir leaf hdl
          obtain ⟨hsettled, hmissing⟩ := resolveParent_missing disk h1
            (Prod.ext (by simpa using htarget) rfl) (Prod.ext hdl rfl)
          split
          · exact ⟨kids3, h3⟩
          · rename_i htype
            simp only [not_or, not_not] at htype
            have hread := hsettled.resolve_right fun hfile => hfile htype.1
            split
            · exact ⟨kids3, h3⟩
            · rename_i habove
              split
              · exact ramfsRename_inv h3 hdir htype.1 hread hmissing habove hleaf
              · exact fatRename_inv disk h3 hdir htype.1 hread hmissing habove hleaf

end Vfs
