import StrawOS.Vfs.Lookup

/-!
# A path and its parent

`resolve_parent` cuts a path at its last slash and resolves what stands before
it.  Both resolutions look at the same mount and walk down the same names, but
for the last one: that is `resolve_split`.  It is what makes the check of
`vfs_rename` enough, which resolves the whole target path to see that nothing
has that name.
-/

namespace Vfs

/-! ## Cutting at a slash -/

theorem cutComponent_append_slash (i : Nat) (p q : CString) :
    cutComponent i (p ++ slash :: q) =
      ((cutComponent i p).1, (cutComponent i p).2 ++ slash :: q) := by
  induction p generalizing i with
  | nil => simp [cutComponent]
  | cons c p ih =>
    simp only [List.cons_append, cutComponent]
    split
    · simp [ih]
    · simp

theorem chunks_append_slash (p q : CString) :
    chunks (p ++ slash :: q) = chunks p ++ chunks q := by
  induction hn : p.length using Nat.strong_induction_on generalizing p with
  | _ n ih =>
    cases p with
    | nil => rw [List.nil_append, chunks_slash_cons, chunks_skipSlashes, chunks_nil, List.nil_append]
    | cons c p =>
      by_cases hc : c = slash
      · subst hc
        have := ih p.length (by rw [← hn]; exact Nat.lt_succ_self _) p rfl
        rw [List.cons_append, chunks_slash_cons, chunks_skipSlashes, this, chunks_slash_cons,
          chunks_skipSlashes]
      · -- Something is cut, and the rest is shorter.
        have hcut : (cutComponent 0 (c :: p)).1 ≠ [] := by simp [cutComponent, hc, vfsNameMax]
        have happ := congrArg List.length (cutComponent_append 0 (c :: p))
        rw [List.length_append] at happ
        have hlt : (cutComponent 0 (c :: p)).2.length < n := by
          have := List.length_pos_iff.mpr hcut
          omega
        have hcut' : (cutComponent 0 (c :: p ++ slash :: q)).1 ≠ [] := by
          rw [cutComponent_append_slash]
          exact hcut
        rw [chunks, dif_neg (by simp), if_neg hcut', nextCursor, chunks_skipSlashes,
          cutComponent_append_slash, ih _ hlt _ rfl]
        conv_rhs => rw [chunks, dif_neg (by simp), if_neg hcut, nextCursor, chunks_skipSlashes]
        rfl

theorem chunks_name {leaf : CString} (hne : leaf ≠ []) (hlen : leaf.length < vfsNameMax)
    (hslash : slash ∉ leaf) : chunks leaf = [leaf] := by
  have hcomp := components_of_slash_notMem hne hslash
  rw [chunks_eq_components leaf (by simpa [hcomp] using hlen), hcomp]

/-! ## The last slash -/

theorem lastSlash_spec (path : CString) (habs : path.head? = some slash) :
    path = path.take (lastSlash path) ++ slash :: path.drop (lastSlash path + 1) ∧
      slash ∉ path.drop (lastSlash path + 1) := by
  have hloop : ∀ k, path[(List.range k).foldl
        (fun last i => if path[i]? = some slash then i else last) 0]? = some slash ∧
      ∀ i, (List.range k).foldl (fun last i => if path[i]? = some slash then i else last) 0 < i →
        i < k → path[i]? ≠ some slash := by
    intro k
    induction k with
    | zero => exact ⟨by simpa [List.head?_eq_getElem?] using habs, by simp⟩
    | succ k ih =>
      rw [List.range_succ, List.foldl_append, List.foldl_cons, List.foldl_nil]
      split
      · rename_i hk
        refine ⟨hk, ?_⟩
        intro i hlt hle
        omega
      · grind
  obtain ⟨hat, hafter⟩ := hloop path.length
  rw [← lastSlash] at hat hafter
  obtain ⟨hlt, hval⟩ := List.getElem?_eq_some_iff.mp hat
  constructor
  · rw [← hval, List.getElem_cons_drop, List.take_append_drop]
  · intro hmem
    obtain ⟨i, hi, hget⟩ := List.mem_iff_getElem.mp hmem
    rw [List.getElem_drop] at hget
    rw [List.length_drop] at hi
    refine hafter (lastSlash path + 1 + i) (by omega) (by omega) ?_
    rw [List.getElem?_eq_getElem (by omega), hget]

/-! ## Two resolutions -/

/-- The path `resolve_parent` resolves. -/
def parentPath (path : CString) : CString :=
  if lastSlash path = 0 then rootPath else path.take (lastSlash path)

/-- The last component of a path. -/
def leafOf (path : CString) : CString := path.drop (lastSlash path + 1)

section Split

variable {σ N : Type} {t : MountTable N} {path : CString}

theorem parentPath_head (habs : path.head? = some slash) :
    (parentPath path).head? = some slash := by
  rw [parentPath]
  split
  · rfl
  · rename_i hne
    cases path with
    | nil => simp at habs
    | cons c path =>
      cases hl : lastSlash (c :: path) with
      | zero => exact absurd hl hne
      | succ k => simpa using habs

theorem Spelled.of_parent {m : VfsMount N} (habs : path.head? = some slash)
    (h : Spelled m (parentPath path)) : Spelled m path := by
  by_cases hroot : m.path = rootPath
  · exact ⟨h.1, Or.inl hroot⟩
  · obtain ⟨hsplit, -⟩ := lastSlash_spec path habs
    obtain ⟨hpre, hb⟩ := h.2.resolve_left hroot
    rw [parentPath] at hpre hb
    split at hpre
    · -- Nothing but the root path and the empty one is a prefix of the root path.
      exfalso
      obtain ⟨r, hr⟩ := hpre
      cases hm : m.path with
      | nil => exact h.1 hm
      | cons c p =>
        rw [hm, rootPath] at hr
        simp only [List.cons_append, List.cons.injEq, List.append_eq_nil_iff] at hr
        exact hroot (by rw [hm, hr.1, hr.2.1, rootPath])
    · rename_i hne
      rw [if_neg hne] at hb
      refine ⟨h.1, Or.inr ⟨hpre.trans (List.take_prefix _ _), ?_⟩⟩
      generalize path.take (lastSlash path) = p at hpre hb hsplit
      rw [hsplit]
      rcases Nat.lt_or_eq_of_le hpre.length_le with hlt | heq
      · rw [AtBoundary, List.getElem?_append_left hlt]
        exact hb
      · rw [AtBoundary, heq]
        simp

/-- A mount spelled in the path and not the whole of it is spelled in the
parent path, and its rest is the parent's rest and the last component. -/
theorem Spelled.to_parent {m : VfsMount N} (habs : path.head? = some slash)
    (h : Spelled m path) (hne : m.path ≠ path) :
    Spelled m (parentPath path) ∧
      chunks (restAfter m path) = chunks (restAfter m (parentPath path)) ++ chunks (leafOf path) := by
  obtain ⟨hsplit, hleaf⟩ := lastSlash_spec path habs
  have hlen : (path.take (lastSlash path)).length = lastSlash path := by grind
  rw [parentPath, leafOf]
  generalize hL : lastSlash path = L at hsplit hleaf hlen
  generalize path.take L = p at hsplit hlen
  generalize path.drop (L + 1) = leaf at hsplit hleaf
  by_cases hroot : m.path = rootPath
  · refine ⟨⟨h.1, Or.inl hroot⟩, ?_⟩
    rw [restAfter, restAfter, if_pos hroot, if_pos hroot, hsplit, chunks_append_slash]
    split
    · rename_i hzero
      obtain rfl : p = [] := List.length_eq_zero_iff.mp (hlen.trans hzero)
      rw [rootPath, chunks_slash_cons]
      rfl
    · rfl
  · obtain ⟨⟨r, hr⟩, hb⟩ := h.2.resolve_left hroot
    have hat : path[m.path.length]? = some slash := by
      rcases hb with hb | hb
      · exact hb
      · rw [← hr, List.getElem?_append_right (le_refl _), Nat.sub_self] at hb
        cases r with
        | nil => exact absurd (by simpa using hr) hne
        | cons c r => simp at hb
    -- The last slash is not before the one the mount ends at.
    have hle : m.path.length ≤ L := by grind
    have hzero : L ≠ 0 := by
      intro hzero
      exact h.1 (List.length_eq_zero_iff.mp (by omega))
    rw [if_neg hzero]
    have hpre : m.path <+: p := by
      refine List.prefix_of_prefix_length_le ⟨r, hr⟩ ?_ (by omega)
      rw [hsplit]
      exact List.prefix_append _ _
    refine ⟨⟨h.1, Or.inr ⟨hpre, ?_⟩⟩, ?_⟩
    · rcases Nat.lt_or_eq_of_le hpre.length_le with hlt | heq
      · rw [hsplit, List.getElem?_append_left hlt] at hat
        exact Or.inl hat
      · exact Or.inr (by rw [heq]; simp)
    · rw [restAfter, restAfter, if_neg hroot, if_neg hroot, hsplit,
        List.drop_append_of_le_length hpre.length_le, chunks_append_slash]

/-- **A path and its parent.**  Either a mount stands at the path itself, or the
parent path belongs to no mount, or both resolutions start at the root of one
mount and walk down the same names, the path's own with the last component
added. -/
theorem resolve_split (lookup : Lookup σ N) (t : MountTable N) (habs : path.head? = some slash)
    (hne : leafOf path ≠ []) (hlen : (leafOf path).length < vfsNameMax) :
    (∃ m ∈ t.mounted, m.path = path ∧ ∀ st, vfsResolve lookup t st path = (some m.root, st)) ∨
      (∀ st, vfsResolve lookup t st (parentPath path) = (none, st)) ∨
      ∃ m ∈ t.mounted, ∃ names,
        (∀ st, vfsResolve lookup t st path =
          lookupAll lookup st m.root (names ++ [leafOf path])) ∧
        ∀ st, vfsResolve lookup t st (parentPath path) = lookupAll lookup st m.root names := by
  have habs' := parentPath_head habs
  cases hfound : findMountFor t path with
  | none =>
    refine Or.inr (Or.inl ?_)
    intro st
    have hnone := (findMountFor_eq_none_iff t path).mp hfound
    have hnone' := (findMountFor_eq_none_iff t (parentPath path)).mpr fun s hs hsp =>
      hnone s hs (hsp.of_parent habs)
    rw [vfsResolve, if_neg (by simpa using habs'), hnone']
  | some found =>
    obtain ⟨s, r⟩ := found
    obtain ⟨hs, rfl⟩ := (findMountFor_eq_some_iff t habs s r).mp hfound
    by_cases hwhole : s.path = path
    · -- The path is the mount point: nothing is left to walk.
      refine Or.inl ⟨s, hs.1, hwhole, ?_⟩
      intro st
      have hnonroot : s.path ≠ rootPath := by
        intro hroot
        apply hne
        rw [leafOf, ← hwhole, hroot]
        decide
      rw [vfsResolve_eq_lookupAll lookup t st habs hfound, restAfter, if_neg hnonroot, hwhole]
      simp [lookupAll]
    · obtain ⟨hsp, hchunks⟩ := hs.2.1.to_parent habs hwhole
      have hunder : SpelledUnder t (parentPath path) s :=
        ⟨hs.1, hsp, fun s' hs' hsp' => hs.2.2 s' hs' (hsp'.of_parent habs)⟩
      refine Or.inr (Or.inr ⟨s, hs.1, chunks (restAfter s (parentPath path)), ?_, ?_⟩)
      · intro st
        rw [vfsResolve_eq_lookupAll lookup t st habs hfound, hchunks,
          chunks_name hne hlen (lastSlash_spec path habs).2]
      · intro st
        rw [vfsResolve_eq_lookupAll lookup t st habs'
          ((findMountFor_eq_some_iff t habs' s _).mpr ⟨hunder, rfl⟩)]

/-- `resolve_parent` resolves the parent path, if it does anything. -/
theorem resolveParent_cases (lookup : Lookup σ N) (t : MountTable N) (st : σ) (path : CString) :
    resolveParent lookup t st path = (none, st) ∨
      (path.head? = some slash ∧ leafOf path ≠ [] ∧ (leafOf path).length < vfsNameMax ∧
        resolveParent lookup t st path =
          ((vfsResolve lookup t st (parentPath path)).1.map (·, leafOf path),
            (vfsResolve lookup t st (parentPath path)).2)) := by
  rw [resolveParent]
  split
  · exact Or.inl rfl
  · rename_i habs
    dsimp only
    split
    · exact Or.inl rfl
    · rename_i hleaf
      simp only [not_or, Nat.not_le] at hleaf
      split
      · rename_i hzero
        exact Or.inr ⟨by simpa using habs, hleaf.1, hleaf.2, by rw [parentPath, if_pos hzero]; rfl⟩
      · rename_i hzero
        split
        · exact Or.inl rfl
        · exact Or.inr ⟨by simpa using habs, hleaf.1, hleaf.2,
            by rw [parentPath, if_neg hzero]; rfl⟩

end Split

end Vfs

/-!
# Resolving, creating and opening

Resolution keeps the invariant and arrives at reached nodes; creating a node in
a reached directory keeps it too, since both file systems look the name up
first; and so does opening a reached node, which counts one more file.
-/

namespace Vfs

variable {V : Type} (disk : FatDisk V) {t : MountTable NodeId} {st st' : State V}
  {kids kids' : NodeId → List NodeId}

theorem Inv.setVol (h : Inv t st kids) (v : V) : Inv t { st with vol := v } kids where
  tree := h.tree.congr rfl (fun _ => rfl) (fun _ => rfl) rfl rfl
  named := h.named
  counted := ⟨h.counted.count, h.counted.live, h.counted.busy⟩
  freed := ⟨h.freed.nodup, h.freed.mem_iff⟩

theorem Grown.setVol (h : Grown st st') (v : V) : Grown st { st' with vol := v } :=
  ⟨h.files, h.live, h.name, h.type, h.unlinked, h.parent, h.backing, h.children⟩

theorem Inv.reached_root (h : Inv t st kids) {m : VfsMount NodeId} (hm : m ∈ t.mounted) :
    Reached st m.root :=
  have hroot := h.tree.roots m.root ⟨m, hm, rfl⟩
  ⟨hroot.1, hroot.2.2⟩

/-- **Resolution** keeps the invariant, grows the state and arrives at a
reached node. -/
theorem vfsResolve_spec (h : Inv t st kids) (path : CString) :
    (∃ kids', Inv t (vfsResolve (nodeLookup disk) t st path).2 kids') ∧
      Grown st (vfsResolve (nodeLookup disk) t st path).2 ∧
      ∀ n ∈ (vfsResolve (nodeLookup disk) t st path).1,
        Reached (vfsResolve (nodeLookup disk) t st path).2 n := by
  have hnothing : (∃ kids', Inv t st kids') ∧ Grown st st ∧
      ∀ n ∈ (none : Option NodeId), Reached st n := ⟨⟨kids, h⟩, Grown.refl st, by simp⟩
  by_cases habs : path.head? = some slash
  · cases hfound : findMountFor t path with
    | none =>
      rw [vfsResolve, if_neg (by simpa using habs), hfound]
      exact hnothing
    | some found =>
      obtain ⟨m, r⟩ := found
      obtain ⟨hm, -⟩ := (findMountFor_eq_some_iff t habs m r).mp hfound
      rw [vfsResolve_eq_lookupAll (nodeLookup disk) t st habs hfound]
      exact lookupAll_spec disk h (h.reached_root hm.1) _
  · rw [vfsResolve, if_pos habs]
    exact hnothing

theorem resolveParent_spec (h : Inv t st kids) (path : CString) :
    (∃ kids', Inv t (resolveParent (nodeLookup disk) t st path).2 kids') ∧
      Grown st (resolveParent (nodeLookup disk) t st path).2 ∧
      ∀ dir leaf, (resolveParent (nodeLookup disk) t st path).1 = some (dir, leaf) →
        Reached (resolveParent (nodeLookup disk) t st path).2 dir ∧ leaf.length < vfsNameMax := by
  rcases resolveParent_cases (nodeLookup disk) t st path with hnone | ⟨-, -, hlen, hsome⟩
  · rw [hnone]
    exact ⟨⟨kids, h⟩, Grown.refl st, by simp⟩
  · rw [hsome]
    obtain ⟨hinv, hgrown, hreached⟩ := vfsResolve_spec disk h (parentPath path)
    refine ⟨hinv, hgrown, ?_⟩
    intro dir leaf heq
    obtain ⟨n, hn, hpair⟩ := Option.map_eq_some_iff.mp heq
    obtain ⟨rfl, rfl⟩ := Prod.mk.inj hpair
    exact ⟨hreached n hn, hlen⟩

/-- **The check of `vfs_rename`.**  If a path resolves to nothing and its parent
then resolves to a directory, that directory has no child of that name. -/
theorem resolveParent_missing (h : Inv t st kids) {path leaf : CString} {dir : NodeId}
    {stA stB : State V} (hfail : vfsResolve (nodeLookup disk) t st path = (none, stA))
    (hparent : resolveParent (nodeLookup disk) t stA path = (some (dir, leaf), stB)) :
    Settled stB dir ∧ findChild stB dir leaf = none := by
  have hA := vfsResolve_spec disk h path
  rw [hfail] at hA
  obtain ⟨⟨kidsA, hA⟩, -, -⟩ := hA
  rcases resolveParent_cases (nodeLookup disk) t stA path with hnone | ⟨habs, hne, hlen, hsome⟩
  · rw [hnone] at hparent
    simp at hparent
  · rw [hsome] at hparent
    obtain ⟨hdir, hst⟩ := Prod.mk.inj hparent
    obtain ⟨n, hn, hpair⟩ := Option.map_eq_some_iff.mp hdir
    obtain ⟨rfl, rfl⟩ := Prod.mk.inj hpair
    rcases resolve_split (nodeLookup disk) t habs hne hlen with
      ⟨m, -, -, hmount⟩ | hnoparent | ⟨m, hm, names, hpath, hpar⟩
    · rw [hmount st] at hfail
      simp at hfail
    · rw [hnoparent stA] at hn
      simp at hn
    · rw [hpath st] at hfail
      rw [hpar stA] at hn hst
      obtain ⟨rfl, hs, hf⟩ := lookupAll_missing disk names h (h.reached_root hm) hfail (Grown.refl stA)
        hA (Prod.ext hn hst)
      exact ⟨hs, hf⟩

/-! ## Creating -/

theorem take_name {name : CString} (h : name.length < vfsNameMax) :
    name.take (vfsNameMax - 1) = name :=
  List.take_of_length_le (Nat.le_sub_one_of_lt h)

/-- A list without a child of a name has none whose name is the same. -/
theorem Inv.not_sameName (h : Inv t st kids) {d : NodeId} {name : CString}
    (hnone : findChild st d name = none) :
    ∀ c ∈ kids d, (st.nodes d).backing.sameName (st.nodes c).name name = false := by
  intro c hc
  rw [findChild, h.tree.children_eq, List.find?_eq_none] at hnone
  simpa using hnone c hc

theorem NewChild.inv {d : NodeId} {v : VNode} {l : List NodeId} (hc : NewChild st st' d v)
    (h : Inv t st kids) (hd : Reached st d) (hdir : (st.nodes d).type = .dir)
    (hread : ∀ fs, (st.nodes d).backing ≠ .fat fs false)
    (hfree : findChild st d v.name = none) (hv : v.unlinked = false) (hcount : v.openCount = 0)
    (hl : l.Perm (st.next :: kids d)) (hshape : st'.links.Shape (Function.update kids d l)) :
    Inv t st' (Function.update kids d l) ∧ Reached st' st.next where
  left :=
    { tree := hc.tree h.tree hd.live hdir hd.linked hv hshape
      named := hc.named h.tree h.named hd.live hl hread (h.not_sameName hfree)
      counted := hc.counted h.counted h.tree.next_dead hv hcount
      freed := hc.freed h.freed }
  right :=
    { live := by rw [hc.rest]; exact Function.update_self _ _ _
      linked := by rw [(VNode.data_eq_iff.mp hc.fresh).2.2.2.2, hv] }

/-- **What `nodeCreate` does**: after some reading it puts the new node into its directory,
or it only reads. -/
theorem nodeCreate_cases (h : Inv t st kids) {d : NodeId} {name : CString} (type : VNodeType)
    (mem : Bool) (hd : Reached st d) (hdir : (st.nodes d).type = .dir)
    (hname : name.length < vfsNameMax) :
    ((nodeCreate disk mem st d name type).1 = none ∧
      ∃ kids', Inv t (nodeCreate disk mem st d name type).2 kids') ∨
    ∃ st1 kids1 b l, (nodeCreate disk mem st d name type).1 = some st1.next ∧ Grown st st1 ∧
      Inv t st1 kids1 ∧ Reached st1 d ∧
      NewChild st1 (nodeCreate disk mem st d name type).2 d (childNode d name type b) ∧
      Inv t (nodeCreate disk mem st d name type).2 (Function.update kids1 d l) ∧
      Reached (nodeCreate disk mem st d name type).2 st1.next ∧
      (l = st1.next :: kids1 d ∨ l = kids1 d ++ [st1.next]) ∧ Settled st1 d ∧
      findChild st1 d name = none := by
  rw [nodeCreate]
  split
  · rename_i hb
    cases hmade : (ramfsCreate mem st d name type).1 with
    | none =>
      have hst : (ramfsCreate mem st d name type).2 = st := by
        rw [ramfsCreate] at hmade ⊢
        split
        · rfl
        · grind
      rw [hst]
      exact Or.inl ⟨rfl, kids, h⟩
    | some n =>
      obtain ⟨rfl, hlook, hc, hshape⟩ := ramfsCreate_newChild h.tree hd.live hmade
      have hfree : findChild st d name = none := by
        simpa [findChild, hb, Backing.sameName, ramfsLookup] using hlook
      obtain ⟨hinv, hreached⟩ := hc.inv h hd hdir (by simp [hb])
        (by rw [childNode, take_name hname]; exact hfree) rfl rfl (List.Perm.refl _) hshape
      exact Or.inr ⟨st, kids, _, _, rfl, Grown.refl st, h, hd, hc, hinv, hreached, Or.inl rfl,
        Or.inl (by simp [hb]), hfree⟩
  · rename_i fs loaded hb
    have hlookup : lookupIn (nodeLookup disk) st d name = fatLookup disk st d name := by
      simp [lookupIn, nodeLookup, hb]
    obtain ⟨⟨kids1, hinv⟩, hgrown, hsettled, hfound⟩ := lookupIn_spec disk h hd name
    rw [hlookup] at hinv hgrown hsettled hfound
    rw [fatCreate]
    split
    · exact Or.inl ⟨rfl, kids, h⟩
    · dsimp only
      split
      · exact Or.inl ⟨rfl, kids1, hinv⟩
      · rename_i hsome
        generalize fatLookup disk st d name = found at hinv hgrown hsettled hfound hsome ⊢
        generalize disk.create found.2.vol d _ _ name type found.2.next = made
        split
        · exact Or.inl ⟨rfl, kids1, hinv.setVol _⟩
        · have hinv' := hinv.setVol made.2
          have hd' : Reached { found.2 with vol := made.2 } d :=
            ⟨(hgrown.reached hd).live, (hgrown.reached hd).linked⟩
          have hdir' : (found.2.nodes d).type = .dir := (hgrown.type d hd.live).trans hdir
          have hnone : findChild found.2 d name = none := by
            rw [← hfound]
            simpa using hsome
          obtain ⟨hc, hshape⟩ := fatNewVnode_newChild hinv'.tree d name type
            (.fat (found.2.nodes d).backing.fs true)
          obtain ⟨hinv'', hreached⟩ := hc.inv hinv' hd' hdir'
            (hsettled.resolve_right fun hfile => hfile hdir')
            (by rw [childNode, take_name hname]; exact hnone) rfl rfl
            (List.perm_append_singleton _ _) hshape
          exact Or.inr ⟨{ found.2 with vol := made.2 }, kids1, _, _, rfl, hgrown.setVol made.2, hinv',
            hd', hc, hinv'', hreached, Or.inr rfl, hsettled, hnone⟩

/-- **Creation** keeps the invariant. -/
theorem nodeCreate_spec (h : Inv t st kids) {d : NodeId} {name : CString} (type : VNodeType)
    (mem : Bool) (hd : Reached st d) (hdir : (st.nodes d).type = .dir)
    (hname : name.length < vfsNameMax) :
    (∃ kids', Inv t (nodeCreate disk mem st d name type).2 kids') ∧
      ∀ n ∈ (nodeCreate disk mem st d name type).1,
        Reached (nodeCreate disk mem st d name type).2 n := by
  rcases nodeCreate_cases disk h type mem hd hdir hname with
    ⟨hnone, hinv⟩ | ⟨st1, kids1, b, l, hsome, -, -, -, -, hinv, hreached, -⟩
  · rw [hnone]
    exact ⟨hinv, by simp⟩
  · rw [hsome]
    exact ⟨⟨_, hinv⟩, by simpa using hreached⟩

/-! ## Opening -/

/-- A state with the same pointers, names and marks, whose files are counted. -/
theorem Inv.recount (h : Inv t st kids) (hlinks : st'.links = st.links)
    (hname : ∀ m, (st'.nodes m).name = (st.nodes m).name)
    (htype : ∀ m, (st'.nodes m).type = (st.nodes m).type)
    (hbacking : ∀ m, (st'.nodes m).backing = (st.nodes m).backing)
    (hunlinked : ∀ m, (st'.nodes m).unlinked = (st.nodes m).unlinked)
    (hlive : st'.live = st.live) (hnext : st'.next = st.next)
    (hreleased : st'.released = st.released) (hhistory : st'.history = st.history)
    (hcounted : Counted st') : Inv t st' kids where
  tree := h.tree.congr hlinks htype hunlinked hlive hnext
  named d := by
    have hnames : namesOf st' (kids d) = namesOf st (kids d) :=
      List.map_congr_left fun c _ => hname c
    rw [hbacking, hhistory, hnames]
    exact h.named d
  counted := hcounted
  freed := ⟨hreleased ▸ h.freed.nodup, by rw [hreleased, hnext, hlive]; exact h.freed.mem_iff⟩

theorem openNode_nodes (st : State V) (n m : NodeId) (flags : UInt32) :
    (openNode st n flags).nodes m =
      if m = n then { st.nodes n with openCount := (st.nodes n).openCount + 1 } else st.nodes m :=
  State.nodes_setNode _ _ _ _

/-- **Opening** a reached node keeps the invariant. -/
theorem openNode_inv (h : Inv t st kids) {n : NodeId} (hn : Reached st n) (flags : UInt32) :
    Inv t (openNode st n flags) kids := by
  have hsame : ∀ m, ((openNode st n flags).nodes m).name = (st.nodes m).name ∧
      ((openNode st n flags).nodes m).type = (st.nodes m).type ∧
      ((openNode st n flags).nodes m).backing = (st.nodes m).backing ∧
      ((openNode st n flags).nodes m).unlinked = (st.nodes m).unlinked := by
    intro m
    rw [openNode_nodes]
    split
    · rename_i hm
      rw [hm]
      exact ⟨rfl, rfl, rfl, rfl⟩
    · exact ⟨rfl, rfl, rfl, rfl⟩
  have hfiles : (openNode st n flags).files = st.files ++ [VFile.mk (some n) 0 flags] := rfl
  refine h.recount (State.links_setNode_of_links _ rfl rfl rfl) (fun m => (hsame m).1)
    (fun m => (hsame m).2.1) (fun m => (hsame m).2.2.1) (fun m => (hsame m).2.2.2)
    rfl rfl rfl rfl ⟨?_, ?_, ?_⟩
  · intro m
    rw [hfiles, List.countP_append, ← h.counted.count m, openNode_nodes]
    by_cases hm : m = n
    · subst hm
      simp
    · simp [hm, Ne.symm hm]
  · intro m hpos
    by_cases hm : m = n
    · rw [hm]
      exact hn.live
    · rw [openNode_nodes, if_neg hm] at hpos
      exact h.counted.live m hpos
  · intro m hun
    rw [(hsame m).2.2.2] at hun
    rw [openNode_nodes]
    split
    · exact Nat.succ_pos _
    · exact h.counted.busy m hun

/-- **`vfs_open`** keeps the invariant. -/
theorem vfsOpen_inv (h : Inv t st kids) (path : CString) (flags : UInt32) (mem : Bool) :
    ∃ kids', Inv t (vfsOpen disk t st path flags mem).2 kids' := by
  obtain ⟨⟨kids1, h1⟩, -, hreached⟩ := vfsResolve_spec disk h path
  rw [vfsOpen]
  dsimp only
  split
  · rename_i n hn
    exact ⟨kids1, openNode_inv h1 (hreached n hn) flags⟩
  · split
    · exact ⟨kids1, h1⟩
    · obtain ⟨⟨kids2, h2⟩, -, hparent⟩ := resolveParent_spec disk h1 path
      split
      · exact ⟨kids2, h2⟩
      · rename_i dir leaf hdl
        obtain ⟨hdir, hleaf⟩ := hparent dir leaf hdl
        split
        · exact ⟨kids2, h2⟩
        · rename_i htype
          obtain ⟨⟨kids3, h3⟩, hmade⟩ := nodeCreate_spec disk h2 .file mem hdir
            (by simpa using htype) hleaf
          split
          · exact ⟨kids3, h3⟩
          · rename_i n hn
            exact ⟨kids3, openNode_inv h3 (hmade n hn) flags⟩

/-- **`vfs_mkdir`** keeps the invariant. -/
theorem vfsMkdir_inv (h : Inv t st kids) (path : CString) (mem : Bool) :
    ∃ kids', Inv t (vfsMkdir disk t st path mem).2 kids' := by
  obtain ⟨⟨kids1, h1⟩, -, hparent⟩ := resolveParent_spec disk h path
  rw [vfsMkdir]
  dsimp only
  split
  · exact ⟨kids1, h1⟩
  · rename_i dir leaf hdl
    obtain ⟨hdir, hleaf⟩ := hparent dir leaf hdl
    split
    · exact ⟨kids1, h1⟩
    · rename_i htype
      obtain ⟨⟨kids2, h2⟩, hgrown, -, -⟩ := lookupIn_spec disk h1 hdir leaf
      split
      · exact ⟨kids2, h2⟩
      · exact (nodeCreate_spec disk h2 .dir mem (hgrown.reached hdir)
          ((hgrown.type dir hdir.live).trans (by simpa using htype)) hleaf).1

end Vfs
