import Mathlib.Data.List.Find
import StrawOS.Vfs.Invariant

/-!
# Looking into directories

A lookup may read a FAT directory from its volume, which adds nodes to the
tree.  `Grown` is what can be said of the state before and after any number of
lookups: the nodes there were are there unchanged, but for the mark that a
directory was read, and every list that was final, because its directory is in
memory or was read before, still is the same.

So a lookup in a directory that is `Settled` finds the same child again, and a
walk that failed at its last component fails there again (`lookupAll_missing`).
-/

namespace Vfs

variable {V : Type} (disk : FatDisk V) {t : MountTable NodeId} {st st' st'' : State V}
  {kids : NodeId → List NodeId}

/-! ## Reading a directory -/

/-- What reading entries into the directory `d` leaves alone. -/
structure Filling (d : NodeId) (st st' : State V) : Prop where
  files : st'.files = st.files
  history : st'.history = st.history
  live : ∀ m, st.live m = true → st'.live m = true
  data : ∀ m, st.live m = true → (st'.nodes m).data = (st.nodes m).data
  parent : ∀ m, st.live m = true → (st'.nodes m).parent = (st.nodes m).parent
  children : ∀ m, st.live m = true → m ≠ d → st'.children m = st.children m

theorem Filling.trans {d : NodeId} (h : Filling d st st') (h' : Filling d st' st'') :
    Filling d st st'' where
  files := h'.files.trans h.files
  history := h'.history.trans h.history
  live m hm := h'.live m (h.live m hm)
  data m hm := (h'.data m (h.live m hm)).trans (h.data m hm)
  parent m hm := (h'.parent m (h.live m hm)).trans (h.parent m hm)
  children m hm hmd := (h'.children m (h.live m hm) hmd).trans (h.children m hm hmd)

theorem NewChild.filling {d : NodeId} {v : VNode} {l : List NodeId} (hc : NewChild st st' d v)
    (h : Tree t st kids) (h' : Tree t st' (Function.update kids d l)) : Filling d st st' where
  files := by rw [hc.rest]
  history := by rw [hc.rest]
  live m hm := by
    rw [hc.rest]
    dsimp only
    rw [Function.update_of_ne (h.ne_next hm)]
    exact hm
  data m hm := hc.data m (h.ne_next hm)
  parent m hm := by
    have := congrFun hc.parent m
    rwa [Function.update_of_ne (h.ne_next hm)] at this
  children m hm hmd := by
    rw [h'.children_eq, h.children_eq, Function.update_of_ne hmd]

/-- **Reading entries.**  Each becomes a node behind the others. -/
theorem fatLoadEntries_spec {d : NodeId} (fs : Nat) (entries : List (CString × Bool))
    (h : Tree t st kids) (hcount : Counted st) (hfreed : Freed st) (hd : st.live d = true)
    (hdir : (st.nodes d).type = .dir) (hlinked : (st.nodes d).unlinked = false)
    (hnamed : ∀ e, e ≠ d → NamedAt (st.nodes e).backing (st.history e) (namesOf st (kids e))) :
    ∃ new, Tree t (fatLoadEntries d fs st entries) (Function.update kids d (kids d ++ new)) ∧
      Counted (fatLoadEntries d fs st entries) ∧ Freed (fatLoadEntries d fs st entries) ∧
      Filling d st (fatLoadEntries d fs st entries) ∧
      namesOf (fatLoadEntries d fs st entries) new =
        entries.map (fun e => e.1.take (vfsNameMax - 1)) ∧
      ∀ e, e ≠ d → NamedAt ((fatLoadEntries d fs st entries).nodes e).backing
        ((fatLoadEntries d fs st entries).history e)
        (namesOf (fatLoadEntries d fs st entries) (kids e)) := by
  induction entries generalizing st kids with
  | nil =>
    refine ⟨[], ?_, hcount, hfreed, ?_, rfl, hnamed⟩
    · simpa [fatLoadEntries] using h
    · exact ⟨rfl, rfl, fun _ h => h, fun _ _ => rfl, fun _ _ => rfl, fun _ _ _ => rfl⟩
  | cons e entries ih =>
    obtain ⟨hc, hshape⟩ := fatNewVnode_newChild h d e.1 (if e.2 then .dir else .file) (.fat fs false)
    have htree := hc.tree h hd hdir hlinked rfl hshape
    have hfill := hc.filling h htree
    have hdata := VNode.data_eq_iff.mp (hfill.data d hd)
    have hlive1 : (fatNewVnode st d e.1 (if e.2 then .dir else .file) (.fat fs false)).live
        st.next = true := by
      rw [hc.rest]
      exact Function.update_self _ _ _
    obtain ⟨new, hT, hC, hF, hfill', hnames, hothers⟩ :=
      ih htree (hc.counted hcount h.next_dead rfl rfl) (hc.freed hfreed) (hfill.live d hd)
        (hdata.2.1.trans hdir) (hdata.2.2.2.2.trans hlinked)
        (fun x hx => hc.namedAt_other h (hnamed x hx) hx)
    refine ⟨st.next :: new, ?_, hC, hF, hfill.trans hfill', ?_, ?_⟩
    · simpa [fatLoadEntries] using hT
    · have hname := (VNode.data_eq_iff.mp (hfill'.data st.next hlive1)).1
      rw [(VNode.data_eq_iff.mp hc.fresh).1] at hname
      rw [List.map_cons, ← hnames, namesOf, List.map_cons, fatLoadEntries, hname]
      rfl
    · intro x hx
      have := hothers x hx
      rw [Function.update_of_ne hx] at this
      exact this

/-! ## Growth -/

/-- The lookups between two states only added nodes and read directories. -/
structure Grown (st st' : State V) : Prop where
  files : st'.files = st.files
  live : ∀ m, st.live m = true → st'.live m = true
  name : ∀ m, st.live m = true → (st'.nodes m).name = (st.nodes m).name
  type : ∀ m, st.live m = true → (st'.nodes m).type = (st.nodes m).type
  unlinked : ∀ m, st.live m = true → (st'.nodes m).unlinked = (st.nodes m).unlinked
  parent : ∀ m, st.live m = true → (st'.nodes m).parent = (st.nodes m).parent
  backing : ∀ m, st.live m = true → (st'.nodes m).backing = (st.nodes m).backing ∨
    ∃ fs, (st.nodes m).backing = .fat fs false ∧ (st'.nodes m).backing = .fat fs true
  children : ∀ m, st.live m = true → (∀ fs, (st.nodes m).backing ≠ .fat fs false) →
    st'.children m = st.children m

theorem Grown.refl (st : State V) : Grown st st where
  files := rfl
  live _ h := h
  name _ _ := rfl
  type _ _ := rfl
  unlinked _ _ := rfl
  parent _ _ := rfl
  backing _ _ := Or.inl rfl
  children _ _ _ := rfl

theorem Grown.backing_of_read (h : Grown st st') {m : NodeId} (hm : st.live m = true)
    (hread : ∀ fs, (st.nodes m).backing ≠ .fat fs false) :
    (st'.nodes m).backing = (st.nodes m).backing := by
  rcases h.backing m hm with heq | ⟨fs, hfs, -⟩
  · exact heq
  · exact absurd hfs (hread fs)

theorem Grown.trans (h : Grown st st') (h' : Grown st' st'') : Grown st st'' where
  files := h'.files.trans h.files
  live m hm := h'.live m (h.live m hm)
  name m hm := (h'.name m (h.live m hm)).trans (h.name m hm)
  type m hm := (h'.type m (h.live m hm)).trans (h.type m hm)
  unlinked m hm := (h'.unlinked m (h.live m hm)).trans (h.unlinked m hm)
  parent m hm := (h'.parent m (h.live m hm)).trans (h.parent m hm)
  backing m hm := by
    rcases h.backing m hm with heq | ⟨fs, hfs, hfs'⟩
    · rw [← heq]
      exact h'.backing m (h.live m hm)
    · rcases h'.backing m (h.live m hm) with heq' | ⟨fs', hfalse, -⟩
      · exact Or.inr ⟨fs, hfs, heq'.trans hfs'⟩
      · rw [hfs'] at hfalse
        exact absurd hfalse (by simp)
  children m hm hread := by
    have hsame := h.backing_of_read hm hread
    rw [← h.children m hm hread]
    exact h'.children m (h.live m hm) fun fs => by rw [hsame]; exact hread fs

/-- A state that differs in no pointer, no type and no mark has the same tree. -/
theorem Tree.congr (h : Tree t st kids) (hlinks : st'.links = st.links)
    (htype : ∀ m, (st'.nodes m).type = (st.nodes m).type)
    (hunlinked : ∀ m, (st'.nodes m).unlinked = (st.nodes m).unlinked)
    (hlive : st'.live = st.live) (hnext : st'.next = st.next) : Tree t st' kids := by
  have hparent : ∀ m, (st'.nodes m).parent = (st.nodes m).parent :=
    fun m => congrFun (congrArg Forest.parent hlinks) m
  refine ⟨hlinks ▸ h.shape, ?_, ?_, ?_, ?_, ?_, ?_⟩
  · intro m hm
    rw [hnext]
    exact h.bound m (hlive ▸ hm)
  · intro m hm
    rw [hparent]
    exact h.dead m (hlive ▸ hm)
  · intro m d hmd
    rw [hparent] at hmd
    rw [hlive, htype]
    exact h.parentDir m d hmd
  · intro m
    rw [hlinks]
    exact h.rooted m
  · intro m hm
    rw [hlive, hparent, hunlinked]
    exact h.roots m hm
  · intro m hm hr
    rw [hparent, hunlinked]
    exact h.placed m (hlive ▸ hm) hr

/-- A directory can be looked into without reading it. -/
def Settled (st : State V) (d : NodeId) : Prop :=
  (∀ fs, (st.nodes d).backing ≠ .fat fs false) ∨ (st.nodes d).type ≠ .dir

theorem markLoaded_nodes (st : State V) (d : NodeId) (fs : Nat) (names : List CString) (vol : V)
    (m : NodeId) : (markLoaded st d fs names vol).nodes m =
      if m = d then { st.nodes d with backing := .fat fs true } else st.nodes m :=
  State.nodes_setNode _ _ _ _

theorem markLoaded_links (st : State V) (d : NodeId) (fs : Nat) (names : List CString) (vol : V) :
    (markLoaded st d fs names vol).links = st.links :=
  st.links_setNode_of_links rfl rfl rfl

theorem markLoaded_same (st : State V) (d : NodeId) (fs : Nat) (names : List CString) (vol : V)
    (m : NodeId) : ((markLoaded st d fs names vol).nodes m).name = (st.nodes m).name ∧
      ((markLoaded st d fs names vol).nodes m).type = (st.nodes m).type ∧
      ((markLoaded st d fs names vol).nodes m).openCount = (st.nodes m).openCount ∧
      ((markLoaded st d fs names vol).nodes m).unlinked = (st.nodes m).unlinked ∧
      ((markLoaded st d fs names vol).nodes m).parent = (st.nodes m).parent := by
  rw [markLoaded_nodes]
  split
  · rename_i hm
    rw [hm]
    exact ⟨rfl, rfl, rfl, rfl, rfl⟩
  · exact ⟨rfl, rfl, rfl, rfl, rfl⟩

theorem fatLoadDir_unread (h : Inv t st kids) {d : NodeId} {fs : Nat} (hd : st.live d = true)
    (hdir : (st.nodes d).type = .dir) (hlinked : (st.nodes d).unlinked = false)
    (hb : (st.nodes d).backing = .fat fs false) (loaded : List (CString × Bool) × V) :
    let st' := fatLoadEntries d fs (markLoaded st d fs
      (loaded.1.map fun e => e.1.take (vfsNameMax - 1)) loaded.2) loaded.1
    (∃ kids', Inv t st' kids') ∧ Grown st st' ∧
      ∀ fs, (st'.nodes d).backing ≠ .fat fs false := by
  intro st'
  set st2 := markLoaded st d fs (loaded.1.map fun e => e.1.take (vfsNameMax - 1)) loaded.2
    with hst2
  have hsame := markLoaded_same st d fs (loaded.1.map fun e => e.1.take (vfsNameMax - 1)) loaded.2
  have hlinks : st2.links = st.links := markLoaded_links _ _ _ _ _
  have hnode : ∀ m, m ≠ d → st2.nodes m = st.nodes m := by
    intro m hm
    rw [hst2, markLoaded_nodes, if_neg hm]
  have htree : Tree t st2 kids :=
    h.tree.congr hlinks (fun m => (hsame m).2.1) (fun m => (hsame m).2.2.2.1) rfl rfl
  have hcount : Counted st2 := by
    refine ⟨?_, ?_, ?_⟩
    · intro m
      rw [(hsame m).2.2.1]
      exact h.counted.count m
    · intro m
      rw [(hsame m).2.2.1]
      exact h.counted.live m
    · intro m
      rw [(hsame m).2.2.1, (hsame m).2.2.2.1]
      exact h.counted.busy m
  have hfreed : Freed st2 := ⟨h.freed.nodup, h.freed.mem_iff⟩
  have hnames : ∀ l, namesOf st2 l = namesOf st l :=
    fun l => List.map_congr_left fun c _ => (hsame c).1
  have hothers : ∀ e, e ≠ d →
      NamedAt (st2.nodes e).backing (st2.history e) (namesOf st2 (kids e)) := by
    intro e he
    rw [hnode e he, hnames]
    have : st2.history e = st.history e := Function.update_of_ne he _ _
    rw [this]
    exact h.named e
  have hnil : kids d = [] := by
    have := h.named d
    rw [hb] at this
    exact List.map_eq_nil_iff.mp this
  obtain ⟨new, hT, hC, hF, hfill, hnew, hrest⟩ := fatLoadEntries_spec fs loaded.1 htree
    hcount hfreed hd ((hsame d).2.1.trans hdir) ((hsame d).2.2.2.1.trans hlinked) hothers
  have hbacking : (st'.nodes d).backing = .fat fs true := by
    rw [(VNode.data_eq_iff.mp (hfill.data d hd)).2.2.1, hst2, markLoaded_nodes, if_pos rfl]
  refine ⟨⟨_, hT, ?_, hC, hF⟩, ?_, ?_⟩
  · intro e
    by_cases he : e = d
    · -- The names are the ones read, so they differ if those do.
      subst he
      rw [hbacking, Function.update_self, hnil, List.nil_append, hnew, hfill.history]
      have : st2.history e = loaded.1.map fun e => e.1.take (vfsNameMax - 1) :=
        Function.update_self _ _ _
      rw [this]
      exact id
    · rw [Function.update_of_ne he]
      exact hrest e he
  · refine ⟨hfill.files, hfill.live, ?_, ?_, ?_, ?_, ?_, ?_⟩
    · intro m hm
      exact (VNode.data_eq_iff.mp (hfill.data m hm)).1.trans (hsame m).1
    · intro m hm
      exact (VNode.data_eq_iff.mp (hfill.data m hm)).2.1.trans (hsame m).2.1
    · intro m hm
      exact (VNode.data_eq_iff.mp (hfill.data m hm)).2.2.2.2.trans (hsame m).2.2.2.1
    · intro m hm
      exact (hfill.parent m hm).trans (hsame m).2.2.2.2
    · intro m hm
      by_cases hmd : m = d
      · rw [hmd]
        exact Or.inr ⟨fs, hb, hbacking⟩
      · rw [(VNode.data_eq_iff.mp (hfill.data m hm)).2.2.1, hnode m hmd]
        exact Or.inl rfl
    · intro m hm hread
      have hmd : m ≠ d := by
        intro hmd
        exact hread fs (hmd ▸ hb)
      rw [hfill.children m hm hmd]
      exact congrArg (fun f : Forest NodeId => chainList f.next st.next (f.first m)) hlinks
  · intro fs' hfalse
    rw [hbacking] at hfalse
    exact absurd hfalse (by simp)

/-- **Reading a directory** keeps the invariant, only grows the state, and
settles the directory. -/
theorem fatLoadDir_spec (h : Inv t st kids) {d : NodeId} (hd : st.live d = true)
    (hdir : (st.nodes d).type = .dir) (hlinked : (st.nodes d).unlinked = false) :
    (∃ kids', Inv t (fatLoadDir disk st d) kids') ∧ Grown st (fatLoadDir disk st d) ∧
      ∀ fs, ((fatLoadDir disk st d).nodes d).backing ≠ .fat fs false := by
  rw [fatLoadDir]
  split
  · rename_i hb
    exact ⟨⟨kids, h⟩, Grown.refl st, by simp [hb]⟩
  · rename_i hb
    exact ⟨⟨kids, h⟩, Grown.refl st, by simp [hb]⟩
  · rename_i fs hb
    exact fatLoadDir_unread h hd hdir hlinked hb (disk.load st.vol d st.next)

/-! ## Lookups -/

/-- A node that a path may lead to: live and not unlinked. -/
structure Reached (st : State V) (n : NodeId) : Prop where
  live : st.live n = true
  linked : (st.nodes n).unlinked = false

theorem Grown.reached (h : Grown st st') {n : NodeId} (hn : Reached st n) : Reached st' n :=
  ⟨h.live n hn.live, (h.unlinked n hn.live).trans hn.linked⟩

/-- The child of a given name in a list as it stands. -/
def findChild (st : State V) (d : NodeId) (name : CString) : Option NodeId :=
  (st.children d).find? fun c => (st.nodes d).backing.sameName (st.nodes c).name name

theorem Inv.reached_of_mem (h : Inv t st kids) {c d : NodeId} (hc : c ∈ st.children d) :
    Reached st c := by
  rw [h.tree.children_eq] at hc
  have hparent : (st.nodes c).parent = some d := (h.tree.shape.mem_iff c d).mp hc
  have hlive := h.tree.live_of_mem hc
  refine ⟨hlive, ?_⟩
  by_cases hroot : IsMountRoot t c
  · exact (h.tree.roots c hroot).2.2
  · rcases h.tree.placed c hlive hroot with hlinked | hfree
    · exact hlinked.2
    · rw [hparent] at hfree
      exact absurd hfree.1 (by simp)

theorem Inv.children_of_not_dir (h : Inv t st kids) {d : NodeId} (hd : (st.nodes d).type ≠ .dir) :
    st.children d = [] := by
  rw [h.tree.children_eq]
  apply List.eq_nil_iff_forall_not_mem.mpr
  intro c hc
  exact hd (h.tree.parentDir c d ((h.tree.shape.mem_iff c d).mp hc)).2

/-- **Lookup.**  The invariant is kept, the state grows, and what is returned
is the child in the list, which is then settled. -/
theorem lookupIn_spec (h : Inv t st kids) {d : NodeId} (hd : Reached st d) (name : CString) :
    (∃ kids', Inv t (lookupIn (nodeLookup disk) st d name).2 kids') ∧
      Grown st (lookupIn (nodeLookup disk) st d name).2 ∧
      Settled (lookupIn (nodeLookup disk) st d name).2 d ∧
      (lookupIn (nodeLookup disk) st d name).1 =
        findChild (lookupIn (nodeLookup disk) st d name).2 d name := by
  simp only [lookupIn, nodeLookup]
  split
  · rename_i hb
    refine ⟨⟨kids, h⟩, Grown.refl st, Or.inl (by simp [hb]), ?_⟩
    simp [ramfsLookup, findChild, hb, Backing.sameName]
  · rename_i fs loaded hb
    rw [fatLookup]
    split
    · rename_i hdir
      refine ⟨⟨kids, h⟩, Grown.refl st, Or.inr hdir, ?_⟩
      simp [findChild, h.children_of_not_dir hdir]
    · rename_i hdir
      obtain ⟨hinv, hgrown, hread⟩ :=
        fatLoadDir_spec disk h hd.live (by simpa using hdir) hd.linked
      refine ⟨hinv, hgrown, Or.inl hread, ?_⟩
      have hfat : ∃ fs' l', ((fatLoadDir disk st d).nodes d).backing = .fat fs' l' := by
        rcases hgrown.backing d hd.live with heq | ⟨fs', -, heq⟩
        · exact ⟨fs, loaded, heq.trans hb⟩
        · exact ⟨fs', true, heq⟩
      obtain ⟨fs', l', hfat⟩ := hfat
      simp [findChild, hfat, Backing.sameName]

theorem lookupIn_of_settled (h : Inv t st kids) {d : NodeId} (hd : Settled st d) (name : CString) :
    lookupIn (nodeLookup disk) st d name = (findChild st d name, st) := by
  simp only [lookupIn, nodeLookup]
  split
  · rename_i hb
    simp [ramfsLookup, findChild, hb, Backing.sameName]
  · rename_i fs loaded hb
    rw [fatLookup]
    split
    · rename_i hdir
      simp [findChild, h.children_of_not_dir hdir]
    · rename_i hdir
      have hload : loaded = true := by
        rcases hd with hread | hfile
        · cases loaded with
          | true => rfl
          | false => exact absurd hb (hread fs)
        · exact absurd hfile hdir
      subst hload
      have hstay : fatLoadDir disk st d = st := by rw [fatLoadDir, hb]
      simp [hstay, findChild, hb, Backing.sameName]

theorem Grown.findChild_eq (hg : Grown st st') {kids' : NodeId → List NodeId}
    (h : Inv t st kids) (h' : Inv t st' kids') {d : NodeId} (hd : st.live d = true)
    (hs : Settled st d) (name : CString) :
    Settled st' d ∧ findChild st' d name = findChild st d name := by
  rcases hs with hread | hfile
  · have hb := hg.backing_of_read hd hread
    refine ⟨Or.inl (by rw [hb]; exact hread), ?_⟩
    rw [findChild, findChild, hg.children d hd hread, hb]
    apply List.find?_congr
    intro c hc
    rw [hg.name c (h.reached_of_mem hc).live]
  · have hfile' : (st'.nodes d).type ≠ .dir := by rw [hg.type d hd]; exact hfile
    refine ⟨Or.inr hfile', ?_⟩
    rw [findChild, findChild, h.children_of_not_dir hfile, h'.children_of_not_dir hfile']
    rfl

theorem Inv.reached_of_findChild (h : Inv t st kids) {c d : NodeId} {name : CString}
    (hc : findChild st d name = some c) : Reached st c :=
  h.reached_of_mem (List.mem_of_find?_eq_some hc)

/-- **A walk** keeps the invariant, grows the state and arrives at a reached node. -/
theorem lookupAll_spec (h : Inv t st kids) {cur : NodeId} (hcur : Reached st cur)
    (names : List CString) :
    (∃ kids', Inv t (lookupAll (nodeLookup disk) st cur names).2 kids') ∧
      Grown st (lookupAll (nodeLookup disk) st cur names).2 ∧
      ∀ n ∈ (lookupAll (nodeLookup disk) st cur names).1,
        Reached (lookupAll (nodeLookup disk) st cur names).2 n := by
  induction names generalizing st kids cur with
  | nil =>
    refine ⟨⟨kids, h⟩, Grown.refl st, ?_⟩
    intro n hn
    obtain rfl : cur = n := by simpa [lookupAll] using hn
    exact hcur
  | cons c names ih =>
    obtain ⟨⟨kids', hinv⟩, hgrown, -, hfound⟩ := lookupIn_spec disk h hcur c
    rw [lookupAll]
    split
    · grind
    · rename_i next st' hlook
      rw [hlook] at hinv hgrown hfound
      obtain ⟨hinv', hgrown', hreached⟩ := ih hinv (hinv.reached_of_findChild hfound.symm)
      exact ⟨hinv', hgrown.trans hgrown', hreached⟩

/-- **A failed walk fails again.**  If the walk down `names` and then `leaf`
found nothing, and later the walk down `names` alone arrives at `dir`, then
`dir` is settled and has no child `leaf`. -/
theorem lookupAll_missing (names : List CString) {leaf : CString} {stA stB stC : State V}
    {kidsA : NodeId → List NodeId} {cur dir : NodeId} (h : Inv t st kids)
    (hcur : Reached st cur)
    (hfail : lookupAll (nodeLookup disk) st cur (names ++ [leaf]) = (none, stA))
    (hgrow : Grown stA stB) (hB : Inv t stB kidsA)
    (harrive : lookupAll (nodeLookup disk) stB cur names = (some dir, stC)) :
    stC = stB ∧ Settled stB dir ∧ findChild stB dir leaf = none := by
  induction names generalizing st kids cur with
  | nil =>
    obtain ⟨⟨kids', hinv⟩, hgrown, hsettled, hfound⟩ := lookupIn_spec disk h hcur leaf
    obtain ⟨rfl, rfl⟩ : cur = dir ∧ stB = stC := by simpa [lookupAll] using harrive
    rw [List.nil_append, lookupAll] at hfail
    split at hfail
    · rename_i st' hlook
      obtain rfl : st' = stA := by simpa using hfail
      rw [hlook] at hinv hgrown hsettled hfound
      obtain ⟨hs, hf⟩ := hgrow.findChild_eq hinv hB (hgrown.live _ hcur.live) hsettled leaf
      exact ⟨rfl, hs, hf.trans hfound.symm⟩
    · simp [lookupAll] at hfail
  | cons c names ih =>
    obtain ⟨⟨kids', hinv⟩, hgrown, hsettled, hfound⟩ := lookupIn_spec disk h hcur c
    rw [List.cons_append, lookupAll] at hfail
    rw [lookupAll] at harrive
    split at hfail
    · -- The first walk failed here, so the second does.
      rename_i st' hlook
      obtain rfl : st' = stA := by simpa using hfail
      rw [hlook] at hinv hgrown hsettled hfound
      obtain ⟨hs, hf⟩ := hgrow.findChild_eq hinv hB (hgrown.live _ hcur.live) hsettled c
      rw [lookupIn_of_settled disk hB hs, hf, ← hfound] at harrive
      simp at harrive
    · rename_i next st' hlook
      rw [hlook] at hinv hgrown hsettled hfound
      have hnext := hinv.reached_of_findChild hfound.symm
      have hrest := (lookupAll_spec disk hinv hnext (names ++ [leaf])).2.1
      rw [hfail] at hrest
      obtain ⟨hs, hf⟩ := (hrest.trans hgrow).findChild_eq hinv hB (hgrown.live _ hcur.live)
        hsettled c
      rw [lookupIn_of_settled disk hB hs, hf, ← hfound] at harrive
      exact ih hinv hnext hfail harrive

end Vfs
