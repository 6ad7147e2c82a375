import StrawOS.Vfs.Create

/-!
# Unlinking and closing

Unlinking takes a node out of its directory's list.  If no file is open on it
the node is freed at once; otherwise it is marked, and the last `vfs_close`
frees it.  Both file systems do this with their own code; `unlink_inv` is what
they have in common, and `free_inv` what unlinking and closing do.
-/

namespace Vfs

variable {V : Type} (disk : FatDisk V) {t : MountTable NodeId} {st st' : State V}
  {kids kids' : NodeId → List NodeId}

theorem State.free_setUnlinked (st : State V) (n : NodeId) :
    (st.setUnlinked n).free n = st.free n := by
  simp [State.free, State.setUnlinked, State.setNode]

/-- **Freeing** an unlinked node that is not open. -/
theorem free_inv (h : Tree t st kids) (hnamed : Named st kids)
    (hcount : ∀ n, (st.nodes n).openCount = st.files.countP fun f => f.node = some n)
    (hlive : ∀ n, 0 < (st.nodes n).openCount → st.live n = true) {c : NodeId}
    (hbusy : ∀ n, n ≠ c → (st.nodes n).unlinked = true → 0 < (st.nodes n).openCount)
    (hfreed : Freed st) (hc : st.live c = true) (hun : (st.nodes c).unlinked = true)
    (hclosed : (st.nodes c).openCount = 0) : Inv t (st.free c) kids := by
  have hroot : ¬ IsMountRoot t c := by
    intro hroot
    have := (h.roots c hroot).2.2
    rw [hun] at this
    exact absurd this (by simp)
  have hplace : (st.nodes c).parent = none ∧ kids c = [] := by
    rcases h.placed c hc hroot with hlinked | hfree
    · rw [hun] at hlinked
      exact absurd hlinked.2 (by simp)
    · exact ⟨hfree.1, hfree.2.2⟩
  have hnode : ∀ m, m ≠ c → (st.free c).nodes m = st.nodes m :=
    fun m hm => Function.update_of_ne hm _ _
  have hnodec : (st.free c).nodes c = {} := Function.update_self _ _ _
  have hlive' : (st.free c).live = Function.update st.live c false := rfl
  refine ⟨?_, ?_, ⟨?_, ?_, ?_⟩, ⟨?_, ?_⟩⟩
  · apply h.reparent hroot (n := c) (p := none)
    · rw [State.links_free]
      exact h.shape.clear hplace.1 hplace.2
    · rw [State.links_free]
      rfl
    · simp
    · exact fun _ _ hm => hm
    · exact fun m hm => by rw [hnode m hm]
    · exact fun m hm => by rw [hnode m hm]
    · exact fun m hm => by rw [hlive', Function.update_of_ne hm]
    · intro m hm
      by_cases hmc : m = c
      · rw [hlive', hmc, Function.update_self] at hm
        exact absurd hm (by simp)
      · rw [hlive', Function.update_of_ne hmc] at hm
        exact h.bound m hm
    · exact fun _ => rfl
    · intro hfalse
      rw [hlive', Function.update_self] at hfalse
      exact absurd hfalse (by simp)
    · exact Or.inl hplace.2
  · intro d
    by_cases hd : d = c
    · rw [hd, hplace.2]
      exact namedAt_nil _ _
    · have hnames : namesOf (st.free c) (kids d) = namesOf st (kids d) := by
        apply List.map_congr_left
        intro m hm
        have hmc : m ≠ c := fun hmc => h.shape.notMem_of_parent_none hplace.1 d (hmc ▸ hm)
        rw [hnode m hmc]
      rw [hnode d hd, hnames]
      exact hnamed d
  · intro m
    by_cases hm : m = c
    · rw [hm, hnodec]
      exact hclosed.symm.trans (hcount c)
    · rw [hnode m hm]
      exact hcount m
  · intro m hpos
    by_cases hm : m = c
    · rw [hm, hnodec] at hpos
      exact absurd hpos (by simp)
    · rw [hnode m hm] at hpos
      rw [hlive', Function.update_of_ne hm]
      exact hlive m hpos
  · grind
  · have hnew : c ∉ st.released := by
      intro hmem
      have := ((hfreed.mem_iff c).mp hmem).2
      rw [hc] at this
      exact absurd this (by simp)
    exact List.Nodup.append hfreed.nodup (List.nodup_singleton c) (by simpa using hnew)
  · intro m
    have hreleased : (st.free c).released = st.released ++ [c] := rfl
    have hnext : (st.free c).next = st.next := rfl
    rw [hreleased, List.mem_append, hfreed.mem_iff, hlive', List.mem_singleton, hnext]
    by_cases hm : m = c
    · rw [hm, Function.update_self]
      simpa using h.bound c hc
    · simp [hm]

/-! ## Unlinking -/

/-- `st'` is `st` with the child `c` of `d` taken out and marked. -/
structure Unlinked (st st' : State V) (d : NodeId) (prev : Option NodeId) (c : NodeId) : Prop where
  links : st'.links = st.links.remove d prev c
  data : ∀ m, m ≠ c → (st'.nodes m).data = (st.nodes m).data
  mark : (st'.nodes c).data = { (st.nodes c).data with unlinked := true }
  rest : st' = { st with nodes := st'.nodes, vol := st'.vol }

/-- **Unlinking** a child without children: marked while it is open, freed
otherwise. -/
theorem Unlinked.inv {d c : NodeId} {pre post : List NodeId} (h : Inv t st kids)
    (hk : kids d = pre ++ c :: post) (hempty : kids c = [])
    (hu : Unlinked st st' d pre.getLast? c) :
    ((st.nodes c).openCount ≠ 0 → Inv t st' (Function.update kids d (pre ++ post))) ∧
      ((st.nodes c).openCount = 0 → Inv t (st'.free c) (Function.update kids d (pre ++ post))) := by
  have hcd : c ∈ kids d := by simp [hk]
  have hparent : (st.nodes c).parent = some d := (h.tree.shape.mem_iff c d).mp hcd
  have hlivec := h.tree.live_of_mem hcd
  have hlive : st'.live = st.live := by rw [hu.rest]
  have hnext : st'.next = st.next := by rw [hu.rest]
  have hfiles : st'.files = st.files := by rw [hu.rest]
  have hreleased : st'.released = st.released := by rw [hu.rest]
  have hhistory : st'.history = st.history := by rw [hu.rest]
  have hroot : ¬ IsMountRoot t c := by
    intro hroot
    have := (h.tree.roots c hroot).2.1
    rw [hparent] at this
    exact absurd this (by simp)
  have hmark : (st'.nodes c).name = (st.nodes c).name ∧ (st'.nodes c).type = (st.nodes c).type ∧
      (st'.nodes c).backing = (st.nodes c).backing ∧
      (st'.nodes c).openCount = (st.nodes c).openCount ∧ (st'.nodes c).unlinked = true := by
    have := hu.mark
    simp only [VNode.data, VNode.mk.injEq] at this
    tauto
  have hsame : ∀ m, (st'.nodes m).name = (st.nodes m).name ∧
      (st'.nodes m).type = (st.nodes m).type ∧ (st'.nodes m).backing = (st.nodes m).backing ∧
      (st'.nodes m).openCount = (st.nodes m).openCount := by
    intro m
    by_cases hm : m = c
    · rw [hm]
      exact ⟨hmark.1, hmark.2.1, hmark.2.2.1, hmark.2.2.2.1⟩
    · have := VNode.data_eq_iff.mp (hu.data m hm)
      exact ⟨this.1, this.2.1, this.2.2.1, this.2.2.2.1⟩
  have hunlinked : ∀ m, m ≠ c → (st'.nodes m).unlinked = (st.nodes m).unlinked :=
    fun m hm => (VNode.data_eq_iff.mp (hu.data m hm)).2.2.2.2
  have htree : Tree t st' (Function.update kids d (pre ++ post)) := by
    apply h.tree.reparent hroot (n := c) (p := none)
    · rw [hu.links]
      exact h.tree.shape.remove hk
    · rw [hu.links]
      rfl
    · simp
    · grind
    · exact fun m _ => (hsame m).2.1
    · exact hunlinked
    · exact fun m _ => by rw [hlive]
    · intro m hm
      rw [hnext]
      exact h.tree.bound m (hlive ▸ hm)
    · exact fun _ => rfl
    · exact fun _ => Or.inr ⟨rfl, hmark.2.2.2.2, hempty⟩
    · exact Or.inl hempty
  have hnamed : Named st' (Function.update kids d (pre ++ post)) := by
    intro e
    have hnames : ∀ l, namesOf st' l = namesOf st l :=
      fun l => List.map_congr_left fun x _ => (hsame x).1
    rw [(hsame e).2.2.1, hhistory, hnames]
    refine (h.named e).sublist (List.Sublist.map _ ?_)
    by_cases he : e = d
    · rw [he, Function.update_self, hk]
      exact (List.Sublist.refl _).append (List.sublist_cons_self _ _)
    · rw [Function.update_of_ne he]
  have hcount : ∀ n, (st'.nodes n).openCount = st'.files.countP fun f => f.node = some n := by
    intro n
    rw [(hsame n).2.2.2, hfiles]
    exact h.counted.count n
  have hopen : ∀ n, 0 < (st'.nodes n).openCount → st'.live n = true := by
    intro n
    rw [(hsame n).2.2.2, hlive]
    exact h.counted.live n
  have hbusy : ∀ n, n ≠ c → (st'.nodes n).unlinked = true → 0 < (st'.nodes n).openCount := by
    intro n hn
    rw [hunlinked n hn, (hsame n).2.2.2]
    exact h.counted.busy n
  have hfreed : Freed st' :=
    ⟨hreleased ▸ h.freed.nodup, by rw [hreleased, hnext, hlive]; exact h.freed.mem_iff⟩
  constructor
  · intro hpos
    refine ⟨htree, hnamed, ⟨hcount, hopen, ?_⟩, hfreed⟩
    intro n hun
    by_cases hn : n = c
    · rw [hn, (hsame c).2.2.2]
      exact Nat.pos_of_ne_zero hpos
    · exact hbusy n hn hun
  · intro hzero
    exact free_inv htree hnamed hcount hopen hbusy hfreed (by rw [hlive]; exact hlivec)
      hmark.2.2.2.2 ((hsame c).2.2.2.trans hzero)

/-- A slot found in a directory's list is where the child stands in it. -/
theorem Tree.slot (h : Tree t st kids) {p : NodeId → Bool} {d c : NodeId} {prev : Option NodeId}
    (hslot : State.slotBefore p none (st.children d) = some (prev, c)) :
    p c = true ∧ ∃ pre post, kids d = pre ++ c :: post ∧ prev = pre.getLast? := by
  rw [h.children_eq] at hslot
  obtain ⟨pre, post, hk, hc, hprev⟩ := slotBefore_eq_some hslot
  exact ⟨hc, pre, post, hk, by simpa using hprev⟩

theorem Tree.kids_eq_nil (h : Tree t st kids) {c : NodeId} (hc : (st.nodes c).firstChild = none) :
    kids c = [] := by
  have hchain := h.shape.chain c
  rw [State.links_first, hc, PtrChain.none_iff] at hchain
  exact hchain

/-- A child that is not a directory, or one without a first child, has no children. -/
theorem Inv.kids_eq_nil (h : Inv t st kids) {c : NodeId}
    (hc : ¬ ((st.nodes c).type = .dir ∧ (st.nodes c).firstChild ≠ none)) : kids c = [] := by
  by_cases hdir : (st.nodes c).type = .dir
  · exact h.tree.kids_eq_nil (by simpa [hdir] using hc)
  · rw [← h.tree.children_eq]
    exact h.children_of_not_dir hdir

/-- What an unlink that succeeds has done: the node `c` has left the list of
`d` and has no directory any more, and the rest stays in order. -/
structure Delisted (t : MountTable NodeId) (st st' : State V) (kids : NodeId → List NodeId)
    (d c : NodeId) : Prop where
  live : ∀ m, m ≠ c → st'.live m = st.live m
  data : ∀ m, m ≠ c → (st'.nodes m).data = (st.nodes m).data
  orphan : (st'.nodes c).parent = none
  history : st'.history = st.history
  lists : ∃ pre post, kids d = pre ++ c :: post ∧ Inv t st' (Function.update kids d (pre ++ post))

theorem Unlinked.orphan {d c : NodeId} {prev : Option NodeId} (hu : Unlinked st st' d prev c) :
    (st'.nodes c).parent = none := by
  rw [← State.links_parent, hu.links]
  exact Function.update_self _ _ _

theorem Unlinked.delisted {d c : NodeId} {pre post : List NodeId}
    (hu : Unlinked st st' d pre.getLast? c) (hk : kids d = pre ++ c :: post)
    (hinv : Inv t st' (Function.update kids d (pre ++ post))) : Delisted t st st' kids d c where
  live m _ := by rw [hu.rest]
  data := hu.data
  orphan := hu.orphan
  history := by rw [hu.rest]
  lists := ⟨pre, post, hk, hinv⟩

theorem Unlinked.delisted_free {d c : NodeId} {pre post : List NodeId}
    (hu : Unlinked st st' d pre.getLast? c) (hk : kids d = pre ++ c :: post)
    (hinv : Inv t (st'.free c) (Function.update kids d (pre ++ post))) :
    Delisted t st (st'.free c) kids d c where
  live m hm := by
    have hlive : (st'.free c).live m = st'.live m := Function.update_of_ne hm _ _
    rw [hlive, hu.rest]
  data m hm := by
    have hnode : (st'.free c).nodes m = st'.nodes m := Function.update_of_ne hm _ _
    rw [hnode, hu.data m hm]
  orphan := by
    have hnode : (st'.free c).nodes c = {} := Function.update_self _ _ _
    rw [hnode]
  history := by
    have hfree : (st'.free c).history = st'.history := rfl
    rw [hfree, hu.rest]
  lists := ⟨pre, post, hk, hinv⟩

/-- **`ramfs_unlink`**: nothing, or the child of that name is taken out. -/
theorem ramfsUnlink_spec (h : Inv t st kids) {d : NodeId} (hb : (st.nodes d).backing = .ramfs)
    (name : CString) :
    ramfsUnlink st d name = (false, st) ∨
      ∃ c, findChild st d name = some c ∧ Delisted t st (ramfsUnlink st d name).2 kids d c := by
  rw [ramfsUnlink]
  split
  · exact Or.inl rfl
  · rename_i prev c hslot
    obtain ⟨-, pre, post, hk, rfl⟩ := h.tree.slot hslot
    split
    · exact Or.inl rfl
    · rename_i hempty
      have hfound : findChild st d name = some c := by
        simpa [findChild, hb, Backing.sameName] using find?_eq_of_slotBefore hslot
      refine Or.inr ⟨c, hfound, ?_⟩
      set st3 := ((st.spliceOut d pre.getLast? c).setParent c none).setNext c none with hst3
      have hdata : ∀ m, (st3.nodes m).data = (st.nodes m).data := by
        intro m
        rw [hst3, State.data_setNext, State.data_setParent, State.data_spliceOut]
      have hopen : (st3.nodes c).openCount = (st.nodes c).openCount :=
        (VNode.data_eq_iff.mp (hdata c)).2.2.2.1
      have hu : Unlinked st (st3.setUnlinked c) d pre.getLast? c := by
        refine ⟨?_, ?_, ?_, ?_⟩
        · rw [State.links_setUnlinked, hst3, State.links_spliceOut]
        · intro m hm
          rw [State.setUnlinked, State.nodes_setNode, if_neg hm]
          exact hdata m
        · rw [State.setUnlinked, State.nodes_setNode, if_pos rfl, ← hdata c]
          rfl
        · rw [hst3, State.spliceOut_eq]
          rfl
      obtain ⟨hmarked, hfree⟩ := hu.inv h hk (h.kids_eq_nil hempty)
      dsimp only
      split
      · rename_i hpos
        exact hu.delisted hk (hmarked (hopen ▸ hpos))
      · rename_i hzero
        have hfreed := hu.delisted_free hk (hfree (hopen ▸ (by simpa using hzero)))
        rw [State.free_setUnlinked] at hfreed
        exact hfreed

/-- What `fat_detach` and the clearing of the parent do to a child. -/
theorem fatDetach_spec (h : Inv t st kids) {n d : NodeId} (hn : (st.nodes n).parent = some d) :
    ∃ pre post, kids d = pre ++ n :: post ∧
      (fatDetach st n) = { st with nodes := (fatDetach st n).nodes } ∧
      (∀ m, ((fatDetach st n).nodes m).data = (st.nodes m).data) ∧
      ((fatDetach st n).setParent n none).links = st.links.remove d pre.getLast? n ∧
      ((fatDetach st n).nodes n).nextSibling = none := by
  have hmem : n ∈ st.children d := by
    rw [h.tree.children_eq]
    exact (h.tree.shape.mem_iff n d).mpr hn
  obtain ⟨⟨prev, c⟩, hslot⟩ := Option.isSome_iff_exists.mp
    (slotBefore_isSome (· == n) none hmem (by simp))
  obtain ⟨hc, pre, post, hk, rfl⟩ := h.tree.slot hslot
  obtain rfl : c = n := by simpa using hc
  have hdetach : fatDetach st c = (st.spliceOut d pre.getLast? c).setNext c none := by
    rw [fatDetach, hn]
    simp only [hslot]
  refine ⟨pre, post, hk, ?_, ?_, ?_, ?_⟩
  · rw [hdetach, State.spliceOut_eq]
    rfl
  · intro m
    rw [hdetach, State.data_setNext, State.data_spliceOut]
  · rw [hdetach]
    cases pre.getLast? <;> simp [State.spliceOut, Forest.remove]
  · rw [hdetach, State.setNext, State.nodes_setNode, if_pos rfl]

/-- **`fat_unlink`**: it fails and keeps the invariant, or after some reading the
child of that name is taken out. -/
theorem fatUnlink_spec (h : Inv t st kids) {d : NodeId} (hd : Reached st d) (name : CString)
    (hfat : ∃ fs l, (st.nodes d).backing = .fat fs l) :
    ((fatUnlink disk st d name).1 = false ∧ ∃ kids', Inv t (fatUnlink disk st d name).2 kids') ∨
      ∃ st1 kids1 c, Inv t st1 kids1 ∧ Grown st st1 ∧ Settled st1 d ∧
        (fatLookup disk st d name).1 = some c ∧ findChild st1 d name = some c ∧
        Delisted t st1 (fatUnlink disk st d name).2 kids1 d c := by
  obtain ⟨fs, l, hb⟩ := hfat
  have hlookup : lookupIn (nodeLookup disk) st d name = fatLookup disk st d name := by
    simp [lookupIn, nodeLookup, hb]
  obtain ⟨⟨kids1, h1⟩, hgrown, hsettled, hfound⟩ := lookupIn_spec disk h hd name
  rw [hlookup] at h1 hgrown hsettled hfound
  rw [fatUnlink]
  generalize fatLookup disk st d name = found at h1 hgrown hsettled hfound ⊢
  dsimp only
  split
  · exact Or.inl ⟨rfl, kids1, h1⟩
  · rename_i n hn
    rw [hn] at hfound
    have hmem : n ∈ found.2.children d := List.mem_of_find?_eq_some hfound.symm
    have hreach := h1.reached_of_mem hmem
    have hparent : (found.2.nodes n).parent = some d := by
      rw [h1.tree.children_eq] at hmem
      exact (h1.tree.shape.mem_iff n d).mp hmem
    -- Whether the node is a directory that must be read first or not.
    have hload : ∃ kids2, Inv t (if (found.2.nodes n).type = .dir then fatLoadDir disk found.2 n
          else found.2) kids2 ∧
        Grown found.2 (if (found.2.nodes n).type = .dir then fatLoadDir disk found.2 n
          else found.2) := by
      split
      · rename_i hdir
        obtain ⟨⟨kids2, h2⟩, hgrown2, -⟩ := fatLoadDir_spec disk h1 hreach.live hdir hreach.linked
        exact ⟨kids2, h2, hgrown2⟩
      · exact ⟨kids1, h1, Grown.refl _⟩
    obtain ⟨kids2, h2, hgrown2⟩ := hload
    generalize (if (found.2.nodes n).type = .dir then fatLoadDir disk found.2 n else found.2) = st2
      at h2 hgrown2 ⊢
    have hparent2 : (st2.nodes n).parent = some d :=
      (hgrown2.parent n hreach.live).trans hparent
    obtain ⟨hsettled2, hfind2⟩ :=
      hgrown2.findChild_eq h1 h2 (hgrown.live d hd.live) hsettled name
    split
    · exact Or.inl ⟨rfl, kids2, h2⟩
    · rename_i hempty
      generalize disk.removeEntry st2.vol d n = removed
      have h3 := h2.setVol removed.2
      split
      · exact Or.inl ⟨rfl, kids2, h3⟩
      · obtain ⟨pre, post, hk, hrest, hdata, hlinks, -⟩ := fatDetach_spec h3 hparent2
        set st4 := (fatDetach { st2 with vol := removed.2 } n).setParent n none with hst4
        have hdata4 : ∀ m, (st4.nodes m).data = (st2.nodes m).data := by
          intro m
          rw [hst4, State.data_setParent]
          exact hdata m
        have hopen : (st4.nodes n).openCount = (st2.nodes n).openCount :=
          (VNode.data_eq_iff.mp (hdata4 n)).2.2.2.1
        have hu : ∀ v, Unlinked { st2 with vol := removed.2 }
            ({ st4 with vol := v }.setUnlinked n) d pre.getLast? n := by
          intro v
          refine ⟨?_, ?_, ?_, ?_⟩
          · rw [State.links_setUnlinked]
            exact hlinks
          · intro m hm
            rw [State.setUnlinked, State.nodes_setNode, if_neg hm]
            exact hdata4 m
          · rw [State.setUnlinked, State.nodes_setNode, if_pos rfl]
            exact (congrArg (fun w : VNode => { w with unlinked := true }) (hdata4 n))
          · rw [hst4, hrest]
            rfl
        have hcases := fun v => (hu v).inv h3 hk (h2.kids_eq_nil hempty)
        refine Or.inr ⟨{ st2 with vol := removed.2 }, kids2, n, h3,
          (hgrown.trans hgrown2).setVol removed.2, hsettled2, hn, hfind2.trans hfound.symm, ?_⟩
        split
        · rename_i hpos
          exact (hu _).delisted hk ((hcases (disk.flush st4.vol n)).1 (hopen ▸ hpos))
        · rename_i hzero
          have hfreed := (hu _).delisted_free hk
            ((hcases (disk.freeChain st4.vol n)).2 (hopen ▸ (by simpa using hzero)))
          rw [State.free_setUnlinked] at hfreed
          exact hfreed


/-- **`vfs_unlink`** keeps the invariant. -/
theorem vfsUnlink_inv (h : Inv t st kids) (path : CString) :
    ∃ kids', Inv t (vfsUnlink disk t st path).2 kids' := by
  obtain ⟨⟨kids1, h1⟩, -, hparent⟩ := resolveParent_spec disk h path
  rw [vfsUnlink]
  split
  · exact ⟨kids1, h1⟩
  · rename_i dir leaf hdl
    obtain ⟨hdir, -⟩ := hparent dir leaf hdl
    split
    · exact ⟨kids1, h1⟩
    · split
      · rename_i hb
        rcases ramfsUnlink_spec h1 hb leaf with hstay | ⟨c, -, hout⟩
        · rw [hstay]
          exact ⟨kids1, h1⟩
        · obtain ⟨pre, post, -, hinv⟩ := hout.lists
          exact ⟨_, hinv⟩
      · rename_i fs l hb
        rcases fatUnlink_spec disk h1 hdir leaf ⟨fs, l, hb⟩ with hfail | ⟨_, _, _, -, -, -, -, -, hout⟩
        · exact hfail.2
        · obtain ⟨pre, post, -, hinv⟩ := hout.lists
          exact ⟨_, hinv⟩

/-! ## Closing -/

theorem countP_close {files : List VFile} {i : Nat} {f : VFile} {n : NodeId}
    (hi : files[i]? = some f) (hf : f.node = some n) (m : NodeId) :
    (files.set i { f with node := none }).countP (fun g => g.node = some m) =
      files.countP (fun g => g.node = some m) - if m = n then 1 else 0 := by
  obtain ⟨hlt, hget⟩ := List.getElem?_eq_some_iff.mp hi
  rw [List.countP_set hlt, hget, hf]
  by_cases hm : m = n
  · simp [hm]
  · simp [hm, Ne.symm hm]

/-- **`vfs_close`** keeps the invariant. -/
theorem vfsClose_inv (h : Inv t st kids) (file : Nat) :
    ∃ kids', Inv t (vfsClose disk st file).2 kids' := by
  rw [vfsClose]
  split
  · exact ⟨kids, h⟩
  · rename_i f hfile
    split
    · exact ⟨kids, h⟩
    · rename_i n hn
      set st1 : State V := { st with files := st.files.set file { f with node := none } } with hst1
      set st2 := st1.setNode n { st1.nodes n with openCount := (st1.nodes n).openCount - 1 }
        with hst2
      have hpos : 0 < (st.nodes n).openCount := by
        rw [h.counted.count n, List.countP_pos_iff]
        exact ⟨f, List.mem_of_getElem? hfile, by simpa using hn⟩
      have hlive := h.counted.live n hpos
      have hnode : ∀ m, st2.nodes m =
          if m = n then { st.nodes n with openCount := (st.nodes n).openCount - 1 }
          else st.nodes m := fun m => State.nodes_setNode _ _ _ _
      have hsame : ∀ m, (st2.nodes m).name = (st.nodes m).name ∧
          (st2.nodes m).type = (st.nodes m).type ∧
          (st2.nodes m).backing = (st.nodes m).backing ∧
          (st2.nodes m).unlinked = (st.nodes m).unlinked := by grind
      have hlinks : st2.links = st.links := State.links_setNode_of_links st1 rfl rfl rfl
      have hcount : ∀ m, (st2.nodes m).openCount =
          st2.files.countP fun g => g.node = some m := by
        intro m
        have hfiles : st2.files = st.files.set file { f with node := none } := rfl
        rw [hfiles, countP_close hfile hn, ← h.counted.count m, hnode]
        split
        · rename_i hm
          rw [hm]
        · rfl
      have hlive2 : ∀ m, 0 < (st2.nodes m).openCount → st2.live m = true := by
        intro m hm
        by_cases hmn : m = n
        · rw [hmn]
          exact hlive
        · rw [hnode, if_neg hmn] at hm
          exact h.counted.live m hm
      have hbusy : ∀ m, m ≠ n → (st2.nodes m).unlinked = true → 0 < (st2.nodes m).openCount := by
        intro m hm
        rw [hnode, if_neg hm]
        exact h.counted.busy m
      dsimp only
      split
      · rename_i hlast
        have htree : Tree t st2 kids := h.tree.congr hlinks (fun m => (hsame m).2.1)
          (fun m => (hsame m).2.2.2) rfl rfl
        have hnamed : Named st2 kids := by
          intro d
          have hnames : namesOf st2 (kids d) = namesOf st (kids d) :=
            List.map_congr_left fun c _ => (hsame c).1
          rw [(hsame d).2.2.1, hnames]
          exact h.named d
        have hfree := free_inv htree hnamed hcount hlive2 hbusy
          ⟨h.freed.nodup, h.freed.mem_iff⟩ hlive hlast.2 hlast.1
        rw [nodeRelease]
        split
        · exact ⟨kids, hfree⟩
        · exact ⟨kids, hfree.setVol (disk.freeChain st2.vol n)⟩
      · rename_i hlast
        refine ⟨kids, h.recount hlinks (fun m => (hsame m).1) (fun m => (hsame m).2.1)
          (fun m => (hsame m).2.2.1) (fun m => (hsame m).2.2.2) rfl rfl rfl rfl
          ⟨hcount, hlive2, ?_⟩⟩
        intro m hun
        by_cases hm : m = n
        · subst hm
          exact Nat.pos_of_ne_zero fun hzero => hlast ⟨hzero, hun⟩
        · exact hbusy m hm hun

end Vfs
