import StrawOS.Vfs.Move

/-!
# The tree and the life of its nodes

Every call keeps the invariant, so it holds in every state that any sequence of
calls reaches from freshly mounted volumes.  `Sound` spells out what that means
for the lists and pointers themselves, and `tree_sound` is the result.
-/

namespace Vfs

variable {V : Type} (disk : FatDisk V) {t : MountTable NodeId} {st : State V}
  {kids : NodeId → List NodeId}

/-- **One call** keeps the invariant. -/
theorem call_inv (h : Inv t st kids) (c : Call) : ∃ kids', Inv t (call disk t st c).2 kids' := by
  cases c with
  | «open» path flags mem => exact vfsOpen_inv disk h path flags mem
  | close file => exact vfsClose_inv disk h file
  | mkdir path mem => exact vfsMkdir_inv disk h path mem
  | rename src dst => exact vfsRename_inv disk h src dst
  | unlink path => exact vfsUnlink_inv disk h path

theorem Fresh.blank (h : Fresh t st) (n : NodeId) :
    (st.nodes n).parent = none ∧ (st.nodes n).firstChild = none ∧
      (st.nodes n).openCount = 0 ∧ (st.nodes n).unlinked = false := by
  by_cases hn : st.live n = true
  · rcases h.node n hn with heq | ⟨fs, heq⟩ <;> rw [heq] <;> exact ⟨rfl, rfl, rfl, rfl⟩
  · rw [h.dead n (by simpa using hn)]
    exact ⟨rfl, rfl, rfl, rfl⟩

theorem Fresh.inv (h : Fresh t st) : Inv t st fun _ => [] where
  tree :=
    { shape :=
        { chain := fun d => (h.blank d).2.1
          mem_iff := fun c d => by simp [(h.blank c).1] }
      bound := fun n hn => (h.bound n).mp hn
      dead := fun n _ => (h.blank n).1
      parentDir := fun n d hn => by simp [(h.blank n).1] at hn
      rooted := fun n => ⟨[n], rfl, (h.blank n).1⟩
      roots := fun n hn => ⟨(h.roots n).mpr hn, (h.blank n).1, (h.blank n).2.2.2⟩
      placed := fun n hn hr => absurd ((h.roots n).mp hn) hr }
  named d := namedAt_nil _ _
  counted :=
    { count := fun n => by simp [(h.blank n).2.2.1, h.files]
      live := fun n hn => by simp [(h.blank n).2.2.1] at hn
      busy := fun n hn => by simp [(h.blank n).2.2.2] at hn }
  freed :=
    { nodup := by simp [h.released]
      mem_iff := fun n => by
        simp only [h.released, List.not_mem_nil, false_iff, not_and, Bool.not_eq_false]
        exact (h.bound n).mpr }

/-- **The invariant over every run.** -/
theorem reachable_inv (h : (machine disk t).Reachable (fun _ _ => True) st) :
    ∃ kids, Inv t st kids := by
  refine h.invariant (P := fun s => ∃ kids, Inv t s kids) (fun s hs => ⟨_, Fresh.inv hs⟩) ?_
  intro s c hs _
  obtain ⟨kids, hinv⟩ := hs
  exact call_inv disk hinv c

/-- What the invariant says of the pointers themselves. -/
structure Sound (t : MountTable NodeId) (st : State V) : Prop where
  /-- Every sibling list ends. -/
  lists : ∀ d, PtrChain (fun n => (st.nodes n).nextSibling) (st.nodes d).firstChild (st.children d)
  /-- A linked node that is no mount root stands once in its parent's list and
  in no other. -/
  listed : ∀ n, st.live n = true → ¬ IsMountRoot t n → (st.nodes n).unlinked = false →
    ∃ d, (st.nodes n).parent = some d ∧ st.live d = true ∧ (st.nodes d).type = .dir ∧
      (st.children d).count n = 1 ∧ ∀ e, n ∈ st.children e → e = d
  /-- Mount roots and unlinked nodes have no parent and are in no list. -/
  unlisted : ∀ n, IsMountRoot t n ∨ (st.nodes n).unlinked = true →
    st.live n = true ∧ (st.nodes n).parent = none ∧ ∀ d, n ∉ st.children d
  /-- The parents of a linked node end at a mount root. -/
  rooted : ∀ n, st.live n = true → (st.nodes n).unlinked = false →
    PtrChain (fun n => (st.nodes n).parent) (some n) (st.ancestors n) ∧
      ∃ r, (st.ancestors n).getLast? = some r ∧ IsMountRoot t r
  /-- Sibling names differ in the RAM file system. -/
  ramfsNames : ∀ d, (st.nodes d).backing = .ramfs →
    ((st.children d).map fun c => (st.nodes c).name).Nodup
  /-- Sibling names differ up to case on a FAT volume, if those read from the
  volume did. -/
  fatNames : ∀ d fs loaded, (st.nodes d).backing = .fat fs loaded →
    (st.history d).Pairwise (fun x y => fatNameEq x y = false) →
    ((st.children d).map fun c => (st.nodes c).name).Pairwise fun x y => fatNameEq x y = false
  /-- The open count counts the open files. -/
  openCount : ∀ n, (st.nodes n).openCount = st.files.countP fun f => f.node = some n
  /-- No open file is on a node that was freed. -/
  files : ∀ f ∈ st.files, ∀ n, f.node = some n → st.live n = true ∧ n ∉ st.released
  /-- An unlinked node is still open. -/
  unlinkedOpen : ∀ n, (st.nodes n).unlinked = true → 0 < (st.nodes n).openCount
  /-- A node is freed at most once, and what was given out and is not live was. -/
  releasedOnce : st.released.Nodup
  released : ∀ n, n ∈ st.released ↔ n < st.next ∧ st.live n = false

theorem Inv.ancestors_end (h : Inv t st kids) {n : NodeId} (hn : st.live n = true)
    (hlinked : (st.nodes n).unlinked = false) :
    PtrChain st.links.parent (some n) (st.ancestors n) ∧
      ∃ r, (st.ancestors n).getLast? = some r ∧ IsMountRoot t r := by
  obtain ⟨l, hl⟩ := h.tree.rooted n
  rw [h.tree.ancestors_eq hn hl]
  refine ⟨hl, ?_⟩
  have hne : l ≠ [] := by
    intro hnil
    rw [hnil] at hl
    simp at hl
  obtain ⟨pre, r, rfl⟩ := List.eq_nil_or_concat l |>.resolve_left hne
  refine ⟨r, by simp, ?_⟩
  by_contra hroot
  rw [List.concat_eq_append] at hl
  have hend : (st.nodes r).parent = none := hl.tail_of_append.2
  have hrlive := h.tree.live_of_ancestor hl (by simpa using hn) r (by simp)
  rcases h.tree.placed r hrlive hroot with hplaced | ⟨-, hun, hnil⟩
  · exact hplaced.1 hend
  · -- An unlinked node has no children, so it is the node itself.
    cases hpre : pre.getLast? with
    | none =>
      obtain rfl := List.getLast?_eq_none_iff.mp hpre
      obtain rfl : n = r := by simpa using hl.1
      rw [hlinked] at hun
      exact absurd hun (by simp)
    | some c =>
      obtain ⟨init, rfl⟩ := List.getLast?_eq_some_iff.mp hpre
      rw [List.append_assoc] at hl
      have hc : (st.nodes c).parent = some r := hl.tail_of_append.2.1
      have hmem := (h.tree.shape.mem_iff c r).mpr hc
      simp [hnil] at hmem

theorem Inv.sound (h : Inv t st kids) : Sound t st where
  lists d := by
    rw [h.tree.children_eq]
    exact h.tree.shape.chain d
  listed n hn hr hlinked := by
    rcases h.tree.placed n hn hr with hplaced | hun
    · obtain ⟨d, hd⟩ := Option.ne_none_iff_exists'.mp hplaced.1
      obtain ⟨hdlive, hdir⟩ := h.tree.parentDir n d hd
      have hmem := (h.tree.shape.mem_iff n d).mpr hd
      refine ⟨d, hd, hdlive, hdir, ?_, ?_⟩
      · rw [h.tree.children_eq]
        exact List.count_eq_one_of_mem (h.tree.shape.nodup d) hmem
      · intro e he
        rw [h.tree.children_eq] at he
        exact h.tree.shape.eq_of_mem he hmem
    · rw [hlinked] at hun
      exact absurd hun.2.1 (by simp)
  unlisted n hn := by
    have hfree : st.live n = true ∧ (st.nodes n).parent = none := by
      by_cases hroot : IsMountRoot t n
      · exact ⟨(h.tree.roots n hroot).1, (h.tree.roots n hroot).2.1⟩
      · have hun := hn.resolve_left hroot
        have hlive := h.counted.live n (h.counted.busy n hun)
        rcases h.tree.placed n hlive hroot with hplaced | hplaced
        · rw [hun] at hplaced
          exact absurd hplaced.2 (by simp)
        · exact ⟨hlive, hplaced.1⟩
    refine ⟨hfree.1, hfree.2, ?_⟩
    intro d hd
    rw [h.tree.children_eq] at hd
    exact h.tree.shape.notMem_of_parent_none hfree.2 d hd
  rooted n hn hlinked := h.ancestors_end hn hlinked
  ramfsNames d hb := by
    have hnames := h.named d
    rw [hb] at hnames
    rw [h.tree.children_eq]
    exact List.Pairwise.imp (fun {x y} hxy => by simpa [Backing.sameName] using hxy) hnames
  fatNames d fs loaded hb hread := by
    have hnames := h.named d
    rw [hb] at hnames
    rw [h.tree.children_eq]
    cases loaded with
    | true => exact hnames hread
    | false =>
      have hnil : (kids d).map (fun c => (st.nodes c).name) = [] := hnames
      rw [hnil]
      exact List.Pairwise.nil
  openCount := h.counted.count
  files f hf n hn := by
    have hlive : st.live n = true := by
      apply h.counted.live
      rw [h.counted.count, List.countP_pos_iff]
      exact ⟨f, hf, by simpa using hn⟩
    refine ⟨hlive, ?_⟩
    intro hmem
    have := ((h.freed.mem_iff n).mp hmem).2
    rw [hlive] at this
    exact absurd this (by simp)
  unlinkedOpen := h.counted.busy
  releasedOnce := h.freed.nodup
  released := h.freed.mem_iff

/-- **Tree and lifetime.**  Whatever the volumes hold and answer, after any
sequence of calls on freshly mounted RAM and FAT file systems the tree is
sound. -/
theorem tree_sound (disk : FatDisk V) (t : MountTable NodeId) (st : State V)
    (h : (machine disk t).Reachable (fun _ _ => True) st) : Sound t st := by
  obtain ⟨kids, hinv⟩ := reachable_inv disk h
  exact hinv.sound

/-! ## A file unlinked while it is open -/

/-- A RAM file system mounted at `/`, with node `0` for its root. -/
def rootOnly : MountTable NodeId := (vfsMount MountTable.empty rootPath 0).getD MountTable.empty

/-- There is no FAT volume. -/
def noVolume : FatDisk Unit where
  load _ _ _ := ([], ())
  create _ _ _ _ _ _ _ := (false, ())
  removeEntry _ _ _ := (false, ())
  rename _ _ _ _ _ _ _ _ := (false, ())
  flush _ _ := ()
  freeChain _ _ := ()

/-- The state after `ramfs_create_root` and the mount. -/
def booted : State Unit where
  nodes n := if n = 0 then ramfsRootNode else {}
  live n := n == 0
  next := 1
  files := []
  released := []
  history _ := []
  vol := ()

theorem mounted_rootOnly : rootOnly.mounted = [⟨rootPath, 0⟩] := by decide +kernel

theorem booted_fresh : Fresh rootOnly booted where
  roots n := by
    simp only [IsMountRoot, mounted_rootOnly, booted, List.mem_singleton, beq_iff_eq,
      exists_eq_left]
    exact eq_comm
  node n hn := by
    obtain rfl : n = 0 := by simpa [booted] using hn
    exact Or.inl rfl
  dead n hn := by
    have hne : n ≠ 0 := by simpa [booted] using hn
    simp [booted, hne]
  bound n := by simp [booted]
  files := rfl
  released := rfl

/-- The path `/f`. -/
def pathF : CString := ofAscii "/f"

theorem resolve_pathF (disk : FatDisk Unit) (st : State Unit) :
    vfsResolve (nodeLookup disk) rootOnly st pathF =
      lookupAll (nodeLookup disk) st 0 [ofAscii "f"] := by
  have hmount : findMountFor rootOnly pathF = some (⟨rootPath, 0⟩, pathF) := by decide +kernel
  have hchunks : chunks pathF = [ofAscii "f"] := by
    rw [show pathF = slash :: ofAscii "f" by decide, chunks_slash_cons, chunks_skipSlashes]
    exact chunks_name (by decide) (by decide) (by decide)
  rw [vfsResolve_eq_lookupAll _ _ _ (by decide) hmount, hchunks]

/-- The parent of `/f` is the root, whatever is mounted at `/f`. -/
theorem resolveParent_of_root (disk : FatDisk Unit) (t : MountTable NodeId) (st : State Unit)
    (hmount : findMountFor t rootPath = some (⟨rootPath, 0⟩, rootPath)) :
    resolveParent (nodeLookup disk) t st pathF = (some (0, ofAscii "f"), st) := by
  have hroot : vfsResolve (nodeLookup disk) t st rootPath = (some 0, st) := by
    rw [vfsResolve_eq_lookupAll _ _ _ (by decide) hmount,
      show rootPath = slash :: [] from rfl, chunks_slash_cons, chunks_skipSlashes, chunks_nil,
      lookupAll]
  rw [resolveParent, if_neg (by decide)]
  simp only [show lastSlash pathF = 0 by decide, hroot]
  rfl

theorem resolveParent_pathF (st : State Unit) :
    resolveParent (nodeLookup noVolume) rootOnly st pathF = (some (0, ofAscii "f"), st) :=
  resolveParent_of_root noVolume rootOnly st (by decide +kernel)

/-- Create and open `/f`, unlink it, close it. -/
def unlinkRun : List Call := [.open pathF 4 true, .unlink pathF, .close 0]

theorem unlinkRun_reachable (k : Nat) :
    (machine noVolume rootOnly).Reachable (fun _ _ => True)
      ((machine noVolume rootOnly).run booted (unlinkRun.take k)) :=
  (Machine.Reachable.start booted_fresh).run _ fun _ _ _ _ => trivial

/-- While the file is open the unlinked node is live, no mount root and in no
sibling list. -/
theorem unlinked_open_node_unlisted :
    let st := (machine noVolume rootOnly).run booted (unlinkRun.take 2)
    st.live 1 = true ∧ ¬ IsMountRoot rootOnly 1 ∧ ∀ d, 1 ∉ st.children d := by
  intro st
  have hrun : st.live 1 = true ∧ (st.nodes 1).unlinked = true := by
    simp only [st, unlinkRun, List.take, Machine.run, machine, call, vfsOpen, vfsUnlink,
      resolve_pathF, resolveParent_pathF]
    exact ⟨rfl, rfl⟩
  obtain ⟨kids, hinv⟩ := reachable_inv noVolume (unlinkRun_reachable 2)
  refine ⟨hrun.1, ?_, (hinv.sound.unlisted 1 (Or.inr hrun.2)).2.2⟩
  simp [IsMountRoot, mounted_rootOnly]

/-- After the whole run the tree is sound, and the node was freed. -/
theorem unlinkRun_sound :
    (machine noVolume rootOnly).Reachable (fun _ _ => True)
        ((machine noVolume rootOnly).run booted unlinkRun) ∧
      Sound rootOnly ((machine noVolume rootOnly).run booted unlinkRun) ∧
      ((machine noVolume rootOnly).run booted unlinkRun).released = [1] := by
  refine ⟨unlinkRun_reachable 3, tree_sound noVolume rootOnly _ (unlinkRun_reachable 3), ?_⟩
  simp only [unlinkRun, Machine.run, machine, call, vfsOpen, vfsUnlink, resolve_pathF,
    resolveParent_pathF]
  rfl

end Vfs
