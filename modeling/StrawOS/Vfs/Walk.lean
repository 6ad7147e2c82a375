import StrawOS.Vfs.Lifetime
import Mathlib.Data.List.Pairwise

/-!
# Walks over a tree that has been read

A lookup may read a directory of a volume, so a walk changes the state it walks
over.  Once every directory on its way has been read (`ReadAlong`) it no longer
does, and it follows the lists as they stand (`findAll`).  A walk leaves its own
way read (`lookupAll_reads`), and reading more does not change where it leads
(`ReadAlong.grown`).
-/

namespace Vfs

variable {V : Type} (disk : FatDisk V) {t : MountTable NodeId} {st st' : State V}
  {kids kids' : NodeId → List NodeId} {cur : NodeId}

/-! ## Walks on the lists as they stand -/

/-- Follow names down the sibling lists. -/
def findAll (st : State V) : NodeId → List CString → Option NodeId
  | cur, [] => some cur
  | cur, c :: cs => (findChild st cur c).bind fun next => findAll st next cs

/-- Every directory the walk looks into is settled. -/
def ReadAlong (st : State V) : NodeId → List CString → Prop
  | _, [] => True
  | cur, c :: cs => Settled st cur ∧ ∀ next ∈ findChild st cur c, ReadAlong st next cs

theorem findAll_append (st : State V) (cur : NodeId) (front back : List CString) :
    findAll st cur (front ++ back) = (findAll st cur front).bind fun d => findAll st d back := by
  induction front generalizing cur with
  | nil => simp [findAll]
  | cons c front ih => simp [findAll, ih, Option.bind_assoc]

theorem ReadAlong.of_append {front back : List CString}
    (h : ReadAlong st cur (front ++ back)) : ReadAlong st cur front := by
  induction front generalizing cur with
  | nil => trivial
  | cons c front ih =>
    obtain ⟨hs, hrest⟩ := h
    exact ⟨hs, fun next hnext => ih (hrest next hnext)⟩

theorem ReadAlong.settled {front : List CString} {d : NodeId} {name : CString}
    (h : ReadAlong st cur (front ++ [name])) (hd : findAll st cur front = some d) :
    Settled st d := by
  induction front generalizing cur with
  | nil =>
    obtain rfl : cur = d := by simpa [findAll] using hd
    exact h.1
  | cons c front ih =>
    obtain ⟨next, hnext, hrest⟩ := Option.bind_eq_some_iff.mp hd
    exact ih (h.2 next hnext) hrest

/-- Reading more directories changes neither the way nor where it leads. -/
theorem ReadAlong.grown (hg : Grown st st') (h : Inv t st kids) (h' : Inv t st' kids')
    (hcur : st.live cur = true) {names : List CString} (hr : ReadAlong st cur names) :
    ReadAlong st' cur names ∧ findAll st' cur names = findAll st cur names := by
  induction names generalizing cur with
  | nil => exact ⟨trivial, rfl⟩
  | cons c names ih =>
    obtain ⟨hs, hrest⟩ := hr
    obtain ⟨hs', hfind⟩ := hg.findChild_eq h h' hcur hs c
    simp only [ReadAlong, findAll, hfind]
    refine ⟨⟨hs', ?_⟩, ?_⟩
    · intro next hnext
      exact (ih (h.reached_of_findChild hnext).live (hrest next hnext)).1
    · cases hc : findChild st cur c with
      | none => rfl
      | some next => exact (ih (h.reached_of_findChild hc).live (hrest next hc)).2

theorem lookupAll_of_readAlong (h : Inv t st kids) {names : List CString}
    (hr : ReadAlong st cur names) :
    lookupAll (nodeLookup disk) st cur names = (findAll st cur names, st) := by
  induction names generalizing cur with
  | nil => rfl
  | cons c names ih =>
    obtain ⟨hs, hrest⟩ := hr
    rw [lookupAll, lookupIn_of_settled disk h hs]
    cases hc : findChild st cur c with
    | none => simp [findAll, hc]
    | some next => simpa [findAll, hc] using ih (hrest next hc)

/-- **A walk reads its own way**, and leads where the lists then lead. -/
theorem lookupAll_reads (h : Inv t st kids) (hcur : Reached st cur) (names : List CString) :
    ReadAlong (lookupAll (nodeLookup disk) st cur names).2 cur names ∧
      (lookupAll (nodeLookup disk) st cur names).1 =
        findAll (lookupAll (nodeLookup disk) st cur names).2 cur names := by
  induction names generalizing st kids cur with
  | nil => exact ⟨trivial, rfl⟩
  | cons c names ih =>
    obtain ⟨⟨kids1, h1⟩, hgrown, hsettled, hfound⟩ := lookupIn_spec disk h hcur c
    rw [lookupAll]
    split
    · rename_i st1 hlook
      rw [hlook] at hsettled hfound
      refine ⟨⟨hsettled, ?_⟩, ?_⟩
      · intro next hnext
        rw [← hfound] at hnext
        exact absurd hnext (by simp)
      · simp [findAll, ← hfound]
    · rename_i next st1 hlook
      rw [hlook] at h1 hgrown hsettled hfound
      have hnext := h1.reached_of_findChild hfound.symm
      obtain ⟨⟨kids2, h2⟩, hgrown2, -⟩ := lookupAll_spec disk h1 hnext names
      obtain ⟨hread, hleads⟩ := ih h1 hnext
      obtain ⟨hs, hf⟩ := hgrown2.findChild_eq h1 h2 (hgrown.live _ hcur.live) hsettled c
      refine ⟨⟨hs, ?_⟩, ?_⟩
      · intro n hn
        rw [hf, ← hfound] at hn
        obtain rfl : next = n := by simpa using hn
        exact hread
      · rw [findAll, hf, ← hfound, hleads]
        rfl

theorem lookupAll_append (lookup : Lookup (State V) NodeId) (st : State V) (cur : NodeId)
    (front back : List CString) :
    lookupAll lookup st cur (front ++ back) =
      match lookupAll lookup st cur front with
      | (none, st') => (none, st')
      | (some d, st') => lookupAll lookup st' d back := by
  induction front generalizing st cur with
  | nil => rfl
  | cons c front ih =>
    rw [List.cons_append, lookupAll, lookupAll]
    cases lookupIn lookup st cur c with
    | mk next st1 =>
      cases next with
      | none => rfl
      | some next => exact ih st1 next

/-! ## What is above a node -/

theorem Inv.ancestors_child (h : Inv t st kids) {c d : NodeId}
    (hc : (st.nodes c).parent = some d) : st.ancestors c = c :: st.ancestors d := by
  obtain ⟨l, hl⟩ := h.tree.rooted d
  have hchain : PtrChain st.links.parent (some c) (c :: l) := ⟨rfl, by simpa [hc] using hl⟩
  rw [h.tree.ancestors_eq (h.tree.live_of_parent hc) hchain,
    h.tree.ancestors_eq (h.tree.parentDir c d hc).1 hl]

theorem Inv.ancestors_orphan (h : Inv t st kids) {n : NodeId} (hn : st.live n = true)
    (hp : (st.nodes n).parent = none) : st.ancestors n = [n] :=
  h.tree.ancestors_eq hn ⟨rfl, by simpa using hp⟩

theorem Inv.self_mem_ancestors (h : Inv t st kids) {n : NodeId} (hn : st.live n = true) :
    n ∈ st.ancestors n := by
  cases hp : (st.nodes n).parent with
  | none =>
    rw [h.ancestors_orphan hn hp]
    exact List.mem_singleton_self n
  | some d =>
    rw [h.ancestors_child hp]
    exact List.mem_cons_self

theorem Inv.notMem_ancestors (h : Inv t st kids) {c d : NodeId}
    (hc : (st.nodes c).parent = some d) : c ∉ st.ancestors d := by
  obtain ⟨l, hl⟩ := h.tree.rooted c
  have hnd := hl.nodup
  rw [← h.tree.ancestors_eq (h.tree.live_of_parent hc) hl, h.ancestors_child hc] at hnd
  exact (List.nodup_cons.mp hnd).1

theorem Inv.parent_of_findChild (h : Inv t st kids) {c d : NodeId} {name : CString}
    (hc : findChild st d name = some c) : (st.nodes c).parent = some d := by
  have hmem := List.mem_of_find?_eq_some hc
  rw [h.tree.children_eq] at hmem
  exact (h.tree.shape.mem_iff c d).mp hmem

theorem Grown.ancestors_eq (hg : Grown st st') (h : Inv t st kids) (h' : Inv t st' kids')
    {n : NodeId} (hn : st.live n = true) : st'.ancestors n = st.ancestors n := by
  obtain ⟨l, hl⟩ := h.tree.rooted n
  have hlive := h.tree.live_of_ancestor hl (by simpa using hn)
  have hl' : PtrChain st'.links.parent (some n) l :=
    hl.congr fun a ha => hg.parent a (hlive a ha)
  rw [h.tree.ancestors_eq hn hl, h'.tree.ancestors_eq (hg.live n hn) hl']

/-- **A walk goes down.** -/
theorem above_of_lookupAll (h : Inv t st kids) (hcur : Reached st cur) {names : List CString}
    {a x : NodeId} (harrive : (lookupAll (nodeLookup disk) st cur names).1 = some x)
    (ha : a ∈ st.ancestors cur) :
    a ∈ (lookupAll (nodeLookup disk) st cur names).2.ancestors x := by
  induction names generalizing st kids cur with
  | nil =>
    obtain rfl : cur = x := by simpa [lookupAll] using harrive
    exact ha
  | cons c names ih =>
    obtain ⟨⟨kids1, h1⟩, hgrown, -, hfound⟩ := lookupIn_spec disk h hcur c
    rw [lookupAll] at harrive ⊢
    split at harrive
    · simp at harrive
    · rename_i next st1 hlook
      rw [hlook] at h1 hgrown hfound
      have hparent := h1.parent_of_findChild hfound.symm
      apply ih h1 (h1.reached_of_findChild hfound.symm) harrive
      rw [h1.ancestors_child hparent, hgrown.ancestors_eq h h1 hcur.live]
      exact List.mem_cons_of_mem _ ha

theorem above_of_findAll (h : Inv t st kids) (hcur : Reached st cur) {names : List CString}
    {a x : NodeId} (harrive : findAll st cur names = some x) (ha : a ∈ st.ancestors cur) :
    a ∈ st.ancestors x := by
  induction names generalizing cur with
  | nil =>
    obtain rfl : cur = x := by simpa [findAll] using harrive
    exact ha
  | cons c names ih =>
    obtain ⟨next, hnext, hrest⟩ := Option.bind_eq_some_iff.mp harrive
    apply ih (h.reached_of_findChild hnext) hrest
    rw [h.ancestors_child (h.parent_of_findChild hnext)]
    exact List.mem_cons_of_mem _ ha

end Vfs

/-!
# Edits of one node

Whatever a call does to the tree beyond reading directories, it does to one
node: it makes it, moves it or takes it away.  `Edit t st st' n` says that the
other nodes keep their names and their order, and that neither before nor after
another child of its directory has the name of `n`.

So a lookup that finds another node before finds it after, and the other way
round; by induction so does a walk to a node that is not below `n`.
-/

namespace Vfs

variable {V : Type} (disk : FatDisk V) {t : MountTable NodeId} {st st' st'' : State V}
  {kids kids' : NodeId → List NodeId} {n d c cur x : NodeId} {name : CString}

/-- No other child of its directory has the name of `n`. -/
def Alone (st : State V) (n : NodeId) : Prop :=
  ∀ d c, n ∈ st.children d → c ∈ st.children d →
    (st.nodes d).backing.sameName (st.nodes c).name (st.nodes n).name = true → c = n

/-- `st'` is `st` with the node `n` made, moved or taken away. -/
structure Edit (t : MountTable NodeId) (st st' : State V) (n : NodeId) : Prop where
  inv : ∃ kids, Inv t st kids
  inv' : ∃ kids, Inv t st' kids
  notRoot : ¬ IsMountRoot t n
  live : ∀ m, m ≠ n → st'.live m = st.live m
  name : ∀ m, m ≠ n → (st'.nodes m).name = (st.nodes m).name
  type : ∀ m, m ≠ n → (st'.nodes m).type = (st.nodes m).type
  backing : ∀ m, m ≠ n → (st'.nodes m).backing = (st.nodes m).backing
  order : ∀ d, d ≠ n → (st'.children d).filter (· ≠ n) = (st.children d).filter (· ≠ n)
  alone : Alone st n
  alone' : Alone st' n

/-! ## One lookup -/

theorem Backing.sameName_of_right {b : Backing} {x y z : CString} (hx : b.sameName x z = true)
    (hy : b.sameName y z = true) : b.sameName x y = true := by
  cases b with
  | ramfs =>
    simp only [Backing.sameName, beq_iff_eq] at hx hy ⊢
    exact hx.trans hy.symm
  | fat fs loaded =>
    simp only [Backing.sameName, fatNameEq_iff] at hx hy ⊢
    exact hx.trans hy.symm

/-- Without an element that hides no other, the first match is the same, unless
it is that element. -/
theorem find?_filter_ne {l : List NodeId} {p : NodeId → Bool} (hc : c ≠ n)
    (hhide : n ∈ l → p n = true → ∀ a ∈ l, p a = true → a = n) :
    l.find? p = some c ↔ (l.filter (· ≠ n)).find? p = some c := by
  by_cases hn : n ∈ l ∧ p n = true
  · have hout : ∀ l' : List NodeId, l' ⊆ l → l'.find? p ≠ some c := by
      intro l' hsub hfind
      exact hc (hhide hn.1 hn.2 c (hsub (List.mem_of_find?_eq_some hfind))
        (List.find?_some hfind))
    exact iff_of_false (hout l fun a ha => ha) (hout _ (List.filter_subset_self l))
  · have hsame : (l.filter (· ≠ n)).find? p = l.find? p := by
      rw [List.find?_filter]
      apply List.find?_congr
      intro a ha
      by_cases han : a = n
      · have hpa : p a = false := by
          rw [Bool.eq_false_iff]
          intro hpa
          exact hn ⟨han ▸ ha, han ▸ hpa⟩
        simp [hpa]
      · simp [han]
    rw [hsame]

/-- A node that is alone in its directory is found there under its name. -/
theorem Alone.findChild (h : Alone st n) (hn : n ∈ st.children d)
    (hname : (st.nodes d).backing.sameName (st.nodes n).name name = true) :
    findChild st d name = some n := by
  cases hfind : Vfs.findChild st d name with
  | none =>
    rw [Vfs.findChild, List.find?_eq_none] at hfind
    exact absurd hname (hfind n hn)
  | some a =>
    have ha := List.find?_some hfind
    rw [h d a hn (List.mem_of_find?_eq_some hfind) (Backing.sameName_of_right ha hname)]

theorem Inv.alone (h : Inv t st kids) (hn : (st.nodes n).parent = some d)
    (hread : ∀ fs, (st.nodes d).backing = .fat fs true →
      NamesDiffer (.fat fs true) (st.history d)) : Alone st n := by
  have hmem : n ∈ kids d := (h.tree.shape.mem_iff n d).mpr hn
  have hnames := h.named d
  have hdiffer : NamesDiffer (st.nodes d).backing (namesOf st (kids d)) := by
    cases hb : (st.nodes d).backing with
    | ramfs =>
      rw [hb] at hnames
      exact hnames
    | fat fs loaded =>
      rw [hb] at hnames
      cases loaded with
      | true => exact hnames (hread fs hb)
      | false =>
        have hnil : namesOf st (kids d) = [] := hnames
        rw [hnil]
        exact List.Pairwise.nil
  intro e a hne hae hsame
  rw [h.tree.children_eq] at hne hae
  obtain rfl := h.tree.shape.eq_of_mem hne hmem
  by_contra han
  have hpair := List.pairwise_map.mp hdiffer
  have : Std.Symm fun a b =>
      (st.nodes e).backing.sameName (st.nodes a).name (st.nodes b).name = false :=
    ⟨fun a b hab => by rw [Backing.sameName_comm]; exact hab⟩
  have hfalse := hpair.forall hae hne han
  rw [hsame] at hfalse
  exact absurd hfalse (by simp)

namespace Edit

/-- **A lookup that finds another node** finds it before and after. -/
theorem findChild_iff (he : Edit t st st' n) (hd : d ≠ n) (hc : c ≠ n) :
    findChild st' d name = some c ↔ findChild st d name = some c := by
  have hhide : ∀ s : State V, Alone s n → n ∈ s.children d →
      (s.nodes d).backing.sameName (s.nodes n).name name = true →
      ∀ a ∈ s.children d, (s.nodes d).backing.sameName (s.nodes a).name name = true → a = n :=
    fun s halone hn hp a ha hpa => halone d a hn ha (Backing.sameName_of_right hpa hp)
  have hrest : ((st'.children d).filter (· ≠ n)).find?
        (fun a => (st'.nodes d).backing.sameName (st'.nodes a).name name) =
      ((st.children d).filter (· ≠ n)).find?
        (fun a => (st.nodes d).backing.sameName (st.nodes a).name name) := by
    rw [he.order d hd, he.backing d hd]
    apply List.find?_congr
    intro a ha
    rw [he.name a (by simpa using (List.mem_filter.mp ha).2)]
  rw [findChild, findChild, find?_filter_ne hc (hhide st' he.alone'), hrest,
    ← find?_filter_ne hc (hhide st he.alone)]

theorem settled (he : Edit t st st' n) (hd : d ≠ n) (hs : Settled st d) : Settled st' d := by
  rw [Settled, he.backing d hd, he.type d hd]
  exact hs

/-! ## A walk -/

variable (he : Edit t st st' n)
include he

/-- **A walk that leads past the node** leads there before and after. -/
theorem walk_iff (hcur : Reached st cur) (hcur' : Reached st' cur) (habove : n ∉ st.ancestors cur)
    (habove' : n ∉ st'.ancestors cur) {names : List CString} (hr : ReadAlong st cur names) :
    (findAll st cur names = some x ∧ n ∉ st.ancestors x) ↔
      ((lookupAll (nodeLookup disk) st' cur names).1 = some x ∧
        n ∉ (lookupAll (nodeLookup disk) st' cur names).2.ancestors x) := by
  obtain ⟨kids, h⟩ := he.inv
  obtain ⟨kids', h'⟩ := he.inv'
  induction names generalizing cur with
  | nil =>
    simp only [findAll, lookupAll, Option.some.injEq]
    constructor
    · intro hx
      exact ⟨hx.1, hx.1 ▸ habove'⟩
    · intro hx
      exact ⟨hx.1, hx.1 ▸ habove⟩
  | cons nm names ih =>
    obtain ⟨hs, hrest⟩ := hr
    have hne : cur ≠ n := fun heq => habove (heq ▸ h.self_mem_ancestors hcur.live)
    rw [findAll, lookupAll, lookupIn_of_settled disk h' (he.settled hne hs)]
    have hiff := fun b (hb : b ≠ n) => (he.findChild_iff hne hb : findChild st' cur nm = some b ↔ _)
    -- A walk that comes to the node itself stays at or below it.
    have hbelow : ∀ s : State V, (∃ k, Inv t s k) → findChild s cur nm = some n →
        n ∈ s.ancestors n ∧ Reached s n := by
      intro s hk hfind
      obtain ⟨k, hk⟩ := hk
      have hreached := hk.reached_of_findChild hfind
      exact ⟨hk.self_mem_ancestors hreached.live, hreached⟩
    cases hfind : findChild st cur nm with
    | none =>
      cases hfind' : findChild st' cur nm with
      | none => simp
      | some b =>
        by_cases hb : b = n
        · subst hb
          obtain ⟨hself, hreached⟩ := hbelow st' ⟨_, h'⟩ hfind'
          refine iff_of_false (by simp) fun hx => ?_
          exact hx.2 (above_of_lookupAll disk h' hreached hx.1 hself)
        · rw [(hiff b hb).mp hfind'] at hfind
          exact absurd hfind (by simp)
    | some a =>
      by_cases ha : a = n
      · subst ha
        obtain ⟨hself, hreached⟩ := hbelow st ⟨_, h⟩ hfind
        have hout : ¬ ((some a).bind (fun next => findAll st next names) = some x ∧
            a ∉ st.ancestors x) := by
          intro hx
          exact hx.2 (above_of_findAll h hreached hx.1 hself)
        cases hfind' : findChild st' cur nm with
        | none => exact iff_of_false hout (by simp)
        | some b =>
          by_cases hb : b = a
          · subst hb
            obtain ⟨hself', hreached'⟩ := hbelow st' ⟨_, h'⟩ hfind'
            refine iff_of_false hout fun hx => ?_
            exact hx.2 (above_of_lookupAll disk h' hreached' hx.1 hself')
          · rw [(hiff b hb).mp hfind'] at hfind
            exact absurd (Option.some.inj hfind) hb
      · have hfind' := (hiff a ha).mpr hfind
        rw [hfind']
        have hstep : ∀ s : State V, (∃ k, Inv t s k) → findChild s cur nm = some a →
            n ∉ s.ancestors cur → n ∉ s.ancestors a := by
          intro s hk hfind hcur
          obtain ⟨k, hk⟩ := hk
          rw [hk.ancestors_child (hk.parent_of_findChild hfind)]
          simp [hcur, Ne.symm ha]
        exact ih (h.reached_of_findChild hfind) (h'.reached_of_findChild hfind')
          (hstep st ⟨_, h⟩ hfind habove) (hstep st' ⟨_, h'⟩ hfind' habove') (hrest a hfind)

theorem notMem_ancestors_root {m : VfsMount NodeId} (hm : m ∈ t.mounted) :
    n ∉ st.ancestors m.root ∧ n ∉ st'.ancestors m.root := by
  obtain ⟨kids, h⟩ := he.inv
  obtain ⟨kids', h'⟩ := he.inv'
  have hroot : IsMountRoot t m.root := ⟨m, hm, rfl⟩
  have hne : n ≠ m.root := fun heq => he.notRoot (heq ▸ hroot)
  rw [h.ancestors_orphan (h.tree.roots _ hroot).1 (h.tree.roots _ hroot).2.1,
    h'.ancestors_orphan (h'.tree.roots _ hroot).1 (h'.tree.roots _ hroot).2.1]
  simp [hne]

/-- **A name in a directory past the node.**  Where a walk from a mount leads to
a directory that the node is not above, the walk one name further finds what
the edited directory has under that name. -/
theorem walk_concat {m : VfsMount NodeId} (hm : m ∈ t.mounted) {front : List CString}
    (hr : ReadAlong st m.root front) (hd : findAll st m.root front = some d)
    (hs : Settled st d) (habove : n ∉ st.ancestors d) (name : CString) :
    (lookupAll (nodeLookup disk) st' m.root (front ++ [name])).1 = findChild st' d name := by
  obtain ⟨kids, h⟩ := he.inv
  obtain ⟨kids', h'⟩ := he.inv'
  obtain ⟨hroot, hroot'⟩ := he.notMem_ancestors_root hm
  have hlive : st.live d = true := by
    have hreached := (lookupAll_spec disk h (h.reached_root hm) front).2.2
    rw [lookupAll_of_readAlong disk h hr] at hreached
    exact (hreached d hd).live
  have hdn : d ≠ n := fun heq => habove (heq ▸ h.self_mem_ancestors hlive)
  obtain ⟨⟨kids2, h2⟩, hgrown, hreached⟩ := lookupAll_spec disk h' (h'.reached_root hm) front
  have harrive := ((he.walk_iff disk (h.reached_root hm) (h'.reached_root hm) hroot hroot'
    hr).mp ⟨hd, habove⟩).1
  rw [lookupAll_append]
  generalize lookupAll (nodeLookup disk) st' m.root front = walked at h2 hgrown hreached harrive ⊢
  obtain ⟨arrived, s⟩ := walked
  obtain rfl : arrived = some d := harrive
  obtain ⟨hs2, hfind⟩ := hgrown.findChild_eq h' h2 ((he.live d hdn).trans hlive)
    (he.settled hdn hs) name
  rw [← hfind]
  dsimp only
  rw [lookupAll, lookupIn_of_settled disk h2 hs2]
  cases findChild s d name <;> rfl

end Edit

end Vfs
