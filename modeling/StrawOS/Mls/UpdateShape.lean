import StrawOS.Mls.TreeChange
import StrawOS.Mls.Group

/-!
# Update paths keep the shape

The path of a committer is blank first.  Then the nodes with a leaf on the other side
become parents again, with new keys and no unmerged leaves.
-/

namespace Mls

open TreeIndex

variable {d : Nat} {t t' : Tree} {cr : Crypto}

/-! ## The filtered path -/

/-- Whether the other side of an ancestor has a resolution. -/
def coveredAt (t : Tree) (l i : Nat) : Bool :=
  !(resolution t [] (TreeIndex.node i (siblingOf (l / 2 ^ i))) 1).value.isEmpty

theorem foldl_filterStep (t : Tree) (l : Nat) {k n : Nat} (hn : k + n ≤ 32) (acc : List Nat) :
    ((List.range' k n).map fun i => TreeIndex.node (i + 1) (l / 2 ^ (i + 1))).foldl
        (fun a p => (filterStep t a p).value) (acc, TreeIndex.node k (l / 2 ^ k)) =
      (acc ++ ((List.range' k n).filter (coveredAt t l)).map
          (fun i => TreeIndex.node (i + 1) (l / 2 ^ (i + 1))),
        TreeIndex.node (k + n) (l / 2 ^ (k + n))) := by
  induction n generalizing k acc with
  | zero => simp
  | succ n ih =>
    have hsib : tSibling (TreeIndex.node k (l / 2 ^ k)) = TreeIndex.node k (siblingOf (l / 2 ^ k)) :=
      tSibling_node (by omega) _
    have hstep : (filterStep t (acc, TreeIndex.node k (l / 2 ^ k))
          (TreeIndex.node (k + 1) (l / 2 ^ (k + 1)))).value =
        (acc ++ (if coveredAt t l k then [TreeIndex.node (k + 1) (l / 2 ^ (k + 1))] else []),
          TreeIndex.node (k + 1) (l / 2 ^ (k + 1))) := by
      rw [filterStep, Logged.value_bind, Logged.value_pure, hsib, coveredAt]
      cases (resolution t [] (TreeIndex.node k (siblingOf (l / 2 ^ k))) 1).value with
      | nil => simp
      | cons x xs => simp
    rw [List.range'_succ, List.map_cons, List.foldl_cons, hstep, ih (by omega), List.filter_cons]
    have hsum : k + 1 + n = k + (n + 1) := by omega
    rw [hsum]
    cases coveredAt t l k <;> simp

/-- **The filtered path**: the ancestors whose other side is covered. -/
theorem treeFilteredPath_value (hd : d ≤ 30) (hleaves : t.leaves = 2 ^ d) {l : Nat} (hl : l < 2 ^ d) :
    (treeFilteredPath t l).value = ((List.range d).filter (coveredAt t l)).map
      (fun i => TreeIndex.node (i + 1) (l / 2 ^ (i + 1))) := by
  have hfold := foldl_filterStep t l (show 0 + d ≤ 32 by omega) []
  rw [Nat.pow_zero, Nat.div_one, TreeIndex.node_zero, ← List.range_eq_range'] at hfold
  rw [treeFilteredPath, Logged.value_bind, Logged.value_pure, Logged.value_foldlM, hleaves,
    tDirectPath_leaf (by omega) hl, hfold]
  simp

/-- The levels of the filtered path. -/
def pathLevels (d : Nat) (t : Tree) (l : Nat) : List Nat := (List.range d).filter (coveredAt t l)

theorem inside_sibling {l i : Nat} (hl : l < 2 ^ d) (hi : i < d) :
    Inside d i (siblingOf (l / 2 ^ i)) := by
  have hup := inside_ancestor hl (show i + 1 ≤ d by omega)
  have hhalf : l / 2 ^ (i + 1) = l / 2 ^ i / 2 := by
    rw [Nat.div_div_eq_div_mul, ← Nat.pow_succ]
  obtain ⟨hleft, hright⟩ := inside_children hup
  have hdiv := siblingOf_div (l / 2 ^ i)
  rcases Nat.mod_two_eq_zero_or_one (siblingOf (l / 2 ^ i)) with heven | hodd
  · grind
  · grind

/-- A leaf is covered at a level if there is a leaf on the other side. -/
theorem coveredAt_iff (h : t.Shape d) {l i : Nat} (hl : l < 2 ^ d) (hi : i < d) :
    coveredAt t l i = true ↔ t.Has i (siblingOf (l / 2 ^ i)) := by
  have hdepth := h.depth
  have hres := resolution_ne_nil h (show i < maxDepth + 1 by rw [maxDepth]; omega)
    (inside_sibling hl hi) Nat.one_pos
  rw [coveredAt, resolution, Bool.not_eq_true', List.isEmpty_eq_false_iff, hres]

theorem has_both {l i : Nat} (hl : t.Occupied l) (hother : t.Has i (siblingOf (l / 2 ^ i))) :
    t.Has i (2 * (l / 2 ^ (i + 1))) ∧ t.Has i (2 * (l / 2 ^ (i + 1)) + 1) := by
  have hhalf : l / 2 ^ (i + 1) = l / 2 ^ i / 2 := by
    rw [Nat.div_div_eq_div_mul, ← Nat.pow_succ]
  have hself : t.Has i (l / 2 ^ i) := ⟨l, rfl, hl⟩
  rw [siblingOf] at hother
  split at hother
  · grind
  · grind

/-! ## Keys of parents -/

theorem candidateLoop_length {prk : Bytes} {fuel counter : Nat} {keys : Bytes × Bytes}
    (h : candidateLoop cr prk fuel counter = some keys) : keys.2.length = npk := by
  induction fuel generalizing counter with
  | zero => cases h
  | succ fuel ih =>
    rw [candidateLoop] at h
    split at h
    · obtain ⟨pub, hpub, rfl⟩ := Option.map_eq_some_iff.mp h
      exact cr.pub_length _ _ hpub
    · exact ih h

theorem nodeKeys_length {ps : Bytes} {keys : Bytes × Bytes} (h : nodeKeys cr ps = some keys) :
    keys.2.length = npk :=
  candidateLoop_length h

theorem Tree.Shape.retouch (h : t.Shape d) {k j : Nat} (hin : Inside d (k + 1) j)
    (htype : (t.node (k + 1) j).type = .parent) {n : Node} (hn : n.IsParent)
    (hunmerged : n.unmerged = (t.node (k + 1) j).unmerged) :
    (t.put (TreeIndex.node (k + 1) j) n).Shape d := by
  apply h.put_parent hin
  rcases h.parent k j hin with hzero | ⟨-, hl, hr, hnodup, hmem⟩
  · rw [hzero] at htype
    cases htype
  · rw [← hunmerged] at hnodup hmem
    exact Or.inr ⟨hn, hl, hr, hnodup, hmem⟩

theorem Tree.Shape.isParent (h : t.Shape d) {k j : Nat} (hin : Inside d (k + 1) j)
    (htype : (t.node (k + 1) j).type = .parent) : (t.node (k + 1) j).IsParent := by
  rcases h.parent k j hin with hzero | ⟨hp, -⟩
  · rw [hzero] at htype
    cases htype
  · exact hp

/-- A tree whose parents stay parents and whose leaves stay. -/
structure Tree.Grows (t t' : Tree) : Prop where
  parent : ∀ k j, (t.node k j).type = .parent → (t'.node k j).type = .parent
  leaf : ∀ l, t.Occupied l ↔ t'.Occupied l

theorem Tree.Grows.refl (t : Tree) : t.Grows t := ⟨fun _ _ h => h, fun _ => Iff.rfl⟩

theorem Tree.Grows.trans {t'' : Tree} (h : t.Grows t') (h' : t'.Grows t'') : t.Grows t'' :=
  ⟨fun k j hp => h'.parent k j (h.parent k j hp), fun l => (h.leaf l).trans (h'.leaf l)⟩

theorem grows_put_parent (t : Tree) (k j : Nat) {n : Node} (hn : n.type = .parent) :
    t.Grows (t.put (TreeIndex.node (k + 1) j) n) := by
  refine ⟨?_, fun l => (occupied_put_parent t k j n l).symm⟩
  intro k' j' hp
  rw [Mls.node_put]
  split
  · exact hn
  · exact hp

/-- A parent with a new key, where a leaf meets one on the other side. -/
theorem newParent_shape (h : t.Shape d) {l i : Nat} (hl : t.Occupied l) (hi : i < d)
    (hother : t.Has i (siblingOf (l / 2 ^ i))) {enc : Bytes} (henc : enc.length = npk)
    (priv : Option Bytes) :
    (t.put (TreeIndex.node (i + 1) (l / 2 ^ (i + 1)))
      { t.node (i + 1) (l / 2 ^ (i + 1)) with type := .parent, enc := enc, priv := priv }).Shape d := by
  have hin := inside_ancestor (h.occupied_lt hl) (show i + 1 ≤ d by omega)
  obtain ⟨hleft, hright⟩ := has_both hl hother
  apply h.put_parent hin
  rcases h.parent i _ hin with hzero | ⟨hp, -, -, hnodup, hmem⟩
  · rw [hzero]
    refine Or.inr ⟨?_, hleft, hright, List.nodup_nil, fun u hu => absurd hu List.not_mem_nil⟩
    rw [isParent_iff]
    exact ⟨henc, Nat.zero_le _, rfl, rfl, rfl, rfl⟩
  · rw [isParent_iff] at hp
    refine Or.inr ⟨?_, hleft, hright, hnodup, hmem⟩
    rw [isParent_iff]
    exact ⟨henc, hp.2.1, rfl, hp.2.2.2⟩

/-! ## Creating a path -/

theorem Try.parse_ok {α : Type} {e : String} {m : Parser α} {r r' : Rd} {a : α} :
    (Try.parse e m r).value = .ok (a, r') ↔ m r = (some a, r') := by
  rw [Try.parse, Attempt.ok_require, Option.map_eq_some_iff]
  constructor
  · grind
  · intro h
    rw [h]
    exact ⟨a, rfl, rfl⟩

theorem foldlM_pathNode (h : t.Shape d) {l : Nat} (hl : t.Occupied l) {is : List Nat}
    (his : ∀ i ∈ is, i < d ∧ t.Has i (siblingOf (l / 2 ^ i))) {ps cs : Bytes}
    (hfold : ((is.map fun i => TreeIndex.node (i + 1) (l / 2 ^ (i + 1))).foldlM (pathNodeStep cr)
      (t, ps)).value = .ok (t', cs)) :
    t'.Shape d ∧ t.Grows t' ∧
      ∀ i ∈ is, (t'.node (i + 1) (l / 2 ^ (i + 1))).type = .parent := by
  induction is generalizing t ps with
  | nil =>
    cases hfold
    exact ⟨h, .refl _, fun i hi => absurd hi List.not_mem_nil⟩
  | cons i is ih =>
    obtain ⟨acc, hstep, hfold⟩ := Attempt.ok_bind.mp hfold
    obtain ⟨n, hn, hstep⟩ := Attempt.ok_bind.mp hstep
    obtain rfl := Attempt.ok_lift.mp hn
    obtain ⟨keys, hkeys, hstep⟩ := Attempt.ok_bind.mp hstep
    obtain ⟨t₁, ht₁, hstep⟩ := Attempt.ok_bind.mp hstep
    obtain rfl := Attempt.ok_lift.mp ht₁
    obtain rfl := Attempt.ok_pure.mp hstep
    obtain ⟨hi, hother⟩ := his i List.mem_cons_self
    have henc := nodeKeys_length (Attempt.ok_require.mp hkeys)
    have hshape := newParent_shape h hl hi hother henc (some keys.1)
    have hgrows := grows_put_parent t i (l / 2 ^ (i + 1))
      (n := { t.node (i + 1) (l / 2 ^ (i + 1)) with
        type := .parent, enc := keys.2, priv := some keys.1 }) rfl
    obtain ⟨hrest, hgrows', hparents⟩ := ih hshape ((hgrows.leaf l).mp hl) (by
      intro i' hi'
      obtain ⟨hlt, a, ha, haocc⟩ := his i' (List.mem_cons_of_mem _ hi')
      exact ⟨hlt, a, ha, (hgrows.leaf a).mp haocc⟩) hfold
    refine ⟨hrest, hgrows.trans hgrows', ?_⟩
    intro i' hi'
    rcases List.mem_cons.mp hi' with rfl | hi'
    · apply hgrows'.parent
      rw [h.node_put (inside_ancestor (h.occupied_lt hl) (show i' + 1 ≤ d by omega)),
        if_pos ⟨rfl, rfl⟩]
    · exact hparents i' hi'

/-- The parents of a path keep their types when their parent hashes are set. -/
theorem treeSetParentHashes_shape (cr : Crypto) (h : t.Shape d) {l : Nat} (hl : l < 2 ^ d) {is : List Nat}
    (his : ∀ i ∈ is, i < d ∧ (t.node (i + 1) (l / 2 ^ (i + 1))).type = .parent) :
    (treeSetParentHashes cr t l (is.map fun i => TreeIndex.node (i + 1) (l / 2 ^ (i + 1)))).value.1.Shape
        d ∧
      t.Grows (treeSetParentHashes cr t l
        (is.map fun i => TreeIndex.node (i + 1) (l / 2 ^ (i + 1)))).value.1 := by
  have hloop : Logged.Meets (fun _ => True)
      (fun acc : Tree × Bytes => acc.1.Shape d ∧ t.Grows acc.1 ∧ acc.2.length ≤ nh)
      ((is.map fun i => TreeIndex.node (i + 1) (l / 2 ^ (i + 1))).reverse.foldlM
        (parentHashStep cr l) (t, [])) := by
    apply Logged.Meets.foldlM ⟨h, .refl t, Nat.zero_le _⟩
    intro acc hacc x hx
    obtain ⟨hshape, hgrows, hlen⟩ := hacc
    obtain ⟨i, hi, rfl⟩ := List.mem_map.mp (List.mem_reverse.mp hx)
    obtain ⟨hlt, htype⟩ := his i hi
    have hin := inside_ancestor hl (show i + 1 ≤ d by omega)
    have hparent := hgrows.parent _ _ htype
    have hold := hshape.isParent hin hparent
    refine ⟨fun _ _ => trivial, ?_, ?_, (cr.sha256_length _).le⟩
    · apply hshape.retouch hin hparent (n := { acc.1.node (i + 1) (l / 2 ^ (i + 1)) with
        ph := acc.2 }) ?_ rfl
      rw [isParent_iff] at hold ⊢
      exact ⟨hold.1, hlen, hold.2.2⟩
    · exact hgrows.trans (grows_put_parent acc.1 i (l / 2 ^ (i + 1))
        (n := { acc.1.node (i + 1) (l / 2 ^ (i + 1)) with ph := acc.2 }) hparent)
  obtain ⟨hshape, hgrows, -⟩ := hloop.2
  exact ⟨hshape, hgrows⟩

theorem Tree.Ok.of_occupied (h : t.Ok d) (hshape : t'.Shape d) (hocc : ∀ l, t.Occupied l → t'.Occupied l) :
    t'.Ok d := by
  obtain ⟨r, hr, hhalf, hrocc⟩ := h.right
  exact ⟨hshape, r, hr, hhalf, hocc r hrocc⟩

theorem pathLevels_has (h : t.Shape d) {l : Nat} (hl : l < 2 ^ d) :
    ∀ i ∈ pathLevels d t l, i < d ∧ t.Has i (siblingOf (l / 2 ^ i)) := by
  intro i hi
  obtain ⟨hrange, hcovered⟩ := List.mem_filter.mp hi
  have hlt := List.mem_range.mp hrange
  exact ⟨hlt, (coveredAt_iff h hl hlt).mp hcovered⟩

/-- **A committer's own path** keeps the shape. -/
theorem createUpdatePath_ok {rnd : Entropy} {idn : Identity} {g : Group} {exclude : List Nat}
    {pc : PathContext} {p : Path} (h : g.tree.Ok d) (hme : g.tree.Occupied g.me)
    (hpath : (createUpdatePath cr rnd idn g exclude pc).value = .ok p) : p.tree.Ok d := by
  have hl := h.toShape.occupied_lt hme
  have hlevels := treeFilteredPath_value h.depth h.leaves hl
  obtain ⟨fdp, hfdp, hpath⟩ := Attempt.ok_bind.mp hpath
  obtain rfl := Attempt.ok_lift.mp hfdp
  obtain ⟨t₁, ht₁, hpath⟩ := Attempt.ok_bind.mp hpath
  obtain rfl := Attempt.ok_lift.mp ht₁
  obtain ⟨leafKeys, -, hpath⟩ := Attempt.ok_bind.mp hpath
  obtain ⟨⟨t₂, cs⟩, hnodes, hpath⟩ := Attempt.ok_bind.mp hpath
  obtain ⟨⟨t₃, leafPh⟩, hhashes, hpath⟩ := Attempt.ok_bind.mp hpath
  obtain ⟨⟨v, r⟩, hleaf, hpath⟩ := Attempt.ok_bind.mp hpath
  obtain ⟨t₄, ht₄, hpath⟩ := Attempt.ok_bind.mp hpath
  obtain rfl := Attempt.ok_lift.mp ht₄
  obtain ⟨th, -, hpath⟩ := Attempt.ok_bind.mp hpath
  obtain ⟨nodes, -, hpath⟩ := Attempt.ok_bind.mp hpath
  obtain rfl := Attempt.ok_pure.mp hpath
  obtain ⟨hblank, hocc⟩ := h.toShape.blankPath hl
  rw [hlevels] at hnodes hhashes
  obtain ⟨hshape₂, hgrows₂, hparents⟩ := foldlM_pathNode hblank ((hocc g.me).mpr hme) (by
    intro i hi
    obtain ⟨hlt, a, ha, haocc⟩ := pathLevels_has h.toShape hl i hi
    exact ⟨hlt, a, ha, (hocc a).mpr haocc⟩) hnodes
  obtain ⟨hshape₃, hgrows₃⟩ := treeSetParentHashes_shape cr hshape₂ hl
    fun i hi => ⟨(pathLevels_has h.toShape hl i hi).1, hparents i hi⟩
  have ht₃ : t₃ = (treeSetParentHashes cr t₂ g.me ((pathLevels d g.tree g.me).map
      fun i => TreeIndex.node (i + 1) (g.me / 2 ^ (i + 1)))).value.1 :=
    (congrArg Prod.fst (Attempt.ok_lift.mp hhashes)).symm
  rw [← ht₃] at hshape₃ hgrows₃
  have hnew : ({ nodeSetLeaf v with priv := some leafKeys.1 } : Node).IsLeaf :=
    ⟨v, rfl, parseLeaf_parsed (Try.parse_ok.mp hleaf)⟩
  apply h.of_occupied (hshape₃.put_leaf hl hnew)
  intro l' hl'
  apply (occupied_put_leaf hshape₃ hl rfl l').mpr
  exact Or.inr ((hgrows₃.leaf l').mp ((hgrows₂.leaf l').mp ((hocc l').mpr hl')))

/-! ## Following a path -/

theorem rFixed_length {r r' : Rd} {n : Nat} {p : Bytes} (h : rFixed r n = (some p, r')) :
    p.length = n := by
  rw [rFixed] at h
  split at h
  · split at h
    · cases h
      assumption
    · cases h
  · cases h

/-- The key of a node on a path, or the one that was read in its place. -/
theorem Tree.Shape.enc_length (h : t.Shape d) {k j : Nat} (hin : Inside d (k + 1) j) (r : Rd) :
    ((rFixed r npk).1.getD (t.node (k + 1) j).enc).length = npk := by
  rcases hkey : rFixed r npk with ⟨_ | key, r'⟩
  · rcases h.parent k j hin with hzero | ⟨hp, -⟩
    · rw [hzero]
      rfl
    · exact hp.1
  · exact rFixed_length hkey

theorem foldl_readNode (h : t.Shape d) {l : Nat} (hl : t.Occupied l) {is : List Nat}
    (his : ∀ i ∈ is, i < d ∧ t.Has i (siblingOf (l / 2 ^ i))) {nodes rest : Rd} {starts starts' : List Rd}
    (hfold : (is.map fun i => TreeIndex.node (i + 1) (l / 2 ^ (i + 1))).foldl
      (fun acc x => (readNodeStep acc x).value) (t, nodes, starts) = (t', rest, starts')) :
    starts'.length ≤ starts.length + is.length ∧
      (starts'.length = starts.length + is.length → t'.Shape d ∧ t.Grows t' ∧
        ∀ i ∈ is, (t'.node (i + 1) (l / 2 ^ (i + 1))).type = .parent) := by
  induction is generalizing t nodes starts with
  | nil =>
    cases hfold
    exact ⟨le_rfl, fun _ => ⟨h, .refl _, fun i hi => absurd hi List.not_mem_nil⟩⟩
  | cons i is ih =>
    rw [List.map_cons, List.foldl_cons, readNodeStep] at hfold
    rw [List.length_cons]
    by_cases hstop : nodes.err = true ∨ nodes.rest = []
    · -- The message was at its end before.
      rw [if_pos hstop] at hfold
      obtain ⟨hlen, -⟩ := ih h hl (fun i' hi' => his i' (List.mem_cons_of_mem _ hi')) hfold
      refine ⟨by omega, ?_⟩
      intro hlength
      omega
    · rw [if_neg hstop] at hfold
      obtain ⟨hi, hother⟩ := his i List.mem_cons_self
      have hin := inside_ancestor (h.occupied_lt hl) (show i + 1 ≤ d by omega)
      have hshape := newParent_shape h hl hi hother (h.enc_length hin nodes)
        (t.node (i + 1) (l / 2 ^ (i + 1))).priv
      have hgrows := grows_put_parent t i (l / 2 ^ (i + 1))
        (n := { t.node (i + 1) (l / 2 ^ (i + 1)) with
          type := .parent, enc := (rFixed nodes npk).1.getD (t.node (i + 1) (l / 2 ^ (i + 1))).enc }) rfl
      obtain ⟨hlen, hdone⟩ := ih hshape ((hgrows.leaf l).mp hl) (by
        intro i' hi'
        obtain ⟨hlt, a, ha, haocc⟩ := his i' (List.mem_cons_of_mem _ hi')
        exact ⟨hlt, a, ha, (hgrows.leaf a).mp haocc⟩) hfold
      rw [List.length_append, List.length_singleton] at hlen hdone
      refine ⟨by omega, ?_⟩
      intro hlength
      obtain ⟨hrest, hgrows', hparents⟩ := hdone (by omega)
      refine ⟨hrest, hgrows.trans hgrows', ?_⟩
      intro i' hi'
      rcases List.mem_cons.mp hi' with rfl | hi'
      · apply hgrows'.parent
        rw [h.node_put hin, if_pos ⟨rfl, rfl⟩]
      · exact hparents i' hi'

theorem foldl_pathKey_false (cr : Crypto) (xs : List Nat) (acc : Tree × Bytes × Bool) (hacc : acc.2.2 = false) :
    (xs.foldl (fun acc x => (pathKeyStep cr acc x).value) acc).2.2 = false := by
  induction xs generalizing acc with
  | nil => exact hacc
  | cons x xs ih =>
    apply ih
    obtain ⟨t, ps, ok⟩ := acc
    subst hacc
    rfl

theorem foldl_pathKey (h : t.Shape d) {xs : List Nat} (hxs : ∀ x ∈ xs, ∃ k j, Inside d (k + 1) j ∧
    x = TreeIndex.node (k + 1) j) {ps cs : Bytes} {ok : Bool}
    (hfold : xs.foldl (fun acc x => (pathKeyStep cr acc x).value) (t, ps, ok) = (t', cs, true)) :
    ok = true ∧ t'.Shape d ∧ t.Grows t' := by
  induction xs generalizing t ps ok with
  | nil =>
    cases hfold
    exact ⟨rfl, h, .refl _⟩
  | cons x xs ih =>
    obtain ⟨k, j, hin, rfl⟩ := hxs x List.mem_cons_self
    rw [List.foldl_cons] at hfold
    by_cases hparent : (t.node (k + 1) j).type = .parent
    · have hold := h.isParent hin hparent
      have hshape := h.retouch hin hparent
        (n := { t.node (k + 1) j with priv := some ((nodeKeys cr ps).getD ([], [])).1 }) (by
          exact hold) rfl
      have hgrows := grows_put_parent t k j
        (n := { t.node (k + 1) j with priv := some ((nodeKeys cr ps).getD ([], [])).1 }) hparent
      obtain ⟨hok, hrest, hgrows'⟩ := ih hshape
        (fun x hx => hxs x (List.mem_cons_of_mem _ hx)) hfold
      simp only [Bool.and_eq_true] at hok
      exact ⟨hok.1.1, hrest, hgrows.trans hgrows'⟩
    · have hno : (pathKeyStep cr (t, ps, ok) (TreeIndex.node (k + 1) j)).value.2.2 = false := by
        change (ok && decide ((t.node (k + 1) j).type = .parent) && _) = false
        simp [hparent]
      have hlast := foldl_pathKey_false cr xs _ hno
      rw [hfold] at hlast
      cases hlast

theorem pathLevels_nodes (t : Tree) {l : Nat} (hl : l < 2 ^ d) :
    ∀ x ∈ (pathLevels d t l).map fun i => TreeIndex.node (i + 1) (l / 2 ^ (i + 1)),
      ∃ k j, Inside d (k + 1) j ∧ x = TreeIndex.node (k + 1) j := by
  intro x hx
  obtain ⟨i, hi, rfl⟩ := List.mem_map.mp hx
  have hlt := List.mem_range.mp (List.mem_filter.mp hi).1
  exact ⟨i, _, inside_ancestor hl (by omega), rfl⟩

/-- **A path that is followed** keeps the shape. -/
theorem applyUpdatePath_ok {g : Group} {sender : Nat} {r r' : Rd} {exclude : List Nat}
    {pc : PathContext} {cs : Bytes} (h : g.tree.Ok d)
    (hpath : (applyUpdatePath cr g sender r exclude pc).value = .ok (t', cs, r')) : t'.Ok d := by
  obtain ⟨⟨v, r₁⟩, hleaf, hpath⟩ := Attempt.ok_bind.mp hpath
  obtain ⟨_, -, hpath⟩ := Attempt.ok_bind.mp hpath
  obtain ⟨_, -, hpath⟩ := Attempt.ok_bind.mp hpath
  obtain ⟨n, hn, hpath⟩ := Attempt.ok_bind.mp hpath
  obtain rfl := Attempt.ok_lift.mp hn
  obtain ⟨_, htype, hpath⟩ := Attempt.ok_bind.mp hpath
  obtain ⟨fdp, hfdp, hpath⟩ := Attempt.ok_bind.mp hpath
  obtain rfl := Attempt.ok_lift.mp hfdp
  obtain ⟨t₁, ht₁, hpath⟩ := Attempt.ok_bind.mp hpath
  obtain rfl := Attempt.ok_lift.mp ht₁
  obtain ⟨t₂, ht₂, hpath⟩ := Attempt.ok_bind.mp hpath
  obtain rfl := Attempt.ok_lift.mp ht₂
  obtain ⟨⟨t₃, rest, starts⟩, hnodes, hpath⟩ := Attempt.ok_bind.mp hpath
  obtain ⟨_, hread, hpath⟩ := Attempt.ok_bind.mp hpath
  obtain ⟨⟨t₄, leafPh⟩, hhashes, hpath⟩ := Attempt.ok_bind.mp hpath
  obtain ⟨_, -, hpath⟩ := Attempt.ok_bind.mp hpath
  obtain ⟨th, -, hpath⟩ := Attempt.ok_bind.mp hpath
  obtain ⟨⟨x, start⟩, -, hpath⟩ := Attempt.ok_bind.mp hpath
  obtain ⟨ps, -, hpath⟩ := Attempt.ok_bind.mp hpath
  obtain ⟨⟨t₅, cs', ok⟩, hkeys, hpath⟩ := Attempt.ok_bind.mp hpath
  obtain ⟨_, hok, hpath⟩ := Attempt.ok_bind.mp hpath
  obtain ⟨rfl, rfl, rfl⟩ := Attempt.ok_pure.mp hpath
  have hsender : g.tree.Occupied sender := by
    have := Attempt.ok_guard.mp htype
    rw [Tree.Occupied, Tree.node, TreeIndex.node_zero]
    simpa using this
  have hl := h.toShape.occupied_lt hsender
  have hlevels := treeFilteredPath_value h.depth h.leaves hl
  change (treeFilteredPath g.tree sender).value = (pathLevels d g.tree sender).map _ at hlevels
  rw [hlevels] at hnodes hread hhashes hkeys
  -- The path is blank and the leaf is new.
  obtain ⟨hblank, hocc⟩ := h.toShape.blankPath hl
  have hnew : (nodeSetLeaf v).IsLeaf := ⟨v, rfl, parseLeaf_parsed (Try.parse_ok.mp hleaf)⟩
  have hshape₂ := hblank.put_leaf hl hnew
  have hocc₂ : ∀ l, g.tree.Occupied l →
      ((blankPath g.tree sender).value.put (2 * sender) (nodeSetLeaf v)).Occupied l := by
    intro l hl'
    exact (occupied_put_leaf hblank hl rfl l).mpr (Or.inr ((hocc l).mpr hl'))
  -- The nodes have new keys.
  have hfold := Attempt.ok_lift.mp hnodes
  rw [Logged.value_foldlM] at hfold
  obtain ⟨-, hdone⟩ := foldl_readNode hshape₂ (hocc₂ sender hsender) (by
    intro i hi
    obtain ⟨hlt, a, ha, haocc⟩ := pathLevels_has h.toShape hl i hi
    exact ⟨hlt, a, ha, hocc₂ a haocc⟩) hfold
  have hlength := Attempt.ok_guard.mp hread
  simp only [List.length_map, decide_eq_true_eq] at hlength
  obtain ⟨hshape₃, hgrows₃, hparents⟩ := hdone (by simpa using hlength.2)
  -- The hashes and the private keys.
  obtain ⟨hshape₄, hgrows₄⟩ := treeSetParentHashes_shape cr hshape₃ hl
    fun i hi => ⟨(pathLevels_has h.toShape hl i hi).1, hparents i hi⟩
  rw [congrArg Prod.fst (Attempt.ok_lift.mp hhashes)] at hshape₄ hgrows₄
  have hfold₅ := Attempt.ok_lift.mp hkeys
  rw [setPathKeys, Logged.value_foldlM, Attempt.ok_guard.mp hok] at hfold₅
  obtain ⟨-, hshape₅, hgrows₅⟩ := foldl_pathKey hshape₄
    (fun x hx => pathLevels_nodes g.tree hl x (List.mem_of_mem_drop hx)) hfold₅
  apply h.of_occupied hshape₅
  intro l' hl'
  exact (hgrows₅.leaf l').mp ((hgrows₄.leaf l').mp ((hgrows₃.leaf l').mp (hocc₂ l' hl')))

end Mls
