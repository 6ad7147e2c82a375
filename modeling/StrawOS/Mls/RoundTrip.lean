import StrawOS.Mls.UpdateShape

/-!
# Trees in messages

`tree_serialize` leaves the blank nodes at the end out, and `tree_parse` finds the
size of the tree again: the last node that is written is a leaf in the right half.

The vector of the nodes has a length in front, for which `w_varint` has thirty bits.
A longer one is written all the same.
-/

namespace Mls

open TreeIndex

variable {d : Nat} {t t' : Tree} {cr : Crypto}

/-- A node without its private key. -/
def Node.erased (n : Node) : Node := { n with priv := none }

/-- A tree without its private keys. -/
def Tree.erased (t : Tree) : Tree := { t with n := t.n.map Node.erased }

/-- The nodes that `tree_serialize` writes. -/
def Tree.written (t : Tree) : List Node := t.n.rdropWhile fun n => n.type = .blank

/-- The bytes of the nodes that are written. -/
def Tree.encodedSize (t : Tree) : Nat := (t.written.map fun n => (wNode n).length).sum

/-! ## One node -/

/-- A node that can stand at an index. -/
def Node.FitsAt (i : Nat) (n : Node) : Prop :=
  n = Node.zero ∨ (n.IsLeaf ∧ i % 2 = 0) ∨
    (n.IsParent ∧ i % 2 = 1 ∧ ∀ l ∈ n.unmerged, l < 2 ^ 32)

theorem parseWords_run {us : List Nat} (h : ∀ u ∈ us, u < 2 ^ 32) :
    parseWords us.length (rd (us.flatMap wU32)) = (some us, rd []) := by
  induction us with
  | nil => rfl
  | cons u us ih =>
    rw [List.length_cons, parseWords, List.flatMap_cons, rd,
      Parser.bind_run (Parser.u32_run (h u List.mem_cons_self) _)]
    have hrest := ih fun u' hu' => h u' (List.mem_cons_of_mem _ hu')
    rw [rd] at hrest
    rw [Parser.bind_run hrest]
    rfl

theorem length_flatMap_wU32 (us : List Nat) : (us.flatMap wU32).length = us.length * 4 := by
  induction us with
  | nil => rfl
  | cons u us ih =>
    rw [List.flatMap_cons, List.length_append, ih, List.length_cons]
    change 4 + us.length * 4 = _
    omega

theorem LeafView.Parsed.run {v : LeafView} (h : v.Parsed) (rest : Bytes) :
    parseLeaf ⟨v.raw ++ rest, false⟩ = (some v, ⟨rest, false⟩) := by
  have hread : parseLeaf ⟨v.raw, false⟩ = (some v, ⟨[], false⟩) := h
  have hmore := reads_parseLeaf.more v.raw rest (by rw [hread])
  rw [hread] at hmore
  exact hmore

/-- **A node** that was written is read. -/
theorem parseNode_run {i : Nat} {n : Node} (hn : n.FitsAt i) (hlen : (wNode n).length < maxVector)
    (rest : Bytes) : parseNode i ⟨wNode n ++ rest, false⟩ = (some n.erased, ⟨rest, false⟩) := by
  rw [parseNode]
  rcases hn with rfl | ⟨⟨v, hv, hparsed⟩, heven⟩ | ⟨⟨henc, hph, hp⟩, hodd, hwords⟩
  · rfl
  · have htype : n.type = .leaf := by
      have := congrArg Node.type hv
      exact this
    have hraw : n.raw = v.raw := by
      have := congrArg Node.raw hv
      exact this
    rw [wNode, htype]
    rw [List.append_assoc, List.append_assoc, Parser.bind_run (Parser.u8_run 1 _), if_neg (by decide),
      Parser.bind_run (Parser.u8_run 1 _), if_pos (by decide),
      Parser.bind_run (Parser.check_run (by simpa using heven) _), hraw,
      Parser.bind_run (hparsed.run rest)]
    exact congrArg (fun m => (some m, (⟨rest, false⟩ : Rd))) hv.symm
  · have htype : n.type = .parent := by
      have := congrArg Node.type hp
      exact this
    have hwidth := length_flatMap_wU32 n.unmerged
    rw [wNode, htype] at hlen ⊢
    have hsmall : (n.unmerged.flatMap wU32).length < maxVector := by
      rw [wParentNode] at hlen
      simp only [List.length_append] at hlen
      omega
    have hsub : wVarint (n.unmerged.length * 4) ++ n.unmerged.flatMap wU32 =
        wOpaque (n.unmerged.flatMap wU32) := by
      rw [wOpaque, hwidth]
    have hcount : (n.unmerged.flatMap wU32).length / 4 = n.unmerged.length := by omega
    rw [List.append_assoc, List.append_assoc, Parser.bind_run (Parser.u8_run 1 _), if_neg (by decide),
      Parser.bind_run (Parser.u8_run 2 _), if_neg (by decide), if_pos (by decide),
      Parser.bind_run (Parser.check_run (by simpa using hodd) _), wParentNode,
      List.append_assoc _ (wVarint _), hsub, List.append_assoc, List.append_assoc,
      Parser.bind_run (Parser.fixed_run henc (by decide) _),
      Parser.bind_run (Parser.vector_run (lt_of_le_of_lt hph (by decide)) _),
      Parser.bind_run (Parser.check_run (by simpa using hph) _),
      Parser.bind_run (Parser.sub_run hsmall rest)]
    simp only [rd, hcount]
    have hparse := parseWords_run hwords
    rw [rd] at hparse
    rw [hparse]
    exact congrArg (fun m => (some m, (⟨rest, false⟩ : Rd))) hp.symm

theorem wNode_pos (n : Node) : 0 < (wNode n).length := by
  rw [wNode]
  split
  · exact Nat.one_pos
  · exact Nat.succ_pos _
  · exact Nat.succ_pos _

/-- **The nodes** that were written are read. -/
theorem parseNodes_run {ns : List Node} {i fuel : Nat}
    (hfit : ∀ k (hk : k < ns.length), (ns.get ⟨k, hk⟩).FitsAt (i + k))
    (hlen : ∀ n ∈ ns, (wNode n).length < maxVector) (hfuel : ns.length < fuel) :
    parseNodes fuel i (rd (ns.flatMap wNode)) = (some (ns.map Node.erased), rd []) := by
  induction ns generalizing i fuel with
  | nil =>
    obtain ⟨fuel, rfl⟩ : ∃ f, fuel = f + 1 := ⟨fuel - 1, by omega⟩
    rfl
  | cons n ns ih =>
    obtain ⟨fuel, rfl⟩ : ∃ f, fuel = f + 1 := ⟨fuel - 1, by omega⟩
    rw [List.length_cons] at hfuel
    have hpos := wNode_pos n
    have hne : ¬ ((rd ((n :: ns).flatMap wNode)).err = true ∨ (rd ((n :: ns).flatMap wNode)).rest = []) := by
      rintro (herr | hrest)
      · cases herr
      · have hzero := congrArg List.length hrest
        rw [rd, List.flatMap_cons, List.length_append, List.length_nil] at hzero
        omega
    have hfirst : parseNode i ⟨wNode n ++ ns.flatMap wNode, false⟩ =
        (some n.erased, ⟨ns.flatMap wNode, false⟩) :=
      parseNode_run (hfit 0 (by simp)) (hlen n List.mem_cons_self) (ns.flatMap wNode)
    have hrest := @ih (i + 1) fuel (by
      intro k hk
      have := hfit (k + 1) (by rw [List.length_cons]; omega)
      rw [show i + 1 + k = i + (k + 1) by omega]
      exact this) (fun m hm => hlen m (List.mem_cons_of_mem _ hm)) (by omega)
    rw [parseNodes]
    beta_reduce
    rw [if_neg hne, List.flatMap_cons, rd, Parser.bind_run hfirst]
    rw [rd] at hrest
    rw [Parser.bind_run hrest]
    rfl

/-! ## What is left out -/

theorem Tree.Shape.fitsAt (h : t.Shape d) {x : Nat} (hx : x < t.n.length) :
    (t.n.get ⟨x, hx⟩).FitsAt x := by
  have hget : t.n.get ⟨x, hx⟩ = t.n.getD x Node.zero := by
    rw [List.getD_eq_getElem?_getD, List.getElem?_eq_getElem hx]
    rfl
  rw [hget]
  rw [h.length] at hx
  obtain ⟨k, j, hin, rfl⟩ := exists_inside hx
  change (t.node k j).FitsAt _
  have hdepth := h.depth
  have hpow : 2 ^ d ≤ 2 ^ 30 := Nat.pow_le_pow_right (by omega) hdepth
  cases k with
  | zero =>
    rcases h.leaf j (by simpa using hin.2) with hzero | hleaf
    · exact Or.inl hzero
    · exact Or.inr (Or.inl ⟨hleaf, by rw [TreeIndex.node_zero]; omega⟩)
  | succ k =>
    rcases h.parent k j hin with hzero | ⟨hp, -, -, -, hmem⟩
    · exact Or.inl hzero
    · refine Or.inr (Or.inr ⟨hp, node_odd k j, ?_⟩)
      intro l hl
      have := h.occupied_lt (hmem l hl).2
      omega

/-- A node of a tree that is not blank has a leaf at its index or behind it. -/
theorem Tree.Shape.leaf_behind (h : t.Shape d) {x : Nat}
    (hx : (t.n.getD x Node.zero).type ≠ .blank) : ∃ l, x ≤ 2 * l ∧ t.Occupied l ∧ (x % 2 = 1 → x < 2 * l) := by
  have hlt : x < 2 ^ (d + 1) - 1 := by
    rw [← h.length]
    by_contra hge
    rw [List.getD_eq_getElem?_getD, List.getElem?_eq_none (by omega)] at hx
    exact hx rfl
  obtain ⟨k, j, hin, rfl⟩ := exists_inside hlt
  change (t.node k j).type ≠ .blank at hx
  cases k with
  | zero =>
    refine ⟨j, by rw [TreeIndex.node_zero], ?_, ?_⟩
    · by_contra hno
      exact hx ((h.blank_iff (by simpa using hin.2)).mpr hno)
    · intro hodd
      rw [TreeIndex.node_zero] at hodd
      omega
  | succ k =>
    rcases h.parent k j hin with hzero | ⟨-, -, ⟨l, hl, hocc⟩, -⟩
    · rw [hzero] at hx
      exact absurd rfl hx
    · -- The leaves of the right child stand behind the parent.
      have hpos := Nat.two_pow_pos k
      have hge : (2 * j + 1) * 2 ^ k ≤ l := by
        rw [← hl]
        exact Nat.div_mul_le_self l (2 ^ k)
      have hnode : TreeIndex.node (k + 1) j < 2 * ((2 * j + 1) * 2 ^ k) := by
        have e1 : 2 ^ (k + 1 + 1) * j = 4 * (j * 2 ^ k) := by
          ring
        have e2 : 2 * ((2 * j + 1) * 2 ^ k) = 4 * (j * 2 ^ k) + 2 * 2 ^ k := by ring
        have e3 : 2 ^ (k + 1) = 2 * 2 ^ k := by rw [Nat.pow_succ, Nat.mul_comm]
        rw [TreeIndex.node, e1, e2, e3]
        omega
      exact ⟨l, by omega, hocc, fun _ => by omega⟩

theorem written_append (t : Tree) :
    t.n = t.written ++ t.n.rtakeWhile fun n => n.type = .blank :=
  List.rdropWhile_append_rtakeWhile.symm

theorem lt_written {x : Nat} (hx : (t.n.getD x Node.zero).type ≠ .blank) : x < t.written.length := by
  by_contra hge
  apply hx
  rw [written_append t, List.getD_eq_getElem?_getD, List.getElem?_append_right (by omega)]
  rcases hget : (t.n.rtakeWhile fun n => n.type = .blank)[x - t.written.length]? with _ | n
  · rfl
  · have hmem := List.mem_of_getElem? hget
    simpa using List.mem_rtakeWhile_imp hmem

/-- **The last node** that is written is a leaf of the right half. -/
theorem Tree.Ok.written_length (h : t.Ok d) :
    ∃ l, t.written.length = 2 * l + 1 ∧ 2 ^ d ≤ 2 * l + 1 ∧ l < 2 ^ d := by
  have hwritten : ∀ l, t.Occupied l → 2 * l < t.written.length := by
    intro l hl
    apply lt_written
    change (t.node 0 l).type ≠ .blank
    rw [hl]
    decide
  obtain ⟨r, hr, hhalf, hrocc⟩ := h.right
  have hpos := hwritten r hrocc
  have hne : t.written ≠ [] := List.ne_nil_of_length_pos (by omega)
  -- The last node is not blank, and no leaf is behind it.
  have hlast : (t.n.getD (t.written.length - 1) Node.zero).type ≠ .blank := by
    have hnot : ¬ decide ((t.written.getLast hne).type = .blank) = true :=
      List.rdropWhile_last_not (fun n : Node => (n.type = .blank : Bool)) t.n hne
    rw [List.getLast_eq_getElem] at hnot
    rw [written_append t, List.getD_eq_getElem?_getD, List.getElem?_append_left (by omega),
      List.getElem?_eq_getElem (by omega)]
    simpa using hnot
  obtain ⟨l, hle, hocc, hodd⟩ := h.toShape.leaf_behind hlast
  have hlt := hwritten l hocc
  exact ⟨l, by omega, by omega, h.toShape.occupied_lt hocc⟩

theorem Tree.Shape.eq_written (h : t.Shape d) :
    t.n = t.written ++ List.replicate (2 ^ (d + 1) - 1 - t.written.length) Node.zero := by
  have hlength := congrArg List.length (written_append t)
  rw [List.length_append, h.length] at hlength
  have hzero : (t.n.rtakeWhile fun n => n.type = .blank) =
      List.replicate (2 ^ (d + 1) - 1 - t.written.length) Node.zero := by
    refine List.eq_replicate_iff.mpr ⟨by omega, ?_⟩
    intro n hn
    have htype : n.type = .blank := by simpa using List.mem_rtakeWhile_imp hn
    obtain ⟨x, hx⟩ := List.get_of_mem ((List.rtakeWhile_suffix _ t.n).subset hn)
    rcases h.fitsAt x.isLt with hz | ⟨⟨v, hv, -⟩, -⟩ | ⟨⟨-, -, hp⟩, -⟩
    · rw [← hx]
      exact hz
    · have hleaf : (t.n.get x).type = .leaf := congrArg Node.type hv
      rw [hx, htype] at hleaf
      cases hleaf
    · grind
  conv_lhs => rw [written_append t, hzero]

theorem leavesLoop_run {count fuel k : Nat} (hk : k ≤ d) (hfuel : d ≤ k + fuel) (hge : 2 ^ d ≤ count)
    (hlt : count < 2 ^ (d + 1)) : leavesLoop count fuel (2 ^ k) = 2 ^ d := by
  induction fuel generalizing k with
  | zero =>
    obtain rfl : k = d := by omega
    rfl
  | succ fuel ih =>
    rw [leavesLoop, tWidth_two_pow]
    by_cases hlast : k = d
    · subst hlast
      rw [if_neg (by omega)]
    · have hpow : 2 ^ (k + 1) ≤ 2 ^ d := Nat.pow_le_pow_right (by omega) (by omega)
      rw [if_pos (by omega), ← Nat.pow_succ]
      exact ih (by omega) (by omega)

/-! ## Trees -/

theorem Tree.encodedSize_eq (t : Tree) : t.encodedSize = (t.written.flatMap wNode).length := by
  rw [Tree.encodedSize, List.length_flatMap]

theorem treeSerialize_eq (t : Tree) : treeSerialize t = wOpaque (t.written.flatMap wNode) := rfl

theorem length_le_flatMap (ns : List Node) : ns.length ≤ (ns.flatMap wNode).length := by
  induction ns with
  | nil => exact Nat.zero_le _
  | cons n ns ih =>
    have := wNode_pos n
    rw [List.flatMap_cons, List.length_append, List.length_cons]
    omega

/-- **A tree** that fits into a vector is read as it was written. -/
theorem Tree.Ok.parse_run (h : t.Ok d) (hsize : t.encodedSize < maxVector) :
    treeParse (rd (treeSerialize t)) = (some t.erased, rd []) := by
  rw [t.encodedSize_eq] at hsize
  obtain ⟨l, hlen, hhalf, hl⟩ := h.written_length
  have hdepth := h.depth
  have hmax : 2 ^ d ≤ 2 ^ 30 := Nat.pow_le_pow_right (by omega) hdepth
  -- The nodes.
  have hnodes : parseNodes ((t.written.flatMap wNode).length + 1) 0 (rd (t.written.flatMap wNode)) =
      (some (t.written.map Node.erased), rd []) := by
    apply parseNodes_run
    · intro k hk
      have heq := h.toShape.eq_written
      have hlt : k < t.n.length := by
        rw [heq, List.length_append]
        omega
      have hfit := h.toShape.fitsAt hlt
      have hget : t.n.get ⟨k, hlt⟩ = t.written.get ⟨k, hk⟩ := by grind
      rw [← hget, Nat.zero_add]
      exact hfit
    · intro n hn
      obtain ⟨before, behind, heq⟩ := List.append_of_mem hn
      rw [heq, List.flatMap_append, List.flatMap_cons] at hsize
      simp only [List.length_append] at hsize
      omega
    · have := length_le_flatMap t.written
      omega
  have hleaves : leavesLoop (t.written.map Node.erased).length 32 1 = 2 ^ d := by
    rw [List.length_map, hlen]
    exact leavesLoop_run (Nat.zero_le d) (by omega) hhalf (by omega)
  have hresize : treeResize ⟨t.written.map Node.erased, (2 * l + 1 + 1) / 2⟩ (2 ^ d) = t.erased := by
    have hcount : tWidth ((2 * l + 1 + 1) / 2) = 2 * l + 1 := by
      rw [tWidth, if_neg (by omega)]
      omega
    have herased : t.n.map Node.erased = t.written.map Node.erased ++
        List.replicate (2 ^ (d + 1) - 1 - t.written.length) Node.zero := by
      conv_lhs => rw [h.toShape.eq_written]
      rw [List.map_append, List.map_replicate]
      rfl
    rw [treeResize, Tree.erased, herased, hcount, tWidth_two_pow, h.leaves, hlen, List.take_of_length_le]
    rw [List.length_map, hlen]
    omega
  have hsub := Parser.sub_run hsize []
  rw [List.append_nil] at hsub
  have hrest : (rd (t.written.flatMap wNode)).rest = t.written.flatMap wNode := rfl
  rw [treeSerialize_eq, treeParse, rd, Parser.bind_run hsub, hrest, hnodes, treeOfNodes,
    Parser.bind_run rfl, Parser.bind_run (Parser.check_run _ _),
    Parser.bind_run (Parser.check_run _ _), hleaves, List.length_map, hlen, hresize]
  · rfl
  · rw [hleaves]
    exact decide_eq_true hmax
  · rw [List.length_map, hlen]
    simp [rd]

/-! ## Trees that are too large -/

theorem rTake_rest (r : Rd) (n : Nat) : r.rest.length ≤ (rTake r n).2.rest.length + n := by
  rw [rTake]
  split
  · exact Nat.le_add_right _ _
  · rw [List.length_drop]
    omega

theorem rU8_lt (r : Rd) : (rU8 r).1 < 2 ^ 8 := by
  rw [rU8, rTake]
  split
  · exact Nat.two_pow_pos 8
  · rcases r.rest with _ | ⟨b, bs⟩
    · exact Nat.two_pow_pos 8
    · have := b.toNat_lt
      simpa [number] using this

theorem rVarint_bounds (r : Rd) :
    (rVarint r).1 < maxVector ∧ r.rest.length ≤ (rVarint r).2.rest.length + 4 := by
  have hb₁ := rTake_rest r 1
  have hb₂ := rTake_rest (rU8 r).2 1
  have hb₃ := rTake_rest (rU8 (rU8 r).2).2 1
  have hb₄ := rTake_rest (rU8 (rU8 (rU8 r).2).2).2 1
  change _ ≤ (rU8 _).2.rest.length + 1 at hb₁ hb₂ hb₃ hb₄
  have h₂ := rU8_lt (rU8 r).2
  have h₃ := rU8_lt (rU8 (rU8 r).2).2
  have h₄ := rU8_lt (rU8 (rU8 (rU8 r).2).2).2
  rw [rVarint, maxVector]
  dsimp only
  split
  · exact ⟨by omega, by omega⟩
  · exact ⟨by omega, by dsimp only; omega⟩
  · exact ⟨by omega, by dsimp only; omega⟩
  · exact ⟨Nat.two_pow_pos 30, by dsimp only; omega⟩

/-- The end of `tree_parse` reads nothing. -/
theorem treeOfNodes_snd (nodes : Option (List Node) × Rd) (r : Rd) : (treeOfNodes nodes r).2 = r := by
  have hcheck : ∀ (b : Bool) (f : Unit → Parser Tree), (f () r).2 = r →
      ((Parser.check b >>= f) r).2 = r := by
    intro b f hf
    cases b with
    | false => rfl
    | true => exact hf
  obtain ⟨_ | ns, r'⟩ := nodes
  · rfl
  · apply hcheck
    apply hcheck
    rfl

/-- **A tree that is too large** leaves some of its bytes behind. -/
theorem treeParse_large (hsize : maxVector ≤ t.encodedSize) :
    (treeParse (rd (treeSerialize t))).2 ≠ rd [] := by
  have hsnd : ∀ r, (treeParse r).2 = (rSub r).2 := by
    intro r
    exact treeOfNodes_snd _ _
  rw [hsnd, treeSerialize_eq]
  rw [t.encodedSize_eq] at hsize
  intro hend
  obtain ⟨hlt, hhead⟩ := rVarint_bounds (rd (wOpaque (t.written.flatMap wNode)))
  have htail := rTake_rest (rVarint (rd (wOpaque (t.written.flatMap wNode)))).2
    (rVarint (rd (wOpaque (t.written.flatMap wNode)))).1
  change _ ≤ (rSub (rd (wOpaque (t.written.flatMap wNode)))).2.rest.length + _ at htail
  rw [hend] at htail
  have hfour : (wVarint (t.written.flatMap wNode).length).length = 4 := by
    rw [maxVector] at hsize
    rw [wVarint, if_neg (by omega), if_neg (by omega)]
    rfl
  have htotal : (rd (wOpaque (t.written.flatMap wNode))).rest.length =
      4 + (t.written.flatMap wNode).length := by
    rw [rd, wOpaque, List.length_append, hfour]
  rw [show (rd []).rest.length = 0 from rfl] at htail
  omega

/-- **Reading a tree back** works for the trees that fit into a vector. -/
theorem Tree.Ok.parse_iff (h : t.Ok d) :
    treeParse (rd (treeSerialize t)) = (some t.erased, rd []) ↔ t.encodedSize < maxVector := by
  constructor
  · intro hparse
    by_contra hlarge
    exact treeParse_large (by omega) (congrArg Prod.snd hparse)
  · exact h.parse_run

/-! ## Trees of a group -/

/-- The trees that the operations make of the tree of one leaf. -/
inductive Tree.Reached (cr : Crypto) : Tree → Prop
  | one {v : LeafView} {r r' : Rd} (hv : parseLeaf r = (some v, r')) (priv : Option Bytes) :
      Reached cr ⟨[{ nodeSetLeaf v with priv := priv }], 1⟩
  | add {t t' : Tree} {v : LeafView} {r r' : Rd} {leaf : Nat} (ht : Reached cr t)
      (hv : parseLeaf r = (some v, r')) (hadd : (treeAdd t v).value = some (t', leaf)) : Reached cr t'
  | remove {t : Tree} {l l' : Nat} (ht : Reached cr t) (hl : t.Occupied l) (hl' : t.Occupied l')
      (hne : l' ≠ l) : Reached cr (treeRemove t l).value
  | create {rnd : Entropy} {idn : Identity} {g : Group} {exclude : List Nat} {pc : PathContext}
      {p : Path} (hg : Reached cr g.tree) (hme : g.tree.Occupied g.me)
      (hp : (createUpdatePath cr rnd idn g exclude pc).value = .ok p) : Reached cr p.tree
  | follow {g : Group} {sender : Nat} {r r' : Rd} {exclude : List Nat} {pc : PathContext}
      {t : Tree} {commitSecret : Bytes} (hg : Reached cr g.tree)
      (hp : (applyUpdatePath cr g sender r exclude pc).value = .ok (t, commitSecret, r')) :
      Reached cr t

theorem one_ok {v : LeafView} (hv : v.Parsed) (priv : Option Bytes) :
    (⟨[{ nodeSetLeaf v with priv := priv }], 1⟩ : Tree).Ok 0 := by
  have hocc : (⟨[{ nodeSetLeaf v with priv := priv }], 1⟩ : Tree).Occupied 0 := rfl
  refine ⟨⟨by omega, rfl, rfl, ?_, ?_⟩, 0, by omega, by omega, hocc⟩
  · intro l hl
    obtain rfl : l = 0 := by omega
    exact Or.inr ⟨v, rfl, hv⟩
  · intro k j hin
    have := hin.1
    omega

theorem Tree.Reached.ok (h : Tree.Reached cr t) : ∃ d, t.Ok d := by
  induction h with
  | one hv priv => exact ⟨0, one_ok (parseLeaf_parsed hv) priv⟩
  | add _ hv hadd ih =>
    obtain ⟨d, hok⟩ := ih
    exact treeAdd_ok hok (parseLeaf_parsed hv) hadd
  | remove _ hl hl' hne ih =>
    obtain ⟨d, hok⟩ := ih
    exact treeRemove_ok hok.toShape (hok.toShape.occupied_lt hl) hl' hne
  | create _ hme hp ih =>
    obtain ⟨d, hok⟩ := ih
    exact ⟨d, createUpdatePath_ok hok hme hp⟩
  | follow _ hp ih =>
    obtain ⟨d, hok⟩ := ih
    exact ⟨d, applyUpdatePath_ok hok hp⟩

/-- **The trees of a group** keep their shape, and are read back where they fit into a
vector. -/
theorem reached_round_trip (h : Tree.Reached cr t) : (∃ d, t.Ok d) ∧
    (treeParse (rd (treeSerialize t)) = (some t.erased, rd []) ↔ t.encodedSize < maxVector) := by
  obtain ⟨d, hok⟩ := h.ok
  exact ⟨⟨d, hok⟩, hok.parse_iff⟩

/-! ## A large leaf -/

/-- A leaf of a key package whose first list of capabilities is `n` zeros. -/
def wideLeaf (n : Nat) : Bytes :=
  wOpaque (List.replicate npk 0) ++ (wOpaque (List.replicate npk 0) ++ (wU16 1 ++ (wOpaque [] ++
    (wOpaque (List.replicate n 0) ++ (wOpaque [] ++ (wOpaque [] ++ (wOpaque [] ++ (wOpaque [] ++
      (wU8 1 ++ (wU64 0 ++ (wU64 0 ++ (wOpaque [] ++ wOpaque []))))))))))))

theorem parseSource_keyPackage (rest : Bytes) :
    parseSource 1 ⟨wU64 0 ++ (wU64 0 ++ rest), false⟩ = (some [], ⟨rest, false⟩) := by
  rw [parseSource, if_pos rfl, Parser.bind_run (Parser.u64_run (by decide) _),
    Parser.bind_run (Parser.u64_run (by decide) _)]
  rfl

/-- **A leaf with a long list** is read. -/
theorem parseLeaf_wideLeaf {n : Nat} (hn : n < maxVector) :
    ∃ v, parseLeaf (rd (wideLeaf n)) = (some v, rd []) ∧ v.raw = wideLeaf n := by
  have hkey : (List.replicate npk (0 : UInt8)).length < maxVector := by
    decide
  have hlong : (List.replicate n (0 : UInt8)).length < maxVector := by
    rw [List.length_replicate]
    exact hn
  have hnil : ([] : Bytes).length < maxVector := by decide
  obtain ⟨body, hbody⟩ : ∃ body,
      parseLeafBody ⟨wideLeaf n, false⟩ = (some body, ⟨wOpaque [], false⟩) := by
    refine ⟨(List.replicate npk 0, List.replicate npk 0, 0, 1, []), ?_⟩
    rw [wideLeaf, parseLeafBody, Parser.bind_run (Parser.vector_run hkey _),
      Parser.bind_run (Parser.check_run (by simp) _), Parser.bind_run (Parser.vector_run hkey _),
      Parser.bind_run (Parser.check_run (by simp) _), Parser.bind_run (Parser.u16_run (by decide) _),
      Parser.bind_run (Parser.check_run (by simp) _), Parser.bind_run (Parser.vector_run hnil _),
      Parser.bind_run (Parser.sub_run hlong _), Parser.bind_run (Parser.sub_run hnil _),
      Parser.bind_run (Parser.sub_run hnil _), Parser.bind_run (Parser.sub_run hnil _),
      Parser.bind_run (Parser.sub_run hnil _), Parser.bind_run (Parser.u8_run 1 _),
      show UInt8.toNat 1 = 1 from rfl, Parser.bind_run (parseSource_keyPackage _), Parser.bind_run (Parser.sub_run hnil _)]
    rfl
  obtain ⟨tbs, hspan⟩ : ∃ tbs, Parser.span parseLeafBody ⟨wideLeaf n, false⟩ =
      (some (tbs, body), ⟨wOpaque [], false⟩) := by
    rw [Parser.span, hbody]
    exact ⟨_, rfl⟩
  have hsig : Parser.vector ⟨wOpaque [], false⟩ = (some [], ⟨[], false⟩) := by
    have := Parser.vector_run hnil []
    rwa [List.append_nil] at this
  have hparts : leafParts ⟨wideLeaf n, false⟩ = (some ((tbs, body), []), ⟨[], false⟩) := by
    rw [leafParts, Parser.bind_run hspan, Parser.bind_run hsig]
    rfl
  have hwhole : Parser.span leafParts ⟨wideLeaf n, false⟩ =
      (some (wideLeaf n, (tbs, body), []), ⟨[], false⟩) := by
    rw [Parser.span, hparts]
    simp
  obtain ⟨enc, sig, uid, source, ph⟩ := body
  refine ⟨⟨wideLeaf n, tbs, enc, sig, uid, source, ph, []⟩, ?_, rfl⟩
  rw [parseLeaf_eq, rd, Parser.bind_run hwhole]
  rfl

theorem encodedSize_one (v : LeafView) : (⟨[nodeSetLeaf v], 1⟩ : Tree).encodedSize = 2 + v.raw.length := by
  change (wU8 1 ++ wU8 1 ++ v.raw).length = _
  rw [List.length_append]
  rfl

/-- A tree with one leaf that is too large. -/
theorem large_leaf_unread : ∃ t, Tree.Reached (plainCrypto fun _ => true) t ∧
    treeParse (rd (treeSerialize t)) ≠ (some t.erased, rd []) := by
  obtain ⟨v, hparse, hraw⟩ := parseLeaf_wideLeaf (n := maxVector - 1) (by decide)
  refine ⟨⟨[nodeSetLeaf v], 1⟩, .one hparse none, ?_⟩
  intro h
  refine treeParse_large ?_ (congrArg Prod.snd h)
  rw [encodedSize_one, hraw]
  simp only [wideLeaf, wOpaque, List.length_append, List.length_replicate]
  omega

/-- A leaf of a few bytes is read back. -/
theorem small_leaf_round_trip : ∃ t, Tree.Reached (plainCrypto fun _ => true) t ∧
    treeParse (rd (treeSerialize t)) = (some t.erased, rd []) := by
  obtain ⟨v, hparse, hraw⟩ := parseLeaf_wideLeaf (n := 0) (by decide)
  have hreached : Tree.Reached (plainCrypto fun _ => true) ⟨[nodeSetLeaf v], 1⟩ := .one hparse none
  refine ⟨_, hreached, (reached_round_trip hreached).2.mpr ?_⟩
  rw [encodedSize_one, hraw]
  decide +kernel

end Mls
