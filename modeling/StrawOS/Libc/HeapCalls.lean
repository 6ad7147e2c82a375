import StrawOS.Libc.Heap

/-!
# The calls keep the layout

Each way a call changes the heap is one lemma about the layout: a slot taken off
its free list, a slot carved or mapped, a block resized in place, a slot put back
on its list, a run returned.  The calls are put together from these.
-/

namespace Libc

variable {h : Heap} {slots rest : List Slot} {chains : Nat → List Nat} {live : List HeapBlock}
  {s : Slot}

/-! ## Writing headers and links -/

namespace Heap

theorem load_store_self (h : Heap) {a w v : Nat} (hv : v < 256 ^ w) :
    Endian.load (Buf.read (h.store a w v).mem a w) = v := by
  have hread := Buf.read_write_self h.mem a (Endian.store w v)
  rw [Endian.length_store] at hread
  rw [store, hread, Endian.load_store hv]

theorem read_store_disjoint (h : Heap) {a w v b n : Nat} (hd : b + n ≤ a ∨ a + w ≤ b) :
    Buf.read (h.store a w v).mem b n = Buf.read h.mem b n := by
  apply Buf.read_write_disjoint
  rwa [Endian.length_store]

theorem store_mem_of_out (h : Heap) {a w v b : Nat} (hd : b < a ∨ a + w ≤ b) :
    (h.store a w v).mem b = h.mem b := by
  rcases hd with hd | hd
  · exact Buf.write_of_lt hd
  · exact Buf.write_of_ge (by rwa [Endian.length_store])

theorem size_setSize (h : Heap) {a v : Nat} (hv : v ≤ sizeMax) : (h.setSize a v).size a = v :=
  h.load_store_self (Nat.lt_of_le_of_lt hv (by decide))

theorem cls_setSize (h : Heap) (a v : Nat) : (h.setSize a v).cls a = h.cls a :=
  congrArg Endian.load (h.read_store_disjoint (by omega))

theorem magic_setSize (h : Heap) (a v : Nat) : (h.setSize a v).magic a = h.magic a :=
  congrArg Endian.load (h.read_store_disjoint (by omega))

theorem setSize_mem_of_out (h : Heap) {a v b : Nat} (hd : b < a + 8 ∨ a + 16 ≤ b) :
    (h.setSize a v).mem b = h.mem b :=
  h.store_mem_of_out (by omega)

theorem size_setHeader (h : Heap) {a c v : Nat} (hv : v ≤ sizeMax) :
    (h.setHeader a c v).size a = v :=
  size_setSize _ hv

theorem magic_setHeader (h : Heap) (a c v : Nat) : (h.setHeader a c v).magic a = heapMagic := by
  rw [setHeader, magic_setSize]
  exact load_store_self _ (by decide)

theorem cls_setHeader (h : Heap) {a c v : Nat} (hc : c < 2 ^ 32) : (h.setHeader a c v).cls a = c := by
  rw [setHeader, cls_setSize, cls, read_store_disjoint _ (by omega)]
  exact load_store_self _ hc

theorem setHeader_mem_of_out (h : Heap) {a c v b : Nat} (hd : b < a ∨ a + 16 ≤ b) :
    (h.setHeader a c v).mem b = h.mem b := by
  rw [setHeader, setSize_mem_of_out _ (by omega), store_mem_of_out _ (by omega),
    store_mem_of_out _ (by omega)]

end Heap

/-! ## Pointers -/

theorem Layout.ptr_ne (hl : Layout h (s :: rest) chains live) {t : Slot} (ht : t ∈ rest) :
    t.ptr ≠ s.ptr := by
  intro heq
  have hapart := hl.apart_of_mem ht
  have h1 := (hl.sound s List.mem_cons_self).len_ge
  have h2 := (hl.sound t (List.mem_cons_of_mem s ht)).len_ge
  simp only [Slot.ptr_eq] at heq
  simp only [Apart] at hapart
  omega

theorem Layout.ptr_bounds (hl : Layout h slots chains live) (hs : s ∈ slots) :
    0 < s.ptr ∧ s.ptr < 2 ^ 64 := by
  obtain ⟨r, hr, h1, h2⟩ := (hl.sound s hs).inside
  have hrun := hl.runs r hr
  have hlen := (hl.sound s hs).len_ge
  rw [Slot.ptr_eq]
  omega

theorem ptr_sub (s : Slot) : s.ptr - heapHeader = s.hdr := Nat.add_sub_cancel ..

theorem Layout.lose_perm (hl : Layout h (s :: rest) chains live) {n : Nat}
    (hheld : s.held = some n) : (lose live s.ptr).Perm (rest.filterMap Slot.block) := by
  have hblock : s.block = some ⟨s.ptr, n⟩ := by simp [Slot.block, hheld]
  have hperm : live.Perm (⟨s.ptr, n⟩ :: rest.filterMap Slot.block) := by
    simpa [List.filterMap_cons, hblock] using hl.live
  have hother : ∀ b ∈ rest.filterMap Slot.block, b.ptr ≠ s.ptr := by
    intro b hb
    obtain ⟨t, ht, htb⟩ := List.mem_filterMap.mp hb
    obtain ⟨m, -, rfl⟩ := Option.map_eq_some_iff.mp htb
    exact hl.ptr_ne ht
  have hmem : (⟨s.ptr, n⟩ : HeapBlock) ∈ live := hperm.mem_iff.mpr List.mem_cons_self
  obtain ⟨b, l1, l2, -, hb, hsplit, herase⟩ :=
    List.exists_of_eraseP hmem (p := fun b : HeapBlock => b.ptr == s.ptr) (by simp)
  rw [lose, herase]
  have hbeq : b = ⟨s.ptr, n⟩ := by grind
  rw [hsplit, hbeq] at hperm
  exact (List.perm_middle.symm.trans hperm).cons_inv

theorem Layout.head_slot (hl : Layout h slots chains live) {c p : Nat} (hc : c < 16)
    (hp : h.lists c = some p) :
    ∃ tail, chains c = p :: tail ∧ ∃ s ∈ slots, s.cls = c ∧ s.held = none ∧ s.ptr = p := by
  have hchain := hl.chain c hc
  cases hcs : chains c with
  | nil =>
    rw [hcs, PtrChain.nil_iff, hp] at hchain
    cases hchain
  | cons q tail =>
    rw [hcs, PtrChain.cons_iff, hp] at hchain
    obtain rfl := Option.some.inj hchain.1
    exact ⟨tail, rfl, (hl.free c hc p).mp (by simp [hcs])⟩

/-! ## The six changes -/

/-- **A slot off its free list.** -/
theorem Layout.takeFree (hl : Layout h slots chains live) {c p n : Nat} (hc : c < 16)
    (hp : h.lists c = some p) (hn : n ≤ classSize c) :
    ∃ slots' chains', Layout
      (({ h with lists := Function.update h.lists c (h.next p) } : Heap).setSize (p - heapHeader) n)
      slots' chains' (⟨p, n⟩ :: live) := by
  have hchain := hl.chain c hc
  obtain ⟨tail, htail, s, hs, hcls, hfree, rfl⟩ := hl.head_slot hc hp
  obtain ⟨rest, hl⟩ := hl.front hs
  have hsound := hl.sound s List.mem_cons_self
  have hsmall := hsound.small_of_free hfree
  have hbound := (classSize_bounds hc).2
  have hnodup := hchain.nodup
  rw [htail, List.nodup_cons] at hnodup
  rw [htail] at hchain
  have hmem : ∀ a, a < s.hdr ∨ s.hdr + s.len ≤ a →
      (({ h with lists := Function.update h.lists c (h.next s.ptr) } : Heap).setSize s.hdr n).mem a =
        h.mem a := by
    intro a ha
    have := hsound.len_ge
    exact Heap.setSize_mem_of_out _ (by omega)
  refine ⟨{ s with held := some n } :: rest, Function.update chains c tail,
    hl.replace rfl rfl rfl rfl rfl ?_ hmem ?_ ?_ ?_⟩
  · constructor
    · exact (Heap.cls_setSize _ _ _).trans hsound.cls
    · exact (Heap.magic_setSize _ _ _).trans hsound.magic
    · intro m hm
      obtain rfl := Option.some.inj hm
      have hlen := hsmall.2
      rw [hcls] at hlen
      simp only [sizeMax]
      refine ⟨Heap.size_setSize _ (by simp only [sizeMax]; omega), ?_, by omega⟩
      omega
    · exact Or.inl hsmall
    · exact hsound.inside
  · intro c' hc'
    by_cases hcc : c' = c
    · subst hcc
      simp only [Heap.setSize, Heap.store, Function.update_self]
      refine hl.chain_of_rest hmem hchain.2 ?_
      intro q hq
      obtain ⟨t, ht, -, htfree, rfl⟩ := (hl.free c' hc' q).mp (by simp [htail, hq])
      rcases List.mem_cons.mp ht with rfl | ht
      · exact absurd hq hnodup.1
      · exact ⟨t, ht, htfree, rfl⟩
    · simp only [Heap.setSize, Heap.store, Function.update_of_ne hcc]
      refine hl.chain_of_rest hmem (hl.chain c' hc') ?_
      intro q hq
      obtain ⟨t, ht, htcls, htfree, rfl⟩ := (hl.free c' hc' q).mp hq
      rcases List.mem_cons.mp ht with rfl | ht
      · exact absurd (htcls.symm.trans hcls) hcc
      · exact ⟨t, ht, htfree, rfl⟩
  · intro c' hc' q
    have hold := hl.free c' hc' q
    by_cases hcc : c' = c
    · subst hcc
      rw [Function.update_self]
      rw [htail] at hold
      constructor
      · grind
      · rintro ⟨t, ht, hrest⟩
        rcases List.mem_cons.mp ht with rfl | ht
        · simp at hrest
        · have hq := hold.mpr ⟨t, List.mem_cons_of_mem _ ht, hrest⟩
          exact (List.mem_cons.mp hq).resolve_left (hrest.2.2 ▸ hl.ptr_ne ht)
    · grind
  · have hnone : s.block = none := by simp [Slot.block, hfree]
    have hlive := hl.live
    rw [List.filterMap_cons, hnone] at hlive
    exact hlive.cons _

/-- **A block resized in place.** -/
theorem Layout.resize (hl : Layout h (s :: rest) chains live) {n m : Nat} (hheld : s.held = some n)
    (hm : m ≤ sizeMax) (hroom : heapHeader + m ≤ s.len)
    (hlarge : s.Large h.runs → heapLargePages m = heapLargePages n) :
    Layout (h.setSize s.hdr m) ({ s with held := some m } :: rest) chains
      (⟨s.ptr, m⟩ :: lose live s.ptr) := by
  have hsound := hl.sound s List.mem_cons_self
  have hmem : ∀ a, a < s.hdr ∨ s.hdr + s.len ≤ a → (h.setSize s.hdr m).mem a = h.mem a := by
    intro a ha
    have := hsound.len_ge
    exact Heap.setSize_mem_of_out _ (by omega)
  -- A slot that is held is on no list, before and after.
  have hfree : ∀ c < 16, ∀ p, p ∈ chains c ↔ ∃ t ∈ rest, t.cls = c ∧ t.held = none ∧ t.ptr = p := by
    intro c hc p
    rw [hl.free c hc p]
    constructor
    · grind
    · intro ⟨t, ht, hrest⟩
      exact ⟨t, List.mem_cons_of_mem _ ht, hrest⟩
  refine hl.replace rfl rfl rfl rfl rfl ?_ hmem ?_ ?_ ?_
  · constructor
    · exact (Heap.cls_setSize _ _ _).trans hsound.cls
    · exact (Heap.magic_setSize _ _ _).trans hsound.magic
    · intro k hk
      obtain rfl := Option.some.inj hk
      exact ⟨Heap.size_setSize _ hm, hroom, hm⟩
    · rcases hsound.kind with hsmall | hl'
      · exact Or.inl hsmall
      · obtain ⟨hcls, k, count, hk, hrun, hlen, hpages, h2⟩ := id hl'
        rw [hheld, Option.some.injEq] at hk
        exact Or.inr ⟨hcls, m, count, rfl, hrun, hlen, by rw [hlarge hl', hk, hpages], h2⟩
    · exact hsound.inside
  · intro c hc
    refine hl.chain_of_rest hmem (hl.chain c hc) ?_
    intro p hp
    obtain ⟨t, ht, -, hrest⟩ := (hfree c hc p).mp hp
    exact ⟨t, ht, hrest⟩
  · grind
  · exact (hl.lose_perm hheld).cons _

theorem Layout.head_bounds (hl : Layout h slots chains live) {c : Nat} (hc : c < 16) {q : Nat}
    (hq : h.lists c = some q) : 0 < q ∧ q < 2 ^ 64 := by
  obtain ⟨-, -, s, hs, -, -, rfl⟩ := hl.head_slot hc hq
  exact hl.ptr_bounds hs

/-- **A slot back on its free list.** -/
theorem Layout.putFree (hl : Layout h (s :: rest) chains live) {n : Nat} (hheld : s.held = some n)
    (hsmall : s.Small) :
    Layout { h.store s.ptr 8 ((h.lists s.cls).getD 0) with
        lists := Function.update h.lists s.cls (some s.ptr) }
      ({ s with held := none } :: rest) (Function.update chains s.cls (s.ptr :: chains s.cls))
      (lose live s.ptr) := by
  have hsound := hl.sound s List.mem_cons_self
  have hlen := hsound.len_ge
  have hptr := s.ptr_eq
  have hfree : ∀ c < 16, ∀ p, p ∈ chains c → ∃ t ∈ rest, t.held = none ∧ t.ptr = p := by
    intro c hc p hp
    obtain ⟨t, ht, -, hrest⟩ := (hl.free c hc p).mp hp
    rcases List.mem_cons.mp ht with rfl | ht
    · rw [hheld] at hrest
      simp at hrest
    · exact ⟨t, ht, hrest⟩
  have hmem : ∀ a, a < s.hdr ∨ s.hdr + s.len ≤ a →
      (h.store s.ptr 8 ((h.lists s.cls).getD 0)).mem a = h.mem a := fun a ha =>
    h.store_mem_of_out (by omega)
  have hsame : s.Sound { h.store s.ptr 8 ((h.lists s.cls).getD 0) with
      lists := Function.update h.lists s.cls (some s.ptr) } :=
    hsound.congr (fun r hr _ _ => hr) fun a h1 h2 => h.store_mem_of_out (by omega)
  -- The link that was stored is the old head of the list.
  have hnext : Heap.next { h.store s.ptr 8 ((h.lists s.cls).getD 0) with
      lists := Function.update h.lists s.cls (some s.ptr) } s.ptr = h.lists s.cls := by
    cases hhead : h.lists s.cls with
    | none =>
      have hload := h.load_store_self (a := s.ptr) (w := 8) (v := 0) (by decide)
      simp only [Option.getD_none, Heap.next]
      rw [hload]
      rfl
    | some q =>
      obtain ⟨h0, hlt⟩ := hl.head_bounds hsmall.1 hhead
      have hload := h.load_store_self (a := s.ptr) (w := 8) (v := q) hlt
      simp only [Option.getD_some, Heap.next]
      rw [hload, if_neg (by omega)]
  refine hl.replace rfl rfl rfl rfl rfl ?_ hmem ?_ ?_ ?_
  · exact ⟨hsame.cls, hsame.magic, by simp, Or.inl hsmall, hsame.inside⟩
  · intro c hc
    by_cases hcc : c = s.cls
    · subst hcc
      simp only [Function.update_self, PtrChain.cons_iff, true_and]
      rw [hnext]
      exact hl.chain_of_rest hmem (hl.chain s.cls hc) (hfree s.cls hc)
    · simp only [Function.update_of_ne hcc]
      exact hl.chain_of_rest hmem (hl.chain c hc) (hfree c hc)
  · intro c hc p
    have hold := hl.free c hc p
    have hrest : p ∈ chains c ↔ ∃ t ∈ rest, t.cls = c ∧ t.held = none ∧ t.ptr = p := by grind
    rw [List.exists_mem_cons_iff, ← hrest]
    by_cases hcc : c = s.cls
    · subst hcc
      simp only [Function.update_self, List.mem_cons, true_and]
      exact or_congr_left eq_comm
    · grind
  · exact hl.lose_perm hheld

/-- **A new slot.** -/
theorem Layout.add (hl : Layout h slots chains live) {h' : Heap} {n : Nat} (hruns : h'.runs = h.runs)
    (hlists : h'.lists = h.lists) (hheld : s.held = some n) (hsound : s.Sound h')
    (hapart : ∀ t ∈ slots, Apart s.hdr s.len t.hdr t.len)
    (hmem : ∀ a, a < s.hdr ∨ s.hdr + s.len ≤ a → h'.mem a = h.mem a)
    (harena : 0 < h'.left → ∃ r ∈ h.runs,
      r.addr ≤ h'.arena ∧ h'.arena + h'.left ≤ r.addr + r.count * heapPageSize)
    (harenaApart : 0 < h'.left → ∀ t ∈ s :: slots, Apart t.hdr t.len h'.arena h'.left) :
    Layout h' (s :: slots) chains (⟨s.ptr, n⟩ :: live) := by
  have hout : ∀ t ∈ slots, ∀ a, t.hdr ≤ a → a < t.hdr + t.len → h'.mem a = h.mem a := by
    intro t ht a h1 h2
    apply hmem
    have := hapart t ht
    simp only [Apart] at this
    omega
  constructor
  · rw [hruns]
    exact hl.runsApart
  · rw [hruns]
    exact hl.runs
  · exact List.pairwise_cons.mpr ⟨hapart, hl.apart⟩
  · intro t ht
    rcases List.mem_cons.mp ht with rfl | ht
    · exact hsound
    · have hlen := (hl.sound t ht).len_ge
      apply (hl.sound t ht).congr fun r hr _ _ => hruns ▸ hr
      intro a h1 h2
      exact hout t ht a h1 (by omega)
  · rw [hruns]
    exact harena
  · exact harenaApart
  · intro c hc
    rw [hlists]
    apply hl.chain_congr hc
    intro t ht _ _ a h1 h2
    have hlen := (hl.sound t ht).len_ge
    rw [Slot.ptr_eq] at h1 h2
    exact hout t ht a (by omega) (by omega)
  · intro c hc p
    rw [hl.free c hc p, List.exists_mem_cons_iff]
    simp [hheld]
  · have hblock : s.block = some ⟨s.ptr, n⟩ := by simp [Slot.block, hheld]
    rw [List.filterMap_cons, hblock]
    exact hl.live.cons _

/-- **A run returned.**  The slot goes with it. -/
theorem Layout.drop (hl : Layout h (s :: rest) chains live) (hlarge : s.Large h.runs) {h' : Heap}
    (hruns : h'.runs = h.runs.eraseP fun r => r.addr == s.hdr) (hlists : h'.lists = h.lists)
    (harena : h'.arena = h.arena) (hleft : h'.left = h.left)
    (hmem : ∀ a, a < s.hdr ∨ s.hdr + s.len ≤ a → h'.mem a = h.mem a) :
    Layout h' rest chains (lose live s.ptr) := by
  obtain ⟨-, n, count, hheld, hrun, hlen, -, h2⟩ := hlarge
  obtain ⟨hfirst, hrest⟩ := List.pairwise_cons.mp hl.apart
  -- What is apart from the slot lies in another run.
  have hkeep : ∀ {b m : Nat}, 0 < m → Apart s.hdr s.len b m → ∀ r ∈ h.runs, r.addr ≤ b →
      b + m ≤ r.addr + r.count * heapPageSize → r ∈ h'.runs := by
    intro b m hpos hap r hr h1 h2
    rw [hruns, List.mem_eraseP_of_neg]
    · exact hr
    · intro haddr
      have hsame := hl.run_unique hr hrun (by simpa using haddr)
      rw [hsame] at h1 h2
      simp only [Apart, hlen] at hap h1 h2
      omega
  have hsub : ∀ r ∈ h'.runs, r ∈ h.runs := fun r hr => List.eraseP_subset (hruns ▸ hr)
  have hout : ∀ t ∈ rest, ∀ a, t.hdr ≤ a → a < t.hdr + t.len → h'.mem a = h.mem a := by
    intro t ht a h1 h2
    apply hmem
    have := hfirst t ht
    simp only [Apart] at this
    omega
  constructor
  · rw [hruns]
    exact hl.runsApart.sublist List.eraseP_sublist
  · exact fun r hr => hl.runs r (hsub r hr)
  · exact hrest
  · intro t ht
    have hts := hl.sound t (List.mem_cons_of_mem s ht)
    have htlen := hts.len_ge
    apply hts.congr (hkeep (by omega) (hfirst t ht))
    intro a h1 h2
    exact hout t ht a h1 (by omega)
  · rw [hleft, harena]
    intro hpos
    obtain ⟨r, hr, h1, h2⟩ := hl.arena hpos
    exact ⟨r, hkeep hpos (hl.arenaApart hpos s List.mem_cons_self) r hr h1 h2, h1, h2⟩
  · rw [hleft, harena]
    exact fun hpos t ht => hl.arenaApart hpos t (List.mem_cons_of_mem s ht)
  · intro c hc
    rw [hlists]
    apply hl.chain_congr hc
    intro t ht _ htfree a h1 h2
    rcases List.mem_cons.mp ht with rfl | ht
    · rw [hheld] at htfree
      cases htfree
    · have hlen := (hl.sound t (List.mem_cons_of_mem s ht)).len_ge
      rw [Slot.ptr_eq] at h1 h2
      exact hout t ht a (by omega) (by omega)
  · intro c hc p
    rw [hl.free c hc p, List.exists_mem_cons_iff]
    simp [hheld]
  · exact hl.lose_perm hheld

/-! ## Bytes of blocks -/

theorem Layout.hasByte_of_slot (hl : Layout h slots chains live) (hs : s ∈ slots) {b : HeapBlock}
    (hheld : s.held = some b.size) (hptr : s.ptr = b.ptr) {a : Nat} (ha : b.HasByte a) :
    s.hdr + 16 ≤ a ∧ a < s.hdr + s.len := by
  have hroom := ((hl.sound s hs).size _ hheld).2.1
  simp only [HeapBlock.HasByte, ← hptr, Slot.ptr_eq, heapHeader] at ha hroom
  omega

theorem Layout.other_slot (hl : Layout h (s :: rest) chains live) {c : HeapBlock} (hc : c ∈ live)
    (hne : c.ptr ≠ s.ptr) {a : Nat} (ha : c.HasByte a) : a < s.hdr ∨ s.hdr + s.len ≤ a := by
  obtain ⟨t, ht, hheld, hptr⟩ := hl.slot_of_live hc
  have hin := hl.hasByte_of_slot ht hheld hptr ha
  rcases List.mem_cons.mp ht with rfl | ht
  · exact absurd hptr.symm hne
  · have hapart := hl.apart_of_mem ht
    simp only [Apart] at hapart
    omega

/-- **Writing into a block** keeps the layout. -/
theorem Layout.writeBlock (hl : Layout h slots chains live) {b : HeapBlock} (hb : b ∈ live)
    {mem : Nat → UInt8} (hmem : ∀ a, ¬ b.HasByte a → mem a = h.mem a) :
    Layout { h with mem := mem } slots chains live := by
  obtain ⟨s, hs, hheld, hptr⟩ := hl.slot_of_live hb
  apply hl.setMem
  intro t ht a h1 h2
  apply hmem
  intro ha
  have hin := hl.hasByte_of_slot hs hheld hptr ha
  have htlen := (hl.sound t ht).len_ge
  have htown := t.own_le
  obtain ⟨l, r, rfl⟩ := List.append_of_mem hs
  have hfront := hl.perm List.perm_middle
  have ht' : t ∈ s :: (l ++ r) := List.perm_middle.mem_iff.mp ht
  rcases List.mem_cons.mp ht' with rfl | ht'
  · have hown : t.own = 16 := by simp [Slot.own, hheld]
    omega
  · have hapart := hfront.apart_of_mem ht'
    simp only [Apart] at hapart
    omega

theorem Layout.writeForeign (hl : Layout h slots chains live) {a : Nat} {byte : UInt8}
    (ha : ∀ r ∈ h.runs, ¬ r.HasByte a) :
    Layout { h with mem := Function.update h.mem a byte } slots chains live := by
  apply hl.setMem
  intro t ht b h1 h2
  apply Function.update_of_ne
  intro heq
  obtain ⟨r, hr, hr1, hr2⟩ := (hl.sound t ht).inside
  have hlen := (hl.sound t ht).len_ge
  have hown := t.own_le
  apply ha r hr
  simp only [PageRun.HasByte]
  omega

/-! ## `malloc` -/

/-- What `malloc` does to the heap: a layout with the new block, and the bytes of
the old ones untouched. -/
def Grows (h : Heap) (live : List HeapBlock) (n : Nat) (r : Option Nat × Heap) : Prop :=
  (∃ slots chains, Layout r.2 slots chains (gain live r.1 n)) ∧
    ∀ b ∈ live, ∀ a, b.HasByte a → r.2.mem a = h.mem a

theorem Layout.grows_none (hl : Layout h slots chains live) (n : Nat) : Grows h live n (none, h) :=
  ⟨⟨slots, chains, hl⟩, fun _ _ _ _ => rfl⟩

theorem Layout.memAlloc (hl : Layout h slots chains live) {answer : Nat → Option Nat}
    (hfresh : h.Fresh answer) (size : Nat) (h1 : 0 < size) (h2 : size ≤ sizeMax - heapPageSize) :
    h.memAlloc answer size = (none, h) ∨
      ∃ p, h.memAlloc answer size =
          (some p, { h with runs := h.runs ++ [⟨p, userPageCount size⟩] }) ∧
        Layout { h with runs := h.runs ++ [⟨p, userPageCount size⟩] } slots chains live ∧
        (∀ s ∈ slots, Apart s.hdr s.len p (userPageCount size * heapPageSize)) ∧
        (0 < h.left → Apart h.arena h.left p (userPageCount size * heapPageSize)) := by
  have hsize : ¬ (size = 0 ∨ sizeMax - heapPageSize < size) := by omega
  rw [Heap.memAlloc, if_neg hsize]
  cases hans : answer size with
  | none => exact Or.inl rfl
  | some p =>
    obtain ⟨hp0, hptop, hpfresh⟩ := hfresh size p hans
    have hcount : 0 < userPageCount size := by
      simp only [userPageCount, heapPageSize, sizeMax] at h2 ⊢
      omega
    exact Or.inr ⟨p, rfl, hl.addRun ⟨hp0, hcount, hptop⟩ hpfresh⟩

theorem Layout.carve (hl : Layout h slots chains live) {c n : Nat} (hc : c < 16)
    (hn : n ≤ classSize c) (hleft : heapHeader + classSize c ≤ h.left) :
    Grows h live n (some (h.arena + heapHeader),
      (h.carve (heapHeader + classSize c)).2.setHeader h.arena c n) := by
  have hbounds := classSize_bounds hc
  simp only [heapHeader] at hleft
  have hpos : 0 < h.left := by omega
  obtain ⟨r, hr, hr1, hr2⟩ := hl.arena hpos
  have hapart : ∀ t ∈ slots, Apart h.arena (16 + classSize c) t.hdr t.len := by
    intro t ht
    have := hl.arenaApart hpos t ht
    simp only [Apart] at this ⊢
    omega
  have hmem : ∀ a, a < h.arena ∨ h.arena + 16 ≤ a →
      ((h.carve (heapHeader + classSize c)).2.setHeader h.arena c n).mem a = h.mem a :=
    fun a ha => Heap.setHeader_mem_of_out _ ha
  have hnmax : n ≤ sizeMax := by
    simp only [sizeMax]
    omega
  constructor
  · refine ⟨⟨h.arena, 16 + classSize c, c, some n⟩ :: slots, chains,
      hl.add rfl rfl rfl ?_ hapart (fun a ha => hmem a (by simp only at ha; omega)) ?_ ?_⟩
    · constructor
      · exact Heap.cls_setHeader _ (Nat.lt_trans hc (by decide))
      · exact Heap.magic_setHeader _ _ _ _
      · intro m hm
        obtain rfl := Option.some.inj hm
        exact ⟨Heap.size_setHeader _ hnmax, by simp only [heapHeader]; omega, hnmax⟩
      · exact Or.inl ⟨hc, rfl⟩
      · exact ⟨r, hr, hr1, by simp only; omega⟩
    · intro _
      refine ⟨r, hr, ?_⟩
      simp only [Heap.carve, Heap.setHeader, Heap.setSize, Heap.store, heapHeader]
      omega
    · intro _ t ht
      simp only [Heap.carve, Heap.setHeader, Heap.setSize, Heap.store, heapHeader]
      rcases List.mem_cons.mp ht with rfl | ht
      · exact Or.inl (Nat.le_refl _)
      · have := hl.arenaApart hpos t ht
        simp only [Apart] at this ⊢
        omega
  · intro b hb a ha
    obtain ⟨t, ht, hheld, hptr⟩ := hl.slot_of_live hb
    have hin := hl.hasByte_of_slot ht hheld hptr ha
    have hap := hapart t ht
    simp only [Apart] at hap
    exact hmem a (by omega)

theorem Layout.large (hl : Layout h slots chains live) {answer : Nat → Option Nat}
    (hfresh : h.Fresh answer) {n : Nat} (h1 : 4096 < n)
    (h2 : n ≤ sizeMax - heapHeader - heapPageSize) :
    Grows h live n (match h.memAlloc answer (n + heapHeader) with
      | (none, h) => (none, h)
      | (some a, h) => (some (a + heapHeader), h.setHeader a heapLarge n)) := by
  obtain ⟨htwo, hpages⟩ := two_le_heapLargePages h1 h2
  have hnmax : n ≤ sizeMax := by
    omega
  have hroom := (heapLargePages_two hnmax htwo).2.1
  rcases hl.memAlloc hfresh (n + heapHeader) (by omega)
    (by omega) with
    hnone | ⟨p, hsome, hl', hslots, harena⟩
  · rw [hnone]
    exact hl.grows_none n
  rw [hsome]
  have hmem : ∀ a, a < p ∨ p + 16 ≤ a →
      (Heap.setHeader { h with runs := h.runs ++ [⟨p, heapLargePages n⟩] } p heapLarge n).mem a =
        h.mem a := fun a ha => Heap.setHeader_mem_of_out _ ha
  constructor
  · refine ⟨⟨p, heapLargePages n * heapPageSize, heapLarge, some n⟩ :: slots, chains,
      hl'.add rfl rfl rfl ?_ (fun t ht => (hslots t ht).symm) ?_ hl'.arena ?_⟩
    · constructor
      · exact Heap.cls_setHeader _ (by decide)
      · exact Heap.magic_setHeader _ _ _ _
      · intro m hm
        obtain rfl := Option.some.inj hm
        exact ⟨Heap.size_setHeader _ hnmax, hroom, hnmax⟩
      · exact Or.inr ⟨rfl, n, heapLargePages n, rfl, List.mem_append_right _ List.mem_cons_self,
          rfl, rfl, htwo⟩
      · exact ⟨⟨p, heapLargePages n⟩, List.mem_append_right _ List.mem_cons_self,
          Nat.le_refl _, Nat.le_refl _⟩
    · intro a ha
      simp only [heapPageSize] at ha
      exact hmem a (by omega)
    · intro hpos t ht
      rcases List.mem_cons.mp ht with rfl | ht
      · exact (harena hpos).symm
      · exact hl.arenaApart hpos t ht
  · intro b hb a ha
    obtain ⟨t, ht, hheld, hptr⟩ := hl.slot_of_live hb
    have hin := hl.hasByte_of_slot ht hheld hptr ha
    have hap := hslots t ht
    simp only [Apart, heapPageSize] at hap
    exact hmem a (by omega)

theorem Layout.newArena (hl : Layout h slots chains live) {p : Nat}
    (hrun : ⟨p, userPageCount heapArenaSize⟩ ∈ h.runs)
    (hslots : ∀ s ∈ slots, Apart s.hdr s.len p (userPageCount heapArenaSize * heapPageSize)) :
    Layout { h with arena := p, left := heapArenaSize } slots chains live := by
  have hwhole : userPageCount heapArenaSize * heapPageSize = heapArenaSize := by decide
  refine ⟨hl.runsApart, hl.runs, hl.apart, ?_, ?_, fun _ => hslots, hl.chain, hl.free, hl.live⟩
  · intro s hs
    exact (hl.sound s hs).congr (fun r hr _ _ => hr) fun _ _ _ => rfl
  · intro _
    exact ⟨_, hrun, Nat.le_refl _, Nat.le_of_eq (by rw [hwhole])⟩

theorem Layout.takeFree_mem (hl : Layout h slots chains live) {c p n : Nat} (hc : c < 16)
    (hp : h.lists c = some p) {b : HeapBlock} (hb : b ∈ live) {a : Nat} (ha : b.HasByte a) :
    (({ h with lists := Function.update h.lists c (h.next p) } : Heap).setSize
      (p - heapHeader) n).mem a = h.mem a := by
  obtain ⟨-, -, s, hs, -, hfree, rfl⟩ := hl.head_slot hc hp
  obtain ⟨rest, hl⟩ := hl.front hs
  have hne : b.ptr ≠ s.ptr := by
    obtain ⟨t, ht, hheld, hptr⟩ := hl.slot_of_live hb
    rcases List.mem_cons.mp ht with rfl | ht
    · rw [hfree] at hheld
      cases hheld
    · exact hptr ▸ hl.ptr_ne ht
  have hout := hl.other_slot hb hne ha
  have hlen := (hl.sound s List.mem_cons_self).len_ge
  rw [ptr_sub]
  exact Heap.setSize_mem_of_out _ (by omega)

/-- **`malloc`.** -/
theorem Layout.malloc (hl : Layout h slots chains live) {answer : Nat → Option Nat}
    (hfresh : h.Fresh answer) {n : Nat} (hn : n ≤ sizeMax) :
    Grows h live n (h.malloc answer n) := by
  rw [Heap.malloc]
  cases hclass : heapClassFor (if n = 0 then 1 else n) with
  | none =>
    have hbig := heapClassFor_none hclass
    have hne : n ≠ 0 := by
      intro h0
      simp [h0] at hbig
    rw [if_neg hne] at hbig
    simp only
    split
    · exact hl.grows_none n
    · exact hl.large hfresh hbig (by omega)
  | some c =>
    obtain ⟨hc, hsize⟩ := heapClassFor_some hclass
    have hfit : n ≤ classSize c := by
      by_cases h0 : n = 0
      · omega
      · rwa [if_neg h0] at hsize
    simp only
    cases hlist : h.lists c with
    | some p =>
      exact ⟨hl.takeFree hc hlist hfit, fun b hb a ha => hl.takeFree_mem hc hlist hb ha⟩
    | none =>
      by_cases hshort : h.left < heapHeader + classSize c
      · simp only [Heap.heapCarve, if_pos hshort]
        rcases hl.memAlloc hfresh heapArenaSize (by decide) (by decide) with
          hnone | ⟨p, hsome, hl', hslots, -⟩
        · rw [hnone]
          exact hl.grows_none n
        · rw [hsome]
          have hroom : heapHeader + classSize c ≤ heapArenaSize := by
            have := (classSize_bounds hc).2
            simp only [heapHeader, heapArenaSize]
            omega
          exact (hl'.newArena (List.mem_append_right _ List.mem_cons_self) hslots).carve hc hfit hroom
      · simp only [Heap.heapCarve, if_neg hshort]
        exact hl.carve hc hfit (Nat.not_lt.mp hshort)

end Libc
