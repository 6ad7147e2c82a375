import StrawOS.Fat.Load

/-!
# The entries of a directory

`entryAt` is the node that `fat_load_dir` makes of one slot, and `readSlots_entries`
says that these nodes are all.  `fatLoadDir_reads` holds on any table and with
I/O errors.
-/

-- Unification counts down the literal 512 of the sector size.
set_option maxRecDepth 2000

namespace Fat

/-! ## Slots and nodes -/

/-- The long name collected in front of slot `p`, unless the directory ends before. -/
def lfnBefore (slots : List Slot) (p : Nat) : Option LfnState :=
  (readSlots 0 .empty (slots.take p)).2

/-- The node that slot `p` becomes. -/
def entryAt (slots : List Slot) (p : Nat) : Option DirEntry :=
  match lfnBefore slots p, slots[p]? with
  | some l, some e =>
      match fatReadSlot l e with
      | .entry name count => some (slotEntry e (32 * p) name count)
      | _ => none
  | _, _ => none

theorem entryAt_append {xs ys : List Slot} {p : Nat} (hp : p < xs.length) :
    entryAt (xs ++ ys) p = entryAt xs p := by
  unfold entryAt lfnBefore
  rw [List.take_append_of_le_length (Nat.le_of_lt hp), List.getElem?_append_left hp]

/-- `fat_load_dir` makes the nodes of the slots. -/
theorem readSlots_entries (slots : List Slot) :
    (readSlots 0 .empty slots).1 = (List.range slots.length).filterMap (entryAt slots) := by
  induction slots using List.reverseRecOn with
  | nil => rfl
  | append_singleton xs e ih =>
    have hbefore : (List.range xs.length).filterMap (entryAt (xs ++ [e])) =
        (readSlots 0 .empty xs).1 := by
      rw [ih]
      apply List.filterMap_congr
      intro p hp
      exact entryAt_append (List.mem_range.mp hp)
    have hlast : entryAt (xs ++ [e]) xs.length =
        match (readSlots 0 .empty xs).2 with
        | some l =>
            match fatReadSlot l e with
            | .entry name count => some (slotEntry e (32 * xs.length) name count)
            | _ => none
        | none => none := by
      unfold entryAt lfnBefore
      rw [List.take_append_of_le_length (Nat.le_refl _), List.take_length, List.getElem?_concat_length]
      cases (readSlots 0 .empty xs).2 <;> rfl
    rw [List.length_append, List.length_singleton, List.range_succ, List.filterMap_append, hbefore,
      readSlots_append]
    cases hmore : (readSlots 0 .empty xs).2 with
    | none =>
      rw [hmore] at hlast
      simp [hlast]
    | some l =>
      rw [hmore] at hlast
      dsimp only at hlast ⊢
      rw [readSlots, Nat.zero_add]
      cases hk : fatReadSlot l e with
      | last =>
        rw [hk] at hlast
        simp [hlast]
      | skip l' =>
        rw [hk] at hlast
        simp [hlast, readSlots]
      | entry name count =>
        rw [hk] at hlast
        simp [hlast, readSlots]

theorem mem_entries {slots : List Slot} {E : DirEntry} :
    E ∈ (readSlots 0 .empty slots).1 ↔ ∃ p, entryAt slots p = some E := by
  rw [readSlots_entries, List.mem_filterMap]
  constructor
  · rintro ⟨p, -, hp⟩
    exact ⟨p, hp⟩
  · rintro ⟨p, hp⟩
    refine ⟨p, List.mem_range.mpr ?_, hp⟩
    by_contra hge
    rw [entryAt, List.getElem?_eq_none (Nat.not_lt.mp hge)] at hp
    simp at hp

theorem entryAt_spec {slots : List Slot} {p : Nat} {E : DirEntry} (h : entryAt slots p = some E) :
    ∃ l e, lfnBefore slots p = some l ∧ slots[p]? = some e ∧ slotLast e = false ∧
      slotDeleted e = false ∧ slotLfn e = false ∧ E.node.entryOffset = 32 * p % 2 ^ 32 ∧
      (E.node.lfnCount = 0 ∨ E.node.lfnCount = l.count) := by
  unfold entryAt at h
  split at h
  swap
  · cases h
  rename_i l e hl he
  split at h
  swap
  · cases h
  rename_i name count hkind
  obtain rfl := Option.some.inj h
  refine ⟨l, e, hl, he, ?_⟩
  unfold fatReadSlot at hkind
  split at hkind
  · cases hkind
  rename_i hlast
  split at hkind
  · cases hkind
  rename_i hdel
  split at hkind
  · cases hkind
  rename_i hattr
  split at hkind
  · cases hkind
  rw [Bool.not_eq_true] at hlast hdel
  refine ⟨hlast, hdel, by simp [slotLfn, hattr], rfl, ?_⟩
  split at hkind
  · cases hkind
    exact .inr rfl
  · cases hkind
    exact .inl rfl

theorem LfnState.take_count {l : LfnState} {e : Slot} (h : l.count ≤ 20) : (l.take e).count ≤ 20 := by
  unfold LfnState.take
  split
  · exact Nat.zero_le _
  · split
    · dsimp only
      omega
    · exact h

theorem readSlots_count {offset : Nat} {l l' : LfnState} {slots : List Slot} (h : l.count ≤ 20)
    (hmore : (readSlots offset l slots).2 = some l') : l'.count ≤ 20 := by
  induction slots generalizing offset l with
  | nil =>
    cases hmore
    exact h
  | cons e rest ih =>
    have hkind : ∀ l₁, fatReadSlot l e = .skip l₁ → l₁.count ≤ 20 := by
      intro l₁ hskip
      unfold fatReadSlot at hskip
      split at hskip
      · cases hskip
      split at hskip
      · cases hskip
        exact Nat.zero_le _
      split at hskip
      · cases hskip
        exact LfnState.take_count h
      split at hskip
      · cases hskip
        exact Nat.zero_le _
      split at hskip <;> cases hskip
    rw [readSlots] at hmore
    cases hk : fatReadSlot l e with
    | last =>
      rw [hk] at hmore
      cases hmore
    | skip l₁ =>
      rw [hk] at hmore
      exact ih (hkind l₁ hk) hmore
    | entry name count =>
      rw [hk] at hmore
      exact ih (Nat.zero_le _) hmore

theorem entryAt_count {slots : List Slot} {p : Nat} {E : DirEntry} (h : entryAt slots p = some E) :
    E.node.lfnCount ≤ 20 := by
  obtain ⟨l, -, hl, -, -, -, -, -, hcount⟩ := entryAt_spec h
  have hle := readSlots_count (Nat.zero_le 20) hl
  omega

/-! ## The slots that are read -/

variable {fs : Fat32} {g : Geometry} {v : View} {dn : FatNode}

/-- The slots of the first `N` clusters of a directory, on any table. -/
def visitedSlots (g : Geometry) (v : View) (dn : FatNode) (N : Nat) : List Slot :=
  (List.range N).flatMap fun n => clusterSlots g v (roundCluster v dn n)

theorem visitedSlots_succ (N : Nat) :
    visitedSlots g v dn (N + 1) = visitedSlots g v dn N ++ clusterSlots g v (roundCluster v dn N) := by
  simp [visitedSlots, List.range_succ, List.flatMap_append]

@[simp] theorem length_visitedSlots (N : Nat) :
    (visitedSlots g v dn N).length = N * g.slotsPerCluster := by
  induction N with
  | zero => simp [visitedSlots]
  | succ N ih => rw [visitedSlots_succ, List.length_append, ih, clusterSlots_length, Nat.succ_mul]

theorem readSlots_offset {a b : Nat} (l : LfnState) (slots : List Slot) (h : a % 2 ^ 32 = b % 2 ^ 32) :
    readSlots a l slots = readSlots b l slots := by
  induction slots generalizing a b l with
  | nil => rfl
  | cons e rest ih =>
    have hnext : (a + 32) % 2 ^ 32 = (b + 32) % 2 ^ 32 := by omega
    rw [readSlots, readSlots]
    cases fatReadSlot l e with
    | last => rfl
    | skip l' => exact ih l' hnext
    | entry name count =>
      have hnode : slotEntry e a name count = slotEntry e b name count := by
        rw [slotEntry, slotEntry, slotNode, slotNode, h]
      dsimp only
      rw [ih l.drop hnext, hnode]

/-- A round of `fat_load_dir`: it ends without a look at the slots, or reads the ones
of its cluster. -/
theorem fatLoadRound_reads {dn₀ : FatNode} {n : Nat} {s : LoadState}
    (h : DirAt g v dn₀ n s.fs s.dn) (hindex : s.index = n % 2 ^ 32) :
    (∃ r, fatLoadRound s = .done r ∧ r.entries = s.entries) ∨
      g.valid (roundCluster v dn₀ n) = true ∧ ∃ dn' fs',
        DirAt g v dn₀ (n + 1) fs' dn' ∧
        let read := readSlots (n % 2 ^ 32 * g.clusterBytes) s.lfn
          (clusterSlots g v (roundCluster v dn₀ n))
        fatLoadRound s = match read.2 with
          | none => .done ⟨s.entries ++ read.1, dn', fs'⟩
          | some lfn => .again ⟨fs', dn', (n + 1) % 2 ^ 32, lfn, s.entries ++ read.1⟩ := by
  rw [fatLoadRound, hindex]
  generalize hat : fatClusterAt s.fs s.dn (n % 2 ^ 32) = found
  obtain ⟨c, dn', fs'⟩ := found
  dsimp only
  by_cases hc : c = 0
  · rw [if_pos hc]
    exact .inl ⟨_, rfl, rfl⟩
  rw [if_neg hc]
  obtain ⟨hv, rfl, hgot, -⟩ := h.visit hat hc
  cases hread : (blockRead fs'.dev (fs'.geo.lba c) fs'.geo.spc).1 with
  | none => exact .inl ⟨_, rfl, rfl⟩
  | some buf => grind

/-- **What is read.**  On any table, with or without I/O errors, the nodes of
`fat_load_dir` are those of the slots of some first clusters of the directory. -/
theorem fatLoadDir_reads (h : Sees fs g v) (hnew : dn.loaded = false) {rounds : Nat}
    {r : LoadResult} (hrun : fatLoadDir rounds fs dn = some r) :
    ∃ N, (∀ n, n < N → g.valid (roundCluster v dn n) = true) ∧
      r.entries = (readSlots 0 .empty (visitedSlots g v dn N)).1 := by
  rw [fatLoadDir, if_neg (by simp [hnew])] at hrun
  have hoffset : ∀ n, n % 2 ^ 32 * g.clusterBytes % 2 ^ 32 =
      (0 + 32 * (visitedSlots g v dn n).length) % 2 ^ 32 := by
    intro n
    rw [length_visitedSlots, Nat.zero_add, Nat.mul_left_comm, ← g.clusterBytes_eq, Nat.mod_mul_mod]
  have h0 : DirAt g v dn 0 fs { dn with loaded := true } := by
    have hzero := DirAt.zero h dn
    exact ⟨hzero.sees, rfl, hzero.start, hzero.hint⟩
  have hstart : ∃ n, DirAt g v dn n (loadStart fs dn).fs (loadStart fs dn).dn ∧
      (loadStart fs dn).index = n % 2 ^ 32 ∧
      (∀ k, k < n → g.valid (roundCluster v dn k) = true) ∧
      readSlots 0 .empty (visitedSlots g v dn n) =
        ((loadStart fs dn).entries, some (loadStart fs dn).lfn) :=
    ⟨0, h0, rfl, fun _ hk => absurd hk (Nat.not_lt_zero _), rfl⟩
  have hreturns : Loop.Returns fatLoadRound (loadStart fs dn) r := ⟨rounds, hrun⟩
  refine hreturns.induct (P := fun s : LoadState => ∃ n, DirAt g v dn n s.fs s.dn ∧
      s.index = n % 2 ^ 32 ∧ (∀ k, k < n → g.valid (roundCluster v dn k) = true) ∧
      readSlots 0 .empty (visitedSlots g v dn n) = (s.entries, some s.lfn))
    (Q := fun r => ∃ N, (∀ n, n < N → g.valid (roundCluster v dn n) = true) ∧
      r.entries = (readSlots 0 .empty (visitedSlots g v dn N)).1) hstart ?_ ?_
  · rintro s s' ⟨n, hat, hindex, hvalid, hread⟩ hround
    rcases fatLoadRound_reads hat hindex with ⟨r, hdone, -⟩ | ⟨hv, dn', fs', hnext, heq⟩
    · rw [hround] at hdone
      cases hdone
    rw [hround] at heq
    refine ⟨n + 1, ?_⟩
    rw [visitedSlots_succ, readSlots_append, hread]
    dsimp only at heq ⊢
    rw [← readSlots_offset _ _ (hoffset n)]
    split at heq
    · cases heq
    rename_i lfn hlfn
    cases heq
    refine ⟨hnext, rfl, fun k hk => ?_, Prod.ext rfl hlfn⟩
    rcases Nat.lt_succ_iff_lt_or_eq.mp hk with hk | rfl
    · exact hvalid k hk
    · exact hv
  · rintro s r ⟨n, hat, hindex, hvalid, hread⟩ hround
    rcases fatLoadRound_reads hat hindex with ⟨r, hdone, hsame⟩ | ⟨hv, dn', fs', hnext, heq⟩
    · rw [hround] at hdone
      cases hdone
      exact ⟨n, hvalid, by rw [hread, hsame]⟩
    rw [hround] at heq
    refine ⟨n + 1, fun k hk => ?_, ?_⟩
    · grind
    rw [visitedSlots_succ, readSlots_append, hread]
    dsimp only at heq ⊢
    rw [← readSlots_offset _ _ (hoffset n)]
    split at heq
    · cases heq
      rfl
    · cases heq

end Fat
