import StrawOS.Elf.Confine

/-!
# What the relocation tables mean

An image is described at the addresses it was linked for, its *virtual* addresses; the
loader works at these plus `load_bias`.  A relocation is a write of a value to a virtual
address.  Since the tables and the symbols lie in the image that is being written, each
entry is taken from the image that the entries before it have left.
-/

namespace Elf

open AddrSpace

/-! ## The dynamic section -/

section Section

variable (f : File)

/-- The tags and values of the dynamic section at `a`, of at most `n` entries, up to the
null entry. -/
def File.dynEntries (a : UInt64) : Nat → List (UInt64 × UInt64)
  | 0 => []
  | n + 1 =>
      if f.word64 a = dtNull then []
      else (f.word64 a, f.word64 (a + 8)) :: dynEntries (a + dynSize) n

/-- The value of the last entry with a tag. -/
def lastVal (es : List (UInt64 × UInt64)) (tag dflt : UInt64) : UInt64 :=
  (es.reverse.lookup tag).getD dflt

theorem lastVal_cons (e : UInt64 × UInt64) (es : List (UInt64 × UInt64)) (tag dflt : UInt64) :
    lastVal (e :: es) tag dflt = lastVal es tag (if tag = e.1 then e.2 else dflt) := by
  rw [lastVal, lastVal, List.reverse_cons, List.lookup_append]
  cases es.reverse.lookup tag with
  | some val => rfl
  | none => grind

/-- Each variable gets the value of the last entry with its tag. -/
def Dynamic.over (d : Dynamic) (es : List (UInt64 × UInt64)) : Dynamic where
  relaVaddr := lastVal es dtRela d.relaVaddr
  relaSize := lastVal es dtRelasz d.relaSize
  relaEnt := lastVal es dtRelaent d.relaEnt
  jmprelVaddr := lastVal es dtJmprel d.jmprelVaddr
  jmprelSize := lastVal es dtPltrelsz d.jmprelSize
  symtabVaddr := lastVal es dtSymtab d.symtabVaddr

variable {f} {d : Dynamic}

theorem Dynamic.over_slot {e : UInt64 × UInt64} {es : List (UInt64 × UInt64)} :
    d.over (e :: es) = ((d.slot? e.1).elim d fun set => set e.2).over es := by
  obtain ⟨tag, val⟩ := e
  simp only [Dynamic.over, lastVal_cons, Dynamic.slot?]
  by_cases h1 : tag = dtRela
  · subst h1; rfl
  by_cases h2 : tag = dtRelasz
  · subst h2; rfl
  by_cases h3 : tag = dtRelaent
  · subst h3; rfl
  by_cases h4 : tag = dtJmprel
  · subst h4; rfl
  by_cases h5 : tag = dtPltrelsz
  · subst h5; rfl
  by_cases h6 : tag = dtSymtab
  · subst h6; rfl
  simp only [if_neg h1, if_neg h2, if_neg h3, if_neg h4, if_neg h5, if_neg h6, Option.elim,
    if_neg (Ne.symm h1), if_neg (Ne.symm h2), if_neg (Ne.symm h3), if_neg (Ne.symm h4),
    if_neg (Ne.symm h5), if_neg (Ne.symm h6)]

/-- The loop over a dynamic section in the file: the last values, unless there is a
`DT_REL`. -/
theorem readDynamic_eq {a : UInt64} {n : Nat} (h : a.toNat + 16 * n ≤ f.bytes.length) :
    readDynamic f d a n =
      if dtRel ∈ (f.dynEntries a n).map Prod.fst then .error .reject
      else .ok (d.over (f.dynEntries a n)) := by
  induction n generalizing a d with
  | zero => rfl
  | succ n ih =>
    have hlt := f.size_lt
    have h16 : dynSize.toNat = 16 := rfl
    have h8 : (8 : UInt64).toNat = 8 := rfl
    have hnext : (a + dynSize).toNat = a.toNat + 16 := File.toNat_add_of_lt (by omega)
    have hval : (a + 8).toNat = a.toNat + 8 := File.toNat_add_of_lt (by omega)
    have htail := fun d' => @ih d' (a + dynSize) (by omega)
    have hreadTag : f.Holds a 8 := File.holds_of_le (by omega)
    have hreadVal : f.Holds (a + 8) 8 := File.holds_of_le (by omega)
    simp only [readDynamic, File.read64, File.checked_bind, if_pos hreadTag, if_pos hreadVal]
    rw [File.dynEntries]
    by_cases hnull : f.word64 a = dtNull
    · rw [if_pos hnull, if_pos hnull]
      rfl
    · rw [if_neg hnull, if_neg hnull]
      by_cases hrel : f.word64 a = dtRel
      · rw [if_pos hrel, if_pos (by simp [hrel])]
        rfl
      · rw [if_neg hrel, Dynamic.over_slot]
        have hmem : dtRel ∈ ((f.word64 a, f.word64 (a + 8)) :: f.dynEntries (a + dynSize) n).map
            Prod.fst ↔ dtRel ∈ (f.dynEntries (a + dynSize) n).map Prod.fst := by
          simp [Ne.symm hrel]
        simp only [hmem]
        cases d.slot? (f.word64 a) with
        | none => exact htail d
        | some set => exact htail (set (f.word64 (a + 8)))

variable (f)

/-- The dynamic section of the first `PT_DYNAMIC` of the headers. -/
def File.dynamicIn (phs : List UInt64) : Option (List (UInt64 × UInt64)) :=
  (phs.find? fun ph => f.pType ph == ptDynamic).map fun ph =>
    f.dynEntries (f.pOffset ph) (f.pFilesz ph / dynSize).toNat

/-- The dynamic section of the file. -/
def File.dynamic? : Option (List (UInt64 × UInt64)) := f.dynamicIn f.phdrList

variable {f}

/-- The loop over headers in the file whose dynamic sections are in the file. -/
theorem elfDynamic_eq {phs : List UInt64} (hheld : ∀ ph ∈ phs, ph.toNat + 56 ≤ f.bytes.length)
    (hin : ∀ ph, phs.find? (fun ph => f.pType ph == ptDynamic) = some ph →
      (f.pOffset ph).toNat + (f.pFilesz ph).toNat ≤ f.bytes.length) :
    elfDynamic f phs =
      match f.dynamicIn phs with
      | none => .ok none
      | some es =>
          if dtRel ∈ es.map Prod.fst then .error .reject else .ok (some (Dynamic.init.over es)) := by
  induction phs with
  | nil => rfl
  | cons ph phs ih =>
    have hph := hheld ph List.mem_cons_self
    have hlt := f.size_lt
    have htype : f.Holds ph 4 := File.holds_of_le (by omega)
    simp only [elfDynamic, File.read32, File.read64, File.checked_bind, File.require_bind,
      if_pos htype]
    by_cases hdyn : f.word32 ph = ptDynamic
    · have hbeq : (f.pType ph == ptDynamic) = true := by simpa [File.pType] using hdyn
      have hrange := hin ph (by rw [List.find?_cons, hbeq])
      have hsum : f.word64 (ph + 8) + f.word64 (ph + 32) ≤ f.size := by
        rw [UInt64.le_iff_toNat_le, File.size_toNat]
        exact (File.toNat_add_of_lt (lt_of_le_of_lt hrange hlt)).trans_le hrange
      have hfit : (f.pOffset ph).toNat + 16 * (f.pFilesz ph / dynSize).toNat ≤ f.bytes.length := by
        have hdiv : (f.pFilesz ph / dynSize).toNat = (f.pFilesz ph).toNat / 16 := by
          rfl
        omega
      have hoff : f.Holds (ph + 8) 8 := File.field_holds hph (by decide)
      have hsize : f.Holds (ph + 32) 8 := File.field_holds hph (by decide)
      rw [if_neg (not_not.mpr hdyn), if_pos hoff, if_pos hsize, if_pos (by simpa using hsum),
        File.dynamicIn, List.find?_cons, hbeq]
      rw [Option.map_some]
      change (readDynamic f .init (f.pOffset ph) (f.pFilesz ph / dynSize).toNat >>= fun d =>
        pure (some d)) = _
      rw [readDynamic_eq hfit]
      generalize f.dynEntries (f.pOffset ph) (f.pFilesz ph / dynSize).toNat = es
      by_cases hrel : dtRel ∈ es.map Prod.fst
      · simp only [if_pos hrel]
        rfl
      · simp only [if_neg hrel]
        rfl
    · have hbeq : (f.pType ph == ptDynamic) = false := by simpa [File.pType] using hdyn
      rw [if_pos hdyn, File.dynamicIn, List.find?_cons, hbeq]
      refine ih (fun ph' h => hheld ph' (List.mem_cons_of_mem _ h)) fun ph' h => hin ph' ?_
      rw [List.find?_cons, hbeq]
      exact h

end Section

/-! ## Relocations -/

section Relocations

variable (symtab bias : UInt64)

def relaType (V : Mem) (e : UInt64) : UInt32 := elf64RType (load64 V (e + 8))

/-- The address of the symbol of an entry. -/
def relaSym (V : Mem) (e : UInt64) : UInt64 := symAt symtab (elf64RSym (load64 V (e + 8)))

/-- The symbol of an entry is defined: there is a symbol table, which the loader does not
take for a null pointer, and its entry for the symbol has a section. -/
def Defined (V : Mem) (e : UInt64) : Prop :=
  symtab ≠ 0 ∧ symtab + bias ≠ 0 ∧ elf64RSym (load64 V (e + 8)) ≠ 0 ∧
    load16 V (relaSym symtab V e + 6) ≠ shnUndef

/-- The entry is of a supported kind, and its symbol defined. -/
def Supported (V : Mem) (e : UInt64) : Prop :=
  relaType V e = rNone ∨ relaType V e = rRelative ∨
    ((relaType V e = r64 ∨ relaType V e = rGlobDat ∨ relaType V e = rJumpSlot) ∧
      Defined symtab bias V e)

/-- The value of an entry: `B + A`, `S + A` or `S`. -/
def relaValue (V : Mem) (e : UInt64) : UInt64 :=
  let addend := load64 V (e + 16)
  let symbol := load64 V (relaSym symtab V e + 8) + bias
  if relaType V e = rRelative then bias + addend
  else if relaType V e = r64 then symbol + addend
  else symbol

/-- What an entry writes to the image. -/
def relaWrites (V : Mem) (e : UInt64) : List Write :=
  if relaType V e = rNone then [] else [word64 (load64 V e) (relaValue symtab bias V e)]

/-- What the entries of a list write, each read from the image as it is then. -/
def tableWrites (V : Mem) : List UInt64 → List Write
  | [] => []
  | e :: es =>
      relaWrites symtab bias V e ++ tableWrites (storeAll V (relaWrites symtab bias V e)) es

/-- Every entry of the list is supported when its turn comes. -/
def AllSupported (V : Mem) : List UInt64 → Prop
  | [] => True
  | e :: es => Supported symtab bias V e ∧ AllSupported (storeAll V (relaWrites symtab bias V e)) es

/-- The `n` entries of a table at `a`. -/
def entriesFrom (a : UInt64) (n : Nat) : List UInt64 :=
  (List.range n).map fun k => a + relaSize * .ofNat k

/-- The entries of a table: none when its address or its size is zero. -/
def tableEntries (vaddr size : UInt64) : List UInt64 :=
  if vaddr ≠ 0 ∧ size ≠ 0 then entriesFrom vaddr (size / relaSize).toNat else []

variable {symtab bias} {mem V : Mem} {e : UInt64} {es : List UInt64}

theorem tableWrites_append (es' : List UInt64) :
    tableWrites symtab bias V (es ++ es') = tableWrites symtab bias V es ++
      tableWrites symtab bias (storeAll V (tableWrites symtab bias V es)) es' := by
  induction es generalizing V with
  | nil => rfl
  | cons e es ih =>
    rw [List.cons_append, tableWrites, tableWrites, ih, storeAll_append, List.append_assoc]

theorem allSupported_append (es' : List UInt64) :
    AllSupported symtab bias V (es ++ es') ↔ AllSupported symtab bias V es ∧
      AllSupported symtab bias (storeAll V (tableWrites symtab bias V es)) es' := by
  induction es generalizing V with
  | nil => simp [AllSupported, tableWrites]
  | cons e es ih =>
    rw [List.cons_append, AllSupported, AllSupported, tableWrites, ih, storeAll_append, and_assoc]

/-- The address of the symbol table in memory. -/
def symtabPtr (symtab bias : UInt64) : UInt64 := if symtab ≠ 0 then symtab + bias else 0

theorem symAt_up (i : UInt32) : symAt (symtab + bias) i = symAt symtab i + bias := by
  simp only [symAt]
  grind

theorem load64_up {a k : UInt64} : load64 mem (a + bias + k) = load64 (shift bias mem) (a + k) := by
  rw [load64_shift]
  congr 1
  grind

theorem load16_up {a k : UInt64} : load16 mem (a + bias + k) = load16 (shift bias mem) (a + k) := by
  rw [load16_shift]
  congr 1
  grind

theorem applyRela_eq (symtab : UInt64) : applyRela symtab bias mem (e + bias) =
    if relaType (shift bias mem) e = rNone then some mem
    else if relaType (shift bias mem) e = rRelative then
      some (store mem ((word64 (load64 (shift bias mem) e)
        (load64 (shift bias mem) (e + 16) + bias)).up bias))
    else if relaType (shift bias mem) e ≠ r64 ∧ relaType (shift bias mem) e ≠ rGlobDat ∧
        relaType (shift bias mem) e ≠ rJumpSlot then none
    else
      let i := elf64RSym (load64 (shift bias mem) (e + 8))
      if symtab = 0 ∨ i = 0 ∨ load16 mem (symAt symtab i + 6) = shnUndef then none
      else
        let value := load64 mem (symAt symtab i + 8) + bias
        some (store mem ((word64 (load64 (shift bias mem) e)
          (if relaType (shift bias mem) e = r64 then value + load64 (shift bias mem) (e + 16)
          else value)).up bias)) := by
  have hoffset : load64 mem (e + bias) = load64 (shift bias mem) e := load64_shift.symm
  simp only [applyRela, load64_up, hoffset]
  rfl

theorem applyRela_of_supported (h : Supported symtab bias (shift bias mem) e) :
    applyRela (symtabPtr symtab bias) bias mem (e + bias) =
      some (storeAll mem ((relaWrites symtab bias (shift bias mem) e).map (Write.up bias))) := by
  rw [applyRela_eq, relaWrites]
  rcases h with h | h | ⟨hkind, hsym, hptr, hidx, hdef⟩
  · rw [if_pos h, if_pos h]
    rfl
  · have hne : ¬ relaType (shift bias mem) e = rNone := by rw [h]; decide
    have hval : relaValue symtab bias (shift bias mem) e =
        load64 (shift bias mem) (e + 16) + bias := by
      rw [relaValue, if_pos h, UInt64.add_comm]
    rw [if_neg hne, if_pos h, if_neg hne, hval]
    rfl
  · have hne : ¬ relaType (shift bias mem) e = rNone := by
      rcases hkind with h | h | h <;> rw [h] <;> decide
    have hrel : ¬ relaType (shift bias mem) e = rRelative := by
      rcases hkind with h | h | h <;> rw [h] <;> decide
    have hother : ¬ (relaType (shift bias mem) e ≠ r64 ∧ relaType (shift bias mem) e ≠ rGlobDat ∧
        relaType (shift bias mem) e ≠ rJumpSlot) := by grind
    have hsymtab : symtabPtr symtab bias = symtab + bias := if_pos hsym
    have hfound : ¬ (symtab + bias = 0 ∨ elf64RSym (load64 (shift bias mem) (e + 8)) = 0 ∨
        load16 (shift bias mem) (relaSym symtab (shift bias mem) e + 6) = shnUndef) := by
      rintro (h | h | h)
      · exact hptr h
      · exact hidx h
      · exact hdef h
    rw [if_neg hne, if_neg hrel, if_neg hother, hsymtab]
    dsimp only
    rw [symAt_up, load16_up, load64_up, if_neg hne, relaValue, if_neg hrel]
    exact if_neg hfound

theorem applyRela_of_not (h : ¬ Supported symtab bias (shift bias mem) e) :
    applyRela (symtabPtr symtab bias) bias mem (e + bias) = none := by
  rw [applyRela_eq]
  obtain ⟨hne, hrel, hrest⟩ : ¬ relaType (shift bias mem) e = rNone ∧
      ¬ relaType (shift bias mem) e = rRelative ∧
      ¬ ((relaType (shift bias mem) e = r64 ∨ relaType (shift bias mem) e = rGlobDat ∨
        relaType (shift bias mem) e = rJumpSlot) ∧ Defined symtab bias (shift bias mem) e) := by
    simpa only [Supported, not_or] using h
  rw [if_neg hne, if_neg hrel]
  by_cases hkind : relaType (shift bias mem) e = r64 ∨ relaType (shift bias mem) e = rGlobDat ∨
      relaType (shift bias mem) e = rJumpSlot
  · have hundef : ¬ Defined symtab bias (shift bias mem) e := fun hd => hrest ⟨hkind, hd⟩
    rw [if_neg (by simpa only [ne_eq, ← not_or, not_not] using hkind), if_pos]
    by_contra hno
    obtain ⟨hptr, hidx, hdef⟩ : ¬ symtabPtr symtab bias = 0 ∧ _ ∧ _ := by
      simpa only [not_or] using hno
    have hsym : symtab ≠ 0 := fun h0 => hptr (by rw [symtabPtr, h0]; rfl)
    have hsymtab : symtabPtr symtab bias = symtab + bias := if_pos hsym
    rw [hsymtab] at hptr hdef
    rw [symAt_up, load16_up] at hdef
    exact hundef ⟨hsym, hptr, hidx, hdef⟩
  · rw [if_pos]
    simpa only [ne_eq, ← not_or] using hkind

/-! ## Tables -/

theorem entriesFrom_succ (a : UInt64) (n : Nat) :
    entriesFrom a (n + 1) = a :: entriesFrom (a + relaSize) n := by
  rw [entriesFrom, List.range_succ_eq_map, List.map_cons, List.map_map, entriesFrom]
  congr 1
  · simp
  · apply List.map_congr_left
    simp only [Function.comp_apply, Nat.succ_eq_add_one, UInt64.ofNat_add]
    grind

/-- The loop over a table does what its entries say, and ends at the first that is not
supported. -/
theorem elfApplyRelaTable_eq (n : Nat) (a : UInt64) :
    (AllSupported symtab bias (shift bias mem) (entriesFrom a n) →
      elfApplyRelaTable (symtabPtr symtab bias) bias n (a + bias) mem = (storeAll mem
        ((tableWrites symtab bias (shift bias mem) (entriesFrom a n)).map (Write.up bias)), true)) ∧
    (¬ AllSupported symtab bias (shift bias mem) (entriesFrom a n) →
      (elfApplyRelaTable (symtabPtr symtab bias) bias n (a + bias) mem).2 = false) := by
  induction n generalizing a mem with
  | zero => exact ⟨fun _ => rfl, fun h => absurd trivial h⟩
  | succ n ih =>
    rw [entriesFrom_succ, AllSupported, tableWrites, elfApplyRelaTable]
    by_cases hs : Supported symtab bias (shift bias mem) a
    · have hnext : a + bias + relaSize = a + relaSize + bias := by grind
      rw [applyRela_of_supported hs]
      rw [hnext, List.map_append, storeAll_append, ← shift_storeAll]
      obtain ⟨hok, hbad⟩ := @ih (storeAll mem _) (a + relaSize)
      exact ⟨fun h => hok h.2, fun h => hbad fun h' => h ⟨hs, h'⟩⟩
    · rw [applyRela_of_not hs]
      exact ⟨fun h => absurd h.1 hs, fun _ => rfl⟩

/-- The same of a table that is skipped when its address or its size is zero. -/
theorem applyTable_eq (vaddr size : UInt64) :
    (AllSupported symtab bias (shift bias mem) (tableEntries vaddr size) →
      applyTable (symtabPtr symtab bias) bias vaddr size relaSize mem = (storeAll mem
        ((tableWrites symtab bias (shift bias mem) (tableEntries vaddr size)).map (Write.up bias)),
        true)) ∧
    (¬ AllSupported symtab bias (shift bias mem) (tableEntries vaddr size) →
      (applyTable (symtabPtr symtab bias) bias vaddr size relaSize mem).2 = false) := by
  rw [tableEntries, applyTable]
  by_cases h : vaddr ≠ 0 ∧ size ≠ 0
  · rw [if_pos h, if_pos h]
    exact elfApplyRelaTable_eq _ vaddr
  · rw [if_neg h, if_neg h]
    exact ⟨fun _ => rfl, fun hno => absurd trivial hno⟩

end Relocations

/-! ## All relocations of a file -/

/-- The entries of the two tables, in the order they are applied. -/
def Dynamic.entries (d : Dynamic) : List UInt64 :=
  tableEntries d.relaVaddr d.relaSize ++ tableEntries d.jmprelVaddr d.jmprelSize

theorem applyTables_eq {bias : UInt64} {mem : Mem} {d : Dynamic} (hent : d.relaEnt = relaSize) :
    (AllSupported d.symtabVaddr bias (shift bias mem) d.entries →
      applyTables d bias mem = (storeAll mem
        ((tableWrites d.symtabVaddr bias (shift bias mem) d.entries).map (Write.up bias)),
        .ok ())) ∧
    (¬ AllSupported d.symtabVaddr bias (shift bias mem) d.entries →
      (applyTables d bias mem).2 = .error .reject) := by
  obtain ⟨hok, hbad⟩ := @applyTable_eq d.symtabVaddr bias mem d.relaVaddr d.relaSize
  rw [Dynamic.entries, allSupported_append, tableWrites_append, List.map_append, storeAll_append,
    ← shift_storeAll]
  simp only [applyTables, hent]
  rw [← symtabPtr]
  by_cases hfirst : AllSupported d.symtabVaddr bias (shift bias mem)
      (tableEntries d.relaVaddr d.relaSize)
  · rw [hok hfirst]
    dsimp only
    obtain ⟨hok', hbad'⟩ := @applyTable_eq d.symtabVaddr bias
      (storeAll mem ((tableWrites d.symtabVaddr bias (shift bias mem)
        (tableEntries d.relaVaddr d.relaSize)).map (Write.up bias))) d.jmprelVaddr d.jmprelSize
    refine ⟨fun h => by rw [hok' h.2], fun h => ?_⟩
    have hsecond := hbad' fun h' => h ⟨hfirst, h'⟩
    generalize applyTable _ _ _ _ _ _ = got at hsecond
    obtain ⟨mem', ok⟩ := got
    subst hsecond
    rfl
  · grind

/-- The relocations of a file are of the supported kinds, with defined symbols. -/
def File.Relocatable (f : File) (bias : UInt64) (V : Mem) : Prop :=
  ∀ es, f.dynamic? = some es → dtRel ∉ es.map Prod.fst ∧
    (Dynamic.init.over es).relaEnt = relaSize ∧
    AllSupported (Dynamic.init.over es).symtabVaddr bias V (Dynamic.init.over es).entries

/-- What the relocations of a file write. -/
def File.relocationWrites (f : File) (bias : UInt64) (V : Mem) : List Write :=
  match f.dynamic? with
  | none => []
  | some es => tableWrites (Dynamic.init.over es).symtabVaddr bias V (Dynamic.init.over es).entries

variable {f : File} {bias : UInt64} {mem : Mem}

/-- `elf_apply_relocations` applies the relocations of a file, or refuses it. -/
theorem elfApplyRelocations_eq
    (hheld : ∀ ph ∈ f.phdrList, ph.toNat + 56 ≤ f.bytes.length)
    (hin : ∀ ph, f.phdrList.find? (fun ph => f.pType ph == ptDynamic) = some ph →
      (f.pOffset ph).toNat + (f.pFilesz ph).toNat ≤ f.bytes.length) :
    (f.Relocatable bias (shift bias mem) → elfApplyRelocations f bias mem =
      (storeAll mem ((f.relocationWrites bias (shift bias mem)).map (Write.up bias)), .ok ())) ∧
    (¬ f.Relocatable bias (shift bias mem) →
      (elfApplyRelocations f bias mem).2 = .error .reject) := by
  rw [elfApplyRelocations, elfDynamic_eq hheld hin, File.Relocatable, File.relocationWrites]
  change ((∀ es, f.dynamicIn f.phdrList = some es → _) → _ = (storeAll mem (List.map _
    (match f.dynamicIn f.phdrList with | none => _ | some es => _)), _)) ∧
    (¬ (∀ es, f.dynamicIn f.phdrList = some es → _) → _)
  cases f.dynamicIn f.phdrList with
  | none => exact ⟨fun _ => rfl, fun h => absurd (fun es hes => absurd hes nofun) h⟩
  | some es =>
    simp only [Option.some.injEq, forall_eq']
    by_cases hrel : dtRel ∈ es.map Prod.fst
    · simp only [if_pos hrel]
      exact ⟨fun h => absurd hrel h.1, fun _ => trivial⟩
    simp only [if_neg hrel]
    generalize Dynamic.init.over es = d
    by_cases hent : d.relaEnt = relaSize
    swap
    · rw [if_pos hent]
      exact ⟨fun h => absurd h.2.1 hent, fun _ => rfl⟩
    rw [if_neg (not_not.mpr hent)]
    obtain ⟨hok, hbad⟩ := @applyTables_eq bias mem d hent
    exact ⟨fun h => hok h.2.2, fun h => hbad fun hall => h ⟨hrel, hent, hall⟩⟩

end Elf
