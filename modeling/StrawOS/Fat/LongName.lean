import StrawOS.Fat.Entries

/-!
# Long names on the volume

`fat_add_entry` cuts a name into pieces of 13 characters, the last piece first,
and ties them to the short slot by a checksum.  `entrySlots_decoded` says what
`fat_load_dir` makes of the slots, whatever it had collected before: the same
short name and the same number of slots, and the name with `_` in the place of
every byte that is not ASCII.
-/

namespace Fat

open Vfs (CString vfsNameMax)

/-! ## The pieces -/

theorem lfnSlot_spec (order sum : UInt8) {chars : List UInt16} (hlen : chars.length = 13) :
    (lfnSlot order sum chars).length = 32 ∧ slotByte (lfnSlot order sum chars) 0 = order ∧
      slotByte (lfnSlot order sum chars) 11 = attrLfn ∧
      slotByte (lfnSlot order sum chars) 13 = sum ∧ lfnChars (lfnSlot order sum chars) = chars := by
  match chars, hlen with
  | [c0, c1, c2, c3, c4, c5, c6, c7, c8, c9, c10, c11, c12], _ =>
    refine ⟨?_, ?_, ?_, ?_, ?_⟩
    · simp [lfnSlot, Endian.store16]
    · simp [lfnSlot, slotByte]
    · simp [lfnSlot, slotByte, Endian.store16]
    · simp [lfnSlot, slotByte, Endian.store16]
    · simp [lfnChars, lfnSlot, slot16, slotByte, Endian.store16, List.range_succ,
        Endian.le16_byteAt]

/-- The order byte of slot `i` of a long name of `m` slots. -/
def lfnOrder (m i : Nat) : UInt8 := .ofNat (m - i) ||| if i = 0 then 0x40 else 0

theorem lfnOrder_spec {m i : Nat} (hm : m ≤ 20) (hi : i < m) :
    (lfnOrder m i &&& 0x1F).toNat = m - i ∧ (lfnOrder m i &&& 0x40 != 0) = decide (i = 0) ∧
      lfnOrder m i ≠ 0 ∧ lfnOrder m i ≠ deletedMark := by
  have hseq : ∀ k : Fin 21, k.val ≠ 0 → ∀ first : Bool,
      ((UInt8.ofNat k.val ||| if first then 0x40 else 0) &&& 0x1F).toNat = k.val ∧
        (((UInt8.ofNat k.val ||| if first then 0x40 else 0) &&& 0x40 != 0) = first) ∧
        (UInt8.ofNat k.val ||| if first then 0x40 else 0) ≠ 0 ∧
        (UInt8.ofNat k.val ||| if first then 0x40 else 0) ≠ deletedMark := by decide
  have h := hseq ⟨m - i, by omega⟩ (by dsimp only; omega) (decide (i = 0))
  simpa [lfnOrder] using h

theorem lfnCountOf_bounds {name : CString} (hne : name ≠ []) (hlen : name.length < vfsNameMax) :
    0 < lfnCountOf name ∧ lfnCountOf name ≤ 5 ∧ name.length ≤ lfnCountOf name * lfnPiece := by
  have hpos : 0 < name.length := List.length_pos_iff.mpr hne
  unfold lfnCountOf
  unfold vfsNameMax at hlen
  unfold lfnPiece
  omega

section
variable {name : CString} {sum : UInt8}

/-- The characters of slot `i`. -/
def pieceChars (name : CString) (i : Nat) : List UInt16 :=
  (List.range lfnPiece).map fun k => lfnChar name ((lfnCountOf name - i - 1) * lfnPiece + k)

theorem lfnSlotOf_eq (i : Nat) :
    lfnSlotOf name sum i = lfnSlot (lfnOrder (lfnCountOf name) i) sum (pieceChars name i) := rfl

@[simp] theorem length_pieceChars (i : Nat) : (pieceChars name i).length = 13 := by
  simp [pieceChars]

theorem lfnSlotOf_spec (hm : lfnCountOf name ≤ 20) {i : Nat} (hi : i < lfnCountOf name)
    (l : LfnState) :
    (lfnSlotOf name sum i).length = 32 ∧ slotLfn (lfnSlotOf name sum i) = true ∧
      fatReadSlot l (lfnSlotOf name sum i) = .skip (l.take (lfnSlotOf name sum i)) := by
  obtain ⟨hlen, hfirst, hattr, -, -⟩ :=
    lfnSlot_spec (lfnOrder (lfnCountOf name) i) sum (@length_pieceChars name i)
  obtain ⟨-, -, hne0, hned⟩ := lfnOrder_spec hm hi
  rw [← lfnSlotOf_eq] at hlen hfirst hattr
  have hlast : slotLast (lfnSlotOf name sum i) = false := by simp [slotLast, hfirst, hne0]
  have hdel : slotDeleted (lfnSlotOf name sum i) = false := by
    rw [slotDeleted, hfirst]
    simpa using hned
  refine ⟨hlen, by rw [slotLfn, hlast, hdel, hattr]; rfl, ?_⟩
  rw [fatReadSlot, if_neg (by simp [hlast]), if_neg (by simp [hdel]), if_pos hattr]

/-- What was collected after the first `i` slots of a long name. -/
structure Collected (name : CString) (sum : UInt8) (i : Nat) (l : LfnState) : Prop where
  count : l.count = lfnCountOf name
  sum : l.sum = sum
  chars : ∀ k, (lfnCountOf name - i) * lfnPiece ≤ k → k < lfnCountOf name * lfnPiece →
    l.chars k = lfnChar name k

/-- One more slot: the first begins a new name, each other adds its piece. -/
theorem LfnState.take_lfnSlotOf (hm : lfnCountOf name ≤ 20) {i : Nat} (hi : i < lfnCountOf name)
    {l : LfnState} (hl : i ≠ 0 → Collected name sum i l) :
    Collected name sum (i + 1) (l.take (lfnSlotOf name sum i)) := by
  obtain ⟨-, hfirst, -, hsum, hchars⟩ :=
    lfnSlot_spec (lfnOrder (lfnCountOf name) i) sum (@length_pieceChars name i)
  obtain ⟨hseq, hstart, -, -⟩ := lfnOrder_spec hm hi
  rw [← lfnSlotOf_eq] at hfirst hsum hchars
  have hseq' : lfnSeq (lfnSlotOf name sum i) = lfnCountOf name - i := by
    rw [lfnSeq, hfirst, hseq]
  have hstart' : lfnFirst (lfnSlotOf name sum i) = decide (i = 0) := by
    rw [lfnFirst, hfirst, hstart]
  have hpiece : ∀ (b : Nat → UInt16) k, (lfnCountOf name - (i + 1)) * lfnPiece ≤ k →
      k < (lfnCountOf name - i) * lfnPiece →
      Buf.write b ((lfnCountOf name - i - 1) * lfnPiece) (pieceChars name i) k = lfnChar name k := by
    intro b k hk hlt
    rw [Nat.sub_add_eq] at hk
    obtain ⟨j, rfl⟩ := Nat.exists_eq_add_of_le hk
    have hj : j < 13 := by
      unfold lfnPiece at hlt
      omega
    rw [Buf.write_of_mem (by simpa using hj)]
    simp [pieceChars]
  have hrest : ∀ (b : Nat → UInt16) k, (lfnCountOf name - i) * lfnPiece ≤ k →
      Buf.write b ((lfnCountOf name - i - 1) * lfnPiece) (pieceChars name i) k = b k := by
    intro b k hk
    apply Buf.write_of_ge
    rw [length_pieceChars]
    unfold lfnPiece at hk ⊢
    omega
  unfold LfnState.take
  rw [hseq', hstart', hchars, hsum, if_neg (by omega)]
  by_cases h0 : i = 0
  · subst h0
    refine ⟨rfl, rfl, fun k hk hlt => ?_⟩
    dsimp only
    exact hpiece _ k hk (by simpa using hlt)
  · obtain ⟨hcount, hs, hold⟩ := hl h0
    simp only [h0, decide_false, Bool.false_eq_true, if_false]
    refine ⟨hcount, hs, fun k hk hlt => ?_⟩
    by_cases hmine : k < (lfnCountOf name - i) * lfnPiece
    · exact hpiece _ k hk hmine
    · grind

theorem readSlots_lfn (hm : lfnCountOf name ≤ 20) (offset : Nat) (l : LfnState) {i : Nat}
    (hi : i ≤ lfnCountOf name) :
    ∃ l', readSlots offset l ((List.range i).map (lfnSlotOf name sum)) = ([], some l') ∧
      (i ≠ 0 → Collected name sum i l') := by
  induction i with
  | zero => exact ⟨l, rfl, fun h0 => absurd rfl h0⟩
  | succ i ih =>
    obtain ⟨l', hread, hcollected⟩ := ih (by omega)
    obtain ⟨-, -, hskip⟩ := @lfnSlotOf_spec name sum hm i (show i < lfnCountOf name by omega) l'
    refine ⟨l'.take (lfnSlotOf name sum i), ?_, fun _ => LfnState.take_lfnSlotOf hm (by omega) hcollected⟩
    rw [List.range_succ, List.map_append, readSlots_append, hread]
    simp [readSlots, hskip]

end

/-! ## The name that is read back -/

/-- A name with `_` in the place of the bytes that are not ASCII. -/
def asciiName (name : CString) : CString := name.map fun b => if b < 0x80 then b else 95

theorem asciiName_eq_iff {name : CString} : asciiName name = name ↔ ∀ b ∈ name, b < 0x80 := by
  unfold asciiName
  constructor
  · grind
  · intro hall
    have hmap : name.map (fun b => if b < 0x80 then b else 95) = name.map id :=
      List.map_congr_left fun b hb => if_pos (hall b hb)
    rw [hmap, List.map_id]

theorem map_lfnChar {name : CString} {n : Nat} (hn : name.length ≤ n) :
    ∃ filler : List UInt16, (List.range n).map (lfnChar name) = name.map UInt8.toUInt16 ++ filler ∧
      ∀ c, filler.head? = some c → c = 0 := by
  obtain ⟨k, rfl⟩ := Nat.exists_eq_add_of_le hn
  refine ⟨(List.range k).map fun j => lfnChar name (name.length + j), ?_, ?_⟩
  · rw [List.range_add, List.map_append, List.map_map]
    congr 1
    apply List.ext_getElem
    · simp
    · intro i h1 h2
      have hi : i < name.length := by simpa using h1
      simp [lfnChar, hi]
  · intro c hc
    cases k with
    | zero => simp at hc
    | succ k =>
      rw [List.range_succ_eq_map, List.map_cons, List.head?_cons] at hc
      rw [← Option.some.inj hc]
      simp [lfnChar]

/-- **The name of the collected characters.** -/
theorem Collected.name {name : CString} {sum : UInt8} {l : LfnState} (hzero : 0 ∉ name)
    (hlen : name.length < vfsNameMax) (hfits : name.length ≤ lfnCountOf name * lfnPiece)
    (h : Collected name sum (lfnCountOf name) l) : l.name = asciiName name := by
  have hchars : (List.range (l.count * lfnPiece)).map l.chars =
      (List.range (lfnCountOf name * lfnPiece)).map (lfnChar name) := by
    rw [h.count]
    apply List.map_congr_left
    intro k hk
    exact h.chars k (by simp) (List.mem_range.mp hk)
  obtain ⟨filler, hmap, hhead⟩ := map_lfnChar hfits
  have hgo : ∀ ch ∈ name.map UInt8.toUInt16, (ch != 0 && ch != 0xFFFF) = true := by
    intro ch hch
    obtain ⟨b, hb, rfl⟩ := List.mem_map.mp hch
    have hb0 : b ≠ 0 := fun heq => hzero (heq ▸ hb)
    have hwide : ∀ b : UInt8, b ≠ 0 → (b.toUInt16 != 0 && b.toUInt16 != 0xFFFF) = true := by
      intro b hb
      have hlt := b.toNat_lt
      have hne : b.toUInt16 ≠ 0 := fun heq => hb (by
        have := congrArg UInt16.toNat heq
        exact UInt8.toNat_inj.mp (by simpa using this))
      have hne' : b.toUInt16 ≠ 0xFFFF := fun heq => by
        have := congrArg UInt16.toNat heq
        simp at this
        omega
      simp [hne, hne']
    exact hwide b hb0
  have hstop : filler.takeWhile (fun ch => ch != 0 && ch != 0xFFFF) = [] := by
    cases filler with
    | nil => rfl
    | cons c rest =>
      have hc := hhead c rfl
      simp [hc]
  unfold LfnState.name
  rw [hchars, hmap, List.takeWhile_append_of_pos hgo, hstop, List.append_nil,
    List.take_of_length_le (by rw [List.length_map]; omega), List.map_map, asciiName]
  apply List.map_congr_left
  intro b _
  have hiff : b.toUInt16 < 0x80 ↔ b < 0x80 := by
    simp [UInt16.lt_iff_toNat_lt, UInt8.lt_iff_toNat_lt]
  simp [lfnNarrow, hiff]

theorem LfnState.name_ascii (l : LfnState) : ∀ b ∈ l.name, b < 0x80 := by
  intro b hb
  obtain ⟨ch, -, rfl⟩ := List.mem_map.mp hb
  unfold lfnNarrow
  split
  · rename_i hlt
    have hnat := UInt16.lt_iff_toNat_lt.mp hlt
    apply UInt8.lt_iff_toNat_lt.mpr
    simp at hnat ⊢
    omega
  · decide

/-! ## The short name -/

theorem fatMakeShortLoop_spec {taken : List (List UInt8)} {name : CString} {left num : Nat}
    {shortName : List UInt8} (h : fatMakeShortLoop taken name left num = some shortName) :
    shortName ∉ taken ∧ ∃ k, k < num + left ∧ shortName = shortCandidate name k := by
  induction left generalizing num with
  | zero => cases h
  | succ left ih =>
    rw [fatMakeShortLoop] at h
    split at h
    · obtain ⟨hfree, k, hk, heq⟩ := ih h
      exact ⟨hfree, k, by omega, heq⟩
    · grind

theorem length_shortTail {num : Nat} (h : num < 10 ^ 6) : (shortTail num).length ≤ 7 := by
  rw [shortTail, List.length_cons, List.length_map]
  have := (Nat.length_toDigits_le_iff (b := 10) (n := num) (by decide) (k := 6) (by decide)).mpr h
  omega

theorem shortBase_spec (name : CString) :
    ∃ c rest, shortBase name = c :: rest ∧ fatShortChar c = true := by
  unfold shortBase
  split
  · exact ⟨95, [], rfl, by decide⟩
  · rename_i hne
    obtain ⟨c, rest, heq⟩ := List.exists_cons_of_ne_nil hne
    refine ⟨c, rest, heq, ?_⟩
    have hmem : c ∈ shortChars (splitDot name).1 :=
      List.mem_of_mem_take (heq ▸ List.mem_cons_self)
    exact (List.mem_filter.mp hmem).2

/-- A short name has 11 characters, and its first one means nothing special. -/
theorem shortCandidate_spec {name : CString} {num : Nat} (hnum : num < 10 ^ 6) :
    (shortCandidate name num).length = 11 ∧
      ∃ c rest, shortCandidate name num = c :: rest ∧ c ≠ 0 ∧ c ≠ deletedMark ∧ c ≠ 46 := by
  have htail := length_shortTail hnum
  obtain ⟨c, rest, hbase, hc⟩ := shortBase_spec name
  obtain ⟨k, hk⟩ : ∃ k, 8 - (shortTail num).length = k + 1 := ⟨7 - (shortTail num).length, by omega⟩
  constructor
  · simp only [shortCandidate, List.length_append, List.length_take, List.length_replicate]
    omega
  · have hcand : ∃ more, shortCandidate name num = c :: more := by
      simp only [shortCandidate, hk, hbase, List.take_succ_cons, List.cons_append]
      exact ⟨_, rfl⟩
    obtain ⟨more, hmore⟩ := hcand
    refine ⟨c, more, hmore, ?_, ?_, ?_⟩ <;>
    · rintro rfl
      exact absurd hc (by decide)

/-- What `fat_make_short` returns. -/
theorem fatMakeShort_spec {taken : List (List UInt8)} {name : CString} {shortName : List UInt8}
    (h : fatMakeShort taken name = some shortName) :
    shortName ∉ taken ∧ shortName.length = 11 ∧
      ∃ c rest, shortName = c :: rest ∧ c ≠ 0 ∧ c ≠ deletedMark ∧ c ≠ 46 := by
  obtain ⟨hfree, k, hk, rfl⟩ := fatMakeShortLoop_spec h
  exact ⟨hfree, shortCandidate_spec (by omega)⟩

/-! ## The entry that is read back -/

/-- The entry of a name, as `fat_load_dir` makes it of the slots. -/
def decodedEntry (name : CString) (shortName : List UInt8) (attr : UInt8) (cluster size : Nat)
    (stamp : UInt16 × UInt16) (offset : Nat) : DirEntry :=
  slotEntry (shortSlot shortName attr cluster size stamp) (offset + 32 * lfnCountOf name)
    (asciiName name) (lfnCountOf name)

theorem shortSlot_bytes {shortName : List UInt8} (hlen : shortName.length = 11) (attr : UInt8)
    (cluster size : Nat) (stamp : UInt16 × UInt16) :
    (shortSlot shortName attr cluster size stamp).length = 32 ∧
      (shortSlot shortName attr cluster size stamp).take 11 = shortName ∧
      slotByte (shortSlot shortName attr cluster size stamp) 0 = slotByte shortName 0 ∧
      slotByte (shortSlot shortName attr cluster size stamp) 11 = attr := by
  match shortName, hlen with
  | [c0, c1, c2, c3, c4, c5, c6, c7, c8, c9, c10], _ =>
    refine ⟨?_, ?_, ?_, ?_⟩ <;> simp [shortSlot, slotByte, Endian.store16, Endian.store32]

/-- **Long names.**  The slots of an entry become one node, whatever was collected
before and wherever they stand. -/
theorem entrySlots_decoded {name : CString} {shortName : List UInt8} {attr : UInt8}
    (hne : name ≠ []) (hname : name.length < vfsNameMax) (hzero : 0 ∉ name)
    (hshort : shortName.length = 11 ∧
      ∃ c rest, shortName = c :: rest ∧ c ≠ 0 ∧ c ≠ deletedMark ∧ c ≠ 46)
    (hattr : attr = attrDir ∨ attr = attrArchive) (cluster size : Nat) (stamp : UInt16 × UInt16)
    (offset : Nat) (l : LfnState) :
    ∃ l', readSlots offset l (entrySlots name shortName attr cluster size stamp) =
      ([decodedEntry name shortName attr cluster size stamp offset], some l') ∧ l'.count = 0 := by
  obtain ⟨hpos, hsmall, hfits⟩ := lfnCountOf_bounds hne hname
  obtain ⟨hlen, c, rest, hcons, hc0, hcd, hcdot⟩ := hshort
  obtain ⟨l₁, hread, hcollected⟩ := @readSlots_lfn name (fatChecksum shortName)
    (by omega) offset l _ (Nat.le_refl _)
  have hl₁ := hcollected (by omega)
  obtain ⟨-, htake, hfirst, hbyte⟩ := shortSlot_bytes hlen attr cluster size stamp
  have hc : slotByte (shortSlot shortName attr cluster size stamp) 0 = c := by
    rw [hfirst, hcons]
    rfl
  have hentry : fatReadSlot l₁ (shortSlot shortName attr cluster size stamp) =
      .entry (asciiName name) (lfnCountOf name) := by
    have hignored : slotIgnored (shortSlot shortName attr cluster size stamp) = false := by
      have hmask : attrDir &&& attrVolume = 0 ∧ attrArchive &&& attrVolume = 0 := by decide
      rw [slotIgnored, hbyte, hc]
      rcases hattr with rfl | rfl <;> simp [hcdot, hmask]
    have hnotlfn : attr ≠ attrLfn := by
      rcases hattr with rfl | rfl <;> decide
    rw [fatReadSlot, if_neg (by simp [slotLast, hc, hc0]), if_neg (by simp [slotDeleted, hc, hcd]),
      if_neg (by rw [hbyte]; exact hnotlfn), if_neg (by simp [hignored]),
      if_pos ⟨by rw [hl₁.count]; omega, by rw [hl₁.sum, htake]⟩, hl₁.name hzero hname hfits, hl₁.count]
  refine ⟨l₁.drop, ?_, rfl⟩
  rw [entrySlots, readSlots_append, hread]
  simp [readSlots, hentry, decodedEntry]

end Fat
