import StrawOS.Vfs.Node
import StrawOS.Fat.Chain
import Mathlib.Data.List.DropRight

/-!
# Directory slots

A directory is a row of slots of 32 bytes.  An entry is a short slot with the
name of 8 + 3 characters and the data of the file, and in front of it the
long-name slots with 13 characters each, the last piece first.

`fatReadSlot` is the body of the loop of `fat_load_dir`; `lfnSlots` and
`shortSlot` are the slots that `fat_add_entry` writes, and `fatMakeShort` is the
search for a short name that no sibling has.
-/

namespace Fat

open Vfs (CString vfsNameMax fatUpper)

/-- The 32 bytes of a `FatDirent` or a `FatLfn`. -/
abbrev Slot := List UInt8

def slotByte (e : Slot) (i : Nat) : UInt8 := e.getD i 0

def slot16 (e : Slot) (i : Nat) : UInt16 := Endian.le16 (slotByte e i) (slotByte e (i + 1))

def slot32 (e : Slot) (i : Nat) : UInt32 := wordAt (slotByte e) i

abbrev attrVolume : UInt8 := 0x08
abbrev attrDir : UInt8 := 0x10
abbrev attrArchive : UInt8 := 0x20
abbrev attrLfn : UInt8 := 0x0F

/-- The first byte of a slot that was deleted. -/
abbrev deletedMark : UInt8 := 0xE5

/-- `FAT_LFN_CHARS`. -/
abbrev lfnPiece : Nat := 13

def fatChecksum (name : List UInt8) : UInt8 :=
  name.foldl (fun sum b => ((sum &&& 1) <<< 7) + (sum >>> 1) + b) 0

def fatLower (c : UInt8) : UInt8 := if 65 ≤ c ∧ c ≤ 90 then c + 32 else c

/-- The bytes of a buffer up to the terminator. -/
def cString (bytes : List UInt8) : CString := bytes.takeWhile (· != 0)

/-! ## Reading -/

def fatShortToName (e : Slot) : CString :=
  let base := (e.take 8).rdropWhile (· == 32)
  let ext := ((e.drop 8).take 3).rdropWhile (· == 32)
  let ntres := slotByte e 12
  let baseName := base.mapIdx fun i c =>
    let c := if i = 0 ∧ c = 0x05 then deletedMark else c
    if ntres &&& 0x08 ≠ 0 then fatLower c else c
  let extName := ext.map fun c => if ntres &&& 0x10 ≠ 0 then fatLower c else c
  cString (baseName ++ if ext = [] then [] else 46 :: extName)

/-- The long name that `fat_load_dir` is collecting. -/
structure LfnState where
  chars : Nat → UInt16
  count : Nat
  sum : UInt8

def LfnState.empty : LfnState := ⟨fun _ => 0, 0, 0⟩

/-- Forget the long name collected so far. -/
def LfnState.drop (l : LfnState) : LfnState := { l with count := 0 }

/-- The 13 characters of a long-name slot. -/
def lfnChars (e : Slot) : List UInt16 :=
  (List.range 5).map (fun i => slot16 e (1 + 2 * i)) ++
    (List.range 6).map (fun i => slot16 e (14 + 2 * i)) ++
    (List.range 2).map (fun i => slot16 e (28 + 2 * i))

/-- `seq` of a long-name slot. -/
def lfnSeq (e : Slot) : Nat := (slotByte e 0 &&& 0x1F).toNat

/-- The slot starts a long name. -/
def lfnFirst (e : Slot) : Bool := slotByte e 0 &&& 0x40 != 0

/-- A long-name slot is read. -/
def LfnState.take (l : LfnState) (e : Slot) : LfnState :=
  if lfnSeq e < 1 ∨ 20 < lfnSeq e then l.drop
  else
    let l := if lfnFirst e then
        { chars := fun i => if i ≤ lfnSeq e * lfnPiece then 0 else l.chars i
          count := lfnSeq e
          sum := slotByte e 13 : LfnState }
      else l
    { l with chars := Buf.write l.chars ((lfnSeq e - 1) * lfnPiece) (lfnChars e) }

/-- A character of a long name as a byte. -/
def lfnNarrow (ch : UInt16) : UInt8 := if ch < 0x80 then ch.toUInt8 else 95

/-- The name that was collected. -/
def LfnState.name (l : LfnState) : CString :=
  ((((List.range (l.count * lfnPiece)).map l.chars).takeWhile
    fun ch => ch != 0 && ch != 0xFFFF).take (vfsNameMax - 1)).map lfnNarrow

/-- What `fat_load_dir` makes of a slot. -/
inductive SlotKind
  | last
  | skip (l : LfnState)
  | entry (name : CString) (lfnCount : Nat)

/-- The slot ends the directory. -/
def slotLast (e : Slot) : Bool := slotByte e 0 == 0

/-- The slot was deleted. -/
def slotDeleted (e : Slot) : Bool := slotByte e 0 == deletedMark

/-- The slot is a part of a long name. -/
def slotLfn (e : Slot) : Bool := !slotLast e && !slotDeleted e && slotByte e 11 == attrLfn

/-- The slot is skipped: a volume label, or the directory itself or its parent. -/
def slotIgnored (e : Slot) : Bool := slotByte e 11 &&& attrVolume != 0 || slotByte e 0 == 46

/-- The body of the inner loop of `fat_load_dir`, up to the new node. -/
def fatReadSlot (l : LfnState) (e : Slot) : SlotKind :=
  if slotLast e then .last
  else if slotDeleted e then .skip l.drop
  else if slotByte e 11 = attrLfn then .skip (l.take e)
  else if slotIgnored e then .skip l.drop
  else if l.count ≠ 0 ∧ l.sum = fatChecksum (e.take 11) then .entry l.name l.count
  else .entry ((fatShortToName e).take (vfsNameMax - 1)) 0

/-- A node that `fat_load_dir` makes: the part of the `VNode` and the `FatNode`. -/
structure DirEntry where
  name : CString
  isDir : Bool
  size : Nat
  node : FatNode
  deriving DecidableEq, Repr

/-- The node of a short slot at an offset of the directory. -/
def slotNode (e : Slot) (offset lfnCount : Nat) : FatNode where
  cluster := (slot16 e 20).toNat * 65536 + (slot16 e 26).toNat
  entryOffset := offset % 2 ^ 32
  lfnCount := lfnCount
  shortName := e.take 11

def slotEntry (e : Slot) (offset : Nat) (name : CString) (lfnCount : Nat) : DirEntry where
  name := name
  isDir := slotByte e 11 &&& attrDir != 0
  size := if slotByte e 11 &&& attrDir != 0 then 0 else (slot32 e 28).toNat
  node := slotNode e offset lfnCount

/-- The inner loop of `fat_load_dir` over the slots from an offset on: the nodes,
and the state behind the last slot unless the directory ended. -/
def readSlots : (offset : Nat) → LfnState → List Slot → List DirEntry × Option LfnState
  | _, l, [] => ([], some l)
  | offset, l, e :: rest =>
      match fatReadSlot l e with
      | .last => ([], none)
      | .skip l => readSlots (offset + 32) l rest
      | .entry name lfnCount =>
          let r := readSlots (offset + 32) l.drop rest
          (slotEntry e offset name lfnCount :: r.1, r.2)

theorem readSlots_ends_iff (offset : Nat) (l : LfnState) (slots : List Slot) :
    (readSlots offset l slots).2 = none ↔ ∃ e ∈ slots, slotLast e = true := by
  induction slots generalizing offset l with
  | nil => simp [readSlots]
  | cons e rest ih =>
    rw [readSlots]
    by_cases hlast : slotLast e = true
    · simp [fatReadSlot, hlast]
    · have hgo : ∀ l', (readSlots (offset + 32) l' rest).2 = none ↔
          ∃ e' ∈ e :: rest, slotLast e' = true := by
        intro l'
        rw [ih]
        simp [hlast]
      have hkind : fatReadSlot l e ≠ .last := by
        simp only [fatReadSlot, hlast]
        grind
      cases hk : fatReadSlot l e with
      | last => exact absurd hk hkind
      | skip l' => exact hgo l'
      | entry name count => exact hgo l.drop

/-! ## Writing -/

/-- What the clock answers. -/
structure RtcTime where
  year : UInt16
  month : UInt8
  day : UInt8
  hour : UInt8
  minute : UInt8
  second : UInt8

/-- `fat_timestamp`: time and date. -/
def fatTimestamp : Option RtcTime → UInt16 × UInt16
  | some t =>
      if 1980 ≤ t.year then
        (t.hour.toUInt16 <<< 11 ||| t.minute.toUInt16 <<< 5 ||| t.second.toUInt16 / 2,
          (t.year - 1980) <<< 9 ||| t.month.toUInt16 <<< 5 ||| t.day.toUInt16)
      else (0, (1 : UInt16) <<< 5 ||| 1)
  | none => (0, (1 : UInt16) <<< 5 ||| 1)

/-- The short slot of an entry. -/
def shortSlot (shortName : List UInt8) (attr : UInt8) (cluster size : Nat)
    (stamp : UInt16 × UInt16) : Slot :=
  shortName ++ [attr, 0, 0] ++ Endian.store16 stamp.1 ++ Endian.store16 stamp.2 ++
    Endian.store16 stamp.2 ++ Endian.store16 (.ofNat (cluster / 65536)) ++
    Endian.store16 stamp.1 ++ Endian.store16 stamp.2 ++ Endian.store16 (.ofNat cluster) ++
    Endian.store32 (.ofNat size)

/-- Character `at` of a long name, with its terminator and filler. -/
def lfnChar (name : CString) (i : Nat) : UInt16 :=
  if h : i < name.length then name[i].toUInt16 else if i = name.length then 0 else 0xFFFF

/-- A long-name slot. -/
def lfnSlot (order sum : UInt8) (chars : List UInt16) : Slot :=
  [order] ++ (chars.take 5).flatMap Endian.store16 ++ [attrLfn, 0, sum] ++
    ((chars.drop 5).take 6).flatMap Endian.store16 ++ [0, 0] ++
    (chars.drop 11).flatMap Endian.store16

/-- `DIV_CEIL(len, FAT_LFN_CHARS)`. -/
def lfnCountOf (name : CString) : Nat := (name.length + (lfnPiece - 1)) / lfnPiece

/-- Long-name slot `i` of an entry, counted from the front. -/
def lfnSlotOf (name : CString) (sum : UInt8) (i : Nat) : Slot :=
  let seq := lfnCountOf name - i
  lfnSlot (.ofNat seq ||| if i = 0 then 0x40 else 0) sum
    ((List.range lfnPiece).map fun k => lfnChar name ((seq - 1) * lfnPiece + k))

/-- The slots that `fat_add_entry` writes. -/
def entrySlots (name : CString) (shortName : List UInt8) (attr : UInt8) (cluster size : Nat)
    (stamp : UInt16 × UInt16) : List Slot :=
  (List.range (lfnCountOf name)).map (lfnSlotOf name (fatChecksum shortName)) ++
    [shortSlot shortName attr cluster size stamp]

def fatShortChar (c : UInt8) : Bool :=
  (65 ≤ c && c ≤ 90) || (48 ≤ c && c ≤ 57) ||
    [36, 37, 39, 45, 95, 64, 126, 96, 33, 40, 41, 123, 125, 94, 35, 38].contains c

/-- The characters of a name that may stand in a short name. -/
def shortChars (name : CString) : List UInt8 := (name.map fatUpper).filter fatShortChar

/-- A name before and behind its last dot; a dot in front does not count. -/
def splitDot (name : CString) : CString × CString :=
  let behind := (name.reverse.takeWhile (· != 46)).reverse
  let before := name.take (name.length - behind.length - 1)
  if behind.length = name.length ∨ before = [] then (name, []) else (before, behind)

/-- The first six characters of the short name. -/
def shortBase (name : CString) : List UInt8 :=
  match (shortChars (splitDot name).1).take 6 with
  | [] => [95]
  | base => base

/-- `~` and a number in decimal. -/
def shortTail (num : Nat) : List UInt8 :=
  126 :: (Nat.toDigits 10 num).map fun d => .ofNat d.toNat

/-- The short name with a number. -/
def shortCandidate (name : CString) (num : Nat) : List UInt8 :=
  let tail := shortTail num
  let stem := (shortBase name).take (8 - tail.length) ++ tail
  let ext := (shortChars (splitDot name).2).take 3
  stem ++ List.replicate (8 - stem.length) 32 ++ ext ++ List.replicate (3 - ext.length) 32

/-- The loop of `fat_make_short` from a number on. -/
def fatMakeShortLoop (taken : List (List UInt8)) (name : CString) :
    (left num : Nat) → Option (List UInt8)
  | 0, _ => none
  | left + 1, num =>
      if taken.contains (shortCandidate name num) then
        fatMakeShortLoop taken name left (num + 1)
      else some (shortCandidate name num)

/-- `fat_make_short`, given the short names of the siblings. -/
def fatMakeShort (taken : List (List UInt8)) (name : CString) : Option (List UInt8) :=
  fatMakeShortLoop taken name 999999 1

end Fat
