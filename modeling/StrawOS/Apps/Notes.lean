import Mathlib.Data.UInt

/-!
# The editor saves its text

`save` of `notes.c` unlinks the file, opens it again with `O_WRONLY | O_CREAT` and writes
the text until a `write` fails.  An `open` without `O_TRUNC` leaves a file that is still
there as it is.
-/

namespace Apps

/-- What the calls return: whether `unlink` and `open` succeed, and the counts of the calls
of `write`, of which a count of 0 and every one after the last is a failure. -/
structure Outcomes where
  unlinked : Bool
  opened : Bool
  writes : List Nat

/-- The message in the status line. -/
inductive Status
  | couldNotSave | savedTo
  deriving DecidableEq

structure Editor where
  text : List UInt8
  modified : Bool
  status : Option Status

/-- The loop of writes in `save`, at an offset of the text and of the file. -/
def writeLoop (text : List UInt8) : List Nat → Nat → List UInt8 → List UInt8
  | [], _, file => file
  | n :: writes, off, file =>
    if text.length ≤ off ∨ n = 0 then file
    else
      let n := min n (text.length - off)
      writeLoop text writes (off + n)
        (file.take off ++ (text.drop off).take n ++ file.drop (off + n))

/-- `save`, on the content of the file at the path of the editor. -/
def save (o : Outcomes) (e : Editor) (file : Option (List UInt8)) : Editor × Option (List UInt8) :=
  let file := if o.unlinked then none else file
  if o.opened then
    ({ e with modified := false, status := some .savedTo },
      some (writeLoop e.text o.writes 0 (file.getD [])))
  else ({ e with status := some .couldNotSave }, file)

/-- The number of bytes the calls of `write` take before one fails. -/
def accepted (writes : List Nat) : Nat := (writes.takeWhile (· ≠ 0)).sum

/-- The file takes the whole text. -/
def Complete (o : Outcomes) (e : Editor) : Prop :=
  o.opened = true ∧ e.text.length ≤ accepted o.writes

/-- The editor takes its text for saved only if it is, and a file that does not get the
whole text is as before. -/
def Saved (o : Outcomes) (e : Editor) (file : Option (List UInt8)) : Prop :=
  let after := save o e file
  (e.modified = true → after.1.modified = false → after.2 = some e.text) ∧
    (¬ Complete o e → ∀ old, file = some old → after.2 = some old)

/-- What is in the file when the writes begin. -/
def Outcomes.base (o : Outcomes) (file : Option (List UInt8)) : List UInt8 :=
  if o.unlinked then [] else file.getD []

/-- A text written over the front of another. -/
def overFront (n : Nat) (text base : List UInt8) : List UInt8 := text.take n ++ base.drop n

variable {text base : List UInt8} {o : Outcomes} {e : Editor} {file : Option (List UInt8)}

/-- The loop writes what the calls take. -/
theorem writeLoop_over (writes : List Nat) {off : Nat} (hoff : off ≤ text.length) :
    writeLoop text writes off (overFront off text base) =
      overFront (min (off + accepted writes) text.length) text base := by
  induction writes generalizing off with
  | nil => simp [writeLoop, accepted, hoff]
  | cons n writes ih =>
    rw [writeLoop]
    split
    · rename_i hstop
      congr 1
      rcases hstop with hall | rfl
      · omega
      · simp [accepted, hoff]
    · rename_i hgo
      rw [not_or] at hgo
      obtain ⟨m, hm⟩ : ∃ m, min n (text.length - off) = m := ⟨_, rfl⟩
      have hle : off + m ≤ text.length := by omega
      -- The bytes before the offset, those of this call and the rest of the old file.
      have hnext : (overFront off text base).take off ++ (text.drop off).take m ++
          (overFront off text base).drop (off + m) = overFront (off + m) text base := by
        have hlen : (text.take off).length = off := List.length_take_of_le hoff
        have hfront : (overFront off text base).take off = text.take off := by
          rw [overFront, List.take_append_of_le_length (by omega), List.take_of_length_le (by omega)]
        have hback : (overFront off text base).drop (off + m) = base.drop (off + m) := by
          have hgone : (text.take off).drop off = [] := List.drop_of_length_le (by omega)
          rw [overFront, ← List.drop_drop, List.drop_append_of_le_length (by omega), hgone,
            List.nil_append, List.drop_drop]
        rw [hfront, hback, ← List.take_add, overFront]
      have hcount : accepted (n :: writes) = n + accepted writes := by
        simp [accepted, hgo.2]
      simp only [hm]
      rw [hnext, ih hle, hcount]
      congr 1
      omega

theorem save_of_opened (h : o.opened = true) : save o e file =
    ({ e with modified := false, status := some .savedTo },
      some (overFront (min (accepted o.writes) e.text.length) e.text (o.base file))) := by
  have hbase : (if o.unlinked = true then none else file).getD [] = o.base file := by
    cases hu : o.unlinked <;> simp [Outcomes.base, hu]
  have hloop := @writeLoop_over e.text (o.base file) o.writes 0 (Nat.zero_le _)
  rw [Nat.zero_add] at hloop
  rw [save, if_pos h, hbase, ← hloop]
  rfl

/-- **When the editor saves.**  If the file is opened, what the writes do not replace has to
be the rest of the text already, and where they stop early they have to leave the old file
as it was; if it is not, `unlink` may not have removed a file. -/
theorem saved_iff : Saved o e file ↔
    if o.opened then
      (e.modified = true → (o.base file).drop (min (accepted o.writes) e.text.length) =
        e.text.drop (accepted o.writes)) ∧
      (accepted o.writes < e.text.length → ∀ old, file = some old →
        overFront (accepted o.writes) e.text (o.base file) = old)
    else o.unlinked = true → file = none := by
  by_cases h : o.opened = true
  · rw [if_pos h, Saved, save_of_opened h]
    refine and_congr ?_ ?_
    · refine imp_congr_right fun _ => ?_
      rw [forall_prop_of_true rfl, Option.some.injEq, overFront]
      conv_lhs => rhs; rw [← List.take_append_drop (min (accepted o.writes) e.text.length) e.text]
      rw [List.append_cancel_left_eq]
      rcases Nat.le_total (accepted o.writes) e.text.length with hle | hge
      · rw [Nat.min_eq_left hle]
      · rw [Nat.min_eq_right hge, List.drop_length, List.drop_of_length_le hge]
    · rw [Complete, and_iff_right h, Nat.not_le]
      refine imp_congr_right fun hlt => forall_congr' fun old => imp_congr_right fun _ => ?_
      rw [Nat.min_eq_left (by omega), Option.some.injEq]
  · rw [if_neg h, Saved, save, if_neg h]
    constructor
    · rintro ⟨-, hkept⟩ hu
      rw [if_pos hu] at hkept
      cases hfile : file with
      | none => rfl
      | some old => exact absurd (hkept (fun hc => h hc.1) old hfile) (by simp)
    · intro hgone
      refine ⟨fun hmod hclear => absurd (hmod.symm.trans hclear) (by simp), ?_⟩
      intro _ old hfile
      by_cases hu : o.unlinked = true
      · exact absurd (hfile.symm.trans (hgone hu)) (by simp)
      · rw [if_neg hu]
        exact hfile

/-- The device is full: the old text is gone and the new one counts as saved. -/
theorem full_device_loses : ¬ Saved ⟨true, true, []⟩ ⟨[0x62], true, none⟩ (some [0x61]) := by
  intro h
  exact absurd (h.1 rfl rfl) (by decide)

end Apps
