import Mathlib.Data.List.DropRight

/-!
# The settings file

`sx_setting_get` and `sx_setting_set` of `settings.c`.  A change reads the first 4095 bytes of
the file, copies the lines into a buffer of 4096 bytes and replaces the file by `unlink`,
`open` and one `write`.  Texts are without their NUL.
-/

namespace StrawX

def settingsFileMax : Nat := 4096

/-- `sx_settings_read`. -/
def settingsRead (file : Option (List UInt8)) : List UInt8 := (file.getD []).take (settingsFileMax - 1)

/-- The lines that the loops over a text come to. -/
def linesOf : List UInt8 → List (List UInt8)
  | [] => []
  | b :: s =>
    if b = 10 then [] :: linesOf s
    else match linesOf s with
      | [] => [[b]]
      | line :: lines => (b :: line) :: lines

/-- The value of a line that begins with the key and `=`. -/
def valueOf (key line : List UInt8) : Option (List UInt8) :=
  if key.length < line.length ∧ line.take key.length = key ∧ getElem? line key.length = some 61 then
    some (line.drop (key.length + 1))
  else none

/-- `sx_settings_find`. -/
def settingsFind (text key : List UInt8) : Option (List UInt8) := (linesOf text).findSome? (valueOf key)

/-- `sx_setting_get`. -/
def settingGet (file : Option (List UInt8)) (key : List UInt8) (size : Nat) : Option (List UInt8) :=
  (settingsFind (settingsRead file) key).map fun value =>
    (value.rdropWhile fun b => b = 13 ∨ b = 32).take (size - 1)

/-- The text of `"%s=%s"`. -/
def setting (key value : List UInt8) : List UInt8 := key ++ 61 :: value

/-- A line is put behind the buffer, by `snprintf` or by `memcpy`; both leave room for a NUL. -/
def appendLine (out line : List UInt8) : Option (List UInt8) :=
  if settingsFileMax ≤ out.length + (line.length + 1) then none else some (out ++ (line ++ [10]))

/-- The loop of `sx_setting_set` over the lines. -/
def composeLoop (key value : List UInt8) :
    List (List UInt8) → List UInt8 → Bool → Option (List UInt8 × Bool)
  | [], out, written => some (out, written)
  | line :: lines, out, written =>
    if (valueOf key line).isSome then
      (appendLine out (setting key value)).bind fun out => composeLoop key value lines out true
    else if line ≠ [] then
      (appendLine out line).bind fun out => composeLoop key value lines out written
    else composeLoop key value lines out written

/-- The buffer that `sx_setting_set` writes. -/
def compose (key value text : List UInt8) : Option (List UInt8) :=
  (composeLoop key value (linesOf text) [] false).bind fun (out, written) =>
    if written then some out else appendLine out (setting key value)

/-- Whether `open` succeeds, and how many bytes `write` takes. -/
structure WriteOutcome where
  opened : Bool
  count : Nat

/-- `sx_setting_set`, on the content of the file. -/
def settingSet (o : WriteOutcome) (file : Option (List UInt8)) (key value : List UInt8) :
    Bool × Option (List UInt8) :=
  match compose key value (settingsRead file) with
  | none => (false, file)
  | some out =>
    if o.opened then (decide (out.length ≤ o.count), some (out.take o.count)) else (false, none)

/-! ## The new text -/

/-- A line of the old file in the new one. -/
def replaced (key value line : List UInt8) : List UInt8 :=
  if (valueOf key line).isSome then setting key value else line

/-- The lines of the new file. -/
def newLines (key value : List UInt8) (lines : List (List UInt8)) : List (List UInt8) :=
  (lines.filter (· ≠ [])).map (replaced key value) ++
    if lines.any fun line => (valueOf key line).isSome then [] else [setting key value]

def textOf (lines : List (List UInt8)) : List UInt8 := lines.flatMap (· ++ [10])

/-- The new content of the file. -/
def newText (file : Option (List UInt8)) (key value : List UInt8) : List UInt8 :=
  textOf (newLines key value (linesOf (settingsRead file)))

variable {key key' value line v : List UInt8} {lines : List (List UInt8)}

theorem valueOf_eq_some : valueOf key line = some v ↔ line = setting key v := by
  rw [valueOf, setting]
  constructor
  · intro h
    split at h
    · rename_i hmatch
      obtain ⟨hlt, htake, hget⟩ := hmatch
      rw [List.getElem?_eq_getElem hlt, Option.some.injEq] at hget
      have hrest := List.take_append_drop key.length line
      rw [htake, ← List.getElem_cons_drop hlt, hget, Option.some.inj h] at hrest
      exact hrest.symm
    · cases h
  · rintro rfl
    have hdrop : (key ++ 61 :: v).drop (key.length + 1) = v := by
      rw [← List.drop_drop, List.drop_left, List.drop_one, List.tail_cons]
    rw [if_pos ⟨by simp, List.take_left, by simp⟩, hdrop]

theorem isSome_valueOf : (valueOf key line).isSome = true ↔ ∃ v, line = setting key v := by
  rw [Option.isSome_iff_exists]
  exact exists_congr fun v => valueOf_eq_some

theorem valueOf_nil : valueOf key [] = none := by simp [valueOf]

/-- A line has one key. -/
theorem valueOf_setting (hkey : 61 ∉ key) (hkey' : 61 ∉ key') (hne : key' ≠ key) :
    valueOf key' (setting key v) = none := by
  have hfirst : ∀ k v : List UInt8, 61 ∉ k → (setting k v).takeWhile (· ≠ 61) = k := by
    intro k v hk
    rw [setting, List.takeWhile_append_of_pos fun b hb => by
      simpa using fun heq : b = 61 => hk (heq ▸ hb), List.takeWhile_cons_of_neg (by simp),
      List.append_nil]
  rw [Option.eq_none_iff_forall_ne_some]
  intro w hw
  rw [valueOf_eq_some] at hw
  exact hne ((hfirst key' w hkey').symm.trans (hw ▸ hfirst key v hkey))

theorem composeLoop_eq (lines : List (List UInt8)) (out : List UInt8) (written : Bool) :
    composeLoop key value lines out written =
      (((lines.filter (· ≠ [])).map (replaced key value)).foldlM appendLine out).map fun out =>
        (out, written || lines.any fun line => (valueOf key line).isSome) := by
  induction lines generalizing out written with
  | nil => simp [composeLoop]
  | cons line lines ih =>
    rw [composeLoop, List.any_cons]
    by_cases hm : (valueOf key line).isSome = true
    · have hne : line ≠ [] := fun h => by simp [h, valueOf_nil] at hm
      rw [if_pos hm, List.filter_cons_of_pos (by simpa using hne), List.map_cons, replaced, if_pos hm,
        List.foldlM_cons]
      cases appendLine out (setting key value) with
      | none => rfl
      | some out => simpa [hm] using ih out true
    · rw [if_neg hm, Bool.eq_false_iff.2 hm, Bool.false_or]
      by_cases hne : line = []
      · rw [if_neg (by simpa using hne), List.filter_cons_of_neg (by simpa using hne), ih]
      · rw [if_pos hne, List.filter_cons_of_pos (by simpa using hne), List.map_cons, replaced,
          if_neg hm, List.foldlM_cons]
        cases appendLine out line with
        | none => rfl
        | some out => exact ih out written

theorem foldlM_appendLine (lines : List (List UInt8)) {out : List UInt8}
    (hout : out.length < settingsFileMax) : lines.foldlM appendLine out =
      if out.length + (textOf lines).length < settingsFileMax then some (out ++ textOf lines)
      else none := by
  induction lines generalizing out with
  | nil => simp [textOf, hout]
  | cons line lines ih =>
    have hlen : (out ++ (line ++ [10])).length = out.length + (line.length + 1) := by simp
    have htext : textOf (line :: lines) = line ++ [10] ++ textOf lines := rfl
    rw [List.foldlM_cons, appendLine, htext]
    simp only [List.length_append, List.length_singleton]
    split
    · rw [if_neg (by omega)]
      rfl
    · rw [Option.bind_eq_bind, Option.bind_some, ih (by omega), hlen, Nat.add_assoc, List.append_assoc]

/-- The buffer has the new text, if it fits. -/
theorem compose_eq (text : List UInt8) : compose key value text =
    if (textOf (newLines key value (linesOf text))).length < settingsFileMax then
      some (textOf (newLines key value (linesOf text))) else none := by
  have hnil : ([] : List UInt8).length < settingsFileMax := by decide
  have hfold := foldlM_appendLine (newLines key value (linesOf text)) hnil
  rw [List.length_nil, Nat.zero_add, List.nil_append] at hfold
  rw [← hfold, newLines, List.foldlM_append, compose, composeLoop_eq, Bool.false_or]
  cases ((linesOf text).filter (· ≠ [])).map (replaced key value) |>.foldlM appendLine [] with
  | none => rfl
  | some out =>
    cases (linesOf text).any fun line => (valueOf key line).isSome with
    | true => rfl
    | false => simp

/-! ## Reading it back -/

theorem linesOf_cons (line : List UInt8) (hline : 10 ∉ line) (rest : List UInt8) :
    linesOf (line ++ 10 :: rest) = line :: linesOf rest := by
  induction line with
  | nil => simp [linesOf]
  | cons b line ih =>
    rw [List.mem_cons, not_or] at hline
    rw [List.cons_append, linesOf, if_neg (Ne.symm hline.1), ih hline.2]

theorem linesOf_textOf (h : ∀ line ∈ lines, 10 ∉ line) : linesOf (textOf lines) = lines := by
  induction lines with
  | nil => rfl
  | cons line lines ih =>
    rw [textOf, List.flatMap_cons, List.append_assoc, List.singleton_append,
      linesOf_cons line (h line List.mem_cons_self), ← textOf,
      ih fun l hl => h l (List.mem_cons_of_mem _ hl)]

theorem not_mem_linesOf (text : List UInt8) : ∀ line ∈ linesOf text, 10 ∉ line := by
  induction text with
  | nil => simp [linesOf]
  | cons b text ih =>
    rw [linesOf]
    split
    · simpa using ih
    · rename_i hb
      cases hl : linesOf text with
      | nil => simpa using Ne.symm hb
      | cons line lines =>
        rw [hl] at ih
        simpa [Ne.symm hb] using ih

theorem newLines_no_newline (hkey : 10 ∉ key) (hvalue : 10 ∉ value) (text : List UInt8) :
    ∀ line ∈ newLines key value (linesOf text), 10 ∉ line := by
  have hsetting : 10 ∉ setting key value := by simp [setting, hkey, hvalue]
  intro line hline
  rcases List.mem_append.1 hline with hold | hnew
  · obtain ⟨l, hl, rfl⟩ := List.mem_map.1 hold
    rw [replaced]
    split
    · exact hsetting
    · exact not_mem_linesOf text l (List.mem_filter.1 hl).1
  · split at hnew
    · cases hnew
    · rwa [List.mem_singleton.1 hnew]

/-- The key has the new value. -/
theorem find_newLines_self : (newLines key value lines).findSome? (valueOf key) = some value := by
  have hself : valueOf key (setting key value) = some value := valueOf_eq_some.2 rfl
  induction lines with
  | nil => simp [newLines, hself]
  | cons line lines ih =>
    rw [newLines, List.any_cons]
    by_cases hm : (valueOf key line).isSome = true
    · have hne : line ≠ [] := fun h => by simp [h, valueOf_nil] at hm
      rw [List.filter_cons_of_pos (by simpa using hne), List.map_cons, replaced, if_pos hm,
        List.cons_append, List.findSome?_cons, hself]
    · rw [Bool.eq_false_iff.2 hm, Bool.false_or]
      by_cases hne : line = []
      · rw [List.filter_cons_of_neg (by simpa using hne), ← newLines, ih]
      · rw [List.filter_cons_of_pos (by simpa using hne), List.map_cons, replaced, if_neg hm,
          List.cons_append, List.findSome?_cons, Option.not_isSome_iff_eq_none.1 hm, ← newLines, ih]

/-- Another key has the value it had. -/
theorem find_newLines_other (hkey : 61 ∉ key) (hkey' : 61 ∉ key') (hne : key' ≠ key) :
    (newLines key value lines).findSome? (valueOf key') = lines.findSome? (valueOf key') := by
  have hnone : ∀ v, valueOf key' (setting key v) = none := fun v => valueOf_setting hkey hkey' hne
  rw [newLines, List.findSome?_append]
  have htail : (if lines.any fun line => (valueOf key line).isSome then []
      else [setting key value]).findSome? (valueOf key') = none := by
    split
    · rfl
    · simp [hnone]
  have hline : ∀ line, valueOf key' (replaced key value line) = valueOf key' line := by
    intro line
    rw [replaced]
    split
    · rename_i hm
      obtain ⟨v, rfl⟩ := isSome_valueOf.1 hm
      rw [hnone, hnone]
    · rfl
  rw [htail, Option.or_none]
  clear htail
  induction lines with
  | nil => rfl
  | cons line lines ih =>
    by_cases hl : line = []
    · rw [List.filter_cons_of_neg (by simpa using hl), ih, List.findSome?_cons, hl, valueOf_nil]
    · rw [List.filter_cons_of_pos (by simpa using hl), List.map_cons, List.findSome?_cons, hline, ih,
        List.findSome?_cons]

/-- A change that is made is seen and no other setting changes; one that is not leaves the
file as it was. -/
def SettingsKept (o : WriteOutcome) (file : Option (List UInt8)) (key value : List UInt8) : Prop :=
  let after := settingSet o file key value
  (after.1 = true → ∀ size, settingGet after.2 key size = some (value.take (size - 1)) ∧
    ∀ key', 61 ∉ key' → key' ≠ key → settingGet after.2 key' size = settingGet file key' size) ∧
  (after.1 = false → after.2 = file)

/-- **When the settings are kept.**  The new text does not fit, or it is written whole, or
what is left is the old content by chance. -/
theorem settings_kept_iff (o : WriteOutcome) (file : Option (List UInt8)) (hkey : 61 ∉ key)
    (hline : 10 ∉ key ∧ 10 ∉ value) (hlast : ∀ b, value.getLast? = some b → b ≠ 13 ∧ b ≠ 32) :
    SettingsKept o file key value ↔ ((newText file key value).length < settingsFileMax →
      if o.opened then (newText file key value).length ≤ o.count ∨
        file = some ((newText file key value).take o.count)
      else file = none) := by
  have hcompose := @compose_eq key value (settingsRead file)
  rw [← newText] at hcompose
  rw [SettingsKept, settingSet, hcompose]
  by_cases hfit : (newText file key value).length < settingsFileMax
  swap
  · simp [hfit]
  rw [if_pos hfit, forall_prop_of_true hfit]
  dsimp only
  split
  swap
  · simp [eq_comm]
  by_cases hall : (newText file key value).length ≤ o.count
  swap
  · simp [hall, eq_comm]
  simp only [hall, decide_true, forall_prop_of_true, Bool.true_eq_false, IsEmpty.forall_iff, and_true,
    true_or, iff_true]
  have hread : settingsRead (some ((newText file key value).take o.count)) = newText file key value := by
    rw [settingsRead, Option.getD_some, List.take_of_length_le hall, List.take_of_length_le (by omega)]
  have hlines : linesOf (newText file key value) =
      newLines key value (linesOf (settingsRead file)) :=
    linesOf_textOf (newLines_no_newline hline.1 hline.2 _)
  have htrim : value.rdropWhile (fun b => decide (b = 13 ∨ b = 32)) = value := by
    rw [List.rdropWhile_eq_self_iff]
    intro hne
    have := hlast _ (List.getLast?_eq_getLast_of_ne_nil hne)
    simpa using this
  intro size
  simp only [settingGet, settingsFind, hread, hlines]
  refine ⟨by rw [find_newLines_self, Option.map_some, htrim], fun key' hkey' hne => ?_⟩
  rw [find_newLines_other hkey hkey' hne]

/-- A second setting is written whole. -/
theorem second_setting_kept : SettingsKept ⟨true, 8⟩ (some [97, 61, 49, 10]) [98] [50] :=
  (settings_kept_iff _ _ (by decide) (by decide) (by simp)).2 (by decide)

/-- The new file cannot be created: the old settings are gone. -/
theorem failed_open_loses_settings : ¬ SettingsKept ⟨false, 0⟩ (some [97, 61, 49, 10]) [98] [50] := by
  intro h
  exact absurd (h.2 (by decide)) (by decide)

end StrawX
