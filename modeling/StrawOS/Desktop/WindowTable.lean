import StrawOS.Desktop.InputKeeping

/-!
# The window table

A window that is destroyed is taken out of everything that refers to it, and a slot is
used again only after that.  With what input keeps, the table and the references agree
along every run.
-/

namespace Desktop

section

variable {s : Server}

/-! ## Destruction -/

/-- An animation that runs belongs to a window. -/
def Server.Owns (s : Server) (w : Nat) (i : Fin animMax) : Prop :=
  (s.anims i).active = true ∧ (s.anims i).owner = some w

theorem setAnim_owns {i j : Fin animMax} {a : Anim} {w : Nat} (h : (s.setAnim i a).Owns w j) :
    j = i ∧ a.active = true ∧ a.owner = some w ∨ j ≠ i ∧ s.Owns w j := by
  unfold Server.Owns Server.setAnim at h
  dsimp only at h
  by_cases hj : j = i
  · subst hj
    rw [Function.update_self] at h
    exact Or.inl ⟨rfl, h⟩
  · rw [Function.update_of_ne hj] at h
    exact Or.inr ⟨hj, h⟩

/-- The loop of `anim_window_close` frees the animation it is at. -/
theorem closeAnim_owns {w : Nat} {st : Server × Bool} {i j : Fin animMax}
    (h : (closeAnim w st i).1.Owns w j) : j ≠ i ∧ st.1.Owns w j := by
  unfold closeAnim at h
  dsimp only at h
  split at h
  · rename_i hother
    refine ⟨?_, h⟩
    intro hj
    subst hj
    rcases hother with hidle | howner
    · rw [h.1] at hidle
      cases hidle
    · exact howner h.2
  · have htake : ∀ {c : Prop} [Decidable c],
        (if c then st.1.setAnim i { st.1.anims i with px := false } else st.1).Owns w j → j ≠ i → st.1.Owns w j := by
      intro c _ hc hj
      split at hc
      · rcases setAnim_owns hc with ⟨hji, -⟩ | ⟨-, hold⟩
        · exact absurd hji hj
        · exact hold
      · exact hc
    split at h
    · rcases setAnim_owns h with ⟨-, hactive, -⟩ | ⟨hj, hold⟩
      · cases hactive
      · exact ⟨hj, htake hold hj⟩
    · rcases setAnim_owns h with ⟨-, -, howner⟩ | ⟨hj, hold⟩
      · cases howner
      · exact ⟨hj, htake hold hj⟩

theorem closeAnims_owns {w : Nat} {l : List (Fin animMax)} {st : Server × Bool} {j : Fin animMax}
    (h : (l.foldl (closeAnim w) st).1.Owns w j) : j ∉ l ∧ st.1.Owns w j := by
  induction l generalizing st with
  | nil => exact ⟨List.not_mem_nil, h⟩
  | cons i l ih =>
    obtain ⟨hl, hi⟩ := ih h
    obtain ⟨hj, hold⟩ := closeAnim_owns hi
    refine ⟨?_, hold⟩
    intro hmem
    rcases List.mem_cons.1 hmem with hji | hjl
    · exact hj hji
    · exact hl hjl

theorem animCancel_owns {owner w : Nat} {j : Fin animMax} (h : (animCancel s owner).Owns w j) : s.Owns w j := by
  unfold animCancel at h
  generalize List.finRange animMax = l at h
  induction l generalizing s with
  | nil => exact h
  | cons i l ih =>
    have hi := ih h
    dsimp only at hi
    split at hi
    · rcases setAnim_owns hi with ⟨-, hactive, -⟩ | ⟨-, hold⟩
      · cases hactive
      · exact hold
    · exact hi

/-- A new animation is the only one that may belong to a window to which none belonged. -/
theorem animBegin_owns {owner w : Nat} {inPlace px : Bool} {j : Fin animMax}
    (h : (animBegin s owner inPlace px).1.Owns w j) :
    s.Owns w j ∨ (animBegin s owner inPlace px).2 = some j := by
  unfold animBegin at h ⊢
  split
  · rename_i hno
    rw [if_pos hno] at h
    exact Or.inl h
  · rename_i hyes
    rw [if_neg hyes] at h
    dsimp only at h ⊢
    split
    · rename_i hfull
      rw [hfull] at h
      exact Or.inl (animCancel_owns h)
    · rename_i i hfree
      rw [hfree] at h
      rcases setAnim_owns h with ⟨hj, -⟩ | ⟨-, hold⟩
      · exact Or.inr (by rw [hj])
      · exact Or.inl (animCancel_owns hold)

/-- **No animation is left** to a window that is destroyed. -/
theorem animWindowClose_owns (v : View) (s : Server) (w : Nat) (j : Fin animMax) :
    ¬ (animWindowClose v s w false).Owns w j := by
  intro h
  unfold animWindowClose at h
  dsimp only at h
  generalize hst : (List.finRange animMax).foldl (closeAnim w) (s, false) = st at h
  have hfree : ∀ i, ¬ st.1.Owns w i := by
    intro i hi
    rw [← hst] at hi
    exact (closeAnims_owns hi).1 (List.mem_finRange i)
  have hwrite : ∀ i, ¬ (st.1.write w fun win => { win with closeSnap := false }).Owns w i := hfree
  generalize st.1.write w (fun win => { win with closeSnap := false }) = s1 at h hwrite
  generalize hpx : (_ || _ || _ : Bool) = px at h
  have hbegin := fun (hj : (animBegin s1 w false px).1.Owns w j) => animBegin_owns hj
  generalize animBegin s1 w false px = out at h hbegin
  obtain ⟨s2, r⟩ := out
  cases r with
  | none =>
    rcases hbegin h with hold | hnew
    · exact hwrite j hold
    · cases hnew
  | some i =>
    rcases setAnim_owns h with ⟨-, -, howner⟩ | ⟨hj, hold⟩
    · cases howner
    · grind

/-- A part of a step in which windows may be destroyed, but none is created. -/
structure Shrinks (s s' : Server) : Prop where
  sound : s'.Sound
  live : ∀ k x, s'.live k = some x → s.live k = some x
  sent : ∀ e ∈ s'.sent, e ∈ s.sent ∨ s.Sends e

theorem Keeps.shrinks {s' : Server} (h : Keeps s s') : Shrinks s s' := by
  refine ⟨h.sound, ?_, h.sent⟩
  intro k x hk
  rw [← h.live]
  exact hk

theorem Shrinks.trans {s' s'' : Server} (h : Shrinks s s') (h' : Shrinks s' s'') : Shrinks s s'' := by
  refine ⟨h'.sound, fun k x hk => h.live k x (h'.live k x hk), ?_⟩
  intro e he
  rcases h'.sent e he with hold | ⟨k, hk⟩
  · exact h.sent e hold
  · exact Or.inr ⟨k, h.live k _ hk⟩

/-- `window_destroy` after the animations, with this focus. -/
def dropWindow (s : Server) (w : Nat) (focused : Option Nat) : Server :=
  { s with
    zorder := takeOut s.zorder w
    hoverWin := clear w s.hoverWin
    grabWin := clear w s.grabWin
    hoverFrameWin := clear w s.hoverFrameWin
    drag := if s.dragWin = some w then .none else s.drag
    dragWin := clear w s.dragWin
    lastClickWin := clear w s.lastClickWin
    wsFocus := fun i => clear w (s.wsFocus i)
    windows := Function.update s.windows w { s.windows w with used := false }
    focused := focused }

theorem dropWindow_live (s : Server) (w : Nat) (focused : Option Nat) :
    (dropWindow s w focused).live = Function.update s.live w none := by
  funext k
  unfold Server.live dropWindow
  dsimp only
  by_cases hk : k = w
  · subst hk
    rw [Function.update_self, Function.update_self]
    exact Window.holds_unused rfl
  · rw [Function.update_of_ne hk, Function.update_of_ne hk]

theorem update_none {live : Nat → Option (UInt32 × Nat)} {w k : Nat} {x : UInt32 × Nat}
    (h : Function.update live w none k = some x) : k ≠ w ∧ live k = some x := by
  by_cases hk : k = w
  · subst hk
    rw [Function.update_self] at h
    cases h
  · rw [Function.update_of_ne hk] at h
    exact ⟨hk, h⟩

theorem clear_dropped {live : Nat → Option (UInt32 × Nat)} {r : Option Nat} (h : Ref live r) (w : Nat) :
    Ref (Function.update live w none) (clear w r) := by
  intro k hk
  unfold clear at hk
  split at hk
  · cases hk
  · rename_i hr
    have hkw : k ≠ w := by
      intro heq
      rw [heq] at hk
      exact hr hk
    rw [Function.update_of_ne hkw]
    exact h k hk

theorem dropWindow_sound (h : s.Sound) {w : Nat} (hfree : ∀ i, ¬ s.Owns w i) {focused : Option Nat}
    (hfocused : Ref (Function.update s.live w none) focused) : (dropWindow s w focused).Sound := by
  unfold Server.Sound
  rw [dropWindow_live]
  obtain ⟨ht, hr⟩ := h
  constructor
  · refine ⟨takeOut_nodup ht.nodup w, ?_, ?_, ht.room, ?_, ht.clientLt, ht.next, ?_, ?_⟩
    · intro k
      change k ∈ takeOut s.zorder w ↔ _
      rw [mem_takeOut ht.nodup, ht.mem]
      by_cases hk : k = w
      · grind
      · rw [Function.update_of_ne hk]
        exact and_iff_right hk
    · intro k hk
      obtain ⟨x, hx⟩ := Option.isSome_iff_exists.1 hk
      exact ht.lt k (Option.isSome_iff_exists.2 ⟨x, (update_none hx).2⟩)
    · intro k id c hk
      exact ht.owners k id c (update_none hk).2
    · intro hlt k id c hk
      exact ht.ids hlt k id c (update_none hk).2
    · intro hlt k k' id c c' hk hk'
      exact ht.distinct hlt k k' id c c' (update_none hk).2 (update_none hk').2
  · refine ⟨hfocused, clear_dropped hr.hoverWin w, clear_dropped hr.hoverFrameWin w,
      clear_dropped hr.grabWin w, clear_dropped hr.lastClickWin w, clear_dropped hr.dragged w, ?_, ?_, ?_⟩
    · change (if s.dragWin = some w then DragMode.none else s.drag) ≠ .none ↔ (clear w s.dragWin).isSome = true
      unfold clear
      split
      · exact iff_of_false (fun hno => hno rfl) Bool.false_ne_true
      · exact hr.dragging
    · intro i
      exact clear_dropped (hr.wsFocus i) w
    · intro i hi k hk
      have hkw : k ≠ w := by
        intro heq
        rw [heq] at hk
        exact hfree i ⟨hi, hk⟩
      rw [Function.update_of_ne hkw]
      exact hr.anims i hi k hk

/-- **Destruction.**  The slot is free, and nothing refers to it. -/
theorem windowDestroy_spec (v : View) (h : s.Sound) (w : Nat) :
    Shrinks s (windowDestroy v s w) ∧ (windowDestroy v s w).live w = none := by
  cases hused : (s.windows w).used with
  | false =>
    have heq : windowDestroy v s w = s := if_pos hused
    rw [heq]
    exact ⟨(Keeps.refl h).shrinks, Window.holds_unused hused⟩
  | true =>
    have hw : s.Used w := by
      unfold Server.Used Server.live
      rw [Window.holds_used hused]
      rfl
    have hclose := animWindowClose_keeps v h hw false
    have hfree := animWindowClose_owns v s w
    unfold windowDestroy
    rw [if_neg (by rw [hused]; decide)]
    generalize animWindowClose v s w false = s1 at hclose hfree ⊢
    have hdrop : ∀ focused, Ref (Function.update s1.live w none) focused →
        Shrinks s (dropWindow s1 w focused) ∧ (dropWindow s1 w focused).live w = none := by
      intro focused hfocused
      refine ⟨⟨dropWindow_sound hclose.sound hfree hfocused, ?_, hclose.sent⟩, ?_⟩
      · intro k x hk
        rw [dropWindow_live] at hk
        rw [← hclose.live]
        exact (update_none hk).2
      · rw [dropWindow_live, Function.update_self]
    dsimp only
    split
    · obtain ⟨hshrinks, hnone⟩ := hdrop none (ref_none _)
      have hfocus := windowFocus_keeps hshrinks.sound (topmostVisible_ref _ none)
      exact ⟨hshrinks.trans hfocus.shrinks, (congrFun hfocus.live w).trans hnone⟩
    · rename_i hother
      have hclear := clear_dropped hclose.sound.2.focused w
      unfold clear at hclear
      rw [if_neg hother] at hclear
      exact hdrop s1.focused hclear

/-! ## Creation -/

theorem windowSlotsGrow_spec (h : s.Sound) (m : SlotMemory) :
    (windowSlotsGrow s m).Sound ∧ (windowSlotsGrow s m).live = s.live ∧
      (windowSlotsGrow s m).clients = s.clients ∧ (windowSlotsGrow s m).sent = s.sent ∧
      s.windowCap ≤ (windowSlotsGrow s m).windowCap := by
  have hroom : s.windowCap ≤ if s.windowCap = 0 then 16 else s.windowCap * 2 := by
    split <;> omega
  unfold windowSlotsGrow
  dsimp only
  split
  · exact ⟨h, rfl, rfl, rfl, Nat.le_refl _⟩
  · split
    · exact ⟨⟨{ h.1 with room := hroom }, h.2⟩, rfl, rfl, rfl, Nat.le_refl _⟩
    · have hcap : s.windowCap ≤ min (s.windowCap + m.slots) (if s.windowCap = 0 then 16 else s.windowCap * 2) :=
        Nat.le_min.2 ⟨Nat.le_add_right _ _, hroom⟩
      have hroom' := Nat.min_le_right (s.windowCap + m.slots) (if s.windowCap = 0 then 16 else s.windowCap * 2)
      generalize min (s.windowCap + m.slots) (if s.windowCap = 0 then 16 else s.windowCap * 2) = n at hcap hroom' ⊢
      generalize (if s.windowCap = 0 then 16 else s.windowCap * 2) = cap at hroom' ⊢
      have hlive : ({ s with
          zorderSize := cap
          windowCap := n
          windows := fun k => if s.windowCap ≤ k ∧ k < n then Window.zero else s.windows k } : Server).live =
          s.live := by
        funext k
        unfold Server.live
        dsimp only
        split
        · rename_i hk
          have hnew : ¬ s.Used k := by
            intro hused
            have := h.1.lt k hused
            omega
          exact (Option.not_isSome_iff_eq_none.1 hnew).symm
        · rfl
      refine ⟨?_, hlive, rfl, rfl, hcap⟩
      unfold Server.Sound
      rw [hlive]
      refine ⟨{ h.1 with lt := ?_, room := hroom' }, h.2⟩
      intro k hk
      exact Nat.lt_of_lt_of_le (h.1.lt k hk) hcap

theorem windowSlot_spec (h : s.Sound) (m : SlotMemory) :
    (windowSlot s m).1.Sound ∧ (windowSlot s m).1.live = s.live ∧ (windowSlot s m).1.clients = s.clients ∧
      (windowSlot s m).1.sent = s.sent ∧
      ∀ k, (windowSlot s m).2 = some k → k < (windowSlot s m).1.windowCap ∧ s.live k = none := by
  unfold windowSlot
  split
  · rename_i i hfind
    refine ⟨h, rfl, rfl, rfl, ?_⟩
    intro k hk
    cases hk
    refine ⟨List.mem_range.1 (List.mem_of_find?_eq_some hfind), ?_⟩
    have hunused := List.find?_some hfind
    rw [Bool.not_eq_true'] at hunused
    exact Window.holds_unused hunused
  · obtain ⟨hsound, hlive, hclients, hsent, hcap⟩ := windowSlotsGrow_spec h m
    refine ⟨hsound, hlive, hclients, hsent, ?_⟩
    intro k hk
    dsimp only at hk ⊢
    split at hk
    · cases hk
    · cases hk
      refine ⟨by omega, ?_⟩
      refine Option.not_isSome_iff_eq_none.1 ?_
      intro hused
      exact Nat.lt_irrefl _ (h.1.lt _ hused)

/-- **Creation.**  A free slot holds the new window, on top. -/
theorem windowCreate_spec (h : s.Sound) {c : Nat} (hc : (s.clients c).used = true) (req : CreateWindow)
    (m : SlotMemory) : (windowCreate s c req m).Sound ∧ (windowCreate s c req m).sent = s.sent := by
  obtain ⟨hsound, hlive, hclients, hsent, hslot⟩ := windowSlot_spec h m
  unfold windowCreate
  generalize windowSlot s m = out at hsound hlive hclients hsent hslot ⊢
  obtain ⟨s1, r⟩ := out
  cases r with
  | none => exact ⟨hsound, hsent⟩
  | some k =>
    dsimp only at hsound hlive hclients hsent hslot ⊢
    obtain ⟨hk, hnone⟩ := hslot k rfl
    rw [← hlive] at hnone
    rw [← hclients] at hc
    refine ⟨?_, hsent⟩
    obtain ⟨ht, hr⟩ := hsound
    have hnew : ({ s1 with
        windows := Function.update s1.windows k (freshWindow s1 c req)
        nextWindowId := s1.nextWindowId + 1
        orderCounter := s1.orderCounter + 1
        cascade := if req.x = posAuto ∨ req.y = posAuto then s1.cascade + 1 else s1.cascade
        zorder := s1.zorder ++ [k]
        creations := s1.creations + 1 } : Server).live =
        Function.update s1.live k (some (s1.nextWindowId + 1, c)) := by
      funext j
      unfold Server.live
      dsimp only
      by_cases hj : j = k
      · subst hj
        rw [Function.update_self, Function.update_self]
        exact Window.holds_used rfl
      · rw [Function.update_of_ne hj, Function.update_of_ne hj]
    have hkeep : ∀ {r}, Ref s1.live r → Ref (Function.update s1.live k (some (s1.nextWindowId + 1, c))) r := by
      intro r hr' j hj
      by_cases hjk : j = k
      · subst hjk
        rw [Function.update_self]
        rfl
      · rw [Function.update_of_ne hjk]
        exact hr' j hj
    have hcases : ∀ {j x}, Function.update s1.live k (some (s1.nextWindowId + 1, c)) j = some x →
        j = k ∧ x = (s1.nextWindowId + 1, c) ∨ j ≠ k ∧ s1.live j = some x := by grind
    have hid : s1.creations + 1 < 2 ^ 32 → (s1.nextWindowId + 1).toNat = s1.creations + 1 := by
      intro hlt
      have hnext := ht.next (by omega)
      rw [UInt32.toNat_add, hnext]
      exact Nat.mod_eq_of_lt hlt
    unfold Server.Sound
    rw [hnew]
    constructor
    · refine ⟨?_, ?_, ?_, ht.room, ?_, ht.clientLt, hid, ?_, ?_⟩
      · rw [List.nodup_append]
        refine ⟨ht.nodup, List.nodup_singleton k, ?_⟩
        intro a ha b hb hab
        obtain rfl := List.mem_singleton.1 hb
        rw [hab, ht.mem, hnone] at ha
        cases ha
      · intro j
        rw [List.mem_append, List.mem_singleton, ht.mem]
        by_cases hj : j = k
        · subst hj
          rw [Function.update_self]
          exact iff_of_true (Or.inr rfl) rfl
        · rw [Function.update_of_ne hj]
          exact or_iff_left hj
      · intro j hj
        obtain ⟨x, hx⟩ := Option.isSome_iff_exists.1 hj
        rcases hcases hx with ⟨rfl, -⟩ | ⟨-, hold⟩
        · exact hk
        · exact ht.lt j (Option.isSome_iff_exists.2 ⟨x, hold⟩)
      · intro j id c' hj
        rcases hcases hj with ⟨-, hx⟩ | ⟨-, hold⟩
        · cases hx
          exact hc
        · exact ht.owners j id c' hold
      · intro hlt j id c' hj
        change s1.creations + 1 < 2 ^ 32 at hlt
        change id.toNat ≤ s1.creations + 1
        rcases hcases hj with ⟨-, hx⟩ | ⟨-, hold⟩
        · cases hx
          rw [hid hlt]
        · have := ht.ids (by omega) j id c' hold
          omega
      · intro hlt j j' id c' c'' hj hj'
        change s1.creations + 1 < 2 ^ 32 at hlt
        have hold_ne : ∀ {j c'}, s1.live j = some (s1.nextWindowId + 1, c') → False := by
          intro j c' hold
          have := ht.ids (by omega) j _ c' hold
          omega
        rcases hcases hj with ⟨hjk, hx⟩ | ⟨hjk, hold⟩
        · grind
        · rcases hcases hj' with ⟨-, hx'⟩ | ⟨-, hold'⟩
          · cases hx'
            exact (hold_ne hold).elim
          · exact ht.distinct (by omega) j j' id c' c'' hold hold'
    · exact ⟨hkeep hr.focused, hkeep hr.hoverWin, hkeep hr.hoverFrameWin, hkeep hr.grabWin,
        hkeep hr.lastClickWin, hkeep hr.dragged, hr.dragging, fun i => hkeep (hr.wsFocus i),
        fun i hi => hkeep (hr.anims i hi)⟩

/-! ## Clients -/

theorem clientSlotsGrow_spec (h : s.Sound) (m : ClientMemory) :
    (clientSlotsGrow s m).Sound ∧ (clientSlotsGrow s m).sent = s.sent := by
  unfold clientSlotsGrow
  dsimp only
  split
  · exact ⟨h, rfl⟩
  · have hcap : s.clientCap ≤ min (s.clientCap + m.slots) (if s.clientCap = 0 then 16 else s.clientCap * 2) := by
      split <;> omega
    generalize min (s.clientCap + m.slots) (if s.clientCap = 0 then 16 else s.clientCap * 2) = n at hcap ⊢
    -- A slot that is used is not one of the new ones.
    have hold : ∀ c, (s.clients c).used = true →
        (if s.clientCap ≤ c ∧ c < n then (⟨false, 0⟩ : Client) else s.clients c).used = true := by
      intro c hc
      have := h.1.clientLt c hc
      rw [if_neg (by omega)]
      exact hc
    refine ⟨⟨{ h.1 with owners := ?_, clientLt := ?_ }, h.2⟩, rfl⟩
    · intro k id c hk
      exact hold c (h.1.owners k id c hk)
    · intro c hc
      change (if s.clientCap ≤ c ∧ c < n then (⟨false, 0⟩ : Client) else s.clients c).used = true at hc
      change c < n
      split at hc
      · cases hc
      · have := h.1.clientLt c hc
        omega

theorem clientSlot_spec (h : s.Sound) (m : ClientMemory) :
    (clientSlot s m).1.Sound ∧ (clientSlot s m).1.sent = s.sent ∧
      ∀ c, (clientSlot s m).2 = some c → c < (clientSlot s m).1.clientCap := by
  unfold clientSlot
  split
  · grind
  · obtain ⟨hsound, hsent⟩ := clientSlotsGrow_spec h m
    refine ⟨hsound, hsent, ?_⟩
    intro c hc
    dsimp only at hc ⊢
    split at hc
    · rename_i hgrown
      cases hc
      exact hgrown
    · cases hc

/-- **A connection** takes a free slot, or none. -/
theorem clientAccept_spec (h : s.Sound) (m : ClientMemory) :
    (clientAccept s m).Sound ∧ (clientAccept s m).sent = s.sent := by
  have hslot := clientSlot_spec h m
  unfold clientAccept
  generalize clientSlot s m = out at hslot ⊢
  obtain ⟨s1, r⟩ := out
  obtain ⟨hsound, hsent, hlt⟩ := hslot
  cases r with
  | none => exact ⟨hsound, hsent⟩
  | some c =>
    refine ⟨⟨{ hsound.1 with owners := ?_, clientLt := ?_ }, hsound.2⟩, hsent⟩
    · intro k id c' hk
      change (Function.update s1.clients c _ c').used = true
      by_cases hc : c' = c
      · subst hc
        rw [Function.update_self]
      · rw [Function.update_of_ne hc]
        exact hsound.1.owners k id c' hk
    · intro c' hc'
      change (Function.update s1.clients c _ c').used = true at hc'
      by_cases hc : c' = c
      · subst hc
        exact hlt c' rfl
      · rw [Function.update_of_ne hc] at hc'
        exact hsound.1.clientLt c' hc'

/-- The loop of `client_disconnect` leaves the client no window. -/
theorem destroyWindows_spec (v : View) (c : Nat) (l : List Nat) (h : s.Sound) :
    Shrinks s (l.foldl (destroyWindows v c) s) ∧
      ∀ k ∈ l, ∀ id, (l.foldl (destroyWindows v c) s).live k ≠ some (id, c) := by
  induction l generalizing s with
  | nil => exact ⟨(Keeps.refl h).shrinks, fun k hk => nomatch hk⟩
  | cons w l ih =>
    have hone : Shrinks s (destroyWindows v c s w) ∧ ∀ id, (destroyWindows v c s w).live w ≠ some (id, c) := by
      unfold destroyWindows
      split
      · obtain ⟨hshrinks, hnone⟩ := windowDestroy_spec v h w
        refine ⟨hshrinks, ?_⟩
        intro id hid
        rw [hnone] at hid
        cases hid
      · rename_i hother
        refine ⟨(Keeps.refl h).shrinks, ?_⟩
        intro id hid
        have hused := Window.used_of_holds (Option.isSome_iff_exists.2 ⟨_, hid⟩)
        change (s.windows w).holds = some (id, c) at hid
        rw [Window.holds_used hused] at hid
        cases hid
        exact hother ⟨hused, rfl⟩
    obtain ⟨hrest, hfree⟩ := ih hone.1.sound
    refine ⟨hone.1.trans hrest, ?_⟩
    intro k hk id hid
    rcases List.mem_cons.1 hk with rfl | hl
    · exact hone.2 id (hrest.live _ _ hid)
    · exact hfree k hl id hid

theorem clientDisconnect_spec (v : View) (h : s.Sound) (c : Nat) : Shrinks s (clientDisconnect v s c) := by
  unfold clientDisconnect
  obtain ⟨hloop, hfree⟩ := destroyWindows_spec v c (List.range s.windowCap) h
  generalize (List.range s.windowCap).foldl (destroyWindows v c) s = s1 at hloop hfree ⊢
  have hnone : ∀ k id, s1.live k ≠ some (id, c) := by
    intro k id hk
    have hcap := h.1.lt k (Option.isSome_iff_exists.2 ⟨_, hloop.live k _ hk⟩)
    exact hfree k (List.mem_range.2 hcap) id hk
  have hclosed : Shrinks s { s1 with
      clients := Function.update s1.clients c { s1.clients c with used := false } } := by
    refine ⟨⟨{ hloop.sound.1 with owners := ?_, clientLt := ?_ }, hloop.sound.2⟩, hloop.live, hloop.sent⟩
    · intro k id c' hk
      have hc : c' ≠ c := by
        intro heq
        rw [heq] at hk
        exact hnone k id hk
      change (Function.update s1.clients c _ c').used = true
      rw [Function.update_of_ne hc]
      exact hloop.sound.1.owners k id c' hk
    · intro c' hc'
      change (Function.update s1.clients c _ c').used = true at hc'
      by_cases hc : c' = c
      · subst hc
        rw [Function.update_self] at hc'
        cases hc'
      · rw [Function.update_of_ne hc] at hc'
        exact hloop.sound.1.clientLt c' hc'
  exact hclosed.trans (updateHover_keeps v hclosed.sound).shrinks

/-! ## Requests -/

theorem mapWindow_keeps (v : View) (h : s.Sound) {w : Nat} (hw : s.Used w) : Keeps s (mapWindow v s w) := by
  unfold mapWindow
  dsimp only
  have hmap := keeps_write h w (f := fun win => { win with mapped := true }) fun _ => ⟨rfl, rfl, rfl⟩
  have hraise := hmap.trans (windowRaise_keeps hmap.sound w)
  generalize windowRaise (s.write w fun win => { win with mapped := true }) w = s1 at hraise ⊢
  have hfocus : Keeps s (if (s1.windows w).HasFrame then windowFocus s1 (some w) else s1) :=
    Keeps.ite (fun _ => hraise.trans (windowFocus_keeps hraise.sound (ref_some (hraise.used hw))))
      fun _ => hraise
  have hhover := hfocus.trans (updateHover_keeps v hfocus.sound)
  exact hhover.trans (animBegin_keeps hhover.sound (hhover.used hw) true _)

theorem setHidden_keeps (v : View) (h : s.Sound) {w : Nat} (hw : s.Used w) (hidden : Bool) :
    Keeps s (setHidden v s w hidden) := by
  refine Keeps.ite (fun _ => Keeps.refl h) fun _ => ?_
  dsimp only
  have hclose : Keeps s (if hidden = true then animWindowClose v s w true else s) :=
    Keeps.ite (fun _ => animWindowClose_keeps v h hw true) fun _ => Keeps.refl h
  have hwrite := hclose.trans (keeps_write hclose.sound w
    (f := fun win => { win with hidden := hidden }) fun _ => ⟨rfl, rfl, rfl⟩)
  generalize (Server.write (if hidden = true then animWindowClose v s w true else s) w
    fun win => { win with hidden := hidden }) = s1 at hwrite ⊢
  have hopen : Keeps s (if hidden = true then s1 else animWindowOpen v s1 w) :=
    Keeps.ite (fun _ => hwrite) fun _ =>
      hwrite.trans (animBegin_keeps hwrite.sound (hwrite.used hw) true _)
  have hfocus := hopen.trans (refocus_keeps hopen.sound (hidden = true ∧
    (if hidden = true then s1 else animWindowOpen v s1 w).focused = some w) (some w))
  exact hfocus.trans (updateHover_keeps v hfocus.sound)

theorem windowHandle_spec (v : View) (h : s.Sound) {w : Nat} (hw : s.Used w) (req : Request) :
    Shrinks s (windowHandle v s w req) := by
  cases req with
  | createWindow req m => exact (Keeps.refl h).shrinks
  | destroyWindow =>
    obtain ⟨hdestroy, -⟩ := windowDestroy_spec v h w
    exact hdestroy.trans (updateHover_keeps v hdestroy.sound).shrinks
  | attachBuffer pixels bw bh stride => exact (windowAttach_keeps h hw pixels bw bh stride).shrinks
  | damage => exact (Keeps.ite (fun _ => mapWindow_keeps v h hw) fun _ => Keeps.refl h).shrinks
  | setVisible visible => exact (setHidden_keeps v h hw (!visible)).shrinks
  | move x y =>
    exact (keeps_write h w (f := fun win => { win with x := x, y := y }) fun _ => ⟨rfl, rfl, rfl⟩).shrinks
  | grabPointer grab =>
    have hwrite := keeps_write h w (f := fun win => { win with pointerGrab := grab }) fun _ => ⟨rfl, rfl, rfl⟩
    exact (hwrite.trans (pointerGrabUpdate_keeps v hwrite.sound)).shrinks
  | resize rw rh =>
    exact (Keeps.ite (fun _ => Keeps.refl h) fun _ => windowSetSize_keeps h hw _ _).shrinks
  | other => exact (Keeps.refl h).shrinks

theorem windowById_used {c : Nat} {id : UInt32} {w : Nat} (h : windowById s c id = some w) : s.Used w := by
  have hfound := List.find?_some h
  rw [Bool.and_eq_true, Bool.and_eq_true] at hfound
  unfold Server.Used Server.live
  rw [Window.holds_used hfound.1.1]
  rfl

/-- A step is sound, and the events it sends are for windows that were there. -/
structure Stepped (s s' : Server) : Prop where
  sound : s'.Sound
  sent : ∀ e ∈ s'.sent, e ∈ s.sent ∨ s.Sends e

theorem Shrinks.stepped {s' : Server} (h : Shrinks s s') : Stepped s s' := ⟨h.sound, h.sent⟩

theorem Stepped.silent {s' : Server} (h : s'.Sound ∧ s'.sent = s.sent) : Stepped s s' := by
  refine ⟨h.1, ?_⟩
  intro e he
  rw [h.2] at he
  exact Or.inl he

theorem clientHandle_stepped (v : View) (h : s.Sound) {c : Nat} (hc : (s.clients c).used = true)
    (window : UInt32) (req : Request) : Stepped s (clientHandle v s c window req) := by
  unfold clientHandle
  split
  · rename_i req m
    exact Stepped.silent (windowCreate_spec h hc req m)
  · split
    · exact (Keeps.refl h).shrinks.stepped
    · rename_i w hw
      split at hw
      · cases hw
      · exact (windowHandle_spec v h (windowById_used hw) _).stepped

/-- **Step.** -/
theorem Server.Sound.step (h : s.Sound) (op : ServerOp) : Stepped s (s.step op) := by
  cases op with
  | mouse v ev => exact (handleMouseEvent_keeps v h ev).shrinks.stepped
  | key v key pressed => exact (handleKey_keeps v h key pressed).shrinks.stepped
  | accept m => exact Stepped.silent (clientAccept_spec h m)
  | request v c window req =>
    unfold Server.step
    dsimp only
    split
    · rename_i hc
      exact clientHandle_stepped v h hc window req
    · exact (Keeps.refl h).shrinks.stepped
  | disconnect v c =>
    unfold Server.step
    dsimp only
    split
    · exact (clientDisconnect_spec v h c).stepped
    · exact (Keeps.refl h).shrinks.stepped
  | settings animations pointerSpeed => exact ⟨h, fun _ he => Or.inl he⟩
  | tick v ended =>
    have htick := animTick_keeps h ended
    exact (htick.trans (pointerGrabUpdate_keeps v htick.sound)).shrinks.stepped

theorem initial_sound (width height : Int) (animations : Bool) (pointerSpeed : Int) :
    (initial width height animations pointerSpeed).Sound := by
  have hno : ∀ {k}, ((initial width height animations pointerSpeed).live k).isSome = true → False := by
    intro k hk
    cases hk
  constructor
  · refine ⟨List.nodup_nil, ?_, fun k hk => (hno hk).elim, Nat.le_refl _, ?_, ?_, fun _ => rfl, ?_, ?_⟩
    · intro k
      exact iff_of_false List.not_mem_nil hno
    · intro k id c hk
      cases hk
    · intro c hc
      cases hc
    · intro _ k id c hk
      cases hk
    · intro _ k k' id c c' hk
      cases hk
  · exact ⟨ref_none _, ref_none _, ref_none _, ref_none _, ref_none _, ref_none _,
      iff_of_false (fun hne => hne rfl) Bool.false_ne_true, fun _ => ref_none _, fun _ hi => nomatch hi⟩

theorem sound_of_reachable (h : server.Reachable (fun _ _ => True) s) : s.Sound := by
  refine h.invariant (P := Server.Sound) ?_ ?_
  · intro s hs
    obtain ⟨width, height, animations, pointerSpeed, rfl⟩ := hs
    exact initial_sound width height animations pointerSpeed
  · intro s op hs _
    exact (hs.step op).sound

/-- Something other than the stacking order refers to a window. -/
def Server.Refers (s : Server) (k : Nat) : Prop :=
  s.focused = some k ∨ s.hoverWin = some k ∨ s.hoverFrameWin = some k ∨ s.grabWin = some k ∨
    s.lastClickWin = some k ∨ (∃ i, s.wsFocus i = some k) ∨
      ∃ i, (s.anims i).active = true ∧ (s.anims i).owner = some k

/-- **The window table**, along every run of requests, connections, disconnections, mouse
events, keys and animations, with any memory.  The stacking order has each window once, and
fits into its array; no reference is to a slot without a window, or to a window without a
client; and there is a drag just when there is a window that is dragged. -/
theorem window_table (h : server.Reachable (fun _ _ => True) s) :
    s.zorder.Nodup ∧ (∀ k, k ∈ s.zorder ↔ (s.windows k).used = true) ∧
      s.zorder.length ≤ s.windowCap ∧ s.windowCap ≤ s.zorderSize ∧
      (s.creations < 2 ^ 32 → ∀ k k', (s.windows k).used = true → (s.windows k').used = true →
        (s.windows k).id = (s.windows k').id → k = k') ∧
      (∀ k, s.Refers k → (s.windows k).used = true ∧ (s.clients (s.windows k).client).used = true) ∧
      (s.drag ≠ .none ↔ ∃ k, s.dragWin = some k ∧ (s.windows k).used = true) := by
  obtain ⟨ht, hr⟩ := sound_of_reachable h
  have hmem : ∀ k, k ∈ s.zorder ↔ (s.windows k).used = true := by
    intro k
    rw [ht.mem]
    constructor
    · exact Window.used_of_holds
    · intro hk
      change (s.windows k).holds.isSome = true
      rw [Window.holds_used hk]
      rfl
  refine ⟨ht.nodup, hmem, ?_, ht.room, ?_, ?_, ?_⟩
  · have hsub : s.zorder ⊆ List.range s.windowCap := by
      intro k hk
      exact List.mem_range.2 (ht.lt k ((ht.mem k).1 hk))
    have hlen := (List.subperm_of_subset ht.nodup hsub).length_le
    rwa [List.length_range] at hlen
  · intro hlt k k' hk hk' hid
    refine ht.distinct hlt k k' (s.windows k).id (s.windows k).client (s.windows k').client ?_ ?_
    · exact Window.holds_used hk
    · rw [hid]
      exact Window.holds_used hk'
  · have hused : ∀ {r k}, Ref s.live r → r = some k →
        (s.windows k).used = true ∧ (s.clients (s.windows k).client).used = true := by
      intro r k href hrk
      have hk := Window.used_of_holds (href k hrk)
      exact ⟨hk, ht.owners k _ _ (Window.holds_used hk)⟩
    intro k hk
    rcases hk with hk | hk | hk | hk | hk | ⟨i, hk⟩ | ⟨i, hactive, hk⟩
    · exact hused hr.focused hk
    · exact hused hr.hoverWin hk
    · exact hused hr.hoverFrameWin hk
    · exact hused hr.grabWin hk
    · exact hused hr.lastClickWin hk
    · exact hused (hr.wsFocus i) hk
    · exact hused (hr.anims i hactive) hk
  · rw [hr.dragging, Option.isSome_iff_exists]
    constructor
    · intro hdrag
      obtain ⟨k, hk⟩ := hdrag
      exact ⟨k, hk, Window.used_of_holds (hr.dragged k hk)⟩
    · intro hdrag
      obtain ⟨k, hk, -⟩ := hdrag
      exact ⟨k, hk⟩

end

/-- A screen with nothing but windows on it. -/
def plainView : View where
  now := 5000
  memory := fun _ _ => true
  uncovered := fun _ _ => true
  closeSnapFits := fun _ _ => true
  overMenu := fun _ => false
  menuHit := fun _ => none
  menuSel := fun _ => 0
  menuCount := fun _ => 0
  overDock := fun _ => false
  dockHit := fun _ => none
  appCount := 0
  appForWindow := fun _ _ => none
  detachX := fun _ _ => 0

/-- A program opens a window, and its titlebar is pressed. -/
def dragging : Server :=
  server.run (initial 800 600 true 100)
    [.accept ⟨true, 16⟩, .request plainView 0 0 (.createWindow ⟨100, 100, 300, 200, 1⟩ ⟨true, true, 16⟩),
      .request plainView 0 1 (.attachBuffer 4096 300 200 300), .request plainView 0 1 .damage,
      .mouse plainView ⟨-200, -220, 0, 1⟩]

theorem dragging_window_table :
    dragging.drag = .move ∧ dragging.dragWin = some 0 ∧ (dragging.windows 0).used = true ∧
      dragging.Refers 0 ∧ (dragging.clients (dragging.windows 0).client).used = true := by
  have hstart : server.Reachable (fun _ _ => True) (initial 800 600 true 100) :=
    .start ⟨800, 600, true, 100, rfl⟩
  have hreach : server.Reachable (fun _ _ => True) dragging := hstart.run _ fun _ _ _ _ => trivial
  obtain ⟨-, -, -, -, -, hrefers, hdrag⟩ := window_table hreach
  have hfocused : dragging.Refers 0 := Or.inl (by decide +kernel)
  obtain ⟨hused, hclient⟩ := hrefers 0 hfocused
  exact ⟨by decide +kernel, by decide +kernel, hused, hfocused, hclient⟩

/-- The events that a step sends. -/
def Server.events (s : Server) (op : ServerOp) : List Sent := ({ s with sent := [] }.step op).sent

/-- **No event goes astray.**  In every run, what a step sends is for a window that was
there before it, and goes to the program the window belongs to. -/
theorem events_to_owners {s : Server} (h : server.Reachable (fun _ _ => True) s) (op : ServerOp)
    {e : Sent} (he : e ∈ s.events op) :
    ∃ k, (s.windows k).used = true ∧ (s.windows k).id = e.window ∧
      (s.windows k).client = e.client ∧ (s.clients e.client).used = true := by
  obtain ⟨htable, hrefs⟩ := sound_of_reachable h
  have hempty : { s with sent := [] }.Sound := ⟨htable, hrefs⟩
  rcases (hempty.step op).sent e he with hold | ⟨k, hk⟩
  · cases hold
  have hused := Window.used_of_holds (Option.isSome_iff_exists.2 ⟨_, hk⟩)
  have howner := htable.owners k _ _ hk
  change (s.windows k).holds = some (e.window, e.client) at hk
  rw [Window.holds_used hused] at hk
  obtain ⟨hid, hclient⟩ := Prod.mk.inj (Option.some.inj hk)
  exact ⟨k, hused, hid, hclient, howner⟩

theorem key_to_owner : ∃ k, (dragging.windows k).used = true ∧ (dragging.windows k).client = 0 := by
  have hstart : server.Reachable (fun _ _ => True) (initial 800 600 true 100) :=
    .start ⟨800, 600, true, 100, rfl⟩
  have hreach : server.Reachable (fun _ _ => True) dragging := hstart.run _ fun _ _ _ _ => trivial
  obtain ⟨k, hused, -, hclient, -⟩ := events_to_owners hreach (.key plainView 97 true)
    (e := ⟨0, 1, .keyDown⟩) (List.mem_of_getElem? (i := 0) rfl)
  exact ⟨k, hused, hclient⟩

end Desktop
