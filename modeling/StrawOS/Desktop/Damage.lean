import StrawOS.Desktop.State
import Mathlib.Data.UInt
import StrawOS.Lib.SwapTable

/-!
# Damage

Which parts of the screen must be drawn again: `render.c`, with the rectangles of `gfx.c`.
Whoever changes what the screen should show adds the rectangle it changed.  Rectangles near
each other are joined, and a full list collapses to one rectangle.
-/

namespace Desktop

/-! ## Rectangles -/

/-- `sx_rect_empty`. -/
def Rect.Empty (r : Rect) : Prop := r.w ≤ 0 ∨ r.h ≤ 0

instance (r : Rect) : Decidable r.Empty := inferInstanceAs (Decidable (_ ∨ _))

def sxRectIntersect (a b : Rect) : Rect :=
  let x0 := max a.x b.x
  let y0 := max a.y b.y
  let x1 := min (a.x + a.w) (b.x + b.w)
  let y1 := min (a.y + a.h) (b.y + b.h)
  if x1 ≤ x0 ∨ y1 ≤ y0 then ⟨0, 0, 0, 0⟩ else ⟨x0, y0, x1 - x0, y1 - y0⟩

def sxRectUnion (a b : Rect) : Rect :=
  if a.Empty then b
  else if b.Empty then a
  else
    let x0 := min a.x b.x
    let y0 := min a.y b.y
    let x1 := max (a.x + a.w) (b.x + b.w)
    let y1 := max (a.y + a.h) (b.y + b.h)
    ⟨x0, y0, x1 - x0, y1 - y0⟩

def slack : Int := 24

def rectsNear (a b : Rect) : Bool :=
  decide (a.x - slack < b.x + b.w ∧ b.x - slack < a.x + a.w ∧
    a.y - slack < b.y + b.h ∧ b.y - slack < a.y + a.h)

theorem contains_intersect {a b : Rect} {x y : Int} :
    (sxRectIntersect a b).Contains x y ↔ a.Contains x y ∧ b.Contains x y := by
  simp only [sxRectIntersect, Rect.Contains]
  split <;> dsimp only <;> omega

theorem contains_union {a b : Rect} {x y : Int} (h : a.Contains x y ∨ b.Contains x y) :
    (sxRectUnion a b).Contains x y := by
  rw [sxRectUnion]
  split_ifs <;> simp only [Rect.Contains, Rect.Empty] at * <;> omega

theorem rectsNear_comm (a b : Rect) : rectsNear a b = rectsNear b a := by
  rw [rectsNear, rectsNear, decide_eq_decide]
  omega

def maxDamage : Nat := 32

/-- The loop of `damage_add`: what is left of the list, and what the rectangle has become. -/
def mergeNear (d : List Rect) (r : Rect) : List Rect × Rect :=
  if h : d.findIdx (rectsNear · r) < d.length then
    mergeNear (SwapTable.swapRemove d (d.findIdx (rectsNear · r)))
      (sxRectUnion r d[d.findIdx (rectsNear · r)])
  else (d, r)
termination_by d.length
decreasing_by
  have := SwapTable.length_swapRemove h
  omega

variable (width height : Int)

def screenRect : Rect := ⟨0, 0, width, height⟩

def damageAdd (d : List Rect) (r : Rect) : List Rect :=
  let r := sxRectIntersect r (screenRect width height)
  if r.Empty then d
  else
    let m := mergeNear d r
    if m.1.length = maxDamage then
      [sxRectUnion (m.1.tail.foldl sxRectUnion (m.1.headD m.2)) m.2]
    else m.1 ++ [m.2]

/-- `damage_all`. -/
def damageAll : List Rect := damageAdd width height [] (screenRect width height)

/-- A rectangle that is not empty and on the screen, so that every row of it can be
copied to the screen. -/
structure Rect.OnScreen (r : Rect) : Prop where
  w : 0 < r.w
  h : 0 < r.h
  x : 0 ≤ r.x
  y : 0 ≤ r.y
  right : r.x + r.w ≤ width
  bottom : r.y + r.h ≤ height

/-- The stored rectangles are few, on the screen and not near each other. -/
structure Damage (d : List Rect) : Prop where
  count : d.length ≤ maxDamage
  onScreen : ∀ r ∈ d, r.OnScreen width height
  apart : d.Pairwise fun a b => rectsNear a b = false

def Covers (d : List Rect) (x y : Int) : Prop := ∃ r ∈ d, r.Contains x y

@[simp] theorem covers_nil {x y : Int} : ¬ Covers [] x y := by simp [Covers]

@[simp] theorem covers_cons {r : Rect} {d : List Rect} {x y : Int} :
    Covers (r :: d) x y ↔ r.Contains x y ∨ Covers d x y := by simp [Covers]

variable {width height}

theorem Rect.OnScreen.union {a b : Rect} (ha : a.OnScreen width height)
    (hb : b.OnScreen width height) : (sxRectUnion a b).OnScreen width height := by
  obtain ⟨haw, hah, hax, hay, har, hab⟩ := ha
  obtain ⟨hbw, hbh, hbx, hby, hbr, hbb⟩ := hb
  have hne : ¬ a.Empty ∧ ¬ b.Empty := by
    simp only [Rect.Empty]
    omega
  rw [sxRectUnion, if_neg hne.1, if_neg hne.2]
  constructor <;> dsimp only <;> omega

theorem onScreen_intersect {r : Rect}
    (hne : ¬ (sxRectIntersect r (screenRect width height)).Empty) :
    (sxRectIntersect r (screenRect width height)).OnScreen width height := by
  simp only [sxRectIntersect] at hne ⊢
  split_ifs at hne ⊢ with hout
  · exact absurd (Or.inl (Int.le_refl 0)) hne
  · simp only [screenRect] at hout ⊢
    constructor <;> dsimp only <;> omega

/-- **The merging loop**: what was covered stays covered, and nothing that is left is near
the rectangle that comes out. -/
theorem mergeNear_spec {d : List Rect} {r : Rect} (hd : Damage width height d)
    (hr : r.OnScreen width height) :
    Damage width height (mergeNear d r).1 ∧ (mergeNear d r).2.OnScreen width height ∧
      (∀ a ∈ (mergeNear d r).1, rectsNear a (mergeNear d r).2 = false) ∧
      ∀ x y, Covers d x y ∨ r.Contains x y →
        Covers (mergeNear d r).1 x y ∨ (mergeNear d r).2.Contains x y := by
  fun_induction mergeNear d r with
  | case1 d r hi ih =>
    have hperm := SwapTable.swapRemove_perm hi
    have hlen := SwapTable.length_swapRemove hi
    generalize d.findIdx (rectsNear · r) = i at *
    have hsub : ∀ a ∈ SwapTable.swapRemove d i, a ∈ d := fun a ha =>
      hperm.subset (List.mem_cons_of_mem _ ha)
    have hapart : (d[i] :: SwapTable.swapRemove d i).Pairwise fun a b => rectsNear a b = false :=
      (hperm.pairwise_iff fun {a b} hab => rectsNear_comm a b ▸ hab).mpr hd.apart
    have hleft : Damage width height (SwapTable.swapRemove d i) :=
      ⟨by have := hd.count; omega, fun a ha => hd.onScreen a (hsub a ha), hapart.of_cons⟩
    obtain ⟨h1, h2, h3, h4⟩ := ih hleft (hr.union (hd.onScreen _ (List.getElem_mem hi)))
    refine ⟨h1, h2, h3, fun x y hcov => h4 x y ?_⟩
    rcases hcov with ⟨a, ha, hin⟩ | hin
    · exact (covers_cons.mp ⟨a, hperm.symm.subset ha, hin⟩).symm.imp_right (contains_union ∘ Or.inr)
    · exact Or.inr (contains_union (Or.inl hin))
  | case2 d r hi =>
    refine ⟨hd, hr, ?_, fun _ _ h => h⟩
    intro a ha
    have hnone : d.findIdx (rectsNear · r) = d.length :=
      Nat.le_antisymm List.findIdx_le_length (Nat.not_lt.mp hi)
    exact List.findIdx_eq_length.mp hnone a ha

/-- The union of a full list. -/
theorem foldl_union {d : List Rect} {r : Rect} (hr : r.OnScreen width height)
    (hd : ∀ a ∈ d, a.OnScreen width height) :
    (d.foldl sxRectUnion r).OnScreen width height ∧
      ∀ x y, r.Contains x y ∨ Covers d x y → (d.foldl sxRectUnion r).Contains x y := by
  induction d generalizing r with
  | nil => exact ⟨hr, fun x y h => h.resolve_right covers_nil⟩
  | cons b rest ih =>
    obtain ⟨hb, hrest⟩ := List.forall_mem_cons.mp hd
    obtain ⟨hon, hcov⟩ := ih (hr.union hb) hrest
    refine ⟨hon, fun x y h => hcov x y ?_⟩
    rw [covers_cons, ← or_assoc] at h
    exact h.imp_left contains_union

/-- **`damage_add`** covers what the list covered and what it is given of the screen. -/
theorem damageAdd_spec {d : List Rect} (hd : Damage width height d) (r : Rect) :
    Damage width height (damageAdd width height d r) ∧ ∀ x y,
      Covers d x y ∨ r.Contains x y ∧ (screenRect width height).Contains x y →
        Covers (damageAdd width height d r) x y := by
  simp only [← contains_intersect, damageAdd]
  by_cases hempty : (sxRectIntersect r (screenRect width height)).Empty
  · rw [if_pos hempty]
    refine ⟨hd, fun x y h => h.resolve_right fun hin => ?_⟩
    simp only [Rect.Empty, Rect.Contains] at hempty hin
    omega
  rw [if_neg hempty]
  obtain ⟨hleft, hon, hfar, hcov⟩ := mergeNear_spec hd (onScreen_intersect hempty)
  generalize mergeNear d (sxRectIntersect r (screenRect width height)) = m at *
  by_cases hfull : m.1.length = maxDamage
  · rw [if_pos hfull]
    obtain ⟨⟨_ | ⟨first, rest⟩, joined⟩⟩ := m
    · simp [maxDamage] at hfull
    obtain ⟨hfirst, hrest⟩ := List.forall_mem_cons.mp hleft.onScreen
    obtain ⟨hall, hin⟩ := foldl_union hfirst hrest
    refine ⟨⟨Nat.le_of_ble_eq_true rfl, by simpa using hall.union hon, List.pairwise_singleton _ _⟩, ?_⟩
    intro x y h
    refine ⟨_, List.mem_singleton_self _, contains_union ?_⟩
    exact (hcov x y h).imp_left fun hd => hin x y (covers_cons.mp hd)
  · rw [if_neg hfull]
    have hlen := hleft.count
    refine ⟨⟨by rw [List.length_append, List.length_singleton]; omega, ?_, ?_⟩, ?_⟩
    · exact List.forall_mem_append.mpr ⟨hleft.onScreen, by simpa using hon⟩
    · exact List.pairwise_append.mpr ⟨hleft.apart, List.pairwise_singleton _ _, by simpa using hfar⟩
    · intro x y h
      simpa [Covers, or_and_right, exists_or] using hcov x y h

/-! ## The screen -/

/-- What the screen should show, what it shows, and the stored rectangles. -/
structure Screen (α : Type*) where
  scene : Int → Int → α
  shown : Int → Int → α
  damage : List Rect

variable {α : Type*}

/-- `compose_rect`: it draws all there is, clipped to the rectangle, and copies it. -/
def composeRect (s : Screen α) (r : Rect) : Screen α :=
  { s with shown := fun x y => if r.Contains x y then s.scene x y else s.shown x y }

def compose (s : Screen α) : Screen α := s.damage.foldl composeRect { s with damage := [] }

inductive ScreenOp (α : Type*)
  | change (scene : Int → Int → α) (r : Rect)
  | changeAll (scene : Int → Int → α)
  | compose

/-- The screen from the first `damage_all` on.  Its outputs are the rectangles drawn. -/
def screen (width height : Int) : Machine (Screen α) (ScreenOp α) Rect where
  start s := s.damage = damageAll width height
  step s
    | .change scene r =>
      ({ s with scene := scene, damage := damageAdd width height s.damage r }, [])
    | .changeAll scene => ({ s with scene := scene, damage := damageAll width height }, [])
    | .compose => (compose s, s.damage)

/-- The edges of a rectangle fit in an `int`. -/
def Rect.Fits (r : Rect) : Prop :=
  -2 ^ 31 ≤ r.x + r.w ∧ r.x + r.w < 2 ^ 31 ∧ -2 ^ 31 ≤ r.y + r.h ∧ r.y + r.h < 2 ^ 31

/-- A change is inside the rectangle that is added for it. -/
def Announced (s : Screen α) : ScreenOp α → Prop
  | .change scene r => r.Fits ∧ ∀ x y, ¬ r.Contains x y → scene x y = s.scene x y
  | _ => True

/-- Every pixel of the screen is right or will be drawn again. -/
structure Screen.Fresh (width height : Int) (s : Screen α) : Prop where
  damage : Damage width height s.damage
  fresh : ∀ x y, (screenRect width height).Contains x y →
    Covers s.damage x y ∨ s.shown x y = s.scene x y

theorem damage_nil : Damage width height [] :=
  ⟨Nat.zero_le _, fun _ h => absurd h List.not_mem_nil, List.Pairwise.nil⟩

theorem damageAll_spec : Damage width height (damageAll width height) ∧
    ∀ x y, (screenRect width height).Contains x y → Covers (damageAll width height) x y := by
  obtain ⟨hd, hcov⟩ := damageAdd_spec damage_nil (screenRect width height)
  exact ⟨hd, fun x y h => hcov x y (Or.inr ⟨h, h⟩)⟩

/-- What `compose` draws is the scene, and the other pixels stay. -/
theorem foldl_composeRect (rects : List Rect) (s : Screen α) :
    (rects.foldl composeRect s).scene = s.scene ∧
      (rects.foldl composeRect s).damage = s.damage ∧ ∀ x y,
        s.shown x y = s.scene x y ∨ Covers rects x y →
          (rects.foldl composeRect s).shown x y = s.scene x y := by
  induction rects generalizing s with
  | nil => exact ⟨rfl, rfl, fun x y h => h.resolve_right covers_nil⟩
  | cons r rest ih =>
    obtain ⟨hscene, hdamage, hshown⟩ := ih (composeRect s r)
    refine ⟨hscene, hdamage, fun x y h => hshown x y ?_⟩
    rw [covers_cons] at h
    by_cases hr : r.Contains x y
    · exact Or.inl (if_pos hr)
    · exact h.imp (if_neg hr).trans fun hc => hc.resolve_left hr

theorem Screen.Fresh.composed {s : Screen α} (h : s.Fresh width height) {x y : Int}
    (hin : (screenRect width height).Contains x y) : (compose s).shown x y = s.scene x y :=
  (foldl_composeRect s.damage { s with damage := [] }).2.2 x y (h.fresh x y hin).symm

theorem Screen.Fresh.step {s : Screen α} (h : s.Fresh width height) {op : ScreenOp α}
    (hop : Announced s op) : ((screen width height).step s op).1.Fresh width height := by
  cases op with
  | change scene r =>
    obtain ⟨hd, hcov⟩ := damageAdd_spec h.damage r
    refine ⟨hd, fun x y hin => ?_⟩
    by_cases hr : r.Contains x y
    · exact Or.inl (hcov x y (Or.inr ⟨hr, hin⟩))
    · refine (h.fresh x y hin).imp (fun hold => hcov x y (Or.inl hold)) fun hold => ?_
      exact hold.trans (hop.2 x y hr).symm
  | changeAll scene =>
    exact ⟨damageAll_spec.1, fun x y hin => Or.inl (damageAll_spec.2 x y hin)⟩
  | compose =>
    obtain ⟨hscene, hdamage, -⟩ := foldl_composeRect s.damage { s with damage := [] }
    refine ⟨hdamage ▸ damage_nil, fun x y hin => Or.inr ?_⟩
    exact (h.composed hin).trans (congrFun (congrFun hscene x) y).symm

end Desktop
