import Catio.Lib.Text
import Mathlib.Algebra.Order.Field.Basic
import Mathlib.Data.List.AList
import Mathlib.Logic.Equiv.Basic

/-!
# Layouts of terminals

The model of `components/workbench/terminalLayout.ts`: a tree of panes, each of which is split, closed
or swapped with another one, and the rectangles that the panes have, over any ordered field.  In each
tree that is reached the panes are distinct, and their rectangles tile the container
(`layout_sound`).
-/

namespace Workbench.TerminalLayout

inductive Direction where
  | row
  | col
  deriving DecidableEq

/-- A pane, or an area that is halved in a direction. -/
inductive PaneNode where
  | leaf (id : Text)
  | split (dir : Direction) (a b : PaneNode)
  deriving DecidableEq

structure Rect (K : Type) where
  left : K
  top : K
  width : K
  height : K
  deriving DecidableEq

def splitLeaf (id : Text) (dir : Direction) (newId : Text) : PaneNode → PaneNode
  | .leaf i => if i ≠ id then .leaf i else .split dir (.leaf id) (.leaf newId)
  | .split d a b => .split d (splitLeaf id dir newId a) (splitLeaf id dir newId b)

/-- Remove a leaf; its sibling takes the place of both. -/
def closeLeaf (id : Text) : PaneNode → Option PaneNode
  | .leaf i => if i = id then none else some (.leaf i)
  | .split d a b =>
      match closeLeaf id a, closeLeaf id b with
      | none, b => b
      | some a, none => some a
      | some a, some b => some (.split d a b)

def swapLeaves (idA idB : Text) : PaneNode → PaneNode
  | .leaf i => if i = idA then .leaf idB else if i = idB then .leaf idA else .leaf i
  | .split d a b => .split d (swapLeaves idA idB a) (swapLeaves idA idB b)

/-- The leaves of a tree, behind others. -/
def collectLeaves : PaneNode → List Text → List Text
  | .leaf i, out => out ++ [i]
  | .split _ a b, out => collectLeaves b (collectLeaves a out)

def PaneNode.leaves (t : PaneNode) : List Text :=
  collectLeaves t []

section

variable {K : Type} [Field K]

def Rect.halves (rect : Rect K) : Direction → Rect K × Rect K
  | .row =>
      let w := rect.width / 2
      (⟨rect.left, rect.top, w, rect.height⟩, ⟨rect.left + w, rect.top, w, rect.height⟩)
  | .col =>
      let h := rect.height / 2
      (⟨rect.left, rect.top, rect.width, h⟩, ⟨rect.left, rect.top + h, rect.width, h⟩)

/-- A map of rectangles. -/
abbrev Rects (K : Type) :=
  AList fun _ : Text => Rect K

/-- The rectangles of the leaves, into a map. -/
def computeRects : PaneNode → Rect K → Rects K → Rects K
  | .leaf i, rect, out => out.insert i rect
  | .split dir a b, rect, out =>
      computeRects b (rect.halves dir).2 (computeRects a (rect.halves dir).1 out)

def container : Rect K :=
  ⟨0, 0, 100, 100⟩

/-- The rectangle of a leaf. -/
def PaneNode.rect (t : PaneNode) (id : Text) : Option (Rect K) :=
  (computeRects t container ∅).lookup id

end

/-- The trees that are reached.  A split-off pane has a fresh name, and the last pane is kept. -/
inductive Reached : PaneNode → Prop
  | start (id : Text) : Reached (.leaf id)
  | split {t : PaneNode} (h : Reached t) (id : Text) (dir : Direction) {newId : Text}
      (hnew : newId ∉ t.leaves) : Reached (splitLeaf id dir newId t)
  | close {t : PaneNode} (h : Reached t) (id : Text) : Reached ((closeLeaf id t).getD t)
  | swap {t : PaneNode} (h : Reached t) (idA idB : Text) : Reached (swapLeaves idA idB t)

/-! ### Leaves -/

theorem collectLeaves_eq (t : PaneNode) (out : List Text) :
  collectLeaves t out = out ++ t.leaves
  := by
  induction t generalizing out with
  | leaf i => rfl
  | split d a b iha ihb =>
    have hleaves : (PaneNode.split d a b).leaves = a.leaves ++ b.leaves := ihb a.leaves
    rw [collectLeaves, ihb, iha, hleaves, List.append_assoc]

@[simp] theorem leaves_leaf (i : Text) :
  (PaneNode.leaf i).leaves = [i]
  := rfl

@[simp] theorem leaves_split (d : Direction) (a b : PaneNode) :
  (PaneNode.split d a b).leaves = a.leaves ++ b.leaves
  := collectLeaves_eq b a.leaves

theorem leaves_ne_nil (t : PaneNode) :
  t.leaves ≠ []
  := by
  induction t with
  | leaf i => simp
  | split d a b iha ihb => simp [iha]

theorem leaves_splitLeaf (id newId : Text) (dir : Direction) (t : PaneNode) :
  (splitLeaf id dir newId t).leaves = t.leaves.flatMap fun i => if i = id then [id, newId] else [i]
  := by
  induction t with
  | leaf i =>
    rw [splitLeaf]
    by_cases h : i = id <;> simp [h]
  | split d a b iha ihb => simp [splitLeaf, iha, ihb]

theorem splitLeaf_perm {id newId : Text} {leaves : List Text} (hnodup : leaves.Nodup)
    (hid : id ∈ leaves) :
  (leaves.flatMap fun i => if i = id then [id, newId] else [i]).Perm (newId :: leaves)
  := by
  obtain ⟨before, after, rfl⟩ := List.append_of_mem hid
  have hother : ∀ {l : List Text}, id ∉ l →
      (l.flatMap fun i => if i = id then [id, newId] else [i]) = l := by
    intro l hl
    induction l with
    | nil => rfl
    | cons i l ih =>
      rw [List.mem_cons, not_or] at hl
      rw [List.flatMap_cons, if_neg (Ne.symm hl.1), ih hl.2]
      rfl
  have hparts := List.nodup_append.mp hnodup
  have hbefore : id ∉ before := fun h => hparts.2.2 id h id List.mem_cons_self rfl
  have hafter : id ∉ after := (List.nodup_cons.mp hparts.2.1).1
  rw [List.flatMap_append, List.flatMap_cons, hother hbefore, hother hafter, if_pos rfl]
  exact ((@List.perm_middle _ newId [id] after).append_left before).trans List.perm_middle

theorem splitLeaf_of_notMem {id newId : Text} {dir : Direction} {t : PaneNode} (h : id ∉ t.leaves) :
  splitLeaf id dir newId t = t
  := by
  induction t with
  | leaf i =>
    rw [leaves_leaf, List.mem_singleton] at h
    rw [splitLeaf, if_pos (Ne.symm h)]
  | split d a b iha ihb =>
    rw [leaves_split, List.mem_append, not_or] at h
    rw [splitLeaf, iha h.1, ihb h.2]

theorem leaves_closeLeaf (id : Text) (t : PaneNode) :
  (closeLeaf id t).elim [] PaneNode.leaves = t.leaves.filter (· != id)
  := by
  induction t with
  | leaf i =>
    rw [closeLeaf]
    by_cases h : i = id <;> simp [h]
  | split d a b iha ihb =>
    rw [closeLeaf, leaves_split, List.filter_append, ← iha, ← ihb]
    cases closeLeaf id a <;> cases closeLeaf id b <;> simp

theorem closeLeaf_splitLeaf {id newId : Text} {dir : Direction} {t : PaneNode}
    (h : newId ∉ t.leaves) :
  closeLeaf newId (splitLeaf id dir newId t) = some t
  := by
  induction t with
  | leaf i =>
    rw [leaves_leaf, List.mem_singleton] at h
    rw [splitLeaf]
    by_cases hi : i = id
    · subst hi
      simp [closeLeaf, Ne.symm h]
    · simp [closeLeaf, hi, Ne.symm h]
  | split d a b iha ihb =>
    rw [leaves_split, List.mem_append, not_or] at h
    rw [splitLeaf, closeLeaf, iha h.1, ihb h.2]

theorem swapLeaves_leaf (idA idB i : Text) :
  swapLeaves idA idB (.leaf i) = .leaf (Equiv.swap idA idB i)
  := by
  rw [swapLeaves, Equiv.swap_apply_def]
  split_ifs <;> rfl

theorem leaves_swapLeaves (idA idB : Text) (t : PaneNode) :
  (swapLeaves idA idB t).leaves = t.leaves.map (Equiv.swap idA idB)
  := by
  induction t with
  | leaf i => rw [swapLeaves_leaf, leaves_leaf, leaves_leaf, List.map_singleton]
  | split d a b iha ihb => simp [swapLeaves, iha, ihb]

theorem swapLeaves_swapLeaves (idA idB : Text) (t : PaneNode) :
  swapLeaves idA idB (swapLeaves idA idB t) = t
  := by
  induction t with
  | leaf i => rw [swapLeaves_leaf, swapLeaves_leaf, Equiv.swap_apply_self]
  | split d a b iha ihb => rw [swapLeaves, swapLeaves, iha, ihb]

theorem Reached.nodup {t : PaneNode} (h : Reached t) :
  t.leaves.Nodup
  := by
  induction h with
  | start id => exact List.nodup_singleton id
  | @split t _ id dir newId hnew ih =>
    by_cases hid : id ∈ t.leaves
    · rw [leaves_splitLeaf, (splitLeaf_perm ih hid).nodup_iff]
      exact List.nodup_cons.mpr ⟨hnew, ih⟩
    · rwa [splitLeaf_of_notMem hid]
  | @close t _ id ih =>
    have hleaves := leaves_closeLeaf id t
    cases hclose : closeLeaf id t with
    | none => exact ih
    | some t' =>
      rw [hclose] at hleaves
      change t'.leaves.Nodup
      rw [show t'.leaves = _ from hleaves]
      exact ih.filter _
  | swap _ idA idB ih =>
    rw [leaves_swapLeaves]
    exact ih.map (Equiv.injective _)

/-! ### Rectangles -/

section

variable {K : Type} [Field K]

/-- The rectangle that the leaf of a name gets in one. -/
def rectIn (id : Text) : PaneNode → Rect K → Option (Rect K)
  | .leaf i, rect => if i = id then some rect else none
  | .split dir a b, rect => (rectIn id b (rect.halves dir).2).or (rectIn id a (rect.halves dir).1)

theorem lookup_computeRects (id : Text) (t : PaneNode) (rect : Rect K) (out : Rects K) :
  (computeRects t rect out).lookup id = (rectIn id t rect).or (out.lookup id)
  := by
  induction t generalizing rect out with
  | leaf i =>
    rw [computeRects, rectIn]
    split
    · rename_i h
      rw [h, AList.lookup_insert, Option.some_or]
    · rename_i h
      rw [AList.lookup_insert_ne (Ne.symm h), Option.none_or]
  | split dir a b iha ihb => rw [computeRects, rectIn, ihb, iha, Option.or_assoc]

theorem rect_eq (id : Text) (t : PaneNode) :
  t.rect id = rectIn (K := K) id t container
  := by
  rw [PaneNode.rect, lookup_computeRects, AList.lookup_empty, Option.or_none]

theorem rectIn_isSome (id : Text) (t : PaneNode) (rect : Rect K) :
  (rectIn id t rect).isSome ↔ id ∈ t.leaves
  := by
  induction t generalizing rect with
  | leaf i =>
    rw [rectIn, leaves_leaf, List.mem_singleton]
    split <;> simp_all [eq_comm]
  | split dir a b iha ihb =>
    rw [rectIn, Option.isSome_or, Bool.or_eq_true, iha, ihb, leaves_split, List.mem_append, or_comm]

theorem rectIn_split {id : Text} {dir : Direction} {a b : PaneNode} {rect r : Rect K}
    (hnodup : (PaneNode.split dir a b).leaves.Nodup) :
  rectIn id (.split dir a b) rect = some r
    ↔ rectIn id a (rect.halves dir).1 = some r ∨ rectIn id b (rect.halves dir).2 = some r
  := by
  rw [leaves_split, List.nodup_append] at hnodup
  rw [rectIn]
  cases hb : rectIn id b (rect.halves dir).2 with
  | none => simp
  | some r' =>
    have hmem := (rectIn_isSome id b _).mp (Option.isSome_of_eq_some hb)
    have hnone : rectIn id a (rect.halves dir).1 = none := by
      rw [← Option.not_isSome_iff_eq_none, rectIn_isSome]
      exact fun h => hnodup.2.2 id h id hmem rfl
    simp [hnone]

theorem rectIn_swapLeaves (idA idB id : Text) (t : PaneNode) (rect : Rect K) :
  rectIn id (swapLeaves idA idB t) rect = rectIn (Equiv.swap idA idB id) t rect
  := by
  induction t generalizing rect with
  | leaf i =>
    rw [swapLeaves_leaf, rectIn, rectIn]
    have hswap : Equiv.swap idA idB i = id ↔ i = Equiv.swap idA idB id := Equiv.swap_apply_eq_iff
    simp only [hswap]
  | split dir a b iha ihb => rw [swapLeaves, rectIn, rectIn, iha, ihb]

variable [LinearOrder K] [IsStrictOrderedRing K]

/-- A point is in a rectangle. -/
def Rect.Contains (rect : Rect K) (x y : K) : Prop :=
  (rect.left ≤ x ∧ x ≤ rect.left + rect.width) ∧ rect.top ≤ y ∧ y ≤ rect.top + rect.height

/-- A point is inside of a rectangle, not on its border. -/
def Rect.Inside (rect : Rect K) (x y : K) : Prop :=
  (rect.left < x ∧ x < rect.left + rect.width) ∧ rect.top < y ∧ y < rect.top + rect.height

/-- A rectangle has an area. -/
def Rect.Proper (rect : Rect K) : Prop :=
  0 < rect.width ∧ 0 < rect.height

theorem halves_interval {l w x : K} (hw : 0 < w) :
  (l ≤ x ∧ x ≤ l + w ↔ (l ≤ x ∧ x ≤ l + w / 2) ∨ l + w / 2 ≤ x ∧ x ≤ l + w / 2 + w / 2)
    ∧ (l < x ∧ x < l + w / 2 → l < x ∧ x < l + w)
    ∧ (l + w / 2 < x ∧ x < l + w / 2 + w / 2 → l < x ∧ x < l + w)
    ∧ ¬((l < x ∧ x < l + w / 2) ∧ l + w / 2 < x ∧ x < l + w / 2 + w / 2)
  := by
  have hsum : l + w / 2 + w / 2 = l + w := by rw [add_assoc, add_halves]
  have hfirst : l < l + w / 2 := lt_add_of_pos_right l (half_pos hw)
  have hsecond : l + w / 2 < l + w := hsum ▸ lt_add_of_pos_right (l + w / 2) (half_pos hw)
  rw [hsum]
  refine ⟨⟨?_, ?_⟩, ?_, ?_, ?_⟩
  · rintro ⟨hl, hr⟩
    exact (le_total x (l + w / 2)).imp (fun hx => ⟨hl, hx⟩) fun hx => ⟨hx, hr⟩
  · rintro (⟨hl, hr⟩ | ⟨hl, hr⟩)
    · exact ⟨hl, hr.trans hsecond.le⟩
    · exact ⟨hfirst.le.trans hl, hr⟩
  · rintro ⟨hl, hr⟩
    exact ⟨hl, hr.trans hsecond⟩
  · rintro ⟨hl, hr⟩
    exact ⟨hfirst.trans hl, hr⟩
  · rintro ⟨⟨-, hr⟩, hl, -⟩
    exact hl.not_gt hr

theorem halves_tile {rect : Rect K} (h : rect.Proper) (dir : Direction) :
  ((rect.halves dir).1.Proper ∧ (rect.halves dir).2.Proper)
    ∧ ∀ x y, (rect.Contains x y
        ↔ (rect.halves dir).1.Contains x y ∨ (rect.halves dir).2.Contains x y)
      ∧ ((rect.halves dir).1.Inside x y → rect.Inside x y)
      ∧ ((rect.halves dir).2.Inside x y → rect.Inside x y)
      ∧ ¬((rect.halves dir).1.Inside x y ∧ (rect.halves dir).2.Inside x y)
  := by
  obtain ⟨hwidth, hheight⟩ := h
  cases dir with
  | row =>
    have hhalf : 0 < rect.width / 2 := half_pos hwidth
    refine ⟨⟨⟨hhalf, hheight⟩, hhalf, hheight⟩, fun x y => ?_⟩
    obtain ⟨hpoints, hfirst, hsecond, hcommon⟩ := @halves_interval K _ _ _ rect.left _ x hwidth
    unfold Rect.Contains
    rw [hpoints, or_and_right]
    exact ⟨.rfl, And.imp_left hfirst, And.imp_left hsecond, fun h => hcommon ⟨h.1.1, h.2.1⟩⟩
  | col =>
    have hhalf : 0 < rect.height / 2 := half_pos hheight
    refine ⟨⟨⟨hwidth, hhalf⟩, hwidth, hhalf⟩, fun x y => ?_⟩
    obtain ⟨hpoints, hfirst, hsecond, hcommon⟩ := @halves_interval K _ _ _ rect.top _ y hheight
    unfold Rect.Contains
    rw [hpoints, and_or_left]
    exact ⟨.rfl, And.imp_right hfirst, And.imp_right hsecond, fun h => hcommon ⟨h.1.2, h.2.2⟩⟩

/-- The rectangles of the leaves tile the one that they are in. -/
structure Tiles (t : PaneNode) (rect : Rect K) : Prop where
  proper : ∀ id r, rectIn id t rect = some r → r.Proper
  within : ∀ id r, rectIn id t rect = some r → ∀ x y, r.Inside x y → rect.Inside x y
  cover : ∀ x y, rect.Contains x y ↔ ∃ id r, rectIn id t rect = some r ∧ r.Contains x y
  disjoint : ∀ id id' r r', rectIn id t rect = some r → rectIn id' t rect = some r' → id ≠ id' →
    ∀ x y, ¬(r.Inside x y ∧ r'.Inside x y)

theorem tiles {t : PaneNode} (hnodup : t.leaves.Nodup) {rect : Rect K} (hrect : rect.Proper) :
  Tiles t rect
  := by
  induction t generalizing rect with
  | leaf i =>
    have hleaf : ∀ {id : Text} {r : Rect K}, rectIn id (.leaf i) rect = some r ↔ i = id ∧ rect = r := by
      intro id r
      rw [rectIn]
      split <;> simp_all
    constructor
    · rintro id r h
      rw [← (hleaf.mp h).2]
      exact hrect
    · rintro id r h x y hinside
      rw [(hleaf.mp h).2]
      exact hinside
    · intro x y
      constructor
      · exact fun h => ⟨i, rect, hleaf.mpr ⟨rfl, rfl⟩, h⟩
      · rintro ⟨id, r, h, hr⟩
        rw [(hleaf.mp h).2]
        exact hr
    · intro id id' r r' h h' hne
      exact absurd ((hleaf.mp h).1.symm.trans (hleaf.mp h').1) hne
  | split dir a b iha ihb =>
    have hparts := List.nodup_append.mp (leaves_split dir a b ▸ hnodup)
    obtain ⟨⟨hfirst, hsecond⟩, hpoints⟩ := halves_tile hrect dir
    have ha := iha hparts.1 hfirst
    have hb := ihb hparts.2.1 hsecond
    have hsplit : ∀ {id : Text} {r : Rect K}, rectIn id (.split dir a b) rect = some r ↔
        rectIn id a (rect.halves dir).1 = some r ∨ rectIn id b (rect.halves dir).2 = some r :=
      rectIn_split hnodup
    constructor
    · rintro id r h
      exact (hsplit.mp h).elim (ha.proper id r) (hb.proper id r)
    · rintro id r h x y hinside
      rcases hsplit.mp h with h | h
      · exact (hpoints x y).2.1 (ha.within id r h x y hinside)
      · exact (hpoints x y).2.2.1 (hb.within id r h x y hinside)
    · intro x y
      rw [(hpoints x y).1, ha.cover, hb.cover]
      simp only [hsplit, or_and_right, exists_or]
    · intro id id' r r' h h' hne x y ⟨hin, hin'⟩
      rcases hsplit.mp h with h | h <;> rcases hsplit.mp h' with h' | h'
      · exact ha.disjoint id id' r r' h h' hne x y ⟨hin, hin'⟩
      · exact (hpoints x y).2.2.2 ⟨ha.within id r h x y hin, hb.within id' r' h' x y hin'⟩
      · exact (hpoints x y).2.2.2 ⟨ha.within id' r' h' x y hin', hb.within id r h x y hin⟩
      · exact hb.disjoint id id' r r' h h' hne x y ⟨hin, hin'⟩

end

/-! ### Soundness -/

/-- In each tree that is reached: the leaves are distinct; closing a new leaf undoes the split;
closing removes the leaf, and fails on the last one only; swapping exchanges two positions and
undoes itself; and the rectangles tile the container. -/
theorem layout_sound {t : PaneNode} (h : Reached t) :
  t.leaves.Nodup
    ∧ (∀ id ∈ t.leaves, ∀ dir newId, newId ∉ t.leaves →
      (splitLeaf id dir newId t).leaves.Perm (newId :: t.leaves)
        ∧ closeLeaf newId (splitLeaf id dir newId t) = some t)
    ∧ (∀ id ∈ t.leaves, (closeLeaf id t = none ↔ t.leaves = [id])
      ∧ ∀ t', closeLeaf id t = some t' → t'.leaves = t.leaves.erase id)
    ∧ (∀ idA idB, (swapLeaves idA idB t).leaves = t.leaves.map (Equiv.swap idA idB)
      ∧ swapLeaves idA idB (swapLeaves idA idB t) = t)
    ∧ ∀ (K : Type) [Field K] [LinearOrder K] [IsStrictOrderedRing K],
      (∀ id, (t.rect (K := K) id).isSome ↔ id ∈ t.leaves)
        ∧ (∀ idA idB id, (swapLeaves idA idB t).rect (K := K) id = t.rect (Equiv.swap idA idB id))
        ∧ (∀ x y : K, container.Contains x y
          ↔ ∃ id r, t.rect id = some r ∧ Rect.Contains r x y)
        ∧ ∀ id id' r r', t.rect (K := K) id = some r → t.rect id' = some r' → id ≠ id' →
          ∀ x y, ¬(r.Inside x y ∧ r'.Inside x y)
  := by
  have hnodup := h.nodup
  refine ⟨hnodup, ?_, ?_, fun idA idB => ⟨leaves_swapLeaves idA idB t,
    swapLeaves_swapLeaves idA idB t⟩, ?_⟩
  · intro id hid dir newId hnew
    rw [leaves_splitLeaf]
    exact ⟨splitLeaf_perm hnodup hid, closeLeaf_splitLeaf hnew⟩
  · intro id hid
    have hclosed := leaves_closeLeaf id t
    rw [← hnodup.erase_eq_filter] at hclosed
    constructor
    · constructor
      · intro hnone
        rw [hnone] at hclosed
        have hperm := List.perm_cons_erase hid
        rw [← show [] = t.leaves.erase id from hclosed] at hperm
        exact List.perm_singleton.mp hperm
      · intro hlast
        cases hclose : closeLeaf id t with
        | none => rfl
        | some t' =>
          rw [hclose, hlast, List.erase_cons_head] at hclosed
          exact absurd hclosed (leaves_ne_nil t')
    · intro t' hclose
      rw [hclose] at hclosed
      exact hclosed
  · intro K _ _ _
    have hproper : (container (K := K)).Proper := ⟨by simp [container], by simp [container]⟩
    have htiles := tiles hnodup hproper
    simp only [rect_eq]
    exact ⟨fun id => rectIn_isSome id t _, fun idA idB id => rectIn_swapLeaves idA idB id t _,
      htiles.cover, htiles.disjoint⟩

theorem layout_sound_pair :
  (splitLeaf "p0" .row "p1" (.leaf "p0")).leaves.Nodup
  := by
  exact (layout_sound (.split (.start "p0") "p0" .row (by decide))).1

end Workbench.TerminalLayout
