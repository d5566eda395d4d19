import Mathlib.Data.List.Basic
import Mathlib.Data.List.Forall2

/-!
# Places of a list

What is found at a place of a list in which one element was added at the end, or changed, and how
the places of two lists with the same keys go together.
-/

namespace Places

variable {α : Type} {l : List α} {a b : α} {j k : ℕ}

theorem getElem?_snoc (h : (l ++ [a])[k]? = some b) :
  (k = l.length ∧ b = a) ∨ l[k]? = some b
  := by
  obtain hlt | hge := Nat.lt_or_ge k l.length
  · rw [List.getElem?_append_left hlt] at h
    exact .inr h
  · rw [List.getElem?_append_right hge, List.getElem?_singleton] at h
    split at h
    · cases h
      exact .inl ⟨by omega, rfl⟩
    · cases h

theorem getElem?_set (h : (l.set j a)[k]? = some b) :
  (k = j ∧ b = a) ∨ k ≠ j ∧ l[k]? = some b
  := by
  rw [List.getElem?_set] at h
  split at h
  · rename_i hjk
    split at h
    · cases h
      exact .inl ⟨hjk.symm, rfl⟩
    · cases h
  · rename_i hjk
    exact .inr ⟨fun heq => hjk heq.symm, h⟩

theorem mem_set_of_mem (hj : l[j]? = some a) (b : α) {c : α} (hc : c ∈ l) :
  c = a ∨ c ∈ l.set j b
  := by
  obtain ⟨k, hk⟩ := List.mem_iff_getElem?.mp hc
  by_cases hkj : k = j
  · subst hkj
    rw [hj] at hk
    exact .inl (Option.some.inj hk).symm
  · right
    apply List.mem_of_getElem?
    rw [List.getElem?_set_ne (Ne.symm hkj), hk]

theorem mem_eraseIdx_of_mem (hj : l[j]? = some a) {c : α} (hc : c ∈ l) :
  c = a ∨ c ∈ l.eraseIdx j
  := by
  obtain ⟨k, hk⟩ := List.mem_iff_getElem?.mp hc
  by_cases hkj : k = j
  · subst hkj
    rw [hj] at hk
    exact .inl (Option.some.inj hk).symm
  · exact .inr (List.mem_eraseIdx_iff_getElem?.mpr ⟨k, hkj, hk⟩)

theorem exists_perm_forall₂ {β κ : Type} {f : α → κ} {g : β → κ} {r : α → β → Prop} {xs : List α}
    {ys : List β} (hkeys : (xs.map f).Perm (ys.map g)) (h : ∀ x ∈ xs, ∀ y ∈ ys, f x = g y → r x y) :
  ∃ zs, zs.Perm ys ∧ List.Forall₂ r xs zs
  := by
  induction xs generalizing ys with
  | nil =>
    have hnil : ys = [] := by simpa using hkeys
    exact ⟨[], by rw [hnil], .nil⟩
  | cons x xs ih =>
    have hx : f x ∈ ys.map g := hkeys.subset (List.mem_cons_self ..)
    obtain ⟨y, hy, hxy⟩ := List.mem_map.mp hx
    obtain ⟨before, after, rfl⟩ := List.append_of_mem hy
    have hrest : (xs.map f).Perm ((before ++ after).map g) := by
      have hmiddle : ((before ++ y :: after).map g).Perm (g y :: (before ++ after).map g) :=
        List.perm_middle.map g
      rw [List.map_cons, ← hxy] at hkeys
      exact (hkeys.trans hmiddle).cons_inv
    obtain ⟨zs, hzs, hall⟩ := ih hrest fun x' hx' y' hy' =>
      h x' (List.mem_cons_of_mem _ hx') y' (by simp_all; tauto)
    refine ⟨y :: zs, (hzs.cons y).trans List.perm_middle.symm, .cons ?_ hall⟩
    exact h x (List.mem_cons_self ..) y hy hxy.symm

end Places
