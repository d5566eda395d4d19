import Catio.Lib.Replace
import Mathlib.Data.List.Infix
import Mathlib.Data.List.Nodup
import Mathlib.Data.List.Perm.Basic

/-!
# Simultaneous substitution

Patterns of a list are replaced by their values, either one pattern after the other
(`replaceEach`) or all at once (`Substituted`).  If the patterns do not overlap, then the two agree
on all lists and for all orders of the patterns exactly if no value can be completed to the
pattern of another one, up to patterns that stand for themselves (`replaceEach_substituted_iff`).
-/

namespace Replace

variable {α : Type*} [BEq α] [LawfulBEq α]

/-- Replace all occurrences of a pattern, from left to right. -/
def replace (p value xs : List α) : List α :=
  replaceAll (fun rest => if p.isPrefixOf rest then p.length else 0) value xs

/-- Replace the patterns by their values, one after the other. -/
def replaceEach (fields : List (List α × List α)) (xs : List α) : List α :=
  fields.foldl (fun out f => replace f.1 f.2 out) xs

omit [LawfulBEq α] in
theorem replaceEach_append (fields more : List (List α × List α)) (xs : List α) :
  replaceEach (fields ++ more) xs = replaceEach more (replaceEach fields xs)
  := by
  apply List.foldl_append

/-! ### One pattern -/

section

omit [BEq α] [LawfulBEq α]

theorem replaceFrom_eq (len : List α → ℕ) (marker : List α) (k : ℕ) (xs : List α) :
  replaceFrom len marker k xs = replaceAll len marker (xs.drop k)
  := by
  induction k generalizing xs with
  | zero => rfl
  | succ k ih =>
    cases xs with
    | nil => rfl
    | cons x xs =>
      rw [List.drop_succ_cons, ← ih]
      rfl

theorem occurrences_induction {p : List α} (hp : p ≠ []) {motive : List α → Prop} (nil : motive [])
    (occurrence : ∀ xs, motive xs → motive (p ++ xs))
    (other : ∀ x xs, ¬ p <+: x :: xs → motive xs → motive (x :: xs)) (xs : List α) :
  motive xs
  := by
  induction hn : xs.length using Nat.strong_induction_on generalizing xs with
  | _ n ih =>
    subst hn
    cases xs with
    | nil => exact nil
    | cons x xs =>
      by_cases hbegins : p <+: x :: xs
      · obtain ⟨rest, hrest⟩ := hbegins
        rw [← hrest]
        apply occurrence
        apply ih rest.length _ rest rfl
        have hpos := List.length_pos_iff.mpr hp
        rw [← hrest, List.length_append]
        omega
      · exact other x xs hbegins (ih xs.length (by simp) xs rfl)

end

variable {p w : List α}

omit [LawfulBEq α] in
@[simp]
theorem replace_nil (p w : List α) :
  replace p w [] = []
  := rfl

theorem replace_append (hp : p ≠ []) (w xs : List α) :
  replace p w (p ++ xs) = w ++ replace p w xs
  := by
  obtain ⟨x, q, rfl⟩ := List.exists_cons_of_ne_nil hp
  have hbegins : (x :: q).isPrefixOf (x :: q ++ xs) = true :=
    List.isPrefixOf_iff_prefix.mpr (List.prefix_append (x :: q) xs)
  rw [replace, replaceAll, List.cons_append, replaceFrom]
  rw [List.cons_append] at hbegins
  rw [if_pos hbegins]
  dsimp only [List.length_cons]
  rw [replaceFrom_eq, List.drop_left]
  rfl

theorem replace_cons {x : α} {xs : List α} (h : ¬ p <+: x :: xs) (w : List α) :
  replace p w (x :: xs) = x :: replace p w xs
  := by
  rw [replace, replaceAll, replaceFrom, if_neg (by rwa [List.isPrefixOf_iff_prefix])]
  rfl

theorem replace_of_not_infix {xs : List α} (h : ¬ p <:+: xs) (w : List α) :
  replace p w xs = xs
  := by
  induction xs with
  | nil => rfl
  | cons x xs ih =>
    rw [replace_cons (fun hbegins => h hbegins.isInfix),
      ih (fun hinside => h (List.infix_cons hinside))]

theorem length_replace (hp : p ≠ []) (w xs : List α) :
  ∃ k, (replace p w xs).length + k * p.length = xs.length + k * w.length
  := by
  induction xs using occurrences_induction hp with
  | nil => exact ⟨0, by simp⟩
  | occurrence xs ih =>
    obtain ⟨k, hk⟩ := ih
    use k + 1
    rw [replace_append hp, List.length_append, List.length_append, Nat.succ_mul, Nat.succ_mul]
    omega
  | other x xs h ih =>
    obtain ⟨k, hk⟩ := ih
    use k
    rw [replace_cons h, List.length_cons, List.length_cons]
    omega

theorem eq_of_replace_eq (hp : p ≠ []) {xs : List α} (h : replace p w xs = xs) (hin : p <:+: xs) :
  w = p
  := by
  induction xs using occurrences_induction hp with
  | nil => exact absurd (List.infix_nil.mp hin) hp
  | occurrence xs =>
    rw [replace_append hp] at h
    obtain ⟨k, hk⟩ := length_replace hp w xs
    have hlength := congrArg List.length h
    rw [List.length_append, List.length_append] at hlength
    have hmul : (k + 1) * w.length = (k + 1) * p.length := by
      rw [Nat.succ_mul, Nat.succ_mul]
      omega
    exact (List.append_inj h (Nat.eq_of_mul_eq_mul_left (Nat.succ_pos k) hmul)).1
  | other x xs hnot ih =>
    rw [replace_cons hnot] at h
    apply ih (List.cons.inj h).2
    rcases List.infix_cons_iff.mp hin with hbegins | hinside
    · exact absurd hbegins hnot
    · exact hinside

/-! ### All patterns at once -/

section

omit [BEq α] [LawfulBEq α]

/-- Each occurrence of a pattern is replaced by its value, and everything else is kept. -/
inductive Substituted (fields : List (List α × List α)) : List α → List α → Prop where
  | nil : Substituted fields [] []
  | pattern {f : List α × List α} (hf : f ∈ fields) {xs out : List α}
      (h : Substituted fields xs out) : Substituted fields (f.1 ++ xs) (f.2 ++ out)
  | other {x : α} {xs out : List α} (hnone : ∀ f ∈ fields, ¬ f.1 <+: x :: xs)
      (h : Substituted fields xs out) : Substituted fields (x :: xs) (x :: out)

/-- No pattern is empty, and no two of them overlap: none begins with another one, and no end of
one begins like one. -/
structure OverlapFree (fields : List (List α × List α)) : Prop where
  nodup : (fields.map Prod.fst).Nodup
  nonempty : ∀ f ∈ fields, f.1 ≠ []
  code : ∀ f ∈ fields, ∀ g ∈ fields, f.1 <+: g.1 → f.1 = g.1
  overlap : ∀ f ∈ fields, ∀ g ∈ fields, ∀ x y, f.1 = x ++ y → x ≠ [] → y ≠ [] →
    ¬ y <+: g.1 ∧ ¬ g.1 <+: y

/-- Between a beginning and an end of a pattern, neither of which is all of it, a value makes up
an occurrence of the pattern. -/
def Completes (value p : List α) : Prop :=
  ∃ x z, x <+: p ∧ x ≠ p ∧ z <:+ p ∧ z ≠ p ∧ p <:+: x ++ value ++ z

theorem Completes.of_infix {value p : List α} (hp : p ≠ []) (h : p <:+: value) :
  Completes value p
  := by
  use [], [], List.nil_prefix, hp.symm, List.nil_suffix, hp.symm
  simpa using h

theorem OverlapFree.eq_of_prefix {fields : List (List α × List α)} (h : OverlapFree fields)
    {f g : List α × List α} (hf : f ∈ fields) (hg : g ∈ fields) {xs : List α} (hfx : f.1 <+: xs)
    (hgx : g.1 <+: xs) :
  f = g
  := by
  have hsame : f.1 = g.1 := by
    rcases List.prefix_or_prefix_of_prefix hfx hgx with hbegins | hbegins
    · exact h.code f hf g hg hbegins
    · exact (h.code g hg f hf hbegins).symm
  exact List.inj_on_of_nodup_map h.nodup hf hg hsame

theorem Substituted.unique {fields : List (List α × List α)} (hfree : OverlapFree fields)
    {xs out out' : List α} (h : Substituted fields xs out) (h' : Substituted fields xs out') :
  out = out'
  := by
  induction h generalizing out' with
  | nil =>
    generalize hxs : ([] : List α) = xs at h'
    cases h' with
    | nil => rfl
    | pattern hf =>
      exact absurd (List.append_eq_nil_iff.mp hxs.symm).1 (hfree.nonempty _ hf)
    | other => cases hxs
  | @pattern f hf ys out _ ih =>
    generalize hxs : f.1 ++ ys = xs at h'
    cases h' with
    | nil => exact absurd (List.append_eq_nil_iff.mp hxs).1 (hfree.nonempty f hf)
    | @pattern g hg zs out' h' =>
      have hbegins : f.1 <+: g.1 ++ zs := by
        rw [← hxs]
        apply List.prefix_append
      obtain rfl := hfree.eq_of_prefix hf hg hbegins (List.prefix_append g.1 zs)
      obtain rfl := List.append_cancel_left hxs
      rw [ih h']
    | other hnone =>
      apply absurd _ (hnone f hf)
      rw [← hxs]
      apply List.prefix_append
  | @other x ys out hnone _ ih =>
    generalize hxs : x :: ys = xs at h'
    cases h' with
    | nil => cases hxs
    | @pattern g hg zs =>
      apply absurd _ (hnone g hg)
      rw [hxs]
      apply List.prefix_append
    | @other x' zs out' hnone' h' =>
      cases hxs
      rw [ih h']

theorem Substituted.congr {fields fields' : List (List α × List α)}
    (hsame : ∀ f, f ∈ fields ↔ f ∈ fields') {xs out : List α} (h : Substituted fields xs out) :
  Substituted fields' xs out
  := by
  induction h with
  | nil => exact .nil
  | pattern hf _ ih => exact .pattern ((hsame _).mp hf) ih
  | other hnone _ ih => exact .other (fun f hf => hnone f ((hsame f).mpr hf)) ih

theorem Substituted.none (xs : List α) :
  Substituted [] xs xs
  := by
  induction xs with
  | nil => exact .nil
  | cons x xs ih => exact .other (fun f hf => by cases hf) ih

/-! ### One more pattern -/

variable {fields : List (List α × List α)} {b : List α × List α}

theorem OverlapFree.not_prefix (hfree : OverlapFree (b :: fields)) {a : List α × List α}
    (ha : a ∈ fields) {x y : List α} (hb : b.1 = x ++ y) (hy : y ≠ []) (xs : List α) :
  ¬ a.1 <+: y ++ xs
  := by
  intro hbegins
  have ha' := List.mem_cons_of_mem b ha
  have hb' : b ∈ b :: fields := List.mem_cons_self
  have hboth := List.prefix_or_prefix_of_prefix hbegins (List.prefix_append y xs)
  by_cases hx : x = []
  · rw [hx, List.nil_append] at hb
    rw [← hb] at hboth
    have hsame : a.1 = b.1 := by
      rcases hboth with h | h
      · exact hfree.code a ha' b hb' h
      · exact (hfree.code b hb' a ha' h).symm
    have hnodup := hfree.nodup
    rw [List.map_cons, List.nodup_cons] at hnodup
    apply hnodup.1
    rw [← hsame]
    exact List.mem_map_of_mem ha
  · obtain ⟨hy', ha''⟩ := hfree.overlap b hb' a ha' x y hb hx hy
    rcases hboth with h | h
    · exact ha'' h
    · exact hy' h

theorem Substituted.kept (hfree : OverlapFree (b :: fields)) {x y xs out : List α}
    (hb : b.1 = x ++ y) (h : Substituted fields (y ++ xs) out) :
  ∃ out', out = y ++ out' ∧ Substituted fields xs out'
  := by
  induction y generalizing x out with
  | nil => exact ⟨out, rfl, h⟩
  | cons c y ih =>
    generalize hys : c :: y ++ xs = ys at h
    cases h with
    | nil => cases hys
    | @pattern a ha zs =>
      apply absurd _ (hfree.not_prefix ha hb (by simp) xs)
      rw [hys]
      apply List.prefix_append
    | other _ h =>
      cases hys
      obtain ⟨out', rfl, hrest⟩ := ih (x := x ++ [c]) (by rw [hb]; simp) h
      exact ⟨out', rfl, hrest⟩

/-- An end of a pattern that is there after the substitution was there before, unless a value
completes the pattern. -/
theorem Substituted.kept_of_prefix (hclear : ∀ a ∈ fields, ¬ Completes a.2 b.1)
    {x y xs out : List α} (hb : b.1 = x ++ y) (hx : x ≠ []) (h : Substituted fields xs out)
    (hbegins : y <+: out) :
  ∃ xs' out', xs = y ++ xs' ∧ out = y ++ out' ∧ Substituted fields xs' out'
  := by
  induction y generalizing x xs out with
  | nil => exact ⟨xs, out, rfl, rfl, h⟩
  | cons c y ih =>
    cases h with
    | nil => cases List.prefix_nil.mp hbegins
    | @pattern a ha zs out' =>
      apply absurd _ (hclear a ha)
      have hne : x ≠ b.1 := by
        rw [hb]
        simp
      rcases List.prefix_or_prefix_of_prefix hbegins (List.prefix_append a.2 out') with h | h
      · use x, [], by rw [hb]; apply List.prefix_append, hne, List.nil_suffix, by rw [hb]; simp
        rw [hb, List.append_nil]
        exact ((List.prefix_append_right_inj x).mpr h).isInfix
      · obtain ⟨z, hz⟩ := h
        use x, z, by rw [hb]; apply List.prefix_append, hne
        refine ⟨⟨x ++ a.2, by rw [hb, ← hz, List.append_assoc]⟩, ?_, ?_⟩
        · intro heq
          have hlength := congrArg List.length (heq.trans hb)
          rw [← hz, List.length_append, List.length_append] at hlength
          exact hx (List.length_eq_zero_iff.mp (by omega))
        · rw [hb, ← hz, List.append_assoc]
    | @other c' zs out' _ h =>
      obtain ⟨rfl, hmore⟩ := List.cons_prefix_cons.mp hbegins
      obtain ⟨xs', out'', rfl, rfl, hrest⟩ :=
        ih (x := x ++ [c]) (by rw [hb]; simp) (by simp) h hmore
      exact ⟨xs', out'', rfl, rfl, hrest⟩

theorem Substituted.cons_self (hfree : OverlapFree (b :: fields)) (hself : b.2 = b.1)
    {xs out : List α} (h : Substituted fields xs out) :
  Substituted (b :: fields) xs out
  := by
  induction hn : xs.length using Nat.strong_induction_on generalizing xs out with
  | _ n ih =>
    subst hn
    cases h with
    | nil => exact .nil
    | @pattern a ha ys out' h =>
      apply Substituted.pattern (List.mem_cons_of_mem b ha)
      apply ih ys.length _ h rfl
      have hpos := List.length_pos_iff.mpr (hfree.nonempty a (List.mem_cons_of_mem b ha))
      rw [List.length_append]
      omega
    | @other x ys out' hnone h =>
      by_cases hbegins : b.1 <+: x :: ys
      · obtain ⟨zs, hzs⟩ := hbegins
        have hwhole := Substituted.other hnone h
        rw [← hzs] at hwhole
        obtain ⟨out'', hout, hrest⟩ := Substituted.kept hfree (x := []) rfl hwhole
        rw [← hzs, hout]
        have hpos := List.length_pos_iff.mpr (hfree.nonempty b List.mem_cons_self)
        have hlength : zs.length < (x :: ys).length := by
          rw [← hzs, List.length_append]
          omega
        have hb := Substituted.pattern (List.mem_cons_self (l := fields))
          (ih zs.length hlength hrest rfl)
        rwa [hself] at hb
      · apply Substituted.other
        · intro f hf
          rcases List.mem_cons.mp hf with rfl | hf
          · exact hbegins
          · exact hnone f hf
        · exact ih ys.length (by simp) h rfl

end

theorem replace_append_of_not_completes (hp : p ≠ []) {v : List α} (h : ¬ Completes v p)
    (w xs : List α) :
  replace p w (v ++ xs) = v ++ replace p w xs
  := by
  suffices hall : ∀ u v', v = u ++ v' → replace p w (v' ++ xs) = v' ++ replace p w xs from
    hall [] v rfl
  intro u v' hv
  induction v' generalizing u with
  | nil => rfl
  | cons c v' ih =>
    rw [List.cons_append, replace_cons, ih (u ++ [c]) (by rw [hv]; simp), List.cons_append]
    intro hbegins
    apply h
    rcases List.prefix_or_prefix_of_prefix hbegins (List.prefix_append (c :: v') xs) with h | h
    · apply Completes.of_infix hp
      rw [hv]
      exact h.isInfix.trans (List.suffix_append u (c :: v')).isInfix
    · obtain ⟨z, hz⟩ := h
      refine ⟨[], z, List.nil_prefix, hp.symm, ⟨c :: v', hz⟩, ?_, ?_⟩
      · intro heq
        have hlength := congrArg List.length (heq.trans hz.symm)
        rw [List.length_append, List.length_cons] at hlength
        omega
      · rw [List.nil_append, hv, List.append_assoc, hz]
        exact (List.suffix_append u p).isInfix

theorem replace_self (hp : p ≠ []) (xs : List α) :
  replace p p xs = xs
  := by
  induction xs using occurrences_induction hp with
  | nil => rfl
  | occurrence xs ih => rw [replace_append hp, ih]
  | other x xs h ih => rw [replace_cons h, ih]

section

variable {fields : List (List α × List α)} {b : List α × List α}

/-- One more pattern is replaced after the others as if it were with them, if no value completes
it. -/
theorem Substituted.replace_clear (hfree : OverlapFree (b :: fields))
    (hclear : ∀ a ∈ fields, ¬ Completes a.2 b.1) {xs out : List α} (h : Substituted fields xs out) :
  Substituted (b :: fields) xs (replace b.1 b.2 out)
  := by
  have hb : b.1 ≠ [] := hfree.nonempty b List.mem_cons_self
  have hpos := List.length_pos_iff.mpr hb
  induction hn : xs.length using Nat.strong_induction_on generalizing xs out with
  | _ n ih =>
    subst hn
    cases h with
    | nil => exact .nil
    | @pattern a ha ys out' h =>
      rw [replace_append_of_not_completes hb (hclear a ha)]
      apply Substituted.pattern (List.mem_cons_of_mem b ha)
      apply ih ys.length _ h rfl
      have hposa := List.length_pos_iff.mpr (hfree.nonempty a (List.mem_cons_of_mem b ha))
      rw [List.length_append]
      omega
    | @other x ys out' hnone h =>
      by_cases hbegins : b.1 <+: x :: out'
      · obtain ⟨y, hy⟩ : ∃ y, b.1 = [x] ++ y := by
          obtain ⟨c, y, hcy⟩ := List.exists_cons_of_ne_nil hb
          rw [hcy] at hbegins
          obtain ⟨rfl, -⟩ := List.cons_prefix_cons.mp hbegins
          exact ⟨y, hcy⟩
        rw [hy] at hbegins
        obtain ⟨ys', out'', rfl, rfl, hrest⟩ :=
          h.kept_of_prefix hclear hy (by simp) (List.cons_prefix_cons.mp hbegins).2
        change Substituted (b :: fields) ([x] ++ y ++ ys') (replace b.1 b.2 ([x] ++ y ++ out''))
        rw [← hy, replace_append hb]
        apply Substituted.pattern List.mem_cons_self
        apply ih ys'.length _ hrest rfl
        rw [List.length_cons, List.length_append]
        omega
      · rw [replace_cons hbegins]
        apply Substituted.other
        · intro f hf
          rcases List.mem_cons.mp hf with rfl | hf
          · rintro ⟨zs, hzs⟩
            have hwhole := Substituted.other hnone h
            rw [← hzs] at hwhole
            obtain ⟨out'', hout, -⟩ := Substituted.kept hfree (x := []) rfl hwhole
            apply hbegins
            rw [hout]
            apply List.prefix_append
          · exact hnone f hf
        · exact ih ys.length (by simp) h rfl

theorem Substituted.replace (hfree : OverlapFree (b :: fields))
    (h : b.2 = b.1 ∨ ∀ a ∈ fields, ¬ Completes a.2 b.1) {xs out : List α}
    (hsubst : Substituted fields xs out) :
  Substituted (b :: fields) xs (Replace.replace b.1 b.2 out)
  := by
  rcases h with hself | hclear
  · rw [hself, replace_self (hfree.nonempty b List.mem_cons_self)]
    exact hsubst.cons_self hfree hself
  · exact hsubst.replace_clear hfree hclear

/-! ### One pattern after the other -/

omit [BEq α] [LawfulBEq α] in
theorem OverlapFree.perm {fields' : List (List α × List α)} (hperm : fields.Perm fields')
    (h : OverlapFree fields) :
  OverlapFree fields'
  := by
  have hmem {f : List α × List α} (hf : f ∈ fields') : f ∈ fields := hperm.mem_iff.mpr hf
  constructor
  · exact (hperm.map Prod.fst).nodup_iff.mp h.nodup
  · intro f hf
    exact h.nonempty f (hmem hf)
  · intro f hf g hg
    exact h.code f (hmem hf) g (hmem hg)
  · intro f hf g hg
    exact h.overlap f (hmem hf) g (hmem hg)

omit [BEq α] [LawfulBEq α] in
theorem OverlapFree.of_append {more : List (List α × List α)} (h : OverlapFree (more ++ fields)) :
  OverlapFree fields
  := by
  have hmem {f : List α × List α} (hf : f ∈ fields) : f ∈ more ++ fields :=
    List.mem_append_right more hf
  constructor
  · have hnodup := h.nodup
    rw [List.map_append] at hnodup
    exact hnodup.of_append_right
  · intro f hf
    exact h.nonempty f (hmem hf)
  · intro f hf g hg
    exact h.code f (hmem hf) g (hmem hg)
  · intro f hf g hg
    exact h.overlap f (hmem hf) g (hmem hg)

/-- No value can be completed to the pattern of another one, up to patterns that stand for
themselves. -/
def NoContact (fields : List (List α × List α)) : Prop :=
  ∀ a ∈ fields, ∀ b ∈ fields, a ≠ b → b.2 = b.1 ∨ ¬ Completes a.2 b.1

theorem Substituted.replaceEach {rest : List (List α × List α)}
    (hfree : OverlapFree (rest ++ fields)) (hclear : NoContact (rest ++ fields)) {xs out : List α}
    (h : Substituted fields xs out) :
  Substituted (rest ++ fields) xs (Replace.replaceEach rest out)
  := by
  induction rest generalizing fields out with
  | nil => exact h
  | cons b rest ih =>
    have hperm : (b :: rest ++ fields).Perm (rest ++ b :: fields) := List.perm_middle.symm
    have hmem {f : List α × List α} : f ∈ b :: rest ++ fields ↔ f ∈ rest ++ b :: fields :=
      hperm.mem_iff
    have hfree' := hfree.perm hperm
    have hb : OverlapFree (b :: fields) := hfree'.of_append
    have hcontact : b.2 = b.1 ∨ ∀ a ∈ fields, ¬ Completes a.2 b.1 := by
      by_cases hself : b.2 = b.1
      · exact .inl hself
      · right
        intro a ha
        have hne : a ≠ b := by
          rintro rfl
          have hnodup := hb.nodup
          rw [List.map_cons, List.nodup_cons] at hnodup
          exact hnodup.1 (List.mem_map_of_mem ha)
        have hboth := hclear a (List.mem_append_right _ ha) b (by simp) hne
        exact hboth.resolve_left hself
    apply Substituted.congr (fun f => hmem.symm)
    apply ih hfree'
    · intro f hf g hg
      exact hclear f (hmem.mpr hf) g (hmem.mpr hg)
    · exact h.replace hb hcontact

theorem NoContact.substituted (hfree : OverlapFree fields) (hclear : NoContact fields)
    {order : List (List α × List α)} (hperm : order.Perm fields) (xs : List α) :
  Substituted fields xs (Replace.replaceEach order xs)
  := by
  have hmem {f : List α × List α} : f ∈ order ↔ f ∈ fields := hperm.mem_iff
  have hnil : order ++ [] = order := List.append_nil order
  apply @Substituted.congr _ (order ++ [])
  · intro f
    rw [hnil, hmem]
  · apply Substituted.replaceEach
    · rw [hnil]
      exact hfree.perm hperm.symm
    · rw [hnil]
      intro a ha b hb
      exact hclear a (hmem.mp ha) b (hmem.mp hb)
    · apply Substituted.none

/-! ### Contact -/

section

omit [BEq α] [LawfulBEq α]

variable {a f : List α × List α}

theorem OverlapFree.not_infix_beginning (hfree : OverlapFree fields) (hf : f ∈ fields)
    (hb : b ∈ fields) {x : List α} (hx : x <+: b.1) (hne : x ≠ b.1) :
  ¬ f.1 <:+: x
  := by
  rintro ⟨l, r, rfl⟩
  obtain ⟨z, hz⟩ := hx
  rw [List.append_assoc, List.append_assoc] at hz
  by_cases hl : l = []
  · subst hl
    have hsame := hfree.code f hf b hb ⟨r ++ z, by simpa using hz⟩
    have hlength := congrArg List.length hz
    rw [← hsame] at hlength hne
    simp only [List.nil_append, List.length_append] at hlength
    obtain rfl : r = [] := List.length_eq_zero_iff.mp (by omega)
    simp at hne
  · have hmore : f.1 ++ (r ++ z) ≠ [] := by simp [hfree.nonempty f hf]
    exact (hfree.overlap b hb f hf l _ hz.symm hl hmore).2 (List.prefix_append _ _)

theorem OverlapFree.not_infix_end (hfree : OverlapFree fields) (hf : f ∈ fields) (hb : b ∈ fields)
    {z : List α} (hz : z <:+ b.1) (hne : z ≠ b.1) :
  ¬ f.1 <:+: z
  := by
  rintro ⟨l, r, rfl⟩
  obtain ⟨x, hx⟩ := hz
  have hne' : x ++ l ≠ [] := by
    rintro h
    rw [(List.append_eq_nil_iff.mp h).1] at hx
    exact hne hx
  have hsplit : b.1 = (x ++ l) ++ (f.1 ++ r) := by
    rw [← hx]
    simp
  exact (hfree.overlap b hb f hf _ _ hsplit hne' (by simp [hfree.nonempty f hf])).2
    (List.prefix_append _ _)

theorem OverlapFree.prefix_of_prefix (hfree : OverlapFree fields) (hf : f ∈ fields)
    (ha : a ∈ fields) {x u : List α} (hx : x ≠ []) (h : f.1 <+: x ++ (a.1 ++ u)) :
  f.1 <+: x
  := by
  rcases List.prefix_or_prefix_of_prefix h (List.prefix_append x (a.1 ++ u)) with hbegins | hmore
  · exact hbegins
  · obtain ⟨y, hy⟩ := hmore
    by_cases hnil : y = []
    · rw [← hy, hnil, List.append_nil]
    · rw [← hy, List.prefix_append_right_inj] at h
      obtain ⟨hya, hay⟩ := hfree.overlap f hf a ha x y hy.symm hx hnil
      rcases List.prefix_or_prefix_of_prefix h (List.prefix_append a.1 u) with hbegins | hbegins
      · exact absurd hbegins hya
      · exact absurd hbegins hay

theorem OverlapFree.eq_of_infix (hfree : OverlapFree fields) (hf : f ∈ fields) (ha : a ∈ fields)
    {x z : List α} (hx : ¬ f.1 <:+: x) (hz : ¬ f.1 <:+: z) (h : f.1 <:+: x ++ (a.1 ++ z)) :
  f = a
  := by
  induction x with
  | nil =>
    have hsame (hbegins : f.1 <+: a.1 ∨ a.1 <+: f.1) : f = a := by
      rcases hbegins with hbegins | hbegins
      · exact hfree.eq_of_prefix hf ha hbegins List.prefix_rfl
      · exact hfree.eq_of_prefix hf ha List.prefix_rfl hbegins
    rw [List.nil_append] at h
    rcases List.infix_append_iff.mp h with ⟨l, r, hl⟩ | hinside | ⟨y, y', hy, hsuffix, hy'⟩
    · rw [List.append_assoc] at hl
      by_cases hnil : l = []
      · rw [hnil, List.nil_append] at hl
        exact hsame (.inl ⟨r, hl⟩)
      · have hmore : f.1 ++ r ≠ [] := by simp [hfree.nonempty f hf]
        exact absurd (List.prefix_append _ _)
          (hfree.overlap a ha f hf l _ hl.symm hnil hmore).2
    · exact absurd hinside hz
    · obtain ⟨l, hl⟩ := hsuffix
      by_cases hnil : y = []
      · rw [hnil, List.nil_append] at hy
        rw [← hy] at hy'
        exact absurd hy'.isInfix hz
      · have hbegins : y <+: f.1 := ⟨y', hy.symm⟩
        by_cases hnil' : l = []
        · rw [hnil', List.nil_append] at hl
          rw [hl] at hbegins
          exact hsame (.inr hbegins)
        · exact absurd hbegins (hfree.overlap a ha f hf l y hl.symm hnil' hnil).1
  | cons c x ih =>
    rcases List.infix_cons_iff.mp h with hbegins | hinside
    · exact absurd (hfree.prefix_of_prefix hf ha (by simp) hbegins).isInfix hx
    · apply ih _ hinside
      intro hinside
      exact hx (List.infix_cons hinside)

theorem Substituted.refl {xs : List α} (h : ∀ f ∈ fields, ¬ f.1 <:+: xs) :
  Substituted fields xs xs
  := by
  induction xs with
  | nil => exact .nil
  | cons x xs ih =>
    apply Substituted.other
    · intro f hf hbegins
      exact h f hf hbegins.isInfix
    · apply ih
      intro f hf hinside
      exact h f hf (List.infix_cons hinside)

theorem OverlapFree.substituted (hfree : OverlapFree fields) (ha : a ∈ fields) {x z : List α}
    (hx : ∀ f ∈ fields, ¬ f.1 <:+: x) (hz : ∀ f ∈ fields, ¬ f.1 <:+: z) :
  Substituted fields (x ++ (a.1 ++ z)) (x ++ (a.2 ++ z))
  := by
  induction x with
  | nil => exact .pattern ha (.refl hz)
  | cons c x ih =>
    apply Substituted.other
    · intro f hf hbegins
      exact hx f hf (hfree.prefix_of_prefix hf ha (by simp) hbegins).isInfix
    · apply ih
      intro f hf hinside
      exact hx f hf (List.infix_cons hinside)

end

theorem replaceEach_of_not_infix {xs : List α} (h : ∀ f ∈ fields, ¬ f.1 <:+: xs) :
  Replace.replaceEach fields xs = xs
  := by
  induction fields with
  | nil => rfl
  | cons f fields ih =>
    rw [Replace.replaceEach, List.foldl_cons, replace_of_not_infix (h f List.mem_cons_self)]
    apply ih
    intro g hg
    exact h g (List.mem_cons_of_mem f hg)

theorem exists_perm_concat {β : Type*} {xs : List β} {a b : β} (ha : a ∈ xs) (hb : b ∈ xs)
    (hne : a ≠ b) :
  ∃ rest, (rest ++ [a, b]).Perm xs
  := by
  obtain ⟨l, r, rfl⟩ := List.append_of_mem ha
  have hb' : b ∈ l ++ r := by
    rcases List.mem_append.mp hb with h | h
    · exact List.mem_append_left r h
    · rcases List.mem_cons.mp h with rfl | h
      · exact absurd rfl hne
      · exact List.mem_append_right l h
  obtain ⟨l', r', hlr⟩ := List.append_of_mem hb'
  use l' ++ r'
  have hmiddle : (l ++ a :: r).Perm (a :: b :: (l' ++ r')) := by
    apply List.perm_middle.trans
    rw [hlr]
    exact (List.perm_middle).cons a
  exact List.perm_append_comm.trans hmiddle.symm

/-- Patterns that are replaced one after the other as if it were at once, on all lists, have no
contact. -/
theorem noContact_of_substituted (hfree : OverlapFree fields)
    (h : ∀ xs, ∃ out, Substituted fields xs out
      ∧ ∀ order, order.Perm fields → Replace.replaceEach order xs = out) :
  NoContact fields
  := by
  intro a ha b hb hne
  by_contra hnot
  obtain ⟨hself, hcompletes⟩ := not_or.mp hnot
  obtain ⟨x, z, hx, hxne, hz, hzne, hinside⟩ := not_not.mp hcompletes
  have hfront : ∀ f ∈ fields, ¬ f.1 <:+: x := fun f hf =>
    hfree.not_infix_beginning hf hb hx hxne
  have hback : ∀ f ∈ fields, ¬ f.1 <:+: z := fun f hf => hfree.not_infix_end hf hb hz hzne
  obtain ⟨rest, hperm⟩ := exists_perm_concat ha hb hne
  obtain ⟨out, hsubst, horder⟩ := h (x ++ (a.1 ++ z))
  have hout := hsubst.unique hfree (hfree.substituted ha hfront hback)
  have hfree' := hfree.perm hperm.symm
  have hmem {f : List α × List α} (hf : f ∈ rest ++ [a, b]) : f ∈ fields := hperm.mem_iff.mp hf
  -- Replacing the other patterns first changes nothing, and then `a` uncovers `b`.
  have hrest : Replace.replaceEach rest (x ++ (a.1 ++ z)) = x ++ (a.1 ++ z) := by
    apply replaceEach_of_not_infix
    intro f hf hin
    have hf' := hmem (List.mem_append_left _ hf)
    obtain rfl := hfree.eq_of_infix hf' ha (hfront f hf') (hback f hf') hin
    have hnodup := hfree'.nodup
    rw [List.map_append] at hnodup
    exact List.disjoint_of_nodup_append hnodup (List.mem_map_of_mem hf) (by simp)
  have hone : OverlapFree [a] := by
    have hsplit : [a, b].Perm ([b] ++ [a]) := List.Perm.swap b a []
    exact (hfree'.of_append.perm hsplit).of_append
  have ha' : replace a.1 a.2 (x ++ (a.1 ++ z)) = x ++ (a.2 ++ z) := by
    have hsub := (Substituted.none (x ++ (a.1 ++ z))).replace hone (.inr fun f hf => by cases hf)
    apply hsub.unique hone
    apply hone.substituted List.mem_cons_self
    · intro f hf
      rw [List.mem_singleton.mp hf]
      exact hfront a ha
    · intro f hf
      rw [List.mem_singleton.mp hf]
      exact hback a ha
  have hlast := horder _ hperm
  rw [replaceEach_append, hrest] at hlast
  change replace b.1 b.2 (replace a.1 a.2 (x ++ (a.1 ++ z))) = out at hlast
  rw [ha', hout] at hlast
  rw [List.append_assoc] at hinside
  exact hself (eq_of_replace_eq (hfree.nonempty b hb) hlast hinside)

theorem replaceEach_substituted_iff (hfree : OverlapFree fields) :
  (∀ xs, ∃ out, Substituted fields xs out
      ∧ ∀ order, order.Perm fields → Replace.replaceEach order xs = out)
    ↔ NoContact fields
  := by
  constructor
  · apply noContact_of_substituted hfree
  · intro hclear xs
    have hsubst := hclear.substituted hfree (List.Perm.refl fields) xs
    use Replace.replaceEach fields xs, hsubst
    intro order hperm
    exact (hclear.substituted hfree hperm xs).unique hfree hsubst

end

end Replace
