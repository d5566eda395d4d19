import Catio.Db.MongoShell
import Catio.Lib.Json.Grammar

/-!
# Brackets and commas

Both the scan for the closing parenthesis and the splitting at commas pass over a JSON text as a
whole, whatever brackets, commas and quotes are in it (`walk_renders`): what closes a bracket or is
a comma outside of a string stands inside of the brackets of the text.
-/

namespace Db.MongoShell

open Scan Text Json

/-- No string, and some open brackets. -/
def Mode.at (depth : ℕ) : Mode :=
  ⟨depth, none, false⟩

/-- The states over a text in which closing brackets and commas are inside of more than `base`
brackets, or in strings. -/
inductive Walk (base : ℕ) : Mode → Text → Mode → Prop where
  | nil (m : Mode) : Walk base m [] m
  | cons {m m' : Mode} {c : Char} {t : Text}
      (inside : m.quote = none → isClosing c ∨ c = ',' → base < m.depth)
      (rest : Walk base (m.step c) t m') : Walk base m (c :: t) m'

theorem Walk.trans {base : ℕ} {m m' m'' : Mode} {s t : Text} (first : Walk base m s m')
    (last : Walk base m' t m'') :
  Walk base m (s ++ t) m''
  := by
  induction first with
  | nil => exact last
  | cons inside _ ih => exact .cons inside (ih last)

/-! ### Texts without brackets -/

/-- Neither a quote nor a bracket nor a comma. -/
def isNeutral (c : Char) : Bool :=
  !isQuote c && !isOpening c && !isClosing c && c ≠ ','

variable {base depth : ℕ} {t : Text}

theorem walk_neutral (h : t.all isNeutral) :
  Walk base (.at depth) t (.at depth)
  := by
  induction t with
  | nil => apply Walk.nil
  | cons c t ih =>
    rw [List.all_cons, Bool.and_eq_true] at h
    obtain ⟨hc, hmore⟩ := h
    simp only [isNeutral, Bool.and_eq_true, Bool.not_eq_true', decide_eq_true_eq] at hc
    obtain ⟨⟨⟨hquote, hopening⟩, hclosing⟩, hcomma⟩ := hc
    apply Walk.cons
    · rintro - (hc | hc)
      · rw [hclosing] at hc
        cases hc
      · exact absurd hc hcomma
    · have hstep : (Mode.at depth).step c = .at depth := by
        simp [Mode.step, Mode.at, hquote, hopening, hclosing]
      rw [hstep]
      exact ih hmore

theorem walk_blank (h : Blank t) :
  Walk base (.at depth) t (.at depth)
  := by
  apply walk_neutral
  rw [List.all_eq_true]
  intro c hc
  have hspace := h c hc
  simp only [isSpace, Bool.or_eq_true, beq_iff_eq] at hspace
  rcases hspace with ((rfl | rfl) | rfl) | rfl
  all_goals rfl

theorem Walk.padded {a t b : Text} (ha : Blank a) (h : Walk base (.at depth) t (.at depth))
    (hb : Blank b) :
  Walk base (.at depth) (a ++ t ++ b) (.at depth)
  := ((walk_blank ha).trans h).trans (walk_blank hb)

theorem walk_number {e : Char} (letter : e = 'e' ∨ e = 'E') (plus : Bool) (n : Number) :
  Walk base (.at depth) (n.textWith e plus) (.at depth)
  := by
  have hneutral : numeral.all isNeutral := by decide
  rw [List.all_eq_true] at hneutral
  apply walk_neutral
  rw [List.all_eq_true]
  exact fun c hc => hneutral c (textWith_subset letter plus n hc)

/-! ### Strings -/

theorem walk_units {b : Text} (h : Units ['"'] b) :
  Walk base ⟨depth, some '"', false⟩ b ⟨depth, some '"', false⟩
  := by
  induction h with
  | nil => apply Walk.nil
  | @plain c t other escape _ ih =>
    have hquote : c ≠ '"' := by simpa using other
    apply Walk.cons
    · rintro ⟨⟩
    · simpa [Mode.step, hquote, escape] using ih
  | @pair c t _ ih =>
    apply Walk.cons
    · rintro ⟨⟩
    · apply Walk.cons
      · rintro ⟨⟩
      · simpa [Mode.step] using ih

theorem walk_exact {s t t' : Text} (h : Exact s t t') :
  Walk base (.at depth) t (.at depth)
  := by
  obtain ⟨-, b, hbody, rfl⟩ := h
  apply Walk.cons
  · rintro - hquote
    exact absurd hquote (by decide)
  · apply (walk_units hbody.units).trans
    apply Walk.cons
    · rintro ⟨⟩
    · apply Walk.nil

/-! ### Values -/

/-- Where a part of a value may stand: the items and fields are inside of the brackets. -/
def Inside (base depth : ℕ) : Part → Prop
  | .value _ => base ≤ depth
  | _ => base < depth

theorem Walk.bracket {l r : Char} (hl : isOpening l ∧ isQuote l = false)
    (hr : isClosing r ∧ isQuote r = false ∧ isOpening r = false) (hbase : base ≤ depth)
    (h : Walk base (.at (depth + 1)) t (.at (depth + 1))) :
  Walk base (.at depth) (l :: t ++ [r]) (.at depth)
  := by
  have hclosing : isClosing l = false ∧ l ≠ ',' := by
    have hopening := hl.1
    simp only [isOpening, Bool.or_eq_true, decide_eq_true_eq] at hopening
    rcases hopening with (rfl | rfl) | rfl
    all_goals decide
  apply Walk.cons
  · rintro - (hc | hc)
    · rw [hclosing.1] at hc
      cases hc
    · exact absurd hc hclosing.2
  · have hstep : (Mode.at depth).step l = .at (depth + 1) := by
      simp [Mode.step, Mode.at, hl.1, hl.2]
    rw [hstep]
    apply h.trans
    apply Walk.cons
    · rintro - -
      exact Nat.lt_succ_of_le hbase
    · have hback : (Mode.at (depth + 1)).step r = .at depth := by
        simp [Mode.step, Mode.at, hr.1, hr.2.1, hr.2.2]
      rw [hback]
      apply Walk.nil

theorem walk_comma (h : base < depth) {m : Mode} (rest : Walk base (.at depth) t m) :
  Walk base (.at depth) (',' :: t) m
  := .cons (fun _ _ => h) rest

theorem walk_colon {m : Mode} (rest : Walk base (.at depth) t m) :
  Walk base (.at depth) (':' :: t) m
  := (walk_neutral (t := [':']) (by decide)).trans rest

theorem walk_renders {part : Part} {t t' : Text} (h : Renders Exact Exact part t t')
    (hinside : Inside base depth part) :
  Walk base (.at depth) t (.at depth)
  := by
  induction h generalizing depth with
  | null => exact walk_neutral (by decide)
  | true => exact walk_neutral (by decide)
  | false => exact walk_neutral (by decide)
  | number proper letter => exact walk_number letter _ _
  | string h => exact walk_exact h
  | array _ ih =>
    exact (ih (Nat.lt_succ_of_le hinside)).bracket (by decide) (by decide) hinside
  | object _ ih =>
    exact (ih (Nat.lt_succ_of_le hinside)).bracket (by decide) (by decide) hinside
  | noItems blank => exact walk_blank blank
  | lastItem ha _ hb ih => exact (ih (Nat.le_of_lt hinside)).padded ha hb
  | moreItems ha _ hb _ ih ihmore =>
    have hitem := (ih (Nat.le_of_lt hinside)).padded ha hb
    exact hitem.trans (walk_comma hinside (ihmore hinside))
  | noFields blank => exact walk_blank blank
  | lastField ha hkey hb hc _ hd ih =>
    have hvalue := (ih (Nat.le_of_lt hinside)).padded hc hd
    exact ((walk_exact hkey).padded ha hb).trans (walk_colon hvalue)
  | moreFields ha hkey hb hc _ hd _ ih ihmore =>
    have hvalue := (ih (Nat.le_of_lt hinside)).padded hc hd
    have hfield := ((walk_exact hkey).padded ha hb).trans (walk_colon hvalue)
    exact hfield.trans (walk_comma hinside (ihmore hinside))

/-! ### Scanning -/

theorem Walk.reads_extract {m m' : Mode} (h : Walk 1 m t m') (rest : Text) :
  Reads extractTurn m (t ++ rest) rest m' t
  := by
  induction h with
  | nil => apply Reads.refl
  | @cons m m' c t inside _ ih =>
    have hturn : extractTurn m c (t ++ rest) = .next (m.step c) [c] 0 := by
      rw [extractTurn, if_neg]
      rintro ⟨hquote, hclosing, hdepth⟩
      exact absurd (inside hquote (.inl hclosing)) (Nat.not_lt.mpr hdepth)
    exact (Reads.single hturn).trans ih

theorem Walk.reads_split {m m' : Mode} (h : Walk 0 m t m') (part rest : Text) :
  Reads splitTurn (m, part) (t ++ rest) rest (m', part ++ t) []
  := by
  induction h generalizing part with
  | nil =>
    rw [List.append_nil]
    apply Reads.refl
  | @cons m m' c t inside _ ih =>
    have hturn : splitTurn (m, part) c (t ++ rest) = .next (m.step c, part ++ [c]) [] 0 := by
      rw [splitTurn, if_neg]
      rintro ⟨hquote, hcomma, hdepth⟩
      exact absurd (inside hquote (.inr hcomma)) (by rw [hdepth]; exact Nat.not_lt_zero 0)
    have hall := (Reads.single hturn).trans (ih (part ++ [c]))
    rwa [List.append_assoc] at hall

theorem extractBalanced_eq {t : Text} (rest : Text)
    (h : Reads extractTurn (.at 1) (t ++ ')' :: rest) (')' :: rest) (.at 1) t) :
  extractBalanced ('(' :: (t ++ ')' :: rest)) = .ok (t, rest)
  := by
  have hstart : trimStart ('(' :: (t ++ ')' :: rest)) = '(' :: (t ++ ')' :: rest) := rfl
  have hstop : extractTurn (.at 1) ')' rest = .stop (.ok rest) := rfl
  have hloop := h.loop_eq fun _ => Except.error "unclosed `(`"
  rw [loop_stop hstop, List.append_nil] at hloop
  have hat : (⟨1, none, false⟩ : Mode) = .at 1 := rfl
  rw [extractBalanced, hstart]
  change Except.map _ _ = _
  rw [hat, hloop]
  rfl

/-! ### Arguments -/

theorem reads_arguments {texts : List Text} (h : ∀ t ∈ texts, Walk 1 (.at 1) t (.at 1))
    (rest : Text) :
  Reads extractTurn (.at 1) (join [','] texts ++ rest) rest (.at 1) (join [','] texts)
  := by
  induction texts with
  | nil => apply Reads.refl
  | cons t texts ih =>
    have hfirst := h t List.mem_cons_self
    have hmore := ih fun s hs => h s (List.mem_cons_of_mem t hs)
    match texts with
    | [] =>
      have hone : join [','] [t] = t := by simp [join]
      rw [hone]
      exact hfirst.reads_extract rest
    | s :: texts =>
      have htwo : join [','] (t :: s :: texts) = t ++ ',' :: join [','] (s :: texts) := by
        simp [join]
      have hcomma : extractTurn (.at 1) ',' (join [','] (s :: texts) ++ rest)
          = .next (.at 1) [','] 0 := rfl
      have hall := (hfirst.reads_extract _).trans ((Reads.single hcomma).trans hmore)
      rw [htwo, List.append_assoc]
      exact hall

theorem loop_arguments (t : Text) (texts : List Text)
    (h : ∀ s ∈ t :: texts, Walk 0 (.at 0) s (.at 0)) :
  (loop splitTurn Prod.snd 0 (.at 0, []) (join [','] (t :: texts))).1
      ++ [(loop splitTurn Prod.snd 0 (.at 0, []) (join [','] (t :: texts))).2]
    = t :: texts
  := by
  induction texts generalizing t with
  | nil =>
    have hone : join [','] [t] = t := by simp [join]
    have hreads := (h t List.mem_cons_self).reads_split [] []
    rw [List.append_nil] at hreads
    rw [hone, hreads.loop_done]
    rfl
  | cons s texts ih =>
    have htwo : join [','] (t :: s :: texts) = t ++ ',' :: join [','] (s :: texts) := by
      simp [join]
    have hcomma : splitTurn (.at 0, [] ++ t) ',' (join [','] (s :: texts))
        = .next (.at 0, []) [t] 0 := rfl
    have hreads := ((h t List.mem_cons_self).reads_split [] _).trans (Reads.single hcomma)
    rw [htwo, hreads.loop_eq]
    have hmore := ih s fun r hr => h r (List.mem_cons_of_mem t hr)
    simpa using hmore

theorem splitTopLevel_arguments {texts : List Text} (h : ∀ t ∈ texts, Walk 0 (.at 0) t (.at 0))
    (htrim : ∀ t ∈ texts, trim t = t ∧ t ≠ []) :
  splitTopLevel (join [','] texts) = texts
  := by
  match texts with
  | [] => rfl
  | t :: texts =>
    have hat : (⟨0, none, false⟩ : Mode) = .at 0 := rfl
    rw [splitTopLevel, hat, loop_arguments t texts h]
    have hsame : (t :: texts).map trim = t :: texts := by
      conv_rhs => rw [← List.map_id (t :: texts)]
      exact List.map_congr_left fun s hs => (htrim s hs).1
    rw [hsame, List.filter_eq_self]
    exact fun s hs => by simpa using (htrim s hs).2

end Db.MongoShell
