import Catio.Lib.RegExp.Dialects
import Catio.Lib.RegExp.Simulation

/-!
# Agreement of two dialects

A position of a text is one in UTF-16, and there are others between the two units of a character.
Dialects may dispute a letter or a boundary at a position.  A text is contested if such a position
is between the parts of an expression that are tested next to it.  In one that is not, such as one
in ASCII, an expression of ASCII classes matches in both dialects or in neither (`matched_iff`).
-/

namespace RegExp

/-- A position of the text in UTF-16. -/
def encoded (p : Position Char) : Position ℕ :=
  ⟨p.before.flatMap fun c => (units c).reverse, p.after.flatMap units⟩

/-- A position in UTF-16 between the two units of the character before a position. -/
def Between (p' : Position ℕ) (p : Position Char) : Prop :=
  ∃ x before hi lo, p.before = x :: before ∧ 0x10000 ≤ x.toNat ∧ units x = [hi, lo]
    ∧ p' = ⟨hi :: (encoded ⟨before, p.after⟩).before, lo :: (encoded p).after⟩

/-- A position of a text, and the same in UTF-16. -/
def Encodes (text : List Char) (p : Position Char) (p' : Position ℕ) : Prop :=
  p.text = text ∧ p' = encoded p

/-- A position in UTF-16, and the position of the text that is there or one unit later. -/
def Decodes (text : List Char) (p' : Position ℕ) (p : Position Char) : Prop :=
  p.text = text ∧ (p' = encoded p ∨ Between p' p)

section

variable {unicodeWord : Char → Bool} {ignoreCase : Bool} {text : List Char}
  {p : Position Char} {p' : Position ℕ} {x : Char} {before rest : List Char}

/-! ### Units -/

theorem units_plane (hx : x.toNat < 0x10000) :
  units x = [x.toNat]
  := if_pos hx

theorem encoded_text :
  (encoded p).text = utf16 p.text
  := by
  unfold encoded Position.text utf16
  rw [List.reverse_flatMap, List.flatMap_append]
  congr 2
  ext c
  simp

theorem encoded_cons_plane (before rest : List Char) (hx : x.toNat < 0x10000) :
  (encoded ⟨before, x :: rest⟩).after = x.toNat :: (encoded ⟨x :: before, rest⟩).after
    ∧ (encoded ⟨x :: before, rest⟩).before
      = x.toNat :: (encoded ⟨before, x :: rest⟩).before
  := by
  unfold encoded
  rw [List.flatMap_cons, List.flatMap_cons, units_plane hx]
  exact ⟨rfl, rfl⟩

theorem encoded_cons_astral (before rest : List Char) {hi lo : ℕ} (hunits : units x = [hi, lo]) :
  (encoded ⟨before, x :: rest⟩).after = hi :: lo :: (encoded ⟨x :: before, rest⟩).after
    ∧ (encoded ⟨x :: before, rest⟩).before
      = lo :: hi :: (encoded ⟨before, x :: rest⟩).before
  := by
  unfold encoded
  rw [List.flatMap_cons, List.flatMap_cons, hunits]
  exact ⟨rfl, rfl⟩

/-! ### Disputes -/

/-- The dialects differ on a letter or a boundary at a position. -/
def disputed (unicodeWord : Char → Bool) (ignoreCase : Bool) : Exp → Position Char → Bool
  | .letter c, p =>
      p.after.head?.any fun x =>
        c.holds (rust unicodeWord ignoreCase) x != c.holds (ecmaScript ignoreCase) x.toNat
  | .boundary, p =>
      (rust unicodeWord ignoreCase).atBoundary p != (ecmaScript ignoreCase).atBoundary (encoded p)
  | _, _ => false

/-- A test of an expression is disputed, where one dialect passes it. -/
def Contested (unicodeWord : Char → Bool) (ignoreCase : Bool) (r : Exp) (text : List Char) :
    Prop :=
  ∃ p ∈ positions text, ∃ t ∈ r.tests .empty .empty, disputed unicodeWord ignoreCase t.test p
    ∧ (t.Passed (rust unicodeWord ignoreCase) p ∨ t.Passed (ecmaScript ignoreCase) (encoded p))

instance (unicodeWord : Char → Bool) (ignoreCase : Bool) (r : Exp) (text : List Char) :
    Decidable (Contested unicodeWord ignoreCase r text) :=
  inferInstanceAs (Decidable (∃ p ∈ positions text, _))

/-! ### Simulation -/

theorem holds_of_agreed {c : CharClass}
    (h : disputed unicodeWord ignoreCase (.letter c) ⟨before, x :: rest⟩ = false) :
  c.holds (rust unicodeWord ignoreCase) x = c.holds (ecmaScript ignoreCase) x.toNat
  := by
  change (c.holds _ x != c.holds _ x.toNat) = false at h
  rw [bne_eq_false_iff_eq] at h
  exact h

theorem simulates_letter {c : CharClass} (hc : c.plain)
    (hagree : disputed unicodeWord ignoreCase (.letter c) p = false) :
  Simulates (rust unicodeWord ignoreCase) (ecmaScript ignoreCase) (Encodes text) (.letter c)
    (.letter c) p
  := by
  rintro q p' hmatch ⟨htext, rfl⟩
  obtain ⟨before, after⟩ := p
  obtain ⟨hascii, hnegated⟩ := (Bool.and_eq_true _ _).mp hc
  have htext' := hmatch.text_eq.trans htext
  obtain ⟨x, rest, hafter, hholds, rfl⟩ := hmatch
  subst hafter
  obtain hlt | hge := Nat.lt_or_ge x.toNat 0x10000
  · obtain ⟨hcons, hbefore⟩ := encoded_cons_plane before rest hlt
    refine ⟨_, ⟨htext', rfl⟩, x.toNat, _, hcons, ?_, Position.ext hbefore rfl⟩
    rw [← holds_of_agreed hagree]
    exact hholds
  · rw [holds_astral hascii hge] at hholds
    rw [hholds] at hnegated
    cases hnegated

theorem simulates_letters {c : CharClass} (hc : c.ascii)
    (hagree : disputed unicodeWord ignoreCase (.letter c) p = false) :
  Simulates (rust unicodeWord ignoreCase) (ecmaScript ignoreCase) (Encodes text) (.letter c)
    (.star (.letter c)) p
  := by
  rintro q p' hmatch ⟨htext, rfl⟩
  refine ⟨encoded q, ⟨hmatch.text_eq.trans htext, rfl⟩, ?_⟩
  obtain ⟨before, after⟩ := p
  obtain ⟨x, rest, hafter, hholds, rfl⟩ := hmatch
  subst hafter
  obtain hlt | hge := Nat.lt_or_ge x.toNat 0x10000
  · obtain ⟨hcons, hbefore⟩ := encoded_cons_plane before rest hlt
    refine .single ⟨x.toNat, _, hcons, ?_, Position.ext hbefore rfl⟩
    rw [← holds_of_agreed hagree]
    exact hholds
  · obtain ⟨hi, lo, hunits, ⟨hhi, hhi'⟩, hlo, hlo'⟩ := units_astral hge
    obtain ⟨hcons, hbefore⟩ := encoded_cons_astral before rest hunits
    rw [holds_astral hc hge] at hholds
    refine .head (b := ⟨hi :: (encoded ⟨before, x :: rest⟩).before,
      lo :: (encoded ⟨x :: before, rest⟩).after⟩) ?_ (.single ?_)
    · refine ⟨hi, _, hcons, ?_, rfl⟩
      rw [holds_surrogate hc hhi hhi', hholds]
    · refine ⟨lo, _, rfl, ?_, Position.ext hbefore rfl⟩
      rw [holds_surrogate hc hlo hlo', hholds]

theorem respects_encodes (unicodeWord : Char → Bool) (ignoreCase : Bool) (text : List Char) :
  Respects (rust unicodeWord ignoreCase) (ecmaScript ignoreCase) (Encodes text) text
    (fun t p => disputed unicodeWord ignoreCase t p = false) CharClass.plain CharClass.ascii
  where
  text_eq p p' h := h.1
  letter c p := simulates_letter
  letters c p := simulates_letters
  boundary := by
    rintro p p' ⟨-, rfl⟩ hagree h
    rw [← bne_eq_false_iff_eq.mp hagree]
    exact h
  start := by
    rintro p p' ⟨-, rfl⟩ hstart
    unfold encoded
    rw [hstart]
    rfl
  stop := by
    rintro p p' ⟨-, rfl⟩ hstop
    unfold encoded
    rw [hstop]
    rfl

theorem encoded_after_cons {u : ℕ} {rest' : List ℕ} (h : (encoded p).after = u :: rest') :
  ∃ x rest, p.after = x :: rest
    ∧ ((x.toNat < 0x10000 ∧ u = x.toNat ∧ rest' = (encoded ⟨x :: p.before, rest⟩).after)
      ∨ ∃ lo, 0x10000 ≤ x.toNat ∧ units x = [u, lo]
        ∧ rest' = lo :: (encoded ⟨x :: p.before, rest⟩).after)
  := by
  obtain ⟨before, after⟩ := p
  cases after with
  | nil => cases h
  | cons x rest =>
    refine ⟨x, rest, rfl, ?_⟩
    obtain hlt | hge := Nat.lt_or_ge x.toNat 0x10000
    · rw [(encoded_cons_plane _ _ hlt).1, List.cons.injEq] at h
      exact .inl ⟨hlt, h.1.symm, h.2.symm⟩
    · obtain ⟨hi, lo, hunits, -⟩ := units_astral hge
      rw [(encoded_cons_astral _ _ hunits).1, List.cons.injEq] at h
      obtain ⟨rfl, hrest⟩ := h
      exact .inr ⟨lo, hge, hunits, hrest.symm⟩

theorem surrogates {hi lo : ℕ} (hx : 0x10000 ≤ x.toNat) (hunits : units x = [hi, lo]) :
  (0xD800 ≤ hi ∧ hi < 0xE000) ∧ 0xD800 ≤ lo ∧ lo < 0xE000
  := by
  obtain ⟨hi', lo', hunits', hbounds⟩ := units_astral hx
  rw [hunits] at hunits'
  cases hunits'
  exact hbounds

/-- The dialects agree at a position in UTF-16, if it is one of the text. -/
def AgreedUnit (unicodeWord : Char → Bool) (ignoreCase : Bool) (text : List Char) (t : Exp)
    (p' : Position ℕ) : Prop :=
  ∀ p : Position Char, p.text = text → p' = encoded p →
    disputed unicodeWord ignoreCase t p = false

theorem letter_decodes {c : CharClass} (hc : c.ascii)
    (hagree : AgreedUnit unicodeWord ignoreCase text (.letter c) p') {q' : Position ℕ}
    (hp : Decodes text p' p) (hmatch : Matches (ecmaScript ignoreCase) (.letter c) p' q') :
  ∃ q, Decodes text q' q
    ∧ (Matches (rust unicodeWord ignoreCase) (.letter c) p q ∨ (c.negated ∧ q = p))
  := by
  obtain ⟨htext, hp⟩ := hp
  obtain ⟨u, rest', hafter', hholds, rfl⟩ := hmatch
  obtain rfl | ⟨y, before, hi, lo, hbefore, hy, hunits, rfl⟩ := hp
  · have hagreed := hagree p htext rfl
    obtain ⟨x, rest, hafter, hcases⟩ := encoded_after_cons hafter'
    obtain ⟨before, after⟩ := p
    dsimp only at hafter
    subst hafter
    have htext' : (⟨x :: before, rest⟩ : Position Char).text = text := by
      rw [← htext]
      unfold Position.text
      rw [List.reverse_cons, List.append_assoc, List.singleton_append]
    obtain ⟨hlt, rfl, rfl⟩ | ⟨lo, hge, hunits, rfl⟩ := hcases
    · refine ⟨⟨x :: before, rest⟩, ⟨htext', .inl ?_⟩, .inl ⟨x, rest, rfl, ?_, rfl⟩⟩
      · exact Position.ext (encoded_cons_plane _ _ hlt).2.symm rfl
      · rw [holds_of_agreed hagreed]
        exact hholds
    · obtain ⟨⟨hhi, hhi'⟩, -⟩ := surrogates hge hunits
      rw [holds_surrogate hc hhi hhi'] at hholds
      refine ⟨⟨x :: before, rest⟩, ⟨htext', .inr ?_⟩, .inl ⟨x, rest, rfl, ?_, rfl⟩⟩
      · exact ⟨x, before, u, lo, rfl, hge, hunits, rfl⟩
      · rw [holds_astral hc hge]
        exact hholds
  · obtain ⟨-, hlo, hlo'⟩ := surrogates hy hunits
    dsimp only at hafter'
    obtain ⟨rfl, rfl⟩ := List.cons.inj hafter'
    rw [holds_surrogate hc hlo hlo'] at hholds
    refine ⟨p, ⟨htext, .inl ?_⟩, .inr ⟨hholds, rfl⟩⟩
    obtain ⟨before', after⟩ := p
    dsimp only at hbefore
    subst hbefore
    exact Position.ext (encoded_cons_astral _ _ hunits).2.symm rfl

theorem Between.not_atBoundary (h : Between p' p) :
  (ecmaScript ignoreCase).atBoundary p' = false
  := by
  obtain ⟨x, before, hi, lo, -, hx, hunits, rfl⟩ := h
  obtain ⟨⟨hhi, -⟩, hlo, -⟩ := surrogates hx hunits
  have hsurrogate : ∀ u, 0xD800 ≤ u → isAsciiWord u = false := by
    intro u hu
    rw [Bool.eq_false_iff]
    intro h
    have hcases := of_decide_eq_true h
    omega
  unfold Dialect.atBoundary ecmaScript
  simp only [List.head?_cons, Option.any_some]
  rw [hsurrogate hi hhi, hsurrogate lo hlo]
  rfl

theorem Between.text_eq (h : Between p' p) :
  p'.text = utf16 p.text
  := by
  obtain ⟨before, after⟩ := p
  obtain ⟨x, before', hi, lo, hbefore, -, hunits, rfl⟩ := h
  dsimp only at hbefore
  subst hbefore
  rw [← encoded_text, Position.text, Position.text, (encoded_cons_astral _ _ hunits).2]
  change (hi :: (encoded ⟨before', x :: after⟩).before).reverse ++ lo :: _ = _
  rw [List.reverse_cons (a := lo), List.append_assoc]
  rfl

theorem respects_decodes (unicodeWord : Char → Bool) (ignoreCase : Bool) (text : List Char) :
  Respects (ecmaScript ignoreCase) (rust unicodeWord ignoreCase) (Decodes text) (utf16 text)
    (AgreedUnit unicodeWord ignoreCase text) CharClass.plain CharClass.ascii
  where
  text_eq := by
    rintro p' p ⟨rfl, rfl | hbetween⟩
    · exact encoded_text
    · exact hbetween.text_eq
  letter c p' hc hagree := by
    intro q' p hmatch hp
    obtain ⟨hascii, hnegated⟩ := (Bool.and_eq_true _ _).mp hc
    obtain ⟨q, hq, hletter | ⟨hneg, -⟩⟩ := letter_decodes hascii hagree hp hmatch
    · exact ⟨q, hq, hletter⟩
    · rw [hneg] at hnegated
      cases hnegated
  letters c p' hc hagree := by
    intro q' p hmatch hp
    obtain ⟨q, hq, hletter | ⟨-, rfl⟩⟩ := letter_decodes hc hagree hp hmatch
    · exact ⟨q, hq, .single hletter⟩
    · exact ⟨q, hq, .refl⟩
  boundary := by
    rintro p' p ⟨htext, rfl | hbetween⟩ hagree h
    · rw [bne_eq_false_iff_eq.mp (hagree p htext rfl)]
      exact h
    · rw [hbetween.not_atBoundary] at h
      cases h
  start := by
    rintro p' p ⟨-, rfl | ⟨x, before, hi, lo, -, -, -, rfl⟩⟩ hstart
    · cases hbefore : p.before with
      | nil => rfl
      | cons x before =>
        unfold encoded units at hstart
        rw [hbefore, List.flatMap_cons] at hstart
        have hempty := (List.append_eq_nil_iff.mp hstart).1
        split at hempty
        · cases hempty
        · cases hempty
    · cases hstart
  stop := by
    rintro p' p ⟨-, rfl | ⟨x, before, hi, lo, -, -, -, rfl⟩⟩ hstop
    · cases hafter : p.after with
      | nil => rfl
      | cons x after =>
        unfold encoded units at hstop
        rw [hafter, List.flatMap_cons] at hstop
        have hempty := (List.append_eq_nil_iff.mp hstop).1
        split at hempty
        · cases hempty
        · cases hempty
    · cases hstop

theorem exists_decodes (before : List Char) {rest : List Char} {w a : List ℕ}
    (h : w ++ a = rest.flatMap units) :
  ∃ p, Decodes (before.reverse ++ rest) ⟨w.reverse ++ (encoded ⟨before, rest⟩).before, a⟩ p
  := by
  induction rest generalizing before w with
  | nil =>
    obtain ⟨rfl, rfl⟩ := List.append_eq_nil_iff.mp h
    exact ⟨⟨before, []⟩, rfl, .inl rfl⟩
  | cons x rest ih =>
    have htext : (x :: before).reverse ++ rest = before.reverse ++ x :: rest := by
      rw [List.reverse_cons, List.append_assoc, List.singleton_append]
    have hbefore : (encoded ⟨x :: before, rest⟩).before
        = (units x).reverse ++ (encoded ⟨before, x :: rest⟩).before := rfl
    rw [List.flatMap_cons] at h
    obtain ⟨v, hw, ha⟩ | ⟨v, hw, ha⟩ := List.append_eq_append_iff.mp h
    · -- the position is within the units of `x`
      subst ha
      cases w with
      | nil =>
        refine ⟨⟨before, x :: rest⟩, rfl, .inl (Position.ext rfl ?_)⟩
        change v ++ _ = (x :: rest).flatMap units
        rw [List.flatMap_cons, hw, List.nil_append]
      | cons u w =>
        refine ⟨⟨x :: before, rest⟩, htext, ?_⟩
        obtain hlt | hge := Nat.lt_or_ge x.toNat 0x10000
        · rw [units_plane hlt, List.cons_append, List.cons.injEq] at hw
          obtain ⟨rfl, hw⟩ := hw
          obtain ⟨rfl, rfl⟩ := List.append_eq_nil_iff.mp hw.symm
          refine .inl (Position.ext ?_ rfl)
          rw [hbefore, units_plane hlt]
        · obtain ⟨hi, lo, hunits, -⟩ := units_astral hge
          rw [hunits, List.cons_append, List.cons.injEq] at hw
          obtain ⟨rfl, hw⟩ := hw
          cases w with
          | nil =>
            rw [List.nil_append] at hw
            subst hw
            exact .inr ⟨x, before, hi, lo, rfl, hge, hunits, rfl⟩
          | cons u w =>
            rw [List.cons_append, List.cons.injEq] at hw
            obtain ⟨rfl, hw⟩ := hw
            obtain ⟨rfl, rfl⟩ := List.append_eq_nil_iff.mp hw.symm
            refine .inl (Position.ext ?_ rfl)
            rw [hbefore, hunits]
    · obtain ⟨p, htext', hp⟩ := ih (x :: before) ha.symm
      refine ⟨p, htext'.trans htext, ?_⟩
      rw [hw, List.reverse_append, List.append_assoc, ← hbefore]
      exact hp

/-! ### Agreement -/

variable {r : Exp}

theorem Matched.to_units (huses : r.uses CharClass.plain CharClass.ascii)
    (hcontested : ¬ Contested unicodeWord ignoreCase r text)
    (h : Matched (rust unicodeWord ignoreCase) r text) :
  Matched (ecmaScript ignoreCase) r (utf16 text)
  := by
  obtain ⟨p, q, htext, hmatch⟩ := h
  have hagreed : Agreed (d := rust unicodeWord ignoreCase) text
      (fun t p => disputed unicodeWord ignoreCase t p = false) (r.tests .empty .empty) := by
    intro t ht p hp hpassed
    rw [← Bool.not_eq_true]
    intro hdisputed
    exact hcontested ⟨p, mem_positions.mpr hp, t, ht, hdisputed, .inl hpassed⟩
  obtain ⟨q', -, hmatch'⟩ := simulates (respects_encodes unicodeWord ignoreCase text) huses
    hagreed q _ hmatch ⟨htext, rfl⟩
  refine ⟨encoded p, q', ?_, hmatch'⟩
  rw [encoded_text, htext]

theorem Matched.of_units (huses : r.uses CharClass.plain CharClass.ascii)
    (hcontested : ¬ Contested unicodeWord ignoreCase r text)
    (h : Matched (ecmaScript ignoreCase) r (utf16 text)) :
  Matched (rust unicodeWord ignoreCase) r text
  := by
  obtain ⟨⟨before', after'⟩, q', htext, hmatch⟩ := h
  obtain ⟨p, hp⟩ := exists_decodes [] htext
  rw [List.reverse_reverse, show (encoded ⟨[], text⟩).before = [] from rfl,
    List.append_nil] at hp
  have hagreed : Agreed (d := ecmaScript ignoreCase) (utf16 text)
      (AgreedUnit unicodeWord ignoreCase text) (r.tests .empty .empty) := by
    rintro t ht p' - hpassed p hp rfl
    rw [← Bool.not_eq_true]
    intro hdisputed
    exact hcontested ⟨p, mem_positions.mpr hp, t, ht, hdisputed, .inr hpassed⟩
  obtain ⟨q, -, hmatch'⟩ := simulates (respects_decodes unicodeWord ignoreCase text) huses
    hagreed q' p hmatch hp
  exact ⟨p, q, hp.1, hmatch'⟩

theorem matched_iff (huses : r.uses CharClass.plain CharClass.ascii)
    (hcontested : ¬ Contested unicodeWord ignoreCase r text) :
  Matched (rust unicodeWord ignoreCase) r text ↔ Matched (ecmaScript ignoreCase) r (utf16 text)
  := ⟨Matched.to_units huses hcontested, Matched.of_units huses hcontested⟩

end

end RegExp
