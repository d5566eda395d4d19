import Catio.Lib.Text

/-!
# Slices by bytes

A text cut at a place that is counted in bytes of its UTF-8 encoding, which panics inside of a
character; and words that are looked for at the start of a text in this way, or by characters
(`startsWithWord_eq_some`).
-/

namespace Text

/-- Cut a text behind so many bytes, unless that is inside of a character or behind its end. -/
def splitBytes : Text → ℕ → Option (Text × Text)
  | s, 0 => some ([], s)
  | [], _ + 1 => none
  | c :: s, n + 1 =>
      if c.utf8Size ≤ n + 1 then
        (splitBytes s (n + 1 - c.utf8Size)).map fun p => (c :: p.1, p.2)
      else none

/-- The place behind so many bytes is inside of a character. -/
def Cuts (s : Text) (n : ℕ) : Prop :=
  ∃ before c after, s = before ++ c :: after ∧ utf8Len before < n
    ∧ n < utf8Len before + c.utf8Size

/-- A text starts with a word in any case, with white space or nothing behind it, compared up to a
place counted in bytes. -/
def startsWithWord (s word : Text) : Option Bool :=
  if utf8Len s < utf8Len word then some false
  else (splitBytes s (utf8Len word)).map fun p =>
    if eqIgnoreAsciiCase p.1 word then p.2.head?.all isWhitespace else false

/-- What is behind a word and white space at the start of a text. -/
def dropWord (word s : Text) : Option Text :=
  if eqIgnoreAsciiCase (s.take word.length) word && (s.drop word.length).head?.all isWhitespace then
    some (trimStart (s.drop word.length))
  else none

/-! ### Places -/

theorem utf8Len_append (s t : Text) :
  utf8Len (s ++ t) = utf8Len s + utf8Len t
  := by
  simp [utf8Len]

theorem utf8Len_cons (c : Char) (s : Text) :
  utf8Len (c :: s) = c.utf8Size + utf8Len s
  := by
  simp [utf8Len]

theorem splitBytes_append (s t : Text) :
  splitBytes (s ++ t) (utf8Len s) = some (s, t)
  := by
  induction s with
  | nil =>
    change splitBytes t 0 = _
    cases t <;> rfl
  | cons c s ih =>
    obtain ⟨n, hn⟩ : ∃ n, utf8Len (c :: s) = n + 1 := by
      have hc := c.utf8Size_pos
      exact ⟨c.utf8Size + utf8Len s - 1, by rw [utf8Len_cons]; omega⟩
    have hle : c.utf8Size ≤ n + 1 := by
      rw [← hn, utf8Len_cons]
      omega
    have hrest : n + 1 - c.utf8Size = utf8Len s := by
      rw [← hn, utf8Len_cons]
      omega
    rw [hn, List.cons_append, splitBytes, if_pos hle, hrest, ih]
    rfl

theorem splitBytes_eq_some {s a b : Text} {n : ℕ} :
  splitBytes s n = some (a, b) ↔ s = a ++ b ∧ utf8Len a = n
  := by
  constructor
  · intro h
    induction s generalizing n a with
    | nil =>
      cases n with
      | zero =>
        cases h
        exact ⟨rfl, rfl⟩
      | succ n => cases h
    | cons c s ih =>
      cases n with
      | zero =>
        cases h
        exact ⟨rfl, rfl⟩
      | succ n =>
        rw [splitBytes] at h
        split at h
        · rename_i hle
          obtain ⟨⟨a', b'⟩, hsplit, heq⟩ := Option.map_eq_some_iff.mp h
          cases heq
          obtain ⟨rfl, hlen⟩ := ih hsplit
          refine ⟨rfl, ?_⟩
          rw [utf8Len_cons, hlen]
          omega
        · cases h
  · rintro ⟨rfl, rfl⟩
    apply splitBytes_append

theorem splitBytes_eq_none {s : Text} {n : ℕ} (h : n ≤ utf8Len s) :
  splitBytes s n = none ↔ Cuts s n
  := by
  constructor
  · intro hnone
    induction s generalizing n with
    | nil =>
      cases n with
      | zero => cases hnone
      | succ n => cases h
    | cons c s ih =>
      cases n with
      | zero => cases hnone
      | succ n =>
        rw [splitBytes] at hnone
        split at hnone
        · rename_i hle
          rw [utf8Len_cons] at h
          obtain ⟨before, d, after, rfl, hlt, hgt⟩ :=
            ih (by omega) (Option.map_eq_none_iff.mp hnone)
          refine ⟨c :: before, d, after, rfl, ?_, ?_⟩
          · rw [utf8Len_cons]
            omega
          · rw [utf8Len_cons]
            omega
        · rename_i hgt
          refine ⟨[], c, s, rfl, ?_, ?_⟩
          · exact Nat.succ_pos n
          · simpa [utf8Len] using hgt
  · rintro ⟨before, c, after, rfl, hlt, hgt⟩
    cases hsplit : splitBytes (before ++ c :: after) n with
    | none => rfl
    | some p =>
      obtain ⟨a, b⟩ := p
      obtain ⟨heq, hlen⟩ := splitBytes_eq_some.mp hsplit
      exfalso
      obtain ⟨mid, rfl, hmid⟩ | ⟨mid, rfl, hmid⟩ := List.append_eq_append_iff.mp heq
      · rw [utf8Len_append] at hlen
        obtain _ | ⟨d, mid⟩ := mid
        · have hempty : utf8Len ([] : Text) = 0 := rfl
          omega
        · obtain ⟨rfl, -⟩ := List.cons.inj hmid
          rw [utf8Len_cons] at hlen
          omega
      · rw [utf8Len_append] at hlt
        omega

theorem lt_of_cuts {s : Text} {n : ℕ} (h : Cuts s n) :
  n < utf8Len s
  := by
  obtain ⟨before, c, after, rfl, -, hgt⟩ := h
  rw [utf8Len_append, utf8Len_cons]
  omega

theorem not_cuts_append (s t : Text) :
  ¬Cuts (s ++ t) (utf8Len s)
  := by
  intro h
  rw [← splitBytes_eq_none (lt_of_cuts h).le, splitBytes_append] at h
  cases h

theorem cuts_concat {c : Char} (hc : c.utf8Size = 1) {s : Text} {n : ℕ} :
  Cuts (s ++ [c]) n ↔ Cuts s n
  := by
  constructor
  · rintro ⟨before, d, after, heq, hlt, hgt⟩
    obtain rfl | ⟨after, e, rfl⟩ := List.eq_nil_or_concat after
    · obtain ⟨rfl, hlast⟩ := List.append_inj' heq rfl
      cases hlast
      omega
    · rw [List.concat_eq_append, ← List.cons_append, ← List.append_assoc] at heq
      obtain ⟨rfl, -⟩ := List.append_inj' heq rfl
      exact ⟨before, d, after, rfl, hlt, hgt⟩
  · rintro ⟨before, d, after, rfl, hlt, hgt⟩
    exact ⟨before, d, after ++ [c], by simp, hlt, hgt⟩

/-! ### Words at the start -/

theorem eqIgnoreAsciiCase_iff {s t : Text} :
  eqIgnoreAsciiCase s t = true ↔ toAsciiLowercase s = toAsciiLowercase t
  := by
  simp [eqIgnoreAsciiCase]

theorem length_eq_of_eqIgnoreAsciiCase {s t : Text} (h : eqIgnoreAsciiCase s t) :
  s.length = t.length
  := by
  have hlength := congrArg List.length (eqIgnoreAsciiCase_iff.mp h)
  simpa [toAsciiLowercase] using hlength

theorem utf8Len_eq_of_eqIgnoreAsciiCase {s t : Text} (h : eqIgnoreAsciiCase s t) :
  utf8Len s = utf8Len t
  := by
  have hlength := congrArg utf8Len (eqIgnoreAsciiCase_iff.mp h)
  simpa using hlength

theorem dropWord_eq_some {word s rest : Text} :
  dropWord word s = some rest
    ↔ ∃ first behind, s = first ++ behind ∧ eqIgnoreAsciiCase first word
      ∧ (∀ c ∈ behind.head?, isWhitespace c) ∧ rest = trimStart behind
  := by
  unfold dropWord
  rw [Option.ite_none_right_eq_some, Bool.and_eq_true, Option.all_eq_true]
  constructor
  · rintro ⟨⟨hfirst, hbehind⟩, hrest⟩
    exact ⟨_, _, (List.take_append_drop word.length s).symm, hfirst, hbehind,
      (Option.some_inj.mp hrest).symm⟩
  · rintro ⟨first, behind, rfl, hfirst, hbehind, rfl⟩
    rw [List.take_left' (length_eq_of_eqIgnoreAsciiCase hfirst),
      List.drop_left' (length_eq_of_eqIgnoreAsciiCase hfirst)]
    exact ⟨⟨hfirst, hbehind⟩, rfl⟩

theorem not_cuts_of_dropWord {word s rest : Text} (h : dropWord word s = some rest) :
  ¬Cuts s (utf8Len word)
  := by
  obtain ⟨first, behind, rfl, hfirst, -, -⟩ := dropWord_eq_some.mp h
  rw [← utf8Len_eq_of_eqIgnoreAsciiCase hfirst]
  apply not_cuts_append

theorem startsWithWord_eq_none {s word : Text} :
  startsWithWord s word = none ↔ Cuts s (utf8Len word)
  := by
  unfold startsWithWord
  split
  · rename_i hshort
    constructor
    · rintro ⟨⟩
    · intro h
      have hlt := lt_of_cuts h
      omega
  · rename_i hlong
    rw [Option.map_eq_none_iff, splitBytes_eq_none (Nat.not_lt.mp hlong)]

theorem startsWithWord_eq_some {s word : Text} {found : Bool}
    (h : startsWithWord s word = some found) :
  found = (dropWord word s).isSome
  := by
  rw [Bool.eq_iff_iff, Option.isSome_iff_exists]
  unfold startsWithWord at h
  split at h
  · rename_i hshort
    obtain rfl := Option.some_inj.mp h
    constructor
    · rintro ⟨⟩
    · rintro ⟨rest, hrest⟩
      obtain ⟨first, behind, rfl, hfirst, -, -⟩ := dropWord_eq_some.mp hrest
      rw [utf8Len_append, utf8Len_eq_of_eqIgnoreAsciiCase hfirst] at hshort
      omega
  · obtain ⟨⟨first, behind⟩, hsplit, hfound⟩ := Option.map_eq_some_iff.mp h
    constructor
    · rintro rfl
      split at hfound
      · rename_i hfirst
        refine ⟨trimStart behind, dropWord_eq_some.mpr ⟨first, behind, ?_, hfirst, ?_, rfl⟩⟩
        · exact (splitBytes_eq_some.mp hsplit).1
        · exact (Option.all_eq_true _ _).mp hfound
      · cases hfound
    · rintro ⟨rest, hrest⟩
      obtain ⟨first', behind', rfl, hfirst', hbehind', -⟩ := dropWord_eq_some.mp hrest
      rw [← utf8Len_eq_of_eqIgnoreAsciiCase hfirst', splitBytes_append] at hsplit
      obtain ⟨rfl, rfl⟩ := Prod.mk.inj (Option.some_inj.mp hsplit)
      rw [← hfound, if_pos hfirst']
      exact (Option.all_eq_true _ _).mpr hbehind'

end Text
