import Catio.Db.MongoShell
import Catio.Lib.Json.Grammar
import Mathlib.Data.Bool.AllAny

/-!
# Loose JSON

A loose JSON text has strings in single or double quotes and keys without quotes (`Loose`).  What
the parser makes of it is the same text with strict strings and keys, and so a JSON text of the same
value, if the text has no constructor of object identifiers in its strings
(`normalizeLooseJson_loose`).
-/

namespace Db.MongoShell

open Scan Text Json

variable {u : Unicode}

/-! ### The notation -/

/-- A string, what stands for it between single quotes, and between double quotes. -/
inductive SingleBody : Text → Text → Text → Prop where
  | nil : SingleBody [] [] []
  | plain {c : Char} {s t v : Text} (single : c ≠ '\'') (double : c ≠ '"') (escape : c ≠ '\\')
      (visible : 0x20 ≤ c.toNat) (rest : SingleBody s t v) :
      SingleBody (c :: s) (c :: t) (c :: v)
  | double {s t v : Text} (rest : SingleBody s t v) :
      SingleBody ('"' :: s) ('"' :: t) ('\\' :: '"' :: v)
  | escape {c : Char} {e s t v : Text} (escape : Escape c e) (rest : SingleBody s t v) :
      SingleBody (c :: s) ('\\' :: e ++ t) ('\\' :: e ++ v)

/-- A string as it may be written, and as JSON has it. -/
inductive LooseString : Text → Text → Text → Prop where
  | double {s b : Text} (body : Body s b) : LooseString s ('"' :: b ++ ['"']) ('"' :: b ++ ['"'])
  | single {s t v : Text} (body : SingleBody s t v) :
      LooseString s ('\'' :: t ++ ['\'']) ('"' :: v ++ ['"'])

/-- A key as it may be written, and as JSON has it. -/
inductive LooseKey (u : Unicode) : Text → Text → Text → Prop where
  | string {s t v : Text} (h : LooseString s t v) : LooseKey u s t v
  | bare {c : Char} {more : Text} (start : isWordStart u c) (word : more.all (isWordChar u))
      (key : c :: more ∉ literals) :
      LooseKey u (c :: more) (c :: more) ('"' :: c :: more ++ ['"'])

/-- A loose JSON text of a value, and the strict one with the same white space. -/
def Loose (u : Unicode) (v : Value) (t strict : Text) : Prop :=
  Renders (LooseKey u) LooseString (.value v) t strict

/-! ### Characters -/

variable {c : Char} {t strict a b : Text} {rest : Text} {v : Value} {e : Char}

theorem isWordStart_ascii (h : c.toNat < 0x80) :
  isWordStart u c = (c.isAlpha || c = '_' || c = '$')
  := by
  rw [isWordStart, u.alphabetic_ascii c h]

theorem isWordChar_ascii (h : c.toNat < 0x80) :
  isWordChar u c = (c.isAlpha || c.isDigit || c = '_' || c = '$' || c = '.')
  := by
  rw [isWordChar, Unicode.alphanumeric, u.alphabetic_ascii c h, u.numeric_ascii c h]

theorem not_isWordChar (h : c.toNat < 0x80)
    (hc : (c.isAlpha || c.isDigit || c = '_' || c = '$' || c = '.') = false) :
  isWordChar u c = false
  := by
  rw [isWordChar_ascii h, hc]

theorem isWordChar_of_isWordStart (h : isWordStart u c) :
  isWordChar u c
  := by
  simp only [isWordStart, Bool.or_eq_true, decide_eq_true_eq] at h
  simp only [isWordChar, Unicode.alphanumeric, Bool.or_eq_true, decide_eq_true_eq]
  tauto

theorem body_word {t : Text} (h : t.all (isWordChar u)) :
  Body t t
  := by
  induction t with
  | nil => apply Body.nil
  | cons c t ih =>
    rw [List.all_cons, Bool.and_eq_true] at h
    have hne {d : Char} (hd : isWordChar u d = false) : c ≠ d := by
      rintro rfl
      rw [h.1] at hd
      cases hd
    have hvisible : 0x20 ≤ c.toNat := by
      by_contra hsmall
      rw [Nat.not_le] at hsmall
      have hcontrol : ∀ n < 0x20, ((Char.ofNat n).isAlpha || (Char.ofNat n).isDigit
          || Char.ofNat n = '_' || Char.ofNat n = '$' || Char.ofNat n = '.') = false := by
        decide
      have hnone := hcontrol c.toNat hsmall
      rw [Char.ofNat_toNat] at hnone
      rw [not_isWordChar (lt_trans hsmall (by decide)) hnone] at h
      cases h.1
    exact .plain (hne (not_isWordChar (by decide) (by decide)))
      (hne (not_isWordChar (by decide) (by decide))) hvisible (ih h.2)

/-! ### Copying strings -/

theorem copyDouble_units {b : Text} (h : Units ['"'] b) (rest : Text) :
  copyDouble (b ++ '"' :: rest) = (b ++ ['"'], b.length + 1)
  := by
  induction h with
  | nil => rfl
  | @plain c t other escape _ ih =>
    have hquote : c ≠ '"' := by simpa using other
    rw [List.cons_append, copyDouble, if_neg hquote, ih]
    · rfl
    · rintro rfl
      exact absurd rfl escape
    · rintro e t' rfl
      exact absurd rfl escape
  | @pair c t _ ih =>
    rw [List.cons_append, List.cons_append, copyDouble, ih]
    rfl

theorem copySingle_units {b : Text} (h : Units ['"', '\''] b) (rest : Text) :
  copySingle (b ++ rest) = (b ++ (copySingle rest).1, b.length + (copySingle rest).2)
  := by
  induction h with
  | nil => simp
  | @plain c t other escape _ ih =>
    simp only [List.mem_cons, List.not_mem_nil, or_false, not_or] at other
    rw [List.cons_append, copySingle, if_neg other.2, if_neg other.1, ih]
    · simp [Nat.add_right_comm]
    · rintro rfl
      exact absurd rfl escape
    · rintro e t' rfl
      exact absurd rfl escape
  | @pair c t _ ih =>
    rw [List.cons_append, List.cons_append, copySingle, ih]
    simp [Nat.add_right_comm]

theorem copySingle_body {s t v : Text} (h : SingleBody s t v) (rest : Text) :
  copySingle (t ++ '\'' :: rest) = (v ++ ['"'], t.length + 1)
  := by
  induction h with
  | nil => rfl
  | @plain c s t v single double escape visible _ ih =>
    rw [List.cons_append, copySingle, if_neg single, if_neg double, ih]
    · rfl
    · rintro rfl
      exact absurd rfl escape
    · rintro e t' rfl
      exact absurd rfl escape
  | double _ ih =>
    rw [List.cons_append, copySingle, if_neg (by decide), if_pos rfl, ih]
    · rfl
    · rintro ⟨⟩
    · rintro e t' ⟨⟩
  | @escape c e s t v escape _ ih =>
    rw [List.append_assoc, copySingle_units escape.units, ih]
    simp only [List.append_assoc, List.length_append, List.length_cons, Prod.mk.injEq, true_and]
    omega

theorem LooseString.exact {s t v : Text} (h : LooseString s t v) :
  Exact s v v
  := by
  cases h with
  | @double b body => exact ⟨rfl, b, body, rfl⟩
  | @single t v body =>
    refine ⟨rfl, v, ?_, rfl⟩
    induction body with
    | nil => apply Body.nil
    | plain _ double escape visible _ ih => exact .plain double escape visible ih
    | double _ ih => exact @Body.escape '"' ['"'] _ _ (.letter (by decide)) ih
    | escape escape _ ih => exact .escape escape ih

theorem LooseKey.exact {s t v : Text} (h : LooseKey u s t v) :
  Exact s v v
  := by
  cases h with
  | string h => exact h.exact
  | @bare c more start word key =>
    refine ⟨rfl, c :: more, body_word (u := u) ?_, rfl⟩
    rw [List.all_cons, isWordChar_of_isWordStart start, word]
    rfl

/-! ### Requoting -/

/-- What may follow a value: no more characters of a word, and no colon. -/
def Ends (u : Unicode) (rest : Text) : Prop :=
  rest.head?.any (isWordChar u) = false ∧ (rest.dropWhile isWhitespace).head? ≠ some ':'

theorem isWhitespace_of_isSpace (h : isSpace c) :
  isWhitespace c
  := by
  simp only [isSpace, Bool.or_eq_true, beq_iff_eq] at h
  rcases h with ((rfl | rfl) | rfl) | rfl
  all_goals rfl

theorem space_facts (h : isSpace c) :
  c ≠ '"' ∧ c ≠ '\'' ∧ isWordStart u c = false ∧ isWordChar u c = false
  := by
  simp only [isSpace, Bool.or_eq_true, beq_iff_eq] at h
  rcases h with ((rfl | rfl) | rfl) | rfl
  all_goals
    rw [isWordStart_ascii (by decide), isWordChar_ascii (by decide)]
    decide

theorem Ends.blank {b rest : Text} (hb : Blank b) (h : Ends u rest) :
  Ends u (b ++ rest)
  := by
  constructor
  · cases b with
    | nil => exact h.1
    | cons c b =>
      rw [List.cons_append, List.head?_cons, Option.any_some]
      exact (space_facts (hb c List.mem_cons_self)).2.2.2
  · rw [List.dropWhile_append_of_pos fun c hc => isWhitespace_of_isSpace (hb c hc)]
    exact h.2

theorem ends_cons {c : Char} (hc : c ∈ [',', ']', '\x7d']) (rest : Text) :
  Ends u (c :: rest)
  := by
  simp only [List.mem_cons, List.not_mem_nil, or_false] at hc
  rcases hc with rfl | rfl | rfl
  all_goals
    refine ⟨not_isWordChar (by decide) (by decide), ?_⟩
    rintro ⟨⟩

theorem ends_nil : Ends u [] :=
  ⟨rfl, by rintro ⟨⟩⟩

theorem reads_plain (rest : Text) (hdouble : c ≠ '"') (hsingle : c ≠ '\'')
    (hword : isWordStart u c = false) :
  Reads (requoteTurn u) () (c :: rest) rest () [c]
  := by
  apply Reads.single
  rw [requoteTurn, if_neg hsingle, if_neg hdouble, if_neg (by rw [hword]; exact Bool.false_ne_true)]

theorem reads_plains {t : Text} (rest : Text)
    (h : ∀ c ∈ t, c ≠ '"' ∧ c ≠ '\'' ∧ isWordStart u c = false) :
  Reads (requoteTurn u) () (t ++ rest) rest () t
  := by
  induction t with
  | nil => apply Reads.refl
  | cons c t ih =>
    obtain ⟨hdouble, hsingle, hword⟩ := h c List.mem_cons_self
    exact (reads_plain (t ++ rest) hdouble hsingle hword).trans
      (ih fun d hd => h d (List.mem_cons_of_mem c hd))

theorem reads_blank {b : Text} (h : Blank b) (rest : Text) :
  Reads (requoteTurn u) () (b ++ rest) rest () b
  := by
  apply reads_plains
  intro c hc
  obtain ⟨hdouble, hsingle, hword, -⟩ := space_facts (u := u) (h c hc)
  exact ⟨hdouble, hsingle, hword⟩

theorem requoteTurn_word {more rest : Text} (hc : isWordStart u c) (hmore : more.all (isWordChar u))
    (hrest : rest.head?.any (isWordChar u) = false) :
  requoteTurn u () c (more ++ rest)
    = if (rest.dropWhile isWhitespace).head? = some ':' ∧ c :: more ∉ literals
      then .next () ('"' :: c :: more ++ ['"']) more.length
      else .next () (c :: more) more.length
  := by
  have hne {d : Char} (hd : isWordStart u d = false) : c ≠ d := by
    rintro rfl
    rw [hc] at hd
    cases hd
  have hsingle : c ≠ '\'' := hne (by rw [isWordStart_ascii (by decide)]; decide)
  have hdouble : c ≠ '"' := hne (by rw [isWordStart_ascii (by decide)]; decide)
  have htake : (more ++ rest).takeWhile (isWordChar u) = more := by
    rw [List.takeWhile_append_of_pos (List.all_eq_true.mp hmore)]
    have hnone : rest.takeWhile (isWordChar u) = [] := by
      cases rest with
      | nil => rfl
      | cons d rest =>
        rw [List.takeWhile_cons_of_neg]
        rw [List.head?_cons, Option.any_some] at hrest
        rw [hrest]
        exact Bool.false_ne_true
    rw [hnone, List.append_nil]
  rw [requoteTurn, if_neg hsingle, if_neg hdouble, if_pos hc]
  dsimp only
  rw [htake, List.drop_left]

theorem reads_word {c : Char} {more rest : Text} (hc : isWordStart u c)
    (hmore : more.all (isWordChar u)) (hrest : Ends u rest) :
  Reads (requoteTurn u) () (c :: (more ++ rest)) rest () (c :: more)
  := by
  apply Reads.skipping (k := more.length) more _ rfl
  rw [requoteTurn_word hc hmore hrest.1, if_neg fun hkey => hrest.2 hkey.1]

theorem reads_key {more b rest : Text} (hc : isWordStart u c) (hmore : more.all (isWordChar u))
    (hkey : c :: more ∉ literals) (hb : Blank b) :
  Reads (requoteTurn u) () (c :: (more ++ (b ++ ':' :: rest))) (b ++ ':' :: rest) ()
    ('"' :: c :: more ++ ['"'])
  := by
  have hhead : (b ++ ':' :: rest).head?.any (isWordChar u) = false := by
    cases b with
    | nil => exact not_isWordChar (by decide) (by decide)
    | cons d b => exact (space_facts (hb d List.mem_cons_self)).2.2.2
  have hcolon : ((b ++ ':' :: rest).dropWhile isWhitespace).head? = some ':' := by
    rw [List.dropWhile_append_of_pos fun d hd => isWhitespace_of_isSpace (hb d hd)]
    rfl
  apply Reads.skipping (k := more.length) more _ rfl
  rw [requoteTurn_word hc hmore hhead, if_pos ⟨hcolon, hkey⟩]

theorem reads_string {s t v : Text} (h : LooseString s t v) (rest : Text) :
  Reads (requoteTurn u) () (t ++ rest) rest () v
  := by
  cases h with
  | @double b body =>
    have hcopy := copyDouble_units body.units rest
    have hturn : requoteTurn u () '"' ((b ++ ['"']) ++ rest)
        = .next () ('"' :: b ++ ['"']) (b ++ ['"']).length := by
      rw [List.append_assoc, List.singleton_append, requoteTurn, if_neg (by decide), if_pos rfl,
        hcopy, List.length_append]
      rfl
    exact Reads.skipping (b ++ ['"']) hturn rfl
  | @single t v body =>
    have hcopy := copySingle_body body rest
    have hturn : requoteTurn u () '\'' ((t ++ ['\'']) ++ rest)
        = .next () ('"' :: v ++ ['"']) (t ++ ['\'']).length := by
      rw [List.append_assoc, List.singleton_append, requoteTurn, if_pos rfl, hcopy,
        List.length_append]
      rfl
    exact Reads.skipping (t ++ ['\'']) hturn rfl

theorem digit_facts (d : Fin 10) :
  digit d ≠ '"' ∧ digit d ≠ '\'' ∧ isWordStart u (digit d) = false ∧ isWordChar u (digit d) = true
  := by
  have hall : ∀ d : Fin 10, (digit d).toNat < 0x80 ∧ digit d ≠ '"' ∧ digit d ≠ '\''
      ∧ ((digit d).isAlpha || digit d = '_' || digit d = '$') = false
      ∧ ((digit d).isAlpha || (digit d).isDigit || digit d = '_' || digit d = '$'
        || digit d = '.') = true := by
    decide
  obtain ⟨hascii, hdouble, hsingle, hstart, hchar⟩ := hall d
  rw [isWordStart_ascii hascii, isWordChar_ascii hascii]
  exact ⟨hdouble, hsingle, hstart, hchar⟩

theorem reads_digits (ds : List (Fin 10)) (rest : Text) :
  Reads (requoteTurn u) () (ds.map digit ++ rest) rest () (ds.map digit)
  := by
  apply reads_plains
  intro c hc
  obtain ⟨d, -, rfl⟩ := List.mem_map.mp hc
  obtain ⟨hdouble, hsingle, hstart, -⟩ := digit_facts (u := u) d
  exact ⟨hdouble, hsingle, hstart⟩

theorem reads_mark (hc : c ∈ ['-', '+', '.', ',', ':', '[', ']', '\x7b', '\x7d']) (rest : Text) :
  Reads (requoteTurn u) () (c :: rest) rest () [c]
  := by
  have hall : ∀ c ∈ ['-', '+', '.', ',', ':', '[', ']', '\x7b', '\x7d'], c.toNat < 0x80
      ∧ c ≠ '"' ∧ c ≠ '\'' ∧ (c.isAlpha || c = '_' || c = '$') = false :=
    List.all_iff_forall_prop.mp (by decide)
  obtain ⟨hascii, hdouble, hsingle, hstart⟩ := hall c hc
  exact reads_plain rest hdouble hsingle (by rw [isWordStart_ascii hascii, hstart])

theorem reads_exponent (letter : e = 'e' ∨ e = 'E') (plus : Bool) (n : Number)
    (hrest : Ends u rest) :
  Reads (requoteTurn u) () (n.exponentText e plus ++ rest) rest () (n.exponentText e plus)
  := by
  have hstart : isWordStart u e := by
    rcases letter with rfl | rfl
    · rw [isWordStart_ascii (by decide)]
      decide
    · rw [isWordStart_ascii (by decide)]
      decide
  unfold Number.exponentText
  cases n.exponent with
  | none => apply Reads.refl
  | some exponent =>
    obtain ⟨negative, digits⟩ := exponent
    have hdigits : (digits.map digit).all (isWordChar u) := by
      rw [List.all_eq_true]
      intro c hc
      obtain ⟨d, -, rfl⟩ := List.mem_map.mp hc
      exact (digit_facts d).2.2.2
    have hsign {c : Char} (hc : c = '-' ∨ c = '+') :
        Reads (requoteTurn u) () (e :: c :: (digits.map digit ++ rest)) rest ()
          (e :: c :: digits.map digit) := by
      have hends : Ends u (c :: (digits.map digit ++ rest)) := by
        rcases hc with rfl | rfl
        all_goals
          refine ⟨not_isWordChar (by decide) (by decide), ?_⟩
          rintro ⟨⟩
      have hword := @reads_word u _ [] _ hstart rfl hends
      have hmark := reads_mark (u := u) (c := c) (by rcases hc with rfl | rfl <;> decide)
        (digits.map digit ++ rest)
      exact hword.trans (hmark.trans (reads_digits digits rest))
    dsimp only
    split_ifs
    · exact hsign (.inl rfl)
    · exact hsign (.inr rfl)
    · exact reads_word hstart hdigits hrest

theorem reads_number (letter : e = 'e' ∨ e = 'E') (plus : Bool) (n : Number) (hrest : Ends u rest) :
  Reads (requoteTurn u) () (n.textWith e plus ++ rest) rest () (n.textWith e plus)
  := by
  have hsign (rest : Text) : Reads (requoteTurn u) ()
      ((if n.negative then ['-'] else []) ++ rest) rest () (if n.negative then ['-'] else []) := by
    split_ifs
    · exact reads_mark (by decide) rest
    · apply Reads.refl
  have hfraction (rest : Text) : Reads (requoteTurn u) ()
      ((if n.fraction = [] then [] else '.' :: n.fraction.map digit) ++ rest) rest ()
      (if n.fraction = [] then [] else '.' :: n.fraction.map digit) := by
    split_ifs
    · apply Reads.refl
    · exact (reads_mark (by decide) _).trans (reads_digits n.fraction rest)
  unfold Number.textWith
  rw [List.append_assoc, List.append_assoc, List.append_assoc, List.append_assoc, List.append_assoc]
  exact (hsign _).trans ((reads_digits n.digits _).trans ((hfraction _).trans
    (reads_exponent letter plus n hrest)))

theorem reads_looseKey {s t v b : Text} (h : LooseKey u s t v) (hb : Blank b) (rest : Text) :
  Reads (requoteTurn u) () (t ++ (b ++ ':' :: rest)) (b ++ ':' :: rest) () v
  := by
  cases h with
  | string h => exact reads_string h _
  | bare start word key => exact reads_key start word key hb

theorem reads_literal {more rest : Text} (hc : c.isAlpha) (hmore : more.all Char.isAlpha)
    (hrest : Ends u rest) :
  Reads (requoteTurn u) () (c :: more ++ rest) rest () (c :: more)
  := by
  have hascii {d : Char} (hd : d.isAlpha) : d.toNat < 0x80 := by
    rw [isAlpha_iff] at hd
    omega
  apply reads_word _ _ hrest
  · rw [isWordStart_ascii (hascii hc), hc]
    rfl
  · rw [List.all_eq_true] at hmore ⊢
    intro d hd
    rw [isWordChar_ascii (hascii (hmore d hd)), hmore d hd]
    rfl

theorem reads_loose {part : Part} {t strict : Text}
    (h : Renders (LooseKey u) LooseString part t strict) (hrest : Ends u rest) :
  Reads (requoteTurn u) () (t ++ rest) rest () strict
  := by
  induction h generalizing rest with
  | null => exact reads_literal (by decide) (by decide) hrest
  | true => exact reads_literal (by decide) (by decide) hrest
  | false => exact reads_literal (by decide) (by decide) hrest
  | number proper letter => exact reads_number letter _ _ hrest
  | string h => exact reads_string h rest
  | array _ ih =>
    rw [List.append_assoc, List.cons_append]
    exact (reads_mark (by decide) _).trans
      ((ih (ends_cons (by decide) rest)).trans (reads_mark (by decide) rest))
  | object _ ih =>
    rw [List.append_assoc, List.cons_append]
    exact (reads_mark (by decide) _).trans
      ((ih (ends_cons (by decide) rest)).trans (reads_mark (by decide) rest))
  | noItems blank => exact reads_blank blank rest
  | lastItem ha _ hb ih =>
    simp only [List.append_assoc]
    exact (reads_blank ha _).trans ((ih (hrest.blank hb)).trans (reads_blank hb rest))
  | moreItems ha _ hb _ ih ihmore =>
    simp only [List.append_assoc, List.cons_append]
    exact (reads_blank ha _).trans ((ih ((ends_cons (by decide) _).blank hb)).trans
      ((reads_blank hb _).trans ((reads_mark (by decide) _).trans (ihmore hrest))))
  | noFields blank => exact reads_blank blank rest
  | lastField ha hkey hb hc _ hd ih =>
    simp only [List.append_assoc, List.cons_append]
    exact (reads_blank ha _).trans ((reads_looseKey hkey hb _).trans ((reads_blank hb _).trans
      ((reads_mark (by decide) _).trans ((reads_blank hc _).trans
        ((ih (hrest.blank hd)).trans (reads_blank hd rest))))))
  | moreFields ha hkey hb hc _ hd _ ih ihmore =>
    simp only [List.append_assoc, List.cons_append]
    exact (reads_blank ha _).trans ((reads_looseKey hkey hb _).trans ((reads_blank hb _).trans
      ((reads_mark (by decide) _).trans ((reads_blank hc _).trans
        ((ih ((ends_cons (by decide) _).blank hd)).trans ((reads_blank hd _).trans
          ((reads_mark (by decide) _).trans (ihmore hrest))))))))

theorem requote_loose {t strict : Text} (h : Loose u v t strict) :
  requote u t = strict
  := by
  have hreads := reads_loose h ends_nil
  rw [List.append_nil] at hreads
  rw [requote, hreads.loop_done]

/-! ### Object identifiers -/

/-- A constructor begins behind a text that does not end in a name, or where another one might have
begun. -/
def Begins (u : Unicode) (before : Text) : Prop :=
  before.getLast?.any (fun c => u.alphanumeric c || c = '_' || isQuote c) = false
    ∨ ("ObjectId" : Text) <:+ before

/-- The start of a constructor of an object identifier. -/
def HasConstructor (u : Unicode) (t : Text) : Prop :=
  ∃ before blank : Text, Begins u before ∧ (∀ c ∈ blank, isWhitespace c)
    ∧ before ++ ("ObjectId" : Text) ++ blank ++ ['('] <+: t

theorem extractBalanced_ok {s : Text} {r : Text × Text} (h : extractBalanced s = .ok r) :
  ∃ blank rest, (∀ c ∈ blank, isWhitespace c) ∧ s = blank ++ '(' :: rest
  := by
  unfold extractBalanced at h
  split at h
  · rename_i t ht
    refine ⟨s.takeWhile isWhitespace, t, fun c hc => List.mem_takeWhile_imp hc, ?_⟩
    rw [← ht]
    exact List.takeWhile_append_dropWhile.symm
  · cases h

theorem Begins.behind {before more : Text} (h : Begins u more) :
  Begins u (before ++ ("ObjectId" : Text) ++ more)
  := by
  rcases h with hlast | hsuffix
  · cases more with
    | nil =>
      rw [List.append_nil]
      exact .inr (List.suffix_append _ _)
    | cons c more =>
      left
      rw [List.getLast?_append_of_ne_nil _ (List.cons_ne_nil c more)]
      exact hlast
  · exact .inr (hsuffix.trans (List.suffix_append _ _))

theorem rewriteLoop_eq (n : ℕ) (h : ¬HasConstructor u rest) :
  rewriteLoop u n rest = rest
  := by
  induction n generalizing rest with
  | zero => rfl
  | succ n ih =>
    rw [rewriteLoop]
    split
    · rfl
    · rename_i before after hsplit
      have hrest := splitOnceText_eq_some hsplit
      have hafter : ¬HasConstructor u after := by
        rintro ⟨more, blank, hbegins, hblank, hprefix⟩
        apply h
        refine ⟨before ++ ("ObjectId" : Text) ++ more, blank, hbegins.behind, hblank, ?_⟩
        rw [hrest]
        simp only [List.append_assoc, List.prefix_append_right_inj] at hprefix ⊢
        exact hprefix
      dsimp only
      split
      · rename_i inner tail hbalanced
        split_ifs with hident
        · rw [ih hafter, ← hrest]
        · exfalso
          obtain ⟨blank, more, hblank, rfl⟩ := extractBalanced_ok hbalanced
          apply h
          refine ⟨before, blank, .inl (Bool.not_eq_true _ ▸ hident), hblank, more, ?_⟩
          rw [hrest]
          simp
      · rw [ih hafter, ← hrest]

theorem rewriteObjectId_eq {t : Text} (h : ¬HasConstructor u t) :
  rewriteObjectId u t = t
  := rewriteLoop_eq t.length h

/-! ### Normalised texts -/

theorem number_visible (letter : e = 'e' ∨ e = 'E') (plus : Bool) (n : Number) :
  ∀ c ∈ n.textWith e plus, isWhitespace c = false
  := by
  have hdigits : ∀ ds : List (Fin 10), ∀ c ∈ ds.map digit, isWhitespace c = false := by
    intro ds c hc
    obtain ⟨d, -, rfl⟩ := List.mem_map.mp hc
    have hall : ∀ d : Fin 10, isWhitespace (digit d) = false := by decide
    exact hall d
  have hexponent : ∀ c ∈ n.exponentText e plus, isWhitespace c = false := by
    unfold Number.exponentText
    cases n.exponent with
    | none => rintro c ⟨⟩
    | some exponent =>
      intro c hc
      rcases List.mem_cons.mp hc with rfl | hc
      · rcases letter with rfl | rfl
        · rfl
        · rfl
      · rcases List.mem_append.mp hc with hc | hc
        · split_ifs at hc
          · rw [List.mem_singleton.mp hc]
            rfl
          · rw [List.mem_singleton.mp hc]
            rfl
          · cases hc
        · exact hdigits exponent.2 c hc
  intro c hc
  unfold Number.textWith at hc
  simp only [List.mem_append] at hc
  rcases hc with ((hc | hc) | hc) | hc
  · split_ifs at hc
    · rw [List.mem_singleton.mp hc]
      rfl
    · cases hc
  · exact hdigits n.digits c hc
  · split_ifs at hc
    · cases hc
    · rcases List.mem_cons.mp hc with rfl | hc
      · rfl
      · exact hdigits n.fraction c hc
  · exact hexponent c hc

theorem trim_loose {t strict : Text} (h : Loose u v t strict) :
  trim t = t ∧ t ≠ []
  := by
  cases h with
  | null => exact ⟨rfl, by rintro ⟨⟩⟩
  | true => exact ⟨rfl, by rintro ⟨⟩⟩
  | false => exact ⟨rfl, by rintro ⟨⟩⟩
  | @number n e plus proper letter =>
    refine ⟨trim_of_visible (number_visible letter plus n), ?_⟩
    intro hnil
    have hdigits : n.digits.map digit = [] := by
      simp only [Number.textWith, List.append_eq_nil_iff] at hnil
      exact hnil.1.1.2
    exact n.nonempty (List.map_eq_nil_iff.mp hdigits)
  | string h =>
    cases h with
    | @double b => exact ⟨trim_of_ends rfl rfl b, by rintro ⟨⟩⟩
    | @single t => exact ⟨trim_of_ends rfl rfl t, by rintro ⟨⟩⟩
  | @array items t => exact ⟨trim_of_ends rfl rfl t, by rintro ⟨⟩⟩
  | @object fields t => exact ⟨trim_of_ends rfl rfl t, by rintro ⟨⟩⟩

theorem trim_blank (h : Loose u v t strict) (ha : Blank a) (hb : Blank b) :
  trim (a ++ t ++ b) = t
  := by
  rw [trim_append_blank fun c hc => isWhitespace_of_isSpace (hb c hc), trim, trimStart,
    List.dropWhile_append_of_pos fun c hc => isWhitespace_of_isSpace (ha c hc)]
  exact (trim_loose h).1

theorem strictText_eq (h : Loose u v t strict) (ha : Blank a) (hb : Blank b)
    (hfree : ¬HasConstructor u t) :
  strictText u (trim (a ++ t ++ b)) = strict
  := by
  rw [strictText, trim_blank h ha hb, rewriteObjectId_eq hfree, requote_loose h]

theorem normalizeLooseJson_eq {v w : Value} (h : Loose u v t strict) (ha : Blank a) (hb : Blank b)
    (hfree : ¬HasConstructor u t) {fromStr : Reader} (hread : fromStr strict = .ok w) :
  normalizeLooseJson u fromStr (a ++ t ++ b) = .ok w
  := by
  have hne : trim (a ++ t ++ b) ≠ [] := by
    rw [trim_blank h ha hb]
    exact (trim_loose h).2
  rw [normalizeLooseJson, if_neg hne, strictText_eq h ha hb hfree, hread]
  rfl

/-- The normal form of a loose text is a JSON text of its value, which a reader of JSON takes as the
parser does, if no constructor of object identifiers is in it, which is rewritten in strings too. -/
theorem normalizeLooseJson_loose (u : Unicode) {v : Value} {t strict a b : Text}
    (h : Loose u v t strict) (ha : Blank a) (hb : Blank b) (hfree : ¬HasConstructor u t) :
  strictText u (trim (a ++ t ++ b)) = strict ∧ Denotes v strict
    ∧ ∀ fromStr : Reader, fromStr strict = .ok v →
      normalizeLooseJson u fromStr (a ++ t ++ b) = .ok v
  := by
  refine ⟨strictText_eq h ha hb hfree, ?_, ?_⟩
  · exact Renders.second (fun _ _ _ hkey => hkey.exact) (fun _ _ _ hstring => hstring.exact) h
  · exact fun fromStr hread => normalizeLooseJson_eq h ha hb hfree hread

/-- The letters and digits of ASCII. -/
def ascii : Unicode :=
  ⟨Char.isAlpha, Char.isDigit, fun _ _ => rfl, fun _ _ => rfl⟩

/-- A document with one field. -/
def person : Value :=
  .object [("name", .string "a\"b")]

theorem loose_person :
  Loose ascii person "\x7bname: 'a\"b'\x7d" "\x7b\"name\": \"a\\\"b\"\x7d"
  := by
  have hnone : Blank [] := by rintro c ⟨⟩
  have hspace : Blank [' '] := by
    rintro c hc
    rw [List.mem_singleton.mp hc]
    rfl
  have hkey : LooseKey ascii "name" "name" "\"name\"" :=
    .bare (by decide) (by decide) (by decide)
  have hstring : LooseString "a\"b" "'a\"b'" "\"a\\\"b\"" :=
    .single (.plain (by decide) (by decide) (by decide) (by decide) (.double
      (.plain (by decide) (by decide) (by decide) (by decide) .nil)))
  have hfields := Renders.lastField hnone hkey hnone hspace (.string hstring) hnone
  exact .object hfields

theorem normalizeLooseJson_loose_person :
  normalizeLooseJson ascii
      (fun t => if t = ("\x7b\"name\": \"a\\\"b\"\x7d" : Text) then .ok person else .error "?")
      "  \x7bname: 'a\"b'\x7d"
    = .ok person
  := by
  have hnone : Blank [] := by rintro c ⟨⟩
  have hspace : Blank [' ', ' '] := by
    intro c hc
    simp only [List.mem_cons, List.not_mem_nil, or_false, or_self] at hc
    rw [hc]
    rfl
  have hfree : ¬HasConstructor ascii "\x7bname: 'a\"b'\x7d" := by
    rintro ⟨before, blank, -, -, hprefix⟩
    have hmem : '(' ∈ ("\x7bname: 'a\"b'\x7d" : Text) := hprefix.subset (by simp)
    exact absurd hmem (by decide)
  apply (normalizeLooseJson_loose ascii loose_person hspace hnone hfree).2.2
  rfl

/-- A string that mentions a constructor. -/
def mention : Text :=
  "x ObjectId(1)"

/-- It is rewritten, and what comes out is no JSON text of the string. -/
theorem mention_rewritten :
  Loose ascii (.string mention) (quote mention) (quote mention)
    ∧ strictText ascii (quote mention) = "\"x \x7b\"$oid\":\"1\"\x7d\""
    ∧ ¬Denotes (.string mention) (strictText ascii (quote mention))
  := by
  have hstrict : strictText ascii (quote mention) = "\"x \x7b\"$oid\":\"1\"\x7d\"" := by
    decide +kernel
  refine ⟨?_, hstrict, ?_⟩
  · obtain ⟨-, b, hbody, hquote⟩ := exact_quote mention
    rw [hquote]
    exact .string (.double hbody)
  · rw [hstrict]
    intro hdenotes
    generalize hT : ("\"x \x7b\"$oid\":\"1\"\x7d\"" : Text) = T at hdenotes
    cases hdenotes with
    | string h =>
      obtain ⟨-, b, hbody, rfl⟩ := h
      have hb : b = "x \x7b\"$oid\":\"1\"\x7d" := by
        have hinner := congrArg (fun t => t.tail.dropLast) hT
        simpa using hinner.symm
      have hquote : '"' ∉ b := fun hmem =>
        hbody.units.other (by rw [hb]; decide) '"' hmem List.mem_cons_self
      rw [hb] at hquote
      exact absurd hquote (by decide)

end Db.MongoShell
