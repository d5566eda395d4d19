import Catio.Db.Pagination
import Catio.Db.Dialect.Phrases

/-!
# What the gate reads

A quoted name is read as one unit by `shape` if and only if no backslash of it escapes its closing
quote in the reading of the gate (`quotedLength_doubled_iff`): on MySQL the gate takes backslashes
in quoted names for escapes, which they are not.  Everything else is read as it was written, so a
row edit with safe names is accepted as one statement of its kind (`editSql_batchStatement`).
-/

namespace Db

open Scan Text Json

/-! ### Quoted texts -/

/-- No backslash of a quoted text escapes its closing quote: neither a closing quote inside
of the text nor the one at its end. -/
def backslashSafe (close : Char) : Text → Bool
  | [] => true
  | [c] => c ≠ '\\'
  | c :: d :: t =>
      if c = '\\' then d ≠ close && backslashSafe close t else backslashSafe close (d :: t)

theorem backslashSafe_escape (close d : Char) (t : Text) :
  backslashSafe close ('\\' :: d :: t) = (d ≠ close && backslashSafe close t)
  := by
  rw [backslashSafe, if_pos rfl]

theorem backslashSafe_cons_ne {close c : Char} (hc : c ≠ '\\') (t : Text) :
  backslashSafe close (c :: t) = backslashSafe close t
  := by
  cases t with
  | nil => simp [backslashSafe, hc]
  | cons d t => rw [backslashSafe, if_neg hc]

theorem backslashSafe_of_not_mem {close : Char} {t : Text} (h : '\\' ∉ t) :
  backslashSafe close t
  := by
  induction t with
  | nil => rfl
  | cons c t ih =>
    simp only [List.mem_cons, not_or] at h
    rw [backslashSafe_cons_ne (Ne.symm h.1)]
    apply ih h.2

theorem backslashSafe_doubled {close : Char} (hclose : close ≠ '\\') (t : Text) :
  backslashSafe close (replaceChar '\\' ['\\', '\\'] t)
  := by
  induction t with
  | nil => rfl
  | cons c t ih =>
    by_cases hc : c = '\\'
    · subst hc
      have heq : replaceChar '\\' ['\\', '\\'] ('\\' :: t)
          = '\\' :: '\\' :: replaceChar '\\' ['\\', '\\'] t := by
        simp [replaceChar]
      rw [heq, backslashSafe_escape, ih]
      simp [Ne.symm hclose]
    · have heq : replaceChar '\\' ['\\', '\\'] (c :: t)
          = c :: replaceChar '\\' ['\\', '\\'] t := by
        simp [replaceChar, hc]
      rw [heq, backslashSafe_cons_ne hc, ih]

/-- The text with closing quotes doubled. -/
def doubled (close : Char) (t : Text) : Text :=
  replaceChar close [close, close] t

theorem doubled_cons_close (close : Char) (t : Text) :
  doubled close (close :: t) = close :: close :: doubled close t
  := by
  simp [doubled, replaceChar]

theorem doubled_cons_ne {close c : Char} (h : c ≠ close) (t : Text) :
  doubled close (c :: t) = c :: doubled close t
  := by
  simp [doubled, replaceChar, h]

section

variable {escapes : Bool} {close : Char} {rest : Text}

theorem quotedLength_escaped (d : Char) (t : Text) :
  quotedLength true close ('\\' :: d :: t) = (quotedLength true close t).map (· + 2)
  := by
  simp [quotedLength]

theorem quotedLength_pair (hescapes : escapes = true → close ≠ '\\') (t : Text) :
  quotedLength escapes close (close :: close :: t)
    = (quotedLength escapes close t).map (· + 2)
  := by
  have hne : ¬ (escapes = true ∧ close = '\\') := fun h => hescapes h.1 h.2
  rw [quotedLength, if_neg hne, if_pos rfl, if_pos rfl]

theorem quotedLength_close (hescapes : escapes = true → close ≠ '\\')
    (hrest : rest.head? ≠ some close) :
  quotedLength escapes close (close :: rest) = some 1
  := by
  have hne : ¬ (escapes = true ∧ close = '\\') := fun h => hescapes h.1 h.2
  cases rest with
  | nil => rw [quotedLength, if_pos ⟨hne, rfl⟩]
  | cons d rest =>
    have hd : d ≠ close := by simpa using hrest
    rw [quotedLength, if_neg hne, if_pos rfl, if_neg hd]

theorem quotedLength_other {c : Char} (hc : c ≠ close) (hescapes : escapes = true → c ≠ '\\')
    (t : Text) :
  quotedLength escapes close (c :: t) = (quotedLength escapes close t).map (· + 1)
  := by
  have hne : ¬ (escapes = true ∧ c = '\\') := fun h => hescapes h.1 h.2
  cases t with
  | nil => simp [quotedLength, hc]
  | cons d t => rw [quotedLength, if_neg hne, if_neg hc]

end

theorem quotedLength_doubled {escapes : Bool} {close : Char} {rest : Text} (hclose : close ≠ '\\')
    (hrest : rest.head? ≠ some close) :
  ∀ t, (escapes = true → backslashSafe close t) →
    quotedLength escapes close (doubled close t ++ close :: rest)
      = some ((doubled close t).length + 1)
  | [], _ => by
      apply quotedLength_close (fun _ => hclose) hrest
  | c :: t, hsafe => by
      by_cases hc : c = close
      · subst hc
        rw [backslashSafe_cons_ne hclose] at hsafe
        have ih := quotedLength_doubled hclose hrest t hsafe
        rw [doubled_cons_close, List.cons_append, List.cons_append,
          quotedLength_pair fun _ => hclose, ih]
        simp
      · by_cases hbackslash : escapes = true ∧ c = '\\'
        · obtain ⟨rfl, rfl⟩ := hbackslash
          match t, hsafe with
          | [], hsafe => simp [backslashSafe] at hsafe
          | d :: t, hsafe =>
              have hd : d ≠ close ∧ backslashSafe close t := by
                simpa [backslashSafe_escape] using hsafe
              have ih := @quotedLength_doubled true close rest hclose hrest t fun _ => hd.2
              rw [doubled_cons_ne hc, doubled_cons_ne hd.1, List.cons_append, List.cons_append,
                quotedLength_escaped, ih]
              simp
        · have hne : escapes = true → c ≠ '\\' := fun h hc => hbackslash ⟨h, hc⟩
          have ih := quotedLength_doubled hclose hrest t (by
            intro h
            rw [← backslashSafe_cons_ne (hne h)]
            apply hsafe h)
          rw [doubled_cons_ne hc, List.cons_append, quotedLength_other hc hne, ih]
          simp

/-! ### Where the gate stands -/

/-- `shape` has read a text without a terminator: only white space follows the last significant
character. -/
structure ShapeAt (depth : ℕ) (front : Text) (s : ShapeState) : Prop where
  pos : s.pos = front.length
  depth : s.depth = depth
  ended : s.ended = false
  previous : s.previous = front.getLast?
  last_le : s.last ≤ front.length
  blank : ∀ c ∈ front.drop s.last, isWhitespace c

variable {s : ShapeState} {front : Text} {d : ℕ}

theorem ShapeAt.pass (h : ShapeAt d front s) {chars : Text} (hchars : ∀ c ∈ chars, isWhitespace c) :
  ShapeAt d (front ++ chars) (s.pass chars)
  where
    pos := by simp [ShapeState.pass, h.pos]
    depth := h.depth
    ended := h.ended
    previous := by simp [ShapeState.pass, h.previous, List.getLast?_append]
    last_le := by
      have hle := h.last_le
      simp only [ShapeState.pass, List.length_append]
      omega
    blank := by
      intro c hc
      simp only [ShapeState.pass] at hc
      rw [List.drop_append_of_le_length h.last_le] at hc
      rcases List.mem_append.mp hc with hc | hc
      · apply h.blank c hc
      · apply hchars c hc

theorem ShapeAt.take (h : ShapeAt d front s) (chars : Text) :
  ShapeAt d (front ++ chars) (s.take chars)
  where
    pos := by simp [ShapeState.take, ShapeState.pass, h.pos]
    depth := h.depth
    ended := h.ended
    previous := by
      simp [ShapeState.take, ShapeState.pass, h.previous, List.getLast?_append]
    last_le := by simp [ShapeState.take, h.pos]
    blank := by simp [ShapeState.take, h.pos]

theorem ShapeAt.source (h : ShapeAt d front s) :
  trim (front.take s.last) = trim front
  := by
  conv_rhs => rw [← List.take_append_drop s.last front]
  rw [trim_append_blank h.blank]

/-! ### Turns at single characters -/

/-- The characters that are white space or may open a comment or a quoted text or end a
statement. -/
def specialChars : List Char :=
  [' ', '\t', '\n', '\x0c', '\r', '-', '#', '/', ';', '\'', '"', '`', '[', '$']

section

variable {db : DatabaseType} {s : ShapeState} {c : Char} {rest : Text}

theorem shapeTurn_blank (h : isAsciiWhitespace c) :
  shapeTurn db s c rest = passTurn s c rest 0
  := by
  rw [shapeTurn, if_pos h]

theorem shapeTurn_plain (hended : s.ended = false) (h : c ∉ specialChars) :
  shapeTurn db s c rest = plainTurn s c rest
  := by
  simp only [specialChars, List.mem_cons, List.not_mem_nil, or_false, not_or] at h
  obtain ⟨hspace, htab, hnewline, hfeed, hreturn, hminus, hhash, hslash, hsemicolon, hsingle,
    hdouble, hbacktick, hbracket, hdollar⟩ := h
  have hblank : isAsciiWhitespace c = false := by
    simp [isAsciiWhitespace, hspace, htab, hnewline, hfeed, hreturn]
  have hquote : isQuote c = false := by
    simp [isQuote, hsingle, hdouble, hbacktick, hbracket]
  simp [shapeTurn, hblank, opensLineComment, hminus, hhash, hslash, hsemicolon, hended, hquote,
    dollarUnit, hdollar]

/-- A character that stands for itself. -/
def isSymbol (c : Char) : Bool :=
  c ∉ specialChars && !isWordStart c && c != '(' && c != ')'

theorem shapeTurn_symbol (hended : s.ended = false) (h : isSymbol c) :
  shapeTurn db s c rest = takeTurn s c rest 0
  := by
  simp only [isSymbol, Bool.and_eq_true, decide_eq_true_eq, Bool.not_eq_true', bne_iff_ne] at h
  obtain ⟨⟨⟨hplain, hword⟩, hopen⟩, hclose⟩ := h
  rw [shapeTurn_plain hended hplain, plainTurn, if_neg hopen, if_neg hclose, if_neg (by simp [hword])]

theorem shapeTurn_minus (hended : s.ended = false) (h : rest.head? ≠ some '-') :
  shapeTurn db s '-' rest = takeTurn s '-' rest 0
  := by
  simp [shapeTurn, isAsciiWhitespace, opensLineComment, h, hended, isQuote, dollarUnit,
    plainTurn, isWordStart]

theorem not_special_of_isWordStart (h : isWordStart c) :
  c ∉ specialChars
  := by
  have table : ∀ d ∈ specialChars, isWordStart d = false :=
    List.all_iff_forall_prop.mp (by decide)
  intro hmem
  rw [table c hmem] at h
  cases h

theorem shapeTurn_word (hended : s.ended = false) (h : isWordStart c) :
  shapeTurn db s c rest
    = .next (s.take (c :: rest.takeWhile isWordTail))
        [⟨toAsciiUppercase (c :: rest.takeWhile isWordTail), s.depth⟩]
        (rest.takeWhile isWordTail).length
  := by
  have hopen : c ≠ '(' := by
    rintro rfl
    revert h
    decide
  have hclose : c ≠ ')' := by
    rintro rfl
    revert h
    decide
  rw [shapeTurn_plain hended (not_special_of_isWordStart h), plainTurn, if_neg hopen,
    if_neg hclose, if_pos h]

theorem shapeTurn_quote (hended : s.ended = false) (h : isQuote c) :
  shapeTurn db s c rest = quotedTurn db s c rest
  := by
  simp only [isQuote, Bool.or_eq_true, beq_iff_eq] at h
  rcases h with ((rfl | rfl) | rfl) | rfl
  · simp [shapeTurn, isAsciiWhitespace, opensLineComment, hended, isQuote]
  · simp [shapeTurn, isAsciiWhitespace, opensLineComment, hended, isQuote]
  · simp [shapeTurn, isAsciiWhitespace, opensLineComment, hended, isQuote]
  · simp [shapeTurn, isAsciiWhitespace, opensLineComment, hended, isQuote]

end

/-! ### The gate as a reader of phrases -/

section

variable {db : DatabaseType} {d : ℕ} {front t rest : Text} {s : ShapeState} {c : Char}

theorem reads_take (h : shapeTurn db s c (t ++ rest) = takeTurn s c (t ++ rest) t.length) :
  Reads (shapeTurn db) s (c :: (t ++ rest)) rest (s.take (c :: t)) []
  := by
  apply Reads.skipping _ _ rfl
  rw [h, takeTurn, List.take_left]

/-- The gate as a reader of the phrases the program writes. -/
def gateReader (db : DatabaseType) : Reader sqlPunctuation (shapeTurn db) where
  At := ShapeAt
  emits _ := True
  separator := by
    rintro d front s x rest hx hat
    rcases hx with rfl | hx
    · use s.pass [' '], []
      refine ⟨?_, fun _ _ => trivial, hat.pass (List.all_iff_forall_prop.mp (by decide))⟩
      apply Reads.single
      rw [shapeTurn_blank (by decide), passTurn, List.take_zero]
    · have hsymbol : isSymbol x := by
        rcases hx with rfl | rfl | rfl
        · decide
        · decide
        · decide
      use s.take [x], []
      refine ⟨?_, fun _ _ => trivial, hat.take [x]⟩
      apply reads_take (t := [])
      rw [shapeTurn_symbol hat.ended hsymbol]
      rfl
  opener := by
    intro d front s rest hat
    have hat' := hat.take ['(']
    use { s.take ['('] with depth := s.depth + 1 }, []
    refine ⟨?_, fun _ _ => trivial, { hat' with depth := by rw [← hat.depth] }⟩
    apply Reads.single
    rw [sqlPunctuation, shapeTurn_plain hat.ended (by decide), plainTurn, if_pos rfl]
  closer := by
    intro d front s rest hat
    have hat' := hat.take [')']
    have hdepth := hat.depth
    use { s.take [')'] with depth := s.depth - 1 }, []
    refine ⟨?_, fun _ _ => trivial, { hat' with depth := by rw [hdepth]; rfl }⟩
    apply Reads.single
    rw [sqlPunctuation, shapeTurn_plain hat.ended (by decide), plainTurn, if_neg (by decide),
      if_pos rfl, if_neg (by omega)]

theorem reading_of_reads {out : List Word} (hat : ShapeAt d front s)
    (h : Reads (shapeTurn db) s (t ++ rest) rest (s.take t) out) :
  (gateReader db).Reading d front t rest s
  := ⟨s.take t, out, h, fun _ _ => trivial, hat.take t⟩

theorem reading_symbols (hat : ShapeAt d front s) (h : ∀ c ∈ t, isSymbol c) :
  (gateReader db).Reading d front t rest s
  := by
  induction t generalizing front s with
  | nil =>
    have hat' : ShapeAt d (front ++ []) s := by simpa using hat
    exact ⟨s, [], Reads.refl s rest, fun _ _ => trivial, hat'⟩
  | cons c t ih =>
    apply Reader.Reading.cons (e := d)
    · apply reading_of_reads (t := [c]) hat
      apply reads_take (t := [])
      rw [shapeTurn_symbol hat.ended (h c List.mem_cons_self)]
      rfl
    · intro s' hat'
      apply ih hat'
      intro x hx
      apply h x (List.mem_cons_of_mem c hx)

theorem reading_minus (hat : ShapeAt d front s) (h : rest.head? ≠ some '-') :
  (gateReader db).Reading d front ['-'] rest s
  := by
  apply reading_of_reads hat
  apply reads_take (t := [])
  rw [List.nil_append, shapeTurn_minus hat.ended h]
  rfl

theorem reading_word (hat : ShapeAt d front s) (hc : isWordStart c) (ht : ∀ x ∈ t, isWordChar x)
    (hrest : ∀ x ∈ rest.head?, isWordTail x = false) :
  Reads (shapeTurn db) s (c :: (t ++ rest)) rest (s.take (c :: t))
    [⟨toAsciiUppercase (c :: t), d⟩]
  := by
  have htail : (t ++ rest).takeWhile isWordTail = t := by
    rw [List.takeWhile_append_of_pos]
    · cases rest with
      | nil => simp
      | cons x rest => simp [hrest x rfl]
    · intro x hx
      simp [isWordTail, ht x hx]
  apply Reads.skipping _ _ rfl
  rw [shapeTurn_word hat.ended hc, htail, hat.depth]

theorem reading_quoted (hat : ShapeAt d front s) (hc : isQuote c)
    (hsafe : quoteEscapes db front.getLast? c = true → backslashSafe (closingQuote c) t)
    (hrest : rest.head? ≠ some (closingQuote c)) :
  (gateReader db).Reading d front (c :: (doubled (closingQuote c) t ++ [closingQuote c])) rest s
  := by
  have hclose : closingQuote c ≠ '\\' := by
    simp only [isQuote, Bool.or_eq_true, beq_iff_eq] at hc
    rcases hc with ((rfl | rfl) | rfl) | rfl
    all_goals decide
  apply reading_of_reads hat
  apply reads_take
  rw [shapeTurn_quote hat.ended hc, quotedTurn, hat.previous, List.append_assoc,
    List.singleton_append, quotedLength_doubled hclose hrest t hsafe]
  simp

end

/-! ### The parts of the statements -/

/-- A name whose backslashes the gate does not take for escapes of the closing quote. -/
def gateSafe (db : DatabaseType) (name : Text) : Prop :=
  db = .mysql → backslashSafe '`' name

instance (db : DatabaseType) (name : Text) : Decidable (gateSafe db name) :=
  inferInstanceAs (Decidable (_ → _))

section

variable {db : DatabaseType} {x : Char}

theorem boundary_cases (h : sqlPunctuation.boundary x) :
  isWordTail x = false ∧ isQuote x = false ∧ x ≠ ']' ∧ x ≠ '-' ∧ x ≠ 'e' ∧ x ≠ 'E'
  := by
  rcases h with (rfl | rfl | rfl | rfl) | rfl | rfl
  all_goals decide

theorem scans_word {c : Char} {t : Text} (hc : isWordStart c) (ht : ∀ x ∈ t, isWordChar x) :
  (gateReader db).Scans (c :: t)
  := by
  intro d front rest s hat _ hrest
  apply reading_of_reads hat
  apply reading_word hat hc ht
  intro x hx
  exact (boundary_cases (hrest x hx)).1

theorem scans_quoteIdent {name : Text} (h : gateSafe db name) :
  (gateReader db).Scans (quoteIdent db name)
  := by
  intro d front rest s hat _ hrest
  have next : ∀ q, q = ']' ∨ isQuote q → rest.head? ≠ some q := by
    intro q hq hhead
    obtain ⟨-, hquote, hbracket, -⟩ := boundary_cases (hrest q hhead)
    rcases hq with rfl | hq
    · exact hbracket rfl
    · rw [hquote] at hq
      cases hq
  unfold quoteIdent
  split
  · apply reading_quoted hat (c := '`') (by decide) _ (next '`' (by decide))
    intro _
    apply h rfl
  · apply reading_quoted hat (c := '[') (by decide) _ (next ']' (by decide))
    simp [quoteEscapes]
  · rename_i hmysql _
    apply reading_quoted hat (c := '"') (by decide) _ (next '"' (by decide))
    intro hescapes
    simp [quoteEscapes] at hescapes
    exact absurd hescapes hmysql

theorem digit_cases (n : Fin 10) :
  isSymbol (digit n) ∧ isWordChar (digit n) ∧ digit n ≠ '-'
  := by
  revert n
  decide

theorem symbols_digits (digits : List (Fin 10)) : ∀ c ∈ digits.map digit, isSymbol c
  := by
  intro c hc
  obtain ⟨n, -, rfl⟩ := List.mem_map.mp hc
  exact (digit_cases n).1

theorem word_digits (digits : List (Fin 10)) : ∀ c ∈ digits.map digit, isWordChar c
  := by
  intro c hc
  obtain ⟨n, -, rfl⟩ := List.mem_map.mp hc
  exact (digit_cases n).2.1

theorem scans_number (n : Number) :
  (gateReader db).Scans n.toText
  := by
  intro d front rest s hat _ hrest
  have sign : ∀ front s rest (negative : Bool) (digits : List (Fin 10)),
      ShapeAt d front s → (digits = [] → rest.head? ≠ some '-') →
      (gateReader db).Reading d front
        ((if negative then ['-'] else []) ++ digits.map digit) rest s := by
    intro front s rest negative digits hat hnext
    cases negative with
    | false => apply reading_symbols hat (symbols_digits digits)
    | true =>
      apply Reader.Reading.trans (e := d)
      · apply reading_minus hat
        cases digits with
        | nil => apply hnext rfl
        | cons n digits => simpa using (digit_cases n).2.2
      · intro s' hat'
        apply reading_symbols hat' (symbols_digits digits)
  have minus : ∀ {rest : Text}, (∀ x ∈ rest.head?, sqlPunctuation.boundary x) →
      rest.head? ≠ some '-' := by
    intro rest hrest hhead
    exact (boundary_cases (hrest '-' hhead)).2.2.2.1 rfl
  have exponent : ∀ front s (negative : Bool) (digits : List (Fin 10)), ShapeAt d front s →
      (gateReader db).Reading d front
        ('e' :: (if negative then ['-'] else []) ++ digits.map digit) rest s := by
    intro front s negative digits hat
    cases negative with
    | false =>
      apply reading_of_reads (t := 'e' :: digits.map digit) hat
      apply reading_word hat (by decide) (word_digits digits)
      intro x hx
      exact (boundary_cases (hrest x hx)).1
    | true =>
      apply Reader.Reading.cons (e := d) (u := '-' :: digits.map digit)
      · apply reading_of_reads (t := ['e']) hat
        apply reading_word (t := []) hat (by decide) (by simp)
        simp only [List.head?_cons, Option.mem_def, Option.some.injEq]
        rintro x rfl
        decide
      · intro s' hat'
        apply sign _ _ _ true digits hat'
        intro _
        apply minus hrest
  have fraction : ∀ front s rest, ShapeAt d front s → (gateReader db).Reading d front
      (if n.fraction = [] then [] else '.' :: n.fraction.map digit) rest s := by
    intro front s rest hat
    apply reading_symbols hat
    split
    · simp
    · intro c hc
      rcases List.mem_cons.mp hc with rfl | hc
      · decide
      · apply symbols_digits _ c hc
  rw [Number.toText]
  apply Reader.Reading.trans (e := d)
  · apply Reader.Reading.trans (e := d)
    · apply sign _ _ _ n.negative n.digits hat
      intro hempty
      exact absurd hempty n.nonempty
    · intro s' hat'
      apply fraction _ _ _ hat'
  · intro s' hat'
    cases n.exponent with
    | none => apply reading_symbols hat' (by simp)
    | some e => apply exponent _ _ _ _ hat'

theorem scans_bytes {hex : Text} (h : ∀ c ∈ hex, isHexDigit c) :
  (gateReader db).Scans ("0x" ++ hex)
  := by
  intro d front rest s hat _ hrest
  have hword : ∀ c ∈ hex, isWordChar c := by
    intro c hc
    apply isWordChar_of_isHexDigit (h c hc)
  apply Reader.Reading.trans (e := d) (t := ['0']) (u := 'x' :: hex)
  · apply reading_symbols hat (List.all_iff_forall_prop.mp (by decide))
  · intro s' hat'
    apply reading_of_reads hat'
    apply reading_word hat' (by decide) hword
    intro x hx
    exact (boundary_cases (hrest x hx)).1

theorem reading_letter {c : Char} {d : ℕ} {front rest : Text} {s : ShapeState}
    (hat : ShapeAt d front s) (hc : isWordStart c) (hrest : rest.head? = some '\'') :
  (gateReader db).Reading d front [c] rest s
  := by
  apply reading_of_reads hat
  apply reading_word (t := []) hat hc (by simp)
  rw [hrest]
  rintro x hx
  cases hx
  decide

theorem scans_string {p t : Text} (hp : p = [] ∨ p = ['N'] ∨ p = ['X'])
    (ht : db = .mysql → '\\' ∉ t) :
  (gateReader db).Scans (p ++ quoteLiteral t)
  := by
  intro d front rest s hat hfront hrest
  have literal : ∀ front s, ShapeAt d front s → (∀ c ∈ front.getLast?, c ≠ 'e' ∧ c ≠ 'E') →
      (gateReader db).Reading d front (quoteLiteral t) rest s := by
    intro front s hat hprevious
    apply reading_quoted hat (c := '\'') (by decide)
    · intro hescapes
      simp only [quoteEscapes, decide_eq_true_eq] at hescapes
      rcases hescapes with hmysql | ⟨-, -, he | he⟩
      · apply backslashSafe_of_not_mem (ht hmysql)
      · exact absurd rfl (hprevious 'e' he).1
      · exact absurd rfl (hprevious 'E' he).2
    · intro hhead
      have hquote := (boundary_cases (hrest _ hhead)).2.1
      revert hquote
      decide
  have letter : ∀ c, isWordStart c → c ≠ 'e' ∧ c ≠ 'E' →
      (gateReader db).Reading d front ([c] ++ quoteLiteral t) rest s := by
    intro c hc hne
    apply Reader.Reading.trans (e := d)
    · apply reading_letter hat hc rfl
    · intro s' hat'
      apply literal _ _ hat'
      rw [List.getLast?_concat]
      rintro x hx
      cases hx
      exact hne
  rcases hp with rfl | rfl | rfl
  · apply literal _ _ hat
    intro c hc
    exact (boundary_cases (hfront c hc)).2.2.2.2
  · apply letter 'N' (by decide) (by decide)
  · apply letter 'X' (by decide) (by decide)

theorem scans_escaped (t : Text) :
  (gateReader db).Scans ('E' :: quoteLiteral (replaceChar '\\' ['\\', '\\'] t))
  := by
  intro d front rest s hat hfront hrest
  apply Reader.Reading.trans (e := d) (t := ['E'])
  · apply reading_letter hat (by decide) rfl
  · intro s' hat'
    apply reading_quoted hat' (c := '\'') (by decide)
    · intro _
      apply backslashSafe_doubled (by decide)
    · intro hhead
      have hquote := (boundary_cases (hrest _ hhead)).2.1
      revert hquote
      decide

theorem scans_sqlAtom {t : Text} (h : SqlAtom db (gateSafe db) t) :
  (gateReader db).Scans t
  := by
  cases h with
  | word hc ht => apply scans_word hc ht
  | number n => apply scans_number
  | bytes h => apply scans_bytes h
  | name h => apply scans_quoteIdent h
  | string hp hs => apply scans_string hp hs
  | escaped s _ => apply scans_escaped

end

/-! ### Statements -/

section

variable {db : DatabaseType} {body : Text} {s : ShapeState} {out : List Word}

theorem shape_of_reads (h : Reads (shapeTurn db) {} body [] s out) (hat : ShapeAt 0 body s)
    (hout : out ≠ []) :
  shape db body = .ok (trim body, out)
  := by
  have hloop := h.loop_done Except.ok
  rw [shape, hloop]
  simp [hat.depth, hat.source, hout]

theorem shape_of_reads_terminator (h : Reads (shapeTurn db) {} (body ++ [';']) [';'] s out)
    (hat : ShapeAt 0 body s) (hout : out ≠ []) :
  shape db (body ++ [';']) = .ok (trim body, out)
  := by
  have terminator : Reads (shapeTurn db) s [';'] [] { s.pass [';'] with ended := true } [] := by
    apply Reads.single
    have hdepth := hat.depth
    simp [shapeTurn, isAsciiWhitespace, opensLineComment, hdepth]
  have hloop := (h.trans terminator).loop_done Except.ok
  have htake : (body ++ [';']).take s.last = body.take s.last :=
    List.take_append_of_le_length hat.last_le
  rw [shape, hloop]
  simp [ShapeState.pass, hat.depth, hout, htake, hat.source]

end

section

variable {db : DatabaseType} (c : Char) (kind : Text)

theorem reads_kind (hc : isWordStart c) (hkind : ∀ x ∈ kind, isWordChar x) (rest : Text) :
  ∃ s out, Reads (shapeTurn db) {} (c :: (kind ++ ' ' :: rest)) rest s
      (⟨toAsciiUppercase (c :: kind), 0⟩ :: out)
    ∧ ShapeAt 0 (c :: (kind ++ [' '])) s
  := by
  have start : ShapeAt 0 [] {} := ⟨rfl, rfl, rfl, rfl, Nat.le_refl 0, by simp⟩
  have first : Reads (shapeTurn db) {} (c :: (kind ++ ' ' :: rest)) (' ' :: rest)
      (ShapeState.take {} (c :: kind)) [⟨toAsciiUppercase (c :: kind), 0⟩] := by
    apply reading_word start hc hkind
    rintro x hx
    cases hx
    decide
  obtain ⟨s, out, hreads, -, hat⟩ :=
    (gateReader db).separator (x := ' ') (by decide) (start.take (c :: kind))
  exact ⟨s, out, first.trans hreads, hat⟩

theorem shape_phrase {rest : Text} (hc : isWordStart c) (hkind : ∀ x ∈ kind, isWordChar x)
    (hrest : SqlPhrase db (gateSafe db) rest) :
  ∃ words, shape db (c :: (kind ++ ' ' :: rest))
    = .ok (trim (c :: (kind ++ ' ' :: rest)), ⟨toAsciiUppercase (c :: kind), 0⟩ :: words)
  := by
  obtain ⟨s₁, out₁, hreads₁, hat₁⟩ := @reads_kind db c kind hc hkind rest
  obtain ⟨s₂, out₂, hreads₂, -, hat₂⟩ :=
    (gateReader db).scans_phrase (fun _ h => scans_sqlAtom h) hrest 0 _ [] s₁ hat₁
      (by
        rw [← List.cons_append, List.getLast?_concat]
        simp [Punctuation.boundary, sqlPunctuation])
      (by simp)
  rw [List.append_nil] at hreads₂
  have hfront : c :: (kind ++ [' ']) ++ rest = c :: (kind ++ ' ' :: rest) := by simp
  rw [hfront] at hat₂
  exact ⟨out₁ ++ out₂, shape_of_reads (hreads₁.trans hreads₂) hat₂ (by simp)⟩

theorem shape_call {t u : Text} (hc : isWordStart c) (hkind : ∀ x ∈ kind, isWordChar x)
    (ht : SqlPhrase db (gateSafe db) t) (hu : SqlPhrase db (gateSafe db) u) :
  let body := c :: (kind ++ ' ' :: (t ++ '(' :: (u ++ [')'])))
  ∃ words, shape db (body ++ [';'])
    = .ok (trim body, ⟨toAsciiUppercase (c :: kind), 0⟩ :: words)
  := by
  intro body
  obtain ⟨s₁, out₁, hreads₁, hat₁⟩ :=
    @reads_kind db c kind hc hkind (t ++ '(' :: (u ++ [')']) ++ [';'])
  obtain ⟨s₂, out₂, hreads₂, -, hat₂⟩ :=
    (gateReader db).reading_call (fun _ h => scans_sqlAtom h) ht hu hat₁
      (by
        rw [← List.cons_append, List.getLast?_concat]
        simp [Punctuation.boundary, sqlPunctuation])
      [';']
  have hfront : c :: (kind ++ [' ']) ++ (t ++ '(' :: (u ++ [')'])) = body := by simp [body]
  have hinput : c :: (kind ++ ' ' :: (t ++ '(' :: (u ++ [')']) ++ [';'])) = body ++ [';'] := by
    simp [body]
  have hat : ShapeAt 0 body s₂ := hfront ▸ hat₂
  rw [hinput] at hreads₁
  exact ⟨out₁ ++ out₂, shape_of_reads_terminator (hreads₁.trans hreads₂) hat (by simp)⟩

end

/-! ### Row edits -/

theorem shape_of_editSql {db : DatabaseType} {req : EditRequest} {sql : Text}
    (hsafe : ∀ name ∈ req.names, gateSafe db name) (h : editSql db req = .ok sql) :
  ∃ words, shape db sql = .ok (trim sql, ⟨toAsciiUppercase req.kind, 0⟩ :: words)
  := by
  obtain ⟨hkind, rest, rfl, hphrase⟩ := editSql_phrase hsafe h
  generalize toAsciiUppercase req.kind = kind at hkind
  simp only [List.mem_cons, List.not_mem_nil, or_false] at hkind
  rcases hkind with rfl | rfl | rfl
  · exact shape_phrase 'I' "NSERT" (by decide) (List.all_iff_forall_prop.mp (by decide))
      hphrase
  · exact shape_phrase 'U' "PDATE" (by decide) (List.all_iff_forall_prop.mp (by decide))
      hphrase
  · exact shape_phrase 'D' "ELETE" (by decide) (List.all_iff_forall_prop.mp (by decide))
      hphrase

theorem batchStatement_of_editSql {db : DatabaseType} {req : EditRequest} {sql : Text}
    (hsafe : ∀ name ∈ req.names, gateSafe db name) (h : editSql db req = .ok sql) :
  batchStatement db sql = .ok (trim sql ++ [';'])
  := by
  obtain ⟨words, hshape⟩ := shape_of_editSql hsafe h
  obtain ⟨hkind, -⟩ := editSql_phrase hsafe h
  have hfirst : toAsciiUppercase req.kind ∈ batchWords := by
    generalize toAsciiUppercase req.kind = kind at hkind
    revert hkind
    revert kind
    decide
  rw [batchStatement, hshape]
  simp [bind, Except.bind, startsWith, hfirst]

/-- A row edit whose names are safe is accepted as one statement of its kind: the whole
text, with a terminator. -/
theorem editSql_batchStatement {db : DatabaseType} {req : EditRequest} {sql : Text}
    (hsafe : ∀ name ∈ req.names, gateSafe db name) (h : editSql db req = .ok sql) :
  batchStatement db sql = .ok (trim sql ++ [';'])
    ∧ ∃ words, shape db sql = .ok (trim sql, ⟨toAsciiUppercase req.kind, 0⟩ :: words)
  := ⟨batchStatement_of_editSql hsafe h, shape_of_editSql hsafe h⟩

/-- An update with quotes, terminators and comment openers in its names and values. -/
def quotedUpdate : EditRequest where
  schema := none
  table := "a`; DROP"
  kind := "update"
  pk := [("id -- ", .string "'; #")]
  cells := [("c\\x", .string "\\' /*")]
  binaryColumns := []
  binaryPkColumns := none

theorem editSql_batchStatement_quotedUpdate :
  let sql : Text := "UPDATE `a``; DROP` SET `c\\x` = CONVERT(X'5c27202f2a' USING utf8mb4) "
    ++ "WHERE `id -- ` = '''; #'"
  batchStatement .mysql sql = .ok (trim sql ++ [';'])
    ∧ ∃ words, shape .mysql sql = .ok (trim sql, ⟨"UPDATE", 0⟩ :: words)
  := @editSql_batchStatement _ quotedUpdate _ (by decide) (by rfl)

/-- A delete from a table whose name ends in a backslash. -/
def backslashDelete : EditRequest where
  schema := none
  table := "t\\"
  kind := "delete"
  pk := [("id", .number ⟨false, [1], Json.one_ne_nil, [], none⟩)]
  cells := []
  binaryColumns := []
  binaryPkColumns := none

/-- On MySQL the gate takes the closing quote of such a table for an escaped one, and rejects
the statement. -/
theorem backslashDelete_rejected :
  editSql .mysql backslashDelete = .ok "DELETE FROM `t\\` WHERE `id` = 1"
    ∧ batchStatement .mysql "DELETE FROM `t\\` WHERE `id` = 1" = .error invalidShape
  := ⟨rfl, rfl⟩

end Db
