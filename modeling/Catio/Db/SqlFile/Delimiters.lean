import Catio.Db.SqlFile.Chunks

/-!
# The DELIMITER law

What is code in a script, and what is a string, a quoted identifier or a comment; and that a
statement between two DELIMITER lines is split off as it is, where the first line sets a delimiter
that the statement does not hold in its code.  The delimiter may hold no semicolon, and be no part
of the word DELIMITER itself.
-/

namespace Db

open Scan Text SqlStatementSplitter

/-! ### Lexical structure -/

/-- What a character is part of. -/
inductive LexMode where
  | code
  | single
  | double
  | backtick
  | line
  | block
  deriving DecidableEq

/-- What the next character is part of, whether an odd number of backslashes is before it, and the
last character. -/
structure LexState where
  mode : LexMode := .code
  escaped : Bool := false
  last : Option Char := none
  deriving DecidableEq

/-- What a character begins or ends. -/
def lexMode (options : SqlParsingOptions) (l : LexState) (c : Char) (next : Option Char) :
    LexMode :=
  match l.mode with
  | .code =>
      if c = '-' ∧ next = some '-' then .line
      else if options.supportsHashLineComments ∧ c = '#' then .line
      else if c = '/' ∧ next = some '*' then .block
      else if c = '\'' ∧ !l.escaped then .single
      else if c = '"' ∧ !l.escaped then .double
      else if c = '`' then .backtick
      else .code
  | .single => if c = '\'' ∧ !l.escaped then .code else .single
  | .double => if c = '"' ∧ !l.escaped then .code else .double
  | .backtick => if c = '`' then .code else .backtick
  | .line => if c = '\n' then .code else .line
  | .block => if l.last = some '*' ∧ c = '/' then .code else .block

/-- Read a character, with the one behind it. -/
def lexStep (options : SqlParsingOptions) (l : LexState) (c : Char) (next : Option Char) :
    LexState where
  mode := lexMode options l c next
  escaped := options.supportsBackslashEscapes && c = '\\' && !l.escaped
  last := some c

/-- Read a text, with what is behind it. -/
def lex (options : SqlParsingOptions) : LexState → Text → Text → LexState
  | l, [], _ => l
  | l, c :: cs, after => lex options (lexStep options l c (cs ++ after).head?) cs after

/-- A character of a text is code, and so is what follows it. -/
def isCode (options : SqlParsingOptions) (l : LexState) (text after : Text) (i : ℕ) : Bool :=
  (lex options l (text.take i) (text.drop i ++ after)).mode = .code
    && (lex options l (text.take (i + 1)) (text.drop (i + 1) ++ after)).mode = .code

section

variable {options : SqlParsingOptions} {l : LexState} {xs ys after : Text}

theorem lex_append :
  lex options l (xs ++ ys) after = lex options (lex options l xs (ys ++ after)) ys after
  := by
  induction xs generalizing l with
  | nil => rfl
  | cons x xs ih =>
    rw [List.cons_append, lex, lex, ih, List.append_assoc]

theorem lex_concat (c : Char) :
  lex options l (xs ++ [c]) after = lexStep options (lex options l xs (c :: after)) c after.head?
  := lex_append

theorem lex_congr {after' : Text} (h : after'.head? = after.head?) :
  lex options l xs after' = lex options l xs after
  := by
  induction xs generalizing l with
  | nil => rfl
  | cons x xs ih =>
    have hhead : (xs ++ after').head? = (xs ++ after).head? := by
      rw [List.head?_append, List.head?_append, h]
    rw [lex, lex, ih, hhead]

end

/-! ### The splitter on code -/

namespace SqlStatementSplitter

/-- The splitter that has read a text behind the last statement. -/
def reading (options : SqlParsingOptions) (delim : Option Text) (text : Text) (l : LexState) :
    SqlStatementSplitter where
  buffer := text
  inSingleQuote := l.mode = .single
  inDoubleQuote := l.mode = .double
  inBacktick := l.mode = .backtick
  inLineComment := l.mode = .line
  inBlockComment := l.mode = .block
  previous := l.last
  customDelimiter := delim
  options := options

/-- The backslashes at the end of the text are counted. -/
def Counted (options : SqlParsingOptions) (text : Text) (l : LexState) : Prop :=
  l.escaped
    = (options.supportsBackslashEscapes && (text.rtakeWhile (· = '\\')).length % 2 == 1)

/-- Nothing ends at a character of code: no line that is a command, no statement. -/
structure Quiet (options : SqlParsingOptions) (delim : Option Text) (text : Text) (c : Char)
    (rest : Text) : Prop where
  line : c = '\n' → parseDelimiterCommand (trim (lastLine text)) = none
  plain : delim = none → c ≠ ';'
    ∧ ∀ l, (reading options none text l).dollarOpener c rest = none
  custom : ∀ d, delim = some d → ¬ d <:+ text ++ [c]

section

variable {options : SqlParsingOptions} {delim : Option Text} {text : Text} {l : LexState}
  {c : Char} {rest : Text}

theorem Counted.step (h : Counted options text l) (c : Char) (next : Option Char) :
  Counted options (text ++ [c]) (lexStep options l c next)
  := by
  unfold Counted at h ⊢
  unfold lexStep
  dsimp only
  by_cases hc : c = '\\'
  · subst hc
    rw [List.rtakeWhile_concat_pos _ _ _ (by simp), List.length_append, h]
    cases options.supportsBackslashEscapes with
    | false => rfl
    | true =>
      rw [Bool.eq_iff_iff]
      simp
      omega
  · rw [List.rtakeWhile_concat_neg _ _ _ (by simpa using hc)]
    simp [hc]

@[simp]
theorem reading_options :
  (reading options delim text l).options = options
  := rfl

theorem quoteIsEscaped_reading (h : Counted options text l) :
  (reading options delim text l).quoteIsEscaped = l.escaped
  := h.symm

theorem customDelimiterTurn_quiet (h : Quiet options delim text c rest) :
  (reading options delim (text ++ [c]) l).customDelimiterTurn
    = (reading options delim (text ++ [c]) l, [])
  := by
  unfold customDelimiterTurn reading
  dsimp only
  cases hdelim : delim with
  | none => rfl
  | some d =>
    have hno := h.custom d hdelim
    simp [hno]

theorem delimiterLine_quiet (h : Quiet options delim text c rest) (hc : c = '\n') :
  (reading options delim (text ++ [c]) l).delimiterLine = none
  := by
  unfold delimiterLine reading
  dsimp only
  rw [List.dropLast_concat, h.line hc]

theorem quoteTurn_reading {l₁ l₂ : LexState}
    (hmatch : (reading options delim text l).matchChar c
      = (reading options delim (text ++ [c]) l₁, []))
    (hmode : l₁.mode = l₂.mode) (hlast : l₂.last = some c)
    (hcomment : l₂.mode ≠ .line ∧ l₂.mode ≠ .block)
    (hquiet : l₂.mode = .code → Quiet options delim text c rest) :
  (reading options delim text l).quoteTurn c
    = .next (reading options delim (text ++ [c]) l₂) [] 0
  := by
  have hnext : { reading options delim (text ++ [c]) l₁ with previous := some c }
      = reading options delim (text ++ [c]) l₂ := by
    unfold reading
    rw [hmode, hlast]
  unfold quoteTurn
  rw [hmatch]
  dsimp only
  split
  · rename_i hcode
    by_cases hl : l₂.mode = .code
    · have hline : (if c = '\n' then (reading options delim (text ++ [c]) l₁).delimiterLine
          else none) = none := by
        split
        · rename_i hc
          exact delimiterLine_quiet (hquiet hl) hc
        · rfl
      rw [hline, customDelimiterTurn_quiet (hquiet hl)]
      dsimp only
      rw [hnext]
      rfl
    · -- in no quote and in no comment
      have hunquoted := hcode.1
      unfold unquoted reading at hunquoted
      rw [hmode] at hunquoted
      cases hl₂ : l₂.mode with
      | code => exact absurd hl₂ hl
      | single => simp [hl₂] at hunquoted
      | double => simp [hl₂] at hunquoted
      | backtick => simp [hl₂] at hunquoted
      | line => exact absurd hl₂ hcomment.1
      | block => exact absurd hl₂ hcomment.2
  · rw [hnext]

/-- What a character that opens no comment begins or ends. -/
def quoteMode (l : LexState) (c : Char) : LexMode :=
  match l.mode with
  | .code =>
      if c = '\'' ∧ !l.escaped then .single
      else if c = '"' ∧ !l.escaped then .double
      else if c = '`' then .backtick
      else .code
  | .single => if c = '\'' ∧ !l.escaped then .code else .single
  | .double => if c = '"' ∧ !l.escaped then .code else .double
  | .backtick => if c = '`' then .code else .backtick
  | mode => mode

theorem matchChar_reading (hcounted : Counted options text l) (hline : l.mode ≠ .line)
    (hblock : l.mode ≠ .block) (hplain : l.mode = .code → c = ';' → delim ≠ none) :
  (reading options delim text l).matchChar c
    = (reading options delim (text ++ [c]) { l with mode := quoteMode l c }, [])
  := by
  unfold matchChar
  rw [quoteIsEscaped_reading hcounted]
  unfold reading quoteMode unquoted
  obtain rfl | rfl | rfl | rfl | hc : c = '\'' ∨ c = '"' ∨ c = '`' ∨ c = ';'
      ∨ (c ≠ '\'' ∧ c ≠ '"' ∧ c ≠ '`' ∧ c ≠ ';') := by tauto
  · cases hmode : l.mode <;> cases hescaped : l.escaped <;> simp_all
  · cases hmode : l.mode <;> cases hescaped : l.escaped <;> simp_all
  · cases hmode : l.mode <;> simp_all
  · cases hmode : l.mode <;> simp_all
  · simp only [hc, false_and, if_false]
    cases hmode : l.mode <;> simp_all

theorem quoteTurn_next' (hcounted : Counted options text l) (hline : l.mode ≠ .line)
    (hblock : l.mode ≠ .block) (hquiet : quoteMode l c = .code → Quiet options delim text c rest)
    (hmode : lexMode options l c rest.head? = quoteMode l c) :
  (reading options delim text l).quoteTurn c
    = .next (reading options delim (text ++ [c]) (lexStep options l c rest.head?)) [] 0
  := by
  have hmode' : (lexStep options l c rest.head?).mode = quoteMode l c := hmode
  apply quoteTurn_reading
  · apply matchChar_reading hcounted hline hblock
    rintro hcode rfl hdelim
    have hquote : quoteMode l ';' = .code := by
      simp [quoteMode, hcode]
    exact ((hquiet hquote).plain hdelim).1 rfl
  · exact hmode'.symm
  · rfl
  · rw [hmode']
    unfold quoteMode
    cases hl : l.mode <;> simp_all <;> split_ifs <;> simp
  · intro hcode
    rw [hmode'] at hcode
    apply hquiet hcode

theorem processChar_reading (hcounted : Counted options text l)
    (hquiet : lexMode options l c rest.head? = .code → l.mode ≠ .line → l.mode ≠ .block →
      Quiet options delim text c rest) :
  processChar true (reading options delim text l) c rest
    = .next (reading options delim (text ++ [c]) (lexStep options l c rest.head?)) [] 0
  := by
  have hquoted : l.mode = .single ∨ l.mode = .double ∨ l.mode = .backtick →
      processChar true (reading options delim text l) c rest
        = .next (reading options delim (text ++ [c]) (lexStep options l c rest.head?)) [] 0 := by
    intro hmode
    have hline : l.mode ≠ .line := by rintro h; simp [h] at hmode
    have hblock : l.mode ≠ .block := by rintro h; simp [h] at hmode
    have hcode : l.mode ≠ .code := by rintro h; simp [h] at hmode
    have hlex : lexMode options l c rest.head? = quoteMode l c := by
      unfold lexMode quoteMode
      cases hl : l.mode <;> simp_all
    rw [processChar_quoted rfl (by simp [reading, hline]) (by simp [reading, hblock])
      (by unfold unquoted reading; cases hl : l.mode <;> simp_all)]
    apply quoteTurn_next' hcounted hline hblock _ hlex
    intro hquote
    apply hquiet (hlex.trans hquote) hline hblock
  cases hmode : l.mode with
  | line =>
    rw [processChar_line rfl (by simp [reading, hmode])]
    unfold lineCommentTurn
    congr 1
    unfold reading lexStep lexMode push
    simp only [hmode]
    by_cases hc : c = '\n' <;> simp [hc]
  | block =>
    rw [processChar_block rfl (by simp [reading, hmode]) (by simp [reading, hmode])]
    unfold blockCommentTurn
    congr 1
    unfold reading lexStep lexMode push
    simp only [hmode]
    by_cases hc : l.last = some '*' ∧ c = '/' <;> simp [hc]
  | single => exact hquoted (by simp [hmode])
  | double => exact hquoted (by simp [hmode])
  | backtick => exact hquoted (by simp [hmode])
  | code =>
    have hin : InCode (reading options delim text l) := by
      constructor <;> simp [reading, hmode]
    rw [processChar_code hin, if_neg (by simp)]
    unfold openerTurn
    rw [reading_options]
    by_cases hdash : c = '-' ∧ rest.head? = some '-'
    · rw [if_pos hdash, Option.getD_some]
      simp [reading, push, lexStep, lexMode, hmode, hdash]
    by_cases hhash : options.supportsHashLineComments ∧ c = '#'
    · rw [if_neg hdash, if_pos hhash, Option.getD_some]
      simp [reading, push, lexStep, lexMode, hmode, hhash]
    by_cases hslash : c = '/' ∧ rest.head? = some '*'
    · rw [if_neg hdash, if_neg hhash, if_pos hslash, Option.getD_some]
      simp [reading, push, lexStep, lexMode, hmode, hslash]
    · have hlex : lexMode options l c rest.head? = quoteMode l c := by
        unfold lexMode quoteMode
        simp only [hmode, if_neg hdash, if_neg hhash, if_neg hslash]
      have hdollar : (reading options delim text l).dollarOpener c rest = none := by
        cases delim with
        | some d => simp [dollarOpener, reading]
        | none =>
          by_cases hc : c = '$'
          · have hquote : quoteMode l c = .code := by
              simp [quoteMode, hmode, hc]
            apply ((hquiet (hlex.trans hquote) (by simp [hmode]) (by simp [hmode])).plain rfl).2
          · unfold dollarOpener
            rw [dollarQuoteTagAt_of_ne _ hc, ite_self]
      rw [if_neg hdash, if_neg hhash, if_neg hslash, hdollar, Option.map_none, Option.getD_none]
      apply quoteTurn_next' hcounted (by simp [hmode]) (by simp [hmode]) _ hlex
      intro hquote
      apply hquiet (hlex.trans hquote) (by simp [hmode]) (by simp [hmode])

theorem reads_quiet {xs : Text} (after : Text) :
  ∀ {text : Text} {l : LexState}, Counted options text l →
    (∀ ys c zs, xs = ys ++ c :: zs →
      lexMode options (lex options l ys (c :: zs ++ after)) c (zs ++ after).head? = .code →
      (lex options l ys (c :: zs ++ after)).mode ≠ .line →
      (lex options l ys (c :: zs ++ after)).mode ≠ .block →
      Quiet options delim (text ++ ys) c (zs ++ after)) →
    Reads (processChar true) (reading options delim text l) (xs ++ after) after
      (reading options delim (text ++ xs) (lex options l xs after)) []
  := by
  induction xs with
  | nil =>
    intro text l _ _
    rw [List.append_nil]
    apply Reads.refl
  | cons c cs ih =>
    intro text l hcounted hquiet
    have hfirst := @processChar_reading options delim text l c (cs ++ after) hcounted
      (by simpa [lex] using hquiet [] c cs rfl)
    have hrest := ih (hcounted.step c (cs ++ after).head?) (by
      intro ys c' zs hcs
      subst hcs
      simpa [lex] using hquiet (c :: ys) c' zs rfl)
    rw [List.append_assoc, List.singleton_append] at hrest
    exact (Reads.single hfirst).trans hrest

end

end SqlStatementSplitter

/-! ### DELIMITER lines -/

/-- A character opens a string, a quoted identifier or a comment. -/
def opens (c : Char) (next : Option Char) : Bool :=
  c = '\'' || c = '"' || c = '`' || c = '#' || (c = '-' && next = some '-')
    || (c = '/' && next = some '*')

/-- A text opens no string, no quoted identifier and no comment. -/
def opensNone : Text → Bool
  | [] => true
  | c :: cs => !opens c cs.head? && opensNone cs

/-- A delimiter token: not empty, without white space, quotes and comment openers. -/
structure DelimiterToken (delim : Text) : Prop where
  ne_nil : delim ≠ []
  visible : ∀ c ∈ delim, isWhitespace c = false
  opensNone : opensNone delim

/-- A body that holds a statement, no DELIMITER line in code, and in which the delimiter behind it
is the first that ends in code. -/
structure DelimitedBy (options : SqlParsingOptions) (delim body : Text) : Prop where
  closed : (lex options {} body delim).mode = .code
  first : ∀ i < (body ++ delim).length - 1, isCode options {} (body ++ delim) ['\n'] i →
    ¬ delim <:+ (body ++ delim).take (i + 1)
  uncommanded : ∀ i < body.length, body[i]? = some '\n' →
    isCode options {} (body ++ delim) ['\n'] i →
    parseDelimiterCommand (trim (lastLine (body.take i))) = none
  executable : hasExecutableSql (trim body) options

/-- A body between two DELIMITER lines, and what is behind it. -/
def delimited (delim body rest : Text) : Text :=
  ("DELIMITER " : Text) ++ delim ++ "\n" ++ body ++ delim ++ "\nDELIMITER ;\n" ++ rest

section

variable {options : SqlParsingOptions} {delim body rest : Text} {l : LexState}
  {delim' : Option Text}

variable {c : Char}

theorem lexMode_of_not_opens {next : Option Char} (hmode : l.mode = .code)
    (h : opens c next = false) :
  lexMode options l c next = .code
  := by
  unfold lexMode
  rw [hmode]
  grind -linarith [opens]

theorem lex_opensNone {xs after : Text} (h : opensNone (xs ++ after)) (hmode : l.mode = .code) :
  (lex options l xs after).mode = .code
  := by
  induction xs generalizing l with
  | nil => exact hmode
  | cons c cs ih =>
    rw [List.cons_append, opensNone, Bool.and_eq_true, Bool.not_eq_true'] at h
    apply ih h.2
    exact lexMode_of_not_opens hmode h.1

theorem opensNone_newline {xs : Text} (h : opensNone xs) :
  opensNone (xs ++ ['\n'])
  := by
  induction xs with
  | nil => rfl
  | cons c cs ih =>
    rw [opensNone, Bool.and_eq_true] at h
    rw [List.cons_append, opensNone, ih h.2, Bool.and_true]
    cases cs with
    | nil =>
      simp [opens] at h ⊢
      tauto
    | cons c' cs => exact h.1

theorem DelimiterToken.not_mem (h : DelimiterToken delim) (hc : isWhitespace c) :
  c ∉ delim
  := by
  intro hmem
  rw [h.visible c hmem] at hc
  cases hc

theorem openerTurn_reading {text : Text} (hopens : opens c rest.head? = false)
    (hdollar : delim' = none → (reading options none text l).dollarOpener c rest = none) :
  (reading options delim' text l).openerTurn c rest = none
  := by
  have hdollar' : (reading options delim' text l).dollarOpener c rest = none := by
    cases delim' with
    | none => exact hdollar rfl
    | some d => simp [dollarOpener, reading]
  unfold openerTurn
  rw [hdollar']
  grind -linarith [opens]

theorem processChar_command {text d : Text} (hmode : l.mode = .code)
    (hcommand : parseDelimiterCommand (trim (lastLine text)) = some d)
    (hbefore : hasExecutableSql (trim (beforeLastLine text)) options = false) :
  processChar true (reading options delim' text l) '\n' rest
    = .next (reading options (if d = [';'] then none else some d) [] {}) [] 0
  := by
  have hin : InCode (reading options delim' text l) := by
    constructor <;> simp [reading, hmode]
  have hopener : (reading options delim' text l).openerTurn '\n' rest = none := by
    apply openerTurn_reading (by simp [opens])
    rintro rfl
    unfold dollarOpener
    rw [dollarQuoteTagAt_of_ne _ (by decide), ite_self]
  have hmatch : (reading options delim' text l).matchChar '\n'
      = (reading options delim' (text ++ ['\n']) l, []) := by
    simp [matchChar, reading]
  have hline : (reading options delim' (text ++ ['\n']) l).delimiterLine
      = some (reading options (if d = [';'] then none else some d) [] {}, []) := by
    unfold delimiterLine reading
    dsimp only
    rw [List.dropLast_concat, hcommand]
    simp [hbefore, hmode]
  rw [processChar_code hin, if_neg (by simp), hopener, Option.getD_none]
  have hunquoted : (reading options delim' (text ++ ['\n']) l).unquoted = true := by
    simp [unquoted, reading, hmode]
  unfold quoteTurn
  rw [hmatch]
  dsimp only
  rw [if_pos ⟨hunquoted, rfl⟩, if_pos rfl, hline]
  rfl

theorem processChar_delimiter {text : Text} {c : Char} (hmode : l.mode = .code)
    (hopens : opens c rest.head? = false) (hc : c ≠ '\n') (hend : text ++ [c] = body ++ delim)
    (hbody : hasExecutableSql (trim body) options) :
  processChar true (reading options (some delim) text l) c rest
    = .next (reading options (some delim) [] { last := some c }) [trim body] 0
  := by
  have hin : InCode (reading options (some delim) text l) := by
    constructor <;> simp [reading, hmode]
  have hopener : (reading options (some delim) text l).openerTurn c rest = none := by
    apply openerTurn_reading hopens
    rintro ⟨⟩
  have hmatch : (reading options (some delim) text l).matchChar c
      = (reading options (some delim) (text ++ [c]) l, []) := by
    have hquote : c ≠ '\'' ∧ c ≠ '"' ∧ c ≠ '`' := by
      grind -linarith [opens]
    simp [matchChar, reading, hquote]
  have hturn : (reading options (some delim) (text ++ [c]) l).customDelimiterTurn
      = ({ reading options (some delim) [] l with previous := none }, [trim body]) := by
    rw [hend]
    simp [customDelimiterTurn, reading, pushCurrentStatement, dropEnd, hbody, hmode]
  rw [processChar_code hin, if_neg (by simp), hopener, Option.getD_none]
  have hunquoted : (reading options (some delim) (text ++ [c]) l).unquoted = true := by
    simp [unquoted, reading, hmode]
  unfold quoteTurn
  rw [hmatch]
  dsimp only
  rw [if_pos ⟨hunquoted, rfl⟩, if_neg hc, hturn]
  simp [reading, hmode]

theorem parseDelimiterCommand_line (htoken : DelimiterToken delim) :
  parseDelimiterCommand (trim (("DELIMITER " : Text) ++ delim)) = some delim
  := by
  obtain ⟨d, z, rfl⟩ := List.eq_nil_or_concat' delim |>.resolve_left htoken.ne_nil
  have hz := htoken.visible z (by simp)
  have htrim : trim (("DELIMITER " : Text) ++ (d ++ [z])) = ("DELIMITER " : Text) ++ (d ++ [z]) :=
    trim_of_ends (by decide) hz ("ELIMITER ".toList ++ d)
  rw [htrim]
  have hdelim : trim (d ++ [z]) = d ++ [z] := trim_of_visible htoken.visible
  have htake : (("DELIMITER " : Text) ++ (d ++ [z])).take 10 = ("DELIMITER " : Text) := rfl
  have hdrop : (("DELIMITER " : Text) ++ (d ++ [z])).drop 10 = d ++ [z] := rfl
  have hword : eqIgnoreAsciiCase ("DELIMITER " : Text) "delimiter " := by
    decide
  have hlength : (("DELIMITER " : Text) ++ (d ++ [z])).length > 10 := by
    simp
  unfold parseDelimiterCommand
  rw [htake, hdrop, if_pos ⟨hlength, Or.inl hword⟩]
  simp [hdelim]

theorem quiet_delimiterLine (htoken : DelimiterToken delim) (hsemi : ';' ∉ delim) {ys zs : Text}
    (h : ("DELIMITER " : Text) ++ delim = ys ++ c :: zs) :
  Quiet options none ys c (zs ++ rest)
  := by
  have hmem : c ∈ ("DELIMITER " : Text) ++ delim := by
    rw [h]
    simp
  have hnewline : '\n' ∉ delim := htoken.not_mem (by decide)
  constructor
  · rintro rfl
    simp [hnewline] at hmem
  · intro _
    constructor
    · rintro rfl
      simp [hsemi] at hmem
    · intro l
      by_cases hc : c = '$'
      · -- a dollar sign is in the delimiter
        obtain ⟨d, rfl, hd⟩ : ∃ d, ys = ("DELIMITER " : Text) ++ d ∧ delim = d ++ c :: zs := by
          obtain ⟨d, hys, hd⟩ | ⟨d, hword, hd⟩ := List.append_eq_append_iff.mp h
          · exact ⟨d, hys, hd⟩
          · cases d with
            | nil => exact ⟨[], by simpa using hword.symm, hd.symm⟩
            | cons c' d =>
              obtain ⟨rfl, -⟩ := List.cons.inj hd
              have hword' : c ∈ ("DELIMITER " : Text) := by
                simp [hword]
              subst hc
              simp at hword'
        have hline : '\n' ∉ ("DELIMITER " : Text) ++ d := by
          rw [hd] at hnewline
          simp at hnewline ⊢
          tauto
        have hcommand : (reading options none (("DELIMITER " : Text) ++ d) l).onDelimiterLine := by
          have hstart : trimStart (("DELIMITER " : Text) ++ d) = ("DELIMITER " : Text) ++ d := rfl
          have htake : (("DELIMITER " : Text) ++ d).take 9 = ("DELIMITER" : Text) := rfl
          have hword : eqIgnoreAsciiCase ("DELIMITER" : Text) "delimiter" := by
            decide
          unfold onDelimiterLine reading
          dsimp only
          rw [lastLine_of_not_mem hline, hstart, htake, hword]
          simp
        rw [dollarOpener, hcommand, if_neg (by simp)]
      · unfold dollarOpener
        rw [dollarQuoteTagAt_of_ne _ hc, ite_self]
  · rintro d ⟨⟩

theorem reads_delimiterLine (htoken : DelimiterToken delim) (hsemi : ';' ∉ delim) :
  Reads (processChar true) (withOptions options)
    (("DELIMITER " : Text) ++ delim ++ '\n' :: rest) rest
    (reading options (some delim) [] {}) []
  := by
  have hword : '\n' ∉ ("DELIMITER " : Text) ++ delim := by
    have hdelim : '\n' ∉ delim := htoken.not_mem (by decide)
    simp [hdelim]
  have hopens : opensNone (("DELIMITER " : Text) ++ delim ++ ['\n']) := by
    apply opensNone_newline
    simpa [opensNone, opens] using htoken.opensNone
  have hmode : (lex options {} (("DELIMITER " : Text) ++ delim) ('\n' :: rest)).mode = .code := by
    rw [@lex_congr options {} _ ['\n'] ('\n' :: rest) rfl]
    apply lex_opensNone hopens rfl
  have hline := @reads_quiet options none (("DELIMITER " : Text) ++ delim) ('\n' :: rest) [] {}
    (by simp [Counted]) fun ys c zs hxs _ _ _ => quiet_delimiterLine htoken hsemi hxs
  have hcommand := parseDelimiterCommand_line htoken
  have hlast := lastLine_of_not_mem hword
  have hbefore := beforeLastLine_of_not_mem hword
  have hend := @processChar_command options rest _ none _ delim hmode (by rw [hlast, hcommand])
    (by rw [hbefore]; rfl)
  rw [if_neg (by rintro rfl; simp at hsemi)] at hend
  exact hline.trans (Reads.single hend)

theorem take_length_succ (ys zs : Text) (c : Char) :
  (ys ++ c :: zs).take (ys.length + 1) = ys ++ [c]
  := by
  rw [List.append_cons]
  apply List.take_left'
  rw [List.length_append, List.length_singleton]

theorem isCode_at (ys zs after : Text) (c : Char) :
  isCode options l (ys ++ c :: zs) after ys.length
    = ((lex options l ys (c :: zs ++ after)).mode = .code
      && lexMode options (lex options l ys (c :: zs ++ after)) c (zs ++ after).head? = .code)
  := by
  have hdrop : (ys ++ c :: zs).drop (ys.length + 1) = zs := by
    simp [List.drop_append]
  unfold isCode
  rw [take_length_succ, hdrop, List.take_left, List.drop_left, lex_concat]
  rfl

theorem opens_of_opensNone {xs ys : Text} (h : opensNone (xs ++ c :: ys)) :
  opens c ys.head? = false
  := by
  induction xs with
  | nil =>
    rw [List.nil_append, opensNone, Bool.and_eq_true] at h
    simpa using h.1
  | cons x xs ih =>
    rw [List.cons_append, opensNone, Bool.and_eq_true] at h
    apply ih h.2

theorem not_quote_of_opensNone {xs : Text} (h : opensNone xs) (hc : c ∈ xs) :
  c ≠ '\'' ∧ c ≠ '"' ∧ c ≠ '`'
  := by
  induction xs with
  | nil => cases hc
  | cons x xs ih =>
    rw [opensNone, Bool.and_eq_true] at h
    obtain rfl | hc := List.mem_cons.mp hc
    · grind -linarith [opens]
    · apply ih h.2 hc

theorem mem_of_suffix_concat {ys : Text} (hne : delim ≠ []) (h : delim <:+ ys ++ [c]) :
  c ∈ delim
  := by
  obtain ⟨d, z, rfl⟩ := List.eq_nil_or_concat' delim |>.resolve_left hne
  obtain ⟨us, hus⟩ := h
  rw [← List.append_assoc] at hus
  obtain ⟨-, hz⟩ := List.append_inj' hus rfl
  rw [hz]
  simp

theorem quiet_body (htoken : DelimiterToken delim) (hbody : DelimitedBy options delim body)
    {d ys zs : Text} {z c : Char} (hdelim : delim = d ++ [z]) (h : body ++ d = ys ++ c :: zs)
    {after : Text} (hcode : lexMode options (lex options {} ys (c :: zs ++ z :: '\n' :: after)) c
      (zs ++ z :: '\n' :: after).head? = .code)
    (hline : (lex options {} ys (c :: zs ++ z :: '\n' :: after)).mode ≠ .line)
    (hblock : (lex options {} ys (c :: zs ++ z :: '\n' :: after)).mode ≠ .block) :
  Quiet options (some delim) ys c (zs ++ z :: '\n' :: after)
  := by
  have hwhole : body ++ delim = ys ++ c :: (zs ++ [z]) := by
    rw [hdelim, ← List.append_assoc, h]
    simp
  have hcongr : lex options {} ys (c :: (zs ++ [z]) ++ ['\n'])
      = lex options {} ys (c :: zs ++ z :: '\n' :: after) := lex_congr rfl
  have hhead : (zs ++ [z] ++ ['\n']).head? = (zs ++ z :: '\n' :: after).head? := by
    cases zs <;> rfl
  have hisCode : (lex options {} ys (c :: zs ++ z :: '\n' :: after)).mode = .code →
      isCode options {} (body ++ delim) ['\n'] ys.length := by
    intro hmode
    rw [hwhole, isCode_at, hcongr, hhead, hmode, hcode]
    rfl
  have hquote : (lex options {} ys (c :: zs ++ z :: '\n' :: after)).mode ≠ .code →
      c = '\'' ∨ c = '"' ∨ c = '`' := by
    intro hmode
    grind -linarith [lexMode]
  constructor
  · rintro rfl
    have hmode : (lex options {} ys ('\n' :: zs ++ z :: '\n' :: after)).mode = .code := by
      by_contra hmode
      simpa using hquote hmode
    have hnewline : '\n' ∉ delim := htoken.not_mem (by decide)
    obtain ⟨b, hb⟩ : ∃ b, body = ys ++ '\n' :: b := by
      rw [hdelim] at hnewline
      obtain ⟨b, hys, hb⟩ | ⟨b, hb, hzs⟩ := List.append_eq_append_iff.mp h
      · rw [hb] at hnewline
        simp at hnewline
      · cases b with
        | nil =>
          rw [List.nil_append] at hzs
          rw [← hzs] at hnewline
          simp at hnewline
        | cons x b =>
          obtain ⟨rfl, -⟩ := List.cons.inj hzs
          exact ⟨b, hb⟩
    have hcommand := hbody.uncommanded ys.length (by rw [hb]; simp) (by rw [hb]; simp)
      (hisCode hmode)
    rwa [hb, List.take_left] at hcommand
  · rintro ⟨⟩
  · rintro _ ⟨⟩ hsuffix
    by_cases hmode : (lex options {} ys (c :: zs ++ z :: '\n' :: after)).mode = .code
    · apply hbody.first ys.length (by rw [hwhole]; simp) (hisCode hmode)
      rwa [hwhole, take_length_succ]
    · have hmem := mem_of_suffix_concat htoken.ne_nil hsuffix
      have hother := not_quote_of_opensNone htoken.opensNone hmem
      have hthis := hquote hmode
      tauto

theorem reads_body (htoken : DelimiterToken delim) (hbody : DelimitedBy options delim body) :
  ∃ z, Reads (processChar true) (reading options (some delim) [] {})
    (body ++ delim ++ '\n' :: rest) ('\n' :: rest)
    (reading options (some delim) [] { last := some z }) [trim body]
  := by
  obtain ⟨d, z, hdelim⟩ := List.eq_nil_or_concat' delim |>.resolve_left htoken.ne_nil
  use z
  have hbefore := @reads_quiet options (some delim) (body ++ d) (z :: '\n' :: rest) [] {}
    (by simp [Counted]) fun ys c zs hxs hcode hline hblock =>
      quiet_body htoken hbody hdelim hxs hcode hline hblock
  have hmode : (lex options {} (body ++ d) (z :: '\n' :: rest)).mode = .code := by
    have hcongr : lex options {} body (d ++ z :: '\n' :: rest) = lex options {} body delim := by
      apply lex_congr
      rw [hdelim]
      cases d <;> rfl
    have hclosed := hbody.closed
    rw [lex_append, hcongr, @lex_congr options _ _ [z] (z :: '\n' :: rest) rfl]
    apply lex_opensNone _ hclosed
    rw [← hdelim]
    exact htoken.opensNone
  have hopens : opens z (some '\n') = false := by
    have hnone := opensNone_newline htoken.opensNone
    rw [hdelim, List.append_assoc] at hnone
    exact opens_of_opensNone hnone
  have hz : z ≠ '\n' := by
    rintro rfl
    apply htoken.not_mem (c := '\n') (by decide)
    simp [hdelim]
  have hend := @processChar_delimiter options delim body ('\n' :: rest) _ (body ++ d) z hmode
    hopens hz (by rw [hdelim, List.append_assoc]) hbody.executable
  have hreads := hbefore.trans (Reads.single hend)
  rw [hdelim] at hreads ⊢
  simpa using hreads

theorem quiet_lastDelimiterLine (htoken : DelimiterToken delim) (hsemi : ';' ∉ delim)
    (hword : ¬ delim <:+: ("DELIMITER" : Text)) {ys zs : Text}
    (h : '\n' :: ("DELIMITER ;" : Text) = ys ++ c :: zs) :
  Quiet options (some delim) ys c (zs ++ rest)
  := by
  constructor
  · rintro rfl
    cases ys with
    | nil => decide
    | cons y ys =>
      rw [List.cons_append] at h
      obtain ⟨-, htail⟩ := List.cons.inj h
      have hmem : '\n' ∈ ys ++ '\n' :: zs := by
        simp
      rw [← htail] at hmem
      simp at hmem
  · rintro ⟨⟩
  · rintro _ ⟨⟩ hsuffix
    have hinfix : delim <:+: '\n' :: (("DELIMITER" : Text) ++ [' '] ++ [';']) := by
      apply hsuffix.isInfix.trans
      use [], zs
      rw [List.nil_append, ← List.append_cons, ← h]
      rfl
    have hnewline : '\n' ∉ delim := htoken.not_mem (by decide)
    have hblank : ' ' ∉ delim := htoken.not_mem (by decide)
    obtain hprefix | hinfix := List.infix_cons_iff.mp hinfix
    · obtain ⟨x, d, rfl⟩ := List.exists_cons_of_ne_nil htoken.ne_nil
      obtain ⟨rfl, -⟩ := List.cons_prefix_cons.mp hprefix
      simp at hnewline
    obtain hsuffix | hinfix := List.infix_concat_iff.mp hinfix
    · exact hsemi (mem_of_suffix_concat htoken.ne_nil hsuffix)
    obtain hsuffix | hinfix := List.infix_concat_iff.mp hinfix
    · exact hblank (mem_of_suffix_concat htoken.ne_nil hsuffix)
    exact hword hinfix

theorem reads_lastDelimiterLine (htoken : DelimiterToken delim) (hsemi : ';' ∉ delim)
    (hword : ¬ delim <:+: ("DELIMITER" : Text)) (z : Char) :
  Reads (processChar true) (reading options (some delim) [] { last := some z })
    ('\n' :: ("DELIMITER ;" : Text) ++ '\n' :: rest) rest (withOptions options) []
  := by
  have hline := @reads_quiet options (some delim) ('\n' :: ("DELIMITER ;" : Text)) ('\n' :: rest) []
    { last := some z } (by simp [Counted]) fun ys c zs hxs _ _ _ =>
      quiet_lastDelimiterLine htoken hsemi hword hxs
  have hmode : (lex options { last := some z } ('\n' :: ("DELIMITER ;" : Text)) ('\n' :: rest)).mode
      = .code := by
    rw [@lex_congr options _ _ ['\n'] ('\n' :: rest) rfl]
    apply lex_opensNone (by decide) rfl
  have hend := @processChar_command options rest _ (some delim) ('\n' :: ("DELIMITER ;" : Text))
    [';'] hmode (by decide) (by cases options.supportsHashLineComments <;> rfl)
  exact hline.trans (Reads.single hend)

/-- A body between two DELIMITER lines is split off as it is, if its delimiter holds no semicolon,
is no part of the word DELIMITER, and is first where it ends the body. -/
theorem splitSqlStatementsForDatabase_delimited {dbType : DatabaseType}
    (htoken : DelimiterToken delim) (hbody : DelimitedBy (.forDatabaseType dbType) delim body)
    (hsemi : ';' ∉ delim) (hword : ¬ delim <:+: ("DELIMITER" : Text)) :
  splitSqlStatementsForDatabase (delimited delim body rest) dbType
    = trim body :: splitSqlStatementsForDatabase rest dbType
  := by
  have hparts : delimited delim body rest
      = ("DELIMITER " : Text) ++ delim ++ '\n' :: (body ++ delim
        ++ '\n' :: (("DELIMITER ;" : Text) ++ '\n' :: rest)) := by
    have hopen : ("\n" : Text) = ['\n'] := by
      decide
    have hclose : ("\nDELIMITER ;\n" : Text) = '\n' :: (("DELIMITER ;" : Text) ++ ['\n']) := by
      decide
    unfold delimited
    rw [hopen, hclose]
    simp only [List.append_assoc, List.cons_append, List.nil_append]
  rw [splitSqlStatementsForDatabase_eq, splitSqlStatementsForDatabase_eq, hparts]
  obtain ⟨z, hstatement⟩ := @reads_body _ _ _ (("DELIMITER ;" : Text) ++ '\n' :: rest) htoken hbody
  have hlast := @reads_lastDelimiterLine (.forDatabaseType dbType) delim rest htoken hsemi hword z
  rw [List.cons_append] at hlast
  have hreads := (reads_delimiterLine htoken hsemi).trans (hstatement.trans hlast)
  unfold splitFrom
  rw [hreads.loop_eq]
  rfl

theorem splitSqlStatementsForDatabase_delimited_dollars :
  splitSqlStatementsForDatabase (delimited "$$" "SELECT 1;" "SELECT 2") .mysql
    = ["SELECT 1;", "SELECT 2"]
  := by
  have htoken : DelimiterToken "$$" := by
    constructor
    · decide
    · simp [isWhitespace]
    · decide
  have hbody : DelimitedBy (.forDatabaseType .mysql) "$$" "SELECT 1;" := by
    constructor <;> decide +kernel
  have hword : ¬ ("$$" : Text) <:+: ("DELIMITER" : Text) := by
    intro h
    have hmem : '$' ∈ ("DELIMITER" : Text) := h.subset (by simp)
    simp at hmem
  have hlaw := @splitSqlStatementsForDatabase_delimited "$$" "SELECT 1;" "SELECT 2" .mysql htoken
    hbody (by decide) hword
  rw [hlaw]
  decide +kernel

/-- A delimiter of two semicolons, as the dumps of MySQL have it: its first semicolon ends the
DELIMITER line as a statement. -/
theorem delimited_semicolons :
  DelimiterToken ";;" ∧ DelimitedBy (.forDatabaseType .mysql) ";;" "SELECT 1"
    ∧ splitSqlStatementsForDatabase (delimited ";;" "SELECT 1" []) .mysql
      = ["DELIMITER", "SELECT 1", "DELIMITER"]
    ∧ trim "SELECT 1" :: splitSqlStatementsForDatabase [] .mysql = ["SELECT 1"]
  := by
  refine ⟨?_, ?_, ?_, ?_⟩
  · constructor
    · decide
    · simp [isWhitespace]
    · decide
  · constructor <;> decide +kernel
  · decide +kernel
  · decide +kernel

end

end Db
