import Catio.Lib.Lexing
import Catio.Db.Dialect.Quoted

/-!
# The lexical rules of the engines

How the engines cut a text into tokens, in each mode that an engine has: white space, comments,
quoted tokens and words.
-/

namespace Db

open Text Lexing

/-! ### Comments and quoted tokens -/

/-- The number of characters up to the end of a comment, which may have comments in it up to some
depth. -/
def commentEnd (limit : ℕ) : ℕ → Text → ℕ
  | _, [] => 0
  | _, [_] => 1
  | depth, c :: d :: rest =>
      if c = '*' ∧ d = '/' then
        if depth = 0 then 2 else 2 + commentEnd limit (depth - 1) rest
      else if c = '/' ∧ d = '*' ∧ depth < limit then 2 + commentEnd limit (depth + 1) rest
      else 1 + commentEnd limit depth (d :: rest)

/-- The number of characters up to the end of a quoted token. -/
def quotedEnd {β : Type} (q : Quoting β) (body : Text) : ℕ :=
  body.length - ((q.read body).2.getD []).length

/-- The number of characters up to the end of a token that ends with a text. -/
def endOf (close body : Text) : ℕ :=
  match splitOnceText close body with
  | some (before, _) => before.length + close.length
  | none => body.length

/-- A character that is not of ASCII. -/
def isForeign (c : Char) : Bool :=
  0x80 ≤ c.toNat

/-- The number of characters of a token between dollar signs at the start of a text. -/
def dollarToken (text : Text) : Option ℕ :=
  match text with
  | '$' :: rest =>
      let tag := rest.takeWhile fun c => isWordChar c || isForeign c
      if (rest.drop tag.length).head? = some '$' ∧ (tag.head?.map Char.isDigit) ≠ some true then
        let opener := '$' :: tag ++ ['$']
        some (opener.length + endOf opener (text.drop opener.length))
      else none
  | _ => none

/-- The rules of an engine.  A quoted token is given by its opening and the number of characters
behind it. -/
structure SqlRules where
  spaces : List Char
  marks : List Char
  foreign : Bool
  lineComment : Text → Bool
  commentLimit : Text → ℕ
  executed : Text → Option ℕ
  stopsAtNul : Bool
  quotes : List (Text × (Text → ℕ))
  dollar : Bool
  spaces_blank : spaces.all isWhitespace
  line_start : ∀ c rest, c.isAlpha ∨ isWhitespace c → lineComment (c :: rest) = false
  executed_start : ∀ c rest, c ≠ '/' → executed (c :: rest) = none
  quotes_start : (quotes.map Prod.fst).all fun opener => (opener.take 2).any fun c => !c.isAlpha

namespace SqlRules

variable (rules : SqlRules)

/-- The number of characters of a comment at the start of a text. -/
def comment (text : Text) : Option ℕ :=
  if rules.lineComment text then some (text.takeWhile (· ≠ '\n')).length
  else
    match text with
    | '/' :: '*' :: rest => some (2 + commentEnd (rules.commentLimit text) 0 rest)
    | '\x00' :: rest => if rules.stopsAtNul then some (rest.length + 1) else none
    | _ => none

/-- The number of characters of a quoted token at the start of a text. -/
def quoted (text : Text) : Option ℕ :=
  match rules.quotes.find? fun q => q.1.isPrefixOf text with
  | some (opener, length) => some (opener.length + length (text.drop opener.length))
  | none => if rules.dollar then dollarToken text else none

def isWord (c : Char) : Bool :=
  isWordChar c || c ∈ rules.marks || (rules.foreign && isForeign c && c ∉ rules.spaces)

theorem ne_of_isAlpha {c x : Char} (hc : c.isAlpha) (hx : x.isAlpha = false) :
  c ≠ x
  := by
  rintro rfl
  rw [hc] at hx
  cases hx

theorem comment_eq_none {c : Char} (hc : c.isAlpha ∨ isWhitespace c) (rest : Text) :
  rules.comment (c :: rest) = none
  := by
  have hslash : c ≠ '/' := by
    rintro rfl
    exact absurd hc (by decide)
  have hnul : c ≠ '\x00' := by
    rintro rfl
    exact absurd hc (by decide)
  unfold comment
  rw [if_neg (by simp [rules.line_start c rest hc])]
  split <;> simp_all

theorem quoted_eq_none {c d : Char} (hc : c.isAlpha) (hd : d.isAlpha) (rest : Text) :
  rules.quoted (c :: d :: rest) = none
  := by
  have hquotes : rules.quotes.find? (fun q => q.1.isPrefixOf (c :: d :: rest)) = none := by
    rw [List.find?_eq_none]
    intro q hq hprefix
    obtain ⟨x, hx, halpha⟩ := List.any_eq_true.mp
      (List.all_eq_true.mp rules.quotes_start q.1 (List.mem_map_of_mem hq))
    have htwo : x ∈ [c, d] := by
      obtain ⟨t, ht⟩ := List.isPrefixOf_iff_prefix.mp hprefix
      have hmem : x ∈ (q.1 ++ t).take 2 := by
        rw [List.take_append]
        exact List.mem_append_left _ hx
      rwa [ht] at hmem
    rcases List.mem_cons.mp htwo with rfl | hx
    · simp [hc] at halpha
    · rw [List.mem_singleton.mp hx] at halpha
      simp [hd] at halpha
  unfold quoted dollarToken
  rw [hquotes]
  dsimp only
  split
  · split
    · rename_i heq
      exact absurd (List.cons.inj heq).1 (ne_of_isAlpha hc (by decide))
    · rfl
  · rfl

/-- The rules of an engine as a lexicon. -/
def lexicon : Lexicon where
  isSpace c := c ∈ rules.spaces
  isWord := rules.isWord
  comment := rules.comment
  executed := rules.executed
  quoted := rules.quoted
  letter c hc := by
    constructor
    · rw [decide_eq_false_iff_not]
      intro hspace
      have hblank := List.all_eq_true.mp rules.spaces_blank c hspace
      rw [not_isWhitespace_of_isAlpha hc] at hblank
      cases hblank
    · simp [isWord, isWordChar, Char.isAlphanum, hc]
  letters c d rest hc hd :=
    ⟨rules.comment_eq_none (.inl hc) _,
      rules.executed_start c _ (ne_of_isAlpha hc (by decide)), rules.quoted_eq_none hc hd rest⟩
  blank c rest hc _ := by
    refine ⟨rules.comment_eq_none (.inr hc) _, rules.executed_start c _ ?_⟩
    rintro rfl
    exact absurd hc (by decide)

end SqlRules

/-! ### Engines -/

/-- The white space of ASCII. -/
def asciiSpaces : List Char :=
  [' ', '\t', '\n', '\x0b', '\x0c', '\r']

/-- Two dashes, which start a comment up to the end of the line. -/
def dashes (text : Text) : Bool :=
  "--".toList.isPrefixOf text

theorem line_start_dashes (c : Char) (rest : Text) (hc : c.isAlpha ∨ isWhitespace c) :
  dashes (c :: rest) = false
  := by
  have hdash : c ≠ '-' := by
    rintro rfl
    exact absurd hc (by decide)
  simp [dashes, List.isPrefixOf, Ne.symm hdash]

/-- A quoted token without escapes. -/
def plainQuote (opener : Text) (close : Char) : Text × (Text → ℕ) :=
  (opener, quotedEnd (plainIdentifier close))

/-- The modes of a session and the version of a server. -/
structure SqlModes where
  noBackslashEscapes : Bool
  ansiQuotes : Bool
  standardConforming : Bool
  version : ℕ

def mysqlDoubleString (noBackslashEscapes : Bool) : Quoting UInt8 :=
  { mysqlString noBackslashEscapes with close := '"' }

/-- The opening of a comment that MySQL executes, from some version on if it says so. -/
def mysqlExecuted (version : ℕ) (text : Text) : Option ℕ :=
  match text with
  | '/' :: '*' :: '!' :: rest =>
      let digits := (rest.take 6).takeWhile Char.isDigit
      if digits.length < 5 then some 3
      else if Nat.ofDigitChars 10 digits 0 ≤ version then some (3 + digits.length)
      else none
  | _ => none

/-- A comment of MySQL up to the end of the line: white space or the end is behind two dashes. -/
def mysqlLineComment (text : Text) : Bool :=
  match text with
  | '#' :: _ => true
  | ['-', '-'] => true
  | '-' :: '-' :: c :: _ => decide (c.toNat ≤ 0x20 ∨ c.toNat = 0x7F)
  | _ => false

def mysqlRules (modes : SqlModes) : SqlRules where
  spaces := asciiSpaces
  marks := ['$']
  foreign := true
  lineComment := mysqlLineComment
  commentLimit text := if "/*!".toList.isPrefixOf text then 1 else 0
  executed := mysqlExecuted modes.version
  stopsAtNul := false
  quotes := [("'", quotedEnd (mysqlString modes.noBackslashEscapes)), plainQuote "`" '`',
    if modes.ansiQuotes then plainQuote "\"" '"'
    else ("\"", quotedEnd (mysqlDoubleString modes.noBackslashEscapes))]
  dollar := false
  spaces_blank := rfl
  line_start c rest hc := by
    have hhash : c ≠ '#' := by
      rintro rfl
      exact absurd hc (by decide)
    have hdash : c ≠ '-' := by
      rintro rfl
      exact absurd hc (by decide)
    unfold mysqlLineComment
    split <;> simp_all
  executed_start c rest hc := by
    unfold mysqlExecuted
    split <;> simp_all
  quotes_start := by cases modes.ansiQuotes <;> rfl

def postgresRules (modes : SqlModes) : SqlRules where
  spaces := asciiSpaces
  marks := ['$']
  foreign := true
  lineComment := dashes
  commentLimit := List.length
  executed _ := none
  stopsAtNul := true
  quotes := [("'", quotedEnd (postgresString (!modes.standardConforming))),
    ("E'", quotedEnd (postgresString true)), ("e'", quotedEnd (postgresString true)),
    plainQuote "\"" '"']
  dollar := true
  spaces_blank := rfl
  line_start := line_start_dashes
  executed_start _ _ _ := rfl
  quotes_start := rfl

/-- DuckDB reads most white space of Unicode as spaces. -/
def duckdbRules : SqlRules where
  spaces := asciiSpaces ++ ['\u00a0', '\u202f', '\u205f', '\u3000']
    ++ (List.range 11).map fun i => Char.ofNat (0x2000 + i)
  marks := ['$']
  foreign := true
  lineComment := dashes
  commentLimit := List.length
  executed _ := none
  stopsAtNul := true
  quotes := [plainQuote "'" '\'', ("E'", quotedEnd (postgresString true)),
    ("e'", quotedEnd (postgresString true)), plainQuote "\"" '"']
  dollar := true
  spaces_blank := rfl
  line_start := line_start_dashes
  executed_start _ _ _ := rfl
  quotes_start := rfl

def sqliteRules : SqlRules where
  spaces := [' ', '\t', '\n', '\x0c', '\r']
  marks := ['$']
  foreign := true
  lineComment := dashes
  commentLimit _ := 0
  executed _ := none
  stopsAtNul := true
  quotes := [plainQuote "'" '\'', plainQuote "\"" '"', plainQuote "`" '`', ("[", endOf "]")]
  dollar := false
  spaces_blank := rfl
  line_start := line_start_dashes
  executed_start _ _ _ := rfl
  quotes_start := rfl

def sqlserverRules : SqlRules where
  spaces := asciiSpaces
  marks := ['@', '#', '$']
  foreign := true
  lineComment := dashes
  commentLimit := List.length
  executed _ := none
  stopsAtNul := false
  quotes := [plainQuote "'" '\'', plainQuote "\"" '"', plainQuote "[" ']']
  dollar := false
  spaces_blank := rfl
  line_start := line_start_dashes
  executed_start _ _ _ := rfl
  quotes_start := rfl

def clickhouseLineComment (text : Text) : Bool :=
  dashes text || "#!".toList.isPrefixOf text || "# ".toList.isPrefixOf text

def clickhouseRules : SqlRules where
  spaces := asciiSpaces
  marks := ['$']
  foreign := false
  lineComment := clickhouseLineComment
  commentLimit _ := 0
  executed _ := none
  stopsAtNul := false
  quotes := [("'", quotedEnd { clickhouseIdentifier with close := '\'' }),
    ("\"", quotedEnd clickhouseIdentifier),
    ("`", quotedEnd { clickhouseIdentifier with close := '`' })]
  dollar := true
  spaces_blank := rfl
  line_start c rest hc := by
    have hhash : c ≠ '#' := by
      rintro rfl
      exact absurd hc (by decide)
    unfold clickhouseLineComment
    rw [line_start_dashes c rest hc]
    simp [List.isPrefixOf, Ne.symm hhash]
  executed_start _ _ _ := rfl
  quotes_start := rfl

/-- The rules of the standard, for engines that are not known. -/
def standardRules : SqlRules where
  spaces := asciiSpaces
  marks := []
  foreign := true
  lineComment := dashes
  commentLimit := List.length
  executed _ := none
  stopsAtNul := false
  quotes := [plainQuote "'" '\'', plainQuote "\"" '"']
  dollar := false
  spaces_blank := rfl
  line_start := line_start_dashes
  executed_start _ _ _ := rfl
  quotes_start := rfl

def sqlRules (modes : SqlModes) : DatabaseType → SqlRules
  | .mysql => mysqlRules modes
  | .postgres => postgresRules modes
  | .duckdb => duckdbRules
  | .sqlite | .rqlite => sqliteRules
  | .sqlserver => sqlserverRules
  | .clickhouse => clickhouseRules
  | .elasticsearch | .mongodb | .redis | .jdbc => standardRules

end Db
