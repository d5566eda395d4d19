import Catio.Lib.JavaScript.Literals
import Catio.Lib.RegExp.Dialects

/-!
# Statements of the agent

The model of `services/aiSqlExecutionPolicy.ts`: the risk of a statement by its first word, where an
update is scoped if something like a key is compared behind its first `WHERE`; and what is done with
a text of statements in an environment.
-/

namespace Workbench.AiSqlExecution

open JavaScript Scan RegExp

inductive ConnectionEnvironment where
  | production
  | nonProduction
  | unknown
  deriving DecidableEq

inductive AiSqlExecutionAction where
  | autoExecute
  | confirm
  | block
  deriving DecidableEq

inductive AiSqlExecutionCategory where
  | read
  | lowRiskWrite
  | write
  | schemaChange
  | dangerous
  | unknown
  deriving DecidableEq

structure AiSqlExecutionDecision where
  action : AiSqlExecutionAction
  environment : ConnectionEnvironment
  category : AiSqlExecutionCategory
  reasons : List Text
  deriving DecidableEq

/-! ### Literals and comments -/

/-- The quotes of literals. -/
def isQuote (c : Char) : Bool :=
  c == '\'' || c == '"' || c == '\x60'

/-- The length behind an opening quote up to the end of the literal, as `'(?:[^']|'')*'` has it. Two
quotes are escaped, unless there is no other end. -/
def closedLength (quote : Char) : Text → Option ℕ
  | [] => none
  | [c] => if c = quote then some 1 else none
  | c :: d :: rest =>
      if c = quote then
        if d = quote then ((closedLength quote rest).map (· + 2)).or (some 1) else some 1
      else (closedLength quote (d :: rest)).map (· + 1)

/-- A turn of `maskStringLiterals`. -/
def maskTurn (_ : Unit) (c : Char) (rest : Text) : Turn Unit Char Unit :=
  if isQuote c then
    match closedLength c rest with
    | some n => .next () "'x'" n
    | none => .next () [c] 0
  else .next () [c] 0

/-- Literals are replaced by one without any keywords. -/
def maskStringLiterals (statement : Text) : Text :=
  (loop maskTurn (fun _ => ()) 0 () statement).1

/-- The number of characters behind an opening quote up to the end of the literal, or of the text. -/
def literalLength (quote : Char) : Text → ℕ
  | [] => 0
  | [_] => 1
  | c :: d :: rest =>
      if c = quote then if d = quote then 2 + literalLength quote rest else 1
      else 1 + literalLength quote (d :: rest)

/-- The number of characters up to the end of a comment, or of the text. -/
def commentLength : Text → ℕ
  | [] => 0
  | [_] => 1
  | c :: d :: rest => if c = '*' ∧ d = '/' then 2 else 1 + commentLength (d :: rest)

/-- A turn of `stripAiSqlComments`. -/
def stripTurn (_ : Unit) (c : Char) (rest : Text) : Turn Unit Char Unit :=
  if isQuote c then .next () "'x'" (literalLength c rest)
  else if c = '/' ∧ rest.head? = some '*' then .next () [' '] (1 + commentLength rest.tail)
  else if (c = '-' ∧ rest.head? = some '-') ∨ c = '#' then
    .next () [' '] (rest.takeWhile (· ≠ '\n')).length
  else .next () [c] 0

/-- The text with its literals masked and its comments left out. -/
def stripAiSqlComments (sql : Text) : Text :=
  (loop stripTurn (fun _ => ()) 0 () sql).1

def sqlStatements (sql : Text) : List Text :=
  (((stripAiSqlComments sql).splitOn ';').map trim).filter (· ≠ [])

/-! ### Words -/

/-- `/^(?:…)\b/i`, for words in upper case. -/
def startsWith (words : List Text) (s : Text) : Bool :=
  words.any fun word => Text.toAsciiUppercase (s.take word.length) == word
    && !(s.drop word.length).head?.any Text.isWordChar

/-- `/\b(?:…)\b/i`, behind a character. -/
def contains (words : List Text) : Option Char → Text → Bool
  | _, [] => false
  | previous, c :: rest =>
      (!previous.any Text.isWordChar && startsWith words (c :: rest))
        || contains words (some c) rest

/-- What is behind the first `WHERE`, `/\bWHERE\b([\s\S]*)$/i`, behind a character. -/
def behindWhere : Option Char → Text → Option Text
  | _, [] => none
  | previous, c :: rest =>
      if !previous.any Text.isWordChar && startsWith ["WHERE"] (c :: rest) then some (rest.drop 4)
      else behindWhere (some c) rest

/-- What is behind so many options of `EXPLAIN` at most,
`(?:\([\s\S]*?\)\s*|(?:ANALYZE|VERBOSE|ANALYSE)\b\s*)*`. -/
def behindOptions : ℕ → Text → Text
  | 0, t => t
  | n + 1, t =>
      if t.head? = some '(' ∧ ')' ∈ t then
        behindOptions n (((t.dropWhile (· ≠ ')')).drop 1).dropWhile isBlank)
      else if startsWith ["ANALYZE", "VERBOSE", "ANALYSE"] t then
        behindOptions n ((t.drop 7).dropWhile isBlank)
      else t

/-- The statement that `EXPLAIN` is about. -/
def explained (statement : Text) : Text :=
  trim (behindOptions statement.length ((statement.drop 7).dropWhile isBlank))

/-! ### Scoped updates -/

/-- The dialect of the flag `i`, on characters.  Each of the classes below takes both units of a
character that has two or neither. -/
def caseless : Dialect Char where
  variants c := asciiCases c.toNat
  isSpace := isBlank
  isWord := Text.isWordChar

def spelled (t : Text) : Exp :=
  t.foldr (fun c r => .seq (.letter (.single c)) r) .empty

/-- `\s*`. -/
def blanks : Exp :=
  .star (.letter .blank)

/-- The ranges of `\w`. -/
def wordRanges : List (ℕ × ℕ) :=
  [(48, 57), (65, 90), (95, 95), (97, 122)]

/-- A class of `\w` and some characters. -/
def wordAnd (chars : Text) : CharClass :=
  ⟨false, wordRanges ++ chars.map fun c => (c.toNat, c.toNat), false⟩

/-- `\b…\b`. -/
def bounded (r : Exp) : Exp :=
  .seq .boundary (.seq r .boundary)

/-- `\b1\s*=\s*1\b|\btrue\b`. -/
def tautology : Exp :=
  let one : Exp := .letter (.single '1')
  .alt (bounded (.seq one (.seq blanks (.seq (.letter (.single '=')) (.seq blanks one)))))
    (bounded (spelled "true"))

/-- ``[\w"`.[\]]*``. -/
def nameChars : Exp :=
  .star (.letter (wordAnd "\"\x60.[]"))

/-- `'[^']+'`, for a quote. -/
def quotedValue (quote : Char) : Exp :=
  let inside : Exp := .letter ⟨true, [(quote.toNat, quote.toNat)], false⟩
  .seq (.letter (.single quote)) (.seq inside (.seq (.star inside) (.letter (.single quote))))

/-- ``(?:'[^']+'|"[^"]+"|`[^`]+`|[\w.-]+)``. -/
def comparedValue : Exp :=
  .alt (quotedValue '\'') (.alt (quotedValue '"') (.alt (quotedValue '\x60')
    (.seq (.letter (wordAnd ".-")) (.star (.letter (wordAnd ".-"))))))

/-- `(?:id|_id|uuid|key)`. -/
def keyWords : Exp :=
  .alt (spelled "id") (.alt (spelled "_id") (.alt (spelled "uuid") (spelled "key")))

/-- ``\b[\w"`.[\]]*(?:id|_id|uuid|key)[\w"`.[\]]*\s*=\s*…``. -/
def keyComparison : Exp :=
  .seq .boundary (.seq nameChars (.seq keyWords (.seq nameChars
    (.seq blanks (.seq (.letter (.single '=')) (.seq blanks comparedValue))))))

/-- An update with a `WHERE`, behind which there is no tautology and something like a key is
compared. -/
def isScopedUpdate (statement : Text) : Bool :=
  match behindWhere none (maskStringLiterals statement) with
  | none => false
  | some where_ =>
      if isMatch caseless tautology where_ then false else isMatch caseless keyComparison where_

/-! ### Categories -/

theorem length_behindOptions_le (n : ℕ) (t : Text) :
  (behindOptions n t).length ≤ t.length
  := by
  induction n generalizing t with
  | zero => exact le_rfl
  | succ n ih =>
    rw [behindOptions]
    split
    · refine (ih _).trans ((List.dropWhile_sublist _).length_le.trans ?_)
      exact ((List.drop_sublist _ _).length_le).trans (List.dropWhile_sublist _).length_le
    · split
      · exact (ih _).trans ((List.dropWhile_sublist _).length_le.trans
          (List.drop_sublist _ _).length_le)
      · exact le_rfl

theorem length_explained_lt {statement : Text} (h : startsWith ["EXPLAIN"] statement) :
  (explained statement).length < statement.length
  := by
  have hseven : 7 ≤ statement.length := by
    simp only [startsWith, List.any_cons, List.any_nil, Bool.or_false, Bool.and_eq_true,
      beq_iff_eq] at h
    have hlength := congrArg List.length h.1
    rw [Text.toAsciiUppercase, List.length_map, List.length_take] at hlength
    simp at hlength
    omega
  have hle : (explained statement).length ≤ (statement.drop 7).length :=
    ((trim_sublist _).length_le.trans (length_behindOptions_le _ _)).trans
      (List.dropWhile_sublist _).length_le
  rw [List.length_drop] at hle
  omega

def classifyStatement (statement : Text) : AiSqlExecutionCategory :=
  if _h : startsWith ["EXPLAIN"] statement then
    if explained statement = [] then .read else classifyStatement (explained statement)
  else if startsWith ["SELECT", "WITH", "SHOW", "DESCRIBE", "DESC"] statement then
    if startsWith ["WITH"] statement
        && contains ["INSERT", "UPDATE", "DELETE", "MERGE", "REPLACE"] none
          (maskStringLiterals statement) then
      .dangerous
    else .read
  else if startsWith ["DROP", "TRUNCATE", "ALTER", "RENAME"] statement then .dangerous
  else if startsWith ["CREATE"] statement then .schemaChange
  else if startsWith ["INSERT"] statement then .lowRiskWrite
  else if startsWith ["UPDATE"] statement then
    if isScopedUpdate statement then .lowRiskWrite else .dangerous
  else if startsWith ["DELETE"] statement || startsWith ["MERGE", "REPLACE"] statement then .write
  else .unknown
termination_by statement.length
decreasing_by exact length_explained_lt (by assumption)

/-- What is done with a text of statements. -/
def classifyAiSqlExecution (sql : Text) (environment : ConnectionEnvironment) :
    AiSqlExecutionDecision :=
  let statements := sqlStatements sql
  let categories := statements.map classifyStatement
  let hasMultipleStatements := 1 < statements.length
  let reasons : List Text := if hasMultipleStatements then ["multi_statement"] else []
  if statements = [] then ⟨.block, environment, .unknown, ["empty_sql"]⟩
  else if .dangerous ∈ categories then ⟨.block, environment, .dangerous, reasons⟩
  else if .unknown ∈ categories then ⟨.confirm, environment, .unknown, reasons⟩
  else if ∀ category ∈ categories, category = .read then
    ⟨.autoExecute, environment, .read, reasons⟩
  else if .schemaChange ∈ categories then ⟨.confirm, environment, .schemaChange, reasons⟩
  else if hasMultipleStatements then ⟨.confirm, environment, .write, reasons⟩
  else
    match categories with
    | .lowRiskWrite :: _ =>
        ⟨if environment = .nonProduction then .autoExecute else .confirm, environment,
          .lowRiskWrite, reasons⟩
    | category :: _ => ⟨.confirm, environment, category, reasons⟩
    | [] => ⟨.confirm, environment, .unknown, reasons⟩

end Workbench.AiSqlExecution

/-!
## Statements and pieces

A text is written in pieces: characters, literals and comments, the last of which may be open.  The
statements that are rated are those between the semicolons outside of literals and comments, with
their literals masked, and a text is executed without a question just when all of them are read
only, or one has little risk outside of production (`autoExecutes_iff`).
-/

namespace Workbench.AiSqlExecution

open JavaScript Scan

inductive SqlPiece where
  | plain (c : Char)
  | literal (quote : Char) (body : Text) (closed : Bool)
  | block (body : Text) (closed : Bool)
  | line (opener body : Text)

namespace SqlPiece

def doubled (quote : Char) (body : Text) : Text :=
  body.flatMap fun c => if c = quote then [quote, quote] else [c]

def raw : SqlPiece → Text
  | plain c => [c]
  | literal quote body closed => quote :: (doubled quote body ++ if closed then [quote] else [])
  | block body closed => '/' :: '*' :: (body ++ if closed then ['*', '/'] else [])
  | line opener body => opener ++ body

def masked : SqlPiece → Text
  | plain c => [c]
  | literal _ _ _ => "'x'"
  | block _ _ => [' ']
  | line _ _ => [' ']

/-- The piece ends where it should, in front of what is behind. -/
def Fits (behind : Text) : SqlPiece → Prop
  | plain c => isQuote c = false ∧ c ≠ '#' ∧ ¬ (c = '/' ∧ behind.head? = some '*')
      ∧ ¬ (c = '-' ∧ behind.head? = some '-')
  | literal quote _ closed =>
      isQuote quote ∧ if closed then behind.head? ≠ some quote else behind = []
  | block body closed => ¬ ['*', '/'] <:+: body ∧ (closed = false → behind = [])
  | line opener body => (opener = "--" ∨ opener = "#") ∧ '\n' ∉ body
      ∧ behind.head?.getD '\n' = '\n'

def ends : SqlPiece → Bool
  | plain c => c = ';'
  | _ => false

end SqlPiece

def rawText (ps : List SqlPiece) : Text :=
  ps.flatMap SqlPiece.raw

def maskedText (ps : List SqlPiece) : Text :=
  ps.flatMap SqlPiece.masked

/-- Each piece fits to the ones behind it. -/
def FineText : List SqlPiece → Prop
  | [] => True
  | p :: ps => p.Fits (rawText ps) ∧ FineText ps

def writtenStatements (ps : List SqlPiece) : List Text :=
  ((ps.splitOnP SqlPiece.ends).map fun statement => trim (maskedText statement)).filter (· ≠ [])

/-! ### Texts are written -/

theorem exists_literal (quote : Char) (t : Text) :
  ∃ body, ∃ closed : Bool, ∃ behind,
    t = SqlPiece.doubled quote body ++ (if closed then [quote] else []) ++ behind
      ∧ if closed then behind.head? ≠ some quote else behind = []
  := by
  induction t using literalLength.induct quote with
  | case1 => exact ⟨[], false, [], rfl, rfl⟩
  | case2 c =>
    by_cases hc : c = quote
    · exact ⟨[], true, [], by simp [hc, SqlPiece.doubled], by simp⟩
    · exact ⟨[c], false, [], by simp [hc, SqlPiece.doubled], rfl⟩
  | case3 rest ih =>
    obtain ⟨body, closed, behind, rfl, hbehind⟩ := ih
    exact ⟨quote :: body, closed, behind, by simp [SqlPiece.doubled], hbehind⟩
  | case4 d rest hd =>
    exact ⟨[], true, d :: rest, rfl, by simpa using hd⟩
  | case5 c d rest hc ih =>
    obtain ⟨body, closed, behind, heq, hbehind⟩ := ih
    exact ⟨c :: body, closed, behind, by simp [heq, hc, SqlPiece.doubled], hbehind⟩

theorem exists_block (t : Text) :
  ∃ body, ∃ closed : Bool, ∃ behind, t = body ++ (if closed then ['*', '/'] else []) ++ behind
    ∧ ¬ ['*', '/'] <:+: body ∧ (closed = false → behind = [])
  := by
  induction t with
  | nil => exact ⟨[], false, [], rfl, by decide, fun _ => rfl⟩
  | cons c t ih =>
    by_cases hends : ['*', '/'] <+: c :: t
    · obtain ⟨behind, heq⟩ := hends
      exact ⟨[], true, behind, heq.symm, by decide, nofun⟩
    · obtain ⟨body, closed, behind, rfl, hbody, hbehind⟩ := ih
      refine ⟨c :: body, closed, behind, rfl, fun hin => ?_, hbehind⟩
      rcases List.infix_cons_iff.mp hin with hpre | hin
      · apply hends
        rw [List.append_assoc, ← List.cons_append]
        exact hpre.trans (List.prefix_append _ _)
      · exact hbody hin

theorem exists_line (t : Text) :
  ∃ body behind, t = body ++ behind ∧ '\n' ∉ body ∧ behind.head?.getD '\n' = '\n'
  := by
  refine ⟨t.takeWhile (· ≠ '\n'), t.dropWhile (· ≠ '\n'), List.takeWhile_append_dropWhile.symm,
    fun hmem => by simpa using List.mem_takeWhile_imp hmem, ?_⟩
  have hhead := List.head?_dropWhile_not (· ≠ '\n') t
  cases hd : (t.dropWhile (· ≠ '\n')).head? with
  | none => rfl
  | some d =>
    rw [hd] at hhead
    simpa using hhead

theorem exists_piece (c : Char) (t : Text) :
  ∃ p : SqlPiece, ∃ behind, c :: t = p.raw ++ behind ∧ p.Fits behind ∧ behind.length ≤ t.length
  := by
  by_cases hquote : isQuote c
  · obtain ⟨body, closed, behind, rfl, hbehind⟩ := exists_literal c t
    exact ⟨.literal c body closed, behind, rfl, ⟨hquote, hbehind⟩, by simp; omega⟩
  · by_cases hblock : c = '/' ∧ t.head? = some '*'
    · obtain ⟨rfl, hstar⟩ := hblock
      obtain ⟨t, rfl⟩ := List.head?_eq_some_iff.mp hstar
      obtain ⟨body, closed, behind, rfl, hbody, hbehind⟩ := exists_block t
      exact ⟨.block body closed, behind, rfl, ⟨hbody, hbehind⟩, by simp; omega⟩
    · by_cases hdash : c = '-' ∧ t.head? = some '-'
      · obtain ⟨rfl, hdash⟩ := hdash
        obtain ⟨t, rfl⟩ := List.head?_eq_some_iff.mp hdash
        obtain ⟨body, behind, rfl, hbody, hbehind⟩ := exists_line t
        exact ⟨.line "--" body, behind, rfl, ⟨.inl rfl, hbody, hbehind⟩, by simp; omega⟩
      · by_cases hsharp : c = '#'
        · obtain ⟨body, behind, rfl, hbody, hbehind⟩ := exists_line t
          exact ⟨.line "#" body, behind, by rw [hsharp]; rfl, ⟨.inr rfl, hbody, hbehind⟩, by simp⟩
        · exact ⟨.plain c, t, rfl, ⟨by simpa using hquote, hsharp, hblock, hdash⟩, le_rfl⟩

theorem exists_fineText (sql : Text) :
  ∃ ps, FineText ps ∧ rawText ps = sql
  := by
  induction hn : sql.length using Nat.strong_induction_on generalizing sql with
  | _ n ih =>
    subst hn
    cases sql with
    | nil => exact ⟨[], trivial, rfl⟩
    | cons c t =>
      obtain ⟨p, behind, heq, hfits, hlength⟩ := exists_piece c t
      obtain ⟨ps, hps, rfl⟩ := ih behind.length (Nat.lt_succ_of_le hlength) behind rfl
      exact ⟨p :: ps, ⟨hfits, hps⟩, heq.symm⟩

/-! ### Pieces are read -/

theorem literalLength_doubled (quote : Char) (body t : Text) :
  literalLength quote (SqlPiece.doubled quote body ++ t)
    = (SqlPiece.doubled quote body).length + literalLength quote t
  := by
  induction body with
  | nil => exact (Nat.zero_add _).symm
  | cons c body ih =>
    rw [SqlPiece.doubled, List.flatMap_cons, ← SqlPiece.doubled, List.append_assoc,
      List.length_append, Nat.add_assoc, ← ih]
    by_cases hc : c = quote
    · simp [hc, literalLength]
    · rw [if_neg hc]
      cases SqlPiece.doubled quote body ++ t with
      | nil => rfl
      | cons d rest => simp [literalLength, hc]

theorem commentLength_append {body t : Text} (h : ¬ ['*', '/'] <:+: body)
    (ht : t.head? ≠ some '/') :
  commentLength (body ++ t) = body.length + commentLength t
  := by
  induction body with
  | nil => exact (Nat.zero_add _).symm
  | cons c body ih =>
    have hbody := ih fun hin => h (hin.trans (List.suffix_cons c body).isInfix)
    rw [List.cons_append, List.length_cons]
    cases hcons : body ++ t with
    | nil =>
      rw [List.append_eq_nil_iff.mp hcons |>.1, List.append_eq_nil_iff.mp hcons |>.2]
      rfl
    | cons d rest =>
      have hnot : ¬ (c = '*' ∧ d = '/') := by
        rintro ⟨rfl, rfl⟩
        cases body with
        | nil => exact ht (by rw [← List.nil_append t, hcons]; rfl)
        | cons b body =>
          cases hcons
          exact h ⟨[], body, rfl⟩
      rw [commentLength, if_neg hnot, ← hcons, hbody]
      omega

theorem takeWhile_line {body behind : Text} (hbody : '\n' ∉ body)
    (hbehind : behind.head?.getD '\n' = '\n') :
  (body ++ behind).takeWhile (· ≠ '\n') = body
  := by
  rw [List.takeWhile_append_of_pos]
  · cases behind with
    | nil => simp
    | cons c behind =>
      obtain rfl : c = '\n' := hbehind
      simp
  · intro c hc
    apply decide_eq_true
    rintro rfl
    exact hbody hc

theorem reads_piece {p : SqlPiece} {behind : Text} (h : p.Fits behind) :
  Reads stripTurn () (p.raw ++ behind) behind () p.masked
  := by
  cases p with
  | plain c =>
    obtain ⟨hquote, hsharp, hblock, hline⟩ := h
    apply Reads.single
    simp [stripTurn, hquote, hsharp, hblock, hline, SqlPiece.masked]
  | literal quote body closed =>
    obtain ⟨hquote, hbehind⟩ := h
    rw [SqlPiece.raw, List.cons_append]
    apply Reads.skipping (SqlPiece.doubled quote body ++ if closed then [quote] else [])
    · unfold stripTurn
      rw [if_pos hquote, List.append_assoc, literalLength_doubled]
      rfl
    · cases closed with
      | false =>
        obtain rfl : behind = [] := hbehind
        simp [literalLength]
      | true =>
        cases behind with
        | nil => simp [literalLength]
        | cons d rest =>
          have hd : d ≠ quote := fun heq => hbehind (by rw [heq]; rfl)
          simp [literalLength, hd]
  | block body closed =>
    obtain ⟨hbody, hbehind⟩ := h
    apply Reads.skipping ('*' :: (body ++ if closed then ['*', '/'] else []))
    · unfold stripTurn
      rw [if_neg (by decide), if_pos ⟨rfl, rfl⟩, List.cons_append, List.tail_cons,
        List.append_assoc, commentLength_append hbody]
      · rfl
      · cases closed with
        | false => simp [hbehind rfl]
        | true => simp
    · cases closed with
      | false => simp [hbehind rfl, commentLength, Nat.add_comm]
      | true =>
        simp [commentLength]
        omega
  | line opener body =>
    obtain ⟨hopener, hbody, hbehind⟩ := h
    rcases hopener with rfl | rfl
    · apply Reads.skipping ('-' :: body)
      · unfold stripTurn
        rw [if_neg (by decide), if_neg (by simp), if_pos (.inl ⟨rfl, rfl⟩), List.cons_append,
          List.takeWhile_cons_of_pos (by decide), takeWhile_line hbody hbehind]
        rfl
      · rfl
    · apply Reads.skipping body
      · unfold stripTurn
        rw [if_neg (by decide), if_neg fun hboth => absurd hboth.1 (by decide), if_pos (.inr rfl),
          takeWhile_line hbody hbehind]
        rfl
      · rfl

theorem stripAiSqlComments_rawText {ps : List SqlPiece} (h : FineText ps) :
  stripAiSqlComments (rawText ps) = maskedText ps
  := by
  have hreads : Reads stripTurn () (rawText ps) [] () (maskedText ps) := by
    induction ps with
    | nil => exact .refl () []
    | cons p ps ih =>
      obtain ⟨hp, hps⟩ := h
      exact (reads_piece hp).trans (ih hps)
  rw [stripAiSqlComments, hreads.loop_done]

theorem semicolon_mem_masked {p : SqlPiece} (h : p.ends = false) :
  ';' ∉ p.masked
  := by
  cases p with
  | plain c =>
    intro hmem
    rw [SqlPiece.ends, decide_eq_false_iff_not] at h
    exact h (List.mem_singleton.mp hmem).symm
  | literal quote body closed => exact (by decide : ';' ∉ ("'x'" : Text))
  | block body closed => exact (by decide : ';' ∉ [' '])
  | line opener body => exact (by decide : ';' ∉ [' '])

theorem splitOn_append {c : Char} {xs : Text} (h : c ∉ xs) (t : Text) :
  (xs ++ t).splitOn c = (t.splitOn c).modifyHead (xs ++ ·)
  := by
  induction xs with
  | nil => exact (List.modifyHead_id).symm ▸ rfl
  | cons x xs ih =>
    obtain ⟨hx, hxs⟩ := not_or.mp (mt List.mem_cons.mpr h)
    rw [List.cons_append, List.splitOn_cons_eq_if_modifyHead,
      if_neg fun heq => hx (eq_of_beq heq).symm, ih hxs, List.modifyHead_modifyHead]
    rfl

theorem splitOn_maskedText (ps : List SqlPiece) :
  (maskedText ps).splitOn ';' = (ps.splitOnP SqlPiece.ends).map maskedText
  := by
  induction ps with
  | nil => rfl
  | cons p ps ih =>
    rw [maskedText, List.flatMap_cons, ← maskedText, List.splitOnP_cons_eq_if_modifyHead]
    cases hends : p.ends with
    | true =>
      cases p with
      | plain c =>
        obtain rfl : c = ';' := of_decide_eq_true hends
        rw [SqlPiece.masked, List.singleton_append, List.splitOn_cons_eq_if_modifyHead, ih]
        rfl
      | _ => cases hends
    | false =>
      rw [splitOn_append (semicolon_mem_masked hends), ih]
      cases ps.splitOnP SqlPiece.ends with
      | nil => rfl
      | cons first rest => rfl

/-- Each text is made of pieces, and is executed without a question if and only if all of its
statements are read only, or it is one of little risk outside of production. -/
theorem autoExecutes_iff (sql : Text) (environment : ConnectionEnvironment) :
  (∃ ps, FineText ps ∧ rawText ps = sql) ∧ ∀ ps, FineText ps → rawText ps = sql →
    ((classifyAiSqlExecution sql environment).action = .autoExecute
      ↔ writtenStatements ps ≠ []
        ∧ ((∀ s ∈ writtenStatements ps, classifyStatement s = .read)
          ∨ environment = .nonProduction ∧ ∃ s, writtenStatements ps = [s]
            ∧ classifyStatement s = .lowRiskWrite))
  := by
  refine ⟨exists_fineText sql, ?_⟩
  rintro ps h rfl
  have hstatements : sqlStatements (rawText ps) = writtenStatements ps := by
    rw [sqlStatements, stripAiSqlComments_rawText h, splitOn_maskedText, List.map_map]
    rfl
  unfold classifyAiSqlExecution
  rw [hstatements]
  generalize writtenStatements ps = statements
  rcases statements with _ | ⟨s, _ | ⟨t, rest⟩⟩
  · simp
  · cases hs : classifyStatement s <;> cases environment <;> simp [hs]
  · have hone : ¬ ∃ s', s :: t :: rest = [s'] ∧ classifyStatement s' = .lowRiskWrite := by
      rintro ⟨s', heq, -⟩
      cases heq
    have hnot {category : AiSqlExecutionCategory} (hne : category ≠ .read)
        (hread : ∀ s' ∈ s :: t :: rest, classifyStatement s' = .read) :
        category ∉ (s :: t :: rest).map classifyStatement := by
      intro hmem
      obtain ⟨s', hs', heq⟩ := List.mem_map.mp hmem
      exact hne (heq.symm.trans (hread s' hs'))
    have hall : (∀ category ∈ (s :: t :: rest).map classifyStatement, category = .read)
        ↔ ∀ s' ∈ s :: t :: rest, classifyStatement s' = .read := List.forall_mem_map
    have hmany : 1 < (s :: t :: rest).length := by simp
    simp only [if_neg (List.cons_ne_nil s (t :: rest)), if_pos hmany]
    constructor
    · intro haction
      refine ⟨List.cons_ne_nil _ _, .inl ?_⟩
      split_ifs at haction with _ _ hread
      exact hall.mp hread
    · rintro ⟨-, hread | ⟨-, hlow⟩⟩
      · rw [if_neg (hnot (by decide) hread), if_neg (hnot (by decide) hread),
          if_pos (hall.mpr hread)]
      · exact absurd hlow hone

end Workbench.AiSqlExecution
