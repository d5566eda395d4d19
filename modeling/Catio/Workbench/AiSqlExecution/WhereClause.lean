import Catio.Lib.Condition
import Catio.Lib.JavaScript.Literals
import Catio.Lib.Quoting

/-!
# Conditions of updates

What the `WHERE` clause of an update says.  A statement of SQL is cut into tokens, and its clause is
read by the precedence of the connectives: `NOT` before `AND` before `OR`.  A comparison of a column
with a constant by `=` is known to be one; other conditions, such as comparisons of other kinds and
those with subqueries, may hold or not.
-/

namespace Workbench.AiSqlExecution

open Scan

/-! ### Tokens -/

/-- A token: an unquoted word, which may be a number, a name or a string in quotes, or another
character. -/
inductive SqlToken where
  | word (text : Text)
  | name (text : Text)
  | string (text : Text)
  | symbol (c : Char)
  deriving DecidableEq

def doubled (close : Char) : Quoting Char where
  close := close
  emit c := [c]
  escape := none

/-- The token that starts with an opening quote, and the number of characters behind that. -/
def quotedToken (c : Char) (rest : Text) : SqlToken × ℕ :=
  let (text, behind) := (doubled c).read rest
  (if c = '\'' then .string text else .name text, rest.length - (behind.getD []).length)

def isSqlWordChar (c : Char) : Bool :=
  Text.isWordChar c || c == '$' || 0x80 ≤ c.toNat

/-- The number of characters up to the end of a comment, or of the text. -/
def blockLength : Text → ℕ
  | [] => 0
  | [_] => 1
  | c :: d :: rest => if c = '*' ∧ d = '/' then 2 else 1 + blockLength (d :: rest)

def tokenTurn (_ : Unit) (c : Char) (rest : Text) : Turn Unit SqlToken Unit :=
  if Text.isWhitespace c then .next () [] 0
  else if c = '-' ∧ rest.head? = some '-' then .next () [] (rest.takeWhile (· ≠ '\n')).length
  else if c = '/' ∧ rest.head? = some '*' then .next () [] (1 + blockLength rest.tail)
  else if c = '\'' ∨ c = '"' ∨ c = '\x60' then
    .next () [(quotedToken c rest).1] (quotedToken c rest).2
  else if isSqlWordChar c then
    .next () [.word (c :: rest.takeWhile isSqlWordChar)] (rest.takeWhile isSqlWordChar).length
  else .next () [.symbol c] 0

def sqlTokens (statement : Text) : List SqlToken :=
  (loop tokenTurn (fun _ => ()) 0 () statement).1

/-- A token is a keyword, in upper case. -/
def SqlToken.is (keyword : Text) : SqlToken → Bool
  | .word text => Text.toAsciiUppercase text == keyword
  | _ => false

/-! ### Nesting -/

/-- How deep a token is nested, and at which depths there is a `BETWEEN` whose `AND` is to come. -/
structure Nesting where
  depth : ℕ
  between : List ℕ

/-- The nesting behind a token, and its own depth. Parentheses and `CASE` nest; the `AND` of
`BETWEEN` is in it. -/
def Nesting.step (s : Nesting) (t : SqlToken) : Nesting × ℕ :=
  if t = .symbol '(' ∨ t.is "CASE" then ({ s with depth := s.depth + 1 }, s.depth + 1)
  else if t = .symbol ')' ∨ t.is "END" then ({ s with depth := s.depth - 1 }, s.depth)
  else if t.is "BETWEEN" then ({ s with between := s.depth :: s.between }, s.depth)
  else if t.is "AND" ∧ s.between.head? = some s.depth then
    ({ s with between := s.between.tail }, s.depth + 1)
  else (s, s.depth)

def levels : Nesting → List SqlToken → List (SqlToken × ℕ)
  | _, [] => []
  | s, t :: ts => (t, (s.step t).2) :: levels (s.step t).1 ts

/-- Tokens with their depths, from the start of a condition. -/
def nested (ts : List SqlToken) : List (SqlToken × ℕ) :=
  levels ⟨0, []⟩ ts

/-- The parts between the keywords of a connective. -/
def splitAt (keyword : Text) (ts : List SqlToken) : List (List SqlToken) :=
  ((nested ts).splitOnP fun t => t.2 = 0 && t.1.is keyword).map fun part => part.map Prod.fst

/-- Behind the first `WHERE` outside of parentheses, up to another clause. -/
def whereTokens (ts : List SqlToken) : Option (List SqlToken) :=
  match (nested ts).dropWhile fun t => !(t.2 = 0 && t.1.is "WHERE") with
  | [] => none
  | _ :: behind =>
      some ((behind.takeWhile fun t => !(t.2 = 0
        && ["RETURNING", "ORDER", "LIMIT", "OPTION"].any fun keyword => t.1.is keyword)).map Prod.fst)

/-! ### Comparisons -/

inductive Constant where
  | number (value : ℚ)
  | text (text : Text)
  | boolean (value : Bool)
  deriving DecidableEq

def isReserved (word : Text) : Bool :=
  word.head?.any Char.isDigit
    || Text.toAsciiUppercase word ∈ ["TRUE".toList, "FALSE".toList, "NULL".toList, "DEFAULT".toList]

/-- The name of a column, whose parts are separated by points. -/
def columnName : List SqlToken → Option Text
  | [.word text] => if isReserved text then none else some (Text.toAsciiLowercase text)
  | [.name text] => some text
  | .word text :: .symbol '.' :: rest =>
      if isReserved text then none
      else (columnName rest).map fun name => Text.toAsciiLowercase text ++ '.' :: name
  | .name text :: .symbol '.' :: rest => (columnName rest).map fun name => text ++ '.' :: name
  | _ => none

/-- The characters of tokens without quotes. -/
def plainText : List SqlToken → Option Text
  | [] => some []
  | .word text :: rest => (plainText rest).map (text ++ ·)
  | .symbol c :: rest => (plainText rest).map (c :: ·)
  | _ => none

def constant (ts : List SqlToken) : Option Constant :=
  match ts with
  | [.string text] => some (.text text)
  | _ =>
      if ts.map (·.is "TRUE") = [true] then some (.boolean true)
      else if ts.map (·.is "FALSE") = [true] then some (.boolean false)
      else ((plainText ts).bind JavaScript.readLiteral).map fun n =>
        .number (if n.negative then -n.magnitude else n.magnitude)

/-- A condition on the rows of a table. -/
abbrev SqlCondition :=
  Condition Text Constant (List SqlToken)

/-- A condition without connectives. -/
def comparison (ts : List SqlToken) : SqlCondition :=
  match ts.splitOn (.symbol '=') with
  | [left, right] =>
      match columnName left, constant right, columnName right, constant left with
      | some column, some value, _, _ => .atom (.equal column value)
      | _, _, some column, some value => .atom (.equal column value)
      | _, _, _, _ => .atom (.other ts)
  | _ => .atom (.other ts)

/-! ### Conditions -/

/-- Conditions with a connective between them. -/
def connect (connective : SqlCondition → SqlCondition → SqlCondition) :
    List SqlCondition → SqlCondition
  | [] => .atom (.other [])
  | [p] => p
  | p :: ps => connective p (connect connective ps)

/-- What is in the parentheses around tokens, unless it is a subquery or a list. -/
def inParentheses (ts : List SqlToken) : Option (List SqlToken) :=
  match ts with
  | .symbol '(' :: rest =>
      if rest.getLast? = some (.symbol ')') ∧ ((nested ts).all fun t => 0 < t.2)
          ∧ !(rest.head?.any fun t => t.is "SELECT" || t.is "WITH" || t.is "VALUES")
          ∧ !((nested rest.dropLast).any fun t => t.2 = 0 && t.1 = .symbol ',') then
        some rest.dropLast
      else none
  | _ => none

/-- A condition without `AND` and `OR` outside of parentheses. -/
def factor (inside : List SqlToken → SqlCondition) : List SqlToken → SqlCondition
  | [] => .atom (.other [])
  | t :: ts =>
      if t.is "NOT" then .not (factor inside ts)
      else
        match inParentheses (t :: ts) with
        | some inner => inside inner
        | none => comparison (t :: ts)

/-- The condition that tokens are, with parentheses that are nested no deeper than so. -/
def condition : ℕ → List SqlToken → SqlCondition
  | 0, ts => .atom (.other ts)
  | n + 1, ts =>
      connect .or ((splitAt "OR" ts).map fun alternative =>
        connect .and ((splitAt "AND" alternative).map (factor (condition n))))

def whereCondition (statement : Text) : Option SqlCondition :=
  (whereTokens (sqlTokens statement)).map fun ts => condition (ts.length + 1) ts

end Workbench.AiSqlExecution
