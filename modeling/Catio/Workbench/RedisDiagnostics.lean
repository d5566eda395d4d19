import Catio.Lib.Scan
import Catio.Lib.Text

/-!
# Redis diagnostics

The tokens of a line of the Redis editor, by `tokenizeRedisLine` of `redisDiagnostics.ts`.  Columns
count the UTF-16 code units of the line, from 1.
-/

namespace Workbench

open Scan Text

structure RedisToken where
  value : Text
  startCol : ℕ
  endCol : ℕ
  deriving DecidableEq

structure RedisTokenizeResult where
  argv : List RedisToken := []
  unclosedQuote : Bool := false
  unclosedQuoteStart : Option ℕ := none
  deriving DecidableEq

def codeUnits (t : Text) : ℕ :=
  (t.map fun c => if c.toNat < 0x10000 then 1 else 2).sum

/-- What separates tokens. -/
def isBlank (c : Char) : Bool :=
  c = ' ' || c = '\t'

/-- Read up to the closing quote: the value, whether the quote was closed, and what is behind. -/
def readQuoted (quote : Char) : Bool → Text → Text → Text × Bool × Text
  | _, value, [] => (value, false, [])
  | true, value, c :: rest => readQuoted quote false (value ++ [c]) rest
  | false, value, c :: rest =>
      if c = '\\' then readQuoted quote true value rest
      else if c = quote then (value, true, rest)
      else readQuoted quote false (value ++ [c]) rest

/-- Read up to the next blank, where a backslash is left out before any character: the value and
what is behind. -/
def readWord : Bool → Text → Text → Text × Text
  | _, value, [] => (value, [])
  | true, value, c :: rest => readWord false (value ++ [c]) rest
  | false, value, c :: rest =>
      if isBlank c then (value, c :: rest)
      else if c = '\\' then readWord true value rest
      else readWord false (value ++ [c]) rest

/-- The value of the token that begins with a character, whether it is closed, and what is
behind. -/
def readToken (ch : Char) (rest : Text) : Text × Bool × Text :=
  if ch = '"' ∨ ch = '\'' then
    let (value, closed, behind) := readQuoted ch false [] rest
    if closed then
      (value ++ behind.takeWhile (!isBlank ·), true, behind.dropWhile (!isBlank ·))
    else (value, false, behind)
  else
    let (value, behind) := readWord false [] (ch :: rest)
    (value, true, behind)

/-- A value without the semicolon at its end. -/
def stripSemicolon (value : Text) : Text :=
  if value.getLast? = some ';' then value.dropLast else value

/-- What is kept between tokens: the code units that are read, and what is known of quotes. -/
structure TokenizeState where
  i : ℕ := 0
  unclosedQuote : Bool := false
  unclosedQuoteStart : Option ℕ := none
  deriving DecidableEq

/-- A blank is skipped, and at any other character a token is read. -/
def tokenizeTurn (s : TokenizeState) (ch : Char) (rest : Text) :
    Turn TokenizeState RedisToken TokenizeState :=
  if isBlank ch then
    .next { s with i := s.i + 1 } [] 0
  else
    let startCol := s.i + 1
    let (value, closed, behind) := readToken ch rest
    let i := s.i + (codeUnits (ch :: rest) - codeUnits behind)
    let value := stripSemicolon value
    .next
      { i := i
        unclosedQuote := s.unclosedQuote || !closed
        unclosedQuoteStart :=
          if ch = '"' ∨ ch = '\'' then s.unclosedQuoteStart.or (some startCol)
          else s.unclosedQuoteStart }
      (if value ≠ [] ∨ !closed then [{ value, startCol, endCol := i + 1 }] else [])
      (rest.length - behind.length)

def tokenizeRedisLine (line : Text) : RedisTokenizeResult :=
  let (argv, s) := loop tokenizeTurn id 0 {} line
  { argv := argv, unclosedQuote := s.unclosedQuote, unclosedQuoteStart := s.unclosedQuoteStart }

end Workbench
