import Catio.Lib.Json

/-!
# Mongo shell commands

The model of the parser of `drivers/mongo_shell.rs`, which reads a command in the syntax of the
mongo shell.  The reader of JSON is a parameter, and so are the letters and digits of Unicode
outside of ASCII.
-/

namespace Db

open Scan Text

/-- The letters and the numeric characters, which are known in ASCII. -/
structure Unicode where
  alphabetic : Char → Bool
  numeric : Char → Bool
  alphabetic_ascii : ∀ c : Char, c.toNat < 0x80 → alphabetic c = c.isAlpha
  numeric_ascii : ∀ c : Char, c.toNat < 0x80 → numeric c = c.isDigit

def Unicode.alphanumeric (u : Unicode) (c : Char) : Bool :=
  u.alphabetic c || u.numeric c

namespace MongoShell

/-- The reader of JSON texts. -/
abbrev Reader :=
  Text → Except Text Json.Value

inductive MongoCommand where
  | find (collection : Text) (filter : Json.Value) (sort : Option Json.Value)
      (skip : Option UInt64) (limit : Option Int64)
  | count (collection : Text) (filter : Json.Value)
  | aggregate (collection : Text) (pipeline : Json.Value)
  | getIndexes (collection : Text)
  | insertOne (collection : Text) (doc : Json.Value)
  | insertMany (collection : Text) (docs : Json.Value)
  | updateOne (collection : Text) (filter update : Json.Value)
  | updateMany (collection : Text) (filter update : Json.Value)
  | deleteOne (collection : Text) (filter : Json.Value)
  | deleteMany (collection : Text) (filter : Json.Value)

def hint : Text :=
  "Unsupported MongoDB command. Expected mongo shell syntax, e.g. "
    ++ "db.users.find(\x7bage: \x7b$gt: 18\x7d\x7d).sort(\x7b_id: -1\x7d).limit(20). "
    ++ "Supported: find / countDocuments / aggregate / getIndexes / insertOne / insertMany / "
    ++ "updateOne / updateMany / deleteOne / deleteMany"

/-! ### Brackets and quotes -/

/-- The state of a scan: how many brackets are open, and the quote of the string that it is in. -/
structure Mode where
  depth : ℕ
  quote : Option Char
  escaped : Bool
  deriving DecidableEq

def isQuote (c : Char) : Bool :=
  c = '"' || c = '\''

def isOpening (c : Char) : Bool :=
  c = '(' || c = '[' || c = '\x7b'

def isClosing (c : Char) : Bool :=
  c = ')' || c = ']' || c = '\x7d'

/-- The state behind a character; what closes nothing is passed. -/
def Mode.step (m : Mode) (c : Char) : Mode :=
  match m.quote with
  | some q =>
      if m.escaped then { m with escaped := false }
      else if c = '\\' then { m with escaped := true }
      else if c = q then { m with quote := none }
      else m
  | none =>
      if isQuote c then { m with quote := some c }
      else if isOpening c then { m with depth := m.depth + 1 }
      else if isClosing c then { m with depth := m.depth - 1 }
      else m

/-- One turn of the scan for the closing parenthesis.  The result is what stands behind it. -/
def extractTurn (m : Mode) (c : Char) (rest : Text) : Turn Mode Char (Except Text Text) :=
  if m.quote = none ∧ isClosing c ∧ m.depth ≤ 1 then
    if m.depth = 0 ∨ c ≠ ')' then .stop (.error "unbalanced brackets") else .stop (.ok rest)
  else .next (m.step c) [c] 0

/-- What stands between parentheses, and what stands behind them. -/
def extractBalanced (s : Text) : Except Text (Text × Text) :=
  match trimStart s with
  | '(' :: t =>
      let scanned := loop extractTurn (fun _ => .error "unclosed `(`") 0 ⟨1, none, false⟩ t
      scanned.2.map fun rest => (scanned.1, rest)
  | _ => .error "expected `(`"

/-- One turn of the splitting at commas, with the part that is being read. -/
def splitTurn (s : Mode × Text) (c : Char) (_ : Text) : Turn (Mode × Text) Text Text :=
  if s.1.quote = none ∧ c = ',' ∧ s.1.depth = 0 then .next (s.1, []) [s.2] 0
  else .next (s.1.step c, s.2 ++ [c]) [] 0

/-- The parts between the commas outside of brackets and strings. -/
def splitTopLevel (s : Text) : List Text :=
  let split := loop splitTurn Prod.snd 0 (⟨0, none, false⟩, []) s
  ((split.1 ++ [split.2]).map trim).filter fun part => part ≠ []

/-! ### Loose JSON -/

/-- Without the quotes around it. -/
def trimQuotes (t : Text) : Text :=
  (t.dropWhile isQuote).rdropWhile isQuote

/-- The rewriting of `ObjectId("..")`, with a bound for the number of its places. -/
def rewriteLoop (u : Unicode) : ℕ → Text → Text
  | 0, rest => rest
  | n + 1, rest =>
      match splitOnceText "ObjectId" rest with
      | none => rest
      | some (before, after) =>
          let prevIsIdent := before.getLast?.any fun c =>
            u.alphanumeric c || c = '_' || isQuote c
          match extractBalanced after with
          | .ok (inner, tail) =>
              if prevIsIdent then before ++ "ObjectId" ++ rewriteLoop u n after
              else
                before ++ "\x7b\"$oid\":\"" ++ trimQuotes (trim inner) ++ "\"\x7d"
                  ++ rewriteLoop u n tail
          | .error _ => before ++ "ObjectId" ++ rewriteLoop u n after

def rewriteObjectId (u : Unicode) (s : Text) : Text :=
  rewriteLoop u s.length s

/-- A string behind its single quote, with double quotes: the text, and how much is read. -/
def copySingle : Text → Text × ℕ
  | [] => (['"'], 0)
  | ['\\'] => (['\\', '"'], 1)
  | '\\' :: e :: t => ('\\' :: e :: (copySingle t).1, (copySingle t).2 + 2)
  | d :: t =>
      if d = '\'' then (['"'], 1)
      else if d = '"' then ('\\' :: '"' :: (copySingle t).1, (copySingle t).2 + 1)
      else (d :: (copySingle t).1, (copySingle t).2 + 1)

/-- A string behind its double quote: the text, and how much is read. -/
def copyDouble : Text → Text × ℕ
  | [] => ([], 0)
  | ['\\'] => (['\\'], 1)
  | '\\' :: e :: t => ('\\' :: e :: (copyDouble t).1, (copyDouble t).2 + 2)
  | d :: t =>
      if d = '"' then (['"'], 1) else (d :: (copyDouble t).1, (copyDouble t).2 + 1)

def isWordStart (u : Unicode) (c : Char) : Bool :=
  u.alphabetic c || c = '_' || c = '$'

def isWordChar (u : Unicode) (c : Char) : Bool :=
  u.alphanumeric c || c = '_' || c = '$' || c = '.'

/-- The words that stand for values. -/
def literals : List Text :=
  ["true", "false", "null"]

/-- One turn of the quoting of strings and keys. -/
def requoteTurn (u : Unicode) (_ : Unit) (c : Char) (rest : Text) : Turn Unit Char Unit :=
  if c = '\'' then .next () ('"' :: (copySingle rest).1) (copySingle rest).2
  else if c = '"' then .next () ('"' :: (copyDouble rest).1) (copyDouble rest).2
  else if isWordStart u c then
    let more := rest.takeWhile (isWordChar u)
    let word := c :: more
    let isKey := ((rest.drop more.length).dropWhile isWhitespace).head? = some ':'
    if isKey ∧ word ∉ literals then .next () ('"' :: word ++ ['"']) more.length
    else .next () word more.length
  else .next () [c] 0

def requote (u : Unicode) (s : Text) : Text :=
  (loop (requoteTurn u) id 0 () s).1

/-- The strict JSON text of a loose one. -/
def strictText (u : Unicode) (s : Text) : Text :=
  requote u (rewriteObjectId u s)

def normalizeLooseJson (u : Unicode) (fromStr : Reader) (input : Text) : Except Text Json.Value :=
  let s := trim input
  if s = [] then .ok (.object [])
  else (fromStr (strictText u s)).mapError fun e => "Invalid JSON argument: " ++ e

/-! ### Commands -/

/-- A character of a collection that is written without quotes. -/
def isNameChar (u : Unicode) (c : Char) : Bool :=
  u.alphanumeric c || c = '_' || c = '-' || c = '.'

/-- A collection in quotes, and what stands behind the dot after it. -/
def quotedCollection (inner after : Text) : Except Text (Text × Text) :=
  let name := trimQuotes (trim inner)
  if name = [] then .error hint
  else
    match trimStart after with
    | '.' :: rest => .ok (name, rest)
    | _ => .error hint

/-- A collection without quotes: the method stands behind the last dot before the first parenthesis.
-/
def bareCollection (u : Unicode) (rest : Text) : Except Text (Text × Text) :=
  match splitOnce '(' rest with
  | none => .error hint
  | some (front, args) =>
      match rsplitOnce '.' front with
      | none => .error hint
      | some (name, method) =>
          if name ≠ [] ∧ name.all (isNameChar u) then .ok (name, method ++ '(' :: args)
          else .error hint

/-- The collection behind `db`, and what stands behind the dot after it. -/
def parseCollection (u : Unicode) (afterDb : Text) : Except Text (Text × Text) :=
  match trimStart afterDb with
  | '[' :: r =>
      match splitOnce ']' r with
      | none => .error hint
      | some (inner, after) => quotedCollection inner after
  | '.' :: rest =>
      match stripPrefix "getCollection" rest with
      | some r =>
          match extractBalanced r with
          | .error _ => .error hint
          | .ok (inner, after) => quotedCollection inner after
      | none => bareCollection u rest
  | _ => .error hint

/-- The number that decimal digits write. -/
def parseDigits (digits : Text) : Option ℕ :=
  if digits ≠ [] ∧ digits.all Char.isDigit then some (Nat.ofDigitChars 10 digits 0) else none

def parseU64 (t : Text) : Option UInt64 :=
  (parseDigits ((stripPrefix "+" t).getD t)).bind fun n =>
    if n < 2 ^ 64 then some (.ofNat n) else none

def parseI64 (t : Text) : Option Int64 :=
  match stripPrefix "-" t with
  | some digits =>
      (parseDigits digits).bind fun n => if n ≤ 2 ^ 63 then some (.ofInt (-n)) else none
  | none =>
      (parseDigits ((stripPrefix "+" t).getD t)).bind fun n =>
        if n < 2 ^ 63 then some (.ofInt n) else none

/-- What the chain behind `find` tells. -/
structure Chain where
  sort : Option Json.Value
  skip : Option UInt64
  limit : Option Int64

/-- The call of a method with the text of its arguments, and what stands behind it. -/
def parseCall (rest : Text) : Except Text (Text × Text × Text) :=
  match splitOnce '(' rest with
  | none => .error hint
  | some (before, after) =>
      match extractBalanced ('(' :: after) with
      | .error _ => .error hint
      | .ok (args, tail) => .ok (trim before, args, tail)

def chainCall (u : Unicode) (fromStr : Reader) (name arg : Text) (c : Chain) : Except Text Chain :=
  if name = "sort" then (normalizeLooseJson u fromStr arg).map fun v => { c with sort := some v }
  else if name = "skip" then
    match parseU64 (trim arg) with
    | some n => .ok { c with skip := some n }
    | none => .error hint
  else if name = "limit" then
    match parseI64 (trim arg) with
    | some n => .ok { c with limit := some n }
    | none => .error hint
  else if name = "pretty" ∨ name = "toArray" then .ok c
  else
    .error ("Unsupported chained method `." ++ name
      ++ "()` — only .sort() / .skip() / .limit() / .pretty() may follow find()")

/-- The loop over the chain, with a bound for the number of its calls. -/
def chainLoop (u : Unicode) (fromStr : Reader) : ℕ → Text → Chain → Except Text Chain
  | 0, _, _ => .error hint
  | n + 1, chain, c =>
      match trimStart chain with
      | [] => .ok c
      | '.' :: rest => do
          let (name, arg, tail) ← parseCall rest
          let c ← chainCall u fromStr name arg c
          chainLoop u fromStr n tail c
      | _ => .error hint

def parseFindChain (u : Unicode) (fromStr : Reader) (chain : Text) : Except Text Chain :=
  chainLoop u fromStr (chain.length + 1) chain ⟨none, none, none⟩

/-- The arguments as one array, which may be written as such. -/
def arrayArgument (u : Unicode) (fromStr : Reader) (argsRaw : Text) (args : List Text) :
    Except Text Json.Value := do
  let value ←
    if (trim argsRaw).head? = some '[' then normalizeLooseJson u fromStr (trim argsRaw)
    else (args.mapM (normalizeLooseJson u fromStr)).map .array
  if value.asArray.isSome then .ok value else .error hint

/-- A command with a method and the text of its arguments. -/
def parseMethod (u : Unicode) (fromStr : Reader) (collection method argsRaw chain : Text) :
    Except Text MongoCommand :=
  let args := splitTopLevel argsRaw
  let arg (i : ℕ) : Except Text Json.Value :=
    match args[i]? with
    | some a => normalizeLooseJson u fromStr a
    | none => .ok (.object [])
  if method ≠ "find" ∧ trim chain ≠ [] then .error hint
  else if method = "find" then
    if args.length > 1 then
      .error ("find() projection (second argument) is not supported yet — use "
        ++ "db.coll.find(filter) and select columns from the result")
    else do
      let c ← parseFindChain u fromStr chain
      let filter ← arg 0
      return .find collection filter c.sort c.skip c.limit
  else if method = "countDocuments" ∨ method = "count" then (arg 0).map (.count collection)
  else if method = "aggregate" then
    (arrayArgument u fromStr argsRaw args).map (.aggregate collection)
  else if method = "getIndexes" then .ok (.getIndexes collection)
  else if method = "insertOne" then
    if args = [] then .error hint else (arg 0).map (.insertOne collection)
  else if method = "insertMany" then
    (arrayArgument u fromStr argsRaw args).map (.insertMany collection)
  else if method = "updateOne" ∨ method = "updateMany" then
    if args.length < 2 then .error hint
    else do
      let filter ← arg 0
      let update ← arg 1
      return if method = "updateOne" then .updateOne collection filter update
        else .updateMany collection filter update
  else if method = "deleteOne" then
    if args = [] then .error hint else (arg 0).map (.deleteOne collection)
  else if method = "deleteMany" then
    if args = [] then .error hint else (arg 0).map (.deleteMany collection)
  else .error hint

def parse (u : Unicode) (fromStr : Reader) (input : Text) : Except Text MongoCommand :=
  match stripPrefix "db" (trim ((trim input).rdropWhile (· = ';'))) with
  | none => .error hint
  | some afterDb => do
      let (collection, rest) ← parseCollection u afterDb
      let (method, argsRaw, chain) ← parseCall rest
      parseMethod u fromStr collection method argsRaw chain

end MongoShell

end Db
