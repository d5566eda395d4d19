import Catio.Lib.Scan
import Catio.Lib.Text

/-!
# JSON

JSON values, their compact text, and the reading of a JSON string.  A quoted string is one
line (`newline_not_mem_quote`) and is read back as it was (`parseString_quote`).
-/

namespace Json

open Scan

/-! ### Values -/

/-- A number as it is written: sign, digits, fraction and exponent. -/
structure Number where
  negative : Bool
  digits : List (Fin 10)
  nonempty : digits ≠ []
  fraction : List (Fin 10)
  exponent : Option (Bool × List (Fin 10))
  deriving DecidableEq

theorem digits_ne_nil (d : Fin 10) (ds : List (Fin 10)) :
  d :: ds ≠ []
  := List.cons_ne_nil d ds

theorem zero_ne_nil : [(0 : Fin 10)] ≠ [] := digits_ne_nil 0 []

theorem one_ne_nil : [(1 : Fin 10)] ≠ [] := digits_ne_nil 1 []

/-- A JSON value. -/
inductive Value where
  | null
  | bool (b : Bool)
  | number (n : Number)
  | string (s : Text)
  | array (items : List Value)
  | object (fields : List (Text × Value))

/-- A value is `null`. -/
def Value.isNull : Value → Bool
  | .null => true
  | _ => false

def Value.asStr : Value → Option Text
  | .string s => some s
  | _ => none

/-- The items of an array. -/
def Value.asArray : Value → Option (List Value)
  | .array items => some items
  | _ => none

/-- The fields of an object. -/
def Value.asObject : Value → Option (List (Text × Value))
  | .object fields => some fields
  | _ => none

/-- The value of a field of an object. -/
def Value.get (value : Value) (name : Text) : Option Value :=
  value.asObject.bind fun fields => fields.lookup name

def setField (fields : List (Text × Value)) (name : Text) (value : Value) : List (Text × Value) :=
  if fields.any fun f => f.1 = name then
    fields.map fun f => if f.1 = name then (name, value) else f
  else fields ++ [(name, value)]

/-- Set the fields of one object in another. -/
def Value.extend : Value → Value → Value
  | .object fields, .object more =>
      .object (more.foldl (fun fields f => setField fields f.1 f.2) fields)
  | value, _ => value

theorem Value.eq_string_of_asStr {value : Value} {s : Text} (h : value.asStr = some s) :
  value = .string s
  := by
  cases value with
  | string t =>
    cases h
    rfl
  | _ => cases h

/-! ### Text of values -/

/-- A digit as a character. -/
def digit (d : Fin 10) : Char :=
  Nat.digitChar d

def Number.toText (n : Number) : Text :=
  (if n.negative then ['-'] else []) ++ n.digits.map digit
    ++ (if n.fraction = [] then [] else '.' :: n.fraction.map digit)
    ++ match n.exponent with
      | none => []
      | some (negative, digits) =>
          'e' :: (if negative then ['-'] else []) ++ digits.map digit

/-- A character inside of a string. -/
def escapeChar (c : Char) : Text :=
  if c = '"' then ['\\', '"']
  else if c = '\\' then ['\\', '\\']
  else if c = '\x08' then ['\\', 'b']
  else if c = '\x0c' then ['\\', 'f']
  else if c = '\n' then ['\\', 'n']
  else if c = '\r' then ['\\', 'r']
  else if c = '\t' then ['\\', 't']
  else if c.toNat < 0x20 then ['\\', 'u', '0', '0'] ++ Text.hexByte (.ofNat c.toNat)
  else [c]

/-- A string with quotes around it. -/
def quote (t : Text) : Text :=
  '"' :: t.flatMap escapeChar ++ ['"']

mutual

def Value.toText : Value → Text
  | .null => "null"
  | .bool b => if b then "true" else "false"
  | .number n => n.toText
  | .string s => quote s
  | .array items => '[' :: Text.join [','] (itemTexts items) ++ [']']
  | .object fields => '{' :: Text.join [','] (fieldTexts fields) ++ ['}']

def itemTexts : List Value → List Text
  | [] => []
  | item :: items => item.toText :: itemTexts items

def fieldTexts : List (Text × Value) → List Text
  | [] => []
  | (name, value) :: fields => (quote name ++ ':' :: value.toText) :: fieldTexts fields

end

/-- The start of a line at some level. -/
def indent (level : ℕ) : Text :=
  List.replicate (2 * level) ' '

/-- Items between brackets, each on a line of its own at one level more. -/
def bracketed (level : ℕ) (left right : Char) (items : List Text) : Text :=
  if items = [] then [left, right]
  else
    [left, '\n'] ++ Text.join [',', '\n'] (items.map (indent (level + 1) ++ ·))
      ++ '\n' :: indent level ++ [right]

mutual

/-- The text of a value over several lines. -/
def Value.toTextPretty (level : ℕ) : Value → Text
  | .array items => bracketed level '[' ']' (itemTextsPretty (level + 1) items)
  | .object fields => bracketed level '{' '}' (fieldTextsPretty (level + 1) fields)
  | value => value.toText

/-- The texts of the items of an array, each over several lines. -/
def itemTextsPretty (level : ℕ) : List Value → List Text
  | [] => []
  | item :: items => item.toTextPretty level :: itemTextsPretty level items

/-- The texts of the fields of an object, each over several lines. -/
def fieldTextsPretty (level : ℕ) : List (Text × Value) → List Text
  | [] => []
  | (name, value) :: fields =>
      (quote name ++ [':', ' '] ++ value.toTextPretty level) :: fieldTextsPretty level fields

end

/-! ### Reading a string -/

/-- The value of a hexadecimal digit. -/
def hexValue (c : Char) : Option ℕ :=
  if '0' ≤ c ∧ c ≤ '9' then some (c.toNat - '0'.toNat)
  else if 'a' ≤ c ∧ c ≤ 'f' then some (c.toNat - 'a'.toNat + 10)
  else if 'A' ≤ c ∧ c ≤ 'F' then some (c.toNat - 'A'.toNat + 10)
  else none

/-- The value of four hexadecimal digits. -/
def hexFour : Text → Option ℕ
  | a :: b :: c :: d :: _ => do
      let a ← hexValue a
      let b ← hexValue b
      let c ← hexValue c
      let d ← hexValue d
      return a * 4096 + b * 256 + c * 16 + d
  | _ => none

/-- The character of a `\u` escape, and its length behind the `u`. A high surrogate needs the escape
of a low one. -/
def parseUnicode (rest : Text) : Option (Char × ℕ) := do
  let n ← hexFour rest
  if 0xD800 ≤ n ∧ n ≤ 0xDBFF then
    match rest.drop 4 with
    | '\\' :: 'u' :: more => do
        let low ← hexFour more
        if 0xDC00 ≤ low ∧ low ≤ 0xDFFF then
          return (← Text.charFromU32 (0x10000 + ((n - 0xD800) * 1024 + (low - 0xDC00))), 10)
        else none
    | _ => none
  else
    return (← Text.charFromU32 n, 4)

/-- The character of an escape, and the number of characters it takes behind the
backslash. -/
def parseEscape : Text → Option (Char × ℕ)
  | '"' :: _ => some ('"', 1)
  | '\\' :: _ => some ('\\', 1)
  | '/' :: _ => some ('/', 1)
  | 'b' :: _ => some ('\x08', 1)
  | 'f' :: _ => some ('\x0c', 1)
  | 'n' :: _ => some ('\n', 1)
  | 'r' :: _ => some ('\r', 1)
  | 't' :: _ => some ('\t', 1)
  | 'u' :: rest => (parseUnicode rest).map fun (c, n) => (c, n + 1)
  | _ => none

/-- One turn of reading a string behind its opening quote.  The result is what stands
behind the closing quote. -/
def stringTurn (_ : Unit) (c : Char) (rest : Text) : Turn Unit Char (Option Text) :=
  if c = '"' then .stop (some rest)
  else if c = '\\' then
    match parseEscape rest with
    | some (c, n) => .next () [c] n
    | none => .stop none
  else if c.toNat < 0x20 then .stop none
  else .next () [c] 0

/-- White space between tokens. -/
def isSpace (c : Char) : Bool :=
  c == ' ' || c == '\t' || c == '\n' || c == '\r'

/-- Read a text that is one string. -/
def parseString (t : Text) : Option Text :=
  match t.dropWhile isSpace with
  | '"' :: body =>
      match loop stringTurn (fun _ => none) 0 () body with
      | (s, some rest) => if rest.dropWhile isSpace = [] then some s else none
      | _ => none
  | _ => none

/-! ### Round trip -/

theorem hexValue_digitChar : ∀ n < 16, hexValue (Nat.digitChar n) = some n := by decide

theorem reads_letter {c letter : Char} {rest : Text} (h : parseEscape (letter :: rest) = some (c, 1)) :
  Reads stringTurn () ('\\' :: letter :: rest) rest () [c]
  := by
  apply Reads.skipping (k := 1) [letter]
  · simp [stringTurn, h]
  · rfl

theorem hexFour_control {n : ℕ} (h : n < 0x20) (rest : Text) :
  hexFour ('0' :: '0' :: (Text.hexByte (.ofNat n) ++ rest)) = some n
  := by
  have hbyte : (UInt8.ofNat n).toNat = n := by
    rw [UInt8.toNat_ofNat']
    omega
  have hhigh := hexValue_digitChar (n / 16) (by omega)
  have hlow := hexValue_digitChar (n % 16) (by omega)
  have hzero : hexValue '0' = some 0 := by decide
  simp only [hexFour, Text.hexByte, hbyte, List.cons_append, hzero, hhigh, hlow,
    Option.bind_eq_bind, Option.bind_some, Option.pure_def, Option.some.injEq]
  omega

theorem parseEscape_control {c : Char} (h : c.toNat < 0x20) (rest : Text) :
  parseEscape ('u' :: '0' :: '0' :: (Text.hexByte (.ofNat c.toNat) ++ rest)) = some (c, 5)
  := by
  have hvalid : Text.charFromU32 c.toNat = some c := by
    rw [Text.charFromU32, if_pos (.inl (by omega)), Char.ofNat_toNat]
  have hfour := hexFour_control h rest
  have hsmall : ¬ (0xD800 ≤ c.toNat ∧ c.toNat ≤ 0xDBFF) := by omega
  simp [parseEscape, parseUnicode, hfour, hsmall, hvalid]

theorem reads_escapeChar (c : Char) (rest : Text) :
  Reads stringTurn () (escapeChar c ++ rest) rest () [c]
  := by
  unfold escapeChar
  split_ifs with h₁ h₂ h₃ h₄ h₅ h₆ h₇ h₈
  · rw [h₁]
    exact reads_letter rfl
  · rw [h₂]
    exact reads_letter rfl
  · rw [h₃]
    exact reads_letter rfl
  · rw [h₄]
    exact reads_letter rfl
  · rw [h₅]
    exact reads_letter rfl
  · rw [h₆]
    exact reads_letter rfl
  · rw [h₇]
    exact reads_letter rfl
  · apply Reads.skipping (k := 5) ('u' :: '0' :: '0' :: Text.hexByte (.ofNat c.toNat))
    · have hescape := parseEscape_control h₈ rest
      simp only [List.cons_append] at hescape ⊢
      simp [stringTurn, hescape]
    · rfl
  · apply Reads.single
    simp [stringTurn, h₁, h₂, h₈]

theorem reads_escaped (t rest : Text) :
  Reads stringTurn () (t.flatMap escapeChar ++ rest) rest () t
  := by
  induction t with
  | nil => apply Reads.refl
  | cons c t ih =>
    have hfirst := reads_escapeChar c (t.flatMap escapeChar ++ rest)
    simpa using hfirst.trans ih

theorem parseString_quote (t : Text) :
  parseString (quote t) = some t
  := by
  have hbody := (reads_escaped t ['"']).loop_eq fun _ => none
  rw [loop_stop (r := some []) rfl] at hbody
  have hdrop : (quote t).dropWhile isSpace = '"' :: (t.flatMap escapeChar ++ ['"']) := rfl
  rw [parseString, hdrop]
  simp only [hbody, List.append_nil]
  rfl

theorem loop_escaped (t rest : Text) :
  (loop stringTurn (fun _ => none) 0 () (t.flatMap escapeChar ++ '"' :: rest)).1 = t
  := by
  rw [(reads_escaped t ('"' :: rest)).loop_eq, loop_stop rfl]
  exact List.append_nil t

theorem quote_append_inj {s t x y : Text} (h : quote s ++ x = quote t ++ y) :
  s = t ∧ x = y
  := by
  have hbody : s.flatMap escapeChar ++ '"' :: x = t.flatMap escapeChar ++ '"' :: y := by
    simpa [quote] using h
  have hst : s = t := by rw [← loop_escaped s x, hbody, loop_escaped t y]
  subst hst
  simpa using hbody

theorem newline_not_mem_escapeChar (c : Char) :
  '\n' ∉ escapeChar c
  := by
  unfold escapeChar
  split_ifs with h₁ h₂ h₃ h₄ h₅ h₆ h₇ h₈
  · decide
  · decide
  · decide
  · decide
  · decide
  · decide
  · decide
  · have hall : ∀ n < 0x20, '\n' ∉ ['\\', 'u', '0', '0'] ++ Text.hexByte (.ofNat n) := by decide
    exact hall c.toNat h₈
  · rw [List.mem_singleton]
    exact fun h => h₅ h.symm

theorem newline_not_mem_quote (t : Text) :
  '\n' ∉ quote t
  := by
  intro h
  simp only [quote, List.mem_cons, List.mem_append, List.mem_flatMap, List.not_mem_nil] at h
  rcases h with (h | ⟨c, -, h⟩) | h | h
  · exact absurd h (by decide)
  · exact newline_not_mem_escapeChar c h
  · exact absurd h (by decide)
  · exact h

end Json
