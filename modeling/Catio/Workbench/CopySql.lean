import Catio.Lib.JavaScript
import Catio.Db.Dialect

/-!
# Statements for the clipboard

The model of `components/dbviews/copySql.ts` and of `binarySqlLiteral` in `binaryValue.ts`: the
literals and identifiers that the frontend writes, which are to be those of the backend.
-/

namespace Workbench

open Text JavaScript

/-! ### Dialects -/

/-- The dialects that the frontend writes. -/
inductive CopyDialect where
  | postgres
  | mysql
  | sqlserver
  | sqlite
  | duckdb
  | clickhouse
  | jdbc
  | rqlite
  deriving DecidableEq

/-- The engines with a dialect of their own. -/
def copyDialects : List (Text × CopyDialect) :=
  [("mysql", .mysql), ("sqlserver", .sqlserver), ("sqlite", .sqlite), ("duckdb", .duckdb),
    ("clickhouse", .clickhouse), ("jdbc", .jdbc), ("rqlite", .rqlite)]

def copyDialectFor (engine : Option Text) : CopyDialect :=
  (copyDialects.lookup (engine.getD [])).getD .postgres

/-! ### Identifiers and literals -/

/-- An identifier in the quotes of the dialect. -/
def quoteIdent (dialect : CopyDialect) (name : Text) : Text :=
  if dialect = .mysql then '`' :: replaceChar '`' ['`', '`'] name ++ ['`']
  else if dialect = .sqlserver then '[' :: replaceChar ']' [']', ']'] name ++ [']']
  else '"' :: replaceChar '"' ['"', '"'] name ++ ['"']

/-- A byte in hexadecimal digits, `byte.toString(16).padStart(2, '0')`. -/
def hexPadded (byte : UInt8) : Text :=
  (Nat.toDigits 16 byte.toNat).leftpad 2 '0'

def quoteString (value : Text) (dialect : CopyDialect) : Text :=
  if (dialect = .mysql ∨ dialect = .clickhouse) ∧ ('\\' ∈ value ∨ '\x00' ∈ value) then
    let hex := (Utf8.encode value).flatMap hexPadded
    if dialect = .mysql then "CONVERT(X'" ++ hex ++ "' USING utf8mb4)" else "unhex('" ++ hex ++ "')"
  else
    let text := if dialect = .postgres then replaceChar '\\' ['\\', '\\'] value else value
    let quoting : Text :=
      if dialect = .sqlserver then ['N']
      else if dialect = .postgres ∧ '\\' ∈ value then ['E'] else []
    quoting ++ '\'' :: replaceChar '\'' ['\'', '\''] text ++ ['\'']

/-- The digits of a value that is `0x` with an even number of hexadecimal digits. -/
def binaryDigits : Value → Option Text
  | .string ('0' :: x :: hex) =>
      if (x = 'x' ∨ x = 'X') ∧ hex.length % 2 = 0 ∧ hex.all isHexDigit then some hex else none
  | _ => none

def binarySqlLiteral (value : Value) (dialect : CopyDialect) : Except Text Text :=
  if value.isNullish then .ok "NULL"
  else
    match binaryDigits value with
    | none => .error "Binary values require 0x followed by an even number of hexadecimal digits"
    | some hex =>
        match dialect with
        | .postgres => .ok ("decode('" ++ hex ++ "', 'hex')")
        | .sqlserver => .ok ("0x" ++ hex)
        | .duckdb => .ok ("from_hex('" ++ hex ++ "')")
        | .clickhouse => .ok ("unhex('" ++ hex ++ "')")
        | _ => .ok ("X'" ++ hex ++ "'")

/-- The literal of a value that is not binary. -/
def plainSqlValue (value : Value) (dialect : CopyDialect) : Text :=
  match value with
  | .undefined | .null => "NULL"
  | .boolean b =>
      if dialect = .sqlserver then (if b then "1" else "0" : Text)
      else (if b then "TRUE" else "FALSE" : Text)
  | .number n => if n.isFinite then n.toText else quoteString n.toText dialect
  | .string s => quoteString s dialect
  | other => quoteString (other.toJson.getD other.toText) dialect

def sqlValue (value : Value) (dialect : CopyDialect) (binary : Bool) : Except Text Text :=
  if binary then binarySqlLiteral value dialect else .ok (plainSqlValue value dialect)

/-! ### Shared values -/

def engineName : Db.DatabaseType → Text
  | .postgres => "postgres"
  | .mysql => "mysql"
  | .sqlite => "sqlite"
  | .duckdb => "duckdb"
  | .sqlserver => "sqlserver"
  | .clickhouse => "clickhouse"
  | .elasticsearch => "elasticsearch"
  | .rqlite => "rqlite"
  | .mongodb => "mongodb"
  | .redis => "redis"
  | .jdbc => "jdbc"

mutual

/-- The same JSON value on both sides: numbers are safe integers, and objects have their fields in
one order. -/
inductive Same : Value → Json.Value → Prop
  | null : Same .null .null
  | boolean (b : Bool) : Same (.boolean b) (.bool b)
  | integer {a : Number} {v : Json.Number} {n : ℤ} (hsafe : isSafeInteger n)
      (ha : a.IsInteger n) (hv : v.IsInteger n) : Same (.number a) (.number v)
  | string (s : Text) : Same (.string s) (.string s)
  | array {items : List Value} {values : List Json.Value} (h : SameItems items values) :
      Same (.array items) (.array values)
  | object {fields : List (Text × Value)} {entries : List (Text × Json.Value)}
      (h : SameFields fields entries) : Same (.object fields) (.object entries)

inductive SameItems : List Value → List Json.Value → Prop
  | nil : SameItems [] []
  | cons {item : Value} {value : Json.Value} {items : List Value} {values : List Json.Value}
      (h : Same item value) (hs : SameItems items values) :
      SameItems (item :: items) (value :: values)

inductive SameFields : List (Text × Value) → List (Text × Json.Value) → Prop
  | nil : SameFields [] []
  | cons (name : Text) {field : Value} {value : Json.Value} {fields : List (Text × Value)}
      {entries : List (Text × Json.Value)} (h : Same field value)
      (hs : SameFields fields entries) :
      SameFields ((name, field) :: fields) ((name, value) :: entries)

end

theorem isFinite_of_isInteger {a : Number} {n : ℤ} (h : a.IsInteger n) :
  a.isFinite
  := by
  cases a with
  | nan => exact h.elim
  | infinity negative => exact h.elim
  | zero => rfl
  | decimal d => rfl

mutual

theorem Same.toJson {value : Value} {v : Json.Value} (h : Same value v) :
  value.toJson = some v.toText
  := by
  cases h with
  | null => rfl
  | boolean b => rfl
  | integer hsafe ha hv =>
    rw [Value.toJson, Value.stringify, isFinite_of_isInteger ha, if_pos rfl,
      Number.toText_integer ha hsafe, Json.Value.toText, Json.Number.toText_integer hv]
    · rintro _ ⟨⟩
    · rintro _ ⟨⟩
  | string s => rfl
  | array h => rw [Value.toJson, Json.Value.toText, h.itemJsons]
  | object h => rw [Value.toJson, Json.Value.toText, h.fieldJsons]

theorem SameItems.itemJsons {items : List Value} {values : List Json.Value}
    (h : SameItems items values) :
  JavaScript.itemJsons items = Json.itemTexts values
  := by
  cases h with
  | nil => rfl
  | cons h hs =>
    rw [JavaScript.itemJsons, Json.itemTexts, h.toJson, hs.itemJsons]
    rfl

theorem SameFields.fieldJsons {fields : List (Text × Value)} {entries : List (Text × Json.Value)}
    (h : SameFields fields entries) :
  JavaScript.fieldJsons fields = Json.fieldTexts entries
  := by
  cases h with
  | nil => rfl
  | cons name h hs =>
    rw [JavaScript.fieldJsons, Json.fieldTexts, h.toJson, hs.fieldJsons]

end

/-! ### Agreement -/

theorem hexPadded_eq (b : UInt8) :
  hexPadded b = hexByte b
  := by
  have hb : b.toNat < 256 := b.toNat_lt
  unfold hexPadded hexByte
  by_cases hsmall : b.toNat < 16
  · have hhigh : b.toNat / 16 = 0 := Nat.div_eq_of_lt hsmall
    rw [Nat.toDigits_of_lt_base hsmall, hhigh, Nat.mod_eq_of_lt hsmall]
    rfl
  · rw [Nat.toDigits_of_base_le (by decide) (by omega), Nat.toDigits_of_lt_base (by omega)]
    rfl

theorem quoteIdent_agrees (db : Db.DatabaseType) (ident : Text) :
  quoteIdent (copyDialectFor (some (engineName db))) ident = Db.quoteIdent db ident
  := by
  cases db <;> rfl

/-- The engines that the frontend has no dialect of. -/
def IsForeign (db : Db.DatabaseType) : Prop :=
  db = .mongodb ∨ db = .redis ∨ db = .elasticsearch

theorem copyDialectFor_foreign {db : Db.DatabaseType} (h : IsForeign db) :
  copyDialectFor (some (engineName db)) = .postgres
  := by
  obtain rfl | rfl | rfl := h <;> rfl

theorem quoteString_postgres (value : Text) :
  quoteString value .postgres
    = if '\\' ∈ value then 'E' :: Db.quoteLiteral (replaceChar '\\' ['\\', '\\'] value)
      else Db.quoteLiteral value
  := by
  unfold quoteString Db.quoteLiteral
  rw [if_neg (by simp)]
  by_cases hbackslash : '\\' ∈ value
  · simp [hbackslash]
  · simp [hbackslash, replaceChar_of_not_mem hbackslash]

theorem quoteString_hex {dialect : CopyDialect} (h : dialect = .mysql ∨ dialect = .clickhouse)
    (value : Text) :
  quoteString value dialect
    = if '\\' ∈ value ∨ '\x00' ∈ value then
        if dialect = .mysql then "CONVERT(X'" ++ Db.hexBytes value ++ "' USING utf8mb4)"
        else "unhex('" ++ Db.hexBytes value ++ "')"
      else Db.quoteLiteral value
  := by
  have hhex : (Utf8.encode value).flatMap hexPadded = Db.hexBytes value :=
    congrArg (List.flatMap · _) (funext hexPadded_eq)
  have hserver : dialect ≠ .sqlserver ∧ dialect ≠ .postgres := by
    obtain rfl | rfl := h <;> decide
  unfold quoteString Db.quoteLiteral
  rw [hhex]
  by_cases hescape : '\\' ∈ value ∨ '\x00' ∈ value
  · rw [if_pos ⟨h, hescape⟩, if_pos hescape]
  · rw [if_neg (fun hboth => hescape hboth.2), if_neg hescape]
    simp [hserver.1, hserver.2]

theorem quoteString_agrees (db : Db.DatabaseType) (value : Text) :
  quoteString value (copyDialectFor (some (engineName db))) = Db.stringLiteral db value
    ↔ ¬IsForeign db ∨ '\\' ∉ value
  := by
  by_cases hforeign : IsForeign db
  · have hbackend : Db.stringLiteral db value = Db.quoteLiteral value := by
      obtain rfl | rfl | rfl := hforeign <;> rfl
    rw [copyDialectFor_foreign hforeign, quoteString_postgres, hbackend]
    simp only [hforeign, not_true_eq_false, false_or]
    constructor
    · intro h hbackslash
      rw [if_pos hbackslash] at h
      cases (List.cons.inj h).1
    · intro hplain
      rw [if_neg hplain]
  · apply iff_of_true ?_ (.inl hforeign)
    cases db with
    | postgres => exact quoteString_postgres value
    | mysql => exact quoteString_hex (.inl rfl) value
    | clickhouse => exact quoteString_hex (.inr rfl) value
    | sqlserver => rfl
    | sqlite | duckdb | jdbc | rqlite => rfl
    | mongodb => exact (hforeign (.inl rfl)).elim
    | redis => exact (hforeign (.inr (.inl rfl))).elim
    | elasticsearch => exact (hforeign (.inr (.inr rfl))).elim

/-- The text that a value becomes a string literal with, if it becomes one. -/
def stringText : Json.Value → Option Text
  | .string s => some s
  | .array items => some (Json.Value.array items).toText
  | .object fields => some (Json.Value.object fields).toText
  | _ => none

theorem plainSqlValue_agrees (db : Db.DatabaseType) {value : Value} {v : Json.Value}
    (h : Same value v) :
  plainSqlValue value (copyDialectFor (some (engineName db))) = Db.valueToSqlFor db v
    ↔ ¬IsForeign db ∨ ∀ text, stringText v = some text → '\\' ∉ text
  := by
  have hstring : ∀ text, quoteString text (copyDialectFor (some (engineName db)))
      = Db.stringLiteral db text ↔ ¬IsForeign db ∨ ∀ t, some text = some t → '\\' ∉ t := by
    intro text
    rw [quoteString_agrees]
    simp
  cases h with
  | null => exact iff_of_true rfl (.inr fun _ h => by cases h)
  | boolean b =>
    apply iff_of_true ?_ (.inr fun _ h => by cases h)
    cases db <;> rfl
  | integer hsafe ha hv =>
    apply iff_of_true ?_ (.inr fun _ h => by cases h)
    rw [plainSqlValue, isFinite_of_isInteger ha, if_pos rfl, Number.toText_integer ha hsafe,
      Db.valueToSqlFor, Json.Number.toText_integer hv]
  | string s => exact hstring s
  | array h =>
    have hjson := (Same.array h).toJson
    rw [plainSqlValue, hjson]
    · exact hstring _
    all_goals simp
  | object h =>
    have hjson := (Same.object h).toJson
    rw [plainSqlValue, hjson]
    · exact hstring _
    all_goals simp

/-- The frontend and the backend write an identifier and a value in the same way. -/
def Agrees (db : Db.DatabaseType) (ident : Text) (value : Value) (v : Json.Value) : Prop :=
  quoteIdent (copyDialectFor (some (engineName db))) ident = Db.quoteIdent db ident
    ∧ sqlValue value (copyDialectFor (some (engineName db))) false
      = .ok (Db.valueToSqlFor db v)

/-- The frontend writes what the backend writes, unless a string with a backslash is for an engine
without a dialect of its own. -/
theorem sqlValue_agrees (db : Db.DatabaseType) (ident : Text) {value : Value} {v : Json.Value}
    (h : Same value v) :
  Agrees db ident value v
    ↔ db ∉ [Db.DatabaseType.mongodb, .redis, .elasticsearch]
      ∨ ∀ text, stringText v = some text → '\\' ∉ text
  := by
  have hforeign : db ∉ [Db.DatabaseType.mongodb, .redis, .elasticsearch] ↔ ¬IsForeign db := by
    simp [IsForeign]
  rw [Agrees, sqlValue, if_neg Bool.false_ne_true, Except.ok.injEq, plainSqlValue_agrees db h,
    hforeign]
  exact and_iff_right (quoteIdent_agrees db ident)

theorem sqlValue_agrees_words :
  Agrees .elasticsearch "a\"b" (.array [.string "c", .null]) (.array [.string "c", .null])
    ↔ Db.DatabaseType.elasticsearch ∉ [Db.DatabaseType.mongodb, .redis, .elasticsearch]
      ∨ ∀ text, stringText (.array [.string "c", .null]) = some text → '\\' ∉ text
  := by
  exact sqlValue_agrees _ _ (.array (.cons (.string _) (.cons .null .nil)))

/-- A backslash is written differently for Elasticsearch. -/
theorem sqlValue_disagrees :
  ¬ ∀ (db : Db.DatabaseType) (ident : Text) (value : Value) (v : Json.Value), Same value v →
    Agrees db ident value v
  := by
  intro h
  have hagrees := (h .elasticsearch [] _ _ (.string ['\\'])).2
  cases Except.ok.inj hagrees

end Workbench
