import Catio.Db.Dialect

/-!
# Binary values

The model of `pg_binary` in `typed_value.rs` and of `binary_to_json` in `result.rs`: a byte string
is read from the text that PostgreSQL writes it as, becomes a JSON text, and is embedded into
statements again.
-/

namespace Db

open Text Json

/-! ### Hexadecimal digits -/

/-- A byte string as JSON. -/
def binaryToJson (bytes : Bytes) : Value :=
  .string ("0x" ++ bytes.flatMap hexByte)

/-- The value of a digit that has been checked. -/
def nibble (c : Char) : ℕ :=
  if c.isDigit then c.toNat - '0'.toNat else c.toLower.toNat - 'a'.toNat + 10

/-- The bytes of digits that have been checked. -/
def bytesOfHex : Text → Bytes
  | a :: b :: rest => .ofNat (nibble a * 16 + nibble b) :: bytesOfHex rest
  | _ => []

/-- The byte string that hexadecimal digits stand for. -/
def readHex : Text → Option Bytes
  | [] => some []
  | [_] => none
  | a :: b :: rest => do
      let high ← hexValue a
      let low ← hexValue b
      let bytes ← readHex rest
      return .ofNat (high * 16 + low) :: bytes

theorem nibble_ascii : ∀ n < 128, if isHexDigit (.ofNat n)
    then hexValue (.ofNat n) = some (nibble (.ofNat n)) else hexValue (.ofNat n) = none := by
  decide

theorem hexValue_eq (c : Char) :
  hexValue c = if isHexDigit c then some (nibble c) else none
  := by
  by_cases hsmall : c.toNat < 128
  · have h := nibble_ascii c.toNat hsmall
    rw [Char.ofNat_toNat] at h
    split at h
    · rename_i hdigit
      rw [if_pos hdigit, h]
    · rename_i hdigit
      rw [if_neg hdigit, h]
  · have hnine : '9'.toNat = 57 := rfl
    have hupper : 'F'.toNat = 70 := rfl
    have hlower : 'f'.toNat = 102 := rfl
    have hle : ∀ d : Char, d.toNat < 128 → ¬c ≤ d := by
      intro d hd hcd
      have : c.toNat ≤ d.toNat := hcd
      omega
    have hdigit : ¬isHexDigit c := by
      have hlast : 57 < c.val := UInt32.not_le.mp (hle '9' (by decide))
      simp [isHexDigit, Char.isDigit, hle 'f' (by decide), hle 'F' (by decide), hlast]
    rw [if_neg hdigit, hexValue, if_neg (fun h => hle '9' (by decide) h.2),
      if_neg (fun h => hle 'f' (by decide) h.2), if_neg (fun h => hle 'F' (by decide) h.2)]

theorem readHex_eq (hex : Text) :
  readHex hex = if hex.length % 2 ≠ 0 ∨ ¬hex.all isHexDigit then none else some (bytesOfHex hex)
  := by
  induction hex using readHex.induct with
  | case1 => rfl
  | case2 c => rfl
  | case3 a b rest ih =>
    have hlength : (a :: b :: rest).length % 2 = rest.length % 2 := by
      rw [List.length_cons, List.length_cons]
      omega
    rw [readHex, hexValue_eq, hexValue_eq, ih, hlength, List.all_cons, List.all_cons]
    cases isHexDigit a with
    | false => simp
    | true =>
      cases isHexDigit b with
      | false => simp
      | true =>
        simp only [↓reduceIte, Option.bind_eq_bind, Option.bind_some, Bool.true_and,
          bytesOfHex]
        split <;> rfl

theorem readHex_hexBytes (bytes : Bytes) :
  readHex (bytes.flatMap hexByte) = some bytes
  := by
  induction bytes with
  | nil => rfl
  | cons b bytes ih =>
    have hb : b.toNat < 256 := b.toNat_lt
    have hhigh := hexValue_digitChar (b.toNat / 16) (by omega)
    have hlow := hexValue_digitChar (b.toNat % 16) (by omega)
    have hbyte : b.toNat / 16 * 16 + b.toNat % 16 = b.toNat := by omega
    simp only [List.flatMap_cons, hexByte, List.cons_append, List.nil_append, readHex, hhigh,
      hlow, ih, Option.bind_eq_bind, Option.bind_some, hbyte, UInt8.ofNat_toNat]
    rfl

theorem hexBytes_checked (bytes : Bytes) :
  ¬((bytes.flatMap hexByte).length % 2 ≠ 0 ∨ ¬(bytes.flatMap hexByte).all isHexDigit)
    ∧ bytesOfHex (bytes.flatMap hexByte) = bytes
  := by
  have h := readHex_hexBytes bytes
  rw [readHex_eq] at h
  split at h
  · cases h
  · rename_i hchecked
    exact ⟨hchecked, Option.some.inj h⟩

/-! ### Escapes -/

/-- The error on a text that stands for no byte string. -/
def invalidBytea : DbError :=
  .queryFailed "Invalid PostgreSQL bytea representation"

def isOctalDigit (b : UInt8) : Bool :=
  '0'.toNat ≤ b.toNat && b.toNat ≤ '7'.toNat

def octalByte (x y z : UInt8) : Except DbError UInt8 :=
  let byte := (x.toNat - '0'.toNat) * 64 + (y.toNat - '0'.toNat) * 8 + (z.toNat - '0'.toNat)
  if byte < 256 then .ok (.ofNat byte) else .error invalidBytea

/-- The bytes that escapes and plain bytes stand for. -/
def unescape : Bytes → Except DbError Bytes
  | [] => .ok []
  | b :: rest =>
      if b ≠ 0x5c then do
        let output ← unescape rest
        return b :: output
      else
        match rest with
        | [] => .error invalidBytea
        | x :: rest =>
            if x = 0x5c then do
              let output ← unescape rest
              return 0x5c :: output
            else
              match rest with
              | y :: z :: rest =>
                  if isOctalDigit x ∧ isOctalDigit y ∧ isOctalDigit z then do
                    let byte ← octalByte x y z
                    let output ← unescape rest
                    return byte :: output
                  else .error invalidBytea
              | _ => .error invalidBytea

/-- The byte string of a text in one of the two formats of PostgreSQL. -/
def pgBytes (text : Text) : Except DbError Bytes :=
  match stripPrefix "\\x" text with
  | some hex =>
      if hex.length % 2 ≠ 0 ∨ ¬hex.all isHexDigit then .error invalidBytea
      else .ok (bytesOfHex hex)
  | none => unescape (Utf8.encode text)

/-- The byte string of a text of PostgreSQL, as JSON. -/
def pgBinary (text : Text) : Except DbError Value := do
  let bytes ← pgBytes text
  return binaryToJson bytes

/-- The escapes of PostgreSQL: a byte besides the backslash stands for itself, and three octal
digits for a byte. -/
inductive Escaped : Bytes → Bytes → Prop
  | nil : Escaped [] []
  | plain {b : UInt8} {s bytes : Bytes} (h : b ≠ 0x5c) (hs : Escaped s bytes) :
      Escaped (b :: s) (b :: bytes)
  | backslash {s bytes : Bytes} (hs : Escaped s bytes) :
      Escaped (0x5c :: 0x5c :: s) (0x5c :: bytes)
  | octal {x y z : ℕ} {s bytes : Bytes} (hx : x < 8) (hy : y < 8) (hz : z < 8)
      (hbyte : x * 64 + y * 8 + z < 256) (hs : Escaped s bytes) :
      Escaped (0x5c :: .ofNat (x + 48) :: .ofNat (y + 48) :: .ofNat (z + 48) :: s)
        (.ofNat (x * 64 + y * 8 + z) :: bytes)

/-- A text stands for a byte string, in the hexadecimal format or in the one with escapes. -/
def Represents (text : Text) (bytes : Bytes) : Prop :=
  (∃ hex, text = "\\x" ++ hex ∧ readHex hex = some bytes) ∨ Escaped (Utf8.encode text) bytes

/-! ### What PostgreSQL writes -/

/-- The hexadecimal format. -/
def hexOutput (bytes : Bytes) : Text :=
  "\\x" ++ bytes.flatMap hexByte

/-- A byte in the format with escapes: backslashes are doubled, and what is not printable is
written in octal digits. -/
def escapeByte (b : UInt8) : Text :=
  if b = 0x5c then ['\\', '\\']
  else if b.toNat < 0x20 ∨ 0x7e < b.toNat then
    ['\\', Nat.digitChar (b.toNat / 64), Nat.digitChar (b.toNat / 8 % 8),
      Nat.digitChar (b.toNat % 8)]
  else [Char.ofNat b.toNat]

/-- The format with escapes. -/
def escapeOutput (bytes : Bytes) : Text :=
  bytes.flatMap escapeByte

/-! ### What dialects read -/

/-- The content of a string literal behind its opening quote, and what follows it.  A doubled quote
stands for a quote. -/
def readString : Text → Option (Text × Text)
  | [] => none
  | c :: rest =>
      if c ≠ '\'' then (readString rest).map fun (content, rest) => (c :: content, rest)
      else
        match rest with
        | [] => some ([], [])
        | d :: rest =>
            if d ≠ '\'' then some ([], d :: rest)
            else (readString rest).map fun (content, rest) => ('\'' :: content, rest)

/-- The byte string of a literal or a call with hexadecimal digits in quotes. -/
def readQuoted (opening closing literal : Text) : Option Bytes := do
  let rest ← stripPrefix opening literal
  let (hex, rest) ← readString rest
  if rest = closing then readHex hex else none

/-- The byte string that a dialect reads a literal as. -/
def readBinary (db : DatabaseType) (literal : Text) : Option Bytes :=
  match db with
  | .postgres => readQuoted "decode('" ", 'hex')" literal
  | .sqlserver => do
      let hex ← stripPrefix "0x" literal
      readHex hex
  | .duckdb => readQuoted "from_hex('" ")" literal
  | .clickhouse => readQuoted "unhex('" ")" literal
  | .mysql | .sqlite | .rqlite | .jdbc => readQuoted "X'" [] literal
  | .mongodb | .redis | .elasticsearch => none

/-! ### Reading what PostgreSQL writes -/

theorem isOctalDigit_iff (b : UInt8) :
  isOctalDigit b ↔ ∃ d < 8, b = .ofNat (d + 48)
  := by
  have hzero : '0'.toNat = 48 := rfl
  have hseven : '7'.toNat = 55 := rfl
  rw [isOctalDigit, Bool.and_eq_true, decide_eq_true_iff, decide_eq_true_iff, hzero, hseven]
  constructor
  · rintro ⟨hlow, hhigh⟩
    refine ⟨b.toNat - 48, by omega, ?_⟩
    rw [Nat.sub_add_cancel hlow, UInt8.ofNat_toNat]
  · rintro ⟨d, hd, rfl⟩
    rw [Utf8.toNat_byte (by omega)]
    omega

theorem octalByte_eq {x y z : ℕ} (hx : x < 8) (hy : y < 8) (hz : z < 8) :
  octalByte (.ofNat (x + 48)) (.ofNat (y + 48)) (.ofNat (z + 48))
    = if x * 64 + y * 8 + z < 256 then .ok (.ofNat (x * 64 + y * 8 + z))
      else .error invalidBytea
  := by
  have hzero : '0'.toNat = 48 := rfl
  simp only [octalByte, hzero, Utf8.toNat_byte (show x + 48 < 256 by omega),
    Utf8.toNat_byte (show y + 48 < 256 by omega), Utf8.toNat_byte (show z + 48 < 256 by omega),
    Nat.add_sub_cancel]

theorem unescape_of_escaped {s bytes : Bytes} (h : Escaped s bytes) :
  unescape s = .ok bytes
  := by
  induction h with
  | nil => rfl
  | plain h _ ih =>
    unfold unescape
    rw [if_pos h, ih]
    rfl
  | backslash _ ih =>
    unfold unescape
    rw [if_neg (not_not.mpr rfl)]
    dsimp only
    rw [if_pos rfl, ih]
    rfl
  | @octal x y z s bytes hx hy hz hbyte _ ih =>
    have hplain : (UInt8.ofNat (x + 48)) ≠ 0x5c := by
      intro h
      have hvalue := congrArg UInt8.toNat h
      rw [Utf8.toNat_byte (by omega)] at hvalue
      have : (0x5c : UInt8).toNat = 92 := rfl
      omega
    have hdigits : isOctalDigit (.ofNat (x + 48)) ∧ isOctalDigit (.ofNat (y + 48))
        ∧ isOctalDigit (.ofNat (z + 48)) :=
      ⟨(isOctalDigit_iff _).mpr ⟨x, hx, rfl⟩, (isOctalDigit_iff _).mpr ⟨y, hy, rfl⟩,
        (isOctalDigit_iff _).mpr ⟨z, hz, rfl⟩⟩
    unfold unescape
    rw [if_neg (not_not.mpr rfl)]
    dsimp only
    rw [if_neg hplain, if_pos hdigits, octalByte_eq hx hy hz, if_pos hbyte, ih]
    rfl

theorem escaped_of_unescape :
  ∀ {s bytes : Bytes}, unescape s = .ok bytes → Escaped s bytes
  | [], _, h => by
      obtain rfl := Except.ok.inj h
      exact .nil
  | b :: rest, bytes, h => by
      unfold unescape at h
      by_cases hplain : b ≠ 0x5c
      · rw [if_pos hplain] at h
        obtain ⟨output, hrest, hout⟩ := Result.bind_ok.mp h
        obtain rfl := Except.ok.inj hout
        exact .plain hplain (escaped_of_unescape hrest)
      · obtain rfl := not_not.mp hplain
        rw [if_neg hplain] at h
        match rest, h with
        | [], h => cases h
        | x :: rest, h =>
            dsimp only at h
            by_cases hx : x = 0x5c
            · subst hx
              rw [if_pos rfl] at h
              obtain ⟨output, hrest, hout⟩ := Result.bind_ok.mp h
              obtain rfl := Except.ok.inj hout
              exact .backslash (escaped_of_unescape hrest)
            · rw [if_neg hx] at h
              match rest, h with
              | [], h => cases h
              | [_], h => cases h
              | y :: z :: rest, h =>
                  dsimp only at h
                  split at h
                  · rename_i hdigits
                    obtain ⟨byte, hbyte, h⟩ := Result.bind_ok.mp h
                    obtain ⟨output, hrest, hout⟩ := Result.bind_ok.mp h
                    obtain rfl := Except.ok.inj hout
                    obtain ⟨dx, hdx, rfl⟩ := (isOctalDigit_iff x).mp hdigits.1
                    obtain ⟨dy, hdy, rfl⟩ := (isOctalDigit_iff y).mp hdigits.2.1
                    obtain ⟨dz, hdz, rfl⟩ := (isOctalDigit_iff z).mp hdigits.2.2
                    rw [octalByte_eq hdx hdy hdz] at hbyte
                    split at hbyte
                    · rename_i hsmall
                      obtain rfl := Except.ok.inj hbyte
                      exact .octal hdx hdy hdz hsmall (escaped_of_unescape hrest)
                    · cases hbyte
                  · cases h

theorem not_escaped_hex {hex : Text} {bytes : Bytes} :
  ¬Escaped (Utf8.encode ("\\x" ++ hex)) bytes
  := by
  intro h
  have hstart : Utf8.encode ("\\x" ++ hex) = 0x5c :: 0x78 :: Utf8.encode hex := rfl
  generalize hs : Utf8.encode ("\\x" ++ hex) = s at h
  rw [hstart] at hs
  cases h with
  | nil => cases hs
  | plain hplain _ => exact hplain (List.cons.inj hs).1.symm
  | backslash _ => cases hs
  | octal hx _ _ _ _ =>
    have hvalue := congrArg UInt8.toNat (List.cons.inj (List.cons.inj hs).2).1
    rw [Utf8.toNat_byte (by omega)] at hvalue
    have : (0x78 : UInt8).toNat = 120 := rfl
    omega

theorem pgBytes_eq_ok (text : Text) (bytes : Bytes) :
  pgBytes text = .ok bytes ↔ Represents text bytes
  := by
  unfold pgBytes
  cases hprefix : stripPrefix "\\x" text with
  | some hex =>
    obtain rfl := stripPrefix_eq_some hprefix
    have hread := readHex_eq hex
    dsimp only
    constructor
    · intro h
      split at h
      · cases h
      · rename_i hchecked
        rw [if_neg hchecked, Except.ok.inj h] at hread
        exact .inl ⟨hex, rfl, hread⟩
    · rintro (⟨hex', htext, hhex⟩ | hescaped)
      · obtain rfl := List.append_cancel_left htext
        rw [hhex] at hread
        split at hread
        · cases hread
        · rename_i hchecked
          rw [if_neg hchecked, Option.some.inj hread]
      · exact (not_escaped_hex hescaped).elim
  | none =>
    constructor
    · intro h
      exact .inr (escaped_of_unescape h)
    · rintro (⟨hex, rfl, _⟩ | hescaped)
      · rw [stripPrefix_append] at hprefix
        cases hprefix
      · exact unescape_of_escaped hescaped

theorem pgBinary_eq_ok (text : Text) (v : Value) :
  pgBinary text = .ok v ↔ ∃ bytes, Represents text bytes ∧ binaryToJson bytes = v
  := by
  unfold pgBinary
  rw [Result.bind_ok]
  simp only [pgBytes_eq_ok, pure, Except.pure, Except.ok.injEq]

theorem encode_digitChar : ∀ d < 8,
    String.utf8EncodeChar (Nat.digitChar d) = [.ofNat (d + 48)] := by
  decide

theorem Escaped.byte {s bytes : Bytes} (h : Escaped s bytes) (b : UInt8) :
  Escaped (Utf8.encode (escapeByte b) ++ s) (b :: bytes)
  := by
  have hb : b.toNat < 256 := b.toNat_lt
  unfold escapeByte
  split
  · rename_i hbackslash
    obtain rfl := hbackslash
    exact .backslash h
  split
  · have hx : b.toNat / 64 < 8 := by omega
    have hy : b.toNat / 8 % 8 < 8 := by omega
    have hz : b.toNat % 8 < 8 := by omega
    have hvalue : b.toNat / 64 * 64 + b.toNat / 8 % 8 * 8 + b.toNat % 8 = b.toNat := by omega
    have hoctal := Escaped.octal hx hy hz (by omega) h
    rw [hvalue, UInt8.ofNat_toNat] at hoctal
    simp only [Utf8.encode, List.flatMap_cons, List.flatMap_nil, encode_digitChar _ hx,
      encode_digitChar _ hy, encode_digitChar _ hz]
    exact hoctal
  · rename_i hplain hprintable
    simp only [Utf8.encode, List.flatMap_cons, List.flatMap_nil,
      Utf8.encode_one (show b.toNat < 0x80 by omega)]
    exact .plain hplain h

theorem represents_output (bytes : Bytes) :
  Represents (hexOutput bytes) bytes ∧ Represents (escapeOutput bytes) bytes
  := by
  constructor
  · exact .inl ⟨_, rfl, readHex_hexBytes bytes⟩
  · apply Or.inr
    induction bytes with
    | nil => exact .nil
    | cons b bytes ih =>
      rw [escapeOutput, List.flatMap_cons, Utf8.encode_append]
      exact ih.byte b

/-! ### Literals -/

theorem ne_quote_of_isHexDigit {c : Char} (h : isHexDigit c) :
  c ≠ '\''
  := by
  rintro rfl
  revert h
  decide

theorem readString_hex {hex : Text} (h : ∀ c ∈ hex, isHexDigit c) {rest : Text}
    (hrest : rest.head? ≠ some '\'') :
  readString (hex ++ '\'' :: rest) = some (hex, rest)
  := by
  induction hex with
  | nil =>
    rw [List.nil_append]
    unfold readString
    rw [if_neg (not_not.mpr rfl)]
    cases rest with
    | nil => rfl
    | cons d rest =>
      have hd : d ≠ '\'' := fun hd => hrest (congrArg some hd)
      dsimp only
      rw [if_pos hd]
  | cons c hex ih =>
    rw [List.cons_append]
    unfold readString
    rw [if_pos (ne_quote_of_isHexDigit (h c (List.mem_cons_self ..))),
      ih fun c hc => h c (List.mem_cons_of_mem _ hc)]
    rfl

theorem readQuoted_hexBytes (opening : Text) {closing : Text} (hclosing : closing.head? ≠ some '\'')
    (bytes : Bytes) :
  readQuoted opening closing (opening ++ (bytes.flatMap hexByte ++ '\'' :: closing)) = some bytes
  := by
  have hdigits : ∀ c ∈ bytes.flatMap hexByte, isHexDigit c := by
    intro c hc
    have hall := (hexBytes_checked bytes).1
    rw [not_or, not_not, not_not, List.all_eq_true] at hall
    exact hall.2 c hc
  rw [readQuoted, stripPrefix_append, Option.bind_eq_bind, Option.bind_some,
    readString_hex hdigits hclosing]
  simp only [Option.bind_eq_bind, Option.bind_some, ↓reduceIte, readHex_hexBytes]

theorem binaryHex_binaryToJson (bytes : Bytes) :
  binaryHex (binaryToJson bytes) = .ok (bytes.flatMap hexByte)
  := by
  simp only [binaryHex, binaryToJson, Value.asStr, stripPrefix_append, Option.some_or]
  rw [if_neg (hexBytes_checked bytes).1]

/-- The engines without statements in SQL. -/
def DatabaseType.IsSql (db : DatabaseType) : Prop :=
  db ∉ [DatabaseType.mongodb, .redis, .elasticsearch]

theorem sqlValue_binaryToJson {db : DatabaseType} (h : db.IsSql) (bytes : Bytes) :
  ∃ literal, sqlValue db (binaryToJson bytes) true = .ok literal
    ∧ readBinary db literal = some bytes
  := by
  have hnull : ¬((!true) = true ∨ (binaryToJson bytes).isNull = true) := by
    rintro (h | h) <;> cases h
  unfold sqlValue
  rw [if_neg hnull, binaryHex_binaryToJson]
  simp only [bind, Except.bind]
  cases db with
  | postgres =>
    refine ⟨_, rfl, ?_⟩
    rw [List.append_assoc]
    exact readQuoted_hexBytes "decode('" (by decide) bytes
  | sqlserver =>
    refine ⟨_, rfl, ?_⟩
    rw [readBinary, stripPrefix_append, Option.bind_eq_bind, Option.bind_some,
      readHex_hexBytes]
  | duckdb =>
    refine ⟨_, rfl, ?_⟩
    rw [List.append_assoc]
    exact readQuoted_hexBytes "from_hex('" (by decide) bytes
  | clickhouse =>
    refine ⟨_, rfl, ?_⟩
    rw [List.append_assoc]
    exact readQuoted_hexBytes "unhex('" (by decide) bytes
  | mysql | sqlite | rqlite | jdbc =>
    refine ⟨_, rfl, ?_⟩
    rw [List.append_assoc]
    exact readQuoted_hexBytes "X'" (by decide) bytes
  | mongodb | redis | elasticsearch => exact (h (by decide)).elim

/-- Every byte string is read back from both texts of PostgreSQL, nothing else is read as bytes, and
a binary literal of every engine with SQL denotes the bytes. -/
theorem binaryValues_exact :
  (∀ bytes, pgBinary (hexOutput bytes) = .ok (binaryToJson bytes)
    ∧ pgBinary (escapeOutput bytes) = .ok (binaryToJson bytes))
  ∧ (∀ text v, pgBinary text = .ok v ↔ ∃ bytes, Represents text bytes ∧ binaryToJson bytes = v)
  ∧ (∀ bytes, ∀ db : DatabaseType, db.IsSql →
    ∃ literal, sqlValue db (binaryToJson bytes) true = .ok literal
      ∧ readBinary db literal = some bytes)
  := by
  refine ⟨fun bytes => ?_, pgBinary_eq_ok, fun bytes db h => sqlValue_binaryToJson h bytes⟩
  obtain ⟨hhex, hescape⟩ := represents_output bytes
  exact ⟨(pgBinary_eq_ok _ _).mpr ⟨bytes, hhex, rfl⟩,
    (pgBinary_eq_ok _ _).mpr ⟨bytes, hescape, rfl⟩⟩

end Db
