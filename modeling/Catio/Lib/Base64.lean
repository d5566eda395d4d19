import Catio.Lib.Utf8

/-!
# Base64

The standard encoding with padding: three bytes are four digits.  A `Codec` is what a reader of
encoded bytes may rely on, whatever it does with texts that encode nothing; the strict decoder,
which takes nothing but encodings, is one (`standard`).
-/

namespace Base64

/-- What is relied on of an encoder and a decoder. -/
structure Codec where
  encode : Bytes → Text
  decode : Text → Except Text Bytes
  decode_encode : ∀ bytes, decode (encode bytes) = .ok bytes
  encode_nil : encode [] = []
  visible : ∀ bytes, ∀ c ∈ encode bytes, c.toNat < 0x80 ∧ Text.isWhitespace c = false

theorem Codec.encode_ne_nil (codec : Codec) {bytes : Bytes} (h : bytes ≠ []) :
  codec.encode bytes ≠ []
  := by
  intro hnil
  have hsame := codec.decode_encode bytes
  rw [hnil, ← codec.encode_nil, codec.decode_encode] at hsame
  exact h (Except.ok.inj hsame).symm

/-! ### The standard encoding -/

/-- The digits. -/
def alphabet : Text :=
  "ABCDEFGHIJKLMNOPQRSTUVWXYZabcdefghijklmnopqrstuvwxyz0123456789+/"

def digit (n : ℕ) : Char :=
  alphabet.getD n 'A'

/-- The value of a digit. -/
def value (c : Char) : Option ℕ :=
  alphabet.idxOf? c

def encode : Bytes → Text
  | [] => []
  | [a] => [digit (a.toNat / 4), digit (a.toNat % 4 * 16), '=', '=']
  | [a, b] =>
      [digit (a.toNat / 4), digit (a.toNat % 4 * 16 + b.toNat / 16), digit (b.toNat % 16 * 4), '=']
  | a :: b :: c :: rest =>
      digit (a.toNat / 4) :: digit (a.toNat % 4 * 16 + b.toNat / 16)
        :: digit (b.toNat % 16 * 4 + c.toNat / 64) :: digit (c.toNat % 64) :: encode rest

/-- The bytes of three digits, of which the last may be padding; what they have beyond whole bytes
is zero. -/
def decodeLast (a b c : Char) : Option Bytes := do
  let x ← value a
  let y ← value b
  if c = '=' then
    if y % 16 = 0 then some [UInt8.ofNat (x * 4 + y / 16)] else none
  else do
    let z ← value c
    if z % 4 = 0 then
      some [UInt8.ofNat (x * 4 + y / 16), UInt8.ofNat (y % 16 * 16 + z / 4)]
    else none

def decode : Text → Option Bytes
  | [] => some []
  | a :: b :: c :: d :: rest =>
      if d = '=' then
        if rest = [] then decodeLast a b c else none
      else do
        let x ← value a
        let y ← value b
        let z ← value c
        let w ← value d
        let bytes ← decode rest
        some (UInt8.ofNat (x * 4 + y / 16) :: UInt8.ofNat (y % 16 * 16 + z / 4)
          :: UInt8.ofNat (z % 4 * 64 + w) :: bytes)
  | _ => none

theorem value_digit {n : ℕ} (h : n < 64) :
  value (digit n) = some n ∧ digit n ≠ '=' ∧ (digit n).toNat < 0x80
    ∧ Text.isWhitespace (digit n) = false
  := by
  have hall : ∀ m : Fin 64, value (digit m) = some m.val ∧ digit m ≠ '=' ∧ (digit m).toNat < 0x80
      ∧ Text.isWhitespace (digit m) = false := by
    decide +kernel
  exact hall ⟨n, h⟩

theorem byte_eq {a : UInt8} {n : ℕ} (h : n = a.toNat) :
  UInt8.ofNat n = a
  := by
  rw [h, UInt8.ofNat_toNat]

theorem decode_encode (bytes : Bytes) :
  decode (encode bytes) = some bytes
  := by
  fun_induction encode bytes with
  | case1 => rfl
  | case2 a =>
    have ha := a.toNat_lt
    obtain ⟨hx, -⟩ := value_digit (show a.toNat / 4 < 64 by omega)
    obtain ⟨hy, -⟩ := value_digit (show a.toNat % 4 * 16 < 64 by omega)
    have hzero : a.toNat % 4 * 16 % 16 = 0 := by omega
    have hbyte : UInt8.ofNat (a.toNat / 4 * 4 + a.toNat % 4 * 16 / 16) = a :=
      byte_eq (by omega)
    rw [decode, if_pos rfl, if_pos rfl, decodeLast, hx, hy]
    simp only [bind, Option.bind, hzero, if_true, hbyte]
  | case3 a b =>
    have ha := a.toNat_lt
    have hb := b.toNat_lt
    obtain ⟨hx, -⟩ := value_digit (show a.toNat / 4 < 64 by omega)
    obtain ⟨hy, -⟩ := value_digit (show a.toNat % 4 * 16 + b.toNat / 16 < 64 by omega)
    obtain ⟨hz, hpad, -⟩ := value_digit (show b.toNat % 16 * 4 < 64 by omega)
    have hzero : b.toNat % 16 * 4 % 4 = 0 := by omega
    have hfirst : UInt8.ofNat (a.toNat / 4 * 4 + (a.toNat % 4 * 16 + b.toNat / 16) / 16) = a :=
      byte_eq (by omega)
    have hsecond : UInt8.ofNat ((a.toNat % 4 * 16 + b.toNat / 16) % 16 * 16
        + b.toNat % 16 * 4 / 4) = b :=
      byte_eq (by omega)
    rw [decode, if_pos rfl, if_pos rfl, decodeLast, hx, hy, hz]
    simp only [bind, Option.bind, if_neg hpad, hzero, if_true, hfirst, hsecond]
  | case4 a b c rest ih =>
    have ha := a.toNat_lt
    have hb := b.toNat_lt
    have hc := c.toNat_lt
    obtain ⟨hx, -⟩ := value_digit (show a.toNat / 4 < 64 by omega)
    obtain ⟨hy, -⟩ := value_digit (show a.toNat % 4 * 16 + b.toNat / 16 < 64 by omega)
    obtain ⟨hz, -⟩ := value_digit (show b.toNat % 16 * 4 + c.toNat / 64 < 64 by omega)
    obtain ⟨hw, hpad, -⟩ := value_digit (show c.toNat % 64 < 64 by omega)
    have hfirst : UInt8.ofNat (a.toNat / 4 * 4 + (a.toNat % 4 * 16 + b.toNat / 16) / 16) = a :=
      byte_eq (by omega)
    have hsecond : UInt8.ofNat ((a.toNat % 4 * 16 + b.toNat / 16) % 16 * 16
        + (b.toNat % 16 * 4 + c.toNat / 64) / 4) = b :=
      byte_eq (by omega)
    have hthird : UInt8.ofNat ((b.toNat % 16 * 4 + c.toNat / 64) % 4 * 64 + c.toNat % 64) = c :=
      byte_eq (by omega)
    rw [decode, if_neg hpad, hx, hy, hz, hw, ih]
    simp only [bind, Option.bind, hfirst, hsecond, hthird]

theorem encode_visible (bytes : Bytes) :
  ∀ c ∈ encode bytes, c.toNat < 0x80 ∧ Text.isWhitespace c = false
  := by
  have hdigit {n : ℕ} (h : n < 64) : (digit n).toNat < 0x80 ∧ Text.isWhitespace (digit n) = false :=
    (value_digit h).2.2
  have hpad : '='.toNat < 0x80 ∧ Text.isWhitespace '=' = false := by decide
  fun_induction encode bytes with
  | case1 => simp
  | case2 a =>
    have ha := a.toNat_lt
    simp only [List.forall_mem_cons]
    exact ⟨hdigit (by omega), hdigit (by omega), hpad, hpad, by simp⟩
  | case3 a b =>
    have ha := a.toNat_lt
    have hb := b.toNat_lt
    simp only [List.forall_mem_cons]
    exact ⟨hdigit (by omega), hdigit (by omega), hdigit (by omega), hpad, by simp⟩
  | case4 a b c rest ih =>
    have ha := a.toNat_lt
    have hb := b.toNat_lt
    have hc := c.toNat_lt
    simp only [List.forall_mem_cons]
    exact ⟨hdigit (by omega), hdigit (by omega), hdigit (by omega), hdigit (by omega), ih⟩

/-- The strict decoder. -/
def standard : Codec where
  encode := encode
  decode text := (decode text).elim (.error "Invalid input") .ok
  decode_encode bytes := by rw [decode_encode]; rfl
  encode_nil := rfl
  visible := encode_visible

end Base64
