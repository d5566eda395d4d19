import Catio.Lib.Scan
import Catio.Lib.Text

/-!
# UTF-8

Strict decoding of UTF-8 as `str::from_utf8` does it: `decodeChar` reads one character,
tells an incomplete character from an invalid one, and `fromUtf8` reads a whole byte
string.  Decoding may be cut anywhere between two calls, as long as the bytes of an
incomplete character are kept (`fromUtf8_append`), and it inverts the encoding
(`fromUtf8_encode`).
-/

/-- A byte string. -/
abbrev Bytes := List UInt8

namespace Utf8

open Scan

/-- What stands at the start of a byte string. -/
inductive Head where
  | char (c : Char) (width : ℕ)
  | incomplete
  | invalid (errorLen : ℕ)
  deriving DecidableEq

/-- A continuation byte. -/
def isTail (b : UInt8) : Bool :=
  0x80 ≤ b.toNat && b.toNat ≤ 0xBF

/-- The second bytes that may follow a first byte of a sequence of three. -/
def secondOfThree (first second : UInt8) : Bool :=
  let lo := if first.toNat = 0xE0 then 0xA0 else 0x80
  let hi := if first.toNat = 0xED then 0x9F else 0xBF
  lo ≤ second.toNat && second.toNat ≤ hi

/-- The second bytes that may follow a first byte of a sequence of four. -/
def secondOfFour (first second : UInt8) : Bool :=
  let lo := if first.toNat = 0xF0 then 0x90 else 0x80
  let hi := if first.toNat = 0xF4 then 0x8F else 0xBF
  lo ≤ second.toNat && second.toNat ≤ hi

/-- The rest of a sequence of two bytes. -/
def decodeTwo (first : UInt8) : Bytes → Head
  | [] => .incomplete
  | b :: _ =>
      if isTail b then .char (.ofNat ((first.toNat - 0xC0) * 64 + (b.toNat - 0x80))) 2
      else .invalid 1

/-- The rest of a sequence of three bytes. -/
def decodeThree (first : UInt8) : Bytes → Head
  | [] => .incomplete
  | b :: bs =>
      if secondOfThree first b then
        match bs with
        | [] => .incomplete
        | c :: _ =>
            if isTail c then
              .char (.ofNat ((first.toNat - 0xE0) * 4096 + (b.toNat - 0x80) * 64
                + (c.toNat - 0x80))) 3
            else .invalid 2
      else .invalid 1

/-- The rest of a sequence of four bytes. -/
def decodeFour (first : UInt8) : Bytes → Head
  | [] => .incomplete
  | b :: bs =>
      if secondOfFour first b then
        match bs with
        | [] => .incomplete
        | c :: cs =>
            if isTail c then
              match cs with
              | [] => .incomplete
              | d :: _ =>
                  if isTail d then
                    .char (.ofNat ((first.toNat - 0xF0) * 262144 + (b.toNat - 0x80) * 4096
                      + (c.toNat - 0x80) * 64 + (d.toNat - 0x80))) 4
                  else .invalid 3
            else .invalid 2
      else .invalid 1

/-- The character at the start of a byte string, by its first byte and the rest. -/
def decodeChar (first : UInt8) (rest : Bytes) : Head :=
  if first.toNat < 0x80 then .char (.ofNat first.toNat) 1
  else if first.toNat < 0xC2 then .invalid 1
  else if first.toNat < 0xE0 then decodeTwo first rest
  else if first.toNat < 0xF0 then decodeThree first rest
  else if first.toNat < 0xF5 then decodeFour first rest
  else .invalid 1

/-- Why a byte string is not UTF-8: the bytes from `rest` on are an incomplete character,
or hold an invalid one. -/
inductive Failure where
  | incomplete (rest : Bytes)
  | invalid (rest : Bytes) (errorLen : ℕ)
  deriving DecidableEq

/-- One turn of the decoder. -/
def decodeTurn (_ : Unit) (first : UInt8) (rest : Bytes) : Turn Unit Char (Option Failure) :=
  match decodeChar first rest with
  | .char c width => .next () [c] (width - 1)
  | .incomplete => .stop (some (.incomplete (first :: rest)))
  | .invalid errorLen => .stop (some (.invalid (first :: rest) errorLen))

/-- The characters decoded, and why decoding stopped before the end, if it did. -/
def fromUtf8 (bytes : Bytes) : Text × Option Failure :=
  loop decodeTurn (fun _ => none) 0 () bytes

/-- One turn of the decoder that puts U+FFFD in the place of what is no character. -/
def lossyTurn (_ : Unit) (first : UInt8) (rest : Bytes) : Turn Unit Char Unit :=
  match decodeChar first rest with
  | .char c width => .next () [c] (width - 1)
  | .incomplete => .next () ['\uFFFD'] rest.length
  | .invalid errorLen => .next () ['\uFFFD'] (errorLen - 1)

/-- The text of a byte string, with U+FFFD in the place of what is no character. -/
def fromUtf8Lossy (bytes : Bytes) : Text :=
  (loop lossyTurn id 0 () bytes).1

/-- The encoding of a text. -/
def encode (t : Text) : Bytes :=
  t.flatMap String.utf8EncodeChar

@[simp]
theorem encode_nil : encode [] = [] := rfl

@[simp]
theorem encode_append (s t : Text) :
  encode (s ++ t) = encode s ++ encode t
  := List.flatMap_append

theorem length_encode (t : Text) :
  (encode t).length = Text.utf8Len t
  := by
  simp only [encode, Text.utf8Len, List.length_flatMap, String.length_utf8EncodeChar]

/-! ### Further input -/

theorem decodeChar_append (first : UInt8) (rest ys : Bytes)
    (h : decodeChar first rest ≠ .incomplete) :
  decodeChar first (rest ++ ys) = decodeChar first rest
  := by
  unfold decodeChar at h ⊢
  split_ifs at h ⊢ with h₁ h₂ h₃ h₄ h₅
  · rfl
  · rfl
  · match rest, h with
    | b :: _, _ => rfl
  · match rest, h with
    | b :: bs, h =>
      simp only [List.cons_append, decodeThree] at h ⊢
      split_ifs at h ⊢
      · match bs, h with
        | c :: _, _ => rfl
      · rfl
  · match rest, h with
    | b :: bs, h =>
      simp only [List.cons_append, decodeFour] at h ⊢
      split_ifs at h ⊢
      · match bs, h with
        | c :: cs, h =>
          simp only [List.cons_append] at h ⊢
          split_ifs at h ⊢
          · match cs, h with
            | d :: _, _ => rfl
          · rfl
      · rfl
  · rfl

variable {c : Char} {first : UInt8} {t : Text} {bytes : Bytes} {rest : Bytes} {width : ℕ} {n : ℕ}
    {b : UInt8}

theorem decodeChar_fits (h : decodeChar first rest = .char c width) :
  width - 1 ≤ rest.length
  := by
  unfold decodeChar at h
  split_ifs at h with h₁ h₂ h₃ h₄ h₅
  · obtain ⟨-, rfl⟩ := Head.char.inj h
    apply Nat.zero_le
  · match rest, h with
    | b :: _, h =>
      simp only [decodeTwo] at h
      split_ifs at h
      obtain ⟨-, rfl⟩ := Head.char.inj h
      simp
  · match rest, h with
    | b :: bs, h =>
      simp only [decodeThree] at h
      split_ifs at h
      match bs, h with
      | c :: _, h =>
        simp only at h
        split_ifs at h
        obtain ⟨-, rfl⟩ := Head.char.inj h
        simp
  · match rest, h with
    | b :: bs, h =>
      simp only [decodeFour] at h
      split_ifs at h
      match bs, h with
      | c :: cs, h =>
        simp only at h
        split_ifs at h
        match cs, h with
        | d :: _, h =>
          simp only at h
          split_ifs at h
          obtain ⟨-, rfl⟩ := Head.char.inj h
          simp

theorem decodeTurn_char (h : decodeChar first rest = .char c width) :
  decodeTurn () first rest = .next () [c] (width - 1)
  := by
  rw [decodeTurn, h]

theorem decodeTurn_fits : Fits decodeTurn := by
  intro s first rest s' out k h
  unfold decodeTurn at h
  split at h
  · next hchar =>
    cases h
    apply decodeChar_fits hchar
  · cases h
  · cases h

theorem decodeTurn_stable : Stable decodeTurn := by
  intro s first rest s' out k ys h
  unfold decodeTurn at h ⊢
  split at h
  · next hchar =>
    rw [decodeChar_append first rest ys (by simp [hchar]), hchar]
    exact h
  · cases h
  · cases h

theorem fromUtf8_append (xs ys : Bytes) :
  fromUtf8 (xs ++ ys)
    = match (fromUtf8 xs).2 with
      | none => ((fromUtf8 xs).1 ++ (fromUtf8 ys).1, (fromUtf8 ys).2)
      | some (.incomplete rest) =>
          ((fromUtf8 xs).1 ++ (fromUtf8 (rest ++ ys)).1, (fromUtf8 (rest ++ ys)).2)
      | some (.invalid rest n) => ((fromUtf8 xs).1, some (.invalid (rest ++ ys) n))
  := by
  rcases exists_reads decodeTurn_fits (fun _ => none) () xs with
    ⟨s', out, hr, hl⟩ | ⟨s', y, zs, out, r, hr, hs, hl⟩
  · have happend := (hr.append decodeTurn_stable ys).loop_eq fun _ => none
    simp only [fromUtf8, hl]
    exact happend
  · have happend := (hr.append decodeTurn_stable ys).loop_eq fun _ => none
    simp only [fromUtf8, hl, happend]
    unfold decodeTurn at hs
    split at hs
    · cases hs
    · cases hs
      rfl
    · next n hinvalid =>
      cases hs
      have hstop : decodeTurn s' y (zs ++ ys) = .stop (some (.invalid (y :: (zs ++ ys)) n)) := by
        rw [decodeTurn, decodeChar_append y zs ys (by simp [hinvalid]), hinvalid]
      simp only [List.cons_append, loop_stop hstop, List.append_nil]

/-! ### Encoding and decoding -/

theorem toNat_byte (h : n < 256) :
  (UInt8.ofNat n).toNat = n
  := by
  rw [UInt8.toNat_ofNat', Nat.mod_eq_of_lt h]

theorem isTail_byte (h : n < 64) :
  isTail (UInt8.ofNat (n + 0x80)) = true
  := by
  simp only [isTail, toNat_byte (show n + 0x80 < 256 by omega), Bool.and_eq_true, decide_eq_true_eq]
  omega

theorem decodeChar_one (n : ℕ) (rest : Bytes) (h : n ≤ 0x7F) :
  decodeChar (UInt8.ofNat n) rest = .char (.ofNat n) 1
  := by
  have hbyte := toNat_byte (show n < 256 by omega)
  rw [decodeChar, hbyte, if_pos (by omega)]

theorem decodeChar_two (n : ℕ) (rest : Bytes) (h : 0x7F < n) (h' : n ≤ 0x7FF) :
  decodeChar (UInt8.ofNat (n / 64 % 0x20 + 0xC0)) (UInt8.ofNat (n % 0x40 + 0x80) :: rest)
    = .char (.ofNat n) 2
  := by
  have hfirst := toNat_byte (show n / 64 % 0x20 + 0xC0 < 256 by omega)
  have hsecond := toNat_byte (show n % 0x40 + 0x80 < 256 by omega)
  have htail := isTail_byte (show n % 0x40 < 64 by omega)
  have hvalue : (n / 64 % 0x20 + 0xC0 - 0xC0) * 64 + (n % 0x40 + 0x80 - 0x80) = n := by omega
  rw [decodeChar, hfirst, if_neg (by omega), if_neg (by omega), if_pos (by omega), decodeTwo,
    if_pos htail, hfirst, hsecond, hvalue]

theorem decodeChar_three (n : ℕ) (rest : Bytes) (h : 0x7FF < n) (h' : n ≤ 0xFFFF)
    (hsurrogate : n < 0xD800 ∨ 0xDFFF < n) :
  decodeChar (UInt8.ofNat (n / 4096 % 0x10 + 0xE0))
      (UInt8.ofNat (n / 64 % 0x40 + 0x80) :: UInt8.ofNat (n % 0x40 + 0x80) :: rest)
    = .char (.ofNat n) 3
  := by
  have hfirst := toNat_byte (show n / 4096 % 0x10 + 0xE0 < 256 by omega)
  have hsecond := toNat_byte (show n / 64 % 0x40 + 0x80 < 256 by omega)
  have hthird := toNat_byte (show n % 0x40 + 0x80 < 256 by omega)
  have htail := isTail_byte (show n % 0x40 < 64 by omega)
  have hrange : secondOfThree (UInt8.ofNat (n / 4096 % 0x10 + 0xE0))
      (UInt8.ofNat (n / 64 % 0x40 + 0x80)) = true := by
    simp only [secondOfThree, hfirst, hsecond, Bool.and_eq_true, decide_eq_true_eq]
    constructor
    · split_ifs <;> omega
    · split_ifs <;> omega
  have hvalue : (n / 4096 % 0x10 + 0xE0 - 0xE0) * 4096 + (n / 64 % 0x40 + 0x80 - 0x80) * 64
      + (n % 0x40 + 0x80 - 0x80) = n := by omega
  rw [decodeChar, hfirst, if_neg (by omega), if_neg (by omega), if_neg (by omega),
    if_pos (by omega), decodeThree, if_pos hrange]
  simp only [htail, if_true, hfirst, hsecond, hthird, hvalue]

theorem decodeChar_four (n : ℕ) (rest : Bytes) (h : 0xFFFF < n) (h' : n < 0x110000) :
  decodeChar (UInt8.ofNat (n / 262144 % 0x08 + 0xF0))
      (UInt8.ofNat (n / 4096 % 0x40 + 0x80) :: UInt8.ofNat (n / 64 % 0x40 + 0x80)
        :: UInt8.ofNat (n % 0x40 + 0x80) :: rest)
    = .char (.ofNat n) 4
  := by
  have hfirst := toNat_byte (show n / 262144 % 0x08 + 0xF0 < 256 by omega)
  have hsecond := toNat_byte (show n / 4096 % 0x40 + 0x80 < 256 by omega)
  have hthird := toNat_byte (show n / 64 % 0x40 + 0x80 < 256 by omega)
  have hfourth := toNat_byte (show n % 0x40 + 0x80 < 256 by omega)
  have htail := isTail_byte (show n / 64 % 0x40 < 64 by omega)
  have htail' := isTail_byte (show n % 0x40 < 64 by omega)
  have hrange : secondOfFour (UInt8.ofNat (n / 262144 % 0x08 + 0xF0))
      (UInt8.ofNat (n / 4096 % 0x40 + 0x80)) = true := by
    simp only [secondOfFour, hfirst, hsecond, Bool.and_eq_true, decide_eq_true_eq]
    constructor
    · split_ifs <;> omega
    · split_ifs <;> omega
  have hvalue : (n / 262144 % 0x08 + 0xF0 - 0xF0) * 262144
      + (n / 4096 % 0x40 + 0x80 - 0x80) * 4096 + (n / 64 % 0x40 + 0x80 - 0x80) * 64
      + (n % 0x40 + 0x80 - 0x80) = n := by omega
  rw [decodeChar, hfirst, if_neg (by omega), if_neg (by omega), if_neg (by omega),
    if_neg (by omega), if_pos (by omega), decodeFour, if_pos hrange]
  simp only [htail, htail', if_true, hfirst, hsecond, hthird, hfourth, hvalue]

theorem decodeTurn_encode (c : Char) (rest : Bytes) :
  Reads decodeTurn () (String.utf8EncodeChar c ++ rest) rest () [c]
  := by
  have hvalid : c.toNat < 0xD800 ∨ 0xDFFF < c.toNat ∧ c.toNat < 0x110000 := c.valid
  have hchar : Char.ofNat c.toNat = c := Char.ofNat_toNat c
  unfold String.utf8EncodeChar
  simp only [show c.val.toNat = c.toNat from rfl]
  -- a character takes one, two, three or four bytes
  split_ifs with h₁ h₂ h₃
  · have hturn := decodeTurn_char (decodeChar_one c.toNat rest h₁)
    rw [hchar] at hturn
    exact Reads.single hturn
  · have hturn := decodeTurn_char (decodeChar_two c.toNat rest (by omega) h₂)
    rw [hchar] at hturn
    exact Reads.skipping [_] hturn rfl
  · have hturn := decodeTurn_char (decodeChar_three c.toNat rest (by omega) h₃ (by omega))
    rw [hchar] at hturn
    exact Reads.skipping [_, _] hturn rfl
  · have hturn := decodeTurn_char (decodeChar_four c.toNat rest (by omega) (by omega))
    rw [hchar] at hturn
    exact Reads.skipping [_, _, _] hturn rfl

theorem reads_encode (t : Text) (rest : Bytes) :
  Reads decodeTurn () (encode t ++ rest) rest () t
  := by
  induction t with
  | nil => apply Reads.refl
  | cons c t ih =>
    have hfirst := decodeTurn_encode c (encode t ++ rest)
    have hwhole := hfirst.trans ih
    simpa [encode] using hwhole

theorem fromUtf8_encode (t : Text) :
  fromUtf8 (encode t) = (t, none)
  := by
  have hreads := reads_encode t []
  rw [List.append_nil] at hreads
  exact hreads.loop_done _

theorem fromUtf8Lossy_encode (t : Text) :
  fromUtf8Lossy (encode t) = t
  := by
  have hreads : Reads lossyTurn () (encode t) [] () t := by
    have hstrict := reads_encode t []
    rw [List.append_nil] at hstrict
    apply hstrict.of_agrees
    intro s first rest s' out k h
    unfold decodeTurn at h
    unfold lossyTurn
    split at h
    · cases h
      rfl
    · cases h
    · cases h
  exact congrArg Prod.fst (hreads.loop_done id)

/-! ### ASCII -/

theorem utf8EncodeChar_ascii (h : c.toNat < 0x80) :
  String.utf8EncodeChar c = [.ofNat c.toNat]
  := by
  unfold String.utf8EncodeChar
  simp only [show c.val.toNat = c.toNat from rfl]
  rw [if_pos (by omega)]

theorem le_of_mem_utf8EncodeChar (h : 0x80 ≤ c.toNat) (hb : b ∈ String.utf8EncodeChar c) :
  0x80 ≤ b.toNat
  := by
  have hle {n : ℕ} (hn : 0x80 ≤ n % 256) : 0x80 ≤ (UInt8.ofNat n).toNat := by
    rwa [UInt8.toNat_ofNat']
  unfold String.utf8EncodeChar at hb
  simp only [show c.val.toNat = c.toNat from rfl] at hb
  split_ifs at hb with h₁ h₂ h₃
  · omega
  · simp only [List.mem_cons, List.not_mem_nil, or_false] at hb
    rcases hb with rfl | rfl <;> exact hle (by omega)
  · simp only [List.mem_cons, List.not_mem_nil, or_false] at hb
    rcases hb with rfl | rfl | rfl <;> exact hle (by omega)
  · simp only [List.mem_cons, List.not_mem_nil, or_false] at hb
    rcases hb with rfl | rfl | rfl | rfl <;> exact hle (by omega)

theorem eq_of_mem_utf8EncodeChar (hb : b.toNat < 0x80) (h : b ∈ String.utf8EncodeChar c) :
  c.toNat = b.toNat
  := by
  by_cases hc : c.toNat < 0x80
  · rw [utf8EncodeChar_ascii hc, List.mem_singleton] at h
    rw [h, toNat_byte (by omega)]
  · have hle := le_of_mem_utf8EncodeChar (by omega) h
    omega

theorem char_of_mem_utf8EncodeChar {c d : Char} (hd : d.toNat < 0x80)
    (h : UInt8.ofNat d.toNat ∈ String.utf8EncodeChar c) :
  c = d
  := by
  have hbyte : (UInt8.ofNat d.toNat).toNat = d.toNat := toNat_byte (by omega)
  exact Char.toNat_inj.mp ((eq_of_mem_utf8EncodeChar (by omega) h).trans hbyte)

theorem mem_of_mem_encode {d : Char} (hd : d.toNat < 0x80) (h : UInt8.ofNat d.toNat ∈ encode t) :
  d ∈ t
  := by
  obtain ⟨c, hc, hbyte⟩ := List.mem_flatMap.mp h
  rwa [← char_of_mem_utf8EncodeChar hd hbyte]

/-! ### Decoding and encoding -/

theorem toNat_val_ofNat (h : n.isValidChar) :
  (Char.ofNat n).val.toNat = n
  := by
  rw [Char.ofNat, dif_pos h]
  rfl

theorem ofNat_of_eq (h : n = b.toNat) :
  UInt8.ofNat n = b
  := by
  rw [h, UInt8.ofNat_toNat]

theorem encode_one (h : first.toNat < 0x80) :
  String.utf8EncodeChar (.ofNat first.toNat) = [first]
  := by
  have hvalue := toNat_val_ofNat (.inl (by omega) : first.toNat.isValidChar)
  rw [String.utf8EncodeChar, hvalue, if_pos (by omega), UInt8.ofNat_toNat]

theorem encode_two {first second : UInt8} (h : 0xC2 ≤ first.toNat) (h' : first.toNat < 0xE0)
    (hsecond : isTail second) :
  String.utf8EncodeChar (.ofNat ((first.toNat - 0xC0) * 64 + (second.toNat - 0x80)))
    = [first, second]
  := by
  simp only [isTail, Bool.and_eq_true, decide_eq_true_eq] at hsecond
  generalize hn : (first.toNat - 0xC0) * 64 + (second.toNat - 0x80) = n
  have hvalue := toNat_val_ofNat (.inl (by omega) : n.isValidChar)
  rw [String.utf8EncodeChar, hvalue, if_neg (by omega), if_pos (by omega),
    ofNat_of_eq (b := first) (by omega), ofNat_of_eq (b := second) (by omega)]

theorem encode_three {first second third : UInt8} (h : 0xE0 ≤ first.toNat) (h' : first.toNat < 0xF0)
    (hsecond : secondOfThree first second) (hthird : isTail third) :
  String.utf8EncodeChar (.ofNat ((first.toNat - 0xE0) * 4096 + (second.toNat - 0x80) * 64
      + (third.toNat - 0x80)))
    = [first, second, third]
  := by
  simp only [isTail, secondOfThree, Bool.and_eq_true, decide_eq_true_eq] at hsecond hthird
  have hlow : 0x80 ≤ second.toNat ∧ (first.toNat = 0xE0 → 0xA0 ≤ second.toNat) := by
    split_ifs at hsecond <;> omega
  have hhigh : second.toNat ≤ 0xBF ∧ (first.toNat = 0xED → second.toNat ≤ 0x9F) := by
    split_ifs at hsecond <;> omega
  generalize hn : (first.toNat - 0xE0) * 4096 + (second.toNat - 0x80) * 64
    + (third.toNat - 0x80) = n
  have hvalid : n.isValidChar := by
    unfold Nat.isValidChar
    omega
  rw [String.utf8EncodeChar, toNat_val_ofNat hvalid, if_neg (by omega), if_neg (by omega),
    if_pos (by omega), ofNat_of_eq (b := first) (by omega), ofNat_of_eq (b := second) (by omega),
    ofNat_of_eq (b := third) (by omega)]

theorem encode_four {first second third fourth : UInt8} (h : 0xF0 ≤ first.toNat)
    (h' : first.toNat < 0xF5) (hsecond : secondOfFour first second) (hthird : isTail third)
    (hfourth : isTail fourth) :
  String.utf8EncodeChar (.ofNat ((first.toNat - 0xF0) * 262144 + (second.toNat - 0x80) * 4096
      + (third.toNat - 0x80) * 64 + (fourth.toNat - 0x80)))
    = [first, second, third, fourth]
  := by
  simp only [isTail, secondOfFour, Bool.and_eq_true, decide_eq_true_eq] at hsecond hthird hfourth
  have hlow : 0x80 ≤ second.toNat ∧ (first.toNat = 0xF0 → 0x90 ≤ second.toNat) := by
    split_ifs at hsecond <;> omega
  have hhigh : second.toNat ≤ 0xBF ∧ (first.toNat = 0xF4 → second.toNat ≤ 0x8F) := by
    split_ifs at hsecond <;> omega
  generalize hn : (first.toNat - 0xF0) * 262144 + (second.toNat - 0x80) * 4096
    + (third.toNat - 0x80) * 64 + (fourth.toNat - 0x80) = n
  have hvalid : n.isValidChar := by
    unfold Nat.isValidChar
    omega
  rw [String.utf8EncodeChar, toNat_val_ofNat hvalid, if_neg (by omega), if_neg (by omega),
    if_neg (by omega), ofNat_of_eq (b := first) (by omega), ofNat_of_eq (b := second) (by omega),
    ofNat_of_eq (b := third) (by omega), ofNat_of_eq (b := fourth) (by omega)]

theorem encode_decodeChar (h : decodeChar first rest = .char c width) :
  String.utf8EncodeChar c ++ rest.drop (width - 1) = first :: rest
  := by
  unfold decodeChar at h
  split_ifs at h with h₁ h₂ h₃ h₄ h₅
  · obtain ⟨rfl, rfl⟩ := Head.char.inj h
    rw [encode_one h₁]
    rfl
  · match rest, h with
    | b :: _, h =>
      simp only [decodeTwo] at h
      split_ifs at h with hb
      obtain ⟨rfl, rfl⟩ := Head.char.inj h
      rw [encode_two (by omega) h₃ hb]
      rfl
  · match rest, h with
    | b :: bs, h =>
      simp only [decodeThree] at h
      split_ifs at h with hb
      match bs, h with
      | c :: _, h =>
        simp only at h
        split_ifs at h with hc
        obtain ⟨rfl, rfl⟩ := Head.char.inj h
        rw [encode_three (by omega) h₄ hb hc]
        rfl
  · match rest, h with
    | b :: bs, h =>
      simp only [decodeFour] at h
      split_ifs at h with hb
      match bs, h with
      | c :: cs, h =>
        simp only at h
        split_ifs at h with hc
        match cs, h with
        | d :: _, h =>
          simp only at h
          split_ifs at h with hd
          obtain ⟨rfl, rfl⟩ := Head.char.inj h
          rw [encode_four (by omega) h₅ hb hc hd]
          rfl

theorem encode_of_reads {s s' : Unit} {xs ys : Bytes} (h : Reads decodeTurn s xs ys s' t) :
  xs = encode t ++ ys
  := by
  induction h with
  | refl => rfl
  | @turn s s' s'' first rest ys out out' k head fits _ ih =>
    unfold decodeTurn at head
    split at head
    · next hchar =>
      cases head
      rw [encode_append, List.append_assoc, ← ih, encode, List.flatMap_singleton]
      exact (encode_decodeChar hchar).symm
    · cases head
    · cases head

theorem encode_of_fromUtf8 (h : fromUtf8 bytes = (t, none)) :
  encode t = bytes
  := by
  rcases exists_reads decodeTurn_fits (fun _ => none) () bytes with
    ⟨s', out, hr, hl⟩ | ⟨s', y, zs, out, r, hr, hs, hl⟩
  · have hout : out = t := congrArg Prod.fst (hl.symm.trans h)
    rw [← hout, ← List.append_nil (encode out)]
    exact (encode_of_reads hr).symm
  · have hstop := congrArg Prod.snd (hl.symm.trans h)
    subst hstop
    unfold decodeTurn at hs
    split at hs
    · cases hs
    · cases hs
    · cases hs

theorem encode_ascii (h : ∀ c ∈ t, c.toNat < 0x80) :
  encode t = t.map fun c => UInt8.ofNat c.toNat
  := by
  induction t with
  | nil => rfl
  | cons c t ih =>
    rw [List.forall_mem_cons] at h
    rw [← List.singleton_append, encode_append, ih h.2, encode, List.flatMap_singleton,
      utf8EncodeChar_ascii h.1]
    rfl

theorem fromUtf8Lossy_ascii (h : ∀ b ∈ bytes, b.toNat < 0x80) :
  fromUtf8Lossy bytes = bytes.map fun b => Char.ofNat b.toNat
  := by
  have hcode : ∀ b ∈ bytes, (Char.ofNat b.toNat).toNat = b.toNat := by
    intro b hb
    have hvalid : b.toNat.isValidChar := .inl (lt_trans (h b hb) (by decide))
    rw [Char.ofNat, dif_pos hvalid]
    rfl
  have hbytes : encode (bytes.map fun b => Char.ofNat b.toNat) = bytes := by
    rw [encode_ascii, List.map_map]
    · conv_rhs => rw [← List.map_id bytes]
      apply List.map_congr_left
      intro b hb
      rw [Function.comp, hcode b hb, UInt8.ofNat_toNat, id]
    · intro c hc
      obtain ⟨b, hb, rfl⟩ := List.mem_map.mp hc
      rw [hcode b hb]
      exact h b hb
  conv_lhs => rw [← hbytes]
  rw [fromUtf8Lossy_encode]

/-! ### All or nothing -/

/-- The text of a byte string that is one. -/
def strFromUtf8 (bytes : Bytes) : Option Text :=
  match fromUtf8 bytes with
  | (t, none) => some t
  | (_, some _) => none

theorem strFromUtf8_eq_some :
  strFromUtf8 bytes = some t ↔ encode t = bytes
  := by
  constructor
  · intro h
    apply encode_of_fromUtf8
    unfold strFromUtf8 at h
    split at h
    · rename_i heq
      obtain rfl := Option.some.inj h
      exact heq
    · cases h
  · rintro rfl
    rw [strFromUtf8, fromUtf8_encode]

theorem strFromUtf8_concat (hc : c.toNat < 0x80) (bytes : Bytes) :
  strFromUtf8 (bytes ++ [.ofNat c.toNat]) = (strFromUtf8 bytes).map fun t => t ++ [c]
  := by
  have hchar : encode [c] = [.ofNat c.toNat] := encode_ascii (List.forall_mem_singleton.mpr hc)
  ext u
  rw [strFromUtf8_eq_some, Option.map_eq_some_iff]
  constructor
  · intro hu
    obtain rfl | ⟨v, d, rfl⟩ := List.eq_nil_or_concat u
    · cases bytes with
      | nil => cases hu
      | cons b bytes => cases hu
    · have hmem : UInt8.ofNat c.toNat ∈ String.utf8EncodeChar d := by
        have hne : String.utf8EncodeChar d ≠ [] := String.utf8EncodeChar_ne_nil
        have hlast := congrArg List.getLast? hu
        rw [List.concat_eq_append, encode_append, encode, encode, List.flatMap_singleton,
          List.getLast?_append_of_ne_nil _ hne, List.getLast?_concat] at hlast
        exact List.mem_of_getLast? hlast
      obtain rfl := char_of_mem_utf8EncodeChar hc hmem
      use v
      constructor
      · rw [strFromUtf8_eq_some]
        rw [List.concat_eq_append, encode_append, hchar] at hu
        exact List.append_cancel_right hu
      · rw [List.concat_eq_append]
  · rintro ⟨t, ht, rfl⟩
    rw [strFromUtf8_eq_some] at ht
    rw [encode_append, ht, hchar]

end Utf8
