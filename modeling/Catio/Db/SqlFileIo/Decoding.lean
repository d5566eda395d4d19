import Catio.Db.SqlFileIo.Prepare

/-!
# Decoding of SQL files

The decoder does not depend on how a file is cut into chunks, reads the encodings back to their
text, and accepts nothing else: what it gives out is the text whose encoding was read.
-/

namespace Db

open Text

/-! ### UTF-16 -/

namespace Utf16

/-- The code units of a character. -/
def charUnits (c : Char) : List ℕ :=
  if c.toNat < 0x10000 then [c.toNat]
  else [0xd800 + (c.toNat - 0x10000) / 1024, 0xdc00 + (c.toNat - 0x10000) % 1024]

def units (t : Text) : List ℕ :=
  t.flatMap charUnits

def unitBytes (encoding : Encoding) (unit : ℕ) : Bytes :=
  if encoding = .utf16Le then [.ofNat (unit % 256), .ofNat (unit / 256)]
  else [.ofNat (unit / 256), .ofNat (unit % 256)]

def encode (encoding : Encoding) (t : Text) : Bytes :=
  (units t).flatMap (unitBytes encoding)

end Utf16

namespace Decoder

/-! ### Chunks -/

/-- Decode a file that is read in chunks. -/
def pushAll (d : Decoder) : List Bytes → Except DbError Text
  | [] => (d.push [] true).map Prod.fst
  | chunk :: chunks => do
      let (text, d) ← d.push chunk false
      let rest ← d.pushAll chunks
      return text ++ rest

theorem pushAll_eq (d : Decoder) (chunks : List Bytes) :
  d.pushAll chunks = (d.push chunks.flatten true).map Prod.fst
  := by
  induction chunks generalizing d with
  | nil => rfl
  | cons chunk chunks ih =>
    rw [List.flatten_cons, push_append]
    unfold pushAll andThen
    cases h : d.push chunk false with
    | error e => rfl
    | ok r =>
      obtain ⟨text, d'⟩ := r
      simp only [bind, Except.bind, ih]
      cases d'.push chunks.flatten true <;> rfl

/-! ### Code units -/

/-- The unit that waits for its low surrogate. -/
def waiting : Option ℕ → List ℕ
  | none => []
  | some high => [high]

/-- A unit that waits is a high surrogate. -/
def IsHigh (high : Option ℕ) : Prop :=
  ∀ h, high = some h → 0xd800 ≤ h ∧ h ≤ 0xdbff

theorem pushScalar_toNat (c : Char) :
  pushScalar c.toNat = .ok [c]
  := by
  have hvalid : c.toNat.isValidChar := c.valid
  simp [pushScalar, charFromU32, hvalid]

variable {text : Text} {t : Text} {c : Char}

theorem pushScalar_eq_ok {n : ℕ} (h : pushScalar n = .ok t) :
  ∃ c : Char, t = [c] ∧ c.toNat = n
  := by
  unfold pushScalar charFromU32 at h
  split at h
  · rename_i c hc
    split at hc
    · rename_i hvalid
      obtain rfl := Option.some.inj hc
      exact ⟨_, (Except.ok.inj h).symm, Utf8.toNat_val_ofNat hvalid⟩
    · cases hc
  · cases h

theorem map_none_eq_ok {x : Except DbError Text} {high : Option ℕ}
    (h : x.map (fun text => (text, (none : Option ℕ))) = .ok (t, high)) :
  x = .ok t ∧ high = none
  := by
  cases x with
  | error e => cases h
  | ok text =>
    obtain ⟨rfl, rfl⟩ := Prod.mk.inj (Except.ok.inj h)
    exact ⟨rfl, rfl⟩

theorem pushUnit_eq_ok {high high' : Option ℕ} {unit : ℕ} (hhigh : IsHigh high)
    (hunit : unit < 0x10000) (h : pushUnit high unit = .ok (t, high')) :
  waiting high ++ [unit] = Utf16.units t ++ waiting high' ∧ '\x00' ∉ t ∧ IsHigh high'
  := by
  unfold pushUnit at h
  cases high with
  | none =>
    dsimp only at h
    split at h
    · rename_i hrange
      obtain ⟨rfl, rfl⟩ := Prod.mk.inj (Except.ok.inj h)
      refine ⟨rfl, by simp, ?_⟩
      rintro _ ⟨⟩
      exact hrange
    split at h
    · cases h
    · rename_i hnul
      obtain ⟨hscalar, rfl⟩ := map_none_eq_ok h
      obtain ⟨c, rfl, hc⟩ := pushScalar_eq_ok hscalar
      refine ⟨?_, ?_, by simp [IsHigh]⟩
      · simp [waiting, Utf16.units, Utf16.charUnits, hc, hunit]
      · rintro (_ | ⟨_, ⟨⟩⟩)
        exact hnul hc.symm
  | some high =>
    obtain ⟨hlow, hhigh⟩ := hhigh high rfl
    dsimp only at h
    split at h
    · cases h
    · rename_i hrange
      rw [not_not] at hrange
      obtain ⟨hscalar, rfl⟩ := map_none_eq_ok h
      obtain ⟨c, rfl, hc⟩ := pushScalar_eq_ok hscalar
      refine ⟨?_, ?_, by simp [IsHigh]⟩
      · have hbig : ¬c.toNat < 0x10000 := by omega
        have hfirst : 0xd800 + (c.toNat - 0x10000) / 1024 = high := by omega
        have hsecond : 0xdc00 + (c.toNat - 0x10000) % 1024 = unit := by omega
        simp [waiting, Utf16.units, Utf16.charUnits, hbig, hfirst, hsecond]
      · rintro (_ | ⟨_, ⟨⟩⟩)
        have hzero : Char.toNat '\x00' = 0 := rfl
        omega

theorem pushUnits_eq_ok {high high' : Option ℕ} {us : List ℕ} (hhigh : IsHigh high)
    (hunits : ∀ unit ∈ us, unit < 0x10000) (h : pushUnits high us = .ok (t, high')) :
  waiting high ++ us = Utf16.units t ++ waiting high' ∧ '\x00' ∉ t
  := by
  induction us generalizing high t with
  | nil =>
    obtain ⟨rfl, rfl⟩ := Prod.mk.inj (Except.ok.inj h)
    exact ⟨List.append_nil _, by simp⟩
  | cons unit us ih =>
    simp only [pushUnits, bind, Except.bind, pure, Except.pure] at h
    split at h
    · cases h
    rename_i first hfirst
    obtain ⟨text, middle⟩ := first
    split at h
    · cases h
    rename_i rest hrest
    obtain ⟨texts, last⟩ := rest
    obtain ⟨rfl, rfl⟩ := Prod.mk.inj (Except.ok.inj h)
    obtain ⟨hunit, hnul, hmiddle⟩ :=
      pushUnit_eq_ok hhigh (hunits unit (List.mem_cons_self ..)) hfirst
    obtain ⟨hus, hnuls⟩ :=
      ih hmiddle (fun u hu => hunits u (List.mem_cons_of_mem _ hu)) hrest
    constructor
    · calc waiting high ++ unit :: us = waiting high ++ [unit] ++ us := by simp
        _ = Utf16.units text ++ (waiting middle ++ us) := by rw [hunit, List.append_assoc]
        _ = Utf16.units (text ++ texts) ++ waiting last := by
          rw [hus, Utf16.units, Utf16.units, Utf16.units, List.flatMap_append,
            List.append_assoc]
    · rw [List.mem_append, not_or]
      exact ⟨hnul, hnuls⟩

theorem pushUnits_pair {high low : ℕ} (hhigh : 0xd800 ≤ high ∧ high ≤ 0xdbff)
    (hlow : 0xdc00 ≤ low ∧ low ≤ 0xdfff)
    (hc : 0x10000 + ((high - 0xd800) * 1024 + (low - 0xdc00)) = c.toNat) (us : List ℕ) :
  pushUnits none (high :: low :: us)
    = (pushUnits none us).map fun (texts, high) => (c :: texts, high)
  := by
  have hfirst : pushUnit none high = .ok ([], some high) := by
    unfold pushUnit
    dsimp only
    rw [if_pos hhigh]
  have hsecond : pushUnit (some high) low = .ok ([c], none) := by
    unfold pushUnit
    dsimp only
    rw [if_neg (not_not.mpr hlow), hc, pushScalar_toNat]
    rfl
  rw [pushUnits, hfirst]
  simp only [bind, Except.bind, pushUnits, hsecond]
  cases pushUnits none us <;> rfl

theorem pushUnits_single {unit : ℕ} (hrange : ¬(0xd800 ≤ unit ∧ unit ≤ 0xdbff)) (hzero : unit ≠ 0)
    (hc : c.toNat = unit) (us : List ℕ) :
  pushUnits none (unit :: us)
    = (pushUnits none us).map fun (texts, high) => (c :: texts, high)
  := by
  have hunit : pushUnit none unit = .ok ([c], none) := by
    unfold pushUnit
    dsimp only
    rw [if_neg hrange, if_neg hzero, ← hc, pushScalar_toNat]
    rfl
  rw [pushUnits, hunit]
  simp only [bind, Except.bind]
  cases pushUnits none us <;> rfl

theorem toNat_cases (c : Char) :
  c.toNat < 0xd800 ∨ 0xdfff < c.toNat ∧ c.toNat < 0x110000
  := c.valid

theorem pushUnits_charUnits (h : c ≠ '\x00') (us : List ℕ) :
  pushUnits none (Utf16.charUnits c ++ us)
    = (pushUnits none us).map fun (texts, high) => (c :: texts, high)
  := by
  have hvalid := toNat_cases c
  have hzero : c.toNat ≠ 0 := by
    intro hc
    apply h
    rw [← Char.toNat_inj, hc]
    rfl
  unfold Utf16.charUnits
  split
  · exact pushUnits_single (by omega) hzero rfl us
  · exact pushUnits_pair (by omega) (by omega) (by omega) us

theorem pushUnits_units (h : '\x00' ∉ t) :
  pushUnits none (Utf16.units t) = .ok (t, none)
  := by
  induction t with
  | nil => rfl
  | cons c t ih =>
    rw [List.mem_cons, not_or] at h
    have hrest := ih h.2
    rw [Utf16.units, List.flatMap_cons, pushUnits_charUnits (Ne.symm h.1)]
    unfold Utf16.units at hrest
    rw [hrest]
    rfl

/-! ### Bytes -/

theorem unitBytes_unit (encoding : Encoding) (pair : UInt8 × UInt8) :
  Utf16.unitBytes encoding (unit encoding pair) = [pair.1, pair.2]
    ∧ unit encoding pair < 0x10000
  := by
  obtain ⟨a, b⟩ := pair
  have ha : a.toNat < 256 := a.toNat_lt
  have hb : b.toNat < 256 := b.toNat_lt
  unfold Utf16.unitBytes unit
  split
  · have hlow : (a.toNat + 256 * b.toNat) % 256 = a.toNat := by omega
    have hhigh : (a.toNat + 256 * b.toNat) / 256 = b.toNat := by omega
    simp only [hlow, hhigh, UInt8.ofNat_toNat, true_and]
    omega
  · have hlow : (256 * a.toNat + b.toNat) % 256 = b.toNat := by omega
    have hhigh : (256 * a.toNat + b.toNat) / 256 = a.toNat := by omega
    simp only [hlow, hhigh, UInt8.ofNat_toNat, true_and]
    omega

theorem flatMap_pairs (encoding : Encoding) (bytes : Bytes) :
  bytes = ((pairs bytes).1.map (unit encoding)).flatMap (Utf16.unitBytes encoding)
      ++ (pairs bytes).2
    ∧ ∀ u ∈ (pairs bytes).1.map (unit encoding), u < 0x10000
  := by
  induction bytes using pairs.induct with
  | case1 a b rest ih =>
    obtain ⟨hbytes, hunits⟩ := ih
    obtain ⟨hpair, hunit⟩ := unitBytes_unit encoding (a, b)
    constructor
    · simp only [pairs, List.map_cons, List.flatMap_cons, hpair, List.cons_append,
        List.nil_append]
      rw [← hbytes]
    · intro u hu
      simp only [pairs, List.map_cons, List.mem_cons] at hu
      obtain rfl | hu := hu
      · exact hunit
      · exact hunits u hu
  | case2 rest h =>
    unfold pairs
    split
    · rename_i a b rest'
      exact absurd rfl (h a b rest')
    · simp

theorem exists_unitBytes (encoding : Encoding) {u : ℕ} (h : u < 0x10000) :
  ∃ a b, Utf16.unitBytes encoding u = [a, b] ∧ unit encoding (a, b) = u
  := by
  have hlow : (UInt8.ofNat (u % 256)).toNat = u % 256 := Utf8.toNat_byte (by omega)
  have hhigh : (UInt8.ofNat (u / 256)).toNat = u / 256 := Utf8.toNat_byte (by omega)
  unfold Utf16.unitBytes unit
  split
  · refine ⟨_, _, rfl, ?_⟩
    dsimp only
    omega
  · refine ⟨_, _, rfl, ?_⟩
    dsimp only
    omega

theorem pairs_unitBytes (encoding : Encoding) {us : List ℕ} (h : ∀ u ∈ us, u < 0x10000) :
  (pairs (us.flatMap (Utf16.unitBytes encoding))).1.map (unit encoding) = us
    ∧ (pairs (us.flatMap (Utf16.unitBytes encoding))).2 = []
  := by
  induction us with
  | nil => exact ⟨rfl, rfl⟩
  | cons u us ih =>
    obtain ⟨hunits, hrest⟩ := ih fun u hu => h u (List.mem_cons_of_mem _ hu)
    obtain ⟨a, b, hbytes, hunit⟩ := exists_unitBytes encoding (h u (List.mem_cons_self ..))
    rw [List.flatMap_cons, hbytes]
    simp only [List.cons_append, List.nil_append, pairs, List.map_cons, hunit, hunits,
      true_and]
    exact hrest

theorem units_lt (t : Text) :
  ∀ u ∈ Utf16.units t, u < 0x10000
  := by
  intro u hu
  obtain ⟨c, _, hc⟩ := List.mem_flatMap.mp hu
  have hvalid := toNat_cases c
  unfold Utf16.charUnits at hc
  split at hc
  · rw [List.mem_singleton] at hc
    omega
  · rw [List.mem_cons, List.mem_singleton] at hc
    omega

/-! ### Whole files -/

theorem decode_eq (bytes : Bytes) :
  decode bytes = (detect bytes).bind fun (encoding, bom) =>
    (({ pending := bytes.drop bom, encoding := some encoding } : Decoder).decodePending encoding
      true).map Prod.fst
  := by
  unfold decode push
  simp only [List.nil_append, Bool.not_true, Bool.false_eq_true, and_false, ↓reduceIte]
  cases detect bytes <;> rfl

theorem pushUtf8_last {d : Decoder} :
  (d.pushUtf8 true).map Prod.fst = .ok text
    ↔ d.pending = Utf8.encode text ∧ '\x00' ∉ text
  := by
  unfold pushUtf8
  constructor
  · intro h
    cases hdecoded : Utf8.fromUtf8 d.pending with
    | mk decoded failure =>
      rw [hdecoded] at h
      cases failure with
      | some failure => cases failure <;> cases h
      | none =>
        dsimp only at h
        split at h
        · cases h
        · rename_i hnul
          obtain rfl : decoded = text := Except.ok.inj h
          exact ⟨(Utf8.encode_of_fromUtf8 hdecoded).symm, hnul⟩
  · rintro ⟨hpending, hnul⟩
    rw [hpending, Utf8.fromUtf8_encode]
    dsimp only
    rw [if_neg hnul]
    rfl

theorem pushUtf16_last {d : Decoder} {encoding : Encoding} (h : d.high = none) :
  (d.pushUtf16 encoding true).map Prod.fst = .ok text
    ↔ d.pending = Utf16.encode encoding text ∧ '\x00' ∉ text
  := by
  obtain ⟨hbytes, hunits⟩ := flatMap_pairs encoding d.pending
  unfold pushUtf16
  rw [h]
  constructor
  · intro hok
    simp only [bind, Except.bind] at hok
    split at hok
    · cases hok
    rename_i r hr
    obtain ⟨decoded, high⟩ := r
    obtain ⟨hread, hnul⟩ := pushUnits_eq_ok (by simp [IsHigh]) hunits hr
    dsimp only at hok
    split at hok
    · cases hok
    · rename_i hlast
      simp only [true_and, not_or, not_not, Bool.not_eq_true, Option.isSome_eq_false_iff,
        Option.isNone_iff_eq_none] at hlast
      obtain ⟨hrest, rfl⟩ := hlast
      obtain rfl : decoded = text := Except.ok.inj hok
      refine ⟨?_, hnul⟩
      rw [waiting, List.nil_append, List.append_nil] at hread
      rw [hbytes, hrest, List.append_nil, hread]
      rfl
  · rintro ⟨hpending, hnul⟩
    obtain ⟨hpairs, hrest⟩ := pairs_unitBytes encoding (units_lt text)
    unfold Utf16.encode at hpending
    rw [← hpending] at hpairs hrest
    simp only [hpairs, hrest, pushUnits_units hnul, bind, Except.bind]
    rfl

/-! ### Encodings -/

/-- The encodings of a text that a file may have. -/
def encodings (text : Text) : List Bytes :=
  [Utf8.encode text, [0xef, 0xbb, 0xbf] ++ Utf8.encode text,
    [0xff, 0xfe] ++ Utf16.encode .utf16Le text, [0xfe, 0xff] ++ Utf16.encode .utf16Be text]

/-- A file starts with a byte order mark of UTF-32. -/
def HasUtf32Mark (bytes : Bytes) : Prop :=
  [0, 0, 0xfe, 0xff] <+: bytes ∨ [0xff, 0xfe, 0, 0] <+: bytes

theorem of_decode {bytes : Bytes} (h : decode bytes = .ok text) :
  '\x00' ∉ text ∧ ¬HasUtf32Mark bytes ∧ bytes ∈ encodings text
  := by
  rw [decode_eq] at h
  unfold detect at h
  simp only [List.isPrefixOf_iff_prefix] at h
  split_ifs at h with h32 h8 hle hbe
  · cases h
  · obtain ⟨rest, rfl⟩ := h8
    obtain ⟨hbytes, hnul⟩ := pushUtf8_last.mp h
    refine ⟨hnul, h32, ?_⟩
    rw [encodings, ← hbytes]
    simp
  · obtain ⟨rest, rfl⟩ := hle
    obtain ⟨hbytes, hnul⟩ := (pushUtf16_last rfl).mp h
    refine ⟨hnul, h32, ?_⟩
    rw [encodings, ← hbytes]
    simp
  · obtain ⟨rest, rfl⟩ := hbe
    obtain ⟨hbytes, hnul⟩ := (pushUtf16_last rfl).mp h
    refine ⟨hnul, h32, ?_⟩
    rw [encodings, ← hbytes]
    simp
  · obtain ⟨hbytes, hnul⟩ := pushUtf8_last.mp h
    refine ⟨hnul, h32, ?_⟩
    rw [encodings, ← hbytes]
    simp

theorem head_of_encode {rest : Bytes} (h : Utf8.encode text = Utf8.encode [c] ++ rest) :
  text.head? = some c
  := by
  have hdecoded := Utf8.fromUtf8_encode text
  unfold Utf8.fromUtf8 at hdecoded
  rw [h, (Utf8.reads_encode [c] rest).loop_eq] at hdecoded
  have htext : [c] ++ (Scan.loop Utf8.decodeTurn (fun _ => none) 0 () rest).fst = text :=
    congrArg Prod.fst hdecoded
  rw [← htext]
  rfl

theorem ne_of_invalid {first : UInt8} (rest : Bytes) (h : 0xf5 ≤ first.toNat) :
  Utf8.encode text ≠ first :: rest
  := by
  intro heq
  have hdecoded := Utf8.fromUtf8_encode text
  have hturn : Utf8.decodeTurn () first rest = .stop (some (.invalid (first :: rest) 1)) := by
    unfold Utf8.decodeTurn Utf8.decodeChar
    rw [if_neg (by omega), if_neg (by omega), if_neg (by omega), if_neg (by omega),
      if_neg (by omega)]
  unfold Utf8.fromUtf8 at hdecoded
  rw [heq, Scan.loop_stop hturn] at hdecoded
  cases congrArg Prod.snd hdecoded

theorem decode_utf8 (hnul : '\x00' ∉ text) (hmark : text.head? ≠ some '\uFEFF') :
  decode (Utf8.encode text) = .ok text
  := by
  rw [decode_eq]
  unfold detect
  simp only [List.isPrefixOf_iff_prefix]
  have h32 : ¬([0, 0, 0xfe, 0xff] <+: Utf8.encode text
      ∨ [0xff, 0xfe, 0, 0] <+: Utf8.encode text) := by
    rintro (⟨rest, hrest⟩ | ⟨rest, hrest⟩)
    · have hhead : text.head? = some '\x00' := head_of_encode hrest.symm
      exact hnul (List.mem_of_mem_head? hhead)
    · exact ne_of_invalid _ (by decide) hrest.symm
  have h8 : ¬[0xef, 0xbb, 0xbf] <+: Utf8.encode text := by
    rintro ⟨rest, hrest⟩
    exact hmark (head_of_encode hrest.symm)
  have hle : ¬[0xff, 0xfe] <+: Utf8.encode text := by
    rintro ⟨rest, hrest⟩
    exact ne_of_invalid _ (by decide) hrest.symm
  have hbe : ¬[0xfe, 0xff] <+: Utf8.encode text := by
    rintro ⟨rest, hrest⟩
    exact ne_of_invalid _ (by decide) hrest.symm
  rw [if_neg h32, if_neg h8, if_neg hle, if_neg hbe]
  exact pushUtf8_last.mpr ⟨rfl, hnul⟩

theorem decode_marked_utf8 {text : Text} (hnul : '\x00' ∉ text) :
  decode ([0xef, 0xbb, 0xbf] ++ Utf8.encode text) = .ok text
  := by
  rw [decode_eq]
  exact pushUtf8_last.mpr ⟨rfl, hnul⟩

theorem decode_utf16Be (hnul : '\x00' ∉ text) :
  decode ([0xfe, 0xff] ++ Utf16.encode .utf16Be text) = .ok text
  := by
  rw [decode_eq]
  exact (pushUtf16_last rfl).mpr ⟨rfl, hnul⟩

theorem decode_utf16Le (hnul : '\x00' ∉ text) :
  decode ([0xff, 0xfe] ++ Utf16.encode .utf16Le text) = .ok text
  := by
  rw [decode_eq]
  unfold detect
  simp only [List.isPrefixOf_iff_prefix]
  have h32 : ¬([0, 0, 0xfe, 0xff] <+: [0xff, 0xfe] ++ Utf16.encode .utf16Le text
      ∨ [0xff, 0xfe, 0, 0] <+: [0xff, 0xfe] ++ Utf16.encode .utf16Le text) := by
    rintro (⟨rest, hrest⟩ | ⟨rest, hrest⟩)
    · cases hrest
    · have hzero : Utf16.encode .utf16Le text = 0 :: 0 :: rest :=
        (List.cons.inj (List.cons.inj hrest).2).2.symm
      have hunits := (pairs_unitBytes .utf16Le (units_lt text)).1
      unfold Utf16.encode at hzero
      rw [hzero] at hunits
      have hread := pushUnits_units hnul
      rw [← hunits] at hread
      cases hread
  rw [if_neg h32, if_neg (by rintro ⟨rest, ⟨⟩⟩), if_pos ⟨_, rfl⟩]
  exact (pushUtf16_last rfl).mpr ⟨rfl, hnul⟩

theorem decode_utf8_iff (hnul : '\x00' ∉ text) :
  decode (Utf8.encode text) = .ok text ↔ text.head? ≠ some '\uFEFF'
  := by
  constructor
  · intro hdecode hmark
    obtain ⟨rest, rfl⟩ := List.head?_eq_some_iff.mp hmark
    rw [List.mem_cons, not_or] at hnul
    have hrest : decode (Utf8.encode ('\uFEFF' :: rest)) = .ok rest :=
      decode_marked_utf8 hnul.2
    rw [hrest] at hdecode
    exact List.cons_ne_self _ _ (Except.ok.inj hdecode).symm
  · exact decode_utf8 hnul

/-- Every way to cut a file gives the same outcome; every encoding of a text without NUL gives the
text, save a byte order mark in front of UTF-8; and whatever is decoded is such a text. -/
theorem decode_exact :
  (∀ chunks : List Bytes, ({} : Decoder).pushAll chunks = decode chunks.flatten)
    ∧ (∀ text : Text, '\x00' ∉ text →
      (decode (Utf8.encode text) = .ok text ↔ text.head? ≠ some '\uFEFF')
        ∧ decode ([0xef, 0xbb, 0xbf] ++ Utf8.encode text) = .ok text
        ∧ decode ([0xff, 0xfe] ++ Utf16.encode .utf16Le text) = .ok text
        ∧ decode ([0xfe, 0xff] ++ Utf16.encode .utf16Be text) = .ok text)
    ∧ (∀ bytes text, decode bytes = .ok text →
      '\x00' ∉ text ∧ ¬HasUtf32Mark bytes ∧ bytes ∈ encodings text)
  := by
  refine ⟨pushAll_eq _, fun text hnul => ?_, fun bytes text => of_decode⟩
  exact ⟨decode_utf8_iff hnul, decode_marked_utf8 hnul, decode_utf16Le hnul, decode_utf16Be hnul⟩

/-- The byte order mark alone is a text without NUL that UTF-8 does not give back. -/
theorem decode_strips_mark :
  ¬ ∀ text : Text, '\x00' ∉ text → decode (Utf8.encode text) = .ok text
  := by
  intro h
  have hmark := h ['\uFEFF'] (by decide)
  have hempty : decode (Utf8.encode ['\uFEFF']) = .ok [] := @decode_marked_utf8 [] (by decide)
  rw [hempty] at hmark
  cases hmark

end Decoder

end Db
