import Catio.Lib.Json

/-!
# The grammar of JSON

The texts of a value, with white space between the tokens (`Denotes`).  The grammar is that of a
value in two notations, which differ in their keys and strings only (`Renders`), so that a notation
with other keys and strings is an instance of it too.  The compact text of a value is one of its
texts (`denotes_toText`).
-/

namespace Json

/-! ### Strings -/

/-- The escapes of one letter, with their characters. -/
def letters : List (Char × Char) :=
  [('"', '"'), ('\\', '\\'), ('/', '/'), ('b', '\x08'), ('f', '\x0c'), ('n', '\n'), ('r', '\r'),
    ('t', '\t')]

/-- What stands behind the backslash of an escape of a character. -/
inductive Escape : Char → Text → Prop where
  | letter {l c : Char} (h : (l, c) ∈ letters) : Escape c [l]
  | unicode {d : Text} {n : ℕ} {c : Char} (four : d.length = 4) (value : hexFour d = some n)
      (char : Text.charFromU32 n = some c) : Escape c ('u' :: d)
  /-- A character outside of the first plane is the pair of its surrogates. -/
  | pair {d e : Text} {m n : ℕ} {c : Char} (four : d.length = 4) (four' : e.length = 4)
      (value : hexFour d = some m) (value' : hexFour e = some n)
      (high : 0xD800 ≤ m ∧ m ≤ 0xDBFF) (low : 0xDC00 ≤ n ∧ n ≤ 0xDFFF)
      (char : Text.charFromU32 (0x10000 + ((m - 0xD800) * 1024 + (n - 0xDC00))) = some c) :
      Escape c ('u' :: d ++ '\\' :: 'u' :: e)

/-- A string, and what stands for it between the quotes. -/
inductive Body : Text → Text → Prop where
  | nil : Body [] []
  | plain {c : Char} {s t : Text} (quote : c ≠ '"') (escape : c ≠ '\\') (visible : 0x20 ≤ c.toNat)
      (rest : Body s t) : Body (c :: s) (c :: t)
  | escape {c : Char} {e s t : Text} (escape : Escape c e) (rest : Body s t) :
      Body (c :: s) ('\\' :: e ++ t)

/-- A string in both notations as JSON has it. -/
def Exact (s t u : Text) : Prop :=
  t = u ∧ ∃ b, Body s b ∧ t = '"' :: b ++ ['"']

/-- A text between quotes: other characters than some, and pairs of a backslash and any one. -/
inductive Units (avoid : List Char) : Text → Prop where
  | nil : Units avoid []
  | plain {c : Char} {t : Text} (other : c ∉ avoid) (escape : c ≠ '\\') (rest : Units avoid t) :
      Units avoid (c :: t)
  | pair {c : Char} {t : Text} (rest : Units avoid t) : Units avoid ('\\' :: c :: t)

theorem Units.append {avoid : List Char} {s t : Text} (hs : Units avoid s) (ht : Units avoid t) :
  Units avoid (s ++ t)
  := by
  induction hs with
  | nil => exact ht
  | plain other escape _ ih => exact .plain other escape ih
  | pair _ ih => exact .pair ih

theorem Units.mono {avoid less : List Char} (hless : less ⊆ avoid) {t : Text} (h : Units avoid t) :
  Units less t
  := by
  induction h with
  | nil => apply Units.nil
  | plain other escape _ ih => exact .plain (fun hc => other (hless hc)) escape ih
  | pair _ ih => exact .pair ih

theorem Units.other {avoid : List Char} {t : Text} (h : Units avoid t) (hescape : '\\' ∉ t) :
  ∀ c ∈ t, c ∉ avoid
  := by
  induction h with
  | nil => rintro c ⟨⟩
  | plain other _ _ ih =>
    intro c hc
    rcases List.mem_cons.mp hc with rfl | hc
    · exact other
    · exact ih (fun hmem => hescape (List.mem_cons_of_mem _ hmem)) c hc
  | pair => exact absurd List.mem_cons_self hescape

theorem units_hexFour {d : Text} {n : ℕ} (four : d.length = 4) (h : hexFour d = some n) :
  Units ['"', '\''] d
  := by
  have hdigit {c : Char} {m : ℕ} (hc : hexValue c = some m) : c ∉ ['"', '\''] ∧ c ≠ '\\' := by
    constructor
    · intro hmem
      simp only [List.mem_cons, List.not_mem_nil, or_false] at hmem
      rcases hmem with rfl | rfl
      · cases hc
      · cases hc
    · rintro rfl
      cases hc
  match d, four with
  | [a, b, c, e], _ =>
    simp only [hexFour, Option.bind_eq_bind, Option.bind_eq_some_iff] at h
    obtain ⟨_, ha, _, hb, _, hc, _, he, -⟩ := h
    exact .plain (hdigit ha).1 (hdigit ha).2 (.plain (hdigit hb).1 (hdigit hb).2
      (.plain (hdigit hc).1 (hdigit hc).2 (.plain (hdigit he).1 (hdigit he).2 .nil)))

theorem Escape.units {c : Char} {e : Text} (h : Escape c e) :
  Units ['"', '\''] ('\\' :: e)
  := by
  cases h with
  | letter => exact .pair .nil
  | unicode four value => exact .pair (units_hexFour four value)
  | pair four four' value value' =>
    have hlast := Units.pair (c := 'u') (units_hexFour four' value')
    exact .pair ((units_hexFour four value).append hlast)

theorem Body.units {s b : Text} (h : Body s b) :
  Units ['"'] b
  := by
  induction h with
  | nil => apply Units.nil
  | plain quote escape _ _ ih => exact .plain (by simpa using quote) escape ih
  | escape escape _ ih => exact (escape.units.mono (by decide)).append ih

theorem newline_not_mem_hexFour {d : Text} {n : ℕ} (four : d.length = 4) (h : hexFour d = some n) :
  '\n' ∉ d
  := by
  have hdigit {c : Char} {m : ℕ} (hc : hexValue c = some m) : '\n' ≠ c := by
    rintro rfl
    cases hc
  match d, four with
  | [a, b, c, e], _ =>
    simp only [hexFour, Option.bind_eq_bind, Option.bind_eq_some_iff] at h
    obtain ⟨_, ha, _, hb, _, hc, _, he, -⟩ := h
    simp [hdigit ha, hdigit hb, hdigit hc, hdigit he]

theorem Escape.newline_not_mem {c : Char} {e : Text} (h : Escape c e) :
  '\n' ∉ e
  := by
  cases h with
  | letter hletter =>
    intro hmem
    rw [← List.mem_singleton.mp hmem] at hletter
    simp [letters] at hletter
  | unicode four value => simpa using newline_not_mem_hexFour four value
  | pair four four' value value' =>
    simp [newline_not_mem_hexFour four value, newline_not_mem_hexFour four' value']

theorem Body.newline_not_mem {s b : Text} (h : Body s b) :
  '\n' ∉ b
  := by
  induction h with
  | nil => exact List.not_mem_nil
  | plain _ _ visible _ ih =>
    rw [List.mem_cons, not_or]
    refine ⟨?_, ih⟩
    rintro rfl
    exact absurd visible (by decide)
  | escape escape _ ih => simp [escape.newline_not_mem, ih]

/-! ### Numbers -/

/-- The exponent of a number, with its letter, and with a sign also if it is positive. -/
def Number.exponentText (e : Char) (plus : Bool) (n : Number) : Text :=
  match n.exponent with
  | none => []
  | some (negative, digits) =>
      e :: (if negative then ['-'] else if plus then ['+'] else []) ++ digits.map digit

/-- The text of a number with a letter for the exponent. -/
def Number.textWith (e : Char) (plus : Bool) (n : Number) : Text :=
  (if n.negative then ['-'] else []) ++ n.digits.map digit
    ++ (if n.fraction = [] then [] else '.' :: n.fraction.map digit) ++ n.exponentText e plus

theorem Number.textWith_e (n : Number) :
  n.textWith 'e' false = n.toText
  := rfl

/-- A number has no leading zeros, and digits in its exponent. -/
def Number.proper (n : Number) : Bool :=
  (n.digits.length = 1 || n.digits.head? ≠ some 0) && n.exponent.all fun e => e.2 ≠ []

/-- The characters of numbers. -/
def numeral : List Char :=
  "0123456789-+.eE".toList

theorem textWith_subset {e : Char} (letter : e = 'e' ∨ e = 'E') (plus : Bool) (n : Number) :
  n.textWith e plus ⊆ numeral
  := by
  have hdigits (ds : List (Fin 10)) : ds.map digit ⊆ numeral := by
    intro c hc
    obtain ⟨d, -, rfl⟩ := List.mem_map.mp hc
    have hall : ∀ d : Fin 10, digit d ∈ numeral := by decide
    exact hall d
  have hletter : e ∈ numeral := by
    rcases letter with rfl | rfl
    · decide
    · decide
  have hsign (b : Bool) {c : Char} (hc : c ∈ numeral) {t : Text} (ht : t ⊆ numeral) :
      (if b then [c] else t) ⊆ numeral := by
    split_ifs
    · exact List.cons_subset.mpr ⟨hc, List.nil_subset _⟩
    · exact ht
  have hnone : ([] : Text) ⊆ numeral := List.nil_subset _
  have hfraction : (if n.fraction = [] then [] else '.' :: n.fraction.map digit) ⊆ numeral := by
    split_ifs
    · exact hnone
    · exact List.cons_subset.mpr ⟨by decide, hdigits n.fraction⟩
  have hexponent : n.exponentText e plus ⊆ numeral := by
    unfold Number.exponentText
    cases n.exponent with
    | none => exact hnone
    | some exponent =>
      have hfront := hsign exponent.1 (c := '-') (by decide) (hsign plus (c := '+') (by decide)
        hnone)
      exact List.append_subset.mpr
        ⟨List.cons_subset.mpr ⟨hletter, hfront⟩, hdigits exponent.2⟩
  unfold Number.textWith
  simp only [List.append_subset]
  exact ⟨⟨⟨hsign n.negative (by decide) hnone, hdigits n.digits⟩, hfraction⟩, hexponent⟩

mutual

/-- All numbers of a value are written as JSON has them. -/
def Value.proper : Value → Bool
  | .number n => n.proper
  | .array items => itemsProper items
  | .object fields => fieldsProper fields
  | _ => true

def itemsProper : List Value → Bool
  | [] => true
  | item :: items => item.proper && itemsProper items

def fieldsProper : List (Text × Value) → Bool
  | [] => true
  | (_, value) :: fields => value.proper && fieldsProper fields

end

/-! ### Values -/

/-- White space. -/
def Blank (t : Text) : Prop :=
  ∀ c ∈ t, isSpace c

/-- A part of a value: a value, the items of an array or the fields of an object. -/
inductive Part where
  | value (v : Value)
  | items (items : List Value)
  | fields (fields : List (Text × Value))

/-- A part of a value in two notations, which differ in their keys and strings only. -/
inductive Renders (key string : Text → Text → Text → Prop) : Part → Text → Text → Prop where
  | null : Renders key string (.value .null) "null" "null"
  | true : Renders key string (.value (.bool true)) "true" "true"
  | false : Renders key string (.value (.bool false)) "false" "false"
  | number {n : Number} {e : Char} {plus : Bool} (proper : n.proper) (letter : e = 'e' ∨ e = 'E') :
      Renders key string (.value (.number n)) (n.textWith e plus) (n.textWith e plus)
  | string {s t u : Text} (h : string s t u) : Renders key string (.value (.string s)) t u
  | array {items : List Value} {t u : Text} (h : Renders key string (.items items) t u) :
      Renders key string (.value (.array items)) ('[' :: t ++ [']']) ('[' :: u ++ [']'])
  | object {fields : List (Text × Value)} {t u : Text}
      (h : Renders key string (.fields fields) t u) :
      Renders key string (.value (.object fields)) ('{' :: t ++ ['}']) ('{' :: u ++ ['}'])
  | noItems {a : Text} (ha : Blank a) : Renders key string (.items []) a a
  | lastItem {v : Value} {a t u b : Text} (ha : Blank a) (h : Renders key string (.value v) t u)
      (hb : Blank b) : Renders key string (.items [v]) (a ++ t ++ b) (a ++ u ++ b)
  | moreItems {v w : Value} {items : List Value} {a t u b ts us : Text} (ha : Blank a)
      (h : Renders key string (.value v) t u) (hb : Blank b)
      (more : Renders key string (.items (w :: items)) ts us) :
      Renders key string (.items (v :: w :: items)) (a ++ t ++ b ++ ',' :: ts)
        (a ++ u ++ b ++ ',' :: us)
  | noFields {a : Text} (ha : Blank a) : Renders key string (.fields []) a a
  | lastField {name : Text} {v : Value} {a k l b c t u d : Text} (ha : Blank a)
      (hkey : key name k l) (hb : Blank b) (hc : Blank c)
      (h : Renders key string (.value v) t u) (hd : Blank d) :
      Renders key string (.fields [(name, v)]) (a ++ k ++ b ++ ':' :: (c ++ t ++ d))
        (a ++ l ++ b ++ ':' :: (c ++ u ++ d))
  | moreFields {name : Text} {v : Value} {f : Text × Value} {fields : List (Text × Value)}
      {a k l b c t u d ts us : Text} (ha : Blank a) (hkey : key name k l) (hb : Blank b)
      (hc : Blank c) (h : Renders key string (.value v) t u) (hd : Blank d)
      (more : Renders key string (.fields (f :: fields)) ts us) :
      Renders key string (.fields ((name, v) :: f :: fields))
        (a ++ k ++ b ++ ':' :: (c ++ t ++ d) ++ ',' :: ts)
        (a ++ l ++ b ++ ':' :: (c ++ u ++ d) ++ ',' :: us)

def Denotes (v : Value) (t : Text) : Prop :=
  Renders Exact Exact (.value v) t t

theorem Renders.second {key string key' string' : Text → Text → Text → Prop}
    (hkey : ∀ s t u, key s t u → key' s u u) (hstring : ∀ s t u, string s t u → string' s u u)
    {part : Part} {t u : Text} (h : Renders key string part t u) :
  Renders key' string' part u u
  := by
  induction h with
  | null => apply Renders.null
  | true => apply Renders.true
  | false => apply Renders.false
  | number proper letter => exact .number proper letter
  | string h => exact .string (hstring _ _ _ h)
  | array _ ih => exact .array ih
  | object _ ih => exact .object ih
  | noItems ha => exact .noItems ha
  | lastItem ha _ hb ih => exact .lastItem ha ih hb
  | moreItems ha _ hb _ ih ihmore => exact .moreItems ha ih hb ihmore
  | noFields ha => exact .noFields ha
  | lastField ha k hb hc _ hd ih =>
    exact .lastField ha (hkey _ _ _ k) hb hc ih hd
  | moreFields ha k hb hc _ hd _ ih ihmore =>
    exact .moreFields ha (hkey _ _ _ k) hb hc ih hd ihmore

/-! ### Compact texts -/

theorem body_escapeChar {c : Char} {s t : Text} (h : Body s t) :
  Body (c :: s) (escapeChar c ++ t)
  := by
  unfold escapeChar
  split_ifs with h₁ h₂ h₃ h₄ h₅ h₆ h₇ h₈
  · exact .escape (.letter (by rw [h₁]; decide)) h
  · exact .escape (.letter (by rw [h₂]; decide)) h
  · exact .escape (.letter (by rw [h₃]; decide)) h
  · exact .escape (.letter (by rw [h₄]; decide)) h
  · exact .escape (.letter (by rw [h₅]; decide)) h
  · exact .escape (.letter (by rw [h₆]; decide)) h
  · exact .escape (.letter (by rw [h₇]; decide)) h
  · have hescape : Escape c ('u' :: '0' :: '0' :: Text.hexByte (.ofNat c.toNat)) := by
      apply Escape.unicode (n := c.toNat) rfl
      · have hfour := hexFour_control h₈ []
        rwa [List.append_nil] at hfour
      · rw [Text.charFromU32, if_pos (.inl (by omega)), Char.ofNat_toNat]
    exact .escape hescape h
  · exact .plain h₁ h₂ (Nat.not_lt.mp h₈) h

theorem exact_quote (s : Text) :
  Exact s (quote s) (quote s)
  := by
  refine ⟨rfl, s.flatMap escapeChar, ?_, rfl⟩
  induction s with
  | nil => apply Body.nil
  | cons c s ih => exact body_escapeChar ih

mutual

variable {key string : Text → Text → Text → Prop}

theorem renders_toText (hkey : ∀ s, key s (quote s) (quote s))
    (hstring : ∀ s, string s (quote s) (quote s)) :
  ∀ v : Value, v.proper → Renders key string (.value v) v.toText v.toText
  | .null, _ => .null
  | .bool .true, _ => .true
  | .bool .false, _ => .false
  | .number n, h => @Renders.number key string n 'e' false h (.inl rfl)
  | .string s, _ => .string (hstring s)
  | .array items, h => .array (renders_itemTexts hkey hstring items h)
  | .object fields, h => .object (renders_fieldTexts hkey hstring fields h)

theorem renders_itemTexts (hkey : ∀ s, key s (quote s) (quote s))
    (hstring : ∀ s, string s (quote s) (quote s)) :
  ∀ items : List Value, itemsProper items →
    Renders key string (.items items) (Text.join [','] (itemTexts items))
      (Text.join [','] (itemTexts items))
  | [], _ => .noItems (by rintro c ⟨⟩)
  | [v], h => by
      have hv : v.proper = true := by simpa [itemsProper] using h
      have hnone : Blank [] := by rintro c ⟨⟩
      have hlast := Renders.lastItem hnone (renders_toText hkey hstring v hv) hnone
      simpa [itemTexts, Text.join] using hlast
  | v :: w :: items, h => by
      have hboth : v.proper = true ∧ itemsProper (w :: items) = true := by
        rwa [itemsProper, Bool.and_eq_true] at h
      have hnone : Blank [] := by rintro c ⟨⟩
      have hmore := Renders.moreItems hnone (renders_toText hkey hstring v hboth.1) hnone
        (renders_itemTexts hkey hstring (w :: items) hboth.2)
      simpa [itemTexts, Text.join] using hmore

theorem renders_fieldTexts (hkey : ∀ s, key s (quote s) (quote s))
    (hstring : ∀ s, string s (quote s) (quote s)) :
  ∀ fields : List (Text × Value), fieldsProper fields →
    Renders key string (.fields fields) (Text.join [','] (fieldTexts fields))
      (Text.join [','] (fieldTexts fields))
  | [], _ => .noFields (by rintro c ⟨⟩)
  | [(name, v)], h => by
      have hv : v.proper = true := by simpa [fieldsProper] using h
      have hnone : Blank [] := by rintro c ⟨⟩
      have hlast := Renders.lastField hnone (hkey name) hnone hnone
        (renders_toText hkey hstring v hv) hnone
      simpa [fieldTexts, Text.join] using hlast
  | (name, v) :: f :: fields, h => by
      have hboth : v.proper = true ∧ fieldsProper (f :: fields) = true := by
        rwa [fieldsProper, Bool.and_eq_true] at h
      have hnone : Blank [] := by rintro c ⟨⟩
      have hmore := Renders.moreFields hnone (hkey name) hnone hnone
        (renders_toText hkey hstring v hboth.1) hnone
        (renders_fieldTexts hkey hstring (f :: fields) hboth.2)
      obtain ⟨name', v'⟩ := f
      simpa [fieldTexts, Text.join] using hmore

end

theorem denotes_toText {v : Value} (h : v.proper) :
  Denotes v v.toText
  := renders_toText exact_quote exact_quote v h

/-! ### Readers -/

/-- The reader of JSON texts. -/
abbrev Reader :=
  Text → Except Text Value

/-- A text of a value, with white space around it. -/
def JsonText (v : Value) (t : Text) : Prop :=
  ∃ a u b, Blank a ∧ Denotes v u ∧ Blank b ∧ t = a ++ u ++ b

/-- The reader reads the texts of the value. -/
def Readable (fromStr : Reader) (v : Value) : Prop :=
  ∀ t, JsonText v t → fromStr t = .ok v

theorem jsonText_toText {v : Value} (h : v.proper) :
  JsonText v v.toText
  := by
  have hblank : Blank [] := List.forall_mem_nil _
  exact ⟨[], v.toText, [], hblank, denotes_toText h, hblank, (List.append_nil _).symm⟩

theorem exists_mem_of_renders {v : Value} {t u : Text} (h : Renders Exact Exact (.value v) t u) :
  ∃ c ∈ u, c ≠ '\n'
  := by
  cases h with
  | null => exact ⟨'n', by decide, by decide⟩
  | true => exact ⟨'t', by decide, by decide⟩
  | false => exact ⟨'f', by decide, by decide⟩
  | @number n e plus proper letter =>
    obtain ⟨d, ds, hdigits⟩ := List.exists_cons_of_ne_nil n.nonempty
    have hmem : digit d ∈ n.textWith e plus := by
      simp [Number.textWith, hdigits]
    refine ⟨digit d, hmem, ?_⟩
    rintro hnewline
    have hnumeral := textWith_subset letter plus n hmem
    rw [hnewline] at hnumeral
    exact absurd hnumeral (by decide)
  | string hexact =>
    obtain ⟨rfl, b, -, rfl⟩ := hexact
    exact ⟨'"', List.mem_cons_self, by decide⟩
  | array _ => exact ⟨'[', List.mem_cons_self, by decide⟩
  | object _ => exact ⟨'{', List.mem_cons_self, by decide⟩

theorem exists_mem_of_jsonText {v : Value} {t : Text} (h : JsonText v t) :
  ∃ c ∈ t, c ≠ '\n'
  := by
  obtain ⟨a, u, b, -, hdenotes, -, rfl⟩ := h
  obtain ⟨c, hc, hne⟩ := exists_mem_of_renders hdenotes
  exact ⟨c, by simp [hc], hne⟩

/-! ### Strings in texts -/

mutual

def Value.strings : Value → List Text
  | .string s => [s]
  | .array items => itemsStrings items
  | .object fields => fieldsStrings fields
  | _ => []

def itemsStrings : List Value → List Text
  | [] => []
  | item :: items => item.strings ++ itemsStrings items

def fieldsStrings : List (Text × Value) → List Text
  | [] => []
  | (name, value) :: fields => name :: value.strings ++ fieldsStrings fields

end

/-- The characters that stand outside of strings, and those of escapes. -/
def plain : List Char :=
  "0123456789abcdef-+.eEnulltruefals\"\\brtu[]{},:".toList

/-- What has no character that ends a string or is an escape, and begins with a character that is
in strings only. -/
structure Stringlike (c : Char) (l : Text) : Prop where
  head : c ∉ plain
  marks : ∀ d ∈ c :: l, d ∉ ['"', '\\', '[', ']', '{', '}', ',', ':']

variable {c : Char} {l : Text}

theorem Stringlike.not_mem (h : Stringlike c l) {d : Char}
    (hd : d ∈ ['"', '\\', '[', ']', '{', '}', ',', ':']) :
  d ∉ c :: l
  := fun hmem => h.marks d hmem hd

theorem escapeChar_cases (d : Char) :
  escapeChar d = [d] ∨ ∃ e, escapeChar d = '\\' :: e ∧ '\\' :: e ⊆ plain
  := by
  unfold escapeChar
  split_ifs with h₁ h₂ h₃ h₄ h₅ h₆ h₇ h₈
  iterate 7 exact .inr ⟨_, rfl, by decide⟩
  · have hall : ∀ n < 0x20, ['\\', 'u', '0', '0'] ++ Text.hexByte (.ofNat n) ⊆ plain := by decide
    exact .inr ⟨_, rfl, hall d.toNat h₈⟩
  · exact .inl rfl

theorem prefix_of_escaped {l s : Text} (hescape : '\\' ∉ l) (h : l <+: s.flatMap escapeChar) :
  l <+: s
  := by
  induction s generalizing l with
  | nil => exact h
  | cons d s ih =>
    rw [List.flatMap_cons] at h
    rcases escapeChar_cases d with hd | ⟨e, hd, -⟩
    · rw [hd, List.singleton_append] at h
      rcases List.prefix_cons_iff.mp h with rfl | ⟨l, rfl, hl⟩
      · apply List.nil_prefix
      · rw [List.cons_prefix_cons]
        exact ⟨rfl, ih (fun hmem => hescape (List.mem_cons_of_mem d hmem)) hl⟩
    · rw [hd, List.cons_append] at h
      rcases List.prefix_cons_iff.mp h with rfl | ⟨l, rfl, -⟩
      · apply List.nil_prefix
      · exact absurd List.mem_cons_self hescape

theorem Stringlike.infix_escaped (hl : Stringlike c l) {s : Text}
    (h : (c :: l) <:+: s.flatMap escapeChar) :
  (c :: l) <:+: s
  := by
  induction s with
  | nil => exact h
  | cons d s ih =>
    rw [List.flatMap_cons] at h
    rcases escapeChar_cases d with hd | ⟨e, hd, hplain⟩
    · rw [hd, List.singleton_append] at h
      rcases List.infix_cons_iff.mp h with hprefix | hinfix
      · have hwhole : (c :: l) <+: (d :: s).flatMap escapeChar := by
          rw [List.flatMap_cons, hd]
          exact hprefix
        exact (prefix_of_escaped (hl.not_mem (by decide)) hwhole).isInfix
      · exact List.infix_cons (ih hinfix)
    · rw [hd] at h
      exact List.infix_cons (ih (Text.infix_of_head_not_mem (fun hc => hl.head (hplain hc)) h))

theorem Stringlike.infix_quote (hl : Stringlike c l) {s : Text} (h : (c :: l) <:+: quote s) :
  (c :: l) <:+: s
  := by
  have hquote : quote s = [] ++ '"' :: (s.flatMap escapeChar ++ '"' :: []) := rfl
  rw [hquote] at h
  have hmark := hl.not_mem (d := '"') (by decide)
  rcases Text.infix_of_append_cons hmark h with hnil | h
  · exact absurd (List.infix_nil.mp hnil) (List.cons_ne_nil c l)
  · rcases Text.infix_of_append_cons hmark h with h | hnil
    · exact hl.infix_escaped h
    · exact absurd (List.infix_nil.mp hnil) (List.cons_ne_nil c l)

theorem Stringlike.infix_bracket (hl : Stringlike c l) {left right : Char} {t : Text}
    (hleft : left ∈ ['"', '\\', '[', ']', '{', '}', ',', ':'])
    (hright : right ∈ ['"', '\\', '[', ']', '{', '}', ',', ':'])
    (h : (c :: l) <:+: left :: t ++ [right]) :
  (c :: l) <:+: t
  := by
  have hparts : left :: t ++ [right] = [] ++ left :: (t ++ right :: []) := rfl
  rw [hparts] at h
  rcases Text.infix_of_append_cons (hl.not_mem hleft) h with hnil | h
  · exact absurd (List.infix_nil.mp hnil) (List.cons_ne_nil c l)
  · rcases Text.infix_of_append_cons (hl.not_mem hright) h with h | hnil
    · exact h
    · exact absurd (List.infix_nil.mp hnil) (List.cons_ne_nil c l)

theorem Stringlike.not_infix (hl : Stringlike c l) {t : Text} (ht : t ⊆ plain) :
  ¬(c :: l) <:+: t
  := fun h => hl.head (ht (h.subset List.mem_cons_self))

mutual

theorem Stringlike.infix_toText (hl : Stringlike c l) :
  ∀ v : Value, (c :: l) <:+: v.toText → ∃ s ∈ v.strings, (c :: l) <:+: s
  | .null, h => absurd h (hl.not_infix (by decide))
  | .bool .true, h => absurd h (hl.not_infix (by decide))
  | .bool .false, h => absurd h (hl.not_infix (by decide))
  | .number n, h => by
      have hnumeral : numeral ⊆ plain := by decide
      have htext := textWith_subset (.inl rfl) false n
      rw [Number.textWith_e] at htext
      exact absurd h (hl.not_infix (List.Subset.trans htext hnumeral))
  | .string s, h => ⟨s, List.mem_singleton_self s, hl.infix_quote h⟩
  | .array items, h => by
      have hitems := hl.infix_bracket (by decide) (by decide) h
      obtain ⟨t, ht, hinfix⟩ := Text.infix_of_join (List.cons_ne_nil c l)
        (hl.not_mem (by decide)) hitems
      exact hl.infix_itemTexts items t ht hinfix
  | .object fields, h => by
      have hfields := hl.infix_bracket (by decide) (by decide) h
      obtain ⟨t, ht, hinfix⟩ := Text.infix_of_join (List.cons_ne_nil c l)
        (hl.not_mem (by decide)) hfields
      exact hl.infix_fieldTexts fields t ht hinfix

theorem Stringlike.infix_itemTexts (hl : Stringlike c l) :
  ∀ items : List Value, ∀ t ∈ itemTexts items, (c :: l) <:+: t →
    ∃ s ∈ itemsStrings items, (c :: l) <:+: s
  | [], t, ht, _ => absurd ht List.not_mem_nil
  | v :: items, t, ht, h => by
      rcases List.mem_cons.mp ht with rfl | ht
      · obtain ⟨s, hs, hinfix⟩ := hl.infix_toText v h
        exact ⟨s, List.mem_append_left _ hs, hinfix⟩
      · obtain ⟨s, hs, hinfix⟩ := hl.infix_itemTexts items t ht h
        exact ⟨s, List.mem_append_right _ hs, hinfix⟩

theorem Stringlike.infix_fieldTexts (hl : Stringlike c l) :
  ∀ fields : List (Text × Value), ∀ t ∈ fieldTexts fields, (c :: l) <:+: t →
    ∃ s ∈ fieldsStrings fields, (c :: l) <:+: s
  | [], t, ht, _ => absurd ht List.not_mem_nil
  | (name, v) :: fields, t, ht, h => by
      rcases List.mem_cons.mp ht with rfl | ht
      · rcases Text.infix_of_append_cons (hl.not_mem (by decide)) h with hname | hvalue
        · exact ⟨name, List.mem_cons_self, hl.infix_quote hname⟩
        · obtain ⟨s, hs, hinfix⟩ := hl.infix_toText v hvalue
          exact ⟨s, List.mem_cons_of_mem name (List.mem_append_left _ hs), hinfix⟩
      · obtain ⟨s, hs, hinfix⟩ := hl.infix_fieldTexts fields t ht h
        exact ⟨s, List.mem_cons_of_mem name (List.mem_append_right _ hs), hinfix⟩

end

end Json
