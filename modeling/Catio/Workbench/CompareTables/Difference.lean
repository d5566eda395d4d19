import Catio.Workbench.CompareTables
import Mathlib.Data.List.Nodup
import Mathlib.Data.Rat.Lemmas

/-!
# The difference of two tables

What the parts of a difference are: the rows of the source that the target does not have by their
keys, those it has with other values, and the rows of the target that the source does not have.
-/

namespace Workbench

open JavaScript

/-! ### Values -/

theorem isSafeInteger_lastExponent (d : Decimal) :
  isSafeInteger (lastExponent d.numeral)
  := by
  have hlow := d.le_point
  have hhigh := d.point_le
  have hsize : toDouble (Nat.ofDigitChars 10 (Text.ofNat (d.point - 1).natAbs) 0)
      = (d.point - 1).natAbs := by
    rw [Text.ofNat, Nat.ofDigitChars_toDigits (by decide) (by decide)]
    apply toDouble_of_lt
    omega
  obtain ⟨hfraction, hnone | hsome⟩ := d.numeral_parts
  · unfold isSafeInteger lastExponent
    rw [hnone, decide_eq_true_eq]
    dsimp only
    omega
  · unfold isSafeInteger lastExponent
    rw [hsome, decide_eq_true_eq]
    dsimp only
    rw [hsize]
    split <;> omega

variable {rows : List (List Value)} {columns : List Text} {keys : List ℕ} {n : Number}
    {item : Item}

theorem isSome_normalize (h : n.isFinite) :
  (normalize n.toText).isSome
  := by
  cases n with
  | nan => cases h
  | infinity negative => cases h
  | zero => rfl
  | decimal d =>
    unfold normalize
    simp only [Number.toText, d.readNumeral_toText, Option.bind_some]
    split
    · rfl
    · rw [if_pos (isSafeInteger_lastExponent d)]
      rfl

theorem valuesEqual_self {value : Value} (h : value ≠ .number .nan) :
  valuesEqual value value
  := by
  cases value with
  | undefined => rfl
  | null => rfl
  | boolean b => simp [valuesEqual, Value.strictEqual]
  | number n =>
    have hn : n ≠ .nan := fun hn => h (congrArg Value.number hn)
    simp [valuesEqual, Value.strictEqual, hn]
  | string s => simp [valuesEqual, Value.strictEqual]
  | array items => simp [valuesEqual, Value.isObject, Value.isNullish, Value.isNumber]
  | object fields => simp [valuesEqual, Value.isObject, Value.isNullish, Value.isNumber]

theorem numeric_number (h : n.isFinite) :
  numeric (.number n) = normalize n.toText
  := by
  simp only [numeric, h, ↓reduceIte]

theorem numeric_eq {value : Value} (hn : n.isFinite) (hvalue : numeric value = normalize n.toText) :
  (numeric value).isSome ∧ numeric value = numeric (.number n)
  := by
  rw [hvalue, numeric_number hn]
  exact ⟨isSome_normalize hn, rfl⟩

theorem toText_ne_boolean (hn : n.isFinite) (b : Bool) :
  n.toText ≠ (Value.boolean b).toText
  := by
  intro h
  have hsome := isSome_normalize hn
  rw [h] at hsome
  revert hsome
  cases b <;> decide

theorem valuesEqual_of_toText {a b : Value} (ha : unsafeKey a = false) (hb : unsafeKey b = false)
    (h : a.toText = b.toText) :
  valuesEqual a b
  := by
  unfold valuesEqual
  cases a with
  | undefined => cases ha
  | null => cases ha
  | array items => cases ha
  | object fields => cases ha
  | boolean x =>
    cases b with
    | undefined => cases hb
    | null => cases hb
    | array items => cases hb
    | object fields => cases hb
    | number m =>
      have hm : m.isFinite := by simpa [unsafeKey] using hb
      exact absurd h.symm (toText_ne_boolean hm x)
    | boolean y => simp [h, Value.isNullish, Value.isNumber, Value.isObject]
    | string s => simp [h, Value.isNullish, Value.isNumber, Value.isObject]
  | number n =>
    have hn : n.isFinite := by simpa [unsafeKey] using ha
    cases b with
    | undefined => cases hb
    | null => cases hb
    | array items => cases hb
    | object fields => cases hb
    | boolean y => exact absurd h (toText_ne_boolean hn y)
    | number m =>
      have hm : m.isFinite := by simpa [unsafeKey] using hb
      have hvalue : numeric (.number m) = normalize n.toText :=
        (numeric_number hm).trans (congrArg normalize h.symm)
      obtain ⟨hsome, heq⟩ := numeric_eq hn hvalue
      simp [Value.isNullish, Value.isNumber, ← heq, hsome]
    | string s =>
      have hvalue : numeric (.string s) = normalize n.toText := congrArg normalize h.symm
      obtain ⟨hsome, heq⟩ := numeric_eq hn hvalue
      simp [Value.isNullish, Value.isNumber, ← heq, hsome]
  | string s =>
    cases b with
    | undefined => cases hb
    | null => cases hb
    | array items => cases hb
    | object fields => cases hb
    | boolean y => simp [h, Value.isNullish, Value.isNumber, Value.isObject]
    | number m =>
      have hm : m.isFinite := by simpa [unsafeKey] using hb
      have hvalue : numeric (.string s) = normalize m.toText := congrArg normalize h
      obtain ⟨hsome, heq⟩ := numeric_eq hm hvalue
      simp [Value.isNullish, Value.isNumber, ← heq, hsome]
    | string t => simp [h, Value.isNullish, Value.isNumber, Value.isObject]

/-! ### Binary places -/

theorem placeBelow_eq_some {x : ℚ} {length k : ℕ} :
  placeBelow x length = some k ↔ x = k ∧ k < length
  := by
  unfold placeBelow
  constructor
  · intro h
    split at h
    · rename_i hx
      obtain ⟨hden, hnum, hlt⟩ := hx
      obtain rfl := Option.some.inj h
      refine ⟨?_, hlt⟩
      have hvalue : x = x.num := (Rat.den_eq_one_iff x).mp hden |>.symm
      rw [hvalue]
      have hnonneg : (x.num.toNat : ℤ) = x.num := Int.toNat_of_nonneg hnum
      exact_mod_cast hnonneg.symm
    · cases h
  · rintro ⟨rfl, hlt⟩
    simp [hlt]

theorem binaryRow_eq_some {out out' : List (List ℕ)} {cell : BinaryCell} :
  binaryRow rows columns out cell = some out' ↔
    ∃ r c : ℕ, cell = ((r : ℚ), (c : ℚ)) ∧ r < rows.length ∧ c < columns.length
      ∧ ((cellAt (rows.getD r []) c).isNullish ∧ out' = out
        ∨ (cellAt (rows.getD r []) c).isNullish = false
          ∧ validBinaryHex (cellAt (rows.getD r []) c) ∧ out' = out.modify r (addToSet c))
  := by
  obtain ⟨x, y⟩ := cell
  constructor
  · intro h
    simp only [binaryRow, bind, Option.bind_eq_some_iff] at h
    obtain ⟨r, hr, c, hc, h⟩ := h
    obtain ⟨rfl, hlt⟩ := placeBelow_eq_some.mp hr
    obtain ⟨rfl, hcolumn⟩ := placeBelow_eq_some.mp hc
    refine ⟨r, c, rfl, hlt, hcolumn, ?_⟩
    split at h
    · rename_i hnull
      exact .inl ⟨hnull, (Option.some.inj h).symm⟩
    · rename_i hnull
      obtain ⟨_, hvalid, h⟩ := Option.bind_eq_some_iff.mp h
      refine .inr ⟨by simpa using hnull, ?_, (Option.some.inj h).symm⟩
      by_contra hinvalid
      rw [guard, if_neg hinvalid] at hvalid
      cases hvalid
  · rintro ⟨r, c, hcell, hr, hc, hout⟩
    obtain ⟨rfl, rfl⟩ := Prod.mk.inj hcell
    have hrow : placeBelow (r : ℚ) rows.length = some r := placeBelow_eq_some.mpr ⟨rfl, hr⟩
    have hcolumn : placeBelow (c : ℚ) columns.length = some c :=
      placeBelow_eq_some.mpr ⟨rfl, hc⟩
    simp only [binaryRow, hrow, hcolumn, bind, Option.bind_some]
    obtain ⟨hnull, rfl⟩ | ⟨hnull, hvalid, rfl⟩ := hout
    · rw [if_pos hnull]
      rfl
    · rw [hnull]
      simp only [Bool.false_eq_true, ↓reduceIte]
      rw [guard, if_pos hvalid]
      rfl

def GoodPlace (rows : List (List Value)) (columns : List Text) (cell : BinaryCell) : Prop :=
  ∃ r c : ℕ, cell = ((r : ℚ), (c : ℚ)) ∧ r < rows.length ∧ c < columns.length
    ∧ ((cellAt (rows.getD r []) c).isNullish ∨ validBinaryHex (cellAt (rows.getD r []) c))

theorem mem_getD_modify {out : List (List ℕ)} {r c r' c' : ℕ} (h : r < out.length) :
  c' ∈ (out.modify r (addToSet c)).getD r' [] ↔ c' ∈ out.getD r' [] ∨ r' = r ∧ c' = c
  := by
  have hadd : ∀ cs, c' ∈ addToSet c cs ↔ c' ∈ cs ∨ c' = c := by
    intro cs
    unfold addToSet
    split
    · rename_i hc
      constructor
      · exact .inl
      · rintro (hmem | rfl)
        · exact hmem
        · exact hc
    · simp
  rw [List.getD_eq_getElem?_getD, List.getD_eq_getElem?_getD, List.getElem?_modify]
  by_cases hr : r = r'
  · subst hr
    simp [h, hadd]
  · have hne : r' ≠ r := fun heq => hr heq.symm
    cases hrow : out[r']? <;> simp [hr, hne]

theorem foldlM_binaryRow {cells : List BinaryCell} {start out : List (List ℕ)}
    (hstart : start.length = rows.length)
    (h : cells.foldlM (binaryRow rows columns) start = some out) :
  out.length = rows.length ∧ (∀ cell ∈ cells, GoodPlace rows columns cell)
    ∧ ∀ r c, c ∈ out.getD r [] ↔ c ∈ start.getD r []
      ∨ ((r : ℚ), (c : ℚ)) ∈ cells ∧ (cellAt (rows.getD r []) c).isNullish = false
  := by
  induction cells generalizing start with
  | nil =>
    obtain rfl := Option.some.inj h
    simp [hstart]
  | cons cell cells ih =>
    rw [List.foldlM_cons] at h
    obtain ⟨middle, hstep, htail⟩ := Option.bind_eq_some_iff.mp h
    obtain ⟨r, c, rfl, hr, hc, hmiddle⟩ := binaryRow_eq_some.mp hstep
    have hlength : middle.length = rows.length := by
      obtain ⟨_, rfl⟩ | ⟨_, _, rfl⟩ := hmiddle <;> simp [hstart]
    obtain ⟨hout, hgood, hmem⟩ := ih hlength htail
    refine ⟨hout, ?_, ?_⟩
    · rintro cell (_ | ⟨_, hcell⟩)
      · refine ⟨r, c, rfl, hr, hc, ?_⟩
        obtain ⟨hnull, _⟩ | ⟨_, hvalid, _⟩ := hmiddle
        · exact .inl hnull
        · exact .inr hvalid
      · exact hgood cell hcell
    · intro r' c'
      rw [hmem, List.mem_cons, Prod.mk.injEq, Nat.cast_inj, Nat.cast_inj]
      obtain ⟨hnull, rfl⟩ | ⟨hnull, _, rfl⟩ := hmiddle
      · constructor
        · rintro (hold | ⟨hcell, hvalue⟩)
          · exact .inl hold
          · exact .inr ⟨.inr hcell, hvalue⟩
        · rintro (hold | ⟨⟨rfl, rfl⟩ | hcell, hvalue⟩)
          · exact .inl hold
          · rw [hnull] at hvalue
            cases hvalue
          · exact .inr ⟨hcell, hvalue⟩
      · rw [mem_getD_modify (by omega)]
        constructor
        · rintro ((hold | ⟨rfl, rfl⟩) | ⟨hcell, hvalue⟩)
          · exact .inl hold
          · exact .inr ⟨.inl ⟨rfl, rfl⟩, hnull⟩
          · exact .inr ⟨.inr hcell, hvalue⟩
        · rintro (hold | ⟨⟨rfl, rfl⟩ | hcell, hvalue⟩)
          · exact .inl (.inl hold)
          · exact .inl (.inr ⟨rfl, rfl⟩)
          · exact .inr ⟨hcell, hvalue⟩

theorem binaryRows_eq_some {cells : List BinaryCell} {out : List (List ℕ)}
    (h : binaryRows rows columns cells = some out) :
  out.length = rows.length ∧ (∀ cell ∈ cells, GoodPlace rows columns cell)
    ∧ ∀ r c, c ∈ out.getD r [] ↔
      ((r : ℚ), (c : ℚ)) ∈ cells ∧ (cellAt (rows.getD r []) c).isNullish = false
  := by
  obtain ⟨hlength, hgood, hmem⟩ := foldlM_binaryRow (by simp) h
  refine ⟨hlength, hgood, fun r c => ?_⟩
  have hempty : (rows.map fun _ => ([] : List ℕ)).getD r [] = [] := by
    rw [List.getD_eq_getElem?_getD, List.getElem?_map]
    cases rows[r]? <;> rfl
  rw [hmem, hempty]
  simp

theorem exists_binaryRows {cells : List BinaryCell}
    (h : ∀ cell ∈ cells, GoodPlace rows columns cell) :
  ∃ out, binaryRows rows columns cells = some out
  := by
  unfold binaryRows
  generalize rows.map (fun _ => ([] : List ℕ)) = start
  induction cells generalizing start with
  | nil => exact ⟨start, rfl⟩
  | cons cell cells ih =>
    obtain ⟨r, c, rfl, hr, hc, hvalue⟩ := h _ (List.mem_cons_self ..)
    obtain ⟨middle, hmiddle⟩ :
        ∃ middle, binaryRow rows columns start ((r : ℚ), (c : ℚ)) = some middle := by
      by_cases hnull : (cellAt (rows.getD r []) c).isNullish
      · exact ⟨start, binaryRow_eq_some.mpr ⟨r, c, rfl, hr, hc, .inl ⟨hnull, rfl⟩⟩⟩
      · have hvalid := hvalue.resolve_left hnull
        rw [Bool.not_eq_true] at hnull
        exact ⟨_, binaryRow_eq_some.mpr ⟨r, c, rfl, hr, hc, .inr ⟨hnull, hvalid, rfl⟩⟩⟩
    rw [List.foldlM_cons, hmiddle]
    exact ih (fun cell hcell => h cell (List.mem_cons_of_mem _ hcell)) middle

/-! ### What is compared -/

/-- The tables fit together, and are compared by these keys and rows. -/
structure Ready (input : CompareInput) (p : Prepared) : Prop where
  columns : columnsMismatch input = false
  pk_ne : input.pkNames ≠ []
  pk_nodup : input.pkNames.Nodup
  pk_mem : ∀ name ∈ input.pkNames, name ∈ input.srcColumns
  keys : p.keys = input.pkNames.map fun name => input.srcColumns.idxOf name
  source : ∃ binary, binaryRows input.srcRows input.srcColumns input.srcBinaryCells = some binary
    ∧ p.source = List.zipWith Item.mk input.srcRows binary
  target : ∃ binary, binaryRows input.tgtRows input.tgtColumns input.tgtBinaryCells = some binary
    ∧ p.target = List.zipWith
      (targetItem (input.srcColumns.map fun c => input.tgtColumns.idxOf c)) input.tgtRows binary
  safe : ∀ item ∈ p.source ++ p.target, ∀ i ∈ p.keys, unsafeKey (cellAt item.row i) = false

theorem idxOf?_eq_idxOf {names : List Text} {name : Text} (h : name ∈ names) :
  names.idxOf? name = some (names.idxOf name)
  := by
  induction names with
  | nil => cases h
  | cons first names ih =>
    by_cases hname : first = name
    · simp [List.idxOf?_cons, hname]
    · have hmem : name ∈ names := by
        obtain rfl | hmem := List.mem_cons.mp h
        · exact absurd rfl hname
        · exact hmem
      simp [List.idxOf?_cons, hname, ih hmem]

theorem keys_good {names columns : List Text} :
  ¬(names.map (fun name => columns.idxOf? name) = []
      ∨ ¬(names.map fun name => columns.idxOf? name).Nodup
      ∨ none ∈ names.map fun name => columns.idxOf? name)
    ↔ names ≠ [] ∧ names.Nodup ∧ ∀ name ∈ names, name ∈ columns
  := by
  have hmem : (none ∉ names.map fun name => columns.idxOf? name)
      ↔ ∀ name ∈ names, name ∈ columns := by
    simp [List.idxOf?_eq_none_iff]
  rw [not_or, not_or, not_not, hmem, List.map_eq_nil_iff]
  apply and_congr_right
  intro _
  constructor
  · rintro ⟨hnodup, hcolumns⟩
    exact ⟨.of_map _ hnodup, hcolumns⟩
  · rintro ⟨hnodup, hcolumns⟩
    refine ⟨(List.nodup_map_iff_inj_on hnodup).mpr ?_, hcolumns⟩
    intro x hx y hy heq
    rw [idxOf?_eq_idxOf (hcolumns x hx), idxOf?_eq_idxOf (hcolumns y hy),
      Option.some.injEq] at heq
    exact (List.idxOf_inj (hcolumns x hx)).mp heq

theorem filterMap_idxOf? {names columns : List Text} (h : ∀ name ∈ names, name ∈ columns) :
  (names.map fun name => columns.idxOf? name).filterMap id
    = names.map fun name => columns.idxOf name
  := by
  rw [List.filterMap_map]
  induction names with
  | nil => rfl
  | cons name names ih =>
    have hname : columns.idxOf? name = some (columns.idxOf name) :=
      idxOf?_eq_idxOf (h name (List.mem_cons_self ..))
    rw [List.map_cons, ← ih fun name hname => h name (List.mem_cons_of_mem _ hname)]
    exact List.filterMap_cons_some hname

theorem prepare_eq_ok {input : CompareInput} {p : Prepared} :
  prepare input = .ok p ↔ Ready input p
  := by
  constructor
  · intro h
    simp only [prepare, bind, Except.bind, pure, Except.pure] at h
    split at h
    · cases h
    rename_i hcolumns
    split at h
    · cases h
    rename_i hkeys
    obtain ⟨hne, hnodup, hmem⟩ := keys_good.mp hkeys
    rw [filterMap_idxOf? hmem] at h
    split at h
    · rename_i sourceBinary targetBinary hsource htarget
      split at h
      · cases h
      · rename_i hsafe
        obtain rfl := Except.ok.inj h
        refine ⟨by simpa using hcolumns, hne, hnodup, hmem, rfl, ⟨_, hsource, rfl⟩,
          ⟨_, htarget, rfl⟩, ?_⟩
        intro item hitem i hi
        rw [List.any_eq_true] at hsafe
        by_contra hunsafe
        rw [Bool.not_eq_false] at hunsafe
        exact hsafe ⟨item, hitem, List.any_eq_true.mpr ⟨i, hi, hunsafe⟩⟩
    · cases h
  · rintro ⟨hcolumns, hne, hnodup, hmem, hkeys, ⟨sourceBinary, hsource, hitems⟩,
      ⟨targetBinary, htarget, hrows⟩, hsafe⟩
    obtain ⟨keys, source, target⟩ := p
    dsimp only at hkeys hitems hrows hsafe
    subst hkeys hitems hrows
    have hsafe' : ¬((List.zipWith Item.mk input.srcRows sourceBinary
          ++ List.zipWith (targetItem (input.srcColumns.map fun c => input.tgtColumns.idxOf c))
            input.tgtRows targetBinary).any fun item =>
        (input.pkNames.map fun name => input.srcColumns.idxOf name).any fun i =>
          unsafeKey (cellAt item.row i)) := by
      rw [List.any_eq_true]
      rintro ⟨item, hitem, hany⟩
      obtain ⟨i, hi, hunsafe⟩ := List.any_eq_true.mp hany
      rw [hsafe item hitem i hi] at hunsafe
      cases hunsafe
    simp only [prepare, bind, Except.bind, pure, Except.pure, hcolumns, Bool.false_eq_true,
      ↓reduceIte, if_neg (keys_good.mpr ⟨hne, hnodup, hmem⟩), filterMap_idxOf? hmem, hsource,
      htarget, if_neg hsafe']

/-! ### Keys -/

/-- The values of a row, with what of them is binary. -/
def Item.cells (item : Item) : List Cell :=
  item.row.mapIdx fun c value => ⟨value, c ∈ item.binary⟩

def Cell.keyForm (cell : Cell) : Bool × Text :=
  (cell.binary, if cell.binary then lowerText cell.value else cell.value.toText)

def cellOf (row : List Cell) (c : ℕ) : Cell :=
  row.getD c ⟨.undefined, false⟩

def keyOf (keys : List ℕ) (row : List Cell) : List (Bool × Text) :=
  keys.map fun i => (cellOf row i).keyForm

/-- Two cells have the same value: binary ones up to the case of their text. -/
def sameCell (a b : Cell) : Bool :=
  a.binary == b.binary
    && if a.binary then lowerText a.value == lowerText b.value else valuesEqual a.value b.value

def keyText (part : Bool × Text) : Text :=
  (if part.1 then "[\"binary\",".toList else "[\"scalar\",".toList) ++ Json.quote part.2 ++ [']']

theorem length_cells (item : Item) :
  item.cells.length = item.row.length
  := List.length_mapIdx

theorem cellOf_cells {c : ℕ} (h : c < item.row.length) :
  cellOf item.cells c = ⟨cellAt item.row c, c ∈ item.binary⟩
  := by
  simp [cellOf, Item.cells, cellAt, List.getD_eq_getElem?_getD, List.getElem?_mapIdx,
    List.getElem?_eq_getElem h]

theorem keyPart_eq {i : ℕ} (h : i < item.row.length) :
  keyPart item i = keyText (cellOf item.cells i).keyForm
  := by
  rw [cellOf_cells h]
  unfold keyPart keyText Cell.keyForm
  by_cases hi : i ∈ item.binary
  · simp [hi]
  · simp [hi]

theorem keyText_append_inj {p q : Bool × Text} {x y : Text} (h : keyText p ++ x = keyText q ++ y) :
  p = q ∧ x = y
  := by
  obtain ⟨b, s⟩ := p
  obtain ⟨d, t⟩ := q
  have hclose : ∀ {s t x y : Text},
      Json.quote s ++ ([']'] ++ x) = Json.quote t ++ ([']'] ++ y) → s = t ∧ x = y := by
    intro s t x y h
    obtain ⟨hst, hrest⟩ := Json.quote_append_inj h
    exact ⟨hst, List.append_cancel_left hrest⟩
  cases b <;> cases d
  · simp only [keyText, Bool.false_eq_true, ↓reduceIte, List.append_assoc] at h
    obtain ⟨rfl, rfl⟩ := hclose (List.append_cancel_left h)
    exact ⟨rfl, rfl⟩
  · simp [keyText] at h
  · simp [keyText] at h
  · simp only [keyText, ↓reduceIte, List.append_assoc] at h
    obtain ⟨rfl, rfl⟩ := hclose (List.append_cancel_left h)
    exact ⟨rfl, rfl⟩

theorem join_cons (part : Text) (parts : List Text) :
  Text.join [','] (part :: parts)
    = part ++ if parts = [] then [] else ',' :: Text.join [','] parts
  := by
  cases parts with
  | nil => simp [Text.join]
  | cons second parts => simp [Text.join]

def keysText (parts : List (Bool × Text)) : Text :=
  '[' :: Text.join [','] (parts.map keyText) ++ [']']

theorem keysText_injective :
  Function.Injective keysText
  := by
  intro ps qs h
  have hjoin : Text.join [','] (ps.map keyText) ++ [']']
      = Text.join [','] (qs.map keyText) ++ [']'] := by
    simpa [keysText] using h
  clear h
  induction ps generalizing qs with
  | nil =>
    obtain _ | ⟨⟨b, t⟩, qs⟩ := qs
    · rfl
    · rw [List.map_cons, join_cons] at hjoin
      cases b <;> simp [Text.join, keyText] at hjoin
  | cons p ps ih =>
    obtain _ | ⟨q, qs⟩ := qs
    · obtain ⟨b, t⟩ := p
      rw [List.map_cons, join_cons] at hjoin
      cases b <;> simp [Text.join, keyText] at hjoin
    · rw [List.map_cons, List.map_cons, join_cons, join_cons, List.append_assoc,
        List.append_assoc] at hjoin
      obtain ⟨rfl, hrest⟩ := keyText_append_inj hjoin
      cases ps with
      | nil =>
        cases qs with
        | nil => rfl
        | cons second qs => simp at hrest
      | cons second ps =>
        cases qs with
        | nil => simp at hrest
        | cons second' qs =>
          have htail : second :: ps = second' :: qs := ih (by simpa using hrest)
          rw [htail]

theorem rowKey_eq (h : ∀ i ∈ keys, i < item.row.length) :
  rowKey item keys = keysText (keyOf keys item.cells)
  := by
  have hparts : keys.map (keyPart item) = (keyOf keys item.cells).map keyText := by
    rw [keyOf, List.map_map]
    exact List.map_congr_left fun i hi => keyPart_eq (h i hi)
  unfold rowKey keysText
  rw [hparts]

theorem cellChanged_eq {a b : Item} {c : ℕ} (ha : c < a.row.length) (hb : c < b.row.length) :
  cellChanged a b c = !sameCell (cellOf a.cells c) (cellOf b.cells c)
  := by
  rw [cellOf_cells ha, cellOf_cells hb]
  unfold cellChanged sameCell
  by_cases hc : c ∈ a.binary <;> by_cases hd : c ∈ b.binary <;> simp [hc, hd, bne]

/-! ### The parts -/

theorem nodup_step {k : Text} {ks seen : List Text} :
  k ∉ seen ∧ ks.Nodup ∧ (∀ k' ∈ ks, k' ∉ seen ++ [k])
    ↔ (k :: ks).Nodup ∧ ∀ k' ∈ k :: ks, k' ∉ seen
  := by
  simp only [List.nodup_cons, List.mem_cons, List.mem_append, List.mem_nil_iff, or_false, not_or,
    forall_eq_or_imp]
  constructor
  · rintro ⟨hseen, hnodup, hall⟩
    exact ⟨⟨fun hk => (hall k hk).2 rfl, hnodup⟩, hseen, fun k' hk' => (hall k' hk').1⟩
  · rintro ⟨⟨hk, hnodup⟩, hseen, hall⟩
    refine ⟨hseen, hnodup, fun k' hk' => ⟨hall k' hk', ?_⟩⟩
    rintro rfl
    exact hk hk'

theorem targetMap_eq_ok {target : List Item} {start map : List (Text × Item)} :
  targetMap keys target start = .ok map
    ↔ ((target.map fun item => rowKey item keys).Nodup
        ∧ ∀ k ∈ target.map fun item => rowKey item keys, k ∉ start.map Prod.fst)
      ∧ map = start ++ target.map fun item => (rowKey item keys, item)
  := by
  induction target generalizing start with
  | nil => simp [targetMap, eq_comm]
  | cons item target ih =>
    rw [List.map_cons, ← nodup_step]
    unfold targetMap
    by_cases hkey : rowKey item keys ∈ start.map Prod.fst
    · simp only [hkey, ↓reduceIte, not_true_eq_false, false_and, iff_false]
      rintro ⟨⟩
    · simp only [hkey, ↓reduceIte, not_false_eq_true, true_and]
      rw [ih, List.map_append, List.append_assoc]
      rfl

theorem compareRows_eq_ok {width : ℕ} {map : List (Text × Item)} {source : List Item}
    {seen seen' : List Text} {out out' : CompareDiff} :
  compareRows width keys map source seen out = .ok (seen', out')
    ↔ ((source.map fun item => rowKey item keys).Nodup
        ∧ ∀ k ∈ source.map fun item => rowKey item keys, k ∉ seen)
      ∧ seen' = seen ++ source.map (fun item => rowKey item keys)
      ∧ out' = source.foldl (fun out item => compareRow width map (rowKey item keys) item out) out
  := by
  induction source generalizing seen out with
  | nil => simp [compareRows, eq_comm]
  | cons item source ih =>
    rw [List.map_cons, ← nodup_step]
    unfold compareRows
    by_cases hkey : rowKey item keys ∈ seen
    · simp only [hkey, ↓reduceIte, not_true_eq_false, false_and, iff_false]
      rintro ⟨⟩
    · simp only [hkey, ↓reduceIte, not_false_eq_true, true_and]
      rw [ih, List.append_assoc]
      rfl

def byKey (p : Prepared) : List (Text × Item) :=
  p.target.map fun item => (rowKey item p.keys, item)

/-- A row of the source is not in the target. -/
def isNew (p : Prepared) (item : Item) : Bool :=
  ((byKey p).lookup (rowKey item p.keys)).isNone

/-- A row of the source is in the target with other values. -/
def isChanged (width : ℕ) (p : Prepared) (item : Item) : Bool :=
  ((byKey p).lookup (rowKey item p.keys)).any fun previous =>
    (List.range width).any fun c => cellChanged item previous c

/-- A row of the target is not in the source. -/
def isGone (p : Prepared) (item : Item) : Bool :=
  rowKey item p.keys ∉ p.source.map fun item => rowKey item p.keys

/-- The binary places of the rows of a part. -/
def marks (items : List Item) : List (ℕ × ℕ) :=
  (items.mapIdx fun r item => mark r item.binary).flatten

/-- A difference consists of these rows. -/
structure CompareDiff.Consists (diff : CompareDiff) (input : CompareInput)
    (inserted updated deleted : List Item) : Prop where
  colNames : diff.colNames = input.srcColumns
  pkNames : diff.pkNames = input.pkNames
  inserts : diff.inserts = inserted.map Item.row
  updates : diff.updates.map Update.src = updated.map Item.row
  deletes : diff.deletes = deleted.map Item.row
  binaryInserts : diff.binary.inserts = marks inserted
  binaryUpdates : diff.binary.updates = marks updated
  binaryDeletes : diff.binary.deletes = marks deleted

theorem marks_snoc (items : List Item) (item : Item) :
  marks (items ++ [item]) = marks items ++ mark items.length item.binary
  := by
  simp [marks, List.mapIdx_append]

section Steps

variable {input : CompareInput} {diff : CompareDiff} {inserted updated deleted : List Item}

theorem CompareDiff.Consists.insert (h : diff.Consists input inserted updated deleted)
    (item : Item) :
  (diff.insert item).Consists input (inserted ++ [item]) updated deleted
  := by
  constructor
  · exact h.colNames
  · exact h.pkNames
  · simp [CompareDiff.insert, h.inserts]
  · exact h.updates
  · exact h.deletes
  · rw [marks_snoc]
    simp [CompareDiff.insert, h.inserts, h.binaryInserts]
  · exact h.binaryUpdates
  · exact h.binaryDeletes

theorem CompareDiff.Consists.update (h : diff.Consists input inserted updated deleted)
    (changedColumns : List ℕ) (item previous : Item) :
  (diff.update changedColumns item previous).Consists input inserted (updated ++ [item]) deleted
  := by
  have hlength : diff.updates.length = updated.length := by
    rw [← List.length_map Update.src, h.updates, List.length_map]
  constructor
  · exact h.colNames
  · exact h.pkNames
  · exact h.inserts
  · simp [CompareDiff.update, h.updates]
  · exact h.deletes
  · exact h.binaryInserts
  · rw [marks_snoc]
    simp [CompareDiff.update, h.binaryUpdates, hlength]
  · exact h.binaryDeletes

theorem CompareDiff.Consists.delete (h : diff.Consists input inserted updated deleted)
    (item : Item) :
  (diff.delete item).Consists input inserted updated (deleted ++ [item])
  := by
  constructor
  · exact h.colNames
  · exact h.pkNames
  · exact h.inserts
  · exact h.updates
  · simp [CompareDiff.delete, h.deletes]
  · exact h.binaryInserts
  · exact h.binaryUpdates
  · rw [marks_snoc]
    simp [CompareDiff.delete, h.deletes, h.binaryDeletes]

theorem CompareDiff.Consists.compareRow (h : diff.Consists input inserted updated deleted)
    (p : Prepared) (width : ℕ) (item : Item) :
  (Workbench.compareRow width (byKey p) (rowKey item p.keys) item diff).Consists input
    (inserted ++ [item].filter (isNew p)) (updated ++ [item].filter (isChanged width p)) deleted
  := by
  unfold Workbench.compareRow
  cases hlookup : (byKey p).lookup (rowKey item p.keys) with
  | none =>
    have hnew : [item].filter (isNew p) = [item] := by simp [isNew, hlookup]
    have hchanged : [item].filter (isChanged width p) = [] := by simp [isChanged, hlookup]
    rw [hnew, hchanged, List.append_nil]
    exact h.insert item
  | some previous =>
    have hnew : [item].filter (isNew p) = [] := by simp [isNew, hlookup]
    rw [hnew, List.append_nil]
    dsimp only
    split
    · rename_i hnone
      have hchanged : [item].filter (isChanged width p) = [] := by
        simpa [isChanged, hlookup, List.filter_eq_nil_iff] using hnone
      rw [hchanged, List.append_nil]
      exact h
    · rename_i hsome
      have hchanged : [item].filter (isChanged width p) = [item] := by
        simpa [isChanged, hlookup, List.filter_eq_nil_iff] using hsome
      rw [hchanged]
      exact h.update _ item previous

theorem CompareDiff.Consists.compareRows (h : diff.Consists input inserted updated deleted)
    (p : Prepared) (width : ℕ) (source : List Item) :
  (source.foldl (fun out item =>
      Workbench.compareRow width (byKey p) (rowKey item p.keys) item out) diff).Consists input
    (inserted ++ source.filter (isNew p)) (updated ++ source.filter (isChanged width p)) deleted
  := by
  induction source generalizing diff inserted updated with
  | nil => simpa using h
  | cons item source ih =>
    have hrest := ih (h.compareRow p width item)
    rw [List.append_assoc, List.append_assoc, ← List.filter_append, ← List.filter_append]
      at hrest
    exact hrest

theorem CompareDiff.Consists.deletes_all (h : diff.Consists input inserted updated deleted)
    (items : List Item) :
  (items.foldl (fun out item => out.delete item) diff).Consists input inserted updated
    (deleted ++ items)
  := by
  induction items generalizing diff deleted with
  | nil => simpa using h
  | cons item items ih =>
    have hrest := ih (h.delete item)
    rw [List.append_assoc] at hrest
    exact hrest

end Steps

/-- The difference that is computed before any row is compared. -/
def emptyDiff (input : CompareInput) : CompareDiff where
  colNames := input.srcColumns
  pkNames := input.pkNames
  inserts := []
  updates := []
  deletes := []
  binary := { inserts := [], updates := [], deletes := [] }

/-- The difference of the rows that are compared. -/
def differenceOf (input : CompareInput) (p : Prepared) : CompareDiff :=
  (p.target.filter (isGone p)).foldl (fun out item => out.delete item)
    (p.source.foldl (fun out item =>
      compareRow input.srcColumns.length (byKey p) (rowKey item p.keys) item out)
      (emptyDiff input))

theorem computeDiff_eq_ok {input : CompareInput} {diff : CompareDiff} :
  computeDiff input = .ok diff ↔ ∃ p, Ready input p
    ∧ (p.target.map fun item => rowKey item p.keys).Nodup
    ∧ (p.source.map fun item => rowKey item p.keys).Nodup
    ∧ diff = differenceOf input p
  := by
  have hgone : ∀ (p : Prepared) (out : CompareDiff),
      ((byKey p).filter fun entry => entry.1 ∉ p.source.map fun item => rowKey item p.keys).foldl
        (fun out entry => out.delete entry.2) out
      = (p.target.filter (isGone p)).foldl (fun out item => out.delete item) out := by
    intro p out
    rw [byKey, List.filter_map, List.foldl_map]
    rfl
  constructor
  · intro h
    simp only [computeDiff, bind, Except.bind] at h
    split at h
    · cases h
    rename_i p hp
    split at h
    · cases h
    rename_i map hmap
    split at h
    · cases h
    rename_i result hrows
    obtain ⟨sourceKeys, out⟩ := result
    obtain ⟨⟨htarget, _⟩, rfl⟩ := targetMap_eq_ok.mp hmap
    obtain ⟨⟨hsource, _⟩, rfl, rfl⟩ := compareRows_eq_ok.mp hrows
    refine ⟨p, prepare_eq_ok.mp hp, htarget, hsource, ?_⟩
    rw [differenceOf, ← hgone]
    exact (Except.ok.inj h).symm
  · rintro ⟨p, hp, htarget, hsource, rfl⟩
    have hmap : targetMap p.keys p.target [] = .ok (byKey p) :=
      targetMap_eq_ok.mpr ⟨⟨htarget, by simp⟩, rfl⟩
    have hrows : compareRows input.srcColumns.length p.keys (byKey p) p.source []
          (emptyDiff input)
        = .ok (p.source.map fun item => rowKey item p.keys,
          p.source.foldl (fun out item =>
            compareRow input.srcColumns.length (byKey p) (rowKey item p.keys) item out)
            (emptyDiff input)) :=
      compareRows_eq_ok.mpr ⟨⟨hsource, by simp⟩, rfl, rfl⟩
    simp only [computeDiff, bind, Except.bind, prepare_eq_ok.mpr hp, hmap, differenceOf,
      ← hgone]
    unfold emptyDiff at hrows ⊢
    rw [hrows]
    rfl

theorem consists_differenceOf (input : CompareInput) (p : Prepared) :
  (differenceOf input p).Consists input
    (p.source.filter (isNew p)) (p.source.filter (isChanged input.srcColumns.length p))
    (p.target.filter (isGone p))
  := by
  have hempty : (emptyDiff input).Consists input [] [] [] := ⟨rfl, rfl, rfl, rfl, rfl, rfl, rfl, rfl⟩
  exact (hempty.compareRows p input.srcColumns.length p.source).deletes_all _

end Workbench
