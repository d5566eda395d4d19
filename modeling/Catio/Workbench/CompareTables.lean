import Catio.Lib.JavaScript
import Mathlib.Data.List.Sort
import Mathlib.Data.Rat.Init

/-!
# Comparison of tables

The model of `components/workbench/compareTables.ts`: the comparison of the contents of two tables
row by row, by the values of the key columns, and the statements that bring the target to the source.
The statements are modelled before they are written as SQL: what they name and set.
-/

namespace Workbench

open JavaScript

/-! ### Values -/

def lastExponent (m : Numeral) : ℤ :=
  let size : ℤ := match m.exponent with
    | none => 0
    | some (negative, digits) =>
        if negative then -(toDouble (Nat.ofDigitChars 10 digits 0) : ℤ)
        else toDouble (Nat.ofDigitChars 10 digits 0)
  size - (m.fraction.getD []).length

/-- The sum of an exponent and the number of digits that are left out, in double precision. -/
def addExponent (exponent : ℤ) (suffix : ℕ) : ℤ :=
  let total := exponent + suffix
  if total < 0 then -(toDouble total.natAbs : ℤ) else toDouble total.natAbs

/-- The normal form of the text of a number. -/
def normalize (text : Text) : Option Text :=
  (readNumeral text).bind fun m =>
    let digits := (m.integer ++ m.fraction.getD []).dropWhile (· = '0')
    if digits = [] then some "0"
    else if isSafeInteger (lastExponent m) then
      let suffix := (digits.reverse.takeWhile (· = '0')).length
      some ((if m.negative then ['-'] else []) ++ digits.take (digits.length - suffix) ++ 'e' ::
        intText (addExponent (lastExponent m) suffix))
    else none

/-- The normal form of a number, or of a string that is written like one. -/
def numeric (value : Value) : Option Text :=
  match value with
  | .number n => if n.isFinite then normalize n.toText else none
  | .string s => normalize s
  | _ => none

mutual

def stableJson : Value → Text
  | .array items => '[' :: Text.join [','] (stableItems items) ++ [']']
  | .object fields =>
      let sorted := (stableFields fields).insertionSort fun a b => leUnits a.1 b.1
      '{' :: Text.join [','] (sorted.map fun f => Json.quote f.1 ++ ':' :: f.2) ++ ['}']
  | value => value.stringify.getD "null"

def stableItems : List Value → List Text
  | [] => []
  | item :: items => stableJson item :: stableItems items

/-- The names and texts of the fields of an object. -/
def stableFields : List (Text × Value) → List (Text × Text)
  | [] => []
  | (name, value) :: fields => (name, stableJson value) :: stableFields fields

end

/-- Two values count as the same in a cell. -/
def valuesEqual (a b : Value) : Bool :=
  if a.strictEqual b then true
  else if a.isNullish || b.isNullish then a.isNullish && b.isNullish
  else if a.isNumber || b.isNumber then (numeric a).isSome && numeric a = numeric b
  else if a.isObject || b.isObject then stableJson a = stableJson b
  else a.toText = b.toText

/-- A text is `0x` and an even number of hexadecimal digits. -/
def isBinaryHex : Text → Bool
  | '0' :: x :: digits =>
      (x = 'x' || x = 'X') && digits.all Text.isHexDigit && digits.length % 2 = 0
  | _ => false

/-- A value is the text of a binary one. -/
def validBinaryHex : Value → Bool
  | .string s => isBinaryHex s
  | _ => false

/-- `String(value).toLowerCase()` of a binary value, which is all ASCII. -/
def lowerText (value : Value) : Text :=
  Text.toAsciiLowercase value.toText

/-! ### Tables -/

/-- The place of a binary value: its row and its column. -/
abbrev BinaryCell := ℚ × ℚ

instance lawfulBEqBinaryCell : LawfulBEq BinaryCell := inferInstance

/-- What two tables are compared from. -/
structure CompareInput where
  srcColumns : List Text
  srcRows : List (List Value)
  srcBinaryCells : List BinaryCell
  tgtColumns : List Text
  tgtRows : List (List Value)
  tgtBinaryCells : List BinaryCell
  pkNames : List Text

/-- Why two tables are not compared. -/
inductive CompareError where
  | columnsMismatch
  | pkMissing
  | unsafeKey
  | duplicateKey
  | invalidBinary
  deriving DecidableEq

def CompareError.toText : CompareError → Text
  | .columnsMismatch => "columns-mismatch"
  | .pkMissing => "pk-missing"
  | .unsafeKey => "unsafe-key"
  | .duplicateKey => "duplicate-key"
  | .invalidBinary => "invalid-binary"

/-- A row in the order of the source, and its binary columns. -/
structure Item where
  row : List Value
  binary : List ℕ

/-- A row of the source that the target has with other values. -/
structure Update where
  src : List Value
  tgt : List Value
  changedColumns : List ℕ
  targetBinary : List ℕ

/-- The binary places in the parts of a difference. -/
structure BinaryMarks where
  inserts : List (ℕ × ℕ)
  updates : List (ℕ × ℕ)
  deletes : List (ℕ × ℕ)
  deriving DecidableEq

/-- A difference of two tables. -/
structure CompareDiff where
  colNames : List Text
  pkNames : List Text
  inserts : List (List Value)
  updates : List Update
  deletes : List (List Value)
  binary : BinaryMarks

def cellAt (row : List Value) (c : ℕ) : Value :=
  row.getD c .undefined

/-- A number as a place in a list of some length. -/
def placeBelow (x : ℚ) (length : ℕ) : Option ℕ :=
  if x.den = 1 ∧ 0 ≤ x.num ∧ x.num.toNat < length then some x.num.toNat else none

/-- `Set.add`. -/
def addToSet (c : ℕ) (cs : List ℕ) : List ℕ :=
  if c ∈ cs then cs else cs ++ [c]

/-- Take note of one binary place, unless there is no value. -/
def binaryRow (rows : List (List Value)) (columns : List Text) (out : List (List ℕ))
    (cell : BinaryCell) : Option (List (List ℕ)) := do
  let r ← placeBelow cell.1 rows.length
  let c ← placeBelow cell.2 columns.length
  let value := cellAt (rows.getD r []) c
  if value.isNullish then return out
  guard (validBinaryHex value)
  return out.modify r (addToSet c)

def binaryRows (rows : List (List Value)) (columns : List Text) (cells : List BinaryCell) :
    Option (List (List ℕ)) :=
  cells.foldlM (binaryRow rows columns) (rows.map fun _ => [])

/-- The part of a row's key that comes from one column. -/
def keyPart (item : Item) (i : ℕ) : Text :=
  if i ∈ item.binary then
    "[\"binary\",".toList ++ Json.quote (lowerText (cellAt item.row i)) ++ [']']
  else "[\"scalar\",".toList ++ Json.quote (cellAt item.row i).toText ++ [']']

def rowKey (item : Item) (keys : List ℕ) : Text :=
  '[' :: Text.join [','] (keys.map (keyPart item)) ++ [']']

/-! ### The difference -/

/-- The columns of two tables, or the lengths of their rows, do not fit together. -/
def columnsMismatch (input : CompareInput) : Bool :=
  !decide input.srcColumns.Nodup || !decide input.tgtColumns.Nodup
    || input.srcColumns.length != input.tgtColumns.length
    || input.srcColumns.any (fun c => c ∉ input.tgtColumns)
    || input.srcRows.any (fun r => r.length != input.srcColumns.length)
    || input.tgtRows.any (fun r => r.length != input.tgtColumns.length)

/-- A value that does not tell rows apart. -/
def unsafeKey (value : Value) : Bool :=
  match value with
  | .number n => !n.isFinite
  | value => value.isNullish || value.isObject

/-- What the rows of two tables are compared by. -/
structure Prepared where
  keys : List ℕ
  source : List Item
  target : List Item

def targetItem (order : List ℕ) (row : List Value) (binary : List ℕ) : Item where
  row := order.map (cellAt row)
  binary := (List.range order.length).filter fun i => order.getD i 0 ∈ binary

/-- Check the tables, and bring the columns of the target into the order of the source. -/
def prepare (input : CompareInput) : Except CompareError Prepared := do
  let colNames := input.srcColumns
  if columnsMismatch input then throw .columnsMismatch
  let indexes := input.pkNames.map fun name => colNames.idxOf? name
  if indexes = [] ∨ ¬indexes.Nodup ∨ none ∈ indexes then throw .pkMissing
  let keys := indexes.filterMap id
  match binaryRows input.srcRows colNames input.srcBinaryCells,
    binaryRows input.tgtRows input.tgtColumns input.tgtBinaryCells with
  | some sourceBinary, some targetBinary => do
      let order := colNames.map fun c => input.tgtColumns.idxOf c
      let target := List.zipWith (targetItem order) input.tgtRows targetBinary
      let source := List.zipWith Item.mk input.srcRows sourceBinary
      if (source ++ target).any (fun item => keys.any fun i => unsafeKey (cellAt item.row i)) then
        throw .unsafeKey
      return { keys := keys, source := source, target := target }
  | _, _ => throw .invalidBinary

def targetMap (keys : List ℕ) :
    List Item → List (Text × Item) → Except CompareError (List (Text × Item))
  | [], map => .ok map
  | item :: target, map =>
      let key := rowKey item keys
      if key ∈ map.map Prod.fst then .error .duplicateKey
      else targetMap keys target (map ++ [(key, item)])

/-- The values of two rows in one column are different. -/
def cellChanged (item previous : Item) (c : ℕ) : Bool :=
  decide (c ∈ item.binary) != decide (c ∈ previous.binary)
    || (if c ∈ item.binary then
        lowerText (cellAt item.row c) != lowerText (cellAt previous.row c)
      else !valuesEqual (cellAt item.row c) (cellAt previous.row c))

/-- The binary places of a row that is at some place of a part. -/
def mark (r : ℕ) (binary : List ℕ) : List (ℕ × ℕ) :=
  binary.map fun c => (r, c)

/-- Add a row to those to insert. -/
def CompareDiff.insert (item : Item) (out : CompareDiff) : CompareDiff :=
  { out with
    inserts := out.inserts ++ [item.row]
    binary := { out.binary with
      inserts := out.binary.inserts ++ mark out.inserts.length item.binary } }

/-- Add a row to those to update. -/
def CompareDiff.update (changedColumns : List ℕ) (item previous : Item) (out : CompareDiff) :
    CompareDiff :=
  { out with
    updates := out.updates ++ [{ src := item.row
                                 tgt := previous.row
                                 changedColumns := changedColumns
                                 targetBinary := previous.binary }]
    binary := { out.binary with
      updates := out.binary.updates ++ mark out.updates.length item.binary } }

/-- Add a row to those to delete. -/
def CompareDiff.delete (item : Item) (out : CompareDiff) : CompareDiff :=
  { out with
    deletes := out.deletes ++ [item.row]
    binary := { out.binary with
      deletes := out.binary.deletes ++ mark out.deletes.length item.binary } }

/-- Compare a row of the source with the target. -/
def compareRow (width : ℕ) (map : List (Text × Item)) (key : Text) (item : Item)
    (out : CompareDiff) : CompareDiff :=
  match map.lookup key with
  | none => out.insert item
  | some previous =>
      let changedColumns := (List.range width).filter fun c => cellChanged item previous c
      if changedColumns = [] then out else out.update changedColumns item previous

/-- Compare the rows of the source one after the other. -/
def compareRows (width : ℕ) (keys : List ℕ) (map : List (Text × Item)) :
    List Item → List Text → CompareDiff → Except CompareError (List Text × CompareDiff)
  | [], sourceKeys, out => .ok (sourceKeys, out)
  | item :: source, sourceKeys, out =>
      let key := rowKey item keys
      if key ∈ sourceKeys then .error .duplicateKey
      else compareRows width keys map source (sourceKeys ++ [key])
        (compareRow width map key item out)

/-- The difference of two tables. -/
def computeDiff (input : CompareInput) : Except CompareError CompareDiff := do
  let prepared ← prepare input
  let map ← targetMap prepared.keys prepared.target []
  let empty : CompareDiff :=
    { colNames := input.srcColumns, pkNames := input.pkNames, inserts := [], updates := [],
      deletes := [], binary := { inserts := [], updates := [], deletes := [] } }
  let (sourceKeys, out) ←
    compareRows input.srcColumns.length prepared.keys map prepared.source [] empty
  return (map.filter fun entry => entry.1 ∉ sourceKeys).foldl (fun out entry => out.delete entry.2)
    out

/-! ### The statements -/

/-- A value in a column, and whether it is binary. -/
structure Cell where
  value : Value
  binary : Bool

/-- A statement on the target.  Columns are given by their names. -/
inductive SyncStatement where
  | insert (values : List (Text × Cell))
  | update (values key : List (Text × Cell))
  | delete (key : List (Text × Cell))

/-- The values of a row by the names of their columns. -/
def namedCells (colNames : List Text) (row : List Value) (binary : ℕ → Bool) :
    List (Text × Cell) :=
  colNames.mapIdx fun c name => (name, ⟨cellAt row c, binary c⟩)

/-- The values of the key columns of a row. -/
def whereCells (diff : CompareDiff) (row : List Value) (binary : ℕ → Bool) : List (Text × Cell) :=
  diff.pkNames.map fun name =>
    let c := diff.colNames.idxOf name
    (name, ⟨cellAt row c, binary c⟩)

/-- The statements that bring the target to the source: an update sets all columns but the key. -/
def genSyncStatements (diff : CompareDiff) (allowDelete : Bool) : List SyncStatement :=
  if diff.pkNames = [] ∨ diff.pkNames.any (· ∉ diff.colNames) then []
  else
    let inserts := diff.inserts.mapIdx fun r row =>
      SyncStatement.insert (namedCells diff.colNames row fun c => (r, c) ∈ diff.binary.inserts)
    let updates := diff.updates.mapIdx fun r u =>
      let binary := fun c => decide ((r, c) ∈ diff.binary.updates)
      let values := (namedCells diff.colNames u.src binary).filter fun v => v.1 ∉ diff.pkNames
      if values = [] then none
      else some (SyncStatement.update values (whereCells diff u.src binary))
    let deletes := diff.deletes.mapIdx fun r row =>
      SyncStatement.delete (whereCells diff row fun c => (r, c) ∈ diff.binary.deletes)
    inserts ++ updates.filterMap id ++ if allowDelete then deletes else []

end Workbench
