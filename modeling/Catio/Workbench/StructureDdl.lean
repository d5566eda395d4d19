import Catio.Lib.JavaScript.Literals
import Catio.Db.Dialect.Quoted
import Mathlib.Data.List.Nodup

/-!
# Statements of the structure tab

The model of `components/dbviews/structureDdl.ts`: the statements that change a column into what a
draft says.  PostgreSQL has a statement for each attribute.  MySQL has one that defines the column
anew, so that attributes that did not change are written too.
-/

namespace Workbench.StructureDdl

open JavaScript

inductive StructDialect where
  | postgres
  | mysql
  deriving DecidableEq

/-! ### Quotes -/

/-- An identifier in the quotes of the dialect. -/
def quoteIdent (dialect : StructDialect) (name : Text) : Text :=
  match dialect with
  | .mysql => '`' :: Text.replaceChar '`' ['`', '`'] name ++ ['`']
  | .postgres => '"' :: Text.replaceChar '"' ['"', '"'] name ++ ['"']

def quoteString (value : Text) : Text :=
  '\'' :: Text.replaceChar '\'' ['\'', '\''] value ++ ['\'']

/-! ### Defaults -/

/-- A default, where nothing and `null` are none. -/
def normalizeDefault (value : Text) : Text :=
  if Text.toAsciiLowercase (trim value) = "null".toList then [] else trim value

/-- What `.` matches. -/
def isDot (c : Char) : Bool :=
  c != '\n' && c != '\r' && c.toNat != 0x2028 && c.toNat != 0x2029

/-- `/^'.*'$/`. -/
def isQuoted : Text → Bool
  | '\'' :: rest => rest.getLast? == some '\'' && rest.dropLast.all isDot
  | _ => false

/-- `/^-?\d+(\.\d+)?$/`. -/
def isDecimal (v : Text) : Bool :=
  let unsigned := if v.head? = some '-' then v.tail else v
  !(unsigned.takeWhile Char.isDigit).isEmpty &&
    match unsigned.dropWhile Char.isDigit with
    | [] => true
    | '.' :: fraction => !fraction.isEmpty && fraction.all Char.isDigit
    | _ => false

/-- The types of points and spans of time. -/
def temporal : List Text :=
  ["date", "time", "timestamp", "timestamptz", "datetime", "timetz", "interval", "year"]

/-- The type without its parameters is a temporal one, or starts with its name. -/
def isTemporal (dataType : Text) : Bool :=
  let base := Text.toAsciiLowercase (trim (dataType.takeWhile (· != '(')))
  temporal.any fun t => base == t || (t ++ [' ']).isPrefixOf base

/-- `/^[a-z_]+$/i`. -/
def isBareWord (v : Text) : Bool :=
  !v.isEmpty && v.all Text.isWordStart

/-- The text of a default of a type: temporal literals are quoted. -/
def formatDefault (dataType value : Text) : Text :=
  let v := trim value
  if v = [] then []
  else if isQuoted v then v
  else if isDecimal v then v
  else if '(' ∈ v ∨ ')' ∈ v then v
  else if isTemporal dataType && isBareWord v then v
  else if isTemporal dataType then quoteString v
  else v

/-! ### Drafts -/

structure ColumnDraft where
  name : Text
  type : Text
  nullable : Bool
  default : Text
  comment : Option Text
  deriving DecidableEq

/-- The comment without white space at its ends. -/
def ColumnDraft.trimmedComment (draft : ColumnDraft) : Text :=
  trim (draft.comment.getD [])

variable (dialect : StructDialect) (qualified : Text) (original next : ColumnDraft)

def renamed : Bool :=
  trim next.name != trim original.name

def typeChanged : Bool :=
  trim next.type != trim original.type

def nullableChanged : Bool :=
  next.nullable != original.nullable

def defChanged : Bool :=
  normalizeDefault next.default != normalizeDefault original.default

def commentChanged : Bool :=
  next.trimmedComment != original.trimmedComment

/-- An attribute changed that MySQL has in the definition of a column. -/
def attrChanged : Bool :=
  typeChanged original next || nullableChanged original next || defChanged original next
    || commentChanged original next

/-! ### Statements -/

/-- The statement that gives a column another name. -/
def renameColumn : Text :=
  "ALTER TABLE ".toList ++ qualified ++ " RENAME COLUMN ".toList
    ++ quoteIdent dialect (trim original.name) ++ " TO ".toList
    ++ quoteIdent dialect (trim next.name) ++ [';']

/-- The parts of the definition of a column in MySQL. -/
def columnDefs : List Text :=
  let newType := trim next.type
  let def_ := normalizeDefault next.default
  [quoteIdent .mysql (trim next.name), newType]
    ++ (if next.nullable then [] else ["NOT NULL".toList])
    ++ (if def_ = [] then [] else ["DEFAULT ".toList ++ formatDefault newType def_])
    ++ (if next.trimmedComment = [] then []
        else ["COMMENT ".toList ++ quoteString next.trimmedComment])

def modifyMysql : List Text :=
  if renamed original next && !attrChanged original next then
    [renameColumn .mysql qualified original next]
  else if attrChanged original next then
    let defs := Text.join [' '] (columnDefs next)
    if renamed original next then
      ["ALTER TABLE ".toList ++ qualified ++ " CHANGE COLUMN ".toList
        ++ quoteIdent .mysql (trim original.name) ++ [' '] ++ defs ++ [';']]
    else ["ALTER TABLE ".toList ++ qualified ++ " MODIFY COLUMN ".toList ++ defs ++ [';']]
  else []

/-- The statements for PostgreSQL. -/
def modifyPostgres : List Text :=
  let current := quoteIdent .postgres (trim next.name)
  let newType := trim next.type
  let alter := "ALTER TABLE ".toList ++ qualified ++ " ALTER COLUMN ".toList ++ current ++ [' ']
  (if renamed original next then [renameColumn .postgres qualified original next] else [])
    ++ (if typeChanged original next then [alter ++ "TYPE ".toList ++ newType ++ [';']] else [])
    ++ (if nullableChanged original next then
          [alter ++ (if next.nullable then "DROP NOT NULL" else "SET NOT NULL").toList ++ [';']]
        else [])
    ++ (if defChanged original next then
          let def_ := normalizeDefault next.default
          [alter ++ (if def_ = [] then "DROP DEFAULT".toList
            else "SET DEFAULT ".toList ++ formatDefault newType def_) ++ [';']]
        else [])
    ++ (if commentChanged original next then
          ["COMMENT ON COLUMN ".toList ++ qualified ++ ['.'] ++ current ++ " IS ".toList
            ++ (if next.trimmedComment = [] then "NULL".toList
              else quoteString next.trimmedComment) ++ [';']]
        else [])

/-- The statements that turn a column into what a draft says. -/
def buildModifyColumn : List Text :=
  if trim next.name = [] ∨ trim next.type = [] then []
  else
    match dialect with
    | .mysql => modifyMysql qualified original next
    | .postgres => modifyPostgres qualified original next

end Workbench.StructureDdl

/-!
## Altered tables

What the statements of the structure tab do to a table.  An engine reads the names and the literals
of a statement by its lexical rules and finds the column by its name.  A statement that MySQL defines
a column with replaces all that the column had.
-/

namespace Workbench.StructureDdl

open JavaScript

/-! ### Statements -/

/-- The definition of a column, whose name and comment are written in quotes. -/
structure Definition where
  name : Text
  type : Text
  nullable : Bool
  default : Option Text
  comment : Option Text
  deriving DecidableEq

/-- A statement, whose names and comments are written in quotes. -/
inductive Statement where
  | rename (old new : Text)
  | change (old : Text) (definition : Definition)
  | modify (definition : Definition)
  | setType (column type : Text)
  | setNullable (column : Text) (nullable : Bool)
  | setDefault (column : Text) (default : Option Text)
  | setComment (column : Text) (comment : Option Text)
  deriving DecidableEq

def Definition.toText (d : Definition) : Text :=
  Text.join [' '] ([d.name, d.type]
    ++ (if d.nullable then [] else ["NOT NULL".toList])
    ++ (d.default.map ("DEFAULT ".toList ++ ·)).toList
    ++ (d.comment.map ("COMMENT ".toList ++ ·)).toList)

/-- The text of a statement on a column of a table. -/
def Statement.toText (qualified : Text) (s : Statement) : Text :=
  let table := "ALTER TABLE ".toList ++ qualified
  match s with
  | .rename old new => table ++ " RENAME COLUMN ".toList ++ old ++ " TO ".toList ++ new ++ [';']
  | .change old d => table ++ " CHANGE COLUMN ".toList ++ old ++ [' '] ++ d.toText ++ [';']
  | .modify d => table ++ " MODIFY COLUMN ".toList ++ d.toText ++ [';']
  | .setType column type =>
      table ++ " ALTER COLUMN ".toList ++ column ++ [' '] ++ "TYPE ".toList ++ type ++ [';']
  | .setNullable column nullable =>
      table ++ " ALTER COLUMN ".toList ++ column ++ [' ']
        ++ (if nullable then "DROP NOT NULL" else "SET NOT NULL").toList ++ [';']
  | .setDefault column default =>
      table ++ " ALTER COLUMN ".toList ++ column ++ [' ']
        ++ (default.elim "DROP DEFAULT".toList ("SET DEFAULT ".toList ++ ·)) ++ [';']
  | .setComment column comment =>
      "COMMENT ON COLUMN ".toList ++ qualified ++ ['.'] ++ column ++ " IS ".toList
        ++ comment.getD "NULL".toList ++ [';']

/-- A text that may be missing. -/
def unlessBlank (t : Text) : Option Text :=
  if t = [] then none else some t

section

variable (dialect : StructDialect) (qualified : Text) (original next : ColumnDraft)

def ColumnDraft.writtenDefault : Option Text :=
  (unlessBlank (normalizeDefault next.default)).map (formatDefault (trim next.type))

def ColumnDraft.writtenComment : Option Text :=
  (unlessBlank next.trimmedComment).map quoteString

/-- The definition that MySQL is given. -/
def ColumnDraft.definition : Definition where
  name := quoteIdent .mysql (trim next.name)
  type := trim next.type
  nullable := next.nullable
  default := next.writtenDefault
  comment := next.writtenComment

def onlyIf (changed : Bool) (s : Statement) : List Statement :=
  if changed then [s] else []

/-- The statements that turn a column into what a draft says. -/
def modifyStatements : List Statement :=
  let old := quoteIdent dialect (trim original.name)
  let current := quoteIdent dialect (trim next.name)
  match dialect with
  | .mysql =>
      if attrChanged original next then
        [if renamed original next then .change old next.definition else .modify next.definition]
      else onlyIf (renamed original next) (.rename old current)
  | .postgres =>
      onlyIf (renamed original next) (.rename old current)
        ++ onlyIf (typeChanged original next) (.setType current (trim next.type))
        ++ onlyIf (nullableChanged original next) (.setNullable current next.nullable)
        ++ onlyIf (defChanged original next) (.setDefault current next.writtenDefault)
        ++ onlyIf (commentChanged original next) (.setComment current next.writtenComment)

theorem toList_unlessBlank {α : Type} (f : Text → α) (t : Text) :
  ((unlessBlank t).map f).toList = if t = [] then [] else [f t]
  := by
  rw [unlessBlank]
  split <;> rfl

theorem elim_unlessBlank (none_ : Text) (f g : Text → Text) (t : Text) :
  ((unlessBlank t).map f).elim none_ g = if t = [] then none_ else g (f t)
  := by
  rw [unlessBlank]
  split <;> rfl

theorem getD_unlessBlank (none_ : Text) (f : Text → Text) (t : Text) :
  ((unlessBlank t).map f).getD none_ = if t = [] then none_ else f t
  := by
  rw [unlessBlank]
  split <;> rfl

theorem definition_toText :
  next.definition.toText = Text.join [' '] (columnDefs next)
  := by
  have hdefault : (next.writtenDefault.map ("DEFAULT ".toList ++ ·)).toList
      = if normalizeDefault next.default = [] then []
        else ["DEFAULT ".toList ++ formatDefault (trim next.type) (normalizeDefault next.default)] := by
    rw [ColumnDraft.writtenDefault, Option.map_map, toList_unlessBlank]
    rfl
  have hcomment : (next.writtenComment.map ("COMMENT ".toList ++ ·)).toList
      = if next.trimmedComment = [] then []
        else ["COMMENT ".toList ++ quoteString next.trimmedComment] := by
    rw [ColumnDraft.writtenComment, Option.map_map, toList_unlessBlank]
    rfl
  rw [Definition.toText, columnDefs, ← hdefault, ← hcomment]
  rfl

theorem mem_onlyIf {changed : Bool} {s s' : Statement} :
  s' ∈ onlyIf changed s ↔ changed ∧ s' = s
  := by
  cases changed <;> simp [onlyIf]

theorem onlyIf_map (changed : Bool) (s : Statement) :
  (onlyIf changed s).map (Statement.toText qualified)
    = if changed then [s.toText qualified] else []
  := by
  cases changed <;> rfl

theorem modifyMysql_eq :
  modifyMysql qualified original next
    = (modifyStatements .mysql original next).map (Statement.toText qualified)
  := by
  unfold modifyMysql modifyStatements
  rw [← definition_toText]
  cases renamed original next <;> cases attrChanged original next <;> rfl

theorem modifyPostgres_eq :
  modifyPostgres qualified original next
    = (modifyStatements .postgres original next).map (Statement.toText qualified)
  := by
  have hdefault := elim_unlessBlank "DROP DEFAULT".toList (formatDefault (trim next.type))
    ("SET DEFAULT ".toList ++ ·) (normalizeDefault next.default)
  have hcomment := getD_unlessBlank "NULL".toList quoteString next.trimmedComment
  unfold modifyPostgres modifyStatements
  dsimp only
  rw [List.map_append, List.map_append, List.map_append, List.map_append, onlyIf_map, onlyIf_map,
    onlyIf_map, onlyIf_map, onlyIf_map, ← hdefault, ← hcomment]
  rfl

theorem buildModifyColumn_eq (hname : trim next.name ≠ []) (htype : trim next.type ≠ []) :
  buildModifyColumn dialect qualified original next
    = (modifyStatements dialect original next).map (Statement.toText qualified)
  := by
  unfold buildModifyColumn
  rw [if_neg (by simp [hname, htype])]
  cases dialect with
  | mysql => exact modifyMysql_eq qualified original next
  | postgres => exact modifyPostgres_eq qualified original next

end

/-! ### Tables -/

@[ext]
structure Column where
  name : Text
  type : Text
  nullable : Bool
  default : Option Text
  comment : Text
  deriving DecidableEq

/-- How an engine reads names and literals, and which names it takes for one another. -/
structure Engine where
  identifier : Text → Option Text
  literal : Text → Option Text
  fold : Char → Char

/-- The engines of the dialects.  MySQL finds columns whatever the case of their names, and has
escapes in its literals. -/
def engine (fold : Char → Char) : StructDialect → Engine
  | .postgres =>
      { identifier := Db.readIdentifier .postgres
        literal t := (Db.postgresLiteral true t).bind Utf8.strFromUtf8
        fold := id }
  | .mysql =>
      { identifier := Db.readIdentifier .mysql
        literal t := (Db.mysqlLiteral false t).bind Utf8.strFromUtf8
        fold := fold }

variable (e : Engine)

def Engine.key (name : Text) : Text :=
  name.map e.fold

/-- The names of columns, as they are found. -/
def Engine.keys (t : List Column) : List Text :=
  t.map fun c => e.key c.name

/-- The table with another column in place of the one of a name, unless there is none or two columns
would have one name. -/
def Engine.alter (t : List Column) (name : Text) (f : Column → Column) : Option (List Column) :=
  let altered := t.map fun c => if e.key c.name = e.key name then f c else c
  if e.key name ∈ e.keys t ∧ (e.keys altered).Nodup then some altered else none

/-- A comment as it is read, where none is the empty one. -/
def Engine.comment (comment : Option Text) : Option Text :=
  comment.elim (some []) e.literal

def Engine.define (d : Definition) : Option Column := do
  let name ← e.identifier d.name
  let comment ← e.comment d.comment
  return { name := name, type := d.type, nullable := d.nullable, default := d.default
           comment := comment }

def Engine.read (s : Statement) : Option (Text × (Column → Column)) :=
  match s with
  | .rename old new => do
      let old ← e.identifier old
      let new ← e.identifier new
      return (old, fun c => { c with name := new })
  | .change old d => do
      let old ← e.identifier old
      let column ← e.define d
      return (old, fun _ => column)
  | .modify d => do
      let column ← e.define d
      return (column.name, fun _ => column)
  | .setType column type => do
      let name ← e.identifier column
      return (name, fun c => { c with type := type })
  | .setNullable column nullable => do
      let name ← e.identifier column
      return (name, fun c => { c with nullable := nullable })
  | .setDefault column default => do
      let name ← e.identifier column
      return (name, fun c => { c with default := default })
  | .setComment column comment => do
      let name ← e.identifier column
      let comment ← e.comment comment
      return (name, fun c => { c with comment := comment })

/-- The identifier of the column that a statement is about. -/
def Statement.target (s : Statement) : Text :=
  match s with
  | .rename old _ | .change old _ => old
  | .modify d => d.name
  | .setType column _ | .setNullable column _ | .setDefault column _ | .setComment column _ => column

def Engine.execute (t : List Column) (s : Statement) : Option (List Column) :=
  (e.read s).bind fun p => e.alter t p.1 p.2

/-- Execute statements in order. -/
def Engine.run (t : List Column) (statements : List Statement) : Option (List Column) :=
  statements.foldlM e.execute t

/-! ### One column -/

variable {e} {before after : List Column} {c : Column}

variable {s : Statement} {name : Text}

theorem identifier_target {p : Text × (Column → Column)} (h : e.read s = some p) :
  e.identifier s.target = some p.1
  := by
  cases s with
  | modify d =>
    simp only [Engine.read, Engine.define, Option.bind_eq_bind, Option.bind_eq_some_iff] at h
    obtain ⟨c, ⟨name, hname, comment, -, hc⟩, hp⟩ := h
    obtain rfl := Option.some.inj hc
    obtain rfl := Option.some.inj hp
    exact hname
  | setType _ _ | setNullable _ _ | setDefault _ _ =>
    simp only [Engine.read, Option.bind_eq_bind, Option.bind_eq_some_iff] at h
    obtain ⟨name, hname, hp⟩ := h
    obtain rfl := Option.some.inj hp
    exact hname
  | rename _ _ | change _ _ | setComment _ _ =>
    simp only [Engine.read, Option.bind_eq_bind, Option.bind_eq_some_iff] at h
    obtain ⟨name, hname, _, -, hp⟩ := h
    obtain rfl := Option.some.inj hp
    exact hname

theorem nodup_middle :
  (e.keys (before ++ c :: after)).Nodup
    ↔ e.key c.name ∉ e.keys (before ++ after) ∧ (e.keys (before ++ after)).Nodup
  := by
  simp only [Engine.keys, List.map_append, List.map_cons, List.nodup_middle, List.nodup_cons]

theorem alter_middle (hdistinct : (e.keys (before ++ c :: after)).Nodup)
    (hname : e.key c.name = e.key name) (f : Column → Column) :
  e.alter (before ++ c :: after) name f
    = if e.key (f c).name ∈ e.keys (before ++ after) then none else some (before ++ f c :: after)
  := by
  obtain ⟨hfree, hothers⟩ := nodup_middle.mp hdistinct
  have hother : ∀ other ∈ before ++ after, e.key other.name ≠ e.key name := by
    intro other hmem heq
    apply hfree
    rw [hname, ← heq]
    exact List.mem_map_of_mem hmem
  have hsame : ∀ t : List Column, (∀ other ∈ t, e.key other.name ≠ e.key name) →
      t.map (fun c => if e.key c.name = e.key name then f c else c) = t := by
    intro t ht
    refine (List.map_congr_left fun other hmem => ?_).trans (List.map_id t)
    exact if_neg (ht other hmem)
  have haltered : (before ++ c :: after).map (fun c => if e.key c.name = e.key name then f c else c)
      = before ++ f c :: after := by
    rw [List.map_append, List.map_cons, if_pos hname,
      hsame before fun other hmem => hother other (List.mem_append_left after hmem),
      hsame after fun other hmem => hother other (List.mem_append_right before hmem)]
  have hmem : e.key name ∈ e.keys (before ++ c :: after) := by
    rw [← hname]
    exact List.mem_map_of_mem List.mem_append_cons_self
  unfold Engine.alter
  dsimp only
  rw [haltered]
  by_cases htaken : e.key (f c).name ∈ e.keys (before ++ after)
  · rw [if_pos htaken, if_neg fun h => (nodup_middle.mp h.2).1 htaken]
  · rw [if_neg htaken, if_pos ⟨hmem, nodup_middle.mpr ⟨htaken, hothers⟩⟩]

theorem execute_middle {g : Option (Column → Column)}
    (hdistinct : (e.keys (before ++ c :: after)).Nodup)
    (hread : e.read s = g.map fun f => (name, f)) (hname : e.key c.name = e.key name) :
  e.execute (before ++ c :: after) s
    = g.bind fun f =>
      if e.key (f c).name ∈ e.keys (before ++ after) then none else some (before ++ f c :: after)
  := by
  rw [Engine.execute, hread, Option.bind_map]
  congr 1
  funext f
  exact alter_middle hdistinct hname f

theorem execute_free {g : Option (Column → Column)}
    (hdistinct : (e.keys (before ++ c :: after)).Nodup)
    (hread : e.read s = g.map fun f => (name, f)) (hname : e.key c.name = e.key name)
    (hfree : ∀ f ∈ g, e.key (f c).name ∉ e.keys (before ++ after)) :
  e.execute (before ++ c :: after) s = g.map fun f => before ++ f c :: after
  := by
  rw [execute_middle hdistinct hread hname]
  cases g with
  | none => rfl
  | some f => exact if_neg (hfree f rfl)

theorem execute_elsewhere {t t' : List Column} {i : ℕ}
    (hread : ∀ p, e.read s = some p → e.key c.name ≠ e.key p.1) (hc : t[i]? = some c)
    (h : e.execute t s = some t') :
  t'[i]? = some c
  := by
  obtain ⟨p, hp, halter⟩ := Option.bind_eq_some_iff.mp h
  unfold Engine.alter at halter
  dsimp only at halter
  split at halter
  · obtain rfl := Option.some.inj halter
    rw [List.getElem?_map, hc, Option.map_some, if_neg (hread p hp)]
  · cases halter

theorem run_cons (t : List Column) (s : Statement) (rest : List Statement) :
  e.run t (s :: rest) = (e.execute t s).bind fun t' => e.run t' rest
  := rfl

theorem run_singleton (t : List Column) (s : Statement) :
  e.run t [s] = e.execute t s
  := by
  exact Option.bind_fun_some _

theorem run_append (t : List Column) (statements rest : List Statement) :
  e.run t (statements ++ rest) = (e.run t statements).bind fun t' => e.run t' rest
  := by
  exact List.foldlM_append

theorem run_onlyIf (t : List Column) (changed : Bool) (s : Statement) :
  e.run t (onlyIf changed s) = if changed then e.execute t s else some t
  := by
  cases changed with
  | false => rfl
  | true => exact run_singleton t s

theorem run_changed {changed : Bool} {f : Column → Column}
    (hdistinct : (e.keys (before ++ c :: after)).Nodup) (hread : e.read s = some (name, f))
    (hname : e.key c.name = e.key name) (hfree : e.key (f c).name ∉ e.keys (before ++ after)) :
  e.run (before ++ c :: after) (onlyIf changed s)
    = some (before ++ (if changed then f c else c) :: after)
  := by
  rw [run_onlyIf]
  cases changed with
  | false => rfl
  | true =>
    rw [if_pos rfl, if_pos rfl, execute_free (g := some f) hdistinct hread hname]
    · rfl
    · rintro _ ⟨⟩
      exact hfree

theorem run_elsewhere {statements : List Statement} {t t' : List Column} {i : ℕ}
    (hread : ∀ s ∈ statements, ∀ p, e.read s = some p → e.key c.name ≠ e.key p.1)
    (hc : t[i]? = some c) (h : e.run t statements = some t') :
  t'[i]? = some c
  := by
  induction statements generalizing t with
  | nil =>
    obtain rfl := Option.some.inj h
    exact hc
  | cons s statements ih =>
    rw [run_cons] at h
    obtain ⟨t₁, hs, hrest⟩ := Option.bind_eq_some_iff.mp h
    apply ih (fun s' hs' => hread s' (List.mem_cons_of_mem s hs')) _ hrest
    exact execute_elsewhere (hread s List.mem_cons_self) hc hs

end Workbench.StructureDdl
