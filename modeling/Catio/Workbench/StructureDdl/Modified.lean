import Catio.Workbench.StructureDdl

/-!
# Modified columns

When the statements for a draft turn a column into what the draft says
(`buildModifyColumn_iff`).  The comment that is written has to be one that its literal is read as,
which it is not in MySQL if there are backslashes in it; and no expression for a default of a temporal
type may be quoted.
-/

namespace Workbench.StructureDdl

open JavaScript

/-! ### Columns and drafts -/

def Column.draft (column : Column) : ColumnDraft where
  name := column.name
  type := column.type
  nullable := column.nullable
  default := column.default.getD []
  comment := some column.comment

def ColumnDraft.column (draft : ColumnDraft) : Column where
  name := trim draft.name
  type := trim draft.type
  nullable := draft.nullable
  default := unlessBlank (normalizeDefault draft.default)
  comment := draft.trimmedComment

/-- A column of an engine.  There is no NUL in its name, and its type and its default are as they
stand in statements. -/
structure Column.Reported (column : Column) : Prop where
  name : '\x00' ∉ column.name
  type : trim column.type = column.type
  default : ∀ d ∈ column.default, d ≠ [] ∧ normalizeDefault d = d

/-- A default of a type is written as it is. -/
def PassesThrough (dataType v : Text) : Prop :=
  isQuoted v ∨ isDecimal v ∨ '(' ∈ v ∨ ')' ∈ v ∨ (isTemporal dataType → isBareWord v)

/-- A comment whose literal is read as it. -/
def Writable (dialect : StructDialect) (comment : Text) : Prop :=
  match dialect with
  | .postgres => '\x00' ∉ comment
  | .mysql => Db.HarmlessBackslashes comment

/-- An attribute is written: in MySQL, if any of them changed. -/
def written (dialect : StructDialect) (original next : ColumnDraft) (changed : Bool) : Bool :=
  match dialect with
  | .postgres => changed
  | .mysql => attrChanged original next

/-- A draft that a column can be turned into: its name is trimmed and no other column's, its comment
can be written or is trimmed, and its default is written as it is. -/
structure Attainable (e : Engine) (dialect : StructDialect) (others : List Column) (column : Column)
    (next : ColumnDraft) : Prop where
  trimmed : trim column.name = column.name
  nul : '\x00' ∉ trim next.name
  free : e.key (trim next.name) ∉ e.keys others
  comment :
    if written dialect column.draft next (commentChanged column.draft next) then
      Writable dialect next.trimmedComment
    else trim column.comment = column.comment
  default : written dialect column.draft next (defChanged column.draft next) →
    ∀ v ∈ unlessBlank (normalizeDefault next.default), PassesThrough (trim next.type) v

/-! ### Defaults -/

theorem unlessBlank_eq_some {t v : Text} :
  unlessBlank t = some v ↔ t ≠ [] ∧ t = v
  := by
  rw [unlessBlank]
  split <;> simp_all

theorem trim_normalizeDefault (value : Text) :
  trim (normalizeDefault value) = normalizeDefault value
  := by
  rw [normalizeDefault]
  split
  · rfl
  · exact trim_trim value

theorem length_lt_quoteString (v : Text) :
  v.length < (quoteString v).length
  := by
  have hle : v.length ≤ (Text.replaceChar '\'' ['\'', '\''] v).length := by
    induction v with
    | nil => exact le_rfl
    | cons c v ih =>
      rw [Text.replaceChar, List.flatMap_cons, List.length_append, ← Text.replaceChar]
      split <;> simp <;> omega
  rw [quoteString]
  simp
  omega

theorem formatDefault_eq_self_iff {dataType v : Text} (hne : v ≠ []) (htrim : trim v = v) :
  formatDefault dataType v = v ↔ PassesThrough dataType v
  := by
  have hquote : quoteString v ≠ v := by
    intro h
    have hlt := length_lt_quoteString v
    rw [h] at hlt
    exact absurd hlt (lt_irrefl _)
  unfold formatDefault PassesThrough
  rw [htrim]
  dsimp only
  rw [if_neg hne]
  cases isQuoted v <;> cases isDecimal v <;> cases isTemporal dataType <;> cases isBareWord v <;>
    by_cases hopen : '(' ∈ v <;> by_cases hclose : ')' ∈ v <;> simp [*]

theorem writtenDefault_eq_iff (next : ColumnDraft) :
  next.writtenDefault = unlessBlank (normalizeDefault next.default)
    ↔ ∀ v ∈ unlessBlank (normalizeDefault next.default), PassesThrough (trim next.type) v
  := by
  rw [ColumnDraft.writtenDefault]
  cases hv : unlessBlank (normalizeDefault next.default) with
  | none => simp
  | some v =>
    obtain ⟨hne, rfl⟩ := unlessBlank_eq_some.mp hv
    rw [Option.map_some, Option.some_inj,
      formatDefault_eq_self_iff hne (trim_normalizeDefault next.default)]
    simp

/-! ### Names and literals -/

variable {fold : Char → Char} {dialect : StructDialect}

theorem identifier_quoteIdent (name : Text) :
  (engine fold dialect).identifier (quoteIdent dialect name)
    = if '\x00' ∈ name then none else some name
  := by
  have hread : ∀ db, Db.StopsAtNul db → db ≠ .clickhouse →
      Db.readIdentifier db (Db.quoteIdent db name) = if '\x00' ∈ name then none else some name := by
    intro db hstops hdb
    split
    · rename_i hnul
      rw [Db.readIdentifier_quoteIdent, if_pos ⟨hstops, (Db.nul_mem_quoteIdent db name).mpr hnul⟩]
    · rename_i hnul
      exact (Db.readIdentifier_iff db name).mpr ⟨fun _ => hnul, fun h => absurd h hdb⟩
  cases dialect with
  | mysql => exact hread .mysql (by decide) (by decide)
  | postgres => exact hread .postgres (by decide) (by decide)

theorem literal_quoteString_iff (comment : Text) :
  (engine fold dialect).literal (quoteString comment) = some comment ↔ Writable dialect comment
  := by
  have hread : ∀ bytes : Option Bytes,
      bytes.bind Utf8.strFromUtf8 = some comment ↔ bytes = some (Utf8.encode comment) := by
    intro bytes
    cases bytes with
    | none => simp
    | some bytes =>
      rw [Option.bind_some, Utf8.strFromUtf8_eq_some, Option.some_inj, eq_comm]
  cases dialect with
  | mysql => exact (hread _).trans (Db.mysqlLiteral_quoteLiteral_iff comment)
  | postgres => exact (hread _).trans (Db.postgresLiteral_quoteLiteral_iff comment)

theorem comment_writtenComment_iff (next : ColumnDraft) :
  (engine fold dialect).comment next.writtenComment = some next.trimmedComment
    ↔ Writable dialect next.trimmedComment
  := by
  rw [ColumnDraft.writtenComment, unlessBlank]
  split
  · rename_i hblank
    rw [hblank]
    apply iff_of_true rfl
    cases dialect with
    | mysql => exact trivial
    | postgres => exact List.not_mem_nil
  · exact literal_quoteString_iff next.trimmedComment

/-! ### Runs -/

variable {before after : List Column} {column : Column} {next : ColumnDraft}

def Engine.commentAfter (e : Engine) (dialect : StructDialect) (column : Column)
    (next : ColumnDraft) : Option Text :=
  if written dialect column.draft next (commentChanged column.draft next) then
    e.comment next.writtenComment
  else some column.comment

/-- What the statements make of a column, with a comment. -/
def Column.modified (column : Column) (dialect : StructDialect) (next : ColumnDraft)
    (comment : Text) : Column :=
  let written := written dialect column.draft next
  { name := trim next.name
    type := if written (typeChanged column.draft next) then trim next.type else column.type
    nullable := if written (nullableChanged column.draft next) then next.nullable
      else column.nullable
    default := if written (defChanged column.draft next) then next.writtenDefault
      else column.default
    comment := comment }

theorem name_of_not_renamed (htrim : trim column.name = column.name)
    (h : renamed column.draft next = false) :
  trim next.name = column.name
  := by
  rw [renamed, bne_eq_false_iff_eq] at h
  exact h.trans htrim

theorem rename_column (htrim : trim column.name = column.name) :
  (if renamed column.draft next then { column with name := trim next.name } else column)
    = { column with name := trim next.name }
  := by
  cases h : renamed column.draft next with
  | false =>
    rw [name_of_not_renamed htrim h]
    rfl
  | true => rfl

theorem identifier_of_no_nul {name : Text} (hnul : '\x00' ∉ name) :
  (engine fold dialect).identifier (quoteIdent dialect name) = some name
  := by
  rw [identifier_quoteIdent, if_neg hnul]

theorem read_rename (htrim : trim column.name = column.name) (hold : '\x00' ∉ column.name)
    (hnul : '\x00' ∉ trim next.name) :
  (engine fold dialect).read (.rename (quoteIdent dialect (trim column.draft.name))
      (quoteIdent dialect (trim next.name)))
    = some (column.name, fun c => { c with name := trim next.name })
  := by
  have hdraft : trim column.draft.name = column.name := htrim
  simp only [Engine.read]
  rw [identifier_of_no_nul hnul, hdraft, identifier_of_no_nul hold]
  rfl

theorem run_postgres (htrim : trim column.name = column.name) (hold : '\x00' ∉ column.name)
    (hnul : '\x00' ∉ trim next.name)
    (hdistinct : ((engine fold .postgres).keys (before ++ column :: after)).Nodup)
    (hfree : (engine fold .postgres).key (trim next.name)
      ∉ (engine fold .postgres).keys (before ++ after)) :
  (engine fold .postgres).run (before ++ column :: after)
      (modifyStatements .postgres column.draft next)
    = ((engine fold .postgres).commentAfter .postgres column next).map fun comment =>
      before ++ column.modified .postgres next comment :: after
  := by
  have hothers := (nodup_middle.mp hdistinct).2
  have hkept : ∀ c : Column, c.name = trim next.name →
      ((engine fold .postgres).keys (before ++ c :: after)).Nodup := by
    intro c hc
    exact nodup_middle.mpr ⟨by rw [hc]; exact hfree, hothers⟩
  have hname : (engine fold .postgres).identifier (quoteIdent .postgres (trim next.name))
      = some (trim next.name) := identifier_of_no_nul hnul
  have htype : (engine fold .postgres).read
      (.setType (quoteIdent .postgres (trim next.name)) (trim next.type))
        = some (trim next.name, fun c => { c with type := trim next.type }) := by
    simp only [Engine.read]
    rw [hname]
    rfl
  have hnullable : (engine fold .postgres).read
      (.setNullable (quoteIdent .postgres (trim next.name)) next.nullable)
        = some (trim next.name, fun c => { c with nullable := next.nullable }) := by
    simp only [Engine.read]
    rw [hname]
    rfl
  have hdefault : (engine fold .postgres).read
      (.setDefault (quoteIdent .postgres (trim next.name)) next.writtenDefault)
        = some (trim next.name, fun c => { c with default := next.writtenDefault }) := by
    simp only [Engine.read]
    rw [hname]
    rfl
  have hattribute : ∀ {changed : Bool} {s : Statement} {f : Column → Column} {c : Column},
      (engine fold .postgres).read s = some (trim next.name, f) → c.name = trim next.name →
      (f c).name = trim next.name →
      (engine fold .postgres).run (before ++ c :: after) (onlyIf changed s)
        = some (before ++ (if changed then f c else c) :: after) := by
    intro changed s f c hread hc hf
    apply run_changed (hkept c hc) hread (by rw [hc])
    rw [hf]
    exact hfree
  have hcomment : ∀ c : Column, c.name = trim next.name →
      (engine fold .postgres).run (before ++ c :: after) (onlyIf (commentChanged column.draft next)
          (.setComment (quoteIdent .postgres (trim next.name)) next.writtenComment))
        = (if commentChanged column.draft next then
            (engine fold .postgres).comment next.writtenComment else some c.comment).map
          fun comment => before ++ { c with comment := comment } :: after := by
    intro c hc
    have hread : (engine fold .postgres).read
        (.setComment (quoteIdent .postgres (trim next.name)) next.writtenComment)
          = (((engine fold .postgres).comment next.writtenComment).map fun comment (c : Column) =>
            { c with comment := comment }).map fun f => (trim next.name, f) := by
      simp only [Engine.read]
      rw [hname]
      cases (engine fold .postgres).comment next.writtenComment <;> rfl
    rw [run_onlyIf, execute_free (hkept c hc) hread (by rw [hc]), Option.map_map]
    · cases commentChanged column.draft next <;> rfl
    · intro f hf
      obtain ⟨comment, -, rfl⟩ := Option.map_eq_some_iff.mp hf
      rw [hc]
      exact hfree
  unfold modifyStatements
  dsimp only
  rw [run_append, run_append, run_append, run_append,
    run_changed hdistinct (read_rename htrim hold hnul) rfl hfree, rename_column htrim,
    Option.bind_some,
    hattribute htype rfl rfl, Option.bind_some,
    hattribute hnullable (by split <;> rfl) (by split <;> rfl), Option.bind_some,
    hattribute hdefault (by split <;> split <;> rfl) (by split <;> split <;> rfl), Option.bind_some,
    hcomment _ (by split <;> split <;> split <;> rfl)]
  unfold Engine.commentAfter Column.modified written
  cases typeChanged column.draft next <;> cases nullableChanged column.draft next <;>
    cases defChanged column.draft next <;> rfl

theorem run_mysql (htrim : trim column.name = column.name) (hold : '\x00' ∉ column.name)
    (hnul : '\x00' ∉ trim next.name)
    (hdistinct : ((engine fold .mysql).keys (before ++ column :: after)).Nodup)
    (hfree : (engine fold .mysql).key (trim next.name)
      ∉ (engine fold .mysql).keys (before ++ after)) :
  (engine fold .mysql).run (before ++ column :: after)
      (modifyStatements .mysql column.draft next)
    = ((engine fold .mysql).commentAfter .mysql column next).map fun comment =>
      before ++ column.modified .mysql next comment :: after
  := by
  cases hchanged : attrChanged column.draft next with
  | false =>
    have hafter : (engine fold .mysql).commentAfter .mysql column next = some column.comment := by
      rw [Engine.commentAfter, written, hchanged]
      rfl
    have hmodified : column.modified .mysql next column.comment
        = { column with name := trim next.name } := by
      unfold Column.modified written
      rw [hchanged]
      rfl
    unfold modifyStatements
    dsimp only
    rw [hchanged, hafter, Option.map_some, hmodified, if_neg Bool.false_ne_true,
      run_changed hdistinct (read_rename htrim hold hnul) rfl hfree, rename_column htrim]
  | true =>
    have hafter : (engine fold .mysql).commentAfter .mysql column next
        = (engine fold .mysql).comment next.writtenComment := by
      rw [Engine.commentAfter, written, hchanged]
      rfl
    have hdefine : (engine fold .mysql).define next.definition
        = ((engine fold .mysql).comment next.writtenComment).map
          (column.modified .mysql next) := by
      unfold Engine.define Column.modified written
      rw [hchanged, ColumnDraft.definition]
      dsimp only
      rw [identifier_of_no_nul hnul]
      cases (engine fold .mysql).comment next.writtenComment <;> rfl
    have hread : (engine fold .mysql).read
        (if renamed column.draft next then
          .change (quoteIdent .mysql (trim column.draft.name)) next.definition
        else .modify next.definition)
          = (((engine fold .mysql).define next.definition).map fun c (_ : Column) => c).map
            fun f => (column.name, f) := by
      cases hrenamed : renamed column.draft next with
      | false =>
        have hname : ∀ comment, (column.modified .mysql next comment).name = column.name :=
          fun _ => name_of_not_renamed htrim hrenamed
        rw [if_neg Bool.false_ne_true, Engine.read, hdefine]
        cases (engine fold .mysql).comment next.writtenComment with
        | none => rfl
        | some comment =>
          simp only [Option.map_some, Option.bind_eq_bind, Option.bind_some, hname]
          rfl
      | true =>
        have hdraft : trim column.draft.name = column.name := htrim
        rw [if_pos rfl, Engine.read, hdraft, identifier_of_no_nul hold, hdefine]
        cases (engine fold .mysql).comment next.writtenComment <;> rfl
    unfold modifyStatements
    dsimp only
    rw [hchanged, if_pos rfl, run_singleton, execute_free hdistinct hread rfl, hafter, hdefine,
      Option.map_map, Option.map_map]
    · rfl
    · intro f hf
      rw [hdefine, Option.map_map] at hf
      obtain ⟨comment, -, rfl⟩ := Option.map_eq_some_iff.mp hf
      exact hfree

theorem run_modifyStatements (htrim : trim column.name = column.name) (hold : '\x00' ∉ column.name)
    (hnul : '\x00' ∉ trim next.name)
    (hdistinct : ((engine fold dialect).keys (before ++ column :: after)).Nodup)
    (hfree : (engine fold dialect).key (trim next.name)
      ∉ (engine fold dialect).keys (before ++ after)) :
  (engine fold dialect).run (before ++ column :: after)
      (modifyStatements dialect column.draft next)
    = ((engine fold dialect).commentAfter dialect column next).map fun comment =>
      before ++ column.modified dialect next comment :: after
  := by
  cases dialect with
  | mysql => exact run_mysql htrim hold hnul hdistinct hfree
  | postgres => exact run_postgres htrim hold hnul hdistinct hfree

/-! ### Names that statements fail for -/

theorem target_modifyStatements {s : Statement}
    (h : s ∈ modifyStatements dialect column.draft next) :
  s.target = quoteIdent dialect (trim column.name)
    ∨ dialect = .postgres ∧ s.target = quoteIdent dialect (trim next.name)
  := by
  unfold modifyStatements at h
  cases dialect with
  | mysql =>
    left
    dsimp only at h
    split at h
    · obtain rfl := List.mem_singleton.mp h
      cases hrenamed : renamed column.draft next with
      | false =>
        have hname : trim next.name = trim column.name := by
          rwa [renamed, bne_eq_false_iff_eq] at hrenamed
        rw [← hname]
        rfl
      | true => rfl
    · obtain ⟨-, rfl⟩ := mem_onlyIf.mp h
      rfl
  | postgres =>
    simp only [List.mem_append, mem_onlyIf] at h
    obtain (((⟨-, rfl⟩ | ⟨-, rfl⟩) | ⟨-, rfl⟩) | ⟨-, rfl⟩) | ⟨-, rfl⟩ := h
    · exact .inl rfl
    all_goals exact .inr ⟨rfl, rfl⟩

theorem key_ne_target {s : Statement} (h : s ∈ modifyStatements dialect column.draft next)
    (htrim : trim column.name ≠ column.name) {p : Text × (Column → Column)}
    (hp : (engine fold dialect).read s = some p) :
  (engine fold dialect).key column.name ≠ (engine fold dialect).key p.1
  := by
  have hname : ∀ name, s.target = quoteIdent dialect name → p.1 = name := by
    intro name htarget
    have hread := identifier_target hp
    rw [htarget, identifier_quoteIdent] at hread
    split at hread
    · cases hread
    · exact (Option.some.inj hread).symm
  intro hkey
  rcases target_modifyStatements h with htarget | ⟨rfl, htarget⟩
  · rw [hname _ htarget] at hkey
    apply htrim
    apply (trim_sublist column.name).eq_of_length
    have hlength := congrArg List.length hkey
    rw [Engine.key, Engine.key, List.length_map, List.length_map] at hlength
    exact hlength.symm
  · rw [hname _ htarget] at hkey
    have hself : ∀ name : Text, (engine fold .postgres).key name = name := fun name => List.map_id name
    rw [hself, hself] at hkey
    apply htrim
    rw [hkey, trim_trim]

theorem trimmed_of_run
    (h : (engine fold dialect).run (before ++ column :: after)
      (modifyStatements dialect column.draft next) = some (before ++ next.column :: after)) :
  trim column.name = column.name
  := by
  by_contra htrim
  have hcolumn : (before ++ column :: after)[before.length]? = some column := by simp
  have hafter := run_elsewhere (fun s hs _ hp => key_ne_target hs htrim hp) hcolumn h
  have hname : next.column = column := by simpa using hafter
  apply htrim
  rw [← hname]
  exact trim_trim next.name

theorem available_of_execute {s : Statement} {g : Option (Column → Column)} {t : List Column}
    (hread : (engine fold dialect).read s = g.map fun f => (column.name, f))
    (hg : ∀ f ∈ g, '\x00' ∉ trim next.name ∧ (f column).name = trim next.name)
    (hdistinct : ((engine fold dialect).keys (before ++ column :: after)).Nodup)
    (h : (engine fold dialect).execute (before ++ column :: after) s = some t) :
  '\x00' ∉ trim next.name ∧ (engine fold dialect).key (trim next.name)
    ∉ (engine fold dialect).keys (before ++ after)
  := by
  rw [execute_middle hdistinct hread rfl] at h
  obtain ⟨f, hf, hfree⟩ := Option.bind_eq_some_iff.mp h
  obtain ⟨hnul, hname⟩ := hg f hf
  rw [hname] at hfree
  split at hfree
  · cases hfree
  · exact ⟨hnul, by assumption⟩

theorem available_of_run {t : List Column} (htrim : trim column.name = column.name)
    (hold : '\x00' ∉ column.name)
    (hdistinct : ((engine fold dialect).keys (before ++ column :: after)).Nodup)
    (h : (engine fold dialect).run (before ++ column :: after)
      (modifyStatements dialect column.draft next) = some t) :
  '\x00' ∉ trim next.name ∧ (engine fold dialect).key (trim next.name)
    ∉ (engine fold dialect).keys (before ++ after)
  := by
  have hdraft : trim column.draft.name = column.name := htrim
  have hnamed : ∀ name, (engine fold dialect).identifier (quoteIdent dialect (trim next.name))
      = some name → '\x00' ∉ trim next.name ∧ name = trim next.name := by
    intro name hname
    rw [identifier_quoteIdent] at hname
    split at hname
    · cases hname
    · exact ⟨by assumption, (Option.some.inj hname).symm⟩
  cases hrenamed : renamed column.draft next with
  | false =>
    rw [name_of_not_renamed htrim hrenamed]
    exact ⟨hold, (nodup_middle.mp hdistinct).1⟩
  | true =>
    have hrename : ∀ t, (engine fold dialect).execute (before ++ column :: after)
        (.rename (quoteIdent dialect (trim column.draft.name))
          (quoteIdent dialect (trim next.name))) = some t →
        '\x00' ∉ trim next.name ∧ (engine fold dialect).key (trim next.name)
          ∉ (engine fold dialect).keys (before ++ after) := by
      intro t ht
      have hread : (engine fold dialect).read
          (.rename (quoteIdent dialect (trim column.draft.name))
            (quoteIdent dialect (trim next.name)))
          = (((engine fold dialect).identifier (quoteIdent dialect (trim next.name))).map
            fun new (c : Column) => { c with name := new }).map fun f => (column.name, f) := by
        rw [Engine.read, hdraft, identifier_of_no_nul hold]
        cases (engine fold dialect).identifier (quoteIdent dialect (trim next.name)) <;> rfl
      apply available_of_execute hread _ hdistinct ht
      intro f hf
      obtain ⟨name, hname, rfl⟩ := Option.map_eq_some_iff.mp hf
      exact hnamed name hname
    cases dialect with
    | mysql =>
      unfold modifyStatements at h
      dsimp only at h
      split at h
      · have hread : (engine fold .mysql).read
            (.change (quoteIdent .mysql (trim column.draft.name)) next.definition)
            = (((engine fold .mysql).define next.definition).map fun c (_ : Column) => c).map
              fun f => (column.name, f) := by
          rw [Engine.read, hdraft, identifier_of_no_nul hold]
          cases (engine fold .mysql).define next.definition <;> rfl
        rw [run_singleton] at h
        apply available_of_execute hread _ hdistinct h
        intro f hf
        obtain ⟨c, hc, rfl⟩ := Option.map_eq_some_iff.mp hf
        simp only [Engine.define, Option.bind_eq_bind, Option.bind_eq_some_iff] at hc
        obtain ⟨name, hname, _, -, hc⟩ := hc
        obtain rfl := Option.some.inj hc
        exact hnamed name hname
      · rw [hrenamed, run_onlyIf, if_pos rfl] at h
        exact hrename t h
    | postgres =>
      unfold modifyStatements at h
      simp only [run_append, Option.bind_eq_some_iff] at h
      obtain ⟨_, ⟨_, ⟨_, ⟨t₁, ht₁, -⟩, -⟩, -⟩, -⟩ := h
      rw [hrenamed, run_onlyIf, if_pos rfl] at ht₁
      exact hrename t₁ ht₁

/-! ### Modified columns -/

theorem not_changed {original : ColumnDraft} {changed : Bool}
    (hattr : changed → attrChanged original next) (h : ¬written dialect original next changed) :
  changed = false
  := by
  cases dialect with
  | mysql => exact Bool.eq_false_of_not_eq_true fun hchanged => h (hattr hchanged)
  | postgres => exact Bool.eq_false_of_not_eq_true h

theorem commentAfter_eq_iff :
  (engine fold dialect).commentAfter dialect column next = some next.trimmedComment
    ↔ if written dialect column.draft next (commentChanged column.draft next) then
        Writable dialect next.trimmedComment
      else trim column.comment = column.comment
  := by
  rw [Engine.commentAfter]
  split
  · exact comment_writtenComment_iff next
  · rename_i hwritten
    have hsame := not_changed (by simp +contextual [attrChanged]) hwritten
    rw [commentChanged, bne_eq_false_iff_eq] at hsame
    rw [hsame, Option.some_inj, eq_comm]
    rfl

theorem type_modified (hreported : column.Reported) (comment : Text) :
  (column.modified dialect next comment).type = trim next.type
  := by
  unfold Column.modified
  dsimp only
  split
  · rfl
  · rename_i hwritten
    have hsame := not_changed (by simp +contextual [attrChanged]) hwritten
    rw [typeChanged, bne_eq_false_iff_eq] at hsame
    exact (hsame.trans hreported.type).symm

theorem nullable_modified (comment : Text) :
  (column.modified dialect next comment).nullable = next.nullable
  := by
  unfold Column.modified
  dsimp only
  split
  · rfl
  · rename_i hwritten
    have hsame := not_changed (by simp +contextual [attrChanged]) hwritten
    rw [nullableChanged, bne_eq_false_iff_eq] at hsame
    exact hsame.symm

theorem default_modified_iff (hreported : column.Reported) (comment : Text) :
  (column.modified dialect next comment).default = unlessBlank (normalizeDefault next.default)
    ↔ (written dialect column.draft next (defChanged column.draft next) →
      ∀ v ∈ unlessBlank (normalizeDefault next.default), PassesThrough (trim next.type) v)
  := by
  unfold Column.modified
  dsimp only
  split
  · rename_i hwritten
    rw [writtenDefault_eq_iff, forall_prop_of_true hwritten]
  · rename_i hwritten
    have hsame := not_changed (by simp +contextual [attrChanged]) hwritten
    rw [defChanged, bne_eq_false_iff_eq] at hsame
    apply iff_of_true _ fun h => absurd h hwritten
    rw [hsame]
    change column.default = unlessBlank (normalizeDefault (column.default.getD []))
    cases hdefault : column.default with
    | none => rfl
    | some d =>
      obtain ⟨hne, hnormal⟩ := hreported.default d hdefault
      rw [Option.getD_some, hnormal, unlessBlank, if_neg hne]

theorem modified_eq_iff (hreported : column.Reported) (comment : Text) :
  column.modified dialect next comment = next.column
    ↔ comment = next.trimmedComment
      ∧ (written dialect column.draft next (defChanged column.draft next) →
        ∀ v ∈ unlessBlank (normalizeDefault next.default), PassesThrough (trim next.type) v)
  := by
  rw [← default_modified_iff hreported comment]
  constructor
  · intro h
    rw [h]
    exact ⟨congrArg Column.comment h, rfl⟩
  · rintro ⟨hcomment, hdefault⟩
    exact Column.ext rfl (type_modified hreported comment) (nullable_modified comment) hdefault
      hcomment

theorem run_eq_iff (hreported : column.Reported)
    (hdistinct : ((engine fold dialect).keys (before ++ column :: after)).Nodup) :
  (engine fold dialect).run (before ++ column :: after)
      (modifyStatements dialect column.draft next) = some (before ++ next.column :: after)
    ↔ Attainable (engine fold dialect) dialect (before ++ after) column next
  := by
  constructor
  · intro h
    have htrim := trimmed_of_run h
    obtain ⟨hnul, hfree⟩ := available_of_run htrim hreported.name hdistinct h
    rw [run_modifyStatements htrim hreported.name hnul hdistinct hfree] at h
    obtain ⟨comment, hcomment, hcolumn⟩ := Option.map_eq_some_iff.mp h
    have hmodified : column.modified dialect next comment = next.column := by
      simpa using hcolumn
    obtain ⟨rfl, hdefault⟩ := (modified_eq_iff hreported comment).mp hmodified
    exact ⟨htrim, hnul, hfree, commentAfter_eq_iff.mp hcomment, hdefault⟩
  · intro h
    rw [run_modifyStatements h.trimmed hreported.name h.nul hdistinct h.free,
      commentAfter_eq_iff.mpr h.comment, Option.map_some,
      (modified_eq_iff hreported next.trimmedComment).mpr ⟨rfl, h.default⟩]

theorem buildModifyColumn_self (dialect : StructDialect) (qualified : Text) (draft : ColumnDraft) :
  buildModifyColumn dialect qualified draft draft = []
  := by
  have hattr : attrChanged draft draft = false := by
    simp [attrChanged, typeChanged, nullableChanged, defChanged, commentChanged]
  have hname : renamed draft draft = false := bne_self_eq_false _
  unfold buildModifyColumn
  split
  · rfl
  · cases dialect with
    | mysql =>
      unfold modifyMysql
      rw [hattr, hname]
      rfl
    | postgres =>
      simp only [attrChanged, Bool.or_eq_false_iff] at hattr
      obtain ⟨⟨⟨htype, hnullable⟩, hdefault⟩, hcomment⟩ := hattr
      unfold modifyPostgres
      rw [hname, htype, hnullable, hdefault, hcomment]
      rfl

/-- The statements turn a column into its draft, and leave the others alone, just when it is
attainable; an unchanged draft has none. -/
theorem buildModifyColumn_iff (fold : Char → Char) (dialect : StructDialect) (qualified : Text)
    (before after : List Column) (column : Column) (next : ColumnDraft)
    (hreported : column.Reported)
    (hdistinct : ((engine fold dialect).keys (before ++ column :: after)).Nodup)
    (hname : trim next.name ≠ []) (htype : trim next.type ≠ []) :
  buildModifyColumn dialect qualified column.draft next
      = (modifyStatements dialect column.draft next).map (Statement.toText qualified)
    ∧ ((engine fold dialect).run (before ++ column :: after)
        (modifyStatements dialect column.draft next) = some (before ++ next.column :: after)
      ↔ Attainable (engine fold dialect) dialect (before ++ after) column next)
    ∧ ∀ draft, buildModifyColumn dialect qualified draft draft = []
  := by
  refine ⟨?_, ?_, ?_⟩
  · exact buildModifyColumn_eq dialect qualified column.draft next hname htype
  · exact run_eq_iff hreported hdistinct
  · exact buildModifyColumn_self dialect qualified

/-- A column of PostgreSQL is renamed and gets a comment with a quote in it. -/
theorem buildModifyColumn_iff_memo :
  (engine id .postgres).run [⟨"note", "text", true, none, "old"⟩]
      (modifyStatements .postgres (Column.draft ⟨"note", "text", true, none, "old"⟩)
        ⟨" memo ", "text", true, [], some "it's"⟩)
    = some [⟨"memo", "text", true, none, "it's"⟩]
  := by
  have hiff := buildModifyColumn_iff id .postgres "t" [] [] ⟨"note", "text", true, none, "old"⟩
    ⟨" memo ", "text", true, [], some "it's"⟩ ⟨by decide, rfl, by simp⟩ (by decide) (by decide)
    (by decide)
  apply hiff.2.1.mpr
  constructor
  · rfl
  · decide
  · exact List.not_mem_nil
  · rw [if_pos (by decide)]
    change '\x00' ∉ trim "it's".toList
    decide
  · intro _
    simp [unlessBlank, normalizeDefault, trim]

/-- Another type for a column of MySQL takes the backslash out of its comment. -/
theorem not_modified_backslash :
  ¬ ∀ (fold : Char → Char) (dialect : StructDialect) (before after : List Column)
      (column : Column) (next : ColumnDraft),
    column.Reported → ((engine fold dialect).keys (before ++ column :: after)).Nodup →
      trim next.name ≠ [] → trim next.type ≠ [] →
        (engine fold dialect).run (before ++ column :: after)
          (modifyStatements dialect column.draft next) = some (before ++ next.column :: after)
  := by
  intro h
  have hreported : Column.Reported ⟨"path", "text", true, none, "C:\\temp"⟩ :=
    ⟨by decide, rfl, by simp⟩
  have hdistinct : ((engine id .mysql).keys
      ([] ++ [⟨"path", "text", true, none, "C:\\temp"⟩])).Nodup := by
    decide
  have hrun := h id .mysql [] [] ⟨"path", "text", true, none, "C:\\temp"⟩
    ⟨"path", "longtext", true, [], some "C:\\temp"⟩ hreported hdistinct (by decide) (by decide)
  have hcomment := ((run_eq_iff hreported hdistinct).mp hrun).comment
  rw [if_pos (by decide)] at hcomment
  change Db.HarmlessBackslashes ('C' :: ':' :: '\\' :: 't' :: "emp".toList) at hcomment
  rw [Db.harmless_cons (by decide), Db.harmless_cons (by decide), Db.harmless_backslash] at hcomment
  simp at hcomment

end Workbench.StructureDdl
