import Catio.Db.SqlFile

/-!
# Cutting a script into chunks

The loop of `process_chunk` holds back exactly the input it cannot decide on yet, so it is
a streaming loop (`processChar_streaming`), and on a final chunk it takes the turns it
would take before further input (`processChar_final`).  A script fed in chunks is split
like the whole script.
-/

namespace Db

open Scan Text SqlStatementSplitter

/-! ### Dollar-quote tags and further input -/

theorem dollarTagTail_append {xs : Text} (ys : Text)
    (h : (dollarTagTail xs).isSome ∨ ¬ xs.all isWordChar) :
  dollarTagTail (xs ++ ys) = dollarTagTail xs
  := by
  induction xs with
  | nil => simp [dollarTagTail] at h
  | cons c cs ih =>
    simp only [List.cons_append, dollarTagTail]
    split
    · rfl
    · split
      · rw [ih]
        simp_all [dollarTagTail]
      · rfl

theorem dollarQuoteTagAt_append {rest : Text} (ys : Text)
    (h : ¬ (rest.head?.all isWordStart ∧ rest.all isWordChar)) :
  dollarQuoteTagAt ('$' :: (rest ++ ys)) = dollarQuoteTagAt ('$' :: rest)
  := by
  match rest with
  | [] => simp at h
  | c :: cs =>
    by_cases hc : c = '$'
    · subst hc
      rfl
    · rw [List.cons_append, dollarQuoteTagAt.eq_2 _ _ (by simpa using hc),
        dollarQuoteTagAt.eq_2 _ _ (by simpa using hc)]
      split
      · next hstart =>
          rw [dollarTagTail_append]
          right
          intro hall
          apply h
          simp only [List.head?_cons, Option.all_some, List.all_cons, Bool.and_eq_true]
          exact ⟨hstart, isWordChar_of_isWordStart hstart, hall⟩
      · rfl

theorem prefix_of_dollarTagTail {xs tag : Text} (h : dollarTagTail xs = some tag) :
  tag <+: xs
  := by
  induction xs generalizing tag with
  | nil => simp [dollarTagTail] at h
  | cons c cs ih =>
    simp only [dollarTagTail] at h
    split at h
    · next hc =>
        simp only [Option.some.injEq] at h
        simp [← h, hc]
    · split at h
      · obtain ⟨tag', htag', rfl⟩ := Option.map_eq_some_iff.mp h
        apply List.cons_prefix_cons.mpr ⟨rfl, ih htag'⟩
      · simp at h

theorem prefix_of_dollarQuoteTagAt {xs tag : Text} (h : dollarQuoteTagAt xs = some tag) :
  tag <+: xs
  := by
  unfold dollarQuoteTagAt at h
  split at h
  · simp only [Option.some.injEq] at h
    simp [← h]
  · split at h
    · obtain ⟨tag', htag', rfl⟩ := Option.map_eq_some_iff.mp h
      simpa using prefix_of_dollarTagTail htag'
    · simp at h
  · simp at h

theorem dollarQuoteTagAt_of_ne {c : Char} (xs : Text) (h : c ≠ '$') :
  dollarQuoteTagAt (c :: xs) = none
  := by
  unfold dollarQuoteTagAt
  split
  · simp_all
  · simp_all
  · rfl

namespace SqlStatementSplitter

variable {s s' : SqlStatementSplitter} {ch : Char} {rest : Text} {out : List Text} {k : ℕ}

/-! ### Turns and further input -/

theorem dollarOpener_append (ys : Text) (h : s.holdsBack ch rest = false) :
  s.dollarOpener ch (rest ++ ys) = s.dollarOpener ch rest
  := by
  simp only [holdsBack, decide_eq_false_iff_not, not_or] at h
  obtain ⟨-, hdollar⟩ := h
  unfold dollarOpener
  split
  · next hlooked =>
    by_cases hch : ch = '$'
    · subst hch
      apply dollarQuoteTagAt_append
      tauto
    · rw [dollarQuoteTagAt_of_ne _ hch, dollarQuoteTagAt_of_ne _ hch]
  · rfl

theorem openerTurn_append (ys : Text) (h : s.holdsBack ch rest = false) :
  s.openerTurn ch (rest ++ ys) = s.openerTurn ch rest
  := by
  have htag := dollarOpener_append ys h
  simp only [holdsBack, decide_eq_false_iff_not, not_or] at h
  have hdash : ch = '-' ∧ (rest ++ ys).head? = some '-' ↔ ch = '-' ∧ rest.head? = some '-' := by
    cases rest with
    | nil =>
      simp only [true_and, not_or] at h
      simp [h.1.1]
    | cons c cs => rfl
  have hslash : ch = '/' ∧ (rest ++ ys).head? = some '*' ↔ ch = '/' ∧ rest.head? = some '*' := by
    cases rest with
    | nil =>
      simp only [true_and, not_or] at h
      simp [h.1.2]
    | cons c cs => rfl
  unfold openerTurn
  simp only [hdash, hslash, htag]

/-- Inside a dollar-quoted body the turn that is not held back is the same before further
input. -/
theorem dollarBodyTurn_append {tag : Text} (finalChunk : Bool) (ys : Text)
    (h : s.dollarBodyTurn false tag ch rest = .next s' out k) :
  s.dollarBodyTurn finalChunk tag ch (rest ++ ys) = .next s' out k
  := by
  unfold dollarBodyTurn at h ⊢
  split at h
  · simp at h
  · next hheld =>
    by_cases hpre : tag.isPrefixOf (ch :: rest)
    · have hlen := (List.isPrefixOf_iff_prefix.mp hpre).length_le
      have hpre' : tag.isPrefixOf (ch :: (rest ++ ys)) := by
        apply List.isPrefixOf_iff_prefix.mpr
        apply (List.isPrefixOf_iff_prefix.mp hpre).trans
        apply List.prefix_append (ch :: rest) ys
      rw [if_pos hpre] at h
      rw [if_neg, if_pos hpre', h]
      rintro ⟨-, hlt, -⟩
      simp only [List.length_cons, List.length_append] at hlt hlen
      omega
    · have hpre' : ¬ tag.isPrefixOf (ch :: (rest ++ ys)) := by
        intro hc
        have hp := List.isPrefixOf_iff_prefix.mp hc
        rw [← List.cons_append] at hp
        rcases Nat.lt_or_ge (ch :: rest).length tag.length with hlt | hge
        · have hrest := List.prefix_of_prefix_length_le (List.prefix_append (ch :: rest) ys) hp hlt.le
          apply hheld
          exact ⟨rfl, hlt, List.isPrefixOf_iff_prefix.mpr hrest⟩
        · apply hpre
          apply List.isPrefixOf_iff_prefix.mpr
          apply List.prefix_of_prefix_length_le hp (List.prefix_append (ch :: rest) ys) hge
      rw [if_neg hpre] at h
      rw [if_neg, if_neg hpre', h]
      rintro ⟨-, hlt, hp⟩
      apply hheld
      simp only [List.length_cons, List.length_append] at hlt ⊢
      use rfl, by omega
      apply List.isPrefixOf_iff_prefix.mpr
      apply (List.prefix_append (ch :: rest) ys).trans
      apply List.isPrefixOf_iff_prefix.mp hp

theorem holdsBack_of_append {ys : Text} (h : s.holdsBack ch (rest ++ ys) = true) :
  s.holdsBack ch rest = true
  := by
  simp only [holdsBack, decide_eq_true_eq] at h ⊢
  rcases h with ⟨hnil, hch⟩ | ⟨hch, hdelim, hline, hhead, hall⟩
  · left
    exact ⟨(List.append_eq_nil_iff.mp hnil).1, hch⟩
  · right
    simp only [List.all_append, Bool.and_eq_true] at hall
    refine ⟨hch, hdelim, hline, ?_, hall.1⟩
    cases rest with
    | nil => rfl
    | cons c cs => exact hhead

theorem processChar_append (finalChunk : Bool) (ys : Text)
    (h : s.processChar false ch rest = .next s' out k) :
  s.processChar finalChunk ch (rest ++ ys) = .next s' out k
  := by
  rcases s.modes with ⟨tag, hd⟩ | ⟨hd, hl⟩ | ⟨hd, hl, hb⟩ | ⟨hd, hl, hb, hu⟩ | hcode
  · rw [processChar_dollar hd] at h ⊢
    apply dollarBodyTurn_append finalChunk ys h
  · rw [processChar_line hd hl] at h ⊢
    exact h
  · rw [processChar_block hd hl hb] at h ⊢
    exact h
  · rw [processChar_quoted hd hl hb hu] at h ⊢
    exact h
  · rw [processChar_code hcode] at h ⊢
    split at h
    · cases h
    · next hheld =>
      have hheld : s.holdsBack ch rest = false := by simpa using hheld
      rw [if_neg, openerTurn_append ys hheld, h]
      rintro ⟨-, hc⟩
      simp [holdsBack_of_append hc] at hheld

/-! ### What a turn leaves alone -/

/-- The options and the input held back are those of another state. -/
structure SameFrame (s s' : SqlStatementSplitter) : Prop where
  options : s'.options = s.options
  pendingInput : s'.pendingInput = s.pendingInput

theorem SameFrame.trans {s₁ s₂ s₃ : SqlStatementSplitter} (h₁ : SameFrame s₁ s₂)
    (h₂ : SameFrame s₂ s₃) :
  SameFrame s₁ s₃
  := ⟨h₂.options.trans h₁.options, h₂.pendingInput.trans h₁.pendingInput⟩

theorem matchChar_frame (s : SqlStatementSplitter) (ch : Char) :
  SameFrame s (s.matchChar ch).1
  := by
  unfold matchChar
  split_ifs <;> exact ⟨rfl, rfl⟩

theorem customDelimiterTurn_frame (s : SqlStatementSplitter) :
  SameFrame s s.customDelimiterTurn.1
  := by
  unfold customDelimiterTurn
  split
  · split <;> exact ⟨rfl, rfl⟩
  · exact ⟨rfl, rfl⟩

theorem delimiterLine_frame (h : s.delimiterLine = some (s', out)) :
  SameFrame s s'
  := by
  unfold delimiterLine at h
  dsimp only at h
  split at h
  · cases h
    exact ⟨rfl, rfl⟩
  · cases h

theorem quoteTurn_next (s : SqlStatementSplitter) (ch : Char) :
  ∃ s' out, s.quoteTurn ch = .next s' out 0 ∧ SameFrame s s'
  := by
  have hmatch := matchChar_frame s ch
  unfold quoteTurn
  dsimp only
  split
  · split
    · next s₂ out₂ hline =>
      have hline' : (s.matchChar ch).1.delimiterLine = some (s₂, out₂) := by
        split at hline
        · exact hline
        · cases hline
      exact ⟨_, _, rfl, hmatch.trans (delimiterLine_frame hline')⟩
    · have hdelim := hmatch.trans (customDelimiterTurn_frame (s.matchChar ch).1)
      exact ⟨_, _, rfl, hdelim.options, hdelim.pendingInput⟩
  · exact ⟨_, _, rfl, hmatch.options, hmatch.pendingInput⟩

theorem openerTurn_next {turn : SplitTurn} (h : s.openerTurn ch rest = some turn) :
  ∃ s' k, turn = .next s' [] k ∧ k ≤ rest.length ∧ SameFrame s s'
  := by
  unfold openerTurn at h
  split_ifs at h
  · cases h
    exact ⟨_, _, rfl, Nat.zero_le _, rfl, rfl⟩
  · cases h
    exact ⟨_, _, rfl, Nat.zero_le _, rfl, rfl⟩
  · cases h
    exact ⟨_, _, rfl, Nat.zero_le _, rfl, rfl⟩
  · obtain ⟨tag, htag, rfl⟩ := Option.map_eq_some_iff.mp h
    refine ⟨_, _, rfl, ?_, rfl, rfl⟩
    have hlen : tag.length ≤ (ch :: rest).length := by
      unfold dollarOpener at htag
      split at htag
      · exact (prefix_of_dollarQuoteTagAt htag).length_le
      · cases htag
    rw [List.length_cons] at hlen
    omega

/-- A turn either holds back everything from the current character on, or consumes
characters that are there. -/
theorem processChar_cases (s : SqlStatementSplitter) (finalChunk : Bool) (ch : Char) (rest : Text) :
  s.processChar finalChunk ch rest = .stop (s, ch :: rest)
    ∨ ∃ s' out k, s.processChar finalChunk ch rest = .next s' out k ∧ k ≤ rest.length
        ∧ SameFrame s s'
  := by
  rcases s.modes with ⟨tag, hd⟩ | ⟨hd, hl⟩ | ⟨hd, hl, hb⟩ | ⟨hd, hl, hb, hu⟩ | hcode
  · rw [processChar_dollar hd]
    unfold dollarBodyTurn
    split
    · left
      rfl
    · right
      split
      · next hpre =>
        have hlen := (List.isPrefixOf_iff_prefix.mp hpre).length_le
        rw [List.length_cons] at hlen
        exact ⟨_, _, _, rfl, by omega, rfl, rfl⟩
      · exact ⟨_, _, _, rfl, Nat.zero_le _, rfl, rfl⟩
  · rw [processChar_line hd hl]
    right
    exact ⟨_, _, _, rfl, Nat.zero_le _, rfl, rfl⟩
  · rw [processChar_block hd hl hb]
    right
    exact ⟨_, _, _, rfl, Nat.zero_le _, rfl, rfl⟩
  · rw [processChar_quoted hd hl hb hu]
    right
    obtain ⟨s', out, hq, hframe⟩ := quoteTurn_next s ch
    exact ⟨s', out, 0, hq, Nat.zero_le _, hframe⟩
  · rw [processChar_code hcode]
    split
    · left
      rfl
    · right
      cases hopen : s.openerTurn ch rest with
      | none =>
        obtain ⟨s', out, hq, hframe⟩ := quoteTurn_next s ch
        exact ⟨s', out, 0, hq, Nat.zero_le _, hframe⟩
      | some turn =>
        obtain ⟨s', k, rfl, hk, hframe⟩ := openerTurn_next hopen
        exact ⟨s', [], k, rfl, hk, hframe⟩

theorem processChar_streaming :
  Streaming (processChar false)
  where
  holds s ch rest r h := by
    rcases processChar_cases s false ch rest with hstop | ⟨s', out, k, hnext, -⟩
    · rw [hstop] at h
      cases h
      rfl
    · rw [hnext] at h
      cases h
  fits s ch rest s' out k h := by
    rcases processChar_cases s false ch rest with hstop | ⟨s', out, k, hnext, hk, -⟩
    · rw [hstop] at h
      cases h
    · rw [hnext] at h
      cases h
      exact hk
  stable s ch rest s' out k ys h := processChar_append false ys h

theorem processChar_final (h : s.processChar false ch rest = .next s' out k) :
  s.processChar true ch rest = .next s' out k
  := by
  have hfinal := processChar_append true [] h
  rwa [List.append_nil] at hfinal

theorem processChar_frame {finalChunk : Bool}
    (h : s.processChar finalChunk ch rest = .next s' out k) :
  SameFrame s s'
  := by
  rcases processChar_cases s finalChunk ch rest with hstop | ⟨s', out, k, hnext, -, hframe⟩
  · rw [hstop] at h
    cases h
  · rw [hnext] at h
    cases h
    exact hframe

/-! ### The splitter on chunks -/

/-- Feed chunks one after the other. -/
def pushChunks : SqlStatementSplitter → List Text → List Text × SqlStatementSplitter
  | s, [] => ([], s)
  | s, chunk :: chunks =>
      let (statements, s') := s.pushChunk chunk
      let (rest, s'') := pushChunks s' chunks
      (statements ++ rest, s'')

/-- The splitter `s` holding back the input `p`. -/
def held (s : SqlStatementSplitter) (p : Text) : SqlStatementSplitter :=
  { s with pendingInput := p }

@[simp]
theorem held_pendingInput (s : SqlStatementSplitter) (p : Text) :
  (s.held p).pendingInput = p
  := rfl

@[simp]
theorem held_held (s : SqlStatementSplitter) (p q : Text) :
  (s.held p).held q = s.held q
  := rfl

theorem held_eq_self {s : SqlStatementSplitter} {p : Text} (h : s.pendingInput = p) :
  s.held p = s
  := by
  subst h
  rfl

theorem loop_pendingInput (finalChunk : Bool) (s : SqlStatementSplitter) (text : Text) :
  (loop (processChar finalChunk) nothingHeld 0 s text).2.1.pendingInput = s.pendingInput
  := by
  have fits : Fits (processChar finalChunk) := by
    intro s ch rest s' out k h
    rcases processChar_cases s finalChunk ch rest with hstop | ⟨s', out, k, hnext, hk, -⟩
    · rw [hstop] at h
      cases h
    · rw [hnext] at h
      cases h
      exact hk
  have keeps {s' out ys} (h : Reads (processChar finalChunk) s text ys s' out) :
      SameFrame s s' :=
    h.invariant (fun _ _ _ _ _ _ hs hnext => hs.trans (processChar_frame hnext)) ⟨rfl, rfl⟩
  rcases exists_reads fits nothingHeld s text with ⟨s', out, hr, hl⟩ | ⟨s', y, ys, out, r, hr, hs, hl⟩
  · rw [hl]
    exact (keeps hr).pendingInput
  · rcases processChar_cases s' finalChunk y ys with hstop | ⟨s'', out', k, hnext, -⟩
    · rw [hstop] at hs
      cases hs
      rw [hl]
      exact (keeps hr).pendingInput
    · rw [hnext] at hs
      cases hs

theorem pushChunk_held {s : SqlStatementSplitter} (hs : s.pendingInput = []) (p chunk : Text) :
  (s.held p).pushChunk chunk
    = let r := loop (processChar false) nothingHeld 0 s (p ++ chunk)
      (r.1, r.2.1.held r.2.2)
  := by
  have hloop := loop_pendingInput false s (p ++ chunk)
  unfold pushChunk
  split
  · next hp =>
    rw [held_pendingInput] at hp
    subst hp
    rw [held_eq_self hs]
    simp only [List.nil_append] at hloop ⊢
    simp only [processChunk, hloop, hs, List.nil_append]
    rfl
  · have hcore : { s.held p with pendingInput := [] } = s := held_eq_self hs
    rw [hcore]
    simp only [held_pendingInput, processChunk, hloop, hs, List.nil_append]
    rfl

theorem pushChunks_held (chunks : List Text) :
  ∀ {s : SqlStatementSplitter} {p : Text}, s.pendingInput = [] →
    loop (processChar false) nothingHeld 0 s p = ([], s, p) →
    pushChunks (s.held p) chunks
      = let r := loop (processChar false) nothingHeld 0 s (p ++ chunks.flatten)
        (r.1, r.2.1.held r.2.2)
  := by
  induction chunks with
  | nil =>
    intro s p hs hp
    simp only [pushChunks, List.flatten_nil, List.append_nil, hp]
  | cons chunk chunks ih =>
    intro s p hs hp
    have hsplit := processChar_streaming.loop_append s (p ++ chunk) chunks.flatten
    have hheld := processChar_streaming.loop_held s (p ++ chunk)
    have hs' := (loop_pendingInput false s (p ++ chunk)).trans hs
    simp only [pushChunks, pushChunk_held hs, ih hs' hheld]
    rw [List.flatten_cons, ← List.append_assoc, hsplit]

theorem pushChunks_flatten (options : SqlParsingOptions) (chunks : List Text) :
  pushChunks (withOptions options) chunks = (withOptions options).pushChunk chunks.flatten
  := by
  have hmany := pushChunks_held chunks (s := withOptions options) (p := []) rfl (loop_nil 0 _)
  have hone := pushChunk_held (s := withOptions options) rfl [] chunks.flatten
  exact hmany.trans hone.symm

theorem pushChunk_append (options : SqlParsingOptions) (xs ys : Text) :
  (withOptions options).pushChunk (xs ++ ys)
    = let (statements, s) := (withOptions options).pushChunk xs
      let (statements', s') := s.pushChunk ys
      (statements ++ statements', s')
  := by
  have hparts := pushChunks_flatten options [xs, ys]
  simp only [List.flatten_cons, List.flatten_nil, List.append_nil] at hparts
  rw [← hparts]
  simp only [pushChunks, List.append_nil]

/-! ### The script read at once -/

/-- The statements that are left in the buffer at the end of the input. -/
def lastStatements (s : SqlStatementSplitter) : List Text :=
  s.finishBuffer.2 ++ s.finishBuffer.1.pushCurrentStatement.2

/-- The statements of a text read as the last chunk, from a state. -/
def splitFrom (s : SqlStatementSplitter) (text : Text) : List Text :=
  let r := loop (processChar true) nothingHeld 0 s text
  r.1 ++ r.2.1.lastStatements

theorem lastStatements_held (s : SqlStatementSplitter) (p : Text) :
  (s.held p).lastStatements = s.lastStatements
  := by
  unfold lastStatements finishBuffer
  dsimp only [held]
  by_cases hline : (parseDelimiterCommand (trim (lastLine (trim s.buffer)))).isSome
  · simp only [hline, if_true]
    rfl
  · simp only [hline]
    cases hdelim : s.customDelimiter with
    | none => rfl
    | some delim =>
      by_cases hsuffix : delim.isSuffixOf s.buffer
      · simp only [hsuffix, if_true]
        rfl
      · simp only [hsuffix]
        rfl

theorem finish_held {s : SqlStatementSplitter} (hs : s.pendingInput = []) (p : Text) :
  (s.held p).finish = splitFrom s p
  := by
  have hcore : { s.held p with pendingInput := [] } = s := held_eq_self hs
  set r := loop (processChar true) nothingHeld 0 s p with hr
  have hprocess : s.processChunk p true = (r.1, r.2.1.held (r.2.1.pendingInput ++ r.2.2)) := by
    rw [processChunk, ← hr]
    rfl
  unfold finish
  rw [hcore, held_pendingInput, hprocess, splitFrom, ← hr,
    ← lastStatements_held _ (r.2.1.pendingInput ++ r.2.2)]
  simp only [lastStatements, List.append_assoc]

theorem splitFrom_loop (s : SqlStatementSplitter) (text : Text) :
  let r := loop (processChar false) nothingHeld 0 s text
  splitFrom s text = r.1 ++ splitFrom r.2.1 r.2.2
  := by
  intro r
  have hreads := (processChar_streaming.reads s text).of_agrees
    (g := processChar true) (fun _ _ _ _ _ _ => processChar_final)
  simp only [splitFrom, hreads.loop_eq nothingHeld, List.append_assoc]
  rfl

end SqlStatementSplitter

/-- A script fed in chunks and finished. -/
def splitChunks (dbType : DatabaseType) (chunks : List Text) : List Text :=
  let (statements, splitter) := pushChunks (withOptions (.forDatabaseType dbType)) chunks
  statements ++ splitter.finish

theorem splitChunks_eq (dbType : DatabaseType) (chunks : List Text) :
  splitChunks dbType chunks
    = splitFrom (withOptions (.forDatabaseType dbType)) chunks.flatten
  := by
  set s := withOptions (.forDatabaseType dbType) with hs
  have hself : s.held [] = s := rfl
  have hpush := pushChunks_held chunks (s := s) (p := []) rfl (loop_nil 0 s)
  rw [hself, List.nil_append] at hpush
  have hpending := loop_pendingInput false s chunks.flatten
  rw [splitFrom_loop, ← finish_held hpending]
  simp only [splitChunks, ← hs, hpush]

theorem splitSqlStatementsForDatabase_eq (sql : Text) (dbType : DatabaseType) :
  splitSqlStatementsForDatabase sql dbType
    = splitFrom (withOptions (.forDatabaseType dbType)) sql
  := by
  have hone := splitChunks_eq dbType [sql]
  rw [List.flatten_singleton] at hone
  rw [← hone]
  simp [splitSqlStatementsForDatabase, splitChunks, pushChunks]

/-- Feeding a script in chunks, however it is cut, and finishing yields the statements of
the whole script. -/
theorem splitChunks_eq_splitSqlStatementsForDatabase (dbType : DatabaseType) (chunks : List Text) :
  splitChunks dbType chunks = splitSqlStatementsForDatabase chunks.flatten dbType
  := by
  rw [splitChunks_eq, splitSqlStatementsForDatabase_eq]

end Db
