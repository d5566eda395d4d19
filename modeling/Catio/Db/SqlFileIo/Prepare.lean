import Catio.Db.SqlFile.Chunks
import Catio.Db.SqlFileIo

/-!
# Prepared files

Decoding chunk by chunk is decoding the whole file (`Decoder.push_append`), the spool
hands back the statements written to it (`nextStatement_frames`), and so a prepared file
hands out the statements of the decoded file.
-/

namespace Db

open Text

/-! ### Decoding in chunks -/

namespace Decoder

theorem detect_append {xs : Bytes} (ys : Bytes) (h : 4 ≤ xs.length) :
  detect (xs ++ ys) = detect xs
  := by
  match xs, h with
  | a :: b :: c :: d :: xs, _ =>
    simp only [detect, List.cons_append, List.isPrefixOf, Bool.and_true]

variable {encoding : Encoding} {d : Decoder}

theorem detect_fits {p : Bytes} {bom : ℕ} (h : detect p = .ok (encoding, bom)) :
  bom ≤ p.length
  := by
  unfold detect at h
  split_ifs at h with h₁ h₂ h₃ h₄
  · obtain ⟨-, rfl⟩ := Prod.mk.inj (Except.ok.inj h)
    exact (List.isPrefixOf_iff_prefix.1 h₂).length_le
  · obtain ⟨-, rfl⟩ := Prod.mk.inj (Except.ok.inj h)
    exact (List.isPrefixOf_iff_prefix.1 h₃).length_le
  · obtain ⟨-, rfl⟩ := Prod.mk.inj (Except.ok.inj h)
    exact (List.isPrefixOf_iff_prefix.1 h₄).length_le
  · obtain ⟨-, rfl⟩ := Prod.mk.inj (Except.ok.inj h)
    apply Nat.zero_le

/-- The text of two chunks, the second one decoded from the state behind the first. -/
def andThen (first : Except DbError (Text × Decoder))
    (second : Decoder → Except DbError (Text × Decoder)) : Except DbError (Text × Decoder) :=
  first.bind fun (text, d) => (second d).map fun (text', d') => (text ++ text', d')

@[simp]
theorem andThen_error (e : DbError) (second : Decoder → Except DbError (Text × Decoder)) :
  andThen (.error e) second = .error e
  := rfl

@[simp]
theorem andThen_nil (d : Decoder) (second : Decoder → Except DbError (Text × Decoder)) :
  andThen (.ok ([], d)) second = second d
  := by
  cases h : second d with
  | error e => simp [andThen, Except.bind, Except.map, h]
  | ok r => simp [andThen, Except.bind, Except.map, h]

/-- Further bytes pending. -/
def more (d : Decoder) (bytes : Bytes) : Decoder :=
  { d with pending := d.pending ++ bytes }

/-- The text of a chunk, if it holds no NUL, and the bytes that stay pending. -/
def checked (d : Decoder) (text : Text) (rest : Bytes) : Except DbError (Text × Decoder) :=
  if '\x00' ∈ text then .error invalidEncoding else .ok (text, { d with pending := rest })

/-- The bytes decoded as UTF-8 after a text. -/
def checkUtf8 (d : Decoder) (text : Text) (last : Bool) (r : Text × Option Utf8.Failure) :
    Except DbError (Text × Decoder) :=
  match r.2 with
  | none => d.checked (text ++ r.1) []
  | some (.incomplete rest) =>
      if last then .error invalidEncoding else d.checked (text ++ r.1) rest
  | some (.invalid _ _) => .error invalidEncoding

theorem pushUtf8_eq (d : Decoder) (last : Bool) :
  d.pushUtf8 last = d.checkUtf8 [] last (Utf8.fromUtf8 d.pending)
  := by
  simp only [pushUtf8, checkUtf8, List.nil_append]
  rfl

theorem checkUtf8_append (d : Decoder) (text : Text) (rest : Bytes) (last : Bool)
    (r : Text × Option Utf8.Failure) :
  d.checkUtf8 text last r
    = andThen (d.checked text rest) fun d' => d'.checkUtf8 [] last r
  := by
  by_cases hnul : '\x00' ∈ text
  · -- a NUL is an error whatever follows
    have hall : ∀ rest', d.checked (text ++ r.1) rest' = .error invalidEncoding := by
      intro rest'
      rw [checked, if_pos (List.mem_append_left _ hnul)]
    rw [checked, if_pos hnul, andThen_error, checkUtf8]
    split
    · apply hall
    · rw [hall, ite_self]
    · rfl
  · have hmore : ∀ rest', d.checked (text ++ r.1) rest'
        = (({ d with pending := rest } : Decoder).checked r.1 rest').map
            fun (text', d') => (text ++ text', d') := by
      intro rest'
      by_cases hnul' : '\x00' ∈ r.1
      · rw [checked, checked, if_pos (List.mem_append_right _ hnul'), if_pos hnul']
        rfl
      · rw [checked, checked, if_neg (by simp [hnul, hnul']), if_neg hnul']
        rfl
    rw [checked, if_neg hnul]
    simp only [andThen, Except.bind, checkUtf8, List.nil_append]
    split
    · apply hmore
    · cases last with
      | true => rfl
      | false => apply hmore
    · rfl

theorem checkUtf8_more (d : Decoder) (text : Text) (rest ys : Bytes) (last : Bool) :
  d.checkUtf8 text last (Utf8.fromUtf8 (rest ++ ys))
    = andThen (d.checked text rest) fun d' => (d'.more ys).pushUtf8 last
  := by
  rw [checkUtf8_append d text rest]
  by_cases hnul : '\x00' ∈ text
  · simp only [checked, if_pos hnul, andThen_error]
  · simp only [checked, if_neg hnul, andThen, Except.bind, pushUtf8_eq, more]
    rfl

theorem checked_more (d : Decoder) (ys : Bytes) (text : Text) (rest : Bytes) :
  (d.more ys).checked text rest = d.checked text rest
  := rfl

theorem pushUtf8_append (d : Decoder) (ys : Bytes) (last : Bool) :
  (d.more ys).pushUtf8 last = andThen (d.pushUtf8 false) fun d' => (d'.more ys).pushUtf8 last
  := by
  have happend := Utf8.fromUtf8_append d.pending ys
  rw [pushUtf8_eq d, pushUtf8_eq (d.more ys), show (d.more ys).pending = d.pending ++ ys from rfl,
    happend]
  cases hfailure : (Utf8.fromUtf8 d.pending).2 with
  | none =>
    have hmore := d.checkUtf8_more (Utf8.fromUtf8 d.pending).1 [] ys last
    simpa only [checkUtf8, hfailure, List.nil_append, checked_more] using hmore
  | some failure =>
    cases failure with
    | incomplete rest =>
      have hmore := d.checkUtf8_more (Utf8.fromUtf8 d.pending).1 rest ys last
      simpa only [checkUtf8, hfailure, List.nil_append, checked_more, Bool.false_eq_true,
        if_false] using hmore
    | invalid rest n => simp only [checkUtf8, hfailure, andThen_error]

theorem pairs_append (xs ys : Bytes) :
  pairs (xs ++ ys) = ((pairs xs).1 ++ (pairs ((pairs xs).2 ++ ys)).1,
    (pairs ((pairs xs).2 ++ ys)).2)
  := by
  fun_induction pairs xs with
  | case1 a b rest ih => simp only [List.cons_append, pairs, ih]
  | case2 rest h => simp

theorem pushUnits_append (high : Option ℕ) (xs ys : List ℕ) :
  pushUnits high (xs ++ ys)
    = (pushUnits high xs).bind fun (text, high') =>
        (pushUnits high' ys).map fun (text', high'') => (text ++ text', high'')
  := by
  induction xs generalizing high with
  | nil =>
    simp only [List.nil_append, pushUnits, Except.bind]
    cases pushUnits high ys with
    | error e => rfl
    | ok r => rfl
  | cons x xs ih =>
    simp only [List.cons_append, pushUnits, bind, Except.bind]
    cases pushUnit high x with
    | error e => rfl
    | ok r =>
      simp only [ih]
      cases pushUnits r.2 xs with
      | error e => rfl
      | ok r' =>
        simp only [Except.bind, pure, Except.pure]
        cases pushUnits r'.2 ys with
        | error e => rfl
        | ok r'' => simp only [Except.map, List.append_assoc]

/-- The end of the input after a decoded text: nothing may be left over. -/
def closeUtf16 (last : Bool) (text : Text) (d : Decoder) : Except DbError (Text × Decoder) :=
  if last ∧ (d.pending ≠ [] ∨ d.high.isSome) then .error invalidEncoding else .ok (text, d)

theorem pushUtf16_eq (d : Decoder) (encoding : Encoding) (last : Bool) :
  d.pushUtf16 encoding last
    = (pushUnits d.high ((pairs d.pending).1.map (unit encoding))).bind fun (text, high) =>
        closeUtf16 last text { d with pending := (pairs d.pending).2, high := high }
  := by
  simp only [pushUtf16, bind]
  cases pushUnits d.high ((pairs d.pending).1.map (unit encoding)) with
  | error e => rfl
  | ok r =>
    simp only [Except.bind, closeUtf16]

theorem pushUtf16_append (d : Decoder) (encoding : Encoding) (ys : Bytes) (last : Bool) :
  (d.more ys).pushUtf16 encoding last
    = andThen (d.pushUtf16 encoding false) fun d' => (d'.more ys).pushUtf16 encoding last
  := by
  simp only [pushUtf16_eq, more, pairs_append d.pending ys, List.map_append, pushUnits_append]
  cases pushUnits d.high ((pairs d.pending).1.map (unit encoding)) with
  | error e => rfl
  | ok r =>
    simp only [Except.bind, closeUtf16, Bool.false_eq_true, false_and, if_false, andThen]
    cases pushUnits r.2 ((pairs ((pairs d.pending).2 ++ ys)).1.map (unit encoding)) with
    | error e => rfl
    | ok r' =>
      simp only [Except.map]
      split_ifs
      · rfl
      · rfl

theorem decodePending_encoding {d d' : Decoder} {last : Bool} {text : Text}
    (h : d.decodePending encoding last = .ok (text, d')) :
  d'.encoding = d.encoding
  := by
  have hutf16 : ∀ {e}, d.pushUtf16 e last = .ok (text, d') → d'.encoding = d.encoding := by
    intro e he
    rw [pushUtf16_eq] at he
    cases hunits : pushUnits d.high ((pairs d.pending).1.map (unit e)) with
    | error e => simp [hunits, Except.bind] at he
    | ok r =>
      simp only [hunits, Except.bind, closeUtf16] at he
      split_ifs at he
      obtain ⟨-, rfl⟩ := Prod.mk.inj (Except.ok.inj he)
      rfl
  cases encoding with
  | utf8 =>
    have hchecked : ∀ {t rest}, d.checked t rest = .ok (text, d') →
        d'.encoding = d.encoding := by
      intro t rest ht
      unfold checked at ht
      split_ifs at ht
      obtain ⟨-, rfl⟩ := Prod.mk.inj (Except.ok.inj ht)
      rfl
    rw [decodePending, pushUtf8_eq, checkUtf8] at h
    split at h
    · exact hchecked h
    · split_ifs at h
      exact hchecked h
    · cases h
  | utf16Le => exact hutf16 h
  | utf16Be => exact hutf16 h

theorem decodePending_append (d : Decoder) (encoding : Encoding) (ys : Bytes) (last : Bool) :
  (d.more ys).decodePending encoding last
    = andThen (d.decodePending encoding false) fun d' => (d'.more ys).decodePending encoding last
  := by
  cases encoding with
  | utf8 => apply pushUtf8_append
  | utf16Le => apply pushUtf16_append
  | utf16Be => apply pushUtf16_append

theorem push_known (h : d.encoding = some encoding) (ys : Bytes) (last : Bool) :
  d.push ys last = (d.more ys).decodePending encoding last
  := by
  obtain ⟨pending, found, high⟩ := d
  obtain rfl : found = some encoding := h
  rfl

theorem decodePending_push (h : d.encoding = some encoding) (ys : Bytes) (last : Bool) :
  (d.more ys).decodePending encoding last
    = andThen (d.decodePending encoding false) fun d' => d'.push ys last
  := by
  rw [decodePending_append]
  cases hfirst : d.decodePending encoding false with
  | error e => rfl
  | ok r =>
    have hknown : r.2.encoding = some encoding := (decodePending_encoding hfirst).trans h
    simp only [andThen, Except.bind, push_known hknown]

theorem push_unknown (h : d.encoding = none) (ys : Bytes) (last : Bool) :
  d.push ys last
    = if (d.pending ++ ys).length < 4 ∧ last = false then .ok ([], d.more ys)
      else (detect (d.pending ++ ys)).bind fun (encoding, bom) =>
        { d with
          encoding := some encoding
          pending := (d.pending ++ ys).drop bom }.decodePending encoding last
  := by
  obtain ⟨pending, found, high⟩ := d
  obtain rfl : found = none := h
  simp only [push, Bool.not_eq_true']
  rfl

theorem push_append (d : Decoder) (xs ys : Bytes) (last : Bool) :
  d.push (xs ++ ys) last = andThen (d.push xs false) fun d' => d'.push ys last
  := by
  cases h : d.encoding with
  | some encoding =>
    have hmore : d.more (xs ++ ys) = (d.more xs).more ys := by
      simp only [more, List.append_assoc]
    rw [push_known h, push_known h, hmore]
    exact decodePending_push (d := d.more xs) h ys last
  | none =>
    by_cases hshort : (d.pending ++ xs).length < 4
    · -- the encoding is not known yet: the first bytes stay pending
      rw [push_unknown h xs, if_pos ⟨hshort, rfl⟩, andThen_nil,
        push_unknown h (xs ++ ys), push_unknown (d := d.more xs) h ys]
      simp only [more, List.append_assoc]
    · have hlong : ¬ (d.pending ++ (xs ++ ys)).length < 4 := by
        simp only [List.length_append] at hshort ⊢
        omega
      have hdetect : detect (d.pending ++ (xs ++ ys)) = detect (d.pending ++ xs) := by
        rw [← List.append_assoc]
        exact detect_append ys (by omega)
      rw [push_unknown h xs, push_unknown h (xs ++ ys), if_neg (fun hle => hlong hle.1),
        if_neg (fun hle => hshort hle.1), hdetect]
      cases hfound : detect (d.pending ++ xs) with
      | error e => rfl
      | ok r =>
        have hdrop : (d.pending ++ (xs ++ ys)).drop r.2 = (d.pending ++ xs).drop r.2 ++ ys := by
          rw [← List.append_assoc, List.drop_append_of_le_length (detect_fits hfound)]
        simp only [Except.bind, hdrop]
        exact decodePending_push
          (d := { d with encoding := some r.1, pending := (d.pending ++ xs).drop r.2 })
          rfl ys last

end Decoder

/-! ### The spool -/

/-- A statement in the spool, with its length in front. -/
def frame (statement : Text) : Bytes :=
  u32Le (utf8Len statement) ++ Utf8.encode statement

theorem readU32Le_u32Le {n : ℕ} (h : n < 2 ^ 32) (rest : Bytes) :
  readU32Le (u32Le n ++ rest) = .ok (n, rest)
  := by
  simp only [u32Le, List.cons_append, List.nil_append, readU32Le, UInt8.toNat_ofNat', Except.ok.injEq,
    Prod.mk.injEq, and_true]
  omega

theorem readExact_append (xs ys : Bytes) :
  readExact xs.length (xs ++ ys) = .ok (xs, ys)
  := by
  rw [readExact, if_neg (by simp), List.take_left, List.drop_left]

theorem nextStatement_frame {p : PreparedSqlFile} {statement : Text} {rest : Bytes} {n : ℕ}
    (hspool : p.spool = frame statement ++ rest) (hremaining : p.remaining = n + 1)
    (hfits : utf8Len statement ≤ MAX_STATEMENT_BYTES) :
  p.nextStatement = .ok (some statement, { p with spool := rest, remaining := n })
  := by
  have hsmall : utf8Len statement < 2 ^ 32 := lt_of_le_of_lt hfits (by decide)
  have hlength : readExact (utf8Len statement) (Utf8.encode statement ++ rest)
      = .ok (Utf8.encode statement, rest) := by
    rw [← Utf8.length_encode]
    apply readExact_append
  rw [PreparedSqlFile.nextStatement, hremaining, if_neg (Nat.succ_ne_zero n), hspool, frame,
    List.append_assoc, readU32Le_u32Le hsmall]
  simp only [bind, Except.bind]
  rw [if_neg (not_lt.2 hfits), hlength]
  simp only [Utf8.fromUtf8_encode, Nat.add_sub_cancel]

/-- The result of the call of `next_statement` after `n` other calls. -/
def PreparedSqlFile.nthStatement : ℕ → PreparedSqlFile → Except DbError (Option Text)
  | 0, p => p.nextStatement.map Prod.fst
  | n + 1, p => p.nextStatement.bind fun (_, p') => p'.nthStatement n

/-- The spool holds these statements, and they are the statements that are left. -/
structure PreparedSqlFile.Holds (p : PreparedSqlFile) (statements : List Text) : Prop where
  spool : p.spool = statements.flatMap frame
  remaining : p.remaining = statements.length
  fits : ∀ statement ∈ statements, utf8Len statement ≤ MAX_STATEMENT_BYTES

namespace PreparedSqlFile.Holds

theorem next_nil {p : PreparedSqlFile} (h : p.Holds []) :
  p.nextStatement = .ok (none, p)
  := by
  simp only [nextStatement, show p.remaining = 0 from h.remaining]
  rfl

theorem next_cons {p : PreparedSqlFile} {statement : Text} {statements : List Text}
    (h : p.Holds (statement :: statements)) :
  ∃ p', p.nextStatement = .ok (some statement, p') ∧ p'.Holds statements
  := by
  refine ⟨_, nextStatement_frame h.spool h.remaining ?_, ?_⟩
  · exact h.fits statement List.mem_cons_self
  · exact {
      spool := rfl
      remaining := rfl
      fits := fun other hother => h.fits other (List.mem_cons_of_mem _ hother) }

theorem nthStatement {statements : List Text} :
  ∀ {n : ℕ} {p : PreparedSqlFile}, p.Holds statements →
    p.nthStatement n = .ok statements[n]?
  := by
  induction statements with
  | nil =>
    intro n p h
    induction n with
    | zero => simp [PreparedSqlFile.nthStatement, h.next_nil, Except.map]
    | succ n ih => simpa [PreparedSqlFile.nthStatement, h.next_nil, Except.bind] using ih
  | cons statement statements ih =>
    intro n p h
    obtain ⟨p', hnext, hp'⟩ := h.next_cons
    cases n with
    | zero => simp [PreparedSqlFile.nthStatement, hnext, Except.map]
    | succ n => simpa [PreparedSqlFile.nthStatement, hnext, Except.bind] using ih hp'

end PreparedSqlFile.Holds

/-! ### Writing the spool -/

/-- Calls that neither report, nor send, nor find the token cancelled. -/
def Quiet : Program.Event SqlFileCall.Answer → Prop
  | ⟨.isCancelled, cancelled⟩ => cancelled = false
  | ⟨.emit _, _⟩ | ⟨.queryCancellable _, _⟩ => False
  | _ => True

/-- What the outside may see while a file is prepared: `J` holds as long as nothing has
failed and `F` from the first failure on. -/
structure Watched {σ : Type} (J F : σ → List (Program.Event SqlFileCall.Answer) → Prop)
    (progress : ℕ → SqlFileProgram σ Unit) : Prop where
  cancelled : ∀ {s h}, J s h → F s (h ++ [⟨.isCancelled, true⟩])
  quiet : ∀ {s h} (e), Quiet e → J s h → J s (h ++ [e])
  failed : ∀ {s h}, J s h → F s h
  progress : ∀ {s h} (n : ℕ), J s h →
    Program.wp (fun _ s h => J s h) (fun _ s h => F s h) (progress n) s h

section

variable {σ : Type} {J F : σ → List (Program.Event SqlFileCall.Answer) → Prop}
  {progress : ℕ → SqlFileProgram σ Unit} {state : σ}
  {h : List (Program.Event SqlFileCall.Answer)}

theorem failIfCancelled_wp (hw : Watched J F progress) (hJ : J state h) :
  Program.wp (fun _ s h => J s h) (fun _ s h => F s h) (failIfCancelled : SqlFileProgram σ Unit)
    state h
  := by
  intro cancelled
  cases cancelled with
  | true => exact hw.cancelled hJ
  | false => exact hw.quiet _ rfl hJ

theorem spoolIo_wp (hw : Watched J F progress) (hJ : J state h) :
  Program.wp (fun _ s h => J s h) (fun _ s h => F s h) (spoolIo : SqlFileProgram σ Unit) state h
  := by
  intro r
  cases r with
  | none => exact hw.quiet _ trivial hJ
  | some error => exact hw.failed (hw.quiet _ trivial hJ)

theorem lift_wp {α : Type} (hw : Watched J F progress) (hJ : J state h) (x : Except DbError α) :
  Program.wp (fun a s h => J s h ∧ x = .ok a) (fun _ s h => F s h)
    (liftM x : SqlFileProgram σ α) state h
  := by
  rw [Program.wp_lift]
  constructor
  · intro a ha
    exact ⟨hJ, ha⟩
  · intro e he
    exact hw.failed hJ

/-- These statements have been written to the spool and counted. -/
structure Preparing.Added (s : Preparing) (statements : List Text) (s' : Preparing) : Prop where
  eq : s' = { s with
    spool := s.spool ++ statements.flatMap frame
    total := s.total + statements.length }
  fits : ∀ statement ∈ statements, utf8Len statement ≤ MAX_STATEMENT_BYTES

theorem checkStatementBudget_ok {n : ℕ} (hok : checkStatementBudget n = .ok ()) :
  n ≤ MAX_STATEMENT_BYTES
  := by
  unfold checkStatementBudget at hok
  split_ifs at hok with h
  omega

theorem spoolStatement_wp (hw : Watched J F progress) (hJ : J state h) (s : Preparing)
    (statement : Text) :
  Program.wp (fun s' st h => J st h ∧ s.Added [statement] s') (fun _ st h => F st h)
    (spoolStatement s statement) state h
  := by
  unfold spoolStatement
  apply Program.wp_seq (failIfCancelled_wp hw hJ)
  intro _ st₁ h₁ hJ₁
  apply Program.wp_seq (lift_wp hw hJ₁ _)
  intro _ st₂ h₂ hJ₂
  apply Program.wp_seq (spoolIo_wp hw hJ₂.1)
  intro _ st₃ h₃ hJ₃
  apply Program.wp_seq (spoolIo_wp hw hJ₃)
  intro _ st₄ h₄ hJ₄
  refine ⟨hJ₄, ?_, ?_⟩
  · simp [frame]
  · simpa using checkStatementBudget_ok hJ₂.2

theorem spoolStatements_wp (hw : Watched J F progress) (hJ : J state h) (s : Preparing)
    (statements : List Text) :
  Program.wp (fun s' st h => J st h ∧ s.Added statements s') (fun _ st h => F st h)
    (statements.foldlM spoolStatement s) state h
  := by
  have hloop := Program.wp_foldlM (E := fun _ st h => F st h)
    (b := spoolStatement (σ := σ))
    (I := fun t left st h => J st h ∧ ∃ written, statements = written ++ left ∧ s.Added written t)
    ?_ statements s state h ⟨hJ, [], rfl, by simp, by simp⟩
  · apply Program.wp_mono hloop _ (fun _ _ _ hF => hF)
    rintro s' st' h' ⟨hJ', written, hall, hadded⟩
    rw [List.append_nil] at hall
    exact ⟨hJ', hall ▸ hadded⟩
  · rintro t statement left st h₁ ⟨hJ₁, written, hall, hadded⟩
    apply Program.wp_mono (spoolStatement_wp hw hJ₁ t statement) _ (fun _ _ _ hF => hF)
    rintro t' st' h' ⟨hJ', heq, hfits⟩
    refine ⟨hJ', written ++ [statement], by simp [hall], ?_, ?_⟩
    · rw [heq, hadded.eq]
      simp [Nat.add_assoc]
    · intro other hother
      rcases List.mem_append.1 hother with hold | hnew
      · exact hadded.fits other hold
      · exact hfits other hnew

/-! ### Reading the chunks -/

/-- What one turn of the loop does with a chunk that is decoded to `text`. -/
structure Preparing.Took (s : Preparing) (chunk : Bytes) (text : Text) (s' : Preparing) :
    Prop where
  decoded : s.decoder.push chunk (chunk.length = 0) = .ok (text, s'.decoder)
  splitter : s'.splitter = (s.splitter.pushChunk text).2
  size : s'.size = s.size + chunk.length
  small : s'.size ≤ MAX_SQL_FILE_BYTES
  buffered : s'.splitter.bufferedBytes ≤ MAX_STATEMENT_BYTES
  spool : ∃ statements,
    statements = (s.splitter.pushChunk text).1
      ++ (if chunk.length = 0 then s'.splitter.finish else [])
    ∧ s'.spool = s.spool ++ statements.flatMap frame
    ∧ s'.total = s.total + statements.length
    ∧ ∀ statement ∈ statements, utf8Len statement ≤ MAX_STATEMENT_BYTES

theorem checkSqlFileSize_ok {n : ℕ} (hok : checkSqlFileSize n = .ok ()) :
  n ≤ MAX_SQL_FILE_BYTES
  := by
  unfold checkSqlFileSize at hok
  split_ifs at hok with h
  omega

theorem prepareChunk_wp (hw : Watched J F progress) (hJ : J state h) (s : Preparing)
    (read : Except Text Bytes) :
  Program.wp (fun s' st h => J st h ∧ ∃ chunk text, read = .ok chunk ∧ s.Took chunk text s')
    (fun _ st h => F st h) (prepareChunk progress s read) state h
  := by
  unfold prepareChunk
  apply Program.wp_seq (failIfCancelled_wp hw hJ)
  intro _ st₁ h₁ hJ₁
  apply Program.wp_seq (lift_wp hw hJ₁ _)
  rintro chunk st₂ h₂ ⟨hJ₂, hread⟩
  apply Program.wp_seq (lift_wp hw hJ₂ _)
  rintro _ st₃ h₃ ⟨hJ₃, hsize⟩
  apply Program.wp_seq (lift_wp hw hJ₃ _)
  rintro ⟨text, decoder⟩ st₄ h₄ ⟨hJ₄, hpush⟩
  obtain ⟨statements, splitter, hsplit⟩ : ∃ statements splitter,
      s.splitter.pushChunk text = (statements, splitter) := ⟨_, _, rfl⟩
  simp only [hsplit]
  apply Program.wp_seq (lift_wp hw hJ₄ _)
  rintro _ st₅ h₅ ⟨hJ₅, hbudget⟩
  apply Program.wp_seq (spoolStatements_wp hw hJ₅ _ _)
  rintro s' st₆ h₆ ⟨hJ₆, heq, hfits⟩
  apply Program.wp_seq (hw.progress _ hJ₆)
  intro _ st₇ h₇ hJ₇
  refine ⟨hJ₇, chunk, text, Result.mapError_ok.mp hread, ?_⟩
  rw [heq]
  exact {
    decoded := hpush
    splitter := by rw [hsplit]
    size := rfl
    small := checkSqlFileSize_ok (Result.mapError_ok.mp hsize)
    buffered := checkStatementBudget_ok hbudget
    spool := by
      refine ⟨_, ?_, rfl, rfl, hfits⟩
      rw [hsplit]
      split_ifs
      · rfl
      · rw [List.append_nil] }

def FileReads.bytes (reads : FileReads) : Bytes :=
  reads.flatMap fun read =>
    match read with
    | .ok chunk => chunk.bytes
    | .error _ => []

theorem FileReads.bytes_append (reads : FileReads) (chunk : ReadChunk) :
  FileReads.bytes (reads ++ [.ok chunk]) = FileReads.bytes reads ++ chunk.bytes
  := by
  simp [FileReads.bytes]

def splitSoFar (db : DatabaseType) (text : Text) : List Text × SqlStatementSplitter :=
  (SqlStatementSplitter.withOptions (.forDatabaseType db)).pushChunk text

theorem splitSoFar_append (db : DatabaseType) (xs ys : Text) :
  splitSoFar db (xs ++ ys)
    = ((splitSoFar db xs).1 ++ ((splitSoFar db xs).2.pushChunk ys).1,
      ((splitSoFar db xs).2.pushChunk ys).2)
  := SqlStatementSplitter.pushChunk_append ..

/-- The splitter keeps no more than fits behind each of the first reads. -/
def Buffered (db : DatabaseType) (reads : FileReads) : Prop :=
  ∀ (n : ℕ) (text : Text) (d : Decoder),
    ({} : Decoder).push (FileReads.bytes (reads.take n)) false = .ok (text, d) →
      (splitSoFar db text).2.bufferedBytes ≤ MAX_STATEMENT_BYTES

/-- Behind some reads, decoded to `text`: what the locals of `prepare_reader` hold. -/
structure Preparing.HasRead (db : DatabaseType) (reads : FileReads) (text : Text)
    (s : Preparing) : Prop where
  readable : ∀ read ∈ reads, read.isOk
  size : s.size = (FileReads.bytes reads).length
  small : s.size ≤ MAX_SQL_FILE_BYTES
  decoded : ({} : Decoder).push (FileReads.bytes reads) false = .ok (text, s.decoder)
  splitter : s.splitter = (splitSoFar db text).2
  spool : s.spool = (splitSoFar db text).1.flatMap frame
  total : s.total = (splitSoFar db text).1.length
  fits : ∀ statement ∈ (splitSoFar db text).1, utf8Len statement ≤ MAX_STATEMENT_BYTES
  buffered : Buffered db reads

theorem Preparing.hasRead_nil (db : DatabaseType) :
  Preparing.HasRead db [] [] { splitter := .withOptions (.forDatabaseType db) }
  := by
  have hfresh : splitSoFar db [] = ([], .withOptions (.forDatabaseType db)) := rfl
  exact {
    readable := by simp
    size := rfl
    small := Nat.zero_le _
    decoded := rfl
    splitter := by rw [hfresh]
    spool := by rw [hfresh]; rfl
    total := by rw [hfresh]; rfl
    fits := by rw [hfresh]; simp
    buffered := by
      intro n text d hpush
      rw [List.take_nil] at hpush
      obtain ⟨rfl, rfl⟩ := Prod.mk.inj (Except.ok.inj hpush)
      rw [hfresh]
      apply Nat.zero_le }

theorem Decoder.push_append_ok {d d₁ d₂ : Decoder} {xs ys : Bytes} {last : Bool} {t₁ t₂ : Text}
    (h₁ : d.push xs false = .ok (t₁, d₁)) (h₂ : d₁.push ys last = .ok (t₂, d₂)) :
  d.push (xs ++ ys) last = .ok (t₁ ++ t₂, d₂)
  := by
  rw [push_append, h₁]
  simp only [andThen, Except.bind, h₂, Except.map]

theorem Preparing.HasRead.step {db : DatabaseType} {reads : FileReads} {text text' : Text}
    {s s' : Preparing} {chunk : ReadChunk} (hs : s.HasRead db reads text)
    (htook : s.Took chunk.bytes text' s') :
  s'.HasRead db (reads ++ [.ok chunk]) (text ++ text')
  := by
  have hmore : chunk.bytes.length ≠ 0 := by
    simpa using chunk.nonempty
  have hdecoded : ({} : Decoder).push (FileReads.bytes (reads ++ [.ok chunk])) false
      = .ok (text ++ text', s'.decoder) := by
    have htook' := htook.decoded
    rw [decide_eq_false hmore] at htook'
    rw [FileReads.bytes_append]
    exact Decoder.push_append_ok hs.decoded htook'
  have hsplit := splitSoFar_append db text text'
  rw [← hs.splitter] at hsplit
  obtain ⟨statements, hstatements, hspool, htotal, hfits⟩ := htook.spool
  rw [if_neg hmore, List.append_nil] at hstatements
  subst hstatements
  exact {
    readable := by
      intro read hread
      rcases List.mem_append.1 hread with hold | hnew
      · exact hs.readable read hold
      · rw [List.mem_singleton.1 hnew]
        rfl
    size := by rw [htook.size, hs.size, FileReads.bytes_append, List.length_append]
    small := htook.small
    decoded := hdecoded
    splitter := by rw [hsplit, htook.splitter]
    spool := by rw [hspool, hs.spool, hsplit, ← List.flatMap_append]
    total := by rw [htotal, hs.total, hsplit, ← List.length_append]
    fits := by
      intro statement hstatement
      rw [hsplit] at hstatement
      rcases List.mem_append.1 hstatement with hold | hnew
      · exact hs.fits statement hold
      · exact hfits statement hnew
    buffered := by
      intro n t d hpush
      rcases Nat.lt_or_ge reads.length n with hlt | hge
      · have hall : (reads ++ [Except.ok chunk]).take n = reads ++ [Except.ok chunk] := by
          apply List.take_of_length_le
          rw [List.length_append]
          exact hlt
        rw [hall, hdecoded] at hpush
        obtain ⟨rfl, rfl⟩ := Prod.mk.inj (Except.ok.inj hpush)
        have hbuffered := htook.buffered
        rw [htook.splitter] at hbuffered
        rw [hsplit]
        exact hbuffered
      · rw [List.take_append_of_le_length hge] at hpush
        exact hs.buffered n t d hpush }

/-- A file can be prepared: every read succeeds, it is a text in its encoding, and neither it nor a
statement nor what the splitter keeps is too long. -/
structure Accepted (db : DatabaseType) (reads : FileReads) (text : Text) : Prop where
  readable : ∀ read ∈ reads, read.isOk
  small : (FileReads.bytes reads).length ≤ MAX_SQL_FILE_BYTES
  decoded : decode (FileReads.bytes reads) = .ok text
  fits : ∀ statement ∈ splitSqlStatementsForDatabase text db,
    utf8Len statement ≤ MAX_STATEMENT_BYTES
  buffered : Buffered db reads
  remainder : (splitSoFar db text).2.bufferedBytes ≤ MAX_STATEMENT_BYTES

/-- The spool holds these statements and their number has been counted. -/
structure Preparing.Spooled (s : Preparing) (statements : List Text) : Prop where
  spool : s.spool = statements.flatMap frame
  total : s.total = statements.length

theorem Preparing.HasRead.finish {db : DatabaseType} {reads : FileReads} {text text' : Text}
    {s s' : Preparing} (hs : s.HasRead db reads text) (htook : s.Took [] text' s') :
  Accepted db reads (text ++ text')
    ∧ s'.Spooled (splitSqlStatementsForDatabase (text ++ text') db)
  := by
  have hdecoded : ({} : Decoder).push (FileReads.bytes reads ++ []) true
      = .ok (text ++ text', s'.decoder) := Decoder.push_append_ok hs.decoded htook.decoded
  have hsplit := splitSoFar_append db text text'
  rw [← hs.splitter, ← htook.splitter] at hsplit
  have hwhole : splitSqlStatementsForDatabase (text ++ text') db
      = (splitSoFar db text).1 ++ ((s.splitter.pushChunk text').1 ++ s'.splitter.finish) := by
    have hone : splitSqlStatementsForDatabase (text ++ text') db
        = (splitSoFar db (text ++ text')).1 ++ (splitSoFar db (text ++ text')).2.finish := rfl
    rw [hone, hsplit, List.append_assoc]
  obtain ⟨statements, hstatements, hspool, htotal, hfits⟩ := htook.spool
  rw [List.length_nil, if_pos rfl] at hstatements
  subst hstatements
  constructor
  · exact {
      readable := hs.readable
      small := hs.size ▸ hs.small
      decoded := by
        rw [List.append_nil] at hdecoded
        rw [decode, hdecoded]
        rfl
      fits := by
        intro statement hstatement
        rw [hwhole] at hstatement
        rcases List.mem_append.1 hstatement with hold | hnew
        · exact hs.fits statement hold
        · exact hfits statement hnew
      buffered := hs.buffered
      remainder := by
        rw [hsplit]
        exact htook.buffered }
  · exact {
      spool := by rw [hspool, hs.spool, hwhole, ← List.flatMap_append]
      total := by rw [htotal, hs.total, hwhole, ← List.length_append] }

theorem prepareChunks_wp (hw : Watched J F progress) {db : DatabaseType} :
  ∀ (later : FileReads) {reads : FileReads} {text : Text} {s : Preparing} {state : σ}
    {h : List (Program.Event SqlFileCall.Answer)},
    J state h → s.HasRead db reads text →
      Program.wp
        (fun s' st h => J st h ∧ ∃ whole, Accepted db (reads ++ later) whole
          ∧ s'.Spooled (splitSqlStatementsForDatabase whole db))
        (fun _ st h => F st h) (prepareChunks progress s later) state h
  | [], reads, text, s, state, h, hJ, hs => by
      apply Program.wp_mono (prepareChunk_wp hw hJ s _) _ (fun _ _ _ hF => hF)
      rintro s' st' h' ⟨hJ', chunk, text', hread, htook⟩
      obtain rfl : [] = chunk := Except.ok.inj hread
      obtain ⟨haccepted, hspooled⟩ := hs.finish htook
      rw [List.append_nil]
      exact ⟨hJ', _, haccepted, hspooled⟩
  | read :: later, reads, text, s, state, h, hJ, hs => by
      apply Program.wp_seq (prepareChunk_wp hw hJ s _)
      rintro s' st' h' ⟨hJ', chunk, text', hread, htook⟩
      cases read with
      | error e => cases hread
      | ok chunk' =>
          obtain rfl : chunk'.bytes = chunk := Except.ok.inj hread
          have hrest := prepareChunks_wp hw later hJ' (hs.step htook)
          rw [List.append_assoc] at hrest
          exact hrest

/-- The file holds the statements that its preview counts. -/
def PreparedSqlFile.Ready (db : DatabaseType) (text : Text) (p : PreparedSqlFile) : Prop :=
  p.Holds (splitSqlStatementsForDatabase text db)
    ∧ p.preview.statementCount = (splitSqlStatementsForDatabase text db).length

theorem prepareReader_wp (hw : Watched J F progress) (hJ : J state h) (sha256 : Bytes → Bytes)
    (reads : FileReads) (name : Text) (db : DatabaseType) :
  Program.wp (fun p st h => J st h ∧ ∃ text, Accepted db reads text ∧ p.Ready db text)
    (fun _ st h => F st h) (prepareReader sha256 reads name db progress) state h
  := by
  unfold prepareReader
  apply Program.wp_seq (spoolIo_wp hw hJ)
  intro _ st₁ h₁ hJ₁
  apply Program.wp_seq (prepareChunks_wp hw reads hJ₁ (Preparing.hasRead_nil db))
  rintro s st₂ h₂ ⟨hJ₂, text, haccepted, hspooled⟩
  apply Program.wp_seq (failIfCancelled_wp hw hJ₂)
  intro _ st₃ h₃ hJ₃
  apply Program.wp_seq (spoolIo_wp hw hJ₃)
  intro _ st₄ h₄ hJ₄
  apply Program.wp_seq (spoolIo_wp hw hJ₄)
  intro _ st₅ h₅ hJ₅
  refine ⟨hJ₅, text, haccepted, ?_, hspooled.total⟩
  exact ⟨hspooled.spool, hspooled.total, haccepted.fits⟩

theorem prepareSqlFile_wp (hw : Watched J F progress) (hJ : J state h) (sha256 : Bytes → Bytes)
    (path : Text) (db : DatabaseType) :
  Program.wp
    (fun p st h => J st h ∧ ∃ reads text, ⟨.openFile path, .ok reads⟩ ∈ h
      ∧ Accepted db reads text ∧ p.Ready db text)
    (fun _ st h => F st h) (prepareSqlFile sha256 path db progress) state h
  := by
  unfold prepareSqlFile
  apply Program.wp_seq (failIfCancelled_wp hw hJ)
  intro _ st₁ h₁ hJ₁
  refine Program.wp_ask_bind.2 fun opened => ?_
  have hopen : Quiet ⟨.openFile path, opened⟩ := trivial
  apply Program.wp_seq (Program.wp_kept (lift_wp hw (hw.quiet _ hopen hJ₁) _))
  rintro reads st₂ h₂ ⟨⟨hJ₂, hopened⟩, hextends⟩
  have hevent : ⟨.openFile path, .ok reads⟩ ∈ h₂ := by
    apply hextends.subset
    rw [Result.mapError_ok.mp hopened]
    exact List.mem_append_right _ List.mem_cons_self
  refine Program.wp_ask_bind.2 fun answered => ?_
  have hmetadata : Quiet ⟨.metadata path, answered⟩ := trivial
  apply Program.wp_seq (Program.wp_kept (lift_wp hw (hw.quiet _ hmetadata hJ₂) _))
  rintro ⟨isFile, len⟩ st₃ h₃ ⟨⟨hJ₃, -⟩, hextends'⟩
  have hevent' : ⟨.openFile path, .ok reads⟩ ∈ h₃ :=
    hextends'.subset (List.mem_append_left _ hevent)
  rw [Program.wp_ite]
  constructor
  · intro _
    exact hw.failed hJ₃
  · intro _
    apply Program.wp_seq (Program.wp_kept (lift_wp hw hJ₃ _))
    rintro _ st₄ h₄ ⟨⟨hJ₄, -⟩, hextends''⟩
    have hprepared := prepareReader_wp hw hJ₄ sha256 reads ((fileName path).getD "query.sql") db
    apply Program.wp_mono (Program.wp_kept hprepared) _ (fun _ _ _ hF => hF)
    rintro p st₅ h₅ ⟨⟨hJ₅, text, haccepted, hready⟩, hextends₅⟩
    exact ⟨hJ₅, reads, text, hextends₅.subset (hextends''.subset hevent'), haccepted, hready⟩

end

theorem watched_true {σ : Type} {progress : ℕ → SqlFileProgram σ Unit} :
  Watched (fun _ _ => True) (fun _ _ => True) progress
  where
  cancelled _ := trivial
  quiet _ _ _ := trivial
  failed _ := trivial
  progress n _ := Program.wp_true (progress n)

/-- A prepared file hands out exactly the statements of its decoded text, in order and then none,
and has announced their number. A file that is not accepted is never prepared. -/
theorem prepareReader_handsOut {σ : Type} (sha256 : Bytes → Bytes) (reads : FileReads) (name : Text)
    (db : DatabaseType) (progress : ℕ → SqlFileProgram σ Unit)
    (o : Program.Outside SqlFileCall.Answer) (state : σ)
    (history : List (Program.Event SqlFileCall.Answer)) :
  let result := (Program.run o (prepareReader sha256 reads name db progress) state history).1
  (∀ p, result = .ok p →
    ∃ text, decode (FileReads.bytes reads) = .ok text
      ∧ p.preview.statementCount = (splitSqlStatementsForDatabase text db).length
      ∧ ∀ n, p.nthStatement n = .ok (splitSqlStatementsForDatabase text db)[n]?)
  ∧ ((¬ ∃ text, Accepted db reads text) → ∃ error, result = .error error)
  := by
  intro result
  have hrun := Program.wp_run (s := state) o (prepareReader_wp (h := history)
    (@watched_true σ progress) trivial sha256 reads name db)
  have haccepted : ∀ p, result = .ok p → ∃ text, Accepted db reads text ∧ p.Ready db text := by
    intro p hp
    split at hrun
    · next heq =>
      simp only [result, heq, Except.ok.injEq] at hp
      subst hp
      exact hrun.2
    · next heq =>
      simp only [result, heq] at hp
      cases hp
  constructor
  · intro p hp
    obtain ⟨text, htext, hholds, hcount⟩ := haccepted p hp
    exact ⟨text, htext.decoded, hcount, fun n => hholds.nthStatement⟩
  · intro hnone
    cases hresult : result with
    | error e => exact ⟨e, rfl⟩
    | ok p =>
      obtain ⟨text, htext, -⟩ := haccepted p hresult
      exact absurd ⟨text, htext⟩ hnone

/-- An outside where every file delivers `reads`, nothing fails and nothing is cancelled. -/
def calmOutside (reads : FileReads) : Program.Outside SqlFileCall.Answer
  | _, .isCancelled => false
  | _, .now => (0 : ℕ)
  | _, .spoolIo => none
  | _, .openFile _ => .ok reads
  | _, .metadata _ => .ok (true, 0)
  | _, .emit _ => ()
  | _, .forkQuerySession => .ok ()
  | _, .queryCancellable _ => .ok (some 1)
  | _, .transactionState => .ok .idle
  | _, .closeQuerySession => .ok ()

def twoReads : FileReads :=
  [.ok ⟨Utf8.encode "SELECT 1; SEL", by decide, by decide⟩,
    .ok ⟨Utf8.encode "ECT 2", by decide, by decide⟩]

/-- A file that is read in two parts hands out both of its statements. -/
theorem prepareReader_handsOut_twoReads :
  ∃ p, (Program.run (calmOutside twoReads)
      (prepareReader (fun _ => []) twoReads "query.sql" .sqlite fun _ => pure ()) () []).1 = .ok p
    ∧ p.nthStatement 0 = .ok (some "SELECT 1") ∧ p.nthStatement 1 = .ok (some "SELECT 2")
    ∧ p.nthStatement 2 = .ok none
  := by
  obtain ⟨p, hp⟩ : ∃ p, (Program.run (calmOutside twoReads) (prepareReader (fun _ => []) twoReads
      "query.sql" .sqlite fun _ => pure ()) () []).1 = .ok p := ⟨_, rfl⟩
  obtain ⟨text, htext, -, hnext⟩ := (prepareReader_handsOut _ _ _ _ _ _ _ _).1 p hp
  obtain rfl : "SELECT 1; SELECT 2" = text := by
    have hdecoded : decode (FileReads.bytes twoReads) = .ok "SELECT 1; SELECT 2" := rfl
    exact Except.ok.inj (hdecoded.symm.trans htext)
  have hsplit : splitSqlStatementsForDatabase "SELECT 1; SELECT 2" .sqlite
      = ["SELECT 1", "SELECT 2"] := by decide +kernel
  rw [hsplit] at hnext
  exact ⟨p, hp, hnext 0, hnext 1, hnext 2⟩

end Db
