import Catio.Db.SqlFileIo.Prepare

/-!
# Executing SQL files

The history of a run of `execute_sql_file`: the reports it emits, the statements it sends
and what it observes.  `Sound` says what the history satisfies at every moment; the
preparation, one statement, the loop over the statements and the whole run keep it.
-/

namespace Db

open Text

/-- The calls of a run with their answers, in order. -/
abbrev History :=
  List (Program.Event SqlFileCall.Answer)

def reportOf : Program.Event SqlFileCall.Answer → Option SqlFileProgress
  | ⟨.emit report, _⟩ => some report
  | _ => none

def statementOf : Program.Event SqlFileCall.Answer → Option Text
  | ⟨.queryCancellable statement, _⟩ => some statement
  | _ => none

/-- The reports that have been emitted. -/
def History.reports (h : History) : List SqlFileProgress :=
  h.filterMap reportOf

/-- The statements that have been sent. -/
def History.sent (h : History) : List Text :=
  h.filterMap statementOf

/-- The cancellation is observed: the token is found cancelled, or the driver answers that
the query was. -/
def ObservesCancellation : Program.Event SqlFileCall.Answer → Prop
  | ⟨.isCancelled, cancelled⟩ => cancelled = true
  | ⟨.queryCancellable _, answer⟩ => answer = .error .cancelled
  | _ => False

/-- A failed statement is reported. -/
def ReportsFailure (e : Program.Event SqlFileCall.Answer) : Prop :=
  ∃ report, reportOf e = some report ∧ report.status = .statementFailed

/-- After such an event no statement may be sent: a cancellation, or a reported failure where
errors are not passed over. -/
def Halts (req : SqlFileRequest) (e : Program.Event SqlFileCall.Answer) : Prop :=
  ObservesCancellation e ∨ (req.continueOnError = false ∧ ReportsFailure e)

structure Counters where
  total : ℕ
  index : ℕ
  success : ℕ
  failure : ℕ

def SqlFileProgress.counters (report : SqlFileProgress) : Counters :=
  ⟨report.total, report.statementIndex, report.successCount, report.failureCount⟩

/-- One more statement has begun. -/
def Counters.begin (c : Counters) : Counters :=
  { c with index := c.index + 1 }

/-- One more statement has succeeded. -/
def Counters.succeed (c : Counters) : Counters :=
  { c with success := c.success + 1 }

/-- One more statement has failed. -/
def Counters.fail (c : Counters) : Counters :=
  { c with failure := c.failure + 1 }

/-- No more statements than there are have begun, and no more than have begun have ended. -/
structure Consistent (req : SqlFileRequest) (c : Counters) : Prop where
  index : c.index ≤ c.total
  counted : c.success + c.failure ≤ c.index
  failures : req.continueOnError = false → c.failure ≤ 1

/-- Every statement has ended. -/
def Complete (c : Counters) : Prop :=
  c.success + c.failure = c.index ∧ c.index = c.total

/-- What holds of the history at every moment of a run. -/
structure Sound (req : SqlFileRequest) (db : DatabaseType) (h : History) : Prop where
  consistent : ∀ report ∈ History.reports h, Consistent req report.counters
  done : ∀ report ∈ History.reports h, report.status = .done → Complete report.counters
  failures : req.continueOnError = false →
    ((History.reports h).filter (·.status = .statementFailed)).length ≤ 1
  halted : ∀ (pre : History) e (post : History), h = pre ++ e :: post → Halts req e →
    History.sent post = []
  order : History.sent h = [] ∨ ∃ reads text,
    ⟨.openFile req.filePath, .ok reads⟩ ∈ h ∧ Accepted db reads text
      ∧ History.sent h <+: splitSqlStatementsForDatabase text db

/-- No halting event has happened yet. -/
def Live (req : SqlFileRequest) (h : History) : Prop :=
  ∀ e ∈ h, ¬ Halts req e

/-! ### What a call adds to the history -/

section

variable {req : SqlFileRequest} {db : DatabaseType} {h : History}
  {e : Program.Event SqlFileCall.Answer}

theorem reports_append (h : History) (e : Program.Event SqlFileCall.Answer) :
  History.reports (h ++ [e]) = History.reports h ++ (reportOf e).toList
  := by
  rw [History.reports, List.filterMap_append]
  cases he : reportOf e with
  | none => simp [History.reports, he]
  | some report => simp [History.reports, he]

theorem sent_append (h : History) (e : Program.Event SqlFileCall.Answer) :
  History.sent (h ++ [e]) = History.sent h ++ (statementOf e).toList
  := by
  rw [History.sent, List.filterMap_append]
  cases he : statementOf e with
  | none => simp [History.sent, he]
  | some statement => simp [History.sent, he]

theorem Live.append (hl : Live req h) (he : ¬ Halts req e) :
  Live req (h ++ [e])
  := by
  intro x hx
  rcases List.mem_append.1 hx with hold | hnew
  · exact hl x hold
  · rw [List.mem_singleton.1 hnew]
    exact he

theorem halted_append
    (hh : ∀ (pre : History) e (post : History), h = pre ++ e :: post → Halts req e →
      History.sent post = [])
    (he : Live req h ∨ statementOf e = none) {pre post : History}
    {x : Program.Event SqlFileCall.Answer} (heq : h ++ [e] = pre ++ x :: post) (hx : Halts req x) :
  History.sent post = []
  := by
  rcases List.eq_nil_or_concat post with rfl | ⟨post, y, rfl⟩
  · rfl
  · have hconcat : h ++ [e] = (pre ++ x :: post) ++ [y] := by
      rw [heq]
      simp
    obtain ⟨rfl, hy⟩ := List.append_inj' hconcat rfl
    obtain rfl : e = y := List.head_eq_of_cons_eq hy
    rcases he with hlive | hsilent
    · exact absurd hx (hlive x (by simp))
    · rw [List.concat_eq_append, sent_append, hsilent, hh pre x post rfl hx]
      rfl

theorem Sound.order_append (hs : Sound req db h) (hq : statementOf e = none) :
  History.sent (h ++ [e]) = [] ∨ ∃ reads text,
    ⟨.openFile req.filePath, .ok reads⟩ ∈ h ++ [e] ∧ Accepted db reads text
      ∧ History.sent (h ++ [e]) <+: splitSqlStatementsForDatabase text db
  := by
  have hsent : History.sent (h ++ [e]) = History.sent h := by
    rw [sent_append, hq]
    simp
  rw [hsent]
  rcases hs.order with hnone | ⟨reads, text, hopened, haccepted, hprefix⟩
  · exact .inl hnone
  · exact .inr ⟨reads, text, List.mem_append_left _ hopened, haccepted, hprefix⟩

theorem Sound.look (hs : Sound req db h) (hr : reportOf e = none) (hq : statementOf e = none) :
  Sound req db (h ++ [e])
  := by
  have hreports : History.reports (h ++ [e]) = History.reports h := by
    rw [reports_append, hr]
    simp
  exact {
    consistent := by
      rw [hreports]
      exact hs.consistent
    done := by
      rw [hreports]
      exact hs.done
    failures := by
      rw [hreports]
      exact hs.failures
    halted := fun pre x post heq hx => halted_append hs.halted (.inr hq) heq hx
    order := hs.order_append hq }

theorem Sound.report {r : SqlFileProgress} (hs : Sound req db h) (hc : Consistent req r.counters)
    (hd : r.status = .done → Complete r.counters)
    (hf : req.continueOnError = false → r.status = .statementFailed →
      ∀ other ∈ History.reports h, other.status ≠ .statementFailed) :
  Sound req db (h ++ [⟨.emit r, ()⟩])
  := by
  have hreports : History.reports (h ++ [⟨.emit r, ()⟩]) = History.reports h ++ [r] := by
    rw [reports_append]
    rfl
  exact {
    consistent := by
      rw [hreports]
      intro other hother
      rcases List.mem_append.1 hother with hold | hnew
      · exact hs.consistent other hold
      · rw [List.mem_singleton.1 hnew]
        exact hc
    done := by
      rw [hreports]
      intro other hother
      rcases List.mem_append.1 hother with hold | hnew
      · exact hs.done other hold
      · rw [List.mem_singleton.1 hnew]
        exact hd
    failures := by
      intro hcont
      rw [hreports, List.filter_append, List.length_append]
      by_cases hfailed : r.status = .statementFailed
      · have hnone : (History.reports h).filter (·.status = .statementFailed) = [] := by
          rw [List.filter_eq_nil_iff]
          intro other hother
          simpa using hf hcont hfailed other hother
        simp [hnone, hfailed]
      · have hold := hs.failures hcont
        simpa [hfailed] using hold
    halted := fun pre x post heq hx => halted_append hs.halted (.inr rfl) heq hx
    order := hs.order_append rfl }

theorem Sound.send {statement : Text} {answer : Except DbError (Option ℕ)} (hs : Sound req db h)
    (hl : Live req h) {reads : FileReads} {text : Text}
    (hopened : ⟨.openFile req.filePath, .ok reads⟩ ∈ h) (haccepted : Accepted db reads text)
    (hnext : History.sent h ++ [statement] <+: splitSqlStatementsForDatabase text db) :
  Sound req db (h ++ [⟨.queryCancellable statement, answer⟩])
  := by
  have hreports : History.reports (h ++ [⟨.queryCancellable statement, answer⟩])
      = History.reports h := by
    rw [reports_append]
    apply List.append_nil
  exact {
    consistent := by
      rw [hreports]
      exact hs.consistent
    done := by
      rw [hreports]
      exact hs.done
    failures := by
      rw [hreports]
      exact hs.failures
    halted := fun pre x post heq hx => halted_append hs.halted (.inl hl) heq hx
    order := by
      rw [sent_append]
      exact .inr ⟨reads, text, List.mem_append_left _ hopened, haccepted, hnext⟩ }

end

/-! ### The phases of a run -/

variable {e : Program.Event SqlFileCall.Answer}

theorem Quiet.reportOf (he : Quiet e) :
  Db.reportOf e = none
  := by
  obtain ⟨c, r⟩ := e
  cases c with
  | emit report => exact absurd he id
  | _ => rfl

theorem Quiet.statementOf (he : Quiet e) :
  Db.statementOf e = none
  := by
  obtain ⟨c, r⟩ := e
  cases c with
  | queryCancellable statement => exact absurd he id
  | _ => rfl

theorem Quiet.not_halts (he : Quiet e) (req : SqlFileRequest) :
  ¬ Halts req e
  := by
  rintro (hcancel | ⟨-, report, hreport, -⟩)
  · obtain ⟨c, r⟩ := e
    cases c with
    | isCancelled =>
      obtain rfl : r = false := he
      cases hcancel
    | queryCancellable statement => exact he
    | _ => exact hcancel
  · rw [he.reportOf] at hreport
    cases hreport

/-- Until the first statement: nothing is sent, nothing is counted and nothing failed. -/
structure Starting (req : SqlFileRequest) (db : DatabaseType) (s : Execution) (h : History) :
    Prop where
  sound : Sound req db h
  live : Live req h
  unsent : History.sent h = []
  unfailed : ∀ report ∈ History.reports h, report.status ≠ .statementFailed
  counters : s.receipt.counters = ⟨0, 0, 0, 0⟩
  status : s.receipt.status = .started

/-- From the first failure on: the history is sound and the counters are consistent. -/
structure Stopped (req : SqlFileRequest) (db : DatabaseType) (s : Execution) (h : History) :
    Prop where
  sound : Sound req db h
  consistent : Consistent req s.receipt.counters

/-- While statements are executed: the statements of the file are those sent and those
left. -/
structure Running (req : SqlFileRequest) (db : DatabaseType) (statements left : List Text)
    (c : Counters) (h : History) : Prop where
  sound : Sound req db h
  live : Live req h
  source : ∃ reads text, ⟨.openFile req.filePath, .ok reads⟩ ∈ h ∧ Accepted db reads text
    ∧ statements = splitSqlStatementsForDatabase text db
  split : statements = History.sent h ++ left
  total : c.total = statements.length
  index : c.index ≤ c.total
  counted : c.success + c.failure ≤ c.index
  failures : req.continueOnError = false → c.failure = 0
  unfailed : req.continueOnError = false →
    ∀ report ∈ History.reports h, report.status ≠ .statementFailed

section

variable {req : SqlFileRequest} {db : DatabaseType} {s : Execution} {h : History}
  {e : Program.Event SqlFileCall.Answer} {statements left : List Text} {c : Counters}

theorem consistent_zero (req : SqlFileRequest) : Consistent req ⟨0, 0, 0, 0⟩ where
  index := Nat.le_refl 0
  counted := Nat.le_refl 0
  failures _ := Nat.zero_le 1

theorem Starting.stopped (hs : Starting req db s h) : Stopped req db s h where
  sound := hs.sound
  consistent := hs.counters ▸ consistent_zero req

theorem Starting.look (hs : Starting req db s h) (he : Quiet e) :
  Starting req db s (h ++ [e])
  where
  sound := hs.sound.look he.reportOf he.statementOf
  live := hs.live.append (he.not_halts req)
  unsent := by rw [sent_append, he.statementOf, hs.unsent]; rfl
  unfailed := by
    rw [reports_append, he.reportOf, Option.toList_none, List.append_nil]
    exact hs.unfailed
  counters := hs.counters
  status := hs.status

theorem Stopped.look (hs : Stopped req db s h) (hr : reportOf e = none)
    (hq : statementOf e = none) :
  Stopped req db s (h ++ [e])
  where
  sound := hs.sound.look hr hq
  consistent := hs.consistent

theorem Starting.report (hs : Starting req db s h) :
  Starting req db s (h ++ [⟨.emit s.receipt, ()⟩])
  where
  sound := by
    apply hs.sound.report
    · rw [hs.counters]
      exact consistent_zero req
    · intro hdone
      rw [hs.status] at hdone
      cases hdone
    · intro _ _
      exact hs.unfailed
  live := by
    apply hs.live.append
    rintro (hcancel | ⟨-, report, hreport, hfailed⟩)
    · exact hcancel
    · obtain rfl : s.receipt = report := Option.some.inj hreport
      rw [hs.status] at hfailed
      cases hfailed
  unsent := by rw [sent_append, hs.unsent]; rfl
  unfailed := by
    intro report hreport
    rw [reports_append] at hreport
    rcases List.mem_append.1 hreport with hold | hnew
    · exact hs.unfailed report hold
    · rw [List.mem_singleton.1 hnew, hs.status]
      simp
  counters := hs.counters
  status := hs.status

theorem Running.consistent (hr : Running req db statements left c h) : Consistent req c where
  index := hr.index
  counted := hr.counted
  failures hcont := by rw [hr.failures hcont]; apply Nat.zero_le

theorem Running.source_append (hr : Running req db statements left c h)
    (e : Program.Event SqlFileCall.Answer) :
  ∃ reads text, ⟨.openFile req.filePath, .ok reads⟩ ∈ h ++ [e] ∧ Accepted db reads text
    ∧ statements = splitSqlStatementsForDatabase text db
  := by
  obtain ⟨reads, text, hopened, haccepted, hall⟩ := hr.source
  exact ⟨reads, text, List.mem_append_left _ hopened, haccepted, hall⟩

theorem Running.look (hr : Running req db statements left c h) (he : Quiet e) :
  Running req db statements left c (h ++ [e])
  where
  sound := hr.sound.look he.reportOf he.statementOf
  live := hr.live.append (he.not_halts req)
  source := hr.source_append _
  split := by
    rw [sent_append, he.statementOf, Option.toList_none, List.append_nil]
    exact hr.split
  total := hr.total
  index := hr.index
  counted := hr.counted
  failures := hr.failures
  unfailed := by
    rw [reports_append, he.reportOf, Option.toList_none, List.append_nil]
    exact hr.unfailed

theorem Running.report {r : SqlFileProgress} (hr : Running req db statements left r.counters h)
    (hd : r.status ≠ .done) (hf : req.continueOnError = false → r.status ≠ .statementFailed) :
  Running req db statements left r.counters (h ++ [⟨.emit r, ()⟩])
  where
  sound := by
    apply hr.sound.report hr.consistent
    · intro hdone
      exact absurd hdone hd
    · intro hcont _
      exact hr.unfailed hcont
  live := by
    apply hr.live.append
    rintro (hcancel | ⟨hcont, other, hother, hfailed⟩)
    · exact hcancel
    · obtain rfl : r = other := Option.some.inj hother
      exact hf hcont hfailed
  source := hr.source_append _
  split := by
    rw [sent_append]
    exact hr.split.trans (by simp [statementOf])
  total := hr.total
  index := hr.index
  counted := hr.counted
  failures := hr.failures
  unfailed := by
    intro hcont other hother
    rw [reports_append] at hother
    rcases List.mem_append.1 hother with hold | hnew
    · exact hr.unfailed hcont other hold
    · rw [List.mem_singleton.1 hnew]
      exact hf hcont

variable {E : DbError → Execution → History → Prop} {started : ℕ} {statement : Text}

theorem Running.send {answer : Except DbError (Option ℕ)}
    (hr : Running req db statements (statement :: left) c h) :
  Sound req db (h ++ [⟨.queryCancellable statement, answer⟩])
  := by
  obtain ⟨reads, text, hopened, haccepted, hall⟩ := hr.source
  apply hr.sound.send hr.live hopened haccepted
  rw [← hall, hr.split]
  exact ⟨left, by simp⟩

theorem Running.sent {a : Except DbError (Option ℕ)}
    (hr : Running req db statements (statement :: left) c h) (ha : a ≠ .error .cancelled) :
  Running req db statements left c (h ++ [⟨.queryCancellable statement, a⟩])
  where
  sound := hr.send
  live := by
    apply hr.live.append
    rintro (hcancel | ⟨-, report, hreport, -⟩)
    · exact ha hcancel
    · cases hreport
  source := hr.source_append _
  split := by
    rw [sent_append]
    exact hr.split.trans (by simp [statementOf])
  total := hr.total
  index := hr.index
  counted := hr.counted
  failures := hr.failures
  unfailed := by
    rw [reports_append]
    exact (List.append_nil _).symm ▸ hr.unfailed

/-! ### One statement -/

theorem Running.emitElapsed_wp (hr : Running req db statements left c h)
    (hs : s.receipt.counters = c) (hd : s.receipt.status ≠ .done)
    (hf : req.continueOnError = false → s.receipt.status ≠ .statementFailed) :
  Program.wp
    (fun _ s' h' => Running req db statements left c h' ∧ s'.receipt.counters = c
      ∧ History.sent h' = History.sent h)
    E (emitElapsed started) s h
  := by
  subst hs
  intro now _
  have hlook := hr.look (e := ⟨.now, now⟩) trivial
  refine ⟨hlook.report (r := { s.receipt with elapsedMs := now - started }) hd hf, rfl, ?_⟩
  rw [sent_append, sent_append]
  simp [Db.statementOf]

theorem Sound.emitElapsed_wp (hs : Sound req db h) (hc : Consistent req s.receipt.counters)
    (hd : s.receipt.status = .done → Complete s.receipt.counters)
    (hf : req.continueOnError = false → s.receipt.status = .statementFailed →
      ∀ other ∈ History.reports h, other.status ≠ .statementFailed) :
  Program.wp
    (fun _ s' h' => Stopped req db s' h' ∧ s'.receipt ∈ History.reports h')
    E (emitElapsed started) s h
  := by
  intro now _
  have hlook : Sound req db (h ++ [⟨.now, now⟩]) := hs.look rfl rfl
  have hreports : History.reports (h ++ [⟨.now, now⟩]) = History.reports h := by
    rw [reports_append]
    apply List.append_nil
  refine ⟨⟨?_, hc⟩, ?_⟩
  · apply hlook.report (r := { s.receipt with elapsedMs := now - started }) hc hd
    rw [hreports]
    exact hf
  · rw [reports_append]
    exact List.mem_append_right _ List.mem_cons_self

/-- At a statement of the file: every statement sent so far has begun and ended. -/
structure Counted (req : SqlFileRequest) (db : DatabaseType) (statements left : List Text)
    (c : Counters) (h : History) : Prop where
  running : Running req db statements left c h
  ended : c.success + c.failure = c.index
  begun : c.index = (History.sent h).length

theorem Counted.begin (hc : Counted req db statements (statement :: left) c h) :
  Running req db statements (statement :: left) c.begin h
  := by
  have hsplit := congrArg List.length hc.running.split
  rw [List.length_append, List.length_cons, ← hc.running.total, ← hc.begun] at hsplit
  exact {
    hc.running with
    index := by
      simp only [Counters.begin]
      omega
    counted := Nat.le_succ_of_le (Nat.le_of_eq hc.ended) }

/-- A statement is sent and counted, or the run stops. -/
theorem executeStatement_wp
    (hc : Counted req db statements (statement :: left) s.receipt.counters h) :
  Program.wp (fun _ s' h' => Counted req db statements left s'.receipt.counters h')
    (fun _ s' h' => Stopped req db s' h') (executeStatement req started statement) s h
  := by
  unfold executeStatement
  obtain ⟨c, hs⟩ : ∃ c, s.receipt.counters = c := ⟨_, rfl⟩
  rw [hs] at hc
  refine Program.wp_update_bind.2 ?_
  refine Program.wp_seq (hc.begin.emitElapsed_wp ?_ (by simp) (by simp)) ?_
  · exact congrArg Counters.begin hs
  rintro _ s₁ h₁ ⟨hr₁, hs₁, hsent⟩
  refine Program.wp_ask_bind.2 fun answer => ?_
  have hbegun : (History.sent (h₁ ++ [⟨.queryCancellable statement, answer⟩])).length
      = c.index + 1 := by
    rw [sent_append, List.length_append, hsent, ← hc.begun]
    rfl
  have hended := hc.ended
  cases answer with
  | ok rowsAffected =>
    have hdone : Running req db statements left c.begin.succeed _ := {
      hr₁.sent (a := .ok rowsAffected) (by simp) with
      counted := by
        simp only [Counters.begin, Counters.succeed]
        omega }
    refine Program.wp_update_bind.2 ?_
    refine Program.wp_mono (hdone.emitElapsed_wp ?_ (by simp) (by simp)) ?_ (fun _ _ _ hF => hF)
    · exact congrArg Counters.succeed hs₁
    · rintro _ s₂ h₂ ⟨hr₂, hs₂, hsent₂⟩
      rw [hs₂]
      exact {
        running := hr₂
        ended := by
          simp only [Counters.begin, Counters.succeed]
          omega
        begun := by rw [hsent₂, hbegun]; rfl }
  | error error =>
    refine Program.wp_ask_bind.2 fun cancelled => ?_
    have hsound : Sound req db (h₁ ++ [⟨.queryCancellable statement, .error error⟩]
        ++ [⟨.isCancelled, cancelled⟩]) := hr₁.send.look rfl rfl
    rw [Program.wp_ite]
    constructor
    · intro _
      exact ⟨hsound, hs₁ ▸ hr₁.consistent⟩
    · intro hpassed
      obtain ⟨hlive, herror⟩ := not_or.1 hpassed
      have hquiet : Quiet ⟨.isCancelled, cancelled⟩ := by simpa [Quiet] using hlive
      have hanswered := (hr₁.sent (a := .error error) (by simpa using herror)).look hquiet
      have hcounted : c.begin.fail.success + c.begin.fail.failure ≤ c.begin.fail.index := by
        simp only [Counters.begin, Counters.fail]
        omega
      refine Program.wp_update_bind.2 ?_
      have hs₂ := congrArg Counters.fail hs₁
      cases hcont : req.continueOnError with
      | true =>
        -- the failure is counted and passed over
        have hfailed : Running req db statements left c.begin.fail _ := {
          hanswered with
          counted := hcounted
          failures := by simp [hcont] }
        refine Program.wp_seq (hfailed.emitElapsed_wp ?_ (by simp) (by simp [hcont])) ?_
        · exact hs₂
        · rintro _ s₃ h₃ ⟨hr₃, hs₃, hsent₃⟩
          rw [Program.wp_ite]
          constructor
          · intro hfalse
            exact absurd rfl hfalse
          · intro _
            rw [Program.wp_pure, hs₃]
            exact {
              running := hr₃
              ended := by
                simp only [Counters.begin, Counters.fail]
                omega
              begun := by
                rw [hsent₃, sent_append, List.length_append, hbegun]
                rfl }
      | false =>
        -- the failure is the first one, and the last report but one
        have hfirst : c.failure = 0 := hc.running.failures hcont
        have hconsistent : Consistent req c.begin.fail := {
          index := hanswered.index
          counted := hcounted
          failures := by
            intro _
            simp only [Counters.begin, Counters.fail]
            omega }
        rw [← hs₂] at hconsistent
        refine Program.wp_seq (hsound.emitElapsed_wp ?_ (by simp) ?_) ?_
        · exact hconsistent
        · intro _ _
          exact hanswered.unfailed hcont
        · rintro _ s₃ h₃ ⟨hstopped, -⟩
          rw [Program.wp_ite]
          constructor
          · intro _
            exact hstopped
          · intro hfalse
            simp at hfalse

/-! ### The loop over the statements -/

theorem Counted.look (hc : Counted req db statements left c h) (he : Quiet e) :
  Counted req db statements left c (h ++ [e])
  where
  running := hc.running.look he
  ended := hc.ended
  begun := by rw [sent_append, he.statementOf, Option.toList_none, List.append_nil, hc.begun]

theorem Counted.stopped (hc : Counted req db statements left s.receipt.counters h) :
  Stopped req db s h
  := ⟨hc.running.sound, hc.running.consistent⟩

theorem Counted.failIfCancelled_wp (hc : Counted req db statements left s.receipt.counters h) :
  Program.wp (fun _ s' h' => s' = s ∧ Counted req db statements left s.receipt.counters h')
    (fun _ s' h' => Stopped req db s' h') failIfCancelled s h
  := by
  intro cancelled
  cases cancelled with
  | true => exact hc.stopped.look rfl rfl
  | false => exact ⟨rfl, hc.look rfl⟩

theorem executeStatements_wp :
  ∀ {left : List Text} {fuel : ℕ} {prepared : PreparedSqlFile} {s : Execution} {h : History},
    prepared.Holds left → left.length < fuel →
    Counted req db statements left s.receipt.counters h →
    Program.wp (fun _ s' h' => Counted req db statements [] s'.receipt.counters h')
      (fun _ s' h' => Stopped req db s' h') (executeStatements req started fuel prepared) s h
  | _, 0, _, _, _, _, hfuel, _ => absurd hfuel (Nat.not_lt_zero _)
  | [], fuel + 1, prepared, s, h, hholds, _, hc => by
      simp only [executeStatements, hholds.next_nil]
      apply Program.wp_mono hc.failIfCancelled_wp _ (fun _ _ _ hF => hF)
      rintro _ s' h' ⟨rfl, hc'⟩
      exact hc'
  | statement :: left, fuel + 1, prepared, s, h, hholds, hfuel, hc => by
      obtain ⟨prepared', hnext, hholds'⟩ := hholds.next_cons
      simp only [executeStatements, hnext]
      apply Program.wp_seq hc.failIfCancelled_wp
      rintro _ s' h' ⟨rfl, hc'⟩
      apply Program.wp_seq (executeStatement_wp hc')
      intro _ s'' h'' hc''
      exact executeStatements_wp hholds' (Nat.lt_of_succ_lt_succ hfuel) hc''

theorem Counted.complete (hc : Counted req db statements [] c h) : Complete c := by
  have hsplit := congrArg List.length hc.running.split
  rw [List.append_nil, ← hc.running.total, ← hc.begun] at hsplit
  exact ⟨hc.ended, hsplit.symm⟩

/-! ### The session -/

theorem openSession_wp (isolated : Bool)
    (hc : Counted req db statements left s.receipt.counters h) :
  Program.wp (fun _ s' h' => s' = s ∧ Counted req db statements left s.receipt.counters h')
    (fun _ s' h' => Stopped req db s' h') (openSession isolated) s h
  := by
  rw [openSession, Program.wp_ite]
  constructor
  · intro _
    refine Program.wp_ask_bind.2 fun forked => ?_
    have hforked : Quiet ⟨.forkQuerySession, forked⟩ := trivial
    rw [Program.wp_lift]
    constructor
    · intro _ _
      exact ⟨rfl, hc.look hforked⟩
    · intro _ _
      exact (hc.look hforked).stopped
  · intro _
    exact ⟨rfl, hc⟩

/-- The statements of a run have stopped, and if they succeeded, every statement has
ended. -/
def Ended (req : SqlFileRequest) (db : DatabaseType) (result : Except DbError Unit) (s : Execution)
    (h : History) : Prop :=
  Stopped req db s h ∧ (result = .ok () → Complete s.receipt.counters)

theorem Ended.lift_wp {result : Except DbError Unit} (he : Ended req db result s h) :
  Program.wp (fun _ s' h' => Stopped req db s' h' ∧ Complete s'.receipt.counters)
    (fun _ s' h' => Stopped req db s' h') (liftM result : SqlFileProgram Execution Unit) s h
  := by
  rw [Program.wp_lift]
  constructor
  · intro _ hok
    exact ⟨he.1, he.2 hok⟩
  · intro _ _
    exact he.1

theorem closeSession_wp (isolated : Bool) {result : Except DbError Unit}
    (he : Ended req db result s h) :
  Program.wp (fun _ s' h' => Stopped req db s' h' ∧ Complete s'.receipt.counters)
    (fun _ s' h' => Stopped req db s' h') (closeSession isolated result) s h
  := by
  rw [closeSession, Program.wp_ite]
  constructor
  · intro _
    refine Program.wp_ask_bind.2 fun state => ?_
    refine Program.wp_ask_bind.2 fun closed => ?_
    have he' : Ended req db result s (h ++ [⟨.transactionState, state⟩]
        ++ [⟨.closeQuerySession, closed⟩]) :=
      ⟨(he.1.look rfl rfl).look rfl rfl, he.2⟩
    cases closed with
    | error error => exact he'.1
    | ok _ =>
      refine (Program.wp_ite _ _).2 ⟨?_, ?_⟩
      · intro _
        exact he'.1
      · intro _
        exact he'.lift_wp
  · intro _
    exact he.lift_wp

theorem executePrepared_wp {driver : Driver} {prepared : PreparedSqlFile}
    (hholds : prepared.Holds left) (hc : Counted req db statements left s.receipt.counters h) :
  Program.wp (fun _ s' h' => Stopped req db s' h' ∧ Complete s'.receipt.counters)
    (fun _ s' h' => Stopped req db s' h') (executePrepared driver req started prepared) s h
  := by
  unfold executePrepared
  apply Program.wp_seq (openSession_wp _ hc)
  rintro _ s₁ h₁ ⟨rfl, hc₁⟩
  have hrun : Program.wp (fun result s' h' => Ended req db result s' h')
      (fun (_ : DbError) s' h' => Stopped req db s' h')
      (Program.attempt do
        updateReceipt fun receipt => { receipt with phase := some "executing" }
        executeStatements req started (prepared.remaining + 1) prepared) s₁ h₁ := by
    rw [Program.wp_attempt]
    refine Program.wp_update_bind.2 ?_
    have hfuel : left.length < prepared.remaining + 1 := by
      rw [hholds.remaining]
      apply Nat.lt_succ_self
    refine Program.wp_mono (executeStatements_wp hholds hfuel hc₁) ?_ ?_
    · intro _ s₂ h₂ hc₂
      exact ⟨hc₂.stopped, fun _ => hc₂.complete⟩
    · intro _ s₂ h₂ hstopped
      exact ⟨hstopped, by simp⟩
  apply Program.wp_seq hrun
  intro result s₂ h₂ he
  exact closeSession_wp _ he

/-! ### The whole run -/

theorem Starting.of_receipt {t : Execution} (hs : Starting req db s h)
    (hcounters : t.receipt.counters = s.receipt.counters)
    (hstatus : t.receipt.status = s.receipt.status) :
  Starting req db t h
  where
  sound := hs.sound
  live := hs.live
  unsent := hs.unsent
  unfailed := hs.unfailed
  counters := hcounters.trans hs.counters
  status := hstatus.trans hs.status

theorem Starting.emitElapsed_wp (hs : Starting req db s h) :
  Program.wp (fun _ t h' => Starting req db t h') E (emitElapsed started) s h
  := by
  intro now _
  have hlook := hs.look (e := ⟨.now, now⟩) trivial
  exact (hlook.of_receipt
    (t := { s with receipt := { s.receipt with elapsedMs := now - started } }) rfl rfl).report

theorem reportRead_wp {started read : ℕ} (hs : Starting req db s h) :
  Program.wp (fun _ s' h' => Starting req db s' h') (fun _ s' h' => Stopped req db s' h')
    (reportRead started read) s h
  := by
  unfold reportRead
  refine Program.wp_update_bind.2 ?_
  refine Program.wp_ask_bind.2 fun now => ?_
  refine Program.wp_load_bind.2 ?_
  have hlook := (hs.of_receipt (t := { s with receipt := { s.receipt with
    bytesRead := some read } }) rfl rfl).look (e := ⟨.now, now⟩) trivial
  rw [Program.wp_ite]
  constructor
  · intro _
    apply Program.wp_seq hlook.emitElapsed_wp
    intro _ s₁ h₁ hs₁
    refine Program.wp_ask_bind.2 fun now' => ?_
    exact (hs₁.look (e := ⟨.now, now'⟩) trivial).of_receipt rfl rfl
  · intro _
    exact hlook

theorem watched_starting (started : ℕ) :
  Watched (Starting req db) (Stopped req db) (reportRead started)
  where
  cancelled hs := hs.stopped.look rfl rfl
  quiet _ he hs := hs.look he
  failed hs := hs.stopped
  progress _ hs := reportRead_wp hs

theorem Starting.counted {prepared : PreparedSqlFile} {reads : FileReads} {text : Text}
    (hs : Starting req db s h) (hopened : ⟨.openFile req.filePath, .ok reads⟩ ∈ h)
    (haccepted : Accepted db reads text) (hready : prepared.Ready db text) :
  Counted req db (splitSqlStatementsForDatabase text db) (splitSqlStatementsForDatabase text db)
    ⟨prepared.preview.statementCount, 0, 0, 0⟩ h
  where
  running := {
    sound := hs.sound
    live := hs.live
    source := ⟨reads, text, hopened, haccepted, rfl⟩
    split := by rw [hs.unsent, List.nil_append]
    total := hready.2
    index := Nat.zero_le _
    counted := Nat.le_refl 0
    failures := fun _ => rfl
    unfailed := fun _ => hs.unfailed }
  ended := rfl
  begun := by rw [hs.unsent]; rfl

theorem prepareAndExecute_wp (sha256 : Bytes → Bytes) (driver : Driver)
    (hs : Starting req driver.dbType s h) :
  Program.wp (fun _ s' h' => Stopped req driver.dbType s' h' ∧ Complete s'.receipt.counters)
    (fun _ s' h' => Stopped req driver.dbType s' h')
    (prepareAndExecute sha256 driver req started) s h
  := by
  rw [prepareAndExecute, Program.wp_ite]
  constructor
  · intro _
    exact hs.stopped
  · intro _
    refine Program.wp_ask_bind.2 fun now => ?_
    refine Program.wp_update_bind.2 ?_
    have hlook := (hs.look (e := ⟨.now, now⟩) trivial).of_receipt (t := { s with lastEmit := now })
      rfl rfl
    apply Program.wp_seq (prepareSqlFile_wp (watched_starting started) hlook sha256 req.filePath
      driver.dbType)
    rintro prepared s₁ h₁ ⟨hs₁, reads, text, hopened, haccepted, hready⟩
    refine Program.wp_update_bind.2 ?_
    have hcounters := congrArg
      (fun c => { c with total := prepared.preview.statementCount : Counters }) hs₁.counters
    have hcounted := hs₁.counted hopened haccepted hready
    rw [← hcounters] at hcounted
    rw [Program.wp_ite]
    constructor
    · intro _
      exact ⟨hcounted.running.sound, hcounted.running.consistent⟩
    · intro _
      refine Program.wp_seq (Counted.failIfCancelled_wp hcounted) ?_
      · rintro _ s₂ h₂ ⟨rfl, hcounted₂⟩
        exact executePrepared_wp hready.1 hcounted₂

theorem sound_nil (req : SqlFileRequest) (db : DatabaseType) : Sound req db [] where
  consistent := by simp [History.reports]
  done := by simp [History.reports]
  failures _ := by simp [History.reports]
  halted := by simp
  order := .inl rfl

theorem starting_started (req : SqlFileRequest) (db : DatabaseType) (now : ℕ) :
  Starting req db { receipt := startedReceipt req, lastEmit := 0 } [⟨.now, now⟩]
  where
  sound := (sound_nil req db).look rfl rfl
  live := by
    intro e he
    rw [List.mem_singleton.1 he]
    exact Quiet.not_halts (e := ⟨.now, now⟩) trivial req
  unsent := rfl
  unfailed := by simp [History.reports, Db.reportOf]
  counters := rfl
  status := rfl

theorem executeSqlFile_wp (sha256 : Bytes → Bytes) (driver : Driver) (req : SqlFileRequest)
    (s : Execution) :
  Program.wp
    (fun receipt _ h => Sound req driver.dbType h ∧ receipt ∈ History.reports h)
    (fun _ _ _ => False) (executeSqlFile sha256 driver req) s []
  := by
  unfold executeSqlFile
  refine Program.wp_ask_bind.2 fun now => ?_
  refine Program.wp_update_bind.2 ?_
  have hreported : Program.wp (fun _ s' h' => Starting req driver.dbType s' h')
      (fun (_ : DbError) _ _ => False) emitReceipt
      { receipt := startedReceipt req, lastEmit := 0 } [⟨.now, now⟩] :=
    fun _ => (starting_started req driver.dbType now).report
  apply Program.wp_seq hreported
  intro _ s₁ h₁ hs₁
  have hrun : Program.wp (fun result s' h' => Ended req driver.dbType result s' h')
      (fun (_ : DbError) _ _ => False)
      (Program.attempt (prepareAndExecute sha256 driver req now)) s₁ h₁ := by
    rw [Program.wp_attempt]
    apply Program.wp_mono (prepareAndExecute_wp sha256 driver hs₁)
    · rintro _ s₂ h₂ ⟨hstopped, hcomplete⟩
      exact ⟨hstopped, fun _ => hcomplete⟩
    · intro _ s₂ h₂ hstopped
      exact ⟨hstopped, by simp⟩
  apply Program.wp_seq hrun
  rintro result s₂ h₂ ⟨hstopped, hcomplete⟩
  refine Program.wp_update_bind.2 ?_
  refine Program.wp_seq (hstopped.sound.emitElapsed_wp ?_ ?_ ?_) ?_
  · exact hstopped.consistent
  · intro hdone
    -- only a run without an error is reported as done
    match result, hcomplete, hdone with
    | .ok (), hcomplete, _ => exact hcomplete rfl
  · intro _ hfailed
    match result, hfailed with
    | .ok (), hfailed => cases hfailed
    | .error e, hfailed => cases e <;> cases hfailed
  · rintro _ s₃ h₃ ⟨hstopped₃, hmem⟩
    exact ⟨hstopped₃.sound, hmem⟩

end

/-- Every run of `execute_sql_file` returns a receipt that it reported, in a history in which every
report is consistent, a done one complete, at most one failure is reported unless errors are passed
over, nothing is sent after it or after a cancellation, and what is sent are the first statements of
the file, in order. -/
theorem executeSqlFile_sound (sha256 : Bytes → Bytes) (driver : Driver) (req : SqlFileRequest)
    (o : Program.Outside SqlFileCall.Answer) (s : Execution) :
  let (result, _, history) := Program.run o (executeSqlFile sha256 driver req) s []
  Sound req driver.dbType history
    ∧ ∃ receipt, result = .ok receipt ∧ receipt ∈ History.reports history
  := by
  have hrun := Program.wp_run o (executeSqlFile_wp sha256 driver req s)
  split at hrun
  · next receipt _ h heq =>
    simp only [heq]
    exact ⟨hrun.1, receipt, rfl, hrun.2⟩
  · exact hrun.elim

end Db
