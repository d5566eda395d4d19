import Catio.Lib.Result
import Catio.Ssh.Sftp.Download

/-!
# Downloads without SFTP are complete

When a download succeeds, its file is what the received lines encode (`downloadStream_ok`).  The
loop is left as soon as the channel is closed, whatever has arrived, and an exit status that is not
zero counts only if error output came before it; so a download is complete or fails if and only if
no such loss hits it (`downloadStream_complete`).
-/

namespace Ssh

open Text

/-! ### Storing lines -/

/-- The lines of a text, the last one too. -/
def allLines (t : Text) : List Text :=
  (endedLines t).1 ++ [(endedLines t).2]

/-- The lines of a text that encode something. -/
def encodedLines (t : Text) : List Text :=
  ((allLines t).map compact).filter fun line => line ≠ []

section

variable {decode : Text → Except Text Bytes} {disk : Disk}

theorem foldlM_storeLine {lines : List Text} {file file' : LocalFile} :
  lines.foldlM (storeLine decode disk) file = .ok file'
    ↔ ∃ pieces, ((lines.map compact).filter fun line => line ≠ []).mapM decode = .ok pieces
      ∧ (∀ i < pieces.length, disk.writeAll (file.writes + i) = none)
      ∧ file' = ⟨file.content ++ pieces.flatten, file.writes + pieces.length⟩
  := by
  induction lines generalizing file with
  | nil =>
    simp only [List.foldlM_nil, List.map_nil, List.filter_nil, List.mapM_nil, pure, Except.pure,
      Except.ok.injEq]
    constructor
    · rintro rfl
      exact ⟨[], rfl, by simp, by simp⟩
    · rintro ⟨pieces, rfl, -, rfl⟩
      simp
  | cons line lines ih =>
    rw [List.foldlM_cons, Result.bind_ok, List.map_cons, List.filter_cons]
    by_cases hblank : compact line = []
    · have hstore : storeLine decode disk file line = .ok file := if_pos hblank
      simp only [hstore, Except.ok.injEq, exists_eq_left', ih, hblank, ne_eq, not_true_eq_false,
        decide_false, Bool.false_eq_true, if_false]
    · simp only [ne_eq, hblank, not_false_eq_true, decide_true, if_true]
      constructor
      · rintro ⟨next, hnext, hrest⟩
        rw [storeLine, if_neg hblank] at hnext
        split at hnext
        · cases hnext
        · rename_i decoded hdecoded
          split at hnext
          · cases hnext
          · rename_i hwrite
            obtain rfl := Except.ok.inj hnext
            obtain ⟨pieces, hpieces, hwrites, rfl⟩ := ih.mp hrest
            refine ⟨decoded :: pieces, ?_, ?_, ?_⟩
            · rw [List.mapM_cons, hdecoded, hpieces]
              rfl
            · rintro (_ | i) hi
              · exact hwrite
              · have hnext := hwrites i (Nat.lt_of_succ_lt_succ hi)
                rwa [Nat.add_assoc, Nat.add_comm 1] at hnext
            · simp [Nat.add_assoc, Nat.add_comm 1]
      · rintro ⟨pieces, hpieces, hwrites, rfl⟩
        rw [List.mapM_cons] at hpieces
        obtain ⟨decoded, hdecoded, hpieces⟩ := Result.bind_ok.mp hpieces
        obtain ⟨pieces', hpieces', hcons⟩ := Result.bind_ok.mp hpieces
        obtain rfl := Except.ok.inj hcons
        refine ⟨⟨file.content ++ decoded, file.writes + 1⟩, ?_,
          ih.mpr ⟨pieces', hpieces', ?_, ?_⟩⟩
        · have hwrite := hwrites 0 (Nat.succ_pos _)
          rw [Nat.add_zero] at hwrite
          rw [storeLine, if_neg hblank, hdecoded]
          simp only [hwrite]
        · intro i hi
          have hnext := hwrites (i + 1) (Nat.succ_lt_succ hi)
          rwa [Nat.add_comm i, ← Nat.add_assoc] at hnext
        · simp [Nat.add_assoc, Nat.add_comm 1]

variable (decode disk) in
def Stores (file : LocalFile) (t : Text) (file' : LocalFile) : Prop :=
  (allLines t).foldlM (storeLine decode disk) file = .ok file'

theorem stores_append {file file' : LocalFile} (s t : Text) :
  Stores decode disk file (s ++ t) file'
    ↔ ∃ next, (endedLines s).1.foldlM (storeLine decode disk) file = .ok next
      ∧ Stores decode disk next ((endedLines s).2 ++ t) file'
  := by
  unfold Stores allLines
  rw [endedLines_append, List.append_assoc, List.foldlM_append, Result.bind_ok]

/-! ### The loop -/

/-- An exit status that is not zero arrives behind error output that is not blank. -/
def refused : Text → List Wake → Prop
  | _, [] => False
  | stderr, wake :: wakes =>
      (∃ status, wake.message = some (.exitStatus status) ∧ status ≠ 0 ∧ trim stderr ≠ [])
        ∨ refused (stderr ++ wake.stderr) wakes

variable (decode disk) in
/-- What it takes for the loop to be left with a file, given what there is before it. -/
structure Accepts (last eof exit : Bool) (stderr buf : Text) (file : LocalFile)
    (wakes : List Wake) (file' : LocalFile) : Prop where
  goesOn : ∀ wake ∈ heard eof exit wakes, wake.cancel = false
  told : last = true → ((eof || wakes.any Wake.isEof) && (exit || wakes.any Wake.isExit)) = true
  notRefused : ¬refused stderr (heard eof exit wakes)
  stores : Stores decode disk file (buf ++ receivedText (heard eof exit wakes)) file'

variable {last eof exit : Bool} {stderr buf : Text} {file file' : LocalFile} {wake : Wake}
  {wakes : List Wake}

theorem accepts_cons {eof' exit' : Bool} {stderr' buf' : Text} (heof : (eof || wake.isEof) = eof')
    (hexit : (exit || wake.isExit) = exit') (hstderr : stderr ++ wake.stderr = stderr')
    (hbuf : buf ++ Utf8.fromUtf8Lossy wake.stdout = buf') (hmore : (eof' && exit') = false)
    (hcancel : wake.cancel = false)
    (hstatus : ∀ status, wake.message = some (.exitStatus status) → status = 0 ∨ trim stderr = []) :
  Accepts decode disk last eof exit stderr buf file (wake :: wakes) file'
    ↔ Accepts decode disk last eof' exit' stderr' buf' file wakes file'
  := by
  subst heof hexit hstderr hbuf
  have hheard : heard eof exit (wake :: wakes)
      = wake :: heard (eof || wake.isEof) (exit || wake.isExit) wakes := by
    rw [heard, if_neg (by rw [hmore]; exact Bool.false_ne_true)]
  have hnot : ¬∃ status, wake.message = some (.exitStatus status) ∧ status ≠ 0
      ∧ trim stderr ≠ [] := by
    rintro ⟨status, hmessage, hne, hstderr⟩
    rcases hstatus status hmessage with hzero | hblank
    · exact hne hzero
    · exact hstderr hblank
  constructor
  · rintro ⟨hgo, hannounced, hrefused, hstores⟩
    rw [hheard] at hgo hrefused hstores
    refine ⟨fun w hw => hgo w (List.mem_cons_of_mem wake hw), ?_, ?_, ?_⟩
    · intro hlast
      rw [← hannounced hlast, List.any_cons, List.any_cons, Bool.or_assoc, Bool.or_assoc]
    · intro hlater
      exact hrefused (.inr hlater)
    · rwa [receivedText, List.flatMap_cons, ← List.append_assoc] at hstores
  · rintro ⟨hgo, hannounced, hrefused, hstores⟩
    refine ⟨?_, ?_, ?_, ?_⟩
    · rw [hheard]
      exact List.forall_mem_cons.mpr ⟨hcancel, hgo⟩
    · intro hlast
      rw [← hannounced hlast, List.any_cons, List.any_cons, Bool.or_assoc, Bool.or_assoc]
    · rw [hheard]
      rintro (hnow | hlater)
      · exact hnot hnow
      · exact hrefused hlater
    · rwa [hheard, receivedText, List.flatMap_cons, ← List.append_assoc]

theorem accepts_last (hdone : ((eof || wake.isEof) && (exit || wake.isExit)) = true)
    (hcancel : wake.cancel = false) (hstdout : wake.stdout = [])
    (hstatus : ∀ status, wake.message = some (.exitStatus status) → status = 0 ∨ trim stderr = []) :
  Accepts decode disk last eof exit stderr buf file (wake :: wakes) file'
    ↔ Stores decode disk file buf file'
  := by
  have hheard : heard eof exit (wake :: wakes) = [wake] := by
    rw [heard, if_pos hdone]
  have htext : buf ++ receivedText [wake] = buf := by
    rw [receivedText, List.flatMap_singleton, hstdout]
    exact List.append_nil buf
  constructor
  · rintro ⟨-, -, -, hstores⟩
    rwa [hheard, htext] at hstores
  · intro hstores
    refine ⟨?_, ?_, ?_, ?_⟩
    · rw [hheard]
      exact List.forall_mem_singleton.mpr hcancel
    · intro hlast
      rw [Bool.and_eq_true, Bool.or_eq_true, Bool.or_eq_true] at hdone
      simp only [List.any_cons, Bool.and_eq_true, Bool.or_eq_true]
      tauto
    · rw [hheard]
      rintro (⟨status, hmessage, hne, hstderr⟩ | hlater)
      · rcases hstatus status hmessage with hzero | hblank
        · exact hne hzero
        · exact hstderr hblank
      · exact hlater
    · rwa [hheard, htext]

theorem accepts_stored :
  Accepts decode disk last eof exit stderr buf file wakes file'
    ↔ ∃ next, (endedLines buf).1.foldlM (storeLine decode disk) file = .ok next
      ∧ Accepts decode disk last eof exit stderr (endedLines buf).2 next wakes file'
  := by
  constructor
  · rintro ⟨hgo, hannounced, hrefused, hstores⟩
    obtain ⟨next, hnext, hrest⟩ := (stores_append _ _).mp hstores
    exact ⟨next, hnext, hgo, hannounced, hrefused, hrest⟩
  · rintro ⟨next, hnext, hgo, hannounced, hrefused, hstores⟩
    exact ⟨hgo, hannounced, hrefused, (stores_append _ _).mpr ⟨next, hnext, hstores⟩⟩

theorem not_accepts_cancel (hcancel : wake.cancel = true) :
  ¬Accepts decode disk last eof exit stderr buf file (wake :: wakes) file'
  := by
  rintro ⟨hgo, -, -, -⟩
  have hfirst : wake ∈ heard eof exit (wake :: wakes) := by
    rw [heard]
    split_ifs
    · exact List.mem_cons_self
    · exact List.mem_cons_self
  have hfalse := hgo wake hfirst
  rw [hcancel] at hfalse
  cases hfalse

theorem not_accepts_refused {status : ℕ} (hmessage : wake.message = some (.exitStatus status))
    (hne : status ≠ 0) (hstderr : trim stderr ≠ []) :
  ¬Accepts decode disk last eof exit stderr buf file (wake :: wakes) file'
  := by
  rintro ⟨-, -, hrefused, -⟩
  apply hrefused
  rw [heard]
  split_ifs
  · exact .inl ⟨status, hmessage, hne, hstderr⟩
  · exact .inl ⟨status, hmessage, hne, hstderr⟩

theorem report_file (s : Download) : s.report.file = s.file ∧ s.report.b64Buf = s.b64Buf
    ∧ s.report.stderr = s.stderr ∧ s.report.gotEof = s.gotEof ∧ s.report.gotExit = s.gotExit := by
  unfold Download.report
  dsimp only
  split_ifs
  · exact ⟨rfl, rfl, rfl, rfl, rfl⟩
  · exact ⟨rfl, rfl, rfl, rfl, rfl⟩

/-- The loop is left with a state in which the rest can be stored, if and only if that is accepted;
the buffer never has an ended line. -/
theorem loop_iff (wakes : List Wake) (s : Download) (hbuf : endedLines s.b64Buf = ([], s.b64Buf))
    (hmore : (s.gotEof && s.gotExit) = false) :
  (∃ s', Download.loop decode disk last wakes s = .ok s'
      ∧ storeLine decode disk s'.file s'.b64Buf = .ok file')
    ↔ Accepts decode disk last s.gotEof s.gotExit s.stderr s.b64Buf s.file wakes file'
  := by
  have hrest (t : Download) (hbuf : endedLines t.b64Buf = ([], t.b64Buf)) :
      Stores decode disk t.file t.b64Buf file'
        ↔ storeLine decode disk t.file t.b64Buf = .ok file' := by
    rw [Stores, allLines, hbuf]
    simp [List.foldlM_cons, pure, Except.pure, bind, Except.bind]
    cases storeLine decode disk t.file t.b64Buf with
    | error e => simp
    | ok next => simp
  induction wakes generalizing s with
  | nil =>
    rw [Download.loop]
    cases last with
    | true =>
      apply iff_of_false
      · rintro ⟨s', hloop, -⟩
        cases hloop
      · rintro ⟨-, hannounced, -, -⟩
        have hall := hannounced rfl
        simp only [List.any_nil, Bool.or_false, hmore] at hall
        cases hall
    | false =>
      constructor
      · rintro ⟨s', hloop, hstore⟩
        obtain rfl := Except.ok.inj hloop
        refine ⟨?_, ?_, ?_, ?_⟩
        · rintro w ⟨⟩
        · rintro ⟨⟩
        · rintro ⟨⟩
        · rw [heard, receivedText, List.flatMap_nil, List.append_nil]
          exact (hrest s hbuf).mpr hstore
      · rintro ⟨-, -, -, hstores⟩
        rw [heard, receivedText, List.flatMap_nil, List.append_nil] at hstores
        exact ⟨s, rfl, (hrest s hbuf).mp hstores⟩
  | cons wake wakes ih =>
    obtain ⟨cancel, message⟩ := wake
    rw [Download.loop]
    cases cancel with
    | true =>
      apply iff_of_false _ (not_accepts_cancel rfl)
      rintro ⟨s', hloop, -⟩
      cases hloop
    | false =>
      cases message with
      | none =>
        apply (ih s hbuf hmore).trans
        symm
        apply accepts_cons (Bool.or_false _) (Bool.or_false _) (List.append_nil _)
          (List.append_nil _) hmore rfl
        rintro status ⟨⟩
      | some message =>
        cases message with
        | close | success | failure | exitSignal =>
          apply (ih s hbuf hmore).trans
          symm
          apply accepts_cons (Bool.or_false _) (Bool.or_false _) (List.append_nil _)
            (List.append_nil _) hmore rfl
          rintro status ⟨⟩
        | extendedData bytes =>
          have hnext := ih { s with stderr := s.stderr ++ Utf8.fromUtf8Lossy bytes } hbuf
            hmore
          apply hnext.trans
          symm
          apply accepts_cons (Bool.or_false _) (Bool.or_false _) rfl (List.append_nil _)
            hmore rfl
          rintro status ⟨⟩
        | data bytes =>
          have hcons : Accepts decode disk last s.gotEof s.gotExit s.stderr s.b64Buf s.file
              (⟨false, some (.data bytes)⟩ :: wakes) file'
              ↔ Accepts decode disk last s.gotEof s.gotExit s.stderr
                (s.b64Buf ++ Utf8.fromUtf8Lossy bytes) s.file wakes file' := by
            apply accepts_cons (Bool.or_false _) (Bool.or_false _) (List.append_nil _) rfl
              hmore rfl
            rintro status ⟨⟩
          rw [hcons, accepts_stored]
          simp only [Bool.false_eq_true, if_false, Download.hear]
          cases hlines : (endedLines (s.b64Buf ++ Utf8.fromUtf8Lossy bytes)).1.foldlM
              (storeLine decode disk) s.file with
          | error failure => simp
          | ok next =>
            simp only [Except.ok.injEq, exists_eq_left']
            obtain ⟨hfile, hbuf', hstderr, heof, hexit⟩ := report_file
              { s with
                b64Buf := (endedLines (s.b64Buf ++ Utf8.fromUtf8Lossy bytes)).2
                file := next }
            have hnext := ih (Download.report
              { s with
                b64Buf := (endedLines (s.b64Buf ++ Utf8.fromUtf8Lossy bytes)).2
                file := next })
              (by rw [hbuf']; exact endedLines_rest _) (by rw [heof, hexit]; exact hmore)
            rw [hfile, hbuf', hstderr, heof, hexit] at hnext
            exact hnext
        | eof =>
          simp only [Bool.false_eq_true, if_false, Download.hear]
          cases hexit : s.gotExit with
          | true =>
            rw [accepts_last (by simp [Wake.isEof]) rfl rfl (by rintro status ⟨⟩)]
            simp only [Except.ok.injEq, exists_eq_left']
            exact (hrest s hbuf).symm
          | false =>
            have hnext := ih { s with gotEof := true } hbuf (by rw [hexit]; rfl)
            rw [hexit] at hnext
            apply hnext.trans
            symm
            apply accepts_cons (Bool.or_true _) (Bool.or_false _) (List.append_nil _)
              (List.append_nil _) rfl rfl
            rintro status ⟨⟩
        | exitStatus status =>
          simp only [Bool.false_eq_true, if_false, Download.hear]
          split_ifs with hbad
          · apply iff_of_false _ (not_accepts_refused rfl hbad.1 hbad.2)
            rintro ⟨s', hloop, -⟩
            cases hloop
          · have hfine : ∀ code, (⟨false, some (.exitStatus status)⟩ : Wake).message
                = some (.exitStatus code) → code = 0 ∨ trim s.stderr = [] := by
              rintro code hmessage
              cases hmessage
              tauto
            cases heof : s.gotEof with
            | true =>
              rw [accepts_last (by simp [Wake.isExit]) rfl rfl hfine]
              simp only [Except.ok.injEq, exists_eq_left']
              exact (hrest s hbuf).symm
            | false =>
              have hnext := ih { s with gotExit := true } hbuf (by rw [heof]; rfl)
              rw [heof] at hnext
              apply hnext.trans
              symm
              exact accepts_cons (Bool.or_false _) (Bool.or_true _) (List.append_nil _)
                (List.append_nil _) rfl rfl hfine

theorem loop_error {s : Download} {ended : Ended}
    (h : Download.loop decode disk last wakes s = .error ended) :
  ended.result ≠ .ok false
  := by
  induction wakes generalizing s with
  | nil =>
    rw [Download.loop] at h
    split_ifs at h
    · cases h
      rintro ⟨⟩
  | cons wake wakes ih =>
    rw [Download.loop] at h
    split_ifs at h
    · cases h
      rintro ⟨⟩
    · split at h
      · exact ih h
      · split at h
        · rename_i message _ _ hhear
          cases h
          unfold Download.hear at hhear
          split at hhear
          · dsimp only at hhear
            split at hhear
            · cases hhear
              rintro ⟨⟩
            · cases hhear
          · cases hhear
          · cases hhear
          · split_ifs at hhear
            · cases hhear
              rintro ⟨⟩
          · cases hhear
        · cases h
        · exact ih h

theorem downloadStream_iff {content : Bytes} :
  ((downloadStream decode disk wakes last).result = .ok false
      ∧ (downloadStream decode disk wakes last).file = some content)
    ↔ disk.create = .ok () ∧ disk.flush = .ok () ∧ ∃ file' : LocalFile, file'.content = content
      ∧ Accepts decode disk last false false [] [] ⟨[], 0⟩ wakes file'
  := by
  have hiff (file' : LocalFile) := @loop_iff decode disk last file' wakes .start rfl rfl
  rw [downloadStream]
  cases hcreate : disk.create with
  | error e => simp
  | ok done =>
    cases hloop : Download.loop decode disk last wakes .start with
    | error ended =>
      apply iff_of_false
      · rintro ⟨hresult, -⟩
        exact loop_error hloop hresult
      · rintro ⟨-, -, file', -, haccepts⟩
        obtain ⟨s', hs, -⟩ := (hiff file').mpr haccepts
        rw [hloop] at hs
        cases hs
    | ok s =>
      have hstore (file' : LocalFile) :
          Accepts decode disk last false false [] [] ⟨[], 0⟩ wakes file'
            ↔ storeLine decode disk s.file s.b64Buf = .ok file' := by
        rw [show Accepts decode disk last false false [] [] ⟨[], 0⟩ wakes file' ↔ _ from
          (hiff file').symm, hloop]
        simp
      simp only [hstore, Download.finish]
      cases storeLine decode disk s.file s.b64Buf with
      | error failure => simp
      | ok file =>
        cases hflush : disk.flush with
        | error e => simp
        | ok done => simp

theorem file_of_downloadStream (h : (downloadStream decode disk wakes last).result = .ok false) :
  ∃ content, (downloadStream decode disk wakes last).file = some content
  := by
  unfold downloadStream at h ⊢
  split
  · rename_i hcreate
    rw [hcreate] at h
    cases h
  · rename_i hcreate
    rw [hcreate] at h
    dsimp only at h
    split
    · rename_i ended hloop
      rw [hloop] at h
      exact absurd h (loop_error hloop)
    · rename_i s hloop
      rw [hloop] at h
      unfold Download.finish at h ⊢
      split
      · rename_i hstore
        dsimp only at h
        rw [hstore] at h
        cases h
      · split
        · rename_i hstore _ _ hflush
          dsimp only at h
          rw [hstore, hflush] at h
          cases h
        · exact ⟨_, rfl⟩

end

/-! ### Complete downloads -/

/-- The flag is raised before the loop is left. -/
def Cancelled (wakes : List Wake) (last : Bool) : Prop :=
  (∃ wake ∈ heard false false wakes, wake.cancel = true) ∨ last = true ∧ ¬Announced wakes

/-- A line of what was received does not decode. -/
def Garbled (decode : Text → Except Text Bytes) (wakes : List Wake) : Prop :=
  ∃ line ∈ encodedLines (receivedText (heard false false wakes)), ∃ e, decode line = .error e

/-- The disk fails when so many lines are written. -/
def Disk.Fails (disk : Disk) (lines : ℕ) : Prop :=
  (∃ e, disk.create = .error e) ∨ (∃ i < lines, ∃ failure, disk.writeAll i = some failure)
    ∨ ∃ e, disk.flush = .error e

theorem accepts_start {decode : Text → Except Text Bytes} {disk : Disk} {wakes : List Wake}
    {last : Bool} {file' : LocalFile} :
  Accepts decode disk last false false [] [] ⟨[], 0⟩ wakes file'
    ↔ ¬Cancelled wakes last ∧ ¬refused [] (heard false false wakes)
      ∧ ∃ pieces, (encodedLines (receivedText (heard false false wakes))).mapM decode = .ok pieces
        ∧ (∀ i < pieces.length, disk.writeAll i = none)
        ∧ file' = ⟨pieces.flatten, pieces.length⟩
  := by
  have hstores : Stores decode disk ⟨[], 0⟩ ([] ++ receivedText (heard false false wakes)) file'
      ↔ ∃ pieces, (encodedLines (receivedText (heard false false wakes))).mapM decode = .ok pieces
        ∧ (∀ i < pieces.length, disk.writeAll i = none)
        ∧ file' = ⟨pieces.flatten, pieces.length⟩ := by
    rw [Stores, foldlM_storeLine]
    simp [encodedLines]
  have hannounced : ((false || wakes.any Wake.isEof) && (false || wakes.any Wake.isExit)) = true
      ↔ Announced wakes := by
    simp [Announced]
  constructor
  · rintro ⟨hgo, hlast, hrefused, hfile⟩
    refine ⟨?_, hrefused, hstores.mp hfile⟩
    rintro (⟨wake, hwake, hcancel⟩ | ⟨hraised, hnot⟩)
    · rw [hgo wake hwake] at hcancel
      cases hcancel
    · exact hnot (hannounced.mp (hlast hraised))
  · rintro ⟨hcancelled, hrefused, hfile⟩
    refine ⟨?_, ?_, hrefused, hstores.mpr hfile⟩
    · intro wake hwake
      rw [Bool.eq_false_iff]
      intro hcancel
      exact hcancelled (.inl ⟨wake, hwake, hcancel⟩)
    · intro hraised
      rw [hannounced]
      by_contra hnot
      exact hcancelled (.inr ⟨hraised, hnot⟩)

/-- A download succeeds if and only if nothing that it looks at is wrong; its file is then what the
lines encode. -/
theorem downloadStream_ok (decode : Text → Except Text Bytes) (disk : Disk) (wakes : List Wake)
    (last : Bool) :
  ((downloadStream decode disk wakes last).result = .ok false
      ↔ ¬(Cancelled wakes last ∨ refused [] (heard false false wakes) ∨ Garbled decode wakes
        ∨ disk.Fails (encodedLines (receivedText (heard false false wakes))).length))
    ∧ ((downloadStream decode disk wakes last).result = .ok false →
      ∃ pieces, (encodedLines (receivedText (heard false false wakes))).mapM decode = .ok pieces
        ∧ (downloadStream decode disk wakes last).file = some pieces.flatten)
  := by
  have hpieces : (downloadStream decode disk wakes last).result = .ok false →
      disk.create = .ok () ∧ disk.flush = .ok ()
        ∧ ¬Cancelled wakes last ∧ ¬refused [] (heard false false wakes)
        ∧ ∃ pieces, (encodedLines (receivedText (heard false false wakes))).mapM decode
            = .ok pieces
          ∧ (∀ i < pieces.length, disk.writeAll i = none)
          ∧ (downloadStream decode disk wakes last).file = some pieces.flatten := by
    intro hresult
    obtain ⟨content, hfile⟩ := file_of_downloadStream hresult
    obtain ⟨hcreate, hflush, file', hcontent, haccepts⟩ :=
      downloadStream_iff.mp ⟨hresult, hfile⟩
    obtain ⟨hcancelled, hrefused, pieces, hmap, hwrites, rfl⟩ := accepts_start.mp haccepts
    refine ⟨hcreate, hflush, hcancelled, hrefused, pieces, hmap, hwrites, ?_⟩
    rw [hfile, ← hcontent]
  refine ⟨⟨?_, ?_⟩, ?_⟩
  · intro hresult
    obtain ⟨hcreate, hflush, hcancelled, hrefused, pieces, hmap, hwrites, -⟩ := hpieces hresult
    rintro (hcancel | hrefuse | hgarbled | ⟨e, he⟩ | ⟨i, hi, failure, hfail⟩ | ⟨e, he⟩)
    · exact hcancelled hcancel
    · exact hrefused hrefuse
    · exact Result.exists_mapM_ok.mp ⟨pieces, hmap⟩ hgarbled
    · rw [hcreate] at he
      cases he
    · rw [Result.length_of_mapM hmap] at hi
      rw [hwrites i hi] at hfail
      cases hfail
    · rw [hflush] at he
      cases he
  · intro hfine
    simp only [not_or] at hfine
    obtain ⟨hcancelled, hrefused, hgarbled, hdisk⟩ := hfine
    obtain ⟨pieces, hmap⟩ := Result.exists_mapM_ok.mpr hgarbled
    have hcreate : disk.create = .ok () := by
      cases hc : disk.create with
      | error e => exact absurd (.inl ⟨e, hc⟩) hdisk
      | ok done => rfl
    have hflush : disk.flush = .ok () := by
      cases hf : disk.flush with
      | error e => exact absurd (.inr (.inr ⟨e, hf⟩)) hdisk
      | ok done => rfl
    have hwrites : ∀ i < pieces.length, disk.writeAll i = none := by
      intro i hi
      rw [← Result.length_of_mapM hmap] at hi
      cases hw : disk.writeAll i with
      | none => rfl
      | some failure => exact absurd (.inr (.inl ⟨i, hi, failure, hw⟩)) hdisk
    exact (downloadStream_iff.mpr ⟨hcreate, hflush, ⟨pieces.flatten, pieces.length⟩, rfl,
      accepts_start.mpr ⟨hcancelled, hrefused, pieces, hmap, hwrites, rfl⟩⟩).1
  · intro hresult
    obtain ⟨-, -, -, -, pieces, hmap, -, hfile⟩ := hpieces hresult
    exact ⟨pieces, hmap, hfile⟩

/-! ### The output of the command -/

theorem encodedLines_printed (codec : Base64.Codec) (pieces : List Bytes) :
  encodedLines (pieces.flatMap fun piece => codec.encode piece ++ ['\n'])
    = (pieces.filter fun piece => piece ≠ []).map codec.encode
  := by
  induction pieces with
  | nil => rfl
  | cons piece pieces ih =>
    have hline : '\n' ∉ codec.encode piece := by
      intro h
      exact absurd (codec.visible piece _ h).2 (by decide)
    have hcompact : compact (codec.encode piece) = codec.encode piece := by
      rw [compact, List.filter_eq_self]
      intro c hc
      rw [(codec.visible piece c hc).2]
      rfl
    have hlines : allLines ((piece :: pieces).flatMap fun piece => codec.encode piece ++ ['\n'])
        = codec.encode piece
          :: allLines (pieces.flatMap fun piece => codec.encode piece ++ ['\n']) := by
      rw [List.flatMap_cons, List.append_assoc, List.singleton_append, allLines,
        endedLines_line hline]
      rfl
    rw [encodedLines, hlines, List.map_cons, hcompact, List.filter_cons, List.filter_cons]
    by_cases hpiece : piece = []
    · rw [if_neg (by rw [hpiece, codec.encode_nil]; decide), if_neg (by rw [hpiece]; decide)]
      exact ih
    · rw [if_pos (decide_eq_true (codec.encode_ne_nil hpiece)),
        if_pos (decide_eq_true hpiece), List.map_cons]
      exact congrArg _ ih

theorem mapM_decode_printed (codec : Base64.Codec) (pieces : List Bytes) :
  (pieces.map codec.encode).mapM codec.decode = .ok pieces
  := by
  rw [Result.mapM_ok, List.forall₂_map_left_iff, List.forall₂_same]
  intro piece _
  exact codec.decode_encode piece

theorem receivedText_ascii {wakes : List Wake} {t : Text} (h : ∀ c ∈ t, c.toNat < 0x80)
    (hreceived : received wakes = Utf8.encode t) :
  receivedText wakes = t
  := by
  have hbyte : ∀ b ∈ received wakes, b.toNat < 0x80 := by
    rw [hreceived, Utf8.encode_ascii h]
    intro b hb
    obtain ⟨c, hc, rfl⟩ := List.mem_map.mp hb
    rw [Utf8.toNat_byte (lt_trans (h c hc) (by decide))]
    exact h c hc
  have hmap : receivedText wakes = (received wakes).map fun b => Char.ofNat b.toNat := by
    rw [received, List.map_flatMap, receivedText]
    apply List.flatMap_congr
    intro wake hwake
    apply Utf8.fromUtf8Lossy_ascii
    intro b hb
    exact hbyte b (List.mem_flatMap.mpr ⟨wake, hwake, hb⟩)
  rw [hmap, hreceived, Utf8.encode_ascii h, List.map_map]
  conv_rhs => rw [← List.map_id t]
  apply List.map_congr_left
  intro c hc
  rw [Function.comp, Utf8.toNat_byte (lt_trans (h c hc) (by decide)), Char.ofNat_toNat, id]

theorem heard_prefix (eof exit : Bool) (wakes : List Wake) :
  ∃ rest, wakes = heard eof exit wakes ++ rest
    ∧ (rest = [] ∨ eof = true ∨ ∃ wake ∈ heard eof exit wakes, wake.isEof)
  := by
  induction wakes generalizing eof exit with
  | nil => exact ⟨[], rfl, .inl rfl⟩
  | cons wake wakes ih =>
    rw [heard]
    split_ifs with hdone
    · rw [Bool.and_eq_true, Bool.or_eq_true] at hdone
      refine ⟨wakes, rfl, .inr ?_⟩
      rcases hdone.1 with heof | heof
      · exact .inl heof
      · exact .inr ⟨wake, List.mem_singleton_self wake, heof⟩
    · obtain ⟨rest, hrest, hannounced⟩ := ih (eof || wake.isEof) (exit || wake.isExit)
      refine ⟨rest, by rw [List.cons_append, ← hrest], ?_⟩
      rcases hannounced with hnil | heof | ⟨w, hw, heof⟩
      · exact .inl hnil
      · rw [Bool.or_eq_true] at heof
        rcases heof with heof | heof
        · exact .inr (.inl heof)
        · exact .inr (.inr ⟨wake, List.mem_cons_self, heof⟩)
      · exact .inr (.inr ⟨w, List.mem_cons_of_mem wake hw, heof⟩)

section

variable {codec : Base64.Codec} {command : Printing codec} {wakes : List Wake}

theorem Delivers.before_eof (h : Delivers command wakes) {before after : List Wake} {wake : Wake}
    (hwakes : wakes = before ++ wake :: after) (heof : wake.isEof) :
  received before = command.stdout
  := by
  subst hwakes
  have hall := h.eof before.length (by simp) (by simpa using heof)
  rwa [List.take_left] at hall

theorem received_heard (h : Delivers command wakes) :
  received (heard false false wakes) = received wakes
  := by
  obtain ⟨rest, hrest, hnil | hfalse | ⟨wake, hwake, heof⟩⟩ := heard_prefix false false wakes
  · rw [hnil, List.append_nil] at hrest
    rw [← hrest]
  · cases hfalse
  · obtain ⟨before, after, hheard⟩ := List.append_of_mem hwake
    have hall := h.before_eof
      (show wakes = before ++ wake :: (after ++ rest) by rw [hrest, hheard]; simp) heof
    have hsplit : received wakes = received (heard false false wakes) ++ received rest := by
      conv_lhs => rw [hrest]
      rw [received, List.flatMap_append]
      rfl
    have hfront : received before <+: received (heard false false wakes) := by
      rw [hheard, received, received, List.flatMap_append]
      exact List.prefix_append _ _
    have hlength := h.output.length_le
    have hle := hfront.length_le
    rw [hsplit, List.length_append] at hlength
    rw [hall] at hle
    have hempty : received rest = [] := List.eq_nil_of_length_eq_zero (by omega)
    rw [hsplit, hempty, List.append_nil]

theorem whole_of_announced (h : Delivers command wakes) (hannounced : Announced wakes)
    (hstatus : ∀ wake ∈ wakes, ∀ status, wake.message = some (.exitStatus status) → status = 0) :
  received wakes = command.stdout ∧ command.status = some 0
  := by
  obtain ⟨heof, hexit⟩ := hannounced
  obtain ⟨wake, hwake, heof⟩ := List.any_eq_true.mp heof
  obtain ⟨before, after, hwakes⟩ := List.append_of_mem hwake
  constructor
  · have hall := h.before_eof hwakes heof
    have hfront : received before <+: received wakes := by
      rw [hwakes, received, received, List.flatMap_append]
      exact List.prefix_append _ _
    rw [hall] at hfront
    exact h.output.eq_of_length_le hfront.length_le
  · obtain ⟨wake, hwake, hexit⟩ := List.any_eq_true.mp hexit
    unfold Wake.isExit at hexit
    split at hexit
    · rename_i status hmessage
      rw [h.exit wake hwake status hmessage, hstatus wake hwake status hmessage]
    · cases hexit

/-- A download is complete or fails if and only if all of the output arrives of a command that
succeeds, or it is cancelled, or it meets something wrong: error output before an exit status that
is not zero, a line that does not decode, or a failure of the disk. The first is so if the end and
status zero arrive before the channel is closed. -/
theorem downloadStream_complete (disk : Disk) (last : Bool) (h : Delivers command wakes) :
  (Complete command wakes (downloadStream codec.decode disk wakes last)
      ↔ (received wakes = command.stdout ∧ command.status = some 0)
        ∨ Cancelled wakes last ∨ refused [] (heard false false wakes) ∨ Garbled codec.decode wakes
        ∨ disk.Fails (encodedLines (receivedText (heard false false wakes))).length)
    ∧ (Announced wakes
      → (∀ wake ∈ wakes, ∀ status, wake.message = some (.exitStatus status) → status = 0)
      → received wakes = command.stdout ∧ command.status = some 0)
  := by
  refine ⟨?_, whole_of_announced h⟩
  obtain ⟨hok, hfile⟩ := downloadStream_ok codec.decode disk wakes last
  constructor
  · intro hcomplete
    by_contra hnot
    rw [not_or] at hnot
    obtain ⟨hall, hstatus, -⟩ := hcomplete (hok.mpr hnot.2)
    exact hnot.1 ⟨hall, hstatus⟩
  · rintro (⟨hall, hstatus⟩ | hwrong) hresult
    · obtain ⟨pieces, hpieces, hstdout⟩ := command.printed hstatus
      obtain ⟨decoded, hdecoded, hcontent⟩ := hfile hresult
      have hascii : ∀ c ∈ pieces.flatMap fun piece => codec.encode piece ++ ['\n'],
          c.toNat < 0x80 := by
        intro c hc
        obtain ⟨piece, -, hc⟩ := List.mem_flatMap.mp hc
        rcases List.mem_append.mp hc with hc | hc
        · exact (codec.visible piece c hc).1
        · rw [List.mem_singleton.mp hc]
          decide
      rw [receivedText_ascii hascii (by rw [received_heard h, hall, hstdout]),
        encodedLines_printed, mapM_decode_printed] at hdecoded
      refine ⟨hall, hstatus, ?_⟩
      rw [hcontent, ← Except.ok.inj hdecoded, ← hpieces, List.flatten_filter_ne_nil]
    · exact absurd hwrong (hok.mp hresult)

end

/-- A disk without failures. -/
def soundDisk : Disk :=
  ⟨none, .ok (), fun _ => none, .ok (), true⟩

def printingTwo : Printing Base64.standard where
  content := Utf8.encode "Catio!"
  stdout := Utf8.encode "Q2F0\naW8h\n"
  status := some 0
  printed _ := ⟨[Utf8.encode "Cat", Utf8.encode "io!"], rfl, by decide +kernel⟩

/-- Its output in two messages, of which the first ends inside of a line. -/
def straddling : List Wake :=
  [⟨false, some (.data (Utf8.encode "Q2"))⟩, ⟨false, none⟩,
    ⟨false, some (.data (Utf8.encode "F0\naW8h\n"))⟩, ⟨false, some (.exitStatus 0)⟩,
    ⟨false, some .eof⟩, ⟨false, some .close⟩]

theorem downloadStream_complete_straddling :
  Complete printingTwo straddling
    (downloadStream Base64.standard.decode soundDisk straddling false)
  := by
  have hdelivers : Delivers printingTwo straddling := by
    refine ⟨by decide +kernel, by decide +kernel, ?_⟩
    simp [straddling, printingTwo]
  apply (downloadStream_complete soundDisk false hdelivers).1.mpr
  exact .inl ⟨by decide +kernel, rfl⟩

/-- The connection is lost behind the first line. -/
def brokenOff : List Wake :=
  [⟨false, some (.data (Utf8.encode "Q2F0\n"))⟩]

/-- A command that fails, and says nothing. -/
def printingNothing : Printing Base64.standard where
  content := Utf8.encode "Catio!"
  stdout := []
  status := some 1
  printed h := by cases h

/-- What it sends. -/
def failing : List Wake :=
  [⟨false, some (.exitStatus 1)⟩, ⟨false, some .eof⟩, ⟨false, some .close⟩]

/-- Both downloads succeed, with a part of the file and with an empty file. -/
theorem brokenOff_succeeds :
  Delivers printingTwo brokenOff
    ∧ (downloadStream Base64.standard.decode soundDisk brokenOff false).file
      = some (Utf8.encode "Cat")
    ∧ ¬Complete printingTwo brokenOff
      (downloadStream Base64.standard.decode soundDisk brokenOff false)
    ∧ Delivers printingNothing failing
    ∧ (downloadStream Base64.standard.decode soundDisk failing false).file = some []
    ∧ ¬Complete printingNothing failing
      (downloadStream Base64.standard.decode soundDisk failing false)
  := by
  refine ⟨⟨by decide +kernel, by decide +kernel, ?_⟩, by decide +kernel, ?_,
    ⟨by decide +kernel, by decide +kernel, ?_⟩, by decide +kernel, ?_⟩
  · simp [brokenOff]
  · intro hcomplete
    have hall := (hcomplete rfl).1
    exact absurd hall (by decide +kernel)
  · simp [failing, printingNothing]
  · intro hcomplete
    have hstatus := (hcomplete rfl).2.1
    exact absurd hstatus (by decide)

end Ssh
