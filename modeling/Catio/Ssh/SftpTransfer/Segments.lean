import Catio.Ssh.SftpTransfer

/-!
# Segmented transfers

The segments of a plan cover a file exactly once (`planSegments_covers`), and a segmented
transfer that ends without an error and was not cancelled has copied each byte of its source
to the same offset, whatever the lengths of the reads and the order of the workers' steps were
(`segmented_copies`).
-/

namespace Ssh

/-! ### The plan -/

theorem planFrom_covers (total seg : ℕ) {i offset : ℕ} (hi : 0 < i) (h : offset + i * seg ≤ total) :
  (planFrom total seg i offset).flatMap (fun segment => List.range' segment.1 segment.2)
    = List.range' offset (total - offset)
  := by
  induction i generalizing offset with
  | zero => cases hi
  | succ i ih =>
    rw [planFrom, List.flatMap_cons]
    cases i with
    | zero => simp [planFrom]
    | succ i =>
      have hseg : offset + seg + (i + 1) * seg ≤ total := by
        rw [Nat.succ_mul] at h
        omega
      have hle : seg ≤ total - offset := by
        have hpos := Nat.zero_le ((i + 1) * seg)
        omega
      rw [if_neg (Nat.succ_ne_zero i), ih (Nat.succ_pos i) hseg, ← Nat.sub_sub,
        List.range'_append_1, Nat.add_sub_cancel' hle]

theorem planSegments_covers (total : ℕ) :
  (planSegments total).flatMap (fun segment => List.range' segment.1 segment.2)
    = List.range total
  := by
  rw [List.range_eq_range']
  unfold planSegments
  split
  · rename_i hzero
    subst hzero
    rfl
  · apply planFrom_covers
    · apply Nat.lt_of_lt_of_le Nat.zero_lt_one
      apply le_max_right
    · rw [Nat.zero_add]
      apply Nat.mul_div_le

theorem inside_of_mem_planFrom {total seg i offset : ℕ} (h : offset + i * seg ≤ total) :
  ∀ segment ∈ planFrom total seg i offset, segment.1 + segment.2 ≤ total
  := by
  induction i generalizing offset with
  | zero =>
    intro segment hmem
    cases hmem
  | succ i ih =>
    rw [Nat.succ_mul] at h
    rw [planFrom, List.forall_mem_cons]
    have hi := Nat.zero_le (i * seg)
    split
    · rename_i hzero
      subst hzero
      constructor
      · dsimp only
        omega
      · intro segment hmem
        cases hmem
    · constructor
      · dsimp only
        omega
      · apply ih
        omega

theorem inside_of_mem_plan {total : ℕ} :
  ∀ segment ∈ planSegments total, segment.1 + segment.2 ≤ total
  := by
  unfold planSegments
  split
  · simp
  · apply inside_of_mem_planFrom
    rw [Nat.zero_add]
    apply Nat.mul_div_le

theorem planSegments_ne_nil (total : ℕ) :
  planSegments total ≠ []
  := by
  unfold planSegments
  split
  · simp
  · obtain ⟨n, hn⟩ := Nat.exists_eq_succ_of_ne_zero
      (Nat.ne_of_gt (Nat.lt_of_lt_of_le Nat.zero_lt_one (le_max_right
        (min segments ((total + minSegSize - 1) / minSegSize)) 1)))
    rw [hn, planFrom]
    simp

theorem exists_mem_plan {total x : ℕ} (h : x < total) :
  ∃ segment ∈ planSegments total, segment.1 ≤ x ∧ x < segment.1 + segment.2
  := by
  have hx : x ∈ List.range total := List.mem_range.mpr h
  rw [← planSegments_covers, List.mem_flatMap] at hx
  obtain ⟨segment, hmem, hx⟩ := hx
  rw [List.mem_range'_1] at hx
  use segment

/-! ### Writes -/

theorem length_writeAt (offset : ℕ) (data file : Bytes) :
  (writeAt offset data file).length = max file.length (offset + data.length)
  := by
  simp only [writeAt, List.length_append, List.length_take, List.length_replicate,
    List.length_drop]
  omega

theorem getElem?_writeAt_in {offset x : ℕ} {data file : Bytes} (h : offset ≤ x)
    (h' : x < offset + data.length) :
  (writeAt offset data file)[x]? = data[x - offset]?
  := by
  have hfront :
      ((file ++ List.replicate (offset - file.length) 0).take offset).length = offset := by
    simp only [List.length_take, List.length_append, List.length_replicate]
    omega
  rw [writeAt, List.append_assoc, List.getElem?_append_right (by omega), hfront,
    List.getElem?_append_left (by omega)]

theorem getElem?_writeAt_out {offset x : ℕ} {data file : Bytes} (h : x < file.length)
    (h' : ¬ (offset ≤ x ∧ x < offset + data.length)) :
  (writeAt offset data file)[x]? = file[x]?
  := by
  have hfront :
      ((file ++ List.replicate (offset - file.length) 0).take offset).length = offset := by
    simp only [List.length_take, List.length_append, List.length_replicate]
    omega
  by_cases hx : x < offset
  · rw [writeAt, List.append_assoc, List.getElem?_append_left (by omega), List.getElem?_take,
      if_pos hx, List.getElem?_append_left h]
  · rw [writeAt, List.append_assoc, List.getElem?_append_right (by omega), hfront,
      List.getElem?_append_right (by omega), List.getElem?_drop]
    congr 1
    omega

/-! ### Copied bytes -/

/-- The byte of the file is one that some content of the source has at the same offset. -/
def Copied (sources : List Bytes) (file : Bytes) (x : ℕ) : Prop :=
  ∃ content ∈ sources, ∃ b, content[x]? = some b ∧ file[x]? = some b

def FromSource (sources : List Bytes) (offset : ℕ) (data : Bytes) : Prop :=
  ∀ i b, data[i]? = some b → ∃ content ∈ sources, content[offset + i]? = some b

theorem Copied.writeAt {sources : List Bytes} {file data : Bytes} {offset x : ℕ}
    (hdata : FromSource sources offset data)
    (h : Copied sources file x ∨ offset ≤ x ∧ x < offset + data.length) :
  Copied sources (writeAt offset data file) x
  := by
  by_cases hin : offset ≤ x ∧ x < offset + data.length
  · have hlt : x - offset < data.length := by omega
    have hget := List.getElem?_eq_getElem hlt
    obtain ⟨content, hmem, hcontent⟩ := hdata _ _ hget
    rw [Nat.add_sub_cancel' hin.1] at hcontent
    refine ⟨content, hmem, data[x - offset], hcontent, ?_⟩
    rw [getElem?_writeAt_in hin.1 hin.2]
    exact hget
  · obtain ⟨content, hmem, b, hcontent, hfile⟩ := h.resolve_right hin
    obtain ⟨hlt, -⟩ := List.getElem?_eq_some_iff.mp hfile
    refine ⟨content, hmem, b, hcontent, ?_⟩
    rw [getElem?_writeAt_out hlt hin]
    exact hfile

theorem FromSource.take {sources : List Bytes} {data : Bytes} {offset : ℕ}
    (h : FromSource sources offset data) (n : ℕ) :
  FromSource sources offset (data.take n)
  := by
  intro i b hget
  rw [List.getElem?_take] at hget
  split at hget
  · apply h i b hget
  · cases hget

theorem fromSource_read {source : Bytes} {sources : List Bytes} (offset n : ℕ) :
  FromSource (source :: sources) offset ((source.drop offset).take n)
  := by
  intro i b hget
  rw [List.getElem?_take] at hget
  split at hget
  · rw [List.getElem?_drop] at hget
    use source, List.mem_cons_self
  · cases hget

theorem FromSource.cons {sources : List Bytes} {data : Bytes} {offset : ℕ}
    (h : FromSource sources offset data) (content : Bytes) :
  FromSource (content :: sources) offset data
  := by
  intro i b hget
  obtain ⟨content', hmem, hcontent⟩ := h i b hget
  use content', List.mem_cons_of_mem _ hmem

theorem Copied.cons {sources : List Bytes} {file : Bytes} {x : ℕ} (h : Copied sources file x)
    (content : Bytes) :
  Copied (content :: sources) file x
  := by
  obtain ⟨content', hmem, b, hcontent, hfile⟩ := h
  exact ⟨content', List.mem_cons_of_mem _ hmem, b, hcontent, hfile⟩

/-! ### Workers -/

/-- What holds of a worker of a file of this size. -/
structure Worker.Sound (total : ℕ) (sources : List Bytes) (cancel : Bool) (w : Worker) : Prop where
  inside : w.offset + w.len ≤ total
  left : w.remaining ≤ w.len
  opening : w.phase = .opening → w.remaining = w.len
  writing : ∀ data, w.phase = .writing data →
    data.length ≤ w.remaining ∧ FromSource sources w.position data
  finished : w.phase = .finished (.ok ()) → w.remaining = 0 ∨ cancel = true

variable {d : Direction} {total : ℕ} {source : Bytes} {sources : List Bytes} {cancel : Bool}
  {w w' : Worker} {dest dest' : Bytes}

theorem WorkerStep.working (h : WorkerStep d source cancel w dest w' dest') :
  ∀ result, w.phase ≠ .finished result
  := by
  intro result hfinished
  cases h with
  | fails e some working => exact working result hfinished
  | _ => simp_all

theorem Worker.Sound.turn (hw : w.Sound total sources cancel) {phase : WorkerPhase}
    (opening : phase ≠ .opening) (writing : ∀ data, phase ≠ .writing data)
    (finished : phase = .finished (.ok ()) → w.remaining = 0 ∨ cancel = true) :
  Worker.Sound total sources cancel { w with phase := phase }
  where
  inside := hw.inside
  left := hw.left
  opening := fun h => absurd h opening
  writing := fun data h => absurd h (writing data)
  finished := finished

/-- A step of a worker keeps what holds of it. -/
theorem Worker.Sound.step (hw : w.Sound total (source :: sources) cancel)
    (h : WorkerStep d source cancel w dest w' dest') :
  w'.Sound total (source :: sources) cancel
  := by
  cases h with
  | empty opening none =>
    apply hw.turn
    · simp
    · simp
    · intro _
      left
      have hleft := hw.left
      omega
  | opens opening some =>
    exact {
      inside := hw.inside
      left := le_refl w.len
      opening := by simp
      writing := by simp
      finished := by simp }
  | cancelled checking more cancels =>
    apply hw.turn
    · simp
    · simp
    · intro _
      right
      apply cancels
  | check checking more goesOn =>
    apply hw.turn
    · simp
    · simp
    · simp
  | @read n reading some fits there =>
    exact {
      inside := hw.inside
      left := hw.left
      opening := by simp
      writing := by
        intro data hdata
        cases hdata
        constructor
        · apply (List.length_take_le _ _).trans
          apply fits.trans
          apply min_le_left
        · apply fromSource_read
      finished := by simp }
  | eof reading =>
    apply hw.turn
    · simp
    · simp
    · simp
  | @write data writing =>
    obtain ⟨hlength, -⟩ := hw.writing data writing
    exact {
      inside := hw.inside
      left := (Nat.sub_le _ _).trans hw.left
      opening := by simp
      writing := by simp
      finished := by simp }
  | writeFails n e writing =>
    apply hw.turn
    · simp
    · simp
    · simp
  | flush checking done =>
    apply hw.turn
    · simp
    · simp
    · intro _
      left
      apply done
  | fails e some working =>
    apply hw.turn
    · simp
    · simp
    · simp

def Worker.CopiedTo (sources : List Bytes) (file : Bytes) (w : Worker) : Prop :=
  ∀ x, w.offset ≤ x → x < w.position → Copied sources file x

/-- What a step of a worker does to the destination: it keeps it, or writes data of the source
at the place of the worker. -/
theorem Worker.Sound.writes (hw : w.Sound total (source :: sources) cancel)
    (h : WorkerStep d source cancel w dest w' dest') :
  dest' = dest ∧ (w'.position = w.position ∨ w'.position = w'.offset) ∧ w'.offset = w.offset
    ∨ ∃ data, dest' = writeAt w.position data dest ∧ FromSource (source :: sources) w.position data
      ∧ w.position + data.length ≤ total ∧ w'.position ≤ w.position + data.length
      ∧ w'.offset = w.offset
  := by
  have hinside := hw.inside
  have hleft := hw.left
  cases h with
  | opens opening some =>
    left
    refine ⟨rfl, .inr ?_, rfl⟩
    simp [Worker.position]
  | @write data writing =>
    obtain ⟨hlength, hdata⟩ := hw.writing data writing
    right
    refine ⟨data, rfl, hdata, ?_, ?_, rfl⟩
    · unfold Worker.position
      omega
    · simp only [Worker.position]
      omega
  | @writeFails data n e writing =>
    obtain ⟨hlength, hdata⟩ := hw.writing data writing
    have htake : (data.take n).length ≤ data.length := List.length_take_le' n data
    right
    refine ⟨data.take n, rfl, hdata.take n, ?_, ?_, rfl⟩
    · unfold Worker.position
      omega
    · apply Nat.le_add_right
  | _ =>
    left
    exact ⟨rfl, .inl rfl, rfl⟩

theorem Worker.Sound.keeps (hw : w.Sound total (source :: sources) cancel)
    (h : WorkerStep d source cancel w dest w' dest') {x : ℕ}
    (hx : Copied (source :: sources) dest x) :
  Copied (source :: sources) dest' x
  := by
  rcases hw.writes h with ⟨rfl, -, -⟩ | ⟨data, rfl, hdata, -, -, -⟩
  · apply hx
  · apply Copied.writeAt hdata
    left
    apply hx

theorem Worker.Sound.copies (hw : w.Sound total (source :: sources) cancel)
    (h : WorkerStep d source cancel w dest w' dest')
    (hcopied : w.CopiedTo (source :: sources) dest) :
  w'.CopiedTo (source :: sources) dest'
  := by
  intro x hlow hhigh
  rcases hw.writes h with ⟨rfl, hposition, hoffset⟩ | ⟨data, rfl, hdata, -, hposition, hoffset⟩
  · rw [hoffset] at hlow
    rcases hposition with hposition | hposition
    · apply hcopied x hlow
      omega
    · omega
  · rw [hoffset] at hlow
    apply Copied.writeAt hdata
    by_cases hx : x < w.position
    · left
      apply hcopied x hlow hx
    · right
      omega

theorem Worker.Sound.length_le (hw : w.Sound total (source :: sources) cancel)
    (h : WorkerStep d source cancel w dest w' dest') (hlength : dest.length ≤ total) :
  dest'.length ≤ total
  := by
  rcases hw.writes h with ⟨rfl, -, -⟩ | ⟨data, rfl, -, hle, -, -⟩
  · apply hlength
  · rw [length_writeAt]
    apply max_le hlength hle

/-! ### The transfer -/

def Worker.segment (w : Worker) : ℕ × ℕ :=
  (w.offset, w.len)

/-- What holds of a segmented transfer. -/
structure Transfer.Sound (total : ℕ) (m : Transfer) : Prop where
  worker : ∀ w ∈ m.workers, w.Sound total m.sources m.cancel
  copied : ∀ w ∈ m.workers, ∀ file, m.dest = some file →
    file.length ≤ total ∧ w.CopiedTo m.sources file
  early : m.main = .creating ∨ m.main = .preparing → m.workers = []
  joining : ∀ i firstErr, m.main = .joining i firstErr →
    m.workers.map Worker.segment = planSegments total ∧ (∃ file, m.dest = some file)
      ∧ ∀ j < i, ∃ w result, m.workers[j]? = some w ∧ w.phase = .finished result
        ∧ (firstErr = none → result = .ok ())
  removing : m.main ≠ .removing (.ok false)
  complete : m.main = .probing ∨ m.main = .finished (.ok false) →
    m.workers.map Worker.segment = planSegments total ∧ (∃ file, m.dest = some file)
      ∧ ∀ w ∈ m.workers, w.phase = .finished (.ok ()) ∧ w.remaining = 0

variable {m m' : Transfer} {e : TransferEvent}

theorem sound_start (total : ℕ) (source : Bytes) (before : Option Bytes) :
  (Transfer.start source before).Sound total
  where
  worker := by simp [Transfer.start]
  copied := by simp [Transfer.start]
  early := by simp [Transfer.start]
  joining := by simp [Transfer.start]
  removing := by simp [Transfer.start]
  complete := by simp [Transfer.start]

theorem Transfer.Sound.turn (hm : m.Sound total) {phase : MainPhase}
    (early : phase ≠ .creating ∧ phase ≠ .preparing)
    (joining : ∀ i firstErr, phase ≠ .joining i firstErr) (removing : phase ≠ .removing (.ok false))
    (complete : phase = .probing ∨ phase = .finished (.ok false) →
      m.workers.map Worker.segment = planSegments total ∧ (∃ file, m.dest = some file)
        ∧ ∀ w ∈ m.workers, w.phase = .finished (.ok ()) ∧ w.remaining = 0) :
  Transfer.Sound total { m with main := phase }
  where
  worker := hm.worker
  copied := hm.copied
  early := fun h => (h.elim early.1 early.2).elim
  joining := fun i firstErr h => absurd h (joining i firstErr)
  removing := removing
  complete := complete

theorem Transfer.Sound.cancels (hm : m.Sound total) :
  Transfer.Sound total { m with cancel := true }
  where
  worker := by
    intro w hw
    exact { hm.worker w hw with finished := fun _ => .inr rfl }
  copied := hm.copied
  early := hm.early
  joining := hm.joining
  removing := hm.removing
  complete := hm.complete

theorem Transfer.Sound.changes (hm : m.Sound total) (content : Bytes) :
  Transfer.Sound total { m with sources := content :: m.sources }
  where
  worker := by
    intro w hw
    have hsound := hm.worker w hw
    exact { hsound with
      writing := by
        intro data hdata
        apply (hsound.writing data hdata).imp_right
        intro hfrom
        apply hfrom.cons }
  copied := by
    intro w hw file hfile
    apply (hm.copied w hw file hfile).imp_right
    intro hcopied x hlow hhigh
    apply (hcopied x hlow hhigh).cons
  early := hm.early
  joining := hm.joining
  removing := hm.removing
  complete := hm.complete

theorem Transfer.Sound.spawns (m : Transfer) {file : Bytes} (hlength : file.length ≤ total) :
  Transfer.Sound total { m with
    dest := some file, workers := spawn total, main := .joining 0 none }
  where
  worker := by
    intro w hw
    obtain ⟨segment, hsegment, rfl⟩ := List.mem_map.mp hw
    exact {
      inside := inside_of_mem_plan segment hsegment
      left := le_refl segment.2
      opening := fun _ => rfl
      writing := by simp
      finished := by simp }
  copied := by
    intro w hw file' hfile
    cases hfile
    obtain ⟨segment, hsegment, rfl⟩ := List.mem_map.mp hw
    use hlength
    intro x hlow hhigh
    simp only [Worker.position] at hlow hhigh
    omega
  early := by simp
  joining := by
    intro i firstErr hmain
    cases hmain
    refine ⟨?_, ⟨file, rfl⟩, ?_⟩
    · rw [spawn, List.map_map]
      apply List.map_id
    · intro j hj
      cases hj
  removing := by simp
  complete := by simp

/-- A worker takes a step. -/
theorem Transfer.Sound.works (hm : m.Sound total) {i : ℕ} (at_ : m.workers[i]? = some w)
    (now : m.sources = source :: sources) (there : m.dest = some dest)
    (h : WorkerStep d source m.cancel w dest w' dest') :
  Transfer.Sound total { m with dest := some dest', workers := m.workers.set i w' }
  := by
  have hmem := List.mem_of_getElem? at_
  have hsound := hm.worker w hmem
  rw [now] at hsound
  have hworking := h.working
  have hsegment : w'.segment = w.segment := by
    cases h <;> rfl
  have hsegments : (m.workers.set i w').map Worker.segment = m.workers.map Worker.segment := by
    obtain ⟨hi, hget⟩ := List.getElem?_eq_some_iff.mp at_
    have hlt : i < (m.workers.map Worker.segment).length := by
      rw [List.length_map]
      exact hi
    have hsame : w.segment = (m.workers.map Worker.segment)[i] := by
      rw [List.getElem_map, hget]
    rw [List.map_set, hsegment, hsame, List.set_getElem_self]
  have hother : ∀ v ∈ m.workers.set i w', v = w' ∨ v ∈ m.workers := by
    intro v hv
    rcases List.mem_or_eq_of_mem_set hv with hv | rfl
    · right
      apply hv
    · left
      rfl
  exact {
    worker := by
      intro v hv
      rcases hother v hv with rfl | hv
      · dsimp only
        rw [now]
        apply hsound.step h
      · apply hm.worker v hv
    copied := by
      intro v hv file hfile
      cases hfile
      dsimp only
      rw [now]
      obtain ⟨hlength, hcopied⟩ := hm.copied w hmem dest there
      rw [now] at hcopied
      refine ⟨hsound.length_le h hlength, ?_⟩
      rcases hother v hv with rfl | hv
      · apply hsound.copies h hcopied
      · intro x hlow hhigh
        apply hsound.keeps h
        have hv' := (hm.copied v hv dest there).2 x hlow hhigh
        rw [now] at hv'
        apply hv'
    early := by
      intro hearly
      have hnil := hm.early hearly
      rw [hnil] at hmem
      cases hmem
    joining := by
      intro k firstErr hmain
      obtain ⟨hplan, -, hfinished⟩ := hm.joining k firstErr hmain
      refine ⟨hsegments.trans hplan, ⟨dest', rfl⟩, ?_⟩
      intro j hj
      obtain ⟨v, result, hv, hphase, hresult⟩ := hfinished j hj
      have hne : i ≠ j := by
        rintro rfl
        rw [at_] at hv
        cases hv
        apply hworking result hphase
      refine ⟨v, result, ?_, hphase, hresult⟩
      rw [List.getElem?_set_ne hne]
      apply hv
    removing := hm.removing
    complete := by
      intro hmain
      obtain ⟨-, -, hfinished⟩ := hm.complete hmain
      exact absurd (hfinished w hmem).1 (hworking _) }

theorem Transfer.Sound.joins (hm : m.Sound total) {i : ℕ} {firstErr firstErr' : Option SshError}
    {result : Except SshError Unit} (joining : m.main = .joining i firstErr)
    (at_ : m.workers[i]? = some w) (finished : w.phase = .finished result)
    (error : firstErr' = none → firstErr = none ∧ result = .ok ()) :
  Transfer.Sound total { m with main := .joining (i + 1) firstErr' }
  := by
  obtain ⟨hplan, hdest, hfinished⟩ := hm.joining i firstErr joining
  exact {
    worker := hm.worker
    copied := hm.copied
    early := by simp
    joining := by
      intro k firstErr₀ hmain
      cases hmain
      refine ⟨hplan, hdest, ?_⟩
      intro j hj
      by_cases hji : j = i
      · subst hji
        exact ⟨w, result, at_, finished, fun h => (error h).2⟩
      · obtain ⟨v, result', hv, hphase, hresult⟩ := hfinished j (by omega)
        exact ⟨v, result', hv, hphase, fun h => hresult (error h).1⟩
    removing := by simp
    complete := by simp }

theorem Transfer.Sound.completes (hm : m.Sound total)
    (joined : m.main = .joining m.workers.length none) (goesOn : m.cancel = false) :
  Transfer.Sound total { m with main := .probing }
  := by
  obtain ⟨hplan, hdest, hfinished⟩ := hm.joining _ none joined
  apply hm.turn
  · simp
  · simp
  · simp
  · intro _
    refine ⟨hplan, hdest, ?_⟩
    intro w hw
    obtain ⟨j, hj, rfl⟩ := List.mem_iff_getElem.mp hw
    obtain ⟨v, result, hv, hphase, hresult⟩ := hfinished j hj
    rw [List.getElem?_eq_getElem hj] at hv
    cases hv
    rw [hresult rfl] at hphase
    use hphase
    apply ((hm.worker _ hw).finished hphase).resolve_right
    rw [goesOn]
    simp

theorem Transfer.Sound.removes (hm : m.Sound total) {result : Except SshError Bool}
    (removing : m.main = .removing result) {dest : Option Bytes}
    (hdest : dest = none ∨ dest = m.dest) :
  Transfer.Sound total { m with dest := dest, main := .finished result }
  := by
  have hresult : MainPhase.finished result ≠ .finished (.ok false) := by
    intro h
    cases h
    apply hm.removing removing
  exact {
    worker := hm.worker
    copied := by
      intro w hw file hfile
      rcases hdest with rfl | rfl
      · cases hfile
      · apply hm.copied w hw file hfile
    early := by simp
    joining := by simp
    removing := by simp
    complete := by
      rintro (h | h)
      · cases h
      · exact absurd h hresult }

theorem Transfer.Sound.step (hm : m.Sound total) (h : TransferStep d total m e m') :
  m'.Sound total
  := by
  cases h with
  | create creating =>
    have hnil := hm.early (.inl creating)
    exact {
      worker := hm.worker
      copied := by
        intro w hw
        rw [hnil] at hw
        cases hw
      early := fun _ => hnil
      joining := by simp
      removing := by simp
      complete := by simp }
  | createFails message creating => apply hm.turn <;> simp
  | prepare preparing =>
    apply Transfer.Sound.spawns
    cases d with
    | download => exact List.length_replicate.le
    | upload => apply Nat.zero_le
  | prepareFails message preparing => apply hm.turn <;> simp
  | worker at_ now there step => apply hm.works at_ now there step
  | join joining at_ finished =>
    apply hm.joins joining at_ finished
    simp
  | joinError joining at_ finished =>
    apply hm.cancels.joins joining at_ finished
    simp
  | failed joined => apply hm.turn <;> simp
  | cancelled joined cancels => apply hm.turn <;> simp
  | copied joined goesOn => apply hm.completes joined goesOn
  | remove removing => apply hm.removes removing (.inl rfl)
  | removeFails removing => apply hm.removes removing (.inr rfl)
  | probeFails message probing => apply hm.turn <;> simp
  | probeNone probing downloads =>
    apply hm.turn
    · simp
    · simp
    · simp
    · intro _
      apply hm.complete (.inl probing)
  | probe probing now =>
    split
    · apply hm.turn
      · simp
      · simp
      · simp
      · intro _
        apply hm.complete (.inl probing)
    · apply hm.turn <;> simp
  | cancel => apply hm.cancels
  | change content => apply hm.changes

theorem sound_of_runs {es : List TransferEvent} {before : Option Bytes}
    (h : Runs (TransferStep d total) (Transfer.start source before) es m) :
  m.Sound total
  := h.invariant (sound_start total source before) fun _ _ _ hm hstep => hm.step hstep

theorem Transfer.Sound.copied_of_finished (hm : m.Sound total)
    (hfinished : m.main = .finished (.ok false)) :
  ∃ file, m.dest = some file ∧ file.length = total ∧ ∀ x < total, Copied m.sources file x
  := by
  obtain ⟨hplan, ⟨file, hfile⟩, hworkers⟩ := hm.complete (.inr hfinished)
  have hcovered : ∀ x < total, Copied m.sources file x := by
    intro x hx
    obtain ⟨segment, hsegment, hlow, hhigh⟩ := exists_mem_plan hx
    rw [← hplan, List.mem_map] at hsegment
    obtain ⟨w, hw, rfl⟩ := hsegment
    apply (hm.copied w hw file hfile).2 x hlow
    rw [Worker.position, (hworkers w hw).2]
    exact hhigh
  refine ⟨file, hfile, ?_, hcovered⟩
  apply le_antisymm
  · have hne : planSegments total ≠ [] := planSegments_ne_nil total
    rw [← hplan, Ne, List.map_eq_nil_iff] at hne
    obtain ⟨w, hw⟩ := List.exists_mem_of_ne_nil _ hne
    apply (hm.copied w hw file hfile).1
  · by_contra hshort
    rw [not_le] at hshort
    obtain ⟨content, -, b, -, hb⟩ := hcovered file.length hshort
    simp at hb

/-- The source keeps its content. -/
def Unchanged (es : List TransferEvent) : Prop :=
  ∀ content, .change content ∉ es

theorem sources_of_unchanged {es : List TransferEvent} {before : Option Bytes}
    (h : Runs (TransferStep d total) (Transfer.start source before) es m) (hes : Unchanged es) :
  m.sources = [source]
  := by
  induction h with
  | start => rfl
  | snoc _ last ih =>
    have hbefore := ih fun content hmem => hes content (List.mem_append_left _ hmem)
    cases last with
    | change content => exact absurd (List.mem_append_right _ List.mem_cons_self) (hes content)
    | _ => exact hbefore

/-- The segments cover the offsets of a file, each once and in order; and a download that returns
that it was not cancelled leaves a file of the declared length with bytes that the remote file had
there, which are its bytes if nobody changed it. -/
theorem segmented_copies {remote : Bytes} {before : Option Bytes} {es : List TransferEvent}
    (h : Runs (TransferStep .download total) (Transfer.start remote before) es m)
    (hfinished : m.main = .finished (.ok false)) :
  (planSegments total).flatMap (fun segment => List.range' segment.1 segment.2)
      = List.range total
    ∧ ∃ file, m.dest = some file ∧ file.length = total ∧ (∀ x < total, Copied m.sources file x)
      ∧ (Unchanged es → ∀ x < total, x < remote.length ∧ file[x]? = remote[x]?)
  := by
  use planSegments_covers total
  obtain ⟨file, hfile, hlength, hcopied⟩ := (sound_of_runs h).copied_of_finished hfinished
  refine ⟨file, hfile, hlength, hcopied, ?_⟩
  intro hes x hx
  obtain ⟨content, hmem, b, hcontent, hb⟩ := hcopied x hx
  rw [sources_of_unchanged h hes, List.mem_singleton] at hmem
  subst hmem
  obtain ⟨hlt, -⟩ := List.getElem?_eq_some_iff.mp hcontent
  exact ⟨hlt, hb.trans hcontent.symm⟩

/-! ### A download of two bytes -/

/-- A download of two bytes whose worker is at work. -/
def twoBytes (w : Worker) (dest : Bytes) : Transfer :=
  ⟨[[7, 8]], some dest, false, [w], .joining 0 none⟩

theorem twoBytes_works (h : WorkerStep .download [7, 8] false w dest w' dest') :
  TransferStep .download 2 (twoBytes w dest) (.worker 0) (twoBytes w' dest')
  := .worker rfl rfl rfl h

/-- The events of the download, in which each read gives one byte. -/
def twoReads : List TransferEvent :=
  [.create (.ok ()), .prepare (.ok ()), .worker 0, .worker 0, .worker 0, .worker 0, .worker 0,
    .worker 0, .worker 0, .worker 0, .join, .joined, .probe (.ok (some 2))]

theorem runs_twoReads :
  Runs (TransferStep .download 2) (Transfer.start [7, 8] none) twoReads
    ⟨[[7, 8]], some [7, 8], false, [⟨0, 2, 0, .finished (.ok ())⟩], .finished (.ok false)⟩
  := by
  have hspawned : Runs (TransferStep .download 2) (Transfer.start [7, 8] none)
      [.create (.ok ()), .prepare (.ok ())] (twoBytes ⟨0, 2, 2, .opening⟩ [0, 0]) :=
    (Runs.start.snoc (.create rfl)).snoc (.prepare rfl)
  have hwrite : WorkerStep .download [7, 8] false ⟨0, 2, 2, .writing [7]⟩ [0, 0] _ _ := .write rfl
  have hwrite' : WorkerStep .download [7, 8] false ⟨0, 2, 1, .writing [8]⟩ [7, 0] _ _ :=
    .write rfl
  have hfirst : Runs (TransferStep .download 2) (Transfer.start [7, 8] none) _
      (twoBytes ⟨0, 2, 1, .checking⟩ [7, 0]) :=
    (((hspawned.snoc (twoBytes_works (.opens rfl (by decide)))).snoc
      (twoBytes_works (.check rfl (by decide) rfl))).snoc
      (twoBytes_works (.read (n := 1) rfl (by decide) (by decide) (by decide)))).snoc
      (twoBytes_works hwrite)
  have hsecond : Runs (TransferStep .download 2) (Transfer.start [7, 8] none) _
      (twoBytes ⟨0, 2, 0, .checking⟩ [7, 8]) :=
    ((hfirst.snoc (twoBytes_works (.check rfl (by decide) rfl))).snoc
      (twoBytes_works (.read (n := 1) rfl (by decide) (by decide) (by decide)))).snoc
      (twoBytes_works hwrite')
  have hcopied : Runs (TransferStep .download 2) (Transfer.start [7, 8] none) _
      ⟨[[7, 8]], some [7, 8], false, [⟨0, 2, 0, .finished (.ok ())⟩], .probing⟩ :=
    ((hsecond.snoc (twoBytes_works (.flush rfl rfl))).snoc (.join rfl rfl rfl)).snoc
      (.copied rfl rfl)
  have hprobe : TransferStep .download 2
      ⟨[[7, 8]], some [7, 8], false, [⟨0, 2, 0, .finished (.ok ())⟩], .probing⟩ _ _ :=
    .probe rfl (show _ = ([7, 8] : Bytes) :: [] from rfl)
  exact hcopied.snoc hprobe

/-- The two bytes are copied. -/
theorem segmented_copies_twoReads :
  (planSegments 2).flatMap (fun segment => List.range' segment.1 segment.2) = List.range 2
    ∧ ∃ file, some [7, 8] = some file ∧ file.length = 2
      ∧ (∀ x < 2, Copied [[7, 8]] file x)
      ∧ (Unchanged twoReads → ∀ x < 2, x < [7, 8].length ∧ file[x]? = ([7, 8] : Bytes)[x]?)
  := segmented_copies runs_twoReads rfl

end Ssh
