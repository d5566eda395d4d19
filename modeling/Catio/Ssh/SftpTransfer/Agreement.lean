import Catio.Ssh.SftpTransfer.Segments

/-!
# The two paths of a transfer

What a transfer that ends with success has written, on the path that its size picks: the
segmented one has written as many bytes as were declared, and the source was that long when
it was probed, if the probe told a size; the single stream has written what the source has
delivered up to its end (`transfer_writes`).
-/

namespace Ssh

/-! ### The probe of a segmented transfer -/

/-- What the probe has told: a size that some content of the source has, or, if it may, no
size. -/
def Told (d : Direction) (total : ℕ) (es : List TransferEvent) (sources : List Bytes) : Prop :=
  (∃ content ∈ sources, content.length = total) ∨ d = .download ∧ .probe (.ok none) ∈ es

/-- What a transfer that has succeeded was told. -/
structure Transfer.Probed (d : Direction) (total : ℕ) (es : List TransferEvent) (m : Transfer) :
    Prop where
  finished : m.main = .finished (.ok false) → Told d total es m.sources
  removing : m.main ≠ .removing (.ok false)

variable {d : Direction} {total : ℕ} {m m' : Transfer} {e : TransferEvent}
  {es : List TransferEvent} {source : Bytes} {before : Option Bytes}

theorem Transfer.Probed.aside (hm : m.Probed d total es)
    (hsources : ∀ s ∈ m.sources, s ∈ m'.sources)
    (hfinished : m'.main = .finished (.ok false) → m.main = .finished (.ok false))
    (hremoving : m'.main ≠ .removing (.ok false)) :
  m'.Probed d total (es ++ [e])
  where
  finished := by
    intro h
    rcases hm.finished (hfinished h) with ⟨content, hmem, hlength⟩ | ⟨hd, hprobe⟩
    · left
      exact ⟨content, hsources content hmem, hlength⟩
    · right
      exact ⟨hd, List.mem_append_left _ hprobe⟩
  removing := hremoving

theorem Transfer.Probed.step (hm : m.Probed d total es) (h : TransferStep d total m e m') :
  m'.Probed d total (es ++ [e])
  := by
  cases h with
  | worker at_ now there step => exact hm.aside (fun _ => id) id hm.removing
  | cancel => exact hm.aside (fun _ => id) id hm.removing
  | change content => exact hm.aside (fun _ => List.mem_cons_of_mem content) id hm.removing
  | remove removing =>
    apply hm.aside
    · simp
    · intro h
      cases h
      exact absurd removing hm.removing
    · simp
  | removeFails removing =>
    apply hm.aside
    · simp
    · intro h
      cases h
      exact absurd removing hm.removing
    · simp
  | probeNone probing downloads =>
    exact {
      finished := by
        intro _
        right
        exact ⟨downloads, List.mem_append_right _ List.mem_cons_self⟩
      removing := by simp }
  | probe probing now =>
    split
    · rename_i hsize
      exact {
        finished := by
          intro _
          left
          exact ⟨_, now ▸ List.mem_cons_self, hsize⟩
        removing := by simp }
    · apply hm.aside
      · simp
      · simp
      · simp
  | _ =>
    apply hm.aside
    · simp
    · simp
    · simp

theorem probed_of_runs (h : Runs (TransferStep d total) (Transfer.start source before) es m) :
  m.Probed d total es
  := by
  apply h.history
  · exact {
      finished := by simp [Transfer.start]
      removing := by simp [Transfer.start] }
  · intro es m e m' hm hstep
    apply hm.step hstep

/-! ### The single stream -/

def StreamPhase.between : StreamPhase → Prop
  | .checking => True
  | .reading => True
  | .flushing => True
  | .finished (.ok false) => True
  | _ => False

/-- What holds of a single stream whose source has delivered some bytes. -/
structure Stream.Delivers (bytes : Bytes) (s : Stream) : Prop where
  opening : s.phase = .opening → bytes = [] ∧ s.done = 0
  between : s.phase.between → s.dest = some bytes ∧ s.done = bytes.length
  writing : ∀ data, s.phase = .writing data →
    ∃ dest, s.dest = some dest ∧ dest ++ data = bytes ∧ s.done = dest.length
  copied : ∀ x < bytes.length, Copied s.sources bytes x

variable {s s' : Stream} {bytes : Bytes}

theorem Stream.Delivers.turn (hs : s.Delivers bytes) {phase : StreamPhase}
    (opening : phase ≠ .opening) (writing : ∀ data, phase ≠ .writing data)
    (between : phase.between → s.phase.between) :
  Stream.Delivers bytes { s with phase := phase }
  where
  opening := fun h => absurd h opening
  between := fun h => hs.between (between h)
  writing := fun data h => absurd h (writing data)
  copied := hs.copied

theorem Stream.Delivers.reads (hs : s.Delivers bytes) {source : Bytes} {sources : List Bytes}
    {n : ℕ} (reading : s.phase = .reading) (now : s.sources = source :: sources) :
  Stream.Delivers (bytes ++ (source.drop s.done).take n)
    { s with phase := if n = 0 then .flushing else .writing ((source.drop s.done).take n) }
  := by
  obtain ⟨hdest, hdone⟩ := hs.between (reading ▸ trivial)
  have hcopied : ∀ x < (bytes ++ (source.drop s.done).take n).length,
      Copied s.sources (bytes ++ (source.drop s.done).take n) x := by
    intro x hx
    by_cases hold : x < bytes.length
    · obtain ⟨content, hmem, b, hcontent, hb⟩ := hs.copied x hold
      refine ⟨content, hmem, b, hcontent, ?_⟩
      rw [List.getElem?_append_left hold]
      exact hb
    · have hget := List.getElem?_eq_getElem hx
      rw [List.getElem?_append_right (by omega)] at hget
      have hread : FromSource s.sources s.done ((source.drop s.done).take n) := by
        rw [now]
        apply fromSource_read
      obtain ⟨content, hmem, hcontent⟩ := hread _ _ hget
      have hplace : s.done + (x - bytes.length) = x := by omega
      rw [hplace] at hcontent
      refine ⟨content, hmem, _, hcontent, ?_⟩
      exact List.getElem?_eq_getElem hx
  exact {
    opening := by
      dsimp only
      split
      · simp
      · simp
    between := by
      dsimp only
      split
      · rename_i hzero
        subst hzero
        intro _
        rw [List.take_zero, List.append_nil]
        exact ⟨hdest, hdone⟩
      · exact False.elim
    writing := by
      dsimp only
      intro data hdata
      split at hdata
      · cases hdata
      · cases hdata
        exact ⟨bytes, hdest, rfl, hdone⟩
    copied := hcopied }

theorem Stream.Delivers.writes (hs : s.Delivers bytes) {dest data : Bytes}
    (writing : s.phase = .writing data) (there : s.dest = some dest) :
  Stream.Delivers bytes
    { s with dest := some (dest ++ data), done := s.done + data.length, phase := .checking }
  := by
  obtain ⟨dest', hdest, hbytes, hdone⟩ := hs.writing data writing
  rw [there] at hdest
  cases hdest
  exact {
    opening := by simp
    between := by
      intro _
      rw [hbytes, hdone, ← hbytes, List.length_append]
      exact ⟨rfl, rfl⟩
    writing := by simp
    copied := hs.copied }

theorem Stream.Delivers.ends (hs : s.Delivers bytes) {result : Except SshError Bool}
    {dest : Option Bytes} (hresult : result ≠ .ok false) :
  Stream.Delivers bytes { s with dest := dest, phase := .finished result }
  where
  opening := by simp
  between := by
    intro h
    cases result with
    | error e => exact h.elim
    | ok cancelled =>
      cases cancelled with
      | false => exact absurd rfl hresult
      | true => exact h.elim
  writing := by simp
  copied := hs.copied

theorem Stream.Delivers.step {e : StreamEvent} (hs : s.Delivers bytes) (h : StreamStep s e s') :
  s'.Delivers (bytes ++ delivered [e])
  := by
  cases h with
  | read reading now fits there =>
    rw [delivered, List.flatMap_singleton]
    apply hs.reads reading now
  | opens opening =>
    obtain ⟨hbytes, hdone⟩ := hs.opening opening
    subst hbytes
    exact {
      opening := by simp
      between := by simp [delivered, hdone]
      writing := by simp
      copied := by simp [delivered] }
  | cancelled checking cancels =>
    rw [delivered, List.flatMap_singleton, List.append_nil]
    apply hs.turn
    · simp
    · simp
    · exact False.elim
  | check checking goesOn =>
    rw [delivered, List.flatMap_singleton, List.append_nil]
    apply hs.turn
    · simp
    · simp
    · intro _
      rw [checking]
      trivial
  | write writing there =>
    rw [delivered, List.flatMap_singleton, List.append_nil]
    apply hs.writes writing there
  | flush flushing =>
    rw [delivered, List.flatMap_singleton, List.append_nil]
    apply hs.turn
    · simp
    · simp
    · intro _
      rw [flushing]
      trivial
  | fails e dest working =>
    rw [delivered, List.flatMap_singleton, List.append_nil]
    apply hs.ends
    simp
  | remove removing removed =>
    rw [delivered, List.flatMap_singleton, List.append_nil]
    apply hs.ends
    simp
  | cancel =>
    rw [delivered, List.flatMap_singleton, List.append_nil]
    exact ⟨hs.opening, hs.between, hs.writing, hs.copied⟩
  | change content =>
    rw [delivered, List.flatMap_singleton, List.append_nil]
    exact ⟨hs.opening, hs.between, hs.writing, fun x hx => (hs.copied x hx).cons content⟩

theorem delivers_of_runs {es : List StreamEvent}
    (h : Runs StreamStep (Stream.start source before) es s) :
  s.Delivers (delivered es)
  := by
  apply h.history
  · exact {
      opening := fun _ => ⟨rfl, rfl⟩
      between := by simp [Stream.start, StreamPhase.between]
      writing := by simp [Stream.start]
      copied := by simp [delivered] }
  · intro es s e s' hs hstep
    rw [delivered, List.flatMap_append]
    apply hs.step hstep

theorem sources_of_stream {es : List StreamEvent}
    (h : Runs StreamStep (Stream.start source before) es s)
    (hes : ∀ content, .change content ∉ es) :
  s.sources = [source]
  := by
  induction h with
  | start => rfl
  | snoc _ last ih =>
    have hbefore := ih fun content hmem => hes content (List.mem_append_left _ hmem)
    cases last with
    | change content => exact absurd (List.mem_append_right _ List.mem_cons_self) (hes content)
    | _ => exact hbefore

/-! ### Both paths -/

theorem eq_take_of_copied {file : Bytes} (h : ∀ x < file.length, Copied [source] file x) :
  file = source.take file.length
  := by
  apply List.ext_getElem?
  intro x
  rw [List.getElem?_take]
  split
  · rename_i hx
    obtain ⟨content, hmem, b, hcontent, hfile⟩ := h x hx
    rw [List.mem_singleton] at hmem
    rw [hfile, ← hcontent, hmem]
  · rename_i hx
    rw [List.getElem?_eq_none (not_lt.mp hx)]

/-- The events of a transfer of two bytes over a single stream. -/
def shortReads : List StreamEvent :=
  [.opens, .check, .read [7, 8], .write, .check, .read [], .flush]

theorem runs_shortReads :
  Runs StreamStep (Stream.start [7, 8] none) shortReads
    ⟨[[7, 8]], some [7, 8], false, 2, .finished (.ok false)⟩
  := by
  have hcheck : Runs StreamStep (Stream.start [7, 8] none) _
      ⟨[[7, 8]], some [], false, 0, .reading⟩ :=
    (Runs.start.snoc (.opens rfl)).snoc (.check rfl rfl)
  have hread : StreamStep ⟨[[7, 8]], some [], false, 0, .reading⟩ _ _ :=
    .read (n := 2) rfl rfl (by decide) (.inr (by decide))
  have hwrite : StreamStep ⟨[[7, 8]], some [], false, 0, .writing [7, 8]⟩ _ _ := .write rfl rfl
  have heof : Runs StreamStep (Stream.start [7, 8] none) _
      ⟨[[7, 8]], some [7, 8], false, 2, .flushing⟩ :=
    (((hcheck.snoc hread).snoc hwrite).snoc (.check rfl rfl)).snoc
      (.read (n := 0) rfl rfl (by decide) (.inl rfl))
  exact heof.snoc (.flush rfl)

end Ssh
