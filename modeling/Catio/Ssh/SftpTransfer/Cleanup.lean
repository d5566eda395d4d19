import Catio.Ssh.SftpTransfer.Segments

/-!
# Partial files of segmented transfers

When a segmented transfer ends with an error or reports that it was cancelled, the file that
it has created is gone, unless the preparation of the file failed, or the probe of the size
of the source, or the removal itself (`segmented_removes_iff`).
-/

namespace Ssh

/-- The event leaves the created file behind at the end of a transfer without success. -/
def TransferEvent.leaves : TransferEvent → Prop
  | .prepare (.error _) => True
  | .probe (.error _) => True
  | .remove false => True
  | _ => False

/-- The file is created, and the transfer has not ended. -/
def MainPhase.atWork : MainPhase → Prop
  | .creating => False
  | .finished _ => False
  | _ => True

/-- What a history says about the created file. -/
structure Transfer.Kept (es : List TransferEvent) (m : Transfer) : Prop where
  creating : m.main = .creating → .create (.ok ()) ∉ es ∧ ∀ e ∈ es, ¬ e.leaves
  atWork : m.main.atWork → .create (.ok ()) ∈ es ∧ m.dest ≠ none ∧ ∀ e ∈ es, ¬ e.leaves
  finished : ∀ result, m.main = .finished result → result ≠ .ok false →
    ((.create (.ok ()) ∈ es → m.dest = none) ↔ ∀ e ∈ es, ¬ e.leaves)

variable {d : Direction} {total : ℕ} {m m' : Transfer} {e : TransferEvent}
  {es : List TransferEvent}

theorem forall_mem_snoc {P : TransferEvent → Prop} :
  (∀ e' ∈ es ++ [e], P e') ↔ (∀ e' ∈ es, P e') ∧ P e
  := by
  rw [List.forall_mem_append, List.forall_mem_singleton]

theorem Transfer.Kept.aside (hm : m.Kept es) (hmain : m'.main = m.main)
    (hdest : m'.dest = none ↔ m.dest = none) (hcreate : .create (.ok ()) ≠ e)
    (hleaves : ¬ e.leaves) :
  m'.Kept (es ++ [e])
  := by
  have hmem : .create (.ok ()) ∈ es ++ [e] ↔ .create (.ok ()) ∈ es := by
    rw [List.mem_append, List.mem_singleton, or_iff_left hcreate]
  have hall : (∀ e' ∈ es ++ [e], ¬ e'.leaves) ↔ ∀ e' ∈ es, ¬ e'.leaves := by
    rw [forall_mem_snoc, and_iff_left hleaves]
  exact {
    creating := by
      rw [hmain, hmem, hall]
      apply hm.creating
    atWork := by
      rw [hmain, hmem, hall, Ne, hdest]
      apply hm.atWork
    finished := by
      rw [hmain, hmem, hall, hdest]
      apply hm.finished }

theorem Transfer.Kept.turn (hm : m.Kept es) (hwork : m.main.atWork) (hleaves : ¬ e.leaves)
    (hwork' : m'.main.atWork ∨ m'.main = .finished (.ok false)) (hdest : m'.dest ≠ none) :
  m'.Kept (es ++ [e])
  := by
  obtain ⟨hcreate, -, hall⟩ := hm.atWork hwork
  exact {
    creating := by
      intro hmain
      rw [hmain] at hwork'
      rcases hwork' with h | h
      · cases h
      · cases h
    atWork := by
      intro _
      refine ⟨List.mem_append_left _ hcreate, hdest, ?_⟩
      rw [forall_mem_snoc]
      use hall
    finished := by
      intro result hmain hresult
      rw [hmain] at hwork'
      rcases hwork' with h | h
      · cases h
      · cases h
        exact absurd rfl hresult }

theorem Transfer.Kept.left (hm : m.Kept es) (hwork : m.main.atWork) (hleaves : e.leaves)
    {result : Except SshError Bool} :
  Transfer.Kept (es ++ [e]) { m with main := .finished result }
  := by
  obtain ⟨hcreate, hdest, -⟩ := hm.atWork hwork
  exact {
    creating := by simp
    atWork := by
      intro h
      cases h
    finished := by
      intro _ _ _
      constructor
      · intro hnone
        exact absurd (hnone (List.mem_append_left _ hcreate)) hdest
      · intro hall
        rw [forall_mem_snoc] at hall
        exact absurd hleaves hall.2 }

theorem Transfer.Kept.removed (hm : m.Kept es) (hwork : m.main.atWork)
    {result : Except SshError Bool} :
  Transfer.Kept (es ++ [.remove true]) { m with dest := none, main := .finished result }
  := by
  obtain ⟨-, -, hall⟩ := hm.atWork hwork
  exact {
    creating := by simp
    atWork := by
      intro h
      cases h
    finished := by
      intro _ _ _
      rw [forall_mem_snoc]
      constructor
      · intro _
        use hall
        intro h
        cases h
      · intro _ _
        rfl }

/-- What a history says about the created file, it says after each step. -/
theorem Transfer.Kept.step (hm : m.Kept es) (h : TransferStep d total m e m') :
  m'.Kept (es ++ [e])
  := by
  cases h with
  | create creating =>
    obtain ⟨-, hall⟩ := hm.creating creating
    exact {
      creating := by simp
      atWork := by
        intro _
        refine ⟨List.mem_append_right _ List.mem_cons_self, by simp, ?_⟩
        rw [forall_mem_snoc]
        use hall
        intro h
        cases h
      finished := by simp }
  | createFails message creating =>
    obtain ⟨hcreate, hall⟩ := hm.creating creating
    exact {
      creating := by simp
      atWork := by
        intro h
        cases h
      finished := by
        intro _ _ _
        rw [forall_mem_snoc, List.mem_append, or_iff_right hcreate]
        constructor
        · intro _
          use hall
          intro h
          cases h
        · intro _ hmem
          simp at hmem }
  | prepare preparing =>
    have hwork : m.main.atWork := preparing ▸ trivial
    exact hm.turn hwork id (.inl trivial) (by simp)
  | prepareFails message preparing =>
    have hwork : m.main.atWork := preparing ▸ trivial
    apply hm.left hwork
    trivial
  | worker at_ now there step =>
    apply hm.aside
    · rfl
    · simp [there]
    · simp
    · intro h
      cases h
  | join joining at_ finished =>
    have hwork : m.main.atWork := joining ▸ trivial
    exact hm.turn hwork id (.inl trivial) (hm.atWork hwork).2.1
  | joinError joining at_ finished =>
    have hwork : m.main.atWork := joining ▸ trivial
    exact hm.turn hwork id (.inl trivial) (hm.atWork hwork).2.1
  | failed joined =>
    have hwork : m.main.atWork := joined ▸ trivial
    exact hm.turn hwork id (.inl trivial) (hm.atWork hwork).2.1
  | cancelled joined cancels =>
    have hwork : m.main.atWork := joined ▸ trivial
    exact hm.turn hwork id (.inl trivial) (hm.atWork hwork).2.1
  | copied joined goesOn =>
    have hwork : m.main.atWork := joined ▸ trivial
    exact hm.turn hwork id (.inl trivial) (hm.atWork hwork).2.1
  | remove removing => exact hm.removed (removing ▸ trivial)
  | removeFails removing =>
    have hwork : m.main.atWork := removing ▸ trivial
    apply hm.left hwork
    trivial
  | probeFails message probing =>
    have hwork : m.main.atWork := probing ▸ trivial
    apply hm.left hwork
    trivial
  | probeNone probing downloads =>
    have hwork : m.main.atWork := probing ▸ trivial
    exact hm.turn hwork id (.inr rfl) (hm.atWork hwork).2.1
  | probe probing now =>
    have hwork : m.main.atWork := probing ▸ trivial
    apply hm.turn hwork
    · exact id
    · dsimp only
      split
      · right
        rfl
      · left
        trivial
    · exact (hm.atWork hwork).2.1
  | cancel => exact hm.aside rfl Iff.rfl (by simp) id
  | change content => exact hm.aside rfl Iff.rfl (by simp) id

theorem kept_start (source : Bytes) (before : Option Bytes) :
  (Transfer.start source before).Kept []
  where
  creating := by simp
  atWork := fun h => h.elim
  finished := by simp [Transfer.start]

/-- In every run that ends with an error or a cancellation, the created file is gone exactly if its
preparation, the probe of the size and the removal did not fail. -/
theorem segmented_removes_iff {source : Bytes} {before : Option Bytes}
    {result : Except SshError Bool}
    (h : Runs (TransferStep d total) (Transfer.start source before) es m)
    (hfinished : m.main = .finished result) (hresult : result ≠ .ok false) :
  (.create (.ok ()) ∈ es → m.dest = none)
    ↔ (∀ error, .prepare (.error error) ∉ es) ∧ (∀ error, .probe (.error error) ∉ es)
      ∧ .remove false ∉ es
  := by
  have hkept : m.Kept es :=
    h.history (kept_start source before) fun _ _ _ _ hm hstep => hm.step hstep
  rw [hkept.finished result hfinished hresult]
  constructor
  · intro hall
    refine ⟨?_, ?_, ?_⟩
    · intro error hmem
      exact hall _ hmem trivial
    · intro error hmem
      exact hall _ hmem trivial
    · intro hmem
      exact hall _ hmem trivial
  · rintro ⟨hprepare, hprobe, hremove⟩ e he hleaves
    match e, hleaves with
    | .prepare (.error error), _ => exact hprepare error he
    | .probe (.error error), _ => exact hprobe error he
    | .remove false, _ => exact hremove he

/-- The events of a download whose file is created, but cannot be given its length. -/
def diskFull : List TransferEvent :=
  [.create (.ok ()), .prepare (.error (.io "No space left on device"))]

/-- The download returns the error, and the file that it has created stays. -/
theorem diskFull_leaves :
  Runs (TransferStep .download 2) (Transfer.start [7, 8] none) diskFull
      ⟨[[7, 8]], some [], false, [], .finished (.error (.io "No space left on device"))⟩
    ∧ ¬ (.create (.ok ()) ∈ diskFull → (some [] : Option Bytes) = none)
  := by
  refine ⟨(Runs.start.snoc (.create rfl)).snoc (.prepareFails _ rfl), ?_⟩
  intro h
  cases h List.mem_cons_self

/-- The events of a download that is cancelled before its worker reads. -/
def cancelledEarly : List TransferEvent :=
  [.create (.ok ()), .prepare (.ok ()), .worker 0, .cancel, .worker 0, .join, .joined,
    .remove true]

theorem runs_cancelledEarly :
  Runs (TransferStep .download 2) (Transfer.start [7, 8] none) cancelledEarly
    ⟨[[7, 8]], none, true, [⟨0, 2, 2, .finished (.ok ())⟩], .finished (.ok true)⟩
  := by
  have hspawned : Runs (TransferStep .download 2) (Transfer.start [7, 8] none)
      [.create (.ok ()), .prepare (.ok ())] (twoBytes ⟨0, 2, 2, .opening⟩ [0, 0]) :=
    (Runs.start.snoc (.create rfl)).snoc (.prepare rfl)
  have hcancelled : Runs (TransferStep .download 2) (Transfer.start [7, 8] none) _
      ⟨[[7, 8]], some [0, 0], true, [⟨0, 2, 2, .checking⟩], .joining 0 none⟩ :=
    (hspawned.snoc (twoBytes_works (.opens rfl (by decide)))).snoc (.cancel _)
  have hstopped : Runs (TransferStep .download 2) (Transfer.start [7, 8] none) _
      ⟨[[7, 8]], some [0, 0], true, [⟨0, 2, 2, .finished (.ok ())⟩], .joining 0 none⟩ :=
    hcancelled.snoc (.worker (i := 0) rfl rfl rfl (.cancelled rfl (by decide) rfl))
  exact ((hstopped.snoc (.join rfl rfl rfl)).snoc (.cancelled rfl rfl)).snoc (.remove rfl)

/-- The file of the cancelled download is gone. -/
theorem segmented_removes_iff_cancelledEarly :
  (.create (.ok ()) ∈ cancelledEarly → (none : Option Bytes) = none)
    ↔ (∀ error, .prepare (.error error) ∉ cancelledEarly)
      ∧ (∀ error, .probe (.error error) ∉ cancelledEarly) ∧ .remove false ∉ cancelledEarly
  := segmented_removes_iff runs_cancelledEarly rfl (by simp)

end Ssh
