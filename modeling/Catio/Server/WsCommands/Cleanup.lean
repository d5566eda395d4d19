import Catio.Lib.Places
import Catio.Lib.Steps
import Catio.Server.WsCommands

/-!
# What a dropped tab leaves

Nothing that a connection has opened stays registered once the connection is over and its commands
are done, and no connection holds more VNC sessions than it may: as long as what a command has
opened is recorded before the end of the connection copies the list for it, and a VNC session is
started only if there is room for it beside those that are still under way.
-/

namespace Server

/-- How many VNC sessions a connection is about to open. -/
def WsTab.vncWaiting (tab : WsTab) : ℕ :=
  tab.connecting.countP (· = .waiting .vncConnect)

/-- What a connection has opened is in a list that is still to be closed, on the way into one, about
to be closed, or a scan that was cancelled. -/
def WsTab.Holds (tab : WsTab) (cancelled : List WsHandle) (handle : WsHandle) : Prop :=
  (handle ∈ tab.opened ∧ handle.kind ∈ tab.uncleaned) ∨ handle ∈ tab.cleaning
    ∨ .registered handle ∈ tab.connecting ∨ tab.awaited = some (.closing handle)
    ∨ tab.awaited = some (.scanning handle) ∨ handle ∈ cancelled

/-- What is kept of a connection. -/
structure WsTab.Fine (m : WsTabs) (c : ℕ) (tab : WsTab) : Prop where
  holds : ∀ handle, (handle, c) ∈ m.registry → tab.Holds m.cancelled handle
  whole : tab.isOpen → ∀ kind, kind ∈ tab.uncleaned
  idle : tab.isOpen = false → tab.awaited = none
  listed : ∀ session, tab.awaited = some (.monitoring session) → .monitor session ∈ tab.opened
  capped : m.vncHeld c + tab.vncWaiting ≤ MAX_VNC_PER_CONN

namespace WsTabs

variable {m m' : WsTabs} {c : ℕ} {tab tab' : WsTab}

/-- All that a connection has started is done: it is over, and no scan of it that was cancelled is
still registered. -/
def completed (m : WsTabs) (c : ℕ) : Bool :=
  m.tabs[c]?.any (·.finished) && m.registry.all fun entry => entry.2 ≠ c || entry.1 ∉ m.cancelled

/-- Nothing that a connection opened is registered once all that it started is done, and it holds no
more VNC sessions than it may. -/
structure Leakless (m : WsTabs) : Prop where
  closed : ∀ c, m.completed c → ∀ handle, (handle, c) ∉ m.registry
  capped : ∀ c, m.vncHeld c ≤ MAX_VNC_PER_CONN

/-- A connect command that passes the cap finds room beside those under way, and what a command
opened is recorded before its list is copied. -/
def prompt : WsTabEvent → WsTabs → Bool
  | .startConnect c k, m =>
      m.tabs[c]?.all fun tab : WsTab =>
        tab.connecting[k]? ≠ some (.spawned .vncConnect)
          || MAX_VNC_PER_CONN ≤ (tab.openedOf .vnc).length
          || m.vncHeld c + tab.vncWaiting < MAX_VNC_PER_CONN
  | .record c k, m =>
      m.tabs[c]?.all fun tab =>
        match tab.connecting[k]? with
        | some (WsConnecting.registered handle) => handle.kind ∈ tab.uncleaned
        | _ => true
  | _, _ => true

structure Kept (m : WsTabs) : Prop where
  fine : ∀ c tab, m.tabs[c]? = some tab → WsTab.Fine m c tab
  known : ∀ entry ∈ m.registry, entry.2 < m.tabs.length

/-! ### Connections -/

theorem fine_mono (h : WsTab.Fine m c tab) (hregistry : m'.registry.Sublist m.registry)
    (hcancelled : ∀ handle ∈ m.cancelled, handle ∈ m'.cancelled) :
  WsTab.Fine m' c tab
  := by
  obtain ⟨hholds, hwhole, hidle, hlisted, hcapped⟩ := h
  have hheld : m'.vncHeld c ≤ m.vncHeld c := hregistry.countP_le
  constructor
  · intro handle hin
    have hold := hholds handle (hregistry.subset hin)
    unfold WsTab.Holds at hold ⊢
    grind -linarith
  · exact hwhole
  · exact hidle
  · exact hlisted
  · omega

variable {handle : WsHandle} {f : WsTab → WsTab} {k : ℕ}

theorem fine_other (h : WsTab.Fine m c tab) {c' : ℕ} (hne : c ≠ c')
    (hregistry : m'.registry = m.registry ++ [(handle, c')])
    (hcancelled : m'.cancelled = m.cancelled) :
  WsTab.Fine m' c tab
  := by
  obtain ⟨hholds, hwhole, hidle, hlisted, hcapped⟩ := h
  have hheld : m'.vncHeld c = m.vncHeld c := by
    simp [vncHeld, hregistry, hne.symm]
  constructor
  · intro handle' hin
    rw [hcancelled]
    apply hholds handle'
    rw [hregistry] at hin
    simpa [hne] using hin
  · exact hwhole
  · exact hidle
  · exact hlisted
  · omega

theorem Kept.update (h : m.Kept) (htabs : m'.tabs = m.tabs.modify c f)
    (hself : ∀ tab, m.tabs[c]? = some tab → WsTab.Fine m c tab → WsTab.Fine m' c (f tab))
    (hothers : ∀ d tab, d ≠ c → WsTab.Fine m d tab → WsTab.Fine m' d tab)
    (hknown : ∀ entry ∈ m'.registry, entry.2 < m.tabs.length) :
  m'.Kept
  := by
  constructor
  · intro d tab htab
    rw [htabs, List.getElem?_modify] at htab
    obtain ⟨tab', htab', rfl⟩ := Option.map_eq_some_iff.mp htab
    split
    · rename_i hcd
      subst hcd
      exact hself tab' htab' (h.fine c tab' htab')
    · rename_i hcd
      exact hothers d tab' (Ne.symm hcd) (h.fine d tab' htab')
  · rw [htabs, List.length_modify]
    exact hknown

theorem Kept.shrink (h : m.Kept) (htabs : m'.tabs = m.tabs.modify c f)
    (hregistry : m'.registry.Sublist m.registry)
    (hcancelled : ∀ handle ∈ m.cancelled, handle ∈ m'.cancelled)
    (hself : ∀ tab, m.tabs[c]? = some tab → WsTab.Fine m c tab → WsTab.Fine m' c (f tab)) :
  m'.Kept
  := by
  apply h.update htabs hself
  · intro d tab _ hfine
    exact fine_mono hfine hregistry hcancelled
  · intro entry hentry
    exact h.known entry (hregistry.subset hentry)

theorem Kept.setTab (h : m.Kept)
    (hself : ∀ tab, m.tabs[c]? = some tab → WsTab.Fine m c tab → WsTab.Fine m c (f tab)) :
  (m.setTab c f).Kept
  := by
  have htabs : (m.setTab c f).tabs = m.tabs.modify c f := rfl
  apply h.shrink htabs (List.Sublist.refl _) (fun _ hin => hin)
  intro tab htab hfine
  exact fine_mono (hself tab htab hfine) (List.Sublist.refl _) (fun _ hin => hin)

theorem Kept.add (h : m.Kept) (f : WsTab → WsTab) (handle : WsHandle)
    (htabs : m'.tabs = m.tabs.modify c f) (hregistry : m'.registry = m.registry ++ [(handle, c)])
    (hcancelled : m'.cancelled = m.cancelled) (hc : c < m.tabs.length)
    (hself : ∀ tab, m.tabs[c]? = some tab → WsTab.Fine m c tab → WsTab.Fine m' c (f tab)) :
  m'.Kept
  := by
  apply h.update htabs hself
  · intro d tab hne hfine
    exact fine_other hfine hne hregistry hcancelled
  · intro entry hentry
    rw [hregistry] at hentry
    obtain hold | hnew := List.mem_append.mp hentry
    · exact h.known entry hold
    · rw [List.mem_singleton.mp hnew]
      exact hc

/-! ### Commands that connect -/

theorem fine_connecting (h : WsTab.Fine m c tab) {connecting : List WsConnecting}
    (hregistered : ∀ handle, .registered handle ∈ tab.connecting → .registered handle ∈ connecting)
    (hcapped : m.vncHeld c + connecting.countP (· = .waiting .vncConnect) ≤ MAX_VNC_PER_CONN) :
  WsTab.Fine m c { tab with connecting := connecting }
  := by
  obtain ⟨hholds, hwhole, hidle, hlisted, -⟩ := h
  constructor
  · intro handle hin
    have hold := hholds handle hin
    have hkeep := hregistered handle
    unfold WsTab.Holds at hold ⊢
    grind -linarith
  · exact hwhole
  · exact hidle
  · exact hlisted
  · exact hcapped

theorem fine_eraseIdx (h : WsTab.Fine m c tab) {connecting : WsConnecting}
    (hk : tab.connecting[k]? = some connecting) (hne : ∀ handle, connecting ≠ .registered handle) :
  WsTab.Fine m c { tab with connecting := tab.connecting.eraseIdx k }
  := by
  apply fine_connecting h
  · intro handle hin
    obtain heq | hmem := Places.mem_eraseIdx_of_mem hk hin
    · exact absurd heq.symm (hne handle)
    · exact hmem
  · have hfewer := (List.eraseIdx_sublist tab.connecting k).countP_le
      (p := fun x => decide (x = .waiting .vncConnect))
    have hcapped := h.capped
    unfold WsTab.vncWaiting at hcapped
    omega

theorem Kept.startConnect (h : m.Kept) (hprompt : prompt (.startConnect c k) m) :
  (m.startConnect c k).Kept
  := by
  apply h.setTab
  intro tab htab hfine
  rw [prompt, htab, Option.all_some] at hprompt
  split
  · rename_i cmd hcmd
    split
    · exact fine_eraseIdx hfine hcmd (by simp)
    · rename_i hpassed
      apply fine_connecting hfine
      · intro handle hin
        obtain heq | hmem := Places.mem_set_of_mem hcmd (.waiting cmd) hin
        · cases heq
        · exact hmem
      · obtain ⟨hlt, hget⟩ := List.getElem?_eq_some_iff.mp hcmd
        have hcapped := hfine.capped
        unfold WsTab.vncWaiting at hcapped hprompt
        rw [List.countP_set hlt, hget]
        by_cases hvnc : cmd = .vncConnect
        · subst hvnc
          simp only [hcmd, true_and] at hprompt hpassed
          simp at hprompt ⊢
          omega
        · simp [hvnc]
          omega
  · exact hfine

theorem Kept.failConnect (h : m.Kept) :
  (m.failConnect c k).Kept
  := by
  apply h.setTab
  intro tab _ hfine
  split
  · rename_i cmd hcmd
    exact fine_eraseIdx hfine hcmd (by simp)
  · exact hfine

theorem fine_establish (h : WsTab.Fine m c tab) {cmd : WsConnect} {id : ℕ}
    (hk : tab.connecting[k]? = some (.waiting cmd))
    (hregistry : m'.registry = m.registry ++ [(cmd.handle id, c)])
    (hcancelled : m'.cancelled = m.cancelled) :
  WsTab.Fine m' c { tab with connecting := tab.connecting.set k (.registered (cmd.handle id)) }
  := by
  obtain ⟨hholds, hwhole, hidle, hlisted, hcapped⟩ := h
  constructor
  · intro handle hin
    have hkeep := fun hmem : WsConnecting.registered handle ∈ tab.connecting =>
      Places.mem_set_of_mem hk (.registered (cmd.handle id)) hmem
    rw [hregistry] at hin
    rw [hcancelled]
    obtain hold | hnew := List.mem_append.mp hin
    · have hthis := hholds handle hold
      unfold WsTab.Holds at hthis ⊢
      grind -linarith
    · have hnow : .registered (cmd.handle id)
          ∈ tab.connecting.set k (.registered (cmd.handle id)) := by
        apply List.mem_set
        exact (List.getElem?_eq_some_iff.mp hk).1
      unfold WsTab.Holds
      grind -linarith
  · exact hwhole
  · exact hidle
  · exact hlisted
  · -- what was waited for is registered now
    obtain ⟨hlt, hget⟩ := List.getElem?_eq_some_iff.mp hk
    have hone : [(cmd.handle id, c)].countP (fun entry => entry.1.kind = .vnc && entry.2 = c)
        = if cmd = .vncConnect then 1 else 0 := by
      cases cmd <;> simp [WsConnect.handle, WsHandle.kind]
    unfold WsTab.vncWaiting vncHeld at hcapped ⊢
    rw [hregistry, List.countP_append, hone, List.countP_set hlt, hget]
    cases cmd with
    | termOpen session =>
      simp
      omega
    | vncConnect =>
      have hpos : 0 < tab.connecting.countP (· = .waiting .vncConnect) := by
        apply List.countP_pos_iff.mpr
        exact ⟨_, List.mem_of_getElem? hk, by simp⟩
      simp
      omega

theorem Kept.establish (h : m.Kept) :
  (m.establish c k).Kept
  := by
  unfold WsTabs.establish
  split
  · rename_i cmd hcmd
    obtain ⟨tab, htab, hk⟩ := Option.bind_eq_some_iff.mp hcmd
    apply h.add (fun tab => { tab with
      connecting := tab.connecting.set k (.registered (cmd.handle m.next)) }) (cmd.handle m.next)
    · rfl
    · rfl
    · rfl
    · exact (List.getElem?_eq_some_iff.mp htab).1
    · intro tab' htab' hfine
      rw [htab] at htab'
      obtain rfl := Option.some.inj htab'
      exact fine_establish hfine hk rfl rfl
  · exact h

theorem Kept.record (h : m.Kept) (hprompt : prompt (.record c k) m) :
  (m.record c k).Kept
  := by
  apply h.setTab
  intro tab htab hfine
  rw [prompt, htab, Option.all_some] at hprompt
  split
  · rename_i handle hk
    rw [hk] at hprompt
    obtain ⟨hholds, hwhole, hidle, hlisted, hcapped⟩ := hfine
    have hfewer := (List.eraseIdx_sublist tab.connecting k).countP_le
      (p := fun x => decide (x = .waiting .vncConnect))
    constructor
    · intro handle' hin
      have hold := hholds handle' hin
      have hkeep := fun hmem : WsConnecting.registered handle' ∈ tab.connecting =>
        Places.mem_eraseIdx_of_mem hk hmem
      unfold WsTab.Holds at hold ⊢
      grind -linarith
    · exact hwhole
    · exact hidle
    · intro session hsession
      exact List.mem_append_left _ (hlisted session hsession)
    · unfold WsTab.vncWaiting at hcapped ⊢
      dsimp only
      omega
  · exact hfine

/-! ### Commands that the reader awaits -/

theorem fine_closing (h : WsTab.Fine m c tab) (hreads : tab.reads) (handle : WsHandle) :
  WsTab.Fine m c { tab with
    opened := tab.opened.filter (· ≠ handle), awaited := some (.closing handle) }
  := by
  obtain ⟨hholds, hwhole, hidle, hlisted, hcapped⟩ := h
  rw [WsTab.reads, Bool.and_eq_true, Option.isNone_iff_eq_none] at hreads
  constructor
  · intro handle' hin
    have hold := hholds handle' hin
    unfold WsTab.Holds at hold ⊢
    grind -linarith
  · exact hwhole
  · simp [hreads.1]
  · simp
  · exact hcapped

theorem fine_monitorStart (h : WsTab.Fine m c tab) (hreads : tab.reads) (session : Text) :
  WsTab.Fine m c { tab with
    opened :=
      if .monitor session ∈ tab.opened then tab.opened else tab.opened ++ [.monitor session]
    awaited := some (.monitoring session) }
  := by
  obtain ⟨hholds, hwhole, hidle, hlisted, hcapped⟩ := h
  rw [WsTab.reads, Bool.and_eq_true, Option.isNone_iff_eq_none] at hreads
  constructor
  · intro handle' hin
    have hold := hholds handle' hin
    unfold WsTab.Holds at hold ⊢
    grind -linarith
  · exact hwhole
  · simp [hreads.1]
  · rintro _ ⟨⟩
    dsimp only
    split
    · assumption
    · simp
  · exact hcapped

theorem reads_of_any (h : m.tabs[c]?.any (·.reads)) (htab : m.tabs[c]? = some tab) :
  tab.reads
  := by
  rw [htab] at h
  exact h

theorem fine_scanning (h : WsTab.Fine m c tab) (hreads : tab.reads) {id : ℕ}
    (hregistry : m'.registry = m.registry ++ [(.scan id, c)])
    (hcancelled : m'.cancelled = m.cancelled) :
  WsTab.Fine m' c { tab with awaited := some (.scanning (.scan id)) }
  := by
  obtain ⟨hholds, hwhole, hidle, hlisted, hcapped⟩ := h
  rw [WsTab.reads, Bool.and_eq_true, Option.isNone_iff_eq_none] at hreads
  constructor
  · intro handle hin
    have hcases : (handle, c) ∈ m.registry ∨ handle = .scan id := by
      simpa [hregistry] using hin
    have hold := hholds handle
    rw [hcancelled]
    unfold WsTab.Holds at hold ⊢
    grind -linarith
  · exact hwhole
  · simp [hreads.1]
  · simp
  · have hheld : m'.vncHeld c = m.vncHeld c := by
      simp [vncHeld, hregistry, WsHandle.kind]
    rw [hheld]
    exact hcapped

theorem Kept.scanStart (h : m.Kept) (hreads : m.tabs[c]?.any (·.reads)) :
  (m.scanStart c).Kept
  := by
  unfold WsTabs.scanStart
  split
  · rename_i tab htab
    split
    · apply h.add (fun tab => { tab with awaited := some (.scanning (.scan m.next)) })
        (.scan m.next)
      · rfl
      · rfl
      · rfl
      · exact (List.getElem?_eq_some_iff.mp htab).1
      · intro tab' htab' hfine
        exact fine_scanning hfine (reads_of_any hreads htab') rfl rfl
    · exact h
  · exact h

theorem cancel_spec (handle : WsHandle) :
  (m.cancel handle).tabs = m.tabs ∧ (m.cancel handle).registry = m.registry
    ∧ (∀ handle' ∈ m.cancelled, handle' ∈ (m.cancel handle).cancelled)
    ∧ ∀ c, (handle, c) ∈ m.registry → handle ∈ (m.cancel handle).cancelled
  := by
  unfold WsTabs.cancel
  split
  · simp
    tauto
  · rename_i hnone
    refine ⟨rfl, rfl, fun _ hin => hin, ?_⟩
    intro c hin
    exact absurd (List.any_eq_true.mpr ⟨_, hin, by simp⟩) hnone

theorem fine_cancelled (h : WsTab.Fine m c tab)
    (hhandle : (handle, c) ∈ m.registry → handle ∈ m.cancelled)
    (hawaited : ∀ session, tab.awaited = some (.monitoring session) → .monitor session ≠ handle) :
  WsTab.Fine m c { tab with opened := tab.opened.filter (· ≠ handle) }
  := by
  obtain ⟨hholds, hwhole, hidle, hlisted, hcapped⟩ := h
  constructor
  · intro handle' hin
    have hold := hholds handle' hin
    unfold WsTab.Holds at hold ⊢
    grind -linarith
  · exact hwhole
  · exact hidle
  · intro session hsession
    have hne := hawaited session hsession
    have hin := hlisted session hsession
    simp [hin, hne]
  · exact hcapped

theorem Kept.cancel (h : m.Kept) (handle : WsHandle) :
  (m.cancel handle).Kept
  := by
  obtain ⟨htabs, hregistry, hcancelled, -⟩ := @cancel_spec m handle
  constructor
  · intro c tab htab
    rw [htabs] at htab
    exact fine_mono (h.fine c tab htab) (by rw [hregistry]) hcancelled
  · rw [htabs, hregistry]
    exact h.known

theorem Kept.scanCancel (h : m.Kept) (id : ℕ) :
  (m.scanCancel c id).Kept
  := by
  apply (h.cancel _).setTab
  intro tab _ hfine
  apply fine_cancelled hfine
  · obtain ⟨-, hregistry, -, hnow⟩ := @cancel_spec m (.scan id)
    rw [hregistry]
    exact hnow c
  · rintro session _ ⟨⟩

theorem Kept.remove (h : m.Kept) (handle : WsHandle) :
  (m.remove handle).Kept
  := by
  constructor
  · intro c tab htab
    exact fine_mono (h.fine c tab htab) List.filter_sublist (fun _ hin => hin)
  · intro entry hentry
    exact h.known entry (List.mem_filter.mp hentry).1

theorem fine_closed (h : WsTab.Fine m c tab) (hawaited : tab.awaited = some (.closing handle))
    (hgone : (handle, c) ∉ m.registry) :
  WsTab.Fine m c { tab with awaited := none }
  := by
  obtain ⟨hholds, hwhole, hidle, hlisted, hcapped⟩ := h
  constructor
  · intro handle' hin
    have hold := hholds handle' hin
    unfold WsTab.Holds at hold ⊢
    grind -linarith
  · exact hwhole
  · simp
  · simp
  · exact hcapped

theorem fine_scanned (h : WsTab.Fine m c tab) (hawaited : tab.awaited = some (.scanning handle)) :
  WsTab.Fine m c { tab with opened := tab.opened ++ [handle], awaited := none }
  := by
  obtain ⟨hholds, hwhole, hidle, hlisted, hcapped⟩ := h
  have hall : ∀ kind, kind ∈ tab.uncleaned := by
    apply hwhole
    by_contra hclosed
    rw [hidle (by simpa using hclosed)] at hawaited
    cases hawaited
  constructor
  · intro handle' hin
    have hold := hholds handle' hin
    have hkind := hall handle'.kind
    unfold WsTab.Holds at hold ⊢
    grind -linarith
  · exact hwhole
  · simp
  · simp
  · exact hcapped

theorem fine_monitored (h : WsTab.Fine m c tab) {session : Text}
    (hawaited : tab.awaited = some (.monitoring session))
    (hregistry : ∀ handle, (handle, c) ∈ m'.registry →
      (handle, c) ∈ m.registry ∨ handle = .monitor session)
    (hcancelled : m'.cancelled = m.cancelled) (hheld : m'.vncHeld c ≤ m.vncHeld c) :
  WsTab.Fine m' c { tab with awaited := none }
  := by
  obtain ⟨hholds, hwhole, hidle, hlisted, hcapped⟩ := h
  have hall : ∀ kind, kind ∈ tab.uncleaned := by
    apply hwhole
    by_contra hclosed
    rw [hidle (by simpa using hclosed)] at hawaited
    cases hawaited
  constructor
  · intro handle hin
    have hcases := hregistry handle hin
    have hold := hholds handle
    have hlisted := hlisted session hawaited
    have hkind := hall handle.kind
    rw [hcancelled]
    unfold WsTab.Holds at hold ⊢
    grind -linarith
  · exact hwhole
  · simp
  · simp
  · unfold WsTab.vncWaiting at hcapped ⊢
    dsimp only
    omega

theorem Kept.finishAwaited (h : m.Kept) (ok : Bool) :
  (m.finishAwaited c ok).Kept
  := by
  unfold WsTabs.finishAwaited
  split
  · exact h
  · rename_i handle hawaited
    apply (h.remove handle).setTab
    intro tab htab hfine
    change m.tabs[c]? = some tab at htab
    rw [htab] at hawaited
    apply fine_closed hfine hawaited
    simp [WsTabs.remove]
  · rename_i handle hawaited
    apply h.setTab
    intro tab htab hfine
    rw [htab] at hawaited
    exact fine_scanned hfine hawaited
  · rename_i session hawaited
    obtain ⟨tab₀, htab₀, hawaited₀⟩ := Option.bind_eq_some_iff.mp hawaited
    cases ok with
    | false =>
      apply h.setTab
      intro tab htab hfine
      rw [htab] at hawaited
      exact fine_monitored hfine hawaited (fun _ hin => .inl hin) rfl le_rfl
    | true =>
      apply (h.remove (.monitor session)).add (fun tab => { tab with awaited := none })
        (.monitor session)
      · rfl
      · rfl
      · rfl
      · exact (List.getElem?_eq_some_iff.mp htab₀).1
      · intro tab htab hfine
        change m.tabs[c]? = some tab at htab
        rw [htab] at hawaited
        apply fine_monitored hfine hawaited
        · intro handle hin
          simpa [WsTabs.setTab] using hin
        · rfl
        · simp [vncHeld, WsTabs.setTab, WsHandle.kind]

/-! ### The end of a connection -/

theorem fine_next (h : WsTab.Fine m c tab) {cleaning : List WsHandle}
    (hcleaning : tab.cleaning = handle :: cleaning)
    (hhandle : (handle, c) ∈ m.registry → handle ∈ m.cancelled) :
  WsTab.Fine m c { tab with cleaning := cleaning }
  := by
  obtain ⟨hholds, hwhole, hidle, hlisted, hcapped⟩ := h
  constructor
  · intro handle' hin
    have hold := hholds handle' hin
    unfold WsTab.Holds at hold ⊢
    grind -linarith
  · exact hwhole
  · exact hidle
  · exact hlisted
  · exact hcapped

theorem fine_copied (h : WsTab.Fine m c tab) {kind : WsKind} {uncleaned : List WsKind}
    (hopen : tab.isOpen = false) (hcleaning : tab.cleaning = [])
    (huncleaned : tab.uncleaned = kind :: uncleaned) :
  WsTab.Fine m c { tab with cleaning := tab.openedOf kind, uncleaned := uncleaned }
  := by
  obtain ⟨hholds, hwhole, hidle, hlisted, hcapped⟩ := h
  constructor
  · intro handle hin
    have hold := hholds handle hin
    unfold WsTab.Holds at hold ⊢
    unfold WsTab.openedOf
    grind -linarith
  · simp [hopen]
  · exact hidle
  · exact hlisted
  · exact hcapped

theorem Kept.clean (h : m.Kept) :
  (m.clean c).Kept
  := by
  unfold WsTabs.clean
  split
  · rename_i tab htab
    split
    · exact h
    · rename_i hopen
      split
      · rename_i handle cleaning hcleaning
        dsimp only
        split
        · obtain ⟨htabs, hregistry, -, hnow⟩ := @cancel_spec m handle
          apply (h.cancel handle).setTab
          intro tab' htab' hfine
          rw [htabs, htab] at htab'
          obtain rfl := Option.some.inj htab'
          apply fine_next hfine hcleaning
          rw [hregistry]
          exact hnow c
        · apply (h.remove handle).setTab
          intro tab' htab' hfine
          change m.tabs[c]? = some tab' at htab'
          rw [htab] at htab'
          obtain rfl := Option.some.inj htab'
          apply fine_next hfine hcleaning
          simp [WsTabs.remove]
      · rename_i kind uncleaned hcleaning huncleaned
        apply h.setTab
        intro tab' htab' hfine
        rw [htab] at htab'
        obtain rfl := Option.some.inj htab'
        exact fine_copied hfine (by simpa using hopen) hcleaning huncleaned
      · exact h
  · exact h

/-! ### Runs -/

theorem Kept.register (h : m.Kept) :
  ({ m with tabs := m.tabs ++ [{}] } : WsTabs).Kept
  := by
  constructor
  · intro c tab htab
    obtain ⟨rfl, rfl⟩ | hold := Places.getElem?_snoc htab
    · -- nothing is registered for a connection that is new
      have hnew : ∀ handle, (handle, m.tabs.length) ∉ m.registry := by
        intro handle hin
        exact absurd (h.known _ hin) (by simp)
      have hheld : m.vncHeld m.tabs.length = 0 := by
        apply List.countP_eq_zero.mpr
        intro entry hentry
        simp only [Bool.and_eq_true, decide_eq_true_iff, not_and]
        intro _ heq
        exact hnew entry.1 (by rw [← heq]; exact hentry)
      constructor
      · intro handle hin
        exact absurd hin (hnew handle)
      · intro _ kind
        cases kind <;> simp
      · simp
      · simp
      · change m.vncHeld m.tabs.length + 0 ≤ _
        rw [hheld]
        decide
    · exact fine_mono (h.fine c tab hold) (List.Sublist.refl _) (fun _ hin => hin)
  · intro entry hentry
    have hlt := h.known entry hentry
    simp
    omega

theorem Kept.onFrame (h : m.Kept) (hreads : m.tabs[c]?.any (·.reads)) (frame : WsFrameIn) :
  (m.onFrame c frame).Kept
  := by
  have hclosing : ∀ handle, (m.closeHandle c handle).Kept := by
    intro handle
    apply h.setTab
    intro tab htab hfine
    exact fine_closing hfine (reads_of_any hreads htab) handle
  cases frame with
  | connect cmd =>
    apply h.setTab
    intro tab _ hfine
    apply fine_connecting hfine
    · intro handle hin
      exact List.mem_append_left _ hin
    · have hcapped := hfine.capped
      unfold WsTab.vncWaiting at hcapped
      simpa using hcapped
  | termClose session chan => exact hclosing _
  | vncClose id => exact hclosing _
  | monitorStart session =>
    apply h.setTab
    intro tab htab hfine
    exact fine_monitorStart hfine (reads_of_any hreads htab) session
  | monitorStop session => exact hclosing _
  | scanStart => exact h.scanStart hreads
  | scanCancel id => exact h.scanCancel id
  | close =>
    apply h.setTab
    intro tab htab hfine
    have hnone := reads_of_any hreads htab
    rw [WsTab.reads, Bool.and_eq_true, Option.isNone_iff_eq_none] at hnone
    exact ⟨hfine.holds, by simp, fun _ => hnone.2, hfine.listed, hfine.capped⟩

theorem Kept.after (h : m.Kept) {event : WsTabEvent} (hprompt : prompt event m) :
  (m.after event).Kept
  := by
  cases event with
  | register => exact h.register
  | frame c frame =>
    rw [WsTabs.after]
    split
    · rename_i hreads
      exact h.onFrame hreads frame
    · exact h
  | startConnect c k => exact h.startConnect hprompt
  | failConnect c k => exact h.failConnect
  | establish c k => exact h.establish
  | record c k => exact h.record hprompt
  | finishAwaited c ok => exact h.finishAwaited ok
  | clean c => exact h.clean
  | ends handle => exact h.remove handle

theorem kept_start :
  ({} : WsTabs).Kept
  := by
  constructor <;> simp

theorem Kept.leakless (h : m.Kept) :
  m.Leakless
  := by
  constructor
  · intro c hcompleted handle hin
    obtain ⟨hfinished, hstopped⟩ := Bool.and_eq_true_iff.mp hcompleted
    obtain ⟨tab, htab, hfinished⟩ := (Option.any_eq_true _ _).mp hfinished
    obtain ⟨hholds, -, hidle, -, -⟩ := h.fine c tab htab
    have hthis := hholds handle hin
    have hrunning := List.all_eq_true.mp hstopped (handle, c) hin
    simp only [WsTab.finished, Bool.and_eq_true, List.isEmpty_iff, Bool.not_eq_true']
      at hfinished
    unfold WsTab.Holds at hthis
    grind -linarith
  · intro c
    obtain hlt | hge := Nat.lt_or_ge c m.tabs.length
    · have hcapped := (h.fine c _ (List.getElem?_eq_getElem hlt)).capped
      omega
    · -- nothing is registered for a connection that does not exist
      have hheld : m.vncHeld c = 0 := by
        apply List.countP_eq_zero.mpr
        intro entry hentry
        have hlt := h.known entry hentry
        simp only [Bool.and_eq_true, decide_eq_true_iff, not_and]
        intro _ heq
        omega
      rw [hheld]
      exact Nat.zero_le _

/-- In every run in which connect commands find room, and what they opened is recorded before its
list is copied, no connection that is over leaves anything. -/
theorem leakless_throughout {es : List WsTabEvent}
    (h : Steps.Throughout after (fun e m => prompt e m) es {}) :
  (es.foldl after {}).Leakless
  := by
  apply Kept.leakless
  apply Steps.invariant kept_start _ h
  intro m event hm hprompt
  exact hm.after hprompt

/-- A VNC session that is open, and the tab is closed. -/
theorem leakless_throughout_one :
  WsTabs.Leakless ([.register, .frame 0 (.connect .vncConnect), .startConnect 0 0, .establish 0 0,
    .record 0 0, .frame 0 .close, .clean 0, .clean 0, .clean 0, .clean 0, .clean 0].foldl after {})
  := by
  apply leakless_throughout
  decide

/-- A VNC session outlives a tab whose list was copied before; and with nine connect commands at a
time, one connection holds nine sessions. -/
theorem not_leakless_late :
  (∃ es : List WsTabEvent, (es.foldl after {}).completed 0
    ∧ (.vnc 0, 0) ∈ (es.foldl after {}).registry)
  ∧ ∃ es : List WsTabEvent, MAX_VNC_PER_CONN < (es.foldl after {}).vncHeld 0
  := by
  constructor
  · use [.register, .frame 0 (.connect .vncConnect), .startConnect 0 0, .frame 0 .close, .clean 0,
      .clean 0, .clean 0, .clean 0, .establish 0 0, .record 0 0]
    decide
  · use .register :: List.replicate 9 (.frame 0 (.connect .vncConnect))
      ++ (List.range 9).map (.startConnect 0) ++ (List.range 9).map (.establish 0)
    decide

end WsTabs

end Server
