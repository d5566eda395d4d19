import Catio.Db.QuerySessionRegistry

/-!
# Leases of query sessions

What holds of the sessions after every run of the registry, when the random ids of the opened
sessions are distinct: the bounds, the parents of the sessions, the tickets of the sessions
without a driver, and the custody of the drivers, each of which is at one place
(`querySessions_sound`).
-/

namespace Db

namespace ConnManager

open Text

/-! ### The places of a driver -/

/-- The drivers of the sessions in the registry. -/
def installed (entries : Table Text SessionEntry) : List ℕ :=
  entries.entries.filterMap fun e => e.2.driver

/-- The drivers of the sessions that are still to be retired. -/
def retired (retiring : List (Text × SessionEntry)) : List ℕ :=
  retiring.filterMap fun session => session.2.driver

/-- At how many places a driver is: in the registry, before its retirement, before its close
or closed. -/
def places (m : ConnManager) (driver : ℕ) : ℕ :=
  (installed m.entries).count driver + (retired m.retiring).count driver
    + m.closing.count driver + m.closed.count driver

variable {entries : Table Text SessionEntry} {id : Text} {entry : SessionEntry}

variable {m' : ConnManager} {es es' : List Event} {parent : Text} {connection : Text} {now : ℕ}
    {e : Event} {α : Type}

theorem installed_insert (h : id ∉ entries) :
  installed (entries.insert id ⟨parent, none, now⟩) = installed entries
  := by
  rw [installed, Table.entries_insert_of_notMem h]
  rfl

theorem installed_erase (h : entries.lookup id = some entry) :
  (installed entries).Perm (entry.driver.toList ++ installed (entries.erase id))
  := by
  have hperm := (Table.entries_perm_erase h).filterMap fun e => e.2.driver
  apply hperm.trans
  rw [List.filterMap_cons]
  cases entry.driver with
  | none => rfl
  | some driver => rfl

theorem installed_modify {f : SessionEntry → SessionEntry} (h : entries.lookup id = some entry) :
  (installed (entries.modify id f)).Perm
    ((f entry).driver.toList ++ installed (entries.erase id))
  := by
  have hperm := (Table.entries_perm_modify (f := f) h).filterMap fun e => e.2.driver
  apply hperm.trans
  rw [List.filterMap_cons]
  cases (f entry).driver with
  | none => rfl
  | some driver => rfl

theorem installed_retain (p : Text → SessionEntry → Bool) (entries : Table Text SessionEntry) :
  (installed entries).Perm
    (retired ((entries.entries.filter fun e => p e.1 e.2).map fun e => (e.1, e.2))
      ++ installed (entries.retain fun id entry => !p id entry))
  := by
  have hperm := (Table.entries_perm_retain p entries).filterMap fun e => e.2.driver
  apply hperm.trans
  rw [List.filterMap_append, retired, List.filterMap_map]
  rfl

theorem retired_append (first second : List (Text × SessionEntry)) :
  retired (first ++ second) = retired first ++ retired second
  := List.filterMap_append

theorem retired_erase {retiring : List (Text × SessionEntry)} {session : Text × SessionEntry}
    (h : session ∈ retiring) :
  (retired retiring).Perm (session.2.driver.toList ++ retired (retiring.erase session))
  := by
  have hperm := (List.perm_cons_erase h).filterMap fun session => session.2.driver
  apply hperm.trans
  rw [List.filterMap_cons]
  cases session.2.driver with
  | none => rfl
  | some driver => rfl

/-! ### The invariant -/

/-- What holds of the sessions, when these were opened, each for its parent. -/
structure Leased (opened : List (Text × Text)) (m : ConnManager) : Prop where
  total : m.entries.size ≤ maxTotal
  perConnection : ∀ parent,
    m.entries.count (fun _ entry => entry.parent = parent) ≤ maxPerConnection
  origin : ∀ id entry, m.entries.lookup id = some entry → (id, entry.parent) ∈ opened
  ticketIds : (m.tickets.map OpeningSession.id).Nodup
  ticketOrigin : ∀ ticket ∈ m.tickets, ticket.id ∈ opened.map Prod.fst
  opening : ∀ id entry, m.entries.lookup id = some entry →
    (entry.driver = none ↔ ⟨id, .opening⟩ ∈ m.tickets)
  cancelled : ∀ id ∈ m.cancelled, id ∉ m.entries ∧ id ∈ opened.map Prod.fst
  retiring : ∀ session ∈ m.retiring, session.1 ∉ m.entries ∧ session.1 ∈ opened.map Prod.fst
  custody : ∀ driver, m.places driver = if driver < m.drivers then 1 else 0

variable {opened : List (Text × Text)} {m : ConnManager}

theorem Leased.mem_opened (hm : Leased opened m) (h : id ∈ m.entries) :
  id ∈ opened.map Prod.fst
  := by
  obtain ⟨entry, hentry⟩ := Table.mem_iff_exists_lookup.mp h
  exact List.mem_map_of_mem (hm.origin id entry hentry)

theorem Leased.aside (hm : Leased opened m) (conns : List Text) (running : RunningQueries)
    (removals : List Text) :
  Leased opened { m with conns := conns, running := running, removals := removals }
  where
  total := hm.total
  perConnection := hm.perConnection
  origin := hm.origin
  ticketIds := hm.ticketIds
  ticketOrigin := hm.ticketOrigin
  opening := hm.opening
  cancelled := hm.cancelled
  retiring := hm.retiring
  custody := hm.custody

theorem Leased.touchEntry (hm : Leased opened m) (id : Text) (now : ℕ) :
  Leased opened (m.touchEntry id now)
  where
  total := by
    rw [ConnManager.touchEntry, Table.size_modify]
    exact hm.total
  perConnection := by
    intro parent
    rw [ConnManager.touchEntry, Table.count_modify]
    · exact hm.perConnection parent
    · intro entry
      rfl
  origin := by
    intro id' entry hentry
    obtain ⟨before, hbefore, rfl⟩ := Table.lookup_modify_eq_some.mp hentry
    rw [apply_ite SessionEntry.parent, ite_self]
    exact hm.origin id' before hbefore
  ticketIds := hm.ticketIds
  ticketOrigin := hm.ticketOrigin
  opening := by
    intro id' entry hentry
    obtain ⟨before, hbefore, rfl⟩ := Table.lookup_modify_eq_some.mp hentry
    rw [apply_ite SessionEntry.driver, ite_self]
    exact hm.opening id' before hbefore
  cancelled := by
    intro id' hid'
    rw [ConnManager.touchEntry, Table.mem_modify]
    exact hm.cancelled id' hid'
  retiring := by
    intro session hsession
    rw [ConnManager.touchEntry, Table.mem_modify]
    exact hm.retiring session hsession
  custody := by
    intro driver
    have hplaces := hm.custody driver
    unfold places ConnManager.touchEntry at *
    by_cases hid : id ∈ m.entries
    · obtain ⟨entry, hentry⟩ := Table.mem_iff_exists_lookup.mp hid
      have hbefore := (installed_erase hentry).count_eq driver
      have hafter := (installed_modify (f := fun entry => { entry with touched := now })
        hentry).count_eq driver
      rw [hafter, ← hbefore]
      exact hplaces
    · rw [Table.modify_of_notMem hid]
      exact hplaces

theorem Leased.takeOut (hm : Leased opened m) (p : Text → SessionEntry → Bool) :
  Leased opened (m.takeOut p)
  where
  total := (Table.size_retain_le _ _).trans hm.total
  perConnection := fun parent => (Table.count_retain_le _ _ _).trans (hm.perConnection parent)
  origin := by
    intro id entry hentry
    rw [ConnManager.takeOut, Table.lookup_retain, Option.filter_eq_some_iff] at hentry
    exact hm.origin id entry hentry.1
  ticketIds := hm.ticketIds
  ticketOrigin := hm.ticketOrigin
  opening := by
    intro id entry hentry
    rw [ConnManager.takeOut, Table.lookup_retain, Option.filter_eq_some_iff] at hentry
    exact hm.opening id entry hentry.1
  cancelled := by
    intro id hid
    refine ⟨?_, (hm.cancelled id hid).2⟩
    intro hmem
    exact (hm.cancelled id hid).1 (Table.mem_of_mem_retain hmem)
  retiring := by
    rw [ConnManager.takeOut, List.forall_mem_append]
    constructor
    · intro session hsession
      obtain ⟨⟨id, entry⟩, hmem, rfl⟩ := List.mem_map.mp hsession
      obtain ⟨hentry, hp⟩ := List.mem_filter.mp hmem
      have hlookup := Table.lookup_eq_some.mpr hentry
      refine ⟨?_, List.mem_map_of_mem (hm.origin id entry hlookup)⟩
      rw [Table.mem_iff_exists_lookup]
      rintro ⟨entry', hentry'⟩
      rw [Table.lookup_retain, hlookup, Option.filter_eq_some_iff] at hentry'
      obtain ⟨heq, hnot⟩ := hentry'
      cases heq
      rw [hp] at hnot
      cases hnot
    · intro session hsession
      refine ⟨?_, (hm.retiring session hsession).2⟩
      intro hmem
      exact (hm.retiring session hsession).1 (Table.mem_of_mem_retain hmem)
  custody := by
    intro driver
    have hplaces := hm.custody driver
    have hinstalled := (installed_retain p m.entries).count_eq driver
    apply Eq.trans _ hplaces
    simp only [places, ConnManager.takeOut, retired_append, List.count_append]
      at hinstalled ⊢
    omega

theorem Leased.more (hm : Leased opened m) (later : List (Text × Text)) :
  Leased (opened ++ later) m
  := by
  have hmono : ∀ id, id ∈ opened.map Prod.fst → id ∈ (opened ++ later).map Prod.fst := by
    intro id hid
    rw [List.map_append]
    exact List.mem_append_left _ hid
  exact { hm with
    origin := by
      intro id entry hentry
      exact List.mem_append_left _ (hm.origin id entry hentry)
    ticketOrigin := by
      intro ticket hticket
      exact hmono _ (hm.ticketOrigin ticket hticket)
    cancelled := by
      intro id hid
      exact (hm.cancelled id hid).imp_right (hmono _)
    retiring := by
      intro session hsession
      exact (hm.retiring session hsession).imp_right (hmono _) }

theorem Leased.reserve (hm : Leased opened m) (hfresh : id ∉ opened.map Prod.fst)
    (htotal : m.entries.size < maxTotal)
    (hconnection :
      m.entries.count (fun _ entry => entry.parent = parent) < maxPerConnection) (now : ℕ) :
  Leased (opened ++ [(id, parent)]) { m with
    entries := m.entries.insert id ⟨parent, none, now⟩
    tickets := ⟨id, .opening⟩ :: m.tickets }
  := by
  have hkept := hm.more [(id, parent)]
  have hnew : id ∉ m.entries := fun hmem => hfresh (hm.mem_opened hmem)
  have hid : id ∈ (opened ++ [(id, parent)]).map Prod.fst := by simp
  have hother : ∀ other, other ∈ opened.map Prod.fst → other ≠ id := by
    rintro other hmem rfl
    exact hfresh hmem
  exact {
    total := by
      rw [Table.size_eq_count] at htotal ⊢
      apply (Table.count_insert_le _ _ _ _).trans
      rw [if_pos rfl]
      exact htotal
    perConnection := by
      intro parent'
      apply (Table.count_insert_le _ _ _ _).trans
      by_cases heq : parent = parent'
      · subst heq
        rw [if_pos (by simp)]
        exact hconnection
      · rw [if_neg (by simpa using heq)]
        exact hm.perConnection parent'
    origin := by
      intro id' entry hentry
      by_cases heq : id' = id
      · subst heq
        rw [AList.lookup_insert] at hentry
        cases hentry
        simp
      · rw [AList.lookup_insert_ne heq] at hentry
        exact hkept.origin id' entry hentry
    ticketIds := by
      rw [List.map_cons, List.nodup_cons]
      refine ⟨?_, hm.ticketIds⟩
      intro hmem
      obtain ⟨ticket, hticket, heq⟩ := List.mem_map.mp hmem
      exact hother _ (hm.ticketOrigin ticket hticket) heq
    ticketOrigin := List.forall_mem_cons.mpr ⟨hid, hkept.ticketOrigin⟩
    opening := by
      intro id' entry hentry
      by_cases heq : id' = id
      · subst heq
        rw [AList.lookup_insert] at hentry
        cases hentry
        simp
      · rw [AList.lookup_insert_ne heq] at hentry
        rw [hm.opening id' entry hentry, List.mem_cons]
        simp [heq]
    cancelled := by
      intro id' hid'
      refine ⟨?_, (hkept.cancelled id' hid').2⟩
      rw [AList.mem_insert, not_or]
      exact ⟨hother _ (hm.cancelled id' hid').2, (hm.cancelled id' hid').1⟩
    retiring := by
      intro session hsession
      refine ⟨?_, (hkept.retiring session hsession).2⟩
      rw [AList.mem_insert, not_or]
      exact ⟨hother _ (hm.retiring session hsession).2, (hm.retiring session hsession).1⟩
    custody := by
      intro driver
      have hplaces := hm.custody driver
      simp only [places] at hplaces ⊢
      rw [installed_insert hnew]
      exact hplaces }

/-! ### Tickets -/

theorem settle_id (id : Text) (phase : TicketPhase) (ticket : OpeningSession) :
  (ticket.settle id phase).id = ticket.id
  := by
  unfold OpeningSession.settle
  split
  · rfl
  · rfl

theorem map_settle_id (id : Text) (phase : TicketPhase) (tickets : List OpeningSession) :
  (tickets.map (OpeningSession.settle id phase)).map OpeningSession.id
    = tickets.map OpeningSession.id
  := by
  rw [List.map_map]
  apply List.map_congr_left
  intro ticket _
  apply settle_id

theorem opening_mem_settle {phase : TicketPhase} {tickets : List OpeningSession} {id' : Text}
    (h : id' ≠ id) :
  ⟨id', .opening⟩ ∈ tickets.map (OpeningSession.settle id phase)
    ↔ ⟨id', .opening⟩ ∈ tickets
  := by
  rw [List.mem_map]
  constructor
  · rintro ⟨ticket, hticket, heq⟩
    have hid : ticket.id = id' := by
      rw [← settle_id id phase, heq]
    rw [OpeningSession.settle, if_neg (hid ▸ h)] at heq
    rw [← heq]
    exact hticket
  · intro hticket
    exact ⟨_, hticket, by rw [OpeningSession.settle, if_neg h]⟩

theorem opening_notMem_settle (id : Text) (tickets : List OpeningSession) (phase : TicketPhase)
    (h : phase ≠ .opening) :
  ⟨id, .opening⟩ ∉ tickets.map (OpeningSession.settle id phase)
  := by
  rw [List.mem_map]
  rintro ⟨ticket, -, heq⟩
  have hid : ticket.id = id := by
    rw [← settle_id id phase, heq]
  rw [OpeningSession.settle, if_pos hid] at heq
  exact h (congrArg OpeningSession.phase heq)

theorem Leased.activate (hm : Leased opened m) (now : ℕ) (h : ⟨id, .opening⟩ ∈ m.tickets) :
  Leased opened (m.activate id now).2
  := by
  have htickets : ∀ phase, ∀ ticket ∈ m.tickets.map (OpeningSession.settle id phase),
      ticket.id ∈ opened.map Prod.fst := by
    intro phase ticket hticket
    obtain ⟨before, hbefore, rfl⟩ := List.mem_map.mp hticket
    rw [settle_id]
    exact hm.ticketOrigin before hbefore
  unfold ConnManager.activate
  split
  · rename_i hopen
    obtain ⟨entry, hentry⟩ := Table.mem_iff_exists_lookup.mp hopen.1
    have hnone := (hm.opening id entry hentry).mpr h
    exact {
      total := by
        rw [Table.size_modify]
        exact hm.total
      perConnection := by
        intro parent
        rw [Table.count_modify]
        · exact hm.perConnection parent
        · intro entry
          rfl
      origin := by
        intro id' entry' hentry'
        obtain ⟨before, hbefore, rfl⟩ := Table.lookup_modify_eq_some.mp hentry'
        rw [apply_ite SessionEntry.parent, ite_self]
        exact hm.origin id' before hbefore
      ticketIds := by
        rw [map_settle_id]
        exact hm.ticketIds
      ticketOrigin := htickets _
      opening := by
        intro id' entry' hentry'
        obtain ⟨before, hbefore, rfl⟩ := Table.lookup_modify_eq_some.mp hentry'
        by_cases heq : id' = id
        · subst heq
          rw [if_pos rfl]
          have hsettled := opening_notMem_settle id' m.tickets TicketPhase.activated (by decide)
          simp [hsettled]
        · rw [if_neg heq, opening_mem_settle heq]
          exact hm.opening id' before hbefore
      cancelled := by
        intro id' hid'
        rw [Table.mem_modify]
        exact hm.cancelled id' hid'
      retiring := by
        intro session hsession
        rw [Table.mem_modify]
        exact hm.retiring session hsession
      custody := by
        intro driver
        have hplaces := hm.custody driver
        have hbefore := (installed_erase hentry).count_eq driver
        have hafter := (installed_modify (f := fun entry =>
          { entry with driver := some m.drivers, touched := now }) hentry).count_eq driver
        rw [hnone] at hbefore
        simp only [places, List.count_append, Option.toList, List.count_nil, List.count_singleton,
          beq_iff_eq] at hplaces hbefore hafter ⊢
        rw [hafter]
        split_ifs at hplaces ⊢ <;> omega }
  · rename_i hgone
    have hmissing : id ∉ m.entries := by
      intro hmem
      apply hgone
      refine ⟨hmem, ?_⟩
      intro hcancelled
      exact (hm.cancelled id hcancelled).1 hmem
    exact {
      total := hm.total
      perConnection := hm.perConnection
      origin := hm.origin
      ticketIds := by
        rw [map_settle_id]
        exact hm.ticketIds
      ticketOrigin := htickets _
      opening := by
        intro id' entry hentry
        have heq : id' ≠ id := by
          rintro rfl
          exact hmissing (Table.mem_iff_exists_lookup.mpr ⟨entry, hentry⟩)
        rw [opening_mem_settle heq]
        exact hm.opening id' entry hentry
      cancelled := hm.cancelled
      retiring := hm.retiring
      custody := by
        intro driver
        have hplaces := hm.custody driver
        simp only [places, List.count_cons, beq_iff_eq] at hplaces ⊢
        split_ifs at hplaces ⊢ <;> omega }

theorem Leased.untick (hm : Leased opened m) {ticket : OpeningSession} (h : ticket ∈ m.tickets)
    (hphase : ticket.id ∈ m.entries → ticket.phase = .activated) :
  Leased opened { m with tickets := m.tickets.erase ticket }
  := by
  have hsub := List.erase_sublist (a := ticket) (l := m.tickets)
  exact { hm with
    ticketIds := hm.ticketIds.sublist (hsub.map OpeningSession.id)
    ticketOrigin := by
      intro other hother
      exact hm.ticketOrigin other (hsub.subset hother)
    opening := by
      intro id entry hentry
      rw [hm.opening id entry hentry, (List.Nodup.of_map _ hm.ticketIds).mem_erase_iff,
        iff_and_self]
      rintro - rfl
      have hactivated := hphase (Table.mem_iff_exists_lookup.mpr ⟨entry, hentry⟩)
      cases hactivated }

theorem Leased.giveBack (hm : Leased opened m) (h : m.entries.lookup id = some entry) :
  Leased opened { m with
    entries := m.entries.erase id
    cancelled := id :: m.cancelled
    closed := entry.driver.toList ++ m.closed }
  := by
  have hopened := hm.mem_opened (Table.mem_iff_exists_lookup.mpr ⟨entry, h⟩)
  have hlookup : ∀ id' entry', (m.entries.erase id).lookup id' = some entry' →
      m.entries.lookup id' = some entry' := by
    intro id' entry' hentry'
    by_cases heq : id' = id
    · subst heq
      rw [AList.lookup_erase] at hentry'
      cases hentry'
    · rw [AList.lookup_erase_ne heq] at hentry'
      exact hentry'
  have hmem : ∀ id', id' ∉ m.entries → id' ∉ m.entries.erase id := by
    intro id' hid'
    rw [AList.mem_erase]
    exact fun h => hid' h.2
  exact { hm with
    total := by
      have htotal := hm.total
      rw [Table.size_eq_count] at htotal ⊢
      exact (Table.count_erase_le _ _ _).trans htotal
    perConnection := by
      intro parent
      exact (Table.count_erase_le _ _ _).trans (hm.perConnection parent)
    origin := by
      intro id' entry' hentry'
      exact hm.origin id' entry' (hlookup id' entry' hentry')
    opening := by
      intro id' entry' hentry'
      exact hm.opening id' entry' (hlookup id' entry' hentry')
    cancelled := by
      rw [List.forall_mem_cons]
      refine ⟨⟨?_, hopened⟩, ?_⟩
      · rw [AList.mem_erase]
        exact fun h => h.1 rfl
      · intro id' hid'
        exact (hm.cancelled id' hid').imp_left (hmem id')
    retiring := by
      intro session hsession
      exact (hm.retiring session hsession).imp_left (hmem session.1)
    custody := by
      intro driver
      have hinstalled := (installed_erase h).count_eq driver
      apply Eq.trans _ (hm.custody driver)
      simp only [places, List.count_append] at hinstalled ⊢
      omega }

theorem Leased.dropTicket (hm : Leased opened m) {ticket : OpeningSession}
    (h : ticket ∈ m.tickets) :
  Leased opened (m.dropTicket ticket)
  := by
  unfold ConnManager.dropTicket
  dsimp only
  split
  · rename_i hactivated
    apply hm.untick h
    intro _
    exact hactivated
  · split
    · rename_i hnone
      apply hm.untick h
      intro hmem
      exact absurd hmem (AList.lookup_eq_none.mp hnone)
    · rename_i entry hentry
      apply (hm.giveBack hentry).untick h
      rw [AList.mem_erase]
      exact fun h => absurd rfl h.1

/-! ### Retirement -/

theorem Leased.retire (hm : Leased opened m) {session : Text × SessionEntry}
    (h : session ∈ m.retiring) :
  Leased opened (m.retire session)
  := { hm with
    cancelled := List.forall_mem_cons.mpr ⟨hm.retiring session h, hm.cancelled⟩
    retiring := by
      intro other hother
      exact hm.retiring other (List.mem_of_mem_erase hother)
    custody := by
      intro driver
      have hretired := (retired_erase h).count_eq driver
      apply Eq.trans _ (hm.custody driver)
      simp only [places, ConnManager.retire, List.count_append] at hretired ⊢
      omega }

theorem Leased.closeDriver (hm : Leased opened m) {driver : ℕ} (h : driver ∈ m.closing) :
  Leased opened (m.closeDriver driver)
  := { hm with
    custody := by
      intro other
      have hclosing := (List.perm_cons_erase h).count_eq other
      apply Eq.trans _ (hm.custody other)
      simp only [places, ConnManager.closeDriver, List.count_cons] at hclosing ⊢
      omega }

/-! ### Lookups -/

theorem Leased.driver (hm : Leased opened m) (parent id : Text) (now : ℕ) :
  Leased opened (m.driver parent id now).2
  := by
  unfold ConnManager.driver
  split
  · exact hm
  · apply hm.touchEntry

theorem Leased.acquire (hm : Leased opened m) (parent id execution : Text) (now : ℕ) :
  Leased opened (m.acquire parent id execution now).2
  := by
  unfold ConnManager.acquire
  split
  · exact hm
  · split
    · exact hm.aside m.conns _ m.removals
    · apply (hm.aside m.conns _ m.removals).touchEntry

theorem Leased.cancel (hm : Leased opened m) (parent id execution : Text) (now : ℕ)
    (supportsQueryCancel : Bool) :
  Leased opened (m.cancel parent id execution now supportsQueryCancel).2
  := by
  have hdriver := hm.driver parent id now
  unfold ConnManager.cancel
  generalize m.driver parent id now = looked at hdriver
  obtain ⟨result, m'⟩ := looked
  cases result with
  | error e => exact hdriver
  | ok driver =>
    dsimp only
    split
    · exact hdriver
    · exact hdriver.aside m'.conns _ m'.removals

theorem Leased.close (hm : Leased opened m) (parent id : Text) :
  Leased opened (m.close parent id).2
  := by
  unfold ConnManager.close
  split
  · exact hm
  · split
    · exact hm
    · apply hm.takeOut

/-! ### One step and runs -/

theorem Leased.onConnection (hm : Leased opened m)
    {f : ConnManager → Except DbError α × ConnManager} (hf : Leased opened (f m).2) :
  Leased opened (m.onConnection connection f).2
  := by
  unfold ConnManager.onConnection
  split
  · exact hf
  · exact hm

/-- What holds of the sessions holds after each step that opens no session with an id of
before. -/
theorem Leased.step {e : Event} {m' : ConnManager} (hm : Leased opened m) (h : Step m e m')
    (hfresh : ∀ session ∈ e.opened, session.1 ∉ opened.map Prod.fst) :
  Leased (opened ++ e.opened.toList) m'
  := by
  cases h with
  | insert id => exact (hm.aside _ m.running m.removals).more _
  | remove id => exact (hm.aside _ _ _).more _
  | @removeSessions id _ removed =>
    have hout := hm.takeOut fun _ entry => entry.parent = id
    exact (hout.aside m.conns m.running _).more _
  | opens connection random now =>
    unfold openQuerySession ConnManager.onConnection ConnManager.reserve at hfresh ⊢
    split
    · split
      · exact hm.more _
      · rename_i hconnection hfree
        rw [if_pos hconnection, if_neg hfree] at hfresh
        rw [not_or, not_le, not_le] at hfree
        exact hm.reserve (hfresh _ rfl) hfree.1 hfree.2 now
    · exact hm.more _
  | activate now opening => exact (hm.activate now opening).more _
  | dropTicket held => exact (hm.dropTicket held).more _
  | driver connection session now => exact (hm.onConnection (hm.driver _ _ _)).more _
  | acquire connection session execution now =>
    exact (hm.onConnection (hm.acquire _ _ _ _)).more _
  | cancel connection session execution now supportsQueryCancel =>
    exact (hm.onConnection (hm.cancel _ _ _ _ _)).more _
  | close connection session => exact (hm.close connection session).more _
  | reap now => exact (hm.takeOut _).more _
  | retire out => exact (hm.retire out).more _
  | closeDriver closing => exact (hm.closeDriver closing).more _
  | running step => exact (hm.aside m.conns _ m.removals).more _

/-- The sessions that a run opened have distinct ids. -/
def DistinctIds (es : List Event) : Prop :=
  ((es.filterMap Event.opened).map Prod.fst).Nodup

theorem opened_snoc (es : List Event) (e : Event) :
  (es ++ [e]).filterMap Event.opened = es.filterMap Event.opened ++ e.opened.toList
  := by
  rw [List.filterMap_append, List.filterMap_cons]
  cases e.opened with
  | none => rfl
  | some session => rfl

theorem DistinctIds.of_append (h : DistinctIds (es ++ es')) :
  DistinctIds es
  := by
  rw [DistinctIds, List.filterMap_append, List.map_append] at h
  exact h.of_append_left

theorem DistinctIds.fresh {es : List Event} (h : DistinctIds (es ++ [e])) :
  ∀ session ∈ e.opened, session.1 ∉ (es.filterMap Event.opened).map Prod.fst
  := by
  intro session hsession hmem
  rw [DistinctIds, opened_snoc, List.map_append, List.nodup_append] at h
  apply h.2.2 session.1 hmem session.1 _ rfl
  rw [hsession]
  simp

theorem Leased.run (hm : Leased (es.filterMap Event.opened) m) (h : Runs Step m es' m')
    (hids : DistinctIds (es ++ es')) :
  Leased ((es ++ es').filterMap Event.opened) m'
  := by
  induction h with
  | start => simpa using hm
  | snoc before last ih =>
    rw [← List.append_assoc] at hids ⊢
    rw [opened_snoc]
    exact (ih hids.of_append).step last hids.fresh

theorem leased_empty : Leased [] {}
  where
  total := Nat.zero_le _
  perConnection := fun _ => Nat.zero_le _
  origin := by simp
  ticketIds := List.nodup_nil
  ticketOrigin := by simp
  opening := by simp
  cancelled := by simp
  retiring := by simp
  custody := fun _ => rfl

theorem leased_of_runs {es : List Event} (h : Runs Step {} es m) (hids : DistinctIds es) :
  Leased (es.filterMap Event.opened) m
  := by
  have hempty : Leased (([] : List Event).filterMap Event.opened) {} := leased_empty
  exact hempty.run h hids

/-! ### Lookups of sessions -/

def Event.finds (parent id : Text) : Event → Prop
  | .driver connection session (.ok _) => connection = parent ∧ session = id
  | .acquire connection session (.ok _) => connection = parent ∧ session = id
  | .cancel connection session (.ok _) => connection = parent ∧ session = id
  | _ => False

theorem entry_of_usableDriver {now driver : ℕ} (h : m.usableDriver parent id now = some driver) :
  ∃ entry, m.entries.lookup id = some entry ∧ entry.parent = parent ∧ entry.driver = some driver
  := by
  rw [usableDriver, Option.bind_eq_some_iff] at h
  obtain ⟨entry, hentry, hdriver⟩ := h
  rw [Option.filter_eq_some_iff, usable, decide_eq_true_eq] at hentry
  exact ⟨entry, hentry.1, hentry.2.1, hdriver⟩

theorem ok_of_onConnection {a : α} {f : ConnManager → Except DbError α × ConnManager}
    (h : (m.onConnection connection f).1 = .ok a) :
  (f m).1 = .ok a
  := by
  unfold onConnection at h
  split at h
  · exact h
  · cases h

theorem usableDriver_of_driver {now driver : ℕ} (h : (m.driver parent id now).1 = .ok driver) :
  m.usableDriver parent id now = some driver
  := by
  unfold ConnManager.driver at h
  split at h
  · cases h
  · rename_i hdriver
    cases h
    exact hdriver

theorem usableDriver_of_acquire {parent execution : Text} {found : ℕ × QueryGuard}
    (h : (m.acquire parent id execution now).1 = .ok found) :
  m.usableDriver parent id now = some found.1
  := by
  unfold ConnManager.acquire at h
  split at h
  · cases h
  · rename_i hdriver
    split at h
    · cases h
    · cases h
      exact hdriver

theorem usableDriver_of_cancel {parent execution : Text} {supportsQueryCancel : Bool}
    (h : (m.cancel parent id execution now supportsQueryCancel).1 = .ok ()) :
  ∃ driver, m.usableDriver parent id now = some driver
  := by
  unfold ConnManager.cancel at h
  split at h
  · cases h
  · rename_i driver m' hdriver
    refine ⟨driver, usableDriver_of_driver ?_⟩
    rw [hdriver]

theorem Step.finds (h : Step m e m') (hfinds : e.finds parent id) :
  ∃ entry driver, m.entries.lookup id = some entry ∧ entry.parent = parent
    ∧ entry.driver = some driver
  := by
  have hfound : ∃ now driver, m.usableDriver parent id now = some driver := by
    cases h with
    | driver connection session now =>
      generalize hresult : (m.sessionDriver connection session now).1 = result at hfinds
      cases result with
      | error e => exact hfinds.elim
      | ok driver =>
        obtain ⟨rfl, rfl⟩ := hfinds
        exact ⟨now, driver, usableDriver_of_driver (ok_of_onConnection hresult)⟩
    | acquire connection session execution now =>
      generalize hresult : (m.acquireSession connection session execution now).1 = result
        at hfinds
      cases result with
      | error e => exact hfinds.elim
      | ok found =>
        obtain ⟨rfl, rfl⟩ := hfinds
        exact ⟨now, found.1, usableDriver_of_acquire (ok_of_onConnection hresult)⟩
    | cancel connection session execution now supportsQueryCancel =>
      generalize hresult : (m.cancelQueryInSession connection session execution now
        supportsQueryCancel).1 = result at hfinds
      cases result with
      | error e => exact hfinds.elim
      | ok _ =>
        obtain ⟨rfl, rfl⟩ := hfinds
        exact ⟨now, usableDriver_of_cancel (ok_of_onConnection hresult)⟩
    | _ => exact hfinds.elim
  obtain ⟨now, driver, hdriver⟩ := hfound
  obtain ⟨entry, hentry, hparent, hinstalled⟩ := entry_of_usableDriver hdriver
  exact ⟨entry, driver, hentry, hparent, hinstalled⟩

/-! ### Sessions that are gone -/

/-- The event ends the session: it closes it, reaps it, removes its parent connection or
abandons its opening. -/
def Event.ends (m : ConnManager) (id : Text) : Event → Prop
  | .close _ session (.ok ()) => session = id
  | .reap now => ∃ entry, m.entries.lookup id = some entry
      ∧ now - entry.touched ≥ fromSecs sessionLeaseSeconds
  | .removeSessions parent => ∃ entry, m.entries.lookup id = some entry ∧ entry.parent = parent
  | .dropTicket ticket => ticket.id = id ∧ ticket.phase ≠ .activated
  | _ => False

theorem notMem_takeOut {p : Text → SessionEntry → Bool}
    (h : ∀ entry, m.entries.lookup id = some entry → p id entry) :
  id ∉ (m.takeOut p).entries
  := by
  rw [Table.mem_iff_exists_lookup]
  rintro ⟨entry, hentry⟩
  rw [ConnManager.takeOut, Table.lookup_retain, Option.filter_eq_some_iff] at hentry
  rw [h entry hentry.1] at hentry
  cases hentry.2

theorem notMem_dropTicket {ticket : OpeningSession} (h : ticket.phase ≠ .activated) :
  ticket.id ∉ (m.dropTicket ticket).entries
  := by
  unfold ConnManager.dropTicket
  dsimp only
  rw [if_neg h]
  split
  · rename_i hnone
    exact AList.lookup_eq_none.mp hnone
  · rw [AList.mem_erase]
    exact fun h => h.1 rfl

theorem Step.ends (h : Step m e m') (hends : e.ends m id) :
  id ∉ m'.entries
  := by
  cases h with
  | close connection session =>
    unfold ConnManager.close at hends ⊢
    split at hends
    · rename_i hnone
      obtain rfl : session = id := hends
      exact AList.lookup_eq_none.mp hnone
    · split at hends
      · exact hends.elim
      · rename_i hparent
        obtain rfl : session = id := hends
        rw [if_neg hparent]
        apply notMem_takeOut
        simp
  | reap now =>
    obtain ⟨entry, hentry, hexpired⟩ := hends
    apply notMem_takeOut
    intro entry' hentry'
    rw [hentry] at hentry'
    cases hentry'
    simpa using hexpired
  | removeSessions removed =>
    obtain ⟨entry, hentry, hparent⟩ := hends
    apply notMem_takeOut (m := m)
    intro entry' hentry'
    rw [hentry] at hentry'
    cases hentry'
    simpa using hparent
  | dropTicket held =>
    obtain ⟨rfl, hphase⟩ := hends
    exact notMem_dropTicket hphase
  | _ => exact hends.elim

theorem mem_of_mem_touchEntry {id' : Text} (h : id ∈ (m.touchEntry id' now).entries) :
  id ∈ m.entries
  := by
  rw [ConnManager.touchEntry, Table.mem_modify] at h
  exact h

theorem mem_of_mem_driver (parent id' : Text) (now : ℕ)
    (h : id ∈ (m.driver parent id' now).2.entries) :
  id ∈ m.entries
  := by
  unfold ConnManager.driver at h
  split at h
  · exact h
  · exact mem_of_mem_touchEntry h

theorem mem_of_mem_onConnection {f : ConnManager → Except DbError α × ConnManager}
    (hf : id ∈ (f m).2.entries → id ∈ m.entries)
    (h : id ∈ (m.onConnection connection f).2.entries) :
  id ∈ m.entries
  := by
  unfold onConnection at h
  split at h
  · exact hf h
  · exact h

theorem Step.mem_entries (h : Step m e m') (hid : id ∈ m'.entries) :
  id ∈ m.entries ∨ ∃ connection, e.opened = some (id, connection)
  := by
  cases h with
  | opens connection random now =>
    unfold openQuerySession ConnManager.onConnection ConnManager.reserve at hid ⊢
    split at hid
    · split at hid
      · exact .inl hid
      · rename_i hconnection hfree
        rw [if_pos hconnection, if_neg hfree]
        rw [AList.mem_insert] at hid
        rcases hid with rfl | hid
        · exact .inr ⟨connection, rfl⟩
        · exact .inl hid
    · exact .inl hid
  | activate now opening =>
    unfold ConnManager.activate at hid
    split at hid
    · exact .inl (Table.mem_modify.mp hid)
    · exact .inl hid
  | @dropTicket ticket _ held =>
    unfold ConnManager.dropTicket at hid
    dsimp only at hid
    split at hid
    · exact .inl hid
    · split at hid
      · exact .inl hid
      · exact .inl (AList.mem_erase.mp hid).2
  | driver connection session now =>
    exact .inl (mem_of_mem_onConnection (mem_of_mem_driver _ _ _) hid)
  | acquire connection session execution now =>
    refine .inl (mem_of_mem_onConnection ?_ hid)
    unfold ConnManager.acquire
    split
    · exact fun h => h
    · split
      · exact fun h => h
      · exact mem_of_mem_touchEntry
  | cancel connection session execution now supportsQueryCancel =>
    refine .inl (mem_of_mem_onConnection ?_ hid)
    intro hcancel
    apply mem_of_mem_driver connection session now
    unfold ConnManager.cancel at hcancel
    generalize m.driver connection session now = looked at hcancel
    obtain ⟨result, m'⟩ := looked
    cases result with
    | error e => exact hcancel
    | ok driver =>
      dsimp only at hcancel
      split at hcancel
      · exact hcancel
      · exact hcancel
  | close connection session =>
    unfold ConnManager.close at hid
    split at hid
    · exact .inl hid
    · split at hid
      · exact .inl hid
      · exact .inl (Table.mem_of_mem_retain hid)
  | reap now => exact .inl (Table.mem_of_mem_retain hid)
  | removeSessions removed => exact .inl (Table.mem_of_mem_retain hid)
  | _ => exact .inl hid

theorem gone_of_runs (h : Runs Step m es' m') (hids : DistinctIds (es ++ es'))
    (hopened : id ∈ (es.filterMap Event.opened).map Prod.fst) (hgone : id ∉ m.entries) :
  id ∉ m'.entries ∧ ∀ parent, ∀ e ∈ es', ¬ e.finds parent id
  := by
  induction h with
  | start => exact ⟨hgone, by simp⟩
  | @snoc es' m₀ m' e before last ih =>
    rw [← List.append_assoc] at hids
    obtain ⟨hstill, hunfound⟩ := ih hids.of_append
    constructor
    · intro hmem
      rcases last.mem_entries hmem with hmem | ⟨connection, hopens⟩
      · exact hstill hmem
      · apply hids.fresh (id, connection) hopens
        rw [List.filterMap_append, List.map_append]
        exact List.mem_append_left _ hopened
    · intro parent
      rw [List.forall_mem_append]
      refine ⟨hunfound parent, ?_⟩
      intro e' he' hfinds
      rw [List.mem_singleton] at he'
      subst he'
      obtain ⟨entry, driver, hentry, -, -⟩ := last.finds hfinds
      exact hstill (Table.mem_iff_exists_lookup.mpr ⟨entry, hentry⟩)

/-! ### The custody of the drivers -/

theorem Leased.mem_closed_iff (hm : Leased opened m) (hretiring : m.retiring = [])
    (hclosing : m.closing = []) {driver : ℕ} (h : driver < m.drivers) :
  driver ∈ m.closed ↔ driver ∉ installed m.entries
  := by
  have hplaces := hm.custody driver
  rw [if_pos h, places, hretiring, hclosing, retired, List.filterMap_nil, List.count_nil] at hplaces
  rw [← List.count_pos_iff, ← List.count_eq_zero]
  omega

theorem Leased.notMem_closed (hm : Leased opened m) {driver : ℕ}
    (h : driver ∈ installed m.entries) :
  driver ∉ m.closed
  := by
  have hplaces := hm.custody driver
  have hle : (if driver < m.drivers then 1 else 0) ≤ 1 := by split_ifs <;> omega
  rw [places] at hplaces
  rw [← List.count_pos_iff] at h
  rw [← List.count_eq_zero]
  omega

theorem Leased.nodup_closed (hm : Leased opened m) :
  m.closed.Nodup
  := by
  rw [List.nodup_iff_count_le_one]
  intro driver
  have hplaces := hm.custody driver
  have hle : (if driver < m.drivers then 1 else 0) ≤ 1 := by split_ifs <;> omega
  rw [places] at hplaces
  omega

/-- The event is the work of a retirement. -/
def Event.retires : Event → Prop
  | .retire _ => True
  | .closeDriver _ => True
  | _ => False

theorem closing_completes (closing : List ℕ) (m : ConnManager) (h : m.closing = closing) :
  ∃ es m', Runs Step m es m' ∧ (∀ e ∈ es, e.retires) ∧ m'.closing = []
    ∧ m'.retiring = m.retiring ∧ m'.entries = m.entries ∧ m'.drivers = m.drivers
  := by
  induction closing generalizing m with
  | nil => exact ⟨[], m, .start, by simp, h, rfl, rfl, rfl⟩
  | cons driver closing ih =>
    have hstep : Step m (.closeDriver driver) (m.closeDriver driver) :=
      .closeDriver (h ▸ List.mem_cons_self)
    obtain ⟨es, m', hruns, hretires, hclosing, hrest⟩ := ih (m.closeDriver driver) (by
      rw [ConnManager.closeDriver, h, List.erase_cons_head])
    refine ⟨.closeDriver driver :: es, m', hruns.cons hstep, ?_, hclosing, hrest⟩
    exact List.forall_mem_cons.mpr ⟨trivial, hretires⟩

theorem retirement_completes (retiring : List (Text × SessionEntry)) (m : ConnManager)
    (h : m.retiring = retiring) :
  ∃ es m', Runs Step m es m' ∧ (∀ e ∈ es, e.retires) ∧ m'.closing = [] ∧ m'.retiring = []
    ∧ m'.entries = m.entries ∧ m'.drivers = m.drivers
  := by
  induction retiring generalizing m with
  | nil =>
    obtain ⟨es, m', hruns, hretires, hclosing, hretiring, hrest⟩ :=
      closing_completes m.closing m rfl
    exact ⟨es, m', hruns, hretires, hclosing, hretiring.trans h, hrest⟩
  | cons session retiring ih =>
    have hstep : Step m (.retire session) (m.retire session) :=
      .retire (h ▸ List.mem_cons_self)
    obtain ⟨es, m', hruns, hretires, hrest⟩ := ih (m.retire session) (by
      rw [ConnManager.retire, h, List.erase_cons_head])
    refine ⟨.retire session :: es, m', hruns.cons hstep, ?_, hrest⟩
    exact List.forall_mem_cons.mpr ⟨trivial, hretires⟩

/-! ### The registry of sessions -/

theorem distinctIds_of_retires (h : DistinctIds es) (hretires : ∀ e ∈ es', e.retires) :
  DistinctIds (es ++ es')
  := by
  have hnone : es'.filterMap Event.opened = [] := by
    rw [List.filterMap_eq_nil_iff]
    intro e he
    have hevent := hretires e he
    cases e with
    | retire session => rfl
    | closeDriver driver => rfl
    | _ => exact hevent.elim
  rw [DistinctIds, List.filterMap_append, hnone, List.append_nil]
  exact h

/-- After every run in which the random ids are distinct: there are at most 16 sessions for a parent
and 128 in all; a session is found only through its own connection, and never again once it is
closed, reaped, abandoned or removed; a late activation closes its driver; each forked driver is at
one place, none is closed twice, and the retirement of removed sessions can go on until the open
drivers are those in the registry; a session without a driver has a ticket whose drop gives the slot
back. -/
theorem querySessions_sound {es : List Event} (h : Runs Step {} es m) (hids : DistinctIds es) :
  (m.entries.size ≤ maxTotal
      ∧ ∀ parent, m.entries.count (fun _ entry => entry.parent = parent) ≤ maxPerConnection)
    ∧ (∀ e m', Step m e m' → ∀ parent id, e.finds parent id →
        id ∈ m.entries ∧ (id, parent) ∈ es.filterMap Event.opened)
    ∧ (∀ e m', Step m e m' → ∀ id ∈ (es.filterMap Event.opened).map Prod.fst, e.ends m id →
        ∀ es' m'', Runs Step m' es' m'' → DistinctIds ((es ++ [e]) ++ es') →
          id ∉ m''.entries ∧ ∀ parent, ∀ e' ∈ es', ¬ e'.finds parent id)
    ∧ (∀ id now, ⟨id, .opening⟩ ∈ m.tickets → id ∉ m.entries →
        (m.activate id now).1 = .error missing ∧ (m.activate id now).2.entries = m.entries
          ∧ (m.activate id now).2.closed = m.drivers :: m.closed)
    ∧ ((∀ driver, m.places driver = if driver < m.drivers then 1 else 0)
        ∧ (∀ driver ∈ installed m.entries, driver ∉ m.closed)
        ∧ m.closed.Nodup
        ∧ ∃ es' m', Runs Step m es' m' ∧ (∀ e ∈ es', e.retires) ∧ m'.entries = m.entries
          ∧ m'.drivers = m.drivers
          ∧ ∀ driver < m'.drivers, driver ∈ m'.closed ↔ driver ∉ installed m'.entries)
    ∧ ((∀ id entry, m.entries.lookup id = some entry → entry.driver = none →
          ⟨id, .opening⟩ ∈ m.tickets)
        ∧ ∀ ticket ∈ m.tickets, ticket.phase ≠ .activated →
          ticket.id ∉ (m.dropTicket ticket).entries)
  := by
  have hm := leased_of_runs h hids
  refine ⟨⟨hm.total, hm.perConnection⟩, ?_, ?_, ?_, ⟨hm.custody, ?_, hm.nodup_closed, ?_⟩, ?_, ?_⟩
  · intro e m' hstep parent id hfinds
    obtain ⟨entry, driver, hentry, rfl, -⟩ := hstep.finds hfinds
    exact ⟨Table.mem_iff_exists_lookup.mpr ⟨entry, hentry⟩, hm.origin id entry hentry⟩
  · intro e m' hstep id hopened hends es' m'' hruns hids'
    apply gone_of_runs hruns hids' _ (hstep.ends hends)
    rw [List.filterMap_append, List.map_append]
    exact List.mem_append_left _ hopened
  · intro id now _ hgone
    unfold ConnManager.activate
    rw [if_neg fun hopen => hgone hopen.1]
    exact ⟨rfl, rfl, rfl⟩
  · intro driver hdriver
    exact hm.notMem_closed hdriver
  · obtain ⟨es', m', hruns, hretires, hclosing, hretiring, hentries, hdrivers⟩ :=
      retirement_completes m.retiring m rfl
    refine ⟨es', m', hruns, hretires, hentries, hdrivers, ?_⟩
    intro driver hdriver
    have hm' := hm.run hruns (distinctIds_of_retires hids hretires)
    exact hm'.mem_closed_iff hretiring hclosing hdriver
  · intro id entry hentry hnone
    exact (hm.opening id entry hentry).mp hnone
  · intro ticket _ hphase
    exact notMem_dropTicket hphase

/-- A connection on which one session is opened. -/
def openedOnce : ConnManager :=
  ((({} : ConnManager).insert "a".toList).openQuerySession "a".toList 7 0).2

/-- The session on it, when its connection is removed while it opens. -/
def removedOnce : ConnManager :=
  (openedOnce.remove "a".toList).removeSessions "a".toList

/-- The late activation of the session closes its driver. -/
theorem querySessions_sound_removedOnce :
  (removedOnce.activate (sessionId 7) 1).1 = .error missing
    ∧ (removedOnce.activate (sessionId 7) 1).2.entries = removedOnce.entries
    ∧ (removedOnce.activate (sessionId 7) 1).2.closed = removedOnce.drivers :: removedOnce.closed
  := by
  have hopened : Runs Step {} [.insert "a".toList, .opens "a".toList (.ok (sessionId 7))]
      openedOnce := (Runs.start.snoc (.insert _ _)).snoc (.opens "a".toList 7 0 _)
  have hremoved : Runs Step {}
      [.insert "a".toList, .opens "a".toList (.ok (sessionId 7)), .remove "a".toList,
        .removeSessions "a".toList] removedOnce :=
    (hopened.snoc (.remove "a".toList _)).snoc (.removeSessions List.mem_cons_self)
  have hids : DistinctIds [.insert "a".toList, .opens "a".toList (.ok (sessionId 7)),
      .remove "a".toList, .removeSessions "a".toList] := List.nodup_singleton _
  apply (querySessions_sound hremoved hids).2.2.2.1
  · exact List.mem_cons_self
  · decide

end ConnManager

end Db
