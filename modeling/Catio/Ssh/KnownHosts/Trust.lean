import Catio.Lib.Steps
import Catio.Lib.Utf8
import Catio.Ssh.KnownHosts

/-!
# Trusting hosts

The model of `ssh_trust_host` in `server.rs` on one user's file: a command reads the file, sets an
entry and writes the file anew, which empties it first.  The file holds what it held, with the
accepted entries, as long as every command finds no other one between its reading and its writing
(`trusted_run`).
-/

namespace Ssh.KnownHosts

open Utf8

/-! ### Commands -/

/-- What a command was given. -/
structure TrustCommand where
  hostPort : Text
  fingerprint : Text

/-- How far a command is.  Once it has read the file it has the map that it will write. -/
inductive Phase where
  | waiting
  | read (map : Table Text Text)
  | opened (map : Table Text Text)
  | accepted
  | refused

/-- The map that a command is about to write. -/
def Phase.map? : Phase → Option (Table Text Text)
  | .read map => some map
  | .opened map => some map
  | _ => none

/-- The file, the commands by their numbers, and those that were accepted. -/
structure Store where
  file : Option Bytes
  phase : ℕ → Phase
  accepted : List ℕ

/-- What happens next.  A file that is there may not be readable, or not writable, and a write may
end before all is written. -/
inductive Event where
  | read (c : ℕ) (fails : Bool)
  | refuse (c : ℕ)
  | truncate (c : ℕ)
  | write (c : ℕ)
  | cut (c n : ℕ)

def known (file : Option Bytes) : Table Text Text :=
  ((file.bind strFromUtf8).map parse).getD ∅

/-- Bytes that are written over a file from its start. -/
def overwrite (bytes : Bytes) (file : Option Bytes) : Option Bytes :=
  some (bytes ++ (file.getD []).drop bytes.length)

def Store.setPhase (s : Store) (c : ℕ) (phase : Phase) : Store :=
  { s with phase := Function.update s.phase c phase }

section

variable (commands : ℕ → TrustCommand)

def TrustCommand.insertInto (command : TrustCommand) (map : Table Text Text) : Table Text Text :=
  map.insert command.hostPort command.fingerprint

def Store.after (s : Store) (e : Event) : Store :=
  match e with
  | .read c fails =>
      match s.phase c with
      | .waiting =>
          let map := if fails then ∅ else known s.file
          s.setPhase c (.read ((commands c).insertInto map))
      | _ => s
  | .refuse c =>
      match s.phase c with
      | .read _ => s.setPhase c .refused
      | _ => s
  | .truncate c =>
      match s.phase c with
      | .read map => { s.setPhase c (.opened map) with file := some [] }
      | _ => s
  | .write c =>
      match s.phase c with
      | .opened map =>
          { s.setPhase c .accepted with
            file := overwrite (encode (serialize map)) s.file
            accepted := s.accepted ++ [c] }
      | _ => s
  | .cut c n =>
      match s.phase c with
      | .opened map =>
          { s.setPhase c .refused with
            file := overwrite ((encode (serialize map)).take n) s.file }
      | _ => s

/-- No command was started. -/
def Store.initial (file : Option Bytes) : Store where
  file := file
  phase := fun _ => .waiting
  accepted := []

/-- What the file said before, with the entries of the accepted commands. -/
def expected (file : Option Bytes) (accepted : List ℕ) : Table Text Text :=
  accepted.foldl (fun map c => (commands c).insertInto map) (known file)

/-- The file says what it said before, with the accepted entries, unless it is being written; and
each map that is written is read back. -/
structure TrustsOnly (file : Option Bytes) (s : Store) : Prop where
  file : (∀ c map, s.phase c ≠ .opened map) →
    ∀ host, (known s.file).lookup host = (expected commands file s.accepted).lookup host
  roundTrip : ∀ c map, (s.phase c).map? = some map →
    ∀ host, (parse (serialize map)).lookup host = map.lookup host

/-- A command that reads can read, finds no other one between its reading and its writing, and its
entry is written as a whole. -/
def Alone (e : Event) (s : Store) : Prop :=
  match e with
  | .read c fails =>
      fails = false ∧ Writable (commands c).hostPort (commands c).fingerprint
        ∧ ∀ d, (s.phase d).map? = none
  | .cut _ _ => False
  | _ => True

/-! ### Steps -/

def Says (file : Option Bytes) (s : Store) : Prop :=
  ∀ host, (known s.file).lookup host = (expected commands file s.accepted).lookup host

/-- A command that has read the file has what is expected, with its entry. -/
structure Carries (file : Option Bytes) (s : Store) (c : ℕ) (map : Table Text Text) : Prop where
  lookup : ∀ host, map.lookup host
    = ((commands c).insertInto (expected commands file s.accepted)).lookup host
  writable : ∀ host fp, map.lookup host = some fp → Writable host fp
  others : ∀ d, d ≠ c → (s.phase d).map? = none

/-- At most one command is between its reading and its writing. -/
inductive Serial (file : Option Bytes) (s : Store) : Prop where
  | idle (hidle : ∀ d, (s.phase d).map? = none) (hclaim : Says commands file s)
  | reading (c : ℕ) (map : Table Text Text) (hphase : s.phase c = .read map)
      (hmap : Carries commands file s c map) (hclaim : Says commands file s)
  | writing (c : ℕ) (map : Table Text Text) (hphase : s.phase c = .opened map)
      (hmap : Carries commands file s c map) (hfile : s.file = some [])

end

theorem writable_of_known {file : Option Bytes} {host fp : Text}
    (h : (known file).lookup host = some fp) :
  Writable host fp
  := by
  unfold known at h
  cases htext : file.bind strFromUtf8 with
  | none =>
    rw [htext] at h
    cases h
  | some contents =>
    rw [htext] at h
    exact writable_of_parse h

theorem known_encode (contents : Text) :
  known (some (encode contents)) = parse contents
  := by
  have htext : strFromUtf8 (encode contents) = some contents := strFromUtf8_eq_some.mpr rfl
  rw [known, Option.bind_some, htext]
  rfl

section

variable {commands : ℕ → TrustCommand} {file : Option Bytes} {s : Store} {c d : ℕ}
  {map : Table Text Text}

theorem phase_setPhase_self (s : Store) (c : ℕ) (phase : Phase) :
  (s.setPhase c phase).phase c = phase
  := by
  simp [Store.setPhase]

theorem phase_setPhase_ne (s : Store) (phase : Phase) (h : d ≠ c) :
  (s.setPhase c phase).phase d = s.phase d
  := by
  simp [Store.setPhase, h]

theorem lookup_insertInto {map map' : Table Text Text} (h : ∀ host, map.lookup host = map'.lookup host)
    (command : TrustCommand) (host : Text) :
  (command.insertInto map).lookup host = (command.insertInto map').lookup host
  := by
  unfold TrustCommand.insertInto
  by_cases hhost : host = command.hostPort
  · subst hhost
    rw [AList.lookup_insert, AList.lookup_insert]
  · rw [AList.lookup_insert_ne hhost, AList.lookup_insert_ne hhost, h]

theorem Carries.eq_of_map? {map' : Table Text Text} (h : Carries commands file s c map)
    (hd : (s.phase d).map? = some map') :
  d = c
  := by
  by_contra hne
  rw [h.others d hne] at hd
  cases hd

theorem Carries.setPhase (h : Carries commands file s c map) (phase : Phase) :
  Carries commands file (s.setPhase c phase) c map
  := by
  refine ⟨h.lookup, h.writable, ?_⟩
  intro d hd
  rw [phase_setPhase_ne s phase hd]
  exact h.others d hd

theorem carries_read (hclaim : Says commands file s) (hidle : ∀ d, (s.phase d).map? = none)
    (hwritable : Writable (commands c).hostPort (commands c).fingerprint) (phase : Phase) :
  Carries commands file (s.setPhase c phase) c ((commands c).insertInto (known s.file))
  := by
  constructor
  · exact lookup_insertInto hclaim (commands c)
  · intro host fp hlookup
    unfold TrustCommand.insertInto at hlookup
    by_cases hhost : host = (commands c).hostPort
    · subst hhost
      rw [AList.lookup_insert, Option.some_inj] at hlookup
      rwa [← hlookup]
    · rw [AList.lookup_insert_ne hhost] at hlookup
      exact writable_of_known hlookup
  · intro d hd
    rw [phase_setPhase_ne s phase hd]
    exact hidle d

theorem Carries.idle (h : Carries commands file s c map) {phase : Phase} (hphase : phase.map? = none) :
  ∀ d, ((s.setPhase c phase).phase d).map? = none
  := by
  intro d
  by_cases hd : d = c
  · rw [hd, phase_setPhase_self, hphase]
  · rw [phase_setPhase_ne s phase hd]
    exact h.others d hd

theorem Carries.says (h : Carries commands file s c map) (host : Text) :
  (known (overwrite (encode (serialize map)) (some []))).lookup host
    = (expected commands file (s.accepted ++ [c])).lookup host
  := by
  have hfile : overwrite (encode (serialize map)) (some []) = some (encode (serialize map)) := by
    simp [overwrite]
  rw [hfile, known_encode, (parse_serialize_iff map).mpr h.writable, h.lookup, expected, expected,
    List.foldl_append]
  rfl

theorem serial_initial (commands : ℕ → TrustCommand) (file : Option Bytes) :
  Serial commands file (.initial file)
  := by
  apply Serial.idle
  · intro d
    rfl
  · intro host
    rfl

theorem Serial.after (h : Serial commands file s) {e : Event} (he : Alone commands e s) :
  Serial commands file (s.after commands e)
  := by
  cases e with
  | read c fails =>
    obtain ⟨rfl, hwritable, hidle⟩ := he
    have hclaim : Says commands file s := by
      cases h with
      | idle _ hclaim => exact hclaim
      | reading _ _ _ _ hclaim => exact hclaim
      | writing d map hphase _ _ =>
        have hnone := hidle d
        rw [hphase] at hnone
        cases hnone
    unfold Store.after
    dsimp only
    split
    · exact .reading c _ (phase_setPhase_self s c _) (carries_read hclaim hidle hwritable _) hclaim
    · exact h
  | refuse c =>
    unfold Store.after
    dsimp only
    split
    · rename_i map hread
      cases h with
      | idle hidle _ =>
        have hnone := hidle c
        rw [hread] at hnone
        cases hnone
      | reading d map' hphase hmap hclaim =>
        have hmap? : (s.phase c).map? = some map := by rw [hread]; rfl
        obtain rfl := hmap.eq_of_map? hmap?
        exact .idle (hmap.idle rfl) hclaim
      | writing d map' hphase hmap hfile =>
        have hmap? : (s.phase c).map? = some map := by rw [hread]; rfl
        obtain rfl := hmap.eq_of_map? hmap?
        rw [hphase] at hread
        cases hread
    · exact h
  | truncate c =>
    unfold Store.after
    dsimp only
    split
    · rename_i map hread
      have hmap? : (s.phase c).map? = some map := by rw [hread]; rfl
      cases h with
      | idle hidle _ =>
        rw [hidle c] at hmap?
        cases hmap?
      | reading d map' hphase hmap hclaim =>
        obtain rfl := hmap.eq_of_map? hmap?
        rw [hphase] at hread
        obtain rfl := Phase.read.inj hread
        exact .writing c map' (phase_setPhase_self s c _)
          ⟨hmap.lookup, hmap.writable, (hmap.setPhase _).others⟩ rfl
      | writing d map' hphase hmap hfile =>
        obtain rfl := hmap.eq_of_map? hmap?
        rw [hphase] at hread
        cases hread
    · exact h
  | write c =>
    unfold Store.after
    dsimp only
    split
    · rename_i map hopened
      have hmap? : (s.phase c).map? = some map := by rw [hopened]; rfl
      cases h with
      | idle hidle _ =>
        rw [hidle c] at hmap?
        cases hmap?
      | reading d map' hphase hmap hclaim =>
        obtain rfl := hmap.eq_of_map? hmap?
        rw [hphase] at hopened
        cases hopened
      | writing d map' hphase hmap hfile =>
        obtain rfl := hmap.eq_of_map? hmap?
        rw [hphase] at hopened
        obtain rfl := Phase.opened.inj hopened
        apply Serial.idle
        · exact hmap.idle rfl
        · rw [hfile]
          exact hmap.says
    · exact h
  | cut c n => exact he.elim

theorem Serial.trustsOnly (h : Serial commands file s) :
  TrustsOnly commands file s
  := by
  constructor
  · intro hclosed
    cases h with
    | idle _ hclaim => exact hclaim
    | reading _ _ _ _ hclaim => exact hclaim
    | writing c map hphase _ _ => exact absurd hphase (hclosed c map)
  · intro c map hmap
    rw [parse_serialize_iff]
    cases h with
    | idle hidle _ =>
      rw [hidle c] at hmap
      cases hmap
    | reading d map' hphase hcarries hclaim =>
      obtain rfl := hcarries.eq_of_map? hmap
      rw [hphase] at hmap
      obtain rfl := Option.some.inj hmap
      exact hcarries.writable
    | writing d map' hphase hcarries hfile =>
      obtain rfl := hcarries.eq_of_map? hmap
      rw [hphase] at hmap
      obtain rfl := Option.some.inj hmap
      exact hcarries.writable

/-- Commands that are alone set their own entries, and no others. -/
theorem trusted_run (commands : ℕ → TrustCommand) (file : Option Bytes) (events : List Event)
    (h : Steps.Throughout (Store.after commands) (Alone commands) events (.initial file)) :
  TrustsOnly commands file (events.foldl (Store.after commands) (.initial file))
  := by
  apply Serial.trustsOnly
  apply Steps.invariant (serial_initial commands file) _ h
  intro s e hserial he
  exact hserial.after he

end

/-! ### Runs -/

/-- One command from its start to its end. -/
def wholeCommand (c : ℕ) : List Event :=
  [.read c false, .truncate c, .write c]

/-- A command on its own sets its entry. -/
theorem trusted_run_single :
  TrustsOnly (fun _ => ⟨"h:22", "SHA256:abc"⟩) none
    ((wholeCommand 0).foldl (Store.after fun _ => ⟨"h:22", "SHA256:abc"⟩) (.initial none))
  := by
  apply trusted_run
  rw [wholeCommand, Steps.throughout_cons, Steps.throughout_cons, Steps.throughout_cons]
  refine ⟨⟨rfl, ?_, fun _ => rfl⟩, trivial, trivial, Steps.throughout_nil⟩
  constructor
  · decide
  · simp
  · simp
  · rintro c ⟨⟩
    decide
  · decide
  · simp
  · rintro c ⟨⟩
    decide

/-- A host with a blank sets the entry of another one; and of two commands that read before either
writes, only one entry is left. -/
theorem not_trusted_run :
  (¬TrustsOnly (fun _ => ⟨"a b", "c"⟩) none
      ((wholeCommand 0).foldl (Store.after fun _ => ⟨"a b", "c"⟩) (.initial none)))
    ∧ ¬TrustsOnly (fun c => if c = 0 then ⟨"a:22", "x"⟩ else ⟨"b:22", "y"⟩) none
      ([.read 0 false, .read 1 false, .truncate 0, .write 0, .truncate 1, .write 1].foldl
        (Store.after fun c => if c = 0 then ⟨"a:22", "x"⟩ else ⟨"b:22", "y"⟩) (.initial none))
  := by
  constructor
  · intro h
    have hlookup := h.file (by
      intro c map
      by_cases hc : c = 0
      · subst hc
        simp [wholeCommand, Store.after, Store.setPhase, Store.initial]
      · simp [wholeCommand, Store.after, Store.setPhase, Store.initial, hc]) "a"
    have hfile : ((wholeCommand 0).foldl (Store.after fun _ => ⟨"a b", "c"⟩) (.initial none)).file
        = some (encode "a b c\n") := rfl
    rw [hfile, known_encode] at hlookup
    revert hlookup
    decide
  · intro h
    have hlookup := h.file (by
      intro c map
      by_cases hc : c = 0
      · subst hc
        simp [Store.after, Store.setPhase, Store.initial]
      · by_cases hc' : c = 1
        · subst hc'
          simp [Store.after, Store.setPhase, Store.initial]
        · simp [Store.after, Store.setPhase, Store.initial, hc, hc']) "a:22"
    have hfile : ([Event.read 0 false, .read 1 false, .truncate 0, .write 0, .truncate 1,
        .write 1].foldl (Store.after fun c => if c = 0 then ⟨"a:22", "x"⟩ else ⟨"b:22", "y"⟩)
          (.initial none)).file = some (encode "b:22 y\n") := rfl
    rw [hfile, known_encode] at hlookup
    revert hlookup
    decide

end Ssh.KnownHosts
