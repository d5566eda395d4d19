import Catio.Ssh.Osc.Nonce
import Mathlib.Data.Bool.AllAny

/-!
# The hooks of the shell

The model of the pre-exec hook of `shell_integration.rs`, which announces a command line to the
scanner of the terminal.  What the scanner makes of the announcement is the command line, if and
only if no byte of it ends the sequence early (`feed_commandSequence`).
-/

namespace Ssh

open Scan Text

/-- The nonce of a session: sixteen hexadecimal digits. -/
def sessionNonce (random : UInt64) : Text :=
  (List.range 16).map fun i => Nat.digitChar (random.toNat / 16 ^ (15 - i) % 16)

/-- A value with its backslashes, semicolons and line feeds escaped, one after the other. -/
def catioEsc (value : Text) : Text :=
  replaceChar '\n' "\\x0a" (replaceChar ';' "\\x3b" (replaceChar '\\' "\\\\" value))

/-- What the hook prints for a command line. -/
def commandSequence (nonce command : Text) : Bytes :=
  esc :: bracket :: (Utf8.encode ("633;E;" ++ catioEsc command ++ ";" ++ nonce) ++ [bel])

/-! ### Escaping -/

/-- A character of a value, escaped. -/
def escapeValue (c : Char) : Text :=
  if c = '\\' then "\\\\" else if c = ';' then "\\x3b" else if c = '\n' then "\\x0a" else [c]

theorem catioEsc_eq (value : Text) :
  catioEsc value = value.flatMap escapeValue
  := by
  rw [catioEsc, replaceChar, replaceChar, replaceChar, List.flatMap_assoc, List.flatMap_assoc]
  congr 1
  funext c
  unfold escapeValue
  split
  · rfl
  · rw [List.flatMap_singleton]
    split
    · rfl
    · rw [List.flatMap_singleton]

theorem semicolon_not_mem_catioEsc (value : Text) :
  ';' ∉ catioEsc value
  := by
  rw [catioEsc_eq, List.mem_flatMap]
  rintro ⟨c, -, hc⟩
  unfold escapeValue at hc
  split_ifs at hc with hback hsemi hline
  · exact absurd hc (by decide)
  · exact absurd hc (by decide)
  · exact absurd hc (by decide)
  · exact hsemi (List.mem_singleton.mp hc).symm

theorem reads_unescape_plain {bytes rest : Bytes} (h : ∀ b ∈ bytes, b ≠ backslash) :
  Reads unescapeTurn () (bytes ++ rest) rest () bytes
  := by
  induction bytes with
  | nil => apply Reads.refl
  | cons b bytes ih =>
    have hturn : unescapeTurn () b (bytes ++ rest) = .next () [b] 0 :=
      if_neg (h b List.mem_cons_self)
    have hwhole := (Reads.single hturn).trans (ih fun c hc => h c (List.mem_cons_of_mem b hc))
    exact hwhole

theorem reads_unescape_char (c : Char) (rest : Bytes) :
  Reads unescapeTurn () (Utf8.encode (escapeValue c) ++ rest) rest () (String.utf8EncodeChar c)
  := by
  unfold escapeValue
  split_ifs with hback hsemi hline
  · rw [hback]
    apply Reads.skipping [backslash] _ rfl
    rcases rest with _ | ⟨b, _ | ⟨d, rest⟩⟩ <;> rfl
  · rw [hsemi]
    exact Reads.skipping [0x78, 0x33, 0x62] rfl rfl
  · rw [hline]
    exact Reads.skipping [0x78, 0x30, 0x61] rfl rfl
  · rw [Utf8.encode, List.flatMap_singleton]
    apply reads_unescape_plain
    rintro b hb rfl
    apply hback
    exact Utf8.char_of_mem_utf8EncodeChar (d := '\\') (by decide) hb

theorem unescape_catioEsc (value : Text) :
  unescape (catioEsc value) = value
  := by
  have hreads : Reads unescapeTurn () (Utf8.encode (catioEsc value)) [] () (Utf8.encode value) := by
    rw [catioEsc_eq]
    induction value with
    | nil => apply Reads.refl
    | cons c value ih =>
      rw [List.flatMap_cons, Utf8.encode_append]
      exact (reads_unescape_char c _).trans ih
  rw [unescape, hreads.loop_done id, Utf8.fromUtf8Lossy_encode]

/-! ### Terminators -/

/-- A byte that neither ends a sequence nor begins what ends it. -/
def Inert (b : UInt8) : Prop :=
  b ≠ bel ∧ b ≠ esc

theorem findTerminator_inert {bytes rest : Bytes} (h : ∀ b ∈ bytes, Inert b) :
  findTerminator (bytes ++ rest)
    = (findTerminator rest).map fun found => (bytes.length + found.1, found.2)
  := by
  induction bytes with
  | nil => simp
  | cons b bytes ih =>
    obtain ⟨hbel, hesc⟩ := h b List.mem_cons_self
    have hnot : ¬(b = esc ∧ (bytes ++ rest).head? = some backslash) := fun hboth => hesc hboth.1
    rw [List.cons_append, findTerminator, if_neg hbel, if_neg hnot,
      ih fun c hc => h c (List.mem_cons_of_mem b hc), Option.map_map]
    congr 1
    funext found
    simp only [Function.comp, List.length_cons, Prod.mk.injEq, and_true]
    omega

theorem inert_char {c : Char} (hbel : c ≠ '\x07') (hesc : c ≠ '\x1b') :
  ∀ b ∈ Utf8.encode (escapeValue c), Inert b
  := by
  intro b hb
  unfold escapeValue at hb
  split_ifs at hb with hback hsemi hline
  · have hall : ∀ b ∈ Utf8.encode "\\\\", b ≠ bel ∧ b ≠ esc :=
      List.all_iff_forall_prop.mp (by decide)
    exact hall b hb
  · have hall : ∀ b ∈ Utf8.encode "\\x3b", b ≠ bel ∧ b ≠ esc :=
      List.all_iff_forall_prop.mp (by decide)
    exact hall b hb
  · have hall : ∀ b ∈ Utf8.encode "\\x0a", b ≠ bel ∧ b ≠ esc :=
      List.all_iff_forall_prop.mp (by decide)
    exact hall b hb
  · rw [Utf8.encode, List.flatMap_singleton] at hb
    constructor
    · rintro rfl
      apply hbel
      exact Utf8.char_of_mem_utf8EncodeChar (by decide) hb
    · rintro rfl
      apply hesc
      exact Utf8.char_of_mem_utf8EncodeChar (by decide) hb

/-- The command line has no BEL, and no ESC directly before an escaped character. -/
def Announceable (command : Text) : Prop :=
  '\x07' ∉ command ∧ ∀ c ∈ ['\\', ';', '\n'], ¬['\x1b', c] <:+: command

theorem head_escapeValue (c : Char) (rest : Bytes) :
  (Utf8.encode (escapeValue c) ++ rest).head? = some backslash ↔ c ∈ ['\\', ';', '\n']
  := by
  unfold escapeValue
  split_ifs with hback hsemi hline
  · rw [hback]
    exact iff_of_true rfl (by simp)
  · rw [hsemi]
    exact iff_of_true rfl (by simp)
  · rw [hline]
    exact iff_of_true rfl (by simp)
  · simp only [List.mem_cons, hback, hsemi, hline, List.not_mem_nil, or_self, iff_false]
    intro hhead
    have hmem : backslash ∈ String.utf8EncodeChar c := by
      cases hbytes : String.utf8EncodeChar c with
      | nil => exact absurd hbytes String.utf8EncodeChar_ne_nil
      | cons b bytes =>
        rw [Utf8.encode, List.flatMap_singleton, hbytes] at hhead
        rw [← Option.some.inj hhead]
        exact List.mem_cons_self
    apply hback
    exact Utf8.char_of_mem_utf8EncodeChar (d := '\\') (by decide) hmem

theorem head_catioEsc (command : Text) :
  (Utf8.encode (catioEsc command)).head? = some backslash
    ↔ ∃ c ∈ ['\\', ';', '\n'], command.head? = some c
  := by
  rw [catioEsc_eq]
  cases command with
  | nil => simp
  | cons c command =>
    rw [List.flatMap_cons, Utf8.encode_append, head_escapeValue]
    simp

theorem announceable_cons {c : Char} {command : Text} :
  Announceable (c :: command) ↔ c ≠ '\x07'
    ∧ (c = '\x1b' → ¬∃ d ∈ ['\\', ';', '\n'], command.head? = some d) ∧ Announceable command
  := by
  have hprefix (d : Char) : ['\x1b', d] <+: c :: command
      ↔ c = '\x1b' ∧ command.head? = some d := by
    cases command with
    | nil => simp
    | cons e command => simp [eq_comm]
  unfold Announceable
  simp only [List.mem_cons, not_or, List.infix_cons_iff, hprefix]
  constructor
  · rintro ⟨⟨hbel, hno⟩, hall⟩
    refine ⟨Ne.symm hbel, ?_, hno, fun d hd => (hall d hd).2⟩
    rintro hesc ⟨d, hd, hhead⟩
    exact (hall d hd).1 ⟨hesc, hhead⟩
  · rintro ⟨hbel, hesc, hno, hall⟩
    refine ⟨⟨Ne.symm hbel, hno⟩, fun d hd => ⟨?_, hall d hd⟩⟩
    rintro ⟨hc, hhead⟩
    exact hesc hc ⟨d, hd, hhead⟩

theorem findTerminator_catioEsc (command : Text) :
  findTerminator (Utf8.encode (catioEsc command)) = none ↔ Announceable command
  := by
  induction command with
  | nil => simp [catioEsc_eq, findTerminator, Announceable]
  | cons c command ih =>
    have hcons : Utf8.encode (catioEsc (c :: command))
        = Utf8.encode (escapeValue c) ++ Utf8.encode (catioEsc command) := by
      rw [catioEsc_eq, catioEsc_eq, List.flatMap_cons, Utf8.encode_append]
    rw [hcons, announceable_cons, ← ih, ← head_catioEsc]
    by_cases hbel : c = '\x07'
    · rw [hbel]
      exact iff_of_false (by rintro ⟨⟩) (by simp)
    · by_cases hesc : c = '\x1b'
      · have hbytes : Utf8.encode (escapeValue c) = [esc] := by
          rw [hesc]
          rfl
        rw [hbytes, List.singleton_append, findTerminator, if_neg (by decide)]
        split_ifs with hend
        · simp [hesc, hend.2]
        · have hhead : (Utf8.encode (catioEsc command)).head? ≠ some backslash :=
            fun hhead => hend ⟨rfl, hhead⟩
          simp [hesc, hhead]
      · rw [findTerminator_inert (inert_char hbel hesc)]
        simp [hbel, hesc]

/-! ### Semicolons -/

/-- The byte `;`. -/
def semicolon : UInt8 := 0x3b

theorem nonce_byte {random : UInt64} {b : UInt8} (h : b ∈ Utf8.encode (sessionNonce random)) :
  Inert b ∧ b ≠ semicolon
  := by
  have hdigit : ∀ m < 16, (String.utf8EncodeChar (Nat.digitChar m)).all
      fun b => b ≠ bel ∧ b ≠ esc ∧ b ≠ semicolon := by
    decide
  rw [Utf8.encode, List.mem_flatMap] at h
  obtain ⟨c, hc, hb⟩ := h
  obtain ⟨i, -, rfl⟩ := List.mem_map.mp hc
  have hall := List.all_eq_true.mp (hdigit (random.toNat / 16 ^ (15 - i) % 16)
    (Nat.mod_lt _ (by decide))) b hb
  obtain ⟨hbel, hesc, hsemi⟩ := of_decide_eq_true hall
  exact ⟨⟨hbel, hesc⟩, hsemi⟩

theorem semicolon_not_mem_nonce (random : UInt64) :
  ';' ∉ sessionNonce random
  := by
  intro h
  have hb : semicolon ∈ Utf8.encode (sessionNonce random) :=
    List.mem_flatMap.mpr ⟨';', h, List.mem_singleton_self semicolon⟩
  exact (nonce_byte hb).2 rfl

theorem count_catioEsc (command : Text) :
  (Utf8.encode (catioEsc command)).count semicolon = 0
  := by
  rw [List.count_eq_zero]
  intro hb
  apply semicolon_not_mem_catioEsc command
  exact Utf8.mem_of_mem_encode (by decide) hb

theorem count_of_parseRest {nonce rest command : Text}
    (h : OscEvent.commandLine command ∈ parseRest nonce rest) :
  2 ≤ (Utf8.encode rest).count semicolon
  := by
  unfold parseRest at h
  split_ifs at h
  · cases h
  · simp at h
  · split at h
    · split_ifs at h
      · simp at h
      · cases h
    · split at h
      · split at h
        · split_ifs at h
          · simp at h
          · cases h
        · cases h
      · split at h
        · rename_i afterE hstrip
          split at h
          · rename_i cmd nonce' hsplit
            rw [stripPrefix_eq_some hstrip, rsplitOnce_eq_some hsplit, Utf8.encode_append,
              Utf8.encode_append, List.count_append, List.count_append]
            have hfirst : (Utf8.encode "E;").count semicolon = 1 := rfl
            have hlast : Utf8.encode (';' :: nonce') = semicolon :: Utf8.encode nonce' := rfl
            rw [hfirst, hlast, List.count_cons_self]
            omega
          · cases h
        · split at h
          · split at h
            · simp at h
            · split at h
              · split_ifs at h
                · simp at h
                · cases h
              · cases h
          · cases h

theorem count_of_parsePayload {nonce command : Text} {payload : Bytes}
    (h : OscEvent.commandLine command ∈ parsePayload nonce payload) :
  3 ≤ payload.count semicolon
  := by
  unfold parsePayload at h
  split at h
  · cases h
  · rename_i text htext
    rw [← Utf8.encode_of_fromUtf8 htext]
    split at h
    · rename_i rest hstrip
      have hfirst : (Utf8.encode "633;").count semicolon = 1 := rfl
      have hrest := count_of_parseRest h
      rw [stripPrefix_eq_some hstrip, Utf8.encode_append, List.count_append]
      omega
    · split at h
      · rename_i rest hstrip
        have hfirst : (Utf8.encode "133;").count semicolon = 1 := rfl
        have hrest := count_of_parseRest h
        rw [stripPrefix_eq_some hstrip, Utf8.encode_append, List.count_append]
        omega
      · cases h

/-! ### The announcement -/

theorem scan_integration {nonce : Text} {rest : Bytes} {start len : ℕ}
    (h : findTerminator rest = some (start, len)) (hours : integration (rest.take start)) :
  scan nonce (esc :: bracket :: rest)
    = (.events (parsePayload nonce (rest.take start)) :: (scan nonce (rest.drop (start + len))).1,
      (scan nonce (rest.drop (start + len))).2)
  := by
  have hturn : scanTurn nonce () esc (bracket :: rest)
      = .next () [.events (parsePayload nonce (rest.take start))] (1 + start + len) := by
    rw [scanTurn, if_pos rfl]
    simp only [if_true, h, hours]
  have hdrop : (bracket :: rest).drop (1 + start + len) = rest.drop (start + len) := by
    rw [Nat.add_assoc, Nat.add_comm 1, List.drop_succ_cons]
  unfold scan
  rw [loop_next hturn, hdrop]
  rfl

theorem parsePayload_command (random : UInt64) (command : Text) :
  parsePayload (sessionNonce random)
      (Utf8.encode ("633;E;" ++ catioEsc command ++ ";" ++ sessionNonce random))
    = [.commandLine command]
  := by
  have htext : ("633;E;" : Text) ++ catioEsc command ++ (";" : Text) ++ sessionNonce random
      = ("633;" : Text) ++ (("E;" : Text) ++ (catioEsc command ++ ';' :: sessionNonce random)) := by
    simp
  have hrest : parseRest (sessionNonce random)
      (("E;" : Text) ++ (catioEsc command ++ ';' :: sessionNonce random))
      = [.commandLine command] := by
    rw [parseRest, if_neg (by rintro ⟨⟩), if_neg (by rintro ⟨⟩)]
    have hC : stripPrefix "C;" (("E;" : Text) ++ (catioEsc command ++ ';' :: sessionNonce random))
        = none := rfl
    have hD : stripPrefix "D;" (("E;" : Text) ++ (catioEsc command ++ ';' :: sessionNonce random))
        = none := rfl
    rw [hC, hD, stripPrefix_append]
    simp only
    rw [rsplitOnce_append (semicolon_not_mem_nonce random)]
    simp only [if_true, unescape_catioEsc]
  rw [htext, parsePayload, Utf8.fromUtf8_encode]
  simp only
  rw [stripPrefix_append]
  exact hrest

theorem findTerminator_passed {bytes : Bytes} {b : UInt8} (more : Bytes)
    (h : findTerminator bytes = none) (hb : b ≠ backslash) :
  findTerminator (bytes ++ b :: more)
    = (findTerminator (b :: more)).map fun found => (bytes.length + found.1, found.2)
  := by
  induction bytes with
  | nil => simp
  | cons c bytes ih =>
    rw [findTerminator] at h
    split_ifs at h with hbel hend
    rw [Option.map_eq_none_iff] at h
    have hgo : ¬(c = esc ∧ (bytes ++ b :: more).head? = some backslash) := by
      rintro ⟨hesc, hhead⟩
      cases bytes with
      | nil => exact hb (Option.some.inj hhead)
      | cons d bytes => exact hend ⟨hesc, hhead⟩
    rw [List.cons_append, findTerminator, if_neg hbel, if_neg hgo, ih h, Option.map_map]
    congr 1
    funext found
    simp only [Function.comp, List.length_cons, Prod.mk.injEq, and_true]
    omega

/-- What the hook prints behind the escaped command line. -/
def closing (nonce : Text) : Bytes :=
  semicolon :: (Utf8.encode nonce ++ [bel])

theorem commandSequence_eq (nonce command : Text) :
  commandSequence nonce command = esc :: bracket
    :: (Utf8.encode "633;E;" ++ (Utf8.encode (catioEsc command) ++ closing nonce))
  := by
  have hsemi : Utf8.encode ";" = [semicolon] := rfl
  rw [commandSequence, Utf8.encode_append, Utf8.encode_append, Utf8.encode_append, hsemi]
  simp [closing]

theorem inert_front : ∀ b ∈ Utf8.encode "633;E;", Inert b := by
  unfold Inert
  exact List.all_iff_forall_prop.mp (by decide)

theorem scan_announceable (random : UInt64) {command : Text} (h : Announceable command) :
  scan (sessionNonce random) (commandSequence (sessionNonce random) command)
    = ([.events [.commandLine command]], ((), []))
  := by
  have hclosing : findTerminator (closing (sessionNonce random))
      = some (1 + (Utf8.encode (sessionNonce random)).length, 1) := by
    have hinert : ∀ b ∈ semicolon :: Utf8.encode (sessionNonce random), Inert b := by
      intro b hb
      rcases List.mem_cons.mp hb with rfl | hb
      · exact ⟨by decide, by decide⟩
      · exact (nonce_byte hb).1
    rw [closing, ← List.cons_append, findTerminator_inert hinert]
    simp [findTerminator, Nat.add_comm]
  have hfound : findTerminator (Utf8.encode "633;E;"
      ++ (Utf8.encode (catioEsc command) ++ closing (sessionNonce random)))
      = some ((Utf8.encode ("633;E;" ++ catioEsc command ++ ";" ++ sessionNonce random)).length,
        1) := by
    rw [findTerminator_inert inert_front, closing, findTerminator_passed _
      ((findTerminator_catioEsc command).mpr h) (by decide), ← closing, hclosing]
    have hsemi : (Utf8.encode ";").length = 1 := rfl
    simp only [Option.map_some, Utf8.encode_append, List.length_append, hsemi, Nat.add_assoc]
  have hbytes : Utf8.encode "633;E;"
      ++ (Utf8.encode (catioEsc command) ++ closing (sessionNonce random))
      = Utf8.encode ("633;E;" ++ catioEsc command ++ ";" ++ sessionNonce random) ++ [bel] := by
    have hsemi : Utf8.encode ";" = [semicolon] := rfl
    rw [Utf8.encode_append, Utf8.encode_append, Utf8.encode_append, hsemi]
    simp [closing]
  have hours : integration
      (Utf8.encode ("633;E;" ++ catioEsc command ++ ";" ++ sessionNonce random)) := by
    rw [Utf8.encode_append, Utf8.encode_append, Utf8.encode_append]
    rfl
  rw [hbytes] at hfound
  rw [commandSequence, scan_integration hfound (by rw [List.take_left]; exact hours),
    List.take_left, parsePayload_command]
  have hdrop : (Utf8.encode ("633;E;" ++ catioEsc command ++ ";" ++ sessionNonce random)
      ++ [bel]).drop ((Utf8.encode ("633;E;" ++ catioEsc command ++ ";"
        ++ sessionNonce random)).length + 1) = [] := by
    rw [List.drop_eq_nil_iff, List.length_append]
    rfl
  rw [hdrop]
  rfl

theorem scan_not_announceable (random : UInt64) {command : Text} (h : ¬Announceable command) :
  ∀ e ∈ positioned 0
      (scan (sessionNonce random) (commandSequence (sessionNonce random) command)).1,
    ∀ c, e.event ≠ .commandLine c
  := by
  have hsome := mt (findTerminator_catioEsc command).mp h
  obtain ⟨⟨start, len⟩, hfound⟩ := Option.ne_none_iff_exists'.mp hsome
  have hle := findTerminator_le hfound
  have hfirst : findTerminator (Utf8.encode "633;E;"
      ++ (Utf8.encode (catioEsc command) ++ closing (sessionNonce random)))
      = some ((Utf8.encode "633;E;").length + start, len) := by
    rw [findTerminator_inert inert_front, findTerminator_append _ hfound]
    rfl
  -- The first payload has the two semicolons of the front only.
  have htake : (Utf8.encode "633;E;"
      ++ (Utf8.encode (catioEsc command) ++ closing (sessionNonce random))).take
        ((Utf8.encode "633;E;").length + start)
      = Utf8.encode "633;E;" ++ (Utf8.encode (catioEsc command)).take start := by
    rw [List.take_length_add_append, List.take_append_of_le_length (by omega)]
  have hours : integration (Utf8.encode "633;E;" ++ (Utf8.encode (catioEsc command)).take start) :=
    rfl
  -- What is behind it has the semicolon of the nonce only.
  have hdrop : (Utf8.encode "633;E;"
      ++ (Utf8.encode (catioEsc command) ++ closing (sessionNonce random))).drop
        ((Utf8.encode "633;E;").length + start + len)
      = (Utf8.encode (catioEsc command)).drop (start + len)
        ++ closing (sessionNonce random) := by
    rw [Nat.add_assoc, List.drop_length_add_append, List.drop_append_of_le_length hle]
  rw [commandSequence_eq, scan_integration hfirst (by rw [htake]; exact hours), htake, hdrop]
  rintro e he c hc
  rw [positioned] at he
  rcases List.mem_append.mp he with hfront | hlater
  · obtain ⟨event, hevent, rfl⟩ := List.mem_map.mp hfront
    rw [show event = .commandLine c from hc] at hevent
    have hcount := count_of_parsePayload hevent
    have hfew := List.Sublist.count_le semicolon
      (List.take_sublist start (Utf8.encode (catioEsc command)))
    have htwo : (Utf8.encode "633;E;").count semicolon = 2 := rfl
    rw [count_catioEsc] at hfew
    rw [List.count_append, htwo] at hcount
    omega
  · obtain ⟨payload, hinfix, hevent⟩ := payload_of_scan hlater
    rw [hc] at hevent
    have hcount := count_of_parsePayload hevent
    have hinside := hinfix.sublist.count_le semicolon
    have hfew := List.Sublist.count_le semicolon
      (List.drop_sublist (start + len) (Utf8.encode (catioEsc command)))
    have hclosing : (closing (sessionNonce random)).count semicolon = 1 := by
      have hnonce : (Utf8.encode (sessionNonce random)).count semicolon = 0 :=
        List.count_eq_zero.mpr fun hb => (nonce_byte hb).2 rfl
      rw [closing, List.count_cons_self, List.count_append, hnonce]
      rfl
    rw [count_catioEsc] at hfew
    rw [List.count_append, hclosing] at hinside
    omega

/-- The scanner makes of an announcement its command line and nothing else, if and only if that does
not end its own announcement; otherwise it reads none. -/
theorem feed_commandSequence (random : UInt64) (command : Text) :
  (((Scanner.new (sessionNonce random)).feed (commandSequence (sessionNonce random) command)).1
      = ⟨[], [⟨.commandLine command, 0⟩], none⟩ ↔ Announceable command)
    ∧ (¬Announceable command →
      ∀ e ∈ ((Scanner.new (sessionNonce random)).feed
          (commandSequence (sessionNonce random) command)).1.events,
        ∀ c, e.event ≠ .commandLine c)
  := by
  have hevents : ((Scanner.new (sessionNonce random)).feed
      (commandSequence (sessionNonce random) command)).1.events
      = positioned 0
        (scan (sessionNonce random) (commandSequence (sessionNonce random) command)).1 := by
    unfold Scanner.feed Scanner.finish
    dsimp only
    split
    · rfl
    · rfl
  have hnone : ¬Announceable command →
      ∀ e ∈ ((Scanner.new (sessionNonce random)).feed
          (commandSequence (sessionNonce random) command)).1.events,
        ∀ c, e.event ≠ .commandLine c := by
    intro hnot
    rw [hevents]
    exact scan_not_announceable random hnot
  refine ⟨⟨?_, ?_⟩, hnone⟩
  · intro hfed
    by_contra hnot
    apply hnone hnot ⟨.commandLine command, 0⟩
    · rw [hfed]
      exact List.mem_singleton_self _
    · rfl
  · intro hgood
    have hscan := scan_announceable random hgood
    unfold Scanner.feed Scanner.new Scanner.finish
    rw [List.nil_append, hscan]
    rfl

/-- A command line with a raw BEL. -/
def ringing : Text :=
  "echo \x07b"

/-- The BEL ends the announcement: no command line is read, and what follows is shown. -/
theorem ringing_lost :
  ((Scanner.new (sessionNonce 0)).feed (commandSequence (sessionNonce 0) ringing)).1
      = ⟨Utf8.encode "b;0000000000000000\x07", [], none⟩
    ∧ ((Scanner.new (sessionNonce 0)).feed (commandSequence (sessionNonce 0) ringing)).1
      ≠ ⟨[], [⟨.commandLine ringing, 0⟩], none⟩
  := by
  have hfed : ((Scanner.new (sessionNonce 0)).feed (commandSequence (sessionNonce 0) ringing)).1
      = ⟨Utf8.encode "b;0000000000000000\x07", [], none⟩ := by decide +kernel
  refine ⟨hfed, ?_⟩
  rw [hfed]
  rintro ⟨⟩

end Ssh
