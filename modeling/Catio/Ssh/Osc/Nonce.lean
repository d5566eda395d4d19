import Catio.Ssh.Osc.Chunks

/-!
# The nonce of the session

The events of the command lifecycle cannot be forged: a payload from which the scanner reads
one ends in the nonce (`nonce_of_parsePayload`), each payload is a part of the stream, also
when the cap flushes what was pending (`feedAll_payload`), and so a stream that does not
contain the nonce has no such event, whatever its chunks are (`feedAll_unforged`).
-/

namespace Ssh

open Scan Text

/-- The events that only the own integration may cause. -/
def OscEvent.gated : OscEvent → Bool
  | .commandLine _ | .execStart | .execEnd _ | .ready => true
  | .inputStart | .cwd _ => false

/-! ### Payloads -/

theorem suffix_of_stripPrefix {p t u : Text} (h : stripPrefix p t = some u) :
  u <:+ t
  := ⟨p, (stripPrefix_eq_some h).symm⟩

theorem suffix_of_rsplitOnce {c : Char} {t before after : Text}
    (h : rsplitOnce c t = some (before, after)) :
  after <:+ t
  := by
  refine ⟨before ++ [c], ?_⟩
  rw [List.append_assoc, List.singleton_append]
  exact (rsplitOnce_eq_some h).symm

theorem nonce_of_parseRest {nonce rest : Text} {event : OscEvent} (h : event ∈ parseRest nonce rest)
    (hgated : event.gated) :
  nonce <:+ rest
  := by
  unfold parseRest at h
  split_ifs at h
  · cases h
  · rw [List.mem_singleton] at h
    subst h
    cases hgated
  · split at h
    · rename_i nonce' hstrip
      split_ifs at h with hnonce
      · rw [← hnonce]
        exact suffix_of_stripPrefix hstrip
      · cases h
    · split at h
      · rename_i afterD hstrip
        split at h
        · rename_i code nonce' hsplit
          split_ifs at h with hnonce
          · rw [← hnonce]
            exact (suffix_of_rsplitOnce hsplit).trans (suffix_of_stripPrefix hstrip)
          · cases h
        · cases h
      · split at h
        · rename_i afterE hstrip
          split at h
          · rename_i cmd nonce' hsplit
            split_ifs at h with hnonce
            · rw [← hnonce]
              exact (suffix_of_rsplitOnce hsplit).trans (suffix_of_stripPrefix hstrip)
            · cases h
          · cases h
        · split at h
          · rename_i prop hstrip
            split at h
            · rw [List.mem_singleton] at h
              subst h
              cases hgated
            · split at h
              · rename_i n hready
                split_ifs at h with hnonce
                · rw [← hnonce]
                  exact (suffix_of_stripPrefix hready).trans (suffix_of_stripPrefix hstrip)
                · cases h
              · cases h
          · cases h

theorem nonce_of_parsePayload {nonce : Text} {payload : Bytes} {event : OscEvent}
    (h : event ∈ parsePayload nonce payload) (hgated : event.gated) :
  Utf8.encode nonce <:+ payload
  := by
  unfold parsePayload at h
  split at h
  · cases h
  · rename_i text htext
    have hnonce : nonce <:+ text := by
      split at h
      · rename_i rest hstrip
        exact (nonce_of_parseRest h hgated).trans (suffix_of_stripPrefix hstrip)
      · split at h
        · rename_i rest hstrip
          exact (nonce_of_parseRest h hgated).trans (suffix_of_stripPrefix hstrip)
        · cases h
    obtain ⟨front, rfl⟩ := hnonce
    refine ⟨Utf8.encode front, ?_⟩
    rw [← Utf8.encode_append]
    exact Utf8.encode_of_fromUtf8 htext

/-! ### Payloads of a stream -/

theorem mem_positioned {n : ℕ} {outs : List Output} {e : PositionedOscEvent}
    (h : e ∈ positioned n outs) :
  ∃ es, Output.events es ∈ outs ∧ e.event ∈ es
  := by
  induction outs generalizing n with
  | nil => cases h
  | cons out outs ih =>
    cases out with
    | visible bytes =>
      obtain ⟨es, hmem, hevent⟩ := ih h
      exact ⟨es, List.mem_cons_of_mem _ hmem, hevent⟩
    | events es =>
      rcases List.mem_append.mp h with hfirst | hlater
      · obtain ⟨event, hevent, rfl⟩ := List.mem_map.mp hfirst
        exact ⟨es, List.mem_cons_self, hevent⟩
      · obtain ⟨es', hmem, hevent⟩ := ih hlater
        exact ⟨es', List.mem_cons_of_mem _ hmem, hevent⟩

theorem payload_infix {pieces : List Piece} {payload terminator held : Bytes}
    (h : Piece.osc payload terminator ∈ pieces) :
  payload <:+: pieces.flatMap Piece.bytes ++ held
  := by
  obtain ⟨before, after, rfl⟩ := List.append_of_mem h
  refine ⟨before.flatMap Piece.bytes ++ [esc, bracket],
    terminator ++ after.flatMap Piece.bytes ++ held, ?_⟩
  simp [Piece.bytes]

theorem payload_of_scan {nonce : Text} {bytes : Bytes} {n : ℕ} {e : PositionedOscEvent}
    (h : e ∈ positioned n (scan nonce bytes).1) :
  ∃ payload, payload <:+: bytes ∧ e.event ∈ parsePayload nonce payload
  := by
  have hreads := (scanTurn_streaming nonce).reads () bytes
  obtain ⟨pieces, hbytes, houts, -⟩ := pieces_of_reads hreads
  obtain ⟨es, hmem, hevent⟩ := mem_positioned h
  have hscan : (scan nonce bytes).1 = pieces.map (Piece.output nonce) := houts
  rw [hscan] at hmem
  obtain ⟨piece, hpiece, houtput⟩ := List.mem_map.mp hmem
  cases piece with
  | byte b => cases houtput
  | osc payload terminator =>
    rw [Piece.output] at houtput
    split_ifs at houtput
    cases houtput
    refine ⟨payload, ?_, hevent⟩
    rw [hbytes]
    exact payload_infix hpiece

namespace Scanner

variable {s : Scanner} {chunk : Bytes} {e : PositionedOscEvent}

theorem nonce_feed (chunk : Bytes) (s : Scanner) :
  (s.feed chunk).2.nonce = s.nonce
  := by
  unfold feed finish
  dsimp only
  split
  · rfl
  · rfl

theorem pending_suffix (chunk : Bytes) (s : Scanner) :
  (s.feed chunk).2.pending <:+ s.pending ++ chunk
  := by
  unfold feed finish
  dsimp only
  split
  · exact List.nil_suffix
  · exact ((scanTurn_streaming s.nonce).reads () (s.pending ++ chunk)).suffix

theorem payload_of_feed (h : e ∈ (s.feed chunk).1.events) :
  ∃ payload, payload <:+: s.pending ++ chunk ∧ e.event ∈ parsePayload s.nonce payload
  := by
  unfold feed finish at h
  dsimp only at h
  split at h
  · exact payload_of_scan h
  · exact payload_of_scan h

theorem payload_of_feedAll {chunks : List Bytes} (h : e ∈ (s.feedAll chunks).1.2) :
  ∃ payload, payload <:+: s.pending ++ chunks.flatten ∧ e.event ∈ parsePayload s.nonce payload
  := by
  induction chunks generalizing s e with
  | nil => cases h
  | cons chunk chunks ih =>
    rw [feedAll] at h
    dsimp only at h
    rw [List.flatten_cons, ← List.append_assoc]
    rcases List.mem_append.mp h with hfirst | hlater
    · obtain ⟨payload, hinfix, hevent⟩ := payload_of_feed hfirst
      exact ⟨payload, hinfix.trans (List.prefix_append _ _).isInfix, hevent⟩
    · obtain ⟨later, hmem, rfl⟩ := List.mem_map.mp hlater
      obtain ⟨payload, hinfix, hevent⟩ := ih hmem
      obtain ⟨front, hfront⟩ := pending_suffix chunk s
      rw [nonce_feed] at hevent
      refine ⟨payload, hinfix.trans ?_, hevent⟩
      rw [← hfront, List.append_assoc]
      exact (List.suffix_append _ _).isInfix

/-- A stream that does not contain the nonce has no event of the command lifecycle, in
whatever chunks it comes. -/
theorem feedAll_unforged (nonce : Text) (chunks : List Bytes)
    (h : ¬ Utf8.encode nonce <:+: chunks.flatten) :
  ∀ e ∈ ((new nonce).feedAll chunks).1.2, ¬ e.event.gated
  := by
  intro e he hgated
  obtain ⟨payload, hinfix, hevent⟩ := payload_of_feedAll he
  exact h ((nonce_of_parsePayload hevent hgated).isInfix.trans hinfix)

/-- A forged sequence, in two chunks. -/
def forged : List Bytes :=
  [Utf8.encode "\x1b]633;E;reboot;B", Utf8.encode "AD\x07"]

theorem feedAll_unforged_forged :
  (((new "GOOD").feedAll forged).1.2.filter fun e => e.event.gated) = []
  := by
  rw [List.filter_eq_nil_iff]
  apply feedAll_unforged "GOOD" forged
  intro hinfix
  have hletter : (0x47 : UInt8) ∈ forged.flatten := hinfix.subset (by decide)
  exact absurd hletter (by decide)

end Scanner

end Ssh
