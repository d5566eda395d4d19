import Catio.Ssh.Osc

/-!
# Chunks of terminal output

The scanner may be given its stream in any chunks: as long as no sequence of the stream is
longer than the cap, the visible bytes and the events are those of the whole stream
(`feedAll_eq_feed`), and the stream is its visible bytes, the sequences that were taken out
and what is still pending, in order (`feedAll_cut`).
-/

namespace Ssh

open Scan

/-! ### Terminators -/

variable {start len : ℕ} {nonce : Text}

theorem findTerminator_le {bytes : Bytes} (h : findTerminator bytes = some (start, len)) :
  start + len ≤ bytes.length
  := by
  induction bytes generalizing start len with
  | nil => cases h
  | cons b bs ih =>
    rw [findTerminator] at h
    split_ifs at h with hbel hesc
    · cases h
      simp
    · cases h
      cases bs with
      | nil => simp at hesc
      | cons c bs => simp
    · obtain ⟨⟨start', len'⟩, hfound, heq⟩ := Option.map_eq_some_iff.mp h
      cases heq
      have hle := ih hfound
      rw [List.length_cons]
      omega

theorem findTerminator_pos {bytes : Bytes} (h : findTerminator bytes = some (start, len)) :
  0 < len
  := by
  induction bytes generalizing start len with
  | nil => cases h
  | cons b bs ih =>
    rw [findTerminator] at h
    split_ifs at h with hbel hesc
    · cases h
      decide
    · cases h
      decide
    · obtain ⟨⟨start', len'⟩, hfound, heq⟩ := Option.map_eq_some_iff.mp h
      cases heq
      exact ih hfound

theorem findTerminator_append {bytes : Bytes} (more : Bytes)
    (h : findTerminator bytes = some (start, len)) :
  findTerminator (bytes ++ more) = some (start, len)
  := by
  induction bytes generalizing start len with
  | nil => cases h
  | cons b bs ih =>
    rw [List.cons_append, findTerminator]
    rw [findTerminator] at h
    split_ifs at h with hbel hesc
    · rw [if_pos hbel]
      exact h
    · have hhead : (bs ++ more).head? = some backslash := by
        rw [List.head?_append, hesc.2]
        rfl
      rw [if_neg hbel, if_pos ⟨hesc.1, hhead⟩]
      exact h
    · obtain ⟨⟨start', len'⟩, hfound, heq⟩ := Option.map_eq_some_iff.mp h
      have hne : bs ≠ [] := by
        rintro rfl
        cases hfound
      have hhead : (bs ++ more).head? = bs.head? := by
        rw [List.head?_append, List.head?_eq_some_head hne]
        rfl
      rw [if_neg hbel, hhead, if_neg hesc, ih hfound]
      exact congrArg some heq

theorem le_findTerminator_append {bytes more : Bytes} (hnone : findTerminator bytes = none)
    (h : findTerminator (bytes ++ more) = some (start, len)) :
  bytes.length ≤ start + len
  := by
  induction bytes generalizing start len with
  | nil => exact Nat.zero_le _
  | cons b bs ih =>
    rw [List.cons_append, findTerminator] at h
    rw [findTerminator] at hnone
    split_ifs at hnone with hbel hesc
    rw [if_neg hbel] at h
    rw [Option.map_eq_none_iff] at hnone
    split_ifs at h with hesc'
    · cases h
      cases bs with
      | nil => simp
      | cons c bs => exact absurd hesc' hesc
    · obtain ⟨⟨start', len'⟩, hfound, heq⟩ := Option.map_eq_some_iff.mp h
      cases heq
      have hle := ih hnone hfound
      rw [List.length_cons]
      omega

/-! ### The turns of the scanner -/

/-- A turn reads a byte, or a sequence up to its terminator; or it stops at an ESC that is the last
byte, or at a sequence without a terminator. -/
inductive ScanStep (nonce : Text) : UInt8 → Bytes → Turn Unit Output (Unit × Bytes) → Prop where
  | byte {b : UInt8} {bs : Bytes} (h : b = esc → ∃ c rest, bs = c :: rest ∧ c ≠ bracket) :
      ScanStep nonce b bs (.next () [.visible [b]] 0)
  | sequence {rest : Bytes} {start len : ℕ} (found : findTerminator rest = some (start, len)) :
      ScanStep nonce esc (bracket :: rest) (.next ()
        [if integration (rest.take start) then .events (parsePayload nonce (rest.take start))
          else .visible (esc :: bracket :: rest.take (start + len))] (1 + start + len))
  | alone : ScanStep nonce esc [] (.stop ((), [esc]))
  | unfinished {rest : Bytes} (notFound : findTerminator rest = none) :
      ScanStep nonce esc (bracket :: rest) (.stop ((), esc :: bracket :: rest))

theorem scanTurn_iff {s : Unit} {b : UInt8} {bs : Bytes} {turn : Turn Unit Output (Unit × Bytes)} :
  scanTurn nonce s b bs = turn ↔ ScanStep nonce b bs turn
  := by
  constructor
  · rintro rfl
    unfold scanTurn
    split_ifs with hesc
    · subst hesc
      cases bs with
      | nil => exact .alone
      | cons c rest =>
        dsimp only
        split_ifs with hbracket
        · subst hbracket
          cases hfound : findTerminator rest with
          | none => exact .unfinished hfound
          | some found =>
            have hstep := @ScanStep.sequence nonce rest found.1 found.2 hfound
            dsimp only
            split_ifs at hstep ⊢
            · exact hstep
            · exact hstep
        · exact .byte fun _ => ⟨c, rest, rfl, hbracket⟩
    · exact .byte fun h => absurd h hesc
  · intro h
    unfold scanTurn
    cases h with
    | byte h =>
      split_ifs with hesc
      · obtain ⟨c, rest, rfl, hne⟩ := h hesc
        exact if_neg hne
      · rfl
    | sequence found =>
      rw [if_pos rfl]
      dsimp only
      rw [if_pos rfl, found]
      dsimp only
      split_ifs
      · rfl
      · rfl
    | alone => rfl
    | unfinished notFound =>
      rw [if_pos rfl]
      dsimp only
      rw [if_pos rfl, notFound]

theorem scanTurn_fits (nonce : Text) : Fits (scanTurn nonce) := by
  intro s b bs s' out k h
  cases scanTurn_iff.mp h with
  | byte _ => exact Nat.zero_le _
  | sequence found =>
    have hle := findTerminator_le found
    rw [List.length_cons]
    omega

theorem scanTurn_streaming (nonce : Text) :
  Streaming (scanTurn nonce)
  where
  holds := by
    intro s b bs r h
    cases scanTurn_iff.mp h with
    | alone => rfl
    | unfinished _ => rfl
  fits := scanTurn_fits nonce
  stable := by
    intro s b bs s' out k more h
    rw [scanTurn_iff]
    cases scanTurn_iff.mp h with
    | byte hplain =>
      apply ScanStep.byte
      intro hesc
      obtain ⟨c, rest, rfl, hne⟩ := hplain hesc
      exact ⟨c, rest ++ more, rfl, hne⟩
    | @sequence rest start len found =>
      have hle := findTerminator_le found
      have hstep := @ScanStep.sequence nonce _ _ _ (findTerminator_append more found)
      rwa [List.take_append_of_le_length (show start ≤ rest.length by omega),
        List.take_append_of_le_length hle] at hstep

/-! ### Pieces of a stream -/

/-- A piece of the stream: a byte, or a sequence with its terminator. -/
inductive Piece where
  | byte (b : UInt8)
  | osc (payload terminator : Bytes)

def Piece.bytes : Piece → Bytes
  | .byte b => [b]
  | .osc payload terminator => esc :: bracket :: (payload ++ terminator)

/-- A sequence of the shell integration. -/
def Piece.integrates : Piece → Bool
  | .byte _ => false
  | .osc payload _ => integration payload

/-- The terminator is the first one behind the introducer. -/
def Piece.Terminated : Piece → Prop
  | .byte _ => True
  | .osc payload terminator =>
      findTerminator (payload ++ terminator) = some (payload.length, terminator.length)

/-- What the scanner makes of a piece. -/
def Piece.output (nonce : Text) : Piece → Output
  | .byte b => .visible [b]
  | .osc payload terminator =>
      if integration payload then .events (parsePayload nonce payload)
      else .visible (Piece.osc payload terminator).bytes

/-- What the scanner cannot decide: nothing, an ESC, or a sequence without a terminator. -/
def Undecided (held : Bytes) : Prop :=
  held = [] ∨ held = [esc]
    ∨ ∃ rest, held = esc :: bracket :: rest ∧ findTerminator rest = none

theorem findTerminator_take {bytes : Bytes} (h : findTerminator bytes = some (start, len)) :
  findTerminator (bytes.take (start + len)) = some (start, len)
  := by
  induction bytes generalizing start len with
  | nil => cases h
  | cons b bs ih =>
    rw [findTerminator] at h
    split_ifs at h with hbel hesc
    · cases h
      rw [List.take_succ_cons, findTerminator, if_pos hbel]
    · cases h
      cases bs with
      | nil => simp at hesc
      | cons c bs =>
        have hc : c = backslash := by simpa using hesc.2
        rw [List.take_succ_cons, List.take_succ_cons, findTerminator, if_neg hbel,
          if_pos ⟨hesc.1, by rw [hc]; rfl⟩]
    · obtain ⟨⟨start', len'⟩, hfound, heq⟩ := Option.map_eq_some_iff.mp h
      cases heq
      have hpos := findTerminator_pos hfound
      have hhead : (bs.take (start' + len')).head? = bs.head? := by
        rw [List.head?_take, if_neg (by omega)]
      rw [show start' + 1 + len' = start' + len' + 1 by omega, List.take_succ_cons, findTerminator,
        if_neg hbel, hhead, if_neg hesc, ih hfound]
      rfl

theorem piece_of_turn {s s' : Unit} {b : UInt8} {bs : Bytes} {out : List Output} {k : ℕ}
    (h : scanTurn nonce s b bs = .next s' out k) :
  ∃ piece : Piece, b :: bs = piece.bytes ++ bs.drop k ∧ out = [piece.output nonce]
    ∧ piece.Terminated
  := by
  cases scanTurn_iff.mp h with
  | byte _ => exact ⟨.byte b, rfl, rfl, trivial⟩
  | @sequence rest start len found =>
    have hle := findTerminator_le found
    have hpayload : (rest.take start).length = start := by
      rw [List.length_take]
      omega
    have hterminator : ((rest.drop start).take len).length = len := by
      rw [List.length_take, List.length_drop]
      omega
    have hsplit : rest.take start ++ (rest.drop start).take len = rest.take (start + len) :=
      List.take_add.symm
    have hbehind : (bracket :: rest).drop (1 + start + len) = rest.drop (start + len) := by
      rw [show 1 + start + len = start + len + 1 by omega, List.drop_succ_cons]
    refine ⟨.osc (rest.take start) ((rest.drop start).take len), ?_, ?_, ?_⟩
    · rw [hbehind, Piece.bytes, hsplit, List.cons_append, List.cons_append,
        List.take_append_drop]
    · rw [Piece.output, Piece.bytes, hsplit]
    · rw [Piece.Terminated, hsplit, hpayload, hterminator]
      exact findTerminator_take found

theorem pieces_of_reads {s s' : Unit} {xs ys : Bytes} {outs : List Output}
    (h : Reads (scanTurn nonce) s xs ys s' outs) :
  ∃ pieces : List Piece, xs = pieces.flatMap Piece.bytes ++ ys
    ∧ outs = pieces.map (Piece.output nonce) ∧ ∀ piece ∈ pieces, piece.Terminated
  := by
  induction h with
  | refl => exact ⟨[], rfl, rfl, by simp⟩
  | turn head _ _ ih =>
    obtain ⟨piece, hbytes, rfl, hpiece⟩ := piece_of_turn head
    obtain ⟨pieces, hrest, rfl, hpieces⟩ := ih
    refine ⟨piece :: pieces, ?_, rfl, List.forall_mem_cons.mpr ⟨hpiece, hpieces⟩⟩
    rw [List.flatMap_cons, List.append_assoc, ← hrest]
    exact hbytes

theorem undecided_scan (nonce : Text) (bytes : Bytes) :
  Undecided (scan nonce bytes).2.2
  := by
  unfold scan
  rcases exists_reads (scanTurn_fits nonce) nothingHeld () bytes with
    ⟨s', out, -, hl⟩ | ⟨s', y, ys, out, r, -, hs, hl⟩
  · rw [hl]
    exact .inl rfl
  · rw [hl]
    cases scanTurn_iff.mp hs with
    | alone => exact .inr (.inl rfl)
    | @unfinished rest notFound => exact .inr (.inr ⟨rest, rfl, notFound⟩)

theorem scan_append (nonce : Text) (xs ys : Bytes) :
  scan nonce (xs ++ ys)
    = ((scan nonce xs).1 ++ (scan nonce ((scan nonce xs).2.2 ++ ys)).1,
      (scan nonce ((scan nonce xs).2.2 ++ ys)).2)
  := (scanTurn_streaming nonce).loop_append () xs ys

theorem scan_held (nonce : Text) (bytes : Bytes) :
  scan nonce (scan nonce bytes).2.2 = ([], (), (scan nonce bytes).2.2)
  := (scanTurn_streaming nonce).loop_held () bytes

theorem held_suffix (nonce : Text) (xs ys : Bytes) :
  (scan nonce xs).2.2 ++ ys <:+ xs ++ ys
  := by
  obtain ⟨front, hfront⟩ := ((scanTurn_streaming nonce).reads () xs).suffix
  refine ⟨front, ?_⟩
  rw [← List.append_assoc]
  exact congrArg (· ++ ys) hfront

/-! ### The cap -/

/-- The length of the sequence whose introducer stands before these bytes, up to its
terminator or to the end of the stream. -/
def oscLength (rest : Bytes) : ℕ :=
  match findTerminator rest with
  | none => 2 + rest.length
  | some (start, len) => 2 + start + len

/-- No sequence of the stream is longer than the cap. -/
def WithinCap (stream : Bytes) : Prop :=
  ∀ before rest, stream = before ++ esc :: bracket :: rest → oscLength rest ≤ pendingCap

theorem withinCap_of_length {stream : Bytes} (h : stream.length ≤ pendingCap) :
  WithinCap stream
  := by
  rintro before rest rfl
  rw [List.length_append, List.length_cons, List.length_cons] at h
  unfold oscLength
  cases hfound : findTerminator rest with
  | none =>
    dsimp only
    omega
  | some found =>
    have hle := findTerminator_le hfound
    dsimp only
    omega

theorem WithinCap.of_suffix {stream t : Bytes} (h : WithinCap stream) (hsuffix : t <:+ stream) :
  WithinCap t
  := by
  obtain ⟨front, rfl⟩ := hsuffix
  rintro before rest rfl
  apply h (front ++ before) rest
  rw [List.append_assoc]

theorem WithinCap.undecided_le {held more : Bytes} (h : WithinCap (held ++ more))
    (hheld : Undecided held) :
  held.length ≤ pendingCap
  := by
  rcases hheld with rfl | rfl | ⟨rest, rfl, hnone⟩
  · exact Nat.zero_le _
  · decide
  · have hlength := h [] (rest ++ more) rfl
    unfold oscLength at hlength
    cases hfound : findTerminator (rest ++ more) with
    | none =>
      rw [hfound] at hlength
      simp only [List.length_cons, List.length_append] at hlength ⊢
      omega
    | some found =>
      have hle := le_findTerminator_append hnone hfound
      rw [hfound] at hlength
      dsimp only at hlength
      simp only [List.length_cons]
      omega

/-! ### Results of outputs -/

theorem visibleBytes_append (first last : List Output) :
  visibleBytes (first ++ last) = visibleBytes first ++ visibleBytes last
  := List.flatMap_append

theorem positioned_add (n k : ℕ) (outs : List Output) :
  positioned (n + k) outs = (positioned k outs).map fun e => ⟨e.event, n + e.visibleOffset⟩
  := by
  induction outs generalizing k with
  | nil => rfl
  | cons out outs ih =>
    cases out with
    | visible bytes =>
      rw [positioned, positioned, Nat.add_assoc, ih]
    | events es =>
      rw [positioned, positioned, List.map_append, List.map_map, ih]
      rfl

theorem positioned_append (n : ℕ) (first last : List Output) :
  positioned n (first ++ last)
    = positioned n first ++ positioned (n + (visibleBytes first).length) last
  := by
  induction first generalizing n with
  | nil => rfl
  | cons out first ih =>
    cases out with
    | visible bytes =>
      have hlength : (visibleBytes (.visible bytes :: first)).length
          = bytes.length + (visibleBytes first).length := List.length_append
      rw [List.cons_append, positioned, positioned, ih, hlength, Nat.add_assoc]
    | events es =>
      rw [List.cons_append, positioned, positioned, ih, List.append_assoc]
      rfl

theorem visibleBytes_pieces (nonce : Text) (pieces : List Piece) :
  visibleBytes (pieces.map (Piece.output nonce))
    = (pieces.filter fun piece => !piece.integrates).flatMap Piece.bytes
  := by
  induction pieces with
  | nil => rfl
  | cons piece pieces ih =>
    rw [visibleBytes] at ih
    rw [visibleBytes, List.map_cons, List.flatMap_cons, ih]
    cases piece with
    | byte b => rfl
    | osc payload terminator =>
      rw [Piece.output]
      cases hintegrates : integration payload with
      | true =>
        rw [List.filter_cons_of_neg (by simp [Piece.integrates, hintegrates])]
        rfl
      | false =>
        rw [List.filter_cons_of_pos (by simp [Piece.integrates, hintegrates]),
          List.flatMap_cons]
        rfl

/-! ### Chunks -/

namespace Scanner

theorem feed_eq (s : Scanner) (chunk stream : Bytes)
    (h : WithinCap (s.pending ++ chunk ++ stream)) :
  s.feed chunk
    = (⟨visibleBytes (scan s.nonce (s.pending ++ chunk)).1,
        positioned 0 (scan s.nonce (s.pending ++ chunk)).1,
        readyOffset (positioned 0 (scan s.nonce (s.pending ++ chunk)).1)⟩,
      { s with pending := (scan s.nonce (s.pending ++ chunk)).2.2 })
  := by
  have hheld := held_suffix s.nonce (s.pending ++ chunk) stream
  have hle := (h.of_suffix hheld).undecided_le (undecided_scan _ _)
  unfold feed finish
  dsimp only
  rw [if_neg (Nat.not_lt.mpr hle)]

theorem feedAll_eq_feed (chunks : List Bytes) (s : Scanner)
    (hheld : scan s.nonce s.pending = ([], (), s.pending))
    (h : WithinCap (s.pending ++ chunks.flatten)) :
  (s.feedAll chunks).1.1 = (s.feed chunks.flatten).1.visible
    ∧ (s.feedAll chunks).1.2 = (s.feed chunks.flatten).1.events
    ∧ (s.feedAll chunks).2 = (s.feed chunks.flatten).2
  := by
  induction chunks generalizing s with
  | nil =>
    have hfeed := feed_eq s [] [] (by simpa using h)
    rw [List.append_nil, hheld] at hfeed
    rw [List.flatten_nil, hfeed]
    exact ⟨rfl, rfl, rfl⟩
  | cons chunk chunks ih =>
    rw [List.flatten_cons, ← List.append_assoc] at h
    have hfirst := feed_eq s chunk chunks.flatten h
    have hwhole := feed_eq s (chunk ++ chunks.flatten) [] (by simpa using h)
    have hscan := scan_append s.nonce (s.pending ++ chunk) chunks.flatten
    have hheld' := scan_held s.nonce (s.pending ++ chunk)
    have hrest := h.of_suffix (held_suffix s.nonce (s.pending ++ chunk) chunks.flatten)
    obtain ⟨hvisible, hevents, hscanner⟩ :=
      ih { s with pending := (scan s.nonce (s.pending ++ chunk)).2.2 } hheld' hrest
    rw [feed_eq _ chunks.flatten [] (by simpa using hrest)] at hvisible hevents hscanner
    rw [List.flatten_cons, hwhole, ← List.append_assoc, hscan, feedAll, hfirst]
    dsimp only at hvisible hevents hscanner ⊢
    refine ⟨?_, ?_, hscanner⟩
    · rw [hvisible, visibleBytes_append]
    · rw [hevents, positioned_append, Nat.zero_add, ← positioned_add, Nat.add_zero]

/-- In whatever chunks a stream comes whose sequences are within the cap, the visible bytes and the
events are those of the whole stream, which is made of bytes, sequences and what is pending, of
which all but the sequences of the integration and what is pending is visible, once and in order. -/
theorem feedAll_cut (nonce : Text) (chunks : List Bytes) (h : WithinCap chunks.flatten) :
  ((new nonce).feedAll chunks).1
      = (((new nonce).feed chunks.flatten).1.visible, ((new nonce).feed chunks.flatten).1.events)
    ∧ ∃ pieces : List Piece, (∀ piece ∈ pieces, piece.Terminated)
      ∧ Undecided ((new nonce).feedAll chunks).2.pending
      ∧ chunks.flatten
          = pieces.flatMap Piece.bytes ++ ((new nonce).feedAll chunks).2.pending
      ∧ ((new nonce).feedAll chunks).1.1
          = (pieces.filter fun piece => !piece.integrates).flatMap Piece.bytes
  := by
  obtain ⟨hvisible, hevents, hscanner⟩ := feedAll_eq_feed chunks (new nonce) rfl h
  refine ⟨Prod.ext hvisible hevents, ?_⟩
  rw [hvisible, hscanner, feed_eq (new nonce) chunks.flatten [] (by simpa [new] using h)]
  have hreads := (scanTurn_streaming nonce).reads () chunks.flatten
  obtain ⟨pieces, hbytes, houts, hpieces⟩ := pieces_of_reads hreads
  refine ⟨pieces, hpieces, undecided_scan _ _, hbytes, ?_⟩
  rw [← visibleBytes_pieces nonce, ← houts]
  rfl

/-- A sequence of the integration that is cut in its terminator. -/
def cutSequence : List Bytes :=
  [Utf8.encode "\x1b]633;C;N\x1b", Utf8.encode "\\done"]

/-- The cut sequence starts an execution before the first visible byte. -/
theorem feedAll_cut_cutSequence :
  ((new "N").feedAll cutSequence).1 = (Utf8.encode "done", [⟨.execStart, 0⟩])
  := by
  have hcap : WithinCap cutSequence.flatten := withinCap_of_length (by decide)
  rw [(feedAll_cut "N" cutSequence hcap).1]
  decide

/-- An ESC at the end of a stream is no part of a sequence of the integration, and it is not
visible. -/
theorem feed_esc :
  WithinCap [esc] ∧ ¬ [esc, bracket] <:+: [esc] ∧ ((new "N").feed [esc]).1.visible = []
  := by
  refine ⟨withinCap_of_length (by decide), ?_, by decide⟩
  intro hinfix
  exact absurd hinfix.length_le (by decide)

end Scanner

end Ssh
