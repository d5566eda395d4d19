import Catio.Ssh.Osc.Chunks
import Catio.Ssh.Term

/-!
# The output of a terminal

What the frames of a terminal carry, and what is still pending, is what the scanner makes visible,
in order, with each control frame in the place of its marker (`run_exact`).  What is shown of the
items of the scanner, and how markers become frames, is said item by item, which the offsets of the
source agree with (`eventLoop_eq`).
-/

namespace Ssh

open Scan Text

/-! ### What is shown -/

/-- What the owner is given: a chunk begins, which unmutes if it is late; visible bytes and events;
the timer ends the muting. -/
inductive Item where
  | begins (late : Bool)
  | byte (b : UInt8)
  | event (e : OscEvent)
  | fallback
  deriving DecidableEq

/-- What the frontend is given. -/
inductive Token where
  | byte (b : UInt8)
  | inputStart
  | execStart
  | execEnd (command : Text) (exitCode : Option ℤ)
  deriving DecidableEq

def Item.byte? : Item → Option UInt8
  | .byte b => some b
  | _ => none

def Token.byte? : Token → Option UInt8
  | .byte b => some b
  | _ => none

/-- Items without the new line before the first other byte. -/
def stripLead : List Item → List Item
  | [] => []
  | .byte b :: items => if isNewline b then stripLead items else .byte b :: items
  | item :: items => item :: stripLead items

/-- The items behind the end of the muting: the marker, a late chunk, or the timer, behind which a
leading new line is stripped. -/
def unmuted : List Item → List Item
  | [] => []
  | .begins late :: items => if late then items else unmuted items
  | .byte _ :: items => unmuted items
  | .event e :: items => if e = .ready then items else unmuted items
  | .fallback :: items => stripLead items

def shown (muted strip : Bool) (items : List Item) : List Item :=
  if muted then unmuted items else if strip then stripLead items else items

/-- What the frontend is given of the shown items, with whether the start of the input was told, and
the announced command. -/
def tokens : Bool → Option Text → List Item → List Token
  | _, _, [] => []
  | _, cmd, .begins _ :: items => tokens false cmd items
  | told, cmd, .byte b :: items => .byte b :: tokens told cmd items
  | told, cmd, .fallback :: items => tokens told cmd items
  | told, cmd, .event e :: items =>
      match e with
      | .commandLine c => tokens told (some c) items
      | .inputStart =>
          if told then tokens true cmd items else .inputStart :: tokens true cmd items
      | .execStart => .execStart :: tokens told cmd items
      | .execEnd code =>
          match cmd with
          | none => tokens told none items
          | some c => .execEnd c code :: tokens told none items
      | .cwd _ => tokens told cmd items
      | .ready => tokens told cmd items

/-! ### What the scanner gives -/

def Output.items : Output → List Item
  | .visible bytes => bytes.map .byte
  | .events es => es.map .event

/-- The items of a chunk behind its beginning; what exceeds the cap is visible. -/
def Scanner.items (chunk : Bytes) (s : Scanner) : List Item :=
  let scanned := scan s.nonce (s.pending ++ chunk)
  scanned.1.flatMap Output.items
    ++ if scanned.2.2.length > pendingCap then scanned.2.2.map .byte else []

def items : Scanner → Bool → List TermEvent → List Item
  | _, _, [] => []
  | s, fired, .flushTick :: events => items s fired events
  | s, fired, .muteFallback :: events =>
      (if fired then [] else [.fallback]) ++ items s true events
  | s, fired, .data chunk now :: events =>
      .begins (decide (now > muteFallback) && !(s.items chunk).any (· = .event .ready))
        :: (s.items chunk ++ items (s.feed chunk).2 fired events)

def chunks (events : List TermEvent) : List Bytes :=
  events.filterMap fun event =>
    match event with
    | .data chunk _ => some chunk
    | _ => none

/-! ### What was sent -/

/-- What a frame gives to the frontend. -/
def Frame.tokens : Frame → List Token
  | .bytes data told => data.map .byte ++ if told then [.inputStart] else []
  | .inputStart => [.inputStart]
  | .execStart => [.execStart]
  | .execEnd command code => [.execEnd command code]
  | .closed => []

def Frame.data : Frame → Bytes
  | .bytes data _ => data
  | _ => []

namespace Owner

/-- What was sent, and what is pending. -/
def sent (o : Owner) : List Token :=
  o.frames.flatMap Frame.tokens ++ o.pending.map .byte

/-- The bytes of the frames that were sent, and the pending ones. -/
def bytes (o : Owner) : Bytes :=
  o.frames.flatMap Frame.data ++ o.pending

theorem bytes_eq (o : Owner) :
  o.bytes = o.sent.filterMap Token.byte?
  := by
  have hpending (data : Bytes) : (data.map Token.byte).filterMap Token.byte? = data := by
    rw [List.filterMap_map]
    exact List.filterMap_some
  have hframe (frame : Frame) : frame.tokens.filterMap Token.byte? = frame.data := by
    cases frame with
    | bytes data flag =>
      rw [Frame.tokens, List.filterMap_append, hpending]
      cases flag with
      | true => exact List.append_nil data
      | false => exact List.append_nil data
    | inputStart | execStart | execEnd | closed => rfl
  rw [bytes, sent, List.filterMap_append, List.filterMap_flatMap, hpending]
  simp only [hframe]

@[simp]
theorem sent_flushPending (flag : Bool) (o : Owner) :
  (o.flushPending flag).sent = o.sent ++ if flag then [.inputStart] else []
  := by
  unfold flushPending sent emit
  by_cases hpending : o.pending = []
  · rw [if_pos hpending, hpending]
    cases flag with
    | true => simp [Frame.tokens]
    | false => simp [hpending]
  · rw [if_neg hpending]
    simp [Frame.tokens]

@[simp]
theorem pending_flushPending (flag : Bool) (o : Owner) :
  (o.flushPending flag).pending = []
  := by
  unfold flushPending emit
  split_ifs with hpending
  · exact hpending
  · exact hpending
  · rfl

theorem sent_emit {o : Owner} (h : o.pending = []) (frame : Frame) :
  (o.emit frame).sent = o.sent ++ frame.tokens
  := by
  unfold sent emit
  simp [h]

theorem flushPending_frame (flag : Bool) (o : Owner) :
  (o.flushPending flag).muted = o.muted ∧ (o.flushPending flag).curCmd = o.curCmd
    ∧ (o.flushPending flag).stripLeadNl = o.stripLeadNl
    ∧ (o.flushPending flag).scanner = o.scanner
    ∧ (o.flushPending flag).fallbackFired = o.fallbackFired
  := by
  unfold flushPending emit
  split_ifs
  · exact ⟨rfl, rfl, rfl, rfl, rfl⟩
  · exact ⟨rfl, rfl, rfl, rfl, rfl⟩
  · exact ⟨rfl, rfl, rfl, rfl, rfl⟩

/-! ### Item by item -/

def take (now : ℕ) (o : Owner × Bool) : Item → Owner × Bool
  | .begins late => (if o.1.muted && late then { o.1 with muted := false } else o.1, false)
  | .byte b => (o.1.hear [b], o.2)
  | .event e => heed now e o
  | .fallback => o

theorem appendVisible_of_not_strip {o : Owner} (h : o.stripLeadNl = false) (visible : Bytes) :
  o.appendVisible visible = { o with pending := o.pending ++ visible }
  := by
  obtain ⟨scanner, curCmd, curCwd, curStart, muted, lastEmit, strip, fired, pending, frames,
    history⟩ := o
  obtain rfl : strip = false := h
  cases visible with
  | nil => simp [appendVisible]
  | cons b visible => simp [appendVisible]

theorem appendVisible_strip {o : Owner} (h : o.stripLeadNl = true) {b : UInt8} (hb : isNewline b)
    (visible : Bytes) :
  o.appendVisible (b :: visible) = o.appendVisible visible
  := by
  simp [appendVisible, h, hb]

theorem appendVisible_keep {o : Owner} (h : o.stripLeadNl = true) {b : UInt8} (hb : ¬isNewline b)
    (visible : Bytes) :
  o.appendVisible (b :: visible)
    = { o with stripLeadNl := false, pending := o.pending ++ b :: visible }
  := by
  simp [appendVisible, h, hb]

theorem appendVisible_nil (o : Owner) :
  o.appendVisible [] = o
  := by
  simp [appendVisible]

theorem hear_cons (b : UInt8) (visible : Bytes) (o : Owner) :
  (o.hear [b]).hear visible = o.hear (b :: visible)
  := by
  cases hmuted : o.muted with
  | true => simp [hear, hmuted]
  | false =>
    cases hstrip : o.stripLeadNl with
    | false =>
      simp [hear, hmuted, hstrip, appendVisible_of_not_strip]
    | true =>
      by_cases hb : isNewline b
      · simp [hear, hmuted, appendVisible_strip hstrip hb, appendVisible_nil]
      · simp [hear, hmuted, appendVisible_keep hstrip hb, appendVisible_of_not_strip]

theorem hear_nil (o : Owner) :
  o.hear [] = o
  := by
  simp [hear, appendVisible_nil]

theorem hear_eq (now : ℕ) (visible : Bytes) (o : Owner × Bool) :
  (visible.map Item.byte).foldl (take now) o = (o.1.hear visible, o.2)
  := by
  induction visible generalizing o with
  | nil => rw [hear_nil]; rfl
  | cons b visible ih =>
    rw [List.map_cons, List.foldl_cons, ih, take, hear_cons]

/-- The loop takes the outputs of the scanner item by item; the bytes before are heard up to some
place. -/
theorem eventLoop_eq (now : ℕ) (outs : List Output) (before flushed : Bytes) (pos : ℕ)
    (o : Owner × Bool) (hpos : pos ≤ before.length) :
  eventLoop now (before ++ visibleBytes outs ++ flushed) pos (positioned before.length outs) o
    = (((before.drop pos).map Item.byte ++ outs.flatMap Output.items
      ++ flushed.map Item.byte).foldl (take now) o).1
  := by
  induction outs generalizing before pos o with
  | nil =>
    have hvisible : before ++ visibleBytes [] ++ flushed = before ++ flushed := by
      simp [visibleBytes]
    rw [hvisible, positioned, eventLoop, List.flatMap_nil, List.append_nil, ← List.map_append,
      hear_eq, List.drop_append_of_le_length hpos]
  | cons out outs ih =>
    cases out with
    | visible bytes =>
      have hnext := ih (before ++ bytes) pos o (by rw [List.length_append]; omega)
      rw [List.length_append, List.drop_append_of_le_length hpos, List.map_append] at hnext
      rw [positioned, List.flatMap_cons, Output.items, ← List.append_assoc, ← hnext]
      have hvisible : visibleBytes (.visible bytes :: outs) = bytes ++ visibleBytes outs := rfl
      rw [hvisible, ← List.append_assoc]
    | events es =>
      have hvisible : visibleBytes (.events es :: outs) = visibleBytes outs := rfl
      rw [positioned, hvisible, List.flatMap_cons, Output.items]
      induction es generalizing pos o with
      | nil => exact ih before pos o hpos
      | cons e es ihes =>
        have hplace : min before.length (before ++ visibleBytes outs ++ flushed).length
            = before.length := by
          rw [List.append_assoc, List.length_append]
          omega
        have hslice : ((before ++ visibleBytes outs ++ flushed).take before.length).drop pos
            = before.drop pos := by
          rw [List.append_assoc, List.take_left]
        rw [List.map_cons, List.cons_append, eventLoop]
        dsimp only
        rw [hplace, hslice, ihes before.length _ (le_refl _)]
        · rw [List.drop_length]
          simp only [List.map_nil, List.nil_append, List.map_cons, List.foldl_append,
            List.foldl_cons, hear_eq]
          rfl
        · rfl

/-! ### What is sent and what is still to come -/

/-- While nothing is shown, no command is announced, no new line is to be stripped and no start of
the input was told. -/
def Quiet (o : Owner × Bool) : Prop :=
  o.1.muted = true → o.1.curCmd = none ∧ o.1.stripLeadNl = false ∧ o.2 = false

/-- What the frontend is given in all: what was sent, and what the items still bring. -/
def total (o : Owner × Bool) (items : List Item) : List Token :=
  o.1.sent ++ tokens o.2 o.1.curCmd (shown o.1.muted o.1.stripLeadNl items)

theorem endCommand_spec (cmd : Text) (code : Option ℤ) (now : ℕ) {o : Owner} (h : o.pending = []) :
  (o.endCommand cmd code now).sent = o.sent ++ [.execEnd cmd code]
    ∧ (o.endCommand cmd code now).muted = o.muted ∧ (o.endCommand cmd code now).curCmd = none
    ∧ (o.endCommand cmd code now).stripLeadNl = o.stripLeadNl
    ∧ (o.endCommand cmd code now).scanner = o.scanner
    ∧ (o.endCommand cmd code now).fallbackFired = o.fallbackFired
  := by
  have hsent := sent_emit h (.execEnd cmd code)
  unfold endCommand
  dsimp only
  split_ifs
  · exact ⟨hsent, rfl, rfl, rfl, rfl, rfl⟩
  · exact ⟨hsent, rfl, rfl, rfl, rfl, rfl⟩

theorem total_heed (now : ℕ) (e : OscEvent) (o : Owner) (told : Bool) (items : List Item)
    (hmuted : o.muted = false) :
  total (heed now e (o, told)) items = total (o, told) (.event e :: items)
    ∧ (heed now e (o, told)).1.muted = false
  := by
  have hshown : shown o.muted o.stripLeadNl (.event e :: items)
      = .event e :: shown o.muted o.stripLeadNl items := by
    rw [shown, shown, hmuted]
    cases o.stripLeadNl with
    | true => rfl
    | false => rfl
  unfold total
  rw [hshown]
  cases e with
  | commandLine c => simp [heed, hmuted, tokens, sent]
  | cwd d => simp [heed, hmuted, tokens, sent]
  | ready => simp [heed, hmuted, tokens]
  | inputStart =>
    obtain ⟨hm, hc, hs, -⟩ := flushPending_frame true o
    cases told with
    | true => simp [heed, hmuted, tokens]
    | false => simp [heed, hmuted, tokens, hm, hc, hs]
  | execStart =>
    obtain ⟨hm, hc, hs, -⟩ := flushPending_frame false o
    have hsent := sent_emit (pending_flushPending false o) .execStart
    have hm' : ((o.flushPending false).emit .execStart).muted = o.muted := hm
    have hc' : ((o.flushPending false).emit .execStart).curCmd = o.curCmd := hc
    have hs' : ((o.flushPending false).emit .execStart).stripLeadNl = o.stripLeadNl := hs
    simp [heed, hmuted, tokens, hm', hc', hs', hsent, Frame.tokens]
  | execEnd code =>
    obtain ⟨hm, hc, hs, -⟩ := flushPending_frame false o
    cases hcmd : o.curCmd with
    | none => simp [heed, hmuted, tokens, hm, hc, hs, hcmd]
    | some cmd =>
      obtain ⟨hsent, hm', hc', hs', -⟩ :=
        endCommand_spec cmd code now (pending_flushPending false o)
      simp [heed, hmuted, tokens, hcmd, hsent, hm', hc', hs', hm, hs]

theorem total_take (now : ℕ) (item : Item) (o : Owner × Bool) (items : List Item) (hquiet : Quiet o)
    (hitem : item ≠ .fallback) :
  total (take now o item) items = total o (item :: items) ∧ Quiet (take now o item)
  := by
  obtain ⟨o, told⟩ := o
  cases hmuted : o.muted with
  | true =>
    obtain ⟨hcmd, hstrip, htold⟩ := hquiet hmuted
    dsimp only at hcmd hstrip htold
    cases item with
    | begins late =>
      cases late with
      | true => simp [take, total, hmuted, hcmd, hstrip, htold, shown, unmuted, sent, Quiet]
      | false => simp [take, total, hmuted, hcmd, hstrip, htold, shown, unmuted, Quiet]
    | byte b => simp [take, hear, total, hmuted, hcmd, hstrip, htold, shown, unmuted, Quiet]
    | event e =>
      by_cases hready : e = .ready
      · simp [take, heed, total, hmuted, hstrip, hready, shown, unmuted, sent, Quiet, hcmd]
      · simp [take, heed, total, hmuted, hstrip, htold, hready, shown, unmuted, Quiet, hcmd]
    | fallback => exact absurd rfl hitem
  | false =>
    cases item with
    | begins late =>
      cases hstrip : o.stripLeadNl with
      | true => simp [take, total, hmuted, hstrip, shown, stripLead, tokens, Quiet]
      | false => simp [take, total, hmuted, hstrip, shown, tokens, Quiet]
    | byte b =>
      cases hstrip : o.stripLeadNl with
      | true =>
        by_cases hb : isNewline b
        · simp [take, hear, total, hmuted, hstrip, hb, shown, stripLead, Quiet,
            appendVisible_strip, appendVisible_nil]
        · simp [take, hear, total, hmuted, hstrip, hb, shown, stripLead, tokens, sent, Quiet,
            appendVisible_keep]
      | false =>
        simp [take, hear, total, hmuted, hstrip, shown, tokens, sent, Quiet,
          appendVisible_of_not_strip]
    | event e =>
      obtain ⟨htotal, hmuted'⟩ := total_heed now e o told items hmuted
      refine ⟨htotal, ?_⟩
      intro hcontra
      rw [take, hmuted'] at hcontra
      cases hcontra
    | fallback => exact absurd rfl hitem

theorem total_foldl (now : ℕ) (given : List Item) (o : Owner × Bool) (items : List Item)
    (hquiet : Quiet o) (hgiven : .fallback ∉ given) :
  total (given.foldl (take now) o) items = total o (given ++ items)
    ∧ Quiet (given.foldl (take now) o)
  := by
  induction given generalizing o with
  | nil => exact ⟨rfl, hquiet⟩
  | cons item given ih =>
    rw [List.mem_cons, not_or] at hgiven
    obtain ⟨htotal, hquiet'⟩ := total_take now item o (given ++ items) hquiet (Ne.symm hgiven.1)
    obtain ⟨hrest, hquiet''⟩ := ih (take now o item) hquiet' hgiven.2
    refine ⟨?_, hquiet''⟩
    rw [List.foldl_cons, hrest, htotal, List.cons_append]

theorem take_frame (now : ℕ) (item : Item) (o : Owner × Bool) :
  (take now o item).1.scanner = o.1.scanner
    ∧ (take now o item).1.fallbackFired = o.1.fallbackFired
  := by
  obtain ⟨o, told⟩ := o
  cases item with
  | begins late =>
    rw [take]
    dsimp only
    split_ifs
    · exact ⟨rfl, rfl⟩
    · exact ⟨rfl, rfl⟩
  | byte b =>
    simp only [take, hear, appendVisible]
    split_ifs
    all_goals exact ⟨rfl, rfl⟩
  | event e =>
    rw [take]
    unfold heed
    dsimp only
    by_cases hmuted : o.muted = true
    · rw [if_pos hmuted]
      split_ifs
      · exact ⟨rfl, rfl⟩
      · exact ⟨rfl, rfl⟩
    · rw [if_neg hmuted]
      cases e with
      | commandLine c => exact ⟨rfl, rfl⟩
      | cwd d => exact ⟨rfl, rfl⟩
      | ready => exact ⟨rfl, rfl⟩
      | inputStart =>
        dsimp only
        split_ifs
        · exact ⟨rfl, rfl⟩
        · exact (flushPending_frame true o).2.2.2
      | execStart => exact (flushPending_frame false o).2.2.2
      | execEnd code =>
        obtain ⟨-, -, -, hscanner, hfired⟩ := flushPending_frame false o
        cases hcmd : o.curCmd with
        | none => exact ⟨hscanner, hfired⟩
        | some cmd =>
          obtain ⟨-, -, -, -, hscanner', hfired'⟩ :=
            endCommand_spec cmd code now (pending_flushPending false o)
          exact ⟨hscanner'.trans hscanner, hfired'.trans hfired⟩
  | fallback => exact ⟨rfl, rfl⟩

theorem foldl_take_frame (now : ℕ) (given : List Item) (o : Owner × Bool) :
  (given.foldl (take now) o).1.scanner = o.1.scanner
    ∧ (given.foldl (take now) o).1.fallbackFired = o.1.fallbackFired
  := by
  induction given generalizing o with
  | nil => exact ⟨rfl, rfl⟩
  | cons item given ih =>
    obtain ⟨hscanner, hfired⟩ := take_frame now item o
    obtain ⟨hscanner', hfired'⟩ := ih (take now o item)
    exact ⟨hscanner'.trans hscanner, hfired'.trans hfired⟩

end Owner

theorem any_ready (outs : List Output) (n : ℕ) (flushed : Bytes) :
  ((positioned n outs).any fun e => e.event = .ready)
    = (outs.flatMap Output.items ++ flushed.map Item.byte).any (· = .event .ready)
  := by
  have hbytes (bytes : Bytes) : (bytes.map Item.byte).any (· = .event .ready) = false := by
    induction bytes with
    | nil => rfl
    | cons b bytes ih =>
      rw [List.map_cons, List.any_cons, ih]
      rfl
  induction outs generalizing n with
  | nil => exact (hbytes flushed).symm
  | cons out outs ih =>
    cases out with
    | visible bytes =>
      rw [positioned, ih, List.flatMap_cons, Output.items, List.append_assoc,
        @List.any_append _ _ (bytes.map Item.byte), hbytes, Bool.false_or]
    | events es =>
      have hevents : ((es.map fun event => (⟨event, n⟩ : PositionedOscEvent)).any
          fun e => e.event = .ready) = (es.map Item.event).any (· = .event .ready) := by
        rw [List.any_map, List.any_map]
        congr 1
        funext e
        simp
      rw [positioned, List.any_append, ih, List.flatMap_cons, Output.items, List.append_assoc,
        @List.any_append _ _ (es.map Item.event), hevents]

namespace Owner

theorem items_eq (chunk : Bytes) (s : Scanner) :
  ∃ flushed, s.items chunk
      = (scan s.nonce (s.pending ++ chunk)).1.flatMap Output.items ++ flushed.map Item.byte
    ∧ (s.feed chunk).1.visible = visibleBytes (scan s.nonce (s.pending ++ chunk)).1 ++ flushed
    ∧ (s.feed chunk).1.events = positioned 0 (scan s.nonce (s.pending ++ chunk)).1
  := by
  unfold Scanner.items Scanner.feed Scanner.finish
  dsimp only
  split_ifs
  · exact ⟨_, rfl, rfl, rfl⟩
  · exact ⟨[], rfl, (List.append_nil _).symm, rfl⟩

theorem emitScanned_eq (chunk : Bytes) (now : ℕ) (o : Owner) (told : Bool) :
  o.emitScanned chunk now
    = ((Item.begins (decide (now > Ssh.muteFallback)
          && !(o.scanner.items chunk).any (· = .event .ready)) :: o.scanner.items chunk).foldl
        (take now) ({ o with scanner := (o.scanner.feed chunk).2 }, told)).1
  := by
  obtain ⟨flushed, hitems, hvisible, hevents⟩ := items_eq chunk o.scanner
  unfold emitScanned
  dsimp only
  rw [hevents, hvisible, hitems, any_ready _ 0 flushed]
  have hloop := eventLoop_eq now (scan o.scanner.nonce (o.scanner.pending ++ chunk)).1 [] flushed 0
  simp only [List.nil_append, List.length_nil, List.drop_nil, List.map_nil, le_refl,
    forall_const] at hloop
  rw [hloop, List.foldl_cons, take]
  have hlate (q r : Bool) : (o.muted && !q && r) = (o.muted && (r && !q)) := by
    rw [Bool.and_assoc, Bool.and_comm (!q)]
  rw [hlate]

theorem sent_run (events : List TermEvent) (o : Owner) (told : Bool) (hquiet : Quiet (o, told)) :
  (o.run events).sent = total (o, told) (items o.scanner o.fallbackFired events)
  := by
  induction events generalizing o told with
  | nil =>
    have hnone : shown o.muted o.stripLeadNl [] = [] := by
      cases o.muted with
      | true => rfl
      | false =>
        cases o.stripLeadNl with
        | true => rfl
        | false => rfl
    rw [items, total]
    dsimp only
    rw [hnone, tokens, List.append_nil]
    rfl
  | cons event events ih =>
    cases event with
    | flushTick =>
      obtain ⟨hm, hc, hs, hscanner, hfired⟩ := flushPending_frame false o
      have hnext := ih (o.flushPending false) told (by rwa [Quiet, hm, hc, hs])
      rw [hscanner, hfired, total, sent_flushPending, hm, hc, hs] at hnext
      simp only [Bool.false_eq_true, if_false, List.append_nil] at hnext
      exact hnext
    | muteFallback =>
      rw [items, run, List.foldl_cons, step]
      cases hfired : o.fallbackFired with
      | true =>
        have hnext := ih o told hquiet
        rw [hfired] at hnext
        exact hnext
      | false =>
        cases hmuted : o.muted with
        | true =>
          obtain ⟨hcmd, -, htold⟩ := hquiet hmuted
          have hnext := ih
            { o with fallbackFired := true, muted := false, stripLeadNl := true } told
            (by rintro ⟨⟩)
          rw [total, shown, hmuted]
          exact hnext
        | false =>
          have hnext := ih { o with fallbackFired := true, muted := false } told
            (by rintro ⟨⟩)
          apply hnext.trans
          unfold total
          dsimp only
          rw [hmuted]
          cases o.stripLeadNl with
          | true => rfl
          | false => rfl
    | data chunk now =>
      have hnone : ∀ late, Item.fallback ∉ Item.begins late :: o.scanner.items chunk := by
        obtain ⟨flushed, hitems, -, -⟩ := items_eq chunk o.scanner
        rw [hitems]
        rintro late hmem
        simp only [List.mem_cons, List.mem_append, List.mem_flatMap, List.mem_map,
          reduceCtorEq, and_false, exists_false, or_false, false_or] at hmem
        obtain ⟨out, -, hout⟩ := hmem
        cases out with
        | visible bytes => simp [Output.items] at hout
        | events es => simp [Output.items] at hout
      have htotal := fun late => total_foldl now (.begins late :: o.scanner.items chunk)
        ({ o with scanner := (o.scanner.feed chunk).2 }, told)
        (items (o.scanner.feed chunk).2 o.fallbackFired events) hquiet (hnone late)
      rw [items, run, List.foldl_cons, step, emitScanned_eq chunk now o told]
      generalize (decide (now > Ssh.muteFallback)
        && !(o.scanner.items chunk).any (· = .event .ready)) = late
      obtain ⟨hall, hquiet'⟩ := htotal late
      obtain ⟨hscanner, hfired⟩ := foldl_take_frame now (.begins late :: o.scanner.items chunk)
        ({ o with scanner := (o.scanner.feed chunk).2 }, told)
      generalize (Item.begins late :: o.scanner.items chunk).foldl (take now)
        ({ o with scanner := (o.scanner.feed chunk).2 }, told) = o'
        at hall hquiet' hscanner hfired ⊢
      have hnext := ih o'.1 o'.2 hquiet'
      rw [hscanner, hfired] at hnext
      exact hnext.trans hall

end Owner

/-! ### Exact output -/

theorem bytes_tokens (told : Bool) (cmd : Option Text) (items : List Item) :
  (tokens told cmd items).filterMap Token.byte? = items.filterMap Item.byte?
  := by
  induction items generalizing told cmd with
  | nil => rfl
  | cons item items ih =>
    cases item with
    | begins late => exact ih false cmd
    | fallback => exact ih told cmd
    | byte b =>
      simp only [tokens, List.filterMap_cons, Token.byte?, Item.byte?, ih]
    | event e =>
      cases e with
      | commandLine c => exact ih told (some c)
      | execStart => exact ih told cmd
      | cwd d => exact ih told cmd
      | ready => exact ih told cmd
      | inputStart =>
        cases told with
        | true => exact ih true cmd
        | false => exact ih true cmd
      | execEnd code =>
        cases cmd with
        | none => exact ih told none
        | some c => exact ih told none

/-- The end of a command is told in the place of its marker, behind the announcement of the
command. -/
theorem announced_of_tokens {told : Bool} {cmd : Option Text} {items : List Item} {c : Text}
    {code : Option ℤ} (h : .execEnd c code ∈ tokens told cmd items) :
  ∃ before after, items = before ++ .event (.execEnd code) :: after
    ∧ (cmd = some c ∨ .event (.commandLine c) ∈ before)
  := by
  induction items generalizing told cmd with
  | nil => cases h
  | cons item items ih =>
    -- The marker is a later one, and so is the announcement, if it is not the command.
    have hlater {told' : Bool} (hmem : .execEnd c code ∈ tokens told' cmd items) :
        ∃ before after, item :: items = before ++ .event (.execEnd code) :: after
          ∧ (cmd = some c ∨ .event (.commandLine c) ∈ before) := by
      obtain ⟨before, after, rfl, hcmd | hbefore⟩ := ih hmem
      · exact ⟨item :: before, after, rfl, .inl hcmd⟩
      · exact ⟨item :: before, after, rfl, .inr (List.mem_cons_of_mem item hbefore)⟩
    cases item with
    | begins late => exact hlater h
    | fallback => exact hlater h
    | byte b =>
      rcases List.mem_cons.mp h with hfalse | hmem
      · cases hfalse
      · exact hlater hmem
    | event e =>
      cases e with
      | cwd d => exact hlater h
      | ready => exact hlater h
      | execStart =>
        rcases List.mem_cons.mp h with hfalse | hmem
        · cases hfalse
        · exact hlater hmem
      | inputStart =>
        cases told with
        | true => exact @hlater true h
        | false =>
          rcases List.mem_cons.mp h with hfalse | hmem
          · cases hfalse
          · exact hlater hmem
      | commandLine c' =>
        obtain ⟨before, after, rfl, hcmd | hbefore⟩ := @ih told (some c') h
        · rw [Option.some.inj hcmd]
          exact ⟨_ :: before, after, rfl, .inr List.mem_cons_self⟩
        · exact ⟨_ :: before, after, rfl, .inr (List.mem_cons_of_mem _ hbefore)⟩
      | execEnd code' =>
        cases cmd with
        | none => exact @hlater told h
        | some c' =>
          rcases List.mem_cons.mp h with hnow | hmem
          · cases hnow
            exact ⟨[], items, rfl, .inl rfl⟩
          · obtain ⟨before, after, rfl, hcmd | hbefore⟩ := @ih told none hmem
            · cases hcmd
            · exact ⟨_ :: before, after, rfl, .inr (List.mem_cons_of_mem _ hbefore)⟩

theorem bytes_outputItems (outs : List Output) :
  (outs.flatMap Output.items).filterMap Item.byte? = visibleBytes outs
  := by
  induction outs with
  | nil => rfl
  | cons out outs ih =>
    rw [List.flatMap_cons, List.filterMap_append, ih]
    cases out with
    | visible bytes =>
      rw [Output.items, List.filterMap_map]
      exact congrArg (· ++ visibleBytes outs) List.filterMap_some
    | events es =>
      have hnone : (es.map Item.event).filterMap Item.byte? = [] := by
        rw [List.filterMap_map, List.filterMap_eq_nil_iff]
        intro e _
        rfl
      rw [Output.items, hnone]
      rfl

theorem bytes_items (s : Scanner) (fired : Bool) (events : List TermEvent) :
  (items s fired events).filterMap Item.byte? = (s.feedAll (chunks events)).1.1
  := by
  induction events generalizing s fired with
  | nil => rfl
  | cons event events ih =>
    cases event with
    | flushTick => exact ih s fired
    | muteFallback =>
      cases fired with
      | true => exact ih s true
      | false => exact ih s true
    | data chunk now =>
      obtain ⟨flushed, hitems, hvisible, -⟩ := Owner.items_eq chunk s
      have hchunk : (s.items chunk).filterMap Item.byte? = (s.feed chunk).1.visible := by
        rw [hitems, hvisible, List.filterMap_append, bytes_outputItems, List.filterMap_map]
        exact congrArg _ List.filterMap_some
      have hnext := ih (s.feed chunk).2 fired
      rw [items, List.filterMap_cons_none rfl, List.filterMap_append, hchunk, hnext]
      rfl

/-- Whenever it is looked at, what the frontend is given and the pending bytes are those of the
shown items in order, which are all visible bytes if nothing is muted. The end of a command is told
only behind its announcement, and what is pending is sent before the last frame. -/
theorem run_exact (nonce : Text) (muted : Bool) (events : List TermEvent) :
  ((Owner.start nonce muted).run events).sent
      = tokens false none (shown muted false (items (.new nonce) false events))
    ∧ ((Owner.start nonce muted).run events).bytes
      = (shown muted false (items (.new nonce) false events)).filterMap Item.byte?
    ∧ (muted = false → ((Owner.start nonce muted).run events).bytes
      = ((Scanner.new nonce).feedAll (chunks events)).1.1)
    ∧ (∀ c code, .execEnd c code ∈ ((Owner.start nonce muted).run events).frames →
      ∃ before after, shown muted false (items (.new nonce) false events)
          = before ++ .event (.execEnd code) :: after
        ∧ .event (.commandLine c) ∈ before)
    ∧ ((Owner.start nonce muted).run events).finishOwner.frames.flatMap Frame.tokens
      = ((Owner.start nonce muted).run events).sent
  := by
  have hsent : ((Owner.start nonce muted).run events).sent
      = tokens false none (shown muted false (items (.new nonce) false events)) :=
    Owner.sent_run events (Owner.start nonce muted) false fun _ => ⟨rfl, rfl, rfl⟩
  have hbytes : ((Owner.start nonce muted).run events).bytes
      = (shown muted false (items (.new nonce) false events)).filterMap Item.byte? := by
    rw [Owner.bytes_eq, hsent, bytes_tokens]
  refine ⟨hsent, hbytes, ?_, ?_, ?_⟩
  · rintro rfl
    rw [hbytes]
    exact bytes_items (.new nonce) false events
  · intro c code hframe
    have hmem : .execEnd c code ∈ ((Owner.start nonce muted).run events).sent := by
      apply List.mem_append_left
      exact List.mem_flatMap.mpr ⟨_, hframe, List.mem_singleton_self _⟩
    rw [hsent] at hmem
    obtain ⟨before, after, hitems, hfalse | hbefore⟩ := announced_of_tokens hmem
    · cases hfalse
    · exact ⟨before, after, hitems, hbefore⟩
  · have hfinish := Owner.sent_emit
      (Owner.pending_flushPending false ((Owner.start nonce muted).run events)) .closed
    have hempty : ((((Owner.start nonce muted).run events).flushPending false).emit .closed).pending
        = [] := Owner.pending_flushPending _ _
    rw [Owner.sent_flushPending, Owner.sent, hempty] at hfinish
    rw [Owner.finishOwner]
    simpa [Frame.tokens] using hfinish

/-- A chunk without a marker, more than three seconds after the start. -/
def lateChunk : List TermEvent :=
  [.data (Utf8.encode "login: ") (3001 * 10 ^ 6)]

/-- Its bytes are shown although the integration has never told that it is ready. -/
theorem lateChunk_shown :
  ((Owner.start "N" true).run lateChunk).bytes = Utf8.encode "login: "
    ∧ .event .ready ∉ items (.new "N") false lateChunk
  := by
  decide +kernel

end Ssh
