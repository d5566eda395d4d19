import Catio.Agent.Provider.Anthropic

/-!
# Messages in fragments

A message as a stream of events: each block is started, gets its pieces, and is stopped, and the
blocks may be interleaved.  The decoder of Anthropic makes the message of it, exactly if no tool use
is without input, and the blocks are started in their order (`assembled_iff`).
-/

namespace Agent.Anthropic

open Json LineStream Text Utf8

/-! ### Fragments -/

/-- What happens in a stream, with the index of the block. -/
inductive Step where
  | start (index : ℕ)
  | piece (index : ℕ) (piece : Text)
  | signature (index : ℕ)
  | stop (index : ℕ)
  | ping
  deriving DecidableEq

def Step.index : Step → Option ℕ
  | .start index => some index
  | .piece index _ => some index
  | .signature index => some index
  | .stop index => some index
  | .ping => none

def Step.pieceFor (index : ℕ) : Step → Text
  | .piece k t => if k = index then t else []
  | _ => []

/-- The pieces for the block of an index together. -/
def pieceText (steps : List Step) (index : ℕ) : Text :=
  steps.flatMap (Step.pieceFor index)

/-- The index of a block that is started. -/
def Step.started : Step → Option ℕ
  | .start index => some index
  | _ => none

/-- A piece of a block, or a signature. -/
def Step.isDelta : Step → Prop
  | .piece .. => True
  | .signature _ => True
  | _ => False

/-- The pieces together are the content of a block: the text, or a JSON text of the input.  For an
empty input there may be none. -/
def Spells (text : Text) : ContentBlock → Prop
  | .text t => text = t
  | .thinking t => text = t
  | .toolUse _ _ input =>
      (∃ fields, input = .object fields) ∧ (JsonText input text ∨ text = [] ∧ input = .object [])
  | .toolResult .. => False

/-- Each block is started, has its pieces, and is stopped, whatever happens to other blocks in
between. -/
structure Legal (blocks : List ContentBlock) (steps : List Step) : Prop where
  known : ∀ step ∈ steps, ∀ index, step.index = some index → index < blocks.length
  spelled : ∀ index block, blocks[index]? = some block → Spells (pieceText steps index) block
  each : ∀ index, index < blocks.length → ∃ middle,
    steps.filter (fun step => step.index = some index)
      = .start index :: (middle ++ [.stop index]) ∧ ∀ step ∈ middle, step.isDelta

/-! ### Events -/

def StartsBlock (event : Value) : ContentBlock → Prop
  | .text _ => strAt event "content_block" "type" = some ("text" : Text)
  | .thinking _ => strAt event "content_block" "type" = some ("thinking" : Text)
  | .toolUse id name _ => strAt event "content_block" "type" = some ("tool_use" : Text)
      ∧ strAt event "content_block" "id" = some id ∧ strAt event "content_block" "name" = some name
  | .toolResult .. => False

def AddsPiece (event : Value) (piece : Text) : ContentBlock → Prop
  | .text _ => strAt event "delta" "type" = some ("text_delta" : Text)
      ∧ strAt event "delta" "text" = some piece
  | .thinking _ => strAt event "delta" "type" = some ("thinking_delta" : Text)
      ∧ strAt event "delta" "thinking" = some piece
  | .toolUse .. => strAt event "delta" "type" = some ("input_json_delta" : Text)
      ∧ strAt event "delta" "partial_json" = some piece
  | .toolResult .. => False

/-- The events for what happens. -/
inductive Writes (blocks : List ContentBlock) : Step → Value → Prop where
  | start {index : ℕ} {block : ContentBlock} {event : Value} (known : blocks[index]? = some block)
      (type : typeOf event = "content_block_start") (place : indexOf event = index)
      (head : StartsBlock event block) : Writes blocks (.start index) event
  | piece {index : ℕ} {piece : Text} {block : ContentBlock} {event : Value}
      (known : blocks[index]? = some block) (type : typeOf event = "content_block_delta")
      (place : indexOf event = index) (adds : AddsPiece event piece block) :
      Writes blocks (.piece index piece) event
  | signature {index : ℕ} {event : Value} (type : typeOf event = "content_block_delta")
      (place : indexOf event = index)
      (delta : strAt event "delta" "type" = some ("signature_delta" : Text)) :
      Writes blocks (.signature index) event
  | stop {index : ℕ} {event : Value} (type : typeOf event = "content_block_stop") :
      Writes blocks (.stop index) event
  | ping {event : Value} (type : typeOf event = "ping") : Writes blocks .ping event

/-- An event as it is sent: its name, and a text of its value on one line. -/
structure Sent where
  name : Text
  event : Value
  text : Text
  json : JsonText event text
  plain : '\n' ∉ name ∧ '\n' ∉ text

def Sent.lines (s : Sent) : List Bytes :=
  [encode ("event: " ++ s.name), encode ("data: " ++ s.text), []]

structure MessageStream (blocks : List ContentBlock) where
  steps : List Step
  legal : Legal blocks steps
  start : Sent
  content : List Sent
  delta : Sent
  stop : Sent
  startType : typeOf start.event = "message_start"
  writes : List.Forall₂ (fun step s => Writes blocks step s.event) steps content
  deltaType : typeOf delta.event = "message_delta"
  stopType : typeOf stop.event = "message_stop"

def MessageStream.sent {blocks : List ContentBlock} (m : MessageStream blocks) : List Sent :=
  m.start :: m.content ++ [m.delta, m.stop]

theorem newline_not_mem_encode {t : Text} (h : '\n' ∉ t) :
  LF ∉ encode t
  := mt (mem_of_mem_encode (d := '\n') (by decide)) h

def MessageStream.body {blocks : List ContentBlock} (m : MessageStream blocks) : Body where
  lines := m.sent.flatMap Sent.lines
  last := []
  plain := by
    intro l hl
    obtain ⟨s, -, hs⟩ := List.mem_flatMap.mp hl
    have hname : '\n' ∉ ("event: " : Text) ++ s.name := by
      rw [List.mem_append, not_or]
      exact ⟨by decide, s.plain.1⟩
    have htext : '\n' ∉ ("data: " : Text) ++ s.text := by
      rw [List.mem_append, not_or]
      exact ⟨by decide, s.plain.2⟩
    simp only [Sent.lines, List.mem_cons, List.not_mem_nil, or_false] at hs
    rcases hs with rfl | rfl | rfl
    · exact newline_not_mem_encode hname
    · exact newline_not_mem_encode htext
    · exact List.not_mem_nil
  lastPlain := List.not_mem_nil

/-- The reader reads the texts of a stream: those of the events, and those of the inputs. -/
structure ReadsStream (fromStr : Reader) {blocks : List ContentBlock} (m : MessageStream blocks) :
    Prop extends ReadsJson fromStr where
  events : ∀ s ∈ m.sent, fromStr (trimStart s.text) = .ok s.event
  inputs : ∀ index id name input, blocks[index]? = some (.toolUse id name input) →
    JsonText input (pieceText m.steps index) → fromStr (pieceText m.steps index) = .ok input

/-- Each block of a tool use has a piece of input that is not empty, and the blocks are in the order
of their starts. -/
structure MessageStream.Right {blocks : List ContentBlock} (m : MessageStream blocks) : Prop where
  inputs : ∀ index id name input, blocks[index]? = some (.toolUse id name input) →
    pieceText m.steps index ≠ []
  inOrder : (m.steps.filterMap Step.started).filterMap (fun index => blocks[index]?) = blocks

/-! ### Blocks from their pieces -/

def blockOf : ContentBlock → Text → Block
  | .text _, t => .text t
  | .thinking _, t => .thinking t
  | .toolUse id name _, t => .toolUse (some id) (some name) t
  | .toolResult .., t => .text t

variable {blocks : List ContentBlock} {event : Value} {steps : List Step} {block : ContentBlock}
    {index : ℕ} {step : Step}

theorem startBlock_of_startsBlock (h : StartsBlock event block) :
  startBlock event = some (blockOf block [])
  := by
  cases block with
  | text t =>
    rw [StartsBlock] at h
    rw [startBlock, h]
    rfl
  | thinking t =>
    rw [StartsBlock] at h
    rw [startBlock, h]
    rfl
  | toolUse id name input =>
    obtain ⟨htype, hid, hname⟩ := h
    rw [startBlock, htype, hid, hname]
    rfl
  | toolResult id content status => exact h.elim

theorem extend_of_addsPiece {piece : Text} (h : AddsPiece event piece block) (t : Text) :
  ((blockOf block t).extend event).1 = blockOf block (t ++ piece)
  := by
  cases block with
  | text s =>
    obtain ⟨htype, hpiece⟩ := h
    rw [blockOf, Block.extend, hpiece, htype]
    rfl
  | thinking s =>
    obtain ⟨htype, hpiece⟩ := h
    rw [blockOf, Block.extend, hpiece, htype]
    rfl
  | toolUse id name input =>
    obtain ⟨htype, hpiece⟩ := h
    rw [blockOf, Block.extend, hpiece, htype]
    rfl
  | toolResult id content status => exact h.elim

theorem extend_of_signature (h : strAt event "delta" "type" = some ("signature_delta" : Text))
    (block : Block) :
  (block.extend event).1 = block
  := by
  cases block with
  | text t =>
    rw [Block.extend, h]
    cases strAt event "delta" "text" with
    | none => rfl
    | some chunk => rfl
  | thinking t =>
    rw [Block.extend, h]
    cases strAt event "delta" "thinking" with
    | none => rfl
    | some chunk => rfl
  | toolUse id name input =>
    rw [Block.extend, h]
    cases strAt event "delta" "partial_json" with
    | none => rfl
    | some chunk => rfl

theorem touch_other (hstart : typeOf event ≠ "content_block_start")
    (hdelta : typeOf event ≠ "content_block_delta") (index : ℕ) (block : Option Block) :
  touch index block event = block
  := by
  rw [touch, if_neg hstart, if_neg hdelta, ite_self]

def come (index : ℕ) (t : Option Text) : Step → Option Text
  | .start k => if k = index then some [] else t
  | .piece k piece => if k = index then t.map fun t => t ++ piece else t
  | _ => t

theorem touch_of_writes (h : Writes blocks step event) (hblock : blocks[index]? = some block)
    (t : Option Text) :
  touch index (t.map (blockOf block)) event = (come index t step).map (blockOf block)
  := by
  cases h with
  | @start k block' _ known type place head =>
    rw [touch, place, come]
    by_cases hindex : k = index
    · subst hindex
      obtain rfl := Option.some.inj (known.symm.trans hblock)
      rw [if_pos rfl, if_pos rfl, if_pos type, startBlock_of_startsBlock head]
      rfl
    · rw [if_neg hindex, if_neg hindex]
  | @piece k piece block' _ known type place adds =>
    rw [touch, place, come]
    by_cases hindex : k = index
    · subst hindex
      obtain rfl := Option.some.inj (known.symm.trans hblock)
      rw [if_pos rfl, if_pos rfl, type, if_neg (by decide), if_pos rfl]
      cases t with
      | none => rfl
      | some t => exact congrArg some (extend_of_addsPiece adds t)
    · rw [if_neg hindex, if_neg hindex]
  | signature type place delta =>
    have hsame : (t.map (blockOf block)).map (fun b => (b.extend event).1)
        = t.map (blockOf block) := by
      cases t with
      | none => rfl
      | some t => exact congrArg some (extend_of_signature delta _)
    rw [touch]
    split
    · rw [type, if_neg (by decide)]
      exact hsame
    · rfl
  | stop type =>
    apply touch_other
    · rw [type]
      decide
    · rw [type]
      decide
  | ping type =>
    apply touch_other
    · rw [type]
      decide
    · rw [type]
      decide

theorem foldl_touch {events : List Value} (h : List.Forall₂ (Writes blocks) steps events)
    (hblock : blocks[index]? = some block) (t : Option Text) :
  events.foldl (touch index) (t.map (blockOf block))
    = (steps.foldl (come index) t).map (blockOf block)
  := by
  induction h generalizing t with
  | nil => rfl
  | cons hstep _ ih =>
    rw [List.foldl_cons, List.foldl_cons, touch_of_writes hstep hblock, ih]

theorem come_other (h : step.index ≠ some index) (t : Option Text) :
  come index t step = t
  := by
  cases step with
  | start k => exact if_neg fun heq => h (congrArg some heq)
  | piece k piece => exact if_neg fun heq => h (congrArg some heq)
  | signature k => rfl
  | stop k => rfl
  | ping => rfl

theorem foldl_come_filter (index : ℕ) (steps : List Step) (t : Option Text) :
  steps.foldl (come index) t
    = (steps.filter fun step => step.index = some index).foldl (come index) t
  := by
  induction steps generalizing t with
  | nil => rfl
  | cons step steps ih =>
    by_cases hindex : step.index = some index
    · rw [List.filter_cons_of_pos (by simpa using hindex), List.foldl_cons, List.foldl_cons, ih]
    · rw [List.filter_cons_of_neg (by simpa using hindex), List.foldl_cons,
        come_other hindex, ih]

theorem pieceText_filter (index : ℕ) (steps : List Step) :
  pieceText steps index = pieceText (steps.filter fun step => step.index = some index) index
  := by
  induction steps with
  | nil => rfl
  | cons step steps ih =>
    rw [pieceText] at ih ⊢
    rw [List.flatMap_cons, ih]
    by_cases hindex : step.index = some index
    · rw [List.filter_cons_of_pos (by simpa using hindex), pieceText, pieceText,
        List.flatMap_cons]
    · have hnil : step.pieceFor index = [] := by
        cases step with
        | piece k t => exact if_neg fun heq => hindex (congrArg some heq)
        | _ => rfl
      rw [List.filter_cons_of_neg (by simpa using hindex), hnil, List.nil_append]

theorem foldl_come_deltas (index : ℕ) {middle : List Step} (h : ∀ step ∈ middle, step.isDelta)
    (t : Text) :
  middle.foldl (come index) (some t) = some (t ++ pieceText middle index)
  := by
  induction middle generalizing t with
  | nil =>
    rw [pieceText, List.flatMap_nil, List.append_nil]
    rfl
  | cons step middle ih =>
    obtain ⟨hstep, hmiddle⟩ := List.forall_mem_cons.mp h
    have hcome : come index (some t) step = some (t ++ step.pieceFor index) := by
      cases step with
      | piece k piece =>
        rw [come, Step.pieceFor]
        split
        · rfl
        · rw [List.append_nil]
      | signature k => exact congrArg some (List.append_nil t).symm
      | start k => exact hstep.elim
      | stop k => exact hstep.elim
      | ping => exact hstep.elim
    rw [List.foldl_cons, hcome, ih hmiddle, pieceText, pieceText, List.flatMap_cons,
      List.append_assoc]

theorem Legal.come (h : Legal blocks steps) (hindex : index < blocks.length) :
  steps.foldl (come index) none = some (pieceText steps index)
  := by
  obtain ⟨middle, hfilter, hmiddle⟩ := h.each index hindex
  rw [foldl_come_filter, pieceText_filter, hfilter, List.foldl_cons, List.foldl_append]
  have hstart : Anthropic.come index none (.start index) = some [] := if_pos rfl
  rw [hstart, foldl_come_deltas index hmiddle, List.nil_append]
  have htext : pieceText (.start index :: (middle ++ [.stop index])) index
      = pieceText middle index := by
    rw [pieceText, List.flatMap_cons, List.flatMap_append, List.flatMap_singleton]
    exact List.append_nil _
  rw [htext]
  rfl

/-! ### The order of blocks -/

theorem foldl_insertIndex {indices : List ℕ} (h : indices.Nodup) :
  indices.foldl insertIndex [] = indices
  := by
  induction indices using List.reverseRecOn with
  | nil => rfl
  | append_singleton indices index ih =>
    rw [List.nodup_append_comm, List.singleton_append, List.nodup_cons] at h
    rw [List.foldl_append, ih h.2, List.foldl_cons, List.foldl_nil, insertIndex, if_neg h.1]

theorem not_starts (h : typeOf event ≠ "content_block_start") :
  ¬ starts event
  := by
  rw [starts, decide_eq_false h, Bool.false_and]
  exact Bool.false_ne_true

theorem starts_of_writes (h : Writes blocks step event) :
  (if starts event then some (indexOf event) else none) = step.started
  := by
  cases h with
  | start known type place head =>
    rw [starts, decide_eq_true type, startBlock_of_startsBlock head, place]
    rfl
  | piece known type place adds =>
    rw [starts, type]
    rfl
  | signature type place delta =>
    rw [starts, type]
    rfl
  | stop type =>
    rw [starts, type]
    rfl
  | ping type =>
    rw [starts, type]
    rfl

theorem starts_of_steps {events : List Value} (h : List.Forall₂ (Writes blocks) steps events) :
  (events.filter starts).map indexOf = steps.filterMap Step.started
  := by
  induction h with
  | nil => rfl
  | @cons step event steps events hstep _ ih =>
    have hstarts := starts_of_writes hstep
    by_cases hevent : starts event
    · rw [if_pos hevent] at hstarts
      rw [List.filter_cons_of_pos hevent, List.map_cons, ih, List.filterMap_cons, ← hstarts]
    · rw [if_neg hevent] at hstarts
      rw [List.filter_cons_of_neg hevent, ih, List.filterMap_cons, ← hstarts]

theorem count_started (steps : List Step) (index : ℕ) :
  (steps.filterMap Step.started).count index
    = ((steps.filter fun step => step.index = some index).filterMap Step.started).count index
  := by
  induction steps with
  | nil => rfl
  | cons step steps ih =>
    by_cases hindex : step.index = some index
    · rw [List.filter_cons_of_pos (by simpa using hindex), List.filterMap_cons,
        List.filterMap_cons]
      cases step.started with
      | none => exact ih
      | some k =>
        dsimp only
        rw [List.count_cons, List.count_cons, ih]
    · rw [List.filter_cons_of_neg (by simpa using hindex), ← ih, List.filterMap_cons]
      cases step with
      | start k =>
        have hne : k ≠ index := fun heq => hindex (congrArg some heq)
        exact List.count_cons_of_ne hne
      | piece k t => rfl
      | signature k => rfl
      | stop k => rfl
      | ping => rfl

theorem Legal.count_started (h : Legal blocks steps) (index : ℕ) :
  (steps.filterMap Step.started).count index = if index < blocks.length then 1 else 0
  := by
  rw [Anthropic.count_started]
  split
  · rename_i hindex
    obtain ⟨middle, hfilter, hmiddle⟩ := h.each index hindex
    have hnone : middle.filterMap Step.started = [] := by
      apply List.filterMap_eq_nil_iff.mpr
      intro step hstep
      have hdelta := hmiddle step hstep
      cases step with
      | start k => exact hdelta.elim
      | _ => rfl
    have hstop : [Step.stop index].filterMap Step.started = [] := rfl
    rw [hfilter, List.filterMap_cons, List.filterMap_append, hnone, hstop]
    exact List.count_singleton_self
  · rename_i hindex
    have hnone : (steps.filter fun step => step.index = some index) = [] := by
      apply List.filter_eq_nil_iff.mpr
      intro step hstep hstepIndex
      exact hindex (h.known step hstep index (by simpa using hstepIndex))
    rw [hnone]
    rfl

theorem Legal.nodup_started (h : Legal blocks steps) :
  (steps.filterMap Step.started).Nodup
  := by
  rw [List.nodup_iff_count_le_one]
  intro index
  rw [h.count_started]
  split
  · rfl
  · apply Nat.zero_le

theorem Legal.mem_started (h : Legal blocks steps) :
  index ∈ steps.filterMap Step.started ↔ index < blocks.length
  := by
  rw [← List.count_pos_iff, h.count_started]
  split
  · simp [*]
  · simp [*]

/-! ### The stream -/

theorem events_of_lines {fromStr : Reader} (hempty : ∃ e, fromStr "" = .error e) {s : Sent}
    (h : fromStr (trimStart s.text) = .ok s.event) :
  (∀ l ∈ s.lines, ¬ Refused fromStr l) ∧ s.lines.flatMap (eventsOf fromStr) = [s.event]
  := by
  have hline (t : Text) : readLine fromStr (encode t) = readText fromStr t := by
    rw [readLine, lineText, strFromUtf8_eq_some.mpr rfl]
    rfl
  have hname : readLine fromStr (encode ("event: " ++ s.name))
      = .ok (.named (trim (' ' :: s.name))) := hline _
  have hblank : readLine fromStr [] = .ok .ignored := rfl
  have hdata : readLine fromStr (encode ("data: " ++ s.text)) = .ok (.event s.event) := by
    have hread : readText fromStr ("data: " ++ s.text) = readData fromStr (trimStart s.text) := rfl
    have hne : trimStart s.text ≠ [] := by
      intro hnil
      obtain ⟨e, he⟩ := hempty
      change fromStr [] = .error e at he
      rw [hnil, he] at h
      cases h
    rw [hline, hread, readData, if_neg hne, sseEvent, h]
    rfl
  constructor
  · intro l hl
    simp only [Sent.lines, List.mem_cons, List.not_mem_nil, or_false] at hl
    rintro ⟨e, he⟩
    rcases hl with rfl | rfl | rfl
    · rw [hname] at he
      cases he
    · rw [hdata] at he
      cases he
    · rw [hblank] at he
      cases he
  · simp only [Sent.lines, List.flatMap_cons, List.flatMap_nil, eventsOf, hname, hdata, hblank,
      List.nil_append, List.append_nil]

theorem events_of_sent {fromStr : Reader} (hempty : ∃ e, fromStr "" = .error e) {sent : List Sent}
    (h : ∀ s ∈ sent, fromStr (trimStart s.text) = .ok s.event) :
  (∀ l ∈ sent.flatMap Sent.lines, ¬ Refused fromStr l)
    ∧ (sent.flatMap Sent.lines).flatMap (eventsOf fromStr) = sent.map Sent.event
  := by
  induction sent with
  | nil => exact ⟨List.forall_mem_nil _, rfl⟩
  | cons s sent ih =>
    obtain ⟨hs, hsent⟩ := List.forall_mem_cons.mp h
    obtain ⟨haccepted, hevents⟩ := events_of_lines hempty hs
    obtain ⟨haccepted', hevents'⟩ := ih hsent
    constructor
    · intro l hl
      rw [List.flatMap_cons, List.mem_append] at hl
      exact hl.elim (haccepted l) (haccepted' l)
    · rw [List.flatMap_cons, List.flatMap_append, hevents, hevents', List.map_cons,
        List.singleton_append]

theorem Writes.no_error (h : Writes blocks step event) :
  typeOf event ≠ "error"
  := by
  cases h with
  | start known type place head =>
    rw [type]
    decide
  | piece known type place adds =>
    rw [type]
    decide
  | signature type place delta =>
    rw [type]
    decide
  | stop type =>
    rw [type]
    decide
  | ping type =>
    rw [type]
    decide

section

variable {fromStr : Reader} {blocks : List ContentBlock} (m : MessageStream blocks)

def MessageStream.events : List Value :=
  m.sent.map Sent.event

theorem MessageStream.events_eq :
  m.events = m.start.event :: m.content.map Sent.event ++ [m.delta.event, m.stop.event]
  := by
  rw [events, sent, List.map_append]
  rfl

theorem MessageStream.writes_events :
  List.Forall₂ (Writes blocks) m.steps (m.content.map Sent.event)
  := by
  rw [List.forall₂_map_right_iff]
  exact m.writes

theorem MessageStream.blockAt_events {index : ℕ} {block : ContentBlock}
    (h : blocks[index]? = some block) :
  blockAt m.events index = some (blockOf block (pieceText m.steps index))
  := by
  have hlt : index < blocks.length := (List.getElem?_eq_some_iff.mp h).1
  have hfold := foldl_touch m.writes_events h none
  rw [m.legal.come hlt] at hfold
  have hstart (b : Option Block) : touch index b m.start.event = b :=
    touch_other (by rw [m.startType]; decide) (by rw [m.startType]; decide) index b
  have hdelta (b : Option Block) : touch index b m.delta.event = b :=
    touch_other (by rw [m.deltaType]; decide) (by rw [m.deltaType]; decide) index b
  have hstop (b : Option Block) : touch index b m.stop.event = b :=
    touch_other (by rw [m.stopType]; decide) (by rw [m.stopType]; decide) index b
  rw [blockAt, m.events_eq, List.foldl_append]
  simp only [List.foldl_cons, List.foldl_nil, hstart, hdelta, hstop]
  exact hfold

theorem MessageStream.order_events :
  order m.events = m.steps.filterMap Step.started
  := by
  have hstart : ¬ starts m.start.event := not_starts (by rw [m.startType]; decide)
  have hdelta : ¬ starts m.delta.event := not_starts (by rw [m.deltaType]; decide)
  have hstop : ¬ starts m.stop.event := not_starts (by rw [m.stopType]; decide)
  rw [order, m.events_eq, List.filter_append, List.filter_cons_of_neg hstart,
    List.filter_cons_of_neg hdelta, List.filter_cons_of_neg hstop, List.filter_nil,
    List.append_nil, starts_of_steps m.writes_events, foldl_insertIndex m.legal.nodup_started]

theorem MessageStream.no_error :
  ¬ ∃ event ∈ m.events, typeOf event = "error"
  := by
  rintro ⟨event, hevent, herror⟩
  rw [m.events_eq] at hevent
  simp only [List.cons_append, List.mem_cons, List.mem_append, List.not_mem_nil, or_false] at hevent
  rcases hevent with rfl | hevent | rfl | rfl
  · rw [m.startType] at herror
    exact absurd herror (by decide)
  · obtain ⟨step, -, hwrites⟩ := Result.exists_left m.writes_events hevent
    exact hwrites.no_error herror
  · rw [m.deltaType] at herror
    exact absurd herror (by decide)
  · rw [m.stopType] at herror
    exact absurd herror (by decide)

theorem MessageStream.ends :
  ∃ event ∈ m.events, typeOf event = "message_stop"
  := by
  use m.stop.event
  constructor
  · rw [m.events_eq]
    apply List.mem_append_right
    exact List.mem_cons_of_mem _ List.mem_cons_self
  · exact m.stopType

variable {m}

theorem contentBlock_of_spells (h : ReadsStream fromStr m) {index : ℕ} {block : ContentBlock}
    (hblock : blocks[index]? = some block)
    (hinput : ∀ id name input, block = .toolUse id name input → pieceText m.steps index ≠ []) :
  contentBlock fromStr (blockOf block (pieceText m.steps index)) = .ok block
  := by
  have hspells := m.legal.spelled index block hblock
  cases block with
  | text t =>
    rw [Spells] at hspells
    rw [hspells]
    rfl
  | thinking t =>
    rw [Spells] at hspells
    rw [hspells]
    rfl
  | toolUse id name input =>
    obtain ⟨⟨fields, hfields⟩, hjson | ⟨hnil, -⟩⟩ := hspells
    · have hread := h.inputs index id name input hblock hjson
      rw [blockOf, contentBlock, hread, hfields]
      rfl
    · exact absurd hnil (hinput id name input rfl)
  | toolResult id content status => exact hspells.elim

theorem contentBlock_without_input (hempty : ∃ e, fromStr "" = .error e) (id name : Text)
    (input : Value) :
  ∃ e, contentBlock fromStr (blockOf (.toolUse id name input) []) = .error e
  := by
  obtain ⟨e, he⟩ := hempty
  change fromStr [] = .error e at he
  use .protocol ("invalid tool input: " ++ e)
  rw [blockOf, contentBlock, he]

theorem mapM_blocks (h : ReadsStream fromStr m)
    (hinputs : ∀ index id name input, blocks[index]? = some (.toolUse id name input) →
      pieceText m.steps index ≠ []) :
  ((order m.events).filterMap (blockAt m.events)).mapM (contentBlock fromStr)
    = .ok ((m.steps.filterMap Step.started).filterMap fun index => blocks[index]?)
  := by
  rw [m.order_events, Result.mapM_ok]
  have hknown : ∀ index ∈ m.steps.filterMap Step.started, index < blocks.length :=
    fun index => m.legal.mem_started.mp
  generalize m.steps.filterMap Step.started = indices at hknown ⊢
  induction indices with
  | nil => apply List.Forall₂.nil
  | cons index indices ih =>
    obtain ⟨hindex, hindices⟩ := List.forall_mem_cons.mp hknown
    have hblock := List.getElem?_eq_getElem hindex
    rw [List.filterMap_cons, List.filterMap_cons, m.blockAt_events hblock, hblock]
    apply List.Forall₂.cons
    · apply contentBlock_of_spells h hblock
      intro id name input heq
      exact hinputs index id name input (hblock.trans (congrArg some heq))
    · exact ih hindices

/-- **A stream of events is decoded to its message if and only if each tool use has input, and the
blocks stand in the order of their starts.** -/
theorem assembled_iff (h : ReadsStream fromStr m) {chunks : List Bytes}
    (hchunks : chunks.flatten = m.body.bytes) :
  (∃ r, ((decoder fromStr).round chunks).result = .ok r ∧ r.message = ⟨.assistant, blocks⟩)
    ↔ m.Right
  := by
  obtain ⟨haccepted, hevents⟩ := events_of_sent h.notEmpty h.events
  obtain ⟨d, hd⟩ := Decoder.handleLines_of_accepted (decoder_refuses h.toReadsJson) haccepted
    (decoder fromStr).start
  have hknows := knows hd
  rw [hevents] at hknows
  have hresult : ((decoder fromStr).round chunks).result = assemble fromStr d :=
    congrArg Emits.result (@Decoder.round_ok _ _ _ _ (decoder fromStr) m.body d hd chunks hchunks)
  have herror : d.error = none := by
    rw [← Option.isNone_iff_eq_none, ← Option.not_isSome, Bool.not_eq_true', ← Bool.not_eq_true]
    exact mt hknows.error.mp m.no_error
  rw [hresult, assemble, herror]
  dsimp only
  rw [if_pos (hknows.messageStopSeen.mpr m.ends), hknows.taken, ← MessageStream.events]
  constructor
  · rintro ⟨r, hr, hmessage⟩
    obtain ⟨content, hcontent, rfl⟩ := Result.map_ok.mp hr
    obtain ⟨-, rfl⟩ := AgentMessage.mk.inj hmessage
    have hinputs : ∀ index id name input, content[index]? = some (.toolUse id name input) →
        pieceText m.steps index ≠ [] := by
      intro index id name input hblock hnil
      have hmade := m.blockAt_events hblock
      rw [hnil] at hmade
      exact Result.exists_mapM_ok.mp ⟨content, hcontent⟩
        ⟨_, mem_blocks.mpr ⟨index, hmade⟩, contentBlock_without_input h.notEmpty id name input⟩
    use hinputs
    exact (Except.ok.inj (hcontent.symm.trans (mapM_blocks h hinputs))).symm
  · rintro ⟨hinputs, horder⟩
    rw [mapM_blocks h hinputs, horder]
    exact ⟨_, rfl, rfl⟩

end

/-! ### A tool use without input -/

def Sent.compact (name : Text) (event : Value) (h : event.proper)
    (plain : '\n' ∉ name ∧ '\n' ∉ event.toText) : Sent :=
  ⟨name, event, event.toText, jsonText_toText h, plain⟩

def asksTime : List ContentBlock :=
  [.toolUse "t" "now" (.object [])]

/-- The index of the first block. -/
def zero : Value :=
  .number ⟨false, [0], Json.zero_ne_nil, [], none⟩

/-- A stream of the message, with no piece of input. -/
def asksTimeStream : MessageStream asksTime where
  steps := [.start 0, .stop 0]
  legal := {
    known := by decide
    spelled := by
      intro index block hblock
      match index with
      | 0 =>
        obtain rfl := Option.some.inj hblock
        exact ⟨⟨[], rfl⟩, .inr ⟨rfl, rfl⟩⟩
    each := by
      intro index hindex
      match index with
      | 0 => exact ⟨[], rfl, List.forall_mem_nil _⟩ }
  start := .compact "message_start" (.object [("type", .string "message_start")])
    (by decide) (by decide)
  content := [
    .compact "content_block_start" (.object [("type", .string "content_block_start"),
      ("index", zero), ("content_block", .object [("type", .string "tool_use"),
        ("id", .string "t"), ("name", .string "now"), ("input", .object [])])])
      (by decide) (by decide),
    .compact "content_block_stop" (.object [("type", .string "content_block_stop"),
      ("index", zero)]) (by decide) (by decide)]
  delta := .compact "message_delta" (.object [("type", .string "message_delta"),
    ("delta", .object [("stop_reason", .string "tool_use")])]) (by decide) (by decide)
  stop := .compact "message_stop" (.object [("type", .string "message_stop")])
    (by decide) (by decide)
  startType := rfl
  writes := .cons (.start rfl rfl rfl ⟨rfl, rfl, rfl⟩) (.cons (.stop rfl) .nil)
  deltaType := rfl
  stopType := rfl

/-- A reader of the texts of the stream. -/
def readsAsksTime : Reader := fun t =>
  match (asksTimeStream.sent.map fun s => (s.text, s.event)).lookup (trimEnd t) with
  | some event => .ok event
  | none => .error "expected value"

theorem readsStream_readsAsksTime : ReadsStream readsAsksTime asksTimeStream where
  trailing t := by
    have htrim : trimEnd (t ++ ['\r']) = trimEnd t := List.rdropWhile_concat_pos _ _ _ (by decide)
    rw [readsAsksTime, readsAsksTime, htrim]
  notDone := ⟨_, rfl⟩
  notEmpty := ⟨_, rfl⟩
  events := by
    intro s hs
    simp only [MessageStream.sent, asksTimeStream, List.cons_append, List.nil_append, List.mem_cons,
      List.not_mem_nil, or_false] at hs
    rcases hs with rfl | rfl | rfl | rfl | rfl <;> rfl
  inputs := by
    intro index id name input hblock hjson
    obtain ⟨c, hc, -⟩ := exists_mem_of_jsonText hjson
    cases hc

/-- Whether the message is made is a matter of its input and of the order of its blocks. -/
theorem assembled_iff_asksTime :
  (∃ r, ((decoder readsAsksTime).round [asksTimeStream.body.bytes]).result = .ok r
      ∧ r.message = ⟨.assistant, asksTime⟩) ↔ asksTimeStream.Right
  := assembled_iff readsStream_readsAsksTime List.flatten_singleton

/-- Without a piece of input the message is not made. -/
theorem asksTime_not_assembled :
  ¬ ∃ r, ((decoder readsAsksTime).round [asksTimeStream.body.bytes]).result = .ok r
    ∧ r.message = ⟨.assistant, asksTime⟩
  := by
  rintro ⟨r, hr, -⟩
  have hnone : ((decoder readsAsksTime).round
      [asksTimeStream.body.bytes]).result.toOption.isSome = false := by decide +kernel
  rw [hr] at hnone
  cases hnone

end Agent.Anthropic
