import Catio.Agent.Provider.Decode
import Catio.Lib.Table

/-!
# Responses of Anthropic

The decoder of streams in `agent/provider/anthropic.rs`.  The events of content blocks come in any
order with the index of their block, of which they make `blockAt`; the blocks stand in the order of
their starts.  `Right` says on which bodies the decoder is faithful.
-/

namespace Agent.Anthropic

open Json LineStream Text

/-! ### The decoder -/

/-- A content block of which a part is there. -/
inductive Block where
  | text (text : Text)
  | thinking (thinking : Text)
  | toolUse (id name : Option Text) (input : Text)
  deriving DecidableEq

/-- The state of the decoder, without the bytes of the line. -/
structure AnthropicDecoder where
  eventType : Option Text := none
  blocks : Table ℕ Block := ∅
  blockOrder : List ℕ := []
  stopReason : Option ProviderStop := none
  inputTokens : Option ℕ := none
  outputTokens : ℕ := 0
  messageStopSeen : Bool := false
  error : Option ProviderError := none

inductive Line where
  | ignored
  | named (event : Text)
  | event (event : Value)

def readData (fromStr : Reader) (data : Text) : Except ProviderError Line :=
  if data = [] then .ok .ignored else (sseEvent fromStr data).map .event

def readText (fromStr : Reader) (line : Text) : Except ProviderError Line :=
  match stripPrefix "event:" line with
  | some event => .ok (.named (trim event))
  | none =>
      match stripPrefix "data:" line with
      | none => .ok .ignored
      | some data => readData fromStr (trimStart data)

def readLine (fromStr : Reader) (line : Bytes) : Except ProviderError Line :=
  (lineText line).bind (readText fromStr)

def typeOf (event : Value) : Text :=
  ((event.get "type").bind Value.asStr).getD []

def startBlock (event : Value) : Option Block :=
  let blockType := (strAt event "content_block" "type").getD []
  if blockType = "text" then some (.text [])
  else if blockType = "thinking" then some (.thinking [])
  else if blockType = "tool_use" then
    some (.toolUse (strAt event "content_block" "id") (strAt event "content_block" "name") [])
  else none

/-- What a delta makes of its block, and what it gives to the observer. -/
def Block.extend (event : Value) : Block → Block × List Delta
  | .text t =>
      match strAt event "delta" "text" with
      | some chunk =>
          if strAt event "delta" "type" = some ("text_delta" : Text) then
            (.text (t ++ chunk), [.text chunk])
          else (.text t, [])
      | none => (.text t, [])
  | .thinking t =>
      match strAt event "delta" "thinking" with
      | some chunk =>
          if strAt event "delta" "type" = some ("thinking_delta" : Text) then
            (.thinking (t ++ chunk), [.thinking chunk])
          else (.thinking t, [])
      | none => (.thinking t, [])
  | .toolUse id name input =>
      match strAt event "delta" "partial_json" with
      | some chunk =>
          if strAt event "delta" "type" = some ("input_json_delta" : Text) then
            (.toolUse id name (input ++ chunk), [])
          else (.toolUse id name input, [])
      | none => (.toolUse id name input, [])

def stopReasonOf (reason : Text) : ProviderStop :=
  if reason = "tool_use" then .toolUse
  else if reason = "max_tokens" then .maxTokens
  else .stop

/-- What an event does that is about the message as a whole.  An unknown one does nothing. -/
def AnthropicDecoder.handleMessage (d : AnthropicDecoder) (event : Value) : AnthropicDecoder :=
  if typeOf event = "error" then
    { d with error := some (.protocol
        ((strAt event "error" "message").getD "unknown stream error")) }
  else if typeOf event = "message_start" then
    { d with inputTokens := natOf (((event.get "message").bind fun v => v.get "usage").bind fun v =>
        v.get "input_tokens") }
  else if typeOf event = "message_delta" then
    { d with
        stopReason := ((strAt event "delta" "stop_reason").map stopReasonOf).or d.stopReason
        outputTokens := (natOf ((event.get "usage").bind fun v => v.get "output_tokens")).getD
          d.outputTokens }
  else if typeOf event = "message_stop" then { d with messageStopSeen := true }
  else d

def AnthropicDecoder.handleEvent (d : AnthropicDecoder) (event : Value) :
    AnthropicDecoder × List Delta :=
  if typeOf event = "content_block_start" then
    match startBlock event with
    | some block =>
        ({ d with
            blocks := d.blocks.insert (indexOf event) block
            blockOrder :=
              if d.blocks.lookup (indexOf event) = none then d.blockOrder ++ [indexOf event]
              else d.blockOrder }, [])
    | none => (d, [])
  else if typeOf event = "content_block_delta" then
    match d.blocks.lookup (indexOf event) with
    | some block =>
        ({ d with blocks := Table.modify (indexOf event) (fun b => (b.extend event).1) d.blocks },
          (block.extend event).2)
    | none => (d, [])
  else (d.handleMessage event, [])

def AnthropicDecoder.handle (d : AnthropicDecoder) : Line → AnthropicDecoder × List Delta
  | .ignored => (d, [])
  | .named event => ({ d with eventType := some event }, [])
  | .event event => d.handleEvent event

def handleLine (fromStr : Reader) (d : AnthropicDecoder) (line : Bytes) :
    Except ProviderError (AnthropicDecoder × List Delta) :=
  (readLine fromStr line).map d.handle

def contentBlock (fromStr : Reader) : Block → Except ProviderError ContentBlock
  | .text text => .ok (.text text)
  | .thinking thinking => .ok (.thinking thinking)
  | .toolUse none _ _ => .error (.protocol "tool_use missing id")
  | .toolUse (some _) none _ => .error (.protocol "tool_use missing name")
  | .toolUse (some id) (some name) input =>
      match fromStr input with
      | .error e => .error (.protocol ("invalid tool input: " ++ e))
      | .ok input =>
          if input.asObject.isSome then .ok (.toolUse id name input)
          else .error (.protocol "tool input must be a JSON object")

/-- The end of a stream.  Each block is taken once, since no index is twice in the order. -/
def assemble (fromStr : Reader) (d : AnthropicDecoder) : Except ProviderError StoppedRound :=
  match d.error with
  | some e => .error e
  | none =>
      if d.messageStopSeen then
        ((d.blockOrder.filterMap d.blocks.lookup).mapM (contentBlock fromStr)).map fun content =>
          { message := ⟨.assistant, content⟩
            usage := d.inputTokens.map fun input => ⟨input, d.outputTokens⟩
            stop := d.stopReason.getD .stop }
      else .error .unexpectedEof

def decoder (fromStr : Reader) : Decoder AnthropicDecoder Delta ProviderError StoppedRound where
  start := {}
  handleLine := handleLine fromStr
  assemble := assemble fromStr

/-! ### What events say -/

def touch (index : ℕ) (block : Option Block) (event : Value) : Option Block :=
  if indexOf event = index then
    if typeOf event = "content_block_start" then (startBlock event).or block
    else if typeOf event = "content_block_delta" then block.map fun b => (b.extend event).1
    else block
  else block

def blockAt (events : List Value) (index : ℕ) : Option Block :=
  events.foldl (touch index) none

def starts (event : Value) : Bool :=
  typeOf event = "content_block_start" && (startBlock event).isSome

def insertIndex (order : List ℕ) (index : ℕ) : List ℕ :=
  if index ∈ order then order else order ++ [index]

/-- The indices of blocks, in the order in which they are started first. -/
def order (events : List Value) : List ℕ :=
  ((events.filter starts).map indexOf).foldl insertIndex []

/-- What an event gives to the observer behind others. -/
def adds (before : List Value) (event : Value) : List Delta :=
  if typeOf event = "content_block_delta" then
    ((blockAt before (indexOf event)).map fun block => (block.extend event).2).getD []
  else []

/-- What events give to the observer behind others. -/
def deliveredFrom (before : List Value) : List Value → List Delta
  | [] => []
  | event :: events => adds before event ++ deliveredFrom (before ++ [event]) events

/-- What events give to the observer. -/
def delivered (events : List Value) : List Delta :=
  deliveredFrom [] events

def Block.spoken : Block → Text
  | .text t => t
  | _ => []

def textAt (events : List Value) (index : ℕ) : Text :=
  ((blockAt events index).map Block.spoken).getD []

theorem blockAt_concat (events : List Value) (event : Value) (index : ℕ) :
  blockAt (events ++ [event]) index = touch index (blockAt events index) event
  := by
  rw [blockAt, List.foldl_append]
  rfl

theorem order_concat (events : List Value) (event : Value) :
  order (events ++ [event])
    = if starts event then insertIndex (order events) (indexOf event) else order events
  := by
  rw [order, List.filter_append, List.map_append, List.foldl_append]
  split
  · rename_i hstarts
    rw [List.filter_cons_of_pos hstarts]
    rfl
  · rename_i hstarts
    rw [List.filter_cons_of_neg hstarts]
    rfl

theorem deliveredFrom_append (before xs ys : List Value) :
  deliveredFrom before (xs ++ ys) = deliveredFrom before xs ++ deliveredFrom (before ++ xs) ys
  := by
  induction xs generalizing before with
  | nil =>
    rw [List.append_nil]
    rfl
  | cons x xs ih =>
    rw [List.cons_append, deliveredFrom, deliveredFrom, ih, List.append_assoc,
      List.append_assoc, List.singleton_append]

theorem delivered_concat (events : List Value) (event : Value) :
  delivered (events ++ [event]) = delivered events ++ adds events event
  := by
  rw [delivered, deliveredFrom_append, List.nil_append, deliveredFrom, deliveredFrom,
    List.append_nil]
  rfl

theorem mem_insertIndex {order : List ℕ} {index k : ℕ} :
  k ∈ insertIndex order index ↔ k ∈ order ∨ k = index
  := by
  rw [insertIndex]
  split
  · rename_i hmem
    constructor
    · exact .inl
    · rintro (h | rfl)
      · exact h
      · exact hmem
  · rw [List.mem_append, List.mem_singleton]

variable {events : List Value} {d : AnthropicDecoder} {deltas : List Delta} {event : Value}

theorem mem_order {index : ℕ} :
  index ∈ order events ↔ blockAt events index ≠ none
  := by
  induction events using List.reverseRecOn with
  | nil => simp [order, blockAt]
  | append_singleton events event ih =>
    rw [order_concat, blockAt_concat, touch]
    by_cases hindex : indexOf event = index
    · rw [if_pos hindex]
      by_cases hstarts : starts event
      · rw [if_pos hstarts, mem_insertIndex]
        rw [starts, Bool.and_eq_true, decide_eq_true_eq] at hstarts
        obtain ⟨block, hblock⟩ := Option.isSome_iff_exists.mp hstarts.2
        rw [if_pos hstarts.1, hblock]
        simp [hindex]
      · rw [if_neg hstarts, ih]
        split
        · rename_i htype
          rw [starts, htype] at hstarts
          simp at hstarts
          rw [hstarts, Option.none_or]
        · split
          · rw [ne_eq, ne_eq, Option.map_eq_none_iff]
          · rfl
    · rw [if_neg hindex, ← ih]
      split
      · rw [mem_insertIndex]
        simp [Ne.symm hindex]
      · rfl

/-! ### The state behind events -/

theorem blocks_handleMessage (d : AnthropicDecoder) (event : Value) :
  (d.handleMessage event).blocks = d.blocks ∧ (d.handleMessage event).blockOrder = d.blockOrder
  := by
  unfold AnthropicDecoder.handleMessage
  split_ifs
  · exact ⟨rfl, rfl⟩
  · exact ⟨rfl, rfl⟩
  · exact ⟨rfl, rfl⟩
  · exact ⟨rfl, rfl⟩
  · exact ⟨rfl, rfl⟩

theorem error_handleMessage (d : AnthropicDecoder) (event : Value) :
  (d.handleMessage event).error.isSome ↔ d.error.isSome ∨ typeOf event = "error"
  := by
  unfold AnthropicDecoder.handleMessage
  split_ifs with herror hstart hdelta hstop
  · simp [herror]
  · simp [hstart]
  · simp [hdelta]
  · simp [hstop]
  · exact (or_iff_left herror).symm

theorem messageStopSeen_handleMessage (d : AnthropicDecoder) (event : Value) :
  (d.handleMessage event).messageStopSeen ↔ d.messageStopSeen ∨ typeOf event = "message_stop"
  := by
  unfold AnthropicDecoder.handleMessage
  split_ifs with herror hstart hdelta hstop
  · simp [herror]
  · simp [hstart]
  · simp [hdelta]
  · simp [hstop]
  · exact (or_iff_left hstop).symm

theorem handleEvent_start (htype : typeOf event = "content_block_start") (d : AnthropicDecoder) :
  d.handleEvent event
    = match startBlock event with
      | some block =>
          ({ d with
              blocks := d.blocks.insert (indexOf event) block
              blockOrder :=
                if d.blocks.lookup (indexOf event) = none then d.blockOrder ++ [indexOf event]
                else d.blockOrder }, [])
      | none => (d, [])
  := if_pos htype

theorem handleEvent_delta (htype : typeOf event = "content_block_delta") (d : AnthropicDecoder) :
  d.handleEvent event
    = match d.blocks.lookup (indexOf event) with
      | some block =>
          ({ d with blocks := Table.modify (indexOf event) (fun b => (b.extend event).1) d.blocks },
            (block.extend event).2)
      | none => (d, [])
  := by
  rw [AnthropicDecoder.handleEvent, htype, if_neg (by decide), if_pos rfl]

theorem handleEvent_message (hstart : typeOf event ≠ "content_block_start")
    (hdelta : typeOf event ≠ "content_block_delta") (d : AnthropicDecoder) :
  d.handleEvent event = (d.handleMessage event, [])
  := by
  rw [AnthropicDecoder.handleEvent, if_neg hstart, if_neg hdelta]

theorem lookup_handleEvent (d : AnthropicDecoder) (event : Value) (index : ℕ) :
  (d.handleEvent event).1.blocks.lookup index = touch index (d.blocks.lookup index) event
  := by
  rw [touch]
  by_cases hstart : typeOf event = "content_block_start"
  · rw [handleEvent_start hstart, if_pos hstart]
    cases startBlock event with
    | none => simp
    | some block =>
      by_cases hindex : indexOf event = index
      · rw [if_pos hindex, ← hindex, Option.some_or]
        apply AList.lookup_insert
      · rw [if_neg hindex]
        apply AList.lookup_insert_ne (Ne.symm hindex)
  · rw [if_neg hstart]
    by_cases hdelta : typeOf event = "content_block_delta"
    · rw [handleEvent_delta hdelta, if_pos hdelta]
      cases hblock : d.blocks.lookup (indexOf event) with
      | none =>
        by_cases hindex : indexOf event = index
        · rw [if_pos hindex, ← hindex, hblock]
          rfl
        · rw [if_neg hindex]
      | some block =>
        by_cases hindex : indexOf event = index
        · rw [if_pos hindex, ← hindex]
          apply Table.lookup_modify_self
        · rw [if_neg hindex]
          apply Table.lookup_modify_ne _ _ (Ne.symm hindex)
    · rw [handleEvent_message hstart hdelta, (blocks_handleMessage d event).1, if_neg hdelta,
        ite_self]

theorem blockOrder_handleEvent (d : AnthropicDecoder) (event : Value) :
  (d.handleEvent event).1.blockOrder
    = if starts event ∧ d.blocks.lookup (indexOf event) = none then
        d.blockOrder ++ [indexOf event]
      else d.blockOrder
  := by
  by_cases hstart : typeOf event = "content_block_start"
  · rw [handleEvent_start hstart, starts, decide_eq_true hstart, Bool.true_and]
    cases startBlock event with
    | none => simp
    | some block => simp
  · have hstarts : starts event = false := by
      rw [starts, decide_eq_false hstart, Bool.false_and]
    rw [hstarts, if_neg (by simp)]
    by_cases hdelta : typeOf event = "content_block_delta"
    · rw [handleEvent_delta hdelta]
      cases d.blocks.lookup (indexOf event) with
      | none => rfl
      | some block => rfl
    · rw [handleEvent_message hstart hdelta, (blocks_handleMessage d event).2]

theorem emitted_handleEvent (d : AnthropicDecoder) (event : Value) :
  (d.handleEvent event).2
    = if typeOf event = "content_block_delta" then
        ((d.blocks.lookup (indexOf event)).map fun block => (block.extend event).2).getD []
      else []
  := by
  split
  · rename_i hdelta
    rw [handleEvent_delta hdelta]
    cases d.blocks.lookup (indexOf event) with
    | none => rfl
    | some block => rfl
  · rename_i hdelta
    by_cases hstart : typeOf event = "content_block_start"
    · rw [handleEvent_start hstart]
      cases startBlock event with
      | none => rfl
      | some block => rfl
    · rw [handleEvent_message hstart hdelta]

theorem flags_handleEvent (d : AnthropicDecoder) (event : Value) :
  ((d.handleEvent event).1.error.isSome ↔ d.error.isSome ∨ typeOf event = "error")
    ∧ ((d.handleEvent event).1.messageStopSeen
      ↔ d.messageStopSeen ∨ typeOf event = "message_stop")
  := by
  by_cases hstart : typeOf event = "content_block_start"
  · rw [handleEvent_start hstart, hstart]
    cases startBlock event with
    | none => simp
    | some block => simp
  · by_cases hdelta : typeOf event = "content_block_delta"
    · rw [handleEvent_delta hdelta, hdelta]
      cases d.blocks.lookup (indexOf event) with
      | none => simp
      | some block => simp
    · rw [handleEvent_message hstart hdelta]
      exact ⟨error_handleMessage d event, messageStopSeen_handleMessage d event⟩

structure Knows (events : List Value) (d : AnthropicDecoder) (deltas : List Delta) : Prop where
  emitted : deltas = delivered events
  blocks : ∀ index, d.blocks.lookup index = blockAt events index
  blockOrder : d.blockOrder = order events
  error : d.error.isSome ↔ ∃ event ∈ events, typeOf event = "error"
  messageStopSeen : d.messageStopSeen ↔ ∃ event ∈ events, typeOf event = "message_stop"

theorem knows_start :
  Knows [] {} []
  := by
  constructor
  · rfl
  · intro index
    rfl
  · rfl
  · simp
  · simp

theorem Knows.next (h : Knows events d deltas) (event : Value) :
  Knows (events ++ [event]) (d.handleEvent event).1 (deltas ++ (d.handleEvent event).2)
  := by
  have hexists (p : Value → Prop) :
      (∃ e ∈ events ++ [event], p e) ↔ (∃ e ∈ events, p e) ∨ p event := by
    simp only [List.mem_append, or_and_right, exists_or, List.mem_singleton, exists_eq_left]
  constructor
  · rw [delivered_concat, adds, emitted_handleEvent, h.blocks, h.emitted]
  · intro index
    rw [lookup_handleEvent, h.blocks, blockAt_concat]
  · have hmem : indexOf event ∈ order events ↔ ¬ d.blocks.lookup (indexOf event) = none := by
      rw [mem_order, h.blocks]
    rw [blockOrder_handleEvent, order_concat, insertIndex, h.blockOrder]
    simp only [hmem, ite_not]
    by_cases hstarts : starts event
    · simp only [hstarts, true_and, if_true]
    · simp only [hstarts, Bool.false_eq_true, false_and, if_false]
  · rw [hexists, ← h.error]
    exact (flags_handleEvent d event).1
  · rw [hexists, ← h.messageStopSeen]
    exact (flags_handleEvent d event).2

/-! ### What a body says -/

section

variable (fromStr : Reader)

def Refused (line : Bytes) : Prop :=
  ∃ e, readLine fromStr line = .error e

def eventsOf (line : Bytes) : List Value :=
  match readLine fromStr line with
  | .ok (.event event) => [event]
  | _ => []

def Whole : Block → Prop
  | .toolUse id name input =>
      id.isSome ∧ name.isSome ∧ ∃ fields, fromStr input = .ok (.object fields)
  | _ => True

/-- Events end badly: one is an error, or none is the end of the message, or some block is not
whole. -/
def Unfinished (events : List Value) : Prop :=
  (∃ event ∈ events, typeOf event = "error")
    ∨ (¬ ∃ event ∈ events, typeOf event = "message_stop")
    ∨ ∃ index block, blockAt events index = some block ∧ ¬ Whole fromStr block

def EndsBadly (b : Body) : Prop :=
  Refused fromStr b.last ∨ Unfinished fromStr ((b.lines ++ [b.last]).flatMap (eventsOf fromStr))

/-- The bodies to which the decoder is faithful: nothing for the observer before a refused line, and
the pieces of text are the text of the blocks in order, unless the body ends badly. -/
structure Right (b : Body) : Prop where
  refused : ∀ before l after, b.lines = before ++ l :: after → Refused fromStr l →
    (∀ x ∈ before, ¬ Refused fromStr x) → delivered (before.flatMap (eventsOf fromStr)) = []
  text : (∀ l ∈ b.lines, ¬ Refused fromStr l) → ¬ EndsBadly fromStr b →
    let events := (b.lines ++ [b.last]).flatMap (eventsOf fromStr)
    (delivered (b.lines.flatMap (eventsOf fromStr))).flatMap Delta.spoken
      = (order events).flatMap (textAt events)

end

/-! ### Lines -/

variable {fromStr : Reader}

theorem readLine_return (h : ReadsJson fromStr) (line : Bytes) :
  (readLine fromStr (line ++ [CR])).toOption = (readLine fromStr line).toOption
  := by
  rw [readLine, readLine, Result.toOption_bind, Result.toOption_bind, lineText_return]
  cases (lineText line).toOption with
  | none => rfl
  | some t =>
    rw [Option.map_some, Option.bind_some, Option.bind_some, readText, readText,
      stripPrefix_concat (by decide), stripPrefix_concat (by decide)]
    cases stripPrefix "event:" t with
    | some event =>
      dsimp only [Option.map_some]
      rw [trim_append_blank (List.forall_mem_singleton.mpr (by decide))]
    | none =>
      cases stripPrefix "data:" t with
      | none => rfl
      | some data =>
        dsimp only [Option.map_some, Option.map_none]
        rw [trimStart_concat (by decide)]
        split
        · rename_i hnil
          rw [hnil]
        · rename_i hnil
          rw [readData, if_neg (by simp), readData, if_neg hnil, Result.toOption_map,
            Result.toOption_map, sseEvent_return h]

theorem decoder_line (d : AnthropicDecoder) (line : Bytes) :
  (decoder fromStr).line d line = (readLine fromStr line).map d.handle
  := Decoder.line_eq (D := decoder fromStr) rfl line

theorem decoder_refuses (h : ReadsJson fromStr) :
  (decoder fromStr).Refuses (Refused fromStr) (fun _ => False)
  := by
  constructor
  · intro d line
    rw [decoder_line, Refused, ← Result.toOption_eq_none, ← Result.toOption_eq_none,
      Result.toOption_map, Option.map_eq_none_iff]
  · intro line
    rw [Refused, Refused, ← Result.toOption_eq_none, ← Result.toOption_eq_none, readLine_return h,
      or_false]
  · intro line _ d
    rw [decoder_line, decoder_line, Result.toOption_map, Result.toOption_map, readLine_return h]

theorem Knows.named (h : Knows events d deltas) (name : Option Text) :
  Knows events { d with eventType := name } deltas
  := ⟨h.emitted, h.blocks, h.blockOrder, h.error, h.messageStopSeen⟩

theorem knows {lines : List Bytes}
    (h : ((decoder fromStr).handleLines (decoder fromStr).start lines).result = .ok d) :
  Knows (lines.flatMap (eventsOf fromStr)) d
    ((decoder fromStr).handleLines (decoder fromStr).start lines).emitted
  := by
  apply Decoder.handleLines_invariant knows_start _ h
  intro lines d deltas line d' more hknows hline
  rw [decoder_line] at hline
  obtain ⟨r, hr, hhandle⟩ := Result.map_ok.mp hline
  rw [List.flatMap_append, List.flatMap_singleton, eventsOf, hr]
  cases r with
  | ignored =>
    obtain ⟨rfl, rfl⟩ := Prod.mk.inj hhandle
    rwa [List.append_nil, List.append_nil]
  | named event =>
    obtain ⟨rfl, rfl⟩ := Prod.mk.inj hhandle
    rw [List.append_nil, List.append_nil]
    exact hknows.named event
  | event event =>
    have hnext := hknows.next event
    rw [show d.handleEvent event = (d', more) from hhandle] at hnext
    exact hnext

/-! ### The end of a stream -/

theorem contentBlock_error (block : Block) :
  (∃ e, contentBlock fromStr block = .error e) ↔ ¬ Whole fromStr block
  := by
  cases block with
  | text t => simp [contentBlock, Whole]
  | thinking t => simp [contentBlock, Whole]
  | toolUse id name input =>
    cases id with
    | none => simp [contentBlock, Whole]
    | some id =>
      cases name with
      | none => simp [contentBlock, Whole]
      | some name =>
        rw [contentBlock, Whole]
        cases fromStr input with
        | error e => simp
        | ok v =>
          cases v with
          | object fields => simp [Value.asObject]
          | _ => simp [Value.asObject]

theorem mem_blocks {block : Block} :
  block ∈ (order events).filterMap (blockAt events) ↔ ∃ index, blockAt events index = some block
  := by
  rw [List.mem_filterMap]
  constructor
  · rintro ⟨index, -, hblock⟩
    exact ⟨index, hblock⟩
  · rintro ⟨index, hblock⟩
    use index
    rw [mem_order, hblock]
    exact ⟨Option.some_ne_none block, rfl⟩

theorem Knows.taken (h : Knows events d deltas) :
  d.blockOrder.filterMap d.blocks.lookup = (order events).filterMap (blockAt events)
  := by
  rw [h.blockOrder]
  congr 1
  funext index
  exact h.blocks index

theorem assemble_eq_none (h : Knows events d deltas) :
  ((decoder fromStr).assemble d).toOption = none ↔ Unfinished fromStr events
  := by
  change (assemble fromStr d).toOption = none ↔ _
  rw [assemble, Unfinished, ← h.error, ← h.messageStopSeen]
  cases herror : d.error with
  | some e => simp [Except.toOption]
  | none =>
    dsimp only
    by_cases hseen : d.messageStopSeen
    · rw [if_pos hseen, Result.toOption_map, Option.map_eq_none_iff, h.taken]
      have hall := @Result.exists_mapM_ok _ _ _ (contentBlock fromStr)
        ((order events).filterMap (blockAt events))
      simp only [contentBlock_error] at hall
      rw [← not_iff_not, ← ne_eq, Option.ne_none_iff_exists']
      simp only [Result.toOption_eq_some, hall, hseen, mem_blocks, Option.isSome_none,
        Bool.false_eq_true, not_true_eq_false, false_or]
      rw [not_iff_not]
      constructor
      · rintro ⟨block, ⟨index, hblock⟩, hwhole⟩
        exact ⟨index, block, hblock, hwhole⟩
      · rintro ⟨index, block, hblock, hwhole⟩
        exact ⟨block, ⟨index, hblock⟩, hwhole⟩
    · rw [if_neg hseen]
      simp [hseen, Except.toOption]

theorem textParts_of_blocks {blocks : List Block} {content : List ContentBlock}
    (h : List.Forall₂ (fun block c => contentBlock fromStr block = .ok c) blocks content) :
  (textParts ⟨.assistant, content⟩).flatten = blocks.flatMap Block.spoken
  := by
  induction h with
  | nil => rfl
  | @cons block c blocks content hblock _ ih =>
    rw [← List.singleton_append, textParts_append, List.flatten_append, ih, List.flatMap_cons]
    congr 1
    cases block with
    | text t =>
      obtain rfl := Except.ok.inj hblock
      apply List.flatten_singleton
    | thinking t =>
      obtain rfl := Except.ok.inj hblock
      rfl
    | toolUse id name input =>
      have hnone : textParts ⟨.assistant, [c]⟩ = [] := by
        apply textParts_eq_nil
        rintro c' hc' t rfl
        obtain rfl := List.mem_singleton.mp hc'
        cases id with
        | none => cases hblock
        | some id =>
          cases name with
          | none => cases hblock
          | some name =>
            rw [contentBlock] at hblock
            split at hblock
            · cases hblock
            · split at hblock
              · cases hblock
              · cases hblock
      rw [hnone]
      rfl

theorem text_of_assemble (h : Knows events d deltas) {r : StoppedRound}
    (hr : (decoder fromStr).assemble d = .ok r) :
  r.text = (order events).flatMap (textAt events)
  := by
  change assemble fromStr d = .ok r at hr
  unfold assemble at hr
  split at hr
  · cases hr
  · split at hr
    · rw [h.taken] at hr
      obtain ⟨content, hcontent, rfl⟩ := Result.map_ok.mp hr
      rw [StoppedRound.text, textParts_of_blocks (Result.mapM_ok.mp hcontent)]
      induction order events with
      | nil => rfl
      | cons index order ih =>
        rw [List.flatMap_cons, ← ih, List.filterMap_cons, textAt]
        cases blockAt events index with
        | none => rfl
        | some block => rfl
    · cases hr

/-! ### Faithful decoding -/

theorem emitted_of_accepted (h : ReadsJson fromStr) {lines : List Bytes}
    (haccepted : ∀ l ∈ lines, ¬ Refused fromStr l) :
  ((decoder fromStr).handleLines (decoder fromStr).start lines).emitted
    = delivered (lines.flatMap (eventsOf fromStr))
  := by
  obtain ⟨d, hd⟩ := Decoder.handleLines_of_accepted (decoder_refuses h) haccepted
    (decoder fromStr).start
  exact (knows hd).emitted

theorem outcome_eq_none (h : ReadsJson fromStr) {b : Body}
    (haccepted : ∀ l ∈ b.lines, ¬ Refused fromStr l) :
  ((decoder fromStr).outcome b).result.toOption = none ↔ EndsBadly fromStr b
  := by
  apply Decoder.outcome_eq_none (decoder_refuses h) haccepted
  intro d hd
  exact assemble_eq_none (knows hd)

/-- **The decoder is faithful to a body if and only if the body is right.** -/
theorem faithful_iff (h : ReadsJson fromStr) (b : Body) :
  (decoder fromStr).Faithful Delta.spoken StoppedRound.text b ↔ Right fromStr b
  := by
  have htext {r : StoppedRound} (hr : ((decoder fromStr).outcome b).result = .ok r) :
      r.text = (order ((b.lines ++ [b.last]).flatMap (eventsOf fromStr))).flatMap
        (textAt ((b.lines ++ [b.last]).flatMap (eventsOf fromStr))) := by
    rw [Decoder.outcome_result] at hr
    obtain ⟨d, hd, hassemble⟩ := Result.bind_ok.mp hr
    exact text_of_assemble (knows hd) hassemble
  rw [Decoder.faithful_iff (decoder_refuses h)]
  constructor
  · rintro ⟨hquiet, -, hspoken⟩
    constructor
    · intro before l after hlines hl hbefore
      rw [← emitted_of_accepted h hbefore]
      exact hquiet before l after hlines hl hbefore
    · intro haccepted hends
      obtain ⟨r, hr⟩ := Option.ne_none_iff_exists'.mp (mt (outcome_eq_none h haccepted).mp hends)
      rw [Result.toOption_eq_some] at hr
      dsimp only
      rw [← htext hr, ← emitted_of_accepted h haccepted]
      exact hspoken haccepted r hr
  · rintro ⟨hrefused, hspoken⟩
    refine ⟨?_, ?_, ?_⟩
    · intro before l after hlines hl hbefore
      rw [emitted_of_accepted h hbefore]
      exact hrefused before l after hlines hl hbefore
    · rintro - ⟨l, -, hl⟩
      exact hl.elim
    · intro haccepted r hr
      have hends : ¬ EndsBadly fromStr b := by
        rw [← outcome_eq_none h haccepted, hr]
        exact Option.some_ne_none r
      rw [htext hr, Decoder.lined, emitted_of_accepted h haccepted]
      exact hspoken haccepted hends

end Agent.Anthropic
