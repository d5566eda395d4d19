import Catio.Agent.Provider.Decode

/-!
# Responses of OpenAI

The decoder of streams in `agent/provider/openai.rs`.  A line is read by itself (`readLine`), and
the fragments of a tool call are put together by index.  Where the decoder is faithful to a body is
said in terms of the lines of the body (`Right`).
-/

namespace Agent.OpenAi

open Json LineStream Text

/-! ### The decoder -/

inductive FinishReason where
  | stop
  | toolCalls
  | length
  | contentFilter
  deriving DecidableEq

/-- The result of a stream. -/
structure DecodedSse where
  text : Text
  toolCalls : List ToolUse
  finishReason : FinishReason
  usage : Option TokenUsage

def DecodedSse.intoRound (d : DecodedSse) : StoppedRound where
  message := ⟨.assistant, (if d.text = [] then [] else [.text d.text])
    ++ d.toolCalls.map fun tool => .toolUse tool.id tool.name tool.input⟩
  usage := d.usage
  stop :=
    match d.finishReason with
    | .stop => .stop
    | .toolCalls => .toolUse
    | .length => .length
    | .contentFilter => .contentFilter

structure AccumulatingToolCall where
  id : Option Text := none
  name : Option Text := none
  arguments : Text := []
  deriving DecidableEq

instance : Inhabited AccumulatingToolCall := ⟨{}⟩

/-- The state of the decoder, without the bytes of the line. -/
structure OpenAiDecoder where
  text : Text := []
  toolCalls : List AccumulatingToolCall := []
  finishReason : Option FinishReason := none
  usage : Option TokenUsage := none
  doneSeen : Bool := false

inductive Line where
  | ignored
  | done
  | event (event : Value)

def readData (fromStr : Reader) (data : Text) : Except ProviderError Line :=
  if data = "[DONE]" then .ok .done else (sseEvent fromStr data).map .event

def readText (fromStr : Reader) (line : Text) : Except ProviderError Line :=
  match stripPrefix "data:" line with
  | none => .ok .ignored
  | some data => readData fromStr (trimStart data)

def readLine (fromStr : Reader) (line : Bytes) : Except ProviderError Line :=
  (lineText line).bind (readText fromStr)

def choiceOf (event : Value) : Value :=
  (((event.get "choices").bind Value.asArray).bind List.head?).getD .null

def contentOf (event : Value) : Option Text :=
  strAt (choiceOf event) "delta" "content"

def toolCallsOf (event : Value) : List Value :=
  (((choiceOf event).get "delta").bind fun delta =>
    (delta.get "tool_calls").bind Value.asArray).getD []

def AccumulatingToolCall.merge (slot : AccumulatingToolCall) (call : Value) :
    AccumulatingToolCall where
  id := ((call.get "id").bind Value.asStr).or slot.id
  name := (strAt call "function" "name").or slot.name
  arguments := slot.arguments ++ (strAt call "function" "arguments").getD []

/-- Put a fragment where its index says. -/
def accumulate (calls : List AccumulatingToolCall) (call : Value) : List AccumulatingToolCall :=
  let missing := List.replicate (indexOf call + 1 - calls.length) default
  (calls ++ missing).modify (indexOf call) fun slot => slot.merge call

def finishReasonOf (reason : Text) : FinishReason :=
  if reason = "tool_calls" then .toolCalls
  else if reason = "length" then .length
  else if reason = "content_filter" then .contentFilter
  else .stop

def usageOf (event : Value) : Option TokenUsage :=
  let usage := ((event.get "usage").or ((choiceOf event).get "usage")).getD .null
  if usage.asObject.isSome then
    some ⟨(natOf (usage.get "prompt_tokens")).getD 0,
      (natOf (usage.get "completion_tokens")).getD 0⟩
  else none

def OpenAiDecoder.handle (d : OpenAiDecoder) : Line → OpenAiDecoder × List Text
  | .ignored => (d, [])
  | .done => ({ d with doneSeen := true }, [])
  | .event event =>
      ({ d with
          text := d.text ++ (contentOf event).getD []
          toolCalls := (toolCallsOf event).foldl accumulate d.toolCalls
          finishReason := ((((choiceOf event).get "finish_reason").bind Value.asStr).map
            finishReasonOf).or d.finishReason
          usage := d.usage.or (usageOf event) },
        (contentOf event).toList)

def handleLine (fromStr : Reader) (d : OpenAiDecoder) (line : Bytes) :
    Except ProviderError (OpenAiDecoder × List Text) :=
  (readLine fromStr line).map d.handle

def toolUse (fromStr : Reader) (call : AccumulatingToolCall) : Except ProviderError ToolUse :=
  match call.id, call.name with
  | none, _ => .error (.protocol "tool call missing id")
  | some _, none => .error (.protocol "tool call missing name")
  | some id, some name =>
      match fromStr call.arguments with
      | .error e => .error (.protocol ("invalid tool arguments: " ++ e))
      | .ok input =>
          if input.asObject.isSome then .ok ⟨id, name, input⟩
          else .error (.protocol "tool arguments must be a JSON object")

/-- The end of a stream. -/
def assemble (fromStr : Reader) (d : OpenAiDecoder) : Except ProviderError DecodedSse :=
  if d.doneSeen then
    (d.toolCalls.mapM (toolUse fromStr)).map fun toolCalls =>
      ⟨d.text, toolCalls, d.finishReason.getD .stop, d.usage⟩
  else .error .unexpectedEof

def decoder (fromStr : Reader) : Decoder OpenAiDecoder Text ProviderError StoppedRound where
  start := {}
  handleLine := handleLine fromStr
  assemble d := (assemble fromStr d).map DecodedSse.intoRound

/-! ### What a body says -/

variable (fromStr : Reader)

def Refused (line : Bytes) : Prop :=
  ∃ e, readLine fromStr line = .error e

/-- A line is the end of a stream. -/
def IsDone (line : Bytes) : Prop :=
  readLine fromStr line = .ok .done

def contentsOf (line : Bytes) : List Text :=
  match readLine fromStr line with
  | .ok (.event event) => (contentOf event).toList
  | _ => []

/-- The fragments of tool calls of a line. -/
def callsOf (line : Bytes) : List Value :=
  match readLine fromStr line with
  | .ok (.event event) => toolCallsOf event
  | _ => []

def callAt (calls : List Value) (index : ℕ) : AccumulatingToolCall :=
  (calls.filter fun call => indexOf call = index).foldl .merge default

def Complete (call : AccumulatingToolCall) : Prop :=
  call.id.isSome ∧ call.name.isSome ∧ ∃ fields, fromStr call.arguments = .ok (.object fields)

/-- Up to the highest index, some tool call is not complete. -/
def Incomplete (calls : List Value) : Prop :=
  ∃ index, (∃ call ∈ calls, index ≤ indexOf call) ∧ ¬ Complete fromStr (callAt calls index)

/-- The bodies to which the decoder is faithful: no text before a refused line, and the end of the
stream on the line that has not ended, or no text and a failure there or in a tool call, or a
refused line. -/
structure Right (b : Body) : Prop where
  refused : ∀ before l after, b.lines = before ++ l :: after → Refused fromStr l →
    (∀ x ∈ before, ¬ Refused fromStr x) → ∀ x ∈ before, contentsOf fromStr x = []
  done : (∀ l ∈ b.lines, ¬ Refused fromStr l) → (∃ l ∈ b.lines, IsDone fromStr l) →
    (∀ l ∈ b.lines, contentsOf fromStr l = [])
      ∧ (Refused fromStr b.last
        ∨ Incomplete fromStr ((b.lines ++ [b.last]).flatMap (callsOf fromStr)))

/-! ### Lines -/

variable {fromStr : Reader}

variable {lines : List Bytes} {d : OpenAiDecoder} {line : Bytes}

theorem readLine_return_done (h : ReadsJson fromStr) (hdone : IsDone fromStr line) :
  (readLine fromStr (line ++ [CR])).toOption = none
  := by
  have hoption := congrArg Except.toOption hdone
  rw [readLine, Result.toOption_bind] at hoption
  obtain ⟨t, ht, hread⟩ := Option.bind_eq_some_iff.mp hoption
  rw [readLine, Result.toOption_bind, lineText_return, ht, Option.map_some, Option.bind_some,
    readText, stripPrefix_concat (by decide)]
  rw [readText] at hread
  cases hdata : stripPrefix "data:" t with
  | none =>
    rw [hdata] at hread
    cases hread
  | some data =>
    rw [hdata] at hread
    dsimp only at hread
    dsimp only [Option.map_some]
    have hstop : trimStart data = "[DONE]" := by
      by_contra hne
      rw [readData, if_neg hne, Result.toOption_map] at hread
      obtain ⟨v, -, hv⟩ := Option.map_eq_some_iff.mp hread
      cases hv
    obtain ⟨e, he⟩ := h.notDone
    rw [trimStart_concat (by decide), hstop, if_neg (by decide), readData, if_neg (by decide),
      Result.toOption_map, sseEvent_return h, sseEvent, he]
    rfl

theorem readLine_return (h : ReadsJson fromStr) (hdone : ¬ IsDone fromStr line) :
  (readLine fromStr (line ++ [CR])).toOption = (readLine fromStr line).toOption
  := by
  rw [readLine, readLine, Result.toOption_bind, Result.toOption_bind, lineText_return]
  cases ht : (lineText line).toOption with
  | none => rfl
  | some t =>
    rw [Option.map_some, Option.bind_some, Option.bind_some, readText, readText,
      stripPrefix_concat (by decide)]
    cases hdata : stripPrefix "data:" t with
    | none => rfl
    | some data =>
      dsimp only [Option.map_some]
      have hstop : trimStart data ≠ "[DONE]" := by
        intro heq
        apply hdone
        rw [IsDone, readLine, Result.toOption_eq_some.mp ht, Except.bind, readText, hdata]
        dsimp only
        rw [readData, if_pos heq]
      have hstop' : trimStart data ++ ['\r'] ≠ "[DONE]" := by
        intro heq
        have hlast := congrArg List.getLast? heq
        rw [List.getLast?_concat] at hlast
        exact absurd hlast (by decide)
      rw [trimStart_concat (by decide)]
      split
      · rename_i hnil
        rw [hnil]
      · rw [readData, if_neg hstop', readData, if_neg hstop, Result.toOption_map,
          Result.toOption_map, sseEvent_return h]

theorem decoder_line (d : OpenAiDecoder) (line : Bytes) :
  (decoder fromStr).line d line = (readLine fromStr line).map d.handle
  := Decoder.line_eq (D := decoder fromStr) rfl line

theorem decoder_refuses (h : ReadsJson fromStr) :
  (decoder fromStr).Refuses (Refused fromStr) (IsDone fromStr)
  := by
  constructor
  · intro d line
    rw [decoder_line, Refused, ← Result.toOption_eq_none, ← Result.toOption_eq_none,
      Result.toOption_map, Option.map_eq_none_iff]
  · intro line
    rw [Refused, Refused, ← Result.toOption_eq_none, ← Result.toOption_eq_none]
    by_cases hdone : IsDone fromStr line
    · rw [readLine_return_done h hdone]
      simp only [hdone, or_true]
    · rw [readLine_return h hdone]
      simp only [hdone, or_false]
  · intro line hdone d
    rw [decoder_line, decoder_line, Result.toOption_map, Result.toOption_map,
      readLine_return h hdone]

/-! ### Tool calls -/

theorem getElem?_accumulate (calls : List AccumulatingToolCall) (call : Value) (index : ℕ) :
  (accumulate calls call)[index]?.getD default
    = if indexOf call = index then (calls[index]?.getD default).merge call
      else calls[index]?.getD default
  := by
  rw [accumulate, List.getElem?_modify, List.getElem?_append]
  by_cases hlt : index < calls.length
  · rw [if_pos hlt, List.getElem?_eq_getElem hlt]
    split
    · rfl
    · rfl
  · rw [if_neg hlt, List.getElem?_replicate, List.getElem?_eq_none (by omega)]
    by_cases hindex : indexOf call = index
    · subst hindex
      rw [if_pos (by omega), if_pos rfl]
      simp only [if_true]
      rfl
    · simp only [if_neg hindex]
      split
      · rfl
      · rfl

theorem length_accumulate (calls : List AccumulatingToolCall) (call : Value) :
  (accumulate calls call).length = max calls.length (indexOf call + 1)
  := by
  rw [accumulate, List.length_modify, List.length_append, List.length_replicate]
  omega

theorem accumulated (calls : List Value) (index : ℕ) :
  (index < (calls.foldl accumulate []).length ↔ ∃ call ∈ calls, index ≤ indexOf call)
    ∧ (calls.foldl accumulate [])[index]?.getD default = callAt calls index
  := by
  induction calls using List.reverseRecOn with
  | nil => simp [callAt]
  | append_singleton calls call ih =>
    rw [List.foldl_append, List.foldl_cons, List.foldl_nil]
    constructor
    · have hmax : index < max (calls.foldl accumulate []).length (indexOf call + 1)
          ↔ index < (calls.foldl accumulate []).length ∨ index ≤ indexOf call := by omega
      rw [length_accumulate, hmax, ih.1]
      simp only [List.mem_append, or_and_right, exists_or, List.mem_singleton, exists_eq_left]
    · rw [getElem?_accumulate, ih.2, callAt, callAt, List.filter_append, List.foldl_append]
      split
      · rename_i hindex
        rw [List.filter_cons_of_pos (by simpa using hindex)]
        rfl
      · rename_i hindex
        rw [List.filter_cons_of_neg (by simpa using hindex)]
        rfl

theorem toolUse_ok (call : AccumulatingToolCall) :
  (∃ e, toolUse fromStr call = .error e) ↔ ¬ Complete fromStr call
  := by
  unfold toolUse Complete
  cases hid : call.id with
  | none => simp
  | some id =>
    cases hname : call.name with
    | none => simp
    | some name =>
      cases hread : fromStr call.arguments with
      | error e => simp
      | ok input =>
        cases input with
        | object fields => simp [Value.asObject]
        | _ => simp [Value.asObject]

theorem incomplete_iff (calls : List Value) :
  (∃ call ∈ calls.foldl accumulate [], ¬ Complete fromStr call) ↔ Incomplete fromStr calls
  := by
  constructor
  · rintro ⟨call, hcall, hincomplete⟩
    obtain ⟨index, hlt, rfl⟩ := List.mem_iff_getElem.mp hcall
    use index, (accumulated calls index).1.mp hlt
    rwa [← (accumulated calls index).2, List.getElem?_eq_getElem hlt]
  · rintro ⟨index, hindex, hincomplete⟩
    have hlt := (accumulated calls index).1.mpr hindex
    rw [← (accumulated calls index).2, List.getElem?_eq_getElem hlt] at hincomplete
    exact ⟨_, List.getElem_mem hlt, hincomplete⟩

/-! ### The state behind lines -/

/-- What the decoder knows behind lines. -/
structure Follows (fromStr : Reader) (lines : List Bytes) (d : OpenAiDecoder)
    (deltas : List Text) : Prop where
  emitted : deltas = lines.flatMap (contentsOf fromStr)
  text : d.text = deltas.flatten
  doneSeen : d.doneSeen ↔ ∃ l ∈ lines, IsDone fromStr l
  toolCalls : d.toolCalls = (lines.flatMap (callsOf fromStr)).foldl accumulate []

theorem follows_start :
  Follows fromStr [] {} []
  := by
  constructor
  · rfl
  · rfl
  · simp
  · rfl

theorem Follows.next {d d' : OpenAiDecoder} {emitted more : List Text}
    (h : Follows fromStr lines d emitted) (hline : (decoder fromStr).line d line = .ok (d', more)) :
  Follows fromStr (lines ++ [line]) d' (emitted ++ more)
  := by
  rw [decoder_line] at hline
  obtain ⟨r, hr, hhandle⟩ := Result.map_ok.mp hline
  have hdone : (∃ l ∈ lines ++ [line], IsDone fromStr l) ↔ d.doneSeen ∨ r = .done := by
    rw [h.doneSeen]
    simp only [List.mem_append, or_and_right, exists_or, List.mem_singleton, exists_eq_left]
    rw [IsDone, hr, Except.ok.injEq]
  have hcontents : (lines ++ [line]).flatMap (contentsOf fromStr)
      = emitted ++ contentsOf fromStr line := by
    rw [List.flatMap_append, ← h.emitted, List.flatMap_singleton]
  have hcalls : ((lines ++ [line]).flatMap (callsOf fromStr)).foldl accumulate []
      = (callsOf fromStr line).foldl accumulate d.toolCalls := by
    rw [List.flatMap_append, List.foldl_append, ← h.toolCalls, List.flatMap_singleton]
  cases r with
  | ignored =>
    obtain ⟨rfl, rfl⟩ := Prod.mk.inj hhandle
    constructor
    · rw [hcontents, contentsOf, hr]
    · rw [h.text, List.append_nil]
    · rw [hdone]
      simp
    · rw [hcalls, callsOf, hr]
      rfl
  | done =>
    obtain ⟨rfl, rfl⟩ := Prod.mk.inj hhandle
    constructor
    · rw [hcontents, contentsOf, hr]
    · rw [List.append_nil, ← h.text]
    · rw [hdone]
      simp
    · rw [hcalls, callsOf, hr]
      rfl
  | event event =>
    obtain ⟨rfl, rfl⟩ := Prod.mk.inj hhandle
    constructor
    · rw [hcontents, contentsOf, hr]
    · dsimp only
      rw [h.text, List.flatten_append]
      cases contentOf event with
      | none => simp
      | some t => simp
    · rw [hdone]
      simp
    · rw [hcalls, callsOf, hr]

theorem follows (h : ((decoder fromStr).handleLines (decoder fromStr).start lines).result = .ok d) :
  Follows fromStr lines d ((decoder fromStr).handleLines (decoder fromStr).start lines).emitted
  := Decoder.handleLines_invariant (D := decoder fromStr) follows_start
    (fun _ _ _ _ _ _ hfollows hline => hfollows.next hline) h

theorem assemble_eq_none {emitted : List Text} (h : Follows fromStr lines d emitted) :
  ((decoder fromStr).assemble d).toOption = none
    ↔ (¬ ∃ l ∈ lines, IsDone fromStr l) ∨ Incomplete fromStr (lines.flatMap (callsOf fromStr))
  := by
  rw [← h.doneSeen, ← incomplete_iff, ← h.toolCalls]
  show ((assemble fromStr d).map DecodedSse.intoRound).toOption = none ↔ _
  rw [Result.toOption_map, Option.map_eq_none_iff, assemble]
  split
  · rename_i hseen
    rw [Result.toOption_map, Option.map_eq_none_iff]
    have hall := @Result.exists_mapM_ok _ _ _ (toolUse fromStr) d.toolCalls
    simp only [toolUse_ok] at hall
    rw [← not_iff_not, ← ne_eq, Option.ne_none_iff_exists']
    simp only [Result.toOption_eq_some, hall, hseen, not_true_eq_false, false_or]
  · rename_i hseen
    simp [hseen, Except.toOption]

theorem intoRound_text (d : DecodedSse) :
  d.intoRound.text = d.text
  := by
  rw [StoppedRound.text, DecodedSse.intoRound, textParts_append]
  have hnone : textParts ⟨.assistant, d.toolCalls.map fun tool =>
      .toolUse tool.id tool.name tool.input⟩ = [] := by
    apply textParts_eq_nil
    intro block hblock t
    obtain ⟨tool, -, rfl⟩ := List.mem_map.mp hblock
    simp
  rw [hnone, List.append_nil]
  split
  · rename_i hnil
    rw [hnil]
    rfl
  · apply List.flatten_singleton

theorem text_of_assemble {r : StoppedRound} (h : (decoder fromStr).assemble d = .ok r) :
  r.text = d.text
  := by
  obtain ⟨decoded, hassemble, rfl⟩ := Result.map_ok.mp
    (show (assemble fromStr d).map DecodedSse.intoRound = .ok r from h)
  rw [intoRound_text]
  unfold assemble at hassemble
  split at hassemble
  · obtain ⟨toolCalls, -, rfl⟩ := Result.map_ok.mp hassemble
    rfl
  · cases hassemble

/-! ### Faithful decoding -/

theorem emitted_of_accepted (h : ReadsJson fromStr) (haccepted : ∀ l ∈ lines, ¬ Refused fromStr l) :
  ((decoder fromStr).handleLines (decoder fromStr).start lines).emitted
    = lines.flatMap (contentsOf fromStr)
  := by
  obtain ⟨d, hd⟩ := Decoder.handleLines_of_accepted (decoder_refuses h) haccepted
    (decoder fromStr).start
  exact (follows hd).emitted

theorem outcome_eq_none (h : ReadsJson fromStr) {b : Body}
    (haccepted : ∀ l ∈ b.lines, ¬ Refused fromStr l) :
  ((decoder fromStr).outcome b).result.toOption = none
    ↔ Refused fromStr b.last ∨ (¬ ∃ l ∈ b.lines ++ [b.last], IsDone fromStr l)
      ∨ Incomplete fromStr ((b.lines ++ [b.last]).flatMap (callsOf fromStr))
  := by
  apply Decoder.outcome_eq_none (decoder_refuses h) haccepted
  intro d hd
  exact assemble_eq_none (follows hd)

/-- **The decoder is faithful to a body if and only if the body is right.** -/
theorem faithful_iff (h : ReadsJson fromStr) (b : Body) :
  (decoder fromStr).Faithful id StoppedRound.text b ↔ Right fromStr b
  := by
  rw [Decoder.faithful_iff (decoder_refuses h)]
  constructor
  · rintro ⟨hquiet, hdone, -⟩
    constructor
    · intro before l after hlines hl hbefore
      have hnil := hquiet before l after hlines hl hbefore
      rw [emitted_of_accepted h hbefore] at hnil
      exact List.flatMap_eq_nil_iff.mp hnil
    · intro haccepted hexists
      obtain ⟨hemitted, hnone⟩ := hdone haccepted hexists
      rw [Decoder.lined, emitted_of_accepted h haccepted] at hemitted
      use List.flatMap_eq_nil_iff.mp hemitted
      obtain ⟨l, hl, hdoneLine⟩ := hexists
      rcases (outcome_eq_none h haccepted).mp hnone with hlast | hnot | hincomplete
      · exact .inl hlast
      · exact absurd ⟨l, List.mem_append_left _ hl, hdoneLine⟩ hnot
      · exact .inr hincomplete
  · rintro ⟨hrefused, hdone⟩
    refine ⟨?_, ?_, ?_⟩
    · intro before l after hlines hl hbefore
      rw [emitted_of_accepted h hbefore]
      exact List.flatMap_eq_nil_iff.mpr (hrefused before l after hlines hl hbefore)
    · intro haccepted hexists
      obtain ⟨hcontents, hends⟩ := hdone haccepted hexists
      rw [Decoder.lined, emitted_of_accepted h haccepted]
      use List.flatMap_eq_nil_iff.mpr hcontents
      rw [outcome_eq_none h haccepted]
      rcases hends with hlast | hincomplete
      · exact .inl hlast
      · exact .inr (.inr hincomplete)
    · intro haccepted r hr
      rw [Decoder.lined, emitted_of_accepted h haccepted, List.flatMap_id]
      have hsome := mt (outcome_eq_none h haccepted).mpr
        (by rw [hr]; exact Option.some_ne_none r)
      push Not at hsome
      obtain ⟨hlast, hseen, hcomplete⟩ := hsome
      have hdoneLast : IsDone fromStr b.last := by
        by_contra hnot
        have hexists : ∃ l ∈ b.lines, IsDone fromStr l := by
          obtain ⟨l, hl, hdoneLine⟩ := hseen
          rcases List.mem_append.mp hl with hl | hl
          · exact ⟨l, hl, hdoneLine⟩
          · rw [List.mem_singleton.mp hl] at hdoneLine
            exact absurd hdoneLine hnot
        exact (hdone haccepted hexists).2.elim hlast hcomplete
      rw [Decoder.outcome_result] at hr
      obtain ⟨d, hd, hassemble⟩ := Result.bind_ok.mp hr
      have hfollows := follows hd
      have hnothing : contentsOf fromStr b.last = [] := by
        rw [contentsOf, hdoneLast]
      rw [text_of_assemble hassemble, hfollows.text, hfollows.emitted, List.flatMap_append,
        List.flatMap_singleton, hnothing, List.append_nil]

end Agent.OpenAi
