import Catio.Agent.Provider.Decode

/-!
# Responses of Ollama

The decoder of streams in `agent/provider/ollama.rs`: each line is a JSON text.  An empty line is
skipped, but not if there is a carriage return in it.  Where the decoder is faithful to a body is
said in terms of the lines of the body (`Right`).
-/

namespace Agent.Ollama

open Json LineStream Text

/-! ### The decoder -/

/-- The id of a tool use, of which the protocol has none. -/
def syntheticToolId (round index : ℕ) : Text :=
  ("ollama-" : Text) ++ Text.ofNat round ++ ("-" : Text) ++ Text.ofNat index

/-- The state of the decoder, without the bytes of the line. -/
structure OllamaDecoder where
  text : Text := []
  thinking : Text := []
  toolCalls : List (Text × Value) := []
  doneSeen : Bool := false

structure Line where
  done : Bool
  content : Text
  thinking : Text
  toolCalls : List (Text × Value)

/-- The name and the arguments of a tool call. -/
def toolCall (call : Value) : Except ProviderError (Text × Value) :=
  let function := (call.get "function").getD .null
  match (function.get "name").bind Value.asStr with
  | none => .error (.protocol "tool call missing name")
  | some name =>
      match function.get "arguments" with
      | none => .error (.protocol "tool call missing arguments")
      | some arguments => .ok (name, arguments)

def readEvent (event : Value) : Except ProviderError Line :=
  let toolCalls := (event.get "message").bind fun message =>
    (message.get "tool_calls").bind Value.asArray
  ((toolCalls.getD []).mapM toolCall).map fun toolCalls =>
    { done := ((event.get "done").bind Automation.asBool).getD false
      content := (strAt event "message" "content").getD []
      thinking := (strAt event "message" "thinking").getD []
      toolCalls := toolCalls }

def readText (fromStr : Reader) (line : Text) : Except ProviderError Line :=
  ((fromStr line).mapError fun e =>
    ProviderError.protocol ("malformed NDJSON line: " ++ e ++ " (line: " ++ line ++ ")")).bind
      readEvent

def readLine (fromStr : Reader) (line : Bytes) : Except ProviderError Line :=
  (lineText line).bind (readText fromStr)

/-- What a line gives to the observer. -/
def Line.deltas (line : Line) : List Delta :=
  (if line.content = [] then [] else [.text line.content])
    ++ if line.thinking = [] then [] else [.thinking line.thinking]

def OllamaDecoder.handle (d : OllamaDecoder) (line : Line) : OllamaDecoder × List Delta :=
  ({  text := d.text ++ line.content
      thinking := d.thinking ++ line.thinking
      toolCalls := d.toolCalls ++ line.toolCalls
      doneSeen := d.doneSeen || line.done },
    line.deltas)

def handleLine (fromStr : Reader) (d : OllamaDecoder) (line : Bytes) :
    Except ProviderError (OllamaDecoder × List Delta) :=
  (readLine fromStr line).map d.handle

def toolUse (round : ℕ) (call : (Text × Value) × ℕ) : Except ProviderError ContentBlock :=
  if call.1.2.asObject.isSome then .ok (.toolUse (syntheticToolId round call.2) call.1.1 call.1.2)
  else .error (.protocol "tool arguments must be a JSON object")

def isToolUse : ContentBlock → Bool
  | .toolUse .. => true
  | _ => false

/-- The end of a stream. -/
def assemble (round : ℕ) (d : OllamaDecoder) : Except ProviderError StoppedRound :=
  if d.doneSeen then
    (d.toolCalls.zipIdx.mapM (toolUse round)).map fun toolUses =>
      let content := ((if d.thinking = [] then [] else [.thinking d.thinking])
        ++ if d.text = [] then [] else [.text d.text]) ++ toolUses
      { message := ⟨.assistant, content⟩
        usage := none
        stop := if content.any isToolUse then .toolUse else .stop }
  else .error .unexpectedEof

def decoder (fromStr : Reader) (round : ℕ) :
    Decoder OllamaDecoder Delta ProviderError StoppedRound where
  start := {}
  handleLine := handleLine fromStr
  assemble := assemble round

/-! ### What a body says -/

variable (fromStr : Reader)

def Refused (line : Bytes) : Prop :=
  line ≠ [] ∧ ∃ e, readLine fromStr line = .error e

/-- What a line says that is not skipped. -/
def said (line : Bytes) : Option Line :=
  if line = [] then none else (readLine fromStr line).toOption

/-- What a line gives to the observer. -/
def deltasOf (line : Bytes) : List Delta :=
  ((said fromStr line).map Line.deltas).getD []

def callsOf (line : Bytes) : List (Text × Value) :=
  ((said fromStr line).map Line.toolCalls).getD []

/-- A line is the end of a stream. -/
def IsDone (line : Bytes) : Prop :=
  ∃ r, said fromStr line = some r ∧ r.done

/-- The line that has not ended is refused, no line is the end of the stream, or arguments of a tool
call are no object. -/
def EndsBadly (b : Body) : Prop :=
  Refused fromStr b.last ∨ (¬ ∃ l ∈ b.lines ++ [b.last], IsDone fromStr l)
    ∨ ∃ call ∈ (b.lines ++ [b.last]).flatMap (callsOf fromStr), call.2.asObject = none

/-- The bodies to which the decoder is faithful: nothing for the observer before a refused line, no
empty line unless a line is refused or the body ends badly and has nothing for the observer, and no
text on the line that has not ended, unless the body ends badly. -/
structure Right (b : Body) : Prop where
  refused : ∀ before l after, b.lines = before ++ l :: after → Refused fromStr l →
    (∀ x ∈ before, ¬ Refused fromStr x) → ∀ x ∈ before, deltasOf fromStr x = []
  empty : (∀ l ∈ b.lines, ¬ Refused fromStr l) → [] ∈ b.lines →
    (∀ l ∈ b.lines, deltasOf fromStr l = []) ∧ EndsBadly fromStr b
  last : (∀ l ∈ b.lines, ¬ Refused fromStr l) → ¬ EndsBadly fromStr b →
    (deltasOf fromStr b.last).flatMap Delta.spoken = []

/-! ### Lines -/

variable {fromStr : Reader} {round : ℕ}

theorem readLine_return (h : ReadsJson fromStr) (line : Bytes) :
  (readLine fromStr (line ++ [CR])).toOption = (readLine fromStr line).toOption
  := by
  rw [readLine, readLine, Result.toOption_bind, Result.toOption_bind, lineText_return]
  cases (lineText line).toOption with
  | none => rfl
  | some t =>
    rw [Option.map_some, Option.bind_some, Option.bind_some, readText, readText,
      Result.toOption_bind, Result.toOption_bind, Result.toOption_mapError,
      Result.toOption_mapError, h.trailing]

theorem readLine_empty (h : ReadsJson fromStr) :
  (readLine fromStr []).toOption = none
  := by
  obtain ⟨e, he⟩ := h.notEmpty
  have htext : lineText [] = .ok [] := rfl
  rw [readLine, htext, Except.bind, readText, Result.toOption_bind, Result.toOption_mapError]
  change fromStr [] = .error e at he
  rw [he]
  rfl

theorem decoder_line (d : OllamaDecoder) {line : Bytes} (hne : line ≠ []) :
  (decoder fromStr round).line d line = (readLine fromStr line).map d.handle
  := if_neg hne

theorem decoder_line_empty (d : OllamaDecoder) :
  (decoder fromStr round).line d [] = .ok (d, [])
  := rfl

theorem decoder_refuses (h : ReadsJson fromStr) :
  (decoder fromStr round).Refuses (Refused fromStr) (· = [])
  := by
  have hconcat (line : Bytes) : line ++ [CR] ≠ [] := by simp
  constructor
  · intro d line
    by_cases hnil : line = []
    · subst hnil
      rw [decoder_line_empty]
      simp [Refused]
    · rw [decoder_line d hnil, Refused, ← Result.toOption_eq_none, ← Result.toOption_eq_none,
        Result.toOption_map, Option.map_eq_none_iff]
      simp only [ne_eq, hnil, not_false_eq_true, true_and]
  · intro line
    rw [Refused, Refused, ← Result.toOption_eq_none, ← Result.toOption_eq_none, readLine_return h]
    by_cases hnil : line = []
    · subst hnil
      simp [readLine_empty h]
    · simp [hnil]
  · intro line hnil d
    rw [decoder_line d hnil, decoder_line d (hconcat line), Result.toOption_map,
      Result.toOption_map, readLine_return h]

/-! ### The state behind lines -/

/-- What the decoder knows behind lines. -/
structure Follows (fromStr : Reader) (lines : List Bytes) (d : OllamaDecoder)
    (deltas : List Delta) : Prop where
  emitted : deltas = lines.flatMap (deltasOf fromStr)
  text : d.text = deltas.flatMap Delta.spoken
  doneSeen : d.doneSeen ↔ ∃ l ∈ lines, IsDone fromStr l
  toolCalls : d.toolCalls = lines.flatMap (callsOf fromStr)

theorem spoken_deltas (line : Line) :
  line.deltas.flatMap Delta.spoken = line.content
  := by
  rw [Line.deltas, List.flatMap_append]
  have hthinking : (if line.thinking = [] then [] else [Delta.thinking line.thinking]).flatMap
      Delta.spoken = [] := by
    split
    · rfl
    · rfl
  rw [hthinking, List.append_nil]
  split
  · rename_i hnil
    rw [hnil]
    rfl
  · apply List.flatMap_singleton

variable {lines : List Bytes} {d : OllamaDecoder}

theorem Follows.next {d d' : OllamaDecoder} {deltas more : List Delta} {line : Bytes}
    (h : Follows fromStr lines d deltas)
    (hline : (decoder fromStr round).line d line = .ok (d', more)) :
  Follows fromStr (lines ++ [line]) d' (deltas ++ more)
  := by
  have hdone : (∃ l ∈ lines ++ [line], IsDone fromStr l) ↔ d.doneSeen ∨ IsDone fromStr line := by
    rw [h.doneSeen]
    simp only [List.mem_append, or_and_right, exists_or, List.mem_singleton, exists_eq_left]
  by_cases hnil : line = []
  · subst hnil
    rw [decoder_line_empty] at hline
    obtain ⟨rfl, rfl⟩ := Prod.mk.inj (Except.ok.inj hline)
    constructor
    · rw [List.flatMap_append, ← h.emitted]
      rfl
    · rw [List.append_nil, h.text]
    · rw [hdone]
      simp [IsDone, said]
    · rw [List.flatMap_append, ← h.toolCalls, List.flatMap_singleton]
      simp [callsOf, said]
  · rw [decoder_line d hnil] at hline
    obtain ⟨r, hr, hhandle⟩ := Result.map_ok.mp hline
    have hsaid : said fromStr line = some r := by
      rw [said, if_neg hnil, hr]
      rfl
    obtain ⟨rfl, rfl⟩ := Prod.mk.inj hhandle
    constructor
    · rw [List.flatMap_append, ← h.emitted, List.flatMap_singleton, deltasOf, hsaid]
      rfl
    · rw [List.flatMap_append, spoken_deltas, ← h.text]
    · rw [hdone]
      simp [IsDone, hsaid]
    · rw [List.flatMap_append, ← h.toolCalls, List.flatMap_singleton, callsOf, hsaid]
      rfl

theorem follows
    (h : ((decoder fromStr round).handleLines (decoder fromStr round).start lines).result = .ok d) :
  Follows fromStr lines d
    ((decoder fromStr round).handleLines (decoder fromStr round).start lines).emitted
  := by
  apply Decoder.handleLines_invariant _ _ h
  · constructor
    · rfl
    · rfl
    · simp [decoder]
    · rfl
  · intro lines d deltas line d' more hfollows hline
    exact hfollows.next hline

theorem toolUse_error (calls : List (Text × Value)) :
  (∃ x ∈ calls.zipIdx, ∃ e, toolUse round x = .error e) ↔ ∃ call ∈ calls, call.2.asObject = none
  := by
  have herror (x : (Text × Value) × ℕ) :
      (∃ e, toolUse round x = .error e) ↔ x.1.2.asObject = none := by
    rw [toolUse]
    cases x.1.2.asObject with
    | none => simp
    | some fields => simp
  simp only [herror]
  constructor
  · rintro ⟨x, hx, hnone⟩
    use x.1, List.fst_mem_of_mem_zipIdx hx
  · rintro ⟨call, hcall, hnone⟩
    obtain ⟨index, hlt, rfl⟩ := List.mem_iff_getElem.mp hcall
    use (calls[index], index), List.mk_mem_zipIdx_iff_getElem?.mpr (List.getElem?_eq_getElem hlt)

theorem assemble_eq_none {deltas : List Delta} (h : Follows fromStr lines d deltas) :
  ((decoder fromStr round).assemble d).toOption = none
    ↔ (¬ ∃ l ∈ lines, IsDone fromStr l)
      ∨ ∃ call ∈ lines.flatMap (callsOf fromStr), call.2.asObject = none
  := by
  rw [← h.doneSeen, ← h.toolCalls, ← @toolUse_error round]
  change (assemble round d).toOption = none ↔ _
  rw [assemble]
  split
  · rename_i hseen
    rw [Result.toOption_map, Option.map_eq_none_iff]
    have hall := @Result.exists_mapM_ok _ _ _ (toolUse round) d.toolCalls.zipIdx
    rw [← not_iff_not, ← ne_eq, Option.ne_none_iff_exists']
    simp only [Result.toOption_eq_some, hall, hseen, not_true_eq_false, false_or]
  · rename_i hseen
    simp [hseen, Except.toOption]

theorem text_of_assemble {r : StoppedRound} (h : (decoder fromStr round).assemble d = .ok r) :
  r.text = d.text
  := by
  change assemble round d = .ok r at h
  unfold assemble at h
  split at h
  · obtain ⟨toolUses, htools, rfl⟩ := Result.map_ok.mp h
    have hnone : textParts ⟨.assistant, toolUses⟩ = [] := by
      apply textParts_eq_nil
      rintro block hblock t rfl
      obtain ⟨x, -, hx⟩ := Result.exists_left (Result.mapM_ok.mp htools) hblock
      unfold toolUse at hx
      split at hx
      · cases hx
      · cases hx
    have hthinking : textParts ⟨.assistant,
        if d.thinking = [] then [] else [.thinking d.thinking]⟩ = [] := by
      split
      · rfl
      · rfl
    rw [StoppedRound.text, textParts_append, textParts_append, hnone, hthinking, List.append_nil,
      List.nil_append]
    split
    · rename_i hnil
      rw [hnil]
      rfl
    · apply List.flatten_singleton
  · cases h

/-! ### Faithful decoding -/

theorem emitted_of_accepted (h : ReadsJson fromStr) (haccepted : ∀ l ∈ lines, ¬ Refused fromStr l) :
  ((decoder fromStr round).handleLines (decoder fromStr round).start lines).emitted
    = lines.flatMap (deltasOf fromStr)
  := by
  obtain ⟨d, hd⟩ := Decoder.handleLines_of_accepted (decoder_refuses h) haccepted
    (decoder fromStr round).start
  exact (follows hd).emitted

theorem outcome_eq_none (h : ReadsJson fromStr) {b : Body}
    (haccepted : ∀ l ∈ b.lines, ¬ Refused fromStr l) :
  ((decoder fromStr round).outcome b).result.toOption = none ↔ EndsBadly fromStr b
  := by
  apply Decoder.outcome_eq_none (decoder_refuses h) haccepted
  intro d hd
  exact assemble_eq_none (follows hd)

/-- **The decoder is faithful to a body if and only if the body is right.** -/
theorem faithful_iff (h : ReadsJson fromStr) (b : Body) :
  (decoder fromStr round).Faithful Delta.spoken StoppedRound.text b ↔ Right fromStr b
  := by
  rw [Decoder.faithful_iff (decoder_refuses h)]
  have htext (haccepted : ∀ l ∈ b.lines, ¬ Refused fromStr l) {r : StoppedRound}
      (hr : ((decoder fromStr round).outcome b).result = .ok r) :
      r.text = ((decoder fromStr round).lined b).emitted.flatMap Delta.spoken
        ++ (deltasOf fromStr b.last).flatMap Delta.spoken := by
    rw [Decoder.outcome_result] at hr
    obtain ⟨d, hd, hassemble⟩ := Result.bind_ok.mp hr
    have hfollows := follows hd
    rw [text_of_assemble hassemble, hfollows.text, hfollows.emitted, List.flatMap_append,
      List.flatMap_append, List.flatMap_singleton, Decoder.lined, emitted_of_accepted h haccepted]
  constructor
  · rintro ⟨hquiet, hempty, hspoken⟩
    constructor
    · intro before l after hlines hl hbefore
      have hnil := hquiet before l after hlines hl hbefore
      rw [emitted_of_accepted h hbefore] at hnil
      exact List.flatMap_eq_nil_iff.mp hnil
    · intro haccepted hmem
      obtain ⟨hemitted, hnone⟩ := hempty haccepted ⟨[], hmem, rfl⟩
      rw [Decoder.lined, emitted_of_accepted h haccepted] at hemitted
      exact ⟨List.flatMap_eq_nil_iff.mp hemitted, (outcome_eq_none h haccepted).mp hnone⟩
    · intro haccepted hends
      obtain ⟨r, hr⟩ := Option.ne_none_iff_exists'.mp
        (mt (@outcome_eq_none _ round h _ haccepted).mp hends)
      rw [Result.toOption_eq_some] at hr
      have heq := (hspoken haccepted r hr).trans (htext haccepted hr)
      exact List.self_eq_append_right.mp heq
  · rintro ⟨hrefused, hempty, hlast⟩
    refine ⟨?_, ?_, ?_⟩
    · intro before l after hlines hl hbefore
      rw [emitted_of_accepted h hbefore]
      exact List.flatMap_eq_nil_iff.mpr (hrefused before l after hlines hl hbefore)
    · rintro haccepted ⟨l, hmem, rfl⟩
      obtain ⟨hdeltas, hends⟩ := hempty haccepted hmem
      rw [Decoder.lined, emitted_of_accepted h haccepted]
      exact ⟨List.flatMap_eq_nil_iff.mpr hdeltas, (outcome_eq_none h haccepted).mpr hends⟩
    · intro haccepted r hr
      have hends : ¬ EndsBadly fromStr b := by
        rw [← @outcome_eq_none _ round h _ haccepted, hr]
        exact Option.some_ne_none r
      rw [htext haccepted hr, hlast haccepted hends, List.append_nil]

end Agent.Ollama
