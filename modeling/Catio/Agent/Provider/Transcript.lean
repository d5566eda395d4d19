import Catio.Agent.Provider

/-!
# What a request tells about tools

The tool calls of each message of the assistant, and the results behind it, which belong to calls by
id or, for Ollama, by name.  A request is well formed if each result belongs to a call of the
message before it, and each call has one result.  The encoding is read back in
`wellFormed_encodeRequest`.
-/

namespace Agent

open Text

/-! ### Reading -/

/-- What a message on the wire tells about tools. -/
inductive Entry where
  | assistant (calls : List Text)
  | result (call : Text)
  | other
  deriving DecidableEq

def textField (name : Text) (value : Json.Value) : Option Text :=
  (value.get name).bind Json.Value.asStr

def fieldIs (name text : Text) (value : Json.Value) : Bool :=
  textField name value = some text

def itemsField (name : Text) (value : Json.Value) : List Json.Value :=
  ((value.get name).bind Json.Value.asArray).getD []

def OpenAi.readMessage (message : Json.Value) : List Entry :=
  if fieldIs "role" "assistant" message then
    [.assistant ((itemsField "tool_calls" message).filterMap (textField "id"))]
  else if fieldIs "role" "tool" message then
    ((textField "tool_call_id" message).map .result).toList
  else [.other]

def Ollama.readMessage (message : Json.Value) : List Entry :=
  if fieldIs "role" "assistant" message then
    [.assistant ((itemsField "tool_calls" message).filterMap fun call =>
      (call.get "function").bind (textField "name"))]
  else if fieldIs "role" "tool" message then
    ((textField "tool_name" message).map .result).toList
  else [.other]

def Anthropic.readMessage (message : Json.Value) : List Entry :=
  if fieldIs "role" "assistant" message then
    [.assistant ((itemsField "content" message).filterMap fun block =>
      if fieldIs "type" "tool_use" block then textField "id" block else none)]
  else
    .other :: (itemsField "content" message).filterMap fun block =>
      if fieldIs "type" "tool_result" block then
        (textField "tool_use_id" block).map .result
      else none

def readMessage : ProviderProtocol → Json.Value → List Entry
  | .openai => OpenAi.readMessage
  | .anthropic => Anthropic.readMessage
  | .ollama => Ollama.readMessage

def readRequest (protocol : ProviderProtocol) (body : Json.Value) : List Entry :=
  (itemsField "messages" body).flatMap (readMessage protocol)

/-! ### Well-formed requests -/

def Entry.isAssistant : Entry → Bool
  | .assistant _ => true
  | _ => false

def resultsOf (entries : List Entry) : List Text :=
  entries.filterMap fun
    | .result call => some call
    | _ => none

/-- The entries up to the next message of the assistant. -/
def upToAssistant (entries : List Entry) : List Entry :=
  entries.takeWhile fun e => !e.isAssistant

/-- Each result belongs to a call, and each call has exactly one result.  By name, calls of one
tool are not told apart. -/
def Paired (protocol : ProviderProtocol) (calls results : List Text) : Prop :=
  results.Perm calls ∧ (protocol ≠ .ollama → calls.Nodup)

/-- There is no result before the first message of the assistant, and the results behind each one
are those of its calls. -/
structure WellFormed (protocol : ProviderProtocol) (entries : List Entry) : Prop where
  first : resultsOf (upToAssistant entries) = []
  paired : ∀ front calls rest, entries = front ++ .assistant calls :: rest →
    Paired protocol calls (resultsOf (upToAssistant rest))

section

variable {protocol : ProviderProtocol} {entries entries' rest : List Entry} {calls : List Text}

theorem upToAssistant_append (entries : List Entry) (calls : List Text) (rest : List Entry) :
  upToAssistant (entries ++ .assistant calls :: rest) = upToAssistant entries
  := by
  induction entries with
  | nil => rfl
  | cons e entries ih =>
    cases e with
    | assistant => rfl
    | result call => exact congrArg (.result call :: ·) ih
    | other => exact congrArg (.other :: ·) ih

theorem upToAssistant_of_none (hnone : ∀ e ∈ rest, e.isAssistant = false) :
  upToAssistant rest = rest
  := by
  unfold upToAssistant
  rw [List.takeWhile_eq_self_iff]
  intro e he
  rw [hnone e he]
  rfl

theorem WellFormed.single (hnone : ∀ e ∈ rest, e.isAssistant = false)
    (hpaired : Paired protocol calls (resultsOf rest)) :
  WellFormed protocol (.assistant calls :: rest)
  where
  first := rfl
  paired front calls' rest' heq := by
    cases front with
    | nil =>
      obtain ⟨hcalls, rfl⟩ := List.cons.inj heq
      cases hcalls
      rw [upToAssistant_of_none hnone]
      exact hpaired
    | cons e front =>
      obtain ⟨-, rfl⟩ := List.cons.inj heq
      have hassistant := hnone (.assistant calls') (by simp)
      cases hassistant

theorem WellFormed.append (hentries : WellFormed protocol entries)
    (hmore : WellFormed protocol (.assistant calls :: rest)) :
  WellFormed protocol (entries ++ .assistant calls :: rest)
  where
  first := by
    rw [upToAssistant_append]
    exact hentries.first
  paired front calls' rest' heq := by
    rcases List.append_eq_append_iff.mp heq with ⟨mid, rfl, hmid⟩ | ⟨mid, rfl, hmid⟩
    · exact hmore.paired mid calls' rest' hmid
    · cases mid with
      | nil => exact hmore.paired [] calls' rest' hmid.symm
      | cons e mid =>
        obtain ⟨rfl, -⟩ := List.cons.inj hmid
        have hrest : rest' = mid ++ .assistant calls :: rest := (List.cons.inj hmid).2
        rw [hrest, upToAssistant_append]
        exact hentries.paired front calls' mid rfl

theorem WellFormed.other (hentries : WellFormed protocol entries) :
  WellFormed protocol (.other :: entries)
  where
  first := hentries.first
  paired front calls rest heq := by
    cases front with
    | nil => cases heq
    | cons e front => exact hentries.paired front calls rest (List.cons.inj heq).2

end

/-! ### Reading what is encoded -/

/-- What stands for a tool use on the wire. -/
def callOf (protocol : ProviderProtocol) : ContentBlock → Option Text
  | .toolUse id name _ => some (if protocol = .ollama then name else id)
  | _ => none

/-- To which tool use a result is attributed on the wire. -/
def resultOf (protocol : ProviderProtocol) : ContentBlock → Option Text
  | .toolResult toolUseId _ _ => some (if protocol = .ollama then "terminal_exec" else toolUseId)
  | _ => none

def encodeMessage : ProviderProtocol → AgentMessage → List Json.Value
  | .openai => OpenAi.encodeMessage
  | .anthropic => Anthropic.encodeMessage
  | .ollama => Ollama.encodeMessage

def readEncoded (protocol : ProviderProtocol) (messages : List AgentMessage) : List Entry :=
  (messages.flatMap (encodeMessage protocol)).flatMap (readMessage protocol)

/-- What a message of the assistant tells: its calls, and behind it the results. -/
structure Tells (protocol : ProviderProtocol) (message : AgentMessage) (rest : List Entry) :
    Prop where
  read : readEncoded protocol [message]
    = .assistant (message.content.filterMap (callOf protocol)) :: rest
  quiet : ∀ e ∈ rest, e.isAssistant = false
  results : resultsOf rest = message.content.filterMap (resultOf protocol)

section

variable {message : AgentMessage} {blocks : List ContentBlock}

theorem flatMap_results {encode : ContentBlock → Option Json.Value} {read : Json.Value → List Entry}
    {result : ContentBlock → Option Text}
    (hread : ∀ block, (encode block).toList.flatMap read = (result block).toList.map .result) :
  (blocks.filterMap encode).flatMap read = (blocks.filterMap result).map .result
  := by
  induction blocks with
  | nil => rfl
  | cons block blocks ih =>
    have hblock := hread block
    cases hencode : encode block with
    | none =>
      rw [hencode] at hblock
      cases hresult : result block with
      | none => simpa [hencode, hresult] using ih
      | some r =>
        rw [hresult] at hblock
        cases hblock
    | some value =>
      rw [hencode] at hblock
      cases hresult : result block with
      | none =>
        rw [hresult] at hblock
        simpa [hencode, hresult, ih] using hblock
      | some r =>
        rw [hresult] at hblock
        simp only [Option.toList_some, List.flatMap_singleton, List.map_cons,
          List.map_nil] at hblock
        simp [hencode, hresult, ih, hblock]

theorem Tells.of_results {protocol : ProviderProtocol}
    (hread : readEncoded protocol [message]
      = .assistant (message.content.filterMap (callOf protocol))
        :: (message.content.filterMap (resultOf protocol)).map .result) :
  ∃ rest, Tells protocol message rest
  := by
  refine ⟨_, hread, ?_, ?_⟩
  · intro e he
    obtain ⟨call, -, rfl⟩ := List.mem_map.mp he
    rfl
  · rw [resultsOf, List.filterMap_map]
    exact List.filterMap_some

theorem itemsField_skip {name other : Text} (value : Json.Value) (fields : List (Text × Json.Value))
    (hne : name ≠ other) :
  itemsField name (.object ((other, value) :: fields)) = itemsField name (.object fields)
  := by
  unfold itemsField Json.Value.get
  simp only [Json.Value.asObject, Option.bind_some, List.lookup_cons, beq_false_of_ne hne]

theorem itemsField_fieldsIf (fields : List (Text × Json.Value)) (calls : List Json.Value)
    (hother : ∀ f ∈ fields, "tool_calls".toList ≠ f.1) :
  itemsField "tool_calls" (.object (fields
    ++ fieldsIf (!calls.isEmpty) [("tool_calls", .array calls)])) = calls
  := by
  induction fields with
  | nil =>
    cases calls with
    | nil => rfl
    | cons call calls => rfl
  | cons f fields ih =>
    rw [List.forall_mem_cons] at hother
    exact (itemsField_skip f.2 _ hother.1).trans (ih hother.2)

theorem fieldsIf_names {c : Bool} {fields : List (Text × Json.Value)} {name : Text}
    (hother : ∀ f ∈ fields, name ≠ f.1) :
  ∀ f ∈ fieldsIf c fields, name ≠ f.1
  := by
  unfold fieldsIf
  split
  · exact hother
  · nofun

theorem fieldIs_head (name text : Text) (fields : List (Text × Json.Value)) :
  fieldIs name text (.object ((name, .string text) :: fields))
  := by
  unfold fieldIs textField Json.Value.get
  simp only [Json.Value.asObject, Option.bind_some, List.lookup_cons_self, Json.Value.asStr,
    decide_true]

theorem fieldIs_other (name : Text) {text other : Text} (fields : List (Text × Json.Value))
    (hne : other ≠ text) :
  fieldIs name text (.object ((name, .string other) :: fields)) = false
  := by
  unfold fieldIs textField Json.Value.get
  simp only [Json.Value.asObject, Option.bind_some, List.lookup_cons_self, Json.Value.asStr,
    Option.some.injEq, hne, decide_false]

theorem OpenAi.readMessage_assistant {value : Json.Value}
    (hrole : fieldIs "role" "assistant" value) :
  OpenAi.readMessage value
    = [.assistant ((itemsField "tool_calls" value).filterMap (textField "id"))]
  := if_pos hrole

theorem Ollama.readMessage_assistant {value : Json.Value}
    (hrole : fieldIs "role" "assistant" value) :
  Ollama.readMessage value = [.assistant ((itemsField "tool_calls" value).filterMap fun call =>
    (call.get "function").bind (textField "name"))]
  := if_pos hrole

theorem Anthropic.readMessage_assistant {value : Json.Value}
    (hrole : fieldIs "role" "assistant" value) :
  Anthropic.readMessage value = [.assistant ((itemsField "content" value).filterMap fun block =>
    if fieldIs "type" "tool_use" block then textField "id" block else none)]
  := if_pos hrole

theorem OpenAi.tells (hrole : message.role = .assistant) :
  ∃ rest, Tells .openai message rest
  := by
  apply Tells.of_results
  have hcalls : itemsField "tool_calls" (objectWith [("role", .string "assistant")]
      (fieldsIf (!(textParts message).isEmpty) [("content", .string (textParts message).flatten)]
        ++ fieldsIf (!(message.content.filterMap encodeToolCall).isEmpty)
          [("tool_calls", .array (message.content.filterMap encodeToolCall))]))
      = message.content.filterMap encodeToolCall := by
    unfold objectWith
    rw [← List.append_assoc]
    apply itemsField_fieldsIf
    intro f hf
    rw [List.mem_append, List.mem_singleton] at hf
    obtain rfl | hf := hf
    · exact (by decide : "tool_calls".toList ≠ "role".toList)
    · refine fieldsIf_names ?_ f hf
      intro f' hf'
      rw [List.mem_singleton] at hf'
      rw [hf']
      exact (by decide : "tool_calls".toList ≠ "content".toList)
  have hids : (message.content.filterMap encodeToolCall).filterMap (textField "id")
      = message.content.filterMap (callOf .openai) := by
    rw [List.filterMap_filterMap]
    congr 1
    funext block
    cases block with
    | _ => rfl
  have hresults : (message.content.filterMap encodeToolResult).flatMap OpenAi.readMessage
      = (message.content.filterMap (resultOf .openai)).map .result := by
    apply flatMap_results
    intro block
    cases block with
    | _ => rfl
  unfold readEncoded
  rw [List.flatMap_singleton]
  change (OpenAi.encodeMessage message).flatMap OpenAi.readMessage = _
  unfold OpenAi.encodeMessage
  rw [hrole]
  dsimp only
  rw [List.flatMap_cons, hresults, OpenAi.readMessage_assistant, hcalls, hids]
  · rfl
  · apply fieldIs_head

theorem Ollama.tells (hrole : message.role = .assistant) :
  ∃ rest, Tells .ollama message rest
  := by
  apply Tells.of_results
  have hcalls : itemsField "tool_calls"
      (objectWith [("role", .string "assistant"), ("content", .string (textParts message).flatten)]
        (fieldsIf (!(thinkingParts message).flatten.isEmpty)
            [("thinking", .string (thinkingParts message).flatten)]
          ++ fieldsIf (!(message.content.filterMap encodeToolCall).isEmpty)
            [("tool_calls", .array (message.content.filterMap encodeToolCall))]))
      = message.content.filterMap encodeToolCall := by
    unfold objectWith
    rw [← List.append_assoc]
    apply itemsField_fieldsIf
    intro f hf
    simp only [List.mem_append, List.mem_cons, List.not_mem_nil, or_false] at hf
    obtain (rfl | rfl) | hf := hf
    · exact (by decide : "tool_calls".toList ≠ "role".toList)
    · exact (by decide : "tool_calls".toList ≠ "content".toList)
    · refine fieldsIf_names ?_ f hf
      intro f' hf'
      rw [List.mem_singleton] at hf'
      rw [hf']
      exact (by decide : "tool_calls".toList ≠ "thinking".toList)
  have hnames : ((message.content.filterMap encodeToolCall).filterMap fun call =>
      (call.get "function").bind (textField "name"))
      = message.content.filterMap (callOf .ollama) := by
    rw [List.filterMap_filterMap]
    congr 1
    funext block
    cases block with
    | _ => rfl
  have hresults : (message.content.filterMap encodeToolResult).flatMap Ollama.readMessage
      = (message.content.filterMap (resultOf .ollama)).map .result := by
    apply flatMap_results
    intro block
    cases block with
    | _ => rfl
  unfold readEncoded
  rw [List.flatMap_singleton]
  change (Ollama.encodeMessage message).flatMap Ollama.readMessage = _
  unfold Ollama.encodeMessage
  rw [hrole]
  dsimp only
  rw [List.flatMap_cons, hresults, Ollama.readMessage_assistant, hcalls, hnames]
  · rfl
  · apply fieldIs_head

theorem Anthropic.tells (hrole : message.role = .assistant) :
  ∃ rest, Tells .anthropic message rest
  := by
  have hids : ((message.content.filterMap encodeBlock).filterMap fun block =>
      if fieldIs "type" "tool_use" block then textField "id" block else none)
      = message.content.filterMap (callOf .anthropic) := by
    rw [List.filterMap_filterMap]
    congr 1
    funext block
    cases block with
    | text text =>
      rw [encodeBlock, Option.bind_some, fieldIs_other _ _ (by decide)]
      rfl
    | thinking thinking =>
      rw [encodeBlock, Option.bind_some, fieldIs_other _ _ (by decide)]
      rfl
    | toolUse id name input =>
      rw [encodeBlock, Option.bind_some, fieldIs_head]
      rfl
    | toolResult toolUseId content status => rfl
  have hresults : ((message.content.filterMap encodeToolResult).filterMap fun block =>
      if fieldIs "type" "tool_result" block then
        (textField "tool_use_id" block).map .result
      else none)
      = (message.content.filterMap (resultOf .anthropic)).map Entry.result := by
    rw [List.filterMap_filterMap, List.map_filterMap]
    congr 1
    funext block
    cases block with
    | toolResult toolUseId content status =>
      rw [encodeToolResult, Option.bind_some, fieldIs_head]
      rfl
    | _ => rfl
  have hhead : Anthropic.readMessage (.object [("role", .string "assistant"),
      ("content", .array (message.content.filterMap encodeBlock))])
      = [.assistant (message.content.filterMap (callOf .anthropic))] := by
    rw [Anthropic.readMessage_assistant (fieldIs_head _ _ _), ← hids]
    rfl
  have hnone : ∀ call ∈ (message.content.filterMap (resultOf .anthropic)).map Entry.result,
      call.isAssistant = false := by
    intro call hcall
    obtain ⟨id, -, rfl⟩ := List.mem_map.mp hcall
    rfl
  have hencode : Anthropic.encodeMessage message = .object [("role", .string "assistant"),
      ("content", .array (message.content.filterMap encodeBlock))]
        :: if (message.content.filterMap encodeToolResult).isEmpty then []
          else [.object [("role", .string "user"),
            ("content", .array (message.content.filterMap encodeToolResult))]] := by
    unfold Anthropic.encodeMessage
    rw [hrole]
    rfl
  have hread : readEncoded .anthropic [message]
      = (Anthropic.encodeMessage message).flatMap Anthropic.readMessage := by
    unfold readEncoded
    rw [List.flatMap_singleton]
    rfl
  rw [hencode, List.flatMap_cons, hhead] at hread
  split at hread
  · rename_i hempty
    rw [List.isEmpty_iff] at hempty
    rw [hempty] at hresults
    refine ⟨[], hread, nofun, ?_⟩
    exact (List.map_eq_nil_iff.mp hresults.symm).symm
  · refine ⟨.other :: (message.content.filterMap (resultOf .anthropic)).map .result, ?_, ?_, ?_⟩
    · rw [hread, ← hresults, List.flatMap_singleton]
      rfl
    · rw [List.forall_mem_cons]
      exact ⟨rfl, hnone⟩
    · change resultsOf ((message.content.filterMap (resultOf .anthropic)).map .result) = _
      rw [resultsOf, List.filterMap_map]
      exact List.filterMap_some

theorem tells (protocol : ProviderProtocol) (hrole : message.role = .assistant) :
  ∃ rest, Tells protocol message rest
  := by
  cases protocol with
  | openai => exact OpenAi.tells hrole
  | anthropic => exact Anthropic.tells hrole
  | ollama => exact Ollama.tells hrole

theorem readRequest_encodeRequest (protocol : ProviderProtocol) (request : ProviderRequest)
    (model : Text) :
  readRequest protocol (encodeRequest protocol request model)
    = (if protocol = .anthropic then [] else [.other])
      ++ readEncoded protocol request.messages
  := by
  cases protocol with
  | openai => rfl
  | anthropic => rfl
  | ollama => rfl

theorem readEncoded_append (protocol : ProviderProtocol) (messages more : List AgentMessage) :
  readEncoded protocol (messages ++ more)
    = readEncoded protocol messages ++ readEncoded protocol more
  := by
  unfold readEncoded
  rw [List.flatMap_append, List.flatMap_append]

theorem wellFormed_encodeRequest {protocol : ProviderProtocol} {request : ProviderRequest}
    {conversation more : List AgentMessage} (model : Text)
    (hmessages : request.messages = conversation ++ more)
    (hconversation : WellFormed protocol (readEncoded protocol conversation))
    (hmore : ∀ message ∈ more, message.role = .assistant
      ∧ Paired protocol (message.content.filterMap (callOf protocol))
        (message.content.filterMap (resultOf protocol))) :
  WellFormed protocol (readRequest protocol (encodeRequest protocol request model))
  := by
  have hall : WellFormed protocol (readEncoded protocol (conversation ++ more)) := by
    induction more using List.reverseRecOn generalizing request with
    | nil => simpa using hconversation
    | append_singleton more message ih =>
      have hbefore := @ih { request with messages := conversation ++ more } rfl
        fun m hm => hmore m (List.mem_append_left _ hm)
      obtain ⟨hrole, hpaired⟩ := hmore message (by simp)
      obtain ⟨rest, htells⟩ := tells protocol hrole
      rw [← List.append_assoc, readEncoded_append, htells.read]
      apply hbefore.append
      apply WellFormed.single htells.quiet
      rw [htells.results]
      exact hpaired
  rw [readRequest_encodeRequest, hmessages]
  split
  · exact hall
  · exact hall.other

end

end Agent
