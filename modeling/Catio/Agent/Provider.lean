import Catio.Agent.Types
import Catio.Lib.Replace
import Catio.Lib.Utf8

/-!
# Providers

The model of `agent/provider/mod.rs`: the requests to providers, their answers and errors, and
the redaction of credentials in what is reported about errors.
-/

namespace Agent

open Text Replace

/-! ### Requests and answers -/

/-- A request for one round. -/
structure ProviderRequest where
  systemPrompt : Text
  messages : List AgentMessage
  tools : List ToolSpec
  targetRef : Text
  executionMode : ExecutionMode
  singleLineCommands : Bool
  round : ℕ

structure TokenUsage where
  inputTokens : ℕ
  outputTokens : ℕ
  deriving DecidableEq

structure ProviderRound where
  message : AgentMessage
  usage : Option TokenUsage

inductive ProviderError where
  | auth
  | rateLimit
  | http (m : Text)
  | network (m : Text)
  | protocol (m : Text)
  | unexpectedEof
  | toolsUnsupported
  deriving DecidableEq

/-! ### Redaction -/

/-- What stands for a credential that has been removed. -/
def REDACTED : Text :=
  "[REDACTED]"

/-- A character without its case, as patterns that ignore case see it. -/
def foldCase (c : Char) : Char :=
  if c = '\u017f' then 's' else if c = '\u212a' then 'k' else c.toLower

/-- A character of a key: `[a-z0-9_-]`. -/
def isKeyChar (c : Char) : Bool :=
  let c := foldCase c
  ('a' ≤ c && c ≤ 'z') || ('0' ≤ c && c ≤ '9') || c = '_' || c = '-'

/-- A character of a bearer token: `[a-z0-9._-]`. -/
def isBearerChar (c : Char) : Bool :=
  isKeyChar c || c = '.'

/-- The length of a match of a pattern: the text, and then at least eight characters of a
class. -/
def shapeLen (start : Text) (inClass : Char → Bool) (t : Text) : ℕ :=
  let behind := (t.drop start.length).takeWhile inClass
  if start.isPrefixOf (t.map foldCase) ∧ 8 ≤ behind.length then start.length + behind.length
  else 0

/-- The length of the match of `(?i)(sk-[a-z0-9_-]{8,}|bearer [a-z0-9._-]{8,})` at the start of
a text. -/
def credentialLen (t : Text) : ℕ :=
  match shapeLen "sk-" isKeyChar t with
  | 0 => shapeLen "bearer " isBearerChar t
  | n => n

def redactCredentials (text : Text) : Text :=
  replaceAll credentialLen REDACTED text

/-- The length of the match of a text at the start of another. -/
def exactLen (secret t : Text) : ℕ :=
  if secret.isPrefixOf t then secret.length else 0

def redactDiagnostics (text : Text) (credential : ApiCredential) : Text :=
  let out := redactCredentials text
  let secret := credential.expose
  if secret ≠ [] then replaceAll (exactLen secret) REDACTED out else out

/-! ### Errors of responses -/

def ERROR_BODY_LIMIT : ℕ :=
  4096

/-- The words stand somewhere in the text. -/
def mentions (words text : Text) : Bool :=
  text.tails.any words.isPrefixOf

def looksLikeToolsUnsupported (body : Text) : Bool :=
  let lower := toAsciiLowercase body
  mentions "tool" lower && (mentions "not support" lower || mentions "unsupported" lower
    || mentions "not available" lower || mentions "not enabled" lower)

def classifyErrorResponse (status : ℕ) (body : Bytes) (credential : ApiCredential) :
    ProviderError :=
  if status = 401 ∨ status = 403 then .auth
  else if status = 429 then .rateLimit
  else
    let limited := Utf8.fromUtf8Lossy (body.take ERROR_BODY_LIMIT)
    if status = 400 ∧ looksLikeToolsUnsupported limited then .toolsUnsupported
    else .http ("status " ++ ofNat status ++ ": " ++ redactDiagnostics limited credential)

def mapProviderError (err : ProviderError) (credential : ApiCredential) : AgentError :=
  match err with
  | .auth => .providerAuth
  | .rateLimit => .providerRateLimit
  | .http m => .providerHttp (redactDiagnostics m credential)
  | .network m => .providerHttp (redactDiagnostics m credential)
  | .protocol m => .providerProtocol (redactDiagnostics m credential)
  | .unexpectedEof => .providerUnexpectedEof
  | .toolsUnsupported => .toolsUnsupported

end Agent

/-!
## Requests on the wire

The model of the encoders of requests in `agent/provider/openai.rs`, `ollama.rs` and
`anthropic.rs`.  The results of tools stand in the message that has the tool uses, and each
protocol takes them out in its own way.
-/

namespace Agent

open Text

def textParts (message : AgentMessage) : List Text :=
  message.content.filterMap fun
    | .text text => some text
    | _ => none

/-- The fields of an object that are there under a condition only. -/
def fieldsIf (c : Bool) (fields : List (Text × Json.Value)) : List (Text × Json.Value) :=
  if c then fields else []

/-- An object of these fields, and of further ones. -/
def objectWith (fields more : List (Text × Json.Value)) : Json.Value :=
  .object (fields ++ more)

def encodeFunction (tool : ToolSpec) : Json.Value :=
  .object [("type", .string "function"), ("function", .object [("name", .string tool.name),
    ("description", .string tool.description), ("parameters", tool.inputSchema)])]

/-- The system prompt as the first message. -/
def systemMessage (request : ProviderRequest) : Json.Value :=
  .object [("role", .string "system"), ("content", .string request.systemPrompt)]

namespace OpenAi

def encodeToolCall : ContentBlock → Option Json.Value
  | .toolUse id name input => some (.object [("id", .string id), ("type", .string "function"),
      ("function", .object [("name", .string name), ("arguments", .string input.toText)])])
  | _ => none

def encodeToolResult : ContentBlock → Option Json.Value
  | .toolResult toolUseId content _ => some (.object [("role", .string "tool"),
      ("tool_call_id", .string toolUseId), ("content", .string content)])
  | _ => none

def encodeMessage (message : AgentMessage) : List Json.Value :=
  let text := textParts message
  let toolCalls := message.content.filterMap encodeToolCall
  let toolResults := message.content.filterMap encodeToolResult
  match message.role with
  | .user =>
      .object [("role", .string "user"), ("content", .string text.flatten)] :: toolResults
  | .assistant =>
      objectWith [("role", .string "assistant")]
        (fieldsIf (!text.isEmpty) [("content", .string text.flatten)]
          ++ fieldsIf (!toolCalls.isEmpty) [("tool_calls", .array toolCalls)]) :: toolResults

/-- Results of tools become messages of their own. -/
def encodeMessages (messages : List AgentMessage) : List Json.Value :=
  messages.flatMap encodeMessage

def encodeChatRequest (request : ProviderRequest) (model : Text) : Json.Value :=
  objectWith [("model", .string model),
      ("messages", .array (systemMessage request :: encodeMessages request.messages)),
      ("stream", .bool true), ("stream_options", .object [("include_usage", .bool true)])]
    (fieldsIf (!request.tools.isEmpty) [("tools", .array (request.tools.map encodeFunction))])

end OpenAi

namespace Ollama

def thinkingParts (message : AgentMessage) : List Text :=
  message.content.filterMap fun
    | .thinking thinking => some thinking
    | _ => none

def encodeToolCall : ContentBlock → Option Json.Value
  | .toolUse _ name input => some (.object [("function",
      .object [("name", .string name), ("arguments", input)])])
  | _ => none

/-- The name of the tool on the wire is fixed. -/
def encodeToolResult : ContentBlock → Option Json.Value
  | .toolResult _ content _ => some (.object [("role", .string "tool"),
      ("tool_name", .string "terminal_exec"), ("content", .string content)])
  | _ => none

def encodeMessage (message : AgentMessage) : List Json.Value :=
  let text := (textParts message).flatten
  let thinking := (thinkingParts message).flatten
  let toolCalls := message.content.filterMap encodeToolCall
  let toolResults := message.content.filterMap encodeToolResult
  match message.role with
  | .user => .object [("role", .string "user"), ("content", .string text)] :: toolResults
  | .assistant =>
      objectWith [("role", .string "assistant"), ("content", .string text)]
        (fieldsIf (!thinking.isEmpty) [("thinking", .string thinking)]
          ++ fieldsIf (!toolCalls.isEmpty) [("tool_calls", .array toolCalls)]) :: toolResults

def encodeMessages (messages : List AgentMessage) : List Json.Value :=
  messages.flatMap encodeMessage

def encodeChatRequest (request : ProviderRequest) (model : Text) : Json.Value :=
  objectWith [("model", .string model),
      ("messages", .array (systemMessage request :: encodeMessages request.messages)),
      ("stream", .bool true)]
    (fieldsIf (!request.tools.isEmpty) [("tools", .array (request.tools.map encodeFunction))])

end Ollama

namespace Anthropic

/-- The block of a message, unless it is the result of a tool. -/
def encodeBlock : ContentBlock → Option Json.Value
  | .text text => some (.object [("type", .string "text"), ("text", .string text)])
  | .thinking thinking =>
      some (.object [("type", .string "thinking"), ("thinking", .string thinking)])
  | .toolUse id name input => some (.object [("type", .string "tool_use"), ("id", .string id),
      ("name", .string name), ("input", input)])
  | .toolResult _ _ _ => none

def encodeToolResult : ContentBlock → Option Json.Value
  | .toolResult toolUseId content status => some (.object [("type", .string "tool_result"),
      ("tool_use_id", .string toolUseId), ("content", .string content),
      ("is_error", .bool (status ≠ .succeeded))])
  | _ => none

/-- The role of a message on the wire. -/
def roleText : AgentRole → Text
  | .user => "user"
  | .assistant => "assistant"

/-- Results of tools become one message of the user. -/
def encodeMessage (message : AgentMessage) : List Json.Value :=
  let toolResults := message.content.filterMap encodeToolResult
  .object [("role", .string (roleText message.role)),
      ("content", .array (message.content.filterMap encodeBlock))]
    :: if toolResults.isEmpty then []
      else [.object [("role", .string "user"), ("content", .array toolResults)]]

def encodeMessages (messages : List AgentMessage) : List Json.Value :=
  messages.flatMap encodeMessage

def encodeTool (tool : ToolSpec) : Json.Value :=
  .object [("name", .string tool.name), ("description", .string tool.description),
    ("input_schema", tool.inputSchema)]

/-- The number of tokens that an answer may have. -/
def maxTokens : Json.Number :=
  ⟨false, [4, 0, 9, 6], nofun, [], none⟩

def encodeMessagesRequest (request : ProviderRequest) (model : Text) : Json.Value :=
  objectWith [("model", .string model), ("system", .string request.systemPrompt),
      ("max_tokens", .number maxTokens),
      ("messages", .array (encodeMessages request.messages)), ("stream", .bool true)]
    (fieldsIf (!request.tools.isEmpty) [("tools", .array (request.tools.map encodeTool))])

end Anthropic

def encodeRequest (protocol : ProviderProtocol) (request : ProviderRequest) (model : Text) :
    Json.Value :=
  match protocol with
  | .openai => OpenAi.encodeChatRequest request model
  | .anthropic => Anthropic.encodeMessagesRequest request model
  | .ollama => Ollama.encodeChatRequest request model

end Agent
