import Catio.Agent.Bridge
import Catio.Automation.TaskRouter
import Catio.Lib.Json.Grammar
import Catio.Lib.LineStream

/-!
# Responses on the wire

What the decoders of streams in `agent/provider/openai.rs`, `anthropic.rs` and `ollama.rs` have in
common: rounds and their deltas, the fields of events, and what a carriage return at the end of a
line means for them.  The reader of JSON is a parameter.
-/

namespace Agent

open Json LineStream Text Utf8

/-- Why a round has ended. -/
inductive ProviderStop where
  | stop
  | toolUse
  | maxTokens
  | contentFilter
  | length
  deriving DecidableEq

/-- A completed round, and why it has ended. -/
structure StoppedRound extends ProviderRound where
  stop : ProviderStop

def Delta.spoken : Delta → Text
  | .text t => t
  | .thinking _ => []

def StoppedRound.text (r : StoppedRound) : Text :=
  (textParts r.message).flatten

theorem textParts_append (role : AgentRole) (xs ys : List ContentBlock) :
  textParts ⟨role, xs ++ ys⟩ = textParts ⟨role, xs⟩ ++ textParts ⟨role, ys⟩
  := List.filterMap_append

theorem textParts_eq_nil {role : AgentRole} {blocks : List ContentBlock}
    (h : ∀ block ∈ blocks, ∀ t, block ≠ .text t) :
  textParts ⟨role, blocks⟩ = []
  := by
  apply List.filterMap_eq_nil_iff.mpr
  intro block hblock
  cases block with
  | text t => exact absurd rfl (h _ hblock t)
  | _ => rfl

/-- A carriage return behind a text is white space, and the end of a stream is not JSON. -/
structure ReadsJson (fromStr : Reader) : Prop where
  trailing : ∀ t, (fromStr (t ++ ['\r'])).toOption = (fromStr t).toOption
  notDone : ∃ e, fromStr "[DONE]" = .error e
  notEmpty : ∃ e, fromStr "" = .error e

/-! ### Fields of events -/

/-- The string at a path of two fields. -/
def strAt (v : Value) (outer inner : Text) : Option Text :=
  ((v.get outer).bind fun v => v.get inner).bind Value.asStr

/-- A number of 64 bits. -/
def natOf (v : Option Value) : Option ℕ :=
  (v.bind Automation.asU64).map UInt64.toNat

/-- The index of an item, or else zero. -/
def indexOf (v : Value) : ℕ :=
  (natOf (v.get "index")).getD 0

/-! ### Lines -/

def lineText (line : Bytes) : Except ProviderError Text :=
  match strFromUtf8 line with
  | some line => .ok line
  | none => .error (.protocol "stream is not valid UTF-8")

def sseEvent (fromStr : Reader) (data : Text) : Except ProviderError Value :=
  (fromStr data).mapError fun e => .protocol ("malformed SSE event: " ++ e)

theorem lineText_return (line : Bytes) :
  (lineText (line ++ [CR])).toOption = (lineText line).toOption.map fun t => t ++ ['\r']
  := by
  have h := strFromUtf8_concat (c := '\r') (by decide) line
  have hreturn : UInt8.ofNat '\r'.toNat = CR := rfl
  rw [hreturn] at h
  rw [lineText, lineText, h]
  cases strFromUtf8 line with
  | none => rfl
  | some t => rfl

theorem sseEvent_return {fromStr : Reader} (h : ReadsJson fromStr) (data : Text) :
  (sseEvent fromStr (data ++ ['\r'])).toOption = (sseEvent fromStr data).toOption
  := by
  rw [sseEvent, sseEvent, Result.toOption_mapError, Result.toOption_mapError, h.trailing]

end Agent
