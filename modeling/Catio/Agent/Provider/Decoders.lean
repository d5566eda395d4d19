import Catio.Agent.Provider.Anthropic
import Catio.Agent.Provider.Ollama
import Catio.Agent.Provider.OpenAi

/-!
# Decoders of responses

The three decoders together: to which bodies each of them is faithful, whatever the chunks and the
ends of lines are.  A stream of OpenAI whose lines end with carriage returns and line feeds is
never decoded.
-/

namespace Agent

open Json LineStream Text Utf8

/-- **Each decoder is faithful to exactly those bodies that are right for it.** -/
theorem decoders_faithful_iff {fromStr : Reader} (h : ReadsJson fromStr) (round : ℕ) (b : Body) :
  ((OpenAi.decoder fromStr).Faithful id StoppedRound.text b ↔ OpenAi.Right fromStr b)
    ∧ ((Anthropic.decoder fromStr).Faithful Delta.spoken StoppedRound.text b
      ↔ Anthropic.Right fromStr b)
    ∧ ((Ollama.decoder fromStr round).Faithful Delta.spoken StoppedRound.text b
      ↔ Ollama.Right fromStr b)
  := ⟨OpenAi.faithful_iff h b, Anthropic.faithful_iff h b, Ollama.faithful_iff h b⟩

/-! ### A stream with carriage returns -/

/-- An event with a text. -/
def greeting : Value :=
  .object [("choices", .array [.object [("delta", .object [("content", .string "hi")])]])]

def readsGreeting : Reader := fun t =>
  if trimEnd t = greeting.toText then .ok greeting else .error "expected value"

theorem readsJson_readsGreeting : ReadsJson readsGreeting := by
  constructor
  · intro t
    have htrim : trimEnd (t ++ ['\r']) = trimEnd t := List.rdropWhile_concat_pos _ _ _ (by decide)
    rw [readsGreeting, readsGreeting, htrim]
  · exact ⟨_, rfl⟩
  · exact ⟨_, rfl⟩

/-- A stream of OpenAI with one text. -/
def greetingBody : Body where
  lines := [encode ("data: " ++ greeting.toText), [], encode "data: [DONE]", []]
  last := []
  plain := by decide
  lastPlain := List.not_mem_nil

theorem decoders_faithful_iff_greeting :
  ((OpenAi.decoder readsGreeting).Faithful id StoppedRound.text greetingBody
      ↔ OpenAi.Right readsGreeting greetingBody)
    ∧ ((Anthropic.decoder readsGreeting).Faithful Delta.spoken StoppedRound.text greetingBody
      ↔ Anthropic.Right readsGreeting greetingBody)
    ∧ ((Ollama.decoder readsGreeting 0).Faithful Delta.spoken StoppedRound.text greetingBody
      ↔ Ollama.Right readsGreeting greetingBody)
  := decoders_faithful_iff readsJson_readsGreeting 0 greetingBody

/-- With line feeds the stream is decoded, and with carriage returns before them it is not. -/
theorem greeting_not_decoded_with_returns :
  ¬ (OpenAi.decoder readsGreeting).Faithful id StoppedRound.text greetingBody
  := by
  intro h
  have hends := (h.ends [greetingBody.bytes] [greetingBody.crlf.bytes] List.flatten_singleton
    List.flatten_singleton).2
  have hdecoded : ((OpenAi.decoder readsGreeting).round
      [greetingBody.bytes]).result.toOption.isSome = true := by decide +kernel
  have hrefused : ((OpenAi.decoder readsGreeting).round
      [greetingBody.crlf.bytes]).result.toOption.isSome = false := by decide +kernel
  rw [hends, hrefused] at hdecoded
  cases hdecoded

end Agent
