import Catio.Lib.Json.Grammar
import Catio.Lib.Sse
import Catio.Lib.Utf8
import Catio.Lib.Words
import Mathlib.Logic.Function.Iterate

/-!
# Responses of MCP servers

`extract_result` of `automation/mcp_client.rs`, which reads a response that is sent as a JSON body
or as an event stream.  Which of the two it is, it guesses from the body, and it reads the first
line only that looks like data.  Where it gives what the response says is said exactly in
`extractResult_iff`; the reader of JSON is a parameter.
-/

namespace Automation.McpClient

open Json Sse Text Utf8

/-- Why a response is of no use. -/
inductive McpError where
  | protocol (message : Text)
  deriving DecidableEq

/-! ### The code -/

/-- The text without the prefix, as often as it is there. -/
def trimStartMatches (p t : Text) : Text :=
  Nat.iterate (fun t => (stripPrefix p t).getD t) t.length t

def looksLikeData (line : Text) : Bool :=
  ("data:" : Text).isPrefixOf (trimStart line)

/-- What stands behind the field of a line that looks like data. -/
def payload (line : Text) : Text :=
  trim (trimStartMatches "data:" (trimStart line))

/-- The result of a JSON-RPC response, or its error. -/
def resultOf (v : Value) : Except McpError Value :=
  match v.get "error" with
  | some err =>
      .error (.protocol (((err.get "message").bind Value.asStr).getD "unknown jsonrpc error"))
  | none =>
      match v.get "result" with
      | some result => .ok result
      | none => .error (.protocol "response missing result")

def responseText (text : Text) : Except McpError Text :=
  if ("data:" : Text) <:+: text then
    match (lines text).find? looksLikeData with
    | some line => .ok (payload line)
    | none => .error (.protocol "no data: line in SSE response")
  else .ok text

def extractResult (fromStr : Reader) (body : Bytes) : Except McpError Value := do
  let text ← responseText (fromUtf8Lossy body)
  match fromStr text with
  | .ok v => resultOf v
  | .error e => .error (.protocol ("invalid JSON: " ++ e))

/-! ### Responses -/

/-- What a response says: its result, or the message of its error. -/
inductive Answer (v : Value) : Except McpError Value → Prop where
  | result {result : Value} (noError : v.get "error" = none) (h : v.get "result" = some result) :
      Answer v (.ok result)
  | error {err : Value} {message : Text} (h : v.get "error" = some err)
      (hmessage : err.get "message" = some (.string message)) : Answer v (.error (.protocol message))

/-- The last event of a stream is the response. -/
def Carries (s : Stream) (v : Value) : Prop :=
  ∃ before t, events s.lines = before ++ [t] ∧ JsonText v t

/-- The lines of a stream that end with a line feed: with carriage returns alone, it is one line. -/
def lineFeedLines (s : Stream) : List Text :=
  if s.eol = .cr then (if s.text = [] then [] else [s.text]) else s.lines

/-- What stands behind the field of the first line of a stream that looks like data. -/
def firstData (s : Stream) : Option Text :=
  ((lineFeedLines s).find? looksLikeData).map payload

/-- The messages that the client makes up: no line looks like data, or what stands there is no JSON,
or no response. -/
inductive MadeUp (fromStr : Reader) : Option Text → Text → Prop where
  | noData : MadeUp fromStr none "no data: line in SSE response"
  | notJson {t e : Text} (h : fromStr t = .error e) : MadeUp fromStr (some t) ("invalid JSON: " ++ e)
  | noMessage {t : Text} {v err : Value} (h : fromStr t = .ok v) (herr : v.get "error" = some err)
      (hmessage : (err.get "message").bind Value.asStr = none) :
      MadeUp fromStr (some t) "unknown jsonrpc error"
  | noResult {t : Text} {v : Value} (h : fromStr t = .ok v) (noError : v.get "error" = none)
      (hresult : v.get "result" = none) : MadeUp fromStr (some t) "response missing result"

/-- A plain text is taken for one: it has no field of a data line in it, or is the error that is
made up then. -/
def PlainRight (fromStr : Reader) (t : Text) (o : Except McpError Value) : Prop :=
  ¬ ("data:" : Text) <:+: t ∨ ∃ m, o = .error (.protocol m) ∧ MadeUp fromStr none m

/-- The first line of a stream that looks like data says the response, or that is the error that is
made up then. -/
def StreamRight (fromStr : Reader) (s : Stream) (o : Except McpError Value) : Prop :=
  (∃ t v, firstData s = some t ∧ fromStr t = .ok v ∧ Answer v o)
    ∨ ∃ m, o = .error (.protocol m) ∧ MadeUp fromStr (firstData s) m

/-! ### Outcomes -/

variable {fromStr : Reader}

variable {v : Value} {t : Text}

theorem resultOf_of_answer {o : Except McpError Value} (h : Answer v o) :
  resultOf v = o
  := by
  cases h with
  | result noError h => rw [resultOf, noError, h]
  | error h hmessage =>
    rw [resultOf, h]
    dsimp only
    rw [hmessage]
    rfl

theorem resultOf_cases (h : fromStr t = .ok v) :
  Answer v (resultOf v) ∨ ∃ m, resultOf v = .error (.protocol m) ∧ MadeUp fromStr (some t) m
  := by
  rw [resultOf]
  split
  · rename_i err herr
    cases hmessage : (err.get "message").bind Value.asStr with
    | none =>
      right
      exact ⟨"unknown jsonrpc error", rfl, .noMessage h herr hmessage⟩
    | some message =>
      left
      obtain ⟨value, hvalue, hstr⟩ := Option.bind_eq_some_iff.mp hmessage
      apply Answer.error herr
      rw [hvalue, Value.eq_string_of_asStr hstr]
      rfl
  · rename_i noError
    split
    · rename_i result hresult
      exact .inl (.result noError hresult)
    · rename_i hresult
      right
      exact ⟨"response missing result", rfl, .noResult h noError hresult⟩

theorem resultOf_of_madeUp (h : fromStr t = .ok v) {m : Text} (hm : MadeUp fromStr (some t) m) :
  resultOf v = .error (.protocol m)
  := by
  cases hm with
  | notJson h' =>
    rw [h] at h'
    cases h'
  | noMessage h' herr hmessage =>
    rw [h] at h'
    cases h'
    rw [resultOf, herr]
    dsimp only
    rw [hmessage]
    rfl
  | noResult h' noError hresult =>
    rw [h] at h'
    cases h'
    rw [resultOf, noError, hresult]

theorem payload_iff (t : Text) (o : Except McpError Value) :
  ((match fromStr t with
      | .ok v => resultOf v
      | .error e => .error (.protocol ("invalid JSON: " ++ e))) = o)
    ↔ (∃ v, fromStr t = .ok v ∧ Answer v o)
      ∨ ∃ m, o = .error (.protocol m) ∧ MadeUp fromStr (some t) m
  := by
  cases hread : fromStr t with
  | ok v =>
    constructor
    · rintro rfl
      exact (resultOf_cases hread).imp_left fun h => ⟨v, rfl, h⟩
    · rintro (⟨v', hv, hanswer⟩ | ⟨m, rfl, hm⟩)
      · cases hv
        exact resultOf_of_answer hanswer
      · exact resultOf_of_madeUp hread hm
  | error e =>
    constructor
    · rintro rfl
      exact .inr ⟨_, rfl, .notJson hread⟩
    · rintro (⟨v', hv, -⟩ | ⟨m, rfl, hm⟩)
      · cases hv
      · cases hm with
        | notJson h =>
          rw [hread] at h
          cases h
          rfl
        | noMessage h => exact absurd (hread.symm.trans h) (by simp)
        | noResult h => exact absurd (hread.symm.trans h) (by simp)

/-! ### The lines of JSON texts -/

/-- The first character of a text that is not white space. -/
def firstVisible (t : Text) : Option Char :=
  (t.dropWhile isWhitespace).head?

/-- No line of the text has the character for its first one that is visible. -/
def NoLineStarts (d : Char) (t : Text) : Prop :=
  ∀ x y, t = x ++ y → x = [] ∨ x.getLast? = some '\n' → firstVisible y ≠ some d

namespace NoLineStarts

variable {d : Char} {s t : Text}

theorem append (hs : NoLineStarts d s) (ht : NoLineStarts d t) :
  NoLineStarts d (s ++ t)
  := by
  intro x y hsplit hx
  rcases List.append_eq_append_iff.mp hsplit with ⟨as, rfl, rfl⟩ | ⟨bs, rfl, rfl⟩
  · apply ht as y rfl
    rcases List.eq_nil_or_concat as with hnil | ⟨as, c, rfl⟩
    · exact .inl hnil
    · right
      rw [List.concat_eq_append] at hx ⊢
      rcases hx with hx | hx
      · simp at hx
      · rwa [← List.append_assoc, List.getLast?_concat, ← List.getLast?_concat (l := as)] at hx
  · have hfirst := hs x bs rfl hx
    have hsecond := ht [] t rfl (.inl rfl)
    rw [firstVisible, List.dropWhile_append]
    split
    · exact hsecond
    · rename_i hvisible
      rw [firstVisible] at hfirst
      rwa [List.head?_append_of_ne_nil]
      simpa using hvisible

theorem of_not_mem (hline : '\n' ∉ t) (hstart : firstVisible t ≠ some d) :
  NoLineStarts d t
  := by
  intro x y hsplit hx
  rcases hx with rfl | hx
  · rw [List.nil_append] at hsplit
    rwa [← hsplit]
  · apply absurd _ hline
    rw [hsplit]
    exact List.mem_append_left y (List.mem_of_getLast? hx)

theorem of_blank (h : Blank t) :
  NoLineStarts d t
  := by
  intro x y hsplit _
  have hnone : y.dropWhile isWhitespace = [] := by
    apply List.dropWhile_eq_nil_iff.mpr
    intro c hc
    have hspace : isSpace c := h c (by rw [hsplit]; exact List.mem_append_right x hc)
    simp only [isSpace, Bool.or_eq_true, beq_iff_eq] at hspace
    rcases hspace with ((rfl | rfl) | rfl) | rfl <;> decide
  rw [firstVisible, hnone]
  simp

theorem of_not_mem_both (hline : '\n' ∉ t) (hd : d ∉ t) :
  NoLineStarts d t
  := by
  apply of_not_mem hline
  intro hfirst
  exact hd ((List.dropWhile_suffix isWhitespace).subset (List.mem_of_head? hfirst))

theorem singleton {c : Char} (hc : c ≠ '\n') (hd : c ≠ d) :
  NoLineStarts d [c]
  := by
  apply of_not_mem
  · simpa using hc.symm
  · rw [firstVisible, List.dropWhile_cons]
    split
    · simp
    · simpa using hd

end NoLineStarts

theorem noLineStarts_of_exact {s t u : Text} (h : Exact s t u) :
  NoLineStarts 'd' u
  := by
  obtain ⟨rfl, b, hbody, rfl⟩ := h
  apply NoLineStarts.of_not_mem
  · simp [hbody.newline_not_mem]
  · rw [firstVisible, List.cons_append, List.dropWhile_cons_of_neg (by decide)]
    simp

theorem noLineStarts_of_renders {part : Part} {t u : Text} (h : Renders Exact Exact part t u) :
  NoLineStarts 'd' u
  := by
  have hsign {c : Char} (hc : c ≠ '\n') (hd : c ≠ 'd') {t : Text} (ht : NoLineStarts 'd' t) :
      NoLineStarts 'd' (c :: t) :=
    (NoLineStarts.singleton hc hd).append ht
  induction h with
  | null => exact .of_not_mem (by decide) (by decide)
  | true => exact .of_not_mem (by decide) (by decide)
  | false => exact .of_not_mem (by decide) (by decide)
  | number proper letter =>
    apply NoLineStarts.of_not_mem_both
    · intro hmem
      exact absurd (textWith_subset letter _ _ hmem) (by decide)
    · intro hmem
      exact absurd (textWith_subset letter _ _ hmem) (by decide)
  | string h => exact noLineStarts_of_exact h
  | array _ ih =>
    exact (hsign (by decide) (by decide) ih).append (.singleton (by decide) (by decide))
  | object _ ih =>
    exact (hsign (by decide) (by decide) ih).append (.singleton (by decide) (by decide))
  | noItems ha => exact .of_blank ha
  | lastItem ha _ hb ih => exact ((NoLineStarts.of_blank ha).append ih).append (.of_blank hb)
  | moreItems ha _ hb _ ih ihmore =>
    exact (((NoLineStarts.of_blank ha).append ih).append (.of_blank hb)).append
      (hsign (by decide) (by decide) ihmore)
  | noFields ha => exact .of_blank ha
  | lastField ha hkey hb hc _ hd ih =>
    exact (((NoLineStarts.of_blank ha).append (noLineStarts_of_exact hkey)).append
      (.of_blank hb)).append
      (hsign (by decide) (by decide) (((NoLineStarts.of_blank hc).append ih).append (.of_blank hd)))
  | moreFields ha hkey hb hc _ hd _ ih ihmore =>
    have hfield := (((NoLineStarts.of_blank ha).append (noLineStarts_of_exact hkey)).append
      (.of_blank hb)).append (hsign (c := ':') (by decide) (by decide)
      (((NoLineStarts.of_blank hc).append ih).append (.of_blank hd)))
    exact hfield.append (hsign (by decide) (by decide) ihmore)

theorem not_looksLikeData (h : JsonText v t) :
  (lines t).find? looksLikeData = none
  := by
  obtain ⟨a, u, b, ha, hdenotes, hb, rfl⟩ := h
  have hno : NoLineStarts 'd' (a ++ u ++ b) :=
    ((NoLineStarts.of_blank ha).append (noLineStarts_of_renders hdenotes)).append (.of_blank hb)
  rw [List.find?_eq_none]
  intro line hline hdata
  obtain ⟨x, y, hsplit, hx⟩ := append_of_mem_lines hline
  apply hno x (line ++ y) hsplit hx
  obtain ⟨rest, hrest⟩ := List.isPrefixOf_iff_prefix.mp hdata
  rw [trimStart] at hrest
  rw [firstVisible, List.dropWhile_append, ← hrest]
  rfl

/-! ### Streams -/

theorem lines_text (s : Stream) :
  lines s.text = lineFeedLines s
  := by
  have hline : ∀ line ∈ s.lines, '\n' ∉ line ∧ stripReturn line = line
      ∧ stripReturn (line ++ ['\r']) = line := by
    intro line hline
    obtain ⟨hlf, hcr⟩ := s.plain line hline
    refine ⟨hlf, ?_, ?_⟩
    · rw [stripReturn, if_neg]
      intro hlast
      exact hcr (List.mem_of_getLast? hlast)
    · rw [stripReturn, if_pos List.getLast?_concat, List.dropLast_concat]
  cases heol : s.eol with
  | lf =>
    rw [lineFeedLines, heol, if_neg (by decide), Stream.text, heol]
    change lines (s.lines.flatMap (· ++ ['\n'])) = s.lines
    rw [lines_records fun line h => (hline line h).1, List.map_congr_left (g := id), List.map_id]
    exact fun line h => (hline line h).2.1
  | crlf =>
    have htext : s.text = (s.lines.map (· ++ ['\r'])).flatMap (· ++ ['\n']) := by
      rw [Stream.text, heol, List.flatMap_map]
      simp [Eol.text]
    have hrecords : ∀ record ∈ s.lines.map (· ++ ['\r']), '\n' ∉ record := by
      intro record hrecord
      obtain ⟨line, h, rfl⟩ := List.mem_map.mp hrecord
      simp [(hline line h).1]
    rw [lineFeedLines, heol, if_neg (by decide), htext, lines_records hrecords, List.map_map,
      List.map_congr_left (g := id), List.map_id]
    exact fun line h => (hline line h).2.2
  | cr =>
    rw [lineFeedLines, heol, if_pos rfl]
    apply lines_of_not_mem
    rw [Stream.text, heol]
    intro hmem
    obtain ⟨line, h, hin⟩ := List.mem_flatMap.mp hmem
    rcases List.mem_append.mp hin with hin | hin
    · exact (hline line h).1 hin
    · exact absurd hin (by decide)

theorem eq_join_of_mem_eventsFrom {collected lines : List Text}
    (h : t ∈ eventsFrom collected lines) :
  ∃ values, t = join "\n" values
    ∧ ∀ value ∈ values, value ∈ collected ∨ ∃ line ∈ lines, dataOf line = some value
  := by
  induction lines generalizing collected with
  | nil => cases h
  | cons line lines ih =>
    rw [eventsFrom] at h
    split at h
    · rcases List.mem_append.mp h with h | h
      · split at h
        · cases h
        · exact ⟨collected, List.mem_singleton.mp h, fun value hvalue => .inl hvalue⟩
      · obtain ⟨values, hvalues, hmem⟩ := ih h
        refine ⟨values, hvalues, ?_⟩
        intro value hvalue
        rcases hmem value hvalue with hnone | ⟨line', hline, hdata⟩
        · cases hnone
        · exact .inr ⟨line', List.mem_cons_of_mem line hline, hdata⟩
    · obtain ⟨values, hvalues, hmem⟩ := ih h
      refine ⟨values, hvalues, ?_⟩
      intro value hvalue
      rcases hmem value hvalue with hcollected | ⟨line', hline, hdata⟩
      · rcases List.mem_append.mp hcollected with hcollected | hnew
        · exact .inl hcollected
        · exact .inr ⟨line, List.mem_cons_self, Option.mem_toList.mp hnew⟩
      · exact .inr ⟨line', List.mem_cons_of_mem line hline, hdata⟩

theorem prefix_of_dataOf {line value : Text} (h : dataOf line = some value) (hne : value ≠ []) :
  ("data:" : Text) <+: line
  := by
  unfold dataOf at h
  split at h
  · rename_i field rest hsplit
    split at h
    · rename_i hfield
      rw [splitOnce_eq_some hsplit, hfield]
      exact List.prefix_append ("data:" : Text) rest
    · cases h
  · split at h
    · cases h
      exact absurd rfl hne
    · cases h

theorem Carries.infix {s : Stream} (h : Carries s v) :
  ("data:" : Text) <:+: s.text
  := by
  obtain ⟨before, t, hevents, htext⟩ := h
  have hmem : t ∈ events s.lines := by
    rw [hevents]
    simp
  obtain ⟨values, rfl, hvalues⟩ := eq_join_of_mem_eventsFrom hmem
  obtain ⟨c, hc, hne⟩ := exists_mem_of_jsonText htext
  obtain ⟨value, hvalue, hin⟩ := exists_mem_of_mem_join hne hc
  rcases hvalues value hvalue with hnone | ⟨line, hline, hdata⟩
  · cases hnone
  · have hbegins := prefix_of_dataOf hdata (List.ne_nil_of_mem hin)
    obtain ⟨front, back, hlines⟩ := List.append_of_mem hline
    rw [Stream.text, hlines, List.flatMap_append, List.flatMap_cons]
    apply (hbegins.isInfix.trans (List.prefix_append line s.eol.text).isInfix).trans
    exact (List.prefix_append _ _).isInfix.trans (List.suffix_append _ _).isInfix

/-- A response is read as what it says exactly if its plain text does not look like a stream, and
the first line of a stream that looks like data says it, or by accident. -/
theorem extractResult_iff {response : Value} {o : Except McpError Value} (ho : Answer response o)
    (hread : Readable fromStr response) :
  (∀ t, JsonText response t →
      (extractResult fromStr (encode t) = o ↔ PlainRight fromStr t o))
    ∧ ∀ s, Carries s response →
      (extractResult fromStr (encode s.text) = o ↔ StreamRight fromStr s o)
  := by
  have hnoData : (Except.error (.protocol "no data: line in SSE response") = o)
      ↔ ∃ m, o = .error (.protocol m) ∧ MadeUp fromStr none m := by
    constructor
    · rintro rfl
      exact ⟨_, rfl, .noData⟩
    · rintro ⟨m, rfl, hm⟩
      cases hm
      rfl
  constructor
  · intro t ht
    rw [extractResult, fromUtf8Lossy_encode, responseText, PlainRight]
    by_cases hdata : ("data:" : Text) <:+: t
    · rw [if_pos hdata, not_looksLikeData ht, ← hnoData]
      exact ⟨.inr, fun h => h.resolve_left (not_not_intro hdata)⟩
    · rw [if_neg hdata]
      change (match fromStr t with
        | .ok v => resultOf v
        | .error e => .error (.protocol ("invalid JSON: " ++ e))) = o ↔ _
      rw [hread t ht]
      exact ⟨fun _ => .inl hdata, fun _ => resultOf_of_answer ho⟩
  · intro s hs
    rw [extractResult, fromUtf8Lossy_encode, responseText, if_pos hs.infix, lines_text, StreamRight,
      firstData]
    cases (lineFeedLines s).find? looksLikeData with
    | none =>
      rw [Option.map_none, ← hnoData]
      constructor
      · exact .inr
      · rintro (⟨t, v, hnone, -⟩ | h)
        · cases hnone
        · exact h
    | some line =>
      refine (payload_iff (payload line) o).trans ?_
      rw [Option.map_some]
      apply or_congr_left
      constructor
      · rintro ⟨v, hv, hanswer⟩
        exact ⟨payload line, v, rfl, hv, hanswer⟩
      · rintro ⟨t, v, ht, hv, hanswer⟩
        cases ht
        exact ⟨v, hv, hanswer⟩

/-- A response whose result is the field of a data line. -/
def dataResult : Value :=
  .object [("jsonrpc", .string "2.0"), ("id", .number ⟨false, [3], by decide, [], none⟩),
    ("result", .string "data:")]

/-- A reader of the texts of the response. -/
def readsDataResult : Reader :=
  fun _ => .ok dataResult

theorem jsonText_dataResult :
  JsonText dataResult dataResult.toText
  := jsonText_toText (by decide)

/-- The compact text of the response is read right if it does not look like a stream. -/
theorem extractResult_iff_dataResult :
  extractResult readsDataResult (encode dataResult.toText) = .ok (.string "data:")
    ↔ PlainRight readsDataResult dataResult.toText (.ok (.string "data:"))
  := (extractResult_iff (.result rfl rfl) fun _ _ => rfl).1 _ jsonText_dataResult

/-- The response is taken for a stream without data. -/
theorem dataResult_not_read :
  JsonText dataResult dataResult.toText ∧ Answer dataResult (.ok (.string "data:"))
    ∧ extractResult readsDataResult (encode dataResult.toText)
      = .error (.protocol "no data: line in SSE response")
  := by
  refine ⟨jsonText_dataResult, .result rfl rfl, ?_⟩
  have htext : responseText (fromUtf8Lossy (encode dataResult.toText))
      = .error (.protocol "no data: line in SSE response") := by
    rw [fromUtf8Lossy_encode, responseText, if_pos (by decide),
      not_looksLikeData jsonText_dataResult]
  rw [extractResult, htext]
  rfl

end Automation.McpClient
