import Catio.Lib.Json
import Catio.Lib.Steps
import Mathlib.Logic.Function.Basic

/-!
# The server of tools

The model of `dispatch` and `handle_streamable` in `mcp/mod.rs`: requests in JSON-RPC, each on a
connection of its own that says nothing of its client, the table of the calls in flight, which all
connections share, and the flags by which calls are cancelled.  What the tools do is outside.
-/

namespace Mcp

open Json Text

/-! ### Protocol versions -/

/-- The versions of the protocol, the latest first. -/
def SUPPORTED : List Text :=
  ["2026-07-28", "2025-11-25", "2025-06-18", "2025-03-26", "2024-11-05"]

/-- The version if the client names none that is supported. -/
def DEFAULT_VERSION : Text :=
  "2025-03-26"

def negotiateVersion (requested : Option Text) : Text :=
  match requested with
  | some v => if v ∈ SUPPORTED then v else DEFAULT_VERSION
  | none => DEFAULT_VERSION

/-! ### Requests and responses -/

/-- What the program is built with: its version, and the list of its tools. -/
structure Build where
  version : Text
  tools : Value

def methodOf (req : Value) : Text :=
  ((req.get "method").bind Value.asStr).getD []

def paramsOf (req : Value) : Value :=
  (req.get "params").getD .null

/-- The response to a request, with one more field. -/
def response (id : Value) (name : Text) (value : Value) : Value :=
  .object [("jsonrpc", .string "2.0"), ("id", id), (name, value)]

def CODE_METHOD_NOT_FOUND : Number :=
  ⟨true, [3, 2, 6, 0, 1], List.cons_ne_nil _ _, [], none⟩

/-- The response to a request that does not call a tool; notifications have none. -/
def respond (build : Build) (req : Value) : Option Value :=
  let method := methodOf req
  if method = "initialize" then
    let requested := ((paramsOf req).get "protocolVersion").bind Value.asStr
    (req.get "id").map fun id => response id "result" (.object
      [("protocolVersion", .string (negotiateVersion requested)),
        ("capabilities", .object [("tools", .object [])]),
        ("serverInfo", .object [("name", .string "catio"), ("version", .string build.version)])])
  else if method = "notifications/initialized" ∨ method = "notifications/cancelled" then none
  else if method = "ping" then
    (req.get "id").map fun id => response id "result" (.object [])
  else if method = "tools/list" then
    (req.get "id").map fun id => response id "result" (.object [("tools", build.tools)])
  else
    (req.get "id").map fun id => response id "error" (.object
      [("code", .number CODE_METHOD_NOT_FOUND),
        ("message", .string ("method not found: " ++ method))])

def callResponse (id : Value) (result : Except Text Text) : Value :=
  let content (text : Text) : Value :=
    .array [.object [("type", .string "text"), ("text", .string text)]]
  match result with
  | .ok text => response id "result"
      (.object [("content", content text), ("isError", .bool false)])
  | .error text => response id "result"
      (.object [("content", content text), ("isError", .bool true)])

/-! ### Calls in flight -/

/-- The key of a request id in the table of calls in flight. -/
def requestKey (id : Value) : Option Text :=
  if id.isNull then none else some id.toText

/-- The connection of a call: it is watched for its end, it is not, or its end was seen. -/
inductive Connection where
  | watched
  | unwatched
  | gone
  deriving DecidableEq

/-- A call of a tool: its client, its id, the tool, the flag of its cancellation, whether it is in
flight, and its connection. -/
structure Call (κ : Type) where
  client : κ
  id : Value
  name : Text
  args : Value
  cancelled : Bool
  running : Bool
  connection : Connection

/-- The calls in the order in which they came, and the table of those in flight. -/
structure ServerCtx (κ : Type) where
  calls : List (Call κ)
  inflight : Text → Option ℕ

/-- A request of a client, the end of the connection of a call, bytes behind a request, and the
result of a call. -/
inductive ServerEvent (κ : Type) where
  | request (client : κ) (req : Value)
  | disconnects (k : ℕ)
  | reads (k : ℕ)
  | finishes (k : ℕ) (result : Except Text Text)

namespace ServerCtx

variable {κ : Type}

/-- No calls. -/
def new : ServerCtx κ :=
  ⟨[], fun _ => none⟩

/-- Set the flag of the call that is registered under an id. -/
def cancelRequest (s : ServerCtx κ) (id : Value) : ServerCtx κ :=
  match (requestKey id).bind s.inflight with
  | none => s
  | some k => { s with calls := s.calls.modify k fun call => { call with cancelled := true } }

/-- Register a call, in the place of another one under its id. -/
def startCall (s : ServerCtx κ) (client : κ) (id : Value) (params : Value) : ServerCtx κ where
  calls := s.calls ++ [{
    client := client
    id := id
    name := ((params.get "name").bind Value.asStr).getD []
    args := (params.get "arguments").getD (.object [])
    cancelled := false
    running := true
    connection := .watched }]
  inflight :=
    match requestKey id with
    | none => s.inflight
    | some key => Function.update s.inflight key (some s.calls.length)

/-- A request: it calls a tool, cancels a call, or does neither. -/
def dispatch (s : ServerCtx κ) (client : κ) (req : Value) : ServerCtx κ :=
  if methodOf req = "tools/call" then
    match req.get "id" with
    | none => s
    | some id => s.startCall client id (paramsOf req)
  else if methodOf req = "notifications/cancelled" then
    match (paramsOf req).get "requestId" with
    | none => s
    | some requestId => s.cancelRequest requestId
  else s

/-- The connection of a call has changed. -/
def connect (s : ServerCtx κ) (k : ℕ) (connection : Connection) : ServerCtx κ :=
  { s with calls := s.calls.modify k fun call => { call with connection := connection } }

/-- The connection of a call in flight ends; if it is watched, the call is cancelled by its id. -/
def disconnects (s : ServerCtx κ) (k : ℕ) : ServerCtx κ :=
  match s.calls[k]? with
  | none => s
  | some call =>
      if call.running ∧ call.connection = .watched then (s.cancelRequest call.id).connect k .gone
      else s

/-- There are bytes behind the request of a call in flight; its connection is watched no more. -/
def reads (s : ServerCtx κ) (k : ℕ) : ServerCtx κ :=
  match s.calls[k]? with
  | none => s
  | some call =>
      if call.running ∧ call.connection = .watched then s.connect k .unwatched else s

/-- A call has its result; it is taken out of the table if it is still there. -/
def finishes (s : ServerCtx κ) (k : ℕ) : ServerCtx κ where
  calls := s.calls.modify k fun call => { call with running := false }
  inflight :=
    match s.calls[k]? with
    | none => s.inflight
    | some call =>
        match requestKey call.id with
        | none => s.inflight
        | some key =>
            if s.inflight key = some k then Function.update s.inflight key none else s.inflight

/-- What an event makes of the table and the flags. -/
def after (s : ServerCtx κ) : ServerEvent κ → ServerCtx κ
  | .request client req => s.dispatch client req
  | .disconnects k => s.disconnects k
  | .reads k => s.reads k
  | .finishes k _ => s.finishes k

/-- The response that an event sends: to a request without a tool at once, to a call with its result
if its client is there. -/
def responds (build : Build) (s : ServerCtx κ) : ServerEvent κ → Option Value
  | .request _ req => if methodOf req = "tools/call" then none else respond build req
  | .finishes k result => s.calls[k]?.bind fun call =>
      if call.connection = .gone then none else some (callResponse call.id result)
  | _ => none

end ServerCtx

end Mcp

/-!
## Cancelling calls

A client that cancels a call, or leaves, is to set the flag of its own call in flight, and no flag
of another client (`HitsOwn`).  The table of calls is keyed by the ids that clients choose, so this
holds as long as no two calls in flight have one id, no client cancels the id of another one, and
each connection is watched to its end (`cancellation_hits_own`).
-/

namespace Mcp

open Json Text

variable {κ : Type}

def ServerCtx.flag (s : ServerCtx κ) (k : ℕ) : Option Bool :=
  s.calls[k]?.map Call.cancelled

def ServerCtx.Running (s : ServerCtx κ) (k : ℕ) (call : Call κ) : Prop :=
  s.calls[k]? = some call ∧ call.running

/-- The client and the id for which an event is to cancel a call: those of a notification, or of the
call whose connection ends. -/
def ServerCtx.aims (s : ServerCtx κ) : ServerEvent κ → Option (κ × Value)
  | .request client req =>
      if methodOf req = "notifications/cancelled" then
        ((paramsOf req).get "requestId").map fun id => (client, id)
      else none
  | .disconnects k =>
      s.calls[k]?.bind fun call => if call.running then some (call.client, call.id) else none
  | _ => none

/-- A cancellation sets the flag of each call in flight of the client with this id, and of no other
client. -/
structure HitsOwn (e : ServerEvent κ) (s : ServerCtx κ) : Prop where
  own : ∀ client id, s.aims e = some (client, id) → ∀ k call, s.Running k call →
    call.client = client → call.id = id → (s.after e).flag k = some true
  others : ∀ client id, s.aims e = some (client, id) → ∀ k call, s.calls[k]? = some call →
    call.client ≠ client → (s.after e).flag k = s.flag k

/-- A call starts with an id that no call in flight has; a notification names no id of another
client's call; and a connection that ends is watched. -/
def OwnIds : ServerEvent κ → ServerCtx κ → Prop
  | .request client req, s =>
      (methodOf req = "tools/call" → ∀ id ∈ req.get "id", id.isNull = false
        ∧ ∀ call ∈ s.calls, call.running → requestKey call.id ≠ requestKey id)
      ∧ (methodOf req = "notifications/cancelled" → ∀ id ∈ (paramsOf req).get "requestId",
        ∀ call ∈ s.calls, call.running → requestKey call.id = requestKey id →
          call.client = client)
  | .disconnects k, s => ∀ call ∈ s.calls[k]?, call.running → call.connection = .watched
  | _, _ => True

instance [DecidableEq κ] (e : ServerEvent κ) (s : ServerCtx κ) : Decidable (OwnIds e s) :=
  match e with
  | .request client req => inferInstanceAs (Decidable
      ((methodOf req = "tools/call" → ∀ id ∈ req.get "id", id.isNull = false
        ∧ ∀ call ∈ s.calls, call.running → requestKey call.id ≠ requestKey id)
      ∧ (methodOf req = "notifications/cancelled" → ∀ id ∈ (paramsOf req).get "requestId",
        ∀ call ∈ s.calls, call.running → requestKey call.id = requestKey id →
          call.client = client)))
  | .disconnects k => inferInstanceAs (Decidable
      (∀ call ∈ s.calls[k]?, call.running → call.connection = .watched))
  | .reads _ => .isTrue trivial
  | .finishes _ _ => .isTrue trivial

/-! ### The table -/

/-- The table has the calls in flight, each under the key of its id. -/
structure Registered (s : ServerCtx κ) : Prop where
  entry : ∀ k call, s.Running k call → ∃ key, requestKey call.id = some key
    ∧ s.inflight key = some k
  call : ∀ key k, s.inflight key = some k → ∃ call, s.Running k call
    ∧ requestKey call.id = some key

namespace Registered

variable {s : ServerCtx κ} {k : ℕ} {client : κ} {id : Value} {e : ServerEvent κ}

theorem new :
  Registered (.new : ServerCtx κ)
  where
  entry k call h := by cases h.1
  call key k h := by cases h

theorem modify (h : Registered s) (j : ℕ) {f : Call κ → Call κ}
    (hrunning : ∀ call, (f call).running = call.running) (hid : ∀ call, (f call).id = call.id) :
  Registered { s with calls := s.calls.modify j f }
  := by
  have hsame : ∀ k call, (if j = k then f call else call).running = call.running
      ∧ (if j = k then f call else call).id = call.id := by
    intro k call
    split
    · exact ⟨hrunning call, hid call⟩
    · exact ⟨rfl, rfl⟩
  constructor
  · rintro k call ⟨hk, hcall⟩
    dsimp only at hk
    rw [List.getElem?_modify] at hk
    obtain ⟨before, hbefore, rfl⟩ := Option.map_eq_some_iff.mp hk
    rw [(hsame k before).1] at hcall
    rw [(hsame k before).2]
    exact h.entry k before ⟨hbefore, hcall⟩
  · intro key k hkey
    obtain ⟨call, ⟨hk, hcall⟩, hcallKey⟩ := h.call key k hkey
    refine ⟨if j = k then f call else call, ⟨?_, ?_⟩, ?_⟩
    · dsimp only
      rw [List.getElem?_modify, hk]
      rfl
    · rwa [(hsame k call).1]
    · rwa [(hsame k call).2]

theorem cancelRequest (h : Registered s) (id : Value) :
  Registered (s.cancelRequest id)
  := by
  unfold ServerCtx.cancelRequest
  split
  · exact h
  · exact h.modify _ (fun _ => rfl) (fun _ => rfl)

theorem connect (h : Registered s) (k : ℕ) (connection : Connection) :
  Registered (s.connect k connection)
  := h.modify k (fun _ => rfl) (fun _ => rfl)

theorem startCall (h : Registered s) (params : Value) (hid : id.isNull = false)
    (hfree : ∀ call ∈ s.calls, call.running → requestKey call.id ≠ requestKey id) :
  Registered (s.startCall client id params)
  := by
  have hkey : requestKey id = some id.toText := by
    unfold requestKey
    rw [hid]
    rfl
  have hinflight : (s.startCall client id params).inflight
      = Function.update s.inflight id.toText (some s.calls.length) := by
    unfold ServerCtx.startCall
    rw [hkey]
  constructor
  · rintro k call ⟨hk, hcall⟩
    rw [hinflight]
    obtain hlt | heq | hgt := Nat.lt_trichotomy k s.calls.length
    · have hold : s.calls[k]? = some call := by
        rwa [ServerCtx.startCall, List.getElem?_append_left hlt] at hk
      obtain ⟨key, hcallKey, hentry⟩ := h.entry k call ⟨hold, hcall⟩
      refine ⟨key, hcallKey, ?_⟩
      have hne : key ≠ id.toText := by
        rintro rfl
        exact hfree call (List.mem_of_getElem? hold) hcall (hcallKey.trans hkey.symm)
      rwa [Function.update_of_ne hne]
    · subst heq
      rw [ServerCtx.startCall, List.getElem?_concat_length] at hk
      cases hk
      exact ⟨id.toText, hkey, Function.update_self _ _ _⟩
    · rw [ServerCtx.startCall, List.getElem?_eq_none (by simpa using Nat.succ_le_of_lt hgt)] at hk
      cases hk
  · intro key k hentry
    rw [hinflight] at hentry
    by_cases hsame : key = id.toText
    · rw [hsame, Function.update_self] at hentry
      cases hentry
      rw [hsame]
      exact ⟨_, ⟨List.getElem?_concat_length, rfl⟩, hkey⟩
    · rw [Function.update_of_ne hsame] at hentry
      obtain ⟨call, ⟨hk, hcall⟩, hcallKey⟩ := h.call key k hentry
      have hlt := (List.getElem?_eq_some_iff.mp hk).1
      refine ⟨call, ⟨?_, hcall⟩, hcallKey⟩
      rwa [ServerCtx.startCall, List.getElem?_append_left hlt]

theorem finishes_inflight (h : Registered s) (k : ℕ) (key : Text) :
  (s.finishes k).inflight key = if s.inflight key = some k then none else s.inflight key
  := by
  have hof : ∀ call, s.calls[k]? = some call → s.inflight key = some k →
      requestKey call.id = some key := by
    intro call hk hentry
    obtain ⟨other, ⟨hother, -⟩, hkey⟩ := h.call key k hentry
    rw [hk] at hother
    cases hother
    exact hkey
  unfold ServerCtx.finishes
  dsimp only
  cases hk : s.calls[k]? with
  | none =>
    rw [if_neg]
    intro hentry
    obtain ⟨call, ⟨hcall, -⟩, -⟩ := h.call key k hentry
    rw [hk] at hcall
    cases hcall
  | some call =>
    dsimp only
    cases hown : requestKey call.id with
    | none =>
      rw [if_neg]
      intro hentry
      rw [hof call hk hentry] at hown
      cases hown
    | some own =>
      dsimp only
      by_cases hkey : key = own
      · subst hkey
        split
        · rw [Function.update_self]
        · rfl
      · have hnot : s.inflight key ≠ some k := by
          intro hentry
          rw [hof call hk hentry, Option.some.injEq] at hown
          exact hkey hown
        rw [if_neg hnot]
        split
        · rw [Function.update_of_ne hkey]
        · rfl

theorem finishes (h : Registered s) (k : ℕ) :
  Registered (s.finishes k)
  := by
  constructor
  · rintro j call ⟨hj, hcall⟩
    unfold ServerCtx.finishes at hj
    dsimp only at hj
    by_cases hjk : k = j
    · rw [hjk, List.getElem?_modify_eq] at hj
      obtain ⟨before, -, rfl⟩ := Option.map_eq_some_iff.mp hj
      cases hcall
    · rw [List.getElem?_modify_ne _ _ hjk] at hj
      obtain ⟨key, hkey, hentry⟩ := h.entry j call ⟨hj, hcall⟩
      refine ⟨key, hkey, ?_⟩
      rw [h.finishes_inflight, if_neg, hentry]
      intro hk
      exact hjk (Option.some.inj (hk.symm.trans hentry))
  · intro key j hentry
    rw [h.finishes_inflight] at hentry
    split at hentry
    · cases hentry
    · rename_i hother
      obtain ⟨call, ⟨hj, hcall⟩, hkey⟩ := h.call key j hentry
      have hjk : k ≠ j := by
        rintro rfl
        exact hother hentry
      refine ⟨call, ⟨?_, hcall⟩, hkey⟩
      unfold ServerCtx.finishes
      dsimp only
      rwa [List.getElem?_modify_ne _ _ hjk]

theorem after (h : Registered s) (hown : OwnIds e s) :
  Registered (s.after e)
  := by
  cases e with
  | request client req =>
    change Registered (s.dispatch client req)
    unfold ServerCtx.dispatch
    split
    · rename_i hcall
      split
      · exact h
      · rename_i id hid
        obtain ⟨hnull, hfree⟩ := hown.1 hcall id hid
        exact h.startCall (paramsOf req) hnull hfree
    · split
      · split
        · exact h
        · exact h.cancelRequest _
      · exact h
  | disconnects k =>
    change Registered (s.disconnects k)
    unfold ServerCtx.disconnects
    split
    · exact h
    · split
      · exact (h.cancelRequest _).connect k .gone
      · exact h
  | reads k =>
    change Registered (s.reads k)
    unfold ServerCtx.reads
    split
    · exact h
    · split
      · exact h.connect k .unwatched
      · exact h
  | finishes k result => exact h.finishes k

end Registered

/-! ### Flags -/

section

variable {s : ServerCtx κ} {k : ℕ} {client : κ} {id : Value} {e : ServerEvent κ}

theorem flag_cancelRequest (s : ServerCtx κ) (id : Value) (k : ℕ) :
  (s.cancelRequest id).flag k
    = if (requestKey id).bind s.inflight = some k then (s.flag k).map fun _ => true
      else s.flag k
  := by
  unfold ServerCtx.cancelRequest ServerCtx.flag
  split
  · rename_i hnone
    rw [hnone, if_neg nofun]
  · rename_i j hsome
    rw [hsome]
    dsimp only
    by_cases hjk : j = k
    · rw [hjk, List.getElem?_modify_eq, if_pos rfl]
      cases s.calls[k]? with
      | none => rfl
      | some call => rfl
    · rw [List.getElem?_modify_ne _ _ hjk, if_neg]
      intro heq
      exact hjk (Option.some.inj heq)

theorem flag_connect (s : ServerCtx κ) (j : ℕ) (connection : Connection) (k : ℕ) :
  (s.connect j connection).flag k = s.flag k
  := by
  unfold ServerCtx.connect ServerCtx.flag
  dsimp only
  rw [List.getElem?_modify]
  cases s.calls[k]? with
  | none => rfl
  | some call =>
    by_cases hjk : j = k
    · simp [hjk]
    · simp [hjk]

theorem Registered.cancels (h : Registered s) {call : Call κ} (hcall : s.Running k call) :
  (s.cancelRequest call.id).flag k = some true
  := by
  obtain ⟨key, hkey, hentry⟩ := h.entry k call hcall
  rw [flag_cancelRequest, hkey, Option.bind_some, if_pos hentry, ServerCtx.flag, hcall.1]
  rfl

theorem Registered.spares (h : Registered s) {call : Call κ} (hk : s.calls[k]? = some call)
    (hother : call.running → requestKey call.id ≠ requestKey id) :
  (s.cancelRequest id).flag k = s.flag k
  := by
  rw [flag_cancelRequest, if_neg]
  intro hentry
  obtain ⟨key, hkey, hentry⟩ := Option.bind_eq_some_iff.mp hentry
  obtain ⟨other, ⟨hother', hrunning⟩, hid⟩ := h.call key k hentry
  rw [hk] at hother'
  cases hother'
  exact hother hrunning (hid.trans hkey.symm)

theorem Registered.request_hits (h : Registered s) {req : Value}
    (hown : OwnIds (.request client req) s) :
  HitsOwn (.request client req) s
  := by
  have hafter : ∀ client' id, s.aims (.request client req) = some (client', id) →
      client' = client ∧ s.after (.request client req) = s.cancelRequest id
        ∧ ∀ call ∈ s.calls, call.running → requestKey call.id = requestKey id →
          call.client = client := by
    intro client' id haims
    unfold ServerCtx.aims at haims
    dsimp only at haims
    split at haims
    · rename_i hmethod
      obtain ⟨id', hid, heq⟩ := Option.map_eq_some_iff.mp haims
      cases heq
      refine ⟨rfl, ?_, hown.2 hmethod id hid⟩
      change s.dispatch client req = _
      unfold ServerCtx.dispatch
      rw [if_neg (by rw [hmethod]; decide), if_pos hmethod, hid]
    · cases haims
  constructor
  · rintro client' id haims k call hcall - rfl
    rw [(hafter client' call.id haims).2.1]
    exact h.cancels hcall
  · intro client' id haims k call hk hne
    obtain ⟨rfl, heq, honly⟩ := hafter client' id haims
    rw [heq]
    apply h.spares hk
    intro hrunning hkey
    exact hne (honly call (List.mem_of_getElem? hk) hrunning hkey)

theorem Registered.disconnects_hits (h : Registered s) (hown : OwnIds (.disconnects k) s) :
  HitsOwn (.disconnects k) s
  := by
  have hafter : ∀ client id, s.aims (.disconnects k) = some (client, id) →
      ∃ call, s.Running k call ∧ call.client = client ∧ call.id = id
        ∧ ∀ j, (s.after (.disconnects k)).flag j = (s.cancelRequest id).flag j := by
    intro client id haims
    obtain ⟨call, hk, hsome⟩ := Option.bind_eq_some_iff.mp haims
    split at hsome
    · rename_i hrunning
      cases hsome
      refine ⟨call, ⟨hk, hrunning⟩, rfl, rfl, ?_⟩
      intro j
      change (s.disconnects k).flag j = _
      unfold ServerCtx.disconnects
      rw [hk]
      dsimp only
      rw [if_pos ⟨hrunning, hown call hk hrunning⟩, flag_connect]
    · cases hsome
  constructor
  · rintro client id haims j call hcall - rfl
    obtain ⟨-, -, -, -, hflag⟩ := hafter client call.id haims
    rw [hflag]
    exact h.cancels hcall
  · intro client id haims j call hj hne
    obtain ⟨own, hrunning, rfl, rfl, hflag⟩ := hafter client id haims
    rw [hflag]
    apply h.spares hj
    intro hcall hkey
    obtain ⟨key, hownKey, hentry⟩ := h.entry k own hrunning
    obtain ⟨key', hkey', hentry'⟩ := h.entry j call ⟨hj, hcall⟩
    rw [hkey', hownKey, Option.some.injEq] at hkey
    rw [hkey, hentry, Option.some.injEq] at hentry'
    subst hentry'
    rw [hrunning.1] at hj
    cases hj
    exact hne rfl

theorem Registered.hits (h : Registered s) (hown : OwnIds e s) :
  HitsOwn e s
  := by
  cases e with
  | request client req => exact h.request_hits hown
  | disconnects k => exact h.disconnects_hits hown
  | reads k =>
    constructor
    · intro client id haims
      cases haims
    · intro client id haims
      cases haims
  | finishes k result =>
    constructor
    · intro client id haims
      cases haims
    · intro client id haims
      cases haims

end

/-! ### Runs -/

/-- Each notification and each end of a connection in a run hits calls of its own client. -/
def AlwaysHitsOwn (events : List (ServerEvent κ)) : Prop :=
  Steps.Throughout ServerCtx.after HitsOwn events .new

/-- If no two calls in flight have one id, no client names the id of another one's call, and
connections are watched, each cancellation hits its own call. -/
theorem cancellation_hits_own (events : List (ServerEvent κ))
    (hown : Steps.Throughout ServerCtx.after OwnIds events .new) :
  AlwaysHitsOwn events
  := by
  intro pre e post heq
  have hpre : Steps.Throughout ServerCtx.after OwnIds pre .new := by
    rw [heq] at hown
    exact hown.of_append
  have hregistered : Registered (pre.foldl ServerCtx.after .new) :=
    Steps.invariant .new (fun _ _ h hfinds => h.after hfinds) hpre
  exact hregistered.hits (hown pre e post heq)

/-! ### Two clients -/

def numberId (n : Fin 10) : Value :=
  .number ⟨false, [n], List.cons_ne_nil _ _, [], none⟩

def commandCall (id : Value) : Value :=
  .object [("jsonrpc", .string "2.0"), ("id", id), ("method", .string "tools/call"),
    ("params", .object [("name", .string "run_command"),
      ("arguments", .object [("command", .string "sleep 60")])])]

/-- The notification that a call is cancelled. -/
def cancelled (id : Value) : Value :=
  .object [("jsonrpc", .string "2.0"), ("method", .string "notifications/cancelled"),
    ("params", .object [("requestId", id)])]

/-- Two clients call under these ids. -/
def twoCalls (first second : Fin 10) : List (ServerEvent ℕ) :=
  [.request 0 (commandCall (numberId first)), .request 1 (commandCall (numberId second))]

def firstCancels (first second : Fin 10) : List (ServerEvent ℕ) :=
  twoCalls first second ++ [.request 0 (cancelled (numberId first))]

/-- The ids are different. -/
theorem cancellation_hits_own_twoIds :
  AlwaysHitsOwn (firstCancels 1 2)
  := by
  apply cancellation_hits_own
  decide +kernel

/-- Clients that count from one have the same ids: the call of the second one is cancelled, not that
of the first. -/
theorem cancellation_hits_other :
  ¬ AlwaysHitsOwn (firstCancels 1 1)
    ∧ ((firstCancels 1 1).foldl ServerCtx.after .new).flag 0 = some false
    ∧ ((firstCancels 1 1).foldl ServerCtx.after .new).flag 1 = some true
  := by
  refine ⟨?_, by decide +kernel, by decide +kernel⟩
  intro h
  have hhits := h (twoCalls 1 1) (.request 0 (cancelled (numberId 1))) [] rfl
  have hflag := hhits.own 0 (numberId 1) rfl 0 _ ⟨rfl, rfl⟩ rfl rfl
  revert hflag
  decide +kernel

end Mcp
