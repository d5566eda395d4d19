import Catio.Lib.Utf8

/-!
# Shell-integration sequences

The model of `ssh/osc.rs`: a scanner of terminal output that takes the OSC 633 and OSC 133
sequences out of it and emits their events.  The scanner is an index loop whose turns emit
visible bytes or events; what it cannot decide yet it keeps for the next chunk.
-/

namespace Ssh

open Scan Text

inductive OscEvent where
  | commandLine (command : Text)
  | inputStart
  | execStart
  | execEnd (code : Option ℤ)
  | cwd (directory : Text)
  | ready
  deriving DecidableEq

/-- An event with the number of visible bytes before it. -/
structure PositionedOscEvent where
  event : OscEvent
  visibleOffset : ℕ
  deriving DecidableEq

def pendingCap : ℕ := 64 * 1024

def bel : UInt8 := 0x07

def esc : UInt8 := 0x1b

def backslash : UInt8 := 0x5c

/-- The byte `]`, which introduces an OSC behind ESC. -/
def bracket : UInt8 := 0x5d

/-! ### Values -/

/-- The value of a hexadecimal digit. -/
def hexDigit (b : UInt8) : Option ℕ :=
  let n := b.toNat
  if 0x30 ≤ n ∧ n ≤ 0x39 then some (n - 0x30)
  else if 0x61 ≤ n ∧ n ≤ 0x66 then some (n - 0x61 + 10)
  else if 0x41 ≤ n ∧ n ≤ 0x46 then some (n - 0x41 + 10)
  else none

/-- The number that two characters write in base 16; the first may be a plus sign. -/
def fromStrRadix16 (high low : UInt8) : Option UInt8 :=
  if high = 0x2b then (hexDigit low).map UInt8.ofNat
  else (hexDigit high).bind fun h => (hexDigit low).map fun l => UInt8.ofNat (h * 16 + l)

/-- One turn of `unescape`. -/
def unescapeTurn (_ : Unit) (b : UInt8) (bs : Bytes) : Turn Unit UInt8 Unit :=
  if b = backslash then
    match bs with
    | c :: high :: low :: _ =>
        if c = backslash then .next () [backslash] 1
        else if c = 0x78 ∨ c = 0x58 then
          match fromStrRadix16 high low with
          | some value => .next () [value] 3
          | none => .next () [b] 0
        else .next () [b] 0
    | c :: _ => if c = backslash then .next () [backslash] 1 else .next () [b] 0
    | [] => .next () [b] 0
  else .next () [b] 0

/-- The value that was escaped with doubled backslashes and hexadecimal bytes. -/
def unescape (s : Text) : Text :=
  Utf8.fromUtf8Lossy (loop unescapeTurn id 0 () (Utf8.encode s)).1

/-- The number that decimal digits write. -/
def decimal (digits : Text) : Option ℕ :=
  if digits ≠ [] ∧ digits.all Char.isDigit then
    some (digits.foldl (fun n c => n * 10 + (c.toNat - '0'.toNat)) 0)
  else none

/-- The 32-bit integer that a text writes. -/
def parseI32 : Text → Option ℤ
  | '-' :: digits => (decimal digits).bind fun n => if n ≤ 2 ^ 31 then some (-n) else none
  | '+' :: digits => (decimal digits).bind fun n => if n < 2 ^ 31 then some n else none
  | digits => (decimal digits).bind fun n => if n < 2 ^ 31 then some n else none

/-! ### Payloads -/

/-- The payload of a sequence of the shell integration. -/
def integration (payload : Bytes) : Bool :=
  (Utf8.encode "633;").isPrefixOf payload || (Utf8.encode "133;").isPrefixOf payload

/-- The events of what stands behind `633;` or `133;`. -/
def parseRest (nonce rest : Text) : List OscEvent :=
  if rest = "A" then []
  else if rest = "B" then [.inputStart]
  else
    match stripPrefix "C;" rest with
    | some nonce' => if nonce' = nonce then [.execStart] else []
    | none =>
    match stripPrefix "D;" rest with
    | some afterD =>
        match rsplitOnce ';' afterD with
        | some (code, nonce') => if nonce' = nonce then [.execEnd (parseI32 code)] else []
        | none => []
    | none =>
    match stripPrefix "E;" rest with
    | some afterE =>
        match rsplitOnce ';' afterE with
        | some (cmd, nonce') => if nonce' = nonce then [.commandLine (unescape cmd)] else []
        | none => []
    | none =>
    match stripPrefix "P;" rest with
    | some prop =>
        match stripPrefix "Cwd=" prop with
        | some val => [.cwd (unescape val)]
        | none =>
            match stripPrefix "CatioReady=" prop with
            | some n => if n = nonce then [.ready] else []
            | none => []
    | none => []

def parsePayload (nonce : Text) (payload : Bytes) : List OscEvent :=
  match Utf8.fromUtf8 payload with
  | (_, some _) => []
  | (text, none) =>
      match stripPrefix "633;" text with
      | some rest => parseRest nonce rest
      | none =>
          match stripPrefix "133;" text with
          | some rest => parseRest nonce rest
          | none => []

/-! ### The scanner -/

/-- The place and the length of the first terminator: BEL, or ESC with a backslash. -/
def findTerminator : Bytes → Option (ℕ × ℕ)
  | [] => none
  | b :: bs =>
      if b = bel then some (0, 1)
      else if b = esc ∧ bs.head? = some backslash then some (0, 2)
      else (findTerminator bs).map fun found => (found.1 + 1, found.2)

/-- What one turn of the scanner adds to its results. -/
inductive Output where
  | visible (bytes : Bytes)
  | events (es : List OscEvent)
  deriving DecidableEq

/-- One turn of the scanner. -/
def scanTurn (nonce : Text) (_ : Unit) (b : UInt8) (bs : Bytes) :
    Turn Unit Output (Unit × Bytes) :=
  if b = esc then
    match bs with
    | [] => .stop ((), [b])
    | c :: rest =>
        if c = bracket then
          match findTerminator rest with
          | none => .stop ((), b :: c :: rest)
          | some (start, len) =>
              if integration (rest.take start) then
                .next () [.events (parsePayload nonce (rest.take start))] (1 + start + len)
              else .next () [.visible (b :: c :: rest.take (start + len))] (1 + start + len)
        else .next () [.visible [b]] 0
  else .next () [.visible [b]] 0

/-- What the scanner makes of bytes, and the bytes that it keeps back. -/
def scan (nonce : Text) (bytes : Bytes) : List Output × Unit × Bytes :=
  loop (scanTurn nonce) nothingHeld 0 () bytes

def visibleBytes (outs : List Output) : Bytes :=
  outs.flatMap fun out =>
    match out with
    | .visible bytes => bytes
    | .events _ => []

/-- The events, where some bytes are visible already. -/
def positioned : ℕ → List Output → List PositionedOscEvent
  | _, [] => []
  | n, .visible bytes :: outs => positioned (n + bytes.length) outs
  | n, .events es :: outs => es.map (fun event => ⟨event, n⟩) ++ positioned n outs

/-- The place of the first sentinel of the integration. -/
def readyOffset (events : List PositionedOscEvent) : Option ℕ :=
  (events.find? fun e => e.event = .ready).map PositionedOscEvent.visibleOffset

/-- The nonce of the session, and the bytes that are kept for the next chunk. -/
structure Scanner where
  nonce : Text
  pending : Bytes
  deriving DecidableEq

/-- The visible bytes and the events of a chunk, with the place of the sentinel. -/
structure Fed where
  visible : Bytes
  events : List PositionedOscEvent
  ready : Option ℕ
  deriving DecidableEq

namespace Scanner

def new (nonce : Text) : Scanner :=
  ⟨nonce, []⟩

/-- The defensive cap: too many pending bytes are flushed as visible. -/
def finish (outs : List Output) (pending : Bytes) (s : Scanner) : Fed × Scanner :=
  let events := positioned 0 outs
  if pending.length > pendingCap then
    (⟨visibleBytes outs ++ pending, events, readyOffset events⟩, { s with pending := [] })
  else (⟨visibleBytes outs, events, readyOffset events⟩, { s with pending := pending })

/-- Scan a chunk behind the pending bytes. -/
def feed (chunk : Bytes) (s : Scanner) : Fed × Scanner :=
  let scanned := scan s.nonce (s.pending ++ chunk)
  s.finish scanned.1 scanned.2.2

/-- Scan chunks one after the other, with the offsets counted over all of them. -/
def feedAll : List Bytes → Scanner → (Bytes × List PositionedOscEvent) × Scanner
  | [], s => (([], []), s)
  | chunk :: chunks, s =>
      let (fed, s) := s.feed chunk
      let ((visible, events), s) := s.feedAll chunks
      ((fed.visible ++ visible,
        fed.events ++ events.map fun e => ⟨e.event, fed.visible.length + e.visibleOffset⟩), s)

end Scanner

end Ssh
