import Catio.Lib.Base64
import Catio.Lib.Numerals
import Catio.Lib.Utf8

/-!
# The connection to a VNC server

`handshake` and `pump_messages_split` of `vncconn.rs`, with the parsers of `vnc.rs`.  A
handshake takes exactly its bytes from the stream, and each message behind it exactly its own, so
that each rectangle is emitted once, up to the end of the stream or to the first message or
encoding that is not known (`framing_exact`).  The response to a challenge is a parameter.
-/

namespace Server.VncConn

open Text Utf8

/-! ### Streams -/

inductive SshError where
  | io (message : Text)
  | sftp (message : Text)
  | authFailed
  deriving DecidableEq

/-- What is emitted on a topic. -/
inductive Payload where
  | raw (x y w h : UInt16) (data : Text)
  | copy (x y w h srcX srcY : UInt16)
  | init (width height : UInt16)
  deriving DecidableEq

/-- A connection: the bytes that are still to be read, after which it ends, those that were
written, and what was emitted. -/
structure Stream where
  input : Bytes
  output : Bytes
  events : List (Text × Payload)

/-- What is done with a connection, and may fail. -/
abbrev Session := ExceptT SshError (StateM Stream)

def readExactVec (n : ℕ) : Session Bytes :=
  fun s =>
    if n ≤ s.input.length then (.ok (s.input.take n), { s with input := s.input.drop n })
    else (.error (.io "early eof"), { s with input := [] })

/-- The number of two bytes, the high one first. -/
def fromBe16 (a b : UInt8) : UInt16 :=
  .ofNat (256 * a.toNat + b.toNat)

/-- The number of four bytes, the high one first. -/
def fromBe32 (a b c d : UInt8) : UInt32 :=
  .ofNat (256 * (256 * (256 * a.toNat + b.toNat) + c.toNat) + d.toNat)

def readU8 : Session UInt8 := do
  return (← readExactVec 1).getD 0 0

def readU16 : Session UInt16 := do
  let b ← readExactVec 2
  return fromBe16 (b.getD 0 0) (b.getD 1 0)

def readU32 : Session UInt32 := do
  let b ← readExactVec 4
  return fromBe32 (b.getD 0 0) (b.getD 1 0) (b.getD 2 0) (b.getD 3 0)

def writeAll (bytes : Bytes) : Session Unit :=
  fun s => (.ok (), { s with output := s.output ++ bytes })

def emit (topic : Text) (payload : Payload) : Session Unit :=
  fun s => (.ok (), { s with events := s.events ++ [(topic, payload)] })

/-! ### Formats -/

structure PixelFormat where
  bitsPerPixel : UInt8
  depth : UInt8
  bigEndian : Bool
  trueColor : Bool
  redMax : UInt16
  greenMax : UInt16
  blueMax : UInt16
  redShift : UInt8
  greenShift : UInt8
  blueShift : UInt8

structure ServerInit where
  width : UInt16
  height : UInt16
  pixelFormat : PixelFormat
  name : Text

structure RectHeader where
  x : UInt16
  y : UInt16
  width : UInt16
  height : UInt16
  encoding : Int32

/-- The version in a line such as `RFB 003.008`. -/
def parseProtocolVersion (buf : Bytes) : Option (ℕ × ℕ) :=
  if buf.length ≠ 12 ∨ buf.take 4 ≠ encode "RFB " ∨ buf[11]? ≠ some 10 then none
  else do
    let s ← strFromUtf8 ((buf.drop 4).take 7)
    let (maj, min) ← splitOnce '.' s
    return (← parseUnsigned 256 maj, ← parseUnsigned 256 min)

def encodeProtocolVersion (major minor : ℕ) : Bytes :=
  encode ("RFB " ++ (ofNat major).leftpad 3 '0' ++ "." ++ (ofNat minor).leftpad 3 '0' ++ "\n")

def parsePixelFormat : Bytes → Option PixelFormat
  | b₀ :: b₁ :: b₂ :: b₃ :: b₄ :: b₅ :: b₆ :: b₇ :: b₈ :: b₉ :: b₁₀ :: b₁₁ :: b₁₂ :: _ :: _ :: _
      :: _ =>
      some ⟨b₀, b₁, b₂ ≠ 0, b₃ ≠ 0, fromBe16 b₄ b₅, fromBe16 b₆ b₇, fromBe16 b₈ b₉, b₁₀, b₁₁, b₁₂⟩
  | _ => none

/-- The width, the height, the pixel format, and the name with its length in front. -/
def parseServerInit (b : Bytes) : Option ServerInit :=
  match b, b.drop 20 with
  | w₀ :: w₁ :: h₀ :: h₁ :: format, n₀ :: n₁ :: n₂ :: n₃ :: name => do
      let pixelFormat ← parsePixelFormat (format.take 16)
      let nameLen := (fromBe32 n₀ n₁ n₂ n₃).toNat
      if name.length < nameLen then none
      else some ⟨fromBe16 w₀ w₁, fromBe16 h₀ h₁, pixelFormat, fromUtf8Lossy (name.take nameLen)⟩
  | _, _ => none

def parseRectHeader : Bytes → Option RectHeader
  | x₀ :: x₁ :: y₀ :: y₁ :: w₀ :: w₁ :: h₀ :: h₁ :: e₀ :: e₁ :: e₂ :: e₃ :: _ =>
      some ⟨fromBe16 x₀ x₁, fromBe16 y₀ y₁, fromBe16 w₀ w₁, fromBe16 h₀ h₁,
        (fromBe32 e₀ e₁ e₂ e₃).toInt32⟩
  | _ => none

/-- Pixels of 32 bits, the bytes of which are red, green, blue and one that is not used. -/
def setPixelFormatMsg : Bytes :=
  [0, 0, 0, 0, 32, 24, 0, 1, 0, 255, 0, 255, 0, 255, 0, 8, 16, 0, 0, 0]

def setEncodingsMsg : Bytes :=
  [2, 0, 0, 3, 0, 0, 0, 0, 0, 0, 0, 1, 0xFF, 0xFF, 0xFF, 0x21]

/-! ### The handshake -/

section

variable (vncAuthResponse : Text → Bytes → Bytes)

/-- The types of security that the server offers. -/
def securityTypes : Session Bytes := do
  let count ← readU8
  if count = 0 then
    let rl ← readU32
    let reason ← fun s => match readExactVec rl.toNat s with
      | (.ok reason, s) => (.ok reason, s)
      | (.error _, s) => (.ok [], s)
    throw (.sftp ("VNC rejected: " ++ fromUtf8Lossy reason))
  else readExactVec count.toNat

/-- The security that the client prefers: none only if it has no password. -/
def choose (types : Bytes) (password : Text) : Option UInt8 :=
  if 2 ∈ types ∧ password ≠ [] then some 2
  else if 1 ∈ types then some 1
  else if 2 ∈ types then some 2
  else none

/-- The challenge of the second type of security. -/
def answerChallenge (password : Text) (chosen : UInt8) : Session Unit :=
  if chosen = 2 then do
    let challenge ← readExactVec 16
    writeAll (vncAuthResponse password challenge)
  else pure ()

/-- The result, which versions before 3.8 send behind a challenge only. -/
def securityResult (chosen : UInt8) (replyMinor : ℕ) : Session Unit :=
  if chosen = 2 ∨ 8 ≤ replyMinor then do
    let result ← readU32
    if result ≠ 0 then throw .authFailed else pure ()
  else pure ()

def clientInit : Session ServerInit := do
  writeAll [1]
  let head ← readExactVec 24
  let nameLen := fromBe32 (head.getD 20 0) (head.getD 21 0) (head.getD 22 0) (head.getD 23 0)
  let name ← readExactVec nameLen.toNat
  match parseServerInit (head ++ name) with
  | none => throw (.sftp "bad ServerInit")
  | some si =>
    writeAll setPixelFormatMsg
    writeAll setEncodingsMsg
    return si

def handshake (password : Text) : Session ServerInit := do
  let ver ← readExactVec 12
  match parseProtocolVersion ver with
  | none => throw (.sftp "bad RFB version")
  | some (smaj, smin) =>
    if smaj ≠ 3 ∨ smin < 7 then
      throw (.sftp ("unsupported RFB protocol version " ++ ofNat smaj ++ "." ++ ofNat smin))
    else
      let replyMinor := min smin 8
      writeAll (encodeProtocolVersion 3 replyMinor)
      let types ← securityTypes
      match choose types password with
      | none => throw (.sftp "no supported VNC security type")
      | some chosen =>
        writeAll [chosen]
        answerChallenge vncAuthResponse password chosen
        securityResult chosen replyMinor
        clientInit

end

/-! ### Messages -/

section

variable (id : Text)

/-- Read a rectangle, and emit it. -/
def pumpRect : Session Unit := do
  let hdr ← readExactVec 12
  match parseRectHeader hdr with
  | none => throw (.sftp "bad rect")
  | some r =>
    if r.encoding = 0 then
      let pixels ← readExactVec (r.width.toNat * r.height.toNat * 4)
      emit ("vnc-rect://" ++ id) (.raw r.x r.y r.width r.height (Base64.encode pixels))
    else if r.encoding = 1 then
      let sx ← readU16
      let sy ← readU16
      emit ("vnc-rect://" ++ id) (.copy r.x r.y r.width r.height sx sy)
    else if r.encoding = -223 then emit ("vnc-init://" ++ id) (.init r.width r.height)
    else throw (.sftp ("unsupported VNC encoding " ++ (toString r.encoding).toList))

def pumpRects : ℕ → Session Unit
  | 0 => pure ()
  | n + 1 => do
      pumpRect id
      pumpRects n

/-- One turn of the loop of `pump_messages_split`. -/
def pumpMessage : Session Unit := do
  let msgType ← readU8
  if msgType = 0 then
    let _pad ← readU8
    let num ← readU16
    pumpRects id num.toNat
  else if msgType = 1 then
    let _ ← readU8
    let _first ← readU16
    let n ← readU16
    let _skip ← readExactVec (n.toNat * 6)
  else if msgType = 2 then pure ()
  else if msgType = 3 then
    let _pad ← readExactVec 3
    let n ← readU32
    let _skip ← readExactVec n.toNat
  else throw (.sftp ("unknown VNC server message " ++ ofNat msgType.toNat))

/-- The loop goes on until a turn fails. -/
inductive Pumps : Stream → SshError → Stream → Prop where
  | fails {s s' : Stream} {e : SshError} (turn : pumpMessage id s = (.error e, s')) : Pumps s e s'
  | goes_on {s s₁ s' : Stream} {e : SshError} (turn : pumpMessage id s = (.ok (), s₁))
      (rest : Pumps s₁ e s') : Pumps s e s'

end

/-! ### What servers send -/

def be16 (n : UInt16) : Bytes :=
  [.ofNat (n.toNat / 256), n.toUInt8]

def be32 (n : UInt32) : Bytes :=
  [.ofNat (n.toNat / 16777216), .ofNat (n.toNat / 65536), .ofNat (n.toNat / 256), n.toUInt8]

/-- A rectangle of an update. -/
inductive Rect where
  | raw (x y w h : UInt16) (pixels : Bytes) (hlength : pixels.length = w.toNat * h.toNat * 4)
  | copy (x y w h srcX srcY : UInt16)
  | desktopSize (x y w h : UInt16)

def rectHeader (x y w h : UInt16) (encoding : Int32) : Bytes :=
  be16 x ++ be16 y ++ be16 w ++ be16 h ++ be32 encoding.toUInt32

def Rect.bytes : Rect → Bytes
  | .raw x y w h pixels _ => rectHeader x y w h 0 ++ pixels
  | .copy x y w h srcX srcY => rectHeader x y w h 1 ++ be16 srcX ++ be16 srcY
  | .desktopSize x y w h => rectHeader x y w h (-223)

def Rect.event (id : Text) : Rect → Text × Payload
  | .raw x y w h pixels _ => ("vnc-rect://" ++ id, .raw x y w h (Base64.encode pixels))
  | .copy x y w h srcX srcY => ("vnc-rect://" ++ id, .copy x y w h srcX srcY)
  | .desktopSize _ _ w h => ("vnc-init://" ++ id, .init w h)

inductive Message where
  | update (pad : UInt8) (rects : List Rect) (hcount : rects.length < 65536)
  | colourMap (pad : UInt8) (first count : UInt16) (colours : Bytes)
      (hlength : colours.length = count.toNat * 6)
  | bell
  | cutText (pad text : Bytes) (hpad : pad.length = 3) (hlength : text.length < 4294967296)

def Message.bytes : Message → Bytes
  | .update pad rects _ => 0 :: pad :: be16 (.ofNat rects.length) ++ rects.flatMap Rect.bytes
  | .colourMap pad first count colours _ => 1 :: pad :: be16 first ++ be16 count ++ colours
  | .bell => [2]
  | .cutText pad text _ _ => 3 :: pad ++ be32 (.ofNat text.length) ++ text

def Message.rects : Message → List Rect
  | .update _ rects _ => rects
  | _ => []

/-- What stands behind the messages: nothing, a message that is not known, or an update in which
an encoding is not known. -/
inductive Ending where
  | eof
  | message (type : UInt8) (hunknown : 3 < type) (rest : Bytes)
  | encoding (pad : UInt8) (count : UInt16) (rects : List Rect)
      (hcount : rects.length < count.toNat) (x y w h : UInt16) (enc : Int32)
      (hunknown : enc ∉ [0, 1, -223]) (rest : Bytes)

def Ending.bytes : Ending → Bytes
  | .eof => []
  | .message type _ rest => type :: rest
  | .encoding pad count rects _ x y w h enc _ rest =>
      0 :: pad :: be16 count ++ rects.flatMap Rect.bytes ++ rectHeader x y w h enc ++ rest

def Ending.rects : Ending → List Rect
  | .encoding _ _ rects .. => rects
  | _ => []

def Ending.error : Ending → SshError
  | .eof => .io "early eof"
  | .message type _ _ => .sftp ("unknown VNC server message " ++ ofNat type.toNat)
  | .encoding _ _ _ _ _ _ _ _ enc _ _ =>
      .sftp ("unsupported VNC encoding " ++ (toString enc).toList)

/-- What is not read. -/
def Ending.rest : Ending → Bytes
  | .eof => []
  | .message _ _ rest => rest
  | .encoding _ _ _ _ _ _ _ _ _ _ rest => rest

/-- What a server sends that speaks version 3.7 or 3.8 and accepts the client. -/
structure Conversation where
  minor : ℕ
  known : minor = 7 ∨ minor = 8
  types : Bytes
  short : types.length < 256
  supported : 1 ∈ types ∨ 2 ∈ types
  challenge : Bytes
  challenge_length : challenge.length = 16
  width : UInt16
  height : UInt16
  format : Bytes
  format_length : format.length = 16
  name : Bytes
  name_length : name.length < 4294967296

namespace Conversation

variable (c : Conversation) (password : Text)

/-- The security of the client: none, if the server offers it and there is no password, or if
the server offers nothing else. -/
def security : UInt8 :=
  if 1 ∈ c.types ∧ (2 ∉ c.types ∨ password = []) then 1 else 2

/-- The bytes of the size, the format and the length of the name. -/
def head : Bytes :=
  be16 c.width ++ be16 c.height ++ c.format ++ be32 (.ofNat c.name.length)

/-- A challenge belongs to the second type of security, and a result to it and to version 3.8. -/
def bytes : Bytes :=
  encode ("RFB 003.00" ++ ofNat c.minor ++ "\n") ++ UInt8.ofNat c.types.length :: c.types
    ++ (if c.security password = 2 then c.challenge else [])
    ++ (if c.security password = 2 ∨ c.minor = 8 then be32 0 else [])
    ++ c.head ++ c.name

/-- What the client sends. -/
def replies (vncAuthResponse : Text → Bytes → Bytes) : Bytes :=
  encodeProtocolVersion 3 c.minor ++ c.security password
    :: (if c.security password = 2 then vncAuthResponse password c.challenge else [])
    ++ 1 :: setPixelFormatMsg ++ setEncodingsMsg

end Conversation

/-! ### What is read -/

theorem fromBe16_be16 (n : UInt16) :
  fromBe16 (.ofNat (n.toNat / 256)) n.toUInt8 = n
  := by
  have hn := n.toNat_lt
  apply UInt16.toNat_inj.mp
  simp only [fromBe16, UInt16.toNat_ofNat', UInt8.toNat_ofNat', UInt16.toNat_toUInt8]
  omega

theorem fromBe32_be32 (n : UInt32) :
  fromBe32 (.ofNat (n.toNat / 16777216)) (.ofNat (n.toNat / 65536)) (.ofNat (n.toNat / 256))
    n.toUInt8 = n
  := by
  have hn := n.toNat_lt
  apply UInt32.toNat_inj.mp
  simp only [fromBe32, UInt32.toNat_ofNat', UInt8.toNat_ofNat', UInt32.toNat_toUInt8]
  omega

section

variable {α β : Type} {x : Session α} (f : α → Session β) {s s' : Stream} (rest output : Bytes)
  (events : List (Text × Payload))

theorem bind_ok {a : α} (h : x s = (.ok a, s')) :
  (x >>= f) s = f a s'
  := by
  simp [bind, ExceptT.bind, ExceptT.mk, ExceptT.bindCont, StateT.bind, h]

theorem bind_error {e : SshError} (h : x s = (.error e, s')) :
  (x >>= f) s = (.error e, s')
  := by
  simp only [bind, ExceptT.bind, ExceptT.mk, StateT.bind, h]
  rfl

theorem readExactVec_append {n : ℕ} {bytes : Bytes} (h : bytes.length = n) :
  readExactVec n ⟨bytes ++ rest, output, events⟩ = (.ok bytes, ⟨rest, output, events⟩)
  := by
  subst h
  simp [readExactVec]

theorem readU8_cons (b : UInt8) :
  readU8 ⟨b :: rest, output, events⟩ = (.ok b, ⟨rest, output, events⟩)
  := bind_ok _ (readExactVec_append rest output events (show [b].length = 1 from rfl))

theorem readU16_be16 (n : UInt16) :
  readU16 ⟨be16 n ++ rest, output, events⟩ = (.ok n, ⟨rest, output, events⟩)
  := by
  unfold readU16
  rw [bind_ok _ (readExactVec_append rest output events (show (be16 n).length = 2 from rfl))]
  simp only [be16, List.getD_cons_zero, List.getD_cons_succ, fromBe16_be16]
  rfl

theorem readU32_be32 (n : UInt32) :
  readU32 ⟨be32 n ++ rest, output, events⟩ = (.ok n, ⟨rest, output, events⟩)
  := by
  unfold readU32
  rw [bind_ok _ (readExactVec_append rest output events (show (be32 n).length = 4 from rfl))]
  simp only [be32, List.getD_cons_zero, List.getD_cons_succ, fromBe32_be32]
  rfl

theorem parseRectHeader_rectHeader (x y w h : UInt16) (encoding : Int32) :
  parseRectHeader (rectHeader x y w h encoding) = some ⟨x, y, w, h, encoding⟩
  := by
  simp [rectHeader, be16, be32, parseRectHeader, fromBe16_be16, fromBe32_be32]

theorem pumpRect_bytes (id : Text) (rect : Rect) :
  pumpRect id ⟨rect.bytes ++ rest, output, events⟩
    = (.ok (), ⟨rest, output, events ++ [rect.event id]⟩)
  := by
  unfold pumpRect
  cases rect with
  | raw x y w h pixels hlength =>
    rw [Rect.bytes, List.append_assoc,
      bind_ok _ (readExactVec_append _ output events (show _ = 12 from rfl)),
      parseRectHeader_rectHeader]
    exact bind_ok _ (readExactVec_append rest output events hlength)
  | copy x y w h srcX srcY =>
    rw [Rect.bytes, List.append_assoc, List.append_assoc,
      bind_ok _ (readExactVec_append _ output events (show _ = 12 from rfl)),
      parseRectHeader_rectHeader]
    refine (bind_ok _ (readU16_be16 _ output events srcX)).trans ?_
    exact bind_ok _ (readU16_be16 rest output events srcY)
  | desktopSize x y w h =>
    rw [Rect.bytes, bind_ok _ (readExactVec_append _ output events (show _ = 12 from rfl)),
      parseRectHeader_rectHeader]
    rfl

theorem pumpRects_bytes (id : Text) (rects : List Rect) (n : ℕ) :
  pumpRects id (rects.length + n) ⟨rects.flatMap Rect.bytes ++ rest, output, events⟩
    = pumpRects id n ⟨rest, output, events ++ rects.map (Rect.event id)⟩
  := by
  induction rects generalizing events with
  | nil => simp
  | cons rect rects ih =>
    rw [List.flatMap_cons, List.append_assoc, List.length_cons, Nat.succ_add, pumpRects,
      bind_ok _ (pumpRect_bytes _ output events id rect), ih, List.map_cons, List.append_assoc]
    rfl

theorem pumpMessage_bytes (id : Text) (message : Message) :
  pumpMessage id ⟨message.bytes ++ rest, output, events⟩
    = (.ok (), ⟨rest, output, events ++ message.rects.map (Rect.event id)⟩)
  := by
  unfold pumpMessage
  cases message with
  | update pad rects hcount =>
    have hnum : (UInt16.ofNat rects.length).toNat = rects.length := by
      rw [UInt16.toNat_ofNat', Nat.mod_eq_of_lt hcount]
    simp only [Message.bytes, List.cons_append, List.append_assoc]
    refine (bind_ok _ (readU8_cons _ output events 0)).trans ?_
    refine (bind_ok _ (readU8_cons _ output events pad)).trans ?_
    refine (bind_ok _ (readU16_be16 _ output events (.ofNat rects.length))).trans ?_
    rw [hnum]
    exact pumpRects_bytes rest output events id rects 0
  | colourMap pad first count colours hlength =>
    simp only [Message.bytes, Message.rects, List.map_nil, List.append_nil, List.cons_append,
      List.append_assoc]
    refine (bind_ok _ (readU8_cons _ output events 1)).trans ?_
    refine (bind_ok _ (readU8_cons _ output events pad)).trans ?_
    refine (bind_ok _ (readU16_be16 _ output events first)).trans ?_
    refine (bind_ok _ (readU16_be16 _ output events count)).trans ?_
    exact bind_ok _ (readExactVec_append rest output events hlength)
  | bell =>
    simp only [Message.rects, List.map_nil, List.append_nil]
    exact bind_ok _ (readU8_cons rest output events 2)
  | cutText pad text hpad hlength =>
    have hnum : (UInt32.ofNat text.length).toNat = text.length := by
      rw [UInt32.toNat_ofNat', Nat.mod_eq_of_lt hlength]
    simp only [Message.bytes, Message.rects, List.map_nil, List.append_nil, List.cons_append,
      List.append_assoc]
    refine (bind_ok _ (readU8_cons _ output events 3)).trans ?_
    refine (bind_ok _ (readExactVec_append _ output events hpad)).trans ?_
    refine (bind_ok _ (readU32_be32 _ output events (.ofNat text.length))).trans ?_
    exact bind_ok _ (readExactVec_append rest output events hnum.symm)

theorem pumpMessage_ending (id : Text) (ending : Ending) :
  pumpMessage id ⟨ending.bytes, output, events⟩
    = (.error ending.error,
      ⟨ending.rest, output, events ++ ending.rects.map (Rect.event id)⟩)
  := by
  unfold pumpMessage
  cases ending with
  | eof =>
    simp only [Ending.rects, List.map_nil, List.append_nil]
    rfl
  | message type hunknown rest =>
    have hne : type ≠ 0 ∧ type ≠ 1 ∧ type ≠ 2 ∧ type ≠ 3 := by
      refine ⟨?_, ?_, ?_, ?_⟩ <;> (rintro rfl; exact absurd hunknown (by decide))
    simp only [Ending.rects, List.map_nil, List.append_nil]
    refine (bind_ok _ (readU8_cons rest output events type)).trans ?_
    rw [if_neg hne.1, if_neg hne.2.1, if_neg hne.2.2.1, if_neg hne.2.2.2]
    rfl
  | encoding pad count rects hcount x y w h enc hunknown rest =>
    obtain ⟨n, hn⟩ := Nat.exists_eq_add_of_lt hcount
    simp only [List.mem_cons, List.not_mem_nil, or_false, not_or] at hunknown
    simp only [Ending.bytes, List.cons_append, List.append_assoc]
    refine (bind_ok _ (readU8_cons _ output events 0)).trans ?_
    refine (bind_ok _ (readU8_cons _ output events pad)).trans ?_
    refine (bind_ok _ (readU16_be16 _ output events count)).trans ?_
    rw [hn, Nat.add_assoc, pumpRects_bytes, pumpRects]
    refine bind_error _ ?_
    unfold pumpRect
    rw [bind_ok _ (readExactVec_append _ output _ (show _ = 12 from rfl)),
      parseRectHeader_rectHeader]
    simp only [if_neg hunknown.1, if_neg hunknown.2.1, if_neg hunknown.2.2]
    rfl

end

theorem pumps_iff (id : Text) (messages : List Message) (ending : Ending) (output : Bytes)
    (events : List (Text × Payload)) (e : SshError) (s : Stream) :
  Pumps id ⟨messages.flatMap Message.bytes ++ ending.bytes, output, events⟩ e s
    ↔ e = ending.error ∧ s = ⟨ending.rest, output,
      events ++ (messages.flatMap Message.rects ++ ending.rects).map (Rect.event id)⟩
  := by
  induction messages generalizing events with
  | nil =>
    have hturn := pumpMessage_ending output events id ending
    constructor
    · intro h
      cases h with
      | fails turn =>
        cases hturn.symm.trans turn
        exact ⟨rfl, rfl⟩
      | goes_on turn rest => cases hturn.symm.trans turn
    · rintro ⟨rfl, rfl⟩
      exact .fails hturn
  | cons message messages ih =>
    have hturn := pumpMessage_bytes (messages.flatMap Message.bytes ++ ending.bytes) output events
      id message
    have hiff := ih (events ++ message.rects.map (Rect.event id))
    simp only [List.flatMap_cons, List.map_append, List.append_assoc] at hiff ⊢
    rw [← hiff]
    constructor
    · intro h
      cases h with
      | fails turn => cases hturn.symm.trans turn
      | goes_on turn rest =>
        cases hturn.symm.trans turn
        exact rest
    · exact .goes_on hturn

/-! ### The bytes of a conversation -/

namespace Conversation

/-- What the server initialises the client with. -/
def InitBy (c : Conversation) (si : ServerInit) : Prop :=
  si.width = c.width ∧ si.height = c.height ∧ some si.pixelFormat = parsePixelFormat c.format
    ∧ si.name = fromUtf8Lossy c.name

variable (c : Conversation)

theorem choose_types (password : Text) :
  choose c.types password = some (c.security password)
  := by
  unfold choose security
  have hsupported := c.supported
  by_cases hone : 1 ∈ c.types <;> by_cases htwo : 2 ∈ c.types <;>
    by_cases hempty : password = [] <;> simp_all

theorem head_spec :
  c.head.length = 24 ∧ fromBe32 (c.head.getD 20 0) (c.head.getD 21 0) (c.head.getD 22 0)
      (c.head.getD 23 0) = .ofNat c.name.length
    ∧ ∃ si, parseServerInit (c.head ++ c.name) = some si ∧ c.InitBy si
  := by
  obtain ⟨-, -, -, -, -, -, -, width, height, format, hformat, name, hname⟩ := c
  match format, hformat with
  | [b₀, b₁, b₂, b₃, b₄, b₅, b₆, b₇, b₈, b₉, b₁₀, b₁₁, b₁₂, b₁₃, b₁₄, b₁₅], _ =>
    have hnum : (UInt32.ofNat name.length).toNat = name.length := by
      rw [UInt32.toNat_ofNat', Nat.mod_eq_of_lt hname]
    refine ⟨rfl, fromBe32_be32 _, ?_⟩
    simp only [head, be16, be32, List.cons_append, List.nil_append, parseServerInit,
      List.drop_succ_cons, List.drop_zero, fromBe16_be16, fromBe32_be32, List.take_succ_cons,
      List.take_zero]
    simp [parsePixelFormat, InitBy, hnum]

theorem version_spec :
  (encode ("RFB 003.00" ++ ofNat c.minor ++ "\n")).length = 12
    ∧ parseProtocolVersion (encode ("RFB 003.00" ++ ofNat c.minor ++ "\n")) = some (3, c.minor)
  := by
  rcases c.known with h | h
  · rw [h]
    decide +kernel
  · rw [h]
    decide +kernel

theorem securityTypes_bytes (rest output : Bytes) (events : List (Text × Payload)) :
  securityTypes ⟨UInt8.ofNat c.types.length :: (c.types ++ rest), output, events⟩
    = (.ok c.types, ⟨rest, output, events⟩)
  := by
  have hcount : (UInt8.ofNat c.types.length).toNat = c.types.length := by
    rw [UInt8.toNat_ofNat', Nat.mod_eq_of_lt c.short]
  have hne : UInt8.ofNat c.types.length ≠ 0 := by
    intro hzero
    rw [hzero] at hcount
    have hnil := List.length_eq_zero_iff.mp hcount.symm
    simpa [hnil] using c.supported
  unfold securityTypes
  refine (bind_ok _ (readU8_cons _ output events _)).trans ?_
  rw [if_neg hne]
  exact readExactVec_append rest output events hcount.symm

theorem answerChallenge_bytes (vncAuthResponse : Text → Bytes → Bytes) (password : Text)
    (rest output : Bytes) (events : List (Text × Payload)) :
  answerChallenge vncAuthResponse password (c.security password)
      ⟨(if c.security password = 2 then c.challenge else []) ++ rest, output, events⟩
    = (.ok (), ⟨rest, output ++ (if c.security password = 2 then
        vncAuthResponse password c.challenge else []), events⟩)
  := by
  unfold answerChallenge
  split
  · exact (bind_ok _ (readExactVec_append rest output events c.challenge_length)).trans rfl
  · rw [List.append_nil]
    rfl

theorem securityResult_bytes (chosen : UInt8) (rest output : Bytes)
    (events : List (Text × Payload)) :
  securityResult chosen c.minor
      ⟨(if chosen = 2 ∨ c.minor = 8 then be32 0 else []) ++ rest, output, events⟩
    = (.ok (), ⟨rest, output, events⟩)
  := by
  have hminor : 8 ≤ c.minor ↔ c.minor = 8 := by
    rcases c.known with h | h <;> simp [h]
  unfold securityResult
  simp only [hminor]
  split
  · exact (bind_ok _ (readU32_be32 rest output events 0)).trans rfl
  · rfl

theorem clientInit_bytes (rest output : Bytes) (events : List (Text × Payload)) :
  ∃ si, c.InitBy si
    ∧ clientInit ⟨c.head ++ (c.name ++ rest), output, events⟩
      = (.ok si, ⟨rest, output ++ [1] ++ setPixelFormatMsg ++ setEncodingsMsg, events⟩)
  := by
  obtain ⟨hhead, hnum, si, hsi, hinit⟩ := c.head_spec
  have hlength : c.name.length = (UInt32.ofNat c.name.length).toNat := by
    rw [UInt32.toNat_ofNat', Nat.mod_eq_of_lt c.name_length]
  refine ⟨si, hinit, ?_⟩
  unfold clientInit
  refine (bind_ok _ rfl).trans ((bind_ok _ (readExactVec_append _ _ events hhead)).trans ?_)
  dsimp only
  rw [hnum]
  refine (bind_ok _ (readExactVec_append _ _ events hlength)).trans ?_
  rw [hsi]
  rfl

theorem handshake_bytes (vncAuthResponse : Text → Bytes → Bytes) (password : Text)
    (rest output : Bytes) (events : List (Text × Payload)) :
  ∃ si, c.InitBy si
    ∧ handshake vncAuthResponse password ⟨c.bytes password ++ rest, output, events⟩
      = (.ok si, ⟨rest, output ++ c.replies password vncAuthResponse, events⟩)
  := by
  obtain ⟨hversion, hparse⟩ := c.version_spec
  have hknown : ¬ (3 ≠ 3 ∨ c.minor < 7) ∧ min c.minor 8 = c.minor := by
    rcases c.known with h | h <;> simp [h]
  obtain ⟨si, hinit, hclient⟩ := c.clientInit_bytes rest (output ++ encodeProtocolVersion 3 c.minor
    ++ [c.security password] ++ if c.security password = 2 then
      vncAuthResponse password c.challenge else []) events
  refine ⟨si, hinit, ?_⟩
  simp only [bytes, replies, List.append_assoc, List.cons_append, List.nil_append]
    at hclient hversion hparse ⊢
  unfold handshake
  refine (bind_ok _ (readExactVec_append _ output events hversion)).trans ?_
  rw [hparse]
  dsimp only
  rw [if_neg hknown.1, hknown.2]
  refine (bind_ok _ rfl).trans ((bind_ok _ (c.securityTypes_bytes _ _ events)).trans ?_)
  rw [c.choose_types]
  refine (bind_ok _ rfl).trans ?_
  refine (bind_ok _ (c.answerChallenge_bytes vncAuthResponse password _ _ events)).trans ?_
  refine (bind_ok _ (c.securityResult_bytes _ _ _ events)).trans ?_
  simpa only [List.append_assoc, List.cons_append, List.nil_append] using hclient

end Conversation

/-- The client takes exactly the bytes of the handshake and of each message, with one event for each
rectangle, up to the end of the stream or to what is not known. -/
theorem framing_exact (vncAuthResponse : Text → Bytes → Bytes) (password id : Text)
    (c : Conversation) (messages : List Message) (ending : Ending) :
  let stream := messages.flatMap Message.bytes ++ ending.bytes
  (∃ si, c.InitBy si ∧ handshake vncAuthResponse password ⟨c.bytes password ++ stream, [], []⟩
      = (.ok si, ⟨stream, c.replies password vncAuthResponse, []⟩))
    ∧ ∀ output e s, Pumps id ⟨stream, output, []⟩ e s ↔ e = ending.error
      ∧ s = ⟨ending.rest, output,
        (messages.flatMap Message.rects ++ ending.rects).map (Rect.event id)⟩
  := by
  refine ⟨c.handshake_bytes vncAuthResponse password _ [] [], fun output e s => ?_⟩
  apply pumps_iff

end Server.VncConn
