import Catio.Lib.Numerals
import Catio.Lib.Utf8

/-!
# Chunked request bodies

`handle_conn` of `mcp/mod.rs` reads a request body in chunks until the bytes look as if the last
chunk had arrived, whatever they stand for.  So the messages that arrive whole, however they are cut
into reads, are those in which such bytes are first seen at the end of the last chunk, and which are
not too long (`arrivesWhole_forall_iff`).
-/

namespace Mcp

open Scan Text Utf8

/-! ### The code -/

/-- The first place where the needle stands. -/
def findSubsequence (needle : Bytes) : Bytes → Option ℕ
  | [] => none
  | b :: haystack =>
      if needle.isPrefixOf (b :: haystack) then some 0
      else (findSubsequence needle haystack).map (· + 1)

/-- The end of a line. -/
def crlf : Bytes :=
  [0x0D, 0x0A]

def MAX_BODY_BYTES : ℕ :=
  16 * 1024 * 1024

/-- The last chunk seems to have arrived. -/
def endsChunkedBody (buf : Bytes) : Bool :=
  (findSubsequence (crlf ++ [0x30] ++ crlf) buf).isSome || ([0x30] ++ crlf).isPrefixOf buf

/-- A chunk: its size, perhaps with an extension, the end of the line, so many bytes, and perhaps
the end of a line. -/
def chunkTurn (_ : Unit) (first : UInt8) (rest : Bytes) : Turn Unit UInt8 Unit :=
  match findSubsequence crlf (first :: rest) with
  | none => .stop ()
  | some nl =>
      let line := (first :: rest).take nl
      let hex := line.takeWhile (· ≠ 0x3B)
      match fromStrRadix16 (2 ^ 64) (trim (fromUtf8Lossy hex)) with
      | none => .stop ()
      | some len =>
          let buf := (first :: rest).drop (nl + 2)
          if len = 0 then .stop ()
          else if buf.length < len then .next () buf rest.length
          else
            let width := if crlf.isPrefixOf (buf.drop len) then 2 else 0
            .next () (buf.take len) (nl + 1 + len + width)

def decodeChunked (buf : Bytes) : Bytes :=
  (loop chunkTurn id 0 () buf).1

/-- A body is decoded from the bytes read, it is refused since they are too many, or the server
waits for more. -/
inductive Outcome where
  | decoded (buf body : Bytes)
  | payloadTooLarge
  | waiting
  deriving DecidableEq

/-- The bytes of a body as they arrive: those read with the headers, and those of each later read;
then the client closes the connection, or waits. -/
structure Arrival where
  initial : Bytes
  reads : List Bytes
  closed : Bool
  initial_size : initial.length < 4096
  read_size : ∀ read ∈ reads, 0 < read.length ∧ read.length ≤ 4096

/-- Read until the last chunk seems to have arrived, or there is nothing more to read. -/
def readLoop (closed : Bool) (body : Bytes) : List Bytes → Outcome
  | [] =>
      if endsChunkedBody body || closed then .decoded body (decodeChunked body) else .waiting
  | read :: reads =>
      if endsChunkedBody body then .decoded body (decodeChunked body)
      else if MAX_BODY_BYTES < (body ++ read).length then .payloadTooLarge
      else readLoop closed (body ++ read) reads

/-- The body of a request in chunks. -/
def readChunked (arrival : Arrival) : Outcome :=
  readLoop arrival.closed arrival.initial arrival.reads

/-! ### Messages -/

/-- A line with the size of a chunk, without its end: digits, and perhaps an extension. -/
structure SizeLine where
  digits : Text
  padding : Text
  extension : Option Bytes
  digits_ne_nil : digits ≠ []
  digits_hex : digits.all isHexDigit = true
  padding_blank : ∀ c ∈ padding, c = ' ' ∨ c = '\t'
  padding_extension : extension = none → padding = []
  extension_line : ∀ e, extension = some e → 0x0D ∉ e ∧ 0x0A ∉ e

namespace SizeLine

def size (line : SizeLine) : ℕ :=
  ofHexDigits line.digits

def bytes (line : SizeLine) : Bytes :=
  encode (line.digits ++ line.padding)
    ++ match line.extension with
      | some extension => 0x3B :: extension
      | none => []

end SizeLine

structure Chunk where
  line : SizeLine
  data : Bytes
  data_ne_nil : data ≠ []
  size : line.size = data.length
  short : data.length < 2 ^ 64

def Chunk.bytes (chunk : Chunk) : Bytes :=
  chunk.line.bytes ++ crlf ++ chunk.data ++ crlf

/-- A body in chunks, with the fields of its trailer. -/
structure Message where
  chunks : List Chunk
  last : SizeLine
  last_zero : last.size = 0
  trailer : List Bytes
  trailer_field : ∀ line ∈ trailer, 0x3A ∈ line ∧ 0x0D ∉ line ∧ 0x0A ∉ line

namespace Message

variable (m : Message)

/-- The bytes that are split into chunks. -/
def body : Bytes :=
  m.chunks.flatMap Chunk.data

/-- The bytes up to the last chunk, which is there with the end of its line. -/
def front : Bytes :=
  m.chunks.flatMap Chunk.bytes ++ m.last.bytes ++ crlf

/-- The bytes behind the last chunk. -/
def tail : Bytes :=
  m.trailer.flatMap (· ++ crlf) ++ crlf

def bytes : Bytes :=
  m.front ++ m.tail

end Message

def Arrival.bytes (a : Arrival) : Bytes :=
  a.initial ++ a.reads.flatten

/-- The bytes that have arrived after so many reads. -/
def Arrival.upTo (a : Arrival) (k : ℕ) : Bytes :=
  a.initial ++ (a.reads.take k).flatten

/-- The message is read until its last chunk has arrived, and its body is decoded. -/
def ArrivesWhole (m : Message) (a : Arrival) : Prop :=
  ∃ buf, m.front <+: buf ∧ readChunked a = .decoded buf m.body

/-- The bytes look as if the last chunk had arrived: they start with it, or it stands in them
behind the end of a line. -/
def LooksEnded (buf : Bytes) : Prop :=
  crlf ++ [0x30] ++ crlf <:+: buf ∨ [0x30] ++ crlf <+: buf

/-- After some reads the last chunk has arrived, and the bytes look like that or the client has
closed; they did not before, and no read brought too many. -/
def EndsInTime (m : Message) (a : Arrival) : Prop :=
  ∃ k ≤ a.reads.length, m.front <+: a.upTo k
    ∧ (LooksEnded (a.upTo k) ∨ k = a.reads.length ∧ a.closed = true)
    ∧ ∀ j < k, ¬ LooksEnded (a.upTo j) ∧ (a.upTo (j + 1)).length ≤ MAX_BODY_BYTES

/-! ### Searching -/

theorem findSubsequence_isSome {needle : Bytes} (hne : needle ≠ []) (haystack : Bytes) :
  (findSubsequence needle haystack).isSome = true ↔ needle <:+: haystack
  := by
  induction haystack with
  | nil =>
    rw [findSubsequence, List.infix_nil]
    simp [hne]
  | cons b haystack ih =>
    rw [findSubsequence, List.infix_cons_iff, ← ih]
    split
    · rename_i hbegins
      simp [List.isPrefixOf_iff_prefix.mp hbegins]
    · rename_i hbegins
      rw [List.isPrefixOf_iff_prefix] at hbegins
      simp [hbegins]

theorem endsChunkedBody_iff (buf : Bytes) :
  endsChunkedBody buf = true ↔ LooksEnded buf
  := by
  rw [endsChunkedBody, Bool.or_eq_true, findSubsequence_isSome (by decide),
    List.isPrefixOf_iff_prefix]
  rfl

theorem findSubsequence_line {line : Bytes} (h : 0x0D ∉ line) (rest : Bytes) :
  findSubsequence crlf (line ++ crlf ++ rest) = some line.length
  := by
  induction line with
  | nil => rfl
  | cons b line ih =>
    rw [List.mem_cons, not_or] at h
    have hnot : crlf.isPrefixOf (b :: (line ++ crlf ++ rest)) = false := by
      rw [← Bool.not_eq_true, List.isPrefixOf_iff_prefix]
      intro hbegins
      exact h.1 (List.cons_prefix_cons.mp hbegins).1
    rw [List.cons_append, List.cons_append, findSubsequence, hnot, ih h.2]
    rfl

/-! ### Decoding -/

namespace SizeLine

variable (line : SizeLine)

theorem digit_or_blank {c : Char} (h : c ∈ line.digits ++ line.padding) :
  isHexDigit c = true ∨ c = ' ' ∨ c = '\t'
  := by
  rcases List.mem_append.mp h with h | h
  · exact .inl (List.all_eq_true.mp line.digits_hex c h)
  · exact .inr (line.padding_blank c h)

theorem not_mem_encode {d : Char} (hd : d ∈ ['\r', '\n', ';']) :
  UInt8.ofNat d.toNat ∉ encode (line.digits ++ line.padding)
  := by
  intro hmem
  have hall : (['\r', '\n', ';'].all fun d =>
      d.toNat < 0x80 && !isHexDigit d && d ≠ ' ' && d ≠ '\t') = true := by decide
  have hother := List.all_eq_true.mp hall d hd
  simp only [Bool.and_eq_true, Bool.not_eq_true', decide_eq_true_eq, and_assoc] at hother
  obtain ⟨hsmall, hother⟩ := hother
  rcases line.digit_or_blank (mem_of_mem_encode hsmall hmem) with hdigit | hblank | htab
  · rw [hother.1] at hdigit
    cases hdigit
  · exact hother.2.1 hblank
  · exact hother.2.2 htab

theorem not_mem_bytes {d : Char} (hd : d ∈ ['\r', '\n']) :
  UInt8.ofNat d.toNat ∉ line.bytes
  := by
  rw [bytes, List.mem_append, not_or]
  constructor
  · apply line.not_mem_encode
    exact List.mem_append_left [';'] hd
  · split
    · rename_i e he
      obtain ⟨hcr, hlf⟩ := line.extension_line e he
      simp only [List.mem_cons, List.not_mem_nil, or_false] at hd
      rcases hd with rfl | rfl
      · simpa using hcr
      · simpa using hlf
    · exact List.not_mem_nil

theorem takeWhile_bytes :
  line.bytes.takeWhile (· ≠ 0x3B) = encode (line.digits ++ line.padding)
  := by
  have hall : ∀ b ∈ encode (line.digits ++ line.padding), decide (b ≠ 0x3B) = true := by
    intro b hb
    apply decide_eq_true
    rintro rfl
    exact line.not_mem_encode (d := ';') (by decide) hb
  rw [bytes, List.takeWhile_append_of_pos hall]
  split
  · simp
  · simp

theorem parse_bytes (h : line.size < 2 ^ 64) :
  fromStrRadix16 (2 ^ 64) (trim (fromUtf8Lossy (line.bytes.takeWhile (· ≠ 0x3B))))
    = some line.size
  := by
  have hpadding : ∀ c ∈ line.padding, isWhitespace c := by
    intro c hc
    rcases line.padding_blank c hc with rfl | rfl <;> decide
  have hdigits : ∀ c ∈ line.digits, isWhitespace c = false := by
    intro c hc
    exact isWhitespace_of_isHexDigit (List.all_eq_true.mp line.digits_hex c hc)
  rw [takeWhile_bytes, fromUtf8Lossy_encode, trim_append_blank hpadding, trim_of_visible hdigits,
    fromStrRadix16_digits line.digits_ne_nil line.digits_hex h]
  rfl

theorem exists_cons :
  ∃ b bytes, line.bytes = b :: bytes
  := by
  apply List.exists_cons_of_ne_nil
  intro hnil
  have hencode := congrArg fromUtf8Lossy (List.append_eq_nil_iff.mp hnil).1
  rw [fromUtf8Lossy_encode] at hencode
  exact line.digits_ne_nil (List.append_eq_nil_iff.mp hencode).1

end SizeLine

theorem SizeLine.findSubsequence_bytes (line : SizeLine) (rest : Bytes) :
  findSubsequence crlf (line.bytes ++ crlf ++ rest) = some line.bytes.length
  := findSubsequence_line (line.not_mem_bytes (d := '\r') (by decide)) rest

theorem reads_chunk (chunk : Chunk) (rest : Bytes) :
  Reads chunkTurn () (chunk.bytes ++ rest) rest () chunk.data
  := by
  obtain ⟨b, bytes, hline⟩ := chunk.line.exists_cons
  have hsize : chunk.line.size < 2 ^ 64 := by
    rw [chunk.size]
    exact chunk.short
  have hfind := chunk.line.findSubsequence_bytes (chunk.data ++ crlf ++ rest)
  have hparse := chunk.line.parse_bytes hsize
  rw [chunk.size] at hparse
  have hsplit : chunk.bytes ++ rest = b :: ((bytes ++ crlf ++ chunk.data ++ crlf) ++ rest) := by
    rw [Chunk.bytes, hline]
    rfl
  have hbuf : b :: ((bytes ++ crlf ++ chunk.data ++ crlf) ++ rest)
      = chunk.line.bytes ++ crlf ++ (chunk.data ++ crlf ++ rest) := by
    rw [hline]
    simp
  have hlen : chunk.data.length ≠ 0 := by
    rw [Ne, List.length_eq_zero_iff]
    exact chunk.data_ne_nil
  rw [hsplit]
  apply Reads.skipping (k := chunk.line.bytes.length + 1 + chunk.data.length + 2)
  · rw [chunkTurn, hbuf, hfind]
    have hdrop : (chunk.line.bytes ++ crlf ++ (chunk.data ++ crlf ++ rest)).drop
        (chunk.line.bytes.length + 2) = chunk.data ++ (crlf ++ rest) := by
      rw [List.append_assoc chunk.data]
      exact List.drop_left' (by simp [crlf])
    dsimp only
    rw [hdrop, List.append_assoc, List.take_left, hparse]
    dsimp only
    rw [if_neg hlen, if_neg (by simp), List.drop_left, List.take_left]
    rfl
  · rw [hline]
    simp only [crlf, List.length_append, List.length_cons, List.length_nil]

theorem loop_last {last : SizeLine} (hzero : last.size = 0) (rest : Bytes) :
  loop chunkTurn id 0 () (last.bytes ++ crlf ++ rest) = ([], ())
  := by
  obtain ⟨b, bytes, hline⟩ := last.exists_cons
  have hfind := last.findSubsequence_bytes rest
  have hparse := last.parse_bytes (by rw [hzero]; decide)
  rw [hzero] at hparse
  have hsplit : last.bytes ++ crlf ++ rest = b :: (bytes ++ crlf ++ rest) := by
    rw [hline]
    rfl
  have hstop : chunkTurn () b (bytes ++ crlf ++ rest) = .stop () := by
    rw [chunkTurn, ← hsplit, hfind]
    dsimp only
    rw [List.append_assoc, List.take_left, hparse]
    rfl
  rw [hsplit, loop_stop hstop]

theorem reads_chunks (chunks : List Chunk) (rest : Bytes) :
  Reads chunkTurn () (chunks.flatMap Chunk.bytes ++ rest) rest () (chunks.flatMap Chunk.data)
  := by
  induction chunks with
  | nil => apply Reads.refl
  | cons chunk chunks ih =>
    rw [List.flatMap_cons, List.flatMap_cons, List.append_assoc]
    exact (reads_chunk chunk _).trans ih

variable {reads : List Bytes} {closed : Bool} {m : Message}

theorem decodeChunked_front {buf : Bytes} (h : m.front <+: buf) :
  decodeChunked buf = m.body
  := by
  obtain ⟨rest, rfl⟩ := h
  have hreads : Reads chunkTurn () (m.front ++ rest) (m.last.bytes ++ crlf ++ rest) () m.body := by
    have hfront : m.front ++ rest = m.chunks.flatMap Chunk.bytes ++ (m.last.bytes ++ crlf ++ rest)
        := by
      rw [Message.front]
      simp
    rw [hfront, Message.body]
    apply reads_chunks
  rw [decodeChunked, hreads.loop_eq, loop_last m.last_zero, List.append_nil]

/-! ### Reading -/

/-- After so many reads the bytes look as if the last chunk had arrived, or there is nothing more;
they did not before, and no read brought too many. -/
def StopsAfter (closed : Bool) (body : Bytes) (reads : List Bytes) (k : ℕ) : Prop :=
  k ≤ reads.length
    ∧ (LooksEnded (body ++ (reads.take k).flatten) ∨ k = reads.length ∧ closed = true)
    ∧ ∀ j < k, ¬ LooksEnded (body ++ (reads.take j).flatten)
      ∧ (body ++ (reads.take (j + 1)).flatten).length ≤ MAX_BODY_BYTES

theorem stopsAfter_zero {body : Bytes} :
  StopsAfter closed body reads 0 ↔ LooksEnded body ∨ reads = [] ∧ closed = true
  := by
  simp [StopsAfter, eq_comm]

theorem stopsAfter_succ {body read : Bytes} {k : ℕ} :
  StopsAfter closed body (read :: reads) (k + 1)
    ↔ ¬ LooksEnded body ∧ (body ++ read).length ≤ MAX_BODY_BYTES
      ∧ StopsAfter closed (body ++ read) reads k
  := by
  have hupTo (j : ℕ) : body ++ ((read :: reads).take (j + 1)).flatten
      = body ++ read ++ (reads.take j).flatten := by
    rw [List.take_succ_cons, List.flatten_cons, List.append_assoc]
  simp only [StopsAfter, List.length_cons, Nat.add_le_add_iff_right, hupTo,
    Nat.add_right_cancel_iff]
  constructor
  · rintro ⟨hk, hstop, hbefore⟩
    obtain ⟨hnot, hlength⟩ := hbefore 0 (Nat.zero_lt_succ k)
    refine ⟨by simpa using hnot, by simpa using hlength, hk, hstop, ?_⟩
    intro j hj
    have hnext := hbefore (j + 1) (Nat.succ_lt_succ hj)
    rwa [hupTo] at hnext
  · rintro ⟨hnot, hlength, hk, hstop, hbefore⟩
    refine ⟨hk, hstop, ?_⟩
    intro j hj
    cases j with
    | zero => exact ⟨by simpa using hnot, by simpa using hlength⟩
    | succ j =>
      rw [hupTo]
      exact hbefore j (Nat.lt_of_succ_lt_succ hj)

/-- What the loop decodes is what was read when it stops. -/
theorem readLoop_decoded {body buf out : Bytes} :
  readLoop closed body reads = .decoded buf out
    ↔ out = decodeChunked buf
      ∧ ∃ k, StopsAfter closed body reads k ∧ buf = body ++ (reads.take k).flatten
  := by
  induction reads generalizing body with
  | nil =>
    rw [readLoop]
    split
    · rename_i hends
      rw [Bool.or_eq_true, endsChunkedBody_iff] at hends
      constructor
      · intro h
        cases h
        exact ⟨rfl, 0, stopsAfter_zero.mpr (hends.imp_right fun h => ⟨rfl, h⟩), by simp⟩
      · rintro ⟨rfl, k, -, rfl⟩
        simp
    · rename_i hends
      rw [Bool.or_eq_true, endsChunkedBody_iff] at hends
      constructor
      · intro h
        cases h
      · rintro ⟨-, k, hstop, -⟩
        obtain rfl : k = 0 := Nat.le_zero.mp hstop.1
        exact absurd ((stopsAfter_zero.mp hstop).imp_right And.right) hends
  | cons read reads ih =>
    rw [readLoop]
    split
    · rename_i hends
      rw [endsChunkedBody_iff] at hends
      constructor
      · intro h
        cases h
        exact ⟨rfl, 0, stopsAfter_zero.mpr (.inl hends), by simp⟩
      · rintro ⟨rfl, k, hstop, rfl⟩
        cases k with
        | zero => simp
        | succ k => exact absurd hends (stopsAfter_succ.mp hstop).1
    · rename_i hends
      rw [endsChunkedBody_iff] at hends
      have hnot : ¬ StopsAfter closed body (read :: reads) 0 := by
        rw [stopsAfter_zero]
        simp [hends]
      split
      · rename_i hlarge
        constructor
        · intro h
          cases h
        · rintro ⟨-, k, hstop, -⟩
          cases k with
          | zero => exact absurd hstop hnot
          | succ k => exact absurd (stopsAfter_succ.mp hstop).2.1 (Nat.not_le.mpr hlarge)
      · rename_i hsmall
        rw [ih]
        constructor
        · rintro ⟨rfl, k, hstop, rfl⟩
          refine ⟨rfl, k + 1, stopsAfter_succ.mpr ⟨hends, Nat.not_lt.mp hsmall, hstop⟩, ?_⟩
          simp
        · rintro ⟨rfl, k, hstop, rfl⟩
          cases k with
          | zero => exact absurd hstop hnot
          | succ k => exact ⟨rfl, k, (stopsAfter_succ.mp hstop).2.2, by simp⟩

theorem arrivesWhole_iff (m : Message) (a : Arrival) :
  ArrivesWhole m a ↔ EndsInTime m a
  := by
  constructor
  · rintro ⟨buf, hfront, hread⟩
    obtain ⟨-, k, ⟨hk, hstop, hbefore⟩, rfl⟩ := readLoop_decoded.mp hread
    exact ⟨k, hk, hfront, hstop, hbefore⟩
  · rintro ⟨k, hk, hfront, hstop, hbefore⟩
    use a.upTo k, hfront
    apply readLoop_decoded.mpr
    exact ⟨(decodeChunked_front hfront).symm, k, ⟨hk, hstop, hbefore⟩, rfl⟩

/-! ### Messages that arrive whole -/

theorem LooksEnded.mono {buf buf' : Bytes} (h : LooksEnded buf) (hbegins : buf <+: buf') :
  LooksEnded buf'
  := by
  rcases h with h | h
  · exact .inl (h.trans hbegins.isInfix)
  · exact .inr (h.trans hbegins)

namespace Message

variable (m : Message)

/-- The bytes do not look ended before the last chunk, which is a single digit, has arrived; and
they are not too many, or leave room for a read. -/
def IsPlain : Prop :=
  m.last.bytes = [0x30] ∧ ¬ LooksEnded m.front.dropLast
    ∧ (m.bytes.length ≤ MAX_BODY_BYTES ∨ m.front.length + 4095 ≤ MAX_BODY_BYTES)

theorem front_eq :
  m.front = m.front.dropLast ++ [0x0A]
  := by
  have hend : m.front = (m.chunks.flatMap Chunk.bytes ++ m.last.bytes ++ [0x0D]) ++ [0x0A] := by
    rw [front]
    simp [crlf]
  rw [hend, List.dropLast_concat]

theorem front_length_pos :
  0 < m.front.length
  := by
  rw [m.front_eq, List.length_append]
  simp

theorem front_looksEnded (h : m.last.bytes = [0x30]) :
  LooksEnded m.front
  := by
  rw [front, h]
  rcases List.eq_nil_or_concat m.chunks with hnil | ⟨chunks, chunk, hchunks⟩
  · rw [hnil]
    exact .inr (List.prefix_refl _)
  · left
    rw [hchunks, List.concat_eq_append, List.flatMap_append, List.flatMap_singleton, Chunk.bytes]
    use chunks.flatMap Chunk.bytes ++ (chunk.line.bytes ++ crlf ++ chunk.data), []
    simp

theorem not_infix_fields {trailer : List Bytes}
    (h : ∀ line ∈ trailer, 0x3A ∈ line ∧ 0x0D ∉ line ∧ 0x0A ∉ line) :
  ¬ [0x0A, 0x30, 0x0D, 0x0A] <:+: (0x0A : UInt8) :: (trailer.flatMap (· ++ crlf) ++ crlf)
  := by
  induction trailer with
  | nil => decide
  | cons line trailer ih =>
    obtain ⟨⟨hcolon, hcr, hlf⟩, hrest⟩ := List.forall_mem_cons.mp h
    intro hinside
    have hsplit : (line :: trailer).flatMap (· ++ crlf) ++ crlf
        = (line ++ [0x0D]) ++ 0x0A :: (trailer.flatMap (· ++ crlf) ++ crlf) := by
      simp [crlf]
    rw [hsplit] at hinside
    rcases List.infix_cons_iff.mp hinside with hbegins | hlater
    · have hstart := (List.cons_prefix_cons.mp hbegins).2
      match line, hcolon, hcr, hstart with
      | [b], hcolon, _, hstart =>
        have hb : 0x30 = b := (List.cons_prefix_cons.mp hstart).1
        rw [← hb] at hcolon
        exact absurd hcolon (by decide)
      | b :: c :: line, _, hcr, hstart =>
        have hc : 0x0D = c := (List.cons_prefix_cons.mp (List.cons_prefix_cons.mp hstart).2).1
        exact hcr (by rw [← hc]; simp)
    · have hnot : 0x0A ∉ line ++ [0x0D] := by
        simp [hlf]
      exact ih hrest (infix_of_head_not_mem hnot hlater)

theorem last_eq_of_suffix (h : crlf ++ [0x30] ++ crlf <:+ m.front) :
  m.last.bytes = [0x30]
  := by
  obtain ⟨before, hbefore⟩ := h
  have hlast : before ++ crlf ++ [0x30] = m.chunks.flatMap Chunk.bytes ++ m.last.bytes := by
    apply @List.append_cancel_right _ _ crlf
    rw [← front, ← hbefore]
    simp
  have hlf : 0x0A ∉ m.last.bytes := m.last.not_mem_bytes (d := '\n') (by decide)
  obtain ⟨b, bytes, hne⟩ := m.last.exists_cons
  obtain ⟨line, digit, hline⟩ : ∃ line digit, m.last.bytes = line ++ [digit] := by
    rcases List.eq_nil_or_concat m.last.bytes with hnil | ⟨line, digit, hline⟩
    · rw [hnil] at hne
      cases hne
    · exact ⟨line, digit, by rw [hline, List.concat_eq_append]⟩
  rw [hline, ← List.append_assoc] at hlast
  obtain ⟨hfront, hdigit⟩ := List.append_inj' hlast rfl
  obtain rfl : 0x30 = digit := List.head_eq_of_cons_eq hdigit
  rcases List.eq_nil_or_concat line with rfl | ⟨line', c, rfl⟩
  · exact hline
  · have hc : (before ++ crlf).getLast? = some c := by
      rw [hfront, List.concat_eq_append, ← List.append_assoc, List.getLast?_concat]
    have hcrlf : (before ++ crlf).getLast? = some 0x0A := by
      have happend : before ++ crlf = before ++ [0x0D] ++ [0x0A] := by
        simp [crlf]
      rw [happend, List.getLast?_concat]
    rw [hcrlf, Option.some_inj] at hc
    subst hc
    apply absurd _ hlf
    rw [hline]
    simp

/-- If the bytes do not look ended before the last chunk has arrived, but do so later, the last
chunk is written as a single digit. -/
theorem last_eq (hbefore : ¬ LooksEnded m.front.dropLast) (h : LooksEnded m.bytes) :
  m.last.bytes = [0x30]
  := by
  have hnot : ¬ crlf ++ [0x30] ++ crlf <:+: m.tail := by
    intro htail
    apply not_infix_fields m.trailer_field
    apply List.infix_cons
    exact (List.suffix_cons 0x0D _).isInfix.trans htail
  rcases h with hinside | hbegins
  · rw [bytes] at hinside
    rcases List.infix_append_iff.mp hinside with hfront | htail | ⟨s, t, hsplit, hs, ht⟩
    · rw [front_eq] at hfront
      rcases List.infix_concat_iff.mp hfront with hsuffix | hearly
      · rw [← front_eq] at hsuffix
        exact m.last_eq_of_suffix hsuffix
      · exact absurd (.inl hearly) hbefore
    · exact absurd htail hnot
    · have hcut : s = (crlf ++ [0x30] ++ crlf).take s.length := by
        rw [hsplit, List.take_left]
      have hrest : t = (crlf ++ [0x30] ++ crlf).drop s.length := by
        rw [hsplit, List.drop_left]
      have hlength : s.length ≤ 5 := by
        have hsum : 5 = s.length + t.length := by
          rw [← List.length_append, ← hsplit]
          rfl
        omega
      -- The part in the front is empty, or it ends with a line feed.
      have hcases : ∀ n ≤ 5, (crlf ++ [0x30] ++ crlf).take n = []
          ∨ ((crlf ++ [0x30] ++ crlf).take n).getLast? ≠ some 0x0A ∨ n = 2 ∨ n = 5 := by
        decide
      have hend : s = [] ∨ s.getLast? = some 0x0A := by
        rw [front_eq] at hs
        rcases List.suffix_concat_iff.mp hs with hnil | ⟨s, rfl, -⟩
        · exact .inl hnil
        · exact .inr (List.getLast?_concat)
      rcases hcases s.length hlength with hnil | hother | htwo | hfive
      · rw [← hcut] at hnil
        rw [hsplit, hnil] at hnot
        exact absurd ht.isInfix hnot
      · rw [← hcut] at hother
        rcases hend with hnil | hend
        · rw [hsplit, hnil] at hnot
          exact absurd ht.isInfix hnot
        · exact absurd hend hother
      · rw [hrest, htwo] at ht
        apply absurd _ (not_infix_fields m.trailer_field)
        exact (List.cons_prefix_cons.mpr ⟨rfl, ht⟩).isInfix
      · rw [hcut, hfive] at hs
        exact m.last_eq_of_suffix hs
  · rw [bytes] at hbegins
    obtain ⟨b, bytes, hline⟩ := m.last.exists_cons
    have hlong : m.front.length ≤ 3 := by
      by_contra hlong
      apply hbefore
      right
      have hfront : m.front.dropLast <+: m.front ++ m.tail :=
        (List.dropLast_prefix _).trans (List.prefix_append _ _)
      apply List.prefix_of_prefix_length_le hbegins hfront
      rw [List.length_dropLast]
      change 3 ≤ _
      omega
    rw [front, hline] at hlong
    simp only [List.length_append, List.length_cons] at hlong
    have hnil : m.chunks.flatMap Chunk.bytes = [] ∧ bytes = [] := by
      rw [← List.length_eq_zero_iff, ← List.length_eq_zero_iff]
      change _ + _ + 2 ≤ 3 at hlong
      omega
    rw [front, hline, hnil.1, hnil.2] at hbegins
    have hb : 0x30 = b := (List.cons_prefix_cons.mp hbegins).1
    rw [hline, hnil.2, ← hb]

end Message

theorem Arrival.upTo_prefix (a : Arrival) {j k : ℕ} (h : j ≤ k) :
  a.upTo j <+: a.upTo k
  := by
  obtain ⟨more, rfl⟩ := Nat.exists_eq_add_of_le h
  rw [upTo, upTo, List.take_add, List.flatten_append, ← List.append_assoc]
  apply List.prefix_append

theorem Arrival.upTo_length (a : Arrival) :
  a.upTo a.reads.length = a.bytes
  := by
  rw [upTo, List.take_length, bytes]

theorem Arrival.length_upTo_succ (a : Arrival) (k : ℕ) :
  (a.upTo (k + 1)).length ≤ (a.upTo k).length + 4096
  := by
  rw [upTo, upTo, List.take_add_one, List.flatten_append, ← List.append_assoc, List.length_append]
  cases hread : a.reads[k]? with
  | none => simp
  | some read =>
    have hsize := (a.read_size read (List.mem_of_getElem? hread)).2
    simpa using hsize

theorem Message.IsPlain.endsInTime (h : m.IsPlain) {a : Arrival} (ha : a.bytes = m.bytes) :
  EndsInTime m a
  := by
  classical
  obtain ⟨hlast, hbefore, hsize⟩ := h
  have hbytes : m.front <+: m.bytes := List.prefix_append _ _
  have hexists : ∃ k, m.front <+: a.upTo k := by
    use a.reads.length
    rwa [a.upTo_length, ha]
  have hall : ∀ k ≤ a.reads.length, a.upTo k <+: m.bytes := by
    intro k hk
    rw [← ha, ← a.upTo_length]
    exact a.upTo_prefix hk
  have hle : Nat.find hexists ≤ a.reads.length := by
    apply Nat.find_min'
    rwa [a.upTo_length, ha]
  refine ⟨Nat.find hexists, hle, Nat.find_spec hexists,
    .inl ((m.front_looksEnded hlast).mono (Nat.find_spec hexists)), ?_⟩
  intro j hj
  have hnot := Nat.find_min hexists hj
  have hshort : (a.upTo j).length ≤ m.front.length - 1 := by
    by_contra hlong
    apply hnot
    apply List.prefix_of_prefix_length_le hbytes (hall j (by omega))
    omega
  constructor
  · intro hlooks
    apply hbefore
    apply hlooks.mono
    apply List.prefix_of_prefix_length_le (hall j (by omega))
      ((List.dropLast_prefix _).trans hbytes)
    rwa [List.length_dropLast]
  · have hread := a.length_upTo_succ j
    have hfew := (hall (j + 1) (by omega)).length_le
    have hpos := m.front_length_pos
    rcases hsize with hsize | hsize
    · omega
    · omega

/-- The arrival of one byte after the other up to the last chunk, with as many more as fit in a
read. -/
def Message.slowly (m : Message) : Arrival where
  initial := []
  reads := m.front.dropLast.map ([·])
    ++ (m.bytes.drop (m.front.length - 1)).take 4096
    :: (m.bytes.drop (m.front.length + 4095)).map ([·])
  closed := false
  initial_size := by decide
  read_size := by
    have hsingle (bytes : Bytes) : ∀ read ∈ bytes.map ([·]), 0 < read.length ∧ read.length ≤ 4096
        := by
      intro read hread
      obtain ⟨b, -, rfl⟩ := List.mem_map.mp hread
      simp
    intro read hread
    rcases List.mem_append.mp hread with hread | hread
    · exact hsingle _ read hread
    · rcases List.mem_cons.mp hread with rfl | hread
      · have hpos := m.front_length_pos
        rw [List.length_take, List.length_drop, Message.bytes, List.length_append]
        omega
      · exact hsingle _ read hread

theorem flatten_singles (bytes : Bytes) :
  (bytes.map ([·])).flatten = bytes
  := by
  induction bytes with
  | nil => rfl
  | cons b bytes ih => rw [List.map_cons, List.flatten_cons, ih, List.singleton_append]

theorem Message.slowly_bytes (m : Message) :
  m.slowly.bytes = m.bytes
  := by
  have hrest : (m.bytes.drop (m.front.length - 1)).take 4096
      ++ m.bytes.drop (m.front.length + 4095) = m.bytes.drop (m.front.length - 1) := by
    have hpos := m.front_length_pos
    have hdrop : m.front.length + 4095 = m.front.length - 1 + 4096 := by omega
    rw [hdrop, ← List.drop_drop, List.take_append_drop]
  have hfront : m.front.dropLast = m.bytes.take (m.front.length - 1) := by
    rw [List.dropLast_eq_take, Message.bytes, List.take_append_of_le_length (Nat.sub_le _ _)]
  change [] ++ (m.front.dropLast.map ([·]) ++ _ :: List.map ([·]) _).flatten = _
  rw [List.nil_append, List.flatten_append, List.flatten_cons, flatten_singles, flatten_singles,
    hrest, hfront, List.take_append_drop]

theorem Message.slowly_upTo (m : Message) :
  m.slowly.upTo (m.front.length - 1) = m.front.dropLast
    ∧ m.slowly.upTo (m.front.length - 1 + 1)
      = m.front.dropLast ++ (m.bytes.drop (m.front.length - 1)).take 4096
  := by
  have hlength : (m.front.dropLast.map fun b => [b]).length = m.front.length - 1 := by
    rw [List.length_map, List.length_dropLast]
  have htake : m.slowly.reads.take (m.front.length - 1) = m.front.dropLast.map ([·]) :=
    List.take_left' hlength
  constructor
  · rw [Arrival.upTo, htake, flatten_singles]
    rfl
  · have hnext : m.slowly.reads[m.front.length - 1]?
        = some ((m.bytes.drop (m.front.length - 1)).take 4096) := by
      rw [slowly, List.getElem?_append_right hlength.le, hlength, Nat.sub_self]
      rfl
    rw [Arrival.upTo, List.take_add_one, htake, hnext, List.flatten_append, flatten_singles]
    simp [slowly]

theorem Message.isPlain_of_slowly (h : EndsInTime m m.slowly) :
  m.IsPlain
  := by
  obtain ⟨k, hk, hfront, hlooks, hbefore⟩ := h
  obtain ⟨hdropLast, hnext⟩ := m.slowly_upTo
  have hpos := m.front_length_pos
  have hlate : m.front.length - 1 < k := by
    by_contra hearly
    have hlength := (hfront.trans (m.slowly.upTo_prefix (Nat.not_lt.mp hearly))).length_le
    rw [hdropLast, List.length_dropLast] at hlength
    omega
  obtain ⟨hnot, hsize⟩ := hbefore (m.front.length - 1) hlate
  rw [hdropLast] at hnot
  rw [hnext, List.length_append, List.length_dropLast, List.length_take, List.length_drop] at hsize
  refine ⟨?_, hnot, by omega⟩
  apply m.last_eq hnot
  rcases hlooks with hlooks | ⟨-, hclosed⟩
  · apply hlooks.mono
    rw [← m.slowly_bytes, ← Arrival.upTo_length]
    exact m.slowly.upTo_prefix hk
  · cases hclosed

/-- A message arrives whole, however it arrives, exactly if it is plain. -/
theorem arrivesWhole_forall_iff (m : Message) :
  (∀ a : Arrival, a.bytes = m.bytes → ArrivesWhole m a) ↔ m.IsPlain
  := by
  constructor
  · intro h
    exact Message.isPlain_of_slowly ((arrivesWhole_iff m _).mp (h m.slowly m.slowly_bytes))
  · intro h a ha
    exact (arrivesWhole_iff m a).mpr (h.endsInTime ha)

def digitLine (digit : Char) (h : isHexDigit digit = true) : SizeLine where
  digits := [digit]
  padding := []
  extension := none
  digits_ne_nil := List.cons_ne_nil digit []
  digits_hex := by simp [h]
  padding_blank := by simp
  padding_extension := by simp
  extension_line := by simp

/-- A body with a zero on a line of its own, in one chunk. -/
def zeroLine : Message where
  chunks :=
    [{ line := digitLine '7' (by decide)
       data := encode "a\r\n0\r\nb"
       data_ne_nil := by decide
       size := by decide
       short := by decide }]
  last := digitLine '0' (by decide)
  last_zero := by decide
  trailer := []
  trailer_field := by simp

/-- The body arrives in two reads, the first of which ends behind the zero. -/
def inTwoReads : Arrival where
  initial := []
  reads := [encode "7\r\na\r\n0\r\n", encode "b\r\n0\r\n\r\n"]
  closed := false
  initial_size := by decide
  read_size := by decide

/-- The body is taken to have ended behind the zero. -/
theorem zeroLine_truncated :
  inTwoReads.bytes = zeroLine.bytes ∧ zeroLine.body = encode "a\r\n0\r\nb"
    ∧ readChunked inTwoReads = .decoded (encode "7\r\na\r\n0\r\n") (encode "a\r\n0\r\n")
    ∧ ¬ ArrivesWhole zeroLine inTwoReads
  := by
  have hread : readChunked inTwoReads
      = .decoded (encode "7\r\na\r\n0\r\n") (encode "a\r\n0\r\n") := by
    decide
  refine ⟨by decide, by decide, hread, ?_⟩
  rintro ⟨buf, -, hwhole⟩
  rw [hread] at hwhole
  have hbody : encode "a\r\n0\r\n" = zeroLine.body := (Outcome.decoded.inj hwhole).2
  revert hbody
  decide

end Mcp
