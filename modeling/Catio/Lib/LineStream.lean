import Catio.Lib.Result
import Catio.Lib.Utf8

/-!
# Decoders of lines

A decoder takes a stream in chunks of bytes, keeps the bytes of a line until its end is there, and
handles what is behind the last end when the stream has ended; what is emitted then is lost.  What
is emitted before an error depends on the chunks, and nothing else does (`independent_iff`).  A
decoder is faithful to a body if chunks and ends of lines do not matter, and it emits the text of
its result (`faithful_iff`).
-/

namespace LineStream

/-! ### What is emitted -/

/-- What is emitted, and a result or an error behind it. -/
@[ext]
structure Emits (δ ε α : Type) where
  emitted : List δ
  result : Except ε α

section

variable {δ ε α β γ : Type}

/-- Nothing is emitted. -/
def Emits.nothing (a : α) : Emits δ ε α :=
  ⟨[], .ok a⟩

/-- One after the other. -/
def Emits.bind (m : Emits δ ε α) (f : α → Emits δ ε β) : Emits δ ε β :=
  match m.result with
  | .ok a => ⟨m.emitted ++ (f a).emitted, (f a).result⟩
  | .error e => ⟨m.emitted, .error e⟩

/-- All of it, or an error. -/
def Emits.whole (m : Emits δ ε α) : Except ε (α × List δ) :=
  m.result.map fun a => (a, m.emitted)

/-- What is emitted by all or nothing. -/
def Emits.of (r : Except ε (α × List δ)) : Emits δ ε α :=
  match r with
  | .ok (a, emitted) => ⟨emitted, .ok a⟩
  | .error e => ⟨[], .error e⟩

theorem Emits.bind_ok {m : Emits δ ε α} {a : α} (h : m.result = .ok a) (f : α → Emits δ ε β) :
  m.bind f = ⟨m.emitted ++ (f a).emitted, (f a).result⟩
  := by
  rw [bind, h]

theorem Emits.bind_error {m : Emits δ ε α} {e : ε} (h : m.result = .error e) (f : α → Emits δ ε β) :
  m.bind f = ⟨m.emitted, .error e⟩
  := by
  rw [bind, h]

@[simp]
theorem Emits.nothing_bind (a : α) (f : α → Emits δ ε β) :
  (nothing a).bind f = f a
  := rfl

@[simp]
theorem Emits.bind_nothing (m : Emits δ ε α) :
  m.bind nothing = m
  := by
  cases h : m.result with
  | ok a =>
    rw [bind_ok h]
    ext1
    · apply List.append_nil
    · exact h.symm
  | error e =>
    rw [bind_error h, ← h]

theorem Emits.bind_assoc (m : Emits δ ε α) (f : α → Emits δ ε β) (g : β → Emits δ ε γ) :
  (m.bind f).bind g = m.bind fun a => (f a).bind g
  := by
  cases h : m.result with
  | error e =>
    rw [bind_error h, bind_error h]
    rfl
  | ok a =>
    rw [bind_ok h, bind_ok h]
    cases hf : (f a).result with
    | error e =>
      rw [bind_error rfl, bind_error hf]
    | ok b =>
      rw [bind_ok rfl, bind_ok hf]
      ext1
      · apply List.append_assoc
      · rfl

@[simp]
theorem Emits.whole_nothing (a : α) :
  (nothing a : Emits δ ε α).whole = .ok (a, [])
  := rfl

end

/-! ### Decoders -/

/-- The line feed. -/
def LF : UInt8 := 0x0A

/-- The carriage return. -/
def CR : UInt8 := 0x0D

/-- A decoder: its state at the start, what it does with a line, and what it makes of the state in
the end. -/
structure Decoder (σ δ ε ρ : Type) where
  start : σ
  handleLine : σ → Bytes → Except ε (σ × List δ)
  assemble : σ → Except ε ρ

/-- The state between two bytes: the bytes of a line that has not ended, and the state. -/
@[ext]
structure Buffered (σ : Type) where
  lineBuffer : Bytes
  state : σ

variable {σ δ ε ρ : Type}

namespace Decoder

variable (D : Decoder σ δ ε ρ)

/-- A line at its end: an empty one is skipped. -/
def line (s : σ) (l : Bytes) : Except ε (σ × List δ) :=
  if l = [] then .ok (s, []) else D.handleLine s l

theorem line_eq {s : σ} (h : D.handleLine s [] = .ok (s, [])) (l : Bytes) :
  D.line s l = D.handleLine s l
  := by
  rw [line]
  split
  · rename_i hnil
    rw [hnil, h]
  · rfl

/-- Feed the bytes of a chunk, behind what has been emitted of it. -/
def feedFrom (s : Buffered σ) (deltas : List δ) : Bytes → Except ε (Buffered σ × List δ)
  | [] => .ok (s, deltas)
  | byte :: bytes =>
      if byte = LF then
        match D.line s.state s.lineBuffer with
        | .ok (state, more) => feedFrom ⟨[], state⟩ (deltas ++ more) bytes
        | .error e => .error e
      else feedFrom ⟨s.lineBuffer ++ [byte], s.state⟩ deltas bytes

/-- Feed a chunk: what it emits is given if no line of it is refused. -/
def feed (s : Buffered σ) (bytes : Bytes) : Except ε (Buffered σ × List δ) :=
  D.feedFrom s [] bytes

/-- The end of the stream: a line that has not ended is handled, and what it emits is lost. -/
def finish (s : Buffered σ) : Except ε ρ :=
  match D.line s.state s.lineBuffer with
  | .ok (state, _) => D.assemble state
  | .error e => .error e

/-- Take the chunks of a stream, and give what each emits to the observer. -/
def roundFrom (s : Buffered σ) : List Bytes → Emits δ ε ρ
  | [] => ⟨[], D.finish s⟩
  | chunk :: chunks => (Emits.of (D.feed s chunk)).bind fun s => roundFrom s chunks

/-- Take the chunks of a stream from its start. -/
def round (chunks : List Bytes) : Emits δ ε ρ :=
  D.roundFrom ⟨[], D.start⟩ chunks

/-! ### Byte by byte, and line by line -/

/-- One byte. -/
def byte (s : Buffered σ) (b : UInt8) : Emits δ ε (Buffered σ) :=
  if b = LF then (Emits.of (D.line s.state s.lineBuffer)).bind fun state => .nothing ⟨[], state⟩
  else .nothing ⟨s.lineBuffer ++ [b], s.state⟩

/-- One byte after the other. -/
def through (s : Buffered σ) : Bytes → Emits δ ε (Buffered σ)
  | [] => .nothing s
  | b :: bytes => (D.byte s b).bind fun s => through s bytes

/-- One line after the other. -/
def handleLines (s : σ) : List Bytes → Emits δ ε σ
  | [] => .nothing s
  | l :: lines => (Emits.of (D.line s l)).bind fun s => handleLines s lines

theorem through_append (s : Buffered σ) (xs ys : Bytes) :
  D.through s (xs ++ ys) = (D.through s xs).bind fun s => D.through s ys
  := by
  induction xs generalizing s with
  | nil => rfl
  | cons x xs ih =>
    simp only [List.cons_append, through, Emits.bind_assoc, ih]

theorem handleLines_append (s : σ) (xs ys : List Bytes) :
  D.handleLines s (xs ++ ys) = (D.handleLines s xs).bind fun s => D.handleLines s ys
  := by
  induction xs generalizing s with
  | nil => rfl
  | cons x xs ih =>
    simp only [List.cons_append, handleLines, Emits.bind_assoc, ih]

theorem feedFrom_eq (s : Buffered σ) (deltas : List δ) (bytes : Bytes) :
  D.feedFrom s deltas bytes
    = (D.through s bytes).whole.map fun (s, more) => (s, deltas ++ more)
  := by
  induction bytes generalizing s deltas with
  | nil =>
    rw [feedFrom, through, Emits.whole_nothing]
    dsimp only [Except.map]
    rw [List.append_nil]
  | cons b bytes ih =>
    rw [feedFrom, through, byte]
    split
    · cases h : D.line s.state s.lineBuffer with
      | error e => rfl
      | ok r =>
        dsimp only [Emits.of]
        rw [Emits.bind_assoc, Emits.bind_ok rfl, Emits.nothing_bind, ih, Emits.whole,
          Emits.whole]
        cases (D.through ⟨[], r.1⟩ bytes).result with
        | error e => rfl
        | ok s' =>
          dsimp only [Except.map]
          rw [List.append_assoc]
    · rw [ih, Emits.nothing_bind]

theorem feed_eq (s : Buffered σ) (bytes : Bytes) :
  D.feed s bytes = (D.through s bytes).whole
  := by
  rw [feed, feedFrom_eq]
  cases (D.through s bytes).whole with
  | error e => rfl
  | ok r => rfl

/-! ### Chunks -/

theorem roundFrom_ok {s s' : Buffered σ} {chunks : List Bytes}
    (h : (D.through s chunks.flatten).result = .ok s') :
  D.roundFrom s chunks = ⟨(D.through s chunks.flatten).emitted, D.finish s'⟩
  := by
  induction chunks generalizing s with
  | nil =>
    obtain rfl := Except.ok.inj h
    rfl
  | cons chunk chunks ih =>
    rw [List.flatten_cons, through_append] at h ⊢
    rw [roundFrom, feed_eq, Emits.whole]
    cases hchunk : (D.through s chunk).result with
    | error e =>
      rw [Emits.bind_error hchunk] at h
      cases h
    | ok s₁ =>
      rw [Emits.bind_ok hchunk] at h ⊢
      rw [Except.map, Emits.of, Emits.bind_ok rfl, ih h]

theorem roundFrom_error {s : Buffered σ} {e : ε} {chunks : List Bytes}
    (h : (D.through s chunks.flatten).result = .error e) :
  ∃ given, given <+: (D.through s chunks.flatten).emitted
    ∧ D.roundFrom s chunks = ⟨given, .error e⟩
  := by
  induction chunks generalizing s with
  | nil => cases h
  | cons chunk chunks ih =>
    rw [List.flatten_cons, through_append] at h ⊢
    rw [roundFrom, feed_eq, Emits.whole]
    cases hchunk : (D.through s chunk).result with
    | error e' =>
      rw [Emits.bind_error hchunk] at h ⊢
      obtain rfl := Except.error.inj h
      use [], List.nil_prefix
      rfl
    | ok s₁ =>
      rw [Emits.bind_ok hchunk] at h ⊢
      obtain ⟨given, hprefix, hround⟩ := ih h
      use (D.through s chunk).emitted ++ given
      constructor
      · apply List.prefix_append_right_inj _ |>.mpr hprefix
      · rw [Except.map, Emits.of, Emits.bind_ok rfl, hround]

theorem roundFrom_bytes (s : Buffered σ) (bytes : Bytes) :
  D.roundFrom s (bytes.map fun b => [b])
    = (D.through s bytes).bind fun s => ⟨[], D.finish s⟩
  := by
  induction bytes generalizing s with
  | nil => rfl
  | cons b bytes ih =>
    have hone : D.through s [b] = D.byte s b := Emits.bind_nothing _
    have hbyte : Emits.of (D.byte s b).whole = D.byte s b := by
      rw [byte]
      split
      · cases D.line s.state s.lineBuffer with
        | error e => rfl
        | ok r =>
          ext1
          · rfl
          · rfl
      · rfl
    rw [List.map_cons, roundFrom, through, Emits.bind_assoc, feed_eq, hone, hbyte]
    congr 1
    funext s'
    apply ih

end Decoder

/-! ### Bodies -/

/-- The body of a response: its lines, and what stands behind the end of the last one. -/
structure Body where
  lines : List Bytes
  last : Bytes
  plain : ∀ l ∈ lines, LF ∉ l
  lastPlain : LF ∉ last

/-- The bytes of a body whose lines end with line feeds. -/
def Body.bytes (b : Body) : Bytes :=
  (b.lines.flatMap fun l => l ++ [LF]) ++ b.last

/-- The body with a carriage return before each of its line feeds. -/
def Body.crlf (b : Body) : Body where
  lines := b.lines.map fun l => l ++ [CR]
  last := b.last
  plain := by
    intro l hl
    obtain ⟨l', hl', rfl⟩ := List.mem_map.mp hl
    rw [List.mem_append, List.mem_singleton, not_or]
    exact ⟨b.plain l' hl', by decide⟩
  lastPlain := b.lastPlain

namespace Decoder

variable (D : Decoder σ δ ε ρ)

theorem through_part {l : Bytes} (h : LF ∉ l) (s : Buffered σ) :
  D.through s l = .nothing ⟨s.lineBuffer ++ l, s.state⟩
  := by
  induction l generalizing s with
  | nil =>
    rw [List.append_nil]
    rfl
  | cons b l ih =>
    rw [List.mem_cons, not_or] at h
    rw [through, byte, if_neg (Ne.symm h.1), Emits.nothing_bind, ih h.2, List.append_assoc]
    rfl

theorem through_lines (lines : List Bytes) (hplain : ∀ l ∈ lines, LF ∉ l) (s : σ) :
  D.through ⟨[], s⟩ (lines.flatMap fun l => l ++ [LF])
    = (D.handleLines s lines).bind fun s => .nothing ⟨[], s⟩
  := by
  induction lines generalizing s with
  | nil => rfl
  | cons l lines ih =>
    obtain ⟨hl, hlines⟩ := List.forall_mem_cons.mp hplain
    rw [List.flatMap_cons, through_append, through_append, through_part D hl,
      Emits.nothing_bind, List.nil_append, through, byte, if_pos rfl, handleLines,
      Emits.bind_assoc, Emits.bind_assoc, Emits.bind_assoc]
    congr 1
    funext s'
    exact ih hlines s'

theorem through_bytes (b : Body) (s : σ) :
  D.through ⟨[], s⟩ b.bytes = (D.handleLines s b.lines).bind fun s => .nothing ⟨b.last, s⟩
  := by
  rw [Body.bytes, through_append, through_lines D b.lines b.plain, Emits.bind_assoc]
  congr 1
  funext s'
  rw [Emits.nothing_bind, through_part D b.lastPlain, List.nil_append]

def lined (b : Body) : Emits δ ε σ :=
  D.handleLines D.start b.lines

/-- What a body gives, whatever the chunks are. -/
def outcome (b : Body) : Emits δ ε ρ :=
  (D.lined b).bind fun s => ⟨[], D.finish ⟨b.last, s⟩⟩

/-- Where a line is refused, nothing is emitted by the lines before it. -/
def Quiet (b : Body) : Prop :=
  ∀ e, (D.lined b).result = .error e → (D.lined b).emitted = []

theorem round_ok {b : Body} {s : σ} (h : (D.lined b).result = .ok s) {chunks : List Bytes}
    (hchunks : chunks.flatten = b.bytes) :
  D.round chunks = ⟨(D.lined b).emitted, D.finish ⟨b.last, s⟩⟩
  := by
  have hthrough := through_bytes D b D.start
  rw [← lined, Emits.bind_ok h, ← hchunks] at hthrough
  rw [round, roundFrom_ok D (congrArg Emits.result hthrough), hthrough]
  simp only [Emits.nothing, List.append_nil]

variable {refused special : Bytes → Prop} {b : Body} {lines : List Bytes}

theorem round_error {e : ε} (h : (D.lined b).result = .error e) {chunks : List Bytes}
    (hchunks : chunks.flatten = b.bytes) :
  ∃ given, given <+: (D.lined b).emitted ∧ D.round chunks = ⟨given, .error e⟩
  := by
  have hthrough := through_bytes D b D.start
  rw [← lined, Emits.bind_error h, ← hchunks] at hthrough
  have herror := roundFrom_error D (congrArg Emits.result hthrough)
  rwa [hthrough] at herror

theorem round_quiet (h : D.Quiet b) {chunks : List Bytes} (hchunks : chunks.flatten = b.bytes) :
  D.round chunks = D.outcome b
  := by
  cases hlined : (D.lined b).result with
  | ok s =>
    rw [round_ok D hlined hchunks, outcome, Emits.bind_ok hlined, List.append_nil]
  | error e =>
    obtain ⟨given, hprefix, hround⟩ := round_error D hlined hchunks
    rw [h e hlined, List.prefix_nil] at hprefix
    rw [hround, hprefix, outcome, Emits.bind_error hlined, h e hlined]

/-- **The chunks do not matter if and only if nothing is emitted before an error.** -/
theorem independent_iff (b : Body) :
  (∀ chunks chunks' : List Bytes, chunks.flatten = b.bytes → chunks'.flatten = b.bytes →
      D.round chunks = D.round chunks')
    ↔ D.Quiet b
  := by
  constructor
  · intro h e herror
    have hone : [b.bytes].flatten = b.bytes := List.flatten_singleton
    have hbytes : (b.bytes.map fun x => [x]).flatten = b.bytes := by
      rw [← List.flatMap_def, List.flatMap_singleton']
    have heq := congrArg Emits.emitted (h _ _ hone hbytes)
    rw [round, round, roundFrom_bytes, through_bytes, ← lined, Emits.bind_error herror,
      Emits.bind_error rfl, roundFrom, feed_eq, through_bytes, ← lined,
      Emits.bind_error herror] at heq
    exact heq.symm
  · intro h chunks chunks' hchunks hchunks'
    rw [round_quiet D h hchunks, round_quiet D h hchunks']

/-! ### Ends of lines -/

/-- The same is emitted, and the results are the same, or both are errors. -/
def Alike {α : Type} (m m' : Emits δ ε α) : Prop :=
  m.emitted = m'.emitted ∧ m.result.toOption = m'.result.toOption

theorem Alike.bind {α β : Type} {m m' : Emits δ ε α} (h : Alike m m') (f : α → Emits δ ε β) :
  Alike (m.bind f) (m'.bind f)
  := by
  obtain ⟨hemitted, hresult⟩ := h
  cases hm : m.result with
  | error e =>
    cases hm' : m'.result with
    | error e' =>
      rw [Emits.bind_error hm, Emits.bind_error hm']
      exact ⟨hemitted, rfl⟩
    | ok a' =>
      rw [hm, hm'] at hresult
      cases hresult
  | ok a =>
    cases hm' : m'.result with
    | error e' =>
      rw [hm, hm'] at hresult
      cases hresult
    | ok a' =>
      rw [hm, hm'] at hresult
      obtain rfl := Option.some.inj hresult
      rw [Emits.bind_ok hm, Emits.bind_ok hm', hemitted]
      exact ⟨rfl, rfl⟩

/-- A line is handled the same with a carriage return at its end. -/
def Steady (l : Bytes) : Prop :=
  ∀ s, (D.line s l).toOption = (D.line s (l ++ [CR])).toOption

/-- A decoder gives the same for a body whatever the chunks are and with carriage returns, and emits
the text of its result. -/
structure Faithful (spoken : δ → Text) (text : ρ → Text) (b : Body) : Prop where
  chunks : ∀ chunks chunks' : List Bytes, chunks.flatten = b.bytes → chunks'.flatten = b.bytes →
    D.round chunks = D.round chunks'
  chunksCrlf : ∀ chunks chunks' : List Bytes, chunks.flatten = b.crlf.bytes →
    chunks'.flatten = b.crlf.bytes → D.round chunks = D.round chunks'
  ends : ∀ chunks chunks' : List Bytes, chunks.flatten = b.bytes →
    chunks'.flatten = b.crlf.bytes → Alike (D.round chunks) (D.round chunks')
  text : ∀ (chunks : List Bytes) (r : ρ), chunks.flatten = b.bytes →
    (D.round chunks).result = .ok r → (D.round chunks).emitted.flatMap spoken = text r

/-- Which lines a decoder refuses does not depend on the state, and on a carriage return at the end
for special lines only. -/
structure Refuses (refused special : Bytes → Prop) : Prop where
  line : ∀ s l, (∃ e, D.line s l = .error e) ↔ refused l
  crlf : ∀ l, refused (l ++ [CR]) ↔ refused l ∨ special l
  steady : ∀ l, ¬ special l → D.Steady l

variable {D}

theorem handleLines_of_accepted (h : D.Refuses refused special)
    (haccepted : ∀ l ∈ lines, ¬ refused l) (s : σ) :
  ∃ s', (D.handleLines s lines).result = .ok s'
  := by
  induction lines generalizing s with
  | nil => exact ⟨s, rfl⟩
  | cons l lines ih =>
    obtain ⟨hl, hlines⟩ := List.forall_mem_cons.mp haccepted
    rw [handleLines]
    cases hline : D.line s l with
    | error e => exact absurd ((h.line s l).mp ⟨e, hline⟩) hl
    | ok r =>
      obtain ⟨s', hs'⟩ := ih hlines r.1
      use s'
      rw [Emits.of, Emits.bind_ok rfl, hs']

theorem handleLines_of_refused (h : D.Refuses refused special) {before : List Bytes} {l : Bytes}
    (haccepted : ∀ x ∈ before, ¬ refused x) (hl : refused l) (after : List Bytes) (s : σ) :
  ∃ e, D.handleLines s (before ++ l :: after) = ⟨(D.handleLines s before).emitted, .error e⟩
  := by
  obtain ⟨s', hs'⟩ := handleLines_of_accepted h haccepted s
  obtain ⟨e, he⟩ := (h.line s' l).mpr hl
  use e
  rw [handleLines_append, Emits.bind_ok hs', handleLines, he, Emits.of, Emits.bind_error rfl,
    List.append_nil]

theorem handleLines_prefix (before after : List Bytes) (s : σ) :
  (D.handleLines s before).emitted <+: (D.handleLines s (before ++ after)).emitted
  := by
  rw [handleLines_append]
  cases hresult : (D.handleLines s before).result with
  | error e =>
    simp only [Emits.bind_error hresult, List.prefix_refl]
  | ok s' =>
    rw [Emits.bind_ok hresult]
    apply List.prefix_append

theorem handleLines_steady (h : ∀ l ∈ lines, D.Steady l) (s : σ) :
  Alike (D.handleLines s lines) (D.handleLines s (lines.map fun l => l ++ [CR]))
  := by
  induction lines generalizing s with
  | nil => exact ⟨rfl, rfl⟩
  | cons l lines ih =>
    obtain ⟨hl, hlines⟩ := List.forall_mem_cons.mp h
    rw [List.map_cons, handleLines, handleLines]
    have heq := hl s
    cases hline : D.line s l with
    | error e =>
      rw [hline] at heq
      cases hline' : D.line s (l ++ [CR]) with
      | error e' => exact ⟨rfl, rfl⟩
      | ok r' =>
        rw [hline'] at heq
        cases heq
    | ok r =>
      rw [hline] at heq
      cases hline' : D.line s (l ++ [CR]) with
      | error e' =>
        rw [hline'] at heq
        cases heq
      | ok r' =>
        rw [hline'] at heq
        obtain rfl := Option.some.inj heq
        obtain ⟨hemitted, hresult⟩ := ih hlines r.1
        rw [Emits.of, Emits.bind_ok rfl, Emits.bind_ok rfl, hemitted]
        exact ⟨rfl, hresult⟩

theorem exists_first {refused : Bytes → Prop} (h : ∃ l ∈ lines, refused l) :
  ∃ before l after, lines = before ++ l :: after ∧ refused l ∧ ∀ x ∈ before, ¬ refused x
  := by
  classical
  obtain ⟨l, hl⟩ := Option.isSome_iff_exists.mp
    (List.find?_isSome.mpr (h.imp fun l ⟨hmem, hrefused⟩ => ⟨hmem, decide_eq_true hrefused⟩))
  obtain ⟨hrefused, before, after, hlines, hbefore⟩ := List.find?_eq_some_iff_append.mp hl
  use before, l, after, hlines, of_decide_eq_true hrefused
  intro x hx
  have hfalse := hbefore x hx
  rw [Bool.not_eq_true', decide_eq_false_iff_not] at hfalse
  exact hfalse

theorem quiet_iff (h : D.Refuses refused special) (b : Body) :
  D.Quiet b
    ↔ ∀ before l after, b.lines = before ++ l :: after → refused l → (∀ x ∈ before, ¬ refused x) →
        (D.handleLines D.start before).emitted = []
  := by
  constructor
  · intro hquiet before l after hlines hl hbefore
    obtain ⟨e, he⟩ := handleLines_of_refused h hbefore hl after D.start
    rw [← hlines, ← lined] at he
    have hnil := hquiet e (congrArg Emits.result he)
    rwa [he] at hnil
  · intro hfirst e he
    by_cases hrefused : ∃ l ∈ b.lines, refused l
    · obtain ⟨before, l, after, hlines, hl, hbefore⟩ := exists_first hrefused
      obtain ⟨e', he'⟩ := handleLines_of_refused h hbefore hl after D.start
      rw [lined, hlines, he']
      exact hfirst before l after hlines hl hbefore
    · push Not at hrefused
      obtain ⟨s, hs⟩ := handleLines_of_accepted h hrefused D.start
      rw [lined, hs] at he
      cases he

theorem faithful_of_outcome {spoken : δ → Text} {text : ρ → Text} :
  D.Faithful spoken text b
    ↔ D.Quiet b ∧ D.Quiet b.crlf ∧ Alike (D.outcome b) (D.outcome b.crlf)
      ∧ ∀ r, (D.outcome b).result = .ok r → (D.outcome b).emitted.flatMap spoken = text r
  := by
  have hone (b : Body) : [b.bytes].flatten = b.bytes := List.flatten_singleton
  constructor
  · intro h
    have hquiet := (independent_iff D b).mp h.chunks
    have hquietCrlf := (independent_iff D b.crlf).mp h.chunksCrlf
    rw [← round_quiet D hquiet (hone b), ← round_quiet D hquietCrlf (hone b.crlf)]
    exact ⟨hquiet, hquietCrlf, h.ends _ _ (hone b) (hone b.crlf), fun r => h.text _ r (hone b)⟩
  · rintro ⟨hquiet, hquietCrlf, hends, htext⟩
    constructor
    · exact (independent_iff D b).mpr hquiet
    · exact (independent_iff D b.crlf).mpr hquietCrlf
    · intro chunks chunks' hchunks hchunks'
      rwa [round_quiet D hquiet hchunks, round_quiet D hquietCrlf hchunks']
    · intro chunks r hchunks
      rw [round_quiet D hquiet hchunks]
      exact htext r

theorem outcome_emitted (b : Body) :
  (D.outcome b).emitted = (D.lined b).emitted
  := by
  cases hresult : (D.lined b).result with
  | error e => rw [outcome, Emits.bind_error hresult]
  | ok s => rw [outcome, Emits.bind_ok hresult, List.append_nil]

theorem outcome_result (b : Body) :
  (D.outcome b).result = (D.handleLines D.start (b.lines ++ [b.last])).result.bind D.assemble
  := by
  rw [handleLines_append, outcome, ← lined]
  cases hresult : (D.lined b).result with
  | error e =>
    rw [Emits.bind_error hresult, Emits.bind_error hresult]
    rfl
  | ok s =>
    rw [Emits.bind_ok hresult, Emits.bind_ok hresult, finish, handleLines]
    cases D.line s b.last with
    | error e => rfl
    | ok r => rfl

theorem lined_of_refused (h : D.Refuses refused special) (hrefused : ∃ l ∈ b.lines, refused l) :
  ∃ e, (D.lined b).result = .error e
  := by
  obtain ⟨before, l, after, hlines, hl, hbefore⟩ := exists_first hrefused
  obtain ⟨e, he⟩ := handleLines_of_refused h hbefore hl after D.start
  use e
  rw [lined, hlines, he]

theorem outcome_of_error {e : ε} (h : (D.lined b).result = .error e) :
  (D.outcome b).result.toOption = none
  := by
  rw [outcome, Emits.bind_error h]
  rfl

theorem Refuses.exists_crlf (h : D.Refuses refused special)
    (hl : ∃ l ∈ b.lines, refused l ∨ special l) :
  ∃ l ∈ b.crlf.lines, refused l
  := by
  obtain ⟨l, hmem, hl⟩ := hl
  use l ++ [CR], List.mem_map_of_mem hmem
  exact (h.crlf l).mpr hl

theorem Refuses.quiet_crlf (h : D.Refuses refused special)
    (hquiet : (∃ l ∈ b.lines, refused l ∨ special l) → (D.lined b).emitted = []) :
  D.Quiet b.crlf
  := by
  rw [quiet_iff h]
  intro before' l' after' hlines hl hbefore
  obtain ⟨before, rest, hsplit, rfl, hrest⟩ := List.map_eq_append_iff.mp hlines
  obtain ⟨l, after, rfl, rfl, rfl⟩ := List.map_eq_cons_iff.mp hrest
  have hsteady : ∀ x ∈ before, D.Steady x := by
    intro x hx
    have hx' := hbefore _ (List.mem_map_of_mem hx)
    rw [h.crlf, not_or] at hx'
    exact h.steady x hx'.2
  have hmem : l ∈ b.lines := by
    rw [hsplit]
    exact List.mem_append_right before List.mem_cons_self
  have hnil := hquiet ⟨l, hmem, (h.crlf l).mp hl⟩
  have hprefix := handleLines_prefix (D := D) before (l :: after) D.start
  rw [← hsplit, ← lined, hnil, List.prefix_nil] at hprefix
  rw [← (handleLines_steady hsteady D.start).1, hprefix]

/-- **A decoder is faithful to a body if and only if nothing is emitted before a refused line, a
special line is there only if a line is refused or nothing comes out at all, and what is emitted is
the text of the result.** -/
theorem faithful_iff (h : D.Refuses refused special) {spoken : δ → Text} {text : ρ → Text} :
  D.Faithful spoken text b
    ↔ (∀ before l after, b.lines = before ++ l :: after → refused l → (∀ x ∈ before, ¬ refused x) →
        (D.handleLines D.start before).emitted = [])
      ∧ ((∀ l ∈ b.lines, ¬ refused l) → (∃ l ∈ b.lines, special l) →
        (D.lined b).emitted = [] ∧ (D.outcome b).result.toOption = none)
      ∧ ((∀ l ∈ b.lines, ¬ refused l) → ∀ r, (D.outcome b).result = .ok r →
        (D.lined b).emitted.flatMap spoken = text r)
  := by
  rw [faithful_of_outcome, ← quiet_iff h, Alike, outcome_emitted, outcome_emitted]
  constructor
  · rintro ⟨hquiet, hquietCrlf, ⟨hemitted, hresult⟩, htext⟩
    use hquiet
    constructor
    · intro _ ⟨l, hl, hspecial⟩
      obtain ⟨e, he⟩ := lined_of_refused h (h.exists_crlf ⟨l, hl, .inr hspecial⟩)
      rw [hemitted, hresult]
      exact ⟨hquietCrlf e he, outcome_of_error he⟩
    · intro _
      exact htext
  · rintro ⟨hquiet, hspecial, htext⟩
    have hnothing (hl : ∃ l ∈ b.lines, refused l ∨ special l) :
        (D.lined b).emitted = [] ∧ (D.outcome b).result.toOption = none := by
      by_cases hrefused : ∃ l ∈ b.lines, refused l
      · obtain ⟨e, he⟩ := lined_of_refused h hrefused
        exact ⟨hquiet e he, outcome_of_error he⟩
      · obtain ⟨l, hmem, hl⟩ := hl
        push Not at hrefused
        exact hspecial hrefused ⟨l, hmem, hl.resolve_left (hrefused l hmem)⟩
    have hquietCrlf := h.quiet_crlf fun hl => (hnothing hl).1
    use hquiet, hquietCrlf
    constructor
    · by_cases hl : ∃ l ∈ b.lines, refused l ∨ special l
      · obtain ⟨hemitted, hresult⟩ := hnothing hl
        obtain ⟨e, he⟩ := lined_of_refused h (h.exists_crlf hl)
        rw [hemitted, hresult, hquietCrlf e he, outcome_of_error he]
        exact ⟨rfl, rfl⟩
      · push Not at hl
        have hlined := handleLines_steady (fun l hmem => h.steady l (hl l hmem).2) D.start
        have houtcome : Alike (D.outcome b) (D.outcome b.crlf) := hlined.bind _
        rwa [Alike, outcome_emitted, outcome_emitted] at houtcome
    · intro r hr
      by_cases hrefused : ∃ l ∈ b.lines, refused l
      · obtain ⟨e, he⟩ := lined_of_refused h hrefused
        have hnone := outcome_of_error he
        rw [hr] at hnone
        cases hnone
      · push Not at hrefused
        exact htext hrefused r hr

theorem outcome_eq_none {refused special : Bytes → Prop} (h : D.Refuses refused special) {b : Body}
    (haccepted : ∀ l ∈ b.lines, ¬ refused l) {bad : Prop}
    (hbad : ∀ s, (D.handleLines D.start (b.lines ++ [b.last])).result = .ok s →
      ((D.assemble s).toOption = none ↔ bad)) :
  (D.outcome b).result.toOption = none ↔ refused b.last ∨ bad
  := by
  rw [outcome_result, Result.toOption_bind]
  by_cases hlast : refused b.last
  · obtain ⟨e, he⟩ := handleLines_of_refused h haccepted hlast [] D.start
    rw [he]
    simp [hlast, Except.toOption]
  · have hall : ∀ l ∈ b.lines ++ [b.last], ¬ refused l := by
      intro l hl
      rcases List.mem_append.mp hl with hl | hl
      · exact haccepted l hl
      · rwa [List.mem_singleton.mp hl]
    obtain ⟨s, hs⟩ := handleLines_of_accepted h hall D.start
    rw [← hbad s hs, hs]
    simp only [hlast, false_or]
    rfl

theorem handleLines_invariant {P : List Bytes → σ → List δ → Prop} (start : P [] D.start [])
    (next : ∀ lines s emitted l s' more, P lines s emitted → D.line s l = .ok (s', more) →
      P (lines ++ [l]) s' (emitted ++ more))
    {s : σ} (h : (D.handleLines D.start lines).result = .ok s) :
  P lines s (D.handleLines D.start lines).emitted
  := by
  induction lines using List.reverseRecOn generalizing s with
  | nil =>
    obtain rfl := Except.ok.inj h
    exact start
  | append_singleton lines l ih =>
    rw [handleLines_append] at h ⊢
    cases hlines : (D.handleLines D.start lines).result with
    | error e =>
      rw [Emits.bind_error hlines] at h
      cases h
    | ok s₁ =>
      rw [Emits.bind_ok hlines, handleLines] at h ⊢
      cases hline : D.line s₁ l with
      | error e =>
        rw [hline] at h
        cases h
      | ok r =>
        rw [hline, Emits.of, Emits.bind_ok rfl] at h
        obtain rfl := Except.ok.inj h
        have hnext := next lines s₁ _ l r.1 r.2 (ih hlines) hline
        simpa [Emits.of, Emits.bind, handleLines, Emits.nothing] using hnext

end Decoder

end LineStream
