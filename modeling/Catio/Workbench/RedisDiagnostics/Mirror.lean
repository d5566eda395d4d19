import Catio.Db.RedisCommand
import Catio.Workbench.RedisDiagnostics

/-!
# Redis lines that are read in the same way

The editor and the backend cut a line into arguments by two tokenizers.  A line is described by its
words and by how it ends; where the quotes, the backslashes and the semicolons of a line are at the
places that both tokenizers know, they agree on it.
-/

namespace Workbench

open Db Scan Text

/-! ### Lines -/

/-- A character of a word, or one behind a backslash. -/
inductive RedisPart where
  | char (c : Char)
  | escaped (c : Char)
  deriving DecidableEq

namespace RedisPart

def raw : RedisPart → Text
  | .char c => [c]
  | .escaped c => ['\\', c]

def value : RedisPart → Char
  | .char c => c
  | .escaped c => c

/-- What the backend reads. -/
def unescaped : RedisPart → Char
  | .char c => c
  | .escaped c => unescapeChar c

/-- A character outside of quotes that is not blank and no quote. -/
def bare : RedisPart → Bool
  | .char c => !isWhitespace c && c ≠ '"' && c ≠ '\'' && c ≠ '\\'
  | .escaped _ => true

/-- A character in quotes. -/
def within (quote : Char) : RedisPart → Bool
  | .char c => c ≠ quote && c ≠ '\\'
  | .escaped _ => true

end RedisPart

def rawParts (parts : List RedisPart) : Text :=
  parts.flatMap RedisPart.raw

/-- A word: without quotes, or with a quoted part at its start. -/
inductive RedisWord where
  | bare (parts : List RedisPart)
  | quoted (quote : Char) (parts : List RedisPart) (tail : Text)
  deriving DecidableEq

namespace RedisWord

def raw : RedisWord → Text
  | .bare parts => rawParts parts
  | .quoted quote parts tail => quote :: rawParts parts ++ quote :: tail

def value : RedisWord → Text
  | .bare parts => parts.map RedisPart.value
  | .quoted _ parts tail => parts.map RedisPart.value ++ tail

def unescaped : RedisWord → Text
  | .bare parts => parts.map RedisPart.unescaped
  | .quoted _ parts tail => parts.map RedisPart.unescaped ++ tail

/-- A word whose quotes are where they are read as such. -/
def lexical : RedisWord → Bool
  | .bare parts => parts.all RedisPart.bare
  | .quoted quote parts tail => (quote = '"' || quote = '\'') && parts.all (RedisPart.within quote)
      && tail.all fun c => (RedisPart.char c).bare

/-- The word before a semicolon that is in no quotes and behind no backslash. -/
def beforeSemicolon : RedisWord → Option RedisWord
  | .bare parts => if parts.getLast? = some (.char ';') then some (.bare parts.dropLast) else none
  | .quoted quote parts tail =>
      if tail.getLast? = some ';' then some (.quoted quote parts tail.dropLast) else none

/-- A word that is not the last: no semicolon is at its end, and no backslash stands for a control
character. -/
def inner (w : RedisWord) : Bool :=
  w.value.getLast? ≠ some ';' && w.unescaped = w.value

/-- A last word: at most one semicolon is at its end, in no quotes and behind no backslash. -/
def last (w : RedisWord) : Bool :=
  w.unescaped = w.value && match w.beforeSemicolon with
    | some w' => w'.raw.getLast? ≠ some ';'
    | none => w.value.getLast? ≠ some ';' && !w.raw.getLast?.any isWhitespace

end RedisWord

/-- What is behind the words of a line: blanks, or a quote that is not closed. -/
inductive RedisEnding where
  | blanks (blanks : Text)
  | unclosed (blanks : Text) (quote : Char) (parts : List RedisPart) (backslash : Bool)
  deriving DecidableEq

/-- A line: its words, each with the blanks before it, and its ending. -/
structure RedisLine where
  words : List (Text × RedisWord)
  ending : RedisEnding
  deriving DecidableEq

def RedisEnding.raw : RedisEnding → Text
  | .blanks b => b
  | .unclosed b quote parts backslash =>
      b ++ quote :: (rawParts parts ++ if backslash then ['\\'] else [])

/-- Words with the blanks before them. -/
def rawWords (words : List (Text × RedisWord)) : Text :=
  words.flatMap fun x => x.1 ++ x.2.raw

def RedisLine.raw (l : RedisLine) : Text :=
  rawWords l.words ++ l.ending.raw

/-- Words that are read as such: they are not empty, and blanks are between them. -/
structure Separated (words : List (Text × RedisWord)) : Prop where
  each : ∀ x ∈ words, x.1.all isBlank ∧ x.2.lexical ∧ x.2.raw ≠ []
  apart : ∀ x ∈ words.tail, x.1 ≠ []

/-- How a line ends that is read in the same way. -/
def RedisLine.FineEnding (l : RedisLine) : Prop :=
  match l.ending with
  | .blanks b => b.all isBlank ∧ (∀ x ∈ l.words.dropLast, x.2.inner)
      ∧ ∀ x ∈ l.words.getLast?, x.2.last
  | .unclosed b quote parts _ => b.all isBlank ∧ (l.words ≠ [] → b ≠ [])
      ∧ (quote = '"' ∨ quote = '\'') ∧ parts.all (RedisPart.within quote)

/-- A line that is read in the same way. -/
structure RedisLine.Fine (l : RedisLine) : Prop where
  separated : Separated l.words
  ending : l.FineEnding

/-- Both report an unclosed quote, or both have the same arguments. -/
def Mirrored (line : Text) : Prop :=
  ((tokenizeRedisLine line).unclosedQuote ↔ parseCommandArgv line = .error .unclosedQuote)
    ∧ ((tokenizeRedisLine line).unclosedQuote = false →
      parseCommandArgv line
        = if (tokenizeRedisLine line).argv = [] then .error .empty
          else .ok ((tokenizeRedisLine line).argv.map RedisToken.value))

/-! ### The editor -/

/-- A value that is an argument, unless it is empty. -/
def kept (value : Text) : List Text :=
  if value = [] then [] else [value]

theorem not_isBlank_of_bare {c : Char} (h : (RedisPart.char c).bare) :
  isBlank c = false
  := by
  have hspace : c ≠ ' ' := by
    rintro rfl
    exact absurd h (by decide)
  have htab : c ≠ '\t' := by
    rintro rfl
    exact absurd h (by decide)
  simp [isBlank, hspace, htab]

theorem isWhitespace_of_isBlank {c : Char} (h : isBlank c) :
  isWhitespace c
  := by
  have hc : c = ' ' ∨ c = '\t' := by simpa [isBlank] using h
  obtain rfl | rfl := hc <;> rfl

section

variable {s : TokenizeState} {parts : List RedisPart} {v rest b : Text} {quote : Char}

theorem readQuoted_parts (h : parts.all (RedisPart.within quote)) :
  readQuoted quote false v (rawParts parts ++ rest)
    = readQuoted quote false (v ++ parts.map RedisPart.value) rest
  := by
  induction parts generalizing v with
  | nil => simp [rawParts]
  | cons p parts ih =>
    rw [List.all_cons, Bool.and_eq_true] at h
    rw [rawParts, List.flatMap_cons, List.append_assoc]
    cases p with
    | char c =>
      have hc : c ≠ quote ∧ c ≠ '\\' := by simpa [RedisPart.within] using h.1
      simp only [RedisPart.raw, List.singleton_append, readQuoted, if_neg hc.1, if_neg hc.2]
      rw [← rawParts, ih h.2]
      simp [RedisPart.value]
    | escaped c =>
      simp only [RedisPart.raw, List.cons_append, List.nil_append, readQuoted, if_true]
      rw [← rawParts, ih h.2]
      simp [RedisPart.value]

theorem readWord_bare (h : parts.all RedisPart.bare) (hrest : rest.head?.all isBlank) :
  readWord false v (rawParts parts ++ rest) = (v ++ parts.map RedisPart.value, rest)
  := by
  induction parts generalizing v with
  | nil =>
    cases rest with
    | nil => simp [rawParts, readWord]
    | cons c rest =>
      have hc : isBlank c := by simpa using hrest
      simp [rawParts, readWord, hc]
  | cons p parts ih =>
    rw [List.all_cons, Bool.and_eq_true] at h
    rw [rawParts, List.flatMap_cons, List.append_assoc]
    cases p with
    | char c =>
      have hc := h.1
      have hblank : isBlank c = false := not_isBlank_of_bare hc
      have hback : c ≠ '\\' := by
        rintro rfl
        cases hc
      simp only [RedisPart.raw, List.singleton_append, readWord, hblank, if_neg hback]
      rw [← rawParts, if_neg (by simp), ih h.2]
      simp [RedisPart.value]
    | escaped c =>
      have hblank : isBlank '\\' = false := rfl
      simp only [RedisPart.raw, List.cons_append, List.nil_append, readWord, hblank, if_true]
      rw [← rawParts, if_neg (by simp), ih h.2]
      simp [RedisPart.value]

theorem reads_blanks (hb : b.all isBlank) :
  ∃ s', Reads tokenizeTurn s (b ++ rest) rest s' [] ∧ s'.unclosedQuote = s.unclosedQuote
  := by
  induction b generalizing s with
  | nil => exact ⟨s, Reads.refl s rest, rfl⟩
  | cons c b ih =>
    rw [List.all_cons, Bool.and_eq_true] at hb
    obtain ⟨s', hreads, hquote⟩ := @ih { s with i := s.i + 1 } hb.2
    refine ⟨s', ?_, hquote⟩
    have hfirst : tokenizeTurn s c (b ++ rest) = .next { s with i := s.i + 1 } [] 0 := by
      rw [tokenizeTurn, if_pos hb.1]
    exact (Reads.single hfirst).trans hreads

theorem takeWhile_bare {tail : Text} (h : tail.all fun c => (RedisPart.char c).bare)
    (hrest : rest.head?.all isBlank) :
  (tail ++ rest).takeWhile (!isBlank ·) = tail ∧ (tail ++ rest).dropWhile (!isBlank ·) = rest
  := by
  have hall : ∀ c ∈ tail, (!isBlank c) = true := by
    intro c hc
    rw [not_isBlank_of_bare (List.all_eq_true.mp h c hc)]
    rfl
  rw [List.takeWhile_append_of_pos hall, List.dropWhile_append_of_pos hall]
  cases rest with
  | nil => simp
  | cons c rest =>
    have hc : isBlank c := by simpa using hrest
    simp [hc]

variable {words : List (Text × RedisWord)} {w : RedisWord}

theorem readToken_word (hw : w.lexical) {ch : Char} {behind : Text} (hraw : w.raw = ch :: behind)
    (hrest : rest.head?.all isBlank) :
  isBlank ch = false ∧ readToken ch (behind ++ rest) = (w.value, true, rest)
  := by
  cases w with
  | bare parts =>
    have hparts : parts.all RedisPart.bare := hw
    have hword := @readWord_bare parts [] rest hparts hrest
    have hch : isBlank ch = false ∧ ¬ (ch = '"' ∨ ch = '\'') := by
      cases parts with
      | nil => cases hraw
      | cons p parts =>
        rw [List.all_cons, Bool.and_eq_true] at hparts
        cases p with
        | char c =>
          obtain ⟨rfl, -⟩ := List.cons.inj hraw
          refine ⟨not_isBlank_of_bare hparts.1, ?_⟩
          rintro (rfl | rfl) <;> exact absurd hparts.1 (by decide)
        | escaped c =>
          obtain ⟨rfl, -⟩ := List.cons.inj hraw
          decide
    have hraw' : rawParts parts = ch :: behind := hraw
    rw [hraw', List.cons_append] at hword
    refine ⟨hch.1, ?_⟩
    rw [readToken, if_neg hch.2, hword]
    rfl
  | quoted quote parts tail =>
    obtain ⟨rfl, rfl⟩ := List.cons.inj hraw
    simp only [RedisWord.lexical, Bool.and_eq_true, Bool.or_eq_true, decide_eq_true_iff] at hw
    obtain ⟨⟨hquote, hparts⟩, htail⟩ := hw
    obtain ⟨htake, hdrop⟩ := takeWhile_bare htail hrest
    have hback : quote ≠ '\\' := by
      rintro rfl
      simp at hquote
    have hclose : readQuoted quote false [] (rawParts parts ++ quote :: tail ++ rest)
        = (parts.map RedisPart.value, true, tail ++ rest) := by
      rw [List.append_assoc, readQuoted_parts hparts, List.cons_append, readQuoted, if_neg hback,
        if_pos rfl]
      rfl
    constructor
    · obtain rfl | rfl := hquote <;> rfl
    · change readToken quote (rawParts parts ++ quote :: tail ++ rest) = _
      rw [readToken, if_pos hquote, hclose]
      simp only [if_true, htake, hdrop]
      rfl

theorem reads_word {w : RedisWord} (hw : w.lexical) (hne : w.raw ≠ [])
    (hrest : rest.head?.all isBlank) :
  ∃ s' out, Reads tokenizeTurn s (w.raw ++ rest) rest s' out
    ∧ out.map RedisToken.value = kept (stripSemicolon w.value)
    ∧ s'.unclosedQuote = s.unclosedQuote
  := by
  obtain ⟨ch, behind, hraw⟩ := List.exists_cons_of_ne_nil hne
  obtain ⟨hblank, htoken⟩ := readToken_word hw hraw hrest
  have hskip : (behind ++ rest).length - rest.length = behind.length := by
    rw [List.length_append, Nat.add_sub_cancel]
  have hturn : ∃ s' out, tokenizeTurn s ch (behind ++ rest) = .next s' out behind.length
      ∧ out.map RedisToken.value = kept (stripSemicolon w.value)
      ∧ s'.unclosedQuote = s.unclosedQuote := by
    unfold tokenizeTurn
    rw [hblank, if_neg (by simp), htoken, ← hskip]
    refine ⟨_, _, rfl, ?_, by simp⟩
    by_cases hvalue : stripSemicolon w.value = [] <;> simp [kept, hvalue]
  obtain ⟨s', out, hturn, hout, hquote⟩ := hturn
  refine ⟨s', out, ?_, hout, hquote⟩
  rw [hraw, List.cons_append]
  exact Reads.skipping behind hturn rfl

theorem reads_words {words : List (Text × RedisWord)} (h : Separated words)
    (hrest : rest.head?.all isBlank) :
  ∃ s' out, Reads tokenizeTurn s (rawWords words ++ rest) rest s' out
    ∧ out.map RedisToken.value = words.flatMap (fun x => kept (stripSemicolon x.2.value))
    ∧ s'.unclosedQuote = s.unclosedQuote
  := by
  induction words generalizing s with
  | nil => exact ⟨s, [], Reads.refl s rest, rfl, rfl⟩
  | cons x words ih =>
    obtain ⟨hblanks, hword, hne⟩ := h.each x List.mem_cons_self
    have hnext : (rawWords words ++ rest).head?.all isBlank := by
      cases words with
      | nil => exact hrest
      | cons y words =>
        obtain ⟨hblanks, -, -⟩ := h.each y (by simp)
        obtain ⟨c, b, hb⟩ := List.exists_cons_of_ne_nil (h.apart y (by simp))
        rw [hb] at hblanks
        simp only [List.all_cons, Bool.and_eq_true] at hblanks
        simp [rawWords, hb, hblanks.1]
    have hwords : Separated words := by
      constructor
      · intro y hy
        apply h.each y (List.mem_cons_of_mem x hy)
      · intro y hy
        apply h.apart y (List.mem_of_mem_tail hy)
    obtain ⟨s₁, hfirst, hquote₁⟩ := @reads_blanks s (x.2.raw ++ (rawWords words ++ rest)) x.1
      hblanks
    obtain ⟨s₂, out, hsecond, hout, hquote₂⟩ := @reads_word s₁ _ x.2 hword hne hnext
    obtain ⟨s₃, outs, hlast, houts, hquote₃⟩ := @ih s₂ hwords
    refine ⟨s₃, out ++ outs, ?_, ?_, ?_⟩
    · have hreads := hfirst.trans (hsecond.trans hlast)
      rw [rawWords, List.flatMap_cons, List.append_assoc, List.append_assoc]
      exact hreads
    · rw [List.map_append, hout, houts, List.flatMap_cons]
    · rw [hquote₃, hquote₂, hquote₁]

theorem unclosed_tokenizeRedisLine (h : Separated words) (hb : b.all isBlank)
    (hne : words ≠ [] → b ≠ []) (hquote : quote = '"' ∨ quote = '\'')
    (hparts : parts.all (RedisPart.within quote)) (backslash : Bool) :
  (tokenizeRedisLine
    (rawWords words ++ (RedisEnding.unclosed b quote parts backslash).raw)).unclosedQuote = true
  := by
  have hopens : ∃ s tokens, Reads tokenizeTurn {}
      (rawWords words ++ (RedisEnding.unclosed b quote parts backslash).raw)
      (quote :: (rawParts parts ++ if backslash then ['\\'] else [])) s tokens := by
    rw [RedisEnding.raw]
    by_cases hwords : words = []
    · subst hwords
      obtain ⟨s, hblanks, -⟩ := @reads_blanks {} _ b hb
      exact ⟨s, [], hblanks⟩
    · obtain ⟨c, b', rfl⟩ := List.exists_cons_of_ne_nil (hne hwords)
      have hhead : isBlank c := by
        rw [List.all_cons, Bool.and_eq_true] at hb
        exact hb.1
      obtain ⟨s, tokens, hreads, -⟩ := @reads_words {} (c :: b' ++ _) words h hhead
      obtain ⟨s', hblanks, -⟩ := @reads_blanks s _ _ hb
      exact ⟨s', _, hreads.trans hblanks⟩
  obtain ⟨s, tokens, hreads⟩ := hopens
  have hback : quote ≠ '\\' := by
    rintro rfl
    simp at hquote
  have hread : readQuoted quote false [] (rawParts parts ++ if backslash then ['\\'] else [])
      = (parts.map RedisPart.value, false, []) := by
    rw [readQuoted_parts hparts]
    cases backslash <;> simp [readQuoted]
  have hblank : isBlank quote = false := by
    obtain rfl | rfl := hquote <;> rfl
  have hturn : ∃ s' out, tokenizeTurn s quote (rawParts parts ++ if backslash then ['\\'] else [])
      = .next s' out (rawParts parts ++ if backslash then ['\\'] else []).length
      ∧ s'.unclosedQuote = true := by
    unfold tokenizeTurn
    rw [hblank, if_neg (by simp), readToken, if_pos hquote, hread]
    exact ⟨_, _, rfl, by simp⟩
  obtain ⟨s', out, hturn, hunclosed⟩ := hturn
  rw [tokenizeRedisLine, hreads.loop_eq, loop_next hturn, List.drop_length, loop_nil]
  exact hunclosed

/-! ### The backend -/

theorem argvRun_within (h : parts.all (RedisPart.within quote)) (current : Text) :
  argvRun { current := current, quote := some quote } (rawParts parts)
    = ([], { current := current ++ parts.map RedisPart.unescaped, quote := some quote })
  := by
  induction parts generalizing current with
  | nil => simp [rawParts, argvRun]
  | cons p parts ih =>
    rw [List.all_cons, Bool.and_eq_true] at h
    rw [rawParts, List.flatMap_cons]
    cases p with
    | char c =>
      have hc : c ≠ quote ∧ c ≠ '\\' := by simpa [RedisPart.within] using h.1
      simp only [RedisPart.raw, List.singleton_append, argvRun, argvStep, parseCommandArgvTurn]
      rw [← rawParts]
      simp [hc, ih h.2, RedisPart.unescaped]
    | escaped c =>
      simp only [RedisPart.raw, List.cons_append, List.nil_append, argvRun, argvStep,
        parseCommandArgvTurn]
      rw [← rawParts]
      simp [ih h.2, RedisPart.unescaped]

theorem argvRun_bare (h : parts.all RedisPart.bare) (current : Text) :
  argvRun { current := current } (rawParts parts)
    = ([], { current := current ++ parts.map RedisPart.unescaped })
  := by
  induction parts generalizing current with
  | nil => simp [rawParts, argvRun]
  | cons p parts ih =>
    rw [List.all_cons, Bool.and_eq_true] at h
    rw [rawParts, List.flatMap_cons]
    cases p with
    | char c =>
      have hc : ((isWhitespace c = false ∧ c ≠ '"') ∧ c ≠ '\'') ∧ c ≠ '\\' := by
        simpa [RedisPart.bare] using h.1
      simp only [RedisPart.raw, List.singleton_append, argvRun, argvStep, parseCommandArgvTurn]
      rw [← rawParts]
      simp [hc, ih h.2, RedisPart.unescaped]
    | escaped c =>
      simp only [RedisPart.raw, List.cons_append, List.nil_append, argvRun, argvStep,
        parseCommandArgvTurn]
      rw [← rawParts]
      simp [ih h.2, RedisPart.unescaped]

theorem argvRun_word (hw : w.lexical) :
  argvRun {} w.raw = ([], { current := w.unescaped })
  := by
  cases w with
  | bare parts => exact argvRun_bare hw []
  | quoted quote parts tail =>
    simp only [RedisWord.lexical, Bool.and_eq_true, Bool.or_eq_true, decide_eq_true_iff] at hw
    obtain ⟨⟨hquote, hparts⟩, htail⟩ := hw
    have hopen : argvStep {} quote = ({ quote := some quote }, []) := by
      obtain rfl | rfl := hquote <;> rfl
    have hclose (v : Text) : argvStep { current := v, quote := some quote } quote
        = ({ current := v }, []) := by
      obtain rfl | rfl := hquote <;> rfl
    have hrest := @argvRun_bare (tail.map RedisPart.char) (by simpa [List.all_map] using htail)
      (parts.map RedisPart.unescaped)
    have hraw : rawParts (tail.map RedisPart.char) = tail := by
      simp [rawParts, List.flatMap_map, RedisPart.raw]
    have hchars : (tail.map RedisPart.char).map RedisPart.unescaped = tail := by
      rw [List.map_map]
      exact List.map_id tail
    rw [hraw, hchars] at hrest
    rw [RedisWord.raw, List.cons_append, argvRun, hopen, argvRun_append, argvRun_within hparts,
      argvRun]
    simp only [List.nil_append, hclose, hrest]
    rfl

theorem argvRun_separator (hb : b.all isBlank) (hne : b ≠ []) (v : Text) :
  argvRun { current := v } b = (kept v, {})
  := by
  obtain ⟨c, b, rfl⟩ := List.exists_cons_of_ne_nil hne
  rw [List.all_cons, Bool.and_eq_true] at hb
  have hstep : argvStep { current := v } c = ({}, kept v) := by
    have hc : c = ' ' ∨ c = '\t' := by simpa [isBlank] using hb.1
    obtain rfl | rfl := hc <;> rfl
  have hrest : argvRun {} b = ([], {}) := by
    apply argvRun_blank
    intro d hd
    apply isWhitespace_of_isBlank (List.all_eq_true.mp hb.2 d hd)
  rw [argvRun, hstep, hrest]
  simp

theorem argvRun_snoc {t v : Text} {out : List Text} (ht : argvRun {} t = (out, { current := v }))
    (hb : b.all isBlank) (hne : b = [] → out = [] ∧ v = []) (hw : w.lexical) :
  argvRun {} (t ++ (b ++ w.raw)) = (out ++ kept v, { current := w.unescaped })
  := by
  rw [argvRun_append, ht, argvRun_append]
  by_cases hempty : b = []
  · obtain ⟨rfl, rfl⟩ := hne hempty
    subst hempty
    dsimp only [argvRun]
    rw [argvRun_word hw]
    rfl
  · rw [argvRun_separator hb hempty, argvRun_word hw]
    simp

theorem Separated.of_concat {words : List (Text × RedisWord)} {x : Text × RedisWord}
    (h : Separated (words ++ [x])) :
  Separated words ∧ (x.1 = [] → words = [])
  := by
  constructor
  · constructor
    · intro y hy
      apply h.each y (by simp [hy])
    · intro y hy
      apply h.apart y
      cases words with
      | nil => cases hy
      | cons z words =>
        rw [List.tail_cons] at hy
        simp [hy]
  · intro hx
    by_contra hne
    obtain ⟨y, ys, rfl⟩ := List.exists_cons_of_ne_nil hne
    exact h.apart x (by simp) hx

theorem argvRun_words (h : Separated words) :
  ∃ out v, argvRun {} (rawWords words) = (out, { current := v })
    ∧ out ++ kept v = words.flatMap fun x => kept x.2.unescaped
  := by
  induction words using List.reverseRecOn with
  | nil => exact ⟨[], [], rfl, rfl⟩
  | append_singleton words x ih =>
    obtain ⟨hwords, hempty⟩ := h.of_concat
    obtain ⟨hblanks, hword, -⟩ := h.each x (by simp)
    obtain ⟨out, v, hrun, hargs⟩ := ih hwords
    have hne : x.1 = [] → out = [] ∧ v = [] := by
      intro hx
      rw [hempty hx] at hrun
      cases hrun
      exact ⟨rfl, rfl⟩
    refine ⟨out ++ kept v, x.2.unescaped, ?_, ?_⟩
    · rw [rawWords, List.flatMap_append, List.flatMap_singleton]
      exact argvRun_snoc hrun hblanks hne hword
    · rw [hargs, List.flatMap_append, List.flatMap_singleton]

theorem parseCommandArgv_of_argvRun {line : Text} {out : List Text}
    (h : argvRun {} (commandText line) = (out, { current := v })) :
  parseCommandArgv line = if out ++ kept v = [] then .error .empty else .ok (out ++ kept v)
  := by
  unfold parseCommandArgv
  rw [loop_parseCommandArgvTurn, h]
  by_cases hv : v = []
  · simp [kept, hv]
  · simp [kept, hv]

theorem parseCommandArgv_unclosed {line : Text} {q : Char}
    (h : (argvRun {} (commandText line)).2.quote = some q) :
  parseCommandArgv line = .error .unclosedQuote
  := by
  unfold parseCommandArgv
  rw [loop_parseCommandArgvTurn]
  simp [h]

theorem trimEnd_blanks (hb : b.all isBlank) (t : Text) :
  trimEnd (t ++ b) = trimEnd t
  := by
  induction b using List.reverseRecOn with
  | nil => rw [List.append_nil]
  | append_singleton b c ih =>
    simp only [List.all_append, List.all_cons, List.all_nil, Bool.and_eq_true] at hb
    have hc := isWhitespace_of_isBlank hb.2.1
    rw [← List.append_assoc, trimEnd, List.rdropWhile_concat_pos _ _ _ hc]
    exact ih hb.1

theorem commandText_blanks (hb : b.all isBlank) {t : Text}
    (hend : ∀ c ∈ t.getLast?, isWhitespace c = false ∧ c ≠ ';') :
  commandText (t ++ b) = t
  := by
  have htrim : trimEnd t = t := by
    apply List.rdropWhile_eq_self_iff.mpr
    intro hne
    simp [hend _ (List.getLast?_eq_some_getLast hne)]
  rw [commandText, trimEnd_blanks hb, htrim]
  apply List.rdropWhile_eq_self_iff.mpr
  intro hne
  simp [hend _ (List.getLast?_eq_some_getLast hne)]

theorem commandText_semicolon (hb : b.all isBlank) {t : Text} (hend : t.getLast? ≠ some ';') :
  commandText (t ++ [';'] ++ b) = t
  := by
  have htrim : trimEnd (t ++ [';']) = t ++ [';'] := by
    apply List.rdropWhile_concat_neg
    decide
  rw [commandText, trimEnd_blanks hb, htrim, List.rdropWhile_concat_pos _ _ _ (by simp)]
  apply List.rdropWhile_eq_self_iff.mpr
  intro hne
  rw [List.getLast?_eq_some_getLast hne] at hend
  simpa using hend

theorem exists_commandText (line : Text) :
  ∃ u, line = commandText line ++ u ∧ ∀ c ∈ u, c ≠ '"' ∧ c ≠ '\''
  := by
  use (trimEnd line).rtakeWhile (· = ';') ++ line.rtakeWhile isWhitespace
  constructor
  · rw [commandText, ← List.append_assoc, List.rdropWhile_append_rtakeWhile, trimEnd,
      List.rdropWhile_append_rtakeWhile]
  · intro c hc
    obtain hc | hc := List.mem_append.mp hc
    · have hsemi : c = ';' := by simpa using List.mem_rtakeWhile_imp hc
      subst hsemi
      decide
    · have hblank := List.mem_rtakeWhile_imp hc
      constructor <;> rintro rfl <;> exact absurd hblank (by decide)

theorem rawParts_concat (parts : List RedisPart) (p : RedisPart) :
  rawParts (parts ++ [p]) = rawParts parts ++ p.raw
  := by
  simp [rawParts]

theorem RedisWord.of_beforeSemicolon {w w' : RedisWord} (h : w.beforeSemicolon = some w')
    (hw : w.lexical) (hvalue : w.unescaped = w.value) :
  w'.lexical ∧ w.raw = w'.raw ++ [';'] ∧ w.value = w'.value ++ [';']
    ∧ w'.unescaped = w'.value
  := by
  cases w with
  | bare parts =>
    rw [beforeSemicolon] at h
    split at h
    · rename_i hlast
      cases h
      obtain ⟨ps, rfl⟩ := List.getLast?_eq_some_iff.mp hlast
      rw [List.dropLast_concat]
      simp only [lexical, unescaped, value, raw, rawParts_concat, List.all_append,
        List.map_append, Bool.and_eq_true] at hw hvalue ⊢
      exact ⟨hw.1, rfl, rfl, List.append_cancel_right hvalue⟩
    · cases h
  | quoted quote parts tail =>
    rw [beforeSemicolon] at h
    split at h
    · rename_i hlast
      cases h
      obtain ⟨t, rfl⟩ := List.getLast?_eq_some_iff.mp hlast
      rw [List.dropLast_concat]
      simp only [lexical, unescaped, value, raw, List.all_append, Bool.and_eq_true,
        ← List.append_assoc, List.cons_append] at hw hvalue ⊢
      exact ⟨⟨hw.1, hw.2.1⟩, by simp, trivial, List.append_cancel_right hvalue⟩
    · cases h

theorem RedisWord.last_raw (h : w.beforeSemicolon = none) (hw : w.lexical)
    (hsemi : w.value.getLast? ≠ some ';') (hblank : w.raw.getLast?.any isWhitespace = false) :
  ∀ c ∈ w.raw.getLast?, isWhitespace c = false ∧ c ≠ ';'
  := by
  intro c hc
  rw [Option.mem_def] at hc
  rw [hc] at hblank
  refine ⟨hblank, ?_⟩
  rintro rfl
  cases w with
  | bare parts =>
    obtain rfl | ⟨ps, p, rfl⟩ := List.eq_nil_or_concat' parts
    · cases hc
    · apply hsemi
      rw [raw, rawParts_concat] at hc
      cases p <;> simpa [value, RedisPart.raw, RedisPart.value] using hc
  | quoted quote parts tail =>
    simp only [lexical, Bool.and_eq_true, Bool.or_eq_true, decide_eq_true_iff] at hw
    obtain ⟨⟨hquote, -⟩, -⟩ := hw
    obtain rfl | ⟨t, c, rfl⟩ := List.eq_nil_or_concat' tail
    · rw [raw, List.getLast?_concat] at hc
      obtain rfl := Option.some.inj hc
      simp at hquote
    · have hraw : (RedisWord.quoted quote parts (t ++ [c])).raw
          = (quote :: rawParts parts ++ quote :: t) ++ [c] := by
        simp [raw]
      apply hsemi
      rw [hraw, List.getLast?_concat] at hc
      simpa [value] using hc

theorem argvRun_last {x : Text × RedisWord} (h : Separated (words ++ [x])) (hb : b.all isBlank)
    (hlast : x.2.last) :
  argvRun {} (commandText (rawWords (words ++ [x]) ++ b))
    = (words.flatMap (fun x => kept x.2.unescaped), { current := stripSemicolon x.2.value })
  := by
  obtain ⟨hwords, hempty⟩ := h.of_concat
  obtain ⟨hblanks, hword, hraw⟩ := h.each x (by simp)
  obtain ⟨out, v, hrun, hargs⟩ := argvRun_words hwords
  have hne : x.1 = [] → out = [] ∧ v = [] := by
    intro hx
    rw [hempty hx] at hrun
    cases hrun
    exact ⟨rfl, rfl⟩
  rw [RedisWord.last, Bool.and_eq_true, decide_eq_true_iff] at hlast
  obtain ⟨hvalue, hlast⟩ := hlast
  rw [rawWords, List.flatMap_append, List.flatMap_singleton, ← rawWords, ← hargs]
  cases hsemi : x.2.beforeSemicolon with
  | none =>
    rw [hsemi] at hlast
    simp only [Bool.and_eq_true, decide_eq_true_iff, Bool.not_eq_true'] at hlast
    have hend := RedisWord.last_raw hsemi hword hlast.1 hlast.2
    rw [commandText_blanks hb, argvRun_snoc hrun hblanks hne hword, hvalue, stripSemicolon,
      if_neg hlast.1]
    rwa [← List.append_assoc, List.getLast?_append_of_ne_nil _ hraw]
  | some w' =>
    obtain ⟨hword', hraw', hvalue', hunescaped'⟩ :=
      RedisWord.of_beforeSemicolon hsemi hword hvalue
    rw [hsemi] at hlast
    have hend : (rawWords words ++ (x.1 ++ w'.raw)).getLast? ≠ some ';' := by
      by_cases hraw : w'.raw = []
      · rw [hraw, List.append_nil]
        by_cases hx : x.1 = []
        · rw [hx, hempty hx]
          simp [rawWords]
        · rw [List.getLast?_append_of_ne_nil _ hx]
          intro hsemi
          have hblank := List.all_eq_true.mp hblanks _ (List.mem_of_getLast? hsemi)
          exact absurd hblank (by decide)
      · rw [← List.append_assoc, List.getLast?_append_of_ne_nil _ hraw]
        simpa using hlast
    have hline : rawWords words ++ (x.1 ++ x.2.raw) ++ b
        = rawWords words ++ (x.1 ++ w'.raw) ++ [';'] ++ b := by
      rw [hraw']
      simp only [List.append_assoc]
    rw [hline, commandText_semicolon hb hend, argvRun_snoc hrun hblanks hne hword', hunescaped',
      stripSemicolon, hvalue', if_pos (List.getLast?_concat), List.dropLast_concat]

theorem kept_inner (h : w.inner) :
  stripSemicolon w.value = w.unescaped
  := by
  rw [RedisWord.inner, Bool.and_eq_true, decide_eq_true_iff, decide_eq_true_iff] at h
  rw [stripSemicolon, if_neg h.1, h.2]

theorem argvRun_line (h : Separated words) (hb : b.all isBlank)
    (hinner : ∀ x ∈ words.dropLast, x.2.inner) (hlast : ∀ x ∈ words.getLast?, x.2.last) :
  ∃ out v, argvRun {} (commandText (rawWords words ++ b)) = (out, { current := v })
    ∧ out ++ kept v = words.flatMap fun x => kept (stripSemicolon x.2.value)
  := by
  obtain rfl | ⟨words, x, rfl⟩ := List.eq_nil_or_concat' words
  · have hempty : commandText (rawWords [] ++ b) = [] := by
      apply commandText_blanks hb
      simp [rawWords]
    rw [hempty]
    exact ⟨[], [], rfl, rfl⟩
  · rw [List.dropLast_concat] at hinner
    have hargs : words.flatMap (fun x => kept x.2.unescaped)
        = words.flatMap fun x => kept (stripSemicolon x.2.value) := by
      apply List.flatMap_congr
      intro y hy
      rw [kept_inner (hinner y hy)]
    refine ⟨_, _, argvRun_last h hb (hlast x (by simp)), ?_⟩
    rw [hargs, List.flatMap_append, List.flatMap_singleton]

theorem quote_unclosed (h : Separated words) (hb : b.all isBlank) (hne : words ≠ [] → b ≠ [])
    (hquote : quote = '"' ∨ quote = '\'') (hparts : parts.all (RedisPart.within quote))
    (backslash : Bool) :
  (argvRun {} (commandText (rawWords words
      ++ (RedisEnding.unclosed b quote parts backslash).raw))).2.quote = some quote
  := by
  obtain ⟨out, v, hrun, -⟩ := argvRun_words h
  have hwhole : (argvRun {} (rawWords words
      ++ (RedisEnding.unclosed b quote parts backslash).raw)).2.quote = some quote := by
    have hopen : (argvRun {} (rawWords words ++ b)).2 = {} := by
      rw [argvRun_append, hrun]
      by_cases hempty : b = []
      · have hwords : words = [] := by
          by_contra hwords
          exact hne hwords hempty
        rw [hwords] at hrun
        cases hrun
        rw [hempty]
        rfl
      · rw [argvRun_separator hb hempty]
    have hstep : argvStep {} quote = ({ quote := some quote }, []) := by
      obtain rfl | rfl := hquote <;> rfl
    have hinside : (argvRun { quote := some quote }
        (rawParts parts ++ if backslash then ['\\'] else [])).2.quote = some quote := by
      rw [argvRun_append, argvRun_within hparts]
      cases backslash <;> rfl
    rw [RedisEnding.raw, ← List.append_assoc, argvRun_append, hopen, argvRun, hstep]
    exact hinside
  obtain ⟨u, hu, hnone⟩ := exists_commandText (rawWords words
    ++ (RedisEnding.unclosed b quote parts backslash).raw)
  rw [hu, argvRun_append, quote_argvRun _ hnone] at hwhole
  · exact hwhole
  · apply onlyQuotes_argvRun
    rintro q ⟨⟩

end

/-- Editor and backend read lines in the same way whose quotes are at the starts of words with
blanks behind them, in which no backslash stands for a control character, and no word but the last
ends in a semicolon; or which end in an open quote. -/
theorem mirrored_of_fine {line : Text} (h : ∃ l : RedisLine, l.Fine ∧ l.raw = line) :
  Mirrored line
  := by
  obtain ⟨⟨words, ending⟩, ⟨hwords, hending⟩, rfl⟩ := h
  cases ending with
  | blanks b =>
    obtain ⟨hb, hinner, hlast⟩ := hending
    have hhead : b.head?.all isBlank := by
      cases b with
      | nil => rfl
      | cons c b =>
        rw [List.all_cons, Bool.and_eq_true] at hb
        exact hb.1
    obtain ⟨s, tokens, hreads, htokens, hquote⟩ := @reads_words {} b words hwords hhead
    obtain ⟨s', hblanks, hquote'⟩ := @reads_blanks s [] b hb
    rw [List.append_nil] at hblanks
    have hloop := (hreads.trans hblanks).loop_done id
    have hunclosed : s'.unclosedQuote = false := hquote'.trans hquote
    obtain ⟨out, v, hrun, hargs⟩ := argvRun_line hwords hb hinner hlast
    have hbackend := parseCommandArgv_of_argvRun hrun
    rw [hargs, ← htokens] at hbackend
    have heditor : tokenizeRedisLine (rawWords words ++ b)
        = { argv := tokens, unclosedQuote := s'.unclosedQuote,
            unclosedQuoteStart := s'.unclosedQuoteStart } := by
      rw [tokenizeRedisLine, hloop]
      simp
    change Mirrored (rawWords words ++ b)
    unfold Mirrored
    rw [heditor, hbackend, hunclosed]
    by_cases hnone : tokens = [] <;> simp [hnone]
  | unclosed b quote parts backslash =>
    obtain ⟨hb, hne, hquote, hparts⟩ := hending
    have hbackend := parseCommandArgv_unclosed
      (quote_unclosed hwords hb hne hquote hparts backslash)
    have heditor := unclosed_tokenizeRedisLine hwords hb hne hquote hparts backslash
    constructor
    · exact iff_of_true heditor hbackend
    · intro hclosed
      rw [RedisLine.raw, heditor] at hclosed
      cases hclosed

theorem mirrored_quoted :
  Mirrored "SET \"a b\" cd;"
  := by
  apply mirrored_of_fine
  use {
    words := [([], .bare [.char 'S', .char 'E', .char 'T']),
      ([' '], .quoted '"' [.char 'a', .char ' ', .char 'b'] []),
      ([' '], .bare [.char 'c', .char 'd', .char ';'])]
    ending := .blanks [] }
  refine ⟨⟨⟨?_, ?_⟩, ?_⟩, rfl⟩
  · decide
  · decide
  · refine ⟨?_, ?_, ?_⟩ <;> decide

/-- A quote within a word is a character of it for the editor, and opens a quoted part for the
backend. -/
theorem not_mirrored_inner_quote :
  ((tokenizeRedisLine "SET k v\"a b\"").unclosedQuote = false
      ∧ (tokenizeRedisLine "SET k v\"a b\"").argv.map RedisToken.value
        = ["SET", "k", "v\"a", "b\""]
      ∧ parseCommandArgv "SET k v\"a b\"" = .ok ["SET", "k", "va b"])
    ∧ ¬ Mirrored "SET k v\"a b\""
  := by
  have heditor : (tokenizeRedisLine "SET k v\"a b\"").unclosedQuote = false
      ∧ (tokenizeRedisLine "SET k v\"a b\"").argv.map RedisToken.value
        = ["SET", "k", "v\"a", "b\""] := by
    decide +kernel
  have hbackend : parseCommandArgv "SET k v\"a b\"" = .ok ["SET", "k", "va b"] := by
    decide +kernel
  refine ⟨⟨heditor.1, heditor.2, hbackend⟩, ?_⟩
  rintro ⟨-, hsame⟩
  have hthis := hsame heditor.1
  rw [hbackend, heditor.2] at hthis
  split at hthis
  · cases hthis
  · exact absurd (Except.ok.inj hthis) (by decide)

end Workbench
