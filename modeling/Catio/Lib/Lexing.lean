import Catio.Lib.Scan
import Catio.Lib.Text

/-!
# Tokens and statements

Languages in which a text is a sequence of statements with terminators between them.  A `Lexicon`
has the rules by which a text is cut into tokens: white space, words, comments and quoted tokens.
A text is one statement of a kind when its first word is the keyword of the kind and there is no
token but terminators behind its first terminator (`isOne_iff`).
-/

namespace Lexing

open Scan Text

/-! ### Lexical rules -/

/-- A token.  Of a token that is neither a word nor a terminator it does not matter which it is. -/
inductive Token where
  | word (text : Text)
  | terminator
  | other
  deriving DecidableEq

/-- Lexical rules. Comments, openings of comments whose contents are read, and quoted tokens are
given by their lengths. Words consist at least of letters, and nothing else starts with two of them;
other white space than that of the rules is no comment. -/
structure Lexicon where
  isSpace : Char → Bool
  isWord : Char → Bool
  comment : Text → Option ℕ
  executed : Text → Option ℕ
  quoted : Text → Option ℕ
  letter : ∀ c, c.isAlpha → isSpace c = false ∧ isWord c
  letters : ∀ c d rest, c.isAlpha → d.isAlpha →
    comment (c :: d :: rest) = none ∧ executed (c :: d :: rest) = none
      ∧ quoted (c :: d :: rest) = none
  blank : ∀ c rest, isWhitespace c → isSpace c = false →
    comment (c :: rest) = none ∧ executed (c :: rest) = none

namespace Lexicon

variable (lex : Lexicon)

/-- A turn of the lexer that reads a token. -/
def tokenTurn (inside : Bool) (c : Char) (rest : Text) : Turn Bool Token Unit :=
  match lex.quoted (c :: rest) with
  | some n => .next inside [.other] (n - 1)
  | none =>
      if lex.isWord c then
        .next inside [.word (c :: rest.takeWhile lex.isWord)] (rest.takeWhile lex.isWord).length
      else .next inside [if c = ';' then .terminator else .other] 0

/-- A turn of the lexer, which may be inside of a comment whose contents are read. -/
def turn (inside : Bool) (c : Char) (rest : Text) : Turn Bool Token Unit :=
  if lex.isSpace c then .next inside [] 0
  else if inside ∧ c = '*' ∧ rest.head? = some '/' then .next false [] 1
  else
    match lex.executed (c :: rest), lex.comment (c :: rest) with
    | some n, _ => .next true [] (n - 1)
    | none, some n => .next inside [] (n - 1)
    | none, none => lex.tokenTurn inside c rest

def tokens (text : Text) : List Token :=
  (loop lex.turn (fun _ => ()) 0 false text).1

end Lexicon

def statements (tokens : List Token) : List (List Token) :=
  (tokens.splitOnP (· = .terminator)).filter (· ≠ [])

namespace Lexicon

variable (lex : Lexicon)

def IsOne (keyword text : Text) : Prop :=
  ∃ word more, statements (lex.tokens text) = [.word word :: more]
    ∧ toAsciiUppercase word = keyword

/-- Behind the first terminator of a text there are only terminators. -/
def EndsOnce (text : Text) : Prop :=
  ∀ token ∈ (lex.tokens text).dropWhile (· ≠ .terminator), token = .terminator

end Lexicon

/-! ### Statements -/

theorem statements_append_terminator (before after : List Token) :
  statements (before ++ .terminator :: after) = statements before ++ statements after
  := by
  unfold statements
  rw [List.splitOnP_append_cons before after (by simp), List.filter_append]

theorem statements_terminator (tokens : List Token) :
  statements (.terminator :: tokens) = statements tokens
  := statements_append_terminator [] tokens

theorem statements_single {tokens : List Token} (hne : tokens ≠ []) (h : .terminator ∉ tokens) :
  statements tokens = [tokens]
  := by
  have hnone : ∀ token ∈ tokens, decide (token = .terminator) = false := by
    intro token htoken
    rw [decide_eq_false_iff_not]
    rintro rfl
    exact h htoken
  unfold statements
  rw [List.splitOnP_eq_singleton hnone]
  simp [hne]

theorem statements_cons {token : Token} (htoken : token ≠ .terminator) (tokens : List Token) :
  statements (token :: tokens)
    = (token :: tokens.takeWhile (· ≠ .terminator))
      :: statements (tokens.dropWhile (· ≠ .terminator))
  := by
  have hfirst : statements (token :: tokens.takeWhile (· ≠ .terminator))
      = [token :: tokens.takeWhile (· ≠ .terminator)] := by
    apply statements_single (by simp)
    rw [List.mem_cons, not_or]
    refine ⟨htoken.symm, fun hmem => ?_⟩
    have hne := List.mem_takeWhile_imp hmem
    simp at hne
  have hsplit : token :: tokens = (token :: tokens.takeWhile (· ≠ .terminator))
      ++ tokens.dropWhile (· ≠ .terminator) := by
    rw [List.cons_append, List.takeWhile_append_dropWhile]
  cases hrest : tokens.dropWhile (· ≠ .terminator) with
  | nil =>
    rw [hsplit, hrest, List.append_nil, hfirst]
    rfl
  | cons separator rest =>
    have hhead := List.head?_dropWhile_not (fun token => decide (token ≠ .terminator)) tokens
    rw [hrest] at hhead
    obtain rfl : separator = .terminator := by simpa using hhead
    rw [hsplit, hrest, statements_append_terminator, hfirst, statements_terminator]
    rfl

theorem statements_eq_nil {tokens : List Token} :
  statements tokens = [] ↔ ∀ token ∈ tokens, token = .terminator
  := by
  induction tokens with
  | nil => simp [statements]
  | cons token tokens ih =>
    by_cases htoken : token = .terminator
    · rw [htoken, statements_terminator, ih]
      simp
    · rw [statements_cons htoken]
      simp [htoken]

theorem statements_eq_singleton {token : Token} (htoken : token ≠ .terminator) {tokens : List Token}
    {first : List Token} :
  statements (token :: tokens) = [first]
    ↔ token :: tokens.takeWhile (· ≠ .terminator) = first
      ∧ ∀ t ∈ (token :: tokens).dropWhile (· ≠ .terminator), t = .terminator
  := by
  have hdrop : (token :: tokens).dropWhile (· ≠ .terminator)
      = tokens.dropWhile (· ≠ .terminator) := by
    simp [htoken]
  rw [hdrop, statements_cons htoken, List.cons.injEq, statements_eq_nil]

/-! ### Reading -/

section

variable (lex : Lexicon)

theorem tokens_spaces {spaces : Text} (h : ∀ c ∈ spaces, lex.isSpace c) (text : Text) :
  lex.tokens (spaces ++ text) = lex.tokens text
  := by
  induction spaces with
  | nil => rfl
  | cons c spaces ih =>
    obtain ⟨hc, hspaces⟩ := List.forall_mem_cons.mp h
    have hturn : lex.turn false c (spaces ++ text) = .next false [] 0 := by
      unfold Lexicon.turn
      rw [if_pos hc]
    rw [← ih hspaces, Lexicon.tokens, List.cons_append, loop_next hturn]
    rfl

theorem tokens_letters {c d : Char} (hc : c.isAlpha) (hd : d.isAlpha) (rest : Text) :
  ∃ more, lex.tokens (c :: d :: rest)
    = .word ((c :: d :: rest).takeWhile lex.isWord) :: more
  := by
  obtain ⟨hspace, hword⟩ := lex.letter c hc
  obtain ⟨hcomment, hexecuted, hquoted⟩ := lex.letters c d rest hc hd
  have hturn : lex.turn false c (d :: rest)
      = .next false [.word (c :: (d :: rest).takeWhile lex.isWord)]
        ((d :: rest).takeWhile lex.isWord).length := by
    unfold Lexicon.turn
    rw [if_neg (by simp [hspace]), if_neg (by simp), hcomment, hexecuted]
    dsimp only
    unfold Lexicon.tokenTurn
    rw [hquoted]
    dsimp only
    rw [if_pos hword]
  rw [Lexicon.tokens, loop_next hturn, List.takeWhile_cons_of_pos hword]
  exact ⟨_, rfl⟩

theorem tokens_blank {c : Char} (hblank : isWhitespace c) (hspace : lex.isSpace c = false)
    (rest : Text) :
  ∃ token more, lex.tokens (c :: rest) = token :: more ∧ token ≠ .terminator
    ∧ ∀ word, token = .word word → c ∈ word
  := by
  obtain ⟨hcomment, hexecuted⟩ := lex.blank c rest hblank hspace
  have hturn : ∃ token n, lex.turn false c rest = .next false [token] n ∧ token ≠ .terminator
      ∧ ∀ word, token = .word word → c ∈ word := by
    have hsemicolon : c ≠ ';' := by
      rintro rfl
      exact absurd hblank (by decide)
    unfold Lexicon.turn
    rw [if_neg (by simp [hspace]), if_neg (by simp), hcomment, hexecuted]
    dsimp only
    unfold Lexicon.tokenTurn
    split
    · exact ⟨.other, _, rfl, by simp, by simp⟩
    split
    · refine ⟨_, _, rfl, by simp, ?_⟩
      rintro word ⟨⟩
      exact List.mem_cons_self
    · exact ⟨.other, 0, rfl, by simp, by simp⟩
  obtain ⟨token, n, hnext, htoken⟩ := hturn
  rw [Lexicon.tokens, loop_next hnext]
  exact ⟨token, _, rfl, htoken⟩

theorem isAlpha_toUpper (c : Char) :
  c.toUpper.isAlpha = c.isAlpha
  := by
  unfold Char.toUpper
  split
  · rw [isAlpha_eq, isAlpha_eq]
    grind
  · rfl

theorem not_isWhitespace_of_isAlpha {c : Char} (h : c.isAlpha) :
  isWhitespace c = false
  := by
  have hrange := (isAlpha_iff c).mp h
  simp only [isWhitespace, Bool.or_eq_false_iff, Bool.and_eq_false_iff, decide_eq_false_iff_not,
    beq_eq_false_iff_ne]
  omega

theorem takeWhile_eq_nil_iff {p : Char → Bool} {text : Text} :
  text.takeWhile p = [] ↔ ∀ c ∈ text.head?, p c = false
  := by
  cases text with
  | nil => simp
  | cons c text => simp

/-- A text with the keyword in front, by the white space of Unicode, is one statement if that is
white space by the rules, the word ends there, and there is one terminator or several without
anything between them. -/
theorem isOne_iff {leading word rest : Text} (hleading : ∀ c ∈ leading, isWhitespace c)
    (hword : ∀ c ∈ word, c.isAlpha) (hlength : 1 < word.length) :
  lex.IsOne (toAsciiUppercase word) (leading ++ (word ++ rest))
    ↔ (∀ c ∈ leading, lex.isSpace c) ∧ (∀ c ∈ rest.head?, lex.isWord c = false)
      ∧ lex.EndsOnce (leading ++ (word ++ rest))
  := by
  unfold Lexicon.IsOne Lexicon.EndsOnce
  by_cases hspaces : ∀ c ∈ leading, lex.isSpace c
  · obtain ⟨more, hmore⟩ : ∃ more, lex.tokens (word ++ rest)
        = .word (word ++ rest.takeWhile lex.isWord) :: more := by
      obtain ⟨c, d, word', rfl⟩ : ∃ c d word', word = c :: d :: word' := by
        match word, hlength with
        | c :: d :: word', _ => exact ⟨c, d, word', rfl⟩
      rw [← List.takeWhile_append_of_pos fun x hx => (lex.letter x (hword x hx)).2]
      exact tokens_letters lex (hword c (by simp)) (hword d (by simp)) (word' ++ rest)
    rw [tokens_spaces lex hspaces, hmore, ← takeWhile_eq_nil_iff]
    constructor
    · rintro ⟨first, others, hone, hupper⟩
      obtain ⟨hfirst, hends⟩ := (statements_eq_singleton (by simp)).mp hone
      have hnil : rest.takeWhile lex.isWord = [] := by
        have heq := (Token.word.inj (List.cons.inj hfirst).1)
        have hlengths := congrArg List.length hupper
        rw [← heq] at hlengths
        simp only [toAsciiUppercase, List.length_map, List.length_append] at hlengths
        exact List.length_eq_zero_iff.mp (by omega)
      exact ⟨hspaces, hnil, hends⟩
    · rintro ⟨-, hnil, hends⟩
      refine ⟨word ++ rest.takeWhile lex.isWord, _,
        (statements_eq_singleton (by simp)).mpr ⟨rfl, hends⟩, ?_⟩
      rw [hnil, List.append_nil]
  · apply iff_of_false _ fun h => hspaces h.1
    rintro ⟨first, others, hone, hupper⟩
    obtain ⟨c, tail, hdrop⟩ : ∃ c tail, leading.dropWhile lex.isSpace = c :: tail := by
      apply List.exists_cons_of_ne_nil
      intro hnil
      exact hspaces (List.dropWhile_eq_nil_iff.mp hnil)
    have hsplit : leading = leading.takeWhile lex.isSpace ++ c :: tail := by
      rw [← hdrop, List.takeWhile_append_dropWhile]
    have hc : lex.isSpace c = false := by
      have hhead := List.head?_dropWhile_not lex.isSpace leading
      rw [hdrop] at hhead
      exact hhead
    have hblank : isWhitespace c := by
      apply hleading
      rw [hsplit]
      simp
    obtain ⟨token, more, htokens, hterminator, hmem⟩ :=
      tokens_blank lex hblank hc (tail ++ (word ++ rest))
    rw [hsplit, List.append_assoc, tokens_spaces lex fun x hx => List.mem_takeWhile_imp hx,
      List.cons_append, htokens, statements_eq_singleton hterminator] at hone
    have hcmem : c.toUpper ∈ toAsciiUppercase word := by
      rw [← hupper]
      exact List.mem_map_of_mem (hmem first (List.cons.inj hone.1).1)
    obtain ⟨x, hx, heq⟩ := List.mem_map.mp hcmem
    have halpha : c.isAlpha := by
      rw [← isAlpha_toUpper, ← heq, isAlpha_toUpper]
      exact hword x hx
    rw [not_isWhitespace_of_isAlpha halpha] at hblank
    cases hblank

end

end Lexing
