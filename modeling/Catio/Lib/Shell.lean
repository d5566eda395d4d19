import Catio.Lib.Text

/-!
# Shell words

How a shell splits a command into its words, as far as blanks, single quotes and backslashes
go; a command with another character that means something to the shell is not read.  A text
in single quotes, whose own single quotes are taken out of the quotes and escaped, is one word
(`words_quote`).
-/

namespace Shell

open Text

/-- Where the reading of a command is. -/
inductive Place where
  | between
  | word (read : Text)
  | quoted (read : Text)
  | escaped (read : Text)

/-- A character that stands for itself. -/
def isPlain (c : Char) : Bool :=
  isWordChar c || c == '-' || c == '.' || c == '/'

def wordsFrom : Place → Text → Option (List Text)
  | .between, [] => some []
  | .word read, [] => some [read]
  | .quoted _, [] => none
  | .escaped _, [] => none
  | .quoted read, c :: t =>
      if c = '\'' then wordsFrom (.word read) t else wordsFrom (.quoted (read ++ [c])) t
  | .escaped read, c :: t => if c = '\n' then none else wordsFrom (.word (read ++ [c])) t
  | .between, c :: t =>
      if c = ' ' then wordsFrom .between t
      else if c = '\'' then wordsFrom (.quoted []) t
      else if c = '\\' then wordsFrom (.escaped []) t
      else if isPlain c then wordsFrom (.word [c]) t
      else none
  | .word read, c :: t =>
      if c = ' ' then (wordsFrom .between t).map (read :: ·)
      else if c = '\'' then wordsFrom (.quoted read) t
      else if c = '\\' then wordsFrom (.escaped read) t
      else if isPlain c then wordsFrom (.word (read ++ [c])) t
      else none

section

variable (read : Text) (c : Char) (t : Text)

theorem wordsFrom_between_cons :
  wordsFrom .between (c :: t)
    = if c = ' ' then wordsFrom .between t
      else if c = '\'' then wordsFrom (.quoted []) t
      else if c = '\\' then wordsFrom (.escaped []) t
      else if isPlain c then wordsFrom (.word [c]) t
      else none
  := rfl

theorem wordsFrom_word_nil :
  wordsFrom (.word read) [] = some [read]
  := rfl

theorem wordsFrom_word_cons :
  wordsFrom (.word read) (c :: t)
    = if c = ' ' then (wordsFrom .between t).map (read :: ·)
      else if c = '\'' then wordsFrom (.quoted read) t
      else if c = '\\' then wordsFrom (.escaped read) t
      else if isPlain c then wordsFrom (.word (read ++ [c])) t
      else none
  := rfl

theorem wordsFrom_quoted_cons :
  wordsFrom (.quoted read) (c :: t)
    = if c = '\'' then wordsFrom (.word read) t else wordsFrom (.quoted (read ++ [c])) t
  := rfl

theorem wordsFrom_escaped_cons :
  wordsFrom (.escaped read) (c :: t)
    = if c = '\n' then none else wordsFrom (.word (read ++ [c])) t
  := rfl

end

def words (command : Text) : Option (List Text) :=
  wordsFrom .between command

/-- A text in single quotes. -/
def quote (s : Text) : Text :=
  '\'' :: replaceChar '\'' "'\\''" s ++ ['\'']

theorem wordsFrom_quoted (read s t : Text) :
  wordsFrom (.quoted read) (replaceChar '\'' "'\\''" s ++ '\'' :: t)
    = wordsFrom (.word (read ++ s)) t
  := by
  induction s generalizing read with
  | nil => simp [replaceChar, wordsFrom_quoted_cons]
  | cons c s ih =>
    have hcons : read ++ c :: s = read ++ [c] ++ s := by simp
    rw [hcons, ← ih]
    by_cases hc : c = '\''
    · subst hc
      simp [replaceChar, wordsFrom_quoted_cons, wordsFrom_word_cons, wordsFrom_escaped_cons]
    · simp [replaceChar, wordsFrom_quoted_cons, hc]

theorem wordsFrom_quote (s t : Text) :
  wordsFrom .between (quote s ++ t) = wordsFrom (.word s) t
  := by
  have hquoted := wordsFrom_quoted [] s t
  simpa [quote, wordsFrom_between_cons] using hquoted

theorem wordsFrom_plainChar {c : Char} (hc : isPlain c) (read t : Text) :
  wordsFrom .between (c :: t) = wordsFrom (.word [c]) t
    ∧ wordsFrom (.word read) (c :: t) = wordsFrom (.word (read ++ [c])) t
  := by
  have hblank : c ≠ ' ' := by
    rintro rfl
    cases hc
  have hquote : c ≠ '\'' := by
    rintro rfl
    cases hc
  have hescape : c ≠ '\\' := by
    rintro rfl
    cases hc
  rw [wordsFrom_between_cons, wordsFrom_word_cons]
  simp only [if_neg hblank, if_neg hquote, if_neg hescape, if_pos hc, and_self]

theorem wordsFrom_plain {w : Text} (hw : ∀ c ∈ w, isPlain c) (read t : Text) :
  wordsFrom (.word read) (w ++ t) = wordsFrom (.word (read ++ w)) t
  := by
  induction w generalizing read with
  | nil => simp
  | cons c w ih =>
    rw [List.forall_mem_cons] at hw
    rw [List.cons_append, (wordsFrom_plainChar hw.1 read _).2, ih hw.2, List.append_assoc,
      List.singleton_append]

theorem words_plain {w : Text} (hw : w.all isPlain) (hne : w ≠ []) (t : Text) :
  words (w ++ ' ' :: t) = (words t).map (w :: ·)
  := by
  cases w with
  | nil => exact absurd rfl hne
  | cons c w =>
    rw [List.all_cons, Bool.and_eq_true, List.all_eq_true] at hw
    rw [words, List.cons_append, (wordsFrom_plainChar hw.1 [] _).1, wordsFrom_plain hw.2,
      List.singleton_append, wordsFrom_word_cons]
    rfl

theorem words_quote_append (s t : Text) :
  words (quote s ++ ' ' :: t) = (words t).map (s :: ·)
  := by
  rw [words, wordsFrom_quote, wordsFrom_word_cons]
  rfl

theorem words_quote (s : Text) :
  words (quote s) = some [s]
  := by
  have h := wordsFrom_quote s []
  rw [List.append_nil] at h
  rw [words, h, wordsFrom_word_nil]

end Shell
