import Catio.Lib.Text
import Mathlib.Data.List.Infix

/-!
# Words

The words of a text are its longest parts without white space.  They are those of the texts
before and behind any blank (`splitWhitespace_append_blank_cons`), so blanks at the ends do not
matter, and a text of words with single blanks between them has these words
(`splitWhitespace_join`).
-/

namespace Text

/-- A text that is not empty and has no white space. -/
def IsWord (w : Text) : Prop :=
  w ≠ [] ∧ ∀ c ∈ w, isWhitespace c = false

theorem visible_of_all {t : Text} (h : (t.all fun c => !isWhitespace c) = true) :
  ∀ c ∈ t, isWhitespace c = false
  := by
  intro c hc
  simpa using List.all_eq_true.mp h c hc

theorem splitWhitespace_nil :
  splitWhitespace [] = []
  := by simp [splitWhitespace]

theorem splitWhitespace_append_blank_cons {c : Char} (hc : isWhitespace c) (s t : Text) :
  splitWhitespace (s ++ c :: t) = splitWhitespace s ++ splitWhitespace t
  := by
  rw [splitWhitespace, List.splitOnP_append_cons s t hc, List.filter_append]
  rfl

theorem splitWhitespace_blank_cons {c : Char} (hc : isWhitespace c) (t : Text) :
  splitWhitespace (c :: t) = splitWhitespace t
  := by
  have happend := splitWhitespace_append_blank_cons hc [] t
  rwa [splitWhitespace_nil] at happend

theorem splitWhitespace_blanks_append {s : Text} (hs : ∀ c ∈ s, isWhitespace c) (t : Text) :
  splitWhitespace (s ++ t) = splitWhitespace t
  := by
  induction s with
  | nil => rfl
  | cons c s ih =>
    rw [List.cons_append, splitWhitespace_blank_cons (hs c List.mem_cons_self)]
    apply ih
    intro d hd
    apply hs d (List.mem_cons_of_mem c hd)

theorem splitWhitespace_append_blanks (t : Text) {s : Text} (hs : ∀ c ∈ s, isWhitespace c) :
  splitWhitespace (t ++ s) = splitWhitespace t
  := by
  cases s with
  | nil => rw [List.append_nil]
  | cons c s =>
    rw [splitWhitespace_append_blank_cons (hs c List.mem_cons_self)]
    have hrest := splitWhitespace_blanks_append
      (fun d hd => hs d (List.mem_cons_of_mem c hd)) []
    rw [List.append_nil] at hrest
    rw [hrest, splitWhitespace_nil, List.append_nil]

theorem splitWhitespace_word {w : Text} (hw : IsWord w) :
  splitWhitespace w = [w]
  := by
  rw [splitWhitespace, List.splitOnP_eq_singleton hw.2]
  simp [hw.1]

theorem isWord_of_mem {t w : Text} (h : w ∈ splitWhitespace t) :
  IsWord w
  := by
  obtain ⟨hmem, hne⟩ := List.mem_filter.mp h
  constructor
  · simpa using hne
  · intro c hc
    apply (mem_of_mem_splitOnP hmem hc).2

theorem splitWhitespace_trim (t : Text) :
  splitWhitespace (trim t) = splitWhitespace t
  := by
  have hblank (s : Text) : ∀ c ∈ s.takeWhile isWhitespace, isWhitespace c := by
    intro c hc
    apply List.mem_takeWhile_imp hc
  have hstart : splitWhitespace (trimStart t) = splitWhitespace t := by
    conv_rhs => rw [← List.takeWhile_append_dropWhile (p := isWhitespace) (l := t)]
    rw [splitWhitespace_blanks_append (hblank t)]
    rfl
  rw [← hstart, trim]
  generalize trimStart t = s
  conv_rhs => rw [← List.rdropWhile_append_rtakeWhile (p := isWhitespace) (l := s)]
  rw [splitWhitespace_append_blanks]
  · rfl
  · intro c hc
    rw [List.rtakeWhile, List.mem_reverse] at hc
    apply List.mem_takeWhile_imp hc

theorem isWhitespace_of_splitWhitespace_nil {t : Text} (h : splitWhitespace t = []) :
  ∀ c ∈ t, isWhitespace c
  := by
  induction t with
  | nil => simp
  | cons c t ih =>
    cases hc : isWhitespace c with
    | true =>
      rw [splitWhitespace_blank_cons hc] at h
      intro d hd
      rcases List.mem_cons.mp hd with rfl | hd
      · exact hc
      · exact ih h d hd
    | false =>
      obtain ⟨first, rest, hsplit⟩ :=
        List.exists_cons_of_ne_nil (List.splitOnP_ne_nil isWhitespace t)
      rw [splitWhitespace, List.splitOnP_cons_eq_if_modifyHead, hsplit] at h
      simp [hc] at h

theorem exists_mem_of_mem_join {parts : List Text} {c d : Char} (hne : c ≠ d)
    (h : c ∈ join [d] parts) :
  ∃ part ∈ parts, c ∈ part
  := by
  obtain ⟨part, hpart, hinfix⟩ := infix_of_join (c := d) (List.cons_ne_nil c [])
    (by simpa using hne.symm) ((List.singleton_infix_iff c _).mpr h)
  exact ⟨part, hpart, (List.singleton_infix_iff c part).mp hinfix⟩

theorem splitWhitespace_join {words : List Text} (hwords : ∀ w ∈ words, IsWord w) :
  splitWhitespace (join " " words) = words
  := by
  induction words with
  | nil => simp [join, splitWhitespace_nil]
  | cons w words ih =>
    have hw := hwords w List.mem_cons_self
    have hrest : ∀ v ∈ words, IsWord v := by
      intro v hv
      apply hwords v (List.mem_cons_of_mem w hv)
    cases words with
    | nil => rw [join_singleton, splitWhitespace_word hw]
    | cons v words =>
      rw [join_cons_cons, List.append_assoc]
      change splitWhitespace (w ++ ' ' :: join " " (v :: words)) = w :: v :: words
      rw [splitWhitespace_append_blank_cons (by decide), ih hrest, splitWhitespace_word hw]
      rfl

end Text
