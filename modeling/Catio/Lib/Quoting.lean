import Catio.Lib.Scan
import Catio.Lib.Text

/-!
# Quoted text

A doubled quote stands for itself and, in some languages, a backslash escapes what follows it.
Doubling the quotes of a text without backslashes quotes it in every such language (`whole_double`),
and doubling the backslashes too where a backslash escapes itself (`whole_escape`), but not the
quotes alone (`backslash_not_mem`).
-/

open Scan

variable {β : Type}

/-- The rules of a quoted text: its closing quote, what a character stands for, and what an escape
stands for and how long it is. -/
structure Quoting (β : Type) where
  close : Char
  emit : Char → List β
  escape : Option (Text → Option (List β × ℕ))

namespace Quoting

variable (q : Quoting β)

/-- A turn at a quote. -/
def closeTurn (rest : Text) : Turn Unit β (Option Text) :=
  if rest.head? = some q.close then .next () (q.emit q.close) 1 else .stop (some rest)

def backslashTurn (rest : Text) : Turn Unit β (Option Text) :=
  match q.escape with
  | none => .next () (q.emit '\\') 0
  | some escape =>
      match escape rest with
      | none => .stop none
      | some (out, n) => .next () out n

/-- A turn of the lexer inside of a quoted text. -/
def turn (_ : Unit) (c : Char) (rest : Text) : Turn Unit β (Option Text) :=
  if c = q.close then q.closeTurn rest
  else if c = '\\' then q.backslashTurn rest
  else .next () (q.emit c) 0

/-- What a quoted text stands for, read behind its opening quote, and what follows it if it is
closed. -/
def read (t : Text) : List β × Option Text :=
  loop q.turn (fun _ => none) 0 () t

/-- What a text stands for that is quoted as a whole. -/
def whole (t : Text) : Option (List β) :=
  match q.read t with
  | (out, some []) => some out
  | _ => none

/-- A text with its quotes doubled. -/
def double (t : Text) : Text :=
  Text.replaceChar q.close [q.close, q.close] t

variable {q}

variable {escape : Text → Option (List β × ℕ)} {out : List β} {t : Text} {rest : Text} {c : Char}

theorem turn_plain (hclose : c ≠ q.close) (h : c ≠ '\\' ∨ q.escape = none) (rest : Text) :
  q.turn () c rest = .next () (q.emit c) 0
  := by
  rw [turn, if_neg hclose]
  by_cases hc : c = '\\'
  · rw [if_pos hc, backslashTurn, h.resolve_left (not_not.mpr hc), hc]
  · rw [if_neg hc]

theorem turn_close (rest : Text) :
  q.turn () q.close (q.close :: rest) = .next () (q.emit q.close) 1
  := by
  rw [turn, if_pos rfl, closeTurn, List.head?_cons, if_pos rfl]

theorem read_of_reads (h : Reads q.turn () t (q.close :: rest) () out)
    (hrest : rest.head? ≠ some q.close) :
  q.read t = (out, some rest)
  := by
  have hstop : q.turn () q.close rest = .stop (some rest) := by
    rw [turn, if_pos rfl, closeTurn, if_neg hrest]
  rw [read, h.loop_eq, loop_stop hstop, List.append_nil]

theorem whole_next {n : ℕ} (h : q.turn () c rest = .next () out n) :
  q.whole (c :: rest) = (q.whole (rest.drop n)).map fun later => out ++ later
  := by
  unfold whole read
  rw [loop_next h]
  generalize loop q.turn (fun _ => none) 0 () (rest.drop n) = result
  obtain ⟨later, _ | _ | _⟩ := result <;> rfl

theorem whole_stop {result : Option Text} (h : q.turn () c rest = .stop result) :
  q.whole (c :: rest) = if result = some [] then some [] else none
  := by
  unfold whole read
  rw [loop_stop h]
  obtain _ | _ | _ := result <;> rfl

theorem whole_of_reads (h : Reads q.turn () t [q.close] () out) :
  q.whole t = some out
  := by
  rw [whole, read_of_reads h (by simp)]

theorem reads_double (h : '\\' ∉ t ∨ q.escape = none) (rest : Text) :
  Reads q.turn () (q.double t ++ rest) rest () (t.flatMap q.emit)
  := by
  induction t with
  | nil => exact .refl () rest
  | cons c t ih =>
    have ht : '\\' ∉ t ∨ q.escape = none := h.imp_left fun h ht => h (List.mem_cons_of_mem _ ht)
    rw [double, Text.replaceChar, List.flatMap_cons, List.flatMap_cons, List.append_assoc]
    apply Reads.trans _ (ih ht)
    split
    · rename_i hc
      subst hc
      exact Reads.skipping [q.close] (turn_close _) rfl
    · rename_i hc
      have hplain : c ≠ '\\' ∨ q.escape = none :=
        h.imp_left fun h hc => h (hc ▸ List.mem_cons_self ..)
      exact Reads.single (turn_plain hc hplain _)

theorem whole_double (h : '\\' ∉ t ∨ q.escape = none) :
  q.whole (q.double t ++ [q.close]) = some (t.flatMap q.emit)
  := by
  apply whole_of_reads
  exact reads_double h [q.close]

/-- A text with its quotes and its backslashes doubled is quoted, if a backslash escapes
itself. -/
theorem whole_escape (hescape : q.escape = some escape)
    (hself : ∀ rest, escape ('\\' :: rest) = some (q.emit '\\', 1)) (hclose : q.close ≠ '\\')
    (t : Text) :
  q.whole (q.double (Text.replaceChar '\\' ['\\', '\\'] t) ++ [q.close])
    = some (t.flatMap q.emit)
  := by
  apply whole_of_reads
  generalize [q.close] = rest
  induction t with
  | nil => exact .refl () rest
  | cons c t ih =>
    rw [double, Text.replaceChar, Text.replaceChar, List.flatMap_cons, List.flatMap_append,
      List.flatMap_cons, List.append_assoc]
    apply Reads.trans _ ih
    by_cases hc : c = '\\'
    · subst hc
      have hturn : ∀ rest, q.turn () '\\' ('\\' :: rest) = .next () (q.emit '\\') 1 := by
        intro rest
        rw [turn, if_neg (Ne.symm hclose), if_pos rfl, backslashTurn, hescape]
        dsimp only
        rw [hself]
      simp only [↓reduceIte, List.flatMap_cons, if_neg (Ne.symm hclose), List.flatMap_nil,
        List.append_nil, List.singleton_append]
      exact Reads.skipping ['\\'] (hturn _) rfl
    · rw [if_neg hc, List.flatMap_singleton]
      split
      · rename_i hquote
        subst hquote
        exact Reads.skipping [q.close] (turn_close _) rfl
      · rename_i hplain
        exact Reads.single (turn_plain hplain (.inl hc) _)

/-! ### Texts with backslashes -/

/-- A character stands for one thing, and so does an escape, which is longer. -/
structure Shortens (q : Quoting β) (escape : Text → Option (List β × ℕ)) : Prop where
  emit : ∀ c, (q.emit c).length = 1
  escape_eq : q.escape = some escape
  escape : ∀ rest out n, escape rest = some (out, n) →
    out.length = 1 ∧ 1 ≤ n ∧ n ≤ rest.length

/-- A text is as long as what it stands for, with what is doubled and what escapes take. -/
theorem lengths_of_read (hq : q.Shortens escape) (hclose : q.close ≠ '\\') (m : ℕ) (t : Text)
    (hm : t.length ≤ m) (out : List β) (rest : Text) (h : q.read t = (out, some rest)) :
  ∃ doubled escaped, t.length = out.length + doubled + escaped + rest.length + 1
    ∧ t.count q.close ≤ 2 * doubled + escaped + 1 + rest.count q.close
    ∧ t.count '\\' ≤ 2 * escaped + rest.count '\\'
  := by
  unfold read at h
  induction m generalizing t out with
  | zero =>
    obtain rfl := List.length_eq_zero_iff.mp (Nat.le_zero.mp hm)
    cases congrArg Prod.snd h
  | succ m ih =>
    cases t with
    | nil => cases congrArg Prod.snd h
    | cons c t =>
      rw [List.length_cons, Nat.succ_le_succ_iff] at hm
      -- what is read in a turn, and the rest of the text
      have hnext : ∀ {first n}, q.turn () c t = .next () first n → ∃ last,
          out = first ++ last ∧ loop q.turn (fun _ => none) 0 () (t.drop n)
            = (last, some rest) := by
        intro first n hturn
        rw [loop_next hturn] at h
        exact ⟨_, (Prod.mk.inj h).1.symm, Prod.ext rfl (Prod.mk.inj h).2⟩
      by_cases hquote : c = q.close
      · subst hquote
        by_cases hdouble : t.head? = some q.close
        · obtain ⟨t, rfl⟩ := List.head?_eq_some_iff.mp hdouble
          obtain ⟨last, rfl, hlast⟩ := hnext (turn_close t)
          rw [List.length_cons] at hm
          obtain ⟨doubled, escaped, hlength, hquotes, hbackslashes⟩ :=
            ih t (by omega) last hlast
          refine ⟨doubled + 1, escaped, ?_, ?_, ?_⟩
          · rw [List.length_cons, List.length_cons, List.length_append, hq.emit]
            omega
          · rw [List.count_cons_self, List.count_cons_self]
            omega
          · rw [List.count_cons_of_ne hclose, List.count_cons_of_ne hclose]
            exact hbackslashes
        · have hstop : q.turn () q.close t = .stop (some t) := by
            rw [turn, if_pos rfl, closeTurn, if_neg hdouble]
          rw [loop_stop hstop] at h
          obtain ⟨rfl, hrest⟩ := Prod.mk.inj h
          obtain rfl := Option.some.inj hrest
          refine ⟨0, 0, ?_, ?_, ?_⟩
          · rw [List.length_cons, List.length_nil]
            omega
          · rw [List.count_cons_self]
            omega
          · rw [List.count_cons_of_ne hclose]
            omega
      by_cases hbackslash : c = '\\'
      · subst hbackslash
        cases hescape : escape t with
        | none =>
          have hstop : q.turn () '\\' t = .stop none := by
            rw [turn, if_neg hquote, if_pos rfl, backslashTurn, hq.escape_eq]
            dsimp only
            rw [hescape]
          rw [loop_stop hstop] at h
          cases congrArg Prod.snd h
        | some read =>
          obtain ⟨first, n⟩ := read
          obtain ⟨hone, hpos, hfits⟩ := hq.escape _ _ _ hescape
          have hturn : q.turn () '\\' t = .next () first n := by
            rw [turn, if_neg hquote, if_pos rfl, backslashTurn, hq.escape_eq]
            dsimp only
            rw [hescape]
          obtain ⟨last, rfl, hlast⟩ := hnext hturn
          have hdrop : (t.drop n).length + n = t.length := by
            rw [List.length_drop]
            omega
          obtain ⟨doubled, escaped, hlength, hquotes, hbackslashes⟩ :=
            ih (t.drop n) (by omega) last hlast
          have htake : (t.take n).length = n := by
            rw [List.length_take]
            omega
          have hsplit : ∀ d : Char, t.count d ≤ n + (t.drop n).count d := by
            intro d
            have happend := congrArg (List.count d) (List.take_append_drop n t)
            have hle : (t.take n).count d ≤ (t.take n).length := List.count_le_length
            rw [List.count_append] at happend
            omega
          have hquoted := hsplit q.close
          have hescaped := hsplit '\\'
          refine ⟨doubled, escaped + n, ?_, ?_, ?_⟩
          · rw [List.length_cons, List.length_append, hone]
            omega
          · rw [List.count_cons_of_ne (Ne.symm hclose)]
            omega
          · rw [List.count_cons_self]
            omega
      · obtain ⟨last, rfl, hlast⟩ := hnext (turn_plain hquote (.inl hbackslash) t)
        rw [List.drop_zero] at hlast
        obtain ⟨doubled, escaped, hlength, hquotes, hbackslashes⟩ := ih t hm last hlast
        refine ⟨doubled, escaped, ?_, ?_, ?_⟩
        · rw [List.length_cons, List.length_append, hq.emit]
          omega
        · rw [List.count_cons_of_ne hquote]
          exact hquotes
        · rw [List.count_cons_of_ne hbackslash]
          exact hbackslashes

theorem lengths_double (hclose : q.close ≠ '\\') (t : Text) :
  (q.double t).length = t.length + t.count q.close
    ∧ (q.double t).count q.close = 2 * t.count q.close
    ∧ (q.double t).count '\\' = t.count '\\'
  := by
  induction t with
  | nil => exact ⟨rfl, rfl, rfl⟩
  | cons c t ih =>
    obtain ⟨hlength, hquotes, hbackslashes⟩ := ih
    unfold double Text.replaceChar at hlength hquotes hbackslashes ⊢
    rw [List.flatMap_cons, List.length_append, List.count_append, List.count_append, hlength,
      hquotes, hbackslashes]
    by_cases hc : c = q.close
    · subst hc
      simp only [↓reduceIte, List.length_cons, List.length_nil, List.count_cons_self,
        List.count_nil, List.count_cons_of_ne hclose]
      omega
    · by_cases hbackslash : c = '\\'
      · subst hbackslash
        simp only [if_neg hc, List.length_cons, List.length_nil, List.count_cons_self,
          List.count_nil, List.count_cons_of_ne hc]
        omega
      · simp only [if_neg hc, List.length_cons, List.length_nil, List.count_nil,
          List.count_cons_of_ne hc, List.count_cons_of_ne hbackslash]
        omega

theorem backslash_not_mem (hq : q.Shortens escape) (hclose : q.close ≠ '\\')
    (h : q.whole (q.double t ++ [q.close]) = some out) (hout : out.length = t.length) :
  '\\' ∉ t
  := by
  unfold whole at h
  split at h
  · rename_i read hread
    obtain rfl := Option.some.inj h
    obtain ⟨doubled, escaped, hlength, hquotes, hbackslashes⟩ :=
      lengths_of_read hq hclose _ _ le_rfl _ _ hread
    obtain ⟨hdouble, hcount, hplain⟩ := lengths_double hclose t
    rw [List.length_append, List.length_singleton, hdouble, hout, List.length_nil] at hlength
    rw [List.count_append, List.count_singleton_self, hcount, List.count_nil] at hquotes
    rw [List.count_append, hplain, List.count_nil] at hbackslashes
    rw [← List.count_eq_zero]
    omega
  · cases h

end Quoting
