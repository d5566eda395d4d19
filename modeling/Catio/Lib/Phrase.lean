import Mathlib.Data.Bool.AllAny
import Catio.Lib.Scan
import Catio.Lib.Text

/-!
# Phrases

A phrase is built from atoms with separators between them and with brackets around parts of
it.  A reader is a loop that knows what to do at separators and brackets; a reader that
reads every atom standing between boundaries reads every phrase (`Reader.scans_phrase`), so
a writer and a loop are compared on the atoms alone.
-/

open Scan

/-- The separators and the brackets of a language. -/
structure Punctuation (α : Type*) where
  separator : α → Prop
  opener : α
  closer : α

/-- Atoms end where one of these stands. -/
def Punctuation.boundary {α : Type*} (P : Punctuation α) (x : α) : Prop :=
  P.separator x ∨ x = P.opener ∨ x = P.closer

/-- Atoms with separators between them and brackets around some of them. -/
inductive Phrase {α : Type*} (P : Punctuation α) (atom : List α → Prop) : List α → Prop
  | nil : Phrase P atom []
  | atom {t : List α} (h : atom t) : Phrase P atom t
  | sep {t u : List α} {x : α} (hx : P.separator x) (ht : Phrase P atom t)
      (hu : Phrase P atom u) : Phrase P atom (t ++ x :: u)
  | group {t u v : List α} (ht : Phrase P atom t) (hu : Phrase P atom u)
      (hv : Phrase P atom v) : Phrase P atom (t ++ P.opener :: (u ++ P.closer :: v))

namespace Phrase

section

variable {α : Type*} {P : Punctuation α} {atom atom' : List α → Prop}

theorem call {t u : List α} (ht : Phrase P atom t) (hu : Phrase P atom u) :
  Phrase P atom (t ++ P.opener :: (u ++ [P.closer]))
  := .group ht hu .nil

theorem parens {t : List α} (ht : Phrase P atom t) :
  Phrase P atom (P.opener :: (t ++ [P.closer]))
  := call .nil ht

theorem separators_append {seps t : List α} (hseps : ∀ x ∈ seps, P.separator x)
    (ht : Phrase P atom t) :
  Phrase P atom (seps ++ t)
  := by
  induction seps with
  | nil => exact ht
  | cons x seps ih =>
    apply Phrase.sep (hseps x List.mem_cons_self) .nil
    apply ih
    intro y hy
    apply hseps y (List.mem_cons_of_mem x hy)

theorem append {seps t u : List α} (ht : Phrase P atom t) (hne : seps ≠ [])
    (hseps : ∀ x ∈ seps, P.separator x) (hu : Phrase P atom u) :
  Phrase P atom (t ++ (seps ++ u))
  := by
  obtain ⟨x, seps, rfl⟩ := List.exists_cons_of_ne_nil hne
  apply Phrase.sep (hseps x List.mem_cons_self) ht
  apply separators_append _ hu
  intro y hy
  apply hseps y (List.mem_cons_of_mem x hy)

end

theorem join {P : Punctuation Char} {atom : Text → Prop} {sep : Text}
    (hsep : ∀ t u, Phrase P atom t → Phrase P atom u → Phrase P atom (t ++ (sep ++ u))) :
  ∀ {parts : List Text}, (∀ t ∈ parts, Phrase P atom t) → Phrase P atom (Text.join sep parts)
  | [], _ => .nil
  | [t], h => by
      rw [Text.join, List.intersperse_singleton, List.flatten_singleton]
      apply h t List.mem_cons_self
  | t :: u :: parts, h => by
      have rest : Phrase P atom (Text.join sep (u :: parts)) := by
        apply join hsep
        intro v hv
        apply h v (List.mem_cons_of_mem t hv)
      rw [Text.join, List.intersperse_cons_cons, List.flatten_cons, List.flatten_cons]
      apply hsep _ _ (h t List.mem_cons_self) rest

end Phrase

/-! ### Readers -/

section

variable {σ α β ρ : Type*}

/-- A loop whose states behind a text, inside of so many brackets, are described by `At`. It reads
separators and brackets, and emits what may be emitted inside of a phrase. -/
structure Reader (P : Punctuation α) (body : σ → α → List α → Turn σ β ρ) where
  At : ℕ → List α → σ → Prop
  emits : β → Prop
  separator : ∀ {d front s x rest}, P.separator x → At d front s →
    ∃ s' out, Reads body s (x :: rest) rest s' out ∧ (∀ y ∈ out, emits y)
      ∧ At d (front ++ [x]) s'
  opener : ∀ {d front s rest}, At d front s →
    ∃ s' out, Reads body s (P.opener :: rest) rest s' out ∧ (∀ y ∈ out, emits y)
      ∧ At (d + 1) (front ++ [P.opener]) s'
  closer : ∀ {d front s rest}, At (d + 1) front s →
    ∃ s' out, Reads body s (P.closer :: rest) rest s' out ∧ (∀ y ∈ out, emits y)
      ∧ At d (front ++ [P.closer]) s'

namespace Reader

variable {P : Punctuation α} {body : σ → α → List α → Turn σ β ρ}

/-- The loop reads `t`, standing behind `front` and before `rest`. -/
def Reading (R : Reader P body) (d' : ℕ) (front t rest : List α) (s : σ) : Prop :=
  ∃ s' out, Reads body s (t ++ rest) rest s' out ∧ (∀ y ∈ out, R.emits y)
    ∧ R.At d' (front ++ t) s'

/-- The loop reads a text wherever it stands between boundaries. -/
def Scans (R : Reader P body) (t : List α) : Prop :=
  ∀ d front rest s, R.At d front s → (∀ x ∈ front.getLast?, P.boundary x) →
    (∀ x ∈ rest.head?, P.boundary x) → R.Reading d front t rest s

theorem Reading.trans {R : Reader P body} {e f : ℕ} {front t u rest : List α} {s : σ}
    (first : R.Reading e front t (u ++ rest) s)
    (last : ∀ s', R.At e (front ++ t) s' → R.Reading f (front ++ t) u rest s') :
  R.Reading f front (t ++ u) rest s
  := by
  obtain ⟨s₁, out₁, hreads₁, hemits₁, hat₁⟩ := first
  obtain ⟨s₂, out₂, hreads₂, hemits₂, hat₂⟩ := last s₁ hat₁
  use s₂, out₁ ++ out₂
  refine ⟨?_, ?_, ?_⟩
  · rw [List.append_assoc]
    apply hreads₁.trans hreads₂
  · intro y hy
    rcases List.mem_append.mp hy with hy | hy
    · apply hemits₁ y hy
    · apply hemits₂ y hy
  · rw [← List.append_assoc]
    apply hat₂

theorem Reading.cons {R : Reader P body} {e f : ℕ} {front u rest : List α} {x : α} {s : σ}
    (first : ∃ s' out, Reads body s (x :: (u ++ rest)) (u ++ rest) s' out
      ∧ (∀ y ∈ out, R.emits y) ∧ R.At e (front ++ [x]) s')
    (last : ∀ s', R.At e (front ++ [x]) s' → R.Reading f (front ++ [x]) u rest s') :
  R.Reading f front (x :: u) rest s
  := Reading.trans (t := [x]) first last

theorem scans_phrase (R : Reader P body) {atom : List α → Prop} (atoms : ∀ t, atom t → R.Scans t)
    {t : List α} (h : Phrase P atom t) :
  R.Scans t
  := by
  induction h with
  | nil =>
    intro d front rest s hat _ _
    use s, [], Reads.refl s rest
    simpa using hat
  | atom h => apply atoms _ h
  | @sep t u x hx _ _ iht ihu =>
    intro d front rest s hat hfront hrest
    have hfirst := iht d front (x :: u ++ rest) s hat hfront (by simp [Punctuation.boundary, hx])
    apply hfirst.trans
    intro s₁ hat₁
    apply Reading.cons (R.separator hx hat₁)
    intro s₂ hat₂
    apply ihu _ _ _ _ hat₂ _ hrest
    simp [Punctuation.boundary, hx]
  | @group t u v _ _ _ iht ihu ihv =>
    intro d front rest s hat hfront hrest
    have hfirst := iht d front (P.opener :: (u ++ P.closer :: v) ++ rest) s hat hfront
      (by simp [Punctuation.boundary])
    apply hfirst.trans
    intro s₁ hat₁
    apply Reading.cons (R.opener hat₁)
    intro s₂ hat₂
    apply Reading.trans (t := u)
    · apply ihu _ _ _ _ hat₂
      · simp [Punctuation.boundary]
      · simp [Punctuation.boundary]
    · intro s₃ hat₃
      apply Reading.cons (R.closer hat₃)
      intro s₄ hat₄
      apply ihv _ _ _ _ hat₄ _ hrest
      rw [List.getLast?_concat]
      simp [Punctuation.boundary]

theorem reading_call (R : Reader P body) {atom : List α → Prop} (atoms : ∀ t, atom t → R.Scans t)
    {t u : List α} (ht : Phrase P atom t) (hu : Phrase P atom u) {d : ℕ} {front : List α} {s : σ}
    (hat : R.At d front s) (hfront : ∀ x ∈ front.getLast?, P.boundary x) (rest : List α) :
  R.Reading d front (t ++ P.opener :: (u ++ [P.closer])) rest s
  := by
  apply Reading.trans (e := d)
  · apply R.scans_phrase atoms ht _ _ _ _ hat hfront
    simp [Punctuation.boundary]
  · intro s₁ hat₁
    apply Reading.cons (R.opener hat₁)
    intro s₂ hat₂
    apply Reading.trans (e := d + 1)
    · apply R.scans_phrase atoms hu _ _ _ _ hat₂
      · simp [Punctuation.boundary]
      · simp [Punctuation.boundary]
    · intro s₃ hat₃
      apply Reading.cons (R.closer hat₃)
      intro s₄ hat₄
      use s₄, [], Reads.refl s₄ rest
      simpa using hat₄

end Reader

end
