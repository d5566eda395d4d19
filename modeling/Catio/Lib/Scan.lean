import Mathlib.Data.List.Basic

/-!
# Index loops

A loop `while i < input.len() { … }` whose body looks at the input from `i` on, changes a state,
emits outputs, and either advances `i` or leaves the loop.  `Turn` is one turn, `loop` runs the
turns over a list, and `Reads` says that the loop reads a prefix of the input, with the characters
behind it present.  A `Streaming` loop never decides on input it may not see yet, and may be cut
anywhere (`Streaming.loop_append`).
-/

namespace Scan

variable {σ α β ρ : Type*}

/-- A turn of the loop: go on in state `s`, having emitted `out` and skipped `skip` elements, or
leave with a result. -/
inductive Turn (σ β ρ : Type*) where
  | next (s : σ) (out : List β) (skip : ℕ)
  | stop (result : ρ)

/-- Run the turns of `body`, first skipping `k` elements; `done s` at the end. Outputs are collected
in order. -/
def loop (body : σ → α → List α → Turn σ β ρ) (done : σ → ρ) : ℕ → σ → List α → List β × ρ
  | _, s, [] => ([], done s)
  | k + 1, s, _ :: xs => loop body done k s xs
  | 0, s, x :: xs =>
      match body s x xs with
      | .next s' out k =>
          let rest := loop body done k s' xs
          (out ++ rest.1, rest.2)
      | .stop r => ([], r)

variable {body : σ → α → List α → Turn σ β ρ} {done : σ → ρ}

@[simp]
theorem loop_nil (k : ℕ) (s : σ) :
  loop body done k s [] = ([], done s)
  := by
  cases k with
  | zero => rfl
  | succ k => rfl

theorem loop_skip (s : σ) :
  ∀ (k : ℕ) (xs : List α), loop body done k s xs = loop body done 0 s (xs.drop k)
  | 0, xs => by rw [List.drop_zero]
  | k + 1, [] => by simp
  | k + 1, x :: xs => loop_skip s k xs

theorem loop_next {s s' : σ} {x : α} {xs : List α} {out : List β} {k : ℕ}
    (h : body s x xs = .next s' out k) :
  loop body done 0 s (x :: xs)
    = (out ++ (loop body done 0 s' (xs.drop k)).1, (loop body done 0 s' (xs.drop k)).2)
  := by
  simp only [loop, h]
  rw [loop_skip s' k xs]

theorem loop_stop {s : σ} {x : α} {xs : List α} {r : ρ} (h : body s x xs = .stop r) :
  loop body done 0 s (x :: xs) = ([], r)
  := by
  simp only [loop, h]

/-! ### Reading a prefix -/

/-- From state `s` with `xs` ahead, whole turns of `body` reach state `s'` with `ys` ahead, emitting
`out`. -/
inductive Reads (body : σ → α → List α → Turn σ β ρ) :
    σ → List α → List α → σ → List β → Prop where
  | refl (s : σ) (xs : List α) : Reads body s xs xs s []
  | turn {s s' s'' : σ} {x : α} {xs ys : List α} {out out' : List β} {k : ℕ}
      (head : body s x xs = .next s' out k) (fits : k ≤ xs.length)
      (rest : Reads body s' (xs.drop k) ys s'' out') :
      Reads body s (x :: xs) ys s'' (out ++ out')

namespace Reads

theorem single {s s' : σ} {x : α} {xs : List α} {out : List β} (h : body s x xs = .next s' out 0) :
  Reads body s (x :: xs) xs s' out
  := by
  have rest := Reads.turn h (Nat.zero_le _) (Reads.refl s' xs)
  simpa using rest

variable {out : List β} {xs ys : List α} {s s' : σ}

/-- One turn that skips the elements `ys`. -/
theorem skipping {x : α} {zs : List α} {k : ℕ} (ys : List α)
    (h : body s x (ys ++ zs) = .next s' out k) (hk : k = ys.length) :
  Reads body s (x :: (ys ++ zs)) zs s' out
  := by
  subst hk
  have rest : Reads body s' ((ys ++ zs).drop ys.length) zs s' [] := by
    rw [List.drop_left]
    apply Reads.refl
  have whole := Reads.turn h (by simp) rest
  simpa using whole

theorem trans {s s' s'' : σ} {xs ys zs : List α} {out out' : List β}
    (first : Reads body s xs ys s' out) (last : Reads body s' ys zs s'' out') :
  Reads body s xs zs s'' (out ++ out')
  := by
  induction first with
  | refl => simpa using last
  | turn head fits _ ih =>
    rw [List.append_assoc]
    apply Reads.turn head fits (ih last)

/-- What is ahead after a reading is a suffix of what was ahead before it. -/
theorem suffix (h : Reads body s xs ys s' out) :
  ys <:+ xs
  := by
  induction h with
  | refl => apply List.suffix_refl
  | turn _ _ _ ih =>
    apply ih.trans
    apply (List.drop_suffix _ _).trans
    apply List.suffix_cons

/-- A loop that takes the same turns reads the same way. -/
theorem of_agrees {ρ' : Type*} {g : σ → α → List α → Turn σ β ρ'}
    (agrees : ∀ s x xs s' out k, body s x xs = .next s' out k → g s x xs = .next s' out k)
    (h : Reads body s xs ys s' out) :
  Reads g s xs ys s' out
  := by
  induction h with
  | refl => apply Reads.refl
  | turn head fits _ ih => apply Reads.turn (agrees _ _ _ _ _ _ head) fits ih

/-- A property of states kept by every turn is kept by a reading. -/
theorem invariant {P : σ → Prop}
    (keeps : ∀ s x xs s' out k, P s → body s x xs = .next s' out k → P s')
    (h : Reads body s xs ys s' out) (hs : P s) :
  P s'
  := by
  induction h with
  | refl => exact hs
  | turn head _ _ ih =>
    apply ih
    apply keeps _ _ _ _ _ _ hs head

/-- The loop on what a reading had ahead is the loop on what it leaves ahead, with the
outputs of the reading in front. -/
theorem loop_eq (h : Reads body s xs ys s' out) (done : σ → ρ) :
  loop body done 0 s xs = (out ++ (loop body done 0 s' ys).1, (loop body done 0 s' ys).2)
  := by
  induction h with
  | refl => rfl
  | turn head _ _ ih => rw [loop_next head, ih, List.append_assoc]

theorem loop_done {xs : List α} (h : Reads body s xs [] s' out) (done : σ → ρ) :
  loop body done 0 s xs = (out, done s')
  := by
  rw [h.loop_eq, loop_nil, List.append_nil]

end Reads

/-- A body whose turns skip only elements that are there. -/
def Fits (body : σ → α → List α → Turn σ β ρ) : Prop :=
  ∀ s x xs s' out k, body s x xs = .next s' out k → k ≤ xs.length

/-- The loop reads up to the turn that leaves it, or to the end of the input. -/
theorem exists_reads (fits : Fits body) (done : σ → ρ) (s : σ) (xs : List α) :
  (∃ s' out, Reads body s xs [] s' out ∧ loop body done 0 s xs = (out, done s'))
    ∨ ∃ s' y ys out r, Reads body s xs (y :: ys) s' out ∧ body s' y ys = .stop r
        ∧ loop body done 0 s xs = (out, r)
  := by
  induction hn : xs.length using Nat.strongRecOn generalizing s xs with
  | _ n ih =>
    match xs with
    | [] =>
      left
      use s, [], Reads.refl s []
      apply loop_nil
    | x :: xs =>
      match hbody : body s x xs with
      | .stop r =>
        right
        use s, x, xs, [], r, Reads.refl s _, hbody
        apply loop_stop hbody
      | .next s₁ out₁ k =>
        have hk := fits _ _ _ _ _ _ hbody
        have hlt : (xs.drop k).length < n := by
          rw [← hn, List.length_drop, List.length_cons]
          omega
        rcases ih _ hlt s₁ (xs.drop k) rfl with ⟨s', out, hr, hl⟩ | ⟨s', y, ys, out, r, hr, hs, hl⟩
        · left
          use s', out₁ ++ out, Reads.turn hbody hk hr
          rw [loop_next hbody, hl]
        · right
          use s', y, ys, out₁ ++ out, r, Reads.turn hbody hk hr, hs
          rw [loop_next hbody, hl]

/-! ### Cutting the input -/

/-- What a turn consumes, and how it goes on, does not depend on what follows the input. -/
def Stable (body : σ → α → List α → Turn σ β ρ) : Prop :=
  ∀ s x xs s' out k ys,
    body s x xs = .next s' out k → body s x (xs ++ ys) = .next s' out k

/-- A reading by stable turns is not disturbed by further input. -/
theorem Reads.append (stable : Stable body) {s s' : σ} {xs ys : List α} {out : List β} (zs : List α)
    (r : Reads body s xs ys s' out) :
  Reads body s (xs ++ zs) (ys ++ zs) s' out
  := by
  induction r with
  | refl => apply Reads.refl
  | turn head fits _ ih =>
    apply Reads.turn (stable _ _ _ _ _ _ zs head)
    · rw [List.length_append]
      omega
    · rw [List.drop_append_of_le_length fits]
      apply ih

/-- A loop that leaves only by keeping back everything from the current element on. -/
structure Streaming (body : σ → α → List α → Turn σ β (σ × List α)) : Prop where
  holds : ∀ s x xs r, body s x xs = .stop r → r = (s, x :: xs)
  fits : Fits body
  stable : Stable body

/-- The state and the input held back at the end of an input that was read whole. -/
def nothingHeld (s : σ) : σ × List α := (s, [])

section

variable {body : σ → α → List α → Turn σ β (σ × List α)}

/-- Every streaming loop reads its input up to what it holds back. -/
theorem Streaming.reads (h : Streaming body) (s : σ) (xs : List α) :
  Reads body s xs (loop body nothingHeld 0 s xs).2.2 (loop body nothingHeld 0 s xs).2.1
    (loop body nothingHeld 0 s xs).1
  := by
  rcases exists_reads h.fits nothingHeld s xs with ⟨s', out, hr, hl⟩ | ⟨s', y, ys, out, r, hr, hs, hl⟩
  · rw [hl]
    apply hr
  · rw [hl, h.holds _ _ _ _ hs]
    apply hr

/-- A part of the input, and then what was held back followed by the rest, is the whole input. -/
theorem Streaming.loop_append (h : Streaming body) (s : σ) (xs ys : List α) :
  let first := loop body nothingHeld 0 s xs
  let last := loop body nothingHeld 0 first.2.1 (first.2.2 ++ ys)
  loop body nothingHeld 0 s (xs ++ ys) = (first.1 ++ last.1, last.2)
  := ((h.reads s xs).append h.stable ys).loop_eq _

/-- A streaming loop that is given again what it held back holds it back. -/
theorem Streaming.loop_held (h : Streaming body) (s : σ) (xs : List α) :
  let first := loop body nothingHeld 0 s xs
  loop body nothingHeld 0 first.2.1 first.2.2 = ([], first.2.1, first.2.2)
  := by
  intro first
  have happend := h.loop_append s xs []
  simp only [List.append_nil] at happend
  have hout := congrArg (fun r => r.1) happend
  have hres := congrArg (fun r => r.2) happend
  apply Prod.ext
  · simpa using hout
  · exact hres.symm

end

end Scan
