import Mathlib.Data.List.Basic

/-!
# Replacing matches

The replacement of all matches in a list, from left to right and without overlaps.  What
matches at a place is given by its length, where zero stands for no match.
-/

namespace Replace

variable {α β : Type*}

/-- Replace all matches by the marker, first skipping `k` elements. -/
def replaceFrom (len : List α → ℕ) (marker : List α) : ℕ → List α → List α
  | _, [] => []
  | k + 1, _ :: xs => replaceFrom len marker k xs
  | 0, x :: xs =>
      match len (x :: xs) with
      | 0 => x :: replaceFrom len marker 0 xs
      | n + 1 => marker ++ replaceFrom len marker n xs

def replaceAll (len : List α → ℕ) (marker : List α) (xs : List α) : List α :=
  replaceFrom len marker 0 xs

end Replace
