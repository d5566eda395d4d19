import Catio.Lib.Words

/-!
# Paths

The lexical normal form of a path: repeated slashes and slashes at the end are left out, and so
are the components `.`, and `..` with the component before it.
-/

namespace Paths

open Text

/-- The components of a path that say something. -/
def components (path : Text) : List Text :=
  (path.splitOn '/').filter fun c => c ≠ [] ∧ c ≠ "."

/-- Go on with a component, behind those so far in reverse order. Nothing is above the root, and
what is above a relative path is not known. -/
def enter (absolute : Bool) (above : List Text) (c : Text) : List Text :=
  if c = ".." then
    match above with
    | [] => if absolute then [] else [c]
    | top :: rest => if top = ".." then c :: above else rest
  else c :: above

/-- The components that are left. -/
def resolve (absolute : Bool) (cs : List Text) : List Text :=
  (cs.foldl (enter absolute) []).reverse

/-- A path starts at the root. -/
def isAbsolute (path : Text) : Bool :=
  path.head? = some '/'

/-- The path of components; there may be none. -/
def assemble (absolute : Bool) (cs : List Text) : Text :=
  if absolute then '/' :: join "/" cs else if cs = [] then "." else join "/" cs

def lexicalNormal (path : Text) : Text :=
  if path = [] then []
  else assemble (isAbsolute path) (resolve (isAbsolute path) (components path))

example : lexicalNormal "//usr/./local/..//" = "/usr" := by decide

example : lexicalNormal "/../etc/." = "/etc" := by decide

example : lexicalNormal "../a/../.." = "../.." := by decide

/-- The path without the slashes at its end. -/
def trimSlashes (path : Text) : Text :=
  path.rdropWhile (· = '/')

theorem exists_slashes (path : Text) :
  ∃ k, path = trimSlashes path ++ List.replicate k '/'
  := by
  use (path.rtakeWhile (· = '/')).length
  have hslashes : path.rtakeWhile (· = '/')
      = List.replicate (path.rtakeWhile (· = '/')).length '/' := by
    apply List.eq_replicate_of_mem
    intro c hc
    rw [List.rtakeWhile, List.mem_reverse] at hc
    simpa using List.mem_takeWhile_imp hc
  rw [← hslashes]
  exact List.rdropWhile_append_rtakeWhile.symm

theorem components_append_slashes (path : Text) (k : ℕ) :
  components (path ++ List.replicate k '/') = components path
  := by
  induction k with
  | zero => rw [List.replicate_zero, List.append_nil]
  | succ k ih =>
    rw [List.replicate_succ', ← List.append_assoc, ← ih, components, components,
      List.splitOn_eq_splitOnP, List.splitOn_eq_splitOnP,
      List.splitOnP_append_cons _ [] (by simp), List.filter_append]
    simp

theorem lexicalNormal_append_slashes {path : Text} (h : path ≠ []) (k : ℕ) :
  lexicalNormal (path ++ List.replicate k '/') = lexicalNormal path
  := by
  obtain ⟨c, path, rfl⟩ := List.exists_cons_of_ne_nil h
  have habsolute : isAbsolute (c :: path ++ List.replicate k '/') = isAbsolute (c :: path) := rfl
  rw [lexicalNormal, lexicalNormal, habsolute, components_append_slashes,
    if_neg (List.cons_ne_nil c path), List.cons_append, if_neg (List.cons_ne_nil c _)]

theorem lexicalNormal_slashes (k : ℕ) :
  lexicalNormal (List.replicate (k + 1) '/') = "/"
  := by
  have hroot := @lexicalNormal_append_slashes ['/'] (by simp) k
  rw [List.replicate_succ]
  exact hroot.trans (by decide)

/-! ### Components at the ends -/

theorem components_append_slash_cons (s t : Text) :
  components (s ++ '/' :: t) = components s ++ components t
  := by
  rw [components, List.splitOn_eq_splitOnP, List.splitOnP_append_cons s t (by simp),
    List.filter_append]
  rfl

theorem components_of_not_mem {s : Text} (hslash : '/' ∉ s) (hne : s ≠ []) (hdot : s ≠ ".") :
  components s = [s]
  := by
  rw [components, List.splitOn_eq_splitOnP, List.splitOnP_eq_singleton]
  · rw [List.filter_singleton, decide_eq_true ⟨hne, hdot⟩]
    rfl
  · intro c hc
    rw [beq_eq_false_iff_ne]
    rintro rfl
    exact hslash hc

theorem resolve_concat {absolute : Bool} {cs : List Text} {c : Text} (hc : c ≠ "..") :
  resolve absolute (cs ++ [c]) = resolve absolute cs ++ [c]
  := by
  have henter (above : List Text) : enter absolute above c = c :: above := if_neg hc
  rw [resolve, List.foldl_append, List.foldl_cons, List.foldl_nil, henter, List.reverse_cons]
  rfl

theorem resolve_of_not_mem {absolute : Bool} {cs : List Text} (h : (".." : Text) ∉ cs) :
  resolve absolute cs = cs
  := by
  induction cs using List.reverseRecOn with
  | nil => rfl
  | append_singleton cs c ih =>
    rw [List.mem_append, not_or, List.mem_singleton] at h
    rw [resolve_concat (Ne.symm h.2), ih h.1]

theorem mem_lexicalNormal_of_last (path : Text) {d : Char} (hslash : d ≠ '/') (hdot : d ≠ '.') :
  d ∈ lexicalNormal (path ++ [d])
  := by
  have hlast : ∃ cs c, components (path ++ [d]) = cs ++ [c ++ [d]] := by
    have hword {s : Text} (hs : '/' ∉ s) : components (s ++ [d]) = [s ++ [d]] := by
      apply components_of_not_mem
      · simp [hs, hslash.symm]
      · simp
      · intro h
        have hsame := congrArg List.getLast? h
        rw [List.getLast?_concat] at hsame
        exact hdot (Option.some.inj hsame)
    by_cases hpath : '/' ∈ path
    · obtain ⟨before, after, rfl, hafter⟩ : ∃ before after, path = before ++ '/' :: after
          ∧ '/' ∉ after := by
        obtain ⟨r, b, hreverse, hr⟩ := List.eq_append_cons_of_mem (List.mem_reverse.mpr hpath)
        use b.reverse, r.reverse
        constructor
        · have hsame := congrArg List.reverse hreverse
          simpa using hsame
        · simpa using hr
      use components before, after
      rw [List.append_assoc, List.cons_append, components_append_slash_cons, hword hafter]
    · exact ⟨[], path, hword hpath⟩
  obtain ⟨cs, c, hcs⟩ := hlast
  have hup : c ++ [d] ≠ ".." := by
    intro h
    have hsame := congrArg List.getLast? h
    rw [List.getLast?_concat] at hsame
    exact hdot (Option.some.inj hsame)
  have hjoin (front : List Text) : d ∈ join "/" (front ++ [c ++ [d]]) := by
    rw [join_concat]
    simp
  rw [lexicalNormal, if_neg (by simp), hcs, resolve_concat hup, assemble]
  split
  · exact List.mem_cons_of_mem _ (hjoin _)
  · rw [if_neg (by simp)]
    exact hjoin _

/-- A path that starts with a component which is not left by going up starts like its normal
form. -/
theorem mem_lexicalNormal_of_first {d : Char} {path : Text} (hslash : d ≠ '/') (hdot : d ≠ '.')
    (hup : ∀ before after, '/' ∉ before → d :: path = before ++ '/' :: after →
      (".." : Text) ∉ components after) :
  d ∈ lexicalNormal (d :: path)
  := by
  have hne {s : Text} : d :: s ≠ "." := by
    intro h
    exact hdot (List.cons.inj h).1
  have hcs : ∃ s cs, components (d :: path) = (d :: s) :: cs ∧ (".." : Text) ∉ cs := by
    by_cases hpath : '/' ∈ d :: path
    · obtain ⟨before, after, hsplit, hbefore⟩ := List.eq_append_cons_of_mem hpath
      cases before with
      | nil => exact absurd (List.cons.inj hsplit).1 hslash
      | cons d' s =>
        obtain rfl := (List.cons.inj hsplit).1
        use s, components after
        constructor
        · rw [hsplit, components_append_slash_cons,
            components_of_not_mem hbefore (List.cons_ne_nil d s) hne]
          rfl
        · exact hup (d :: s) after hbefore hsplit
    · use path, []
      constructor
      · exact components_of_not_mem hpath (List.cons_ne_nil d path) hne
      · simp
  obtain ⟨s, cs, hcs, hnot⟩ := hcs
  have hfirst : d :: s ≠ ".." := by
    intro h
    exact hdot (List.cons.inj h).1
  have hrelative : isAbsolute (d :: path) = false := by
    simp [isAbsolute, hslash]
  have hresolve : resolve false ((d :: s) :: cs) = (d :: s) :: cs := by
    apply resolve_of_not_mem
    rw [List.mem_cons, not_or]
    exact ⟨hfirst.symm, hnot⟩
  rw [lexicalNormal, if_neg (List.cons_ne_nil d path), hcs, hrelative, hresolve, assemble,
    if_neg (by simp), if_neg (List.cons_ne_nil _ _)]
  cases cs with
  | nil => simp [join_singleton]
  | cons c cs => simp [join_cons_cons]

end Paths
