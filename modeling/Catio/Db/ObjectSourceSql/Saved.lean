import Catio.Db.ObjectSourceSql

/-!
# Sources that are saved

When the saving of a source ends in a result, gives the same statement for a statement that it made
itself, and keeps what stands behind the keywords: unless a character lies across the place where a
keyword is looked for, and unless the source is nothing but keywords (`saved_iff`).
-/

namespace Db

open Text

/-! ### Trimmed texts -/

theorem trim_of_dropWord {word s rest : Text} (hs : trim s = s) (h : dropWord word s = some rest) :
  trim rest = rest
  := by
  obtain ⟨first, behind, rfl, -, -, rfl⟩ := dropWord_eq_some.mp h
  rw [trim_eq_self_iff]
  constructor
  · intro c hc
    have hnot := List.head?_dropWhile_not isWhitespace behind
    rw [trimStart] at hc
    rw [hc] at hnot
    exact hnot
  · intro c hc
    apply (trim_eq_self_iff.mp hs).2
    obtain ⟨blanks, hblanks⟩ : trimStart behind <:+ behind := List.dropWhile_suffix _
    rw [← hblanks, List.getLast?_append, List.getLast?_append, hc]
    rfl

variable {s : Text} {rest : Text}

theorem ensureSemicolon_cases (hs : trim s = s) :
  (ensureSemicolon s = s ∧ s.getLast? = some ';')
    ∨ (ensureSemicolon s = s ++ [';'] ∧ s.getLast? ≠ some ';')
  := by
  unfold ensureSemicolon
  dsimp only
  rw [hs]
  by_cases hlast : s.getLast? = some ';'
  · exact .inl ⟨if_pos hlast, hlast⟩
  · exact .inr ⟨if_neg hlast, hlast⟩

theorem getLast?_ensureSemicolon (s : Text) :
  (ensureSemicolon s).getLast? = some ';'
  := by
  unfold ensureSemicolon
  dsimp only
  split
  · assumption
  · rw [List.getLast?_concat]

theorem trim_ensureSemicolon (hs : trim s = s) :
  trim (ensureSemicolon s) = ensureSemicolon s
  := by
  rw [trim_eq_self_iff]
  constructor
  · intro c hc
    obtain ⟨heq, -⟩ | ⟨heq, -⟩ := ensureSemicolon_cases hs
    · rw [heq] at hc
      exact (trim_eq_self_iff.mp hs).1 c hc
    · rw [heq] at hc
      obtain _ | ⟨d, s⟩ := s
      · cases hc
        rfl
      · cases hc
        exact (trim_eq_self_iff.mp hs).1 _ rfl
  · intro c hc
    rw [getLast?_ensureSemicolon] at hc
    cases hc
    rfl

theorem ensureSemicolon_of_getLast (hs : trim s = s) (h : s.getLast? = some ';') :
  ensureSemicolon s = s
  := by
  obtain ⟨heq, -⟩ | ⟨-, hnot⟩ := ensureSemicolon_cases hs
  · exact heq
  · exact absurd h hnot

theorem trim_ensureSemicolon_self (s : Text) :
  trim (ensureSemicolon s) = ensureSemicolon s
  := by
  have htrim : ensureSemicolon (trim s) = ensureSemicolon s := by
    unfold ensureSemicolon
    dsimp only
    rw [trim_trim]
  rw [← htrim, trim_ensureSemicolon (trim_trim s)]

theorem ensureSemicolon_ne_nil (s : Text) :
  ensureSemicolon s ≠ []
  := by
  intro hnil
  have hlast := getLast?_ensureSemicolon s
  rw [hnil] at hlast
  cases hlast

theorem prefix_ensureSemicolon (hs : trim s = s) :
  s <+: ensureSemicolon s
  := by
  obtain ⟨heq, -⟩ | ⟨heq, -⟩ := ensureSemicolon_cases hs
  · exact ⟨[], by rw [heq, List.append_nil]⟩
  · rw [heq]
    exact List.prefix_append s _

/-! ### Keywords with a semicolon behind them -/

theorem dropWord_concat {word s rest : Text} (h : dropWord word s = some rest) (hne : rest ≠ []) :
  dropWord word (s ++ [';']) = some (rest ++ [';'])
  := by
  obtain ⟨first, behind, rfl, hfirst, hbehind, rfl⟩ := dropWord_eq_some.mp h
  rw [dropWord_eq_some]
  refine ⟨first, behind ++ [';'], by simp, hfirst, ?_, ?_⟩
  · obtain _ | ⟨c, behind⟩ := behind
    · exact absurd rfl hne
    · exact hbehind
  · rw [trimStart, trimStart, List.dropWhile_append, if_neg]
    intro hnil
    exact hne (List.isEmpty_iff.mp hnil)

theorem dropWord_concat_none {word s : Text} (hword : ';' ∉ toAsciiLowercase word)
    (h : dropWord word s = none) :
  dropWord word (s ++ [';']) = none
  := by
  rw [Option.eq_none_iff_forall_ne_some] at h ⊢
  intro rest hrest
  obtain ⟨first, behind, heq, hfirst, hbehind, -⟩ := dropWord_eq_some.mp hrest
  obtain rfl | ⟨behind, d, rfl⟩ := List.eq_nil_or_concat behind
  · rw [List.append_nil] at heq
    rw [← heq, eqIgnoreAsciiCase_iff] at hfirst
    apply hword
    rw [← hfirst]
    simp [toAsciiLowercase]
  · rw [List.concat_eq_append, ← List.append_assoc] at heq
    obtain ⟨rfl, -⟩ := List.append_inj' heq rfl
    apply h (trimStart behind)
    rw [dropWord_eq_some]
    refine ⟨first, behind, rfl, hfirst, ?_, rfl⟩
    intro c hc
    apply hbehind
    rw [List.concat_eq_append, List.head?_append, hc]
    rfl

theorem eq_word_of_dropWord_nil {word s : Text} (hs : trim s = s) (h : dropWord word s = some []) :
  eqIgnoreAsciiCase s word
  := by
  obtain ⟨first, behind, rfl, hfirst, hbehind, hnil⟩ := dropWord_eq_some.mp h
  obtain rfl | ⟨behind, d, rfl⟩ := List.eq_nil_or_concat behind
  · rwa [List.append_nil]
  · have hd : isWhitespace d = true := by
      apply List.dropWhile_eq_nil_iff.mp hnil.symm
      simp
    rw [(trim_eq_self_iff.mp hs).2 d (by simp)] at hd
    cases hd

theorem dropWord_concat_nil {word s : Text} (hs : trim s = s) (h : dropWord word s = some []) :
  dropWord word (s ++ [';']) = none
  := by
  have hword := eq_word_of_dropWord_nil hs h
  rw [Option.eq_none_iff_forall_ne_some]
  intro rest hrest
  obtain ⟨first, behind, heq, hfirst, hbehind, -⟩ := dropWord_eq_some.mp hrest
  have hlength : s.length = first.length := by
    rw [length_eq_of_eqIgnoreAsciiCase hword, length_eq_of_eqIgnoreAsciiCase hfirst]
  obtain ⟨-, rfl⟩ := List.append_inj heq hlength
  exact absurd (hbehind ';' rfl) (by decide)

/-! ### Sources -/

/-- What stands behind `OR ALTER`. -/
def orAlter (rest : Text) : Option Text :=
  (dropWord "OR" rest).bind (dropWord "ALTER")

/-- What stands behind the keywords at the start of a trimmed source. -/
def afterKeywords (s : Text) : Text :=
  match dropWord "CREATE" s with
  | some rest => (orAlter rest).getD rest
  | none => (dropWord "ALTER" s).getD s

/-- The source with the keywords for SQL Server. -/
def withCreateOrAlter (s : Text) : Text :=
  match dropWord "CREATE" s with
  | some rest => if (orAlter rest).isSome then s else "CREATE OR ALTER " ++ rest
  | none =>
      match dropWord "ALTER" s with
      | some rest => "CREATE OR ALTER " ++ rest
      | none => s

/-- A character lies across the end of `OR`, or of `ALTER` behind it. -/
def OrAlterCuts (rest : Text) : Prop :=
  Cuts rest 2 ∨ ∃ rest', dropWord "OR" rest = some rest' ∧ Cuts rest' 5

/-- A character lies across the end of a keyword that SQL Server's sources are looked up for. -/
def SqlserverCuts (s : Text) : Prop :=
  Cuts s 6 ∨ (dropWord "CREATE" s = none ∧ Cuts s 5)
    ∨ ∃ rest, dropWord "CREATE" s = some rest ∧ OrAlterCuts rest

/-- A character lies across the end of a keyword that views are looked up for. -/
def ViewCuts (s : Text) : Prop :=
  Cuts s 6 ∨ (dropWord "CREATE" s = none ∧ Cuts s 5)

theorem restFrom_of_dropWord {word s rest : Text} (h : dropWord word s = some rest) :
  restFrom s (utf8Len word) = some rest
  := by
  obtain ⟨first, behind, rfl, hfirst, -, rfl⟩ := dropWord_eq_some.mp h
  rw [restFrom, ← utf8Len_eq_of_eqIgnoreAsciiCase hfirst, splitBytes_append]
  rfl

theorem startsWithKeyword_cases (hs : trim s = s) (keyword : Text) :
  (startsWithKeyword s keyword = none ∧ Cuts s (utf8Len keyword))
    ∨ (startsWithKeyword s keyword = some (dropWord keyword s).isSome ∧ ¬Cuts s (utf8Len keyword))
  := by
  rw [startsWithKeyword, trimStart_of_trim hs]
  cases hfound : startsWithWord s keyword with
  | none => exact .inl ⟨rfl, startsWithWord_eq_none.mp hfound⟩
  | some found =>
    right
    rw [startsWithWord_eq_some hfound]
    refine ⟨rfl, ?_⟩
    rw [← startsWithWord_eq_none, hfound]
    exact Option.some_ne_none found

theorem startsWithOrAlter_cases (hrest : trim rest = rest) :
  (startsWithOrAlter rest = none ∧ OrAlterCuts rest)
    ∨ (startsWithOrAlter rest = some (orAlter rest).isSome ∧ ¬OrAlterCuts rest)
  := by
  unfold startsWithOrAlter OrAlterCuts orAlter
  obtain ⟨hor, hcut⟩ | ⟨hor, hcut⟩ := startsWithKeyword_cases hrest "OR"
  · left
    rw [hor]
    exact ⟨rfl, .inl hcut⟩
  · have hcut : ¬Cuts rest 2 := hcut
    rw [hor]
    cases hdrop : dropWord "OR" rest with
    | none =>
      right
      simp [-String.reduceToList, hcut]
    | some rest' =>
      have hfrom : restFrom rest 2 = some rest' := restFrom_of_dropWord hdrop
      obtain ⟨halter, hcut'⟩ | ⟨halter, hcut'⟩ :=
        startsWithKeyword_cases (trim_of_dropWord hrest hdrop) "ALTER"
      · left
        have hcut' : Cuts rest' 5 := hcut'
        simp [-String.reduceToList, hfrom, halter, hcut']
      · right
        have hcut' : ¬Cuts rest' 5 := hcut'
        simp [-String.reduceToList, hfrom, halter, hcut, hcut']

theorem replaceSqlserver_cases (hs : trim s = s) :
  (replaceSqlserverCreateWithCreateOrAlter s = none ∧ SqlserverCuts s)
    ∨ (replaceSqlserverCreateWithCreateOrAlter s = some (withCreateOrAlter s) ∧ ¬SqlserverCuts s)
  := by
  unfold replaceSqlserverCreateWithCreateOrAlter SqlserverCuts withCreateOrAlter
  dsimp only
  rw [trimStart_of_trim hs, hs]
  obtain ⟨hcreate, hcut⟩ | ⟨hcreate, hcut⟩ := startsWithKeyword_cases hs "CREATE"
  · left
    rw [hcreate]
    exact ⟨rfl, .inl hcut⟩
  · have hcut : ¬Cuts s 6 := hcut
    rw [hcreate]
    cases hdrop : dropWord "CREATE" s with
    | some rest =>
      have hfrom : restFrom s 6 = some rest := restFrom_of_dropWord hdrop
      have hrest := trim_of_dropWord hs hdrop
      obtain ⟨hor, hcut'⟩ | ⟨hor, hcut'⟩ := startsWithOrAlter_cases hrest
      · left
        simp [-String.reduceToList, hfrom, hor, hcut']
      · right
        cases horAlter : orAlter rest with
        | none => simp [-String.reduceToList, hfrom, hor, horAlter, hcut, hcut', hrest]
        | some rest' => simp [-String.reduceToList, hfrom, hor, horAlter, hcut, hcut']
    | none =>
      obtain ⟨halter, hcut'⟩ | ⟨halter, hcut'⟩ := startsWithKeyword_cases hs "ALTER"
      · left
        have hcut' : Cuts s 5 := hcut'
        simp [-String.reduceToList, halter, hcut']
      · right
        have hcut' : ¬Cuts s 5 := hcut'
        cases hdrop' : dropWord "ALTER" s with
        | none => simp [-String.reduceToList, halter, hdrop', hcut, hcut']
        | some rest =>
          have hfrom : restFrom s 5 = some rest := restFrom_of_dropWord hdrop'
          simp [-String.reduceToList, halter, hdrop', hfrom, hcut, hcut', trim_of_dropWord hs hdrop']

/-! ### Stable sources of SQL Server -/

theorem suffix_of_dropWord {word s rest : Text} (h : dropWord word s = some rest) :
  rest <:+ s
  := by
  obtain ⟨first, behind, rfl, -, -, rfl⟩ := dropWord_eq_some.mp h
  exact (List.dropWhile_suffix _).trans (List.suffix_append first behind)

theorem afterKeywords_suffix (s : Text) :
  afterKeywords s <:+ s
  := by
  unfold afterKeywords
  cases hcreate : dropWord "CREATE" s with
  | some rest =>
    have hrest := suffix_of_dropWord hcreate
    dsimp only
    cases hor : orAlter rest with
    | none => exact hrest
    | some rest'' =>
      obtain ⟨rest', hor', halter⟩ := Option.bind_eq_some_iff.mp hor
      exact ((suffix_of_dropWord halter).trans (suffix_of_dropWord hor')).trans hrest
  | none =>
    cases halter : dropWord "ALTER" s with
    | none => exact List.suffix_refl s
    | some rest => exact suffix_of_dropWord halter

theorem dropWord_create (rest : Text) :
  dropWord "CREATE" ("CREATE OR ALTER " ++ rest) = some ("OR ALTER " ++ rest)
  := by
  rfl

theorem orAlter_create (hrest : trim rest = rest) :
  orAlter ("OR ALTER " ++ rest) = some rest
  := by
  change some (trimStart rest) = some rest
  rw [trimStart_of_trim hrest]

/-- A source that is left as it is: its keywords are `CREATE OR ALTER`, or there are none. -/
structure Settled (s : Text) : Prop where
  trimmed : trim s = s
  cuts : ¬SqlserverCuts s
  kept : withCreateOrAlter s = s
  nonempty : afterKeywords s ≠ []

theorem settled_create (hrest : trim rest = rest) (hne : rest ≠ []) :
  Settled ("CREATE OR ALTER " ++ rest)
  := by
  have hcreate := dropWord_create rest
  have hor : dropWord "OR" ("OR ALTER " ++ rest) = some ("ALTER " ++ rest) := rfl
  have halter : dropWord "ALTER" ("ALTER " ++ rest) = some (trimStart rest) := rfl
  constructor
  · rw [trim_eq_self_iff]
    constructor
    · rintro c ⟨⟩
      rfl
    · intro c hc
      apply (trim_eq_self_iff.mp hrest).2
      rwa [List.getLast?_append_of_ne_nil _ hne] at hc
  · rintro (hcut | ⟨hnone, -⟩ | ⟨rest', heq, hcut | ⟨rest'', heq', hcut⟩⟩)
    · exact not_cuts_of_dropWord hcreate hcut
    · rw [hcreate] at hnone
      cases hnone
    · rw [hcreate] at heq
      obtain rfl := Option.some_inj.mp heq
      exact not_cuts_of_dropWord hor hcut
    · rw [hcreate] at heq
      obtain rfl := Option.some_inj.mp heq
      rw [hor] at heq'
      obtain rfl := Option.some_inj.mp heq'
      exact not_cuts_of_dropWord halter hcut
  · rw [withCreateOrAlter, hcreate]
    dsimp only
    rw [orAlter_create hrest]
    rfl
  · rw [afterKeywords, hcreate]
    dsimp only
    rw [orAlter_create hrest]
    exact hne

theorem settled_withCreateOrAlter (hs : trim s = s) (hcut : ¬SqlserverCuts s)
    (hne : afterKeywords s ≠ []) :
  Settled (withCreateOrAlter s)
  := by
  unfold withCreateOrAlter
  cases hcreate : dropWord "CREATE" s with
  | some rest =>
    dsimp only
    cases hor : orAlter rest with
    | some rest'' =>
      refine ⟨hs, hcut, ?_, hne⟩
      simp [-String.reduceToList, withCreateOrAlter, hcreate, hor]
    | none =>
      apply settled_create (trim_of_dropWord hs hcreate)
      rw [afterKeywords, hcreate] at hne
      dsimp only at hne
      rwa [hor] at hne
  | none =>
    dsimp only
    cases halter : dropWord "ALTER" s with
    | some rest =>
      apply settled_create (trim_of_dropWord hs halter)
      rw [afterKeywords, hcreate] at hne
      dsimp only at hne
      rwa [halter] at hne
    | none =>
      refine ⟨hs, hcut, ?_, hne⟩
      rw [withCreateOrAlter, hcreate]
      dsimp only
      rw [halter]

theorem ne_create {s rest : Text} (h : dropWord "CREATE" s = some rest) :
  "CREATE OR ALTER " ++ rest ≠ s
  := by
  intro heq
  rw [← heq, dropWord_create] at h
  have hlength := congrArg List.length (Option.some_inj.mp h)
  rw [List.length_append] at hlength
  have hpos : 0 < "OR ALTER ".toList.length := by decide
  omega

theorem Settled.cases (h : Settled s) :
  (∃ rest rest' rest'', dropWord "CREATE" s = some rest ∧ dropWord "OR" rest = some rest'
      ∧ dropWord "ALTER" rest' = some rest'' ∧ rest'' ≠ [])
    ∨ (dropWord "CREATE" s = none ∧ dropWord "ALTER" s = none)
  := by
  have hkept := h.kept
  have hne := h.nonempty
  unfold withCreateOrAlter at hkept
  unfold afterKeywords at hne
  cases hcreate : dropWord "CREATE" s with
  | some rest =>
    left
    rw [hcreate] at hkept hne
    dsimp only at hkept hne
    cases hor : orAlter rest with
    | some rest'' =>
      obtain ⟨rest', hor', halter⟩ := Option.bind_eq_some_iff.mp hor
      rw [hor] at hne
      exact ⟨rest, rest', rest'', rfl, hor', halter, hne⟩
    | none =>
      rw [hor] at hkept
      exact absurd hkept (ne_create hcreate)
  | none =>
    right
    rw [hcreate] at hkept
    dsimp only at hkept
    cases halter : dropWord "ALTER" s with
    | none => exact ⟨rfl, rfl⟩
    | some rest =>
      rw [halter] at hkept
      dsimp only at hkept
      rw [← hkept, dropWord_create] at hcreate
      cases hcreate

theorem Settled.ensureSemicolon (h : Settled s) :
  Settled (ensureSemicolon s)
  := by
  obtain ⟨heq, -⟩ | ⟨heq, -⟩ := ensureSemicolon_cases h.trimmed
  · rw [heq]
    exact h
  · have htrim := trim_ensureSemicolon h.trimmed
    have hcut := h.cuts
    rw [heq] at htrim ⊢
    have hsemicolon : Char.utf8Size ';' = 1 := rfl
    unfold SqlserverCuts at hcut
    obtain ⟨rest, rest', rest'', hcreate, hor, halter, hne⟩ | ⟨hcreate, halter⟩ := h.cases
    · have halter' := dropWord_concat halter hne
      have hor' := dropWord_concat hor (by rintro rfl; cases halter)
      have hcreate' := dropWord_concat hcreate (by rintro rfl; cases hor)
      refine ⟨htrim, ?_, ?_, ?_⟩
      · unfold SqlserverCuts OrAlterCuts at *
        simpa [-String.reduceToList, hcreate', hor', cuts_concat hsemicolon, hcreate, hor] using hcut
      · simp [-String.reduceToList, withCreateOrAlter, orAlter, hcreate', hor', halter']
      · simp [-String.reduceToList, afterKeywords, orAlter, hcreate', hor', halter']
    · have hcreate' := dropWord_concat_none (by decide) hcreate
      have halter' := dropWord_concat_none (by decide) halter
      refine ⟨htrim, ?_, ?_, ?_⟩
      · unfold SqlserverCuts
        simpa [-String.reduceToList, hcreate', cuts_concat hsemicolon, hcreate] using hcut
      · simp [-String.reduceToList, withCreateOrAlter, hcreate', halter']
      · simp [-String.reduceToList, afterKeywords, hcreate', halter']

theorem getLast?_ne_of_dropWord_nil {s rest rest' : Text} (hs : trim s = s)
    (hcreate : dropWord "CREATE" s = some rest) (hor : dropWord "OR" rest = some rest')
    (halter : dropWord "ALTER" rest' = some []) :
  s.getLast? ≠ some ';'
  := by
  have hrest' := trim_of_dropWord (trim_of_dropWord hs hcreate) hor
  have hword := eqIgnoreAsciiCase_iff.mp (eq_word_of_dropWord_nil hrest' halter)
  obtain ⟨before, rfl⟩ := (suffix_of_dropWord hor).trans (suffix_of_dropWord hcreate)
  have hne : rest' ≠ [] := by
    rintro rfl
    cases halter
  intro hlast
  rw [List.getLast?_append_of_ne_nil _ hne] at hlast
  have hlower := congrArg List.getLast? hword
  rw [toAsciiLowercase, List.getLast?_map, hlast] at hlower
  revert hlower
  decide

theorem ensureSemicolon_ne (hs : trim s = s) (hne : s ≠ []) (hbare : afterKeywords s = []) :
  ensureSemicolon (withCreateOrAlter (ensureSemicolon (withCreateOrAlter s)))
    ≠ ensureSemicolon (withCreateOrAlter s)
  := by
  have hempty : ensureSemicolon (withCreateOrAlter (ensureSemicolon "CREATE OR ALTER "))
      ≠ ensureSemicolon "CREATE OR ALTER " := by decide
  unfold afterKeywords at hbare
  cases hcreate : dropWord "CREATE" s with
  | none =>
    rw [hcreate] at hbare
    dsimp only at hbare
    cases halter : dropWord "ALTER" s with
    | none =>
      rw [halter] at hbare
      exact absurd hbare hne
    | some rest =>
      rw [halter] at hbare
      obtain rfl : rest = [] := hbare
      have hfirst : withCreateOrAlter s = "CREATE OR ALTER " := by
        simp [-String.reduceToList, withCreateOrAlter, hcreate, halter]
      rw [hfirst]
      exact hempty
  | some rest =>
    rw [hcreate] at hbare
    dsimp only at hbare
    cases hor : orAlter rest with
    | none =>
      rw [hor] at hbare
      obtain rfl : rest = [] := hbare
      have hfirst : withCreateOrAlter s = "CREATE OR ALTER " := by
        simp [-String.reduceToList, withCreateOrAlter, hcreate, hor]
      rw [hfirst]
      exact hempty
    | some rest'' =>
      rw [hor] at hbare
      obtain rfl : rest'' = [] := hbare
      obtain ⟨rest', hor', halter⟩ := Option.bind_eq_some_iff.mp hor
      have hrest := trim_of_dropWord hs hcreate
      have hrest' := trim_of_dropWord hrest hor'
      have hfirst : withCreateOrAlter s = s := by
        simp [-String.reduceToList, withCreateOrAlter, hcreate, hor]
      have hlast : ensureSemicolon s = s ++ [';'] := by
        obtain ⟨-, hlast⟩ | ⟨heq, -⟩ := ensureSemicolon_cases hs
        · exact absurd hlast (getLast?_ne_of_dropWord_nil hs hcreate hor' halter)
        · exact heq
      have hcreate' := dropWord_concat hcreate (by rintro rfl; cases hor')
      have hor'' := dropWord_concat hor' (by rintro rfl; cases halter)
      have halter' := dropWord_concat_nil hrest' halter
      have hsecond : withCreateOrAlter (s ++ [';'])
          = "CREATE OR ALTER " ++ (rest ++ [';']) := by
        simp [-String.reduceToList, withCreateOrAlter, orAlter, hcreate', hor'', halter']
      have htrim := trim_ensureSemicolon hs
      rw [hlast] at htrim
      have hsettled := settled_create (trim_of_dropWord htrim hcreate') (by simp)
      rw [hfirst, hlast, hsecond, ensureSemicolon_of_getLast hsettled.trimmed]
      · rw [← List.append_assoc]
        intro heq
        obtain ⟨heq, -⟩ := List.append_inj' heq rfl
        exact ne_create hcreate heq
      · rw [← List.append_assoc, List.getLast?_concat]

theorem suffix_withCreateOrAlter (s : Text) :
  afterKeywords s <:+ withCreateOrAlter s
  := by
  unfold withCreateOrAlter
  cases hcreate : dropWord "CREATE" s with
  | some rest =>
    dsimp only
    cases hor : orAlter rest with
    | some rest'' => exact afterKeywords_suffix s
    | none =>
      rw [afterKeywords, hcreate]
      dsimp only
      rw [hor]
      exact List.suffix_append _ rest
  | none =>
    dsimp only
    cases halter : dropWord "ALTER" s with
    | none => exact afterKeywords_suffix s
    | some rest =>
      rw [afterKeywords, hcreate]
      dsimp only
      rw [halter]
      exact List.suffix_append _ rest

/-! ### Stable sources of views -/

/-- A trimmed source is a whole statement. -/
def isFull (s : Text) : Bool :=
  (dropWord "CREATE" s).isSome || (dropWord "ALTER" s).isSome

/-- A source of a view is nothing but a keyword. -/
def ViewBare (s : Text) : Prop :=
  dropWord "CREATE" s = some [] ∨ (dropWord "CREATE" s = none ∧ dropWord "ALTER" s = some [])

theorem isFullDdl_cases (hs : trim s = s) :
  (isFullDdl s = none ∧ ViewCuts s) ∨ (isFullDdl s = some (isFull s) ∧ ¬ViewCuts s)
  := by
  unfold isFullDdl ViewCuts isFull
  obtain ⟨hcreate, hcut⟩ | ⟨hcreate, hcut⟩ := startsWithKeyword_cases hs "CREATE"
  · left
    rw [hcreate]
    exact ⟨rfl, .inl hcut⟩
  · have hcut : ¬Cuts s 6 := hcut
    rw [hcreate]
    cases hdrop : dropWord "CREATE" s with
    | some rest =>
      right
      simp [-String.reduceToList, hcut]
    | none =>
      obtain ⟨halter, hcut'⟩ | ⟨halter, hcut'⟩ := startsWithKeyword_cases hs "ALTER"
      · left
        have hcut' : Cuts s 5 := hcut'
        simp [-String.reduceToList, halter, hcut']
      · right
        have hcut' : ¬Cuts s 5 := hcut'
        simp [-String.reduceToList, halter, hcut, hcut']

theorem head_of_dropWord {c : Char} {word s rest : Text} (h : dropWord (c :: word) s = some rest) :
  s.head?.map Char.toLower = some c.toLower
  := by
  obtain ⟨first, behind, rfl, hfirst, -, -⟩ := dropWord_eq_some.mp h
  have hlower := congrArg List.head? (eqIgnoreAsciiCase_iff.mp hfirst)
  rw [toAsciiLowercase, List.head?_map] at hlower
  cases first with
  | nil => cases hlower
  | cons d first => exact hlower

theorem isFull_bare (hs : trim s = s) (h : ViewBare s) :
  ensureSemicolon s = s ++ [';'] ∧ isFull (s ++ [';']) = false
  := by
  have hend : ∀ word : Text, ';' ∉ (toAsciiLowercase word).getLast? →
      dropWord word s = some [] → ensureSemicolon s = s ++ [';'] := by
    intro word hword hdrop
    obtain ⟨-, hlast⟩ | ⟨heq, -⟩ := ensureSemicolon_cases hs
    · have hlower := congrArg List.getLast?
        (eqIgnoreAsciiCase_iff.mp (eq_word_of_dropWord_nil hs hdrop))
      rw [toAsciiLowercase, List.getLast?_map, hlast] at hlower
      exact absurd hlower.symm hword
    · exact heq
  unfold isFull
  obtain hcreate | ⟨hcreate, halter⟩ := h
  · have hcreate' := dropWord_concat_nil hs hcreate
    have halter' : dropWord "ALTER" (s ++ [';']) = none := by
      rw [Option.eq_none_iff_forall_ne_some]
      intro rest hrest
      have ha := head_of_dropWord hrest
      have hc := head_of_dropWord hcreate
      cases s with
      | nil => cases hc
      | cons d s =>
        rw [List.cons_append, List.head?_cons] at ha
        rw [List.head?_cons, ha] at hc
        revert hc
        decide
    exact ⟨hend "CREATE" (by decide) hcreate, by rw [hcreate', halter']; rfl⟩
  · have hcreate' := dropWord_concat_none (by decide) hcreate
    have halter' := dropWord_concat_nil hs halter
    exact ⟨hend "ALTER" (by decide) halter, by rw [hcreate', halter']; rfl⟩

theorem isFull_ensureSemicolon (hs : trim s = s) (hfull : isFull s) (hcut : ¬ViewCuts s)
    (hbare : ¬ViewBare s) :
  isFull (ensureSemicolon s) ∧ ¬ViewCuts (ensureSemicolon s)
  := by
  obtain ⟨heq, -⟩ | ⟨heq, -⟩ := ensureSemicolon_cases hs
  · rw [heq]
    exact ⟨hfull, hcut⟩
  · rw [heq]
    unfold isFull ViewCuts ViewBare at *
    rw [not_or] at hbare
    have hsemicolon : Char.utf8Size ';' = 1 := rfl
    cases hcreate : dropWord "CREATE" s with
    | some rest =>
      rw [hcreate] at hbare
      have hcreate' := dropWord_concat hcreate (by rintro rfl; exact hbare.1 rfl)
      rw [hcreate'] at *
      simpa [-String.reduceToList, cuts_concat hsemicolon, hcreate] using hcut
    | none =>
      rw [hcreate] at hbare hfull
      obtain ⟨rest, halter⟩ := Option.isSome_iff_exists.mp hfull
      have hcreate' := dropWord_concat_none (by decide) hcreate
      have halter' := dropWord_concat halter (by rintro rfl; exact hbare.2 ⟨rfl, halter⟩)
      rw [hcreate', halter']
      simpa [-String.reduceToList, cuts_concat hsemicolon, hcreate] using hcut

/-- The view around a source. -/
def wrapped (name source : Text) : Text :=
  "CREATE OR REPLACE VIEW " ++ name ++ " AS\n" ++ ensureSemicolon source

theorem wrapped_spec (name source : Text) :
  trim (wrapped name source) = wrapped name source ∧ isFull (wrapped name source)
    ∧ ¬ViewCuts (wrapped name source) ∧ (wrapped name source).getLast? = some ';'
  := by
  obtain ⟨behind, hbehind⟩ : ∃ behind, wrapped name source = "CREATE" ++ ' ' :: behind := by
    have hwords : "CREATE OR REPLACE VIEW ".toList = "CREATE".toList ++ ' ' :: "OR REPLACE VIEW " := by
      simp
    refine ⟨"OR REPLACE VIEW ".toList ++ name ++ " AS\n" ++ ensureSemicolon source, ?_⟩
    unfold wrapped
    rewrite [hwords]
    simp only [List.append_assoc, List.cons_append]
  have hcreate : dropWord "CREATE" (wrapped name source) = some (trimStart (' ' :: behind)) := by
    rw [dropWord_eq_some]
    refine ⟨"CREATE", ' ' :: behind, hbehind, by decide, ?_, rfl⟩
    rintro c ⟨⟩
    rfl
  have hlast : (wrapped name source).getLast? = some ';' := by
    unfold wrapped
    rewrite [List.getLast?_append, getLast?_ensureSemicolon source, Option.some_or]
    rfl
  refine ⟨?_, ?_, ?_, hlast⟩
  · rw [trim_eq_self_iff]
    constructor
    · rw [hbehind]
      rintro c ⟨⟩
      rfl
    · rw [hlast]
      rintro c ⟨⟩
      rfl
  · rw [isFull, hcreate]
    rfl
  · rintro (hcut | ⟨hnone, -⟩)
    · exact not_cuts_of_dropWord hcreate hcut
    · rw [hcreate] at hnone
      cases hnone

theorem wrapped_ne (name : Text) (hs : trim s = s) :
  wrapped name s ≠ s
  := by
  intro heq
  have hlength := congrArg List.length heq
  have hle := (prefix_ensureSemicolon hs).length_le
  have hpos : 0 < "CREATE OR REPLACE VIEW ".toList.length := by decide
  unfold wrapped at hlength
  rewrite [List.length_append, List.length_append, List.length_append] at hlength
  omega

/-! ### Saving -/

/-- A source is saved: SQL Server and PostgreSQL have their own result, with what stands behind the
keywords. -/
structure Saved (input : EditableObjectSourceSqlInput) : Prop where
  total : ∃ result, buildExecutableObjectSourceSql input = some result
  stable : input.databaseType = .sqlserver ∨ input.databaseType = .postgres → ∀ sql,
    buildExecutableObjectSourceSql input = some (.ok sql) →
      buildExecutableObjectSourceSql { input with source := sql } = some (.ok sql)
  content : ∀ sql, buildExecutableObjectSourceSql input = some (.ok sql) →
    afterKeywords (trim input.source) <:+: sql

/-- A source that is not saved: a character lies across the end of a keyword, or the source is
nothing but a keyword. -/
def Unsaved (input : EditableObjectSourceSqlInput) : Prop :=
  let s := trim input.source
  s ≠ [] ∧ ((input.databaseType = .sqlserver ∧ (SqlserverCuts s ∨ afterKeywords s = []))
    ∨ (input.databaseType = .postgres ∧ input.objectType = .view ∧ (ViewCuts s ∨ ViewBare s)))

section

variable {input : EditableObjectSourceSqlInput}

theorem build_empty (h : trim input.source = []) :
  ∃ message, buildExecutableObjectSourceSql input = some (.error message)
  := by
  unfold buildExecutableObjectSourceSql
  split
  · exact ⟨_, rfl⟩
  · rw [if_pos h]
    exact ⟨_, rfl⟩

theorem build_sqlserver {s : Text} (hdb : input.databaseType = .sqlserver)
    (hs : trim input.source = s) (hne : s ≠ []) :
  (buildExecutableObjectSourceSql input = none ∧ SqlserverCuts s)
    ∨ (buildExecutableObjectSourceSql input = some (.ok (ensureSemicolon (withCreateOrAlter s)))
      ∧ ¬SqlserverCuts s)
  := by
  have hbuild : buildExecutableObjectSourceSql input
      = (replaceSqlserverCreateWithCreateOrAlter s).map fun sql => .ok (ensureSemicolon sql) := by
    unfold buildExecutableObjectSourceSql
    dsimp only
    rw [hs, if_neg (by simp [hdb, isSqlEngine]), if_neg hne, if_pos hdb]
  have htrim : trim s = s := by rw [← hs, trim_trim]
  obtain ⟨hnone, hcut⟩ | ⟨hsome, hcut⟩ := replaceSqlserver_cases htrim
  · left
    rw [hbuild, hnone]
    exact ⟨rfl, hcut⟩
  · right
    rw [hbuild, hsome]
    exact ⟨rfl, hcut⟩

theorem build_view {s : Text} (hdb : input.databaseType = .postgres)
    (hview : input.objectType = .view) (hs : trim input.source = s) (hne : s ≠ []) :
  (buildExecutableObjectSourceSql input = none ∧ ViewCuts s)
    ∨ (buildExecutableObjectSourceSql input
        = some (.ok (if isFull s then ensureSemicolon s
          else wrapped (qualifiedName input.databaseType input.schema input.name) s))
      ∧ ¬ViewCuts s)
  := by
  have hbuild : buildExecutableObjectSourceSql input = (isFullDdl s).map fun full =>
      if full then .ok (ensureSemicolon s)
      else .ok (wrapped (qualifiedName input.databaseType input.schema input.name) s) := by
    unfold buildExecutableObjectSourceSql
    dsimp only
    rw [hs, if_neg (by simp [hdb, isSqlEngine]), if_neg hne, if_neg (by simp [hdb]),
      if_pos (by simp [hdb, hview, isPostgresLike])]
    rfl
  have htrim : trim s = s := by rw [← hs, trim_trim]
  obtain ⟨hnone, hcut⟩ | ⟨hsome, hcut⟩ := isFullDdl_cases htrim
  · left
    rw [hbuild, hnone]
    exact ⟨rfl, hcut⟩
  · right
    rw [hbuild, hsome, Option.map_some]
    refine ⟨?_, hcut⟩
    split <;> rfl

theorem build_routine {s : Text} (hdb : input.databaseType = .postgres)
    (hview : input.objectType ≠ .view) (hs : trim input.source = s) (hne : s ≠ []) :
  buildExecutableObjectSourceSql input = some (.ok (ensureSemicolon s))
  := by
  unfold buildExecutableObjectSourceSql
  dsimp only
  rw [hs, if_neg (by simp [hdb, isSqlEngine]), if_neg hne, if_neg (by simp [hdb]),
    if_neg (by simp [hview]), if_pos (by simp [hdb, isPostgresLike])]

theorem build_others (hsqlserver : input.databaseType ≠ .sqlserver)
    (hpostgres : input.databaseType ≠ .postgres) :
  (∃ message, buildExecutableObjectSourceSql input = some (.error message))
    ∨ ∃ before, buildExecutableObjectSourceSql input
        = some (.ok (before ++ ensureSemicolon (trim input.source)))
  := by
  unfold buildExecutableObjectSourceSql
  dsimp only
  by_cases hengine : (!isSqlEngine input.databaseType) = true
  · rw [if_pos hengine]
    exact .inl ⟨_, rfl⟩
  by_cases hempty : trim input.source = []
  · rw [if_neg hengine, if_pos hempty]
    exact .inl ⟨_, rfl⟩
  rw [if_neg hengine, if_neg hempty, if_neg hsqlserver, if_neg (by simp [hpostgres, isPostgresLike]),
    if_neg (by simp [hpostgres, isPostgresLike])]
  split
  · exact .inl ⟨_, rfl⟩
  split
  · exact .inr ⟨[], rfl⟩
  · exact .inr ⟨_, rfl⟩

theorem infix_ensureSemicolon {s : Text} (hs : trim s = s) :
  afterKeywords s <:+: ensureSemicolon s
  := (afterKeywords_suffix s).isInfix.trans (prefix_ensureSemicolon hs).isInfix

theorem saved_of_ok {sql : Text} (hbuild : buildExecutableObjectSourceSql input = some (.ok sql))
    (hstable : input.databaseType = .sqlserver ∨ input.databaseType = .postgres →
      buildExecutableObjectSourceSql { input with source := sql } = some (.ok sql))
    (hcontent : afterKeywords (trim input.source) <:+: sql) :
  Saved input
  := by
  constructor
  · exact ⟨_, hbuild⟩
  · intro hdb sql' hsql'
    rw [hbuild] at hsql'
    cases hsql'
    exact hstable hdb
  · intro sql' hsql'
    rw [hbuild] at hsql'
    cases hsql'
    exact hcontent

theorem saved_of_error {message : Text}
    (hbuild : buildExecutableObjectSourceSql input = some (.error message)) :
  Saved input
  := by
  constructor
  · exact ⟨_, hbuild⟩
  · intro _ sql hsql
    rw [hbuild] at hsql
    cases hsql
  · intro sql hsql
    rw [hbuild] at hsql
    cases hsql

theorem not_saved_of_none (hbuild : buildExecutableObjectSourceSql input = none) :
  ¬Saved input
  := by
  intro h
  obtain ⟨result, hresult⟩ := h.total
  rw [hbuild] at hresult
  cases hresult

theorem saved_sqlserver_iff (hdb : input.databaseType = .sqlserver) (hne : trim input.source ≠ []) :
  Saved input ↔ ¬(SqlserverCuts (trim input.source) ∨ afterKeywords (trim input.source) = [])
  := by
  have hs := trim_trim input.source
  obtain ⟨hbuild, hcut⟩ | ⟨hbuild, hcut⟩ := build_sqlserver hdb rfl hne
  · exact iff_of_false (not_saved_of_none hbuild) (not_not_intro (.inl hcut))
  · have hagain := @build_sqlserver { input with
      source := ensureSemicolon (withCreateOrAlter (trim input.source)) } _ hdb
      (trim_ensureSemicolon_self _) (ensureSemicolon_ne_nil _)
    rw [or_iff_right hcut]
    constructor
    · intro h hbare
      have hstable := h.stable (.inl hdb) _ hbuild
      obtain ⟨hnone, -⟩ | ⟨hsome, -⟩ := hagain
      · rw [hnone] at hstable
        cases hstable
      · rw [hsome] at hstable
        exact ensureSemicolon_ne hs hne hbare (Except.ok.inj (Option.some_inj.mp hstable))
    · intro hkept
      have hsettled := settled_withCreateOrAlter hs hcut hkept
      have hsettled' := hsettled.ensureSemicolon
      apply saved_of_ok hbuild
      · intro _
        obtain ⟨-, hcut'⟩ | ⟨hsome, -⟩ := hagain
        · exact absurd hcut' hsettled'.cuts
        · rw [hsome, hsettled'.kept, ensureSemicolon_of_getLast hsettled'.trimmed]
          exact getLast?_ensureSemicolon _
      · exact (suffix_withCreateOrAlter _).isInfix.trans
          (prefix_ensureSemicolon hsettled.trimmed).isInfix

theorem saved_view_iff (hdb : input.databaseType = .postgres) (hview : input.objectType = .view)
    (hne : trim input.source ≠ []) :
  Saved input ↔ ¬(ViewCuts (trim input.source) ∨ ViewBare (trim input.source))
  := by
  have hs := trim_trim input.source
  obtain ⟨hbuild, hcut⟩ | ⟨hbuild, hcut⟩ := build_view hdb hview rfl hne
  · exact iff_of_false (not_saved_of_none hbuild) (not_not_intro (.inl hcut))
  · rw [or_iff_right hcut]
    by_cases hfull : isFull (trim input.source)
    · rw [if_pos hfull] at hbuild
      have hagain := @build_view { input with source := ensureSemicolon (trim input.source) } _ hdb
        hview (trim_ensureSemicolon_self _) (ensureSemicolon_ne_nil _)
      constructor
      · intro h hbare
        have hstable := h.stable (.inr hdb) _ hbuild
        obtain ⟨hend, hnot⟩ := isFull_bare hs hbare
        obtain ⟨hnone, -⟩ | ⟨hsome, -⟩ := hagain
        · rw [hnone] at hstable
          cases hstable
        · rw [hsome, hend, hnot] at hstable
          have heq := Except.ok.inj (Option.some_inj.mp hstable)
          rw [if_neg Bool.false_ne_true] at heq
          have htrim : trim (trim input.source ++ [';']) = trim input.source ++ [';'] := by
            rw [← hend, trim_ensureSemicolon_self]
          exact wrapped_ne _ htrim heq
      · intro hbare
        obtain ⟨hfull', hcut'⟩ := isFull_ensureSemicolon hs hfull hcut hbare
        apply saved_of_ok hbuild
        · intro _
          obtain ⟨-, hcut''⟩ | ⟨hsome, -⟩ := hagain
          · exact absurd hcut'' hcut'
          · rw [hsome, if_pos hfull', ensureSemicolon_of_getLast (trim_ensureSemicolon_self _)]
            exact getLast?_ensureSemicolon _
        · exact infix_ensureSemicolon hs
    · rw [if_neg hfull] at hbuild
      obtain ⟨htrim, hfull', hcut', hlast⟩ := wrapped_spec
        (qualifiedName input.databaseType input.schema input.name) (trim input.source)
      have hagain := @build_view { input with
        source := wrapped (qualifiedName input.databaseType input.schema input.name)
          (trim input.source) } _ hdb hview htrim (by
            intro hnil
            rw [hnil] at hlast
            cases hlast)
      apply iff_of_true
      · apply saved_of_ok hbuild
        · intro _
          obtain ⟨-, hcut''⟩ | ⟨hsome, -⟩ := hagain
          · exact absurd hcut'' hcut'
          · rw [hsome, if_pos hfull', ensureSemicolon_of_getLast htrim hlast]
        · exact (infix_ensureSemicolon hs).trans (List.suffix_append _ _).isInfix
      · rintro (hcreate | ⟨-, halter⟩)
        · apply hfull
          rw [isFull, hcreate]
          rfl
        · apply hfull
          rw [isFull, halter, Option.isSome_some, Bool.or_true]

end

/-- A source is saved just when no character lies across the end of a keyword and something stands
behind the keywords. -/
theorem saved_iff (input : EditableObjectSourceSqlInput) :
  Saved input ↔ ¬Unsaved input
  := by
  unfold Unsaved
  dsimp only
  by_cases hne : trim input.source = []
  · obtain ⟨message, hbuild⟩ := build_empty hne
    exact iff_of_true (saved_of_error hbuild) fun h => h.1 hne
  have hs := trim_trim input.source
  by_cases hsqlserver : input.databaseType = .sqlserver
  · rw [saved_sqlserver_iff hsqlserver hne]
    simp [hne, hsqlserver]
  by_cases hpostgres : input.databaseType = .postgres
  · by_cases hview : input.objectType = .view
    · rw [saved_view_iff hpostgres hview hne]
      simp [hne, hpostgres, hview]
    · have hbuild := build_routine hpostgres hview rfl hne
      have hagain := @build_routine { input with source := ensureSemicolon (trim input.source) } _
        hpostgres hview (trim_ensureSemicolon_self _) (ensureSemicolon_ne_nil _)
      apply iff_of_true
      · apply saved_of_ok hbuild
        · intro _
          rw [hagain, ensureSemicolon_of_getLast (trim_ensureSemicolon_self _)]
          exact getLast?_ensureSemicolon _
        · exact infix_ensureSemicolon hs
      · simp [hsqlserver, hview]
  · apply iff_of_true
    · obtain ⟨message, hbuild⟩ | ⟨before, hbuild⟩ := build_others hsqlserver hpostgres
      · exact saved_of_error hbuild
      · apply saved_of_ok hbuild
        · rintro (hdb | hdb)
          · exact absurd hdb hsqlserver
          · exact absurd hdb hpostgres
        · exact (infix_ensureSemicolon hs).trans (List.suffix_append _ _).isInfix
    · simp [hsqlserver, hpostgres]

/-- The source of a view whose sixth byte is inside of a character makes the program panic. -/
theorem not_saved :
  ¬∀ input : EditableObjectSourceSqlInput, Saved input
  := by
  intro h
  obtain ⟨result, hresult⟩ := (h ⟨.postgres, .view, none, "v", "abcde\u00e9"⟩).total
  revert hresult
  have hnone : buildExecutableObjectSourceSql ⟨.postgres, .view, none, "v", "abcde\u00e9"⟩ = none := by
    rfl
  rw [hnone]
  rintro ⟨⟩

end Db
