import Catio.Lib.Numerals
import Mathlib.Data.List.Sort

/-!
# Reading a long listing

`parse_ls_output` of `ssh/sftp.rs`: the items of a directory are read from what `ls -lA` prints.
A line is split at white space, and the words behind the columns are joined again; so the name of
an item is tidy, whatever the line (`tidy_of_parseLsLine`).
-/

namespace Ssh

open Text

/-- An entry of a remote directory. -/
structure SftpItem where
  name : Text
  path : Text
  kind : Text
  size : ℕ
  modified : ℕ
  permissions : Text
  owner : Text
  group : Text
  deriving DecidableEq

def parseU64 (t : Text) : Option ℕ :=
  parseUnsigned (2 ^ 64) t

/-- The arrow between a symbolic link and its target. -/
def arrow : Text :=
  " -> "

/-- The type of an entry, from the first character of its permissions. -/
def kindOf (permissions : Text) : Text :=
  match permissions.head? with
  | some 'd' => "dir"
  | some 'l' => "link"
  | _ => "file"

/-- The time and the name, from the sixth column and the columns behind it. -/
def modifiedAndName (date first : Text) (rest : List Text) : ℕ × Text :=
  match parseU64 date with
  | some ts => (ts, join " " (first :: rest))
  | none =>
      if 2 ≤ rest.length then (0, join " " ((first :: rest).drop 2))
      else (0, (first :: rest).getLast (List.cons_ne_nil first rest))

/-- The name without the target of a link. -/
def cleanName (name : Text) : Text :=
  match splitOnceText arrow name with
  | some (before, _) => before
  | none => name

def parseLsLine (base line : Text) : Option SftpItem :=
  let line := trim line
  if line = [] ∨ "total".toList.isPrefixOf line then none
  else
    match splitWhitespace line with
    | permissions :: _ :: owner :: group :: size :: date :: first :: rest =>
        if permissions.head?.any fun c => c ∈ "d-lcbps".toList then
          let kind := kindOf permissions
          let (modified, name) := modifiedAndName date first rest
          if name = "." ∨ name = ".." ∨ name = [] then none
          else
            some
              { name := cleanName name
                path := base ++ cleanName name
                kind := kind
                size := if kind = "dir" then 0 else (parseU64 size).getD 0
                modified := modified
                permissions := permissions
                owner := owner
                group := group }
        else none
    | _ => none

/-- One item stands before another one: directories come first, and names in lower case are in
order. -/
def itemBefore (toLowercase : Text → Text) (a b : SftpItem) : Bool :=
  if a.kind = "dir" ∧ b.kind ≠ "dir" then true
  else if a.kind ≠ "dir" ∧ b.kind = "dir" then false
  else toLowercase a.name ≤ toLowercase b.name

def parseLsOutput (toLowercase : Text → Text) (output basePath : Text) : List SftpItem :=
  let base := if basePath.getLast? = some '/' then basePath else basePath ++ "/"
  ((lines output).filterMap (parseLsLine base)).insertionSort fun a b => itemBefore toLowercase a b

example : (parseLsOutput id "total 4\n-rw-r--r-- 1 root root 10 1717800000 my file.txt\n" "/x/").map
    SftpItem.path = ["/x/my file.txt"].map String.toList := by decide

/-! ### Tidy names -/

/-- A text is words with single blanks between them, and has no arrow. -/
def Tidy (name : Text) : Prop :=
  name = join " " (splitWhitespace name) ∧ ¬ arrow <:+: name

theorem join_words_cons (w v : Text) (words : List Text) :
  join " " (w :: v :: words) = w ++ ' ' :: join " " (v :: words)
  := by
  rw [join_cons_cons, List.append_assoc]
  rfl

theorem exists_join_of_append {words : List Text} (hwords : ∀ w ∈ words, IsWord w) {s t : Text}
    (h : join " " words = s ++ ' ' :: t) :
  ∃ front, front ≠ [] ∧ (∀ w ∈ front, IsWord w) ∧ s = join " " front
  := by
  induction words generalizing s with
  | nil =>
    have hlength := congrArg List.length h
    simp [join] at hlength
  | cons w words ih =>
    have hw := hwords w List.mem_cons_self
    have hrest : ∀ v ∈ words, IsWord v := by
      intro v hv
      apply hwords v (List.mem_cons_of_mem w hv)
    have hnot : ' ' ∉ w := by
      intro hmem
      have hvisible := hw.2 ' ' hmem
      revert hvisible
      decide
    have hself : ∃ front, front ≠ [] ∧ (∀ w ∈ front, IsWord w) ∧ w = join " " front := by
      use [w], List.cons_ne_nil w []
      constructor
      · simpa using hw
      · rw [join_singleton]
    cases words with
    | nil =>
      rw [join_singleton] at h
      exact absurd (by rw [h]; simp) hnot
    | cons v words =>
      rw [join_words_cons] at h
      rcases List.append_eq_append_iff.mp h with ⟨as, hs, hmore⟩ | ⟨bs, hw', hmore⟩
      · match as, hs, hmore with
        | [], hs, _ =>
          rw [hs, List.append_nil]
          exact hself
        | c :: as, hs, hmore =>
          obtain ⟨rfl, htail⟩ := List.cons.inj hmore
          obtain ⟨front, hne, hfront, rfl⟩ := ih hrest htail
          obtain ⟨u, front, rfl⟩ := List.exists_cons_of_ne_nil hne
          use w :: u :: front, List.cons_ne_nil w _
          constructor
          · intro x hx
            rcases List.mem_cons.mp hx with rfl | hx
            · exact hw
            · exact hfront x hx
          · rw [hs, join_words_cons]
      · match bs, hw', hmore with
        | [], hw', _ =>
          rw [List.append_nil] at hw'
          rw [← hw']
          exact hself
        | c :: bs, hw', hmore =>
          obtain ⟨rfl, -⟩ := List.cons.inj hmore
          exact absurd (by rw [hw']; simp) hnot

theorem tidy_cleanName {words : List Text} (hwords : ∀ w ∈ words, IsWord w) :
  Tidy (cleanName (join " " words))
  := by
  rw [cleanName]
  split
  · rename_i before after hsplit
    have hnot := not_infix_of_splitOnceText (by decide) hsplit
    have happend := splitOnceText_eq_some hsplit
    rw [List.append_assoc] at happend
    obtain ⟨front, -, hfront, rfl⟩ := exists_join_of_append hwords happend
    refine ⟨?_, hnot⟩
    rw [splitWhitespace_join hfront]
  · rename_i hnone
    constructor
    · rw [splitWhitespace_join hwords]
    · exact not_infix_of_splitOnceText_none (by decide) hnone

theorem modifiedAndName_words {date first : Text} {rest : List Text}
    (hwords : ∀ w ∈ first :: rest, IsWord w) :
  ∃ words, (∀ w ∈ words, IsWord w) ∧ (modifiedAndName date first rest).2 = join " " words
  := by
  rw [modifiedAndName]
  split
  · exact ⟨first :: rest, hwords, rfl⟩
  · split
    · exact ⟨(first :: rest).drop 2, fun w hw => hwords w (List.mem_of_mem_drop hw), rfl⟩
    · use [(first :: rest).getLast (List.cons_ne_nil first rest)]
      constructor
      · intro w hw
        rw [List.mem_singleton.mp hw]
        exact hwords _ (List.getLast_mem _)
      · rw [join_singleton]

theorem tidy_of_parseLsLine {base line : Text} {item : SftpItem}
    (h : parseLsLine base line = some item) :
  Tidy item.name
  := by
  have hword : ∀ w ∈ splitWhitespace (trim line), IsWord w := fun w => isWord_of_mem
  unfold parseLsLine at h
  dsimp only at h
  split at h
  · cases h
  · split at h
    · rename_i permissions _ owner group size date first rest hsplit
      rw [hsplit] at hword
      have hbehind : ∀ w ∈ first :: rest, IsWord w := by
        intro w hw
        apply hword
        iterate 6 apply List.mem_cons_of_mem
        exact hw
      obtain ⟨words, hwords, hname⟩ := @modifiedAndName_words date _ _ hbehind
      split at h
      · split at h
        · cases h
        · cases h
          dsimp only
          rw [hname]
          exact tidy_cleanName hwords
      · cases h
    · cases h

end Ssh
