import Catio.Ssh.Sftp.Listing
import Mathlib.Algebra.Order.BigOperators.Group.List
import Mathlib.Algebra.Order.Ring.Nat

/-!
# Listings that are read exactly

What `ls -lA` prints of a directory, with the time in seconds or in words, and in columns that are
aligned in any way.  The items that are read have the names, types and sizes of the entries
exactly if no name has other blanks than single ones between its words, none can be taken for a
link with its target, and there are no devices (`parseLsOutput_exact_iff`).
-/

namespace Ssh

open Text

/-! ### Entries and their lines -/

inductive FileType where
  | regular
  | directory
  | symlink (target : Text)
  | character (major minor : UInt32)
  | block (major minor : UInt32)
  | fifo
  | socket
  deriving DecidableEq

namespace FileType

/-- The letter before the permissions. -/
def letter : FileType → Char
  | .regular => '-'
  | .directory => 'd'
  | .symlink _ => 'l'
  | .character _ _ => 'c'
  | .block _ _ => 'b'
  | .fifo => 'p'
  | .socket => 's'

def device : FileType → Option (UInt32 × UInt32)
  | .character major minor => some (major, minor)
  | .block major minor => some (major, minor)
  | _ => none

def target : FileType → Option Text
  | .symlink target => some target
  | _ => none

def kind : FileType → Text
  | .directory => "dir"
  | .symlink _ => "link"
  | _ => "file"

theorem letter_mem (type : FileType) :
  type.letter ∈ "d-lcbps".toList
  := by
  cases type <;> (simp only [letter]; decide)

/-- A device is no link. -/
theorem device_or_target (type : FileType) :
  type.device = none ∨ type.target = none
  := by
  cases type <;> first | exact .inl rfl | exact .inr rfl

end FileType

/-- The time of the last change, in seconds or in words, the first of which is no number. -/
inductive Stamp where
  | epoch (seconds : UInt64)
  | calendar (month day clock : Text) (words : ∀ w ∈ [month, day, clock], IsWord w ∧ '>' ∉ w)
      (notNumber : parseU64 month = none)

def Stamp.columns : Stamp → List Text
  | .epoch seconds => [ofNat seconds.toNat]
  | .calendar month day clock _ _ => [month, day, clock]

/-- An entry of a directory. Its name and the target of a link are on one line, and a target is not
blank. -/
structure LsEntry where
  type : FileType
  mode : Text
  links : ℕ
  owner : Text
  group : Text
  size : UInt64
  stamp : Stamp
  name : Text
  mode_visible : ∀ c ∈ mode, isWhitespace c = false
  owner_word : IsWord owner
  group_word : IsWord group
  name_ne_nil : name ≠ []
  name_ne_dot : name ≠ "."
  name_ne_dots : name ≠ ".."
  name_line : '\n' ∉ name
  target_line : ∀ t, type.target = some t → '\n' ∉ t ∧ ∃ c ∈ t, isWhitespace c = false

namespace LsEntry

variable (e : LsEntry)

/-- The columns of the size: a device has its numbers there. -/
def sizeColumns : List Text :=
  match e.type.device with
  | some (major, minor) => [ofNat major.toNat ++ ",", ofNat minor.toNat]
  | none => [ofNat e.size.toNat]

/-- The columns between the permissions and the name. -/
def columns : List Text :=
  [ofNat e.links, e.owner, e.group] ++ e.sizeColumns ++ e.stamp.columns

/-- The name, for a link with its target. -/
def display : Text :=
  match e.type.target with
  | some target => e.name ++ arrow ++ target
  | none => e.name

/-- What an item should tell of the entry: its name, its type and its size, which directories and
devices do not have. -/
def shown : Text × Text × ℕ :=
  (e.name, e.type.kind,
    if e.type = .directory ∨ e.type.device ≠ none then 0 else e.size.toNat)

/-- No device, a name of words with single blanks, and no arrow in it, nor at the end of a link's.
-/
def Plain : Prop :=
  e.type.device = none ∧ e.name = join " " (splitWhitespace e.name)
    ∧ ¬ arrow <:+: if e.type.target = none then e.name else e.name ++ " "

end LsEntry

/-- The line of an entry, with columns that are aligned somehow. -/
structure LsLine where
  entry : LsEntry
  spaced : Text
  words : splitWhitespace spaced = entry.columns
  spaced_line : '\n' ∉ spaced

def LsLine.text (l : LsLine) : Text :=
  l.entry.type.letter :: l.entry.mode ++ ' ' :: (l.spaced ++ ' ' :: l.entry.display)

/-- The line before those of the entries. -/
def totalLine (total : ℕ) : Text :=
  "total " ++ ofNat total

/-- What is printed of a directory. -/
def listing (total : ℕ) (dir : List LsLine) : Text :=
  (totalLine total :: dir.map LsLine.text).flatMap (· ++ ['\n'])

/-- What items tell of their entries. -/
def SftpItem.shown (item : SftpItem) : Text × Text × ℕ :=
  (item.name, item.kind, item.size)

/-! ### The words of a line -/

namespace LsEntry

variable {e : LsEntry}

theorem isWord_permissions (e : LsEntry) :
  IsWord (e.type.letter :: e.mode)
  := by
  constructor
  · apply List.cons_ne_nil
  · intro c hc
    rcases List.mem_cons.mp hc with rfl | hc
    · exact visible_of_all (by decide) _ e.type.letter_mem
    · exact e.mode_visible c hc

/-- The words that are taken for the name. -/
def behind (e : LsEntry) : List Text :=
  (if e.type.device = none then [] else e.stamp.columns) ++ splitWhitespace e.display

/-- The name as it is read, with what is taken for the target of a link. -/
def rawName (e : LsEntry) : Text :=
  join " " e.behind

end LsEntry

theorem LsLine.splitWhitespace_text (l : LsLine) :
  splitWhitespace l.text
    = (l.entry.type.letter :: l.entry.mode) :: (l.entry.columns ++ splitWhitespace l.entry.display)
  := by
  have hblank : isWhitespace ' ' = true := by decide
  rw [LsLine.text, splitWhitespace_append_blank_cons hblank,
    splitWhitespace_append_blank_cons hblank, splitWhitespace_word l.entry.isWord_permissions,
    l.words]
  rfl

theorem trim_cons_of_visible {c : Char} (hc : isWhitespace c = false) (t : Text) :
  ∃ t', trim (c :: t) = c :: t'
  := by
  have hstart : trimStart (c :: t) = c :: t := by
    rw [trimStart, List.dropWhile_cons_of_neg]
    simp [hc]
  rw [trim, hstart, trimEnd, List.rdropWhile, List.reverse_cons, List.dropWhile_append]
  split
  · rename_i hblank
    use []
    rw [List.dropWhile_cons_of_neg (by simp [hc])]
    rfl
  · use ((t.reverse).dropWhile isWhitespace).reverse
    rw [List.reverse_append]
    rfl

/-! ### Names as they are read -/

theorem arrow_eq :
  arrow = [' ', '-', '>', ' ']
  := rfl

theorem arrow_infix_concat {t : Text} {c : Char} (hc : c ≠ ' ') (h : arrow <:+: t ++ [c]) :
  arrow <:+: t
  := by
  rcases List.infix_concat_iff.mp h with hsuffix | hinside
  · obtain hnil | ⟨front, heq, -⟩ := List.suffix_concat_iff.mp hsuffix
    · exact absurd hnil (by decide)
    · have hlast : arrow.getLast? = some c := by
        rw [heq, List.getLast?_concat]
      exact absurd (Option.some.inj hlast).symm hc
  · exact hinside

theorem cleanName_append {before after : Text} (h : ¬ arrow <:+: before ++ " ") :
  cleanName (before ++ arrow ++ after) = before
  := by
  have hnot : ¬ arrow <:+: before ++ arrow.dropLast := by
    have hsplit : before ++ arrow.dropLast = before ++ " " ++ ['-'] ++ ['>'] := by
      simp [arrow_eq]
    rw [hsplit]
    intro hinside
    apply h
    apply arrow_infix_concat (c := '-') (by decide)
    apply arrow_infix_concat (c := '>') (by decide) hinside
  rw [cleanName, splitOnceText_append (by decide) hnot]

theorem cleanName_of_not_arrow {name : Text} (h : ¬ arrow <:+: name) :
  cleanName name = name
  := by
  rw [cleanName, splitOnceText_of_not_infix h]

theorem Stamp.not_mem_columns (stamp : Stamp) :
  '>' ∉ join " " stamp.columns
  := by
  intro hmem
  obtain ⟨column, hcolumn, hin⟩ : ∃ column ∈ stamp.columns, '>' ∈ column :=
    exists_mem_of_mem_join (by decide) hmem
  cases stamp with
  | epoch seconds =>
    rw [List.mem_singleton.mp hcolumn] at hin
    exact absurd (isDigit_of_mem_ofNat hin) (by decide)
  | calendar month day clock words _ => exact (words column hcolumn).2 hin

theorem arrow_infix_append {s t : Text} (hs : '>' ∉ s) (ht : ¬ ("-> " : Text) <+: t)
    (h : arrow <:+: s ++ ' ' :: t) :
  arrow <:+: t
  := by
  induction s with
  | nil =>
    rcases List.infix_cons_iff.mp h with hbegins | hinside
    · exact absurd (List.cons_prefix_cons.mp hbegins).2 ht
    · exact hinside
  | cons c s ih =>
    rw [List.mem_cons, not_or] at hs
    rcases List.infix_cons_iff.mp h with hbegins | hinside
    · have hrest : ("-> " : Text) <+: s ++ ' ' :: t := (List.cons_prefix_cons.mp hbegins).2
      match s, hs.2, hrest with
      | [], _, hrest => exact absurd (List.cons_prefix_cons.mp hrest).1 (by decide)
      | [_], _, hrest =>
        have hmore := (List.cons_prefix_cons.mp hrest).2
        exact absurd (List.cons_prefix_cons.mp hmore).1 (by decide)
      | _ :: d :: s, hnot, hrest =>
        have hmore := (List.cons_prefix_cons.mp hrest).2
        have hd : '>' = d := (List.cons_prefix_cons.mp hmore).1
        exact absurd (by rw [← hd]; simp) hnot
    · exact ih hs.2 hinside

theorem join_append {front back : List Text} (hfront : front ≠ []) (hback : back ≠ []) :
  join " " (front ++ back) = join " " front ++ ' ' :: join " " back
  := by
  induction front with
  | nil => exact absurd rfl hfront
  | cons w front ih =>
    cases front with
    | nil =>
      obtain ⟨v, back, rfl⟩ := List.exists_cons_of_ne_nil hback
      rw [List.singleton_append, join_words_cons, join_singleton]
    | cons v front =>
      rw [List.cons_append, List.cons_append, join_words_cons, ← List.cons_append,
        ih (List.cons_ne_nil v front), join_words_cons, List.append_assoc, List.cons_append]

namespace LsEntry

variable {e : LsEntry}

theorem words_ne_nil (h : Tidy e.name) :
  splitWhitespace e.name ≠ []
  := by
  intro hnil
  apply e.name_ne_nil
  rw [h.1, hnil]
  rfl

theorem splitWhitespace_display {t : Text} (ht : e.type.target = some t) :
  splitWhitespace e.display = splitWhitespace e.name ++ ("->" : Text) :: splitWhitespace t
  := by
  have hblank : isWhitespace ' ' = true := by decide
  have hdisplay : e.display = e.name ++ ' ' :: ("->" ++ ' ' :: t) := by
    rw [display, ht]
    simp [arrow_eq]
  have hword : IsWord "->" := ⟨by decide, visible_of_all (by decide)⟩
  rw [hdisplay, splitWhitespace_append_blank_cons hblank,
    splitWhitespace_append_blank_cons hblank, splitWhitespace_word hword]
  rfl

theorem target_words {t : Text} (ht : e.type.target = some t) :
  splitWhitespace t ≠ []
  := by
  intro hnil
  obtain ⟨-, c, hc, hvisible⟩ := e.target_line t ht
  rw [isWhitespace_of_splitWhitespace_nil hnil c hc] at hvisible
  cases hvisible

theorem rawName_of_no_target (hname : Tidy e.name) (hdevice : e.type.device = none)
    (htarget : e.type.target = none) :
  e.rawName = e.name
  := by
  rw [rawName, behind, if_pos hdevice, display, htarget, List.nil_append]
  exact hname.1.symm

theorem rawName_of_target {t : Text} (hname : Tidy e.name) (ht : e.type.target = some t) :
  e.rawName = e.name ++ arrow ++ join " " (splitWhitespace t)
  := by
  have hdevice : e.type.device = none := by
    apply e.type.device_or_target.resolve_right
    rw [ht]
    apply Option.some_ne_none
  rw [rawName, behind, if_pos hdevice, List.nil_append, splitWhitespace_display ht,
    join_append (words_ne_nil hname) (List.cons_ne_nil _ _), ← hname.1]
  obtain ⟨w, words, hwords⟩ := List.exists_cons_of_ne_nil (target_words ht)
  rw [hwords, join_words_cons]
  simp [arrow_eq]

theorem rawName_of_device (hname : Tidy e.name) (hdevice : e.type.device ≠ none) :
  e.rawName = join " " e.stamp.columns ++ ' ' :: e.name
  := by
  have htarget : e.type.target = none := e.type.device_or_target.resolve_left hdevice
  rw [rawName, behind, if_neg hdevice, display, htarget, join_append _ (words_ne_nil hname),
    ← hname.1]
  cases e.stamp <;> apply List.cons_ne_nil

theorem Plain.tidy (h : e.Plain) :
  Tidy e.name
  := by
  obtain ⟨-, hjoin, harrow⟩ := h
  use hjoin
  split at harrow
  · exact harrow
  · intro hinside
    exact harrow (hinside.trans (List.prefix_append _ _).isInfix)

theorem Plain.cleanName_rawName (h : e.Plain) :
  cleanName e.rawName = e.name
  := by
  have htidy := h.tidy
  obtain ⟨hdevice, -, harrow⟩ := h
  cases htarget : e.type.target with
  | none => rw [rawName_of_no_target htidy hdevice htarget, cleanName_of_not_arrow htidy.2]
  | some t =>
    rw [rawName_of_target htidy htarget]
    apply cleanName_append
    rwa [if_neg (by simp [htarget])] at harrow

theorem cleanName_of_target {t : Text} (hname : Tidy e.name) (ht : e.type.target = some t)
    (harrow : arrow <:+: e.name ++ " ") :
  (cleanName e.rawName).count '>' < e.name.count '>'
  := by
  obtain ⟨front, hfront⟩ : ∃ front, e.name = front ++ " ->" := by
    rcases List.infix_concat_iff.mp harrow with hsuffix | hinside
    · obtain hnil | ⟨body, heq, front, hsuffix⟩ := List.suffix_concat_iff.mp hsuffix
      · exact absurd hnil (by decide)
      · use front
        have hbody : body = (" ->" : Text) := by
          have hdrop := congrArg List.dropLast heq
          rw [List.dropLast_concat] at hdrop
          rw [← hdrop]
          decide
        rw [← hsuffix, hbody]
    · exact absurd hinside hname.2
  have hnot : ¬ arrow <:+: front ++ " " := by
    intro hinside
    apply hname.2
    rw [hfront]
    apply hinside.trans
    use [], "->"
    simp
  have hraw : e.rawName = front ++ arrow ++ ("-> " ++ join " " (splitWhitespace t)) := by
    rw [rawName_of_target hname ht, hfront]
    simp [arrow_eq]
  rw [hraw, cleanName_append hnot, hfront]
  simp

theorem cleanName_of_device (hname : Tidy e.name) (hdevice : e.type.device ≠ none) :
  (cleanName e.rawName).count '>' < e.name.count '>'
    ∨ (cleanName e.rawName).count '>' = e.name.count '>'
      ∧ e.name.length < (cleanName e.rawName).length
  := by
  have hstamp := e.stamp.not_mem_columns
  rw [rawName_of_device hname hdevice]
  by_cases hbegins : ("-> " : Text) <+: e.name
  · left
    obtain ⟨rest, hrest⟩ := hbegins
    have hnot : ¬ arrow <:+: join " " e.stamp.columns ++ " " := by
      intro hinside
      have hmem : '>' ∈ join " " e.stamp.columns ++ " " := hinside.subset (by decide)
      rcases List.mem_append.mp hmem with hmem | hmem
      · exact hstamp hmem
      · exact absurd hmem (by decide)
    have hraw : join " " e.stamp.columns ++ ' ' :: e.name
        = join " " e.stamp.columns ++ arrow ++ rest := by
      rw [← hrest]
      simp [arrow_eq]
    rw [hraw, cleanName_append hnot, List.count_eq_zero.mpr hstamp, ← hrest]
    simp
  · right
    have hnot : ¬ arrow <:+: join " " e.stamp.columns ++ ' ' :: e.name := by
      intro hinside
      exact hname.2 (arrow_infix_append hstamp hbegins hinside)
    rw [cleanName_of_not_arrow hnot]
    constructor
    · rw [List.count_append, List.count_eq_zero.mpr hstamp, List.count_cons_of_ne (by decide),
        zero_add]
    · rw [List.length_append, List.length_cons]
      omega

theorem read_cases (hname : Tidy e.name) :
  e.Plain ∧ cleanName e.rawName = e.name
    ∨ (cleanName e.rawName).count '>' < e.name.count '>'
    ∨ (cleanName e.rawName).count '>' = e.name.count '>'
      ∧ e.name.length < (cleanName e.rawName).length
  := by
  by_cases hdevice : e.type.device = none
  · by_cases hplain : e.Plain
    · exact .inl ⟨hplain, hplain.cleanName_rawName⟩
    · obtain ⟨t, htarget⟩ : ∃ t, e.type.target = some t := by
        apply Option.ne_none_iff_exists'.mp
        intro hnone
        apply hplain
        refine ⟨hdevice, hname.1, ?_⟩
        rw [if_pos hnone]
        exact hname.2
      right
      left
      apply cleanName_of_target hname htarget
      by_contra harrow
      apply hplain
      refine ⟨hdevice, hname.1, ?_⟩
      rwa [if_neg (by simp [htarget])]
  · exact .inr (cleanName_of_device hname hdevice)

theorem rawName_ne (hname : Tidy e.name) :
  ¬ (e.rawName = "." ∨ e.rawName = ".." ∨ e.rawName = [])
  := by
  have hblank (hmem : ' ' ∈ e.rawName) : ¬ (e.rawName = "." ∨ e.rawName = ".." ∨ e.rawName = [])
      := by
    rintro (h | h | h) <;>
    · rw [h] at hmem
      exact absurd hmem (by decide)
  by_cases hdevice : e.type.device = none
  · cases htarget : e.type.target with
    | none =>
      rw [rawName_of_no_target hname hdevice htarget]
      rintro (h | h | h)
      · exact e.name_ne_dot h
      · exact e.name_ne_dots h
      · exact e.name_ne_nil h
    | some t =>
      apply hblank
      rw [rawName_of_target hname htarget]
      simp [arrow_eq]
  · apply hblank
    rw [rawName_of_device hname hdevice]
    simp

theorem parseU64_comma (t : Text) :
  parseU64 (t ++ ",") = none
  := by
  cases hparse : parseU64 (t ++ ",") with
  | none => rfl
  | some n =>
    have hcomma : ',' = '+' ∨ (',').isDigit :=
      isDigit_of_parseUnsigned hparse ',' (by simp)
    exact absurd hcomma (by decide)

theorem modifiedAndName_stamp (stamp : Stamp) {words : List Text} (hwords : words ≠ []) :
  ∃ date first rest, stamp.columns ++ words = date :: first :: rest
    ∧ (modifiedAndName date first rest).2 = join " " words
  := by
  obtain ⟨w, ws, rfl⟩ := List.exists_cons_of_ne_nil hwords
  cases stamp with
  | epoch seconds =>
    have hseconds : parseU64 (ofNat seconds.toNat) = some seconds.toNat :=
      parseUnsigned_ofNat seconds.toNat_lt
    use ofNat seconds.toNat, w, ws, rfl
    rw [modifiedAndName, hseconds]
  | calendar month day clock _ notNumber =>
    use month, day, clock :: w :: ws, rfl
    rw [modifiedAndName, notNumber]
    rfl

theorem exists_columns (hname : Tidy e.name) :
  ∃ size date first rest,
    e.sizeColumns ++ e.stamp.columns ++ splitWhitespace e.display = size :: date :: first :: rest
      ∧ (modifiedAndName date first rest).2 = e.rawName
      ∧ (if e.type.kind = "dir" then 0 else (parseU64 size).getD 0) = e.shown.2.2
  := by
  have hdisplay : splitWhitespace e.display ≠ [] := by
    cases htarget : e.type.target with
    | none =>
      rw [display, htarget]
      exact words_ne_nil hname
    | some t =>
      rw [splitWhitespace_display htarget]
      apply List.append_ne_nil_of_right_ne_nil _ (List.cons_ne_nil _ _)
  cases hdevice : e.type.device with
  | none =>
    obtain ⟨date, first, rest, hcolumns, hraw⟩ := modifiedAndName_stamp e.stamp hdisplay
    use ofNat e.size.toNat, date, first, rest
    have hsize : parseU64 (ofNat e.size.toNat) = some e.size.toNat :=
      parseUnsigned_ofNat e.size.toNat_lt
    refine ⟨?_, ?_, ?_⟩
    · rw [sizeColumns, hdevice, List.append_assoc, hcolumns]
      rfl
    · rw [hraw, rawName, behind, if_pos hdevice, List.nil_append]
    · rw [hsize, shown, hdevice]
      cases e.type <;> rfl
  | some numbers =>
    obtain ⟨major, minor⟩ := numbers
    obtain ⟨first, rest, hfirst⟩ : ∃ first rest,
        e.stamp.columns ++ splitWhitespace e.display = first :: rest :=
      List.exists_cons_of_ne_nil (List.append_ne_nil_of_right_ne_nil _ hdisplay)
    have hminor : parseU64 (ofNat minor.toNat) = some minor.toNat := by
      apply parseUnsigned_ofNat
      have hlt := minor.toNat_lt
      omega
    use ofNat major.toNat ++ ",", ofNat minor.toNat, first, rest
    refine ⟨?_, ?_, ?_⟩
    · rw [sizeColumns, hdevice, List.append_assoc, hfirst]
      rfl
    · have hsome : e.type.device ≠ none := by
        rw [hdevice]
        apply Option.some_ne_none
      rw [modifiedAndName, hminor, rawName, behind, if_neg hsome, hfirst]
    · rw [parseU64_comma, shown, hdevice]
      simp

def read (e : LsEntry) : Text × Text × ℕ :=
  (cleanName e.rawName, e.shown.2)

end LsEntry

theorem LsLine.parse {l : LsLine} (hname : Tidy l.entry.name) (base : Text) :
  (parseLsLine base l.text).map SftpItem.shown = some l.entry.read
  := by
  obtain ⟨size, date, first, rest, hcolumns, hraw, hsize⟩ := LsEntry.exists_columns hname
  have hwords : splitWhitespace (trim l.text)
      = (l.entry.type.letter :: l.entry.mode) :: ofNat l.entry.links :: l.entry.owner
        :: l.entry.group :: size :: date :: first :: rest := by
    rw [splitWhitespace_trim, l.splitWhitespace_text, ← hcolumns]
    simp [LsEntry.columns]
  have hkind : kindOf (l.entry.type.letter :: l.entry.mode) = l.entry.type.kind := by
    cases l.entry.type <;> rfl
  obtain ⟨text, htrim⟩ : ∃ text, trim l.text = l.entry.type.letter :: text := by
    apply trim_cons_of_visible
    apply l.entry.isWord_permissions.2 _ List.mem_cons_self
  have hstart : ¬ (trim l.text = [] ∨ "total".toList.isPrefixOf (trim l.text)) := by
    rw [htrim]
    rintro (hnil | htotal)
    · cases hnil
    · have hhead : 't' = l.entry.type.letter :=
        (List.cons_prefix_cons.mp (List.isPrefixOf_iff_prefix.mp htotal)).1
      have hmem := l.entry.type.letter_mem
      rw [← hhead] at hmem
      exact absurd hmem (by decide)
  have hletter : (l.entry.type.letter :: l.entry.mode).head?.any
      (fun c => c ∈ "d-lcbps".toList) = true :=
    decide_eq_true l.entry.type.letter_mem
  have hnot := LsEntry.rawName_ne hname
  unfold parseLsLine
  dsimp only
  rw [if_neg hstart, hwords]
  dsimp only
  rw [if_pos hletter, hraw, if_neg hnot, hkind, Option.map_some, Option.some_inj]
  rw [LsEntry.read, SftpItem.shown]
  dsimp only
  rw [hsize]
  rfl

/-! ### Whole listings -/

theorem trim_stripReturn (line : Text) :
  trim (stripReturn line) = trim line
  := by
  rw [stripReturn]
  split
  · rename_i hlast
    conv_rhs => rw [← List.dropLast_append_getLast? '\r' hlast]
    rw [trim_append_blank]
    intro c hc
    rw [List.mem_singleton.mp hc]
    decide
  · rfl

theorem parseLsLine_stripReturn (base line : Text) :
  parseLsLine base (stripReturn line) = parseLsLine base line
  := by
  rw [parseLsLine, parseLsLine, trim_stripReturn]

theorem parseLsLine_totalLine (base : Text) (total : ℕ) :
  parseLsLine base (totalLine total) = none
  := by
  have hwords : splitWhitespace (trim (totalLine total)) = [("total" : Text), ofNat total] := by
    have hword : IsWord ("total" : Text) := ⟨by decide, visible_of_all (by decide)⟩
    have hsplit : totalLine total = ("total" : Text) ++ ' ' :: ofNat total := rfl
    rw [splitWhitespace_trim, hsplit, splitWhitespace_append_blank_cons (by decide),
      splitWhitespace_word hword, splitWhitespace_word (isWord_ofNat total)]
    rfl
  unfold parseLsLine
  dsimp only
  rw [hwords]
  exact ite_self none

theorem LsEntry.not_mem_display (e : LsEntry) :
  '\n' ∉ e.display
  := by
  rw [display]
  split
  · rename_i t htarget
    have harrow : '\n' ∉ arrow := by decide
    simp only [List.mem_append, not_or]
    exact ⟨⟨e.name_line, harrow⟩, (e.target_line t htarget).1⟩
  · exact e.name_line

theorem LsLine.not_mem_text (l : LsLine) :
  '\n' ∉ l.text
  := by
  have hfirst : '\n' ∉ l.entry.type.letter :: l.entry.mode := by
    intro hmem
    exact absurd (l.entry.isWord_permissions.2 _ hmem) (by decide)
  rw [text, List.mem_append, not_or]
  refine ⟨hfirst, ?_⟩
  simp [l.spaced_line, l.entry.not_mem_display]

theorem tidy_of_mem_parseLsOutput {toLowercase : Text → Text} {output basePath : Text}
    {item : SftpItem} (h : item ∈ parseLsOutput toLowercase output basePath) :
  Tidy item.name
  := by
  obtain ⟨line, -, hitem⟩ :=
    List.mem_filterMap.mp ((List.perm_insertionSort _ _).mem_iff.mp h)
  apply tidy_of_parseLsLine hitem

theorem lines_listing (total : ℕ) (dir : List LsLine) :
  lines (listing total dir) = (totalLine total :: dir.map LsLine.text).map stripReturn
  := by
  rw [listing, lines_records]
  intro r hr
  rcases List.mem_cons.mp hr with rfl | hr
  · rw [totalLine, List.mem_append, not_or]
    constructor
    · decide
    · intro hmem
      exact absurd (isDigit_of_mem_ofNat hmem) (by decide)
  · obtain ⟨l, -, rfl⟩ := List.mem_map.mp hr
    exact l.not_mem_text

theorem parseLsOutput_perm (toLowercase : Text → Text) (total : ℕ) {dir : List LsLine}
    (hdir : ∀ l ∈ dir, Tidy l.entry.name) (basePath : Text) :
  ((parseLsOutput toLowercase (listing total dir) basePath).map SftpItem.shown).Perm
    (dir.map fun l => l.entry.read)
  := by
  unfold parseLsOutput
  dsimp only
  generalize (if basePath.getLast? = some '/' then basePath else basePath ++ "/") = base
  have hitems : (dir.map LsLine.text).filterMap
        (fun line => (parseLsLine base (stripReturn line)).map SftpItem.shown)
      = dir.map fun l => l.entry.read := by
    induction dir with
    | nil => rfl
    | cons l dir ih =>
      obtain ⟨hl, hdir⟩ := List.forall_mem_cons.mp hdir
      rw [List.map_cons, List.filterMap_cons, parseLsLine_stripReturn, LsLine.parse hl base,
        ih hdir, List.map_cons]
  rw [lines_listing, List.map_cons, List.filterMap_cons, parseLsLine_stripReturn,
    parseLsLine_totalLine, ← hitems]
  apply ((List.perm_insertionSort _ _).map _).trans
  rw [List.filterMap_map, List.map_filterMap]
  apply List.Perm.refl

theorem eq_of_perm {α β : Type*} {dir : List α} {f g : α → β} {μ : β → ℕ}
    (hperm : (dir.map f).Perm (dir.map g)) (hle : ∀ l ∈ dir, μ (f l) ≤ μ (g l)) :
  ∀ l ∈ dir, μ (f l) = μ (g l)
  := by
  have hsum := (hperm.map μ).sum_eq
  rw [List.map_map, List.map_map] at hsum
  intro l hl
  by_contra hne
  have hlt := List.sum_lt_sum (μ ∘ f) (μ ∘ g) hle ⟨l, hl, lt_of_le_of_ne (hle l hl) hne⟩
  exact hlt.ne hsum

/-- A listing is read exactly if all entries are plain. -/
theorem parseLsOutput_exact_iff (toLowercase : Text → Text) (total : ℕ) (dir : List LsLine)
    (basePath : Text) :
  ((parseLsOutput toLowercase (listing total dir) basePath).map SftpItem.shown).Perm
      (dir.map fun l => l.entry.shown)
    ↔ ∀ l ∈ dir, l.entry.Plain
  := by
  constructor
  · intro hperm
    have htidy : ∀ l ∈ dir, Tidy l.entry.name := by
      intro l hl
      have hmem := hperm.mem_iff.mpr (List.mem_map_of_mem hl)
      obtain ⟨item, hitem, hshown⟩ := List.mem_map.mp hmem
      have hname : item.name = l.entry.name := congrArg Prod.fst hshown
      rw [← hname]
      exact tidy_of_mem_parseLsOutput hitem
    have hread := (parseLsOutput_perm toLowercase total htidy basePath).symm.trans hperm
    have hcases (l : LsLine) (hl : l ∈ dir) := LsEntry.read_cases (htidy l hl)
    have hcount := eq_of_perm (μ := fun shown => shown.1.count '>') hread (by
      intro l hl
      rcases hcases l hl with ⟨-, heq⟩ | hlt | ⟨heq, -⟩
      · exact (congrArg (List.count '>') heq).le
      · exact hlt.le
      · exact heq.le)
    have hlength := eq_of_perm (μ := fun shown => shown.1.length) hread.symm (by
      intro l hl
      rcases hcases l hl with ⟨-, heq⟩ | hlt | ⟨-, hlt⟩
      · exact (congrArg List.length heq).ge
      · exact absurd (hcount l hl) hlt.ne
      · exact hlt.le)
    intro l hl
    rcases hcases l hl with ⟨hplain, -⟩ | hlt | ⟨-, hlt⟩
    · exact hplain
    · exact absurd (hcount l hl) hlt.ne
    · exact absurd (hlength l hl) hlt.ne
  · intro hplain
    have hread := parseLsOutput_perm toLowercase total (fun l hl => (hplain l hl).tidy) basePath
    have hshown : dir.map (fun l => l.entry.read) = dir.map fun l => l.entry.shown := by
      apply List.map_congr_left
      intro l hl
      rw [LsEntry.read, (hplain l hl).cleanName_rawName]
      rfl
    rwa [hshown] at hread

/-- A file whose name has two blanks between its words. -/
def twoBlanks : LsLine where
  entry :=
    { type := .regular
      mode := "rw-r--r--"
      links := 1
      owner := "root"
      group := "root"
      size := 10
      stamp := .epoch 1717800000
      name := "a  b"
      mode_visible := visible_of_all (by decide)
      owner_word := ⟨by decide, visible_of_all (by decide)⟩
      group_word := ⟨by decide, visible_of_all (by decide)⟩
      name_ne_nil := by decide
      name_ne_dot := by decide
      name_ne_dots := by decide
      name_line := by decide
      target_line := by
        intro t ht
        cases ht }
  spaced := "1 root root 10 1717800000"
  words := by decide
  spaced_line := by decide

/-- The file is shown under a name and a path that are not its own. -/
theorem parseLsOutput_not_exact :
  (parseLsOutput id (listing 4 [twoBlanks]) "/srv").map (fun item => (item.name, item.path))
      = [("a b".toList, "/srv/a b".toList)]
    ∧ ¬ ((parseLsOutput id (listing 4 [twoBlanks]) "/srv").map SftpItem.shown).Perm
        ([twoBlanks].map fun l => l.entry.shown)
  := by
  constructor
  · decide
  · decide

end Ssh
