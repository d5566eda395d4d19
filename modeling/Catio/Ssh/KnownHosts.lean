import Catio.Lib.Table
import Catio.Lib.Text
import Mathlib.Data.List.Sort

/-!
# Known hosts

The model of `ssh/knownhosts.rs`: the file of the fingerprints that the user trusts, one line
for each host and port.
-/

namespace Ssh.KnownHosts

open Text

/-- The host and the fingerprint of a line. -/
def parseLine (line : Text) : Option (Text × Text) :=
  let l := trim line
  if l = [] ∨ l.head? = some '#' then none else splitOnce ' ' l

/-- The fingerprints by host and port. -/
def parse (contents : Text) : Table Text Text :=
  ((lines contents).filterMap parseLine).foldl (fun map entry => map.insert entry.1 entry.2) ∅

def lineOf (entry : Σ _ : Text, Text) : Text :=
  entry.1 ++ ' ' :: entry.2

/-- The order of strings: by their code points. -/
def leText (s t : Text) : Prop :=
  s.map Char.toNat ≤ t.map Char.toNat

instance (s t : Text) : Decidable (leText s t) :=
  inferInstanceAs (Decidable (_ ≤ _))

/-- The lines of the entries in their order. -/
def serialize (map : Table Text Text) : Text :=
  Text.join ['\n'] ((map.entries.map lineOf).insertionSort leText) ++ ['\n']

/-- What is known of a fingerprint. -/
inductive Verdict where
  | trusted
  | unknown
  | mismatch
  deriving DecidableEq

def verify (map : Table Text Text) (hostPort fp : Text) : Verdict :=
  match map.lookup hostPort with
  | some known => if known = fp then .trusted else .mismatch
  | none => .unknown

end Ssh.KnownHosts

/-!
## What the file can hold

The lines of the file have no quotes, so that not every entry can be written: a host must not be
empty, nor start with white space or `#`, nor hold a blank or a line feed; a fingerprint must not be
empty, nor end with white space, nor hold a line feed.  The entries of a file are of this kind, and
a map is read back from its file just when all its entries are (`parse_serialize_iff`).
-/

namespace Ssh.KnownHosts

open Text

/-! ### Entries -/

/-- An entry that its line is read back as. -/
structure Writable (host fp : Text) : Prop where
  host_ne : host ≠ []
  host_blank : ' ' ∉ host
  host_line : '\n' ∉ host
  host_head : ∀ c ∈ host.head?, isWhitespace c = false ∧ c ≠ '#'
  fp_ne : fp ≠ []
  fp_line : '\n' ∉ fp
  fp_last : ∀ c ∈ fp.getLast?, isWhitespace c = false

theorem parseLine_lineOf {host fp : Text} (h : Writable host fp) :
  parseLine (lineOf ⟨host, fp⟩) = some (host, fp)
  := by
  obtain _ | ⟨c, host⟩ := host
  · exact absurd rfl h.host_ne
  obtain rfl | ⟨fp, d, rfl⟩ := List.eq_nil_or_concat fp
  · exact absurd rfl h.fp_ne
  rw [List.concat_eq_append] at h ⊢
  obtain ⟨hc, hmark⟩ := h.host_head c rfl
  have hd : isWhitespace d = false := h.fp_last d (by simp)
  have hline : lineOf ⟨c :: host, fp ++ [d]⟩ = c :: ((host ++ ' ' :: fp) ++ [d]) := by
    simp [lineOf]
  have htrim : trim (lineOf ⟨c :: host, fp ++ [d]⟩) = lineOf ⟨c :: host, fp ++ [d]⟩ := by
    rw [hline]
    apply trim_of_ends hc hd
  unfold parseLine
  dsimp only
  rw [htrim, if_neg, lineOf, splitOnce_append h.host_blank]
  simp [hline, hmark]

theorem writable_of_parseLine {line host fp : Text} (hline : '\n' ∉ line)
    (h : parseLine line = some (host, fp)) :
  Writable host fp
  := by
  unfold parseLine at h
  dsimp only at h
  split at h
  · cases h
  · rename_i hvisible
    rw [not_or] at hvisible
    obtain ⟨-, hmark⟩ := hvisible
    have hsplit := splitOnce_eq_some h
    have hfeed : '\n' ∉ host ++ ' ' :: fp := by
      rw [← hsplit]
      exact mt mem_of_mem_trim hline
    rw [List.mem_append, List.mem_cons, not_or, not_or] at hfeed
    have hhost : host ≠ [] := by
      rintro rfl
      have hhead := head_trim (t := line) (c := ' ') (by rw [hsplit]; rfl)
      cases hhead
    have hfp : fp ≠ [] := by
      rintro rfl
      have hlast := getLast_trim (t := line) (c := ' ') (by rw [hsplit]; simp)
      cases hlast
    constructor
    · exact hhost
    · exact not_mem_of_splitOnce h
    · exact hfeed.1
    · intro c hc
      have hhead : (trim line).head? = some c := by
        rw [hsplit, List.head?_append, hc]
        rfl
      refine ⟨head_trim hhead, ?_⟩
      rintro rfl
      exact hmark hhead
    · exact hfp
    · exact hfeed.2.2
    · intro c hc
      apply getLast_trim (t := line)
      rw [hsplit, List.getLast?_append, List.getLast?_cons, hc]
      rfl

/-! ### Maps of entries -/

theorem mem_of_lookup_insert {entries : List (Text × Text)} {map : Table Text Text} {host fp : Text}
    (h : (entries.foldl (fun map entry => map.insert entry.1 entry.2) map).lookup host = some fp) :
  (host, fp) ∈ entries ∨ map.lookup host = some fp
  := by
  induction entries generalizing map with
  | nil => exact .inr h
  | cons entry entries ih =>
    obtain hmem | hlookup := ih h
    · exact .inl (List.mem_cons_of_mem entry hmem)
    · by_cases hhost : host = entry.1
      · subst hhost
        rw [AList.lookup_insert, Option.some_inj] at hlookup
        subst hlookup
        exact .inl List.mem_cons_self
      · rw [AList.lookup_insert_ne hhost] at hlookup
        exact .inr hlookup

theorem lookup_insert_of_nodup {entries : List (Text × Text)} {map : Table Text Text}
    (h : (entries.map Prod.fst).Nodup) (hmap : ∀ entry ∈ entries, entry.1 ∉ map) {host fp : Text} :
  (entries.foldl (fun map entry => map.insert entry.1 entry.2) map).lookup host = some fp
    ↔ (host, fp) ∈ entries ∨ map.lookup host = some fp
  := by
  induction entries generalizing map with
  | nil => simp
  | cons entry entries ih =>
    obtain ⟨hfresh, hnodup⟩ := List.nodup_cons.mp h
    have hothers : ∀ other ∈ entries, other.1 ∉ map.insert entry.1 entry.2 := by
      intro other hother hmem
      obtain heq | hmem := (AList.mem_insert map).mp hmem
      · rw [← heq] at hfresh
        exact hfresh (List.mem_map_of_mem hother)
      · exact hmap other (List.mem_cons_of_mem entry hother) hmem
    rw [List.foldl_cons, ih hnodup hothers, List.mem_cons]
    by_cases hhost : host = entry.1
    · subst hhost
      have hnone : map.lookup entry.1 = none :=
        AList.lookup_eq_none.mpr (hmap entry List.mem_cons_self)
      rw [AList.lookup_insert, hnone, Option.some_inj]
      constructor
      · rintro (hmem | rfl)
        · exact .inl (.inr hmem)
        · exact .inl (.inl rfl)
      · rintro ((heq | hmem) | hnone)
        · exact .inr (by rw [← heq])
        · exact .inl hmem
        · cases hnone
    · rw [AList.lookup_insert_ne hhost]
      constructor
      · rintro (hmem | hlookup)
        · exact .inl (.inr hmem)
        · exact .inr hlookup
      · rintro ((heq | hmem) | hlookup)
        · exact absurd (congrArg Prod.fst heq) hhost
        · exact .inl hmem
        · exact .inr hlookup

theorem writable_of_parse {contents host fp : Text} (h : (parse contents).lookup host = some fp) :
  Writable host fp
  := by
  obtain hmem | hnone := mem_of_lookup_insert h
  · obtain ⟨line, hline, hparse⟩ := List.mem_filterMap.mp hmem
    exact writable_of_parseLine (not_mem_of_mem_lines hline) hparse
  · cases hnone

section

variable {map : Table Text Text} (h : ∀ host fp, map.lookup host = some fp → Writable host fp)

include h

theorem lines_serialize (hne : map.entries ≠ []) :
  lines (serialize map) = (map.entries.map lineOf).insertionSort leText
  := by
  have hperm := List.perm_insertionSort leText (map.entries.map lineOf)
  have hlines : (map.entries.map lineOf).insertionSort leText ≠ [] := by
    intro hnil
    rw [hnil] at hperm
    exact hne (List.map_eq_nil_iff.mp hperm.symm.eq_nil)
  rw [serialize, join_append _ hlines]
  apply lines_flatMap
  intro line hline
  obtain ⟨⟨host, fp⟩, hentry, rfl⟩ := List.mem_map.mp (hperm.mem_iff.mp hline)
  have hwritable := h host fp (Table.lookup_eq_some.mpr hentry)
  constructor
  · simp [lineOf, hwritable.host_line, hwritable.fp_line]
  · intro hreturn
    obtain rfl | ⟨fp, d, rfl⟩ := List.eq_nil_or_concat fp
    · exact hwritable.fp_ne rfl
    · have hd : isWhitespace d = false := hwritable.fp_last d (by simp)
      have heq : d = '\r' := by simpa [lineOf, List.getLast?_cons] using hreturn
      rw [heq] at hd
      cases hd

theorem filterMap_parseLine (hne : map.entries ≠ []) :
  ((lines (serialize map)).filterMap parseLine).Perm (map.entries.map fun e => (e.1, e.2))
  := by
  rw [lines_serialize h hne]
  have hparse : (map.entries.map lineOf).filterMap parseLine
      = map.entries.map fun e => (e.1, e.2) := by
    rw [List.filterMap_map, ← List.filterMap_eq_map]
    apply List.filterMap_congr
    rintro ⟨host, fp⟩ hentry
    exact parseLine_lineOf (h host fp (Table.lookup_eq_some.mpr hentry))
  rw [← hparse]
  exact (List.perm_insertionSort leText _).filterMap parseLine

end

theorem parse_serialize_iff (map : Table Text Text) :
  (∀ host, (parse (serialize map)).lookup host = map.lookup host)
    ↔ ∀ host fp, map.lookup host = some fp → Writable host fp
  := by
  constructor
  · intro h host fp hlookup
    apply writable_of_parse
    rw [h, hlookup]
  · intro h host
    by_cases hne : map.entries = []
    · have hempty : map = ∅ := AList.ext hne
      subst hempty
      rfl
    · have hperm := filterMap_parseLine h hne
      have hnodup : (((lines (serialize map)).filterMap parseLine).map Prod.fst).Nodup := by
        rw [(hperm.map Prod.fst).nodup_iff, List.map_map]
        exact map.nodupKeys
      ext fp
      rw [parse, lookup_insert_of_nodup hnodup (fun _ _ => AList.notMem_empty _), hperm.mem_iff]
      simp [Table.lookup_eq_some]

end Ssh.KnownHosts
