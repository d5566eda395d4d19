import Catio.Lib.Numerals

/-!
# Internet addresses as text

How the standard library writes an address: numbers between dots, and groups of hexadecimal digits
between colons, where a double colon stands for the first longest run of two or more zero groups and
an address mapped from four bytes has these in numbers.  Each is read back by a reader of such texts
(`readIpv4_ipv4`, `readIpv6_ipv6`).
-/

namespace Ip

open Text

/-! ### Numbers between dots -/

/-- Four bytes as text. -/
def ipv4 (a b c d : UInt8) : Text :=
  join "." [ofNat a.toNat, ofNat b.toNat, ofNat c.toNat, ofNat d.toNat]

/-- The four bytes that a text denotes. -/
def readIpv4 (t : Text) : Option (List UInt8) :=
  match t.splitOn '.' with
  | [a, b, c, d] => ([a, b, c, d].mapM (parseUnsigned 256)).map (List.map UInt8.ofNat)
  | _ => none

theorem splitOn_join {c : Char} {parts : List Text} (hne : parts ≠ [])
    (h : ∀ part ∈ parts, c ∉ part) :
  (join [c] parts).splitOn c = parts
  := List.splitOn_intercalate c h hne

theorem dot_not_mem_ofNat (n : ℕ) :
  '.' ∉ ofNat n
  := by
  intro hmem
  exact absurd (isDigit_of_mem_ofNat hmem) (by decide)

theorem readIpv4_ipv4 (a b c d : UInt8) :
  readIpv4 (ipv4 a b c d) = some [a, b, c, d]
  := by
  have hsplit : (ipv4 a b c d).splitOn '.'
      = [ofNat a.toNat, ofNat b.toNat, ofNat c.toNat, ofNat d.toNat] := by
    apply splitOn_join (List.cons_ne_nil _ _)
    intro part hpart
    simp only [List.mem_cons, List.not_mem_nil, or_false] at hpart
    rcases hpart with rfl | rfl | rfl | rfl <;> apply dot_not_mem_ofNat
  have hread (byte : UInt8) : parseUnsigned 256 (ofNat byte.toNat) = some byte.toNat :=
    parseUnsigned_ofNat byte.toNat_lt
  rw [readIpv4, hsplit]
  simp [hread]

/-! ### Hexadecimal groups -/

theorem not_mem_hex {c : Char} (hc : isHexDigit c = false) (n : ℕ) :
  c ∉ hex n
  := by
  intro hmem
  rw [List.all_eq_true.mp (hex_spec n).2 c hmem] at hc
  cases hc

/-! ### Groups between colons -/

/-- The groups of a byte string. -/
def segments : List UInt8 → List ℕ
  | hi :: lo :: octets => (256 * hi.toNat + lo.toNat) :: segments octets
  | _ => []

/-- The bytes of groups. -/
def octetsOf (groups : List ℕ) : List UInt8 :=
  groups.flatMap fun n => [UInt8.ofNat (n / 256), UInt8.ofNat (n % 256)]

theorem length_segments (octets : List UInt8) :
  (segments octets).length = octets.length / 2
  := by
  fun_induction segments octets with
  | case1 hi lo octets ih =>
    rw [List.length_cons, ih, List.length_cons, List.length_cons]
    omega
  | case2 octets h =>
    match octets, h with
    | [], _ => rfl
    | [_], _ => simp
    | hi :: lo :: octets, h => exact absurd rfl (h hi lo octets)

variable {groups : List ℕ} {octets : List UInt8}

theorem lt_of_mem_segments {n : ℕ} (h : n ∈ segments octets) :
  n < 2 ^ 16
  := by
  fun_induction segments octets with
  | case1 hi lo octets ih =>
    rcases List.mem_cons.mp h with rfl | h
    · have hhi := hi.toNat_lt
      have hlo := lo.toNat_lt
      omega
    · exact ih h
  | case2 octets _ => cases h

theorem octetsOf_segments (h : octets.length % 2 = 0) :
  octetsOf (segments octets) = octets
  := by
  fun_induction segments octets with
  | case1 hi lo octets ih =>
    have hrest : octets.length % 2 = 0 := by
      rw [List.length_cons, List.length_cons] at h
      omega
    have hlo := lo.toNat_lt
    have hdiv : (256 * hi.toNat + lo.toNat) / 256 = hi.toNat := by omega
    have hmod : (256 * hi.toNat + lo.toNat) % 256 = lo.toNat := by omega
    rw [octetsOf, List.flatMap_cons, hdiv, hmod, ← octetsOf, ih hrest]
    simp
  | case2 octets hshort =>
    match octets, h, hshort with
    | [], _, _ => rfl
    | [_], h, _ => cases h
    | hi :: lo :: octets, _, hshort => exact absurd rfl (hshort hi lo octets)

/-- A run of groups. -/
structure Span where
  start : ℕ
  len : ℕ
  deriving DecidableEq

/-- One turn of the search for the longest run of zero groups. -/
def spanTurn : Span × Span → ℕ × ℕ → Span × Span
  | (longest, current), (segment, i) =>
      if segment = 0 then
        let current : Span :=
          if current.len = 0 then ⟨i, 1⟩ else ⟨current.start, current.len + 1⟩
        (if longest.len < current.len then current else longest, current)
      else (longest, ⟨0, 0⟩)

/-- The first longest run of zero groups. -/
def zeroes (segments : List ℕ) : Span :=
  (segments.zipIdx.foldl spanTurn (⟨0, 0⟩, ⟨0, 0⟩)).1

/-- Groups between colons. -/
def fmtSubslice (chunk : List ℕ) : Text :=
  join ":" (chunk.map hex)

/-- The first twelve bytes of an address that is mapped from four bytes. -/
def mappedFront : List UInt8 :=
  [0, 0, 0, 0, 0, 0, 0, 0, 0, 0, 0xff, 0xff]

/-- The four bytes that an address is mapped from. -/
def toIpv4Mapped (octets : List UInt8) : Option (UInt8 × UInt8 × UInt8 × UInt8) :=
  match octets.drop 12 with
  | [a, b, c, d] => if octets.take 12 = mappedFront then some (a, b, c, d) else none
  | _ => none

/-- Sixteen bytes as text. -/
def ipv6 (octets : List UInt8) : Text :=
  match toIpv4Mapped octets with
  | some (a, b, c, d) => "::ffff:" ++ ipv4 a b c d
  | none =>
      let groups := segments octets
      let span := zeroes groups
      if 1 < span.len then
        fmtSubslice (groups.take span.start) ++ "::"
          ++ fmtSubslice (groups.drop (span.start + span.len))
      else fmtSubslice groups

example : ipv6 [0x20, 1, 0xd, 0xb8, 0, 0, 0, 0, 0, 0, 0, 0, 0, 0, 0, 1] = "2001:db8::1" := by decide

/-- The groups of the last part: a number in hexadecimal digits, or four between dots. -/
def readLast (part : Text) : Option (List ℕ) :=
  if '.' ∈ part then (readIpv4 part).map segments else (fromStrRadix16 (2 ^ 16) part).map fun n => [n]

/-- The groups of the parts between colons. -/
def readParts : List Text → Option (List ℕ)
  | [] => some []
  | [last] => readLast last
  | part :: parts => do
      let n ← fromStrRadix16 (2 ^ 16) part
      let groups ← readParts parts
      some (n :: groups)

def readGroups (t : Text) : Option (List ℕ) :=
  readParts (if t = [] then [] else t.splitOn ':')

/-- The sixteen bytes that a text denotes.  A double colon stands for one or more zero groups. -/
def readIpv6 (t : Text) : Option (List UInt8) :=
  match splitOnceText "::" t with
  | some (left, right) => do
      let front ← readGroups left
      let back ← readGroups right
      if front.length + back.length < 8 ∧ '.' ∉ left then
        some (octetsOf (front ++ List.replicate (8 - (front.length + back.length)) 0 ++ back))
      else none
  | none => do
      let groups ← readGroups t
      if groups.length = 8 then some (octetsOf groups) else none

/-! ### Reading back -/

theorem readParts_hex (h : ∀ n ∈ groups, n < 2 ^ 16) :
  readParts (groups.map hex) = some groups
  := by
  induction groups with
  | nil => rfl
  | cons n groups ih =>
    obtain ⟨hn, hrest⟩ := List.forall_mem_cons.mp h
    cases groups with
    | nil =>
      have hdot := not_mem_hex (c := '.') (by decide) n
      rw [List.map_cons, List.map_nil, readParts, readLast, if_neg hdot, fromStrRadix16_hex hn]
      rfl
    | cons m groups =>
      rw [List.map_cons] at ih ⊢
      rw [List.map_cons, readParts, fromStrRadix16_hex hn, ih hrest]
      · rfl
      · apply List.cons_ne_nil

theorem part_of_mem {groups : List ℕ} {part : Text} (h : part ∈ groups.map hex) :
  part ≠ [] ∧ ':' ∉ part
  := by
  obtain ⟨n, -, rfl⟩ := List.mem_map.mp h
  exact ⟨Nat.toDigits_ne_nil, not_mem_hex (by decide) n⟩

theorem readGroups_fmtSubslice (h : ∀ n ∈ groups, n < 2 ^ 16) :
  readGroups (fmtSubslice groups) = some groups
  := by
  cases groups with
  | nil => rfl
  | cons n groups =>
    have hsplit : (fmtSubslice (n :: groups)).splitOn ':' = (n :: groups).map hex :=
      splitOn_join (by simp) fun part hpart => (part_of_mem hpart).2
    have hne : fmtSubslice (n :: groups) ≠ [] := by
      intro hnil
      rw [hnil] at hsplit
      obtain ⟨hhex, -⟩ := List.cons.inj hsplit
      exact Nat.toDigits_ne_nil hhex.symm
    rw [readGroups, if_neg hne, hsplit, readParts_hex h]

theorem not_infix_join {parts : List Text} (h : ∀ part ∈ parts, part ≠ [] ∧ ':' ∉ part) :
  ¬ ("::" : Text) <:+: join ":" parts ++ ":"
  := by
  induction parts with
  | nil => decide
  | cons part parts ih =>
    obtain ⟨⟨-, hcolon⟩, hrest⟩ := List.forall_mem_cons.mp h
    intro hinfix
    cases parts with
    | nil =>
      rw [join_singleton] at hinfix
      have hlength := (infix_of_head_not_mem hcolon hinfix).length_le
      exact absurd hlength (by decide)
    | cons next parts =>
      rw [join_cons_cons, List.append_assoc, List.append_assoc] at hinfix
      rcases List.infix_cons_iff.mp (infix_of_head_not_mem hcolon hinfix) with hprefix | hlater
      · obtain ⟨⟨hne, hnext⟩, -⟩ := List.forall_mem_cons.mp hrest
        obtain ⟨c, more, rfl⟩ := List.exists_cons_of_ne_nil hne
        have hstart : (":" : Text) <+: join ":" ((c :: more) :: parts) ++ ":" :=
          (List.cons_prefix_cons.mp hprefix).2
        have hc : ':' = c := by
          cases parts with
          | nil =>
            rw [join_singleton] at hstart
            exact (List.cons_prefix_cons.mp hstart).1
          | cons part' parts =>
            rw [join_cons_cons] at hstart
            exact (List.cons_prefix_cons.mp hstart).1
        exact hnext (hc ▸ List.mem_cons_self)
      · exact ih hrest hlater

def Span.IsRun (span : Span) (groups back : List ℕ) : Prop :=
  ∃ front, groups = front ++ List.replicate span.len 0 ++ back
    ∧ (span.len = 0 ∨ front.length = span.start)

theorem spanTurn_isRun {longest current : Span} (hlongest : ∃ back, longest.IsRun groups back)
    (hcurrent : current.IsRun groups []) (segment : ℕ) :
  let spans := spanTurn (longest, current) (segment, groups.length)
  (∃ back, spans.1.IsRun (groups ++ [segment]) back) ∧ spans.2.IsRun (groups ++ [segment]) []
  := by
  have hkept : ∃ back, longest.IsRun (groups ++ [segment]) back := by
    obtain ⟨back, front, hsplit, hstart⟩ := hlongest
    refine ⟨back ++ [segment], front, ?_, hstart⟩
    conv_lhs => rw [hsplit]
    rw [List.append_assoc]
  dsimp only [spanTurn]
  split
  · rename_i hzero
    have hnext : (if current.len = 0 then (⟨groups.length, 1⟩ : Span)
        else ⟨current.start, current.len + 1⟩).IsRun (groups ++ [segment]) [] := by
      rw [hzero]
      split
      · exact ⟨groups, by simp, .inr rfl⟩
      · rename_i hlen
        obtain ⟨front, hsplit, hstart⟩ := hcurrent
        refine ⟨front, ?_, .inr (hstart.resolve_left hlen)⟩
        conv_lhs => rw [hsplit]
        rw [List.replicate_succ']
        simp
    generalize (if current.len = 0 then (⟨groups.length, 1⟩ : Span)
      else ⟨current.start, current.len + 1⟩) = next at hnext ⊢
    refine ⟨?_, hnext⟩
    split
    · exact ⟨[], hnext⟩
    · exact hkept
  · refine ⟨hkept, groups ++ [segment], ?_, .inl rfl⟩
    simp

theorem zeroes_spec (groups : List ℕ) :
  groups = groups.take (zeroes groups).start
    ++ List.replicate (zeroes groups).len 0
    ++ groups.drop ((zeroes groups).start + (zeroes groups).len)
  := by
  have hrun : let spans := groups.zipIdx.foldl spanTurn (⟨0, 0⟩, ⟨0, 0⟩)
      (∃ back, spans.1.IsRun groups back) ∧ spans.2.IsRun groups [] := by
    induction groups using List.reverseRecOn with
    | nil => exact ⟨⟨[], [], rfl, .inl rfl⟩, [], rfl, .inl rfl⟩
    | append_singleton groups segment ih =>
      rw [List.zipIdx_append, List.foldl_append]
      have hturn := spanTurn_isRun ih.1 ih.2 segment
      simpa using hturn
  obtain ⟨⟨back, front, hsplit, hstart⟩, -⟩ := hrun
  rw [← zeroes] at hsplit hstart
  generalize zeroes groups = span at hsplit hstart
  rcases hstart with hlen | hstart
  · rw [hlen]
    simp
  · have htake : groups.take span.start = front := by
      rw [← hstart, hsplit, List.append_assoc, List.take_left]
    have hdrop : groups.drop (span.start + span.len) = back := by
      have hlength : span.start + span.len = (front ++ List.replicate span.len 0).length := by
        rw [List.length_append, List.length_replicate, hstart]
      rw [hlength, hsplit, List.drop_left]
    rw [htake, hdrop]
    exact hsplit

theorem splitOnceText_double {groups : List ℕ} (after : Text) :
  splitOnceText "::" (fmtSubslice groups ++ "::" ++ after) = some (fmtSubslice groups, after)
  := by
  apply splitOnceText_append (by decide)
  exact not_infix_join fun part => part_of_mem

theorem dot_not_mem_fmtSubslice (groups : List ℕ) :
  '.' ∉ fmtSubslice groups
  := by
  intro hmem
  obtain ⟨part, hpart, hin⟩ : ∃ part ∈ groups.map hex, '.' ∈ part :=
    exists_mem_of_mem_join (by decide) hmem
  obtain ⟨n, -, rfl⟩ := List.mem_map.mp hpart
  exact not_mem_hex (by decide) n hin

theorem readIpv6_mapped (a b c d : UInt8) :
  readIpv6 ("::ffff:" ++ ipv4 a b c d) = some (mappedFront ++ [a, b, c, d])
  := by
  have hcolon : ':' ∉ ipv4 a b c d := by
    intro hmem
    obtain ⟨part, hpart, hin⟩ := exists_mem_of_mem_join (by decide) hmem
    have hdigit : (':').isDigit := by
      simp only [List.mem_cons, List.not_mem_nil, or_false] at hpart
      rcases hpart with rfl | rfl | rfl | rfl <;> exact isDigit_of_mem_ofNat hin
    exact absurd hdigit (by decide)
  have hdot : '.' ∈ ipv4 a b c d := by
    simp [ipv4, join]
  have hparts : ("ffff:" ++ ipv4 a b c d : Text).splitOn ':' = [("ffff" : Text), ipv4 a b c d] := by
    have hjoin : ("ffff:" ++ ipv4 a b c d : Text) = join ":" [("ffff" : Text), ipv4 a b c d] := by
      rw [join_cons_cons, join_singleton]
      rfl
    rw [hjoin]
    apply splitOn_join (List.cons_ne_nil _ _)
    intro part hpart
    simp only [List.mem_cons, List.not_mem_nil, or_false] at hpart
    rcases hpart with rfl | rfl
    · decide
    · exact hcolon
  have hgroups : readGroups ("ffff:" ++ ipv4 a b c d) = some (0xffff :: segments [a, b, c, d]) := by
    have hffff : fromStrRadix16 (2 ^ 16) "ffff" = some 0xffff := by decide
    have hlast : readParts [ipv4 a b c d] = some (segments [a, b, c, d]) := by
      rw [readParts, readLast, if_pos hdot, readIpv4_ipv4]
      rfl
    rw [readGroups, if_neg (by simp), hparts, readParts, hffff, hlast]
    · rfl
    · apply List.cons_ne_nil
  have hsplit : splitOnceText "::" ("::ffff:" ++ ipv4 a b c d) = some ([], "ffff:" ++ ipv4 a b c d)
      := @splitOnceText_double [] _
  rw [readIpv6, hsplit]
  dsimp only
  have hleft : readGroups [] = some [] := rfl
  have hoctets : octetsOf (List.replicate 5 0 ++ [0xffff] ++ segments [a, b, c, d])
      = mappedFront ++ [a, b, c, d] := by
    have hfront : octetsOf (List.replicate 5 0 ++ [0xffff]) = mappedFront := by decide
    have hback : octetsOf (segments [a, b, c, d]) = [a, b, c, d] := octetsOf_segments (by simp)
    rw [octetsOf, List.flatMap_append]
    exact congrArg₂ (· ++ ·) hfront hback
  have hfew : ([] : List ℕ).length + (0xffff :: segments [a, b, c, d]).length < 8 := by
    simp [segments]
  rw [hgroups, hleft]
  dsimp only [Option.bind_eq_bind, Option.bind_some]
  rw [if_pos ⟨hfew, List.not_mem_nil⟩, ← hoctets]
  rfl

theorem readIpv6_groups (hsmall : ∀ n ∈ groups, n < 2 ^ 16) (hlength : groups.length = 8) :
  readIpv6
      (let span := zeroes groups
      if 1 < span.len then
        fmtSubslice (groups.take span.start) ++ "::"
          ++ fmtSubslice (groups.drop (span.start + span.len))
      else fmtSubslice groups)
    = some (octetsOf groups)
  := by
  dsimp only
  split
  · rename_i hspan
    have hzeroes := zeroes_spec groups
    generalize zeroes groups = span at hspan hzeroes ⊢
    have hfront : ∀ n ∈ groups.take span.start, n < 2 ^ 16 := by
      intro n hn
      exact hsmall n (List.mem_of_mem_take hn)
    have hback : ∀ n ∈ groups.drop (span.start + span.len), n < 2 ^ 16 := by
      intro n hn
      exact hsmall n (List.mem_of_mem_drop hn)
    have hsum := congrArg List.length hzeroes
    rw [hlength, List.length_append, List.length_append, List.length_replicate] at hsum
    have hlen : 8 - ((groups.take span.start).length
        + (groups.drop (span.start + span.len)).length) = span.len := by
      omega
    have hfew : (groups.take span.start).length
        + (groups.drop (span.start + span.len)).length < 8 := by
      omega
    rw [readIpv6, splitOnceText_double]
    dsimp only
    rw [readGroups_fmtSubslice hfront, readGroups_fmtSubslice hback]
    dsimp only [Option.bind_eq_bind, Option.bind_some]
    rw [if_pos ⟨hfew, dot_not_mem_fmtSubslice _⟩, hlen, ← hzeroes]
  · have hnone : splitOnceText "::" (fmtSubslice groups) = none := by
      apply splitOnceText_of_not_infix
      intro hinfix
      apply not_infix_join fun part => @part_of_mem groups part
      exact hinfix.trans (List.prefix_append _ _).isInfix
    rw [readIpv6, hnone]
    dsimp only
    rw [readGroups_fmtSubslice hsmall]
    simp [hlength]

theorem readIpv6_ipv6 (h : octets.length = 16) :
  readIpv6 (ipv6 octets) = some octets
  := by
  unfold ipv6
  split
  · rename_i a b c d hmapped
    rw [readIpv6_mapped, Option.some_inj]
    unfold toIpv4Mapped at hmapped
    split at hmapped
    · rename_i hdrop
      split at hmapped
      · rename_i htake
        cases hmapped
        rw [← htake, ← hdrop, List.take_append_drop]
      · cases hmapped
    · cases hmapped
  · rw [readIpv6_groups (fun n => lt_of_mem_segments), octetsOf_segments]
    · rw [h]
    · rw [length_segments, h]

end Ip
