import Catio.Lib.Text

/-!
# Trusted origins

The model of `origin_allowed` in `mcp/http.rs`, which both heads ask before they answer a request
of an agent, and what it accepts: an origin on the loopback interface, or one whose host starts
with `127.` (`originAllowed_iff`).
-/

namespace Mcp

open Text

/-! ### The guard -/

/-- The host of what stands behind the scheme of an origin, without the port. -/
def originHost (rest : Text) : Text :=
  match rsplitOnce ':' rest with
  | some (h, port) => if port.all Char.isDigit ∧ port ≠ [] then h else rest
  | none => rest

/-- The host is taken for the loopback interface. -/
def trustedHost (host : Text) : Bool :=
  host ∈ (["localhost", "127.0.0.1", "[::1]", "::1"] : List Text)
    || ("127." : Text).isPrefixOf host

/-- An `Origin` header is trusted; there is none if the client is not a browser. -/
def originAllowed (origin : Option Text) : Bool :=
  match origin with
  | none => true
  | some origin =>
      let o := trim origin
      if o = [] then true
      else
        match splitOnceText "://" o with
        | some (scheme, rest) =>
            if scheme = "http" ∨ scheme = "https" then trustedHost (originHost rest) else false
        | none => false

/-! ### Origins on the loopback interface -/

/-- The value of a decimal numeral. -/
def decimal (t : Text) : ℕ :=
  t.foldl (fun n c => 10 * n + (c.toNat - '0'.toNat)) 0

/-- A part of an IPv4 address in dotted decimal notation. -/
structure Octet (t : Text) : Prop where
  nonempty : t ≠ []
  digits : ∀ c ∈ t, c.isDigit
  small : decimal t ≤ 255

/-- A literal IPv4 address in `127.0.0.0/8`. -/
def LoopbackAddress (host : Text) : Prop :=
  ∃ b c d : Text, host = "127." ++ b ++ ['.'] ++ c ++ ['.'] ++ d ∧ Octet b ∧ Octet c ∧ Octet d

inductive LoopbackHost : Text → Prop where
  | localhost : LoopbackHost "localhost"
  | address {host : Text} (h : LoopbackAddress host) : LoopbackHost host
  | bracketed : LoopbackHost "[::1]"
  | bare : LoopbackHost "::1"

/-- A port behind a host, or none. -/
def IsPort (port : Text) : Prop :=
  port = [] ∨ ∃ digits : Text, port = ':' :: digits ∧ digits ≠ [] ∧ ∀ c ∈ digits, c.isDigit

/-- An `http` or `https` origin whose host is the loopback interface. -/
def LoopbackOrigin (origin : Text) : Prop :=
  ∃ scheme host port : Text, origin = scheme ++ "://" ++ (host ++ port)
    ∧ (scheme = "http" ∨ scheme = "https") ∧ LoopbackHost host ∧ IsPort port

/-- The host of an origin does not start with `127.` unless it is a literal address. -/
def NoLookalike (origin : Text) : Prop :=
  ∀ scheme rest, splitOnceText "://" (trim origin) = some (scheme, rest) →
    scheme = "http" ∨ scheme = "https" → ("127." : Text) <+: originHost rest →
      LoopbackAddress (originHost rest)

section

variable {host port rest scheme origin : Text}

theorem originHost_append (rest : Text) :
  ∃ port, rest = originHost rest ++ port ∧ IsPort port
  := by
  unfold originHost
  split
  · rename_i h port hsplit
    split
    · rename_i hport
      refine ⟨':' :: port, rsplitOnce_eq_some hsplit, .inr ⟨port, rfl, hport.2, ?_⟩⟩
      intro c hc
      exact List.all_eq_true.mp hport.1 c hc
    · exact ⟨[], (List.append_nil _).symm, .inl rfl⟩
  · exact ⟨[], (List.append_nil _).symm, .inl rfl⟩

theorem originHost_port {digits : Text} (hne : digits ≠ []) (hdigits : ∀ c ∈ digits, c.isDigit) :
  originHost (host ++ ':' :: digits) = host
  := by
  have hnone : ':' ∉ digits := by
    intro hmem
    exact absurd (hdigits _ hmem) (by decide)
  unfold originHost
  rw [rsplitOnce_append hnone]
  exact if_pos ⟨List.all_eq_true.mpr hdigits, hne⟩

theorem originHost_of_not_mem (hnone : ':' ∉ host) :
  originHost host = host
  := by
  unfold originHost rsplitOnce
  rw [if_neg hnone]

theorem LoopbackAddress.chars (h : LoopbackAddress host) :
  ∀ c ∈ host, c.isDigit ∨ c = '.'
  := by
  obtain ⟨b, c, d, rfl, hb, hc, hd⟩ := h
  simp only [List.forall_mem_append, List.forall_mem_singleton]
  have hfirst : ∀ c ∈ ['1', '2', '7', '.'], c.isDigit ∨ c = '.' := by
    intro c hc
    simp only [List.mem_cons, List.not_mem_nil, or_false] at hc
    obtain rfl | rfl | rfl | rfl := hc
    · exact .inl rfl
    · exact .inl rfl
    · exact .inl rfl
    · exact .inr rfl
  refine ⟨⟨⟨⟨⟨hfirst, ?_⟩, .inr trivial⟩, ?_⟩, .inr trivial⟩, ?_⟩
  · exact fun x hx => .inl (hb.digits x hx)
  · exact fun x hx => .inl (hc.digits x hx)
  · exact fun x hx => .inl (hd.digits x hx)

theorem splitOnceText_scheme (hscheme : scheme = "http" ∨ scheme = "https") (rest : Text) :
  splitOnceText "://" (scheme ++ "://" ++ rest) = some (scheme, rest)
  := by
  obtain rfl | rfl := hscheme
  · rfl
  · rfl

theorem LoopbackHost.originHost_eq (hhost : LoopbackHost host) (hport : IsPort port)
    (hstart : ("127." : Text) <+: originHost (host ++ port)) :
  LoopbackAddress (originHost (host ++ port))
  := by
  have hone : ∃ t, host ++ port = '1' :: t := by
    obtain ⟨p, hrest, -⟩ := originHost_append (host ++ port)
    obtain ⟨t, ht⟩ := hstart
    rw [← ht] at hrest
    exact ⟨_, hrest⟩
  obtain ⟨t, ht⟩ := hone
  cases hhost with
  | localhost => cases ht
  | bracketed => cases ht
  | bare => cases ht
  | address h =>
    have hsame : originHost (host ++ port) = host := by
      obtain rfl | ⟨digits, rfl, hne, hdigits⟩ := hport
      · rw [List.append_nil]
        apply originHost_of_not_mem
        intro hmem
        obtain hdigit | hdot := h.chars _ hmem
        · exact absurd hdigit (by decide)
        · cases hdot
      · exact originHost_port hne hdigits
    rw [hsame]
    exact h

theorem loopbackHost_of_trusted (htrusted : trustedHost host)
    (hlookalike : ("127." : Text) <+: host → LoopbackAddress host) :
  LoopbackHost host
  := by
  unfold trustedHost at htrusted
  rw [Bool.or_eq_true, decide_eq_true_eq, List.isPrefixOf_iff_prefix] at htrusted
  obtain hmem | hstart := htrusted
  · simp only [List.mem_cons, List.not_mem_nil, or_false] at hmem
    obtain rfl | rfl | rfl | rfl := hmem
    · exact .localhost
    · apply LoopbackHost.address
      apply hlookalike
      decide
    · exact .bracketed
    · exact .bare
  · exact .address (hlookalike hstart)

end

/-- The guard accepts loopback origins only, for a header that is not blank, if and only if its host
does not start with `127.` without being an address. -/
theorem originAllowed_iff (origin : Text) (hblank : trim origin ≠ []) :
  (originAllowed (some origin) → LoopbackOrigin (trim origin)) ↔ NoLookalike origin
  := by
  constructor
  · intro hsound scheme rest hsplit hscheme hstart
    have hallowed : originAllowed (some origin) := by
      unfold originAllowed
      dsimp only
      rw [if_neg hblank, hsplit]
      dsimp only
      rw [if_pos hscheme, trustedHost, List.isPrefixOf_iff_prefix.mpr hstart, Bool.or_true]
    obtain ⟨scheme', host, port, horigin, hscheme', hhost, hport⟩ := hsound hallowed
    rw [horigin, splitOnceText_scheme hscheme'] at hsplit
    cases hsplit
    exact hhost.originHost_eq hport hstart
  · intro hlookalike hallowed
    unfold originAllowed at hallowed
    dsimp only at hallowed
    rw [if_neg hblank] at hallowed
    split at hallowed
    · rename_i scheme rest hsplit
      split at hallowed
      · rename_i hscheme
        obtain ⟨port, hrest, hport⟩ := originHost_append rest
        refine ⟨scheme, originHost rest, port, ?_, hscheme, ?_, hport⟩
        · rw [← hrest]
          exact splitOnceText_eq_some hsplit
        · exact loopbackHost_of_trusted hallowed (hlookalike scheme rest hsplit hscheme)
      · cases hallowed
    · cases hallowed

/-- An origin on the loopback interface with a port. -/
theorem originAllowed_iff_loopback :
  (originAllowed (some "http://127.0.0.1:8765") → LoopbackOrigin (trim "http://127.0.0.1:8765"))
    ↔ NoLookalike "http://127.0.0.1:8765"
  := originAllowed_iff "http://127.0.0.1:8765" (by decide)

/-- A domain name that starts with `127.` is trusted. -/
theorem lookalike_allowed :
  ¬ ∀ origin : Text, trim origin ≠ [] → originAllowed (some origin) →
    LoopbackOrigin (trim origin)
  := by
  intro hall
  have hloopback := hall "http://127.evil.com" (by decide) (by decide)
  obtain ⟨scheme, host, port, horigin, hscheme, hhost, hport⟩ := hloopback
  have hsplit := splitOnceText_scheme hscheme (host ++ port)
  have htrim : trim "http://127.evil.com" = ("http://127.evil.com" : Text) := by decide
  rw [← horigin, htrim] at hsplit
  have hrest : splitOnceText "://" "http://127.evil.com"
      = some (("http" : Text), ("127.evil.com" : Text)) := by
    decide
  rw [hrest] at hsplit
  obtain ⟨-, heq⟩ := Prod.mk.inj (Option.some.inj hsplit)
  have hv : 'v' ∈ host ++ port := by
    rw [← heq]
    decide
  rw [List.mem_append] at hv
  obtain hhostv | hportv := hv
  · cases hhost with
    | localhost => exact absurd hhostv (by decide)
    | bracketed => exact absurd hhostv (by decide)
    | bare => exact absurd hhostv (by decide)
    | address h =>
      obtain hdigit | hdot := h.chars _ hhostv
      · exact absurd hdigit (by decide)
      · cases hdot
  · obtain rfl | ⟨digits, rfl, -, hdigits⟩ := hport
    · cases hportv
    · obtain hcolon | hdigit := List.mem_cons.mp hportv
      · cases hcolon
      · exact absurd (hdigits _ hdigit) (by decide)

end Mcp
