import Catio.Agent.Types
import Catio.Lib.RegExp.Agreement
import Catio.Workbench.SensitiveCommands

/-!
# Tool policy

The model of `agent/policy.rs`: the classification of commands, and what an execution mode and
an unattended policy decide about a tool.  The regular expressions are those of the source; the
engine that matches them is a parameter.
-/

namespace Agent

open Text

/-- An engine of regular expressions: whether a pattern matches in a text. -/
class Regex where
  isMatch : Text → Text → Bool

/-- What is risky about a command. -/
structure ToolRisk where
  sensitive : Bool
  reasons : List Text
  deriving DecidableEq

inductive PolicyDecision where
  | hidden
  | allowed (risk : ToolRisk)
  | approvalRequired (risk : ToolRisk) (reason : Text)
  deriving DecidableEq

def patterns : List (Text × Text) :=
  [("fileDelete", "(?i)\\b(?:rm|rmdir|unlink|del|erase|remove-item)\\b"),
    ("fileMove", "(?i)\\b(?:mv|move|move-item)\\b"),
    ("diskWrite", "(?i)(?:\\bdd\\b(?:\\s|$)|\\bmkfs(?:\\.[a-z0-9]+)?\\b|>\\s*/dev/(?:sd|nvme|hd|vd|mmcblk|disk)|\\bof=\\s*/dev/)"),
    ("power", "(?i)\\b(?:shutdown|reboot|poweroff|halt|init\\s+[06]|restart-computer|stop-computer)\\b"),
    ("kill", "(?i)\\b(?:kill|pkill|killall|taskkill|stop-process)\\b"),
    ("service", "(?i)(?:\\b(?:systemctl|service)\\b[^\\n;|&]*\\b(?:start|stop|restart|reload|enable|disable|mask|unmask|daemon-reload)\\b|\\b(?:start|stop|restart)-service\\b|(?:^|[;&|]\\s*|\\b(?:sudo|doas)\\s+)restart\\b|\\bsc(?:\\.exe)?\\s+(?:start|stop|config|delete)\\b|\\b(?:docker|podman)\\s+(?:rm|stop|kill|restart)\\b|\\bdocker\\s+compose\\s+(?:down|restart|stop|kill|rm)\\b|\\bnvidia-smi\\b[^\\n;|&]*--gpu-reset\\b)"),
    ("chmodR", "(?i)\\b(?:chmod|chown|chgrp)\\b[^\\n;|&]*?(?:-[a-z]*r[a-z]*\\b|--recursive\\b)"),
    ("forkbomb", ":\\s*\\(\\s*\\)\\s*\\\x7b\\s*:\\s*\\|\\s*:\\s*&\\s*\\\x7d\\s*;\\s*:"),
    ("overwrite", "(?i)(?:(?:>|>>|\\btee\\b|\\bsed\\s+-i\\b|\\bperl\\s+-pi\\b|\\binstall\\b|\\bcp\\b|\\bcopy\\b|\\bset-content\\b|\\badd-content\\b|\\bout-file\\b)[^\\n;&]*(?:/etc/|/boot/|/root/|/(?:usr/)?s?bin/|/var/(?:lib|spool)/|[a-z]:\\\\windows\\\\(?:system32|syswow64)\\\\))"),
    ("dbDrop", "(?i)\\b(?:drop\\s+(?:database|schema|table)|truncate\\s+(?:table\\s+)?)\\b"),
    ("infra", "(?i)(?:\\bkubectl\\s+(?:apply|replace|patch|delete|drain|cordon|uncordon|taint|scale)\\b|\\bkubectl\\s+rollout\\s+restart\\b|\\bterraform\\s+(?:apply|destroy)\\b|\\b(?:docker|podman)\\s+(?:system|volume|network|image)\\s+prune\\b)"),
    ("gitDestructive", "(?i)(?:\\bgit\\s+reset\\b[^\\n;|&]*--hard\\b|\\bgit\\s+clean\\b|\\bgit\\s+branch\\b[^\\n;|&]*-D\\b|\\bgit\\s+push\\b[^\\n;|&]*(?:--force(?:-with-lease)?\\b|-f\\b)|\\bgit\\s+(?:checkout\\s+--|restore\\b))"),
    ("secretAccess", "(?i)(?:(?:^|[\\\\/])\\.(?:ssh|aws|kube)(?:[\\\\/]|$)|\\bkubectl\\b[^\\n;|&]*\\b(?:get|describe)\\s+secrets?\\b|^\\s*(?:env|printenv|set)\\s*$|\\bget-childitem\\s+env:\\s*$)")]

section

variable [Regex]

def classify (command : Text) : ToolRisk :=
  let reasons := if command = [] then []
    else (patterns.filter fun pattern => Regex.isMatch pattern.2 command).map Prod.fst
  ⟨!reasons.isEmpty, reasons⟩

def authorize (mode : ExecutionMode) (command : Text) : PolicyDecision :=
  let risk := classify command
  match mode with
  | .manual => .hidden
  | .ask => if risk.sensitive then .approvalRequired risk "sensitiveCommand" else .allowed risk
  | .auto => .allowed risk

end

/-- What an execution mode decides about an operation on a local file. -/
def authorizeFile (mode : ExecutionMode) (replacing : Bool) : PolicyDecision :=
  let risk : ToolRisk := ⟨replacing, if replacing then ["localFileReplace"] else []⟩
  match mode with
  | .manual => .hidden
  | .ask => if replacing then .approvalRequired risk "localFileReplace" else .allowed risk
  | .auto => .allowed risk

/-- An approval that is required is refused. -/
def PolicyDecision.refused : PolicyDecision → PolicyDecision
  | .approvalRequired _ _ => .hidden
  | d => d

def applyUnattended (decision : PolicyDecision) (policy : UnattendedPolicy) (command : Text) :
    PolicyDecision :=
  match policy with
  | .auto =>
      match decision with
      | .approvalRequired risk _ => .allowed risk
      | d => d
  | .rejectSensitive => decision.refused
  | .whitelist commands =>
      if command ∈ commands then .allowed ⟨false, []⟩ else decision.refused

end Agent

/-!
## Parity of the two classifications

The patterns of the policy and of the workbench are the same in two dialects (`agrees_patterns`).
They find the same risks in a command that is not contested (`classify_agrees`), such as one in
ASCII: nowhere is a letter that only one dialect takes, or a boundary that only one sees, next to
what a pattern finds.  In other commands they find different risks (`classify_disagrees`).
-/

namespace Agent

open RegExp Workbench

/-! ### Patterns -/

/-- The expression of a pattern, and if it ignores case. -/
def compile (pattern : Text) : Option (Exp × Bool) :=
  match Text.stripPrefix "(?i)" pattern with
  | some body => (parse body).map (·, true)
  | none => (parse pattern).map (·, false)

/-- The expression of a literal, and if it ignores case. -/
def compileLiteral (re : RegExpLiteral) : Option (Exp × Bool) :=
  (parse re.source).map (·, decide ('i' ∈ re.flags))

/-- An engine finds the matches of a pattern in the dialect of Rust. -/
structure Documented [Regex] (unicodeWord : Char → Bool) : Prop where
  isMatch : ∀ pattern e text, compile pattern = some e →
    (Regex.isMatch pattern text ↔ Matched (rust unicodeWord e.2) e.1 text)

/-- The engine that tries all matches. -/
@[reducible] def matcher (unicodeWord : Char → Bool) : Regex where
  isMatch pattern text :=
    (compile pattern).any fun e => RegExp.isMatch (rust unicodeWord e.2) e.1 text

theorem matcher_documented (unicodeWord : Char → Bool) :
  @Documented (matcher unicodeWord) unicodeWord
  := by
  refine @Documented.mk (matcher unicodeWord) unicodeWord ?_
  intro pattern e text he
  unfold Regex.isMatch matcher
  dsimp only
  rw [he, Option.any_some, isMatch_iff]

/-- A pattern and a literal are the same expression of ASCII classes, for the same risk. -/
def agrees (pattern : Text × Text) (literal : RiskCode × RegExpLiteral) : Bool :=
  pattern.1 == literal.1.toText && compile pattern.2 == compileLiteral literal.2
    && (compile pattern.2).any fun e => e.1.uses CharClass.plain CharClass.ascii

theorem agrees_literals {code : RiskCode} {name pattern source flags : List Char}
    (h : agrees (name, pattern) (code, ⟨source, flags⟩)) :
  agrees ((String.ofList name).toList, (String.ofList pattern).toList)
    (code, ⟨(String.ofList source).toList, (String.ofList flags).toList⟩)
  := by
  rw [String.toList_ofList, String.toList_ofList, String.toList_ofList, String.toList_ofList]
  exact h

theorem agrees_patterns :
  List.Forall₂ (fun pattern literal => agrees pattern literal) patterns riskPatterns
  := by
  unfold patterns riskPatterns
  repeat' apply List.Forall₂.cons
  all_goals first
    | apply List.Forall₂.nil
    | apply agrees_literals
      decide +kernel

section

variable {unicodeWord : Char → Bool} {command : Text}

/-! ### Agreement -/

/-- A command is contested if it is so for one of the patterns. -/
def ContestedCommand (unicodeWord : Char → Bool) (command : Text) : Prop :=
  ∃ pattern ∈ patterns, ∃ e ∈ compile pattern.2, Contested unicodeWord e.2 e.1 command

variable [Regex]

theorem isMatch_eq_test (hregex : Documented unicodeWord) {pattern : Text × Text}
    {literal : RiskCode × RegExpLiteral} (h : agrees pattern literal)
    (hcontested : ¬ ∃ e ∈ compile pattern.2, Contested unicodeWord e.2 e.1 command) :
  pattern.1 = literal.1.toText
    ∧ Regex.isMatch pattern.2 command = literal.2.test (utf16 command)
  := by
  obtain ⟨hsame, huses⟩ := (Bool.and_eq_true _ _).mp h
  obtain ⟨hcode, hcompile⟩ := (Bool.and_eq_true _ _).mp hsame
  refine ⟨beq_iff_eq.mp hcode, ?_⟩
  obtain ⟨⟨r, ignoreCase⟩, he, huses⟩ := (Option.any_eq_true _ _).mp huses
  have hliteral := (beq_iff_eq.mp hcompile).symm.trans he
  obtain ⟨r', hparse, heq⟩ := Option.map_eq_some_iff.mp hliteral
  rw [Prod.mk.injEq] at heq
  obtain ⟨rfl, hflags⟩ := heq
  unfold RegExpLiteral.test
  rw [hparse, Option.any_some, hflags, Bool.eq_iff_iff, hregex.isMatch _ _ _ he,
    RegExp.isMatch_iff]
  exact matched_iff huses fun h => hcontested ⟨_, he, h⟩

theorem risks_eq (hregex : Documented unicodeWord) {ps : List (Text × Text)}
    {ls : List (RiskCode × RegExpLiteral)}
    (h : List.Forall₂ (fun pattern literal => agrees pattern literal) ps ls)
    (hcontested : ∀ pattern ∈ ps,
      ¬ ∃ e ∈ compile pattern.2, Contested unicodeWord e.2 e.1 command) :
  (ps.filter fun pattern => Regex.isMatch pattern.2 command).map Prod.fst
    = ((ls.filter fun literal => literal.2.test (utf16 command)).map Prod.fst).map
      RiskCode.toText
  := by
  induction h with
  | nil => rfl
  | cons hagrees _ ih =>
    obtain ⟨hfirst, hrest⟩ := List.forall_mem_cons.mp hcontested
    obtain ⟨hcode, hmatch⟩ := isMatch_eq_test hregex hagrees hfirst
    rw [List.filter_cons, List.filter_cons, hmatch]
    split
    · rw [List.map_cons, List.map_cons, List.map_cons, hcode, ih hrest]
    · exact ih hrest

/-- The two classifications agree on a command that is not contested. -/
theorem classify_agrees (hregex : Documented unicodeWord)
    (hcontested : ¬ ContestedCommand unicodeWord command) :
  (classify command).reasons
      = (isSensitiveCommand (utf16 command)).reasons.map RiskCode.toText
    ∧ (classify command).sensitive = (isSensitiveCommand (utf16 command)).sensitive
  := by
  have hreasons : (classify command).reasons
      = (isSensitiveCommand (utf16 command)).reasons.map RiskCode.toText := by
    by_cases hcommand : command = []
    · subst hcommand
      rfl
    · have hunits : utf16 command ≠ [] := by
        obtain ⟨x, rest, rfl⟩ := List.exists_cons_of_ne_nil hcommand
        unfold utf16 units
        rw [List.flatMap_cons]
        split
        · exact List.cons_ne_nil _ _
        · exact List.cons_ne_nil _ _
      rw [reasons_isSensitiveCommand hunits, ← risks_eq hregex agrees_patterns]
      · exact if_neg hcommand
      · intro pattern hpattern h
        exact hcontested ⟨pattern, hpattern, h⟩
  refine ⟨hreasons, ?_⟩
  change (!(classify command).reasons.isEmpty)
    = decide (0 < (isSensitiveCommand (utf16 command)).reasons.length)
  rw [hreasons]
  cases (isSensitiveCommand (utf16 command)).reasons with
  | nil => rfl
  | cons code codes => rfl

end

theorem contested_literal {unicodeWord : Char → Bool} {command : Text} {pattern : List Char}
    (h : (compile pattern).all fun e => ¬ Contested unicodeWord e.2 e.1 command) :
  ¬ ∃ e ∈ compile (String.ofList pattern).toList, Contested unicodeWord e.2 e.1 command
  := by
  rw [String.toList_ofList]
  rintro ⟨e, he, hcontested⟩
  rw [Option.mem_def] at he
  rw [he, Option.all_some, decide_eq_true_iff] at h
  exact h hcontested

/-- A command with letters outside of ASCII. -/
theorem classify_agrees_umlauts :
  (@classify (matcher (· = 'ü')) "rm ü🦀").reasons
      = (isSensitiveCommand (utf16 "rm ü🦀")).reasons.map RiskCode.toText
    ∧ (@classify (matcher (· = 'ü')) "rm ü🦀").sensitive
      = (isSensitiveCommand (utf16 "rm ü🦀")).sensitive
  := by
  let regex : Regex := matcher (· = 'ü')
  have hcontested : ∀ pattern ∈ patterns, ¬ ∃ e ∈ compile pattern.2,
      Contested (· = 'ü') e.2 e.1 "rm ü🦀" := by
    unfold patterns
    repeat' refine List.forall_mem_cons.mpr ⟨?_, ?_⟩
    all_goals first
      | apply contested_literal
        decide +kernel
      | exact List.forall_mem_nil _
  apply classify_agrees (matcher_documented _)
  rintro ⟨pattern, hpattern, h⟩
  exact hcontested pattern hpattern h

/-- A letter outside of ASCII in front of `rm` is a boundary in one dialect only. -/
theorem classify_disagrees :
  (@classify (matcher (· = 'ü')) "ürm x").reasons = []
    ∧ (isSensitiveCommand (utf16 "ürm x")).reasons = [.fileDelete]
  := by
  constructor
  · unfold classify patterns
    repeat rw [String.toList_ofList]
    decide +kernel
  · unfold isSensitiveCommand riskPatterns
    repeat rw [String.toList_ofList]
    decide +kernel

end Agent
