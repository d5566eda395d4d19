import Catio.Lib.RegExp.Dialects

/-!
# Sensitive commands

The model of `components/workbench/sensitiveCommands.ts`: the patterns of destructive commands, and
which of them a command matches.  A command is a string of ECMAScript, which is a list of the units
of UTF-16.
-/

namespace Workbench

/-- The kinds of destructive commands. -/
inductive RiskCode where
  | fileDelete
  | fileMove
  | diskWrite
  | power
  | kill
  | service
  | chmodR
  | forkbomb
  | overwrite
  | dbDrop
  | infra
  | gitDestructive
  | secretAccess
  deriving DecidableEq

def RiskCode.toText : RiskCode → Text
  | .fileDelete => "fileDelete"
  | .fileMove => "fileMove"
  | .diskWrite => "diskWrite"
  | .power => "power"
  | .kill => "kill"
  | .service => "service"
  | .chmodR => "chmodR"
  | .forkbomb => "forkbomb"
  | .overwrite => "overwrite"
  | .dbDrop => "dbDrop"
  | .infra => "infra"
  | .gitDestructive => "gitDestructive"
  | .secretAccess => "secretAccess"

/-- A regular expression as it is written: between its slashes, and its flags. -/
structure RegExpLiteral where
  source : Text
  flags : Text
  deriving DecidableEq

/-- A regular expression matches somewhere in a string. -/
def RegExpLiteral.test (re : RegExpLiteral) (cmd : List ℕ) : Bool :=
  (RegExp.parse re.source).any fun r => RegExp.isMatch (RegExp.ecmaScript ('i' ∈ re.flags)) r cmd

/-- What a command is found to be. -/
structure SensitivityResult where
  sensitive : Bool
  reasons : List RiskCode
  deriving DecidableEq

def riskPatterns : List (RiskCode × RegExpLiteral) :=
  [(.fileDelete, ⟨"\\b(?:rm|rmdir|unlink|del|erase|remove-item)\\b", "i"⟩),
    (.fileMove, ⟨"\\b(?:mv|move|move-item)\\b", "i"⟩),
    (.diskWrite, ⟨"(?:\\bdd\\b(?:\\s|$)|\\bmkfs(?:\\.[a-z0-9]+)?\\b|>\\s*\\/dev\\/(?:sd|nvme|hd|vd|mmcblk|disk)|\\bof=\\s*\\/dev\\/)", "i"⟩),
    (.power, ⟨"\\b(?:shutdown|reboot|poweroff|halt|init\\s+[06]|restart-computer|stop-computer)\\b", "i"⟩),
    (.kill, ⟨"\\b(?:kill|pkill|killall|taskkill|stop-process)\\b", "i"⟩),
    (.service, ⟨"(?:\\b(?:systemctl|service)\\b[^\\n;|&]*\\b(?:start|stop|restart|reload|enable|disable|mask|unmask|daemon-reload)\\b|\\b(?:start|stop|restart)-service\\b|(?:^|[;&|]\\s*|\\b(?:sudo|doas)\\s+)restart\\b|\\bsc(?:\\.exe)?\\s+(?:start|stop|config|delete)\\b|\\b(?:docker|podman)\\s+(?:rm|stop|kill|restart)\\b|\\bdocker\\s+compose\\s+(?:down|restart|stop|kill|rm)\\b|\\bnvidia-smi\\b[^\\n;|&]*--gpu-reset\\b)", "i"⟩),
    (.chmodR, ⟨"\\b(?:chmod|chown|chgrp)\\b[^\\n;|&]*?(?:-[a-z]*r[a-z]*\\b|-\x7b2\x7drecursive\\b)", "i"⟩),
    (.forkbomb, ⟨":\\s*\\(\\s*\\)\\s*\\\x7b\\s*:\\s*\\|\\s*:\\s*&\\s*\\\x7d\\s*;\\s*:", ""⟩),
    (.overwrite, ⟨"(?:(?:>|>>|\\btee\\b|\\bsed\\s+-i\\b|\\bperl\\s+-pi\\b|\\binstall\\b|\\bcp\\b|\\bcopy\\b|\\bset-content\\b|\\badd-content\\b|\\bout-file\\b)[^\\n;&]*(?:\\/etc\\/|\\/boot\\/|\\/root\\/|\\/(?:usr\\/)?s?bin\\/|\\/var\\/(?:lib|spool)\\/|[a-z]:\\\\windows\\\\(?:system32|syswow64)\\\\))", "i"⟩),
    (.dbDrop, ⟨"\\b(?:drop\\s+(?:database|schema|table)|truncate\\s+(?:table\\s+)?)\\b", "i"⟩),
    (.infra, ⟨"(?:\\bkubectl\\s+(?:apply|replace|patch|delete|drain|cordon|uncordon|taint|scale)\\b|\\bkubectl\\s+rollout\\s+restart\\b|\\bterraform\\s+(?:apply|destroy)\\b|\\b(?:docker|podman)\\s+(?:system|volume|network|image)\\s+prune\\b)", "i"⟩),
    (.gitDestructive, ⟨"(?:\\bgit\\s+reset\\b[^\\n;|&]*--hard\\b|\\bgit\\s+clean\\b|\\bgit\\s+branch\\b[^\\n;|&]*-D\\b|\\bgit\\s+push\\b[^\\n;|&]*(?:--force(?:-with-lease)?\\b|-f\\b)|\\bgit\\s+(?:checkout\\s+--|restore\\b))", "i"⟩),
    (.secretAccess, ⟨"(?:(?:^|[\\\\/])\\.(?:ssh|aws|kube)(?:[\\\\/]|$)|\\bkubectl\\b[^\\n;|&]*\\b(?:get|describe)\\s+secrets?\\b|^\\s*(?:env|printenv|set)\\s*$|\\bget-childitem\\s+env:\\s*$)", "i"⟩)]

/-- A kind is noted, once. -/
def note (cmd : List ℕ) (reasons : List RiskCode) (pattern : RiskCode × RegExpLiteral) :
    List RiskCode :=
  if pattern.2.test cmd && !reasons.contains pattern.1 then reasons ++ [pattern.1] else reasons

/-- The kinds that a command matches. -/
def isSensitiveCommand (cmd : List ℕ) : SensitivityResult :=
  let reasons := if 0 < cmd.length then riskPatterns.foldl (note cmd) [] else []
  ⟨decide (0 < reasons.length), reasons⟩

theorem foldl_note (cmd : List ℕ) (patterns : List (RiskCode × RegExpLiteral))
    (reasons : List RiskCode) (hnodup : (reasons ++ patterns.map Prod.fst).Nodup) :
  patterns.foldl (note cmd) reasons
    = reasons ++ (patterns.filter fun pattern => pattern.2.test cmd).map Prod.fst
  := by
  induction patterns generalizing reasons with
  | nil => exact (List.append_nil reasons).symm
  | cons pattern patterns ih =>
    have hnew : reasons.contains pattern.1 = false := by
      rw [List.contains_eq_mem, decide_eq_false_iff_not]
      intro hmem
      exact (List.nodup_append.mp hnodup).2.2 _ hmem _ List.mem_cons_self rfl
    rw [List.foldl_cons, note, hnew, Bool.not_false, Bool.and_true]
    split
    · rename_i htest
      rw [List.filter_cons, if_pos htest, List.map_cons, ih]
      · rw [List.append_assoc, List.singleton_append]
      · rw [List.append_assoc, List.singleton_append]
        exact hnodup
    · rename_i htest
      rw [List.filter_cons, if_neg htest, ih]
      exact hnodup.sublist ((List.sublist_cons_self _ _).append_left reasons)

theorem reasons_isSensitiveCommand {cmd : List ℕ} (hcmd : cmd ≠ []) :
  (isSensitiveCommand cmd).reasons
    = (riskPatterns.filter fun pattern => pattern.2.test cmd).map Prod.fst
  := by
  unfold isSensitiveCommand
  dsimp only
  rw [if_pos (List.length_pos_iff.mpr hcmd), foldl_note _ _ _ (by decide), List.nil_append]

end Workbench
