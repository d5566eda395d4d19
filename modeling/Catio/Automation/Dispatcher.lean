import Catio.Automation.History
import Catio.Lib.Substitution

/-!
# Dispatching a fired task

The model of `automation/dispatcher.rs` and `automation/prompt.rs`: what the dispatcher of a
fired task records, and which work it starts.  It waits for a script that it runs itself;
commands for the terminal of the user and turns of the agent it hands over.
-/

namespace Automation

open Agent Text

/-! ### Records of runs -/

inductive TaskRunStatus where
  | success
  | failed
  | running
  deriving DecidableEq

/-- The result of one fired run, as it is shown for its task. -/
structure TaskRunInfo where
  taskId : Text
  status : TaskRunStatus
  summary : Text
  at_ : Text
  deriving DecidableEq

/-- A command that is to be run in the terminal of the user. -/
structure ShellFiring where
  taskId : Text
  target : Text
  command : Text
  at_ : Text
  deriving DecidableEq

/-- What the dispatcher finds outside: the time, the provider, the live sessions, the frontend, the
providers that can be created, and the order in which a map is visited. -/
structure World where
  clock : Text
  epochSeconds : ℕ
  provider : Option ProviderConfig
  sessions : Text → Option (Text × Text)
  visit : List (Text × Text) → List (Text × Text)
  onShellFiring : Bool
  createProvider : ProviderConfig → Except AgentError Unit

def World.record (world : World) (task : ScheduledTask) (status : TaskRunStatus)
    (summary : Text) : TaskRunInfo :=
  ⟨task.id, status, summary, world.clock⟩

/-- The first characters of a text. -/
def truncate (s : Text) (max : ℕ) : Text :=
  if s.length ≤ max then s else s.take max ++ "…"

/-! ### Prompts -/

/-- Put the values of placeholders in. -/
def renderTemplate (template : Text) (ctx : List (Text × Text)) : Text :=
  ctx.foldl
    (fun out (key, value) =>
      let placeholder := "\x7b\x7b" ++ key ++ "\x7d\x7d"
      Replace.replaceAll (fun rest => if placeholder.isPrefixOf rest then placeholder.length else 0)
        value out)
    template

/-- The instructions of the enabled skills, and the prompt of the task behind them. -/
def buildUserPrompt (task : ScheduledTask) (skills : List Skill) (ctx : List (Text × Text)) :
    Text :=
  let rendered := (skills.filter Skill.enabled).map fun skill =>
    trim (renderTemplate skill.promptTemplate ctx)
  let prompt := trim (task.prompt.getD [])
  join "\n\n" ((rendered ++ [prompt]).filter fun part => part ≠ [])

def World.targetCtx (world : World) (task : ScheduledTask) : List (Text × Text) :=
  let target := task.targetRef.getD []
  if target = [] then []
  else
    match world.sessions target with
    | none => []
    | some (host, user) =>
        world.visit ([(("host" : Text), host), ("user", user)].filter fun field => field.2 ≠ [])

def promptRequest (g : StoreInner) (world : World) (task : ScheduledTask)
    (provider : ProviderConfig) : StartTurnRequest :=
  let skills := (g.listSkills task.ownerId).filter fun skill => skill.id ∈ task.skillIds
  { conversationId := "task-" ++ task.id
    messages := [⟨.user, [.text (buildUserPrompt task skills (world.targetCtx task))]⟩]
    systemPrompt := []
    targetRef := task.targetRef.getD []
    provider := provider
    executionMode := .ask
    singleLineCommands := true
    roundCap := 5 }

/-- What the turn of a task may do while nobody attends it. -/
def ScheduledTask.unattended (task : ScheduledTask) : UnattendedPolicy :=
  match task.policy with
  | .reject => .rejectSensitive
  | .whitelist => .whitelist task.whitelist
  | .auto => .auto

/-! ### The end of a turn -/

/-- The outcome that a turn has after an event. -/
def PromptOutcome.emit (outcome : PromptOutcome) : AgentEvent → PromptOutcome
  | .turnFinished => .completed
  | .turnCancelled => .cancelled
  | .turnFailed _ _ => .failed
  | _ => outcome

def turnOutcome (events : List AgentEvent) : PromptOutcome :=
  events.foldl PromptOutcome.emit .outcomeUnknown

def historyEntry (world : World) (task : ScheduledTask) (outcome : PromptOutcome) :
    PromptHistoryEntry where
  id := "ph-" ++ task.id ++ "-" ++ ofNat world.epochSeconds
  kind := "prompt"
  source := .task
  turnId := task.id
  target := task.targetRef.getD []
  text := truncate (task.prompt.getD []) 120
  outcome := outcome
  when_ := world.clock
  dur := []
  ownerId := task.ownerId

def turnRecord (world : World) (task : ScheduledTask) : PromptOutcome → TaskRunInfo
  | .completed => world.record task .success "已完成"
  | .failed => world.record task .failed "失败"
  | .cancelled => world.record task .failed "已取消"
  | .outcomeUnknown => world.record task .failed "结果未知"

/-! ### The dispatch -/

/-- Work that a dispatch starts. -/
inductive Work where
  | script (target command : Text)
  | terminal (firing : ShellFiring)
  | turn (actor : ActorContext) (request : StartTurnRequest) (unattended : UnattendedPolicy)
      (mcpIds : List Text)

/-- The dispatch waits for the work. -/
def Work.awaited : Work → Bool
  | .script _ _ => true
  | _ => false

/-- What a dispatch does up to its work: the records of the task, the entries of the history,
and the work. -/
structure DispatchRun where
  records : List TaskRunInfo
  entries : List PromptHistoryEntry
  work : Option Work

/-- Start a turn; the engine runs it on its own. -/
def World.startTurn (world : World) (request : StartTurnRequest) : Except AgentError Unit := do
  request.validate
  world.createProvider request.provider

namespace AutomationDispatcher

def runShell (world : World) (task : ScheduledTask) : DispatchRun :=
  let target := task.targetRef.getD []
  if target = [] then ⟨[world.record task .failed "任务未指定目标连接"], [], none⟩
  else if world.onShellFiring then
    ⟨[world.record task .running "正在执行…"], [],
      some (.terminal ⟨task.id, target, task.script.getD [], world.clock⟩)⟩
  else
    match world.sessions target with
    | none => ⟨[world.record task .failed "目标未连接（请先在 Catio 中连接该主机）"], [], none⟩
    | some _ => ⟨[], [], some (.script target (task.script.getD []))⟩

def scriptRecord (world : World) (task : ScheduledTask) : Except Text Text → TaskRunInfo
  | .ok out =>
      if trim out = [] then world.record task .success "exit 0（无输出）"
      else world.record task .success (truncate (trim out) 200)
  | .error e => world.record task .failed ("执行失败: " ++ e)

def runPrompt (g : StoreInner) (world : World) (task : ScheduledTask) : DispatchRun :=
  match world.provider with
  | none => ⟨[world.record task .failed "未配置 AI Provider（请在设置中配置模型）"], [], none⟩
  | some provider =>
      let request := promptRequest g world task provider
      match world.startTurn request with
      | .ok () => ⟨[], [], some (.turn ⟨task.ownerId⟩ request task.unattended task.mcpIds)⟩
      | .error e =>
          -- The sink of the turn is dropped first.
          ⟨[turnRecord world task .outcomeUnknown,
            world.record task .failed ("启动失败: " ++ e.message)],
            [historyEntry world task .outcomeUnknown], none⟩

/-- What the dispatch of a task does up to its work. -/
def dispatch (g : StoreInner) (world : World) (task : ScheduledTask) : DispatchRun :=
  match task.kind with
  | .shell => runShell world task
  | .prompt => runPrompt g world task

end AutomationDispatcher

end Automation

/-!
## Rendering a template

`render_template` of `automation/skill.rs` puts the values of variables in one after the other,
in the order in which a map is visited.  This is the substitution of all variables at once, for
all templates and all orders, exactly if no value can be completed to the placeholder of another
variable (`renderTemplate_simultaneous_iff`).
-/

namespace Automation

open Replace Text

def placeholder (name : Text) : Text :=
  "\x7b\x7b" ++ name ++ "\x7d\x7d"

/-- The placeholders of variables, with the values. -/
def placeholders (fields : List (Text × Text)) : List (Text × Text) :=
  fields.map fun f => (placeholder f.1, f.2)

theorem renderTemplate_eq (template : Text) (ctx : List (Text × Text)) :
  renderTemplate template ctx = replaceEach (placeholders ctx) template
  := by
  rw [replaceEach, placeholders, List.foldl_map]
  rfl

/-- The variables of a template: each has one value, and no name has a brace. -/
structure Variables where
  fields : List (Text × Text)
  nodup : (fields.map Prod.fst).Nodup
  names : ∀ f ∈ fields, '{' ∉ f.1 ∧ '}' ∉ f.1

theorem placeholder_eq (name : Text) :
  placeholder name = '{' :: '{' :: (name ++ ['}', '}'])
  := rfl

theorem name_eq_of_begins {name other rest : Text} (hname : '}' ∉ name) (hother : '}' ∉ other)
    (h : placeholder name ++ rest = placeholder other) :
  name = other
  := by
  have hsame : name ++ '}' :: ('}' :: rest) = other ++ '}' :: ['}'] := by
    rw [placeholder_eq, placeholder_eq] at h
    simpa using h
  have hsplit := congrArg (splitOnce '}') hsame
  rw [splitOnce_append hname, splitOnce_append hother] at hsplit
  cases hsplit
  rfl

theorem not_two_braces {name x y : Text} (hname : '{' ∉ name) (hsplit : placeholder name = x ++ y)
    (hx : x ≠ []) :
  ¬ ['{', '{'] <+: y
  := by
  rintro ⟨rest, rfl⟩
  rw [placeholder_eq] at hsplit
  have hmem : '{' ∈ name ++ ['}', '}'] := by
    match x, hx with
    | [c], _ =>
      have h : '{' :: (name ++ ['}', '}']) = '{' :: '{' :: rest := (List.cons.inj hsplit).2
      rw [(List.cons.inj h).2]
      apply List.mem_cons_self
    | c :: d :: x, _ =>
      have h : '{' :: (name ++ ['}', '}']) = d :: (x ++ (['{', '{'] ++ rest)) :=
        (List.cons.inj hsplit).2
      rw [(List.cons.inj h).2]
      simp
  rcases List.mem_append.mp hmem with h | h
  · exact hname h
  · revert h
    decide

theorem mem_of_suffix {name x y : Text} (hsplit : placeholder name = x ++ y) (hy : y ≠ []) :
  '}' ∈ y
  := by
  have hlast : (placeholder name).getLast? = some '}' := by
    have hconcat : placeholder name = ('{' :: '{' :: (name ++ ['}'])) ++ ['}'] := by
      rw [placeholder_eq]
      simp
    rw [hconcat, List.getLast?_concat]
  rw [hsplit, List.getLast?_append_of_ne_nil x hy] at hlast
  exact List.mem_of_getLast? hlast

namespace Variables

variable (v : Variables)

theorem overlapFree :
  OverlapFree (placeholders v.fields)
  := by
  have hcode : ∀ f ∈ v.fields, ∀ g ∈ v.fields, placeholder f.1 <+: placeholder g.1 → f.1 = g.1 := by
    rintro f hf g hg ⟨rest, h⟩
    exact name_eq_of_begins (v.names f hf).2 (v.names g hg).2 h
  constructor
  · have hmap : (placeholders v.fields).map Prod.fst = (v.fields.map Prod.fst).map placeholder := by
      simp [placeholders]
    rw [hmap]
    apply v.nodup.map_on
    intro name hname other hother h
    obtain ⟨f, hf, rfl⟩ := List.mem_map.mp hname
    obtain ⟨g, hg, rfl⟩ := List.mem_map.mp hother
    exact hcode f hf g hg (by rw [h])
  · intro p hp
    obtain ⟨f, -, rfl⟩ := List.mem_map.mp hp
    simp [placeholder_eq]
  · intro p hp q hq h
    obtain ⟨f, hf, rfl⟩ := List.mem_map.mp hp
    obtain ⟨g, hg, rfl⟩ := List.mem_map.mp hq
    change placeholder f.1 = placeholder g.1
    rw [hcode f hf g hg h]
  · intro p hp q hq x y hsplit hx hy
    obtain ⟨f, hf, rfl⟩ := List.mem_map.mp hp
    obtain ⟨g, hg, rfl⟩ := List.mem_map.mp hq
    have hnot := not_two_braces (v.names f hf).1 hsplit hx
    have htwo : ['{', '{'] <+: placeholder g.1 := ⟨g.1 ++ ['}', '}'], rfl⟩
    constructor
    · intro h
      rcases List.prefix_or_prefix_of_prefix htwo h with hbraces | hshort
      · exact hnot hbraces
      · have hclosing := hshort.subset (mem_of_suffix hsplit hy)
        revert hclosing
        decide
    · intro h
      exact hnot (htwo.trans h)

/-- A template is rendered as if all variables were put in at once, in whatever order the map is
visited. -/
def Simultaneous (template : Text) : Prop :=
  ∃ out, Substituted (placeholders v.fields) template out
    ∧ ∀ order, order.Perm v.fields → renderTemplate template order = out

theorem exists_order {ps : List (Text × Text)} (h : ps.Perm (placeholders v.fields)) :
  ∃ order, order.Perm v.fields ∧ placeholders order = ps
  := by
  have hback (name : Text) : (placeholder name).tail.tail.dropLast.dropLast = name := by
    rw [placeholder_eq]
    simp
  have hself (fields : List (Text × Text)) :
      (placeholders fields).map (fun p => (p.1.tail.tail.dropLast.dropLast, p.2)) = fields := by
    rw [placeholders, List.map_map]
    conv_rhs => rw [← List.map_id fields]
    apply List.map_congr_left
    intro f _
    apply Prod.ext
    · apply hback
    · rfl
  use ps.map fun p => (p.1.tail.tail.dropLast.dropLast, p.2)
  constructor
  · have hmap := h.map fun p : Text × Text => (p.1.tail.tail.dropLast.dropLast, p.2)
    rwa [hself] at hmap
  · rw [placeholders, List.map_map]
    conv_rhs => rw [← List.map_id ps]
    apply List.map_congr_left
    intro p hp
    obtain ⟨f, -, rfl⟩ := List.mem_map.mp (h.mem_iff.mp hp)
    apply Prod.ext
    · exact congrArg placeholder (hback f.1)
    · rfl

/-- No value makes up the placeholder of another variable between a beginning and an end of it,
unless that one stands for itself. -/
def NoContact : Prop :=
  ∀ a ∈ v.fields, ∀ b ∈ v.fields, a ≠ b →
    b.2 = placeholder b.1 ∨ ¬ Completes a.2 (placeholder b.1)

theorem noContact_iff :
  v.NoContact ↔ Replace.NoContact (placeholders v.fields)
  := by
  constructor
  · intro h p hp q hq hne
    obtain ⟨a, ha, rfl⟩ := List.mem_map.mp hp
    obtain ⟨b, hb, rfl⟩ := List.mem_map.mp hq
    apply h a ha b hb
    rintro rfl
    exact hne rfl
  · intro h a ha b hb hne
    apply h _ (List.mem_map_of_mem ha) _ (List.mem_map_of_mem hb)
    intro hsame
    obtain ⟨hname, hvalue⟩ := Prod.mk.inj hsame
    apply hne
    apply Prod.ext
    · apply @name_eq_of_begins _ _ [] (v.names a ha).2 (v.names b hb).2
      rw [List.append_nil, hname]
    · exact hvalue

end Variables

/-- The variables are put into all templates as if at once, whatever the order of the map, exactly
if no value makes contact with the placeholder of another variable. -/
theorem renderTemplate_simultaneous_iff (v : Variables) :
  (∀ template, v.Simultaneous template) ↔ v.NoContact
  := by
  rw [v.noContact_iff, ← replaceEach_substituted_iff v.overlapFree]
  constructor
  · intro h xs
    obtain ⟨out, hsubst, horder⟩ := h xs
    use out, hsubst
    intro ps hperm
    obtain ⟨order, horder', rfl⟩ := v.exists_order hperm
    rw [← renderTemplate_eq]
    exact horder order horder'
  · intro h template
    obtain ⟨out, hsubst, horder⟩ := h template
    use out, hsubst
    intro order hperm
    rw [renderTemplate_eq]
    exact horder _ (hperm.map _)

/-- The variables of a host whose name is the placeholder of the user. -/
def hostileHost : Variables where
  fields := [("host", "{{user}}"), ("user", "root")]
  nodup := by decide
  names := by decide

/-- What stood in a value is treated as a placeholder, and whether it is depends on the order of
the map. -/
theorem renderTemplate_not_simultaneous :
  renderTemplate (placeholder "host") hostileHost.fields = "root"
    ∧ renderTemplate (placeholder "host") hostileHost.fields.reverse = placeholder "user"
    ∧ ¬ hostileHost.Simultaneous (placeholder "host")
  := by
  have hfirst : renderTemplate (placeholder "host") hostileHost.fields = "root" := by decide
  have hsecond : renderTemplate (placeholder "host") hostileHost.fields.reverse
      = placeholder "user" := by decide
  refine ⟨hfirst, hsecond, ?_⟩
  rintro ⟨out, -, horder⟩
  have hboth := (horder _ (List.Perm.refl _)).trans (horder _ (List.reverse_perm _)).symm
  rw [hfirst, hsecond] at hboth
  revert hboth
  decide

end Automation
