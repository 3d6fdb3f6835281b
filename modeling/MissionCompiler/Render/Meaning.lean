import MissionCompiler.Lib.Pairs
import MissionCompiler.Lib.Scheduling
import MissionCompiler.Render.Admission
import MissionCompiler.Render.Dag

/-!
# What a rendered workflow does

A service runs its steps one after another, or in any order. An engine that is given a workflow
runs the tasks of its entrypoint, each by the container of the template the task names, and starts
a task once the one it depends on has succeeded. Rendering keeps what may be seen of the runs: which
containers start, succeed and fail, and in which order.
-/

namespace MissionCompiler.Render

open Lib Schema Names Compile

/-! ## Services -/

/-- What is run for a step. -/
structure Container where
  image : Json
  command : Option Json
  args : Option Json

def stepContainer (step : WorkflowStep) : Container where
  image := .str step.image
  command := if step.command.isEmpty then none else some (dumpStrings step.command)
  args := if step.args.isEmpty then none else some (dumpStrings step.args)

/-- The containers of some steps. -/
def containersOf (steps : List WorkflowStep) : List Container := steps.map stepContainer

/-- What it is to run some steps in a mode. -/
def stepSystem (steps : List WorkflowStep) :
    ExecutionMode → TaskSystem (Fin (containersOf steps).length) Container
  | .sequential => .chain (containersOf steps)
  | .parallel => .unordered (containersOf steps)

/-! ## An engine -/

def called (name : String) (things : List Json) : Option Json :=
  things.find? fun thing => (thing.field "name").eqStr name

/-- The tasks of the entrypoint. -/
def entryTasks (workflow : Json) : List Json :=
  match ((workflow.field "spec").field "entrypoint").str? with
  | some name => ((called name (workflowTemplates workflow)).map dagTasksOf).getD []
  | none => []

/-- The container of a template. -/
def templateContainer (template : Json) : Container where
  image := (template.field "container").field "image"
  command := (template.field "container").get? "command"
  args := (template.field "container").get? "args"

/-- The container a task runs: that of the template it names. -/
def taskContainer (workflow : Json) (name : String) : Container :=
  templateContainer (((called name (entryTasks workflow)).bind fun task =>
    (task.field "template").str?.bind fun template =>
      called template (workflowTemplates workflow)).getD .null)

/-- The engine, over the names of tasks. A `depends` is the name of one task, which is to have
succeeded. -/
def engine (workflow : Json) : TaskSystem String Container where
  tasks := {name | (called name (entryTasks workflow)).isSome}
  runs := taskContainer workflow
  ready phase name := ∀ task, called name (entryTasks workflow) = some task →
    ∀ depends, task.get? "depends" = some depends →
      ∃ before, depends = .str before ∧ phase before = .succeeded

/-! ## What is kept -/

/-- A workflow does what a service asks for. -/
structure Performs (svc : AIService) (workflow : Json) : Prop where
  traces : (engine workflow).traces = (stepSystem svc.steps svc.executionMode).traces
  completions : (engine workflow).completions =
    (stepSystem svc.steps svc.executionMode).completions
  in_order : svc.executionMode = .sequential → ∀ hs ∈ (engine workflow).traces,
    startsOf hs <+: containersOf svc.steps
  once : ∀ hs ∈ (engine workflow).completions, (startsOf hs).Perm (containersOf svc.steps)
  goes_on : ∀ hs ∈ (engine workflow).traces, hs ∈ (engine workflow).completions ∨
    (∃ h ∈ hs, h.becomes = .failed) ∨ ∃ h, hs ++ [h] ∈ (engine workflow).traces

/-! ## Things with names -/

theorem called_cons_self {thing : Json} {things : List Json} {name : String}
    (h : thing.field "name" = .str name) : called name (thing :: things) = some thing :=
  List.find?_cons_of_pos (Json.eqStr_iff.mpr h)

theorem called_cons_of_ne {thing : Json} {things : List Json} {name other : String}
    (h : thing.field "name" = .str other) (hne : other ≠ name) :
    called name (thing :: things) = called name things := by
  have hskip : (thing.field "name").eqStr name = false := by
    rw [h]
    exact beq_false_of_ne hne
  simp only [called, List.find?_cons, hskip]

theorem called_eq_some {things : List Json} {names : List String}
    (h : things.map (Json.field "name") = names.map .str) (hnodup : names.Nodup) {i : Nat}
    {thing : Json} {name : String} (hthing : things[i]? = some thing)
    (hname : names[i]? = some name) : called name things = some thing := by
  induction things generalizing names i with
  | nil => cases hthing
  | cons first things ih =>
    cases names with
    | nil => cases h
    | cons firstName names =>
      rw [List.map_cons, List.map_cons] at h
      obtain ⟨hfirst, hrest⟩ := List.cons.inj h
      obtain ⟨hnot, hnodup⟩ := List.nodup_cons.mp hnodup
      cases i with
      | zero =>
        obtain rfl := Option.some.inj hthing
        obtain rfl := Option.some.inj hname
        exact called_cons_self hfirst
      | succ i =>
        have hne : firstName ≠ name := fun heq =>
          hnot (heq ▸ List.mem_of_getElem? (show names[i]? = some name from hname))
        rw [called_cons_of_ne hfirst hne]
        exact ih hrest hnodup hthing hname

theorem isSome_called {things : List Json} {names : List String} {name : String}
    (h : things.map (Json.field "name") = names.map .str) :
    (called name things).isSome ↔ name ∈ names := by
  have hmem : Json.str name ∈ things.map (Json.field "name") ↔ name ∈ names := by
    rw [h]
    simp
  rw [called, List.find?_isSome, ← hmem, List.mem_map]
  simp only [Json.eqStr_iff]

/-! ## Rendered workflows -/

section Dag

variable {workflow main : Json} {templates : List Json} {names : List String}
  {steps : List WorkflowStep}

theorem entryTasks_eq (htemplates : workflowTemplates workflow = main :: templates)
    (hentry : (workflow.field "spec").field "entrypoint" = .str "main")
    (hdag : WellFormedDag steps main templates names) : entryTasks workflow = dagTasksOf main := by
  have hmain : called "main" (main :: templates) = some main := called_cons_self hdag.entry
  rw [entryTasks, hentry, htemplates]
  show ((called "main" (main :: templates)).map dagTasksOf).getD [] = _
  rw [hmain]
  rfl

/-- The task of a step runs the container of the step. -/
theorem taskContainer_eq (htemplates : workflowTemplates workflow = main :: templates)
    (hentry : (workflow.field "spec").field "entrypoint" = .str "main")
    (hdag : WellFormedDag steps main templates names) {i : Nat} {name : String}
    {step : WorkflowStep} (hname : names[i]? = some name) (hstep : steps[i]? = some step) :
    taskContainer workflow name = stepContainer step := by
  obtain ⟨task, htask⟩ : ∃ task, (dagTasksOf main)[i]? = some task := by
    have hlength := congrArg List.length hdag.tasks
    simp only [List.length_map] at hlength
    have hi : i < (dagTasksOf main).length := hlength ▸ (List.getElem?_eq_some_iff.mp hname).1
    exact ⟨_, List.getElem?_eq_getElem hi⟩
  obtain ⟨template, htemplate⟩ : ∃ template, templates[i]? = some template := by
    have hi : i < templates.length :=
      hdag.steps.length_eq ▸ (List.getElem?_eq_some_iff.mp hstep).1
    exact ⟨_, List.getElem?_eq_getElem hi⟩
  have hruns : RunsStep step template := by
    obtain ⟨hi, rfl⟩ := List.getElem?_eq_some_iff.mp hstep
    obtain ⟨hi', rfl⟩ := List.getElem?_eq_some_iff.mp htemplate
    exact (List.forall₂_iff_get.mp hdag.steps).2 i hi hi'
  have htarget : task.field "template" = .str name := by
    have hat := congrArg (·[i]?) hdag.targets
    simp only [List.getElem?_map, htask, hname] at hat
    exact Option.some.inj hat
  have hskip : called name (main :: templates) = some template := by
    have hne : "main" ≠ name := fun heq => hdag.fresh (heq ▸ List.mem_of_getElem? hname)
    rw [called_cons_of_ne hdag.entry hne]
    exact called_eq_some hdag.named hdag.distinct htemplate hname
  rw [taskContainer, entryTasks_eq htemplates hentry hdag, htemplates,
    called_eq_some hdag.tasks hdag.distinct htask hname]
  show templateContainer (((task.field "template").str?.bind _).getD .null) = _
  rw [htarget]
  show templateContainer ((called name (main :: templates)).getD .null) = _
  rw [hskip]
  show templateContainer template = _
  rw [templateContainer, hruns.image, hruns.command, hruns.args]
  rfl

/-- The name of the task of a step. -/
def taskName (names : List String) (i : Fin (containersOf steps).length) : String :=
  names[i.val]?.getD ""

theorem length_names (hdag : WellFormedDag steps main templates names) :
    names.length = (containersOf steps).length := by
  have hlength := congrArg List.length hdag.named
  simp only [List.length_map] at hlength
  rw [containersOf, List.length_map, ← hlength, hdag.steps.length_eq]

theorem getElem?_taskName (hdag : WellFormedDag steps main templates names)
    (i : Fin (containersOf steps).length) : names[i.val]? = some (taskName names i) := by
  have hi : i.val < names.length := by
    rw [length_names hdag]
    exact i.isLt
  rw [taskName, List.getElem?_eq_getElem hi, Option.getD_some]

/-- The task of a step. -/
theorem task_of_step (hdag : WellFormedDag steps main templates names)
    (i : Fin (containersOf steps).length) : ∃ task, (dagTasksOf main)[i.val]? = some task ∧
      called (taskName names i) (dagTasksOf main) = some task := by
  have hlength := congrArg List.length hdag.tasks
  simp only [List.length_map] at hlength
  have hi : i.val < (dagTasksOf main).length := by
    rw [hlength, length_names hdag]
    exact i.isLt
  refine ⟨_, List.getElem?_eq_getElem hi, ?_⟩
  exact called_eq_some hdag.tasks hdag.distinct (List.getElem?_eq_getElem hi)
    (getElem?_taskName hdag i)

/-- The steps and the tasks correspond, if the tasks are ready when the steps are. -/
theorem corresponds_of_ready (htemplates : workflowTemplates workflow = main :: templates)
    (hentry : (workflow.field "spec").field "entrypoint" = .str "main")
    (hdag : WellFormedDag steps main templates names)
    {S : TaskSystem (Fin (containersOf steps).length) Container} (htasks : S.tasks = Set.univ)
    (hruns : ∀ i, S.runs i = (containersOf steps)[i])
    (hready : ∀ s t, TaskSystem.Matches (taskName names) S s t → ∀ i task,
      (dagTasksOf main)[i.val]? = some task →
        ((∀ depends, task.get? "depends" = some depends →
          ∃ before, depends = .str before ∧ t before = .succeeded) ↔ S.ready s i)) :
    TaskSystem.Corresponds (taskName names) S (engine workflow) := by
  have hentries := entryTasks_eq htemplates hentry hdag
  have hinj : Function.Injective (@taskName steps names) := by
    intro i j hij
    have hi := getElem?_taskName hdag i
    rw [hij, ← getElem?_taskName hdag j] at hi
    have hlt : j.val < names.length := by
      rw [length_names hdag]
      exact j.isLt
    exact Fin.ext ((List.getElem?_inj hlt hdag.distinct).mp hi.symm).symm
  refine ⟨⟨fun i _ => ?_, hinj.injOn, fun name hname => ?_⟩, fun i _ => ?_, fun s t hst i hi => ?_⟩
  · show (called (taskName names i) (entryTasks workflow)).isSome
    rw [hentries, isSome_called hdag.tasks]
    exact List.mem_of_getElem? (getElem?_taskName hdag i)
  · have hmem : name ∈ names := by
      rw [← isSome_called hdag.tasks, ← hentries]
      exact hname
    obtain ⟨i, hi, rfl⟩ := List.getElem_of_mem hmem
    refine ⟨⟨i, length_names hdag ▸ hi⟩, htasks ▸ Set.mem_univ _, ?_⟩
    rw [taskName, List.getElem?_eq_getElem hi, Option.getD_some]
  · have hi : i.val < steps.length := by simpa [containersOf] using i.isLt
    show taskContainer workflow (taskName names i) = _
    rw [taskContainer_eq htemplates hentry hdag (getElem?_taskName hdag i)
      (List.getElem?_eq_getElem hi), hruns]
    exact (List.getElem_map stepContainer).symm
  · obtain ⟨task, htask, hcalled⟩ := task_of_step hdag i
    rw [← hready s t hst i task htask]
    show (∀ task, called (taskName names i) (entryTasks workflow) = some task → _) ↔ _
    rw [hentries, hcalled]
    simp only [Option.some.injEq, forall_eq']

/-- A chain of tasks corresponds to the steps one after another. -/
theorem corresponds_sequential (htemplates : workflowTemplates workflow = main :: templates)
    (hentry : (workflow.field "spec").field "entrypoint" = .str "main")
    (hdag : WellFormedDag steps main templates names)
    (hchain : SequentialDag (dagTasksOf main) names) :
    TaskSystem.Corresponds (taskName names) (stepSystem steps .sequential) (engine workflow) := by
  refine corresponds_of_ready htemplates hentry hdag rfl (fun _ => rfl)
    fun s t hst i task htask => ?_
  have hdepends := hchain.depends i.val task htask
  show _ ↔ ∀ j : Fin (containersOf steps).length, j.val + 1 = i.val → s j = .succeeded
  cases hi : i.val with
  | zero =>
    rw [hi] at hdepends
    rw [hdepends]
    simp
  | succ previous =>
    have hlt : previous < (containersOf steps).length := by omega
    have hprevious := getElem?_taskName hdag ⟨previous, hlt⟩
    rw [hi] at hdepends
    simp only [hprevious, Option.map_some] at hdepends
    rw [hdepends]
    have hat := hst ⟨previous, hlt⟩ trivial
    constructor
    · intro h j hj
      obtain ⟨before, hbefore, hsucceeded⟩ := h _ rfl
      obtain rfl : j = ⟨previous, hlt⟩ := Fin.ext (by simp only; omega)
      rw [← hat, Json.str.inj hbefore, hsucceeded]
    · intro h depends hdep
      refine ⟨_, (Option.some.inj hdep).symm, ?_⟩
      rw [hat]
      exact h _ rfl

/-- Tasks that depend on nothing correspond to the steps in any order. -/
theorem corresponds_parallel (htemplates : workflowTemplates workflow = main :: templates)
    (hentry : (workflow.field "spec").field "entrypoint" = .str "main")
    (hdag : WellFormedDag steps main templates names)
    (hfree : ∀ task ∈ dagTasksOf main, task.get? "depends" = none) :
    TaskSystem.Corresponds (taskName names) (stepSystem steps .parallel) (engine workflow) := by
  refine corresponds_of_ready htemplates hentry hdag rfl (fun _ => rfl)
    fun s t _ i task htask => ?_
  rw [hfree task (List.mem_of_getElem? htask)]
  exact iff_of_true (by simp) trivial

end Dag

/-! ## Services of a plan -/

theorem live_stepSystem (steps : List WorkflowStep) (mode : ExecutionMode) :
    (stepSystem steps mode).Live := by
  cases mode with
  | sequential => exact TaskSystem.live_chain
  | parallel => exact TaskSystem.live_unordered

theorem stepSystem_once {steps : List WorkflowStep} {mode : ExecutionMode}
    {hs : List (Happening Container)} (h : hs ∈ (stepSystem steps mode).completions) :
    (startsOf hs).Perm (containersOf steps) := by
  cases mode with
  | sequential => exact TaskSystem.startsOf_completion rfl (fun _ => rfl) h
  | parallel => exact TaskSystem.startsOf_completion rfl (fun _ => rfl) h

/-- A workflow whose tasks correspond to the steps of a service does what the service asks for. -/
theorem Performs.of_corresponds {svc : AIService} {workflow : Json}
    {f : Fin (containersOf svc.steps).length → String}
    (h : TaskSystem.Corresponds f (stepSystem svc.steps svc.executionMode) (engine workflow)) :
    Performs svc workflow := by
  have htraces := h.traces_eq
  have hcompletions := h.completions_eq
  refine ⟨htraces, hcompletions, fun hmode hs hmem => ?_, fun hs hmem => ?_, fun hs hmem => ?_⟩
  · rw [htraces, hmode] at hmem
    exact TaskSystem.chain_in_order hmem
  · rw [hcompletions] at hmem
    exact stepSystem_once hmem
  · rw [htraces] at hmem ⊢
    rw [hcompletions]
    exact (live_stepSystem svc.steps svc.executionMode).goes_on hmem

variable (host : Host)

/-- The workflow of an intent made of a service. -/
theorem renderArgoWorkflow_performs {intent : WorkflowIntent} {svc : AIService}
    {draFallback : Bool} {namespaceName serviceAccount : Option String} {workflow : Json}
    (hsteps : intent.steps = svc.steps) (hmode : hintedMode intent = .str svc.executionMode.value)
    (hlist : svc.steps.length ≤ maxListLength)
    (h : renderArgoWorkflow host intent draFallback namespaceName serviceAccount =
      .ok workflow) : Performs svc workflow := by
  obtain ⟨main, templates, names, htemplates, hentry, hdag, horder⟩ :=
    (renderArgoWorkflow_dag host intent draFallback namespaceName serviceAccount
      (hsteps ▸ hlist)).1 workflow h
  rw [hsteps] at hdag
  rw [hmode] at horder
  cases hexecution : svc.executionMode with
  | sequential =>
    rw [hexecution] at horder
    have hchain := horder.elim And.right fun hparallel => 
      absurd hparallel.1 (by simp [ExecutionMode.value])
    apply Performs.of_corresponds
    rw [hexecution]
    exact corresponds_sequential htemplates hentry hdag hchain
  | parallel =>
    rw [hexecution] at horder
    have hfree := horder.elim (fun hchain =>
      absurd hchain.1 (by simp [ExecutionMode.value])) And.right
    apply Performs.of_corresponds
    rw [hexecution]
    exact corresponds_parallel htemplates hentry hdag hfree

theorem argoFile_performs {options : ArgoOptions} {namespaceName : Option String}
    {intent : WorkflowIntent} {svc : AIService} {file : String × List Json}
    (hsteps : intent.steps = svc.steps) (hmode : hintedMode intent = .str svc.executionMode.value)
    (hlist : svc.steps.length ≤ maxListLength)
    (h : argoFile host options namespaceName intent = .ok file) :
    ∃ workflow, file.2.filter (hasKind "Workflow") = [workflow] ∧ Performs svc workflow := by
  obtain ⟨rct, hrct, h⟩ := bind_eq_ok.mp h
  obtain ⟨workflow, hworkflow, h⟩ := bind_eq_ok.mp h
  refine ⟨workflow, ?_, renderArgoWorkflow_performs host hsteps hmode hlist hworkflow⟩
  have hkind := (renderArgoWorkflow_eq_ok host hworkflow).1
  have hother : rct.toList.filter (hasKind "Workflow") = [] := by
    unfold argoRct at hrct
    split at hrct
    · rcases firstAvailableRct_eq_ok host hrct with ⟨rfl, -⟩ | ⟨-, _, _, _, -, rfl⟩
      · rfl
      · rfl
    · obtain rfl := Except.ok.inj hrct
      rfl
  rw [← Except.ok.inj h, List.filter_append, hother, List.filter_cons_of_pos hkind,
    List.filter_nil, List.nil_append]

/-- Compiling a plan keeps what its services do. For each service of each acquisition there is a
file, with one workflow in it: what may be seen of an engine that runs the workflow is what may
be seen of running the steps of the service in its mode, up to completion and with every failure
on the way. No step is started twice, none is left out of a run that completes, a sequential
service starts its steps in their order, and no run is stuck before it completes or fails. -/
theorem plannedWorkflows_perform {plan : MissionPlan} {options : ArgoOptions}
    {files : List (String × List Json)}
    (hlist : ∀ p ∈ pairs plan, p.2.steps.length ≤ maxListLength)
    (h : plannedWorkflows host plan options = .ok files) :
    List.Forall₂ (fun p file => ∃ workflow,
      file.2.filter (hasKind "Workflow") = [workflow] ∧ Performs p.2 workflow)
      (pairs plan) files := by
  obtain ⟨namespaceName, _, hfiles⟩ := plannedWorkflows_eq_ok host h
  have hpairs := (List.forall₂_and_left _ _).mpr
    ⟨hlist, @compiledFrom_pairs host.sha plan [] (pairs plan)⟩
  refine (forall₂_comp hpairs hfiles).imp fun p file hfile => ?_
  obtain ⟨intent, ⟨hlength, hintent⟩, hfile⟩ := hfile
  apply argoFile_performs host _ _ hlength hfile
  · rw [hintent]
    rfl
  · rw [hintent]
    rfl

def prepareStep : WorkflowStep :=
  ⟨"prepare", "registry/prepare", none, .cpu, none, false, [], [], [], [], by decide, by decide⟩

def preparedService : AIService :=
  { detectService with steps := [prepareStep, inferStep], steps_ne_nil := List.cons_ne_nil _ _ }

/-- A plan whose one service prepares on a CPU what it infers on a GPU. -/
def preparedPlan : MissionPlan where
  missionId := "m1"
  clientId := none
  events := [⟨⟨noon, .acquisition, none, some 45, some "cam", none, false, none,
    [preparedService], by decide⟩, by decide⟩]
  missionId_notBlank := repeatedPlan.missionId_notBlank
  events_ne_nil := List.cons_ne_nil _ _

theorem preparedPlan_performs : ∃ files,
    plannedWorkflows sampleHost preparedPlan sampleArgoOptions = .ok files ∧
      List.Forall₂ (fun p file => ∃ workflow,
        file.2.filter (hasKind "Workflow") = [workflow] ∧ Performs p.2 workflow)
        (pairs preparedPlan) files := by
  have hok : (plannedWorkflows sampleHost preparedPlan sampleArgoOptions).isOk = true := by
    decide +kernel
  obtain ⟨files, hfiles⟩ := exists_of_isOk hok
  exact ⟨files, hfiles, plannedWorkflows_perform sampleHost (by decide) hfiles⟩

end MissionCompiler.Render
