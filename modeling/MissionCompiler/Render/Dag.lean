import MissionCompiler.Lib.Topological
import MissionCompiler.Render.Documents

/-!
# The DAG of a workflow

What an engine reads of a rendered workflow: its templates, the tasks of `main` and what they
depend on. Each step has a template of its own, under a name that no other template has whatever
the steps are called and whatever the digest is: the index of a step is among the words a cut
leaves in its name.
-/

namespace MissionCompiler.Render

open Lib Schema Names Compile

/-! ## Names -/

/-- The text the name of a template is made of. -/
def templateText (idx : Nat) (step : WorkflowStep) : String :=
  "step-" ++ toString idx ++ "-" ++ step.name

/-- The words every name of a template begins with. -/
def indexWords (idx : Nat) : List (List Char) := ["step".toList, Nat.toDigits 10 idx]

theorem wordsOf_templateText (idx : Nat) (step : WorkflowStep) :
    wordsOf (templateText idx step) = indexWords idx ++ wordsOf step.name := by
  have hstep : wordsOf "step" = ["step".toList] := by decide
  have htext : templateText idx step = "step" ++ "-" ++ (toString idx ++ "-" ++ step.name) := by
    rw [templateText]
    simp only [← String.append_assoc]
    rfl
  rw [htext, wordsOf_append_dash, wordsOf_append_dash, hstep, wordsOf_toString]
  rfl

/-- An index of a list has few enough digits to stay in a name that is cut. -/
theorem length_indexWords {idx : Nat} (h : idx < maxListLength) :
    (dashed (indexWords idx)).length ≤ 63 - 8 - 1 := by
  have hdigits := (Nat.length_toDigits_le_iff (by decide) (show 0 < 49 by decide)).mpr
    (h.trans (show maxListLength < 10 ^ 49 by decide))
  rw [indexWords, dashed_cons (List.cons_ne_nil _ _), dashed_singleton, List.length_append,
    List.length_cons]
  have hstep : "step".toList.length = 4 := by decide
  omega

/-- The name of a template: a label that begins with the index of its step. -/
theorem templateName_eq_ok (host : Host) {idx : Nat} (h : idx < maxListLength)
    (step : WorkflowStep) : ∃ more, NameWords (indexWords idx ++ more) ∧
      templateName host idx step = .ok (nameOf (indexWords idx ++ more)) ∧
      (nameOf (indexWords idx ++ more)).length ≤ 63 := by
  obtain ⟨more, hwords, hcut, hlength⟩ := cutName_keeps host.sha (wordsOf_templateText idx step)
    (List.cons_ne_nil _ _) (show 10 ≤ 63 by decide) (by decide) (length_indexWords h)
  refine ⟨more, hwords, ?_, hlength⟩
  rw [← hcut]
  exact collisionResistantK8sName_eq host.sha _ (by decide)

/-- The index is read off the name. -/
theorem templateName_injective {host : Host} {idx idx' : Nat} (h : idx < maxListLength)
    (h' : idx' < maxListLength) {step step' : WorkflowStep} {name : String}
    (hname : templateName host idx step = .ok name)
    (hname' : templateName host idx' step' = .ok name) : idx = idx' := by
  obtain ⟨more, hwords, heq, _⟩ := templateName_eq_ok host h step
  obtain ⟨more', hwords', heq', _⟩ := templateName_eq_ok host h' step'
  have hsame := nameOf_injective hwords hwords' (Except.ok.inj
    ((heq.symm.trans hname).trans (hname'.symm.trans heq')))
  have hdigits : Nat.toDigits 10 idx = Nat.toDigits 10 idx' := by
    injection hsame with _ hrest
    injection hrest
  apply toString_injective
  rw [← String.toList_inj, toList_toString_eq, toList_toString_eq, hdigits]

/-- No template of a step is called `main`. -/
theorem templateName_ne_main {host : Host} {idx : Nat} (h : idx < maxListLength)
    {step : WorkflowStep} {name : String} (hname : templateName host idx step = .ok name) :
    name ≠ "main" := by
  obtain ⟨more, hwords, heq, _⟩ := templateName_eq_ok host h step
  intro hmain
  have hsame : wordsOf (nameOf (indexWords idx ++ more)) = wordsOf "main" := by
    rw [← hmain, Except.ok.inj (heq.symm.trans hname)]
  rw [wordsOf_nameOf hwords] at hsame
  have hwordsMain : wordsOf "main" = ["main".toList] := by decide
  rw [hwordsMain] at hsame
  cases hsame

/-! ## What an engine reads -/

/-- The tasks of a template. -/
def dagTasksOf (template : Json) : List Json := elements ((template.field "dag").field "tasks")

/-- One task depends on another, by their names. -/
def DependsOn (tasks : List Json) (a b : String) : Prop :=
  ∃ task ∈ tasks, task.field "name" = .str a ∧ task.get? "depends" = some (.str b)

/-- A template runs what a step asks for. -/
structure RunsStep (step : WorkflowStep) (template : Json) : Prop where
  image : (template.field "container").field "image" = .str step.image
  command : (template.field "container").get? "command" =
    if step.command.isEmpty then none else some (dumpStrings step.command)
  args : (template.field "container").get? "args" =
    if step.args.isEmpty then none else some (dumpStrings step.args)
  resourceClass : ((template.field "metadata").field "annotations").field "resource-class" =
    .str step.resourceClass.value

/-- The templates of a workflow, the first of which is the DAG, and the names of the others. -/
structure WellFormedDag (steps : List WorkflowStep) (main : Json) (templates : List Json)
    (names : List String) : Prop where
  entry : main.field "name" = .str "main"
  steps : List.Forall₂ RunsStep steps templates
  named : templates.map (Json.field "name") = names.map .str
  distinct : names.Nodup
  fresh : "main" ∉ names
  labels : ∀ name ∈ names, Rfc1123Label name
  tasks : (dagTasksOf main).map (Json.field "name") = names.map .str
  targets : (dagTasksOf main).map (Json.field "template") = names.map .str

/-- Each task depends on the one before it, and on nothing else, so that the declared order is the
only one to run them in. -/
structure SequentialDag (tasks : List Json) (names : List String) : Prop where
  depends : ∀ (i : Nat) (task : Json), tasks[i]? = some task → task.get? "depends" = match i with
    | 0 => none
    | previous + 1 => names[previous]?.map .str
  acyclic : ∀ a, ¬ Relation.TransGen (DependsOn tasks) a a
  order : ∀ order, Topological (DependsOn tasks) names order ↔ order = names

/-! ## Tasks -/

theorem dagTask_reads (sequential : Bool) (previous : Option String) (name : String) :
    (dagTask sequential previous name).field "name" = .str name ∧
      (dagTask sequential previous name).field "template" = .str name ∧
      (dagTask sequential previous name).get? "depends" =
        if sequential then previous.map .str else none := by
  cases previous <;> cases sequential <;> exact ⟨rfl, rfl, rfl⟩

theorem dagTasks_names (sequential : Bool) (previous : Option String) (names : List String) :
    (dagTasks sequential previous names).map (Json.field "name") = names.map .str ∧
      (dagTasks sequential previous names).map (Json.field "template") = names.map .str := by
  induction names generalizing previous with
  | nil => exact ⟨rfl, rfl⟩
  | cons name names ih =>
    obtain ⟨hname, htemplate, _⟩ := dagTask_reads sequential previous name
    obtain ⟨hnames, htemplates⟩ := ih (some name)
    rw [dagTasks, List.map_cons, List.map_cons, List.map_cons, hname, htemplate, hnames, htemplates]
    exact ⟨rfl, rfl⟩

theorem dagTasks_parallel (previous : Option String) (names : List String) :
    ∀ task ∈ dagTasks false previous names, task.get? "depends" = none := by
  induction names generalizing previous with
  | nil => exact fun task htask => absurd htask List.not_mem_nil
  | cons name names ih =>
    intro task htask
    rcases List.mem_cons.mp htask with rfl | htask
    · exact (dagTask_reads false previous name).2.2
    · exact ih (some name) task htask

/-- What a task of a chain depends on: what came before it. -/
theorem dagTasks_sequential (previous : Option String) (names : List String) (i : Nat) (task : Json)
    (h : (dagTasks true previous names)[i]? = some task) :
    task.get? "depends" = Option.map .str (match i with
      | 0 => previous
      | j + 1 => names[j]?) := by
  induction names generalizing previous i with
  | nil => cases h
  | cons name names ih =>
    cases i with
    | zero =>
      obtain rfl := Option.some.inj h
      exact (dagTask_reads true previous name).2.2
    | succ j =>
      have hrest := ih (some name) j h
      cases j with
      | zero => exact hrest
      | succ k => exact hrest

/-- In a chain a task depends on the one before it. -/
theorem dependsOn_iff (names : List String) (a b : String) :
    DependsOn (dagTasks true none names) a b ↔
      ∃ i, names[i]? = some b ∧ names[i + 1]? = some a := by
  have hname : ∀ (i : Nat) (task : Json), (dagTasks true none names)[i]? = some task →
      names[i]?.map Json.str = some (task.field "name") := by
    intro i task htask
    have hall := congrArg (·[i]?) (dagTasks_names true none names).1
    simp only [List.getElem?_map, htask] at hall
    exact hall.symm
  constructor
  · intro ⟨task, htask, ha, hb⟩
    obtain ⟨i, htask⟩ := List.mem_iff_getElem?.mp htask
    have hat := hname i task htask
    have hdepends := dagTasks_sequential none names i task htask
    rw [hb] at hdepends
    cases i with
    | zero => cases hdepends
    | succ j =>
      refine ⟨j, ?_, ?_⟩
      · obtain ⟨b', hb', hstr⟩ := Option.map_eq_some_iff.mp hdepends.symm
        rw [← Json.str.inj hstr]
        exact hb'
      · rw [ha] at hat
        obtain ⟨a', ha', hstr⟩ := Option.map_eq_some_iff.mp hat
        rw [← Json.str.inj hstr]
        exact ha'
  · intro ⟨i, hb, ha⟩
    have htask : ∃ task : Json, (dagTasks true none names)[i + 1]? = some task := by
      have hall := congrArg (·[i + 1]?) (dagTasks_names true none names).1
      simp only [List.getElem?_map, ha] at hall
      obtain ⟨task, htask, _⟩ := Option.map_eq_some_iff.mp hall
      exact ⟨task, htask⟩
    obtain ⟨task, htask⟩ := htask
    refine ⟨task, List.mem_of_getElem? htask, ?_, ?_⟩
    · have hat := hname (i + 1) task htask
      rw [ha] at hat
      exact (Option.some.inj hat).symm
    · rw [dagTasks_sequential none names (i + 1) task htask]
      show names[i]?.map Json.str = _
      rw [hb]
      rfl

theorem sequentialDag_dagTasks {names : List String} (h : names.Nodup) :
    SequentialDag (dagTasks true none names) names := by
  refine ⟨fun i task htask => ?_, fun a => ?_, fun order => ?_⟩
  · have hdepends := dagTasks_sequential none names i task htask
    cases i with
    | zero => exact hdepends
    | succ j => exact hdepends
  · have horder := (topological_chain_iff h (dependsOn_iff names)).mpr rfl
    exact horder.acyclic a
  · exact topological_chain_iff h (dependsOn_iff names)

/-! ## Workflows -/

/-- The mode an intent asks for. -/
def hintedMode (intent : WorkflowIntent) : Json :=
  (intent.resourceHints.lookup "execution_mode").getD (.str "sequential")

theorem executionMode_cases (intent : WorkflowIntent) :
    hintedMode intent = .str "sequential" ∧ executionMode intent = .ok "sequential" ∨
      hintedMode intent = .str "parallel" ∧ executionMode intent = .ok "parallel" ∨
      hintedMode intent ≠ .str "sequential" ∧ hintedMode intent ≠ .str "parallel" ∧
        executionMode intent = .error .valueError := by
  unfold executionMode
  rw [← hintedMode]
  cases hmode : hintedMode intent with
  | str mode =>
    by_cases hsequential : mode = "sequential"
    · subst hsequential
      exact .inl ⟨rfl, rfl⟩
    · by_cases hparallel : mode = "parallel"
      · subst hparallel
        exact .inr (.inl ⟨rfl, rfl⟩)
      · refine .inr (.inr ⟨fun h => hsequential (Json.str.inj h), fun h =>
          hparallel (Json.str.inj h), ?_⟩)
        show (if mode == "sequential" || mode == "parallel" then _ else _) = _
        rw [beq_eq_false_iff_ne.mpr hsequential, beq_eq_false_iff_ne.mpr hparallel]
        rfl
  | _ => exact .inr (.inr ⟨by simp, by simp, rfl⟩)

/-- The container of a step starts as the step says. -/
theorem container_entrypoint (step : WorkflowStep) (image : Json) (rest : List (String × Json))
    (hcommand : rest.lookup "command" = none) (hargs : rest.lookup "args" = none) :
    (([("image", image)] ++ containerEntrypoint step ++ rest).lookup "command" =
        if step.command.isEmpty then none else some (dumpStrings step.command)) ∧
      ([("image", image)] ++ containerEntrypoint step ++ rest).lookup "args" =
        if step.args.isEmpty then none else some (dumpStrings step.args) := by
  simp only [List.lookup_append, hcommand, hargs, containerEntrypoint]
  split <;> split <;> exact ⟨rfl, rfl⟩

/-- The template of a step has the name the task of the step refers to, and runs the step. -/
theorem argoTemplate_runs {host : Host} {draFallback : Bool} {intent : WorkflowIntent} {idx : Nat}
    {step : WorkflowStep} {template : Json}
    (h : argoTemplate host draFallback intent idx step = .ok template) :
    (∃ name, templateName host idx step = .ok name ∧ template.field "name" = .str name) ∧
      RunsStep step template := by
  unfold argoTemplate at h
  obtain ⟨name, hname, h⟩ := bind_eq_ok.mp h
  by_cases hqualifies : (draFallback && expressesFallback step) = true
  · rw [if_pos hqualifies] at h
    obtain ⟨rct, hrct, h⟩ := bind_eq_ok.mp h
    rw [← Except.ok.inj h]
    obtain ⟨hcommand, hargs⟩ := container_entrypoint step (.str step.image)
      ([("env", _)] ++ [("resources", _)]) rfl rfl
    rw [← List.append_assoc] at hcommand hargs
    exact ⟨⟨name, hname, rfl⟩, rfl, hcommand, hargs, rfl⟩
  · rw [if_neg hqualifies] at h
    rw [← Except.ok.inj h]
    obtain ⟨hcommand, hargs⟩ := container_entrypoint step (.str step.image) [("env", _)] rfl rfl
    exact ⟨⟨name, hname, rfl⟩, rfl, hcommand, hargs, rfl⟩

/-- The name at an index is the name of the template of the step there. -/
theorem mapSteps_getElem? {α : Type} {f : Nat → WorkflowStep → Except Exn α}
    {steps : List WorkflowStep} {ys : List α} (h : mapSteps f steps = .ok ys) {i : Nat} {y : α}
    (hy : ys[i]? = some y) : ∃ step, steps[i]? = some step ∧ f i step = .ok y := by
  obtain ⟨hlength, hall⟩ := List.forall₂_iff_get.mp (mapM_eq_ok.mp h)
  obtain ⟨hi, rfl⟩ := List.getElem?_eq_some_iff.mp hy
  have hi' : i < steps.length := by
    rw [List.length_zipIdx] at hlength
    omega
  refine ⟨steps[i], List.getElem?_eq_getElem hi', ?_⟩
  have hat := hall i (by rw [List.length_zipIdx]; exact hi') hi
  simpa using hat

theorem templateNames_spec {host : Host} {steps : List WorkflowStep} {names : List String}
    (h : mapSteps (templateName host) steps = .ok names) (hlist : steps.length ≤ maxListLength) :
    names.Nodup ∧ "main" ∉ names ∧ ∀ name ∈ names, Rfc1123Label name := by
  have hindex : ∀ (i : Nat) (name : String), names[i]? = some name →
      i < maxListLength ∧ ∃ step, templateName host i step = .ok name := by
    intro i name hname
    obtain ⟨step, hstep, hok⟩ := mapSteps_getElem? h hname
    obtain ⟨hi, _⟩ := List.getElem?_eq_some_iff.mp hstep
    exact ⟨hi.trans_le hlist, step, hok⟩
  refine ⟨?_, fun hmain => ?_, fun name hname => ?_⟩
  · rw [List.nodup_iff_getElem?_ne_getElem?]
    intro i j hij hj heq
    obtain ⟨hj', stepj, hokj⟩ := hindex j _ (List.getElem?_eq_getElem hj)
    rw [List.getElem?_eq_getElem hj] at heq
    obtain ⟨hi', stepi, hoki⟩ := hindex i _ heq
    exact absurd (templateName_injective hi' hj' hoki hokj) (Nat.ne_of_lt hij)
  · obtain ⟨i, hi⟩ := List.mem_iff_getElem?.mp hmain
    obtain ⟨hi', step, hok⟩ := hindex i _ hi
    exact templateName_ne_main hi' hok rfl
  · obtain ⟨i, hi⟩ := List.mem_iff_getElem?.mp hname
    obtain ⟨hi', step, hok⟩ := hindex i _ hi
    obtain ⟨more, hwords, heq, hlength⟩ := templateName_eq_ok host hi' step
    rw [Except.ok.inj (hok.symm.trans heq)]
    exact rfc1123Label_nameOf hwords hlength

/-- The templates have the names of their steps, in order. -/
theorem templates_named {host : Host} {draFallback : Bool} {intent : WorkflowIntent}
    {templates : List Json} {names : List String}
    (h : mapSteps (argoTemplate host draFallback intent) intent.steps = .ok templates)
    (hnames : mapSteps (templateName host) intent.steps = .ok names) :
    templates.map (Json.field "name") = names.map .str ∧
      List.Forall₂ RunsStep intent.steps templates := by
  have hruns := (mapM_eq_ok.mp h).imp fun e template htemplate => argoTemplate_runs htemplate
  constructor
  · have hfields : templates.map (Json.field "name") = intent.steps.zipIdx.map fun e =>
        ((templateName host e.2 e.1).map Json.str).toOption.getD .null := by
      apply map_eq_map_of_forall₂
      refine hruns.imp fun e template htemplate => ?_
      obtain ⟨⟨name, hname, hfield⟩, _⟩ := htemplate
      rw [hname, hfield]
      rfl
    have hstrs : names.map Json.str = intent.steps.zipIdx.map fun e =>
        ((templateName host e.2 e.1).map Json.str).toOption.getD .null := by
      apply map_eq_map_of_forall₂
      refine (mapM_eq_ok.mp hnames).imp fun e name hname => ?_
      rw [hname]
      rfl
    rw [hfields, hstrs]
  · have hsteps : List.Forall₂ RunsStep (intent.steps.zipIdx.map Prod.fst) templates :=
      List.forall₂_map_left_iff.mpr (hruns.imp fun e template htemplate => htemplate.2)
    rwa [List.zipIdx_map_fst] at hsteps

theorem argoTemplate_total (host : Host) (draFallback : Bool) (intent : WorkflowIntent) (idx : Nat)
    (step : WorkflowStep) :
    ∃ template, argoTemplate host draFallback intent idx step = .ok template := by
  have hname : templateName host idx step = .ok _ :=
    collisionResistantK8sName_eq host.sha _ (by decide)
  cases h : argoTemplate host draFallback intent idx step with
  | ok template => exact ⟨template, rfl⟩
  | error e =>
    unfold argoTemplate at h
    rcases bind_eq_error.mp h with h | ⟨name, _, h⟩
    · rw [hname] at h
      cases h
    · by_cases hqualifies : (draFallback && expressesFallback step) = true
      · rw [if_pos hqualifies] at h
        rcases bind_eq_error.mp h with h | ⟨_, _, h⟩
        · rw [rctNameForIntent_eq] at h
          cases h
        · cases h
      · rw [if_neg hqualifies] at h
        cases h

/-- A rendered workflow has a well-formed DAG of its steps: a chain in the declared order, or no
dependency at all; an intent that asks for another mode is refused. A list of steps is no longer
than a list can be. -/
theorem renderArgoWorkflow_dag (host : Host) (intent : WorkflowIntent) (draFallback : Bool)
    (namespaceName serviceAccount : Option String) (hlist : intent.steps.length ≤ maxListLength) :
    (∀ workflow, renderArgoWorkflow host intent draFallback namespaceName serviceAccount =
        .ok workflow → ∃ main templates names, workflowTemplates workflow = main :: templates ∧
      (workflow.field "spec").field "entrypoint" = .str "main" ∧
      WellFormedDag intent.steps main templates names ∧
      (hintedMode intent = .str "sequential" ∧ SequentialDag (dagTasksOf main) names ∨
        hintedMode intent = .str "parallel" ∧
          ∀ task ∈ dagTasksOf main, task.get? "depends" = none)) ∧
    (hintedMode intent ≠ .str "sequential" → hintedMode intent ≠ .str "parallel" →
      renderArgoWorkflow host intent draFallback namespaceName serviceAccount =
        .error .valueError) := by
  constructor
  · intro workflow h
    unfold renderArgoWorkflow at h
    obtain ⟨templates, htemplates, h⟩ := bind_eq_ok.mp h
    obtain ⟨names, hnames, h⟩ := bind_eq_ok.mp h
    obtain ⟨mode, hmode, h⟩ := bind_eq_ok.mp h
    obtain ⟨orchidePriority, _, h⟩ := bind_eq_ok.mp h
    obtain ⟨annotations, _, h⟩ := bind_eq_ok.mp h
    obtain ⟨inNamespace, _, h⟩ := bind_eq_ok.mp h
    obtain ⟨account, _, h⟩ := bind_eq_ok.mp h
    obtain ⟨hnodup, hfresh, hlabels⟩ := templateNames_spec hnames hlist
    obtain ⟨hnamed, hsteps⟩ := templates_named htemplates hnames
    obtain ⟨htasks, htargets⟩ := dagTasks_names (mode == "sequential") none names
    rw [← Except.ok.inj h]
    refine ⟨_, templates, names, rfl, rfl,
      ⟨rfl, hsteps, hnamed, hnodup, hfresh, hlabels, htasks, htargets⟩, ?_⟩
    rcases executionMode_cases intent with ⟨hhint, hok⟩ | ⟨hhint, hok⟩ | ⟨_, _, herror⟩
    · obtain rfl := Except.ok.inj (hok.symm.trans hmode)
      exact .inl ⟨hhint, sequentialDag_dagTasks hnodup⟩
    · obtain rfl := Except.ok.inj (hok.symm.trans hmode)
      exact .inr ⟨hhint, dagTasks_parallel none names⟩
    · rw [herror] at hmode
      cases hmode
  · intro hsequential hparallel
    have htemplates : ∃ templates, mapSteps (argoTemplate host draFallback intent) intent.steps =
        .ok templates :=
    mapM_total.mpr fun e _ => argoTemplate_total host draFallback intent e.2 e.1
    have hnames : ∃ names, mapSteps (templateName host) intent.steps = .ok names :=
      mapM_total.mpr fun e _ => ⟨_, collisionResistantK8sName_eq host.sha _ (by decide)⟩
    obtain ⟨templates, htemplates⟩ := htemplates
    obtain ⟨names, hnames⟩ := hnames
    rcases executionMode_cases intent with ⟨hhint, _⟩ | ⟨hhint, _⟩ | ⟨_, _, herror⟩
    · exact absurd hhint hsequential
    · exact absurd hhint hparallel
    · exact bind_eq_error.mpr (.inr ⟨templates, htemplates, bind_eq_error.mpr
        (.inr ⟨names, hnames, bind_eq_error.mpr (.inl herror)⟩)⟩)

/-! Two steps of one name, of which nothing is left when it is sanitized. -/

def silentStep : WorkflowStep :=
  ⟨"???", "registry/step:1", none, .cpu, none, false, [], [], [], [], by decide, by decide⟩

def twinIntent : WorkflowIntent := ⟨"m1", "s1", 50, "m1-s1", [silentStep, silentStep], []⟩

def plainHost : Host := ⟨sampleSha, fun _ => "", fun _ => ""⟩

theorem twinIntent_dag : ∃ workflow main templates names,
    renderArgoWorkflow plainHost twinIntent false none none = .ok workflow ∧
      workflowTemplates workflow = main :: templates ∧
      WellFormedDag twinIntent.steps main templates names ∧
      SequentialDag (dagTasksOf main) names := by
  have hok : (renderArgoWorkflow plainHost twinIntent false none none).isOk = true := by
    decide +kernel
  obtain ⟨workflow, hrender⟩ := exists_of_isOk hok
  obtain ⟨main, templates, names, htemplates, _, hdag, hmode⟩ :=
    (renderArgoWorkflow_dag plainHost twinIntent false none none (by decide)).1 workflow hrender
  rcases hmode with ⟨_, hsequential⟩ | ⟨hparallel, _⟩
  · exact ⟨workflow, main, templates, names, hrender, htemplates, hdag, hsequential⟩
  · exact absurd (Json.str.inj hparallel) (by decide)

end MissionCompiler.Render
