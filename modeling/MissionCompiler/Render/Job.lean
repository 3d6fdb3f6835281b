import MissionCompiler.Render.Workflow

/-!
# Kueue jobs

`render_resource_claim_templates`, `render_kueue_job` and `render_workload_priority_classes`,
and the files `render-kueue` plans. A job runs one step of the service, its primary step.
-/

namespace MissionCompiler.Render

open Lib Schema Names Compile

variable (host : Host)

/-! ## Claims -/

def requiresGpu (intent : WorkflowIntent) : Bool :=
  intent.steps.any fun s => s.resourceClass == .gpu

/-- The template of the exact request, which a job is admitted on. -/
def exactlyRct (intent : WorkflowIntent) (namespaceName : String) : Except Exn Json := do
  let name ← rctNameForIntent host.sha intent "gpu"
  let annotations ← requireAnnotationsFit (missionAnnotations intent.missionId)
  return claimTemplate host name namespaceName "kueue" rendererKueue roleKueueJob
    intent.missionId annotations [("name", .str "gpu"),
      ("exactly", .obj [("deviceClassName", .str "gpu.nvidia.com")])]

/-- The template of the scheduler's route, when it is asked for and some step qualifies. -/
def schedulerTemplates (intent : WorkflowIntent) (namespaceName : String) (draFallback : Bool) :
    Except Exn (List Json) :=
  if draFallback then do
    let rct ← firstAvailableRct host intent (some namespaceName) rendererKueue
    return rct.toList
  else .ok []

/-- The template of Kueue's route, when some step is a GPU step. -/
def kueueTemplates (intent : WorkflowIntent) (namespaceName : String) : Except Exn (List Json) :=
  if requiresGpu intent then do
    let rct ← exactlyRct host intent namespaceName
    return [rct]
  else .ok []

/-- `render_resource_claim_templates`. -/
def renderResourceClaimTemplates (intent : WorkflowIntent) (namespaceName : String)
    (draFallback : Bool) : Except Exn (List Json) := do
  let ns ← requireK8sLabel namespaceName
  let scheduler ← schedulerTemplates host intent ns draFallback
  let kueue ← kueueTemplates host intent ns
  return scheduler ++ kueue

/-! ## The primary step -/

/-- `_primary_step`, of steps with their positions: GPU first, then FPGA, then the first. -/
def primaryOf (steps : List (WorkflowStep × Nat)) : Except Exn (WorkflowStep × Nat) :=
  match steps.filter fun e => e.1.resourceClass == .gpu with
  | e :: _ => .ok e
  | [] => match steps.filter fun e => e.1.resourceClass == .fpga with
    | e :: _ => .ok e
    | [] => match steps with
      | e :: _ => .ok e
      | [] => .error .valueError

def primaryStep (intent : WorkflowIntent) : Except Exn (WorkflowStep × Nat) :=
  primaryOf intent.steps.zipIdx

/-- The names of the steps the job leaves out. -/
def droppedSteps (intent : WorkflowIntent) (primary : Nat) : List String :=
  (intent.steps.zipIdx.filter fun e => e.2 != primary).map fun e => e.1.name

/-! ## Jobs -/

/-- What `render-kueue` is asked for besides the plan. -/
structure KueueOptions where
  queueName : String
  namespaceName : String
  draFallback : Bool
  priorityClass : Bool
  priorityClassPrefix : String
  emitPriorityClasses : Bool

/-- What a container asks for: the requests, and the claims or limits of its resource class. -/
def containerResources (resourceClass : ResourceClass) (draEnabled : Bool)
    (cpu memory : String) : Json :=
  let requests := [("cpu", Json.str cpu), ("memory", .str memory)]
  match resourceClass, draEnabled with
  | .gpu, true => .obj [("requests", .obj requests), ("claims", .arr [.obj [("name", .str "gpu")]])]
  | .gpu, false => .obj [("requests", .obj (requests ++ [("nvidia.com/gpu", .str "1")])),
      ("limits", .obj [("nvidia.com/gpu", .str "1")])]
  | .fpga, _ => .obj [("requests", .obj (requests ++ [("xilinx.com/fpga", .str "1")])),
      ("limits", .obj [("xilinx.com/fpga", .str "1")])]
  | .cpu, _ => .obj [("requests", .obj requests)]

def toleration (key : String) : Json :=
  .obj [("key", .str key), ("operator", .str "Exists"), ("effect", .str "NoSchedule")]

/-- What a Pod needs for its resource class: a claim, or a node of the class. -/
def podResources (resourceClass : ResourceClass) (draEnabled : Bool) (rctName : String) :
    List (String × Json) :=
  match resourceClass, draEnabled with
  | .gpu, true => [("resourceClaims", .arr [.obj [("name", .str "gpu"),
      ("resourceClaimTemplateName", .str rctName)]])]
  | .gpu, false => [("nodeSelector", strings [("accelerator", "nvidia")]),
      ("tolerations", .arr [toleration "nvidia.com/gpu"])]
  | .fpga, _ => [("nodeSelector", strings [("accelerator", "fpga")]),
      ("tolerations", .arr [toleration "xilinx.com/fpga"])]
  | .cpu, _ => []

/-- `pod_spec`. -/
def podSpec (primary : WorkflowStep) (draEnabled : Bool) (cpu memory rctName : String) : Json :=
  let container := [("name", Json.str (sanitizeK8sName primary.name 63)),
    ("image", .str primary.image)] ++ containerEntrypoint primary ++
    [("resources",
      containerResources primary.resourceClass draEnabled (pyStrip cpu) (pyStrip memory))]
  .obj ([("restartPolicy", .str "Never"), ("containers", .arr [.obj container])] ++
    optionalField "affinity" (preferredAffinity primary) ++
    podResources primary.resourceClass draEnabled rctName)

/-- `job_annotations`. -/
def jobAnnotations (intent : WorkflowIntent) (orchidePriority : Nat) (primary : WorkflowStep)
    (dropped : List String) : List (String × String) :=
  [("orbital/priority", toString intent.priority),
    ("orbital/orchide-priority", toString orchidePriority)] ++
  missionAnnotations intent.missionId ++
  [("orbital/executed-step", primary.name),
    ("orbital/steps-not-in-this-job", ",".intercalate dropped),
    ("orbital/kueue-artifact-role", "standalone-primary-step"),
    ("orbital/executed-step-resource-class", primary.resourceClass.value),
    ("orbital/requires-gpu", boolText (primary.resourceClass == .gpu)),
    ("orbital/requires-fpga", boolText (primary.resourceClass == .fpga)),
    ("orbital/fallback-enabled", boolText primary.fallbackResourceClass.isSome),
    ("orbital/service-requires-gpu", hintText host intent "requires_gpu"),
    ("orbital/service-requires-fpga", hintText host intent "requires_fpga")]

/-- The labels of the class of a job, when they are asked for. -/
def priorityClassLabels (options : KueueOptions) (orchidePriority : Nat) :
    Except Exn (List (String × String)) :=
  if options.priorityClass then do
    let name ← priorityClassName orchidePriority options.priorityClassPrefix
    return [("kueue.x-k8s.io/priority-class", name),
      ("orbital/priority-mapping-version", priorityClassMappingVersion)]
  else .ok []

/-- `render_kueue_job`. -/
def renderKueueJob (intent : WorkflowIntent) (options : KueueOptions)
    (cpuRequest memoryRequest : String) (draEnabled : Bool) : Except Exn Json := do
  let cpu ← requireQuantity cpuRequest
  let memory ← requireQuantity memoryRequest
  let ns ← requireK8sLabel options.namespaceName
  let queue ← requireK8sSubdomain options.queueName 63
  let (primary, position) ← primaryStep intent
  let rctName ← rctNameForIntent host.sha intent "gpu"
  let orchidePriority ← scalePriorityOrchide intent.priority
  let annotations ← requireAnnotationsFit
    (jobAnnotations host intent orchidePriority primary (droppedSteps intent position))
  let classLabels ← priorityClassLabels options orchidePriority
  return .obj [("apiVersion", .str "batch/v1"), ("kind", .str "Job"),
    ("metadata", .obj [("generateName", .str (sanitizeK8sName intent.workflowName 62 ++ "-")),
      ("namespace", .str ns),
      ("labels", strings ([("kueue.x-k8s.io/queue-name", queue),
        (missionFingerprintLabel, missionFingerprint host.sha intent.missionId)] ++
          ownershipLabels rendererKueue roleKueueJob scopeMission ++
          [("mission-id", sanitizeK8sName intent.missionId 63),
            ("service-id", sanitizeK8sName intent.serviceId 63),
            ("priority", toString intent.priority)] ++ classLabels)),
      ("annotations", strings annotations)]),
    ("spec", .obj [("template", .obj [("spec", podSpec primary draEnabled cpu memory rctName)])])]

/-- One of the objects of `render_workload_priority_classes`. -/
def workloadPriorityClass (classPrefix : String) (tier : Nat × String × Nat × String) :
    Except Exn Json := do
  let name ← priorityClassName tier.1 classPrefix
  return .obj [("apiVersion", .str "kueue.x-k8s.io/v1beta2"),
    ("kind", .str "WorkloadPriorityClass"),
    ("metadata", .obj [("name", .str name),
      ("labels", strings (("orbital/priority-mapping-version", priorityClassMappingVersion) ::
        ownershipLabels rendererKueue rolePriorityClasses scopeInstallation)),
      ("annotations", strings [(ownerIdAnnotationKey, classPrefix)])]),
    ("value", .num (.int tier.2.2.1)),
    ("description", .str ("ORCHIDE priority tier " ++ toString tier.1 ++
      " (1=highest); mission-plan priority " ++ tier.2.2.2))]

/-- `render_workload_priority_classes`. -/
def renderWorkloadPriorityClasses (classPrefix : String) : Except Exn (List Json) :=
  priorityClassTiers.mapM (workloadPriorityClass classPrefix)

/-! ## Files -/

/-- The label that says which route may reference a template. -/
def draRoute (doc : Json) : Json := ((doc.field "metadata").field "labels").field draRouteLabel

/-- The files of an intent: its job with the claims it is admitted on, and the claim of the
scheduler's route in a file of its own. A template equal to one of that route is of that route,
so the source's two comprehensions split the templates by their label. -/
def kueueFiles (options : KueueOptions) (intent : WorkflowIntent) :
    Except Exn (List (String × List Json)) := do
  let templates ← renderResourceClaimTemplates host intent options.namespaceName
    options.draFallback
  let job ← renderKueueJob host intent options "1" "256Mi" true
  let schedulerRoute := templates.filter fun t => (draRoute t).eqStr "scheduler"
  let kueueRoute := templates.filter fun t => !(draRoute t).eqStr "scheduler"
  return (kueueFileName intent, kueueRoute ++ [job]) ::
    if schedulerRoute.isEmpty then [] else [(schedulerFallbackFileName intent, schedulerRoute)]

/-- The file of the priority classes, when it is asked for. -/
def priorityClassFiles (options : KueueOptions) : Except Exn (List (String × List Json)) :=
  if options.emitPriorityClasses then do
    let classes ← renderWorkloadPriorityClasses options.priorityClassPrefix
    return [(priorityClassesFileName, classes)]
  else .ok []

/-- `planned` of `cmd_render_kueue`. -/
def plannedJobs (plan : MissionPlan) (options : KueueOptions) :
    Except Exn (List (String × List Json)) := do
  let intents ← compilePlanToIntents host.sha plan
  let classes ← priorityClassFiles options
  let files ← intents.mapM (kueueFiles host options)
  return classes ++ files.flatten

end MissionCompiler.Render
