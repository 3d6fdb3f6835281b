import MissionCompiler.Render.Checks
import MissionCompiler.Schema.Dump

/-!
# Argo workflows

`render_argo_workflow` and `_first_available_rct`, and the files `write_individual_workflows`
plans. A document is the JSON value of the dict the source builds, its keys in their order.

A step of an intent is told by its position: of two equal steps each is itself.
-/

namespace MissionCompiler.Render

open Lib Schema Names Compile

/-- What the renderers take from Python and from PyYAML: the hash, `str(value).lower()`, and the
text `safe_dump` makes of a document. -/
structure Host where
  sha : Sha256
  strLower : Json → String
  safeDump : Json → String

/-! ## Ownership -/

def managedByLabel : String := "app.kubernetes.io/managed-by"
def managedByValue : String := "orbital-mission-compiler"
def missionFingerprintLabel : String := "orbital/mission-fingerprint"
def rawMissionIdAnnotationKey : String := "orbital/raw-mission-id"
def rendererLabel : String := "orbital/renderer"
def ownerScopeLabel : String := "orbital/owner-scope"
def artifactRoleLabel : String := "orbital/artifact-role"
def ownershipSchemaLabel : String := "orbital/ownership-schema"
def ownershipSchemaVersion : String := "v1"
def ownerIdAnnotationKey : String := "orbital/owner-id"
def rendererArgo : String := "argo"
def rendererKueue : String := "kueue"
def scopeMission : String := "mission"
def scopeInstallation : String := "installation"
def roleWorkflow : String := "workflow"
def roleKueueJob : String := "kueue-job"
def roleSchedulerFallback : String := "scheduler-fallback"
def rolePriorityClasses : String := "workload-priority-classes"
def draRouteLabel : String := "orbital/dra-route"
def draDefaultNamespace : String := "orbital-demo"

/-- `_ownership_labels`. -/
def ownershipLabels (renderer role scope : String) : List (String × String) :=
  [(managedByLabel, managedByValue), (rendererLabel, renderer), (ownerScopeLabel, scope),
    (artifactRoleLabel, role), (ownershipSchemaLabel, ownershipSchemaVersion)]

/-- `mission_fingerprint`. -/
def missionFingerprint (sha : Sha256) (missionId : String) : String :=
  String.ofList (sha.digest 16 missionId)

/-- A dict of strings. -/
def strings (kvs : List (String × String)) : Json := .obj (kvs.map fun e => (e.1, .str e.2))

/-- A key that is set only when there is a value for it. -/
def optionalField (key : String) : Option Json → List (String × Json)
  | some value => [(key, value)]
  | none => []

/-- A key that is set to an operator's value, once the value is checked. -/
def checkedField (key : String) (check : String → Except Exn String) :
    Option String → Except Exn (List (String × Json))
  | none => .ok []
  | some value => do
    let checked ← check value
    return [(key, .str checked)]

/-! ## Claims of the scheduler's route -/

/-- `DRA_DEVICE_CLASS`. -/
def draDeviceClass : ResourceClass → Except Exn String
  | .gpu => .ok "gpu.nvidia.com"
  | .cpu => .ok "dra.cpu"
  | .fpga => .error .keyError

/-- `DRA_FALLBACK_DIRECTIONS`. -/
def draFallbackDirections : List (ResourceClass × ResourceClass) := [(.gpu, .cpu)]

/-- Whether a step is one of `_dra_fallback_steps`. -/
def expressesFallback (step : WorkflowStep) : Bool :=
  match step.fallbackResourceClass with
  | none => false
  | some fallback => draFallbackDirections.contains (step.resourceClass, fallback)

/-- `_dra_fallback_steps`. -/
def draFallbackSteps (intent : WorkflowIntent) : List WorkflowStep :=
  intent.steps.filter expressesFallback

variable (host : Host)

/-- A claim template, with the request it makes. -/
def claimTemplate (name namespaceName route renderer role missionId : String)
    (annotations : List (String × String)) (request : List (String × Json)) : Json :=
  .obj [("apiVersion", .str "resource.k8s.io/v1"), ("kind", .str "ResourceClaimTemplate"),
    ("metadata", .obj [("name", .str name), ("namespace", .str namespaceName),
      ("labels", strings ([(draRouteLabel, route),
        (missionFingerprintLabel, missionFingerprint host.sha missionId)] ++
          ownershipLabels renderer role scopeMission)),
      ("annotations", strings annotations)]),
    ("spec", .obj [("spec", .obj [("devices", .obj [("requests", .arr [.obj request])])])])]

/-- What every rendered mission artifact is annotated with. -/
def missionAnnotations (missionId : String) : List (String × String) :=
  [(rawMissionIdAnnotationKey, missionId), (ownerIdAnnotationKey, missionId)]

def deviceAlternative (resourceClass : ResourceClass) (deviceClass : String) : Json :=
  .obj [("name", .str resourceClass.value), ("deviceClassName", .str deviceClass)]

/-- `_first_available_rct`. -/
def firstAvailableRct (intent : WorkflowIntent) (namespaceName : Option String)
    (renderer : String) : Except Exn (Option Json) :=
  match draFallbackSteps intent with
  | [] => .ok none
  | step :: _ => match namespaceName, step.fallbackResourceClass with
    | none, _ => .error .valueError
    -- the cast of the source: a step without a fallback is not one of these
    | _, none => .error .keyError
    | some ns, some fallback => do
      let name ← rctNameForIntent host.sha intent "accel"
      let annotations ← requireAnnotationsFit (missionAnnotations intent.missionId)
      let primaryClass ← draDeviceClass step.resourceClass
      let fallbackClass ← draDeviceClass fallback
      return some (claimTemplate host name ns "scheduler" renderer roleSchedulerFallback
        intent.missionId annotations [("name", .str "compute"),
          ("firstAvailable", .arr [deviceAlternative step.resourceClass primaryClass,
            deviceAlternative fallback fallbackClass])])

/-- The patch of `_argo_dra_pod_spec_patch`, before it is dumped. -/
def podSpecPatch (rctName claimName : String) : Json :=
  .obj [("resourceClaims", .arr [.obj [("name", .str claimName),
    ("resourceClaimTemplateName", .str rctName)]])]

/-- `_argo_dra_pod_spec_patch`. -/
def argoDraPodSpecPatch (rctName claimName : String) : String :=
  host.safeDump (podSpecPatch rctName claimName)

/-! ## Steps -/

/-- `_preferred_affinity`. -/
def preferredAffinity (step : WorkflowStep) : Option Json :=
  if step.preferredNodeSelector.isEmpty then none
  else some (.obj [("nodeAffinity",
    .obj [("preferredDuringSchedulingIgnoredDuringExecution", .arr [.obj [
      ("weight", .num (.int 100)),
      ("preference", .obj [("matchExpressions",
        .arr (step.preferredNodeSelector.map fun e => .obj [("key", .str e.1),
          ("operator", .str "In"), ("values", .arr [.str e.2])]))])]])])])

/-- `_container_entrypoint`. -/
def containerEntrypoint (step : WorkflowStep) : List (String × Json) :=
  (if step.command.isEmpty then [] else [("command", dumpStrings step.command)]) ++
    if step.args.isEmpty then [] else [("args", dumpStrings step.args)]

def envVar (name value : String) : Json := .obj [("name", .str name), ("value", .str value)]

def boolText (b : Bool) : String := if b then "true" else "false"

/-- The name of the template of a step. -/
def templateName (idx : Nat) (step : WorkflowStep) : Except Exn String :=
  collisionResistantK8sName host.sha ("step-" ++ toString idx ++ "-" ++ step.name) 63 8

/-- The body of the loop over the steps: the template of a step. -/
def argoTemplate (draFallback : Bool) (intent : WorkflowIntent) (idx : Nat)
    (step : WorkflowStep) : Except Exn Json := do
  let name ← templateName host idx step
  let annotations := [("resource-class", step.resourceClass.value),
      ("needs-acceleration", boolText step.needsAcceleration)] ++
    (match step.phase with | some p => [("phase", p.value)] | none => []) ++
    match step.fallbackResourceClass with
    | some c => [("fallback-resource-class", c.value)]
    | none => []
  let env := [envVar "ORBITAL_RESOURCE_CLASS" step.resourceClass.value,
      envVar "ORBITAL_NEEDS_ACCELERATION" (boolText step.needsAcceleration)] ++
    match step.fallbackResourceClass with
    | some c => [envVar "ORBITAL_FALLBACK_RESOURCE_CLASS" c.value]
    | none => []
  let container := [("image", .str step.image)] ++ containerEntrypoint step ++ [("env", .arr env)]
  let affinity := optionalField "affinity" (preferredAffinity step)
  -- the step's own object is among the fallback steps exactly when it qualifies
  if draFallback && expressesFallback step then do
    let rct ← rctNameForIntent host.sha intent "accel"
    return .obj ([("name", .str name),
      ("container", .obj (container ++
        [("resources", .obj [("claims", .arr [.obj [("name", .str "compute")]])])])),
      ("metadata", .obj [("annotations", strings annotations)])] ++ affinity ++
      [("podSpecPatch", .str (argoDraPodSpecPatch host rct "compute"))])
  else
    return .obj ([("name", .str name), ("container", .obj container),
      ("metadata", .obj [("annotations", strings annotations)])] ++ affinity)

/-- The task of a step, after the names of the steps before it. -/
def dagTask (sequential : Bool) (previous : Option String) (name : String) : Json :=
  .obj ([("name", .str name), ("template", .str name)] ++
    match previous with
    | some p => if sequential then [("depends", .str p)] else []
    | none => [])

/-- The tasks, each after its predecessor. -/
def dagTasks (sequential : Bool) : Option String → List String → List Json
  | _, [] => []
  | previous, name :: names =>
    dagTask sequential previous name :: dagTasks sequential (some name) names

/-- `enumerate(steps)` through a function that may raise. -/
def mapSteps {α : Type} (f : Nat → WorkflowStep → Except Exn α) (steps : List WorkflowStep) :
    Except Exn (List α) :=
  steps.zipIdx.mapM fun e => f e.2 e.1

/-! ## Workflows -/

/-- The hint an annotation is made of. -/
def hintText (intent : WorkflowIntent) (key : String) : String :=
  host.strLower ((intent.resourceHints.lookup key).getD (.bool false))

/-- `execution_mode`: a hint that says neither of the two modes is refused. -/
def executionMode (intent : WorkflowIntent) : Except Exn String :=
  match (intent.resourceHints.lookup "execution_mode").getD (.str "sequential") with
  | .str mode =>
    if mode == "sequential" || mode == "parallel" then .ok mode else .error .valueError
  | _ => .error .valueError

/-- `render_argo_workflow`. -/
def renderArgoWorkflow (intent : WorkflowIntent) (draFallback : Bool)
    (namespaceName serviceAccount : Option String) : Except Exn Json := do
  let templates ← mapSteps (argoTemplate host draFallback intent) intent.steps
  let names ← mapSteps (templateName host) intent.steps
  let mode ← executionMode intent
  let orchidePriority ← scalePriorityOrchide intent.priority
  let annotations ← requireAnnotationsFit ([("orbital/priority", toString intent.priority),
    ("orbital/orchide-priority", toString orchidePriority), ("orbital/execution-mode", mode),
    ("orbital/requires-gpu", hintText host intent "requires_gpu"),
    ("orbital/requires-fpga", hintText host intent "requires_fpga"),
    ("orbital/fallback-enabled", hintText host intent "fallback_enabled")] ++
      missionAnnotations intent.missionId)
  let inNamespace ← checkedField "namespace" requireK8sLabel namespaceName
  let account ← checkedField "serviceAccountName" (fun name => requireK8sSubdomain name 253)
    serviceAccount
  return .obj [("apiVersion", .str "argoproj.io/v1alpha1"), ("kind", .str "Workflow"),
    ("metadata", .obj ([("name", .str (sanitizeK8sName intent.workflowName 63)),
      ("labels", strings ([("mission-id", sanitizeK8sName intent.missionId 63),
        ("service-id", sanitizeK8sName intent.serviceId 63),
        ("priority", toString intent.priority),
        (missionFingerprintLabel, missionFingerprint host.sha intent.missionId)] ++
          ownershipLabels rendererArgo roleWorkflow scopeMission)),
      ("annotations", strings annotations)] ++ inNamespace)),
    ("spec", .obj ([("entrypoint", .str "main"),
      ("templates", .arr (.obj [("name", .str "main"),
        ("dag", .obj [("tasks", .arr (dagTasks (mode == "sequential") none names))])] ::
          templates))] ++ account))]

/-- What `render-argo` is asked for besides the plan. -/
structure ArgoOptions where
  draFallback : Bool
  namespaceName : Option String
  serviceAccount : Option String

/-- The claim template of an intent's file, when one is asked for. -/
def argoRct (options : ArgoOptions) (namespaceName : Option String) (intent : WorkflowIntent) :
    Except Exn (Option Json) :=
  if options.draFallback then firstAvailableRct host intent namespaceName rendererArgo
  else .ok none

/-- The file of an intent: its documents, the claim template first. -/
def argoFile (options : ArgoOptions) (namespaceName : Option String) (intent : WorkflowIntent) :
    Except Exn (String × List Json) := do
  let rct ← argoRct host options namespaceName intent
  let workflow ← renderArgoWorkflow host intent options.draFallback namespaceName
    options.serviceAccount
  return (argoFileName intent, rct.toList ++ [workflow])

/-- `planned` of `write_individual_workflows`. -/
def plannedWorkflows (plan : MissionPlan) (options : ArgoOptions) :
    Except Exn (List (String × List Json)) := do
  let namespaceName := if options.draFallback && options.namespaceName.isNone
    then some draDefaultNamespace else options.namespaceName
  let intents ← compilePlanToIntents host.sha plan
  intents.mapM (argoFile host options namespaceName)

end MissionCompiler.Render
