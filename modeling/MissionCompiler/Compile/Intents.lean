import MissionCompiler.Names.Timestamp

/-!
# Compiling a plan to intents

`WorkflowIntent` with its validators, `_workflow_name`, `compile_plan_to_intents`, and the names
of what is rendered from an intent. An intent is a plain record here, because the program can
change one after it was built; `WorkflowIntent.construct` is the constructor with the checks.

The dict of names in use is an association list read by its first entry for a key.
-/

namespace MissionCompiler.Compile

open Lib Schema Names

/-! ## Intents -/

structure WorkflowIntent where
  missionId : String
  serviceId : String
  priority : Nat
  workflowName : String
  steps : List WorkflowStep
  resourceHints : List (String × Json)

/-- `derived`, what the steps say of the hints. -/
def derivedHints (steps : List WorkflowStep) : List (String × Bool) :=
  [("requires_gpu", steps.any fun s => s.resourceClass == .gpu),
    ("requires_fpga", steps.any fun s => s.resourceClass == .fpga),
    ("fallback_enabled", steps.any fun s => s.fallbackResourceClass.isSome)]

/-- `_hints_describe_the_steps`: a hint that is missing is filled in, and one that is given has
to be the boolean the steps say. -/
def describeSteps (hints : List (String × Json)) :
    List (String × Bool) → Except Exn (List (String × Json))
  | [] => .ok hints
  | (key, value) :: derived =>
    match hints.lookup key with
    | none => describeSteps (hints ++ [(key, .bool value)]) derived
    | some (.bool given) =>
      if given != value then .error .valueError else describeSteps hints derived
    | some _ => .error .valueError

/-- `WorkflowIntent(…)`; a `ValidationError` is a `ValueError`. -/
def WorkflowIntent.construct (missionId serviceId : String) (priority : Nat)
    (workflowName : String) (steps : List WorkflowStep) (resourceHints : List (String × Json)) :
    Except Exn WorkflowIntent :=
  if pyBlank missionId || pyBlank serviceId || pyBlank workflowName || priority > 100 ||
      steps.isEmpty then .error .valueError
  else do
    let hints ← describeSteps resourceHints (derivedHints steps)
    return ⟨missionId, serviceId, priority, workflowName, steps, hints⟩

/-! ## Compilation -/

abbrev Used := List (String × Nat)

variable (sha : Sha256)

/-- `_workflow_name`, with the counts it leaves behind. -/
def workflowName (missionId serviceId eventTimestamp : String) (used : Used) :
    Except Exn (String × Used) := do
  let canonical ← collisionResistantK8sName sha
    (missionId ++ "-" ++ serviceId ++ "-" ++ eventTimestamp) 63 8
  let seen := (used.lookup canonical).getD 0
  let used := (canonical, seen + 1) :: used
  if seen = 0 then return (canonical, used)
  else
    let name ← collisionResistantK8sName sha (canonical ++ "-" ++ toString (seen + 1)) 63 8
    return (name, used)

/-- `hints` of `compile_plan_to_intents`. -/
def intentHints (event : MissionEvent) (svc : AIService) : List (String × Json) :=
  [("event_timestamp", .str (toRfc3339Z event.timestamp)),
    ("ground_visibility", .bool event.groundVisibility),
    ("region_type", (event.regionType.map Json.str).getD .null),
    ("orbit", (event.orbit.map fun n => Json.num (.int n)).getD .null),
    ("duration_seconds", (event.durationSeconds.map fun d => Json.num (.float d)).getD .null),
    ("landscape_type", (svc.landscapeType.map Json.str).getD .null),
    ("execution_mode", .str svc.executionMode.value),
    ("requires_gpu", .bool !(svc.steps.filter fun s => s.resourceClass == .gpu).isEmpty),
    ("requires_fpga", .bool !(svc.steps.filter fun s => s.resourceClass == .fpga).isEmpty),
    ("fallback_enabled", .bool !(svc.steps.filter fun s => s.fallbackResourceClass.isSome).isEmpty)]

/-- The body of the loop over the services of an event. -/
def compileService (plan : MissionPlan) (event : MissionEvent)
    (state : List WorkflowIntent × Used) (svc : AIService) :
    Except Exn (List WorkflowIntent × Used) := do
  let named ← workflowName sha plan.missionId svc.serviceId (toRfc3339Z event.timestamp) state.2
  let intent ← WorkflowIntent.construct plan.missionId svc.serviceId svc.priority named.1
    svc.steps (intentHints event svc)
  return (state.1 ++ [intent], named.2)

/-- The body of the loop over events: only acquisitions make intents. -/
def compileEvent (plan : MissionPlan) (state : List WorkflowIntent × Used)
    (event : MissionEvent) : Except Exn (List WorkflowIntent × Used) :=
  if event.eventType ≠ .acquisition then .ok state
  else event.services.foldlM (compileService sha plan event) state

/-- `compile_plan_to_intents`. -/
def compilePlanToIntents (plan : MissionPlan) : Except Exn (List WorkflowIntent) := do
  let state ← plan.events.foldlM (compileEvent sha plan) ([], [])
  return state.1

/-! ## Names of what is rendered -/

/-- `_rct_name_for_intent`. -/
def rctNameForIntent (intent : WorkflowIntent) (device : String) : Except Exn String :=
  collisionResistantK8sName sha (intent.workflowName ++ "-" ++ device ++ "-claim") 62 8

/-- The file of an Argo workflow, named after the object in it. -/
def argoFileName (intent : WorkflowIntent) : String :=
  sanitizeK8sName intent.workflowName 63 ++ ".yaml"

def kueueFileName (intent : WorkflowIntent) : String :=
  sanitizeK8sName intent.workflowName 63 ++ "-kueue.yaml"

def schedulerFallbackFileName (intent : WorkflowIntent) : String :=
  sanitizeK8sName intent.workflowName 63 ++ "-scheduler-fallback.yaml"

def priorityClassesFileName : String := "workload-priority-classes.yaml"

/-- The paths that `preflight_unique` meets again. -/
def duplicatePaths (seen : List String) : List String → List String
  | [] => []
  | p :: paths =>
    if p ∈ seen then p :: duplicatePaths seen paths else duplicatePaths (p :: seen) paths

/-- `preflight_unique`. -/
def preflightUnique (paths : List String) : Except Exn Unit :=
  if (duplicatePaths [] paths).isEmpty then .ok () else .error .valueError

end MissionCompiler.Compile
