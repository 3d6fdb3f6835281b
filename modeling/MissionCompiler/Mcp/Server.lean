import MissionCompiler.Mcp.PlanPath
import MissionCompiler.Policy.Command
import MissionCompiler.Render.Renderable

/-!
# The tools of the server

`validate_plan`, `compile_plan`, `render_argo` and `explain_policy`, with what they find at each
moment they look: the files, the variables and the opa process may all change while a tool runs. A
tool compiles or renders exactly the plan it judged, and only where the engine the server was
configured with admits it, or its operator lets callers do without.
-/

namespace MissionCompiler.Mcp

open Lib Schema Names Compile Cli

/-- What is fixed when the server starts, `MCP_POLICY_ENGINE` among it, and its libraries. -/
structure Server (ρ : Type) extends Installation where
  engine : String
  bundle : String
  decision : String
  libs : Libraries ρ
  interpreter : Policy.Interpreter
  render : Render.Host
  safeDumpAll : List Json → String
  isoformat : Timestamp → String

/-- What is around the server at a moment. -/
structure Surroundings extends Files where
  missing : List String → String
  allowBypass : Option String
  opaAvailable : Bool
  opa : String → String → List (String × Json) → Policy.OpaRun

/-- The moments at which a tool looks: it checks the path, reads the plan, asks whether it may do
without a verdict, and judges. -/
structure Moments where
  checks : Surroundings
  reads : Surroundings
  asks : Surroundings
  judges : Surroundings

/-- Nothing changes while the tool runs. -/
def still (s : Surroundings) : Moments := ⟨s, s, s, s⟩

/-- What a tool raises: of a path, of a plan, of the gate, or of the compiler. -/
inductive ToolError where
  | path (e : PathError)
  | plan (e : PlanError)
  | gate (e : Policy.GateError)
  | raised (e : Exn)

variable {ρ : Type} (server : Server ρ)

/-! ## What the tools share -/

def pathText (place : List String) : String := "/" ++ String.intercalate "/" place

/-- What opening a path comes to. -/
def contentAt (s : Surroundings) (place : List String) : Input :=
  (s.tree.open? server.fuel place).getD (.osError (s.missing place))

def checkPath (s : Surroundings) (path : String) : Except ToolError (List String) :=
  (validatePlanPath server.toInstallation s.toFiles path).mapError .path

def readPlan (s : Surroundings) (place : List String) : Except ToolError MissionPlan :=
  (loadMissionPlan server.libs (pathText place) (contentAt server s place)).mapError .plan

/-- The first two lines of every tool. -/
def loadPlan (m : Moments) (path : String) : Except ToolError MissionPlan := do
  let safePath ← checkPath server m.checks path
  readPlan server m.reads safePath

/-- `plan.model_dump(mode="json")`. -/
def dumpOf (plan : MissionPlan) : List (String × Json) := plan.dump server.isoformat

/-- `evaluate_policy_decision`. A `RecursionError` of the decoder is in none of its exception
lists. -/
def evaluateOn (engine : String) (available : Bool) (run : Policy.OpaRun)
    (plan : List (String × Json)) : Except Policy.GateError (List Json) :=
  if engine == "opa" && available && (Policy.evalPolicy run).1 == 0 &&
      server.interpreter.overruns (Policy.evalPolicy run).2 then
    .error (.raised .recursionError)
  else Policy.evaluatePolicyDecision server.interpreter.host engine available run plan

/-- `_server_policy_violations`, where the engine being unavailable stands for
`PolicyUndecidable`. -/
def serverPolicyViolations (s : Surroundings) (plan : MissionPlan) :
    Except Policy.GateError (List Json) :=
  if !(["opa", "baseline"].contains server.engine) then
    Policy.unavailable ("ORBITAL_MCP_POLICY_ENGINE must be 'opa' or 'baseline', got " ++
      server.interpreter.repr (.str server.engine))
  else evaluateOn server server.engine s.opaAvailable
    (s.opa server.bundle server.decision (dumpOf server plan)) (dumpOf server plan)

/-- `_bypass_requested`. -/
def bypassRequested (s : Surroundings) (unsafeSkipPolicy : Bool) : Bool :=
  unsafeSkipPolicy && s.allowBypass == some "1"

/-! ## Replies -/

structure Validated where
  missionId : String
  events : Nat
  policyAllowed : Bool
  violations : List Json
  status : String

structure Compiled where
  missionId : String
  intentCount : Nat
  services : List String

/-- What `explain_policy` makes of the text opa printed: no decision value, one it cannot trust, or
the typed violations. -/
inductive Window where
  | unread
  | untrusted (error : String)
  | typed (violations : List Json)

/-- The key `denied`: absent, `None` or a boolean. -/
def Window.denied : Window → Option (Option Bool)
  | .unread => none
  | .untrusted _ => some none
  | .typed violations => some (some !violations.isEmpty)

structure Explanation where
  exitCode : Int
  raw : String
  window : Window

inductive Reply where
  | undecidable (error : String) (missionId : Option String)
  | denied (missionId : Option String) (violations : List Json)
  | validated (report : Validated)
  | compiled (report : Compiled)
  | rendered (manifests : List (String × String))
  | explained (explanation : Explanation)

/-! ## Tools -/

/-- What `validate_plan` makes of a verdict. -/
def reportVerdict (plan : MissionPlan) :
    Except Policy.GateError (List Json) → Except ToolError Reply
  | .error (.policyEngineUnavailable message) =>
    .ok (.undecidable message (some plan.missionId))
  | .error e => .error (.gate e)
  | .ok violations => .ok (.validated ⟨plan.missionId, plan.events.length, violations.isEmpty,
      violations, if violations.isEmpty then "validated" else "policy_denied"⟩)

/-- `validate_plan`. -/
def validatePlan (m : Moments) (path : String) : Except ToolError Reply := do
  let plan ← loadPlan server m path
  reportVerdict plan (serverPolicyViolations server m.judges plan)

/-- What `compile_plan` and `render_argo` make of a verdict, in front of their work. -/
def goByVerdict (missionId : Option String) (work : Except ToolError Reply) :
    Except Policy.GateError (List Json) → Except ToolError Reply
  | .error (.policyEngineUnavailable message) => .ok (.undecidable message missionId)
  | .error e => .error (.gate e)
  | .ok violations => if !violations.isEmpty then .ok (.denied missionId violations) else work

/-- Their gate. -/
def gated (m : Moments) (unsafeSkipPolicy : Bool) (plan : MissionPlan) (missionId : Option String)
    (work : Except ToolError Reply) : Except ToolError Reply :=
  if !bypassRequested m.asks unsafeSkipPolicy then
    goByVerdict missionId work (serverPolicyViolations server m.judges plan)
  else work

def compileWork (plan : MissionPlan) : Except ToolError Reply := do
  let intents ← (compilePlanToIntents server.render.sha plan).mapError .raised
  return .compiled ⟨plan.missionId, intents.length, intents.map WorkflowIntent.serviceId⟩

/-- `compile_plan`. -/
def compilePlan (m : Moments) (path : String) (unsafeSkipPolicy : Bool) :
    Except ToolError Reply := do
  let plan ← loadPlan server m path
  gated server m unsafeSkipPolicy plan (some plan.missionId) (compileWork server plan)

/-- The text of a file: its documents, or the one there is. -/
def manifestText (docs : List Json) : String :=
  match docs with
  | [doc] => server.render.safeDump doc
  | docs => server.safeDumpAll docs

/-- `write_individual_workflows` into a temporary directory, and the files read back. That directory
is made, written and read: failures of it are left out. -/
def renderWork (plan : MissionPlan) : Except ToolError Reply := do
  let planned ← (Render.plannedWorkflows server.render plan ⟨false, none, none⟩).mapError .raised
  (preflightUnique (planned.map Prod.fst)).mapError .raised
  return .rendered (planned.map fun file => (file.1, manifestText server file.2))

/-- `render_argo`. -/
def renderArgo (m : Moments) (path : String) (unsafeSkipPolicy : Bool) :
    Except ToolError Reply := do
  let plan ← loadPlan server m path
  gated server m unsafeSkipPolicy plan none (renderWork server plan)

/-- What `explain_policy` reads of a decoded output. -/
def windowOf (document : Json) : Except ToolError Window :=
  match Policy.decisionValue document with
  | .error e =>
    if e ∈ [Exn.valueError, .keyError, .indexError, .typeError] then .ok .unread
    else .error (.raised e)
  | .ok value =>
    match Policy.typedViolationsFromDecision server.interpreter.repr value with
    | .ok typed => .ok (.typed typed)
    | .error (.policyEngineUnavailable message) => .ok (.untrusted message)
    | .error e => .error (.gate e)

def readWindow (out : String) : Except ToolError Window :=
  match server.interpreter.loads out with
  | .ok document => windowOf server document
  | .error .recursionError => .error (.raised .recursionError)
  | .error _ => .ok .unread

def explainUnavailable : String :=
  "explain_policy runs the Rego bundle directly and the opa CLI is not " ++
    "installed; the other tools are unaffected and use ORBITAL_MCP_POLICY_ENGINE=" ++
    server.interpreter.repr (.str server.engine)

/-- `explain_policy`. -/
def explainPolicy (m : Moments) (path bundle decision : String) : Except ToolError Reply := do
  let safePath ← checkPath server m.checks path
  let safeBundle ← (validateBundlePath server.toInstallation m.checks.toFiles bundle).mapError .path
  let plan ← readPlan server m.reads safePath
  if !m.asks.opaAvailable then return .undecidable (explainUnavailable server) none
  else
    let run := m.judges.opa (pathText safeBundle) decision (dumpOf server plan)
    let reply := Policy.evalPolicy run
    let window ← readWindow server reply.2
    return .explained ⟨reply.1, reply.2, window⟩

end MissionCompiler.Mcp
