import MissionCompiler.Lib.Json
import MissionCompiler.Lib.Quote
import MissionCompiler.Policy.Violation

/-!
# The in-process policy engine

`baseline_validator.violations`, over the raw JSON document: one pass over events, services
and steps that collects every violation. The document is whatever was handed in, so each
field is read with `dict.get` and tested for its type before it is used. One test is not
preceded by a type check: membership of `resource_class` in a set of strings, which raises
for a list or a dict (`Json.inStrings`).

`str` stands for Python's `str()` of a value that is not a string. It only reaches messages.
-/

namespace MissionCompiler.Policy.Baseline

open Lib

def validLandscapeTypes : List String := ["ocean", "land"]

def acceleratorClasses : List String := ["gpu", "fpga"]

def fallbackClass : String := "cpu"

/-- `_RULE_META`. -/
def ruleMeta : Rule → Severity × Provenance
  | .rule1 => (.T1, .A)
  | .rule2 => (.T1, .A)
  | .rule3 => (.T4, .D)
  | .rule4 => (.T2, .A)
  | .rule5 => (.T4, .A)
  | .rule6 => (.T2, .A)
  | .rule7 => (.T3, .D)
  | .rule8 => (.T3, .D)
  | .rule9 => (.T4, .A)
  | .rule10 => (.T4, .D)

def structuralMeta : Severity × Provenance := (.T1, .A)

def structuralRuleId : String := "OMP-STRUCTURAL"

def ruleId : Option Rule → String
  | none => structuralRuleId
  | some rule => "OMP-" ++ threeDigits rule.number

/-- `_viol`. -/
def viol (rule : Option Rule) (message path : String) : Violation :=
  let (severity, provenance) := match rule with
    | some rule => ruleMeta rule
    | none => structuralMeta
  { rule, ruleId := ruleId rule, severity, provenance, path, message }

variable (str : Json → String)

/-- `_q`: an identifier as `json.dumps` quotes it, `None` as the empty string. -/
def q : Json → String
  | .str s => jsonQuote s
  | .null => jsonQuote ""
  | value => jsonQuote (str value)

/-- A value inside an f-string. -/
def format : Json → String
  | .str s => s
  | value => str value

/-- `_as_list`: the list, and whether something that is no list stands in its place. -/
def asList : Json → List Json × Bool
  | .null => ([], false)
  | .arr xs => (xs, false)
  | _ => ([], true)

/-- Rule 1: `mission_id` is absent, null or a string of white space. -/
def rule1 : Json → List Violation
  | .null => [viol (some .rule1) "mission_id must not be empty" "/mission_id"]
  | .str mid =>
    if pyStrip mid == "" then
      [viol (some .rule1) "mission_id must not be empty" "/mission_id"]
    else []
  | _ => []

def rule2 : List Violation :=
  [viol (some .rule2) "mission plan must contain at least one event" "/events"]

/-- Rule 3: an acquisition event must declare at least one service. -/
def rule3 (i : Nat) (etype : Json) (services : List Json) (malformed : Bool) : List Violation :=
  if etype.eqStr "acquisition" && !malformed && services.length == 0 then
    [viol (some .rule3) ("acquisition event " ++ toString i ++
      " must declare at least one service") ("/events/" ++ toString i ++ "/services")]
  else []

/-- Rule 4: an accelerator step must declare a usable fallback. -/
def rule4 (stp : String) (accelerator : Bool) (name rc fb : Json) : List Violation :=
  if accelerator then
    if fb.isNull then
      [viol (some .rule4) ("accelerator step " ++ q str name ++ " (resource_class " ++
        q str rc ++ ") must declare fallback_resource_class") stp]
    else if !fb.eqStr fallbackClass then
      [viol (some .rule4) ("accelerator step " ++ q str name ++ " (resource_class " ++
        q str rc ++ ") declares fallback_resource_class " ++ format str fb ++
        ", but the only usable fallback is \"cpu\"") stp]
    else []
  else []

/-- Rule 5: priority must not be zero. -/
def rule5 (sp : String) (sid prio : Json) : List Violation :=
  if prio.isZero then
    [viol (some .rule5) ("service " ++ q str sid ++
      " has zero priority, which is likely a misconfiguration") sp]
  else []

/-- Rule 6: `needs_acceleration` on a CPU step is contradictory. -/
def rule6 (stp : String) (name rc needs : Json) : List Violation :=
  if rc.eqStr "cpu" && needs.isTrue then
    [viol (some .rule6) ("step " ++ q str name ++
      " claims needs_acceleration but uses cpu resource class") stp]
  else []

/-- Rule 7: a download event must not carry services. -/
def rule7 (i : Nat) (etype : Json) (services : List Json) (malformed : Bool) : List Violation :=
  if etype.eqStr "download" && !malformed && services.length > 0 then
    [viol (some .rule7) ("download event " ++ toString i ++
      " must not declare services (transmission only)") ("/events/" ++ toString i)]
  else []

/-- Rule 8: a download event requires ground visibility. -/
def rule8 (i : Nat) (etype visibility : Json) : List Violation :=
  if etype.eqStr "download" && !visibility.isTrue then
    [viol (some .rule8) ("download event " ++ toString i ++
      " requires ground_visibility (station must be visible for transmission)")
      ("/events/" ++ toString i)]
  else []

/-- Rule 9: a service must have at least one step. -/
def rule9 (sp : String) (sid : Json) (steps : List Json) (malformed : Bool) : List Violation :=
  if !malformed && steps.length == 0 then
    [viol (some .rule9) ("service " ++ q str sid ++
      " has no steps and cannot produce a workflow") sp]
  else []

/-- Rule 10: a landscape type, when present, must be recognized. -/
def rule10 (sp : String) (sid : Json) : Json → List Violation
  | .str lt =>
    if validLandscapeTypes.contains lt then []
    else
      [viol (some .rule10) ("service " ++ q str sid ++ " has unrecognized landscape_type " ++
        q str (.str lt) ++ " (expected: ocean, land)") sp]
  | .null => []
  | _ =>
    [viol (some .rule10) ("service " ++ q str sid ++
      " has a non-string landscape_type (expected a string: ocean or land)") sp]

/-- A container field that holds something other than a list. -/
def malformedGuard (malformed : Bool) (message path : String) : List Violation :=
  if malformed then [viol none message path] else []

/-- The body of the loop over steps, at the step's path. -/
def stepViolations (stp : String) : Json → Except Exn (List Violation)
  | .obj step => do
    let rc := (step.lookup "resource_class").getD .null
    let name := (step.lookup "name").getD (.str "")
    -- membership in a set of strings, asked before anything says `rc` is one
    let accelerator ← rc.inStrings acceleratorClasses
    let fb := (step.lookup "fallback_resource_class").getD .null
    let needs := (step.lookup "needs_acceleration").getD .null
    return rule4 str stp accelerator name rc fb ++ rule6 str stp name rc needs
  | _ => .ok [viol none "step must be an object" stp]

/-- The loop over the steps of the service at `sp`. -/
def stepsViolations (sp : String) (steps : List Json) : Except Exn (List Violation) :=
  enumerateM (fun k step => stepViolations str (sp ++ "/steps/" ++ toString k) step) 0 steps

/-- The body of the loop over services, at the service's path. -/
def serviceViolations (sp : String) : Json → Except Exn (List Violation)
  | .obj svc => do
    let sid := (svc.lookup "service_id").getD (.str "")
    let steps := asList ((svc.lookup "steps").getD .null)
    let own := malformedGuard steps.2 "service steps must be a list" (sp ++ "/steps") ++
      rule5 str sp sid ((svc.lookup "priority").getD .null) ++
      rule9 str sp sid steps.1 steps.2 ++
      rule10 str sp sid ((svc.lookup "landscape_type").getD .null)
    let nested ← stepsViolations str sp steps.1
    return own ++ nested
  | _ => .ok [viol none "service must be an object" sp]

/-- The loop over the services of the event at `ep`. -/
def servicesViolations (ep : String) (services : List Json) : Except Exn (List Violation) :=
  enumerateM (fun j svc => serviceViolations str (ep ++ "/services/" ++ toString j) svc) 0 services

/-- The body of the loop over events. -/
def eventViolations (i : Nat) : Json → Except Exn (List Violation)
  | .obj event => do
    let ep := "/events/" ++ toString i
    let etype := (event.lookup "event_type").getD .null
    let services := asList ((event.lookup "services").getD .null)
    let own := malformedGuard services.2 ("event " ++ toString i ++ " services must be a list")
        (ep ++ "/services") ++
      rule3 i etype services.1 services.2 ++
      rule7 i etype services.1 services.2 ++
      rule8 i etype ((event.lookup "ground_visibility").getD .null)
    let nested ← servicesViolations str ep services.1
    return own ++ nested
  | _ => .ok [viol none ("event " ++ toString i ++ " must be an object")
      ("/events/" ++ toString i)]

/-- The loop over the events of the plan. -/
def eventsViolations (events : List Json) : Except Exn (List Violation) :=
  enumerateM (eventViolations str) 0 events

/-- `violations(plan)`. Without a list of events there is nothing to walk, and the function
returns what it has. -/
def violations (plan : List (String × Json)) : Except Exn (List Violation) := do
  let out := rule1 ((plan.lookup "mission_id").getD .null)
  match (plan.lookup "events").getD .null with
  | .null => return out ++ rule2
  | .arr events =>
    let empty := if events.length == 0 then rule2 else []
    let nested ← eventsViolations str events
    return out ++ empty ++ nested
  | _ => return out ++ [viol none "events must be a list" "/events"]

/-- `is_allowed(plan)`. -/
def isAllowed (plan : List (String × Json)) : Except Exn Bool := do
  let found ← violations str plan
  return found.length == 0

end MissionCompiler.Policy.Baseline
