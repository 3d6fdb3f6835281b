import MissionCompiler.Lib.Rego
import MissionCompiler.Policy.Violation

/-!
# The Rego policy bundle

`policies/mission_plan.rego`, one definition per rule body. A body ranges over its indexes
with `Rego.iterate` and contributes its head with `Rego.fire`; the set `violations` is the
heads of all bodies, and `deny` and `allow` are read off it.

Rule 10(a) and 10(b), 4a and 4b and the two bodies of rules 1 and 2 are separate bodies of one
rule in the source, and separate definitions here.
-/

namespace MissionCompiler.Policy.Bundle

open Lib Lib.Rego

/-- `_rule_meta`. -/
def ruleMeta : Rule → Severity × Provenance
  | .rule1 => (.T1, .A)
  | .rule2 => (.T1, .A)
  | .rule3 => (.T4, .D)
  | .rule4 => (.T2, .A)
  | .rule5 => (.T4, .A)
  | .rule6 => (.T2, .A)
  | .rule7 => (.T3, .D)
  | .rule8 => (.T3, .D)
  | .rule9 => (.T4, .A)
  | .rule10 => (.T4, .D)

/-- `_rule_id`. -/
def ruleId (rule : Rule) : String := "OMP-" ++ threeDigits rule.number

/-- `_viol`. -/
def viol (rule : Rule) (msg path : String) : Violation where
  rule := some rule
  ruleId := ruleId rule
  severity := (ruleMeta rule).1
  provenance := (ruleMeta rule).2
  path := path
  message := msg

/-- `_sviol`, the structural guard. -/
def sviol (msg path : String) : Violation where
  rule := none
  ruleId := "OMP-STRUCTURAL"
  severity := .T1
  provenance := .A
  path := path
  message := msg

/-- `_len_or_zero`: the length of an array, zero for an absent or null field, undefined for
anything else. The second clause's default is a string, so only a null field reaches it. -/
def lenOrZero (container : Json) (key : String) : Option Nat :=
  match objectGet container key (.arr []) with
  | .arr v => some v.length
  | _ => if (objectGet container key (.str "__absent__")).isNull then some 0 else none

/-- `_accelerator_bound`. -/
def acceleratorBound (step : Json) : Bool :=
  (step.get? "resource_class").any (·.eqStr "gpu") ||
    (step.get? "resource_class").any (·.eqStr "fpga")

/-! ## The references rules range over -/

/-- `some i; … input.events[i]`. -/
def overEvents {α : Type} (input : Json) (body : Json → Json → List α) : List α :=
  iterate (input.get? "events") body

/-- `some i, j; … input.events[i].services[j]`. -/
def overServices {α : Type} (input : Json) (body : Json → Json → Json → List α) : List α :=
  overEvents input fun i event => iterate (event.get? "services") (body i)

/-- `some i, j, k; … input.events[i].services[j].steps[k]`. -/
def overSteps {α : Type} (input : Json) (body : Json → Json → Json → Json → List α) : List α :=
  overServices input fun i j svc => iterate (svc.get? "steps") (body i j)

variable (go : Printer)

/-- `sprintf("/events/%d", [i])`. -/
def eventPath (i : Json) : String := "/events/" ++ go.d i

/-- `sprintf("/events/%d/services/%d", [i, j])`. -/
def servicePath (i j : Json) : String := eventPath go i ++ "/services/" ++ go.d j

/-- `sprintf("/events/%d/services/%d/steps/%d", [i, j, k])`. -/
def stepPath (i j k : Json) : String := servicePath go i j ++ "/steps/" ++ go.d k

/-! ## Structural guards -/

def eventsNotList (input : Json) : List Violation :=
  let ev := objectGet input "events" .null
  fire (!ev.isNull && !ev.isArr) (sviol "events must be a list" "/events")

def eventNotObject (input : Json) : List Violation :=
  if (input.get? "events").any Json.isArr then
    overEvents input fun i event =>
      fire (!event.isObj)
        (sviol ("event " ++ go.d i ++ " must be an object") (eventPath go i))
  else []

def servicesNotList (input : Json) : List Violation :=
  if (input.get? "events").any Json.isArr then
    overEvents input fun i event =>
      let sv := objectGet event "services" .null
      fire (event.isObj && !sv.isNull && !sv.isArr)
        (sviol ("event " ++ go.d i ++ " services must be a list") (eventPath go i ++ "/services"))
  else []

def serviceNotObject (input : Json) : List Violation :=
  overEvents input fun i event =>
    if (event.get? "services").any Json.isArr then
      iterate (event.get? "services") fun j svc =>
        fire (!svc.isObj) (sviol "service must be an object" (servicePath go i j))
    else []

def stepsNotList (input : Json) : List Violation :=
  overServices input fun i j svc =>
    let st := objectGet svc "steps" .null
    fire (svc.isObj && !st.isNull && !st.isArr)
      (sviol "service steps must be a list" (servicePath go i j ++ "/steps"))

def stepNotObject (input : Json) : List Violation :=
  overServices input fun i j svc =>
    if (svc.get? "steps").any Json.isArr then
      iterate (svc.get? "steps") fun k step =>
        fire (!step.isObj) (sviol "step must be an object" (stepPath go i j k))
    else []

/-! ## The numbered rules -/

def rule1Absent (input : Json) : List Violation :=
  fire (objectGet input "mission_id" .null).isNull
    (viol .rule1 "mission_id must not be empty" "/mission_id")

def rule1Blank (input : Json) : List Violation :=
  match objectGet input "mission_id" (.str "") with
  | .str missionId =>
    fire (trimSpace missionId == "") (viol .rule1 "mission_id must not be empty" "/mission_id")
  | _ => []

def rule2Absent (input : Json) : List Violation :=
  fire (objectGet input "events" .null).isNull
    (viol .rule2 "mission plan must contain at least one event" "/events")

def rule2Empty (input : Json) : List Violation :=
  match input.get? "events" with
  | some (.arr events) =>
    fire (events.length == 0) (viol .rule2 "mission plan must contain at least one event" "/events")
  | _ => []

/-- An acquisition event must declare at least one service. -/
def rule3 (input : Json) : List Violation :=
  overEvents input fun i event =>
    fire (event.isObj && (event.get? "event_type").any (·.eqStr "acquisition") &&
        lenOrZero event "services" == some 0)
      (viol .rule3 ("acquisition event " ++ go.v i ++ " must declare at least one service")
        (eventPath go i ++ "/services"))

/-- An accelerator-bound step declares no fallback. -/
def rule4a (input : Json) : List Violation :=
  overSteps input fun i j k step =>
    fire (step.isObj && acceleratorBound step &&
        (objectGet step "fallback_resource_class" .null).isNull)
      (viol .rule4 ("accelerator step " ++ go.q (objectGet step "name" (.str "")) ++
        " (resource_class " ++ go.q (objectGet step "resource_class" .null) ++
        ") must declare fallback_resource_class") (stepPath go i j k))

/-- An accelerator-bound step declares a fallback other than the CPU. -/
def rule4b (input : Json) : List Violation :=
  overSteps input fun i j k step =>
    let fb := objectGet step "fallback_resource_class" .null
    fire (step.isObj && acceleratorBound step && !fb.isNull && !fb.eqStr "cpu")
      (viol .rule4 ("accelerator step " ++ go.q (objectGet step "name" (.str "")) ++
        " (resource_class " ++ go.q (objectGet step "resource_class" .null) ++
        ") declares fallback_resource_class " ++ go.v fb ++
        ", but the only usable fallback is " ++ go.q (.str "cpu")) (stepPath go i j k))

/-- A service priority of zero. -/
def rule5 (input : Json) : List Violation :=
  overServices input fun i j svc =>
    fire (svc.isObj && (svc.get? "priority").any Json.isZero)
      (viol .rule5 ("service " ++ go.q (objectGet svc "service_id" (.str "")) ++
        " has zero priority, which is likely a misconfiguration") (servicePath go i j))

/-- Acceleration claimed by a CPU step. -/
def rule6 (input : Json) : List Violation :=
  overSteps input fun i j k step =>
    fire (step.isObj && (step.get? "resource_class").any (·.eqStr "cpu") &&
        (step.get? "needs_acceleration").any Json.isTrue)
      (viol .rule6 ("step " ++ go.q (objectGet step "name" (.str "")) ++
        " claims needs_acceleration but uses cpu resource class") (stepPath go i j k))

/-- A download event declares services. -/
def rule7 (input : Json) : List Violation :=
  overEvents input fun i event =>
    fire (event.isObj && (event.get? "event_type").any (·.eqStr "download") &&
        (lenOrZero event "services").any (· > 0))
      (viol .rule7 ("download event " ++ go.v i ++
        " must not declare services (transmission only)") (eventPath go i))

/-- A download event lacks ground visibility. -/
def rule8 (input : Json) : List Violation :=
  overEvents input fun i event =>
    fire (event.isObj && (event.get? "event_type").any (·.eqStr "download") &&
        !(objectGet event "ground_visibility" (.bool false)).isTrue)
      (viol .rule8 ("download event " ++ go.v i ++
        " requires ground_visibility (station must be visible for transmission)")
        (eventPath go i))

/-- A service has no step. -/
def rule9 (input : Json) : List Violation :=
  overServices input fun i j svc =>
    fire (svc.isObj && lenOrZero svc "steps" == some 0)
      (viol .rule9 ("service " ++ go.q (objectGet svc "service_id" (.str "")) ++
        " has no steps and cannot produce a workflow") (servicePath go i j))

/-- `valid_landscape_types`. -/
def validLandscapeTypes : List String := ["ocean", "land"]

/-- A landscape type is a string and not a recognized one. -/
def rule10a (input : Json) : List Violation :=
  overServices input fun i j svc =>
    match svc.get? "landscape_type" with
    | some (.str lt) =>
      fire (svc.isObj && !validLandscapeTypes.contains lt)
        (viol .rule10 ("service " ++ go.q (objectGet svc "service_id" (.str "")) ++
          " has unrecognized landscape_type " ++ go.q (.str lt) ++ " (expected: ocean, land)")
          (servicePath go i j))
    | _ => []

/-- A landscape type is present and not a string. -/
def rule10b (input : Json) : List Violation :=
  overServices input fun i j svc =>
    fire (svc.isObj && !(objectGet svc "landscape_type" .null).isNull &&
        !(svc.get? "landscape_type").any Json.isStr)
      (viol .rule10 ("service " ++ go.q (objectGet svc "service_id" (.str "")) ++
        " has a non-string landscape_type (expected a string: ocean or land)")
        (servicePath go i j))

/-! ## The decision -/

/-- The partial set `violations`, as the heads of its bodies. -/
def violations (input : Json) : List Violation :=
  eventsNotList input ++ eventNotObject go input ++ servicesNotList go input ++
    serviceNotObject go input ++ stepsNotList go input ++ stepNotObject go input ++
    rule1Absent input ++ rule1Blank input ++ rule2Absent input ++ rule2Empty input ++
    rule3 go input ++ rule4a go input ++ rule4b go input ++ rule5 go input ++
    rule6 go input ++ rule7 go input ++ rule8 go input ++ rule9 go input ++
    rule10a go input ++ rule10b go input

/-- The partial set `deny`: the messages of the violations. -/
def deny (input : Json) : List String := (violations go input).map Violation.message

/-- `allow`, which defaults to false. -/
def allow (input : Json) : Bool := (deny go input).dedup.length == 0

end MissionCompiler.Policy.Bundle
