import Mathlib.Data.List.Sort
import MissionCompiler.Policy.Baseline

/-!
# Reading a policy decision

`evaluate_policy_decision` and `enforce_policy_or_raise`: the gate in front of the compiler.
With the engine `opa` the decision is whatever JSON value a process printed, so everything
between the process and the list of violations is validation; with the engine `baseline` the
violations come from the in-process rules.

The JSON decoder, `repr` and `str` are parameters. What the decoder refuses is `none`, the
`ValueError` of `json.loads`.
-/

namespace MissionCompiler.Policy

open Lib

/-- A `PolicyViolationError`: the violations, and the messages that are joined for its text. -/
structure PolicyViolation where
  violations : List Json
  messages : List String

/-- The text of a `PolicyViolationError`. -/
def PolicyViolation.text (e : PolicyViolation) : String :=
  "policy denied the mission plan (" ++ toString e.messages.length ++ " violation(s)): " ++
    String.intercalate "; " e.messages

/-- What the gate can raise: one of its two errors, or an exception it did not mean to. -/
inductive GateError where
  | policyViolation (e : PolicyViolation)
  | policyEngineUnavailable (message : String)
  | raised (e : Exn)

/-- A step of the gate that calls plain Python. -/
def python {α : Type} : Except Exn α → Except GateError α
  | .ok a => .ok a
  | .error e => .error (.raised e)

/-- `raise PolicyEngineUnavailableError(message)`. -/
def unavailable {α : Type} (message : String) : Except GateError α :=
  .error (.policyEngineUnavailable message)

/-! ## The process -/

/-- What came of running the opa CLI. -/
inductive OpaRun where
  | notFound
  | timedOut (seconds : String)
  | unserialisable (text : String)
  | notExecuted (text : String)
  | exited (returncode : Int) (stdout stderr : String)

/-- `eval_policy`: a return code and a text, whatever came of the run. -/
def evalPolicy : OpaRun → Int × String
  | .notFound => (2, "opa CLI not found; skipping policy evaluation")
  | .timedOut seconds => (1, "OPA evaluation timed out after " ++ seconds ++ " seconds")
  | .unserialisable text => (1, "policy input could not be serialised as JSON: " ++ text)
  | .notExecuted text => (1, "OPA could not be executed: " ++ text)
  | .exited returncode stdout stderr => (returncode, if stdout != "" then stdout else stderr)

/-! ## The decision value -/

section Decision

variable (repr : Json → String)

/-- `_VIOLATION_KEYS`. -/
def violationKeys : List String :=
  ["rule", "rule_id", "severity", "provenance", "path", "message"]

/-- `isinstance(value, str) and bool(value)`. -/
def isNonemptyStr (value : Json) : Bool := value.isStr && !value.eqStr ""

/-- `isinstance(value, str) and value in {…}`: the set is asked only about a string. -/
def strIn (members : List String) (value : Json) : Except Exn Bool :=
  if value.isStr then value.inStrings members else .ok false

/-- The list `checks`, built before any of it is read. -/
def violationChecks (item : Json) : Except Exn (List (String × Bool)) := do
  let rule ← item.subscript "rule"
  let ruleId ← item.subscript "rule_id"
  let severity ← item.subscript "severity"
  let severityOk ← strIn ["T1", "T2", "T3", "T4"] severity
  let provenance ← item.subscript "provenance"
  let provenanceOk ← strIn ["A", "D"] provenance
  let path ← item.subscript "path"
  let message ← item.subscript "message"
  return [("rule", rule.isNull || rule.isInt), ("rule_id", isNonemptyStr ruleId),
    ("severity", severityOk), ("provenance", provenanceOk), ("path", path.isStr),
    ("message", isNonemptyStr message)]

/-- `for field, ok in checks`: the first check that fails is reported. -/
def reportChecks (item : Json) : List (String × Bool) → Except GateError Unit
  | [] => .ok ()
  | (field, ok) :: checks =>
    if !ok then
      unavailable ("policy decision violation has an unusable " ++ repr (.str field) ++ ": " ++
        repr item)
    else reportChecks item checks

/-- `_validate_typed_violation`. -/
def validateTypedViolation (item : Json) : Except GateError Unit :=
  if !(item.isObj && violationKeys.all fun key => (item.get? key).isSome) then
    unavailable ("policy decision carries a violation without the typed shape: " ++ repr item)
  else do
    let checks ← python (violationChecks item)
    reportChecks repr item checks

/-- `v["message"]`, where a string is needed: in the set the denials are compared with, and in
the join of the error's text. -/
def messageOf (v : Json) : Except Exn String := do
  match ← v.subscript "message" with
  | .str m => return m
  | _ => .error .typeError

/-- The field `deny`, when it is there. -/
def readDeny (value : Json) : Except GateError (Option (List String)) :=
  match value.get? "deny" with
  | none => .ok none
  | some deny =>
    match deny.strings? with
    | some messages => .ok (some messages)
    | none =>
      unavailable ("policy decision field 'deny' must be a list of strings, got " ++ repr deny)

/-- Two lists have the same elements. -/
def sameSet (a b : List String) : Bool := a.all b.contains && b.all a.contains

/-- `sorted(set(messages))`, as the error prints it. -/
def sortedSet (messages : List String) : String :=
  repr (.arr ((messages.dedup.mergeSort fun a b => a ≤ b).map .str))

/-- The items of `violations`, compared with the denials when they are there too. -/
def compareDeny (items : List Json) :
    Option (List String) → Except GateError (List Json)
  | none => .ok items
  | some messages => do
    let projected ← python (items.mapM messageOf)
    if !sameSet messages projected then
      unavailable ("policy decision disagrees with itself: deny messages " ++
        sortedSet repr messages ++ " do not match the violation messages " ++
        sortedSet repr projected)
    else return items

/-- The field `violations`. -/
def readViolations (raw : Json) (denyMessages : Option (List String)) :
    Except GateError (List Json) :=
  match raw with
  | .arr items => do
    items.forM (validateTypedViolation repr)
    compareDeny repr items denyMessages
  | _ =>
    unavailable ("policy decision field 'violations' must be a list, got " ++ raw.typeName)

/-- A denial in the typed shape. -/
def projectDeny (message : String) : Json :=
  .obj [("rule", .null), ("rule_id", .str Baseline.structuralRuleId), ("severity", .str "T1"),
    ("provenance", .str "A"), ("path", .str ""), ("message", .str message)]

/-- The violations of a decision, from whichever of its two fields holds them. -/
def decisionViolations (value : Json) (denyMessages : Option (List String)) :
    Except GateError (List Json) :=
  match value.get? "violations", denyMessages with
  | some raw, _ => readViolations repr raw denyMessages
  | none, some messages => .ok (messages.map projectDeny)
  | none, none => unavailable "policy decision carries neither a 'violations' nor a 'deny' set"

/-- Python's `True` and `False`. -/
def boolText (b : Bool) : String := if b then "True" else "False"

/-- The contradiction that is refused last: `allow` against what the violations say. -/
def checkAllow (allow : Json) (violations : List Json) : Except GateError (List Json) :=
  match allow with
  | .bool b =>
    if b == !violations.isEmpty then
      unavailable ("policy decision is contradictory: allow=" ++ boolText b ++ " with " ++
        toString violations.length ++ " violation(s)")
    else .ok violations
  | _ => .ok violations

/-- `typed_violations_from_decision`. -/
def typedViolationsFromDecision (value : Json) : Except GateError (List Json) :=
  if !value.isObj then
    unavailable ("policy decision is not an object (got " ++ value.typeName ++
      "); refusing to admit")
  else if (value.get? "allow").isSome && !(value.field "allow").isBool then
    unavailable ("policy decision field 'allow' must be a boolean, got " ++
      repr (value.field "allow"))
  else do
    let denyMessages ← readDeny repr value
    let violations ← decisionViolations repr value denyMessages
    checkAllow (value.field "allow") violations

end Decision

/-! ## The gate -/

/-- A violation as the dict it is. -/
def Violation.toJson (v : Violation) : Json :=
  .obj [("rule", match v.rule with
      | some rule => .num (.int rule.number)
      | none => .null),
    ("rule_id", .str v.ruleId),
    ("severity", .str (match v.severity with
      | .T1 => "T1"
      | .T2 => "T2"
      | .T3 => "T3"
      | .T4 => "T4")),
    ("provenance", .str (match v.provenance with
      | .A => "A"
      | .D => "D")),
    ("path", .str v.path), ("message", .str v.message)]

/-- What the gate takes from its surroundings. -/
structure Host where
  /-- `json.loads`; `none` is its `ValueError`. -/
  loads : String → Option Json
  repr : Json → String
  str : Json → String

/-- `value["result"][0]["expressions"][0]["value"]`. -/
def decisionValue (document : Json) : Except Exn Json := do
  let results ← document.subscript "result"
  let result ← results.subscriptAt 0
  let expressions ← result.subscript "expressions"
  let expression ← expressions.subscriptAt 0
  expression.subscript "value"

variable (host : Host)

/-- The decision value of an output, `ValueError`, `KeyError`, `IndexError` and `TypeError`
being caught: no other exception comes out of the decoder and the subscripts. -/
def readDecision (out : String) : Except GateError Json :=
  let value : Except Exn Json := do
    match host.loads out with
    | some document => decisionValue document
    | none => .error .valueError
  match value with
  | .ok value => .ok value
  | .error e =>
    if e ∈ [Exn.valueError, .keyError, .indexError, .typeError] then
      unavailable ("opa returned an unparseable decision: " ++ String.ofList (out.toList.take 200))
    else .error (.raised e)

/-- `evaluate_policy_decision`, over the plan's dict. `available` is `opa_available()`. -/
def evaluatePolicyDecision (engine : String) (available : Bool) (run : OpaRun)
    (plan : List (String × Json)) : Except GateError (List Json) :=
  if engine == "baseline" then do
    let found ← python (Baseline.violations host.str plan)
    return found.map Violation.toJson
  else if engine == "opa" then
    if !available then
      unavailable ("policy engine 'opa' selected but the opa CLI is not installed; " ++
        "install opa or pass --policy-engine=baseline")
    else
      let reply := evalPolicy run
      if reply.1 != 0 then
        unavailable ("opa evaluation failed (rc=" ++ toString reply.1 ++ "): " ++ reply.2)
      else do
        let value ← readDecision host reply.2
        typedViolationsFromDecision host.repr value
  else .error (.raised .valueError)

/-- The error that carries the violations, or what building its text raises. -/
def raisePolicyViolation (violations : List Json) : Except GateError Unit := do
  let messages ← python (violations.mapM messageOf)
  .error (.policyViolation ⟨violations, messages⟩)

/-- `enforce_policy_or_raise`, over the plan's dump. -/
def enforcePolicyOrRaise (engine : String) (available : Bool) (run : OpaRun)
    (plan : List (String × Json)) : Except GateError Unit := do
  let violations ← evaluatePolicyDecision host engine available run plan
  if !violations.isEmpty then raisePolicyViolation violations else return ()

end MissionCompiler.Policy
