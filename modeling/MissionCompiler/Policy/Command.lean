import MissionCompiler.Policy.FailClosed

/-!
# The standalone policy command

`cmd_policy` reads the same reply of `eval_policy` as the artifact gate does, with code of its
own: it exits with the return code it got, and catches around the decoder what the decoder is
documented to raise rather than every `ValueError`. `AgreesWithGate` says what its exit codes
should mean, and `cmdPolicy_agrees_iff` on which replies they do.
-/

namespace MissionCompiler.Policy

open Lib

/-- What `json.loads` raises. Only the first is a `JSONDecodeError`; an integer of more digits
than the interpreter converts is a plain `ValueError`, and a text nested deeper than its stack
a `RecursionError`. -/
inductive LoadsError where
  | jsonDecodeError
  | valueError
  | recursionError
deriving DecidableEq, Repr

/-- The interpreter a command runs in. -/
structure Interpreter where
  loads : String → Except LoadsError Json
  repr : Json → String
  str : Json → String

namespace Interpreter

/-- The gate's own view of the decoder: every `ValueError` is one. -/
def host (interpreter : Interpreter) : Host where
  loads out := (interpreter.loads out).toOption
  repr := interpreter.repr
  str := interpreter.str

/-- Whether decoding a text overruns the stack. -/
def overruns (interpreter : Interpreter) (out : String) : Bool :=
  match interpreter.loads out with
  | .error .recursionError => true
  | _ => false

end Interpreter

/-- `opa_available()`, where the process came out as it did. -/
def OpaRun.available : OpaRun → Bool
  | .notFound => false
  | _ => true

/-- `enforce_policy_or_raise(engine="opa")`. A `RecursionError` of the decoder is in none of
its exception lists. -/
def enforceOpa (interpreter : Interpreter) (run : OpaRun) (plan : List (String × Json)) :
    Except GateError Unit :=
  if run.available && (evalPolicy run).1 == 0 && interpreter.overruns (evalPolicy run).2 then
    .error (.raised .recursionError)
  else enforcePolicyOrRaise interpreter.host "opa" run.available run plan

/-! ## The command -/

/-- What the command prints to standard error. -/
inductive PolicyReport where
  | undecidable
  | policyEngineUnavailable (error : String)
  | denied (violations : List Json)

/-- How the command ends: in `SystemExit`, or in an exception that `main` does not catch. -/
inductive Ending where
  | exits (code : Int) (report : Option PolicyReport)
  | raised (e : Exn)

/-- The exit code of the process. An uncaught exception is a traceback and exit 1. -/
def Ending.code : Ending → Int
  | .exits code _ => code
  | .raised _ => 1

/-- The end of the command, where `typed_violations_from_decision` has answered. -/
def reportTyped : Except GateError (List Json) → Ending
  | .ok typed => if !typed.isEmpty then .exits 1 (some (.denied typed)) else .exits 0 none
  | .error (.policyEngineUnavailable message) => .exits 2 (some (.policyEngineUnavailable message))
  | .error (.policyViolation e) => .exits 1 (some (.denied e.violations))
  | .error (.raised e) => .raised e

/-- The middle of the command, where the output was JSON. -/
def judgeDocument (interpreter : Interpreter) (document : Json) : Ending :=
  match decisionValue document with
  | .ok value => reportTyped (typedViolationsFromDecision interpreter.repr value)
  | .error e =>
    if e ∈ [Exn.keyError, .indexError, .typeError] then .exits 2 (some .undecidable)
    else .raised e

/-- `cmd_policy` on a loaded plan, with what it prints first. -/
def cmdPolicy (interpreter : Interpreter) (run : OpaRun) : String × Ending :=
  let (returncode, out) := evalPolicy run
  (out,
    if returncode != 0 then .exits returncode none
    else
      match interpreter.loads out with
      | .ok document => judgeDocument interpreter document
      | .error .jsonDecodeError => .exits 2 (some .undecidable)
      | .error .valueError => .raised .valueError
      | .error .recursionError => .raised .recursionError)

/-! ## What the exit codes should mean -/

/-- The exit code of the command is 0, 1 and 2 exactly where the gate returns, denies and
reports the engine unavailable. -/
structure AgreesWithGate (ending : Ending) (gate : Except GateError Unit) : Prop where
  admitted : ending.code = 0 ↔ gate = .ok ()
  denied : ending.code = 1 ↔ ∃ e, gate = .error (.policyViolation e)
  undecided : ending.code = 2 ↔ ∃ message, gate = unavailable message

variable {ending : Ending} {gate : Except GateError Unit}

theorem AgreesWithGate.of_ok (h : ending.code = 0) : AgreesWithGate ending (.ok ()) := by
  refine ⟨by simp [h], ?_, ?_⟩
  · simp [h]
  · simp [h, unavailable]

theorem AgreesWithGate.of_denied {e : PolicyViolation} (h : ending.code = 1) :
    AgreesWithGate ending (.error (.policyViolation e)) := by
  refine ⟨by simp [h], ?_, ?_⟩
  · simp [h]
  · simp [h, unavailable]

/-- Where the engine is unavailable, only exit code 2 says so. -/
theorem agreesWithGate_unavailable {message : String} :
    AgreesWithGate ending (unavailable message) ↔ ending.code = 2 := by
  constructor
  · intro h
    exact h.undecided.mpr ⟨message, rfl⟩
  · intro h
    refine ⟨by simp [h, unavailable], ?_, ?_⟩
    · simp [h, unavailable]
    · simp [h, unavailable]

theorem not_agreesWithGate_raised {e : Exn} (h : ending.code = 1) :
    ¬ AgreesWithGate ending (.error (.raised e)) := by
  intro hagrees
  obtain ⟨e', he⟩ := hagrees.denied.mp h
  cases he

/-! ## The two readings of a reply -/

variable (interpreter : Interpreter) {run : OpaRun} (plan : List (String × Json))

theorem available_of_returncode (h : (evalPolicy run).1 = 0) : run.available = true := by
  cases run with
  | notFound => cases h
  | _ => rfl

theorem enforceOpa_of_failed (h : (evalPolicy run).1 ≠ 0) :
    ∃ message, enforceOpa interpreter run plan = unavailable message := by
  have hne : ((evalPolicy run).1 == 0) = false := by simpa using h
  have hbang : ((evalPolicy run).1 != 0) = true := by simpa using h
  rw [enforceOpa, hne, Bool.and_false, Bool.false_and]
  show ∃ message, (evaluatePolicyDecision interpreter.host "opa" run.available run plan >>= _) =
    unavailable message
  cases hrun : run.available with
  | false => exact ⟨_, rfl⟩
  | true =>
    have hevaluate : evaluatePolicyDecision interpreter.host "opa" true run plan =
        unavailable ("opa evaluation failed (rc=" ++ toString (evalPolicy run).1 ++ "): " ++
          (evalPolicy run).2) := by
      show (if (evalPolicy run).1 != 0 then _ else _) = _
      rw [hbang]
      rfl
    rw [hevaluate]
    exact ⟨_, rfl⟩

/-- The gate where the process ended well and its output was decoded, or was not JSON. -/
theorem enforceOpa_of_exited (h : (evalPolicy run).1 = 0)
    (hstack : interpreter.overruns (evalPolicy run).2 = false) :
    enforceOpa interpreter run plan =
      (do
        let value ← readDecision interpreter.host (evalPolicy run).2
        let violations ← typedViolationsFromDecision interpreter.repr value
        if !violations.isEmpty then raisePolicyViolation violations else return ()) := by
  have hzero : ((evalPolicy run).1 != 0) = false := by simp [h]
  rw [enforceOpa, hstack, Bool.and_false, available_of_returncode h]
  show ((if (evalPolicy run).1 != 0 then _ else _) >>= _) = _
  rw [hzero]
  show ((readDecision interpreter.host (evalPolicy run).2 >>= fun value =>
    typedViolationsFromDecision interpreter.repr value) >>= _) = _
  cases readDecision interpreter.host (evalPolicy run).2 with
  | ok value => rfl
  | error e => rfl

/-- What the gate does with a decision value. -/
def judgeValue (value : Json) : Except GateError Unit := do
  let violations ← typedViolationsFromDecision interpreter.repr value
  if !violations.isEmpty then raisePolicyViolation violations else return ()

/-- A decision value is answered alike: both ask the same validation about it. -/
theorem reportTyped_agrees (value : Json) :
    AgreesWithGate (reportTyped (typedViolationsFromDecision interpreter.repr value))
      (judgeValue interpreter value) := by
  rw [judgeValue]
  rcases typedViolationsFromDecision_failsClosed interpreter.repr value with
    ⟨typed, htyped, honly⟩ | ⟨⟨message, hm⟩, _⟩
  · rw [htyped]
    show AgreesWithGate _ (if !typed.isEmpty then raisePolicyViolation typed else .ok ())
    cases typed with
    | nil => exact .of_ok rfl
    | cons v typed =>
      obtain ⟨messages, hmessages⟩ := ((honly _).mpr rfl).messages
      have hraise : raisePolicyViolation (v :: typed) =
          .error (.policyViolation ⟨v :: typed, messages⟩) := by
        rw [raisePolicyViolation, hmessages]
        rfl
      show AgreesWithGate _ (raisePolicyViolation (v :: typed))
      rw [hraise]
      exact .of_denied rfl
  · rw [hm]
    exact agreesWithGate_unavailable.mpr rfl

/-- A text that was decoded is answered alike: the subscripts raise nothing but what both
catch. -/
theorem judgeDocument_agrees {out : String} {document : Json}
    (h : interpreter.loads out = .ok document) :
    AgreesWithGate (judgeDocument interpreter document)
      (readDecision interpreter.host out >>= judgeValue interpreter) := by
  have hloads : interpreter.host.loads out = some document := by
    show (interpreter.loads out).toOption = _
    rw [h]
    rfl
  rw [readDecision, hloads, judgeDocument]
  show AgreesWithGate _
    ((match decisionValue document with | .ok value => _ | .error e => _) >>= _)
  cases hvalue : decisionValue document with
  | ok value => exact reportTyped_agrees interpreter value
  | error e =>
    have hcaught : e ∈ [Exn.keyError, .indexError, .typeError] := decisionValue_raises hvalue
    have hgate : e ∈ [Exn.valueError, .keyError, .indexError, .typeError] :=
      List.mem_cons_of_mem _ hcaught
    show AgreesWithGate (if _ then _ else _) ((if _ then _ else _) >>= _)
    rw [if_pos hcaught, if_pos hgate]
    exact agreesWithGate_unavailable.mpr rfl

/-- A text that is not decoded leaves the gate without a decision. -/
theorem readDecision_of_undecoded {out : String} {e : LoadsError}
    (h : interpreter.loads out = .error e) :
    ∃ message, readDecision interpreter.host out = unavailable message := by
  have hloads : interpreter.host.loads out = none := by
    show (interpreter.loads out).toOption = _
    rw [h]
    rfl
  rw [readDecision, hloads]
  exact ⟨_, rfl⟩

/-! ## Where the command and the gate agree -/

/-- A reply the command reads as the gate does: the process ended well and its output is not
one that the decoder refuses with anything but a `JSONDecodeError`, or it ended with the code
the command gives to an undecided plan. -/
def Legible (run : OpaRun) : Prop :=
  ((evalPolicy run).1 = 0 ∧ ∀ e, interpreter.loads (evalPolicy run).2 = .error e →
    e = .jsonDecodeError) ∨ (evalPolicy run).1 = 2

theorem cmdPolicy_of_failed (h : (evalPolicy run).1 ≠ 0) :
    (cmdPolicy interpreter run).2 = .exits (evalPolicy run).1 none := by
  have hne : ((evalPolicy run).1 != 0) = true := by simpa using h
  show (if (evalPolicy run).1 != 0 then _ else _) = _
  rw [hne]
  rfl

theorem cmdPolicy_of_exited (h : (evalPolicy run).1 = 0) :
    (cmdPolicy interpreter run).2 =
      match interpreter.loads (evalPolicy run).2 with
      | .ok document => judgeDocument interpreter document
      | .error .jsonDecodeError => .exits 2 (some .undecidable)
      | .error .valueError => .raised .valueError
      | .error .recursionError => .raised .recursionError := by
  have hzero : ((evalPolicy run).1 != 0) = false := by simp [h]
  show (if (evalPolicy run).1 != 0 then _ else _) = _
  rw [hzero]
  rfl

/-- The exit code of the command means what the gate does exactly on the legible replies. A
process that fails with 1, or is killed, exits as something else than an undecided plan, and
an output refused with a plain `ValueError` ends in a traceback. -/
theorem cmdPolicy_agrees_iff (run : OpaRun) (plan : List (String × Json)) :
    AgreesWithGate (cmdPolicy interpreter run).2 (enforceOpa interpreter run plan) ↔
      Legible interpreter run := by
  by_cases hrc : (evalPolicy run).1 = 0
  · have hlegible : Legible interpreter run ↔
        ∀ e, interpreter.loads (evalPolicy run).2 = .error e → e = .jsonDecodeError := by
      simp [Legible, hrc]
    rw [hlegible, cmdPolicy_of_exited interpreter hrc]
    cases hloads : interpreter.loads (evalPolicy run).2 with
    | ok document =>
      have hstack : interpreter.overruns (evalPolicy run).2 = false := by
        rw [Interpreter.overruns, hloads]
      rw [enforceOpa_of_exited interpreter plan hrc hstack]
      refine ⟨fun _ e he => ?_, fun _ => judgeDocument_agrees interpreter hloads⟩
      cases he
    | error e =>
      obtain ⟨message, hm⟩ := readDecision_of_undecoded interpreter hloads
      cases e with
      | jsonDecodeError =>
        have hstack : interpreter.overruns (evalPolicy run).2 = false := by
          rw [Interpreter.overruns, hloads]
        rw [enforceOpa_of_exited interpreter plan hrc hstack, hm]
        refine ⟨fun _ e he => ?_, fun _ => agreesWithGate_unavailable.mpr rfl⟩
        cases he
        rfl
      | valueError =>
        have hstack : interpreter.overruns (evalPolicy run).2 = false := by
          rw [Interpreter.overruns, hloads]
        rw [enforceOpa_of_exited interpreter plan hrc hstack, hm]
        refine ⟨fun h => ?_, fun h => ?_⟩
        · cases agreesWithGate_unavailable.mp h
        · cases h _ rfl
      | recursionError =>
        have hraised : enforceOpa interpreter run plan = .error (.raised .recursionError) := by
          have hstack : interpreter.overruns (evalPolicy run).2 = true := by
            rw [Interpreter.overruns, hloads]
          rw [enforceOpa, hstack, available_of_returncode hrc, hrc]
          rfl
        rw [hraised]
        refine ⟨fun h => absurd h (not_agreesWithGate_raised rfl), fun h => ?_⟩
        cases h _ rfl
  · obtain ⟨message, hm⟩ := enforceOpa_of_failed interpreter plan hrc
    rw [cmdPolicy_of_failed interpreter hrc, hm, agreesWithGate_unavailable]
    show (evalPolicy run).1 = 2 ↔ _
    simp [Legible, hrc]

/-- An interpreter that decodes nothing. -/
def plainInterpreter : Interpreter where
  loads _ := .error .jsonDecodeError
  repr _ := ""
  str _ := ""

/-- An evaluation that timed out exits as a denied plan does; the gate reports the engine
unavailable, whatever the plan. -/
theorem cmdPolicy_timeout_exits_as_denied :
    (cmdPolicy plainInterpreter (.timedOut "30")).2.code = 1 ∧
      ∀ plan, (∃ message, enforceOpa plainInterpreter (.timedOut "30") plan = unavailable message) ∧
        ¬ AgreesWithGate (cmdPolicy plainInterpreter (.timedOut "30")).2
          (enforceOpa plainInterpreter (.timedOut "30") plan) := by
  refine ⟨rfl, fun plan => ?_⟩
  have hfailed : (evalPolicy (.timedOut "30")).1 ≠ 0 := by decide
  obtain ⟨message, hm⟩ := enforceOpa_of_failed plainInterpreter plan hfailed
  refine ⟨⟨message, hm⟩, ?_⟩
  rw [hm, agreesWithGate_unavailable]
  decide

end MissionCompiler.Policy
