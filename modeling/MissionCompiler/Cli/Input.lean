import MissionCompiler.Lib.Session
import MissionCompiler.Schema.Plan

/-!
# The plan a command is given

`load_mission_plan`, which every command reads its input through, and the answer of `main` to
an input that is no plan. Reading, parsing and validating are three libraries' work: what each
of them gives or raises is a parameter, and so is what a command does with a plan it has.
-/

namespace MissionCompiler.Cli

open Lib Schema

/-! ## Loading -/

/-- What comes of opening the input path: an `OSError` with its text, or bytes. -/
inductive Input where
  | osError (text : String)
  | content (bytes : List UInt8)

/-- What `yaml.load` raises: a `YAMLError`, or an exception that is none. Its constructors raise
`ValueError` for a timestamp no calendar has and for an integer too long to convert, its
composer `RecursionError`. -/
inductive YamlFailure where
  | yamlError (text : String)
  | raised (e : Exn)

/-- The libraries a plan goes through. A `UnicodeDecodeError` and a `ValidationError` are told
by their texts. -/
structure Libraries (ρ : Type) where
  decode : List UInt8 → Except String String
  load : String → Except YamlFailure ρ
  validate : ρ → Except String MissionPlan

/-- `MissionPlanUnreadable`, `MissionPlanInvalid`, or an exception that is neither. -/
inductive PlanError where
  | unreadable (message : String)
  | invalid (message : String)
  | raised (e : Exn)

variable {ρ σ π α : Type} (libs : Libraries ρ) (path : String)

/-- `Path(path).read_text(encoding="utf-8")`. -/
def readText : Input → Except PlanError String
  | .osError text => .error (.unreadable (path ++ " could not be read: " ++ text))
  | .content bytes => match libs.decode bytes with
    | .ok text => .ok text
    | .error text => .error (.invalid (path ++ " is not UTF-8 text: " ++ text))

/-- `yaml.load(text, Loader=_StrictLoader)`, `YAMLError` being caught. -/
def parseText (text : String) : Except PlanError ρ :=
  match libs.load text with
  | .ok raw => .ok raw
  | .error (.yamlError reason) => .error (.invalid (path ++ " is not valid YAML: " ++ reason))
  | .error (.raised e) => .error (.raised e)

/-- `MissionPlan.model_validate(raw)`. -/
def validatePlan (raw : ρ) : Except PlanError MissionPlan :=
  match libs.validate raw with
  | .ok plan => .ok plan
  | .error reason => .error (.invalid (path ++ " is not a valid mission plan: " ++ reason))

/-- `load_mission_plan`. -/
def loadMissionPlan (input : Input) : Except PlanError MissionPlan := do
  let text ← readText libs path input
  let raw ← parseText libs path text
  validatePlan libs path raw

/-! ## Commands -/

/-- The commands, with the one option that gives a command another body. -/
inductive Subcommand where
  | compile
  | inspect
  | policy
  | renderArgo (argoLint : Bool)
  | renderKueue
deriving DecidableEq, Repr

/-- What a command raises: what loading the plan raised, or something later. -/
inductive Raised (π : Type) where
  | plan (e : PlanError)
  | later (problem : π)

/-- What each command does once it has a plan. -/
abbrev Bodies (σ π α : Type) := Subcommand → MissionPlan → Session σ (Raised π) α

variable (bodies : Bodies σ π α) (input : Input)

/-- The first step of every command, before it writes, locks or stages anything. -/
def withPlan (body : MissionPlan → Session σ (Raised π) α) : Session σ (Raised π) α := do
  let plan ← Session.lift .plan (loadMissionPlan libs path input)
  body plan

def cmdCompile : Session σ (Raised π) α := withPlan libs path input (bodies .compile)

def cmdInspect : Session σ (Raised π) α := withPlan libs path input (bodies .inspect)

def cmdPolicy : Session σ (Raised π) α := withPlan libs path input (bodies .policy)

def renderArgoWithLintGate : Session σ (Raised π) α :=
  withPlan libs path input (bodies (.renderArgo true))

def cmdRenderArgo (argoLint : Bool) : Session σ (Raised π) α :=
  if argoLint then renderArgoWithLintGate libs path bodies input
  else withPlan libs path input (bodies (.renderArgo false))

def cmdRenderKueue : Session σ (Raised π) α := withPlan libs path input (bodies .renderKueue)

/-- `args.func`. -/
def Subcommand.func : Subcommand → Session σ (Raised π) α
  | .compile => cmdCompile libs path bodies input
  | .inspect => cmdInspect libs path bodies input
  | .policy => cmdPolicy libs path bodies input
  | .renderArgo argoLint => cmdRenderArgo libs path bodies input argoLint
  | .renderKueue => cmdRenderKueue libs path bodies input

/-! ## Answers -/

/-- A report of status `error` on standard error. -/
structure ErrorReport where
  reason : String
  error : String
  hint : String

/-- How the program ends: as the command did, in a report with an exit code, or in a traceback,
which exits 1. -/
inductive Answer (π α : Type) where
  | done (result : α)
  | later (problem : π)
  | exits (code : Nat) (report : ErrorReport)
  | traceback (e : Exn)

/-- The handlers of `main` for what loading a plan raises. -/
def answerPlanError : PlanError → Answer π α
  | .unreadable message => .exits 2 ⟨"input_unreadable", message,
      "check the --input path exists, is a file, and is readable"⟩
  | .invalid message => .exits 1 ⟨"input_invalid", message,
      "validate the plan against docs/ and configs/mission_plans/"⟩
  | .raised e => .traceback e

def answer : Except (Raised π) α → Answer π α
  | .ok result => .done result
  | .error (.plan e) => answerPlanError e
  | .error (.later problem) => .later problem

/-- `main`. -/
def main (command : Subcommand) (world : σ) : Answer π α × σ :=
  let (result, world) := command.func libs path bodies input world
  (answer result, world)

/-! ## What an unusable plan is answered with -/

/-- The three outcomes an input may have, and the two answers every command may give to an input
that is no plan, without touching anything. -/
structure TypedAnswers : Prop where
  loaded : (∃ plan, loadMissionPlan libs path input = .ok plan) ∨
    (∃ message, loadMissionPlan libs path input = .error (.unreadable message)) ∨
    ∃ message, loadMissionPlan libs path input = .error (.invalid message)
  unreadable : (∃ message, loadMissionPlan libs path input = .error (.unreadable message)) ↔
    ∃ text, input = .osError text
  answered : (∃ plan, loadMissionPlan libs path input = .ok plan) ∨
    ∀ (command : Subcommand) (world : σ), ∃ code report,
      main libs path bodies input command world = (.exits code report, world) ∧
        ((∃ text, input = .osError text) ∧ code = 2 ∧ report.reason = "input_unreadable" ∨
          (¬ ∃ text, input = .osError text) ∧ code = 1 ∧ report.reason = "input_invalid")

/-- The input is text on which the YAML loader raises an exception of its own. -/
def EscapesLoader : Prop :=
  ∃ bytes text e, input = .content bytes ∧ libs.decode bytes = .ok text ∧
    libs.load text = .error (.raised e)

theorem loadMissionPlan_osError (text : String) :
    loadMissionPlan libs path (.osError text) =
      .error (.unreadable (path ++ " could not be read: " ++ text)) := rfl

/-- What loading a file that could be opened comes to. -/
theorem loadMissionPlan_content (bytes : List UInt8) :
    (∃ plan, loadMissionPlan libs path (.content bytes) = .ok plan) ∨
      (∃ message, loadMissionPlan libs path (.content bytes) = .error (.invalid message)) ∨
      EscapesLoader libs (.content bytes) ∧
        ∃ e, loadMissionPlan libs path (.content bytes) = .error (.raised e) := by
  show (∃ plan, (readText libs path _ >>= _) = _) ∨ (∃ message, (readText libs path _ >>= _) = _) ∨
    _ ∧ ∃ e, (readText libs path _ >>= _) = _
  rw [readText]
  cases hdecode : libs.decode bytes with
  | error reason => exact .inr (.inl ⟨_, rfl⟩)
  | ok text =>
    show (∃ plan, (parseText libs path text >>= _) = _) ∨
      (∃ message, (parseText libs path text >>= _) = _) ∨
      _ ∧ ∃ e, (parseText libs path text >>= _) = _
    rw [parseText]
    cases hload : libs.load text with
    | error failure =>
      cases failure with
      | yamlError reason => exact .inr (.inl ⟨_, rfl⟩)
      | raised e => exact .inr (.inr ⟨⟨bytes, text, e, rfl, hdecode, hload⟩, e, rfl⟩)
    | ok raw =>
      show (∃ plan, validatePlan libs path raw = _) ∨ (∃ message, validatePlan libs path raw = _) ∨
        _ ∧ ∃ e, validatePlan libs path raw = _
      rw [validatePlan]
      cases libs.validate raw with
      | ok plan => exact .inl ⟨plan, rfl⟩
      | error reason => exact .inr (.inl ⟨_, rfl⟩)

/-- An exception of the loader's own leaves `load_mission_plan` as it is. -/
theorem loadMissionPlan_of_escapes (h : EscapesLoader libs input) :
    ∃ e, loadMissionPlan libs path input = .error (.raised e) := by
  obtain ⟨bytes, text, e, rfl, hdecode, hload⟩ := h
  refine ⟨e, ?_⟩
  rw [loadMissionPlan, readText, hdecode]
  show (parseText libs path text >>= _) = _
  rw [parseText, hload]
  rfl

/-- Every command stops at a plan it could not load, where it found the world. -/
theorem main_of_loadError {e : PlanError} (h : loadMissionPlan libs path input = .error e)
    (command : Subcommand) (world : σ) :
    main libs path bodies input command world = (answerPlanError e, world) := by
  have hstop : ∀ body : MissionPlan → Session σ (Raised π) α,
      withPlan libs path input body world = (.error (.plan e), world) := by
    intro body
    rw [withPlan, h]
    rfl
  have hfunc : command.func libs path bodies input world = (.error (.plan e), world) := by
    cases command with
    | compile => exact hstop _
    | inspect => exact hstop _
    | policy => exact hstop _
    | renderArgo argoLint =>
      cases argoLint with
      | true => exact hstop _
      | false => exact hstop _
    | renderKueue => exact hstop _
  rw [main, hfunc]
  rfl

variable {libs path bodies input} in
/-- An exception of another kind is none of the three outcomes. -/
theorem TypedAnswers.not_raised (htyped : TypedAnswers libs path bodies input) (e : Exn) :
    loadMissionPlan libs path input ≠ .error (.raised e) := by
  intro hload
  have hcases := htyped.loaded
  rw [hload] at hcases
  rcases hcases with ⟨plan, h⟩ | ⟨message, h⟩ | ⟨message, h⟩
  · cases h
  · cases h
  · cases h

/-- An unusable plan is a typed answer of every command exactly when the YAML loader raised
nothing but its own error type on the text. -/
theorem unusable_plan_typed_iff :
    TypedAnswers libs path bodies input ↔ ¬ EscapesLoader libs input := by
  constructor
  · intro htyped hescapes
    obtain ⟨e, he⟩ := loadMissionPlan_of_escapes libs path input hescapes
    exact htyped.not_raised e he
  · intro hnot
    cases input with
    | osError text =>
      have hload := loadMissionPlan_osError libs path text
      refine ⟨.inr (.inl ⟨_, hload⟩), ⟨fun _ => ⟨text, rfl⟩, fun _ => ⟨_, hload⟩⟩, .inr ?_⟩
      intro command world
      refine ⟨2, _, main_of_loadError libs path bodies _ hload command world, .inl ?_⟩
      exact ⟨⟨text, rfl⟩, rfl, rfl⟩
    | content bytes =>
      have hopened : ¬ ∃ text, Input.content bytes = .osError text := by
        intro ⟨text, h⟩
        cases h
      rcases loadMissionPlan_content libs path bytes with
        ⟨plan, hload⟩ | ⟨message, hload⟩ | ⟨hescapes, _⟩
      · refine ⟨.inl ⟨plan, hload⟩, ⟨fun ⟨message, h⟩ => ?_, fun h => absurd h hopened⟩,
          .inl ⟨plan, hload⟩⟩
        rw [hload] at h
        cases h
      · refine ⟨.inr (.inr ⟨message, hload⟩), ⟨fun ⟨_, h⟩ => ?_, fun h => absurd h hopened⟩,
          .inr ?_⟩
        · rw [hload] at h
          cases h
        · intro command world
          refine ⟨1, _, main_of_loadError libs path bodies _ hload command world, .inr ?_⟩
          exact ⟨hopened, rfl, rfl⟩
      · exact absurd hescapes hnot

/-- A file that says `2024-13-45` and nothing else. -/
def impossibleDate : Input := .content [50, 48, 50, 52, 45, 49, 51, 45, 52, 53]

/-- Libraries that read ASCII, and find no date in that text. -/
def asciiLibraries : Libraries Unit where
  decode bytes := .ok (String.ofList (bytes.map fun b => Char.ofNat b.toNat))
  load text :=
    if text = "2024-13-45" then .error (.raised .valueError) else .error (.yamlError "")
  validate _ := .error ""

/-- Commands that do nothing with a plan. -/
def idleBodies : Bodies Unit Unit Unit := fun _ _ => pure ()

/-- The timestamp constructor's `ValueError` passes `load_mission_plan` and every handler of
`main`. -/
theorem impossible_date_is_a_traceback :
    loadMissionPlan asciiLibraries "plan.yaml" impossibleDate = .error (.raised .valueError) ∧
      main asciiLibraries "plan.yaml" idleBodies impossibleDate .renderKueue () =
        (.traceback .valueError, ()) ∧
      ¬ TypedAnswers asciiLibraries "plan.yaml" idleBodies impossibleDate := by
  have hload : loadMissionPlan asciiLibraries "plan.yaml" impossibleDate =
      .error (.raised .valueError) := rfl
  have hmain := main_of_loadError asciiLibraries "plan.yaml" idleBodies _ hload .renderKueue ()
  exact ⟨hload, hmain, fun htyped => htyped.not_raised _ hload⟩

end MissionCompiler.Cli
