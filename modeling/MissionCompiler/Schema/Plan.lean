import MissionCompiler.Lib.Json

/-!
# Mission plans

The models of `schemas.py`. A field validator that the rest of the program relies on is a field
of the structure that states what it guarantees, so a plan that the schema refuses cannot be
built: identifiers are not blank, a priority is at most 100, a service has steps and a plan has
events. `check_event_constraints` is modelled as it runs, and an event carries the fact that it
passed.

`metadata` is held as the tree of values it unfolds to, and the two validators that walk `metadata`
and `preferred_node_selector` are modelled on their own and are no fields of a step: nothing here
relies on them, and every statement about plans is about more plans for it.
-/

namespace MissionCompiler.Schema

open Lib

inductive ResourceClass where
  | cpu
  | gpu
  | fpga
deriving DecidableEq, Repr

def ResourceClass.value : ResourceClass → String
  | .cpu => "cpu"
  | .gpu => "gpu"
  | .fpga => "fpga"

inductive MissionEventType where
  | acquisition
  | download
deriving DecidableEq, Repr

def MissionEventType.value : MissionEventType → String
  | .acquisition => "acquisition"
  | .download => "download"

inductive StepPhase where
  | preprocessing
  | ai
  | postprocessing
deriving DecidableEq, Repr

def StepPhase.value : StepPhase → String
  | .preprocessing => "preprocessing"
  | .ai => "ai"
  | .postprocessing => "postprocessing"

inductive ExecutionMode where
  | sequential
  | parallel
deriving DecidableEq, Repr

def ExecutionMode.value : ExecutionMode → String
  | .sequential => "sequential"
  | .parallel => "parallel"

/-- An aware datetime whose offset from UTC is a whole number of minutes. -/
structure Timestamp where
  year : Nat
  month : Nat
  day : Nat
  hour : Nat
  minute : Nat
  second : Nat
  microsecond : Nat
  offsetMinutes : Int
  year_pos : 1 ≤ year
  year_le : year ≤ 9999
  month_pos : 1 ≤ month
  month_le : month ≤ 12
  day_pos : 1 ≤ day
  day_le : day ≤ 31
  hour_lt : hour < 24
  minute_lt : minute < 60
  second_lt : second < 60
  microsecond_lt : microsecond < 1000000
  offset_gt : -1440 < offsetMinutes
  offset_lt : offsetMinutes < 1440
deriving DecidableEq

/-- A value of `metadata`: JSON, and the dates a YAML loader builds besides. A date carries what it
is written as, and a datetime its timestamp where it has an offset. -/
inductive MetaValue where
  | null
  | bool (b : Bool)
  | num (n : Number)
  | str (s : String)
  | date (text : String)
  | datetime (aware : Option Timestamp) (text : String)
  | arr (items : List MetaValue)
  | obj (fields : List (String × MetaValue))

structure WorkflowStep where
  name : String
  image : String
  phase : Option StepPhase
  resourceClass : ResourceClass
  fallbackResourceClass : Option ResourceClass
  needsAcceleration : Bool
  command : List String
  args : List String
  metadata : List (String × MetaValue)
  preferredNodeSelector : List (String × String)
  name_notBlank : pyBlank name = false
  image_notBlank : pyBlank image = false

structure AIService where
  serviceId : String
  priority : Nat
  landscapeType : Option String
  executionMode : ExecutionMode
  steps : List WorkflowStep
  serviceId_notBlank : pyBlank serviceId = false
  priority_le : priority ≤ 100
  steps_ne_nil : steps ≠ []

/-- The fields of an event, before the model validator has seen them. -/
structure EventFields where
  timestamp : Timestamp
  eventType : MissionEventType
  orbit : Option Nat
  durationSeconds : Option Rat
  instrument : Option String
  sensor : Option String
  groundVisibility : Bool
  regionType : Option String
  services : List AIService
  duration_nonneg : ∀ d ∈ durationSeconds, 0 ≤ d

/-- An event that gives no duration gives none that is negative. -/
theorem none_duration_nonneg : ∀ d ∈ (none : Option Rat), 0 ≤ d :=
  fun d hd => absurd hd (Option.not_mem_none d)

/-- `not value or not value.strip()` of an optional string. -/
def absentOrBlank (value : Option String) : Bool :=
  match value with
  | none => true
  | some s => pyBlank s

/-- `check_event_constraints`; the error is the text of the `ValueError`. -/
def checkEventConstraints (event : EventFields) : Except String Unit := do
  if event.eventType = .acquisition then
    if absentOrBlank event.instrument then
      .error "acquisition events must specify an instrument (slide 9: INST)"
  if event.eventType = .download then
    if event.durationSeconds.isNone then
      .error ("download events must specify duration_seconds " ++
        "(slide 9: DT_EV transmission window)")
    if !event.services.isEmpty then
      .error "download events must not declare AI services (slide 9: DOWNLOAD has no WORKFLOW)"
    if !event.groundVisibility then
      .error "download events require ground_visibility=true (slide 9: DOWNLOAD VISI=1)"
  return ()

structure MissionEvent extends EventFields where
  checked : checkEventConstraints toEventFields = .ok ()

structure MissionPlan where
  missionId : String
  clientId : Option String
  events : List MissionEvent
  missionId_notBlank : pyBlank missionId = false
  events_ne_nil : events ≠ []

/-- What the model validator guarantees of a download. -/
theorem MissionEvent.download_fields (event : MissionEvent) (h : event.eventType = .download) :
    event.durationSeconds.isSome = true ∧ event.services = [] ∧
      event.groundVisibility = true := by
  have hchecked := event.checked
  unfold checkEventConstraints at hchecked
  rw [h] at hchecked
  cases hd : event.durationSeconds with
  | none => rw [hd] at hchecked; cases hchecked
  | some d =>
    cases hs : event.services with
    | cons s ss => rw [hd, hs] at hchecked; cases hchecked
    | nil =>
      cases hg : event.groundVisibility with
      | false => rw [hd, hs, hg] at hchecked; cases hchecked
      | true => exact ⟨rfl, rfl, rfl⟩

end MissionCompiler.Schema
