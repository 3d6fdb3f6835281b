import MissionCompiler.Lib.Json

/-!
# What an admissible document is

The purpose of the policy layer in its own terms, over the raw document and with no engine in
it: which steps, services, events and plans may be admitted. Both engines are compared with
these predicates, and with each other only through them. Blankness of a mission identifier is
a parameter, because the two engines do not strip the same characters.
-/

namespace MissionCompiler.Policy

open Lib

/-- A step may run: an accelerator has the CPU to fall back on, and a CPU step claims no
acceleration. -/
structure StepAdmissible (step : Json) : Prop where
  object : step.isObj = true
  fallback : step.field "resource_class" = .str "gpu" ∨ step.field "resource_class" = .str "fpga" →
    step.field "fallback_resource_class" = .str "cpu"
  acceleration : step.field "resource_class" = .str "cpu" →
    step.field "needs_acceleration" ≠ .bool true

/-- A service may be scheduled: it has a priority other than zero, steps to run, and a
landscape type that is recognized when it is given. -/
structure ServiceAdmissible (svc : Json) : Prop where
  object : svc.isObj = true
  priority : (svc.field "priority").isZero = false
  steps : ∃ steps, svc.field "steps" = .arr steps ∧ steps ≠ [] ∧
    ∀ step ∈ steps, StepAdmissible step
  landscape : svc.field "landscape_type" = .null ∨ svc.field "landscape_type" = .str "ocean" ∨
    svc.field "landscape_type" = .str "land"

/-- No services are declared: the field is absent, null or an empty list. -/
def NoServices (event : Json) : Prop :=
  event.field "services" = .null ∨ event.field "services" = .arr []

/-- An event may be planned: an acquisition has something to run, and a download has nothing
to run and a station in sight. -/
structure EventAdmissible (event : Json) : Prop where
  object : event.isObj = true
  services : event.field "services" = .null ∨ ∃ services, event.field "services" = .arr services ∧
    ∀ svc ∈ services, ServiceAdmissible svc
  acquisition : event.field "event_type" = .str "acquisition" → ¬ NoServices event
  download : event.field "event_type" = .str "download" →
    NoServices event ∧ event.field "ground_visibility" = .bool true

/-- The events of a plan: at least one, and each of them admissible. -/
def EventsAdmissible (plan : Json) : Prop :=
  ∃ events, plan.field "events" = .arr events ∧ events ≠ [] ∧
    ∀ event ∈ events, EventAdmissible event

/-- The mission is named: the identifier is there, and is no blank string. -/
def MissionNamed (blank : String → Bool) (plan : Json) : Prop :=
  plan.field "mission_id" ≠ .null ∧ ∀ s, plan.field "mission_id" = .str s → blank s = false

/-- A plan the policy layer admits. -/
def PlanAdmissible (blank : String → Bool) (plan : Json) : Prop :=
  MissionNamed blank plan ∧ EventsAdmissible plan

end MissionCompiler.Policy
