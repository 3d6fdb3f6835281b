import MissionCompiler.Schema.Plan

/-!
# The JSON dump of a plan

`model_dump(mode="json")`: every field of every model in declaration order, an enumeration by
its value and a date of `metadata` by its text. This is the document the policy engines are given.
How a timestamp is spelled is the serialiser's business, and no rule reads it: it is a parameter.
-/

namespace MissionCompiler.Schema

open Lib

/-- An optional field. -/
def dumpOption {α : Type} (dump : α → Json) : Option α → Json
  | some a => dump a
  | none => .null

def dumpStrings (ss : List String) : Json := .arr (ss.map .str)

namespace MetaValue

mutual

/-- A value as it is dumped. -/
def json : MetaValue → Json
  | .null => .null
  | .bool b => .bool b
  | .num n => .num n
  | .str s | .date s | .datetime _ s => .str s
  | .arr items => .arr (jsonItems items)
  | .obj fields => .obj (jsonFields fields)

def jsonItems : List MetaValue → List Json
  | [] => []
  | v :: items => json v :: jsonItems items

def jsonFields : List (String × MetaValue) → List (String × Json)
  | [] => []
  | (key, v) :: fields => (key, json v) :: jsonFields fields

end

mutual

/-- A JSON value, as a decoder builds it. -/
def ofJson : Json → MetaValue
  | .null => .null
  | .bool b => .bool b
  | .num n => .num n
  | .str s => .str s
  | .arr xs => .arr (ofItems xs)
  | .obj kvs => .obj (ofFields kvs)

def ofItems : List Json → List MetaValue
  | [] => []
  | x :: xs => ofJson x :: ofItems xs

def ofFields : List (String × Json) → List (String × MetaValue)
  | [] => []
  | (key, j) :: kvs => (key, ofJson j) :: ofFields kvs

end

theorem jsonItems_eq (items : List MetaValue) : jsonItems items = items.map json := by
  induction items with
  | nil => rfl
  | cons v items ih => rw [jsonItems, ih, List.map_cons]

theorem jsonFields_eq (fields : List (String × MetaValue)) :
    jsonFields fields = fields.map fun e => (e.1, e.2.json) := by
  induction fields with
  | nil => rfl
  | cons e fields ih => rw [jsonFields, ih, List.map_cons]

theorem ofItems_eq (xs : List Json) : ofItems xs = xs.map ofJson := by
  induction xs with
  | nil => rfl
  | cons x xs ih => rw [ofItems, ih, List.map_cons]

theorem ofFields_eq (kvs : List (String × Json)) :
    ofFields kvs = kvs.map fun e => (e.1, ofJson e.2) := by
  induction kvs with
  | nil => rfl
  | cons e kvs ih => rw [ofFields, ih, List.map_cons]

mutual

/-- What is decoded is dumped as what it was decoded from. -/
theorem json_ofJson (j : Json) : (ofJson j).json = j := by
  match j with
  | .null | .bool _ | .num _ | .str _ => rfl
  | .arr xs => exact congrArg Json.arr (jsonItems_ofItems xs)
  | .obj kvs => exact congrArg Json.obj (jsonFields_ofFields kvs)

theorem jsonItems_ofItems (xs : List Json) : jsonItems (ofItems xs) = xs := by
  match xs with
  | [] => rfl
  | x :: xs => rw [ofItems, jsonItems, json_ofJson x, jsonItems_ofItems xs]

theorem jsonFields_ofFields (kvs : List (String × Json)) : jsonFields (ofFields kvs) = kvs := by
  match kvs with
  | [] => rfl
  | (key, j) :: kvs => rw [ofFields, jsonFields, json_ofJson j, jsonFields_ofFields kvs]

end

end MetaValue

def WorkflowStep.dump (step : WorkflowStep) : Json :=
  .obj [("name", .str step.name), ("image", .str step.image),
    ("phase", dumpOption (fun p => .str p.value) step.phase),
    ("resource_class", .str step.resourceClass.value),
    ("fallback_resource_class", dumpOption (fun c => .str c.value) step.fallbackResourceClass),
    ("needs_acceleration", .bool step.needsAcceleration),
    ("command", dumpStrings step.command), ("args", dumpStrings step.args),
    ("metadata", .obj (MetaValue.jsonFields step.metadata)),
    ("preferred_node_selector", .obj (step.preferredNodeSelector.map fun e => (e.1, .str e.2)))]

def AIService.dump (service : AIService) : Json :=
  .obj [("service_id", .str service.serviceId), ("priority", .num (.int service.priority)),
    ("landscape_type", dumpOption .str service.landscapeType),
    ("execution_mode", .str service.executionMode.value),
    ("steps", .arr (service.steps.map WorkflowStep.dump))]

variable (isoformat : Timestamp → String)

def MissionEvent.dump (event : MissionEvent) : Json :=
  .obj [("timestamp", .str (isoformat event.timestamp)),
    ("event_type", .str event.eventType.value),
    ("orbit", dumpOption (fun n => .num (.int n)) event.orbit),
    ("duration_seconds", dumpOption (fun d => .num (.float d)) event.durationSeconds),
    ("instrument", dumpOption .str event.instrument), ("sensor", dumpOption .str event.sensor),
    ("ground_visibility", .bool event.groundVisibility),
    ("region_type", dumpOption .str event.regionType),
    ("services", .arr (event.services.map AIService.dump))]

/-- The dump of a plan is a dict. -/
def MissionPlan.dump (plan : MissionPlan) : List (String × Json) :=
  [("mission_id", .str plan.missionId), ("client_id", dumpOption .str plan.clientId),
    ("events", .arr (plan.events.map (MissionEvent.dump isoformat)))]

/-! ## Dates as texts

The one thing a dump does not tell is whether a text of `metadata` was a date.
-/

def WorkflowStep.written (step : WorkflowStep) : WorkflowStep :=
  { step with metadata := MetaValue.ofFields (MetaValue.jsonFields step.metadata) }

def AIService.written (service : AIService) : AIService :=
  { service with
    steps := service.steps.map WorkflowStep.written
    steps_ne_nil := fun h => service.steps_ne_nil (List.map_eq_nil_iff.mp h) }

def EventFields.written (event : EventFields) : EventFields :=
  { event with services := event.services.map AIService.written }

/-- The model validator does not look into the services. -/
theorem checkEventConstraints_written (event : EventFields) :
    checkEventConstraints event.written = checkEventConstraints event := by
  have hempty : event.written.services.isEmpty = event.services.isEmpty := List.isEmpty_map
  unfold checkEventConstraints
  rw [hempty]
  rfl

def MissionEvent.written (event : MissionEvent) : MissionEvent where
  toEventFields := event.toEventFields.written
  checked := (checkEventConstraints_written _).trans event.checked

/-- The plan with the dates of its `metadata` as texts. -/
def MissionPlan.written (plan : MissionPlan) : MissionPlan :=
  { plan with
    events := plan.events.map MissionEvent.written
    events_ne_nil := fun h => plan.events_ne_nil (List.map_eq_nil_iff.mp h) }

theorem WorkflowStep.dump_written (step : WorkflowStep) : step.written.dump = step.dump := by
  have hmetadata : MetaValue.jsonFields step.written.metadata =
      MetaValue.jsonFields step.metadata := MetaValue.jsonFields_ofFields _
  rw [WorkflowStep.dump, hmetadata]
  rfl

theorem AIService.dump_written (service : AIService) : service.written.dump = service.dump := by
  have hsteps : service.written.steps.map WorkflowStep.dump =
      service.steps.map WorkflowStep.dump := by
    rw [AIService.written, List.map_map]
    exact List.map_congr_left fun step _ => step.dump_written
  rw [AIService.dump, hsteps]
  rfl

variable {isoformat}

theorem MissionEvent.dump_written (event : MissionEvent) :
    event.written.dump isoformat = event.dump isoformat := by
  have hservices : event.written.services.map AIService.dump =
      event.services.map AIService.dump := by
    show (event.services.map AIService.written).map AIService.dump = _
    rw [List.map_map]
    exact List.map_congr_left fun service _ => service.dump_written
  rw [MissionEvent.dump, hservices]
  rfl

/-- The engines are given the same document of both plans. -/
theorem MissionPlan.dump_written (plan : MissionPlan) :
    plan.written.dump isoformat = plan.dump isoformat := by
  have hevents : plan.written.events.map (MissionEvent.dump isoformat) =
      plan.events.map (MissionEvent.dump isoformat) := by
    rw [MissionPlan.written, List.map_map]
    exact List.map_congr_left fun event _ => event.dump_written
  rw [MissionPlan.dump, hevents]
  rfl

end MissionCompiler.Schema
