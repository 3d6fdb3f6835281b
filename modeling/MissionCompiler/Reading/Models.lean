import MissionCompiler.Reading.Document

/-!
# Reading a plan

The models of `schemas.py`, as they read a document: the fields of each in their order, with their
defaults and validators, and then the keys that are none of them.
-/

namespace MissionCompiler.Reading

open Lib Schema

variable {ι : Type} [DecidableEq ι] (conv : Conversions) (doc : Document ι)

/-! ## Enumerations -/

def readPhase : Value ι → Read StepPhase :=
  readEnum [.preprocessing, .ai, .postprocessing] StepPhase.value

def readResourceClass : Value ι → Read ResourceClass :=
  readEnum [.cpu, .gpu, .fpga] ResourceClass.value

def readEventType : Value ι → Read MissionEventType :=
  readEnum [.acquisition, .download] MissionEventType.value

def readExecutionMode : Value ι → Read ExecutionMode :=
  readEnum [.sequential, .parallel] ExecutionMode.value

/-! ## Models -/

/-- A field whose value is read by itself. -/
def scalar {α : Type} (read : Value ι → Read α) (n : ι) : Read α := read (doc.value n)

def stepFields : List String :=
  ["name", "image", "phase", "resource_class", "fallback_resource_class", "needs_acceleration",
    "command", "args", "metadata", "preferred_node_selector"]

def makeStep (name image : {s : String // pyBlank s = false}) (phase : Option StepPhase)
    (resourceClass : ResourceClass) (fallbackResourceClass : Option ResourceClass)
    (needsAcceleration : Bool) (command args : List String) (metadata : List (String × MetaValue))
    (preferredNodeSelector : List (String × String)) : WorkflowStep where
  name := name.val
  image := image.val
  phase := phase
  resourceClass := resourceClass
  fallbackResourceClass := fallbackResourceClass
  needsAcceleration := needsAcceleration
  command := command
  args := args
  metadata := metadata
  preferredNodeSelector := preferredNodeSelector
  name_notBlank := name.property
  image_notBlank := image.property

/-- `name` and `image` of a step, `service_id` and `mission_id`. -/
def readIdentifier (field : String) (v : Value ι) : Read {s : String // pyBlank s = false} :=
  checked (notBlank field) (readText v)

/-- `WorkflowStep`. -/
def readStep : ι → Read WorkflowStep :=
  readModel doc stepFields fun entries =>
    makeStep <$> required entries "name" (scalar doc (readIdentifier "name"))
      <*> required entries "image" (scalar doc (readIdentifier "image"))
      <*> defaulted entries "phase" none (scalar doc (readOptional readPhase))
      <*> defaulted entries "resource_class" .cpu (scalar doc readResourceClass)
      <*> defaulted entries "fallback_resource_class" none
        (scalar doc (readOptional readResourceClass))
      <*> defaulted entries "needs_acceleration" false (scalar doc readStrictBool)
      <*> defaulted entries "command" [] (readTexts doc)
      <*> defaulted entries "args" [] (readTexts doc)
      <*> defaulted entries "metadata" [] (readMetadata conv doc)
      <*> defaulted entries "preferred_node_selector" [] (readSelector conv doc)

def serviceFields : List String :=
  ["service_id", "priority", "landscape_type", "execution_mode", "steps"]

def makeService (serviceId : {s : String // pyBlank s = false}) (priority : {n : Nat // n ≤ 100})
    (landscapeType : Option String) (executionMode : ExecutionMode)
    (steps : {steps : List WorkflowStep // steps ≠ []}) : AIService where
  serviceId := serviceId.val
  priority := priority.val
  landscapeType := landscapeType
  executionMode := executionMode
  steps := steps.val
  serviceId_notBlank := serviceId.property
  priority_le := priority.property
  steps_ne_nil := steps.property

/-- `AIService`. -/
def readService : ι → Read AIService :=
  readModel doc serviceFields fun entries =>
    makeService <$> required entries "service_id" (scalar doc (readIdentifier "service_id"))
      <*> required entries "priority" (scalar doc (readPriority conv))
      <*> defaulted entries "landscape_type" none (scalar doc (readOptional readText))
      <*> defaulted entries "execution_mode" .sequential (scalar doc readExecutionMode)
      <*> required entries "steps" fun n => (readList doc (readStep conv doc) n).andThen nonempty

def eventFields : List String :=
  ["timestamp", "event_type", "orbit", "duration_seconds", "instrument", "sensor",
    "ground_visibility", "region_type", "services"]

def makeEventFields (timestamp : Timestamp) (eventType : MissionEventType) (orbit : Option Nat)
    (durationSeconds : Option {d : Rat // 0 ≤ d}) (instrument sensor : Option String)
    (groundVisibility : Bool) (regionType : Option String) (services : List AIService) :
    EventFields where
  timestamp := timestamp
  eventType := eventType
  orbit := orbit
  durationSeconds := durationSeconds.map Subtype.val
  instrument := instrument
  sensor := sensor
  groundVisibility := groundVisibility
  regionType := regionType
  services := services
  duration_nonneg := by
    intro d hd
    obtain ⟨duration, -, rfl⟩ := Option.mem_map.mp hd
    exact duration.property

/-- The fields of a `MissionEvent`. -/
def readEventFields : ι → Read EventFields :=
  readModel doc eventFields fun entries =>
    makeEventFields <$> required entries "timestamp" (scalar doc (readTimestamp conv))
      <*> required entries "event_type" (scalar doc readEventType)
      <*> defaulted entries "orbit" none (scalar doc (readOrbit conv))
      <*> defaulted entries "duration_seconds" none (scalar doc (readDuration conv))
      <*> defaulted entries "instrument" none (scalar doc (readOptional readText))
      <*> defaulted entries "sensor" none (scalar doc (readOptional readText))
      <*> defaulted entries "ground_visibility" false (scalar doc readStrictBool)
      <*> defaulted entries "region_type" none (scalar doc (readOptional readText))
      <*> defaulted entries "services" [] (readList doc (readService conv doc))

/-- An event whose fields pass the model validator, which runs after they are read. -/
def checkedEvent (fields : EventFields) : Except String MissionEvent :=
  match h : checkEventConstraints fields with
  | .ok () => .ok ⟨fields, h⟩
  | .error text => .error text

/-- `MissionEvent`. -/
def readEvent (n : ι) : Read MissionEvent := checked checkedEvent (readEventFields conv doc n)

def planFields : List String := ["mission_id", "client_id", "events"]

def makePlan (missionId : {s : String // pyBlank s = false}) (clientId : Option String)
    (events : {events : List MissionEvent // events ≠ []}) : MissionPlan where
  missionId := missionId.val
  clientId := clientId
  events := events.val
  missionId_notBlank := missionId.property
  events_ne_nil := events.property

/-- `MissionPlan.model_validate(raw)`. -/
def readPlan : ι → Read MissionPlan :=
  readModel doc planFields fun entries =>
    makePlan <$> required entries "mission_id" (scalar doc (readIdentifier "mission_id"))
      <*> defaulted entries "client_id" none (scalar doc (readOptional readText))
      <*> required entries "events" fun n => (readList doc (readEvent conv doc) n).andThen nonempty

/-! ## What is read -/

section

variable {conv doc} {n : ι}

/-- The fields of a step are what its entries are read as. -/
structure ReadsStep (conv : Conversions) (doc : Document ι) (entries : List (DictKey × ι))
    (step : WorkflowStep) : Prop where
  name : required entries "name" (scalar doc (readIdentifier "name")) =
    .ok ⟨step.name, step.name_notBlank⟩
  image : required entries "image" (scalar doc (readIdentifier "image")) =
    .ok ⟨step.image, step.image_notBlank⟩
  phase : defaulted entries "phase" none (scalar doc (readOptional readPhase)) = .ok step.phase
  resourceClass : defaulted entries "resource_class" .cpu (scalar doc readResourceClass) =
    .ok step.resourceClass
  fallbackResourceClass : defaulted entries "fallback_resource_class" none
    (scalar doc (readOptional readResourceClass)) = .ok step.fallbackResourceClass
  needsAcceleration : defaulted entries "needs_acceleration" false (scalar doc readStrictBool) =
    .ok step.needsAcceleration
  command : defaulted entries "command" [] (readTexts doc) = .ok step.command
  args : defaulted entries "args" [] (readTexts doc) = .ok step.args
  metadata : defaulted entries "metadata" [] (readMetadata conv doc) = .ok step.metadata
  preferredNodeSelector : defaulted entries "preferred_node_selector" [] (readSelector conv doc) =
    .ok step.preferredNodeSelector

theorem readStep_eq_ok {step : WorkflowStep} :
    readStep conv doc n = .ok step ↔ ∃ entries, doc.value n = .dict entries ∧
      ReadsStep conv doc entries step ∧ ∀ e ∈ entries, ∃ s ∈ stepFields, e.1 = .str s := by
  rw [readStep, readModel_eq_ok]
  refine exists_congr fun entries => and_congr_right fun _ => and_congr_left fun _ => ?_
  constructor
  · intro h
    simp only [Validated.seq_eq_ok, Validated.map_eq_ok] at h
    obtain ⟨_, ⟨_, ⟨_, ⟨_, ⟨_, ⟨_, ⟨_, ⟨_, ⟨_, ⟨name, hname, rfl⟩, image, himage, rfl⟩, phase,
      hphase, rfl⟩, resourceClass, hclass, rfl⟩, fallback, hfallback, rfl⟩, acceleration,
      hacceleration, rfl⟩, command, hcommand, rfl⟩, args, hargs, rfl⟩, metadata, hmetadata, rfl⟩,
      selector, hselector, rfl⟩ := h
    exact ⟨hname, himage, hphase, hclass, hfallback, hacceleration, hcommand, hargs, hmetadata,
      hselector⟩
  · intro h
    rw [h.name, h.image, h.phase, h.resourceClass, h.fallbackResourceClass, h.needsAcceleration,
      h.command, h.args, h.metadata, h.preferredNodeSelector]
    rfl

/-- The fields of a service are what its entries are read as. -/
structure ReadsService (conv : Conversions) (doc : Document ι) (entries : List (DictKey × ι))
    (service : AIService) : Prop where
  serviceId : required entries "service_id" (scalar doc (readIdentifier "service_id")) =
    .ok ⟨service.serviceId, service.serviceId_notBlank⟩
  priority : required entries "priority" (scalar doc (readPriority conv)) =
    .ok ⟨service.priority, service.priority_le⟩
  landscapeType : defaulted entries "landscape_type" none (scalar doc (readOptional readText)) =
    .ok service.landscapeType
  executionMode : defaulted entries "execution_mode" .sequential (scalar doc readExecutionMode) =
    .ok service.executionMode
  steps : required entries "steps"
    (fun n => (readList doc (readStep conv doc) n).andThen nonempty) =
      .ok ⟨service.steps, service.steps_ne_nil⟩

theorem readService_eq_ok {service : AIService} :
    readService conv doc n = .ok service ↔ ∃ entries, doc.value n = .dict entries ∧
      ReadsService conv doc entries service ∧ ∀ e ∈ entries, ∃ s ∈ serviceFields, e.1 = .str s := by
  rw [readService, readModel_eq_ok]
  refine exists_congr fun entries => and_congr_right fun _ => and_congr_left fun _ => ?_
  constructor
  · intro h
    simp only [Validated.seq_eq_ok, Validated.map_eq_ok] at h
    obtain ⟨_, ⟨_, ⟨_, ⟨_, ⟨serviceId, hid, rfl⟩, priority, hpriority, rfl⟩, landscape, hlandscape,
      rfl⟩, mode, hmode, rfl⟩, steps, hsteps, rfl⟩ := h
    exact ⟨hid, hpriority, hlandscape, hmode, hsteps⟩
  · intro h
    rw [h.serviceId, h.priority, h.landscapeType, h.executionMode, h.steps]
    rfl

/-- The fields of an event are what its entries are read as. -/
structure ReadsEvent (conv : Conversions) (doc : Document ι) (entries : List (DictKey × ι))
    (event : EventFields) : Prop where
  timestamp : required entries "timestamp" (scalar doc (readTimestamp conv)) = .ok event.timestamp
  eventType : required entries "event_type" (scalar doc readEventType) = .ok event.eventType
  orbit : defaulted entries "orbit" none (scalar doc (readOrbit conv)) = .ok event.orbit
  durationSeconds : ∃ d, defaulted entries "duration_seconds" none
    (scalar doc (readDuration conv)) = .ok d ∧ d.map Subtype.val = event.durationSeconds
  instrument : defaulted entries "instrument" none (scalar doc (readOptional readText)) =
    .ok event.instrument
  sensor : defaulted entries "sensor" none (scalar doc (readOptional readText)) = .ok event.sensor
  groundVisibility : defaulted entries "ground_visibility" false (scalar doc readStrictBool) =
    .ok event.groundVisibility
  regionType : defaulted entries "region_type" none (scalar doc (readOptional readText)) =
    .ok event.regionType
  services : defaulted entries "services" [] (readList doc (readService conv doc)) =
    .ok event.services

theorem readEventFields_eq_ok {event : EventFields} :
    readEventFields conv doc n = .ok event ↔ ∃ entries, doc.value n = .dict entries ∧
      ReadsEvent conv doc entries event ∧ ∀ e ∈ entries, ∃ s ∈ eventFields, e.1 = .str s := by
  rw [readEventFields, readModel_eq_ok]
  refine exists_congr fun entries => and_congr_right fun _ => and_congr_left fun _ => ?_
  constructor
  · intro h
    simp only [Validated.seq_eq_ok, Validated.map_eq_ok] at h
    obtain ⟨_, ⟨_, ⟨_, ⟨_, ⟨_, ⟨_, ⟨_, ⟨_, ⟨timestamp, htimestamp, rfl⟩, eventType, htype, rfl⟩,
      orbit, horbit, rfl⟩, duration, hduration, rfl⟩, instrument, hinstrument, rfl⟩, sensor,
      hsensor, rfl⟩, visible, hvisible, rfl⟩, region, hregion, rfl⟩, services, hservices, rfl⟩ := h
    exact ⟨htimestamp, htype, horbit, ⟨duration, hduration, rfl⟩, hinstrument, hsensor, hvisible,
      hregion, hservices⟩
  · intro h
    obtain ⟨duration, hduration, hval⟩ := h.durationSeconds
    rw [h.timestamp, h.eventType, h.orbit, hduration, h.instrument, h.sensor, h.groundVisibility,
      h.regionType, h.services]
    obtain ⟨_, _, _, _, _, _, _, _, _, _⟩ := event
    subst hval
    rfl

theorem checkedEvent_eq_ok {fields : EventFields} {event : MissionEvent} :
    checkedEvent fields = .ok event ↔ event.toEventFields = fields := by
  unfold checkedEvent
  split
  · next hok =>
    constructor
    · intro h
      cases h
      rfl
    · intro h
      subst h
      rfl
  · next text herror =>
    refine iff_of_false (fun h => by cases h) fun h => ?_
    rw [← h, event.checked] at herror
    cases herror

theorem readEvent_eq_ok {event : MissionEvent} :
    readEvent conv doc n = .ok event ↔ readEventFields conv doc n = .ok event.toEventFields := by
  rw [readEvent, checked_eq_ok]
  constructor
  · intro ⟨fields, hfields, hevent⟩
    rw [checkedEvent_eq_ok.mp hevent]
    exact hfields
  · intro h
    exact ⟨_, h, checkedEvent_eq_ok.mpr rfl⟩

/-- The fields of a plan are what its entries are read as. -/
structure ReadsPlan (conv : Conversions) (doc : Document ι) (entries : List (DictKey × ι))
    (plan : MissionPlan) : Prop where
  missionId : required entries "mission_id" (scalar doc (readIdentifier "mission_id")) =
    .ok ⟨plan.missionId, plan.missionId_notBlank⟩
  clientId : defaulted entries "client_id" none (scalar doc (readOptional readText)) =
    .ok plan.clientId
  events : required entries "events"
    (fun n => (readList doc (readEvent conv doc) n).andThen nonempty) =
      .ok ⟨plan.events, plan.events_ne_nil⟩

theorem readPlan_eq_ok {plan : MissionPlan} :
    readPlan conv doc n = .ok plan ↔ ∃ entries, doc.value n = .dict entries ∧
      ReadsPlan conv doc entries plan ∧ ∀ e ∈ entries, ∃ s ∈ planFields, e.1 = .str s := by
  rw [readPlan, readModel_eq_ok]
  refine exists_congr fun entries => and_congr_right fun _ => and_congr_left fun _ => ?_
  constructor
  · intro h
    simp only [Validated.seq_eq_ok, Validated.map_eq_ok] at h
    obtain ⟨_, ⟨_, ⟨missionId, hid, rfl⟩, clientId, hclient, rfl⟩, events, hevents, rfl⟩ := h
    exact ⟨hid, hclient, hevents⟩
  · intro h
    rw [h.missionId, h.clientId, h.events]
    rfl

end

end MissionCompiler.Reading
