import MissionCompiler.Lib.Enumerate
import MissionCompiler.Lib.Pointer
import MissionCompiler.Policy.Baseline
import MissionCompiler.Schema.Plan

/-!
# What can be found in a plan the schema accepts

The violations of a typed plan, read off its models instead of off a document: five rules are
left, one finding for each offending node, located by the segments of its path. How a name is
quoted is a parameter, so that the findings of either engine are an instance of one list, and
what does not depend on quoting (`findings_keys`) or on the engine (`keys_nodup`) is said once.
-/

namespace MissionCompiler.Policy

open Lib Schema

/-! ## Places -/

def eventAt (i : Nat) : List String := ["events", toString i]

def servicesAt (i : Nat) : List String := eventAt i ++ ["services"]

def serviceAt (i j : Nat) : List String := servicesAt i ++ [toString j]

def stepAt (i j k : Nat) : List String := serviceAt i j ++ ["steps", toString k]

theorem pointer_eventAt (i : Nat) : pointer (eventAt i) = "/events/" ++ toString i := by
  rw [← String.toList_inj]
  simp [pointer, eventAt]

theorem pointer_servicesAt (i : Nat) :
    pointer (servicesAt i) = "/events/" ++ toString i ++ "/services" := by
  rw [← pointer_eventAt, servicesAt, pointer_append]
  rfl

theorem pointer_serviceAt (i j : Nat) :
    pointer (serviceAt i j) = "/events/" ++ toString i ++ "/services/" ++ toString j := by
  rw [← String.toList_inj]
  simp [pointer, serviceAt, servicesAt, eventAt]

theorem pointer_stepAt (i j k : Nat) :
    pointer (stepAt i j k) = pointer (serviceAt i j) ++ "/steps/" ++ toString k := by
  rw [← String.toList_inj]
  simp [pointer, stepAt]

theorem plain_eventAt (i : Nat) : Plain (eventAt i) := by
  simp only [Plain, eventAt, List.forall_mem_cons, List.not_mem_nil, false_implies, implies_true,
    and_true]
  exact ⟨by decide, slash_not_mem_toString i⟩

theorem plain_servicesAt (i : Nat) : Plain (servicesAt i) := by
  intro s hs
  rcases List.mem_append.mp hs with hs | hs
  · exact plain_eventAt i s hs
  · rw [List.mem_singleton.mp hs]
    decide

theorem plain_serviceAt (i j : Nat) : Plain (serviceAt i j) := by
  intro s hs
  rcases List.mem_append.mp hs with hs | hs
  · exact plain_servicesAt i s hs
  · rw [List.mem_singleton.mp hs]
    exact slash_not_mem_toString j

theorem plain_stepAt (i j k : Nat) : Plain (stepAt i j k) := by
  intro s hs
  rcases List.mem_append.mp hs with hs | hs
  · exact plain_serviceAt i j s hs
  · rcases List.mem_cons.mp hs with rfl | hs
    · decide
    · rw [List.mem_singleton.mp hs]
      exact slash_not_mem_toString k

/-! ## Findings -/

/-- A finding of a rule, with the row of the rule table. -/
def finding (rule : Rule) (place : List String) (message : String) : Violation :=
  Baseline.viol (some rule) message (pointer place)

/-- What one rule has to say of one node: a message, or nothing. -/
def report (rule : Rule) (place : List String) (message : Option String) : List Violation :=
  (message.map (finding rule place)).toList

variable (quote : String → String)

/-- An accelerator without a usable fallback. -/
def fallbackMessage (step : WorkflowStep) : Option String :=
  if step.resourceClass = .cpu then none
  else
    let subject := "accelerator step " ++ quote step.name ++ " (resource_class " ++
      jsonQuote step.resourceClass.value
    match step.fallbackResourceClass with
    | none => some (subject ++ ") must declare fallback_resource_class")
    | some .cpu => none
    | some fb => some (subject ++ ") declares fallback_resource_class " ++ fb.value ++
        ", but the only usable fallback is \"cpu\"")

/-- Acceleration claimed on the CPU. -/
def accelerationMessage (step : WorkflowStep) : Option String :=
  if step.resourceClass = .cpu ∧ step.needsAcceleration = true then
    some ("step " ++ quote step.name ++ " claims needs_acceleration but uses cpu resource class")
  else none

/-- A priority of zero. -/
def priorityMessage (service : AIService) : Option String :=
  if service.priority = 0 then
    some ("service " ++ quote service.serviceId ++
      " has zero priority, which is likely a misconfiguration")
  else none

/-- A landscape type that is not recognized. -/
def landscapeMessage (service : AIService) : Option String :=
  match service.landscapeType with
  | none => none
  | some lt =>
    if lt = "ocean" ∨ lt = "land" then none
    else some ("service " ++ quote service.serviceId ++ " has unrecognized landscape_type " ++
      quote lt ++ " (expected: ocean, land)")

/-- An acquisition with nothing to run. -/
def acquisitionMessage (i : Nat) (event : MissionEvent) : Option String :=
  if event.eventType = .acquisition ∧ event.services = [] then
    some ("acquisition event " ++ toString i ++ " must declare at least one service")
  else none

def stepFindings (i j k : Nat) (step : WorkflowStep) : List Violation :=
  report .rule4 (stepAt i j k) (fallbackMessage quote step) ++
    report .rule6 (stepAt i j k) (accelerationMessage quote step)

def stepsFindings (i j : Nat) (service : AIService) : List Violation :=
  enumerated (stepFindings quote i j) service.steps

def serviceFindings (i j : Nat) (service : AIService) : List Violation :=
  report .rule5 (serviceAt i j) (priorityMessage quote service) ++
    report .rule10 (serviceAt i j) (landscapeMessage quote service) ++
    stepsFindings quote i j service

def servicesFindings (i : Nat) (event : MissionEvent) : List Violation :=
  enumerated (serviceFindings quote i) event.services

def eventFindings (i : Nat) (event : MissionEvent) : List Violation :=
  report .rule3 (servicesAt i) (acquisitionMessage i event) ++ servicesFindings quote i event

/-- Everything found in a plan. -/
def findings (plan : MissionPlan) : List Violation :=
  enumerated (eventFindings quote) plan.events

/-! ## Rule by rule -/

/-- A collection over the services of a plan. -/
def servicesOf (plan : MissionPlan) (f : Nat → Nat → AIService → List Violation) :
    List Violation :=
  enumerated (fun i event => enumerated (f i) event.services) plan.events

/-- A collection over the steps of a plan. -/
def stepsOf (plan : MissionPlan) (f : Nat → Nat → Nat → WorkflowStep → List Violation) :
    List Violation :=
  servicesOf plan fun i j service => enumerated (f i j) service.steps

theorem servicesOf_append_perm (plan : MissionPlan)
    (f g : Nat → Nat → AIService → List Violation) :
    (servicesOf plan fun i j service => f i j service ++ g i j service).Perm
      (servicesOf plan f ++ servicesOf plan g) :=
  (enumerated_perm_congr plan.events fun _ event =>
    enumerated_append_perm _ _ event.services).trans (enumerated_append_perm _ _ plan.events)

theorem servicesOf_perm_congr {plan : MissionPlan} {f g : Nat → Nat → AIService → List Violation}
    (h : ∀ i j service, (f i j service).Perm (g i j service)) :
    (servicesOf plan f).Perm (servicesOf plan g) :=
  enumerated_perm_congr plan.events fun i event =>
    enumerated_perm_congr event.services fun j service => h i j service

theorem stepsOf_append_perm (plan : MissionPlan)
    (f g : Nat → Nat → Nat → WorkflowStep → List Violation) :
    (stepsOf plan fun i j k step => f i j k step ++ g i j k step).Perm
      (stepsOf plan f ++ stepsOf plan g) :=
  (servicesOf_perm_congr fun _ _ service => enumerated_append_perm _ _ service.steps).trans
    (servicesOf_append_perm plan _ _)

/-- The findings of a plan, collected by one loop for each rule. -/
theorem findings_perm_rules (plan : MissionPlan) :
    (findings quote plan).Perm
      (enumerated (fun i event => report .rule3 (servicesAt i) (acquisitionMessage i event))
          plan.events ++
        ((servicesOf plan fun i j service =>
            report .rule5 (serviceAt i j) (priorityMessage quote service)) ++
          (servicesOf plan fun i j service =>
            report .rule10 (serviceAt i j) (landscapeMessage quote service)) ++
          ((stepsOf plan fun i j k step =>
              report .rule4 (stepAt i j k) (fallbackMessage quote step)) ++
            stepsOf plan fun i j k step =>
              report .rule6 (stepAt i j k) (accelerationMessage quote step)))) := by
  refine (enumerated_append_perm _ _ plan.events).trans (List.Perm.append_left _ ?_)
  refine (servicesOf_append_perm plan _ _).trans (List.Perm.append ?_ ?_)
  · exact servicesOf_append_perm plan _ _
  · exact stepsOf_append_perm plan _ _

/-! ## Keys -/

theorem mem_report {rule : Rule} {place : List String} {message : Option String}
    {v : Violation} (h : v ∈ report rule place message) :
    ∃ m, message = some m ∧ v = finding rule place m := by
  cases message with
  | none => cases h
  | some m => exact ⟨m, rfl, List.mem_singleton.mp h⟩

/-- The keys of a report depend on whether there is a message, and on nothing in it. -/
theorem report_keys {rule : Rule} {place : List String} {a b : Option String}
    (h : a.isSome = b.isSome) :
    (report rule place a).map Violation.key = (report rule place b).map Violation.key := by
  cases a with
  | none =>
    cases b with
    | none => rfl
    | some b => cases h
  | some a =>
    cases b with
    | none => cases h
    | some b => rfl

section Keys

variable {quote} {quote' : String → String}

theorem stepFindings_keys (i j k : Nat) (step : WorkflowStep) :
    (stepFindings quote i j k step).map Violation.key =
      (stepFindings quote' i j k step).map Violation.key := by
  have h4 : (fallbackMessage quote step).isSome = (fallbackMessage quote' step).isSome := by
    unfold fallbackMessage
    split
    · rfl
    · cases step.fallbackResourceClass with
      | none => rfl
      | some fb => cases fb <;> rfl
  have h6 : (accelerationMessage quote step).isSome = (accelerationMessage quote' step).isSome := by
    unfold accelerationMessage
    split <;> rfl
  rw [stepFindings, stepFindings, List.map_append, List.map_append, report_keys h4, report_keys h6]

theorem serviceFindings_keys (i j : Nat) (service : AIService) :
    (serviceFindings quote i j service).map Violation.key =
      (serviceFindings quote' i j service).map Violation.key := by
  have h5 : (priorityMessage quote service).isSome = (priorityMessage quote' service).isSome := by
    unfold priorityMessage
    split <;> rfl
  have h10 :
      (landscapeMessage quote service).isSome = (landscapeMessage quote' service).isSome := by
    unfold landscapeMessage
    cases service.landscapeType with
    | none => rfl
    | some lt => by_cases hknown : lt = "ocean" ∨ lt = "land" <;> simp [hknown]
  have hsteps : (stepsFindings quote i j service).map Violation.key =
      (stepsFindings quote' i j service).map Violation.key := by
    rw [stepsFindings, stepsFindings, map_enumerated, map_enumerated]
    exact enumerated_congr fun k step _ => stepFindings_keys i j k step
  simp only [serviceFindings, List.map_append, report_keys h5, report_keys h10, hsteps]

/-- How names are quoted does not reach the keys. -/
theorem findings_keys (plan : MissionPlan) :
    (findings quote plan).map Violation.key = (findings quote' plan).map Violation.key := by
  rw [findings, findings, map_enumerated, map_enumerated]
  refine enumerated_congr fun i event _ => ?_
  rw [eventFindings, eventFindings, List.map_append, List.map_append, servicesFindings,
    servicesFindings, map_enumerated, map_enumerated]
  exact congrArg _ (enumerated_congr fun j service _ => serviceFindings_keys i j service)

/-- The place a key is about, and its rule. -/
def keyPlace (key : Option Rule × String × Severity × Provenance × String) : List String :=
  segments key.2.2.2.2

theorem report_nodup (rule : Rule) (place : List String) (message : Option String) :
    ((report rule place message).map Violation.key).Nodup := by
  cases message with
  | none => exact List.nodup_nil
  | some m => exact List.nodup_singleton _

theorem mem_report_keys {rule : Rule} {place : List String} (hplain : Plain place)
    {message : Option String} {key : Option Rule × String × Severity × Provenance × String}
    (h : key ∈ (report rule place message).map Violation.key) :
    key.1 = some rule ∧ keyPlace key = place := by
  obtain ⟨v, hv, rfl⟩ := List.mem_map.mp h
  obtain ⟨m, _, rfl⟩ := mem_report hv
  exact ⟨rfl, segments_pointer hplain⟩

theorem mem_stepFindings_keys {i j k : Nat} {step : WorkflowStep}
    {key : Option Rule × String × Severity × Provenance × String}
    (h : key ∈ (stepFindings quote i j k step).map Violation.key) :
    keyPlace key = stepAt i j k := by
  rw [stepFindings, List.map_append] at h
  rcases List.mem_append.mp h with h | h
  · exact (mem_report_keys (plain_stepAt i j k) h).2
  · exact (mem_report_keys (plain_stepAt i j k) h).2

theorem mem_stepsFindings_keys {i j : Nat} {service : AIService}
    {key : Option Rule × String × Severity × Provenance × String}
    (h : key ∈ (stepsFindings quote i j service).map Violation.key) :
    ∃ k, keyPlace key = stepAt i j k := by
  rw [stepsFindings, map_enumerated] at h
  obtain ⟨k, step, _, h⟩ := mem_enumerated.mp h
  exact ⟨k, mem_stepFindings_keys h⟩

theorem mem_serviceFindings_keys {i j : Nat} {service : AIService}
    {key : Option Rule × String × Severity × Provenance × String}
    (h : key ∈ (serviceFindings quote i j service).map Violation.key) :
    keyPlace key = serviceAt i j ∨ ∃ k, keyPlace key = stepAt i j k := by
  rw [serviceFindings, List.map_append, List.map_append] at h
  rcases List.mem_append.mp h with h | h
  · rcases List.mem_append.mp h with h | h
    · exact .inl (mem_report_keys (plain_serviceAt i j) h).2
    · exact .inl (mem_report_keys (plain_serviceAt i j) h).2
  · exact .inr (mem_stepsFindings_keys h)

theorem mem_servicesFindings_keys {i : Nat} {event : MissionEvent}
    {key : Option Rule × String × Severity × Provenance × String}
    (h : key ∈ (servicesFindings quote i event).map Violation.key) :
    ∃ j, keyPlace key = serviceAt i j ∨ ∃ k, keyPlace key = stepAt i j k := by
  rw [servicesFindings, map_enumerated] at h
  obtain ⟨j, service, _, h⟩ := mem_enumerated.mp h
  exact ⟨j, mem_serviceFindings_keys h⟩

theorem stepFindings_nodup (i j k : Nat) (step : WorkflowStep) :
    ((stepFindings quote i j k step).map Violation.key).Nodup := by
  rw [stepFindings, List.map_append, List.nodup_append']
  refine ⟨report_nodup .rule4 _ _, report_nodup .rule6 _ _, fun key h4 h6 => ?_⟩
  have hr4 := (mem_report_keys (plain_stepAt i j k) h4).1
  have hr6 := (mem_report_keys (plain_stepAt i j k) h6).1
  cases hr4.symm.trans hr6

theorem serviceFindings_nodup (i j : Nat) (service : AIService) :
    ((serviceFindings quote i j service).map Violation.key).Nodup := by
  have hsteps : ((stepsFindings quote i j service).map Violation.key).Nodup := by
    rw [stepsFindings, map_enumerated]
    refine enumerated_nodup (fun key => (keyPlace key)[5]?) toString_injective
      (fun k step _ => stepFindings_nodup i j k step) fun k step _ key h => ?_
    show (keyPlace key)[5]? = _
    rw [mem_stepFindings_keys h]
    rfl
  rw [serviceFindings, List.map_append, List.map_append, List.nodup_append', List.nodup_append']
  refine ⟨⟨report_nodup .rule5 _ _, report_nodup .rule10 _ _, fun key h5 h10 => ?_⟩, hsteps,
    fun key hown hstep => ?_⟩
  · have hr5 := (mem_report_keys (plain_serviceAt i j) h5).1
    have hr10 := (mem_report_keys (plain_serviceAt i j) h10).1
    cases hr5.symm.trans hr10
  · obtain ⟨k, hk⟩ := mem_stepsFindings_keys hstep
    have hplace : keyPlace key = serviceAt i j := by
      rcases List.mem_append.mp hown with h | h
      · exact (mem_report_keys (plain_serviceAt i j) h).2
      · exact (mem_report_keys (plain_serviceAt i j) h).2
    have hlength := congrArg List.length (hplace.symm.trans hk)
    simp [stepAt, serviceAt, servicesAt, eventAt] at hlength

theorem eventFindings_nodup (i : Nat) (event : MissionEvent) :
    ((eventFindings quote i event).map Violation.key).Nodup := by
  have hservices : ((servicesFindings quote i event).map Violation.key).Nodup := by
    rw [servicesFindings, map_enumerated]
    refine enumerated_nodup (fun key => (keyPlace key)[3]?) toString_injective
      (fun j service _ => serviceFindings_nodup i j service) fun j service _ key h => ?_
    show (keyPlace key)[3]? = _
    rcases mem_serviceFindings_keys h with hplace | ⟨k, hplace⟩
    · rw [hplace]
      rfl
    · rw [hplace]
      rfl
  rw [eventFindings, List.map_append, List.nodup_append']
  refine ⟨report_nodup .rule3 _ _, hservices, fun key hown hservice => ?_⟩
  have hplace := (mem_report_keys (plain_servicesAt i) hown).2
  obtain ⟨j, hj | ⟨k, hk⟩⟩ := mem_servicesFindings_keys hservice
  · have hlength := congrArg List.length (hplace.symm.trans hj)
    simp [serviceAt, servicesAt, eventAt] at hlength
  · have hlength := congrArg List.length (hplace.symm.trans hk)
    simp [stepAt, serviceAt, servicesAt, eventAt] at hlength

/-- No two findings have one key. -/
theorem keys_nodup (plan : MissionPlan) : ((findings quote plan).map Violation.key).Nodup := by
  rw [findings, map_enumerated]
  refine enumerated_nodup (fun key => (keyPlace key)[1]?) toString_injective
    (fun i event _ => eventFindings_nodup i event) fun i event _ key h => ?_
  show (keyPlace key)[1]? = _
  rw [eventFindings, List.map_append] at h
  rcases List.mem_append.mp h with hown | hservice
  · rw [(mem_report_keys (plain_servicesAt i) hown).2]
    rfl
  · obtain ⟨j, hj | ⟨k, hk⟩⟩ := mem_servicesFindings_keys hservice
    · rw [hj]
      rfl
    · rw [hk]
      rfl

/-- The names that can appear in a message, each with a property. -/
def EachName (plan : MissionPlan) (P : String → Prop) : Prop :=
  ∀ event ∈ plan.events, ∀ service ∈ event.services, P service.serviceId ∧
    (∀ lt ∈ service.landscapeType, P lt) ∧ ∀ step ∈ service.steps, P step.name

theorem stepFindings_congr {i j k : Nat} {step : WorkflowStep}
    (h : quote step.name = quote' step.name) :
    stepFindings quote i j k step = stepFindings quote' i j k step := by
  simp only [stepFindings, fallbackMessage, accelerationMessage, h]

theorem serviceFindings_congr {i j : Nat} {service : AIService}
    (hid : quote service.serviceId = quote' service.serviceId)
    (hlt : ∀ lt ∈ service.landscapeType, quote lt = quote' lt)
    (hsteps : ∀ step ∈ service.steps, quote step.name = quote' step.name) :
    serviceFindings quote i j service = serviceFindings quote' i j service := by
  have hlandscape : landscapeMessage quote service = landscapeMessage quote' service := by
    unfold landscapeMessage
    cases hs : service.landscapeType with
    | none => rfl
    | some lt => simp only [hid, hlt lt hs]
  have hnested : stepsFindings quote i j service = stepsFindings quote' i j service :=
    enumerated_congr fun k step hmem => stepFindings_congr (hsteps step hmem)
  rw [serviceFindings, serviceFindings, hlandscape, hnested, priorityMessage, priorityMessage, hid]

/-- Findings agree when the names that appear in them are quoted alike. -/
theorem findings_congr {plan : MissionPlan} (h : EachName plan fun s => quote s = quote' s) :
    findings quote plan = findings quote' plan := by
  refine enumerated_congr fun i event hevent => ?_
  rw [eventFindings, eventFindings]
  refine congrArg _ (enumerated_congr fun j service hservice => ?_)
  obtain ⟨hid, hlt, hsteps⟩ := h event hevent service hservice
  exact serviceFindings_congr hid hlt hsteps

/-- The rules that are left for a plan the schema accepts. -/
def SchemaRule (rule : Option Rule) : Prop :=
  rule ∈ [some Rule.rule3, some .rule4, some .rule5, some .rule6, some .rule10]

theorem report_rules {rule : Rule} {place : List String} {message : Option String}
    (h : SchemaRule (some rule)) : ∀ v ∈ report rule place message, SchemaRule v.rule := by
  intro v hv
  obtain ⟨m, _, rfl⟩ := mem_report hv
  exact h

theorem findings_rules (plan : MissionPlan) : ∀ v ∈ findings quote plan, SchemaRule v.rule := by
  have hsteps : ∀ i j service, ∀ v ∈ stepsFindings quote i j service, SchemaRule v.rule := by
    intro i j service v hv
    obtain ⟨k, step, _, hv⟩ := mem_enumerated.mp hv
    rcases List.mem_append.mp hv with hv | hv
    · exact report_rules (by simp [SchemaRule]) v hv
    · exact report_rules (by simp [SchemaRule]) v hv
  intro v hv
  obtain ⟨i, event, _, hv⟩ := mem_enumerated.mp hv
  rcases List.mem_append.mp hv with hv | hv
  · exact report_rules (by simp [SchemaRule]) v hv
  obtain ⟨j, service, _, hv⟩ := mem_enumerated.mp hv
  rcases List.mem_append.mp hv with hv | hv
  · rcases List.mem_append.mp hv with hv | hv
    · exact report_rules (by simp [SchemaRule]) v hv
    · exact report_rules (by simp [SchemaRule]) v hv
  · exact hsteps i j service v hv

end Keys

end MissionCompiler.Policy
