import MissionCompiler.Policy.BaselineDecision
import MissionCompiler.Policy.BundleDecision
import MissionCompiler.Policy.Findings
import MissionCompiler.Schema.Dump

/-!
# The two engines on the dump of a plan

On the dump of a plan the schema accepts, the baseline returns the findings of the plan in their
own order, and the bundle derives the same findings, rule by rule. The two lists are one multiset
of keys, without repetition, and one multiset of violations where names are quoted alike.
-/

namespace MissionCompiler.Policy

open Lib Schema

variable (isoformat : Timestamp → String)

/-! ## The baseline -/

namespace Baseline

variable (str : Json → String)

theorem rule4_dump (place : List String) (step : WorkflowStep) :
    rule4 str (pointer place) (acceleratorClasses.contains step.resourceClass.value)
      (.str step.name)
      (.str step.resourceClass.value)
      (dumpOption (fun c => .str c.value) step.fallbackResourceClass) =
      report .rule4 place (fallbackMessage jsonQuote step) := by
  unfold fallbackMessage
  cases step.resourceClass with
  | cpu => rfl
  | _ =>
    cases step.fallbackResourceClass with
    | none => rfl
    | some fb => cases fb <;> rfl

theorem rule6_dump (place : List String) (step : WorkflowStep) :
    rule6 str (pointer place) (.str step.name) (.str step.resourceClass.value)
      (.bool step.needsAcceleration) =
      report .rule6 place (accelerationMessage jsonQuote step) := by
  unfold accelerationMessage
  cases step.resourceClass with
  | cpu => cases step.needsAcceleration <;> rfl
  | _ => rfl

theorem stepViolations_dump (i j k : Nat) (step : WorkflowStep) :
    stepViolations str (pointer (stepAt i j k)) step.dump =
      .ok (stepFindings jsonQuote i j k step) := by
  rw [stepFindings, ← rule4_dump str, ← rule6_dump str]
  rfl

theorem rule5_dump (place : List String) (service : AIService) :
    rule5 str (pointer place) (.str service.serviceId) (.num (.int service.priority)) =
      report .rule5 place (priorityMessage jsonQuote service) := by
  unfold priorityMessage rule5
  by_cases h : service.priority = 0
  · rw [if_pos h, h]
    rfl
  · have hz : (Json.num (.int service.priority)).isZero = false := by
      simpa [Json.isZero, Number.isZero] using h
    rw [if_neg h, hz]
    rfl

theorem rule10_dump (place : List String) (service : AIService) :
    rule10 str (pointer place) (.str service.serviceId) (dumpOption .str service.landscapeType) =
      report .rule10 place (landscapeMessage jsonQuote service) := by
  unfold landscapeMessage
  cases service.landscapeType with
  | none => rfl
  | some lt =>
    show (if validLandscapeTypes.contains lt then _ else _) = _
    by_cases h : lt = "ocean" ∨ lt = "land"
    · have hc : validLandscapeTypes.contains lt = true := by simpa [validLandscapeTypes] using h
      simp only [h, hc, if_true]
      rfl
    · have hc : validLandscapeTypes.contains lt = false := by simpa [validLandscapeTypes] using h
      simp only [h, hc, if_false]
      rfl

theorem stepsViolations_dump (i j : Nat) (service : AIService) :
    stepsViolations str (pointer (serviceAt i j)) (service.steps.map WorkflowStep.dump) =
      .ok (stepsFindings jsonQuote i j service) := by
  refine enumerateM_eq_enumerated fun k step _ => ?_
  rw [← pointer_stepAt]
  exact stepViolations_dump str i j k step

theorem serviceViolations_dump (i j : Nat) (service : AIService) :
    serviceViolations str (pointer (serviceAt i j)) service.dump =
      .ok (serviceFindings jsonQuote i j service) := by
  have hfound : serviceViolations str (pointer (serviceAt i j)) service.dump =
      (do
        let nested ← stepsViolations str (pointer (serviceAt i j))
          (service.steps.map WorkflowStep.dump)
        return rule5 str (pointer (serviceAt i j)) (.str service.serviceId)
            (.num (.int service.priority)) ++
          rule9 str (pointer (serviceAt i j)) (.str service.serviceId)
            (service.steps.map WorkflowStep.dump) false ++
          rule10 str (pointer (serviceAt i j)) (.str service.serviceId)
            (dumpOption .str service.landscapeType) ++ nested) := rfl
  have h9 : rule9 str (pointer (serviceAt i j)) (.str service.serviceId)
      (service.steps.map WorkflowStep.dump) false = [] := by
    have hne := service.steps_ne_nil
    simp [rule9, hne]
  rw [hfound, stepsViolations_dump, rule5_dump, rule10_dump, h9, List.append_nil]
  rfl

theorem servicesViolations_dump (i : Nat) (event : MissionEvent) :
    servicesViolations str ("/events/" ++ toString i) (event.services.map AIService.dump) =
      .ok (servicesFindings jsonQuote i event) := by
  refine enumerateM_eq_enumerated fun j service _ => ?_
  rw [← pointer_serviceAt]
  exact serviceViolations_dump str i j service

/-- The three rules of an event: the schema leaves the first of them. -/
theorem eventRules_dump (i : Nat) (event : MissionEvent) :
    rule3 i (.str event.eventType.value) (event.services.map AIService.dump) false ++
      rule7 i (.str event.eventType.value) (event.services.map AIService.dump) false ++
      rule8 i (.str event.eventType.value) (.bool event.groundVisibility) =
      report .rule3 (servicesAt i) (acquisitionMessage i event) := by
  unfold acquisitionMessage
  cases htype : event.eventType with
  | acquisition =>
    cases hs : event.services with
    | nil =>
      rw [if_pos ⟨rfl, rfl⟩]
      show _ = [viol (some .rule3) _ (pointer (servicesAt i))]
      rw [pointer_servicesAt]
      rfl
    | cons service services => rfl
  | download =>
    obtain ⟨_, hs, hg⟩ := event.download_fields htype
    rw [hs, hg]
    rfl

theorem eventViolations_dump (i : Nat) (event : MissionEvent) :
    eventViolations str i (event.dump isoformat) = .ok (eventFindings jsonQuote i event) := by
  have hfound : eventViolations str i (event.dump isoformat) =
      (do
        let nested ← servicesViolations str ("/events/" ++ toString i)
          (event.services.map AIService.dump)
        return rule3 i (.str event.eventType.value) (event.services.map AIService.dump) false ++
          rule7 i (.str event.eventType.value) (event.services.map AIService.dump) false ++
          rule8 i (.str event.eventType.value) (.bool event.groundVisibility) ++ nested) := rfl
  rw [hfound, servicesViolations_dump, eventRules_dump]
  rfl

/-- On the dump of a plan the baseline returns its findings. -/
theorem violations_dump (plan : MissionPlan) :
    violations str (plan.dump isoformat) = .ok (findings jsonQuote plan) := by
  have hfound : violations str (plan.dump isoformat) =
      (do
        let nested ← eventsViolations str (plan.events.map (MissionEvent.dump isoformat))
        return rule1 (.str plan.missionId) ++
          (if (plan.events.map (MissionEvent.dump isoformat)).length == 0 then rule2 else []) ++
          nested) := rfl
  have hevents : eventsViolations str (plan.events.map (MissionEvent.dump isoformat)) =
      .ok (findings jsonQuote plan) :=
    enumerateM_eq_enumerated fun i event _ => eventViolations_dump isoformat str i event
  have h1 : rule1 (.str plan.missionId) = [] := by
    rw [rule1_eq_nil]
    refine ⟨by simp, fun s hs => ?_⟩
    rw [← Json.str.inj hs]
    exact plan.missionId_notBlank
  have h2 : ((plan.events.map (MissionEvent.dump isoformat)).length == 0) = false := by
    have hne := plan.events_ne_nil
    simpa using hne
  rw [hfound, hevents, h1, h2]
  rfl

end Baseline

/-! ## The bundle -/

namespace Bundle

open Lib.Rego

theorem viol_eq (rule : Rule) (message path : String) :
    viol rule message path = Baseline.viol (some rule) message path := by
  cases rule <;> rfl

variable (go : Printer)

theorem v_natCast (i : Nat) : go.v (.num (.int i)) = toString i := rfl

theorem eventPath_eq (i : Nat) :
    eventPath go (.num (.int i)) ++ "/services" = pointer (servicesAt i) := by
  rw [pointer_servicesAt]
  rfl

theorem servicePath_eq (i j : Nat) :
    servicePath go (.num (.int i)) (.num (.int j)) = pointer (serviceAt i j) := by
  rw [pointer_serviceAt]
  rfl

theorem stepPath_eq (i j k : Nat) :
    stepPath go (.num (.int i)) (.num (.int j)) (.num (.int k)) = pointer (stepAt i j k) := by
  rw [pointer_stepAt, ← servicePath_eq go]
  rfl

/-- Words of letters are quoted by both verbs as they stand. -/
theorem q_value (rc : ResourceClass) : go.q (.str rc.value) = jsonQuote rc.value := by
  refine goQuote_eq_jsonQuote (go.quotedAlike_ascii ?_)
  cases rc <;> decide

variable (plan : MissionPlan)

theorem overEvents_dump (body : Json → Json → List Violation) :
    overEvents (.obj (plan.dump isoformat)) body =
      enumerated (fun i event => body (.num (.int i)) (event.dump isoformat)) plan.events := by
  show iterate (some (.arr (plan.events.map (MissionEvent.dump isoformat)))) body = _
  rw [iterate_arr, enumerated_map]

theorem overServices_dump (body : Json → Json → Json → List Violation) :
    overServices (.obj (plan.dump isoformat)) body = servicesOf plan fun i j service =>
      body (.num (.int i)) (.num (.int j)) service.dump := by
  rw [overServices, overEvents_dump]
  refine enumerated_congr fun i event _ => ?_
  show iterate (some (.arr (event.services.map AIService.dump))) _ = _
  rw [iterate_arr, enumerated_map]

theorem overSteps_dump (body : Json → Json → Json → Json → List Violation) :
    overSteps (.obj (plan.dump isoformat)) body = stepsOf plan fun i j k step =>
      body (.num (.int i)) (.num (.int j)) (.num (.int k)) step.dump := by
  rw [overSteps, overServices_dump, stepsOf]
  refine congrArg (servicesOf plan) (funext fun i => funext fun j => funext fun service => ?_)
  show iterate (some (.arr (service.steps.map WorkflowStep.dump))) _ = _
  rw [iterate_arr, enumerated_map]

/-! ### The rules the schema leaves -/

theorem rule3_dump :
    rule3 go (.obj (plan.dump isoformat)) = enumerated (fun i event =>
      report .rule3 (servicesAt i) (acquisitionMessage i event)) plan.events := by
  rw [rule3, overEvents_dump]
  refine enumerated_congr fun i event _ => ?_
  rw [viol_eq, eventPath_eq, v_natCast]
  show fire ((event.eventType.value == "acquisition") &&
    (some (event.services.map AIService.dump).length == some 0)) _ = _
  unfold acquisitionMessage
  cases event.eventType with
  | acquisition => cases event.services <;> rfl
  | download => rfl

/-- The two bodies of rule 4 at one step: at most one of them fires. -/
theorem fallback_bodies (place : List String) (step : WorkflowStep) :
    fire (step.dump.isObj && acceleratorBound step.dump &&
        (objectGet step.dump "fallback_resource_class" .null).isNull)
      (viol .rule4 ("accelerator step " ++ go.q (objectGet step.dump "name" (.str "")) ++
        " (resource_class " ++ go.q (objectGet step.dump "resource_class" .null) ++
        ") must declare fallback_resource_class") (pointer place)) ++
    fire (step.dump.isObj && acceleratorBound step.dump &&
        !(objectGet step.dump "fallback_resource_class" .null).isNull &&
        !(objectGet step.dump "fallback_resource_class" .null).eqStr "cpu")
      (viol .rule4 ("accelerator step " ++ go.q (objectGet step.dump "name" (.str "")) ++
        " (resource_class " ++ go.q (objectGet step.dump "resource_class" .null) ++
        ") declares fallback_resource_class " ++
        go.v (objectGet step.dump "fallback_resource_class" .null) ++
        ", but the only usable fallback is " ++ go.q (.str "cpu")) (pointer place)) =
      report .rule4 place (fallbackMessage (goQuote go.isPrint) step) := by
  have hbound : acceleratorBound step.dump =
      (step.resourceClass.value == "gpu" || step.resourceClass.value == "fpga") := rfl
  have hclass : objectGet step.dump "resource_class" .null = .str step.resourceClass.value := rfl
  have hfallback : objectGet step.dump "fallback_resource_class" .null =
      dumpOption (fun c => .str c.value) step.fallbackResourceClass := rfl
  have hcpu : go.q (.str "cpu") = "\"cpu\"" := q_value go .cpu
  have htail : ∀ s : String, s ++ ", but the only usable fallback is " ++ "\"cpu\"" =
      s ++ ", but the only usable fallback is \"cpu\"" := by
    intro s
    rw [String.append_assoc]
    rfl
  rw [hbound, hclass, hfallback, q_value, viol_eq, viol_eq, hcpu, htail]
  unfold fallbackMessage
  cases step.resourceClass with
  | cpu => rfl
  | _ =>
    cases step.fallbackResourceClass with
    | none => rfl
    | some fb => cases fb <;> rfl

theorem rule4_dump :
    (rule4a go (.obj (plan.dump isoformat)) ++ rule4b go (.obj (plan.dump isoformat))).Perm
      (stepsOf plan fun i j k step => report .rule4 (stepAt i j k)
        (fallbackMessage (goQuote go.isPrint) step)) := by
  rw [rule4a, rule4b, overSteps_dump, overSteps_dump]
  refine (stepsOf_append_perm plan _ _).symm.trans (List.Perm.of_eq ?_)
  refine congrArg (stepsOf plan) ?_
  funext i j k step
  rw [stepPath_eq]
  exact fallback_bodies go (stepAt i j k) step

theorem rule5_dump :
    rule5 go (.obj (plan.dump isoformat)) = servicesOf plan fun i j service =>
      report .rule5 (serviceAt i j) (priorityMessage (goQuote go.isPrint) service) := by
  rw [rule5, overServices_dump]
  refine congrArg (servicesOf plan) ?_
  funext i j service
  rw [viol_eq, servicePath_eq]
  show fire ((service.priority : Int) == 0) _ = _
  unfold priorityMessage
  by_cases h : service.priority = 0
  · rw [if_pos h, h]
    rfl
  · have hz : ((service.priority : Int) == 0) = false := by simpa using h
    rw [if_neg h, hz]
    rfl

theorem rule6_dump :
    rule6 go (.obj (plan.dump isoformat)) = stepsOf plan fun i j k step =>
      report .rule6 (stepAt i j k) (accelerationMessage (goQuote go.isPrint) step) := by
  rw [rule6, overSteps_dump]
  refine congrArg (stepsOf plan) ?_
  funext i j k step
  rw [viol_eq, stepPath_eq]
  show fire ((step.resourceClass.value == "cpu") && step.needsAcceleration) _ = _
  unfold accelerationMessage
  cases step.resourceClass with
  | cpu => cases step.needsAcceleration <;> rfl
  | _ => rfl

theorem rule10_dump :
    rule10a go (.obj (plan.dump isoformat)) = servicesOf plan fun i j service =>
      report .rule10 (serviceAt i j) (landscapeMessage (goQuote go.isPrint) service) := by
  rw [rule10a, overServices_dump]
  refine congrArg (servicesOf plan) ?_
  funext i j service
  have hlandscape : service.dump.get? "landscape_type" =
      some (dumpOption .str service.landscapeType) := rfl
  rw [hlandscape]
  unfold landscapeMessage
  cases service.landscapeType with
  | none => rfl
  | some lt =>
    show fire (!validLandscapeTypes.contains lt) _ = _
    rw [viol_eq, servicePath_eq]
    by_cases h : lt = "ocean" ∨ lt = "land"
    · have hc : validLandscapeTypes.contains lt = true := by simpa [validLandscapeTypes] using h
      simp only [h, hc, if_true]
      rfl
    · have hc : validLandscapeTypes.contains lt = false := by simpa [validLandscapeTypes] using h
      simp only [h, hc, if_false]
      rfl

/-! ### The rules the schema silences -/

theorem eachEvent_dump {P : Json → Prop} (h : ∀ event ∈ plan.events, P (event.dump isoformat)) :
    EachEvent (.obj (plan.dump isoformat)) P := by
  intro event hevent
  have hitems : items ((Json.obj (plan.dump isoformat)).get? "events") =
      plan.events.map (MissionEvent.dump isoformat) := items_of_arr rfl
  rw [hitems] at hevent
  obtain ⟨e, he, rfl⟩ := List.mem_map.mp hevent
  exact h e he

theorem eachService_dump {P : Json → Prop}
    (h : ∀ event ∈ plan.events, ∀ service ∈ event.services, P service.dump) :
    EachService (.obj (plan.dump isoformat)) P := by
  refine eachEvent_dump isoformat plan fun event hevent svc hsvc => ?_
  have hitems : items ((event.dump isoformat).get? "services") =
      event.services.map AIService.dump := items_of_arr rfl
  rw [hitems] at hsvc
  obtain ⟨service, hservice, rfl⟩ := List.mem_map.mp hsvc
  exact h event hevent service hservice

/-- The structural guards find nothing: the dump has lists of objects where they look. -/
theorem guards_dump :
    eventsNotList (.obj (plan.dump isoformat)) = [] ∧
      eventNotObject go (.obj (plan.dump isoformat)) = [] ∧
      servicesNotList go (.obj (plan.dump isoformat)) = [] ∧
      serviceNotObject go (.obj (plan.dump isoformat)) = [] ∧
      stepsNotList go (.obj (plan.dump isoformat)) = [] ∧
      stepNotObject go (.obj (plan.dump isoformat)) = [] := by
  refine ⟨eventsNotList_eq_nil.mpr (.inr ⟨_, rfl⟩), ?_, ?_, ?_, ?_, ?_⟩
  · exact (eventNotObject_eq_nil go).mpr fun _ => eachEvent_dump isoformat plan fun _ _ => rfl
  · exact (servicesNotList_eq_nil go).mpr fun _ =>
      eachEvent_dump isoformat plan fun _ _ _ => .inr ⟨_, rfl⟩
  · refine (serviceNotObject_eq_nil go).mpr
      (eachEvent_dump isoformat plan fun event _ _ svc h => ?_)
    have hitems : items ((event.dump isoformat).get? "services") =
        event.services.map AIService.dump := items_of_arr rfl
    rw [hitems] at h
    obtain ⟨service, _, rfl⟩ := List.mem_map.mp h
    rfl
  · exact (stepsNotList_eq_nil go).mpr (eachService_dump isoformat plan fun _ _ _ _ _ =>
      .inr ⟨_, rfl⟩)
  · refine (stepNotObject_eq_nil go).mpr (eachService_dump isoformat plan
      fun _ _ service _ _ step h => ?_)
    have hitems : items (service.dump.get? "steps") =
        service.steps.map WorkflowStep.dump := items_of_arr rfl
    rw [hitems] at h
    obtain ⟨s, _, rfl⟩ := List.mem_map.mp h
    rfl

theorem missionNamed_dump : MissionNamed goBlank (.obj (plan.dump isoformat)) := by
  have hfield : (Json.obj (plan.dump isoformat)).field "mission_id" = .str plan.missionId := rfl
  rw [MissionNamed, hfield]
  refine ⟨by simp, fun s hs => ?_⟩
  rw [← Json.str.inj hs]
  by_contra hblank
  rw [Bool.not_eq_false] at hblank
  have hpy := pyBlank_of_goBlank hblank
  rw [plan.missionId_notBlank] at hpy
  exact Bool.noConfusion hpy

theorem rule2_dump : rule2Absent (.obj (plan.dump isoformat)) = [] ∧
    rule2Empty (.obj (plan.dump isoformat)) = [] := by
  have hfield : (Json.obj (plan.dump isoformat)).field "events" =
      .arr (plan.events.map (MissionEvent.dump isoformat)) := rfl
  rw [rule2_eq_nil, hfield]
  refine ⟨by simp, fun h => plan.events_ne_nil ?_⟩
  exact List.map_eq_nil_iff.mp (Json.arr.inj h)

/-- A field of the dump is what the model says: a download has no services and is in sight. -/
theorem download_rules_dump : rule7 go (.obj (plan.dump isoformat)) = [] ∧
    rule8 go (.obj (plan.dump isoformat)) = [] := by
  have hdownload : ∀ event : MissionEvent,
      (event.dump isoformat).field "event_type" = .str "download" →
        event.eventType = .download := by
    intro event h
    have htype : (event.dump isoformat).field "event_type" = .str event.eventType.value := rfl
    rw [htype] at h
    cases hd : event.eventType with
    | download => rfl
    | acquisition =>
      rw [hd] at h
      exact absurd (Json.str.inj h) (by decide)
  refine ⟨(rule7_eq_nil go).mpr (eachEvent_dump isoformat plan fun event _ _ h => ?_),
    (rule8_eq_nil go).mpr (eachEvent_dump isoformat plan fun event _ _ h => ?_)⟩
  · rintro ⟨xs, hxs, hne⟩
    have hservices : (event.dump isoformat).field "services" =
        .arr (event.services.map AIService.dump) := rfl
    rw [hservices, (event.download_fields (hdownload event h)).2.1] at hxs
    exact hne (Json.arr.inj hxs).symm
  · have hvisible : (event.dump isoformat).field "ground_visibility" =
        .bool event.groundVisibility := rfl
    rw [hvisible, (event.download_fields (hdownload event h)).2.2]

theorem rule9_dump : rule9 go (.obj (plan.dump isoformat)) = [] := by
  refine (rule9_eq_nil go).mpr (eachService_dump isoformat plan fun _ _ service _ _ h => ?_)
  have hsteps : service.dump.field "steps" = .arr (service.steps.map WorkflowStep.dump) := rfl
  rw [hsteps] at h
  rcases h with h | h
  · exact Json.noConfusion h
  · exact service.steps_ne_nil (List.map_eq_nil_iff.mp (Json.arr.inj h))

theorem rule10b_dump : rule10b go (.obj (plan.dump isoformat)) = [] := by
  rw [rule10b, overServices_dump]
  refine enumerated_eq_nil fun i event _ => enumerated_eq_nil fun j service _ => ?_
  rw [fire_eq_nil]
  show ((true && !(dumpOption Json.str service.landscapeType).isNull) &&
    !(dumpOption Json.str service.landscapeType).isStr) = false
  cases service.landscapeType <;> rfl

/-- On the dump of a plan the bundle derives its findings. -/
theorem violations_dump_perm :
    (violations go (.obj (plan.dump isoformat))).Perm (findings (goQuote go.isPrint) plan) := by
  obtain ⟨hg1, hg2, hg3, hg4, hg5, hg6⟩ := guards_dump isoformat go plan
  obtain ⟨h1a, h1b⟩ := rule1_eq_nil.mpr (missionNamed_dump isoformat plan)
  obtain ⟨h2a, h2b⟩ := rule2_dump isoformat plan
  obtain ⟨h7, h8⟩ := download_rules_dump isoformat go plan
  have hleft : violations go (.obj (plan.dump isoformat)) =
      rule3 go (.obj (plan.dump isoformat)) ++
        ((rule4a go (.obj (plan.dump isoformat)) ++ rule4b go (.obj (plan.dump isoformat))) ++
          (rule5 go (.obj (plan.dump isoformat)) ++ (rule6 go (.obj (plan.dump isoformat)) ++
            rule10a go (.obj (plan.dump isoformat))))) := by
    unfold violations
    rw [hg1, hg2, hg3, hg4, hg5, hg6, h1a, h1b, h2a, h2b, h7, h8, rule9_dump, rule10b_dump]
    simp only [List.append_assoc, List.nil_append, List.append_nil]
  rw [hleft, rule3_dump, rule5_dump, rule6_dump, rule10_dump]
  refine List.Perm.trans ?_ (findings_perm_rules _ plan).symm
  refine List.Perm.append_left _
    ((List.Perm.append_right _ (rule4_dump isoformat go plan)).trans ?_)
  -- the same four collections in another order
  refine List.perm_iff_count.mpr fun v => ?_
  simp only [List.count_append]
  omega

end Bundle

/-! ## Both -/

/-- Occurrences of one key are one violation, so the bundle's set has one element for each
finding. -/
theorem Bundle.violations_dump_nodup (go : Rego.Printer) (plan : MissionPlan) :
    ((Bundle.violations go (.obj (plan.dump isoformat))).map Violation.key).Nodup :=
  ((Bundle.violations_dump_perm isoformat go plan).map Violation.key).nodup_iff.mpr
    (keys_nodup plan)

/-- On every plan the schema accepts, the engines report the same typed violations: the
baseline's list repeats nothing, the bundle's set has its keys occurrence by occurrence, the
messages agree too where every name is escaped alike, and only five rules can appear. -/
theorem engines_report_alike (str : Json → String) (go : Rego.Printer) (plan : MissionPlan) :
    ∃ vs, Baseline.violations str (plan.dump isoformat) = .ok vs ∧
      vs.Nodup ∧ (vs.map Violation.key).Nodup ∧
      ((Bundle.violations go (.obj (plan.dump isoformat))).dedup.map Violation.key).Perm
        (vs.map Violation.key) ∧
      (EachName plan (QuotedAlike go.isPrint) →
        (Bundle.violations go (.obj (plan.dump isoformat))).dedup.Perm vs) ∧
      (∀ v ∈ vs, SchemaRule v.rule) ∧
      ∀ v ∈ Bundle.violations go (.obj (plan.dump isoformat)), SchemaRule v.rule := by
  have hperm := Bundle.violations_dump_perm isoformat go plan
  have hdedup : (Bundle.violations go (.obj (plan.dump isoformat))).dedup =
      Bundle.violations go (.obj (plan.dump isoformat)) :=
    (Bundle.violations_dump_nodup isoformat go plan).of_map.dedup
  refine ⟨findings jsonQuote plan, Baseline.violations_dump isoformat str plan,
    (keys_nodup plan).of_map, keys_nodup plan, ?_, fun halike => ?_, findings_rules plan, ?_⟩
  · rw [hdedup]
    exact (hperm.map Violation.key).trans (List.Perm.of_eq (findings_keys plan))
  · have hsame : findings (goQuote go.isPrint) plan = findings jsonQuote plan := by
      refine findings_congr fun event hevent service hservice => ?_
      obtain ⟨hid, hlt, hsteps⟩ := halike event hevent service hservice
      exact ⟨goQuote_eq_jsonQuote hid, fun lt h => goQuote_eq_jsonQuote (hlt lt h),
        fun step h => goQuote_eq_jsonQuote (hsteps step h)⟩
    rw [hdedup, ← hsame]
    exact hperm
  · intro v hv
    exact findings_rules plan v (hperm.mem_iff.mp hv)

end MissionCompiler.Policy

