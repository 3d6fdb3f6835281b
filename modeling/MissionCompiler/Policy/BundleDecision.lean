import MissionCompiler.Policy.Admissible
import MissionCompiler.Policy.Bundle

/-!
# What the bundle decides

The bundle decides `PlanAdmissible`, with Go's notion of blank, on every document
(`violations_eq_nil`). Each body is read as what its silence says of the nodes it ranges over;
`Silent` collects them, and a document in which every rule is silent is an admissible plan.
-/

namespace MissionCompiler.Policy

open Lib

namespace Bundle

open Lib.Rego

/-! ## What the rules range over -/

/-- Every event a rule ranges over. -/
def EachEvent (input : Json) (P : Json → Prop) : Prop :=
  ∀ event ∈ items (input.get? "events"), P event

/-- Every service a rule ranges over. -/
def EachService (input : Json) (P : Json → Prop) : Prop :=
  EachEvent input fun event => ∀ svc ∈ items (event.get? "services"), P svc

/-- Every step a rule ranges over. -/
def EachStep (input : Json) (P : Json → Prop) : Prop :=
  EachService input fun svc => ∀ step ∈ items (svc.get? "steps"), P step

theorem overEvents_eq_nil {input : Json} {body : Json → Json → List Violation}
    {clean : Json → Prop} (h : ∀ i event, body i event = [] ↔ clean event) :
    overEvents input body = [] ↔ EachEvent input clean :=
  iterate_eq_nil h _

theorem overServices_eq_nil {input : Json} {body : Json → Json → Json → List Violation}
    {clean : Json → Prop} (h : ∀ i j svc, body i j svc = [] ↔ clean svc) :
    overServices input body = [] ↔ EachService input clean :=
  overEvents_eq_nil fun i event => iterate_eq_nil (h i) (event.get? "services")

theorem overSteps_eq_nil {input : Json} {body : Json → Json → Json → Json → List Violation}
    {clean : Json → Prop} (h : ∀ i j k step, body i j k step = [] ↔ clean step) :
    overSteps input body = [] ↔ EachStep input clean :=
  overServices_eq_nil fun i j svc => iterate_eq_nil (h i j) (svc.get? "steps")

theorem acceleratorBound_iff {step : Json} :
    acceleratorBound step = true ↔
      step.field "resource_class" = .str "gpu" ∨ step.field "resource_class" = .str "fpga" := by
  unfold acceleratorBound
  rw [Json.any_get? rfl, Json.any_get? rfl, Bool.or_eq_true, Json.eqStr_iff, Json.eqStr_iff]

/-- `_len_or_zero` reads an absent field as a null one. -/
theorem lenOrZero_eq (container : Json) (key : String) :
    lenOrZero container key = match container.field key with
      | .null => some 0
      | .arr xs => some xs.length
      | _ => none := by
  unfold lenOrZero objectGet Json.field
  cases container.get? key with
  | none => rfl
  | some v => cases v <;> rfl

theorem lenOrZero_eq_zero {container : Json} {key : String} :
    lenOrZero container key = some 0 ↔
      container.field key = .null ∨ container.field key = .arr [] := by
  rw [lenOrZero_eq]
  cases container.field key <;> simp

theorem lenOrZero_pos {container : Json} {key : String} :
    (lenOrZero container key).any (· > 0) = true ↔
      ∃ xs, container.field key = .arr xs ∧ xs ≠ [] := by
  rw [lenOrZero_eq]
  cases container.field key <;> simp [List.length_pos_iff]

variable (go : Printer) {input : Json}

/-! ## One rule at a time -/

theorem eventsNotList_eq_nil :
    eventsNotList input = [] ↔
      input.field "events" = .null ∨ ∃ events, input.field "events" = .arr events := by
  rw [eventsNotList, objectGet_null, fire_eq_nil, ← Json.isArr_iff]
  cases input.field "events" <;> simp [Json.isNull, Json.isArr]

theorem eventNotObject_eq_nil :
    eventNotObject go input = [] ↔
      ((input.field "events").isArr = true → EachEvent input fun event => event.isObj = true) := by
  unfold eventNotObject
  rw [Json.any_get? rfl]
  split
  · next h =>
    simp only [h, forall_const]
    exact overEvents_eq_nil fun i event => by simp
  · next h => simp [h]

theorem servicesNotList_eq_nil :
    servicesNotList go input = [] ↔
      ((input.field "events").isArr = true → EachEvent input fun event => event.isObj = true →
        event.field "services" = .null ∨ ∃ xs, event.field "services" = .arr xs) := by
  unfold servicesNotList
  rw [Json.any_get? rfl]
  split
  · next h =>
    simp only [h, forall_const, objectGet_null, ← Json.isArr_iff]
    exact overEvents_eq_nil fun i event => by simp [or_iff_not_imp_left]
  · next h => simp [h]

theorem serviceNotObject_eq_nil :
    serviceNotObject go input = [] ↔ EachEvent input fun event =>
      (event.field "services").isArr = true →
        ∀ svc ∈ items (event.get? "services"), svc.isObj = true := by
  refine overEvents_eq_nil fun i event => ?_
  rw [Json.any_get? rfl]
  split
  · next h =>
    simp only [h, forall_const]
    exact iterate_eq_nil (fun k v => by simp) _
  · next h => simp [h]

theorem stepsNotList_eq_nil :
    stepsNotList go input = [] ↔ EachService input fun svc => svc.isObj = true →
      svc.field "steps" = .null ∨ ∃ xs, svc.field "steps" = .arr xs := by
  refine overServices_eq_nil fun i j svc => ?_
  rw [fire_eq_nil, objectGet_null, ← Json.isArr_iff]
  simp [or_iff_not_imp_left]

theorem stepNotObject_eq_nil :
    stepNotObject go input = [] ↔ EachService input fun svc =>
      (svc.field "steps").isArr = true →
        ∀ step ∈ items (svc.get? "steps"), step.isObj = true := by
  refine overServices_eq_nil fun i j svc => ?_
  rw [Json.any_get? rfl]
  split
  · next h =>
    simp only [h, forall_const]
    exact iterate_eq_nil (fun k v => by simp) _
  · next h => simp [h]

theorem rule1_eq_nil :
    rule1Absent input = [] ∧ rule1Blank input = [] ↔ MissionNamed goBlank input := by
  unfold rule1Absent rule1Blank MissionNamed objectGet Json.field
  cases input.get? "mission_id" with
  | none => simp
  | some mid => cases mid <;> simp [goBlank]

theorem rule2_eq_nil :
    rule2Absent input = [] ∧ rule2Empty input = [] ↔
      input.field "events" ≠ .null ∧ input.field "events" ≠ .arr [] := by
  unfold rule2Absent rule2Empty objectGet Json.field
  cases input.get? "events" with
  | none => simp
  | some events => cases events <;> simp

theorem rule3_eq_nil :
    rule3 go input = [] ↔ EachEvent input fun event => event.isObj = true →
      event.field "event_type" = .str "acquisition" → ¬ NoServices event := by
  refine overEvents_eq_nil fun i event => ?_
  rw [fire_eq_nil, Json.any_get? rfl, NoServices, ← lenOrZero_eq_zero]
  simp

theorem rule4_eq_nil :
    rule4a go input = [] ∧ rule4b go input = [] ↔ EachStep input fun step =>
      step.isObj = true →
      step.field "resource_class" = .str "gpu" ∨ step.field "resource_class" = .str "fpga" →
        step.field "fallback_resource_class" = .str "cpu" := by
  have h4a : rule4a go input = [] ↔ EachStep input fun step => step.isObj = true →
      acceleratorBound step = true → step.field "fallback_resource_class" ≠ .null := by
    refine overSteps_eq_nil fun i j k step => ?_
    rw [fire_eq_nil, objectGet_null]
    simp
  have h4b : rule4b go input = [] ↔ EachStep input fun step => step.isObj = true →
      acceleratorBound step = true → step.field "fallback_resource_class" ≠ .null →
        step.field "fallback_resource_class" = .str "cpu" := by
    refine overSteps_eq_nil fun i j k step => ?_
    rw [fire_eq_nil, objectGet_null]
    simp
  rw [h4a, h4b]
  constructor
  · rintro ⟨ha, hb⟩ event hevent svc hsvc step hstep hobj hclass
    have hbound := acceleratorBound_iff.mpr hclass
    exact hb event hevent svc hsvc step hstep hobj hbound
      (ha event hevent svc hsvc step hstep hobj hbound)
  · intro h
    refine ⟨fun event hevent svc hsvc step hstep hobj hbound => ?_,
      fun event hevent svc hsvc step hstep hobj hbound _ => ?_⟩
    · rw [h event hevent svc hsvc step hstep hobj (acceleratorBound_iff.mp hbound)]
      simp
    · exact h event hevent svc hsvc step hstep hobj (acceleratorBound_iff.mp hbound)

theorem rule5_eq_nil :
    rule5 go input = [] ↔ EachService input fun svc => svc.isObj = true →
      (svc.field "priority").isZero = false := by
  refine overServices_eq_nil fun i j svc => ?_
  rw [fire_eq_nil, Json.any_get? rfl]
  simp

theorem rule6_eq_nil :
    rule6 go input = [] ↔ EachStep input fun step => step.isObj = true →
      step.field "resource_class" = .str "cpu" → step.field "needs_acceleration" ≠ .bool true := by
  refine overSteps_eq_nil fun i j k step => ?_
  rw [fire_eq_nil, Json.any_get? rfl, Json.any_get? rfl]
  simp

theorem rule7_eq_nil :
    rule7 go input = [] ↔ EachEvent input fun event => event.isObj = true →
      event.field "event_type" = .str "download" →
        ¬ ∃ xs, event.field "services" = .arr xs ∧ xs ≠ [] := by
  refine overEvents_eq_nil fun i event => ?_
  rw [fire_eq_nil, Json.any_get? rfl, ← lenOrZero_pos]
  simp

theorem rule8_eq_nil :
    rule8 go input = [] ↔ EachEvent input fun event => event.isObj = true →
      event.field "event_type" = .str "download" →
        event.field "ground_visibility" = .bool true := by
  refine overEvents_eq_nil fun i event => ?_
  have hdefault : (objectGet event "ground_visibility" (.bool false)).isTrue =
      (event.field "ground_visibility").isTrue := by
    unfold objectGet Json.field
    cases event.get? "ground_visibility" <;> rfl
  rw [fire_eq_nil, Json.any_get? rfl, hdefault]
  simp

theorem rule9_eq_nil :
    rule9 go input = [] ↔ EachService input fun svc => svc.isObj = true →
      ¬ (svc.field "steps" = .null ∨ svc.field "steps" = .arr []) := by
  refine overServices_eq_nil fun i j svc => ?_
  rw [fire_eq_nil, ← lenOrZero_eq_zero]
  simp

theorem rule10_eq_nil :
    rule10a go input = [] ∧ rule10b go input = [] ↔ EachService input fun svc =>
      svc.isObj = true → svc.field "landscape_type" = .null ∨
        svc.field "landscape_type" = .str "ocean" ∨ svc.field "landscape_type" = .str "land" := by
  have h10a : rule10a go input = [] ↔ EachService input fun svc => svc.isObj = true →
      ∀ lt, svc.field "landscape_type" = .str lt → lt = "ocean" ∨ lt = "land" := by
    refine overServices_eq_nil fun i j svc => ?_
    cases hg : svc.get? "landscape_type" with
    | none => simp [Json.field, hg]
    | some lt => cases lt <;> simp [Json.field, hg, validLandscapeTypes, or_iff_not_imp_left]
  have h10b : rule10b go input = [] ↔ EachService input fun svc => svc.isObj = true →
      svc.field "landscape_type" ≠ .null → ∃ lt, svc.field "landscape_type" = .str lt := by
    refine overServices_eq_nil fun i j svc => ?_
    rw [fire_eq_nil, objectGet_null, Json.any_get? rfl, ← Json.isStr_iff]
    simp
  rw [h10a, h10b]
  constructor
  · rintro ⟨ha, hb⟩ event hevent svc hsvc hobj
    by_cases hnull : svc.field "landscape_type" = .null
    · exact .inl hnull
    · obtain ⟨lt, hlt⟩ := hb event hevent svc hsvc hobj hnull
      obtain rfl | rfl := ha event hevent svc hsvc hobj lt hlt
      · exact .inr (.inl hlt)
      · exact .inr (.inr hlt)
  · intro h
    refine ⟨fun event hevent svc hsvc hobj lt hlt => ?_,
      fun event hevent svc hsvc hobj hnull => ?_⟩
    · have hcases := h event hevent svc hsvc hobj
      simpa [hlt] using hcases
    · obtain hn | ho | hl := h event hevent svc hsvc hobj
      · exact absurd hn hnull
      · exact ⟨_, ho⟩
      · exact ⟨_, hl⟩

/-! ## The whole document -/

/-- What the silence of each rule says, with the bodies of one rule taken together. -/
structure Silent (input : Json) : Prop where
  eventsList : input.field "events" = .null ∨ ∃ events, input.field "events" = .arr events
  eventObject : (input.field "events").isArr = true →
    EachEvent input fun event => event.isObj = true
  servicesList : (input.field "events").isArr = true → EachEvent input fun event =>
    event.isObj = true →
      event.field "services" = .null ∨ ∃ xs, event.field "services" = .arr xs
  serviceObject : EachEvent input fun event => (event.field "services").isArr = true →
    ∀ svc ∈ items (event.get? "services"), svc.isObj = true
  stepsList : EachService input fun svc => svc.isObj = true →
    svc.field "steps" = .null ∨ ∃ xs, svc.field "steps" = .arr xs
  stepObject : EachService input fun svc => (svc.field "steps").isArr = true →
    ∀ step ∈ items (svc.get? "steps"), step.isObj = true
  named : MissionNamed goBlank input
  someEvent : input.field "events" ≠ .null ∧ input.field "events" ≠ .arr []
  acquisition : EachEvent input fun event => event.isObj = true →
    event.field "event_type" = .str "acquisition" → ¬ NoServices event
  fallback : EachStep input fun step => step.isObj = true →
    step.field "resource_class" = .str "gpu" ∨ step.field "resource_class" = .str "fpga" →
      step.field "fallback_resource_class" = .str "cpu"
  priority : EachService input fun svc => svc.isObj = true → (svc.field "priority").isZero = false
  acceleration : EachStep input fun step => step.isObj = true →
    step.field "resource_class" = .str "cpu" → step.field "needs_acceleration" ≠ .bool true
  transmission : EachEvent input fun event => event.isObj = true →
    event.field "event_type" = .str "download" →
      ¬ ∃ xs, event.field "services" = .arr xs ∧ xs ≠ []
  visibility : EachEvent input fun event => event.isObj = true →
    event.field "event_type" = .str "download" → event.field "ground_visibility" = .bool true
  someStep : EachService input fun svc => svc.isObj = true →
    ¬ (svc.field "steps" = .null ∨ svc.field "steps" = .arr [])
  landscape : EachService input fun svc => svc.isObj = true → svc.field "landscape_type" = .null ∨
    svc.field "landscape_type" = .str "ocean" ∨ svc.field "landscape_type" = .str "land"

theorem violations_eq_nil_iff_silent : violations go input = [] ↔ Silent input := by
  unfold violations
  simp only [List.append_assoc, List.append_eq_nil_iff]
  constructor
  · rintro ⟨hlist, hobj, hserviceList, hserviceObj, hstepList, hstepObj, h1a, h1b, h2a, h2b, h3,
      h4a, h4b, h5, h6, h7, h8, h9, h10a, h10b⟩
    exact {
      eventsList := eventsNotList_eq_nil.mp hlist
      eventObject := (eventNotObject_eq_nil go).mp hobj
      servicesList := (servicesNotList_eq_nil go).mp hserviceList
      serviceObject := (serviceNotObject_eq_nil go).mp hserviceObj
      stepsList := (stepsNotList_eq_nil go).mp hstepList
      stepObject := (stepNotObject_eq_nil go).mp hstepObj
      named := rule1_eq_nil.mp ⟨h1a, h1b⟩
      someEvent := rule2_eq_nil.mp ⟨h2a, h2b⟩
      acquisition := (rule3_eq_nil go).mp h3
      fallback := (rule4_eq_nil go).mp ⟨h4a, h4b⟩
      priority := (rule5_eq_nil go).mp h5
      acceleration := (rule6_eq_nil go).mp h6
      transmission := (rule7_eq_nil go).mp h7
      visibility := (rule8_eq_nil go).mp h8
      someStep := (rule9_eq_nil go).mp h9
      landscape := (rule10_eq_nil go).mp ⟨h10a, h10b⟩ }
  · intro s
    obtain ⟨h1a, h1b⟩ := rule1_eq_nil.mpr s.named
    obtain ⟨h2a, h2b⟩ := rule2_eq_nil.mpr s.someEvent
    obtain ⟨h4a, h4b⟩ := (rule4_eq_nil go).mpr s.fallback
    obtain ⟨h10a, h10b⟩ := (rule10_eq_nil go).mpr s.landscape
    exact ⟨eventsNotList_eq_nil.mpr s.eventsList, (eventNotObject_eq_nil go).mpr s.eventObject,
      (servicesNotList_eq_nil go).mpr s.servicesList,
      (serviceNotObject_eq_nil go).mpr s.serviceObject, (stepsNotList_eq_nil go).mpr s.stepsList,
      (stepNotObject_eq_nil go).mpr s.stepObject, h1a, h1b, h2a, h2b,
      (rule3_eq_nil go).mpr s.acquisition, h4a, h4b, (rule5_eq_nil go).mpr s.priority,
      (rule6_eq_nil go).mpr s.acceleration, (rule7_eq_nil go).mpr s.transmission,
      (rule8_eq_nil go).mpr s.visibility, (rule9_eq_nil go).mpr s.someStep, h10a, h10b⟩

/-- In an admissible plan every rule is silent. -/
theorem Silent.of_admissible (h : PlanAdmissible goBlank input) : Silent input := by
  obtain ⟨hnamed, events, hevents, hne, hall⟩ := h
  have hevent : EachEvent input EventAdmissible := by
    intro event hmem
    rw [items_of_arr hevents] at hmem
    exact hall event hmem
  have hservice : EachService input ServiceAdmissible := by
    intro event hmem svc hsvc
    obtain hnull | ⟨services, hservices, hadm⟩ := (hevent event hmem).services
    · rw [items_of_null hnull] at hsvc
      exact absurd hsvc List.not_mem_nil
    · rw [items_of_arr hservices] at hsvc
      exact hadm svc hsvc
  have hstep : EachStep input StepAdmissible := by
    intro event hmem svc hsvc step hstep
    obtain ⟨steps, hsteps, _, hadm⟩ := (hservice event hmem svc hsvc).steps
    rw [items_of_arr hsteps] at hstep
    exact hadm step hstep
  constructor
  case eventsList => exact .inr ⟨events, hevents⟩
  case eventObject => exact fun _ event hmem => (hevent event hmem).object
  case servicesList =>
    intro _ event hmem _
    obtain hnull | ⟨services, hservices, _⟩ := (hevent event hmem).services
    · exact .inl hnull
    · exact .inr ⟨services, hservices⟩
  case serviceObject => exact fun event hmem _ svc hsvc => (hservice event hmem svc hsvc).object
  case stepsList =>
    intro event hmem svc hsvc _
    obtain ⟨steps, hsteps, _⟩ := (hservice event hmem svc hsvc).steps
    exact .inr ⟨steps, hsteps⟩
  case stepObject =>
    exact fun event hmem svc hsvc _ step hs => (hstep event hmem svc hsvc step hs).object
  case named => exact hnamed
  case someEvent =>
    rw [hevents]
    refine ⟨by simp, fun hnil => hne ?_⟩
    injection hnil
  case acquisition => exact fun event hmem _ => (hevent event hmem).acquisition
  case fallback =>
    exact fun event hmem svc hsvc step hs _ => (hstep event hmem svc hsvc step hs).fallback
  case priority => exact fun event hmem svc hsvc _ => (hservice event hmem svc hsvc).priority
  case acceleration =>
    exact fun event hmem svc hsvc step hs _ => (hstep event hmem svc hsvc step hs).acceleration
  case transmission =>
    rintro event hmem _ hdownload ⟨xs, hxs, hsome⟩
    obtain hno | hno := ((hevent event hmem).download hdownload).1
    · rw [hno] at hxs
      exact Json.noConfusion hxs
    · rw [hno] at hxs
      exact hsome (Json.arr.inj hxs).symm
  case visibility => exact fun event hmem _ hd => ((hevent event hmem).download hd).2
  case someStep =>
    intro event hmem svc hsvc _ hno
    obtain ⟨steps, hsteps, hsome, _⟩ := (hservice event hmem svc hsvc).steps
    rw [hsteps] at hno
    obtain hno | hno := hno
    · exact Json.noConfusion hno
    · exact hsome (Json.arr.inj hno)
  case landscape => exact fun event hmem svc hsvc _ => (hservice event hmem svc hsvc).landscape

namespace Silent

/-- A service of a silent plan is admissible. -/
theorem serviceAdmissible (s : Silent input) {event svc : Json} {services : List Json}
    (hevent : event ∈ items (input.get? "events"))
    (hservices : event.field "services" = .arr services) (hsvc : svc ∈ services) :
    ServiceAdmissible svc := by
  have hmem : svc ∈ items (event.get? "services") := by
    rw [items_of_arr hservices]
    exact hsvc
  have hobj := s.serviceObject event hevent (Json.isArr_iff.mpr ⟨services, hservices⟩) svc hmem
  have hsome := s.someStep event hevent svc hmem hobj
  obtain hnull | ⟨steps, hsteps⟩ := s.stepsList event hevent svc hmem hobj
  · exact absurd (.inl hnull) hsome
  refine ⟨hobj, s.priority event hevent svc hmem hobj, ⟨steps, hsteps, ?_, ?_⟩,
    s.landscape event hevent svc hmem hobj⟩
  · rintro rfl
    exact hsome (.inr hsteps)
  · intro step hstep
    have hstepMem : step ∈ items (svc.get? "steps") := by
      rw [items_of_arr hsteps]
      exact hstep
    have hstepObj := s.stepObject event hevent svc hmem
      (Json.isArr_iff.mpr ⟨steps, hsteps⟩) step hstepMem
    exact ⟨hstepObj, s.fallback event hevent svc hmem step hstepMem hstepObj,
      s.acceleration event hevent svc hmem step hstepMem hstepObj⟩

/-- An event of a silent plan is admissible. -/
theorem eventAdmissible (s : Silent input) (hisArr : (input.field "events").isArr = true)
    {event : Json} (hevent : event ∈ items (input.get? "events")) : EventAdmissible event := by
  have hobj := s.eventObject hisArr event hevent
  have hservices := s.servicesList hisArr event hevent hobj
  refine ⟨hobj, ?_, s.acquisition event hevent hobj, fun hdownload =>
    ⟨?_, s.visibility event hevent hobj hdownload⟩⟩
  · obtain hnull | ⟨services, hfield⟩ := hservices
    · exact .inl hnull
    · exact .inr ⟨services, hfield, fun svc hsvc => s.serviceAdmissible hevent hfield hsvc⟩
  · have hnone := s.transmission event hevent hobj hdownload
    obtain hnull | ⟨services, hfield⟩ := hservices
    · exact .inl hnull
    · by_cases hempty : services = []
      · rw [hempty] at hfield
        exact .inr hfield
      · exact absurd ⟨services, hfield, hempty⟩ hnone

/-- A plan in which every rule is silent is admissible. -/
theorem admissible (s : Silent input) : PlanAdmissible goBlank input := by
  obtain ⟨hnotNull, hnotEmpty⟩ := s.someEvent
  obtain hnull | ⟨events, hevents⟩ := s.eventsList
  · exact absurd hnull hnotNull
  have hisArr : (input.field "events").isArr = true := Json.isArr_iff.mpr ⟨events, hevents⟩
  refine ⟨s.named, events, hevents, ?_, fun event hmem => s.eventAdmissible hisArr ?_⟩
  · rintro rfl
    exact hnotEmpty hevents
  · rw [items_of_arr hevents]
    exact hmem

end Silent

/-- The bundle finds nothing exactly on the admissible plans. -/
theorem violations_eq_nil : violations go input = [] ↔ PlanAdmissible goBlank input := by
  rw [violations_eq_nil_iff_silent]
  exact ⟨Silent.admissible, Silent.of_admissible⟩

theorem allow_iff : allow go input = true ↔ PlanAdmissible goBlank input := by
  rw [← violations_eq_nil go, allow, beq_iff_eq, List.length_eq_zero_iff, deny]
  cases violations go input with
  | nil => simp
  | cons v vs =>
    simp only [List.map_cons, reduceCtorEq, iff_false]
    exact List.ne_nil_of_mem (List.mem_dedup.mpr List.mem_cons_self)

end Bundle

end MissionCompiler.Policy
