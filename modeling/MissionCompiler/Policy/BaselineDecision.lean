import MissionCompiler.Policy.Admissible
import MissionCompiler.Policy.Baseline

/-!
# What the baseline decides

The baseline decides `PlanAdmissible`, with Python's notion of blank, on every document it gets
through (`violations_eq_nil`). It does not get through all of them: a step whose
`resource_class` is a list or a dict raises out of rule 4, and nothing else raises
(`violations_raises`).
-/

namespace MissionCompiler.Policy

open Lib

/-! ## Documents the baseline gets through -/

/-- Rule 4 can ask whether the step's class is an accelerator's: the class has a hash. -/
def StepHashable (step : Json) : Prop := (step.field "resource_class").isContainer = false

def ServiceHashable (svc : Json) : Prop :=
  ∀ steps, svc.field "steps" = .arr steps → ∀ step ∈ steps, StepHashable step

def EventHashable (event : Json) : Prop :=
  ∀ services, event.field "services" = .arr services → ∀ svc ∈ services, ServiceHashable svc

/-- No step the walk reaches has a list or a dict for its class. -/
def ClassesHashable (plan : Json) : Prop :=
  ∀ events, plan.field "events" = .arr events → ∀ event ∈ events, EventHashable event

namespace Baseline

variable (str : Json → String)

/-! ## One rule at a time -/

theorem rule1_eq_nil {mid : Json} :
    rule1 mid = [] ↔ mid ≠ .null ∧ ∀ s, mid = .str s → pyBlank s = false := by
  cases mid <;> simp [rule1, pyBlank]

theorem malformedGuard_eq_nil {field : Json} {message path : String} :
    malformedGuard (asList field).2 message path = [] ↔
      field = .null ∨ ∃ xs, field = .arr xs := by
  cases field <;> simp [malformedGuard, asList]

theorem rule3_eq_nil {i : Nat} {etype services : Json} :
    rule3 i etype (asList services).1 (asList services).2 = [] ↔
      (etype = .str "acquisition" → ¬ (services = .null ∨ services = .arr [])) := by
  unfold rule3
  rw [ite_eq_right_iff]
  cases services <;> simp [asList]

theorem rule4_eq_nil {stp : String} {accelerator : Bool} {name rc fb : Json} :
    rule4 str stp accelerator name rc fb = [] ↔ (accelerator = true → fb = .str "cpu") := by
  cases accelerator with
  | false => simp [rule4]
  | true => cases fb <;> simp [rule4, Json.isNull, Json.eqStr, fallbackClass]

theorem rule5_eq_nil {sp : String} {sid prio : Json} :
    rule5 str sp sid prio = [] ↔ prio.isZero = false := by
  simp [rule5]

theorem rule6_eq_nil {stp : String} {name rc needs : Json} :
    rule6 str stp name rc needs = [] ↔ (rc = .str "cpu" → needs ≠ .bool true) := by
  simp [rule6]

theorem rule7_eq_nil {i : Nat} {etype services : Json}
    (h : services = .null ∨ ∃ xs, services = .arr xs) :
    rule7 i etype (asList services).1 (asList services).2 = [] ↔
      (etype = .str "download" → services = .null ∨ services = .arr []) := by
  unfold rule7
  rw [ite_eq_right_iff]
  obtain rfl | ⟨xs, rfl⟩ := h <;> simp [asList]

theorem rule8_eq_nil {i : Nat} {etype visibility : Json} :
    rule8 i etype visibility = [] ↔ (etype = .str "download" → visibility = .bool true) := by
  simp [rule8]

theorem rule9_eq_nil {sp : String} {sid steps : Json}
    (h : steps = .null ∨ ∃ xs, steps = .arr xs) :
    rule9 str sp sid (asList steps).1 (asList steps).2 = [] ↔
      ∃ xs, steps = .arr xs ∧ xs ≠ [] := by
  obtain rfl | ⟨xs, rfl⟩ := h <;> simp [rule9, asList]

theorem rule10_eq_nil {sp : String} {sid lt : Json} :
    rule10 str sp sid lt = [] ↔ lt = .null ∨ lt = .str "ocean" ∨ lt = .str "land" := by
  cases lt with
  | str lt =>
    simp only [rule10, validLandscapeTypes, ite_eq_left_iff, List.contains_cons, reduceCtorEq,
      Json.str.injEq, false_or]
    by_cases ho : lt = "ocean" <;> by_cases hl : lt = "land" <;> simp [ho, hl]
  | _ => simp [rule10]

/-! ## One node at a time -/

/-- Membership in the accelerator classes raises for a container, and otherwise compares. -/
theorem inStrings_acceleratorClasses {rc : Json} (h : rc.isContainer = false) :
    rc.inStrings acceleratorClasses = .ok (rc.eqStr "gpu" || rc.eqStr "fpga") := by
  cases rc with
  | str s =>
    simp only [Json.inStrings, acceleratorClasses, Json.eqStr, List.contains_cons,
      List.contains_nil, Bool.or_false]
  | arr => exact Bool.noConfusion h
  | obj => exact Bool.noConfusion h
  | _ => rfl

theorem stepViolations_raises {stp : String} {step : Json} :
    (∃ e, stepViolations str stp step = .error e) ↔ ¬ StepHashable step := by
  cases step with
  | obj step =>
    simp only [stepViolations, StepHashable, Json.field_obj]
    generalize (step.lookup "resource_class").getD .null = rc
    cases hc : rc.isContainer with
    | false =>
      rw [inStrings_acceleratorClasses hc]
      simp [bind, Except.bind, pure, Except.pure]
    | true =>
      cases rc <;> simp_all [Json.inStrings, Json.isContainer, bind, Except.bind]
  | _ => simp [stepViolations, StepHashable, Json.field, Json.get?, Json.isContainer]

theorem stepViolations_eq_nil {stp : String} {step : Json} (h : StepHashable step) :
    stepViolations str stp step = .ok [] ↔ StepAdmissible step := by
  cases step with
  | obj step =>
    have hin := inStrings_acceleratorClasses h
    rw [Json.field_obj] at hin
    simp only [stepViolations, hin, bind, Except.bind, pure, Except.pure, Except.ok.injEq,
      List.append_eq_nil_iff, rule4_eq_nil, rule6_eq_nil, Bool.or_eq_true, Json.eqStr_iff]
    exact ⟨fun h => ⟨rfl, h.1, h.2⟩, fun ha => ⟨ha.fallback, ha.acceleration⟩⟩
  | _ =>
    simp only [stepViolations, Except.ok.injEq, List.cons_ne_nil, false_iff]
    exact fun ha => absurd ha.object Bool.false_ne_true

theorem stepsViolations_raises {sp : String} {steps : List Json} :
    (∃ e, stepsViolations str sp steps = .error e) ↔ ∃ step ∈ steps, ¬ StepHashable step :=
  enumerateM_raises steps 0 fun _ _ _ => stepViolations_raises str

theorem stepsViolations_eq_nil {sp : String} {steps : List Json}
    (h : ∀ step ∈ steps, StepHashable step) :
    stepsViolations str sp steps = .ok [] ↔ ∀ step ∈ steps, StepAdmissible step :=
  enumerateM_eq_nil steps 0 fun _ step hstep => stepViolations_eq_nil str (h step hstep)

/-- The steps the loop runs over are the ones a service lists. -/
theorem serviceHashable_iff {svc : Json} :
    ServiceHashable svc ↔ ∀ step ∈ (asList (svc.field "steps")).1, StepHashable step := by
  unfold ServiceHashable
  cases svc.field "steps" <;> simp [asList]

theorem serviceViolations_raises {sp : String} {svc : Json} :
    (∃ e, serviceViolations str sp svc = .error e) ↔ ¬ ServiceHashable svc := by
  cases svc with
  | obj svc =>
    rw [serviceHashable_iff]
    refine prefixed_raises.trans ((stepsViolations_raises str).trans ?_)
    simp
  | _ => simp [serviceViolations, ServiceHashable, Json.field, Json.get?]

theorem serviceViolations_eq_nil {sp : String} {svc : Json} (h : ServiceHashable svc) :
    serviceViolations str sp svc = .ok [] ↔ ServiceAdmissible svc := by
  cases svc with
  | obj svc =>
    rw [serviceHashable_iff] at h
    refine prefixed_eq_nil.trans ?_
    simp only [List.append_eq_nil_iff, malformedGuard_eq_nil, rule5_eq_nil, rule10_eq_nil]
    constructor
    · rintro ⟨⟨⟨⟨hlist, h5⟩, h9⟩, h10⟩, hnested⟩
      obtain ⟨steps, hsteps, hne⟩ := (rule9_eq_nil str hlist).mp h9
      refine ⟨rfl, h5, ⟨steps, hsteps, hne, ?_⟩, h10⟩
      have hall := (stepsViolations_eq_nil str h).mp hnested
      simpa [hsteps, asList] using hall
    · intro ha
      obtain ⟨steps, hsteps, hne, hall⟩ := ha.steps
      rw [Json.field_obj] at hsteps
      have hlist : (svc.lookup "steps").getD .null = .null ∨
          ∃ xs, (svc.lookup "steps").getD .null = .arr xs := .inr ⟨steps, hsteps⟩
      refine ⟨⟨⟨⟨hlist, ha.priority⟩, (rule9_eq_nil str hlist).mpr ⟨steps, hsteps, hne⟩⟩,
        ha.landscape⟩, (stepsViolations_eq_nil str h).mpr ?_⟩
      simpa [hsteps, asList] using hall
  | _ =>
    simp only [serviceViolations, Except.ok.injEq, List.cons_ne_nil, false_iff]
    exact fun ha => absurd ha.object Bool.false_ne_true

theorem servicesViolations_raises {ep : String} {services : List Json} :
    (∃ e, servicesViolations str ep services = .error e) ↔
      ∃ svc ∈ services, ¬ ServiceHashable svc :=
  enumerateM_raises services 0 fun _ _ _ => serviceViolations_raises str

theorem servicesViolations_eq_nil {ep : String} {services : List Json}
    (h : ∀ svc ∈ services, ServiceHashable svc) :
    servicesViolations str ep services = .ok [] ↔ ∀ svc ∈ services, ServiceAdmissible svc :=
  enumerateM_eq_nil services 0 fun _ svc hsvc => serviceViolations_eq_nil str (h svc hsvc)

/-- The services the loop runs over are the ones an event lists. -/
theorem eventHashable_iff {event : Json} :
    EventHashable event ↔
      ∀ svc ∈ (asList (event.field "services")).1, ServiceHashable svc := by
  unfold EventHashable
  cases event.field "services" <;> simp [asList]

theorem eventViolations_raises {i : Nat} {event : Json} :
    (∃ e, eventViolations str i event = .error e) ↔ ¬ EventHashable event := by
  cases event with
  | obj event =>
    rw [eventHashable_iff]
    refine prefixed_raises.trans ((servicesViolations_raises str).trans ?_)
    simp
  | _ => simp [eventViolations, EventHashable, Json.field, Json.get?]

theorem eventViolations_eq_nil {i : Nat} {event : Json} (h : EventHashable event) :
    eventViolations str i event = .ok [] ↔ EventAdmissible event := by
  cases event with
  | obj event =>
    rw [eventHashable_iff] at h
    refine prefixed_eq_nil.trans ?_
    simp only [List.append_eq_nil_iff, malformedGuard_eq_nil, rule3_eq_nil, rule8_eq_nil]
    constructor
    · rintro ⟨⟨⟨⟨hlist, h3⟩, h7⟩, h8⟩, hnested⟩
      have hall := (servicesViolations_eq_nil str h).mp hnested
      refine ⟨rfl, ?_, h3, fun hd => ⟨(rule7_eq_nil hlist).mp h7 hd, h8 hd⟩⟩
      refine hlist.imp_right fun ⟨services, hservices⟩ => ⟨services, hservices, ?_⟩
      simpa [hservices, asList] using hall
    · intro ha
      have hlist : (event.lookup "services").getD .null = .null ∨
          ∃ xs, (event.lookup "services").getD .null = .arr xs :=
        ha.services.imp_right fun ⟨services, hservices, _⟩ => ⟨services, hservices⟩
      refine ⟨⟨⟨⟨hlist, ha.acquisition⟩, (rule7_eq_nil hlist).mpr fun hd => (ha.download hd).1⟩,
        fun hd => (ha.download hd).2⟩, (servicesViolations_eq_nil str h).mpr ?_⟩
      obtain hnull | ⟨services, hservices, hall⟩ := ha.services
      · rw [Json.field_obj] at hnull
        simp [hnull, asList]
      · rw [Json.field_obj] at hservices
        simpa [hservices, asList] using hall
  | _ =>
    simp only [eventViolations, Except.ok.injEq, List.cons_ne_nil, false_iff]
    exact fun ha => absurd ha.object Bool.false_ne_true

theorem eventsViolations_raises {events : List Json} :
    (∃ e, eventsViolations str events = .error e) ↔ ∃ event ∈ events, ¬ EventHashable event :=
  enumerateM_raises events 0 fun _ _ _ => eventViolations_raises str

theorem eventsViolations_eq_nil {events : List Json} (h : ∀ event ∈ events, EventHashable event) :
    eventsViolations str events = .ok [] ↔ ∀ event ∈ events, EventAdmissible event :=
  enumerateM_eq_nil events 0 fun _ event hevent => eventViolations_eq_nil str (h event hevent)

/-! ## The whole document -/

/-- The baseline raises exactly on the documents with a class it cannot hash. -/
theorem violations_raises {plan : List (String × Json)} :
    (∃ e, violations str plan = .error e) ↔ ¬ ClassesHashable (.obj plan) := by
  unfold violations ClassesHashable
  rw [Json.field_obj]
  cases (plan.lookup "events").getD .null with
  | arr events =>
    refine prefixed_raises.trans ((eventsViolations_raises str).trans ?_)
    simp
  | _ => simp [pure, Except.pure]

/-- Where it does not raise, the baseline finds nothing exactly on the admissible plans. -/
theorem violations_eq_nil {plan : List (String × Json)} (h : ClassesHashable (.obj plan)) :
    violations str plan = .ok [] ↔ PlanAdmissible pyBlank (.obj plan) := by
  unfold violations PlanAdmissible EventsAdmissible MissionNamed
  simp only [Json.field_obj]
  cases hevents : (plan.lookup "events").getD .null with
  | arr events =>
    refine prefixed_eq_nil.trans ?_
    rw [List.append_eq_nil_iff, rule1_eq_nil, eventsViolations_eq_nil str (h events hevents)]
    simp [rule2, and_assoc]
  | _ => simp [rule2, pure, Except.pure]

end Baseline

end MissionCompiler.Policy
