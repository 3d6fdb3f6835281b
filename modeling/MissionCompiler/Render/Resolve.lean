import MissionCompiler.Policy.Agreement
import MissionCompiler.Render.Documents

/-!
# Every claim resolves

The claims of the rendered Pods are the ones of the templates rendered with them. On the Argo
side one file holds the workflow and the template its patches name; on the Kueue side the job is
in one file with the exact template it is admitted on, and a template of the scheduler's route
is in another.
-/

namespace MissionCompiler.Render

open Lib Schema Names Compile

variable (host : Host)

/-! ## Argo files -/

/-- The claim of a patched template is made from the one `firstAvailable` template of the file,
under the name the container uses, and in the workflow's namespace. -/
def PatchResolves (docs : List Json) (workflow template patch : Json) : Prop :=
  ∃ rct patchDoc claim ns, docs.filter (offers "firstAvailable") = [rct] ∧
    patch = .str (host.safeDump patchDoc) ∧ podClaims patchDoc = [(claim, docName rct)] ∧
    containerClaims (template.field "container") = [claim] ∧
    docNamespace rct = .str ns ∧ docNamespace workflow = .str ns

/-- The patched templates of a file resolve, and a template is offered only to them. -/
structure ArgoFileResolves (docs : List Json) (workflow : Json) : Prop where
  only : docs.filter (hasKind "Workflow") = [workflow]
  offered : (∃ d ∈ docs, offers "firstAvailable" d = true) ↔
    ∃ t ∈ workflowTemplates workflow, (patchOf t).isSome = true
  resolves : ∀ t ∈ workflowTemplates workflow, ∀ patch, patchOf t = some patch →
    PatchResolves host docs workflow t patch

/-- Which templates of a workflow are patched: `main` is not, and of the steps' templates those
of the steps that qualify. -/
theorem patched_templates {intent : WorkflowIntent} {templates : List Json}
    (h : List.Forall₂ (fun e t => argoTemplate host true intent e.2 e.1 = .ok t)
      intent.steps.zipIdx templates) :
    templates.map (fun t => (patchOf t).isSome) = intent.steps.map expressesFallback := by
  have hstep : List.Forall₂ (fun e t => (patchOf t).isSome = expressesFallback (Prod.fst e))
      intent.steps.zipIdx templates := by
    refine h.imp fun e t ht => ?_
    have hreads := argoTemplate_eq_ok host ht
    rw [Bool.true_and] at hreads
    split at hreads
    · next hexpresses => rw [hreads.1, hexpresses]; rfl
    · next hexpresses => rw [hreads, Bool.eq_false_iff.mpr hexpresses]; rfl
  have hmap := map_eq_map_of_forall₂ hstep
  rw [hmap]
  have hfst : (fun e : WorkflowStep × Nat => expressesFallback e.1) =
      expressesFallback ∘ Prod.fst := rfl
  rw [hfst, ← List.map_map, List.zipIdx_map_fst]

/-- A patched template of a workflow. -/
theorem patched_template {intent : WorkflowIntent} {templates : List Json} {t patch : Json}
    (h : List.Forall₂ (fun e t => argoTemplate host true intent e.2 e.1 = .ok t)
      intent.steps.zipIdx templates) (ht : t ∈ templates) (hpatch : patchOf t = some patch) :
    intent.steps.any expressesFallback = true ∧
      patch = .str (argoDraPodSpecPatch host (claimName host.sha intent.workflowName "accel")
        "compute") ∧ containerClaims (t.field "container") = [.str "compute"] := by
  obtain ⟨e, he, hrendered⟩ := exists_of_mem_forall₂ h ht
  have hreads := argoTemplate_eq_ok host hrendered
  rw [Bool.true_and] at hreads
  split at hreads
  · next hexpresses =>
    obtain ⟨hnamed, hclaims⟩ := hreads
    rw [hnamed] at hpatch
    refine ⟨?_, (Option.some.inj hpatch).symm, hclaims⟩
    apply List.any_eq_true.mpr
    exact ⟨e.1, List.fst_mem_of_mem_zipIdx he, hexpresses⟩
  · rw [hreads] at hpatch
    cases hpatch

/-- A file of `render-argo --dra-fallback`. -/
theorem argoFile_resolves {options : ArgoOptions} (hdra : options.draFallback = true)
    {namespaceName : Option String} {intent : WorkflowIntent} {file : String × List Json}
    (h : argoFile host options namespaceName intent = .ok file) :
    ∃ workflow, ArgoFileResolves host file.2 workflow ∧
      (workflowTemplates workflow).map (fun t => (patchOf t).isSome) =
        false :: intent.steps.map expressesFallback := by
  unfold argoFile at h
  obtain ⟨rct, hrct, h⟩ := bind_eq_ok.mp h
  rw [argoRct, if_pos hdra] at hrct
  rw [hdra] at h
  obtain ⟨workflow, hworkflow, h⟩ := bind_eq_ok.mp h
  obtain ⟨hkind, hns, main, templates, htemplates, hmain, hsteps⟩ :=
    renderArgoWorkflow_eq_ok host hworkflow
  have hother : isClaimTemplate workflow = false := by
    rw [hasKind, Json.eqStr_iff] at hkind
    rw [isClaimTemplate, hasKind, hkind]
    rfl
  have hoffers := offers_of_other_kind hother "firstAvailable"
  have hmap : (workflowTemplates workflow).map (fun t => (patchOf t).isSome) =
      false :: intent.steps.map expressesFallback := by
    rw [htemplates, List.map_cons, hmain, patched_templates host hsteps]
    rfl
  have hany : (∃ t ∈ workflowTemplates workflow, (patchOf t).isSome = true) ↔
      intent.steps.any expressesFallback = true := by
    have hids := congrArg (List.any · id) hmap
    simp only [List.any_map, List.any_cons, id_eq, Bool.false_or, Function.id_comp] at hids
    rw [← List.any_eq_true, hids]
  rw [← Except.ok.inj h]
  refine ⟨workflow, ?_, hmap⟩
  rcases firstAvailableRct_eq_ok host hrct with ⟨rfl, hnone⟩ |
    ⟨hsome, ns, annotations, alternatives, rfl, rfl, -⟩
  · show ArgoFileResolves host [workflow] workflow
    refine ⟨by rw [List.filter_cons_of_pos hkind]; rfl, ?_, ?_⟩
    · rw [hany, hnone]
      simp [hoffers]
    · intro t ht patch hpatch
      have hpatched := hany.mp ⟨t, ht, by rw [hpatch]; rfl⟩
      rw [hnone] at hpatched
      exact Bool.noConfusion hpatched
  · generalize hrct : claimTemplate host (claimName host.sha intent.workflowName "accel") ns
      "scheduler" rendererArgo roleSchedulerFallback intent.missionId annotations
      [("name", .str "compute"), ("firstAvailable", alternatives)] = rct
    have hrctOffers : offers "firstAvailable" rct = true := by
      rw [← hrct, offers_claimTemplate]
      rfl
    have hrctKind : hasKind "Workflow" rct = false := by
      rw [← hrct]
      rfl
    show ArgoFileResolves host [rct, workflow] workflow
    refine ⟨?_, ?_, ?_⟩
    · rw [List.filter_cons_of_neg (by simp [hrctKind]), List.filter_cons_of_pos hkind]
      rfl
    · rw [hany, hsome]
      simp [hrctOffers]
    · intro t ht patch hpatch
      rw [htemplates] at ht
      rcases List.mem_cons.mp ht with rfl | ht
      · rw [hmain] at hpatch
        cases hpatch
      · obtain ⟨-, htext, hclaims⟩ := patched_template host hsteps ht hpatch
        refine ⟨rct, podSpecPatch (claimName host.sha intent.workflowName "accel") "compute",
          .str "compute", ns, ?_, htext, ?_, hclaims, ?_, hns⟩
        · rw [List.filter_cons_of_pos hrctOffers, List.filter_cons_of_neg (by simp [hoffers])]
          rfl
        · rw [← hrct]
          rfl
        · rw [← hrct]
          rfl

/-! ## Plans the policy admits -/

/-- The policy layer admits a plan, by one engine or the other. -/
def Admitted (str : Json → String) (go : Rego.Printer) (isoformat : Timestamp → String)
    (plan : MissionPlan) : Prop :=
  Policy.Baseline.violations str (plan.dump isoformat) = .ok [] ∨
    Policy.Bundle.allow go (.obj (plan.dump isoformat)) = true

theorem Admitted.eventsAdmissible {str : Json → String} {go : Rego.Printer}
    {isoformat : Timestamp → String} {plan : MissionPlan} (h : Admitted str go isoformat plan) :
    Policy.EventsAdmissible (.obj (plan.dump isoformat)) := by
  rcases h with h | h
  · have hclasses : Policy.ClassesHashable (.obj (plan.dump isoformat)) := by
      by_contra hraises
      obtain ⟨e, he⟩ := (Policy.Baseline.violations_raises str).mpr hraises
      rw [h] at he
      cases he
    exact ((Policy.Baseline.violations_eq_nil str hclasses).mp h).2
  · exact ((Policy.Bundle.allow_iff go).mp h).2

/-- The services of an admitted plan are admissible. -/
theorem Admitted.service {str : Json → String} {go : Rego.Printer}
    {isoformat : Timestamp → String} {plan : MissionPlan} (h : Admitted str go isoformat plan)
    {event : MissionEvent} (hevent : event ∈ plan.events) {service : AIService}
    (hservice : service ∈ event.services) : Policy.ServiceAdmissible service.dump := by
  obtain ⟨events, hevents, _, hadmissible⟩ := h.eventsAdmissible
  have hlist : events = plan.events.map (MissionEvent.dump isoformat) :=
    (Json.arr.inj (Eq.trans rfl hevents)).symm
  have heventOk := hadmissible (event.dump isoformat) (by
    rw [hlist]
    exact List.mem_map_of_mem hevent)
  rcases heventOk.services with hnull | ⟨services, hservices, hall⟩
  · cases hnull
  · apply hall
    have hlist : services = event.services.map AIService.dump :=
      (Json.arr.inj (Eq.trans rfl hservices)).symm
    rw [hlist]
    exact List.mem_map_of_mem hservice

/-- A GPU step of an admitted plan falls back to the CPU. -/
theorem Admitted.fallback {str : Json → String} {go : Rego.Printer}
    {isoformat : Timestamp → String} {plan : MissionPlan} (h : Admitted str go isoformat plan)
    {event : MissionEvent} (hevent : event ∈ plan.events) {service : AIService}
    (hservice : service ∈ event.services) {step : WorkflowStep} (hstep : step ∈ service.steps)
    (hgpu : step.resourceClass = .gpu) : step.fallbackResourceClass = some .cpu := by
  have hstepOk : Policy.StepAdmissible step.dump := by
    obtain ⟨steps, hsteps, _, hall⟩ := (h.service hevent hservice).steps
    apply hall
    have hlist : steps = service.steps.map WorkflowStep.dump :=
      (Json.arr.inj (Eq.trans rfl hsteps)).symm
    rw [hlist]
    exact List.mem_map_of_mem hstep
  have hclass : step.dump.field "resource_class" = .str "gpu" := by
    show Json.str step.resourceClass.value = _
    rw [hgpu]
    rfl
  have hfallback : dumpOption (fun c => Json.str c.value) step.fallbackResourceClass =
      .str "cpu" := hstepOk.fallback (.inl hclass)
  cases hfb : step.fallbackResourceClass with
  | none =>
    rw [hfb] at hfallback
    cases hfallback
  | some c =>
    rw [hfb] at hfallback
    cases c with
    | cpu => rfl
    | gpu => exact absurd (Json.str.inj hfallback) (by decide)
    | fpga => exact absurd (Json.str.inj hfallback) (by decide)

/-- In an admitted plan the steps that qualify are the GPU steps. -/
theorem Admitted.expressesFallback {str : Json → String} {go : Rego.Printer}
    {isoformat : Timestamp → String} {plan : MissionPlan} (h : Admitted str go isoformat plan)
    {p : MissionEvent × AIService} (hp : p ∈ pairs plan) {step : WorkflowStep}
    (hstep : step ∈ p.2.steps) : expressesFallback step = (step.resourceClass == .gpu) := by
  obtain ⟨event, hevent, hp⟩ := List.mem_flatMap.mp hp
  obtain ⟨service, hservice, rfl⟩ := List.mem_map.mp hp
  have hfallback := h.fallback (List.mem_of_mem_filter hevent) hservice hstep
  unfold Render.expressesFallback
  cases hclass : step.resourceClass with
  | gpu => rw [hfallback hclass]; rfl
  | cpu => cases step.fallbackResourceClass with
    | none => rfl
    | some c => cases c <;> rfl
  | fpga => cases step.fallbackResourceClass with
    | none => rfl
    | some c => cases c <;> rfl

end MissionCompiler.Render
