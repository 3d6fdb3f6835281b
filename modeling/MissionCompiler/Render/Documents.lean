import MissionCompiler.Compile.Unique
import MissionCompiler.Render.Job

/-!
# Reading rendered documents

What a cluster reads in the documents of a render: their kinds, names and namespaces, the
requests a claim template makes, the claims a Pod has and the ones its containers use. Below,
what each renderer writes in those places.
-/

namespace MissionCompiler.Render

open Lib Schema Names Compile

/-! ## Places -/

def elements : Json → List Json
  | .arr xs => xs
  | _ => []

def hasKind (kind : String) (doc : Json) : Bool := (doc.field "kind").eqStr kind

def isClaimTemplate : Json → Bool := hasKind "ResourceClaimTemplate"

def docName (doc : Json) : Json := (doc.field "metadata").field "name"

def docNamespace (doc : Json) : Json := (doc.field "metadata").field "namespace"

def deviceRequests (doc : Json) : List Json :=
  elements ((((doc.field "spec").field "spec").field "devices").field "requests")

/-- A claim template with a request of a kind: `exactly` or `firstAvailable`. -/
def offers (request : String) (doc : Json) : Bool :=
  isClaimTemplate doc && (deviceRequests doc).any fun r => (r.get? request).isSome

def workflowTemplates (workflow : Json) : List Json :=
  elements ((workflow.field "spec").field "templates")

def patchOf (template : Json) : Option Json := template.get? "podSpecPatch"

/-- The claims a Pod has, each with the template it is made from. -/
def podClaims (pod : Json) : List (Json × Json) :=
  (elements (pod.field "resourceClaims")).map fun c =>
    (c.field "name", c.field "resourceClaimTemplateName")

/-- The claims a container uses. -/
def containerClaims (container : Json) : List Json :=
  (elements ((container.field "resources").field "claims")).map (Json.field "name")

def jobPod (job : Json) : Json := ((job.field "spec").field "template").field "spec"

def podContainers (pod : Json) : List Json := elements (pod.field "containers")

/-- A Pod with a container that asks for an extended resource. -/
def asksFor (resource : String) (pod : Json) : Bool :=
  (podContainers pod).any fun c =>
    (((c.field "resources").field "requests").get? resource).isSome ||
      (((c.field "resources").field "limits").get? resource).isSome

/-- A Pod that asks for a GPU, by a claim or by the static resource. -/
def asksForGpu (pod : Json) : Bool := !(podClaims pod).isEmpty || asksFor "nvidia.com/gpu" pod

def asksForFpga (pod : Json) : Bool := asksFor "xilinx.com/fpga" pod

variable (host : Host)

/-! ## Claim templates -/

section Template

variable (name namespaceName route renderer role missionId : String)
  (annotations : List (String × String)) (request : List (String × Json))

@[simp] theorem isClaimTemplate_claimTemplate : isClaimTemplate (claimTemplate host name
    namespaceName route renderer role missionId annotations request) = true := rfl

theorem offers_claimTemplate (kind : String) : offers kind (claimTemplate host name
    namespaceName route renderer role missionId annotations request) =
      (request.lookup kind).isSome := by
  rw [offers, isClaimTemplate_claimTemplate, Bool.true_and]
  show ([Json.obj request].any fun r => (r.get? kind).isSome) = _
  rw [List.any_cons, List.any_nil, Bool.or_false, Json.get?_obj]

end Template

theorem offers_of_other_kind {doc : Json} (h : isClaimTemplate doc = false) (request : String) :
    offers request doc = false := by
  rw [offers, h, Bool.false_and]

/-- A template `_first_available_rct` gives is there for a qualifying step, and is made for the
namespace of the render. -/
theorem firstAvailableRct_eq_ok {intent : WorkflowIntent} {namespaceName : Option String}
    {renderer : String} {rct : Option Json}
    (h : firstAvailableRct host intent namespaceName renderer = .ok rct) :
    (rct = none ∧ intent.steps.any expressesFallback = false) ∨
      (intent.steps.any expressesFallback = true ∧ ∃ ns annotations alternatives,
        namespaceName = some ns ∧ rct = some (claimTemplate host
          (claimName host.sha intent.workflowName "accel") ns "scheduler" renderer
          roleSchedulerFallback intent.missionId annotations
          [("name", .str "compute"), ("firstAvailable", alternatives)])) := by
  unfold firstAvailableRct at h
  cases hsteps : draFallbackSteps intent with
  | nil =>
    rw [hsteps] at h
    refine .inl ⟨(Except.ok.inj h).symm, ?_⟩
    apply List.any_eq_false.mpr
    intro step hstep
    exact List.filter_eq_nil_iff.mp hsteps step hstep
  | cons step steps =>
    have hmem : step ∈ intent.steps.filter expressesFallback := by
      show step ∈ draFallbackSteps intent
      rw [hsteps]
      exact List.mem_cons_self
    obtain ⟨hstep, hexpresses⟩ := List.mem_filter.mp hmem
    refine .inr ⟨List.any_eq_true.mpr ⟨step, hstep, hexpresses⟩, ?_⟩
    rw [hsteps] at h
    cases namespaceName with
    | none => cases h
    | some ns =>
      cases hfallback : step.fallbackResourceClass with
      | none =>
        simp only [hfallback] at h
        cases h
      | some fallback =>
        simp only [hfallback, rctNameForIntent_eq, bind_eq_ok] at h
        obtain ⟨name, hname, annotations, _, primaryClass, _, fallbackClass, _, hrct⟩ := h
        rw [← Except.ok.inj hname] at hrct
        exact ⟨ns, annotations, _, rfl, (Except.ok.inj hrct).symm⟩

/-! ## Workflows -/

theorem optionalField_lookup (value : Option Json) :
    (optionalField "affinity" value).lookup "podSpecPatch" = none := by
  cases value with
  | none => rfl
  | some value => rfl

theorem containerEntrypoint_lookup (step : WorkflowStep) :
    (containerEntrypoint step).lookup "resources" = none := by
  unfold containerEntrypoint
  split <;> split <;> rfl

/-- What a template says of claims: a patch and a claim of its container where the step
qualifies, and neither elsewhere. -/
theorem argoTemplate_eq_ok {draFallback : Bool} {intent : WorkflowIntent} {idx : Nat}
    {step : WorkflowStep} {template : Json}
    (h : argoTemplate host draFallback intent idx step = .ok template) :
    if draFallback && expressesFallback step then
      patchOf template = some (.str (argoDraPodSpecPatch host
        (claimName host.sha intent.workflowName "accel") "compute")) ∧
      containerClaims (template.field "container") = [.str "compute"]
    else patchOf template = none := by
  unfold argoTemplate at h
  obtain ⟨name, _, h⟩ := bind_eq_ok.mp h
  by_cases hqualifies : (draFallback && expressesFallback step) = true
  · rw [if_pos hqualifies] at h ⊢
    obtain ⟨rct, hrct, h⟩ := bind_eq_ok.mp h
    rw [rctNameForIntent_eq] at hrct
    rw [← Except.ok.inj h, ← Except.ok.inj hrct]
    constructor
    · rw [patchOf, Json.get?_obj, List.lookup_append, List.lookup_append, optionalField_lookup]
      rfl
    · have hresources : ∀ env : Json, ∀ resources : Json,
          ([("image", Json.str step.image)] ++ containerEntrypoint step ++ [("env", env)] ++
            [("resources", resources)]).lookup "resources" = some resources := by
        intro env resources
        rw [List.lookup_append, List.lookup_append, List.lookup_append,
          containerEntrypoint_lookup]
        rfl
      show containerClaims (Json.obj _) = _
      rw [containerClaims, Json.field_obj, hresources]
      rfl
  · rw [if_neg hqualifies] at h ⊢
    rw [← Except.ok.inj h, patchOf, Json.get?_obj, List.lookup_append, optionalField_lookup]
    rfl

/-- The patches of a workflow's templates: none on `main`, and then those of the steps. -/
theorem renderArgoWorkflow_eq_ok {intent : WorkflowIntent} {draFallback : Bool}
    {namespaceName serviceAccount : Option String} {workflow : Json}
    (h : renderArgoWorkflow host intent draFallback namespaceName serviceAccount = .ok workflow) :
    hasKind "Workflow" workflow = true ∧
      docNamespace workflow = (namespaceName.map Json.str).getD .null ∧
      ∃ main templates, workflowTemplates workflow = main :: templates ∧ patchOf main = none ∧
        List.Forall₂ (fun e t => argoTemplate host draFallback intent e.2 e.1 = .ok t)
          intent.steps.zipIdx templates := by
  unfold renderArgoWorkflow at h
  obtain ⟨templates, htemplates, h⟩ := bind_eq_ok.mp h
  obtain ⟨names, _, h⟩ := bind_eq_ok.mp h
  obtain ⟨mode, _, h⟩ := bind_eq_ok.mp h
  obtain ⟨orchidePriority, _, h⟩ := bind_eq_ok.mp h
  obtain ⟨annotations, _, h⟩ := bind_eq_ok.mp h
  obtain ⟨inNamespace, hns, h⟩ := bind_eq_ok.mp h
  obtain ⟨account, _, h⟩ := bind_eq_ok.mp h
  rw [← Except.ok.inj h]
  refine ⟨rfl, ?_, _, templates, rfl, rfl, mapM_eq_ok.mp htemplates⟩
  cases namespaceName with
  | none =>
    rw [← Except.ok.inj hns]
    rfl
  | some ns =>
    obtain ⟨checked, hchecked, hns⟩ := bind_eq_ok.mp hns
    unfold requireK8sLabel at hchecked
    split at hchecked
    · cases hchecked
    · rw [← Except.ok.inj hns, ← Except.ok.inj hchecked]
      rfl

end MissionCompiler.Render

