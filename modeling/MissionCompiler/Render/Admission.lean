import MissionCompiler.Render.Grammar
import MissionCompiler.Render.Resolve

/-!
# Jobs and the claims they are admitted on

The job of an intent runs one step, and asks for what that step's class needs. It has a claim
exactly when the service has a GPU step, because the primary step is then one, and that is also
when the exact template is rendered into the job's file.
-/

namespace MissionCompiler.Render

open Lib Schema Names Compile

variable (host : Host)

/-! ## The primary step -/

theorem primaryOf_gpu {steps : List (WorkflowStep × Nat)} {primary : WorkflowStep × Nat}
    (h : primaryOf steps = .ok primary) :
    primary.1.resourceClass = .gpu ↔ ∃ e ∈ steps, e.1.resourceClass = .gpu := by
  have hmem : primary ∈ steps ∧ ((∃ e ∈ steps, e.1.resourceClass = .gpu) →
      primary.1.resourceClass = .gpu) := by
    unfold primaryOf at h
    split at h
    · next e es hgpu =>
      have he : e ∈ steps.filter fun e => e.1.resourceClass == .gpu := by
        rw [hgpu]
        exact List.mem_cons_self
      rw [Except.ok.inj h] at he
      obtain ⟨hprimary, hclass⟩ := List.mem_filter.mp he
      exact ⟨hprimary, fun _ => beq_iff_eq.mp hclass⟩
    · next hgpu =>
      have hnone : ¬ ∃ e ∈ steps, e.1.resourceClass = .gpu := by
        intro ⟨e, he, hclass⟩
        exact List.filter_eq_nil_iff.mp hgpu e he (beq_iff_eq.mpr hclass)
      split at h
      · next e es hfpga =>
        have he : e ∈ steps.filter fun e => e.1.resourceClass == .fpga := by
          rw [hfpga]
          exact List.mem_cons_self
        rw [Except.ok.inj h] at he
        exact ⟨List.mem_of_mem_filter he, fun hsome => absurd hsome hnone⟩
      · split at h
        · next e es =>
          rw [Except.ok.inj h] at hnone ⊢
          exact ⟨List.mem_cons_self, fun hsome => absurd hsome hnone⟩
        · cases h
  exact ⟨fun hclass => ⟨primary, hmem.1, hclass⟩, hmem.2⟩

theorem requiresGpu_iff {intent : WorkflowIntent} :
    requiresGpu intent = true ↔ ∃ s ∈ intent.steps, s.resourceClass = .gpu := by
  rw [requiresGpu, List.any_eq_true]
  simp only [beq_iff_eq]

/-- The primary step is a GPU step when there is one. -/
theorem primaryStep_gpu {intent : WorkflowIntent} {primary : WorkflowStep} {position : Nat}
    (h : primaryStep intent = .ok (primary, position)) :
    primary.resourceClass = .gpu ↔ requiresGpu intent = true := by
  have hany : (∃ e ∈ intent.steps.zipIdx, e.1.resourceClass = .gpu) ↔
      ∃ s ∈ intent.steps, s.resourceClass = .gpu := by
    have hsteps := List.zipIdx_map_fst 0 intent.steps
    constructor
    · intro ⟨e, he, hclass⟩
      exact ⟨e.1, List.fst_mem_of_mem_zipIdx he, hclass⟩
    · intro ⟨s, hs, hclass⟩
      rw [← hsteps] at hs
      obtain ⟨e, he, rfl⟩ := List.mem_map.mp hs
      exact ⟨e, he, hclass⟩
  rw [primaryOf_gpu h, hany, requiresGpu_iff]

/-! ## What a Pod asks for -/

theorem podSpec_lookup (step : WorkflowStep) (key : String) (h : key ≠ "affinity")
    (fields : List (String × Json)) :
    (optionalField "affinity" (preferredAffinity step) ++ fields).lookup key =
      fields.lookup key := by
  rw [List.lookup_append]
  cases preferredAffinity step with
  | none => rfl
  | some a =>
    rw [optionalField, List.lookup_cons, beq_false_of_ne h]
    rfl

theorem podClaims_podSpec (primary : WorkflowStep) (cpu memory rctName : String) :
    podClaims (podSpec primary true cpu memory rctName) =
      if primary.resourceClass = .gpu then [(.str "gpu", .str rctName)] else [] := by
  have hfield : (podSpec primary true cpu memory rctName).field "resourceClaims" =
      ((podResources primary.resourceClass true rctName).lookup "resourceClaims").getD .null := by
    rw [podSpec, Json.field_obj, List.append_assoc, List.lookup_append,
      podSpec_lookup _ _ (by decide)]
    rfl
  rw [podClaims, hfield]
  cases primary.resourceClass <;> rfl

/-- The resources of the one container. -/
theorem podContainers_podSpec (primary : WorkflowStep) (draEnabled : Bool)
    (cpu memory rctName : String) :
    ∃ container, podContainers (podSpec primary draEnabled cpu memory rctName) = [container] ∧
      container.field "resources" =
        containerResources primary.resourceClass draEnabled (pyStrip cpu) (pyStrip memory) := by
  refine ⟨_, rfl, ?_⟩
  rw [Json.field_obj, List.lookup_append, List.lookup_append, containerEntrypoint_lookup]
  rfl

/-- A Pod of one step asks for the device of its class alone. -/
theorem podSpec_one_device (primary : WorkflowStep) (cpu memory rctName : String) :
    ¬ (asksForGpu (podSpec primary true cpu memory rctName) = true ∧
      asksForFpga (podSpec primary true cpu memory rctName) = true) := by
  intro ⟨hgpu, hfpga⟩
  obtain ⟨container, hcontainers, hresources⟩ :=
    podContainers_podSpec primary true cpu memory rctName
  simp only [asksForGpu, asksForFpga, asksFor, hcontainers, podClaims_podSpec,
    List.any_cons, List.any_nil, hresources] at hgpu hfpga
  cases hclass : primary.resourceClass with
  | gpu =>
    rw [hclass] at hfpga
    cases hfpga
  | fpga =>
    rw [hclass] at hgpu
    cases hgpu
  | cpu =>
    rw [hclass] at hgpu
    cases hgpu

theorem containerClaims_podSpec (primary : WorkflowStep) (cpu memory rctName : String) :
    ∀ container ∈ podContainers (podSpec primary true cpu memory rctName),
      ∀ claim ∈ containerClaims container,
        ∃ c ∈ podClaims (podSpec primary true cpu memory rctName), c.1 = claim := by
  obtain ⟨only, hcontainers, hresources⟩ := podContainers_podSpec primary true cpu memory rctName
  intro container hcontainer claim hclaim
  rw [hcontainers] at hcontainer
  rw [List.mem_singleton.mp hcontainer, containerClaims, hresources] at hclaim
  rw [podClaims_podSpec]
  cases hclass : primary.resourceClass with
  | gpu =>
    rw [hclass] at hclaim
    exact ⟨_, List.mem_cons_self, (List.mem_singleton.mp hclaim).symm⟩
  | fpga =>
    rw [hclass] at hclaim
    exact absurd hclaim List.not_mem_nil
  | cpu =>
    rw [hclass] at hclaim
    exact absurd hclaim List.not_mem_nil

/-! ## What is rendered -/

theorem exactlyRct_eq_ok {intent : WorkflowIntent} {ns : String} {rct : Json}
    (h : exactlyRct host intent ns = .ok rct) :
    ∃ annotations request, rct = claimTemplate host
      (claimName host.sha intent.workflowName "gpu") ns "kueue" rendererKueue roleKueueJob
      intent.missionId annotations [("name", .str "gpu"), ("exactly", request)] := by
  unfold exactlyRct at h
  obtain ⟨name, hname, h⟩ := bind_eq_ok.mp h
  rw [rctNameForIntent_eq] at hname
  rw [← Except.ok.inj hname] at h
  obtain ⟨annotations, _, h⟩ := bind_eq_ok.mp h
  exact ⟨annotations, _, (Except.ok.inj h).symm⟩

/-- The templates of an intent, those of the scheduler's route first. -/
theorem renderResourceClaimTemplates_eq_ok {intent : WorkflowIntent} {ns : String}
    {draFallback : Bool} {templates : List Json}
    (h : renderResourceClaimTemplates host intent ns draFallback = .ok templates) :
    ∃ scheduler kueue : List Json, templates = scheduler ++ kueue ∧
      (∀ d ∈ scheduler, ∃ annotations alternatives, d = claimTemplate host
        (claimName host.sha intent.workflowName "accel") ns "scheduler" rendererKueue
        roleSchedulerFallback intent.missionId annotations
        [("name", .str "compute"), ("firstAvailable", alternatives)]) ∧
      if requiresGpu intent = true then ∃ rct, kueue = [rct] ∧ exactlyRct host intent ns = .ok rct
      else kueue = [] := by
  unfold renderResourceClaimTemplates at h
  obtain ⟨checked, hchecked, h⟩ := bind_eq_ok.mp h
  rw [(requireK8sLabel_eq_ok.mp hchecked).1] at h
  obtain ⟨scheduler, hscheduler, h⟩ := bind_eq_ok.mp h
  obtain ⟨kueue, hkueue, h⟩ := bind_eq_ok.mp h
  refine ⟨scheduler, kueue, (Except.ok.inj h).symm, fun d hd => ?_, ?_⟩
  · unfold schedulerTemplates at hscheduler
    split at hscheduler
    · obtain ⟨rct, hrct, hscheduler⟩ := bind_eq_ok.mp hscheduler
      rw [← Except.ok.inj hscheduler] at hd
      rcases firstAvailableRct_eq_ok host hrct with ⟨rfl, -⟩ |
        ⟨-, _, annotations, alternatives, hns, rfl⟩
      · exact absurd hd List.not_mem_nil
      · rw [← Option.some.inj hns] at hd
        exact ⟨annotations, alternatives, List.mem_singleton.mp hd⟩
    · rw [← Except.ok.inj hscheduler] at hd
      exact absurd hd List.not_mem_nil
  · unfold kueueTemplates at hkueue
    split at hkueue
    · next hgpu =>
      obtain ⟨rct, hrct, hkueue⟩ := bind_eq_ok.mp hkueue
      rw [if_pos hgpu]
      exact ⟨rct, (Except.ok.inj hkueue).symm, hrct⟩
    · next hgpu =>
      rw [if_neg hgpu]
      exact (Except.ok.inj hkueue).symm

/-- The job of an intent: where it is, and the Pod of its primary step. -/
theorem renderKueueJob_eq_ok {intent : WorkflowIntent} {options : KueueOptions}
    {cpuRequest memoryRequest : String} {job : Json}
    (h : renderKueueJob host intent options cpuRequest memoryRequest true = .ok job) :
    hasKind "Job" job = true ∧ docNamespace job = .str options.namespaceName ∧
      ∃ primary cpu memory, (primary.resourceClass = .gpu ↔ requiresGpu intent = true) ∧
        jobPod job = podSpec primary true cpu memory
          (claimName host.sha intent.workflowName "gpu") := by
  unfold renderKueueJob at h
  obtain ⟨cpu, _, h⟩ := bind_eq_ok.mp h
  obtain ⟨memory, _, h⟩ := bind_eq_ok.mp h
  obtain ⟨ns, hns, h⟩ := bind_eq_ok.mp h
  obtain ⟨queue, _, h⟩ := bind_eq_ok.mp h
  obtain ⟨⟨primary, position⟩, hprimary, h⟩ := bind_eq_ok.mp h
  rw [(requireK8sLabel_eq_ok.mp hns).1] at h
  obtain ⟨rctName, hrctName, h⟩ := bind_eq_ok.mp h
  rw [rctNameForIntent_eq] at hrctName
  rw [← Except.ok.inj hrctName] at h
  obtain ⟨orchidePriority, _, h⟩ := bind_eq_ok.mp h
  obtain ⟨annotations, _, h⟩ := bind_eq_ok.mp h
  obtain ⟨classLabels, _, h⟩ := bind_eq_ok.mp h
  rw [← Except.ok.inj h]
  exact ⟨rfl, rfl, primary, cpu, memory, primaryStep_gpu hprimary, rfl⟩

/-! ## Kueue files -/

/-- The claims of an intent's job, among the documents of its file. -/
structure JobResolves (intent : WorkflowIntent) (docs : List Json) (job : Json) : Prop where
  only : docs.filter (hasKind "Job") = [job]
  claims_iff : podClaims (jobPod job) ≠ [] ↔ ∃ s ∈ intent.steps, s.resourceClass = .gpu
  /-- A claim is made from the one template of the job's file, an exact one. -/
  resolves : ∀ c ∈ podClaims (jobPod job), ∃ rct, docs.filter isClaimTemplate = [rct] ∧
    offers "exactly" rct = true ∧ docName rct = c.2 ∧ docNamespace rct = docNamespace job
  uses : ∀ container ∈ podContainers (jobPod job), ∀ claim ∈ containerClaims container,
    ∃ c ∈ podClaims (jobPod job), c.1 = claim
  /-- A template of the scheduler's route is in another file. -/
  apart : ∀ d ∈ docs, offers "firstAvailable" d = false
  device : ¬ (asksForGpu (jobPod job) = true ∧ asksForFpga (jobPod job) = true)

/-- No template of the scheduler's route, in any file of the render, has the name of a claim of
the job. -/
def ReferencesExact (files : List (String × List Json)) (job : Json) : Prop :=
  ∀ file ∈ files, ∀ d ∈ file.2, offers "firstAvailable" d = true →
    ∀ c ∈ podClaims (jobPod job), docName d ≠ c.2

/-- Where the digest is applied to them, it tells the claims of the jobs from the claims of the
scheduler's route. -/
def ClaimsTold (sha : Sha256) (intents : List WorkflowIntent) : Prop :=
  ∀ i ∈ intents, ∀ j ∈ intents, Hashed (claimText i.workflowName "gpu") 62 →
    Hashed (claimText j.workflowName "accel") 62 →
      sha.digest 8 (claimText i.workflowName "gpu") ≠
        sha.digest 8 (claimText j.workflowName "accel")

/-- The claims of two routes have two names. -/
theorem ClaimsTold.claimName_ne {sha : Sha256} {intents : List WorkflowIntent}
    (h : ClaimsTold sha intents) {i j : WorkflowIntent} (hi : i ∈ intents) (hj : j ∈ intents) :
    claimName sha j.workflowName "accel" ≠ claimName sha i.workflowName "gpu" := by
  intro heq
  have hdevices := (claimName_injective sha (show "accel" ∈ devices by decide)
    (show "gpu" ∈ devices by decide)
    (fun haccel hgpu hdigest => absurd hdigest.symm (h i hi j hj hgpu haccel)) heq).2
  exact absurd hdevices (by decide)

/-- What the template of an intent's exact request shows. -/
structure ExactTemplate (sha : Sha256) (intent : WorkflowIntent) (ns : String) (rct : Json) :
    Prop where
  isTemplate : isClaimTemplate rct = true
  notJob : hasKind "Job" rct = false
  offersExactly : offers "exactly" rct = true
  noFirstAvailable : offers "firstAvailable" rct = false
  route : (draRoute rct).eqStr "scheduler" = false
  name_eq : docName rct = .str (claimName sha intent.workflowName "gpu")
  namespace_eq : docNamespace rct = .str ns

theorem exactTemplate_of_exactlyRct {intent : WorkflowIntent} {ns : String} {rct : Json}
    (h : exactlyRct host intent ns = .ok rct) : ExactTemplate host.sha intent ns rct := by
  obtain ⟨annotations, request, rfl⟩ := exactlyRct_eq_ok host h
  exact {
    isTemplate := rfl
    notJob := rfl
    offersExactly := by
      rw [offers_claimTemplate]
      rfl
    noFirstAvailable := by
      rw [offers_claimTemplate]
      rfl
    route := rfl
    name_eq := rfl
    namespace_eq := rfl }

/-- A job is not taken for a claim template. -/
theorem isClaimTemplate_of_job {job : Json} (hkind : hasKind "Job" job = true) :
    isClaimTemplate job = false := by
  rw [hasKind, Json.eqStr_iff] at hkind
  rw [isClaimTemplate, hasKind, hkind]
  rfl

/-- Where a test holds of the first documents and of no later one, it tells them apart. -/
theorem filter_append_apart {p : Json → Bool} {first later : List Json}
    (hfirst : ∀ d ∈ first, p d = true) (hlater : ∀ d ∈ later, p d = false) :
    (first ++ later).filter p = first ∧ (first ++ later).filter (fun d => !p d) = later := by
  constructor
  · rw [List.filter_append, List.filter_eq_self.mpr hfirst,
      List.filter_eq_nil_iff.mpr fun d hd => by simp [hlater d hd], List.append_nil]
  · rw [List.filter_append, List.filter_eq_nil_iff.mpr fun d hd => by simp [hfirst d hd],
      List.filter_eq_self.mpr fun d hd => by simp [hlater d hd], List.nil_append]

/-- A job claims the device of its intent's route, where a step asks for it. -/
theorem podClaims_job {intent : WorkflowIntent} {primary : WorkflowStep} {cpu memory : String}
    {name : String} (hgpu : primary.resourceClass = .gpu ↔ requiresGpu intent = true) :
    podClaims (podSpec primary true cpu memory name) =
      if requiresGpu intent = true then [(.str "gpu", .str name)] else [] := by
  rw [podClaims_podSpec]
  by_cases hclass : primary.resourceClass = .gpu
  · rw [if_pos hclass, if_pos (hgpu.mp hclass)]
  · rw [if_neg hclass, if_neg fun hrequires => hclass (hgpu.mpr hrequires)]

/-- The job of an intent resolves beside its exact template. -/
theorem jobResolves_beside {intent : WorkflowIntent} {ns name : String} {kueue : List Json}
    {job : Json} {primary : WorkflowStep} {cpu memory : String}
    (hname : name = claimName host.sha intent.workflowName "gpu")
    (hkueue : if requiresGpu intent = true then
      ∃ rct, kueue = [rct] ∧ exactlyRct host intent ns = .ok rct else kueue = [])
    (hkind : hasKind "Job" job = true) (hns : docNamespace job = .str ns)
    (hgpu : primary.resourceClass = .gpu ↔ requiresGpu intent = true)
    (hpod : jobPod job = podSpec primary true cpu memory name) :
    JobResolves intent (kueue ++ [job]) job := by
  have hclaims : podClaims (jobPod job) =
      if requiresGpu intent = true then [(.str "gpu", .str name)] else [] := by
    rw [hpod]
    exact podClaims_job hgpu
  have hother := isClaimTemplate_of_job hkind
  have huses : ∀ container ∈ podContainers (jobPod job), ∀ claim ∈ containerClaims container,
      ∃ c ∈ podClaims (jobPod job), c.1 = claim := by
    rw [hpod]
    exact containerClaims_podSpec primary cpu memory _
  have hdevice : ¬ (asksForGpu (jobPod job) = true ∧ asksForFpga (jobPod job) = true) := by
    rw [hpod]
    exact podSpec_one_device primary cpu memory _
  have hoffers : offers "firstAvailable" job = false := offers_of_other_kind hother _
  by_cases hrequires : requiresGpu intent = true
  · rw [if_pos hrequires] at hclaims hkueue
    obtain ⟨rct, rfl, hrct⟩ := hkueue
    have hexact := exactTemplate_of_exactlyRct host hrct
    exact {
      only := by simp [hexact.notJob, hkind]
      claims_iff := by simp [hclaims, ← requiresGpu_iff, hrequires]
      resolves := by
        intro c hc
        rw [hclaims] at hc
        refine ⟨rct, by simp [hexact.isTemplate, hother], hexact.offersExactly, ?_,
          hexact.namespace_eq.trans hns.symm⟩
        rw [hexact.name_eq, List.mem_singleton.mp hc, hname]
      uses := huses
      apart := by simp [hexact.noFirstAvailable, hoffers]
      device := hdevice }
  · rw [if_neg hrequires] at hclaims hkueue
    subst hkueue
    exact {
      only := by simp [hkind]
      claims_iff := by simp [hclaims, ← requiresGpu_iff, hrequires]
      resolves := by simp [hclaims]
      uses := huses
      apart := by simp [hoffers]
      device := hdevice }

/-- The files `render-kueue` plans for an intent. -/
theorem kueueFiles_resolve {intent : WorkflowIntent} {options : KueueOptions}
    {files : List (String × List Json)} (h : kueueFiles host options intent = .ok files) :
    ∃ docs job rest, files = (kueueFileName intent, docs) :: rest ∧ JobResolves intent docs job ∧
      (∀ c ∈ podClaims (jobPod job),
        c.2 = .str (claimName host.sha intent.workflowName "gpu")) ∧
      ∀ file ∈ files, ∀ d ∈ file.2, offers "firstAvailable" d = true →
        docName d = .str (claimName host.sha intent.workflowName "accel") := by
  unfold kueueFiles at h
  obtain ⟨templates, htemplates, h⟩ := bind_eq_ok.mp h
  obtain ⟨job, hjob, h⟩ := bind_eq_ok.mp h
  obtain ⟨scheduler, kueue, rfl, hscheduler, hkueue⟩ :=
    renderResourceClaimTemplates_eq_ok host htemplates
  obtain ⟨hkind, hns, primary, cpu, memory, hgpu, hpod⟩ := renderKueueJob_eq_ok host hjob
  have hroute : ∀ d ∈ scheduler, (draRoute d).eqStr "scheduler" = true ∧
      docName d = .str (claimName host.sha intent.workflowName "accel") := by
    intro d hd
    obtain ⟨annotations, alternatives, rfl⟩ := hscheduler d hd
    exact ⟨rfl, rfl⟩
  have hroute' : ∀ d ∈ kueue, (draRoute d).eqStr "scheduler" = false := by
    intro d hd
    split at hkueue
    · obtain ⟨rct, rfl, hrct⟩ := hkueue
      rw [List.mem_singleton.mp hd]
      exact (exactTemplate_of_exactlyRct host hrct).route
    · rw [hkueue] at hd
      exact absurd hd List.not_mem_nil
  obtain ⟨hschedulerRoute, hkueueRoute⟩ := filter_append_apart (fun d hd => (hroute d hd).1) hroute'
  rw [hschedulerRoute, hkueueRoute] at h
  have hresolves := jobResolves_beside host rfl hkueue hkind hns hgpu hpod
  refine ⟨kueue ++ [job], job, _, (Except.ok.inj h).symm, hresolves, ?_, ?_⟩
  · intro c hc
    rw [hpod, podClaims_job hgpu] at hc
    split at hc
    · rw [List.mem_singleton.mp hc]
    · exact absurd hc List.not_mem_nil
  · intro file hfile d hd hoffers
    have habsent : d ∉ kueue ++ [job] := fun hmem => by
      rw [hresolves.apart d hmem] at hoffers
      exact Bool.noConfusion hoffers
    rw [← Except.ok.inj h] at hfile
    rcases List.mem_cons.mp hfile with rfl | hfile
    · exact absurd hd habsent
    · split at hfile
      · exact absurd hfile List.not_mem_nil
      · rw [List.mem_singleton.mp hfile] at hd
        exact (hroute d hd).2

/-- A file of priority classes offers no devices. -/
theorem priorityClassFiles_offers {options : KueueOptions}
    {classes : List (String × List Json)} (h : priorityClassFiles options = .ok classes) :
    ∀ file ∈ classes, ∀ d ∈ file.2, offers "firstAvailable" d = false := by
  intro file hfile d hd
  unfold priorityClassFiles at h
  split at h
  · obtain ⟨docs, hdocs, h⟩ := bind_eq_ok.mp h
    rw [← Except.ok.inj h] at hfile
    rw [List.mem_singleton.mp hfile] at hd
    obtain ⟨tier, _, hclass⟩ := exists_of_mem_forall₂ (mapM_eq_ok.mp hdocs) hd
    obtain ⟨name, _, hclass⟩ := bind_eq_ok.mp hclass
    rw [← Except.ok.inj hclass]
    exact offers_of_other_kind rfl _
  · rw [← Except.ok.inj h] at hfile
    exact absurd hfile List.not_mem_nil

/-- The files of a Kueue render, for any intents. -/
theorem kueueRender_resolves {intents : List WorkflowIntent} {options : KueueOptions}
    {classes : List (String × List Json)} {groups : List (List (String × List Json))}
    (hclasses : priorityClassFiles options = .ok classes)
    (h : intents.mapM (kueueFiles host options) = .ok groups) :
    List.Forall₂ (fun intent group => ∃ docs job rest,
      group = (kueueFileName intent, docs) :: rest ∧ JobResolves intent docs job ∧
        (ClaimsTold host.sha intents → ReferencesExact (classes ++ groups.flatten) job))
      intents groups := by
  have hgroups := mapM_eq_ok.mp h
  have hmem := (List.forall₂_and_left _ _).mpr ⟨fun intent (hi : intent ∈ intents) => hi, hgroups⟩
  refine hmem.imp fun intent group hgroup => ?_
  obtain ⟨hintent, hgroup⟩ := hgroup
  obtain ⟨docs, job, rest, heq, hresolves, hclaims, _⟩ := kueueFiles_resolve host hgroup
  refine ⟨docs, job, rest, heq, hresolves, fun htold file hfile d hd hoffers c hc => ?_⟩
  rcases List.mem_append.mp hfile with hfile | hfile
  · rw [priorityClassFiles_offers hclasses file hfile d hd] at hoffers
    exact Bool.noConfusion hoffers
  · obtain ⟨other, hother, hfile⟩ := List.mem_flatten.mp hfile
    obtain ⟨intent', hintent', hrendered⟩ := exists_of_mem_forall₂ hgroups hother
    obtain ⟨_, _, _, _, _, _, hnames⟩ := kueueFiles_resolve host hrendered
    rw [hnames file hfile d hd hoffers, hclaims c hc]
    exact fun hsame => htold.claimName_ne hintent hintent' (Json.str.inj hsame)

/-! ## Renders -/

/-- The files of a Kueue render are those of its intents, after the priority classes. -/
theorem plannedJobs_eq_ok {plan : MissionPlan} {options : KueueOptions}
    {files : List (String × List Json)} (h : plannedJobs host plan options = .ok files) :
    ∃ intents classes groups, compilePlanToIntents host.sha plan = .ok intents ∧
      priorityClassFiles options = .ok classes ∧ files = classes ++ groups.flatten ∧
      List.Forall₂ (fun intent group => kueueFiles host options intent = .ok group)
        intents groups := by
  unfold plannedJobs at h
  obtain ⟨intents, hintents, h⟩ := bind_eq_ok.mp h
  obtain ⟨classes, hclasses, h⟩ := bind_eq_ok.mp h
  obtain ⟨groups, hgroups, h⟩ := bind_eq_ok.mp h
  exact ⟨intents, classes, groups, hintents, hclasses, (Except.ok.inj h).symm,
    mapM_eq_ok.mp hgroups⟩

/-- The file of each intent of an Argo render. -/
theorem plannedWorkflows_eq_ok {plan : MissionPlan} {options : ArgoOptions}
    {files : List (String × List Json)} (h : plannedWorkflows host plan options = .ok files) :
    ∃ namespaceName, compilePlanToIntents host.sha plan =
        .ok (compiledFrom host.sha plan [] (pairs plan)) ∧
      List.Forall₂ (fun intent file => argoFile host options namespaceName intent = .ok file)
        (compiledFrom host.sha plan [] (pairs plan)) files := by
  unfold plannedWorkflows at h
  obtain ⟨intents, hintents, h⟩ := bind_eq_ok.mp h
  rw [compilePlanToIntents_eq] at hintents
  rw [← Except.ok.inj hintents] at h
  exact ⟨_, compilePlanToIntents_eq host.sha plan, mapM_eq_ok.mp h⟩

/-- The steps of the intents of a plan are those of its services. -/
theorem mem_compiledFrom {plan : MissionPlan} {intent : WorkflowIntent}
    (h : intent ∈ compiledFrom host.sha plan [] (pairs plan)) :
    ∃ p ∈ pairs plan, intent.steps = p.2.steps := by
  obtain ⟨p, hp, heq⟩ := exists_of_mem_forall₂ (compiledFrom_pairs host.sha [] (pairs plan)) h
  exact ⟨p, hp, by rw [heq]; rfl⟩

/-- Every device claim resolves. In a file of `render-argo --dra-fallback`, the patches name the
one `firstAvailable` template of the file, which is there only for them, and in a plan the
policy admits they are on the templates of the GPU steps. In a render of `render-kueue`, and for
intents that were changed after they were built, a job has a claim exactly when some step is a
GPU step, and it is made from the one exact template beside the job. No template of the
scheduler's route has its name if the digest tells the claims apart. -/
theorem every_claim_resolves (plan : MissionPlan) (str : Json → String) (go : Rego.Printer)
    (isoformat : Timestamp → String) :
    (∀ options files, options.draFallback = true → plannedWorkflows host plan options = .ok files →
      ∃ intents, compilePlanToIntents host.sha plan = .ok intents ∧
        List.Forall₂ (fun intent file => ∃ workflow, ArgoFileResolves host file.2 workflow ∧
          (Admitted str go isoformat plan →
            (workflowTemplates workflow).map (fun t => (patchOf t).isSome) =
              false :: intent.steps.map fun s => s.resourceClass == .gpu)) intents files) ∧
    (∀ options files, plannedJobs host plan options = .ok files →
      ∃ intents classes groups, compilePlanToIntents host.sha plan = .ok intents ∧
        priorityClassFiles options = .ok classes ∧
        intents.mapM (kueueFiles host options) = .ok groups ∧
        files = classes ++ groups.flatten) ∧
    ∀ intents options classes groups, priorityClassFiles options = .ok classes →
      intents.mapM (kueueFiles host options) = .ok groups →
        List.Forall₂ (fun intent group => ∃ docs job rest,
          group = (kueueFileName intent, docs) :: rest ∧ JobResolves intent docs job ∧
            (ClaimsTold host.sha intents → ReferencesExact (classes ++ groups.flatten) job))
          intents groups := by
  refine ⟨fun options files hdra h => ?_, fun options files h => ?_,
    fun intents options classes groups hclasses h => kueueRender_resolves host hclasses h⟩
  rotate_left
  · obtain ⟨intents, classes, groups, hintents, hclasses, heq, hgroups⟩ :=
      plannedJobs_eq_ok host h
    exact ⟨intents, classes, groups, hintents, hclasses, mapM_eq_ok.mpr hgroups, heq⟩
  obtain ⟨namespaceName, hcompiled, hfiles⟩ := plannedWorkflows_eq_ok host h
  refine ⟨_, hcompiled, ?_⟩
  have hmem := (List.forall₂_and_left _ _).mpr ⟨fun _ hi => mem_compiledFrom host hi, hfiles⟩
  refine hmem.imp fun intent file hfile => ?_
  obtain ⟨⟨p, hp, hsteps⟩, hfile⟩ := hfile
  obtain ⟨workflow, hresolves, hpatched⟩ := argoFile_resolves host hdra hfile
  refine ⟨workflow, hresolves, fun hadmitted => ?_⟩
  rw [hpatched, List.map_congr_left fun s hs => ?_]
  rw [hsteps] at hs
  exact hadmitted.expressesFallback hp hs

/-- A host that is right about what the sample plan needs of it. -/
def sampleHost : Host where
  sha := sampleSha
  strLower
    | .bool b => boolText b
    | _ => ""
  safeDump
    | .obj [(key, .arr [.obj [(first, .str claim), (second, .str template)]])] =>
      key ++ ":\n- " ++ first ++ ": " ++ claim ++ "\n  " ++ second ++ ": " ++ template ++ "\n"
    | _ => ""

def sampleArgoOptions : ArgoOptions := ⟨true, none, none⟩

def sampleKueueOptions : KueueOptions :=
  ⟨"orbital-demo-local", "orbital-demo", true, false, orchidePriorityClassPrefix, false⟩

/-- The same options, with templates for the scheduler's route. -/
def sampleFallbackOptions : KueueOptions := { sampleKueueOptions with draFallback := true }

def sampleIntent : WorkflowIntent :=
  ⟨"m1", "detect", 50, "m1-detect", [inferStep], []⟩

/-- Both renders of the sample plan, which the policy admits, with templates of both routes. -/
theorem repeatedPlan_claims_resolve :
    (∃ files, plannedWorkflows sampleHost repeatedPlan sampleArgoOptions = .ok files ∧
      files.length = 2 ∧ ∀ file ∈ files, ∃ workflow, ArgoFileResolves sampleHost file.2 workflow ∧
        (workflowTemplates workflow).map (fun t => (patchOf t).isSome) = [false, true]) ∧
    ∃ docs job rest, kueueFiles sampleHost sampleFallbackOptions sampleIntent =
        .ok ((kueueFileName sampleIntent, docs) :: rest) ∧ rest ≠ [] ∧
      podClaims (jobPod job) ≠ [] ∧ JobResolves sampleIntent docs job ∧
      ReferencesExact ((kueueFileName sampleIntent, docs) :: rest) job := by
  have hadmitted : Admitted (fun _ => "") ⟨fun _ => true, fun _ _ _ => rfl, fun _ => "",
      fun _ => "", fun _ => ""⟩ (fun _ => "") repeatedPlan := .inl (by decide +kernel)
  obtain ⟨hargo, _, hkueue⟩ := every_claim_resolves sampleHost repeatedPlan (fun _ => "")
    ⟨fun _ => true, fun _ _ _ => rfl, fun _ => "", fun _ => "", fun _ => ""⟩ (fun _ => "")
  constructor
  · have hok : (plannedWorkflows sampleHost repeatedPlan sampleArgoOptions).isOk = true := by
      decide +kernel
    obtain ⟨files, hfiles⟩ := exists_of_isOk hok
    obtain ⟨intents, hcompiled, hresolves⟩ := hargo sampleArgoOptions files rfl hfiles
    rw [compilePlanToIntents_eq] at hcompiled
    rw [← Except.ok.inj hcompiled] at hresolves
    refine ⟨files, hfiles, hresolves.length_eq.symm, fun file hfile => ?_⟩
    have hmem := (List.forall₂_and_left _ _).mpr
      ⟨fun _ hi => mem_compiledFrom sampleHost hi, hresolves⟩
    obtain ⟨intent, _, ⟨p, hp, hsteps⟩, workflow, hfileResolves, hpatched⟩ :=
      exists_of_mem_forall₂ hmem hfile
    have hgpu : ∀ p ∈ pairs repeatedPlan,
        p.2.steps.map (fun s => s.resourceClass == .gpu) = [true] := by decide
    refine ⟨workflow, hfileResolves, ?_⟩
    rw [hpatched hadmitted, hsteps, hgpu p hp]
  · have htwo : (kueueFiles sampleHost sampleFallbackOptions sampleIntent).toOption.map
        List.length = some 2 := by decide +kernel
    cases hfiles : kueueFiles sampleHost sampleFallbackOptions sampleIntent with
    | error e =>
      rw [hfiles] at htwo
      cases htwo
    | ok files =>
      rw [hfiles] at htwo
      have hshort : (sanitizeK8sName (claimText sampleIntent.workflowName "gpu") 253).length ≤
          62 := by decide +kernel
      have htold : ClaimsTold sampleHost.sha [sampleIntent] := by
        intro i hi _ _ hhashed
        rw [List.mem_singleton.mp hi] at hhashed
        exact absurd hhashed (Nat.not_lt.mpr hshort)
      have hrender := hkueue [sampleIntent] sampleFallbackOptions [] [files] rfl
        (mapM_eq_ok.mpr (.cons hfiles .nil))
      obtain ⟨⟨docs, job, rest, rfl, hjob, hexact⟩, _⟩ := List.forall₂_cons.mp hrender
      refine ⟨docs, job, rest, rfl, ?_, ?_, hjob, ?_⟩
      · intro hnil
        rw [hnil] at htwo
        have hone : 1 = 2 := Option.some.inj htwo
        omega
      · exact hjob.claims_iff.mpr ⟨inferStep, List.mem_cons_self, rfl⟩
      · have hfiles := hexact htold
        rwa [List.nil_append, List.flatten_cons, List.flatten_nil, List.append_nil] at hfiles

/-! A plan whose two claims are cut to one name: the SHA-256 digests of their texts agree in
their first eight digits. -/

def collidingService : AIService :=
  { detectService with
    serviceId := "detect-clouds-over-the-arctic-djoeehbba"
    serviceId_notBlank := by decide }

def collidingPlan : MissionPlan where
  missionId := "m1"
  clientId := none
  events := [⟨⟨noon, .acquisition, none, none, some "cam", none, false, none,
    [collidingService], none_duration_nonneg⟩, by decide⟩]
  missionId_notBlank := repeatedPlan.missionId_notBlank
  events_ne_nil := by decide

def collidingName : String := "m1-detect-clouds-over-the-arctic-djoeehbba-2026-03-01t12-00-00z"

def accelDigest : List Char :=
  "b2e7e0315eb44366450dad2afb96119c3ca7f13bcfdb6fd44a722dd3b69fb0a9".toList

def gpuDigest : List Char :=
  "b2e7e031b4ba57c547ef1919cec24ee368213c122fc30eb6244805976e8b3aef".toList

def collidingDigest (s : String) : List Char :=
  if s = claimText collidingName "accel" then accelDigest
  else if s = claimText collidingName "gpu" then gpuDigest
  else sampleSha.hexdigest s

/-- A hash that is right about the two texts, and the identifier of the plan. -/
def collidingSha : Sha256 where
  hexdigest := collidingDigest
  length_eq s := by
    unfold collidingDigest
    split_ifs
    · decide
    · decide
    · exact sampleSha.length_eq s
  hex s c hc := by
    unfold collidingDigest at hc
    have hall : ((accelDigest ++ gpuDigest).all fun c =>
        ('0' ≤ c && c ≤ '9') || ('a' ≤ c && c ≤ 'f')) = true := by decide
    split_ifs at hc
    · simpa using List.all_eq_true.mp hall c (List.mem_append_left _ hc)
    · simpa using List.all_eq_true.mp hall c (List.mem_append_right _ hc)
    · exact sampleSha.hex s c hc

def collidingHost : Host := { sampleHost with sha := collidingSha }

/-- The name of the two claims. -/
def collidingClaim : String := "m1-detect-clouds-over-the-arctic-djoeehbba-2026-03-01-b2e7e031"

/-- The job of such a plan is rendered with a claim that a template of the scheduler's route, in
the same namespace, has the name of. -/
theorem claims_meet_at_collision :
    ∃ files, plannedJobs collidingHost collidingPlan sampleFallbackOptions = .ok files ∧
      ∃ file ∈ files, ∃ job ∈ file.2, hasKind "Job" job = true ∧
        ∃ other ∈ files, ∃ d ∈ other.2, offers "firstAvailable" d = true ∧
          docNamespace d = docNamespace job ∧ ∃ c ∈ podClaims (jobPod job), docName d = c.2 := by
  have hmeet : (plannedJobs collidingHost collidingPlan sampleFallbackOptions).toOption.any
      (fun files => files.any fun file => file.2.any fun job =>
        hasKind "Job" job && (docNamespace job).eqStr "orbital-demo" &&
          files.any fun other => other.2.any fun d =>
            offers "firstAvailable" d && (docNamespace d).eqStr "orbital-demo" &&
              (docName d).eqStr collidingClaim &&
                (podClaims (jobPod job)).any fun c => c.2.eqStr collidingClaim) = true := by
    decide +kernel
  cases hfiles : plannedJobs collidingHost collidingPlan sampleFallbackOptions with
  | error e =>
    rw [hfiles] at hmeet
    cases hmeet
  | ok files =>
    rw [hfiles] at hmeet
    simp only [Except.toOption, Option.any_some, List.any_eq_true, Bool.and_eq_true,
      Json.eqStr_iff] at hmeet
    obtain ⟨file, hfile, job, hjob, ⟨hkind, hns⟩, other, hother, d, hd,
      ⟨⟨hoffers, hns'⟩, hname⟩, c, hc, hclaim⟩ := hmeet
    exact ⟨files, rfl, file, hfile, job, hjob, hkind, other, hother, d, hd, hoffers,
      hns'.trans hns.symm, c, hc, hname.trans hclaim.symm⟩

end MissionCompiler.Render
