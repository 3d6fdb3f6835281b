import MissionCompiler.Compile.FileNames
import MissionCompiler.Render.Admission

/-!
# What a rendered document says of its owner

Every document a render plans carries the labels and the annotation its owner is told by
(`Stamp.On`): those of its mission, or for the priority classes those of the installation.
-/

namespace MissionCompiler.Render

open Lib Schema Names Compile

def docLabels (doc : Json) : Json := (doc.field "metadata").field "labels"

def docAnnotations (doc : Json) : Json := (doc.field "metadata").field "annotations"

/-- The owner of a rendered document: the renderer, the scope, the fingerprint of a mission
artifact, and the raw owner id. -/
structure OwnerStamp where
  renderer : String
  scope : String
  mark : Option String
  ownerId : String

/-- The stamp of a mission's documents. -/
def missionStamp (host : Host) (renderer missionId : String) : OwnerStamp :=
  ⟨renderer, scopeMission, some (missionFingerprint host.sha missionId), missionId⟩

/-- The stamp of an installation's priority classes. -/
def installationStamp (classPrefix : String) : OwnerStamp :=
  ⟨rendererKueue, scopeInstallation, none, classPrefix⟩

/-- A document carries a stamp. -/
structure OwnerStamp.On (stamp : OwnerStamp) (doc : Json) : Prop where
  managed : (docLabels doc).get? managedByLabel = some (.str managedByValue)
  renderer : (docLabels doc).get? rendererLabel = some (.str stamp.renderer)
  scope : (docLabels doc).get? ownerScopeLabel = some (.str stamp.scope)
  schema : (docLabels doc).get? ownershipSchemaLabel = some (.str ownershipSchemaVersion)
  mark : (docLabels doc).get? missionFingerprintLabel = stamp.mark.map .str
  ownerId : (docAnnotations doc).get? ownerIdAnnotationKey = some (.str stamp.ownerId)

variable (host : Host)

theorem requireAnnotationsFit_eq_ok {annotations fitting : List (String × String)}
    (h : requireAnnotationsFit annotations = .ok fitting) : fitting = annotations := by
  unfold requireAnnotationsFit at h
  split at h
  · cases h
  · exact (Except.ok.inj h).symm

theorem claimTemplate_stamped (name namespaceName route renderer role missionId : String)
    (request : List (String × Json)) :
    (missionStamp host renderer missionId).On (claimTemplate host name namespaceName route renderer
      role missionId (missionAnnotations missionId) request) :=
  ⟨rfl, rfl, rfl, rfl, rfl, rfl⟩

theorem firstAvailableRct_stamped {intent : WorkflowIntent} {namespaceName : Option String}
    {renderer : String} {rct : Option Json}
    (h : firstAvailableRct host intent namespaceName renderer = .ok rct) :
    ∀ doc ∈ rct.toList, (missionStamp host renderer intent.missionId).On doc := by
  unfold firstAvailableRct at h
  split at h
  · rw [← Except.ok.inj h]
    intro doc hdoc
    cases hdoc
  · split at h
    · cases h
    · cases h
    · obtain ⟨name, _, h⟩ := bind_eq_ok.mp h
      obtain ⟨annotations, hannotations, h⟩ := bind_eq_ok.mp h
      obtain ⟨primaryClass, _, h⟩ := bind_eq_ok.mp h
      obtain ⟨fallbackClass, _, h⟩ := bind_eq_ok.mp h
      rw [← Except.ok.inj h, requireAnnotationsFit_eq_ok hannotations]
      intro doc hdoc
      rw [List.mem_singleton.mp hdoc]
      exact claimTemplate_stamped host _ _ _ _ _ _ _

theorem exactlyRct_stamped {intent : WorkflowIntent} {ns : String} {rct : Json}
    (h : exactlyRct host intent ns = .ok rct) :
    (missionStamp host rendererKueue intent.missionId).On rct := by
  obtain ⟨name, _, h⟩ := bind_eq_ok.mp h
  obtain ⟨annotations, hannotations, h⟩ := bind_eq_ok.mp h
  rw [← Except.ok.inj h, requireAnnotationsFit_eq_ok hannotations]
  exact claimTemplate_stamped host _ _ _ _ _ _ _

theorem renderArgoWorkflow_stamped {intent : WorkflowIntent} {draFallback : Bool}
    {namespaceName serviceAccount : Option String} {workflow : Json}
    (h : renderArgoWorkflow host intent draFallback namespaceName serviceAccount = .ok workflow) :
    (missionStamp host rendererArgo intent.missionId).On workflow := by
  unfold renderArgoWorkflow at h
  obtain ⟨templates, _, h⟩ := bind_eq_ok.mp h
  obtain ⟨names, _, h⟩ := bind_eq_ok.mp h
  obtain ⟨mode, _, h⟩ := bind_eq_ok.mp h
  obtain ⟨orchidePriority, _, h⟩ := bind_eq_ok.mp h
  obtain ⟨annotations, hannotations, h⟩ := bind_eq_ok.mp h
  obtain ⟨inNamespace, _, h⟩ := bind_eq_ok.mp h
  obtain ⟨account, _, h⟩ := bind_eq_ok.mp h
  rw [← Except.ok.inj h, requireAnnotationsFit_eq_ok hannotations]
  exact ⟨rfl, rfl, rfl, rfl, rfl, rfl⟩

theorem renderKueueJob_stamped {intent : WorkflowIntent} {options : KueueOptions}
    {cpuRequest memoryRequest : String} {draEnabled : Bool} {job : Json}
    (h : renderKueueJob host intent options cpuRequest memoryRequest draEnabled = .ok job) :
    (missionStamp host rendererKueue intent.missionId).On job := by
  unfold renderKueueJob at h
  obtain ⟨cpu, _, h⟩ := bind_eq_ok.mp h
  obtain ⟨memory, _, h⟩ := bind_eq_ok.mp h
  obtain ⟨ns, _, h⟩ := bind_eq_ok.mp h
  obtain ⟨queue, _, h⟩ := bind_eq_ok.mp h
  obtain ⟨⟨primary, position⟩, _, h⟩ := bind_eq_ok.mp h
  obtain ⟨rctName, _, h⟩ := bind_eq_ok.mp h
  obtain ⟨orchidePriority, _, h⟩ := bind_eq_ok.mp h
  obtain ⟨annotations, hannotations, h⟩ := bind_eq_ok.mp h
  obtain ⟨classLabels, _, h⟩ := bind_eq_ok.mp h
  rw [← Except.ok.inj h, requireAnnotationsFit_eq_ok hannotations]
  exact ⟨rfl, rfl, rfl, rfl, rfl, rfl⟩

theorem workloadPriorityClass_stamped {classPrefix : String} {tier : Nat × String × Nat × String}
    {doc : Json} (h : workloadPriorityClass classPrefix tier = .ok doc) :
    (installationStamp classPrefix).On doc := by
  obtain ⟨name, _, h⟩ := bind_eq_ok.mp h
  rw [← Except.ok.inj h]
  exact ⟨rfl, rfl, rfl, rfl, rfl, rfl⟩

/-! ## Files -/

theorem argoFile_stamped {options : ArgoOptions} {namespaceName : Option String}
    {intent : WorkflowIntent} {file : String × List Json}
    (h : argoFile host options namespaceName intent = .ok file) :
    file.1 = argoFileName intent ∧ file.2 ≠ [] ∧
      ∀ doc ∈ file.2, (missionStamp host rendererArgo intent.missionId).On doc := by
  obtain ⟨rct, hrct, h⟩ := bind_eq_ok.mp h
  obtain ⟨workflow, hworkflow, h⟩ := bind_eq_ok.mp h
  rw [← Except.ok.inj h]
  refine ⟨rfl, by simp, fun doc hdoc => ?_⟩
  rcases List.mem_append.mp hdoc with hdoc | hdoc
  · unfold argoRct at hrct
    split at hrct
    · exact firstAvailableRct_stamped host hrct doc hdoc
    · rw [← Except.ok.inj hrct] at hdoc
      cases hdoc
  · rw [List.mem_singleton.mp hdoc]
    exact renderArgoWorkflow_stamped host hworkflow

theorem renderResourceClaimTemplates_stamped {intent : WorkflowIntent} {ns : String}
    {draFallback : Bool} {templates : List Json}
    (h : renderResourceClaimTemplates host intent ns draFallback = .ok templates) :
    ∀ doc ∈ templates, (missionStamp host rendererKueue intent.missionId).On doc := by
  obtain ⟨checked, _, h⟩ := bind_eq_ok.mp h
  obtain ⟨scheduler, hscheduler, h⟩ := bind_eq_ok.mp h
  obtain ⟨kueue, hkueue, h⟩ := bind_eq_ok.mp h
  rw [← Except.ok.inj h]
  intro doc hdoc
  rcases List.mem_append.mp hdoc with hdoc | hdoc
  · unfold schedulerTemplates at hscheduler
    split at hscheduler
    · obtain ⟨rct, hrct, hscheduler⟩ := bind_eq_ok.mp hscheduler
      rw [← Except.ok.inj hscheduler] at hdoc
      exact firstAvailableRct_stamped host hrct doc hdoc
    · rw [← Except.ok.inj hscheduler] at hdoc
      cases hdoc
  · unfold kueueTemplates at hkueue
    split at hkueue
    · obtain ⟨rct, hrct, hkueue⟩ := bind_eq_ok.mp hkueue
      rw [← Except.ok.inj hkueue, List.mem_singleton] at hdoc
      rw [hdoc]
      exact exactlyRct_stamped host hrct
    · rw [← Except.ok.inj hkueue] at hdoc
      cases hdoc

/-- The files of an intent are its job and, where there is one, its scheduler's claim. -/
theorem kueueFiles_stamped {options : KueueOptions} {intent : WorkflowIntent}
    {files : List (String × List Json)} (h : kueueFiles host options intent = .ok files) :
    ∀ file ∈ files, (file.1 = kueueFileName intent ∨ file.1 = schedulerFallbackFileName intent) ∧
      file.2 ≠ [] ∧ ∀ doc ∈ file.2, (missionStamp host rendererKueue intent.missionId).On doc := by
  obtain ⟨templates, htemplates, h⟩ := bind_eq_ok.mp h
  obtain ⟨job, hjob, h⟩ := bind_eq_ok.mp h
  have hstamped := renderResourceClaimTemplates_stamped host htemplates
  rw [← Except.ok.inj h]
  intro file hfile
  rcases List.mem_cons.mp hfile with rfl | hfile
  · refine ⟨.inl rfl, by simp, fun doc hdoc => ?_⟩
    rcases List.mem_append.mp hdoc with hdoc | hdoc
    · exact hstamped doc (List.mem_filter.mp hdoc).1
    · rw [List.mem_singleton.mp hdoc]
      exact renderKueueJob_stamped host hjob
  · split at hfile
    · cases hfile
    · next hroute =>
      rw [List.mem_singleton.mp hfile]
      refine ⟨.inr rfl, fun hnil => hroute ?_, fun doc hdoc => ?_⟩
      · exact List.isEmpty_iff.mpr hnil
      · exact hstamped doc (List.mem_filter.mp hdoc).1

theorem priorityClassFiles_stamped {options : KueueOptions} {files : List (String × List Json)}
    (h : priorityClassFiles options = .ok files) :
    ∀ file ∈ files, file.1 = priorityClassesFileName ∧ options.emitPriorityClasses = true ∧
      file.2 ≠ [] ∧ ∀ doc ∈ file.2, (installationStamp options.priorityClassPrefix).On doc := by
  unfold priorityClassFiles at h
  split at h
  · next hemit =>
    obtain ⟨classes, hclasses, h⟩ := bind_eq_ok.mp h
    have hall := mapM_eq_ok.mp hclasses
    rw [← Except.ok.inj h]
    intro file hfile
    rw [List.mem_singleton.mp hfile]
    refine ⟨rfl, hemit, fun hnil => ?_, fun doc hdoc => ?_⟩
    · rw [show classes = [] from hnil] at hall
      cases hall
    · obtain ⟨tier, _, hdoc⟩ := exists_of_mem_forall₂ hall hdoc
      exact workloadPriorityClass_stamped hdoc
  · rw [← Except.ok.inj h]
    intro file hfile
    cases hfile

/-! ## Plans -/

/-- The intents of a plan are of its mission. -/
theorem missionId_of_compiled {plan : MissionPlan} {intents : List WorkflowIntent}
    (h : compilePlanToIntents host.sha plan = .ok intents) :
    ∀ intent ∈ intents, intent.missionId = plan.missionId := by
  rw [compilePlanToIntents_eq] at h
  rw [← Except.ok.inj h]
  intro intent hintent
  obtain ⟨p, _, heq⟩ := exists_of_mem_forall₂ (compiledFrom_pairs host.sha [] (pairs plan)) hintent
  rw [heq]
  rfl

/-- Every file `render-argo` plans holds documents of its mission. -/
theorem plannedWorkflows_stamped {plan : MissionPlan} {options : ArgoOptions}
    {files : List (String × List Json)} (h : plannedWorkflows host plan options = .ok files) :
    ∀ file ∈ files, file.2 ≠ [] ∧
      ∀ doc ∈ file.2, (missionStamp host rendererArgo plan.missionId).On doc := by
  obtain ⟨intents, hintents, h⟩ := bind_eq_ok.mp h
  intro file hfile
  obtain ⟨intent, hintent, hargo⟩ := exists_of_mem_forall₂ (mapM_eq_ok.mp h) hfile
  rw [← missionId_of_compiled host hintents intent hintent]
  exact (argoFile_stamped host hargo).2

/-- Every file `render-kueue` plans holds documents of its mission, or is the file of the
installation's priority classes. -/
theorem plannedJobs_stamped {plan : MissionPlan} {options : KueueOptions}
    {files : List (String × List Json)} (h : plannedJobs host plan options = .ok files) :
    ∀ file ∈ files, file.2 ≠ [] ∧
      ((∀ doc ∈ file.2, (missionStamp host rendererKueue plan.missionId).On doc) ∨
        file.1 = priorityClassesFileName ∧ options.emitPriorityClasses = true ∧
          ∀ doc ∈ file.2, (installationStamp options.priorityClassPrefix).On doc) := by
  obtain ⟨intents, hintents, h⟩ := bind_eq_ok.mp h
  obtain ⟨classes, hclasses, h⟩ := bind_eq_ok.mp h
  obtain ⟨groups, hgroups, h⟩ := bind_eq_ok.mp h
  rw [← Except.ok.inj h]
  intro file hfile
  rcases List.mem_append.mp hfile with hfile | hfile
  · obtain ⟨hname, hemit, hne, hdocs⟩ := priorityClassFiles_stamped hclasses file hfile
    exact ⟨hne, .inr ⟨hname, hemit, hdocs⟩⟩
  · obtain ⟨group, hgroup, hfile⟩ := List.mem_flatten.mp hfile
    obtain ⟨intent, hintent, hkueue⟩ := exists_of_mem_forall₂ (mapM_eq_ok.mp hgroups) hgroup
    obtain ⟨_, hne, hdocs⟩ := kueueFiles_stamped host hkueue file hfile
    rw [missionId_of_compiled host hintents intent hintent] at hdocs
    exact ⟨hne, .inl hdocs⟩

/-- A file `render-argo` plans is the file of a workflow. -/
theorem plannedWorkflows_name {plan : MissionPlan} {options : ArgoOptions}
    {files : List (String × List Json)} (h : plannedWorkflows host plan options = .ok files) :
    ∀ file ∈ files, ∃ intent, intent.workflowName ∈ workflowNames host.sha plan ∧
      file.1 = argoFileName intent := by
  obtain ⟨intents, hintents, h⟩ := bind_eq_ok.mp h
  intro file hfile
  obtain ⟨intent, hintent, hargo⟩ := exists_of_mem_forall₂ (mapM_eq_ok.mp h) hfile
  exact ⟨intent, workflowName_of_compiled hintents hintent, (argoFile_stamped host hargo).1⟩

/-- A file `render-kueue` plans is the file of a job, of a scheduler's claim, or of the priority
classes it was asked for. -/
theorem plannedJobs_name {plan : MissionPlan} {options : KueueOptions}
    {files : List (String × List Json)} (h : plannedJobs host plan options = .ok files) :
    ∀ file ∈ files, options.emitPriorityClasses = true ∨
      ∃ intent, file.1 = kueueFileName intent ∨ file.1 = schedulerFallbackFileName intent := by
  obtain ⟨intents, _, h⟩ := bind_eq_ok.mp h
  obtain ⟨classes, hclasses, h⟩ := bind_eq_ok.mp h
  obtain ⟨groups, hgroups, h⟩ := bind_eq_ok.mp h
  rw [← Except.ok.inj h]
  intro file hfile
  rcases List.mem_append.mp hfile with hfile | hfile
  · exact .inl (priorityClassFiles_stamped hclasses file hfile).2.1
  · obtain ⟨group, hgroup, hfile⟩ := List.mem_flatten.mp hfile
    obtain ⟨intent, _, hkueue⟩ := exists_of_mem_forall₂ (mapM_eq_ok.mp hgroups) hgroup
    exact .inr ⟨intent, (kueueFiles_stamped host hkueue file hfile).1⟩

end MissionCompiler.Render
