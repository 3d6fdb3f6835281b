import MissionCompiler.Cli.Steps

/-!
# The render commands

`cmd_render_argo`, with and without the lint gate, and `cmd_render_kueue`. A plan is loaded
before the command starts; what the options of the command line select is in `ArgoOptions` and
`KueueOptions`.
-/

namespace MissionCompiler.Cli

open Lib Schema Names Compile Render Artifact Publish

variable {τ σ : Type} [Scalars σ]

/-! ## What a run reconciles -/

/-- `_scope_of` and `_owner_of` for `render-argo`, which looks at no cluster-scoped file. -/
def argoReconciliation (host : Host) (plan : MissionPlan) : Reconciliation :=
  ⟨rendererArgo, [missionFingerprint host.sha plan.missionId], some [plan.missionId],
    false, none, false⟩

/-- `_scope_of` and `_owner_of` for `render-kueue`, whose installation is its class prefix. -/
def kueueReconciliation (host : Host) (plan : MissionPlan) (classPrefix : String)
    (pruneGlobal : Bool) : Reconciliation :=
  ⟨rendererKueue, [missionFingerprint host.sha plan.missionId], some [plan.missionId],
    true, some classPrefix, pruneGlobal⟩

section

variable (c : Circumstances τ) (format : Format τ σ) (host : Host)

/-! ## Argo -/

/-- `write_individual_workflows`. What is planned is compared as documents, before it is
dumped. -/
def writeIndividualWorkflows (place : Place) (plan : MissionPlan) (options : ArgoOptions) :
    Run τ (List String) := do
  Session.lift .raised (c.policy plan)
  let planned ← Session.lift .raised (plannedWorkflows host plan options)
  Session.lift .raised (preflightUnique (planned.map Prod.fst))
  preflight format .raised place fun _ =>
    planned.map fun file => (file.1, some (file.2.map Yaml.ofJson))
  writeAll c format place planned
  return planned.map Prod.fst

/-- What a command has rendered before it looks for stale files: the names it wrote, and what the
gate has to say of them. -/
abbrev Rendered (τ : Type) := List String × Option (Lint τ)

/-- `cmd_render_argo` without the gate, up to its `_report_stale`. -/
def renderUngated (plan : MissionPlan) (options : ArgoOptions) : Run τ (Rendered τ) := do
  takeLock c.lock
  let written ← writeIndividualWorkflows c format host .out plan options
  return (written, none)

/-! ## The lint gate -/

/-- `leaving`: the names of the files `--prune` is expected to remove. -/
def leavingNames (run : Reconciliation) (prune : Bool) (current : List String)
    (files : List (String × Entry τ)) : Except Exn (List String) :=
  if prune then do
    let stale ← staleRenderedArtifacts format run current files
    let (mine, _) ← attributeStale format run stale
    return mine.map Prod.fst
  else .ok []

/-- What the gate does with an existing manifest that is neither replaced nor leaving: a link is
refused, a regular file is copied beside the staged ones. -/
def carryEntry (name : String) : Entry τ → Run τ (List String)
  | .symlink _ => Session.stop (.symlinkedManifest name)
  | .regular text => do
    Session.call .snapshotFailed
      (FileSystem.write c.faults (.staging, name) (.regular text))
    return [name]
  | .other => pure []

/-- The body of the loop over the existing manifests. -/
def carryUnless (skipped : List String) (name : String) (entry : Entry τ) :
    Run τ (List String) :=
  if skipped.contains name then pure [] else carryEntry c name entry

/-- The loop over the existing manifests, which gives the copies it made. -/
def carryManifests (skipped : List String) : List (String × Entry τ) → Run τ (List String)
  | [] => pure []
  | (name, entry) :: rest => do
    let here ← carryUnless c skipped name entry
    let carried ← carryManifests skipped rest
    return here ++ carried

/-- The snapshot: the staging directory comes to hold what the output directory would. -/
def snapshot (run : Reconciliation) (prune : Bool) (current : List String) :
    Run τ (List String) := do
  Session.call .snapshotFailed (FileSystem.look c.faults)
  let files ← Session.reads (listing .out)
  Session.call .snapshotFailed (FileSystem.look c.faults)
  let leaving ← Session.lift .raised (leavingNames format run prune current files)
  carryManifests c (current ++ leaving) (files.filter fun file => isManifestName file.1)

/-- The copies are removed before anything is published. -/
def dropCarried : List String → Run τ Unit
  | [] => pure ()
  | name :: rest => do
    Session.call .stagingCleanupFailed (FileSystem.unlink c.faults (.staging, name))
    dropCarried rest

/-- What the linter logs, with status 0, for a file it could not read. -/
def skippedFileMarker : String := "msg=\"yaml file is not valid\""

/-- Whether an answer of the linter is an acceptance. -/
def accepts (accepted : Bool) (output : String) : Bool :=
  accepted && !decide (skippedFileMarker.toList <:+: output.toList)

/-- What becomes of an answer of the linter. The copies go before the verdict is acted on. -/
def actOnAnswer (carried : List String) (linted : String → Option τ) :
    LintAnswer → Run τ (Lint τ)
  | .unavailable => Session.stop .lintUnavailable
  | .answered accepted output => do
    dropCarried c carried
    Session.require (.lintFailed output) (accepts accepted output)
    return .passed linted

/-- The lint of the snapshot, once every document of it can be read. -/
def lintSnapshot (carried : List String) : Run τ (Lint τ) := do
  let linted ← Session.reads stagedTexts
  Session.require (.unreadable (c.unreadable linted)) (c.unreadable linted).isEmpty
  actOnAnswer c carried linted (c.lint linted)

/-- The documents of the staged files, as they are read back. -/
def stagedDocuments (names : List String) (dir : Directory τ) :
    List (String × Option (List (Yaml σ))) :=
  names.map fun name => (name, (stagedTexts dir name).bind format.load)

/-- The gate over a render that is not empty, up to its `_report_stale`. -/
def lintAndPublish (plan : MissionPlan) (prune : Bool) (written : List String) :
    Run τ (Rendered τ) := do
  takeLockOrStop c.lock
  let carried ← snapshot c format (argoReconciliation host plan) prune written
  let lint ← lintSnapshot c carried
  preflight format ownershipReport .out (stagedDocuments format written)
  publishSet c written
  return (written, some lint)

/-- `_reconcile_empty_render`, up to its `_report_stale`. -/
def reconcileEmptyRender : Run τ (Rendered τ) := do
  takeLockOrStop c.lock
  return ([], some .notApplicable)

/-- What the gate does once it has rendered. -/
def gateRendered (plan : MissionPlan) (prune : Bool) (written : List String) :
    Run τ (Rendered τ) :=
  if written.isEmpty && prune then reconcileEmptyRender c
  else if !c.argoFound then Session.stop .lintUnavailable
  else if written.isEmpty then Session.stop .noManifests
  else lintAndPublish c format host plan prune written

/-- `_render_argo_with_lint_gate`, up to its `_report_stale`. -/
def renderGated (plan : MissionPlan) (options : ArgoOptions) (prune : Bool) :
    Run τ (Rendered τ) := do
  makeStaging
  let written ← writeIndividualWorkflows c format host .staging plan options
  gateRendered c format host plan prune written

/-! ## Kueue -/

/-- `cmd_render_kueue`, up to its `_report_stale`. -/
def renderKueue (plan : MissionPlan) (options : KueueOptions) : Run τ (Rendered τ) := do
  Session.lift .raised (c.policy plan)
  let planned ← Session.lift .raised (plannedJobs host plan options)
  takeLock c.lock
  Session.lift ownershipReport (preflightUnique (planned.map Prod.fst))
  preflight format ownershipReport .out fun _ =>
    planned.map fun file => (file.1, format.load (format.dump file.2))
  makeStaging
  writeAll c format .staging planned
  publishSet c (planned.map Prod.fst)
  return (planned.map Prod.fst, none)

end

/-! ## Commands -/

/-- A command line. -/
inductive Command where
  | renderArgo (plan : MissionPlan) (options : ArgoOptions) (argoLint prune : Bool)
  | renderKueue (plan : MissionPlan) (options : KueueOptions) (prune pruneGlobal : Bool)

namespace Command

/-- What a command renders. -/
def render (c : Circumstances τ) (format : Format τ σ) (host : Host) :
    Command → Run τ (Rendered τ)
  | .renderArgo plan options true prune => renderGated c format host plan options prune
  | .renderArgo plan options false _ => renderUngated c format host plan options
  | .renderKueue plan options _ _ => Cli.renderKueue c format host plan options

/-- What a command reconciles. -/
def reconciliation (host : Host) : Command → Reconciliation
  | .renderArgo plan _ _ _ => argoReconciliation host plan
  | .renderKueue plan options _ pruneGlobal =>
    kueueReconciliation host plan options.priorityClassPrefix pruneGlobal

/-- Whether a command was given `--prune`. -/
def prune : Command → Bool
  | .renderArgo _ _ _ prune => prune
  | .renderKueue _ _ prune _ => prune

/-- `cmd_render_argo` and `cmd_render_kueue`: what was rendered, and then `_report_stale`. -/
def run (c : Circumstances τ) (format : Format τ σ) (host : Host) (command : Command) :
    Run τ (Report τ) := do
  let rendered ← command.render c format host
  let stale ← reportStale c format (command.reconciliation host) command.prune rendered.1
  return ⟨rendered.1, rendered.2, stale⟩

end Command

end MissionCompiler.Cli
